import Mathlib.Data.List.Basic

/-!
# Parsers that fail

A parser consumes a state and returns a value or fails. The rules here take a
parser apart into its steps, for both ends. A parser over a list reads a language
exactly when it accepts a word of it in front of anything; such a language can be
decoded in one way only.
-/

namespace Parser

variable {σ τ ε α β : Type}

/-! ### The two ends of a parser -/

section

variable {p : StateT σ (Except ε) α} {f : α → StateT σ (Except ε) β} {s s' : σ}

theorem run_bind_ok {b : β} :
    (p >>= f).run s = .ok (b, s') ↔
      ∃ a s₁, p.run s = .ok (a, s₁) ∧ (f a).run s₁ = .ok (b, s') := by
  rw [StateT.run_bind]
  cases hp : p.run s with
  | error e => simp [bind, Except.bind]
  | ok v =>
    obtain ⟨a, s₁⟩ := v
    constructor
    · intro h
      exact ⟨a, s₁, rfl, h⟩
    · rintro ⟨a', s₁', h, hf⟩
      cases h
      exact hf

theorem run_bind_error {e : ε} :
    (p >>= f).run s = .error e ↔
      p.run s = .error e ∨ ∃ a s₁, p.run s = .ok (a, s₁) ∧ (f a).run s₁ = .error e := by
  rw [StateT.run_bind]
  cases hp : p.run s with
  | error e' => simp [bind, Except.bind]
  | ok v =>
    obtain ⟨a, s₁⟩ := v
    constructor
    · intro h
      exact .inr ⟨a, s₁, rfl, h⟩
    · rintro (h | ⟨a', s₁', h, hf⟩)
      · cases h
      · cases h
        exact hf

/-- A step that succeeds passes the rest on. -/
theorem run_bind_of_ok {a : α} (h : p.run s = .ok (a, s')) : (p >>= f).run s = (f a).run s' := by
  rw [StateT.run_bind, h]
  rfl

/-- A step that fails ends the parser. -/
theorem run_bind_of_error {e : ε} (h : p.run s = .error e) : (p >>= f).run s = .error e := by
  rw [StateT.run_bind, h]
  rfl

theorem run_map_of_ok {g : α → β} {a : α} (h : p.run s = .ok (a, s')) :
    (g <$> p).run s = .ok (g a, s') := by
  rw [StateT.run_map, h]
  rfl

theorem run_pure_ok {a b : α} :
    (pure a : StateT σ (Except ε) α).run s = .ok (b, s') ↔ a = b ∧ s = s' := by
  rw [StateT.run_pure]
  simp [pure, Except.pure]

theorem run_pure_error {a : α} {e : ε} :
    ¬(pure a : StateT σ (Except ε) α).run s = .error e := by
  rw [StateT.run_pure]
  simp [pure, Except.pure]

theorem run_throw_ok {a : α} {e : ε} :
    ¬(throw e : StateT σ (Except ε) α).run s = .ok (a, s') := by
  intro h
  cases h

/-- A check that ends the parser when it fails. -/
theorem run_check_ok {c : Prop} [Decidable c] {e : ε} {q : Unit → StateT σ (Except ε) β} {b : β} :
    (if c then throw e >>= q else q ()).run s = .ok (b, s') ↔ ¬c ∧ (q ()).run s = .ok (b, s') := by
  by_cases hc : c
  · rw [if_pos hc]
    refine iff_of_false (fun h => ?_) fun h => h.1 hc
    cases h
  · rw [if_neg hc]
    exact ⟨fun h => ⟨hc, h⟩, fun h => h.2⟩

theorem run_check_error {c : Prop} [Decidable c] {e e' : ε} {q : Unit → StateT σ (Except ε) β} :
    (if c then throw e >>= q else q ()).run s = .error e' ↔
      c ∧ e = e' ∨ ¬c ∧ (q ()).run s = .error e' := by
  by_cases hc : c
  · rw [if_pos hc]
    constructor
    · intro h
      cases h
      exact .inl ⟨hc, rfl⟩
    · rintro (⟨-, rfl⟩ | ⟨hc', -⟩)
      · rfl
      · exact absurd hc hc'
  · rw [if_neg hc]
    constructor
    · intro h
      exact .inr ⟨hc, h⟩
    · rintro (⟨hc', -⟩ | ⟨-, h⟩)
      · exact absurd hc' hc
      · exact h

end

/-! ### Another error -/

section

variable {ε' : Type} {g : ε → ε'} {p : StateT σ (Except ε) α} {s s' : σ}

/-- The parser with its errors renamed, `map_err`. -/
def mapErr (g : ε → ε') (p : StateT σ (Except ε) α) : StateT σ (Except ε') α := fun s =>
  match p.run s with
  | .ok v => .ok v
  | .error e => .error (g e)

theorem run_mapErr_ok {a : α} : (mapErr g p).run s = .ok (a, s') ↔ p.run s = .ok (a, s') := by
  have hrun : (mapErr g p).run s = (match p.run s with
    | .ok v => .ok v
    | .error e => .error (g e)) := rfl
  rw [hrun]
  cases p.run s with
  | ok v => simp
  | error e => simp

theorem run_mapErr_error {e' : ε'} :
    (mapErr g p).run s = .error e' ↔ ∃ e, p.run s = .error e ∧ g e = e' := by
  have hrun : (mapErr g p).run s = (match p.run s with
    | .ok v => .ok v
    | .error e => .error (g e)) := rfl
  rw [hrun]
  cases p.run s with
  | ok v => simp
  | error e => simp

end

/-! ### Languages -/

/-- The parser accepts a word for `a` in front of anything, and nothing else. -/
def Exact (p : StateT (List τ) (Except ε) α) (words : α → List τ → Prop) : Prop :=
  ∀ a input rest, p.run input = .ok (a, rest) ↔ ∃ w, words a w ∧ input = w ++ rest

theorem exact_pure (a : α) :
    Exact (pure a : StateT (List τ) (Except ε) α) fun b w => b = a ∧ w = [] := by
  intro b input rest
  rw [run_pure_ok]
  constructor
  · rintro ⟨rfl, rfl⟩
    exact ⟨[], ⟨rfl, rfl⟩, rfl⟩
  · rintro ⟨_, ⟨rfl, rfl⟩, rfl⟩
    exact ⟨rfl, rfl⟩

/-- What two parsers read one after the other. -/
theorem Exact.bind {p : StateT (List τ) (Except ε) α} {f : α → StateT (List τ) (Except ε) β}
    {P : α → List τ → Prop} {Q : α → β → List τ → Prop} (hp : Exact p P)
    (hf : ∀ a, Exact (f a) (Q a)) :
    Exact (p >>= f) fun b w => ∃ a u v, P a u ∧ Q a b v ∧ w = u ++ v := by
  intro b input rest
  rw [run_bind_ok]
  constructor
  · rintro ⟨a, mid, ha, hb⟩
    obtain ⟨u, hu, rfl⟩ := (hp a input mid).1 ha
    obtain ⟨v, hv, rfl⟩ := (hf a b mid rest).1 hb
    exact ⟨u ++ v, ⟨a, u, v, hu, hv, rfl⟩, (List.append_assoc ..).symm⟩
  · rintro ⟨_, ⟨a, u, v, hu, hv, rfl⟩, rfl⟩
    refine ⟨a, v ++ rest, (hp ..).2 ⟨u, hu, List.append_assoc ..⟩, (hf ..).2 ⟨v, hv, rfl⟩⟩

theorem Exact.congr {p : StateT (List τ) (Except ε) α} {P Q : α → List τ → Prop} (hp : Exact p P)
    (h : ∀ a w, P a w ↔ Q a w) : Exact p Q := by
  intro a input rest
  rw [hp a input rest]
  exact exists_congr fun w => and_congr_left' (h a w)

/-- A language that a parser reads exactly is decoded in one way only. -/
theorem Exact.unique {p : StateT (List τ) (Except ε) α} {words : α → List τ → Prop}
    (h : Exact p words) {a b : α} {u v r s : List τ} (hu : words a u) (hv : words b v)
    (heq : u ++ r = v ++ s) : a = b ∧ r = s := by
  have hleft := (h a (u ++ r) r).2 ⟨u, hu, rfl⟩
  have hright := (h b (u ++ r) s).2 ⟨v, hv, heq⟩
  rw [hleft] at hright
  cases hright
  exact ⟨rfl, rfl⟩

/-! ### Reading to the end -/

/-- Runs `step` as long as input is left. Every round is to consume some, so that
the length of the input is enough `fuel`. -/
def drain [Inhabited ε] (step : σ → StateT (List τ) (Except ε) σ) :
    (fuel : ℕ) → σ → List τ → Except ε σ
  | _, s, [] => .ok s
  | 0, _, _ :: _ => .error default
  | fuel + 1, s, t :: input =>
    match (step s).run (t :: input) with
    | .error e => .error e
    | .ok (s', rest) => drain step fuel s' rest

/-- When each round reads the word of one item, the input is a sequence of such
words, and the result is what the items make of the start. -/
theorem drain_ok [Inhabited ε] {step : σ → StateT (List τ) (Except ε) σ}
    (words : α → List τ → Prop) (next : σ → α → Option σ)
    (hstep : ∀ s input s' rest, (step s).run input = .ok (s', rest) ↔
      ∃ a w, words a w ∧ input = w ++ rest ∧ next s a = some s')
    (hne : ∀ a w, words a w → w ≠ []) {fuel : ℕ} {s s' : σ} {input : List τ}
    (hfuel : input.length ≤ fuel) :
    drain step fuel s input = .ok s' ↔
      ∃ items ws, List.Forall₂ words items ws ∧ input = ws.flatten ∧
        items.foldlM next s = some s' := by
  have hnil : ∀ s, (∃ items ws, List.Forall₂ words items ws ∧ ([] : List τ) = ws.flatten ∧
      items.foldlM next s = some s') ↔ s = s' := by
    intro s
    constructor
    · rintro ⟨items, ws, hwords, hflat, hfold⟩
      cases hwords with
      | nil => simpa using hfold
      | @cons a w items ws hw hwords =>
        have hw' : w = [] := by
          rw [List.flatten_cons] at hflat
          exact (List.append_eq_nil_iff.1 hflat.symm).1
        exact absurd hw' (hne a w hw)
    · rintro rfl
      exact ⟨[], [], .nil, rfl, rfl⟩
  -- Each round reads a word that is not empty, so the fuel outlasts the input.
  induction fuel generalizing s input with
  | zero =>
    obtain rfl : input = [] := List.length_eq_zero_iff.1 (by omega)
    rw [hnil, drain, Except.ok.injEq]
  | succ fuel ih =>
    cases input with
    | nil => rw [hnil, drain, Except.ok.injEq]
    | cons t input =>
      -- What is left behind a word is within the fuel that is left.
      have hshort : ∀ {a w rest}, words a w → t :: input = w ++ rest → rest.length ≤ fuel := by
        intro a w rest hw hinput
        have hlen := congrArg List.length hinput
        have hpos := List.length_pos_iff.2 (hne a w hw)
        simp only [List.length_cons, List.length_append] at hlen hfuel
        omega
      constructor
      · intro h
        rw [drain] at h
        cases hrun : (step s).run (t :: input) with
        | error e => rw [hrun] at h; cases h
        | ok v =>
          obtain ⟨s₁, rest⟩ := v
          rw [hrun] at h
          obtain ⟨a, w, hw, hinput, hnext⟩ := (hstep _ _ _ _).1 hrun
          obtain ⟨items, ws, hwords, rfl, hfold⟩ := (ih (hshort hw hinput)).1 h
          refine ⟨a :: items, w :: ws, .cons hw hwords, by rw [hinput, List.flatten_cons], ?_⟩
          rw [List.foldlM_cons, hnext]
          exact hfold
      · rintro ⟨items, ws, hwords, hinput, hfold⟩
        cases hwords with
        | nil => cases hinput
        | @cons a w items ws hw hwords =>
          rw [List.flatten_cons] at hinput
          rw [List.foldlM_cons] at hfold
          obtain ⟨s₁, hnext, hfold⟩ := Option.bind_eq_some_iff.1 hfold
          rw [drain, (hstep _ _ _ _).2 ⟨a, w, hw, hinput, hnext⟩]
          exact (ih (hshort hw hinput)).2 ⟨items, ws, hwords, rfl, hfold⟩

end Parser
