import Mathlib.Data.List.Basic
import Mathlib.Tactic.Ring

/-!
# Programs that fail and runs of a machine

A program here reads and changes a state and either returns a value or fails;
the state it had reached survives a failure. `Ensures` is its weakest
precondition, with one postcondition for each of the two ends. A machine is a
partial step function; a property kept by every step is kept along every run.
-/

namespace Program

/-! ### Programs -/

/-- A program over the state `σ` that returns an `α` or fails with an `ε`. -/
def Prog (σ ε α : Type) : Type := σ → Except ε α × σ

variable {σ ε α β : Type}

/-- Runs the second program on what the first returned. -/
def Prog.bind (p : Prog σ ε α) (f : α → Prog σ ε β) : Prog σ ε β := fun s =>
  match p s with
  | (.ok a, s') => f a s'
  | (.error e, s') => (.error e, s')

instance : Monad (Prog σ ε) where
  pure a := fun s => (.ok a, s)
  bind := Prog.bind

/-- A value of the current state. -/
def look (f : σ → α) : Prog σ ε α := fun s => (.ok (f s), s)

/-- Changes the state. -/
def update (f : σ → σ) : Prog σ ε Unit := fun s => (.ok (), f s)

/-- Fails. -/
def fail (e : ε) : Prog σ ε α := fun s => (.error e, s)

/-- Runs the program and ignores whether it failed. -/
def attempt (p : Prog σ ε α) : Prog σ ε Unit := fun s => (.ok (), (p s).2)

/-- Runs the program and returns its result, whether it failed or not. -/
def reified (p : Prog σ ε α) : Prog σ ε (Except ε α) := fun s => (.ok (p s).1, (p s).2)

/-- Changes the error. -/
def mapError {ε' : Type} (f : ε → ε') (p : Prog σ ε α) : Prog σ ε' α := fun s =>
  match p s with
  | (.ok a, s') => (.ok a, s')
  | (.error e, s') => (.error (f e), s')

/-- Returns the value, or fails with the error. -/
def ofExcept (result : Except ε α) : Prog σ ε α := fun s => (result, s)

/-- Fails with the error, if there is one. -/
def failWith : Option ε → Prog σ ε Unit
  | some e => fail e
  | none => pure ()

/-- Runs `f` on the entries in order, up to the first failure. -/
def forEach (f : α → Prog σ ε Unit) : List α → Prog σ ε Unit
  | [] => pure ()
  | a :: as => f a >>= fun _ => forEach f as

/-- A program over one part of a larger state. -/
def zoom {τ : Type} (get : τ → σ) (set : τ → σ → τ) (p : Prog σ ε α) : Prog τ ε α := fun t =>
  ((p (get t)).1, set t (p (get t)).2)

/-- From `s` the program returns into `ok`, or fails into `err`. -/
def Prog.Ensures (p : Prog σ ε α) (s : σ) (ok : α → σ → Prop) (err : ε → σ → Prop) : Prop :=
  match p s with
  | (.ok a, s') => ok a s'
  | (.error e, s') => err e s'

variable {s : σ} {ok ok' : α → σ → Prop} {err err' : ε → σ → Prop}

@[simp] theorem ensures_pure {a : α} : (pure a : Prog σ ε α).Ensures s ok err ↔ ok a s :=
  Iff.rfl

@[simp] theorem ensures_look {f : σ → α} : (look f : Prog σ ε α).Ensures s ok err ↔ ok (f s) s :=
  Iff.rfl

@[simp] theorem ensures_update {f : σ → σ} {ok : Unit → σ → Prop} :
    (update f : Prog σ ε Unit).Ensures s ok err ↔ ok () (f s) :=
  Iff.rfl

@[simp] theorem ensures_fail {e : ε} : (fail e : Prog σ ε α).Ensures s ok err ↔ err e s :=
  Iff.rfl

@[simp] theorem ensures_bind {p : Prog σ ε α} {f : α → Prog σ ε β} {ok : β → σ → Prop} :
    (p >>= f).Ensures s ok err ↔ p.Ensures s (fun a s' => (f a).Ensures s' ok err) err := by
  change (p.bind f).Ensures s ok err ↔ _
  unfold Prog.Ensures Prog.bind
  rcases p s with ⟨_ | _, _⟩ <;> rfl

theorem ensures_ite {c : Prop} [Decidable c] {p q : Prog σ ε α} (h : c → p.Ensures s ok err)
    (h' : ¬c → q.Ensures s ok err) : (if c then p else q).Ensures s ok err := by
  by_cases hc : c
  · rw [if_pos hc]
    exact h hc
  · rw [if_neg hc]
    exact h' hc

@[simp] theorem ensures_mapError {ε' : Type} {f : ε → ε'} {p : Prog σ ε α} {err : ε' → σ → Prop} :
    (mapError f p).Ensures s ok err ↔ p.Ensures s ok fun e => err (f e) := by
  unfold Prog.Ensures mapError
  rcases p s with ⟨_ | _, _⟩ <;> rfl

theorem ensures_failWith {error : Option ε} {ok : Unit → σ → Prop} :
    (failWith error : Prog σ ε Unit).Ensures s ok err ↔
      (error = none → ok () s) ∧ ∀ e, error = some e → err e s := by
  cases error with
  | none => simp [failWith]
  | some e => simp [failWith]

/-- The consequence rule, with the run at hand. -/
theorem Prog.Ensures.mono_run {p : Prog σ ε α} (h : p.Ensures s ok err)
    (hok : ∀ a s', p s = (.ok a, s') → ok a s' → ok' a s')
    (herr : ∀ e s', p s = (.error e, s') → err e s' → err' e s') : p.Ensures s ok' err' := by
  unfold Prog.Ensures at *
  rcases hp : p s with ⟨e | a, s'⟩
  · rw [hp] at h
    exact herr e s' hp h
  · rw [hp] at h
    exact hok a s' hp h

theorem Prog.Ensures.mono {p : Prog σ ε α} (h : p.Ensures s ok err)
    (hok : ∀ a s', ok a s' → ok' a s') (herr : ∀ e s', err e s' → err' e s') :
    p.Ensures s ok' err' :=
  h.mono_run (fun a s' _ => hok a s') fun e s' _ => herr e s'

/-- What `Ensures` says about a program that returned. -/
theorem Prog.Ensures.of_ok {p : Prog σ ε α} (h : p.Ensures s ok err) {a : α} {s' : σ}
    (hrun : p s = (.ok a, s')) : ok a s' := by
  unfold Prog.Ensures at h
  rwa [hrun] at h

/-- What `Ensures` says about a program that failed. -/
theorem Prog.Ensures.of_error {p : Prog σ ε α} (h : p.Ensures s ok err) {e : ε} {s' : σ}
    (hrun : p s = (.error e, s')) : err e s' := by
  unfold Prog.Ensures at h
  rwa [hrun] at h

theorem Prog.Ensures.and {p : Prog σ ε α} (h : p.Ensures s ok err) (h' : p.Ensures s ok' err') :
    p.Ensures s (fun a s' => ok a s' ∧ ok' a s') fun e s' => err e s' ∧ err' e s' := by
  unfold Prog.Ensures at *
  rcases hp : p s with ⟨e | a, s'⟩
  · rw [hp] at h h'
    exact ⟨h, h'⟩
  · rw [hp] at h h'
    exact ⟨h, h'⟩

/-- A program that cannot fail returns. -/
theorem Prog.Ensures.exists_ok {p : Prog σ ε α} (h : p.Ensures s ok fun _ _ => False) :
    ∃ a s', p s = (.ok a, s') ∧ ok a s' := by
  unfold Prog.Ensures at h
  rcases hp : p s with ⟨e | a, s'⟩
  · rw [hp] at h
    exact h.elim
  · rw [hp] at h
    exact ⟨a, s', rfl, h⟩

/-- A program that cannot return fails. -/
theorem Prog.Ensures.exists_error {p : Prog σ ε α} (h : p.Ensures s (fun _ _ => False) err) :
    ∃ e s', p s = (.error e, s') ∧ err e s' := by
  unfold Prog.Ensures at h
  rcases hp : p s with ⟨e | a, s'⟩
  · rw [hp] at h
    exact ⟨e, s', rfl, h⟩
  · rw [hp] at h
    exact h.elim

/-- A program whose only end is known computes it. -/
theorem eq_of_ensures {p : Prog σ ε α} {a : α} {s' : σ}
    (h : p.Ensures s (fun b t => b = a ∧ t = s') fun _ _ => False) : p s = (.ok a, s') := by
  obtain ⟨_, _, hp, rfl, rfl⟩ := h.exists_ok
  exact hp

/-- An ignored failure: both ends continue. -/
theorem ensures_attempt {p : Prog σ ε α} {ok : Unit → σ → Prop} :
    (attempt p).Ensures s ok err ↔ p.Ensures s (fun _ => ok ()) (fun _ => ok ()) := by
  unfold Prog.Ensures attempt
  rcases p s with ⟨_ | _, _⟩ <;> rfl

/-- A failure that is looked at: both ends continue. -/
@[simp] theorem ensures_reified {p : Prog σ ε α} {ok : Except ε α → σ → Prop} :
    (reified p).Ensures s ok err ↔ p.Ensures s (fun a => ok (.ok a)) fun e => ok (.error e) := by
  unfold Prog.Ensures reified
  rcases p s with ⟨_ | _, _⟩ <;> rfl

@[simp] theorem ensures_zoom {τ : Type} {get : τ → σ} {set : τ → σ → τ} {p : Prog σ ε α} {t : τ}
    {ok : α → τ → Prop} {err : ε → τ → Prop} :
    (zoom get set p).Ensures t ok err ↔
      p.Ensures (get t) (fun a s' => ok a (set t s')) fun e s' => err e (set t s') := by
  unfold Prog.Ensures zoom
  rcases p (get t) with ⟨_ | _, _⟩ <;> rfl

/-- The program returns into states related to the first by `R`, and fails into
states related to it by `S`. -/
def Prog.Within (p : Prog σ ε α) (R S : σ → σ → Prop) : Prop :=
  ∀ s, p.Ensures s (fun _ => R s) fun _ => S s

section Within

variable {R S : σ → σ → Prop}

theorem within_pure (hrefl : ∀ s, R s s) (a : α) : (pure a : Prog σ ε α).Within R S := hrefl

theorem within_look (hrefl : ∀ s, R s s) (f : σ → α) : (look f : Prog σ ε α).Within R S := hrefl

theorem Prog.Within.bind {p : Prog σ ε α} {f : α → Prog σ ε β} (hp : p.Within R S)
    (hf : ∀ a, (f a).Within R S) (hR : ∀ s s₁ s', R s s₁ → R s₁ s' → R s s')
    (hS : ∀ s s₁ s', R s s₁ → S s₁ s' → S s s') : (p >>= f).Within R S := by
  intro s
  rw [ensures_bind]
  refine (hp s).mono (fun a s₁ h => ?_) fun _ _ h => h
  exact (hf a s₁).mono (fun _ s' h' => hR s s₁ s' h h') fun _ s' h' => hS s s₁ s' h h'

end Within

/-- What each round keeps, the loop keeps, and what each round shows of its entry holds of all
of them. -/
theorem ensures_forEach_all {f : α → Prog σ ε Unit} {as : List α} {I : σ → Prop} {Q : α → Prop}
    (hround : ∀ a ∈ as, ∀ s, I s → (f a).Ensures s (fun _ s' => I s' ∧ Q a) err) (h : I s) :
    (forEach f as).Ensures s (fun _ s' => I s' ∧ ∀ a ∈ as, Q a) err := by
  induction as generalizing s with
  | nil => exact ⟨h, nofun⟩
  | cons a as ih =>
    rw [forEach, ensures_bind]
    refine (hround a List.mem_cons_self s h).mono (fun _ s₁ h₁ => ?_) fun _ _ h => h
    refine (ih (fun b hb => hround b (List.mem_cons_of_mem a hb)) h₁.1).mono (fun _ s₂ h₂ => ?_)
      fun _ _ h => h
    exact ⟨h₂.1, List.forall_mem_cons.2 ⟨h₁.2, h₂.2⟩⟩

theorem ensures_forEach {f : α → Prog σ ε Unit} {as : List α} {I : σ → Prop}
    (hround : ∀ a ∈ as, ∀ s, I s → (f a).Ensures s (fun _ => I) err) (h : I s) :
    (forEach f as).Ensures s (fun _ => I) err :=
  (ensures_forEach_all (Q := fun _ => True)
    (fun a ha s h => (hround a ha s h).mono (fun _ _ h => ⟨h, trivial⟩) fun _ _ h => h) h).mono
    (fun _ _ h => h.1) fun _ _ h => h

/-- A loop that ran through goes on with the next entry. -/
theorem forEach_concat {f : α → Prog σ ε Unit} {as : List α} {a : α} {s s' : σ}
    (h : forEach f as s = (.ok (), s')) : forEach f (as ++ [a]) s = f a s' := by
  induction as generalizing s with
  | nil =>
    cases h
    simp only [List.nil_append, forEach, bind, Prog.bind]
    rcases f a s' with ⟨_ | ⟨⟩, _⟩ <;> rfl
  | cons b as ih =>
    simp only [List.cons_append, forEach, bind, Prog.bind] at h ⊢
    rcases hb : f b s with ⟨_ | _, t⟩
    · rw [hb] at h
      cases h
    · rw [hb] at h
      exact ih h

/-! ### What was returned -/

theorem bind_ok_iff {p : Prog σ ε α} {f : α → Prog σ ε β} {b : β} {s' : σ} :
    (p >>= f) s = (.ok b, s') ↔ ∃ a s₁, p s = (.ok a, s₁) ∧ f a s₁ = (.ok b, s') := by
  change p.bind f s = _ ↔ _
  unfold Prog.bind
  rcases hp : p s with ⟨e | a, s₁⟩
  · exact iff_of_false (fun h => by cases h) fun ⟨_, _, h, _⟩ => by cases h
  · refine ⟨fun h => ⟨a, s₁, rfl, h⟩, ?_⟩
    rintro ⟨a', s₁', h, hf⟩
    cases h
    exact hf

theorem mapError_ok_iff {ε' : Type} {g : ε → ε'} {p : Prog σ ε α} {a : α} {s' : σ} :
    mapError g p s = (.ok a, s') ↔ p s = (.ok a, s') := by
  unfold mapError
  rcases p s with ⟨e | a', s₁⟩
  · exact iff_of_false (fun h => by cases h) fun h => by cases h
  · exact ⟨fun h => by cases h; rfl, fun h => by cases h; rfl⟩

theorem failWith_ok_iff {error : Option ε} {u : Unit} {s' : σ} :
    failWith error s = (.ok u, s') ↔ error = none ∧ s = s' := by
  cases error with
  | none => exact ⟨fun h => ⟨rfl, (Prod.mk.inj h).2⟩, fun h => by rw [h.2]; rfl⟩
  | some e => exact iff_of_false (fun h => by cases h) fun h => by cases h.1

/-! ### Runs -/

variable {ι : Type}

/-- A run: the inputs in order, as long as each step is enabled. -/
def run (step : σ → ι → Option σ) (s : σ) : List ι → Option σ
  | [] => some s
  | i :: is => (step s i).bind fun s' => run step s' is

/-- Every step of the run meets the condition in the state it starts from. -/
def Along (step : σ → ι → Option σ) (cond : σ → ι → Prop) (s : σ) : List ι → Prop
  | [] => True
  | i :: is => cond s i ∧ ∀ s', step s i = some s' → Along step cond s' is

variable {step : σ → ι → Option σ}

theorem run_append (s : σ) (is js : List ι) :
    run step s (is ++ js) = (run step s is).bind fun s' => run step s' js := by
  induction is generalizing s with
  | nil => rfl
  | cons i is ih =>
    simp only [List.cons_append, run]
    cases step s i with
    | none => rfl
    | some s' => exact ih s'

/-- A run and what follows it. -/
theorem run_append_of_eq {s s₁ : σ} {is : List ι} (h : run step s is = some s₁) (js : List ι) :
    run step s (is ++ js) = run step s₁ js := by
  rw [run_append, h]
  rfl

/-- A check of every step of the run. -/
def checkAlong (step : σ → ι → Option σ) (check : σ → ι → Bool) (s : σ) : List ι → Bool
  | [] => true
  | i :: is => check s i && (step s i).all fun s' => checkAlong step check s' is

/-- A condition that a check decides. -/
theorem along_of_check {cond : σ → ι → Prop} {check : σ → ι → Bool}
    (hcheck : ∀ s i, check s i = true → cond s i) {s : σ} {is : List ι}
    (h : checkAlong step check s is = true) : Along step cond s is := by
  induction is generalizing s with
  | nil => trivial
  | cons i is ih =>
    simp only [checkAlong, Bool.and_eq_true] at h
    refine ⟨hcheck s i h.1, fun s' hs' => ih ?_⟩
    simpa [hs'] using h.2

/-- A condition on the inputs alone. -/
theorem along_of_forall {cond : ι → Prop} {is : List ι} (h : ∀ i ∈ is, cond i) (s : σ) :
    Along step (fun _ i => cond i) s is := by
  induction is generalizing s with
  | nil => trivial
  | cons i is ih =>
    exact ⟨h i List.mem_cons_self, fun s' _ => ih (fun j hj => h j (List.mem_cons_of_mem _ hj)) s'⟩

theorem Along.and {cond cond' : σ → ι → Prop} {s : σ} {is : List ι} (h : Along step cond s is)
    (h' : Along step cond' s is) : Along step (fun s i => cond s i ∧ cond' s i) s is := by
  induction is generalizing s with
  | nil => trivial
  | cons i is ih => exact ⟨⟨h.1, h'.1⟩, fun s' hs' => ih (h.2 s' hs') (h'.2 s' hs')⟩

/-- A property that every conditioned step keeps holds after a conditioned run. -/
theorem invariant_along {P : σ → Prop} {cond : σ → ι → Prop}
    (hstep : ∀ s i s', P s → cond s i → step s i = some s' → P s')
    {s s' : σ} {is : List ι} (h : P s) (hcond : Along step cond s is)
    (hrun : run step s is = some s') : P s' := by
  induction is generalizing s with
  | nil =>
    obtain rfl : s = s' := by simpa [run] using hrun
    exact h
  | cons i is ih =>
    simp only [run, Option.bind_eq_some_iff] at hrun
    obtain ⟨s₁, hs₁, hrun⟩ := hrun
    exact ih (hstep s i s₁ h hcond.1 hs₁) (hcond.2 s₁ hs₁) hrun

/-- A property that every step keeps holds after every run. -/
theorem invariant_run {P : σ → Prop} (hstep : ∀ s i s', P s → step s i = some s' → P s')
    {s s' : σ} {is : List ι} (h : P s) (hrun : run step s is = some s') : P s' := by
  induction is generalizing s with
  | nil =>
    obtain rfl : s = s' := by simpa [run] using hrun
    exact h
  | cons i is ih =>
    simp only [run, Option.bind_eq_some_iff] at hrun
    obtain ⟨s₁, hs₁, hrun⟩ := hrun
    exact ih (hstep s i s₁ h hs₁) hrun

/-- A property of the state and of a quantity that each input adds to. -/
theorem invariant_sum {P : ℕ → σ → Prop} {weight : ι → ℕ}
    (hstep : ∀ n s i s', P n s → step s i = some s' → P (n + weight i) s')
    {n : ℕ} {s s' : σ} {is : List ι} (h : P n s) (hrun : run step s is = some s') :
    P (n + (is.map weight).sum) s' := by
  induction is generalizing n s with
  | nil =>
    obtain rfl : s = s' := by simpa [run] using hrun
    exact h
  | cons i is ih =>
    simp only [run, Option.bind_eq_some_iff] at hrun
    obtain ⟨s₁, hs₁, hrun⟩ := hrun
    have htail := ih (hstep n s i s₁ h hs₁) hrun
    rwa [Nat.add_assoc] at htail

/-- How many steps of the run are counted, by the state before, the input and the state
after. -/
def tally (step : σ → ι → Option σ) (count : σ → ι → σ → Bool) (s : σ) : List ι → ℕ
  | [] => 0
  | i :: is => (step s i).elim 0 fun s' => (count s i s').toNat + tally step count s' is

/-- What every step balances up to a counted step, a run balances up to the counted steps. -/
theorem run_balance {P : σ → Prop} {f g : σ → ℕ} {count : σ → ι → σ → Bool}
    (hkept : ∀ s i s', P s → step s i = some s' → P s')
    (hstep : ∀ s i s', P s → step s i = some s' → f s' + g s = f s + g s' + (count s i s').toNat)
    {s s' : σ} {is : List ι} (h : P s) (hrun : run step s is = some s') :
    f s' + g s = f s + g s' + tally step count s is := by
  induction is generalizing s with
  | nil =>
    obtain rfl : s = s' := by simpa [run] using hrun
    rfl
  | cons i is ih =>
    simp only [run, Option.bind_eq_some_iff] at hrun
    obtain ⟨s₁, hs₁, hrun⟩ := hrun
    have hhead := hstep s i s₁ h hs₁
    have htail := ih (hkept s i s₁ h hs₁) hrun
    rw [tally, hs₁, Option.elim_some]
    omega

/-- No step of the run is counted when none meets the check. -/
theorem tally_eq_zero {check : σ → ι → Bool} {s s' : σ} {is : List ι}
    (hrun : run step s is = some s') :
    tally step (fun s i _ => check s i) s is = 0 ↔
      Along step (fun s i => check s i = false) s is := by
  induction is generalizing s with
  | nil => exact iff_of_true rfl trivial
  | cons i is ih =>
    simp only [run, Option.bind_eq_some_iff] at hrun
    obtain ⟨s₁, hs₁, hrun⟩ := hrun
    rw [tally, Along, hs₁, Option.elim_some, Nat.add_eq_zero_iff, ih hrun]
    simp

/-- A cycle of inputs that leads from `P n` to `P (n + 1)` can be repeated. -/
theorem run_of_cycle {P : ℕ → σ → Prop} {cycle : List ι} {N : ℕ}
    (hcycle : ∀ n < N, ∀ s, P n s → ∃ s', run step s cycle = some s' ∧ P (n + 1) s')
    {s : σ} (h : P 0 s) :
    ∃ s', run step s (List.replicate N cycle).flatten = some s' ∧ P N s' := by
  suffices hall : ∀ n ≤ N, ∃ s', run step s (List.replicate n cycle).flatten = some s' ∧ P n s' from
    hall N (Nat.le_refl N)
  intro n hn
  induction n with
  | zero => exact ⟨s, rfl, h⟩
  | succ n ih =>
    obtain ⟨s₁, hrun, hs₁⟩ := ih (Nat.le_of_succ_le hn)
    obtain ⟨s', hrun', hs'⟩ := hcycle n hn s₁ hs₁
    refine ⟨s', ?_, hs'⟩
    rw [List.replicate_succ', List.flatten_append, run_append, hrun]
    simpa using hrun'

end Program
