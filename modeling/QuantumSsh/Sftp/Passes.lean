import QuantumSsh.Lib.Loops
import QuantumSsh.Sftp.Files
import QuantumSsh.Sftp.Paths

/-!
# The passes of `realpath`

The loop of `realpath` as the source runs it: a cursor moves over what is left, and a
link puts something else there. A pass either moves the cursor or uses up one of the
links, whatever the kernel answers, so the loop ends; and what is resolved keeps the root
it began with.
-/

namespace QuantumSsh.Sftp

open Loops Program

variable {κ F E : Type}

/-- The variables of the loop. -/
structure Cursor where
  resolved : Bytes
  left : Bytes
  pos : ℕ
  links : ℕ
deriving DecidableEq

/-- What is left from the cursor on. -/
def Cursor.rest (l : Cursor) : Bytes := l.left.drop l.pos

/-- The next component, where the cursor goes, and whether it is the last. -/
def Cursor.token (l : Cursor) : Bytes × ℕ × Bool :=
  match l.rest.findIdx? (· = slash) with
  | some i => (l.rest.take i, l.pos + i + 1, false)
  | none => (l.rest, l.left.length, true)

/-- What a pass comes to: the result of the loop, or its next variables. -/
abbrev Pass (κ : Type) : Type := (Except IoError Bytes × κ) ⊕ (Cursor × κ)

/-- The loop of `realpath`: its condition, and one pass. -/
def Cursor.pass (K : Kernel κ F E) : Cursor × κ → Pass κ
  | (l, s) =>
    if l.left.length ≤ l.pos then .inl (.ok l.resolved, s)
    else
      match l.token with
      | (token, pos, last) =>
        let resolved := withSlash l.resolved
        if token = [] ∨ token = [dot] then .inr ({ l with resolved, pos }, s)
        else if token = [dot, dot] then .inr ({ l with resolved := popComponent resolved, pos }, s)
        else
          let resolved := resolved ++ token
          match K.lstat resolved s with
          | (.error e, s) =>
            if e.kind = .notFound ∧ last then .inl (.ok resolved, s) else .inl (.error e, s)
          | (.ok m, s) =>
            if m.isSymlink then
              if symloopMax < l.links + 1 then .inl (.error .loop, s)
              else
                match K.readLink resolved s with
                | (.error e, s) => .inl (.error e, s)
                | (.ok target, s) =>
                  .inr ({
                    resolved :=
                      if target.head? = some slash then resolved.take 1 else popComponent resolved
                    left := linkLeft target (l.left.drop pos) last
                    pos := 0
                    links := l.links + 1 }, s)
            else .inr ({ l with resolved, pos }, s)

/-- The loop before its first pass. -/
def Cursor.start (path cwd : Bytes) : Cursor where
  resolved := (realpathStart path cwd).1
  left := (realpathStart path cwd).2
  pos := 0
  links := 0

/-! ### What a pass does -/

/-- The path begins at the root. -/
def Rooted (path : Bytes) : Prop := path.head? = some slash

/-- The cursor moves forward in what is left. -/
structure Advances (l l' : Cursor) : Prop where
  left : l'.left = l.left
  links : l'.links = l.links
  forward : l.pos < l'.pos
  inside : l'.pos ≤ l.left.length

/-- One of the links is used up, and the cursor is back at the start. -/
structure Follows (l l' : Cursor) : Prop where
  links : l'.links = l.links + 1
  allowed : l'.links ≤ symloopMax
  pos : l'.pos = 0

/-- What holds before every pass. -/
structure Cursor.Good (l : Cursor) : Prop where
  rooted : Rooted l.resolved
  links : l.links ≤ symloopMax
  inside : l.pos ≤ l.left.length

section

variable {path resolved token : Bytes} {l : Cursor} {pos : ℕ} {last : Bool}

theorem Rooted.append (h : Rooted resolved) : Rooted (resolved ++ token) := by
  rw [Rooted, List.head?_append, h]
  rfl

theorem Rooted.take (h : Rooted resolved) {n : ℕ} (hn : 1 ≤ n) : Rooted (resolved.take n) := by
  rw [Rooted, List.head?_take, if_neg (by omega), h]

theorem Rooted.withSlash (h : Rooted resolved) : Rooted (withSlash resolved) := by
  unfold Sftp.withSlash
  split
  · exact h
  · exact h.append

/-- `pop_component` keeps the root. -/
theorem Rooted.popComponent (h : Rooted resolved) : Rooted (popComponent resolved) := by
  unfold Sftp.popComponent
  split
  · exact h
  · exact h.take (Nat.le_max_right _ _)

/-- The cursor goes behind a component that is not empty or ends with a `/`. -/
theorem token_pos (h : l.pos < l.left.length) (htoken : l.token = (token, pos, last)) :
    l.pos < pos ∧ pos ≤ l.left.length := by
  unfold Cursor.token at htoken
  split at htoken
  · next i hi =>
    cases htoken
    have hlt := (List.findIdx?_eq_some_iff_getElem.1 hi).1
    rw [Cursor.rest, List.length_drop] at hlt
    omega
  · cases htoken
    exact ⟨h, Nat.le_refl _⟩

/-- The component is the one that is found in what is left. -/
theorem nextToken_rest (htoken : l.token = (token, pos, last)) :
    nextToken l.rest = (token, l.left.drop pos, last) := by
  unfold Cursor.token at htoken
  unfold nextToken
  cases hfind : l.rest.findIdx? fun b => decide (b = slash) with
  | some i =>
    rw [hfind] at htoken
    cases htoken
    simp [Cursor.rest, List.drop_drop, Nat.add_assoc]
  | none =>
    rw [hfind] at htoken
    cases htoken
    simp [List.drop_length]

/-- One round of the recursion over what is left. -/
theorem resolve_eq (K : Kernel κ F E) (links : ℕ) {left rest : Bytes} (s : κ) (hleft : left ≠ [])
    (htoken : nextToken left = (token, rest, last)) :
    resolve K links resolved left s =
      if token = [] ∨ token = [dot] then resolve K links (withSlash resolved) rest s
      else if token = [dot, dot] then resolve K links (popComponent (withSlash resolved)) rest s
      else
        match K.lstat (withSlash resolved ++ token) s with
        | (.error e, s) =>
          if e.kind = .notFound ∧ last then (.ok (withSlash resolved ++ token), s)
          else (.error e, s)
        | (.ok m, s) =>
          if m.isSymlink then
            if symloopMax < links + 1 then (.error .loop, s)
            else
              match K.readLink (withSlash resolved ++ token) s with
              | (.error e, s) => (.error e, s)
              | (.ok target, s) =>
                resolve K (links + 1)
                  (if target.head? = some slash then (withSlash resolved ++ token).take 1
                    else popComponent (withSlash resolved ++ token)) (linkLeft target rest last) s
          else resolve K links (withSlash resolved ++ token) rest s := by
  have hround := resolve.eq_def K links resolved left s
  rw [dif_neg hleft] at hround
  simp only [htoken, dite_eq_ite] at hround
  exact hround

end

/-- What a pass does: it agrees with the recursion, keeps the invariant, and goes on only by
moving the cursor or using up a link. -/
def Agrees (K : Kernel κ F E) (l : Cursor) (s : κ) : Pass κ → Prop
  | .inl (result, s') =>
    resolve K l.links l.resolved l.rest s = (result, s') ∧ ∀ p, result = .ok p → Rooted p
  | .inr (l', s') =>
    resolve K l.links l.resolved l.rest s = resolve K l'.links l'.resolved l'.rest s' ∧
      l'.Good ∧ (Advances l l' ∨ Follows l l')

theorem pass_agrees (K : Kernel κ F E) {l : Cursor} (s : κ) (h : l.Good) :
    Agrees K l s (Cursor.pass K (l, s)) := by
  obtain ⟨hrooted, hlinks, hinside⟩ := h
  unfold Cursor.pass
  dsimp only
  by_cases hend : l.left.length ≤ l.pos
  · have hrest : l.rest = [] := List.drop_eq_nil_of_le hend
    rw [if_pos hend]
    refine ⟨by rw [hrest, resolve, dif_pos rfl], fun p hp => ?_⟩
    cases hp
    exact hrooted
  · rcases htoken : l.token with ⟨token, pos, last⟩
    have hpos := token_pos (Nat.not_le.1 hend) htoken
    have hrest : l.rest ≠ [] := fun hnil => hend (List.drop_eq_nil_iff.1 hnil)
    -- The recursion does the same round, so the two are followed side by side.
    have hround := @resolve_eq _ _ _ l.resolved token last K l.links _ _ s hrest
      (nextToken_rest htoken)
    have hslash := hrooted.withSlash
    rw [if_neg hend]
    dsimp only
    split
    · next hskip =>
      rw [if_pos hskip] at hround
      exact ⟨hround, ⟨hslash, hlinks, hpos.2⟩, .inl ⟨rfl, rfl, hpos.1, hpos.2⟩⟩
    · next hskip =>
      rw [if_neg hskip] at hround
      split
      · next hup =>
        rw [if_pos hup] at hround
        exact ⟨hround, ⟨hslash.popComponent, hlinks, hpos.2⟩, .inl ⟨rfl, rfl, hpos.1, hpos.2⟩⟩
      · next hup =>
        rw [if_neg hup] at hround
        have hcomponent : Rooted (withSlash l.resolved ++ token) := hslash.append
        rcases hlstat : K.lstat (withSlash l.resolved ++ token) s with ⟨e | m, s₁⟩
        · rw [hlstat] at hround
          dsimp only at hround ⊢
          split
          -- Only the last component may be missing.
          · next hmissing =>
            rw [if_pos hmissing] at hround
            refine ⟨hround, fun p hp => ?_⟩
            cases hp
            exact hcomponent
          · next hmissing =>
            rw [if_neg hmissing] at hround
            exact ⟨hround, nofun⟩
        · rw [hlstat] at hround
          dsimp only at hround ⊢
          split
          · next hlink =>
            rw [if_pos hlink] at hround
            split
            -- The link after the last allowed one ends the loop.
            · next hmany =>
              rw [if_pos hmany] at hround
              exact ⟨hround, nofun⟩
            · next hmany =>
              rw [if_neg hmany] at hround
              rcases hread : K.readLink (withSlash l.resolved ++ token) s₁ with ⟨e | target, s₂⟩
              · rw [hread] at hround
                exact ⟨hround, nofun⟩
              · rw [hread] at hround
                refine ⟨hround, ⟨?_, Nat.not_lt.1 hmany, Nat.zero_le _⟩,
                  .inr ⟨rfl, Nat.not_lt.1 hmany, rfl⟩⟩
                dsimp only
                split
                · exact hcomponent.take (Nat.le_refl 1)
                · exact hcomponent.popComponent
          · next hlink =>
            rw [if_neg hlink] at hround
            exact ⟨hround, ⟨hcomponent, hlinks, hpos.2⟩, .inl ⟨rfl, rfl, hpos.1, hpos.2⟩⟩

/-! ### The loop ends -/

/-- How far the loop still has to go: the links first, then what is left. -/
def Cursor.measure (l : Cursor) : ℕ × ℕ := (symloopMax - l.links, l.left.length - l.pos)

/-- The order in which every pass goes down. -/
def Below : Cursor × κ → Cursor × κ → Prop :=
  InvImage (Prod.Lex (· < ·) (· < ·)) fun state => state.1.measure

theorem below_wf : WellFounded (Below (κ := κ)) :=
  InvImage.wf _ (Prod.lex Nat.lt_wfRel Nat.lt_wfRel).wf

theorem goes_down {l l' : Cursor} {s s' : κ} (h : Advances l l' ∨ Follows l l') :
    Below (l', s') (l, s) := by
  change Prod.Lex _ _ (symloopMax - l'.links, l'.left.length - l'.pos)
    (symloopMax - l.links, l.left.length - l.pos)
  -- A link may put any length of input there, so the links come first in the order.
  obtain ⟨hleft, hlinks, hforward, hinside⟩ | ⟨hlinks, hallowed, -⟩ := h
  · rw [hleft, hlinks]
    exact .right _ (by omega)
  · exact .left _ _ (by omega)

section

variable {K : Kernel κ F E} {path cwd : Bytes}

theorem good_start (hcwd : Rooted cwd) : (Cursor.start path cwd).Good := by
  refine ⟨?_, Nat.zero_le _, Nat.zero_le _⟩
  unfold Cursor.start realpathStart
  dsimp only
  split
  · exact hcwd
  · split
    · rfl
    · exact hcwd

theorem pass_again {l l' : Cursor} {s s' : κ} (h : l.Good)
    (hpass : Cursor.pass K (l, s) = .inr (l', s')) :
    l'.Good ∧ (Advances l l' ∨ Follows l l') := by
  have hagrees := pass_agrees K s h
  rw [hpass] at hagrees
  exact hagrees.2

/-- A run of the loop computes what the recursion does. -/
theorem passes_agree {n : ℕ} {l : Cursor} {s s' : κ} {result : Except IoError Bytes} (h : l.Good)
    (hrun : passes (Cursor.pass K) n (l, s) = .inl (result, s')) :
    resolve K l.links l.resolved l.rest s = (result, s') ∧ ∀ p, result = .ok p → Rooted p := by
  refine passes_result (I := fun state => state.1.Good)
    (f := fun state => resolve K state.1.links state.1.resolved state.1.rest state.2)
    (Q := fun r => ∀ p, r.1 = .ok p → Rooted p) ?_ ?_ h hrun
  · rintro ⟨l, s⟩ ⟨result, s'⟩ hgood hends
    have hagrees := pass_agrees K s hgood
    rw [hends] at hagrees
    exact hagrees
  · rintro ⟨l, s⟩ ⟨l', s'⟩ hgood hpass
    have hagrees := pass_agrees K s hgood
    rw [hpass] at hagrees
    exact ⟨hagrees.2.1, hagrees.1⟩

/-- Whatever the kernel answers, the loop of `realpath` ends, after following at most
`SYMLOOP_MAX` links; every pass moves the cursor forward or uses up a link; and what is
resolved begins at the root after every pass, also when a component is taken off it. -/
theorem realpath_ends (K : Kernel κ F E) (path : Bytes) (hcwd : Rooted cwd) (s : κ) :
    (∃ n result s', passes (Cursor.pass K) n (.start path cwd, s) = .inl (result, s') ∧
      (∀ p, result = .ok p → Rooted p) ∧
      realpath K path cwd s = (result.map trimmed, s')) ∧
    ∀ n l s', passes (Cursor.pass K) n (.start path cwd, s) = .inr (l, s') →
      Rooted l.resolved ∧ l.links ≤ symloopMax ∧
      (∀ token, Rooted (popComponent (withSlash l.resolved ++ token))) ∧
      ∀ l' s'', Cursor.pass K (l, s') = .inr (l', s'') → Advances l l' ∨ Follows l l' := by
  have hstart : (Cursor.start path cwd).Good := good_start hcwd
  constructor
  · have hpass : ∀ a b : Cursor × κ, a.1.Good → Cursor.pass K a = .inr b →
        b.1.Good ∧ Below b a := by
      rintro ⟨l, s⟩ ⟨l', s'⟩ hgood hpass
      obtain ⟨hkept, hdown⟩ := pass_again hgood hpass
      exact ⟨hkept, goes_down hdown⟩
    obtain ⟨n, ⟨result, s'⟩, hrun⟩ :=
      passes_end (I := fun state => state.1.Good) below_wf hpass (s := (.start path cwd, s)) hstart
    obtain ⟨hresolve, hrooted⟩ := passes_agree hstart hrun
    refine ⟨n, result, s', hrun, hrooted, ?_⟩
    change resolve K 0 (realpathStart path cwd).1 (realpathStart path cwd).2 s = _ at hresolve
    rw [realpath_eq, hresolve]
    cases result <;> rfl
  · intro n l s' hrun
    have hgood : l.Good := passes_invariant (I := fun state => state.1.Good)
      (fun a b hgood hpass => (pass_again hgood hpass).1) hstart hrun
    exact ⟨hgood.rooted, hgood.links, fun token => hgood.rooted.withSlash.append.popComponent,
      fun l' s'' hpass => (pass_again hgood hpass).2⟩

end

/-- A filesystem of links to one another: every path is a symlink, to the name `x`. -/
def loopKernel : Kernel Unit Unit Empty where
  __ := refusingKernel Unit Unit Empty Empty.elim
  lstat := fun _ s => (.ok ⟨1, 1, 0, 0, 0o120777, 0, 0⟩, s)
  readLink := fun _ s => (.ok [0x78], s)

theorem realpath_ends_loop :
    passes (Cursor.pass loopKernel) 33 (.start [0x78] [slash], ()) = .inl (.error .loop, ()) ∧
      (∃ n result s', passes (Cursor.pass loopKernel) n (.start [0x78] [slash], ()) =
          .inl (result, s') ∧
        (∀ p, result = .ok p → Rooted p) ∧
        realpath loopKernel [0x78] [slash] () = (result.map trimmed, s')) :=
  ⟨rfl, (realpath_ends loopKernel [0x78] (show Rooted [slash] from rfl) ()).1⟩

end QuantumSsh.Sftp
