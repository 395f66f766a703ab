import Mathlib.Data.List.Basic

/-!
# Ratchets

The sender of a stream marks every item with its state and moves on; the receiver keeps a
state of its own and takes an item only under the mark it expects. Some items make either
end change to a new key, which the two must find by themselves. `Carries` says what lies
between a state of the receiver and a state of the sender: the items, the keys the sender
changed to, and the marked items.
-/

namespace Ratchet

/-- How an end of a stream marks an item, and where it goes from there. -/
structure Scheme (σ κ α φ : Type) where
  mark : σ → α → φ
  next : σ → σ
  switch : σ → κ → σ
  switches : α → Bool

variable {σ κ α φ : Type} {S : Scheme σ κ α φ}

/-- The marked items, where none of them switches. -/
def Scheme.marks (S : Scheme σ κ α φ) : σ → List α → List φ
  | _, [] => []
  | s, x :: xs => S.mark s x :: S.marks (S.next s) xs

/-- Where the sender stands behind items of which none switches. -/
def Scheme.advance (S : Scheme σ κ α φ) : σ → List α → σ
  | s, [] => s
  | s, _ :: xs => S.advance (S.next s) xs

theorem Scheme.marks_append (s : σ) (xs ys : List α) :
    S.marks s (xs ++ ys) = S.marks s xs ++ S.marks (S.advance s xs) ys := by
  induction xs generalizing s with
  | nil => rfl
  | cons x xs ih => exact congrArg (S.mark s x :: ·) (ih (S.next s))

theorem Scheme.advance_append (s : σ) (xs ys : List α) :
    S.advance s (xs ++ ys) = S.advance (S.advance s xs) ys := by
  induction xs generalizing s with
  | nil => rfl
  | cons x xs ih => exact ih (S.next s)

/-- From the first state, the items are sent as the marked ones and the keys are taken, one
at each item that switches; this leads to the last state. -/
inductive Scheme.Carries (S : Scheme σ κ α φ) : σ → List α → List κ → List φ → σ → Prop
  | nil (s : σ) : S.Carries s [] [] [] s
  | next {s s' : σ} {x : α} {xs : List α} {ks : List κ} {fs : List φ}
      (hx : S.switches x = false) (h : S.Carries (S.next s) xs ks fs s') :
      S.Carries s (x :: xs) ks (S.mark s x :: fs) s'
  | switch {s s' : σ} {x : α} {xs : List α} {k : κ} {ks : List κ} {fs : List φ}
      (hx : S.switches x = true) (h : S.Carries (S.switch s k) xs ks fs s') :
      S.Carries s (x :: xs) (k :: ks) (S.mark s x :: fs) s'

namespace Scheme.Carries

variable {s s₁ s' : σ} {x : α} {xs ys : List α} {k : κ} {ks ls : List κ} {f : φ} {fs gs : List φ}

theorem append (h : S.Carries s xs ks fs s₁) (h' : S.Carries s₁ ys ls gs s') :
    S.Carries s (xs ++ ys) (ks ++ ls) (fs ++ gs) s' := by
  induction h with
  | nil => exact h'
  | next hx _ ih => exact .next hx (ih h')
  | switch hx _ ih => exact .switch hx (ih h')

theorem one (s : σ) (hx : S.switches x = false) : S.Carries s [x] [] [S.mark s x] (S.next s) :=
  .next hx (.nil _)

theorem oneSwitch (s : σ) (k : κ) (hx : S.switches x = true) :
    S.Carries s [x] [k] [S.mark s x] (S.switch s k) :=
  .switch hx (.nil _)

/-- The sender adds items that do not switch. -/
theorem concat (h : S.Carries s xs ks fs s') (hys : ∀ y ∈ ys, S.switches y = false) :
    S.Carries s (xs ++ ys) ks (fs ++ S.marks s' ys) (S.advance s' ys) := by
  induction ys generalizing xs fs s' with
  | nil => simpa [Scheme.marks, Scheme.advance] using h
  | cons y ys ih =>
    have hone := h.append (one s' (hys y List.mem_cons_self))
    rw [List.append_nil] at hone
    simpa [Scheme.marks, Scheme.advance] using ih hone fun z hz => hys z (List.mem_cons_of_mem y hz)

/-- The sender adds an item and changes to a key. -/
theorem concatSwitch (h : S.Carries s xs ks fs s') (k : κ) (hx : S.switches x = true) :
    S.Carries s (xs ++ [x]) (ks ++ [k]) (fs ++ [S.mark s' x]) (S.switch s' k) :=
  h.append (oneSwitch s' k hx)

/-- Where nothing is under way the two ends agree. -/
theorem items_of_nil (h : S.Carries s xs ks [] s') : xs = [] ∧ ks = [] ∧ s' = s := by
  cases h with
  | nil => exact ⟨rfl, rfl, rfl⟩

/-- The receiver takes an item that does not switch. -/
theorem of_next (h : S.Carries s (x :: xs) ks fs s') (hx : S.switches x = false) :
    ∃ gs, fs = S.mark s x :: gs ∧ S.Carries (S.next s) xs ks gs s' := by
  cases h with
  | next _ h => exact ⟨_, rfl, h⟩
  | switch hx' _ => simp [hx] at hx'

/-- The receiver takes an item that switches, and changes to the sender's key. -/
theorem of_switch (h : S.Carries s (x :: xs) (k :: ks) fs s') (hx : S.switches x = true) :
    ∃ gs, fs = S.mark s x :: gs ∧ S.Carries (S.switch s k) xs ks gs s' := by
  cases h with
  | next hx' _ => simp [hx] at hx'
  | switch _ h => exact ⟨_, rfl, h⟩

/-- The first marked item is the first item under the receiver's state. -/
theorem exists_head (h : S.Carries s xs ks (f :: fs) s') : ∃ x ys, xs = x :: ys ∧ f = S.mark s x := by
  cases h with
  | next _ _ => exact ⟨_, _, rfl, rfl⟩
  | switch _ _ => exact ⟨_, _, rfl, rfl⟩

end Scheme.Carries

end Ratchet
