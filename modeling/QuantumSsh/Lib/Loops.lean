import Mathlib.Data.Nat.Notation

/-!
# Loops, pass by pass

A loop is a body that either ends with a result or goes on from another state. A loop
whose passes go down in a well-founded order ends, from every state that its invariant
holds of; and a function that every pass agrees with is what the loop computes.
-/

namespace Loops

variable {σ ρ : Type}

/-- So many passes of the loop. -/
def passes (pass : σ → ρ ⊕ σ) : ℕ → σ → ρ ⊕ σ
  | 0, s => .inr s
  | n + 1, s => (pass s).elim .inl (passes pass n)

variable {pass : σ → ρ ⊕ σ} {I : σ → Prop} {s s' : σ}

/-- What every pass keeps holds after so many passes. -/
theorem passes_invariant (hpass : ∀ s s', I s → pass s = .inr s' → I s') (h : I s) {n : ℕ}
    (hrun : passes pass n s = .inr s') : I s' := by
  induction n generalizing s with
  | zero =>
    cases hrun
    exact h
  | succ n ih =>
    rw [passes] at hrun
    cases hhead : pass s with
    | inl r =>
      rw [hhead] at hrun
      cases hrun
    | inr s₁ =>
      rw [hhead] at hrun
      exact ih (hpass s s₁ h hhead) hrun

/-- A loop that goes down ends. -/
theorem passes_end {rel : σ → σ → Prop} (hwf : WellFounded rel)
    (hpass : ∀ s s', I s → pass s = .inr s' → I s' ∧ rel s' s) (h : I s) :
    ∃ n r, passes pass n s = .inl r := by
  -- The induction is on the order; the invariant goes along.
  induction s using hwf.induction with
  | _ s ih =>
    cases hhead : pass s with
    | inl r => exact ⟨1, r, by rw [passes, hhead]; rfl⟩
    | inr s' =>
      obtain ⟨hkept, hless⟩ := hpass s s' h hhead
      obtain ⟨n, r, hrun⟩ := ih s' hless hkept
      exact ⟨n + 1, r, by rw [passes, hhead]; exact hrun⟩

/-- What no pass changes and the last one returns is the result of the loop, and what the last
pass shows of the result holds. -/
theorem passes_result {f : σ → ρ} {Q : ρ → Prop}
    (hends : ∀ s r, I s → pass s = .inl r → f s = r ∧ Q r)
    (hpass : ∀ s s', I s → pass s = .inr s' → I s' ∧ f s = f s') (h : I s) {n : ℕ} {r : ρ}
    (hrun : passes pass n s = .inl r) : f s = r ∧ Q r := by
  induction n generalizing s with
  | zero => cases hrun
  | succ n ih =>
    rw [passes] at hrun
    cases hhead : pass s with
    | inl r' =>
      rw [hhead] at hrun
      cases hrun
      exact hends s r h hhead
    | inr s' =>
      obtain ⟨hkept, hsame⟩ := hpass s s' h hhead
      rw [hhead] at hrun
      rw [hsame]
      exact ih hkept hrun

end Loops
