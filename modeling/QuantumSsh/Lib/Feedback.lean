import Mathlib.Data.List.Infix

/-!
# Streams that feed on themselves

A stream of blocks: the first is given, and every later one is made from all the blocks
before it, one after the other. The recurrence has one solution, and whoever unrolls it far
enough finds the same beginning.
-/

namespace Feedback

variable {α : Type} {first : List α} {next : List α → List α}

/-- The first `n + 1` blocks, one after the other. -/
def unroll (first : List α) (next : List α → List α) : ℕ → List α
  | 0 => first
  | n + 1 => unroll first next n ++ next (unroll first next n)

/-- The block of a number, counted from zero. -/
def block (first : List α) (next : List α → List α) : ℕ → List α
  | 0 => first
  | n + 1 => next (unroll first next n)

/-- The blocks obey the recurrence. -/
structure Recurs (first : List α) (next : List α → List α) (K : ℕ → List α) : Prop where
  first : K 0 = first
  later : ∀ i, K (i + 1) = next ((List.range (i + 1)).flatMap K)

theorem flatMap_range_succ (K : ℕ → List α) (n : ℕ) :
    (List.range (n + 1)).flatMap K = (List.range n).flatMap K ++ K n := by
  rw [List.range_succ, List.flatMap_append, List.flatMap_singleton]

/-- Every solution of the recurrence unrolls to the same blocks. -/
theorem Recurs.unroll_eq {K : ℕ → List α} (h : Recurs first next K) (n : ℕ) :
    unroll first next n = (List.range (n + 1)).flatMap K := by
  induction n with
  | zero => simp [unroll, h.first]
  | succ n ih => rw [unroll, ih, flatMap_range_succ K (n + 1), h.later n]

/-- The recurrence has a solution. -/
theorem recurs_block : Recurs first next (block first next) := by
  have hunroll : ∀ n, unroll first next n = (List.range (n + 1)).flatMap (block first next) := by
    intro n
    induction n with
    | zero => simp [unroll, block]
    | succ n ih =>
      rw [flatMap_range_succ, ← ih]
      rfl
  exact ⟨rfl, fun i => by rw [← hunroll]; rfl⟩

/-- It has no other. -/
theorem Recurs.eq_block {K : ℕ → List α} (h : Recurs first next K) : K = block first next := by
  funext n
  cases n with
  | zero => exact h.first
  | succ n => rw [h.later, ← h.unroll_eq, block]

theorem unroll_isPrefix {m n : ℕ} (h : m ≤ n) :
    unroll first next m <+: unroll first next n := by
  induction h with
  | refl => exact List.prefix_rfl
  | step _ ih => exact ih.trans (List.prefix_append _ _)

/-- Two stretches that are long enough begin with the same items. -/
theorem take_unroll_eq {n i j : ℕ} (hi : n ≤ (unroll first next i).length)
    (hj : n ≤ (unroll first next j).length) :
    (unroll first next i).take n = (unroll first next j).take n := by
  have hle : ∀ {i j : ℕ}, i ≤ j → n ≤ (unroll first next i).length →
      (unroll first next i).take n = (unroll first next j).take n := by
    intro i j hij hi
    have hprefix : unroll first next i <+: unroll first next j := unroll_isPrefix hij
    obtain ⟨rest, hrest⟩ := hprefix
    rw [← hrest, List.take_append_of_le_length hi]
  obtain hij | hji := Nat.le_total i j
  · exact hle hij hi
  · exact (hle hji hj).symm

/-- Blocks of one size. -/
theorem length_unroll {size : ℕ} (hfirst : first.length = size)
    (hnext : ∀ out, (next out).length = size) (n : ℕ) :
    (unroll first next n).length = size * (n + 1) := by
  induction n with
  | zero => simp [unroll, hfirst]
  | succ n ih =>
    rw [unroll, List.length_append, ih, hnext]
    exact (Nat.mul_succ size (n + 1)).symm

end Feedback
