import Mathlib.Data.List.Basic

/-!
# Ordered checks

A list of checks made in order, each with the reason it fails for. What is reported
is the reason of the first one that is not met.
-/

namespace Checks

variable {ρ : Type}

/-! ### Reasons -/

/-- The first of the checks that is not met fails for this reason. -/
def FailsFirst (rs : List (ρ × Prop)) (reason : ρ) : Prop :=
  ∃ met asked unread, rs = met ++ (reason, asked) :: unread ∧ (∀ r ∈ met, r.2) ∧ ¬asked

theorem not_failsFirst_nil (reason : ρ) : ¬FailsFirst [] reason := by
  rintro ⟨met, asked, unread, hnil, -⟩
  simp at hnil

theorem failsFirst_cons {r : ρ × Prop} {rs : List (ρ × Prop)} {reason : ρ} :
    FailsFirst (r :: rs) reason ↔ ¬r.2 ∧ reason = r.1 ∨ r.2 ∧ FailsFirst rs reason := by
  constructor
  · rintro ⟨met, asked, unread, hrs, hmet, hasked⟩
    cases met with
    | nil =>
      cases hrs
      exact .inl ⟨hasked, rfl⟩
    | cons r' met =>
      cases hrs
      exact .inr ⟨hmet r List.mem_cons_self, met, asked, unread, rfl,
        fun r' hr' => hmet r' (List.mem_cons_of_mem _ hr'), hasked⟩
  · rintro (⟨hr, rfl⟩ | ⟨hr, met, asked, unread, rfl, hmet, hasked⟩)
    · exact ⟨[], r.2, rs, rfl, by simp, hr⟩
    · refine ⟨r :: met, asked, unread, rfl, fun r' hr' => ?_, hasked⟩
      obtain rfl | hr' := List.mem_cons.1 hr'
      · exact hr
      · exact hmet r' hr'

/-- Either everything is met, or some check is the first that is not. -/
theorem met_or_failsFirst (rs : List (ρ × Prop)) :
    (∀ r ∈ rs, r.2) ∨ ∃ reason, FailsFirst rs reason := by
  induction rs with
  | nil => exact .inl (by simp)
  | cons r rs ih =>
    by_cases hr : r.2
    · obtain hall | ⟨reason, hreason⟩ := ih
      · exact .inl (List.forall_mem_cons.2 ⟨hr, hall⟩)
      · exact .inr ⟨reason, failsFirst_cons.2 (.inr ⟨hr, hreason⟩)⟩
    · exact .inr ⟨r.1, failsFirst_cons.2 (.inl ⟨hr, rfl⟩)⟩

/-! ### Checks that return -/

variable {α ε : Type} {f : α → Except ε Unit} {as : List α}

/-- The checks in their order, up to the first that fails. -/
def checkEach (f : α → Except ε Unit) : List α → Except ε Unit
  | [] => .ok ()
  | a :: as =>
    match f a with
    | .ok () => checkEach f as
    | .error e => .error e

theorem checkEach_ok_iff : checkEach f as = .ok () ↔ ∀ a ∈ as, f a = .ok () := by
  induction as with
  | nil => exact iff_of_true rfl nofun
  | cons a as ih =>
    rw [checkEach, List.forall_mem_cons]
    cases hcheck : f a with
    | ok => simp [ih]
    | error e => simp

end Checks
