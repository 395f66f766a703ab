import Mathlib.Data.List.Basic

/-!
# Lists that are patched

A patch puts a list over another one from a position on; a gap before it is filled up.
Patches that are slices of one list and cover it make that list of every shorter one, in
whatever order they come and however they overlap.
-/

namespace Patches

variable {α : Type}

/-- The content with the data of a patch from its start on. -/
def patch (blank : α) (content : List α) (p : ℕ × List α) : List α :=
  if p.2 = [] then content
  else
    (content ++ List.replicate (p.1 - content.length) blank).take p.1 ++ p.2 ++
      content.drop (p.1 + p.2.length)

/-- The positions of a patch. -/
def Within (p : ℕ × List α) (i : ℕ) : Prop := p.1 ≤ i ∧ i < p.1 + p.2.length

/-- The data of a patch is what the whole has in its place. -/
def IsSlice (whole : List α) (p : ℕ × List α) : Prop := p.2 <+: whole.drop p.1

/-- The patches leave no position below `n` out. -/
def Cover (ps : List (ℕ × List α)) (n : ℕ) : Prop := ∀ i < n, ∃ p ∈ ps, Within p i

section

variable {blank : α} {content whole : List α} {p : ℕ × List α} {i n : ℕ}

theorem patch_nil (h : p.2 = []) : patch blank content p = content := if_pos h

theorem length_front :
    ((content ++ List.replicate (p.1 - content.length) blank).take p.1).length = p.1 := by
  rw [List.length_take, List.length_append, List.length_replicate]
  omega

theorem length_patch_le (hcontent : content.length ≤ n) (hp : p.2 ≠ [] → p.1 + p.2.length ≤ n) :
    (patch blank content p).length ≤ n := by
  by_cases hnil : p.2 = []
  · rwa [patch_nil hnil]
  · have hfit := hp hnil
    rw [patch, if_neg hnil, List.length_append, List.length_append, length_front, List.length_drop]
    omega

/-- A patch shows at its own positions. -/
theorem getElem?_patch_within (h : Within p i) :
    (patch blank content p)[i]? = p.2[i - p.1]? := by
  obtain ⟨hle, hlt⟩ := h
  have hne : p.2 ≠ [] := by
    intro hnil
    rw [hnil, List.length_nil] at hlt
    omega
  rw [patch, if_neg hne, List.append_assoc, List.getElem?_append_right (by rwa [length_front]),
    length_front, List.getElem?_append_left (by omega)]

/-- A patch leaves what there was at any other position. -/
theorem getElem?_patch_not_within (h : ¬Within p i) (hi : i < content.length) :
    (patch blank content p)[i]? = content[i]? := by
  by_cases hnil : p.2 = []
  · rw [patch_nil hnil]
  rw [patch, if_neg hnil]
  obtain hlt | hge := Nat.lt_or_ge i p.1
  · rw [List.append_assoc, List.getElem?_append_left (by rwa [length_front]),
      List.getElem?_take_of_lt hlt, List.getElem?_append_left hi]
  · have hbehind : p.1 + p.2.length ≤ i := by
      by_contra hinside
      exact h ⟨hge, Nat.lt_of_not_le hinside⟩
    have hlen : ((content ++ List.replicate (p.1 - content.length) blank).take p.1 ++ p.2).length =
        p.1 + p.2.length := by
      rw [List.length_append, length_front]
    rw [List.getElem?_append_right (by rwa [hlen]), hlen, List.getElem?_drop]
    congr 1
    omega

theorem IsSlice.getElem? (h : IsSlice whole p) (hi : Within p i) : p.2[i - p.1]? = whole[i]? := by
  obtain ⟨hle, hlt⟩ := hi
  obtain ⟨rest, hrest⟩ := h
  have hat : whole[i]? = (whole.drop p.1)[i - p.1]? := by
    rw [List.getElem?_drop]
    congr 1
    omega
  rw [hat, ← hrest, List.getElem?_append_left (by omega)]

theorem IsSlice.le (h : IsSlice whole p) (hne : p.2 ≠ []) : p.1 + p.2.length ≤ whole.length := by
  have hlen := h.length_le
  have hpos := List.length_pos_iff.2 hne
  rw [List.length_drop] at hlen
  omega

end

/-! ### Patching with slices -/

/-- The content is no longer than the whole, and is what the whole is at some positions. -/
structure Agrees (whole content : List α) (done : ℕ → Prop) : Prop where
  short : content.length ≤ whole.length
  same : ∀ i < whole.length, done i → content[i]? = whole[i]?

section

variable {content whole : List α} {done : ℕ → Prop} {p : ℕ × List α} {ps : List (ℕ × List α)}

/-- A slice adds its own positions to those that are right. -/
theorem Agrees.patch (h : Agrees whole content done) (blank : α) (hp : IsSlice whole p) :
    Agrees whole (patch blank content p) fun i => done i ∨ Within p i where
  short := length_patch_le h.short hp.le
  same := by
    intro i hi hdone
    by_cases hwithin : Within p i
    · rw [getElem?_patch_within hwithin, hp.getElem? hwithin]
    · have hsame := h.same i hi (hdone.resolve_right hwithin)
      -- What is right is there, so the gap before the patch does not reach it.
      have hlong : i < content.length := by
        by_contra hge
        rw [List.getElem?_eq_none (Nat.le_of_not_lt hge), List.getElem?_eq_getElem hi] at hsame
        cases hsame
      rw [getElem?_patch_not_within hwithin hlong, hsame]

theorem Agrees.foldl_patch (h : Agrees whole content done) (blank : α)
    (hps : ∀ p ∈ ps, IsSlice whole p) :
    Agrees whole (ps.foldl (Patches.patch blank) content) fun i =>
      done i ∨ ∃ p ∈ ps, Within p i := by
  induction ps generalizing content done with
  | nil =>
    refine ⟨h.short, fun i hi hdone => ?_⟩
    obtain hdone | ⟨p, hp, -⟩ := hdone
    · exact h.same i hi hdone
    · cases hp
  | cons p ps ih =>
    rw [List.forall_mem_cons] at hps
    have hrest := ih (h.patch blank hps.1) hps.2
    refine ⟨hrest.short, fun i hi hdone => hrest.same i hi ?_⟩
    obtain hdone | ⟨p', hp', hwithin⟩ := hdone
    · exact .inl (.inl hdone)
    · obtain rfl | hp' := List.mem_cons.1 hp'
      · exact .inl (.inr hwithin)
      · exact .inr ⟨p', hp', hwithin⟩

/-- Slices that cover the whole make it of every content that is no longer. -/
theorem foldl_patch_eq (blank : α) (hshort : content.length ≤ whole.length)
    (hps : ∀ p ∈ ps, IsSlice whole p) (hcover : Cover ps whole.length) :
    ps.foldl (patch blank) content = whole := by
  have hempty : Agrees whole content fun _ => False := ⟨hshort, fun _ _ h => h.elim⟩
  have hall := hempty.foldl_patch blank hps
  apply List.ext_getElem?
  intro i
  obtain hlt | hge := Nat.lt_or_ge i whole.length
  · exact hall.same i hlt (.inr (hcover i hlt))
  · rw [List.getElem?_eq_none hge, List.getElem?_eq_none (Nat.le_trans hall.short hge)]

end

end Patches
