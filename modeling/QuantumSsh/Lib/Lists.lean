import Mathlib.Data.List.Forall2

/-!
# Lists addressed by position

An entry named by its index splits the list around it; removing and replacing
the entry then act on the split. A list can be guarded: each entry is allowed by the
entries before it. Two lists can be related entry by entry, and a list can be cut into
pieces of one length.
-/

namespace Lists

variable {α : Type*}

/-- A property of the entries of a list is checked on the list, also where the whole
type could be searched. -/
instance (priority := high) decidableForallMem {p : α → Prop} [DecidablePred p] (l : List α) :
    Decidable (∀ a ∈ l, p a) :=
  List.decidableBAll p l

/-- The list around its `i`-th entry, and what removing or replacing that entry
leaves. -/
theorem exists_split {l : List α} {i : ℕ} {a : α} (h : l[i]? = some a) :
    ∃ pre post, l = pre ++ a :: post ∧ l.eraseIdx i = pre ++ post ∧
      ∀ b, l.set i b = pre ++ b :: post := by
  induction l generalizing i with
  | nil => simp at h
  | cons x xs ih =>
    cases i with
    | zero =>
      obtain rfl : x = a := by simpa using h
      exact ⟨[], xs, rfl, rfl, fun _ => rfl⟩
    | succ i =>
      obtain ⟨pre, post, rfl, herase, hset⟩ := ih (by simpa using h)
      refine ⟨x :: pre, post, rfl, ?_, fun b => ?_⟩
      · rw [List.eraseIdx_cons_succ, herase, List.cons_append]
      · rw [List.set_cons_succ, hset, List.cons_append]

/-- A list splits in one way around the only entry of its kind. -/
theorem split_unique {p : α → Prop} {before before' after after' : List α} {a a' : α}
    (hbefore : ∀ x ∈ before, ¬ p x) (hafter : ∀ x ∈ after, ¬ p x) (ha' : p a')
    (h : before ++ a :: after = before' ++ a' :: after') :
    before = before' ∧ a = a' ∧ after = after' := by
  induction before generalizing before' with
  | nil =>
    cases before' with
    | nil =>
      cases h
      exact ⟨rfl, rfl, rfl⟩
    | cons b rest =>
      cases h
      exact absurd ha' (hafter a' (by simp))
  | cons b rest ih =>
    cases before' with
    | nil =>
      cases h
      exact absurd ha' (hbefore a' (by simp))
    | cons b' rest' =>
      obtain ⟨rfl, htail⟩ := List.cons.inj h
      obtain ⟨rfl, rfl, rfl⟩ := ih (fun x hx => hbefore x (List.mem_cons_of_mem _ hx)) htail
      exact ⟨rfl, rfl, rfl⟩

/-- A list splits in one way around the last of equal entries. -/
theorem split_last_unique {before before' after after' : List α} {a : α} (hafter : a ∉ after)
    (hafter' : a ∉ after') (h : before ++ a :: after = before' ++ a :: after') :
    before = before' := by
  obtain ⟨mid, rfl, hrest⟩ | ⟨mid, rfl, hrest⟩ := List.append_eq_append_iff.1 h
  · cases mid with
    | nil => rw [List.append_nil]
    | cons x mid =>
      obtain ⟨rfl, rfl⟩ := List.cons.inj hrest
      exact absurd (List.mem_append_right mid List.mem_cons_self) hafter
  · cases mid with
    | nil => rw [List.append_nil]
    | cons x mid =>
      obtain ⟨rfl, rfl⟩ := List.cons.inj hrest
      exact absurd (List.mem_append_right mid List.mem_cons_self) hafter'

/-! ### Entries guarded by what stands before them -/

/-- Every entry is allowed by the entries before it. -/
def Guarded (G : List α → α → Prop) (l : List α) : Prop :=
  ∀ before a after, l = before ++ a :: after → G before a

variable {G : List α → α → Prop}

theorem guarded_nil : Guarded G [] := by
  intro before a after h
  simp at h

theorem Guarded.append {l es : List α} (h : Guarded G l)
    (hes : ∀ before a after, es = before ++ a :: after → G (l ++ before) a) :
    Guarded G (l ++ es) := by
  intro before a after heq
  obtain ⟨mid, rfl, hrest⟩ | ⟨mid, hl, hrest⟩ := List.append_eq_append_iff.1 heq
  · exact hes mid a after hrest
  · cases mid with
    | nil =>
      rw [List.append_nil] at hl
      rw [← hl]
      have hes' := hes [] a after hrest.symm
      rwa [List.append_nil] at hes'
    | cons x mid =>
      obtain ⟨rfl, -⟩ := List.cons.inj hrest
      exact h before a mid hl

theorem Guarded.concat {l : List α} {a : α} (h : Guarded G l) (ha : G l a) :
    Guarded G (l ++ [a]) := by
  refine h.append ?_
  intro before b after heq
  cases before with
  | nil =>
    obtain ⟨rfl, -⟩ := List.cons.inj heq
    rwa [List.append_nil]
  | cons x before => simp at heq

/-! ### Two lists side by side -/

section

variable {β : Type*} {R : α → β → Prop}

theorem exists_mem_of_forall₂ {l : List α} {m : List β} (h : List.Forall₂ R l m) {a : α}
    (ha : a ∈ l) : ∃ b ∈ m, R a b := by
  induction h with
  | nil => cases ha
  | @cons a' b l m hab h ih =>
    obtain rfl | ha := List.mem_cons.1 ha
    · exact ⟨b, List.mem_cons_self, hab⟩
    · obtain ⟨b', hb', hab'⟩ := ih ha
      exact ⟨b', List.mem_cons_of_mem _ hb', hab'⟩

theorem exists_forall₂ {l : List α} (h : ∀ a ∈ l, ∃ b, R a b) : ∃ m, List.Forall₂ R l m := by
  induction l with
  | nil => exact ⟨[], .nil⟩
  | cons a l ih =>
    rw [List.forall_mem_cons] at h
    obtain ⟨b, hb⟩ := h.1
    obtain ⟨m, hm⟩ := ih h.2
    exact ⟨b :: m, .cons hb hm⟩

end

/-! ### Chunks -/

/-- At most `fuel` pieces of `n` entries each, the last one shorter. -/
def chunksWith (n : ℕ) : (fuel : ℕ) → List α → List (List α)
  | 0, _ => []
  | fuel + 1, l => if l.isEmpty then [] else l.take n :: chunksWith n fuel (l.drop n)

/-- `slice::chunks`. -/
def chunks (n : ℕ) (l : List α) : List (List α) := chunksWith n l.length l

section

variable {n : ℕ}

theorem chunksWith_spec (hn : 0 < n) {fuel : ℕ} {l : List α} (hfuel : l.length ≤ fuel) :
    (chunksWith n fuel l).flatten = l ∧ (∀ c ∈ chunksWith n fuel l, c ≠ [] ∧ c.length ≤ n) ∧
      (chunksWith n fuel l).length = (l.length + n - 1) / n := by
  induction fuel generalizing l with
  | zero =>
    obtain rfl : l = [] := List.length_eq_zero_iff.1 (by omega)
    refine ⟨rfl, by simp [chunksWith], ?_⟩
    rw [List.length_nil, Nat.zero_add, Nat.div_eq_of_lt (by omega)]
    rfl
  | succ fuel ih =>
    cases l with
    | nil =>
      refine ⟨rfl, by simp [chunksWith], ?_⟩
      rw [List.length_nil, Nat.zero_add, Nat.div_eq_of_lt (by omega)]
      rfl
    | cons a l =>
      have hdrop : ((a :: l).drop n).length ≤ fuel := by
        rw [List.length_drop]
        simp only [List.length_cons] at hfuel ⊢
        omega
      obtain ⟨hflat, hpieces, hcount⟩ := ih hdrop
      rw [chunksWith, if_neg (by simp)]
      refine ⟨?_, ?_, ?_⟩
      · rw [List.flatten_cons, hflat, List.take_append_drop]
      · rw [List.forall_mem_cons]
        refine ⟨⟨?_, List.length_take_le ..⟩, hpieces⟩
        intro hnil
        simp only [List.take_eq_nil_iff, reduceCtorEq, or_false] at hnil
        omega
      · rw [List.length_cons, hcount, List.length_drop]
        have hlen : 0 < (a :: l).length := Nat.succ_pos _
        have hright : (a :: l).length + n - 1 = (a :: l).length - 1 + n := by omega
        rw [hright, Nat.add_div_right _ hn]
        congr 1
        by_cases hlong : n < (a :: l).length
        · congr 1
          omega
        · rw [Nat.div_eq_of_lt (by omega), Nat.div_eq_of_lt (by omega)]

theorem flatten_chunks (hn : 0 < n) (l : List α) : (chunks n l).flatten = l :=
  (chunksWith_spec hn (Nat.le_refl _)).1

theorem mem_chunks (hn : 0 < n) {l c : List α} (hc : c ∈ chunks n l) : c ≠ [] ∧ c.length ≤ n :=
  (chunksWith_spec hn (Nat.le_refl _)).2.1 c hc

theorem length_chunks (hn : 0 < n) (l : List α) : (chunks n l).length = (l.length + n - 1) / n :=
  (chunksWith_spec hn (Nat.le_refl _)).2.2

end

end Lists
