import Mathlib.Data.List.Induction

/-!
# Pipes

A pipe takes items in at one end and gives them out at the other, in order. Its
history is a list of operations; `Holds` says which histories a pipe can have and
what it still holds after each.
-/

namespace Pipe

variable {α : Type}

/-- What can happen at a pipe. -/
inductive Op (α : Type) where
  | put (xs : List α)
  | take (xs : List α)
  /-- The pipe is declared empty. -/
  | finish

/-- After the operations the pipe holds the items, next first. -/
inductive Holds : List (Op α) → List α → Prop
  | nil : Holds [] []
  | put {ops : List (Op α)} {buf : List α} (xs : List α) (h : Holds ops buf) :
      Holds (ops ++ [.put xs]) (buf ++ xs)
  | take {ops : List (Op α)} {buf : List α} (xs : List α) (h : Holds ops (xs ++ buf)) :
      Holds (ops ++ [.take xs]) buf
  | finish {ops : List (Op α)} (h : Holds ops []) : Holds (ops ++ [.finish]) []

/-- The items the operation puts in. -/
def Op.given : Op α → List α
  | .put xs => xs
  | _ => []

/-- The items the operation takes out. -/
def Op.taken : Op α → List α
  | .take xs => xs
  | _ => []

/-- Everything put in, in order. -/
def given (ops : List (Op α)) : List α := ops.flatMap Op.given

/-- Everything taken out, in order. -/
def taken (ops : List (Op α)) : List α := ops.flatMap Op.taken

variable {ops ops' : List (Op α)} {buf : List α}

@[simp] theorem given_append (ops ops' : List (Op α)) :
    given (ops ++ ops') = given ops ++ given ops' := by
  simp [given]

@[simp] theorem taken_append (ops ops' : List (Op α)) :
    taken (ops ++ ops') = taken ops ++ taken ops' := by
  simp [taken]

@[simp] theorem given_singleton (op : Op α) : given [op] = op.given := by simp [given]

@[simp] theorem taken_singleton (op : Op α) : taken [op] = op.taken := by simp [taken]

/-- What was put in was taken out or is still there. -/
theorem Holds.conserves (h : Holds ops buf) : taken ops ++ buf = given ops := by
  induction h with
  | nil => rfl
  | put xs _ ih => simp [Op.taken, Op.given, ← ih]
  | take xs _ ih => simpa [Op.taken, Op.given] using ih
  | finish _ ih => simpa [Op.taken, Op.given] using ih

theorem Holds.taken_prefix (h : Holds ops buf) : taken ops <+: given ops :=
  ⟨buf, h.conserves⟩

/-- What the pipe held before the last operation. -/
theorem Holds.before {op : Op α} (h : Holds (ops ++ [op]) buf) :
    ∃ buf', Holds ops buf' ∧ (op = .finish → buf' = []) := by
  generalize hops : ops ++ [op] = ops₁ at h
  cases h with
  | nil => simp at hops
  | put xs h =>
    obtain ⟨rfl, hop⟩ := List.append_inj' hops rfl
    cases hop
    exact ⟨_, h, by simp⟩
  | take xs h =>
    obtain ⟨rfl, hop⟩ := List.append_inj' hops rfl
    cases hop
    exact ⟨_, h, by simp⟩
  | finish h =>
    obtain ⟨rfl, hop⟩ := List.append_inj' hops rfl
    exact ⟨_, h, fun _ => rfl⟩

/-- Every beginning of a history is a history. -/
theorem Holds.of_append (h : Holds (ops ++ ops') buf) : ∃ buf', Holds ops buf' := by
  induction ops' using List.reverseRecOn generalizing buf with
  | nil => exact ⟨buf, by simpa using h⟩
  | append_singleton ops' op ih =>
    rw [← List.append_assoc] at h
    obtain ⟨buf', h', -⟩ := h.before
    exact ih h'

/-- When the pipe is declared empty, everything was taken out. -/
theorem Holds.taken_of_finish (h : Holds (ops ++ .finish :: ops') buf) :
    taken ops = given ops := by
  have hsplit : ops ++ .finish :: ops' = (ops ++ [.finish]) ++ ops' := by simp
  rw [hsplit] at h
  obtain ⟨buf', h'⟩ := h.of_append
  obtain ⟨buf'', h'', hempty⟩ := h'.before
  obtain rfl := hempty rfl
  simpa using h''.conserves

end Pipe
