import Mathlib.Data.Nat.Basic
import Mathlib.Tactic.Linarith

/-!
# Fixed-width arithmetic and monotonic time

Machine integers are natural numbers together with the operations whose result
depends on the width: wrapping and saturating addition, saturating
multiplication. An instant of a monotonic clock is a count of nanoseconds.
-/

namespace Machine

/-- The largest `u32`. -/
def u32Max : ℕ := 2 ^ 32 - 1

/-- The largest `u64`. -/
def u64Max : ℕ := 2 ^ 64 - 1

/-- Addition that stops at `top`. -/
def saturatingAdd (top a b : ℕ) : ℕ := min (a + b) top

/-- Multiplication that stops at `top`. -/
def saturatingMul (top a b : ℕ) : ℕ := min (a * b) top

/-- Addition modulo `2 ^ width`. -/
def wrappingAdd (width a b : ℕ) : ℕ := (a + b) % 2 ^ width

theorem saturatingAdd_of_le {top a b : ℕ} (h : a + b ≤ top) :
    saturatingAdd top a b = a + b :=
  min_eq_left h

theorem saturatingMul_of_le {top a b : ℕ} (h : a * b ≤ top) :
    saturatingMul top a b = a * b :=
  min_eq_left h

theorem saturatingAdd_le (top a b : ℕ) : saturatingAdd top a b ≤ a + b := min_le_left _ _

/-- A sum that was cut off stays cut off. -/
theorem saturatingAdd_min (m n top : ℕ) :
    saturatingAdd top (min m top) n = min (m + n) top := by
  unfold saturatingAdd
  omega

theorem wrappingAdd_le (width a b : ℕ) : wrappingAdd width a b ≤ a + b := Nat.mod_le _ _

theorem wrappingAdd_of_lt {width a b : ℕ} (h : a + b < 2 ^ width) :
    wrappingAdd width a b = a + b :=
  Nat.mod_eq_of_lt h

/-- Nanoseconds in a millisecond. -/
def nanosPerMilli : ℕ := 1000000

/-- Whole milliseconds from `earlier` to `now`, zero when `earlier` is later. -/
def millisSince (now earlier : ℕ) : ℕ := (now - earlier) / nanosPerMilli

theorem millisSince_self (now : ℕ) : millisSince now now = 0 := by
  simp [millisSince]

/-- A later origin leaves fewer whole milliseconds. -/
theorem millisSince_anti {now a b : ℕ} (h : a ≤ b) :
    millisSince now b ≤ millisSince now a :=
  Nat.div_le_div_right (Nat.sub_le_sub_left h now)

/-- Rounding down twice loses at least what rounding down once loses. -/
theorem millisSince_add_le {a b c : ℕ} (hab : a ≤ b) (hbc : b ≤ c) :
    millisSince b a + millisSince c b ≤ millisSince c a := by
  unfold millisSince nanosPerMilli
  omega

/-- Moving the origin forward by whole milliseconds subtracts exactly them. -/
theorem millisSince_advance (now earlier ms : ℕ) :
    millisSince now (earlier + ms * nanosPerMilli) = millisSince now earlier - ms := by
  unfold millisSince
  rw [← Nat.sub_sub, Nat.mul_comm ms, Nat.sub_mul_div]

/-- Waiting at most `ms` whole milliseconds adds at most `ms`. -/
theorem millisSince_le_add {now later ms : ℕ} (earlier : ℕ)
    (h : later ≤ now + ms * nanosPerMilli) :
    millisSince later earlier ≤ millisSince now earlier + ms := by
  unfold millisSince
  unfold nanosPerMilli at *
  omega

end Machine
