import Mathlib.Tactic.Ring

/-!
# Instants of a bounded clock

A clock that counts signed 64-bit seconds and the nanoseconds of the running second. A
duration is added exactly, or not at all when the sum is past the last second the clock
can tell.
-/

namespace Instants

/-- The nanoseconds of a second. -/
def perSecond : ℕ := 1000000000

theorem perSecond_pos : 0 < perSecond := by decide

/-- The seconds past the largest one of a clock. -/
def pastSeconds : ℤ := 2 ^ 63

/-- A length of time. -/
structure Duration where
  secs : ℕ
  nanos : ℕ
  nanos_lt : nanos < perSecond
deriving DecidableEq

/-- Whole seconds. -/
def Duration.ofSecs (secs : ℕ) : Duration := ⟨secs, 0, perSecond_pos⟩

/-- The reading of a clock. -/
structure Instant where
  secs : ℤ
  nanos : ℕ
  secs_ge : -pastSeconds ≤ secs
  secs_lt : secs < pastSeconds
  nanos_lt : nanos < perSecond
deriving DecidableEq

def Duration.toNanos (d : Duration) : ℤ := d.secs * perSecond + d.nanos

def Instant.toNanos (t : Instant) : ℤ := t.secs * perSecond + t.nanos

/-- The instant a duration later, if the clock can tell it. -/
def Instant.checkedAdd (t : Instant) (d : Duration) : Option Instant :=
  if h : t.secs + d.secs + ((t.nanos + d.nanos) / perSecond : ℕ) < pastSeconds then
    some {
      secs := t.secs + d.secs + ((t.nanos + d.nanos) / perSecond : ℕ)
      nanos := (t.nanos + d.nanos) % perSecond
      secs_ge := by
        have hcarry := Int.natCast_nonneg ((t.nanos + d.nanos) / perSecond)
        have hge := t.secs_ge
        omega
      secs_lt := h
      nanos_lt := Nat.mod_lt _ perSecond_pos }
  else none

variable {t u : Instant} {d : Duration}

/-- The sum is exact. -/
theorem Instant.toNanos_of_checkedAdd (h : t.checkedAdd d = some u) :
    u.toNanos = t.toNanos + d.toNanos := by
  unfold checkedAdd at h
  split at h
  · cases h
    have hsplit := Nat.div_add_mod (t.nanos + d.nanos) perSecond
    simp only [toNanos, Duration.toNanos, perSecond] at hsplit ⊢
    omega
  · cases h

/-- The sum is there when the clock can tell it. -/
theorem Instant.isSome_checkedAdd :
    (t.checkedAdd d).isSome = true ↔ t.toNanos + d.toNanos < pastSeconds * perSecond := by
  have hsplit := Nat.div_add_mod (t.nanos + d.nanos) perSecond
  have hmod : (t.nanos + d.nanos) % perSecond < perSecond := Nat.mod_lt _ perSecond_pos
  unfold checkedAdd
  split
  · next h =>
    refine iff_of_true rfl ?_
    simp only [toNanos, Duration.toNanos, perSecond] at hsplit hmod h ⊢
    omega
  · next h =>
    refine iff_of_false (by simp) ?_
    simp only [toNanos, Duration.toNanos, perSecond] at hsplit hmod h ⊢
    omega

end Instants
