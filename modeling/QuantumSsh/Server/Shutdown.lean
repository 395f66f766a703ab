import QuantumSsh.Lib.Checks
import QuantumSsh.Lib.Instants
import QuantumSsh.Server.Basic

/-!
# The deadline of a shutdown

The drain timeout as `config.rs` admits it, the deadline that the signal listener of
`main.rs` broadcasts, and the shutdown arm of `serve`, over a clock that ends. The
listener looks out for the end of the clock; the loop adds its grace without looking.
An addition past the end panics, which is `none` here.
-/

namespace QuantumSsh.Server

open Checks Instants

/-! ### The settings -/

/-- The integer keys that `parse` checks, as the file sets them. -/
structure Integers where
  handshakeTimeout : Option ℕ
  drainTimeout : Option ℕ
  maxConnections : Option ℕ
  maxHalfOpen : Option ℕ
  maxPerSource : Option ℕ
  acceptRate : Option ℕ
  acceptBurst : Option ℕ
deriving Repr, DecidableEq

/-- The checked keys, in the order of the checks. -/
def Integers.keys (file : Integers) : List (Option ℕ × String) :=
  [(file.handshakeTimeout, "server.handshake_timeout"),
    (file.drainTimeout, "server.drain_timeout"),
    (file.maxConnections, "limits.max_connections"),
    (file.maxHalfOpen, "limits.max_half_open"),
    (file.maxPerSource, "limits.max_per_source"),
    (file.acceptRate, "limits.accept_rate"),
    (file.acceptBurst, "limits.accept_burst")]

/-- `i64::MAX`, TOML's largest integer. -/
def maxInteger : ℕ := 2 ^ 63 - 1

/-- One round of the check; the error is the detail of a `SchemaError`. -/
def checkInteger (origin : String) : Option ℕ × String → Except String Unit
  | (none, _) => .ok ()
  | (some v, key) =>
    if v = 0 then .error (origin ++ ": " ++ key ++ " must be at least 1")
    else if maxInteger < v then
      .error (origin ++ ": " ++ key ++ " must be at most " ++ toString maxInteger)
    else .ok ()

/-- The ranges of `parse`. -/
def Integers.check (origin : String) (file : Integers) : Except String Unit :=
  checkEach (checkInteger origin) file.keys

/-- `DEFAULT_DRAIN_TIMEOUT_SECS`. -/
def defaultDrainTimeout : ℕ := 30

/-- The drain timeout that `resolve` settles on. -/
def Integers.drain (file : Integers) : Duration :=
  .ofSecs (file.drainTimeout.getD defaultDrainTimeout)

/-! ### The signal and the loop -/

/-- `FAR_FUTURE`. -/
def farFuture : Duration := .ofSecs (24 * 365 * 30 * 3600)

/-- `drain_deadline`. -/
def drainDeadline (now : Instant) (drain : Duration) : Option Instant :=
  match now.checkedAdd drain with
  | some deadline => some deadline
  | none => now.checkedAdd farFuture

/-- `ABORT_GRACE`. -/
def graceDuration : Duration := .ofSecs 2

/-- What the shutdown arm makes of a broadcast. -/
inductive Shutdown where
  | returned
  | abortAt (t : Instant)
deriving DecidableEq

/-- The shutdown arm, by whether `abort_at` is set and the `JoinSet` empty. -/
def onShutdown (draining idle : Bool) (deadline now : Instant) : Option Shutdown :=
  -- A second signal skips what is left of the deadline.
  if draining then some (.abortAt now)
  else if idle then some .returned
  else (deadline.checkedAdd graceDuration).map .abortAt

/-- The signal is safe: its deadline is broadcast and taken by the loop in every state, and
is the end of the drain whenever the clock can tell that and the grace behind it. -/
structure ShutdownSafe (now : Instant) (drain : Duration) : Prop where
  taken : ∃ deadline, drainDeadline now drain = some deadline ∧
    ∀ draining idle later, (onShutdown draining idle deadline later).isSome = true
  exact_of_fits : ∀ t, now.checkedAdd drain = some t → (t.checkedAdd graceDuration).isSome = true →
    drainDeadline now drain = some t

/-! ### What the settings admit -/

section

variable {origin : String} {file : Integers}

theorem checkInteger_ok_iff {entry : Option ℕ × String} :
    checkInteger origin entry = .ok () ↔ ∀ v, entry.1 = some v → 1 ≤ v ∧ v ≤ maxInteger := by
  obtain ⟨_ | v, key⟩ := entry
  · exact iff_of_true rfl nofun
  · simp only [checkInteger, Option.some.injEq, forall_eq']
    split
    · next hzero => simp [hzero]
    · next hzero =>
      split
      · next hlarge => simp [hlarge]
      · next hle => exact iff_of_true rfl ⟨Nat.pos_of_ne_zero hzero, Nat.not_lt.1 hle⟩

/-- The drain timeout is at least a second and at most TOML's largest integer. -/
theorem drain_range (h : file.check origin = .ok ()) :
    1 ≤ file.drain.secs ∧ file.drain.secs ≤ maxInteger := by
  have hkey := checkInteger_ok_iff.1
    (checkEach_ok_iff.1 h (file.drainTimeout, "server.drain_timeout") (by simp [Integers.keys]))
  cases hdrain : file.drainTimeout with
  | none =>
    rw [Integers.drain, hdrain]
    decide
  | some v =>
    rw [Integers.drain, hdrain]
    exact hkey v hdrain

end

/-! ### Deadlines -/

/-- The nanoseconds since the clock's zero, as `serve` counts them. -/
def nanosOf (t : Instant) : ℕ := t.toNanos.toNat

/-- The effect of the shutdown arm on the loop. -/
def Shutdown.apply (s : State) : Shutdown → State
  | .returned => { s with returned := some (.ok ()) }
  | .abortAt t => { s with abortAt := some (nanosOf t) }

/-- An arm that does not panic does what the loop over an unbounded clock does. -/
theorem onShutdown_apply {s : State} {deadline now : Instant} {r : Shutdown}
    (hzero : 0 ≤ deadline.toNanos)
    (h : onShutdown s.abortAt.isSome (decide (s.tasks = [])) deadline now = some r) :
    s.onShutdown (nanosOf deadline) (nanosOf now) = r.apply s := by
  unfold onShutdown at h
  unfold State.onShutdown
  split at h
  · next hdraining =>
    cases h
    rw [if_pos hdraining]
    rfl
  · next hdraining =>
    rw [if_neg hdraining]
    split at h
    · next hidle =>
      cases h
      rw [if_pos (of_decide_eq_true hidle)]
      rfl
    · next hidle =>
      obtain ⟨t, ht, rfl⟩ := Option.map_eq_some_iff.1 h
      have hsum : nanosOf t = nanosOf deadline + abortGrace := by
        have hexact := Instant.toNanos_of_checkedAdd ht
        have hgrace : graceDuration.toNanos = abortGrace := by decide
        rw [hgrace] at hexact
        unfold nanosOf
        omega
      rw [if_neg fun hempty => hidle (decide_eq_true hempty), Shutdown.apply, hsum]

section

variable {now deadline : Instant} {drain : Duration}

/-- In one state or another the loop adds its grace to the deadline, and in no other way can it
panic. -/
theorem onShutdown_isSome_iff :
    (∀ draining idle later, (onShutdown draining idle deadline later).isSome = true) ↔
      (deadline.checkedAdd graceDuration).isSome = true := by
  constructor
  · intro h
    have hbusy := h false false deadline
    rwa [onShutdown, if_neg (by decide), if_neg (by decide), Option.isSome_map] at hbusy
  · intro h draining idle later
    cases draining with
    | true => rfl
    | false =>
      cases idle with
      | true => rfl
      | false => rwa [onShutdown, if_neg (by decide), if_neg (by decide), Option.isSome_map]

theorem drainDeadline_of_some {t : Instant} (h : now.checkedAdd drain = some t) :
    drainDeadline now drain = some t := by
  rw [drainDeadline, h]

theorem drainDeadline_of_none (h : now.checkedAdd drain = none) :
    drainDeadline now drain = now.checkedAdd farFuture := by
  rw [drainDeadline, h]

/-- A duration and the grace behind it can be added when their sum can. -/
theorem extends_iff {d : Duration} :
    (∃ t, now.checkedAdd d = some t ∧ (t.checkedAdd graceDuration).isSome = true) ↔
      now.toNanos + d.toNanos + graceDuration.toNanos < pastSeconds * perSecond := by
  have hgrace : 0 < graceDuration.toNanos := by decide
  constructor
  · rintro ⟨t, ht, hextended⟩
    rwa [Instant.isSome_checkedAdd, Instant.toNanos_of_checkedAdd ht] at hextended
  · intro hfits
    have hsome := Instant.isSome_checkedAdd (t := now) (d := d)
    obtain ⟨t, ht⟩ := Option.isSome_iff_exists.1 (hsome.2 (by omega))
    refine ⟨t, ht, ?_⟩
    rwa [Instant.isSome_checkedAdd, Instant.toNanos_of_checkedAdd ht]

theorem shutdownSafe_iff_extends :
    ShutdownSafe now drain ↔
      ∃ t, drainDeadline now drain = some t ∧ (t.checkedAdd graceDuration).isSome = true := by
  constructor
  · rintro ⟨⟨t, ht, htaken⟩, -⟩
    exact ⟨t, ht, onShutdown_isSome_iff.1 htaken⟩
  · rintro ⟨t, ht, hextended⟩
    exact ⟨⟨t, ht, onShutdown_isSome_iff.2 hextended⟩, fun _ h _ => drainDeadline_of_some h⟩

/-- A shutdown signal is safe exactly when the clock can tell the end of the drain and the
grace behind it, or else cannot tell the end of the drain at all but the far future and the
grace behind that. -/
theorem shutdownSafe_iff (now : Instant) (drain : ℕ) :
    ShutdownSafe now (.ofSecs drain) ↔
      now.secs + drain + 2 < 2 ^ 63 ∨
        2 ^ 63 ≤ now.secs + drain ∧ now.secs + 24 * 365 * 30 * 3600 + 2 < 2 ^ 63 := by
  have hnanos := now.nanos_lt
  rw [shutdownSafe_iff_extends]
  -- The deadline is the end of the drain if the clock can tell that, else the far future.
  cases hdrain : now.checkedAdd (.ofSecs drain) with
  | some t =>
    have hfits : (now.checkedAdd (.ofSecs drain)).isSome = true := by rw [hdrain]; rfl
    rw [drainDeadline_of_some hdrain, ← hdrain, extends_iff]
    rw [Instant.isSome_checkedAdd] at hfits
    simp only [Instant.toNanos, Duration.toNanos, Duration.ofSecs, graceDuration, perSecond,
      pastSeconds] at hnanos hfits ⊢
    omega
  | none =>
    have hpast : ¬(now.checkedAdd (.ofSecs drain)).isSome = true := by rw [hdrain]; decide
    rw [drainDeadline_of_none hdrain, extends_iff]
    rw [Instant.isSome_checkedAdd] at hpast
    simp only [Instant.toNanos, Duration.toNanos, Duration.ofSecs, graceDuration, farFuture,
      perSecond, pastSeconds] at hnanos hpast ⊢
    omega

/-- A clock a thousand seconds in. -/
def thousandSeconds : Instant := ⟨1000, 0, by decide, by decide, perSecond_pos⟩

/-- A drain up to the last second of that clock. -/
def longDrain : Integers where
  handshakeTimeout := none
  drainTimeout := some (2 ^ 63 - 1 - 1000)
  maxConnections := none
  maxHalfOpen := none
  maxPerSource := none
  acceptRate := none
  acceptBurst := none

theorem longDrain_panics :
    longDrain.check "config.toml" = .ok () ∧
      (∃ deadline, drainDeadline thousandSeconds longDrain.drain = some deadline ∧
        onShutdown false false deadline thousandSeconds = none) ∧
      ¬ShutdownSafe thousandSeconds longDrain.drain := by
  have hdeadline : ∃ deadline, drainDeadline thousandSeconds longDrain.drain = some deadline ∧
      onShutdown false false deadline thousandSeconds = none := ⟨_, rfl, by decide⟩
  obtain ⟨deadline, hdrain, hpanics⟩ := hdeadline
  refine ⟨by decide, ⟨deadline, hdrain, hpanics⟩, fun hsafe => ?_⟩
  obtain ⟨t, ht, htaken⟩ := hsafe.taken
  rw [hdrain] at ht
  cases ht
  have hsome := htaken false false thousandSeconds
  rw [hpanics] at hsome
  cases hsome

end

end QuantumSsh.Server
