import QuantumSsh.Lib.Machine
import Mathlib.Logic.Function.Basic

/-!
# Connection admission control

The four checks that the accept loop runs before it spawns a connection task,
and the guards that release what they took (`admission.rs`). The shared state
is one mutex-protected record, so each critical section is one step here. The
source's `HashMap` is a partial function, and an instant is a number of
nanoseconds.
-/

namespace QuantumSsh.Admission

open Machine

/-- The `[limits]` knobs. -/
structure Limits where
  maxConnections : ℕ
  maxHalfOpen : ℕ
  maxPerSource : ℕ
  /-- Tokens per second. -/
  acceptRate : ℕ
  /-- Bucket capacity. -/
  acceptBurst : ℕ
deriving Repr, DecidableEq

namespace Limits

/-- `Limits::default`. -/
def default : Limits where
  maxConnections := 256
  maxHalfOpen := 100
  maxPerSource := 10
  acceptRate := 1
  acceptBurst := 10

/-- The ranges that `config::parse` lets through: every knob is at least one,
the two rate knobs are `u32` and the caps are TOML integers. -/
structure Admitted (l : Limits) : Prop where
  maxConnections : 1 ≤ l.maxConnections ∧ l.maxConnections ≤ 2 ^ 63 - 1
  maxHalfOpen : 1 ≤ l.maxHalfOpen ∧ l.maxHalfOpen ≤ 2 ^ 63 - 1
  maxPerSource : 1 ≤ l.maxPerSource ∧ l.maxPerSource ≤ 2 ^ 63 - 1
  acceptRate : 1 ≤ l.acceptRate ∧ l.acceptRate ≤ u32Max
  acceptBurst : 1 ≤ l.acceptBurst ∧ l.acceptBurst ≤ u32Max

instance (l : Limits) : Decidable l.Admitted :=
  decidable_of_iff
    ((1 ≤ l.maxConnections ∧ l.maxConnections ≤ 2 ^ 63 - 1) ∧
      (1 ≤ l.maxHalfOpen ∧ l.maxHalfOpen ≤ 2 ^ 63 - 1) ∧
      (1 ≤ l.maxPerSource ∧ l.maxPerSource ≤ 2 ^ 63 - 1) ∧
      (1 ≤ l.acceptRate ∧ l.acceptRate ≤ u32Max) ∧
      (1 ≤ l.acceptBurst ∧ l.acceptBurst ≤ u32Max))
    ⟨fun ⟨a, b, c, d, e⟩ => ⟨a, b, c, d, e⟩, fun ⟨a, b, c, d, e⟩ => ⟨a, b, c, d, e⟩⟩

end Limits

/-- Which admission check refused the connection. -/
inductive Refusal where
  | maxConnections
  | maxHalfOpen
  | maxPerSource
  | acceptRate
deriving Repr, DecidableEq

/-! ### The token bucket -/

/-- Integer token bucket: tokens, and the instant of the last refill. -/
structure Bucket where
  level : ℕ
  refilledAt : ℕ
deriving Repr, DecidableEq

namespace Bucket

/-- `Bucket::full`. -/
def full (l : Limits) (now : ℕ) : Bucket where
  level := l.acceptBurst
  refilledAt := now

/-- The tokens that the time since the last refill is worth. -/
def added (l : Limits) (now : ℕ) (b : Bucket) : ℕ :=
  saturatingMul u64Max (min (millisSince now b.refilledAt) u64Max) l.acceptRate / 1000

/-- `Bucket::refill`. -/
def refill (l : Limits) (now : ℕ) (b : Bucket) : Bucket :=
  let added := b.added l now
  if added = 0 then b
  else
    let capped := min (min added l.acceptBurst) u32Max
    let level := min (saturatingAdd u32Max b.level capped) l.acceptBurst
    if level = l.acceptBurst then
      -- Full: the remainder is irrelevant, reset the clock.
      { level, refilledAt := now }
    else
      { level
        refilledAt := b.refilledAt +
          saturatingMul u64Max added 1000 / l.acceptRate * nanosPerMilli }

/-- `Bucket::try_take`: the answer and the bucket it leaves. -/
def tryTake (l : Limits) (now : ℕ) (b : Bucket) : Bool × Bucket :=
  let b := b.refill l now
  if b.level = 0 then (false, b) else (true, { b with level := b.level - 1 })

/-- `Bucket::is_full`: the answer and the bucket it leaves. -/
def isFull (l : Limits) (now : ℕ) (b : Bucket) : Bool × Bucket :=
  let b := b.refill l now
  (b.level == l.acceptBurst, b)

end Bucket

/-! ### Source keys -/

/-- `std::net::IpAddr`: four octets, or eight 16-bit segments. -/
inductive IpAddr where
  | v4 (a b c d : UInt8)
  | v6 (s₀ s₁ s₂ s₃ s₄ s₅ s₆ s₇ : UInt16)
deriving Repr, DecidableEq

/-- `IpAddr::to_canonical`: a v4-mapped v6 address becomes its v4 form. -/
def IpAddr.toCanonical : IpAddr → IpAddr
  | .v4 a b c d => .v4 a b c d
  | .v6 s₀ s₁ s₂ s₃ s₄ s₅ s₆ s₇ =>
    if s₀ = 0 ∧ s₁ = 0 ∧ s₂ = 0 ∧ s₃ = 0 ∧ s₄ = 0 ∧ s₅ = 0xffff then
      .v4 (s₆ >>> 8).toUInt8 s₆.toUInt8 (s₇ >>> 8).toUInt8 s₇.toUInt8
    else .v6 s₀ s₁ s₂ s₃ s₄ s₅ s₆ s₇

/-- `source_key`: IPv4 by address, IPv6 by /64. -/
def sourceKey (ip : IpAddr) : IpAddr :=
  match ip.toCanonical with
  | .v4 a b c d => .v4 a b c d
  | .v6 s₀ s₁ s₂ s₃ _ _ _ _ => .v6 s₀ s₁ s₂ s₃ 0 0 0 0

/-! ### The shared state and its operations -/

/-- Per-source accounting. -/
structure SourceState where
  halfOpen : ℕ
  bucket : Bucket
deriving Repr, DecidableEq

/-- The shared admission state. -/
structure State where
  connections : ℕ
  halfOpen : ℕ
  sources : IpAddr → Option SourceState
  admissionsSinceSweep : ℕ

/-- `State::default`. -/
def State.empty : State where
  connections := 0
  halfOpen := 0
  sources := fun _ => none
  admissionsSinceSweep := 0

/-- `SWEEP_INTERVAL`. -/
def sweepInterval : ℕ := 64

/-- What a guard holds: its source key, and whether userauth has succeeded. -/
structure ConnectionGuard where
  source : IpAddr
  authenticated : Bool
deriving Repr, DecidableEq

/-- The `retain` predicate of the sweep on one entry. The bucket is refilled
only when no half-open connection keeps the entry. -/
def retained (l : Limits) (now : ℕ) (s : SourceState) : Option SourceState :=
  if 0 < s.halfOpen then some s
  else
    let (full, bucket) := s.bucket.isFull l now
    if full then none else some { s with bucket }

/-- The amortised prune: every `sweepInterval` cap-passing calls, drop the
sources with no half-open connection and a full bucket. -/
def sweep (l : Limits) (now : ℕ) (st : State) : State :=
  let count := st.admissionsSinceSweep + 1
  if sweepInterval ≤ count then
    { st with
      admissionsSinceSweep := 0
      sources := fun key => (st.sources key).bind (retained l now) }
  else { st with admissionsSinceSweep := count }

/-- The per-source rate check and, when it passes, the slots. -/
def charge (l : Limits) (key : IpAddr) (now : ℕ) (st : State) :
    Except Refusal ConnectionGuard × State :=
  let source := (st.sources key).getD { halfOpen := 0, bucket := Bucket.full l now }
  let (taken, bucket) := source.bucket.tryTake l now
  if taken then
    (.ok { source := key, authenticated := false },
      { st with
        connections := st.connections + 1
        halfOpen := st.halfOpen + 1
        sources := Function.update st.sources key
          (some { halfOpen := source.halfOpen + 1, bucket }) })
  else
    (.error .acceptRate,
      { st with sources := Function.update st.sources key (some { source with bucket }) })

/-- `Admission::try_admit`: the three cap reads first, the rate check last. -/
def tryAdmit (l : Limits) (ip : IpAddr) (now : ℕ) (st : State) :
    Except Refusal ConnectionGuard × State :=
  let key := sourceKey ip
  if l.maxConnections ≤ st.connections then (.error .maxConnections, st)
  else if l.maxHalfOpen ≤ st.halfOpen then (.error .maxHalfOpen, st)
  else if (st.sources key).any (fun s => l.maxPerSource ≤ s.halfOpen) then
    (.error .maxPerSource, st)
  else charge l key now (sweep l now st)

/-- The three caps, read before anything is taken. -/
def State.BelowCaps (l : Limits) (key : IpAddr) (st : State) : Prop :=
  st.connections < l.maxConnections ∧ st.halfOpen < l.maxHalfOpen ∧
    (∀ s, st.sources key = some s → s.halfOpen < l.maxPerSource)

/-- A refusal by a cap changes nothing; past the caps the call sweeps and
charges. -/
theorem tryAdmit_cases (l : Limits) (ip : IpAddr) (now : ℕ) (st : State) :
    (∃ refusal, refusal ≠ .acceptRate ∧ tryAdmit l ip now st = (.error refusal, st)) ∨
    (st.BelowCaps l (sourceKey ip) ∧
      tryAdmit l ip now st = charge l (sourceKey ip) now (sweep l now st)) := by
  unfold tryAdmit
  by_cases hconn : l.maxConnections ≤ st.connections
  · exact Or.inl ⟨.maxConnections, by decide, by simp [hconn]⟩
  by_cases hhalf : l.maxHalfOpen ≤ st.halfOpen
  · exact Or.inl ⟨.maxHalfOpen, by decide, by simp [hconn, hhalf]⟩
  by_cases hsource : (st.sources (sourceKey ip)).any
      (fun s => decide (l.maxPerSource ≤ s.halfOpen)) = true
  · exact Or.inl ⟨.maxPerSource, by decide, by simp [hconn, hhalf, hsource]⟩
  · refine Or.inr ⟨⟨by omega, by omega, fun s hs => ?_⟩, by simp [hconn, hhalf, hsource]⟩
    by_contra hge
    exact hsource (by simp only [hs, Option.any_some, decide_eq_true_eq]; omega)

/-- One half-open slot of `s` is given back. -/
def SourceState.release (s : SourceState) : SourceState :=
  { s with halfOpen := s.halfOpen - 1 }

/-- `ConnectionGuard::mark_authenticated`: the guard and the state it leaves. -/
def markAuthenticated (g : ConnectionGuard) (st : State) : ConnectionGuard × State :=
  if g.authenticated then (g, st)
  else
    ({ g with authenticated := true },
      { st with
        halfOpen := st.halfOpen - 1
        sources := Function.update st.sources g.source
          ((st.sources g.source).map SourceState.release) })

/-- The prune rule at a drop: an entry with no half-open connection and a full
bucket leaves the map. -/
def pruned (l : Limits) (now : ℕ) (s : SourceState) : Option SourceState :=
  if s.halfOpen = 0 then
    let (full, bucket) := s.bucket.isFull l now
    if full then none else some { s with bucket }
  else some s

/-- `Drop for ConnectionGuard`. -/
def dropGuard (l : Limits) (now : ℕ) (g : ConnectionGuard) (st : State) : State :=
  let endedHalfOpen := !g.authenticated
  { st with
    connections := st.connections - 1
    halfOpen := if endedHalfOpen then st.halfOpen - 1 else st.halfOpen
    sources := Function.update st.sources g.source
      ((st.sources g.source).bind fun s =>
        pruned l now (if endedHalfOpen then s.release else s)) }

/-! ### Whole runs -/

/-- The admission state together with the guards that are alive. -/
structure System where
  state : State
  guards : List ConnectionGuard

/-- The listener before its first connection. -/
def System.start : System where
  state := State.empty
  guards := []

/-- One critical section, taken by the accept loop or by a connection task. A
task names its guard by its position among the live ones. -/
inductive Op where
  | arrive (ip : IpAddr) (now : ℕ)
  | authenticate (i : ℕ)
  | drop (i : ℕ) (now : ℕ)
deriving Repr, DecidableEq

/-- The system after one operation; an operation on no guard does nothing. -/
def System.step (l : Limits) (sys : System) : Op → System
  | .arrive ip now =>
    match tryAdmit l ip now sys.state with
    | (.ok guard, state) => { state, guards := guard :: sys.guards }
    | (.error _, state) => { sys with state }
  | .authenticate i =>
    match sys.guards[i]? with
    | some g =>
      let (g, state) := markAuthenticated g sys.state
      { state, guards := sys.guards.set i g }
    | none => sys
  | .drop i now =>
    match sys.guards[i]? with
    | some g => { state := dropGuard l now g sys.state, guards := sys.guards.eraseIdx i }
    | none => sys

/-- The system after a list of operations. -/
def System.run (l : Limits) (sys : System) (ops : List Op) : System :=
  ops.foldl (System.step l) sys

@[simp] theorem System.run_nil (l : Limits) (sys : System) : sys.run l [] = sys := rfl

@[simp] theorem System.run_cons (l : Limits) (sys : System) (op : Op) (ops : List Op) :
    sys.run l (op :: ops) = (sys.step l op).run l ops := rfl

theorem System.run_append (l : Limits) (sys : System) (ops ops' : List Op) :
    sys.run l (ops ++ ops') = (sys.run l ops).run l ops' :=
  List.foldl_append

end QuantumSsh.Admission
