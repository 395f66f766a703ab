import QuantumSsh.Admission.Basic
import Mathlib.Tactic.Ring

/-!
# The rate bound of the token bucket

How many connections of one source are let in during a window of time. The
refill rounds twice: the elapsed milliseconds are turned into tokens, and the
tokens back into the milliseconds by which the clock of the bucket advances.
Whether the accumulated rounding breaks the bound depends on the relation of
the rate to 1000, and on the burst.
-/

namespace QuantumSsh.Admission

open Machine

/-! ### What one refill does -/

namespace Bucket

/-- The three outcomes of a refill, without the saturations: a saturated
product is worth more than any burst. -/
theorem refill_cases {l : Limits} (hl : l.Admitted) {b : Bucket} (now : ℕ)
    (hb : b.level ≤ l.acceptBurst) :
    (l.acceptRate * millisSince now b.refilledAt < 1000 ∧ b.refill l now = b) ∨
    (1000 ≤ l.acceptRate * millisSince now b.refilledAt ∧
      l.acceptBurst ≤ b.level + l.acceptRate * millisSince now b.refilledAt / 1000 ∧
      b.refill l now = ⟨l.acceptBurst, now⟩) ∨
    (1000 ≤ l.acceptRate * millisSince now b.refilledAt ∧
      b.level + l.acceptRate * millisSince now b.refilledAt / 1000 < l.acceptBurst ∧
      b.refill l now = ⟨b.level + l.acceptRate * millisSince now b.refilledAt / 1000,
        b.refilledAt + l.acceptRate * millisSince now b.refilledAt / 1000 * 1000 /
          l.acceptRate * nanosPerMilli⟩) := by
  obtain ⟨hrate, -⟩ := hl.acceptRate
  obtain ⟨-, hburst⟩ := hl.acceptBurst
  set ms := millisSince now b.refilledAt with hms
  set tokens := l.acceptRate * ms / 1000 with htokens
  unfold u32Max at hburst
  -- Below the saturation the tokens are the exact ones, and the cut to a `u32` loses none.
  by_cases hsat : ms * l.acceptRate ≤ u64Max
  · have hmul : ms ≤ ms * l.acceptRate := Nat.le_mul_of_pos_right ms hrate
    have hadded : b.added l now = tokens := by
      unfold added
      rw [← hms, min_eq_left (hmul.trans hsat), saturatingMul_of_le hsat, Nat.mul_comm, htokens]
    by_cases hzero : tokens = 0
    · refine Or.inl ⟨by omega, ?_⟩
      simp [refill, hadded, hzero]
    have hlarge : 1000 ≤ l.acceptRate * ms := by omega
    by_cases hfull : l.acceptBurst ≤ b.level + tokens
    · refine Or.inr (Or.inl ⟨hlarge, hfull, ?_⟩)
      have hlevel : min (saturatingAdd u32Max b.level (min (min tokens l.acceptBurst) u32Max))
          l.acceptBurst = l.acceptBurst := by
        unfold saturatingAdd u32Max
        omega
      simp only [refill, hadded, hzero, hlevel, if_false, if_true]
    · refine Or.inr (Or.inr ⟨hlarge, by omega, ?_⟩)
      have hlevel : min (saturatingAdd u32Max b.level (min (min tokens l.acceptBurst) u32Max))
          l.acceptBurst = b.level + tokens := by
        unfold saturatingAdd u32Max
        omega
      have hne : b.level + tokens ≠ l.acceptBurst := by omega
      have hsmall : tokens * 1000 ≤ u64Max := by
        unfold u64Max
        omega
      simp only [refill, hadded, hzero, hlevel, hne, saturatingMul_of_le hsmall, if_false]
  · -- The product saturates: it is worth more than any burst.
    have hbig : u64Max < l.acceptRate * ms := by
      rw [Nat.mul_comm]
      omega
    have hadded : b.added l now = u64Max / 1000 := by
      unfold added saturatingMul
      rw [← hms, min_eq_right]
      rcases le_total ms u64Max with h | h
      · rw [min_eq_left h]
        omega
      · rw [min_eq_right h]
        exact Nat.le_mul_of_pos_right u64Max hrate
    unfold u64Max at hbig
    refine Or.inr (Or.inl ⟨by omega, by omega, ?_⟩)
    have hlevel : min (saturatingAdd u32Max b.level
        (min (min (u64Max / 1000) l.acceptBurst) u32Max)) l.acceptBurst = l.acceptBurst := by
      unfold saturatingAdd u32Max u64Max
      omega
    simp only [refill, hadded, hlevel, if_true]
    rw [if_neg (by decide)]

theorem refill_level_le {l : Limits} (hl : l.Admitted) {b : Bucket} (now : ℕ)
    (hb : b.level ≤ l.acceptBurst) : (b.refill l now).level ≤ l.acceptBurst := by
  rcases refill_cases hl now hb with ⟨-, h⟩ | ⟨-, -, h⟩ | ⟨-, hlt, h⟩ <;> rw [h]
  · exact hb
  · exact hlt.le

/-- The tokens stand for no more time than has passed. -/
theorem advance_le {rate : ℕ} (ms : ℕ) (hrate : 1 ≤ rate) : rate * ms / 1000 * 1000 / rate ≤ ms := by
  have h : rate * ms / 1000 * 1000 ≤ rate * ms := Nat.div_mul_le_self _ _
  calc rate * ms / 1000 * 1000 / rate ≤ rate * ms / rate := Nat.div_le_div_right h
    _ = ms := Nat.mul_div_cancel_left ms hrate

/-- The clock of the bucket never runs ahead of the caller's. -/
theorem refill_refilledAt_le {l : Limits} (hl : l.Admitted) {b : Bucket} {now : ℕ}
    (hb : b.level ≤ l.acceptBurst) (hat : b.refilledAt ≤ now) :
    (b.refill l now).refilledAt ≤ now := by
  rcases refill_cases hl now hb with ⟨-, h⟩ | ⟨-, -, h⟩ | ⟨-, -, h⟩ <;> rw [h]
  · exact hat
  · have hadv := advance_le (millisSince now b.refilledAt) hl.acceptRate.1
    have hmul := Nat.mul_le_mul_right nanosPerMilli hadv
    have hms : millisSince now b.refilledAt * nanosPerMilli ≤ now - b.refilledAt :=
      Nat.div_mul_le_self _ _
    dsimp only
    omega

/-- A refill that reads no later clock than the last one adds nothing. -/
theorem refill_of_le (l : Limits) {b : Bucket} {now : ℕ} (h : now ≤ b.refilledAt) :
    b.refill l now = b := by
  simp [refill, added, millisSince, Nat.sub_eq_zero_of_le h, saturatingMul]

theorem refill_self (l : Limits) (b : Bucket) : b.refill l b.refilledAt = b :=
  refill_of_le l le_rfl

end Bucket

/-! ### Tokens taken in a run -/

/-- The instant of a `try_admit` call for the source `key`. -/
def Op.admitTime (key : IpAddr) : Op → Option ℕ
  | .arrive ip now => if sourceKey ip = key then some now else none
  | _ => none

/-- The instant at which an operation that is no call for the source `key` may
prune its entry: a call for another source, or the drop of one of its guards. -/
def pruneTime (key : IpAddr) (sys : System) : Op → Option ℕ
  | .arrive ip now => if sourceKey ip = key then none else some now
  | .authenticate _ => none
  | .drop i now => if sys.guards[i]?.any (fun g => g.source = key) then some now else none

/-- The `try_admit` calls for the source are made at non-decreasing times. -/
def AdmitsInOrder (key : IpAddr) (ops : List Op) : Prop :=
  (ops.filterMap (Op.admitTime key)).Pairwise (· ≤ ·)

instance (key : IpAddr) (ops : List Op) : Decidable (AdmitsInOrder key ops) :=
  inferInstanceAs (Decidable (List.Pairwise _ _))

/-- No prune of the source's entry reads a later clock than a `try_admit` call
for the source behind it. -/
def PrunesInOrder (l : Limits) (key : IpAddr) : System → List Op → Prop
  | _, [] => True
  | sys, op :: ops =>
    (∀ c ∈ pruneTime key sys op, ∀ now ∈ ops.filterMap (Op.admitTime key), c ≤ now) ∧
      PrunesInOrder l key (sys.step l op) ops

/-- The call takes a token of the source `key`: it passes all four checks. -/
def takesToken (l : Limits) (key : IpAddr) (sys : System) : Op → Bool
  | .arrive ip now => sourceKey ip == key && (tryAdmit l ip now sys.state).1.isOk
  | _ => false

/-- The instants at which a run takes a token of the source `key`. -/
def tokens (l : Limits) (key : IpAddr) (sys : System) : List Op → List ℕ
  | [] => []
  | op :: ops =>
    (if takesToken l key sys op then (op.admitTime key).toList else []) ++
      tokens l key (sys.step l op) ops

/-- The instant lies in the window of `ms` milliseconds from `start`, both ends
included. -/
def inWindow (start ms now : ℕ) : Bool :=
  decide (start ≤ now ∧ now ≤ start + ms * nanosPerMilli)

/-- At most `burst + ⌈rate * ms / 1000⌉` tokens of the source are taken in any
window of `ms` milliseconds of the run. -/
def WithinRate (l : Limits) (key : IpAddr) (ops : List Op) : Prop :=
  ∀ start ms, (tokens l key System.start ops).countP (inWindow start ms) ≤
    l.acceptBurst + (l.acceptRate * ms + 999) / 1000

/-- Every run that calls `try_admit` for a source at non-decreasing times is
within the rate, whatever clocks the prunes in between read. -/
def RateBound (l : Limits) : Prop :=
  ∀ key ops, AdmitsInOrder key ops → WithinRate l key ops

/-- Every such run is, if its prunes read no later clocks than the calls behind them. -/
def RateBoundInOrder (l : Limits) : Prop :=
  ∀ key ops, AdmitsInOrder key ops → PrunesInOrder l key System.start ops → WithinRate l key ops

/-- The bucket of a source, if it has an entry. -/
def State.bucketOf (st : State) (key : IpAddr) : Option Bucket :=
  (st.sources key).map SourceState.bucket

/-- What the prune does to the bucket of an idle source. -/
def swept (l : Limits) (now : ℕ) (o : Option Bucket) : Option Bucket :=
  o.bind fun b =>
    if (b.refill l now).level = l.acceptBurst then none else some (b.refill l now)

/-- The bucket a token was taken from. -/
def takenFrom (l : Limits) (now : ℕ) (b : Bucket) : Bucket :=
  { b.refill l now with level := (b.refill l now).level - 1 }

/-- What a prune at the instant `now` leaves of an entry: it may not look at it. -/
inductive Pruned (l : Limits) (now : ℕ) (o : Option Bucket) : Option Bucket → Prop
  | untouched : Pruned l now o o
  | swept : Pruned l now o (swept l now o)

/-- What a `try_admit` call for the source leaves of its entry, and how many tokens
it takes: a cap refuses it, no token is left, or one is taken. -/
inductive Arrived (l : Limits) (now : ℕ) (o : Option Bucket) : ℕ → Option Bucket → Prop
  | capped : Arrived l now o 0 o
  | empty {o₁ : Option Bucket} (h : Pruned l now o o₁) :
      Arrived l now o 0 (some ((o₁.getD (Bucket.full l now)).refill l now))
  | taken {o₁ : Option Bucket} (h : Pruned l now o o₁)
      (hpos : ((o₁.getD (Bucket.full l now)).refill l now).level ≠ 0) :
      Arrived l now o 1 (some (takenFrom l now (o₁.getD (Bucket.full l now))))

section Entries

variable {l : Limits} {now : ℕ} {o : Option Bucket} {key : IpAddr}

theorem bucket_retained (l : Limits) (now : ℕ) (s : SourceState) :
    (retained l now s).map SourceState.bucket =
      if 0 < s.halfOpen then some s.bucket else swept l now (some s.bucket) := by
  unfold retained swept Bucket.isFull
  by_cases hpos : 0 < s.halfOpen
  · simp [hpos]
  · by_cases hfull : (s.bucket.refill l now).level = l.acceptBurst <;> simp [hpos, hfull]

/-- The prune rule on one entry. -/
theorem pruned_entry (l : Limits) (now : ℕ) (s : SourceState) :
    Pruned l now (some s.bucket) ((pruned l now s).map SourceState.bucket) := by
  have hbucket : (pruned l now s).map SourceState.bucket =
      if s.halfOpen = 0 then swept l now (some s.bucket) else some s.bucket := by
    unfold pruned swept Bucket.isFull
    by_cases hzero : s.halfOpen = 0
    · by_cases hfull : (s.bucket.refill l now).level = l.acceptBurst <;> simp [hzero, hfull]
    · simp [hzero]
  rw [hbucket]
  split
  · exact .swept
  · exact .untouched

/-- The sweep refills the bucket of an idle source and drops it when full. -/
theorem pruned_sweep (l : Limits) (now : ℕ) (key : IpAddr) (st : State) :
    Pruned l now (st.bucketOf key) ((sweep l now st).bucketOf key) := by
  unfold sweep
  dsimp only
  split
  · cases hs : st.sources key with
    | none => simpa [State.bucketOf, hs] using Pruned.untouched
    | some s =>
      simp only [State.bucketOf, hs, Option.map_some, Option.bind_some, bucket_retained]
      split
      · exact .untouched
      · exact .swept
  · exact .untouched

/-- The rate check, on the bucket of the source it charges. -/
theorem arrived_charge {st : State} (h : Pruned l now o (st.bucketOf key)) :
    Arrived l now o (if (charge l key now st).1.isOk then 1 else 0)
      ((charge l key now st).2.bucketOf key) := by
  have hentry : ((st.sources key).getD ⟨0, Bucket.full l now⟩).bucket =
      (st.bucketOf key).getD (Bucket.full l now) := by
    cases hs : st.sources key <;> simp [State.bucketOf, hs]
  unfold charge Bucket.tryTake
  generalize (st.sources key).getD ⟨0, Bucket.full l now⟩ = source at hentry ⊢
  by_cases hzero : (source.bucket.refill l now).level = 0
  · have hempty := Arrived.empty h
    rw [← hentry] at hempty
    simpa [hzero, State.bucketOf, Except.isOk, Except.toBool] using hempty
  · have htaken := Arrived.taken h (by rwa [← hentry])
    rw [← hentry] at htaken
    simpa [hzero, State.bucketOf, Except.isOk, Except.toBool, takenFrom] using htaken

/-- Charging one source leaves the buckets of the others. -/
theorem charge_bucketOf_ne {key' : IpAddr} (hne : key' ≠ key) (st : State) :
    (charge l key now st).2.bucketOf key' = st.bucketOf key' := by
  unfold charge
  dsimp only
  split <;> simp [State.bucketOf, hne]

theorem state_step_arrive (l : Limits) (sys : System) (ip : IpAddr) (now : ℕ) :
    (sys.step l (.arrive ip now)).state = (tryAdmit l ip now sys.state).2 := by
  simp only [System.step]
  rcases tryAdmit l ip now sys.state with ⟨_ | _, st⟩ <;> rfl

/-- A call for the source. -/
theorem arrived_arrive (l : Limits) (ip : IpAddr) (now : ℕ) (sys : System) :
    Arrived l now (sys.state.bucketOf (sourceKey ip))
      (if takesToken l (sourceKey ip) sys (.arrive ip now) then 1 else 0)
      ((sys.step l (.arrive ip now)).state.bucketOf (sourceKey ip)) := by
  rw [state_step_arrive]
  rcases tryAdmit_cases l ip now sys.state with ⟨refusal, -, hrun⟩ | ⟨-, hrun⟩
  · simpa [takesToken, hrun, Except.isOk, Except.toBool] using Arrived.capped
  · have hcharge := arrived_charge (pruned_sweep l now (sourceKey ip) sys.state)
    simpa [takesToken, hrun] using hcharge

/-- A call for another source only sweeps. -/
theorem pruned_arrive {ip : IpAddr} (hne : sourceKey ip ≠ key) (now : ℕ) (sys : System) :
    Pruned l now (sys.state.bucketOf key) ((sys.step l (.arrive ip now)).state.bucketOf key) := by
  rw [state_step_arrive]
  rcases tryAdmit_cases l ip now sys.state with ⟨refusal, -, hrun⟩ | ⟨-, hrun⟩
  · rw [hrun]
    exact .untouched
  · rw [hrun, charge_bucketOf_ne hne.symm]
    exact pruned_sweep l now key sys.state

/-- The drop of a guard of the source. -/
theorem pruned_dropGuard (g : ConnectionGuard) (st : State) :
    Pruned l now (st.bucketOf g.source) ((dropGuard l now g st).bucketOf g.source) := by
  cases hs : st.sources g.source with
  | none => simpa [State.bucketOf, dropGuard, hs] using Pruned.untouched
  | some s =>
    have hbucket : (if (!g.authenticated) = true then s.release else s).bucket = s.bucket := by
      split <;> rfl
    have h := pruned_entry l now (if (!g.authenticated) = true then s.release else s)
    rw [hbucket] at h
    simpa only [State.bucketOf, dropGuard, hs, Function.update_self, Option.bind_some,
      Option.map_some] using h

theorem dropGuard_bucketOf_ne {g : ConnectionGuard} (hne : g.source ≠ key) (st : State) :
    (dropGuard l now g st).bucketOf key = st.bucketOf key := by
  simp [State.bucketOf, dropGuard, hne.symm]

theorem markAuthenticated_bucketOf (g : ConnectionGuard) (st : State) :
    (markAuthenticated g st).2.bucketOf key = st.bucketOf key := by
  unfold markAuthenticated
  split
  · rfl
  · by_cases hkey : key = g.source
    · cases hs : st.sources g.source <;> simp [hkey, State.bucketOf, hs, SourceState.release]
    · simp [State.bucketOf, hkey]

end Entries

/-! ### Potential: tokens a bucket can still give until a deadline -/

/-- How many tokens a bucket whose clock stands at an instant can gain until a
deadline. A refill never raises level plus gain, and right after one the gain
of the next `ms` milliseconds is within the bound. -/
structure Gain (l : Limits) where
  gain : ℕ → ℕ → ℕ
  anti : ∀ {a b : ℕ} (deadline : ℕ), a ≤ b → gain b deadline ≤ gain a deadline
  refill_le : ∀ {b : Bucket} {now deadline : ℕ}, b.level ≤ l.acceptBurst →
    b.refilledAt ≤ now → now ≤ deadline →
    (b.refill l now).level + gain (b.refill l now).refilledAt deadline ≤
      b.level + gain b.refilledAt deadline
  settled_le : ∀ (b : Bucket) (now : ℕ) {deadline ms : ℕ}, b.level ≤ l.acceptBurst →
    b.refilledAt ≤ now → deadline ≤ now + ms * nanosPerMilli →
    gain (b.refill l now).refilledAt deadline ≤ (l.acceptRate * ms + 999) / 1000

/-- The entry is within its limits at the instant `now`. -/
def Sound (l : Limits) (now : ℕ) (o : Option Bucket) : Prop :=
  ∀ b, o = some b → b.level ≤ l.acceptBurst ∧ b.refilledAt ≤ now

namespace Sound

variable {l : Limits} {c now later : ℕ} {o o' : Option Bucket} {b : Bucket}

theorem mono (h : Sound l now o) (hle : now ≤ later) : Sound l later o :=
  fun b hb => ⟨(h b hb).1, (h b hb).2.trans hle⟩

theorem refill (hl : l.Admitted) (h : Sound l now (some b)) (hc : c ≤ now) :
    Sound l now (some (b.refill l c)) := by
  obtain ⟨hlevel, hat⟩ := h b rfl
  rintro _ ⟨rfl⟩
  refine ⟨Bucket.refill_level_le hl c hlevel, ?_⟩
  rcases le_total b.refilledAt c with hle | hle
  · exact (Bucket.refill_refilledAt_le hl hlevel hle).trans hc
  · rwa [Bucket.refill_of_le l hle]

/-- A prune may read an earlier clock. -/
theorem pruned (hl : l.Admitted) (h : Sound l now o) (hc : c ≤ now) (hp : Pruned l c o o') :
    Sound l now o' := by
  cases hp with
  | untouched => exact h
  | swept =>
    cases o with
    | none => exact h
    | some b =>
      unfold swept
      rw [Option.bind_some]
      split
      · exact fun b hb => by cases hb
      · exact h.refill hl hc

/-- A source without an entry starts with a full bucket. -/
theorem getD (h : Sound l now o) : Sound l now (some (o.getD (Bucket.full l now))) := by
  cases o with
  | none =>
    rintro _ ⟨rfl⟩
    exact ⟨le_rfl, le_rfl⟩
  | some b => exact h

end Sound

namespace Gain

variable {l : Limits} (G : Gain l)

/-- Level plus gain; a source without an entry counts as a full bucket. -/
def potential (deadline now : ℕ) : Option Bucket → ℕ
  | some b => b.level + G.gain b.refilledAt deadline
  | none => l.acceptBurst + G.gain now deadline

variable {c now later deadline ms n : ℕ} {o o' : Option Bucket} {b : Bucket}

theorem potential_anti (deadline : ℕ) (o : Option Bucket) (h : now ≤ later) :
    G.potential deadline later o ≤ G.potential deadline now o := by
  cases o with
  | none => exact Nat.add_le_add_left (G.anti deadline h) _
  | some b => exact le_rfl

theorem potential_refill (ho : Sound l now (some b)) (hc : c ≤ deadline) :
    G.potential deadline now (some (b.refill l c)) ≤ G.potential deadline now (some b) := by
  rcases le_total b.refilledAt c with hle | hle
  · exact G.refill_le (ho b rfl).1 hle hc
  · rw [Bucket.refill_of_le l hle]

/-- A prune does not raise the potential. -/
theorem potential_pruned (hl : l.Admitted) (ho : Sound l now o) (hc : c ≤ now)
    (hdeadline : c ≤ deadline) (h : Pruned l c o o') :
    G.potential deadline now o' ≤ G.potential deadline now o := by
  cases h with
  | untouched => exact le_rfl
  | swept =>
    cases o with
    | none => exact le_rfl
    | some b =>
      have hle := G.potential_refill ho hdeadline
      unfold swept
      rw [Option.bind_some]
      split
      next hfull =>
        -- A full bucket is forgotten: a new one counts from now.
        have hanti := G.anti deadline (ho.refill hl hc _ rfl).2
        simp only [potential, hfull] at hle ⊢
        omega
      next => exact hle

/-- A call for the source keeps the entry sound, pays for its token out of the
potential, and leaves no more than the bound until the end of the window, if it
looks at the entry at all. -/
theorem potential_arrived (hl : l.Admitted) (ho : Sound l now o) (hnow : now ≤ deadline)
    (hend : deadline ≤ now + ms * nanosPerMilli) (h : Arrived l now o n o') :
    Sound l now o' ∧ G.potential deadline now o' + n ≤ G.potential deadline now o ∧
      ((o' = o ∧ n = 0) ∨ G.potential deadline now o' + n ≤
        l.acceptBurst + (l.acceptRate * ms + 999) / 1000) := by
  -- What a call finds, once the entry was swept and its bucket refilled.
  have hfound : ∀ o₁, Pruned l now o o₁ →
      Sound l now (some ((o₁.getD (Bucket.full l now)).refill l now)) ∧
      G.potential deadline now (some ((o₁.getD (Bucket.full l now)).refill l now)) ≤
        G.potential deadline now o ∧
      G.gain ((o₁.getD (Bucket.full l now)).refill l now).refilledAt deadline ≤
        (l.acceptRate * ms + 999) / 1000 := by
    intro o₁ hpruned
    have hsound := (ho.pruned hl le_rfl hpruned).getD
    have hgetD : G.potential deadline now (some (o₁.getD (Bucket.full l now))) =
        G.potential deadline now o₁ := by
      cases o₁ <;> rfl
    have hpotential := G.potential_refill hsound hnow
    rw [hgetD] at hpotential
    obtain ⟨hlevel, hat⟩ := hsound _ rfl
    exact ⟨hsound.refill hl le_rfl,
      hpotential.trans (G.potential_pruned hl ho le_rfl hnow hpruned),
      G.settled_le _ now hlevel hat hend⟩
  cases h with
  | capped => exact ⟨ho, le_rfl, .inl ⟨rfl, rfl⟩⟩
  | @empty o₁ hpruned =>
    obtain ⟨hsound, hle, hgain⟩ := hfound o₁ hpruned
    have hlevel := (hsound _ rfl).1
    refine ⟨hsound, hle, .inr ?_⟩
    simp only [potential]
    omega
  | @taken o₁ hpruned hpos =>
    obtain ⟨hsound, hle, hgain⟩ := hfound o₁ hpruned
    obtain ⟨hlevel, hat⟩ := hsound _ rfl
    refine ⟨?_, ?_, .inr ?_⟩
    · rintro _ ⟨rfl⟩
      exact ⟨(Nat.sub_le _ _).trans hlevel, hat⟩
    · simp only [potential, takenFrom] at hle ⊢
      omega
    · simp only [potential, takenFrom]
      omega

end Gain

/-! ### Runs -/

/-- What one operation does to the bucket of a source: it is a call for it, or it
may prune it. -/
theorem step_bucketOf (l : Limits) (key : IpAddr) (sys : System) (op : Op) :
    (∃ now, op.admitTime key = some now ∧
      Arrived l now (sys.state.bucketOf key) (if takesToken l key sys op then 1 else 0)
        ((sys.step l op).state.bucketOf key)) ∨
    (op.admitTime key = none ∧
      ((sys.step l op).state.bucketOf key = sys.state.bucketOf key ∨
        ∃ c, pruneTime key sys op = some c ∧
          Pruned l c (sys.state.bucketOf key) ((sys.step l op).state.bucketOf key))) := by
  cases op with
  | arrive ip now =>
    by_cases hkey : sourceKey ip = key
    · subst hkey
      exact .inl ⟨now, if_pos rfl, arrived_arrive l ip now sys⟩
    · exact .inr ⟨if_neg hkey, .inr ⟨now, if_neg hkey, pruned_arrive hkey now sys⟩⟩
  | authenticate i =>
    refine .inr ⟨rfl, .inl ?_⟩
    cases hget : sys.guards[i]? with
    | none => simp only [System.step, hget]
    | some g => simpa only [System.step, hget] using markAuthenticated_bucketOf g sys.state
  | drop i now =>
    refine .inr ⟨rfl, ?_⟩
    cases hget : sys.guards[i]? with
    | none => exact .inl (by simp only [System.step, hget])
    | some g =>
      simp only [System.step, pruneTime, hget, Option.any_some, decide_eq_true_eq]
      by_cases hkey : g.source = key
      · subst hkey
        exact .inr ⟨now, if_pos rfl, pruned_dropGuard g sys.state⟩
      · exact .inl (dropGuard_bucketOf_ne hkey sys.state)

section Window

variable {l : Limits} {key : IpAddr} {start ms cur now : ℕ} {sys : System} {op : Op}
  {ops : List Op}

/-- The rest of a run in which the calls for the source are made in order, none
before `cur`, and no prune reads a later clock than a call behind it. -/
structure InOrder (l : Limits) (key : IpAddr) (cur : ℕ) (sys : System) (ops : List Op) : Prop where
  admits : AdmitsInOrder key ops
  prunes : PrunesInOrder l key sys ops
  later : ∀ now ∈ ops.filterMap (Op.admitTime key), cur ≤ now

theorem InOrder.admit (h : InOrder l key cur sys (op :: ops)) (hop : op.admitTime key = some now) :
    cur ≤ now ∧ InOrder l key now (sys.step l op) ops := by
  have hadmits := h.admits
  have hlater := h.later
  rw [AdmitsInOrder, List.filterMap_cons_some hop, List.pairwise_cons] at hadmits
  rw [List.filterMap_cons_some hop] at hlater
  exact ⟨hlater now List.mem_cons_self, hadmits.2, h.prunes.2, hadmits.1⟩

theorem InOrder.other (h : InOrder l key cur sys (op :: ops)) (hop : op.admitTime key = none) :
    InOrder l key cur (sys.step l op) ops := by
  have hadmits := h.admits
  have hlater := h.later
  rw [AdmitsInOrder, List.filterMap_cons_none hop] at hadmits
  rw [List.filterMap_cons_none hop] at hlater
  exact ⟨hadmits, h.prunes.2, hlater⟩

theorem InOrder.prune (h : InOrder l key cur sys (op :: ops)) (hop : op.admitTime key = none)
    {c : ℕ} (hc : pruneTime key sys op = some c) :
    InOrder l key (max cur c) (sys.step l op) ops := by
  have hrest := h.other hop
  exact ⟨hrest.admits, hrest.prunes,
    fun now hnow => max_le (hrest.later now hnow) (h.prunes.1 c hc now hnow)⟩

/-- How many tokens a run takes in the window. -/
def windowCount (l : Limits) (key : IpAddr) (start ms : ℕ) (sys : System) (ops : List Op) : ℕ :=
  (tokens l key sys ops).countP (inWindow start ms)

theorem windowCount_none (hop : op.admitTime key = none) (sys : System) (ops : List Op) :
    windowCount l key start ms sys (op :: ops) =
      windowCount l key start ms (sys.step l op) ops := by
  simp [windowCount, tokens, hop]

theorem windowCount_some (hop : op.admitTime key = some now) (sys : System) (ops : List Op) :
    windowCount l key start ms sys (op :: ops) =
      (if takesToken l key sys op ∧ inWindow start ms now then 1 else 0) +
        windowCount l key start ms (sys.step l op) ops := by
  unfold windowCount
  rw [tokens, List.countP_append, hop]
  by_cases ht : takesToken l key sys op = true
  · by_cases hw : inWindow start ms now = true <;> simp [ht, hw]
  · simp [ht]

/-- Past the end of the window nothing counts. -/
theorem windowCount_late (hcur : start + ms * nanosPerMilli < cur)
    (hops : InOrder l key cur sys ops) : windowCount l key start ms sys ops = 0 := by
  induction ops generalizing cur sys with
  | nil => rfl
  | cons op ops ih =>
    cases hop : op.admitTime key with
    | none => rw [windowCount_none hop, ih hcur (hops.other hop)]
    | some now =>
      obtain ⟨hle, htail⟩ := hops.admit hop
      have hout : inWindow start ms now = false := by
        simp only [inWindow, decide_eq_false_iff_not]
        omega
      rw [windowCount_some hop, ih (by omega) htail]
      simp [hout]

theorem count_le_taken (l : Limits) (key : IpAddr) (start ms now : ℕ) (sys : System) (op : Op) :
    (if takesToken l key sys op ∧ inWindow start ms now then 1 else 0) ≤
      if takesToken l key sys op then 1 else 0 := by
  by_cases ht : takesToken l key sys op = true <;> simp [ht]
  split <;> omega

/-- From a sound state the tokens taken in the window come out of the potential. -/
theorem windowCount_le_potential (G : Gain l) (hl : l.Admitted) (start ms : ℕ)
    (hstart : start ≤ cur) (hcur : cur ≤ start + ms * nanosPerMilli)
    (hsound : Sound l cur (sys.state.bucketOf key)) (hops : InOrder l key cur sys ops) :
    windowCount l key start ms sys ops ≤
      G.potential (start + ms * nanosPerMilli) cur (sys.state.bucketOf key) := by
  induction ops generalizing cur sys with
  | nil => exact Nat.zero_le _
  | cons op ops ih =>
    rcases step_bucketOf l key sys op with ⟨now, hop, harrived⟩ | ⟨hop, hsame | ⟨c, hc, hpruned⟩⟩
    · obtain ⟨hle, htail⟩ := hops.admit hop
      by_cases hlate : start + ms * nanosPerMilli < now
      · have hout : inWindow start ms now = false := by
          simp only [inWindow, decide_eq_false_iff_not]
          omega
        rw [windowCount_some hop, windowCount_late hlate htail]
        simp [hout]
      · -- The call is inside the window: it pays for its token.
        have hend : start + ms * nanosPerMilli ≤ now + ms * nanosPerMilli := by omega
        obtain ⟨hsound', hpaid, -⟩ :=
          G.potential_arrived hl (hsound.mono hle) (not_lt.1 hlate) hend harrived
        have hrest := ih (by omega) (by omega) hsound' htail
        have hanti := G.potential_anti (start + ms * nanosPerMilli) (sys.state.bucketOf key) hle
        have htoken := count_le_taken l key start ms now sys op
        rw [windowCount_some hop]
        omega
    · rw [windowCount_none hop, ← hsame]
      exact ih hstart hcur (hsame ▸ hsound) (hops.other hop)
    · have htail := hops.prune hop hc
      rw [windowCount_none hop]
      by_cases hlate : start + ms * nanosPerMilli < c
      · rw [windowCount_late (lt_of_lt_of_le hlate (le_max_right cur c)) htail]
        exact Nat.zero_le _
      · have hsound' := hsound.mono (le_max_left cur c)
        have hrest := ih (hstart.trans (le_max_left cur c)) (max_le hcur (not_lt.1 hlate))
          (hsound'.pruned hl (le_max_right cur c) hpruned) htail
        have hanti := G.potential_anti (start + ms * nanosPerMilli) (sys.state.bucketOf key)
          (le_max_left cur c)
        exact (hrest.trans (G.potential_pruned hl hsound' (le_max_right cur c) (not_lt.1 hlate)
          hpruned)).trans hanti

/-- Until the first call inside the window that looks at the entry nothing is
counted; from it on the potential is within the bound. -/
theorem windowCount_le (G : Gain l) (hl : l.Admitted) (cur : ℕ)
    (hsound : Sound l cur (sys.state.bucketOf key)) (hops : InOrder l key cur sys ops) :
    windowCount l key start ms sys ops ≤
      l.acceptBurst + (l.acceptRate * ms + 999) / 1000 := by
  induction ops generalizing cur sys with
  | nil => exact Nat.zero_le _
  | cons op ops ih =>
    rcases step_bucketOf l key sys op with ⟨now, hop, harrived⟩ | ⟨hop, hsame | ⟨c, hc, hpruned⟩⟩
    · obtain ⟨hle, htail⟩ := hops.admit hop
      rw [windowCount_some hop]
      by_cases hearly : now < start
      · have hout : inWindow start ms now = false := by
          simp only [inWindow, decide_eq_false_iff_not]
          omega
        obtain ⟨hsound', -⟩ := G.potential_arrived hl (hsound.mono hle) le_rfl
          (Nat.le_add_right now (0 * nanosPerMilli)) harrived
        simpa [hout] using ih now hsound' htail
      by_cases hlate : start + ms * nanosPerMilli < now
      · have hout : inWindow start ms now = false := by
          simp only [inWindow, decide_eq_false_iff_not]
          omega
        rw [windowCount_late hlate htail]
        simp [hout]
      have hend : start + ms * nanosPerMilli ≤ now + ms * nanosPerMilli := by omega
      obtain ⟨hsound', -, hlooked⟩ :=
        G.potential_arrived hl (hsound.mono hle) (not_lt.1 hlate) hend harrived
      rcases hlooked with ⟨hsame, hzero⟩ | hbound
      · have ht : takesToken l key sys op = false := by
          by_contra hne
          simp [hne] at hzero
        simpa [ht] using ih now hsound' htail
      · have hrest := windowCount_le_potential G hl start ms (not_lt.1 hearly) (not_lt.1 hlate)
          hsound' htail
        have htoken := count_le_taken l key start ms now sys op
        omega
    · rw [windowCount_none hop]
      exact ih cur (hsame ▸ hsound) (hops.other hop)
    · rw [windowCount_none hop]
      exact ih _ ((hsound.mono (le_max_left cur c)).pruned hl (le_max_right cur c) hpruned)
        (hops.prune hop hc)

end Window

theorem Gain.rateBoundInOrder {l : Limits} (G : Gain l) (hl : l.Admitted) : RateBoundInOrder l := by
  intro key ops hadmits hprunes start ms
  refine windowCount_le G hl 0 ?_ ⟨hadmits, hprunes, fun _ _ => Nat.zero_le _⟩
  intro b hb
  simp [System.start, State.empty, State.bucketOf] at hb

/-! ### When the rounding is harmless -/

/-- Tokens always stand for a whole number of milliseconds. -/
def Limits.Exact (l : Limits) : Prop :=
  ∀ ms, l.acceptRate ∣ l.acceptRate * ms / 1000 * 1000

theorem Limits.exact_of_dvd {l : Limits} (h : l.acceptRate ∣ 1000) : l.Exact :=
  fun _ => Dvd.dvd.mul_left h _

theorem Limits.exact_of_thousand_dvd {l : Limits} (h : 1000 ∣ l.acceptRate) : l.Exact := by
  obtain ⟨k, hk⟩ := h
  intro ms
  have hdiv : l.acceptRate * ms / 1000 = k * ms := by
    rw [hk, Nat.mul_assoc, Nat.mul_div_cancel_left _ (by decide)]
  exact ⟨ms, by rw [hdiv, hk]; ring⟩

/-- Two roundings lose at least what one does. -/
theorem mul_div_add_le (rate a b c : ℕ) (h : a + b ≤ c) :
    rate * a / 1000 + rate * b / 1000 ≤ rate * c / 1000 := by
  have hmul : rate * a + rate * b ≤ rate * c := by
    rw [← Nat.mul_add]
    exact Nat.mul_le_mul_left rate h
  omega

/-- With exact refills a bucket gains the whole tokens of the time left. -/
def Limits.Exact.gain {l : Limits} (hl : l.Admitted) (hexact : l.Exact) : Gain l where
  gain := fun at_ deadline => l.acceptRate * millisSince deadline at_ / 1000
  anti := fun deadline h =>
    Nat.div_le_div_right (Nat.mul_le_mul_left _ (millisSince_anti h))
  refill_le := by
    intro b now deadline hb hat hnow
    have hsum := millisSince_add_le hat hnow
    rcases Bucket.refill_cases hl now hb with ⟨-, h⟩ | ⟨-, hfull, h⟩ | ⟨-, -, h⟩ <;> rw [h]
    · have := mul_div_add_le l.acceptRate _ _ _ hsum
      dsimp only
      omega
    · -- The clock advances by exactly the time that the added tokens stand for.
      obtain ⟨adv, hadv⟩ := hexact (millisSince now b.refilledAt)
      have hquot : l.acceptRate * millisSince now b.refilledAt / 1000 * 1000 / l.acceptRate =
          adv := by
        rw [hadv, Nat.mul_div_cancel_left _ hl.acceptRate.1]
      have hmono : l.acceptRate * millisSince now b.refilledAt ≤
          l.acceptRate * millisSince deadline b.refilledAt :=
        Nat.mul_le_mul_left _ (by omega)
      dsimp only
      rw [hquot, millisSince_advance, Nat.mul_sub, ← hadv]
      omega
  settled_le := by
    intro b now deadline ms hb hat hend
    have hms : l.acceptRate * millisSince deadline b.refilledAt ≤
        l.acceptRate * millisSince now b.refilledAt + l.acceptRate * ms := by
      rw [← Nat.mul_add]
      exact Nat.mul_le_mul_left _ (millisSince_le_add _ hend)
    rcases Bucket.refill_cases hl now hb with ⟨hsmall, h⟩ | ⟨-, -, h⟩ | ⟨-, -, h⟩ <;> rw [h]
    · omega
    · have hle := millisSince_le_add now hend
      rw [millisSince_self, Nat.zero_add] at hle
      have := Nat.mul_le_mul_left l.acceptRate hle
      dsimp only
      omega
    · obtain ⟨adv, hadv⟩ := hexact (millisSince now b.refilledAt)
      have hquot : l.acceptRate * millisSince now b.refilledAt / 1000 * 1000 / l.acceptRate =
          adv := by
        rw [hadv, Nat.mul_div_cancel_left _ hl.acceptRate.1]
      dsimp only
      rw [hquot, millisSince_advance, Nat.mul_sub, ← hadv]
      omega

/-- Every refill that adds anything fills the bucket. -/
def Limits.Coarse (l : Limits) : Prop := l.acceptBurst ≤ max 1 (l.acceptRate / 1000)

/-- The fewest whole milliseconds that are worth a token. -/
def Limits.tokenMillis (l : Limits) : ℕ := 999 / l.acceptRate + 1

theorem Limits.tokenMillis_le_iff {l : Limits} (hl : l.Admitted) (ms : ℕ) :
    l.tokenMillis ≤ ms ↔ 1000 ≤ l.acceptRate * ms := by
  have hrate := hl.acceptRate.1
  unfold tokenMillis
  rw [Nat.succ_le_iff, Nat.div_lt_iff_lt_mul hrate, Nat.mul_comm]
  omega

/-- Full buckets at most every `tokenMillis` milliseconds are within the bound. -/
theorem Limits.Coarse.mul_le {l : Limits} (hl : l.Admitted) (hcoarse : l.Coarse) (ms : ℕ) :
    l.acceptBurst * ((ms + (l.tokenMillis - 1)) / l.tokenMillis) ≤
      (l.acceptRate * ms + 999) / 1000 := by
  have hrate := hl.acceptRate.1
  unfold Coarse at hcoarse
  by_cases hlarge : 1000 ≤ l.acceptRate
  · have hone : l.tokenMillis = 1 := by
      unfold tokenMillis
      rw [Nat.div_eq_of_lt (by omega)]
    have hburst : l.acceptBurst * ms ≤ l.acceptRate / 1000 * ms :=
      Nat.mul_le_mul_right ms (by omega)
    have hmul : l.acceptRate / 1000 * ms * 1000 ≤ l.acceptRate * ms := by
      rw [Nat.mul_right_comm]
      exact Nat.mul_le_mul_right ms (Nat.div_mul_le_self _ _)
    rw [hone]
    simp only [Nat.sub_self, Nat.add_zero, Nat.div_one]
    omega
  · have hburst : l.acceptBurst ≤ 1 := by
      rw [Nat.div_eq_of_lt (by omega)] at hcoarse
      simpa using hcoarse
    set k := (ms + (l.tokenMillis - 1)) / l.tokenMillis with hk
    have hpos : 0 < l.tokenMillis := Nat.succ_pos _
    have hkc : k * l.tokenMillis ≤ ms + (l.tokenMillis - 1) := Nat.div_mul_le_self _ _
    have htoken : 1000 ≤ l.acceptRate * l.tokenMillis := (tokenMillis_le_iff hl _).1 le_rfl
    have hle : l.acceptBurst * k ≤ k := by
      simpa using Nat.mul_le_mul_right k hburst
    refine hle.trans ?_
    cases hkk : k with
    | zero => exact Nat.zero_le _
    | succ j =>
      rw [hkk, Nat.succ_mul] at hkc
      have hj : j * l.tokenMillis + 1 ≤ ms := by omega
      have hscale : l.acceptRate * (j * l.tokenMillis + 1) ≤ l.acceptRate * ms :=
        Nat.mul_le_mul_left _ hj
      have hthousand : j * 1000 ≤ j * (l.acceptRate * l.tokenMillis) :=
        Nat.mul_le_mul_left j htoken
      have hassoc : l.acceptRate * (j * l.tokenMillis + 1) =
          j * (l.acceptRate * l.tokenMillis) + l.acceptRate := by ring
      omega

theorem Limits.Coarse.refill_cases {l : Limits} (hl : l.Admitted) (hcoarse : l.Coarse)
    {b : Bucket} (now : ℕ) (hb : b.level ≤ l.acceptBurst) :
    (millisSince now b.refilledAt < l.tokenMillis ∧ b.refill l now = b) ∨
    (l.tokenMillis ≤ millisSince now b.refilledAt ∧
      b.refill l now = ⟨l.acceptBurst, now⟩) := by
  have htoken := tokenMillis_le_iff hl (millisSince now b.refilledAt)
  rcases Bucket.refill_cases hl now hb with ⟨hsmall, h⟩ | ⟨hlarge, -, h⟩ | ⟨hlarge, hlt, -⟩
  · exact Or.inl ⟨by omega, h⟩
  · exact Or.inr ⟨htoken.2 hlarge, h⟩
  · -- A refill that adds anything adds the burst.
    exfalso
    have hms : 1 ≤ millisSince now b.refilledAt := by
      by_contra hzero
      rw [show millisSince now b.refilledAt = 0 by omega] at hlarge
      omega
    have hmul := Nat.mul_le_mul_left l.acceptRate hms
    unfold Coarse at hcoarse
    omega

/-- With coarse refills a bucket is filled at most once every `tokenMillis`. -/
def Limits.Coarse.gain {l : Limits} (hl : l.Admitted) (hcoarse : l.Coarse) : Gain l where
  gain := fun at_ deadline => l.acceptBurst * (millisSince deadline at_ / l.tokenMillis)
  anti := fun deadline h =>
    Nat.mul_le_mul_left _ (Nat.div_le_div_right (millisSince_anti h))
  refill_le := by
    intro b now deadline hb hat hnow
    have hpos : 0 < l.tokenMillis := Nat.succ_pos _
    rcases hcoarse.refill_cases hl now hb with ⟨-, h⟩ | ⟨htoken, h⟩ <;> rw [h]
    · have hsum := millisSince_add_le hat hnow
      have hdiv : 1 + millisSince deadline now / l.tokenMillis ≤
          millisSince deadline b.refilledAt / l.tokenMillis := by
        rw [Nat.le_div_iff_mul_le hpos, Nat.add_mul, Nat.one_mul]
        have := Nat.div_mul_le_self (millisSince deadline now) l.tokenMillis
        omega
      have hmul := Nat.mul_le_mul_left l.acceptBurst hdiv
      rw [Nat.mul_add, Nat.mul_one] at hmul
      dsimp only
      omega
  settled_le := by
    intro b now deadline ms hb hat hend
    have hbound := hcoarse.mul_le hl ms
    have hpos : 0 < l.tokenMillis := Nat.succ_pos _
    refine le_trans (Nat.mul_le_mul_left _ (Nat.div_le_div_right ?_)) hbound
    rcases hcoarse.refill_cases hl now hb with ⟨hsmall, h⟩ | ⟨-, h⟩ <;> rw [h]
    · have := millisSince_le_add b.refilledAt hend
      omega
    · have hle := millisSince_le_add now hend
      rw [millisSince_self] at hle
      dsimp only
      omega

/-- The limits for which the rounding of the refill is harmless. -/
def Limits.RoundsSafely (l : Limits) : Prop :=
  l.acceptRate ∣ 1000 ∨ 1000 ∣ l.acceptRate ∨ l.acceptBurst ≤ max 1 (l.acceptRate / 1000)

theorem Limits.RoundsSafely.rateBoundInOrder {l : Limits} (hl : l.Admitted) (h : l.RoundsSafely) :
    RateBoundInOrder l := by
  rcases h with h | h | h
  · exact ((exact_of_dvd h).gain hl).rateBoundInOrder hl
  · exact ((exact_of_thousand_dvd h).gain hl).rateBoundInOrder hl
  · exact (Coarse.gain hl h).rateBoundInOrder hl

end QuantumSsh.Admission
