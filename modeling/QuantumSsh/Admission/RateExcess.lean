import QuantumSsh.Admission.Rate

/-!
# When the rate bound breaks

Outside `Limits.RoundsSafely` one source can beat the bound. Below 1000 tokens
per second every refill of one token forgets a fraction of a millisecond; above,
a refill of one millisecond's tokens may not advance the clock of the bucket at
all, and the same millisecond is paid out again and again. Under any limits a guard
drop beats it that reads a later clock than the next call: the accept loop reads its
clock before it waits for the lock, a drop reads it inside.
-/

namespace QuantumSsh.Admission

open Machine

/-- The source of the runs below. -/
def visitor : IpAddr := .v4 203 0 113 1

/-! ### Runs that read one clock -/

/-- The instant at which an operation reads the clock, if it does. -/
def Op.time : Op → Option ℕ
  | .arrive _ now => some now
  | .authenticate _ => none
  | .drop _ now => some now

/-- All operations read the clock at non-decreasing times. -/
def Chronological (ops : List Op) : Prop :=
  (ops.filterMap Op.time).Pairwise (· ≤ ·)

instance (ops : List Op) : Decidable (Chronological ops) :=
  inferInstanceAs (Decidable (List.Pairwise _ _))

theorem Op.time_of_admitTime {key : IpAddr} {op : Op} {now : ℕ}
    (h : op.admitTime key = some now) : op.time = some now := by
  cases op with
  | arrive ip t =>
    simp only [Op.admitTime, Option.ite_none_right_eq_some] at h
    exact h.2
  | authenticate i | drop i t => cases h

theorem Op.time_of_pruneTime {key : IpAddr} {sys : System} {op : Op} {c : ℕ}
    (h : pruneTime key sys op = some c) : op.time = some c := by
  cases op with
  | arrive ip t =>
    simp only [pruneTime, Option.ite_none_left_eq_some] at h
    exact h.2
  | authenticate i => cases h
  | drop i t =>
    simp only [pruneTime, Option.ite_none_right_eq_some] at h
    exact h.2

theorem Chronological.admitsInOrder {ops : List Op} (h : Chronological ops) (key : IpAddr) :
    AdmitsInOrder key ops := by
  rw [Chronological, List.pairwise_filterMap] at h
  rw [AdmitsInOrder, List.pairwise_filterMap]
  exact h.imp fun hle now hnow now' hnow' =>
    hle now (Op.time_of_admitTime hnow) now' (Op.time_of_admitTime hnow')

theorem Chronological.prunesInOrder {ops : List Op} (h : Chronological ops) (l : Limits)
    (key : IpAddr) (sys : System) : PrunesInOrder l key sys ops := by
  induction ops generalizing sys with
  | nil => trivial
  | cons op ops ih =>
    have h' := h
    rw [Chronological, List.pairwise_filterMap, List.pairwise_cons] at h'
    refine ⟨fun c hc now hnow => ?_, ih (List.pairwise_filterMap.2 h'.2) _⟩
    obtain ⟨op', hmem, hop'⟩ := List.mem_filterMap.1 hnow
    exact h'.1 op' hmem c (Op.time_of_pruneTime hc) now (Op.time_of_admitTime hop')

/-! ### Visits -/

/-- No connection is alive and only the visitor has an entry. -/
structure Quiet (sys : System) (o : Option Bucket) (count : ℕ) : Prop where
  guards : sys.guards = []
  connections : sys.state.connections = 0
  halfOpen : sys.state.halfOpen = 0
  entry : sys.state.sources visitor = o.map (SourceState.mk 0)
  count : sys.state.admissionsSinceSweep = count

/-- The visitor connects, and the drop of its guard reads the clock `gone`. -/
def stay (now gone : ℕ) : List Op := [.arrive visitor now, .drop 0 gone]

/-- The visitor connects and is gone at the same instant. -/
def visit (now : ℕ) : List Op := stay now now

theorem swept_eq (l : Limits) (now : ℕ) (o : Option Bucket) :
    ((o.map (SourceState.mk 0)).bind (retained l now)) =
      (swept l now o).map (SourceState.mk 0) := by
  cases o with
  | none => rfl
  | some b =>
    by_cases hfull : (b.refill l now).level = l.acceptBurst <;>
      simp [swept, retained, Bucket.isFull, hfull]

theorem pruned_eq (l : Limits) (now : ℕ) (b : Bucket) :
    pruned l now ⟨0, b⟩ = (swept l now (some b)).map (SourceState.mk 0) := by
  by_cases hfull : (b.refill l now).level = l.acceptBurst <;>
    simp [swept, pruned, Bucket.isFull, hfull]

/-- The bucket that the next visit is charged to: at every `sweepInterval`-th
call the sweep looks at it first. -/
def charged (l : Limits) (now : ℕ) (o : Option Bucket) (count : ℕ) : Bucket :=
  (if sweepInterval ≤ count + 1 then swept l now o else o).getD (Bucket.full l now)

/-- The sweep counter after one more call. -/
def nextCount (count : ℕ) : ℕ := if sweepInterval ≤ count + 1 then 0 else count + 1

section Visits

variable {l : Limits} {sys : System} {o : Option Bucket} {count now : ℕ}

theorem Quiet.after_sweep (h : Quiet sys o count) (l : Limits) (now : ℕ) :
    Quiet ⟨sweep l now sys.state, []⟩ (if sweepInterval ≤ count + 1 then swept l now o else o)
      (nextCount count) := by
  unfold sweep nextCount
  rw [h.count]
  by_cases hsweep : sweepInterval ≤ count + 1
  · simp only [hsweep, if_true]
    exact ⟨rfl, h.connections, h.halfOpen, by simp only [h.entry]; exact swept_eq l now o, rfl⟩
  · simp only [hsweep, if_false]
    exact ⟨rfl, h.connections, h.halfOpen, h.entry, rfl⟩

/-- With nobody connected the caps do not refuse: the visit is charged. -/
theorem Quiet.tryAdmit_eq (h : Quiet sys o count) (hl : l.Admitted) (now : ℕ) :
    tryAdmit l visitor now sys.state = charge l visitor now (sweep l now sys.state) := by
  obtain ⟨hconn, -⟩ := hl.maxConnections
  obtain ⟨hhalf, -⟩ := hl.maxHalfOpen
  obtain ⟨hsource, -⟩ := hl.maxPerSource
  have hkey : sourceKey visitor = visitor := by decide
  have hfree : ¬(sys.state.sources visitor).any
      (fun s => decide (l.maxPerSource ≤ s.halfOpen)) = true := by
    rw [h.entry]
    cases o with
    | none => simp
    | some b =>
      simp only [Option.map_some, Option.any_some, decide_eq_true_eq]
      omega
  unfold tryAdmit
  rw [hkey, h.connections, h.halfOpen, if_neg (by omega), if_neg (by omega), if_neg hfree]

/-- The rate check on the bucket the visit is charged to. -/
theorem Quiet.charge_eq (h : Quiet sys o count) (l : Limits) (now : ℕ) :
    (((charged l now o count).refill l now).level ≠ 0 →
      charge l visitor now (sweep l now sys.state) =
        (.ok ⟨visitor, false⟩, { sweep l now sys.state with
          connections := 1
          halfOpen := 1
          sources := Function.update (sweep l now sys.state).sources visitor
            (some ⟨1, takenFrom l now (charged l now o count)⟩) })) ∧
    (((charged l now o count).refill l now).level = 0 →
      charge l visitor now (sweep l now sys.state) =
        (.error .acceptRate, { sweep l now sys.state with
          sources := Function.update (sweep l now sys.state).sources visitor
            (some ⟨0, (charged l now o count).refill l now⟩) })) := by
  have hs := h.after_sweep l now
  have hentry : ((sweep l now sys.state).sources visitor).getD ⟨0, Bucket.full l now⟩ =
      ⟨0, charged l now o count⟩ := by
    have hv := hs.entry
    dsimp only at hv
    rw [hv]
    unfold charged
    cases (if sweepInterval ≤ count + 1 then swept l now o else o) <;> rfl
  have hconn : (sweep l now sys.state).connections = 0 := hs.connections
  have hhalf : (sweep l now sys.state).halfOpen = 0 := hs.halfOpen
  -- Only the counts and the visitor's entry matter, not how the sweep made them.
  generalize sweep l now sys.state = st at hentry hconn hhalf ⊢
  constructor
  · intro hpos
    simp [charge, Bucket.tryTake, hentry, hpos, hconn, hhalf, takenFrom]
  · intro hzero
    simp [charge, Bucket.tryTake, hentry, hzero]

/-- A visit that finds a token takes it; its drop may prune the entry. -/
theorem Quiet.after_stay (h : Quiet sys o count) (hl : l.Admitted)
    (hpos : ((charged l now o count).refill l now).level ≠ 0) (gone : ℕ) :
    tokens l visitor sys (stay now gone) = [now] ∧
      Quiet (sys.run l (stay now gone))
        (swept l gone (some (takenFrom l now (charged l now o count)))) (nextCount count) := by
  have hrun := h.tryAdmit_eq hl now
  rw [(h.charge_eq l now).1 hpos] at hrun
  have hkey : sourceKey visitor = visitor := by decide
  constructor
  · simp [stay, tokens, takesToken, hrun, hkey, Except.isOk, Except.toBool, Op.admitTime]
  · have hc := (h.after_sweep l now).count
    have hprune := pruned_eq l gone (takenFrom l now (charged l now o count))
    simp only [stay, System.run_cons, System.run_nil, System.step, hrun, h.guards,
      List.getElem?_cons_zero, List.eraseIdx_cons_zero, dropGuard]
    refine ⟨rfl, rfl, rfl, ?_, hc⟩
    simpa [SourceState.release] using hprune

/-- A call that finds no token is refused and leaves the bucket refilled. -/
theorem Quiet.after_refusal (h : Quiet sys o count) (hl : l.Admitted)
    (hzero : ((charged l now o count).refill l now).level = 0) :
    tokens l visitor sys [.arrive visitor now] = [] ∧
      Quiet (sys.run l [.arrive visitor now]) (some ((charged l now o count).refill l now))
        (nextCount count) := by
  have hrun := h.tryAdmit_eq hl now
  rw [(h.charge_eq l now).2 hzero] at hrun
  have hs := h.after_sweep l now
  constructor
  · simp [tokens, takesToken, hrun, Except.isOk, Except.toBool]
  · simp only [System.run_cons, System.run_nil, System.step, hrun, h.guards]
    exact ⟨rfl, hs.connections, hs.halfOpen, by simp, hs.count⟩

end Visits

/-! ### Runs of visits -/

theorem tokens_append (l : Limits) (key : IpAddr) (sys : System) (ops ops' : List Op) :
    tokens l key sys (ops ++ ops') =
      tokens l key sys ops ++ tokens l key (sys.run l ops) ops' := by
  induction ops generalizing sys with
  | nil => rfl
  | cons op ops ih => simp [tokens, ih, List.append_assoc]

/-- Some chronological run up to the instant `now` takes the visitor's tokens
at `times` and leaves nobody connected. -/
def Reached (l : Limits) (now : ℕ) (times : List ℕ) (o : Option Bucket) (count : ℕ) : Prop :=
  ∃ ops, Chronological ops ∧ (∀ t ∈ ops.filterMap Op.time, t ≤ now) ∧
    tokens l visitor System.start ops = times ∧ Quiet (System.start.run l ops) o count

section Reached

variable {l : Limits} {now later count : ℕ} {times : List ℕ} {o : Option Bucket}

theorem reached_start (l : Limits) : Reached l 0 [] none 0 :=
  ⟨[], List.Pairwise.nil, fun _ h => absurd h List.not_mem_nil, rfl,
    ⟨rfl, rfl, rfl, rfl, rfl⟩⟩

theorem Reached.extend {times' : List ℕ} {o' : Option Bucket} {count' : ℕ}
    (h : Reached l now times o count) (ops' : List Op) (hle : now ≤ later)
    (htime : ∀ t ∈ ops'.filterMap Op.time, t = later)
    (hnext : ∀ sys, Quiet sys o count →
      tokens l visitor sys ops' = times' ∧ Quiet (sys.run l ops') o' count') :
    Reached l later (times ++ times') o' count' := by
  obtain ⟨ops, hchron, hpast, htokens, hquiet⟩ := h
  obtain ⟨htokens', hquiet'⟩ := hnext _ hquiet
  refine ⟨ops ++ ops', ?_, ?_, ?_, ?_⟩
  · rw [Chronological, List.filterMap_append, List.pairwise_append]
    refine ⟨hchron, ?_, fun a ha b hb => ?_⟩
    · refine List.pairwise_of_forall_mem_list fun a ha b hb => ?_
      exact ((htime a ha).trans (htime b hb).symm).le
    · have := hpast a ha
      have := htime b hb
      omega
  · intro t ht
    rw [List.filterMap_append, List.mem_append] at ht
    rcases ht with ht | ht
    · exact (hpast t ht).trans hle
    · exact (htime t ht).le
  · rw [tokens_append, htokens, htokens']
  · rwa [System.run_append]

/-- One more visit. -/
theorem Reached.visit (h : Reached l now times o count) (hl : l.Admitted) (hle : now ≤ later)
    (hpos : ((charged l later o count).refill l later).level ≠ 0) :
    Reached l later (times ++ [later])
      (swept l later (some (takenFrom l later (charged l later o count)))) (nextCount count) :=
  h.extend (Admission.visit later) hle (by simp [Admission.visit, stay, Op.time])
    fun _ hq => hq.after_stay hl hpos later

/-- One refused call. -/
theorem Reached.refusal (h : Reached l now times o count) (hl : l.Admitted) (hle : now ≤ later)
    (hzero : ((charged l later o count).refill l later).level = 0) :
    Reached l later times (some ((charged l later o count).refill l later)) (nextCount count) := by
  have hnext := h.extend [.arrive visitor later] hle (by simp [Op.time])
    fun _ hq => hq.after_refusal hl hzero
  simpa using hnext

/-- A bucket that a refill neither changes nor fills is charged as it is. -/
theorem charged_of_stable {b : Bucket} (count : ℕ) (hstable : b.refill l later = b)
    (hlevel : b.level ≠ l.acceptBurst) : charged l later (some b) count = b := by
  unfold charged swept
  split <;> simp [hstable, hlevel]

/-- The first `n` visits at instant zero drain the bucket. -/
theorem reached_drained (hl : l.Admitted) (n : ℕ) (hn : n < l.acceptBurst) :
    ∃ count, Reached l 0 (List.replicate (n + 1) 0) (some ⟨l.acceptBurst - (n + 1), 0⟩) count := by
  induction n with
  | zero =>
    have hb := hl.acceptBurst.1
    have hch : charged l 0 none 0 = Bucket.full l 0 := by simp [charged, sweepInterval]
    have hfull : (Bucket.full l 0).refill l 0 = Bucket.full l 0 :=
      Bucket.refill_self l (Bucket.full l 0)
    have hnext := (reached_start l).visit hl le_rfl (by rw [hch, hfull]; simp [Bucket.full]; omega)
    have htaken : takenFrom l 0 (charged l 0 none 0) = ⟨l.acceptBurst - 1, 0⟩ := by
      rw [hch, takenFrom, hfull]
      rfl
    have hstable : Bucket.refill l 0 ⟨l.acceptBurst - 1, 0⟩ = ⟨l.acceptBurst - 1, 0⟩ :=
      Bucket.refill_self l ⟨l.acceptBurst - 1, 0⟩
    rw [htaken, swept, Option.bind_some, hstable, if_neg (by simp; omega)] at hnext
    exact ⟨_, by simpa using hnext⟩
  | succ n ih =>
    obtain ⟨count, h⟩ := ih (by omega)
    have hself : ∀ level, Bucket.refill l 0 ⟨level, 0⟩ = ⟨level, 0⟩ :=
      fun level => Bucket.refill_self l ⟨level, 0⟩
    have hch := charged_of_stable count (hself (l.acceptBurst - (n + 1)))
      (by simp; omega)
    have hnext := h.visit hl le_rfl (by rw [hch, hself]; simp; omega)
    have htaken : takenFrom l 0 ⟨l.acceptBurst - (n + 1), 0⟩ = ⟨l.acceptBurst - (n + 2), 0⟩ := by
      rw [takenFrom, hself]
      congr 1
    rw [hch, htaken, swept, Option.bind_some, hself, if_neg (by simp; omega)] at hnext
    exact ⟨_, by simpa [List.replicate_succ'] using hnext⟩

/-- A reached run whose tokens all lie in the first `ms` milliseconds beats the
bound when they are too many. -/
theorem Reached.not_rateBoundInOrder (h : Reached l now times o count) (ms : ℕ)
    (htimes : ∀ t ∈ times, t ≤ ms * nanosPerMilli)
    (hmany : l.acceptBurst + (l.acceptRate * ms + 999) / 1000 < times.length) :
    ¬RateBoundInOrder l := by
  obtain ⟨ops, hchron, -, htokens, -⟩ := h
  intro hbound
  have hle := hbound visitor ops (hchron.admitsInOrder visitor)
    (hchron.prunesInOrder l visitor System.start) 0 ms
  rw [htokens, List.countP_eq_length.2] at hle
  · omega
  · intro t ht
    have := htimes t ht
    simp only [inWindow, decide_eq_true_eq]
    omega

end Reached

/-! ### Below 1000 tokens per second -/

section Slow

variable {l : Limits}

/-- A refill before a token's worth of time has passed does nothing. -/
theorem refill_of_lt (hl : l.Admitted) {b : Bucket} {now : ℕ} (hb : b.level ≤ l.acceptBurst)
    (hsmall : l.acceptRate * millisSince now b.refilledAt < 1000) : b.refill l now = b := by
  rcases Bucket.refill_cases hl now hb with ⟨-, h⟩ | ⟨hlarge, -⟩ | ⟨hlarge, -⟩
  · exact h
  · omega
  · omega

theorem millisSince_mul (a b : ℕ) :
    millisSince ((a + b) * nanosPerMilli) (a * nanosPerMilli) = b := by
  unfold millisSince nanosPerMilli
  omega

/-- The visit that comes as soon as one token is due. -/
theorem slow_visit (hl : l.Admitted) (hrate : l.acceptRate < 1000) (hdvd : ¬l.acceptRate ∣ 1000)
    (hburst : 2 ≤ l.acceptBurst) {k now count : ℕ} {times : List ℕ}
    (hnow : now ≤ (1000 / l.acceptRate * k + (1000 / l.acceptRate + 1)) * nanosPerMilli)
    (h : Reached l now times (some ⟨0, 1000 / l.acceptRate * k * nanosPerMilli⟩) count) :
    ∃ count',
      Reached l ((1000 / l.acceptRate * k + (1000 / l.acceptRate + 1)) * nanosPerMilli)
        (times ++ [(1000 / l.acceptRate * k + (1000 / l.acceptRate + 1)) * nanosPerMilli])
        (some ⟨0, 1000 / l.acceptRate * (k + 1) * nanosPerMilli⟩) count' := by
  have hpos := hl.acceptRate.1
  set f := 1000 / l.acceptRate with hf
  set t := (f * k + (f + 1)) * nanosPerMilli with ht
  have hmod : l.acceptRate * f + 1000 % l.acceptRate = 1000 := Nat.div_add_mod 1000 l.acceptRate
  have hmodpos : 1000 % l.acceptRate ≠ 0 := fun h0 => hdvd (Nat.dvd_of_mod_eq_zero h0)
  have hmodlt : 1000 % l.acceptRate < l.acceptRate := Nat.mod_lt _ hpos
  have hmul : l.acceptRate * (f + 1) = l.acceptRate * f + l.acceptRate := Nat.mul_succ _ _
  have hnext : f * (k + 1) = f * k + f := Nat.mul_succ _ _
  -- One token is due, and its time is rounded down to `f` milliseconds.
  have hdue : Bucket.refill l t ⟨0, f * k * nanosPerMilli⟩ =
      ⟨1, f * (k + 1) * nanosPerMilli⟩ := by
    have hms : millisSince t (f * k * nanosPerMilli) = f + 1 := millisSince_mul _ _
    have hone : l.acceptRate * (f + 1) / 1000 = 1 := by omega
    rcases Bucket.refill_cases hl t (b := ⟨0, f * k * nanosPerMilli⟩) (Nat.zero_le _) with
      ⟨hsmall, -⟩ | ⟨-, hfull, -⟩ | ⟨-, -, h⟩
    · dsimp only at hsmall
      rw [hms] at hsmall
      omega
    · dsimp only at hfull
      rw [hms, hone] at hfull
      omega
    · rw [h]
      dsimp only
      rw [hms, hone, hnext, Nat.one_mul, ← hf, Nat.add_mul]
  have hstable : ∀ level, level ≤ l.acceptBurst →
      Bucket.refill l t ⟨level, f * (k + 1) * nanosPerMilli⟩ =
        ⟨level, f * (k + 1) * nanosPerMilli⟩ := by
    intro level hlevel
    refine refill_of_lt hl hlevel ?_
    have hms : millisSince t (f * (k + 1) * nanosPerMilli) = 1 := by
      rw [ht, hnext, ← Nat.add_assoc]
      exact millisSince_mul _ _
    dsimp only
    rw [hms]
    omega
  have hch : (charged l t (some ⟨0, f * k * nanosPerMilli⟩) count).refill l t =
      ⟨1, f * (k + 1) * nanosPerMilli⟩ := by
    unfold charged swept
    split
    · rw [Option.bind_some, hdue, if_neg (by simp; omega), Option.getD_some,
        hstable 1 (by omega)]
    · rw [Option.getD_some, hdue]
  have hvisit := h.visit hl hnow (by rw [hch]; simp)
  have htaken : takenFrom l t (charged l t (some ⟨0, f * k * nanosPerMilli⟩) count) =
      ⟨0, f * (k + 1) * nanosPerMilli⟩ := by
    rw [takenFrom, hch]
    rfl
  rw [htaken, swept, Option.bind_some, hstable 0 (Nat.zero_le _), if_neg (by simp; omega)] at hvisit
  exact ⟨_, hvisit⟩

/-- Every visit of the slow run gains a fraction of a millisecond. -/
theorem slow_run (hl : l.Admitted) (hrate : l.acceptRate < 1000) (hdvd : ¬l.acceptRate ∣ 1000)
    (hburst : 2 ≤ l.acceptBurst) (n : ℕ) :
    ∃ now count times, now ≤ (1000 / l.acceptRate * n + 1) * nanosPerMilli ∧
      times.length = l.acceptBurst + n ∧
      (∀ t ∈ times, t ≤ (1000 / l.acceptRate * n + 1) * nanosPerMilli) ∧
      Reached l now times (some ⟨0, 1000 / l.acceptRate * n * nanosPerMilli⟩) count := by
  induction n with
  | zero =>
    obtain ⟨count, h⟩ := reached_drained hl (l.acceptBurst - 1) (by omega)
    rw [show l.acceptBurst - 1 + 1 = l.acceptBurst by omega, Nat.sub_self] at h
    refine ⟨0, count, List.replicate l.acceptBurst 0, Nat.zero_le _, by simp, ?_, by simpa using h⟩
    intro t ht
    rw [List.eq_of_mem_replicate ht]
    exact Nat.zero_le _
  | succ n ih =>
    obtain ⟨now, count, times, hnow, hlen, htimes, h⟩ := ih
    have hstep : 1000 / l.acceptRate * n + (1000 / l.acceptRate + 1) =
        1000 / l.acceptRate * (n + 1) + 1 := by ring
    have hle : (1000 / l.acceptRate * n + 1) * nanosPerMilli ≤
        (1000 / l.acceptRate * (n + 1) + 1) * nanosPerMilli :=
      Nat.mul_le_mul_right _ (Nat.add_le_add_right (Nat.mul_le_mul_left _ (Nat.le_succ n)) 1)
    obtain ⟨count', h'⟩ := slow_visit hl hrate hdvd hburst (by rw [hstep]; omega) h
    rw [hstep] at h'
    refine ⟨_, count', _, le_rfl, by simp [hlen, Nat.add_assoc], ?_, h'⟩
    intro t ht
    rw [List.mem_append, List.mem_singleton] at ht
    rcases ht with ht | rfl
    · exact (htimes t ht).trans hle
    · exact le_rfl

theorem slow_not_rateBoundInOrder (hl : l.Admitted) (hrate : l.acceptRate < 1000)
    (hdvd : ¬l.acceptRate ∣ 1000) (hburst : 2 ≤ l.acceptBurst) : ¬RateBoundInOrder l := by
  obtain ⟨now, count, times, -, hlen, htimes, h⟩ :=
    slow_run hl hrate hdvd hburst (l.acceptRate + 1000)
  refine h.not_rateBoundInOrder _ htimes ?_
  have hpos := hl.acceptRate.1
  have hmod : l.acceptRate * (1000 / l.acceptRate) + 1000 % l.acceptRate = 1000 :=
    Nat.div_add_mod 1000 l.acceptRate
  have hmodpos : 1000 % l.acceptRate ≠ 0 := fun h0 => hdvd (Nat.dvd_of_mod_eq_zero h0)
  have hscaled : l.acceptRate * (1000 / l.acceptRate) * (l.acceptRate + 1000) ≤
      999 * (l.acceptRate + 1000) := Nat.mul_le_mul_right _ (by omega)
  have hexpand : l.acceptRate * (1000 / l.acceptRate * (l.acceptRate + 1000) + 1) =
      l.acceptRate * (1000 / l.acceptRate) * (l.acceptRate + 1000) + l.acceptRate := by ring
  rw [hlen]
  omega

end Slow

/-! ### Above 1000 tokens per second -/

section Fast

variable {l : Limits}

/-- One millisecond after instant zero. -/
def tick : ℕ := 1 * nanosPerMilli

/-- At `tick` the entry still yields `n` tokens: the millisecond was not
accounted for yet, or the level suffices. -/
def Yields (l : Limits) (n : ℕ) (o : Option Bucket) : Prop :=
  ∀ b, o = some b →
    b.level ≤ l.acceptBurst ∧ (b.refilledAt = 0 ∨ (b.refilledAt = tick ∧ n ≤ b.level))

/-- A refill at `tick` keeps a yielding bucket yielding, and leaves a token in
it when it has one to give. -/
theorem Yields.refill (hl : l.Admitted) (hrate : 1000 ≤ l.acceptRate)
    (hdvd : ¬1000 ∣ l.acceptRate) {n : ℕ} (hn : n ≤ l.acceptBurst) {b : Bucket}
    (h : Yields l n (some b)) :
    Yields l n (some (b.refill l tick)) ∧ (n ≠ 0 → (b.refill l tick).level ≠ 0) := by
  obtain ⟨hb, hat⟩ := h b rfl
  have hq : l.acceptRate / 1000 * 1000 < l.acceptRate := by
    have hne : l.acceptRate % 1000 ≠ 0 := fun h0 => hdvd (Nat.dvd_of_mod_eq_zero h0)
    omega
  rcases hat with hat | ⟨hat, hlevel⟩
  · -- The tokens of the millisecond are added; their time rounds down to nothing.
    have hms : millisSince tick b.refilledAt = 1 := by
      rw [hat]
      decide
    have hcases := Bucket.refill_cases hl tick hb
    rw [hms, Nat.mul_one, Nat.div_eq_of_lt hq, hat] at hcases
    rcases hcases with ⟨hsmall, -⟩ | ⟨-, -, h⟩ | ⟨-, hlt, h⟩
    · omega
    · rw [h]
      refine ⟨?_, fun _ => by dsimp only; omega⟩
      rintro _ ⟨rfl⟩
      exact ⟨le_rfl, Or.inr ⟨rfl, hn⟩⟩
    · rw [h]
      refine ⟨?_, fun _ => by dsimp only; omega⟩
      rintro _ ⟨rfl⟩
      exact ⟨hlt.le, Or.inl (by simp)⟩
  · have hself : b.refill l tick = b := by
      rw [← hat]
      exact Bucket.refill_self l b
    rw [hself]
    exact ⟨h, fun hne => by omega⟩

theorem Yields.swept (hl : l.Admitted) (hrate : 1000 ≤ l.acceptRate)
    (hdvd : ¬1000 ∣ l.acceptRate) {n : ℕ} (hn : n ≤ l.acceptBurst) {o : Option Bucket}
    (h : Yields l n o) : Yields l n (swept l tick o) := by
  cases o with
  | none => exact h
  | some b =>
    unfold Admission.swept
    rw [Option.bind_some]
    split
    · intro b hb
      simp at hb
    · exact (h.refill hl hrate hdvd hn).1

theorem Yields.charged (hl : l.Admitted) (hrate : 1000 ≤ l.acceptRate)
    (hdvd : ¬1000 ∣ l.acceptRate) {n : ℕ} (hn : n ≤ l.acceptBurst) {o : Option Bucket}
    (h : Yields l n o) (count : ℕ) : Yields l n (some (charged l tick o count)) := by
  have hone : Yields l n
      (if sweepInterval ≤ count + 1 then Admission.swept l tick o else o) := by
    split
    · exact h.swept hl hrate hdvd hn
    · exact h
  unfold Admission.charged
  cases hc : (if sweepInterval ≤ count + 1 then Admission.swept l tick o else o) with
  | none =>
    rintro _ ⟨rfl⟩
    exact ⟨le_rfl, Or.inr ⟨rfl, hn⟩⟩
  | some b =>
    rw [hc] at hone
    exact hone

/-- A yielding entry pays for a visit at `tick`, and for `n` more after it. -/
theorem Yields.visit (hl : l.Admitted) (hrate : 1000 ≤ l.acceptRate)
    (hdvd : ¬1000 ∣ l.acceptRate) {n : ℕ} (hn : n + 1 ≤ l.acceptBurst) {o : Option Bucket}
    (h : Yields l (n + 1) o) {times : List ℕ} {count now : ℕ} (hnow : now ≤ tick)
    (hr : Reached l now times o count) :
    ∃ o' count', Yields l n o' ∧ Reached l tick (times ++ [tick]) o' count' := by
  obtain ⟨hyields, hpos⟩ := (h.charged hl hrate hdvd hn count).refill hl hrate hdvd hn
  refine ⟨_, _, ?_, hr.visit hl hnow (hpos n.succ_ne_zero)⟩
  have htaken : Yields l n (some (takenFrom l tick (Admission.charged l tick o count))) := by
    obtain ⟨hlevel, hat⟩ := hyields _ rfl
    rintro _ ⟨rfl⟩
    refine ⟨(Nat.sub_le _ _).trans hlevel, hat.imp id fun hat => ⟨hat.1, ?_⟩⟩
    have := hat.2
    simp only [takenFrom]
    omega
  exact htaken.swept hl hrate hdvd (by omega)

/-- A yielding entry pays for all its visits at `tick`. -/
theorem Yields.run (hl : l.Admitted) (hrate : 1000 ≤ l.acceptRate)
    (hdvd : ¬1000 ∣ l.acceptRate) (n : ℕ) (hn : n ≤ l.acceptBurst) {o : Option Bucket}
    (h : Yields l n o) {times : List ℕ} {count : ℕ} (hr : Reached l tick times o count) :
    ∃ o' count', Reached l tick (times ++ List.replicate n tick) o' count' := by
  induction n generalizing o times count with
  | zero => exact ⟨o, count, by simpa using hr⟩
  | succ n ih =>
    obtain ⟨o₁, count₁, h₁, hr₁⟩ := h.visit hl hrate hdvd hn le_rfl hr
    obtain ⟨o', count', hr'⟩ := ih (by omega) h₁ hr₁
    exact ⟨o', count', by simpa [List.replicate_succ] using hr'⟩

/-- The burst is drained at instant zero, with the next sweep not due at once. -/
theorem reached_drained_unswept (hl : l.Admitted) :
    ∃ count, count + 1 < sweepInterval ∧
      Reached l 0 (List.replicate l.acceptBurst 0) (some ⟨0, 0⟩) count := by
  have hb := hl.acceptBurst.1
  obtain ⟨count, h⟩ := reached_drained hl (l.acceptBurst - 1) (by omega)
  rw [show l.acceptBurst - 1 + 1 = l.acceptBurst by omega, Nat.sub_self] at h
  by_cases hdue : count + 1 < sweepInterval
  · exact ⟨count, hdue, h⟩
  · -- A refused call lets the sweep pass first.
    have hself : Bucket.refill l 0 ⟨0, 0⟩ = ⟨0, 0⟩ := Bucket.refill_self l ⟨0, 0⟩
    have hch := charged_of_stable count hself (by simp; omega)
    have hnext := h.refusal hl le_rfl (by rw [hch, hself])
    rw [hch, hself] at hnext
    refine ⟨nextCount count, ?_, hnext⟩
    unfold nextCount
    rw [if_pos (by omega)]
    decide

theorem fast_not_rateBoundInOrder (hl : l.Admitted) (hrate : 1000 ≤ l.acceptRate)
    (hdvd : ¬1000 ∣ l.acceptRate) (hburst : l.acceptRate / 1000 < l.acceptBurst) :
    ¬RateBoundInOrder l := by
  obtain ⟨count, hdue, h⟩ := reached_drained_unswept hl
  have hmod : l.acceptRate % 1000 ≠ 0 := fun h0 => hdvd (Nat.dvd_of_mod_eq_zero h0)
  -- The first visit at `tick` does not fill the bucket, so the millisecond stays due.
  have hch : charged l tick (some ⟨0, 0⟩) count = ⟨0, 0⟩ := by
    unfold charged
    rw [if_neg (by omega)]
    rfl
  have hrefill : Bucket.refill l tick ⟨0, 0⟩ = ⟨l.acceptRate / 1000, 0⟩ := by
    have hms : millisSince tick 0 = 1 := by decide
    have hcases := Bucket.refill_cases hl (b := ⟨0, 0⟩) tick (Nat.zero_le _)
    dsimp only at hcases
    rw [hms, Nat.mul_one, Nat.div_eq_of_lt (show l.acceptRate / 1000 * 1000 < l.acceptRate by
      omega)] at hcases
    rcases hcases with ⟨hsmall, -⟩ | ⟨-, hfull, -⟩ | ⟨-, -, h⟩
    · omega
    · omega
    · simpa using h
  have hfirst := h.visit hl (Nat.zero_le tick) (by rw [hch, hrefill]; simp; omega)
  have htaken : Yields l l.acceptBurst (some (takenFrom l tick ⟨0, 0⟩)) := by
    rw [takenFrom, hrefill]
    rintro _ ⟨rfl⟩
    exact ⟨by dsimp only; omega, Or.inl rfl⟩
  rw [hch] at hfirst
  obtain ⟨o', count', hrun⟩ := (htaken.swept hl hrate hdvd le_rfl).run hl hrate hdvd _ le_rfl hfirst
  refine hrun.not_rateBoundInOrder 1 ?_ ?_
  · intro t ht
    simp only [List.mem_append, List.mem_replicate, List.mem_singleton] at ht
    rcases ht with (⟨-, rfl⟩ | rfl) | ⟨-, rfl⟩
    · exact Nat.zero_le _
    · exact le_rfl
    · exact le_rfl
  · simp only [List.length_append, List.length_replicate, List.length_singleton]
    omega

end Fast

/-! ### A drop that reads a later clock -/

section Late

variable {l : Limits}

/-- At instant zero all but the last token of the burst are taken. -/
theorem reached_last (hl : l.Admitted) : ∃ o count,
    Reached l 0 (List.replicate (l.acceptBurst - 1) 0) o count ∧
      (charged l 0 o count).refill l 0 = ⟨1, 0⟩ := by
  have hburst := hl.acceptBurst.1
  by_cases hone : l.acceptBurst = 1
  · refine ⟨none, 0, by simpa [hone] using reached_start l, ?_⟩
    have hch : charged l 0 none 0 = ⟨1, 0⟩ := by simp [charged, sweepInterval, Bucket.full, hone]
    rw [hch]
    exact Bucket.refill_self l ⟨1, 0⟩
  · obtain ⟨count, h⟩ := reached_drained hl (l.acceptBurst - 2) (by omega)
    have htaken : l.acceptBurst - 2 + 1 = l.acceptBurst - 1 := by omega
    have hleft : l.acceptBurst - (l.acceptBurst - 1) = 1 := by omega
    rw [htaken, hleft] at h
    refine ⟨_, count, h, ?_⟩
    have hself : Bucket.refill l 0 ⟨1, 0⟩ = ⟨1, 0⟩ := Bucket.refill_self l ⟨1, 0⟩
    rw [charged_of_stable count hself (fun heq => hone heq.symm), hself]

/-- The drop that finds the empty bucket full again. -/
theorem swept_empty (hl : l.Admitted) :
    swept l (l.acceptBurst * 1000 * nanosPerMilli) (some ⟨0, 0⟩) = none := by
  have hms : millisSince (l.acceptBurst * 1000 * nanosPerMilli) 0 = l.acceptBurst * 1000 :=
    Nat.mul_div_cancel (l.acceptBurst * 1000) (by decide)
  have hworth : l.acceptBurst * 1000 ≤ l.acceptRate * (l.acceptBurst * 1000) :=
    Nat.le_mul_of_pos_left _ hl.acceptRate.1
  have hcases := Bucket.refill_cases hl (b := ⟨0, 0⟩) (l.acceptBurst * 1000 * nanosPerMilli)
    (Nat.zero_le _)
  dsimp only at hcases
  rw [hms] at hcases
  have hburst := hl.acceptBurst.1
  rcases hcases with ⟨hsmall, -⟩ | ⟨-, -, h⟩ | ⟨-, hlt, -⟩
  · omega
  · rw [swept, Option.bind_some, h, if_pos rfl]
  · omega

/-- Under any limits a drop that reads a later clock gives a token too many. -/
theorem not_rateBound (hl : l.Admitted) : ¬RateBound l := by
  have hburst := hl.acceptBurst.1
  obtain ⟨o, count, ⟨ops, -, hpast, htokens, hquiet⟩, hlast⟩ := reached_last hl
  set gone := l.acceptBurst * 1000 * nanosPerMilli with hgone
  obtain ⟨hstay, hquiet'⟩ := hquiet.after_stay hl (by rw [hlast]; decide) gone
  have htaken : takenFrom l 0 (charged l 0 o count) = ⟨0, 0⟩ := by
    rw [takenFrom, hlast]
    rfl
  rw [htaken, hgone, swept_empty hl] at hquiet'
  -- The entry is gone, so the next call is charged to a full bucket.
  have hfull : charged l 0 none (nextCount count) = Bucket.full l 0 := by
    unfold charged
    split <;> rfl
  have hself : (Bucket.full l 0).refill l 0 = Bucket.full l 0 :=
    Bucket.refill_self l (Bucket.full l 0)
  have hleft : ((charged l 0 none (nextCount count)).refill l 0).level ≠ 0 := by
    rw [hfull, hself]
    exact Nat.one_le_iff_ne_zero.1 hburst
  obtain ⟨hvisit, -⟩ := hquiet'.after_stay hl hleft 0
  intro hbound
  have hzero : ∀ t ∈ (ops ++ (stay 0 gone ++ stay 0 0)).filterMap (Op.admitTime visitor),
      t = 0 := by
    intro t ht
    rw [List.filterMap_append, List.mem_append] at ht
    rcases ht with ht | ht
    · obtain ⟨op, hmem, hop⟩ := List.mem_filterMap.1 ht
      exact Nat.le_zero.1 (hpast t (List.mem_filterMap.2 ⟨op, hmem, Op.time_of_admitTime hop⟩))
    · have hkey : sourceKey visitor = visitor := by decide
      simpa [stay, Op.admitTime, hkey, eq_comm] using ht
  have horder : AdmitsInOrder visitor (ops ++ (stay 0 gone ++ stay 0 0)) :=
    List.pairwise_of_forall_mem_list fun a ha b hb => by rw [hzero a ha, hzero b hb]
  have hle := hbound visitor _ horder 0 0
  have hall : tokens l visitor System.start (ops ++ (stay 0 gone ++ stay 0 0)) =
      List.replicate (l.acceptBurst - 1) 0 ++ [0, 0] := by
    rw [tokens_append, tokens_append, htokens, hstay]
    exact congrArg _ (congrArg _ hvisit)
  rw [hall, List.countP_eq_length.2] at hle
  · simp only [List.length_append, List.length_replicate, List.length_cons, List.length_nil] at hle
    omega
  · intro t ht
    rw [List.mem_append, List.mem_replicate] at ht
    obtain rfl : t = 0 := ht.elim And.right fun hpair => by simpa using hpair
    rfl

end Late

/-! ### The exact condition -/

/-- **Rate bound.** For limits the configuration lets through, no source ever
takes more than `burst + ⌈rate * T / 1000⌉` tokens in `T` milliseconds, in any
run whose prunes read no later clocks than the calls behind them, exactly when the
rate divides 1000, is a multiple of 1000, or the burst is at most one token or one
millisecond's worth. Where a prune may read a later clock than the next call, the
bound is broken under all limits. -/
theorem rateBound_iff_roundsSafely (l : Limits) (hl : l.Admitted) :
    (RateBoundInOrder l ↔ l.RoundsSafely) ∧ ¬RateBound l := by
  refine ⟨⟨fun hbound => ?_, fun h => h.rateBoundInOrder hl⟩, not_rateBound hl⟩
  by_contra hunsafe
  unfold Limits.RoundsSafely at hunsafe
  push Not at hunsafe
  obtain ⟨hdvd, hdvd', hburst⟩ := hunsafe
  by_cases hrate : l.acceptRate < 1000
  · exact slow_not_rateBoundInOrder hl hrate hdvd (by omega) hbound
  · exact fast_not_rateBoundInOrder hl (by omega) hdvd' (by omega) hbound

/-- Limits with 1500 tokens per second and a burst of two. -/
def Limits.fifteenHundred : Limits := { Limits.default with acceptRate := 1500, acceptBurst := 2 }

/-- Limits with 1000 tokens per second. -/
def Limits.thousand : Limits := { Limits.default with acceptRate := 1000 }

theorem rateBound_iff_roundsSafely_thousand_and_fifteenHundred :
    ((RateBoundInOrder Limits.thousand ↔ Limits.thousand.RoundsSafely) ∧
        ¬RateBound Limits.thousand) ∧
      (RateBoundInOrder Limits.fifteenHundred ↔ Limits.fifteenHundred.RoundsSafely) ∧
        ¬RateBound Limits.fifteenHundred :=
  ⟨rateBound_iff_roundsSafely Limits.thousand (by decide),
    rateBound_iff_roundsSafely Limits.fifteenHundred (by decide)⟩

/-- Two visits at instant zero and three one millisecond later. -/
def roundingRun : List Op := visit 0 ++ visit 0 ++ visit tick ++ visit tick ++ visit tick

/-- Ten visits at instant zero, of which the last is dropped ten milliseconds later and
its entry pruned; a call that read its clock a millisecond before, and ten visits more. -/
def lateDropRun : List Op :=
  (List.replicate 9 (visit 0)).flatten ++ stay 0 (10 * tick) ++ stay (9 * tick) (10 * tick) ++
    (List.replicate 10 (visit (10 * tick))).flatten

/-- Five tokens in a window of one millisecond, where `2 + ⌈1500 / 1000⌉` is four; and,
under limits that round safely, 21 tokens in a window of ten milliseconds, where
`10 + ⌈1000 * 10 / 1000⌉` is 20. -/
theorem rate_exceeded :
    (Limits.fifteenHundred.Admitted ∧ Chronological roundingRun ∧
      AdmitsInOrder visitor roundingRun ∧
      (tokens Limits.fifteenHundred visitor System.start roundingRun).countP (inWindow 0 1) = 5 ∧
      ¬WithinRate Limits.fifteenHundred visitor roundingRun) ∧
    Limits.thousand.Admitted ∧ Limits.thousand.RoundsSafely ∧
      AdmitsInOrder visitor lateDropRun ∧
      (tokens Limits.thousand visitor System.start lateDropRun).countP (inWindow 0 10) = 21 ∧
      ¬WithinRate Limits.thousand visitor lateDropRun := by
  have hfive : (tokens Limits.fifteenHundred visitor System.start roundingRun).countP
      (inWindow 0 1) = 5 := by decide
  have hmany : (tokens Limits.thousand visitor System.start lateDropRun).countP
      (inWindow 0 10) = 21 := by decide +kernel
  refine ⟨⟨by decide, by decide, by decide, hfive, fun h => ?_⟩, by decide, .inl (by decide),
    by decide, hmany, fun h => ?_⟩
  · have hle := h 0 1
    rw [hfive] at hle
    exact absurd hle (by decide)
  · have hle := h 0 10
    rw [hmany] at hle
    exact absurd hle (by decide)

end QuantumSsh.Admission
