import QuantumSsh.Admission.Basic
import QuantumSsh.Lib.Lists

/-!
# Admission accounting

The counters of the admission state are the numbers of live guards they stand
for, in every reachable state. The saturating subtractions therefore never
saturate, the caps hold, and no prune removes an entry that a half-open
connection still relies on.
-/

namespace QuantumSsh.Admission

open Machine

/-! ### What the counters stand for -/

/-- A source's half-open count, zero without an entry. -/
def State.sourceHalfOpen (st : State) (key : IpAddr) : ℕ :=
  ((st.sources key).map SourceState.halfOpen).getD 0

/-- The guard still holds a half-open slot. -/
def ConnectionGuard.isWaiting (g : ConnectionGuard) : Bool := !g.authenticated

/-- The guard still holds a half-open slot of the source `key`. -/
def ConnectionGuard.isWaitingFrom (key : IpAddr) (g : ConnectionGuard) : Bool :=
  g.isWaiting && g.source == key

/-- Every counter equals the number of live guards it stands for, and stays
within its cap. -/
structure Accounts (l : Limits) (sys : System) : Prop where
  connections : sys.state.connections = sys.guards.length
  halfOpen : sys.state.halfOpen = sys.guards.countP ConnectionGuard.isWaiting
  source : ∀ key, sys.state.sourceHalfOpen key =
    sys.guards.countP (ConnectionGuard.isWaitingFrom key)
  connections_le : sys.state.connections ≤ l.maxConnections
  halfOpen_le : sys.state.halfOpen ≤ l.maxHalfOpen
  source_le : ∀ key, sys.state.sourceHalfOpen key ≤ l.maxPerSource

theorem accounts_start (l : Limits) : Accounts l System.start where
  connections := rfl
  halfOpen := rfl
  source := fun _ => rfl
  connections_le := Nat.zero_le _
  halfOpen_le := Nat.zero_le _
  source_le := fun _ => Nat.zero_le _

/-! ### Half-open counts under the operations -/

theorem State.sourceHalfOpen_update (st : State) (key k : IpAddr)
    (s : Option SourceState) (c h n : ℕ) :
    State.sourceHalfOpen ⟨c, h, Function.update st.sources key s, n⟩ k =
      if k = key then (s.map SourceState.halfOpen).getD 0 else st.sourceHalfOpen k := by
  by_cases hk : k = key
  · simp [State.sourceHalfOpen, hk]
  · simp [State.sourceHalfOpen, hk]

theorem retained_halfOpen (l : Limits) (now : ℕ) (s : SourceState) :
    ((retained l now s).map SourceState.halfOpen).getD 0 = s.halfOpen := by
  unfold retained
  by_cases hpos : 0 < s.halfOpen
  · simp [hpos]
  · have hzero : s.halfOpen = 0 := by omega
    by_cases hfull : (s.bucket.isFull l now).1 = true <;> simp [hzero, hfull]

theorem pruned_halfOpen (l : Limits) (now : ℕ) (s : SourceState) :
    ((pruned l now s).map SourceState.halfOpen).getD 0 = s.halfOpen := by
  unfold pruned
  by_cases hzero : s.halfOpen = 0
  · by_cases hfull : (s.bucket.isFull l now).1 = true <;> simp [hzero, hfull]
  · simp [hzero]

@[simp] theorem sweep_connections (l : Limits) (now : ℕ) (st : State) :
    (sweep l now st).connections = st.connections := by
  unfold sweep
  dsimp only
  split <;> rfl

@[simp] theorem sweep_halfOpen (l : Limits) (now : ℕ) (st : State) :
    (sweep l now st).halfOpen = st.halfOpen := by
  unfold sweep
  dsimp only
  split <;> rfl

/-- The sweep drops only entries that count no half-open connection. -/
@[simp] theorem sweep_sourceHalfOpen (l : Limits) (now : ℕ) (st : State) (key : IpAddr) :
    (sweep l now st).sourceHalfOpen key = st.sourceHalfOpen key := by
  unfold sweep
  dsimp only
  split
  · cases hs : st.sources key with
    | none => simp [State.sourceHalfOpen, hs]
    | some s => simpa [State.sourceHalfOpen, hs] using retained_halfOpen l now s
  · rfl

/-- What a call that passed the caps does to the counters. -/
theorem charge_cases (l : Limits) (key : IpAddr) (now : ℕ) (st : State) :
    (∃ st', charge l key now st = (.ok ⟨key, false⟩, st') ∧
      st'.connections = st.connections + 1 ∧ st'.halfOpen = st.halfOpen + 1 ∧
      ∀ k, st'.sourceHalfOpen k =
        if k = key then st.sourceHalfOpen key + 1 else st.sourceHalfOpen k) ∨
    (∃ st', charge l key now st = (.error .acceptRate, st') ∧
      st'.connections = st.connections ∧ st'.halfOpen = st.halfOpen ∧
      ∀ k, st'.sourceHalfOpen k = st.sourceHalfOpen k) := by
  have hcount : ((st.sources key).getD ⟨0, Bucket.full l now⟩).halfOpen =
      st.sourceHalfOpen key := by
    cases hs : st.sources key <;> simp [State.sourceHalfOpen, hs]
  unfold charge
  dsimp only
  split
  · refine Or.inl ⟨_, rfl, rfl, rfl, fun k => ?_⟩
    rw [State.sourceHalfOpen_update]
    simp [hcount]
  · refine Or.inr ⟨_, rfl, rfl, rfl, fun k => ?_⟩
    rw [State.sourceHalfOpen_update]
    by_cases hk : k = key
    · simp [hk, hcount]
    · simp [hk]

/-! ### One step -/

theorem Accounts.arrive {l : Limits} {sys : System} (hl : 1 ≤ l.maxPerSource)
    (h : Accounts l sys) (ip : IpAddr) (now : ℕ) :
    Accounts l (sys.step l (.arrive ip now)) := by
  rcases tryAdmit_cases l ip now sys.state with ⟨refusal, -, hrun⟩ | ⟨hcaps, hrun⟩
  · simpa only [System.step, hrun] using h
  obtain ⟨hconn, hhalf, hsrc⟩ := hcaps
  rcases charge_cases l (sourceKey ip) now (sweep l now sys.state) with
    ⟨st', hch, hc, hh, hs⟩ | ⟨st', hch, hc, hh, hs⟩
  · -- A guard was handed out: every counter it stands for grew by one.
    simp only [sweep_connections, sweep_halfOpen, sweep_sourceHalfOpen] at hc hh hs
    simp only [System.step, hrun, hch]
    have hcount : ∀ key, (ConnectionGuard.mk (sourceKey ip) false :: sys.guards).countP
        (ConnectionGuard.isWaitingFrom key) = st'.sourceHalfOpen key := by
      intro key
      rw [hs, List.countP_cons, ← h.source key]
      by_cases hk : key = sourceKey ip
      · simp [hk, ConnectionGuard.isWaitingFrom, ConnectionGuard.isWaiting]
      · simp [hk, ConnectionGuard.isWaitingFrom, ConnectionGuard.isWaiting, Ne.symm hk]
    refine ⟨?_, ?_, fun key => (hcount key).symm, ?_, ?_, fun key => ?_⟩
    · simp [hc, h.connections]
    · rw [hh, h.halfOpen]
      simp [ConnectionGuard.isWaiting]
    · change st'.connections ≤ l.maxConnections
      omega
    · change st'.halfOpen ≤ l.maxHalfOpen
      omega
    · change st'.sourceHalfOpen key ≤ l.maxPerSource
      rw [hs key]
      split
      · cases hget : sys.state.sources (sourceKey ip) with
        | none =>
          have hzero : sys.state.sourceHalfOpen (sourceKey ip) = 0 := by
            simp [State.sourceHalfOpen, hget]
          -- No entry was read: room for one connection is all that is needed.
          omega
        | some s =>
          have hlt := hsrc s hget
          simp only [State.sourceHalfOpen, hget, Option.map_some, Option.getD_some]
          omega
      · exact h.source_le key
  · simp only [sweep_connections, sweep_halfOpen, sweep_sourceHalfOpen] at hc hh hs
    simp only [System.step, hrun, hch]
    refine ⟨?_, ?_, fun key => ?_, ?_, ?_, fun key => ?_⟩
    · exact hc.trans h.connections
    · exact hh.trans h.halfOpen
    · exact (hs key).trans (h.source key)
    · exact hc.trans_le h.connections_le
    · exact hh.trans_le h.halfOpen_le
    · exact (hs key).trans_le (h.source_le key)

/-- A live guard that still waits is counted by both half-open counters. -/
theorem Accounts.pos_of_waiting {l : Limits} {sys : System} (h : Accounts l sys)
    {g : ConnectionGuard} (hg : g ∈ sys.guards) (hw : g.isWaiting = true) :
    1 ≤ sys.state.halfOpen ∧ 1 ≤ sys.state.sourceHalfOpen g.source := by
  rw [h.halfOpen, h.source]
  refine ⟨List.countP_pos_iff.2 ⟨g, hg, hw⟩, List.countP_pos_iff.2 ⟨g, hg, ?_⟩⟩
  simp [ConnectionGuard.isWaitingFrom, hw]

theorem markAuthenticated_sourceHalfOpen {g : ConnectionGuard} (hw : g.authenticated = false)
    (st : State) (k : IpAddr) :
    (markAuthenticated g st).2.sourceHalfOpen k =
      if k = g.source then st.sourceHalfOpen k - 1 else st.sourceHalfOpen k := by
  simp only [markAuthenticated, hw, Bool.false_eq_true, if_false]
  rw [State.sourceHalfOpen_update]
  by_cases hk : k = g.source
  · subst hk
    cases hs : st.sources g.source <;> simp [State.sourceHalfOpen, hs, SourceState.release]
  · simp [hk]

theorem dropGuard_sourceHalfOpen (l : Limits) (now : ℕ) (g : ConnectionGuard)
    (st : State) (k : IpAddr) :
    (dropGuard l now g st).sourceHalfOpen k =
      if k = g.source ∧ g.isWaiting then st.sourceHalfOpen k - 1 else st.sourceHalfOpen k := by
  unfold dropGuard
  rw [State.sourceHalfOpen_update]
  by_cases hk : k = g.source
  · subst hk
    cases hs : st.sources g.source with
    | none => simp [State.sourceHalfOpen, hs]
    | some s =>
      cases ha : g.authenticated <;>
        simp [State.sourceHalfOpen, hs, pruned_halfOpen, SourceState.release,
          ConnectionGuard.isWaiting, ha]
  · simp [hk]

theorem Accounts.authenticate {l : Limits} {sys : System} (h : Accounts l sys) (i : ℕ) :
    Accounts l (sys.step l (.authenticate i)) := by
  cases hget : sys.guards[i]? with
  | none => simpa only [System.step, hget] using h
  | some g =>
    obtain ⟨pre, post, hguards, -, hset⟩ := Lists.exists_split hget
    simp only [System.step, hget, hset]
    cases ha : g.authenticated with
    | true =>
      -- The flag was already set: the call returns before it touches the state.
      simp only [markAuthenticated, ha, if_true, ← hguards]
      exact h
    | false =>
      have hmem : g ∈ sys.guards := by simp [hguards]
      have hpos := h.pos_of_waiting hmem (by simp [ConnectionGuard.isWaiting, ha])
      have hcount : ∀ k, (markAuthenticated g sys.state).2.sourceHalfOpen k =
          (pre ++ (markAuthenticated g sys.state).1 :: post).countP
            (ConnectionGuard.isWaitingFrom k) := by
        intro k
        have hk := h.source k
        rw [hguards, List.countP_append, List.countP_cons] at hk
        rw [markAuthenticated_sourceHalfOpen ha, List.countP_append, List.countP_cons, hk]
        by_cases hkey : k = g.source
        · simp [hkey, markAuthenticated, ha, ConnectionGuard.isWaitingFrom,
            ConnectionGuard.isWaiting]
        · simp [hkey, Ne.symm hkey, markAuthenticated, ha, ConnectionGuard.isWaitingFrom,
            ConnectionGuard.isWaiting]
      have hhalf : (markAuthenticated g sys.state).2.halfOpen = sys.state.halfOpen - 1 := by
        simp [markAuthenticated, ha]
      have hconn : (markAuthenticated g sys.state).2.connections = sys.state.connections := by
        simp [markAuthenticated, ha]
      refine ⟨?_, ?_, hcount, ?_, ?_, fun k => ?_⟩
      · rw [hconn, h.connections, hguards]
        simp
      · have hw := h.halfOpen
        rw [hguards, List.countP_append, List.countP_cons] at hw
        rw [hhalf, List.countP_append, List.countP_cons, hw]
        simp [markAuthenticated, ha, ConnectionGuard.isWaiting]
      · exact hconn.trans_le h.connections_le
      · have := h.halfOpen_le
        rw [hhalf]
        omega
      · have := h.source_le k
        dsimp only
        rw [markAuthenticated_sourceHalfOpen ha]
        split <;> omega

theorem Accounts.drop {l : Limits} {sys : System} (h : Accounts l sys) (i now : ℕ) :
    Accounts l (sys.step l (.drop i now)) := by
  cases hget : sys.guards[i]? with
  | none => simpa only [System.step, hget] using h
  | some g =>
    obtain ⟨pre, post, hguards, herase, -⟩ := Lists.exists_split hget
    simp only [System.step, hget, herase]
    have hconn : (dropGuard l now g sys.state).connections = sys.state.connections - 1 := rfl
    have hhalf : (dropGuard l now g sys.state).halfOpen =
        if g.isWaiting then sys.state.halfOpen - 1 else sys.state.halfOpen := rfl
    refine ⟨?_, ?_, fun k => ?_, ?_, ?_, fun k => ?_⟩
    · rw [hconn, h.connections, hguards]
      simp
    · have hw := h.halfOpen
      rw [hguards, List.countP_append, List.countP_cons] at hw
      rw [hhalf, List.countP_append, hw]
      split <;> omega
    · have hk := h.source k
      rw [hguards, List.countP_append, List.countP_cons] at hk
      dsimp only
      rw [dropGuard_sourceHalfOpen, List.countP_append, hk]
      by_cases hkey : k = g.source
      · subst hkey
        cases hw : g.isWaiting <;> simp [hw, ConnectionGuard.isWaitingFrom]
      · simp [hkey, Ne.symm hkey, ConnectionGuard.isWaitingFrom]
    · have := h.connections_le
      rw [hconn]
      omega
    · have := h.halfOpen_le
      rw [hhalf]
      split <;> omega
    · have := h.source_le k
      dsimp only
      rw [dropGuard_sourceHalfOpen]
      split <;> omega

theorem Accounts.step {l : Limits} {sys : System} (hl : 1 ≤ l.maxPerSource)
    (h : Accounts l sys) (op : Op) : Accounts l (sys.step l op) := by
  cases op with
  | arrive ip now => exact h.arrive hl ip now
  | authenticate i => exact h.authenticate i
  | drop i now => exact h.drop i now

theorem Accounts.run {l : Limits} {sys : System} (hl : 1 ≤ l.maxPerSource)
    (h : Accounts l sys) (ops : List Op) : Accounts l (sys.run l ops) := by
  induction ops generalizing sys with
  | nil => exact h
  | cons op ops ih => exact ih (h.step hl op)

/-! ### The accounting theorem -/

/-- Releasing a half-open slot of `key` subtracts from positive counters, and
from an entry that is there. -/
def State.ReleasesExactly (st : State) (key : IpAddr) : Prop :=
  1 ≤ st.halfOpen ∧ ∃ s, st.sources key = some s ∧ 1 ≤ s.halfOpen

/-- No `saturating_sub` of the operation saturates. -/
def System.SubtractsExactly (sys : System) : Op → Prop
  | .arrive _ _ => True
  | .authenticate i =>
    ∀ g, sys.guards[i]? = some g → g.isWaiting = true → sys.state.ReleasesExactly g.source
  | .drop i _ =>
    ∀ g, sys.guards[i]? = some g → 1 ≤ sys.state.connections ∧
      (g.isWaiting = true → sys.state.ReleasesExactly g.source)

/-- What a refused call leaves: the whole state after a cap refusal, every slot
after a rate refusal. -/
def State.UntakenBy (st : State) (refusal : Refusal) (st' : State) : Prop :=
  (refusal ≠ .acceptRate → st' = st) ∧
    st'.connections = st.connections ∧ st'.halfOpen = st.halfOpen ∧
    ∀ key, st'.sourceHalfOpen key = st.sourceHalfOpen key

theorem Accounts.releasesExactly {l : Limits} {sys : System} (h : Accounts l sys)
    {g : ConnectionGuard} (hg : g ∈ sys.guards) (hw : g.isWaiting = true) :
    sys.state.ReleasesExactly g.source := by
  obtain ⟨hhalf, hsource⟩ := h.pos_of_waiting hg hw
  refine ⟨hhalf, ?_⟩
  cases hs : sys.state.sources g.source with
  | none => simp [State.sourceHalfOpen, hs] at hsource
  | some s => exact ⟨s, rfl, by simpa [State.sourceHalfOpen, hs] using hsource⟩

theorem Accounts.subtractsExactly {l : Limits} {sys : System} (h : Accounts l sys)
    (op : Op) : sys.SubtractsExactly op := by
  cases op with
  | arrive ip now => trivial
  | authenticate i =>
    intro g hget hw
    exact h.releasesExactly (List.mem_of_getElem? hget) hw
  | drop i now =>
    intro g hget
    have hmem := List.mem_of_getElem? hget
    refine ⟨?_, fun hw => h.releasesExactly hmem hw⟩
    rw [h.connections]
    exact List.length_pos_of_mem hmem

theorem tryAdmit_refused {l : Limits} {ip : IpAddr} {now : ℕ} {st st' : State}
    {refusal : Refusal} (h : tryAdmit l ip now st = (.error refusal, st')) :
    st.UntakenBy refusal st' := by
  rcases tryAdmit_cases l ip now st with ⟨refusal', -, hrun⟩ | ⟨-, hrun⟩
  · rw [hrun, Prod.mk.injEq] at h
    obtain ⟨-, rfl⟩ := h
    exact ⟨fun _ => rfl, rfl, rfl, fun _ => rfl⟩
  rw [hrun] at h
  rcases charge_cases l (sourceKey ip) now (sweep l now st) with
    ⟨st'', hch, -⟩ | ⟨st'', hch, hc, hh, hs⟩
  · rw [hch, Prod.mk.injEq] at h
    exact absurd h.1 (by simp)
  · rw [hch, Prod.mk.injEq, Except.error.injEq] at h
    obtain ⟨rfl, rfl⟩ := h
    simp only [sweep_connections, sweep_halfOpen, sweep_sourceHalfOpen] at hc hh hs
    exact ⟨fun hne => absurd rfl hne, hc, hh, hs⟩

/-- **Admission accounting.** After any interleaving of arrivals,
authentications and drops the counters are the numbers of live guards they
stand for and respect their caps, no subtraction of the next operation
saturates, every half-open guard still has its source's entry, and a refused
call takes nothing. -/
theorem admission_accounting (l : Limits) (hl : 1 ≤ l.maxPerSource) (ops : List Op) :
    Accounts l (System.start.run l ops) ∧
    (∀ op, (System.start.run l ops).SubtractsExactly op) ∧
    (∀ g ∈ (System.start.run l ops).guards, g.isWaiting = true →
      ((System.start.run l ops).state.sources g.source).isSome) ∧
    (∀ ip now refusal st',
      tryAdmit l ip now (System.start.run l ops).state = (.error refusal, st') →
        (System.start.run l ops).state.UntakenBy refusal st') := by
  have h : Accounts l (System.start.run l ops) := (accounts_start l).run hl ops
  refine ⟨h, h.subtractsExactly, fun g hg hw => ?_, fun ip now refusal st' hrun => ?_⟩
  · obtain ⟨-, s, hs, -⟩ := h.releasesExactly hg hw
    simp [hs]
  · exact tryAdmit_refused hrun

/-- Two connections of one source: one authenticates, both close. -/
theorem admission_accounting_two_connections :
    Accounts Limits.default (System.start.run Limits.default
      [.arrive (.v4 203 0 113 1) 0, .arrive (.v4 203 0 113 1) 0, .authenticate 0,
        .authenticate 0, .drop 1 5, .drop 0 7]) :=
  (admission_accounting Limits.default (by decide) _).1

end QuantumSsh.Admission
