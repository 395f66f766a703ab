import QuantumSsh.Channel.Record
import QuantumSsh.Channel.Exchange

/-!
# Input without end

A child that reads byte after byte of its stdin, from a client that re-keys before
each. The window is returned whenever a batch of credits is full, so no limit of the
channel is ever reached, and the counter of the bytes received comes to its end.
-/

namespace QuantumSsh.Channel

open Wire Kex Machine Program Transport

/-! ### The client and the child -/

/-- The keys are exchanged, a byte arrives, the pump writes it and the driver counts
the credit. -/
def intakeCycle : List Input :=
  exchangeTurns ++ packetTurn (channelData [0]) ++
    [.phase, .phase, .pump .take, .pump (.write 1), .phase, .event .credit]

/-- The channel has a child that reads all it is sent. -/
structure Driver.Drinks (d : Driver) : Prop where
  state : d.state = .running
  child : d.child = some (ChildIo.spawned false)
  stdin : d.pendingStdin = none ∧ d.preExecStdin = [] ∧ d.clientEof = false
  output : d.pendingOut = none
  window : d.inWindow + d.creditPending = initialWindow
  credit : d.creditPending ≤ creditBatch
  deferred : d.deferred = []
  counts : d.consumedClosed = false
  command : d.command.isSome = true

/-- At the start of a turn, with the counters below `k`. -/
structure Drinking (k : ℕ) (w : World) : Prop where
  drinks : w.driver.Drinks
  phase : w.session.rekey.phase = .idle
  below : w.Below k

variable {w : World} {k : ℕ}

theorem Drinking.resting (h : Drinking k w) (hcredit : w.driver.creditPending < creditBatch) :
    Resting w :=
  ⟨h.phase, h.drinks.output, .inr h.drinks.stdin, hcredit,
    by simp [Driver.readyToClose, h.drinks.state], by simp [h.drinks.state]⟩

/-! ### The return of a batch -/

/-- The connection after the credits were returned. -/
def World.replenished (w : World) : World :=
  (w.written (buildWindowAdjust w.driver.peerChan w.driver.creditPending)).mapDriver fun d =>
    { d with
      inWindow := saturatingAdd u32Max d.inWindow w.driver.creditPending
      creditPending := 0 }

theorem below_replenished (h : w.Below k) : w.replenished.Below (k + 9) := by
  have hlen : (buildWindowAdjust w.driver.peerChan w.driver.creditPending).length = 9 := rfl
  refine ⟨h.bytesRx.trans (by omega), ?_, h.seqRx.trans (by omega), ?_, h.thresholds⟩
  · refine (saturatingAdd_le _ _ _).trans ?_
    rw [hlen]
    exact Nat.add_le_add_right h.bytesTx 9
  · refine (wrappingAdd_le _ _ _).trans ?_
    have hseq := h.seqTx
    omega

/-- The closing work returns the batch, and is then the work at rest. -/
theorem step_settle_full (h : Drinking k w) (hfull : creditBatch ≤ w.driver.creditPending) :
    Config.step plainEnv ⟨w, .settle⟩ .phase =
      Config.step plainEnv ⟨w.replenished, .settle⟩ .phase := by
  have hactive : w.session.rekeyActive = false := by simp [Session.rekeyActive, h.phase]
  have hactive' : w.replenished.session.rekeyActive = false := hactive
  have hreturns : replenishWindow plainEnv w = (.ok (), w.replenished) := by
    refine eq_of_ensures ?_
    simp only [replenishWindow, ensures_bind, ensures_look, if_pos hfull,
      ensures_write willing_plainEnv, updateDriver_ensures]
    exact ⟨trivial, rfl⟩
  have hempty : replenishWindow plainEnv w.replenished = (.ok (), w.replenished) := rfl
  simp [Config.step, resume, settlePhase, hactive, hactive', hreturns, hempty, bind, Prog.bind,
    look]

theorem Driver.Drinks.replenished (h : w.driver.Drinks) : w.replenished.driver.Drinks := by
  have hwindow : saturatingAdd u32Max w.driver.inWindow w.driver.creditPending = initialWindow := by
    rw [saturatingAdd, h.window]
    decide
  refine ⟨h.state, h.child, h.stdin, h.output, ?_, Nat.zero_le _, h.deferred, h.counts,
    h.command⟩
  rw [← hwindow]
  rfl

/-- A turn without an event: afterwards the batch is not full. -/
theorem Drinking.rests (h : Drinking k w) (hk : k + 9 < 1024 * 1024 * 1024) :
    ∃ w₁, run (Config.step plainEnv) ⟨w, .flush⟩ [.phase, .phase, .phase] =
      some ⟨w₁, .waiting⟩ ∧ Drinking (k + 9) w₁ ∧ w₁.driver.creditPending < creditBatch := by
  by_cases hcredit : w.driver.creditPending < creditBatch
  · refine ⟨_, turn_resting (h.resting hcredit) (.inl (not_due h.below (by omega))), ?_, hcredit⟩
    exact ⟨h.drinks, h.phase, (h.below.mono (Nat.le_add_right k 9)).atTick _⟩
  · have hfull : creditBatch ≤ w.driver.creditPending := Nat.le_of_not_lt hcredit
    have hreturned : Drinking (k + 9) w.replenished :=
      ⟨h.drinks.replenished, h.phase, below_replenished h.below⟩
    have hempty : w.replenished.driver.creditPending < creditBatch := by
      change 0 < creditBatch
      decide
    have hnot := hreturned.resting hempty
    refine ⟨w.replenished.atTick (w.replenished.session.tick + 1), ?_,
      ⟨hreturned.drinks, hreturned.phase, hreturned.below.atTick _⟩, hempty⟩
    simp only [run, step_flush_quiet h.phase h.drinks.output, Option.bind_some,
      step_handoff_fed (.inr h.drinks.stdin), step_settle_full h hfull,
      step_settle_quiet hnot.phase hnot.credit hnot.notReady hnot.notClosed
        (.inl (not_due hreturned.below hk))]

/-! ### One byte of input -/

theorem handle_byte {env : Env} (h : w.driver.Drinks) (hroom : 0 < w.driver.inWindow) :
    handleInbound env (channelData [0]) w =
      (.ok (), ((w.observe (.handled (channelData [0]))).observe (.accepted [0])).mapDriver
        fun d => { d with inWindow := d.inWindow - 1, pendingStdin := some [0] }) := by
  have hread : readChannelData.run (putUint32 localChannel ++ (putString [0] ++ [])) =
      .ok ((localChannel, [0]), []) := by
    refine Reader.run_bind_ok.2 ⟨_, _, Reader.uint32_putUint32 (by decide) _, ?_⟩
    exact Reader.run_bind_ok.2 ⟨_, _, Reader.string_putString (by decide) (by decide) _, rfl⟩
  have hsplit : channelData [0] =
      sshMsgChannelData :: (putUint32 localChannel ++ (putString [0] ++ [])) := by
    simp [channelData, buildDataFrame]
  refine eq_of_ensures ?_
  simp only [hsplit, handleInbound, dispatch, ensures_bind, note_ensures, ensures_look]
  rw [if_neg (by decide), if_neg (by simp [h.state]), if_neg (by decide), if_pos trivial]
  simp only [onChannelData, hread, ensures_bind, ensures_look]
  rw [if_neg (by simp), if_neg (by simp [h.state]), if_neg (by simp [h.stdin.2.2]),
    if_neg (by simpa using hroom.ne')]
  simp only [ensures_bind, note_ensures, updateDriver_ensures]
  rw [if_neg (by simp [h.state]), if_pos (by simp [h.child])]
  refine ⟨trivial, ?_⟩
  simp [World.mapDriver, World.observe, h.stdin.1]

/-- A byte that waits for the child. -/
structure Driver.Served (d : Driver) : Prop where
  state : d.state = .running
  child : d.child = some (ChildIo.spawned false)
  stdin : d.pendingStdin = some [0] ∧ d.preExecStdin = [] ∧ d.clientEof = false

theorem step_handoff_byte {env : Env} (h : w.driver.Served) :
    Config.step env ⟨w, .handoff⟩ .phase =
      some ⟨(w.mapDriver fun d => { d with
        pendingStdin := none
        child := some { ChildIo.spawned false with queue := [[0]] } }).observe (.queued [0]),
          .settle⟩ := by
  have hrun : handoffStdin w =
      (.ok (), (w.mapDriver fun d => { d with
        pendingStdin := none
        child := some { ChildIo.spawned false with queue := [[0]] } }).observe (.queued [0])) := by
    have htakes : (ChildIo.spawned false).trySendStdin [0] =
        some { ChildIo.spawned false with queue := [[0]] } := rfl
    refine eq_of_ensures ?_
    simp only [handoffStdin, ensures_bind, ensures_look, h.child, Driver.refill, h.stdin.1, htakes,
      updateDriver_ensures]
    have hopen : (ChildIo.spawned false).stdinOpen = true := rfl
    rw [if_pos hopen]
    simp [handoffStdin.closeOnEof, World.mapDriver, World.observe, h.stdin.2.1, h.stdin.2.2]
  simp [Config.step, resume, hrun]

/-- The pump writes the byte, and its credit is counted. -/
def World.counted (w : World) (tick : ℕ) : World :=
  ((((w.mapDriver fun d => { d with pendingStdin := none }).observe (.queued [0])).atTick
    tick).observe (.credited 1)).mapDriver fun d => { d with
      creditPending := saturatingAdd u32Max d.creditPending 1
      bytesReceived := saturatingAdd u64Max d.bytesReceived 1
      child := some (ChildIo.spawned false) }

theorem World.Below.counted (h : w.Below k) (tick : ℕ) : (w.counted tick).Below k :=
  ⟨h.bytesRx, h.bytesTx, h.seqRx, h.seqTx, h.thresholds⟩

theorem run_pump (h : w.driver.Served) (hphase : w.session.rekey.phase = .idle)
    (houtput : w.driver.pendingOut = none) (hcredit : w.driver.creditPending < creditBatch)
    (hbelow : w.Below k) (hk : k < 1024 * 1024 * 1024)
    (hcounts : w.driver.consumedClosed = false) :
    run (Config.step plainEnv) ⟨w, .flush⟩
      [.phase, .phase, .pump .take, .pump (.write 1), .phase, .event .credit] =
        some ⟨w.counted (w.session.tick + 1), .flush⟩ := by
  let child : List Bytes → Bytes → List ℕ → ChildIo := fun queue writing consumed =>
    { ChildIo.spawned false with queue, writing, consumed }
  let at' : List Bytes → Bytes → List ℕ → World := fun queue writing consumed =>
    (w.mapDriver fun d => { d with
      pendingStdin := none, child := some (child queue writing consumed) }).observe (.queued [0])
  have hhandoff : Config.step plainEnv ⟨w, .handoff⟩ .phase =
      some ⟨at' [[0]] [] [], .settle⟩ := step_handoff_byte h
  have htake : Config.step plainEnv ⟨at' [[0]] [] [], .settle⟩ (.pump .take) =
      some ⟨at' [] [0] [], .settle⟩ := rfl
  have hwrite : Config.step plainEnv ⟨at' [] [0] [], .settle⟩ (.pump (.write 1)) =
      some ⟨at' [] [] [1], .settle⟩ := rfl
  have hstate : (at' [] [] [1]).driver.state = .running := h.state
  have hsettle := @step_settle_quiet plainEnv (at' [] [] [1]) hphase hcredit
    (by simp [Driver.readyToClose, hstate]) (by simp [hstate])
    (.inl (not_due ⟨hbelow.bytesRx, hbelow.bytesTx, hbelow.seqRx, hbelow.seqTx,
      hbelow.thresholds⟩ hk))
  have hcounted : Config.step plainEnv
      ⟨(at' [] [] [1]).atTick ((at' [] [] [1]).session.tick + 1), .waiting⟩ (.event .credit) =
      some ⟨w.counted (w.session.tick + 1), .flush⟩ := by
    have henabled : ((at' [] [] [1]).atTick ((at' [] [] [1]).session.tick + 1)).enabled .credit =
        true := by
      simp [at', World.enabled, World.atTick, World.observe, World.mapDriver, hcounts, child]
    simp only [Config.step, henabled, if_true]
    rfl
  simp only [run, step_flush_quiet hphase houtput, Option.bind_some, hhandoff, htake, hwrite,
    hsettle, hcounted]

/-! ### The cycle -/

theorem Drinking.rekey (h : Drinking k w) (hk : k + 9 < 1024 * 1024 * 1024) :
    ∃ w', run (Config.step plainEnv) ⟨w, .flush⟩ exchangeTurns = some ⟨w', .flush⟩ ∧
      Drinking 0 w' ∧ w'.driver.creditPending < creditBatch := by
  obtain ⟨w₁, hrest, h₁, hcredit⟩ := h.rests hk
  obtain ⟨s, hrun, hidle, hbelow, -⟩ := run_exchange hrest h₁.phase (.inr h₁.drinks.stdin)
    h₁.drinks.deferred h₁.below.thresholds
  exact ⟨_, hrun, ⟨h₁.drinks, hidle, hbelow⟩, hcredit⟩

/-- A byte arrives, is written to the child and counted. -/
theorem Drinking.byte (h : Drinking k w) (hcredit : w.driver.creditPending < creditBatch)
    (hk : k + 10 < 1024 * 1024 * 1024) :
    ∃ w', run (Config.step plainEnv) ⟨w, .flush⟩ (packetTurn (channelData [0]) ++
      [.phase, .phase, .pump .take, .pump (.write 1), .phase, .event .credit]) =
        some ⟨w', .flush⟩ ∧ Drinking (k + 10) w' := by
  have hlimits : creditBatch < initialWindow := by decide
  have hwindow := h.drinks.window
  let w₁ := (w.atTick (w.session.tick + 1)).arrived (channelData [0])
  have hbyte := @handle_byte w₁ plainEnv
    ⟨h.drinks.state, h.drinks.child, h.drinks.stdin, h.drinks.output, hwindow, h.drinks.credit,
      h.drinks.deferred, h.drinks.counts, h.drinks.command⟩ (by
        change 0 < w.driver.inWindow
        omega)
  let w₂ := ((w₁.observe (.handled (channelData [0]))).observe (.accepted [0])).mapDriver
    fun d => { d with inWindow := d.inWindow - 1, pendingStdin := some [0] }
  have harrives := turn_packet (h.resting hcredit) (.inl (not_due h.below (by omega))) (by decide)
    hbyte
  have hlen : (channelData [0]).length = 10 := rfl
  have hbelow₁ := (h.below.atTick (w.session.tick + 1)).arrived (p := channelData [0]) (by decide)
  rw [hlen] at hbelow₁
  have hbelow₂ : w₂.Below (k + 10) :=
    ⟨hbelow₁.bytesRx, hbelow₁.bytesTx, hbelow₁.seqRx, hbelow₁.seqTx, hbelow₁.thresholds⟩
  have hserved : w₂.driver.Served :=
    ⟨h.drinks.state, h.drinks.child, rfl, h.drinks.stdin.2⟩
  have hpump := run_pump hserved h.phase h.drinks.output hcredit hbelow₂ hk h.drinks.counts
  refine ⟨_, (run_append_of_eq harrives _).trans hpump, ?_, h.phase, ?_⟩
  · have hnext : saturatingAdd u32Max w.driver.creditPending 1 = w.driver.creditPending + 1 := by
      refine saturatingAdd_of_le ?_
      have : creditBatch < u32Max := by decide
      omega
    refine ⟨h.drinks.state, rfl, ⟨rfl, h.drinks.stdin.2⟩, h.drinks.output, ?_, ?_,
      h.drinks.deferred, h.drinks.counts, h.drinks.command⟩
    · change w.driver.inWindow - 1 + saturatingAdd u32Max w.driver.creditPending 1 = initialWindow
      rw [hnext]
      omega
    · change saturatingAdd u32Max w.driver.creditPending 1 ≤ creditBatch
      rw [hnext]
      exact hcredit
  · exact hbelow₂.counted _

/-- The cycle can be repeated for ever. -/
theorem Drinking.cycle (h : Drinking 4096 w) :
    ∃ w', run (Config.step plainEnv) ⟨w, .flush⟩ intakeCycle = some ⟨w', .flush⟩ ∧
      Drinking 4096 w' := by
  obtain ⟨w₁, hrun₁, h₁, hcredit⟩ := h.rekey (by decide)
  obtain ⟨w₂, hrun₂, h₂⟩ := h₁.byte hcredit (by decide)
  refine ⟨w₂, ?_, h₂.drinks, h₂.phase, h₂.below.mono (by decide)⟩
  rw [intakeCycle, List.append_assoc, run_append_of_eq hrun₁]
  exact hrun₂

theorem creditsSent_append (is js : List Input) :
    creditsSent (is ++ js) = creditsSent is + creditsSent js := by
  simp [creditsSent]

theorem creditsSent_repeated (n : ℕ) :
    creditsSent (List.replicate n intakeCycle).flatten = n := by
  have hone : creditsSent intakeCycle = 1 := rfl
  induction n with
  | zero => rfl
  | succ n ih =>
    rw [List.replicate_succ, List.flatten_cons, creditsSent_append, hone, ih, Nat.add_comm]

/-- A shell that has just started. -/
def readerRun : List Input :=
  packetTurn (openSession 7 1 maxPacket) ++ packetTurn (channelRequest "shell" true)

/-- The first state of the cycle, checked. -/
def checksDrinking (c : Config) : Bool :=
  (c.pc matches .flush) &&
    decide (c.world.driver.state = .running ∧
      c.world.driver.child = some (ChildIo.spawned false) ∧
      c.world.driver.pendingStdin = none ∧ c.world.driver.preExecStdin = [] ∧
      c.world.driver.clientEof = false ∧ c.world.driver.pendingOut = none ∧
      c.world.driver.inWindow + c.world.driver.creditPending = initialWindow ∧
      c.world.driver.creditPending ≤ creditBatch ∧ c.world.driver.deferred = [] ∧
      c.world.driver.consumedClosed = false ∧ c.world.driver.command.isSome = true ∧
      c.world.session.rekey.phase = .idle ∧ c.world.session.rekey.bytesRx ≤ 4096 ∧
      c.world.session.rekey.bytesTx ≤ 4096 ∧ c.world.session.seqRx ≤ 4096 ∧
      c.world.session.seqTx ≤ 4096 ∧
      c.world.session.rekey.thresholds = plainHandshake.thresholds)

theorem drinking_shell : ∃ w, Config.runs plainEnv plainHandshake readerRun = some ⟨w, .flush⟩ ∧
    Drinking 4096 w := by
  have hc : (Config.runs plainEnv plainHandshake readerRun).map checksDrinking = some true := by
    decide
  obtain ⟨⟨w, pc⟩, hrun, hc⟩ := Option.map_eq_some_iff.1 hc
  simp only [checksDrinking, Bool.and_eq_true, decide_eq_true_eq] at hc
  obtain ⟨hpc, hstate, hchild, hpending, hpre, heof, houtput, hwindow, hcredit, hdeferred, hcounts,
    hcommand, hphase, hrx, htx, hseqRx, hseqTx, hthresholds⟩ := hc
  obtain rfl : pc = .flush := by cases pc <;> first | rfl | cases hpc
  exact ⟨w, hrun, ⟨hstate, hchild, ⟨hpending, hpre, heof⟩, houtput, hwindow, hcredit, hdeferred,
    hcounts, hcommand⟩, hphase, ⟨hrx, htx, hseqRx, hseqTx, hthresholds⟩⟩

/-- A shell that reads 2^64 bytes, up to the end of the connection. -/
def intakeRun : List Input :=
  readerRun ++ ((List.replicate (2 ^ 64) intakeCycle).flatten ++
    [.phase, .phase, .phase, .event (.readFailed .ended)])

theorem creditsSent_intakeRun : creditsSent intakeRun = 2 ^ 64 := by
  have hstart : creditsSent readerRun = 0 := rfl
  have hend : creditsSent [.phase, .phase, .phase, .event (.readFailed .ended)] = 0 := rfl
  rw [intakeRun, creditsSent_append, creditsSent_append, hstart, hend, creditsSent_repeated,
    Nat.zero_add, Nat.add_zero]

/-- After 2^64 credits `exec.finished` is one byte short. -/
theorem bytes_received_saturates : ∃ c received sent,
    Config.runs plainEnv plainHandshake intakeRun = some c ∧
      .execFinished received sent ∈ c.world.session.log ∧ received ≠ creditsSent intakeRun := by
  obtain ⟨w, hstart, hw⟩ := drinking_shell
  have hcycle : ∀ n < 2 ^ 64, ∀ c : Config, c.pc = .flush ∧ Drinking 4096 c.world →
      ∃ c', run (Config.step plainEnv) c intakeCycle = some c' ∧
        c'.pc = .flush ∧ Drinking 4096 c'.world := by
    rintro n - ⟨w, pc⟩ ⟨rfl, hw⟩
    obtain ⟨w', hrun, hw'⟩ := hw.cycle
    exact ⟨_, hrun, rfl, hw'⟩
  obtain ⟨⟨w₁, pc⟩, hcycles, hpc, hw₁⟩ :=
    run_of_cycle (P := fun _ (c : Config) => c.pc = .flush ∧ Drinking 4096 c.world) hcycle
      (s := ⟨w, .flush⟩) ⟨rfl, hw⟩
  obtain rfl : pc = .flush := hpc
  obtain ⟨w₂, hrest, hw₂, -⟩ := hw₁.rests (by decide)
  have hlast : run (Config.step plainEnv) ⟨w₁, .flush⟩
      [.phase, .phase, .phase, .event (.readFailed .ended)] =
        some ⟨w₂.emitFinished, .done (.error (.io .peerClosed))⟩ := run_turn hrest rfl
  have hall : Config.runs plainEnv plainHandshake intakeRun =
      some ⟨w₂.emitFinished, .done (.error (.io .peerClosed))⟩ := by
    unfold Config.runs at hstart ⊢
    rw [intakeRun, run_append_of_eq hstart, run_append_of_eq hcycles]
    exact hlast
  have hrecord : ExecRecord plainEnv _ _ w₂.emitFinished :=
    (accounted_of_run hall).audited.execRecord (squared_emitFinished w₂)
  cases hrecord with
  | unstarted hlog hchild =>
    -- The child is still there.
    have hsome : w₂.emitFinished.driver.child.isSome = true := by
      unfold World.emitFinished
      split <;> simp [World.observe, hw₂.drinks.child]
    simp [hchild] at hsome
  | finished before mid after received sent hlog hothers hidle hpty hreceived =>
    refine ⟨_, received, sent, hall, by rw [hlog]; simp, ?_⟩
    rw [hreceived, creditsSent_intakeRun]
    decide

end QuantumSsh.Channel
