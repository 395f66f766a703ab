import QuantumSsh.Channel.Output
import QuantumSsh.Channel.Exchange

/-!
# Output without end

A child that writes byte after byte, to a client that returns the window and
re-keys after each. No threshold is ever reached, and the counter of the bytes sent
comes to its end.
-/

namespace QuantumSsh.Channel

open Wire Kex Machine Program Transport

/-! ### The client and the child -/

/-- A byte of output. -/
def oneByte : Chunk := ⟨[0], by decide⟩

/-- The window returned for it. -/
def adjustOne : Bytes := buildWindowAdjust localChannel 1

/-- A byte is written, sent and made up for, and the keys are exchanged. -/
def streamCycle : List Input :=
  [.phase, .phase, .phase, .event (.output (some (.out .stdout oneByte)))] ++
    packetTurn adjustOne ++ packetTurn (clientKexinit kexAlgorithm false) ++
    packetTurn hybridInit ++ packetTurn [sshMsgNewkeys]

/-- The channel has a child that may write. -/
structure Driver.Streams (d : Driver) : Prop where
  state : d.state = .running
  early : d.earlyClose = false
  child : d.child.any (fun c => !c.outEnded) = true
  stdin : d.pendingStdin = none ∧ d.preExecStdin = [] ∧ d.clientEof = false
  credit : d.creditPending = 0
  maxPkt : 0 < d.outMaxPkt
  deferred : d.deferred = []

/-- So many bytes of output were sent, and the client has not closed. -/
structure Tally (n : ℕ) (log : List Obs) : Prop where
  sent : (sentOutput log).length = n
  polite : ∀ p, .handled p ∈ log → p.head? ≠ some sshMsgChannelClose

theorem Tally.grows {n : ℕ} {msgs : List UInt8} {log log' : List Obs} (h : Tally n log)
    (hgrows : Grows (utters msgs) log log') (hmsgs : ∀ msg ∈ msgs, msg ∉ outletMessages) :
    Tally n log' := by
  refine ⟨?_, fun p hp => ?_⟩
  · rw [(aside_of_utters hmsgs hgrows).aside.2.2.1]
    exact h.sent
  · obtain ⟨es, rfl, hes⟩ := hgrows
    obtain hp | hp := List.mem_append.1 hp
    · exact h.polite p hp
    · cases hes _ hp

theorem Tally.one {n : ℕ} {log : List Obs} (h : Tally n log) {e : Obs}
    (haside : sentOutput [e] = []) (he : ∀ p, e = .handled p → p.head? ≠ some sshMsgChannelClose) :
    Tally n (log ++ [e]) := by
  refine ⟨by rw [sentOutput_append, haside, List.append_nil]; exact h.sent, fun p hp => ?_⟩
  obtain hp | hp := List.mem_append.1 hp
  · exact h.polite p hp
  · exact he p (List.mem_singleton.1 hp).symm

theorem Tally.data {n : ℕ} {log : List Obs} (h : Tally n log) {f : Frame} {kind : Stream}
    {data : Bytes} (hf : dataOf f.payload = some (kind, data)) :
    Tally (n + data.length) (log ++ [.sealed f]) := by
  refine ⟨?_, fun p hp => h.polite p (by simpa using hp)⟩
  rw [sentOutput_sealed hf, List.length_append, h.sent, tagged, List.length_map]

variable {w w' : World}

theorem Tally.exchange {n : ℕ} {log : List Obs} (h : Tally n log) {e : Obs}
    (he : ofExchange e = true) : Tally n (log ++ [e]) := by
  cases hutters : utters kexMessages e with
  | true =>
    have hgrows : Grows (utters kexMessages) log (log ++ [e]) := .one hutters rfl
    exact h.grows hgrows (by decide)
  | false =>
    cases e with
    | received p => exact @Tally.one n _ h (.received p) rfl (by simp)
    | _ => simp [ofExchange, hutters] at he

theorem Driver.Streams.fed {d : Driver} (h : d.Streams) : d.Fed := .inr h.stdin

theorem Driver.Streams.resting (h : w.driver.Streams) (hphase : w.session.rekey.phase = .idle)
    (hnone : w.driver.pendingOut = none) : Resting w :=
  ⟨hphase, hnone, h.fed, by rw [h.credit]; decide, by simp [Driver.readyToClose, h.state],
    by simp [h.state]⟩

/-! ### One packet of output -/

theorem step_chunk {env : Env} {kind : Stream} {data : Chunk} (h : w.driver.Streams)
    (hphase : w.session.rekey.phase = .idle) (hnone : w.driver.pendingOut = none) :
    Config.step env ⟨w, .waiting⟩ (.event (.output (some (.out kind data)))) =
      some ⟨(w.observe (.output kind data.1)).mapDriver fun d => { d with
        pendingOut := some (PendingOut.new kind data) }, .flush⟩ := by
  have henabled : w.enabled (.output (some (.out kind data))) = true := by
    simp [World.enabled, hnone, h.state, ChannelState.mayEmitOutput, Session.rekeyActive, hphase,
      h.child]
  simp [Config.step, henabled, onEvent, onOutput, resume, bind, Prog.bind, look, h.early, note,
    updateDriver, update]

/-- The connection after the pending byte was sent. -/
def World.byteSent (w : World) (p : PendingOut) : World :=
  (w.written (w.dataFrame p 1)).mapDriver fun d => { d with
    outWindow := d.outWindow - 1
    bytesSent := saturatingAdd u64Max d.bytesSent 1
    pendingOut := none }

theorem flushOutput_byte {env : Env} (henv : Willing env) {p : PendingOut} (h : w.driver.Streams)
    (hpending : w.driver.pendingOut = some p) (hlen : p.buf.1.length = 1) (hoff : p.off = 0)
    (hwindow : 0 < w.driver.outWindow) : flushOutput env w = (.ok (), w.byteSent p) := by
  have hmaxPkt := h.maxPkt
  have hremaining : p.remaining = 1 := by simp [PendingOut.remaining, hlen, hoff]
  have hn : min 1 (min (min w.driver.outWindow w.driver.outMaxPkt) maxPacket) = 1 := by
    rw [maxPacket]
    omega
  have hempty : (p.advance 1).isEmpty = true := by
    simp [PendingOut.isEmpty, PendingOut.advance, hlen, hoff]
  have hmay : w.driver.state.mayEmitOutput = true := by simp [h.state, ChannelState.mayEmitOutput]
  refine eq_of_ensures ?_
  simp only [flushOutput, ensures_bind, ensures_look, hpending, Option.map_some, Option.getD_some,
    hremaining, flushLoop, hmay, Bool.not_true]
  rw [if_neg (by simp), if_neg hwindow.ne']
  rw [hn, if_neg (by simp)]
  simp only [ensures_bind, updateDriver_ensures, ensures_write henv, hempty, if_true]
  exact ⟨trivial, rfl⟩

/-- The turn that sends the byte. -/
theorem turn_byte {p : PendingOut} {k : ℕ} (h : w.driver.Streams)
    (hphase : w.session.rekey.phase = .idle) (hpending : w.driver.pendingOut = some p)
    (hlen : p.buf.1.length = 1) (hoff : p.off = 0) (hwindow : 0 < w.driver.outWindow)
    (hbelow : (w.byteSent p).Below k) (hk : k < 1024 * 1024 * 1024) :
    run (Config.step plainEnv) ⟨w, .flush⟩ [.phase, .phase, .phase] =
      some ⟨(w.byteSent p).atTick (w.session.tick + 2), .waiting⟩ := by
  have hflush : Config.step plainEnv ⟨w, .flush⟩ .phase = some ⟨w.byteSent p, .handoff⟩ := by
    simp [Config.step, resume, flushPhase, Session.rekeyActive, hphase,
      flushOutput_byte willing_plainEnv h hpending hlen hoff hwindow, bind, Prog.bind, look]
  have hsent : (w.byteSent p).driver.Streams :=
    ⟨h.state, h.early, h.child, h.stdin, h.credit, h.maxPkt, h.deferred⟩
  have hidle : flushOutput plainEnv (w.byteSent p) = (.ok (), w.byteSent p) := rfl
  have hrest := turn_resting (hsent.resting hphase rfl) (.inl (not_due hbelow hk))
  have hflush' : Config.step plainEnv ⟨w.byteSent p, .flush⟩ .phase =
      some ⟨w.byteSent p, .handoff⟩ := by
    have hphase' : (w.byteSent p).session.rekey.phase = .idle := hphase
    simp [Config.step, resume, flushPhase, Session.rekeyActive, hphase', hidle, bind, Prog.bind,
      look]
  simp only [run, hflush', Option.bind_some] at hrest
  simp only [run, hflush, Option.bind_some]
  exact hrest

theorem handle_adjustOne {env : Env} (hstate : w.driver.state = .running)
    (hwindow : w.driver.outWindow < u32Max) :
    handleInbound env adjustOne w =
      (.ok (), (w.observe (.handled adjustOne)).mapDriver fun d => { d with
        outWindow := d.outWindow + 1 }) := by
  have hread : readWindowAdjust.run (putUint32 localChannel ++ (putUint32 1 ++ [])) =
      .ok ((localChannel, 1), []) := by
    refine Reader.run_bind_ok.2 ⟨_, _, Reader.uint32_putUint32 (by decide) _, ?_⟩
    exact Reader.run_bind_ok.2 ⟨_, _, Reader.uint32_putUint32 (by decide) _, rfl⟩
  have hsplit : adjustOne =
      sshMsgChannelWindowAdjust :: (putUint32 localChannel ++ (putUint32 1 ++ [])) := by
    simp [adjustOne, buildWindowAdjust]
  refine eq_of_ensures ?_
  simp only [hsplit, handleInbound, dispatch, ensures_bind, note_ensures, ensures_look]
  rw [if_neg (by decide), if_neg (by simp [hstate]), if_neg (by decide), if_neg (by decide),
    if_pos trivial]
  simp only [onWindowAdjust, hread]
  rw [if_neg (by simp)]
  simp only [ensures_bind, updateDriver_ensures, ensures_look]
  rw [if_neg (by simp [World.mapDriver, World.observe]; omega)]
  exact ⟨trivial, rfl⟩

/-! ### The cycle -/

/-- At the start of a turn, with `n` bytes sent and the counters below `k`. -/
structure Streaming (k n : ℕ) (w : World) : Prop where
  streams : w.driver.Streams
  phase : w.session.rekey.phase = .idle
  idle : w.driver.pendingOut = none
  window : w.driver.outWindow = 1
  below : w.Below k
  tally : Tally n w.session.log

theorem Streaming.rests {k n : ℕ} (h : Streaming k n w) (hk : k < 1024 * 1024 * 1024) :
    run (Config.step plainEnv) ⟨w, .flush⟩ [.phase, .phase, .phase] =
      some ⟨w.atTick (w.session.tick + 1), .waiting⟩ :=
  turn_resting (h.streams.resting h.phase h.idle) (.inl (not_due h.below hk))

/-- A byte is written by the child, sent, and made up for by the client. -/
theorem Streaming.byte {k n : ℕ} (h : Streaming k n w) (hk : k + 16 < 1024 * 1024 * 1024) :
    ∃ w', run (Config.step plainEnv) ⟨w, .flush⟩
      ([.phase, .phase, .phase, .event (.output (some (.out .stdout oneByte)))] ++
        packetTurn adjustOne) = some ⟨w', .flush⟩ ∧ Streaming (k + 16) (n + 1) w' := by
  -- The child writes a byte, and the loop takes it up.
  have hchunk := @step_chunk (w.atTick (w.session.tick + 1)) plainEnv .stdout oneByte h.streams
    h.phase h.idle
  let w₁ := ((w.atTick (w.session.tick + 1)).observe (.output .stdout oneByte.1)).mapDriver
    fun d => { d with pendingOut := some (PendingOut.new .stdout oneByte) }
  have hstreams₁ : w₁.driver.Streams := ⟨h.streams.state, h.streams.early, h.streams.child,
    h.streams.stdin, h.streams.credit, h.streams.maxPkt, h.streams.deferred⟩
  have hlen : (w₁.dataFrame (PendingOut.new .stdout oneByte) 1).length = 10 := rfl
  have hbelow : (w₁.byteSent (PendingOut.new .stdout oneByte)).Below (k + 10) := by
    refine ⟨h.below.bytesRx.trans (by omega), ?_, h.below.seqRx.trans (by omega), ?_,
      h.below.thresholds⟩
    · refine (saturatingAdd_le _ _ _).trans ?_
      rw [hlen]
      exact Nat.add_le_add_right h.below.bytesTx 10
    · refine (wrappingAdd_le _ _ _).trans ?_
      have hseq := h.below.seqTx
      change w.session.seqTx + 1 ≤ _
      omega
  -- The window has room for this one byte, which is sent at once.
  have hwindow : 0 < w₁.driver.outWindow := by
    change 0 < w.driver.outWindow
    rw [h.window]
    decide
  have hbyte := turn_byte hstreams₁ h.phase rfl rfl rfl hwindow hbelow (by omega)
  let w₂ := (w₁.byteSent (PendingOut.new .stdout oneByte)).atTick (w₁.session.tick + 2)
  -- The client makes up for it.
  have hadjust := @handle_adjustOne (w₂.arrived adjustOne) plainEnv h.streams.state (by
    change w.driver.outWindow - 1 < u32Max
    rw [h.window]
    decide)
  let w₃ := ((w₂.arrived adjustOne).observe (.handled adjustOne)).mapDriver fun d => { d with
    outWindow := d.outWindow + 1 }
  have hpacket : Config.step plainEnv ⟨w₂, .waiting⟩ (.event (.packet adjustOne)) =
      some ⟨w₃, .flush⟩ := by
    rw [step_packet (w := w₂) h.phase (by decide), resume, hadjust]
  refine ⟨w₃, ?_, ⟨h.streams.state, h.streams.early, h.streams.child, h.streams.stdin,
    h.streams.credit, h.streams.maxPkt, h.streams.deferred⟩, h.phase, rfl, ?_, ?_, ?_⟩
  · rw [run_append_of_eq (run_turn (h.rests (by omega)) hchunk)]
    exact run_turn hbyte hpacket
  · change w.driver.outWindow - 1 + 1 = 1
    rw [h.window]
  · have hlen' : adjustOne.length = 9 := rfl
    refine ⟨?_, hbelow.bytesTx.trans (by omega), ?_, hbelow.seqTx.trans (by omega),
      hbelow.thresholds⟩
    · refine (saturatingAdd_le _ _ _).trans ?_
      have hrx := h.below.bytesRx
      rw [hlen']
      change w.session.rekey.bytesRx + 9 ≤ _
      omega
    · refine (wrappingAdd_le _ _ _).trans ?_
      have hrx := h.below.seqRx
      change w.session.seqRx + 1 ≤ _
      omega
  · have hout := @Tally.one n _ h.tally (.output .stdout oneByte.1) rfl (by simp)
    have hdata : dataOf (w₁.session.frame (w₁.dataFrame (PendingOut.new .stdout oneByte) 1)).payload =
        some (.stdout, [0]) :=
      @dataOf_buildDataFrame w₁.driver.peerChan .stdout [0] (by decide)
    have hsent := hout.data hdata
    have hreceived := @Tally.one (n + 1) _ hsent (.received adjustOne) rfl (by simp)
    have hhandled := @Tally.one (n + 1) _ hreceived (.handled adjustOne) rfl (by
      rintro p ⟨⟩
      decide)
    exact hhandled

/-- The keys are exchanged, and the counters start again. -/
theorem Streaming.rekey {k n : ℕ} (h : Streaming k n w) (hk : k < 1024 * 1024 * 1024) :
    ∃ w', run (Config.step plainEnv) ⟨w, .flush⟩ exchangeTurns = some ⟨w', .flush⟩ ∧
      Streaming 0 n w' := by
  obtain ⟨s, hrun, hidle, hbelow, hlog⟩ := run_exchange (h.rests hk) h.phase h.streams.fed
    h.streams.deferred h.below.thresholds
  refine ⟨_, hrun, h.streams, hidle, h.idle, h.window, hbelow, ?_⟩
  exact hlog.keeps (fun log e he hlog => hlog.exchange he) h.tally

/-- The cycle can be repeated for ever. -/
theorem Streaming.cycle {n : ℕ} (h : Streaming 4096 n w) :
    ∃ w', run (Config.step plainEnv) ⟨w, .flush⟩ streamCycle = some ⟨w', .flush⟩ ∧
      Streaming 4096 (n + 1) w' := by
  obtain ⟨w₁, hrun₁, h₁⟩ := h.byte (by decide)
  obtain ⟨w₂, hrun₂, h₂⟩ := h₁.rekey (by decide)
  refine ⟨w₂, ?_, h₂.streams, h₂.phase, h₂.idle, h₂.window, ?_, h₂.tally⟩
  · have hsplit : streamCycle = ([.phase, .phase, .phase,
        .event (.output (some (.out .stdout oneByte)))] ++ packetTurn adjustOne) ++
        exchangeTurns := by
      simp only [streamCycle, exchangeTurns, List.append_assoc]
    rw [hsplit, run_append_of_eq hrun₁]
    exact hrun₂
  · exact h₂.below.mono (Nat.zero_le _)

/-- A shell that has just started, with room for one byte. -/
def shellRun : List Input :=
  packetTurn (openSession 7 1 maxPacket) ++ packetTurn (channelRequest "shell" true)

/-- The first state of the cycle, checked. -/
def checksStreaming (c : Config) : Bool :=
  (c.pc matches .flush) && isPolite c.world.session.log && (sentOutput c.world.session.log).isEmpty &&
    decide (c.world.driver.state = .running ∧ c.world.driver.earlyClose = false ∧
      c.world.driver.child.any (fun child => !child.outEnded) = true ∧
      c.world.driver.pendingStdin = none ∧ c.world.driver.preExecStdin = [] ∧
      c.world.driver.clientEof = false ∧ c.world.driver.creditPending = 0 ∧
      0 < c.world.driver.outMaxPkt ∧ c.world.driver.deferred = [] ∧
      c.world.session.rekey.phase = .idle ∧ c.world.driver.pendingOut = none ∧
      c.world.driver.outWindow = 1 ∧ c.world.session.rekey.bytesRx ≤ 4096 ∧
      c.world.session.rekey.bytesTx ≤ 4096 ∧ c.world.session.seqRx ≤ 4096 ∧
      c.world.session.seqTx ≤ 4096 ∧
      c.world.session.rekey.thresholds = plainHandshake.thresholds)

theorem streaming_shell : ∃ w, Config.runs plainEnv plainHandshake shellRun = some ⟨w, .flush⟩ ∧
    Streaming 4096 0 w := by
  have hc : (Config.runs plainEnv plainHandshake shellRun).map checksStreaming = some true := by
    decide
  obtain ⟨⟨w, pc⟩, hrun, hc⟩ := Option.map_eq_some_iff.1 hc
  simp only [checksStreaming, Bool.and_eq_true, decide_eq_true_eq] at hc
  obtain ⟨⟨⟨hpc, hpolite⟩, hsent⟩, hstate, hearly, hchild, hpending, hpre, heof, hcredit, hmax,
    hdeferred, hphase, hnone, hwindow, hrx, htx, hseqRx, hseqTx, hthresholds⟩ := hc
  obtain rfl : pc = .flush := by cases pc <;> first | rfl | cases hpc
  refine ⟨w, hrun, ⟨hstate, hearly, hchild, ⟨hpending, hpre, heof⟩, hcredit, hmax, hdeferred⟩,
    hphase, hnone, hwindow, ⟨hrx, htx, hseqRx, hseqTx, hthresholds⟩, ?_, fun p hp => ?_⟩
  · rw [List.isEmpty_iff.1 hsent]
    rfl
  · simpa using List.all_eq_true.1 hpolite _ hp

/-- After 2^64 bytes the counter is one short. -/
theorem bytes_sent_saturates : ∃ c, Config.runs plainEnv plainHandshake
    (shellRun ++ (List.replicate (2 ^ 64) streamCycle).flatten) = some c ∧ c.sound ∧
    ¬ClosesFirst c.world.session.log ∧
    c.world.driver.bytesSent ≠ (sentOutput c.world.session.log).length := by
  obtain ⟨w, hrun, hw⟩ := streaming_shell
  have hcycle : ∀ n < 2 ^ 64, ∀ c : Config, c.pc = .flush ∧ Streaming 4096 n c.world →
      ∃ c', run (Config.step plainEnv) c streamCycle = some c' ∧
        c'.pc = .flush ∧ Streaming 4096 (n + 1) c'.world := by
    rintro n - ⟨w, pc⟩ ⟨rfl, hw⟩
    obtain ⟨w', hrun, hw'⟩ := hw.cycle
    exact ⟨_, hrun, rfl, hw'⟩
  obtain ⟨c, hrun', hpc, hc⟩ :=
    run_of_cycle (P := fun n (c : Config) => c.pc = .flush ∧ Streaming 4096 n c.world) hcycle
      (s := ⟨w, .flush⟩) ⟨rfl, hw⟩
  have hall : Config.runs plainEnv plainHandshake
      (shellRun ++ (List.replicate (2 ^ 64) streamCycle).flatten) = some c := by
    unfold Config.runs at hrun ⊢
    rw [run_append_of_eq hrun]
    exact hrun'
  have hsound : c.sound := by simp [Config.sound, hpc]
  have hfirst : ¬ClosesFirst c.world.session.log := by
    rintro ⟨before, p, after, hlog, hp, -⟩
    exact hc.tally.polite p (by rw [hlog]; simp) hp
  refine ⟨c, hall, hsound, hfirst, ?_⟩
  rw [(emits_of_run hall hsound hfirst).count, hc.tally.sent]
  decide

end QuantumSsh.Channel
