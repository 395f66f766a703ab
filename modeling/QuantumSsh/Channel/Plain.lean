import QuantumSsh.Channel.Turns

/-!
# Turns where every write succeeds

Where every packet can be sealed and written, the programs of the driver
compute, and a run can be followed packet by packet.
-/

namespace QuantumSsh.Channel

open Wire Kex Machine Program Transport

/-- Every packet can be sealed and written, and the random source answers. -/
structure Willing (env : Env) : Prop where
  writes : ∀ tick, env.sealOk tick = true ∧ env.writeOk tick = true
  draws : ∀ tick length, (env.random tick length).isSome = true

/-- The connection after a packet was written. -/
def World.written (w : World) (q : Bytes) : World :=
  w.sent (w.session.tick + 1) (saturatingAdd u64Max w.session.rekey.bytesTx q.length) q

variable {env : Env} {w : World}

@[simp] theorem observe_driver (w : World) (obs : Obs) : (w.observe obs).driver = w.driver := rfl

@[simp] theorem written_driver (w : World) (q : Bytes) : (w.written q).driver = w.driver := rfl

@[simp] theorem atTick_driver (w : World) (tick : ℕ) : (w.atTick tick).driver = w.driver := rfl

@[simp] theorem arrived_driver (w : World) (p : Bytes) : (w.arrived p).driver = w.driver := rfl

@[simp] theorem mapDriver_driver (w : World) (f : Driver → Driver) :
    (w.mapDriver f).driver = f w.driver := rfl

theorem ensures_writePacket (henv : Willing env) {s : Session} {q : Bytes}
    {ok : Unit → Session → Prop} {err : TransportError → Session → Prop} :
    (writePacket env q).Ensures s ok err ↔
      ok () (s.sent (s.tick + 1) (saturatingAdd u64Max s.rekey.bytesTx q.length) q) := by
  obtain ⟨hseal, hwrite⟩ := henv.writes s.tick
  simp [writePacket, writeSealed, hseal, hwrite, Session.sent, Session.observe, Session.frame]

theorem ensures_write (henv : Willing env) {q : Bytes} {ok : Unit → World → Prop}
    {err : TransportError → World → Prop} :
    (write env q).Ensures w ok err ↔ ok () (w.written q) := by
  rw [write, onSession, ensures_zoom, ensures_writePacket henv]
  rfl

/-- There is no input to hand off to the child. -/
def Driver.Fed (d : Driver) : Prop :=
  d.child = none ∨ d.pendingStdin = none ∧ d.preExecStdin = [] ∧ d.clientEof = false

/-- Nothing is in flight: no re-key, no output, no input. -/
structure Resting (w : World) : Prop where
  phase : w.session.rekey.phase = .idle
  pendingOut : w.driver.pendingOut = none
  fed : w.driver.Fed
  credit : w.driver.creditPending < creditBatch
  notReady : w.driver.readyToClose = false
  notClosed : w.driver.state ≠ .closed

/-- No re-key is due below every threshold. -/
theorem rekeyDue_eq_false {s : Session} {now : ℕ}
    (hrx : s.rekey.bytesRx < s.rekey.thresholds.maxBytes)
    (htx : s.rekey.bytesTx < s.rekey.thresholds.maxBytes)
    (hpackets : s.seqRx < s.rekey.thresholds.maxPackets ∧
      s.seqTx < s.rekey.thresholds.maxPackets)
    (htime : now - s.rekey.lastKex < s.rekey.thresholds.maxInterval) :
    s.rekeyDue now = false := by
  simp [Session.rekeyDue, thresholdsReached, hrx, htx, hpackets, htime]

/-- With no output pending, the flush does nothing. -/
theorem step_flush_quiet (hphase : w.session.rekey.phase = .idle)
    (hpending : w.driver.pendingOut = none) :
    Config.step env ⟨w, .flush⟩ .phase = some ⟨w, .handoff⟩ := by
  simp [Config.step, resume, flushPhase, Session.rekeyActive, hphase, flushOutput, hpending,
    flushLoop, bind, Prog.bind, look, pure]

theorem step_handoff_fed (h : w.driver.Fed) :
    Config.step env ⟨w, .handoff⟩ .phase = some ⟨w, .settle⟩ := by
  have hrun : handoffStdin w = (.ok (), w) := by
    refine eq_of_ensures ?_
    simp only [handoffStdin, ensures_bind, ensures_look]
    split
    next => exact ⟨trivial, rfl⟩
    next child hchild =>
      obtain h | ⟨hpending, hpre, heof⟩ := h
      · simp [h] at hchild
      · have hsame : (w.mapDriver fun d => { d with pendingStdin := none, preExecStdin := [] }) = w := by
          simp only [World.mapDriver, ← hpending, ← hpre]
        simp [Driver.refill, hpending, hpre, hsame, handoffStdin.closeOnEof, hchild, heof]
  simp [Config.step, resume, hrun]

/-- A turn inside a re-key does nothing. -/
theorem turn_busy (hactive : w.session.rekeyActive = true) (hfed : w.driver.Fed) :
    run (Config.step env) ⟨w, .flush⟩ [.phase, .phase, .phase] = some ⟨w, .waiting⟩ := by
  have hflush : Config.step env ⟨w, .flush⟩ .phase = some ⟨w, .handoff⟩ := by
    simp [Config.step, resume, flushPhase, hactive, bind, Prog.bind, look, pure]
  have hsettle : Config.step env ⟨w, .settle⟩ .phase = some ⟨w, .waiting⟩ := by
    simp [Config.step, resume, settlePhase, hactive, bind, Prog.bind, look, pure]
  simp [run, hflush, step_handoff_fed hfed, hsettle]

/-- With nothing to send, the closing work only looks at the clock. -/
theorem step_settle_quiet (hphase : w.session.rekey.phase = .idle)
    (hcredit : w.driver.creditPending < creditBatch) (hready : w.driver.readyToClose = false)
    (hclosed : w.driver.state ≠ .closed)
    (hdue : w.session.rekeyDue (env.now w.session.tick) = false ∨
      w.driver.state.mayRekey = false) :
    Config.step env ⟨w, .settle⟩ .phase = some ⟨w.atTick (w.session.tick + 1), .waiting⟩ := by
  have hcredit' : ¬creditBatch ≤ w.driver.creditPending := by omega
  have hdue' : ¬(({ w.session with tick := w.session.tick + 1 } : Session).rekeyDue
      (env.now w.session.tick) = true ∧ w.driver.state.mayRekey = true) := by
    rintro ⟨hd, hs⟩
    obtain h | h := hdue
    · exact absurd hd (by simpa [Session.rekeyDue] using h)
    · simp [h] at hs
  simp [Config.step, resume, settlePhase, Session.rekeyActive, hphase, replenishWindow, hcredit',
    rekeyIfDue, onSession, zoom, ask, update, bind, Prog.bind, look, pure, hdue', closeIfReady,
    hready, hclosed, World.atTick]

/-- A turn at rest only looks at the clock. -/
theorem turn_resting (h : Resting w) (hdue : w.session.rekeyDue (env.now w.session.tick) = false ∨
      w.driver.state.mayRekey = false) :
    run (Config.step env) ⟨w, .flush⟩ [.phase, .phase, .phase] =
      some ⟨w.atTick (w.session.tick + 1), .waiting⟩ := by
  obtain ⟨hphase, hpending, hfed, hcredit, hready, hclosed⟩ := h
  have hflush : Config.step env ⟨w, .flush⟩ .phase = some ⟨w, .handoff⟩ :=
    step_flush_quiet hphase hpending
  have hhandoff : Config.step env ⟨w, .handoff⟩ .phase = some ⟨w, .settle⟩ := step_handoff_fed hfed
  have hsettle : Config.step env ⟨w, .settle⟩ .phase =
      some ⟨w.atTick (w.session.tick + 1), .waiting⟩ :=
    step_settle_quiet hphase hcredit hready hclosed hdue
  simp [run, hflush, hhandoff, hsettle]

theorem step_packet {p : Bytes} (hphase : w.session.rekey.phase = .idle)
    (hmsg : p.head? ≠ some sshMsgKexinit) :
    Config.step env ⟨w, .waiting⟩ (.event (.packet p)) =
      some (resume (handleInbound env p) (w.arrived p) fun _ w' => ⟨w', .flush⟩) := by
  have hactive : (w.arrived p).session.rekeyActive = false := by
    simp [Session.rekeyActive, World.arrived, Session.observe, Session.receive, hphase]
  have harrived : World.observe { w with session := w.session.receive p } (.received p) =
      w.arrived p := rfl
  simp [Config.step, World.enabled, onEvent, onPacket, resume, bind, Prog.bind, look, update, note,
    harrived, hactive, hmsg]

/-- The inputs of a turn that ends with a packet. -/
def packetTurn (p : Bytes) : List Input := [.phase, .phase, .phase, .event (.packet p)]

/-- A message that arrives at rest is handled at once. -/
theorem turn_packet {p : Bytes} {w' : World} (h : Resting w)
    (hdue : w.session.rekeyDue (env.now w.session.tick) = false ∨ w.driver.state.mayRekey = false)
    (hmsg : p.head? ≠ some sshMsgKexinit)
    (hhandle : handleInbound env p ((w.atTick (w.session.tick + 1)).arrived p) = (.ok (), w')) :
    run (Config.step env) ⟨w, .flush⟩ (packetTurn p) = some ⟨w', .flush⟩ := by
  have hpacket : Config.step env ⟨w.atTick (w.session.tick + 1), .waiting⟩ (.event (.packet p)) =
      some ⟨w', .flush⟩ := by
    rw [step_packet (w := w.atTick (w.session.tick + 1)) h.phase hmsg]
    simp [resume, hhandle]
  have hsplit : packetTurn p = [.phase, .phase, .phase] ++ [.event (.packet p)] := rfl
  rw [hsplit, run_append, turn_resting h hdue]
  simp [run, hpacket]

/-- The connection goes on after a packet of the key exchange that succeeds. -/
theorem step_rekeying {p : Bytes}
    (hwhen : w.session.rekeyActive = true ∨ p.head? = some sshMsgKexinit)
    (hok : (stepRekey env p).Ensures (w.arrived p).session
      (fun step _ => step = .continued) fun _ _ => False) :
    ∃ s, Config.step env ⟨w, .waiting⟩ (.event (.packet p)) =
      some ⟨{ w with session := s }, .flush⟩ ∧ Rekeys env p (w.arrived p).session .continued s := by
  have hrekeys : (stepRekey env p).Ensures (w.arrived p).session
      (fun step s => Rekeys env p (w.arrived p).session step s) fun _ _ => True :=
    stepRekey_ensures (fun _ _ h => h) fun _ _ _ => trivial
  obtain ⟨step, s, hrun, rfl, h⟩ :=
    ((hok.and hrekeys).mono (fun _ _ h => h) fun _ _ h => h.1).exists_ok
  have harrived : World.observe { w with session := w.session.receive p } (.received p) =
      w.arrived p := rfl
  have hactive : (w.arrived p).session.rekeyActive = w.session.rekeyActive := rfl
  refine ⟨s, ?_, h⟩
  cases hbusy : w.session.rekeyActive with
  | true =>
    simp [Config.step, World.enabled, onEvent, onPacket, resume, bind, Prog.bind, look, update,
      note, harrived, hactive, hbusy, onSession, zoom, hrun]
    rfl
  | false =>
    have hmsg : p.head? = some sshMsgKexinit := by simpa [hbusy] using hwhen
    simp [Config.step, World.enabled, onEvent, onPacket, resume, bind, Prog.bind, look, update,
      note, harrived, hactive, hbusy, onSession, zoom, hrun, hmsg]
    rfl

/-- The peer's KEXINIT outside a re-key. -/
theorem step_kexinit {p : Bytes} {n : Negotiated} (henv : Willing env)
    (hphase : w.session.rekey.phase = .idle) (hmsg : p.head? = some sshMsgKexinit)
    (hn : Negotiates p n) :
    ∃ s, Config.step env ⟨w, .waiting⟩ (.event (.packet p)) =
      some ⟨{ w with session := s }, .flush⟩ ∧ Rekeys env p (w.arrived p).session .continued s := by
  have hphase' : (w.arrived p).session.rekey.phase = .idle := hphase
  have hhead : p.head?.getD 0 = sshMsgKexinit := by rw [hmsg]; rfl
  refine step_rekeying (.inr hmsg) ?_
  simp only [stepRekey, ensures_bind, ensures_look, ensures_update, hphase']
  rw [if_neg (not_not.2 hhead)]
  simp only [ensures_bind, ask_ensures, ensures_update]
  split
  next cookie hcookie =>
    simp only [ensures_bind, ensures_writePacket henv, negotiateRekey]
    rw [hn]
    exact rfl
  next hnone =>
    obtain ⟨cookie, hcookie⟩ := Option.isSome_iff_exists.1 (henv.draws _ 16)
    exact (hnone cookie hcookie).elim

/-- The phase a KEXINIT outside a re-key leads to. -/
theorem Rekeys.awaits_of_idle {p : Bytes} {n : Negotiated} {s : Session}
    (h : Rekeys env p (w.arrived p).session .continued s)
    (hphase : w.session.rekey.phase = .idle) (hn : Negotiates p n) :
    ∃ iS, s.rekey.phase = .awaitHybridInit p iS n n.skipGuessedPacket := by
  have hidle : (w.arrived p).session.rekey.phase = .idle := hphase
  cases h with
  | opened cookie n' tick bytesTx started hphase' hmsg hn' =>
    obtain rfl : n' = n := Except.ok.inj (hn'.symm.trans hn)
    exact ⟨_, rfl⟩
  | answered iS n' tick hphase' hmsg hn' => exact absurd (hidle.symm.trans hphase') (by simp)
  | skipped iC iS n' hphase' => exact absurd (hidle.symm.trans hphase') (by simp)
  | replied iC iS n' tick₁ tick bytesTx₁ bytesTx r hphase' =>
    exact absurd (hidle.symm.trans hphase') (by simp)

/-- A turn and the event it waits for. -/
theorem run_turn {w₁ : World} {c : Config} {event : Event}
    (hrest : run (Config.step env) ⟨w, .flush⟩ [.phase, .phase, .phase] = some ⟨w₁, .waiting⟩)
    (hstep : Config.step env ⟨w₁, .waiting⟩ (.event event) = some c) :
    run (Config.step env) ⟨w, .flush⟩ [.phase, .phase, .phase, .event event] = some c := by
  have hsplit : [.phase, .phase, .phase, .event event] =
      [.phase, .phase, .phase] ++ [Input.event event] := rfl
  rw [hsplit, run_append, hrest, Option.bind_some]
  simp only [run, hstep, Option.bind_some]

/-! ### Messages of a client -/

/-- A global request. -/
def globalRequest (wantReply : Bool) : Bytes :=
  [sshMsgGlobalRequest] ++ putString (utf8 "ping") ++ putBoolean wantReply

/-- The request for a session channel. -/
def openSession (sender window maxPkt : ℕ) : Bytes :=
  [sshMsgChannelOpen] ++ putString (utf8 "session") ++ putUint32 sender ++ putUint32 window ++
    putUint32 maxPkt

/-- Channel data for the server's channel. -/
def channelData (data : Bytes) : Bytes := buildDataFrame localChannel .stdout data

/-- A request on the server's channel with no fields of its own. -/
def channelRequest (name : String) (wantReply : Bool) : Bytes :=
  [sshMsgChannelRequest] ++ putUint32 localChannel ++ putString (utf8 name) ++ putBoolean wantReply

/-- A client's KEXINIT. -/
def clientKexinit (kexList : String) (follows : Bool) : Bytes :=
  [sshMsgKexinit] ++ List.replicate 16 0 ++ putNameList kexList ++ putNameList hostKeyList ++
    putNameList encryptionList ++ putNameList encryptionList ++
    putNameList macList ++ putNameList macList ++
    putNameList compressionList ++ putNameList compressionList ++
    putNameList "" ++ putNameList "" ++ putBoolean follows ++ putUint32 0

/-- A KEX_HYBRID_INIT. -/
def hybridInit : Bytes := [sshMsgKexHybridInit] ++ putString (List.replicate clientInitLen 0)

theorem handle_globalRequest (henv : Willing env) :
    handleInbound env (globalRequest true) w =
      (.ok (), (w.observe (.handled (globalRequest true))).written [sshMsgRequestFailure]) := by
  have hread : readGlobalRequest.run (putString (utf8 "ping") ++ putBoolean true) =
      .ok (true, []) := by
    refine Reader.run_bind_ok.2 ⟨_, _, Reader.string_putString (by decide) (by decide) _, rfl⟩
  have hsplit : globalRequest true =
      sshMsgGlobalRequest :: (putString (utf8 "ping") ++ putBoolean true) := rfl
  refine eq_of_ensures ?_
  simp only [hsplit, handleInbound, dispatch, ensures_bind, note_ensures, ensures_look]
  rw [if_neg (by decide), if_neg (fun h => absurd h.1 (by decide)), if_neg (by decide),
    if_neg (by decide), if_neg (by decide), if_neg (by decide), if_neg (by decide),
    if_pos trivial]
  simp only [hread, if_true, ensures_write henv, and_self]

theorem handle_openSession (henv : Willing env) (hstate : w.driver.state = .beforeOpen)
    {sender window maxPkt : ℕ} (hsender : sender < 2 ^ 32) (hwindow : window < 2 ^ 32)
    (hmaxPkt : maxPkt < 2 ^ 32) (hpos : 0 < maxPkt) :
    handleInbound env (openSession sender window maxPkt) w =
      (.ok (), ((w.observe (.handled (openSession sender window maxPkt))).mapDriver fun d =>
        { d with peerChan := sender, outWindow := window, outMaxPkt := maxPkt
                 inWindow := initialWindow, state := .idle }).written
          (buildOpenConfirmation sender)) := by
  have hread : readChannelOpen.run (putString (utf8 "session") ++ (putUint32 sender ++
      (putUint32 window ++ (putUint32 maxPkt ++ [])))) =
      .ok ((utf8 "session", sender, window, maxPkt), []) := by
    refine Reader.run_bind_ok.2 ⟨_, _, Reader.string_putString (by decide) (by decide) _, ?_⟩
    refine Reader.run_bind_ok.2 ⟨_, _, Reader.uint32_putUint32 hsender _, ?_⟩
    refine Reader.run_bind_ok.2 ⟨_, _, Reader.uint32_putUint32 hwindow _, ?_⟩
    exact Reader.run_bind_ok.2 ⟨_, _, Reader.uint32_putUint32 hmaxPkt _, rfl⟩
  have hsplit : openSession sender window maxPkt = sshMsgChannelOpen :: (putString (utf8 "session") ++
      (putUint32 sender ++ (putUint32 window ++ (putUint32 maxPkt ++ [])))) := by
    simp [openSession]
  have hstate' : ∀ obs, (w.observe obs).driver.state = .beforeOpen := fun _ => hstate
  refine eq_of_ensures ?_
  simp only [hsplit, handleInbound, dispatch, ensures_bind, note_ensures, ensures_look]
  rw [if_pos trivial]
  simp only [onChannelOpen, hread, ensures_bind, ensures_look]
  rw [if_neg (not_not.2 (hstate' _)), if_neg (not_not.2 rfl), if_neg hpos.ne']
  simp only [ensures_bind, updateDriver_ensures, ensures_write henv, and_self]

theorem handle_channelData {data : Bytes} (hstate : w.driver.state = .idle)
    (heof : w.driver.clientEof = false) (hwindow : data.length ≤ w.driver.inWindow)
    (hlen : data.length ≤ maxPacket) :
    handleInbound env (channelData data) w =
      (.ok (), ((w.observe (.handled (channelData data))).observe (.accepted data)).mapDriver
        fun d => { d with
          inWindow := d.inWindow - data.length, preExecStdin := d.preExecStdin ++ [data] }) := by
  have hread : readChannelData.run (putUint32 localChannel ++ (putString data ++ [])) =
      .ok ((localChannel, data), []) := by
    refine Reader.run_bind_ok.2 ⟨_, _, Reader.uint32_putUint32 (by decide) _, ?_⟩
    refine Reader.run_bind_ok.2 ⟨_, _, Reader.string_putString hlen ?_ _, rfl⟩
    exact lt_of_le_of_lt hlen (by decide)
  have hsplit : channelData data =
      sshMsgChannelData :: (putUint32 localChannel ++ (putString data ++ [])) := by
    simp [channelData, buildDataFrame]
  refine eq_of_ensures ?_
  have hstate' : ∀ obs, (w.observe obs).driver.state = .idle := fun _ => hstate
  simp only [hsplit, handleInbound, dispatch, ensures_bind, note_ensures, ensures_look]
  rw [if_neg (by decide), if_neg (by simp [hstate]), if_neg (by decide), if_pos trivial]
  simp only [onChannelData, hread, ensures_bind, ensures_look]
  rw [if_neg (by simp), if_neg (by simp [hstate]), if_neg (by simp [heof]),
    if_neg (by simpa using hwindow)]
  simp only [ensures_bind, note_ensures, updateDriver_ensures]
  rw [if_pos (hstate' _)]
  exact ⟨trivial, rfl⟩

/-! ### A plain connection -/

/-- Stand-ins for the primitives: every call succeeds. -/
def plainCrypto : Crypto where
  sha256 _ := List.replicate 32 0
  sha256_length _ := List.length_replicate
  validEncapsulationKey _ := true
  encapsulate _ _ := (List.replicate mlkemCtLen 0, List.replicate 32 0)
  x25519Public secret := secret
  diffieHellman _ _ := some (List.replicate 32 0)

/-- An environment in which every call succeeds and no time passes. -/
def plainEnv : Env where
  crypto := plainCrypto
  now _ := 0
  sealOk _ := true
  writeOk _ := true
  random _ length := some (List.replicate length 0)
  hostKeyBlob := []
  sign _ _ := some []
  helper := true
  spawnOk _ := true
  allocateOk _ := true
  resizeOk _ := true

theorem willing_plainEnv : Willing plainEnv := ⟨fun _ => ⟨rfl, rfl⟩, fun _ _ => rfl⟩

/-- A session cipher of a plain connection. -/
def plainCipher : PacketCipher := ⟨chacha20Poly1305, List.replicate 64 0, []⟩

/-- A handshake with the production thresholds. -/
def plainHandshake : Handshake where
  tx := plainCipher
  rx := plainCipher
  clientId := utf8 "SSH-2.0-client"
  sessionId := List.replicate 32 0
  ptyPermitted := false
  thresholds := RekeyThresholds.bsiDefaults (30 * 1000000000)
  now := 0
  seqRx := 2
  sent := []
  sent_le := by decide
  sent_msg := by simp

end QuantumSsh.Channel
