import QuantumSsh.Transport.Rules
import QuantumSsh.Channel.Drive

/-!
# What handling a message can do

`handle_inbound` either changes the connection in one of a few ways, listed in
`Reacts`, or ends it after sealing at most one more packet. What is proved about
messages later is proved from this list.
-/

namespace QuantumSsh.Channel

open Wire Kex Machine Program Transport

/-! ### Rules for the driver's programs -/

/-- The connection at another tick. -/
def World.atTick (w : World) (tick : ℕ) : World := { w with session := { w.session with tick } }

/-- The connection after a packet was written. -/
def World.sent (w : World) (tick bytesTx : ℕ) (payload : Bytes) : World :=
  { w with session := w.session.sent tick bytesTx payload }

/-- The connection is left for good, after at most one packet that `P` admits. -/
def World.Left (w : World) (P : Bytes → Prop) (w' : World) : Prop := w.session.Left P w'.session

theorem World.Left.mono {w w' : World} {P Q : Bytes → Prop} (h : w.Left P w')
    (hPQ : ∀ payload, P payload → Q payload) : w.Left Q w' :=
  Session.Left.mono h hPQ

theorem World.Left.congr {w₁ w₂ w' : World} {P : Bytes → Prop} (h : w₁.Left P w')
    (hlog : w₁.session.log = w₂.session.log)
    (hframe : ∀ q, w₁.session.frame q = w₂.session.frame q) : w₂.Left P w' :=
  Session.Left.congr h hlog hframe

variable {env : Env} {w : World} {α : Type}

@[simp] theorem note_ensures {obs : Obs} {ok : Unit → World → Prop}
    {err : TransportError → World → Prop} :
    (note obs).Ensures w ok err ↔ ok () (w.observe obs) := Iff.rfl

@[simp] theorem updateDriver_ensures {f : Driver → Driver} {ok : Unit → World → Prop}
    {err : TransportError → World → Prop} :
    (updateDriver f).Ensures w ok err ↔ ok () (w.mapDriver f) := Iff.rfl

@[simp] theorem askDriver_ensures {f : ℕ → α} {ok : α → World → Prop}
    {err : TransportError → World → Prop} :
    (onSession (ask f)).Ensures w ok err ↔ ok (f w.session.tick) (w.atTick (w.session.tick + 1)) :=
  Iff.rfl

theorem write_ensures {payload : Bytes} {ok : Unit → World → Prop}
    {err : TransportError → World → Prop}
    (hok : ∀ tick bytesTx, ok () (w.sent tick bytesTx payload))
    (herr : ∀ e w', w.Left (fun p => p = payload) w' → err e w') :
    (write env payload).Ensures w ok err := by
  unfold write onSession
  rw [ensures_zoom]
  exact writePacket_ensures (fun tick bytesTx => hok tick bytesTx) fun _ _ h => herr _ _ h

theorem refuse_ensures {reason : Reason} {ok : α → World → Prop}
    {err : TransportError → World → Prop}
    (herr : ∀ e w', w.Left IsDisconnect w' → err e w') :
    (refuse env reason : DriverProg α).Ensures w ok err := by
  unfold refuse onSession
  rw [ensures_zoom]
  exact disconnect_ensures fun _ h => herr _ _ h

/-! ### The list -/

/-- The CHANNEL_REQUEST asks for a reply. -/
def wantsReply : Bytes → Bool
  | [] => false
  | msg :: r =>
    match readChannelRequest.run r with
    | .ok ((_, _, wantReply), _) => msg = sshMsgChannelRequest && wantReply
    | .error _ => false

/-- The message asks for a reply. -/
def asks : Bytes → Bool
  | [] => false
  | msg :: r =>
    msg = sshMsgChannelOpen || wantsReply (msg :: r) ||
      msg = sshMsgGlobalRequest && match readGlobalRequest.run r with
        | .ok (wantReply, _) => wantReply
        | .error _ => false

theorem head_of_wantsReply {p : Bytes} (h : wantsReply p = true) :
    p.head? = some sshMsgChannelRequest := by
  cases p with
  | nil => cases h
  | cons msg r =>
    simp only [wantsReply] at h
    split at h
    · simp only [Bool.and_eq_true, decide_eq_true_eq] at h
      rw [h.1]
      rfl
    · cases h

theorem head_of_asks {p : Bytes} (h : asks p = true) : p.head? = some sshMsgChannelOpen ∨
    p.head? = some sshMsgChannelRequest ∨ p.head? = some sshMsgGlobalRequest := by
  cases p with
  | nil => cases h
  | cons msg r =>
    simp only [asks, Bool.or_eq_true, Bool.and_eq_true, decide_eq_true_eq] at h
    obtain (rfl | h) | ⟨rfl, -⟩ := h
    · exact .inl rfl
    · exact .inr (.inl (head_of_wantsReply h))
    · exact .inr (.inr rfl)

theorem asks_channelOpen {p : Bytes} (h : p.head? = some sshMsgChannelOpen) : asks p = true := by
  cases p with
  | nil => cases h
  | cons msg r => simp [asks, Option.some.inj h]

theorem asks_channelRequest {p : Bytes} (h : p.head? = some sshMsgChannelRequest) :
    asks p = wantsReply p := by
  cases p with
  | nil => cases h
  | cons msg r =>
    obtain rfl : msg = sshMsgChannelRequest := Option.some.inj h
    simp [asks, sshMsgChannelRequest, sshMsgChannelOpen, sshMsgGlobalRequest]

theorem not_asks {p : Bytes} {msg : UInt8} (h : p.head? = some msg)
    (hmsg : msg ∉ [sshMsgChannelOpen, sshMsgChannelRequest, sshMsgGlobalRequest]) :
    asks p = false := by
  refine Bool.eq_false_iff.2 fun hasks => hmsg ?_
  have hhead := head_of_asks hasks
  rw [h] at hhead
  simpa using hhead

/-- The message is CHANNEL_DATA that carries `data` to the server's channel. -/
def CarriesData (p data : Bytes) : Prop :=
  ∃ r rest, p = sshMsgChannelData :: r ∧
    readChannelData.run r = .ok ((localChannel, data), rest)

/-- The window and the largest packet that a CHANNEL_OPEN announces. -/
def openOf : Bytes → Option (ℕ × ℕ)
  | [] => none
  | msg :: r =>
    match readChannelOpen.run r with
    | .ok ((_, _, window, maxPkt), _) => if msg = sshMsgChannelOpen then some (window, maxPkt) else none
    | .error _ => none

/-- The bytes that a WINDOW_ADJUST of the server's channel adds. -/
def adjustOf : Bytes → Option ℕ
  | [] => none
  | msg :: r =>
    match readWindowAdjust.run r with
    | .ok ((recipient, add), _) =>
      if msg = sshMsgChannelWindowAdjust ∧ recipient = localChannel then some add else none
    | .error _ => none

theorem head_of_openOf {p : Bytes} {asked : ℕ × ℕ} (h : openOf p = some asked) :
    p.head? = some sshMsgChannelOpen := by
  unfold openOf at h
  split at h
  next => cases h
  next msg r =>
    split at h
    next =>
      split at h
      next hmsg => rw [hmsg]; rfl
      next => cases h
    next => cases h

theorem head_of_adjustOf {p : Bytes} {add : ℕ} (h : adjustOf p = some add) :
    p.head? = some sshMsgChannelWindowAdjust := by
  unfold adjustOf at h
  split at h
  next => cases h
  next msg r =>
    split at h
    next =>
      split at h
      next hmsg => rw [hmsg.1]; rfl
      next => cases h
    next => cases h

/-- The packet `q` answers the message `p`. -/
inductive Answers (w : World) (p : Bytes) : Bytes → Prop
  | globalRequest (hmsg : p.head? = some sshMsgGlobalRequest) (hasks : asks p = true) :
      Answers w p [sshMsgRequestFailure]
  | channelOpen (sender code : ℕ) (desc : String) (hmsg : p.head? = some sshMsgChannelOpen) :
      Answers w p (buildOpenFailure sender code desc)
  | channelRequest (msg : UInt8) (hmsg : p.head? = some sshMsgChannelRequest)
      (hwants : wantsReply p = true) (hstate : w.driver.state ≠ .beforeOpen)
      (hreply : msg = sshMsgChannelSuccess ∨ msg = sshMsgChannelFailure) :
      Answers w p (buildChannelMsg msg w.driver.peerChan)

/-- The driver once `start` has begun. -/
def Driver.starting (d : Driver) (what : Start) : Driver :=
  { d with
    pty := none, command := some what.command, requestType := what.requestType
    onPty := d.pty.isSome }

/-- The driver once the child runs. -/
def Driver.spawned (d : Driver) (onPty : Bool) : Driver :=
  { d with child := some (ChildIo.spawned onPty), state := .running }

/-- The driver once the spawn failed. -/
def Driver.spawnFailed (d : Driver) : Driver :=
  { d with
    exitStatus := some exitSpawnFailed, childOutClosed := true, consumedClosed := true
    state := .draining }

/-- The two ends of `start`. -/
inductive Driver.Started (d : Driver) (onPty : Bool) : Driver → Prop
  | spawned : Driver.Started d onPty (d.spawned onPty)
  | failed : Driver.Started d onPty d.spawnFailed

/-- The driver when the client closes first. -/
def Driver.closedEarly (d : Driver) : Driver :=
  { d with
    earlyClose := true
    pendingOut := none
    child := d.child.map fun child => child.closeStdin.discardOutput.kill
    childOutClosed := if d.child.isSome then d.childOutClosed else true
    state := .draining }

/-- What `handle_inbound` does with the message `p` when it returns. -/
inductive Reacts (p : Bytes) : World → World → Prop
  | silent {w : World} (tick : ℕ) (hquiet : p.head? ≠ some sshMsgChannelWindowAdjust)
      (hasks : asks p = false) :
      Reacts p w ((w.observe (.handled p)).atTick tick)
  | answered {w : World} (q : Bytes) (tick bytesTx : ℕ) (ha : Answers w p q) :
      Reacts p w ((w.observe (.handled p)).sent tick bytesTx q)
  | ptyGranted {w : World} (term : Bytes) (tick : ℕ) (hstate : w.driver.state = .idle)
      (hmsg : p.head? = some sshMsgChannelRequest) (hasks : asks p = false) :
      Reacts p w (((w.observe (.handled p)).atTick tick).mapDriver fun d =>
        { d with pty := some term })
  | ptyAnswered {w : World} (term q : Bytes) (tick bytesTx : ℕ) (ha : Answers w p q)
      (hmsg : p.head? = some sshMsgChannelRequest) (hstate : w.driver.state = .idle) :
      Reacts p w (((w.observe (.handled p)).mapDriver fun d =>
        { d with pty := some term }).sent tick bytesTx q)
  | opened {w : World} (sender window maxPkt tick bytesTx : ℕ)
      (hmsg : p.head? = some sshMsgChannelOpen)
      (hstate : w.driver.state = .beforeOpen) (hmax : maxPkt ≠ 0) (hwindow : window < 2 ^ 32)
      (hread : openOf p = some (window, maxPkt)) :
      Reacts p w (((w.observe (.handled p)).mapDriver fun d => { d with
        peerChan := sender, outWindow := window, outMaxPkt := maxPkt
        inWindow := initialWindow, state := .idle }).sent tick bytesTx
          (buildOpenConfirmation sender))
  | started {w : World} (what : Start) (d : Driver) (tick : ℕ)
      (hstate : w.driver.state = .idle)
      (hd : (w.driver.starting what).Started w.driver.pty.isSome d)
      (hmsg : p.head? = some sshMsgChannelRequest) (hasks : asks p = false) :
      Reacts p w { (((w.observe (.handled p)).observe .execStarted).atTick tick) with driver := d }
  | startedAnswered {w : World} (what : Start) (d : Driver) (tick₁ tick bytesTx : ℕ)
      (hstate : w.driver.state = .idle)
      (hd : (w.driver.starting what).Started w.driver.pty.isSome d)
      (ha : Answers w p (buildChannelMsg sshMsgChannelSuccess w.driver.peerChan)) :
      Reacts p w { (((w.observe (.handled p)).observe .execStarted).sent tick₁ bytesTx
        (buildChannelMsg sshMsgChannelSuccess w.driver.peerChan)).atTick tick with driver := d }
  | buffered {w : World} (data : Bytes) (hmsg : p.head? = some sshMsgChannelData)
      (hstate : w.driver.state = .idle) (heof : w.driver.clientEof = false)
      (hwindow : data.length ≤ w.driver.inWindow) (hlen : data.length ≤ maxPacket)
      (hread : CarriesData p data) :
      Reacts p w (((w.observe (.handled p)).observe (.accepted data)).mapDriver fun d => { d with
        inWindow := d.inWindow - data.length, preExecStdin := d.preExecStdin ++ [data] })
  | stashed {w : World} (data : Bytes) (child : ChildIo)
      (hmsg : p.head? = some sshMsgChannelData)
      (hstate : w.driver.state ≠ .beforeOpen ∧ w.driver.state ≠ .idle ∧
        w.driver.state ≠ .serverClosed) (heof : w.driver.clientEof = false)
      (hchild : w.driver.child = some child)
      (hwindow : data.length ≤ w.driver.inWindow) (hlen : data.length ≤ maxPacket)
      (hread : CarriesData p data) :
      Reacts p w (((w.observe (.handled p)).observe (.accepted data)).mapDriver fun d => { d with
        inWindow := d.inWindow - data.length
        pendingStdin := some (d.pendingStdin.getD [] ++ data) })
  | unsunk {w : World} (data : Bytes) (hmsg : p.head? = some sshMsgChannelData)
      (hstate : w.driver.state ≠ .beforeOpen ∧ w.driver.state ≠ .idle ∧
        w.driver.state ≠ .serverClosed) (heof : w.driver.clientEof = false)
      (hchild : w.driver.child = none)
      (hwindow : data.length ≤ w.driver.inWindow) (hlen : data.length ≤ maxPacket)
      (hread : CarriesData p data) :
      Reacts p w (((w.observe (.handled p)).observe (.accepted data)).mapDriver fun d => { d with
        inWindow := d.inWindow - data.length })
  | adjusted {w : World} (add : ℕ) (hmsg : p.head? = some sshMsgChannelWindowAdjust)
      (hstate : w.driver.state ≠ .beforeOpen) (hadd : w.driver.outWindow + add ≤ u32Max)
      (hread : adjustOf p = some add) :
      Reacts p w ((w.observe (.handled p)).mapDriver fun d => { d with
        outWindow := d.outWindow + add })
  | eof {w : World} (hmsg : p.head? = some sshMsgChannelEof)
      (hstate : w.driver.state ≠ .beforeOpen) :
      Reacts p w ((w.observe (.handled p)).mapDriver fun d => { d with clientEof := true })
  | closed {w : World} (hmsg : p.head? = some sshMsgChannelClose)
      (hstate : w.driver.state = .serverClosed) :
      Reacts p w ((w.observe (.handled p)).mapDriver fun d => { d with state := .closed })
  | closedEarly {w : World} (hmsg : p.head? = some sshMsgChannelClose)
      (hstate : w.driver.state ≠ .beforeOpen ∧ w.driver.state ≠ .serverClosed) :
      Reacts p w ((w.observe (.handled p)).mapDriver Driver.closedEarly)

/-- What the handler of `p` may seal last. -/
inductive LastWord (w : World) (p : Bytes) : Bytes → Prop
  | disconnect {q : Bytes} (h : IsDisconnect q) : LastWord w p q
  | answer {q : Bytes} (h : Answers w p q) : LastWord w p q
  | confirmation (sender : ℕ) (hmsg : p.head? = some sshMsgChannelOpen)
      (hstate : w.driver.state = .beforeOpen) : LastWord w p (buildOpenConfirmation sender)

/-- How `handle_inbound` ends the connection on the message `p`. -/
inductive ReactFails (p : Bytes) (w w' : World) : Prop
  | handled (hleft : (w.observe (.handled p)).Left (LastWord w p) w')
  | started (hstate : w.driver.state = .idle)
      (hleft : ((w.observe (.handled p)).observe .execStarted).Left (LastWord w p) w')

/-! ### Sizes of the fields read -/

theorem readChannelOpen_window {r ctype rest : Bytes} {sender window maxPkt : ℕ}
    (h : readChannelOpen.run r = .ok ((ctype, sender, window, maxPkt), rest)) :
    window < 2 ^ 32 := by
  simp only [readChannelOpen, Reader.run_bind_ok, Reader.run_pure_ok] at h
  obtain ⟨_, _, _, _, _, _, _, _, hwindow, _, _, _, hdone, -⟩ := h
  cases hdone
  exact Reader.uint32_lt hwindow

theorem readChannelData_length {r data rest : Bytes} {recipient : ℕ}
    (h : readChannelData.run r = .ok ((recipient, data), rest)) : data.length ≤ maxPacket := by
  simp only [readChannelData, Reader.run_bind_ok, Reader.run_pure_ok] at h
  obtain ⟨_, _, _, _, _, hdata, hdone, -⟩ := h
  cases hdone
  exact Reader.string_length hdata

/-! ### The handlers -/

section

variable {p r : Bytes}

/-- The two ends of a handler of `p`. -/
abbrev HandlesIn (p : Bytes) (w : World) (prog : DriverProg Unit) (w₁ : World) : Prop :=
  prog.Ensures w₁ (fun _ w' => Reacts p w w') fun _ w' => ReactFails p w w'

theorem handles_refuse {w₁ : World} {reason : Reason}
    (hlog : w₁.session.log = (w.observe (.handled p)).session.log)
    (hframe : ∀ q, w₁.session.frame q = w.session.frame q) :
    HandlesIn p w (refuse env reason) w₁ :=
  refuse_ensures fun _ _ h =>
    .handled ((h.congr hlog hframe).mono fun _ hq => .disconnect hq)

/-- The reply to a request: silence, or one packet. -/
theorem handles_reply {w₁ : World} {wantReply success : Bool}
    (hmsg : p.head? = some sshMsgChannelRequest) (hwants : wantsReply p = wantReply)
    (hstate : w.driver.state ≠ .beforeOpen)
    (hchan : w₁.driver.peerChan = w.driver.peerChan)
    (hlog : w₁.session.log = (w.observe (.handled p)).session.log)
    (hframe : ∀ q, w₁.session.frame q = w.session.frame q)
    (hsilent : asks p = false → Reacts p w w₁)
    (hanswered : ∀ q tick bytesTx, Answers w p q → Reacts p w (w₁.sent tick bytesTx q)) :
    HandlesIn p w (reply env wantReply success) w₁ := by
  simp only [HandlesIn, reply, ensures_bind, ensures_look]
  cases hw : wantReply with
  | false => exact hsilent ((asks_channelRequest hmsg).trans (hwants.trans hw))
  | true =>
    have ha : Answers w p (buildChannelMsg
        (if success then sshMsgChannelSuccess else sshMsgChannelFailure) w.driver.peerChan) := by
      refine .channelRequest _ hmsg (hwants.trans hw) hstate ?_
      cases success <;> simp
    rw [if_pos rfl, hchan]
    refine write_ensures (fun tick bytesTx => hanswered _ tick bytesTx ha) fun _ _ h => ?_
    exact .handled ((h.congr hlog hframe).mono fun q hq => hq ▸ .answer ha)

theorem onChannelOpen_handles (hp : p = sshMsgChannelOpen :: r) :
    HandlesIn p w (onChannelOpen env r) (w.observe (.handled p)) := by
  have hmsg : p.head? = some sshMsgChannelOpen := by rw [hp]; rfl
  have hfail : ∀ (sender code : ℕ) (desc : String),
      HandlesIn p w (write env (buildOpenFailure sender code desc)) (w.observe (.handled p)) := by
    intro sender code desc
    have ha : Answers w p (buildOpenFailure sender code desc) := .channelOpen sender code desc hmsg
    refine write_ensures (fun tick bytesTx => .answered _ tick bytesTx ha) fun _ _ h => ?_
    exact .handled (h.mono fun q hq => hq ▸ .answer ha)
  unfold HandlesIn onChannelOpen
  split
  next ctype sender window maxPkt _ hread =>
    simp only [ensures_bind, ensures_look]
    split
    next => exact hfail _ _ _
    next hstate =>
      have hstate : w.driver.state = .beforeOpen := not_not.1 hstate
      split
      next => exact hfail _ _ _
      next =>
        split
        next => exact handles_refuse rfl fun _ => rfl
        next hmax =>
          simp only [ensures_bind, updateDriver_ensures]
          refine write_ensures (fun tick bytesTx => ?_) fun _ _ h => ?_
          · have hopen : openOf p = some (window, maxPkt) := by
              rw [hp]
              simp [openOf, hread]
            exact .opened sender window maxPkt tick bytesTx hmsg hstate hmax
              (readChannelOpen_window hread) hopen
          · exact .handled ((h.congr rfl fun _ => rfl).mono fun q hq =>
              hq ▸ .confirmation sender hmsg hstate)
  next => exact handles_refuse rfl fun _ => rfl

theorem start_handles {what : Start} {wantReply : Bool} (tick₀ : ℕ)
    (hmsg : p.head? = some sshMsgChannelRequest) (hwants : wantsReply p = wantReply)
    (hstate : w.driver.state = .idle) :
    HandlesIn p w (start env what wantReply) ((w.observe (.handled p)).atTick tick₀) := by
  simp only [HandlesIn, start, ensures_bind, ensures_look, updateDriver_ensures, note_ensures,
    reply]
  cases hw : wantReply with
  | false =>
    have hasks : asks p = false := (asks_channelRequest hmsg).trans (hwants.trans hw)
    simp only [Bool.false_eq_true, if_false, ensures_pure, askDriver_ensures]
    split
    next =>
      exact .started what ((w.driver.starting what).spawned w.driver.pty.isSome) _ hstate .spawned
        hmsg hasks
    next => exact .started what (w.driver.starting what).spawnFailed _ hstate .failed hmsg hasks
  | true =>
    have ha : Answers w p (buildChannelMsg sshMsgChannelSuccess w.driver.peerChan) :=
      .channelRequest _ hmsg (hwants.trans hw) (by rw [hstate]; decide) (.inl rfl)
    simp only [if_true]
    refine write_ensures (fun tick₁ bytesTx => ?_) fun _ _ h => ?_
    · simp only [askDriver_ensures]
      split
      next =>
        exact .startedAnswered what ((w.driver.starting what).spawned w.driver.pty.isSome) tick₁ _
          bytesTx hstate .spawned ha
      next =>
        exact .startedAnswered what (w.driver.starting what).spawnFailed tick₁ _ bytesTx hstate
          .failed ha
    · exact .started hstate ((h.congr rfl fun _ => rfl).mono fun q hq => hq ▸ .answer ha)

theorem onPtyReq_handles {wantReply : Bool} (hmsg : p.head? = some sshMsgChannelRequest)
    (hwants : wantsReply p = wantReply) (hstate : w.driver.state ≠ .beforeOpen) :
    HandlesIn p w (onPtyReq env r wantReply) (w.observe (.handled p)) := by
  have hrefused : ∀ tick, HandlesIn p w (reply env wantReply false)
      ((w.observe (.handled p)).atTick tick) := by
    intro tick
    exact handles_reply hmsg hwants hstate rfl rfl (fun _ => rfl)
      (.silent tick (by simp [hmsg, sshMsgChannelRequest, sshMsgChannelWindowAdjust]) ·)
      fun q tick bytesTx ha => .answered q tick bytesTx ha
  unfold HandlesIn onPtyReq
  split
  next term _ blob _ hread =>
    split
    next =>
      simp only [ensures_bind, ensures_look]
      split
      next hallowed =>
        have hidle : w.driver.state = .idle := by
          simp only [Bool.and_eq_true, decide_eq_true_eq] at hallowed
          exact hallowed.1.1.1.2
        simp only [ensures_bind, askDriver_ensures]
        split
        next hgranted =>
          simp only [updateDriver_ensures, ensures_bind, hgranted]
          exact handles_reply hmsg hwants hstate rfl rfl (fun _ => rfl)
            (.ptyGranted term _ hidle hmsg ·)
            fun q tick bytesTx ha => .ptyAnswered term q tick bytesTx ha hmsg hidle
        next hgranted =>
          have hgranted := Bool.eq_false_iff.2 hgranted
          simp only [hgranted]
          exact hrefused _
      next => exact hrefused w.session.tick
    next => exact handles_refuse rfl fun _ => rfl
  next => exact handles_refuse rfl fun _ => rfl

theorem onSubsystem_handles {wantReply : Bool} (hmsg : p.head? = some sshMsgChannelRequest)
    (hwants : wantsReply p = wantReply) (hstate : w.driver.state ≠ .beforeOpen) :
    HandlesIn p w (onSubsystem env r wantReply) (w.observe (.handled p)) := by
  unfold HandlesIn onSubsystem
  split
  next =>
    simp only [ensures_bind, ensures_look]
    split
    next hsftp => exact start_handles w.session.tick hmsg hwants hsftp.2.1
    next =>
      exact handles_reply hmsg hwants hstate rfl rfl (fun _ => rfl)
        (.silent w.session.tick (by simp [hmsg, sshMsgChannelRequest, sshMsgChannelWindowAdjust]) ·)
        fun q tick bytesTx ha => .answered q tick bytesTx ha
  next => exact handles_refuse rfl fun _ => rfl

theorem onWindowChange_handles {wantReply : Bool} (hmsg : p.head? = some sshMsgChannelRequest)
    (hwants : wantsReply p = wantReply) (hstate : w.driver.state ≠ .beforeOpen) :
    HandlesIn p w (onWindowChange env r wantReply) (w.observe (.handled p)) := by
  unfold HandlesIn onWindowChange
  split
  next =>
    simp only [ensures_bind, ensures_look, askDriver_ensures]
    exact handles_reply hmsg hwants hstate rfl rfl (fun _ => rfl)
      (.silent _ (by simp [hmsg, sshMsgChannelRequest, sshMsgChannelWindowAdjust]) ·)
      fun q tick bytesTx ha => .answered q tick bytesTx ha
  next => exact handles_refuse rfl fun _ => rfl

theorem onChannelRequest_handles (hp : p = sshMsgChannelRequest :: r)
    (hstate : w.driver.state ≠ .beforeOpen) :
    HandlesIn p w (onChannelRequest env r) (w.observe (.handled p)) := by
  have hmsg : p.head? = some sshMsgChannelRequest := by rw [hp]; rfl
  unfold HandlesIn onChannelRequest
  split
  next recipient rtype wantReply rest hread =>
    have hwants : wantsReply p = wantReply := by
      rw [hp]
      simp [wantsReply, hread]
    simp only [ensures_bind, ensures_look]
    split
    next => exact handles_refuse rfl fun _ => rfl
    next =>
      split
      next hexec =>
        split
        next =>
          split
          next => exact handles_refuse rfl fun _ => rfl
          next => exact start_handles w.session.tick hmsg hwants hexec.2
        next => exact handles_refuse rfl fun _ => rfl
      next =>
        split
        next hshell => exact start_handles w.session.tick hmsg hwants hshell.2
        next =>
          split
          next => exact onSubsystem_handles hmsg hwants hstate
          next =>
            split
            next => exact onPtyReq_handles hmsg hwants hstate
            next =>
              split
              next => exact onWindowChange_handles hmsg hwants hstate
              next =>
                exact handles_reply hmsg hwants hstate rfl rfl (fun _ => rfl)
                  (.silent w.session.tick
                    (by simp [hmsg, sshMsgChannelRequest, sshMsgChannelWindowAdjust]) ·)
                  fun q tick bytesTx ha => .answered q tick bytesTx ha
  next => exact handles_refuse rfl fun _ => rfl

theorem onChannelData_handles (hp : p = sshMsgChannelData :: r)
    (hopen : w.driver.state ≠ .beforeOpen) :
    HandlesIn p w (onChannelData env r) (w.observe (.handled p)) := by
  have hmsg : p.head? = some sshMsgChannelData := by rw [hp]; rfl
  unfold HandlesIn onChannelData
  split
  next recipient data rest hread =>
    have hlen := readChannelData_length hread
    simp only [ensures_bind, ensures_look]
    split
    next => exact handles_refuse rfl fun _ => rfl
    next hlocal =>
      obtain rfl : recipient = localChannel := not_not.1 hlocal
      have hread : CarriesData p data := ⟨r, rest, hp, hread⟩
      split
      next =>
        exact .silent w.session.tick
          (by simp [hmsg, sshMsgChannelData, sshMsgChannelWindowAdjust])
          (not_asks hmsg (by decide))
      next hstate =>
        split
        next => exact handles_refuse rfl fun _ => rfl
        next heof =>
          have heof : w.driver.clientEof = false := Bool.eq_false_iff.2 heof
          split
          next => exact handles_refuse rfl fun _ => rfl
          next hwindow =>
            have hwindow : data.length ≤ w.driver.inWindow := Nat.le_of_not_lt hwindow
            simp only [ensures_bind, note_ensures, updateDriver_ensures]
            split
            next hidle => exact .buffered data hmsg hidle heof hwindow hlen hread
            next hidle =>
              split
              next hchild =>
                obtain ⟨child, hchild⟩ := Option.isSome_iff_exists.1 hchild
                exact .stashed data child hmsg ⟨hopen, hidle, hstate⟩ heof hchild hwindow hlen
                  hread
              next hchild =>
                exact .unsunk data hmsg ⟨hopen, hidle, hstate⟩ heof
                  (Option.not_isSome_iff_eq_none.1 hchild) hwindow hlen hread
  next => exact handles_refuse rfl fun _ => rfl

theorem onWindowAdjust_handles (hp : p = sshMsgChannelWindowAdjust :: r)
    (hstate : w.driver.state ≠ .beforeOpen) :
    HandlesIn p w (onWindowAdjust env r) (w.observe (.handled p)) := by
  have hmsg : p.head? = some sshMsgChannelWindowAdjust := by rw [hp]; rfl
  unfold HandlesIn onWindowAdjust
  split
  next recipient add _ hread =>
    split
    next => exact handles_refuse rfl fun _ => rfl
    next hlocal =>
      have hadjust : adjustOf p = some add := by
        rw [hp]
        simp [adjustOf, hread, not_not.1 hlocal]
      simp only [ensures_bind, updateDriver_ensures, ensures_look]
      split
      next => exact handles_refuse rfl fun _ => rfl
      next hadd => exact .adjusted add hmsg hstate (Nat.le_of_not_lt hadd) hadjust
  next => exact handles_refuse rfl fun _ => rfl

theorem onChannelEof_handles (hp : p = sshMsgChannelEof :: r)
    (hstate : w.driver.state ≠ .beforeOpen) :
    HandlesIn p w (onChannelEof env r) (w.observe (.handled p)) := by
  unfold HandlesIn onChannelEof
  split
  next =>
    split
    next => exact handles_refuse rfl fun _ => rfl
    next => exact .eof (by rw [hp]; rfl) hstate
  next => exact handles_refuse rfl fun _ => rfl

theorem onChannelClose_handles (hp : p = sshMsgChannelClose :: r)
    (hopen : w.driver.state ≠ .beforeOpen) :
    HandlesIn p w (onChannelClose env r) (w.observe (.handled p)) := by
  have hmsg : p.head? = some sshMsgChannelClose := by rw [hp]; rfl
  unfold HandlesIn onChannelClose
  split
  next =>
    simp only [ensures_bind, ensures_look]
    split
    next => exact handles_refuse rfl fun _ => rfl
    next =>
      split
      next hstate => exact .closed hmsg hstate
      next hstate => exact .closedEarly hmsg ⟨hopen, hstate⟩
  next => exact handles_refuse rfl fun _ => rfl

theorem dispatch_handles {msg : UInt8} (hp : p = msg :: r) :
    HandlesIn p w (dispatch env msg r) (w.observe (.handled p)) := by
  simp only [HandlesIn, dispatch, ensures_bind, ensures_look]
  refine ensures_ite (fun h => onChannelOpen_handles (h ▸ hp)) fun _ => ?_
  refine ensures_ite (fun _ => handles_refuse rfl fun _ => rfl) fun hbefore => ?_
  have hopen : isChannelMsg msg → w.driver.state ≠ .beforeOpen :=
    fun hmsg hstate => hbefore ⟨hmsg, hstate⟩
  refine ensures_ite (fun h => onChannelRequest_handles (h ▸ hp) (hopen (by rw [h]; rfl))) fun _ => ?_
  refine ensures_ite (fun h => onChannelData_handles (h ▸ hp) (hopen (by rw [h]; rfl))) fun _ => ?_
  refine ensures_ite (fun h => onWindowAdjust_handles (h ▸ hp) (hopen (by rw [h]; rfl)))
    fun hadjust => ?_
  refine ensures_ite (fun h => onChannelEof_handles (h ▸ hp) (hopen (by rw [h]; rfl))) fun _ => ?_
  refine ensures_ite (fun h => onChannelClose_handles (h ▸ hp) (hopen (by rw [h]; rfl))) fun _ => ?_
  refine ensures_ite (fun h => ?_) fun _ => ?_
  · have hmsg : p.head? = some sshMsgGlobalRequest := by rw [hp, h]; rfl
    split
    next wantReply _ hread =>
      have hother : wantsReply p = false := by
        refine Bool.eq_false_iff.2 fun hwants => ?_
        exact absurd (hmsg.symm.trans (head_of_wantsReply hwants)) (by decide)
      have hasks : asks p = wantReply := by
        rw [hp, h] at hother ⊢
        simp only [asks, hother, hread]
        rfl
      refine ensures_ite (fun hw => ?_) fun hw => ?_
      · have ha : Answers w p [sshMsgRequestFailure] := .globalRequest hmsg (hasks.trans hw)
        refine write_ensures (fun tick bytesTx => .answered _ tick bytesTx ha) fun _ _ h => ?_
        exact .handled (h.mono fun q hq => hq ▸ .answer ha)
      · exact .silent w.session.tick
          (by simp [hmsg, sshMsgGlobalRequest, sshMsgChannelWindowAdjust])
          (hasks.trans (Bool.eq_false_iff.2 hw))
    next => exact handles_refuse rfl fun _ => rfl
  · refine ensures_ite (fun hmsg => ?_) fun _ => ?_
    · have hhead : p.head? = some msg := by rw [hp]; rfl
      have hasks := not_asks hhead (by obtain rfl | rfl | rfl := hmsg <;> decide)
      exact .silent w.session.tick (by simpa [hp] using hadjust) hasks
    refine ensures_ite (fun _ => .handled (.inl rfl)) fun _ => ?_
    exact ensures_ite (fun _ => handles_refuse rfl fun _ => rfl) fun _ => handles_refuse rfl fun _ => rfl

end

/-- **Handling a message.** `handle_inbound` does one of the things listed. -/
theorem handleInbound_ensures {p : Bytes} :
    (handleInbound env p).Ensures w (fun _ w' => Reacts p w w') fun _ w' => ReactFails p w w' := by
  simp only [handleInbound, ensures_bind, note_ensures]
  cases p with
  | nil => exact handles_refuse rfl fun _ => rfl
  | cons msg r => exact dispatch_handles rfl

end QuantumSsh.Channel
