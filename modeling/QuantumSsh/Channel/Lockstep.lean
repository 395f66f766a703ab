import QuantumSsh.Channel.Reactions
import QuantumSsh.Transport.Lockstep

/-!
# Two connections in lockstep

Connections that differ in what they have deferred and, under a mask, in their input and
windows. The handlers of messages that may be answered do the same on both, and those of
data, window adjusts and EOF change nothing but the inbox.
-/

namespace QuantumSsh.Channel

open Wire Kex Machine Program Transport

/-- The entry seals a packet. -/
def isSealed : Obs → Bool
  | .sealed _ => true
  | _ => false

/-- What data, window adjusts and EOF change. -/
structure Inbox where
  inWindow : ℕ
  outWindow : ℕ
  clientEof : Bool
  preExecStdin : List Bytes
  pendingStdin : Option Bytes

def Driver.inbox (d : Driver) : Inbox where
  inWindow := d.inWindow
  outWindow := d.outWindow
  clientEof := d.clientEof
  preExecStdin := d.preExecStdin
  pendingStdin := d.pendingStdin

def Driver.withInbox (d : Driver) (b : Inbox) : Driver :=
  { d with
    inWindow := b.inWindow, outWindow := b.outWindow, clientEof := b.clientEof
    preExecStdin := b.preExecStdin, pendingStdin := b.pendingStdin }

/-- What is hidden of a driver. The handlers read what is left: whether there is a child
and whether its terminal is held. -/
structure Mask where
  inbox : Inbox → Inbox
  child : ChildIo → ChildIo
  deferred : List Bytes → List Bytes
  received : ℕ → ℕ
  spawned : ∀ onPty, child (.spawned onPty) = .spawned onPty
  master : ∀ c, (child c).master = c.master
  killed : ∀ c, child c.closeStdin.discardOutput.kill =
    child (child c).closeStdin.discardOutput.kill

/-- The driver under a mask. -/
def Driver.core (mask : Mask) (d : Driver) : Driver :=
  { d.withInbox (mask.inbox d.inbox) with
    child := d.child.map mask.child, deferred := mask.deferred d.deferred
    bytesReceived := mask.received d.bytesReceived }

/-- A new size reaches a terminal. -/
def Driver.resizes (d : Driver) (resized : Bool) : Bool :=
  match d.pty, d.child with
  | some _, _ => resized
  | none, some child => d.onPty && child.master && resized
  | none, none => false

/-- An early close goes through the mask. -/
theorem Driver.core_closedEarly (mask : Mask) (d : Driver) :
    d.closedEarly.core mask = { d.core mask with
      earlyClose := true
      pendingOut := none
      child := (d.core mask).child.map fun c => mask.child c.closeStdin.discardOutput.kill
      childOutClosed := if (d.core mask).child.isSome then (d.core mask).childOutClosed else true
      state := .draining } := by
  cases hchild : d.child with
  | none => simp [Driver.core, Driver.closedEarly, Driver.withInbox, Driver.inbox, hchild]
  | some child =>
    simp [Driver.core, Driver.closedEarly, Driver.withInbox, Driver.inbox, hchild,
      ← mask.killed child]

/-- The connections are in lockstep, and their drivers have the same core. -/
structure Twins (core : Driver → Driver) (visible : Obs → Bool) (env env' : Env)
    (w w' : World) : Prop where
  session : Beside visible env env' w.session w'.session
  driver : core w.driver = core w'.driver

variable {core : Driver → Driver} {mask : Mask} {visible : Obs → Bool} {env env' : Env}
  {w w' : World} {α : Type}

namespace Twins

theorem same {β : Type} (h : Twins core visible env env' w w') (g : Driver → β)
    (hg : ∀ d, g d = g (core d)) : g w.driver = g w'.driver := by
  rw [hg w.driver, hg w'.driver, h.driver]

theorem update (h : Twins core visible env env' w w') (f : Driver → Driver)
    (hf : ∀ d, core (f d) = f (core d)) :
    (updateDriver f).Couples (updateDriver f) w w' (Twins core visible env env') := by
  refine couples_update ⟨h.session, ?_⟩
  change core (f w.driver) = core (f w'.driver)
  rw [hf w.driver, hf w'.driver, h.driver]

/-- A change of the driver that the core does not pass on as it is. -/
theorem change (h : Twins core visible env env' w w') {f g : Driver → Driver}
    (hfg : core w.driver = core w'.driver → core (f w.driver) = core (g w'.driver)) :
    (updateDriver f).Couples (updateDriver g) w w' (Twins core visible env env') :=
  couples_update ⟨h.session, hfg h.driver⟩

theorem note (h : Twins core visible env env' w w') (obs : Obs) :
    (note obs).Couples (note obs) w w' (Twins core visible env env') :=
  couples_update ⟨h.session.observe obs, h.driver⟩

theorem onSession {p q : SessionProg α} (h : Twins core visible env env' w w')
    (hpq : p.Couples q w.session w'.session (Beside visible env env')) :
    (onSession p).Couples (onSession q) w w' (Twins core visible env env') :=
  couples_zoom hpq fun _ _ hs => ⟨hs, h.driver⟩

theorem write (h : Twins core visible env env' w w') (payload : Bytes) :
    (write env payload).Couples (write env' payload) w w' (Twins core visible env env') :=
  h.onSession (h.session.writePacket payload)

theorem refuse (h : Twins core visible env env' w w') (reason : Reason) :
    (refuse env reason : DriverProg α).Couples (refuse env' reason) w w'
      (Twins core visible env env') :=
  h.onSession (h.session.disconnect _)

theorem ask {f : Env → ℕ → α} (h : Twins core visible env env' w w')
    (hf : ∀ env n, f env n = f (env.after n) 0) :
    (Channel.onSession (ask (f env))).Couples (Channel.onSession (ask (f env'))) w w'
      (Twins core visible env env') :=
  h.onSession (h.session.ask hf)

/-- Looking at the driver, as long as only its core is used. -/
theorem look {f f' : Driver → DriverProg α} (h : Twins core visible env env' w w')
    (hf : ∀ d, f d = f (core d)) (hf' : ∀ d, f' d = f' (core d))
    (hnext : ∀ d, d = core w.driver →
      (f d).Couples (f' d) w w' (Twins core visible env env')) :
    (look World.driver >>= f).Couples (look World.driver >>= f') w w'
      (Twins core visible env env') := by
  refine couples_look ?_
  rw [hf, hf', ← h.driver]
  exact hnext _ rfl

/-! ### The handlers of deferred messages -/

theorem reply (h : Twins (Driver.core mask) visible env env' w w') (wantReply success : Bool) :
    (reply env wantReply success).Couples (reply env' wantReply success) w w'
      (Twins (Driver.core mask) visible env env') := by
  refine couples_look ?_
  rw [h.same Driver.peerChan fun _ => rfl]
  cases wantReply with
  | false => exact couples_pure () h
  | true => exact h.write _

theorem onChannelOpen (h : Twins (Driver.core mask) visible env env' w w') (r : Bytes)
    (hopen : w.driver.state ≠ .beforeOpen) :
    (onChannelOpen env r).Couples (onChannelOpen env' r) w w'
      (Twins (Driver.core mask) visible env env') := by
  unfold Channel.onChannelOpen
  cases readChannelOpen.run r with
  | error => exact h.refuse _
  | ok fields =>
    obtain ⟨⟨ctype, sender, window, maxPkt⟩, rest⟩ := fields
    refine couples_look ?_
    rw [← h.same Driver.state fun _ => rfl, if_pos hopen, if_pos hopen]
    exact h.write _

theorem start (h : Twins (Driver.core mask) visible env env' w w') (what : Start) (wantReply : Bool) :
    (start env what wantReply).Couples (start env' what wantReply) w w'
      (Twins (Driver.core mask) visible env env') := by
  refine couples_look ?_
  rw [h.same Driver.pty fun _ => rfl]
  refine couples_bind (h.update _ fun _ => rfl) ?_ fun _ _ h => h
  intro _ u u' h₁
  refine couples_bind (h₁.note _) ?_ fun _ _ h => h
  intro _ u u' h₂
  refine couples_bind (h₂.reply wantReply true) ?_ fun _ _ h => h
  intro _ u u' h₃
  refine couples_bind (h₃.ask fun _ _ => rfl) ?_ fun _ _ h => h
  intro spawned u u' h₄
  cases spawned with
  | true =>
    refine h₄.update _ fun d => ?_
    have hchild : mask.child (.spawned w'.driver.pty.isSome) = .spawned w'.driver.pty.isSome :=
      mask.spawned _
    simp only [Driver.core, Driver.withInbox, Driver.inbox, Option.map_some, hchild]
  | false => exact h₄.update _ fun _ => rfl

theorem onPtyReq (h : Twins (Driver.core mask) visible env env' w w') (r : Bytes) (wantReply : Bool) :
    (onPtyReq env r wantReply).Couples (onPtyReq env' r wantReply) w w'
      (Twins (Driver.core mask) visible env env') := by
  unfold Channel.onPtyReq
  cases readPtyReq.run r with
  | error => exact h.refuse _
  | ok fields =>
    obtain ⟨⟨term, size, blob⟩, rest⟩ := fields
    dsimp only
    cases parseModes (fun _ => none) blob with
    | none => exact h.refuse _
    | some modes =>
      refine h.look (fun _ => rfl) (fun _ => rfl) fun d _ => ?_
      rw [← h.session.constants.2.2]
      cases (d.ptyPermitted && d.state = .idle && d.pty.isNone && env.helper && validTerm term) with
      | false => exact h.reply wantReply false
      | true =>
        refine couples_bind (h.ask fun _ _ => rfl) ?_ fun _ _ h => h
        intro granted u u' h₁
        cases granted with
        | false => exact h₁.reply wantReply false
        | true =>
          refine couples_bind (h₁.update _ fun _ => rfl) ?_ fun _ _ h => h
          exact fun _ _ _ h₂ => h₂.reply wantReply true

theorem onSubsystem (h : Twins (Driver.core mask) visible env env' w w') (r : Bytes) (wantReply : Bool) :
    (onSubsystem env r wantReply).Couples (onSubsystem env' r wantReply) w w'
      (Twins (Driver.core mask) visible env env') := by
  unfold Channel.onSubsystem
  cases (Reader.string subsystemBound).run r with
  | error => exact h.refuse _
  | ok fields =>
    obtain ⟨name, rest⟩ := fields
    refine h.look (fun _ => rfl) (fun _ => rfl) fun d _ => ?_
    rw [← h.session.constants.2.2]
    exact couples_ite (fun _ => h.start .sftp wantReply) fun _ => h.reply wantReply false

theorem resizes (h : Twins (Driver.core mask) visible env env' w w') (resized : Bool) :
    w.driver.resizes resized = w'.driver.resizes resized := by
  refine h.same (fun d => d.resizes resized) fun d => ?_
  have hpty : (d.core mask).pty = d.pty := rfl
  have honPty : (d.core mask).onPty = d.onPty := rfl
  have hchild : (d.core mask).child = d.child.map mask.child := rfl
  unfold Driver.resizes
  rw [hpty, honPty, hchild]
  cases d.pty with
  | some term => rfl
  | none =>
    cases d.child with
    | none => rfl
    | some child => simp only [Option.map_some, mask.master]

theorem onWindowChange (h : Twins (Driver.core mask) visible env env' w w') (r : Bytes)
    (wantReply : Bool) :
    (onWindowChange env r wantReply).Couples (onWindowChange env' r wantReply) w w'
      (Twins (Driver.core mask) visible env env') := by
  unfold Channel.onWindowChange
  cases readSize.run r with
  | error => exact h.refuse _
  | ok fields =>
    obtain ⟨size, rest⟩ := fields
    refine couples_look ?_
    refine couples_bind (h.ask fun _ _ => rfl) ?_ fun _ _ h => h
    intro resized u u' h₁
    change (Channel.reply env wantReply (w.driver.resizes resized)).Couples
      (Channel.reply env' wantReply (w'.driver.resizes resized)) u u' _
    rw [h.resizes resized]
    exact h₁.reply wantReply _

theorem onChannelRequest (h : Twins (Driver.core mask) visible env env' w w') (r : Bytes) :
    (onChannelRequest env r).Couples (onChannelRequest env' r) w w'
      (Twins (Driver.core mask) visible env env') := by
  unfold Channel.onChannelRequest
  cases readChannelRequest.run r with
  | error => exact h.refuse _
  | ok fields =>
    obtain ⟨⟨recipient, rtype, wantReply⟩, rest⟩ := fields
    refine couples_look ?_
    rw [h.same Driver.state fun _ => rfl]
    refine couples_ite (fun _ => h.refuse _) fun _ => couples_ite (fun _ => ?_) fun _ => ?_
    · cases (Reader.string commandBound).run rest with
      | error => exact h.refuse _
      | ok fields =>
        obtain ⟨command, rest'⟩ := fields
        exact couples_ite (fun _ => h.refuse _) fun _ => h.start (.exec command) wantReply
    · refine couples_ite (fun _ => h.start .shell wantReply) fun _ => ?_
      refine couples_ite (fun _ => h.onSubsystem rest wantReply) fun _ => ?_
      refine couples_ite (fun _ => h.onPtyReq rest wantReply) fun _ => ?_
      exact couples_ite (fun _ => h.onWindowChange rest wantReply) fun _ => h.reply wantReply false

theorem onChannelClose (h : Twins (Driver.core mask) visible env env' w w') (r : Bytes) :
    (onChannelClose env r).Couples (onChannelClose env' r) w w'
      (Twins (Driver.core mask) visible env env') := by
  unfold Channel.onChannelClose
  cases Reader.uint32.run r with
  | error => exact h.refuse _
  | ok fields =>
    obtain ⟨recipient, rest⟩ := fields
    refine couples_look ?_
    rw [h.same Driver.state fun _ => rfl]
    refine couples_ite (fun _ => h.refuse _) fun _ => couples_ite (fun _ => ?_) fun _ => ?_
    · exact h.update _ fun _ => rfl
    · refine h.change fun hcore => ?_
      change w.driver.closedEarly.core mask = w'.driver.closedEarly.core mask
      rw [Driver.core_closedEarly, Driver.core_closedEarly, hcore]

/-- Messages are dispatched alike if an opening and what is handled at once are. -/
theorem dispatch (h : Twins (Driver.core mask) visible env env' w w') (msg : UInt8) (r : Bytes)
    (hopen : (Channel.onChannelOpen env r).Couples (Channel.onChannelOpen env' r) w w'
      (Twins (Driver.core mask) visible env env'))
    (hdata : msg = sshMsgChannelData → (onChannelData env r).Couples (onChannelData env' r) w w'
      (Twins (Driver.core mask) visible env env'))
    (hadjust : msg = sshMsgChannelWindowAdjust → (onWindowAdjust env r).Couples
      (onWindowAdjust env' r) w w' (Twins (Driver.core mask) visible env env'))
    (heof : msg = sshMsgChannelEof → (onChannelEof env r).Couples (onChannelEof env' r) w w'
      (Twins (Driver.core mask) visible env env')) :
    (dispatch env msg r).Couples (dispatch env' msg r) w w'
      (Twins (Driver.core mask) visible env env') := by
  refine couples_look ?_
  rw [← h.same Driver.state fun _ => rfl]
  refine couples_ite (fun _ => hopen) fun _ => ?_
  refine couples_ite (fun _ => h.refuse _) fun _ => ?_
  refine couples_ite (fun _ => h.onChannelRequest r) fun _ => ?_
  refine couples_ite hdata fun _ => couples_ite hadjust fun _ => couples_ite heof fun _ => ?_
  refine couples_ite (fun _ => h.onChannelClose r) fun _ => couples_ite (fun _ => ?_) fun _ => ?_
  · cases readGlobalRequest.run r with
    | error => exact h.refuse _
    | ok fields =>
      obtain ⟨wantReply, rest⟩ := fields
      cases wantReply with
      | false => exact couples_pure () h
      | true => exact h.write _
  · refine couples_ite (fun _ => couples_pure () h) fun _ => ?_
    refine couples_ite (fun _ => couples_fail _ h) fun _ => ?_
    exact couples_ite (fun _ => h.refuse _) fun _ => h.refuse _

/-- A message that is not handled at once is handled alike. -/
theorem handleInbound (h : Twins (Driver.core mask) visible env env' w w') {p : Bytes}
    (hinline : isInline p = false) (hopen : w.driver.state ≠ .beforeOpen) :
    (handleInbound env p).Couples (handleInbound env' p) w w'
      (Twins (Driver.core mask) visible env env') := by
  refine couples_bind (R := fun u u' => Twins (Driver.core mask) visible env env' u u' ∧
    u.driver.state ≠ .beforeOpen) ⟨rfl, (h.note (.handled p)).2, hopen⟩ ?_ fun _ _ h => h.1
  rintro _ u u' ⟨h₁, hopen⟩
  cases p with
  | nil => exact h₁.refuse _
  | cons msg r =>
    simp only [isInline, List.head?_cons, Option.some.injEq, Bool.or_eq_false_iff,
      decide_eq_false_iff_not] at hinline
    obtain ⟨⟨hdata, hadjust⟩, heof⟩ := hinline
    exact h₁.dispatch msg r (h₁.onChannelOpen r hopen) (fun hmsg => absurd hmsg hdata)
      (fun hmsg => absurd hmsg hadjust) fun hmsg => absurd hmsg heof

end Twins

/-! ### The handlers of the other messages -/

theorem passToChannel_deferred {p : Bytes} (hinline : isInline p = false)
    (hroom : w.driver.deferred.length < maxDeferred) :
    passToChannel env p w =
      (.ok (), w.mapDriver fun d => { d with deferred := d.deferred ++ [p] }) := by
  refine eq_of_ensures ?_
  rw [passToChannel, if_neg (by simp [hinline])]
  simp only [ensures_bind, ensures_look]
  rw [if_neg (by omega)]
  exact ⟨trivial, rfl⟩

/-- Where data goes. -/
inductive Sink where
  | preExec
  | pending
  | nowhere
deriving DecidableEq

def Driver.sink (d : Driver) : Sink :=
  if d.state = .idle then .preExec else if d.child.isSome then .pending else .nowhere

/-- The inbox with more data in it. -/
def Inbox.store (b : Inbox) (data : Bytes) : Sink → Inbox
  | .preExec => { b with
      inWindow := b.inWindow - data.length, preExecStdin := b.preExecStdin ++ [data] }
  | .pending => { b with
      inWindow := b.inWindow - data.length
      pendingStdin := some (b.pendingStdin.getD [] ++ data) }
  | .nowhere => { b with inWindow := b.inWindow - data.length }

/-- What a message that is handled at once makes of the inbox; `none` when it is
refused. -/
def Inbox.absorb (b : Inbox) (sink : Sink) : Bytes → Option Inbox
  | [] => none
  | msg :: r =>
    if msg = sshMsgChannelData then
      match readChannelData.run r with
      | .ok ((recipient, data), _) =>
        if recipient ≠ localChannel ∨ b.clientEof ∨ b.inWindow < data.length then none
        else some (b.store data sink)
      | .error _ => none
    else if msg = sshMsgChannelWindowAdjust then
      match readWindowAdjust.run r with
      | .ok ((recipient, add), _) =>
        if recipient ≠ localChannel ∨ u32Max < b.outWindow + add then none
        else some { b with outWindow := b.outWindow + add }
      | .error _ => none
    else
      match Reader.uint32.run r with
      | .ok (recipient, _) =>
        if recipient ≠ localChannel then none else some { b with clientEof := true }
      | .error _ => none

/-- The message is channel data that can be read. -/
def dataIn : Bytes → Option Bytes
  | [] => none
  | msg :: r =>
    match readChannelData.run r with
    | .ok ((_, data), _) => if msg = sshMsgChannelData then some data else none
    | .error _ => none

theorem dataIn_eq_none {msg : UInt8} (r : Bytes) (h : msg ≠ sshMsgChannelData) :
    dataIn (msg :: r) = none := by
  cases hread : readChannelData.run r with
  | error => simp [dataIn, hread]
  | ok fields => simp [dataIn, hread, h]

/-- The connection behind a message that was handled at once. -/
def World.absorbed (w : World) (x : Bytes) (b : Inbox) : World where
  session := { w.session with log := w.session.log ++ (dataIn x).toList.map .accepted }
  driver := w.driver.withInbox b

/-- The program takes the message into the inbox, or refuses it. -/
def Absorbs (prog : DriverProg Unit) (x : Bytes) (w : World) : Prop :=
  prog.Ensures w
    (fun _ w' => ∃ b, w.driver.inbox.absorb w.driver.sink x = some b ∧ w' = w.absorbed x b)
    fun _ _ => w.driver.inbox.absorb w.driver.sink x = none

theorem absorbs_refuse {x : Bytes} {reason : Reason}
    (h : w.driver.inbox.absorb w.driver.sink x = none) : Absorbs (refuse env reason) x w :=
  refuse_ensures fun _ _ _ => h

theorem onChannelData_absorbs {r : Bytes} (hstate : w.driver.state ≠ .serverClosed) :
    Absorbs (onChannelData env r) (sshMsgChannelData :: r) w := by
  unfold onChannelData
  cases hread : readChannelData.run r with
  | error => exact absorbs_refuse (by simp [Inbox.absorb, hread])
  | ok fields =>
    obtain ⟨⟨recipient, data⟩, rest⟩ := fields
    simp only [Absorbs, ensures_bind, ensures_look]
    split_ifs with hlocal heof hwindow hidle hchild
    · exact absorbs_refuse (by simp [Inbox.absorb, hread, hlocal])
    · exact absorbs_refuse (by simp [Inbox.absorb, hread, Driver.inbox, heof])
    · exact absorbs_refuse (by simp [Inbox.absorb, hread, Driver.inbox, hwindow])
    all_goals
      simp only [ensures_bind, note_ensures, updateDriver_ensures, ensures_pure]
      refine ⟨w.driver.inbox.store data w.driver.sink, ?_, ?_⟩
      · simp [Inbox.absorb, hread, Driver.inbox, hlocal, heof, hwindow]
      · simp [World.absorbed, World.mapDriver, World.observe, Session.observe, dataIn,
          Driver.withInbox, Driver.inbox, Inbox.store, Driver.sink, *]

theorem onWindowAdjust_absorbs {r : Bytes} :
    Absorbs (onWindowAdjust env r) (sshMsgChannelWindowAdjust :: r) w := by
  have hother : sshMsgChannelWindowAdjust ≠ sshMsgChannelData := by decide
  have hnone := dataIn_eq_none r hother
  unfold onWindowAdjust
  cases hread : readWindowAdjust.run r with
  | error => exact absorbs_refuse (by simp [Inbox.absorb, hread, hother])
  | ok fields =>
    obtain ⟨⟨recipient, add⟩, rest⟩ := fields
    simp only [Absorbs]
    split_ifs with hlocal
    · exact absorbs_refuse (by simp [Inbox.absorb, hread, hlocal, hother])
    · simp only [ensures_bind, updateDriver_ensures, ensures_look]
      split_ifs with hover
      · have hover' : u32Max < w.driver.outWindow + add := hover
        exact refuse_ensures fun _ _ _ => by
          simp [Inbox.absorb, hread, hother, Driver.inbox, hover']
      · have hover' : ¬u32Max < w.driver.outWindow + add := hover
        refine ⟨{ w.driver.inbox with outWindow := w.driver.outWindow + add }, ?_, ?_⟩
        · simp [Inbox.absorb, hread, hother, Driver.inbox, hover', hlocal]
        · simp [World.absorbed, hnone, World.mapDriver, Driver.withInbox, Driver.inbox]

theorem onChannelEof_absorbs {r : Bytes} :
    Absorbs (onChannelEof env r) (sshMsgChannelEof :: r) w := by
  have hother : sshMsgChannelEof ≠ sshMsgChannelData ∧
      sshMsgChannelEof ≠ sshMsgChannelWindowAdjust := by decide
  have hnone := dataIn_eq_none r hother.1
  unfold onChannelEof
  cases hread : Reader.uint32.run r with
  | error => exact absorbs_refuse (by simp [Inbox.absorb, hread, hother])
  | ok fields =>
    obtain ⟨recipient, rest⟩ := fields
    simp only [Absorbs]
    split_ifs with hlocal
    · exact absorbs_refuse (by simp [Inbox.absorb, hread, hlocal, hother])
    · simp only [updateDriver_ensures]
      refine ⟨{ w.driver.inbox with clientEof := true }, ?_, ?_⟩
      · simp [Inbox.absorb, hread, hother, Driver.inbox, hlocal]
      · simp [World.absorbed, hnone, World.mapDriver, Driver.withInbox, Driver.inbox]

/-- A message that is handled at once changes the inbox only. -/
theorem handleInbound_absorbs {x : Bytes} (hinline : isInline x = true)
    (hopen : w.driver.state ≠ .beforeOpen) (hclosed : w.driver.state ≠ .serverClosed) :
    (handleInbound env x).Ensures w
      (fun _ w' => ∃ b, w.driver.inbox.absorb w.driver.sink x = some b ∧
        w' = (w.observe (.handled x)).absorbed x b)
      fun _ _ => w.driver.inbox.absorb w.driver.sink x = none := by
  cases x with
  | nil => cases hinline
  | cons msg r =>
    have hstate : ¬(isChannelMsg msg = true ∧
        (w.observe (.handled (msg :: r))).driver.state = .beforeOpen) := fun h => hopen h.2
    simp only [handleInbound, ensures_bind, note_ensures, dispatch, ensures_look]
    simp only [isInline, List.head?_cons, Option.some.injEq, Bool.or_eq_true,
      decide_eq_true_eq] at hinline
    rw [if_neg (by obtain (rfl | rfl) | rfl := hinline <;> decide), if_neg hstate,
      if_neg (by obtain (rfl | rfl) | rfl := hinline <;> decide)]
    obtain (rfl | rfl) | rfl := hinline
    · rw [if_pos rfl]
      exact onChannelData_absorbs (w := w.observe (.handled (sshMsgChannelData :: r))) hclosed
    · rw [if_neg (by decide), if_pos rfl]
      exact onWindowAdjust_absorbs
    · rw [if_neg (by decide), if_neg (by decide), if_pos rfl]
      exact onChannelEof_absorbs

end QuantumSsh.Channel
