import QuantumSsh.Channel.Lockstep
import QuantumSsh.Channel.Window

/-!
# Deferral keeps the meaning

Inside a re-key the messages that may be answered wait, while data, window adjusts and
EOF are handled at once. The handlers of the former neither read nor change what the
latter do, so that in the end only the place of the buffered input can differ.
-/

namespace QuantumSsh.Channel

open Wire Kex Machine Program Transport

variable {visible : Obs → Bool} {env env' : Env} {w w' : World} {α : Type}

/-- Hides the inbox and what is deferred. -/
def Mask.input : Mask where
  inbox _ := ⟨0, 0, false, [], none⟩
  child := id
  deferred _ := []
  received := id
  spawned _ := rfl
  master _ := rfl
  killed _ := rfl

/-- The driver without its inbox and what it has deferred. -/
def Driver.rest (d : Driver) : Driver := d.core Mask.input

theorem Driver.rest_eq (d : Driver) : d.rest = { d with
    inWindow := 0, outWindow := 0, clientEof := false, preExecStdin := [], pendingStdin := none
    deferred := [] } := by
  simp [Driver.rest, Driver.core, Driver.withInbox, Mask.input]

/-! ### What deferred messages leave alone -/

theorem Reacts.inbox_eq {p : Bytes} (h : Reacts p w w') (hinline : isInline p = false)
    (hopen : w.driver.state ≠ .beforeOpen) : w'.driver.inbox = w.driver.inbox := by
  have hnot : ∀ {msg : UInt8}, p.head? = some msg → msg ≠ sshMsgChannelData ∧
      msg ≠ sshMsgChannelWindowAdjust ∧ msg ≠ sshMsgChannelEof := by
    intro msg hmsg
    simpa [isInline, hmsg, and_assoc] using hinline
  cases h with
  | silent | answered | ptyGranted | ptyAnswered | closed | closedEarly => rfl
  | opened sender window maxPkt tick bytesTx hmsg hstate => exact absurd hstate hopen
  | started what d tick hstate hd => cases hd <;> rfl
  | startedAnswered what d tick₁ tick bytesTx hstate hd => cases hd <;> rfl
  | buffered data hmsg | stashed data child hmsg | unsunk data hmsg =>
    exact absurd rfl (hnot hmsg).1
  | adjusted add hmsg => exact absurd rfl (hnot hmsg).2.1
  | eof hmsg => exact absurd rfl (hnot hmsg).2.2

/-- The driver stays where it is, or a child starts. -/
def Onward (d d' : Driver) : Prop :=
  d'.state = d.state ∧ d'.child = d.child ∨
    d.state = .idle ∧ d'.state = .running ∧ d'.child.isSome = true

/-- The program moves the driver onward if it returns. -/
def Advances (prog : DriverProg Unit) (w : World) : Prop :=
  prog.Ensures w (fun _ w' => Onward w.driver w'.driver) fun _ _ => True

theorem onSession_driver (p : SessionProg α) (w : World) :
    (onSession p).Ensures w (fun _ w' => w'.driver = w.driver) fun _ _ => True := by
  unfold onSession
  rw [ensures_zoom]
  unfold Prog.Ensures
  split
  next => rfl
  next => trivial

theorem onSession_advances (p : SessionProg Unit) (w : World) : Advances (onSession p) w :=
  (onSession_driver p w).mono (fun _ _ h => .inl ⟨by rw [h], by rw [h]⟩) fun _ _ h => h

theorem reply_advances (wantReply success : Bool) (w : World) :
    Advances (reply env wantReply success) w := by
  simp only [Advances, reply, ensures_bind, ensures_look]
  split
  next => exact onSession_advances _ w
  next => exact .inl ⟨rfl, rfl⟩

theorem start_advances (hspawn : ∀ tick, env.spawnOk tick = true) (what : Start) (wantReply : Bool)
    (hidle : w.driver.state = .idle) : Advances (start env what wantReply) w := by
  simp only [Advances, start, ensures_bind, ensures_look, updateDriver_ensures, note_ensures,
    askDriver_ensures, hspawn, if_true]
  refine (reply_advances wantReply true _).mono (fun _ u _ => ?_) fun _ _ h => h
  exact .inr ⟨hidle, rfl, rfl⟩

theorem onSubsystem_advances (hspawn : ∀ tick, env.spawnOk tick = true) (r : Bytes)
    (wantReply : Bool) (w : World) : Advances (onSubsystem env r wantReply) w := by
  unfold onSubsystem
  cases (Reader.string subsystemBound).run r with
  | error => exact onSession_advances _ w
  | ok fields =>
    simp only [Advances, ensures_bind, ensures_look]
    split
    next h => exact start_advances hspawn .sftp wantReply h.2.1
    next => exact reply_advances wantReply false w

theorem onPtyReq_advances (r : Bytes) (wantReply : Bool) (w : World) :
    Advances (onPtyReq env r wantReply) w := by
  unfold onPtyReq
  cases readPtyReq.run r with
  | error => exact onSession_advances _ w
  | ok fields =>
    obtain ⟨⟨term, size, blob⟩, rest⟩ := fields
    dsimp only
    cases parseModes (fun _ => none) blob with
    | none => exact onSession_advances _ w
    | some modes =>
      simp only [Advances, ensures_bind, ensures_look]
      split
      next =>
        simp only [ensures_bind, askDriver_ensures]
        split
        next =>
          simp only [ensures_bind, updateDriver_ensures]
          exact reply_advances wantReply _ _
        next => exact reply_advances wantReply _ (w.atTick _)
      next => exact reply_advances wantReply false w

theorem onWindowChange_advances (r : Bytes) (wantReply : Bool) (w : World) :
    Advances (onWindowChange env r wantReply) w := by
  unfold onWindowChange
  cases readSize.run r with
  | error => exact onSession_advances _ w
  | ok fields =>
    simp only [Advances, ensures_bind, ensures_look, askDriver_ensures]
    exact reply_advances wantReply _ (w.atTick _)

theorem onChannelRequest_advances (hspawn : ∀ tick, env.spawnOk tick = true) (r : Bytes)
    (w : World) : Advances (onChannelRequest env r) w := by
  unfold onChannelRequest
  cases readChannelRequest.run r with
  | error => exact onSession_advances _ w
  | ok fields =>
    obtain ⟨⟨recipient, rtype, wantReply⟩, rest⟩ := fields
    simp only [Advances, ensures_bind, ensures_look]
    split_ifs with hlocal hexec hshell
    · exact onSession_advances _ w
    · cases (Reader.string commandBound).run rest with
      | error => exact onSession_advances _ w
      | ok fields =>
        obtain ⟨command, rest'⟩ := fields
        dsimp only
        split_ifs
        · exact onSession_advances _ w
        · exact start_advances hspawn _ wantReply hexec.2
    · exact start_advances hspawn .shell wantReply hshell.2
    · exact onSubsystem_advances hspawn rest wantReply w
    · exact onPtyReq_advances rest wantReply w
    · exact onWindowChange_advances rest wantReply w
    · exact reply_advances wantReply false w

/-- A deferred message other than CLOSE can only start a child. -/
theorem handleInbound_advances (hspawn : ∀ tick, env.spawnOk tick = true) {p : Bytes}
    (hinline : isInline p = false) (hclose : p.head? ≠ some sshMsgChannelClose)
    (hopen : w.driver.state ≠ .beforeOpen) : Advances (handleInbound env p) w := by
  cases p with
  | nil =>
    simp only [Advances, handleInbound, ensures_bind, note_ensures]
    exact onSession_advances _ (w.observe _)
  | cons msg r =>
    simp only [isInline, List.head?_cons, Option.some.injEq, Bool.or_eq_false_iff, ne_eq,
      decide_eq_false_iff_not] at hinline hclose
    obtain ⟨⟨hdata, hadjust⟩, heof⟩ := hinline
    have hopen' : (w.observe (.handled (msg :: r))).driver.state ≠ .beforeOpen := hopen
    simp only [Advances, handleInbound, ensures_bind, note_ensures, dispatch, ensures_look]
    split_ifs
    · simp only [onChannelOpen]
      cases readChannelOpen.run r with
      | error => exact onSession_advances _ (w.observe _)
      | ok fields =>
        simp only [ensures_bind, ensures_look]
        rw [if_pos hopen']
        exact onSession_advances _ (w.observe _)
    · exact onSession_advances _ (w.observe _)
    · exact onChannelRequest_advances hspawn r (w.observe _)
    · cases readGlobalRequest.run r with
      | error => exact onSession_advances _ (w.observe _)
      | ok fields =>
        obtain ⟨wantReply, rest⟩ := fields
        cases wantReply with
        | true => exact onSession_advances _ (w.observe _)
        | false => exact .inl ⟨rfl, rfl⟩
    · exact .inl ⟨rfl, rfl⟩
    · trivial
    · exact onSession_advances _ (w.observe _)
    · exact onSession_advances _ (w.observe _)

/-! ### The same input in another place -/

/-- The input not handed to the child yet. -/
def Inbox.input (b : Inbox) : Bytes := b.preExecStdin.flatten ++ b.pendingStdin.getD []

/-- The inboxes differ in the place of the input only. -/
structure SameInput (b b' : Inbox) : Prop where
  inWindow : b'.inWindow = b.inWindow
  outWindow : b'.outWindow = b.outWindow
  clientEof : b'.clientEof = b.clientEof
  input : b'.input = b.input

/-- Before a child there is only the pre-exec buffer. -/
def Inbox.Fits (b : Inbox) (sink : Sink) : Prop := sink = .preExec → b.pendingStdin.getD [] = []

variable {b b' : Inbox} {sink sink' : Sink}

theorem Inbox.Fits.store (h : b.Fits sink) (data : Bytes) : (b.store data sink).Fits sink := by
  rintro rfl
  exact h rfl

/-- Data goes behind the input, wherever it goes. -/
theorem Inbox.Fits.input_store (h : b.Fits sink) (data : Bytes) :
    (b.store data sink).input = b.input ++ if sink = .nowhere then [] else data := by
  cases sink with
  | preExec => simp [Inbox.store, Inbox.input, h rfl]
  | pending => simp [Inbox.store, Inbox.input]
  | nowhere => simp [Inbox.store, Inbox.input]

/-- The one sink is the other, or the child has started only here. -/
def Sink.Follows (sink sink' : Sink) : Prop := sink' = sink ∨ sink' = .preExec ∧ sink = .pending

theorem SameInput.store (h : SameInput b b') (hsink : sink.Follows sink') (hfits : b.Fits sink)
    (hfits' : b'.Fits sink') (data : Bytes) :
    SameInput (b.store data sink) (b'.store data sink') := by
  have hwindow : ∀ (b : Inbox) (sink : Sink),
      (b.store data sink).inWindow = b.inWindow - data.length ∧
      (b.store data sink).outWindow = b.outWindow ∧
      (b.store data sink).clientEof = b.clientEof := by
    intro b sink
    cases sink <;> exact ⟨rfl, rfl, rfl⟩
  refine ⟨?_, ?_, ?_, ?_⟩
  · rw [(hwindow b' sink').1, (hwindow b sink).1, h.inWindow]
  · rw [(hwindow b' sink').2.1, (hwindow b sink).2.1, h.outWindow]
  · rw [(hwindow b' sink').2.2, (hwindow b sink).2.2, h.clientEof]
  · rw [hfits.input_store, hfits'.input_store, h.input]
    obtain rfl | ⟨rfl, rfl⟩ := hsink <;> rfl

/-- What the one inbox absorbs, the other does. -/
theorem SameInput.absorb {c : Inbox} {x : Bytes} (h : SameInput b b') (hsink : sink.Follows sink')
    (hfits : b.Fits sink) (hfits' : b'.Fits sink') (habsorb : b.absorb sink x = some c) :
    c.Fits sink ∧ ∃ c', b'.absorb sink' x = some c' ∧ SameInput c c' ∧ c'.Fits sink' := by
  cases x with
  | nil => cases habsorb
  | cons msg r =>
    simp only [Inbox.absorb, h.clientEof, h.inWindow, h.outWindow] at habsorb ⊢
    split_ifs at habsorb ⊢ with hdata hadjust
    · cases hread : readChannelData.run r with
      | error => simp [hread] at habsorb
      | ok fields =>
        simp only [hread, Option.ite_none_left_eq_some, Option.some.injEq] at habsorb ⊢
        obtain ⟨hok, rfl⟩ := habsorb
        exact ⟨hfits.store _, _, ⟨hok, rfl⟩, h.store hsink hfits hfits' _, hfits'.store _⟩
    · cases hread : readWindowAdjust.run r with
      | error => simp [hread] at habsorb
      | ok fields =>
        simp only [hread, Option.ite_none_left_eq_some, Option.some.injEq] at habsorb ⊢
        obtain ⟨hok, rfl⟩ := habsorb
        exact ⟨hfits, _, ⟨hok, rfl⟩, ⟨rfl, rfl, rfl, h.input⟩, hfits'⟩
    · cases hread : Reader.uint32.run r with
      | error => simp [hread] at habsorb
      | ok fields =>
        simp only [hread, Option.ite_none_left_eq_some, Option.some.injEq] at habsorb ⊢
        obtain ⟨hok, rfl⟩ := habsorb
        exact ⟨hfits, _, ⟨hok, rfl⟩, ⟨rfl, rfl, rfl, h.input⟩, hfits'⟩

/-! ### Handling in order, and with deferral -/

/-- The connection with nothing deferred. -/
def World.undeferred (w : World) : World := w.mapDriver fun d => { d with deferred := [] }

theorem Twins.trans {w₁ : World} (h : Twins Driver.rest visible env env w w₁)
    (h' : Twins Driver.rest visible env env w₁ w') : Twins Driver.rest visible env env w w' :=
  ⟨⟨h.session.core.trans h'.session.core, h.session.log.trans h'.session.log,
    h.session.agree.trans h'.session.agree⟩, h.driver.trans h'.driver⟩

/-- Only the inbox and what seals nothing tell the connections apart. -/
theorem twins_absorbed (w : World) (x : Bytes) (b : Inbox) :
    Twins Driver.rest isSealed env env w ((w.observe (.handled x)).absorbed x b) := by
  refine ⟨⟨rfl, ?_, rfl⟩, by rw [Driver.rest_eq, Driver.rest_eq]; rfl⟩
  cases dataIn x <;> simp [World.absorbed, World.observe, Session.observe, isSealed, *]

/-- A channel stays open once it is. -/
theorem Reacts.stays_open {p : Bytes} (h : Reacts p w w') (hopen : w.driver.state ≠ .beforeOpen) :
    w'.driver.state ≠ .beforeOpen := by
  cases h with
  | opened | closed | closedEarly => simp [Driver.closedEarly, World.sent, World.mapDriver]
  | started what d tick hstate hd => cases hd <;> simp [Driver.spawned, Driver.spawnFailed]
  | startedAnswered what d tick₁ tick bytesTx hstate hd =>
    cases hd <;> simp [Driver.spawned, Driver.spawnFailed]
  | silent | answered | ptyGranted | ptyAnswered | buffered | stashed | unsunk | adjusted | eof =>
    exact hopen

theorem ReactsAll.inbox_eq {ps : List Bytes} (h : ReactsAll ps w w')
    (hps : ∀ p ∈ ps, isInline p = false) (hopen : w.driver.state ≠ .beforeOpen) :
    w'.driver.inbox = w.driver.inbox := by
  induction h with
  | nil => rfl
  | @cons w w₁ w' p ps hone _ ih =>
    have hp := hps p List.mem_cons_self
    rw [ih (fun q hq => hps q (List.mem_cons_of_mem _ hq)) (hone.stays_open hopen)]
    exact hone.inbox_eq hp hopen

/-- Deferred messages are handled alike. -/
theorem Twins.handleAll {ps : List Bytes} (h : Twins Driver.rest visible env env' w w')
    (hps : ∀ p ∈ ps, isInline p = false) (hopen : w.driver.state ≠ .beforeOpen) :
    (forEach (Channel.handleInbound env) ps).Couples (forEach (Channel.handleInbound env') ps) w w'
      (Twins Driver.rest visible env env') := by
  induction ps generalizing w w' with
  | nil => exact couples_pure () h
  | cons p ps ih =>
    have hhead := h.handleInbound (hps p List.mem_cons_self) hopen
    have htail := fun q hq => hps q (List.mem_cons_of_mem p hq)
    rcases hrun : Channel.handleInbound env p w with ⟨_ | _, u⟩
    · obtain ⟨u', hrun', hu⟩ := hhead.of_error hrun
      simp only [forEach, bind, Prog.bind, Prog.Couples, hrun, hrun']
      exact ⟨trivial, hu⟩
    · obtain ⟨u', hrun', hu⟩ := hhead.of_ok hrun
      have hstays := (handleInbound_ensures.of_ok hrun).stays_open hopen
      have hrest := ih hu htail hstays
      simp only [Prog.Couples, forEach, bind, Prog.bind, hrun, hrun'] at hrest ⊢
      exact hrest

/-- What `w` has handled in order, `u` has handled but for the messages it has deferred. -/
structure Deferring (env : Env) (w u : World) : Prop where
  drains : ∃ v, forEach (handleInbound env) u.driver.deferred u.undeferred = (.ok (), v) ∧
    Twins Driver.rest isSealed env env w v
  deferrable : ∀ p ∈ u.driver.deferred, isInline p = false
  none : w.driver.deferred = []
  input : SameInput w.driver.inbox u.driver.inbox
  opened : u.driver.state ≠ .beforeOpen

/-- Both can go on. -/
structure Aligned (w u : World) : Prop where
  opened : w.driver.state ≠ .beforeOpen
  unclosed : w.driver.state ≠ .serverClosed
  opened' : u.driver.state ≠ .beforeOpen
  unclosed' : u.driver.state ≠ .serverClosed
  sinks : w.driver.sink.Follows u.driver.sink
  fits : w.driver.inbox.Fits w.driver.sink
  fits' : u.driver.inbox.Fits u.driver.sink

variable {u : World}

theorem passToChannel_inline {x : Bytes} (hinline : isInline x = true) :
    passToChannel env x = handleInbound env x := by
  rw [passToChannel, if_pos hinline]

/-- A message is handled at once by both. -/
theorem Deferring.inline {x : Bytes} (h : Deferring env w u) (ha : Aligned w u)
    (hinline : isInline x = true) (hw : handleInbound env x w = (.ok (), w')) :
    ∃ u', handleInbound env x u = (.ok (), u') ∧ Deferring env w' u' ∧ Aligned w' u' ∧
      u'.driver.deferred = u.driver.deferred := by
  obtain ⟨b, habsorb, rfl⟩ := (handleInbound_absorbs hinline ha.opened ha.unclosed).of_ok hw
  obtain ⟨hfits, b', habsorb', hinput, hfits'⟩ := h.input.absorb ha.sinks ha.fits ha.fits' habsorb
  rcases hu : handleInbound env x u with ⟨e | _, u'⟩
  · have hnone := (handleInbound_absorbs hinline ha.opened' ha.unclosed').of_error hu
    rw [habsorb'] at hnone
    cases hnone
  · obtain ⟨b₁, hb₁, rfl⟩ := (handleInbound_absorbs hinline ha.opened' ha.unclosed').of_ok hu
    obtain rfl := Option.some.inj (habsorb'.symm.trans hb₁)
    obtain ⟨v, hdrains, htwins⟩ := h.drains
    -- The deferred messages do not see what the inbox of `u` holds.
    have hsame : Twins Driver.rest isSealed env env u.undeferred
        ((u.observe (.handled x)).absorbed x b').undeferred := twins_absorbed u.undeferred x b'
    obtain ⟨v', hdrains', htwins'⟩ := (hsame.handleAll h.deferrable h.opened).of_ok hdrains
    have hback : Twins Driver.rest isSealed env env ((w.observe (.handled x)).absorbed x b) w := by
      have hforth := @twins_absorbed env w x b
      exact ⟨⟨hforth.session.core.symm, hforth.session.log.symm, hforth.session.agree.symm⟩,
        hforth.driver.symm⟩
    exact ⟨_, rfl, ⟨⟨v', hdrains', hback.trans (htwins.trans htwins')⟩, h.deferrable, h.none, hinput,
      h.opened⟩, ⟨ha.opened, ha.unclosed, ha.opened', ha.unclosed', ha.sinks, hfits, hfits'⟩, rfl⟩

/-- A message is handled by the one and deferred by the other. -/
theorem Deferring.defer {p : Bytes} (h : Deferring env w u) (hopen : w.driver.state ≠ .beforeOpen)
    (hinline : isInline p = false) (hw : handleInbound env p w = (.ok (), w')) :
    Deferring env w' (u.mapDriver fun d => { d with deferred := d.deferred ++ [p] }) := by
  have hreacts := handleInbound_ensures.of_ok hw
  obtain ⟨v, hdrains, htwins⟩ := h.drains
  obtain ⟨v', hv', htwins'⟩ := (htwins.handleInbound hinline hopen).of_ok hw
  refine ⟨⟨v', ?_, htwins'⟩, ?_, ?_, ?_, h.opened⟩
  · exact (forEach_concat hdrains).trans hv'
  · intro q hq
    obtain hq | hq := List.mem_append.1 hq
    · exact h.deferrable q hq
    · rw [List.mem_singleton.1 hq]
      exact hinline
  · rw [hreacts.deferred_eq, h.none]
  · have hinput := h.input
    rw [← hreacts.inbox_eq hinline hopen] at hinput
    exact hinput

theorem Aligned.defer {p : Bytes} (ha : Aligned w u) (honward : Onward w.driver w'.driver)
    (hinbox : w'.driver.inbox = w.driver.inbox) :
    Aligned w' (u.mapDriver fun d => { d with deferred := d.deferred ++ [p] }) := by
  obtain ⟨hstate, hchild⟩ | ⟨hidle, hrunning, hchild⟩ := honward
  · have hsink : w'.driver.sink = w.driver.sink := by simp only [Driver.sink, hstate, hchild]
    refine ⟨?_, ?_, ha.opened', ha.unclosed', ?_, ?_, ha.fits'⟩
    · rw [hstate]
      exact ha.opened
    · rw [hstate]
      exact ha.unclosed
    · rw [hsink]
      exact ha.sinks
    · rw [hsink, hinbox]
      exact ha.fits
  · have hsink : w.driver.sink = .preExec := by simp [Driver.sink, hidle]
    have hsink' : w'.driver.sink = .pending := by simp [Driver.sink, hrunning, hchild]
    have hbefore : u.driver.sink = .preExec := by
      obtain h | ⟨h, -⟩ := ha.sinks
      · rw [h, hsink]
      · exact h
    refine ⟨by simp [hrunning], by simp [hrunning], ha.opened', ha.unclosed', .inr ⟨hbefore, hsink'⟩,
      ?_, ha.fits'⟩
    intro hpre
    rw [hsink'] at hpre
    cases hpre

/-- Nothing follows a CLOSE or a DISCONNECT. -/
def ClosesLast (ms : List Bytes) : Prop :=
  ∀ before p after, ms = before ++ p :: after →
    p.head? = some sshMsgChannelClose ∨ p.head? = some sshMsgDisconnect → after = []

theorem ClosesLast.tail {p : Bytes} {ms : List Bytes} (h : ClosesLast (p :: ms)) :
    ClosesLast ms := by
  rintro before q after rfl
  exact h (p :: before) q after rfl

theorem closesLast_of_check {ms : List Bytes} (h : ms.dropLast.all (fun p =>
    p.head? ≠ some sshMsgChannelClose && p.head? ≠ some sshMsgDisconnect) = true) :
    ClosesLast ms := by
  rintro before p after rfl hmsg
  by_contra hne
  have hmem : p ∈ (before ++ p :: after).dropLast := by
    rw [List.dropLast_append_of_ne_nil (by simp), List.dropLast_cons_of_ne_nil hne]
    simp
  have hother := List.all_eq_true.1 h p hmem
  simp only [ne_eq, decide_not, Bool.and_eq_true, Bool.not_eq_true', decide_eq_false_iff_not] at hother
  exact hmsg.elim hother.1 hother.2

/-- What is handled in order is handled with deferral. -/
theorem Deferring.run (hspawn : ∀ tick, env.spawnOk tick = true) {ms : List Bytes}
    (hlast : ClosesLast ms) (h : Deferring env w u) (ha : Aligned w u)
    (hfew : u.driver.deferred.length + (ms.filter fun p => !isInline p).length ≤ maxDeferred)
    (hrun : forEach (handleInbound env) ms w = (.ok (), w')) :
    ∃ u', forEach (passToChannel env) ms u = (.ok (), u') ∧ Deferring env w' u' := by
  induction ms generalizing w u with
  | nil =>
    cases hrun
    exact ⟨u, rfl, h⟩
  | cons p ms ih =>
    simp only [forEach, bind, Prog.bind] at hrun ⊢
    rcases hw : handleInbound env p w with ⟨_ | _, w₁⟩
    · rw [hw] at hrun
      cases hrun
    · rw [hw] at hrun
      cases hinline : isInline p with
      | true =>
        obtain ⟨u₁, hu, h₁, ha₁, hsame⟩ := h.inline ha hinline hw
        rw [passToChannel_inline hinline, hu]
        refine ih hlast.tail h₁ ha₁ ?_ hrun
        rw [hsame]
        simpa [hinline] using hfew
      | false =>
        simp only [List.filter_cons, hinline, Bool.not_false, if_true, List.length_cons] at hfew
        have h₁ := h.defer ha.opened hinline hw
        rw [passToChannel_deferred hinline (by omega)]
        by_cases hclose : p.head? = some sshMsgChannelClose
        · obtain rfl := hlast [] p ms rfl (.inl hclose)
          cases hrun
          exact ⟨_, rfl, h₁⟩
        · have honward := (handleInbound_advances hspawn hinline hclose ha.opened).of_ok hw
          have hinbox := (handleInbound_ensures.of_ok hw).inbox_eq hinline ha.opened
          refine ih hlast.tail h₁ (ha.defer honward hinbox) ?_ hrun
          simp only [mapDriver_driver, List.length_append, List.length_singleton]
          omega

/-- The connections differ in the place of the input, in the order of entries that seal
nothing, and in what was counted while receiving. -/
structure SameMeaning (w w' : World) : Prop where
  replies : w'.session.log.filter isSealed = w.session.log.filter isSealed
  session : w'.session.core = w.session.core
  driver : { w'.driver with
    preExecStdin := w.driver.preExecStdin, pendingStdin := w.driver.pendingStdin } = w.driver
  input : w'.driver.preExecStdin.flatten ++ w'.driver.pendingStdin.getD [] =
    w.driver.preExecStdin.flatten ++ w.driver.pendingStdin.getD []

/-- Draining what was deferred brings the two together. -/
theorem Deferring.drain (h : Deferring env w u) :
    ∃ v, drainDeferred env u = (.ok (), v) ∧ SameMeaning w v := by
  obtain ⟨v, hdrains, htwins⟩ := h.drains
  have hreacts := handleAll_ensures.of_ok hdrains
  have hnone : v.driver.deferred = [] := hreacts.deferred_eq
  have hinbox : v.driver.inbox = u.driver.inbox := hreacts.inbox_eq h.deferrable h.opened
  have hinput := h.input
  rw [← hinbox] at hinput
  refine ⟨v, hdrains, htwins.session.log.symm, htwins.session.core.symm, ?_, hinput.input⟩
  -- The core and the inbox together are the driver.
  have hin : v.driver.inWindow = w.driver.inWindow := hinput.inWindow
  have hout : v.driver.outWindow = w.driver.outWindow := hinput.outWindow
  have heof : v.driver.clientEof = w.driver.clientEof := hinput.clientEof
  calc ({ v.driver with
        preExecStdin := w.driver.preExecStdin, pendingStdin := w.driver.pendingStdin } : Driver)
      = { v.driver.rest with
          inWindow := v.driver.inWindow, outWindow := v.driver.outWindow
          clientEof := v.driver.clientEof, preExecStdin := w.driver.preExecStdin
          pendingStdin := w.driver.pendingStdin, deferred := v.driver.deferred } := by
        rw [Driver.rest_eq]
    _ = { w.driver.rest with
          inWindow := w.driver.inWindow, outWindow := w.driver.outWindow
          clientEof := w.driver.clientEof, preExecStdin := w.driver.preExecStdin
          pendingStdin := w.driver.pendingStdin, deferred := w.driver.deferred } := by
        rw [← htwins.driver, hin, hout, heof, hnone, h.none]
    _ = w.driver := by rw [Driver.rest_eq]

/-- **Deferral keeps the meaning.** Where nothing is deferred yet, messages that are
accepted in order are accepted as well when data, window adjusts and EOF are handled at
once and the others drained afterwards. The same replies are sent in the same order, and
only the place of the input differs. -/
theorem deferral_keeps_meaning {env₀ : Env} {h : Handshake} {inputs : List Input} {c : Config}
    (hrun : Config.runs env₀ h inputs = some c) (hlive : c.live)
    (hstate : c.world.driver.state = .idle ∨ c.world.driver.state = .running ∨
      c.world.driver.state = .draining) (hdeferred : c.world.driver.deferred = [])
    (hspawn : ∀ tick, env.spawnOk tick = true) {ms : List Bytes} (hlast : ClosesLast ms)
    (hfew : (ms.filter fun p => !isInline p).length ≤ maxDeferred)
    (haccepts : forEach (handleInbound env) ms c.world = (.ok (), w)) :
    ∃ w', (forEach (passToChannel env) ms >>= fun _ => drainDeferred env) c.world = (.ok (), w') ∧
      SameMeaning w w' := by
  have hopen : c.world.driver.state ≠ .beforeOpen := by
    obtain hs | hs | hs := hstate <;> simp [hs]
  have hunclosed : c.world.driver.state ≠ .serverClosed := by
    obtain hs | hs | hs := hstate <;> simp [hs]
  have hfits : c.world.driver.inbox.Fits c.world.driver.sink := by
    intro hsink
    have hidle : c.world.driver.state = .idle := by
      by_contra hne
      rw [Driver.sink, if_neg hne] at hsink
      split at hsink <;> cases hsink
    have hnone := ((balanced_of_run hrun hlive).childless (.inr hidle)).2
    simp [Driver.inbox, hnone]
  have hdeferring : Deferring env c.world c.world := by
    have hsame : c.world.undeferred = c.world := by
      simp only [World.undeferred, World.mapDriver, ← hdeferred]
    refine ⟨⟨c.world, ?_, ⟨rfl, rfl, rfl⟩, rfl⟩, by simp [hdeferred], hdeferred,
      ⟨rfl, rfl, rfl, rfl⟩, hopen⟩
    rw [hdeferred, hsame]
    rfl
  have haligned : Aligned c.world c.world :=
    ⟨hopen, hunclosed, hopen, hunclosed, .inl rfl, hfits, hfits⟩
  obtain ⟨u, hpass, hend⟩ := hdeferring.run hspawn hlast haligned
    (by rw [hdeferred, List.length_nil, Nat.zero_add]; exact hfew) haccepts
  obtain ⟨w', hdrain, hmeaning⟩ := hend.drain
  refine ⟨w', ?_, hmeaning⟩
  simp only [bind, Prog.bind, hpass, hdrain]

/-- A shell is asked for, and its input sent right behind. -/
def shellMessages : List Bytes :=
  [channelRequest "shell" true, channelData [1, 2], globalRequest true,
    buildWindowAdjust localChannel 5, buildEof localChannel]

/-- The input of a deferred shell waits in the pre-exec buffer. -/
theorem deferral_keeps_meaning_shell :
    ∃ c w w', Config.runs plainEnv plainHandshake (packetTurn (openSession 7 1 maxPacket)) = some c ∧
      forEach (handleInbound plainEnv) shellMessages c.world = (.ok (), w) ∧
      (forEach (passToChannel plainEnv) shellMessages >>= fun _ => drainDeferred plainEnv) c.world =
        (.ok (), w') ∧ w.driver.pendingStdin = some [1, 2] ∧ SameMeaning w w' := by
  have hc : (Config.runs plainEnv plainHandshake (packetTurn (openSession 7 1 maxPacket))).map
      (fun c => !c.pc.isDone && decide (c.world.driver.state = .idle ∧
        c.world.driver.deferred = [] ∧
        (forEach (handleInbound plainEnv) shellMessages c.world).2.driver.pendingStdin =
          some [1, 2]) &&
        (forEach (handleInbound plainEnv) shellMessages c.world).1.toBool) = some true := by
    decide
  obtain ⟨c, hrun, hc⟩ := Option.map_eq_some_iff.1 hc
  simp only [Bool.and_eq_true, decide_eq_true_eq, Bool.not_eq_true'] at hc
  obtain ⟨⟨hlive, hidle, hdeferred, hpending⟩, hok⟩ := hc
  rcases haccepts : forEach (handleInbound plainEnv) shellMessages c.world with ⟨_ | _, w⟩
  · rw [haccepts] at hok
    cases hok
  · rw [haccepts] at hpending
    have hlast : ClosesLast shellMessages := closesLast_of_check (by decide)
    obtain ⟨w', hdeferral, hmeaning⟩ := deferral_keeps_meaning hrun (live_of_isDone hlive)
      (.inl hidle) hdeferred (fun _ => rfl) hlast (by decide) haccepts
    exact ⟨c, w, w', hrun, haccepts, hdeferral, hpending, hmeaning⟩

end QuantumSsh.Channel
