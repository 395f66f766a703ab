import QuantumSsh.Channel.Calm

/-!
# One child, and one record of it

In every run of `drive` the log has at most one `exec.started`, written when the
channel is idle. Once the driver is dropped, wherever that happens, an
`exec.finished` follows it exactly if it was written, with the credits that the
stdin pump sent up to then. A child has a PTY only if a `pty-req` was granted before.
-/

namespace QuantumSsh.Channel

open Wire Kex Machine Program Transport

/-! ### The log at the start of a child -/

/-- `Idle`, read off the log: the channel is open, nothing was started on it, and
the client has not closed it. -/
structure IdleIn (log : List Obs) : Prop where
  opened : ∃ f sender, .sealed f ∈ log ∧ f.payload = buildOpenConfirmation sender
  unstarted : .execStarted ∉ log
  unclosed : ∀ p, .handled p ∈ log → p.head? ≠ some sshMsgChannelClose

/-- A well-formed `pty-req` on the server's channel, with modes and a `TERM` that the
server accepts. -/
def IsPtyReq (p : Bytes) : Prop :=
  ∃ r wantReply rest term size blob rest' modes, p = sshMsgChannelRequest :: r ∧
    readChannelRequest.run r = .ok ((localChannel, utf8 "pty-req", wantReply), rest) ∧
    readPtyReq.run rest = .ok ((term, size, blob), rest') ∧
    parseModes (fun _ => none) blob = some modes ∧ validTerm term = true

/-- A `pty-req` was granted: it was handled on an idle channel, with a helper
configured and a pair allocated, and CHANNEL_SUCCESS followed if it asked for a reply. -/
def PtyGranted (env : Env) (log : List Obs) : Prop :=
  ∃ before p after tick, log = before ++ .handled p :: after ∧ IdleIn before ∧ IsPtyReq p ∧
    env.helper = true ∧ env.allocateOk tick = true ∧
    (wantsReply p = true → ∃ f sender rest, after = .sealed f :: rest ∧
      f.payload = buildChannelMsg sshMsgChannelSuccess sender)

variable {env : Env} {w w' : World} {permitted : Bool} {credits : ℕ} {log log' : List Obs}

theorem PtyGranted.grows {P : Obs → Bool} (h : PtyGranted env log) (hgrows : Grows P log log') :
    PtyGranted env log' := by
  obtain ⟨before, p, after, tick, rfl, hidle, hp, hhelper, hallocate, hreply⟩ := h
  obtain ⟨es, rfl, -⟩ := hgrows
  refine ⟨before, p, after ++ es, tick, by simp, hidle, hp, hhelper, hallocate, fun hwants => ?_⟩
  obtain ⟨f, sender, rest, rfl, hf⟩ := hreply hwants
  exact ⟨f, sender, rest ++ es, rfl, hf⟩

/-- The channel was idle before the message that it handles now. -/
theorem IdleIn.of_handled {p : Bytes} (h : IdleIn (log ++ [.handled p])) : IdleIn log := by
  obtain ⟨⟨f, sender, hf, hpayload⟩, hunstarted, hunclosed⟩ := h
  refine ⟨⟨f, sender, by simpa using hf, hpayload⟩, fun he => hunstarted (by simp [he]), ?_⟩
  exact fun q hq => hunclosed q (by simp [hq])

/-! ### The record -/

/-- The exec events of the log, against what the driver keeps of them. -/
inductive Entry (env : Env) (permitted : Bool) (credits : ℕ) : ExecFields → List Obs → Prop
  | unstarted {l : ExecFields} {log : List Obs} (hlog : ∀ e ∈ log, isUnaudited e = true)
      (hcommand : l.command = none) (hpty : l.onPty = false) (hfinished : l.finished = false)
      (hchild : l.hasChild = false) : Entry env permitted credits l log
  | running {l : ExecFields} {before after : List Obs} (hbefore : ∀ e ∈ before, isUnaudited e = true)
      (hafter : ∀ e ∈ after, isUnaudited e = true) (hidle : IdleIn before)
      (hpty : l.onPty = true → permitted = true ∧ PtyGranted env before)
      (hcommand : l.command.isSome = true) (hfinished : l.finished = false) :
      Entry env permitted credits l (before ++ .execStarted :: after)
  | closed {l : ExecFields} {before mid after : List Obs} (received sent : ℕ)
      (hbefore : ∀ e ∈ before, isUnaudited e = true) (hmid : ∀ e ∈ mid, isUnaudited e = true)
      (hafter : ∀ e ∈ after, isUnaudited e = true) (hidle : IdleIn before)
      (hpty : l.onPty = true → permitted = true ∧ PtyGranted env before)
      (hfinished : l.finished = true) (hreceived : received = min credits u64Max) :
      Entry env permitted credits l
        (before ++ .execStarted :: (mid ++ .execFinished received sent :: after))

/-- Holds at every end of every program. -/
structure Audited (env : Env) (permitted : Bool) (credits : ℕ) (w : World) : Prop where
  permits : w.driver.ptyPermitted = permitted
  received : w.driver.received = min credits u64Max
  master : w.driver.holdsMaster = true → w.driver.onPty = true
  entry : Entry env permitted credits w.driver.execFields w.session.log

/-- Holds wherever the loop goes on. -/
structure Poised (env : Env) (permitted : Bool) (w : World) : Prop where
  fresh : w.driver.state.fresh = true → ∀ e ∈ w.session.log, isRoutine e = true
  opened : w.driver.state = .idle →
    ∃ f sender, .sealed f ∈ w.session.log ∧ f.payload = buildOpenConfirmation sender
  pty : w.driver.pty.isSome = true → permitted = true ∧ PtyGranted env w.session.log
  unfinished : w.driver.finishedEmitted = false

theorem Entry.grows {l : ExecFields} (h : Entry env permitted credits l log)
    (hgrows : Grows isUnaudited log log') : Entry env permitted credits l log' := by
  obtain ⟨es, rfl, hes⟩ := hgrows
  have hall : ∀ {es₀ : List Obs}, (∀ e ∈ es₀, isUnaudited e = true) →
      ∀ e ∈ es₀ ++ es, isUnaudited e = true := by
    intro es₀ h₀ e he
    obtain he | he := List.mem_append.1 he
    · exact h₀ e he
    · exact hes e he
  cases h with
  | unstarted hlog hcommand hpty hfinished hchild =>
    exact .unstarted (hall hlog) hcommand hpty hfinished hchild
  | running hbefore hafter hidle hpty hcommand hfinished =>
    have h := @Entry.running env permitted credits l _ _ hbefore (hall hafter) hidle hpty hcommand
      hfinished
    simpa using h
  | closed received sent hbefore hmid hafter hidle hpty hfinished hreceived =>
    have h := @Entry.closed env permitted credits l _ _ _ received sent hbefore hmid (hall hafter)
      hidle hpty hfinished hreceived
    simpa using h

theorem Audited.calm (h : Audited env permitted credits w) (hcalm : Calm w w') :
    Audited env permitted credits w' := by
  have hfields := ExecFields.mk.inj hcalm.fields
  refine ⟨hfields.1.trans h.permits, hfields.2.2.2.1.trans h.received, fun hmaster => ?_, ?_⟩
  · exact hfields.2.2.1.trans (h.master (hcalm.master hmaster))
  · rw [hcalm.fields]
    exact h.entry.grows hcalm.log

theorem Poised.quiet (h : Poised env permitted w) (hquiet : Quiet w w') :
    Poised env permitted w' := by
  have hfields := ExecFields.mk.inj hquiet.fields
  refine ⟨fun hfresh e he => ?_, fun hidle => ?_, fun hpty => ?_, ?_⟩
  · obtain ⟨hstate, es, hlog, hes⟩ := hquiet.fresh hfresh
    rw [hlog] at he
    obtain he | he := List.mem_append.1 he
    · exact h.fresh (hstate ▸ hfresh) e he
    · exact hes e he
  · obtain ⟨hstate, es, hlog, -⟩ := hquiet.fresh (by simp [ChannelState.fresh, hidle])
    obtain ⟨f, sender, hf, hpayload⟩ := h.opened (hstate ▸ hidle)
    exact ⟨f, sender, by rw [hlog]; exact List.mem_append_left _ hf, hpayload⟩
  · obtain ⟨hpermitted, hgranted⟩ := h.pty (hquiet.pty ▸ hpty)
    exact ⟨hpermitted, hgranted.grows hquiet.log⟩
  · exact hfields.2.2.2.2.1.trans h.unfinished

theorem Poised.of_started (hstate : w.driver.state.fresh = false) (hpty : w.driver.pty = none)
    (hunfinished : w.driver.finishedEmitted = false) : Poised env permitted w := by
  refine ⟨fun h => ?_, fun h => ?_, fun h => ?_, hunfinished⟩
  · exact absurd (hstate.symm.trans h) (by simp)
  · simp [ChannelState.fresh, h] at hstate
  · simp [hpty] at h

theorem Poised.idleIn (h : Poised env permitted w) (hidle : w.driver.state = .idle) :
    IdleIn w.session.log := by
  have hroutine := h.fresh (by simp [ChannelState.fresh, hidle])
  refine ⟨h.opened hidle, fun he => ?_, fun p hp => ?_⟩
  · cases hroutine _ he
  · simpa [isRoutine] using hroutine _ hp

/-- A program that goes on poised, and leaves the record in order if it fails. -/
abbrev Keeps (env : Env) (permitted : Bool) (credits : ℕ) {α : Type} (p : DriverProg α)
    (w : World) : Prop :=
  p.Ensures w (fun _ w' => Audited env permitted credits w' ∧ Poised env permitted w')
    fun _ w' => Audited env permitted credits w'

theorem Quietly.keeps {α : Type} {p : DriverProg α} (hp : Quietly p)
    (ha : Audited env permitted credits w) (hpoised : Poised env permitted w) :
    Keeps env permitted credits p w :=
  (hp w).mono (fun _ _ h => ⟨ha.calm h.toCalm, hpoised.quiet h⟩) fun _ _ h => ha.calm h

/-! ### The programs that write the record -/

/-- Nothing was started on a channel that is fresh. -/
theorem Audited.unstarted_of_fresh (h : Audited env permitted credits w)
    (hpoised : Poised env permitted w) (hfresh : w.driver.state.fresh = true) :
    (∀ e ∈ w.session.log, isUnaudited e = true) ∧ w.driver.child = none := by
  have hroutine := hpoised.fresh hfresh
  obtain ⟨-, -, -, hentry⟩ := h
  generalize hl : w.driver.execFields = l at hentry
  generalize w.session.log = log at hentry hroutine
  cases hentry with
  | unstarted hlog hcommand hpty hfinished hchild =>
    refine ⟨hlog, ?_⟩
    rw [← hl] at hchild
    exact Option.isSome_eq_false_iff.1 hchild |> Option.isNone_iff_eq_none.1
  | running => cases hroutine .execStarted (by simp)
  | closed => cases hroutine .execStarted (by simp)

theorem onChannelOpen_keeps (ha : Audited env permitted credits w)
    (hpoised : Poised env permitted w) (r : Bytes) :
    Keeps env permitted credits (onChannelOpen env r) w := by
  unfold Keeps onChannelOpen
  split
  next ctype sender window maxPkt _ hread =>
    simp only [ensures_bind, ensures_look]
    split
    next => exact (quietly_write _).keeps ha hpoised
    next hstate =>
      have hstate : w.driver.state = .beforeOpen := not_not.1 hstate
      split
      next => exact (quietly_write _).keeps ha hpoised
      next =>
        split
        next => exact (quietly_refuse _).keeps ha hpoised
        next =>
          simp only [ensures_bind, updateDriver_ensures]
          refine write_ends (fun tick bytesTx => ?_) fun _ w' hcalm => ?_
          · refine ⟨ha.calm ⟨rfl, id, .one rfl rfl⟩, fun _ e he => ?_, fun _ => ?_, fun hpty => ?_,
              hpoised.unfinished⟩
            · obtain he | he := List.mem_append.1 he
              · exact hpoised.fresh (by simp [ChannelState.fresh, hstate]) e he
              · rw [List.mem_singleton.1 he]
                rfl
            · exact ⟨_, sender, List.mem_append_right _ List.mem_cons_self, rfl⟩
            · obtain ⟨hpermitted, hgranted⟩ := hpoised.pty hpty
              exact ⟨hpermitted, hgranted.grows (Grows.one (P := isRoutine) rfl rfl)⟩
          · have hopened : Audited env permitted credits (w.mapDriver fun d => { d with
                peerChan := sender, outWindow := window, outMaxPkt := maxPkt
                inWindow := initialWindow, state := .idle }) :=
              ha.calm ⟨rfl, id, .refl _ _⟩
            exact hopened.calm hcalm
  next => exact (quietly_refuse _).keeps ha hpoised

/-- The child is there, once its start is in the record. -/
theorem Audited.spawned (h : Audited env permitted credits w)
    (hcommand : w.driver.command.isSome = true) (hchild : w.driver.child = none) {onPty : Bool}
    (honPty : onPty = true → w.driver.onPty = true) :
    Audited env permitted credits (w.mapDriver fun d => d.spawned onPty) := by
  obtain ⟨hpermits, hreceived, -, hentry⟩ := h
  refine ⟨hpermits, ?_, fun hmaster => honPty hmaster, ?_⟩
  · rw [← hreceived]
    simp [World.mapDriver, Driver.spawned, Driver.received, hchild, ChildIo.spawned]
  · change Entry env permitted credits _ w.session.log
    generalize w.session.log = log at hentry
    cases hentry with
    | unstarted hlog hnone => exact absurd hcommand (by simp [show w.driver.command = none from hnone])
    | running hbefore hafter hidle hpty hsome hfinished =>
      exact .running hbefore hafter hidle hpty hsome hfinished
    | closed received sent hbefore hmid hafter hidle hpty hfinished hcredits =>
      exact .closed received sent hbefore hmid hafter hidle hpty hfinished hcredits

theorem start_keeps (ha : Audited env permitted credits w) (hpoised : Poised env permitted w)
    (hidle : w.driver.state = .idle) (what : Start) (wantReply : Bool) :
    Keeps env permitted credits (start env what wantReply) w := by
  obtain ⟨hlog, hchild⟩ := ha.unstarted_of_fresh hpoised (by simp [ChannelState.fresh, hidle])
  -- The record starts here; every await below comes after it.
  let w₁ := (w.mapDriver fun d => d.starting what).observe .execStarted
  have ha₁ : Audited env permitted credits w₁ := by
    refine ⟨ha.permits, ha.received, fun hmaster => ?_, ?_⟩
    · simp [w₁, World.mapDriver, World.observe, Driver.holdsMaster, Driver.starting, hchild]
        at hmaster
    · refine .running hlog (by simp) (hpoised.idleIn hidle) hpoised.pty rfl ?_
      exact hpoised.unfinished
  simp only [Keeps, start, ensures_bind, ensures_look, updateDriver_ensures, note_ensures]
  refine (quietly_reply wantReply true w₁).mono (fun _ w₂ hquiet => ?_) fun _ w' hcalm =>
    ha₁.calm hcalm
  have ha₂ := ha₁.calm hquiet.toCalm
  obtain ⟨-, hcommand₂, honPty₂, -, hfinished₂, hchild₂⟩ := ExecFields.mk.inj hquiet.fields
  have hpty₂ : w₂.driver.pty = none := hquiet.pty
  have hunfinished : w₂.driver.finishedEmitted = false := hfinished₂.trans hpoised.unfinished
  simp only [askDriver_ensures]
  have ha₃ : Audited env permitted credits (w₂.atTick (w₂.session.tick + 1)) :=
    ha₂.calm (Quiet.atTick _).toCalm
  have hcommand : w₂.driver.command.isSome = true := by
    rw [hcommand₂]
    rfl
  have hnone : w₂.driver.child = none := by
    rw [← Option.isNone_iff_eq_none, ← Option.isSome_eq_false_iff, hchild₂]
    simp [w₁, World.mapDriver, World.observe, Driver.starting, hchild]
  split
  next =>
    exact ⟨ha₃.spawned hcommand hnone fun h => honPty₂.trans h, .of_started rfl hpty₂ hunfinished⟩
  next => exact ⟨ha₃.calm ⟨rfl, id, .refl _ _⟩, .of_started rfl hpty₂ hunfinished⟩

/-- The grant of a PTY, on the message that was just noted as handled. -/
theorem onPtyReq_keeps {p r rest : Bytes} {wantReply : Bool}
    (ha : Audited env permitted credits w) (hpoised : Poised env permitted w)
    (hlog : w.session.log = log ++ [.handled p]) (hp : p = sshMsgChannelRequest :: r)
    (hread : readChannelRequest.run r = .ok ((localChannel, utf8 "pty-req", wantReply), rest)) :
    Keeps env permitted credits (onPtyReq env rest wantReply) w := by
  unfold Keeps onPtyReq
  split
  next term size blob rest' hreq =>
    split
    next modes hmodes =>
      simp only [ensures_bind, ensures_look]
      split
      next hallowed =>
        simp only [Bool.and_eq_true, decide_eq_true_eq] at hallowed
        obtain ⟨⟨⟨⟨hpermitted, hidle⟩, -⟩, hhelper⟩, hterm⟩ := hallowed
        have hbefore : IdleIn log := (hlog ▸ hpoised.idleIn hidle).of_handled
        have hptyReq : IsPtyReq p :=
          ⟨r, wantReply, rest, term, size, blob, rest', modes, hp, hread, hreq, hmodes, hterm⟩
        have hwants : wantsReply p = wantReply := by
          rw [hp]
          simp [wantsReply, hread]
        simp only [ensures_bind, askDriver_ensures]
        split
        next hallocated =>
          simp only [ensures_bind, updateDriver_ensures, hallocated]
          let w₁ := (w.atTick (w.session.tick + 1)).mapDriver fun d => { d with pty := some term }
          have ha₁ : Audited env permitted credits w₁ := ha.calm ⟨rfl, id, .refl _ _⟩
          -- The grant stands in the log behind the request, with its reply where one is wanted.
          have hgranted : ∀ after, (wantReply = true → ∃ f sender rest, after = .sealed f :: rest ∧
              f.payload = buildChannelMsg sshMsgChannelSuccess sender) →
              PtyGranted env (log ++ .handled p :: after) := fun after hafter =>
            ⟨log, p, after, _, rfl, hbefore, hptyReq, hhelper, hallocated,
              fun h => hafter (hwants.symm.trans h)⟩
          -- Setting the terminal is all that the grant changes.
          have hpoised₁ : ∀ w', Quiet w₁ w' → PtyGranted env w'.session.log →
              Poised env permitted w' := by
            intro w' hquiet hgrant
            have hnone : Poised env permitted (w'.mapDriver fun d => { d with pty := w.driver.pty }) :=
              hpoised.quiet ⟨⟨hquiet.fields, hquiet.master, hquiet.log⟩, rfl, hquiet.fresh⟩
            exact ⟨hnone.fresh, hnone.opened, fun _ => ⟨ha.permits.symm.trans hpermitted, hgrant⟩,
              hnone.unfinished⟩
          simp only [reply, ensures_bind, ensures_look]
          cases hwant : wantReply with
          | false =>
            refine ⟨ha₁, hpoised₁ w₁ (.refl _) ?_⟩
            change PtyGranted env w.session.log
            rw [hlog]
            exact hgranted [] (by simp [hwant])
          | true =>
            refine write_ends (fun tick bytesTx => ?_) fun _ w' hcalm => ha₁.calm hcalm
            have hquiet := Quiet.sent (w := w₁) tick bytesTx
              (buildChannelMsg sshMsgChannelSuccess w.driver.peerChan)
            refine ⟨ha₁.calm hquiet.toCalm, hpoised₁ _ hquiet ?_⟩
            change PtyGranted env (w.session.log ++ [.sealed _])
            rw [hlog, List.append_assoc]
            exact hgranted _ fun _ => ⟨_, _, [], rfl, rfl⟩
        next hallocated =>
          simp only [Bool.eq_false_iff.2 hallocated]
          have hquiet : Quiet w (w.atTick (w.session.tick + 1)) := .atTick _
          exact (quietly_reply _ _).keeps (ha.calm hquiet.toCalm) (hpoised.quiet hquiet)
      next => exact (quietly_reply _ _).keeps ha hpoised
    next => exact (quietly_refuse _).keeps ha hpoised
  next => exact (quietly_refuse _).keeps ha hpoised

theorem onSubsystem_keeps (ha : Audited env permitted credits w) (hpoised : Poised env permitted w)
    (r : Bytes) (wantReply : Bool) :
    Keeps env permitted credits (onSubsystem env r wantReply) w := by
  unfold Keeps onSubsystem
  split
  next =>
    simp only [ensures_bind, ensures_look]
    split
    next hsftp => exact start_keeps ha hpoised hsftp.2.1 .sftp wantReply
    next => exact (quietly_reply _ _).keeps ha hpoised
  next => exact (quietly_refuse _).keeps ha hpoised

theorem onChannelRequest_keeps {p r : Bytes} (ha : Audited env permitted credits w)
    (hpoised : Poised env permitted w) (hlog : w.session.log = log ++ [.handled p])
    (hp : p = sshMsgChannelRequest :: r) :
    Keeps env permitted credits (onChannelRequest env r) w := by
  unfold Keeps onChannelRequest
  split
  next recipient rtype wantReply rest hread =>
    simp only [ensures_bind, ensures_look]
    split
    next => exact (quietly_refuse _).keeps ha hpoised
    next hlocal =>
      obtain rfl : recipient = localChannel := not_not.1 hlocal
      split
      next hexec =>
        split
        next command _ _ =>
          split
          next => exact (quietly_refuse _).keeps ha hpoised
          next => exact start_keeps ha hpoised hexec.2 (.exec command) wantReply
        next => exact (quietly_refuse _).keeps ha hpoised
      next =>
        split
        next hshell => exact start_keeps ha hpoised hshell.2 .shell wantReply
        next =>
          split
          next => exact onSubsystem_keeps ha hpoised rest wantReply
          next =>
            split
            next hpty =>
              subst hpty
              exact onPtyReq_keeps ha hpoised hlog hp hread
            next =>
              split
              next => exact (quietly_onWindowChange _ _).keeps ha hpoised
              next => exact (quietly_reply _ _).keeps ha hpoised
  next => exact (quietly_refuse _).keeps ha hpoised

/-! ### Packets -/

theorem Keeps.bind {α β : Type} {prog : DriverProg α} {f : α → DriverProg β}
    (hprog : Keeps env permitted credits prog w)
    (hf : ∀ a w', Audited env permitted credits w' → Poised env permitted w' →
      Keeps env permitted credits (f a) w') : Keeps env permitted credits (prog >>= f) w := by
  unfold Keeps
  rw [ensures_bind]
  exact hprog.mono (fun a w' h => hf a w' h.1 h.2) fun _ _ h => h

theorem dispatch_keeps {msg : UInt8} {r : Bytes} (ha : Audited env permitted credits w)
    (hpoised : Poised env permitted w) (hmsg : msg ≠ sshMsgChannelClose)
    (hlog : w.session.log = log ++ [.handled (msg :: r)]) :
    Keeps env permitted credits (dispatch env msg r) w := by
  have hrefused : ∀ reason, Keeps env permitted credits (refuse env reason : DriverProg Unit) w :=
    fun _ => (quietly_refuse _).keeps ha hpoised
  simp only [Keeps, dispatch, ensures_bind, ensures_look, if_neg hmsg]
  refine ensures_ite (fun _ => onChannelOpen_keeps ha hpoised r) fun _ => ?_
  refine ensures_ite (fun _ => hrefused _) fun _ => ?_
  refine ensures_ite (fun h => onChannelRequest_keeps ha hpoised hlog (by rw [h])) fun _ => ?_
  refine ensures_ite (fun _ => (quietly_onChannelData r).keeps ha hpoised) fun _ => ?_
  refine ensures_ite (fun _ => (quietly_onWindowAdjust r).keeps ha hpoised) fun _ => ?_
  refine ensures_ite (fun _ => (quietly_onChannelEof r).keeps ha hpoised) fun _ => ?_
  refine ensures_ite (fun _ => ?_) fun _ => ?_
  · split
    next => exact ensures_ite (fun _ => (quietly_write _).keeps ha hpoised) fun _ => ⟨ha, hpoised⟩
    next => exact hrefused _
  · refine ensures_ite (fun _ => ⟨ha, hpoised⟩) fun _ => ensures_ite (fun _ => ha) fun _ => ?_
    exact ensures_ite (fun _ => hrefused _) fun _ => hrefused _

/-- The client's CLOSE ends the fresh channel; any other message is routine. -/
theorem handleInbound_keeps (ha : Audited env permitted credits w)
    (hpoised : Poised env permitted w) (p : Bytes) :
    Keeps env permitted credits (handleInbound env p) w := by
  simp only [Keeps, handleInbound, ensures_bind, note_ensures]
  have hnoted : p.head? ≠ some sshMsgChannelClose → Quiet w (w.observe (.handled p)) :=
    fun hmsg => .observe (by simpa [isRoutine] using hmsg)
  cases p with
  | nil =>
    have hquiet := hnoted (by simp)
    exact (quietly_refuse _).keeps (ha.calm hquiet.toCalm) (hpoised.quiet hquiet)
  | cons msg r =>
    by_cases hmsg : msg = sshMsgChannelClose
    · subst hmsg
      have hends : (dispatch env sshMsgChannelClose r).Ensures
          (w.observe (.handled (sshMsgChannelClose :: r))) (fun _ w' => Quiet w w')
          fun _ w' => Calm w w' := by
        simp only [dispatch, ensures_bind, ensures_look]
        rw [if_neg (by decide)]
        refine ensures_ite (fun _ => ?_) fun _ => ?_
        · have hcalm : Calm w (w.observe (.handled (sshMsgChannelClose :: r))) :=
            ⟨rfl, id, .one rfl rfl⟩
          simp only [refuse, onSession, ensures_zoom]
          exact disconnect_ensures fun _ h =>
            hcalm.trans (Quiet.of_session (routine_of_left h)).toCalm
        · rw [if_neg (by decide), if_neg (by decide), if_neg (by decide), if_neg (by decide),
            if_pos trivial]
          exact onChannelClose_ends r
      exact hends.mono (fun _ _ h => ⟨ha.calm h.toCalm, hpoised.quiet h⟩) fun _ _ h => ha.calm h
    · have hquiet := hnoted (by simpa using hmsg)
      exact dispatch_keeps (ha.calm hquiet.toCalm) (hpoised.quiet hquiet) hmsg rfl

theorem handleAll_keeps (ps : List Bytes) (ha : Audited env permitted credits w)
    (hpoised : Poised env permitted w) :
    Keeps env permitted credits (forEach (handleInbound env) ps) w := by
  induction ps generalizing w with
  | nil => exact ⟨ha, hpoised⟩
  | cons p ps ih =>
    exact (handleInbound_keeps ha hpoised p).bind fun _ w' ha' hpoised' => ih ha' hpoised'

theorem quietly_setDeferred (f : Driver → List Bytes) :
    Quietly (updateDriver fun d => { d with deferred := f d }) :=
  quietly_updateDriver (fun _ => rfl) (fun _ => rfl) (fun _ => rfl) fun _ _ => rfl

theorem passToChannel_keeps (ha : Audited env permitted credits w)
    (hpoised : Poised env permitted w) (p : Bytes) :
    Keeps env permitted credits (passToChannel env p) w := by
  unfold passToChannel
  split
  next => exact handleInbound_keeps ha hpoised p
  next =>
    refine ((quietly_look _).keeps ha hpoised).bind fun deferred w' ha' hpoised' => ?_
    split
    next => exact (quietly_refuse _).keeps ha' hpoised'
    next => exact (quietly_setDeferred fun d => d.deferred ++ [p]).keeps ha' hpoised'

theorem drainDeferred_keeps (ha : Audited env permitted credits w)
    (hpoised : Poised env permitted w) : Keeps env permitted credits (drainDeferred env) w := by
  refine ((quietly_look _).keeps ha hpoised).bind fun deferred w₁ ha₁ hpoised₁ => ?_
  refine ((quietly_setDeferred fun _ => []).keeps ha₁ hpoised₁).bind fun _ w₂ ha₂ hpoised₂ => ?_
  exact handleAll_keeps deferred ha₂ hpoised₂

theorem onPacket_keeps (ha : Audited env permitted credits w) (hpoised : Poised env permitted w)
    (p : Bytes) : Keeps env permitted credits (onPacket env p) w := by
  have hquiet : Quiet w (w.arrived p) := .of_session (.one rfl rfl)
  have ha₁ := ha.calm hquiet.toCalm
  have hpoised₁ := hpoised.quiet hquiet
  have harrived : World.observe { w with session := w.session.receive p } (.received p) =
      w.arrived p := rfl
  simp only [Keeps, onPacket, ensures_bind, ensures_update, note_ensures, ensures_look, harrived]
  split
  next =>
    refine ((quietly_stepRekey p).keeps ha₁ hpoised₁).bind fun step w' ha' hpoised' => ?_
    cases step with
    | continued => exact ⟨ha', hpoised'⟩
    | completed => exact drainDeferred_keeps ha' hpoised'
    | passToChannel => exact passToChannel_keeps ha' hpoised' p
  next =>
    split
    next =>
      exact ((quietly_stepRekey p).keeps ha₁ hpoised₁).bind fun _ w' ha' hpoised' =>
        ⟨ha', hpoised'⟩
    next => exact handleInbound_keeps ha₁ hpoised₁ p

/-! ### The end of the record -/

/-- No `exec.finished` is owed. -/
def World.Squared (w : World) : Prop :=
  w.driver.command.isSome = true → w.driver.finishedEmitted = true

theorem squared_emitFinished (w : World) : w.emitFinished.Squared := by
  intro hcommand
  unfold World.emitFinished at *
  split
  next => rfl
  next hnot =>
    rw [if_neg hnot] at hcommand
    simpa [hcommand] using hnot

theorem emitFinished_of_squared (h : w.Squared) : w.emitFinished = w := by
  unfold World.emitFinished
  rw [if_neg]
  rintro ⟨hcommand, hfinished⟩
  simp [h hcommand] at hfinished

theorem Audited.emitFinished (h : Audited env permitted credits w) :
    Audited env permitted credits w.emitFinished := by
  unfold World.emitFinished
  split
  next howed =>
    obtain ⟨hcommand, hunfinished⟩ := howed
    have hunfinished : w.driver.finishedEmitted = false := by simpa using hunfinished
    obtain ⟨hpermits, hreceived, hmaster, hentry⟩ := h
    refine ⟨hpermits, ?_, fun h => hmaster ?_, ?_⟩
    · rw [← hreceived]
      simp only [World.observe, Driver.received, Option.map_map]
      cases w.driver.child <;> rfl
    · simpa [World.observe, Driver.holdsMaster, Option.any_map] using h
    · change Entry env permitted credits _ (w.session.log ++ [.execFinished w.driver.received _])
      generalize hl : w.driver.execFields = l at hentry
      generalize w.session.log = log at hentry
      have hfields := hl.symm
      cases hentry with
      | unstarted hlog hnone =>
        rw [hfields] at hnone
        exact absurd hcommand (by simp [show w.driver.command = none from hnone])
      | running hbefore hafter hidle hpty hsome hfinished =>
        rw [hfields] at hpty
        rw [List.append_assoc, List.cons_append]
        exact .closed _ _ hbefore hafter (by simp) hidle hpty rfl hreceived
      | closed received sent hbefore hmid hafter hidle hpty hfinished hcredits =>
        rw [hfields] at hfinished
        exact absurd (hunfinished.symm.trans hfinished) (by simp)
  next => exact h

theorem closeIfReady_keeps (ha : Audited env permitted credits w)
    (hpoised : Poised env permitted w) :
    (closeIfReady env).Ensures w
      (fun finished w' => Audited env permitted credits w' ∧
        if finished then w'.Squared else Poised env permitted w')
      fun _ w' => Audited env permitted credits w' := by
  have hlast : ∀ w', Audited env permitted credits w' → Poised env permitted w' →
      (do
        let d ← look World.driver
        if d.state = .closed then do
          update World.emitFinished
          return true
        else return false : DriverProg Bool).Ensures w'
        (fun finished w'' => Audited env permitted credits w'' ∧
          if finished then w''.Squared else Poised env permitted w'')
        fun _ w'' => Audited env permitted credits w'' := by
    intro w' ha' hpoised'
    simp only [ensures_bind, ensures_look]
    split
    next => exact ⟨ha'.emitFinished, squared_emitFinished w'⟩
    next => exact ⟨ha', hpoised'⟩
  unfold closeIfReady
  simp only [ensures_bind, ensures_look]
  split
  next =>
    rw [ensures_bind]
    exact (quietly_sendTerminal.keeps ha hpoised).mono (fun _ w' h => hlast w' h.1 h.2)
      fun _ _ h => h
  next => exact hlast w ha hpoised

theorem settlePhase_keeps (ha : Audited env permitted credits w)
    (hpoised : Poised env permitted w) :
    (settlePhase env).Ensures w
      (fun finished w' => Audited env permitted credits w' ∧
        if finished then w'.Squared else Poised env permitted w')
      fun _ w' => Audited env permitted credits w' := by
  simp only [settlePhase, ensures_bind, ensures_look]
  split
  next => exact ⟨ha, hpoised⟩
  next =>
    simp only [ensures_bind]
    refine (quietly_replenishWindow.keeps ha hpoised).mono (fun _ w₁ h₁ => ?_) fun _ _ h => h
    refine (quietly_rekeyIfDue.keeps h₁.1 h₁.2).mono (fun _ w₂ h₂ => ?_) fun _ _ h => h
    simp only [ensures_look]
    split
    next => exact h₂
    next => exact closeIfReady_keeps h₂.1 h₂.2

/-! ### Runs -/

/-- What the input adds to the credits sent to the driver. -/
def Input.credit : Input → ℕ
  | .pump (.write n) => n
  | _ => 0

/-- The stdin credits sent to the driver. -/
def creditsSent (inputs : List Input) : ℕ := (inputs.map Input.credit).sum

/-- The record of a configuration. -/
structure Accounted (env : Env) (permitted : Bool) (credits : ℕ) (c : Config) : Prop where
  audited : Audited env permitted credits c.world
  poised : c.live → Poised env permitted c.world
  squared : ∀ r, c.pc = .done r → c.world.Squared

theorem Accounted.of_live {pc : Pc} (hlive : ∀ r, pc ≠ .done r)
    (ha : Audited env permitted credits w) (hpoised : Poised env permitted w) :
    Accounted env permitted credits ⟨w, pc⟩ :=
  ⟨ha, fun _ => hpoised, fun r hr => absurd hr (hlive r)⟩

/-- A program and the configuration it leaves; a failure drops the driver. -/
theorem accounted_resume {α : Type} {prog : DriverProg α} {next : α → World → Config}
    {ok : α → World → Prop}
    (hprog : prog.Ensures w ok fun _ w' => Audited env permitted credits w')
    (hok : ∀ a w', ok a w' → Accounted env permitted credits (next a w')) :
    Accounted env permitted credits (resume prog w next) := by
  refine resume_cases hprog hok fun e w' h => ?_
  exact ⟨h.emitFinished, fun hlive => absurd rfl (hlive _), fun _ _ => squared_emitFinished w'⟩

/-- The credits that a step of the pump sends. -/
def PumpStep.sends : PumpStep → List ℕ
  | .write n => [n]
  | _ => []

theorem pump_consumed {child child' : ChildIo} {step : PumpStep}
    (h : child.pump step = some child') :
    child'.master = child.master ∧ child'.consumed = child.consumed ++ step.sends := by
  cases step with
  | take =>
    simp only [ChildIo.pump] at h
    split at h
    next =>
      split at h
      next =>
        obtain rfl := Option.some.inj h
        exact ⟨rfl, (List.append_nil _).symm⟩
      next => cases h
    next => cases h
  | write n =>
    simp only [ChildIo.pump, Option.ite_none_right_eq_some, Option.some.injEq] at h
    obtain ⟨-, rfl⟩ := h
    exact ⟨rfl, rfl⟩
  | stop =>
    simp only [ChildIo.pump, Option.ite_none_right_eq_some, Option.some.injEq] at h
    obtain ⟨-, rfl⟩ := h
    exact ⟨rfl, (List.append_nil _).symm⟩

/-- A credit is on its way as soon as the pump has sent it. -/
theorem Audited.pump (h : Audited env permitted credits w)
    (hunfinished : w.driver.finishedEmitted = false) {child child' : ChildIo} {step : PumpStep}
    (hchild : w.driver.child = some child) (hpump : child.pump step = some child') :
    Audited env permitted (credits + (Input.pump step).credit)
      (w.mapDriver fun d => { d with child := some child' }) := by
  obtain ⟨hmaster', hconsumed⟩ := pump_consumed hpump
  obtain ⟨hpermits, hreceived, hmaster, hentry⟩ := h
  refine ⟨hpermits, ?_, fun h => hmaster ?_, ?_⟩
  · have hnow : child.consumed.foldl (saturatingAdd u64Max) w.driver.bytesReceived =
        min credits u64Max := by
      rw [← hreceived]
      simp [Driver.received, hchild]
    change child'.consumed.foldl (saturatingAdd u64Max) w.driver.bytesReceived = _
    rw [hconsumed, List.foldl_append, hnow]
    cases step with
    | write n => exact saturatingAdd_min credits n u64Max
    | take => rfl
    | stop => rfl
  · simpa [World.mapDriver, Driver.holdsMaster, hchild, hmaster'] using h
  · change Entry env permitted _ _ w.session.log
    generalize hl : w.driver.execFields = l at hentry
    generalize w.session.log = log at hentry
    have hfields := hl.symm
    cases hentry with
    | unstarted hlog hcommand hpty hfinished hnone =>
      rw [hfields] at hnone
      exact absurd hnone (by simp [Driver.execFields, hchild])
    | running hbefore hafter hidle hpty hsome hfinished =>
      rw [hfields] at hpty hsome
      exact .running hbefore hafter hidle hpty hsome hunfinished
    | closed received sent hbefore hmid hafter hidle hpty hfinished hcredits =>
      rw [hfields] at hfinished
      exact absurd (hunfinished.symm.trans hfinished) (by simp)

theorem Accounted.step {c c' : Config} {input : Input} (h : Accounted env permitted credits c)
    (hstep : c.step env input = some c') :
    Accounted env permitted (credits + input.credit) c' := by
  obtain ⟨w, pc⟩ := c
  have hlive := (step_turn hstep).live
  have ha := h.audited
  have hpoised := h.poised hlive
  cases input with
  | phase =>
    cases pc with
    | flush =>
      obtain rfl := Option.some.inj hstep
      exact accounted_resume (quietly_flushPhase.keeps ha hpoised) fun _ w' h =>
        .of_live (by simp) h.1 h.2
    | handoff =>
      obtain rfl := Option.some.inj hstep
      exact accounted_resume (quietly_handoffStdin.keeps ha hpoised) fun _ w' h =>
        .of_live (by simp) h.1 h.2
    | settle =>
      obtain rfl := Option.some.inj hstep
      refine accounted_resume (settlePhase_keeps ha hpoised) fun finished w' h => ?_
      -- A settled loop that finished has written its record; the other one is still poised.
      cases finished with
      | true => exact ⟨h.1, fun hlive => absurd rfl (hlive _), fun _ _ => h.2⟩
      | false => exact .of_live (by simp) h.1 h.2
    | waiting => cases hstep
    | done r => cases hstep
  | event event =>
    cases pc with
    | waiting =>
      simp only [Config.step, Option.ite_none_right_eq_some, Option.some.injEq] at hstep
      obtain ⟨henabled, rfl⟩ := hstep
      -- What happens to the child alone writes no record.
      have hoccurs : ∀ {prog : DriverProg Unit},
          prog.Ensures w (fun _ w' => Occurs event w w') (fun _ _ => False) →
          Accounted env permitted credits (resume prog w fun _ w' => ⟨w', .flush⟩) := by
        intro prog hprog
        refine accounted_resume (hprog.mono (fun _ _ h => h) fun _ _ h => h.elim) fun _ w' h => ?_
        exact .of_live (by simp) (ha.calm h.quiet.toCalm) (hpoised.quiet h.quiet)
      cases event with
      | packet p =>
        exact accounted_resume (onPacket_keeps ha hpoised p) fun _ w' h =>
          .of_live (by simp) h.1 h.2
      | readFailed error =>
        have hfails : (fail error.toTransport : DriverProg Unit).Ensures w (fun _ _ => False)
            fun _ w' => Audited env permitted credits w' := ha
        exact accounted_resume hfails fun _ _ h => h.elim
      | output chunk => exact hoccurs (onOutput_ensures henabled)
      | credit => exact hoccurs (onCredit_ensures henabled)
      | deadline =>
        exact accounted_resume ((quietly_rekeyTimeout (α := Unit)).keeps ha hpoised) fun _ w' h =>
          .of_live (by simp) h.1 h.2
      | wake => exact .of_live (by simp) ha hpoised
    | flush => cases hstep
    | handoff => cases hstep
    | settle => cases hstep
    | done r => cases hstep
  | pump step =>
    cases step_turn hstep with
    | pumped child child' _ hpc hchild hpump =>
      refine .of_live hpc (ha.pump hpoised.unfinished hchild hpump) ?_
      exact ⟨hpoised.fresh, hpoised.opened, hpoised.pty, hpoised.unfinished⟩

theorem accounted_start (env : Env) (h : Handshake) :
    Accounted env h.ptyPermitted 0 (Config.start h) := by
  have hroutine : ∀ e ∈ (Config.start h).world.session.log, isRoutine e = true := by
    intro e he
    obtain ⟨f, -, rfl⟩ := List.mem_map.1 he
    rfl
  refine .of_live (by simp) ⟨rfl, rfl, nofun, ?_⟩ ⟨fun _ => hroutine, nofun, nofun, rfl⟩
  exact .unstarted (fun e he => isUnaudited_of_isRoutine e (hroutine e he)) rfl rfl rfl rfl

theorem accounted_of_run {h : Handshake} {inputs : List Input} {c : Config}
    (hrun : Config.runs env h inputs = some c) :
    Accounted env h.ptyPermitted (creditsSent inputs) c := by
  have hstep : ∀ credits c input c', Accounted env h.ptyPermitted credits c →
      Config.step env c input = some c' →
      Accounted env h.ptyPermitted (credits + Input.credit input) c' :=
    fun _ _ _ _ hc hstep => hc.step hstep
  have hall := invariant_sum hstep (accounted_start env h) hrun
  rwa [Nat.zero_add] at hall

/-- The exec events of a connection that is over: none and no child, or one start on
an idle channel and one finish after it, with the credits sent up to then. -/
inductive ExecRecord (env : Env) (permitted : Bool) (credits : ℕ) (w : World) : Prop
  | unstarted (hlog : ∀ e ∈ w.session.log, isUnaudited e = true) (hchild : w.driver.child = none)
  | finished (before mid after : List Obs) (received sent : ℕ)
      (hlog : w.session.log =
        before ++ .execStarted :: (mid ++ .execFinished received sent :: after))
      (hothers : ∀ e ∈ before ++ mid ++ after, isUnaudited e = true) (hidle : IdleIn before)
      (hpty : w.driver.onPty = true ∨ w.driver.holdsMaster = true →
        permitted = true ∧ PtyGranted env before)
      (hreceived : received = min credits u64Max)

theorem Audited.execRecord (h : Audited env permitted credits w) (hsquared : w.Squared) :
    ExecRecord env permitted credits w := by
  obtain ⟨-, -, hmaster, hentry⟩ := h
  generalize hl : w.driver.execFields = l at hentry
  generalize hlog : w.session.log = log at hentry
  have hfields := hl.symm
  cases hentry with
  | unstarted hunaudited hcommand hpty hfinished hchild =>
    rw [hfields] at hchild
    refine .unstarted (by rw [hlog]; exact hunaudited) ?_
    exact Option.isNone_iff_eq_none.1 (Option.isSome_eq_false_iff.1 hchild)
  | running hbefore hafter hidle hpty hcommand hfinished =>
    rw [hfields] at hcommand hfinished
    exact absurd ((hsquared hcommand).symm.trans hfinished) (by simp)
  | closed received sent hbefore hmid hafter hidle hpty hfinished hcredits =>
    rw [hfields] at hpty
    refine .finished _ _ _ received sent hlog (fun e he => ?_) hidle (fun h => ?_) hcredits
    · obtain he | he := List.mem_append.1 he
      · obtain he | he := List.mem_append.1 he
        · exact hbefore e he
        · exact hmid e he
      · exact hafter e he
    · exact hpty (h.elim id hmaster)

/-- At every point of every run, the drop of the driver leaves no start without its
finish, and a run that is over owes nothing. -/
theorem exec_recorded {h : Handshake} {inputs : List Input} {c : Config}
    (hrun : Config.runs env h inputs = some c) :
    ExecRecord env h.ptyPermitted (creditsSent inputs) c.world.emitFinished ∧
      ∀ r, c.pc = .done r → c.world.emitFinished = c.world := by
  have hc := accounted_of_run hrun
  refine ⟨hc.audited.emitFinished.execRecord (squared_emitFinished _), fun r hr => ?_⟩
  exact emitFinished_of_squared (hc.squared r hr)

/-- A `pty-req` without modes. -/
def ptyRequest (term : String) (wantReply : Bool) : Bytes :=
  channelRequest "pty-req" wantReply ++ putString (utf8 term) ++ putUint32 80 ++ putUint32 24 ++
    putUint32 0 ++ putUint32 0 ++ putString []

/-- A shell on a PTY that reads three bytes, two of which were counted when the client
went away. -/
def terminalRun : List Input :=
  packetTurn (openSession 7 2 2) ++ packetTurn (ptyRequest "xterm" true) ++
    packetTurn (channelRequest "shell" true) ++ packetTurn (channelData [1, 2, 3]) ++
    [.phase, .phase, .pump .take, .pump (.write 2), .phase, .event .credit, .pump (.write 1)] ++
    [.phase, .phase, .phase, .event (.readFailed .ended)]

theorem exec_recorded_terminal : ∃ c,
    Config.runs plainEnv { plainHandshake with ptyPermitted := true } terminalRun = some c ∧
    c.world.driver.onPty = true ∧ .execFinished 3 0 ∈ c.world.session.log ∧
    c.world.emitFinished = c.world ∧ ExecRecord plainEnv true 3 c.world := by
  have hc : (Config.runs plainEnv { plainHandshake with ptyPermitted := true } terminalRun).map
      (fun c => c.pc.isDone && c.world.driver.onPty &&
        decide (.execFinished 3 0 ∈ c.world.session.log)) = some true := by
    decide
  obtain ⟨c, hrun, hc⟩ := Option.map_eq_some_iff.1 hc
  simp only [Bool.and_eq_true, decide_eq_true_eq] at hc
  obtain ⟨⟨hpc, honPty⟩, hfinished⟩ := hc
  obtain ⟨r, hr⟩ := Pc.eq_done hpc
  obtain ⟨hrecord, hdone⟩ := exec_recorded hrun
  refine ⟨c, hrun, honPty, hfinished, hdone r hr, ?_⟩
  rw [hdone r hr] at hrecord
  exact hrecord

end QuantumSsh.Channel
