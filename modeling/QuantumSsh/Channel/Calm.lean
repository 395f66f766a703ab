import QuantumSsh.Channel.Plain
import QuantumSsh.Channel.Traffic

/-!
# The record of the child

`exec.started` and `exec.finished` in every run of `drive`, wherever it ends: at a
write that fails, at an event, or between two steps when the connection is dropped.
Most programs of the driver leave what the record is drawn from alone, whichever of
their writes fails; the few that do not are the opening of the channel, the grant
of a PTY, the start of the child and `emit_finished` itself.
-/

namespace QuantumSsh.Channel

open Wire Kex Machine Program Transport

/-! ### What the record is drawn from -/

/-- What `exec.finished` would report as received: the credits that were counted and
those on their way. -/
def Driver.received (d : Driver) : ℕ :=
  ((d.child.map ChildIo.consumed).getD []).foldl (saturatingAdd u64Max) d.bytesReceived

/-- The child holds the master of a PTY. -/
def Driver.holdsMaster (d : Driver) : Bool := d.child.any ChildIo.master

/-- The fields of the driver that the record is drawn from. -/
structure ExecFields where
  permitted : Bool
  command : Option Bytes
  onPty : Bool
  received : ℕ
  finished : Bool
  hasChild : Bool
deriving Repr, DecidableEq

def Driver.execFields (d : Driver) : ExecFields where
  permitted := d.ptyPermitted
  command := d.command
  onPty := d.onPty
  received := d.received
  finished := d.finishedEmitted
  hasChild := d.child.isSome

/-- Nothing has been started or closed yet. -/
def ChannelState.fresh (s : ChannelState) : Bool := s = .beforeOpen || s = .idle

/-- The entry neither starts nor finishes the child. -/
def isUnaudited : Obs → Bool
  | .execStarted | .execFinished _ _ => false
  | _ => true

/-- Nor does the client close the channel there. -/
def isRoutine : Obs → Bool
  | .execStarted | .execFinished _ _ => false
  | .handled p => p.head? ≠ some sshMsgChannelClose
  | _ => true

theorem isUnaudited_of_isRoutine (e : Obs) (h : isRoutine e = true) : isUnaudited e = true := by
  cases e <;> first | rfl | cases h

/-! ### Programs that leave the record alone -/

/-- The record is drawn from the same fields, and the log has no entry of it. -/
structure Calm (w w' : World) : Prop where
  fields : w'.driver.execFields = w.driver.execFields
  master : w'.driver.holdsMaster = true → w.driver.holdsMaster = true
  log : Grows isUnaudited w.session.log w'.session.log

/-- Nor does the channel become fresh, or stay so past a CLOSE. -/
structure Quiet (w w' : World) : Prop extends Calm w w' where
  pty : w'.driver.pty = w.driver.pty
  fresh : w'.driver.state.fresh = true →
    w'.driver.state = w.driver.state ∧ Grows isRoutine w.session.log w'.session.log

variable {env : Env} {w w₁ w' : World} {α β : Type}

theorem Quiet.refl (w : World) : Quiet w w :=
  ⟨⟨rfl, id, .refl _ _⟩, rfl, fun _ => ⟨rfl, .refl _ _⟩⟩

theorem Calm.trans (h : Calm w w₁) (h' : Calm w₁ w') : Calm w w' :=
  ⟨h'.fields.trans h.fields, h.master ∘ h'.master, h.log.trans h'.log⟩

theorem Quiet.trans (h : Quiet w w₁) (h' : Quiet w₁ w') : Quiet w w' := by
  refine ⟨h.toCalm.trans h'.toCalm, h'.pty.trans h.pty, fun hfresh => ?_⟩
  obtain ⟨hstate', hlog'⟩ := h'.fresh hfresh
  obtain ⟨hstate, hlog⟩ := h.fresh (hstate' ▸ hfresh)
  exact ⟨hstate'.trans hstate, hlog.trans hlog'⟩

/-- Only the session changed, and its log grew by routine entries. -/
theorem Quiet.of_session {s : Session} (hlog : Grows isRoutine w.session.log s.log) :
    Quiet w { w with session := s } :=
  ⟨⟨rfl, id, hlog.mono isUnaudited_of_isRoutine⟩, rfl, fun _ => ⟨rfl, hlog⟩⟩

theorem Quiet.observe {obs : Obs} (hobs : isRoutine obs = true) : Quiet w (w.observe obs) :=
  .of_session (.one hobs rfl)

theorem Quiet.atTick (tick : ℕ) : Quiet w (w.atTick tick) := .of_session (.refl _ _)

theorem Quiet.sent (tick bytesTx : ℕ) (q : Bytes) : Quiet w (w.sent tick bytesTx q) :=
  .of_session (.one rfl rfl)

/-- Both ends of the program leave the record alone. -/
abbrev Quietly (p : DriverProg α) : Prop := p.Within Quiet Calm

theorem Quietly.bind {p : DriverProg α} {f : α → DriverProg β} (hp : Quietly p)
    (hf : ∀ a, Quietly (f a)) : Quietly (p >>= f) :=
  Prog.Within.bind hp hf (fun _ _ _ => Quiet.trans) fun _ _ _ h => h.toCalm.trans

theorem quietly_pure (a : α) : Quietly (pure a : DriverProg α) := within_pure Quiet.refl a

theorem quietly_look (f : World → α) : Quietly (look f) := within_look Quiet.refl f

/-- A value of the current state, and what is done with it. -/
theorem quietly_look_bind {f : World → α} {k : α → DriverProg β} (hk : ∀ a, Quietly (k a)) :
    Quietly (look f >>= k) :=
  (quietly_look f).bind hk

theorem quietly_note {obs : Obs} (hobs : isRoutine obs = true) : Quietly (note obs) :=
  fun _ => Quiet.observe hobs

theorem quietly_updateDriver {f : Driver → Driver}
    (hfields : ∀ d, (f d).execFields = d.execFields)
    (hmaster : ∀ d, (f d).holdsMaster = d.holdsMaster)
    (hpty : ∀ d, (f d).pty = d.pty)
    (hfresh : ∀ d, (f d).state.fresh = true → (f d).state = d.state) :
    Quietly (updateDriver f) := by
  intro w
  refine ⟨⟨hfields _, fun h => (hmaster w.driver).symm.trans h, .refl _ _⟩, hpty _, fun h => ?_⟩
  exact ⟨hfresh _ h, .refl _ _⟩

/-- A program of the transport that adds routine entries. -/
theorem quietly_onSession {p : SessionProg α}
    (h : p.Within (fun s s' => Grows isRoutine s.log s'.log)
      fun s s' => Grows isRoutine s.log s'.log) : Quietly (onSession p) := by
  intro w
  simp only [onSession, ensures_zoom]
  exact (h w.session).mono (fun _ s' hlog => Quiet.of_session hlog)
    fun _ s' hlog => (Quiet.of_session hlog).toCalm

theorem routine_of_left {s s' : Session} {P : Bytes → Prop} (h : s.Left P s') :
    Grows isRoutine s.log s'.log := by
  obtain hlog | ⟨q, -, hlog⟩ := h
  · rw [hlog]
    exact .refl _ _
  · exact .one rfl hlog

theorem quietly_write (q : Bytes) : Quietly (write env q) :=
  quietly_onSession fun _ => writePacket_ensures (fun _ _ => .one rfl rfl)
    fun _ _ h => routine_of_left h

/-- The packet in the log, or a failure that leaves the record alone. -/
theorem write_ends {q : Bytes} {ok : Unit → World → Prop} {err : TransportError → World → Prop}
    (hok : ∀ tick bytesTx, ok () (w.sent tick bytesTx q)) (herr : ∀ e w', Calm w w' → err e w') :
    (write env q).Ensures w ok err := by
  have hsent : (write env q).Ensures w (fun _ => ok ()) fun _ _ => True :=
    write_ensures hok fun _ _ _ => trivial
  exact (hsent.and (quietly_write q w)).mono (fun _ _ h => h.1) fun e w' h => herr e w' h.2

theorem quietly_refuse (reason : Reason) : Quietly (refuse env reason : DriverProg α) :=
  quietly_onSession fun _ => disconnect_ensures fun _ h => routine_of_left h

theorem quietly_ask (f : ℕ → α) : Quietly (onSession (ask f)) :=
  fun _ => Quiet.atTick _

theorem routine_of_rekeys {p : Bytes} {s s' : Session} {step : RekeyStep}
    (h : Rekeys env p s step s') : Grows isRoutine s.log s'.log := by
  cases h with
  | opened => exact .one rfl rfl
  | answered => exact .refl _ _
  | passed => exact .refl _ _
  | skipped => exact .refl _ _
  | replied =>
    -- The reply and NEWKEYS.
    have hreply : ∀ tick bytesTx q, Grows isRoutine s.log (s.sent tick bytesTx q).log :=
      fun _ _ _ => .one rfl rfl
    exact (hreply _ _ _).trans (.one rfl rfl)
  | completed => exact .one rfl rfl

theorem routine_of_rekeyFails {p : Bytes} {s s' : Session} (h : RekeyFails p s s') :
    Grows isRoutine s.log s'.log := by
  have hsent : ∀ tick bytesTx q, Grows isRoutine s.log (s.sent tick bytesTx q).log :=
    fun _ _ _ => .one rfl rfl
  cases h with
  | refused hleft => exact routine_of_left hleft
  | opening cookie hphase hmsg hleft => exact routine_of_left hleft
  | openedRefused cookie tick bytesTx hphase hmsg hleft =>
    exact (hsent tick bytesTx _).trans (routine_of_left hleft)
  | replying q iC iS n hphase hq hleft => exact routine_of_left hleft
  | finishing q iC iS n tick bytesTx hphase hq hleft =>
    exact (hsent tick bytesTx q).trans (routine_of_left hleft)

theorem quietly_stepRekey (p : Bytes) : Quietly (onSession (stepRekey env p)) :=
  quietly_onSession fun _ => stepRekey_ensures (fun _ _ h => routine_of_rekeys h)
    fun _ _ h => routine_of_rekeyFails h

theorem quietly_beginRekey : Quietly (onSession (beginRekey env)) :=
  quietly_onSession fun _ => beginRekey_ensures (fun _ _ _ _ _ => .one rfl rfl)
    fun _ _ _ h => routine_of_left h

theorem quietly_rekeyTimeout : Quietly (onSession (rekeyTimeout env) : DriverProg α) :=
  quietly_onSession fun _ => disconnect_ensures fun _ h => routine_of_left h

/-! ### The phases and the quiet handlers -/

theorem quietly_flushLoop (fuel : ℕ) : Quietly (flushLoop env fuel) := by
  induction fuel with
  | zero => exact quietly_pure ()
  | succ fuel ih =>
    refine quietly_look_bind fun d => ?_
    split
    next => exact quietly_pure ()
    next =>
      split
      next => exact quietly_pure ()
      next p _ =>
        split
        next => exact quietly_pure ()
        next =>
          dsimp only
          split
          next => exact quietly_pure ()
          next =>
            have htake : ∀ f : Driver → Option PendingOut,
                Quietly (updateDriver fun d => { d with pendingOut := f d }) := fun _ =>
              quietly_updateDriver (fun _ => rfl) (fun _ => rfl) (fun _ => rfl) fun _ _ => rfl
            refine (htake _).bind fun _ => (quietly_write _).bind fun _ => .bind ?_ fun _ => ih
            exact quietly_updateDriver (fun _ => rfl) (fun _ => rfl) (fun _ => rfl) fun _ _ => rfl

theorem quietly_flushPhase : Quietly (flushPhase env) := by
  refine quietly_look_bind fun active => ?_
  split
  next => exact quietly_look_bind fun pending => quietly_flushLoop _
  next => exact quietly_pure ()

theorem Feeds.quiet (h : Feeds w w') : Quiet w w' := by
  cases h with
  | childless => exact .refl _
  | empty => exact .refl _
  | returned => exact ⟨⟨rfl, id, .refl _ _⟩, rfl, fun _ => ⟨rfl, .refl _ _⟩⟩
  | queued child chunk preExec hchild =>
    refine ⟨⟨?_, ?_, .one rfl rfl⟩, rfl, fun _ => ⟨rfl, .one rfl rfl⟩⟩
    · simp [World.mapDriver, World.observe, Driver.execFields, Driver.received, hchild]
    · simp [World.mapDriver, World.observe, Driver.holdsMaster, hchild]
  | dropped => exact ⟨⟨rfl, id, .refl _ _⟩, rfl, fun _ => ⟨rfl, .refl _ _⟩⟩

theorem HandsOff.quiet (h : HandsOff w w') : Quiet w w' := by
  cases h with
  | fed h => exact h.quiet
  | closed h h' =>
    refine h.quiet.trans ?_
    cases h' with
    | closed child hchild =>
      refine ⟨⟨?_, ?_, .one rfl rfl⟩, rfl, fun _ => ⟨rfl, .one rfl rfl⟩⟩
      · simp [World.mapDriver, World.observe, Driver.execFields, Driver.received, hchild,
          ChildIo.closeStdin]
      · simp [World.mapDriver, World.observe, Driver.holdsMaster, hchild, ChildIo.closeStdin]

theorem quietly_handoffStdin : Quietly handoffStdin :=
  fun _ => handoffStdin_ensures.mono (fun _ _ h => h.quiet) fun _ _ h => h.elim

theorem quietly_replenishWindow : Quietly (replenishWindow env) := by
  refine quietly_look_bind fun d => ?_
  split
  next =>
    refine (quietly_write _).bind fun _ => ?_
    exact quietly_updateDriver (fun _ => rfl) (fun _ => rfl) (fun _ => rfl) fun _ _ => rfl
  next => exact quietly_pure ()

theorem quietly_rekeyIfDue : Quietly (rekeyIfDue env) := by
  refine (quietly_ask _).bind fun now => quietly_look_bind fun w => ?_
  split
  next => exact quietly_beginRekey
  next => exact quietly_pure ()

theorem quietly_setState {s : ChannelState} (hs : s.fresh = false) :
    Quietly (updateDriver fun d => { d with state := s }) := by
  refine quietly_updateDriver (fun _ => rfl) (fun _ => rfl) (fun _ => rfl) fun d hfresh => ?_
  exact absurd (hs.symm.trans hfresh) (by simp)

theorem quietly_sendTerminal : Quietly (sendTerminal env) := by
  refine quietly_look_bind fun d => ?_
  split
  next => exact (quietly_write _).bind fun _ => quietly_setState rfl
  next =>
    have hend : Quietly (write env (buildEof d.peerChan) >>= fun _ =>
        write env (buildClose d.peerChan) >>= fun _ =>
          updateDriver fun d => { d with state := .serverClosed }) :=
      (quietly_write _).bind fun _ => (quietly_write _).bind fun _ => quietly_setState rfl
    split
    next => exact (quietly_write _).bind fun _ => hend
    next => exact (quietly_pure ()).bind fun _ => hend

/-- The events of the child and the timer, apart from the packets. -/
theorem Occurs.quiet {event : Event} (h : Occurs event w w') : Quiet w w' := by
  cases h with
  | chunk => exact ⟨⟨rfl, id, .one rfl rfl⟩, rfl, fun _ => ⟨rfl, .one rfl rfl⟩⟩
  | unsent => exact .refl _
  | exited exit hstate =>
    -- The channel emits output, so it is not fresh.
    refine ⟨⟨rfl, id, .refl _ _⟩, rfl, fun hfresh => ⟨?_, .refl _ _⟩⟩
    simp only [World.mapDriver] at hfresh ⊢
    split at hfresh
    next => cases hfresh
    next hrunning => rw [if_neg hrunning]
  | ended hstate hchild =>
    refine ⟨⟨?_, fun hmaster => ?_, .refl _ _⟩, rfl, fun _ => ⟨rfl, .refl _ _⟩⟩
    · simp only [World.mapDriver, Driver.execFields, Driver.received, Option.map_map, Option.isSome_map]
      rfl
    · simpa [World.mapDriver, Driver.holdsMaster, Option.any_map] using hmaster
  | credit child n rest hchild hconsumed =>
    refine ⟨⟨?_, ?_, .one rfl rfl⟩, rfl, fun _ => ⟨rfl, .one rfl rfl⟩⟩
    · simp [World.mapDriver, World.observe, Driver.execFields, Driver.received, hchild, hconsumed]
    · simp [World.mapDriver, World.observe, Driver.holdsMaster, hchild]
  | creditsEnded => exact ⟨⟨rfl, id, .refl _ _⟩, rfl, fun _ => ⟨rfl, .refl _ _⟩⟩
  | woken => exact .refl _

theorem quietly_reply (wantReply success : Bool) : Quietly (reply env wantReply success) := by
  refine quietly_look_bind fun peerChan => ?_
  split
  next => exact quietly_write _
  next => exact quietly_pure ()

theorem quietly_onWindowChange (r : Bytes) (wantReply : Bool) :
    Quietly (onWindowChange env r wantReply) := by
  unfold onWindowChange
  split
  next =>
    refine quietly_look_bind fun d => (quietly_ask _).bind fun resized => ?_
    exact quietly_reply _ _
  next => exact quietly_refuse _

theorem quietly_onChannelData (r : Bytes) : Quietly (onChannelData env r) := by
  unfold onChannelData
  split
  next recipient data rest hread =>
    refine quietly_look_bind fun d => ?_
    split
    next => exact quietly_refuse _
    next =>
      split
      next => exact quietly_pure ()
      next =>
        split
        next => exact quietly_refuse _
        next =>
          split
          next => exact quietly_refuse _
          next =>
            have hupdate : ∀ f : Driver → ℕ × List Bytes × Option Bytes,
                Quietly (updateDriver fun d => { d with
                  inWindow := (f d).1, preExecStdin := (f d).2.1, pendingStdin := (f d).2.2 }) :=
              fun _ => quietly_updateDriver (fun _ => rfl) (fun _ => rfl) (fun _ => rfl)
                fun _ _ => rfl
            refine (quietly_note rfl).bind fun _ => .bind ?_ fun _ => ?_
            · exact hupdate fun d => (d.inWindow - data.length, d.preExecStdin, d.pendingStdin)
            · split
              next => exact hupdate fun d => (d.inWindow, d.preExecStdin ++ [data], d.pendingStdin)
              next =>
                split
                next =>
                  exact hupdate fun d =>
                    (d.inWindow, d.preExecStdin, some (d.pendingStdin.getD [] ++ data))
                next => exact quietly_pure ()
  next => exact quietly_refuse _

/-- The client's CLOSE is handled, and the channel is not fresh after it. -/
theorem onChannelClose_ends {p : Bytes} (r : Bytes) :
    (onChannelClose env r).Ensures (w.observe (.handled p)) (fun _ w' => Quiet w w')
      fun _ w' => Calm w w' := by
  have hnoted : Calm w (w.observe (.handled p)) := ⟨rfl, id, .one rfl rfl⟩
  have hrefused : ∀ reason, (refuse env reason : DriverProg Unit).Ensures (w.observe (.handled p))
      (fun _ w' => Quiet w w') fun _ w' => Calm w w' := by
    intro reason
    simp only [refuse, onSession, ensures_zoom]
    exact disconnect_ensures fun _ h => hnoted.trans (Quiet.of_session (routine_of_left h)).toCalm
  unfold onChannelClose
  split
  next =>
    simp only [ensures_bind, ensures_look]
    split
    next => exact hrefused _
    next =>
      split
      next => exact ⟨⟨rfl, id, .one rfl rfl⟩, rfl, fun hfresh => by cases hfresh⟩
      next =>
        refine ⟨⟨?_, ?_, .one rfl rfl⟩, rfl, fun hfresh => by cases hfresh⟩
        · simp only [World.mapDriver, World.observe, Driver.execFields, Driver.received,
            Option.map_map, Option.isSome_map]
          rfl
        · simp [World.mapDriver, World.observe, Driver.holdsMaster, Option.any_map,
            ChildIo.discardOutput, ChildIo.kill]
  next => exact hrefused _

theorem quietly_onWindowAdjust (r : Bytes) : Quietly (onWindowAdjust env r) := by
  unfold onWindowAdjust
  split
  next =>
    split
    next => exact quietly_refuse _
    next =>
      refine .bind ?_ fun _ => quietly_look_bind fun d => ?_
      · exact quietly_updateDriver (fun _ => rfl) (fun _ => rfl) (fun _ => rfl) fun _ _ => rfl
      · split
        next => exact quietly_refuse _
        next => exact quietly_pure ()
  next => exact quietly_refuse _

theorem quietly_onChannelEof (r : Bytes) : Quietly (onChannelEof env r) := by
  unfold onChannelEof
  split
  next =>
    split
    next => exact quietly_refuse _
    next => exact quietly_updateDriver (fun _ => rfl) (fun _ => rfl) (fun _ => rfl) fun _ _ => rfl
  next => exact quietly_refuse _

end QuantumSsh.Channel
