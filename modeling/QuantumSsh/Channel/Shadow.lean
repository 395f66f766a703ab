import QuantumSsh.Channel.Lockstep
import QuantumSsh.Channel.Turns

/-!
# A connection and its shadow

Connections that differ in messages without effect and in how far stdin got on its way
to the child. Everything the loop does, it does alike on both.
-/

namespace QuantumSsh.Channel

open Wire Kex Machine Program Transport

/-- IGNORE, DEBUG and UNIMPLEMENTED. -/
def isNoop (payload : Bytes) : Bool :=
  payload.head? = some sshMsgIgnore || payload.head? = some sshMsgUnimplemented ||
    payload.head? = some sshMsgDebug

/-- The entries that the peer, or the child's output, can tell. -/
def shown : Obs → Bool
  | .received p | .handled p => !isNoop p
  | .queued _ | .stdinEof | .execFinished _ _ => false
  | _ => true

/-- Hides deferred messages without effect, and where stdin is. -/
def Mask.pipe : Mask where
  inbox b := { b with preExecStdin := [], pendingStdin := none }
  child c := { c with
    stdinOpen := true, queue := [], writing := [], pumpAlive := true, consumed := [] }
  deferred := List.filter fun p => !isNoop p
  received _ := 0
  spawned _ := rfl
  master _ := rfl
  killed _ := rfl

/-- The connections show the same. -/
structure Shadow (w w' : World) : Prop where
  session : w.session.core = w'.session.core
  log : w.session.log.filter shown = w'.session.log.filter shown
  driver : w.driver.core .pipe = w'.driver.core .pipe

/-- They show the same, and get the same answers from here on. -/
abbrev Shadows (env env' : Env) (w w' : World) : Prop :=
  Twins (Driver.core .pipe) shown env env' w w'

variable {env env' : Env} {w w' w₁ : World} {α : Type}

theorem Shadow.refl (w : World) : Shadow w w := ⟨rfl, rfl, rfl⟩

theorem Shadow.symm (h : Shadow w w') : Shadow w' w :=
  ⟨h.session.symm, h.log.symm, h.driver.symm⟩

theorem Shadow.trans (h : Shadow w w₁) (h' : Shadow w₁ w') : Shadow w w' :=
  ⟨h.session.trans h'.session, h.log.trans h'.log, h.driver.trans h'.driver⟩

theorem Shadow.same {β : Type} (h : Shadow w w') (g : Driver → β)
    (hg : ∀ d, g d = g (d.core .pipe)) : g w.driver = g w'.driver := by
  rw [hg w.driver, hg w'.driver, h.driver]

theorem Shadow.phase (h : Shadow w w') : w.session.rekey.phase = w'.session.rekey.phase := by
  have hphase : ∀ s : Session, s.rekey.phase = s.core.rekey.phase := fun _ => rfl
  rw [hphase, hphase w'.session, h.session]

theorem Shadow.shadows (h : Shadow w w')
    (hagree : env.after w.session.tick = env'.after w'.session.tick) : Shadows env env' w w' :=
  ⟨⟨h.session, h.log, hagree⟩, h.driver⟩

namespace Shadows

theorem shadow (h : Shadows env env' w w') : Shadow w w' :=
  ⟨h.session.core, h.session.log, h.driver⟩

/-! ### Inbound messages -/

theorem onChannelOpen (h : Shadows env env' w w') (r : Bytes) :
    (onChannelOpen env r).Couples (onChannelOpen env' r) w w' (Shadows env env') := by
  unfold Channel.onChannelOpen
  cases readChannelOpen.run r with
  | error => exact h.refuse _
  | ok fields =>
    obtain ⟨⟨ctype, sender, window, maxPkt⟩, rest⟩ := fields
    refine couples_look ?_
    rw [← h.same Driver.state fun _ => rfl]
    refine couples_ite (fun _ => h.write _) fun _ => couples_ite (fun _ => h.write _) fun _ => ?_
    refine couples_ite (fun _ => h.refuse _) fun _ => ?_
    exact couples_bind (h.update _ fun _ => rfl) (fun _ _ _ h => h.write _) fun _ _ h => h

theorem onChannelData (h : Shadows env env' w w') (r : Bytes) :
    (onChannelData env r).Couples (onChannelData env' r) w w' (Shadows env env') := by
  unfold Channel.onChannelData
  cases readChannelData.run r with
  | error => exact h.refuse _
  | ok fields =>
    obtain ⟨⟨recipient, data⟩, rest⟩ := fields
    refine h.look (fun d => by simp [Driver.core, Driver.withInbox, Mask.pipe, Driver.inbox])
      (fun d => by simp [Driver.core, Driver.withInbox, Mask.pipe, Driver.inbox]) fun d _ => ?_
    refine couples_ite (fun _ => h.refuse _) fun _ => couples_ite (fun _ => couples_pure () h)
      fun _ => ?_
    refine couples_ite (fun _ => h.refuse _) fun _ => couples_ite (fun _ => h.refuse _)
      fun _ => ?_
    refine couples_bind (h.note _) ?_ fun _ _ h => h
    intro _ u u' h₁
    refine couples_bind (h₁.update _ fun _ => rfl) ?_ fun _ _ h => h
    intro _ u u' h₂
    refine couples_ite (fun _ => ?_) fun _ => couples_ite (fun _ => ?_) fun _ => couples_pure () h₂
    · exact h₂.change fun hcore => hcore
    · exact h₂.change fun hcore => hcore

theorem onWindowAdjust (h : Shadows env env' w w') (r : Bytes) :
    (onWindowAdjust env r).Couples (onWindowAdjust env' r) w w' (Shadows env env') := by
  unfold Channel.onWindowAdjust
  cases readWindowAdjust.run r with
  | error => exact h.refuse _
  | ok fields =>
    obtain ⟨⟨recipient, add⟩, rest⟩ := fields
    refine couples_ite (fun _ => h.refuse _) fun _ => ?_
    refine couples_bind (h.update _ fun _ => rfl) ?_ fun _ _ h => h
    intro _ u u' h₁
    refine h₁.look (fun _ => rfl) (fun _ => rfl) fun d _ => ?_
    exact couples_ite (fun _ => h₁.refuse _) fun _ => couples_pure () h₁

theorem onChannelEof (h : Shadows env env' w w') (r : Bytes) :
    (onChannelEof env r).Couples (onChannelEof env' r) w w' (Shadows env env') := by
  unfold Channel.onChannelEof
  cases Reader.uint32.run r with
  | error => exact h.refuse _
  | ok fields =>
    obtain ⟨recipient, rest⟩ := fields
    exact couples_ite (fun _ => h.refuse _) fun _ => h.update _ fun _ => rfl

theorem handleInbound (h : Shadows env env' w w') (p : Bytes) :
    (handleInbound env p).Couples (handleInbound env' p) w w' (Shadows env env') := by
  refine couples_bind (h.note (.handled p)) ?_ fun _ _ h => h
  intro _ u u' h₁
  cases p with
  | nil => exact h₁.refuse _
  | cons msg r =>
    exact h₁.dispatch msg r (Shadows.onChannelOpen h₁ r) (fun _ => Shadows.onChannelData h₁ r)
      (fun _ => Shadows.onWindowAdjust h₁ r) fun _ => Shadows.onChannelEof h₁ r

/-! ### The phases of the loop -/

theorem flushLoop (h : Shadows env env' w w') (fuel : ℕ) :
    (flushLoop env fuel).Couples (flushLoop env' fuel) w w' (Shadows env env') := by
  induction fuel generalizing w w' with
  | zero => exact couples_pure () h
  | succ fuel ih =>
    refine h.look (fun _ => rfl) (fun _ => rfl) fun d _ => ?_
    refine couples_ite (fun _ => couples_pure () h) fun _ => ?_
    cases d.pendingOut with
    | none => exact couples_pure () h
    | some p =>
      refine couples_ite (fun _ => couples_pure () h) fun _ => ?_
      refine couples_ite (fun _ => couples_pure () h) fun _ => ?_
      refine couples_bind (h.update _ fun _ => rfl) ?_ fun _ _ h => h
      intro _ u u' h₁
      refine couples_bind (h₁.write _) ?_ fun _ _ h => h
      intro _ u u' h₂
      exact couples_bind (h₂.update _ fun _ => rfl) (fun _ _ _ h => ih h) fun _ _ h => h

theorem rekeyActive (h : Shadows env env' w w') :
    w.session.rekeyActive = w'.session.rekeyActive :=
  h.session.same Session.rekeyActive fun _ => rfl

theorem flushPhase (h : Shadows env env' w w') :
    (flushPhase env).Couples (flushPhase env') w w' (Shadows env env') := by
  refine couples_look ?_
  rw [h.rekeyActive]
  refine couples_ite (fun _ => couples_look ?_) fun _ => couples_pure () h
  rw [h.same Driver.pendingOut fun _ => rfl]
  exact Shadows.flushLoop h _

theorem replenishWindow (h : Shadows env env' w w') :
    (replenishWindow env).Couples (replenishWindow env') w w' (Shadows env env') := by
  refine h.look (fun _ => rfl) (fun _ => rfl) fun d _ => ?_
  refine couples_ite (fun _ => ?_) fun _ => couples_pure () h
  exact couples_bind (h.write _) (fun _ _ _ h => h.update _ fun _ => rfl) fun _ _ h => h

theorem sendTerminal (h : Shadows env env' w w') :
    (sendTerminal env).Couples (sendTerminal env') w w' (Shadows env env') := by
  have hclose : ∀ d : Driver, ∀ state u u', Shadows env env' u u' →
      (write env (buildClose d.peerChan) >>= fun _ =>
        updateDriver fun d => { d with state }).Couples
      (write env' (buildClose d.peerChan) >>= fun _ =>
        updateDriver fun d => { d with state }) u u' (Shadows env env') :=
    fun d state u u' h => couples_bind (h.write _) (fun _ _ _ h => h.update _ fun _ => rfl)
      fun _ _ h => h
  refine h.look (fun _ => rfl) (fun _ => rfl) fun d _ => ?_
  refine couples_ite (fun _ => hclose d _ _ _ h) fun _ => ?_
  have hterminal : ∀ u u', Shadows env env' u u' →
      (write env (buildEof d.peerChan) >>= fun _ => write env (buildClose d.peerChan) >>= fun _ =>
        updateDriver fun d => { d with state := .serverClosed }).Couples
      (write env' (buildEof d.peerChan) >>= fun _ => write env' (buildClose d.peerChan) >>= fun _ =>
        updateDriver fun d => { d with state := .serverClosed }) u u' (Shadows env env') :=
    fun u u' h => couples_bind (h.write _) (fun _ _ _ h => hclose d _ _ _ h) fun _ _ h => h
  cases d.exitReport with
  | none => exact hterminal _ _ h
  | some report => exact couples_bind (h.write _) (fun _ => hterminal) fun _ _ h => h

end Shadows

/-- The driver that has emitted `exec.finished`, under the mask. -/
theorem core_emitFinished (w : World) :
    w.emitFinished.driver.core .pipe = { w.driver.core .pipe with
      finishedEmitted := w.driver.finishedEmitted || w.driver.command.isSome } := by
  unfold World.emitFinished
  by_cases h : w.driver.command.isSome = true ∧ (!w.driver.finishedEmitted) = true
  · rw [if_pos h]
    cases hchild : w.driver.child <;>
      simp [World.observe, Driver.core, Driver.withInbox, Driver.inbox, Mask.pipe, hchild, h.1]
  · rw [if_neg h]
    have hsame : (w.driver.finishedEmitted || w.driver.command.isSome) =
        w.driver.finishedEmitted := by
      cases hemitted : w.driver.finishedEmitted with
      | true => rfl
      | false => simpa [hemitted] using h
    rw [hsame]
    rfl

/-- `exec.finished` is not shown. -/
theorem session_emitFinished (w : World) :
    w.emitFinished.session.core = w.session.core ∧
      w.emitFinished.session.log.filter shown = w.session.log.filter shown ∧
      w.emitFinished.session.tick = w.session.tick := by
  unfold World.emitFinished
  split
  · exact ⟨rfl, by simp [World.observe, Session.observe, shown], rfl⟩
  · exact ⟨rfl, rfl, rfl⟩

theorem Shadow.emitFinished (h : Shadow w w') : Shadow w.emitFinished w'.emitFinished := by
  obtain ⟨hcore, hlog, -⟩ := session_emitFinished w
  obtain ⟨hcore', hlog', -⟩ := session_emitFinished w'
  have hemitted : w.driver.finishedEmitted = w'.driver.finishedEmitted :=
    h.same _ fun _ => rfl
  have hcommand : w.driver.command = w'.driver.command := h.same _ fun _ => rfl
  refine ⟨?_, ?_, ?_⟩
  · rw [hcore, hcore', h.session]
  · rw [hlog, hlog', h.log]
  · rw [core_emitFinished, core_emitFinished, h.driver, hemitted, hcommand]

theorem crossed_replenishWindow (env : Env) (w : World) :
    (replenishWindow env w).2.session.crossed = w.session.crossed := by
  simp only [replenishWindow, bind, Prog.bind, look]
  split
  · have hwrite : (write env (buildWindowAdjust w.driver.peerChan w.driver.creditPending)
        w).2.session.crossed = w.session.crossed := crossed_writePacket env _ w.session
    rcases hrun : write env (buildWindowAdjust w.driver.peerChan w.driver.creditPending) w
      with ⟨_ | _, w₁⟩
    all_goals
      rw [hrun] at hwrite
      simp only [Prog.bind, hrun]
      exact hwrite
  · rfl

namespace Shadows

theorem closeIfReady (h : Shadows env env' w w') :
    (closeIfReady env).Couples (closeIfReady env') w w' (Shadows env env') := by
  have hfinish : ∀ u u', Shadows env env' u u' →
      (do
        let d ← look World.driver
        if d.state = .closed then do
          update World.emitFinished
          return true
        else return false : DriverProg Bool).Couples
      (do
        let d ← look World.driver
        if d.state = .closed then do
          update World.emitFinished
          return true
        else return false) u u' (Shadows env env') := by
    intro u u' h
    refine h.look (fun _ => rfl) (fun _ => rfl) fun d _ => ?_
    refine couples_ite (fun _ => ?_) fun _ => couples_pure false h
    refine couples_bind (couples_update ?_) (fun _ _ _ h => couples_pure true h) fun _ _ h => h
    refine h.shadow.emitFinished.shadows ?_
    rw [(session_emitFinished u).2.2, (session_emitFinished u').2.2]
    exact h.session.agree
  refine h.look (fun _ => rfl) (fun _ => rfl) fun d _ => ?_
  refine couples_ite (fun _ => ?_) fun _ => hfinish _ _ h
  exact couples_bind (Shadows.sendTerminal h) (fun _ => hfinish) fun _ _ h => h

/-- A re-key is due in both if what was received has crossed the same thresholds. -/
theorem rekeyIfDue (h : Shadows env env' w w') (hcrossed : w.session.crossed = w'.session.crossed) :
    (rekeyIfDue env).Couples (rekeyIfDue env') w w' (Shadows env env') := by
  refine couples_bind ((h.ask fun _ _ => rfl).keeping (f := fun w => w.session.crossed)
    (g := fun w => w.session.crossed) hcrossed rfl rfl) ?_ fun _ _ h => h.1
  rintro now u u' ⟨h₁, hcrossed₁⟩
  refine couples_look (couples_ite_of_iff ?_ (fun _ => ?_) fun _ => couples_pure () h₁)
  · simp only [id_eq]
    rw [h₁.session.rekeyDue hcrossed₁ now, h₁.same Driver.state fun _ => rfl]
  · exact h₁.onSession (h₁.session.beginRekey hcrossed₁)

theorem settlePhase (h : Shadows env env' w w') (hcrossed : w.session.crossed = w'.session.crossed) :
    (settlePhase env).Couples (settlePhase env') w w' (Shadows env env') := by
  refine couples_look ?_
  rw [h.rekeyActive]
  refine couples_ite (fun _ => couples_pure false h) fun _ => ?_
  refine couples_bind ((Shadows.replenishWindow h).keeping (f := fun w => w.session.crossed)
    (g := fun w => w.session.crossed) hcrossed (crossed_replenishWindow env w)
    (crossed_replenishWindow env' w')) ?_ fun _ _ h => h.1
  rintro _ u u' ⟨h₁, hcrossed₁⟩
  refine couples_bind (Shadows.rekeyIfDue h₁ hcrossed₁) ?_ fun _ _ h => h
  intro _ u u' h₂
  refine couples_look ?_
  rw [h₂.rekeyActive]
  exact couples_ite (fun _ => couples_pure false h₂) fun _ => Shadows.closeIfReady h₂

end Shadows

/-- The credit the driver takes next. -/
def Driver.nextCredit (d : Driver) : Option ℕ := d.child.bind fun c => c.consumed.head?

/-- The driver that took a credit. -/
def Driver.credited (d : Driver) (n : ℕ) : Driver :=
  { d with
    creditPending := saturatingAdd u32Max d.creditPending n
    bytesReceived := saturatingAdd u64Max d.bytesReceived n
    child := d.child.map fun c : ChildIo => { c with consumed := c.consumed.tail } }

theorem onCredit_eq (w : World) :
    onCredit w = match w.driver.nextCredit with
      | some n => (.ok (), (w.observe (.credited n)).mapDriver fun d => d.credited n)
      | none => (.ok (), w.mapDriver fun d => { d with consumedClosed := true }) := by
  simp only [onCredit, bind, Prog.bind, look]
  cases hchild : w.driver.child with
  | none => simp [Driver.nextCredit, hchild, updateDriver, update]
  | some child =>
    cases hconsumed : child.consumed with
    | nil => simp [Driver.nextCredit, hchild, hconsumed, updateDriver, update]
    | cons n rest =>
      simp [Driver.nextCredit, hchild, hconsumed, updateDriver, update, note, Driver.credited,
        World.mapDriver, World.observe, Prog.bind]

theorem core_credited (d : Driver) (n : ℕ) :
    (d.credited n).core .pipe = { d.core .pipe with
      creditPending := saturatingAdd u32Max (d.core .pipe).creditPending n } := by
  cases hchild : d.child <;>
    simp [Driver.credited, Driver.core, Driver.withInbox, Driver.inbox, Mask.pipe, hchild]

/-! ### Messages that wait -/

/-- The message has to wait for the end of the re-key. -/
def World.defers (w : World) (payload : Bytes) : Bool :=
  (w.session.rekey.phase matches .sentKexInit _) && payload.head? ≠ some sshMsgKexinit &&
    !isInline payload

/-- The message has to wait, and there is no room for it. -/
def World.overflows (w : World) (payload : Bytes) : Bool :=
  w.defers payload && decide (maxDeferred ≤ w.driver.deferred.length)

theorem handleInbound_noop {p : Bytes} (hp : isNoop p = true) (env : Env) (w : World) :
    handleInbound env p w = (.ok (), w.observe (.handled p)) := by
  cases p with
  | nil => cases hp
  | cons msg r =>
    simp only [isNoop, List.head?_cons, Option.some.injEq, Bool.or_eq_true,
      decide_eq_true_eq] at hp
    obtain (rfl | rfl) | rfl := hp <;> rfl

theorem shadow_handled {p : Bytes} (hp : isNoop p = true) (w : World) :
    Shadow w (w.observe (.handled p)) :=
  ⟨rfl, by simp [World.observe, Session.observe, shown, hp], rfl⟩

theorem Shadows.trans {env₁ : Env} (h : Shadows env env₁ w w₁) (h' : Shadows env₁ env' w₁ w') :
    Shadows env env' w w' :=
  (h.shadow.trans h'.shadow).shadows (h.session.agree.trans h'.session.agree)

theorem Shadows.symm (h : Shadows env env' w w') : Shadows env' env w' w :=
  h.shadow.symm.shadows h.session.agree.symm

/-- Handling the messages without effect as well makes no difference. -/
theorem Shadows.handleThinned (h : Shadows env env' w w') (ps : List Bytes) :
    (forEach (Channel.handleInbound env) ps).Couples
      (forEach (Channel.handleInbound env') (ps.filter fun p => !isNoop p)) w w'
      (Shadows env env') := by
  induction ps generalizing w w' with
  | nil => exact couples_pure () h
  | cons p ps ih =>
    cases hp : isNoop p with
    | true =>
      have hself : Shadows env env (w.observe (.handled p)) w :=
        (shadow_handled hp w).symm.shadows rfl
      have hnext := ih (hself.trans h)
      rw [List.filter_cons_of_neg (by simp [hp])]
      simp only [forEach, Prog.Couples, bind, Prog.bind, handleInbound_noop hp]
      exact hnext
    | false =>
      rw [List.filter_cons_of_pos (by simp [hp])]
      exact couples_bind (Shadows.handleInbound h p) (fun _ _ _ h => ih h) fun _ _ h => h

theorem Shadows.handleAll (h : Shadows env env' w w') {ps ps' : List Bytes}
    (hps : ps.filter (fun p => !isNoop p) = ps'.filter fun p => !isNoop p) :
    (forEach (Channel.handleInbound env) ps).Couples (forEach (Channel.handleInbound env') ps') w w'
      (Shadows env env') := by
  have hself : Shadows env env w w := (Shadow.refl w).shadows rfl
  have hleft := Shadows.handleThinned hself ps
  have hright := (Shadows.handleThinned h.symm ps').symm
  rw [← hps] at hright
  refine (hleft.trans hright).mono ?_
  rintro u u' ⟨v, h, h'⟩
  exact h.trans h'.symm

/-! ### Events -/

namespace Shadows

/-- A message waits in both, or overflows in both. -/
theorem passToChannel (h : Shadows env env' w w') {p : Bytes} (hfull : isInline p = false →
      (maxDeferred ≤ w.driver.deferred.length ↔ maxDeferred ≤ w'.driver.deferred.length)) :
    (passToChannel env p).Couples (passToChannel env' p) w w' (Shadows env env') := by
  refine couples_ite (fun _ => Shadows.handleInbound h p) fun hinline => couples_look ?_
  refine couples_ite_of_iff (hfull (Bool.eq_false_iff.2 hinline)) (fun _ => h.refuse _) fun _ => ?_
  refine h.change fun hcore => ?_
  have hpush : ∀ d : Driver, ({ d with deferred := d.deferred ++ [p] } : Driver).core .pipe =
      { d.core .pipe with
        deferred := (d.core .pipe).deferred ++ [p].filter fun p => !isNoop p } := by
    intro d
    simp only [Driver.core, Mask.pipe, List.filter_append]
    rfl
  rw [hpush, hpush, hcore]

theorem drainDeferred (h : Shadows env env' w w') :
    (drainDeferred env).Couples (drainDeferred env') w w' (Shadows env env') := by
  have hps : w.driver.deferred.filter (fun p => !isNoop p) =
      w'.driver.deferred.filter fun p => !isNoop p := congrArg Driver.deferred h.driver
  refine couples_look (couples_bind (h.change fun hcore => ?_)
    (fun _ _ _ h => Shadows.handleAll h hps) fun _ _ h => h)
  have hnone : ∀ d : Driver, ({ d with deferred := [] } : Driver).core .pipe =
      { d.core .pipe with deferred := [] } := fun _ => rfl
  rw [hnone, hnone, hcore]

theorem onPacket (h : Shadows env env' w w') {p : Bytes}
    (hroom : w.overflows p = w'.overflows p) :
    (onPacket env p).Couples (onPacket env' p) w w' (Shadows env env') := by
  have harrived : Shadows env env' (w.arrived p) (w'.arrived p) :=
    ⟨(h.session.receive p).observe (.received p), h.driver⟩
  refine couples_update_bind (couples_update_bind (couples_look ?_))
  have hactive := harrived.rekeyActive
  refine couples_ite_of_iff (iff_of_eq (congrArg (· = true) hactive)) (fun _ => ?_) fun _ =>
    couples_ite (fun _ => ?_) fun _ => Shadows.handleInbound harrived p
  · -- Only a message that is passed on can overflow the queue.
    have hpassed : (onSession (stepRekey env p)).Ensures (w.arrived p)
        (fun step _ => step = .passToChannel →
          ∃ iS, w.session.rekey.phase = .sentKexInit iS ∧ p.head? ≠ some sshMsgKexinit)
        fun _ _ => True := by
      simp only [onSession, ensures_zoom]
      refine stepRekey_ensures (fun step s hrekeys hstep => ?_) fun _ _ _ => trivial
      subst hstep
      cases hrekeys with
      | passed iS hphase hmsg => exact ⟨iS, hphase, hmsg⟩
    refine couples_bind_of_ensures (R := fun u u' => Shadows env env' u u' ∧
      u.driver = w.driver ∧ u'.driver = w'.driver)
      (couples_zoom (harrived.session.stepRekey p) fun _ _ hs => ⟨⟨hs, h.driver⟩, rfl, rfl⟩)
      hpassed ?_ fun _ _ h => h.1
    rintro step u u' hstep ⟨h₁, hd, hd'⟩
    cases step with
    | continued => exact couples_pure () h₁
    | completed => exact Shadows.drainDeferred h₁
    | passToChannel =>
      obtain ⟨iS, hphase, hmsg⟩ := hstep rfl
      refine Shadows.passToChannel h₁ fun hinline => ?_
      rw [hd, hd']
      have hphase' : w'.session.rekey.phase = .sentKexInit iS :=
        (h.session.same (fun s => s.rekey.phase) fun _ => rfl).symm.trans hphase
      simpa [World.overflows, World.defers, hphase, hphase', hmsg, hinline] using hroom
  · exact couples_bind (harrived.onSession (harrived.session.stepRekey p))
      (fun _ _ _ h => couples_pure () h) fun _ _ h => h

theorem onOutput (h : Shadows env env' w w') (chunk : Option ChildChunk) :
    (onOutput chunk).Couples (onOutput chunk) w w' (Shadows env env') := by
  refine h.look (fun _ => rfl) (fun _ => rfl) fun d _ => ?_
  cases chunk with
  | none =>
    refine h.update _ fun d => ?_
    cases hchild : d.child <;>
      simp [Driver.core, Driver.withInbox, Driver.inbox, Mask.pipe, hchild]
  | some chunk =>
    cases chunk with
    | exited exit => exact h.update _ fun _ => rfl
    | out kind data =>
      refine couples_ite (fun _ => couples_pure () h) fun _ => ?_
      exact couples_bind (h.note _) (fun _ _ _ h => h.update _ fun _ => rfl) fun _ _ h => h

/-- Both take the same credit, or find the credits at an end. -/
theorem onCredit (h : Shadows env env' w w')
    (hcredit : w.driver.nextCredit = w'.driver.nextCredit) :
    onCredit.Couples onCredit w w' (Shadows env env') := by
  rw [Prog.Couples, onCredit_eq, onCredit_eq, ← hcredit]
  cases w.driver.nextCredit with
  | none =>
    have hended : ∀ d : Driver, ({ d with consumedClosed := true } : Driver).core .pipe =
        { d.core .pipe with consumedClosed := true } := fun _ => rfl
    refine ⟨rfl, h.session, ?_⟩
    change Driver.core .pipe { w.driver with consumedClosed := true } =
      Driver.core .pipe { w'.driver with consumedClosed := true }
    rw [hended, hended, h.driver]
  | some n =>
    refine ⟨rfl, h.session.observe (.credited n), ?_⟩
    change (w.driver.credited n).core .pipe = (w'.driver.credited n).core .pipe
    rw [core_credited, core_credited, h.driver]

end Shadows

end QuantumSsh.Channel
