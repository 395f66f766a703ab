import QuantumSsh.Channel.Sealing

/-!
# The errors a turn can end with

Three of the reasons to end a connection say that the peer's packets do not fit the
exchange. No handler of a message gives them, and the re-key machine gives them only for a
packet that it does not expect in its phase.
-/

namespace QuantumSsh.Channel

open Wire Kex Machine Program Transport

variable {env : Env} {σ α β : Type}

/-- The packets of the peer do not fit the exchange. -/
def isConfused : TransportError → Bool
  | .rejected .packetAuthFailed | .rejected .unexpectedDuringRekey | .rejected .expectedNewkeys => true
  | _ => false

/-- The program fails with other errors only. -/
def Composed (prog : Prog σ TransportError α) : Prop :=
  ∀ s, prog.Ensures s (fun _ _ => True) fun e _ => isConfused e = false

theorem composed_pure (a : α) : Composed (pure a : Prog σ TransportError α) := fun _ => trivial

theorem composed_look (f : σ → α) : Composed (look f : Prog σ TransportError α) := fun _ => trivial

theorem composed_update (f : σ → σ) : Composed (update f : Prog σ TransportError Unit) :=
  fun _ => trivial

theorem composed_fail {e : TransportError} (he : isConfused e = false) :
    Composed (fail e : Prog σ TransportError α) := fun _ => he

theorem Composed.bind {prog : Prog σ TransportError α} {f : α → Prog σ TransportError β}
    (h : Composed prog) (hf : ∀ a, Composed (f a)) : Composed (prog >>= f) := by
  intro s
  rw [ensures_bind]
  exact (h s).mono (fun a s' _ => hf a s') fun _ _ he => he

theorem Composed.ite {c : Prop} [Decidable c] {prog prog' : Prog σ TransportError α}
    (h : Composed prog) (h' : Composed prog') : Composed (if c then prog else prog') := by
  by_cases hc : c
  · rwa [if_pos hc]
  · rwa [if_neg hc]

theorem composed_look_bind {f : σ → α} {prog : α → Prog σ TransportError β}
    (h : ∀ a, Composed (prog a)) : Composed (look f >>= prog) :=
  (composed_look f).bind h

theorem Composed.forEach {f : α → Prog σ TransportError Unit} (h : ∀ a, Composed (f a))
    (as : List α) : Composed (forEach f as) :=
  fun _ => ensures_forEach (I := fun _ => True) (fun a _ s _ => h a s) trivial

/-! ### The transport -/

theorem composed_ask (f : ℕ → α) : Composed (ask f) := fun _ => trivial

theorem composed_writePacket (payload : Bytes) : Composed (writePacket env payload) :=
  fun _ => writePacket_ensures (fun _ _ => trivial) fun _ _ _ => rfl

theorem composed_disconnect {rejection : Rejection}
    (h : isConfused (.rejected rejection.reason) = false) :
    Composed (disconnect env rejection : SessionProg α) :=
  fun _ => disconnect_ensures fun _ _ => h

theorem composed_onSession {prog : SessionProg α} (h : Composed prog) :
    Composed (onSession prog) := by
  intro w
  rw [onSession, ensures_zoom]
  exact h w.session

theorem composed_write (payload : Bytes) : Composed (write env payload) :=
  composed_onSession (composed_writePacket payload)

theorem composed_refuse {reason : Reason} (h : isConfused (.rejected reason) = false) :
    Composed (refuse env reason : DriverProg α) :=
  composed_onSession (composed_disconnect h)

theorem composed_updateDriver (f : Driver → Driver) : Composed (updateDriver f) :=
  composed_update _

theorem composed_beginRekey : Composed (beginRekey env) :=
  fun _ => by
    simp only [beginRekey, ensures_bind, ask_ensures]
    split
    next =>
      simp only [ensures_bind]
      exact writePacket_ensures (fun _ _ => trivial) fun _ _ _ => rfl
    next => rfl

/-! ### Handling a message -/

theorem composed_reply (wantReply success : Bool) : Composed (reply env wantReply success) := by
  refine composed_look_bind fun peerChan => ?_
  split
  next => exact composed_write _
  next => exact composed_pure ()

theorem composed_start (what : Start) (wantReply : Bool) : Composed (start env what wantReply) := by
  refine composed_look_bind fun pending => (composed_updateDriver _).bind fun _ => ?_
  refine (composed_update _).bind fun _ => (composed_reply _ _).bind fun _ => ?_
  refine (composed_onSession (composed_ask _)).bind fun spawned => ?_
  split
  next => exact composed_updateDriver _
  next => exact composed_updateDriver _

theorem composed_onChannelOpen (r : Bytes) : Composed (onChannelOpen env r) := by
  unfold onChannelOpen
  split
  next =>
    refine composed_look_bind fun state => ?_
    split
    next => exact composed_write _
    next =>
      split
      next => exact composed_write _
      next =>
        split
        next => exact composed_refuse rfl
        next => exact (composed_updateDriver _).bind fun _ => composed_write _
  next => exact composed_refuse rfl

theorem composed_onPtyReq (r : Bytes) (wantReply : Bool) : Composed (onPtyReq env r wantReply) := by
  unfold onPtyReq
  split
  next =>
    split
    next =>
      refine composed_look_bind fun d => ?_
      dsimp only
      split
      next =>
        refine (composed_onSession (composed_ask _)).bind fun granted => ?_
        split
        next => exact (composed_updateDriver _).bind fun _ => composed_reply _ _
        next => exact composed_reply _ _
      next => exact composed_reply _ _
    next => exact composed_refuse rfl
  next => exact composed_refuse rfl

theorem composed_onSubsystem (r : Bytes) (wantReply : Bool) :
    Composed (onSubsystem env r wantReply) := by
  unfold onSubsystem
  split
  next =>
    refine composed_look_bind fun d => ?_
    split
    next => exact composed_start _ _
    next => exact composed_reply _ _
  next => exact composed_refuse rfl

theorem composed_onWindowChange (r : Bytes) (wantReply : Bool) :
    Composed (onWindowChange env r wantReply) := by
  unfold onWindowChange
  split
  next =>
    refine composed_look_bind fun d => (composed_onSession (composed_ask _)).bind fun resized => ?_
    exact composed_reply _ _
  next => exact composed_refuse rfl

theorem composed_onChannelRequest (r : Bytes) : Composed (onChannelRequest env r) := by
  unfold onChannelRequest
  split
  next =>
    refine composed_look_bind fun state => .ite (composed_refuse rfl) ?_
    refine .ite ?_ (.ite (composed_start _ _) (.ite (composed_onSubsystem _ _) ?_))
    · split
      next => exact .ite (composed_refuse rfl) (composed_start _ _)
      next => exact composed_refuse rfl
    · exact .ite (composed_onPtyReq _ _) (.ite (composed_onWindowChange _ _) (composed_reply _ _))
  next => exact composed_refuse rfl

theorem composed_onChannelData (r : Bytes) : Composed (onChannelData env r) := by
  unfold onChannelData
  split
  next =>
    refine composed_look_bind fun d => .ite (composed_refuse rfl) ?_
    refine .ite (composed_pure ()) (.ite (composed_refuse rfl) (.ite (composed_refuse rfl) ?_))
    refine (composed_update _).bind fun _ => (composed_updateDriver _).bind fun _ => ?_
    exact .ite (composed_updateDriver _) (.ite (composed_updateDriver _) (composed_pure ()))
  next => exact composed_refuse rfl

theorem composed_onWindowAdjust (r : Bytes) : Composed (onWindowAdjust env r) := by
  unfold onWindowAdjust
  split
  next =>
    refine .ite (composed_refuse rfl) ?_
    refine (composed_updateDriver _).bind fun _ => composed_look_bind fun d => ?_
    exact .ite (composed_refuse rfl) (composed_pure ())
  next => exact composed_refuse rfl

theorem composed_onChannelEof (r : Bytes) : Composed (onChannelEof env r) := by
  unfold onChannelEof
  split
  next => exact .ite (composed_refuse rfl) (composed_updateDriver _)
  next => exact composed_refuse rfl

theorem composed_onChannelClose (r : Bytes) : Composed (onChannelClose env r) := by
  unfold onChannelClose
  split
  next =>
    refine composed_look_bind fun state => .ite (composed_refuse rfl) ?_
    exact .ite (composed_updateDriver _) (composed_updateDriver _)
  next => exact composed_refuse rfl

theorem composed_dispatch (msg : UInt8) (r : Bytes) : Composed (dispatch env msg r) := by
  refine composed_look_bind fun state => ?_
  refine .ite (composed_onChannelOpen r) (.ite (composed_refuse rfl) ?_)
  refine .ite (composed_onChannelRequest r) (.ite (composed_onChannelData r) ?_)
  refine .ite (composed_onWindowAdjust r) (.ite (composed_onChannelEof r) ?_)
  refine .ite (composed_onChannelClose r) (.ite ?_ ?_)
  · split
    next => exact .ite (composed_write _) (composed_pure ())
    next => exact composed_refuse rfl
  · refine .ite (composed_pure ()) (.ite (composed_fail rfl) ?_)
    exact .ite (composed_refuse rfl) (composed_refuse rfl)

theorem composed_handleInbound (p : Bytes) : Composed (handleInbound env p) := by
  refine (composed_update _).bind fun _ => ?_
  split
  next => exact composed_refuse rfl
  next => exact composed_dispatch _ _

theorem composed_passToChannel (p : Bytes) : Composed (passToChannel env p) := by
  unfold passToChannel
  split
  next => exact composed_handleInbound p
  next =>
    refine composed_look_bind fun deferred => ?_
    split
    next => exact composed_refuse rfl
    next => exact composed_updateDriver _

theorem composed_drainDeferred : Composed (drainDeferred env) := by
  refine composed_look_bind fun deferred => (composed_updateDriver _).bind fun _ => ?_
  exact .forEach composed_handleInbound deferred

/-! ### The phases of the loop -/

theorem composed_flushPhase : Composed (flushPhase env) := by
  have hloop : ∀ fuel, Composed (flushLoop env fuel) := by
    intro fuel
    induction fuel with
    | zero => exact composed_pure ()
    | succ fuel ih =>
      refine composed_look_bind fun d => ?_
      split
      next => exact composed_pure ()
      next =>
        split
        next => exact composed_pure ()
        next =>
          split
          next => exact composed_pure ()
          next =>
            dsimp only
            split
            next => exact composed_pure ()
            next =>
              refine (composed_updateDriver _).bind fun _ => (composed_write _).bind fun _ => ?_
              exact (composed_updateDriver _).bind fun _ => ih
  refine composed_look_bind fun active => ?_
  split
  next => exact composed_look_bind fun pending => hloop _
  next => exact composed_pure ()

theorem composed_sendTerminal : Composed (sendTerminal env) := by
  refine composed_look_bind fun d => ?_
  split
  next => exact (composed_write _).bind fun _ => composed_updateDriver _
  next =>
    have hend : Composed (write env (buildEof d.peerChan) >>= fun _ =>
        write env (buildClose d.peerChan) >>= fun _ =>
          updateDriver fun d => { d with state := .serverClosed }) :=
      (composed_write _).bind fun _ => (composed_write _).bind fun _ => composed_updateDriver _
    split
    next => exact (composed_write _).bind fun _ => hend
    next => exact (composed_pure ()).bind fun _ => hend

theorem composed_closeIfReady : Composed (closeIfReady env) := by
  refine composed_look_bind fun d => ?_
  have hend : Composed (look World.driver >>= fun d =>
      if d.state = .closed then update World.emitFinished >>= fun _ => pure true
      else (pure false : DriverProg Bool)) := by
    refine composed_look_bind fun d => ?_
    split
    next => exact (composed_update _).bind fun _ => composed_pure true
    next => exact composed_pure false
  split
  next => exact composed_sendTerminal.bind fun _ => hend
  next => exact hend

theorem composed_settlePhase : Composed (settlePhase env) := by
  refine composed_look_bind fun active => ?_
  split
  next => exact composed_pure false
  next =>
    refine .bind ?_ fun _ => .bind ?_ fun _ => composed_look_bind fun active => ?_
    · refine composed_look_bind fun d => ?_
      split
      next => exact (composed_write _).bind fun _ => composed_updateDriver _
      next => exact composed_pure ()
    · refine (composed_onSession (composed_ask _)).bind fun now => composed_look_bind fun w => ?_
      split
      next => exact composed_onSession composed_beginRekey
      next => exact composed_pure ()
    · split
      next => exact composed_pure false
      next => exact composed_closeIfReady

/-! ### The exchange -/

theorem composed_of_negotiate {payload : Bytes} {rejection : Rejection}
    (h : (parseKexinit payload >>= fun peer => negotiate peer false) = .error (.rejected rejection)) :
    isConfused (.rejected rejection.reason) = false := by
  unfold parseKexinit at h
  split at h
  next peer _ _ =>
    change negotiate peer false = _ at h
    rw [negotiate_eq] at h
    repeat' split at h
    all_goals cases h <;> rfl
  next => cases h

theorem composed_negotiateRekey (payload : Bytes) : Composed (negotiateRekey env payload) := by
  unfold negotiateRekey
  split
  next => exact composed_pure _
  next rejection h => exact composed_disconnect (composed_of_negotiate h)
  next => exact composed_disconnect rfl

theorem composed_of_hybridExchange {c : Crypto} {clientInit : Bytes} {m secret : Option Bytes}
    {rejection : Rejection} (h : hybridExchange c clientInit m secret = .error (.rejected rejection)) :
    isConfused (.rejected rejection.reason) = false := by
  obtain ⟨reason, hreason, hfails⟩ | ⟨seed, own, kCl, -, -, -, hdone⟩ :=
    hybridExchange_cases c clientInit m secret
  · rw [hfails] at h
    cases h
    simp only [List.mem_cons, List.not_mem_nil, or_false] at hreason
    obtain rfl | rfl | rfl | rfl := hreason <;> rfl
  · rw [hdone] at h
    cases h

theorem composed_completeRekeyReply (p iC iS : Bytes) (n : Negotiated) :
    Composed (completeRekeyReply env p iC iS n) := by
  unfold completeRekeyReply
  split
  next =>
    refine (composed_ask _).bind fun m => (composed_ask _).bind fun secret => ?_
    split
    next rejection h => exact composed_disconnect (composed_of_hybridExchange h)
    next => exact composed_disconnect rfl
    next =>
      refine composed_look_bind fun s => ?_
      dsimp only
      refine (composed_ask _).bind fun signature => ?_
      split
      next =>
        split
        next =>
          refine (composed_writePacket _).bind fun _ => (composed_writePacket _).bind fun _ => ?_
          exact (composed_update _).bind fun _ => composed_pure _
        next => exact composed_fail rfl
      next => exact composed_disconnect rfl
  next => exact composed_disconnect rfl

/-- What the re-key machine expects in a phase. -/
def Expects : RekeyPhase → Bytes → Prop
  | .idle, p => p.head? = some sshMsgKexinit
  | .sentKexInit _, _ => True
  | .awaitHybridInit _ _ _ skip, p => skip = true ∨ p.head? = some sshMsgKexHybridInit
  | .awaitNewKeys _, p => p = [sshMsgNewkeys]

/-- A packet that is expected does not end the connection for being unexpected. -/
theorem stepRekey_composed {p : Bytes} {s : Session} (h : Expects s.rekey.phase p) :
    (stepRekey env p).Ensures s (fun _ _ => True) fun e _ => isConfused e = false := by
  simp only [stepRekey, ensures_bind, ensures_look, ensures_update]
  split
  next hphase =>
    rw [hphase] at h
    have hmsg : p.head? = some sshMsgKexinit := h
    rw [if_neg (by simp [hmsg])]
    refine (composed_ask _).bind (fun now => (composed_update _).bind fun _ => ?_) _
    refine (composed_ask _).bind fun cookie => ?_
    split
    next =>
      refine (composed_writePacket _).bind fun _ => (composed_negotiateRekey p).bind fun n => ?_
      exact (composed_update _).bind fun _ => composed_pure _
    next => exact composed_fail rfl
  next iS hphase =>
    split
    next =>
      exact (composed_negotiateRekey p).bind
        (fun n => (composed_update _).bind fun _ => composed_pure _) _
    next => exact (composed_update _).bind (fun _ => composed_pure _) _
  next => exact (composed_update _).bind (fun _ => composed_pure _) _
  next iC iS n hphase =>
    rw [hphase] at h
    have hmsg : p.head? = some sshMsgKexHybridInit := h.resolve_left (by simp)
    rw [if_pos (by simp [hmsg])]
    exact composed_completeRekeyReply p iC iS n _
  next newRx hphase =>
    rw [hphase] at h
    have hp : p = [sshMsgNewkeys] := h
    have hmsg : p.head?.getD 0 = sshMsgNewkeys := by rw [hp]; rfl
    rw [if_pos hmsg, if_neg (not_not.2 hp)]
    exact (composed_ask _).bind (fun now => (composed_update _).bind fun _ => composed_pure _) _

/-! ### A step -/

theorem onPacket_composed {p : Bytes} {w : World}
    (h : w.session.rekey.phase ≠ .idle → Expects w.session.rekey.phase p) :
    (onPacket env p).Ensures w (fun _ _ => True) fun e _ => isConfused e = false := by
  simp only [onPacket, ensures_bind, ensures_update, note_ensures, ensures_look]
  have hstep : ∀ (w' : World) (prog : RekeyStep → DriverProg Unit), Expects w'.session.rekey.phase p →
      (∀ step, Composed (prog step)) →
      (onSession (stepRekey env p) >>= prog).Ensures w' (fun _ _ => True)
        fun e _ => isConfused e = false := by
    intro w' prog hexpects hprog
    rw [ensures_bind, onSession, ensures_zoom]
    exact (stepRekey_composed hexpects).mono (fun step s _ => hprog step _) fun _ _ he => he
  split
  next hactive =>
    change w.session.rekeyActive = true at hactive
    have hphase : w.session.rekey.phase ≠ .idle := by simpa [Session.rekeyActive] using hactive
    refine hstep _ _ (h hphase) fun step => ?_
    split
    next => exact composed_passToChannel p
    next => exact composed_drainDeferred
    next => exact composed_pure ()
  next hactive =>
    change ¬w.session.rekeyActive = true at hactive
    have hphase : w.session.rekey.phase = .idle := by simpa [Session.rekeyActive] using hactive
    split
    next hmsg =>
      refine hstep _ _ ?_ fun step => composed_pure ()
      change Expects w.session.rekey.phase p
      rw [hphase]
      exact hmsg
    next => exact composed_handleInbound p _

/-- A step of the loop ends it with such an error only when a packet is not expected, or
could not be opened. -/
theorem step_composed {c c' : Config} {input : Input} (hstep : c.step env input = some c')
    (hpacket : ∀ p, input = .event (.packet p) → c.world.session.rekey.phase ≠ .idle →
      Expects c.world.session.rekey.phase p)
    (hread : input ≠ .event (.readFailed .badAuth)) {e : TransportError} (hlive : c.live)
    (hpc : c'.pc = .done (.error e)) : isConfused e = false := by
  obtain ⟨w, pc⟩ := c
  have hends : ∀ {α : Type} {prog : DriverProg α} {next : α → World → Config},
      prog.Ensures w (fun _ _ => True) (fun e _ => isConfused e = false) →
      (∀ a w', (next a w').pc ≠ .done (.error e)) → resume prog w next = c' →
      isConfused e = false := by
    rintro α prog next hprog hnext rfl
    have h := @resume_cases w α prog next _ _ hprog
      (fun c => c.pc = .done (.error e) → isConfused e = false)
      (fun a w' _ hpc => absurd hpc (hnext a w')) (fun e' w' he' hpc => by cases hpc; exact he')
    exact h hpc
  cases input with
  | phase =>
    cases pc with
    | flush =>
      exact hends (composed_flushPhase w) (by simp) (Option.some.inj hstep)
    | handoff =>
      have hprog := handoffStdin_ensures (w := w)
      exact hends (hprog.mono (fun _ _ _ => trivial) fun _ _ h => h.elim) (by simp)
        (Option.some.inj hstep)
    | settle =>
      refine hends (composed_settlePhase w) (fun finished _ => ?_) (Option.some.inj hstep)
      cases finished <;> simp
    | waiting | done => cases hstep
  | event event =>
    cases pc with
    | waiting =>
      simp only [Config.step, Option.ite_none_right_eq_some, Option.some.injEq] at hstep
      obtain ⟨henabled, hresume⟩ := hstep
      refine hends ?_ (by simp) hresume
      cases event with
      | packet p => exact onPacket_composed (hpacket p rfl)
      | readFailed error =>
        cases error with
        | badAuth => exact absurd rfl hread
        | broken | ended => rfl
      | output chunk =>
        exact (onOutput_ensures henabled).mono (fun _ _ _ => trivial) fun _ _ h => h.elim
      | credit =>
        exact (onCredit_ensures henabled).mono (fun _ _ _ => trivial) fun _ _ h => h.elim
      | deadline => exact composed_onSession (composed_disconnect rfl) w
      | wake => trivial
    | flush | handoff | settle | done => cases hstep
  | pump step =>
    have hsame : c'.pc = pc := by
      cases pc with
      | done => cases hstep
      | flush | handoff | settle | waiting =>
        simp only [Config.step, Option.map_eq_some_iff] at hstep
        obtain ⟨child, -, rfl⟩ := hstep
        rfl
    exact absurd (hsame.symm.trans hpc) (hlive _)

end QuantumSsh.Channel
