import QuantumSsh.Channel.Shadow
import QuantumSsh.Channel.Stdin

/-!
# Messages without effect

A run of the driver beside the same run with IGNORE, DEBUG and UNIMPLEMENTED messages
inserted. Each inserted message costs the loop one more turn. That turn finds nothing to
send, so the connections stay shadows of each other as long as the queue of deferred
messages has room for what is inserted.
-/

namespace QuantumSsh.Channel

open Wire Kex Machine Program Transport

variable {env env' : Env} {w w' : World} {α : Type}

/-! ### At rest -/

/-- No output can be sent. -/
def World.Flushed (w : World) : Prop := ∀ p n, ¬Flushable w p n

theorem World.Flushed.congr (h : w.Flushed) (hstate : w'.driver.state = w.driver.state)
    (hpending : w'.driver.pendingOut = w.driver.pendingOut)
    (hwindow : w'.driver.outWindow = w.driver.outWindow)
    (hmaxPkt : w'.driver.outMaxPkt = w.driver.outMaxPkt) : w'.Flushed := by
  intro p n hf
  refine h p n ⟨?_, ?_, hf.pos, hf.le_remaining, ?_, ?_, hf.le_maxPacket⟩
  · exact hstate ▸ hf.state
  · exact hpending ▸ hf.pending
  · exact hwindow ▸ hf.le_window
  · exact hmaxPkt ▸ hf.le_maxPkt

theorem World.Flushed.shadow (h : w.Flushed) (hs : Shadow w w') : w'.Flushed :=
  h.congr (hs.same Driver.state fun _ => rfl).symm (hs.same Driver.pendingOut fun _ => rfl).symm
    (hs.same Driver.outWindow fun _ => rfl).symm (hs.same Driver.outMaxPkt fun _ => rfl).symm

/-- The loop of `flush_output` has enough rounds. -/
theorem flushLoop_flushes {fuel : ℕ}
    (hfuel : (w.driver.pendingOut.map PendingOut.remaining).getD 0 ≤ fuel) :
    (flushLoop env fuel).Ensures w (fun _ w' => w'.Flushed) fun _ _ => True := by
  induction fuel generalizing w with
  | zero =>
    rintro p n ⟨-, hpending, hpos, hle, -⟩
    simp only [hpending, Option.map_some, Option.getD_some] at hfuel
    omega
  | succ fuel ih =>
    simp only [flushLoop, ensures_bind, ensures_look]
    split
    next hstate => exact fun p n hf => absurd hf.state (by simpa using hstate)
    next =>
      split
      next hnone => exact fun p n hf => by simpa [hnone] using hf.pending
      next p hpending =>
        split
        next hwindow => exact fun q n hf => by have := hf.pos; have := hf.le_window; omega
        next hwindow =>
          split
          next hn =>
            intro q n hf
            obtain rfl : p = q := Option.some.inj (hpending.symm.trans hf.pending)
            have := hf.pos
            have := hf.le_remaining
            have := hf.le_window
            have := hf.le_maxPkt
            have := hf.le_maxPacket
            omega
          next hn =>
            simp only [ensures_bind, updateDriver_ensures]
            refine write_ensures (fun tick bytesTx => ih ?_) fun _ _ _ => trivial
            have hless : (p.advance (min p.remaining (min (min w.driver.outWindow
                w.driver.outMaxPkt) maxPacket))).remaining ≤ fuel := by
              rw [hpending] at hfuel
              simp only [PendingOut.remaining, PendingOut.advance, Option.map_some,
                Option.getD_some] at hfuel hn ⊢
              omega
            change (Option.map PendingOut.remaining (if _ then none else some _)).getD 0 ≤ fuel
            split
            · exact Nat.zero_le _
            · exact hless

theorem flushLoop_of_flushed (h : w.Flushed) (fuel : ℕ) : flushLoop env fuel w = (.ok (), w) := by
  refine eq_of_ensures ?_
  cases fuel with
  | zero => exact ⟨rfl, rfl⟩
  | succ fuel =>
    simp only [flushLoop, ensures_bind, ensures_look]
    split
    next => exact ⟨trivial, rfl⟩
    next hstate =>
      split
      next => exact ⟨trivial, rfl⟩
      next p hpending =>
        split
        next => exact ⟨trivial, rfl⟩
        next hwindow =>
          split
          next => exact ⟨trivial, rfl⟩
          next hn =>
            refine absurd (⟨by simpa using hstate, hpending, Nat.pos_of_ne_zero hn, ?_, ?_, ?_, ?_⟩ :
              Flushable w p _) (h p _) <;> omega

/-- A turn of the loop would find nothing to do. -/
structure AtRest (w : World) : Prop where
  flushed : w.Flushed
  credit : w.driver.creditPending < creditBatch
  notReady : w.driver.readyToClose = false
  notClosed : w.driver.state ≠ .closed

theorem AtRest.shadow (h : AtRest w) (hs : Shadow w w') : AtRest w' where
  flushed := h.flushed.shadow hs
  credit := by
    rw [← hs.same Driver.creditPending fun _ => rfl]
    exact h.credit
  notReady := by
    rw [← hs.same Driver.readyToClose fun _ => rfl]
    exact h.notReady
  notClosed := by
    rw [← hs.same Driver.state fun _ => rfl]
    exact h.notClosed

/-- Outside a re-key the loop waits only at rest. -/
def Config.Rests (c : Config) : Prop :=
  c.world.session.rekey.phase = .idle →
    match c.pc with
    | .handoff | .settle => c.world.Flushed
    | .waiting => AtRest c.world
    | _ => True

theorem Feeds.shadow (h : Feeds w w') : Shadow w w' := by
  cases h with
  | childless | empty => exact .refl w
  | returned | dropped => exact ⟨rfl, rfl, rfl⟩
  | queued child chunk preExec hchild =>
    refine ⟨rfl, by simp [World.observe, Session.observe, World.mapDriver, shown], ?_⟩
    simp [World.observe, World.mapDriver, Driver.core, Driver.withInbox, Driver.inbox, Mask.pipe,
      hchild]

theorem HandsOff.shadow (h : HandsOff w w') : Shadow w w' := by
  cases h with
  | fed h => exact h.shadow
  | closed h h' =>
    refine h.shadow.trans ?_
    cases h' with
    | closed child hchild =>
      refine ⟨rfl, by simp [World.observe, Session.observe, World.mapDriver, shown], ?_⟩
      simp [World.observe, World.mapDriver, Driver.core, Driver.withInbox, Driver.inbox, Mask.pipe,
        hchild, ChildIo.closeStdin]

theorem shadow_pumped {child child' : ChildIo} {step : PumpStep}
    (hchild : w.driver.child = some child) (hpump : child.pump step = some child') :
    Shadow w (w.mapDriver fun d => { d with child := some child' }) := by
  have hmask : Mask.pipe.child child' = Mask.pipe.child child := by
    cases step with
    | take =>
      simp only [ChildIo.pump] at hpump
      split at hpump
      next =>
        simp only [Option.ite_none_right_eq_some, Option.some.injEq] at hpump
        obtain ⟨-, rfl⟩ := hpump
        rfl
      next => cases hpump
    | write n =>
      simp only [ChildIo.pump, Option.ite_none_right_eq_some, Option.some.injEq] at hpump
      obtain ⟨-, rfl⟩ := hpump
      rfl
    | stop =>
      simp only [ChildIo.pump, Option.ite_none_right_eq_some, Option.some.injEq] at hpump
      obtain ⟨-, rfl⟩ := hpump
      rfl
  refine ⟨rfl, rfl, ?_⟩
  simp [World.mapDriver, Driver.core, Driver.withInbox, Driver.inbox, hchild, hmask]

theorem flushPhase_flushes :
    (flushPhase env).Ensures w (fun _ w' => w'.session.rekey.phase = .idle → w'.Flushed)
      fun _ _ => True := by
  simp only [flushPhase, ensures_bind, ensures_look]
  cases hactive : w.session.rekeyActive with
  | true =>
    intro hidle
    simp [Session.rekeyActive, hidle] at hactive
  | false =>
    simp only [Bool.not_false, if_true, flushOutput, ensures_bind, ensures_look]
    exact (flushLoop_flushes le_rfl).mono (fun _ _ h _ => h) fun _ _ h => h

theorem rests_of_flush {c : Config} (hstep : Config.step env ⟨w, .flush⟩ .phase = some c) :
    c.Rests := by
  obtain rfl := Option.some.inj hstep
  exact resume_cases flushPhase_flushes (fun _ _ h => h) fun _ _ _ _ => trivial

theorem Settles.atRest (h : Settles w false w') (hflushed : w.Flushed)
    (hidle : w'.session.rekey.phase = .idle) : AtRest w' := by
  cases h with
  | busy hactive => simp [Session.rekeyActive, hidle] at hactive
  | rekeyed cookie tick bytesTx started trigger => cases hidle
  | @closes w₁ w₂ _ tick now _ hcredits hdue hcloses =>
    have hcredit : w₁.driver.creditPending < creditBatch ∧ w₁.Flushed := by
      cases hcredits with
      | below hbelow => exact ⟨hbelow, hflushed⟩
      | returned => exact ⟨(by decide : 0 < creditBatch), hflushed.congr rfl rfl rfl rfl⟩
    cases hcloses with
    | waiting hready hopen =>
      exact ⟨hcredit.2.congr rfl rfl rfl rfl, hcredit.1, hready, hopen⟩
    | half hready hearly hsent =>
      refine ⟨fun p n hf => absurd hf.state (by simp [ChannelState.mayEmitOutput]), ?_, ?_, ?_⟩
      · rw [mapDriver_driver, hsent.driver_eq]
        exact hcredit.1
      · simp [Driver.readyToClose]
      · simp

/-- One step keeps the loop at rest while it waits. -/
theorem Config.Rests.step {c c' : Config} {input : Input} (h : c.Rests)
    (hstep : c.step env input = some c') : c'.Rests := by
  have hturn := step_turn hstep
  cases hturn with
  | flushed | unflushed | flushFailed => exact rests_of_flush hstep
  | handedOff hoff =>
    intro hidle
    have hshadow := hoff.shadow
    exact World.Flushed.shadow (h (hshadow.phase.trans hidle)) hshadow
  | @settled w w' finished hsettles =>
    cases finished with
    | true => exact fun _ => trivial
    | false => exact fun hidle => hsettles.atRest (h (hsettles.idle_of_idle hidle)) hidle
  | @pumped w pc child child' step hpc hchild hpump =>
    have hshadow := shadow_pumped hchild hpump
    intro hidle
    have hrests := h hidle
    cases pc with
    | flush | done => trivial
    | handoff | settle => exact World.Flushed.shadow hrests hshadow
    | waiting => exact AtRest.shadow hrests hshadow
  | settleFailed | packet | packetFailed | occurred | readFailed | timedOut => exact fun _ => trivial

/-! ### The turn of an inserted message -/

/-- Messages other than those of the key exchange may be sent. -/
def World.mayHear (w : World) : Bool :=
  match w.session.rekey.phase with
  | .idle | .sentKexInit _ => true
  | .awaitHybridInit .. | .awaitNewKeys _ => false

theorem not_inline_of_noop {p : Bytes} (hp : isNoop p = true) :
    isInline p = false ∧ p.head? ≠ some sshMsgKexinit := by
  simp only [isNoop, Bool.or_eq_true, decide_eq_true_eq] at hp
  obtain (hp | hp) | hp := hp <;> simp [isInline, hp] <;> decide

theorem shadow_arrived {p : Bytes} (hp : isNoop p = true) (w : World) : Shadow w (w.arrived p) :=
  ⟨rfl, by simp [World.arrived, Session.observe, Session.receive, shown, hp], rfl⟩

theorem shadow_deferred {p : Bytes} (hp : isNoop p = true) (w : World) :
    Shadow w (w.mapDriver fun d => { d with deferred := d.deferred ++ [p] }) := by
  refine ⟨rfl, rfl, ?_⟩
  simp [World.mapDriver, Driver.core, Driver.withInbox, Driver.inbox, Mask.pipe, hp]

theorem stepRekey_passed {s : Session} {iS p : Bytes} (hphase : s.rekey.phase = .sentKexInit iS)
    (hmsg : p.head? ≠ some sshMsgKexinit) : stepRekey env p s = (.ok .passToChannel, s) := by
  have hhead : p.head?.getD 0 ≠ sshMsgKexinit := by
    cases hp : p.head? with
    | none => decide
    | some msg => simpa [hp] using hmsg
  have hback : (s.setPhase .idle).setPhase (.sentKexInit iS) = s := by
    simp only [Session.setPhase, ← hphase]
  refine eq_of_ensures ?_
  simp only [stepRekey, ensures_bind, ensures_look, ensures_update, hphase]
  rw [if_neg hhead]
  simp only [ensures_bind, ensures_update, ensures_pure, hback, and_self]

/-- An inserted message that finds room is shown by nothing. -/
theorem step_inserted {p : Bytes} (hp : isNoop p = true) (hhear : w.mayHear = true)
    (hroom : w.overflows p = false) :
    ∃ w', Config.step env ⟨w, .waiting⟩ (.event (.packet p)) = some ⟨w', .flush⟩ ∧
      Shadow w w' := by
  obtain ⟨hinline, hmsg⟩ := not_inline_of_noop hp
  cases hphase : w.session.rekey.phase with
  | idle =>
    refine ⟨(w.arrived p).observe (.handled p), ?_, (shadow_arrived hp w).trans
      (shadow_handled hp _)⟩
    rw [step_packet hphase hmsg]
    simp [resume, handleInbound_noop hp]
  | sentKexInit iS =>
    have hlen : w.driver.deferred.length < maxDeferred := by
      simpa [World.overflows, World.defers, hphase, hmsg, hinline] using hroom
    refine ⟨_, ?_, (shadow_arrived hp w).trans (shadow_deferred hp _)⟩
    have hactive : (w.arrived p).session.rekeyActive = true := by
      have hphase' : (w.arrived p).session.rekey.phase = .sentKexInit iS := hphase
      simp [Session.rekeyActive, hphase']
    have hpassed : stepRekey env p (w.arrived p).session = (.ok .passToChannel, _) :=
      stepRekey_passed hphase hmsg
    have hdeferred : passToChannel env p (w.arrived p) = _ :=
      passToChannel_deferred (w := w.arrived p) hinline hlen
    have harrived : World.observe { w with session := w.session.receive p } (.received p) =
        w.arrived p := rfl
    have hsame : ({ session := (w.arrived p).session, driver := w.driver } : World) =
        w.arrived p := rfl
    simp [Config.step, World.enabled, onEvent, onPacket, resume, bind, Prog.bind, look, update,
      note, harrived, hactive, onSession, zoom, hpassed, hsame, hdeferred]
  | awaitHybridInit | awaitNewKeys => simp [World.mayHear, hphase] at hhear

/-- The flush of the turn finds nothing to send. -/
theorem step_flush_idly (h : w.session.rekey.phase = .idle → w.Flushed) :
    Config.step env ⟨w, .flush⟩ .phase = some ⟨w, .handoff⟩ := by
  cases hactive : w.session.rekeyActive with
  | true => simp [Config.step, resume, flushPhase, hactive, bind, Prog.bind, look, pure]
  | false =>
    have hidle : w.session.rekey.phase = .idle := by simpa [Session.rekeyActive] using hactive
    simp [Config.step, resume, flushPhase, hactive, bind, Prog.bind, look, flushOutput,
      flushLoop_of_flushed (h hidle)]

/-- The closing work of the turn finds nothing to do. -/
theorem step_settle_idly (h : w.session.rekey.phase = .idle → AtRest w)
    (hdue : w.session.rekeyDue (env.now w.session.tick) = false ∨
      w.driver.state.mayRekey = false) :
    ∃ tick, Config.step env ⟨w, .settle⟩ .phase = some ⟨w.atTick tick, .waiting⟩ := by
  cases hactive : w.session.rekeyActive with
  | true =>
    refine ⟨w.session.tick, ?_⟩
    simp [Config.step, resume, settlePhase, hactive, bind, Prog.bind, look, pure, World.atTick]
  | false =>
    have hidle : w.session.rekey.phase = .idle := by simpa [Session.rekeyActive] using hactive
    obtain ⟨-, hcredit, hready, hclosed⟩ := h hidle
    exact ⟨_, step_settle_quiet hidle hcredit hready hclosed hdue⟩

/-! ### The pair of runs -/

/-- A connection, and the same with messages inserted. -/
structure Pair where
  plain : Config
  padded : Config

/-- A step of the pair. -/
inductive PairInput where
  /-- Both take the input and get the same answers. -/
  | both (env : Env) (input : Input)
  /-- The stdin pump of one of them, which nothing ties to the other's. -/
  | plainPump (env : Env) (step : PumpStep)
  | paddedPump (env : Env) (step : PumpStep)
  /-- A message without effect reaches the padded connection. -/
  | insert (env : Env) (payload : Bytes)
  /-- A phase of the turn that the message causes. -/
  | extra (env : Env)

/-- What was received has crossed the same thresholds, where they are compared, and the
next credit is the same. -/
def Pair.mayShare (x : Pair) : Input → Bool
  | .phase => x.plain.world.session.crossed = x.padded.world.session.crossed
  | .event .credit => x.plain.world.driver.nextCredit = x.padded.world.driver.nextCredit
  | _ => true

/-- One step of the pair. A message is inserted where the peer may send it, and its turn
finds no re-key due. -/
def Pair.step (x : Pair) : PairInput → Option Pair
  | .both env input =>
    if x.mayShare input then do
      let plain ← x.plain.step env input
      let padded ← x.padded.step
        ((env.after x.plain.world.session.tick).delayed x.padded.world.session.tick) input
      return ⟨plain, padded⟩
    else none
  | .plainPump env step => (x.plain.step env (.pump step)).map fun plain => { x with plain }
  | .paddedPump env step => (x.padded.step env (.pump step)).map fun padded => { x with padded }
  | .insert env payload =>
    if x.plain.pc.isWaiting && isNoop payload && x.padded.world.mayHear then
      (x.padded.step env (.event (.packet payload))).map fun padded => { x with padded }
    else none
  | .extra env =>
    if x.plain.pc.isWaiting && !(x.padded.world.session.rekeyDue
        (env.now x.padded.world.session.tick) && x.padded.world.driver.state.mayRekey) then
      (x.padded.step env .phase).map fun padded => { x with padded }
    else none

/-- The message finds the same room in both queues, and no data overtakes earlier data. -/
def Pair.Harmless (x : Pair) : PairInput → Prop
  | .both _ input => InOrder x.plain input ∧ InOrder x.padded input ∧
      ∀ p, input = .event (.packet p) → x.plain.world.overflows p = x.padded.world.overflows p
  | .insert _ payload => x.padded.world.overflows payload = false
  | _ => True

/-- A phase of the turn. -/
def Pc.isPhase : Pc → Bool
  | .flush | .handoff | .settle => true
  | _ => false

/-- The connections show the same, and the padded one is at most one turn behind. -/
structure Pair.Linked (x : Pair) : Prop where
  shadow : Shadow x.plain.world x.padded.world
  rests : x.plain.Rests
  pcs : x.padded.pc = x.plain.pc ∨ x.plain.pc = .waiting ∧ x.padded.pc.isPhase = true
  plainFeeds : x.plain.live → FeedsInOrder x.plain.world
  paddedFeeds : x.padded.live → FeedsInOrder x.padded.world

/-- Programs that do the same lead to the same place. -/
theorem Shadows.resume {p q : DriverProg α} {next : α → Pc}
    (h : p.Couples q w w' (Shadows env env')) :
    Shadow (resume p w fun a w => ⟨w, next a⟩).world (resume q w' fun a w => ⟨w, next a⟩).world ∧
      (Channel.resume q w' fun a w => ⟨w, next a⟩).pc =
        (Channel.resume p w fun a w => ⟨w, next a⟩).pc := by
  rcases hrun : p w with ⟨e | a, u⟩
  · obtain ⟨u', hrun', hs⟩ := h.of_error hrun
    simp only [Channel.resume, hrun, hrun']
    exact ⟨hs.shadow.emitFinished, trivial⟩
  · obtain ⟨u', hrun', hs⟩ := h.of_ok hrun
    simp only [Channel.resume, hrun, hrun']
    exact ⟨hs.shadow, trivial⟩

theorem shadow_pump {c c' : Config} {step : PumpStep} (h : c.step env (.pump step) = some c') :
    Shadow c.world c'.world ∧ c'.pc = c.pc := by
  cases step_turn h with
  | pumped child child' step hpc hchild hpump => exact ⟨shadow_pumped hchild hpump, rfl⟩

theorem shadow_handoff {c : Config} (h : Config.step env ⟨w, .handoff⟩ .phase = some c) :
    Shadow w c.world ∧ c.pc = .settle := by
  cases step_turn h with
  | handedOff hoff => exact ⟨hoff.shadow, rfl⟩

/-- **A shared step** keeps the connections alike. -/
theorem Shadow.step {pc : Pc} {input : Input} {c c' : Config} (h : Shadow w w')
    (hagree : env.after w.session.tick = env'.after w'.session.tick)
    (hcrossed : input = .phase → w.session.crossed = w'.session.crossed)
    (hcredit : input = .event .credit → w.driver.nextCredit = w'.driver.nextCredit)
    (hroom : ∀ p, input = .event (.packet p) → w.overflows p = w'.overflows p)
    (hstep : Config.step env ⟨w, pc⟩ input = some c)
    (hstep' : Config.step env' ⟨w', pc⟩ input = some c') :
    Shadow c.world c'.world ∧ c'.pc = c.pc := by
  have hs : Shadows env env' w w' := h.shadows hagree
  cases input with
  | pump step =>
    obtain ⟨hshadow, hpc⟩ := shadow_pump hstep
    obtain ⟨hshadow', hpc'⟩ := shadow_pump hstep'
    exact ⟨hshadow.symm.trans (h.trans hshadow'), hpc'.trans hpc.symm⟩
  | phase =>
    cases pc with
    | flush =>
      obtain rfl := Option.some.inj hstep
      obtain rfl := Option.some.inj hstep'
      exact Shadows.resume (Shadows.flushPhase hs)
    | handoff =>
      obtain ⟨hshadow, hpc⟩ := shadow_handoff hstep
      obtain ⟨hshadow', hpc'⟩ := shadow_handoff hstep'
      exact ⟨hshadow.symm.trans (h.trans hshadow'), hpc'.trans hpc.symm⟩
    | settle =>
      obtain rfl := Option.some.inj hstep
      obtain rfl := Option.some.inj hstep'
      exact Shadows.resume (Shadows.settlePhase hs (hcrossed rfl))
    | waiting => cases hstep
    | done r => cases hstep
  | event event =>
    cases pc with
    | waiting =>
      simp only [Config.step, Option.ite_none_right_eq_some, Option.some.injEq] at hstep hstep'
      obtain ⟨-, rfl⟩ := hstep
      obtain ⟨-, rfl⟩ := hstep'
      have halike : (onEvent env event).Couples (onEvent env' event) w w' (Shadows env env') := by
        cases event with
        | packet p => exact Shadows.onPacket hs (hroom p rfl)
        | readFailed error => exact couples_fail _ hs
        | output chunk => exact Shadows.onOutput hs chunk
        | credit => exact Shadows.onCredit hs (hcredit rfl)
        | deadline => exact hs.onSession (hs.session.disconnect _)
        | wake => exact couples_pure () hs
      exact Shadows.resume halike
    | flush => cases hstep
    | handoff => cases hstep
    | settle => cases hstep
    | done r => cases hstep

/-- Inserting a message, or a phase of its turn, leaves the connections alike. -/
theorem Shadow.insert {p : Bytes} {c : Config} {pc : Pc} (h : Shadow w w') (hp : isNoop p = true)
    (hhear : w'.mayHear = true) (hroom : w'.overflows p = false)
    (hstep : Config.step env ⟨w', pc⟩ (.event (.packet p)) = some c) :
    Shadow w c.world ∧ c.pc.isPhase = true := by
  obtain rfl : pc = .waiting := by
    cases pc <;> first | rfl | cases hstep
  obtain ⟨u, hu, hshadow⟩ := @step_inserted env _ _ hp hhear hroom
  obtain rfl := Option.some.inj (hu.symm.trans hstep)
  exact ⟨h.trans hshadow, rfl⟩

theorem Shadow.extra {c : Config} {pc : Pc} (h : Shadow w w')
    (hrests : w.session.rekey.phase = .idle → AtRest w)
    (hdue : w'.session.rekeyDue (env.now w'.session.tick) = false ∨
      w'.driver.state.mayRekey = false)
    (hstep : Config.step env ⟨w', pc⟩ .phase = some c) :
    Shadow w c.world ∧ (c.pc = .waiting ∨ c.pc.isPhase = true) := by
  have hrests' : w'.session.rekey.phase = .idle → AtRest w' :=
    fun hidle => (hrests (h.phase.trans hidle)).shadow h
  cases pc with
  | flush =>
    have hflush := @step_flush_idly env _ fun hidle => (hrests' hidle).flushed
    obtain rfl := Option.some.inj (hflush.symm.trans hstep)
    exact ⟨h, .inr rfl⟩
  | handoff =>
    obtain ⟨hshadow, hpc⟩ := shadow_handoff hstep
    exact ⟨h.trans hshadow, .inr (by rw [hpc]; rfl)⟩
  | settle =>
    obtain ⟨tick, hsettle⟩ := step_settle_idly hrests' hdue
    obtain rfl := Option.some.inj (hsettle.symm.trans hstep)
    exact ⟨h.trans ⟨rfl, rfl, rfl⟩, .inl rfl⟩
  | waiting => cases hstep
  | done r => cases hstep

theorem Pair.Linked.step {x y : Pair} {input : PairInput} (h : x.Linked)
    (hharmless : x.Harmless input) (hstep : x.step input = some y) : y.Linked := by
  obtain ⟨⟨w, pc⟩, ⟨w', pc'⟩⟩ := x
  obtain ⟨hshadow, hrests, hpcs, hfeeds, hfeeds'⟩ := h
  dsimp only at hshadow hpcs
  have hinOrder : ∀ {c : Config} {step : PumpStep}, InOrder c (.pump step) :=
    fun p hp => by cases hp
  cases input with
  | both env input =>
    -- A shared step moves both alike, unless the padded connection is behind by a turn.
    obtain ⟨horder, horder', hroom⟩ := hharmless
    simp only [Pair.step, Option.ite_none_right_eq_some, Option.bind_eq_bind,
      Option.bind_eq_some_iff, Option.pure_def, Option.some.injEq] at hstep
    obtain ⟨hshare, c, hc, c', hc', rfl⟩ := hstep
    have hlinked : Shadow c.world c'.world ∧
        (c'.pc = c.pc ∨ c.pc = .waiting ∧ c'.pc.isPhase = true) := by
      obtain rfl | ⟨rfl, hphase⟩ := hpcs
      · obtain ⟨hshown, hpc⟩ := hshadow.step (Env.after_delayed _ _).symm
          (by rintro rfl; simpa [Pair.mayShare] using hshare)
          (by rintro rfl; simpa [Pair.mayShare] using hshare) hroom hc hc'
        exact ⟨hshown, .inl hpc⟩
      · -- Behind the other by a turn, the padded connection takes no shared step.
        cases input with
        | phase => cases hc
        | event event =>
          cases pc' with
          | flush | handoff | settle => cases hc'
          | waiting | done => cases hphase
        | pump step =>
          obtain ⟨hpumped, hpc⟩ := shadow_pump hc
          obtain ⟨hpumped', hpc'⟩ := shadow_pump hc'
          rw [hpc, hpc']
          exact ⟨hpumped.symm.trans (hshadow.trans hpumped'), .inr ⟨rfl, hphase⟩⟩
    exact ⟨hlinked.1, hrests.step hc, hlinked.2, fun hlive => .step hfeeds horder hc hlive,
      fun hlive => .step hfeeds' horder' hc' hlive⟩
  | plainPump env step =>
    simp only [Pair.step, Option.map_eq_some_iff] at hstep
    obtain ⟨c, hc, rfl⟩ := hstep
    obtain ⟨hpumped, hpc⟩ := shadow_pump hc
    exact ⟨hpumped.symm.trans hshadow, hrests.step hc, by rw [hpc]; exact hpcs,
      fun hlive => .step hfeeds hinOrder hc hlive, hfeeds'⟩
  | paddedPump env step =>
    simp only [Pair.step, Option.map_eq_some_iff] at hstep
    obtain ⟨c, hc, rfl⟩ := hstep
    obtain ⟨hpumped, hpc⟩ := shadow_pump hc
    exact ⟨hshadow.trans hpumped, hrests, by rw [hpc]; exact hpcs, hfeeds,
      fun hlive => .step hfeeds' hinOrder hc hlive⟩
  | insert env p =>
    simp only [Pair.step, Option.ite_none_right_eq_some, Option.map_eq_some_iff,
      Bool.and_eq_true] at hstep
    obtain ⟨⟨⟨hwaiting, hp⟩, hhear⟩, c, hc, rfl⟩ := hstep
    obtain ⟨hshown, hpc⟩ := hshadow.insert hp hhear hharmless hc
    -- A message without effect overtakes nothing, as it is never handled inline.
    have horder : InOrder ⟨w', pc'⟩ (.event (.packet p)) := by
      rintro q hq
      cases hq
      exact not_overtakes_of_not_inline (not_inline_of_noop hp).1
    exact ⟨hshown, hrests, .inr ⟨Pc.eq_waiting hwaiting, hpc⟩, hfeeds,
      fun hlive => .step hfeeds' horder hc hlive⟩
  | extra env =>
    simp only [Pair.step, Option.ite_none_right_eq_some, Option.map_eq_some_iff,
      Bool.and_eq_true, Bool.not_eq_true', Bool.and_eq_false_iff] at hstep
    obtain ⟨⟨hwaiting, hdue⟩, c, hc, rfl⟩ := hstep
    obtain rfl := Pc.eq_waiting hwaiting
    obtain ⟨hshown, hpc⟩ := hshadow.extra hrests hdue hc
    have horder : InOrder ⟨w', pc'⟩ .phase := fun p hp => by cases hp
    refine ⟨hshown, hrests, ?_, hfeeds, fun hlive => .step hfeeds' horder hc hlive⟩
    exact hpc.imp (fun hpc => hpc) fun hpc => ⟨rfl, hpc⟩

/-! ### What the peer and the child notice -/

/-- The child's output as the driver took it up. -/
def takenOutput (log : List Obs) : List (Stream × Bytes) :=
  log.filterMap fun | .output kind data => some (kind, data) | _ => none

/-- The connections serve the peer and the child alike. Input may reach the child's queue
at other times, but it is the same input in the same order. -/
structure SameService (c c' : Config) : Prop where
  replies : c'.world.session.log.filter isSealed = c.world.session.log.filter isSealed
  output : takenOutput c'.world.session.log = takenOutput c.world.session.log
  accepted : acceptedInput c'.world.session.log = acceptedInput c.world.session.log
  fed : c.live → c'.live →
    queuedInput c.world.session.log <+: queuedInput c'.world.session.log ∨
      queuedInput c'.world.session.log <+: queuedInput c.world.session.log
  unfed : c.live → c'.live → c.world.driver.Feeding → c'.world.driver.Feeding →
    queuedInput c'.world.session.log ++ c'.world.driver.unfed =
      queuedInput c.world.session.log ++ c.world.driver.unfed
  ending : ∀ result, c'.pc = .done result ↔ c.pc = .done result
  events : ∀ event, event ≠ .credit → c'.world.enabled event = c.world.enabled event

theorem Pair.linked_start (h : Handshake) : Pair.Linked ⟨.start h, .start h⟩ where
  shadow := .refl _
  rests _ := trivial
  pcs := .inl rfl
  plainFeeds _ := ⟨balanced_start h, defers_start h, piped_start h⟩
  paddedFeeds _ := ⟨balanced_start h, defers_start h, piped_start h⟩

/-- What is read off shown entries is the same. -/
theorem filter_shown {q : Obs → Bool} (hq : ∀ obs, q obs = true → shown obs = true)
    (log : List Obs) : (log.filter shown).filter q = log.filter q := by
  rw [List.filter_filter]
  refine List.filter_congr fun obs _ => ?_
  cases hobs : q obs with
  | false => rfl
  | true => rw [hq obs hobs]; rfl

theorem takenOutput_shown (log : List Obs) : takenOutput (log.filter shown) = takenOutput log := by
  unfold takenOutput
  rw [List.filterMap_filter]
  refine List.filterMap_congr fun obs _ => ?_
  cases obs <;> simp [shown]

theorem acceptedInput_shown (log : List Obs) :
    acceptedInput (log.filter shown) = acceptedInput log := by
  induction log with
  | nil => rfl
  | cons obs log ih =>
    have hcons : ∀ log, acceptedInput (obs :: log) = acceptedInput [obs] ++ acceptedInput log :=
      fun log => by simp [acceptedInput]
    cases hobs : shown obs with
    | true => rw [List.filter_cons_of_pos hobs, hcons, hcons log, ih]
    | false =>
      have hnone : acceptedInput [obs] = [] := by
        cases obs <;> first | rfl | cases hobs
      rw [List.filter_cons_of_neg (by simp [hobs]), hcons log, hnone, ih, List.nil_append]

/-- Where the one can be, the other is. -/
theorem Pair.Linked.ending {x : Pair} (h : x.Linked) (result : Except TransportError Unit) :
    x.padded.pc = .done result ↔ x.plain.pc = .done result := by
  obtain hpc | ⟨hpc, hphase⟩ := h.pcs
  · rw [hpc]
  · rw [hpc]
    refine ⟨fun hdone => ?_, fun hdone => by cases hdone⟩
    rw [hdone] at hphase
    cases hphase

theorem Shadow.enabled (h : Shadow w w') {event : Event} (hevent : event ≠ .credit) :
    w'.enabled event = w.enabled event := by
  have hactive : w.session.rekeyActive = w'.session.rekeyActive := by
    simp only [Session.rekeyActive, h.phase]
  have hstate : w.driver.state = w'.driver.state := h.same _ fun _ => rfl
  have hpending : w.driver.pendingOut = w'.driver.pendingOut := h.same _ fun _ => rfl
  cases event with
  | packet | readFailed => rfl
  | output chunk =>
    have hchild : (w.driver.child.any fun c => !c.outEnded || chunk.isNone) =
        w'.driver.child.any fun c => !c.outEnded || chunk.isNone := by
      refine h.same (fun d => d.child.any fun c => !c.outEnded || chunk.isNone) fun d => ?_
      have hcore : (d.core .pipe).child = d.child.map Mask.pipe.child := rfl
      rw [hcore]
      cases d.child <;> rfl
    simp only [World.enabled, hactive, hstate, hpending, hchild]
  | credit => exact absurd rfl hevent
  | deadline => exact hactive.symm
  | wake => simp only [World.enabled, hactive, hstate]

theorem Pair.Linked.sameService {x : Pair} (h : x.Linked) : SameService x.plain x.padded := by
  have hlog := h.shadow.log
  have haccepted : acceptedInput x.padded.world.session.log =
      acceptedInput x.plain.world.session.log := by
    rw [← acceptedInput_shown, ← hlog, acceptedInput_shown]
  refine ⟨?_, ?_, haccepted, fun hlive hlive' => ?_, fun hlive hlive' hf hf' => ?_, h.ending,
    fun _ => h.shadow.enabled⟩
  · have hsealed : ∀ obs, isSealed obs = true → shown obs = true := by
      intro obs hobs
      cases obs <;> first | rfl | cases hobs
    rw [← filter_shown hsealed, ← hlog, filter_shown hsealed]
  · rw [← takenOutput_shown, ← hlog, takenOutput_shown]
  · have hfed' := (h.paddedFeeds hlive').input.1
    rw [haccepted] at hfed'
    exact List.prefix_or_prefix_of_prefix (h.plainFeeds hlive).input.1 hfed'
  · rw [(h.plainFeeds hlive).input.2 hf, (h.paddedFeeds hlive').input.2 hf', haccepted]

/-- **Messages without effect change nothing** as long as the queue of deferred messages
has room for them and no data overtakes earlier data. -/
theorem noops_change_nothing {h : Handshake} {inputs : List PairInput} {x : Pair}
    (hrun : run Pair.step ⟨.start h, .start h⟩ inputs = some x)
    (hharmless : Along Pair.step Pair.Harmless ⟨.start h, .start h⟩ inputs) :
    SameService x.plain x.padded := by
  have hlinked : x.Linked := invariant_along
    (fun _ _ _ hlinked hharmless hstep => hlinked.step hharmless hstep)
    (Pair.linked_start h) hharmless hrun
  exact hlinked.sameService

/-- Decides that the step is harmless. -/
def Pair.checks (x : Pair) : PairInput → Bool
  | .both _ input => checksInOrder x.plain input && checksInOrder x.padded input &&
      match input with
      | .event (.packet p) => x.plain.world.overflows p == x.padded.world.overflows p
      | _ => true
  | .insert _ payload => !x.padded.world.overflows payload
  | _ => true

theorem Pair.harmless_of_check (x : Pair) (input : PairInput) (h : x.checks input = true) :
    x.Harmless input := by
  cases input with
  | both env input =>
    simp only [Pair.checks, Bool.and_eq_true] at h
    refine ⟨inOrder_of_check _ _ h.1.1, inOrder_of_check _ _ h.1.2, ?_⟩
    rintro p rfl
    simpa using h.2
  | insert env payload => simpa [Pair.checks, Pair.Harmless] using h
  | plainPump | paddedPump | extra => trivial

/-- An hour has passed since the keys were exchanged. -/
def lateEnv : Env := { plainEnv with now := fun _ => 3600 * 1000000000 }

/-- A message without effect and its turn. -/
def ignoredTurn (env : Env) : List PairInput :=
  [.insert env [sshMsgIgnore], .extra env, .extra env, .extra env]

/-- The packets are sent one after the other, and the loop goes on to wait. -/
def packetTurns (packets : List Bytes) : List Input :=
  packets.flatMap packetTurn ++ [.phase, .phase, .phase]

/-- The channel is opened, and the server starts a re-key. -/
def lateRun : List PairInput :=
  (packetTurns [openSession 7 1 maxPacket]).map (.both lateEnv)

/-- The client asks for a shell while the re-key goes on. -/
def lateShell : List PairInput :=
  [.event (.packet (channelRequest "shell" true)), .phase, .phase, .phase].map (.both lateEnv)

theorem noops_change_nothing_late :
    ∃ x, run Pair.step ⟨.start plainHandshake, .start plainHandshake⟩
        (lateRun ++ ignoredTurn lateEnv ++ lateShell ++ ignoredTurn lateEnv) = some x ∧
      x.padded.world.driver.deferred.length = 3 ∧ SameService x.plain x.padded := by
  have hx : (run Pair.step ⟨.start plainHandshake, .start plainHandshake⟩
      (lateRun ++ ignoredTurn lateEnv ++ lateShell ++ ignoredTurn lateEnv)).map
      (fun x => x.padded.world.driver.deferred.length) = some 3 := by
    decide
  obtain ⟨x, hrun, hlen⟩ := Option.map_eq_some_iff.1 hx
  refine ⟨x, hrun, hlen, noops_change_nothing hrun ?_⟩
  exact along_of_check Pair.harmless_of_check (by decide +kernel)

/-- The connection was ended because too many messages waited. -/
def Config.overflowed (c : Config) : Bool :=
  c.pc matches .done (.error (.rejected .tooManyDeferred))

theorem pc_of_overflowed {c : Config} (h : c.overflowed = true) :
    c.pc = .done (.error (.rejected .tooManyDeferred)) := by
  unfold Config.overflowed at h
  split at h
  next hpc => exact hpc
  next => cases h

/-- The queue of deferred messages is filled with messages without effect, and one more
ends the connection. -/
theorem noops_end_connection :
    ∃ x, run Pair.step ⟨.start plainHandshake, .start plainHandshake⟩
        (lateRun ++ (List.replicate 64 (ignoredTurn lateEnv)).flatten ++
          [.insert lateEnv [sshMsgIgnore]]) = some x ∧
      x.plain.pc = .waiting ∧ x.padded.pc = .done (.error (.rejected .tooManyDeferred)) ∧
      ¬SameService x.plain x.padded := by
  have hx : (run Pair.step ⟨.start plainHandshake, .start plainHandshake⟩
      (lateRun ++ (List.replicate 64 (ignoredTurn lateEnv)).flatten ++
        [.insert lateEnv [sshMsgIgnore]])).map (fun x => x.plain.pc.isWaiting &&
          x.padded.overflowed) = some true := by
    decide +kernel
  obtain ⟨x, hrun, hends⟩ := Option.map_eq_some_iff.1 hx
  simp only [Bool.and_eq_true] at hends
  have hplain := Pc.eq_waiting hends.1
  have hpadded := pc_of_overflowed hends.2
  refine ⟨x, hrun, hplain, hpadded, fun hsame => ?_⟩
  have hdone := (hsame.ending _).1 hpadded
  rw [hplain] at hdone
  cases hdone

/-- The turn of a message without effect hands over the input that later data would
otherwise overtake. -/
theorem noop_reorders_input :
    ∃ x, run Pair.step ⟨.start plainHandshake, .start plainHandshake⟩
        ((packetTurns [openSession 7 1 maxPacket, channelData [1], channelData [2],
            channelRequest "shell" true]).map (.both plainEnv) ++ ignoredTurn plainEnv ++
          [.event (.packet (channelData [3])), .phase, .phase, .phase, .event .wake, .phase,
            .phase, .phase].map (.both plainEnv)) = some x ∧
      queuedInput x.plain.world.session.log = [1, 3, 2] ∧
      queuedInput x.padded.world.session.log = [1, 2, 3] ∧ ¬SameService x.plain x.padded := by
  have hx : (run Pair.step ⟨.start plainHandshake, .start plainHandshake⟩
      ((packetTurns [openSession 7 1 maxPacket, channelData [1], channelData [2],
          channelRequest "shell" true]).map (.both plainEnv) ++ ignoredTurn plainEnv ++
        [.event (.packet (channelData [3])), .phase, .phase, .phase, .event .wake, .phase,
          .phase, .phase].map (.both plainEnv))).map (fun x =>
            (x.plain.pc.isWaiting && x.padded.pc.isWaiting,
              queuedInput x.plain.world.session.log, queuedInput x.padded.world.session.log)) =
      some (true, [1, 3, 2], [1, 2, 3]) := by
    decide +kernel
  obtain ⟨x, hrun, hx⟩ := Option.map_eq_some_iff.1 hx
  simp only [Prod.mk.injEq, Bool.and_eq_true] at hx
  obtain ⟨⟨hplain, hpadded⟩, hfed, hfed'⟩ := hx
  refine ⟨x, hrun, hfed, hfed', fun hsame => ?_⟩
  have hlive : ∀ {c : Config}, c.pc.isWaiting = true → c.live := by
    intro c hc r hpc
    rw [hpc] at hc
    cases hc
  have hprefix := hsame.fed (hlive hplain) (hlive hpadded)
  rw [hfed, hfed'] at hprefix
  revert hprefix
  decide

end QuantumSsh.Channel
