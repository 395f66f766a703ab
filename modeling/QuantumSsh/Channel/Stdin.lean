import QuantumSsh.Lib.Pipe
import QuantumSsh.Channel.Window

/-!
# The input of the child

Channel data accepted is put into a pipe, and the chunks queued to the child are
taken out of it. The pipe is spread over two buffers: what arrives before the
child waits in `pre_exec_stdin`, what arrives later in `pending_stdin`. Data that
arrives while the first buffer is not empty yet overtakes what is left in it.
-/

namespace QuantumSsh.Channel

open Wire Kex Machine Program Transport

/-! ### The pipe -/

/-- The operation of the pipe an entry of the log stands for. -/
def stdinOp : Obs → Option (Pipe.Op UInt8)
  | .accepted data => some (.put data)
  | .queued chunk => some (.take chunk)
  | .stdinEof => some .finish
  | _ => none

/-- The history of the pipe. -/
def stdinOps (log : List Obs) : List (Pipe.Op UInt8) := log.filterMap stdinOp

/-- The child takes input, or there is none yet. -/
def Driver.Feeding (d : Driver) : Prop :=
  d.state = .beforeOpen ∨ d.state = .idle ∨ ∃ c, d.child = some c ∧ c.stdinOpen = true

/-- The input not handed off yet, in the order it is handed off. -/
def Driver.unfed (d : Driver) : Bytes := d.pendingStdin.getD [] ++ d.preExecStdin.flatten

/-- The two buffers hold what the pipe holds, as long as something takes it. -/
def Piped (w : World) : Prop :=
  ∃ buf, Pipe.Holds (stdinOps w.session.log) buf ∧ (w.driver.Feeding → buf = w.driver.unfed)

variable {env : Env} {w w' : World}

@[simp] theorem stdinOps_append (log log' : List Obs) :
    stdinOps (log ++ log') = stdinOps log ++ stdinOps log' := List.filterMap_append

theorem Piped.congr (h : Piped w) (hlog : stdinOps w'.session.log = stdinOps w.session.log)
    (hfeeding : w'.driver.Feeding → w.driver.Feeding ∧ w'.driver.unfed = w.driver.unfed) :
    Piped w' := by
  obtain ⟨buf, hholds, hbuf⟩ := h
  refine ⟨buf, by rw [hlog]; exact hholds, fun hf => ?_⟩
  obtain ⟨hf, hunfed⟩ := hfeeding hf
  rw [hunfed]
  exact hbuf hf

/-- What the buffers' heads are. -/
theorem unfed_of_nextStdin {d : Driver} {chunk : Bytes} {preExec : List Bytes}
    (h : d.nextStdin = some (chunk, preExec)) : d.unfed = chunk ++ preExec.flatten := by
  unfold Driver.nextStdin at h
  unfold Driver.unfed
  split at h
  next hpending =>
    cases h
    simp [hpending]
  next hpending hpre =>
    cases h
    simp [hpending, hpre]
  next => cases h

theorem unfed_of_nextStdin_none {d : Driver} (h : d.nextStdin = none) : d.unfed = [] := by
  unfold Driver.nextStdin at h
  unfold Driver.unfed
  split at h
  next => cases h
  next => cases h
  next hpending hpre => simp [hpending, hpre]

theorem feeding_of_child {child : ChildIo} (hchild : w.driver.child = some child)
    (hopen : child.stdinOpen = true) : w.driver.Feeding :=
  .inr (.inr ⟨child, hchild, hopen⟩)

/-- A child whose stdin is closed takes nothing. -/
theorem Balanced.not_feeding (h : Balanced w) {child : ChildIo}
    (hchild : w.driver.child = some child) (hclosed : child.stdinOpen = false) :
    ¬w.driver.Feeding := by
  obtain ⟨hopened, hbusy⟩ := h.state_of_child hchild
  rintro (hs | hs | ⟨c, hc, hopen⟩)
  · exact hopened hs
  · exact hbusy hs
  · rw [hchild, Option.some.injEq] at hc
    rw [hc, hopen] at hclosed
    cases hclosed

/-! ### One step -/

theorem stdinOps_sent (w : World) (tick bytesTx : ℕ) (q : Bytes) :
    stdinOps (w.sent tick bytesTx q).session.log = stdinOps w.session.log := by
  simp [World.sent, Session.sent, stdinOps, stdinOp]

theorem stdinOps_observe (w : World) (obs : Obs) (h : stdinOp obs = none) :
    stdinOps (w.observe obs).session.log = stdinOps w.session.log := by
  simp [World.observe, Session.observe, stdinOps, h]

theorem Piped.feeds (h : Piped w) (hb : Balanced w) (hfeeds : Feeds w w') : Piped w' := by
  cases hfeeds with
  | childless hchild => exact h
  | empty hnext => exact h
  | returned child chunk preExec hchild hnext hopen hfull =>
    refine h.congr rfl fun hf => ⟨hf, ?_⟩
    rw [unfed_of_nextStdin hnext]
    rfl
  | queued child chunk preExec hchild hnext hopen halive hroom =>
    obtain ⟨buf, hholds, hbuf⟩ := h
    have hbuf := hbuf (feeding_of_child hchild hopen)
    rw [unfed_of_nextStdin hnext] at hbuf
    subst hbuf
    refine ⟨preExec.flatten, ?_, fun _ => rfl⟩
    have hlog : stdinOps (w.session.log ++ [.queued chunk]) =
        stdinOps w.session.log ++ [.take chunk] := by simp [stdinOps, stdinOp]
    change Pipe.Holds (stdinOps (w.session.log ++ [.queued chunk])) _
    rw [hlog]
    exact hholds.take chunk
  | dropped child chunk preExec hchild hnext hclosed =>
    exact h.congr rfl fun hf => absurd hf (hb.not_feeding hchild hclosed)

theorem Piped.closesStdin (h : Piped w) (hcloses : ClosesStdin w w') : Piped w' := by
  cases hcloses with
  | closed child hchild heof hnext hopen =>
    obtain ⟨buf, hholds, hbuf⟩ := h
    obtain rfl : buf = [] :=
      (hbuf (feeding_of_child hchild hopen)).trans (unfed_of_nextStdin_none hnext)
    have hlog : stdinOps (w.session.log ++ [.stdinEof]) =
        stdinOps w.session.log ++ [.finish] := by simp [stdinOps, stdinOp]
    refine ⟨[], ?_, fun _ => (unfed_of_nextStdin_none hnext).symm⟩
    change Pipe.Holds (stdinOps (w.session.log ++ [.stdinEof])) _
    rw [hlog]
    exact hholds.finish

theorem Piped.handsOff (h : Piped w) (hb : Balanced w) (hoff : HandsOff w w') : Piped w' := by
  cases hoff with
  | fed hfeeds => exact h.feeds hb hfeeds
  | closed hfeeds hcloses => exact (h.feeds hb hfeeds).closesStdin hcloses

/-- Data accepted goes to the end of the pipe. -/
theorem Piped.accepts (h : Piped w) (data : Bytes)
    (hlog : stdinOps w'.session.log = stdinOps w.session.log ++ [.put data])
    (hfeeding : w'.driver.Feeding →
      w.driver.Feeding ∧ w'.driver.unfed = w.driver.unfed ++ data) : Piped w' := by
  obtain ⟨buf, hholds, hbuf⟩ := h
  refine ⟨buf ++ data, by rw [hlog]; exact hholds.put data, fun hf => ?_⟩
  obtain ⟨hf, hunfed⟩ := hfeeding hf
  rw [hunfed, hbuf hf]

/-- The message brings input that would overtake what is left in the first buffer. -/
def Overtakes (p : Bytes) (w : World) : Prop :=
  ∃ data child, CarriesData p data ∧ data ≠ [] ∧ w.driver.child = some child ∧
    child.stdinOpen = true ∧ w.driver.preExecStdin.flatten ≠ []

theorem stdinOps_accepted (w : World) (p data : Bytes) (f : Driver → Driver) :
    stdinOps (((w.observe (.handled p)).observe (.accepted data)).mapDriver f).session.log =
      stdinOps w.session.log ++ [.put data] := by
  simp only [World.mapDriver, World.observe, Session.observe, stdinOps_append, List.append_assoc]
  rfl

theorem Piped.reacts (h : Piped w) (hb : Balanced w) {p : Bytes} (hreacts : Reacts p w w')
    (hcareful : ¬Overtakes p w) : Piped w' := by
  have hhandled := stdinOps_observe w (.handled p) rfl
  cases hreacts with
  | silent tick => exact h.congr hhandled fun hf => ⟨hf, rfl⟩
  | answered q tick bytesTx ha =>
    exact h.congr ((stdinOps_sent _ _ _ _).trans hhandled) fun hf => ⟨hf, rfl⟩
  | ptyGranted term tick hstate => exact h.congr hhandled fun hf => ⟨hf, rfl⟩
  | ptyAnswered term q tick bytesTx ha hmsg hstate =>
    exact h.congr ((stdinOps_sent _ _ _ _).trans hhandled) fun hf => ⟨hf, rfl⟩
  | opened sender window maxPkt tick bytesTx hmsg hstate hmax hwindow =>
    exact h.congr ((stdinOps_sent _ _ _ _).trans hhandled) fun _ => ⟨.inl hstate, rfl⟩
  | started what d tick hstate hd =>
    refine h.congr ((stdinOps_observe _ .execStarted rfl).trans hhandled)
      fun _ => ⟨.inr (.inl hstate), ?_⟩
    cases hd <;> rfl
  | startedAnswered what d tick₁ tick bytesTx hstate hd ha =>
    refine h.congr ((stdinOps_sent _ _ _ _).trans ((stdinOps_observe _ .execStarted rfl).trans
      hhandled)) fun _ => ⟨.inr (.inl hstate), ?_⟩
    cases hd <;> rfl
  | buffered data hmsg hstate heof hwindow hlen hread =>
    refine h.accepts data (stdinOps_accepted _ _ _ _) fun _ => ⟨.inr (.inl hstate), ?_⟩
    have hpending := (hb.childless (.inr hstate)).2
    simp [Driver.unfed, hpending]
  | stashed data child hmsg hstate heof hchild hwindow hlen hread =>
    refine h.accepts data (stdinOps_accepted _ _ _ _) fun hf => ⟨hf, ?_⟩
    have hopen : child.stdinOpen = true := by
      obtain hs | hs | ⟨c, hc, hopen⟩ := hf
      · exact absurd hs hstate.1
      · exact absurd hs hstate.2.1
      · have : child = c := Option.some.inj (hchild.symm.trans hc)
        rw [this]
        exact hopen
    -- Either nothing is left of the first buffer, or nothing was sent.
    by_cases hempty : data = []
    · simp [Driver.unfed, hempty]
    · have hpre : w.driver.preExecStdin.flatten = [] := by
        by_contra hpre
        exact hcareful ⟨data, child, hread, hempty, hchild, hopen, hpre⟩
      simp [Driver.unfed, hpre]
  | unsunk data hmsg hstate heof hchild hwindow hlen hread =>
    refine h.accepts data (stdinOps_accepted _ _ _ _) fun hf => ?_
    obtain hs | hs | ⟨c, hc, -⟩ := hf
    · exact absurd hs hstate.1
    · exact absurd hs hstate.2.1
    · exact absurd (hchild.symm.trans hc) (by simp)
  | adjusted add hmsg hstate hadd => exact h.congr hhandled fun hf => ⟨hf, rfl⟩
  | eof hmsg hstate => exact h.congr hhandled fun hf => ⟨hf, rfl⟩
  | closed hmsg hstate =>
    refine h.congr hhandled fun hf => ⟨?_, rfl⟩
    obtain hs | hs | hchild := hf
    · cases hs
    · cases hs
    · exact .inr (.inr hchild)
  | closedEarly hmsg hstate =>
    refine h.congr hhandled fun hf => ?_
    obtain hs | hs | ⟨c, hc, hopen⟩ := hf
    · cases hs
    · cases hs
    · simp only [mapDriver_driver, observe_driver, Driver.closedEarly, Option.map_eq_some_iff] at hc
      obtain ⟨child, -, rfl⟩ := hc
      simp [ChildIo.closeStdin, ChildIo.discardOutput, ChildIo.kill] at hopen

theorem not_overtakes_of_not_inline {q : Bytes} (h : isInline q = false) : ¬Overtakes q w := by
  rintro ⟨data, child, ⟨r, rest, rfl, -⟩, -⟩
  simp [isInline] at h

theorem Piped.reactsAll (h : Piped w) (hb : Balanced w) {ps : List Bytes}
    (hreacts : ReactsAll ps w w') (hps : ∀ q ∈ ps, isInline q = false) : Piped w' := by
  induction hreacts with
  | nil => exact h
  | cons hone _ ih =>
    refine ih (h.reacts hb hone (not_overtakes_of_not_inline ?_)) (hb.reacts hone) fun q hq => ?_
    · exact hps _ List.mem_cons_self
    · exact hps q (List.mem_cons_of_mem _ hq)

theorem Rekeys.stdinOps_eq {p : Bytes} {step : RekeyStep} {s s' : Session}
    (h : Rekeys env p s step s') : stdinOps s'.log = stdinOps s.log := by
  cases h <;>
    simp [Session.sent, Session.setPhase, Session.observe, stdinOps, stdinOp]

theorem Piped.takesPacket (h : Piped w) (hb : Balanced w) (hd : Defers w) {p : Bytes}
    (htakes : TakesPacket env p w w') (hcareful : ¬Overtakes p w) : Piped w' := by
  have hlog : stdinOps (w.arrived p).session.log = stdinOps w.session.log :=
    stdinOps_observe { w with session := w.session.receive p } _ rfl
  have harrived : Piped (w.arrived p) := h.congr hlog fun hf => ⟨hf, rfl⟩
  have hb' : Balanced (w.arrived p) := hb.congr (ledger_arrived w p)
  cases htakes with
  | handled hwhen hreacts => exact harrived.reacts hb' hreacts hcareful
  | deferred iS hphase hmsg hinline hroom => exact harrived.congr rfl fun hf => ⟨hf, rfl⟩
  | rekeying hrekeys => exact harrived.congr (Rekeys.stdinOps_eq hrekeys) fun hf => ⟨hf, rfl⟩
  | @rekeyed s _ hrekeys hdrained =>
    refine Piped.reactsAll ?_ ?_ hdrained fun q hq => (hd.replies q hq).1
    · exact harrived.congr (Rekeys.stdinOps_eq hrekeys) fun hf => ⟨hf, rfl⟩
    · exact hb'.congr (Rekeys.ledger_eq (w := w.arrived p) hrekeys)

theorem Piped.occurs (h : Piped w) {event : Event} (hoccurs : Occurs event w w') : Piped w' := by
  cases hoccurs with
  | chunk kind data hearly hnone hstate hended =>
    exact h.congr (stdinOps_observe w _ rfl) fun hf => ⟨hf, rfl⟩
  | unsent kind data hearly => exact h
  | exited exit hstate hended =>
    refine h.congr rfl fun hf => ⟨?_, rfl⟩
    obtain hs | hs | hchild := hf
    · simp only [mapDriver_driver] at hs
      split at hs
      · cases hs
      · exact .inl hs
    · simp only [mapDriver_driver] at hs
      split at hs
      · cases hs
      · exact .inr (.inl hs)
    · exact .inr (.inr hchild)
  | ended hstate hchild =>
    refine h.congr rfl fun hf => ⟨?_, rfl⟩
    obtain hs | hs | ⟨c, hc, hopen⟩ := hf
    · exact .inl hs
    · exact .inr (.inl hs)
    · simp only [mapDriver_driver, Option.map_eq_some_iff] at hc
      obtain ⟨child, hchild, rfl⟩ := hc
      exact feeding_of_child hchild hopen
  | credit child n rest hchild hconsumed =>
    refine h.congr (stdinOps_observe w _ rfl) fun hf => ⟨?_, rfl⟩
    obtain hs | hs | ⟨c, hc, hopen⟩ := hf
    · exact .inl hs
    · exact .inr (.inl hs)
    · simp only [mapDriver_driver, Option.some.injEq] at hc
      subst hc
      exact feeding_of_child hchild hopen
  | creditsEnded child hchild hconsumed hpump => exact h.congr rfl fun hf => ⟨hf, rfl⟩
  | woken => exact h

theorem pump_stdinOpen {child child' : ChildIo} {step : PumpStep}
    (h : child.pump step = some child') : child'.stdinOpen = child.stdinOpen := by
  cases step with
  | take =>
    simp only [ChildIo.pump] at h
    split at h
    · simp only [Option.ite_none_right_eq_some, Option.some.injEq] at h
      rw [← h.2]
    · cases h
  | write n =>
    simp only [ChildIo.pump, Option.ite_none_right_eq_some, Option.some.injEq] at h
    rw [← h.2]
  | stop =>
    simp only [ChildIo.pump, Option.ite_none_right_eq_some, Option.some.injEq] at h
    rw [← h.2]

theorem Piped.pumped (h : Piped w) {child child' : ChildIo} {step : PumpStep}
    (hchild : w.driver.child = some child) (hpump : child.pump step = some child') :
    Piped (w.mapDriver fun d => { d with child := some child' }) := by
  refine h.congr rfl fun hf => ⟨?_, rfl⟩
  obtain hs | hs | ⟨c, hc, hopen⟩ := hf
  · exact .inl hs
  · exact .inr (.inl hs)
  · simp only [mapDriver_driver, Option.some.injEq] at hc
    subst hc
    exact feeding_of_child hchild ((pump_stdinOpen hpump).symm.trans hopen)

theorem FlushOnes.stdinOps_eq (h : Relation.ReflTransGen FlushOne w w') :
    stdinOps w'.session.log = stdinOps w.session.log ∧ (w'.driver.Feeding → w.driver.Feeding) ∧
      w'.driver.unfed = w.driver.unfed := by
  induction h with
  | refl => exact ⟨rfl, id, rfl⟩
  | tail _ hone ih =>
    cases hone with
    | packet p n tick bytesTx h =>
      exact ⟨(stdinOps_sent _ _ _ _).trans ih.1, ih.2.1, ih.2.2⟩

theorem Credits.piped (hcredits : Credits w w') (h : Piped w) : Piped w' := by
  cases hcredits with
  | below hlt => exact h
  | returned tick bytesTx hbatch =>
    exact h.congr (stdinOps_sent w _ _ _) fun hf => ⟨hf, rfl⟩

theorem SentAll.stdinOps_eq {qs : List Bytes} (h : SentAll qs w w') :
    stdinOps w'.session.log = stdinOps w.session.log := by
  induction h with
  | nil => rfl
  | cons tick bytesTx h ih => exact ih.trans (stdinOps_sent _ _ _ _)

theorem Piped.settles (h : Piped w) (hsettles : Settles w false w') : Piped w' := by
  cases hsettles with
  | busy hactive => exact h
  | rekeyed cookie tick bytesTx started trigger hidle hcredits hstate =>
    exact (hcredits.piped h).congr (stdinOps_sent _ tick bytesTx _) fun hf => ⟨hf, rfl⟩
  | closes tick now hidle hcredits hdue hcloses =>
    have hcredited : Piped (World.atTick _ tick) :=
      (hcredits.piped h).congr rfl fun hf => ⟨hf, rfl⟩
    cases hcloses with
    | waiting hready hstate => exact hcredited
    | half hready hearly hsent =>
      refine hcredited.congr hsent.stdinOps_eq fun hf => ?_
      simp only [mapDriver_driver, hsent.driver_eq] at hf ⊢
      obtain hs | hs | hchild := hf
      · cases hs
      · cases hs
      · exact ⟨.inr (.inr hchild), rfl⟩

/-- What the runs of the driver keep about the child's input. -/
structure FeedsInOrder (w : World) : Prop where
  balanced : Balanced w
  defers : Defers w
  piped : Piped w

/-- The step brings no input that overtakes earlier input. -/
def InOrder (c : Config) (input : Input) : Prop :=
  ∀ p, input = .event (.packet p) → ¬Overtakes p c.world

theorem Piped.turn {c c' : Config} {input : Input} (hturn : Turn env c input c')
    (hcareful : InOrder c input) (h : c.live → FeedsInOrder c.world) (hlive : c'.live) :
    Piped c'.world := by
  cases hturn with
  | flushed hidle hrun =>
    obtain ⟨hlog, hfeeding, hunfed⟩ := FlushOnes.stdinOps_eq hrun
    exact (h (by simp [Config.live])).piped.congr hlog fun hf => ⟨hfeeding hf, hunfed⟩
  | unflushed hactive => exact (h (by simp [Config.live])).piped
  | handedOff hoff =>
    have hw := h (by simp [Config.live])
    exact hw.piped.handsOff hw.balanced hoff
  | settled hsettles =>
    rename_i finished
    cases finished with
    | true => exact absurd rfl (hlive _)
    | false => exact (h (by simp [Config.live])).piped.settles hsettles
  | packet p htakes =>
    have hw := h (by simp [Config.live])
    exact hw.piped.takesPacket hw.balanced hw.defers htakes (hcareful p rfl)
  | occurred event hoccurs => exact (h (by simp [Config.live])).piped.occurs hoccurs
  | pumped child child' step hpc hchild hpump => exact (h hpc).piped.pumped hchild hpump
  | flushFailed e hidle hfails => exact absurd rfl (hlive _)
  | settleFailed e hfails => exact absurd rfl (hlive _)
  | packetFailed p e hfails => exact absurd rfl (hlive _)
  | readFailed error => exact absurd rfl (hlive _)
  | timedOut hactive hleft => exact absurd rfl (hlive _)

theorem piped_start (h : Handshake) : Piped (Config.start h).world := by
  have hops : stdinOps (h.frames.map Obs.sealed) = [] := by
    simp [stdinOps, stdinOp]
  refine ⟨[], ?_, fun _ => rfl⟩
  change Pipe.Holds (stdinOps (h.frames.map Obs.sealed)) []
  rw [hops]
  exact .nil

/-- What one step keeps. -/
theorem FeedsInOrder.step {c c' : Config} {input : Input} (hinv : c.live → FeedsInOrder c.world)
    (hcareful : InOrder c input) (hstep : c.step env input = some c') (hlive : c'.live) :
    FeedsInOrder c'.world :=
  have hturn := step_turn hstep
  ⟨Balanced.turn hturn (fun hl => (hinv hl).balanced) hlive,
    Defers.turn hturn (fun hl => (hinv hl).defers) hlive, Piped.turn hturn hcareful hinv hlive⟩

theorem feedsInOrder_of_run {h : Handshake} {inputs : List Input} {c : Config}
    (hcareful : Along (Config.step env) InOrder (Config.start h) inputs)
    (hrun : Config.runs env h inputs = some c) (hlive : c.live) : FeedsInOrder c.world := by
  refine invariant_along (P := fun c => c.live → FeedsInOrder c.world)
    (fun c input c' hinv hcareful hstep hlive => ?_) (fun _ => ?_) hcareful hrun hlive
  · exact FeedsInOrder.step hinv hcareful hstep hlive
  · exact ⟨balanced_start h, defers_start h, piped_start h⟩

/-! ### Order and completeness -/

/-- The channel data accepted, end to end. -/
def acceptedInput (log : List Obs) : Bytes :=
  log.flatMap fun | .accepted data => data | _ => []

/-- The chunks queued to the child, end to end. -/
def queuedInput (log : List Obs) : Bytes :=
  log.flatMap fun | .queued chunk => chunk | _ => []

theorem given_stdinOps (log : List Obs) : Pipe.given (stdinOps log) = acceptedInput log := by
  induction log with
  | nil => rfl
  | cons obs log ih =>
    cases obs <;> simp_all [Pipe.given, stdinOps, acceptedInput, stdinOp, Pipe.Op.given,
      List.filterMap_cons]

theorem taken_stdinOps (log : List Obs) : Pipe.taken (stdinOps log) = queuedInput log := by
  induction log with
  | nil => rfl
  | cons obs log ih =>
    cases obs <;> simp_all [Pipe.taken, stdinOps, queuedInput, stdinOp, Pipe.Op.taken,
      List.filterMap_cons]

/-- What is in the child's queue, and what is not yet, is the input accepted. -/
theorem FeedsInOrder.input (h : FeedsInOrder w) :
    queuedInput w.session.log <+: acceptedInput w.session.log ∧
      (w.driver.Feeding →
        queuedInput w.session.log ++ w.driver.unfed = acceptedInput w.session.log) := by
  obtain ⟨buf, hholds, hbuf⟩ := h.piped
  rw [← given_stdinOps, ← taken_stdinOps]
  refine ⟨hholds.taken_prefix, fun hfeeding => ?_⟩
  rw [← hbuf hfeeding]
  exact hholds.conserves

/-- As long as no data overtakes earlier data, the chunks queued to the child are
a beginning of the data accepted; what is missing while stdin is open is in the
buffers; and an EOF closes stdin only after everything was queued. -/
theorem input_in_order {env : Env} {h : Handshake} {inputs : List Input} {c : Config}
    (hrun : Config.runs env h inputs = some c) (hlive : c.live)
    (hcareful : Along (Config.step env) InOrder (Config.start h) inputs) :
    queuedInput c.world.session.log <+: acceptedInput c.world.session.log ∧
      (c.world.driver.Feeding → queuedInput c.world.session.log ++ c.world.driver.unfed =
        acceptedInput c.world.session.log) ∧
      ∀ before after, c.world.session.log = before ++ .stdinEof :: after →
        queuedInput before = acceptedInput before := by
  have hfeeds := feedsInOrder_of_run hcareful hrun hlive
  refine ⟨hfeeds.input.1, hfeeds.input.2, fun before after hlog => ?_⟩
  · obtain ⟨buf, hholds, -⟩ := hfeeds.piped
    rw [← given_stdinOps, ← taken_stdinOps]
    have hops : stdinOps c.world.session.log = stdinOps before ++ .finish :: stdinOps after := by
      rw [hlog, stdinOps_append]
      rfl
    rw [hops] at hholds
    exact hholds.taken_of_finish

/-- Decides that the step brings nothing that overtakes earlier input. -/
def checksInOrder (c : Config) : Input → Bool
  | .event (.packet p) =>
    p.head? ≠ some sshMsgChannelData || c.world.driver.preExecStdin.flatten = []
  | _ => true

theorem inOrder_of_check (c : Config) (input : Input) (h : checksInOrder c input = true) :
    InOrder c input := by
  rintro p rfl ⟨data, child, ⟨r, rest, rfl, -⟩, -, -, -, hpre⟩
  simp [checksInOrder, hpre] at h

/-- A client types before and after it asks for a shell; the first line is in the
child's queue when the last arrives. -/
def typedRun : List Input :=
  packetTurn (openSession 7 maxPacket maxPacket) ++ packetTurn (channelData [1, 2]) ++
    packetTurn (channelRequest "shell" true) ++ packetTurn (channelData [3]) ++
    [.phase, .phase, .phase]

/-- The same with two packets before the shell. -/
def hastyRun : List Input :=
  packetTurn (openSession 7 maxPacket maxPacket) ++ packetTurn (channelData [1]) ++
    packetTurn (channelData [2]) ++ packetTurn (channelRequest "shell" true) ++
    packetTurn (channelData [3]) ++ [.phase, .phase, .phase]

theorem input_in_order_typed : ∃ c, Config.runs plainEnv plainHandshake typedRun = some c ∧
    queuedInput c.world.session.log = [1, 2, 3] ∧
    queuedInput c.world.session.log <+: acceptedInput c.world.session.log := by
  have hc : (Config.runs plainEnv plainHandshake typedRun).map
      (fun c => (c.pc.isDone, queuedInput c.world.session.log)) = some (false, [1, 2, 3]) := by
    decide
  obtain ⟨c, hrun, hc⟩ := Option.map_eq_some_iff.1 hc
  obtain ⟨hpc, hqueued⟩ := Prod.mk.inj hc
  refine ⟨c, hrun, hqueued, (input_in_order hrun (live_of_isDone hpc) ?_).1⟩
  exact along_of_check inOrder_of_check (by decide)

/-- The third packet overtakes the second. -/
theorem late_input_overtakes : ∃ c, Config.runs plainEnv plainHandshake hastyRun = some c ∧
    c.world.driver.child.any ChildIo.stdinOpen = true ∧
    queuedInput c.world.session.log = [1, 3] ∧ acceptedInput c.world.session.log = [1, 2, 3] ∧
    ¬queuedInput c.world.session.log <+: acceptedInput c.world.session.log := by
  have hc : (Config.runs plainEnv plainHandshake hastyRun).map
      (fun c => (c.world.driver.child.any ChildIo.stdinOpen, queuedInput c.world.session.log,
        acceptedInput c.world.session.log)) = some (true, [1, 3], [1, 2, 3]) := by
    decide
  obtain ⟨c, hrun, hc⟩ := Option.map_eq_some_iff.1 hc
  obtain ⟨hopen, hqueued, haccepted⟩ : _ ∧ _ ∧ _ := by simpa using hc
  refine ⟨c, hrun, hopen, hqueued, haccepted, ?_⟩
  rw [hqueued, haccepted]
  decide

end QuantumSsh.Channel
