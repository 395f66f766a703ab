import QuantumSsh.Channel.Accord

/-!
# What a step of the server puts under way

The packets that the parts of a turn seal, as the ratchet of the server's direction sees
them: a step of the loop seals messages outside of a key exchange and leaves the rest of the
session alone, or it is a step of the exchange. The last packets of a connection go on from
where the ratchet stands.
-/

namespace QuantumSsh.Channel

open Wire Kex Machine Program Transport

variable {env : Env} {w w₁ w' : World} {p q : Bytes} {xs ys : List Bytes}

theorem sealedFrames_append (log log' : List Obs) :
    sealedFrames (log ++ log') = sealedFrames log ++ sealedFrames log' :=
  List.filterMap_append

/-! ### Steps that leave the exchange alone -/

/-- The packets are sealed one after the other, and nothing else of the session that the
exchange depends on changes. -/
structure Ships (xs : List Bytes) (w w' : World) : Prop where
  frames : sealedFrames w'.session.log =
    sealedFrames w.session.log ++ packets.marks w.txEnd xs
  tx : w'.txEnd = packets.advance w.txEnd xs
  rx : w'.rxEnd = w.rxEnd
  phase : w'.session.rekey.phase = w.session.rekey.phase
  clientId : w'.session.clientId = w.session.clientId
  sessionId : w'.session.sessionId = w.session.sessionId

/-- Nothing is sealed. -/
theorem ships_nil (hframes : sealedFrames w'.session.log = sealedFrames w.session.log)
    (htx : w'.txEnd = w.txEnd) (hrx : w'.rxEnd = w.rxEnd)
    (hphase : w'.session.rekey.phase = w.session.rekey.phase)
    (hclient : w'.session.clientId = w.session.clientId)
    (hsession : w'.session.sessionId = w.session.sessionId) : Ships [] w w' where
  frames := by rw [hframes, Ratchet.Scheme.marks, List.append_nil]
  tx := htx
  rx := hrx
  phase := hphase
  clientId := hclient
  sessionId := hsession

theorem Ships.refl (w : World) : Ships [] w w := ships_nil rfl rfl rfl rfl rfl rfl

theorem Ships.trans (h : Ships xs w w₁) (h' : Ships ys w₁ w') : Ships (xs ++ ys) w w' where
  frames := by
    rw [h'.frames, h.frames, h.tx, List.append_assoc, Ratchet.Scheme.marks_append]
  tx := by rw [h'.tx, h.tx, Ratchet.Scheme.advance_append]
  rx := h'.rx.trans h.rx
  phase := h'.phase.trans h.phase
  clientId := h'.clientId.trans h.clientId
  sessionId := h'.sessionId.trans h.sessionId

theorem ships_sent (w : World) (tick bytesTx : ℕ) (q : Bytes) :
    Ships [q] w (w.sent tick bytesTx q) where
  frames := sealedFrames_append _ _
  tx := rfl
  rx := rfl
  phase := rfl
  clientId := rfl
  sessionId := rfl

/-- An entry that seals nothing. -/
theorem ships_observe (w : World) {obs : Obs} (h : sealedFrames [obs] = []) :
    Ships [] w (w.observe obs) := by
  refine ships_nil ?_ rfl rfl rfl rfl rfl
  change sealedFrames (w.session.log ++ [obs]) = _
  rw [sealedFrames_append, h, List.append_nil]

/-- The driver and the tick play no part. -/
theorem Ships.congr (h : Ships xs w w₁) (hsession : ∃ tick, w'.session = { w₁.session with tick }) :
    Ships xs w w' := by
  obtain ⟨tick, hsession⟩ := hsession
  refine ⟨?_, ?_, ?_, ?_, ?_, ?_⟩
  · rw [hsession]
    exact h.frames
  · rw [World.txEnd, hsession]
    exact h.tx
  · rw [World.rxEnd, hsession]
    exact h.rx
  · rw [hsession]
    exact h.phase
  · rw [hsession]
    exact h.clientId
  · rw [hsession]
    exact h.sessionId

/-- Only messages outside of an exchange are sealed. -/
def Speaks (w w' : World) : Prop := ∃ xs, (∀ x ∈ xs, isOrdinary x = true) ∧ Ships xs w w'

theorem Ships.speaks (h : Ships [] w w') : Speaks w w' := ⟨[], by simp, h⟩

theorem Speaks.refl (w : World) : Speaks w w := (Ships.refl w).speaks

theorem Speaks.trans (h : Speaks w w₁) (h' : Speaks w₁ w') : Speaks w w' := by
  obtain ⟨xs, hxs, h⟩ := h
  obtain ⟨ys, hys, h'⟩ := h'
  exact ⟨xs ++ ys, fun x hx => (List.mem_append.1 hx).elim (hxs x) (hys x), h.trans h'⟩

theorem Speaks.congr (h : Speaks w w₁) (hsession : ∃ tick, w'.session = { w₁.session with tick }) :
    Speaks w w' := by
  obtain ⟨xs, hxs, h⟩ := h
  exact ⟨xs, hxs, h.congr hsession⟩

theorem speaks_sent (hq : isOrdinary q = true) (tick bytesTx : ℕ) :
    Speaks w (w.sent tick bytesTx q) :=
  ⟨[q], by simpa using hq, ships_sent w tick bytesTx q⟩

theorem FlushOnes.speaks (h : Relation.ReflTransGen FlushOne w w') : Speaks w w' := by
  induction h with
  | refl => exact .refl w
  | tail _ hone ih =>
    cases hone with
    | packet p n tick bytesTx hflush =>
      refine ih.trans ((speaks_sent (isOrdinary_dataFrame _ p n) tick bytesTx).congr ⟨_, rfl⟩)

theorem HandsOff.ships (h : HandsOff w w') : Ships [] w w' := by
  have hfeeds : ∀ {w₁ : World}, Feeds w w₁ → Ships [] w w₁ := by
    intro w₁ h
    cases h with
    | queued child chunk preExec => exact (ships_observe w rfl).congr ⟨_, rfl⟩
    | childless | empty | returned | dropped => exact (Ships.refl w).congr ⟨_, rfl⟩
  cases h with
  | fed h => exact hfeeds h
  | closed h h' =>
    cases h' with
    | closed child hchild heof hnext hopen =>
      exact (hfeeds h).trans ((ships_observe _ rfl).congr ⟨_, rfl⟩)

theorem Occurs.ships {event : Event} (h : Occurs event w w') : Ships [] w w' := by
  cases h with
  | chunk kind data => exact (ships_observe w rfl).congr ⟨_, rfl⟩
  | credit child n rest => exact (ships_observe w rfl).congr ⟨_, rfl⟩
  | unsent | exited | ended | creditsEnded | woken => exact (Ships.refl w).congr ⟨_, rfl⟩

theorem Credits.speaks (h : Credits w w') : Speaks w w' := by
  cases h with
  | below hlt => exact .refl w
  | returned tick bytesTx hbatch => exact (speaks_sent rfl tick bytesTx).congr ⟨_, rfl⟩

theorem SentAll.speaks {qs : List Bytes} (h : SentAll qs w w')
    (hqs : ∀ q ∈ qs, isOrdinary q = true) : Speaks w w' := by
  induction h with
  | nil => exact .refl _
  | cons tick bytesTx hsent ih =>
    exact (speaks_sent (hqs _ List.mem_cons_self) tick bytesTx).trans
      (ih fun q hq => hqs q (List.mem_cons_of_mem _ hq))

theorem emitFinished_ships (w : World) : Ships [] w w.emitFinished := by
  unfold World.emitFinished
  split
  · exact (ships_observe w rfl).congr ⟨_, rfl⟩
  · exact .refl w

/-- A message handled: at most one reply is sealed, and none to a message that is handled
inside of an exchange. -/
theorem Reacts.ships (h : Reacts p w w') :
    Ships [] w w' ∨ isInline p = false ∧ Speaks w w' := by
  have hhandled : Ships [] w (w.observe (.handled p)) := ships_observe w rfl
  have hreply : ∀ {w₁ : World} {q : Bytes} (tick bytesTx : ℕ), RepliesTo w p q → Ships [] w w₁ →
      isInline p = false ∧ Speaks w (w₁.sent tick bytesTx q) :=
    fun tick bytesTx hq h => ⟨not_inline_of_answerable hq.answerable,
      h.speaks.trans (speaks_sent hq.ordinary tick bytesTx)⟩
  cases h with
  | silent tick => exact .inl (hhandled.congr ⟨tick, rfl⟩)
  | answered q tick bytesTx ha => exact .inr (hreply tick bytesTx (.answer ha) hhandled)
  | ptyGranted term tick => exact .inl (hhandled.congr ⟨tick, rfl⟩)
  | ptyAnswered term q tick bytesTx ha =>
    exact .inr (hreply tick bytesTx (.answer ha) (hhandled.congr ⟨_, rfl⟩))
  | opened sender window maxPkt tick bytesTx hmsg hstate =>
    exact .inr (hreply tick bytesTx (.confirmation sender hmsg hstate) (hhandled.congr ⟨_, rfl⟩))
  | started what d tick =>
    exact .inl ((hhandled.trans (ships_observe _ rfl)).congr ⟨tick, rfl⟩)
  | startedAnswered what d tick₁ tick bytesTx hstate hd ha =>
    obtain ⟨hinline, hspeaks⟩ := hreply tick₁ bytesTx (.answer ha)
      (hhandled.trans (@ships_observe (w.observe (.handled p)) .execStarted rfl))
    exact .inr ⟨hinline, hspeaks.congr ⟨tick, rfl⟩⟩
  | buffered data | stashed data | unsunk data =>
    exact .inl ((hhandled.trans (@ships_observe (w.observe (.handled p)) (.accepted data) rfl)).congr
      ⟨_, rfl⟩)
  | adjusted | eof | closed | closedEarly => exact .inl (hhandled.congr ⟨_, rfl⟩)

theorem Reacts.speaks (h : Reacts p w w') : Speaks w w' :=
  h.ships.elim Ships.speaks And.right

theorem ReactsAll.speaks {ps : List Bytes} (h : ReactsAll ps w w') : Speaks w w' := by
  induction h with
  | nil => exact .refl _
  | cons hone _ ih => exact hone.speaks.trans ih

/-- Phases (C) to (E), when no exchange is started. -/
theorem Closes.speaks {finished : Bool} (h : Closes w finished w') : Speaks w w' := by
  cases h with
  | waiting => exact .refl w
  | finished => exact (emitFinished_ships w).speaks
  | half hready hearly hsent =>
    exact (hsent.speaks fun q hq => isOrdinary_terminal hq).congr ⟨_, rfl⟩
  | early hready hearly hsent =>
    refine Speaks.trans ?_ (emitFinished_ships _).speaks
    exact (hsent.speaks fun q hq => isOrdinary_terminal hq).congr ⟨_, rfl⟩

/-! ### The last packets of a connection -/

/-- Packets are sealed one after the other, of which only the last can be a NEWKEYS. -/
def Trails (w w' : World) : Prop :=
  ∃ xs, (∀ x ∈ xs.dropLast, packets.switches x = false) ∧
    sealedFrames w'.session.log = sealedFrames w.session.log ++ packets.marks w.txEnd xs

theorem forall_mem_dropLast_append {P : Bytes → Prop} (hxs : ∀ x ∈ xs, P x)
    (hys : ∀ y ∈ ys.dropLast, P y) : ∀ z ∈ (xs ++ ys).dropLast, P z := by
  intro z hz
  cases ys with
  | nil =>
    rw [List.append_nil] at hz
    exact hxs z (List.dropLast_subset xs hz)
  | cons y ys =>
    rw [List.dropLast_append_cons] at hz
    exact (List.mem_append.1 hz).elim (hxs z) (hys z)

theorem Ships.trails (h : Ships xs w w₁) (hxs : ∀ x ∈ xs, packets.switches x = false)
    (h' : Trails w₁ w') : Trails w w' := by
  obtain ⟨ys, hys, hframes⟩ := h'
  refine ⟨xs ++ ys, forall_mem_dropLast_append hxs hys, ?_⟩
  rw [hframes, h.frames, h.tx, List.append_assoc, Ratchet.Scheme.marks_append]

theorem Trails.refl (w : World) : Trails w w :=
  ⟨[], by simp, by simp [Ratchet.Scheme.marks]⟩

theorem Speaks.trails (h : Speaks w w₁) (h' : Trails w₁ w') : Trails w w' := by
  obtain ⟨xs, hxs, h⟩ := h
  exact h.trails (fun x hx => switches_of_ordinary (hxs x hx)) h'

/-- Only the log and the ratchet count. -/
theorem Trails.congr (h : Trails w₁ w')
    (hlog : sealedFrames w₁.session.log = sealedFrames w.session.log) (htx : w₁.txEnd = w.txEnd) :
    Trails w w' := by
  obtain ⟨xs, hxs, hframes⟩ := h
  exact ⟨xs, hxs, by rw [hframes, hlog, htx]⟩

theorem trails_left {P : Bytes → Prop} (h : w.Left P w') : Trails w w' := by
  obtain hlog | ⟨q, -, hlog⟩ := h
  · exact ⟨[], by simp, by rw [hlog, Ratchet.Scheme.marks, List.append_nil]⟩
  · refine ⟨[q], by simp, ?_⟩
    rw [hlog, sealedFrames_append]
    rfl

theorem FlushFails.trails (h : FlushFails w w') : Trails w w' := by
  obtain ⟨w₁, p, n, hrun, -, hleft⟩ := h
  exact (FlushOnes.speaks hrun).trails (trails_left hleft)

theorem SettleFails.trails (h : SettleFails w w') : Trails w w' := by
  cases h with
  | credit hidle hbatch hleft => exact trails_left hleft
  | rekey w₁ cookie hidle hcredits hstate hleft => exact hcredits.speaks.trails (trails_left hleft)
  | terminal w₁ tick now hidle hcredits hdue hready hfails =>
    obtain ⟨pre, q, post, w₂, hqs, hsent, hleft⟩ := hfails
    have hpre : ∀ q' ∈ pre, isOrdinary q' = true := by
      intro q' hq'
      refine isOrdinary_terminal (d := w.driver) ?_
      rw [hqs]
      exact List.mem_append_left _ hq'
    have hcredited : Speaks w (w₁.atTick tick) := hcredits.speaks.congr ⟨tick, rfl⟩
    exact (hcredited.trans (hsent.speaks hpre)).trails (trails_left hleft)

theorem ReactFails.trails (h : ReactFails p w w') : Trails w w' := by
  cases h with
  | handled hleft => exact (ships_observe w rfl).speaks.trails (trails_left hleft)
  | started hstate hleft =>
    have hships : Ships [] w ((w.observe (.handled p)).observe .execStarted) :=
      (ships_observe w rfl).trans (ships_observe _ rfl)
    exact hships.speaks.trails (trails_left hleft)

theorem rekeyFails_trails (h : RekeyFails p w.session w'.session) : Trails w w' := by
  have hone : ∀ {q : Bytes} (tick bytesTx : ℕ), packets.switches q = false →
      Trails (w.sent tick bytesTx q) w' → Trails w w' :=
    fun {q} tick bytesTx hq h => (ships_sent w tick bytesTx q).trails (by simpa using hq) h
  cases h with
  | refused hleft => exact trails_left hleft
  | opening cookie hphase hmsg hleft => exact trails_left hleft
  | openedRefused cookie tick bytesTx hphase hmsg hleft =>
    have hkexinit : packets.switches (buildRekeyKexinit cookie) = false := rfl
    exact hone tick bytesTx hkexinit (trails_left hleft)
  | replying q iC iS n hphase hq hleft => exact trails_left hleft
  | finishing q iC iS n tick bytesTx hphase hq hleft =>
    exact hone tick bytesTx (switches_of_head hq (by decide)) (trails_left hleft)

/-- A packet that ends the connection: what is sealed goes on from before it, or from behind the
end of the exchange. -/
theorem PacketFails.trails (h : PacketFails env p w w') :
    Trails w w' ∨ ∃ s, Rekeys env p (w.arrived p).session .completed s ∧ Trails (w.drained s) w' := by
  have harrived : sealedFrames (w.arrived p).session.log = sealedFrames w.session.log := by
    change sealedFrames (w.session.log ++ [.received p]) = _
    rw [sealedFrames_append]
    exact List.append_nil _
  have hfrom : Trails (w.arrived p) w' → Trails w w' := fun h => h.congr harrived rfl
  cases h with
  | handled hwhen hfails => exact .inl (hfrom hfails.trails)
  | overflow hleft => exact .inl (hfrom (trails_left hleft))
  | rekeying hfails => exact .inl (hfrom (rekeyFails_trails hfails))
  | @draining s hrekeys hfails =>
    obtain ⟨pre, q, post, w₁, -, hreacts, hfails⟩ := hfails
    exact .inr ⟨s, hrekeys, hreacts.speaks.trails hfails.trails⟩

/-! ### Our KEXINITs -/

/-- What the phase keeps of us is one of our KEXINITs. -/
def OurPhase : RekeyPhase → Prop
  | .sentKexInit iS | .awaitHybridInit _ iS _ _ => IsOurKexinit iS
  | .idle | .awaitNewKeys _ => True

theorem OurPhase.congr (h : OurPhase w.session.rekey.phase)
    (hphase : w'.session.rekey.phase = w.session.rekey.phase) :
    OurPhase w'.session.rekey.phase := by
  rw [hphase]
  exact h

theorem ours_of_rekeys {step : RekeyStep} {s s' : Session} (h : Rekeys env p s step s')
    (hphase : s.rekey.phase ≠ .idle) (hours : OurPhase s.rekey.phase) :
    OurPhase s'.rekey.phase := by
  cases h with
  | opened cookie n tick bytesTx started hidle => exact absurd hidle hphase
  | answered iS n tick hsent | skipped iC iS n hsent =>
    rw [hsent] at hours
    exact hours
  | passed => exact hours
  | replied | completed => exact trivial

theorem Closes.phase_eq {finished : Bool} (h : Closes w finished w') :
    w'.session.rekey.phase = w.session.rekey.phase := by
  have hfinished : ∀ w : World, w.emitFinished.session.rekey.phase = w.session.rekey.phase :=
    fun w => (emitFinished_ships w).phase
  cases h with
  | waiting => rfl
  | finished => exact hfinished w
  | half hready hearly hsent => exact hsent.phase_eq
  | early hready hearly hsent => exact (hfinished _).trans hsent.phase_eq

section

variable (hrandom : ∀ tick length bytes, env.random tick length = some bytes → bytes.length = length)
include hrandom

theorem beginRekey_ours {s : Session} :
    (beginRekey env).Ensures s (fun _ s' => OurPhase s'.rekey.phase) fun _ _ => True := by
  simp only [beginRekey, ensures_bind, ask_ensures]
  split
  next cookie hcookie =>
    simp only [ensures_bind]
    exact writePacket_ensures (fun _ _ => ⟨cookie, hrandom _ _ _ hcookie, rfl⟩) fun _ _ _ => trivial
  next => trivial

theorem stepRekey_ours {s : Session} (h : OurPhase s.rekey.phase) :
    (stepRekey env p).Ensures s (fun _ s' => OurPhase s'.rekey.phase) fun _ _ => True := by
  by_cases hidle : s.rekey.phase = .idle
  · simp only [stepRekey, ensures_bind, ensures_look, ensures_update, hidle]
    split
    next => exact disconnect_ensures fun _ _ => trivial
    next =>
      simp only [ensures_bind, ask_ensures, ensures_update]
      split
      next cookie hcookie =>
        simp only [ensures_bind]
        refine writePacket_ensures (fun tick bytesTx => ?_) fun _ _ _ => trivial
        exact negotiateRekey_ensures (fun n _ => ⟨cookie, hrandom _ _ _ hcookie, rfl⟩)
          fun _ _ _ => trivial
      next => trivial
  · exact stepRekey_ensures (fun step s' hrekeys => ours_of_rekeys hrekeys hidle h)
      fun _ _ _ => trivial

theorem settlePhase_ours (h : OurPhase w.session.rekey.phase) :
    (settlePhase env).Ensures w (fun _ w' => OurPhase w'.session.rekey.phase) fun _ _ => True := by
  simp only [settlePhase, ensures_bind, ensures_look]
  split
  next => exact h
  next hactive =>
    have hidle : w.session.rekey.phase = .idle := by simpa [Session.rekeyActive] using hactive
    simp only [ensures_bind]
    refine (replenishWindow_ensures hidle).mono (fun _ w₁ hcredits => ?_) fun _ _ _ => trivial
    have hcredited : OurPhase w₁.session.rekey.phase := h.congr hcredits.stance.phase
    have hclose : ∀ w₂ : World, OurPhase w₂.session.rekey.phase →
        (if w₂.session.rekeyActive then pure false else closeIfReady env).Ensures w₂
          (fun _ w' => OurPhase w'.session.rekey.phase) fun _ _ => True := by
      intro w₂ h₂
      split
      next => exact h₂
      next =>
        exact closeIfReady_ensures.mono (fun _ w' hcloses => h₂.congr hcloses.phase_eq)
          fun _ _ _ => trivial
    simp only [rekeyIfDue, ensures_bind, askDriver_ensures, ensures_look]
    split
    next =>
      simp only [onSession, ensures_zoom]
      exact (beginRekey_ours hrandom).mono (fun _ s hs => hclose ⟨s, _⟩ hs) fun _ _ _ => trivial
    next => exact hclose _ hcredited

theorem onPacket_ours (h : OurPhase w.session.rekey.phase) :
    (onPacket env p).Ensures w (fun _ w' => OurPhase w'.session.rekey.phase) fun _ _ => True := by
  have hinbound : ∀ w₁ : World, OurPhase w₁.session.rekey.phase →
      (handleInbound env p).Ensures w₁ (fun _ w' => OurPhase w'.session.rekey.phase)
        fun _ _ => True :=
    fun w₁ h₁ => handleInbound_ensures.mono (fun _ w' hreacts => h₁.congr hreacts.phase_eq)
      fun _ _ _ => trivial
  have hstep := stepRekey_ours (p := p) (s := (w.arrived p).session) hrandom h
  simp only [onPacket, ensures_bind, ensures_update, note_ensures, ensures_look]
  split
  next =>
    simp only [ensures_bind, onSession, ensures_zoom]
    refine hstep.mono (fun step s hs => ?_) fun _ _ _ => trivial
    cases step with
    | continued => exact hs
    | completed =>
      simp only [drainDeferred, ensures_bind, ensures_look, updateDriver_ensures]
      exact handleAll_ensures.mono (fun _ w' hreacts => OurPhase.congr hs hreacts.phase_eq)
        fun _ _ _ => trivial
    | passToChannel =>
      simp only [passToChannel]
      split
      next => exact hinbound _ hs
      next =>
        simp only [ensures_bind, ensures_look]
        split
        next => exact refuse_ensures fun _ _ _ => trivial
        next => exact hs
  next =>
    split
    next =>
      simp only [ensures_bind, onSession, ensures_zoom]
      exact hstep.mono (fun step s hs => hs) fun _ _ _ => trivial
    next => exact hinbound _ h

/-- Every step keeps to our KEXINITs. -/
theorem step_ours {c c' : Config} {input : Input} (hstep : c.step env input = some c')
    (h : OurPhase c.world.session.rekey.phase) (hlive : c'.live) :
    OurPhase c'.world.session.rekey.phase := by
  obtain ⟨w, pc⟩ := c
  have hruns : ∀ {α : Type} {prog : DriverProg α} {next : α → World → Config},
      prog.Ensures w (fun _ w' => OurPhase w'.session.rekey.phase) (fun _ _ => True) →
      (∀ a w', (next a w').world = w') → resume prog w next = c' →
      OurPhase c'.world.session.rekey.phase := by
    rintro α prog next hprog hnext rfl
    refine @resume_cases w α prog next _ _ hprog
      (fun c => c.live → OurPhase c.world.session.rekey.phase) (fun a w' hw' _ => ?_)
      (fun e w' _ hl => absurd rfl (hl _)) hlive
    rw [hnext]
    exact hw'
  have hsame : ∀ {α : Type} {prog : DriverProg α} {err : TransportError → World → Prop},
      prog.Ensures w (fun _ w' => w'.session.rekey.phase = w.session.rekey.phase) err →
      prog.Ensures w (fun _ w' => OurPhase w'.session.rekey.phase) fun _ _ => True :=
    fun hprog => hprog.mono (fun _ _ hphase => OurPhase.congr h hphase) fun _ _ _ => trivial
  cases input with
  | phase =>
    cases pc with
    | flush =>
      refine hruns (hsame (flushPhase_ensures.mono (fun _ w' hw' => ?_) fun _ _ h => h))
        (fun _ _ => rfl) (Option.some.inj hstep)
      obtain ⟨-, hrun⟩ | ⟨-, rfl⟩ := hw'
      · exact (FlushOnes.stance hrun).phase
      · rfl
    | handoff =>
      exact hruns (hsame (handoffStdin_ensures.mono (fun _ w' hoff => hoff.stance.phase)
        fun _ _ h => h)) (fun _ _ => rfl) (Option.some.inj hstep)
    | settle => exact hruns (settlePhase_ours hrandom h) (fun _ _ => rfl) (Option.some.inj hstep)
    | waiting | done => cases hstep
  | event event =>
    cases pc with
    | waiting =>
      simp only [Config.step, Option.ite_none_right_eq_some, Option.some.injEq] at hstep
      obtain ⟨henabled, hresume⟩ := hstep
      refine hruns ?_ (fun _ _ => rfl) hresume
      cases event with
      | packet p => exact onPacket_ours hrandom h
      | readFailed error => exact trivial
      | output chunk =>
        exact hsame ((onOutput_ensures henabled).mono (fun _ _ h => h.phase_eq) fun _ _ h => h)
      | credit =>
        exact hsame ((onCredit_ensures henabled).mono (fun _ _ h => h.phase_eq) fun _ _ h => h)
      | deadline =>
        simp only [onEvent, onSession, ensures_zoom]
        exact disconnect_ensures fun _ _ => trivial
      | wake => exact h
    | flush | handoff | settle | done => cases hstep
  | pump step =>
    cases pc with
    | done => cases hstep
    | flush | handoff | settle | waiting =>
      simp only [Config.step, Option.map_eq_some_iff] at hstep
      obtain ⟨child, -, rfl⟩ := hstep
      exact h

end

end QuantumSsh.Channel
