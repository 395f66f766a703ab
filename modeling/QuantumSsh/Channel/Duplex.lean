import QuantumSsh.Channel.Course

/-!
# Half-duplex re-keys

Between its KEXINIT and its NEWKEYS the server sends only what belongs to the
key exchange, and nothing at all until the peer's NEWKEYS is accepted. A monitor
reads the log and says where the server stands; the phase of the re-key agrees
with it in every state.
-/

namespace QuantumSsh.Channel

open Wire Kex Machine Program Transport

/-! ### The monitor -/

/-- Where the log stands: outside a re-key, between our KEXINIT and our NEWKEYS,
between our NEWKEYS and the peer's, or after a DISCONNECT. -/
inductive Mode where
  | outside
  | exchanging
  | switched
  | ended
deriving Repr, DecidableEq

/-- A message that neither belongs to a key exchange nor ends the connection. -/
def isOrdinary (q : Bytes) : Bool :=
  q.head? ≠ some Kex.sshMsgDisconnect && q.head? ≠ some sshMsgKexinit &&
    q.head? ≠ some sshMsgNewkeys && q.head? ≠ some sshMsgKexHybridReply

/-- What may be sealed. -/
def Mode.seals : Mode → Bytes → Option Mode
  | .outside, q =>
    if q.head? = some Kex.sshMsgDisconnect then some .ended
    else if q.head? = some sshMsgKexinit then some .exchanging
    else if isOrdinary q then some .outside
    else none
  | .exchanging, q =>
    if q.head? = some Kex.sshMsgDisconnect then some .ended
    else if q.head? = some sshMsgKexHybridReply then some .exchanging
    else if q.head? = some sshMsgNewkeys then some .switched
    else none
  | .switched, q => if q.head? = some Kex.sshMsgDisconnect then some .ended else none
  | .ended, _ => none

/-- What may happen. -/
def Mode.next (m : Mode) : Obs → Option Mode
  | .sealed frame => m.seals frame.payload
  | .handled p =>
    if m = .outside ∨ m = .exchanging ∧ isInline p = true then some m else none
  | .rekeyed => if m = .switched then some .outside else none
  | _ => some m

/-- The monitor's verdict on a log. -/
def watch (log : List Obs) : Option Mode := run Mode.next .outside log

/-- The mode that goes with a phase. -/
def modeOf : RekeyPhase → Mode
  | .idle => .outside
  | .sentKexInit _ => .exchanging
  | .awaitHybridInit _ _ _ _ => .exchanging
  | .awaitNewKeys _ => .switched

theorem watch_append {log es : List Obs} {m : Mode} (h : watch log = some m) :
    watch (log ++ es) = run Mode.next m es := by
  rw [watch, run_append, ← watch, h]
  rfl

/-- The entries that are about neither packets nor keys. -/
def isNeutral : Obs → Bool
  | .sealed _ | .received _ | .handled _ | .rekeyed => false
  | _ => true

theorem run_neutral {es : List Obs} (h : ∀ e ∈ es, isNeutral e = true) (m : Mode) :
    run Mode.next m es = some m := by
  induction es with
  | nil => rfl
  | cons e es ih =>
    have he : m.next e = some m := by
      have := h e List.mem_cons_self
      cases e <;> first | rfl | cases this
    rw [run, he, Option.bind_some]
    exact ih fun e he => h e (List.mem_cons_of_mem _ he)

theorem run_handled {p : Bytes} {es : List Obs} {m : Mode}
    (h : m = .outside ∨ m = .exchanging ∧ isInline p = true) :
    run Mode.next m (.handled p :: es) = run Mode.next m es := by
  rw [run, Mode.next, if_pos h]
  rfl

theorem run_sealed {f : Frame} {es : List Obs} {m m' : Mode} (h : m.seals f.payload = some m') :
    run Mode.next m (.sealed f :: es) = run Mode.next m' es := by
  rw [run, Mode.next, h]
  rfl

theorem seals_outside {q : Bytes} (h : isOrdinary q = true) :
    Mode.seals .outside q = some .outside := by
  have hq := h
  simp only [isOrdinary, Bool.and_eq_true, decide_eq_true_eq] at hq
  rw [Mode.seals, if_neg hq.1.1.1, if_neg hq.1.1.2, if_pos h]

theorem seals_kexinit (cookie : Bytes) :
    Mode.seals .outside (buildRekeyKexinit cookie) = some .exchanging := by
  have hq : (buildRekeyKexinit cookie).head? = some sshMsgKexinit := rfl
  rw [Mode.seals, hq, if_neg (by decide), if_pos rfl]

theorem seals_disconnect {q : Bytes} (h : IsDisconnect q) {m : Mode} (hm : m ≠ .ended) :
    m.seals q = some .ended := by
  have hq : q.head? = some Kex.sshMsgDisconnect := h
  cases m with
  | ended => exact absurd rfl hm
  | outside | exchanging | switched => simp [Mode.seals, hq]

theorem modeOf_ne_ended (phase : RekeyPhase) : modeOf phase ≠ .ended := by
  cases phase <;> simp [modeOf]

/-! ### What a turn writes to the log -/

variable {env : Env} {w w' : World}

/-- A reply of `handle_inbound` to the message. -/
inductive RepliesTo (w : World) (p : Bytes) : Bytes → Prop
  | answer {q : Bytes} (h : Answers w p q) : RepliesTo w p q
  | confirmation (sender : ℕ) (hmsg : p.head? = some sshMsgChannelOpen)
      (hstate : w.driver.state = .beforeOpen) : RepliesTo w p (buildOpenConfirmation sender)

/-- The entries of a message handled: its own, what it starts or brings, its reply. -/
theorem Reacts.log_eq {p : Bytes} (h : Reacts p w w') :
    ∃ es, (∀ e ∈ es, isNeutral e = true ∧ ∀ kind data, e ≠ .output kind data) ∧
      (asks p = false ∧ w'.session.log = w.session.log ++ .handled p :: es ∨ ∃ q, RepliesTo w p q ∧
        w'.session.log = w.session.log ++ .handled p :: (es ++ [.sealed (w.session.frame q)])) := by
  cases h with
  | silent tick hquiet hasks => exact ⟨[], by simp, .inl ⟨hasks, rfl⟩⟩
  | answered q tick bytesTx ha =>
    exact ⟨[], by simp, .inr ⟨q, .answer ha, by simp [World.sent, Session.sent, World.observe,
      Session.observe, Session.frame]⟩⟩
  | ptyGranted term tick hstate hmsg hasks => exact ⟨[], by simp, .inl ⟨hasks, rfl⟩⟩
  | ptyAnswered term q tick bytesTx ha hmsg hstate =>
    exact ⟨[], by simp, .inr ⟨q, .answer ha, by simp [World.sent, Session.sent, World.observe,
      Session.observe, Session.frame, World.mapDriver]⟩⟩
  | opened sender window maxPkt tick bytesTx hmsg hstate hmax hwindow =>
    exact ⟨[], by simp, .inr ⟨_, .confirmation sender hmsg hstate, by simp [World.sent,
      Session.sent, World.observe, Session.observe, Session.frame, World.mapDriver]⟩⟩
  | started what d tick hstate hd hmsg hasks =>
    exact ⟨[.execStarted], by simp [isNeutral], .inl ⟨hasks, by simp [World.observe,
      Session.observe, World.atTick]⟩⟩
  | startedAnswered what d tick₁ tick bytesTx hstate hd ha =>
    exact ⟨[.execStarted], by simp [isNeutral], .inr ⟨_, .answer ha, by simp [World.sent,
      Session.sent, World.observe, Session.observe, Session.frame, World.atTick]⟩⟩
  | buffered data hmsg hstate heof hwindow hlen hread =>
    exact ⟨[.accepted data], by simp [isNeutral], .inl ⟨not_asks hmsg (by decide), by simp
      [World.observe, Session.observe, World.mapDriver]⟩⟩
  | stashed data child hmsg hstate heof hchild hwindow hlen hread =>
    exact ⟨[.accepted data], by simp [isNeutral], .inl ⟨not_asks hmsg (by decide), by simp
      [World.observe, Session.observe, World.mapDriver]⟩⟩
  | unsunk data hmsg hstate heof hchild hwindow hlen hread =>
    exact ⟨[.accepted data], by simp [isNeutral], .inl ⟨not_asks hmsg (by decide), by simp
      [World.observe, Session.observe, World.mapDriver]⟩⟩
  | adjusted add hmsg hstate hadd => exact ⟨[], by simp, .inl ⟨not_asks hmsg (by decide), rfl⟩⟩
  | eof hmsg hstate => exact ⟨[], by simp, .inl ⟨not_asks hmsg (by decide), rfl⟩⟩
  | closed hmsg hstate => exact ⟨[], by simp, .inl ⟨not_asks hmsg (by decide), rfl⟩⟩
  | closedEarly hmsg hstate => exact ⟨[], by simp, .inl ⟨not_asks hmsg (by decide), rfl⟩⟩

theorem RepliesTo.ordinary {p q : Bytes} (h : RepliesTo w p q) : isOrdinary q = true := by
  cases h with
  | answer ha =>
    cases ha with
    | globalRequest hmsg => rfl
    | channelOpen sender code desc hmsg => rfl
    | channelRequest msg hmsg hwants hstate hreply => obtain rfl | rfl := hreply <;> rfl
  | confirmation sender hmsg hstate => rfl

/-- The messages that can be answered. -/
def isAnswerable (p : Bytes) : Bool :=
  p.head? = some sshMsgGlobalRequest || p.head? = some sshMsgChannelOpen ||
    p.head? = some sshMsgChannelRequest

theorem RepliesTo.answerable {p q : Bytes} (h : RepliesTo w p q) : isAnswerable p = true := by
  cases h with
  | answer ha =>
    cases ha with
    | globalRequest hmsg => simp [isAnswerable, hmsg]
    | channelOpen sender code desc hmsg => simp [isAnswerable, hmsg]
    | channelRequest msg hmsg hwants hstate hreply => simp [isAnswerable, hmsg]
  | confirmation sender hmsg hstate => simp [isAnswerable, hmsg]

theorem not_inline_of_answerable {p : Bytes} (h : isAnswerable p = true) : isInline p = false := by
  simp only [isAnswerable, Bool.or_eq_true, decide_eq_true_eq] at h
  obtain (h | h) | h := h <;> simp [isInline, h] <;> decide

/-! ### The phase agrees with the monitor -/

/-- The monitor and the phase of the re-key agree. -/
def Watched (w : World) : Prop := watch w.session.log = some (modeOf w.session.rekey.phase)

theorem Watched.outside (h : Watched w) (hidle : w.session.rekey.phase = .idle) :
    watch w.session.log = some .outside := by
  rw [Watched, hidle] at h
  exact h

theorem watched_of_outside (h : watch w.session.log = some .outside)
    (hidle : w.session.rekey.phase = .idle) : Watched w := by
  rw [Watched, hidle]
  exact h

/-- Neutral entries change nothing. -/
theorem watch_neutral {log log' : List Obs} {m : Mode} (h : watch log = some m) (es : List Obs)
    (hlog : log' = log ++ es) (hes : ∀ e ∈ es, isNeutral e = true) : watch log' = some m := by
  rw [hlog, watch_append h]
  exact run_neutral hes m

theorem watch_sealed {log log' : List Obs} {m m' : Mode} {f : Frame} (h : watch log = some m)
    (hlog : log' = log ++ [.sealed f]) (hf : m.seals f.payload = some m') :
    watch log' = some m' := by
  rw [hlog, watch_append h, run_sealed hf]
  rfl

theorem watch_sent {q : Bytes} {m m' : Mode} (h : watch w.session.log = some m)
    (hq : m.seals q = some m') (tick bytesTx : ℕ) :
    watch (w.sent tick bytesTx q).session.log = some m' :=
  watch_sealed h rfl hq

theorem watch_left {P : Bytes → Prop} {m : Mode} (h : watch w.session.log = some m)
    (hleft : w.Left P w') (hP : ∀ q, P q → ∃ m', m.seals q = some m') :
    ∃ m', watch w'.session.log = some m' := by
  obtain hlog | ⟨q, hq, hlog⟩ := hleft
  · exact ⟨m, by rw [hlog]; exact h⟩
  · obtain ⟨m', hm'⟩ := hP q hq
    exact ⟨m', watch_sealed h hlog hm'⟩

theorem isOrdinary_dataFrame (w : World) (p : PendingOut) (n : ℕ) :
    isOrdinary (w.dataFrame p n) = true := by
  unfold World.dataFrame buildDataFrame
  cases p.kind <;> rfl

theorem watch_flushes (h : watch w.session.log = some .outside)
    (hrun : Relation.ReflTransGen FlushOne w w') : watch w'.session.log = some .outside := by
  induction hrun with
  | refl => exact h
  | tail _ hone ih =>
    cases hone with
    | packet p n tick bytesTx hflush =>
      exact watch_sent ih (seals_outside (isOrdinary_dataFrame _ p n)) tick bytesTx

theorem HandsOff.log_eq (h : HandsOff w w') :
    ∃ es, w'.session.log = w.session.log ++ es ∧ ∀ e ∈ es, isNeutral e = true := by
  have hfeeds : ∀ {w₁ : World}, Feeds w w₁ →
      ∃ es, w₁.session.log = w.session.log ++ es ∧ ∀ e ∈ es, isNeutral e = true := by
    intro w₁ h
    cases h with
    | queued child chunk preExec => exact ⟨[.queued chunk], rfl, by simp [isNeutral]⟩
    | childless | empty | returned | dropped => exact ⟨[], by simp [World.mapDriver], by simp⟩
  cases h with
  | fed h => exact hfeeds h
  | closed h h' =>
    obtain ⟨es, hlog, hes⟩ := hfeeds h
    cases h' with
    | closed child hchild heof hnext hopen =>
      refine ⟨es ++ [.stdinEof], ?_, fun e he => ?_⟩
      · simp [World.observe, Session.observe, World.mapDriver, hlog]
      · obtain he | he := List.mem_append.1 he
        · exact hes e he
        · rw [List.mem_singleton.1 he]
          rfl

theorem Occurs.log_eq {event : Event} (h : Occurs event w w') :
    ∃ es, w'.session.log = w.session.log ++ es ∧ ∀ e ∈ es, isNeutral e = true := by
  cases h with
  | chunk kind data => exact ⟨[.output kind data.1], rfl, by simp [isNeutral]⟩
  | credit child n rest => exact ⟨[.credited n], rfl, by simp [isNeutral]⟩
  | unsent | exited | ended | creditsEnded | woken =>
    exact ⟨[], by simp [World.mapDriver], by simp⟩

theorem watch_credits (h : watch w.session.log = some .outside) (hcredits : Credits w w') :
    watch w'.session.log = some .outside := by
  cases hcredits with
  | below hlt => exact h
  | returned tick bytesTx hbatch => exact watch_sent h (seals_outside rfl) tick bytesTx

theorem watch_credits_atTick (h : watch w.session.log = some .outside) (hcredits : Credits w w')
    (tick : ℕ) : watch (w'.atTick tick).session.log = some .outside := by
  have hcredited := watch_credits h hcredits
  exact hcredited

theorem watch_sentAll {qs : List Bytes} (h : watch w.session.log = some .outside)
    (hsent : SentAll qs w w') (hqs : ∀ q ∈ qs, isOrdinary q = true) :
    watch w'.session.log = some .outside := by
  induction hsent with
  | nil => exact h
  | cons tick bytesTx hsent ih =>
    refine ih (watch_sent h (seals_outside ?_) tick bytesTx) fun q hq => ?_
    · exact hqs _ List.mem_cons_self
    · exact hqs q (List.mem_cons_of_mem _ hq)

theorem isOrdinary_terminal {d : Driver} {q : Bytes} (hq : q ∈ d.terminal) :
    isOrdinary q = true := by
  unfold Driver.terminal at hq
  split at hq
  · rw [List.mem_singleton.1 hq]
    rfl
  · obtain hq | hq := List.mem_append.1 hq
    · have hreport := Option.mem_toList.1 hq
      unfold Driver.exitReport at hreport
      split at hreport <;> cases hreport <;> rfl
    · obtain rfl | rfl : q = buildEof d.peerChan ∨ q = buildClose d.peerChan := by simpa using hq
      · rfl
      · rfl

/-- A message handled where the monitor lets it. -/
theorem watch_reacts {p : Bytes} {m : Mode} (h : watch w.session.log = some m)
    (hm : m = .outside ∨ m = .exchanging ∧ isInline p = true) (hreacts : Reacts p w w') :
    watch w'.session.log = some m := by
  obtain ⟨es, hown, ⟨-, hlog⟩ | ⟨q, hq, hlog⟩⟩ := hreacts.log_eq <;>
    have hes := fun e he => (hown e he).1
  · rw [hlog, watch_append h, run_handled hm]
    exact run_neutral hes m
  · obtain rfl | ⟨rfl, hinline⟩ := hm
    · rw [hlog, watch_append h, run_handled (.inl rfl), run_append, run_neutral hes,
        Option.bind_some, run_sealed (seals_outside hq.ordinary)]
      rfl
    · rw [not_inline_of_answerable hq.answerable] at hinline
      cases hinline

theorem watch_reactsAll {ps : List Bytes} (h : watch w.session.log = some .outside)
    (hreacts : ReactsAll ps w w') : watch w'.session.log = some .outside := by
  induction hreacts with
  | nil => exact h
  | cons hone _ ih => exact ih (watch_reacts h (.inl rfl) hone)

/-- The re-key machine moves with the monitor. -/
theorem watch_rekeys {p : Bytes} {step : RekeyStep} {s s' : Session}
    (h : watch s.log = some (modeOf s.rekey.phase)) (hrekeys : Rekeys env p s step s') :
    watch s'.log = some (modeOf s'.rekey.phase) := by
  cases hrekeys with
  | opened cookie n tick bytesTx started hphase hmsg hn =>
    rw [hphase] at h
    exact watch_sealed h rfl (seals_kexinit cookie)
  | answered iS n tick hphase hmsg hn =>
    rw [hphase] at h
    exact h
  | passed iS hphase hmsg => exact h
  | skipped iC iS n hphase =>
    rw [hphase] at h
    exact h
  | replied iC iS n tick₁ tick bytesTx₁ bytesTx r hphase hmsg =>
    rw [hphase] at h
    have hreply : watch (s.sent tick₁ bytesTx₁ r.payload).log = some .exchanging :=
      watch_sealed h rfl rfl
    exact watch_sealed hreply rfl rfl
  | completed newRx tick now hphase hmsg =>
    rw [hphase] at h
    have hlog : watch (s.log ++ [.rekeyed]) = some .outside := by
      rw [watch_append h]
      rfl
    exact hlog

theorem Watched.arrived (h : Watched w) (p : Bytes) : Watched (w.arrived p) := by
  change watch (w.session.log ++ [.received p]) = _
  rw [watch_append h]
  rfl

theorem Watched.takesPacket (h : Watched w) {p : Bytes} (htakes : TakesPacket env p w w') :
    Watched w' := by
  have harrived := h.arrived p
  cases htakes with
  | handled hwhen hreacts =>
    rw [Watched, hreacts.phase_eq]
    refine watch_reacts harrived ?_ hreacts
    cases hwhen with
    | idle hphase hmsg => exact .inl (congrArg modeOf hphase)
    | inline iS hphase hinline => exact .inr ⟨congrArg modeOf hphase, hinline⟩
  | deferred iS hphase hmsg hinline hroom => exact harrived
  | rekeying hrekeys => exact watch_rekeys harrived hrekeys
  | rekeyed hrekeys hdrained =>
    have hdone := watch_rekeys harrived hrekeys
    cases hrekeys with
    | completed newRx tick now hphase hmsg =>
      exact watched_of_outside (watch_reactsAll hdone hdrained) hdrained.phase_eq

theorem Watched.settles (h : Watched w) (hsettles : Settles w false w') : Watched w' := by
  cases hsettles with
  | busy hactive => exact h
  | rekeyed cookie tick bytesTx started trigger hidle hcredits hstate =>
    exact watch_sealed (watch_credits (h.outside hidle) hcredits) rfl (seals_kexinit cookie)
  | @closes w₁ _ _ tick now hidle hcredits hdue hcloses =>
    have hcredited : watch (w₁.atTick tick).session.log = some .outside :=
      watch_credits_atTick (h.outside hidle) hcredits tick
    have hphase : w₁.session.rekey.phase = .idle := hcredits.stance.phase.trans hidle
    cases hcloses with
    | waiting hready hstate => exact watched_of_outside hcredited hphase
    | half hready hearly hsent =>
      have hsent' := watch_sentAll hcredited hsent fun q hq => isOrdinary_terminal hq
      exact watched_of_outside hsent' (hsent.phase_eq.trans hphase)

/-! ### The last words of a connection -/

/-- The monitor still follows. -/
def Follows (log : List Obs) : Prop := ∃ m, watch log = some m

theorem Watched.follows (h : Watched w) : Follows w.session.log := ⟨_, h⟩

theorem follows_emitFinished (h : Follows w.session.log) :
    Follows w.emitFinished.session.log := by
  unfold World.emitFinished
  split
  · obtain ⟨m, hm⟩ := h
    exact ⟨m, watch_neutral hm [_] rfl (by simp [isNeutral])⟩
  · exact h

theorem Watched.disconnects (h : Watched w) (hleft : w.Left IsDisconnect w') :
    Follows w'.session.log :=
  watch_left h hleft fun _ hq => ⟨.ended, seals_disconnect hq (modeOf_ne_ended _)⟩

theorem follows_flushFails (h : watch w.session.log = some .outside) (hfails : FlushFails w w') :
    Follows w'.session.log := by
  obtain ⟨w₁, p, n, hrun, hflush, hleft⟩ := hfails
  refine watch_left (watch_flushes h hrun) hleft ?_
  rintro q rfl
  exact ⟨_, seals_outside (isOrdinary_dataFrame w₁ p n)⟩

theorem Watched.settleFails (h : Watched w) (hfails : SettleFails w w') :
    Follows w'.session.log := by
  cases hfails with
  | credit hidle hbatch hleft =>
    refine watch_left (h.outside hidle) hleft ?_
    rintro q rfl
    exact ⟨_, seals_outside rfl⟩
  | rekey w₁ cookie hidle hcredits hstate hleft =>
    refine watch_left (watch_credits (h.outside hidle) hcredits) hleft ?_
    rintro q rfl
    exact ⟨.exchanging, seals_kexinit cookie⟩
  | terminal w₁ tick now hidle hcredits hdue hready hfails =>
    obtain ⟨pre, q, post, w₂, hterminal, hsent, hleft⟩ := hfails
    have hcredited : watch (w₁.atTick tick).session.log = some .outside :=
      watch_credits_atTick (h.outside hidle) hcredits tick
    have hmem : ∀ q' ∈ pre ++ q :: post, isOrdinary q' = true := by
      rw [← hterminal]
      exact fun q' hq' => isOrdinary_terminal hq'
    have hpre := watch_sentAll hcredited hsent fun q' hq' =>
      hmem q' (List.mem_append_left _ hq')
    refine watch_left hpre hleft ?_
    rintro q' rfl
    exact ⟨_, seals_outside (hmem q' (by simp))⟩

theorem follows_reactFails {p : Bytes} {m : Mode} (h : watch w.session.log = some m)
    (hm : m = .outside ∨ m = .exchanging ∧ isInline p = true) (hfails : ReactFails p w w') :
    Follows w'.session.log := by
  have hhandled : watch (w.observe (.handled p)).session.log = some m := by
    have hlog : (w.observe (.handled p)).session.log = w.session.log ++ [.handled p] := rfl
    rw [hlog, watch_append h, run_handled hm]
    rfl
  have hanswer : ∀ q, RepliesTo w p q → ∃ m', m.seals q = some m' := by
    intro q hq
    obtain rfl | ⟨rfl, hinline⟩ := hm
    · exact ⟨_, seals_outside hq.ordinary⟩
    · rw [not_inline_of_answerable hq.answerable] at hinline
      cases hinline
  have hword : ∀ q, LastWord w p q → ∃ m', m.seals q = some m' := by
    intro q hq
    cases hq with
    | disconnect hq =>
      refine ⟨.ended, seals_disconnect hq ?_⟩
      obtain rfl | ⟨rfl, -⟩ := hm <;> simp
    | answer ha => exact hanswer q (.answer ha)
    | confirmation sender hmsg hstate => exact hanswer _ (.confirmation sender hmsg hstate)
  cases hfails with
  | handled hleft => exact watch_left hhandled hleft hword
  | started hstate hleft =>
    have hstarted : watch ((w.observe (.handled p)).observe .execStarted).session.log = some m :=
      watch_neutral hhandled [.execStarted] rfl (by simp [isNeutral])
    exact watch_left hstarted hleft hword

theorem Watched.rekeyFails (h : Watched w) {p : Bytes}
    (hfails : RekeyFails p w.session w'.session) : Follows w'.session.log := by
  cases hfails with
  | refused hleft => exact h.disconnects hleft
  | opening cookie hphase hmsg hleft =>
    refine watch_left (h.outside hphase) hleft ?_
    rintro q rfl
    exact ⟨.exchanging, seals_kexinit cookie⟩
  | openedRefused cookie tick bytesTx hphase hmsg hleft =>
    have hsent := watch_sent (h.outside hphase) (seals_kexinit cookie) tick bytesTx
    exact watch_left hsent hleft fun q hq => ⟨.ended, seals_disconnect hq (by simp)⟩
  | replying q iC iS n hphase hq hleft =>
    have hmode : watch w.session.log = some .exchanging := by
      rw [Watched, hphase] at h
      exact h
    refine watch_left hmode hleft ?_
    rintro q' rfl
    exact ⟨.exchanging, by simp [Mode.seals, hq, Kex.sshMsgDisconnect, sshMsgKexHybridReply]⟩
  | finishing q iC iS n tick bytesTx hphase hq hleft =>
    have hmode : watch w.session.log = some .exchanging := by
      rw [Watched, hphase] at h
      exact h
    have hsent := @watch_sent w q .exchanging .exchanging hmode
      (by simp [Mode.seals, hq, Kex.sshMsgDisconnect, sshMsgKexHybridReply]) tick bytesTx
    refine watch_left hsent hleft ?_
    rintro q' rfl
    exact ⟨.switched, rfl⟩

theorem Watched.packetFails (h : Watched w) {p : Bytes} (hfails : PacketFails env p w w') :
    Follows w'.session.log := by
  have harrived := h.arrived p
  cases hfails with
  | handled hwhen hfails =>
    refine follows_reactFails harrived ?_ hfails
    cases hwhen with
    | idle hphase hmsg => exact .inl (congrArg modeOf hphase)
    | inline iS hphase hinline => exact .inr ⟨congrArg modeOf hphase, hinline⟩
  | overflow hleft => exact harrived.disconnects hleft
  | rekeying hfails => exact harrived.rekeyFails hfails
  | draining hrekeys hfails =>
    obtain ⟨pre, q, post, w₁, hdeferred, hreacts, hfails⟩ := hfails
    have hdone := watch_rekeys harrived hrekeys
    cases hrekeys with
    | completed newRx tick now hphase hmsg =>
      exact follows_reactFails (watch_reactsAll hdone hreacts) (.inl rfl) hfails

theorem Watched.finishes (h : Watched w) (hsettles : Settles w true w') :
    Follows w'.session.log := by
  cases hsettles with
  | @closes w₁ _ _ tick now hidle hcredits hdue hcloses =>
    have hcredited : watch (w₁.atTick tick).session.log = some .outside :=
      watch_credits_atTick (h.outside hidle) hcredits tick
    cases hcloses with
    | finished hready hstate => exact follows_emitFinished ⟨_, hcredited⟩
    | early hready hearly hsent =>
      have hsent' := watch_sentAll hcredited hsent fun q hq => isOrdinary_terminal hq
      exact follows_emitFinished ⟨_, hsent'⟩

/-! ### Whole runs -/

/-- The monitor follows, and agrees with the phase while `drive` goes on. -/
structure Monitored (c : Config) : Prop where
  follows : Follows c.world.session.log
  watched : c.live → Watched c.world

theorem Watched.turn {c c' : Config} {input : Input} (hturn : Turn env c input c')
    (h : Monitored c) (hlive : c'.live) : Watched c'.world := by
  cases hturn with
  | flushed hidle hrun =>
    have hw := (h.watched (by simp [Config.live])).outside hidle
    exact watched_of_outside (watch_flushes hw hrun) ((FlushOnes.stance hrun).phase.trans hidle)
  | unflushed hactive => exact h.watched (by simp [Config.live])
  | handedOff hoff =>
    obtain ⟨es, hlog, hes⟩ := hoff.log_eq
    rw [Watched, hoff.stance.phase]
    exact watch_neutral (h.watched (by simp [Config.live])) es hlog hes
  | settled hsettles =>
    rename_i finished
    cases finished with
    | true => exact absurd rfl (hlive _)
    | false => exact (h.watched (by simp [Config.live])).settles hsettles
  | packet p htakes => exact (h.watched (by simp [Config.live])).takesPacket htakes
  | occurred event hoccurs =>
    obtain ⟨es, hlog, hes⟩ := hoccurs.log_eq
    rw [Watched, hoccurs.phase_eq]
    exact watch_neutral (h.watched (by simp [Config.live])) es hlog hes
  | pumped child child' step hpc hchild hpump => exact h.watched hpc
  | flushFailed e hidle hfails => exact absurd rfl (hlive _)
  | settleFailed e hfails => exact absurd rfl (hlive _)
  | packetFailed p e hfails => exact absurd rfl (hlive _)
  | readFailed error => exact absurd rfl (hlive _)
  | timedOut hactive hleft => exact absurd rfl (hlive _)

theorem Monitored.last {c c' : Config} {input : Input} (hturn : Turn env c input c')
    (h : Monitored c) (hdone : ¬c'.live) : Follows c'.world.session.log := by
  cases hturn with
  | flushFailed e hidle hfails =>
    have hw := (h.watched (by simp [Config.live])).outside hidle
    exact follows_emitFinished (follows_flushFails hw hfails)
  | settled hsettles =>
    rename_i finished
    cases finished with
    | true => exact (h.watched (by simp [Config.live])).finishes hsettles
    | false => exact absurd (by simp [Config.live]) hdone
  | settleFailed e hfails =>
    exact follows_emitFinished ((h.watched (by simp [Config.live])).settleFails hfails)
  | packetFailed p e hfails =>
    exact follows_emitFinished ((h.watched (by simp [Config.live])).packetFails hfails)
  | readFailed error => exact follows_emitFinished h.follows
  | timedOut hactive hleft =>
    exact follows_emitFinished ((h.watched (by simp [Config.live])).disconnects hleft)
  | flushed | unflushed | handedOff | packet | occurred => exact absurd (by simp [Config.live]) hdone
  | pumped child child' step hpc hchild hpump => exact absurd hpc hdone

theorem Monitored.turn {c c' : Config} {input : Input} (h : Monitored c)
    (hturn : Turn env c input c') : Monitored c' := by
  have hlive := fun hl => Watched.turn hturn h hl
  refine ⟨?_, hlive⟩
  by_cases hl : c'.live
  · exact (hlive hl).follows
  · exact Monitored.last hturn h hl

theorem monitored_start (h : Handshake) : Monitored (Config.start h) := by
  have hquiet : ∀ fs : List Frame, (∀ f ∈ fs, isOrdinary f.payload = true) →
      run Mode.next .outside (fs.map Obs.sealed) = some .outside := by
    intro fs hfs
    induction fs with
    | nil => rfl
    | cons f fs ih =>
      rw [List.map_cons, run_sealed (seals_outside (hfs f List.mem_cons_self))]
      exact ih fun f hf => hfs f (List.mem_cons_of_mem _ hf)
  have hwatch : Watched (Config.start h).world := by
    refine hquiet h.frames fun f hf => ?_
    obtain ⟨i, payload, hpayload, rfl⟩ : ∃ i payload, payload ∈ h.sent ∧
        f = ⟨0, h.tx, i, payload⟩ := by
      obtain ⟨i, hi, rfl⟩ := List.mem_mapIdx.1 hf
      exact ⟨i, _, List.getElem_mem hi, rfl⟩
    obtain ⟨msg, hmsg, hhead⟩ := h.sent_msg payload hpayload
    have hne : ∀ msg ∈ handshakeMessages, msg ≠ Kex.sshMsgDisconnect ∧ msg ≠ sshMsgKexinit ∧
        msg ≠ sshMsgNewkeys ∧ msg ≠ sshMsgKexHybridReply := by decide
    simp [isOrdinary, hhead, hne msg hmsg]
  exact ⟨hwatch.follows, fun _ => hwatch⟩

/-- The monitor follows every run. -/
theorem follows_of_run {h : Handshake} {inputs : List Input} {c : Config}
    (hrun : Config.runs env h inputs = some c) : Follows c.world.session.log :=
  (invariant_run (fun _ _ _ hinv hstep => Monitored.turn hinv (step_turn hstep))
    (monitored_start h) hrun).follows

/-! ### What the monitor has seen -/

/-- Nothing is sealed after a DISCONNECT. -/
theorem not_sealed_of_ended {es : List Obs} {m : Mode} (h : run Mode.next .ended es = some m)
    (f : Frame) : .sealed f ∉ es := by
  induction es with
  | nil => simp
  | cons e es ih =>
    rw [run] at h
    obtain ⟨m₁, hm₁, h⟩ := Option.bind_eq_some_iff.1 h
    cases e with
    | sealed f => cases hm₁
    | handled p => simp [Mode.next] at hm₁
    | rekeyed => cases hm₁
    | received | accepted | queued | stdinEof | output | credited | execStarted | execFinished =>
      cases hm₁
      simpa using ih h

/-- What an exchange may seal next. -/
theorem seals_exchanging {q : Bytes} {m : Mode} (h : Mode.seals .exchanging q = some m) :
    m = .ended ∧ IsDisconnect q ∨ m = .exchanging ∧ q.head? = some sshMsgKexHybridReply ∨
      m = .switched ∧ q.head? = some sshMsgNewkeys := by
  simp only [Mode.seals] at h
  split at h
  next hq =>
    cases h
    exact .inl ⟨rfl, hq⟩
  next =>
    split at h
    next hq =>
      cases h
      exact .inr (.inl ⟨rfl, hq⟩)
    next =>
      split at h
      next hq =>
        cases h
        exact .inr (.inr ⟨rfl, hq⟩)
      next => cases h

theorem seals_switched {q : Bytes} {m : Mode} (h : Mode.seals .switched q = some m) :
    m = .ended ∧ IsDisconnect q := by
  simp only [Mode.seals] at h
  split at h
  next hq =>
    cases h
    exact ⟨rfl, hq⟩
  next => cases h

/-- Inside a re-key the monitor leaves the exchange by our NEWKEYS or a DISCONNECT,
and lets only messages without a reply be handled. -/
theorem mode_of_entry {e : Obs} {m m' : Mode} (h : m.next e = some m') (hm : m ≠ .outside)
    (he : e ≠ .rekeyed) :
    m' ≠ .outside ∧ (∀ p, e = .handled p → isInline p = true) ∧
      (m' = .exchanging → m = .exchanging ∧
        ∀ g, e = .sealed g → g.payload.head? ≠ some sshMsgNewkeys) := by
  cases e with
  | sealed f =>
    change m.seals f.payload = some m' at h
    cases m with
    | outside => exact absurd rfl hm
    | ended => cases h
    | switched =>
      obtain ⟨rfl, -⟩ := seals_switched h
      simp
    | exchanging =>
      obtain ⟨rfl, -⟩ | ⟨rfl, hq⟩ | ⟨rfl, -⟩ := seals_exchanging h
      · simp
      · refine ⟨by simp, by simp, fun _ => ⟨rfl, ?_⟩⟩
        rintro g ⟨⟩
        simp [hq, sshMsgKexHybridReply, sshMsgNewkeys]
      · simp
  | handled p =>
    simp only [Mode.next] at h
    split at h
    next hwhen =>
      cases h
      obtain rfl | ⟨rfl, hinline⟩ := hwhen
      · exact absurd rfl hm
      · simp [hinline]
    next => cases h
  | rekeyed => exact absurd rfl he
  | received | accepted | queued | stdinEof | output | credited | execStarted | execFinished =>
    cases h
    exact ⟨hm, by simp, fun hm' => ⟨hm', by simp⟩⟩

theorem modes_of_window {es : List Obs} {m₀ m : Mode} (h : run Mode.next m₀ es = some m)
    (hm₀ : m₀ ≠ .outside) (hes : .rekeyed ∉ es) :
    m ≠ .outside ∧ (∀ p, .handled p ∈ es → isInline p = true) ∧
      (m = .exchanging → m₀ = .exchanging ∧
        ∀ g, .sealed g ∈ es → g.payload.head? ≠ some sshMsgNewkeys) := by
  induction es generalizing m₀ with
  | nil =>
    cases h
    exact ⟨hm₀, by simp, fun hm => ⟨hm, by simp⟩⟩
  | cons e es ih =>
    rw [run] at h
    obtain ⟨m₁, hm₁, h⟩ := Option.bind_eq_some_iff.1 h
    have hes' : e ≠ .rekeyed ∧ .rekeyed ∉ es := by
      simpa [eq_comm] using hes
    obtain ⟨hout, hhandled, hex⟩ := mode_of_entry hm₁ hm₀ hes'.1
    obtain ⟨hout', hhandled', hex'⟩ := ih h hout hes'.2
    refine ⟨hout', fun p hp => ?_, fun hm => ?_⟩
    · obtain rfl | hp := List.mem_cons.1 hp
      · exact hhandled p rfl
      · exact hhandled' p hp
    · obtain ⟨hm₁, hnone⟩ := hex' hm
      obtain ⟨hm₀, hnone₀⟩ := hex hm₁
      refine ⟨hm₀, fun g hg => ?_⟩
      obtain rfl | hg := List.mem_cons.1 hg
      · exact hnone₀ g rfl
      · exact hnone g hg

/-- From a KEXINIT of ours to the peer's NEWKEYS: a message is handled only if it
has no reply, and what is sent is the KEX_HYBRID_REPLY or the NEWKEYS, with none
sent after that NEWKEYS, or a DISCONNECT, the last message of the connection. -/
def HalfDuplex (log : List Obs) : Prop :=
  ∀ before kexinit window rest, log = before ++ .sealed kexinit :: (window ++ rest) →
    kexinit.payload.head? = some sshMsgKexinit → .rekeyed ∉ window →
    (∀ p, .handled p ∈ window → isInline p = true) ∧
    ∀ mid g post, window = mid ++ .sealed g :: post →
      IsDisconnect g.payload ∧ (∀ f, .sealed f ∉ post ++ rest) ∨
      (g.payload.head? = some sshMsgKexHybridReply ∨ g.payload.head? = some sshMsgNewkeys) ∧
        ∀ f, .sealed f ∈ mid → f.payload.head? ≠ some sshMsgNewkeys

theorem run_append_some {es es' : List Obs} {m₀ m : Mode}
    (h : run Mode.next m₀ (es ++ es') = some m) :
    ∃ m₁, run Mode.next m₀ es = some m₁ ∧ run Mode.next m₁ es' = some m := by
  rw [run_append] at h
  exact Option.bind_eq_some_iff.1 h

theorem halfDuplex_of_follows {log : List Obs} (h : Follows log) : HalfDuplex log := by
  rintro before kexinit window rest rfl hkexinit hwindow
  obtain ⟨m, hm⟩ := h
  obtain ⟨m₀, -, hm⟩ := run_append_some hm
  rw [run] at hm
  obtain ⟨m₁, hm₁, hm⟩ := Option.bind_eq_some_iff.1 hm
  have hex : m₁ = .exchanging := by
    change m₀.seals kexinit.payload = some m₁ at hm₁
    cases m₀ <;>
      simp_all [Mode.seals, Kex.sshMsgDisconnect, sshMsgKexinit, sshMsgKexHybridReply,
        sshMsgNewkeys]
  subst hex
  obtain ⟨m₂, hm₂, hrest⟩ := run_append_some hm
  refine ⟨(modes_of_window hm₂ (by simp) hwindow).2.1, ?_⟩
  rintro mid g post rfl
  have hmid : .rekeyed ∉ mid := fun he => hwindow (List.mem_append_left _ he)
  obtain ⟨m₃, hm₃, hpost⟩ := run_append_some hm₂
  obtain ⟨hin, -, hnone⟩ := modes_of_window hm₃ (by simp) hmid
  rw [run] at hpost
  obtain ⟨m₄, hm₄, hpost⟩ := Option.bind_eq_some_iff.1 hpost
  have hlast : m₄ = .ended → ∀ f, .sealed f ∉ post ++ rest := by
    rintro rfl
    refine not_sealed_of_ended (m := m) ?_
    rw [run_append, hpost]
    exact hrest
  change m₃.seals g.payload = some m₄ at hm₄
  cases m₃ with
  | outside => exact absurd rfl hin
  | ended => cases hm₄
  | switched =>
    obtain ⟨hover, hg⟩ := seals_switched hm₄
    exact .inl ⟨hg, hlast hover⟩
  | exchanging =>
    obtain ⟨hover, hg⟩ | ⟨-, hg⟩ | ⟨-, hg⟩ := seals_exchanging hm₄
    · exact .inl ⟨hg, hlast hover⟩
    · exact .inr ⟨.inl hg, (hnone rfl).2⟩
    · exact .inr ⟨.inr hg, (hnone rfl).2⟩

end QuantumSsh.Channel
