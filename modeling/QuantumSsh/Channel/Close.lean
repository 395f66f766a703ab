import QuantumSsh.Channel.Course

/-!
# After the server's CLOSE

Once the server has sent CHANNEL_CLOSE it owes the channel silence. Two places do
not look at the channel's state before they write: the reply to a channel request
and the return of credit. Where neither is reached, the silence is kept.
-/

namespace QuantumSsh.Channel

open Wire Kex Machine Program Transport

/-! ### What was sent -/

/-- The payload an entry of the log seals. -/
def sentPayload : Obs → Option Bytes
  | .sealed frame => some frame.payload
  | _ => none

/-- The payloads sealed, in order. -/
def sentPayloads (log : List Obs) : List Bytes := log.filterMap sentPayload

/-- A message to the peer's end of the channel, WINDOW_ADJUST to FAILURE. -/
def isToChannel (q : Bytes) : Bool :=
  q.head?.any fun msg => sshMsgChannelWindowAdjust ≤ msg && msg ≤ sshMsgChannelFailure

def isClose (q : Bytes) : Bool := q.head? = some sshMsgChannelClose

/-- No message to the channel follows a CLOSE. -/
def Silent (qs : List Bytes) : Prop :=
  qs.Pairwise fun q q' => isClose q = true → isToChannel q' = false

instance (qs : List Bytes) : Decidable (Silent qs) :=
  inferInstanceAs (Decidable (qs.Pairwise fun q q' => isClose q = true → isToChannel q' = false))

theorem isToChannel_of_isClose {q : Bytes} (h : isClose q = true) : isToChannel q = true := by
  have hq : q.head? = some sshMsgChannelClose := by simpa [isClose] using h
  simp only [isToChannel, hq, Option.any_some]
  decide

/-- Before a CLOSE everything may be sent. -/
theorem Silent.append_of_open {qs qs' : List Bytes} (h : Silent qs')
    (hqs : ∀ q ∈ qs, isClose q = false) (hsilent : Silent qs) : Silent (qs ++ qs') := by
  refine List.pairwise_append.2 ⟨hsilent, h, fun q hq q' _ hclose => ?_⟩
  rw [hqs q hq] at hclose
  cases hclose

@[simp] theorem sentPayloads_append (log log' : List Obs) :
    sentPayloads (log ++ log') = sentPayloads log ++ sentPayloads log' := List.filterMap_append

/-! ### The state and what was sent -/

/-- The server has sent its CLOSE. -/
def Driver.CloseSent (d : Driver) : Prop := d.state = .serverClosed ∨ d.state = .closed

/-- A CLOSE was sent only when the state says so, and then nothing is deferred. -/
structure Hushed (w : World) : Prop where
  silent : Silent (sentPayloads w.session.log)
  unsent : ¬w.driver.CloseSent → ∀ q ∈ sentPayloads w.session.log, isClose q = false
  parted : w.driver.CloseSent →
    w.driver.deferred = [] ∧ ∀ iS, w.session.rekey.phase ≠ .sentKexInit iS

variable {env : Env} {w w' : World}

/-- The packets `qs` were sent: before the CLOSE none of them a CLOSE, after it none
for the channel. -/
theorem Hushed.sends (h : Hushed w) (qs : List Bytes)
    (hlog : sentPayloads w'.session.log = sentPayloads w.session.log ++ qs)
    (hstate : w'.driver.CloseSent ↔ w.driver.CloseSent) (hqs : ∀ q ∈ qs, isClose q = false)
    (hsent : w.driver.CloseSent → ∀ q ∈ qs, isToChannel q = false)
    (hparted : w.driver.CloseSent →
      w'.driver.deferred = [] ∧ ∀ iS, w'.session.rekey.phase ≠ .sentKexInit iS) : Hushed w' := by
  have hsilent : Silent qs := List.pairwise_of_forall_mem_list fun q hq q' _ hclose => by
    rw [hqs q hq] at hclose
    cases hclose
  refine ⟨?_, fun hopen q hq => ?_, fun hc => hparted (hstate.1 hc)⟩
  · rw [hlog]
    by_cases hc : w.driver.CloseSent
    · exact List.pairwise_append.2 ⟨h.silent, hsilent, fun _ _ q' hq' _ => hsent hc q' hq'⟩
    · exact Silent.append_of_open hsilent (h.unsent hc) h.silent
  · rw [hlog] at hq
    obtain hq | hq := List.mem_append.1 hq
    · exact h.unsent (fun hc => hopen (hstate.2 hc)) q hq
    · exact hqs q hq

theorem SameStance.closeSent_iff (hs : SameStance w w') :
    w'.driver.CloseSent ↔ w.driver.CloseSent := by
  simp only [Driver.CloseSent, hs.state]

theorem Hushed.parted_of_stance (h : Hushed w) (hs : SameStance w w')
    (hc : w.driver.CloseSent) :
    w'.driver.deferred = [] ∧ ∀ iS, w'.session.rekey.phase ≠ .sentKexInit iS := by
  rw [hs.deferred, hs.phase]
  exact h.parted hc

/-- Nothing was sent. -/
theorem Hushed.congr (h : Hushed w)
    (hlog : sentPayloads w'.session.log = sentPayloads w.session.log) (hs : SameStance w w') :
    Hushed w' :=
  h.sends [] (by simpa using hlog) hs.closeSent_iff (by simp) (by simp) (h.parted_of_stance hs)

/-- One packet was sent that is no CLOSE. -/
theorem Hushed.sendsOne (h : Hushed w) {q : Bytes}
    (hlog : sentPayloads w'.session.log = sentPayloads w.session.log ++ [q])
    (hs : SameStance w w') (hq : isClose q = false)
    (hsent : w.driver.CloseSent → isToChannel q = false) : Hushed w' := by
  refine h.sends [q] hlog hs.closeSent_iff ?_ (fun hc => ?_) (h.parted_of_stance hs)
  · simpa using hq
  · simpa using hsent hc

/-- Packets other than CLOSE are free before the CLOSE. -/
theorem Hushed.sendsBefore (h : Hushed w) (qs : List Bytes)
    (hlog : sentPayloads w'.session.log = sentPayloads w.session.log ++ qs)
    (hopen : ¬w.driver.CloseSent) (hopen' : ¬w'.driver.CloseSent)
    (hqs : ∀ q ∈ qs, isClose q = false) : Hushed w' :=
  h.sends qs hlog (iff_of_false hopen' hopen) hqs (fun hc => absurd hc hopen)
    fun hc => absurd hc hopen

theorem sentPayloads_sent (w : World) (tick bytesTx : ℕ) (q : Bytes) :
    sentPayloads (w.sent tick bytesTx q).session.log = sentPayloads w.session.log ++ [q] := by
  simp [World.sent, Session.sent, sentPayloads, sentPayload, Session.frame]

theorem sentPayloads_observe (w : World) (obs : Obs) (h : sentPayload obs = none) :
    sentPayloads (w.observe obs).session.log = sentPayloads w.session.log := by
  simp [World.observe, Session.observe, sentPayloads, h]

theorem sentPayloads_arrived (w : World) (p : Bytes) :
    sentPayloads (w.arrived p).session.log = sentPayloads w.session.log :=
  sentPayloads_observe { w with session := w.session.receive p } _ rfl

theorem sentPayloads_emitFinished (w : World) :
    sentPayloads w.emitFinished.session.log = sentPayloads w.session.log := by
  unfold World.emitFinished
  split
  · exact sentPayloads_observe _ _ rfl
  · rfl

/-! ### The parts of a turn -/

theorem not_closeSent_of_mayEmitOutput {d : Driver} (h : d.state.mayEmitOutput = true) :
    ¬d.CloseSent := by
  rintro (hs | hs) <;> simp [hs, ChannelState.mayEmitOutput] at h

theorem isClose_dataFrame (w : World) (p : PendingOut) (n : ℕ) :
    isClose (w.dataFrame p n) = false := by
  unfold World.dataFrame buildDataFrame
  cases p.kind <;> rfl

theorem Hushed.flushes (h : Hushed w) (hrun : Relation.ReflTransGen FlushOne w w') :
    Hushed w' := by
  induction hrun with
  | refl => exact h
  | tail _ hone ih =>
    cases hone with
    | packet p n tick bytesTx hflush =>
      refine ih.sendsOne (sentPayloads_sent _ tick bytesTx _) ⟨rfl, rfl, rfl⟩
        (isClose_dataFrame _ p n) fun hc => ?_
      exact absurd hc (not_closeSent_of_mayEmitOutput hflush.state)

theorem HandsOff.sentPayloads_eq (h : HandsOff w w') :
    sentPayloads w'.session.log = sentPayloads w.session.log := by
  have hfeeds : ∀ {w₁ : World}, Feeds w w₁ →
      sentPayloads w₁.session.log = sentPayloads w.session.log := by
    intro w₁ h
    cases h with
    | queued child chunk preExec => exact sentPayloads_observe _ (.queued chunk) rfl
    | childless | empty | returned | dropped => rfl
  cases h with
  | fed h => exact hfeeds h
  | closed h h' =>
    cases h' with
    | closed child hchild heof hnext hopen =>
      have hlog := hfeeds h
      exact (sentPayloads_observe _ .stdinEof rfl).trans hlog

theorem Hushed.credits (h : Hushed w) (hcredits : Credits w w')
    (hquiet : w.driver.CloseSent → w.driver.creditPending < creditBatch) : Hushed w' := by
  cases hcredits with
  | below hlt => exact h
  | returned tick bytesTx hbatch =>
    refine h.sendsOne (sentPayloads_sent w tick bytesTx _) ⟨rfl, rfl, rfl⟩ rfl fun hc => ?_
    exact absurd (hquiet hc) (Nat.not_lt.2 hbatch)

/-- A reply to a request is for the channel; the other answers are not. -/
theorem Answers.sent {p q : Bytes} (h : Answers w p q) :
    isClose q = false ∧ (isToChannel q = true → wantsReply p = true) := by
  cases h with
  | globalRequest hmsg => exact ⟨rfl, fun h => by cases h⟩
  | channelOpen sender code desc hmsg => exact ⟨rfl, fun h => by cases h⟩
  | channelRequest msg hmsg hwants hstate hreply =>
    refine ⟨?_, fun _ => hwants⟩
    obtain rfl | rfl := hreply <;> rfl

theorem Driver.Started.not_closeSent {d d' : Driver} {onPty : Bool} (h : d.Started onPty d') :
    ¬d'.CloseSent := by
  cases h <;> simp [Driver.CloseSent, Driver.spawned, Driver.spawnFailed]

theorem Hushed.reacts (h : Hushed w) {p : Bytes} (hreacts : Reacts p w w')
    (hopen : w.driver.state ≠ .closed)
    (hquiet : w.driver.state = .serverClosed → wantsReply p = false) : Hushed w' := by
  have hhandled : Hushed (w.observe (.handled p)) :=
    h.congr (sentPayloads_observe w _ rfl) ⟨rfl, rfl, rfl⟩
  -- An answer to the channel is only given to a message that asks for one.
  have hanswer : ∀ {q : Bytes}, Answers w p q → w.driver.CloseSent → isToChannel q = false := by
    intro q ha hc
    by_contra hq
    rw [Bool.not_eq_false] at hq
    have hwants := ha.sent.2 hq
    obtain hc | hc := hc
    · rw [hquiet hc] at hwants
      cases hwants
    · exact hopen hc
  cases hreacts with
  | silent tick => exact hhandled.congr rfl ⟨rfl, rfl, rfl⟩
  | answered q tick bytesTx ha =>
    exact hhandled.sendsOne (sentPayloads_sent _ _ _ _) ⟨rfl, rfl, rfl⟩ ha.sent.1 (hanswer ha)
  | ptyGranted term tick hstate => exact hhandled.congr rfl ⟨rfl, rfl, rfl⟩
  | ptyAnswered term q tick bytesTx ha hmsg hstate =>
    exact hhandled.sendsOne (sentPayloads_sent _ _ _ _) ⟨rfl, rfl, rfl⟩ ha.sent.1 (hanswer ha)
  | opened sender window maxPkt tick bytesTx hmsg hstate hmax hwindow =>
    refine hhandled.sendsBefore [buildOpenConfirmation sender] (sentPayloads_sent _ _ _ _) ?_ ?_ ?_
    · simp [Driver.CloseSent, hstate]
    · simp [Driver.CloseSent, World.sent]
    · intro q hq
      rw [List.mem_singleton.1 hq]
      rfl
  -- No child is started once the CLOSE is out.
  | started what d tick hstate hd =>
    have hlog := sentPayloads_observe (w.observe (.handled p)) .execStarted rfl
    refine hhandled.sendsBefore [] (by rw [List.append_nil]; exact hlog) ?_ hd.not_closeSent (by simp)
    simp [Driver.CloseSent, hstate]
  | startedAnswered what d tick₁ tick bytesTx hstate hd ha =>
    have hlog := sentPayloads_observe (w.observe (.handled p)) .execStarted rfl
    have hlog' := sentPayloads_sent ((w.observe (.handled p)).observe .execStarted) tick₁ bytesTx
      (buildChannelMsg sshMsgChannelSuccess w.driver.peerChan)
    rw [hlog] at hlog'
    refine hhandled.sendsBefore [_] hlog' ?_ hd.not_closeSent ?_
    · simp [Driver.CloseSent, hstate]
    · intro q hq
      rw [List.mem_singleton.1 hq]
      exact ha.sent.1
  | buffered data hmsg hstate heof hwindow hlen hread =>
    exact hhandled.congr (sentPayloads_observe _ (.accepted data) rfl) ⟨rfl, rfl, rfl⟩
  | stashed data child hmsg hstate heof hchild hwindow hlen hread =>
    exact hhandled.congr (sentPayloads_observe _ (.accepted data) rfl) ⟨rfl, rfl, rfl⟩
  | unsunk data hmsg hstate heof hchild hwindow hlen hread =>
    exact hhandled.congr (sentPayloads_observe _ (.accepted data) rfl) ⟨rfl, rfl, rfl⟩
  | adjusted add hmsg hstate hadd => exact hhandled.congr rfl ⟨rfl, rfl, rfl⟩
  | eof hmsg hstate => exact hhandled.congr rfl ⟨rfl, rfl, rfl⟩
  | closed hmsg hstate =>
    refine hhandled.sends [] (List.append_nil _).symm ?_ (by simp) (by simp) hhandled.parted
    exact iff_of_true (.inr rfl) (.inl hstate)
  | closedEarly hmsg hstate =>
    refine hhandled.sendsBefore [] (List.append_nil _).symm ?_ ?_ (by simp)
    · rintro (hs | hs)
      · exact hstate.2 hs
      · exact hopen hs
    · simp [Driver.CloseSent, Driver.closedEarly]

/-- The server's CLOSE does not come out of a message. -/
theorem Reacts.not_closeSent {p : Bytes} (h : Reacts p w w') (hopen : ¬w.driver.CloseSent) :
    ¬w'.driver.CloseSent := by
  cases h with
  | opened => simp [Driver.CloseSent, World.sent]
  | started what d tick hstate hd => exact hd.not_closeSent
  | startedAnswered what d tick₁ tick bytesTx hstate hd ha => exact hd.not_closeSent
  | closed hmsg hstate => exact absurd (.inl hstate) hopen
  | closedEarly hmsg hstate => simp [Driver.CloseSent, Driver.closedEarly]
  | silent | answered | ptyGranted | ptyAnswered | buffered | stashed | unsunk | adjusted | eof =>
    exact hopen

theorem Hushed.reactsAll (h : Hushed w) {ps : List Bytes} (hreacts : ReactsAll ps w w')
    (hopen : ¬w.driver.CloseSent) : Hushed w' ∧ ¬w'.driver.CloseSent := by
  induction hreacts with
  | nil => exact ⟨h, hopen⟩
  | cons hone _ ih =>
    refine ih (h.reacts hone (fun hs => hopen (.inr hs)) fun hs => absurd (.inl hs) hopen) ?_
    exact hone.not_closeSent hopen

/-- The packets of the key exchange are not for the channel. -/
theorem Rekeys.sent {p : Bytes} {step : RekeyStep} {s s' : Session}
    (h : Rekeys env p s step s') : ∃ qs, sentPayloads s'.log = sentPayloads s.log ++ qs ∧
      (∀ q ∈ qs, isToChannel q = false) ∧
      (step = .passToChannel ∨ ∀ iS, s'.rekey.phase ≠ .sentKexInit iS) := by
  cases h with
  | opened cookie n tick bytesTx started hphase hmsg hn =>
    refine ⟨[buildRekeyKexinit cookie], ?_, ?_, .inr (by simp)⟩
    · simp [Session.sent, Session.frame, sentPayloads, sentPayload]
    · intro q hq
      rw [List.mem_singleton.1 hq]
      rfl
  | answered iS n tick hphase hmsg hn =>
    exact ⟨[], (List.append_nil _).symm, by simp, .inr (by simp [Session.setPhase])⟩
  | passed iS hphase hmsg => exact ⟨[], (List.append_nil _).symm, by simp, .inl rfl⟩
  | skipped iC iS n hphase =>
    exact ⟨[], (List.append_nil _).symm, by simp, .inr (by simp [Session.setPhase])⟩
  | replied iC iS n tick₁ tick bytesTx₁ bytesTx r hphase hmsg =>
    refine ⟨[r.payload, [sshMsgNewkeys]], ?_, ?_, .inr (by simp)⟩
    · simp [Session.sent, Session.frame, sentPayloads, sentPayload]
    · intro q hq
      obtain rfl | rfl : q = r.payload ∨ q = [sshMsgNewkeys] := by simpa using hq
      · rfl
      · rfl
  | completed newRx tick now hphase hmsg =>
    refine ⟨[], ?_, by simp, .inr (by simp)⟩
    simp [Session.observe, sentPayloads, sentPayload]

theorem isClose_of_not_toChannel {q : Bytes} (h : isToChannel q = false) : isClose q = false := by
  by_contra hclose
  rw [Bool.not_eq_false] at hclose
  rw [isToChannel_of_isClose hclose] at h
  cases h

theorem Hushed.rekeys (h : Hushed w) {p : Bytes} {step : RekeyStep} {s : Session}
    (hrekeys : Rekeys env p (w.arrived p).session step s) (hstep : step ≠ .passToChannel) :
    Hushed { w with session := s } := by
  obtain ⟨qs, hlog, hqs, hphase⟩ := Rekeys.sent hrekeys
  rw [sentPayloads_arrived] at hlog
  refine h.sends qs hlog Iff.rfl (fun q hq => isClose_of_not_toChannel (hqs q hq)) (fun _ => hqs)
    fun hc => ?_
  exact ⟨(h.parted hc).1, hphase.resolve_left hstep⟩

theorem Hushed.takesPacket (h : Hushed w) {p : Bytes} (htakes : TakesPacket env p w w')
    (hopen : w.driver.state ≠ .closed) (hquiet : w.driver.state = .serverClosed →
      w.session.rekey.phase = .idle → wantsReply p = false) : Hushed w' := by
  have harrived : Hushed (w.arrived p) :=
    h.congr (sentPayloads_arrived w p) ⟨rfl, rfl, rfl⟩
  cases htakes with
  | handled hwhen hreacts =>
    refine harrived.reacts hreacts hopen fun hs => ?_
    cases hwhen with
    | idle hphase hmsg => exact hquiet hs hphase
    | inline iS hphase hinline => exact absurd hphase ((h.parted (.inl hs)).2 iS)
  | deferred iS hphase hmsg hinline hroom =>
    have hopen : ¬w.driver.CloseSent := fun hc => (h.parted hc).2 iS hphase
    exact harrived.sendsBefore [] (List.append_nil _).symm hopen hopen (by simp)
  | rekeying hrekeys => exact h.rekeys hrekeys (by simp)
  | @rekeyed s _ hrekeys hdrained =>
    have hdone := h.rekeys hrekeys (by simp)
    by_cases hc : w.driver.CloseSent
    · rw [(h.parted hc).1] at hdrained
      cases hdrained with
      | nil =>
        exact hdone.sends [] (List.append_nil _).symm Iff.rfl (by simp) (by simp)
          fun hc => ⟨rfl, (hdone.parted hc).2⟩
    · refine (Hushed.reactsAll ?_ hdrained hc).1
      exact hdone.sendsBefore [] (List.append_nil _).symm hc hc (by simp)

theorem SentAll.sentPayloads_eq {qs : List Bytes} (h : SentAll qs w w') :
    sentPayloads w'.session.log = sentPayloads w.session.log ++ qs := by
  induction h with
  | nil => exact (List.append_nil _).symm
  | cons tick bytesTx h ih => rw [ih, sentPayloads_sent, List.append_assoc, List.singleton_append]

theorem isClose_exitReport {d : Driver} {report : Bytes} (h : d.exitReport = some report) :
    isClose report = false := by
  unfold Driver.exitReport at h
  split at h
  · cases h
    rfl
  · cases h
    rfl
  · cases h

/-- The terminal sequence ends with its only CLOSE. -/
theorem silent_terminal (d : Driver) : Silent d.terminal := by
  unfold Driver.terminal
  split
  · exact List.pairwise_singleton _ _
  · have heof : isClose (buildEof d.peerChan) = false := rfl
    refine List.pairwise_append.2 ⟨?_, ?_, fun q hq q' _ hclose => ?_⟩
    · cases d.exitReport with
      | none => exact List.Pairwise.nil
      | some report => exact List.pairwise_singleton _ _
    · refine List.pairwise_cons.2 ⟨fun q' _ hclose => ?_, List.pairwise_singleton _ _⟩
      rw [heof] at hclose
      cases hclose
    · rw [isClose_exitReport (Option.mem_toList.1 hq)] at hclose
      cases hclose

theorem not_closeSent_of_readyToClose {d : Driver} (h : d.readyToClose = true) :
    ¬d.CloseSent := by
  simp only [Driver.readyToClose, Bool.and_eq_true, decide_eq_true_eq] at h
  simp [Driver.CloseSent, h.1.1]

/-- What the settling leaves when `drive` goes on. -/
theorem Hushed.settles (h : Hushed w) (hd : Defers w) (hsettles : Settles w false w')
    (hquiet : w.driver.CloseSent → w.session.rekey.phase = .idle →
      w.driver.creditPending < creditBatch) : Hushed w' := by
  cases hsettles with
  | busy hactive => exact h
  | rekeyed cookie tick bytesTx started trigger hidle hcredits hstate =>
    have hcredited := h.credits hcredits fun hc => hquiet hc hidle
    have hopen : ¬w.driver.CloseSent := by
      rintro (hs | hs) <;> simp [hs, ChannelState.mayRekey] at hstate
    have hopen' := fun hc => hopen (hcredits.stance.closeSent_iff.1 hc)
    refine hcredited.sendsBefore [buildRekeyKexinit cookie] (sentPayloads_sent _ tick bytesTx _)
      hopen' hopen' fun q hq => ?_
    rw [List.mem_singleton.1 hq]
    rfl
  | @closes w₁ _ _ tick now hidle hcredits hdue hcloses =>
    have hcredited := h.credits hcredits fun hc => hquiet hc hidle
    have hticked : Hushed (w₁.atTick tick) := hcredited.congr rfl ⟨rfl, rfl, rfl⟩
    have hphase : w₁.session.rekey.phase = .idle := hcredits.stance.phase.trans hidle
    cases hcloses with
    | waiting hready hstate => exact hticked
    | half hready hearly hsent =>
      rename_i w₂
      refine ⟨?_, fun hopen => absurd (.inl rfl) hopen, fun _ => ⟨?_, fun iS => ?_⟩⟩
      · change Silent (sentPayloads w₂.session.log)
        rw [hsent.sentPayloads_eq]
        exact Silent.append_of_open (silent_terminal _)
          (hticked.unsent (not_closeSent_of_readyToClose hready)) hticked.silent
      · change w₂.driver.deferred = []
        rw [hsent.driver_eq]
        exact hcredits.stance.deferred.trans (hd.idle hidle)
      · have hidle : w₂.session.rekey.phase = .idle := hsent.phase_eq.trans hphase
        change w₂.session.rekey.phase ≠ _
        rw [hidle]
        simp

theorem Hushed.occurs (h : Hushed w) {event : Event} (hoccurs : Occurs event w w') :
    Hushed w' := by
  cases hoccurs with
  | chunk kind data hearly hnone hstate hended =>
    exact h.congr (sentPayloads_observe w _ rfl) ⟨rfl, rfl, rfl⟩
  | exited exit hstate hended =>
    have hopen := not_closeSent_of_mayEmitOutput hstate
    refine h.sendsBefore [] (List.append_nil _).symm hopen ?_ (by simp)
    rw [Driver.CloseSent, mapDriver_driver]
    split
    · simp
    · exact hopen
  | credit child n rest hchild hconsumed =>
    exact h.congr (sentPayloads_observe w _ rfl) ⟨rfl, rfl, rfl⟩
  | unsent | ended | creditsEnded | woken => exact h.congr rfl ⟨rfl, rfl, rfl⟩

/-! ### The last words of a connection -/

theorem Hushed.finishes (h : Hushed w) (hsettles : Settles w true w')
    (hquiet : w.driver.CloseSent → w.session.rekey.phase = .idle →
      w.driver.creditPending < creditBatch) : Silent (sentPayloads w'.session.log) := by
  cases hsettles with
  | @closes w₁ _ _ tick now hidle hcredits hdue hcloses =>
    have hcredited := h.credits hcredits fun hc => hquiet hc hidle
    cases hcloses with
    | finished hready hstate =>
      rw [sentPayloads_emitFinished]
      exact hcredited.silent
    | early hready hearly hsent =>
      rename_i w₂
      rw [sentPayloads_emitFinished]
      change Silent (sentPayloads w₂.session.log)
      rw [hsent.sentPayloads_eq]
      exact Silent.append_of_open (silent_terminal _)
        (hcredited.unsent (not_closeSent_of_readyToClose hready)) hcredited.silent

theorem Hushed.silent_of_left {P : Bytes → Prop} (h : Hushed w) (hleft : w.Left P w')
    (hP : ∀ q, P q → w.driver.CloseSent → isToChannel q = false) :
    Silent (sentPayloads w'.session.log) := by
  obtain hlog | ⟨q, hq, hlog⟩ := hleft
  · rw [hlog]
    exact h.silent
  · have hsent : sentPayloads w'.session.log = sentPayloads w.session.log ++ [q] := by
      rw [hlog, sentPayloads_append]
      rfl
    rw [hsent]
    by_cases hc : w.driver.CloseSent
    · refine List.pairwise_append.2 ⟨h.silent, List.pairwise_singleton _ _, fun _ _ q' hq' _ => ?_⟩
      rw [List.mem_singleton.1 hq']
      exact hP q hq hc
    · exact Silent.append_of_open (List.pairwise_singleton _ _) (h.unsent hc) h.silent

theorem isToChannel_disconnect {q : Bytes} (h : IsDisconnect q) : isToChannel q = false := by
  have hq : q.head? = some Kex.sshMsgDisconnect := h
  simp only [isToChannel, hq, Option.any_some]
  decide

theorem Hushed.flushFails (h : Hushed w) (hfails : FlushFails w w') :
    Silent (sentPayloads w'.session.log) := by
  obtain ⟨w₁, p, n, hrun, hflush, hleft⟩ := hfails
  refine (h.flushes hrun).silent_of_left hleft fun q _ hc => ?_
  exact absurd hc (not_closeSent_of_mayEmitOutput hflush.state)

theorem Hushed.settleFails (h : Hushed w) (hfails : SettleFails w w')
    (hquiet : w.driver.CloseSent → w.session.rekey.phase = .idle →
      w.driver.creditPending < creditBatch) : Silent (sentPayloads w'.session.log) := by
  cases hfails with
  | credit hidle hbatch hleft =>
    refine h.silent_of_left hleft fun q _ hc => ?_
    exact absurd (hquiet hc hidle) (Nat.not_lt.2 hbatch)
  | rekey w₁ cookie hidle hcredits hstate hleft =>
    refine (h.credits hcredits fun hc => hquiet hc hidle).silent_of_left hleft ?_
    rintro q rfl -
    rfl
  | terminal w₁ tick now hidle hcredits hdue hready hfails =>
    have hcredited := h.credits hcredits fun hc => hquiet hc hidle
    have hticked : Hushed (w₁.atTick tick) := hcredited.congr rfl ⟨rfl, rfl, rfl⟩
    have hopen : ¬(w₁.atTick tick).driver.CloseSent := fun hc =>
      not_closeSent_of_readyToClose hready (hcredits.stance.closeSent_iff.1 hc)
    obtain ⟨pre, q, post, w₂, hterminal, hsent, hleft⟩ := hfails
    have hsplit : w.driver.terminal = (pre ++ [q]) ++ post := by rw [hterminal]; simp
    have hsilent : Silent (pre ++ [q]) := by
      have := silent_terminal w.driver
      rw [hsplit] at this
      exact (List.pairwise_append.1 this).1
    have hall := Silent.append_of_open hsilent (hticked.unsent hopen) hticked.silent
    have hpre : Silent (sentPayloads w₂.session.log) := by
      rw [hsent.sentPayloads_eq]
      rw [← List.append_assoc] at hall
      exact (List.pairwise_append.1 hall).1
    obtain hlog | ⟨q', rfl, hlog⟩ := hleft
    · rw [hlog]
      exact hpre
    · have hsent' : sentPayloads w'.session.log =
          sentPayloads (w₁.atTick tick).session.log ++ (pre ++ [q']) := by
        rw [hlog, sentPayloads_append, hsent.sentPayloads_eq, List.append_assoc]
        rfl
      rw [hsent']
      exact hall

theorem Hushed.reactFails (h : Hushed w) {p : Bytes} (hfails : ReactFails p w w')
    (hopen : w.driver.state ≠ .closed)
    (hquiet : w.driver.state = .serverClosed → wantsReply p = false) :
    Silent (sentPayloads w'.session.log) := by
  have hhandled : Hushed (w.observe (.handled p)) :=
    h.congr (sentPayloads_observe w _ rfl) ⟨rfl, rfl, rfl⟩
  have hword : ∀ q, LastWord w p q → w.driver.CloseSent → isToChannel q = false := by
    intro q hq hc
    cases hq with
    | disconnect hq => exact isToChannel_disconnect hq
    | answer ha =>
      by_contra hto
      rw [Bool.not_eq_false] at hto
      obtain hc | hc := hc
      · have := hquiet hc
        rw [ha.sent.2 hto] at this
        cases this
      · exact hopen hc
    | confirmation sender hmsg hstate => rfl
  cases hfails with
  | handled hleft => exact hhandled.silent_of_left hleft hword
  | started hstate hleft =>
    have hstarted : Hushed ((w.observe (.handled p)).observe .execStarted) :=
      hhandled.congr (sentPayloads_observe _ _ rfl) ⟨rfl, rfl, rfl⟩
    exact hstarted.silent_of_left hleft hword

theorem Hushed.rekeyFails (h : Hushed w) {p : Bytes}
    (hfails : RekeyFails p w.session w'.session) : Silent (sentPayloads w'.session.log) := by
  cases hfails with
  | refused hleft =>
    exact h.silent_of_left hleft fun q hq _ => isToChannel_disconnect hq
  | opening cookie hphase hmsg hleft =>
    refine h.silent_of_left hleft ?_
    rintro q rfl -
    rfl
  | openedRefused cookie tick bytesTx hphase hmsg hleft =>
    have hsent : Hushed (w.sent tick bytesTx (buildRekeyKexinit cookie)) :=
      h.sendsOne (sentPayloads_sent _ _ _ _) ⟨rfl, rfl, rfl⟩ rfl fun _ => rfl
    exact hsent.silent_of_left hleft fun q hq _ => isToChannel_disconnect hq
  | replying q iC iS n hphase hq hleft =>
    refine h.silent_of_left hleft ?_
    rintro q' rfl -
    simp only [isToChannel, hq, Option.any_some]
    decide
  | finishing q iC iS n tick bytesTx hphase hq hleft =>
    have hto : isToChannel q = false := by
      simp only [isToChannel, hq, Option.any_some]
      decide
    have hsent : Hushed (w.sent tick bytesTx q) :=
      h.sendsOne (sentPayloads_sent _ _ _ _) ⟨rfl, rfl, rfl⟩ (isClose_of_not_toChannel hto)
        fun _ => hto
    refine hsent.silent_of_left hleft ?_
    rintro q' rfl -
    rfl

theorem Hushed.packetFails (h : Hushed w) {p : Bytes} (hfails : PacketFails env p w w')
    (hopen : w.driver.state ≠ .closed) (hquiet : w.driver.state = .serverClosed →
      w.session.rekey.phase = .idle → wantsReply p = false) :
    Silent (sentPayloads w'.session.log) := by
  have harrived : Hushed (w.arrived p) := h.congr (sentPayloads_arrived w p) ⟨rfl, rfl, rfl⟩
  cases hfails with
  | handled hwhen hfails =>
    refine harrived.reactFails hfails hopen fun hs => ?_
    cases hwhen with
    | idle hphase hmsg => exact hquiet hs hphase
    | inline iS hphase hinline => exact absurd hphase ((h.parted (.inl hs)).2 iS)
  | overflow hleft => exact harrived.silent_of_left hleft fun q hq _ => isToChannel_disconnect hq
  | rekeying hfails => exact harrived.rekeyFails hfails
  | @draining s hrekeys hfails =>
    obtain ⟨pre, q, post, w₁, hdeferred, hreacts, hfails⟩ := hfails
    have hc : ¬w.driver.CloseSent := by
      intro hc
      rw [(h.parted hc).1] at hdeferred
      simp at hdeferred
    have hdone := h.rekeys hrekeys (by simp)
    have hdrained : Hushed (w.drained s) :=
      hdone.sendsBefore [] (List.append_nil _).symm hc hc (by simp)
    obtain ⟨hw₁, hopen₁⟩ := hdrained.reactsAll hreacts hc
    exact hw₁.reactFails hfails (fun hs => hopen₁ (.inr hs)) fun hs => absurd (.inl hs) hopen₁

/-! ### Whole runs -/

/-- The step neither answers a request nor returns credit after the CLOSE. -/
def KeepsSilence (c : Config) : Input → Prop
  | .phase => c.pc = .settle → c.world.driver.CloseSent → c.world.session.rekey.phase = .idle →
      c.world.driver.creditPending < creditBatch
  | .event (.packet p) => c.world.driver.state = .serverClosed →
      c.world.session.rekey.phase = .idle → wantsReply p = false
  | _ => True

/-- What silent runs keep. -/
structure Hushes (c : Config) : Prop where
  silent : Silent (sentPayloads c.world.session.log)
  hushed : c.live → Hushed c.world
  defers : c.live → Defers c.world
  leaves : c.ClosedLeaves

theorem Hushed.turn {c c' : Config} {input : Input} (hturn : Turn env c input c')
    (hkeeps : KeepsSilence c input) (h : Hushes c) (hlive : c'.live) : Hushed c'.world := by
  cases hturn with
  | flushed hidle hrun => exact (h.hushed (by simp [Config.live])).flushes hrun
  | unflushed hactive => exact h.hushed (by simp [Config.live])
  | handedOff hoff =>
    exact (h.hushed (by simp [Config.live])).congr hoff.sentPayloads_eq hoff.stance
  | settled hsettles =>
    rename_i finished
    cases finished with
    | true => exact absurd rfl (hlive _)
    | false =>
      exact (h.hushed (by simp [Config.live])).settles (h.defers (by simp [Config.live])) hsettles
        (hkeeps rfl)
  | packet p htakes =>
    have hopen := fun hs => (h.leaves (by simp [Config.live]) hs).2 rfl
    exact (h.hushed (by simp [Config.live])).takesPacket htakes hopen hkeeps
  | occurred event hoccurs => exact (h.hushed (by simp [Config.live])).occurs hoccurs
  | pumped child child' step hpc hchild hpump => exact (h.hushed hpc).congr rfl ⟨rfl, rfl, rfl⟩
  | flushFailed e hidle hfails => exact absurd rfl (hlive _)
  | settleFailed e hfails => exact absurd rfl (hlive _)
  | packetFailed p e hfails => exact absurd rfl (hlive _)
  | readFailed error => exact absurd rfl (hlive _)
  | timedOut hactive hleft => exact absurd rfl (hlive _)

theorem Hushes.last {c c' : Config} {input : Input} (hturn : Turn env c input c')
    (hkeeps : KeepsSilence c input) (h : Hushes c) (hdone : ¬c'.live) :
    Silent (sentPayloads c'.world.session.log) := by
  cases hturn with
  | flushFailed e hidle hfails =>
    rw [sentPayloads_emitFinished]
    exact (h.hushed (by simp [Config.live])).flushFails hfails
  | settled hsettles =>
    rename_i finished
    cases finished with
    | true => exact (h.hushed (by simp [Config.live])).finishes hsettles (hkeeps rfl)
    | false => exact absurd (by simp [Config.live]) hdone
  | settleFailed e hfails =>
    rw [sentPayloads_emitFinished]
    exact (h.hushed (by simp [Config.live])).settleFails hfails (hkeeps rfl)
  | packetFailed p e hfails =>
    have hopen := fun hs => (h.leaves (by simp [Config.live]) hs).2 rfl
    rw [sentPayloads_emitFinished]
    exact (h.hushed (by simp [Config.live])).packetFails hfails hopen hkeeps
  | readFailed error =>
    rw [sentPayloads_emitFinished]
    exact h.silent
  | timedOut hactive hleft =>
    rw [sentPayloads_emitFinished]
    exact (h.hushed (by simp [Config.live])).silent_of_left hleft
      fun q hq _ => isToChannel_disconnect hq
  | flushed | unflushed | handedOff | packet | occurred => exact absurd (by simp [Config.live]) hdone
  | pumped child child' step hpc hchild hpump => exact absurd hpc hdone

theorem Hushes.turn {c c' : Config} {input : Input} (h : Hushes c) (hkeeps : KeepsSilence c input)
    (hturn : Turn env c input c') : Hushes c' := by
  have hlive := fun hl => Hushed.turn hturn hkeeps h hl
  refine ⟨?_, hlive, Defers.turn hturn h.defers, h.leaves.turn hturn⟩
  by_cases hl : c'.live
  · exact (hlive hl).silent
  · exact Hushes.last hturn hkeeps h hl

theorem sentPayloads_start (h : Handshake) :
    sentPayloads (Config.start h).world.session.log = h.sent := by
  have hpayload : sentPayload ∘ Obs.sealed = some ∘ Frame.payload := rfl
  change sentPayloads (h.frames.map Obs.sealed) = h.sent
  rw [sentPayloads, List.filterMap_map, hpayload, List.filterMap_eq_map]
  apply List.ext_getElem
  · simp [Handshake.frames]
  · intro i hi hi'
    simp [Handshake.frames]

theorem isClose_of_mem_sent {h : Handshake} {q : Bytes} (hq : q ∈ h.sent) : isClose q = false := by
  obtain ⟨msg, hmsg, hhead⟩ := h.sent_msg q hq
  have hne : ∀ msg ∈ handshakeMessages, msg ≠ sshMsgChannelClose := by decide
  simpa [isClose, hhead] using hne msg hmsg

theorem hushes_start (h : Handshake) : Hushes (Config.start h) := by
  have hsilent : Silent (sentPayloads (Config.start h).world.session.log) := by
    rw [sentPayloads_start]
    refine List.pairwise_of_forall_mem_list fun q hq q' _ hclose => ?_
    rw [isClose_of_mem_sent hq] at hclose
    cases hclose
  refine ⟨hsilent, fun _ => ⟨hsilent, fun _ q hq => ?_, ?_⟩, fun _ => defers_start h, ?_⟩
  · rw [sentPayloads_start] at hq
    exact isClose_of_mem_sent hq
  · rintro (hs | hs) <;> cases hs
  · intro _ hclosed
    cases hclosed

/-- In a run whose steps answer no request and return no credit after the CLOSE,
nothing to the channel follows it. -/
theorem silent_after_close {env : Env} {h : Handshake} {inputs : List Input} {c : Config}
    (hrun : Config.runs env h inputs = some c)
    (hkeeps : Along (Config.step env) KeepsSilence (Config.start h) inputs) :
    (sentPayloads c.world.session.log).Pairwise
      fun q q' => isClose q = true → isToChannel q' = false :=
  (invariant_along (fun _ _ _ hinv hk hstep => Hushes.turn hinv hk (step_turn hstep))
    (hushes_start h) hkeeps hrun).silent

/-- Decides whether the step keeps the silence. -/
def checksSilence (c : Config) : Input → Bool
  | .phase => decide (c.world.driver.creditPending < creditBatch)
  | .event (.packet p) => c.world.driver.state ≠ .serverClosed || !wantsReply p
  | _ => true

theorem keepsSilence_of_check (c : Config) (input : Input) (h : checksSilence c input = true) :
    KeepsSilence c input := by
  cases input with
  | phase => exact fun _ _ _ => by simpa [checksSilence] using h
  | pump step => trivial
  | event event =>
    cases event with
    | packet p =>
      intro hs _
      simpa [checksSilence, hs] using h
    | _ => trivial

/-- A shell that exits at once, up to the server's CLOSE. -/
def exitRun : List Input :=
  packetTurn (openSession 7 maxPacket maxPacket) ++ packetTurn (channelRequest "shell" true) ++
    [.phase, .phase, .phase, .event (.output (some (.exited ⟨0, none⟩)))] ++
    [.phase, .phase, .phase, .event (.output none)]

theorem silent_after_close_exit : ∃ c, Config.runs plainEnv plainHandshake
    (exitRun ++ packetTurn (channelRequest "shell" false)) = some c ∧
    (sentPayloads c.world.session.log).map List.head? =
      [some 91, some 99, some 98, some 96, some 97] ∧
    (sentPayloads c.world.session.log).Pairwise
      fun q q' => isClose q = true → isToChannel q' = false := by
  have hc : (Config.runs plainEnv plainHandshake
      (exitRun ++ packetTurn (channelRequest "shell" false))).map
      (fun c => (sentPayloads c.world.session.log).map List.head?) =
      some [some 91, some 99, some 98, some 96, some 97] := by
    decide
  obtain ⟨c, hrun, hc⟩ := Option.map_eq_some_iff.1 hc
  refine ⟨c, hrun, hc, silent_after_close hrun ?_⟩
  exact along_of_check keepsSilence_of_check (by decide)

/-- A request after the CLOSE is answered on the closed channel. -/
theorem request_answered_after_close : ∃ c, Config.runs plainEnv plainHandshake
    (exitRun ++ packetTurn (channelRequest "shell" true)) = some c ∧
    ¬(sentPayloads c.world.session.log).Pairwise
      fun q q' => isClose q = true → isToChannel q' = false := by
  have hc : (Config.runs plainEnv plainHandshake
      (exitRun ++ packetTurn (channelRequest "shell" true))).map
      (fun c => decide (Silent (sentPayloads c.world.session.log))) = some false := by
    decide
  obtain ⟨c, hrun, hc⟩ := Option.map_eq_some_iff.1 hc
  exact ⟨c, hrun, of_decide_eq_false hc⟩

end QuantumSsh.Channel
