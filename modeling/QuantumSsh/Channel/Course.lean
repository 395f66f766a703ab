import QuantumSsh.Channel.Plain

/-!
# The course of the channel

How the channel's state and the phase of the re-key move. A channel that both
sides have closed leaves the loop before it waits again.
-/

namespace QuantumSsh.Channel

open Wire Kex Machine Program Transport

variable {env : Env} {w w' : World}

/-! ### What the parts of a turn leave alone -/

/-- The channel's state, the phase of the re-key and what is deferred are as before. -/
structure SameStance (w w' : World) : Prop where
  state : w'.driver.state = w.driver.state
  phase : w'.session.rekey.phase = w.session.rekey.phase
  deferred : w'.driver.deferred = w.driver.deferred

theorem SameStance.trans {w₁ : World} (h : SameStance w w₁) (h' : SameStance w₁ w') :
    SameStance w w' :=
  ⟨h'.state.trans h.state, h'.phase.trans h.phase, h'.deferred.trans h.deferred⟩

theorem FlushOnes.stance (h : Relation.ReflTransGen FlushOne w w') : SameStance w w' := by
  induction h with
  | refl => exact ⟨rfl, rfl, rfl⟩
  | tail _ hone ih =>
    cases hone with
    | packet p n tick bytesTx h => exact ih.trans ⟨rfl, rfl, rfl⟩

theorem HandsOff.stance (h : HandsOff w w') : SameStance w w' := by
  have hfeeds : ∀ {w₁ : World}, Feeds w w₁ → SameStance w w₁ := by
    intro w₁ h
    cases h <;> exact ⟨rfl, rfl, rfl⟩
  cases h with
  | fed h => exact hfeeds h
  | closed h h' =>
    refine (hfeeds h).trans ?_
    cases h' with
    | closed child hchild heof hnext hopen => exact ⟨rfl, rfl, rfl⟩

theorem Credits.stance (h : Credits w w') : SameStance w w' := by
  cases h <;> exact ⟨rfl, rfl, rfl⟩

theorem Occurs.phase_eq {event : Event} (h : Occurs event w w') :
    w'.session.rekey.phase = w.session.rekey.phase := by
  cases h <;> rfl

theorem SentAll.phase_eq {qs : List Bytes} (h : SentAll qs w w') :
    w'.session.rekey.phase = w.session.rekey.phase := by
  induction h with
  | nil => rfl
  | cons tick bytesTx h ih => exact ih

theorem Reacts.phase_eq {p : Bytes} (h : Reacts p w w') :
    w'.session.rekey.phase = w.session.rekey.phase := by
  cases h <;> rfl

theorem ReactsAll.phase_eq {ps : List Bytes} (h : ReactsAll ps w w') :
    w'.session.rekey.phase = w.session.rekey.phase := by
  induction h with
  | nil => rfl
  | cons hone _ ih => exact ih.trans hone.phase_eq

theorem Reacts.deferred_eq {p : Bytes} (h : Reacts p w w') :
    w'.driver.deferred = w.driver.deferred := by
  cases h with
  | started what d tick hstate hd => cases hd <;> rfl
  | startedAnswered what d tick₁ tick bytesTx hstate hd ha => cases hd <;> rfl
  | _ => rfl

theorem ReactsAll.deferred_eq {ps : List Bytes} (h : ReactsAll ps w w') :
    w'.driver.deferred = w.driver.deferred := by
  induction h with
  | nil => rfl
  | cons hone _ ih => exact ih.trans hone.deferred_eq

/-- Only the client's CLOSE, after ours, closes the channel for good. -/
theorem Reacts.closed_iff {p : Bytes} (h : Reacts p w w') (hclosed : w'.driver.state = .closed) :
    w.driver.state = .closed ∨ p.head? = some sshMsgChannelClose := by
  cases h with
  | closed hmsg hstate => exact .inr hmsg
  | closedEarly hmsg hstate => exact .inr hmsg
  | opened sender window maxPkt tick bytesTx hmsg hstate hmax hwindow => cases hclosed
  | started what d tick hstate hd => cases hd <;> cases hclosed
  | startedAnswered what d tick₁ tick bytesTx hstate hd ha => cases hd <;> cases hclosed
  | silent | answered | ptyGranted | ptyAnswered | buffered | stashed | unsunk | adjusted | eof =>
    exact .inl hclosed

/-! ### The end of the channel -/

/-- `drive` has not returned. -/
def Config.live (c : Config) : Prop := ∀ r, c.pc ≠ .done r

theorem Turn.live {c c' : Config} {input : Input} (h : Turn env c input c') : c.live := by
  cases h with
  | pumped child child' step hpc hchild hpump => exact hpc
  | _ => simp [Config.live]

/-- `drive` has returned. -/
def Pc.isDone : Pc → Bool
  | .done _ => true
  | _ => false

/-- `drive` waits for an event. -/
def Pc.isWaiting : Pc → Bool
  | .waiting => true
  | _ => false

theorem Pc.eq_waiting {pc : Pc} (h : pc.isWaiting = true) : pc = .waiting := by
  cases pc with
  | waiting => rfl
  | _ => cases h

theorem Pc.eq_done {pc : Pc} (h : pc.isDone = true) : ∃ r, pc = .done r := by
  cases pc with
  | done r => exact ⟨r, rfl⟩
  | _ => cases h

theorem live_of_isDone {c : Config} (h : c.pc.isDone = false) : c.live := by
  intro r hr
  rw [hr] at h
  cases h

/-- A closed channel is about to leave the loop. -/
def Config.ClosedLeaves (c : Config) : Prop :=
  c.live → c.world.driver.state = .closed →
    c.world.session.rekey.phase = .idle ∧ c.pc ≠ .waiting

theorem Settles.not_closed (h : Settles w false w')
    (hleaves : w.driver.state = .closed → w.session.rekey.phase = .idle) :
    w'.driver.state ≠ .closed := by
  intro hclosed
  cases h with
  | busy hactive => simp [Session.rekeyActive, hleaves hclosed] at hactive
  | rekeyed cookie tick bytesTx started trigger hidle hcredits hstate =>
    have hstate' := hcredits.stance.state.symm.trans hclosed
    simp [hstate', ChannelState.mayRekey] at hstate
  | closes tick now hidle hcredits hdue hcloses =>
    cases hcloses with
    | waiting hready hstate => exact hstate hclosed
    | half hready hearly hsent => cases hclosed

theorem TakesPacket.closed_phase {p : Bytes} (h : TakesPacket env p w w')
    (hopen : w.driver.state ≠ .closed) (hclosed : w'.driver.state = .closed) :
    w'.session.rekey.phase = .idle := by
  cases h with
  | handled hwhen hreacts =>
    rw [hreacts.phase_eq]
    cases hwhen with
    | idle hphase hmsg => exact hphase
    | inline iS hphase hinline =>
      obtain hstate | hmsg := hreacts.closed_iff hclosed
      · exact absurd hstate hopen
      · simp [isInline, hmsg, sshMsgChannelClose, sshMsgChannelData, sshMsgChannelWindowAdjust,
          sshMsgChannelEof] at hinline
  | deferred iS hphase hmsg hinline hroom => exact absurd hclosed hopen
  | rekeying hrekeys => exact absurd hclosed hopen
  | rekeyed hrekeys hdrained =>
    rw [hdrained.phase_eq]
    cases hrekeys with
    | completed newRx tick now hphase hmsg => rfl

theorem Config.ClosedLeaves.turn {c c' : Config} {input : Input} (h : c.ClosedLeaves)
    (hturn : Turn env c input c') : c'.ClosedLeaves := by
  intro hlive hclosed
  cases hturn with
  | flushed hidle hrun =>
    have hstance := FlushOnes.stance hrun
    exact ⟨hstance.phase.trans hidle, by simp⟩
  | unflushed hactive => exact ⟨(h (by simp [Config.live]) hclosed).1, by simp⟩
  | handedOff hoff =>
    have hstance := hoff.stance
    refine ⟨hstance.phase.trans (h (by simp [Config.live]) ?_).1, by simp⟩
    exact hstance.state.symm.trans hclosed
  | settled hsettles =>
    rename_i finished
    cases finished with
    | true => exact absurd rfl (hlive _)
    | false =>
      exact absurd hclosed (hsettles.not_closed fun hs => (h (by simp [Config.live]) hs).1)
  | packet p htakes =>
    have hopen := fun hs => (h (by simp [Config.live]) hs).2 rfl
    exact ⟨htakes.closed_phase hopen hclosed, by simp⟩
  | occurred event hoccurs =>
    have hopen := fun hs => (h (by simp [Config.live]) hs).2 rfl
    refine absurd ?_ hopen
    cases hoccurs with
    | exited exit hstate hended =>
      simp only [mapDriver_driver] at hclosed
      split at hclosed
      · cases hclosed
      · exact hclosed
    | chunk | unsent | ended | credit | creditsEnded | woken => exact hclosed
  | pumped child child' step hpc hchild hpump => exact h hpc hclosed
  | flushFailed e hidle hfails => exact absurd rfl (hlive _)
  | settleFailed e hfails => exact absurd rfl (hlive _)
  | packetFailed p e hfails => exact absurd rfl (hlive _)
  | readFailed error => exact absurd rfl (hlive _)
  | timedOut hactive hleft => exact absurd rfl (hlive _)

/-- The loop never waits on a closed channel. -/
theorem closedLeaves_of_run {h : Handshake} {inputs : List Input} {c : Config}
    (hrun : Config.runs env h inputs = some c) : c.ClosedLeaves :=
  invariant_run (fun _ _ _ hinv hstep => Config.ClosedLeaves.turn hinv (step_turn hstep))
    (fun _ hclosed => by cases hclosed) hrun

/-! ### What is deferred -/

/-- Only messages that may be answered are deferred, only inside a re-key, and
only so many. -/
structure Defers (w : World) : Prop where
  replies : ∀ q ∈ w.driver.deferred, isInline q = false ∧ q.head? ≠ some sshMsgKexinit
  length_le : w.driver.deferred.length ≤ maxDeferred
  idle : w.session.rekey.phase = .idle → w.driver.deferred = []

theorem Defers.congr (h : Defers w) (hdeferred : w'.driver.deferred = w.driver.deferred)
    (hphase : w'.session.rekey.phase = .idle → w.session.rekey.phase = .idle) : Defers w' := by
  refine ⟨?_, ?_, fun hidle => ?_⟩
  · rw [hdeferred]
    exact h.replies
  · rw [hdeferred]
    exact h.length_le
  · rw [hdeferred]
    exact h.idle (hphase hidle)

theorem Defers.of_stance (h : Defers w) (hs : SameStance w w') : Defers w' :=
  h.congr hs.deferred fun hidle => hs.phase.symm.trans hidle

theorem Rekeys.phase_ne_idle {p : Bytes} {s s' : Session} (h : Rekeys env p s .continued s') :
    s'.rekey.phase ≠ .idle := by
  cases h with
  | opened | answered | skipped | replied => simp [Session.setPhase]

theorem Defers.takesPacket {p : Bytes} (h : Defers w) (htakes : TakesPacket env p w w') :
    Defers w' := by
  cases htakes with
  | handled hwhen hreacts =>
    exact h.congr hreacts.deferred_eq fun hidle => hreacts.phase_eq.symm.trans hidle
  | deferred iS hphase hmsg hinline hroom =>
    refine ⟨fun q hq => ?_, ?_, fun hidle => ?_⟩
    · obtain hq | hq := List.mem_append.1 hq
      · exact h.replies q hq
      · rw [List.mem_singleton.1 hq]
        exact ⟨hinline, hmsg⟩
    · simp only [mapDriver_driver, arrived_driver, List.length_append, List.length_singleton]
      omega
    · exact absurd (hphase.symm.trans hidle) (by simp)
  | rekeying hrekeys => exact h.congr rfl fun hidle => absurd hidle (Rekeys.phase_ne_idle hrekeys)
  | rekeyed hrekeys hdrained =>
    have hnone : w'.driver.deferred = [] := hdrained.deferred_eq
    refine ⟨by simp [hnone], by simp [hnone], fun _ => hnone⟩

theorem emitFinished_stance (w : World) : SameStance w w.emitFinished := by
  unfold World.emitFinished
  split <;> exact ⟨rfl, rfl, rfl⟩

theorem Settles.deferred_eq {finished : Bool} (h : Settles w finished w') :
    w'.driver.deferred = w.driver.deferred := by
  cases h with
  | busy hactive => rfl
  | rekeyed cookie tick bytesTx started trigger hidle hcredits hstate =>
    exact hcredits.stance.deferred
  | closes tick now hidle hcredits hdue hcloses =>
    refine Eq.trans ?_ hcredits.stance.deferred
    cases hcloses with
    | waiting hready hstate => rfl
    | finished hready hstate => exact (emitFinished_stance _).deferred
    | half hready hearly hsent =>
      have h := congrArg Driver.deferred hsent.driver_eq
      exact h
    | early hready hearly hsent =>
      have h := congrArg Driver.deferred hsent.driver_eq
      exact (emitFinished_stance _).deferred.trans h

theorem Settles.idle_of_idle {finished : Bool} (h : Settles w finished w')
    (hidle : w'.session.rekey.phase = .idle) : w.session.rekey.phase = .idle := by
  cases h with
  | busy hactive => exact hidle
  | rekeyed cookie tick bytesTx started trigger hidle' hcredits hstate => exact hidle'
  | closes tick now hidle' hcredits hdue hcloses => exact hidle'

theorem Defers.turn {c c' : Config} {input : Input} (hturn : Turn env c input c')
    (h : c.live → Defers c.world) (hlive : c'.live) : Defers c'.world := by
  cases hturn with
  | flushed hidle hrun => exact (h (by simp [Config.live])).of_stance (FlushOnes.stance hrun)
  | unflushed hactive => exact h (by simp [Config.live])
  | handedOff hoff => exact (h (by simp [Config.live])).of_stance hoff.stance
  | settled hsettles =>
    rename_i finished
    cases finished with
    | true => exact absurd rfl (hlive _)
    | false =>
      exact (h (by simp [Config.live])).congr hsettles.deferred_eq hsettles.idle_of_idle
  | packet p htakes => exact (h (by simp [Config.live])).takesPacket htakes
  | occurred event hoccurs =>
    refine (h (by simp [Config.live])).congr ?_ fun hidle => hoccurs.phase_eq.symm.trans hidle
    cases hoccurs <;> rfl
  | pumped child child' step hpc hchild hpump => exact (h hpc).congr rfl id
  | flushFailed e hidle hfails => exact absurd rfl (hlive _)
  | settleFailed e hfails => exact absurd rfl (hlive _)
  | packetFailed p e hfails => exact absurd rfl (hlive _)
  | readFailed error => exact absurd rfl (hlive _)
  | timedOut hactive hleft => exact absurd rfl (hlive _)

theorem defers_start (h : Handshake) : Defers (Config.start h).world :=
  ⟨by simp [Config.start, Driver.new], by simp [Config.start, Driver.new], fun _ => rfl⟩

theorem defers_of_run {h : Handshake} {inputs : List Input} {c : Config}
    (hrun : Config.runs env h inputs = some c) (hlive : c.live) : Defers c.world :=
  invariant_run (P := fun c => c.live → Defers c.world)
    (fun _ _ _ hinv hstep => Defers.turn (step_turn hstep) hinv)
    (fun _ => defers_start h) hrun hlive

end QuantumSsh.Channel
