import QuantumSsh.Channel.Course
import Mathlib.Algebra.BigOperators.Group.List.Basic

/-!
# The inbound window

Every byte of channel data is charged to the inbound window when it is accepted
and comes back as credit when the child has consumed it. In between it is in one
of the buffers, in the pump's queue, under the pump's pen, in a credit on its
way, or lost because nothing takes it any more.
-/

namespace QuantumSsh.Channel

open Wire Kex Machine Program Transport

/-! ### The accounts -/

/-- Bytes of channel data the entry accepts. -/
def acceptedLength : Obs → ℕ
  | .accepted data => data.length
  | _ => 0

/-- Bytes the entry credits. -/
def creditedLength : Obs → ℕ
  | .credited n => n
  | _ => 0

/-- Bytes of channel data accepted so far. -/
def acceptedBytes (log : List Obs) : ℕ := (log.map acceptedLength).sum

/-- Bytes the stdin pump has credited to the driver so far. -/
def creditedBytes (log : List Obs) : ℕ := (log.map creditedLength).sum

/-- Bytes on the child's side: queued, being written, or in a credit on its way. -/
def ChildIo.held (c : ChildIo) : ℕ :=
  (c.queue.map List.length).sum + c.writing.length + c.consumed.sum

/-- Bytes accepted that are still somewhere. -/
def Driver.held (d : Driver) : ℕ :=
  (d.preExecStdin.map List.length).sum + (d.pendingStdin.map List.length).getD 0 +
    (d.child.map ChildIo.held).getD 0

/-- Everything accepted still has somewhere to go. -/
def Driver.Sinks (d : Driver) : Prop :=
  d.state = .idle ∨ ∃ c, d.child = some c ∧ c.stdinOpen = true ∧ c.pumpAlive = true

/-- The part of the connection the accounts are about. -/
structure Ledger where
  state : ChannelState
  inWindow : ℕ
  creditPending : ℕ
  preExecStdin : List Bytes
  pendingStdin : Option Bytes
  child : Option ChildIo
  accepted : ℕ
  credited : ℕ

def World.ledger (w : World) : Ledger where
  state := w.driver.state
  inWindow := w.driver.inWindow
  creditPending := w.driver.creditPending
  preExecStdin := w.driver.preExecStdin
  pendingStdin := w.driver.pendingStdin
  child := w.driver.child
  accepted := acceptedBytes w.session.log
  credited := creditedBytes w.session.log

/-- The accounts balance. -/
structure Balanced (w : World) : Prop where
  /-- Before a child there is only the pre-exec buffer. -/
  childless : w.driver.state = .beforeOpen ∨ w.driver.state = .idle →
    w.driver.child = none ∧ w.driver.pendingStdin = none
  unopened : w.driver.state = .beforeOpen →
    w.driver.preExecStdin = [] ∧ w.driver.creditPending = 0 ∧ acceptedBytes w.session.log = 0
  window : w.driver.state ≠ .beforeOpen →
    w.driver.inWindow + w.driver.creditPending + acceptedBytes w.session.log =
      initialWindow + creditedBytes w.session.log
  held_le : creditedBytes w.session.log + w.driver.held ≤ acceptedBytes w.session.log
  held_eq : w.driver.Sinks →
    creditedBytes w.session.log + w.driver.held = acceptedBytes w.session.log

variable {env : Env} {w w' : World}

/-- The accounts are about the ledger only. -/
theorem Balanced.congr (h : Balanced w) (hl : w'.ledger = w.ledger) : Balanced w' := by
  simp only [World.ledger, Ledger.mk.injEq] at hl
  obtain ⟨hstate, hin, hcredit, hpre, hpending, hchild, haccepted, hcredited⟩ := hl
  have hheld : w'.driver.held = w.driver.held := by
    simp only [Driver.held, hpre, hpending, hchild]
  have hsinks : w'.driver.Sinks ↔ w.driver.Sinks := by
    simp only [Driver.Sinks, hstate, hchild]
  refine ⟨?_, ?_, ?_, ?_, ?_⟩
  · simpa only [hstate, hchild, hpending] using h.childless
  · simpa only [hstate, hpre, hcredit, haccepted] using h.unopened
  · simpa only [hstate, hin, hcredit, haccepted, hcredited] using h.window
  · simpa only [hheld, haccepted, hcredited] using h.held_le
  · simpa only [hsinks, hheld, haccepted, hcredited] using h.held_eq

@[simp] theorem acceptedBytes_append (log log' : List Obs) :
    acceptedBytes (log ++ log') = acceptedBytes log + acceptedBytes log' := by
  simp [acceptedBytes]

@[simp] theorem creditedBytes_append (log log' : List Obs) :
    creditedBytes (log ++ log') = creditedBytes log + creditedBytes log' := by
  simp [creditedBytes]

@[simp] theorem acceptedBytes_nil : acceptedBytes [] = 0 := rfl

@[simp] theorem creditedBytes_nil : creditedBytes [] = 0 := rfl

@[simp] theorem acceptedBytes_cons (obs : Obs) (log : List Obs) :
    acceptedBytes (obs :: log) = acceptedLength obs + acceptedBytes log := by
  simp [acceptedBytes]

@[simp] theorem creditedBytes_cons (obs : Obs) (log : List Obs) :
    creditedBytes (obs :: log) = creditedLength obs + creditedBytes log := by
  simp [creditedBytes]

/-- The ledger ignores a packet written. -/
@[simp] theorem ledger_sent (w : World) (tick bytesTx : ℕ) (q : Bytes) :
    (w.sent tick bytesTx q).ledger = w.ledger := by
  simp [World.ledger, World.sent, Session.sent, acceptedLength, creditedLength]

@[simp] theorem ledger_atTick (w : World) (tick : ℕ) : (w.atTick tick).ledger = w.ledger := rfl

theorem ledger_observe (w : World) (obs : Obs) (haccepted : acceptedLength obs = 0)
    (hcredited : creditedLength obs = 0) : (w.observe obs).ledger = w.ledger := by
  simp [World.ledger, World.observe, Session.observe, haccepted, hcredited]

theorem ledger_arrived (w : World) (p : Bytes) : (w.arrived p).ledger = w.ledger :=
  ledger_observe _ _ rfl rfl

theorem SentAll.ledger_eq {qs : List Bytes} (h : SentAll qs w w') : w'.ledger = w.ledger := by
  induction h with
  | nil => rfl
  | cons tick bytesTx h ih => rw [ih, ledger_sent]

theorem Rekeys.ledger_eq {p : Bytes} {step : RekeyStep} {s : Session}
    (h : Rekeys env p w.session step s) : ({ w with session := s } : World).ledger = w.ledger := by
  have hlog : acceptedBytes s.log = acceptedBytes w.session.log ∧
      creditedBytes s.log = creditedBytes w.session.log := by
    generalize hs : w.session = s₀ at h
    cases h <;>
      simp [acceptedBytes, creditedBytes, Session.sent, Session.setPhase, Session.observe,
        acceptedLength, creditedLength]
  simp [World.ledger, hlog]

/-! ### One step -/

/-- The bytes of both buffers, by the chunk that is handed off next. -/
theorem held_of_nextStdin {d : Driver} {chunk : Bytes} {preExec : List Bytes}
    (h : d.nextStdin = some (chunk, preExec)) :
    (d.preExecStdin.map List.length).sum + (d.pendingStdin.map List.length).getD 0 =
      (preExec.map List.length).sum + chunk.length := by
  unfold Driver.nextStdin at h
  split at h
  next hpending =>
    cases h
    simp [hpending]
  next hpending hpre =>
    cases h
    simp [hpending, hpre, Nat.add_comm]
  next => cases h

theorem Balanced.state_of_child (h : Balanced w) {child : ChildIo}
    (hchild : w.driver.child = some child) :
    w.driver.state ≠ .beforeOpen ∧ w.driver.state ≠ .idle := by
  refine ⟨fun hstate => ?_, fun hstate => ?_⟩
  · simpa [hchild] using (h.childless (.inl hstate)).1
  · simpa [hchild] using (h.childless (.inr hstate)).1

/-- A change on the child's side that leaves the channel and the window alone. -/
theorem Balanced.of_child (h : Balanced w) {child : ChildIo} (hchild : w.driver.child = some child)
    (hstate : w'.driver.state = w.driver.state) (hin : w'.driver.inWindow = w.driver.inWindow)
    (hcredit : w'.driver.creditPending = w.driver.creditPending)
    (haccepted : acceptedBytes w'.session.log = acceptedBytes w.session.log)
    (hcredited : creditedBytes w'.session.log = creditedBytes w.session.log)
    (hheld : w'.driver.held ≤ w.driver.held)
    (hsinks : w'.driver.Sinks → w.driver.Sinks ∧ w'.driver.held = w.driver.held) :
    Balanced w' := by
  obtain ⟨hopened, hbusy⟩ := h.state_of_child hchild
  have hle := h.held_le
  refine ⟨fun hs => ?_, fun hs => ?_, fun hs => ?_, ?_, fun hs => ?_⟩
  · rw [hstate] at hs
    exact absurd hs (by simp [hopened, hbusy])
  · rw [hstate] at hs
    exact absurd hs hopened
  · rw [hin, hcredit, haccepted, hcredited]
    exact h.window hopened
  · omega
  · obtain ⟨hsinks, hheld⟩ := hsinks hs
    rw [hcredited, haccepted, hheld]
    exact h.held_eq hsinks

theorem FlushOne.ledger_eq (h : FlushOne w w') : w'.ledger = w.ledger := by
  cases h with
  | packet p n tick bytesTx h => exact ledger_sent w tick bytesTx (w.dataFrame p n)

theorem FlushOnes.ledger_eq (h : Relation.ReflTransGen FlushOne w w') : w'.ledger = w.ledger := by
  induction h with
  | refl => rfl
  | tail _ hone ih => exact hone.ledger_eq.trans ih

theorem Balanced.feeds (h : Balanced w) (hfeeds : Feeds w w') : Balanced w' := by
  cases hfeeds with
  | childless hchild => exact h
  | empty hnext => exact h
  | returned child chunk preExec hchild hnext hopen hfull =>
    have hheld : ((w.mapDriver fun d => { d with
        pendingStdin := some chunk, preExecStdin := preExec }).driver).held = w.driver.held := by
      have := held_of_nextStdin hnext
      simp only [World.mapDriver, Driver.held, Option.map_some, Option.getD_some]
      omega
    exact h.of_child hchild rfl rfl rfl rfl rfl hheld.le fun hs => ⟨hs, hheld⟩
  | queued child chunk preExec hchild hnext hopen halive hroom =>
    have hheld : ((w.mapDriver fun d => { d with
        pendingStdin := none, preExecStdin := preExec
        child := some { child with queue := child.queue ++ [chunk] } }).driver).held =
        w.driver.held := by
      have := held_of_nextStdin hnext
      simp only [World.mapDriver, Driver.held, ChildIo.held, hchild, Option.map_some,
        Option.getD_some, Option.map_none, Option.getD_none, List.map_append, List.sum_append,
        List.map_cons, List.map_nil, List.sum_cons, List.sum_nil]
      omega
    exact h.of_child hchild rfl rfl rfl (by simp [World.observe, Session.observe, acceptedLength,
      World.mapDriver]) (by simp [World.observe, Session.observe, creditedLength, World.mapDriver])
      hheld.le fun _ => ⟨.inr ⟨child, hchild, hopen, halive⟩, hheld⟩
  | dropped child chunk preExec hchild hnext hclosed =>
    -- A closed stdin takes nothing: the chunk is lost.
    refine h.of_child hchild rfl rfl rfl rfl rfl ?_ fun hs => ?_
    · have := held_of_nextStdin hnext
      simp only [World.mapDriver, Driver.held, Option.map_none, Option.getD_none]
      omega
    · obtain hidle | ⟨c, hc, hopen, -⟩ := hs
      · exact absurd hidle (h.state_of_child hchild).2
      · simp only [World.mapDriver, hchild, Option.some.injEq] at hc
        simp [← hc, hclosed] at hopen

theorem Balanced.closesStdin (h : Balanced w) (hcloses : ClosesStdin w w') : Balanced w' := by
  cases hcloses with
  | closed child hchild heof hnext hopen =>
    refine h.of_child hchild rfl rfl rfl (by simp [World.observe, Session.observe, acceptedLength,
      World.mapDriver]) (by simp [World.observe, Session.observe, creditedLength, World.mapDriver])
      ?_ fun hs => ?_
    · simp [World.observe, World.mapDriver, Driver.held, ChildIo.held, ChildIo.closeStdin, hchild]
    · obtain hidle | ⟨c, hc, hopen', -⟩ := hs
      · exact absurd hidle (h.state_of_child hchild).2
      · simp only [World.mapDriver, World.observe, Option.some.injEq] at hc
        simp [← hc, ChildIo.closeStdin] at hopen'

theorem Balanced.handsOff (h : Balanced w) (hoff : HandsOff w w') : Balanced w' := by
  cases hoff with
  | fed hfeeds => exact h.feeds hfeeds
  | closed hfeeds hcloses => exact (h.feeds hfeeds).closesStdin hcloses

/-- The window and the credit never add up to more than the first grant. -/
theorem Balanced.window_le (h : Balanced w) (hopened : w.driver.state ≠ .beforeOpen) :
    w.driver.inWindow + w.driver.creditPending + w.driver.held ≤ initialWindow := by
  have hwindow := h.window hopened
  have hheld := h.held_le
  omega

theorem Balanced.credits (h : Balanced w) (hcredits : Credits w w') : Balanced w' := by
  cases hcredits with
  | below hlt => exact h
  | returned tick bytesTx hbatch =>
    have hopened : w.driver.state ≠ .beforeOpen := by
      intro hstate
      have hzero := (h.unopened hstate).2.1
      simp [creditBatch, hzero] at hbatch
    have hle := h.window_le hopened
    have hsat : saturatingAdd u32Max w.driver.inWindow w.driver.creditPending =
        w.driver.inWindow + w.driver.creditPending :=
      saturatingAdd_of_le (by simp only [u32Max, initialWindow] at *; omega)
    have hsent := h.congr (ledger_sent w tick bytesTx
      (buildWindowAdjust w.driver.peerChan w.driver.creditPending))
    refine ⟨hsent.childless, fun hstate => absurd hstate hopened, fun hs => ?_, hsent.held_le,
      hsent.held_eq⟩
    have hwindow := hsent.window hopened
    simp only [World.mapDriver, World.sent] at hwindow ⊢
    rw [hsat]
    omega

/-- A channel that has run moves on. -/
theorem Balanced.moves (h : Balanced w) (hlive : w.driver.state ≠ .beforeOpen ∧
    w.driver.state ≠ .idle) (hlive' : w'.driver.state ≠ .beforeOpen ∧ w'.driver.state ≠ .idle)
    (hl : w'.ledger = { w.ledger with state := w'.driver.state }) : Balanced w' := by
  simp only [World.ledger, Ledger.mk.injEq, true_and] at hl
  obtain ⟨hin, hcredit, hpre, hpending, hchild, haccepted, hcredited⟩ := hl
  have hheld : w'.driver.held = w.driver.held := by
    simp only [Driver.held, hpre, hpending, hchild]
  refine ⟨fun hs => ?_, fun hs => absurd hs hlive'.1, fun _ => ?_, ?_, fun hs => ?_⟩
  · exact absurd hs (by simp [hlive'])
  · rw [hin, hcredit, haccepted, hcredited]
    exact h.window hlive.1
  · rw [haccepted, hcredited, hheld]
    exact h.held_le
  · obtain hidle | hopen := hs
    · exact absurd hidle hlive'.2
    · rw [hchild] at hopen
      rw [haccepted, hcredited, hheld]
      exact h.held_eq (.inr hopen)

/-- Data charged to the window, wherever it goes. -/
theorem Balanced.accepts (h : Balanced w) (data : Bytes) (f : Driver → Driver)
    (hlog : acceptedBytes w'.session.log = acceptedBytes w.session.log + data.length)
    (hcredited : creditedBytes w'.session.log = creditedBytes w.session.log)
    (hd : w'.driver = { f w.driver with inWindow := w.driver.inWindow - data.length })
    (hf : (f w.driver).state = w.driver.state ∧
      (f w.driver).creditPending = w.driver.creditPending ∧
      (f w.driver).child = w.driver.child)
    (hopened : w.driver.state ≠ .beforeOpen) (hwindow : data.length ≤ w.driver.inWindow)
    (hpending : w.driver.state = .idle → (f w.driver).pendingStdin = w.driver.pendingStdin)
    (hheld : (f w.driver).held ≤ w.driver.held + data.length)
    (hsinks : w.driver.Sinks → (f w.driver).held = w.driver.held + data.length) :
    Balanced w' := by
  obtain ⟨hstate, hcredit, hchild⟩ := hf
  have hheld' : w'.driver.held = (f w.driver).held := by rw [hd]; rfl
  have hsinks' : w'.driver.Sinks ↔ w.driver.Sinks := by
    rw [hd]
    simp only [Driver.Sinks, hstate, hchild]
  have hbalance := h.window hopened
  have hle := h.held_le
  refine ⟨fun hs => ?_, fun hs => ?_, fun _ => ?_, ?_, fun hs => ?_⟩
  · rw [hd] at hs ⊢
    simp only [hstate] at hs ⊢
    obtain hs | hs := hs
    · exact absurd hs hopened
    · exact ⟨hchild.trans (h.childless (.inr hs)).1,
        (hpending hs).trans (h.childless (.inr hs)).2⟩
  · rw [hd] at hs
    exact absurd (hstate.symm.trans hs) hopened
  · rw [hd, hlog, hcredited]
    simp only [hcredit]
    omega
  · rw [hlog, hcredited, hheld']
    omega
  · have heq := h.held_eq (hsinks'.1 hs)
    have := hsinks (hsinks'.1 hs)
    rw [hlog, hcredited, hheld']
    omega

theorem ledger_handled (w : World) (p : Bytes) :
    (w.observe (.handled p)).ledger = w.ledger :=
  ledger_observe w _ rfl rfl

theorem acceptedBytes_handled (w : World) (p : Bytes) :
    acceptedBytes (w.observe (.handled p)).session.log = acceptedBytes w.session.log :=
  congrArg Ledger.accepted (ledger_handled w p)

theorem creditedBytes_handled (w : World) (p : Bytes) :
    creditedBytes (w.observe (.handled p)).session.log = creditedBytes w.session.log :=
  congrArg Ledger.credited (ledger_handled w p)

theorem Balanced.started (h : Balanced w) {what : Start} {d : Driver} {s : Session}
    (hstate : w.driver.state = .idle)
    (hd : (w.driver.starting what).Started w.driver.pty.isSome d)
    (haccepted : acceptedBytes s.log = acceptedBytes w.session.log)
    (hcredited : creditedBytes s.log = creditedBytes w.session.log) :
    Balanced ⟨s, d⟩ := by
  have hopened : w.driver.state ≠ .beforeOpen := by rw [hstate]; decide
  have hwindow := h.window hopened
  have heq := h.held_eq (.inl hstate)
  obtain ⟨hchild, hpending⟩ := h.childless (.inr hstate)
  cases hd with
  | spawned =>
    have hheld : ((w.driver.starting what).spawned w.driver.pty.isSome).held = w.driver.held := by
      simp [Driver.held, Driver.spawned, Driver.starting, ChildIo.spawned, ChildIo.held, hchild]
    refine ⟨by simp [Driver.spawned], by simp [Driver.spawned], fun _ => ?_, ?_, fun _ => ?_⟩
    · rw [haccepted, hcredited]
      exact hwindow
    · rw [haccepted, hcredited, hheld]
      exact heq.le
    · rw [haccepted, hcredited, hheld]
      exact heq
  | failed =>
    have hheld : (w.driver.starting what).spawnFailed.held = w.driver.held := rfl
    refine ⟨by simp [Driver.spawnFailed], by simp [Driver.spawnFailed], fun _ => ?_, ?_,
      fun _ => ?_⟩
    · rw [haccepted, hcredited]
      exact hwindow
    · rw [haccepted, hcredited, hheld]
      exact heq.le
    · rw [haccepted, hcredited, hheld]
      exact heq

theorem Balanced.reacts (h : Balanced w) {p : Bytes} (hreacts : Reacts p w w') : Balanced w' := by
  have hhandled := h.congr (ledger_handled w p)
  cases hreacts with
  | silent tick => exact hhandled.congr rfl
  | answered q tick bytesTx ha => exact hhandled.congr (ledger_sent _ _ _ _)
  | ptyGranted term tick hstate => exact hhandled.congr rfl
  | ptyAnswered term q tick bytesTx ha hmsg hstate =>
    exact hhandled.congr (ledger_sent _ _ _ _)
  -- Before the OPEN nothing was accepted or credited, so the window starts full.
  | opened sender window maxPkt tick bytesTx hmsg hstate hmax hwindow =>
    obtain ⟨hpre, hcredit, haccepted⟩ := h.unopened hstate
    obtain ⟨hchild, hpending⟩ := h.childless (.inl hstate)
    have hle := h.held_le
    have hcredited : creditedBytes w.session.log = 0 := by omega
    have hheld : w.driver.held = 0 := by omega
    have haccepted' := haccepted
    have hcredited' := hcredited
    simp only [← acceptedBytes_handled w p, ← creditedBytes_handled w p] at haccepted' hcredited'
    refine Balanced.congr ?_ (ledger_sent _ tick bytesTx (buildOpenConfirmation sender))
    refine ⟨fun _ => ⟨hchild, hpending⟩, fun hs => absurd hs (by simp [World.mapDriver]),
      fun _ => ?_, ?_, fun _ => ?_⟩
    · change initialWindow + w.driver.creditPending +
        acceptedBytes (w.observe (.handled p)).session.log =
          initialWindow + creditedBytes (w.observe (.handled p)).session.log
      rw [haccepted', hcredited', hcredit]
    · change creditedBytes (w.observe (.handled p)).session.log + w.driver.held ≤
        acceptedBytes (w.observe (.handled p)).session.log
      rw [haccepted', hcredited', hheld]
    · change creditedBytes (w.observe (.handled p)).session.log + w.driver.held =
        acceptedBytes (w.observe (.handled p)).session.log
      rw [haccepted', hcredited', hheld]
  | started what d tick hstate hd =>
    exact h.started hstate hd
      (by simp [World.atTick, World.observe, Session.observe, acceptedLength])
      (by simp [World.atTick, World.observe, Session.observe, creditedLength])
  | startedAnswered what d tick₁ tick bytesTx hstate hd ha =>
    exact h.started hstate hd
      (by simp [World.atTick, World.sent, Session.sent, World.observe, Session.observe,
        acceptedLength])
      (by simp [World.atTick, World.sent, Session.sent, World.observe, Session.observe,
        creditedLength])
  -- Accepted bytes are held until a child takes them.
  | buffered data hmsg hstate heof hwindow hlen hread =>
    refine h.accepts data (fun d => { d with preExecStdin := d.preExecStdin ++ [data] })
      (by simp [World.mapDriver, World.observe, Session.observe, acceptedLength])
      (by simp [World.mapDriver, World.observe, Session.observe, creditedLength])
      rfl ⟨rfl, rfl, rfl⟩ (by rw [hstate]; decide) hwindow (fun _ => rfl) ?_ fun _ => ?_
    · simp [Driver.held]
      omega
    · simp [Driver.held]
      omega
  | stashed data child hmsg hstate heof hchild hwindow hlen hread =>
    have hpending : ((some (w.driver.pendingStdin.getD [] ++ data)).map List.length).getD 0 =
        (w.driver.pendingStdin.map List.length).getD 0 + data.length := by
      cases w.driver.pendingStdin <;> simp
    refine h.accepts data
      (fun d => { d with pendingStdin := some (d.pendingStdin.getD [] ++ data) })
      (by simp [World.mapDriver, World.observe, Session.observe, acceptedLength])
      (by simp [World.mapDriver, World.observe, Session.observe, creditedLength])
      rfl ⟨rfl, rfl, rfl⟩ hstate.1 hwindow (fun hidle => absurd hidle hstate.2.1) ?_ fun _ => ?_
    · simp only [Driver.held, hpending]
      omega
    · simp only [Driver.held, hpending]
      omega
  -- No child takes these bytes: they are accepted, and nobody holds them.
  | unsunk data hmsg hstate heof hchild hwindow hlen hread =>
    refine h.accepts data (fun d => d)
      (by simp [World.mapDriver, World.observe, Session.observe, acceptedLength])
      (by simp [World.mapDriver, World.observe, Session.observe, creditedLength])
      rfl ⟨rfl, rfl, rfl⟩ hstate.1 hwindow (fun _ => rfl) (by omega) fun hsinks => ?_
    obtain hidle | ⟨c, hc, -⟩ := hsinks
    · exact absurd hidle hstate.2.1
    · simp [hchild] at hc
  | adjusted add hmsg hstate hadd => exact hhandled.congr rfl
  | eof hmsg hstate => exact hhandled.congr rfl
  | closed hmsg hstate =>
    refine hhandled.moves ?_ (by simp [World.mapDriver]) rfl
    change w.driver.state ≠ _ ∧ w.driver.state ≠ _
    rw [hstate]
    decide
  | closedEarly hmsg hstate =>
    have hheld : w.driver.closedEarly.held = w.driver.held := by
      simp only [Driver.held, Driver.closedEarly, Option.map_map]
      cases w.driver.child <;> rfl
    refine ⟨by simp [World.mapDriver, Driver.closedEarly],
      by simp [World.mapDriver, Driver.closedEarly], fun _ => hhandled.window hstate.1, ?_,
      fun hs => ?_⟩
    · change creditedBytes _ + w.driver.closedEarly.held ≤ acceptedBytes _
      rw [hheld]
      exact hhandled.held_le
    · -- An early close shuts the child's stdin.
      obtain hidle | ⟨c, hc, hopen, -⟩ := hs
      · simp [World.mapDriver, Driver.closedEarly] at hidle
      · simp only [World.mapDriver, World.observe, Driver.closedEarly, Option.map_eq_some_iff] at hc
        obtain ⟨child, -, rfl⟩ := hc
        simp [ChildIo.closeStdin, ChildIo.discardOutput, ChildIo.kill] at hopen

theorem Balanced.reactsAll (h : Balanced w) {ps : List Bytes} (hreacts : ReactsAll ps w w') :
    Balanced w' := by
  induction hreacts with
  | nil => exact h
  | cons hone _ ih => exact ih (h.reacts hone)

theorem Balanced.takesPacket (h : Balanced w) {p : Bytes} (htakes : TakesPacket env p w w') :
    Balanced w' := by
  have harrived := h.congr (ledger_arrived w p)
  cases htakes with
  | handled hwhen hreacts => exact harrived.reacts hreacts
  | deferred iS hphase hmsg hinline hroom => exact harrived.congr rfl
  | rekeying hrekeys =>
    exact harrived.congr (Rekeys.ledger_eq (w := w.arrived p) hrekeys)
  | rekeyed hrekeys hdrained =>
    refine Balanced.reactsAll ?_ hdrained
    exact harrived.congr (Rekeys.ledger_eq (w := w.arrived p) hrekeys)

theorem mayEmitOutput_live {st : ChannelState} (h : st.mayEmitOutput = true) :
    st ≠ .beforeOpen ∧ st ≠ .idle := by
  cases st <;> simp_all [ChannelState.mayEmitOutput]

theorem Balanced.occurs (h : Balanced w) {event : Event} (hoccurs : Occurs event w w') :
    Balanced w' := by
  cases hoccurs with
  | chunk kind data hearly hnone hstate hended => exact h.congr (ledger_observe w _ rfl rfl)
  | unsent kind data hearly => exact h
  | exited exit hstate hended =>
    refine h.moves (mayEmitOutput_live hstate) ?_ rfl
    simp only [World.mapDriver]
    split
    · simp
    · exact mayEmitOutput_live hstate
  | ended hstate hchild =>
    obtain ⟨child, hchild⟩ := Option.isSome_iff_exists.1 hchild
    have hheld : (w.mapDriver fun d => { d with
        childOutClosed := true
        child := d.child.map fun c : ChildIo => { c with outEnded := true } }).driver.held =
        w.driver.held := by
      simp only [World.mapDriver, Driver.held, hchild, Option.map_some]
      rfl
    refine h.of_child hchild rfl rfl rfl rfl rfl hheld.le fun hs => ⟨?_, hheld⟩
    obtain hidle | ⟨c, hc, hopen⟩ := hs
    · exact absurd hidle (h.state_of_child hchild).2
    · simp only [World.mapDriver, hchild, Option.map_some, Option.some.injEq] at hc
      exact .inr ⟨child, hchild, by rw [← hc] at hopen; exact hopen⟩
  -- A credit moves bytes from the held ones to the pending credit; the sums are not cut off.
  | credit child n rest hchild hconsumed =>
    obtain ⟨hopened, hbusy⟩ := h.state_of_child hchild
    have hheld : w.driver.held = n + ((w.observe (.credited n)).mapDriver fun d => { d with
        creditPending := saturatingAdd u32Max d.creditPending n
        bytesReceived := saturatingAdd u64Max d.bytesReceived n
        child := some { child with consumed := rest } }).driver.held := by
      simp only [World.observe, World.mapDriver, Driver.held, ChildIo.held, hchild, hconsumed,
        Option.map_some, Option.getD_some, List.sum_cons]
      omega
    have hle := h.window_le hopened
    have hsat : saturatingAdd u32Max w.driver.creditPending n = w.driver.creditPending + n :=
      saturatingAdd_of_le (by simp only [u32Max, initialWindow] at *; omega)
    have hwindow := h.window hopened
    have hheld_le := h.held_le
    have hlog : acceptedBytes (w.observe (.credited n)).session.log =
        acceptedBytes w.session.log := by
      simp [World.observe, Session.observe, acceptedLength]
    have hlog' : creditedBytes (w.observe (.credited n)).session.log =
        creditedBytes w.session.log + n := by
      simp [World.observe, Session.observe, creditedLength]
    refine ⟨fun hs => absurd hs (not_or.2 ⟨hopened, hbusy⟩), fun hs => absurd hs hopened,
      fun _ => ?_, ?_, fun hs => ?_⟩
    · change w.driver.inWindow + saturatingAdd u32Max w.driver.creditPending n +
        acceptedBytes (w.observe (.credited n)).session.log =
          initialWindow + creditedBytes (w.observe (.credited n)).session.log
      omega
    · change creditedBytes (w.observe (.credited n)).session.log + _ ≤
        acceptedBytes (w.observe (.credited n)).session.log
      omega
    · have heq : w.driver.Sinks := by
        obtain hidle | ⟨c, hc, hopen⟩ := hs
        · exact absurd hidle hbusy
        · simp only [World.mapDriver, Option.some.injEq] at hc
          exact .inr ⟨child, hchild, by rw [← hc] at hopen; exact hopen⟩
      have heq := h.held_eq heq
      change creditedBytes (w.observe (.credited n)).session.log + _ =
        acceptedBytes (w.observe (.credited n)).session.log
      omega
  | creditsEnded child hchild hconsumed hpump => exact h.congr rfl
  | woken => exact h

theorem Balanced.pumped (h : Balanced w) {child child' : ChildIo} {step : PumpStep}
    (hchild : w.driver.child = some child) (hpump : child.pump step = some child') :
    Balanced (w.mapDriver fun d => { d with child := some child' }) := by
  have hsinks : ∀ c : ChildIo, c.stdinOpen = child.stdinOpen → c.pumpAlive = child.pumpAlive →
      (w.mapDriver fun d => { d with child := some c }).driver.Sinks → w.driver.Sinks := by
    intro c hopen halive hs
    obtain hidle | ⟨c', hc, hs⟩ := hs
    · exact .inl hidle
    · simp only [World.mapDriver, Option.some.injEq] at hc
      subst hc
      exact .inr ⟨child, hchild, by rw [← hopen, ← halive]; exact hs⟩
  cases step with
  | take =>
    simp only [ChildIo.pump] at hpump
    split at hpump
    next chunk queue hqueue =>
      simp only [Option.ite_none_right_eq_some, Option.some.injEq] at hpump
      obtain ⟨⟨halive, hwriting⟩, rfl⟩ := hpump
      have hheld : (w.mapDriver fun d => { d with
          child := some { child with queue, writing := chunk } }).driver.held = w.driver.held := by
        simp only [World.mapDriver, Driver.held, ChildIo.held, hchild, hqueue, hwriting,
          Option.map_some, Option.getD_some, List.map_cons, List.sum_cons, List.length_nil]
        omega
      exact h.of_child hchild rfl rfl rfl rfl rfl hheld.le fun hs =>
        ⟨hsinks { child with queue, writing := chunk } rfl rfl hs, hheld⟩
    next => cases hpump
  | write n =>
    simp only [ChildIo.pump, Option.ite_none_right_eq_some, Option.some.injEq] at hpump
    obtain ⟨⟨halive, hn⟩, rfl⟩ := hpump
    have hheld : (w.mapDriver fun d => { d with child := some { child with
        writing := child.writing.drop n, consumed := child.consumed ++ [n] } }).driver.held =
        w.driver.held := by
      simp only [World.mapDriver, Driver.held, ChildIo.held, hchild, Option.map_some,
        Option.getD_some, List.length_drop, List.sum_append, List.sum_cons, List.sum_nil]
      omega
    exact h.of_child hchild rfl rfl rfl rfl rfl hheld.le fun hs => ⟨hsinks { child with
      writing := child.writing.drop n, consumed := child.consumed ++ [n] } rfl rfl hs, hheld⟩
  | stop =>
    simp only [ChildIo.pump, Option.ite_none_right_eq_some, Option.some.injEq] at hpump
    obtain ⟨halive, rfl⟩ := hpump
    refine h.of_child hchild rfl rfl rfl rfl rfl ?_ fun hs => ?_
    · simp only [World.mapDriver, Driver.held, ChildIo.held, hchild, Option.map_some,
        Option.getD_some, List.map_nil, List.sum_nil, List.length_nil]
      omega
    · -- A pump that ended takes nothing any more.
      obtain hidle | ⟨c, hc, -, hc'⟩ := hs
      · exact absurd hidle (h.state_of_child hchild).2
      · simp only [World.mapDriver, Option.some.injEq] at hc
        simp [← hc] at hc'

theorem readyToClose_live {d : Driver} (h : d.readyToClose = true) :
    d.state ≠ .beforeOpen ∧ d.state ≠ .idle := by
  simp only [Driver.readyToClose, Bool.and_eq_true, decide_eq_true_eq] at h
  rw [h.1.1]
  decide

theorem Balanced.settles (h : Balanced w) {finished : Bool} (hsettles : Settles w finished w')
    (hgoing : finished = false) : Balanced w' := by
  cases hsettles with
  | busy hactive => exact h
  | rekeyed cookie tick bytesTx started trigger hidle hcredits hstate =>
    refine (h.credits hcredits).congr ?_
    simp [World.ledger, Session.begun, Session.sent, acceptedLength, creditedLength]
  | closes tick now hidle hcredits hdue hcloses =>
    have hcredited := (h.credits hcredits).congr (ledger_atTick _ tick)
    cases hcloses with
    | waiting hready hstate => exact hcredited
    | finished hready hstate => cases hgoing
    | half hready hearly hsent =>
      exact (hcredited.congr hsent.ledger_eq).moves
        (hsent.driver_eq ▸ readyToClose_live hready) (by simp [World.mapDriver]) rfl
    | early hready hearly hsent => cases hgoing

theorem Balanced.turn {c c' : Config} {input : Input} (hturn : Turn env c input c')
    (h : c.live → Balanced c.world) (hlive : c'.live) : Balanced c'.world := by
  cases hturn with
  | flushed hidle hrun => exact (h (by simp [Config.live])).congr (FlushOnes.ledger_eq hrun)
  | unflushed hactive => exact h (by simp [Config.live])
  | handedOff hoff => exact (h (by simp [Config.live])).handsOff hoff
  | settled hsettles =>
    rename_i finished
    cases finished with
    | true => exact absurd rfl (hlive _)
    | false => exact (h (by simp [Config.live])).settles hsettles rfl
  | packet p htakes => exact (h (by simp [Config.live])).takesPacket htakes
  | occurred event hoccurs => exact (h (by simp [Config.live])).occurs hoccurs
  | pumped child child' step hpc hchild hpump => exact (h hpc).pumped hchild hpump
  | flushFailed e hidle hfails => exact absurd rfl (hlive _)
  | settleFailed e hfails => exact absurd rfl (hlive _)
  | packetFailed p e hfails => exact absurd rfl (hlive _)
  | readFailed error => exact absurd rfl (hlive _)
  | timedOut hactive hleft => exact absurd rfl (hlive _)

theorem balanced_start (h : Handshake) : Balanced (Config.start h).world := by
  have hlog : acceptedBytes (h.frames.map Obs.sealed) = 0 ∧
      creditedBytes (h.frames.map Obs.sealed) = 0 := by
    induction h.frames with
    | nil => exact ⟨rfl, rfl⟩
    | cons f fs ih => simpa [acceptedLength, creditedLength] using ih
  refine ⟨fun _ => ⟨rfl, rfl⟩, fun _ => ⟨rfl, rfl, hlog.1⟩, fun hs => absurd rfl hs, ?_,
    fun hs => ?_⟩
  · change creditedBytes (h.frames.map Obs.sealed) + 0 ≤ acceptedBytes (h.frames.map Obs.sealed)
    rw [hlog.1, hlog.2]
  · change creditedBytes (h.frames.map Obs.sealed) + 0 = acceptedBytes (h.frames.map Obs.sealed)
    rw [hlog.1, hlog.2]

/-- The accounts balance in every state the driver reaches. -/
theorem balanced_of_run {h : Handshake} {inputs : List Input} {c : Config}
    (hrun : Config.runs env h inputs = some c) (hlive : c.live) : Balanced c.world :=
  invariant_run (P := fun c => c.live → Balanced c.world)
    (fun _ _ _ hinv hstep => Balanced.turn (step_turn hstep) hinv)
    (fun _ => balanced_start h) hrun hlive

/-! ### Data beyond the window -/

/-- The packet is CHANNEL_DATA for more than `n` bytes, or cannot even be read. -/
def Overfills (p : Bytes) (n : ℕ) : Prop :=
  ∃ r, p = sshMsgChannelData :: r ∧
    ∀ recipient data rest, readChannelData.run r = .ok ((recipient, data), rest) → n < data.length

/-- Whether the packet to come is a wrong guess, where a hybrid init is awaited. -/
def skipsGuess : RekeyPhase → Option Bool
  | .awaitHybridInit _ _ _ skip => some skip
  | _ => none

theorem exists_of_skipsGuess {phase : RekeyPhase} {skip : Bool} (h : skipsGuess phase = some skip) :
    ∃ iC iS n, phase = .awaitHybridInit iC iS n skip := by
  cases phase with
  | awaitHybridInit iC iS n skip' =>
    obtain rfl : skip' = skip := Option.some.inj h
    exact ⟨iC, iS, n, rfl⟩
  | _ => cases h

/-- The peer announced a guessed KEX packet, and guessed wrong. -/
def AwaitsGuess (s : Session) : Prop :=
  ∃ iC iS n, s.rekey.phase = .awaitHybridInit iC iS n true

/-- The packet ends the connection and none of it is accepted. -/
def Config.RefusedBy (env : Env) (p : Bytes) (c : Config) : Prop :=
  ∃ w e, c.step env (.event (.packet p)) = some ⟨w, .done (.error e)⟩ ∧
    acceptedBytes w.session.log = acceptedBytes c.world.session.log

theorem Left.acceptedBytes_eq {s s' : Session} {P : Bytes → Prop} (h : s.Left P s') :
    acceptedBytes s'.log = acceptedBytes s.log := by
  obtain h | ⟨q, -, h⟩ := h
  · rw [h]
  · rw [h]
    simp [acceptedLength]

theorem RekeyFails.acceptedBytes_eq {s s' : Session} {p : Bytes} (h : RekeyFails p s s') :
    acceptedBytes s'.log = acceptedBytes s.log := by
  have hsent : ∀ tick bytesTx q, acceptedBytes (s.sent tick bytesTx q).log =
      acceptedBytes s.log := by
    intro tick bytesTx q
    simp [Session.sent, acceptedLength]
  cases h with
  | refused hleft => exact Left.acceptedBytes_eq hleft
  | opening cookie hphase hmsg hleft => exact Left.acceptedBytes_eq hleft
  | openedRefused cookie tick bytesTx hphase hmsg hleft =>
    exact (Left.acceptedBytes_eq hleft).trans (hsent _ _ _)
  | replying q iC iS n hphase hq hleft => exact Left.acceptedBytes_eq hleft
  | finishing q iC iS n tick bytesTx hphase hq hleft =>
    exact (Left.acceptedBytes_eq hleft).trans (hsent _ _ _)

theorem acceptedBytes_emitFinished (w : World) :
    acceptedBytes w.emitFinished.session.log = acceptedBytes w.session.log := by
  unfold World.emitFinished
  split
  · simp [World.observe, Session.observe, acceptedLength]
  · rfl

theorem refuse_accepts_nothing {reason : Reason} {w₁ : World}
    (h : acceptedBytes w₁.session.log = acceptedBytes w.session.log) :
    (refuse env reason : DriverProg Unit).Ensures w₁ (fun _ _ => False)
      fun _ w' => acceptedBytes w'.session.log = acceptedBytes w.session.log :=
  refuse_ensures fun _ _ hleft => (Left.acceptedBytes_eq hleft).trans h

theorem handleInbound_overfills {p : Bytes} (hover : Overfills p w.driver.inWindow)
    (hstate : w.driver.state ≠ .serverClosed) :
    (handleInbound env p).Ensures w (fun _ _ => False)
      fun _ w' => acceptedBytes w'.session.log = acceptedBytes w.session.log := by
  obtain ⟨r, rfl, hover⟩ := hover
  have hlog : acceptedBytes (w.observe (.handled (sshMsgChannelData :: r))).session.log =
      acceptedBytes w.session.log := by
    simp [World.observe, Session.observe, acceptedLength]
  simp only [handleInbound, dispatch, ensures_bind, note_ensures, ensures_look]
  rw [if_neg (by decide)]
  refine ensures_ite (fun _ => refuse_accepts_nothing hlog) fun _ => ?_
  rw [if_neg (by decide), if_pos trivial]
  unfold onChannelData
  split
  next recipient data rest hread =>
    simp only [ensures_bind, ensures_look]
    refine ensures_ite (fun _ => refuse_accepts_nothing hlog) fun _ => ?_
    rw [if_neg (by simpa using hstate)]
    refine ensures_ite (fun _ => refuse_accepts_nothing hlog) fun _ => ?_
    rw [if_pos (by simpa using hover recipient data rest hread)]
    exact refuse_accepts_nothing hlog
  next => exact refuse_accepts_nothing hlog

/-- Data beyond the window ends the connection, unless it is dropped as a guess. -/
theorem onPacket_overfills {p : Bytes} (hover : Overfills p w.driver.inWindow)
    (hstate : w.driver.state ≠ .serverClosed) (hguess : ¬AwaitsGuess w.session) :
    (onPacket env p).Ensures w (fun _ _ => False)
      fun _ w' => acceptedBytes w'.session.log = acceptedBytes w.session.log := by
  have hhead : p.head? = some sshMsgChannelData := by
    obtain ⟨r, rfl, -⟩ := hover
    rfl
  have hlog : acceptedBytes (w.arrived p).session.log = acceptedBytes w.session.log := by
    simp [World.arrived, Session.observe, Session.receive, acceptedLength]
  have hhandle : (handleInbound env p).Ensures (w.arrived p) (fun _ _ => False)
      fun _ w' => acceptedBytes w'.session.log = acceptedBytes w.session.log :=
    (@handleInbound_overfills env (w.arrived p) p hover hstate).mono (fun _ _ h => h)
      fun _ _ h => h.trans hlog
  have harrived : World.observe { w with session := w.session.receive p } (.received p) =
      w.arrived p := rfl
  have hphase : (w.arrived p).session.rekey.phase = w.session.rekey.phase := rfl
  simp only [onPacket, ensures_bind, ensures_update, note_ensures, ensures_look, harrived]
  split
  next =>
    simp only [ensures_bind, onSession, ensures_zoom]
    refine stepRekey_ensures (fun step s h => ?_) fun e s h => ?_
    · cases h with
      | opened cookie n tick bytesTx started hphase hmsg hn =>
        rw [hhead] at hmsg
        exact absurd hmsg (by decide)
      | answered iS n tick hphase hmsg hn =>
        rw [hhead] at hmsg
        exact absurd hmsg (by decide)
      | passed iS hphase hmsg =>
        simp only [passToChannel]
        rw [if_pos (by simp [isInline, hhead])]
        exact hhandle
      | skipped iC iS n hskips => exact absurd ⟨iC, iS, n, hphase ▸ hskips⟩ hguess
      | replied iC iS n tick₁ tick bytesTx₁ bytesTx r hphase hmsg =>
        rw [hhead] at hmsg
        exact absurd hmsg (by decide)
      | completed newRx tick now hphase hmsg =>
        rw [hmsg] at hhead
        exact absurd hhead (by decide)
    · exact (RekeyFails.acceptedBytes_eq h).trans hlog
  next =>
    split
    next hmsg =>
      rw [hhead] at hmsg
      exact absurd hmsg (by decide)
    next => exact hhandle

/-- A packet in the place of a guess is dropped. -/
theorem onPacket_guess {p : Bytes} (hguess : AwaitsGuess w.session) :
    (onPacket env p).Ensures w (fun _ _ => True) fun _ _ => False := by
  obtain ⟨iC, iS, n, hphase⟩ := hguess
  have hactive : (w.arrived p).session.rekeyActive = true := by
    simp [Session.rekeyActive, World.arrived, Session.observe, Session.receive, hphase]
  have hphase' : (w.arrived p).session.rekey.phase = .awaitHybridInit iC iS n true := hphase
  have harrived : World.observe { w with session := w.session.receive p } (.received p) =
      w.arrived p := rfl
  simp only [onPacket, ensures_bind, ensures_update, note_ensures, ensures_look, harrived]
  rw [if_pos hactive]
  simp only [ensures_bind, onSession, ensures_zoom, stepRekey, ensures_look, ensures_update, hphase']
  trivial

theorem step_packet_resume {p : Bytes} :
    Config.step env ⟨w, .waiting⟩ (.event (.packet p)) =
      some (resume (onPacket env p) w fun _ w' => ⟨w', .flush⟩) := rfl

/-- Which data beyond the window ends the connection. -/
theorem refusedBy_iff {p : Bytes} (hover : Overfills p w.driver.inWindow)
    (hstate : w.driver.state ≠ .serverClosed) :
    Config.RefusedBy env p ⟨w, .waiting⟩ ↔ ¬AwaitsGuess w.session := by
  constructor
  · rintro ⟨w', e, hstep, -⟩ hguess
    rw [step_packet_resume, Option.some.injEq] at hstep
    have hgoes : (resume (onPacket env p) w fun _ w' => ⟨w', .flush⟩).pc = .flush :=
      resume_cases (Q := fun c => c.pc = .flush) (onPacket_guess hguess) (fun _ _ _ => rfl)
        fun _ _ h => h.elim
    rw [hstep] at hgoes
    cases hgoes
  · intro hguess
    rw [Config.RefusedBy, step_packet_resume]
    refine resume_cases (Q := fun c => ∃ w' e, some c = some ⟨w', .done (.error e)⟩ ∧
      acceptedBytes w'.session.log = acceptedBytes w.session.log)
      (onPacket_overfills hover hstate hguess) (fun _ _ h => h.elim) fun e w' h => ?_
    exact ⟨_, e, rfl, (acceptedBytes_emitFinished w').trans h⟩

/-- Nothing is taken from the packet: no byte is accepted, and while `drive` goes
on the accounts stay as they are. -/
def Config.Ignores (env : Env) (p : Bytes) (c : Config) : Prop :=
  ∀ c', c.step env (.event (.packet p)) = some c' →
    acceptedBytes c'.world.session.log = acceptedBytes c.world.session.log ∧
      (c'.live → c'.world.ledger = c.world.ledger)

theorem Reacts.ledger_eq_of_serverClosed {p : Bytes} (h : Reacts p w w')
    (hmsg : p.head? = some sshMsgChannelData) (hstate : w.driver.state = .serverClosed) :
    w'.ledger = w.ledger := by
  have hhandled := ledger_observe w (.handled p) rfl rfl
  have hanswer : ∀ {q : Bytes}, ¬Answers w p q := by
    intro q ha
    cases ha with
    | globalRequest hmsg' => exact absurd (hmsg.symm.trans hmsg') (by decide)
    | channelOpen sender code desc hmsg' => exact absurd (hmsg.symm.trans hmsg') (by decide)
    | channelRequest msg hmsg' => exact absurd (hmsg.symm.trans hmsg') (by decide)
  cases h with
  | silent tick => exact hhandled
  | answered q tick bytesTx ha => exact absurd ha hanswer
  | ptyGranted term tick hidle => exact absurd (hstate.symm.trans hidle) (by decide)
  | ptyAnswered term q tick bytesTx ha hmsg' hidle => exact absurd ha hanswer
  | opened sender window maxPkt tick bytesTx hmsg' =>
    exact absurd (hmsg.symm.trans hmsg') (by decide)
  | started what d tick hidle hd => exact absurd (hstate.symm.trans hidle) (by decide)
  | startedAnswered what d tick₁ tick bytesTx hidle hd ha => exact absurd ha hanswer
  | buffered data hmsg' hidle => exact absurd (hstate.symm.trans hidle) (by decide)
  | stashed data child hmsg' hlive => exact absurd hstate hlive.2.2
  | unsunk data hmsg' hlive => exact absurd hstate hlive.2.2
  | adjusted add hmsg' => exact absurd (hmsg.symm.trans hmsg') (by decide)
  | eof hmsg' => exact absurd (hmsg.symm.trans hmsg') (by decide)
  | closed hmsg' => exact absurd (hmsg.symm.trans hmsg') (by decide)
  | closedEarly hmsg' => exact absurd (hmsg.symm.trans hmsg') (by decide)

/-- Channel data after the server's CLOSE is not counted. -/
theorem ignores_of_serverClosed {p : Bytes} (hmsg : p.head? = some sshMsgChannelData)
    (hstate : w.driver.state = .serverClosed) : Config.Ignores env p ⟨w, .waiting⟩ := by
  intro c' hstep
  have harrived : acceptedBytes (w.arrived p).session.log = acceptedBytes w.session.log :=
    congrArg Ledger.accepted (ledger_arrived w p)
  have hpending : ∀ {s : Session}, ¬Rekeys env p (w.arrived p).session .completed s := by
    intro s h
    cases h with
    | completed newRx tick now hphase hp =>
      rw [hp] at hmsg
      exact absurd hmsg (by decide)
  cases step_turn hstep with
  | packet _ htakes =>
    refine (fun hledger => ⟨congrArg Ledger.accepted hledger, fun _ => hledger⟩) ?_
    cases htakes with
    | handled hwhen hreacts =>
      exact (hreacts.ledger_eq_of_serverClosed hmsg hstate).trans (ledger_arrived w p)
    | deferred iS hphase hmsg' hinline hroom => simp [isInline, hmsg] at hinline
    | rekeying hrekeys =>
      exact (Rekeys.ledger_eq (w := w.arrived p) hrekeys).trans (ledger_arrived w p)
    | rekeyed hrekeys hdrained => exact absurd hrekeys hpending
  | packetFailed _ e hfails =>
    refine ⟨(acceptedBytes_emitFinished _).trans ?_, fun hlive => absurd rfl (hlive _)⟩
    cases hfails with
    | handled hwhen hfails =>
      cases hfails with
      | handled hleft =>
        exact (Left.acceptedBytes_eq hleft).trans
          ((congrArg Ledger.accepted (ledger_observe _ _ rfl rfl)).trans harrived)
      | started hidle hleft => exact absurd (hstate.symm.trans hidle) (by decide)
    | overflow hleft => exact (Left.acceptedBytes_eq hleft).trans harrived
    | rekeying hfails => exact (RekeyFails.acceptedBytes_eq hfails).trans harrived
    | draining hrekeys hfails => exact absurd hrekeys hpending
  | occurred event hoccurs => cases hoccurs

/-! ### Conservation -/

/-- The conservation of the window in one state, and what follows from it. -/
structure Conserves (w : World) : Prop where
  credited_le : creditedBytes w.session.log ≤ acceptedBytes w.session.log
  window : w.driver.inWindow + w.driver.creditPending +
    (acceptedBytes w.session.log - creditedBytes w.session.log) = initialWindow
  /-- What is out is held somewhere, or was discarded. -/
  held_le : w.driver.held ≤ acceptedBytes w.session.log - creditedBytes w.session.log
  /-- Nothing is discarded while something takes it. -/
  held_eq : w.driver.Sinks →
    w.driver.held = acceptedBytes w.session.log - creditedBytes w.session.log
  grant_le : w.driver.inWindow ≤ initialWindow
  returns : saturatingAdd u32Max w.driver.inWindow w.driver.creditPending =
    w.driver.inWindow + w.driver.creditPending
  credits : ∀ child n rest, w.driver.child = some child → child.consumed = n :: rest →
    saturatingAdd u32Max w.driver.creditPending n = w.driver.creditPending + n

theorem Balanced.conserves (h : Balanced w) (hopened : w.driver.state ≠ .beforeOpen) :
    Conserves w := by
  have hwindow := h.window hopened
  have hheld := h.held_le
  have hle := h.window_le hopened
  refine ⟨by omega, by omega, by omega, fun hsinks => ?_, by omega, ?_, ?_⟩
  · have heq := h.held_eq hsinks
    omega
  · exact saturatingAdd_of_le (by simp only [u32Max, initialWindow] at *; omega)
  · intro child n rest hchild hconsumed
    have hn : n ≤ w.driver.held := by
      simp only [Driver.held, ChildIo.held, hchild, hconsumed, Option.map_some, Option.getD_some,
        List.sum_cons]
      omega
    exact saturatingAdd_of_le (by simp only [u32Max, initialWindow] at *; omega)

/-- The window is conserved in every state after the channel was opened. Data
beyond it ends the connection exactly when the peer's last KEXINIT does not make
the server drop the next packet; data after the server's CLOSE is ignored. -/
theorem window_conserved {env : Env} {h : Handshake} {inputs : List Input} {c : Config}
    (hrun : Config.runs env h inputs = some c) (hlive : c.live)
    (hopened : c.world.driver.state ≠ .beforeOpen) :
    Conserves c.world ∧ (c.pc = .waiting → c.world.driver.state ≠ .closed ∧ ∀ p,
      (c.world.driver.state ≠ .serverClosed → Overfills p c.world.driver.inWindow →
        (c.RefusedBy env p ↔ ¬AwaitsGuess c.world.session)) ∧
      (c.world.driver.state = .serverClosed → p.head? = some sshMsgChannelData →
        c.Ignores env p)) := by
  refine ⟨(balanced_of_run hrun hlive).conserves hopened, fun hpc => ⟨fun hclosed => ?_, ?_⟩⟩
  · exact (closedLeaves_of_run hrun hlive hclosed).2 hpc
  · obtain ⟨w, pc⟩ := c
    obtain rfl : pc = .waiting := hpc
    intro p
    exact ⟨fun hstate hover => refusedBy_iff hover hstate,
      fun hstate hmsg => ignores_of_serverClosed hmsg hstate⟩

/-- A client fills the window before it asks for a child: `n` packets are in. -/
structure Filling (n : ℕ) (c : Config) : Prop where
  pc : c.pc = .flush
  resting : Resting c.world
  child : c.world.driver.child = none
  state : c.world.driver.state = .idle
  eof : c.world.driver.clientEof = false
  window : c.world.driver.inWindow = initialWindow - maxPacket * n
  thresholds : c.world.session.rekey.thresholds = RekeyThresholds.bsiDefaults (30 * 1000000000)
  bytesRx : c.world.session.rekey.bytesRx ≤ 40000 * (n + 1)
  bytesTx : c.world.session.rekey.bytesTx ≤ 40000
  seqRx : c.world.session.seqRx ≤ 4 + n
  seqTx : c.world.session.seqTx ≤ 1

theorem length_channelData (data : Bytes) : (channelData data).length = data.length + 9 := by
  simp [channelData, buildDataFrame, putUint32, putString]

theorem head_channelData (data : Bytes) : (channelData data).head? = some sshMsgChannelData := rfl

theorem Filling.next {n : ℕ} {data : Bytes} (hlen : data.length = maxPacket) (hn : n < 64)
    {c : Config} (h : Filling n c) :
    ∃ c', run (Config.step plainEnv) c (packetTurn (channelData data)) = some c' ∧
      Filling (n + 1) c' := by
  obtain ⟨w, pc⟩ := c
  obtain ⟨rfl, hrest, hchild, hstate, heof, hwindow, hthresholds, hrx, htx, hseqRx, hseqTx⟩ := h
  simp only at hrest hchild hstate heof hwindow hthresholds hrx htx hseqRx hseqTx
  have hdue : w.session.rekeyDue (plainEnv.now w.session.tick) = false := by
    apply rekeyDue_eq_false
    all_goals simp only [hthresholds, RekeyThresholds.bsiDefaults, plainEnv]
    all_goals omega
  have hfits : data.length ≤ w.driver.inWindow := by
    rw [hlen, hwindow]
    simp only [maxPacket, initialWindow]
    omega
  have hrx' := saturatingAdd_le u64Max w.session.rekey.bytesRx (channelData data).length
  have hseqRx' := wrappingAdd_le 32 w.session.seqRx 1
  have hlength := length_channelData data
  refine ⟨_, turn_packet hrest (.inl hdue) (by simp [head_channelData, sshMsgChannelData,
    sshMsgKexinit]) (handle_channelData hstate heof hfits hlen.le), ?_⟩
  refine ⟨rfl, ?_, hchild, hstate, heof, ?_, hthresholds, ?_, htx, ?_, hseqTx⟩
  · exact ⟨hrest.phase, hrest.pendingOut, .inl hchild, hrest.credit, hrest.notReady, hrest.notClosed⟩
  · change w.driver.inWindow - data.length = _
    rw [hlen, hwindow]
    simp only [maxPacket, initialWindow]
    omega
  · change saturatingAdd u64Max w.session.rekey.bytesRx (channelData data).length ≤ _
    simp only [maxPacket] at hlen
    omega
  · change wrappingAdd 32 w.session.seqRx 1 ≤ _
    omega

theorem filling_opened : ∃ c, Config.runs plainEnv plainHandshake
    (packetTurn (openSession 7 maxPacket maxPacket)) = some c ∧ Filling 0 c := by
  refine ⟨_, turn_packet ⟨rfl, rfl, .inl rfl, by decide, rfl, by decide⟩ (.inr rfl) (by decide)
    (handle_openSession willing_plainEnv rfl (by decide) (by decide) (by decide) (by decide)), ?_⟩
  refine ⟨rfl, ⟨rfl, rfl, .inl rfl, by decide, rfl, by decide⟩, rfl, rfl, rfl, ?_, rfl, ?_, ?_, ?_, ?_⟩
  · change initialWindow = initialWindow - maxPacket * 0
    rw [Nat.mul_zero, Nat.sub_zero]
  · change saturatingAdd u64Max 0 (openSession 7 maxPacket maxPacket).length ≤ _
    exact le_trans (saturatingAdd_le _ _ _) (by decide)
  · change saturatingAdd u64Max 0 (buildOpenConfirmation 7).length ≤ _
    exact le_trans (saturatingAdd_le _ _ _) (by decide)
  · change wrappingAdd 32 2 1 ≤ _
    exact le_trans (wrappingAdd_le _ _ _) (by decide)
  · change wrappingAdd 32 0 1 ≤ _
    exact wrappingAdd_le _ _ _

/-- Opens a channel and fills its window with `data`, over and over. -/
def fillWindow (data : Bytes) : List Input :=
  packetTurn (openSession 7 maxPacket maxPacket) ++
    (List.replicate 64 (packetTurn (channelData data))).flatten

theorem filled {data : Bytes} (hlen : data.length = maxPacket) :
    ∃ c, Config.runs plainEnv plainHandshake (fillWindow data) = some c ∧ Filling 64 c := by
  obtain ⟨c, hrun, hc⟩ := filling_opened
  obtain ⟨c', hrun', hc'⟩ := run_of_cycle (N := 64) (P := Filling)
    (fun n hn c h => Filling.next hlen hn h) hc
  refine ⟨c', ?_, hc'⟩
  unfold Config.runs at hrun ⊢
  rw [fillWindow, run_append, hrun, Option.bind_some, hrun']

theorem overfills_one : Overfills (channelData [0]) 0 := by
  refine ⟨_, rfl, fun recipient data rest hread => ?_⟩
  have hone : readChannelData.run (channelData [0]).tail = .ok ((0, [0]), []) := by
    decide
  have heq := hone.symm.trans hread
  cases heq
  decide

theorem Filling.waits {c : Config} (h : Filling 64 c) :
    ∃ c', run (Config.step plainEnv) c [.phase, .phase, .phase] = some c' ∧ c'.pc = .waiting ∧
      c'.world.session.rekey.phase = .idle ∧ c'.world.driver = c.world.driver := by
  obtain ⟨w, pc⟩ := c
  obtain ⟨rfl, hrest, hchild, hstate, heof, hwindow, hthresholds, hrx, htx, hseqRx, hseqTx⟩ := h
  simp only at hrest hthresholds hrx htx hseqRx hseqTx
  refine ⟨_, turn_resting hrest (.inl ?_), rfl, hrest.phase, rfl⟩
  apply rekeyDue_eq_false
  all_goals simp only [hthresholds, RekeyThresholds.bsiDefaults, plainEnv]
  all_goals omega

/-- The client fills the window and sends one byte more. -/
theorem window_conserved_filled : ∃ c, Config.runs plainEnv plainHandshake
    (fillWindow (List.replicate maxPacket 0) ++ [.phase, .phase, .phase]) = some c ∧
    c.world.driver.inWindow = 0 ∧ Conserves c.world ∧
    c.RefusedBy plainEnv (channelData [0]) := by
  obtain ⟨c₀, hrun₀, hc₀⟩ := filled (List.length_replicate (n := maxPacket) (a := (0 : UInt8)))
  obtain ⟨c, hrun, hpc, hphase, hdriver⟩ := hc₀.waits
  have hruns : Config.runs plainEnv plainHandshake
      (fillWindow (List.replicate maxPacket 0) ++ [.phase, .phase, .phase]) = some c := by
    unfold Config.runs at hrun₀ ⊢
    rw [run_append, hrun₀, Option.bind_some, hrun]
  have hwindow : c.world.driver.inWindow = 0 := by
    rw [hdriver, hc₀.window]
    rfl
  have hstate : c.world.driver.state = .idle := by rw [hdriver, hc₀.state]
  have h := window_conserved hruns (by simp [Config.live, hpc]) (by rw [hstate]; decide)
  refine ⟨c, hruns, hwindow, h.1, (((h.2 hpc).2 _).1 (by rw [hstate]; decide) ?_).2 ?_⟩
  · rw [hwindow]
    exact overfills_one
  · rintro ⟨iC, iS, n, hguess⟩
    rw [hphase] at hguess
    cases hguess

/-- The client fills the window, starts a re-key with a wrong guess and sends one
byte more: the connection goes on. -/
theorem overfilling_guess_dropped : ∃ c, Config.runs plainEnv plainHandshake
    (fillWindow (List.replicate maxPacket 0) ++
      (packetTurn (clientKexinit "curve25519-sha256,mlkem768x25519-sha256" true) ++
        [.phase, .phase, .phase])) = some c ∧
    c.pc = .waiting ∧ c.world.driver.state = .idle ∧
    Overfills (channelData [0]) c.world.driver.inWindow ∧
    ¬c.RefusedBy plainEnv (channelData [0]) := by
  obtain ⟨c₀, hrun₀, hc₀⟩ := filled (List.length_replicate (n := maxPacket) (a := (0 : UInt8)))
  obtain ⟨⟨w₁, pc⟩, hrun₁, hpc, hphase, hdriver⟩ := hc₀.waits
  obtain rfl : pc = .waiting := hpc
  have hn : ∃ n, Negotiates (clientKexinit "curve25519-sha256,mlkem768x25519-sha256" true) n ∧
      n.skipGuessedPacket = true := by
    refine ⟨⟨chacha20Poly1305, chacha20Poly1305, false, true⟩, ?_, rfl⟩
    unfold Negotiates
    decide +kernel
  obtain ⟨n, hn, hskip⟩ := hn
  obtain ⟨s, hstep, hrekeys⟩ := step_kexinit willing_plainEnv hphase rfl hn
  have hguess : AwaitsGuess s := by
    obtain ⟨iS, hs⟩ := Rekeys.awaits_of_idle hrekeys hphase hn
    rw [hskip] at hs
    exact ⟨_, iS, n, hs⟩
  have hbusy := @turn_busy plainEnv { w₁ with session := s }
    (by obtain ⟨iC, iS, n, hs⟩ := hguess; simp [Session.rekeyActive, hs])
    (.inl (by rw [hdriver]; exact hc₀.child))
  have hwindow : w₁.driver.inWindow = 0 := by
    rw [hdriver, hc₀.window]
    rfl
  have hover : Overfills (channelData [0]) w₁.driver.inWindow := by
    rw [hwindow]
    exact overfills_one
  have hstate : w₁.driver.state = .idle := by rw [hdriver, hc₀.state]
  refine ⟨⟨{ w₁ with session := s }, .waiting⟩, ?_, rfl, hstate, hover, fun hrefused => ?_⟩
  · have hsplit : ∀ p, packetTurn p = [.phase, .phase, .phase] ++ [.event (.packet p)] :=
      fun _ => rfl
    unfold Config.runs at hrun₀ ⊢
    rw [run_append, hrun₀, Option.bind_some, run_append, hsplit, run_append, hrun₁,
      Option.bind_some]
    simp only [run, hstep, Option.bind_some] at hbusy ⊢
    exact hbusy
  · exact (refusedBy_iff (w := { w₁ with session := s }) hover (by rw [hstate]; decide)).1
      hrefused hguess

end QuantumSsh.Channel
