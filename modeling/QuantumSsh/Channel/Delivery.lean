import QuantumSsh.Channel.Output
import QuantumSsh.Channel.Terminal

/-!
# From the child to the client

The drive loop and the tasks behind `ChildIo::out_rx` run side by side: the driver
starts the tasks with the child, takes what is in their queue, and aborts the pumps when
the client closes first. What the child writes to its pipes, or its terminal gives the
master, and how it exits is followed through the tasks and the driver to the packets of the
channel.
-/

namespace QuantumSsh.Channel

open Program Transport

/-! ### The tasks -/

/-- The tasks of a child. -/
inductive Tasks where
  | pipes (o : Outlets)
  | terminal (t : Terminal)

inductive TaskEvent where
  | pipes (event : OutletEvent)
  | terminal (event : TerminalEvent)
deriving DecidableEq

namespace Tasks

def start (onPty : Bool) : Tasks := if onPty then .terminal .start else .pipes .start

def outbox : Tasks → Mailbox Sender ChildChunk outQueue
  | .pipes o => o.outbox
  | .terminal t => t.outbox

/-- What `Reaper::run` returned. -/
def status : Tasks → Option ChildExit
  | .pipes o => o.status
  | .terminal t => t.status

/-- What was written to the pipe of a stream; on a terminal, which has but one, what the
reads of the master gave. -/
def source (kind : Stream) : Tasks → Bytes
  | .pipes o => (o.pipes kind).written
  | .terminal t => if kind = .stdout then t.given else []

def discard : Tasks → Tasks
  | .pipes o => .pipes o.discard
  | .terminal t => .terminal t.discard

/-- `out_rx.recv`. -/
def recv : Tasks → Option (Option ChildChunk × Tasks)
  | .pipes o => o.outbox.recv.map fun m => (m.1, .pipes { o with outbox := m.2 })
  | .terminal t => t.outbox.recv.map fun m => (m.1, .terminal { t with outbox := m.2 })

/-- A step that is not the driver's. -/
def step : Tasks → TaskEvent → Option Tasks
  | .pipes o, .pipes event =>
    if event = .received ∨ event = .discarded then none else (o.step event).map .pipes
  | .terminal t, .terminal event =>
    if event = .received ∨ event = .discarded then none else (t.step event).map .terminal
  | _, _ => none

def Sound : Tasks → Prop
  | .pipes o => o.Sound
  | .terminal t => t.Sound

/-- The stream was read to the end that its pump came to: that of the pipe, or one of those
of the master. -/
def Whole (kind : Stream) (data : Bytes) : Tasks → Prop
  | .pipes o => (o.pipes kind).pump = .ended .endOfFile →
      (o.pipes kind).writers = false ∧ data = (o.pipes kind).written
  | .terminal t => kind = .stdout → t.Whole data

variable {x x' : Tasks}

theorem sound_start (onPty : Bool) : (start onPty).Sound := by
  cases onPty with
  | false => exact Channel.sound_start
  | true => exact terminal_start

theorem received_start (onPty : Bool) : (start onPty).outbox.received = [] := by
  cases onPty <;> rfl

theorem Sound.discard (h : x.Sound) : x.discard.Sound := by
  cases x with
  | pipes o => exact Outlets.Sound.discard h
  | terminal t => exact Terminal.Sound.discard h

theorem received_discard (x : Tasks) : x.discard.outbox.received = x.outbox.received := by
  cases x with
  | pipes o =>
    exact @received_of_step o o.discard .discarded rfl (by decide)
  | terminal t => exact Channel.received_discard t

theorem Sound.over_discard (h : x.Sound) (hover : x.outbox.Over) : x.discard.outbox.Over := by
  cases x with
  | pipes o => exact @Outlets.Sound.over_of_step o o.discard h hover .discarded rfl
  | terminal t => exact @Terminal.Sound.over_of_step t t.discard h hover .discarded rfl

/-- What the tasks do on their own. -/
theorem Sound.step (h : x.Sound) {event : TaskEvent} (hstep : x.step event = some x') :
    x'.Sound ∧ x'.outbox.received = x.outbox.received ∧ (x.outbox.Over → x'.outbox.Over) := by
  cases x with
  | pipes o =>
    cases event with
    | terminal event => cases hstep
    | pipes event =>
      simp only [Tasks.step, Option.ite_none_left_eq_some, Option.map_eq_some_iff] at hstep
      obtain ⟨hevent, o', hstep, rfl⟩ := hstep
      exact ⟨Outlets.Sound.step h hstep, received_of_step hstep fun heq => hevent (.inl heq),
        fun hover => Outlets.Sound.over_of_step h hover hstep⟩
  | terminal t =>
    cases event with
    | pipes event => cases hstep
    | terminal event =>
      simp only [Tasks.step, Option.ite_none_left_eq_some, Option.map_eq_some_iff] at hstep
      obtain ⟨hevent, t', hstep, rfl⟩ := hstep
      exact ⟨Terminal.Sound.step h hstep,
        received_of_terminal_step hstep fun heq => hevent (.inl heq),
        fun hover => Terminal.Sound.over_of_step h hover hstep⟩

/-- What the driver takes. -/
theorem Sound.recv (h : x.Sound) {chunk : Option ChildChunk} (hrecv : x.recv = some (chunk, x')) :
    x'.Sound ∧ x'.outbox.received = x.outbox.received ++ chunk.toList ∧
      (x.outbox.Over → x'.outbox.Over) ∧ (chunk = none → x'.outbox.Over) := by
  cases x with
  | pipes o =>
    obtain ⟨⟨y, outbox⟩, hm, heq⟩ := Option.map_eq_some_iff.1 hrecv
    cases heq
    obtain ⟨-, -, -, hreceived, hend⟩ := Mailbox.recv_cases hm
    have hstep : o.step .received = some { o with outbox } := by simp [Outlets.step, hm]
    exact ⟨Outlets.Sound.step h hstep, hreceived, fun hover => hover.recv hm,
      fun hnone => (hend hnone).1.recv hm⟩
  | terminal t =>
    obtain ⟨⟨y, outbox⟩, hm, heq⟩ := Option.map_eq_some_iff.1 hrecv
    cases heq
    obtain ⟨-, -, -, hreceived, hend⟩ := Mailbox.recv_cases hm
    have hstep : t.step .received = some { t with outbox } := by simp [Terminal.step, hm]
    exact ⟨Terminal.Sound.step h hstep, hreceived, fun hover => hover.recv hm,
      fun hnone => (hend hnone).1.recv hm⟩

/-- What the driver has received is a beginning of each stream. -/
theorem Sound.inOrder (h : x.Sound) (kind : Stream) :
    bytesOf kind x.outbox.received <+: x.source kind := by
  cases x with
  | pipes o => exact (Outlets.Sound.faithful h).inOrder kind
  | terminal t =>
    have hfaithful := Terminal.Sound.faithful h
    cases kind with
    | stdout => exact hfaithful.inOrder
    | stderr =>
      have hstderr : bytesOf .stderr (Tasks.terminal t).outbox.received = [] := hfaithful.oneStream
      rw [hstderr]
      exact List.nil_prefix

/-- When the queue ends, the driver has the exit and the streams. -/
theorem Sound.complete (h : x.Sound) (hover : x.outbox.Over) :
    (∃ exit, x.status = some exit ∧ exitsOf x.outbox.received = [exit]) ∧
      ∀ kind, x.Whole kind (bytesOf kind x.outbox.received) := by
  cases x with
  | pipes o =>
    have hfaithful := Outlets.Sound.faithful h
    exact ⟨hfaithful.reported hover, fun kind hpump => hfaithful.complete hover kind hpump⟩
  | terminal t =>
    have hfaithful := Terminal.Sound.faithful h
    refine ⟨hfaithful.reported hover, ?_⟩
    rintro kind rfl
    exact hfaithful.whole hover

end Tasks

/-! ### What the driver has heard -/

/-- What a message adds to the output. -/
def ChildChunk.tagged : ChildChunk → List (Stream × UInt8)
  | .out kind chunk => Channel.tagged kind chunk.1
  | .exited _ => []

/-- The driver's fields and its log, against the messages it took and the end it was
told of. -/
structure Heard (w : World) (got : List ChildChunk) (atEnd : Prop) : Prop where
  output : w.driver.earlyClose = false → childOutput w.session.log = got.flatMap ChildChunk.tagged
  status : w.driver.child.isSome = true →
    w.driver.exitStatus = (exitsOf got).head?.map ChildExit.code
  signal : w.driver.child.isSome = true →
    w.driver.exitSignal = (exitsOf got).head?.bind ChildExit.signal
  unheard : w.driver.child.isSome = false → got = []
  fresh : w.driver.state = .beforeOpen ∨ w.driver.state = .idle →
    w.driver.child.isSome = false ∧ w.driver.exitStatus = none ∧ w.driver.exitSignal = none ∧
      w.driver.childOutClosed = false
  atEnd : w.driver.child.isSome = true → w.driver.childOutClosed = true → atEnd
  ended : w.driver.CloseSent → w.driver.earlyClose = false → w.driver.childOutClosed = true

/-- A step in which the driver hears nothing. -/
structure Deaf (w w' : World) : Prop where
  keeps : ∀ got atEnd, Heard w got atEnd → Heard w' got (atEnd ∧ w.driver.child.isSome = true)
  stays : w.driver.child.isSome = true → w'.driver.child.isSome = true

/-- The fields of the driver that the messages go to, and their place in the log. -/
structure SameHearing (w w' : World) : Prop where
  log : childOutput w'.session.log = childOutput w.session.log
  early : w'.driver.earlyClose = w.driver.earlyClose
  status : w'.driver.exitStatus = w.driver.exitStatus
  signal : w'.driver.exitSignal = w.driver.exitSignal
  closed : w'.driver.childOutClosed = w.driver.childOutClosed
  child : w'.driver.child.isSome = w.driver.child.isSome
  fresh : w'.driver.state = .beforeOpen ∨ w'.driver.state = .idle →
    w.driver.state = .beforeOpen ∨ w.driver.state = .idle
  close : w'.driver.CloseSent → w.driver.CloseSent

variable {env : Env} {w w' : World}

theorem SameHearing.trans {w₁ : World} (h : SameHearing w w₁) (h' : SameHearing w₁ w') :
    SameHearing w w' where
  log := h'.log.trans h.log
  early := h'.early.trans h.early
  status := h'.status.trans h.status
  signal := h'.signal.trans h.signal
  closed := h'.closed.trans h.closed
  child := h'.child.trans h.child
  fresh := fun hs => h.fresh (h'.fresh hs)
  close := fun hc => h.close (h'.close hc)

theorem SameHearing.deaf (h : SameHearing w w') : Deaf w w' where
  keeps got atEnd hheard :=
    { output := fun hearly => by rw [h.log, hheard.output (h.early ▸ hearly)]
      status := fun hchild => by rw [h.status, hheard.status (h.child ▸ hchild)]
      signal := fun hchild => by rw [h.signal, hheard.signal (h.child ▸ hchild)]
      unheard := fun hchild => hheard.unheard (h.child ▸ hchild)
      fresh := fun hs => by
        rw [h.child, h.status, h.signal, h.closed]
        exact hheard.fresh (h.fresh hs)
      atEnd := fun hchild hclosed =>
        ⟨hheard.atEnd (h.child ▸ hchild) (h.closed ▸ hclosed), h.child ▸ hchild⟩
      ended := fun hc hearly => by rw [h.closed, hheard.ended (h.close hc) (h.early ▸ hearly)] }
  stays hchild := by rw [h.child, hchild]

theorem Deaf.trans {w₁ : World} (h : Deaf w w₁) (h' : Deaf w₁ w') : Deaf w w' where
  keeps got atEnd hheard :=
    { h'.keeps got _ (h.keeps got atEnd hheard) with
      atEnd := fun hchild hclosed =>
        ((h'.keeps got _ (h.keeps got atEnd hheard)).atEnd hchild hclosed).1 }
  stays hchild := h'.stays (h.stays hchild)

theorem childOutput_of_utters {msgs : List UInt8} {log log' : List Obs}
    (h : Grows (utters msgs) log log') : childOutput log' = childOutput log := by
  refine h.keeps (R := fun l => childOutput l = childOutput log) ?_ rfl
  intro l e he hl
  rw [childOutput_append, hl]
  cases e with
  | received | handled | output => cases he
  | sealed | rekeyed | accepted | queued | stdinEof | credited | execStarted | execFinished =>
    exact List.append_nil _

theorem FlushOnes.sameHearing (h : Relation.ReflTransGen FlushOne w w') : SameHearing w w' := by
  induction h with
  | refl => exact ⟨rfl, rfl, rfl, rfl, rfl, rfl, id, id⟩
  | tail _ hone ih =>
    refine ih.trans ?_
    have hlog := childOutput_of_utters (FlushOnes.grows (.single hone))
    cases hone with
    | packet p n tick bytesTx hflush => exact ⟨hlog, rfl, rfl, rfl, rfl, rfl, id, id⟩

theorem HandsOff.sameHearing (h : HandsOff w w') : SameHearing w w' := by
  have hlog := childOutput_of_utters h.grows
  have hfeeds : ∀ {w₁ : World}, Feeds w w₁ → w₁.driver.earlyClose = w.driver.earlyClose ∧
      w₁.driver.exitStatus = w.driver.exitStatus ∧ w₁.driver.exitSignal = w.driver.exitSignal ∧
      w₁.driver.childOutClosed = w.driver.childOutClosed ∧
      w₁.driver.child.isSome = w.driver.child.isSome ∧ w₁.driver.state = w.driver.state := by
    intro w₁ h
    cases h with
    | queued child chunk preExec hchild =>
      exact ⟨rfl, rfl, rfl, rfl, by simp [World.mapDriver, World.observe, hchild], rfl⟩
    | childless | empty | returned | dropped => exact ⟨rfl, rfl, rfl, rfl, rfl, rfl⟩
  cases h with
  | fed h =>
    obtain ⟨hearly, hstatus, hsignal, hclosed, hchild, hstate⟩ := hfeeds h
    refine ⟨hlog, hearly, hstatus, hsignal, hclosed, hchild, ?_, ?_⟩
    · rw [hstate]
      exact id
    · simp only [Driver.CloseSent, hstate]
      exact id
  | closed h h' =>
    obtain ⟨hearly, hstatus, hsignal, hclosed, hchild, hstate⟩ := hfeeds h
    cases h' with
    | closed child hsome heof hnext hopen =>
      refine ⟨hlog, hearly, hstatus, hsignal, hclosed, ?_, ?_, ?_⟩
      · rw [← hchild, hsome]
        rfl
      · simp only [World.mapDriver, World.observe, hstate]
        exact id
      · simp only [Driver.CloseSent, World.mapDriver, World.observe, hstate]
        exact id

theorem Credits.sameHearing (h : Credits w w') : SameHearing w w' := by
  have hlog := childOutput_of_utters h.grows
  cases h <;> exact ⟨hlog, rfl, rfl, rfl, rfl, rfl, id, id⟩

theorem emitFinished_sameHearing (w : World) : SameHearing w w.emitFinished := by
  have hlog := childOutput_of_utters (emitFinished_grows w)
  have hfields : w.emitFinished.driver.earlyClose = w.driver.earlyClose ∧
      w.emitFinished.driver.exitStatus = w.driver.exitStatus ∧
      w.emitFinished.driver.exitSignal = w.driver.exitSignal ∧
      w.emitFinished.driver.childOutClosed = w.driver.childOutClosed ∧
      w.emitFinished.driver.child.isSome = w.driver.child.isSome ∧
      w.emitFinished.driver.state = w.driver.state := by
    unfold World.emitFinished
    split
    · exact ⟨rfl, rfl, rfl, rfl, by simp [World.observe], rfl⟩
    · exact ⟨rfl, rfl, rfl, rfl, rfl, rfl⟩
  obtain ⟨hearly, hstatus, hsignal, hclosed, hchild, hstate⟩ := hfields
  refine ⟨hlog, hearly, hstatus, hsignal, hclosed, hchild, ?_, ?_⟩
  · rw [hstate]
    exact id
  · simp only [Driver.CloseSent, hstate]
    exact id

theorem rekeys_sameHearing {p : Bytes} {step : RekeyStep} {s : Session}
    (h : Rekeys env p w.session step s) : SameHearing w { w with session := s } :=
  ⟨childOutput_of_utters (rekeys_grows h), rfl, rfl, rfl, rfl, rfl, id, id⟩

/-! ### Requests and the closing sequence -/

/-- A child starts, or its start fails and nothing is heard of one. -/
theorem deaf_started {what : Start} (hlog : childOutput w'.session.log = childOutput w.session.log)
    (hstate : w.driver.state = .idle)
    (hd : (w.driver.starting what).Started w.driver.pty.isSome w'.driver) : Deaf w w' := by
  generalize hdriver : w'.driver = d at hd
  have hearly : d.earlyClose = w.driver.earlyClose := by cases hd <;> rfl
  constructor
  · intro got atEnd h
    obtain ⟨hchild, hstatus, hsignal, hclosed⟩ := h.fresh (.inr hstate)
    obtain rfl := h.unheard hchild
    have houtput : w'.driver.earlyClose = false → childOutput w'.session.log = [] := by
      intro hopen
      rw [hlog]
      exact h.output (by rw [← hearly, ← hdriver, hopen])
    cases hd with
    | spawned =>
      refine ⟨houtput, ?_, ?_, fun _ => rfl, ?_, ?_, ?_⟩ <;> rw [hdriver]
      · exact fun _ => hstatus
      · exact fun _ => hsignal
      · simp [Driver.spawned]
      · intro _ hc
        simp [Driver.spawned, Driver.starting, hclosed] at hc
      · simp [Driver.spawned, Driver.CloseSent]
    | failed =>
      have hnone : w'.driver.child.isSome = false := by
        rw [hdriver]
        exact hchild
      refine ⟨houtput, ?_, ?_, fun _ => rfl, ?_, ?_, ?_⟩
      · simp [hnone]
      · simp [hnone]
      · simp [hdriver, Driver.spawnFailed]
      · simp [hnone]
      · simp [hdriver, Driver.spawnFailed, Driver.CloseSent]
  · intro hchild
    rw [hdriver]
    cases hd with
    | spawned => rfl
    | failed => exact hchild

theorem Reacts.deaf {p : Bytes} (h : Reacts p w w') : Deaf w w' := by
  have hlog := h.aside.aside.2.1
  have hsame : ∀ {w₁ : World}, childOutput w₁.session.log = childOutput w.session.log →
      w₁.driver.earlyClose = w.driver.earlyClose → w₁.driver.exitStatus = w.driver.exitStatus →
      w₁.driver.exitSignal = w.driver.exitSignal →
      w₁.driver.childOutClosed = w.driver.childOutClosed → w₁.driver.child = w.driver.child →
      w₁.driver.state = w.driver.state → Deaf w w₁ := by
    intro w₁ hlog hearly hstatus hsignal hclosed hchild hstate
    refine SameHearing.deaf ⟨hlog, hearly, hstatus, hsignal, hclosed, by rw [hchild], ?_, ?_⟩
    · rw [hstate]
      exact id
    · simp only [Driver.CloseSent, hstate]
      exact id
  cases h with
  | started what d tick hstate hd => exact deaf_started hlog hstate hd
  | startedAnswered what d tick₁ tick bytesTx hstate hd ha => exact deaf_started hlog hstate hd
  | opened sender window maxPkt tick bytesTx hmsg hstate hmax hwindow =>
    exact SameHearing.deaf ⟨hlog, rfl, rfl, rfl, rfl, rfl, fun _ => .inl hstate,
      fun hc => by simp [World.sent, World.mapDriver, Driver.CloseSent] at hc⟩
  | closed hmsg hstate =>
    exact SameHearing.deaf ⟨hlog, rfl, rfl, rfl, rfl, rfl,
      fun hs => by simp [World.mapDriver] at hs, fun _ => .inl hstate⟩
  | closedEarly hmsg hstate =>
    have hsome : ((w.observe (.handled p)).mapDriver Driver.closedEarly).driver.child.isSome =
        w.driver.child.isSome := by
      simp [World.mapDriver, World.observe, Driver.closedEarly]
    refine ⟨fun got atEnd hheard => ?_, fun hchild => by rw [hsome, hchild]⟩
    refine ⟨(fun hearly => by cases hearly), ?_, ?_, ?_, ?_, ?_, (fun _ hearly => by cases hearly)⟩
    · rw [hsome]
      exact hheard.status
    · rw [hsome]
      exact hheard.signal
    · rw [hsome]
      exact hheard.unheard
    · simp [World.mapDriver, Driver.closedEarly]
    · rw [hsome]
      intro hchild hclosed
      simp only [World.mapDriver, World.observe, Driver.closedEarly, hchild, if_true] at hclosed
      exact ⟨hheard.atEnd hchild hclosed, hchild⟩
  | silent | answered | ptyGranted | ptyAnswered | buffered | stashed | unsunk | adjusted | eof =>
    exact hsame hlog rfl rfl rfl rfl rfl rfl

theorem ReactsAll.deaf {ps : List Bytes} (h : ReactsAll ps w w') : Deaf w w' := by
  induction h with
  | nil => exact SameHearing.deaf ⟨rfl, rfl, rfl, rfl, rfl, rfl, id, id⟩
  | cons hone _ ih => exact hone.deaf.trans ih

theorem TakesPacket.deaf {p : Bytes} (h : TakesPacket env p w w') : Deaf w w' := by
  have hone : Grows isAside w.session.log (w.arrived p).session.log := .one rfl rfl
  have harrived : SameHearing w (w.arrived p) :=
    ⟨hone.aside.2.1, rfl, rfl, rfl, rfl, rfl, id, id⟩
  cases h with
  | handled hwhen hreacts => exact harrived.deaf.trans hreacts.deaf
  | deferred iS hphase hmsg hinline hroom =>
    exact SameHearing.deaf ⟨hone.aside.2.1, rfl, rfl, rfl, rfl, rfl, id, id⟩
  | rekeying hrekeys => exact (harrived.trans (rekeys_sameHearing hrekeys)).deaf
  | @rekeyed s w' hrekeys hdrained =>
    have hdrain : SameHearing w (w.drained s) :=
      ⟨(childOutput_of_utters (rekeys_grows hrekeys)).trans hone.aside.2.1, rfl, rfl, rfl, rfl, rfl,
        id, id⟩
    exact hdrain.deaf.trans hdrained.deaf

/-- The terminal sequence is sent when the end was heard. -/
theorem deaf_terminal {w₁ : World} {state : ChannelState} (hready : w.driver.readyToClose = true)
    (hstate : state ≠ .beforeOpen ∧ state ≠ .idle) (hsent : SentAll w.driver.terminal w w₁) :
    Deaf w (w₁.mapDriver fun d => { d with state }) := by
  have hlog := childOutput_of_utters (hsent.grows fun q hq => head_terminal hq)
  have hdriver := hsent.driver_eq
  simp only [Driver.readyToClose, Bool.and_eq_true] at hready
  refine ⟨fun got atEnd h => ?_, fun hchild => ?_⟩
  · refine ⟨fun hearly => ?_, ?_, ?_, ?_, fun hs => ?_, ?_, fun _ _ => ?_⟩
    · simp only [World.mapDriver, hdriver] at hearly
      exact hlog.trans (h.output hearly)
    · simpa only [World.mapDriver, hdriver] using h.status
    · simpa only [World.mapDriver, hdriver] using h.signal
    · simpa only [World.mapDriver, hdriver] using h.unheard
    · exact absurd hs (not_or.2 hstate)
    · simp only [World.mapDriver, hdriver]
      exact fun hchild hclosed => ⟨h.atEnd hchild hclosed, hchild⟩
    · simp only [World.mapDriver, hdriver]
      exact hready.1.2
  · simp only [World.mapDriver, hdriver]
    exact hchild

theorem Settles.deaf {finished : Bool} (h : Settles w finished w') : Deaf w w' := by
  cases h with
  | busy hactive => exact SameHearing.deaf ⟨rfl, rfl, rfl, rfl, rfl, rfl, id, id⟩
  | @rekeyed w₁ cookie tick bytesTx started trigger hidle hcredits hstate =>
    have hone : Grows isAside w₁.session.log
        (w₁.session.begun cookie tick bytesTx started trigger).log := .one rfl rfl
    refine hcredits.sameHearing.deaf.trans (SameHearing.deaf ?_)
    exact ⟨hone.aside.2.1, rfl, rfl, rfl, rfl, rfl, id, id⟩
  | @closes w₁ _ _ tick now hidle hcredits hdue hcloses =>
    have htick : SameHearing w₁ (w₁.atTick tick) := ⟨rfl, rfl, rfl, rfl, rfl, rfl, id, id⟩
    refine (hcredits.sameHearing.trans htick).deaf.trans ?_
    cases hcloses with
    | waiting hready hstate => exact SameHearing.deaf ⟨rfl, rfl, rfl, rfl, rfl, rfl, id, id⟩
    | finished hready hstate => exact (emitFinished_sameHearing _).deaf
    | half hready hearly hsent => exact deaf_terminal hready (by simp) hsent
    | early hready hearly hsent =>
      exact (deaf_terminal hready (by simp) hsent).trans (emitFinished_sameHearing _).deaf

/-! ### Turns -/

/-- The driver keeps the first exit it hears of. -/
theorem head?_exitsOf {exit : ChildExit} {got : List ChildChunk} {β : Type}
    (f : ChildExit → Option β)
    {old : Option β} (hold : old = (exitsOf got).head?.bind f) {status : Option ℤ}
    (hstatus : status = (exitsOf got).head?.map ChildExit.code) :
    (if status.isNone then f exit else old) = (exitsOf (got ++ [.exited exit])).head?.bind f := by
  have hexits : exitsOf (got ++ [.exited exit]) = exitsOf got ++ [exit] := by
    rw [exitsOf_append]
    rfl
  rw [hexits, hold, hstatus]
  cases exitsOf got <;> rfl

/-- A message is heard, or the end is. -/
theorem Heard.occurs {got : List ChildChunk} {atEnd : Prop} (h : Heard w got atEnd)
    {chunk : Option ChildChunk} (hoccurs : Occurs (.output chunk) w w')
    (hchild : w.driver.child.isSome = true) :
    Heard w' (got ++ chunk.toList) (atEnd ∨ chunk = none) ∧ w'.driver.child.isSome = true := by
  have hsome : w.driver.child.isSome ≠ false := by
    rw [hchild]
    simp
  have hfresh : ¬(w.driver.state = .beforeOpen ∨ w.driver.state = .idle) := fun hs =>
    hsome (h.fresh hs).1
  have hexits : ∀ kind data, exitsOf (got ++ [.out kind data]) = exitsOf got := by
    intro kind data
    rw [exitsOf_append]
    exact List.append_nil _
  cases hoccurs with
  | chunk kind data hearly hnone hstate hended =>
    refine ⟨⟨fun _ => ?_, fun _ => ?_, fun _ => ?_, fun hnone => absurd hnone hsome,
      fun hs => absurd hs hfresh, fun _ hclosed => .inl (h.atEnd hchild hclosed), h.ended⟩, hchild⟩
    · have houtput : childOutput (w.session.log ++ [.output kind data.1]) =
          childOutput w.session.log ++ tagged kind data.1 := by simp [childOutput]
      refine houtput.trans ?_
      rw [h.output hearly]
      simp [ChildChunk.tagged]
    · rw [Option.toList_some, hexits]
      exact h.status hchild
    · rw [Option.toList_some, hexits]
      exact h.signal hchild
  | unsent kind data hearly =>
    refine ⟨⟨fun hopen => ?_, fun _ => ?_, fun _ => ?_, fun hnone => absurd hnone hsome,
      fun hs => absurd hs hfresh, fun _ hclosed => .inl (h.atEnd hchild hclosed), h.ended⟩, hchild⟩
    · rw [hearly] at hopen
      cases hopen
    · rw [Option.toList_some, hexits]
      exact h.status hchild
    · rw [Option.toList_some, hexits]
      exact h.signal hchild
  | exited exit hstate hended =>
    have hstatus := h.status hchild
    refine ⟨⟨fun hopen => ?_, fun _ => ?_, fun _ => ?_, fun hnone => absurd hnone hsome,
      fun hs => ?_, fun _ hclosed => .inl (h.atEnd hchild hclosed), fun hc hopen => ?_⟩, hchild⟩
    · refine (h.output hopen).trans ?_
      simp [ChildChunk.tagged]
    · rw [Option.map_eq_bind] at hstatus ⊢
      exact head?_exitsOf _ hstatus (by rw [hstatus, Option.map_eq_bind])
    · exact head?_exitsOf _ (h.signal hchild) hstatus
    · simp only [mapDriver_driver] at hs
      split at hs
      · simp at hs
      · exact absurd hs hfresh
    · refine absurd hc ?_
      have hopen := not_closeSent_of_mayEmitOutput hstate
      simp only [Driver.CloseSent, mapDriver_driver]
      split
      · simp
      · exact hopen
  | ended hstate hsome' =>
    refine ⟨⟨?_, ?_, ?_, fun hnone => ?_, fun hs => absurd hs hfresh, fun _ _ => .inr rfl,
      fun _ _ => rfl⟩, ?_⟩
    · simpa [World.mapDriver] using h.output
    · simpa [World.mapDriver] using h.status
    · simpa [World.mapDriver] using h.signal
    · simp [World.mapDriver, hsome] at hnone
    · simp [World.mapDriver, hchild]

theorem Turn.deaf {c c' : Config} {input : Input} (hturn : Turn env c input c')
    (hinput : ∀ chunk, input ≠ .event (.output chunk)) (hsound : c'.sound) :
    Deaf c.world c'.world := by
  cases hturn with
  | flushed hidle hrun => exact (FlushOnes.sameHearing hrun).deaf
  | unflushed hactive => exact SameHearing.deaf ⟨rfl, rfl, rfl, rfl, rfl, rfl, id, id⟩
  | handedOff hoff => exact hoff.sameHearing.deaf
  | settled hsettles => exact hsettles.deaf
  | packet p htakes => exact htakes.deaf
  | occurred event hoccurs =>
    have hlog : ∀ {w w' : World} {obs : Obs}, w'.session.log = w.session.log ++ [obs] →
        utters [] obs = true → childOutput w'.session.log = childOutput w.session.log :=
      fun hlog hobs => childOutput_of_utters (.one hobs hlog)
    cases hoccurs with
    | chunk | unsent | exited | ended => exact absurd rfl (hinput _)
    | credit child n rest hchild hconsumed =>
      refine SameHearing.deaf ⟨hlog rfl rfl, rfl, rfl, rfl, rfl, ?_, id, id⟩
      simp [World.mapDriver, World.observe, hchild]
    | creditsEnded child hchild hconsumed hpump =>
      exact SameHearing.deaf ⟨rfl, rfl, rfl, rfl, rfl, rfl, id, id⟩
    | woken => exact SameHearing.deaf ⟨rfl, rfl, rfl, rfl, rfl, rfl, id, id⟩
  | pumped child child' step hpc hchild hpump =>
    refine SameHearing.deaf ⟨rfl, rfl, rfl, rfl, rfl, ?_, id, id⟩
    simp [World.mapDriver, hchild]
  | flushFailed | settleFailed | packetFailed | readFailed | timedOut => exact absurd rfl (hsound _)

/-! ### The machine -/

/-- The drive loop and the tasks of its child. -/
structure Delivery where
  config : Config
  tasks : Option Tasks

/-- A step of the loop or of a task. -/
inductive DeliveryMove where
  | drive (input : Input)
  | task (event : TaskEvent)
deriving DecidableEq

namespace Delivery

def start (h : Handshake) : Delivery where
  config := Config.start h
  tasks := none

/-- What a step of the driver does to the tasks: a spawn starts them, and
`discard_output` aborts the pumps. -/
def follow (d d' : Driver) (tasks : Option Tasks) : Option Tasks :=
  let tasks := if !d.child.isSome && d'.child.isSome then some (.start d'.onPty) else tasks
  if !d.earlyClose && d'.earlyClose then tasks.map Tasks.discard else tasks

def step (env : Env) (d : Delivery) : DeliveryMove → Option Delivery
  | .drive (.event (.output chunk)) =>
    (d.tasks.bind Tasks.recv).bind fun (heard, tasks) =>
      if heard = chunk then
        (d.config.step env (.event (.output chunk))).map fun config => ⟨config, some tasks⟩
      else none
  | .drive input => (d.config.step env input).map fun config =>
      ⟨config, follow d.config.world.driver config.world.driver d.tasks⟩
  | .task event =>
    if d.config.pc.isDone then none
    else (d.tasks.bind fun tasks => tasks.step event).map fun tasks => { d with tasks := some tasks }

/-- What the driver has taken. -/
def got (tasks : Option Tasks) : List ChildChunk :=
  (tasks.map fun x => x.outbox.received).getD []

/-- The queue has ended. -/
def Ended (tasks : Option Tasks) : Prop := ∃ x, tasks = some x ∧ x.outbox.Over

end Delivery

/-- What a run keeps. -/
structure Delivery.Sound (d : Delivery) : Prop where
  emitting : Emitting d.config
  sound : ∀ x, d.tasks = some x → x.Sound
  spawned : d.config.sound → d.tasks.isSome = d.config.world.driver.child.isSome
  heard : d.config.sound → Heard d.config.world (Delivery.got d.tasks) (Delivery.Ended d.tasks)

theorem delivers_start (h : Handshake) : Delivery.Sound (.start h) := by
  have hlog : childOutput (Config.start h).world.session.log = [] := by
    have hsealed : ∀ fs : List Frame, childOutput (fs.map .sealed) = [] := by
      intro fs
      induction fs with
      | nil => rfl
      | cons f fs ih => exact ih
    exact hsealed h.frames
  refine ⟨emitting_start h, (fun x hx => by cases hx), fun _ => rfl, fun _ => ?_⟩
  exact
    { output := fun _ => hlog
      status := fun hchild => by cases hchild
      signal := fun hchild => by cases hchild
      unheard := fun _ => rfl
      fresh := fun _ => ⟨rfl, rfl, rfl, rfl⟩
      atEnd := fun hchild => by cases hchild
      ended := fun hc => by simp [Delivery.start, Config.start, Driver.new, Driver.CloseSent] at hc }

namespace Delivery.Sound

variable {d d' : Delivery}

theorem task (h : Delivery.Sound d) {event : TaskEvent} {x x' : Tasks} (hx : d.tasks = some x)
    (hstep : x.step event = some x') : Delivery.Sound { d with tasks := some x' } := by
  obtain ⟨hsound, hreceived, hover⟩ := (h.sound x hx).step hstep
  refine ⟨h.emitting, (fun y hy => by cases hy; exact hsound), fun hc => ?_, fun hc => ?_⟩
  · rw [← h.spawned hc, hx]
    rfl
  · have hheard := h.heard hc
    have hgot : Delivery.got (some x') = Delivery.got d.tasks := by
      rw [hx]
      exact hreceived
    refine { hheard with
      output := ?_, status := ?_, signal := ?_, unheard := ?_, atEnd := fun hchild hclosed => ?_ }
    · rw [hgot]
      exact hheard.output
    · rw [hgot]
      exact hheard.status
    · rw [hgot]
      exact hheard.signal
    · rw [hgot]
      exact hheard.unheard
    · obtain ⟨y, hy, hyover⟩ := hheard.atEnd hchild hclosed
      rw [hx] at hy
      cases hy
      exact ⟨x', rfl, hover hyover⟩

/-- The driver takes a message, or learns of the end. -/
theorem hear {c c' : Config} {chunk : Option ChildChunk} {x x' : Tasks}
    (h : Delivery.Sound ⟨c, some x⟩) (hrecv : x.recv = some (chunk, x'))
    (hstep : c.step env (.event (.output chunk)) = some c') : Delivery.Sound ⟨c', some x'⟩ := by
  obtain ⟨hsound, hreceived, hover, hend⟩ := (h.sound x rfl).recv hrecv
  have hturn := step_turn hstep
  have hsome : c.world.driver.child.isSome = true := (h.spawned hturn.live.sound).symm
  have hheard := h.heard hturn.live.sound
  have hgot : Delivery.got (some x') = Delivery.got (some x) ++ chunk.toList := hreceived
  have hboth : Heard c'.world (Delivery.got (some x')) (Delivery.Ended (some x')) ∧
      c'.world.driver.child.isSome = true := by
    cases hturn with
    | occurred event hoccurs =>
      obtain ⟨hheard', hchild⟩ := hheard.occurs hoccurs hsome
      rw [← hgot] at hheard'
      refine ⟨{ hheard' with atEnd := fun hchild hclosed => ⟨x', rfl, ?_⟩ }, hchild⟩
      obtain ⟨y, hy, hyover⟩ | hnone := hheard'.atEnd hchild hclosed
      · cases hy
        exact hover hyover
      · exact hend hnone
  refine ⟨h.emitting.turn hturn, (fun y hy => by cases hy; exact hsound), fun _ => hboth.2.symm,
    fun _ => hboth.1⟩

/-- The driver discards the output. -/
theorem discard {config : Config} {tasks : Option Tasks} (h : Delivery.Sound ⟨config, tasks⟩) :
    Delivery.Sound ⟨config, tasks.map Tasks.discard⟩ := by
  refine ⟨h.emitting, fun x hx => ?_, fun hc => ?_, fun hc => ?_⟩
  · obtain ⟨y, hy, rfl⟩ := Option.map_eq_some_iff.1 hx
    exact (h.sound y hy).discard
  · exact Option.isSome_map.trans (h.spawned hc)
  · have hgot : Delivery.got (tasks.map Tasks.discard) = Delivery.got tasks := by
      cases tasks with
      | none => rfl
      | some x => exact x.received_discard
    have hheard := h.heard hc
    rw [← hgot] at hheard
    refine { hheard with atEnd := fun hchild hclosed => ?_ }
    obtain ⟨x, hx, hover⟩ := hheard.atEnd hchild hclosed
    exact ⟨x.discard, Option.map_eq_some_iff.2 ⟨x, hx, rfl⟩, (h.sound x hx).over_discard hover⟩

/-- The driver does something else. -/
theorem drive (h : Delivery.Sound d) {input : Input} {config : Config}
    (hinput : ∀ chunk, input ≠ .event (.output chunk))
    (hstep : d.config.step env input = some config) :
    Delivery.Sound ⟨config, Delivery.follow d.config.world.driver config.world.driver d.tasks⟩ := by
  obtain ⟨c, tasks⟩ := d
  have hturn : Turn env c input config := step_turn hstep
  have hspawned : tasks.isSome = c.world.driver.child.isSome := h.spawned hturn.live.sound
  have hheard : Heard c.world (Delivery.got tasks) (Delivery.Ended tasks) :=
    h.heard hturn.live.sound
  have hbase : Delivery.Sound ⟨config,
      if !c.world.driver.child.isSome && config.world.driver.child.isSome
      then some (.start config.world.driver.onPty) else tasks⟩ := by
    cases hchild : c.world.driver.child.isSome with
    | true =>
      refine ⟨h.emitting.turn hturn, h.sound, fun hc => ?_, fun hc => ?_⟩
      · rw [(hturn.deaf hinput hc).stays hchild]
        exact hspawned.trans hchild
      · have hheard' := (hturn.deaf hinput hc).keeps _ _ hheard
        exact { hheard' with atEnd := fun hs hclosed => (hheard'.atEnd hs hclosed).1 }
    | false =>
      -- Nothing was heard of a child that had not started.
      have hnone : tasks = none := by
        rw [hchild] at hspawned
        exact Option.isNone_iff_eq_none.1 (by simpa using hspawned)
      subst hnone
      cases hchild' : config.world.driver.child.isSome with
      | false =>
        refine ⟨h.emitting.turn hturn, (fun x hx => by cases hx), fun _ => hchild'.symm, ?_⟩
        intro hc
        have hheard' := (hturn.deaf hinput hc).keeps _ _ hheard
        exact { hheard' with atEnd := fun hs hclosed => (hheard'.atEnd hs hclosed).1 }
      | true =>
        refine ⟨h.emitting.turn hturn, ?_, fun _ => hchild'.symm, fun hc => ?_⟩
        · intro x hx
          cases hx
          exact Tasks.sound_start _
        · have hheard' := (hturn.deaf hinput hc).keeps _ _ hheard
          have hgot : Delivery.got (some (.start config.world.driver.onPty)) = [] :=
            Tasks.received_start _
          have hover : ∀ hs hclosed, False := fun hs hclosed => by
            have hsome := (hheard'.atEnd hs hclosed).2
            rw [hchild] at hsome
            cases hsome
          refine
            { hheard' with
              output := ?_
              status := ?_
              signal := ?_
              unheard := fun _ => hgot
              atEnd := fun hs hclosed => (hover hs hclosed).elim } <;>
            simp only [Bool.not_false, Bool.and_self, if_true, hgot]
          · exact hheard'.output
          · exact hheard'.status
          · exact hheard'.signal
  simp only [Delivery.follow]
  split
  · exact hbase.discard
  · exact hbase

theorem step (h : Delivery.Sound d) {move : DeliveryMove} (hstep : d.step env move = some d') :
    Delivery.Sound d' := by
  cases move with
  | task event =>
    simp only [Delivery.step, Option.ite_none_left_eq_some, Option.map_eq_some_iff,
      Option.bind_eq_some_iff] at hstep
    obtain ⟨-, x', ⟨x, hx, hstep⟩, rfl⟩ := hstep
    exact h.task hx hstep
  | drive input =>
    have hquiet : (∀ chunk, input ≠ .event (.output chunk)) →
        (d.config.step env input).map (fun config => (⟨config,
          Delivery.follow d.config.world.driver config.world.driver d.tasks⟩ : Delivery)) = some d' →
        Delivery.Sound d' := by
      intro hinput hmap
      obtain ⟨config, hconfig, rfl⟩ := Option.map_eq_some_iff.1 hmap
      exact h.drive hinput hconfig
    cases input with
    | phase => exact hquiet (by simp) hstep
    | pump step => exact hquiet (by simp) hstep
    | event event =>
      cases event with
      | output chunk =>
        obtain ⟨c, tasks⟩ := d
        simp only [Delivery.step, Option.bind_eq_some_iff, Option.ite_none_right_eq_some,
          Option.map_eq_some_iff] at hstep
        obtain ⟨⟨heard, x'⟩, ⟨x, rfl, hrecv⟩, rfl, c', hc', rfl⟩ := hstep
        exact h.hear hrecv hc'
      | packet | readFailed | credit | deadline | wake => exact hquiet (by simp) hstep

end Delivery.Sound

/-! ### Whole runs -/

/-- The bytes of one stream. -/
def ofStream (kind : Stream) (l : List (Stream × UInt8)) : Bytes :=
  l.filterMap fun v => if v.1 = kind then some v.2 else none

theorem ofStream_append (kind : Stream) (l l' : List (Stream × UInt8)) :
    ofStream kind (l ++ l') = ofStream kind l ++ ofStream kind l' := List.filterMap_append

theorem ofStream_isPrefix {l l' : List (Stream × UInt8)} (h : l <+: l') (kind : Stream) :
    ofStream kind l <+: ofStream kind l' := by
  obtain ⟨rest, rfl⟩ := h
  rw [ofStream_append]
  exact List.prefix_append _ _

theorem ofStream_tagged (kind kind' : Stream) (data : Bytes) :
    ofStream kind (tagged kind' data) = if kind' = kind then data else [] := by
  by_cases hkind : kind' = kind <;> simp [ofStream, tagged, hkind, List.filterMap_map]

theorem ofStream_flatMap (kind : Stream) (got : List ChildChunk) :
    ofStream kind (got.flatMap ChildChunk.tagged) = bytesOf kind got := by
  induction got with
  | nil => rfl
  | cons chunk got ih =>
    rw [List.flatMap_cons, ofStream_append, ih]
    cases chunk with
    | out kind' data =>
      rw [ChildChunk.tagged, ofStream_tagged]
      rfl
    | exited exit => rfl

/-- The exit report of an exit. -/
def ChildExit.report (exit : ChildExit) (peerChan : ℕ) : Bytes :=
  match exit.signal with
  | some (signal, coreDumped) => buildExitSignal peerChan signal.name coreDumped
  | none => buildExitStatus peerChan (exit.code % 2 ^ 32).toNat

theorem exitReport_of_exit {d : Driver} {exit : ChildExit} (hstatus : d.exitStatus = some exit.code)
    (hsignal : d.exitSignal = exit.signal) : d.exitReport = some (exit.report d.peerChan) := by
  unfold Driver.exitReport ChildExit.report
  rw [hstatus, hsignal]
  cases exit.signal with
  | none => rfl
  | some signal => rfl

/-- The terminal sequence follows all of the child's output and reports its exit. -/
def TrueEnd (tasks : Tasks) (peerChan : ℕ) (log : List Obs) : Prop :=
  ∃ exit before after fReport fEof fClose, tasks.status = some exit ∧
    log = before ++ .sealed fReport :: .sealed fEof :: .sealed fClose :: after ∧
    fReport.payload = exit.report peerChan ∧ fEof.payload = buildEof peerChan ∧
    fClose.payload = buildClose peerChan ∧
    (∀ q ∈ sentPayloads (before ++ after), isTerminal q = false) ∧
    ∀ kind, tasks.Whole kind (ofStream kind (sentOutput before))

/-- What the client was sent, set against what the child did. -/
structure Delivered (d : Delivery) (tasks : Tasks) : Prop where
  inOrder : ∀ before after, d.config.world.session.log = before ++ after →
    ∀ kind, ofStream kind (sentOutput before) <+: tasks.source kind
  ended : (∀ q ∈ sentPayloads d.config.world.session.log, isTerminal q = false) ∨
    TrueEnd tasks d.config.world.driver.peerChan d.config.world.session.log

theorem Delivery.Sound.delivered {d : Delivery} {tasks : Tasks} (h : Delivery.Sound d)
    (htasks : d.tasks = some tasks) (hsound : d.config.sound)
    (hfirst : ¬ClosesFirst d.config.world.session.log) : Delivered d tasks := by
  have hemits := (h.emitting.emits hsound).resolve_left hfirst
  have hheard := h.heard hsound
  have htold := h.sound tasks htasks
  have hgot : Delivery.got d.tasks = tasks.outbox.received := by
    rw [htasks]
    rfl
  rw [hgot] at hheard
  have hchild : d.config.world.driver.child.isSome = true := by
    rw [← h.spawned hsound, htasks]
    rfl
  have houtput : ∀ kind, ofStream kind (childOutput d.config.world.session.log) =
      bytesOf kind tasks.outbox.received := by
    intro kind
    rw [hheard.output hemits.early, ofStream_flatMap]
  obtain ⟨hinOrder, hterminal⟩ := hemits.outputInOrder
  refine ⟨fun before after hlog kind => ?_, ?_⟩
  · have hsent := ofStream_isPrefix (hinOrder before after hlog) kind
    have hchildOutput : childOutput before <+: childOutput d.config.world.session.log := by
      rw [hlog, childOutput_append]
      exact List.prefix_append _ _
    have hall := ofStream_isPrefix hchildOutput kind
    rw [houtput] at hall
    exact (hsent.trans hall).trans (htold.inOrder kind)
  · by_cases hc : d.config.world.driver.CloseSent
    · right
      obtain ⟨x, hx, hover⟩ := hheard.atEnd hchild (hheard.ended hc hemits.early)
      rw [htasks] at hx
      cases hx
      obtain ⟨⟨exit, hstatus, hexits⟩, hwhole⟩ := htold.complete hover
      obtain ⟨report, before, after, fReport, fEof, fClose, hreport, hlog, h₁, h₂, h₃, hother,
      hall⟩ :=
        hemits.ended hc
      have hcode := hheard.status hchild
      have hsignal := hheard.signal hchild
      rw [hexits] at hcode hsignal
      rw [exitReport_of_exit hcode hsignal] at hreport
      refine ⟨exit, before, after, fReport, fEof, fClose, hstatus, hlog, ?_, h₂, h₃, hother, ?_⟩
      · rw [h₁]
        exact (Option.some.inj hreport).symm
      · intro kind
        rw [hall, houtput]
        exact hwhole kind
    · exact .inl (hemits.unended hc)

/-- **What the client is sent of a stream is at every moment a beginning of what the
child wrote to its pipe, or its terminal gave the master**, whatever the order of the child,
the tasks, the packets and the credits, if no error ends the connection and the client does
not close first. The terminal sequence comes once, with the child's own exit, after all that
the pumps read to the ends they came to. -/
theorem output_delivered {h : Handshake} {moves : List DeliveryMove} {d : Delivery} {tasks : Tasks}
    (hrun : run (Delivery.step env) (.start h) moves = some d) (htasks : d.tasks = some tasks)
    (hsound : d.config.sound) (hfirst : ¬ClosesFirst d.config.world.session.log) :
    Delivered d tasks :=
  (invariant_run (fun _ _ _ hinv hstep => Delivery.Sound.step hinv hstep)
    (delivers_start h) hrun).delivered htasks hsound hfirst

/-- A child that writes to both streams and exits before its last output was read. -/
def hastyChild : List OutletEvent :=
  [.written .stdout [7, 8, 9], .read .stdout 3, .sent .stdout, .written .stderr [10],
    .exited ⟨3, none⟩, .reported, .shut .stdout, .shut .stderr, .read .stderr 1, .sent .stderr,
    .endOfFile .stdout, .endOfFile .stderr]

/-- The driver takes it all; stdout waits for the window of the client. -/
def hastyTurns : List Input :=
  [.phase, .phase, .phase, .event (.output (some (.out .stdout ⟨[7, 8, 9], by decide⟩)))] ++
    packetTurn (buildWindowAdjust localChannel 5) ++
    [.phase, .phase, .phase, .event (.output (some (.exited ⟨3, none⟩))),
      .phase, .phase, .phase, .event (.output (some (.out .stderr ⟨[10], by decide⟩))),
      .phase, .phase, .phase, .event (.output none), .phase, .phase, .phase]

def deliveryRun : List DeliveryMove :=
  (packetTurn (openSession 7 2 2) ++ packetTurn (channelRequest "shell" true)).map .drive ++
    hastyChild.map (fun event => .task (.pipes event)) ++ hastyTurns.map .drive

theorem output_delivered_overtaken : ∃ d tasks,
    run (Delivery.step plainEnv) (.start plainHandshake) deliveryRun = some d ∧
      d.tasks = some tasks ∧ tasks.status = some ⟨3, none⟩ ∧ tasks.source .stdout = [7, 8, 9] ∧
      tasks.source .stderr = [10] ∧
      sentOutput d.config.world.session.log =
        [(.stdout, 7), (.stdout, 8), (.stdout, 9), (.stderr, 10)] ∧ Delivered d tasks := by
  have hd : (run (Delivery.step plainEnv) (.start plainHandshake) deliveryRun).map (fun d =>
      d.config.pc.isWaiting && isPolite d.config.world.session.log &&
        (d.tasks.any fun tasks => decide (tasks.status = some ⟨3, none⟩ ∧
          tasks.source .stdout = [7, 8, 9] ∧ tasks.source .stderr = [10])) &&
        decide (sentOutput d.config.world.session.log =
          [(.stdout, 7), (.stdout, 8), (.stdout, 9), (.stderr, 10)])) = some true := by
    decide +kernel
  obtain ⟨d, hrun, hd⟩ := Option.map_eq_some_iff.1 hd
  simp only [Bool.and_eq_true, decide_eq_true_eq, Option.any_eq_true] at hd
  obtain ⟨⟨⟨hpc, hpolite⟩, tasks, htasks, hstatus, hstdout, hstderr⟩, hsent⟩ := hd
  have hsound : d.config.sound := by
    intro e he
    rw [he] at hpc
    cases hpc
  exact ⟨d, tasks, hrun, htasks, hstatus, hstdout, hstderr, hsent,
    output_delivered hrun htasks hsound (not_closesFirst_of_isPolite hpolite)⟩

end QuantumSsh.Channel
