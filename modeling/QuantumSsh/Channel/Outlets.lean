import Mathlib.Logic.Function.Basic
import QuantumSsh.Channel.Driver
import QuantumSsh.Lib.Mailbox

/-!
# The output of a child on pipes

The tasks at the other end of `ChildIo::out_rx` (`exec.rs`): a pump for stdout, one for
stderr, and the reap task, which reports the exit. They share one bounded queue, and act
in any order between the child's writes and what the driver receives.
-/

namespace QuantumSsh.Channel

open Program Transport

/-! ### Messages -/

/-- What a message adds to a stream. -/
def ChildChunk.bytes (kind : Stream) : ChildChunk → Bytes
  | .out kind' chunk => if kind' = kind then chunk.1 else []
  | .exited _ => []

def ChildChunk.exit? : ChildChunk → Option ChildExit
  | .out _ _ => none
  | .exited exit => some exit

/-- The bytes of a stream, in order. -/
def bytesOf (kind : Stream) (chunks : List ChildChunk) : Bytes :=
  chunks.flatMap (ChildChunk.bytes kind)

/-- The exits reported, in order. -/
def exitsOf (chunks : List ChildChunk) : List ChildExit := chunks.filterMap ChildChunk.exit?

@[simp] theorem bytesOf_nil (kind : Stream) : bytesOf kind [] = [] := rfl

@[simp] theorem bytesOf_append (kind : Stream) (chunks chunks' : List ChildChunk) :
    bytesOf kind (chunks ++ chunks') = bytesOf kind chunks ++ bytesOf kind chunks' :=
  List.flatMap_append

@[simp] theorem exitsOf_append (chunks chunks' : List ChildChunk) :
    exitsOf (chunks ++ chunks') = exitsOf chunks ++ exitsOf chunks' :=
  List.filterMap_append

theorem bytesOf_isPrefix {chunks chunks' : List ChildChunk} (h : chunks <+: chunks')
    (kind : Stream) : bytesOf kind chunks <+: bytesOf kind chunks' := by
  obtain ⟨rest, rfl⟩ := h
  rw [bytesOf_append]
  exact List.prefix_append _ _

/-! ### The tasks -/

/-- `OUT_QUEUE`. -/
def outQueue : ℕ := 8

/-- A copy of `out_tx`. -/
inductive Sender where
  | pump (kind : Stream)
  | reap
deriving Repr, DecidableEq

/-- Why `pump_output` ended. -/
inductive PumpEnd where
  /-- A read returned 0. -/
  | endOfFile
  | readFailed
  /-- `discard_output`. -/
  | aborted
deriving Repr, DecidableEq

/-- `pump_output`, where it waits. -/
inductive OutputPump where
  | reading
  | sending (chunk : Chunk)
  | ended (why : PumpEnd)
deriving DecidableEq

def OutputPump.live : OutputPump → Bool
  | .ended _ => false
  | _ => true

/-- The chunk that was read and not sent. -/
def OutputPump.inHand : OutputPump → Bytes
  | .sending chunk => chunk.1
  | _ => []

/-- An output pipe of the child, and its pump. -/
structure Outlet where
  /-- Everything that was written to the pipe. -/
  written : Bytes
  unread : Bytes
  /-- Some process can still write to it. -/
  writers : Bool
  pump : OutputPump

/-- `spawn_reap`, where it waits. -/
inductive ReapTask where
  | waiting
  | sending (exit : ChildExit)
  | ended
deriving Repr, DecidableEq

/-- The pipes, the tasks and their queue. -/
structure Outlets where
  pipes : Stream → Outlet
  reap : ReapTask
  /-- What `Reaper::run` returned. -/
  status : Option ChildExit
  outbox : Mailbox Sender ChildChunk outQueue

/-- A child just spawned. -/
def Outlets.start : Outlets where
  pipes _ := { written := [], unread := [], writers := true, pump := .reading }
  reap := .waiting
  status := none
  outbox := .start [.pump .stdout, .pump .stderr, .reap]

inductive OutletEvent where
  /-- A process writes to the pipe. -/
  | written (kind : Stream) (data : Bytes)
  /-- The last process that could closes it. -/
  | shut (kind : Stream)
  | read (kind : Stream) (n : ℕ)
  | endOfFile (kind : Stream)
  | readFailed (kind : Stream)
  | sent (kind : Stream)
  /-- `Reaper::run` returns. -/
  | exited (exit : ChildExit)
  | reported
  /-- `discard_output`. -/
  | discarded
  /-- The driver takes what there is. -/
  | received
deriving DecidableEq

def Outlets.setPipe (o : Outlets) (kind : Stream) (p : Outlet) : Outlets :=
  { o with pipes := Function.update o.pipes kind p }

/-- A pump ends, and drops its `out_tx`. -/
def Outlets.endPump (o : Outlets) (kind : Stream) (why : PumpEnd) : Outlets :=
  { o.setPipe kind { o.pipes kind with pump := .ended why } with
    outbox := o.outbox.leave (.pump kind) }

/-- An abort, which a task that has ended does not feel. -/
def Outlets.abortPump (o : Outlets) (kind : Stream) : Outlets :=
  if (o.pipes kind).pump.live then o.endPump kind .aborted else o

/-- `discard_output`. -/
def Outlets.discard (o : Outlets) : Outlets := (o.abortPump .stdout).abortPump .stderr

/-- `read` gives so many bytes. -/
def Outlet.read (p : Outlet) (n : ℕ) : Option Outlet :=
  if h : p.unread.take n ≠ [] ∧ n ≤ chunkBound then
    some { p with
      unread := p.unread.drop n
      pump := .sending ⟨p.unread.take n, h.1, (List.length_take_le n _).trans h.2⟩ }
  else none

def Outlets.step (o : Outlets) : OutletEvent → Option Outlets
  | .written kind data =>
    let p := o.pipes kind
    if p.writers then
      some (o.setPipe kind { p with written := p.written ++ data, unread := p.unread ++ data })
    else none
  | .shut kind => some (o.setPipe kind { o.pipes kind with writers := false })
  | .read kind n =>
    if (o.pipes kind).pump = .reading then ((o.pipes kind).read n).map (o.setPipe kind) else none
  | .endOfFile kind =>
    let p := o.pipes kind
    if p.pump = .reading ∧ p.unread = [] ∧ p.writers = false then some (o.endPump kind .endOfFile)
    else none
  | .readFailed kind =>
    if (o.pipes kind).pump = .reading then some (o.endPump kind .readFailed) else none
  | .sent kind =>
    match (o.pipes kind).pump with
    | .sending chunk => (o.outbox.send (.out kind chunk)).map fun outbox =>
        { o.setPipe kind { o.pipes kind with pump := .reading } with outbox }
    | _ => none
  | .exited exit =>
    if o.reap = .waiting then some { o with reap := .sending exit, status := some exit } else none
  | .reported =>
    match o.reap with
    | .sending exit => (o.outbox.send (.exited exit)).map fun outbox =>
        { o with reap := .ended, outbox := outbox.leave .reap }
    | _ => none
  | .discarded => some o.discard
  | .received => o.outbox.recv.map fun m => { o with outbox := m.2 }

/-! ### What a pipe keeps -/

/-- The pipe, and how much of it was sent. -/
structure Outlet.Keeps (p : Outlet) (sent : Bytes) : Prop where
  lossless : p.pump ≠ .ended .aborted → sent ++ p.pump.inHand ++ p.unread = p.written
  inOrder : sent ++ p.pump.inHand <+: p.written
  ended : p.pump = .ended .endOfFile → p.unread = [] ∧ p.writers = false

namespace Outlet.Keeps

variable {p p' : Outlet} {sent : Bytes}

theorem write (h : p.Keeps sent) (hwriters : p.writers = true) (data : Bytes) :
    Keeps { p with written := p.written ++ data, unread := p.unread ++ data } sent where
  lossless := fun hpump => by
    rw [← List.append_assoc, h.lossless hpump]
  inOrder := h.inOrder.trans (List.prefix_append _ _)
  ended := fun hpump => by
    have hshut := (h.ended hpump).2
    rw [hwriters] at hshut
    cases hshut

theorem shut (h : p.Keeps sent) : Keeps { p with writers := false } sent :=
  ⟨h.lossless, h.inOrder, fun hpump => ⟨(h.ended hpump).1, rfl⟩⟩

theorem read (h : p.Keeps sent) (hpump : p.pump = .reading) {n : ℕ} (hread : p.read n = some p') :
    p'.Keeps sent := by
  have hall := h.lossless (by simp [hpump])
  have hinHand : p.pump.inHand = [] := by rw [hpump]; rfl
  rw [hinHand, List.append_nil] at hall
  unfold Outlet.read at hread
  split at hread
  · cases hread
    have hall' : sent ++ p.unread.take n ++ p.unread.drop n = p.written := by
      rw [List.append_assoc, List.take_append_drop, hall]
    exact ⟨fun _ => hall', ⟨_, hall'⟩, fun hended => by cases hended⟩
  · cases hread

theorem finish (h : p.Keeps sent) (hunread : p.unread = []) (hwriters : p.writers = false)
    (hpump : p.pump = .reading) : Keeps { p with pump := .ended .endOfFile } sent := by
  have hall := h.lossless (by simp [hpump])
  have hinHand : p.pump.inHand = [] := by rw [hpump]; rfl
  rw [hinHand] at hall
  exact ⟨fun _ => hall, ⟨_, hall⟩, fun _ => ⟨hunread, hwriters⟩⟩

theorem fail (h : p.Keeps sent) (hpump : p.pump = .reading) :
    Keeps { p with pump := .ended .readFailed } sent := by
  have hall := h.lossless (by simp [hpump])
  have hinHand : p.pump.inHand = [] := by rw [hpump]; rfl
  rw [hinHand] at hall
  exact ⟨fun _ => hall, ⟨_, hall⟩, fun hended => by cases hended⟩

/-- An aborted pump loses the chunk in its hand. -/
theorem abort (h : p.Keeps sent) : Keeps { p with pump := .ended .aborted } sent := by
  refine ⟨fun hpump => absurd rfl hpump, ?_, fun hended => by cases hended⟩
  have hbegins := (List.prefix_append sent p.pump.inHand).trans h.inOrder
  simpa [OutputPump.inHand] using hbegins

theorem send (h : p.Keeps sent) {chunk : Chunk} (hpump : p.pump = .sending chunk) :
    Keeps { p with pump := .reading } (sent ++ chunk.1) := by
  have hinHand : p.pump.inHand = chunk.1 := by rw [hpump]; rfl
  have hall := h.lossless (by simp [hpump])
  have hbegins := h.inOrder
  rw [hinHand] at hall hbegins
  refine ⟨fun _ => ?_, ?_, fun hended => by cases hended⟩
  · simpa [OutputPump.inHand] using hall
  · simpa [OutputPump.inHand] using hbegins

end Outlet.Keeps

/-! ### The report of the exit -/

/-- The reap task holds its sender while it runs, and reports the exit once. -/
structure Reporting (reap : ReapTask) (status : Option ChildExit)
    (outbox : Mailbox Sender ChildChunk outQueue) : Prop where
  task : .reap ∈ outbox.senders ↔ reap ≠ .ended
  exits : exitsOf outbox.history = if reap = .ended then status.toList else []
  waits : status = none ↔ reap = .waiting
  sending : ∀ exit, reap = .sending exit → status = some exit

namespace Reporting

variable {reap : ReapTask} {status : Option ChildExit} {exit : ChildExit}
  {m m' : Mailbox Sender ChildChunk outQueue}

theorem congr (h : Reporting reap status m) (hexits : exitsOf m'.history = exitsOf m.history)
    (htask : .reap ∈ m'.senders ↔ .reap ∈ m.senders) : Reporting reap status m' :=
  ⟨htask.trans h.task, hexits.trans h.exits, h.waits, h.sending⟩

/-- A pump sends. -/
theorem sent (h : Reporting reap status m) {kind : Stream} {chunk : Chunk}
    (hhistory : m'.history = m.history ++ [.out kind chunk]) (hsenders : m'.senders = m.senders) :
    Reporting reap status m' := by
  refine h.congr ?_ (by rw [hsenders])
  have hexits : exitsOf [.out kind chunk] = [] := rfl
  rw [hhistory, exitsOf_append, hexits, List.append_nil]

/-- A pump goes. -/
theorem leave (h : Reporting reap status m) (kind : Stream) :
    Reporting reap status (m.leave (.pump kind)) :=
  h.congr rfl (by simp [Mailbox.mem_leave])

theorem exited (h : Reporting .waiting status m) (exit : ChildExit) :
    Reporting (.sending exit) (some exit) m := by
  refine ⟨?_, ?_, by simp, fun exit' heq => by cases heq; rfl⟩
  · rw [h.task]
    simp
  · rw [h.exits, if_neg (by simp), if_neg (by simp)]

theorem reported (h : Reporting (.sending exit) status m) (hsend : m.send (.exited exit) = some m') :
    Reporting .ended status (m'.leave .reap) := by
  obtain ⟨hhistory, hsenders, -, -⟩ := Mailbox.send_eq_some hsend
  have hstatus := h.sending exit rfl
  refine ⟨by simp [Mailbox.mem_leave], ?_, by simp [hstatus], fun exit heq => by cases heq⟩
  have hexits := h.exits
  rw [if_neg (by simp)] at hexits
  rw [Mailbox.history_leave, hhistory, exitsOf_append, hexits, if_pos rfl, hstatus]
  rfl

theorem received (h : Reporting reap status m) {x : Option ChildChunk}
    (hrecv : m.recv = some (x, m')) : Reporting reap status m' := by
  obtain ⟨hhistory, hsenders, -, -, -⟩ := Mailbox.recv_cases hrecv
  exact h.congr (by rw [hhistory]) (by rw [hsenders])

theorem exitOnce (h : Reporting reap status m) : exitsOf m.received <+: status.toList := by
  have hexits : exitsOf m.received <+: exitsOf m.history := by
    rw [Mailbox.history, exitsOf_append]
    exact List.prefix_append _ _
  refine hexits.trans ?_
  rw [h.exits]
  split
  · exact List.prefix_rfl
  · exact List.nil_prefix

theorem ended_of_over (h : Reporting reap status m) (hover : m.Over) : reap = .ended := by
  by_contra hreap
  have hmem := h.task.2 hreap
  rw [hover.2] at hmem
  cases hmem

theorem reported_of_over (h : Reporting reap status m) (hover : m.Over) :
    ∃ exit, status = some exit ∧ exitsOf m.received = [exit] := by
  have hreap := h.ended_of_over hover
  obtain ⟨exit, hstatus⟩ : ∃ exit, status = some exit :=
    Option.ne_none_iff_exists'.1 fun hnone => by
      rw [h.waits.1 hnone] at hreap
      cases hreap
  refine ⟨exit, hstatus, ?_⟩
  rw [Mailbox.received_of_over hover, h.exits, if_pos hreap, hstatus]
  rfl

end Reporting

theorem reporting_start (kinds : List Stream) :
    Reporting .waiting none (.start (kinds.map .pump ++ [.reap])) := by
  refine ⟨?_, rfl, by simp, fun exit heq => by cases heq⟩
  simp [Mailbox.start]

/-! ### What the tasks keep -/

/-- Each pipe keeps what it was given, and its pump holds its sender while it runs. -/
structure Outlets.Sound (o : Outlets) : Prop where
  pipes : ∀ kind, (o.pipes kind).Keeps (bytesOf kind o.outbox.history)
  pumps : ∀ kind, .pump kind ∈ o.outbox.senders ↔ (o.pipes kind).pump.live = true
  reports : Reporting o.reap o.status o.outbox

variable {o o' : Outlets}

theorem sound_start : Outlets.start.Sound where
  pipes kind := ⟨fun _ => rfl, List.prefix_rfl, fun h => by cases h⟩
  pumps kind := by cases kind <;> simp [Outlets.start, Mailbox.start, OutputPump.live]
  reports := reporting_start [.stdout, .stderr]

@[simp] theorem pipes_setPipe_self (o : Outlets) (kind : Stream) (p : Outlet) :
    (o.setPipe kind p).pipes kind = p := Function.update_self _ _ _

theorem pipes_setPipe_of_ne (o : Outlets) {kind kind' : Stream} (h : kind' ≠ kind) (p : Outlet) :
    (o.setPipe kind p).pipes kind' = o.pipes kind' := Function.update_of_ne h _ _

namespace Outlets.Sound

/-- A pipe changes, and what was sent of it stays. -/
theorem setPipe (h : o.Sound) {kind : Stream} {p : Outlet}
    (hkeeps : p.Keeps (bytesOf kind o.outbox.history))
    (hlive : p.pump.live = (o.pipes kind).pump.live) : (o.setPipe kind p).Sound := by
  refine ⟨fun kind' => ?_, fun kind' => ?_, h.reports⟩
  · by_cases hkind : kind' = kind
    · subst hkind
      rw [pipes_setPipe_self]
      exact hkeeps
    · rw [pipes_setPipe_of_ne o hkind]
      exact h.pipes kind'
  · by_cases hkind : kind' = kind
    · subst hkind
      rw [pipes_setPipe_self, hlive]
      exact h.pumps kind'
    · rw [pipes_setPipe_of_ne o hkind]
      exact h.pumps kind'

theorem endPump (h : o.Sound) {kind : Stream} {why : PumpEnd}
    (hkeeps : Outlet.Keeps { o.pipes kind with pump := .ended why }
      (bytesOf kind o.outbox.history)) : (o.endPump kind why).Sound := by
  refine ⟨fun kind' => ?_, fun kind' => ?_, h.reports.leave kind⟩
  · by_cases hkind : kind' = kind
    · subst hkind
      simp only [Outlets.endPump, pipes_setPipe_self]
      exact hkeeps
    · simp only [Outlets.endPump, pipes_setPipe_of_ne o hkind]
      exact h.pipes kind'
  · rw [Outlets.endPump, Mailbox.mem_leave, h.pumps kind']
    by_cases hkind : kind' = kind
    · subst hkind
      simp [OutputPump.live]
    · simp [pipes_setPipe_of_ne o hkind, hkind]

theorem abortPump (h : o.Sound) (kind : Stream) : (o.abortPump kind).Sound := by
  unfold Outlets.abortPump
  split
  next => exact h.endPump (h.pipes kind).abort
  next => exact h

theorem discard (h : o.Sound) : o.discard.Sound := (h.abortPump .stdout).abortPump .stderr

/-- A chunk of one pipe enters the queue. -/
theorem sent (h : o.Sound) {kind : Stream} {chunk : Chunk}
    {outbox : Mailbox Sender ChildChunk outQueue} (hpump : (o.pipes kind).pump = .sending chunk)
    (hsend : o.outbox.send (.out kind chunk) = some outbox) :
    Sound { o.setPipe kind { o.pipes kind with pump := .reading } with outbox } := by
  obtain ⟨hhistory, hsenders, -, -⟩ := Mailbox.send_eq_some hsend
  refine ⟨fun kind' => ?_, fun kind' => ?_, h.reports.sent hhistory hsenders⟩
  · by_cases hkind : kind' = kind
    · subst hkind
      have hbytes : bytesOf kind' [.out kind' chunk] = chunk.1 := by
        simp [bytesOf, ChildChunk.bytes]
      simp only [pipes_setPipe_self, hhistory, bytesOf_append, hbytes]
      exact (h.pipes kind').send hpump
    · have hbytes : bytesOf kind' [.out kind chunk] = [] := by
        simp [bytesOf, ChildChunk.bytes, Ne.symm hkind]
      simp only [pipes_setPipe_of_ne o hkind, hhistory, bytesOf_append, hbytes, List.append_nil]
      exact h.pipes kind'
  · rw [hsenders, h.pumps kind']
    by_cases hkind : kind' = kind
    · subst hkind
      simp [hpump, OutputPump.live]
    · simp [pipes_setPipe_of_ne o hkind]

theorem reported (h : o.Sound) {exit : ChildExit} {outbox : Mailbox Sender ChildChunk outQueue}
    (hreap : o.reap = .sending exit) (hsend : o.outbox.send (.exited exit) = some outbox) :
    Sound { o with reap := .ended, outbox := outbox.leave .reap } := by
  obtain ⟨hhistory, hsenders, -, -⟩ := Mailbox.send_eq_some hsend
  have hbytes : ∀ kind, bytesOf kind [.exited exit] = [] := fun _ => rfl
  have hreports := h.reports
  rw [hreap] at hreports
  refine ⟨fun kind => ?_, fun kind => ?_, hreports.reported hsend⟩
  · rw [Mailbox.history_leave, hhistory, bytesOf_append, hbytes, List.append_nil]
    exact h.pipes kind
  · rw [Mailbox.mem_leave, hsenders, h.pumps kind]
    simp

theorem step (h : o.Sound) {event : OutletEvent} (hstep : o.step event = some o') : o'.Sound := by
  cases event with
  | written kind data =>
    simp only [Outlets.step, Option.ite_none_right_eq_some, Option.some.injEq] at hstep
    obtain ⟨hwriters, rfl⟩ := hstep
    exact h.setPipe ((h.pipes kind).write hwriters data) rfl
  | shut kind =>
    obtain rfl := Option.some.inj hstep
    exact h.setPipe (h.pipes kind).shut rfl
  | read kind n =>
    simp only [Outlets.step, Option.ite_none_right_eq_some, Option.map_eq_some_iff] at hstep
    obtain ⟨hpump, p, hread, rfl⟩ := hstep
    refine h.setPipe ((h.pipes kind).read hpump hread) ?_
    unfold Outlet.read at hread
    split at hread
    · cases hread
      rw [hpump]
      rfl
    · cases hread
  | endOfFile kind =>
    simp only [Outlets.step, Option.ite_none_right_eq_some, Option.some.injEq] at hstep
    obtain ⟨⟨hpump, hunread, hwriters⟩, rfl⟩ := hstep
    exact h.endPump ((h.pipes kind).finish hunread hwriters hpump)
  | readFailed kind =>
    simp only [Outlets.step, Option.ite_none_right_eq_some, Option.some.injEq] at hstep
    obtain ⟨hpump, rfl⟩ := hstep
    exact h.endPump ((h.pipes kind).fail hpump)
  | sent kind =>
    simp only [Outlets.step] at hstep
    split at hstep
    next chunk hpump =>
      obtain ⟨outbox, hsend, rfl⟩ := Option.map_eq_some_iff.1 hstep
      exact h.sent hpump hsend
    next => cases hstep
  | exited exit =>
    simp only [Outlets.step, Option.ite_none_right_eq_some, Option.some.injEq] at hstep
    obtain ⟨hreap, rfl⟩ := hstep
    have hreports := h.reports
    rw [hreap] at hreports
    exact ⟨h.pipes, h.pumps, hreports.exited exit⟩
  | reported =>
    simp only [Outlets.step] at hstep
    split at hstep
    next exit hreap =>
      obtain ⟨outbox, hsend, rfl⟩ := Option.map_eq_some_iff.1 hstep
      exact h.reported hreap hsend
    next => cases hstep
  | discarded =>
    obtain rfl := Option.some.inj hstep
    exact h.discard
  | received =>
    obtain ⟨⟨x, outbox⟩, hrecv, rfl⟩ := Option.map_eq_some_iff.1 hstep
    obtain ⟨hhistory, hsenders, -, -, -⟩ := Mailbox.recv_cases hrecv
    refine ⟨fun kind => ?_, fun kind => ?_, h.reports.received hrecv⟩
    · rw [hhistory]
      exact h.pipes kind
    · rw [hsenders]
      exact h.pumps kind

end Outlets.Sound

/-! ### What the driver sees of it -/

theorem received_abortPump (o : Outlets) (kind : Stream) :
    (o.abortPump kind).outbox.received = o.outbox.received := by
  unfold Outlets.abortPump
  split <;> rfl

theorem over_abortPump (h : o.outbox.Over) (kind : Stream) : (o.abortPump kind).outbox.Over := by
  unfold Outlets.abortPump
  split
  · exact h.leave (.pump kind)
  · exact h

/-- Only the driver receives. -/
theorem received_of_step {event : OutletEvent} (hstep : o.step event = some o')
    (hevent : event ≠ .received) : o'.outbox.received = o.outbox.received := by
  cases event with
  | written kind data =>
    simp only [Outlets.step, Option.ite_none_right_eq_some, Option.some.injEq] at hstep
    obtain ⟨-, rfl⟩ := hstep
    rfl
  | shut kind =>
    obtain rfl := Option.some.inj hstep
    rfl
  | read kind n =>
    simp only [Outlets.step, Option.ite_none_right_eq_some, Option.map_eq_some_iff] at hstep
    obtain ⟨-, p, -, rfl⟩ := hstep
    rfl
  | endOfFile kind | readFailed kind =>
    simp only [Outlets.step, Option.ite_none_right_eq_some, Option.some.injEq] at hstep
    obtain ⟨-, rfl⟩ := hstep
    rfl
  | sent kind =>
    simp only [Outlets.step] at hstep
    split at hstep
    next chunk hpump =>
      obtain ⟨outbox, hsend, rfl⟩ := Option.map_eq_some_iff.1 hstep
      exact (Mailbox.send_eq_some hsend).2.2.1
    next => cases hstep
  | exited exit =>
    simp only [Outlets.step, Option.ite_none_right_eq_some, Option.some.injEq] at hstep
    obtain ⟨-, rfl⟩ := hstep
    rfl
  | reported =>
    simp only [Outlets.step] at hstep
    split at hstep
    next exit hreap =>
      obtain ⟨outbox, hsend, rfl⟩ := Option.map_eq_some_iff.1 hstep
      exact (Mailbox.send_eq_some hsend).2.2.1
    next => cases hstep
  | discarded =>
    obtain rfl := Option.some.inj hstep
    exact (received_abortPump _ .stderr).trans (received_abortPump o .stdout)
  | received => exact absurd rfl hevent

/-! ### Whole runs -/

/-- What the driver has received, set against what the child did. -/
structure Outlets.Faithful (o : Outlets) : Prop where
  inOrder : ∀ kind, bytesOf kind o.outbox.received <+: (o.pipes kind).written
  exitOnce : exitsOf o.outbox.received <+: o.status.toList
  /-- The queue ends when it is empty and every task has ended. -/
  over_iff : o.outbox.Over ↔
    o.outbox.queue = [] ∧ o.reap = .ended ∧ ∀ kind, (o.pipes kind).pump.live = false
  /-- By then the exit was reported. -/
  reported : o.outbox.Over → ∃ exit, o.status = some exit ∧ exitsOf o.outbox.received = [exit]
  /-- By then a pump that saw the end of its pipe has sent all that was written to it. -/
  complete : o.outbox.Over → ∀ kind, (o.pipes kind).pump = .ended .endOfFile →
    (o.pipes kind).writers = false ∧ bytesOf kind o.outbox.received = (o.pipes kind).written

theorem Outlets.Sound.over_iff (h : o.Sound) : o.outbox.Over ↔
    o.outbox.queue = [] ∧ o.reap = .ended ∧ ∀ kind, (o.pipes kind).pump.live = false := by
  refine ⟨fun hover => ⟨hover.1, h.reports.ended_of_over hover, fun kind => ?_⟩, ?_⟩
  · by_contra hlive
    have hmem := (h.pumps kind).2 (by simpa using hlive)
    rw [hover.2] at hmem
    cases hmem
  · rintro ⟨hqueue, hreap, hpumps⟩
    refine ⟨hqueue, List.eq_nil_iff_forall_not_mem.2 fun sender hmem => ?_⟩
    cases sender with
    | pump kind =>
      have hlive := (h.pumps kind).1 hmem
      rw [hpumps kind] at hlive
      cases hlive
    | reap => exact h.reports.task.1 hmem hreap

/-- Once the queue has ended, it has ended. -/
theorem Outlets.Sound.over_of_step (h : o.Sound) (hover : o.outbox.Over) {event : OutletEvent}
    (hstep : o.step event = some o') : o'.outbox.Over := by
  obtain ⟨-, hreap, hpumps⟩ := h.over_iff.1 hover
  have hreading : ∀ kind, (o.pipes kind).pump ≠ .reading := by
    intro kind hpump
    have hlive := hpumps kind
    rw [hpump] at hlive
    cases hlive
  cases event with
  | written kind data =>
    simp only [Outlets.step, Option.ite_none_right_eq_some, Option.some.injEq] at hstep
    obtain ⟨-, rfl⟩ := hstep
    exact hover
  | shut kind =>
    obtain rfl := Option.some.inj hstep
    exact hover
  | read kind n =>
    simp only [Outlets.step, Option.ite_none_right_eq_some] at hstep
    exact absurd hstep.1 (hreading kind)
  | endOfFile kind =>
    simp only [Outlets.step, Option.ite_none_right_eq_some] at hstep
    exact absurd hstep.1.1 (hreading kind)
  | readFailed kind =>
    simp only [Outlets.step, Option.ite_none_right_eq_some] at hstep
    exact absurd hstep.1 (hreading kind)
  | sent kind =>
    simp only [Outlets.step] at hstep
    split at hstep
    next chunk hpump =>
      have hlive := hpumps kind
      rw [hpump] at hlive
      cases hlive
    next => cases hstep
  | exited exit =>
    simp only [Outlets.step, Option.ite_none_right_eq_some, Option.some.injEq] at hstep
    obtain ⟨-, rfl⟩ := hstep
    exact hover
  | reported =>
    simp only [Outlets.step, hreap] at hstep
    cases hstep
  | discarded =>
    obtain rfl := Option.some.inj hstep
    exact over_abortPump (over_abortPump hover .stdout) .stderr
  | received =>
    obtain ⟨⟨x, outbox⟩, hrecv, rfl⟩ := Option.map_eq_some_iff.1 hstep
    exact hover.recv hrecv

theorem Outlets.Sound.faithful (h : o.Sound) : o.Faithful where
  inOrder kind := by
    have hsent := bytesOf_isPrefix o.outbox.received_isPrefix kind
    exact (hsent.trans (List.prefix_append _ _)).trans (h.pipes kind).inOrder
  exitOnce := h.reports.exitOnce
  over_iff := h.over_iff
  reported := h.reports.reported_of_over
  complete hover kind hpump := by
    obtain ⟨hunread, hwriters⟩ := (h.pipes kind).ended hpump
    have hall := (h.pipes kind).lossless (by simp [hpump])
    refine ⟨hwriters, ?_⟩
    rw [Mailbox.received_of_over hover, ← hall, hunread, hpump]
    simp [OutputPump.inHand]

/-- **Whatever the order of the child, its pumps, its reap task and the driver**, the
driver receives a beginning of each stream, and the exit at most once; when the queue
ends, it has the exit, and each stream in full that was read to its end. -/
theorem outlets_faithful {events : List OutletEvent}
    (hrun : run Outlets.step .start events = some o) : o.Faithful :=
  (invariant_run (fun _ _ _ h hstep => Outlets.Sound.step h hstep) sound_start hrun).faithful

/-- The exit overtakes output that is still in the pipes. -/
def overtakingRun : List OutletEvent :=
  [.written .stdout [1, 2], .written .stderr [3], .read .stdout 1, .exited ⟨0, none⟩, .reported,
    .shut .stdout, .sent .stdout, .read .stdout 1, .received, .read .stderr 1, .sent .stderr,
    .sent .stdout, .endOfFile .stdout, .received, .shut .stderr, .endOfFile .stderr, .received,
    .received, .received]

theorem outlets_faithful_overtaking : ∃ o, run Outlets.step .start overtakingRun = some o ∧
    o.outbox.Over ∧ bytesOf .stdout o.outbox.received = [1, 2] ∧
    bytesOf .stderr o.outbox.received = [3] ∧ exitsOf o.outbox.received = [⟨0, none⟩] ∧
    o.Faithful := by
  refine ⟨_, rfl, ⟨rfl, rfl⟩, rfl, rfl, rfl, @outlets_faithful _ overtakingRun rfl⟩

end QuantumSsh.Channel
