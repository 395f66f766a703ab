import Mathlib.Data.List.Infix
import QuantumSsh.Channel.Outlets

/-!
# The output of a child on a terminal

`pump_pty` and `drain_master` (`exec.rs`), as far as they forward what the master reads.
The pump takes a place in the queue before it reads, and once the session leader was reaped
it forwards as many bytes as it is told that the master holds, and no more. What the terminal
makes of what is written to it (newlines, echo, a flush at an interrupt) is not the program's;
the streams here are what there is to read at the master. The pump's input half is the pump of
`ChildIo`; what that half can do here is to end the task.
-/

namespace QuantumSsh.Channel

open Program Transport

/-! ### The pump -/

/-- Why `pump_pty` ended. -/
inductive MasterEnd where
  /-- `drain_master` forwarded all it was to forward. -/
  | drained
  /-- A read of `drain_master` found nothing. -/
  | emptied
  /-- A read of `drain_master` failed. -/
  | drainFailed
  /-- A read found the end of the session. -/
  | endOfSession
  | readFailed
  /-- A write found the end of the session. -/
  | writeRefused
  | writeFailed
  /-- `discard_output`. -/
  | aborted
deriving Repr, DecidableEq

/-- What `master_holds` goes by: the answer of `FIONREAD`, which may fail, or on macOS the
capacity of a terminal's output queue. -/
inductive Holding where
  | fionread (count : Option ℕ)
  | capacity
deriving DecidableEq

/-- `MACOS_MASTER_CAPACITY`. -/
def macosMasterCapacity : ℕ := 1024

/-- `master_holds`. -/
def masterHolds : Holding → ℕ
  | .fionread count => count.getD 0
  | .capacity => macosMasterCapacity

/-- The pump has learned of the exit. -/
structure Notice where
  /-- How many bytes its reads had given by then. -/
  given : ℕ
  holding : Holding
  /-- What was given or there to read by then, less what was flushed since. -/
  there : Bytes
deriving DecidableEq

/-- How many bytes the reads give in all. -/
def Notice.bound (notice : Notice) : ℕ := notice.given + masterHolds notice.holding

/-- `pump_pty`, where it waits; `drain_master` still has so many bytes to forward. -/
inductive MasterPump where
  | looping (permit : Bool)
  | draining (remaining : ℕ)
  | forwarding (chunk : Chunk) (remaining : ℕ)
  | ended (why : MasterEnd)
deriving DecidableEq

def MasterPump.live : MasterPump → Bool
  | .ended _ => false
  | _ => true

def MasterPump.inHand : MasterPump → Bytes
  | .forwarding chunk _ => chunk.1
  | _ => []

/-- What `drain_master` has still to read. -/
def MasterPump.owed : MasterPump → Option ℕ
  | .draining remaining | .forwarding _ remaining => some remaining
  | .ended .drained => some 0
  | _ => none

/-- `drain_master` runs, or has come to its end. -/
def MasterPump.drains : MasterPump → Bool
  | .draining _ | .forwarding _ _ | .ended .drained | .ended .emptied => true
  | _ => false

/-- The places in the queue that the pump holds. -/
def MasterPump.places : MasterPump → ℕ
  | .looping true => 1
  | _ => 0

/-- The terminal, the tasks and their queue. -/
structure Terminal where
  /-- What the reads of the master gave. -/
  given : Bytes
  unread : Bytes
  /-- Some process holds the slave. -/
  slaves : Bool
  pump : MasterPump
  reap : ReapTask
  status : Option ChildExit
  /-- What was given or there to read when the leader was reaped, less what was flushed since. -/
  atExit : Option Bytes
  notice : Option Notice
  /-- `failed` was sent. -/
  failed : Bool
  outbox : Mailbox Sender ChildChunk outQueue

/-- A child just spawned. -/
def Terminal.start : Terminal where
  given := []
  unread := []
  slaves := true
  pump := .looping false
  reap := .waiting
  status := none
  atExit := none
  notice := none
  failed := false
  outbox := .start [.pump .stdout, .reap]

inductive TerminalEvent where
  /-- There is more to read: a process writes to the terminal, or it echoes. -/
  | produced (data : Bytes)
  /-- The terminal drops all but so many bytes of what is unread. -/
  | flushed (keep : ℕ)
  /-- The last process that held the slave closes it. -/
  | hungUp
  | reserved
  | read (n : ℕ)
  | endOfSession
  | readFailed
  | writeRefused
  | writeFailed
  /-- `Reaper::run` tells the pump, and returns. -/
  | exited (exit : ChildExit)
  /-- The pump learns of it, and `drain_master` asks what the master holds. -/
  | noticed (holding : Holding)
  | drainRead (n : ℕ)
  /-- A read finds nothing. -/
  | drainEmpty
  | drainFailed
  | drainSent
  | drained
  | reported
  | discarded
  | received
deriving DecidableEq

/-- The queue once the pump has dropped its place. -/
def Terminal.yielded (t : Terminal) : Mailbox Sender ChildChunk outQueue :=
  if 0 < t.pump.places then t.outbox.release else t.outbox

/-- The pump ends, and drops its `out_tx` and its place in the queue. -/
def Terminal.endPump (t : Terminal) (why : MasterEnd) : Terminal :=
  { t with pump := .ended why, outbox := t.yielded.leave (.pump .stdout) }

/-- A failure is reported before the pump ends. -/
def Terminal.fail (t : Terminal) (why : MasterEnd) : Terminal :=
  { t.endPump why with failed := true }

def Terminal.discard (t : Terminal) : Terminal := if t.pump.live then t.endPump .aborted else t

/-- `read` gives so many bytes. -/
def Terminal.take (t : Terminal) (n : ℕ) : Option (Chunk × Bytes) :=
  if h : t.unread.take n ≠ [] ∧ n ≤ chunkBound then
    some (⟨t.unread.take n, h.1, (List.length_take_le n _).trans h.2⟩, t.unread.drop n)
  else none

/-- The latest of the unread bytes are gone. -/
def Terminal.flush (t : Terminal) (keep : ℕ) : Terminal :=
  { t with
    unread := t.unread.take keep
    atExit := t.atExit.map (List.take (t.given.length + keep))
    notice := t.notice.map fun notice =>
      { notice with there := notice.there.take (t.given.length + keep) } }

def MasterPump.isLooping : MasterPump → Bool
  | .looping _ => true
  | _ => false

def Terminal.step (t : Terminal) : TerminalEvent → Option Terminal
  | .produced data =>
    if t.slaves then some { t with unread := t.unread ++ data } else none
  | .flushed keep => some (t.flush keep)
  | .hungUp => some { t with slaves := false }
  | .reserved =>
    if t.pump = .looping false then
      t.outbox.reserve.map fun outbox => { t with pump := .looping true, outbox }
    else none
  | .read n =>
    if t.pump = .looping true then
      (t.take n).bind fun (chunk, unread) => (t.outbox.fill (.out .stdout chunk)).map fun outbox =>
        { t with given := t.given ++ chunk.1, unread, pump := .looping false, outbox }
    else none
  | .endOfSession =>
    if t.pump = .looping true ∧ t.unread = [] ∧ t.slaves = false then some (t.endPump .endOfSession)
    else none
  | .readFailed => if t.pump = .looping true then some (t.fail .readFailed) else none
  | .writeRefused =>
    if t.pump.isLooping then some (t.endPump .writeRefused) else none
  | .writeFailed => if t.pump.isLooping then some (t.fail .writeFailed) else none
  | .exited exit =>
    if t.reap = .waiting then
      some { t with reap := .sending exit, status := some exit, atExit := some (t.given ++ t.unread) }
    else none
  | .noticed holding =>
    if t.pump.isLooping ∧ t.status.isSome then
      some { t with
        pump := .draining (masterHolds holding)
        notice := some ⟨t.given.length, holding, t.given ++ t.unread⟩
        outbox := t.yielded }
    else none
  | .drainRead n =>
    match t.pump with
    | .draining remaining =>
      if n ≤ remaining then
        (t.take n).map fun (chunk, unread) =>
          { t with
            given := t.given ++ chunk.1
            unread
            pump := .forwarding chunk (remaining - chunk.1.length) }
      else none
    | _ => none
  | .drainEmpty =>
    match t.pump with
    | .draining remaining =>
      if 0 < remaining ∧ t.unread = [] then some (t.endPump .emptied) else none
    | _ => none
  | .drainFailed =>
    match t.pump with
    | .draining remaining => if 0 < remaining then some (t.endPump .drainFailed) else none
    | _ => none
  | .drainSent =>
    match t.pump with
    | .forwarding chunk remaining => (t.outbox.send (.out .stdout chunk)).map fun outbox =>
        { t with pump := .draining remaining, outbox }
    | _ => none
  | .drained => if t.pump = .draining 0 then some (t.endPump .drained) else none
  | .reported =>
    match t.reap with
    | .sending exit => (t.outbox.send (.exited exit)).map fun outbox =>
        { t with reap := .ended, outbox := outbox.leave .reap }
    | _ => none
  | .discarded => some t.discard
  | .received => t.outbox.recv.map fun m => { t with outbox := m.2 }

/-! ### What the tasks keep -/

/-- What was given and what was sent, and what `drain_master` has still to read. -/
structure Terminal.Sound (t : Terminal) : Prop where
  inOrder : bytesOf .stdout t.outbox.history ++ t.pump.inHand <+: t.given
  lossless : t.pump ≠ .ended .aborted →
    bytesOf .stdout t.outbox.history ++ t.pump.inHand = t.given
  stderr : bytesOf .stderr t.outbox.history = []
  there : ∀ n, t.notice = some n → n.there <+: t.given ++ t.unread
  bounded : ∀ n, t.notice = some n → t.given.length ≤ n.bound
  owed : ∀ m n, t.pump.owed = some m → t.notice = some n → t.given.length + m = n.bound
  emptied : t.pump = .ended .emptied → ∀ n, t.notice = some n → n.there <+: t.given
  atExit : ∀ q, t.atExit = some q →
    q <+: t.given ++ t.unread ∧ ∀ n, t.notice = some n → q <+: n.there
  exited : t.atExit.isSome = t.status.isSome
  told : t.notice.isSome = true → t.status.isSome = true
  noticed : t.pump.drains = true → t.notice.isSome = true
  looping : t.pump.isLooping = true → t.notice = none
  ended : t.pump = .ended .endOfSession → t.unread = [] ∧ t.slaves = false
  failed : t.failed = true ↔ t.pump = .ended .readFailed ∨ t.pump = .ended .writeFailed
  pumps : .pump .stdout ∈ t.outbox.senders ↔ t.pump.live = true
  alone : .pump .stderr ∉ t.outbox.senders
  places : t.outbox.reserved = t.pump.places
  reports : Reporting t.reap t.status t.outbox

variable {t t' : Terminal}

@[simp] theorem history_yielded (t : Terminal) : t.yielded.history = t.outbox.history := by
  unfold Terminal.yielded
  split <;> rfl

@[simp] theorem senders_yielded (t : Terminal) : t.yielded.senders = t.outbox.senders := by
  unfold Terminal.yielded
  split <;> rfl

@[simp] theorem received_yielded (t : Terminal) : t.yielded.received = t.outbox.received := by
  unfold Terminal.yielded
  split <;> rfl

theorem reserved_yielded (h : t.outbox.reserved = t.pump.places) : t.yielded.reserved = 0 := by
  have hone : t.pump.places ≤ 1 := by
    unfold MasterPump.places
    split <;> omega
  unfold Terminal.yielded
  split
  · rw [Mailbox.reserved_release]
    omega
  · omega

theorem terminal_start : Terminal.start.Sound where
  inOrder := List.prefix_rfl
  lossless _ := rfl
  stderr := rfl
  there n hn := by cases hn
  bounded n hn := by cases hn
  owed m n hm := by cases hm
  emptied h := by cases h
  atExit q hq := by cases hq
  exited := rfl
  told h := by cases h
  noticed h := by cases h
  looping _ := rfl
  ended h := by cases h
  failed := by simp [Terminal.start]
  pumps := by simp [Terminal.start, Mailbox.start, MasterPump.live]
  alone := by simp [Terminal.start, Mailbox.start]
  places := rfl
  reports := reporting_start [.stdout]

@[simp] theorem bytesOf_out (kind : Stream) (chunk : Chunk) :
    bytesOf kind [.out kind chunk] = chunk.1 := by
  simp [bytesOf, ChildChunk.bytes]

theorem live_of_isLooping {pump : MasterPump} (h : pump.isLooping = true) : pump.live = true := by
  cases pump with
  | looping permit => rfl
  | _ => cases h

theorem inHand_of_isLooping {pump : MasterPump} (h : pump.isLooping = true) : pump.inHand = [] := by
  cases pump with
  | looping permit => rfl
  | _ => cases h

/-- The reads give the next bytes. -/
theorem take_eq_some {n : ℕ} {chunk : Chunk} {unread : Bytes} (h : t.take n = some (chunk, unread)) :
    chunk.1 ++ unread = t.unread ∧ chunk.1.length ≤ n := by
  unfold Terminal.take at h
  split at h
  · cases h
    exact ⟨List.take_append_drop n t.unread, List.length_take_le n t.unread⟩
  · cases h

namespace Terminal.Sound

theorem failed_of_live (h : t.Sound) (hlive : t.pump.live = true) : t.failed = false := by
  by_contra hfailed
  rcases h.failed.1 (by simpa using hfailed) with hpump | hpump <;>
    · rw [hpump] at hlive
      cases hlive

theorem not_aborted (hlive : t.pump.live = true) : t.pump ≠ .ended .aborted := by
  intro hpump
  rw [hpump] at hlive
  cases hlive

theorem produce (h : t.Sound) (hslaves : t.slaves = true) (data : Bytes) :
    Sound { t with unread := t.unread ++ data } := by
  have hgrows : t.given ++ t.unread <+: t.given ++ (t.unread ++ data) := by
    rw [← List.append_assoc]
    exact List.prefix_append _ _
  exact
    { h with
      there := fun n hn => (h.there n hn).trans hgrows
      atExit := fun q hq => ⟨(h.atExit q hq).1.trans hgrows, (h.atExit q hq).2⟩
      ended := fun hpump => by
        have hshut := (h.ended hpump).2
        rw [hslaves] at hshut
        cases hshut }

/-- What is left of a beginning is a beginning of what is left. -/
theorem take_isPrefix {q given unread : Bytes} (h : q <+: given ++ unread) (keep : ℕ) :
    q.take (given.length + keep) <+: given ++ unread.take keep := by
  rw [← List.take_length_add_append]
  exact List.IsPrefix.take h _

theorem flush (h : t.Sound) (keep : ℕ) : (t.flush keep).Sound where
  inOrder := h.inOrder
  lossless := h.lossless
  stderr := h.stderr
  there n hn := by
    obtain ⟨n₀, hn₀, rfl⟩ := Option.map_eq_some_iff.1 hn
    exact take_isPrefix (h.there n₀ hn₀) keep
  bounded n hn := by
    obtain ⟨n₀, hn₀, rfl⟩ := Option.map_eq_some_iff.1 hn
    exact h.bounded n₀ hn₀
  owed m n hm hn := by
    obtain ⟨n₀, hn₀, rfl⟩ := Option.map_eq_some_iff.1 hn
    exact h.owed m n₀ hm hn₀
  emptied hpump n hn := by
    obtain ⟨n₀, hn₀, rfl⟩ := Option.map_eq_some_iff.1 hn
    exact (List.take_prefix _ _).trans (h.emptied hpump n₀ hn₀)
  atExit q hq := by
    obtain ⟨q₀, hq₀, rfl⟩ := Option.map_eq_some_iff.1 hq
    obtain ⟨hsofar, hthere⟩ := h.atExit q₀ hq₀
    refine ⟨take_isPrefix hsofar keep, fun n hn => ?_⟩
    obtain ⟨n₀, hn₀, rfl⟩ := Option.map_eq_some_iff.1 hn
    exact List.IsPrefix.take (hthere n₀ hn₀) _
  exited := (Option.isSome_map ..).trans h.exited
  told hn := h.told ((Option.isSome_map ..).symm.trans hn)
  noticed hdrains := (Option.isSome_map ..).trans (h.noticed hdrains)
  looping hpump := by
    change t.notice.map _ = none
    rw [h.looping hpump]
    rfl
  ended hpump := by
    obtain ⟨hunread, hslaves⟩ := h.ended hpump
    refine ⟨?_, hslaves⟩
    change t.unread.take keep = []
    rw [hunread, List.take_nil]
  failed := h.failed
  pumps := h.pumps
  alone := h.alone
  places := h.places
  reports := h.reports

/-- The pump ends with nothing in its hand, unless it is aborted. -/
theorem endPump (h : t.Sound) {why : MasterEnd} {failed : Bool}
    (hhand : why = .aborted ∨ t.pump.inHand = []) (hlive : t.pump.live = true)
    (howed : why = .drained → t.pump.owed = some 0)
    (hdrains : why = .drained ∨ why = .emptied → t.pump.drains = true)
    (hemptied : why = .emptied → t.unread = [])
    (hended : why = .endOfSession → t.unread = [] ∧ t.slaves = false)
    (hfailed : failed = true ↔ why = .readFailed ∨ why = .writeFailed) :
    Sound { t.endPump why with failed } := by
  have hhistory : (t.endPump why).outbox.history = t.outbox.history := history_yielded t
  have hsenders : ∀ sender, sender ∈ (t.endPump why).outbox.senders ↔
      sender ∈ t.outbox.senders ∧ sender ≠ .pump .stdout := by
    intro sender
    rw [← senders_yielded t]
    exact @Mailbox.mem_leave _ _ _ t.yielded _ _ _
  have hsent := (List.prefix_append (bytesOf .stdout t.outbox.history) t.pump.inHand)
  refine
    { inOrder := ?_
      lossless := fun hpump => ?_
      stderr := by rw [hhistory, h.stderr]
      there := h.there
      bounded := h.bounded
      owed := fun m n hm hn => ?_
      emptied := fun hpump n hn => ?_
      atExit := h.atExit
      exited := h.exited
      told := h.told
      noticed := fun hpump => h.noticed (hdrains ?_)
      looping := fun hpump => by cases hpump
      ended := fun hpump => hended (by simpa [Terminal.endPump] using hpump)
      failed := by simpa [Terminal.endPump] using hfailed
      pumps := ?_
      alone := ?_
      places := ?_
      reports := ?_ }
  · rw [hhistory]
    simpa [MasterPump.inHand, Terminal.endPump] using hsent.trans h.inOrder
  · have hinHand : t.pump.inHand = [] :=
      hhand.resolve_left fun hwhy => hpump (by simp [Terminal.endPump, hwhy])
    have hall := h.lossless (not_aborted hlive)
    rw [hinHand] at hall
    rw [hhistory]
    exact hall
  · obtain ⟨hwhy, rfl⟩ : why = .drained ∧ m = 0 := by
      cases why <;> simp_all [MasterPump.owed, Terminal.endPump]
    exact h.owed 0 n (howed hwhy) hn
  · have hwhy : why = .emptied := by simpa [Terminal.endPump] using hpump
    have hthere := h.there n hn
    rwa [hemptied hwhy, List.append_nil] at hthere
  · cases why with
    | drained => exact .inl rfl
    | emptied => exact .inr rfl
    | _ => cases hpump
  · rw [hsenders]
    simp [MasterPump.live, Terminal.endPump]
  · rw [hsenders]
    exact fun hmem => h.alone hmem.1
  · exact reserved_yielded h.places
  · refine h.reports.congr (by rw [hhistory]) ?_
    rw [hsenders]
    simp

theorem discard (h : t.Sound) : t.discard.Sound := by
  unfold Terminal.discard
  split
  next hlive =>
    have hfailed := h.failed_of_live hlive
    exact h.endPump (.inl rfl) hlive (by simp) (by simp) (by simp) (by simp) (by simp [hfailed])
  next => exact h

/-- The pump goes on. -/
theorem pump (h : t.Sound) {pump : MasterPump} {given unread : Bytes} {notice : Option Notice}
    {outbox : Mailbox Sender ChildChunk outQueue} (hlive : t.pump.live = true)
    (hlive' : pump.live = true) (hsenders : outbox.senders = t.outbox.senders)
    (hexits : exitsOf outbox.history = exitsOf t.outbox.history)
    (hplaces : outbox.reserved = pump.places)
    (hsent : bytesOf .stdout outbox.history ++ pump.inHand = given)
    (hstream : given ++ unread = t.given ++ t.unread)
    (hstderr : bytesOf .stderr outbox.history = []) (hlooping : pump.isLooping = true → notice = none)
    (hdrains : pump.drains = true → notice.isSome = true)
    (hnotice : ∀ n, notice = some n → t.status.isSome = true ∧ n.there <+: t.given ++ t.unread ∧
      (∀ q, t.atExit = some q → q <+: n.there) ∧ given.length ≤ n.bound ∧
      ∀ m, pump.owed = some m → given.length + m = n.bound) :
    Sound { t with pump, given, unread, notice, outbox } := by
  have hended : ∀ why, pump ≠ .ended why := by
    intro why hpump
    rw [hpump] at hlive'
    cases hlive'
  have hfailed := h.failed_of_live hlive
  exact
    { inOrder := hsent ▸ List.prefix_rfl
      lossless := fun _ => hsent
      stderr := hstderr
      there := fun n hn => hstream ▸ (hnotice n hn).2.1
      bounded := fun n hn => (hnotice n hn).2.2.2.1
      owed := fun m n hm hn => (hnotice n hn).2.2.2.2 m hm
      emptied := fun hpump => absurd hpump (hended _)
      atExit := fun q hq => ⟨hstream ▸ (h.atExit q hq).1, fun n hn => (hnotice n hn).2.2.1 q hq⟩
      exited := h.exited
      told := fun hn => by
        obtain ⟨n, hn⟩ := Option.isSome_iff_exists.1 hn
        exact (hnotice n hn).1
      noticed := hdrains
      looping := hlooping
      ended := fun hpump => absurd hpump (hended _)
      failed := by simp [hfailed, hended]
      pumps := by rw [hsenders, h.pumps, hlive, hlive']
      alone := by rw [hsenders]; exact h.alone
      places := hplaces
      reports := h.reports.congr hexits (by rw [hsenders]) }

/-- A pump that still reads in its loop. -/
theorem loop (h : t.Sound) {pump : MasterPump} {given unread : Bytes}
    {outbox : Mailbox Sender ChildChunk outQueue} (hpump : t.pump.isLooping = true)
    (hpump' : pump.isLooping = true) (hsenders : outbox.senders = t.outbox.senders)
    (hexits : exitsOf outbox.history = exitsOf t.outbox.history)
    (hplaces : outbox.reserved = pump.places)
    (hsent : bytesOf .stdout outbox.history = given) (hstream : given ++ unread = t.given ++ t.unread)
    (hstderr : bytesOf .stderr outbox.history = []) :
    Sound { t with pump, given, unread, outbox } := by
  have hnone := h.looping hpump
  refine h.pump (live_of_isLooping hpump) (live_of_isLooping hpump') hsenders hexits hplaces ?_
    hstream hstderr (fun _ => hnone) ?_ ?_
  · rw [inHand_of_isLooping hpump', List.append_nil, hsent]
  · intro hdrains
    cases pump with
    | looping permit => cases hdrains
    | _ => cases hpump'
  · intro n hn
    cases hnone.symm.trans hn

theorem reserve (h : t.Sound) {outbox : Mailbox Sender ChildChunk outQueue}
    (hpump : t.pump = .looping false) (hreserve : t.outbox.reserve = some outbox) :
    Sound { t with pump := .looping true, outbox } := by
  obtain ⟨hhistory, hsenders, -, hreserved⟩ := Mailbox.reserve_eq_some hreserve
  have hplaces := h.places
  have hall := h.lossless (by simp [hpump])
  rw [hpump] at hplaces hall
  refine h.loop (by rw [hpump]; rfl) rfl hsenders (by rw [hhistory]) ?_ ?_ rfl ?_
  · rw [hreserved, hplaces]
    rfl
  · rw [hhistory, ← hall]
    exact (List.append_nil _).symm
  · rw [hhistory, h.stderr]

theorem read (h : t.Sound) {outbox : Mailbox Sender ChildChunk outQueue} {n : ℕ} {chunk : Chunk}
    {unread : Bytes} (hpump : t.pump = .looping true) (htake : t.take n = some (chunk, unread))
    (hfill : t.outbox.fill (.out .stdout chunk) = some outbox) :
    Sound { t with given := t.given ++ chunk.1, unread, pump := .looping false, outbox } := by
  obtain ⟨hhistory, hsenders, -, hreserved⟩ := Mailbox.fill_eq_some hfill
  obtain ⟨hunread, -⟩ := take_eq_some htake
  have hplaces := h.places
  have hall := h.lossless (by simp [hpump])
  rw [hpump] at hplaces hall
  refine h.loop (by rw [hpump]; rfl) rfl hsenders ?_ ?_ ?_ ?_ ?_
  · rw [hhistory, exitsOf_append]
    exact List.append_nil _
  · rw [hreserved, hplaces]
    rfl
  · rw [hhistory, bytesOf_append, bytesOf_out, ← hall]
    simp [MasterPump.inHand]
  · rw [List.append_assoc, hunread]
  · rw [hhistory, bytesOf_append, h.stderr]
    rfl

/-- From here on the pump reads as much as it was told, and no more. -/
theorem notice (h : t.Sound) (hpump : t.pump.isLooping = true)
    (hstatus : t.status.isSome = true) (holding : Holding) :
    Sound { t with
      pump := .draining (masterHolds holding)
      notice := some ⟨t.given.length, holding, t.given ++ t.unread⟩
      outbox := t.yielded } := by
  have hinHand := inHand_of_isLooping hpump
  have hlive := live_of_isLooping hpump
  have hall := h.lossless (not_aborted hlive)
  refine h.pump hlive rfl (senders_yielded t) (by rw [history_yielded])
    (reserved_yielded h.places) ?_ rfl ?_ (fun hcon => by cases hcon) (fun _ => rfl) ?_
  · rw [history_yielded, ← hall, hinHand]
    rfl
  · rw [history_yielded, h.stderr]
  · intro n hn
    obtain rfl := Option.some.inj hn
    refine ⟨hstatus, List.prefix_rfl, fun q hq => (h.atExit q hq).1, Nat.le_add_right _ _, ?_⟩
    intro m hm
    obtain rfl := Option.some.inj hm
    rfl

theorem drainRead (h : t.Sound) {remaining n : ℕ} {chunk : Chunk} {unread : Bytes}
    (hpump : t.pump = .draining remaining) (hn : n ≤ remaining)
    (htake : t.take n = some (chunk, unread)) :
    Sound { t with
      given := t.given ++ chunk.1
      unread
      pump := .forwarding chunk (remaining - chunk.1.length) } := by
  obtain ⟨hunread, hlength⟩ := take_eq_some htake
  have hlive : t.pump.live = true := by rw [hpump]; rfl
  have howed : t.pump.owed = some remaining := by rw [hpump]; rfl
  have hdrains : t.pump.drains = true := by rw [hpump]; rfl
  have hplaces := h.places
  have hall := h.lossless (not_aborted hlive)
  rw [hpump] at hplaces hall
  refine h.pump hlive rfl rfl rfl hplaces ?_ ?_ h.stderr (fun hcon => by cases hcon)
    (fun _ => h.noticed hdrains) ?_
  · rw [← hall]
    simp [MasterPump.inHand]
  · rw [List.append_assoc, hunread]
  · intro p hp
    have hcount := h.owed remaining p howed hp
    have hgrown : (t.given ++ chunk.1).length = t.given.length + chunk.1.length :=
      List.length_append
    refine ⟨h.told (by rw [hp]; rfl), h.there p hp, fun q hq => (h.atExit q hq).2 p hp, by omega, ?_⟩
    intro m hm
    obtain rfl : remaining - chunk.1.length = m := Option.some.inj hm
    omega

theorem drainSent (h : t.Sound) {remaining : ℕ} {chunk : Chunk}
    {outbox : Mailbox Sender ChildChunk outQueue} (hpump : t.pump = .forwarding chunk remaining)
    (hsend : t.outbox.send (.out .stdout chunk) = some outbox) :
    Sound { t with pump := .draining remaining, outbox } := by
  obtain ⟨hhistory, hsenders, -, hreserved⟩ := Mailbox.send_eq_some hsend
  have hlive : t.pump.live = true := by rw [hpump]; rfl
  have howed : t.pump.owed = some remaining := by rw [hpump]; rfl
  have hdrains : t.pump.drains = true := by rw [hpump]; rfl
  have hplaces := h.places
  have hall := h.lossless (not_aborted hlive)
  rw [hpump] at hplaces hall
  refine h.pump hlive rfl hsenders ?_ ?_ ?_ rfl ?_ (fun hcon => by cases hcon)
    (fun _ => h.noticed hdrains) ?_
  · rw [hhistory, exitsOf_append]
    exact List.append_nil _
  · rw [hreserved, hplaces]
    rfl
  · rw [hhistory, bytesOf_append, bytesOf_out, ← hall]
    simp [MasterPump.inHand]
  · rw [hhistory, bytesOf_append, h.stderr]
    rfl
  · intro p hp
    refine ⟨h.told (by rw [hp]; rfl), h.there p hp, fun q hq => (h.atExit q hq).2 p hp,
      h.bounded p hp, ?_⟩
    intro m hm
    obtain rfl := Option.some.inj hm
    exact h.owed _ p howed hp

theorem exit (h : t.Sound) (hreap : t.reap = .waiting) (exit : ChildExit) :
    Sound { t with
      reap := .sending exit
      status := some exit
      atExit := some (t.given ++ t.unread) } := by
  have hreports := h.reports
  rw [hreap] at hreports
  have hstatus : t.status = none := hreports.waits.2 rfl
  exact
    { h with
      atExit := fun q hq => by
        obtain rfl := Option.some.inj hq
        refine ⟨List.prefix_rfl, fun n hn => ?_⟩
        have htold := h.told (by rw [hn]; rfl)
        rw [hstatus] at htold
        cases htold
      exited := rfl
      told := fun _ => rfl
      reports := hreports.exited exit }

theorem report (h : t.Sound) {exit : ChildExit} {outbox : Mailbox Sender ChildChunk outQueue}
    (hreap : t.reap = .sending exit) (hsend : t.outbox.send (.exited exit) = some outbox) :
    Sound { t with reap := .ended, outbox := outbox.leave .reap } := by
  obtain ⟨hhistory, hsenders, -, hreserved⟩ := Mailbox.send_eq_some hsend
  have hbytes : ∀ kind, bytesOf kind (outbox.leave .reap).history =
      bytesOf kind t.outbox.history := by
    intro kind
    rw [Mailbox.history_leave, hhistory, bytesOf_append]
    exact List.append_nil _
  have hreports := h.reports
  rw [hreap] at hreports
  exact
    { h with
      inOrder := by rw [hbytes]; exact h.inOrder
      lossless := fun hpump => by rw [hbytes]; exact h.lossless hpump
      stderr := by rw [hbytes]; exact h.stderr
      pumps := by simp [Mailbox.mem_leave, hsenders, h.pumps]
      alone := by simp [Mailbox.mem_leave, hsenders, h.alone]
      places := by rw [Mailbox.reserved_leave, hreserved]; exact h.places
      reports := hreports.reported hsend }

theorem receive (h : t.Sound) {x : Option ChildChunk} {outbox : Mailbox Sender ChildChunk outQueue}
    (hrecv : t.outbox.recv = some (x, outbox)) : Sound { t with outbox } := by
  obtain ⟨hhistory, hsenders, hreserved, -, -⟩ := Mailbox.recv_cases hrecv
  exact
    { h with
      inOrder := by rw [hhistory]; exact h.inOrder
      lossless := fun hpump => by rw [hhistory]; exact h.lossless hpump
      stderr := by rw [hhistory]; exact h.stderr
      pumps := by rw [hsenders]; exact h.pumps
      alone := by rw [hsenders]; exact h.alone
      places := by rw [hreserved]; exact h.places
      reports := h.reports.received hrecv }

theorem step (h : t.Sound) {event : TerminalEvent} (hstep : t.step event = some t') : t'.Sound := by
  cases event with
  | produced data =>
    simp only [Terminal.step, Option.ite_none_right_eq_some, Option.some.injEq] at hstep
    obtain ⟨hslaves, rfl⟩ := hstep
    exact h.produce hslaves data
  | flushed keep =>
    obtain rfl := Option.some.inj hstep
    exact h.flush keep
  | hungUp =>
    obtain rfl := Option.some.inj hstep
    exact { h with ended := fun hpump => ⟨(h.ended hpump).1, rfl⟩ }
  | reserved =>
    simp only [Terminal.step, Option.ite_none_right_eq_some, Option.map_eq_some_iff] at hstep
    obtain ⟨hpump, outbox, hreserve, rfl⟩ := hstep
    exact h.reserve hpump hreserve
  | read n =>
    simp only [Terminal.step, Option.ite_none_right_eq_some, Option.bind_eq_some_iff,
      Option.map_eq_some_iff] at hstep
    obtain ⟨hpump, ⟨chunk, unread⟩, htake, outbox, hfill, rfl⟩ := hstep
    exact h.read hpump htake hfill
  | endOfSession =>
    simp only [Terminal.step, Option.ite_none_right_eq_some, Option.some.injEq] at hstep
    obtain ⟨⟨hpump, hunread, hslaves⟩, rfl⟩ := hstep
    have hlive : t.pump.live = true := by rw [hpump]; rfl
    have hfailed := h.failed_of_live hlive
    exact h.endPump (.inr (by rw [hpump]; rfl)) hlive (by simp) (by simp) (by simp)
      (fun _ => ⟨hunread, hslaves⟩) (by simp [hfailed])
  | readFailed =>
    simp only [Terminal.step, Option.ite_none_right_eq_some, Option.some.injEq] at hstep
    obtain ⟨hpump, rfl⟩ := hstep
    exact h.endPump (.inr (by rw [hpump]; rfl)) (by rw [hpump]; rfl) (by simp) (by simp) (by simp)
      (by simp) (by simp)
  | writeRefused =>
    simp only [Terminal.step, Option.ite_none_right_eq_some, Option.some.injEq] at hstep
    obtain ⟨hpump, rfl⟩ := hstep
    have hlive := live_of_isLooping hpump
    have hfailed := h.failed_of_live hlive
    exact h.endPump (.inr (inHand_of_isLooping hpump)) hlive (by simp) (by simp) (by simp) (by simp)
      (by simp [hfailed])
  | writeFailed =>
    simp only [Terminal.step, Option.ite_none_right_eq_some, Option.some.injEq] at hstep
    obtain ⟨hpump, rfl⟩ := hstep
    exact h.endPump (.inr (inHand_of_isLooping hpump)) (live_of_isLooping hpump) (by simp) (by simp)
      (by simp) (by simp) (by simp)
  | exited exit =>
    simp only [Terminal.step, Option.ite_none_right_eq_some, Option.some.injEq] at hstep
    obtain ⟨hreap, rfl⟩ := hstep
    exact h.exit hreap exit
  | noticed holding =>
    simp only [Terminal.step, Option.ite_none_right_eq_some, Option.some.injEq] at hstep
    obtain ⟨⟨hpump, hstatus⟩, rfl⟩ := hstep
    exact h.notice hpump hstatus holding
  | drainRead n =>
    simp only [Terminal.step] at hstep
    split at hstep
    next remaining hpump =>
      simp only [Option.ite_none_right_eq_some, Option.map_eq_some_iff] at hstep
      obtain ⟨hn, ⟨chunk, unread⟩, htake, rfl⟩ := hstep
      exact h.drainRead hpump hn htake
    next => cases hstep
  | drainEmpty =>
    simp only [Terminal.step] at hstep
    split at hstep
    next remaining hpump =>
      simp only [Option.ite_none_right_eq_some, Option.some.injEq] at hstep
      obtain ⟨⟨-, hunread⟩, rfl⟩ := hstep
      have hlive : t.pump.live = true := by rw [hpump]; rfl
      have hfailed := h.failed_of_live hlive
      exact h.endPump (.inr (by rw [hpump]; rfl)) hlive (by simp) (fun _ => by rw [hpump]; rfl)
        (fun _ => hunread) (by simp) (by simp [hfailed])
    next => cases hstep
  | drainFailed =>
    simp only [Terminal.step] at hstep
    split at hstep
    next remaining hpump =>
      simp only [Option.ite_none_right_eq_some, Option.some.injEq] at hstep
      obtain ⟨-, rfl⟩ := hstep
      have hlive : t.pump.live = true := by rw [hpump]; rfl
      have hfailed := h.failed_of_live hlive
      exact h.endPump (.inr (by rw [hpump]; rfl)) hlive (by simp) (by simp) (by simp) (by simp)
        (by simp [hfailed])
    next => cases hstep
  | drainSent =>
    simp only [Terminal.step] at hstep
    split at hstep
    next chunk remaining hpump =>
      obtain ⟨outbox, hsend, rfl⟩ := Option.map_eq_some_iff.1 hstep
      exact h.drainSent hpump hsend
    next => cases hstep
  | drained =>
    simp only [Terminal.step, Option.ite_none_right_eq_some, Option.some.injEq] at hstep
    obtain ⟨hpump, rfl⟩ := hstep
    have hlive : t.pump.live = true := by rw [hpump]; rfl
    have hfailed := h.failed_of_live hlive
    exact h.endPump (.inr (by rw [hpump]; rfl)) hlive (fun _ => by rw [hpump]; rfl)
      (fun _ => by rw [hpump]; rfl) (by simp) (by simp) (by simp [hfailed])
  | reported =>
    simp only [Terminal.step] at hstep
    split at hstep
    next exit hreap =>
      obtain ⟨outbox, hsend, rfl⟩ := Option.map_eq_some_iff.1 hstep
      exact h.report hreap hsend
    next => cases hstep
  | discarded =>
    obtain rfl := Option.some.inj hstep
    exact h.discard
  | received =>
    obtain ⟨⟨x, outbox⟩, hrecv, rfl⟩ := Option.map_eq_some_iff.1 hstep
    exact h.receive hrecv

end Terminal.Sound

/-! ### What the driver sees of it -/

theorem received_endPump (t : Terminal) (why : MasterEnd) :
    (t.endPump why).outbox.received = t.outbox.received := received_yielded t

theorem received_discard (t : Terminal) : t.discard.outbox.received = t.outbox.received := by
  unfold Terminal.discard
  split
  · exact received_endPump t .aborted
  · rfl

/-- Only the driver receives. -/
theorem received_of_terminal_step {event : TerminalEvent} (hstep : t.step event = some t')
    (hevent : event ≠ .received) : t'.outbox.received = t.outbox.received := by
  cases event with
  | produced data | exited exit =>
    simp only [Terminal.step, Option.ite_none_right_eq_some, Option.some.injEq] at hstep
    obtain ⟨-, rfl⟩ := hstep
    rfl
  | hungUp | flushed keep =>
    obtain rfl := Option.some.inj hstep
    rfl
  | reserved =>
    simp only [Terminal.step, Option.ite_none_right_eq_some, Option.map_eq_some_iff] at hstep
    obtain ⟨-, outbox, hreserve, rfl⟩ := hstep
    exact (Mailbox.reserve_eq_some hreserve).2.2.1
  | read n =>
    simp only [Terminal.step, Option.ite_none_right_eq_some, Option.bind_eq_some_iff,
      Option.map_eq_some_iff] at hstep
    obtain ⟨-, _, -, outbox, hfill, rfl⟩ := hstep
    exact (Mailbox.fill_eq_some hfill).2.2.1
  | endOfSession | writeRefused | drained =>
    simp only [Terminal.step, Option.ite_none_right_eq_some, Option.some.injEq] at hstep
    obtain ⟨-, rfl⟩ := hstep
    exact received_endPump t _
  | readFailed =>
    simp only [Terminal.step, Option.ite_none_right_eq_some, Option.some.injEq] at hstep
    obtain ⟨-, rfl⟩ := hstep
    exact received_endPump t .readFailed
  | writeFailed =>
    simp only [Terminal.step, Option.ite_none_right_eq_some, Option.some.injEq] at hstep
    obtain ⟨-, rfl⟩ := hstep
    exact received_endPump t .writeFailed
  | noticed holding =>
    simp only [Terminal.step, Option.ite_none_right_eq_some, Option.some.injEq] at hstep
    obtain ⟨-, rfl⟩ := hstep
    exact received_yielded t
  | drainRead n =>
    simp only [Terminal.step] at hstep
    split at hstep
    next remaining hpump =>
      simp only [Option.ite_none_right_eq_some, Option.map_eq_some_iff] at hstep
      obtain ⟨-, _, -, rfl⟩ := hstep
      rfl
    next => cases hstep
  | drainEmpty | drainFailed =>
    simp only [Terminal.step] at hstep
    split at hstep
    next remaining hpump =>
      simp only [Option.ite_none_right_eq_some, Option.some.injEq] at hstep
      obtain ⟨-, rfl⟩ := hstep
      exact received_endPump t _
    next => cases hstep
  | drainSent =>
    simp only [Terminal.step] at hstep
    split at hstep
    next chunk remaining hpump =>
      obtain ⟨outbox, hsend, rfl⟩ := Option.map_eq_some_iff.1 hstep
      exact (Mailbox.send_eq_some hsend).2.2.1
    next => cases hstep
  | reported =>
    simp only [Terminal.step] at hstep
    split at hstep
    next exit hreap =>
      obtain ⟨outbox, hsend, rfl⟩ := Option.map_eq_some_iff.1 hstep
      exact (Mailbox.send_eq_some hsend).2.2.1
    next => cases hstep
  | discarded =>
    obtain rfl := Option.some.inj hstep
    exact received_discard t
  | received => exact absurd rfl hevent

/-! ### Whole runs -/

/-- What the end of the pump says of the stream that was sent. -/
structure Terminal.Whole (t : Terminal) (data : Bytes) : Prop where
  given : t.pump ≠ .ended .aborted → data = t.given
  /-- The pump read to the end of the session. -/
  session : t.pump = .ended .endOfSession → t.slaves = false ∧ t.unread = []
  /-- It read as many bytes as it was told. When these were all that there was, so was what
  there was at the exit. -/
  drained : t.pump = .ended .drained → ∃ n q, t.notice = some n ∧ t.atExit = some q ∧
    data.length = n.bound ∧ (n.there.length ≤ n.bound → n.there <+: data ∧ q <+: data)
  /-- It was told more, and found nothing left. -/
  emptied : t.pump = .ended .emptied → ∃ n q, t.notice = some n ∧ t.atExit = some q ∧
    n.there <+: data ∧ q <+: data

/-- What the driver has received, set against what the master gave. -/
structure Terminal.Faithful (t : Terminal) : Prop where
  inOrder : bytesOf .stdout t.outbox.received <+: t.given
  oneStream : bytesOf .stderr t.outbox.received = []
  exitOnce : exitsOf t.outbox.received <+: t.status.toList
  /-- Once the pump has learned of the exit, the reads give no more than it is told. -/
  bounded : ∀ n, t.notice = some n → t.given.length ≤ n.bound
  /-- If that is no more than there was, nothing that came later is sent. -/
  settled : ∀ n, t.notice = some n → n.bound ≤ n.there.length →
    bytesOf .stdout t.outbox.received <+: n.there
  /-- The queue ends when it is empty and both tasks have ended. -/
  over_iff : t.outbox.Over ↔ t.outbox.queue = [] ∧ t.reap = .ended ∧ t.pump.live = false
  /-- By then the exit was reported. -/
  reported : t.outbox.Over → ∃ exit, t.status = some exit ∧ exitsOf t.outbox.received = [exit]
  whole : t.outbox.Over → t.Whole (bytesOf .stdout t.outbox.received)
  failed_iff : t.failed = true ↔ t.pump = .ended .readFailed ∨ t.pump = .ended .writeFailed

theorem Terminal.Sound.over_iff (h : t.Sound) :
    t.outbox.Over ↔ t.outbox.queue = [] ∧ t.reap = .ended ∧ t.pump.live = false := by
  refine ⟨fun hover => ⟨hover.1, h.reports.ended_of_over hover, ?_⟩, ?_⟩
  · by_contra hlive
    have hmem := h.pumps.2 (by simpa using hlive)
    rw [hover.2] at hmem
    cases hmem
  · rintro ⟨hqueue, hreap, hpump⟩
    refine ⟨hqueue, List.eq_nil_iff_forall_not_mem.2 fun sender hmem => ?_⟩
    cases sender with
    | pump kind =>
      cases kind with
      | stdout =>
        have hlive := h.pumps.1 hmem
        rw [hpump] at hlive
        cases hlive
      | stderr => exact h.alone hmem
    | reap => exact h.reports.task.1 hmem hreap

/-- Once the queue has ended, it has ended. -/
theorem Terminal.Sound.over_of_step (h : t.Sound) (hover : t.outbox.Over) {event : TerminalEvent}
    (hstep : t.step event = some t') : t'.outbox.Over := by
  obtain ⟨-, hreap, hpump⟩ := h.over_iff.1 hover
  obtain ⟨why, hended⟩ : ∃ why, t.pump = .ended why := by
    cases hp : t.pump with
    | ended why => exact ⟨why, rfl⟩
    | looping | draining | forwarding =>
      rw [hp] at hpump
      cases hpump
  have hdiscard : t.discard = t := by
    unfold Terminal.discard
    exact if_neg (by simp [hpump])
  cases event with
  | produced data | exited exit =>
    simp only [Terminal.step, Option.ite_none_right_eq_some, Option.some.injEq] at hstep
    obtain ⟨-, rfl⟩ := hstep
    exact hover
  | hungUp | flushed keep =>
    obtain rfl := Option.some.inj hstep
    exact hover
  | discarded =>
    obtain rfl := Option.some.inj hstep
    rw [hdiscard]
    exact hover
  | received =>
    obtain ⟨⟨x, outbox⟩, hrecv, rfl⟩ := Option.map_eq_some_iff.1 hstep
    exact hover.recv hrecv
  | reported =>
    simp only [Terminal.step, hreap] at hstep
    cases hstep
  -- The pump has no step left.
  | reserved | read n | endOfSession | readFailed | writeRefused | writeFailed | noticed holding
    | drainRead n | drainEmpty | drainFailed | drainSent | drained =>
    simp [Terminal.step, hended, MasterPump.isLooping] at hstep

theorem Terminal.Sound.received_isPrefix (h : t.Sound) :
    bytesOf .stdout t.outbox.received <+: t.given :=
  ((bytesOf_isPrefix t.outbox.received_isPrefix .stdout).trans (List.prefix_append _ _)).trans
    h.inOrder

/-- What the pump found when it learned of the exit, and what there was at the exit. -/
theorem Terminal.Sound.exists_notice (h : t.Sound) (hdrains : t.pump.drains = true) :
    ∃ n q, t.notice = some n ∧ t.atExit = some q ∧ q <+: n.there := by
  have hnoticed := h.noticed hdrains
  obtain ⟨n, hn⟩ := Option.isSome_iff_exists.1 hnoticed
  obtain ⟨q, hq⟩ := Option.isSome_iff_exists.1 (h.exited.trans (h.told hnoticed))
  exact ⟨n, q, hn, hq, (h.atExit q hq).2 n hn⟩

theorem Terminal.Sound.whole (h : t.Sound) (hover : t.outbox.Over) :
    t.Whole (bytesOf .stdout t.outbox.received) := by
  obtain ⟨-, -, hpump⟩ := h.over_iff.1 hover
  have hinHand : t.pump.inHand = [] := by
    cases hp : t.pump with
    | ended why => rfl
    | looping | draining | forwarding =>
      rw [hp] at hpump
      cases hpump
  have hgiven : t.pump ≠ .ended .aborted → bytesOf .stdout t.outbox.received = t.given := by
    intro hwhy
    have hall := h.lossless hwhy
    rw [hinHand, List.append_nil] at hall
    rw [Mailbox.received_of_over hover, hall]
  refine ⟨hgiven, fun hwhy => (h.ended hwhy).symm, fun hwhy => ?_, fun hwhy => ?_⟩
  · obtain ⟨n, q, hn, hq, hthere⟩ := h.exists_notice (by rw [hwhy]; rfl)
    have hcount := h.owed 0 n (by rw [hwhy]; rfl) hn
    rw [hgiven (by simp [hwhy])]
    refine ⟨n, q, hn, hq, hcount, fun hle => ?_⟩
    -- Both are beginnings of what was given and is unread, and the reads gave as much.
    have hsofar : n.there <+: t.given :=
      List.prefix_of_prefix_length_le (h.there n hn) (List.prefix_append _ _) (by omega)
    exact ⟨hsofar, hthere.trans hsofar⟩
  · obtain ⟨n, q, hn, hq, hthere⟩ := h.exists_notice (by rw [hwhy]; rfl)
    rw [hgiven (by simp [hwhy])]
    exact ⟨n, q, hn, hq, h.emptied hwhy n hn, hthere.trans (h.emptied hwhy n hn)⟩

theorem Terminal.Sound.faithful (h : t.Sound) : t.Faithful where
  inOrder := h.received_isPrefix
  oneStream := by
    have hsent := bytesOf_isPrefix t.outbox.received_isPrefix .stderr
    rw [h.stderr] at hsent
    exact List.prefix_nil.1 hsent
  exitOnce := h.reports.exitOnce
  bounded := h.bounded
  settled n hn hle := by
    have hbounded := h.bounded n hn
    have hsofar : t.given <+: n.there :=
      List.prefix_of_prefix_length_le (List.prefix_append _ _) (h.there n hn) (by omega)
    exact h.received_isPrefix.trans hsofar
  over_iff := h.over_iff
  reported := h.reports.reported_of_over
  whole := h.whole
  failed_iff := h.failed

/-- **Whatever the order of the terminal, its pump, the reap task and the driver**, the
driver receives a beginning of what the master gave and the exit at most once. Once the pump
has learned of the exit, the master gives as many more bytes as it was told to hold, at most:
a drain that comes to its end has sent what there was at the exit, as far as the answer
counted it and no flush took it away. The exit is known when the queue ends. -/
theorem terminal_faithful {events : List TerminalEvent}
    (hrun : run Terminal.step .start events = some t) : t.Faithful :=
  (invariant_run (fun _ _ _ h hstep => Terminal.Sound.step h hstep) terminal_start hrun).faithful

/-- An interrupt drops what is unread, and a process left behind writes on while the drain
goes on. -/
def lingeringRun : List TerminalEvent :=
  [.produced [8, 9], .flushed 0, .produced [1, 2], .reserved, .read 1, .produced [3], .reserved,
    .exited ⟨0, none⟩, .produced [4], .noticed (.fionread (some 3)), .produced [5], .drainRead 2,
    .received, .drainSent, .produced [6], .reported, .drainRead 1, .drainSent, .drained, .received,
    .received, .received, .received]

/-- The answer counts one of three bytes. -/
def shortCountRun : List TerminalEvent :=
  [.produced [1, 2, 3], .exited ⟨0, none⟩, .reported, .noticed (.fionread (some 1)), .drainRead 1,
    .drainSent, .drained, .received, .received, .received]

/-- The answer is a capacity, and the drain finds the end. -/
def capacityRun : List TerminalEvent :=
  [.produced [1, 2], .exited ⟨0, none⟩, .reported, .noticed .capacity, .drainRead 2, .drainSent,
    .produced [3], .drainRead 1, .drainSent, .drainEmpty, .received, .received, .received, .received]

theorem terminal_faithful_lingering :
    (∃ t, run Terminal.step .start lingeringRun = some t ∧ t.outbox.Over ∧
      t.notice = some ⟨1, .fionread (some 3), [1, 2, 3, 4]⟩ ∧ t.unread = [5, 6] ∧
      bytesOf .stdout t.outbox.received = [1, 2, 3, 4] ∧ exitsOf t.outbox.received = [⟨0, none⟩] ∧
      t.Faithful) ∧
    (∃ t, run Terminal.step .start shortCountRun = some t ∧ t.outbox.Over ∧
      t.atExit = some [1, 2, 3] ∧ bytesOf .stdout t.outbox.received = [1] ∧ t.Faithful) ∧
    ∃ t, run Terminal.step .start capacityRun = some t ∧ t.outbox.Over ∧
      t.atExit = some [1, 2] ∧ bytesOf .stdout t.outbox.received = [1, 2, 3] ∧ t.Faithful :=
  ⟨⟨_, rfl, ⟨rfl, rfl⟩, rfl, rfl, rfl, rfl, @terminal_faithful _ lingeringRun rfl⟩,
    ⟨_, rfl, ⟨rfl, rfl⟩, rfl, rfl, @terminal_faithful _ shortCountRun rfl⟩,
    ⟨_, rfl, ⟨rfl, rfl⟩, rfl, rfl, @terminal_faithful _ capacityRun rfl⟩⟩

end QuantumSsh.Channel
