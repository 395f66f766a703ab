import QuantumSsh.Admission.Basic

/-!
# The accept loop

`Server::serve` and the connection tasks it spawns (`server.rs`), as an
interleaving of the loop's `select!` arms with the steps of the tasks. A step
of a task is a stretch between two of its await points; an abort takes effect
only between two such stretches. What a connection does on the wire is not
modelled here, only how it ends.
-/

namespace QuantumSsh.Server

open Admission

/-- The `accept()` errors that `classify_accept_error` tells apart. -/
inductive Errno where
  | badf | notsock | inval
  | connaborted | connreset | proto | noprotoopt | opnotsupp
  | netdown | netunreach | hostdown | hostunreach
  | other (raw : ℤ)
deriving Repr, DecidableEq

/-- What an `accept()` error means for the loop. -/
inductive AcceptFailure where
  | listener
  | connection
  | pause
deriving Repr, DecidableEq

/-- `classify_accept_error`. -/
def classifyAcceptError : Errno → AcceptFailure
  | .badf | .notsock | .inval => .listener
  | .connaborted | .connreset | .proto | .noprotoopt | .opnotsupp
  | .netdown | .netunreach | .hostdown | .hostunreach => .connection
  | .other _ => .pause

/-- `ACCEPT_BACKOFF`, in nanoseconds. -/
def acceptBackoff : ℕ := 1000000000

/-- `ABORT_GRACE`, in nanoseconds. -/
def abortGrace : ℕ := 2000000000

/-- How the connection future ended, as `handle` sees it. -/
inductive Ending where
  | sessionClosed
  | rejected (reason : String)
  | io (error : String)
deriving Repr, DecidableEq

/-- The `reason` field of the task's own `connection.closed`. -/
def Ending.reason : Ending → String
  | .sessionClosed => "session closed"
  | .rejected reason => "rejected: " ++ reason
  | .io error => error

/-- Where a connection task stands. -/
inductive Phase where
  /-- Spawned, never polled. -/
  | spawned
  /-- In the connection future. -/
  | connecting
  /-- The future ended; the stream is shut down and the children are joined. -/
  | finishing (ending : Ending)
  | completed
  | panicked (message : String)
  | cancelled
deriving Repr, DecidableEq

/-- The task has returned, unwound or been dropped. -/
def Phase.ended : Phase → Bool
  | .completed | .panicked _ | .cancelled => true
  | _ => false

/-- One task of the `JoinSet`. -/
structure Task where
  id : ℕ
  guard : ConnectionGuard
  phase : Phase
  abortRequested : Bool
deriving Repr, DecidableEq

/-- The connection events of the audit log, with the connection they are about. -/
inductive AuditEvent where
  | refused (id : ℕ) (limit : Refusal)
  | accepted (id : ℕ)
  | closed (id : ℕ) (reason : String)
deriving Repr, DecidableEq

/-- The state of `serve`. -/
structure State where
  limits : Limits
  admission : Admission.State
  /-- The tasks that were spawned and not joined yet. -/
  tasks : List Task
  /-- The keys of `connection_spans`. -/
  spans : List ℕ
  abortAt : Option ℕ
  resumeAt : Option ℕ
  /-- `abort_all` was called: only the final joins are left. -/
  aborting : Bool
  returned : Option (Except Errno Unit)
  /-- Every connection taken from the listener, with its refusal if it was
  refused. The position is the connection's id. -/
  arrivals : List (Option Refusal)
  audit : List AuditEvent

/-- `serve` before its first event. -/
def State.start (limits : Limits) : State where
  limits
  admission := Admission.State.empty
  tasks := []
  spans := []
  abortAt := none
  resumeAt := none
  aborting := false
  returned := none
  arrivals := []
  audit := []

/-- One event of a run: an arm of the loop, or a step of a task. -/
inductive Event where
  | accepted (ip : IpAddr) (now : ℕ)
  | acceptFailed (error : Errno) (now : ℕ)
  | joined (id : ℕ)
  | shutdown (deadline now : ℕ)
  | resume
  | abortTimer
  | poll (id : ℕ)
  | authenticate (id : ℕ)
  | connectionEnded (id : ℕ) (ending : Ending)
  | complete (id now : ℕ)
  | panic (id : ℕ) (message : String) (now : ℕ)
  | cancel (id now : ℕ)
deriving Repr, DecidableEq

/-- The task of the given id. -/
def State.task? (s : State) (id : ℕ) : Option Task :=
  s.tasks.find? fun t => t.id = id

/-- The task of the given id is replaced. -/
def State.setTask (s : State) (task : Task) : State :=
  { s with tasks := s.tasks.map fun t => if t.id = task.id then task else t }

/-- An audit event is appended. -/
def State.emit (s : State) (event : AuditEvent) : State :=
  { s with audit := s.audit ++ [event] }

/-- A task ends in `phase`; its guard drops with it. -/
def State.endTask (s : State) (task : Task) (phase : Phase) (now : ℕ) : State :=
  { s.setTask { task with phase } with
    admission := dropGuard s.limits now task.guard s.admission }

/-- The accept arm: admission, then a refusal or a new task. -/
def State.accept (s : State) (ip : IpAddr) (now : ℕ) : State :=
  let id := s.arrivals.length
  match tryAdmit s.limits ip now s.admission with
  | (.error refusal, admission) =>
    { s with admission, arrivals := s.arrivals ++ [some refusal] }.emit (.refused id refusal)
  | (.ok guard, admission) =>
    { s with
      admission
      arrivals := s.arrivals ++ [none]
      tasks := s.tasks ++ [{ id, guard, phase := .spawned, abortRequested := false }]
      spans := id :: s.spans }

/-- `log_join` on a task that ended: the loop speaks for it unless it returned. -/
def State.logJoin (s : State) (task : Task) : State :=
  let removed := { s with spans := s.spans.erase task.id }
  match task.phase with
  | .panicked message =>
    if task.id ∈ s.spans then removed.emit (.closed task.id message) else removed
  | .cancelled =>
    if task.id ∈ s.spans then removed.emit (.closed task.id "shutdown") else removed
  | _ => removed

/-- The join arm: the task leaves the set, and a drained loop returns. -/
def State.join (s : State) (task : Task) : State :=
  let s := { s with tasks := s.tasks.filter fun t => t.id ≠ task.id }.logJoin task
  if (s.abortAt.isSome ∨ s.aborting) ∧ s.tasks = [] then { s with returned := some (.ok ()) }
  else s

/-- The accept arm on an error. -/
def State.acceptError (s : State) (error : Errno) (now : ℕ) : State :=
  match classifyAcceptError error with
  | .listener => { s with returned := some (.error error) }
  | .pause => { s with resumeAt := some (now + acceptBackoff) }
  | .connection => s

/-- The shutdown arm. -/
def State.onShutdown (s : State) (deadline now : ℕ) : State :=
  if s.abortAt.isSome then { s with abortAt := some now }
  else if s.tasks = [] then { s with returned := some (.ok ()) }
  else { s with abortAt := some (deadline + abortGrace) }

/-- The abort timer: `abort_all`, then the joins; with no task left it returns. -/
def State.abortAll (s : State) : State :=
  let s := { s with
    aborting := true
    tasks := s.tasks.map fun t => { t with abortRequested := true } }
  if s.tasks = [] then { s with returned := some (.ok ()) } else s

/-- An event on the loop itself, if the arm is enabled. -/
def State.loopStep (s : State) : Event → Option State
  | .accepted ip now =>
    if s.abortAt = none ∧ s.resumeAt = none ∧ s.aborting = false then some (s.accept ip now)
    else none
  | .acceptFailed error now =>
    if s.abortAt = none ∧ s.resumeAt = none ∧ s.aborting = false then
      some (s.acceptError error now)
    else none
  | .joined id =>
    match s.task? id with
    | some task => if task.phase.ended then some (s.join task) else none
    | none => none
  | .shutdown deadline now => if s.aborting then none else some (s.onShutdown deadline now)
  | .resume =>
    if s.resumeAt.isSome ∧ s.aborting = false then some { s with resumeAt := none } else none
  | .abortTimer => if s.abortAt.isSome ∧ s.aborting = false then some s.abortAll else none
  | _ => none

/-- A stretch of one connection task, if the task can take it. -/
def State.taskStep (s : State) : Event → Option State
  | .poll id =>
    (s.task? id).bind fun task =>
      if task.phase = .spawned then
        some ((s.setTask { task with phase := .connecting }).emit (.accepted id))
      else none
  | .authenticate id =>
    (s.task? id).bind fun task =>
      if task.phase = .connecting then
        let (guard, admission) := markAuthenticated task.guard s.admission
        some { s.setTask { task with guard } with admission }
      else none
  | .connectionEnded id ending =>
    (s.task? id).bind fun task =>
      if task.phase = .connecting then
        some (s.setTask { task with phase := .finishing ending })
      else none
  | .complete id now =>
    (s.task? id).bind fun task =>
      match task.phase with
      | .finishing ending =>
        some ((s.endTask task .completed now).emit (.closed id ending.reason))
      | _ => none
  | .panic id message now =>
    (s.task? id).bind fun task =>
      match task.phase with
      | .connecting | .finishing _ => some (s.endTask task (.panicked message) now)
      | _ => none
  | .cancel id now =>
    (s.task? id).bind fun task =>
      if task.abortRequested ∧ task.phase.ended = false then
        some (s.endTask task .cancelled now)
      else none
  | _ => none

/-- One step of a run; a returned `serve` takes none. -/
def State.step (s : State) (event : Event) : Option State :=
  if s.returned.isSome then none else (s.loopStep event).or (s.taskStep event)

/-- A whole run. -/
def State.run (s : State) : List Event → Option State
  | [] => some s
  | event :: events => (s.step event).bind fun s' => s'.run events

end QuantumSsh.Server
