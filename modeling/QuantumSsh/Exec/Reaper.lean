import Mathlib.Data.Int.Notation
import Mathlib.Data.List.Basic

/-!
# Children and their reap tasks

The children of one connection, `exec.rs`: the scope's registry, the reap task of
each child, and the two destructors that kill. A reap task polls the arms of its
`select!` one after the other; between two polls, and between the kill and the reap
of an exit, the peer, the pumps, the clock, the kernel and the destructors act in any
order. What holds a lock is one step.
-/

namespace QuantumSsh.Exec

/-- The signals sent to a child. -/
inductive Signal where
  | hup
  | kill
deriving Repr, DecidableEq

/-- How a process ended. -/
inductive ExitStatus where
  | exited (code : ℤ)
  | signaled (signo : ℕ) (coreDumped : Bool)
deriving Repr, DecidableEq

/-- `ChildExit`. -/
structure ChildExit where
  code : ℤ
  signal : Option (String × Bool)
deriving Repr, DecidableEq

/-- `EXIT_WAIT_FAILED`. -/
def exitWaitFailed : ℤ := 127

/-- `EXIT_SIGNALS`, by number. -/
def exitSignals : List (ℕ × String) :=
  [(6, "ABRT"), (14, "ALRM"), (8, "FPE"), (1, "HUP"), (4, "ILL"), (2, "INT"), (9, "KILL"),
    (13, "PIPE"), (3, "QUIT"), (11, "SEGV"), (15, "TERM"), (10, "USR1"), (12, "USR2")]

/-- `exit_of`. -/
def exitOf : ExitStatus → ChildExit
  | .exited code => { code, signal := none }
  | .signaled signo coreDumped =>
    { code := 128 + signo, signal := (exitSignals.lookup signo).map fun name => (name, coreDumped) }

/-- The child as the kernel has it. -/
inductive Process where
  | running
  | zombie (status : ExitStatus)
  | reaped
deriving Repr, DecidableEq

/-- A `oneshot` channel, seen from its receiver. -/
inductive Oneshot where
  | pending
  | sent
  | dropped
deriving Repr, DecidableEq

/-- What a reap task does next: the arms of its `select!` in their order, and the reap
behind the last. -/
inductive Arm where
  | kill
  | failure
  | grace
  | exit
  | reap
deriving Repr, DecidableEq

/-- How a reap task ended. -/
inductive Ended where
  | returned (exit : ChildExit)
  | dropped
deriving Repr, DecidableEq

/-- `Reaper` and the variables of its `run`. Instants are nanoseconds. -/
structure Reaper where
  /-- `child` is `Some`. -/
  child : Bool
  pid : ℕ
  hangupGrace : Option ℕ
  killRx : Oneshot
  sessionFailed : Oneshot
  killPending : Bool
  failurePending : Bool
  graceEnd : Option ℕ
  arm : Arm
  ended : Option Ended
deriving Repr, DecidableEq

/-- A child that was spawned, and its reap task. -/
structure Child where
  process : Process
  reaper : Reaper
deriving Repr, DecidableEq

/-- What happens, in order. A child is named by the order of the spawns. -/
inductive Event where
  | spawned (id pid : ℕ)
  /-- The kill request is sent, or its sender dropped. -/
  | killRequested (id : ℕ)
  | failureReported (id : ℕ)
  /-- The reap task polls an arm. -/
  | polled (id : ℕ) (arm : Arm)
  | signalled (toGroup : Bool) (pid : ℕ) (signal : Signal)
  | reaped (id : ℕ)
  /-- The child passed to the runtime's orphan reaping. -/
  | handedOn (id : ℕ)
deriving Repr, DecidableEq

/-- The children of a scope, and the registry. -/
structure World where
  now : ℕ
  children : List Child
  live : List ℕ
  scopeDropped : Bool
  log : List Event

def World.start : World where
  now := 0
  children := []
  live := []
  scopeDropped := false
  log := []

/-- The child of a number is replaced, and what happened to it is logged. -/
def World.put (w : World) (id : ℕ) (c : Child) (events : List Event) : World :=
  { w with children := w.children.set id c, log := w.log ++ events }

/-! ### The reap task -/

/-- `kill_group`. -/
def killGroup (pid : ℕ) : List Event := [.signalled true pid .kill, .signalled false pid .kill]

/-- `begin_kill`: the reaper, and what it sends. -/
def Reaper.beginKill (now : ℕ) (r : Reaper) : Reaper × List Event :=
  if !r.child then (r, [])
  else
    match r.hangupGrace with
    | some grace =>
      if r.graceEnd.isNone then
        ({ r with graceEnd := some (now + grace) }, [.signalled false r.pid .hup])
      else (r, [])
    | none => (r, killGroup r.pid)

/-- `register` of a child that was just spawned. -/
def Reaper.register (pid : ℕ) (hangupGrace : Option ℕ) : Reaper where
  child := true
  pid
  hangupGrace
  killRx := .pending
  sessionFailed := .pending
  killPending := true
  failurePending := true
  graceEnd := none
  arm := .kill
  ended := none

/-- The next step of `run` up to the reap; `notified` is whether `wait_exit` is ready. -/
def Reaper.poll (now : ℕ) (notified : Bool) (r : Reaper) : Reaper × List Event :=
  match r.arm with
  | .kill =>
    if r.killPending ∧ r.killRx ≠ .pending then
      { r with killPending := false }.beginKill now
    else ({ r with arm := .failure }, [])
  | .failure =>
    if r.failurePending ∧ r.sessionFailed ≠ .pending then
      let r := { r with failurePending := false, arm := .kill }
      if r.sessionFailed = .sent then r.beginKill now else (r, [])
    else ({ r with arm := .grace }, [])
  | .grace =>
    match r.graceEnd with
    | some deadline =>
      if deadline ≤ now then
        ({ r with graceEnd := none, arm := .kill }, if r.child then killGroup r.pid else [])
      else ({ r with arm := .exit }, [])
    | none => ({ r with arm := .exit }, [])
  | .exit =>
    if notified then
      ({ r with graceEnd := none, arm := .reap },
        if r.graceEnd.isSome ∧ r.child then killGroup r.pid else [])
    else ({ r with arm := .kill }, [])
  | .reap => (r, [])

/-- `try_reap`, with the registry locked. -/
def World.tryReap (w : World) (id : ℕ) (c : Child) : World :=
  let deregistered (exit : ChildExit) :=
    { w.put id
        { process := .reaped
          reaper := { c.reaper with child := false, ended := some (.returned exit) } }
        [.reaped id] with
      live := w.live.filter fun p => p ≠ c.reaper.pid }
  if !c.reaper.child then w.put id { c with reaper := { c.reaper with arm := .kill } } []
  else
    match c.process with
    | .running => w.put id { c with reaper := { c.reaper with arm := .kill } } []
    | .zombie status => deregistered (exitOf status)
    | .reaped => deregistered { code := exitWaitFailed, signal := none }

/-- `Drop for Reaper`, with the registry locked: the child is killed, deregistered and
handed on. -/
def World.dropReaper (w : World) (id : ℕ) (c : Child) : World :=
  if c.reaper.child then
    { w.put id
        { c with reaper := { c.reaper with child := false, ended := some .dropped } }
        (killGroup c.reaper.pid ++ [.handedOn id]) with
      live := w.live.filter fun p => p ≠ c.reaper.pid }
  else w.put id { c with reaper := { c.reaper with ended := some .dropped } } [.handedOn id]

/-- `Drop for ChildScope`, with the registry locked. -/
def World.dropScope (w : World) : World :=
  { w with
    scopeDropped := true
    log := w.log ++ w.live.flatMap fun pid =>
      [.signalled false pid .kill, .signalled true pid .kill] }

/-! ### Runs -/

/-- What may happen next. -/
inductive Action where
  | spawn (pid : ℕ) (hangupGrace : Option ℕ)
  /-- The kill request is sent. -/
  | kill (id : ℕ)
  /-- The sender of the kill request is dropped. -/
  | dropKill (id : ℕ)
  | fail (id : ℕ)
  /-- The pump ends without a report. -/
  | dropFailed (id : ℕ)
  | advance (nanos : ℕ)
  | exits (id : ℕ) (status : ExitStatus)
  /-- The reap task goes on; `notified` is whether the exit notification, which may be
  spurious, is ready. -/
  | poll (id : ℕ) (notified : Bool)
  | dropTask (id : ℕ)
  | dropScope
  /-- The runtime reaps a child that was handed on. -/
  | reapOrphan (id : ℕ)
deriving Repr, DecidableEq

/-- The PID is not taken by a child that was not reaped. -/
def World.free (w : World) (pid : ℕ) : Bool :=
  w.children.all fun c => c.process = .reaped ∨ c.reaper.pid ≠ pid

/-- One step. -/
def step (w : World) : Action → Option World
  | .spawn pid hangupGrace =>
    if w.scopeDropped = false ∧ w.free pid then
      some { w with
        children := w.children ++ [⟨.running, Reaper.register pid hangupGrace⟩]
        live := w.live ++ [pid]
        log := w.log ++ [.spawned w.children.length pid] }
    else none
  | .kill id => request w id .sent
  | .dropKill id => request w id .dropped
  | .fail id => do
    let c ← w.children[id]?
    if c.reaper.sessionFailed = .pending then
      some (w.put id { c with reaper := { c.reaper with sessionFailed := .sent } }
        [.failureReported id])
    else none
  | .dropFailed id => do
    let c ← w.children[id]?
    if c.reaper.sessionFailed = .pending then
      some (w.put id { c with reaper := { c.reaper with sessionFailed := .dropped } } [])
    else none
  | .advance nanos => some { w with now := w.now + nanos }
  | .exits id status => do
    let c ← w.children[id]?
    if c.process = .running then some (w.put id { c with process := .zombie status } []) else none
  | .poll id notified => do
    let c ← w.children[id]?
    if c.reaper.ended.isNone then
      if c.reaper.arm = .reap then some (w.tryReap id c)
      else
        let (reaper, signals) := c.reaper.poll w.now notified
        some (w.put id { c with reaper } (.polled id c.reaper.arm :: signals))
    else none
  | .dropTask id => do
    let c ← w.children[id]?
    if c.reaper.ended.isNone then some (w.dropReaper id c) else none
  | .dropScope => if w.scopeDropped then none else some w.dropScope
  | .reapOrphan id => do
    let c ← w.children[id]?
    match c.process with
    | .zombie _ =>
      if c.reaper.ended = some .dropped then
        some (w.put id { c with process := .reaped } [.reaped id])
      else none
    | _ => none
where
  request (w : World) (id : ℕ) (rx : Oneshot) : Option World := do
    let c ← w.children[id]?
    if c.reaper.killRx = .pending then
      some (w.put id { c with reaper := { c.reaper with killRx := rx } } [.killRequested id])
    else none

end QuantumSsh.Exec
