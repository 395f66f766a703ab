import QuantumSsh.Exec.Reaper
import QuantumSsh.Lib.Lists
import QuantumSsh.Lib.Program

/-!
# No signal to a stranger

In every run of a scope, a PID is registered exactly while its child is unreaped and
the reap task alive, signals go to such children only, and a group that was to be
killed before the exit was seen is killed before its leader is reaped. What a step
does to one child is said once; the invariant of a child is kept through it, and what
is logged of the others does not matter to it.
-/

namespace QuantumSsh.Exec

open Lists Program

/-! ### What the log says -/

/-- The child an event is about. -/
def Event.about : Event → Option ℕ
  | .spawned id _ | .killRequested id | .failureReported id | .polled id _ | .reaped id
  | .handedOn id => some id
  | .signalled _ _ _ => none

/-- The event asks for what the arm waits for. -/
def Asks (id : ℕ) (arm : Arm) (e : Event) : Prop :=
  arm = .kill ∧ e = .killRequested id ∨ arm = .failure ∧ e = .failureReported id

/-- At the last poll of the arm, what it waits for had been delivered. -/
def ReadyAt (id : ℕ) (arm : Arm) (log : List Event) : Prop :=
  ∃ before mid, log = before ++ .polled id arm :: mid ∧ .polled id arm ∉ mid ∧
    ∃ e ∈ before, Asks id arm e

/-- The group of the child was sent `SIGKILL`. -/
def KilledIn (id : ℕ) (log : List Event) : Prop :=
  ∃ before pid after, log = before ++ .spawned id pid :: after ∧
    .signalled true pid .kill ∈ after

/-- The PID belongs to a child that is neither reaped nor handed on, and to no other. -/
def Owns (id pid : ℕ) (log : List Event) : Prop :=
  .spawned id pid ∈ log ∧ .reaped id ∉ log ∧ .handedOn id ∉ log ∧
    ∀ id', .spawned id' pid ∈ log → id' = id ∨ .reaped id' ∈ log

/-- What may be logged: a signal to a PID that belongs to a child, and the reap of a
leader whose group was killed when that was asked for in time. -/
def Permitted (log : List Event) : Event → Prop
  | .signalled _ pid _ => ∃ id, Owns id pid log
  | .reaped id => ∀ arm, ReadyAt id arm log → KilledIn id log
  | _ => True

/-- What holds of a scope. -/
structure ReapsSafely (w : World) : Prop where
  live : ∀ pid, pid ∈ w.live ↔
    ∃ c ∈ w.children, c.reaper.pid = pid ∧ c.process ≠ .reaped ∧ c.reaper.ended = none
  signals : ∀ before toGroup pid signal after,
    w.log = before ++ .signalled toGroup pid signal :: after → ∃ id, Owns id pid before
  kills : ∀ before id after, w.log = before ++ .reaped id :: after →
    ∀ arm, ReadyAt id arm before → KilledIn id before

section

variable {id pid : ℕ} {arm : Arm} {log es : List Event}

theorem KilledIn.append (h : KilledIn id log) : KilledIn id (log ++ es) := by
  obtain ⟨before, pid, after, rfl, hsignal⟩ := h
  exact ⟨before, pid, after ++ es, by simp, List.mem_append_left _ hsignal⟩

theorem killedIn_of_mem (hspawned : .spawned id pid ∈ log)
    (h : .signalled true pid .kill ∈ es) : KilledIn id (log ++ es) := by
  obtain ⟨before, after, rfl⟩ := List.append_of_mem hspawned
  exact ⟨before, pid, after ++ es, by simp, List.mem_append_right _ h⟩

theorem readyAt_append (h : .polled id arm ∉ es) :
    ReadyAt id arm (log ++ es) ↔ ReadyAt id arm log := by
  constructor
  · rintro ⟨before, mid, hlog, hmid, hasks⟩
    obtain ⟨m, rfl, hes⟩ | ⟨m, rfl, hrest⟩ := List.append_eq_append_iff.1 hlog
    · exact absurd (hes ▸ List.mem_append_right m List.mem_cons_self) h
    · cases m with
      | nil =>
        rw [List.nil_append] at hrest
        exact absurd (hrest ▸ List.mem_cons_self) h
      | cons x m =>
        obtain ⟨rfl, rfl⟩ := List.cons.inj hrest
        exact ⟨before, m, rfl, fun hm => hmid (List.mem_append_left _ hm), hasks⟩
  · rintro ⟨before, mid, rfl, hmid, hasks⟩
    refine ⟨before, mid ++ es, by simp, ?_, hasks⟩
    rw [List.mem_append, not_or]
    exact ⟨hmid, h⟩

theorem readyAt_polled (h : .polled id arm ∉ es) :
    ReadyAt id arm (log ++ .polled id arm :: es) ↔ ∃ e ∈ log, Asks id arm e := by
  constructor
  · rintro ⟨before, mid, hlog, hmid, hasks⟩
    rwa [split_last_unique h hmid hlog]
  · intro hasks
    exact ⟨log, es, rfl, h, hasks⟩

end

/-! ### What a step does to one child -/

/-- The steps of one child: what it becomes, and what is logged. -/
inductive ChildStep (id now : ℕ) : Child → Child → List Event → Prop
  | request (c : Child) {rx : Oneshot} (hrx : rx ≠ .pending) (h : c.reaper.killRx = .pending) :
      ChildStep id now c { c with reaper := { c.reaper with killRx := rx } } [.killRequested id]
  | report (c : Child) (h : c.reaper.sessionFailed = .pending) :
      ChildStep id now c { c with reaper := { c.reaper with sessionFailed := .sent } }
        [.failureReported id]
  | unreported (c : Child) (h : c.reaper.sessionFailed = .pending) :
      ChildStep id now c { c with reaper := { c.reaper with sessionFailed := .dropped } } []
  | exits (c : Child) (status : ExitStatus) (h : c.process = .running) :
      ChildStep id now c { c with process := .zombie status } []
  | poll (c : Child) (notified : Bool) (halive : c.reaper.ended = none)
      (harm : c.reaper.arm ≠ .reap) :
      ChildStep id now c { c with reaper := (c.reaper.poll now notified).1 }
        (.polled id c.reaper.arm :: (c.reaper.poll now notified).2)
  | retry (c : Child) (halive : c.reaper.ended = none) (harm : c.reaper.arm = .reap) :
      ChildStep id now c { c with reaper := { c.reaper with arm := .kill } } []
  | reap (c : Child) (exit : ChildExit) (halive : c.reaper.ended = none)
      (harm : c.reaper.arm = .reap) (hchild : c.reaper.child = true) (h : c.process ≠ .running) :
      ChildStep id now c
        { process := .reaped
          reaper := { c.reaper with child := false, ended := some (.returned exit) } }
        [.reaped id]
  | drop (c : Child) (halive : c.reaper.ended = none) (hchild : c.reaper.child = true) :
      ChildStep id now c
        { c with reaper := { c.reaper with child := false, ended := some .dropped } }
        (killGroup c.reaper.pid ++ [.handedOn id])
  | dropEmpty (c : Child) (halive : c.reaper.ended = none) (hchild : c.reaper.child = false) :
      ChildStep id now c { c with reaper := { c.reaper with ended := some .dropped } }
        [.handedOn id]
  | orphan (c : Child) (status : ExitStatus) (hdropped : c.reaper.ended = some .dropped)
      (h : c.process = .zombie status) :
      ChildStep id now c { c with process := .reaped } [.reaped id]

/-- The registry behind a step of a child: it is deregistered when it leaves its reaper. -/
def deregister (live : List ℕ) (c c' : Child) : List ℕ :=
  if c.reaper.child ∧ ¬c'.reaper.child then live.filter fun p => p ≠ c.reaper.pid else live

/-- What a step is. -/
inductive Steps (w : World) : World → Prop
  | spawn (pid : ℕ) (hangupGrace : Option ℕ) (hfree : w.free pid = true) :
      Steps w { w with
        children := w.children ++ [⟨.running, Reaper.register pid hangupGrace⟩]
        live := w.live ++ [pid]
        log := w.log ++ [.spawned w.children.length pid] }
  | child {id : ℕ} {c c' : Child} {es : List Event} (hc : w.children[id]? = some c)
      (h : ChildStep id w.now c c' es) :
      Steps w { w.put id c' es with live := deregister w.live c c' }
  | advance (nanos : ℕ) : Steps w { w with now := w.now + nanos }
  | dropScope : Steps w w.dropScope

/-- The child of a reaper that keeps it stays registered. -/
theorem deregister_of_eq {live : List ℕ} {c c' : Child} (h : c'.reaper.child = c.reaper.child) :
    deregister live c c' = live := by
  rw [deregister, h, if_neg]
  simp

theorem Reaper.beginKill_same (now : ℕ) (r : Reaper) :
    ∃ g, (r.beginKill now).1 = { r with graceEnd := g } := by
  unfold Reaper.beginKill
  split
  · exact ⟨r.graceEnd, rfl⟩
  · split
    · split
      · exact ⟨_, rfl⟩
      · exact ⟨r.graceEnd, rfl⟩
    · exact ⟨r.graceEnd, rfl⟩

/-- A poll changes the variables of `run` only. -/
theorem Reaper.poll_same (now : ℕ) (notified : Bool) (r : Reaper) :
    ∃ killPending failurePending graceEnd arm,
      (r.poll now notified).1 = { r with killPending, failurePending, graceEnd, arm } := by
  unfold Reaper.poll
  split
  · split
    · obtain ⟨g, hg⟩ := { r with killPending := false }.beginKill_same now
      exact ⟨false, r.failurePending, g, r.arm, hg⟩
    · exact ⟨_, _, _, _, rfl⟩
  · split
    · dsimp only
      split
      · obtain ⟨g, hg⟩ := { r with failurePending := false, arm := .kill }.beginKill_same now
        exact ⟨r.killPending, false, g, .kill, hg⟩
      · exact ⟨_, _, _, _, rfl⟩
    · exact ⟨_, _, _, _, rfl⟩
  · split
    · split <;> exact ⟨_, _, _, _, rfl⟩
    · exact ⟨_, _, _, _, rfl⟩
  · split <;> exact ⟨_, _, _, _, rfl⟩
  · exact ⟨_, _, _, _, rfl⟩

theorem Reaper.poll_child (now : ℕ) (notified : Bool) (r : Reaper) :
    (r.poll now notified).1.child = r.child := by
  obtain ⟨_, _, _, _, h⟩ := r.poll_same now notified
  rw [h]

/-- A step of a child that stays where it is. -/
theorem Steps.put {w : World} {id : ℕ} {c c' : Child} {es : List Event}
    (hc : w.children[id]? = some c) (h : ChildStep id w.now c c' es)
    (hchild : c'.reaper.child = c.reaper.child) : Steps w (w.put id c' es) := by
  have hstep := Steps.child hc h
  rwa [deregister_of_eq hchild] at hstep

/-- A step of a child that leaves its reaper. -/
theorem Steps.leave {w : World} {id : ℕ} {c c' : Child} {es : List Event}
    (hc : w.children[id]? = some c) (h : ChildStep id w.now c c' es)
    (hchild : c.reaper.child = true) (hchild' : c'.reaper.child = false) :
    Steps w { w.put id c' es with live := w.live.filter fun p => p ≠ c.reaper.pid } := by
  have hstep := Steps.child hc h
  rwa [deregister, if_pos ⟨hchild, by rw [hchild']; decide⟩] at hstep

theorem steps_of_request {w w' : World} {id : ℕ} {rx : Oneshot} (hrx : rx ≠ .pending)
    (h : step.request w id rx = some w') : Steps w w' := by
  obtain ⟨c, hc, h⟩ := Option.bind_eq_some_iff.1 h
  obtain ⟨hpending, h⟩ := Option.ite_none_right_eq_some.1 h
  cases h
  exact .put hc (.request c hrx hpending) rfl

theorem steps_of_tryReap {w : World} {id : ℕ} {c : Child} (hc : w.children[id]? = some c)
    (halive : c.reaper.ended = none) (harm : c.reaper.arm = .reap) : Steps w (w.tryReap id c) := by
  unfold World.tryReap
  cases hchild : c.reaper.child with
  | false => exact .put hc (.retry c halive harm) rfl
  | true =>
    simp only [Bool.not_true, Bool.false_eq_true, if_false]
    cases hprocess : c.process with
    | running => 
      have hstep := Steps.put hc (.retry c halive harm) rfl
      rwa [hprocess] at hstep
    | zombie status =>
      exact .leave hc (.reap c _ halive harm hchild (by rw [hprocess]; simp)) hchild rfl
    | reaped =>
      exact .leave hc (.reap c _ halive harm hchild (by rw [hprocess]; simp)) hchild rfl

theorem steps_of_step {w w' : World} {a : Action} (h : step w a = some w') : Steps w w' := by
  cases a with
  | spawn pid hangupGrace =>
    obtain ⟨⟨-, hfree⟩, h⟩ := Option.ite_none_right_eq_some.1 h
    cases h
    exact .spawn pid hangupGrace hfree
  | kill id => exact steps_of_request (by decide) h
  | dropKill id => exact steps_of_request (by decide) h
  | fail id =>
    obtain ⟨c, hc, h⟩ := Option.bind_eq_some_iff.1 h
    obtain ⟨hpending, h⟩ := Option.ite_none_right_eq_some.1 h
    cases h
    exact .put hc (.report c hpending) rfl
  | dropFailed id =>
    obtain ⟨c, hc, h⟩ := Option.bind_eq_some_iff.1 h
    obtain ⟨hpending, h⟩ := Option.ite_none_right_eq_some.1 h
    cases h
    exact .put hc (.unreported c hpending) rfl
  | advance nanos =>
    cases h
    exact .advance nanos
  | exits id status =>
    obtain ⟨c, hc, h⟩ := Option.bind_eq_some_iff.1 h
    obtain ⟨hrunning, h⟩ := Option.ite_none_right_eq_some.1 h
    cases h
    exact .put hc (.exits c status hrunning) rfl
  | poll id notified =>
    obtain ⟨c, hc, h⟩ := Option.bind_eq_some_iff.1 h
    obtain ⟨halive, h⟩ := Option.ite_none_right_eq_some.1 h
    rw [Option.isNone_iff_eq_none] at halive
    by_cases harm : c.reaper.arm = .reap
    · rw [if_pos harm] at h
      cases h
      exact steps_of_tryReap hc halive harm
    · rw [if_neg harm] at h
      cases h
      exact .put hc (.poll c notified halive harm) (Reaper.poll_child ..)
  | dropTask id =>
    obtain ⟨c, hc, h⟩ := Option.bind_eq_some_iff.1 h
    obtain ⟨halive, h⟩ := Option.ite_none_right_eq_some.1 h
    rw [Option.isNone_iff_eq_none] at halive
    cases h
    unfold World.dropReaper
    cases hchild : c.reaper.child with
    | false => exact .put hc (.dropEmpty c halive hchild) rfl
    | true => exact .leave hc (.drop c halive hchild) hchild rfl
  | dropScope =>
    obtain ⟨-, h⟩ := Option.ite_none_left_eq_some.1 h
    cases h
    exact .dropScope
  | reapOrphan id =>
    obtain ⟨c, hc, h⟩ := Option.bind_eq_some_iff.1 h
    cases hprocess : c.process with
    | running => rw [hprocess] at h; cases h
    | reaped => rw [hprocess] at h; cases h
    | zombie status =>
      rw [hprocess] at h
      obtain ⟨hdropped, h⟩ := Option.ite_none_right_eq_some.1 h
      cases h
      exact .put hc (.orphan c status hdropped hprocess) rfl

/-! ### The invariant of a child -/

/-- A kill is on its way: the group was killed, or will be at the end of the grace. -/
def Doomed (log : List Event) (id : ℕ) (r : Reaper) : Prop :=
  r.graceEnd.isSome = true ∨ KilledIn id log

/-- What holds of the child of a number, by what is logged of it. -/
structure Child.Good (log : List Event) (id : ℕ) (c : Child) : Prop where
  held : c.reaper.child = true ↔ c.reaper.ended = none
  unreaped : c.reaper.child = true → c.process ≠ .reaped
  spawned : .spawned id c.reaper.pid ∈ log
  reaped : .reaped id ∈ log ↔ c.process = .reaped
  handedOn : .handedOn id ∈ log ↔ c.reaper.ended = some .dropped
  requested : .killRequested id ∈ log ↔ c.reaper.killRx ≠ .pending
  reported : .failureReported id ∈ log ↔ c.reaper.sessionFailed = .sent
  killed : c.reaper.killPending = false → Doomed log id c.reaper
  failed : c.reaper.failurePending = false → c.reaper.sessionFailed = .sent →
    Doomed log id c.reaper
  waiting : c.reaper.failurePending = false → c.reaper.sessionFailed ≠ .pending
  dropped : c.reaper.ended = some .dropped → KilledIn id log
  settled : c.reaper.arm = .reap → c.reaper.graceEnd = none
  /-- Behind its arm, a request that was there is taken. -/
  killSeen : c.reaper.arm ≠ .kill → ReadyAt id .kill log → c.reaper.killPending = false
  failureSeen : c.reaper.arm ≠ .kill → c.reaper.arm ≠ .failure → ReadyAt id .failure log →
    c.reaper.failurePending = false

section

variable {log es : List Event} {id pid : ℕ} {c : Child} {r : Reaper}

/-- What is logged of others does not matter. -/
theorem Child.Good.frame (h : c.Good log id) (hes : ∀ e ∈ es, e.about ≠ some id) :
    c.Good (log ++ es) id := by
  have hmem : ∀ e : Event, e.about = some id → (e ∈ log ++ es ↔ e ∈ log) := by
    intro e he
    rw [List.mem_append, or_iff_left]
    exact fun hmem => hes e hmem he
  have hready : ∀ arm, ReadyAt id arm (log ++ es) ↔ ReadyAt id arm log :=
    fun arm => readyAt_append fun hmem => hes _ hmem rfl
  have hdoomed : Doomed log id c.reaper → Doomed (log ++ es) id c.reaper :=
    Or.imp_right KilledIn.append
  constructor
  case held => exact h.held
  case unreaped => exact h.unreaped
  case spawned => exact (hmem _ rfl).2 h.spawned
  case reaped => rw [hmem _ rfl, h.reaped]
  case handedOn => rw [hmem _ rfl, h.handedOn]
  case requested => rw [hmem _ rfl, h.requested]
  case reported => rw [hmem _ rfl, h.reported]
  case killed => exact fun hkill => hdoomed (h.killed hkill)
  case failed => exact fun hfailure hsent => hdoomed (h.failed hfailure hsent)
  case waiting => exact h.waiting
  case dropped => exact fun hdropped => (h.dropped hdropped).append
  case settled => exact h.settled
  case killSeen => rw [hready]; exact h.killSeen
  case failureSeen => rw [hready]; exact h.failureSeen

/-- A child that was just registered. -/
theorem good_register {grace : Option ℕ} (hnew : ∀ e ∈ log, e.about ≠ some id) :
    Child.Good (log ++ [.spawned id pid]) id ⟨.running, Reaper.register pid grace⟩ := by
  have hmem : ∀ e : Event, e.about = some id → e ≠ .spawned id pid →
      e ∉ log ++ [.spawned id pid] := by
    intro e he hne hmem
    obtain hmem | hmem := List.mem_append.1 hmem
    · exact hnew e hmem he
    · exact hne (List.mem_singleton.1 hmem)
  constructor
  case held => exact iff_of_true rfl rfl
  case unreaped => exact fun _ h => by cases h
  case spawned => exact List.mem_append_right _ (List.mem_singleton.2 rfl)
  case reaped => exact iff_of_false (hmem _ rfl (by simp)) (by simp)
  case handedOn => exact iff_of_false (hmem _ rfl (by simp)) (by simp [Reaper.register])
  case requested => exact iff_of_false (hmem _ rfl (by simp)) (by simp [Reaper.register])
  case reported => exact iff_of_false (hmem _ rfl (by simp)) (by simp [Reaper.register])
  case killed => exact fun h => by cases h
  case failed => exact fun h => by cases h
  case waiting => exact fun h => by cases h
  case dropped => exact fun h => by cases h
  case settled => exact fun h => by cases h
  case killSeen => exact fun h => absurd rfl h
  case failureSeen => exact fun h => absurd rfl h

theorem Doomed.append (h : Doomed log id r) : Doomed (log ++ es) id r := Or.imp_right KilledIn.append h

theorem ReadyAt.asked {arm : Arm} (h : ReadyAt id arm log) :
    arm = .kill ∧ .killRequested id ∈ log ∨ arm = .failure ∧ .failureReported id ∈ log := by
  obtain ⟨before, mid, rfl, -, e, he, ⟨rfl, rfl⟩ | ⟨rfl, rfl⟩⟩ := h
  · exact .inl ⟨rfl, List.mem_append_left _ he⟩
  · exact .inr ⟨rfl, List.mem_append_left _ he⟩

/-- Entries that tell nothing of the child but signals. -/
theorem Child.Good.signals (h : c.Good log id) (hes : ∀ e ∈ es, e.about = none) :
    c.Good (log ++ es) id :=
  h.frame fun e he => by rw [hes e he]; simp

/-- `begin_kill` starts a kill, and undoes none. -/
theorem beginKill_doomed {now : ℕ} (hchild : r.child = true) (hspawned : .spawned id r.pid ∈ log) :
    Doomed (log ++ (r.beginKill now).2) id (r.beginKill now).1 := by
  unfold Reaper.beginKill
  rw [hchild]
  simp only [Bool.not_true, Bool.false_eq_true, if_false]
  split
  · split
    · exact .inl rfl
    next hgrace => exact .inl (Option.isSome_iff_ne_none.2 (by simpa using hgrace))
  · exact .inr (killedIn_of_mem hspawned (by simp [killGroup]))

/-- What `begin_kill` sends, it sends to its own child. -/
theorem beginKill_signals {now : ℕ} :
    ∀ e ∈ (r.beginKill now).2, ∃ toGroup signal, r.child = true ∧
      e = .signalled toGroup r.pid signal := by
  unfold Reaper.beginKill
  intro e he
  cases hchild : r.child with
  | false => simp [hchild] at he
  | true =>
    simp only [hchild, Bool.not_true, Bool.false_eq_true, if_false] at he
    split at he
    · split at he
      · exact ⟨false, .hup, rfl, by simpa using he⟩
      · simp at he
    · simp only [killGroup, List.mem_cons, List.not_mem_nil, or_false] at he
      obtain rfl | rfl := he
      · exact ⟨true, .kill, rfl, rfl⟩
      · exact ⟨false, .kill, rfl, rfl⟩

/-- The variables of `run` may change, as long as a kill that was asked for is on its
way and an arm that was passed had nothing to take. -/
theorem Child.Good.polled {arm : Arm} {r : Reaper} (h : c.Good log id)
    (hes : ∀ e ∈ es, e.about = none)
    (hsame : { r with killPending := c.reaper.killPending, failurePending := c.reaper.failurePending,
                      graceEnd := c.reaper.graceEnd, arm := c.reaper.arm } = c.reaper)
    (hkilled : r.killPending = false → Doomed (log ++ .polled id arm :: es) id r)
    (hfailed : r.failurePending = false → r.sessionFailed = .sent →
      Doomed (log ++ .polled id arm :: es) id r)
    (hwaiting : r.failurePending = false → r.sessionFailed ≠ .pending)
    (hsettled : r.arm = .reap → r.graceEnd = none)
    (hkillSeen : r.arm ≠ .kill → ReadyAt id .kill (log ++ .polled id arm :: es) →
      r.killPending = false)
    (hfailureSeen : r.arm ≠ .kill → r.arm ≠ .failure →
      ReadyAt id .failure (log ++ .polled id arm :: es) → r.failurePending = false) :
    Child.Good (log ++ .polled id arm :: es) id { c with reaper := r } := by
  have hmem : ∀ e : Event, e ≠ .polled id arm → e.about = some id →
      (e ∈ log ++ .polled id arm :: es ↔ e ∈ log) := by
    intro e hne he
    rw [List.mem_append, List.mem_cons, or_iff_left]
    rintro (rfl | hmem)
    · exact hne rfl
    · rw [hes e hmem] at he
      cases he
  obtain ⟨process, r₀⟩ := c
  dsimp only at hsame hkilled hfailed ⊢
  rw [← hsame] at h
  constructor
  case held => exact h.held
  case unreaped => exact h.unreaped
  case spawned => exact (hmem _ (by simp) rfl).2 h.spawned
  case reaped => rw [hmem _ (by simp) rfl, h.reaped]
  case handedOn => rw [hmem _ (by simp) rfl, h.handedOn]
  case requested => rw [hmem _ (by simp) rfl, h.requested]
  case reported => rw [hmem _ (by simp) rfl, h.reported]
  case killed => exact hkilled
  case failed => exact hfailed
  case waiting => exact hwaiting
  case dropped => exact fun hdropped => (h.dropped hdropped).append
  case settled => exact hsettled
  case killSeen => exact hkillSeen
  case failureSeen => exact hfailureSeen

theorem mem_killGroup {e : Event} (h : e ∈ killGroup pid) :
    ∃ toGroup signal, e = .signalled toGroup pid signal := by
  simp only [killGroup, List.mem_cons, List.not_mem_nil, or_false] at h
  obtain rfl | rfl := h
  · exact ⟨true, .kill, rfl⟩
  · exact ⟨false, .kill, rfl⟩

/-- What a poll sends, it sends to its own child. -/
theorem poll_signals {now : ℕ} {notified : Bool} :
    ∀ e ∈ (r.poll now notified).2, ∃ toGroup signal, r.child = true ∧
      e = .signalled toGroup r.pid signal := by
  have hkill : ∀ {p : Prop} [Decidable p] {e : Event},
      e ∈ (if p ∧ r.child = true then killGroup r.pid else []) →
      ∃ toGroup signal, r.child = true ∧ e = .signalled toGroup r.pid signal := by
    intro p _ e he
    split at he
    next hp =>
      obtain ⟨toGroup, signal, rfl⟩ := mem_killGroup he
      exact ⟨toGroup, signal, hp.2, rfl⟩
    next => cases he
  unfold Reaper.poll
  split
  · split
    · exact beginKill_signals
    · simp
  · split
    · dsimp only
      split
      · exact beginKill_signals
      · simp
    · simp
  · split
    · split
      · intro e he
        exact @hkill True _ e (by simpa using he)
      · simp
    · simp
  · split
    · exact fun e he => hkill he
    · simp
  · simp

section

variable {now : ℕ} {notified : Bool}

/-- The arms that take nothing pass on to the next. -/
theorem Child.Good.passed {arm : Arm} (h : c.Good log id)
    (hreap : arm = .reap → c.reaper.graceEnd = none)
    (hkillSeen : arm ≠ .kill → ReadyAt id .kill (log ++ [.polled id c.reaper.arm]) →
      c.reaper.killPending = false)
    (hfailureSeen : arm ≠ .kill → arm ≠ .failure →
      ReadyAt id .failure (log ++ [.polled id c.reaper.arm]) → c.reaper.failurePending = false) :
    Child.Good (log ++ [.polled id c.reaper.arm]) id { c with reaper := { c.reaper with arm } } :=
  h.polled (r := { c.reaper with arm }) (by simp) rfl (fun hkill => (h.killed hkill).append)
    (fun hfailure hsent => (h.failed hfailure hsent).append) h.waiting hreap hkillSeen hfailureSeen

/-- A poll whose arm starts a kill goes back to the first arm. -/
theorem Child.Good.taken {r : Reaper} (h : c.Good log id) (hchild : r.child = true)
    (hsame : { r with killPending := c.reaper.killPending, failurePending := c.reaper.failurePending,
                      graceEnd := c.reaper.graceEnd, arm := c.reaper.arm } = c.reaper)
    (hspawned : .spawned id r.pid ∈ log) (hfirst : r.arm = .kill)
    (hwaiting : r.failurePending = false → r.sessionFailed ≠ .pending) :
    Child.Good (log ++ .polled id c.reaper.arm :: (r.beginKill now).2) id
      { c with reaper := (r.beginKill now).1 } := by
  have hdoomed : Doomed (log ++ .polled id c.reaper.arm :: (r.beginKill now).2) id
      (r.beginKill now).1 := by
    rw [← List.singleton_append, ← List.append_assoc]
    exact beginKill_doomed hchild (List.mem_append_left _ hspawned)
  have hes : ∀ e ∈ (r.beginKill now).2, e.about = none := by
    intro e he
    obtain ⟨toGroup, signal, -, rfl⟩ := beginKill_signals e he
    rfl
  obtain ⟨g, hg⟩ := r.beginKill_same now
  have hfirst' : (r.beginKill now).1.arm = .kill := by
    rw [hg]
    exact hfirst
  refine h.polled hes ?_ (fun _ => hdoomed) (fun _ _ => hdoomed) ?_ ?_ ?_ ?_
  · rw [hg]
    exact hsame
  · rw [hg]
    exact hwaiting
  · rw [hfirst']
    exact fun h => by cases h
  · rw [hfirst']
    exact fun h => absurd rfl h
  · rw [hfirst']
    exact fun h => absurd rfl h

theorem good_poll_kill (h : c.Good log id) (halive : c.reaper.ended = none)
    (harm : c.reaper.arm = .kill) :
    Child.Good (log ++ .polled id c.reaper.arm :: (c.reaper.poll now notified).2) id
      { c with reaper := (c.reaper.poll now notified).1 } := by
  have hchild := h.held.2 halive
  by_cases hready : c.reaper.killPending = true ∧ c.reaper.killRx ≠ .pending
  · have hpoll : c.reaper.poll now notified =
        { c.reaper with killPending := false }.beginKill now := by
      simp only [Reaper.poll, harm]
      rw [if_pos hready]
    rw [hpoll]
    exact h.taken (r := { c.reaper with killPending := false }) hchild rfl h.spawned harm h.waiting
  · have hpoll : c.reaper.poll now notified = ({ c.reaper with arm := .failure }, []) := by
      simp only [Reaper.poll, harm]
      rw [if_neg hready]
    rw [hpoll]
    refine h.passed (fun h => by cases h) ?_ fun _ hne => absurd rfl hne
    intro _ hseen
    rw [harm, readyAt_polled (by simp)] at hseen
    obtain ⟨e, he, ⟨-, rfl⟩ | ⟨hne, -⟩⟩ := hseen
    · by_contra hpending
      exact hready ⟨by simpa using hpending, h.requested.1 he⟩
    · cases hne

theorem good_poll_failure (h : c.Good log id) (halive : c.reaper.ended = none)
    (harm : c.reaper.arm = .failure) :
    Child.Good (log ++ .polled id c.reaper.arm :: (c.reaper.poll now notified).2) id
      { c with reaper := (c.reaper.poll now notified).1 } := by
  have hchild := h.held.2 halive
  have hkillSeen : ReadyAt id .kill (log ++ [.polled id c.reaper.arm]) →
      c.reaper.killPending = false := by
    intro hseen
    rw [readyAt_append (by simp [harm])] at hseen
    exact h.killSeen (by rw [harm]; decide) hseen
  by_cases hready : c.reaper.failurePending = true ∧ c.reaper.sessionFailed ≠ .pending
  · by_cases hsent : c.reaper.sessionFailed = .sent
    · have hpoll : c.reaper.poll now notified =
          { c.reaper with failurePending := false, arm := .kill }.beginKill now := by
        simp only [Reaper.poll, harm]
        rw [if_pos hready, if_pos hsent]
      rw [hpoll]
      exact h.taken (r := { c.reaper with failurePending := false, arm := .kill }) hchild rfl
        h.spawned rfl fun _ => hready.2
    · have hpoll : c.reaper.poll now notified =
          ({ c.reaper with failurePending := false, arm := .kill }, []) := by
        simp only [Reaper.poll, harm]
        rw [if_pos hready, if_neg hsent]
      rw [hpoll]
      exact h.polled (r := { c.reaper with failurePending := false, arm := .kill }) (by simp) rfl
        (fun hkill => (h.killed hkill).append) (fun _ h => absurd h hsent) (fun _ => hready.2)
        (fun h => by cases h) (fun h => absurd rfl h) fun h => absurd rfl h
  · have hpoll : c.reaper.poll now notified = ({ c.reaper with arm := .grace }, []) := by
      simp only [Reaper.poll, harm]
      rw [if_neg hready]
    rw [hpoll]
    refine h.passed (fun h => by cases h) (fun _ => hkillSeen) ?_
    intro _ _ hseen
    rw [harm, readyAt_polled (by simp)] at hseen
    obtain ⟨e, he, ⟨hne, -⟩ | ⟨-, rfl⟩⟩ := hseen
    · cases hne
    · by_contra hpending
      exact hready ⟨by simpa using hpending, by rw [h.reported.1 he]; decide⟩

theorem good_poll_grace (h : c.Good log id) (halive : c.reaper.ended = none)
    (harm : c.reaper.arm = .grace) :
    Child.Good (log ++ .polled id c.reaper.arm :: (c.reaper.poll now notified).2) id
      { c with reaper := (c.reaper.poll now notified).1 } := by
  have hchild := h.held.2 halive
  have hkillSeen : ReadyAt id .kill (log ++ [.polled id c.reaper.arm]) →
      c.reaper.killPending = false := by
    intro hseen
    rw [readyAt_append (by simp [harm])] at hseen
    exact h.killSeen (by rw [harm]; decide) hseen
  have hfailureSeen : ReadyAt id .failure (log ++ [.polled id c.reaper.arm]) →
      c.reaper.failurePending = false := by
    intro hseen
    rw [readyAt_append (by simp [harm])] at hseen
    exact h.failureSeen (by rw [harm]; decide) (by rw [harm]; decide) hseen
  by_cases hexpired : ∃ deadline, c.reaper.graceEnd = some deadline ∧ deadline ≤ now
  · obtain ⟨deadline, hgrace, hexpired⟩ := hexpired
    have hpoll : c.reaper.poll now notified =
        ({ c.reaper with graceEnd := none, arm := .kill }, killGroup c.reaper.pid) := by
      simp only [Reaper.poll, harm, hgrace]
      rw [if_pos hexpired, if_pos hchild]
    have hkilled : KilledIn id (log ++ .polled id c.reaper.arm :: killGroup c.reaper.pid) :=
      killedIn_of_mem h.spawned (by simp [killGroup])
    rw [hpoll]
    refine h.polled (r := { c.reaper with graceEnd := none, arm := .kill }) ?_ rfl
      (fun _ => .inr hkilled) (fun _ _ => .inr hkilled) h.waiting (fun h => by cases h)
      (fun h => absurd rfl h) fun h => absurd rfl h
    intro e he
    obtain ⟨toGroup, signal, rfl⟩ := mem_killGroup he
    rfl
  · have hpoll : c.reaper.poll now notified = ({ c.reaper with arm := .exit }, []) := by
      simp only [Reaper.poll, harm]
      split
      next deadline hgrace =>
        rw [if_neg fun hle => hexpired ⟨deadline, hgrace, hle⟩, hgrace]
      next hgrace => rw [hgrace]
    rw [hpoll]
    exact h.passed (fun h => by cases h) (fun _ => hkillSeen) fun _ _ => hfailureSeen

theorem good_poll_exit (h : c.Good log id) (halive : c.reaper.ended = none)
    (harm : c.reaper.arm = .exit) :
    Child.Good (log ++ .polled id c.reaper.arm :: (c.reaper.poll now notified).2) id
      { c with reaper := (c.reaper.poll now notified).1 } := by
  have hchild := h.held.2 halive
  cases notified with
  | false =>
    have hpoll : c.reaper.poll now false = ({ c.reaper with arm := .kill }, []) := by
      simp only [Reaper.poll, harm]
      rfl
    rw [hpoll]
    exact h.passed (fun h => by cases h) (fun h => absurd rfl h) fun h => absurd rfl h
  | true =>
    -- The grace is taken, so what was doomed is killed here at the latest.
    let sent := if c.reaper.graceEnd.isSome ∧ c.reaper.child then killGroup c.reaper.pid else []
    have hpoll : c.reaper.poll now true =
        ({ c.reaper with graceEnd := none, arm := .reap }, sent) := by
      simp only [Reaper.poll, harm]
      rfl
    have hes : ∀ e ∈ sent, e.about = none := by
      intro e he
      obtain ⟨toGroup, signal, -, rfl⟩ := @poll_signals c.reaper now true e (by rw [hpoll]; exact he)
      rfl
    have hdoomed : Doomed log id c.reaper →
        KilledIn id (log ++ .polled id c.reaper.arm :: sent) := by
      rintro (hgrace | hkilled)
      · refine killedIn_of_mem h.spawned (List.mem_cons_of_mem _ ?_)
        rw [show sent = killGroup c.reaper.pid from if_pos ⟨hgrace, hchild⟩]
        simp [killGroup]
      · exact hkilled.append
    have hready : ∀ arm, arm ≠ .exit →
        ReadyAt id arm (log ++ .polled id c.reaper.arm :: sent) → ReadyAt id arm log := by
      intro arm hne hready
      rw [readyAt_append] at hready
      · exact hready
      · rw [List.mem_cons, not_or, harm]
        refine ⟨fun heq => ?_, fun hmem => ?_⟩
        · cases heq
          exact hne rfl
        · cases hes _ hmem
    rw [hpoll]
    refine h.polled (r := { c.reaper with graceEnd := none, arm := .reap }) hes rfl
      (fun hkill => .inr (hdoomed (h.killed hkill)))
      (fun hfailure hsent => .inr (hdoomed (h.failed hfailure hsent))) h.waiting (fun _ => rfl) ?_ ?_
    · exact fun _ hseen => h.killSeen (by rw [harm]; decide) (hready _ (by decide) hseen)
    · exact fun _ _ hseen => h.failureSeen (by rw [harm]; decide) (by rw [harm]; decide)
        (hready _ (by decide) hseen)

theorem good_poll (h : c.Good log id) (halive : c.reaper.ended = none)
    (harm : c.reaper.arm ≠ .reap) :
    Child.Good (log ++ .polled id c.reaper.arm :: (c.reaper.poll now notified).2) id
      { c with reaper := (c.reaper.poll now notified).1 } := by
  cases harm' : c.reaper.arm with
  | kill => exact harm' ▸ good_poll_kill h halive harm'
  | failure => exact harm' ▸ good_poll_failure h halive harm'
  | grace => exact harm' ▸ good_poll_grace h halive harm'
  | exit => exact harm' ▸ good_poll_exit h halive harm'
  | reap => exact absurd harm' harm

end

/-- Every step of a child keeps its invariant. -/
theorem good_of_childStep {c' : Child} {now : ℕ} (h : c.Good log id)
    (hstep : ChildStep id now c c' es) : c'.Good (log ++ es) id := by
  cases hstep with
  | request hrx hpending =>
    have hready : ∀ arm, ReadyAt id arm (log ++ [.killRequested id]) ↔ ReadyAt id arm log :=
      fun arm => readyAt_append (by simp)
    exact {
      held := h.held
      unreaped := h.unreaped
      spawned := List.mem_append_left _ h.spawned
      reaped := by simp [h.reaped]
      handedOn := by simp [h.handedOn]
      requested := by simp [hrx]
      reported := by simp [h.reported]
      killed := fun hkill => (h.killed hkill).append
      failed := fun hfailure hsent => (h.failed hfailure hsent).append
      waiting := h.waiting
      dropped := fun hdropped => (h.dropped hdropped).append
      settled := h.settled
      killSeen := by rw [hready]; exact h.killSeen
      failureSeen := by rw [hready]; exact h.failureSeen }
  | report hpending =>
    have hready : ∀ arm, ReadyAt id arm (log ++ [.failureReported id]) ↔ ReadyAt id arm log :=
      fun arm => readyAt_append (by simp)
    exact {
      held := h.held
      unreaped := h.unreaped
      spawned := List.mem_append_left _ h.spawned
      reaped := by simp [h.reaped]
      handedOn := by simp [h.handedOn]
      requested := by simp [h.requested]
      reported := by simp
      killed := fun hkill => (h.killed hkill).append
      -- The answer was still open, so nothing was taken of it.
      failed := fun hfailure _ => absurd hpending (h.waiting hfailure)
      waiting := fun _ => by simp
      dropped := fun hdropped => (h.dropped hdropped).append
      settled := h.settled
      killSeen := by rw [hready]; exact h.killSeen
      failureSeen := by rw [hready]; exact h.failureSeen }
  | unreported hpending =>
    rw [List.append_nil]
    exact { h with
      reported := by simp [h.reported, hpending]
      failed := fun _ hsent => by cases hsent
      waiting := fun _ => by simp }
  | exits status hrunning =>
    rw [List.append_nil]
    exact { h with
      unreaped := fun _ => by simp
      reaped := by simp [h.reaped, hrunning] }
  | poll notified halive harm => exact good_poll h halive harm
  | retry halive harm =>
    rw [List.append_nil]
    exact { h with
      settled := fun h => by cases h
      killSeen := fun h => absurd rfl h
      failureSeen := fun h => absurd rfl h }
  | reap exit halive harm hchild hdead =>
    have hready : ∀ arm, ReadyAt id arm (log ++ [.reaped id]) ↔ ReadyAt id arm log :=
      fun arm => readyAt_append (by simp)
    exact {
      held := by simp
      unreaped := fun h => by cases h
      spawned := List.mem_append_left _ h.spawned
      reaped := by simp
      handedOn := by simp [h.handedOn, halive]
      requested := by simp [h.requested]
      reported := by simp [h.reported]
      killed := fun hkill => (h.killed hkill).append
      failed := fun hfailure hsent => (h.failed hfailure hsent).append
      waiting := h.waiting
      dropped := fun hdropped => by cases hdropped
      settled := h.settled
      killSeen := by rw [hready]; exact h.killSeen
      failureSeen := by rw [hready]; exact h.failureSeen }
  | drop halive hchild =>
    have hready : ∀ arm, ReadyAt id arm (log ++ (killGroup c.reaper.pid ++ [.handedOn id])) ↔
        ReadyAt id arm log := fun arm => readyAt_append (by simp [killGroup])
    -- The destructor kills the group, which is all that a request could still ask for.
    have hkilled : KilledIn id (log ++ (killGroup c.reaper.pid ++ [.handedOn id])) :=
      killedIn_of_mem h.spawned (by simp [killGroup])
    exact {
      held := by simp
      unreaped := fun h => by cases h
      spawned := List.mem_append_left _ h.spawned
      reaped := by simp [h.reaped, killGroup]
      handedOn := by simp
      requested := by simp [h.requested, killGroup]
      reported := by simp [h.reported, killGroup]
      killed := fun _ => .inr hkilled
      failed := fun _ _ => .inr hkilled
      waiting := h.waiting
      dropped := fun _ => hkilled
      settled := h.settled
      killSeen := by rw [hready]; exact h.killSeen
      failureSeen := by rw [hready]; exact h.failureSeen }
  -- A reap task that has not ended holds its child.
  | dropEmpty halive hchild =>
    rw [h.held.2 halive] at hchild
    cases hchild
  | orphan status hdropped hzombie =>
    have hready : ∀ arm, ReadyAt id arm (log ++ [.reaped id]) ↔ ReadyAt id arm log :=
      fun arm => readyAt_append (by simp)
    have hchild : c.reaper.child ≠ true := by
      rw [Ne, h.held, hdropped]
      simp
    exact {
      held := h.held
      unreaped := fun h => absurd h hchild
      spawned := List.mem_append_left _ h.spawned
      reaped := by simp
      handedOn := by simp [h.handedOn]
      requested := by simp [h.requested]
      reported := by simp [h.reported]
      killed := fun hkill => (h.killed hkill).append
      failed := fun hfailure hsent => (h.failed hfailure hsent).append
      waiting := h.waiting
      dropped := fun hdropped => (h.dropped hdropped).append
      settled := h.settled
      killSeen := by rw [hready]; exact h.killSeen
      failureSeen := by rw [hready]; exact h.failureSeen }

end

/-! ### The invariant of a scope -/

/-- What holds of a scope whenever no step is under way. -/
structure World.Good (w : World) : Prop where
  children : ∀ (id : ℕ) (c : Child), w.children[id]? = some c → c.Good w.log id
  /-- The kernel gives a PID to one process at a time. -/
  distinct : ∀ (i j : ℕ) (c d : Child), w.children[i]? = some c → w.children[j]? = some d →
    c.process ≠ .reaped → d.process ≠ .reaped → c.reaper.pid = d.reaper.pid → i = j
  live : ∀ pid, pid ∈ w.live ↔
    ∃ (id : ℕ) (c : Child), w.children[id]? = some c ∧ c.reaper.child = true ∧ c.reaper.pid = pid
  named : ∀ e ∈ w.log, ∀ id, e.about = some id → id < w.children.length
  spawns : ∀ id pid, .spawned id pid ∈ w.log →
    ∃ c, w.children[id]? = some c ∧ c.reaper.pid = pid
  guarded : Guarded Permitted w.log

theorem good_start : World.start.Good where
  children := by simp [World.start]
  distinct := by simp [World.start]
  live := by simp [World.start]
  named := by simp [World.start]
  spawns := by simp [World.start]
  guarded := guarded_nil

section

variable {w w' : World} {id now : ℕ} {c c' : Child} {es log : List Event}

theorem ChildStep.pid_eq (h : ChildStep id now c c' es) : c'.reaper.pid = c.reaper.pid := by
  cases h with
  | poll notified =>
    obtain ⟨_, _, _, _, h⟩ := c.reaper.poll_same now notified
    rw [h]
  | _ => rfl

theorem ChildStep.child_of (h : ChildStep id now c c' es) (hc' : c'.reaper.child = true) :
    c.reaper.child = true := by
  cases h with
  | poll notified => rwa [← Reaper.poll_child now notified]
  | reap => cases hc'
  | drop => cases hc'
  | _ => exact hc'

theorem ChildStep.unreaped (h : ChildStep id now c c' es) (hc' : c'.process ≠ .reaped) :
    c.process ≠ .reaped := by
  cases h with
  | exits status hrunning => rw [hrunning]; decide
  | reap => exact absurd rfl hc'
  | orphan => exact absurd rfl hc'
  | _ => exact hc'

/-- What a step of a child logs, it logs of that child; and it spawns none. -/
theorem ChildStep.about (h : ChildStep id now c c' es) :
    ∀ e ∈ es, (e.about = none ∨ e.about = some id) ∧ ∀ i pid, e ≠ .spawned i pid := by
  intro e he
  cases h with
  | poll notified halive harm =>
    obtain rfl | he := List.mem_cons.1 he
    · exact ⟨.inr rfl, by simp⟩
    · obtain ⟨toGroup, signal, -, rfl⟩ := poll_signals e he
      exact ⟨.inl rfl, by simp⟩
  | drop halive hchild =>
    obtain he | he := List.mem_append.1 he
    · obtain ⟨toGroup, signal, rfl⟩ := mem_killGroup he
      exact ⟨.inl rfl, by simp⟩
    · cases List.mem_singleton.1 he
      exact ⟨.inr rfl, by simp⟩
  | unreported | exits | retry => cases he
  | request | report | reap | dropEmpty | orphan =>
    cases List.mem_singleton.1 he
    exact ⟨.inr rfl, by simp⟩

/-! ### Signals and reaps -/

/-- The PID of a child that its reaper holds is its own. -/
theorem World.Good.owns (h : w.Good) (hc : w.children[id]? = some c)
    (hchild : c.reaper.child = true) : Owns id c.reaper.pid w.log := by
  have hgood := h.children id c hc
  have hunreaped := hgood.unreaped hchild
  refine ⟨hgood.spawned, fun hmem => hunreaped (hgood.reaped.1 hmem), fun hmem => ?_, ?_⟩
  · have hended := hgood.held.1 hchild
    rw [hgood.handedOn.1 hmem] at hended
    cases hended
  · intro id' hspawned
    obtain ⟨d, hd, hpid⟩ := h.spawns id' _ hspawned
    by_cases hreaped : d.process = .reaped
    · exact .inr ((h.children id' d hd).reaped.2 hreaped)
    · exact .inl (h.distinct id' id d c hd hc hreaped hunreaped hpid)

theorem Owns.append {pid : ℕ} (h : Owns id pid log)
    (hes : ∀ e ∈ es, e.about = none ∨ ∃ i arm, e = .polled i arm) : Owns id pid (log ++ es) := by
  have hnew : ∀ e : Event, e.about ≠ none → (∀ i arm, e ≠ .polled i arm) → e ∉ es := by
    intro e hnone hpolled he
    obtain habout | ⟨i, arm, rfl⟩ := hes e he
    · exact hnone habout
    · exact hpolled i arm rfl
  obtain ⟨hspawned, hreaped, hhandedOn, hother⟩ := h
  refine ⟨List.mem_append_left _ hspawned, ?_, ?_, ?_⟩
  · rw [List.mem_append, not_or]
    exact ⟨hreaped, hnew _ (by simp [Event.about]) (by simp)⟩
  · rw [List.mem_append, not_or]
    exact ⟨hhandedOn, hnew _ (by simp [Event.about]) (by simp)⟩
  · intro id' hmem
    obtain hmem | hmem := List.mem_append.1 hmem
    · exact (hother id' hmem).imp_right (List.mem_append_left _)
    · exact absurd hmem (hnew _ (by simp [Event.about]) (by simp))

/-- Signals to children that are held are permitted, however many. -/
theorem guarded_signals (h : Guarded Permitted log)
    (hes : ∀ e ∈ es, ∃ toGroup pid signal id, e = .signalled toGroup pid signal ∧ Owns id pid log) :
    Guarded Permitted (log ++ es) := by
  refine h.append ?_
  rintro before a after rfl
  obtain ⟨toGroup, pid, signal, id, rfl, howns⟩ :=
    hes a (List.mem_append_right _ List.mem_cons_self)
  refine ⟨id, howns.append fun e he => .inl ?_⟩
  obtain ⟨_, _, _, _, rfl, -⟩ := hes e (List.mem_append_left _ he)
  rfl

/-- Behind the exit, a kill that was asked for in time has been sent. -/
theorem Child.Good.killed_of_ready {arm : Arm} (h : c.Good log id) (harm : c.reaper.arm = .reap)
    (hready : ReadyAt id arm log) : KilledIn id log := by
  have hsent : Doomed log id c.reaper → KilledIn id log := by
    rintro (hgrace | hkilled)
    · rw [h.settled harm] at hgrace
      cases hgrace
    · exact hkilled
  obtain ⟨rfl, -⟩ | ⟨rfl, hreported⟩ := hready.asked
  · exact hsent (h.killed (h.killSeen (by rw [harm]; decide) hready))
  · exact hsent (h.failed (h.failureSeen (by rw [harm]; decide) (by rw [harm]; decide) hready)
      (h.reported.1 hreported))

theorem guarded_of_childStep (h : w.Good) (hc : w.children[id]? = some c)
    (hstep : ChildStep id now c c' es) : Guarded Permitted (w.log ++ es) := by
  have hgood := h.children id c hc
  cases hstep with
  | unreported | exits | retry =>
    rw [List.append_nil]
    exact h.guarded
  | request | report | dropEmpty => exact h.guarded.concat trivial
  | poll notified halive harm =>
    rw [← List.singleton_append, ← List.append_assoc]
    refine guarded_signals (h.guarded.concat trivial) fun e he => ?_
    obtain ⟨toGroup, signal, hchild, rfl⟩ := poll_signals e he
    refine ⟨toGroup, _, signal, id, rfl, (h.owns hc hchild).append fun e he => .inr ?_⟩
    exact ⟨_, _, List.mem_singleton.1 he⟩
  | drop halive hchild =>
    rw [← List.append_assoc]
    refine Guarded.concat (guarded_signals h.guarded fun e he => ?_) trivial
    obtain ⟨toGroup, signal, rfl⟩ := mem_killGroup he
    exact ⟨toGroup, _, signal, id, rfl, h.owns hc hchild⟩
  | reap exit halive harm =>
    exact h.guarded.concat fun arm hready => hgood.killed_of_ready harm hready
  | orphan status hdropped => exact h.guarded.concat fun _ _ => hgood.dropped hdropped

/-! ### Runs -/

theorem mem_deregister (h : w.Good) (hc : w.children[id]? = some c)
    (hstep : ChildStep id now c c' es) (pid : ℕ) :
    pid ∈ deregister w.live c c' ↔ ∃ (i : ℕ) (d : Child),
      (w.children.set id c')[i]? = some d ∧ d.reaper.child = true ∧ d.reaper.pid = pid := by
  have hlt := (List.getElem?_eq_some_iff.1 hc).1
  have hself : (w.children.set id c')[id]? = some c' := List.getElem?_set_self hlt
  have hother : ∀ i, i ≠ id → (w.children.set id c')[i]? = w.children[i]? :=
    fun i hne => List.getElem?_set_ne hne.symm
  by_cases hleaves : c.reaper.child ∧ ¬c'.reaper.child
  · rw [deregister, if_pos hleaves, List.mem_filter, h.live, decide_eq_true_iff]
    constructor
    · rintro ⟨⟨i, d, hd, hchild, rfl⟩, hne⟩
      have hi : i ≠ id := by
        rintro rfl
        cases hc.symm.trans hd
        exact hne rfl
      exact ⟨i, d, by rw [hother i hi, hd], hchild, rfl⟩
    · rintro ⟨i, d, hd, hchild, rfl⟩
      have hi : i ≠ id := by
        rintro rfl
        cases hself.symm.trans hd
        exact hleaves.2 hchild
      rw [hother i hi] at hd
      refine ⟨⟨i, d, hd, hchild, rfl⟩, fun hpid => hi ?_⟩
      exact h.distinct i id d c hd hc ((h.children i d hd).unreaped hchild)
        ((h.children id c hc).unreaped hleaves.1) hpid
  · rw [deregister, if_neg hleaves, h.live]
    constructor
    · rintro ⟨i, d, hd, hchild, rfl⟩
      by_cases hi : i = id
      · subst hi
        cases hc.symm.trans hd
        refine ⟨i, c', hself, ?_, hstep.pid_eq⟩
        by_contra hnot
        exact hleaves ⟨hchild, hnot⟩
      · exact ⟨i, d, by rw [hother i hi, hd], hchild, rfl⟩
    · rintro ⟨i, d, hd, hchild, rfl⟩
      by_cases hi : i = id
      · subst hi
        cases hself.symm.trans hd
        exact ⟨i, c, hc, hstep.child_of hchild, hstep.pid_eq.symm⟩
      · rw [hother i hi] at hd
        exact ⟨i, d, hd, hchild, rfl⟩

theorem World.Good.child (h : w.Good) (hc : w.children[id]? = some c)
    (hstep : ChildStep id now c c' es) :
    World.Good { w.put id c' es with live := deregister w.live c c' } := by
  have hlt := (List.getElem?_eq_some_iff.1 hc).1
  -- An entry of the new table is the new child, or an entry of the old one.
  have hcases : ∀ (i : ℕ) (d : Child), (w.children.set id c')[i]? = some d →
      i = id ∧ d = c' ∨ i ≠ id ∧ w.children[i]? = some d := by
    intro i d hd
    by_cases hi : i = id
    · subst hi
      rw [List.getElem?_set_self hlt] at hd
      exact .inl ⟨rfl, (Option.some.inj hd).symm⟩
    · rw [List.getElem?_set_ne (Ne.symm hi)] at hd
      exact .inr ⟨hi, hd⟩
  -- A child has the PID it had, and was unreaped if it is.
  have hold : ∀ (i : ℕ) (d : Child), (w.children.set id c')[i]? = some d →
      d.process ≠ .reaped → ∃ d' : Child,
      w.children[i]? = some d' ∧ d'.process ≠ .reaped ∧ d'.reaper.pid = d.reaper.pid := by
    intro i d hd hunreaped
    obtain ⟨rfl, rfl⟩ | ⟨-, hd⟩ := hcases i d hd
    · exact ⟨c, hc, hstep.unreaped hunreaped, hstep.pid_eq.symm⟩
    · exact ⟨d, hd, hunreaped, rfl⟩
  refine ⟨?_, ?_, mem_deregister h hc hstep, ?_, ?_, guarded_of_childStep h hc hstep⟩
  · intro i d hd
    obtain ⟨rfl, rfl⟩ | ⟨hi, hd⟩ := hcases i d hd
    · exact good_of_childStep (h.children i c hc) hstep
    · refine (h.children i d hd).frame fun e he habout => ?_
      obtain hnone | hsome := (hstep.about e he).1
      · rw [hnone] at habout
        cases habout
      · rw [hsome] at habout
        exact hi (Option.some.inj habout).symm
  · intro i j d e hd he hdu heu hpid
    obtain ⟨d', hd', hdu', hdp⟩ := hold i d hd hdu
    obtain ⟨e', he', heu', hep⟩ := hold j e he heu
    exact h.distinct i j d' e' hd' he' hdu' heu' (by rw [hdp, hep, hpid])
  · intro e he i habout
    change i < (w.children.set id c').length
    rw [List.length_set]
    obtain he | he := List.mem_append.1 he
    · exact h.named e he i habout
    · obtain hnone | hsome := (hstep.about e he).1
      · rw [hnone] at habout
        cases habout
      · rw [hsome] at habout
        cases habout
        exact hlt
  · intro i pid hspawned
    obtain hspawned | hspawned := List.mem_append.1 hspawned
    · obtain ⟨d, hd, hpid⟩ := h.spawns i pid hspawned
      by_cases hi : i = id
      · subst hi
        cases hc.symm.trans hd
        exact ⟨c', List.getElem?_set_self hlt, by rw [hstep.pid_eq, hpid]⟩
      · exact ⟨d, by rw [← hd]; exact List.getElem?_set_ne (Ne.symm hi), hpid⟩
    · exact absurd rfl ((hstep.about _ hspawned).2 i pid)

theorem World.Good.spawn {pid : ℕ} (h : w.Good) (grace : Option ℕ) (hfree : w.free pid = true) :
    World.Good { w with
      children := w.children ++ [⟨.running, Reaper.register pid grace⟩]
      live := w.live ++ [pid]
      log := w.log ++ [.spawned w.children.length pid] } := by
  let child : Child := ⟨.running, Reaper.register pid grace⟩
  have hfree : ∀ c ∈ w.children, c.process ≠ .reaped → c.reaper.pid ≠ pid := by
    intro c hc hunreaped
    have hfree := List.all_eq_true.1 hfree c hc
    rw [decide_eq_true_iff] at hfree
    exact hfree.resolve_left hunreaped
  have hnew : ∀ e ∈ w.log, e.about ≠ some w.children.length :=
    fun e he habout => Nat.lt_irrefl _ (h.named e he _ habout)
  have hlast : (w.children ++ [child])[w.children.length]? = some child := by simp
  have hcases : ∀ (i : ℕ) (d : Child), (w.children ++ [child])[i]? = some d →
      i = w.children.length ∧ d = child ∨ i < w.children.length ∧ w.children[i]? = some d := by
    intro i d hd
    obtain hi | hi := Nat.lt_or_ge i w.children.length
    · rw [List.getElem?_append_left hi] at hd
      exact .inr ⟨hi, hd⟩
    · rw [List.getElem?_append_right hi, List.getElem?_singleton] at hd
      obtain ⟨hi', hd⟩ := Option.ite_none_right_eq_some.1 hd
      exact .inl ⟨by omega, (Option.some.inj hd).symm⟩
  have hkept : ∀ (i : ℕ) (d : Child), w.children[i]? = some d →
      (w.children ++ [child])[i]? = some d := by
    intro i d hd
    rw [List.getElem?_append_left (List.getElem?_eq_some_iff.1 hd).1, hd]
  refine ⟨?_, ?_, ?_, ?_, ?_, h.guarded.concat trivial⟩
  · intro i d hd
    obtain ⟨rfl, rfl⟩ | ⟨hi, hd⟩ := hcases i d hd
    · exact good_register hnew
    · refine (h.children i d hd).frame fun e he => ?_
      cases List.mem_singleton.1 he
      exact fun habout => Nat.ne_of_lt hi (Option.some.inj habout).symm
  · intro i j d e hd he hdu heu hpid
    obtain ⟨rfl, rfl⟩ | ⟨-, hd⟩ := hcases i d hd
    · obtain ⟨rfl, rfl⟩ | ⟨-, he⟩ := hcases j e he
      · rfl
      · exact absurd hpid.symm (hfree e (List.mem_of_getElem? he) heu)
    · obtain ⟨rfl, rfl⟩ | ⟨-, he⟩ := hcases j e he
      · exact absurd hpid (hfree d (List.mem_of_getElem? hd) hdu)
      · exact h.distinct i j d e hd he hdu heu hpid
  · intro p
    rw [List.mem_append, h.live, List.mem_singleton]
    constructor
    · rintro (⟨i, d, hd, hchild, rfl⟩ | rfl)
      · exact ⟨i, d, hkept i d hd, hchild, rfl⟩
      · exact ⟨_, child, hlast, rfl, rfl⟩
    · rintro ⟨i, d, hd, hchild, rfl⟩
      obtain ⟨rfl, rfl⟩ | ⟨-, hd⟩ := hcases i d hd
      · exact .inr rfl
      · exact .inl ⟨i, d, hd, hchild, rfl⟩
  · intro e he i habout
    change i < (w.children ++ [child]).length
    rw [List.length_append, List.length_singleton]
    obtain he | he := List.mem_append.1 he
    · exact Nat.lt_succ_of_lt (h.named e he i habout)
    · cases List.mem_singleton.1 he
      cases habout
      exact Nat.lt_succ_self _
  · intro i p hspawned
    obtain hspawned | hspawned := List.mem_append.1 hspawned
    · obtain ⟨d, hd, hpid⟩ := h.spawns i p hspawned
      exact ⟨d, hkept i d hd, hpid⟩
    · cases List.mem_singleton.1 hspawned
      exact ⟨child, hlast, rfl⟩

theorem World.Good.dropScope (h : w.Good) : w.dropScope.Good := by
  have hsignals : ∀ e ∈ w.live.flatMap fun pid =>
      [Event.signalled false pid .kill, .signalled true pid .kill],
      ∃ toGroup pid signal id, e = .signalled toGroup pid signal ∧ Owns id pid w.log := by
    intro e he
    obtain ⟨pid, hpid, he⟩ := List.mem_flatMap.1 he
    obtain ⟨id, c, hc, hchild, rfl⟩ := (h.live pid).1 hpid
    simp only [List.mem_cons, List.not_mem_nil, or_false] at he
    obtain rfl | rfl := he
    · exact ⟨_, _, _, id, rfl, h.owns hc hchild⟩
    · exact ⟨_, _, _, id, rfl, h.owns hc hchild⟩
  have habout : ∀ e ∈ w.live.flatMap fun pid =>
      [Event.signalled false pid .kill, .signalled true pid .kill], e.about = none := by
    intro e he
    obtain ⟨_, _, _, _, rfl, -⟩ := hsignals e he
    rfl
  refine ⟨?_, h.distinct, h.live, ?_, ?_, guarded_signals h.guarded hsignals⟩
  · exact fun i d hd => (h.children i d hd).signals habout
  · intro e he i hi
    obtain he | he := List.mem_append.1 he
    · exact h.named e he i hi
    · rw [habout e he] at hi
      cases hi
  · intro i pid hspawned
    obtain hspawned | hspawned := List.mem_append.1 hspawned
    · exact h.spawns i pid hspawned
    · cases habout _ hspawned

/-- Every step keeps the invariant. -/
theorem World.Good.step {a : Action} (h : w.Good) (hstep : step w a = some w') : w'.Good := by
  cases steps_of_step hstep with
  | spawn pid grace hfree => exact h.spawn grace hfree
  | child hc hchild => exact h.child hc hchild
  | advance nanos => exact ⟨h.children, h.distinct, h.live, h.named, h.spawns, h.guarded⟩
  | dropScope => exact h.dropScope

theorem World.Good.reapsSafely (h : w.Good) : ReapsSafely w := by
  refine ⟨fun pid => ?_, ?_, ?_⟩
  · rw [h.live]
    constructor
    · rintro ⟨id, c, hc, hchild, hpid⟩
      have hgood := h.children id c hc
      exact ⟨c, List.mem_of_getElem? hc, hpid, hgood.unreaped hchild, hgood.held.1 hchild⟩
    · rintro ⟨c, hc, hpid, -, halive⟩
      obtain ⟨id, hc⟩ := List.mem_iff_getElem?.1 hc
      exact ⟨id, c, hc, (h.children id c hc).held.2 halive, hpid⟩
  · intro before toGroup pid signal after hlog
    exact h.guarded before _ after hlog
  · intro before id after hlog
    exact h.guarded before _ after hlog

/-- In every run, a PID is registered exactly while its child is unreaped and the reaper
alive; a signal goes to the PID of a child that was neither reaped nor handed on; and a
kill or a failure that was delivered by the last poll of its arm before the reap has
killed the group before the leader is reaped. -/
theorem reaper_safe {actions : List Action} (h : run step World.start actions = some w) :
    ReapsSafely w :=
  (invariant_run (fun _ _ _ hgood hstep => World.Good.step hgood hstep) good_start h).reapsSafely

/-- A child on a terminal is asked to hang up, exits within its grace, and its group is
killed before it is reaped. -/
def hangupRun : List Action :=
  [.spawn 7 (some 5), .kill 0, .poll 0 false, .exits 0 (.exited 0), .poll 0 true, .poll 0 true,
    .poll 0 true, .poll 0 true, .poll 0 true]

theorem reaper_safe_hangup :
    ∃ w, run step World.start hangupRun = some w ∧
      Event.signalled true 7 .kill ∈ w.log ∧ .reaped 0 ∈ w.log ∧ ReapsSafely w := by
  have hrun : (run step World.start hangupRun).isSome = true := by decide
  obtain ⟨w, hw⟩ := Option.isSome_iff_exists.1 hrun
  have hlog : (run step World.start hangupRun).map World.log = some
      [.spawned 0 7, .killRequested 0, .polled 0 .kill, .signalled false 7 .hup, .polled 0 .kill,
        .polled 0 .failure, .polled 0 .grace, .polled 0 .exit, .signalled true 7 .kill,
        .signalled false 7 .kill, .reaped 0] := by decide
  rw [hw] at hlog
  obtain hlog := Option.some.inj hlog
  refine ⟨w, hw, ?_, ?_, reaper_safe hw⟩
  · rw [hlog]
    decide
  · rw [hlog]
    decide

end

end QuantumSsh.Exec
