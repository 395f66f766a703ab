import QuantumSsh.Server.Basic

/-!
# Connection audit pairing

Every admitted connection owes one `connection.accepted` and one
`connection.closed`, every refused one a `connection.refused`. The events are
emitted by the task itself, or by the loop when it reaps a task that could not.
The pairing is stated per connection: what the log holds about it is determined
by where the connection stands.
-/

namespace QuantumSsh.Server

open Admission

/-! ### What the log holds about one connection -/

/-- How many events of each kind the log holds about one connection. -/
@[ext] structure Tally where
  accepted : ℕ
  closed : ℕ
  refused : ℕ
deriving Repr, DecidableEq

/-- The event is a `connection.closed` of `id`. -/
def AuditEvent.isClosed (id : ℕ) : AuditEvent → Bool
  | .closed id' _ => id' = id
  | _ => false

/-- The event is a `connection.refused` of `id`. -/
def AuditEvent.isRefused (id : ℕ) : AuditEvent → Bool
  | .refused id' _ => id' = id
  | _ => false

/-- What the log holds about `id`. -/
def tally (log : List AuditEvent) (id : ℕ) : Tally where
  accepted := log.count (.accepted id)
  closed := log.countP (AuditEvent.isClosed id)
  refused := log.countP (AuditEvent.isRefused id)

/-- The connection was accepted once and closed once. -/
def Tally.served : Tally := ⟨1, 1, 0⟩

/-- The connection was refused once. -/
def Tally.turnedAway : Tally := ⟨0, 0, 1⟩

/-- The log holds exactly the events every connection owes. -/
def State.Paired (s : State) : Prop :=
  ∀ id refused?, s.arrivals[id]? = some refused? →
    tally s.audit id = if refused?.isSome then Tally.turnedAway else Tally.served

/-- What the log holds about a task that is still in the set. -/
def Phase.tally : Phase → Tally
  | .spawned => ⟨0, 0, 0⟩
  | .completed => .served
  | _ => ⟨1, 0, 0⟩

/-- What the log should hold about `id` at this point of the run. -/
def State.owed (s : State) (id : ℕ) : Tally :=
  match s.arrivals[id]? with
  | none => ⟨0, 0, 0⟩
  | some (some _) => .turnedAway
  | some none => ((s.task? id).map fun t => t.phase.tally).getD .served

/-! ### The condition -/

/-- The step does not lose an event: a listener error ends the loop only when
every task still in the set has returned, and an abort drops only tasks that
were polled. -/
def State.Careful (s : State) : Event → Prop
  | .acceptFailed error _ =>
    classifyAcceptError error = .listener → ∀ t ∈ s.tasks, t.phase = .completed
  | .cancel id _ => ∀ t ∈ s.tasks, t.id = id → t.phase ≠ .spawned
  | _ => True

instance (s : State) (event : Event) : Decidable (s.Careful event) :=
  match event with
  | .acceptFailed error _ =>
    inferInstanceAs (Decidable (classifyAcceptError error = .listener →
      ∀ t ∈ s.tasks, t.phase = .completed))
  | .cancel id _ => inferInstanceAs (Decidable (∀ t ∈ s.tasks, t.id = id → t.phase ≠ .spawned))
  | .accepted .. | .joined .. | .shutdown .. | .resume | .abortTimer | .poll .. |
    .authenticate .. | .connectionEnded .. | .complete .. | .panic .. => isTrue trivial

/-- Every step of the run is careful in the state it starts from. -/
def State.carefulRun (s : State) : List Event → Bool
  | [] => true
  | event :: events => s.Careful event ∧ (s.step event).all fun s' => s'.carefulRun events

/-! ### The invariant -/

/-- The log holds what is owed, and the task set agrees with the arrivals. -/
structure State.Audited (s : State) : Prop where
  tally_eq : ∀ id, tally s.audit id = s.owed id
  admitted : ∀ t ∈ s.tasks, s.arrivals[t.id]? = some none
  spanned : ∀ t ∈ s.tasks, t.id ∈ s.spans
  settled : s.returned.isSome → ∀ t ∈ s.tasks, t.phase = .completed

theorem audited_start (limits : Limits) : (State.start limits).Audited where
  tally_eq := fun _ => rfl
  admitted := by simp [State.start]
  spanned := by simp [State.start]
  settled := by simp [State.start]

theorem tally_append (log : List AuditEvent) (event : AuditEvent) (id : ℕ) :
    tally (log ++ [event]) id =
      ⟨(tally log id).accepted + if event = .accepted id then 1 else 0,
        (tally log id).closed + if event.isClosed id then 1 else 0,
        (tally log id).refused + if event.isRefused id then 1 else 0⟩ := by
  simp [tally, List.count_append, List.count_singleton, List.countP_append,
    List.countP_singleton]

/-- An event about another connection leaves the tally of `id`. -/
theorem tally_append_of_not (log : List AuditEvent) {event : AuditEvent} {id : ℕ}
    (hacc : event ≠ .accepted id) (hclosed : event.isClosed id = false)
    (hrefused : event.isRefused id = false) :
    tally (log ++ [event]) id = tally log id := by
  simp [tally_append, hacc, hclosed, hrefused]

/-! ### Looking tasks up -/

theorem task?_some {s : State} {id : ℕ} {task : Task} (h : s.task? id = some task) :
    task ∈ s.tasks ∧ task.id = id := by
  refine ⟨List.mem_of_find?_eq_some h, ?_⟩
  simpa using List.find?_some h

@[simp] theorem emit_task? (s : State) (event : AuditEvent) (id : ℕ) :
    (s.emit event).task? id = s.task? id := rfl

theorem setTask_task? (s : State) (task : Task) (id : ℕ) :
    (s.setTask task).task? id =
      (s.task? id).map fun t => if t.id = task.id then task else t := by
  have hid : ((fun t : Task => decide (t.id = id)) ∘
      fun t => if t.id = task.id then task else t) = fun t => decide (t.id = id) := by
    funext t
    by_cases h : t.id = task.id
    · simp [h]
    · simp [h]
  rw [State.task?, State.setTask, List.find?_map, hid]
  rfl

theorem mem_setTask {s : State} {task t : Task} (h : t ∈ (s.setTask task).tasks) :
    t = task ∨ t ∈ s.tasks := by
  obtain ⟨u, hu, rfl⟩ := List.mem_map.1 h
  by_cases hid : u.id = task.id
  · simp [hid]
  · simp [hid, hu]

/-- Replacing the task of `id` changes what is owed about `id` only. -/
theorem owed_setTask {s : State} {task task' : Task} (hget : s.task? task.id = some task)
    (hid : task'.id = task.id) (hadm : s.arrivals[task.id]? = some none) (id : ℕ) :
    (s.setTask task').owed id = if id = task.id then task'.phase.tally else s.owed id := by
  have harr : (s.setTask task').arrivals = s.arrivals := rfl
  by_cases h : id = task.id
  · subst h
    simp [State.owed, harr, hadm, setTask_task?, hget, hid]
  · rw [if_neg h]
    have hsame : (s.setTask task').task? id = s.task? id := by
      rw [setTask_task?]
      cases ht : s.task? id with
      | none => rfl
      | some t =>
        have hne : t.id ≠ task'.id := by
          rw [hid, (task?_some ht).2]
          exact h
        simp [hne]
    simp only [State.owed, harr, hsame]

/-! ### One step of a task -/

/-- A task moves to another phase, and the log gains what the move owes. -/
theorem State.Audited.move {s s' : State} {task : Task} (h : s.Audited) (task' : Task)
    (hret : s.returned = none) (hget : s.task? task.id = some task) (hid : task'.id = task.id)
    (htasks : s'.tasks = (s.setTask task').tasks) (harr : s'.arrivals = s.arrivals)
    (hspans : s'.spans = s.spans) (hreturned : s'.returned = s.returned)
    (hself : tally s'.audit task.id = task'.phase.tally)
    (hothers : ∀ id, id ≠ task.id → tally s'.audit id = tally s.audit id) :
    s'.Audited := by
  have hmem := (task?_some hget).1
  have hadm := h.admitted task hmem
  have howed : ∀ id, s'.owed id = (s.setTask task').owed id := by
    intro id
    have harr' : s'.arrivals = (s.setTask task').arrivals := harr
    simp only [State.owed, State.task?, harr', htasks]
  refine ⟨fun id => ?_, fun t ht => ?_, fun t ht => ?_, fun hs => ?_⟩
  · rw [howed, owed_setTask hget hid hadm]
    by_cases hi : id = task.id
    · simp [hi, hself]
    · rw [if_neg hi, hothers id hi, h.tally_eq]
  · rw [htasks] at ht
    rw [harr]
    obtain rfl | ht := mem_setTask ht
    · rw [hid]
      exact hadm
    · exact h.admitted t ht
  · rw [htasks] at ht
    rw [hspans]
    obtain rfl | ht := mem_setTask ht
    · rw [hid]
      exact h.spanned task hmem
    · exact h.spanned t ht
  · simp [hreturned, hret] at hs

/-- What the log holds about a task in the set. -/
theorem State.Audited.tally_task {s : State} (h : s.Audited) {task : Task}
    (hget : s.task? task.id = some task) : tally s.audit task.id = task.phase.tally := by
  rw [h.tally_eq, State.owed, h.admitted task (task?_some hget).1]
  simp [hget]

theorem State.Audited.taskStep {s s' : State} {event : Event} (h : s.Audited)
    (hret : s.returned = none) (hcareful : s.Careful event)
    (hstep : s.taskStep event = some s') : s'.Audited := by
  cases event with
  | poll id =>
    simp only [State.taskStep, Option.bind_eq_some_iff] at hstep
    obtain ⟨task, hget, hstep⟩ := hstep
    obtain rfl := (task?_some hget).2
    split at hstep
    next hphase =>
      cases hstep
      refine h.move { task with phase := .connecting }
        hret hget rfl rfl rfl rfl rfl ?_ fun id hid => ?_
      · change tally (s.audit ++ [_]) task.id = _
        rw [tally_append, h.tally_task hget, hphase]
        simp [Phase.tally, AuditEvent.isClosed, AuditEvent.isRefused]
      · exact tally_append_of_not _ (by simpa using hid.symm) rfl rfl
    next => cases hstep
  | authenticate id =>
    simp only [State.taskStep, Option.bind_eq_some_iff] at hstep
    obtain ⟨task, hget, hstep⟩ := hstep
    obtain rfl := (task?_some hget).2
    split at hstep
    next hphase =>
      cases hstep
      exact h.move { task with guard := (markAuthenticated task.guard s.admission).1 }
        hret hget rfl rfl rfl rfl rfl (h.tally_task hget) fun _ _ => rfl
    next => cases hstep
  | connectionEnded id ending =>
    simp only [State.taskStep, Option.bind_eq_some_iff] at hstep
    obtain ⟨task, hget, hstep⟩ := hstep
    obtain rfl := (task?_some hget).2
    split at hstep
    next hphase =>
      cases hstep
      refine h.move { task with phase := .finishing ending }
        hret hget rfl rfl rfl rfl rfl ?_ fun _ _ => rfl
      exact (h.tally_task hget).trans (by rw [hphase]; rfl)
    next => cases hstep
  | complete id now =>
    simp only [State.taskStep, Option.bind_eq_some_iff] at hstep
    obtain ⟨task, hget, hstep⟩ := hstep
    obtain rfl := (task?_some hget).2
    split at hstep
    next ending hphase =>
      cases hstep
      refine h.move { task with phase := .completed }
        hret hget rfl rfl rfl rfl rfl ?_ fun id hid => ?_
      · change tally (s.audit ++ [_]) task.id = _
        rw [tally_append, h.tally_task hget, hphase]
        simp [Phase.tally, Tally.served, AuditEvent.isClosed, AuditEvent.isRefused]
      · exact tally_append_of_not _ (by simp) (by simpa [AuditEvent.isClosed] using hid.symm) rfl
    next => cases hstep
  | panic id message now =>
    simp only [State.taskStep, Option.bind_eq_some_iff] at hstep
    obtain ⟨task, hget, hstep⟩ := hstep
    obtain rfl := (task?_some hget).2
    have hmove : task.phase.tally = ⟨1, 0, 0⟩ → (s.endTask task (.panicked message) now).Audited :=
      fun hphase => h.move { task with phase := .panicked message }
        hret hget rfl rfl rfl rfl rfl ((h.tally_task hget).trans hphase) fun _ _ => rfl
    split at hstep
    next hphase =>
      cases hstep
      exact hmove (by rw [hphase]; rfl)
    next ending hphase =>
      cases hstep
      exact hmove (by rw [hphase]; rfl)
    next => cases hstep
  | cancel id now =>
    simp only [State.taskStep, Option.bind_eq_some_iff] at hstep
    obtain ⟨task, hget, hstep⟩ := hstep
    obtain ⟨hmem, rfl⟩ := task?_some hget
    split at hstep
    next hlive =>
      cases hstep
      refine h.move { task with phase := .cancelled }
        hret hget rfl rfl rfl rfl rfl ?_ fun _ _ => rfl
      -- The task was polled, so it announced itself; nobody has closed it yet.
      have hpolled := hcareful task hmem rfl
      have hlive := hlive.2
      refine (h.tally_task hget).trans ?_
      change _ = (⟨1, 0, 0⟩ : Tally)
      cases hphase : task.phase <;> simp_all [Phase.tally, Phase.ended]
    next => cases hstep
  | _ => simp [State.taskStep] at hstep

/-! ### One step of the loop -/

theorem State.Audited.accept {s : State} (h : s.Audited) (hret : s.returned = none)
    (ip : IpAddr) (now : ℕ) : (s.accept ip now).Audited := by
  have hfresh : ∀ t ∈ s.tasks, t.id < s.arrivals.length := by
    intro t ht
    exact (List.getElem?_eq_some_iff.1 (h.admitted t ht)).1
  -- The id is new: nothing was logged about it.
  have hnew : tally s.audit s.arrivals.length = ⟨0, 0, 0⟩ := by
    rw [h.tally_eq]
    simp [State.owed]
  have hold : ∀ id r, id ≠ s.arrivals.length → (s.arrivals ++ [r])[id]? = s.arrivals[id]? := by
    intro id r hid
    by_cases hlt : id < s.arrivals.length
    · rw [List.getElem?_append_left hlt]
    · rw [List.getElem?_eq_none (by simp; omega), List.getElem?_eq_none (by omega)]
  unfold State.accept
  dsimp only
  split
  next refusal admission hrun =>
    refine ⟨fun id => ?_, fun t ht => ?_, h.spanned, fun hs => ?_⟩
    · by_cases hid : id = s.arrivals.length
      · subst hid
        change tally (s.audit ++ [_]) _ = _
        rw [tally_append, hnew]
        simp [State.owed, State.emit, Tally.turnedAway, AuditEvent.isClosed,
          AuditEvent.isRefused]
      · change tally (s.audit ++ [_]) _ = _
        rw [tally_append_of_not _ (by simp) rfl
          (by simpa [AuditEvent.isRefused] using Ne.symm hid), h.tally_eq]
        simp only [State.owed, State.emit, State.task?, hold id _ hid]
    · exact (hold t.id _ (hfresh t ht).ne).trans (h.admitted t ht)
    · simp [State.emit, hret] at hs
  -- An admitted connection owes its events until its task is polled.
  next guard admission hrun =>
    refine ⟨fun id => ?_, fun t ht => ?_, fun t ht => ?_, fun hs => ?_⟩
    · by_cases hid : id = s.arrivals.length
      · subst hid
        have hnone : s.tasks.find? (fun t => decide (t.id = s.arrivals.length)) = none := by
          rw [List.find?_eq_none]
          intro t ht
          simpa using (hfresh t ht).ne
        simp [State.owed, State.task?, List.find?_append, hnone, Phase.tally, hnew]
      · have hne : s.arrivals.length ≠ id := Ne.symm hid
        refine (h.tally_eq id).trans ?_
        simp only [State.owed, State.task?, hold id _ hid, List.find?_append]
        simp [hne]
    · rw [List.mem_append, List.mem_singleton] at ht
      obtain ht | rfl := ht
      · exact (hold t.id _ (hfresh t ht).ne).trans (h.admitted t ht)
      · simp
    · rw [List.mem_append, List.mem_singleton] at ht
      obtain ht | rfl := ht
      · exact List.mem_cons_of_mem _ (h.spanned t ht)
      · simp
    · simp [hret] at hs

/-- Reaping a task: the loop emits its `connection.closed` exactly when the task
did not. -/
theorem tally_logJoin {s : State} {task : Task} (hended : task.phase.ended = true)
    (hspan : task.id ∈ s.spans) (htally : tally s.audit task.id = task.phase.tally) (id : ℕ) :
    tally (s.logJoin task).audit id = if id = task.id then .served else tally s.audit id := by
  have hloop : ∀ reason, tally s.audit task.id = ⟨1, 0, 0⟩ →
      tally (s.audit ++ [.closed task.id reason]) id =
        if id = task.id then .served else tally s.audit id := by
    intro reason hone
    by_cases hid : id = task.id
    · subst hid
      rw [tally_append, hone]
      simp [Tally.served, AuditEvent.isClosed, AuditEvent.isRefused]
    · rw [if_neg hid]
      exact tally_append_of_not _ (by simp)
        (by simpa [AuditEvent.isClosed] using Ne.symm hid) rfl
  cases hphase : task.phase with
  | completed =>
    simp only [State.logJoin, hphase]
    by_cases hid : id = task.id
    · rw [if_pos hid, hid, htally, hphase]
      rfl
    · rw [if_neg hid]
  | panicked message =>
    simp only [State.logJoin, hphase, if_pos hspan]
    exact hloop message (by rw [htally, hphase]; rfl)
  | cancelled =>
    simp only [State.logJoin, hphase, if_pos hspan]
    exact hloop "shutdown" (by rw [htally, hphase]; rfl)
  | spawned => simp [hphase, Phase.ended] at hended
  | connecting => simp [hphase, Phase.ended] at hended
  | finishing ending => simp [hphase, Phase.ended] at hended

theorem logJoin_fields (s : State) (task : Task) :
    (s.logJoin task).tasks = s.tasks ∧ (s.logJoin task).arrivals = s.arrivals ∧
      (s.logJoin task).spans = s.spans.erase task.id ∧
      (s.logJoin task).returned = s.returned := by
  unfold State.logJoin
  dsimp only
  split
  · split <;> exact ⟨rfl, rfl, rfl, rfl⟩
  · split <;> exact ⟨rfl, rfl, rfl, rfl⟩
  · exact ⟨rfl, rfl, rfl, rfl⟩

/-- Returning keeps the log; it asks that the tasks left behind have returned. -/
theorem State.Audited.ret {s : State} (h : s.Audited) (result : Except Errno Unit)
    (hdone : ∀ t ∈ s.tasks, t.phase = .completed) :
    { s with returned := some result }.Audited where
  tally_eq := h.tally_eq
  admitted := h.admitted
  spanned := h.spanned
  settled := fun _ => hdone

/-- The set without an ended task, once the loop has spoken for it. -/
theorem State.Audited.reap {s u : State} (h : s.Audited) (hret : u.returned = none)
    {task : Task} (hget : s.task? task.id = some task) (hended : task.phase.ended = true)
    (htasks : u.tasks = s.tasks.filter fun t => t.id ≠ task.id)
    (harr : u.arrivals = s.arrivals) (hspans : u.spans = s.spans) (haudit : u.audit = s.audit) :
    (u.logJoin task).Audited := by
  obtain ⟨hmem, -⟩ := task?_some hget
  obtain ⟨htasks', harr', hspans', hret'⟩ := logJoin_fields u task
  rw [htasks] at htasks'
  rw [harr] at harr'
  rw [hspans] at hspans'
  rw [hret] at hret'
  -- The loop speaks for the task unless it spoke itself: either way it is served.
  have htally : ∀ id, tally (u.logJoin task).audit id =
      if id = task.id then .served else tally s.audit id := by
    intro id
    rw [tally_logJoin hended (hspans ▸ h.spanned task hmem) (haudit ▸ h.tally_task hget), haudit]
  refine ⟨fun id => ?_, fun t ht => ?_, fun t ht => ?_, fun hs => ?_⟩
  · rw [htally]
    simp only [State.owed, State.task?, htasks', harr']
    by_cases hid : id = task.id
    · subst hid
      have hgone : (s.tasks.filter fun t => t.id ≠ task.id).find?
          (fun t => decide (t.id = task.id)) = none := by
        rw [List.find?_eq_none]
        intro t ht
        simpa using (List.mem_filter.1 ht).2
      rw [h.admitted task hmem, hgone]
      simp
    · have hsame : (s.tasks.filter fun t => t.id ≠ task.id).find?
          (fun t => decide (t.id = id)) = s.tasks.find? fun t => decide (t.id = id) := by
        rw [List.find?_filter]
        congr 1
        funext t
        by_cases ht : t.id = id
        · simp [ht, hid]
        · simp [ht]
      rw [if_neg hid, hsame]
      exact h.tally_eq id
  · rw [htasks', List.mem_filter] at ht
    rw [harr']
    exact h.admitted t ht.1
  · rw [htasks', List.mem_filter] at ht
    rw [hspans']
    exact (List.mem_erase_of_ne (by simpa using ht.2)).2 (h.spanned t ht.1)
  · simp [hret'] at hs

theorem State.Audited.join {s : State} (h : s.Audited) (hret : s.returned = none)
    {task : Task} (hget : s.task? task.id = some task) (hended : task.phase.ended = true) :
    (s.join task).Audited := by
  have hreaped := h.reap (u := { s with tasks := s.tasks.filter fun t => t.id ≠ task.id })
    hret hget hended rfl rfl rfl rfl
  unfold State.join
  dsimp only
  split
  next hdrained => exact hreaped.ret _ (by rw [hdrained.2]; simp)
  next => exact hreaped

theorem State.Audited.abortAll {s : State} (h : s.Audited) (hret : s.returned = none) :
    s.abortAll.Audited := by
  have hmarked : ∀ aborting,
      { s with
        aborting
        tasks := s.tasks.map fun t : Task => { t with abortRequested := true } }.Audited := by
    intro aborting
    have hfind : ∀ id, (s.tasks.map fun t : Task => { t with abortRequested := true }).find?
        (fun t => decide (t.id = id)) =
          (s.tasks.find? fun t => decide (t.id = id)).map
            fun t => { t with abortRequested := true } := fun id => List.find?_map
    refine ⟨fun id => ?_, fun t ht => ?_, fun t ht => ?_, fun hs => ?_⟩
    · refine (h.tally_eq id).trans ?_
      simp only [State.owed, State.task?, hfind, Option.map_map]
      rfl
    · obtain ⟨u, hu, rfl⟩ := List.mem_map.1 ht
      exact h.admitted u hu
    · obtain ⟨u, hu, rfl⟩ := List.mem_map.1 ht
      exact h.spanned u hu
    · simp [hret] at hs
  unfold State.abortAll
  dsimp only
  split
  next hempty => exact (hmarked true).ret _ (by simp [hempty])
  next => exact hmarked true

/-- An arm that leaves the tasks, the log and the arrivals alone. -/
theorem State.Audited.congr {s s' : State} (h : s.Audited) (htasks : s'.tasks = s.tasks)
    (harr : s'.arrivals = s.arrivals) (hspans : s'.spans = s.spans)
    (haudit : s'.audit = s.audit)
    (hret : s'.returned.isSome → ∀ t ∈ s.tasks, t.phase = .completed) : s'.Audited where
  tally_eq := fun id => by
    simpa only [State.owed, State.task?, htasks, harr, haudit] using h.tally_eq id
  admitted := by simpa only [htasks, harr] using h.admitted
  spanned := by simpa only [htasks, hspans] using h.spanned
  settled := by simpa only [htasks] using hret

theorem State.Audited.loopStep {s s' : State} {event : Event} (h : s.Audited)
    (hret : s.returned = none) (hcareful : s.Careful event)
    (hstep : s.loopStep event = some s') : s'.Audited := by
  cases event with
  | accepted ip now =>
    simp only [State.loopStep, Option.ite_none_right_eq_some, Option.some.injEq] at hstep
    obtain ⟨-, rfl⟩ := hstep
    exact h.accept hret ip now
  | acceptFailed error now =>
    simp only [State.loopStep, Option.ite_none_right_eq_some, Option.some.injEq] at hstep
    obtain ⟨-, rfl⟩ := hstep
    unfold State.acceptError
    split
    next hclass => exact h.ret _ (hcareful hclass)
    next => exact h.congr rfl rfl rfl rfl (by simp [hret])
    next => exact h
  | joined id =>
    simp only [State.loopStep] at hstep
    split at hstep
    next task hget =>
      obtain rfl := (task?_some hget).2
      simp only [Option.ite_none_right_eq_some, Option.some.injEq] at hstep
      obtain ⟨hended, rfl⟩ := hstep
      exact h.join hret hget hended
    next => cases hstep
  | shutdown deadline now =>
    simp only [State.loopStep, Option.ite_none_left_eq_some, Option.some.injEq] at hstep
    obtain ⟨-, rfl⟩ := hstep
    unfold State.onShutdown
    split
    next => exact h.congr rfl rfl rfl rfl (by simp [hret])
    next =>
      split
      next hempty => exact h.ret _ (by simp [hempty])
      next => exact h.congr rfl rfl rfl rfl (by simp [hret])
  | resume =>
    simp only [State.loopStep, Option.ite_none_right_eq_some, Option.some.injEq] at hstep
    obtain ⟨-, rfl⟩ := hstep
    exact h.congr rfl rfl rfl rfl (by simp [hret])
  | abortTimer =>
    simp only [State.loopStep, Option.ite_none_right_eq_some, Option.some.injEq] at hstep
    obtain ⟨-, rfl⟩ := hstep
    exact h.abortAll hret
  | _ => simp [State.loopStep] at hstep

theorem State.Audited.step {s s' : State} {event : Event} (h : s.Audited)
    (hcareful : s.Careful event) (hstep : s.step event = some s') : s'.Audited := by
  simp only [State.step, Option.ite_none_left_eq_some, Option.or_eq_some_iff] at hstep
  obtain ⟨hret, hstep⟩ := hstep
  have hret : s.returned = none := by simpa using hret
  obtain hloop | ⟨-, htask⟩ := hstep
  · exact h.loopStep hret hcareful hloop
  · exact h.taskStep hret hcareful htask

theorem State.Audited.run {s s' : State} {events : List Event} (h : s.Audited)
    (hcareful : s.carefulRun events) (hrun : s.run events = some s') : s'.Audited := by
  induction events generalizing s with
  | nil =>
    obtain rfl : s = s' := by simpa [State.run] using hrun
    exact h
  | cons event events ih =>
    simp only [State.run, Option.bind_eq_some_iff] at hrun
    obtain ⟨s₁, hstep, hrun⟩ := hrun
    simp only [State.carefulRun, hstep, Option.all_some, decide_eq_true_eq] at hcareful
    exact ih (h.step hcareful.1 hstep) hcareful.2 hrun

/-! ### The pairing -/

/-- A connection is served; a second one outlives the shutdown deadline. -/
def drainedRun : List Event :=
  [.accepted (.v4 203 0 113 1) 0, .poll 0, .authenticate 0, .connectionEnded 0 .sessionClosed,
    .accepted (.v4 203 0 113 2) 5, .complete 0 6, .poll 1, .joined 0, .shutdown 10 7,
    .abortTimer, .cancel 1 11, .joined 1]

/-- **Audit pairing.** When `serve` returns after a careful run, every admitted
connection was accepted once and closed once, and every refused one was refused
once and nothing else. -/
theorem paired_of_carefulRun (limits : Limits) (events : List Event) (s : State)
    (hrun : (State.start limits).run events = some s)
    (hcareful : (State.start limits).carefulRun events) (hret : s.returned.isSome) :
    s.Paired := by
  have h := (audited_start limits).run hcareful hrun
  intro id refused? harr
  rw [h.tally_eq, State.owed, harr]
  cases refused? with
  | some refusal => rfl
  | none =>
    cases htask : s.task? id with
    | none => rfl
    | some task =>
      have hdone := h.settled hret task (task?_some htask).1
      simp [hdone, Phase.tally]

/-- One connection is served, a second one is dropped at the drain deadline. -/
theorem paired_of_carefulRun_drained :
    ∃ s, (State.start Limits.default).run drainedRun = some s ∧ s.Paired := by
  exact ⟨_, rfl, paired_of_carefulRun Limits.default drainedRun _ rfl (by decide) rfl⟩

/-- A listener error while a connection is up: `serve` returns and the
connection is never closed in the log. -/
theorem listener_error_unpaired :
    ∃ s, (State.start Limits.default).run
        [.accepted (.v4 203 0 113 1) 0, .poll 0, .acceptFailed .badf 1] = some s ∧
      s.returned = some (.error .badf) ∧ ¬ s.Paired := by
  refine ⟨_, rfl, rfl, fun hpaired => ?_⟩
  have htally := hpaired 0 none rfl
  exact absurd htally (by decide)

end QuantumSsh.Server
