import QuantumSsh.Admission.Accounting
import QuantumSsh.Server.Audit

/-!
# The server under its limits

Every run of the accept loop is a run of the admission control: the guards that the control
counts are those of the connection tasks that have not ended. So the tasks respect the limits,
a connection is refused only when a limit is reached by them, and a loop that has drained
leaves nothing counted.
-/

namespace QuantumSsh.Server

open Admission

/-! ### The tasks that count -/

/-- The guards of the tasks that have not ended. -/
def liveGuards (tasks : List Task) : List ConnectionGuard :=
  (tasks.filter fun t => !t.phase.ended).map Task.guard

theorem liveGuards_append (ts us : List Task) :
    liveGuards (ts ++ us) = liveGuards ts ++ liveGuards us := by
  rw [liveGuards, List.filter_append, List.map_append]
  rfl

theorem liveGuards_cons_of_live {t : Task} {ts : List Task} (h : t.phase.ended = false) :
    liveGuards (t :: ts) = t.guard :: liveGuards ts := by
  rw [liveGuards, List.filter_cons_of_pos (by rw [h]; rfl)]
  rfl

theorem liveGuards_cons_of_ended {t : Task} {ts : List Task} (h : t.phase.ended = true) :
    liveGuards (t :: ts) = liveGuards ts := by
  rw [liveGuards, List.filter_cons_of_neg (by rw [h]; decide)]
  rfl

/-- A change that ends no task and touches no guard. -/
theorem liveGuards_map {f : Task → Task} (hended : ∀ t, (f t).phase.ended = t.phase.ended)
    (hguard : ∀ t, (f t).guard = t.guard) (ts : List Task) :
    liveGuards (ts.map f) = liveGuards ts := by
  induction ts with
  | nil => rfl
  | cons t ts ih =>
    rw [List.map_cons]
    cases hphase : t.phase.ended with
    | false => rw [liveGuards_cons_of_live ((hended t).trans hphase), hguard, ih,
        liveGuards_cons_of_live hphase]
    | true => rw [liveGuards_cons_of_ended ((hended t).trans hphase), ih,
        liveGuards_cons_of_ended hphase]

/-! ### Tasks by their ids -/

/-- Each task has an id of its own, of a connection that has arrived. -/
structure State.Distinct (s : State) : Prop where
  nodup : (s.tasks.map Task.id).Nodup
  arrived : ∀ t ∈ s.tasks, t.id < s.arrivals.length

variable {s s' : State} {task : Task} {id : ℕ}

/-- The task of an id stands in one place of the list. -/
theorem State.Distinct.split (h : s.Distinct) (hget : s.task? id = some task) :
    ∃ before after, s.tasks = before ++ task :: after ∧ task.id = id ∧
      ∀ t ∈ before ++ after, t.id ≠ task.id := by
  obtain ⟨hmem, hid⟩ := task?_some hget
  obtain ⟨before, after, hsplit⟩ := List.append_of_mem hmem
  refine ⟨before, after, hsplit, hid, fun t ht heq => ?_⟩
  have hnodup := h.nodup
  rw [hsplit, List.map_append, List.map_cons, List.perm_middle.nodup_iff, List.nodup_cons,
    ← List.map_append] at hnodup
  exact hnodup.1 (heq ▸ List.mem_map_of_mem ht)

/-- A task is replaced in its place. -/
theorem setTask_tasks {before after : List Task} (hsplit : s.tasks = before ++ task :: after)
    (hothers : ∀ t ∈ before ++ after, t.id ≠ task.id) {task' : Task} (hid : task'.id = task.id) :
    (s.setTask task').tasks = before ++ task' :: after := by
  have hsame : ∀ ts : List Task, (∀ t ∈ ts, t.id ≠ task.id) →
      ts.map (fun t => if t.id = task'.id then task' else t) = ts := by
    intro ts hts
    refine (List.map_congr_left fun t ht => ?_).trans (List.map_id ts)
    rw [hid]
    exact if_neg (hts t ht)
  obtain ⟨hbefore, hafter⟩ := List.forall_mem_append.1 hothers
  rw [State.setTask, hsplit, List.map_append, List.map_cons, if_pos hid.symm, hsame _ hbefore,
    hsame _ hafter]

/-! ### The admission control under the server -/

/-- The admission control counts the live guards, in some order. -/
structure Refines (s : State) (sys : System) : Prop where
  admission : sys.state = s.admission
  guards : sys.guards.Perm (liveGuards s.tasks)

/-- The step is none of the admission control, or one of it. -/
def Simulated (l : Limits) (s s' : State) : Prop :=
  ∀ sys, Refines s sys → Refines s' sys ∨ ∃ op, Refines s' (sys.step l op)

theorem simulated_of_same {l : Limits} (hadmission : s'.admission = s.admission)
    (hguards : liveGuards s'.tasks = liveGuards s.tasks) : Simulated l s s' := by
  intro sys h
  refine .inl ⟨h.admission.trans hadmission.symm, ?_⟩
  rw [hguards]
  exact h.guards

/-- A live guard stands somewhere in the list of the control. -/
theorem Refines.split {sys : System} (h : Refines s sys) {before after : List ConnectionGuard}
    {g : ConnectionGuard} (hlive : liveGuards s.tasks = before ++ g :: after) :
    ∃ i pre post, sys.guards[i]? = some g ∧ sys.guards = pre ++ g :: post ∧
      sys.guards.eraseIdx i = pre ++ post ∧ (∀ g', sys.guards.set i g' = pre ++ g' :: post) ∧
      (pre ++ post).Perm (before ++ after) := by
  have hmem : g ∈ sys.guards := by
    rw [h.guards.mem_iff, hlive]
    exact List.mem_append_right _ List.mem_cons_self
  obtain ⟨i, hi⟩ := List.mem_iff_getElem?.1 hmem
  obtain ⟨pre, post, hguards, herase, hset⟩ := Lists.exists_split hi
  refine ⟨i, pre, post, hi, hguards, herase, hset, ?_⟩
  have hperm := h.guards
  rw [hguards, hlive] at hperm
  exact List.Perm.cons_inv ((List.perm_middle.symm.trans hperm).trans List.perm_middle)

/-- The guard of a live task changes with the control. -/
theorem Refines.authenticate {sys : System} {l : Limits} (h : Refines s sys)
    {before after : List ConnectionGuard} {g : ConnectionGuard}
    (hlive : liveGuards s.tasks = before ++ g :: after)
    (hlive' : liveGuards s'.tasks = before ++ (markAuthenticated g s.admission).1 :: after)
    (hadmission : s'.admission = (markAuthenticated g s.admission).2) :
    ∃ op, Refines s' (sys.step l op) := by
  obtain ⟨i, pre, post, hi, -, -, hset, hperm⟩ := h.split hlive
  refine ⟨.authenticate i, ?_⟩
  have hstep : sys.step l (.authenticate i) = ⟨(markAuthenticated g s.admission).2,
      pre ++ (markAuthenticated g s.admission).1 :: post⟩ := by
    simp only [System.step, hi, h.admission, hset]
  rw [hstep]
  refine ⟨hadmission.symm, ?_⟩
  rw [hlive']
  exact (List.perm_middle.trans (hperm.cons _)).trans List.perm_middle.symm

/-- The guard of a task that ends is dropped by the control. -/
theorem Refines.drop {sys : System} {l : Limits} (h : Refines s sys)
    {before after : List ConnectionGuard} {g : ConnectionGuard} {now : ℕ}
    (hlive : liveGuards s.tasks = before ++ g :: after)
    (hlive' : liveGuards s'.tasks = before ++ after)
    (hadmission : s'.admission = dropGuard l now g s.admission) :
    ∃ op, Refines s' (sys.step l op) := by
  obtain ⟨i, pre, post, hi, -, herase, -, hperm⟩ := h.split hlive
  refine ⟨.drop i now, ?_⟩
  have hstep : sys.step l (.drop i now) = ⟨dropGuard l now g s.admission, pre ++ post⟩ := by
    simp only [System.step, hi, h.admission, herase]
  rw [hstep]
  refine ⟨hadmission.symm, ?_⟩
  rw [hlive']
  exact hperm

/-! ### One step -/

/-- What every state of a run keeps. -/
structure State.Sound (s : State) : Prop where
  distinct : s.Distinct
  /-- A loop that returned well has joined every task. -/
  joined : s.returned = some (.ok ()) → s.tasks = []

/-- What a step keeps, and that the control can follow it. -/
structure Follows (s s' : State) : Prop where
  limits : s'.limits = s.limits
  sound : s'.Sound
  simulated : Simulated s.limits s s'

theorem State.Distinct.of_ids (h : s.Distinct) (htasks : s'.tasks.map Task.id = s.tasks.map Task.id)
    (harrivals : s'.arrivals = s.arrivals) : s'.Distinct := by
  refine ⟨htasks ▸ h.nodup, fun t ht => ?_⟩
  obtain ⟨u, hu, hid⟩ := List.mem_map.1 (htasks ▸ List.mem_map_of_mem (f := Task.id) ht)
  rw [harrivals, ← hid]
  exact h.arrived u hu

theorem setTask_ids (task : Task) : (s.setTask task).tasks.map Task.id = s.tasks.map Task.id := by
  rw [State.setTask, List.map_map]
  refine List.map_congr_left fun t _ => ?_
  dsimp only [Function.comp]
  split_ifs with h
  · exact h.symm
  · rfl

/-- A step of a task, which changes that task alone. -/
theorem follows_of_task (task' : Task) (hsound : s.Sound) (hreturned : s.returned = none)
    (htasks : s'.tasks = (s.setTask task').tasks) (hlimits : s'.limits = s.limits)
    (harrivals : s'.arrivals = s.arrivals) (hreturned' : s'.returned = s.returned)
    (hsimulated : Simulated s.limits s s') : Follows s s' where
  limits := hlimits
  sound :=
    { distinct := hsound.distinct.of_ids (by rw [htasks, setTask_ids]) harrivals
      joined := by
        intro h
        rw [hreturned', hreturned] at h
        cases h }
  simulated := hsimulated

/-- The guards beside that of a task. -/
theorem State.Distinct.liveGuards (h : s.Distinct) (hget : s.task? id = some task)
    (hlive : task.phase.ended = false) : ∃ before after,
      liveGuards s.tasks = before ++ task.guard :: after ∧
      (∀ task' : Task, task'.id = task.id → task'.phase.ended = false →
        Server.liveGuards (s.setTask task').tasks = before ++ task'.guard :: after) ∧
      ∀ task' : Task, task'.id = task.id → task'.phase.ended = true →
        Server.liveGuards (s.setTask task').tasks = before ++ after := by
  obtain ⟨before, after, hsplit, -, hothers⟩ := h.split hget
  refine ⟨Server.liveGuards before, Server.liveGuards after, ?_, fun task' hid hphase => ?_,
    fun task' hid hphase => ?_⟩
  · rw [hsplit, liveGuards_append, liveGuards_cons_of_live hlive]
  · rw [setTask_tasks hsplit hothers hid, liveGuards_append, liveGuards_cons_of_live hphase]
  · rw [setTask_tasks hsplit hothers hid, liveGuards_append, liveGuards_cons_of_ended hphase]

/-- A task goes on, with its guard. -/
theorem follows_of_live (task' : Task) (hsound : s.Sound) (hreturned : s.returned = none)
    (hget : s.task? id = some task) (hlive : task.phase.ended = false) (hid : task'.id = task.id)
    (hguard : task'.guard = task.guard) (hlive' : task'.phase.ended = false)
    (htasks : s'.tasks = (s.setTask task').tasks) (hlimits : s'.limits = s.limits)
    (harrivals : s'.arrivals = s.arrivals) (hreturned' : s'.returned = s.returned)
    (hadmission : s'.admission = s.admission) : Follows s s' := by
  refine follows_of_task task' hsound hreturned htasks hlimits harrivals hreturned'
    (simulated_of_same hadmission ?_)
  obtain ⟨before, after, hguards, hset, -⟩ := hsound.distinct.liveGuards hget hlive
  rw [htasks, hset task' hid hlive', hguard, hguards]

/-- A task ends. -/
theorem follows_endTask {phase : Phase} {now : ℕ} (hsound : s.Sound) (hreturned : s.returned = none)
    (hget : s.task? id = some task) (hlive : task.phase.ended = false)
    (hended : phase.ended = true) : Follows s (s.endTask task phase now) := by
  refine follows_of_task { task with phase } hsound hreturned rfl rfl rfl rfl
    fun sys h => .inr ?_
  obtain ⟨before, after, hguards, -, hset⟩ := hsound.distinct.liveGuards hget hlive
  exact h.drop hguards (hset { task with phase } rfl hended) rfl

/-- An event of the log changes nothing else. -/
theorem Follows.emit (h : Follows s s') (event : AuditEvent) : Follows s (s'.emit event) where
  limits := h.limits
  sound := ⟨⟨h.sound.distinct.nodup, h.sound.distinct.arrived⟩, h.sound.joined⟩
  simulated sys hsys := by
    obtain hsame | ⟨op, hop⟩ := h.simulated sys hsys
    · exact .inl ⟨hsame.admission, hsame.guards⟩
    · exact .inr ⟨op, hop.admission, hop.guards⟩

theorem taskStep_follows {event : Event} (hsound : s.Sound) (hreturned : s.returned = none)
    (h : s.taskStep event = some s') : Follows s s' := by
  cases event with
  | poll i =>
    obtain ⟨task, hget, h⟩ := Option.bind_eq_some_iff.1 h
    split_ifs at h with hphase
    cases h
    refine Follows.emit (follows_of_live { task with phase := .connecting } hsound hreturned
      hget ?_ rfl rfl rfl rfl rfl rfl rfl rfl) _
    rw [hphase]
    rfl
  | authenticate i =>
    obtain ⟨task, hget, h⟩ := Option.bind_eq_some_iff.1 h
    split_ifs at h with hphase
    cases h
    have hlive : task.phase.ended = false := by
      rw [hphase]
      rfl
    refine follows_of_task { task with guard := (markAuthenticated task.guard s.admission).1 }
      hsound hreturned rfl rfl rfl rfl fun sys hsys => .inr ?_
    obtain ⟨before, after, hguards, hset, -⟩ := hsound.distinct.liveGuards hget hlive
    exact hsys.authenticate hguards (hset { task with
      guard := (markAuthenticated task.guard s.admission).1 } rfl hlive) rfl
  | connectionEnded i ending =>
    obtain ⟨task, hget, h⟩ := Option.bind_eq_some_iff.1 h
    split_ifs at h with hphase
    cases h
    refine follows_of_live { task with phase := .finishing ending } hsound hreturned hget
      ?_ rfl rfl rfl rfl rfl rfl rfl rfl
    rw [hphase]
    rfl
  | complete i now =>
    obtain ⟨task, hget, h⟩ := Option.bind_eq_some_iff.1 h
    cases hphase : task.phase with
    | finishing ending =>
      simp only [hphase] at h
      cases h
      refine (follows_endTask hsound hreturned hget ?_ rfl).emit _
      rw [hphase]
      rfl
    | spawned | connecting | completed | panicked | cancelled => simp [hphase] at h
  | panic i message now =>
    obtain ⟨task, hget, h⟩ := Option.bind_eq_some_iff.1 h
    cases hphase : task.phase with
    | connecting | finishing =>
      simp only [hphase] at h
      cases h
      refine follows_endTask hsound hreturned hget ?_ rfl
      rw [hphase]
      rfl
    | spawned | completed | panicked | cancelled => simp [hphase] at h
  | cancel i now =>
    obtain ⟨task, hget, h⟩ := Option.bind_eq_some_iff.1 h
    split_ifs at h with habort
    cases h
    exact follows_endTask hsound hreturned hget habort.2 rfl
  | _ => simp [State.taskStep] at h

/-- A step that keeps the tasks, up to their guards and phases, and the control. -/
theorem follows_of_same (hsound : s.Sound) (hids : s'.tasks.map Task.id = s.tasks.map Task.id)
    (hguards : liveGuards s'.tasks = liveGuards s.tasks) (hlimits : s'.limits = s.limits)
    (harrivals : s'.arrivals = s.arrivals) (hadmission : s'.admission = s.admission)
    (hjoined : s'.returned = some (.ok ()) → s'.tasks = []) : Follows s s' where
  limits := hlimits
  sound := ⟨hsound.distinct.of_ids hids harrivals, hjoined⟩
  simulated := simulated_of_same hadmission hguards

theorem accept_follows {ip : IpAddr} {now : ℕ} (hsound : s.Sound) (hreturned : s.returned = none) :
    Follows s (s.accept ip now) := by
  have hnot : s.returned ≠ some (.ok ()) := by simp [hreturned]
  unfold State.accept
  dsimp only
  cases hadmit : tryAdmit s.limits ip now s.admission with
  | mk result admission =>
    cases result with
    | error refusal =>
      have hrefused : Follows s { s with admission, arrivals := s.arrivals ++ [some refusal] } := by
        refine ⟨rfl, ⟨⟨hsound.distinct.nodup, fun t ht => ?_⟩, fun h => absurd h hnot⟩,
          fun sys h => .inr ⟨.arrive ip now, ?_⟩⟩
        · have hlt := hsound.distinct.arrived t ht
          rw [List.length_append]
          omega
        · have hstep : sys.step s.limits (.arrive ip now) = ⟨admission, sys.guards⟩ := by
            simp only [System.step, h.admission, hadmit]
          rw [hstep]
          exact ⟨rfl, h.guards⟩
      exact hrefused.emit _
    | ok guard =>
      refine ⟨rfl, ⟨⟨?_, fun t ht => ?_⟩, fun h => absurd h hnot⟩,
        fun sys h => .inr ⟨.arrive ip now, ?_⟩⟩
      · -- the new id is that of no task
        rw [List.map_append, List.nodup_append]
        refine ⟨hsound.distinct.nodup, by simp, fun i hi j hj => ?_⟩
        obtain ⟨t, ht, rfl⟩ := List.mem_map.1 hi
        obtain rfl : j = s.arrivals.length := List.mem_singleton.1 hj
        exact (hsound.distinct.arrived t ht).ne
      · rw [List.length_append]
        obtain ht | ht := List.mem_append.1 ht
        · have hlt := hsound.distinct.arrived t ht
          omega
        · obtain rfl := List.mem_singleton.1 ht
          exact Nat.lt_succ_self _
      · have hstep : sys.step s.limits (.arrive ip now) = ⟨admission, guard :: sys.guards⟩ := by
          simp only [System.step, h.admission, hadmit]
        rw [hstep]
        refine ⟨rfl, ?_⟩
        rw [liveGuards_append]
        exact (h.guards.cons guard).trans (List.perm_append_singleton guard _).symm

theorem logJoin_control (s : State) (task : Task) :
    (s.logJoin task).limits = s.limits ∧ (s.logJoin task).admission = s.admission := by
  unfold State.logJoin
  dsimp only
  split
  · split <;> exact ⟨rfl, rfl⟩
  · split <;> exact ⟨rfl, rfl⟩
  · exact ⟨rfl, rfl⟩

/-- The loop takes an ended task out of its set. -/
theorem join_follows (hsound : s.Sound) (hreturned : s.returned = none)
    (hget : s.task? id = some task) (hended : task.phase.ended = true) :
    Follows s (s.join task) := by
  obtain ⟨before, after, hsplit, hid, hothers⟩ := hsound.distinct.split hget
  have hfilter : s.tasks.filter (fun t => t.id ≠ task.id) = before ++ after := by
    obtain ⟨hbefore, hafter⟩ := List.forall_mem_append.1 hothers
    rw [hsplit, List.filter_append, List.filter_cons_of_neg (by simp),
      List.filter_eq_self.2 fun t ht => decide_eq_true (hbefore t ht),
      List.filter_eq_self.2 fun t ht => decide_eq_true (hafter t ht)]
  generalize hpicked : { s with tasks := s.tasks.filter fun t => t.id ≠ task.id } = picked
  have htasks : (picked.logJoin task).tasks = before ++ after := by
    rw [(logJoin_fields picked task).1, ← hpicked, hfilter]
  have harrivals : (picked.logJoin task).arrivals = s.arrivals := by
    rw [(logJoin_fields picked task).2.1, ← hpicked]
  have hopen : (picked.logJoin task).returned = none := by
    rw [(logJoin_fields picked task).2.2.2, ← hpicked, hreturned]
  have hcontrol : (picked.logJoin task).limits = s.limits ∧
      (picked.logJoin task).admission = s.admission := by
    rw [(logJoin_control picked task).1, (logJoin_control picked task).2, ← hpicked]
    exact ⟨rfl, rfl⟩
  have hguards : liveGuards (before ++ after) = liveGuards s.tasks := by
    rw [hsplit, liveGuards_append, liveGuards_append, liveGuards_cons_of_ended hended]
  have hdistinct : (picked.logJoin task).Distinct := by
    refine ⟨?_, fun t ht => ?_⟩
    · rw [htasks, ← hfilter]
      exact hsound.distinct.nodup.sublist (List.filter_sublist.map Task.id)
    · rw [htasks, ← hfilter] at ht
      rw [harrivals]
      exact hsound.distinct.arrived t (List.mem_of_mem_filter ht)
  unfold State.join
  dsimp only
  rw [hpicked]
  split_ifs with hdrained
  · exact ⟨hcontrol.1, ⟨⟨hdistinct.nodup, hdistinct.arrived⟩, fun _ => hdrained.2⟩,
      simulated_of_same hcontrol.2 (by rw [← hguards, ← htasks])⟩
  · refine ⟨hcontrol.1, ⟨hdistinct, fun h => ?_⟩,
      simulated_of_same hcontrol.2 (by rw [htasks, hguards])⟩
    rw [hopen] at h
    cases h

theorem loopStep_follows {event : Event} (hsound : s.Sound) (hreturned : s.returned = none)
    (h : s.loopStep event = some s') : Follows s s' := by
  have hnot : s.returned ≠ some (.ok ()) := by simp [hreturned]
  cases event with
  | accepted ip now =>
    simp only [State.loopStep] at h
    split_ifs at h
    cases h
    exact accept_follows hsound hreturned
  | acceptFailed error now =>
    simp only [State.loopStep] at h
    split_ifs at h
    cases h
    unfold State.acceptError
    split
    · exact follows_of_same hsound rfl rfl rfl rfl rfl (by rintro ⟨⟩)
    · exact follows_of_same hsound rfl rfl rfl rfl rfl fun h => absurd h hnot
    · exact follows_of_same hsound rfl rfl rfl rfl rfl fun h => absurd h hnot
  | joined i =>
    simp only [State.loopStep] at h
    cases hget : s.task? i with
    | none => simp [hget] at h
    | some task =>
      simp only [hget] at h
      split_ifs at h with hended
      cases h
      exact join_follows hsound hreturned hget hended
  | shutdown deadline now =>
    simp only [State.loopStep] at h
    split_ifs at h
    cases h
    unfold State.onShutdown
    split_ifs with habort hempty
    · exact follows_of_same hsound rfl rfl rfl rfl rfl fun h => absurd h hnot
    · exact follows_of_same hsound rfl rfl rfl rfl rfl fun _ => hempty
    · exact follows_of_same hsound rfl rfl rfl rfl rfl fun h => absurd h hnot
  | resume =>
    simp only [State.loopStep] at h
    split_ifs at h
    cases h
    exact follows_of_same hsound rfl rfl rfl rfl rfl fun h => absurd h hnot
  | abortTimer =>
    simp only [State.loopStep] at h
    split_ifs at h
    cases h
    have hids : (s.tasks.map fun t => { t with abortRequested := true }).map Task.id =
        s.tasks.map Task.id := by
      rw [List.map_map]
      rfl
    have hguards : liveGuards (s.tasks.map fun t => { t with abortRequested := true }) =
        liveGuards s.tasks :=
      liveGuards_map (f := fun t => { t with abortRequested := true }) (fun _ => rfl)
        (fun _ => rfl) s.tasks
    unfold State.abortAll
    dsimp only
    split_ifs with hempty
    · exact follows_of_same hsound hids hguards rfl rfl rfl fun _ => hempty
    · exact follows_of_same hsound hids hguards rfl rfl rfl fun h => absurd h hnot
  | _ => simp [State.loopStep] at h

theorem step_follows {event : Event} (hsound : s.Sound) (h : s.step event = some s') :
    Follows s s' := by
  simp only [State.step, Option.ite_none_left_eq_some, Option.or_eq_some_iff] at h
  obtain ⟨hreturned, hstep⟩ := h
  have hreturned : s.returned = none := by simpa using hreturned
  obtain hloop | ⟨-, htask⟩ := hstep
  · exact loopStep_follows hsound hreturned hloop
  · exact taskStep_follows hsound hreturned htask

/-! ### Whole runs -/

/-- A run of the server is one of the admission control. -/
theorem run_follows {events : List Event} (hsound : s.Sound) {sys : System} (hsys : Refines s sys)
    (h : s.run events = some s') :
    s'.limits = s.limits ∧ s'.Sound ∧ ∃ ops, Refines s' (sys.run s.limits ops) := by
  induction events generalizing s sys with
  | nil =>
    obtain rfl := Option.some.inj h
    exact ⟨rfl, hsound, [], hsys⟩
  | cons event events ih =>
    obtain ⟨t, hstep, hrun⟩ := Option.bind_eq_some_iff.1 h
    have hfollows := step_follows hsound hstep
    obtain hsame | ⟨op, hop⟩ := hfollows.simulated sys hsys
    · obtain ⟨hlimits, hsound', ops, hops⟩ := ih hfollows.sound hsame hrun
      rw [hfollows.limits] at hlimits hops
      exact ⟨hlimits, hsound', ops, hops⟩
    · obtain ⟨hlimits, hsound', ops, hops⟩ := ih hfollows.sound hop hrun
      rw [hfollows.limits] at hlimits hops
      exact ⟨hlimits, hsound', op :: ops, hops⟩

theorem sound_start (limits : Limits) : (State.start limits).Sound where
  distinct := ⟨List.Pairwise.nil, by simp [State.start]⟩
  joined h := by cases h

theorem refines_start (limits : Limits) : Refines (State.start limits) System.start :=
  ⟨rfl, .refl _⟩

/-- The connections whose task has not ended. -/
def State.live (s : State) : ℕ := (liveGuards s.tasks).length

/-- Those that are not authenticated. -/
def State.waiting (s : State) : ℕ := (liveGuards s.tasks).countP ConnectionGuard.isWaiting

/-- Those of one source. -/
def State.waitingFrom (s : State) (key : IpAddr) : ℕ :=
  (liveGuards s.tasks).countP (ConnectionGuard.isWaitingFrom key)

/-- The next arrival is refused for this limit. -/
def State.Refuses (s : State) (ip : IpAddr) (now : ℕ) (refusal : Refusal) : Prop :=
  (s.accept ip now).audit = s.audit ++ [.refused s.arrivals.length refusal]

/-- The limits hold for the tasks, an arrival is refused by a cap exactly when the tasks reach
it, and behind a drain nothing is counted. -/
structure State.WithinLimits (s : State) : Prop where
  live_le : s.live ≤ s.limits.maxConnections
  waiting_le : s.waiting ≤ s.limits.maxHalfOpen
  source_le : ∀ key, s.waitingFrom key ≤ s.limits.maxPerSource
  connections : ∀ ip now, s.Refuses ip now .maxConnections ↔ s.live = s.limits.maxConnections
  halfOpen : ∀ ip now, s.Refuses ip now .maxHalfOpen ↔
    s.live < s.limits.maxConnections ∧ s.waiting = s.limits.maxHalfOpen
  perSource : ∀ ip now, s.Refuses ip now .maxPerSource ↔
    s.live < s.limits.maxConnections ∧ s.waiting < s.limits.maxHalfOpen ∧
      s.waitingFrom (sourceKey ip) = s.limits.maxPerSource
  drained : s.returned = some (.ok ()) → s.admission.connections = 0 ∧
    s.admission.halfOpen = 0 ∧ ∀ key, s.admission.sourceHalfOpen key = 0

theorem refuses_iff {ip : IpAddr} {now : ℕ} {refusal : Refusal} :
    s.Refuses ip now refusal ↔ (tryAdmit s.limits ip now s.admission).1 = .error refusal := by
  unfold State.Refuses State.accept
  dsimp only
  cases tryAdmit s.limits ip now s.admission with
  | mk result admission =>
    cases result with
    | error refusal' =>
      simp only [State.emit, List.append_cancel_left_eq, List.cons.injEq, and_true,
        AuditEvent.refused.injEq, true_and, Except.error.injEq]
    | ok guard => simp

/-- The rate check refuses for the rate only. -/
theorem charge_error {l : Limits} {key : IpAddr} {now : ℕ} {st : Admission.State}
    {refusal : Refusal} (h : (charge l key now st).1 = .error refusal) : refusal = .acceptRate := by
  obtain ⟨st', hok, -⟩ | ⟨st', herror, -⟩ := charge_cases l key now st
  · rw [hok] at h
    cases h
  · rw [herror] at h
    cases h
    rfl

theorem any_maxPerSource {l : Limits} (hl : 1 ≤ l.maxPerSource) {st : Admission.State}
    {key : IpAddr} : (st.sources key).any (fun s => l.maxPerSource ≤ s.halfOpen) = true ↔
      l.maxPerSource ≤ st.sourceHalfOpen key := by
  unfold Admission.State.sourceHalfOpen
  cases st.sources key with
  | none =>
    refine iff_of_false (by simp) ?_
    rw [Option.map_none, Option.getD_none]
    omega
  | some source => simp

/-- Which cap refuses: the first that is reached. -/
theorem tryAdmit_error {l : Limits} (hl : 1 ≤ l.maxPerSource) {ip : IpAddr} {now : ℕ}
    {st : Admission.State} {refusal : Refusal} (hrate : refusal ≠ .acceptRate) :
    (tryAdmit l ip now st).1 = .error refusal ↔
      (refusal = .maxConnections ∧ l.maxConnections ≤ st.connections) ∨
      (refusal = .maxHalfOpen ∧ st.connections < l.maxConnections ∧
        l.maxHalfOpen ≤ st.halfOpen) ∨
      (refusal = .maxPerSource ∧ st.connections < l.maxConnections ∧
        st.halfOpen < l.maxHalfOpen ∧ l.maxPerSource ≤ st.sourceHalfOpen (sourceKey ip)) := by
  have hcharge : ∀ st', (charge l (sourceKey ip) now st').1 ≠ .error refusal :=
    fun st' h => hrate (charge_error h)
  unfold tryAdmit
  dsimp only
  by_cases hconnections : l.maxConnections ≤ st.connections
  · rw [if_pos hconnections, Except.error.injEq]
    constructor
    · rintro rfl
      exact .inl ⟨rfl, hconnections⟩
    · rintro (⟨rfl, -⟩ | ⟨-, hlt, -⟩ | ⟨-, hlt, -⟩)
      · rfl
      · omega
      · omega
  rw [if_neg hconnections]
  by_cases hhalf : l.maxHalfOpen ≤ st.halfOpen
  · rw [if_pos hhalf, Except.error.injEq]
    constructor
    · rintro rfl
      exact .inr (.inl ⟨rfl, not_le.1 hconnections, hhalf⟩)
    · rintro (⟨-, hle⟩ | ⟨rfl, -⟩ | ⟨-, -, hlt, -⟩)
      · exact absurd hle hconnections
      · rfl
      · omega
  rw [if_neg hhalf]
  by_cases hsource : l.maxPerSource ≤ st.sourceHalfOpen (sourceKey ip)
  · rw [if_pos ((any_maxPerSource hl).2 hsource), Except.error.injEq]
    constructor
    · rintro rfl
      exact .inr (.inr ⟨rfl, not_le.1 hconnections, not_le.1 hhalf, hsource⟩)
    · rintro (⟨-, hle⟩ | ⟨-, -, hle⟩ | ⟨rfl, -⟩)
      · exact absurd hle hconnections
      · exact absurd hle hhalf
      · rfl
  · rw [if_neg ((any_maxPerSource hl).not.2 hsource)]
    refine iff_of_false (hcharge _) ?_
    rintro (⟨-, hle⟩ | ⟨-, -, hle⟩ | ⟨-, -, -, hle⟩)
    · exact hconnections hle
    · exact hhalf hle
    · exact hsource hle

/-- **The server stays within its limits**: in every state that `serve` reaches, through any
order of arrivals, logins, endings, panics, aborts and shutdown signals, the connection tasks
respect the caps, a cap refuses an arrival exactly when the tasks have reached it, and a drained
loop leaves nothing counted. -/
theorem serve_within_limits (limits : Limits) (hsource : 1 ≤ limits.maxPerSource)
    (events : List Event) (s : State) (hrun : (State.start limits).run events = some s) :
    (∃ ops, Refines s (System.start.run limits ops)) ∧ s.WithinLimits := by
  obtain ⟨hlimits, hsound, ops, hrefines⟩ :=
    run_follows (sound_start limits) (refines_start limits) hrun
  have haccounts := (accounts_start limits).run hsource ops
  obtain rfl : s.limits = limits := hlimits
  change Refines s (System.start.run s.limits ops) at hrefines
  have hlive : s.admission.connections = s.live := by
    rw [← hrefines.admission, haccounts.connections]
    exact hrefines.guards.length_eq
  have hwaiting : s.admission.halfOpen = s.waiting := by
    rw [← hrefines.admission, haccounts.halfOpen]
    exact hrefines.guards.countP_eq _
  have hfrom : ∀ key, s.admission.sourceHalfOpen key = s.waitingFrom key := by
    intro key
    rw [← hrefines.admission, haccounts.source]
    exact hrefines.guards.countP_eq _
  have hlive_le := hlive.symm.trans_le (hrefines.admission ▸ haccounts.connections_le)
  have hwaiting_le := hwaiting.symm.trans_le (hrefines.admission ▸ haccounts.halfOpen_le)
  have hfrom_le : ∀ key, s.waitingFrom key ≤ s.limits.maxPerSource := fun key =>
    (hfrom key).symm.trans_le (hrefines.admission ▸ haccounts.source_le key)
  refine ⟨⟨ops, ?_⟩, hlive_le, hwaiting_le, hfrom_le, fun ip now => ?_, fun ip now => ?_,
    fun ip now => ?_, fun hreturned => ?_⟩
  · exact hrefines
  · rw [refuses_iff, tryAdmit_error hsource (by decide), hlive]
    simp only [true_and, reduceCtorEq, false_and, or_false]
    exact ⟨fun h => le_antisymm hlive_le h, fun h => h.ge⟩
  · rw [refuses_iff, tryAdmit_error hsource (by decide), hlive, hwaiting]
    simp only [true_and, reduceCtorEq, false_and, or_false, false_or]
    exact and_congr_right fun _ => ⟨fun h => le_antisymm hwaiting_le h, fun h => h.ge⟩
  · rw [refuses_iff, tryAdmit_error hsource (by decide), hlive, hwaiting, hfrom]
    simp only [true_and, reduceCtorEq, false_and, false_or]
    exact and_congr_right fun _ => and_congr_right fun _ =>
      ⟨fun h => le_antisymm (hfrom_le _) h, fun h => h.ge⟩
  · have hnone : liveGuards s.tasks = [] := by
      rw [hsound.joined hreturned]
      rfl
    refine ⟨?_, ?_, fun key => ?_⟩
    · rw [hlive, State.live, hnone]
      rfl
    · rw [hwaiting, State.waiting, hnone]
      rfl
    · rw [hfrom, State.waitingFrom, hnone]
      rfl

/-- The limits hold when a served connection and one that outlived the deadline are gone. -/
theorem serve_within_limits_drained :
    ∃ s, (State.start Limits.default).run drainedRun = some s ∧
      (∃ ops, Refines s (System.start.run Limits.default ops)) ∧ s.WithinLimits := by
  exact ⟨_, rfl, serve_within_limits Limits.default (by decide) drainedRun _ rfl⟩

end QuantumSsh.Server
