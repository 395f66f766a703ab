import QuantumSsh.Exec.Reaping

/-!
# Hang-ups

How often the reap task of a child on a terminal hangs it up. Each `SIGHUP` starts a
grace, and the first request taken sends one. Whether a request is the first is read off
the grace timer, which the end of the grace and a spurious exit notification clear: a
second request taken after that starts over. What a step adds to the count is balanced
against what it took, so a run hangs up as often as the first request and those late
ones together.
-/

namespace QuantumSsh.Exec

open Program

/-! ### Counting -/

/-- The hang-up of a terminal's session leader. -/
def Event.isHangup : Event → Bool
  | .signalled false _ .hup => true
  | _ => false

/-- The poll of a child's reap task. -/
def Event.isPoll (id : ℕ) : Event → Bool
  | .polled i _ => i = id
  | _ => false

/-- How often the reap task of a child hung it up: what a poll sends is logged behind it. -/
def hangups (id : ℕ) : List Event → ℕ
  | [] => 0
  | e :: log => (e.isPoll id && log.head?.any Event.isHangup).toNat + hangups id log

/-- The end of a child's grace, while one runs. -/
def World.graceEnd (w : World) (id : ℕ) : Option ℕ :=
  (w.children[id]?).bind fun c => c.reaper.graceEnd

/-- The child has a grace it did not have before. -/
def startsGrace (id : ℕ) (w : World) (_ : Action) (w' : World) : Bool :=
  (w'.graceEnd id).isSome && w'.graceEnd id ≠ w.graceEnd id

/-- How many graces of a child a run starts. -/
def graces (id : ℕ) (actions : List Action) : ℕ :=
  tally step (startsGrace id) World.start actions

/-- The run hangs the child up at most once, and starts at most one grace for it. -/
def HangsUpOnce (id : ℕ) (actions : List Action) (w : World) : Prop :=
  hangups id w.log ≤ 1 ∧ graces id actions ≤ 1

/-! ### Late requests -/

/-- The kill request was taken. -/
def Reaper.killTaken (r : Reaper) : Bool := !r.killPending

/-- The report of the session's failure was taken. -/
def Reaper.failureTaken (r : Reaper) : Bool := !r.failurePending && r.sessionFailed = .sent

/-- One of the two requests of a session on a terminal was taken. -/
def Reaper.taken (r : Reaper) : Bool := r.hangupGrace.isSome && (r.killTaken || r.failureTaken)

/-- The next poll takes a request when the other was taken before and no grace runs. -/
def Reaper.takesLate (r : Reaper) : Bool :=
  r.taken && r.graceEnd.isNone &&
    match r.arm with
    | .kill => r.killPending && r.killRx ≠ .pending
    | .failure => r.failurePending && r.sessionFailed = .sent
    | _ => false

def World.taken (w : World) (id : ℕ) : Bool := (w.children[id]?).any fun c => c.reaper.taken

/-- The step lets the reap task of a child take such a request. -/
def takesLate (id : ℕ) (w : World) : Action → Bool
  | .poll i _ =>
    i = id && (w.children[id]?).any fun c => c.reaper.ended.isNone && c.reaper.takesLate
  | _ => false

/-! ### What a step adds -/

section

variable {id : ℕ} {log es : List Event} {e : Event}

theorem hangups_append (he : e.isHangup = false) :
    hangups id (log ++ e :: es) = hangups id log + hangups id (e :: es) := by
  induction log with
  | nil => exact (Nat.zero_add _).symm
  | cons d log ih =>
    have hhead : (log ++ e :: es).head?.any Event.isHangup = log.head?.any Event.isHangup := by
      cases log with
      | nil => exact he
      | cons => rfl
    rw [List.cons_append, hangups, hangups, ih, hhead, Nat.add_assoc]

theorem hangups_eq_zero (hes : ∀ e ∈ es, e.isPoll id = false) : hangups id es = 0 := by
  induction es with
  | nil => rfl
  | cons e es ih =>
    rw [hangups, hes e List.mem_cons_self, ih fun e he => hes e (List.mem_cons_of_mem _ he)]
    rfl

/-- What holds no poll of the child and does not follow one with a hang-up counts nothing. -/
theorem hangups_quiet (hpolls : ∀ e ∈ es, e.isPoll id = false)
    (hhead : es.head?.any Event.isHangup = false) :
    hangups id (log ++ es) = hangups id log := by
  cases es with
  | nil => rw [List.append_nil]
  | cons e es =>
    rw [hangups_append hhead, hangups_eq_zero hpolls]
    rfl

end

/-- What a poll of a child's reap task changes in the count. -/
structure Polled (r r' : Reaper) (signals : List Event) : Prop where
  balance : (signals.head?.any Event.isHangup).toNat + r.taken.toNat =
    r'.taken.toNat + r.takesLate.toNat
  started : signals.head?.any Event.isHangup =
    (r'.graceEnd.isSome && r'.graceEnd ≠ r.graceEnd)
  kept : r.taken = true → r'.taken = true
  /-- A grace runs only behind a request. -/
  running : r'.graceEnd.isSome = true → r'.taken = true

section

variable {r r' : Reaper} {signals : List Event}

/-- Nothing is taken and nothing starts. -/
theorem Polled.idle (hgrace : r.graceEnd.isSome = true → r.taken = true)
    (htaken : r'.taken = r.taken) (hlate : r.takesLate = false)
    (hend : r'.graceEnd = r.graceEnd ∨ r'.graceEnd = none)
    (hsignals : signals.head?.any Event.isHangup = false) : Polled r r' signals := by
  refine ⟨?_, ?_, fun h => htaken ▸ h, fun h => ?_⟩
  · rw [hsignals, htaken, hlate]
    exact Nat.add_comm _ _
  · obtain hend | hend := hend <;> simp [hsignals, hend]
  · obtain hend | hend := hend
    · rw [htaken]
      exact hgrace (hend ▸ h)
    · rw [hend] at h
      cases h

/-- A request is taken: it hangs up unless a grace runs. -/
theorem Polled.beginKill {s : Reaper} (now : ℕ)
    (hgrace : r.graceEnd.isSome = true → r.taken = true) (hchild : s.child = true)
    (hterminal : s.hangupGrace = r.hangupGrace) (hend : s.graceEnd = r.graceEnd)
    (hrequest : (s.killTaken || s.failureTaken) = true)
    (hlate : r.takesLate = (r.taken && r.graceEnd.isNone)) :
    Polled r (s.beginKill now).1 (s.beginKill now).2 := by
  cases hterm : r.hangupGrace with
  | none =>
    have hbegin : s.beginKill now = (s, killGroup s.pid) := by
      simp [Reaper.beginKill, hchild, hterminal, hterm]
    have huntaken : r.taken = false := by simp [Reaper.taken, hterm]
    rw [hbegin]
    refine Polled.idle hgrace ?_ (by rw [hlate, huntaken]; rfl) (.inl hend) rfl
    rw [huntaken, Reaper.taken, hterminal, hterm]
    rfl
  | some grace =>
    have htaken : s.taken = true := by rw [Reaper.taken, hterminal, hterm, hrequest]; rfl
    -- Only a request that finds no grace sends anything.
    cases hrunning : r.graceEnd with
    | none =>
      have hbegin : s.beginKill now =
          ({ s with graceEnd := some (now + grace) }, [.signalled false s.pid .hup]) := by
        simp [Reaper.beginKill, hchild, hterminal, hterm, hend, hrunning]
      have htaken' : Reaper.taken { s with graceEnd := some (now + grace) } = true := htaken
      rw [hbegin]
      refine ⟨?_, by simp [Event.isHangup, hrunning], fun _ => htaken', fun _ => htaken'⟩
      rw [htaken', hlate, hrunning, Option.isNone_none, Bool.and_true]
      rfl
    | some deadline =>
      have hbegin : s.beginKill now = (s, []) := by
        simp [Reaper.beginKill, hchild, hterminal, hterm, hend, hrunning]
      rw [hbegin]
      refine Polled.idle hgrace ?_ (by rw [hlate, hrunning]; simp) (.inl hend) rfl
      rw [htaken, hgrace (by rw [hrunning]; rfl)]

/-- Every poll of a child that is held. -/
theorem polled_poll (now : ℕ) (notified : Bool) (hchild : r.child = true)
    (hgrace : r.graceEnd.isSome = true → r.taken = true) :
    Polled r (r.poll now notified).1 (r.poll now notified).2 := by
  unfold Reaper.poll
  cases harm : r.arm with
  | kill =>
    dsimp only
    split
    · next h =>
      refine Polled.beginKill (s := { r with killPending := false, arm := .kill }) now hgrace hchild
        rfl rfl rfl ?_
      simp [Reaper.takesLate, harm, h]
    · next h => exact .idle hgrace rfl (by simp_all [Reaper.takesLate]) (.inl rfl) rfl
  | failure =>
    dsimp only
    split
    · next h =>
      split
      -- A reported failure is a request like the kill.
      · next hsent =>
        refine Polled.beginKill (s := { r with failurePending := false, arm := .kill }) now hgrace
          hchild rfl rfl ?_ ?_
        · simp [Reaper.failureTaken, hsent]
        · simp [Reaper.takesLate, harm, h, hsent]
      · next hsent =>
        refine .idle hgrace ?_ (by simp [Reaper.takesLate, harm, hsent]) (.inl rfl) rfl
        simp [Reaper.taken, Reaper.killTaken, Reaper.failureTaken, hsent]
    · next h => exact .idle hgrace rfl (by simp_all [Reaper.takesLate]) (.inl rfl) rfl
  | grace =>
    have hlate : r.takesLate = false := by simp [Reaper.takesLate, harm]
    dsimp only
    split
    · split
      · exact .idle hgrace rfl hlate (.inr rfl) rfl
      · exact .idle hgrace rfl hlate (.inl rfl) rfl
    · exact .idle hgrace rfl hlate (.inl rfl) rfl
  | exit =>
    have hlate : r.takesLate = false := by simp [Reaper.takesLate, harm]
    dsimp only
    split
    · refine .idle hgrace rfl hlate (.inr rfl) ?_
      dsimp only
      split <;> rfl
    · exact .idle hgrace rfl hlate (.inl rfl) rfl
  | reap => exact .idle hgrace rfl (by simp [Reaper.takesLate, harm]) (.inl rfl) rfl

end

/-! ### Steps -/

/-- What a step changes in the count of a child's hang-ups. -/
structure Counted (id : ℕ) (w : World) (a : Action) (w' : World) : Prop where
  balance : hangups id w'.log + (w.taken id).toNat =
    hangups id w.log + (w'.taken id).toNat + (takesLate id w a).toNat
  started : hangups id w'.log = hangups id w.log + (startsGrace id w a w').toNat
  kept : w.taken id = true → w'.taken id = true
  running : (w'.graceEnd id).isSome = true → w'.taken id = true

/-- What holds of a run's states: a hang-up and a grace are behind a request. -/
structure World.Asked (id : ℕ) (w : World) : Prop where
  good : w.Good
  running : (w.graceEnd id).isSome = true → w.taken id = true
  hungUp : hangups id w.log ≠ 0 → w.taken id = true

section

variable {id i : ℕ} {w w' : World} {a : Action} {c c' : Child} {es : List Event}

theorem taken_eq (hc : w.children[id]? = some c) : w.taken id = c.reaper.taken := by
  rw [World.taken, hc, Option.any_some]

theorem graceEnd_eq (hc : w.children[id]? = some c) : w.graceEnd id = c.reaper.graceEnd := by
  rw [World.graceEnd, hc, Option.bind_some]

/-- A step that changes neither what was taken of the child nor its grace. -/
theorem Counted.quiet (h : w.Asked id) (hlate : takesLate id w a = false)
    (htaken : w'.taken id = w.taken id) (hend : w'.graceEnd id = w.graceEnd id)
    (hlog : hangups id w'.log = hangups id w.log) : Counted id w a w' := by
  refine ⟨?_, ?_, fun hbefore => htaken ▸ hbefore, fun hgrace => ?_⟩
  · rw [hlog, htaken, hlate]
    rfl
  · rw [hlog, startsGrace, hend]
    simp
  · rw [htaken]
    exact h.running (hend ▸ hgrace)

/-- A step of another child. -/
theorem Counted.other {live : List ℕ} (h : w.Asked id) (hlate : takesLate id w a = false)
    (hi : i ≠ id) (hpolls : ∀ e ∈ es, e.isPoll id = false)
    (hhead : es.head?.any Event.isHangup = false) :
    Counted id w a { w.put i c' es with live } := by
  refine .quiet h hlate ?_ ?_ (hangups_quiet hpolls hhead)
  · simp [World.taken, World.put, List.getElem?_set_ne hi]
  · simp [World.graceEnd, World.put, List.getElem?_set_ne hi]

/-- A step of a child that takes nothing and leaves the grace alone. -/
theorem Counted.put {live : List ℕ} (h : w.Asked id) (hlate : takesLate id w a = false)
    (hc : w.children[i]? = some c) (htaken : c'.reaper.taken = c.reaper.taken)
    (hend : c'.reaper.graceEnd = c.reaper.graceEnd) (hpolls : ∀ e ∈ es, e.isPoll id = false)
    (hhead : es.head?.any Event.isHangup = false) :
    Counted id w a { w.put i c' es with live } := by
  by_cases hi : i = id
  · subst hi
    have hc' : { w.put i c' es with live }.children[i]? = some c' :=
      List.getElem?_set_self (List.getElem?_eq_some_iff.1 hc).1
    refine .quiet h hlate ?_ ?_ (hangups_quiet hpolls hhead)
    · rw [taken_eq hc', taken_eq hc, htaken]
    · rw [graceEnd_eq hc', graceEnd_eq hc, hend]
  · exact .other h hlate hi hpolls hhead

theorem Counted.spawn (pid : ℕ) (grace : Option ℕ) (h : w.Asked id)
    (hlate : takesLate id w a = false) :
    Counted id w a { w with
      children := w.children ++ [⟨.running, Reaper.register pid grace⟩]
      live := w.live ++ [pid]
      log := w.log ++ [.spawned w.children.length pid] } := by
  obtain hid | hid := Nat.lt_or_ge id w.children.length
  · refine .quiet h hlate ?_ ?_ (hangups_quiet (by simp [Event.isPoll]) rfl)
    · simp [World.taken, List.getElem?_append_left hid]
    · simp [World.graceEnd, List.getElem?_append_left hid]
  · refine .quiet h hlate ?_ ?_ (hangups_quiet (by simp [Event.isPoll]) rfl)
    · rw [World.taken, World.taken, List.getElem?_append_right hid, List.getElem?_eq_none hid,
        List.getElem?_singleton]
      split <;> simp [Reaper.taken, Reaper.register, Reaper.killTaken, Reaper.failureTaken]
    · rw [World.graceEnd, World.graceEnd, List.getElem?_append_right hid,
        List.getElem?_eq_none hid, List.getElem?_singleton]
      split <;> rfl

theorem Counted.request {rx : Oneshot} (h : w.Asked id) (hlate : takesLate id w a = false)
    (hstep : step.request w i rx = some w') : Counted id w a w' := by
  obtain ⟨c, hc, hstep⟩ := Option.bind_eq_some_iff.1 hstep
  obtain ⟨-, hstep⟩ := Option.ite_none_right_eq_some.1 hstep
  cases hstep
  exact .put h hlate hc rfl rfl (by simp [Event.isPoll]) rfl

theorem Counted.tryReap (h : w.Asked id) (hlate : takesLate id w a = false)
    (hc : w.children[i]? = some c) : Counted id w a (w.tryReap i c) := by
  unfold World.tryReap
  split
  · exact .put h hlate hc rfl rfl nofun rfl
  · split
    · exact .put h hlate hc rfl rfl nofun rfl
    · exact .put h hlate hc rfl rfl (by simp [Event.isPoll]) rfl
    · exact .put h hlate hc rfl rfl (by simp [Event.isPoll]) rfl

theorem Counted.dropReaper (h : w.Asked id) (hlate : takesLate id w a = false)
    (hc : w.children[i]? = some c) : Counted id w a (w.dropReaper i c) := by
  unfold World.dropReaper
  split
  · exact .put h hlate hc rfl rfl (by simp [Event.isPoll, killGroup]) rfl
  · exact .put h hlate hc rfl rfl (by simp [Event.isPoll]) rfl

theorem Counted.dropScope (h : w.Asked id) (hlate : takesLate id w a = false) :
    Counted id w a w.dropScope := by
  refine .quiet h hlate rfl rfl (hangups_quiet ?_ ?_)
  · intro e he
    obtain ⟨pid, -, he⟩ := List.mem_flatMap.1 he
    obtain rfl | he := List.mem_cons.1 he
    · rfl
    · rw [List.mem_singleton.1 he]
      rfl
  · cases w.live <;> rfl

/-- The answer about the session's failure is still open, so nothing was taken of it. -/
theorem taken_of_answer {failed : Oneshot} (h : w.Good) (hc : w.children[i]? = some c)
    (hpending : c.reaper.sessionFailed = .pending) :
    Reaper.taken { c.reaper with sessionFailed := failed } = c.reaper.taken := by
  have hfailure : c.reaper.failurePending = true := by
    by_contra hnot
    rw [Bool.not_eq_true] at hnot
    exact (h.children i c hc).waiting hnot hpending
  simp [Reaper.taken, Reaper.killTaken, Reaper.failureTaken, hfailure]

theorem Counted.poll (notified : Bool) (h : w.Asked id) (hc : w.children[i]? = some c)
    (halive : c.reaper.ended = none) :
    Counted id w (.poll i notified)
      (w.put i { c with reaper := (c.reaper.poll w.now notified).1 }
        (.polled i c.reaper.arm :: (c.reaper.poll w.now notified).2)) := by
  set r' := (c.reaper.poll w.now notified).1
  set signals := (c.reaper.poll w.now notified).2 with hsignals
  have hpolls : ∀ j, ∀ e ∈ signals, e.isPoll j = false := by
    intro j e he
    obtain ⟨_, _, -, rfl⟩ := poll_signals e he
    rfl
  by_cases hi : i = id
  · subst hi
    let w' := w.put i { c with reaper := r' } (.polled i c.reaper.arm :: signals)
    have hc' : w'.children[i]? = some { c with reaper := r' } :=
      List.getElem?_set_self (List.getElem?_eq_some_iff.1 hc).1
    have hcount : hangups i w'.log =
        hangups i w.log + (signals.head?.any Event.isHangup).toNat := by
      change hangups i (w.log ++ .polled i c.reaper.arm :: signals) = _
      rw [hangups_append rfl, hangups, hangups_eq_zero (hpolls i)]
      simp [Event.isPoll]
    have hlate : takesLate i w (.poll i notified) = c.reaper.takesLate := by
      simp [Exec.takesLate, hc, halive]
    have htaken : w'.taken i = r'.taken := taken_eq hc'
    have hgrace : c.reaper.graceEnd.isSome = true → c.reaper.taken = true := by
      rw [← taken_eq hc, ← graceEnd_eq hc]
      exact h.running
    have hpolled : Polled c.reaper r' signals :=
      polled_poll w.now notified (((h.good.children i c hc).held).2 halive) hgrace
    refine ⟨?_, ?_, ?_, ?_⟩
    · rw [hcount, taken_eq hc, htaken, hlate]
      have hbalance := hpolled.balance
      omega
    · rw [hcount, hpolled.started, startsGrace, graceEnd_eq hc, graceEnd_eq hc']
    · rw [taken_eq hc, htaken]
      exact hpolled.kept
    · rw [htaken, graceEnd_eq hc']
      exact hpolled.running
  · refine .other h (by simp [Exec.takesLate, hi]) hi ?_ rfl
    intro e he
    obtain rfl | he := List.mem_cons.1 he
    · simp [Event.isPoll, hi]
    · exact hpolls id e he

/-- Every step. -/
theorem counted_step (h : w.Asked id) (hstep : step w a = some w') : Counted id w a w' := by
  cases a with
  | spawn pid grace =>
    obtain ⟨-, hstep⟩ := Option.ite_none_right_eq_some.1 hstep
    cases hstep
    exact .spawn pid grace h rfl
  | kill i => exact .request h rfl hstep
  | dropKill i => exact .request h rfl hstep
  | fail i =>
    obtain ⟨c, hc, hstep⟩ := Option.bind_eq_some_iff.1 hstep
    obtain ⟨hpending, hstep⟩ := Option.ite_none_right_eq_some.1 hstep
    cases hstep
    exact .put h rfl hc (taken_of_answer h.good hc hpending) rfl (by simp [Event.isPoll]) rfl
  | dropFailed i =>
    obtain ⟨c, hc, hstep⟩ := Option.bind_eq_some_iff.1 hstep
    obtain ⟨hpending, hstep⟩ := Option.ite_none_right_eq_some.1 hstep
    cases hstep
    exact .put h rfl hc (taken_of_answer h.good hc hpending) rfl nofun rfl
  | advance nanos =>
    cases hstep
    exact .quiet h rfl rfl rfl rfl
  | exits i status =>
    obtain ⟨c, hc, hstep⟩ := Option.bind_eq_some_iff.1 hstep
    obtain ⟨-, hstep⟩ := Option.ite_none_right_eq_some.1 hstep
    cases hstep
    exact .put h rfl hc rfl rfl nofun rfl
  | poll i notified =>
    obtain ⟨c, hc, hstep⟩ := Option.bind_eq_some_iff.1 hstep
    obtain ⟨halive, hstep⟩ := Option.ite_none_right_eq_some.1 hstep
    rw [Option.isNone_iff_eq_none] at halive
    by_cases harm : c.reaper.arm = .reap
    · rw [if_pos harm] at hstep
      cases hstep
      -- At the reap no request is taken.
      refine .tryReap h ?_ hc
      by_cases hi : i = id
      · subst hi
        simp [Exec.takesLate, Reaper.takesLate, hc, harm]
      · simp [Exec.takesLate, hi]
    · rw [if_neg harm] at hstep
      cases hstep
      exact .poll notified h hc halive
  | dropTask i =>
    obtain ⟨c, hc, hstep⟩ := Option.bind_eq_some_iff.1 hstep
    obtain ⟨-, hstep⟩ := Option.ite_none_right_eq_some.1 hstep
    cases hstep
    exact .dropReaper h rfl hc
  | dropScope =>
    obtain ⟨-, hstep⟩ := Option.ite_none_left_eq_some.1 hstep
    cases hstep
    exact .dropScope h rfl
  | reapOrphan i =>
    obtain ⟨c, hc, hstep⟩ := Option.bind_eq_some_iff.1 hstep
    split at hstep
    · obtain ⟨-, hstep⟩ := Option.ite_none_right_eq_some.1 hstep
      cases hstep
      exact .put h rfl hc rfl rfl (by simp [Event.isPoll]) rfl
    · cases hstep

/-! ### Runs -/

theorem asked_start (id : ℕ) : World.start.Asked id where
  good := good_start
  running := nofun
  hungUp := nofun

/-- A request is late only behind another. -/
theorem takesLate_of_not_taken (htaken : w.taken id = false) : takesLate id w a = false := by
  cases a with
  | poll i notified =>
    by_cases hi : i = id
    · subst hi
      cases hc : w.children[i]? with
      | none => simp [Exec.takesLate, hc]
      | some c =>
        rw [taken_eq hc] at htaken
        simp [Exec.takesLate, Reaper.takesLate, hc, htaken]
    · simp [Exec.takesLate, hi]
  | _ => rfl

theorem World.Asked.step (h : w.Asked id) (hstep : step w a = some w') : w'.Asked id := by
  have hcounted := counted_step h hstep
  refine ⟨h.good.step hstep, hcounted.running, fun hhungUp => ?_⟩
  by_cases htaken : w.taken id = true
  · exact hcounted.kept htaken
  · have hbefore : hangups id w.log = 0 := by
      by_contra hnot
      exact htaken (h.hungUp hnot)
    rw [Bool.not_eq_true] at htaken
    have hbalance := hcounted.balance
    rw [hbefore, htaken, takesLate_of_not_taken htaken] at hbalance
    by_contra hnot
    rw [Bool.not_eq_true] at hnot
    rw [hnot] at hbalance
    exact hhungUp hbalance

/-- A run hangs a child up as often as it starts a grace for it, which is once for the first
request and once for each late one. -/
theorem hangups_run {actions : List Action} (id : ℕ) (h : run step World.start actions = some w) :
    hangups id w.log = graces id actions ∧
      hangups id w.log = (w.taken id).toNat +
        tally step (fun w a _ => takesLate id w a) World.start actions := by
  have hkept : ∀ w a w', w.Asked id → step w a = some w' → w'.Asked id :=
    fun _ _ _ hasked hstep => World.Asked.step hasked hstep
  constructor
  · have hstarted := run_balance (f := fun w => hangups id w.log) (g := fun _ => 0) hkept
      (fun w a w' hasked hstep => (counted_step hasked hstep).started) (asked_start id) h
    exact hstarted.trans (Nat.zero_add _)
  · have hbalance : hangups id w.log + 0 = 0 + (w.taken id).toNat +
        tally step (fun w a _ => takesLate id w a) World.start actions :=
      run_balance (f := fun w => hangups id w.log) (g := fun w => (w.taken id).toNat) hkept
        (fun w a w' hasked hstep => (counted_step hasked hstep).balance) (asked_start id) h
    rwa [Nat.add_zero, Nat.zero_add] at hbalance

/-- In every run a child is hung up at most once, and at most one grace is started for it,
exactly if no request is taken behind the other while no grace runs. -/
theorem hangs_up_once_iff {actions : List Action} (id : ℕ)
    (h : run step World.start actions = some w) :
    HangsUpOnce id actions w ↔
      Along step (fun w a => takesLate id w a = false) World.start actions := by
  obtain ⟨hgraces, hcount⟩ := hangups_run id h
  have hasked : w.Asked id :=
    invariant_run (fun _ _ _ hasked hstep => World.Asked.step hasked hstep) (asked_start id) h
  rw [HangsUpOnce, ← hgraces, and_self, ← tally_eq_zero h]
  constructor
  · intro hle
    -- A late request has another behind it, and both have sent their signal.
    by_contra hlate
    have htaken := hasked.hungUp (by omega)
    rw [htaken] at hcount
    change _ = 1 + _ at hcount
    omega
  · intro hlate
    rw [hcount, hlate]
    exact Bool.toNat_le _

/-- Both requests are there when the first is taken. -/
def bothRun : List Action :=
  [.spawn 7 (some 5), .kill 0, .fail 0, .poll 0 false, .poll 0 false, .poll 0 false]

theorem hangs_up_once_iff_both :
    ∃ w, run step World.start bothRun = some w ∧ HangsUpOnce 0 bothRun w := by
  have hrun : (run step World.start bothRun).isSome = true := by decide
  obtain ⟨w, hw⟩ := Option.isSome_iff_exists.1 hrun
  have hcheck : checkAlong step (fun w a => !takesLate 0 w a) World.start bothRun = true := by
    decide
  refine ⟨w, hw, (hangs_up_once_iff 0 hw).2 ?_⟩
  exact along_of_check (fun w a h => by simpa using h) hcheck

/-- The grace behind a kill request runs out, the group is killed, and the report of the
session's failure is taken before the exit is seen. -/
def lateRun : List Action :=
  [.spawn 7 (some 5), .kill 0, .poll 0 false, .poll 0 false, .poll 0 false, .poll 0 false,
    .advance 5, .poll 0 false, .poll 0 false, .poll 0 false, .poll 0 false, .fail 0, .poll 0 false,
    .poll 0 false]

theorem hangs_up_again :
    ∃ w, run step World.start lateRun = some w ∧ hangups 0 w.log = 2 ∧ graces 0 lateRun = 2 ∧
      ¬HangsUpOnce 0 lateRun w := by
  have hrun : (run step World.start lateRun).isSome = true := by decide
  obtain ⟨w, hw⟩ := Option.isSome_iff_exists.1 hrun
  have hhangups : (run step World.start lateRun).map (fun w => hangups 0 w.log) = some 2 := by
    decide
  rw [hw] at hhangups
  have hcount : hangups 0 w.log = 2 := Option.some.inj hhangups
  refine ⟨w, hw, hcount, by decide, fun h => ?_⟩
  have hle := h.1
  rw [hcount] at hle
  exact absurd hle (by decide)

end

end QuantumSsh.Exec
