import QuantumSsh.Channel.Backlog

/-!
# Input that waits for the child

The hand-off moves one chunk in each turn and counts on a credit for the turn after it.
A chunk with bytes in it is credited when it is written; an empty one is not.
-/

namespace QuantumSsh.Channel

open Wire Kex Machine Program Transport

/-- The chunk that the hand-off takes up for the child has bytes in it. -/
def HandsOffBytes (c : Config) : Input → Prop
  | .phase => c.pc = .handoff → c.world.driver.child.any ChildIo.stdinOpen = true →
      ∀ chunk preExec, c.world.driver.nextStdin = some (chunk, preExec) → chunk ≠ []
  | _ => True

variable {env : Env} {w w' : World}

/-! ### What a step leaves in the queue -/

/-- The chunks of the queue have bytes in them, and the driver listens for the credits
of a pump that is running. -/
structure Fills (d : Driver) : Prop where
  queue : ∀ child, d.child = some child → ∀ chunk ∈ child.queue, chunk ≠ []
  listens : ∀ child, d.child = some child → child.pumpAlive = true → d.consumedClosed = false
  idle : d.state = .idle ∨ d.state = .beforeOpen → d.consumedClosed = false

/-- Input that waits for a running pump has bytes before it. -/
def Awaited (d : Driver) : Prop :=
  ∀ child, d.child = some child → child.stdinOpen = true → child.pumpAlive = true →
    d.nextStdin ≠ none → 0 < child.held

theorem Fills.congr {d d' : Driver} (h : Fills d) (hchild : d'.child = d.child)
    (hclosed : d'.consumedClosed = d.consumedClosed)
    (hstate : d'.state = .idle ∨ d'.state = .beforeOpen → d.state = .idle ∨ d.state = .beforeOpen) :
    Fills d' := by
  refine ⟨?_, ?_, fun hs => ?_⟩
  · rw [hchild]
    exact h.queue
  · rw [hchild, hclosed]
    exact h.listens
  · rw [hclosed]
    exact h.idle (hstate hs)

/-- A child that keeps its queue and whose pump is not revived. -/
theorem Fills.of_child {d d' : Driver} (h : Fills d) {child child' : ChildIo}
    (hchild : d.child = some child) (hchild' : d'.child = some child')
    (hqueue : ∀ chunk ∈ child'.queue, chunk ∈ child.queue)
    (halive : child'.pumpAlive = true → child.pumpAlive = true)
    (hclosed : d'.consumedClosed = d.consumedClosed)
    (hstate : d'.state = .idle ∨ d'.state = .beforeOpen → d.state = .idle ∨ d.state = .beforeOpen) :
    Fills d' := by
  refine ⟨fun c hc chunk hmem => ?_, fun c hc ha => ?_, fun hs => ?_⟩
  · obtain rfl : child' = c := Option.some.inj (hchild'.symm.trans hc)
    exact h.queue child hchild chunk (hqueue chunk hmem)
  · obtain rfl : child' = c := Option.some.inj (hchild'.symm.trans hc)
    rw [hclosed]
    exact h.listens child hchild (halive ha)
  · rw [hclosed]
    exact h.idle (hstate hs)

theorem Fills.started {what : Start} {onPty : Bool} {d d' : Driver} (h : Fills d)
    (hstate : d.state = .idle) (hnone : d.child = none)
    (hd : (d.starting what).Started onPty d') : Fills d' := by
  cases hd with
  | spawned =>
    refine ⟨fun c hc chunk hmem => ?_, fun c hc ha => h.idle (.inl hstate), fun hs => ?_⟩
    · obtain rfl := Option.some.inj hc
      cases hmem
    · simp [Driver.spawned] at hs
  | failed =>
    have hchild : (d.starting what).spawnFailed.child = none := hnone
    refine ⟨fun c hc => ?_, fun c hc => ?_, fun hs => ?_⟩
    · rw [hchild] at hc
      cases hc
    · rw [hchild] at hc
      cases hc
    · simp [Driver.spawnFailed] at hs

theorem Fills.reacts {p : Bytes} (h : Fills w.driver) (hb : Balanced w) (hreacts : Reacts p w w') :
    Fills w'.driver := by
  cases hreacts with
  | opened sender window maxPkt tick bytesTx hmsg hstate hmax hwindow =>
    exact h.congr rfl rfl fun _ => .inr hstate
  | started what d tick hstate hd =>
    exact h.started hstate (hb.childless (.inr hstate)).1 hd
  | startedAnswered what d tick₁ tick bytesTx hstate hd ha =>
    exact h.started hstate (hb.childless (.inr hstate)).1 hd
  | closed hmsg hstate => exact h.congr rfl rfl (by simp)
  | closedEarly hmsg hstate =>
    cases hchild : w.driver.child with
    | none => exact h.congr (by simp [Driver.closedEarly, hchild]) rfl (by simp [Driver.closedEarly])
    | some child =>
      have hchild' : w.driver.closedEarly.child = some child.closeStdin.discardOutput.kill := by
        simp [Driver.closedEarly, hchild]
      exact h.of_child hchild hchild' (fun _ hmem => hmem) id rfl (by simp [Driver.closedEarly])
  | silent | answered | ptyGranted | ptyAnswered | buffered | stashed | unsunk | adjusted | eof =>
    exact h.congr rfl rfl id

theorem Fills.reactsAll {ps : List Bytes} (h : Fills w.driver) (hb : Balanced w)
    (hreacts : ReactsAll ps w w') : Fills w'.driver := by
  induction hreacts with
  | nil => exact h
  | cons hone _ ih => exact ih (h.reacts hb hone) (hb.reacts hone)

theorem Fills.takesPacket {p : Bytes} (h : Fills w.driver) (hb : Balanced w)
    (htakes : TakesPacket env p w w') : Fills w'.driver := by
  have harrived := hb.congr (ledger_arrived w p)
  cases htakes with
  | handled hwhen hreacts => exact Fills.reacts (w := w.arrived p) h harrived hreacts
  | deferred iS hphase hmsg hinline hroom => exact h.congr rfl rfl id
  | rekeying hrekeys => exact h
  | @rekeyed s _ hrekeys hdrained =>
    have hdrained' : Fills (w.drained s).driver := h.congr rfl rfl id
    refine hdrained'.reactsAll ?_ hdrained
    exact harrived.congr (Rekeys.ledger_eq (w := w.arrived p) hrekeys)

theorem Fills.occurs {event : Event} (h : Fills w.driver) (hb : Balanced w)
    (hoccurs : Occurs event w w') : Fills w'.driver := by
  cases hoccurs with
  | exited exit hstate hended =>
    refine h.congr rfl rfl fun hs => ?_
    simp only [mapDriver_driver] at hs
    split at hs
    · simp at hs
    · exact hs
  | ended hstate hchild =>
    obtain ⟨child, hchild⟩ := Option.isSome_iff_exists.1 hchild
    have hchild' : ((w.mapDriver fun d => { d with
        childOutClosed := true
        child := d.child.map fun c : ChildIo => { c with outEnded := true } }).driver).child =
        some { child with outEnded := true } := by
      simp [hchild]
    exact h.of_child hchild hchild' (fun _ hmem => hmem) id rfl id
  | credit child n rest hchild hconsumed =>
    exact h.of_child hchild rfl (fun _ hmem => hmem) id rfl id
  | creditsEnded child hchild hconsumed hpump =>
    refine ⟨h.queue, fun c hc ha => ?_, fun hs => ?_⟩
    · have hsame : child = c := Option.some.inj (hchild.symm.trans hc)
      rw [← hsame, hpump] at ha
      cases ha
    · exact absurd hs (by simp [hb.state_of_child hchild])
  | chunk | unsent | woken => exact h.congr rfl rfl id

/-- The pump moves bytes towards the driver and loses none while it runs. -/
theorem pump_cases {child child' : ChildIo} {step : PumpStep} (h : child.pump step = some child') :
    (∀ chunk ∈ child'.queue, chunk ∈ child.queue) ∧ child'.stdinOpen = child.stdinOpen ∧
      (child'.pumpAlive = true → child.pumpAlive = true ∧ child'.held = child.held) := by
  cases step with
  | take =>
    simp only [ChildIo.pump] at h
    split at h
    next chunk queue hqueue =>
      simp only [Option.ite_none_right_eq_some, Option.some.injEq] at h
      obtain ⟨⟨halive, hwriting⟩, rfl⟩ := h
      refine ⟨fun c hc => ?_, rfl, fun _ => ⟨halive, ?_⟩⟩
      · rw [hqueue]
        exact List.mem_cons_of_mem _ hc
      · simp only [ChildIo.held, hqueue, hwriting, List.map_cons, List.sum_cons, List.length_nil]
        omega
    next => cases h
  | write n =>
    simp only [ChildIo.pump, Option.ite_none_right_eq_some, Option.some.injEq] at h
    obtain ⟨⟨halive, hn⟩, rfl⟩ := h
    refine ⟨fun c hc => hc, rfl, fun _ => ⟨halive, ?_⟩⟩
    simp only [ChildIo.held, List.length_drop, List.sum_append, List.sum_cons, List.sum_nil]
    omega
  | stop =>
    simp only [ChildIo.pump, Option.ite_none_right_eq_some, Option.some.injEq] at h
    obtain ⟨halive, rfl⟩ := h
    exact ⟨by simp, rfl, by simp⟩

/-! ### After a hand-off -/

theorem FlushOnes.consumedClosed_eq (h : Relation.ReflTransGen FlushOne w w') :
    w'.driver.consumedClosed = w.driver.consumedClosed := by
  induction h with
  | refl => rfl
  | tail _ hone ih =>
    cases hone with
    | packet p n tick bytesTx hflush => exact ih

theorem Settles.consumedClosed_eq (h : Settles w false w') :
    w'.driver.consumedClosed = w.driver.consumedClosed := by
  have hcredit : ∀ {w₁ : World}, Credits w w₁ →
      w₁.driver.consumedClosed = w.driver.consumedClosed := by
    intro w₁ h
    cases h <;> rfl
  cases h with
  | busy hactive => rfl
  | rekeyed cookie tick bytesTx started trigger hidle hcredits hstate =>
    have hsame := hcredit hcredits
    exact hsame
  | closes tick now hidle hcredits hdue hcloses =>
    have hsame := hcredit hcredits
    cases hcloses with
    | waiting hready hopen => exact hsame
    | half hready hearly hsent =>
      simp only [mapDriver_driver, hsent.driver_eq, atTick_driver]
      exact hsame

/-- Settling opens no channel. -/
theorem Settles.unopened (h : Settles w false w') :
    w'.driver.state = .idle ∨ w'.driver.state = .beforeOpen →
      w.driver.state = .idle ∨ w.driver.state = .beforeOpen := by
  intro hs
  cases h with
  | busy hactive => exact hs
  | rekeyed cookie tick bytesTx started trigger hidle hcredits hstate =>
    rw [← hcredits.stance.state]
    exact hs
  | closes tick now hidle hcredits hdue hcloses =>
    cases hcloses with
    | waiting hready hopen =>
      rw [← hcredits.stance.state]
      exact hs
    | half hready hearly hsent => simp at hs

/-- A full queue holds bytes. -/
theorem held_pos_of_mem {child : ChildIo} {chunk : Bytes} (hmem : chunk ∈ child.queue)
    (hne : chunk ≠ []) : 0 < child.held := by
  have hle := List.single_le_sum (fun _ _ => Nat.zero_le _) chunk.length
    (List.mem_map_of_mem hmem : chunk.length ∈ child.queue.map List.length)
  have hpos := List.length_pos_iff.2 hne
  unfold ChildIo.held
  omega

theorem Fills.feeds (h : Fills w.driver)
    (hbytes : w.driver.child.any ChildIo.stdinOpen = true →
      ∀ chunk preExec, w.driver.nextStdin = some (chunk, preExec) → chunk ≠ [])
    (hfeeds : Feeds w w') : Fills w'.driver ∧ Awaited w'.driver := by
  cases hfeeds with
  | childless hnone =>
    refine ⟨h, fun child hchild => ?_⟩
    rw [hnone] at hchild
    cases hchild
  | empty hnext => exact ⟨h, fun child hchild hopen halive hne => absurd hnext hne⟩
  | returned child chunk preExec hchild hnext hopen hfull =>
    refine ⟨h.congr rfl rfl id, fun c hc ho halive hne => ?_⟩
    obtain rfl : child = c := Option.some.inj (hchild.symm.trans hc)
    have hlength : stdinQueue ≤ child.queue.length := by
      by_contra hlt
      exact hfull ⟨halive, Nat.lt_of_not_le hlt⟩
    obtain ⟨x, xs, hqueue⟩ : ∃ x xs, child.queue = x :: xs := by
      cases hqueue : child.queue with
      | nil => simp [hqueue, stdinQueue] at hlength
      | cons x xs => exact ⟨x, xs, rfl⟩
    have hmem : x ∈ child.queue := by rw [hqueue]; exact List.mem_cons_self
    exact held_pos_of_mem hmem (h.queue child hchild x hmem)
  | queued child chunk preExec hchild hnext hopen halive hroom =>
    have hne : chunk ≠ [] := hbytes (by simp [hchild, hopen]) chunk preExec hnext
    refine ⟨⟨fun c hc x hmem => ?_, fun c hc ha => h.listens child hchild halive, h.idle⟩,
      fun c hc ho ha hn => ?_⟩
    · obtain rfl := Option.some.inj hc
      obtain hmem | hmem := List.mem_append.1 hmem
      · exact h.queue child hchild x hmem
      · rw [List.mem_singleton.1 hmem]
        exact hne
    · obtain rfl := Option.some.inj hc
      exact @held_pos_of_mem _ chunk (by simp) hne
  | dropped child chunk preExec hchild hnext hclosed =>
    refine ⟨h.congr rfl rfl id, fun c hc ho => ?_⟩
    obtain rfl : child = c := Option.some.inj (hchild.symm.trans hc)
    rw [hclosed] at ho
    cases ho

theorem Fills.handsOff (h : Fills w.driver)
    (hbytes : w.driver.child.any ChildIo.stdinOpen = true →
      ∀ chunk preExec, w.driver.nextStdin = some (chunk, preExec) → chunk ≠ [])
    (hoff : HandsOff w w') : Fills w'.driver ∧ Awaited w'.driver := by
  cases hoff with
  | fed hfeeds => exact h.feeds hbytes hfeeds
  | closed hfeeds hcloses =>
    have hfed := (h.feeds hbytes hfeeds).1
    cases hcloses with
    | closed child hchild heof hnext hopen =>
      refine ⟨hfed.of_child hchild rfl (fun _ hmem => hmem) id rfl id, fun c hc ho => ?_⟩
      obtain rfl := Option.some.inj hc
      cases ho

theorem Awaited.congr {d d' : Driver} (h : Awaited d) (hchild : d'.child = d.child)
    (hpre : d'.preExecStdin = d.preExecStdin) (hpending : d'.pendingStdin = d.pendingStdin) :
    Awaited d' := by
  have hnext : d'.nextStdin = d.nextStdin := by simp only [Driver.nextStdin, hpre, hpending]
  unfold Awaited
  rw [hchild, hnext]
  exact h

/-! ### Runs -/

/-- What every run keeps in which no empty chunk is handed off. -/
structure Waking (c : Config) : Prop where
  balanced : c.live → Balanced c.world
  fills : c.live → Fills c.world.driver
  awaited : c.pc = .settle ∨ c.pc = .waiting → Awaited c.world.driver

theorem Waking.turn {c c' : Config} {input : Input} (h : Waking c) (hbytes : HandsOffBytes c input)
    (hturn : Turn env c input c') : Waking c' := by
  have hlive := hturn.live
  have hb := h.balanced hlive
  have hfills := h.fills hlive
  have hbalanced : c'.live → Balanced c'.world := Balanced.turn hturn h.balanced
  cases hturn with
  | flushed hidle hrun =>
    refine ⟨hbalanced, fun _ => ?_, by simp⟩
    refine hfills.congr ?_ ?_ fun hs => ?_
    · exact congrArg Ledger.child (FlushOnes.ledger_eq hrun)
    · exact FlushOnes.consumedClosed_eq hrun
    · rwa [(FlushOnes.stance hrun).state] at hs
  | unflushed hactive => exact ⟨hbalanced, fun _ => hfills, by simp⟩
  | handedOff hoff =>
    have hboth := hfills.handsOff (hbytes rfl) hoff
    exact ⟨hbalanced, fun _ => hboth.1, fun _ => hboth.2⟩
  | @settled w w' finished hsettles =>
    cases finished with
    | true => exact ⟨hbalanced, fun hl => absurd rfl (hl _), by simp⟩
    | false =>
      obtain ⟨hpre, hpending, hchild⟩ := hsettles.stdin_eq
      refine ⟨hbalanced, fun _ => ?_, fun _ => ?_⟩
      · exact hfills.congr hchild hsettles.consumedClosed_eq hsettles.unopened
      · exact (h.awaited (.inl rfl)).congr hchild hpre hpending
  | packet p htakes => exact ⟨hbalanced, fun _ => hfills.takesPacket hb htakes, by simp⟩
  | occurred event hoccurs => exact ⟨hbalanced, fun _ => hfills.occurs hb hoccurs, by simp⟩
  | @pumped w pc child child' step hpc hchild hpump =>
    obtain ⟨hqueue, hopen, halive⟩ := pump_cases hpump
    refine ⟨hbalanced, fun _ => ?_, fun hpc' c hc ho ha hn => ?_⟩
    · exact hfills.of_child hchild rfl hqueue (fun ha => (halive ha).1) rfl id
    · obtain rfl := Option.some.inj hc
      rw [(halive ha).2]
      exact h.awaited hpc' child hchild (hopen ▸ ho) (halive ha).1 hn
  | flushFailed | settleFailed | packetFailed | readFailed | timedOut =>
    exact ⟨hbalanced, fun hl => absurd rfl (hl _), by simp⟩

theorem waking_start (h : Handshake) : Waking (Config.start h) := by
  refine ⟨fun _ => balanced_start h, fun _ => ⟨?_, ?_, fun _ => rfl⟩, ?_⟩
  · simp [Config.start, Driver.new]
  · simp [Config.start, Driver.new]
  · simp [Config.start]

/-- **No input is stranded.** Where no empty chunk is handed off, input that the driver
still holds at the wait has bytes before it that were queued and not credited yet, and
the driver listens for their credit. -/
theorem stdin_not_stranded {h : Handshake} {inputs : List Input} {c : Config} {child : ChildIo}
    (hcond : Along (Config.step env) HandsOffBytes (Config.start h) inputs)
    (hrun : Config.runs env h inputs = some c) (hpc : c.pc = .waiting)
    (hchild : c.world.driver.child = some child) (hopen : child.stdinOpen = true)
    (halive : child.pumpAlive = true)
    (hheld : c.world.driver.preExecStdin ≠ [] ∨ c.world.driver.pendingStdin ≠ none) :
    0 < child.held ∧ c.world.driver.consumedClosed = false := by
  have hwaking : Waking c :=
    invariant_along (fun _ _ _ hinv hin hstep => hinv.turn hin (step_turn hstep))
      (waking_start h) hcond hrun
  have hlive : c.live := by simp [Config.live, hpc]
  have hnext : c.world.driver.nextStdin ≠ none := by
    unfold Driver.nextStdin
    split
    · simp
    · simp
    next hpending hpre => simp [hpending, hpre] at hheld
  exact ⟨hwaking.awaited (.inr hpc) child hchild hopen halive hnext,
    (hwaking.fills hlive).listens child hchild halive⟩

/-- The driver waits, with a running pump that has room, and input it still holds. -/
def Config.holdsInput (c : Config) : Bool :=
  (c.pc matches .waiting) && c.world.driver.child.any (fun child => child.stdinOpen &&
    child.pumpAlive && decide (child.queue.length < stdinQueue)) &&
    (!c.world.driver.preExecStdin.isEmpty || c.world.driver.pendingStdin.isSome)

theorem exists_of_holdsInput {c : Config} (h : c.holdsInput = true) :
    c.pc = .waiting ∧ (∃ child, c.world.driver.child = some child ∧ child.stdinOpen = true ∧
      child.pumpAlive = true) ∧
      (c.world.driver.preExecStdin ≠ [] ∨ c.world.driver.pendingStdin ≠ none) := by
  simp only [Config.holdsInput, Bool.and_eq_true, Bool.or_eq_true, Option.any_eq_true] at h
  obtain ⟨⟨hpc, child, hchild, ⟨hopen, halive⟩, -⟩, hheld⟩ := h
  refine ⟨?_, ⟨child, hchild, hopen, halive⟩, ?_⟩
  · cases hp : c.pc <;> first | rfl | simp [hp] at hpc
  · obtain hpre | hpending := hheld
    · exact .inl (by simpa using hpre)
    · exact .inr (by simpa [← Option.isSome_iff_ne_none] using hpending)

/-- The hand-off takes up bytes, checked. -/
def checksHandOff (c : Config) : Input → Bool
  | .phase => c.world.driver.nextStdin.all fun next => !next.1.isEmpty
  | _ => true

theorem handsOffBytes_of_check (c : Config) (input : Input) (h : checksHandOff c input = true) :
    HandsOffBytes c input := by
  unfold HandsOffBytes
  split
  next =>
    intro _ _ chunk preExec hnext
    simpa [checksHandOff, hnext] using h
  next => trivial

/-- The first of two chunks is with the pump, the second still with the driver. -/
theorem stdin_not_stranded_typed : ∃ c, Config.runs plainEnv plainHandshake
    (inputRun ++ [.phase, .phase, .phase, .pump .take]) = some c ∧ c.holdsInput = true ∧
    ∃ child, c.world.driver.child = some child ∧ 0 < child.held ∧
      c.world.driver.consumedClosed = false := by
  have hc : (Config.runs plainEnv plainHandshake
      (inputRun ++ [.phase, .phase, .phase, .pump .take])).map Config.holdsInput = some true := by
    decide
  obtain ⟨c, hrun, hc⟩ := Option.map_eq_some_iff.1 hc
  obtain ⟨hpc, ⟨child, hchild, hopen, halive⟩, hheld⟩ := exists_of_holdsInput hc
  refine ⟨c, hrun, hc, child, hchild, stdin_not_stranded ?_ hrun hpc hchild hopen halive hheld⟩
  exact along_of_check handsOffBytes_of_check (by decide)

/-- An empty chunk goes before the input, and the pump drops it without a credit. -/
def hollowRun : List Input :=
  packetTurn (openSession 7 maxPacket maxPacket) ++ packetTurn (channelData []) ++
    packetTurn (channelData [1]) ++ packetTurn (channelRequest "shell" true) ++
    [.phase, .phase, .phase, .pump .take]

/-- The input is stranded: the driver waits with nothing left to be credited. -/
theorem empty_chunk_strands : ∃ c, Config.runs plainEnv plainHandshake hollowRun = some c ∧
    c.holdsInput = true ∧ c.world.driver.preExecStdin = [[1]] ∧
    c.world.driver.child.map ChildIo.held = some 0 := by
  have hc : (Config.runs plainEnv plainHandshake hollowRun).map (fun c => decide (
      c.holdsInput = true ∧ c.world.driver.preExecStdin = [[1]] ∧
      c.world.driver.child.map ChildIo.held = some 0)) = some true := by
    decide
  obtain ⟨c, hrun, hc⟩ := Option.map_eq_some_iff.1 hc
  exact ⟨c, hrun, of_decide_eq_true hc⟩

end QuantumSsh.Channel
