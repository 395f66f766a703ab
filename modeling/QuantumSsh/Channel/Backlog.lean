import QuantumSsh.Channel.Window
import QuantumSsh.Channel.Exchange
import Mathlib.Algebra.Order.BigOperators.Group.List

/-!
# The backlog

The inbound data that waits in the driver: the pre-exec buffer, the pending slot and
the messages deferred inside a re-key. The window bounds the bytes of the first two,
but charges nothing for an empty chunk.
-/

namespace QuantumSsh.Channel

open Wire Kex Machine Program Transport

/-! ### How much waits -/

/-- The bytes of inbound data the driver holds. -/
def Driver.backlogBytes (d : Driver) : ℕ :=
  (d.preExecStdin.map List.length).sum + (d.pendingStdin.map List.length).getD 0 +
    (d.deferred.map List.length).sum

/-- The chunks the driver holds them in. -/
def Driver.backlogChunks (d : Driver) : ℕ :=
  d.preExecStdin.length + d.pendingStdin.toList.length + d.deferred.length

/-- The bound on both, for packets of at most so many bytes. -/
def backlogBound (maxSize : ℕ) : ℕ := initialWindow + 1 + maxDeferred * (maxSize + 1)

/-- A packet of at most so many bytes. -/
def packetWithin (maxSize : ℕ) : Input → Prop
  | .event (.packet p) => p.length ≤ maxSize
  | _ => True

instance (maxSize : ℕ) : DecidablePred (packetWithin maxSize) := fun input =>
  match input with
  | .event (.packet p) => inferInstanceAs (Decidable (p.length ≤ maxSize))
  | .event (.readFailed _) | .event (.output _) | .event .credit | .event .deadline | .event .wake
  | .phase | .pump _ => .isTrue trivial

/-- No empty chunk enters the pre-exec buffer. -/
def BuffersBytes (c : Config) : Input → Prop
  | .event (.packet p) => c.world.driver.state = .idle → ¬CarriesData p []
  | _ => True

variable {env : Env} {w w' : World}

/-- What bounds the backlog besides the window. -/
structure Stored (maxSize : ℕ) (d : Driver) : Prop where
  chunks : ∀ chunk ∈ d.preExecStdin, chunk ≠ []
  deferred : ∀ q ∈ d.deferred, q.length ≤ maxSize

/-- Nothing enters the pre-exec buffer. -/
theorem Stored.congr {maxSize : ℕ} {d d' : Driver} (h : Stored maxSize d)
    (hpre : d'.preExecStdin ⊆ d.preExecStdin) (hdeferred : d'.deferred ⊆ d.deferred) :
    Stored maxSize d' :=
  ⟨fun chunk hc => h.chunks chunk (hpre hc), fun q hq => h.deferred q (hdeferred hq)⟩

theorem FlushOnes.preExecStdin_eq (h : Relation.ReflTransGen FlushOne w w') :
    w'.driver.preExecStdin = w.driver.preExecStdin :=
  congrArg Ledger.preExecStdin (FlushOnes.ledger_eq h)

/-- The hand-off only takes from the pre-exec buffer. -/
theorem preExec_subset {d : Driver} {chunk : Bytes} {preExec : List Bytes}
    (h : d.nextStdin = some (chunk, preExec)) : preExec ⊆ d.preExecStdin := by
  unfold Driver.nextStdin at h
  split at h
  next => cases h; exact List.Subset.refl _
  next hpre =>
    cases h
    rw [hpre]
    exact List.subset_cons_self _ _
  next => cases h

theorem HandsOff.preExecStdin_subset (h : HandsOff w w') :
    w'.driver.preExecStdin ⊆ w.driver.preExecStdin := by
  have hfeeds : ∀ {w₁ : World}, Feeds w w₁ → w₁.driver.preExecStdin ⊆ w.driver.preExecStdin := by
    intro w₁ h
    cases h with
    | childless | empty => exact List.Subset.refl _
    | returned child chunk preExec hchild hnext => exact preExec_subset hnext
    | queued child chunk preExec hchild hnext => exact preExec_subset hnext
    | dropped child chunk preExec hchild hnext => exact preExec_subset hnext
  cases h with
  | fed h => exact hfeeds h
  | closed h h' =>
    cases h' with
    | closed child hchild heof hnext hopen =>
      have hsub := hfeeds h
      exact hsub

theorem Settles.stdin_eq (h : Settles w false w') :
    w'.driver.preExecStdin = w.driver.preExecStdin ∧
      w'.driver.pendingStdin = w.driver.pendingStdin ∧ w'.driver.child = w.driver.child := by
  have hcredit : ∀ {w₁ : World}, Credits w w₁ → w₁.driver.preExecStdin = w.driver.preExecStdin ∧
      w₁.driver.pendingStdin = w.driver.pendingStdin ∧ w₁.driver.child = w.driver.child := by
    intro w₁ h
    cases h <;> exact ⟨rfl, rfl, rfl⟩
  cases h with
  | busy hactive => exact ⟨rfl, rfl, rfl⟩
  | rekeyed cookie tick bytesTx started trigger hidle hcredits hstate =>
    have hsame := hcredit hcredits
    exact hsame
  | closes tick now hidle hcredits hdue hcloses =>
    have hsame := hcredit hcredits
    cases hcloses with
    | waiting hready hopen => exact hsame
    | half hready hearly hsent =>
      have hdriver := hsent.driver_eq
      simp only [mapDriver_driver, hdriver, atTick_driver]
      exact hsame

/-- Only data that arrives before the child enters the pre-exec buffer. -/
theorem Reacts.preExecStdin_cases {p : Bytes} (h : Reacts p w w') :
    w'.driver.preExecStdin = w.driver.preExecStdin ∨ ∃ data, w.driver.state = .idle ∧
      CarriesData p data ∧ w'.driver.preExecStdin = w.driver.preExecStdin ++ [data] := by
  cases h with
  | buffered data hmsg hstate heof hwindow hlen hread => exact .inr ⟨data, hstate, hread, rfl⟩
  | started what d tick hstate hd => cases hd <;> exact .inl rfl
  | startedAnswered what d tick₁ tick bytesTx hstate hd ha => cases hd <;> exact .inl rfl
  | silent | answered | ptyGranted | ptyAnswered | opened | stashed | unsunk | adjusted | eof |
    closed | closedEarly => exact .inl rfl

theorem Stored.reacts {maxSize : ℕ} {p : Bytes} (h : Stored maxSize w.driver)
    (hbytes : w.driver.state = .idle → ¬CarriesData p []) (hreacts : Reacts p w w') :
    Stored maxSize w'.driver := by
  have hdeferred := hreacts.deferred_eq
  obtain hpre | ⟨data, hstate, hread, hpre⟩ := hreacts.preExecStdin_cases
  · refine h.congr ?_ ?_
    · rw [hpre]
      exact List.Subset.refl _
    · rw [hdeferred]
      exact List.Subset.refl _
  · refine ⟨fun chunk hc => ?_, fun q hq => h.deferred q (by rwa [hdeferred] at hq)⟩
    rw [hpre] at hc
    obtain hc | hc := List.mem_append.1 hc
    · exact h.chunks chunk hc
    · rw [List.mem_singleton.1 hc]
      intro hempty
      exact hbytes hstate (hempty ▸ hread)

theorem not_carriesData_of_not_inline {q data : Bytes} (h : isInline q = false) :
    ¬CarriesData q data := by
  rintro ⟨r, rest, rfl, -⟩
  simp [isInline, sshMsgChannelData] at h

theorem Stored.reactsAll {maxSize : ℕ} {ps : List Bytes} (h : Stored maxSize w.driver)
    (hps : ∀ q ∈ ps, isInline q = false) (hreacts : ReactsAll ps w w') :
    Stored maxSize w'.driver := by
  induction hreacts with
  | nil => exact h
  | cons hone _ ih =>
    refine ih (h.reacts (fun _ => ?_) hone) fun q hq => hps q (List.mem_cons_of_mem _ hq)
    exact not_carriesData_of_not_inline (hps _ List.mem_cons_self)

theorem Stored.takesPacket {maxSize : ℕ} {p : Bytes} (h : Stored maxSize w.driver)
    (hdefers : Defers w) (hsize : p.length ≤ maxSize)
    (hbytes : w.driver.state = .idle → ¬CarriesData p []) (htakes : TakesPacket env p w w') :
    Stored maxSize w'.driver := by
  cases htakes with
  | handled hwhen hreacts => exact Stored.reacts (w := w.arrived p) h hbytes hreacts
  | deferred iS hphase hmsg hinline hroom =>
    refine ⟨h.chunks, fun q hq => ?_⟩
    obtain hq | hq := List.mem_append.1 hq
    · exact h.deferred q hq
    · rw [List.mem_singleton.1 hq]
      exact hsize
  | rekeying hrekeys => exact h
  | @rekeyed s _ hrekeys hdrained =>
    have hempty : Stored maxSize (w.drained s).driver := ⟨h.chunks, by simp [World.drained]⟩
    exact hempty.reactsAll (fun q hq => (hdefers.replies q hq).1) hdrained

/-- What every run keeps in which no empty chunk is buffered. -/
structure Storing (maxSize : ℕ) (c : Config) : Prop where
  stored : c.live → Stored maxSize c.world.driver
  defers : c.live → Defers c.world

theorem Storing.turn {maxSize : ℕ} {c c' : Config} {input : Input} (h : Storing maxSize c)
    (hsize : packetWithin maxSize input) (hbytes : BuffersBytes c input)
    (hturn : Turn env c input c') : Storing maxSize c' := by
  refine ⟨fun hlive => ?_, Defers.turn hturn h.defers⟩
  have hstored := h.stored hturn.live
  have hdefers := h.defers hturn.live
  cases hturn with
  | flushed hidle hrun =>
    refine hstored.congr ?_ ?_
    · rw [FlushOnes.preExecStdin_eq hrun]
      exact List.Subset.refl _
    · rw [(FlushOnes.stance hrun).deferred]
      exact List.Subset.refl _
  | unflushed hactive => exact hstored
  | handedOff hoff =>
    refine hstored.congr hoff.preExecStdin_subset ?_
    rw [hoff.stance.deferred]
    exact List.Subset.refl _
  | @settled _ _ finished hsettles =>
    cases finished with
    | true => exact absurd rfl (hlive _)
    | false =>
      refine hstored.congr ?_ ?_
      · rw [hsettles.stdin_eq.1]
        exact List.Subset.refl _
      · rw [hsettles.deferred_eq]
        exact List.Subset.refl _
  | packet p htakes => exact hstored.takesPacket hdefers hsize hbytes htakes
  | occurred event hoccurs =>
    refine hstored.congr ?_ ?_
    · cases hoccurs <;> exact List.Subset.refl _
    · cases hoccurs <;> exact List.Subset.refl _
  | pumped child child' step hpc hchild hpump =>
    exact hstored.congr (List.Subset.refl _) (List.Subset.refl _)
  | flushFailed e hidle hfails => exact absurd rfl (hlive _)
  | settleFailed e hfails => exact absurd rfl (hlive _)
  | packetFailed p e hfails => exact absurd rfl (hlive _)
  | readFailed error => exact absurd rfl (hlive _)
  | timedOut hactive hleft => exact absurd rfl (hlive _)

/-! ### The bound -/

theorem Balanced.backlog_le (h : Balanced w) :
    (w.driver.preExecStdin.map List.length).sum + (w.driver.pendingStdin.map List.length).getD 0 ≤
      initialWindow := by
  by_cases hstate : w.driver.state = .beforeOpen
  · rw [(h.unopened hstate).1, (h.childless (.inl hstate)).2]
    exact Nat.zero_le _
  · have hle := h.window_le hstate
    unfold Driver.held at hle
    omega

theorem Stored.deferred_le {maxSize : ℕ} (h : Stored maxSize w.driver) (hdefers : Defers w) :
    (w.driver.deferred.map List.length).sum ≤ maxDeferred * maxSize := by
  have hsum := List.sum_le_card_nsmul (w.driver.deferred.map List.length) maxSize (by
    simpa using h.deferred)
  rw [List.length_map, nsmul_eq_mul, Nat.cast_id] at hsum
  exact hsum.trans (Nat.mul_le_mul_right _ hdefers.length_le)

/-- Chunks with bytes in them are no more than the bytes. -/
theorem Stored.preExec_le {maxSize : ℕ} {d : Driver} (h : Stored maxSize d) :
    d.preExecStdin.length ≤ (d.preExecStdin.map List.length).sum := by
  have hlength := List.length_le_sum_of_one_le (d.preExecStdin.map List.length) (by
    intro n hn
    obtain ⟨chunk, hchunk, rfl⟩ := List.mem_map.1 hn
    exact List.length_pos_iff.2 (h.chunks chunk hchunk))
  rwa [List.length_map] at hlength

theorem storing_start (maxSize : ℕ) (h : Handshake) : Storing maxSize (Config.start h) :=
  ⟨fun _ => ⟨by simp [Config.start, Driver.new], by simp [Config.start, Driver.new]⟩,
    fun _ => defers_start h⟩

/-- **The backlog.** Where no empty chunk is buffered before the child, what the driver
holds is bounded in bytes and in chunks. -/
theorem backlog_bounded {maxSize : ℕ} {h : Handshake} {inputs : List Input} {c : Config}
    (hsize : ∀ input ∈ inputs, packetWithin maxSize input)
    (hcond : Along (Config.step env) BuffersBytes (Config.start h) inputs)
    (hrun : Config.runs env h inputs = some c) (hlive : c.live) :
    c.world.driver.backlogBytes ≤ backlogBound maxSize ∧
      c.world.driver.backlogChunks ≤ backlogBound maxSize := by
  have hstoring : Storing maxSize c :=
    invariant_along (fun _ _ _ hinv hin hstep => hinv.turn hin.1 hin.2 (step_turn hstep))
      (storing_start maxSize h) ((along_of_forall hsize _).and hcond) hrun
  have hstored := hstoring.stored hlive
  have hdefers := hstoring.defers hlive
  have hbytes := (balanced_of_run hrun hlive).backlog_le
  have hdeferred := hstored.deferred_le hdefers
  have hchunks := hstored.preExec_le
  have hcount := hdefers.length_le
  have hslot : c.world.driver.pendingStdin.toList.length ≤ 1 := by
    cases c.world.driver.pendingStdin <;> simp
  have hbound : backlogBound maxSize = initialWindow + 1 + (maxDeferred * maxSize + maxDeferred) := by
    rw [backlogBound, Nat.mul_succ]
  unfold Driver.backlogBytes Driver.backlogChunks
  rw [hbound]
  omega

/-- A client that sends some input, asks for a shell and sends more. -/
def inputRun : List Input :=
  packetTurn (openSession 7 maxPacket maxPacket) ++ packetTurn (channelData [1]) ++
    packetTurn (channelData [2, 3]) ++ packetTurn (channelRequest "shell" true)

/-- The packets are small, and no empty chunk is buffered. -/
def checksBytes (c : Config) : Input → Bool
  | .event (.packet p) => c.world.driver.state != .idle ||
      (match readChannelData.run p.tail with
        | .ok ((_, data), _) => !data.isEmpty
        | .error _ => true)
  | _ => true

theorem buffersBytes_of_check (c : Config) (input : Input) (h : checksBytes c input = true) :
    BuffersBytes c input := by
  unfold BuffersBytes
  split
  next p =>
    rintro hidle ⟨r, rest, rfl, hread⟩
    simp [checksBytes, hidle, hread] at h
  next => trivial

theorem backlog_bounded_typed : ∃ c, Config.runs plainEnv plainHandshake inputRun = some c ∧
    c.world.driver.preExecStdin = [[1], [2, 3]] ∧ c.world.driver.backlogBytes ≤ backlogBound 64 ∧
    c.world.driver.backlogChunks ≤ backlogBound 64 := by
  have hc : (Config.runs plainEnv plainHandshake inputRun).map
      (fun c => (c.pc.isDone, c.world.driver.preExecStdin)) = some (false, [[1], [2, 3]]) := by
    decide
  obtain ⟨c, hrun, hc⟩ := Option.map_eq_some_iff.1 hc
  obtain ⟨hpc, hpre⟩ := Prod.mk.inj hc
  refine ⟨c, hrun, hpre, backlog_bounded ?_ ?_ hrun (live_of_isDone hpc)⟩
  · decide
  · exact along_of_check buffersBytes_of_check (by decide)

/-! ### Empty chunks -/

/-- The client sends an empty chunk before it asks for a child, and again and again. -/
structure Stuffed (n : ℕ) (c : Config) : Prop where
  pc : c.pc = .flush
  resting : Resting c.world
  state : c.world.driver.state = .idle
  child : c.world.driver.child = none
  eof : c.world.driver.clientEof = false
  deferred : c.world.driver.deferred = []
  below : c.world.Below 50000
  chunks : n ≤ c.world.driver.preExecStdin.length

theorem stuffed_opened : ∃ c, Config.runs plainEnv plainHandshake
    (packetTurn (openSession 7 maxPacket maxPacket)) = some c ∧ Stuffed 0 c := by
  obtain ⟨c, hrun, hc⟩ := filling_opened
  have hlive : c.live := by simp [Config.live, hc.pc]
  have hrx := hc.bytesRx
  have htx := hc.bytesTx
  have hseqRx := hc.seqRx
  have hseqTx := hc.seqTx
  refine ⟨c, hrun, hc.pc, hc.resting, hc.state, hc.child, hc.eof, ?_, ?_, Nat.zero_le _⟩
  · exact (defers_of_run hrun hlive).idle hc.resting.phase
  · exact ⟨by omega, by omega, by omega, by omega, hc.thresholds⟩

/-- The keys are exchanged and one more chunk is sent. -/
def stuffCycle : List Input := exchangeTurns ++ packetTurn (channelData [])

theorem Stuffed.cycle {n : ℕ} {c : Config} (h : Stuffed n c) :
    ∃ c', run (Config.step plainEnv) c stuffCycle = some c' ∧ Stuffed (n + 1) c' := by
  obtain ⟨w, pc⟩ := c
  obtain ⟨hpc, hrest, hstate, hchild, heof, hdeferred, hbelow, hchunks⟩ := h
  obtain rfl : pc = .flush := hpc
  have hturn := @turn_resting plainEnv w hrest (.inl (not_due hbelow (by decide)))
  obtain ⟨s, hrun, hidle, hbelow', -⟩ := run_exchange hturn hrest.phase (.inl hchild) hdeferred
    hbelow.thresholds
  have hrest' : Resting { w with session := s } :=
    ⟨hidle, hrest.pendingOut, hrest.fed, hrest.credit, hrest.notReady, hrest.notClosed⟩
  have hpacket := @turn_packet plainEnv { w with session := s } (channelData []) _ hrest'
    (.inl (not_due hbelow' (by decide))) (by decide)
    (handle_channelData hstate heof (Nat.zero_le _) (Nat.zero_le _))
  refine ⟨_, (run_append_of_eq hrun _).trans hpacket, rfl, ?_, hstate, hchild, heof, hdeferred,
    ?_, ?_⟩
  · exact ⟨hidle, hrest.pendingOut, .inl hchild, hrest.credit, hrest.notReady, hrest.notClosed⟩
  · have hrx := hbelow'.bytesRx
    have hseq := hbelow'.seqRx
    have hlen : (channelData []).length = 9 := rfl
    refine ⟨(saturatingAdd_le _ _ _).trans ?_, hbelow'.bytesTx.trans (by decide),
      (wrappingAdd_le _ _ _).trans ?_, hbelow'.seqTx.trans (by decide), hbelow'.thresholds⟩
    · change s.rekey.bytesRx + (channelData []).length ≤ _
      change s.rekey.bytesRx ≤ 0 at hrx
      omega
    · change s.seqRx + 1 ≤ _
      change s.seqRx ≤ 0 at hseq
      omega
  · change n + 1 ≤ (w.driver.preExecStdin ++ [[]]).length
    have hchunks' : n ≤ w.driver.preExecStdin.length := hchunks
    rw [List.length_append]
    exact Nat.add_le_add_right hchunks' 1

/-- No bound holds: an empty chunk costs the client nothing. -/
theorem backlog_unbounded : ¬∃ bound, ∀ inputs c,
    (∀ input ∈ inputs, packetWithin 35000 input) →
    Config.runs plainEnv plainHandshake inputs = some c → c.live →
    c.world.driver.backlogChunks ≤ bound := by
  rintro ⟨bound, hbound⟩
  obtain ⟨c, hrun, hc⟩ := stuffed_opened
  obtain ⟨c', hrun', hc'⟩ := run_of_cycle (N := bound + 1) (fun n _ c hc => Stuffed.cycle hc) hc
  have hall : Config.runs plainEnv plainHandshake (packetTurn (openSession 7 maxPacket maxPacket) ++
      (List.replicate (bound + 1) stuffCycle).flatten) = some c' := by
    unfold Config.runs at hrun ⊢
    rw [run_append_of_eq hrun]
    exact hrun'
  have hle := hbound _ c' ?_ hall (by simp [Config.live, hc'.pc])
  · have hchunks := hc'.chunks
    unfold Driver.backlogChunks at hle
    omega
  · have hcycle : ∀ input ∈ stuffCycle, packetWithin 35000 input := by decide +kernel
    intro input hinput
    obtain hinput | hinput := List.mem_append.1 hinput
    · have hopen : ∀ input ∈ packetTurn (openSession 7 maxPacket maxPacket),
          packetWithin 35000 input := by decide
      exact hopen input hinput
    · obtain ⟨turn, hturn, hinput⟩ := List.mem_flatten.1 hinput
      rw [List.eq_of_mem_replicate hturn] at hinput
      exact hcycle input hinput

end QuantumSsh.Channel
