import QuantumSsh.Lib.Pipe
import QuantumSsh.Channel.Close
import QuantumSsh.Channel.Traffic

/-!
# The output of the child

The chunks of the child are put into a pipe and leave it as the payloads of data
packets. The pipe is the pending chunk alone. When the terminal sequence is sent the
pipe is empty and nothing enters it any more.
-/

namespace QuantumSsh.Channel

open Wire Kex Machine Program Transport

/-! ### The pipe -/

def readExtendedData : Reader (ℕ × ℕ × Bytes) := do
  let recipient ← Reader.uint32
  let code ← Reader.uint32
  let data ← Reader.string maxPacket
  return (recipient, code, data)

/-- What the receiver reads from a data packet, and for which stream. -/
def dataOf : Bytes → Option (Stream × Bytes)
  | [] => none
  | msg :: r =>
    if msg = sshMsgChannelData then
      match readChannelData.run r with
      | .ok ((_, data), _) => some (.stdout, data)
      | .error _ => none
    else if msg = sshMsgChannelExtendedData then
      match readExtendedData.run r with
      | .ok ((_, code, data), _) => if code = sshExtendedDataStderr then some (.stderr, data) else none
      | .error _ => none
    else none

/-- The bytes of a stream. -/
def tagged (kind : Stream) (data : Bytes) : List (Stream × UInt8) := data.map fun b => (kind, b)

/-- The operation of the pipe an entry of the log stands for. -/
def outputOp : Obs → Option (Pipe.Op (Stream × UInt8))
  | .output kind data => some (.put (tagged kind data))
  | .sealed f => (dataOf f.payload).map fun v => .take (tagged v.1 v.2)
  | _ => none

/-- The history of the pipe. -/
def outputOps (log : List Obs) : List (Pipe.Op (Stream × UInt8)) := log.filterMap outputOp

/-- The chunks the child has written, in the order received. -/
def childOutput (log : List Obs) : List (Stream × UInt8) :=
  log.flatMap fun
    | .output kind data => tagged kind data
    | _ => []

/-- The payloads of the data packets sent, in order. -/
def sentOutput (log : List Obs) : List (Stream × UInt8) :=
  log.flatMap fun
    | .sealed f => (dataOf f.payload).elim [] fun v => tagged v.1 v.2
    | _ => []

@[simp] theorem outputOps_append (log log' : List Obs) :
    outputOps (log ++ log') = outputOps log ++ outputOps log' := List.filterMap_append

@[simp] theorem childOutput_append (log log' : List Obs) :
    childOutput (log ++ log') = childOutput log ++ childOutput log' := List.flatMap_append

@[simp] theorem sentOutput_append (log log' : List Obs) :
    sentOutput (log ++ log') = sentOutput log ++ sentOutput log' := List.flatMap_append

theorem given_outputOps (log : List Obs) : Pipe.given (outputOps log) = childOutput log := by
  induction log with
  | nil => rfl
  | cons e log ih =>
    have hsplit : e :: log = [e] ++ log := rfl
    rw [hsplit, outputOps_append, Pipe.given_append, childOutput_append, ih]
    congr 1
    cases e with
    | sealed f =>
      cases hf : dataOf f.payload <;>
        simp [outputOps, outputOp, childOutput, Pipe.given, Pipe.Op.given, hf]
    | output kind data => simp [outputOps, outputOp, childOutput, Pipe.given, Pipe.Op.given]
    | received | handled | rekeyed | accepted | queued | stdinEof | credited | execStarted
      | execFinished => rfl

theorem taken_outputOps (log : List Obs) : Pipe.taken (outputOps log) = sentOutput log := by
  induction log with
  | nil => rfl
  | cons e log ih =>
    have hsplit : e :: log = [e] ++ log := rfl
    rw [hsplit, outputOps_append, Pipe.taken_append, sentOutput_append, ih]
    congr 1
    cases e with
    | sealed f =>
      cases hf : dataOf f.payload <;>
        simp [outputOps, outputOp, sentOutput, Pipe.taken, Pipe.Op.taken, hf]
    | output kind data => simp [outputOps, outputOp, sentOutput, Pipe.taken, Pipe.Op.taken]
    | received | handled | rekeyed | accepted | queued | stdinEof | credited | execStarted
      | execFinished => rfl

/-- A data packet carries its data. -/
theorem dataOf_buildDataFrame (peerChan : ℕ) (kind : Stream) {data : Bytes}
    (hlen : data.length ≤ maxPacket) :
    dataOf (buildDataFrame peerChan kind data) = some (kind, data) := by
  have hdata : ∀ rest, (Reader.string maxPacket).run (putString data ++ rest) = .ok (data, rest) :=
    Reader.string_putString hlen (lt_of_le_of_lt hlen (by decide))
  cases kind with
  | stdout =>
    obtain ⟨chan, hchan⟩ := Reader.exists_uint32_putUint32 peerChan (putString data ++ [])
    have hread : readChannelData.run (putUint32 peerChan ++ (putString data ++ [])) =
        .ok ((chan, data), []) :=
      Reader.run_bind_ok.2 ⟨_, _, hchan, Reader.run_bind_ok.2 ⟨_, _, hdata _, rfl⟩⟩
    have hsplit : buildDataFrame peerChan .stdout data =
        sshMsgChannelData :: (putUint32 peerChan ++ (putString data ++ [])) := by
      simp [buildDataFrame]
    rw [hsplit, dataOf, if_pos rfl, hread]
  | stderr =>
    obtain ⟨chan, hchan⟩ := Reader.exists_uint32_putUint32 peerChan
      (putUint32 sshExtendedDataStderr ++ (putString data ++ []))
    have hcode := Reader.uint32_putUint32 (v := sshExtendedDataStderr) (by decide)
      (putString data ++ [])
    have hread : readExtendedData.run (putUint32 peerChan ++ (putUint32 sshExtendedDataStderr ++
        (putString data ++ []))) = .ok ((chan, sshExtendedDataStderr, data), []) :=
      Reader.run_bind_ok.2 ⟨_, _, hchan, Reader.run_bind_ok.2 ⟨_, _, hcode,
        Reader.run_bind_ok.2 ⟨_, _, hdata _, rfl⟩⟩⟩
    have hsplit : buildDataFrame peerChan .stderr data =
        sshMsgChannelExtendedData :: (putUint32 peerChan ++ (putUint32 sshExtendedDataStderr ++
          (putString data ++ []))) := by
      simp [buildDataFrame]
    rw [hsplit, dataOf, if_neg (by decide), if_pos rfl, hread]
    exact if_pos rfl

/-! ### What the other messages leave alone -/

/-- The messages of the child's output and of its end. -/
def outletMessages : List UInt8 := dataMessages ++ terminalMessages

/-- A message of the terminal sequence. -/
def isTerminal (q : Bytes) : Bool := isOneOf terminalMessages q

/-- The entries about neither the child's output nor its end. -/
def isAside : Obs → Bool
  | .sealed f => !isOneOf outletMessages f.payload
  | .output _ _ => false
  | _ => true

theorem aside_of_utters {msgs : List UInt8} (hmsgs : ∀ msg ∈ msgs, msg ∉ outletMessages)
    {log log' : List Obs} (h : Grows (utters msgs) log log') : Grows isAside log log' := by
  refine h.mono fun e he => ?_
  cases e with
  | sealed f =>
    have hnot : isOneOf outletMessages f.payload = false := isOneOf_disjoint hmsgs he
    simp [isAside, hnot]
  | received | handled | output => cases he
  | rekeyed | accepted | queued | stdinEof | credited | execStarted | execFinished => rfl

theorem dataOf_of_not_data {q : Bytes} (h : isOneOf dataMessages q = false) : dataOf q = none := by
  cases q with
  | nil => rfl
  | cons msg r =>
    simp only [isOneOf, List.head?_cons, Option.any_some, dataMessages, List.mem_cons,
      List.not_mem_nil, or_false, decide_eq_false_iff_not, not_or] at h
    rw [dataOf, if_neg h.1, if_neg h.2]

theorem isOneOf_append (msgs msgs' : List UInt8) (q : Bytes) :
    isOneOf (msgs ++ msgs') q = (isOneOf msgs q || isOneOf msgs' q) := by
  cases hq : q.head? <;> simp [isOneOf, hq, Bool.decide_or]

theorem isAside_sealed {f : Frame} (h : isAside (.sealed f) = true) :
    dataOf f.payload = none ∧ isTerminal f.payload = false := by
  have hnot : isOneOf outletMessages f.payload = false := by simpa [isAside] using h
  rw [outletMessages, isOneOf_append, Bool.or_eq_false_iff] at hnot
  exact ⟨dataOf_of_not_data hnot.1, hnot.2⟩

/-- Entries aside change neither the pipe nor what ended it. -/
theorem Grows.aside {log log' : List Obs} (h : Grows isAside log log') :
    outputOps log' = outputOps log ∧ childOutput log' = childOutput log ∧
      sentOutput log' = sentOutput log ∧
      ((∀ q ∈ sentPayloads log, isTerminal q = false) →
        ∀ q ∈ sentPayloads log', isTerminal q = false) := by
  refine h.keeps (R := fun l => outputOps l = outputOps log ∧ childOutput l = childOutput log ∧
    sentOutput l = sentOutput log ∧ ((∀ q ∈ sentPayloads log, isTerminal q = false) →
      ∀ q ∈ sentPayloads l, isTerminal q = false)) ?_ ⟨rfl, rfl, rfl, id⟩
  rintro l e he ⟨hops, hchild, hsent, hterm⟩
  have hone : outputOps [e] = [] ∧ childOutput [e] = [] ∧ sentOutput [e] = [] ∧
      ∀ q ∈ sentPayloads [e], isTerminal q = false := by
    cases e with
    | sealed f =>
      obtain ⟨hdata, hterminal⟩ := isAside_sealed he
      simp [outputOps, outputOp, childOutput, sentOutput, hdata, sentPayloads, sentPayload,
        hterminal]
    | output => cases he
    | received | handled | rekeyed | accepted | queued | stdinEof | credited | execStarted
      | execFinished => exact ⟨rfl, rfl, rfl, by simp [sentPayloads, sentPayload]⟩
  refine ⟨by simp [hops, hone.1], by simp [hchild, hone.2.1], by simp [hsent, hone.2.2.1], ?_⟩
  intro hlog q hq
  rw [sentPayloads_append] at hq
  obtain hq | hq := List.mem_append.1 hq
  · exact hterm hlog q hq
  · exact hone.2.2.2 q hq

/-! ### The invariant -/

/-- The output taken up and not sent yet. -/
def Driver.unsent (d : Driver) : List (Stream × UInt8) :=
  match d.pendingOut with
  | none => []
  | some p => tagged p.kind (p.buf.1.drop p.off)

/-- The terminal sequence was sent once, after all of the child's output: the exit
report, EOF and CLOSE in a row. -/
def TerminalSent (d : Driver) (log : List Obs) : Prop :=
  ∃ report before after fReport fEof fClose, d.exitReport = some report ∧
    log = before ++ .sealed fReport :: .sealed fEof :: .sealed fClose :: after ∧
    fReport.payload = report ∧ fEof.payload = buildEof d.peerChan ∧
    fClose.payload = buildClose d.peerChan ∧
    (∀ q ∈ sentPayloads (before ++ after), isTerminal q = false) ∧
    sentOutput before = childOutput log

/-- The child's output while the client has not closed first. -/
structure Emits (w : World) : Prop where
  early : w.driver.earlyClose = false
  pipe : Pipe.Holds (outputOps w.session.log) w.driver.unsent
  count : w.driver.bytesSent = min (sentOutput w.session.log).length u64Max
  exited : w.driver.state = .draining → w.driver.exitStatus.isSome = true
  unended : ¬w.driver.CloseSent → ∀ q ∈ sentPayloads w.session.log, isTerminal q = false
  ended : w.driver.CloseSent → TerminalSent w.driver w.session.log

/-- The client's CLOSE was handled with none of the server's sent before it. -/
def ClosesFirst (log : List Obs) : Prop :=
  ∃ before p after, log = before ++ .handled p :: after ∧
    p.head? = some sshMsgChannelClose ∧ ∀ q ∈ sentPayloads before, isClose q = false

theorem ClosesFirst.append {log : List Obs} (h : ClosesFirst log) (es : List Obs) :
    ClosesFirst (log ++ es) := by
  obtain ⟨before, p, after, rfl, hp, hbefore⟩ := h
  exact ⟨before, p, after ++ es, by simp, hp, hbefore⟩

theorem ClosesFirst.grows {P : Obs → Bool} {log log' : List Obs} (h : ClosesFirst log)
    (hgrows : Grows P log log') : ClosesFirst log' := by
  obtain ⟨es, rfl, -⟩ := hgrows
  exact h.append es

theorem TerminalSent.grows {d d' : Driver} {log log' : List Obs} (h : TerminalSent d log)
    (hgrows : Grows isAside log log') (hreport : d'.exitReport = d.exitReport)
    (hchan : d'.peerChan = d.peerChan) : TerminalSent d' log' := by
  obtain ⟨-, hchild, -, -⟩ := hgrows.aside
  obtain ⟨es, rfl, hes⟩ := hgrows
  obtain ⟨report, before, after, f₁, f₂, f₃, hr, rfl, h₁, h₂, h₃, hother, hall⟩ := h
  refine ⟨report, before, after ++ es, f₁, f₂, f₃, hreport.trans hr, by simp, h₁, ?_, ?_, ?_, ?_⟩
  · rw [hchan]
    exact h₂
  · rw [hchan]
    exact h₃
  · have hes' : Grows isAside (before ++ after) (before ++ (after ++ es)) :=
      ⟨es, by simp, hes⟩
    exact hes'.aside.2.2.2 hother
  · rw [hchild]
    exact hall

/-- The fields of the driver that the output and its end depend on. -/
structure SameOutlet (d d' : Driver) : Prop where
  early : d'.earlyClose = d.earlyClose
  pending : d'.pendingOut = d.pendingOut
  sent : d'.bytesSent = d.bytesSent
  status : d'.exitStatus = d.exitStatus
  signal : d'.exitSignal = d.exitSignal
  chan : d'.peerChan = d.peerChan

theorem SameOutlet.unsent {d d' : Driver} (h : SameOutlet d d') : d'.unsent = d.unsent := by
  rw [Driver.unsent, h.pending, ← Driver.unsent]

theorem SameOutlet.exitReport {d d' : Driver} (h : SameOutlet d d') :
    d'.exitReport = d.exitReport := by
  unfold Driver.exitReport
  rw [h.signal, h.status, h.chan]

variable {env : Env} {w w' : World}

/-- A step that is about neither the output nor its end. -/
theorem Emits.aside (h : Emits w) (hgrows : Grows isAside w.session.log w'.session.log)
    (hsame : SameOutlet w.driver w'.driver)
    (hdrain : w'.driver.state = .draining → w.driver.state = .draining)
    (hclose : w'.driver.CloseSent ↔ w.driver.CloseSent) : Emits w' := by
  obtain ⟨hops, -, hsent, hterm⟩ := hgrows.aside
  refine ⟨hsame.early.trans h.early, ?_, ?_, fun hs => ?_, fun hopen => ?_, fun hc => ?_⟩
  · rw [hops, hsame.unsent]
    exact h.pipe
  · rw [hsent, hsame.sent]
    exact h.count
  · rw [hsame.status]
    exact h.exited (hdrain hs)
  · exact hterm (h.unended fun hc => hopen (hclose.2 hc))
  · exact (h.ended (hclose.1 hc)).grows hgrows hsame.exitReport hsame.chan

theorem Emits.aside_of_stance (h : Emits w) (hgrows : Grows isAside w.session.log w'.session.log)
    (hsame : SameOutlet w.driver w'.driver) (hs : w'.driver.state = w.driver.state) : Emits w' := by
  refine h.aside hgrows hsame (fun hd => hs.symm.trans hd) ?_
  simp only [Driver.CloseSent, hs]

/-! ### Sending -/

theorem slice_append_drop (p : PendingOut) (n : ℕ) :
    p.slice n ++ p.buf.1.drop (p.off + n) = p.buf.1.drop p.off := by
  rw [PendingOut.slice, ← List.drop_drop]
  exact List.take_append_drop n _

theorem unsent_advance {d : Driver} (p : PendingOut) (n : ℕ)
    (h : d.pendingOut = if (p.advance n).isEmpty then none else some (p.advance n)) :
    d.unsent = tagged p.kind (p.buf.1.drop (p.off + n)) := by
  unfold Driver.unsent
  rw [h]
  split
  next hnone =>
    split at hnone
    · rename_i hempty
      have hle : p.buf.1.length ≤ p.off + n := of_decide_eq_true hempty
      rw [List.drop_eq_nil_of_le hle]
      rfl
    · cases hnone
  next q hq =>
    split at hq
    · cases hq
    · cases hq
      rfl

theorem length_slice {p : PendingOut} {n : ℕ} (hn : n ≤ p.remaining) : (p.slice n).length = n := by
  rw [PendingOut.slice, List.length_take, List.length_drop]
  exact Nat.min_eq_left hn

theorem sentOutput_sealed {f : Frame} {kind : Stream} {data : Bytes}
    (hf : dataOf f.payload = some (kind, data)) (log : List Obs) :
    sentOutput (log ++ [.sealed f]) = sentOutput log ++ tagged kind data := by
  simp [sentOutput, hf]

theorem outputOps_sealed {f : Frame} {kind : Stream} {data : Bytes}
    (hf : dataOf f.payload = some (kind, data)) (log : List Obs) :
    outputOps (log ++ [.sealed f]) = outputOps log ++ [.take (tagged kind data)] := by
  simp [outputOps, outputOp, hf]

theorem isTerminal_dataFrame (w : World) (p : PendingOut) (n : ℕ) :
    isTerminal (w.dataFrame p n) = false := by
  unfold World.dataFrame buildDataFrame
  cases p.kind <;> rfl

theorem Emits.flushOne (h : Emits w) (hone : FlushOne w w') : Emits w' := by
  cases hone with
  | packet p n tick bytesTx hflush =>
    have hopen := not_closeSent_of_mayEmitOutput hflush.state
    have hlen := length_slice hflush.le_remaining
    have hdata : dataOf (w.session.frame (w.dataFrame p n)).payload = some (p.kind, p.slice n) :=
      dataOf_buildDataFrame _ _ (hlen.trans_le hflush.le_maxPacket)
    have hunsent : w.driver.unsent =
        tagged p.kind (p.slice n) ++ tagged p.kind (p.buf.1.drop (p.off + n)) := by
      rw [Driver.unsent, hflush.pending]
      simp only [tagged]
      rw [← List.map_append, slice_append_drop]
    refine ⟨h.early, ?_, ?_, h.exited, fun _ => ?_, fun hc => absurd hc hopen⟩
    · change Pipe.Holds (outputOps (w.session.log ++ [.sealed _])) _
      rw [outputOps_sealed hdata, unsent_advance p n rfl]
      refine Pipe.Holds.take _ ?_
      rw [← hunsent]
      exact h.pipe
    · change saturatingAdd u64Max w.driver.bytesSent n =
        min (sentOutput (w.session.log ++ [.sealed _])).length u64Max
      rw [sentOutput_sealed hdata, h.count, saturatingAdd_min, List.length_append, tagged,
        List.length_map, hlen]
    · intro q hq
      have hq' : q ∈ sentPayloads (w.sent tick bytesTx (w.dataFrame p n)).session.log := hq
      rw [sentPayloads_sent] at hq'
      obtain hq | hq := List.mem_append.1 hq'
      · exact h.unended hopen q hq
      · rw [List.mem_singleton.1 hq]
        exact isTerminal_dataFrame w p n

theorem Emits.flushes (h : Emits w) (hrun : Relation.ReflTransGen FlushOne w w') : Emits w' := by
  induction hrun with
  | refl => exact h
  | tail _ hone ih => exact ih.flushOne hone

theorem HandsOff.sameOutlet (h : HandsOff w w') :
    SameOutlet w.driver w'.driver := by
  have hfeeds : ∀ {w₁ : World}, Feeds w w₁ → SameOutlet w.driver w₁.driver := by
    intro w₁ h
    cases h <;> exact ⟨rfl, rfl, rfl, rfl, rfl, rfl⟩
  cases h with
  | fed h => exact hfeeds h
  | closed h h' =>
    have hsame := hfeeds h
    cases h' with
    | closed child hchild heof hnext hopen =>
      exact ⟨hsame.early, hsame.pending, hsame.sent, hsame.status, hsame.signal, hsame.chan⟩

theorem Emits.handsOff (h : Emits w) (hoff : HandsOff w w') : Emits w' :=
  h.aside_of_stance (aside_of_utters (by simp) hoff.grows) hoff.sameOutlet hoff.stance.state

theorem Emits.credits (h : Emits w) (hcredits : Credits w w') : Emits w' := by
  refine h.aside_of_stance (aside_of_utters (by decide) hcredits.grows) ?_ hcredits.stance.state
  cases hcredits <;> exact ⟨rfl, rfl, rfl, rfl, rfl, rfl⟩

theorem Emits.emitFinished (h : Emits w) : Emits w.emitFinished := by
  have hdriver : SameOutlet w.driver w.emitFinished.driver ∧
      w.emitFinished.driver.state = w.driver.state := by
    unfold World.emitFinished
    split <;> exact ⟨⟨rfl, rfl, rfl, rfl, rfl, rfl⟩, rfl⟩
  exact h.aside_of_stance (aside_of_utters (by simp) (emitFinished_grows w)) hdriver.1 hdriver.2

theorem Emits.occurs (h : Emits w) {event : Event} (hoccurs : Occurs event w w') : Emits w' := by
  cases hoccurs with
  | chunk kind data hearly hnone hstate hended =>
    have hopen := not_closeSent_of_mayEmitOutput hstate
    have hunsent : w.driver.unsent = [] := by rw [Driver.unsent, hnone]
    refine ⟨h.early, ?_, ?_, h.exited, fun _ => ?_, fun hc => absurd hc hopen⟩
    · have hops : outputOps (w.session.log ++ [.output kind data.1]) =
          outputOps w.session.log ++ [.put (tagged kind data.1)] := by
        simp [outputOps, outputOp]
      change Pipe.Holds (outputOps (w.session.log ++ [.output kind data.1])) (tagged kind data.1)
      have hput := h.pipe.put (tagged kind data.1)
      rw [hunsent, List.nil_append] at hput
      rw [hops]
      exact hput
    · have hsent : sentOutput (w.session.log ++ [.output kind data.1]) =
          sentOutput w.session.log := by simp [sentOutput]
      change w.driver.bytesSent = min (sentOutput (w.session.log ++ [.output kind data.1])).length _
      rw [hsent]
      exact h.count
    · have hpayloads := sentPayloads_observe w (.output kind data.1) rfl
      intro q hq
      exact h.unended hopen q (by rw [← hpayloads]; exact hq)
  | unsent kind data hearly =>
    rw [h.early] at hearly
    cases hearly
  | exited exit hstate hended =>
    have hopen := not_closeSent_of_mayEmitOutput hstate
    refine ⟨h.early, h.pipe, h.count, fun _ => ?_, fun _ => h.unended hopen, fun hc => ?_⟩
    · simp only [mapDriver_driver]
      split
      · rfl
      · rename_i hnone
        exact Option.isSome_iff_ne_none.2 fun hn => hnone (by simp [hn])
    · refine absurd hc ?_
      simp only [Driver.CloseSent, mapDriver_driver]
      split
      · simp
      · exact hopen
  | ended hstate hchild =>
    exact h.aside_of_stance (.refl _ _) ⟨rfl, rfl, rfl, rfl, rfl, rfl⟩ rfl
  | credit child n rest hchild hconsumed =>
    exact h.aside_of_stance (.one rfl rfl) ⟨rfl, rfl, rfl, rfl, rfl, rfl⟩ rfl
  | creditsEnded child hchild hconsumed hpump =>
    exact h.aside_of_stance (.refl _ _) ⟨rfl, rfl, rfl, rfl, rfl, rfl⟩ rfl
  | woken => exact h

/-! ### Packets -/

/-- A child starts, or its start fails and counts as its exit. -/
theorem Emits.started (h : Emits w) {what : Start} (hstate : w.driver.state = .idle)
    (hd : (w.driver.starting what).Started w.driver.pty.isSome w'.driver)
    (hgrows : Grows isAside w.session.log w'.session.log) : Emits w' := by
  have hunsent : ¬w.driver.CloseSent := by simp [Driver.CloseSent, hstate]
  obtain ⟨hops, -, hsent, hterm⟩ := hgrows.aside
  generalize hdriver : w'.driver = d at hd
  have hfields : d.earlyClose = w.driver.earlyClose ∧ d.pendingOut = w.driver.pendingOut ∧
      d.bytesSent = w.driver.bytesSent ∧ (d.state = .draining → d.exitStatus.isSome = true) ∧
      ¬d.CloseSent := by
    cases hd with
    | spawned => simp [Driver.spawned, Driver.starting, Driver.CloseSent]
    | failed => simp [Driver.spawnFailed, Driver.starting, Driver.CloseSent]
  obtain ⟨hearly, hpending, hbytes, hexit, hopen⟩ := hfields
  rw [← hdriver] at hearly hpending hbytes hexit hopen
  refine ⟨hearly.trans h.early, ?_, ?_, hexit, fun _ => hterm (h.unended hunsent),
    fun hc => absurd hc hopen⟩
  · rw [hops, Driver.unsent, hpending]
    exact h.pipe
  · rw [hsent, hbytes]
    exact h.count

theorem RepliesTo.aside {p q : Bytes} (h : RepliesTo w p q) (f : Frame) (hf : f.payload = q) :
    isAside (.sealed f) = true := by
  have hq : isOneOf outletMessages q = false := by
    cases h with
    | answer ha =>
      cases ha with
      | globalRequest hmsg => rfl
      | channelOpen sender code desc hmsg => rfl
      | channelRequest msg hmsg hwants hstate hreply => obtain rfl | rfl := hreply <;> rfl
    | confirmation sender hmsg hstate => rfl
  simp [isAside, hf, hq]

theorem Reacts.aside {p : Bytes} (h : Reacts p w w') :
    Grows isAside w.session.log w'.session.log := by
  have hhandled : Grows isAside w.session.log (w.session.log ++ [.handled p]) := .one rfl rfl
  obtain ⟨es, hown, hlog⟩ := h.log_eq
  have hes : Grows isAside (w.session.log ++ [.handled p])
      (w.session.log ++ [.handled p] ++ es) := by
    refine ⟨es, rfl, fun e he => ?_⟩
    obtain ⟨hneutral, hout⟩ := hown e he
    cases e with
    | sealed | received | handled | rekeyed => cases hneutral
    | output kind data => exact absurd rfl (hout kind data)
    | accepted | queued | stdinEof | credited | execStarted | execFinished => rfl
  obtain ⟨-, hlog⟩ | ⟨q, hq, hlog⟩ := hlog
  · rw [hlog]
    simpa using hhandled.trans hes
  · have hreply : isAside (.sealed (w.session.frame q)) = true := hq.aside _ rfl
    refine (hhandled.trans hes).trans (.one hreply ?_)
    rw [hlog]
    simp

/-- The client's CLOSE comes first, or it ends a channel the server has closed. -/
theorem Emits.reacts (h : Emits w) {p : Bytes} (hreacts : Reacts p w w')
    (hopen : w.driver.state ≠ .closed) : ClosesFirst w'.session.log ∨ Emits w' := by
  have haside := hreacts.aside
  have hsame : ∀ d : Driver, SameOutlet d d := fun _ => ⟨rfl, rfl, rfl, rfl, rfl, rfl⟩
  cases hreacts with
  | silent tick => exact .inr (h.aside_of_stance haside (hsame _) rfl)
  | answered q tick bytesTx ha => exact .inr (h.aside_of_stance haside (hsame _) rfl)
  | ptyGranted term tick hstate =>
    exact .inr (h.aside_of_stance haside ⟨rfl, rfl, rfl, rfl, rfl, rfl⟩ rfl)
  | ptyAnswered term q tick bytesTx ha hmsg hstate =>
    exact .inr (h.aside_of_stance haside ⟨rfl, rfl, rfl, rfl, rfl, rfl⟩ rfl)
  | opened sender window maxPkt tick bytesTx hmsg hstate hmax hwindow =>
    have hunsent : ¬w.driver.CloseSent := by simp [Driver.CloseSent, hstate]
    obtain ⟨hops, -, hsent, hterm⟩ := haside.aside
    refine .inr ⟨h.early, ?_, ?_, by simp [World.sent, World.mapDriver], fun _ => ?_, fun hc => ?_⟩
    · rw [hops]
      exact h.pipe
    · rw [hsent]
      exact h.count
    · exact hterm (h.unended hunsent)
    · simp [World.sent, World.mapDriver, Driver.CloseSent] at hc
  | started what d tick hstate hd => exact .inr (h.started hstate hd haside)
  | startedAnswered what d tick₁ tick bytesTx hstate hd ha =>
    exact .inr (h.started hstate hd haside)
  | buffered data hmsg hstate heof hwindow hlen hread =>
    exact .inr (h.aside_of_stance haside ⟨rfl, rfl, rfl, rfl, rfl, rfl⟩ rfl)
  | stashed data child hmsg hstate heof hchild hwindow hlen hread =>
    exact .inr (h.aside_of_stance haside ⟨rfl, rfl, rfl, rfl, rfl, rfl⟩ rfl)
  | unsunk data hmsg hstate heof hchild hwindow hlen hread =>
    exact .inr (h.aside_of_stance haside ⟨rfl, rfl, rfl, rfl, rfl, rfl⟩ rfl)
  | adjusted add hmsg hstate hadd =>
    exact .inr (h.aside_of_stance haside ⟨rfl, rfl, rfl, rfl, rfl, rfl⟩ rfl)
  | eof hmsg hstate =>
    exact .inr (h.aside_of_stance haside ⟨rfl, rfl, rfl, rfl, rfl, rfl⟩ rfl)
  | closed hmsg hstate =>
    refine .inr (h.aside haside ⟨rfl, rfl, rfl, rfl, rfl, rfl⟩ (fun hd => by cases hd) ?_)
    simp [Driver.CloseSent, World.mapDriver, World.observe, hstate]
  | closedEarly hmsg hstate =>
    have hunsent : ¬w.driver.CloseSent := by
      rintro (hs | hs)
      · exact hstate.2 hs
      · exact hopen hs
    refine .inl ⟨w.session.log, p, [], rfl, hmsg, fun q hq => ?_⟩
    have hq := h.unended hunsent q hq
    by_contra hclose
    have hhead : q.head? = some sshMsgChannelClose := by simpa [isClose] using hclose
    simp [isTerminal, isOneOf, hhead, terminalMessages] at hq

theorem ClosesFirst.reactsAll (h : ClosesFirst w.session.log) {ps : List Bytes}
    (hreacts : ReactsAll ps w w') : ClosesFirst w'.session.log := by
  induction hreacts with
  | nil => exact h
  | cons hone _ ih => exact ih (h.grows hone.aside)

/-- Requests deferred before the CLOSE are handled before it. -/
theorem Emits.reactsAll (h : Emits w) {ps : List Bytes} (hreacts : ReactsAll ps w w')
    (hopen : ps ≠ [] → ¬w.driver.CloseSent) : ClosesFirst w'.session.log ∨ Emits w' := by
  induction hreacts with
  | nil => exact .inr h
  | cons hone hrest ih =>
    have hopen := hopen (by simp)
    have hopen' := hone.not_closeSent hopen
    obtain hfirst | h' := h.reacts hone fun hs => hopen (.inr hs)
    · exact .inl (hfirst.reactsAll hrest)
    · exact ih h' fun _ => hopen'

theorem Emits.rekeys (h : Emits w) {p : Bytes} {step : RekeyStep} {s : Session}
    (hrekeys : Rekeys env p w.session step s) : Emits { w with session := s } :=
  h.aside_of_stance (aside_of_utters (by decide) (rekeys_grows hrekeys))
    ⟨rfl, rfl, rfl, rfl, rfl, rfl⟩ rfl

theorem Emits.arrived (h : Emits w) (p : Bytes) : Emits (w.arrived p) :=
  h.aside_of_stance (.one rfl rfl) ⟨rfl, rfl, rfl, rfl, rfl, rfl⟩ rfl

/-- Once the CLOSE is sent nothing is deferred, nor can it be. -/
def Parted (w : World) : Prop :=
  w.driver.CloseSent → w.driver.deferred = [] ∧ ∀ iS, w.session.rekey.phase ≠ .sentKexInit iS

theorem Emits.takesPacket (h : Emits w) (hparted : Parted w) (hopen : w.driver.state ≠ .closed)
    {p : Bytes} (htakes : TakesPacket env p w w') : ClosesFirst w'.session.log ∨ Emits w' := by
  have harrived := h.arrived p
  cases htakes with
  | handled hwhen hreacts => exact harrived.reacts hreacts hopen
  | deferred iS hphase hmsg hinline hroom =>
    exact .inr (harrived.aside_of_stance (.refl _ _) ⟨rfl, rfl, rfl, rfl, rfl, rfl⟩ rfl)
  | rekeying hrekeys => exact .inr (harrived.rekeys hrekeys)
  | rekeyed hrekeys hdrained =>
    have hdone : Emits (w.drained _) := (harrived.rekeys hrekeys).aside_of_stance (.refl _ _)
      ⟨rfl, rfl, rfl, rfl, rfl, rfl⟩ rfl
    exact hdone.reactsAll hdrained fun hne hc => hne (hparted hc).1

/-! ### The terminal sequence -/

theorem SentAll.log_eq {qs : List Bytes} (h : SentAll qs w w') :
    ∃ fs : List Frame, w'.session.log = w.session.log ++ fs.map .sealed ∧
      fs.map Frame.payload = qs := by
  induction h with
  | nil => exact ⟨[], by simp, rfl⟩
  | @cons w w' q qs tick bytesTx h ih =>
    obtain ⟨fs, hlog, hfs⟩ := ih
    refine ⟨w.session.frame q :: fs, ?_, ?_⟩
    · rw [hlog]
      simp [World.sent, Session.sent]
    · simp [hfs, Session.frame]

theorem exitReport_of_exited {d : Driver} (h : d.exitStatus.isSome = true) :
    ∃ report, d.exitReport = some report := by
  obtain ⟨code, hcode⟩ := Option.isSome_iff_exists.1 h
  unfold Driver.exitReport
  rw [hcode]
  cases d.exitSignal with
  | none => exact ⟨_, rfl⟩
  | some signal => exact ⟨_, rfl⟩

/-- `send_terminal` with no output left. -/
theorem Emits.terminal (h : Emits w) (hready : w.driver.readyToClose = true) {w₁ : World}
    (hsent : SentAll w.driver.terminal w w₁) :
    Emits (w₁.mapDriver fun d => { d with state := .serverClosed }) := by
  simp only [Driver.readyToClose, Bool.and_eq_true, decide_eq_true_eq,
    Option.isNone_iff_eq_none] at hready
  obtain ⟨⟨hstate, -⟩, hnone⟩ := hready
  have hopen : ¬w.driver.CloseSent := by simp [Driver.CloseSent, hstate]
  obtain ⟨report, hreport⟩ := exitReport_of_exited (h.exited hstate)
  have hterminal : w.driver.terminal =
      [report, buildEof w.driver.peerChan, buildClose w.driver.peerChan] := by
    simp [Driver.terminal, h.early, hreport]
  rw [hterminal] at hsent
  have hdriver := hsent.driver_eq
  obtain ⟨fs, hlog, hfs⟩ := hsent.log_eq
  -- The end of the channel is three packets: the report, EOF and CLOSE.
  obtain ⟨fReport, fEof, fClose, rfl⟩ : ∃ f₁ f₂ f₃, fs = [f₁, f₂, f₃] :=
    List.length_eq_three.1 (by simpa using congrArg List.length hfs)
  obtain ⟨hf₁, hf₂, hf₃⟩ : fReport.payload = report ∧ fEof.payload = buildEof w.driver.peerChan ∧
      fClose.payload = buildClose w.driver.peerChan := by simpa using hfs
  have hunsent : w.driver.unsent = [] := by rw [Driver.unsent, hnone]
  -- None of them is data, so the output that was sent is all that was taken.
  have hnodata : ∀ f ∈ [fReport, fEof, fClose], dataOf f.payload = none := by
    intro f hf
    apply dataOf_of_not_data
    obtain rfl | rfl | rfl : f = fReport ∨ f = fEof ∨ f = fClose := by simpa using hf
    · rw [hf₁, isOneOf, head_exitReport hreport]
      rfl
    · rw [hf₂]
      rfl
    · rw [hf₃]
      rfl
  have hnodata' : outputOps ([fReport, fEof, fClose].map .sealed) = [] ∧
      sentOutput ([fReport, fEof, fClose].map .sealed) = [] ∧
      childOutput ([fReport, fEof, fClose].map .sealed) = [] := by
    simp only [List.mem_cons, List.not_mem_nil, or_false, forall_eq_or_imp, forall_eq] at hnodata
    simp [outputOps, outputOp, sentOutput, childOutput, hnodata]
  have hall : sentOutput w.session.log = childOutput w.session.log := by
    have hconserves := h.pipe.conserves
    rwa [hunsent, List.append_nil, taken_outputOps, given_outputOps] at hconserves
  refine ⟨?_, ?_, ?_, by simp [World.mapDriver], fun hn => ?_, fun _ => ?_⟩
  · change w₁.driver.earlyClose = false
    rw [hdriver]
    exact h.early
  · change Pipe.Holds (outputOps w₁.session.log) w₁.driver.unsent
    rw [hdriver, hlog, outputOps_append, hnodata'.1, List.append_nil]
    exact h.pipe
  · change w₁.driver.bytesSent = min (sentOutput w₁.session.log).length u64Max
    rw [hdriver, hlog, sentOutput_append, hnodata'.2.1, List.append_nil]
    exact h.count
  · exact absurd (.inl rfl) hn
  · refine ⟨report, w.session.log, [], fReport, fEof, fClose, ?_, hlog, hf₁, ?_, ?_, ?_, ?_⟩
    · rw [← hreport, ← hdriver]
      rfl
    · rw [hf₂, ← hdriver]
      rfl
    · rw [hf₃, ← hdriver]
      rfl
    · simpa using h.unended hopen
    · change _ = childOutput w₁.session.log
      rw [hlog, childOutput_append, hnodata'.2.2, List.append_nil]
      exact hall

theorem Emits.settles (h : Emits w) {finished : Bool} (hsettles : Settles w finished w') :
    Emits w' := by
  cases hsettles with
  | busy hactive => exact h
  | rekeyed cookie tick bytesTx started trigger hidle hcredits hstate =>
    exact (h.credits hcredits).aside_of_stance (.one rfl rfl) ⟨rfl, rfl, rfl, rfl, rfl, rfl⟩ rfl
  | @closes w₁ _ _ tick now hidle hcredits hdue hcloses =>
    have hcredited : Emits (w₁.atTick tick) := (h.credits hcredits).aside_of_stance (.refl _ _)
      ⟨rfl, rfl, rfl, rfl, rfl, rfl⟩ rfl
    cases hcloses with
    | waiting hready hstate => exact hcredited
    | finished hready hstate => exact hcredited.emitFinished
    | half hready hearly hsent => exact hcredited.terminal hready hsent
    | early hready hearly hsent =>
      rw [hcredited.early] at hearly
      cases hearly

/-! ### Whole runs -/

theorem Parted.congr (h : Parted w) (hclose : w'.driver.CloseSent → w.driver.CloseSent)
    (hdeferred : w'.driver.deferred = w.driver.deferred)
    (hphase : w'.session.rekey.phase = w.session.rekey.phase) : Parted w' := by
  intro hc
  rw [hdeferred, hphase]
  exact h (hclose hc)

theorem Parted.of_stance (h : Parted w) (hs : SameStance w w') : Parted w' :=
  h.congr hs.closeSent_iff.1 hs.deferred hs.phase

theorem Parted.settles (h : Parted w) (hdefers : Defers w) (hsettles : Settles w false w') :
    Parted w' := by
  cases hsettles with
  | busy hactive => exact h
  | @rekeyed w₁ cookie tick bytesTx started trigger hidle hcredits hstate =>
    intro hc
    have hc : w₁.driver.state = .serverClosed ∨ w₁.driver.state = .closed := hc
    rw [hcredits.stance.state] at hc
    obtain hs | hs := hc <;> simp [hs, ChannelState.mayRekey] at hstate
  | @closes w₁ _ _ tick now hidle hcredits hdue hcloses =>
    have hphase : (w₁.atTick tick).session.rekey.phase = .idle :=
      hcredits.stance.phase.trans hidle
    have hdeferred : (w₁.atTick tick).driver.deferred = [] :=
      hcredits.stance.deferred.trans (hdefers.idle hidle)
    cases hcloses with
    | waiting hready hstate => exact fun _ => ⟨hdeferred, by simp [hphase]⟩
    | @half w₂ hready hearly hsent =>
      have hphase' : w₂.session.rekey.phase = .idle := hsent.phase_eq.trans hphase
      have hdeferred' : w₂.driver.deferred = [] := by
        rw [hsent.driver_eq]
        exact hdeferred
      exact fun _ => ⟨hdeferred', by simp [World.mapDriver, hphase']⟩

theorem Parted.takesPacket (h : Parted w) {p : Bytes} (htakes : TakesPacket env p w w') :
    Parted w' := by
  cases htakes with
  | handled hwhen hreacts =>
    refine h.congr (fun hc => ?_) hreacts.deferred_eq hreacts.phase_eq
    by_contra hopen
    exact hreacts.not_closeSent hopen hc
  | deferred iS hphase hmsg hinline hroom => exact fun hc => absurd hphase ((h hc).2 iS)
  | rekeying hrekeys =>
    refine fun hc => ⟨(h hc).1, ?_⟩
    cases hrekeys <;> simp [Session.setPhase]
  | rekeyed hrekeys hdrained =>
    refine fun _ => ⟨hdrained.deferred_eq, ?_⟩
    rw [hdrained.phase_eq]
    cases hrekeys with
    | completed newRx tick now hphase hmsg => simp [World.drained]

theorem Parted.occurs (h : Parted w) {event : Event} (hoccurs : Occurs event w w') : Parted w' := by
  cases hoccurs with
  | exited exit hstate hended =>
    have hopen := not_closeSent_of_mayEmitOutput hstate
    refine h.congr (fun hc => ?_) rfl rfl
    simp only [Driver.CloseSent, mapDriver_driver] at hc
    split at hc
    · simp at hc
    · exact hc
  | chunk | unsent | ended | credit | creditsEnded | woken => exact h

theorem Parted.turn {c c' : Config} {input : Input} (hturn : Turn env c input c')
    (h : c.live → Parted c.world) (hdefers : c.live → Defers c.world) (hlive : c'.live) :
    Parted c'.world := by
  cases hturn with
  | flushed hidle hrun => exact (h (by simp [Config.live])).of_stance (FlushOnes.stance hrun)
  | unflushed hactive => exact h (by simp [Config.live])
  | handedOff hoff => exact (h (by simp [Config.live])).of_stance hoff.stance
  | settled hsettles =>
    rename_i finished
    cases finished with
    | true => exact absurd rfl (hlive _)
    | false => exact (h (by simp [Config.live])).settles (hdefers (by simp [Config.live])) hsettles
  | packet p htakes => exact (h (by simp [Config.live])).takesPacket htakes
  | occurred event hoccurs => exact (h (by simp [Config.live])).occurs hoccurs
  | pumped child child' step hpc hchild hpump => exact h hpc
  | flushFailed | settleFailed | packetFailed | readFailed | timedOut => exact absurd rfl (hlive _)

/-- No error has ended the connection. -/
def Config.sound (c : Config) : Prop := ∀ e, c.pc ≠ .done (.error e)

theorem ClosesFirst.turn {c c' : Config} {input : Input} (hturn : Turn env c input c')
    (h : ClosesFirst c.world.session.log) (hsound : c'.sound) :
    ClosesFirst c'.world.session.log := by
  cases hturn with
  | flushed hidle hrun => exact h.grows (FlushOnes.grows hrun)
  | unflushed hactive => exact h
  | handedOff hoff => exact h.grows hoff.grows
  | settled hsettles => exact h.grows hsettles.grows
  | packet p htakes =>
    have harrived := h.append [.received p]
    cases htakes with
    | handled hwhen hreacts => exact harrived.grows hreacts.aside
    | deferred iS hphase hmsg hinline hroom => exact harrived
    | rekeying hrekeys => exact harrived.grows (rekeys_grows hrekeys)
    | rekeyed hrekeys hdrained =>
      rename_i w _ s
      have hdone : ClosesFirst (w.drained s).session.log := harrived.grows (rekeys_grows hrekeys)
      exact hdone.reactsAll hdrained
  | occurred event hoccurs =>
    obtain ⟨es, hlog, -⟩ := hoccurs.log_eq
    rw [hlog]
    exact h.append es
  | pumped child child' step hpc hchild hpump => exact h
  | flushFailed | settleFailed | packetFailed | readFailed | timedOut => exact absurd rfl (hsound _)

theorem Emits.turn {c c' : Config} {input : Input} (hturn : Turn env c input c')
    (h : Emits c.world) (hparted : c.live → Parted c.world) (hleaves : c.ClosedLeaves)
    (hsound : c'.sound) : ClosesFirst c'.world.session.log ∨ Emits c'.world := by
  cases hturn with
  | flushed hidle hrun => exact .inr (h.flushes hrun)
  | unflushed hactive => exact .inr h
  | handedOff hoff => exact .inr (h.handsOff hoff)
  | settled hsettles => exact .inr (h.settles hsettles)
  | packet p htakes =>
    have hopen := fun hs => (hleaves (by simp [Config.live]) hs).2 rfl
    exact h.takesPacket (hparted (by simp [Config.live])) hopen htakes
  | occurred event hoccurs => exact .inr (h.occurs hoccurs)
  | pumped child child' step hpc hchild hpump =>
    exact .inr (h.aside_of_stance (.refl _ _) ⟨rfl, rfl, rfl, rfl, rfl, rfl⟩ rfl)
  | flushFailed | settleFailed | packetFailed | readFailed | timedOut => exact absurd rfl (hsound _)

/-- The output of a connection in one state. -/
structure Emitting (c : Config) : Prop where
  emits : c.sound → ClosesFirst c.world.session.log ∨ Emits c.world
  parted : c.live → Parted c.world
  defers : c.live → Defers c.world
  leaves : c.ClosedLeaves

theorem Config.live.sound {c : Config} (h : c.live) : c.sound := fun _ => h _

theorem Emitting.turn {c c' : Config} {input : Input} (h : Emitting c)
    (hturn : Turn env c input c') : Emitting c' := by
  refine ⟨fun hsound => ?_, fun hlive => Parted.turn hturn h.parted h.defers hlive,
    fun hlive => Defers.turn hturn h.defers hlive, h.leaves.turn hturn⟩
  obtain hfirst | hemits := h.emits hturn.live.sound
  · exact .inl (ClosesFirst.turn hturn hfirst hsound)
  · exact Emits.turn hturn hemits h.parted h.leaves hsound

theorem emitting_start (h : Handshake) : Emitting (Config.start h) := by
  have hgrows : Grows isAside [] (Config.start h).world.session.log := by
    refine ⟨_, rfl, fun e he => ?_⟩
    obtain ⟨f, hf, rfl⟩ := List.mem_map.1 he
    obtain ⟨i, payload, hpayload, rfl⟩ : ∃ i payload, payload ∈ h.sent ∧
        f = ⟨0, h.tx, i, payload⟩ := by
      obtain ⟨i, hi, rfl⟩ := List.mem_mapIdx.1 hf
      exact ⟨i, _, List.getElem_mem hi, rfl⟩
    obtain ⟨msg, hmsg, hhead⟩ := h.sent_msg payload hpayload
    have hne : ∀ msg ∈ handshakeMessages, msg ∉ outletMessages := by decide
    simpa [isAside, isOneOf, hhead] using hne msg hmsg
  obtain ⟨hops, -, hsent, hterm⟩ := hgrows.aside
  have hopen : ¬(Config.start h).world.driver.CloseSent := by
    simp [Config.start, Driver.new, Driver.CloseSent]
  have hemits : Emits (Config.start h).world := by
    refine ⟨rfl, ?_, ?_, by simp [Config.start, Driver.new], fun _ => ?_, fun hc => absurd hc hopen⟩
    · rw [hops]
      exact .nil
    · rw [hsent]
      rfl
    · exact hterm (by simp [sentPayloads])
  refine ⟨fun _ => .inr hemits, fun _ hc => absurd hc hopen, fun _ => defers_start h, ?_⟩
  exact fun _ hs => by simp [Config.start, Driver.new] at hs

theorem emitting_of_run {h : Handshake} {inputs : List Input} {c : Config}
    (hrun : Config.runs env h inputs = some c) : Emitting c :=
  invariant_run (fun _ _ _ hinv hstep => Emitting.turn hinv (step_turn hstep))
    (emitting_start h) hrun

/-- The output sent is at every moment a beginning of the output received, and the
terminal sequence was not sent, or once and after all of it. -/
structure OutputInOrder (c : Config) : Prop where
  inOrder : ∀ before after, c.world.session.log = before ++ after →
    sentOutput before <+: childOutput before
  terminal : (∀ q ∈ sentPayloads c.world.session.log, isTerminal q = false) ∨
    TerminalSent c.world.driver c.world.session.log

theorem Emits.outputInOrder {c : Config} (h : Emits c.world) : OutputInOrder c := by
  refine ⟨fun before after hlog => ?_, ?_⟩
  · have hpipe := h.pipe
    rw [hlog, outputOps_append] at hpipe
    obtain ⟨buf, hbefore⟩ := hpipe.of_append
    have hprefix := hbefore.taken_prefix
    rwa [taken_outputOps, given_outputOps] at hprefix
  · by_cases hc : c.world.driver.CloseSent
    · exact .inr (h.ended hc)
    · exact .inl (h.unended hc)

theorem emits_of_run {h : Handshake} {inputs : List Input} {c : Config}
    (hrun : Config.runs env h inputs = some c) (hsound : c.sound)
    (hfirst : ¬ClosesFirst c.world.session.log) : Emits c.world :=
  ((emitting_of_run hrun).emits hsound).resolve_left hfirst

/-- In a run that no error ends and in which the client does not close first, the
child's output is sent in order and in full before the terminal sequence, and
`bytes_sent` counts it up to the largest number it can hold. -/
theorem output_complete {h : Handshake} {inputs : List Input} {c : Config}
    (hrun : Config.runs env h inputs = some c) (hsound : c.sound)
    (hfirst : ¬ClosesFirst c.world.session.log) :
    OutputInOrder c ∧
      c.world.driver.bytesSent = min (sentOutput c.world.session.log).length u64Max := by
  have hemits := emits_of_run hrun hsound hfirst
  exact ⟨hemits.outputInOrder, hemits.count⟩

/-- A shell whose output is larger than the window, in both streams, up to its end. -/
def outputRun : List Input :=
  packetTurn (openSession 7 2 2) ++ packetTurn (channelRequest "shell" true) ++
    [.phase, .phase, .phase, .event (.output (some (.out .stdout ⟨[1, 2, 3], by decide⟩)))] ++
    packetTurn (buildWindowAdjust localChannel 5) ++
    [.phase, .phase, .phase, .event (.output (some (.exited ⟨3, none⟩)))] ++
    [.phase, .phase, .phase, .event (.output (some (.out .stderr ⟨[4], by decide⟩)))] ++
    [.phase, .phase, .phase, .event (.output none)] ++ [.phase, .phase, .phase]

/-- The log has no CLOSE of the client. -/
def isPolite (log : List Obs) : Bool :=
  log.all fun
    | .handled p => p.head? ≠ some sshMsgChannelClose
    | _ => true

theorem not_closesFirst_of_isPolite {log : List Obs} (h : isPolite log = true) :
    ¬ClosesFirst log := by
  rintro ⟨before, p, after, rfl, hp, -⟩
  have hpolite := List.all_eq_true.1 h (.handled p) (by simp)
  simp [hp] at hpolite

theorem output_complete_shell : ∃ c, Config.runs plainEnv plainHandshake outputRun = some c ∧
    sentOutput c.world.session.log =
      [(.stdout, 1), (.stdout, 2), (.stdout, 3), (.stderr, 4)] ∧
    (sentPayloads c.world.session.log).map List.head? =
      [some 91, some 99, some 94, some 94, some 95, some 98, some 96, some 97] ∧
    OutputInOrder c ∧ c.world.driver.bytesSent = 4 := by
  have hc : (Config.runs plainEnv plainHandshake outputRun).map (fun c =>
      c.pc.isWaiting && isPolite c.world.session.log &&
        decide (sentOutput c.world.session.log =
          [(.stdout, 1), (.stdout, 2), (.stdout, 3), (.stderr, 4)] ∧
          (sentPayloads c.world.session.log).map List.head? =
            [some 91, some 99, some 94, some 94, some 95, some 98, some 96, some 97])) =
      some true := by
    decide
  obtain ⟨c, hrun, hc⟩ := Option.map_eq_some_iff.1 hc
  simp only [Bool.and_eq_true, decide_eq_true_eq] at hc
  obtain ⟨⟨hpc, hpolite⟩, hsent, hheads⟩ := hc
  have hsound : c.sound := by
    intro e he
    rw [he] at hpc
    cases hpc
  obtain ⟨hin, hbytes⟩ := output_complete hrun hsound (not_closesFirst_of_isPolite hpolite)
  refine ⟨c, hrun, hsent, hheads, hin, ?_⟩
  rw [hbytes, hsent]
  rfl

end QuantumSsh.Channel
