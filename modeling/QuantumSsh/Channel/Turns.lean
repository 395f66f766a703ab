import QuantumSsh.Channel.Reactions
import Mathlib.Logic.Relation

/-!
# What a step of the loop can do

`Turn` lists what one step of the drive loop does to the connection, for every
input and for both ends of every program it runs. The invariants of the later
modules are proved from it, and do not unfold the programs again.
-/

namespace QuantumSsh.Channel

open Wire Kex Machine Program Transport

variable {env : Env} {w w' : World}

/-! ### Flushing output -/

/-- The next `n` bytes of the pending chunk may be sent. -/
structure Flushable (w : World) (p : PendingOut) (n : ℕ) : Prop where
  state : w.driver.state.mayEmitOutput = true
  pending : w.driver.pendingOut = some p
  pos : 0 < n
  le_remaining : n ≤ p.remaining
  le_window : n ≤ w.driver.outWindow
  le_maxPkt : n ≤ w.driver.outMaxPkt
  le_maxPacket : n ≤ maxPacket

/-- The packet of a flush. -/
def World.dataFrame (w : World) (p : PendingOut) (n : ℕ) : Bytes :=
  buildDataFrame w.driver.peerChan p.kind (p.slice n)

/-- One round of `flush_output`. -/
inductive FlushOne : World → World → Prop
  | packet {w : World} (p : PendingOut) (n tick bytesTx : ℕ) (h : Flushable w p n) :
      FlushOne w ((w.sent tick bytesTx (w.dataFrame p n)).mapDriver fun d => { d with
        outWindow := d.outWindow - n
        bytesSent := saturatingAdd u64Max d.bytesSent n
        pendingOut := if (p.advance n).isEmpty then none else some (p.advance n) })

/-- The flush breaks off at one packet. -/
def FlushFails (w w' : World) : Prop :=
  ∃ w₁ p n, Relation.ReflTransGen FlushOne w w₁ ∧ Flushable w₁ p n ∧
    w₁.Left (fun q => q = w₁.dataFrame p n) w'

theorem flushLoop_ensures (fuel : ℕ) :
    (flushLoop env fuel).Ensures w (fun _ w' => Relation.ReflTransGen FlushOne w w')
      fun _ w' => FlushFails w w' := by
  induction fuel generalizing w with
  | zero => exact .refl
  | succ fuel ih =>
    simp only [flushLoop, ensures_bind, ensures_look]
    split
    next => exact .refl
    next hstate =>
      split
      next => exact .refl
      next p hpending =>
        split
        next => exact .refl
        next hwindow =>
          split
          next => exact .refl
          next hn =>
            have hflush : Flushable w p
                (min p.remaining (min (min w.driver.outWindow w.driver.outMaxPkt) maxPacket)) :=
              ⟨by simpa using hstate, hpending, by omega, by omega, by omega, by omega, by omega⟩
            simp only [ensures_bind, updateDriver_ensures]
            refine write_ensures (fun tick bytesTx => ?_) fun _ _ h => ?_
            · refine ih.mono (fun _ w' hrun => ?_) fun _ w' hfail => ?_
              · exact .head (.packet p _ tick bytesTx hflush) hrun
              · obtain ⟨w₁, p', n', hrun, hflush', hleft⟩ := hfail
                exact ⟨w₁, p', n', .head (.packet p _ tick bytesTx hflush) hrun, hflush', hleft⟩
            · exact ⟨w, p, _, .refl, hflush, h.congr rfl fun _ => rfl⟩

/-! ### Handing off stdin -/

/-- The chunk `handoff_stdin` takes up, and the buffer it leaves. -/
def Driver.nextStdin (d : Driver) : Option (Bytes × List Bytes) :=
  match d.pendingStdin, d.preExecStdin with
  | some chunk, preExec => some (chunk, preExec)
  | none, chunk :: preExec => some (chunk, preExec)
  | none, [] => none

/-- The hand-off of one chunk. -/
inductive Feeds : World → World → Prop
  | childless {w : World} (h : w.driver.child = none) : Feeds w w
  | empty {w : World} (h : w.driver.nextStdin = none) : Feeds w w
  | returned {w : World} (child : ChildIo) (chunk : Bytes) (preExec : List Bytes)
      (hchild : w.driver.child = some child) (hnext : w.driver.nextStdin = some (chunk, preExec))
      (hopen : child.stdinOpen = true)
      (hfull : ¬(child.pumpAlive = true ∧ child.queue.length < stdinQueue)) :
      Feeds w (w.mapDriver fun d => { d with
        pendingStdin := some chunk, preExecStdin := preExec })
  | queued {w : World} (child : ChildIo) (chunk : Bytes) (preExec : List Bytes)
      (hchild : w.driver.child = some child) (hnext : w.driver.nextStdin = some (chunk, preExec))
      (hopen : child.stdinOpen = true) (halive : child.pumpAlive = true)
      (hroom : child.queue.length < stdinQueue) :
      Feeds w ((w.mapDriver fun d => { d with
        pendingStdin := none, preExecStdin := preExec
        child := some { child with queue := child.queue ++ [chunk] } }).observe (.queued chunk))
  | dropped {w : World} (child : ChildIo) (chunk : Bytes) (preExec : List Bytes)
      (hchild : w.driver.child = some child) (hnext : w.driver.nextStdin = some (chunk, preExec))
      (hclosed : child.stdinOpen = false) :
      Feeds w (w.mapDriver fun d => { d with
        pendingStdin := none, preExecStdin := preExec })

/-- The client's EOF is passed on. -/
inductive ClosesStdin : World → World → Prop
  | closed {w : World} (child : ChildIo) (hchild : w.driver.child = some child)
      (heof : w.driver.clientEof = true) (hnext : w.driver.nextStdin = none)
      (hopen : child.stdinOpen = true) :
      ClosesStdin w ((w.mapDriver fun d => { d with
        child := some child.closeStdin }).observe .stdinEof)

/-- `handoff_stdin`. -/
inductive HandsOff : World → World → Prop
  | fed {w w' : World} (h : Feeds w w') : HandsOff w w'
  | closed {w w₁ w' : World} (h : Feeds w w₁) (h' : ClosesStdin w₁ w') : HandsOff w w'

theorem trySendStdin_closed {child : ChildIo} {chunk : Bytes} (hopen : ¬child.stdinOpen = true) :
    child.trySendStdin chunk = some child := by
  simp [ChildIo.trySendStdin, hopen]

theorem trySendStdin_room {child : ChildIo} {chunk : Bytes} (hopen : child.stdinOpen = true)
    (hroom : child.pumpAlive = true ∧ child.queue.length < stdinQueue) :
    child.trySendStdin chunk = some { child with queue := child.queue ++ [chunk] } := by
  rw [ChildIo.trySendStdin, if_neg (by simp [hopen]), if_pos hroom]

theorem trySendStdin_full {child : ChildIo} {chunk : Bytes} (hopen : child.stdinOpen = true)
    (hroom : ¬(child.pumpAlive = true ∧ child.queue.length < stdinQueue)) :
    child.trySendStdin chunk = none := by
  rw [ChildIo.trySendStdin, if_neg (by simp [hopen]), if_neg hroom]

theorem closeOnEof_ensures {w₁ : World} (h : Feeds w w₁) :
    handoffStdin.closeOnEof.Ensures w₁ (fun _ w' => HandsOff w w') fun _ _ => False := by
  simp only [handoffStdin.closeOnEof, ensures_bind, ensures_look]
  split
  next => exact .fed h
  next child hchild =>
    split
    next hcond =>
      obtain ⟨heof, hpending, hpre⟩ := hcond
      have hnext : w₁.driver.nextStdin = none := by
        simp [Driver.nextStdin, hpending, hpre]
      simp only [ensures_bind, updateDriver_ensures]
      split
      next hopen => exact .closed h (.closed child hchild heof hnext hopen)
      next hopen =>
        -- Closing a closed stdin changes nothing.
        have hsame : (w₁.mapDriver fun d => { d with child := some child.closeStdin }) = w₁ := by
          have : child.closeStdin = child := by
            rw [ChildIo.closeStdin, ← Bool.eq_false_iff.2 hopen]
          simp only [World.mapDriver, this, ← hchild]
        simp only [ensures_pure, hsame]
        exact .fed h
    next => exact .fed h

theorem handoffStdin_ensures :
    handoffStdin.Ensures w (fun _ w' => HandsOff w w') fun _ _ => False := by
  simp only [handoffStdin, ensures_bind, ensures_look]
  split
  next hchild => exact .fed (.childless hchild)
  next child hchild =>
    have hrefill : w.driver.refill =
        (w.driver.nextStdin.map Prod.fst, (w.driver.nextStdin.map Prod.snd).getD []) := by
      unfold Driver.refill Driver.nextStdin
      cases w.driver.pendingStdin <;> cases w.driver.preExecStdin <;> rfl
    rw [hrefill]
    cases hn : w.driver.nextStdin with
    | none =>
      have hsame : (w.mapDriver fun d => { d with pendingStdin := none, preExecStdin := [] }) = w := by
        have hboth : w.driver.pendingStdin = none ∧ w.driver.preExecStdin = [] := by
          unfold Driver.nextStdin at hn
          split at hn
          · cases hn
          · cases hn
          · next h₁ h₂ => exact ⟨h₁, h₂⟩
        simp only [World.mapDriver, ← hboth.1, ← hboth.2]
      simp only [Option.map_none, Option.getD_none, ensures_bind, updateDriver_ensures, hsame]
      exact closeOnEof_ensures (.empty hn)
    | some next =>
      obtain ⟨chunk, preExec⟩ := next
      simp only [Option.map_some, Option.getD_some]
      by_cases hopen : child.stdinOpen = true
      · by_cases hroom : child.pumpAlive = true ∧ child.queue.length < stdinQueue
        · rw [trySendStdin_room hopen hroom]
          simp only [ensures_bind, updateDriver_ensures, if_pos hopen, note_ensures]
          exact closeOnEof_ensures
            (.queued child chunk preExec hchild hn hopen hroom.1 hroom.2)
        · rw [trySendStdin_full hopen hroom]
          simp only [updateDriver_ensures]
          exact .fed (.returned child chunk preExec hchild hn hopen hroom)
      · have hsame : (w.mapDriver fun d => { d with
            pendingStdin := none, preExecStdin := preExec, child := some child }) =
            w.mapDriver fun d => { d with pendingStdin := none, preExecStdin := preExec } := by
          simp only [World.mapDriver, hchild]
        rw [trySendStdin_closed hopen]
        simp only [ensures_bind, updateDriver_ensures, hsame, if_neg hopen]
        exact closeOnEof_ensures
          (.dropped child chunk preExec hchild hn (Bool.eq_false_iff.2 hopen))

/-! ### Closing work -/

/-- The packets are written one after the other. -/
inductive SentAll : List Bytes → World → World → Prop
  | nil {w : World} : SentAll [] w w
  | cons {w w' : World} {q : Bytes} {qs : List Bytes} (tick bytesTx : ℕ)
      (h : SentAll qs (w.sent tick bytesTx q) w') : SentAll (q :: qs) w w'

/-- The writing of the packets breaks off at one of them. -/
def SentFails (qs : List Bytes) (w w' : World) : Prop :=
  ∃ pre q post w₁, qs = pre ++ q :: post ∧ SentAll pre w w₁ ∧ w₁.Left (fun q' => q' = q) w'

/-- Writing a packet and then what `prog` writes. -/
theorem sentAll_ensures_cons {q : Bytes} {qs : List Bytes} {prog : DriverProg Unit}
    (h : ∀ tick bytesTx, prog.Ensures (w.sent tick bytesTx q)
      (fun _ w' => SentAll qs (w.sent tick bytesTx q) w')
      fun _ w' => SentFails qs (w.sent tick bytesTx q) w') :
    (write env q >>= fun _ => prog).Ensures w (fun _ w' => SentAll (q :: qs) w w')
      fun _ w' => SentFails (q :: qs) w w' := by
  rw [ensures_bind]
  refine write_ensures (fun tick bytesTx => ?_) fun _ w' hleft => ?_
  · refine (h tick bytesTx).mono (fun _ w' hsent => .cons tick bytesTx hsent) fun _ w' hfail => ?_
    obtain ⟨pre, q', post, w₁, rfl, hsent, hleft⟩ := hfail
    exact ⟨q :: pre, q', post, w₁, rfl, .cons tick bytesTx hsent, hleft⟩
  · exact ⟨[], q, qs, w, rfl, .nil, hleft⟩

/-- The packets of `send_terminal`. -/
def Driver.terminal (d : Driver) : List Bytes :=
  if d.earlyClose then [buildClose d.peerChan]
  else d.exitReport.toList ++ [buildEof d.peerChan, buildClose d.peerChan]

/-- The state `send_terminal` leaves. -/
def Driver.terminalState (d : Driver) : ChannelState :=
  if d.earlyClose then .closed else .serverClosed

theorem SentAll.driver_eq {qs : List Bytes} (h : SentAll qs w w') : w'.driver = w.driver := by
  induction h with
  | nil => rfl
  | cons tick bytesTx h ih => exact ih

/-- The last write and the update after it, given the writes before. -/
theorem sendTerminal_ensures :
    (sendTerminal env).Ensures w
      (fun _ w' => ∃ w₁, SentAll w.driver.terminal w w₁ ∧
        w' = w₁.mapDriver fun d => { d with state := w.driver.terminalState })
      fun _ w' => SentFails w.driver.terminal w w' := by
  have hlast : ∀ (w₁ : World), (write env (buildClose w.driver.peerChan)).Ensures w₁
      (fun _ w' => SentAll [buildClose w.driver.peerChan] w₁ w')
      fun _ w' => SentFails [buildClose w.driver.peerChan] w₁ w' := by
    intro w₁
    refine write_ensures (fun tick bytesTx => .cons tick bytesTx .nil) fun _ w' hleft => ?_
    exact ⟨[], _, [], w₁, rfl, .nil, hleft⟩
  have heof : ∀ (w₁ : World), (write env (buildEof w.driver.peerChan) >>= fun _ =>
      write env (buildClose w.driver.peerChan)).Ensures w₁
        (fun _ w' => SentAll [buildEof w.driver.peerChan, buildClose w.driver.peerChan] w₁ w')
        fun _ w' => SentFails [buildEof w.driver.peerChan, buildClose w.driver.peerChan] w₁ w' :=
    fun w₁ => sentAll_ensures_cons fun tick bytesTx => hlast _
  simp only [sendTerminal, ensures_bind, ensures_look]
  by_cases hearly : w.driver.earlyClose = true
  · simp only [if_pos hearly, ensures_bind, Driver.terminal, Driver.terminalState,
      updateDriver_ensures]
    exact (hlast w).mono (fun _ w₁ h => ⟨w₁, h, rfl⟩) fun _ _ h => h
  · simp only [if_neg hearly, Driver.terminal, Driver.terminalState]
    cases hreport : w.driver.exitReport with
    | none =>
      simp only [Option.toList_none, List.nil_append, ensures_bind, updateDriver_ensures]
      have h := heof w
      rw [ensures_bind] at h
      exact h.mono (fun _ w₁ h => h.mono (fun _ w₂ h => ⟨w₂, h, rfl⟩) fun _ _ h => h)
        fun _ _ h => h
    | some report =>
      simp only [Option.toList_some, List.singleton_append, ensures_bind, updateDriver_ensures]
      have h := @sentAll_ensures_cons env w report _ _
        fun tick bytesTx => heof (w.sent tick bytesTx report)
      simp only [ensures_bind] at h
      refine h.mono (fun _ w₁ h => h.mono (fun _ w₂ h => ?_) fun _ _ h => h) fun _ _ h => h
      exact h.mono (fun _ w₃ h => ⟨w₃, h, rfl⟩) fun _ _ h => h

/-- Phase (C): credit is returned once a batch is full. -/
inductive Credits : World → World → Prop
  | below {w : World} (h : w.driver.creditPending < creditBatch) : Credits w w
  | returned {w : World} (tick bytesTx : ℕ) (h : creditBatch ≤ w.driver.creditPending) :
      Credits w ((w.sent tick bytesTx
        (buildWindowAdjust w.driver.peerChan w.driver.creditPending)).mapDriver fun d => { d with
          inWindow := saturatingAdd u32Max d.inWindow w.driver.creditPending
          creditPending := 0 })

/-- Phase (E), with no re-key in flight. -/
inductive Closes : World → Bool → World → Prop
  | waiting {w : World} (hready : w.driver.readyToClose = false)
      (hstate : w.driver.state ≠ .closed) : Closes w false w
  | finished {w : World} (hready : w.driver.readyToClose = false)
      (hstate : w.driver.state = .closed) : Closes w true w.emitFinished
  | half {w w₁ : World} (hready : w.driver.readyToClose = true)
      (hearly : w.driver.earlyClose = false) (hsent : SentAll w.driver.terminal w w₁) :
      Closes w false (w₁.mapDriver fun d => { d with state := .serverClosed })
  | early {w w₁ : World} (hready : w.driver.readyToClose = true)
      (hearly : w.driver.earlyClose = true) (hsent : SentAll w.driver.terminal w w₁) :
      Closes w true (w₁.mapDriver fun d => { d with state := .closed }).emitFinished

/-- Phases (C) to (E). -/
inductive Settles : World → Bool → World → Prop
  | busy {w : World} (h : w.session.rekeyActive = true) : Settles w false w
  | rekeyed {w w₁ : World} (cookie : Bytes) (tick bytesTx started : ℕ) (trigger : Trigger)
      (hidle : w.session.rekey.phase = .idle) (hcredits : Credits w w₁)
      (hstate : w.driver.state.mayRekey = true) :
      Settles w false
        { w₁ with session := w₁.session.begun cookie tick bytesTx started trigger }
  | closes {w w₁ w₂ : World} {finished : Bool} (tick now : ℕ)
      (hidle : w.session.rekey.phase = .idle) (hcredits : Credits w w₁)
      (hdue : ¬(w₁.session.rekeyDue now = true ∧ w.driver.state.mayRekey = true))
      (hcloses : Closes (w₁.atTick tick) finished w₂) : Settles w finished w₂

/-- How phases (C) to (E) end the connection. -/
inductive SettleFails (w w' : World) : Prop
  | credit (hidle : w.session.rekey.phase = .idle) (h : creditBatch ≤ w.driver.creditPending)
      (hleft : w.Left (fun q => q =
        buildWindowAdjust w.driver.peerChan w.driver.creditPending) w')
  | rekey (w₁ : World) (cookie : Bytes) (hidle : w.session.rekey.phase = .idle)
      (hcredits : Credits w w₁) (hstate : w.driver.state.mayRekey = true)
      (hleft : w₁.Left (fun q => q = buildRekeyKexinit cookie) w')
  | terminal (w₁ : World) (tick now : ℕ) (hidle : w.session.rekey.phase = .idle)
      (hcredits : Credits w w₁)
      (hdue : ¬(w₁.session.rekeyDue now = true ∧ w.driver.state.mayRekey = true))
      (hready : w.driver.readyToClose = true)
      (hfails : SentFails w.driver.terminal (w₁.atTick tick) w')

theorem Credits.fields (h : Credits w w') :
    w'.driver.state = w.driver.state ∧ w'.session.rekey.phase = w.session.rekey.phase ∧
      w'.driver.readyToClose = w.driver.readyToClose ∧ w'.driver.terminal = w.driver.terminal := by
  cases h with
  | below h => exact ⟨rfl, rfl, rfl, rfl⟩
  | returned tick bytesTx h => exact ⟨rfl, rfl, rfl, rfl⟩

theorem replenishWindow_ensures (hidle : w.session.rekey.phase = .idle) :
    (replenishWindow env).Ensures w (fun _ w' => Credits w w') fun _ w' => SettleFails w w' := by
  simp only [replenishWindow, ensures_bind, ensures_look]
  split
  next h =>
    simp only [ensures_bind, updateDriver_ensures]
    exact write_ensures (fun tick bytesTx => .returned tick bytesTx h)
      fun _ _ hleft => .credit hidle h hleft
  next h => exact .below (Nat.lt_of_not_le h)

theorem closeIfReady_ensures :
    (closeIfReady env).Ensures w (fun finished w' => Closes w finished w')
      fun _ w' => w.driver.readyToClose = true ∧ SentFails w.driver.terminal w w' := by
  simp only [closeIfReady, ensures_bind, ensures_look]
  by_cases hready : w.driver.readyToClose = true
  · rw [if_pos hready, ensures_bind]
    refine sendTerminal_ensures.mono (fun _ w' h => ?_) fun _ w' h => ⟨hready, h⟩
    obtain ⟨w₁, hsent, rfl⟩ := h
    by_cases hearly : w.driver.earlyClose = true
    · have hstate : w.driver.terminalState = .closed := by simp [Driver.terminalState, hearly]
      rw [hstate]
      exact .early hready hearly hsent
    · have hstate : w.driver.terminalState = .serverClosed := by
        simp [Driver.terminalState, hearly]
      rw [hstate]
      exact .half hready (Bool.eq_false_iff.2 hearly) hsent
  · rw [if_neg hready]
    have hready := Bool.eq_false_iff.2 hready
    by_cases hstate : w.driver.state = .closed
    · simp only [ensures_bind, ensures_pure, ensures_look, if_pos hstate, ensures_update]
      exact .finished hready hstate
    · simp only [ensures_bind, ensures_pure, ensures_look, if_neg hstate]
      exact .waiting hready hstate

theorem settlePhase_ensures :
    (settlePhase env).Ensures w (fun finished w' => Settles w finished w')
      fun _ w' => SettleFails w w' := by
  simp only [settlePhase, ensures_bind, ensures_look]
  by_cases hactive : w.session.rekeyActive = true
  · rw [if_pos hactive]
    exact .busy hactive
  · have hidle : w.session.rekey.phase = .idle := by simpa [Session.rekeyActive] using hactive
    rw [if_neg hactive]
    simp only [ensures_bind]
    refine (replenishWindow_ensures hidle).mono (fun _ w₁ hcredits => ?_) fun _ _ h => h
    obtain ⟨hstate, hphase, hready, hterminal⟩ := hcredits.fields
    simp only [rekeyIfDue, ensures_bind, askDriver_ensures, ensures_look]
    split
    next hdue =>
      simp only [onSession, ensures_zoom]
      refine beginRekey_ensures (fun cookie tick bytesTx started trigger => ?_)
        fun _ _ cookie hleft => ?_
      · have h := Settles.rekeyed cookie tick bytesTx started trigger hidle hcredits
          (hstate ▸ hdue.2)
        exact h
      · exact .rekey w₁ cookie hidle hcredits (hstate ▸ hdue.2) (hleft.congr rfl fun _ => rfl)
    next hdue =>
      have hdue : ¬(w₁.session.rekeyDue (env.now w₁.session.tick) = true ∧
          w.driver.state.mayRekey = true) := by
        rw [← hstate]
        exact hdue
      have hnot : (w₁.atTick (w₁.session.tick + 1)).session.rekeyActive = false := by
        simp [Session.rekeyActive, World.atTick, hphase, hidle]
      simp only [ensures_pure, hnot, Bool.false_eq_true, if_false]
      refine closeIfReady_ensures.mono (fun finished w' h => ?_) fun _ w' h => ?_
      · exact .closes _ _ hidle hcredits hdue h
      · refine .terminal w₁ (w₁.session.tick + 1) _ hidle hcredits hdue (hready ▸ h.1) ?_
        rw [← hterminal]
        exact h.2

/-! ### Packets -/

/-- The connection once `read_packet` has returned `p`. -/
def World.arrived (w : World) (p : Bytes) : World :=
  { w with session := (w.session.receive p).observe (.received p) }

/-- The messages are handled one after the other. -/
inductive ReactsAll : List Bytes → World → World → Prop
  | nil {w : World} : ReactsAll [] w w
  | cons {w w₁ w' : World} {p : Bytes} {ps : List Bytes} (h : Reacts p w w₁)
      (hs : ReactsAll ps w₁ w') : ReactsAll (p :: ps) w w'

/-- The handling of the messages breaks off at one of them. -/
def ReactAllFails (ps : List Bytes) (w w' : World) : Prop :=
  ∃ pre p post w₁, ps = pre ++ p :: post ∧ ReactsAll pre w w₁ ∧ ReactFails p w₁ w'

theorem handleAll_ensures {ps : List Bytes} :
    (forEach (handleInbound env) ps).Ensures w (fun _ w' => ReactsAll ps w w')
      fun _ w' => ReactAllFails ps w w' := by
  induction ps generalizing w with
  | nil => exact .nil
  | cons p ps ih =>
    simp only [forEach, ensures_bind]
    refine handleInbound_ensures.mono (fun _ w₁ h => ?_) fun _ w' h => ?_
    · refine ih.mono (fun _ w' hs => .cons h hs) fun _ w' hfail => ?_
      obtain ⟨pre, q, post, w₂, rfl, hs, hq⟩ := hfail
      exact ⟨p :: pre, q, post, w₂, rfl, .cons h hs, hq⟩
    · exact ⟨[], p, ps, w, rfl, .nil, h⟩

/-- The message is handled at once: outside a re-key, or inside one before the
peer's KEXINIT when no reply can follow. -/
inductive AtOnce (w : World) (p : Bytes) : Prop
  | idle (hphase : w.session.rekey.phase = .idle) (hmsg : p.head? ≠ some sshMsgKexinit)
  | inline (iS : Bytes) (hphase : w.session.rekey.phase = .sentKexInit iS)
      (hinline : isInline p = true)

/-- The connection with new keys in both directions, about to drain. -/
def World.drained (w : World) (s : Session) : World :=
  { session := s, driver := { w.driver with deferred := [] } }

/-- What the packet arm does with `p` when it returns. -/
inductive TakesPacket (env : Env) (p : Bytes) (w : World) : World → Prop
  | handled {w' : World} (hwhen : AtOnce w p) (hreacts : Reacts p (w.arrived p) w') :
      TakesPacket env p w w'
  | deferred (iS : Bytes) (hphase : w.session.rekey.phase = .sentKexInit iS)
      (hmsg : p.head? ≠ some sshMsgKexinit) (hinline : isInline p = false)
      (hroom : w.driver.deferred.length < maxDeferred) :
      TakesPacket env p w ((w.arrived p).mapDriver fun d => { d with
        deferred := d.deferred ++ [p] })
  | rekeying {s : Session} (h : Rekeys env p (w.arrived p).session .continued s) :
      TakesPacket env p w { w with session := s }
  | rekeyed {s : Session} {w' : World} (h : Rekeys env p (w.arrived p).session .completed s)
      (hdrained : ReactsAll w.driver.deferred (w.drained s) w') : TakesPacket env p w w'

/-- How the packet arm ends the connection on `p`. -/
inductive PacketFails (env : Env) (p : Bytes) (w w' : World) : Prop
  | handled (hwhen : AtOnce w p) (hfails : ReactFails p (w.arrived p) w')
  | overflow (hleft : (w.arrived p).Left IsDisconnect w')
  | rekeying (hfails : RekeyFails p (w.arrived p).session w'.session)
  | draining {s : Session} (h : Rekeys env p (w.arrived p).session .completed s)
      (hfails : ReactAllFails w.driver.deferred (w.drained s) w')

theorem onPacket_ensures {p : Bytes} :
    (onPacket env p).Ensures w (fun _ w' => TakesPacket env p w w')
      fun _ w' => PacketFails env p w w' := by
  have harrived : World.observe { w with session := w.session.receive p } (.received p) =
      w.arrived p := rfl
  simp only [onPacket, ensures_bind, ensures_update, note_ensures, ensures_look, harrived]
  -- During a re-key the sub-state machine sees every packet first.
  by_cases hactive : w.session.rekeyActive = true
  · have hactive' : (w.arrived p).session.rekeyActive = true := hactive
    rw [if_pos hactive', ensures_bind]
    simp only [onSession, ensures_zoom]
    refine stepRekey_ensures (fun step s h => ?_) fun e s h => .rekeying h
    cases step with
    | continued => exact .rekeying h
    | completed =>
      simp only [drainDeferred, ensures_bind, ensures_look, updateDriver_ensures]
      refine handleAll_ensures.mono (fun _ w' hs => ?_) fun _ w' hs => ?_
      · exact .rekeyed h hs
      · exact .draining h hs
    | passToChannel =>
      cases h with
      | passed iS hphase hmsg =>
        simp only [passToChannel]
        split
        next hinline =>
          have hwhen : AtOnce w p := .inline iS hphase hinline
          exact handleInbound_ensures.mono (fun _ w' h => .handled hwhen h)
            fun _ w' h => .handled hwhen h
        next hinline =>
          simp only [ensures_bind, ensures_look]
          split
          next => exact refuse_ensures fun _ w' h => .overflow h
          next hroom =>
            exact .deferred iS hphase hmsg (Bool.eq_false_iff.2 hinline) (Nat.lt_of_not_le hroom)
  -- Outside of a re-key it sees only a KEXINIT, which cannot pass or complete anything.
  · have hidle : w.session.rekey.phase = .idle := by simpa [Session.rekeyActive] using hactive
    have hactive' : ¬(w.arrived p).session.rekeyActive = true := hactive
    rw [if_neg hactive']
    split
    next hmsg =>
      simp only [onSession, ensures_bind, ensures_zoom]
      refine stepRekey_ensures (fun step s h => ?_) fun e s h => .rekeying h
      cases h with
      | opened cookie n tick bytesTx started hphase hmsg hn =>
        exact .rekeying (.opened cookie n tick bytesTx started hphase hmsg hn)
      | answered iS n tick hphase hmsg hn => exact .rekeying (.answered iS n tick hphase hmsg hn)
      | skipped iC iS n hphase => exact .rekeying (.skipped iC iS n hphase)
      | replied iC iS n tick₁ tick bytesTx₁ bytesTx r hphase hmsg =>
        exact .rekeying (.replied iC iS n tick₁ tick bytesTx₁ bytesTx r hphase hmsg)
      | passed iS hphase hmsg =>
        have : w.session.rekey.phase = .sentKexInit iS := hphase
        rw [hidle] at this
        cases this
      | completed newRx tick now hphase hmsg =>
        have : w.session.rekey.phase = .awaitNewKeys newRx := hphase
        rw [hidle] at this
        cases this
    next hmsg =>
      have hwhen : AtOnce w p := .idle hidle hmsg
      exact handleInbound_ensures.mono (fun _ w' h => .handled hwhen h)
        fun _ w' h => .handled hwhen h

/-! ### The other events -/

/-- What an event that is no packet does when the arm returns. -/
inductive Occurs : Event → World → World → Prop
  | chunk {w : World} (kind : Stream) (data : Chunk) (hearly : w.driver.earlyClose = false)
      (hnone : w.driver.pendingOut = none) (hstate : w.driver.state.mayEmitOutput = true)
      (hended : w.driver.child.any (fun c => !c.outEnded) = true) :
      Occurs (.output (some (.out kind data))) w
        ((w.observe (.output kind data.1)).mapDriver fun d => { d with
          pendingOut := some (PendingOut.new kind data) })
  | unsent {w : World} (kind : Stream) (data : Chunk) (hearly : w.driver.earlyClose = true) :
      Occurs (.output (some (.out kind data))) w w
  | exited {w : World} (exit : ChildExit) (hstate : w.driver.state.mayEmitOutput = true)
      (hended : w.driver.child.any (fun c => !c.outEnded) = true) :
      Occurs (.output (some (.exited exit))) w (w.mapDriver fun d => { d with
        exitStatus := if d.exitStatus.isNone then some exit.code else d.exitStatus
        exitSignal := if d.exitStatus.isNone then exit.signal else d.exitSignal
        state := if d.state = .running then .draining else d.state })
  | ended {w : World} (hstate : w.driver.state.mayEmitOutput = true)
      (hchild : w.driver.child.isSome = true) :
      Occurs (.output none) w (w.mapDriver fun d => { d with
        childOutClosed := true
        child := d.child.map fun c : ChildIo => { c with outEnded := true } })
  | credit {w : World} (child : ChildIo) (n : ℕ) (rest : List ℕ)
      (hchild : w.driver.child = some child) (hconsumed : child.consumed = n :: rest) :
      Occurs .credit w ((w.observe (.credited n)).mapDriver fun d => { d with
        creditPending := saturatingAdd u32Max d.creditPending n
        bytesReceived := saturatingAdd u64Max d.bytesReceived n
        child := some { child with consumed := rest } })
  | creditsEnded {w : World} (child : ChildIo) (hchild : w.driver.child = some child)
      (hconsumed : child.consumed = []) (hpump : child.pumpAlive = false) :
      Occurs .credit w (w.mapDriver fun d => { d with consumedClosed := true })
  | woken {w : World} : Occurs .wake w w

theorem onOutput_ensures {chunk : Option ChildChunk}
    (henabled : w.enabled (.output chunk) = true) :
    (onOutput chunk).Ensures w (fun _ w' => Occurs (.output chunk) w w') fun _ _ => False := by
  simp only [World.enabled, Bool.and_eq_true, Option.isNone_iff_eq_none] at henabled
  obtain ⟨⟨⟨hnone, hstate⟩, -⟩, hended⟩ := henabled
  simp only [onOutput, ensures_bind, ensures_look]
  split
  next kind data =>
    simp only [Option.isNone_some, Bool.or_false] at hended
    split
    next hearly => exact .unsent kind data hearly
    next hearly =>
      exact .chunk kind data (Bool.eq_false_iff.2 hearly) hnone hstate hended
  next exit =>
    simp only [Option.isNone_some, Bool.or_false] at hended
    exact .exited exit hstate hended
  next =>
    refine .ended hstate ?_
    cases hchild : w.driver.child with
    | none => simp [hchild] at hended
    | some child => rfl

theorem onCredit_ensures (henabled : w.enabled .credit = true) :
    onCredit.Ensures w (fun _ w' => Occurs .credit w w') fun _ _ => False := by
  simp only [World.enabled, Bool.and_eq_true] at henabled
  obtain ⟨-, hready⟩ := henabled
  cases hchild : w.driver.child with
  | none => simp [hchild] at hready
  | some child =>
    simp only [onCredit, ensures_bind, ensures_look, hchild, Option.map_some]
    cases hconsumed : child.consumed with
    | nil =>
      have hpump : child.pumpAlive = false := by simpa [hchild, hconsumed] using hready
      exact .creditsEnded child hchild hconsumed hpump
    | cons n rest =>
      simp only [ensures_bind, note_ensures, updateDriver_ensures]
      have h := Occurs.credit child n rest hchild hconsumed
      simp only [World.mapDriver, World.observe] at h ⊢
      simpa only [hchild, Option.map_some] using h

/-! ### A step of the machine -/

/-- What one step does. A program that fails leaves the connection through the
drop of the driver. -/
inductive Turn (env : Env) : Config → Input → Config → Prop
  | flushed {w w' : World} (hidle : w.session.rekey.phase = .idle)
      (h : Relation.ReflTransGen FlushOne w w') : Turn env ⟨w, .flush⟩ .phase ⟨w', .handoff⟩
  | unflushed {w : World} (hactive : w.session.rekeyActive = true) :
      Turn env ⟨w, .flush⟩ .phase ⟨w, .handoff⟩
  | flushFailed {w w' : World} (e : TransportError) (hidle : w.session.rekey.phase = .idle)
      (h : FlushFails w w') :
      Turn env ⟨w, .flush⟩ .phase ⟨w'.emitFinished, .done (.error e)⟩
  | handedOff {w w' : World} (h : HandsOff w w') :
      Turn env ⟨w, .handoff⟩ .phase ⟨w', .settle⟩
  | settled {w w' : World} {finished : Bool} (h : Settles w finished w') :
      Turn env ⟨w, .settle⟩ .phase ⟨w', if finished then .done (.ok ()) else .waiting⟩
  | settleFailed {w w' : World} (e : TransportError) (h : SettleFails w w') :
      Turn env ⟨w, .settle⟩ .phase ⟨w'.emitFinished, .done (.error e)⟩
  | packet {w w' : World} (p : Bytes) (h : TakesPacket env p w w') :
      Turn env ⟨w, .waiting⟩ (.event (.packet p)) ⟨w', .flush⟩
  | packetFailed {w w' : World} (p : Bytes) (e : TransportError) (h : PacketFails env p w w') :
      Turn env ⟨w, .waiting⟩ (.event (.packet p)) ⟨w'.emitFinished, .done (.error e)⟩
  | occurred {w w' : World} (event : Event) (h : Occurs event w w') :
      Turn env ⟨w, .waiting⟩ (.event event) ⟨w', .flush⟩
  | readFailed {w : World} (error : ReadError) :
      Turn env ⟨w, .waiting⟩ (.event (.readFailed error))
        ⟨w.emitFinished, .done (.error error.toTransport)⟩
  | timedOut {w w' : World} (hactive : w.session.rekeyActive = true)
      (hleft : w.Left IsDisconnect w') :
      Turn env ⟨w, .waiting⟩ (.event .deadline)
        ⟨w'.emitFinished, .done (.error (.rejected .rekeyTimeout))⟩
  | pumped {w : World} {pc : Pc} (child child' : ChildIo) (step : PumpStep)
      (hpc : ∀ r, pc ≠ .done r) (hchild : w.driver.child = some child)
      (hpump : child.pump step = some child') :
      Turn env ⟨w, pc⟩ (.pump step)
        ⟨w.mapDriver fun d => { d with child := some child' }, pc⟩

/-- The two ends of a program as configurations. -/
theorem resume_cases {α : Type} {prog : DriverProg α} {next : α → World → Config}
    {ok : α → World → Prop} {err : TransportError → World → Prop} (h : prog.Ensures w ok err)
    {Q : Config → Prop} (hok : ∀ a w', ok a w' → Q (next a w'))
    (herr : ∀ e w', err e w' → Q ⟨w'.emitFinished, .done (.error e)⟩) :
    Q (resume prog w next) := by
  unfold resume
  rcases hrun : prog w with ⟨e | a, w'⟩
  · exact herr e w' (h.of_error hrun)
  · exact hok a w' (h.of_ok hrun)

theorem flushPhase_ensures :
    (flushPhase env).Ensures w
      (fun _ w' => w.session.rekey.phase = .idle ∧ Relation.ReflTransGen FlushOne w w' ∨
        w.session.rekeyActive = true ∧ w' = w)
      fun _ w' => w.session.rekey.phase = .idle ∧ FlushFails w w' := by
  simp only [flushPhase, ensures_bind, ensures_look]
  cases hactive : w.session.rekeyActive with
  | true => exact .inr ⟨rfl, rfl⟩
  | false =>
    have hidle : w.session.rekey.phase = .idle := by simpa [Session.rekeyActive] using hactive
    simp only [Bool.not_false, if_true, flushOutput, ensures_bind, ensures_look]
    exact (flushLoop_ensures _).mono (fun _ w' h => .inl ⟨hidle, h⟩) fun _ w' h => ⟨hidle, h⟩

/-- **A step of the loop** does one of the things listed. -/
theorem step_turn {c c' : Config} {input : Input} (h : c.step env input = some c') :
    Turn env c input c' := by
  obtain ⟨w, pc⟩ := c
  cases input with
  | phase =>
    cases pc with
    | flush =>
      obtain rfl := Option.some.inj h
      refine resume_cases flushPhase_ensures (fun _ w' h => ?_) fun e w' h => ?_
      · obtain ⟨hidle, hrun⟩ | ⟨hactive, rfl⟩ := h
        · exact .flushed hidle hrun
        · exact .unflushed hactive
      · exact .flushFailed e h.1 h.2
    | handoff =>
      obtain rfl := Option.some.inj h
      refine resume_cases handoffStdin_ensures (fun _ w' h => ?_)
        fun e w' h => h.elim
      exact .handedOff h
    | settle =>
      obtain rfl := Option.some.inj h
      refine resume_cases settlePhase_ensures (fun finished w' h => ?_) fun e w' h => ?_
      · exact .settled h
      · exact .settleFailed e h
    | waiting => cases h
    | done r => cases h
  | event event =>
    cases pc with
    | waiting =>
      simp only [Config.step, Option.ite_none_right_eq_some, Option.some.injEq] at h
      obtain ⟨henabled, rfl⟩ := h
      cases event with
      | packet p =>
        exact resume_cases onPacket_ensures (fun _ w' h => .packet p h)
          fun e w' h => .packetFailed p e h
      | readFailed error => exact .readFailed error
      | output chunk =>
        exact resume_cases (onOutput_ensures henabled)
          (fun _ w' h => .occurred _ h) fun e w' h => h.elim
      | credit =>
        exact resume_cases (onCredit_ensures henabled)
          (fun _ w' h => .occurred _ h) fun e w' h => h.elim
      -- The end of a re-key that took too long has no way back into the loop.
      | deadline =>
        have hleave : (onSession (rekeyTimeout env) : DriverProg Unit).Ensures w
            (fun _ _ => False)
            fun e w' => e = .rejected .rekeyTimeout ∧ w.Left IsDisconnect w' := by
          simp only [onSession, ensures_zoom]
          exact disconnect_ensures fun s' h => ⟨rfl, h⟩
        refine resume_cases hleave (fun _ w' h => h.elim) fun e w' h => ?_
        obtain ⟨rfl, hleft⟩ := h
        exact .timedOut henabled hleft
      | wake => exact .occurred _ .woken
    | flush => cases h
    | handoff => cases h
    | settle => cases h
    | done r => cases h
  | pump step =>
    -- The pumps go on wherever the loop stands, until it is done.
    have hpump : ∀ pc, (∀ r, pc ≠ Pc.done r) →
        (w.driver.child.bind fun child => child.pump step).map (fun child =>
          (⟨w.mapDriver fun d => { d with child := some child }, pc⟩ : Config)) = some c' →
        Turn env ⟨w, pc⟩ (.pump step) c' := by
      intro pc hpc hmap
      simp only [Option.map_eq_some_iff, Option.bind_eq_some_iff] at hmap
      obtain ⟨child', ⟨child, hchild, hstep⟩, rfl⟩ := hmap
      exact .pumped child child' step hpc hchild hstep
    cases pc with
    | done r => cases h
    | flush => exact hpump _ (by simp) h
    | handoff => exact hpump _ (by simp) h
    | settle => exact hpump _ (by simp) h
    | waiting => exact hpump _ (by simp) h

end QuantumSsh.Channel
