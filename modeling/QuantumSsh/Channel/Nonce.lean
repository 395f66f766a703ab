import QuantumSsh.Channel.Traffic
import Mathlib.Data.List.Nodup

/-!
# Nonces

A transmit cipher seals each packet under the next number, and the numbers start
again at the next cipher. The packet trigger starts a re-key long before they run
out, but only in the states in which the server may start one.
-/

namespace QuantumSsh.Channel

open Wire Kex Machine Program Transport

/-! ### Numbers used -/

/-- The install of the transmit cipher and the sequence number of an entry. -/
def nonceOf : Obs → Option (ℕ × ℕ)
  | .sealed f => some (f.install, f.seq)
  | _ => none

/-- The nonces used, in order. -/
def nonces (log : List Obs) : List (ℕ × ℕ) := log.filterMap nonceOf

@[simp] theorem nonces_append (log log' : List Obs) :
    nonces (log ++ log') = nonces log ++ nonces log' := List.filterMap_append

/-- The nonces used are distinct and the next one is new. -/
structure Numbered (s : Session) : Prop where
  nodup : (nonces s.log).Nodup
  used : ∀ x ∈ nonces s.log, x.1 < s.txInstalls ∨ x.1 = s.txInstalls ∧ x.2 < s.seqTx

theorem Numbered.fresh {s : Session} (h : Numbered s) : (s.txInstalls, s.seqTx) ∉ nonces s.log := by
  intro hmem
  obtain hlt | ⟨-, hlt⟩ := h.used _ hmem
  · exact Nat.lt_irrefl _ hlt
  · exact Nat.lt_irrefl _ hlt

/-- One more packet under the next nonce. -/
theorem Numbered.nodup_sealed {s : Session} (h : Numbered s) (q : Bytes) :
    (nonces (s.log ++ [.sealed (s.frame q)])).Nodup := by
  rw [nonces_append]
  refine List.nodup_append.2 ⟨h.nodup, by simp [nonces, nonceOf], fun x hx y hy hxy => ?_⟩
  obtain rfl : y = (s.txInstalls, s.seqTx) := by simpa [nonces, nonceOf, Session.frame] using hy
  exact h.fresh (hxy ▸ hx)

theorem Numbered.left {s s' : Session} {P : Bytes → Prop} (h : Numbered s) (hleft : s.Left P s') :
    (nonces s'.log).Nodup := by
  obtain hlog | ⟨q, -, hlog⟩ := hleft
  · rw [hlog]
    exact h.nodup
  · rw [hlog]
    exact h.nodup_sealed q

/-- At most `k` packets are sealed, all under one cipher; the numbers do not run out
if there were `k` left. -/
def Seals (k : ℕ) (s s' : Session) : Prop :=
  s.seqTx + k < 2 ^ 32 → Numbered s → Numbered s' ∧ s'.seqTx ≤ s.seqTx + k

namespace Seals

variable {j k : ℕ} {s s₁ s' : Session}

theorem refl (s : Session) : Seals 0 s s := fun _ h => ⟨h, Nat.le_refl _⟩

theorem trans (h : Seals j s s₁) (h' : Seals k s₁ s') : Seals (j + k) s s' := by
  intro hlt hs
  obtain ⟨hs₁, hle⟩ := h (by omega) hs
  obtain ⟨hs', hle'⟩ := h' (by omega) hs₁
  exact ⟨hs', by omega⟩

theorem mono (h : Seals j s s') (hjk : j ≤ k) : Seals k s s' := by
  intro hlt hs
  obtain ⟨hs', hle⟩ := h (by omega) hs
  exact ⟨hs', by omega⟩

/-- Nothing is sealed. -/
theorem quiet (hlog : nonces s'.log = nonces s.log) (hinstalls : s'.txInstalls = s.txInstalls)
    (hseq : s'.seqTx = s.seqTx) : Seals 0 s s' := by
  refine fun _ hs => ⟨⟨?_, ?_⟩, hseq.le⟩
  · rw [hlog]
    exact hs.nodup
  · rw [hlog, hinstalls, hseq]
    exact hs.used

theorem congr (h : Seals k s s₁) (hlog : s'.log = s₁.log) (hinstalls : s'.txInstalls = s₁.txInstalls)
    (hseq : s'.seqTx = s₁.seqTx) : Seals k s s' :=
  h.trans (.quiet (by rw [hlog]) hinstalls hseq)

theorem observe (obs : Obs) (h : nonceOf obs = none) : Seals 0 s (s.observe obs) :=
  quiet (by simp [Session.observe, nonces, h]) rfl rfl

theorem sent (tick bytesTx : ℕ) (q : Bytes) : Seals 1 s (s.sent tick bytesTx q) := by
  intro hlt hs
  have hseq : (s.sent tick bytesTx q).seqTx = s.seqTx + 1 := wrappingAdd_of_lt hlt
  refine ⟨⟨hs.nodup_sealed q, fun x hx => ?_⟩, hseq.le⟩
  have hx' : x ∈ nonces (s.log ++ [.sealed (s.frame q)]) := hx
  rw [nonces_append] at hx'
  rw [hseq]
  obtain hx | hx := List.mem_append.1 hx'
  · obtain hold | ⟨hinstall, hseq⟩ := hs.used x hx
    · exact .inl hold
    · exact .inr ⟨hinstall, by omega⟩
  · obtain rfl : x = (s.txInstalls, s.seqTx) := by simpa [nonces, nonceOf, Session.frame] using hx
    exact .inr ⟨rfl, Nat.lt_succ_self _⟩

end Seals

/-! ### How much each part of a turn seals -/

variable {env : Env} {w w' : World}

theorem Credits.seals (h : Credits w w') :
    Seals (if creditBatch ≤ w.driver.creditPending then 1 else 0) w.session w'.session := by
  cases h with
  | below hlt =>
    rw [if_neg (by omega)]
    exact .refl _
  | returned tick bytesTx hbatch =>
    rw [if_pos hbatch]
    exact .sent tick bytesTx _

theorem SentAll.seals {qs : List Bytes} (h : SentAll qs w w') :
    Seals qs.length w.session w'.session := by
  induction h with
  | nil => exact .refl _
  | cons tick bytesTx hsent ih =>
    refine ((Seals.sent tick bytesTx _).trans ih).mono ?_
    rw [List.length_cons]
    omega

theorem HandsOff.seals (h : HandsOff w w') : Seals 0 w.session w'.session := by
  have hfeeds : ∀ {w₁ : World}, Feeds w w₁ → Seals 0 w.session w₁.session := by
    intro w₁ h
    cases h with
    | queued child chunk preExec => exact .observe _ rfl
    | childless | empty | returned | dropped => exact .refl _
  cases h with
  | fed h => exact hfeeds h
  | closed h h' =>
    cases h' with
    | closed child hchild heof hnext hopen => exact (hfeeds h).trans (.observe _ rfl)

theorem Occurs.seals {event : Event} (h : Occurs event w w') :
    Seals 0 w.session w'.session := by
  cases h with
  | chunk | credit => exact .observe _ rfl
  | unsent | exited | ended | creditsEnded | woken => exact .refl _

/-- The bytes of the pending chunk not sent yet. -/
def Driver.pendingBytes (d : Driver) : ℕ := (d.pendingOut.map PendingOut.remaining).getD 0

theorem pendingBytes_le (d : Driver) : d.pendingBytes ≤ chunkBound := by
  unfold Driver.pendingBytes
  cases d.pendingOut with
  | none => exact Nat.zero_le _
  | some p => exact (Nat.sub_le _ _).trans p.buf.2.2

theorem FlushOne.pendingBytes_lt (h : FlushOne w w') :
    w'.driver.pendingBytes + 1 ≤ w.driver.pendingBytes := by
  cases h with
  | packet p n tick bytesTx hflush =>
    have hpos := hflush.pos
    have hle := hflush.le_remaining
    have hw : w.driver.pendingBytes = p.remaining := by
      simp [Driver.pendingBytes, hflush.pending]
    rw [hw]
    simp only [Driver.pendingBytes, mapDriver_driver, PendingOut.remaining] at hle ⊢
    split
    · simp only [Option.map_none, Option.getD_none]
      omega
    · simp only [Option.map_some, Option.getD_some, PendingOut.remaining, PendingOut.advance]
      omega

/-- A flush seals no more packets than there are bytes. -/
theorem FlushOnes.seals (h : Relation.ReflTransGen FlushOne w w') :
    ∃ k, Seals k w.session w'.session ∧ k + w'.driver.pendingBytes ≤ w.driver.pendingBytes := by
  induction h with
  | refl => exact ⟨0, .refl _, by omega⟩
  | tail _ hone ih =>
    obtain ⟨k, hseals, hle⟩ := ih
    have hlt := hone.pendingBytes_lt
    refine ⟨k + 1, ?_, by omega⟩
    cases hone with
    | packet p n tick bytesTx hflush => exact hseals.trans (.sent tick bytesTx _)

/-- A message handled seals one packet if it is a request, else none. -/
theorem Reacts.seals {p : Bytes} (h : Reacts p w w') :
    Seals (if isAnswerable p then 1 else 0) w.session w'.session := by
  have hhandled : Seals 0 w.session (w.session.observe (.handled p)) := .observe _ rfl
  have hstarted : Seals 0 w.session ((w.session.observe (.handled p)).observe .execStarted) :=
    hhandled.trans (.observe _ rfl)
  have hsilent : ∀ {s : Session}, Seals 0 w.session s →
      Seals (if isAnswerable p then 1 else 0) w.session s := fun h => h.mono (Nat.zero_le _)
  have hanswer : ∀ {q : Bytes} {s : Session}, RepliesTo w p q → Seals 1 w.session s →
      Seals (if isAnswerable p then 1 else 0) w.session s := by
    intro q s hq h
    rw [if_pos hq.answerable]
    exact h
  cases h with
  | silent tick => exact hsilent (hhandled.congr rfl rfl rfl)
  | answered q tick bytesTx ha =>
    exact hanswer (.answer ha) (hhandled.trans (.sent tick bytesTx q))
  | ptyGranted term tick hstate => exact hsilent (hhandled.congr rfl rfl rfl)
  | ptyAnswered term q tick bytesTx ha hmsg hstate =>
    exact hanswer (.answer ha) (hhandled.trans (.sent tick bytesTx q))
  | opened sender window maxPkt tick bytesTx hmsg hstate hmax hwindow =>
    exact hanswer (.confirmation sender hmsg hstate) (hhandled.trans (.sent tick bytesTx _))
  | started what d tick hstate hd => exact hsilent (hstarted.congr rfl rfl rfl)
  | startedAnswered what d tick₁ tick bytesTx hstate hd ha =>
    have hsent := hstarted.trans (.sent tick₁ bytesTx
      (buildChannelMsg sshMsgChannelSuccess w.driver.peerChan))
    exact hanswer (.answer ha) (hsent.congr rfl rfl rfl)
  | buffered data => exact hsilent (hhandled.trans (.observe _ rfl))
  | stashed data child => exact hsilent (hhandled.trans (.observe _ rfl))
  | unsunk data => exact hsilent (hhandled.trans (.observe _ rfl))
  | adjusted | eof | closed | closedEarly => exact hsilent hhandled

theorem ReactsAll.seals {ps : List Bytes} (h : ReactsAll ps w w') :
    Seals ps.length w.session w'.session := by
  induction h with
  | nil => exact .refl _
  | cons hone hrest ih =>
    refine (hone.seals.trans ih).mono ?_
    rw [List.length_cons]
    split <;> omega

/-! ### Ends -/

theorem Numbered.emitFinished {w : World} (h : (nonces w.session.log).Nodup) :
    (nonces w.emitFinished.session.log).Nodup := by
  have hlog : nonces w.emitFinished.session.log = nonces w.session.log := by
    unfold World.emitFinished
    split
    · simp [World.observe, Session.observe, nonces, nonceOf]
    · rfl
  rw [hlog]
  exact h

theorem Numbered.reactFails (h : Numbered w.session) {p : Bytes} (hfails : ReactFails p w w') :
    (nonces w'.session.log).Nodup := by
  have hobserve : ∀ {s : Session} (obs : Obs), nonceOf obs = none → Numbered s →
      Numbered (s.observe obs) := by
    intro s obs hobs hs
    have hlog : nonces (s.observe obs).log = nonces s.log := by
      simp [Session.observe, nonces, hobs]
    exact ⟨by rw [hlog]; exact hs.nodup, by rw [hlog]; exact hs.used⟩
  cases hfails with
  | handled hleft => exact Numbered.left (hobserve (.handled p) rfl h) hleft
  | started hstate hleft =>
    exact Numbered.left (hobserve .execStarted rfl (hobserve (.handled p) rfl h)) hleft

/-! ### The pace of the numbers -/

/-- How far the numbers may have come between re-keys, by the channel's state and the
place in the loop. Where the server may start a re-key, the trigger holds them below
2^31 at every wait; what one turn adds is a flush of at most 2^15 packets and a few
replies. -/
def ceiling : ChannelState → Pc → ℕ
  | .beforeOpen, _ | .serverClosed, _ | .closed, _ => 2 ^ 32 - 1
  | .idle, .waiting | .running, .waiting | .draining, .waiting => 2 ^ 31
  | .idle, _ => 2 ^ 32 - 7
  | .running, .flush | .draining, .flush => 2 ^ 31 + maxDeferred
  | .running, _ | .draining, _ => 2 ^ 31 + maxDeferred + chunkBound

/-- The room the numbers still have. -/
def Paced (c : Config) : Prop :=
  match c.world.session.rekey.phase with
  | .idle => c.world.session.seqTx ≤ ceiling c.world.driver.state c.pc
  | .sentKexInit _ | .awaitHybridInit _ _ _ _ => c.world.session.seqTx + 5 ≤ 2 ^ 32
  | .awaitNewKeys _ => c.world.session.seqTx = 0

/-- Where the server cannot start a re-key itself, the peer has started one before
the numbers run out. -/
def RekeysInTime (c : Config) : Input → Prop
  | .event (.packet p) => isAnswerable p = true ∨ p.head? = some sshMsgKexinit →
      c.world.session.rekey.phase = .idle → c.world.driver.state.mayRekey = false →
      c.world.session.seqTx + 8 ≤ 2 ^ 32
  | .phase => c.pc = .settle → creditBatch ≤ c.world.driver.creditPending →
      c.world.session.rekey.phase = .idle → c.world.driver.state.mayRekey = false →
      c.world.session.seqTx + 8 ≤ 2 ^ 32
  | _ => True

theorem ceiling_le (state : ChannelState) (pc : Pc) : ceiling state pc ≤ 2 ^ 32 - 1 := by
  cases state <;> cases pc <;> simp [ceiling, maxDeferred, chunkBound]

theorem ceiling_mayRekey {state : ChannelState} (h : state.mayRekey = true) (pc : Pc) :
    ceiling state pc ≤ 2 ^ 32 - 7 := by
  cases state <;> cases pc <;> simp [ceiling, maxDeferred, chunkBound, ChannelState.mayRekey] at h ⊢

theorem ceiling_waiting {state : ChannelState} (h : state.mayRekey = true) :
    ceiling state .waiting = 2 ^ 31 := by
  cases state <;> revert h <;> decide

/-- A turn that seals nothing lets the ceiling be. -/
theorem ceiling_event (state : ChannelState) : ceiling state .waiting ≤ ceiling state .flush := by
  cases state <;> decide

theorem ceiling_flush {state : ChannelState} (h : state.mayRekey = true) :
    2 ^ 31 + maxDeferred ≤ ceiling state .flush := by
  cases state <;> revert h <;> decide

theorem maxDeferred_le_ceiling (state : ChannelState) : maxDeferred ≤ ceiling state .flush := by
  cases state <;> decide

theorem ceiling_emit {state : ChannelState} (h : state.mayEmitOutput = true) :
    ceiling state .flush + chunkBound = ceiling state .handoff := by
  cases state <;> revert h <;> decide

theorem ceiling_silent {state : ChannelState} (h : state.mayEmitOutput = false) :
    ceiling state .flush = ceiling state .handoff := by
  cases state <;> revert h <;> decide

theorem ceiling_handoff (state : ChannelState) : ceiling state .handoff = ceiling state .settle := by
  cases state <;> rfl

theorem ceiling_not_mayRekey {state : ChannelState} (h : state.mayRekey = false) (pc : Pc) :
    ceiling state pc = 2 ^ 32 - 1 := by
  cases state <;> first | rfl | cases h

theorem Paced.idle {pc : Pc} (h : Paced ⟨w, pc⟩) (hphase : w.session.rekey.phase = .idle) :
    w.session.seqTx ≤ ceiling w.driver.state pc := by
  simpa only [Paced, hphase] using h

theorem paced_of_idle {pc : Pc} (hphase : w.session.rekey.phase = .idle)
    (h : w.session.seqTx ≤ ceiling w.driver.state pc) : Paced ⟨w, pc⟩ := by
  simpa only [Paced, hphase] using h

/-- Inside a re-key the place in the loop does not matter. -/
theorem Paced.active {pc pc' : Pc} (h : Paced ⟨w, pc⟩) (hseq : w'.session.seqTx = w.session.seqTx)
    (hphase : w'.session.rekey.phase = w.session.rekey.phase)
    (hactive : w.session.rekey.phase ≠ .idle) : Paced ⟨w', pc'⟩ := by
  simp only [Paced, hphase, hseq] at h ⊢
  cases hp : w.session.rekey.phase with
  | idle => exact absurd hp hactive
  | sentKexInit iS => simpa only [hp] using h
  | awaitHybridInit iC iS n skip => simpa only [hp] using h
  | awaitNewKeys newRx => simpa only [hp] using h

/-! ### One step -/

theorem flushOnes_silent (h : Relation.ReflTransGen FlushOne w w')
    (hstate : w.driver.state.mayEmitOutput = false) : w' = w := by
  obtain rfl | ⟨w₁, hone, -⟩ := Relation.ReflTransGen.cases_head h
  · rfl
  · cases hone with
    | packet p n tick bytesTx hflush =>
      rw [hflush.state] at hstate
      cases hstate

/-- Flushing keeps to the ceiling. -/
theorem Numbered.flushes (h : Numbered w.session) (hpaced : Paced ⟨w, .flush⟩)
    (hphase : w.session.rekey.phase = .idle) (hrun : Relation.ReflTransGen FlushOne w w') :
    Numbered w'.session ∧ w'.session.seqTx ≤ ceiling w'.driver.state .handoff := by
  have hle := hpaced.idle hphase
  cases hemit : w.driver.state.mayEmitOutput with
  | false =>
    obtain rfl := flushOnes_silent hrun hemit
    rw [← ceiling_silent hemit]
    exact ⟨h, hle⟩
  | true =>
    obtain ⟨k, hseals, hk⟩ := FlushOnes.seals hrun
    have hbytes := pendingBytes_le w.driver
    have hceiling := ceiling_emit hemit
    have hmax := ceiling_le w.driver.state .handoff
    obtain ⟨hnumbered, hseq⟩ := hseals (by omega) h
    rw [(FlushOnes.stance hrun).state]
    exact ⟨hnumbered, by omega⟩

/-- A batch of credit fits below the end of the numbers. -/
theorem Numbered.credits (h : Numbered w.session) (hpaced : Paced ⟨w, .settle⟩)
    (hphase : w.session.rekey.phase = .idle)
    (hin : creditBatch ≤ w.driver.creditPending → w.driver.state.mayRekey = false →
      w.session.seqTx + 8 ≤ 2 ^ 32) (hcredits : Credits w w') :
    Numbered w'.session ∧ w'.session.seqTx ≤ ceiling w.driver.state .settle + 1 ∧
      (w.driver.state.mayRekey = false → w'.session.seqTx ≤ 2 ^ 32 - 1) := by
  have hle := hpaced.idle hphase
  have hseals := hcredits.seals
  cases hrekey : w.driver.state.mayRekey with
  | true =>
    have hceiling := ceiling_mayRekey hrekey .settle
    obtain ⟨hnumbered, hseq⟩ := (hseals.mono (k := 1) (by split <;> omega)) (by omega) h
    exact ⟨hnumbered, by omega, by simp⟩
  | false =>
    have hceiling := ceiling_not_mayRekey hrekey .settle
    by_cases hbatch : creditBatch ≤ w.driver.creditPending
    · have hroom := hin hbatch hrekey
      rw [if_pos hbatch] at hseals
      obtain ⟨hnumbered, hseq⟩ := hseals (by omega) h
      exact ⟨hnumbered, by omega, fun _ => by omega⟩
    · rw [if_neg hbatch] at hseals
      obtain ⟨hnumbered, hseq⟩ := hseals (by omega) h
      exact ⟨hnumbered, by omega, fun _ => by omega⟩

/-- No re-key is due: the trigger's bound holds. -/
theorem seqTx_lt_of_not_due {now : ℕ} (hphase : w.session.rekey.phase = .idle)
    (hdue : ¬(w.session.rekeyDue now = true)) :
    w.session.seqTx < w.session.rekey.thresholds.maxPackets := by
  simp only [Session.rekeyDue, hphase, decide_true, Bool.true_and, thresholdsReached,
    Bool.or_eq_true, decide_eq_true_eq, not_or] at hdue
  omega

theorem length_terminal_le (d : Driver) : d.terminal.length ≤ 3 := by
  unfold Driver.terminal
  split
  · simp
  · cases d.exitReport <;> simp

theorem mayRekey_of_readyToClose {d : Driver} (h : d.readyToClose = true) :
    d.state.mayRekey = true := by
  simp only [Driver.readyToClose, Bool.and_eq_true, decide_eq_true_eq] at h
  simp [h.1.1, ChannelState.mayRekey]

theorem Credits.thresholds_eq (h : Credits w w') :
    w'.session.rekey.thresholds = w.session.rekey.thresholds := by
  cases h <;> rfl

theorem SentAll.thresholds_eq {qs : List Bytes} (h : SentAll qs w w') :
    w'.session.rekey.thresholds = w.session.rekey.thresholds := by
  induction h with
  | nil => rfl
  | cons tick bytesTx hsent ih => exact ih

/-- The closing sequence fits, since the trigger was not reached. -/
theorem Numbered.terminal (h : Numbered w.session) (hseq : w.session.seqTx < 2 ^ 31)
    {qs : List Bytes} (hqs : qs.length ≤ 3) (hsent : SentAll qs w w') :
    Numbered w'.session ∧ w'.session.seqTx ≤ 2 ^ 31 + 2 := by
  obtain ⟨hnumbered, hle⟩ := (hsent.seals.mono hqs) (by omega) h
  exact ⟨hnumbered, by omega⟩

/-- The numbers before the closing work: where the server may re-key, the trigger was
not reached. -/
theorem Numbered.credited (h : Numbered w.session) (hpaced : Paced ⟨w, .settle⟩)
    (htrigger : w.session.rekey.thresholds.maxPackets ≤ 2 ^ 31)
    (hidle : w.session.rekey.phase = .idle) (hin : RekeysInTime ⟨w, .settle⟩ .phase)
    (hcredits : Credits w w') {now : ℕ}
    (hdue : ¬(w'.session.rekeyDue now = true ∧ w.driver.state.mayRekey = true)) :
    Numbered w'.session ∧ (w.driver.state.mayRekey = true → w'.session.seqTx < 2 ^ 31) := by
  obtain ⟨hnumbered, -, -⟩ := h.credits hpaced hidle
    (fun hbatch hrekey => hin rfl hbatch hidle hrekey) hcredits
  refine ⟨hnumbered, fun hrekey => ?_⟩
  have hlt := @seqTx_lt_of_not_due w' now (hcredits.stance.phase.trans hidle)
    fun hd => hdue ⟨hd, hrekey⟩
  rw [hcredits.thresholds_eq] at hlt
  omega

theorem Numbered.settles (h : Numbered w.session) (hpaced : Paced ⟨w, .settle⟩)
    (htrigger : w.session.rekey.thresholds.maxPackets ≤ 2 ^ 31)
    (hin : RekeysInTime ⟨w, .settle⟩ .phase) (hsettles : Settles w false w') :
    Numbered w'.session ∧ Paced ⟨w', .waiting⟩ := by
  cases hsettles with
  | busy hactive =>
    refine ⟨h, hpaced.active rfl rfl fun hidle => ?_⟩
    simp [Session.rekeyActive, hidle] at hactive
  | rekeyed cookie tick bytesTx started trigger hidle hcredits hstate =>
    obtain ⟨hnumbered, hle, -⟩ := h.credits hpaced hidle
      (fun hbatch hrekey => hin rfl hbatch hidle hrekey) hcredits
    have hceiling := ceiling_mayRekey hstate .settle
    obtain ⟨hbegun, hseq⟩ := (Seals.sent tick bytesTx (buildRekeyKexinit cookie)) (by omega) hnumbered
    refine ⟨⟨hbegun.nodup, hbegun.used⟩, ?_⟩
    have hseq' : (Session.sent _ tick bytesTx (buildRekeyKexinit cookie)).seqTx + 5 ≤ 2 ^ 32 :=
      (Nat.add_le_add_right hseq 5).trans (by omega)
    exact hseq'
  | @closes w₁ _ _ tick now hidle hcredits hdue hcloses =>
    obtain ⟨-, hle, hother⟩ := h.credits hpaced hidle
      (fun hbatch hrekey => hin rfl hbatch hidle hrekey) hcredits
    obtain ⟨hnumbered, hbelow⟩ := h.credited hpaced htrigger hidle hin hcredits hdue
    have hphase : w₁.session.rekey.phase = .idle := hcredits.stance.phase.trans hidle
    have hstate : w₁.driver.state = w.driver.state := hcredits.stance.state
    have hnumbered' : Numbered (w₁.atTick tick).session := ⟨hnumbered.nodup, hnumbered.used⟩
    cases hcloses with
    | waiting hready hopen =>
      refine ⟨hnumbered', paced_of_idle hphase ?_⟩
      change w₁.session.seqTx ≤ ceiling w₁.driver.state .waiting
      rw [hstate]
      cases hrekey : w.driver.state.mayRekey with
      | true =>
        rw [ceiling_waiting hrekey]
        exact (hbelow hrekey).le
      | false =>
        rw [ceiling_not_mayRekey hrekey]
        exact hother hrekey
    | @half w₂ hready hearly hsent =>
      have hrekey : w.driver.state.mayRekey = true := by
        rw [← hstate]
        exact mayRekey_of_readyToClose hready
      obtain ⟨hsent', hseq⟩ := hnumbered'.terminal (hbelow hrekey) (length_terminal_le _) hsent
      refine ⟨hsent', paced_of_idle (hsent.phase_eq.trans hphase) ?_⟩
      change w₂.session.seqTx ≤ 2 ^ 32 - 1
      omega

/-- Where a message can take the channel. -/
theorem Reacts.state_cases {p : Bytes} (h : Reacts p w w') :
    w'.driver.state = w.driver.state ∨
    w'.driver.state.mayRekey = true ∧ (w.driver.state.mayRekey = true ∨
      w.driver.state = .closed ∨ isAnswerable p = true ∧ w'.driver.state = .idle) ∨
    w.driver.state = .serverClosed ∧ w'.driver.state = .closed := by
  cases h with
  | opened sender window maxPkt tick bytesTx hmsg hstate hmax hwindow =>
    exact .inr (.inl ⟨rfl, .inr (.inr ⟨by simp [isAnswerable, hmsg], rfl⟩)⟩)
  | started what d tick hstate hd =>
    refine .inr (.inl ⟨?_, .inl (by simp [hstate, ChannelState.mayRekey])⟩)
    cases hd <;> rfl
  | startedAnswered what d tick₁ tick bytesTx hstate hd ha =>
    refine .inr (.inl ⟨?_, .inl (by simp [hstate, ChannelState.mayRekey])⟩)
    cases hd <;> rfl
  | closed hmsg hstate => exact .inr (.inr ⟨hstate, rfl⟩)
  | closedEarly hmsg hstate =>
    refine .inr (.inl ⟨rfl, ?_⟩)
    cases hs : w.driver.state with
    | beforeOpen => exact absurd hs hstate.1
    | serverClosed => exact absurd hs hstate.2
    | closed => exact .inr (.inl rfl)
    | idle | running | draining => exact .inl rfl
  | silent | answered | ptyGranted | ptyAnswered | buffered | stashed | unsunk | adjusted | eof =>
    exact .inl rfl

theorem isAnswerable_of_inline {p : Bytes} (h : isInline p = true) : isAnswerable p = false := by
  by_contra hp
  rw [not_inline_of_answerable (by simpa using hp)] at h
  cases h

/-- A message handled outside a re-key. -/
theorem Numbered.reacts (h : Numbered w.session) {p : Bytes}
    (hle : w.session.seqTx ≤ ceiling w.driver.state .waiting) (hopen : w.driver.state ≠ .closed)
    (hin : isAnswerable p = true → w.driver.state.mayRekey = false →
      w.session.seqTx + 8 ≤ 2 ^ 32) (hreacts : Reacts p w w') :
    Numbered w'.session ∧ w'.session.seqTx ≤ ceiling w'.driver.state .flush := by
  have hseals := hreacts.seals
  have hceiling := ceiling_event w.driver.state
  cases hrekey : w.driver.state.mayRekey with
  | true =>
    rw [ceiling_waiting hrekey] at hle
    obtain ⟨hnumbered, hseq⟩ := (hseals.mono (k := 1) (by split <;> omega)) (by omega) h
    have hrekey' : w'.driver.state.mayRekey = true := by
      obtain hs | ⟨hs, -⟩ | ⟨hs, -⟩ := hreacts.state_cases
      · rw [hs]
        exact hrekey
      · exact hs
      · simp [hs, ChannelState.mayRekey] at hrekey
    have hroom := ceiling_flush hrekey'
    refine ⟨hnumbered, ?_⟩
    simp only [maxDeferred] at hroom
    omega
  | false =>
    have hmax := ceiling_le w.driver.state .waiting
    cases hask : isAnswerable p with
    | true =>
      rw [if_pos hask] at hseals
      have hroom := hin hask hrekey
      obtain ⟨hnumbered, hseq⟩ := hseals (by omega) h
      refine ⟨hnumbered, ?_⟩
      obtain hs | ⟨hs, hwhy⟩ | ⟨-, hs⟩ := hreacts.state_cases
      · rw [hs, ceiling_not_mayRekey hrekey]
        omega
      · obtain hr | hclosed | ⟨-, hidle⟩ := hwhy
        · rw [hrekey] at hr
          cases hr
        · exact absurd hclosed hopen
        · rw [hidle]
          change _ ≤ 2 ^ 32 - 7
          omega
      · rw [hs]
        change _ ≤ 2 ^ 32 - 1
        omega
    | false =>
      rw [if_neg (by simp [hask])] at hseals
      obtain ⟨hnumbered, hseq⟩ := hseals (by omega) h
      refine ⟨hnumbered, ?_⟩
      obtain hs | ⟨hs, hwhy⟩ | ⟨-, hs⟩ := hreacts.state_cases
      · rw [hs]
        omega
      · obtain hr | hclosed | ⟨hyes, -⟩ := hwhy
        · rw [hrekey] at hr
          cases hr
        · exact absurd hclosed hopen
        · rw [hask] at hyes
          cases hyes
      · rw [hs]
        change _ ≤ 2 ^ 32 - 1
        omega

theorem Numbered.arrived (h : Numbered w.session) (p : Bytes) : Numbered (w.arrived p).session := by
  have hlog : nonces (w.arrived p).session.log = nonces w.session.log := by
    simp [World.arrived, Session.observe, Session.receive, nonces, nonceOf]
  refine ⟨?_, ?_⟩
  · rw [hlog]
    exact h.nodup
  · rw [hlog]
    exact h.used

/-- A step of the re-key, with the room it needs. -/
theorem Numbered.rekeys {s s' : Session} (h : Numbered s) {p : Bytes} {step : RekeyStep}
    (hidle : s.rekey.phase = .idle → s.seqTx + 6 ≤ 2 ^ 32)
    (hactive : s.rekey.phase ≠ .idle → s.seqTx + 5 ≤ 2 ^ 32) (hrekeys : Rekeys env p s step s') :
    Numbered s' := by
  cases hrekeys with
  | opened cookie n tick bytesTx started hphase hmsg hn =>
    have hroom := hidle hphase
    obtain ⟨hsent, -⟩ := (Seals.sent tick bytesTx (buildRekeyKexinit cookie)) (by omega) h
    exact ⟨hsent.nodup, hsent.used⟩
  | answered | passed | skipped => exact ⟨h.nodup, h.used⟩
  | replied iC iS n tick₁ tick bytesTx₁ bytesTx r hphase hmsg =>
    have hroom := hactive (by simp [hphase])
    have hseals := (Seals.sent (s := s) tick₁ bytesTx₁ r.payload).trans
      (.sent tick bytesTx [sshMsgNewkeys])
    obtain ⟨hsent, -⟩ := hseals (by omega) h
    refine ⟨hsent.nodup, fun x hx => .inl ?_⟩
    have hold : x.1 < s.txInstalls ∨ x.1 = s.txInstalls ∧ _ := hsent.used x hx
    change x.1 < s.txInstalls + 1
    omega
  | completed newRx tick now hphase hmsg =>
    have hlog : nonces (s.log ++ [.rekeyed]) = nonces s.log := by simp [nonces, nonceOf]
    refine ⟨?_, fun x hx => ?_⟩
    · change (nonces (s.log ++ [.rekeyed])).Nodup
      rw [hlog]
      exact h.nodup
    · have hx' : x ∈ nonces (s.log ++ [.rekeyed]) := hx
      rw [hlog] at hx'
      exact h.used x hx'

theorem Paced.active_room {pc : Pc} (h : Paced ⟨w, pc⟩) (hactive : w.session.rekey.phase ≠ .idle) :
    w.session.seqTx + 5 ≤ 2 ^ 32 := by
  unfold Paced at h
  cases hphase : w.session.rekey.phase with
  | idle => exact absurd hphase hactive
  | sentKexInit iS => simpa only [hphase] using h
  | awaitHybridInit iC iS n skip => simpa only [hphase] using h
  | awaitNewKeys newRx =>
    simp only [hphase] at h
    omega

theorem Paced.seqTx_lt {c : Config} (h : Paced c) : c.world.session.seqTx < 2 ^ 32 := by
  by_cases hidle : c.world.session.rekey.phase = .idle
  · have hle := h.idle hidle
    have hceiling := ceiling_le c.world.driver.state c.pc
    omega
  · have hroom := h.active_room hidle
    omega

/-- The room for the peer's KEXINIT. -/
theorem Paced.idle_room (h : Paced ⟨w, .waiting⟩) (hidle : w.session.rekey.phase = .idle)
    (hin : w.driver.state.mayRekey = false → w.session.seqTx + 8 ≤ 2 ^ 32) :
    w.session.seqTx + 6 ≤ 2 ^ 32 := by
  cases hrekey : w.driver.state.mayRekey with
  | true =>
    have hle := h.idle hidle
    rw [ceiling_waiting hrekey] at hle
    omega
  | false =>
    have hroom := hin hrekey
    omega

/-- A step of the re-key that goes on keeps the pace. -/
theorem paced_rekeying {s : Session} {p : Bytes} {pc : Pc} (hpaced : Paced ⟨w, .waiting⟩)
    (hidle : w.session.rekey.phase = .idle → w.session.seqTx + 6 ≤ 2 ^ 32)
    (hrekeys : Rekeys env p (w.arrived p).session .continued s) :
    Paced ⟨{ w with session := s }, pc⟩ := by
  have hroom : ∀ {phase : RekeyPhase}, (w.arrived p).session.rekey.phase = phase →
      phase ≠ .idle → w.session.seqTx + 5 ≤ 2 ^ 32 :=
    fun hphase hne => hpaced.active_room fun hidle => hne (hphase.symm.trans hidle)
  cases hrekeys with
  | opened cookie n tick bytesTx started hphase hmsg hn =>
    have hle := wrappingAdd_le 32 w.session.seqTx 1
    have hroom := hidle hphase
    change wrappingAdd 32 w.session.seqTx 1 + 5 ≤ 2 ^ 32
    omega
  | answered iS n tick hphase hmsg hn =>
    have hroom := hroom hphase (by simp)
    exact hroom
  | skipped iC iS n hphase =>
    have hroom := hroom hphase (by simp)
    exact hroom
  | replied iC iS n tick₁ tick bytesTx₁ bytesTx r hphase hmsg => exact rfl

/-- When the new keys are in use, nothing was sealed under them yet. -/
theorem rekeyed_seqTx {s : Session} {p : Bytes} (hpaced : Paced ⟨w, .waiting⟩)
    (hrekeys : Rekeys env p (w.arrived p).session .completed s) :
    (w.drained s).session.seqTx = 0 ∧ (w.drained s).session.rekey.phase = .idle := by
  cases hrekeys with
  | completed newRx tick now hphase hmsg =>
    have hphase' : w.session.rekey.phase = .awaitNewKeys newRx := hphase
    simp only [Paced, hphase'] at hpaced
    exact ⟨hpaced, rfl⟩

/-- The numbers while the deferred messages are handled. -/
theorem Numbered.drains (h : Numbered w.session) (hpaced : Paced ⟨w, .waiting⟩) {p : Bytes}
    {s : Session} (hrekeys : Rekeys env p (w.arrived p).session .completed s) {ps : List Bytes}
    (hps : ps.length ≤ maxDeferred) (hdrained : ReactsAll ps (w.drained s) w') :
    Numbered w'.session ∧ w'.session.seqTx ≤ maxDeferred := by
  have hnumbered := (h.arrived p).rekeys (fun hphase => by
    cases hrekeys with
    | completed newRx tick now hphase' hmsg => rw [hphase'] at hphase; cases hphase)
    (fun hne => hpaced.active_room hne) hrekeys
  obtain ⟨hseq, -⟩ := rekeyed_seqTx hpaced hrekeys
  simp only [maxDeferred] at hps ⊢
  obtain ⟨hnumbered', hle⟩ := hdrained.seals (by omega) hnumbered
  exact ⟨hnumbered', by omega⟩

theorem Numbered.takesPacket (h : Numbered w.session) (hpaced : Paced ⟨w, .waiting⟩)
    (hdefers : Defers w) (hopen : w.driver.state ≠ .closed) {p : Bytes}
    (hin : RekeysInTime ⟨w, .waiting⟩ (.event (.packet p))) (htakes : TakesPacket env p w w') :
    Numbered w'.session ∧ Paced ⟨w', .flush⟩ := by
  have harrived := h.arrived p
  have hactive := fun hne => hpaced.active_room hne
  have hidle : w.session.rekey.phase = .idle → p.head? = some sshMsgKexinit →
      w.session.seqTx + 6 ≤ 2 ^ 32 := fun hphase hmsg =>
    hpaced.idle_room hphase fun hrekey => hin (.inr hmsg) hphase hrekey
  cases htakes with
  | handled hwhen hreacts =>
    cases hwhen with
    | idle hphase hmsg =>
      have hle : (w.arrived p).session.seqTx ≤ ceiling (w.arrived p).driver.state .waiting :=
        hpaced.idle hphase
      obtain ⟨hnumbered, hseq⟩ := harrived.reacts hle hopen
        (fun hask hrekey => hin (.inl hask) hphase hrekey) hreacts
      exact ⟨hnumbered, paced_of_idle (hreacts.phase_eq.trans hphase) hseq⟩
    | inline iS hphase hinline =>
      have hseals := hreacts.seals
      rw [if_neg (by simp [isAnswerable_of_inline hinline])] at hseals
      have hroom := hactive (by simp [hphase])
      have harrivedSeq : (w.arrived p).session.seqTx = w.session.seqTx := rfl
      obtain ⟨hnumbered, hseq⟩ := hseals (by omega) harrived
      refine ⟨hnumbered, ?_⟩
      have hphase' : w'.session.rekey.phase = .sentKexInit iS := hreacts.phase_eq.trans hphase
      simp only [Paced, hphase']
      omega
  | deferred iS hphase hmsg hinline hroom =>
    refine ⟨harrived, ?_⟩
    have hroom := hactive (by simp [hphase])
    have hphase' : ((w.arrived p).mapDriver fun d => { d with
        deferred := d.deferred ++ [p] }).session.rekey.phase = .sentKexInit iS := hphase
    simp only [Paced, hphase']
    exact hroom
  | rekeying hrekeys =>
    have hkex : w.session.rekey.phase = .idle → w.session.seqTx + 6 ≤ 2 ^ 32 := by
      intro hphase
      refine hidle hphase ?_
      have hphase' : (w.arrived p).session.rekey.phase = .idle := hphase
      cases hrekeys with
      | opened cookie n tick bytesTx started hphase'' hmsg hn => exact hmsg
      | answered iS n tick hphase'' => rw [hphase'] at hphase''; cases hphase''
      | skipped iC iS n hphase'' => rw [hphase'] at hphase''; cases hphase''
      | replied iC iS n tick₁ tick bytesTx₁ bytesTx r hphase'' =>
        rw [hphase'] at hphase''
        cases hphase''
    exact ⟨harrived.rekeys hkex hactive hrekeys, paced_rekeying hpaced hkex hrekeys⟩
  | rekeyed hrekeys hdrained =>
    obtain ⟨-, hphase⟩ := rekeyed_seqTx hpaced hrekeys
    obtain ⟨hnumbered, hle⟩ := h.drains hpaced hrekeys hdefers.length_le hdrained
    refine ⟨hnumbered, paced_of_idle (hdrained.phase_eq.trans hphase) ?_⟩
    exact hle.trans (maxDeferred_le_ceiling _)

/-! ### The ends of the loop -/

theorem Numbered.flushFails (h : Numbered w.session) (hpaced : Paced ⟨w, .flush⟩)
    (hphase : w.session.rekey.phase = .idle) (hfails : FlushFails w w') :
    (nonces w'.session.log).Nodup := by
  obtain ⟨w₁, p, n, hrun, -, hleft⟩ := hfails
  obtain ⟨hnumbered, -⟩ := h.flushes hpaced hphase hrun
  exact hnumbered.left hleft

theorem Numbered.finishes (h : Numbered w.session) (hpaced : Paced ⟨w, .settle⟩)
    (htrigger : w.session.rekey.thresholds.maxPackets ≤ 2 ^ 31)
    (hin : RekeysInTime ⟨w, .settle⟩ .phase) (hsettles : Settles w true w') :
    (nonces w'.session.log).Nodup := by
  cases hsettles with
  | @closes w₁ _ _ tick now hidle hcredits hdue hcloses =>
    obtain ⟨hnumbered, hbelow⟩ := h.credited hpaced htrigger hidle hin hcredits hdue
    have hnumbered' : Numbered (w₁.atTick tick).session := ⟨hnumbered.nodup, hnumbered.used⟩
    cases hcloses with
    | finished hready hclosed => exact Numbered.emitFinished hnumbered'.nodup
    | early hready hearly hsent =>
      have hready' : w.driver.readyToClose = true := by
        rw [← hcredits.fields.2.2.1]
        exact hready
      obtain ⟨hsent', -⟩ := hnumbered'.terminal (hbelow (mayRekey_of_readyToClose hready'))
        (length_terminal_le _) hsent
      exact Numbered.emitFinished hsent'.nodup

theorem Numbered.settleFails (h : Numbered w.session) (hpaced : Paced ⟨w, .settle⟩)
    (htrigger : w.session.rekey.thresholds.maxPackets ≤ 2 ^ 31)
    (hin : RekeysInTime ⟨w, .settle⟩ .phase) (hfails : SettleFails w w') :
    (nonces w'.session.log).Nodup := by
  cases hfails with
  | credit hidle hbatch hleft => exact h.left hleft
  | rekey w₁ cookie hidle hcredits hstate hleft =>
    obtain ⟨hnumbered, -⟩ := h.credits hpaced hidle
      (fun hbatch hrekey => hin rfl hbatch hidle hrekey) hcredits
    exact hnumbered.left hleft
  | terminal w₁ tick now hidle hcredits hdue hready hfails =>
    obtain ⟨hnumbered, hbelow⟩ := h.credited hpaced htrigger hidle hin hcredits hdue
    have hnumbered' : Numbered (w₁.atTick tick).session := ⟨hnumbered.nodup, hnumbered.used⟩
    obtain ⟨pre, q, post, w₂, hqs, hsent, hleft⟩ := hfails
    have hlength : pre.length ≤ 3 := by
      have hle := length_terminal_le w.driver
      rw [hqs, List.length_append] at hle
      omega
    obtain ⟨hsent', -⟩ := hnumbered'.terminal (hbelow (mayRekey_of_readyToClose hready))
      hlength hsent
    exact hsent'.left hleft

theorem Numbered.rekeyFails {s s' : Session} (h : Numbered s) {p : Bytes}
    (hidle : s.rekey.phase = .idle → p.head? = some sshMsgKexinit → s.seqTx + 6 ≤ 2 ^ 32)
    (hactive : s.rekey.phase ≠ .idle → s.seqTx + 5 ≤ 2 ^ 32) (hfails : RekeyFails p s s') :
    (nonces s'.log).Nodup := by
  cases hfails with
  | refused hleft => exact h.left hleft
  | opening cookie hphase hmsg hleft => exact h.left hleft
  | replying q iC iS n hphase hq hleft => exact h.left hleft
  | openedRefused cookie tick bytesTx hphase hmsg hleft =>
    have hroom := hidle hphase hmsg
    obtain ⟨hsent, -⟩ := (Seals.sent tick bytesTx (buildRekeyKexinit cookie)) (by omega) h
    exact hsent.left hleft
  | finishing q iC iS n tick bytesTx hphase hq hleft =>
    have hroom := hactive (by simp [hphase])
    obtain ⟨hsent, -⟩ := (Seals.sent tick bytesTx q) (by omega) h
    exact hsent.left hleft

theorem Numbered.packetFails (h : Numbered w.session) (hpaced : Paced ⟨w, .waiting⟩)
    (hdefers : Defers w) {p : Bytes} (hin : RekeysInTime ⟨w, .waiting⟩ (.event (.packet p)))
    (hfails : PacketFails env p w w') : (nonces w'.session.log).Nodup := by
  have harrived := h.arrived p
  cases hfails with
  | handled hwhen hfails => exact harrived.reactFails hfails
  | overflow hleft => exact harrived.left hleft
  | rekeying hfails =>
    refine harrived.rekeyFails (fun hphase hmsg => ?_) (fun hne => hpaced.active_room hne) hfails
    exact hpaced.idle_room hphase fun hrekey => hin (.inr hmsg) hphase hrekey
  | draining hrekeys hfails =>
    obtain ⟨pre, q, post, w₁, hps, hreacts, hfails⟩ := hfails
    have hlength : pre.length ≤ maxDeferred := by
      have hle := hdefers.length_le
      rw [hps, List.length_append] at hle
      omega
    obtain ⟨hnumbered, -⟩ := h.drains hpaced hrekeys hlength hreacts
    exact hnumbered.reactFails hfails

/-! ### The thresholds -/

theorem HandsOff.session_rekey (h : HandsOff w w') : w'.session.rekey = w.session.rekey := by
  have hfeeds : ∀ {w₁ : World}, Feeds w w₁ → w₁.session.rekey = w.session.rekey := by
    intro w₁ h
    cases h <;> rfl
  cases h with
  | fed h => exact hfeeds h
  | closed h h' =>
    cases h' with
    | closed child hchild heof hnext hopen =>
      have hrekey := hfeeds h
      exact hrekey

theorem FlushOnes.thresholds_eq (h : Relation.ReflTransGen FlushOne w w') :
    w'.session.rekey.thresholds = w.session.rekey.thresholds := by
  induction h with
  | refl => rfl
  | tail _ hone ih =>
    cases hone with
    | packet p n tick bytesTx hflush => exact ih

theorem Settles.thresholds_eq (h : Settles w false w') :
    w'.session.rekey.thresholds = w.session.rekey.thresholds := by
  cases h with
  | busy hactive => rfl
  | rekeyed cookie tick bytesTx started trigger hidle hcredits hstate => exact hcredits.thresholds_eq
  | closes tick now hidle hcredits hdue hcloses =>
    cases hcloses with
    | waiting hready hopen => exact hcredits.thresholds_eq
    | half hready hearly hsent => exact hsent.thresholds_eq.trans hcredits.thresholds_eq

theorem Reacts.thresholds_eq {p : Bytes} (h : Reacts p w w') :
    w'.session.rekey.thresholds = w.session.rekey.thresholds := by
  cases h <;> rfl

theorem ReactsAll.thresholds_eq {ps : List Bytes} (h : ReactsAll ps w w') :
    w'.session.rekey.thresholds = w.session.rekey.thresholds := by
  induction h with
  | nil => rfl
  | cons hone _ ih => exact ih.trans hone.thresholds_eq

theorem TakesPacket.thresholds_eq {p : Bytes} (h : TakesPacket env p w w') :
    w'.session.rekey.thresholds = w.session.rekey.thresholds := by
  have hrekeys : ∀ {step : RekeyStep} {s : Session},
      Rekeys env p (w.arrived p).session step s →
        s.rekey.thresholds = w.session.rekey.thresholds := by
    intro step s h
    cases h <;> rfl
  cases h with
  | handled hwhen hreacts => exact hreacts.thresholds_eq
  | deferred iS hphase hmsg hinline hroom => rfl
  | rekeying h => exact hrekeys h
  | rekeyed h hdrained => exact hdrained.thresholds_eq.trans (hrekeys h)

theorem Turn.thresholds_eq {c c' : Config} {input : Input} (h : Turn env c input c')
    (hlive : c'.live) :
    c'.world.session.rekey.thresholds = c.world.session.rekey.thresholds := by
  cases h with
  | flushed hidle hrun => exact FlushOnes.thresholds_eq hrun
  | unflushed hactive => rfl
  | handedOff hoff => exact congrArg RekeyState.thresholds hoff.session_rekey
  | @settled _ _ finished hsettles =>
    cases finished with
    | true => exact absurd rfl (hlive _)
    | false => exact hsettles.thresholds_eq
  | packet p htakes => exact htakes.thresholds_eq
  | occurred event hoccurs => cases hoccurs <;> rfl
  | pumped child child' step hpc hchild hpump => rfl
  | flushFailed e hidle hfails => exact absurd rfl (hlive _)
  | settleFailed e hfails => exact absurd rfl (hlive _)
  | packetFailed p e hfails => exact absurd rfl (hlive _)
  | readFailed error => exact absurd rfl (hlive _)
  | timedOut hactive hleft => exact absurd rfl (hlive _)

/-! ### Runs -/

/-- What every run in which the peer re-keys in time keeps. -/
structure Counted (c : Config) : Prop where
  nodup : (nonces c.world.session.log).Nodup
  numbered : c.live → Numbered c.world.session
  paced : c.live → Paced c
  trigger : c.live → c.world.session.rekey.thresholds.maxPackets ≤ 2 ^ 31
  defers : c.live → Defers c.world
  leaves : c.ClosedLeaves

theorem HandsOff.seqTx_eq (h : HandsOff w w') : w'.session.seqTx = w.session.seqTx := by
  have hfeeds : ∀ {w₁ : World}, Feeds w w₁ → w₁.session.seqTx = w.session.seqTx := by
    intro w₁ h
    cases h <;> rfl
  cases h with
  | fed h => exact hfeeds h
  | closed h h' =>
    cases h' with
    | closed child hchild heof hnext hopen =>
      have hseq := hfeeds h
      exact hseq

theorem Occurs.seqTx_eq {event : Event} (h : Occurs event w w') :
    w'.session.seqTx = w.session.seqTx := by
  cases h <;> rfl

theorem Occurs.ceiling_le {event : Event} (h : Occurs event w w') :
    ceiling w.driver.state .waiting ≤ ceiling w'.driver.state .flush := by
  cases h with
  | exited exit hstate hended =>
    simp only [mapDriver_driver]
    split
    next hrunning =>
      rw [hrunning]
      simp [ceiling]
    next => exact ceiling_event _
  | chunk | unsent | ended | credit | creditsEnded | woken => exact ceiling_event _

/-- The numbers after a step, while `drive` goes on and when it ends. -/
theorem Counted.numbers {c c' : Config} {input : Input} (h : Counted c)
    (hin : RekeysInTime c input) (hturn : Turn env c input c') :
    (c'.live → Numbered c'.world.session ∧ Paced c') ∧
      (nonces c'.world.session.log).Nodup := by
  have hlive := hturn.live
  -- A loop that goes on keeps its numbering; one that has ended need only not repeat a nonce.
  have hboth : ∀ {s : Session} {P : Prop}, Numbered s ∧ P → (c'.live → Numbered s ∧ P) ∧
      (nonces s.log).Nodup := fun hs => ⟨fun _ => hs, hs.1.nodup⟩
  have hended : ∀ {w : World} {r : Except TransportError Unit} {Q : Prop},
      (nonces w.session.log).Nodup → ((⟨w, .done r⟩ : Config).live → Q) ∧
        (nonces w.session.log).Nodup := fun hnodup => ⟨fun hlive => absurd rfl (hlive _), hnodup⟩
  cases hturn with
  | flushed hidle hrun =>
    obtain ⟨hnumbered, hle⟩ := (h.numbered hlive).flushes (h.paced hlive) hidle hrun
    exact hboth ⟨hnumbered, paced_of_idle ((FlushOnes.stance hrun).phase.trans hidle) hle⟩
  | unflushed hactive =>
    refine hboth ⟨h.numbered hlive, (h.paced hlive).active rfl rfl ?_⟩
    simpa [Session.rekeyActive] using hactive
  | flushFailed e hidle hfails =>
    exact hended (Numbered.emitFinished
      ((h.numbered hlive).flushFails (h.paced hlive) hidle hfails))
  | @handedOff w w' hoff =>
    have hnumbered := h.numbered hlive
    have hpaced := h.paced hlive
    have hseq := hoff.seqTx_eq
    refine hboth ⟨(hoff.seals hpaced.seqTx_lt hnumbered).1, ?_⟩
    by_cases hidle : w.session.rekey.phase = .idle
    -- The hand-off seals nothing, so only the ceiling has to be looked at.
    · refine paced_of_idle (hoff.stance.phase.trans hidle) ?_
      rw [hseq, hoff.stance.state, ← ceiling_handoff]
      exact hpaced.idle hidle
    · exact hpaced.active hseq hoff.stance.phase hidle
  | @settled w w' finished hsettles =>
    cases finished with
    | true =>
      exact hended ((h.numbered hlive).finishes (h.paced hlive) (h.trigger hlive) hin hsettles)
    | false =>
      exact hboth ((h.numbered hlive).settles (h.paced hlive) (h.trigger hlive) hin hsettles)
  | settleFailed e hfails =>
    exact hended (Numbered.emitFinished
      ((h.numbered hlive).settleFails (h.paced hlive) (h.trigger hlive) hin hfails))
  | packet p htakes =>
    have hopen := fun hs => (h.leaves hlive hs).2 rfl
    exact hboth ((h.numbered hlive).takesPacket (h.paced hlive) (h.defers hlive) hopen hin htakes)
  | packetFailed p e hfails =>
    exact hended (Numbered.emitFinished
      ((h.numbered hlive).packetFails (h.paced hlive) (h.defers hlive) hin hfails))
  | @occurred w w' event hoccurs =>
    have hpaced := h.paced hlive
    have hseq := hoccurs.seqTx_eq
    refine hboth ⟨(hoccurs.seals hpaced.seqTx_lt (h.numbered hlive)).1, ?_⟩
    by_cases hidle : w.session.rekey.phase = .idle
    · refine paced_of_idle (hoccurs.phase_eq.trans hidle) ?_
      rw [hseq]
      refine (hpaced.idle hidle).trans (hoccurs.ceiling_le)
    · exact hpaced.active hseq hoccurs.phase_eq hidle
  | readFailed error =>
    exact hended (Numbered.emitFinished h.nodup)
  | timedOut hactive hleft =>
    exact hended (Numbered.emitFinished ((h.numbered hlive).left hleft))
  | pumped child child' step hpc hchild hpump => exact hboth ⟨h.numbered hpc, h.paced hpc⟩

theorem Counted.step {c c' : Config} {input : Input} (h : Counted c)
    (hin : RekeysInTime c input) (hstep : c.step env input = some c') : Counted c' := by
  have hturn := step_turn hstep
  obtain ⟨hlive, hnodup⟩ := h.numbers hin hturn
  refine ⟨hnodup, fun hl => (hlive hl).1, fun hl => (hlive hl).2, fun hl => ?_, ?_, ?_⟩
  · rw [hturn.thresholds_eq hl]
    exact h.trigger hturn.live
  · exact Defers.turn hturn h.defers
  · exact Config.ClosedLeaves.turn h.leaves hturn

theorem counted_start {h : Handshake} (hmax : h.thresholds.maxPackets ≤ 2 ^ 31) :
    Counted (Config.start h) := by
  have hnonces : nonces (Config.start h).world.session.log =
      (List.range h.sent.length).map fun i => (0, i) := by
    have hmap : nonces (h.frames.map .sealed) = h.frames.map fun f => (f.install, f.seq) := by
      rw [nonces, List.filterMap_map]
      exact congrFun List.filterMap_eq_map _
    refine hmap.trans (List.ext_getElem ?_ fun i h₁ h₂ => ?_)
    · simp [Handshake.frames]
    · simp [Handshake.frames]
  have hnodup : (nonces (Config.start h).world.session.log).Nodup := by
    rw [hnonces]
    exact List.Nodup.map (fun i j hij => congrArg Prod.snd hij) List.nodup_range
  refine ⟨hnodup, fun _ => ⟨hnodup, fun x hx => .inr ?_⟩, fun _ => ?_, fun _ => hmax,
    fun _ => defers_start h, fun _ hclosed => by cases hclosed⟩
  · rw [hnonces, List.mem_map] at hx
    obtain ⟨i, hi, rfl⟩ := hx
    exact ⟨rfl, List.mem_range.1 hi⟩
  · have hle := h.sent_le
    simp only [maxAuthAttempts] at hle
    change h.sent.length ≤ 2 ^ 32 - 1
    omega

/-- **Nonces.** Where the peer re-keys in time whenever the server cannot, no two
packets are sealed under one cipher with the same number. -/
theorem nonces_unique {h : Handshake} {inputs : List Input} {c : Config}
    (hmax : h.thresholds.maxPackets ≤ 2 ^ 31)
    (hcond : Along (Config.step env) RekeysInTime (Config.start h) inputs)
    (hrun : Config.runs env h inputs = some c) : (nonces c.world.session.log).Nodup := by
  have hcounted : Counted c :=
    invariant_along (fun _ _ _ hinv hin hstep => hinv.step hin hstep) (counted_start hmax)
      hcond hrun
  exact hcounted.nodup

/-- A shell is asked for, the keys are exchanged, and the packet count goes on. -/
def rekeyedRun : List Input :=
  packetTurn (globalRequest true) ++ packetTurn (openSession 7 maxPacket maxPacket) ++
    packetTurn (channelRequest "shell" true) ++ packetTurn (clientKexinit kexAlgorithm false) ++
    packetTurn hybridInit ++ packetTurn [sshMsgNewkeys] ++ packetTurn (globalRequest true)

/-- There is room for a re-key and a little more. -/
def hasRoom (c : Config) (_ : Input) : Bool := c.world.session.seqTx + 8 ≤ 2 ^ 32

theorem rekeysInTime_of_check (c : Config) (input : Input) (h : hasRoom c input = true) :
    RekeysInTime c input := by
  have hroom : c.world.session.seqTx + 8 ≤ 2 ^ 32 := of_decide_eq_true h
  unfold RekeysInTime
  split
  · exact fun _ _ _ => hroom
  · exact fun _ _ _ _ => hroom
  · trivial

theorem nonces_unique_rekeyed : ∃ c, Config.runs plainEnv plainHandshake rekeyedRun = some c ∧
    (nonces c.world.session.log).length = 7 ∧ (nonces c.world.session.log).Nodup := by
  have hc : (Config.runs plainEnv plainHandshake rekeyedRun).map
      (fun c => (nonces c.world.session.log).length) = some 7 := by
    decide +kernel
  obtain ⟨c, hrun, hlength⟩ := Option.map_eq_some_iff.1 hc
  refine ⟨c, hrun, hlength, nonces_unique (Nat.le_refl _) ?_ hrun⟩
  exact along_of_check rekeysInTime_of_check (by decide +kernel)

/-! ### A channel that is never opened -/

/-- So many requests were answered, and the channel is still not open. -/
structure Unopened (n : ℕ) (c : Config) : Prop where
  pc : c.pc = .flush
  resting : Resting c.world
  state : c.world.driver.state = .beforeOpen
  install : c.world.session.txInstalls = 0
  seqTx : c.world.session.seqTx = n % 2 ^ 32
  used : nonces c.world.session.log = (List.range n).map fun i => (0, i % 2 ^ 32)

theorem Unopened.turn {n : ℕ} {c : Config} (h : Unopened n c) :
    ∃ c', run (Config.step plainEnv) c (packetTurn (globalRequest true)) = some c' ∧
      Unopened (n + 1) c' := by
  obtain ⟨w, pc⟩ := c
  obtain ⟨hpc, hresting, hstate, hinstall, hseq, hnonces⟩ := h
  obtain rfl : pc = .flush := hpc
  have hdue : w.driver.state.mayRekey = false := by
    have hstate' : w.driver.state = .beforeOpen := hstate
    simp [hstate', ChannelState.mayRekey]
  have hrun := turn_packet hresting (.inr hdue) (by decide) (handle_globalRequest willing_plainEnv)
  refine ⟨_, hrun, rfl, ?_, hstate, hinstall, ?_, ?_⟩
  · exact ⟨hresting.phase, hresting.pendingOut, hresting.fed, hresting.credit, hresting.notReady,
      hresting.notClosed⟩
  · have hseq' : w.session.seqTx = n % 2 ^ 32 := hseq
    change wrappingAdd 32 w.session.seqTx 1 = (n + 1) % 2 ^ 32
    rw [hseq', wrappingAdd, Nat.mod_add_mod]
  · have hseq' : w.session.seqTx = n % 2 ^ 32 := hseq
    have hinstall' : w.session.txInstalls = 0 := hinstall
    have hlog : nonces (w.session.log ++ [.received (globalRequest true)] ++
        [.handled (globalRequest true)] ++
        [.sealed (w.session.frame [sshMsgRequestFailure])]) =
        nonces w.session.log ++ [(w.session.txInstalls, w.session.seqTx)] := by
      simp only [nonces_append, List.append_assoc]
      rfl
    refine hlog.trans ?_
    rw [hseq', hinstall', List.range_succ, List.map_append]
    exact congrArg (· ++ [(0, n % 2 ^ 32)]) hnonces

/-- After 2^32 answers before the channel is open, the first nonce is used again. -/
theorem nonce_repeats : ∃ c, Config.runs plainEnv plainHandshake
    (List.replicate (2 ^ 32 + 1) (packetTurn (globalRequest true))).flatten = some c ∧
    plainHandshake.thresholds = RekeyThresholds.bsiDefaults (30 * 1000000000) ∧
    ¬(nonces c.world.session.log).Nodup := by
  have hstart : Unopened 0 (Config.start plainHandshake) :=
    ⟨rfl, ⟨rfl, rfl, .inl rfl, by decide, rfl, by decide⟩, rfl, rfl, rfl, rfl⟩
  obtain ⟨c, hrun, hc⟩ := run_of_cycle (P := Unopened) (N := 2 ^ 32 + 1)
    (fun n _ c hc => hc.turn) hstart
  refine ⟨c, hrun, rfl, fun hnodup => ?_⟩
  rw [hc.used] at hnodup
  have hinj := List.inj_on_of_nodup_map hnodup (x := 0) (y := 2 ^ 32) (by simp) (by simp) (by simp)
  cases hinj

end QuantumSsh.Channel
