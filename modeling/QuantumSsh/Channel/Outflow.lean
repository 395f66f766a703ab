import QuantumSsh.Channel.Output
import QuantumSsh.Channel.Window

/-!
# The outbound window

The peer announces a window when it opens the channel and adds to it later. The account
of what it has granted and of what was sent is read off the log; the driver's own window
is the difference.
-/

namespace QuantumSsh.Channel

open Wire Kex Machine Program Transport

/-! ### The account -/

/-- The account of the peer's window. -/
structure Account where
  /-- The window and the largest packet of the last CHANNEL_OPEN. -/
  asked : ℕ × ℕ
  granted : ℕ
  maxPkt : ℕ
  sent : ℕ
deriving Repr, DecidableEq

/-- The account after one more entry. A CHANNEL_OPEN counts once it is confirmed, a
WINDOW_ADJUST if it keeps what is outstanding within 32 bits. -/
def Account.enter (a : Account) : Obs → Account
  | .handled p =>
    match openOf p, adjustOf p with
    | some asked, _ => { a with asked }
    | none, some add =>
      if a.maxPkt ≠ 0 ∧ a.granted + add ≤ a.sent + u32Max then { a with granted := a.granted + add }
      else a
    | none, none => a
  | .sealed f =>
    if f.payload.head? = some sshMsgChannelOpenConfirmation then
      { a with granted := a.asked.1, maxPkt := a.asked.2 }
    else { a with sent := a.sent + ((dataOf f.payload).map fun v => v.2.length).getD 0 }
  | _ => a

/-- The account at the end of the log. -/
def account (log : List Obs) : Account := log.foldl Account.enter ⟨(0, 0), 0, 0, 0⟩

theorem account_append (log : List Obs) (e : Obs) : account (log ++ [e]) = (account log).enter e := by
  rw [account, List.foldl_append]
  rfl

/-- The payload of a data packet is not empty and no larger than it may be. -/
def Fits (maxPkt : ℕ) (q : Bytes) : Prop :=
  ∃ kind data, dataOf q = some (kind, data) ∧ data ≠ [] ∧ data.length ≤ maxPkt ∧
    data.length ≤ maxPacket

/-- No more was sent than granted, in packets that fit. -/
structure Paid (log : List Obs) : Prop where
  sent_le : (account log).sent ≤ (account log).granted
  packets : ∀ f, .sealed f ∈ log → isOneOf dataMessages f.payload = true →
    Fits (account log).maxPkt f.payload

/-- The messages the account counts when they are sealed. -/
def pricedMessages : List UInt8 := sshMsgChannelOpenConfirmation :: dataMessages

/-- What was granted and sent is as before. -/
structure SameTerms (a a' : Account) : Prop where
  granted : a'.granted = a.granted
  maxPkt : a'.maxPkt = a.maxPkt
  sent : a'.sent = a.sent

/-- The entry changes neither what was granted nor what was sent. -/
def isUnpriced : Obs → Bool
  | .sealed f => !isOneOf pricedMessages f.payload
  | .handled p => (adjustOf p).isNone
  | _ => true

theorem not_priced {q : Bytes} (h : isOneOf pricedMessages q = false) :
    q.head? ≠ some sshMsgChannelOpenConfirmation ∧ isOneOf dataMessages q = false := by
  have hsplit : pricedMessages = [sshMsgChannelOpenConfirmation] ++ dataMessages := rfl
  rw [hsplit, isOneOf_append, Bool.or_eq_false_iff] at h
  refine ⟨fun hq => ?_, h.2⟩
  simp [isOneOf, hq] at h

theorem enter_unpriced {e : Obs} (h : isUnpriced e = true) (a : Account) :
    SameTerms a (a.enter e) := by
  cases e with
  | sealed f =>
    obtain ⟨hhead, hdata⟩ := not_priced (q := f.payload) (by simpa [isUnpriced] using h)
    rw [Account.enter, if_neg hhead, dataOf_of_not_data hdata]
    exact ⟨rfl, rfl, rfl⟩
  | handled p =>
    have hadjust : adjustOf p = none := by simpa [isUnpriced] using h
    cases hopen : openOf p with
    | none =>
      simp only [Account.enter, hopen, hadjust]
      exact ⟨rfl, rfl, rfl⟩
    | some asked =>
      simp only [Account.enter, hopen]
      exact ⟨rfl, rfl, rfl⟩
  | received | rekeyed | accepted | queued | stdinEof | output | credited | execStarted
    | execFinished => exact ⟨rfl, rfl, rfl⟩

theorem account_unpriced {log log' : List Obs} (h : Grows isUnpriced log log') :
    SameTerms (account log) (account log') := by
  refine h.keeps (R := fun l => SameTerms (account log) (account l)) (fun l e he hl => ?_)
    ⟨rfl, rfl, rfl⟩
  rw [account_append]
  have hone := enter_unpriced he (account l)
  exact ⟨hone.granted.trans hl.granted, hone.maxPkt.trans hl.maxPkt, hone.sent.trans hl.sent⟩

theorem Paid.unpriced {log log' : List Obs} (h : Paid log) (hgrows : Grows isUnpriced log log') :
    Paid log' := by
  have hterms := account_unpriced hgrows
  obtain ⟨es, rfl, hes⟩ := hgrows
  refine ⟨by rw [hterms.sent, hterms.granted]; exact h.sent_le, fun f hf hdata => ?_⟩
  rw [hterms.maxPkt]
  obtain hf | hf := List.mem_append.1 hf
  · exact h.packets f hf hdata
  · have hnot : isOneOf pricedMessages f.payload = false := by simpa [isUnpriced] using hes _ hf
    rw [(not_priced hnot).2] at hdata
    cases hdata

theorem unpriced_of_utters {msgs : List UInt8} (hmsgs : ∀ msg ∈ msgs, msg ∉ pricedMessages)
    {log log' : List Obs} (h : Grows (utters msgs) log log') : Grows isUnpriced log log' := by
  refine h.mono fun e he => ?_
  cases e with
  | sealed f =>
    have hnot : isOneOf pricedMessages f.payload = false := isOneOf_disjoint hmsgs he
    simp [isUnpriced, hnot]
  | received | handled | output => cases he
  | rekeyed | accepted | queued | stdinEof | credited | execStarted | execFinished => rfl

/-! ### The driver's window -/

/-- The driver's window is what the account leaves. -/
structure Charged (w : World) : Prop where
  paid : Paid w.session.log
  window : w.driver.outWindow + (account w.session.log).sent = (account w.session.log).granted
  window_le : w.driver.outWindow ≤ u32Max
  maxPkt : w.driver.outMaxPkt = (account w.session.log).maxPkt
  unopened : w.driver.state = .beforeOpen →
    (account w.session.log).sent = 0 ∧ (account w.session.log).maxPkt = 0
  opened : w.driver.state ≠ .beforeOpen → (account w.session.log).maxPkt ≠ 0

variable {env : Env} {w w' : World}

theorem Charged.unpriced (h : Charged w) (hgrows : Grows isUnpriced w.session.log w'.session.log)
    (hwindow : w'.driver.outWindow = w.driver.outWindow)
    (hmax : w'.driver.outMaxPkt = w.driver.outMaxPkt)
    (hstate : w'.driver.state = .beforeOpen ↔ w.driver.state = .beforeOpen) : Charged w' := by
  have hterms := account_unpriced hgrows
  refine ⟨h.paid.unpriced hgrows, ?_, ?_, ?_, fun hs => ?_, fun hs => ?_⟩
  · rw [hterms.sent, hterms.granted, hwindow]
    exact h.window
  · rw [hwindow]
    exact h.window_le
  · rw [hterms.maxPkt, hmax]
    exact h.maxPkt
  · rw [hterms.sent, hterms.maxPkt]
    exact h.unopened (hstate.1 hs)
  · rw [hterms.maxPkt]
    exact h.opened fun hs' => hs (hstate.2 hs')

/-- A data packet is entered. -/
theorem account_data {log : List Obs} {f : Frame} {kind : Stream} {data : Bytes}
    (hdata : dataOf f.payload = some (kind, data))
    (hhead : f.payload.head? ≠ some sshMsgChannelOpenConfirmation) :
    account (log ++ [.sealed f]) =
      { account log with sent := (account log).sent + data.length } := by
  rw [account_append, Account.enter, if_neg hhead, hdata]
  rfl

theorem Charged.data (h : Charged w) {p : PendingOut} {n : ℕ} (hflush : Flushable w p n) :
    account (w.session.log ++ [.sealed (w.session.frame (w.dataFrame p n))]) =
      { account w.session.log with sent := (account w.session.log).sent + n } ∧
    Paid (w.session.log ++ [.sealed (w.session.frame (w.dataFrame p n))]) := by
  have hlength : (p.slice n).length = n := length_slice hflush.le_remaining
  have hdata : dataOf (w.dataFrame p n) = some (p.kind, p.slice n) :=
    dataOf_buildDataFrame _ _ (hlength.trans_le hflush.le_maxPacket)
  have hhead : (w.dataFrame p n).head? ≠ some sshMsgChannelOpenConfirmation := by
    intro hq
    have hdata := head_dataFrame w p n
    rw [isOneOf, hq] at hdata
    exact absurd hdata (by decide)
  have haccount := @account_data w.session.log (w.session.frame (w.dataFrame p n)) _ _ hdata hhead
  rw [hlength] at haccount
  have hwindow := h.window
  have hle := hflush.le_window
  refine ⟨haccount, ?_, fun f hf hd => ?_⟩
  · rw [haccount]
    change (account w.session.log).sent + n ≤ (account w.session.log).granted
    omega
  · rw [haccount]
    obtain hf | hf := List.mem_append.1 hf
    · exact h.paid.packets f hf hd
    · obtain rfl := Obs.sealed.inj (List.mem_singleton.1 hf)
      refine ⟨p.kind, p.slice n, hdata, ?_, ?_, ?_⟩
      · intro hnil
        have hpos := hflush.pos
        rw [hnil, List.length_nil] at hlength
        omega
      · rw [hlength]
        exact hflush.le_maxPkt.trans h.maxPkt.le
      · rw [hlength]
        exact hflush.le_maxPacket

theorem Charged.flushOne (h : Charged w) (hone : FlushOne w w') : Charged w' := by
  cases hone with
  | packet p n tick bytesTx hflush =>
    obtain ⟨haccount, hpaid⟩ := h.data hflush
    have hwindow := h.window
    have hle := hflush.le_window
    have hopen : w.driver.state ≠ .beforeOpen := (mayEmitOutput_live hflush.state).1
    refine ⟨hpaid, ?_, ?_, ?_, fun hs => absurd hs hopen, fun _ => ?_⟩
    · change w.driver.outWindow - n + (account (_ ++ [_])).sent = (account (_ ++ [_])).granted
      rw [haccount]
      change w.driver.outWindow - n + ((account w.session.log).sent + n) =
        (account w.session.log).granted
      omega
    · exact (Nat.sub_le _ _).trans h.window_le
    · change w.driver.outMaxPkt = (account (_ ++ [_])).maxPkt
      rw [haccount]
      exact h.maxPkt
    · change (account (_ ++ [_])).maxPkt ≠ 0
      rw [haccount]
      exact h.opened hopen

theorem Charged.flushes (h : Charged w) (hrun : Relation.ReflTransGen FlushOne w w') :
    Charged w' := by
  induction hrun with
  | refl => exact h
  | tail _ hone ih => exact ih.flushOne hone

/-! ### One step -/

theorem adjustOf_eq_none {p : Bytes} (h : p.head? ≠ some sshMsgChannelWindowAdjust) :
    adjustOf p = none := by
  cases hp : adjustOf p with
  | none => rfl
  | some add => exact absurd (head_of_adjustOf hp) h

theorem not_priced_of_answers {p q : Bytes} (h : Answers w p q) :
    isOneOf pricedMessages q = false := by
  cases h with
  | globalRequest hmsg => rfl
  | channelOpen sender code desc hmsg => rfl
  | channelRequest msg hmsg hwants hstate hreply => obtain rfl | rfl := hreply <;> rfl

theorem Answers.not_adjust {p q : Bytes} (h : Answers w p q) :
    p.head? ≠ some sshMsgChannelWindowAdjust := by
  cases h with
  | globalRequest hmsg => simp [hmsg, sshMsgGlobalRequest, sshMsgChannelWindowAdjust]
  | channelOpen sender code desc hmsg => simp [hmsg, sshMsgChannelOpen, sshMsgChannelWindowAdjust]
  | channelRequest msg hmsg => simp [hmsg, sshMsgChannelRequest, sshMsgChannelWindowAdjust]

theorem grows_handled {p : Bytes} (h : p.head? ≠ some sshMsgChannelWindowAdjust) :
    Grows isUnpriced w.session.log (w.observe (.handled p)).session.log :=
  .one (by simp [isUnpriced, adjustOf_eq_none h]) rfl

theorem grows_answered {p q : Bytes} (h : Answers w p q) (s : Session) (tick bytesTx : ℕ) :
    Grows isUnpriced s.log (s.sent tick bytesTx q).log := by
  have hq : isUnpriced (.sealed (s.frame q)) = true := by
    simp [isUnpriced, Session.frame, not_priced_of_answers h]
  exact .one hq rfl

/-- The channel is opened. -/
theorem Charged.opens (h : Charged w) {p : Bytes} {f : Frame} {window maxPkt : ℕ}
    (hstate : w.driver.state = .beforeOpen) (hread : openOf p = some (window, maxPkt))
    (hmax : maxPkt ≠ 0) (hwindow : window < 2 ^ 32)
    (hf : f.payload.head? = some sshMsgChannelOpenConfirmation)
    (hlog : w'.session.log = w.session.log ++ [.handled p] ++ [.sealed f])
    (hout : w'.driver.outWindow = window ∧ w'.driver.outMaxPkt = maxPkt ∧
      w'.driver.state = .idle) : Charged w' := by
  obtain ⟨hsent, hzero⟩ := h.unopened hstate
  have haccount : account w'.session.log = ⟨(window, maxPkt), window, maxPkt, 0⟩ := by
    rw [hlog, account_append, account_append]
    simp only [Account.enter, hread, hsent, if_pos hf]
  refine ⟨⟨?_, fun f' hf' hdata => ?_⟩, ?_, ?_, ?_, fun hs => ?_, fun _ => ?_⟩
  · rw [haccount]
    exact Nat.zero_le _
  · -- Nothing was sent on a channel that was not open.
    have hmem : Obs.sealed f' ∈ w.session.log := by
      rw [hlog] at hf'
      have hne : f' ≠ f := by
        rintro rfl
        rw [isOneOf, hf] at hdata
        exact absurd hdata (by decide)
      simpa [hne] using hf'
    obtain ⟨kind, data, -, hne, hle, -⟩ := h.paid.packets f' hmem hdata
    rw [hzero, Nat.le_zero, List.length_eq_zero_iff] at hle
    exact absurd hle hne
  · rw [haccount, hout.1]
    rfl
  · rw [hout.1, u32Max]
    omega
  · rw [haccount, hout.2.1]
  · rw [hout.2.2] at hs
    cases hs
  · rw [haccount]
    exact hmax

/-- The window is added to. -/
theorem Charged.adjusts (h : Charged w) {p : Bytes} {add : ℕ}
    (hstate : w.driver.state ≠ .beforeOpen) (hread : adjustOf p = some add)
    (hadd : w.driver.outWindow + add ≤ u32Max) :
    Charged ((w.observe (.handled p)).mapDriver fun d => { d with
      outWindow := d.outWindow + add }) := by
  have hopen : openOf p = none := by
    cases hopen : openOf p with
    | none => rfl
    | some asked =>
      have hhead := (head_of_openOf hopen).symm.trans (head_of_adjustOf hread)
      exact absurd hhead (by decide)
  have hwindow := h.window
  have haccount : account (w.session.log ++ [.handled p]) =
      { account w.session.log with granted := (account w.session.log).granted + add } := by
    rw [account_append, Account.enter]
    simp only [hopen, hread]
    rw [if_pos ⟨h.opened hstate, by omega⟩]
  refine ⟨⟨?_, fun f hf hdata => ?_⟩, ?_, hadd, ?_, fun hs => absurd hs hstate, fun _ => ?_⟩
  · change (account (_ ++ [_])).sent ≤ (account (_ ++ [_])).granted
    rw [haccount]
    change (account w.session.log).sent ≤ (account w.session.log).granted + add
    omega
  · change Fits (account (w.session.log ++ [.handled p])).maxPkt f.payload
    rw [haccount]
    have hmem : Obs.sealed f ∈ w.session.log := by
      have hf' : Obs.sealed f ∈ w.session.log ++ [.handled p] := hf
      simpa using hf'
    exact h.paid.packets f hmem hdata
  · change w.driver.outWindow + add + (account (_ ++ [_])).sent = (account (_ ++ [_])).granted
    rw [haccount]
    change w.driver.outWindow + add + (account w.session.log).sent =
      (account w.session.log).granted + add
    omega
  · change w.driver.outMaxPkt = (account (_ ++ [_])).maxPkt
    rw [haccount]
    exact h.maxPkt
  · change (account (_ ++ [_])).maxPkt ≠ 0
    rw [haccount]
    exact h.opened hstate

theorem Charged.reacts (h : Charged w) {p : Bytes} (hreacts : Reacts p w w') : Charged w' := by
  have hhead : ∀ {msg : UInt8}, p.head? = some msg → msg ≠ sshMsgChannelWindowAdjust →
      Grows isUnpriced w.session.log (w.observe (.handled p)).session.log := by
    intro msg hmsg hne
    refine grows_handled fun hadjust => hne ?_
    exact Option.some.inj (hmsg.symm.trans hadjust)
  cases hreacts with
  | silent tick hquiet => exact h.unpriced (grows_handled hquiet) rfl rfl Iff.rfl
  | answered q tick bytesTx ha =>
    exact h.unpriced ((grows_handled ha.not_adjust).trans (grows_answered ha _ tick bytesTx))
      rfl rfl Iff.rfl
  | ptyGranted term tick hstate hmsg => exact h.unpriced (hhead hmsg (by decide)) rfl rfl Iff.rfl
  | ptyAnswered term q tick bytesTx ha hmsg hstate =>
    exact h.unpriced ((grows_handled ha.not_adjust).trans (grows_answered ha _ tick bytesTx))
      rfl rfl Iff.rfl
  | opened sender window maxPkt tick bytesTx hmsg hstate hmax hwindow hread =>
    exact h.opens (f := w.session.frame (buildOpenConfirmation sender)) hstate hread hmax hwindow
      rfl rfl ⟨rfl, rfl, rfl⟩
  | started what d tick hstate hd hmsg =>
    have hlog : Grows isUnpriced w.session.log
        ((w.observe (.handled p)).observe .execStarted).session.log :=
      (hhead hmsg (by decide)).trans (.one rfl rfl)
    cases hd <;> exact h.unpriced hlog rfl rfl (by simp [hstate, Driver.spawned, Driver.spawnFailed])
  | startedAnswered what d tick₁ tick bytesTx hstate hd ha =>
    have hlog : Grows isUnpriced w.session.log
        (((w.observe (.handled p)).observe .execStarted).session.sent tick₁ bytesTx
          (buildChannelMsg sshMsgChannelSuccess w.driver.peerChan)).log :=
      ((grows_handled ha.not_adjust).trans (.one rfl rfl)).trans (grows_answered ha _ tick₁ bytesTx)
    cases hd <;> exact h.unpriced hlog rfl rfl (by simp [hstate, Driver.spawned, Driver.spawnFailed])
  | buffered data hmsg | stashed data child hmsg | unsunk data hmsg =>
    exact h.unpriced ((hhead hmsg (by decide)).trans (.one rfl rfl)) rfl rfl Iff.rfl
  | adjusted add hmsg hstate hadd hread => exact h.adjusts hstate hread hadd
  | eof hmsg hstate => exact h.unpriced (hhead hmsg (by decide)) rfl rfl Iff.rfl
  | closed hmsg hstate =>
    exact h.unpriced (hhead hmsg (by decide)) rfl rfl (by simp [hstate])
  | closedEarly hmsg hstate =>
    exact h.unpriced (hhead hmsg (by decide)) rfl rfl (by simp [Driver.closedEarly, hstate.1])

theorem Charged.reactsAll (h : Charged w) {ps : List Bytes} (hreacts : ReactsAll ps w w') :
    Charged w' := by
  induction hreacts with
  | nil => exact h
  | cons hone _ ih => exact ih (h.reacts hone)

theorem Charged.arrived (h : Charged w) (p : Bytes) : Charged (w.arrived p) :=
  h.unpriced (.one rfl rfl) rfl rfl Iff.rfl

theorem Charged.takesPacket (h : Charged w) {p : Bytes} (htakes : TakesPacket env p w w') :
    Charged w' := by
  have harrived := h.arrived p
  have hrekeys : ∀ {step : RekeyStep} {s : Session}, Rekeys env p (w.arrived p).session step s →
      Grows isUnpriced (w.arrived p).session.log s.log :=
    fun hs => unpriced_of_utters (by decide) (rekeys_grows hs)
  cases htakes with
  | handled hwhen hreacts => exact harrived.reacts hreacts
  | deferred iS hphase hmsg hinline hroom => exact harrived.unpriced (.refl _ _) rfl rfl Iff.rfl
  | rekeying hs => exact harrived.unpriced (hrekeys hs) rfl rfl Iff.rfl
  | @rekeyed s _ hs hdrained =>
    have hnew : Charged (w.drained s) := harrived.unpriced (hrekeys hs) rfl rfl Iff.rfl
    exact hnew.reactsAll hdrained

theorem Charged.settles (h : Charged w) (hsettles : Settles w false w') : Charged w' := by
  have hgrows := unpriced_of_utters (by decide) hsettles.grows
  have hcredit : ∀ {w₁ : World}, Credits w w₁ → w₁.driver.outWindow = w.driver.outWindow ∧
      w₁.driver.outMaxPkt = w.driver.outMaxPkt ∧ w₁.driver.state = w.driver.state := by
    intro w₁ hcredits
    cases hcredits <;> exact ⟨rfl, rfl, rfl⟩
  cases hsettles with
  | busy hactive => exact h
  | rekeyed cookie tick bytesTx started trigger hidle hcredits hstate =>
    obtain ⟨hwindow, hmax, hs⟩ := hcredit hcredits
    exact h.unpriced hgrows hwindow hmax (by rw [← hs])
  | @closes w₁ _ _ tick now hidle hcredits hdue hcloses =>
    obtain ⟨hwindow, hmax, hs⟩ := hcredit hcredits
    cases hcloses with
    | waiting hready hopen => exact h.unpriced hgrows hwindow hmax (by rw [← hs]; rfl)
    | @half w₂ hready hearly hsent =>
      have hdriver : w₂.driver = w₁.driver := hsent.driver_eq
      have hlive : w.driver.state ≠ .beforeOpen := by
        rw [← hs]
        exact (readyToClose_live hready).1
      refine h.unpriced hgrows ?_ ?_ (by simp [hlive])
      · rw [mapDriver_driver, hdriver]
        exact hwindow
      · rw [mapDriver_driver, hdriver]
        exact hmax

theorem Charged.occurs (h : Charged w) {event : Event} (hoccurs : Occurs event w w') :
    Charged w' := by
  cases hoccurs with
  | exited exit hstate hended =>
    refine h.unpriced (.refl _ _) rfl rfl ?_
    have hlive := (mayEmitOutput_live hstate).1
    simp only [mapDriver_driver]
    split
    · simp [hlive]
    · exact Iff.rfl
  | chunk | credit => exact h.unpriced (.one rfl rfl) rfl rfl Iff.rfl
  | unsent | ended | creditsEnded | woken => exact h.unpriced (.refl _ _) rfl rfl Iff.rfl

theorem HandsOff.out_eq (h : HandsOff w w') : w'.driver.outWindow = w.driver.outWindow ∧
    w'.driver.outMaxPkt = w.driver.outMaxPkt := by
  have hfeeds : ∀ {w₁ : World}, Feeds w w₁ → w₁.driver.outWindow = w.driver.outWindow ∧
      w₁.driver.outMaxPkt = w.driver.outMaxPkt := by
    intro w₁ h
    cases h <;> exact ⟨rfl, rfl⟩
  cases h with
  | fed h => exact hfeeds h
  | closed h h' =>
    have hfed := hfeeds h
    cases h' with
    | closed child hchild heof hnext hopen => exact hfed

/-! ### The ends of the loop -/

theorem paid_emitFinished (h : Paid w.session.log) : Paid w.emitFinished.session.log :=
  h.unpriced (unpriced_of_utters (by simp) (emitFinished_grows w))

theorem Charged.flushFails (h : Charged w) (hfails : FlushFails w w') : Paid w'.session.log := by
  obtain ⟨w₁, p, n, hrun, hflush, hleft⟩ := hfails
  have hcharged := h.flushes hrun
  obtain hlog | ⟨q, rfl, hlog⟩ := hleft
  · rw [hlog]
    exact hcharged.paid
  · rw [hlog]
    exact (hcharged.data hflush).2

/-- A message was taken up, whatever came of it. -/
theorem Charged.paid_handled (h : Charged w) (p : Bytes) :
    Paid (w.observe (.handled p)).session.log ∧
      (account (w.observe (.handled p)).session.log).sent = (account w.session.log).sent ∧
      (account (w.observe (.handled p)).session.log).maxPkt = (account w.session.log).maxPkt := by
  have hterms : (account (w.session.log ++ [.handled p])).sent = (account w.session.log).sent ∧
      (account (w.session.log ++ [.handled p])).maxPkt = (account w.session.log).maxPkt ∧
      (account w.session.log).granted ≤ (account (w.session.log ++ [.handled p])).granted := by
    rw [account_append, Account.enter]
    split
    · exact ⟨rfl, rfl, Nat.le_refl _⟩
    · split
      · exact ⟨rfl, rfl, Nat.le_add_right _ _⟩
      · exact ⟨rfl, rfl, Nat.le_refl _⟩
    · exact ⟨rfl, rfl, Nat.le_refl _⟩
  obtain ⟨hsent, hmax, hgranted⟩ := hterms
  refine ⟨⟨?_, fun f hf hdata => ?_⟩, hsent, hmax⟩
  · change (account (w.session.log ++ [.handled p])).sent ≤
      (account (w.session.log ++ [.handled p])).granted
    rw [hsent]
    exact h.paid.sent_le.trans hgranted
  · change Fits (account (w.session.log ++ [.handled p])).maxPkt f.payload
    rw [hmax]
    have hf' : Obs.sealed f ∈ w.session.log ++ [.handled p] := hf
    exact h.paid.packets f (by simpa using hf') hdata

/-- The confirmation of a channel on which nothing was sent. -/
theorem Paid.confirms {log : List Obs} {f : Frame} (h : Paid log)
    (hf : f.payload.head? = some sshMsgChannelOpenConfirmation) (hsent : (account log).sent = 0)
    (hmax : (account log).maxPkt = 0) : Paid (log ++ [.sealed f]) := by
  refine ⟨?_, fun f' hf' hdata => ?_⟩
  · rw [account_append, Account.enter, if_pos hf]
    exact hsent.trans_le (Nat.zero_le _)
  · obtain hmem | hmem := List.mem_append.1 hf'
    · obtain ⟨kind, data, -, hne, hle, -⟩ := h.packets f' hmem hdata
      rw [hmax, Nat.le_zero, List.length_eq_zero_iff] at hle
      exact absurd hle hne
    · obtain rfl := Obs.sealed.inj (List.mem_singleton.1 hmem)
      rw [isOneOf, hf] at hdata
      exact absurd hdata (by decide)

theorem Charged.reactFails (h : Charged w) {p : Bytes} (hfails : ReactFails p w w') :
    Paid w'.session.log := by
  obtain ⟨hpaid, hsent, hmax⟩ := h.paid_handled p
  have hword : ∀ {w₁ : World}, Grows isUnpriced (w.observe (.handled p)).session.log w₁.session.log →
      w₁.Left (LastWord w p) w' → Paid w'.session.log := by
    intro w₁ hgrows hleft
    have hpaid₁ := hpaid.unpriced hgrows
    have hterms := account_unpriced hgrows
    obtain hlog | ⟨q, hq, hlog⟩ := hleft
    · rw [hlog]
      exact hpaid₁
    · rw [hlog]
      have hquiet : isOneOf pricedMessages q = false →
          Paid (w₁.session.log ++ [.sealed (w₁.session.frame q)]) :=
        fun hnot => hpaid₁.unpriced (.one (by simp [isUnpriced, Session.frame, hnot]) rfl)
      cases hq with
      | disconnect hq =>
        have hhead : q.head? = some Kex.sshMsgDisconnect := hq
        exact hquiet (by rw [isOneOf, hhead]; rfl)
      | answer ha => exact hquiet (not_priced_of_answers ha)
      | confirmation sender hmsg hstate =>
        refine hpaid₁.confirms rfl ?_ ?_
        · rw [hterms.sent, hsent]
          exact (h.unopened hstate).1
        · rw [hterms.maxPkt, hmax]
          exact (h.unopened hstate).2
  cases hfails with
  | handled hleft => exact hword (.refl _ _) hleft
  | started hstate hleft => exact hword (.one rfl rfl) hleft

theorem Charged.packetFails (h : Charged w) {p : Bytes} (hfails : PacketFails env p w w') :
    Paid w'.session.log := by
  have harrived := h.arrived p
  cases hfails with
  | handled hwhen hfails => exact harrived.reactFails hfails
  | overflow hleft =>
    exact harrived.paid.unpriced (unpriced_of_utters (by decide) (grows_disconnect hleft))
  | rekeying hfails =>
    exact harrived.paid.unpriced
      (unpriced_of_utters (by decide) (rekeyFails_grows (w := w.arrived p) hfails))
  | @draining s hs hfails =>
    obtain ⟨pre, q, post, w₁, -, hreacts, hfails⟩ := hfails
    have hnew : Charged (w.drained s) :=
      harrived.unpriced (unpriced_of_utters (by decide) (rekeys_grows hs)) rfl rfl Iff.rfl
    exact (hnew.reactsAll hreacts).reactFails hfails

/-! ### Runs -/

/-- What every run keeps. -/
structure Controlled (c : Config) : Prop where
  paid : Paid c.world.session.log
  charged : c.live → Charged c.world

theorem Controlled.turn {c c' : Config} {input : Input} (h : Controlled c)
    (hturn : Turn env c input c') : Controlled c' := by
  have hcharged := h.charged hturn.live
  have hlive : ∀ {w : World} {pc : Pc}, Charged w → Controlled ⟨w, pc⟩ :=
    fun hw => ⟨hw.paid, fun _ => hw⟩
  have hdone : ∀ {w : World} {r : Except TransportError Unit}, Paid w.session.log →
      Controlled ⟨w, .done r⟩ := fun hw => ⟨hw, fun hl => absurd rfl (hl _)⟩
  cases hturn with
  | flushed hidle hrun => exact hlive (hcharged.flushes hrun)
  | unflushed hactive => exact hlive hcharged
  | flushFailed e hidle hfails => exact hdone (paid_emitFinished (hcharged.flushFails hfails))
  | handedOff hoff =>
    have hgrows := unpriced_of_utters (by simp) hoff.grows
    exact hlive (hcharged.unpriced hgrows hoff.out_eq.1 hoff.out_eq.2 (by rw [hoff.stance.state]))
  | @settled _ _ finished hsettles =>
    cases finished with
    | true => exact hdone (hcharged.paid.unpriced (unpriced_of_utters (by decide) hsettles.grows))
    | false => exact hlive (hcharged.settles hsettles)
  | settleFailed e hfails =>
    exact hdone (paid_emitFinished
      (hcharged.paid.unpriced (unpriced_of_utters (by decide) hfails.grows)))
  | packet p htakes => exact hlive (hcharged.takesPacket htakes)
  | packetFailed p e hfails => exact hdone (paid_emitFinished (hcharged.packetFails hfails))
  | occurred event hoccurs => exact hlive (hcharged.occurs hoccurs)
  | readFailed error => exact hdone (paid_emitFinished h.paid)
  | timedOut hactive hleft =>
    exact hdone (paid_emitFinished
      (h.paid.unpriced (unpriced_of_utters (by decide) (grows_disconnect hleft))))
  | pumped child child' step hpc hchild hpump =>
    exact hlive (hcharged.unpriced (.refl _ _) rfl rfl Iff.rfl)

theorem controlled_start (h : Handshake) : Controlled (Config.start h) := by
  have hgrows : Grows isUnpriced [] (Config.start h).world.session.log := by
    refine ⟨h.frames.map .sealed, rfl, fun e he => ?_⟩
    obtain ⟨f, hf, rfl⟩ := List.mem_map.1 he
    obtain ⟨i, hi, rfl⟩ := List.mem_mapIdx.1 hf
    obtain ⟨msg, hmsg, hhead⟩ := h.sent_msg _ (List.getElem_mem hi)
    have hne : ∀ msg ∈ handshakeMessages, msg ∉ pricedMessages := by decide
    have hnot : isOneOf pricedMessages h.sent[i] = false := by simpa [isOneOf, hhead] using hne msg hmsg
    simp [isUnpriced, hnot]
  have hempty : Paid [] := ⟨Nat.le_refl _, by simp⟩
  have hterms := account_unpriced hgrows
  refine ⟨hempty.unpriced hgrows, fun _ => ⟨hempty.unpriced hgrows, ?_, Nat.zero_le _, ?_,
    fun _ => ⟨hterms.sent, hterms.maxPkt⟩, fun hs => absurd rfl hs⟩⟩
  · rw [hterms.sent, hterms.granted]
    rfl
  · rw [hterms.maxPkt]
    rfl

/-! ### Adjusts beyond 32 bits -/

/-- The packet ends the connection. -/
def Config.EndsOn (env : Env) (p : Bytes) (c : Config) : Prop :=
  ∃ w e, c.step env (.event (.packet p)) = some ⟨w, .done (.error e)⟩

theorem not_reacts_overflow {p : Bytes} {add : ℕ} (hread : adjustOf p = some add)
    (hover : u32Max < w.driver.outWindow + add) : ¬Reacts p w w' := by
  intro hreacts
  have hhead := head_of_adjustOf hread
  have hother : ∀ {msg : UInt8}, p.head? = some msg → msg = sshMsgChannelWindowAdjust :=
    fun hmsg => Option.some.inj (hmsg.symm.trans hhead)
  cases hreacts with
  | silent tick hquiet => exact hquiet hhead
  | answered q tick bytesTx ha | ptyAnswered term q tick bytesTx ha => exact ha.not_adjust hhead
  | startedAnswered what d tick₁ tick bytesTx hstate hd ha => exact ha.not_adjust hhead
  | ptyGranted term tick hstate hmsg => exact absurd (hother hmsg) (by decide)
  | opened sender window maxPkt tick bytesTx hmsg => exact absurd (hother hmsg) (by decide)
  | started what d tick hstate hd hmsg => exact absurd (hother hmsg) (by decide)
  | buffered data hmsg | stashed data child hmsg | unsunk data hmsg | eof hmsg | closed hmsg
    | closedEarly hmsg => exact absurd (hother hmsg) (by decide)
  | adjusted add' hmsg hstate hadd hread' =>
    obtain rfl : add = add' := Option.some.inj (hread.symm.trans hread')
    omega

/-- A packet in the place of a guess does not end the connection. -/
theorem not_endsOn_of_guess {p : Bytes} (hguess : AwaitsGuess w.session) :
    ¬Config.EndsOn env p ⟨w, .waiting⟩ := by
  rintro ⟨w', e, hstep⟩
  rw [step_packet_resume, Option.some.injEq] at hstep
  have hgoes : (resume (onPacket env p) w fun _ w' => ⟨w', .flush⟩).pc = .flush :=
    resume_cases (Q := fun c => c.pc = .flush) (onPacket_guess hguess) (fun _ _ _ => rfl)
      fun _ _ h => h.elim
  rw [hstep] at hgoes
  cases hgoes

/-- A packet that cannot be taken ends the connection. -/
theorem endsOn_of_not_takes {p : Bytes} (h : ∀ w', ¬TakesPacket env p w w') :
    Config.EndsOn env p ⟨w, .waiting⟩ := by
  rw [Config.EndsOn, step_packet_resume]
  exact resume_cases (Q := fun c => ∃ w' e, some c = some ⟨w', .done (.error e)⟩)
    onPacket_ensures (fun _ w' htakes => absurd htakes (h w')) fun e w' _ => ⟨_, e, rfl⟩

/-- Which adjust beyond 32 bits ends the connection. -/
theorem endsOn_iff {p : Bytes} {add : ℕ} (hread : adjustOf p = some add)
    (hover : u32Max < w.driver.outWindow + add) :
    Config.EndsOn env p ⟨w, .waiting⟩ ↔ ¬AwaitsGuess w.session := by
  have hhead := head_of_adjustOf hread
  have hother : ∀ {msg : UInt8}, p.head? = some msg → msg = sshMsgChannelWindowAdjust :=
    fun hmsg => Option.some.inj (hmsg.symm.trans hhead)
  refine ⟨fun hends hguess => not_endsOn_of_guess hguess hends, fun hguess => ?_⟩
  refine endsOn_of_not_takes fun w' htakes => ?_
  cases htakes with
  | handled hwhen hreacts => exact not_reacts_overflow (w := w.arrived p) hread hover hreacts
  | deferred iS hphase hmsg hinline hroom => simp [isInline, hhead] at hinline
  | rekeying hs =>
    cases hs with
    | opened cookie n tick bytesTx started hphase hmsg => exact absurd (hother hmsg) (by decide)
    | answered iS n tick hphase hmsg => exact absurd (hother hmsg) (by decide)
    | skipped iC iS n hphase => exact hguess ⟨iC, iS, n, hphase⟩
    | replied iC iS n tick₁ tick bytesTx₁ bytesTx r hphase hmsg =>
      exact absurd (hother hmsg) (by decide)
  | rekeyed hs hdrained =>
    cases hs with
    | completed newRx tick now hphase hmsg =>
      rw [hmsg] at hhead
      exact absurd hhead (by decide)

/-- **Outbound flow control.** In every state no more was sent than granted, in packets
that fit; while the connection lives the driver's window is the difference and fits in
32 bits. An adjust beyond that ends the connection exactly when the peer's last KEXINIT
does not make the server drop the next packet. -/
theorem outflow_controlled {h : Handshake} {inputs : List Input} {c : Config}
    (hrun : Config.runs env h inputs = some c) :
    Paid c.world.session.log ∧
    (c.live → c.world.driver.outWindow + (account c.world.session.log).sent =
      (account c.world.session.log).granted ∧ c.world.driver.outWindow ≤ u32Max) ∧
    (c.pc = .waiting → ∀ p add, adjustOf p = some add →
      u32Max < c.world.driver.outWindow + add →
      (c.EndsOn env p ↔ ¬AwaitsGuess c.world.session)) := by
  have hcontrolled : Controlled c :=
    invariant_run (fun _ _ _ hinv hstep => Controlled.turn hinv (step_turn hstep))
      (controlled_start h) hrun
  refine ⟨hcontrolled.paid, fun hlive => ?_, fun hpc p add hread hover => ?_⟩
  · have hcharged := hcontrolled.charged hlive
    exact ⟨hcharged.window, hcharged.window_le⟩
  · obtain ⟨w, pc⟩ := c
    obtain rfl : pc = .waiting := hpc
    exact endsOn_iff hread hover

/-- A shell that writes a byte to a client with room for one, and the client's answer. -/
def creditedRun : List Input :=
  packetTurn (openSession 7 1 maxPacket) ++ packetTurn (channelRequest "shell" true) ++
    [.phase, .phase, .phase, .event (.output (some (.out .stdout ⟨[1], by decide⟩)))] ++
    packetTurn (buildWindowAdjust localChannel 5) ++ [.phase, .phase, .phase]

theorem outflow_controlled_shell : ∃ c, Config.runs plainEnv plainHandshake creditedRun = some c ∧
    account c.world.session.log = ⟨(1, maxPacket), 6, maxPacket, 1⟩ ∧
    Paid c.world.session.log ∧ c.EndsOn plainEnv (buildWindowAdjust localChannel u32Max) := by
  have hc : (Config.runs plainEnv plainHandshake creditedRun).map (fun c =>
      c.pc.isWaiting && decide (account c.world.session.log =
        ⟨(1, maxPacket), 6, maxPacket, 1⟩ ∧ c.world.driver.outWindow = 5 ∧
        c.world.session.rekey.phase = .idle)) = some true := by
    decide
  obtain ⟨c, hrun, hc⟩ := Option.map_eq_some_iff.1 hc
  simp only [Bool.and_eq_true, decide_eq_true_eq] at hc
  obtain ⟨hpc, haccount, hwindow, hphase⟩ := hc
  have hpc : c.pc = .waiting := Pc.eq_waiting hpc
  have h := outflow_controlled hrun
  refine ⟨c, hrun, haccount, h.1, (h.2.2 hpc _ u32Max (by decide) ?_).2 ?_⟩
  · rw [hwindow]
    decide
  · rintro ⟨iC, iS, n, hguess⟩
    rw [hphase] at hguess
    cases hguess

/-- The client announces a guess that is wrong. -/
def guessRun : List Input :=
  packetTurn (openSession 7 1 maxPacket) ++
    packetTurn (clientKexinit "curve25519-sha256,mlkem768x25519-sha256" true) ++
    [.phase, .phase, .phase]

/-- An adjust in the place of the guess is dropped, and the connection goes on. -/
theorem adjust_guess_dropped : ∃ c, Config.runs plainEnv plainHandshake guessRun = some c ∧
    c.pc = .waiting ∧ adjustOf (buildWindowAdjust localChannel u32Max) = some u32Max ∧
    u32Max < c.world.driver.outWindow + u32Max ∧
    ¬c.EndsOn plainEnv (buildWindowAdjust localChannel u32Max) := by
  have hc : (Config.runs plainEnv plainHandshake guessRun).map (fun c =>
      c.pc.isWaiting && skipsGuess c.world.session.rekey.phase = some true &&
        decide (c.world.driver.outWindow = 1)) = some true := by
    decide +kernel
  obtain ⟨⟨w, pc⟩, hrun, hc⟩ := Option.map_eq_some_iff.1 hc
  simp only [Bool.and_eq_true, decide_eq_true_eq] at hc
  obtain ⟨⟨hpc, hphase⟩, hwindow⟩ := hc
  obtain rfl := Pc.eq_waiting hpc
  have hread : adjustOf (buildWindowAdjust localChannel u32Max) = some u32Max := by decide
  have hover : u32Max < w.driver.outWindow + u32Max := by
    rw [hwindow]
    decide
  exact ⟨_, hrun, rfl, hread, hover, fun hends =>
    (endsOn_iff hread hover).1 hends (exists_of_skipsGuess hphase)⟩

end QuantumSsh.Channel
