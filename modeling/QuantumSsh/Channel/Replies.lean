import QuantumSsh.Channel.Traffic

/-!
# Replies in the order of the requests

The requests are handled in the order in which they arrived, those that waited for the
end of a re-key among them, and each has its reply before the next one is taken up.
-/

namespace QuantumSsh.Channel

open Wire Kex Machine Program Transport

/-! ### Requests and replies -/

/-- A message that answers a request. -/
def isReply (q : Bytes) : Bool := isOneOf replyMessages q

/-- The request and the reply are of one kind. -/
def IsReplyTo (p q : Bytes) : Prop :=
  p.head? = some sshMsgGlobalRequest ∧ q.head? = some sshMsgRequestFailure ∨
  p.head? = some sshMsgChannelOpen ∧ (q.head? = some sshMsgChannelOpenConfirmation ∨
    q.head? = some sshMsgChannelOpenFailure) ∨
  p.head? = some sshMsgChannelRequest ∧ (q.head? = some sshMsgChannelSuccess ∨
    q.head? = some sshMsgChannelFailure)

instance (p q : Bytes) : Decidable (IsReplyTo p q) := by
  unfold IsReplyTo
  infer_instance

/-- The messages received. -/
def received (log : List Obs) : List Bytes :=
  log.filterMap fun
    | .received p => some p
    | _ => none

/-- The replies sent. -/
def replies (log : List Obs) : List Bytes :=
  log.filterMap fun
    | .sealed f => if isReply f.payload then some f.payload else none
    | _ => none

/-- The message is a KEXINIT. -/
def isKexinit (p : Bytes) : Bool := p.head? = some sshMsgKexinit

/-- The requests among packets. The packet after a KEXINIT is none, whatever it is: it goes on
with the exchange, or it is a guess. -/
def requestsAfter : (kexinit : Bool) → List Bytes → List Bytes
  | _, [] => []
  | kexinit, p :: ps =>
    (if asks p && !kexinit then [p] else []) ++ requestsAfter (isKexinit p) ps

/-- The requests received. -/
def requestsReceived (log : List Obs) : List Bytes := requestsAfter false (received log)

/-- The requests handed to `handle_inbound`. -/
def requestsHandled (log : List Obs) : List Bytes :=
  log.filterMap fun
    | .handled p => if asks p then some p else none
    | _ => none

/-- At every moment the requests handled are the first ones received, and the replies sent
answer them one for one in this order. Only the last one handled may be without its reply. -/
def RepliesInOrder (log : List Obs) : Prop :=
  ∀ before, before <+: log →
    requestsHandled before <+: requestsReceived before ∧
    ∃ (answered : List Bytes) (unanswered : Option Bytes),
      requestsHandled before = answered ++ unanswered.toList ∧
      List.Forall₂ IsReplyTo answered (replies before)

/-- Every request received has its reply but for those deferred, and none is deferred once
the re-key is over. -/
structure AnswersAll (w : World) : Prop where
  received : requestsReceived w.session.log =
    requestsHandled w.session.log ++ w.driver.deferred.filter asks
  answered : List.Forall₂ IsReplyTo (requestsHandled w.session.log) (replies w.session.log)
  idle : w.session.rekey.phase = .idle → w.driver.deferred = []

/-! ### A desk for requests -/

/-- The requests received and not yet handled, whether the last packet was a KEXINIT, and the
request handled and not yet answered. -/
structure Desk where
  waiting : List Bytes
  afterKexinit : Bool
  current : Option Bytes
deriving Repr, DecidableEq

/-- The desk at the start. -/
def Desk.empty : Desk := ⟨[], false, none⟩

/-- The first request that waits is taken up when none is in hand; a reply is for the request
in hand. -/
def Desk.next (d : Desk) : Obs → Option Desk
  | .received p =>
    some { d with
      waiting := d.waiting ++ if asks p && !d.afterKexinit then [p] else []
      afterKexinit := isKexinit p }
  | .handled p =>
    if asks p then
      if d.current = none ∧ d.waiting.head? = some p then
        some { d with waiting := d.waiting.tail, current := some p }
      else none
    else some d
  | .sealed f =>
    if isReply f.payload then
      d.current.bind fun p => if IsReplyTo p f.payload then some { d with current := none } else none
    else some d
  | _ => some d

/-- The desk after a log. -/
def desk (log : List Obs) : Option Desk := run Desk.next .empty log

theorem desk_append {log es : List Obs} {d : Desk} (h : desk log = some d) :
    desk (log ++ es) = run Desk.next d es := by
  rw [desk, run_append, ← desk, h]
  rfl

/-- What waited and what came in are what was taken up and what waits still. -/
theorem requests_of_desk {es : List Obs} {d d' : Desk} (h : run Desk.next d es = some d') :
    d.waiting ++ requestsAfter d.afterKexinit (received es) = requestsHandled es ++ d'.waiting := by
  induction es generalizing d with
  | nil =>
    cases h
    simp [received, requestsAfter, requestsHandled]
  | cons e es ih =>
    rw [run] at h
    obtain ⟨d₁, hd₁, h⟩ := Option.bind_eq_some_iff.1 h
    have hrest := ih h
    cases e with
    | received p =>
      cases hd₁
      simpa [received, requestsAfter, requestsHandled] using hrest
    | handled p =>
      simp only [Desk.next] at hd₁
      split at hd₁
      · rename_i hasks
        split at hd₁
        · rename_i hfirst
          cases hd₁
          have hwaiting : d.waiting = p :: d.waiting.tail :=
            (List.cons_head?_tail (Option.mem_def.2 hfirst.2)).symm
          rw [hwaiting]
          simpa [received, requestsHandled, hasks] using hrest
        · cases hd₁
      · rename_i hasks
        cases hd₁
        simpa [received, requestsHandled, hasks] using hrest
    | sealed f =>
      have hkept : d₁.waiting = d.waiting ∧ d₁.afterKexinit = d.afterKexinit := by
        simp only [Desk.next] at hd₁
        split at hd₁
        · obtain ⟨p, -, hd₁⟩ := Option.bind_eq_some_iff.1 hd₁
          split at hd₁ <;> cases hd₁
          exact ⟨rfl, rfl⟩
        · cases hd₁
          exact ⟨rfl, rfl⟩
      rw [← hkept.1, ← hkept.2]
      exact hrest
    | rekeyed | accepted | queued | stdinEof | output | credited | execStarted | execFinished =>
      cases hd₁
      exact hrest

/-- The replies are for the requests taken up, but for the one in hand. -/
theorem replies_of_desk {es : List Obs} {d d' : Desk} (h : run Desk.next d es = some d') :
    ∃ answered, d.current.toList ++ requestsHandled es = answered ++ d'.current.toList ∧
      List.Forall₂ IsReplyTo answered (replies es) := by
  induction es generalizing d with
  | nil =>
    cases h
    exact ⟨[], by simp [requestsHandled], .nil⟩
  | cons e es ih =>
    rw [run] at h
    obtain ⟨d₁, hd₁, h⟩ := Option.bind_eq_some_iff.1 h
    obtain ⟨answered, hcurrent, hall⟩ := ih h
    cases e with
    | handled p =>
      refine ⟨answered, ?_, hall⟩
      simp only [Desk.next] at hd₁
      split at hd₁
      · rename_i hasks
        split at hd₁
        · rename_i hfirst
          cases hd₁
          rw [hfirst.1]
          simpa [requestsHandled, hasks] using hcurrent
        · cases hd₁
      · rename_i hasks
        cases hd₁
        simpa [requestsHandled, hasks] using hcurrent
    | sealed f =>
      simp only [Desk.next] at hd₁
      split at hd₁
      · rename_i hreply
        obtain ⟨p, hp, hd₁⟩ := Option.bind_eq_some_iff.1 hd₁
        split at hd₁
        · rename_i hto
          cases hd₁
          refine ⟨p :: answered, ?_, ?_⟩
          · rw [hp]
            simpa [requestsHandled] using hcurrent
          · simpa [replies, hreply] using ⟨hto, hall⟩
        · cases hd₁
      · rename_i hreply
        cases hd₁
        exact ⟨answered, hcurrent, by simpa [replies, hreply] using hall⟩
    | received | rekeyed | accepted | queued | stdinEof | output | credited | execStarted |
        execFinished =>
      cases hd₁
      exact ⟨answered, hcurrent, hall⟩

theorem repliesInOrder_of_desk {log : List Obs} {d : Desk} (h : desk log = some d) :
    RepliesInOrder log := by
  rintro before ⟨after, rfl⟩
  rw [desk, run_append] at h
  obtain ⟨d₁, hd₁, -⟩ := Option.bind_eq_some_iff.1 h
  have hrequests : requestsReceived before = requestsHandled before ++ d₁.waiting :=
    requests_of_desk hd₁
  obtain ⟨answered, hcurrent, hall⟩ := replies_of_desk hd₁
  exact ⟨⟨d₁.waiting, hrequests.symm⟩, answered, d₁.current, hcurrent, hall⟩

/-! ### What the desk does not see -/

/-- The entries about neither a request nor a reply. -/
def isMute : Obs → Bool
  | .sealed f => !isReply f.payload
  | .received _ | .handled _ => false
  | _ => true

theorem desk_mute {log log' : List Obs} (h : Grows isMute log log') {d : Desk}
    (hd : desk log = some d) : desk log' = some d := by
  refine h.keeps (R := fun log => desk log = some d) (fun log e he hd => ?_) hd
  rw [desk_append hd, run]
  cases e <;> simp_all [isMute, Desk.next, run]

variable {env : Env} {w w' : World}

theorem mute_of_neutral {log log' : List Obs}
    (h : ∃ es, log' = log ++ es ∧ ∀ e ∈ es, isNeutral e = true) : Grows isMute log log' := by
  obtain ⟨es, hlog, hes⟩ := h
  refine ⟨es, hlog, fun e he => ?_⟩
  have hneutral := hes e he
  cases e <;> simp_all [isNeutral, isMute]

/-- Messages that are no replies are not seen. -/
theorem mute_of_utters {msgs : List UInt8} (hmsgs : ∀ msg ∈ msgs, msg ∉ replyMessages)
    {log log' : List Obs} (h : Grows (utters msgs) log log') : Grows isMute log log' := by
  refine h.mono fun e he => ?_
  cases e with
  | sealed f =>
    have hnot : isOneOf replyMessages f.payload = false := isOneOf_disjoint hmsgs he
    simp [isMute, isReply, hnot]
  | received | handled | output => cases he
  | rekeyed | accepted | queued | stdinEof | credited | execStarted | execFinished => rfl

theorem mute_emitFinished (w : World) :
    Grows isMute w.session.log w.emitFinished.session.log :=
  mute_of_utters (by simp) (emitFinished_grows w)

theorem rekeys_mute {p : Bytes} {step : RekeyStep} {s s' : Session}
    (h : Rekeys env p s step s') : Grows isMute s.log s'.log :=
  mute_of_utters (by decide) (rekeys_grows h)

theorem mute_disconnect (h : w.Left IsDisconnect w') :
    Grows isMute w.session.log w'.session.log :=
  mute_of_utters (by decide) (grows_disconnect h)

/-! ### The deferred requests wait at the desk -/

/-- Up to the KEXINIT of the peer the last packet is none. A guess is dropped right after it. -/
def Heeds (afterKexinit : Bool) : RekeyPhase → Prop
  | .idle | .sentKexInit _ => afterKexinit = false
  | .awaitHybridInit _ _ _ guess => guess = true → afterKexinit = true
  | .awaitNewKeys _ => True

/-- The requests that wait are those among the messages, and none is in hand. -/
def Queues (log : List Obs) (ps : List Bytes) (afterKexinit : Bool) : Prop :=
  desk log = some ⟨ps.filter asks, afterKexinit, none⟩

/-- The deferred requests are those that wait. -/
def Served (w : World) : Prop :=
  ∃ k, Queues w.session.log w.driver.deferred k ∧ Heeds k w.session.rekey.phase

/-- The desk follows. -/
def Serves (log : List Obs) : Prop := ∃ d, desk log = some d

theorem Served.serves (h : Served w) : Serves w.session.log := by
  obtain ⟨k, hd, -⟩ := h
  exact ⟨_, hd⟩

theorem Serves.mute {log log' : List Obs} (h : Serves log) (hmute : Grows isMute log log') :
    Serves log' := by
  obtain ⟨d, hd⟩ := h
  exact ⟨d, desk_mute hmute hd⟩

theorem Served.mute (h : Served w) (hmute : Grows isMute w.session.log w'.session.log)
    (hdeferred : w'.driver.deferred = w.driver.deferred)
    (hphase : w'.session.rekey.phase = w.session.rekey.phase) : Served w' := by
  obtain ⟨k, hd, hheeds⟩ := h
  refine ⟨k, ?_, hphase ▸ hheeds⟩
  rw [hdeferred]
  exact desk_mute hmute hd

/-- A request in hand may be answered. -/
theorem desk_replyTo {log log' : List Obs} {waiting : List Bytes} {k : Bool} {p q : Bytes}
    {f : Frame} (hd : desk log = some ⟨waiting, k, some p⟩) (hq : IsReplyTo p q)
    (hf : f.payload = q) (hlog : log' = log ++ [.sealed f]) :
    desk log' = some ⟨waiting, k, none⟩ := by
  have hreply : isReply q = true := by
    obtain ⟨-, hq⟩ | ⟨-, hq | hq⟩ | ⟨-, hq | hq⟩ := hq <;>
      simp [isReply, isOneOf, replyMessages, hq]
  rw [hlog, desk_append hd]
  simp [run, Desk.next, hf, hreply, hq]

theorem RepliesTo.isReplyTo {p q : Bytes} (h : RepliesTo w p q) : IsReplyTo p q := by
  cases h with
  | answer ha =>
    cases ha with
    | globalRequest hmsg => exact .inl ⟨hmsg, rfl⟩
    | channelOpen sender code desc hmsg => exact .inr (.inl ⟨hmsg, .inr rfl⟩)
    | channelRequest msg hmsg hwants hstate hreply =>
      obtain rfl | rfl := hreply
      · exact .inr (.inr ⟨hmsg, .inl rfl⟩)
      · exact .inr (.inr ⟨hmsg, .inr rfl⟩)
  | confirmation sender hmsg hstate => exact .inr (.inl ⟨hmsg, .inl rfl⟩)

theorem RepliesTo.asks {p q : Bytes} (h : RepliesTo w p q) : asks p = true := by
  cases h with
  | answer ha =>
    cases ha with
    | globalRequest hmsg hasks => exact hasks
    | channelOpen sender code desc hmsg => exact asks_channelOpen hmsg
    | channelRequest msg hmsg hwants => exact (asks_channelRequest hmsg).trans hwants
  | confirmation sender hmsg hstate => exact asks_channelOpen hmsg

/-- The first message that waits may be handled; a request is then in hand. -/
theorem desk_handled {log : List Obs} {k : Bool} {p : Bytes} {ps : List Bytes}
    (hd : Queues log (p :: ps) k) :
    desk (log ++ [.handled p]) =
      some ⟨ps.filter asks, k, if asks p = true then some p else none⟩ := by
  rw [desk_append hd]
  cases hp : asks p <;> simp [run, Desk.next, hp]

/-- The first message that waits is handled, and answered if it asks for it. -/
theorem Queues.reacts {p : Bytes} {ps : List Bytes} {k : Bool}
    (hd : Queues w.session.log (p :: ps) k) (hreacts : Reacts p w w') :
    Queues w'.session.log ps k := by
  have hd₁ := desk_handled hd
  obtain ⟨es, hown, ⟨hasks, hlog⟩ | ⟨q, hq, hlog⟩⟩ := hreacts.log_eq <;>
    have hes := fun e he => (hown e he).1
  · rw [if_neg (by simp [hasks])] at hd₁
    exact desk_mute (mute_of_neutral ⟨es, by simpa using hlog, hes⟩) hd₁
  · rw [if_pos hq.asks] at hd₁
    have hd₂ : desk ((w.session.log ++ [.handled p]) ++ es) = some ⟨ps.filter asks, k, some p⟩ :=
      desk_mute (mute_of_neutral ⟨es, rfl, hes⟩) hd₁
    exact desk_replyTo hd₂ hq.isReplyTo rfl (by simpa using hlog)

theorem Queues.reactFails {p : Bytes} {ps : List Bytes} {k : Bool}
    (hd : Queues w.session.log (p :: ps) k) (hfails : ReactFails p w w') :
    Serves w'.session.log := by
  have hd₁ := desk_handled hd
  have hword : ∀ {w₁ : World}, desk w₁.session.log =
      some ⟨ps.filter asks, k, if asks p = true then some p else none⟩ →
      w₁.Left (LastWord w p) w' → Serves w'.session.log := by
    intro w₁ hw₁ hleft
    obtain hlog | ⟨q, hq, hlog⟩ := hleft
    · exact ⟨_, by rw [hlog]; exact hw₁⟩
    have hanswer : RepliesTo w p q → Serves w'.session.log := by
      intro hq
      rw [if_pos hq.asks] at hw₁
      exact ⟨_, desk_replyTo hw₁ hq.isReplyTo rfl hlog⟩
    cases hq with
    | disconnect hq =>
      have hleft : w₁.Left IsDisconnect w' := .inr ⟨q, hq, hlog⟩
      exact ⟨_, desk_mute (mute_disconnect hleft) hw₁⟩
    | answer ha => exact hanswer (.answer ha)
    | confirmation sender hmsg hstate => exact hanswer (.confirmation sender hmsg hstate)
  cases hfails with
  | handled hleft => exact hword hd₁ hleft
  | started hstate hleft =>
    refine hword ?_ hleft
    have hmute : Grows isMute (w.session.log ++ [.handled p])
        ((w.observe (.handled p)).observe .execStarted).session.log := .one rfl rfl
    exact desk_mute hmute hd₁

theorem Queues.reactsAll {ps qs : List Bytes} {k : Bool}
    (hd : Queues w.session.log (ps ++ qs) k) (hreacts : ReactsAll ps w w') :
    Queues w'.session.log qs k := by
  induction hreacts with
  | nil => exact hd
  | cons hone _ ih => exact ih (Queues.reacts hd hone)

/-- A packet arrives: a request waits behind those deferred, unless it follows a KEXINIT. -/
theorem Queues.arrived {ps : List Bytes} {k : Bool} (hd : Queues w.session.log ps k) (p : Bytes) :
    desk (w.arrived p).session.log =
      some ⟨ps.filter asks ++ (if asks p && !k then [p] else []), isKexinit p, none⟩ := by
  have hlog : (w.arrived p).session.log = w.session.log ++ [.received p] := rfl
  rw [hlog, desk_append hd]
  rfl

/-- A packet that is no request of its own. -/
theorem Queues.passedOver {ps : List Bytes} {k : Bool} (hd : Queues w.session.log ps k) {p : Bytes}
    (hp : asks p = true → k = true) : Queues (w.arrived p).session.log ps (isKexinit p) := by
  have hnone : (asks p && !k) = false := by
    cases hasks : asks p with
    | false => rfl
    | true => rw [hp hasks]; rfl
  rw [Queues, hd.arrived p, hnone]
  simp

/-- A packet before the KEXINIT of the peer. -/
theorem Queues.joined {ps : List Bytes} (hd : Queues w.session.log ps false) (p : Bytes) :
    Queues (w.arrived p).session.log (ps ++ [p]) (isKexinit p) := by
  rw [Queues, hd.arrived p, List.filter_append]
  cases hp : asks p <;> simp [hp]

theorem not_asks_of_inline {p : Bytes} (h : isInline p = true) : asks p = false := by
  refine Bool.eq_false_iff.2 fun hasks => ?_
  obtain hhead | hhead | hhead := head_of_asks hasks <;> simp [isInline, hhead] at h <;>
    revert h <;> decide

theorem not_kexinit_of_inline {p : Bytes} (h : isInline p = true) : isKexinit p = false := by
  refine Bool.eq_false_iff.2 fun hp => ?_
  have hhead : p.head? = some sshMsgKexinit := by simpa [isKexinit] using hp
  simp [isInline, hhead] at h
  revert h
  decide

/-- A message handled at once is the next to be taken up. -/
theorem AtOnce.queues {p : Bytes} {k : Bool} (hwhen : AtOnce w p) (hdefers : Defers w)
    (hd : Queues w.session.log w.driver.deferred k) (hheeds : Heeds k w.session.rekey.phase) :
    Queues (w.arrived p).session.log (p :: w.driver.deferred) false ∧
      Heeds false w.session.rekey.phase := by
  cases hwhen with
  | idle hphase hmsg =>
    rw [hphase] at hheeds ⊢
    obtain rfl : k = false := hheeds
    have hkexinit : isKexinit p = false := by simpa [isKexinit] using hmsg
    have hjoined := hd.joined p
    rw [hdefers.idle hphase, hkexinit] at hjoined
    rw [hdefers.idle hphase]
    exact ⟨hjoined, rfl⟩
  | inline iS hphase hinline =>
    rw [hphase] at hheeds ⊢
    obtain rfl : k = false := hheeds
    have hasks := not_asks_of_inline hinline
    have hpassed := hd.passedOver (p := p) (by simp [hasks])
    rw [not_kexinit_of_inline hinline] at hpassed
    refine ⟨?_, rfl⟩
    rw [Queues, List.filter_cons_of_neg (by simp [hasks])]
    exact hpassed

/-- A packet of the exchange is passed over, and so is a guess. -/
theorem passedOver_of_rekeys {p : Bytes} {step : RekeyStep} {s s' : Session} {k : Bool}
    (h : Rekeys env p s step s') (hstep : step ≠ .passToChannel) (hheeds : Heeds k s.rekey.phase) :
    (asks p = true → k = true) ∧ Heeds (isKexinit p) s'.rekey.phase := by
  have hnot : ∀ {msg}, p.head? = some msg →
      msg ∉ [sshMsgChannelOpen, sshMsgChannelRequest, sshMsgGlobalRequest] →
      asks p = true → k = true := by
    intro msg hhead hmsg hasks
    rw [not_asks hhead hmsg] at hasks
    cases hasks
  cases h with
  | opened cookie n tick bytesTx started hphase hmsg =>
    exact ⟨hnot hmsg (by decide), fun _ => by simp [isKexinit, hmsg]⟩
  | answered iS n tick hphase hmsg =>
    exact ⟨hnot hmsg (by decide), fun _ => by simp [isKexinit, hmsg]⟩
  | passed => exact absurd rfl hstep
  | skipped iC iS n hphase =>
    rw [hphase] at hheeds
    exact ⟨fun _ => hheeds rfl, fun hguess => by cases hguess⟩
  | replied iC iS n tick₁ tick bytesTx₁ bytesTx r hphase hmsg =>
    exact ⟨hnot hmsg (by decide), trivial⟩
  | completed newRx tick now hphase hmsg =>
    have hhead : p.head? = some sshMsgNewkeys := by rw [hmsg]; rfl
    refine ⟨hnot hhead (by decide), ?_⟩
    change isKexinit p = false
    rw [isKexinit, hhead]
    rfl

theorem Served.takesPacket (h : Served w) (hdefers : Defers w) {p : Bytes}
    (htakes : TakesPacket env p w w') : Served w' := by
  obtain ⟨k, hd, hheeds⟩ := h
  cases htakes with
  | handled hwhen hreacts =>
    obtain ⟨hnext, hheeds'⟩ := hwhen.queues hdefers hd hheeds
    refine ⟨false, ?_, ?_⟩
    · rw [hreacts.deferred_eq]
      exact hnext.reacts hreacts
    · rw [hreacts.phase_eq]
      exact hheeds'
  | deferred iS hphase hmsg hinline hroom =>
    rw [hphase] at hheeds
    obtain rfl : k = false := hheeds
    refine ⟨isKexinit p, hd.joined p, ?_⟩
    have hphase' : (w.arrived p).session.rekey.phase = .sentKexInit iS := hphase
    change Heeds _ (w.arrived p).session.rekey.phase
    rw [hphase']
    simpa [Heeds, isKexinit] using hmsg
  | rekeying hrekeys =>
    obtain ⟨hp, hheeds'⟩ := passedOver_of_rekeys hrekeys (by simp) hheeds
    exact ⟨_, desk_mute (rekeys_mute hrekeys) (hd.passedOver hp), hheeds'⟩
  | @rekeyed s _ hrekeys hdrained =>
    obtain ⟨hp, hheeds'⟩ := passedOver_of_rekeys hrekeys (by simp) hheeds
    have hd₁ : Queues (w.drained s).session.log (w.driver.deferred ++ []) (isKexinit p) := by
      rw [List.append_nil]
      exact desk_mute (rekeys_mute hrekeys) (hd.passedOver hp)
    refine ⟨isKexinit p, ?_, ?_⟩
    · rw [hdrained.deferred_eq]
      exact hd₁.reactsAll hdrained
    · rw [hdrained.phase_eq]
      exact hheeds'

theorem Served.packetFails (h : Served w) (hdefers : Defers w) {p : Bytes}
    (hfails : PacketFails env p w w') : Serves w'.session.log := by
  obtain ⟨k, hd, hheeds⟩ := h
  cases hfails with
  | handled hwhen hfails => exact (hwhen.queues hdefers hd hheeds).1.reactFails hfails
  | overflow hleft => exact ⟨_, desk_mute (mute_disconnect hleft) (hd.arrived p)⟩
  | rekeying hfails =>
    exact ⟨_, desk_mute (mute_of_utters (by decide) (rekeyFails_grows hfails)) (hd.arrived p)⟩
  | @draining s hrekeys hfails =>
    obtain ⟨pre, q, post, w₁, hdeferred, hreacts, hfails⟩ := hfails
    have hp := (passedOver_of_rekeys hrekeys (by simp) hheeds).1
    have hd₁ : Queues (w.drained s).session.log (pre ++ (q :: post)) (isKexinit p) := by
      rw [← hdeferred]
      exact desk_mute (rekeys_mute hrekeys) (hd.passedOver hp)
    exact (hd₁.reactsAll hreacts).reactFails hfails

/-- Phases (C) to (E) change the phase of the re-key only to send our KEXINIT. -/
theorem Settles.heeds {finished k : Bool} (h : Settles w finished w')
    (hheeds : Heeds k w.session.rekey.phase) : Heeds k w'.session.rekey.phase := by
  cases h with
  | busy hactive => exact hheeds
  | rekeyed cookie tick bytesTx started trigger hidle hcredits hstate =>
    rw [hidle] at hheeds
    exact hheeds
  | @closes w₁ _ _ tick now hidle hcredits hdue hcloses =>
    have hphase : w₁.session.rekey.phase = w.session.rekey.phase := hcredits.stance.phase
    rw [← hphase] at hheeds
    cases hcloses with
    | waiting hready hstate => exact hheeds
    | finished hready hstate =>
      rw [(emitFinished_stance _).phase]
      exact hheeds
    | half hready hearly hsent => exact hsent.phase_eq ▸ hheeds
    | early hready hearly hsent =>
      rw [(emitFinished_stance _).phase]
      exact hsent.phase_eq ▸ hheeds

/-! ### Whole runs -/

/-- `drive` has ended with an error. -/
def Config.failed (c : Config) : Prop := ∃ e, c.pc = .done (.error e)

theorem Config.live.not_failed {c : Config} (h : c.live) : ¬c.failed := by
  rintro ⟨e, he⟩
  exact h _ he

/-- The desk follows; the deferred requests wait at it unless `drive` has failed. -/
structure Attended (c : Config) : Prop where
  serves : Serves c.world.session.log
  served : ¬c.failed → Served c.world
  defers : ¬c.failed → Defers c.world

theorem Served.turn {c c' : Config} {input : Input} (h : Served c.world) (hdefers : Defers c.world)
    (hturn : Turn env c input c') (hok : ¬c'.failed) : Served c'.world := by
  cases hturn with
  | flushed hidle hrun =>
    have hstance := FlushOnes.stance hrun
    exact h.mute (mute_of_utters (by decide) (FlushOnes.grows hrun)) hstance.deferred hstance.phase
  | unflushed hactive => exact h
  | handedOff hoff =>
    exact h.mute (mute_of_neutral hoff.log_eq) hoff.stance.deferred hoff.stance.phase
  | settled hsettles =>
    obtain ⟨k, hd, hheeds⟩ := h
    refine ⟨k, ?_, hsettles.heeds hheeds⟩
    rw [Queues, hsettles.deferred_eq]
    exact desk_mute (mute_of_utters (by decide) hsettles.grows) hd
  | packet p htakes => exact h.takesPacket hdefers htakes
  | occurred event hoccurs =>
    refine h.mute (mute_of_neutral hoccurs.log_eq) ?_ hoccurs.phase_eq
    cases hoccurs <;> rfl
  | pumped child child' step hpc hchild hpump => exact h
  | flushFailed | settleFailed | packetFailed | readFailed | timedOut =>
    exact absurd ⟨_, rfl⟩ hok

theorem Defers.turn_of_ok {c c' : Config} {input : Input} (h : Defers c.world)
    (hturn : Turn env c input c') (hok : ¬c'.failed) : Defers c'.world := by
  by_cases hl : c'.live
  · exact Defers.turn hturn (fun _ => h) hl
  cases hturn with
  | settled hsettles => exact h.congr hsettles.deferred_eq hsettles.idle_of_idle
  | flushFailed | settleFailed | packetFailed | readFailed | timedOut =>
    exact absurd ⟨_, rfl⟩ hok
  | flushed | unflushed | handedOff | packet | occurred => exact absurd (by simp [Config.live]) hl
  | pumped child child' step hpc hchild hpump => exact absurd hpc hl

theorem Serves.last {c c' : Config} {input : Input} (h : Served c.world) (hdefers : Defers c.world)
    (hturn : Turn env c input c') (hfailed : c'.failed) : Serves c'.world.session.log := by
  cases hturn with
  | flushFailed e hidle hfails =>
    have hlast := mute_of_utters (by decide) (FlushFails.grows hfails)
    exact h.serves.mute (hlast.trans (mute_emitFinished _))
  | settled hsettles => exact h.serves.mute (mute_of_utters (by decide) hsettles.grows)
  | settleFailed e hfails =>
    have hlast := mute_of_utters (by decide) hfails.grows
    exact h.serves.mute (hlast.trans (mute_emitFinished _))
  | packetFailed p e hfails => exact (h.packetFails hdefers hfails).mute (mute_emitFinished _)
  | readFailed error => exact h.serves.mute (mute_emitFinished _)
  | timedOut hactive hleft =>
    exact h.serves.mute ((mute_disconnect hleft).trans (mute_emitFinished _))
  | flushed | unflushed | handedOff | packet | occurred =>
    exact absurd hfailed (Config.live.not_failed (by simp [Config.live]))
  | pumped child child' step hpc hchild hpump => exact absurd hfailed (Config.live.not_failed hpc)

theorem Attended.turn {c c' : Config} {input : Input} (h : Attended c)
    (hturn : Turn env c input c') : Attended c' := by
  have hserved := h.served hturn.live.not_failed
  have hdefers := h.defers hturn.live.not_failed
  refine ⟨?_, hserved.turn hdefers hturn, hdefers.turn_of_ok hturn⟩
  by_cases hfailed : c'.failed
  · exact Serves.last hserved hdefers hturn hfailed
  · exact (hserved.turn hdefers hturn hfailed).serves

theorem attended_start (h : Handshake) : Attended (Config.start h) := by
  have hmute : Grows isMute [] (Config.start h).world.session.log := by
    refine ⟨_, rfl, fun e he => ?_⟩
    obtain ⟨f, hf, rfl⟩ := List.mem_map.1 he
    obtain ⟨i, payload, hpayload, rfl⟩ : ∃ i payload, payload ∈ h.sent ∧
        f = ⟨0, h.tx, i, payload⟩ := by
      obtain ⟨i, hi, rfl⟩ := List.mem_mapIdx.1 hf
      exact ⟨i, _, List.getElem_mem hi, rfl⟩
    obtain ⟨msg, hmsg, hhead⟩ := h.sent_msg payload hpayload
    have hne : ∀ msg ∈ handshakeMessages, msg ∉ replyMessages := by decide
    simpa [isMute, isReply, isOneOf, hhead] using hne msg hmsg
  have hdesk := desk_mute hmute (d := .empty) rfl
  exact ⟨⟨_, hdesk⟩, fun _ => ⟨false, hdesk, rfl⟩, fun _ => defers_start h⟩

theorem attended_of_run {h : Handshake} {inputs : List Input} {c : Config}
    (hrun : Config.runs env h inputs = some c) : Attended c :=
  invariant_run (fun _ _ _ hinv hstep => Attended.turn hinv (step_turn hstep))
    (attended_start h) hrun

theorem Served.answersAll (h : Served w) (hdefers : Defers w) : AnswersAll w := by
  obtain ⟨k, hd, -⟩ := h
  have hrequests : requestsReceived w.session.log =
      requestsHandled w.session.log ++ w.driver.deferred.filter asks := requests_of_desk hd
  obtain ⟨answered, hcurrent, hall⟩ := replies_of_desk hd
  have hanswered : requestsHandled w.session.log = answered := by
    simpa [Desk.empty] using hcurrent
  exact ⟨hrequests, hanswered ▸ hall, hdefers.idle⟩

/-- A re-key is half-duplex: from our KEXINIT to the peer's NEWKEYS only the messages of
the exchange are sent. The requests are handled and answered in their order, those deferred
once the re-key is over. -/
theorem rekey_half_duplex {h : Handshake} {inputs : List Input} {c : Config}
    (hrun : Config.runs env h inputs = some c) :
    HalfDuplex c.world.session.log ∧ RepliesInOrder c.world.session.log ∧
      (¬c.failed → AnswersAll c.world) := by
  have hattended := attended_of_run hrun
  refine ⟨halfDuplex_of_follows (follows_of_run hrun), ?_, fun hok => ?_⟩
  · obtain ⟨d, hd⟩ := hattended.serves
    exact repliesInOrder_of_desk hd
  · exact (hattended.served hok).answersAll (hattended.defers hok)

/-- A handshake after which a re-key is due at every packet. -/
def hastyHandshake : Handshake :=
  { plainHandshake with thresholds := { plainHandshake.thresholds with maxPackets := 1 } }

/-- A request that arrives inside a re-key, and the rest of that re-key. -/
def deferringRun : List Input :=
  packetTurn (openSession 7 maxPacket maxPacket) ++ packetTurn (globalRequest true) ++
    packetTurn (channelRequest "shell" true) ++ packetTurn (clientKexinit kexAlgorithm false) ++
    packetTurn hybridInit ++ packetTurn [sshMsgNewkeys]

theorem rekey_half_duplex_deferring : ∃ c, Config.runs plainEnv hastyHandshake deferringRun =
    some c ∧ (replies c.world.session.log).map List.head? = [some 91, some 82, some 99] ∧
    HalfDuplex c.world.session.log ∧ RepliesInOrder c.world.session.log ∧ AnswersAll c.world := by
  have hc : (Config.runs plainEnv hastyHandshake deferringRun).map
      (fun c => ((replies c.world.session.log).map List.head?, c.pc.isDone)) =
      some ([some 91, some 82, some 99], false) := by
    decide +kernel
  obtain ⟨c, hrun, hc⟩ := Option.map_eq_some_iff.1 hc
  obtain ⟨hreplies, hdone⟩ := Prod.mk.inj hc
  obtain ⟨hhalf, horder, hall⟩ := rekey_half_duplex hrun
  exact ⟨c, hrun, hreplies, hhalf, horder, hall (live_of_isDone hdone).not_failed⟩

end QuantumSsh.Channel
