import QuantumSsh.Channel.Composure
import QuantumSsh.Channel.Replies

/-!
# Every message is handled once

Of the messages outside of a key exchange that the server has received, the deferred ones
are those that it has not handled. This holds as long as every packet suits the phase of the
exchange.
-/

namespace QuantumSsh.Channel

open Wire Kex Machine Program Transport

/-! ### The account -/

/-- The messages received that belong to no key exchange. -/
def messagesReceived (log : List Obs) : List Bytes :=
  (received log).filter fun p => !isKexMessage p

/-- The messages handed to `handle_inbound`. -/
def messagesHandled (log : List Obs) : List Bytes :=
  log.filterMap fun
    | .handled p => some p
    | _ => none

/-- The messages received are the ones handled and the rest, each as often. -/
def Accounts (log : List Obs) (rest : List Bytes) : Prop :=
  (messagesHandled log ++ rest).Perm (messagesReceived log)

/-- The entry is about no message of the peer. -/
def isInternal : Obs → Bool
  | .received _ | .handled _ => false
  | _ => true

variable {env : Env} {w w' : World} {log log' : List Obs} {p : Bytes} {ps rest rest' : List Bytes}

theorem messagesReceived_append (log log' : List Obs) :
    messagesReceived (log ++ log') = messagesReceived log ++ messagesReceived log' := by
  simp [messagesReceived, received]

theorem messagesHandled_append (log log' : List Obs) :
    messagesHandled (log ++ log') = messagesHandled log ++ messagesHandled log' :=
  List.filterMap_append

theorem internal_of_neutral (h : ∃ es, log' = log ++ es ∧ ∀ e ∈ es, isNeutral e = true) :
    Grows isInternal log log' := by
  obtain ⟨es, hlog, hes⟩ := h
  refine ⟨es, hlog, fun e he => ?_⟩
  have hneutral := hes e he
  cases e with
  | received | handled => cases hneutral
  | _ => rfl

theorem internal_of_utters {msgs : List UInt8} (h : Grows (utters msgs) log log') :
    Grows isInternal log log' := by
  refine h.mono fun e he => ?_
  cases e with
  | received | handled => cases he
  | _ => rfl

theorem internal_emitFinished (w : World) :
    Grows isInternal w.session.log w.emitFinished.session.log :=
  internal_of_utters (emitFinished_grows w)

theorem internal_left {P : Bytes → Prop} (h : w.Left P w') :
    Grows isInternal w.session.log w'.session.log := by
  obtain hlog | ⟨q, -, hlog⟩ := h
  · rw [hlog]
    exact .refl _ _
  · exact .one rfl hlog

namespace Accounts

theorem grows (h : Accounts log rest) (hgrows : Grows isInternal log log') :
    Accounts log' rest := by
  refine hgrows.keeps (R := fun log => Accounts log rest) (fun log e he h => ?_) h
  have hnone : messagesHandled [e] = [] ∧ messagesReceived [e] = [] := by
    cases e with
    | received | handled => cases he
    | _ => exact ⟨rfl, rfl⟩
  rw [Accounts, messagesHandled_append, messagesReceived_append, hnone.1, hnone.2, List.append_nil,
    List.append_nil]
  exact h

theorem perm (h : Accounts log rest) (hrest : rest'.Perm rest) : Accounts log rest' :=
  (hrest.append_left _).trans h

theorem receivedKex (h : Accounts log rest) (hp : isKexMessage p = true) :
    Accounts (log ++ [.received p]) rest := by
  have hnone : messagesReceived [.received p] = [] := by simp [messagesReceived, received, hp]
  have hhandled : messagesHandled [.received p] = [] := rfl
  rw [Accounts, messagesHandled_append, messagesReceived_append, hnone, hhandled, List.append_nil,
    List.append_nil]
  exact h

theorem received (h : Accounts log rest) (hp : isKexMessage p = false) :
    Accounts (log ++ [.received p]) (rest ++ [p]) := by
  have hone : messagesReceived [.received p] = [p] := by
    simp [messagesReceived, Channel.received, hp]
  have hnone : messagesHandled [.received p] = [] := rfl
  rw [Accounts, messagesHandled_append, messagesReceived_append, hone, hnone, List.append_nil,
    ← List.append_assoc]
  exact h.append_right [p]

theorem handled (h : Accounts log (p :: rest)) : Accounts (log ++ [.handled p]) rest := by
  have hone : messagesHandled [.handled p] = [p] := rfl
  have hnone : messagesReceived [.handled p] = [] := rfl
  rw [Accounts, messagesHandled_append, messagesReceived_append, hone, hnone, List.append_nil,
    List.append_assoc]
  exact h

end Accounts

/-! ### Handling a message -/

theorem Reacts.grows (h : Reacts p w w') :
    Grows isInternal (w.session.log ++ [.handled p]) w'.session.log := by
  obtain ⟨es, hown, ⟨-, hlog⟩ | ⟨q, -, hlog⟩⟩ := h.log_eq <;>
    have hes := fun e he => (hown e he).1
  · exact internal_of_neutral ⟨es, by simpa using hlog, hes⟩
  · have hgrows : Grows isInternal (w.session.log ++ [.handled p])
        (w.session.log ++ [.handled p] ++ es) := internal_of_neutral ⟨es, rfl, hes⟩
    exact hgrows.trans (.one rfl (by simpa using hlog))

theorem ReactFails.grows (h : ReactFails p w w') :
    Grows isInternal (w.session.log ++ [.handled p]) w'.session.log := by
  cases h with
  | handled hleft => exact internal_left hleft
  | started hstate hleft =>
    have hstarted : Grows isInternal (w.session.log ++ [.handled p])
        ((w.observe (.handled p)).observe .execStarted).session.log := .one rfl rfl
    exact hstarted.trans (internal_left hleft)

theorem Accounts.reacts (h : Accounts w.session.log (p :: rest)) (hreacts : Reacts p w w') :
    Accounts w'.session.log rest :=
  h.handled.grows hreacts.grows

theorem Accounts.reactFails (h : Accounts w.session.log (p :: rest)) (hfails : ReactFails p w w') :
    Accounts w'.session.log rest :=
  h.handled.grows hfails.grows

theorem Accounts.reactsAll (h : Accounts w.session.log (ps ++ rest)) (hreacts : ReactsAll ps w w') :
    Accounts w'.session.log rest := by
  induction hreacts with
  | nil => exact h
  | cons hone _ ih => exact ih (Accounts.reacts h hone)

/-! ### Packets that suit the phase -/

/-- What a peer that keeps to the exchange sends, by the phase: messages and its KEXINIT up to
that, and then what the exchange is at. -/
inductive Suits (p : Bytes) : RekeyPhase → Prop
  | message {phase : RekeyPhase} (hp : isKexMessage p = false)
      (hphase : phase = .idle ∨ ∃ iS, phase = .sentKexInit iS) : Suits p phase
  | kexinit {phase : RekeyPhase} (hp : p.head? = some sshMsgKexinit)
      (hphase : phase = .idle ∨ ∃ iS, phase = .sentKexInit iS) : Suits p phase
  | guess {iC iS : Bytes} {n : Negotiated} (hp : isKexMessage p = true) :
      Suits p (.awaitHybridInit iC iS n true)
  | init {iC iS : Bytes} {n : Negotiated} (hp : p.head? = some sshMsgKexHybridInit) :
      Suits p (.awaitHybridInit iC iS n false)
  | newkeys {rx : PacketCipher} (hp : p = [sshMsgNewkeys]) : Suits p (.awaitNewKeys rx)

theorem isKexMessage_of_head {msg : UInt8} (h : p.head? = some msg)
    (hmsg : isKexMessage [msg] = true) : isKexMessage p = true := by
  rw [isKexMessage, h]
  exact hmsg

theorem Suits.expects {phase : RekeyPhase} (h : Suits p phase) (hphase : phase ≠ .idle) :
    Expects phase p := by
  cases h with
  | message _ hbefore | kexinit _ hbefore =>
    obtain rfl | ⟨iS, rfl⟩ := hbefore
    · exact absurd rfl hphase
    · exact trivial
  | guess => exact .inl rfl
  | init hp => exact .inr hp
  | newkeys hp => exact hp

/-- Before the KEXINIT a packet that is none is a message. -/
theorem Suits.not_kex {phase : RekeyPhase} (h : Suits p phase)
    (hphase : phase = .idle ∨ ∃ iS, phase = .sentKexInit iS) (hp : p.head? ≠ some sshMsgKexinit) :
    isKexMessage p = false := by
  cases h with
  | message hp' => exact hp'
  | kexinit hp' => exact absurd hp' hp
  | guess | init | newkeys => simp at hphase

theorem AtOnce.not_kex (h : AtOnce w p) (hsuits : Suits p w.session.rekey.phase) :
    isKexMessage p = false := by
  cases h with
  | idle hphase hmsg => exact hsuits.not_kex (.inl hphase) hmsg
  | inline iS hphase hinline =>
    refine hsuits.not_kex (.inr ⟨iS, hphase⟩) fun hp => ?_
    simp [isInline, hp, sshMsgKexinit, sshMsgChannelData, sshMsgChannelWindowAdjust,
      sshMsgChannelEof] at hinline

/-- The packets that the exchange consumes belong to it. -/
theorem isKexMessage_of_rekeys {step : RekeyStep} {s s' : Session} (h : Rekeys env p s step s')
    (hsuits : Suits p s.rekey.phase) (hstep : step ≠ .passToChannel) : isKexMessage p = true := by
  cases h with
  | opened cookie n tick bytesTx started hphase hmsg | answered iS n tick hphase hmsg =>
    exact isKexMessage_of_head hmsg rfl
  | passed => exact absurd rfl hstep
  | skipped iC iS n hphase =>
    rw [hphase] at hsuits
    cases hsuits with
    | message _ hbefore | kexinit _ hbefore => simp at hbefore
    | guess hp => exact hp
  | replied iC iS n tick₁ tick bytesTx₁ bytesTx r hphase hmsg => exact isKexMessage_of_head hmsg rfl
  | completed newRx tick now hphase hmsg =>
    rw [hmsg]
    rfl

theorem TakesPacket.accounts (htakes : TakesPacket env p w w')
    (hsuits : Suits p w.session.rekey.phase) (h : Accounts w.session.log w.driver.deferred) :
    Accounts w'.session.log w'.driver.deferred := by
  cases htakes with
  | handled hwhen hreacts =>
    rw [hreacts.deferred_eq]
    have harrived := h.received (hwhen.not_kex hsuits)
    exact (harrived.perm (List.perm_append_singleton p _).symm).reacts hreacts
  | deferred iS hphase hmsg hinline hroom =>
    exact h.received (hsuits.not_kex (.inr ⟨iS, hphase⟩) hmsg)
  | rekeying hrekeys =>
    have hkex := isKexMessage_of_rekeys hrekeys hsuits (by simp)
    exact (h.receivedKex hkex).grows (internal_of_utters (rekeys_grows hrekeys))
  | rekeyed hrekeys hdrained =>
    have hkex := isKexMessage_of_rekeys hrekeys hsuits (by simp)
    have hdone := (h.receivedKex hkex).grows (internal_of_utters (rekeys_grows hrekeys))
    rw [hdrained.deferred_eq]
    change Accounts w'.session.log []
    rw [← List.append_nil w.driver.deferred] at hdone
    exact Accounts.reactsAll hdone hdrained

theorem PacketFails.accounts (hfails : PacketFails env p w w')
    (hsuits : Suits p w.session.rekey.phase) (h : Accounts w.session.log w.driver.deferred) :
    ∃ rest, Accounts w'.session.log rest := by
  have harrived : ∃ rest, Accounts (w.arrived p).session.log rest := by
    cases hp : isKexMessage p with
    | true => exact ⟨_, h.receivedKex hp⟩
    | false => exact ⟨_, h.received hp⟩
  cases hfails with
  | handled hwhen hfails =>
    have hmessage := h.received (hwhen.not_kex hsuits)
    exact ⟨_, (hmessage.perm (List.perm_append_singleton p _).symm).reactFails hfails⟩
  | overflow hleft =>
    obtain ⟨rest, hrest⟩ := harrived
    exact ⟨rest, hrest.grows (internal_left hleft)⟩
  | rekeying hfails =>
    obtain ⟨rest, hrest⟩ := harrived
    exact ⟨rest, hrest.grows (internal_of_utters (rekeyFails_grows hfails))⟩
  | draining hrekeys hfails =>
    obtain ⟨pre, q, post, w₁, hdeferred, hreacts, hfails⟩ := hfails
    have hkex := isKexMessage_of_rekeys hrekeys hsuits (by simp)
    have hdone := (h.receivedKex hkex).grows (internal_of_utters (rekeys_grows hrekeys))
    rw [hdeferred] at hdone
    exact ⟨post, (Accounts.reactsAll hdone hreacts).reactFails hfails⟩

/-! ### A step -/

/-- As long as `drive` goes on, what is deferred is what is left to handle. -/
structure Custody (c : Config) : Prop where
  accounts : ∃ rest, Accounts c.world.session.log rest
  deferred : c.live → Accounts c.world.session.log c.world.driver.deferred

theorem Custody.of_live {c c' : Config} (h : Custody c) (hlive : c.live)
    (hgrows : Grows isInternal c.world.session.log c'.world.session.log)
    (hdeferred : c'.live → c'.world.driver.deferred = c.world.driver.deferred) : Custody c' := by
  have hkept := (h.deferred hlive).grows hgrows
  refine ⟨⟨_, hkept⟩, fun hl => ?_⟩
  rw [hdeferred hl]
  exact hkept

theorem Custody.turn {c c' : Config} {input : Input} (h : Custody c) (hturn : Turn env c input c')
    (hsuits : ∀ p, input = .event (.packet p) → Suits p c.world.session.rekey.phase) :
    Custody c' := by
  have hlive := hturn.live
  have hends : ∀ {w : World} {e : TransportError}, ¬Config.live ⟨w, .done (.error e)⟩ :=
    fun hl => hl _ rfl
  cases hturn with
  | flushed hidle hrun =>
    exact h.of_live hlive (internal_of_utters (FlushOnes.grows hrun))
      fun _ => (FlushOnes.stance hrun).deferred
  | unflushed hactive => exact h.of_live hlive (.refl _ _) fun _ => rfl
  | handedOff hoff =>
    exact h.of_live hlive (internal_of_neutral hoff.log_eq) fun _ => hoff.stance.deferred
  | settled hsettles =>
    rename_i finished
    refine h.of_live hlive (internal_of_utters hsettles.grows) fun hl => ?_
    cases finished with
    | true => exact absurd rfl (hl _)
    | false => exact hsettles.deferred_eq
  | packet p htakes =>
    have hkept := htakes.accounts (hsuits p rfl) (h.deferred hlive)
    exact ⟨⟨_, hkept⟩, fun _ => hkept⟩
  | occurred event hoccurs =>
    refine h.of_live hlive (internal_of_neutral hoccurs.log_eq) fun _ => ?_
    cases hoccurs <;> rfl
  | pumped child child' step hpc hchild hpump => exact h.of_live hlive (.refl _ _) fun _ => rfl
  | flushFailed e hidle hfails =>
    have hlast := internal_of_utters (FlushFails.grows hfails)
    exact h.of_live hlive (hlast.trans (internal_emitFinished _)) fun hl => absurd hl hends
  | settleFailed e hfails =>
    have hlast := internal_of_utters hfails.grows
    exact h.of_live hlive (hlast.trans (internal_emitFinished _)) fun hl => absurd hl hends
  | packetFailed p e hfails =>
    obtain ⟨rest, hrest⟩ := hfails.accounts (hsuits p rfl) (h.deferred hlive)
    exact ⟨⟨rest, hrest.grows (internal_emitFinished _)⟩, fun hl => absurd hl hends⟩
  | readFailed error => exact h.of_live hlive (internal_emitFinished _) fun hl => absurd hl hends
  | timedOut hactive hleft =>
    exact h.of_live hlive ((internal_left hleft).trans (internal_emitFinished _))
      fun hl => absurd hl hends

theorem custody_start (h : Handshake) : Custody (Config.start h) := by
  have hgrows : Grows isInternal [] (Config.start h).world.session.log := by
    refine ⟨_, rfl, fun e he => ?_⟩
    obtain ⟨f, -, rfl⟩ := List.mem_map.1 he
    rfl
  have hempty : Accounts [] [] := List.Perm.refl []
  exact ⟨⟨[], hempty.grows hgrows⟩, fun _ => hempty.grows hgrows⟩

end QuantumSsh.Channel
