import QuantumSsh.Transport.Session

/-!
# What the transport can do

One rule for writing a packet, one for leaving the connection, and the list of
what one packet does to the re-key sub-state machine. The tick, the byte counts
and the times of the result are left open: nothing depends on them but the
re-key triggers.
-/

namespace QuantumSsh.Transport

open Wire Kex Machine Program

/-! ### Writing and leaving -/

/-- The frame the next packet is sealed in. -/
def Session.frame (s : Session) (payload : Bytes) : Frame :=
  ⟨s.txInstalls, s.tx, s.seqTx, payload⟩

/-- The session after a packet was sealed and written. -/
def Session.sent (s : Session) (tick bytesTx : ℕ) (payload : Bytes) : Session :=
  { s with
    seqTx := wrappingAdd 32 s.seqTx 1
    rekey := { s.rekey with bytesTx }
    tick
    log := s.log ++ [.sealed (s.frame payload)] }

/-- The session is left for good: nothing more was sealed, or one last packet
that `P` admits. -/
def Session.Left (s : Session) (P : Bytes → Prop) (s' : Session) : Prop :=
  s'.log = s.log ∨ ∃ payload, P payload ∧ s'.log = s.log ++ [.sealed (s.frame payload)]

theorem Session.Left.mono {s s' : Session} {P Q : Bytes → Prop} (h : s.Left P s')
    (hPQ : ∀ payload, P payload → Q payload) : s.Left Q s' := by
  obtain h | ⟨payload, hP, h⟩ := h
  · exact .inl h
  · exact .inr ⟨payload, hPQ payload hP, h⟩

/-- A DISCONNECT message. -/
def IsDisconnect (payload : Bytes) : Prop := payload.head? = some sshMsgDisconnect

variable {env : Env} {s : Session} {α : Type}

@[simp] theorem ask_ensures {f : ℕ → α} {ok : α → Session → Prop}
    {err : TransportError → Session → Prop} :
    (ask f).Ensures s ok err ↔ ok (f s.tick) { s with tick := s.tick + 1 } :=
  Iff.rfl

theorem writeSealed_ensures {payload : Bytes} {ok : Unit → Session → Prop}
    {err : TransportError → Session → Prop}
    (hok : ok () (s.sent (s.tick + 1) s.rekey.bytesTx payload))
    (herr : ∀ failure s', s.Left (fun p => p = payload) s' → err (.io failure) s') :
    (writeSealed env payload).Ensures s ok err := by
  simp only [writeSealed, ensures_bind, ensures_look, ask_ensures]
  cases hseal : env.sealOk s.tick with
  | false => exact herr _ _ (.inl rfl)
  | true =>
    cases hwrite : env.writeOk s.tick with
    | false => exact herr _ _ (.inr ⟨payload, rfl, rfl⟩)
    | true => exact hok

theorem writePacket_ensures {payload : Bytes} {ok : Unit → Session → Prop}
    {err : TransportError → Session → Prop}
    (hok : ∀ tick bytesTx, ok () (s.sent tick bytesTx payload))
    (herr : ∀ failure s', s.Left (fun p => p = payload) s' → err (.io failure) s') :
    (writePacket env payload).Ensures s ok err := by
  simp only [writePacket, ensures_bind, ensures_update]
  exact writeSealed_ensures (hok _ _) fun failure s' h => herr failure s' h

theorem isDisconnect_disconnectPayload (rejection : Rejection) :
    IsDisconnect (disconnectPayload rejection) := rfl

theorem disconnect_ensures {rejection : Rejection} {ok : α → Session → Prop}
    {err : TransportError → Session → Prop}
    (herr : ∀ s', s.Left IsDisconnect s' → err (.rejected rejection.reason) s') :
    (disconnect env rejection : SessionProg α).Ensures s ok err := by
  simp only [disconnect, ensures_bind, ensures_attempt, ensures_fail]
  refine writeSealed_ensures ?_ fun failure s' h => ?_
  · exact herr _ (.inr ⟨_, isDisconnect_disconnectPayload rejection, rfl⟩)
  · exact herr _ (h.mono fun p hp => hp ▸ isDisconnect_disconnectPayload rejection)

/-! ### The re-key sub-state machine -/

/-- The peer's KEXINIT `iC` is negotiated to `n`. -/
def Negotiates (iC : Bytes) (n : Negotiated) : Prop :=
  (parseKexinit iC >>= fun peer => negotiate peer false) = .ok n

/-- What a KEX_HYBRID_INIT `p` is answered with: the reply and the new ciphers. -/
structure HybridReply (env : Env) (s : Session) (p iC iS : Bytes) (n : Negotiated) where
  clientInit : Bytes
  m : Option Bytes
  secret : Option Bytes
  outcome : HybridOutcome
  signature : Bytes
  newRx : PacketCipher
  newTx : PacketCipher
  rest : Bytes
  reads : readHybridInit.run p = .ok (clientInit, rest)
  exchanges : hybridExchange env.crypto clientInit m secret = .ok outcome
  derives : deriveCipherPair env.crypto outcome.sharedSecret
    (exchangeHash env.crypto
      { clientId := s.clientId, serverId, clientKexinit := iC, serverKexinit := iS,
        hostKeyBlob := env.hostKeyBlob, clientInit, serverReply := outcome.serverReply,
        sharedSecret := outcome.sharedSecret })
    s.sessionId n.cipherC2s n.cipherS2c = some (newRx, newTx)

/-- The KEX_HYBRID_REPLY. -/
def HybridReply.payload {s : Session} {p iC iS : Bytes} {n : Negotiated}
    (r : HybridReply env s p iC iS n) : Bytes :=
  [sshMsgKexHybridReply] ++ putString env.hostKeyBlob ++ putString r.outcome.serverReply ++
    putString r.signature

/-- What `step_rekey` does with the packet `p` when it returns. -/
inductive Rekeys (env : Env) (p : Bytes) : Session → RekeyStep → Session → Prop
  /-- The peer starts a re-key. -/
  | opened {s : Session} (cookie : Bytes) (n : Negotiated) (tick bytesTx started : ℕ)
      (hphase : s.rekey.phase = .idle) (hmsg : p.head? = some sshMsgKexinit)
      (hnegotiates : Negotiates p n) :
      Rekeys env p s .continued
        { s.sent tick bytesTx (buildRekeyKexinit cookie) with
          rekey := { s.rekey with
            bytesTx, started, initiator := .peer, trigger := .peer
            phase := .awaitHybridInit p (buildRekeyKexinit cookie) n n.skipGuessedPacket } }
  /-- The peer answers our KEXINIT. -/
  | answered {s : Session} (iS : Bytes) (n : Negotiated) (tick : ℕ)
      (hphase : s.rekey.phase = .sentKexInit iS) (hmsg : p.head? = some sshMsgKexinit)
      (hnegotiates : Negotiates p n) :
      Rekeys env p s .continued
        { s.setPhase (.awaitHybridInit p iS n n.skipGuessedPacket) with tick }
  /-- A message the peer sent before its KEXINIT. -/
  | passed {s : Session} (iS : Bytes) (hphase : s.rekey.phase = .sentKexInit iS)
      (hmsg : p.head? ≠ some sshMsgKexinit) :
      Rekeys env p s .passToChannel s
  /-- The wrong guess is dropped. -/
  | skipped {s : Session} (iC iS : Bytes) (n : Negotiated)
      (hphase : s.rekey.phase = .awaitHybridInit iC iS n true) :
      Rekeys env p s .continued (s.setPhase (.awaitHybridInit iC iS n false))
  /-- The exchange: the reply, our NEWKEYS, the new transmit cipher. -/
  | replied {s : Session} (iC iS : Bytes) (n : Negotiated) (tick₁ tick bytesTx₁ bytesTx : ℕ)
      (r : HybridReply env s p iC iS n)
      (hphase : s.rekey.phase = .awaitHybridInit iC iS n false)
      (hmsg : p.head? = some sshMsgKexHybridInit) :
      Rekeys env p s .continued
        { (s.sent tick₁ bytesTx₁ r.payload).sent tick bytesTx [sshMsgNewkeys] with
          tx := r.newTx
          txInstalls := s.txInstalls + 1
          seqTx := 0
          rekey := { s.rekey with bytesTx, phase := .awaitNewKeys r.newRx } }
  /-- The peer's NEWKEYS: the new receive cipher. -/
  | completed {s : Session} (newRx : PacketCipher) (tick now : ℕ)
      (hphase : s.rekey.phase = .awaitNewKeys newRx) (hmsg : p = [sshMsgNewkeys]) :
      Rekeys env p s .completed
        { s.observe .rekeyed with
          rx := newRx
          rxInstalls := s.rxInstalls + 1
          seqRx := 0
          tick
          rekey := { s.rekey with bytesRx := 0, bytesTx := 0, lastKex := now, phase := .idle } }

/-- How `step_rekey` ends the connection on the packet `p`. -/
inductive RekeyFails (p : Bytes) : Session → Session → Prop
  | refused {s s' : Session} (hleft : s.Left IsDisconnect s') : RekeyFails p s s'
  | opening {s s' : Session} (cookie : Bytes) (hphase : s.rekey.phase = .idle)
      (hmsg : p.head? = some sshMsgKexinit)
      (hleft : s.Left (fun q => q = buildRekeyKexinit cookie) s') : RekeyFails p s s'
  | openedRefused {s s' : Session} (cookie : Bytes) (tick bytesTx : ℕ)
      (hphase : s.rekey.phase = .idle) (hmsg : p.head? = some sshMsgKexinit)
      (hleft : (s.sent tick bytesTx (buildRekeyKexinit cookie)).Left IsDisconnect s') :
      RekeyFails p s s'
  | replying {s s' : Session} (q iC iS : Bytes) (n : Negotiated)
      (hphase : s.rekey.phase = .awaitHybridInit iC iS n false)
      (hq : q.head? = some sshMsgKexHybridReply) (hleft : s.Left (fun q' => q' = q) s') :
      RekeyFails p s s'
  | finishing {s s' : Session} (q iC iS : Bytes) (n : Negotiated) (tick bytesTx : ℕ)
      (hphase : s.rekey.phase = .awaitHybridInit iC iS n false)
      (hq : q.head? = some sshMsgKexHybridReply)
      (hleft : (s.sent tick bytesTx q).Left (fun q' => q' = [sshMsgNewkeys]) s') :
      RekeyFails p s s'

/-- Leaving reads the log and the current frame only. -/
theorem Session.Left.congr {s₁ s₂ s' : Session} {P : Bytes → Prop} (h : s₁.Left P s')
    (hlog : s₁.log = s₂.log) (hframe : ∀ q, s₁.frame q = s₂.frame q) : s₂.Left P s' := by
  unfold Session.Left at *
  simpa only [hlog, hframe] using h

theorem negotiateRekey_ensures {payload : Bytes} {ok : Negotiated → Session → Prop}
    {err : TransportError → Session → Prop}
    (hok : ∀ n, Negotiates payload n → ok n s)
    (herr : ∀ e s', s.Left IsDisconnect s' → err e s') :
    (negotiateRekey env payload).Ensures s ok err := by
  unfold negotiateRekey
  split
  next n hn => exact hok n hn
  next => exact disconnect_ensures fun s' h => herr _ s' h
  next => exact disconnect_ensures fun s' h => herr _ s' h

/-- The session after our KEXINIT. -/
def Session.begun (s : Session) (cookie : Bytes) (tick bytesTx started : ℕ) (trigger : Trigger) :
    Session :=
  { s.sent tick bytesTx (buildRekeyKexinit cookie) with
    rekey := { s.rekey with
      bytesTx, started, initiator := .server, trigger
      phase := .sentKexInit (buildRekeyKexinit cookie) } }

theorem beginRekey_ensures {ok : Unit → Session → Prop} {err : TransportError → Session → Prop}
    (hok : ∀ cookie tick bytesTx started trigger,
      ok () (s.begun cookie tick bytesTx started trigger))
    (herr : ∀ e s' cookie, s.Left (fun q => q = buildRekeyKexinit cookie) s' → err e s') :
    (beginRekey env).Ensures s ok err := by
  simp only [beginRekey, ensures_bind, ask_ensures]
  split
  next cookie _ =>
    simp only [ensures_bind]
    refine writePacket_ensures (fun tick bytesTx => ?_) fun failure s' h => ?_
    · exact hok cookie (tick + 1 + 1) bytesTx _ _
    · exact herr _ _ cookie (h.congr rfl fun _ => rfl)
  next => exact herr _ _ [] (.inl rfl)

/-- The session with the phase taken out, as `step_rekey` works on it. -/
theorem Session.Left.of_setPhase {s s' : Session} {phase : RekeyPhase} {P : Bytes → Prop}
    (h : (s.setPhase phase).Left P s') : s.Left P s' :=
  h.congr rfl fun _ => rfl

theorem completeRekeyReply_ensures {p iC iS : Bytes} {n : Negotiated}
    {ok : RekeyStep → Session → Prop} {err : TransportError → Session → Prop}
    (hphase : s.rekey.phase = .awaitHybridInit iC iS n false)
    (hmsg : p.head? = some sshMsgKexHybridInit)
    (hok : ∀ step s', Rekeys env p s step s' → ok step s')
    (herr : ∀ e s', RekeyFails p s s' → err e s') :
    (completeRekeyReply env p iC iS n).Ensures (s.setPhase .idle) ok err := by
  have hrefuse : ∀ tick e s', ({ s.setPhase .idle with tick } : Session).Left IsDisconnect s' →
      err e s' :=
    fun tick e s' h => herr e s' (.refused (h.congr rfl fun _ => rfl))
  unfold completeRekeyReply
  split
  next clientInit rest hread =>
    simp only [ensures_bind, ask_ensures]
    split
    next => exact disconnect_ensures fun s' h => hrefuse _ _ s' h
    next => exact disconnect_ensures fun s' h => hrefuse _ _ s' h
    next outcome hex =>
      simp only [ensures_bind, ensures_look, ask_ensures]
      split
      next signature _ =>
        split
        next newRx newTx hpair =>
          simp only [ensures_bind]
          let r : HybridReply env s p iC iS n :=
            ⟨clientInit, _, _, outcome, signature, newRx, newTx, rest, hread, hex, hpair⟩
          -- The reply and NEWKEYS; either write may be the last thing that happens.
          refine writePacket_ensures (fun tick₁ bytesTx₁ => ?_) fun failure s' h => ?_
          · refine writePacket_ensures (fun tick bytesTx => ?_) fun failure s' h => ?_
            · exact hok _ _ (.replied iC iS n tick₁ tick bytesTx₁ bytesTx r hphase hmsg)
            · exact herr _ _ (.finishing r.payload iC iS n tick₁ bytesTx₁ hphase rfl
                (h.congr rfl fun _ => rfl))
          · exact herr _ _ (.replying r.payload iC iS n hphase rfl (h.congr rfl fun _ => rfl))
        next => exact herr _ _ (.refused (.inl rfl))
      next => exact disconnect_ensures fun s' h => hrefuse _ _ s' h
  next => exact disconnect_ensures fun s' h => herr _ s' (.refused h.of_setPhase)

/-- **The re-key sub-state machine.** Every packet it is fed does one of the
things listed. -/
theorem stepRekey_ensures {p : Bytes} {ok : RekeyStep → Session → Prop}
    {err : TransportError → Session → Prop}
    (hok : ∀ step s', Rekeys env p s step s' → ok step s')
    (herr : ∀ e s', RekeyFails p s s' → err e s') :
    (stepRekey env p).Ensures s ok err := by
  -- Every refusal leaves the session idle behind a disconnect.
  have hrefuse : ∀ {β : Type} (reason : Reason) (ok' : β → Session → Prop),
      (protocolDisconnect env reason : SessionProg β).Ensures (s.setPhase .idle) ok' err :=
    fun reason ok' => disconnect_ensures fun s' h => herr _ s' (.refused h.of_setPhase)
  have hhead : ∀ msg : UInt8, msg ≠ 0 → (p.head?.getD 0 = msg ↔ p.head? = some msg) := by
    intro msg hmsg
    cases p with
    | nil => simp [hmsg.symm]
    | cons b r => simp
  simp only [stepRekey, ensures_bind, ensures_look, ensures_update]
  split
  next hphase =>
    split
    next => exact hrefuse _ _
    next hmsg =>
      have hmsg := (hhead sshMsgKexinit (by decide)).1 (not_not.1 hmsg)
      simp only [ensures_bind, ask_ensures, ensures_update]
      split
      next cookie _ =>
        simp only [ensures_bind]
        refine writePacket_ensures (fun tick bytesTx => ?_) fun failure s' h => ?_
        · refine negotiateRekey_ensures (fun n hn => ?_) fun e s' h => ?_
          · have h := hok _ _ (.opened cookie n tick bytesTx (env.now s.tick) hphase hmsg hn)
            exact h
          · exact herr _ _ (.openedRefused cookie tick bytesTx hphase hmsg
              (h.congr rfl fun _ => rfl))
        · exact herr _ _ (.opening cookie hphase hmsg (h.congr rfl fun _ => rfl))
      next => exact herr _ _ (.refused (.inl rfl))
  -- The server has sent its KEXINIT: the peer answers it, or goes on as before.
  next iS hphase =>
    split
    next hmsg =>
      have hmsg := (hhead sshMsgKexinit (by decide)).1 hmsg
      simp only [ensures_bind]
      refine negotiateRekey_ensures (fun n hn => ?_) fun e s' h => ?_
      · have h := hok _ _ (.answered iS n s.tick hphase hmsg hn)
        exact h
      · exact herr _ _ (.refused h.of_setPhase)
    next hmsg =>
      have hmsg := (not_congr (hhead sshMsgKexinit (by decide))).1 hmsg
      have hsame : (s.setPhase .idle).setPhase (.sentKexInit iS) = s := by
        rw [← hphase]
        rfl
      have h := hok _ _ (.passed iS hphase hmsg)
      simp only [ensures_bind, ensures_update, ensures_pure, hsame]
      exact h
  next iC iS n hphase =>
    have h := hok _ _ (.skipped iC iS n hphase)
    exact h
  next iC iS n hphase =>
    split
    next hmsg =>
      exact completeRekeyReply_ensures hphase ((hhead sshMsgKexHybridInit (by decide)).1 hmsg)
        hok herr
    next => exact hrefuse _ _
  -- The reply is out; only NEWKEYS is left.
  next newRx hphase =>
    split
    next hmsg =>
      split
      next => exact hrefuse _ _
      next hpayload =>
        have h := hok _ _ (.completed newRx (s.tick + 1) (env.now s.tick) hphase
          (not_not.1 hpayload))
        exact h
    next => exact hrefuse _ _

end QuantumSsh.Transport
