import QuantumSsh.Channel.Outflow
import QuantumSsh.Transport.Order

/-!
# Strict key exchange

What the server promises around a key exchange, initial or not: everything behind its
first NEWKEYS is sealed, and between the peer's KEXINIT and its NEWKEYS nothing but
messages of the exchange is taken. Both fail in one place each, and only there.
-/

namespace QuantumSsh.Channel

open Wire Kex Machine Program Transport

/-! ### Behind our NEWKEYS -/

/-- Whatever the server writes behind its NEWKEYS is sealed and numbered from zero, as
long as the NEWKEYS is not answered with another packet. -/
theorem sealed_unless_answered (host : Host) (input : Bytes)
    (h : ¬AnsweredOtherwise (runHandshake host (Link.start input)).2.log) :
    SealedBehindNewkeys host.env.crypto (runHandshake host (Link.start input)).2.log := by
  have hensures := runHandshake_ensures host input
  rcases hrun : runHandshake host (Link.start input) with ⟨result, l⟩
  rw [hrun] at h
  cases result with
  | ok accepted =>
    obtain ⟨n, -, ⟨tx₀, -, hat⟩, -⟩ := hensures.of_ok hrun
    exact (phase_late.settles _ hat.phase).resolve_right h
  | error e => exact (hensures.of_error hrun).sealing.resolve_right h

/-- What was logged behind our first NEWKEYS. -/
def behindNewkeys (log : List HandshakeObs) : List HandshakeObs :=
  (log.dropWhile fun obs => !obs.isNewkeys).tail

theorem mem_behindNewkeys {before after : List HandshakeObs} {newkeys obs : HandshakeObs}
    (hnewkeys : newkeys.isNewkeys = true) (hobs : obs ∈ after) :
    obs ∈ behindNewkeys (before ++ newkeys :: after) := by
  induction before with
  | nil => simpa [behindNewkeys, hnewkeys] using hobs
  | cons x before ih =>
    cases hx : x.isNewkeys with
    | true => simp [behindNewkeys, hx, hobs]
    | false => simpa [behindNewkeys, hx] using ih

theorem exists_behindNewkeys {log : List HandshakeObs} {obs : HandshakeObs}
    (hobs : obs ∈ behindNewkeys log) :
    ∃ before newkeys, log = before ++ newkeys :: behindNewkeys log ∧ newkeys.isNewkeys = true := by
  induction log with
  | nil => simp [behindNewkeys] at hobs
  | cons x log ih =>
    cases hx : x.isNewkeys with
    | true => exact ⟨[], x, by simp [behindNewkeys, hx], hx⟩
    | false =>
      have hsame : behindNewkeys (x :: log) = behindNewkeys log := by simp [behindNewkeys, hx]
      rw [hsame] at hobs ⊢
      obtain ⟨before, newkeys, hlog, hnewkeys⟩ := ih hobs
      exact ⟨x :: before, newkeys, congrArg (x :: ·) hlog, hnewkeys⟩

/-- The entry reads a packet other than NEWKEYS. -/
def readsOther : HandshakeObs → Bool
  | .readPlain _ payload => payload ≠ [sshMsgNewkeys]
  | _ => false

theorem not_answeredOtherwise {log : List HandshakeObs}
    (h : (behindNewkeys log).any readsOther = false) : ¬AnsweredOtherwise log := by
  rintro ⟨before, newkeys, after, seq, payload, rfl, hnewkeys, hread, hother⟩
  have hmem := @mem_behindNewkeys before _ _ _ hnewkeys hread
  have hnone := List.any_eq_false.1 h _ hmem
  simp [readsOther, hother] at hnone

/-- The entry writes a packet in the clear. -/
def writesPlain : HandshakeObs → Bool
  | .wrotePlain _ _ => true
  | _ => false

/-- A packet in the clear behind our NEWKEYS is not sealed. -/
theorem not_sealedBehindNewkeys {c : Crypto} {log : List HandshakeObs}
    (h : (behindNewkeys log).any writesPlain = true) : ¬SealedBehindNewkeys c log := by
  obtain ⟨obs, hobs, hplain⟩ := List.any_eq_true.1 h
  obtain ⟨before, newkeys, hlog, hnewkeys⟩ := exists_behindNewkeys hobs
  have hwritten : obs ∈ written (behindNewkeys log) := by
    refine List.mem_filter.2 ⟨hobs, ?_⟩
    cases obs with
    | wrotePlain => rfl
    | wroteSealed | readPlain | readSealed | agreed | switchedTx | switchedRx | resolved
    | authFailed | authSucceeded => cases hplain
  intro hsealed
  obtain hnil | ⟨k, hash, tx, payloads, -, -, hall⟩ := hsealed before newkeys _ hlog hnewkeys
  · rw [hnil] at hwritten
    simp at hwritten
  · rw [hall, sealedWith, List.mem_mapIdx] at hwritten
    obtain ⟨i, hi, rfl⟩ := hwritten
    cases hplain

/-- Signatures that always verify. -/
def plainSignatures : Signatures where
  sha256 _ := List.replicate 32 0
  sha512 _ := List.replicate 64 0
  ed25519Valid _ := true
  ed25519Weak _ := false
  verifyStrict _ _ _ := true
  mldsaVerify _ _ _ _ := true

/-- A host whose primitives always answer, with the packet ciphers as they are. -/
def plainHost : Host where
  env := plainEnv
  primitives := Cipher.streamPrimitives
  padding _ := Cipher.zeroPadding
  timeUp _ := false
  sigs := plainSignatures
  authorizedKeys := ⟨[], by simp⟩
  trustedCas := none
  clock _ := none

/-- A packet in the clear. -/
def plainPacket (payload : Bytes) : Bytes :=
  match encodePacket Cipher.zeroPadding payload with
  | .ok packet => packet
  | .error _ => []

/-- The algorithms of a client that knows extensions. -/
def clientKexList : String :=
  kexAlgorithm ++ ",kex-strict-c-v00@openssh.com,ext-info-c"

/-- What a client sends up to its KEX_HYBRID_INIT. -/
def clientHello : Bytes :=
  utf8 "SSH-2.0-client\r\n" ++ plainPacket (clientKexinit clientKexList false) ++
    plainPacket hybridInit

/-- The client's NEWKEYS answers ours, and the EXT_INFO is sealed. -/
theorem sealed_unless_answered_newkeys :
    let l := (runHandshake plainHost
      (Link.start (clientHello ++ plainPacket [sshMsgNewkeys]))).2
    (written (behindNewkeys l.log)).length = 1 ∧ SealedBehindNewkeys plainCrypto l.log := by
  have hcheck : (written (behindNewkeys (runHandshake plainHost
      (Link.start (clientHello ++ plainPacket [sshMsgNewkeys]))).2.log)).length = 1 ∧
      (behindNewkeys (runHandshake plainHost
        (Link.start (clientHello ++ plainPacket [sshMsgNewkeys]))).2.log).any readsOther = false := by
    decide +kernel
  exact ⟨hcheck.1, sealed_unless_answered plainHost _ (not_answeredOtherwise hcheck.2)⟩

/-- An IGNORE in the place of the client's NEWKEYS is answered in the clear. -/
theorem disconnect_in_the_clear :
    ¬SealedBehindNewkeys plainCrypto (runHandshake plainHost
      (Link.start (clientHello ++ plainPacket [sshMsgIgnore]))).2.log := by
  refine not_sealedBehindNewkeys ?_
  decide +kernel

/-! ### Between the peer's KEXINIT and its NEWKEYS -/

/-- The message number is in the range of the key exchange. -/
def isKexMessage (p : Bytes) : Bool := 20 ≤ p.head?.getD 0 && p.head?.getD 0 ≤ 49

/-- A KEXINIT of the peer was received, and none of its NEWKEYS accepted since. -/
def PastKexinit (log : List Obs) : Prop :=
  ∃ before iC after, log = before ++ .received iC :: after ∧ iC.head? = some sshMsgKexinit ∧
    .rekeyed ∉ after

/-- The phases behind the peer's KEXINIT. -/
def awaitsPeer : RekeyPhase → Bool
  | .idle | .sentKexInit _ => false
  | .awaitHybridInit _ _ _ _ | .awaitNewKeys _ => true

/-- The entry receives nothing. -/
def isUnreceived : Obs → Bool
  | .received _ => false
  | _ => true

variable {env : Env} {w w' : World} {log log' : List Obs}

theorem pastKexinit_concat {e : Obs} (h : PastKexinit (log ++ [e])) :
    (∃ iC, e = .received iC ∧ iC.head? = some sshMsgKexinit) ∨ e ≠ .rekeyed ∧ PastKexinit log := by
  obtain ⟨before, iC, after, hlog, hmsg, hafter⟩ := h
  cases after using List.reverseRecOn with
  | nil =>
    obtain ⟨-, he⟩ := List.append_inj' hlog rfl
    exact .inl ⟨iC, (List.cons.inj he).1, hmsg⟩
  | append_singleton after y =>
    have hlog' : log ++ [e] = (before ++ .received iC :: after) ++ [y] := by simpa using hlog
    obtain ⟨rfl, hy⟩ := List.append_inj' hlog' rfl
    obtain rfl := (List.cons.inj hy).1
    rw [List.mem_append, not_or] at hafter
    exact .inr ⟨fun he => hafter.2 (by simp [he]), before, iC, after, rfl, hmsg, hafter.1⟩

theorem PastKexinit.of_grows (h : PastKexinit log') (hgrows : Grows isUnreceived log log') :
    PastKexinit log := by
  by_contra hnot
  refine (hgrows.keeps (R := fun log => ¬PastKexinit log) ?_ hnot) h
  intro log e he hlog hpast
  obtain ⟨iC, rfl, -⟩ | ⟨-, hpast⟩ := pastKexinit_concat hpast
  · cases he
  · exact hlog hpast

theorem unreceived_of_utters {msgs : List UInt8} (h : Grows (utters msgs) log log') :
    Grows isUnreceived log log' := by
  refine h.mono fun e he => ?_
  cases e with
  | received => cases he
  | _ => rfl

theorem Reacts.unreceived {p : Bytes} (h : Reacts p w w') :
    Grows isUnreceived w.session.log w'.session.log := by
  obtain ⟨es, hneutral, hlog⟩ := h.log_eq
  have hes : ∀ e ∈ es, isUnreceived e = true := by
    intro e he
    have hone := (hneutral e he).1
    cases e with
    | received => cases hone
    | _ => rfl
  obtain ⟨-, hlog⟩ | ⟨q, -, hlog⟩ := hlog
  · exact ⟨.handled p :: es, hlog, by simpa [isUnreceived] using hes⟩
  · refine ⟨_, hlog, fun e he => ?_⟩
    simp only [List.mem_cons, List.mem_append, List.not_mem_nil, or_false] at he
    obtain rfl | he | rfl := he
    · rfl
    · exact hes e he
    · rfl

theorem ReactsAll.unreceived {ps : List Bytes} (h : ReactsAll ps w w') :
    Grows isUnreceived w.session.log w'.session.log := by
  induction h with
  | nil => exact .refl _ _
  | cons hone _ ih => exact hone.unreceived.trans ih

theorem Occurs.unreceived {event : Event} (h : Occurs event w w') :
    Grows isUnreceived w.session.log w'.session.log := by
  cases h with
  | chunk kind data => exact .one rfl rfl
  | credit child n rest => exact .one rfl rfl
  | unsent | exited | ended | creditsEnded | woken => exact .refl _ _

/-- As long as `drive` goes on, the phase knows that the peer's KEXINIT is open. -/
def Config.Attentive (c : Config) : Prop :=
  c.live → PastKexinit c.world.session.log → awaitsPeer c.world.session.rekey.phase = true

theorem Config.Attentive.grows {pc pc' : Pc} (h : Config.Attentive ⟨w, pc⟩)
    (hlive : Config.live ⟨w, pc⟩) (hgrows : Grows isUnreceived w.session.log w'.session.log)
    (hphase : w'.session.rekey.phase = w.session.rekey.phase) : Config.Attentive ⟨w', pc'⟩ := by
  intro _ hpast
  have hbefore := h hlive (hpast.of_grows hgrows)
  exact (congrArg awaitsPeer hphase).trans hbefore

/-- A packet that is no KEXINIT opens no exchange. -/
theorem pastKexinit_of_arrived {p : Bytes} (h : PastKexinit (w.arrived p).session.log)
    (hmsg : p.head? ≠ some sshMsgKexinit) : PastKexinit w.session.log := by
  obtain ⟨iC, he, hiC⟩ | ⟨-, hpast⟩ := pastKexinit_concat h
  · cases he
    exact absurd hiC hmsg
  · exact hpast

theorem TakesPacket.attentive {p : Bytes} (htakes : TakesPacket env p w w')
    (h : Config.Attentive ⟨w, .waiting⟩) : Config.Attentive ⟨w', .flush⟩ := by
  intro _ hpast
  have hbefore := h (by simp [Config.live])
  cases htakes with
  | handled hwhen hreacts =>
    have hpast := hpast.of_grows hreacts.unreceived
    have hmsg : p.head? ≠ some sshMsgKexinit := by
      cases hwhen with
      | idle hphase hmsg => exact hmsg
      | inline iS hphase hinline =>
        intro hmsg
        simp [isInline, hmsg, sshMsgKexinit, sshMsgChannelData, sshMsgChannelWindowAdjust,
          sshMsgChannelEof] at hinline
    exact (congrArg awaitsPeer hreacts.phase_eq).trans (hbefore (pastKexinit_of_arrived hpast hmsg))
  | deferred iS hphase hmsg hinline hroom => exact hbefore (pastKexinit_of_arrived hpast hmsg)
  | rekeying hrekeys => cases hrekeys <;> rfl
  | rekeyed hrekeys hdrained =>
    have hpast := hpast.of_grows hdrained.unreceived
    cases hrekeys with
    | completed newRx tick now hphase hmsg =>
      obtain ⟨iC, he, -⟩ | ⟨hne, -⟩ := pastKexinit_concat hpast
      · cases he
      · exact absurd rfl hne

theorem Config.Attentive.turn {c c' : Config} {input : Input} (h : c.Attentive)
    (hturn : Turn env c input c') : c'.Attentive := by
  have hlive := hturn.live
  cases hturn with
  | flushed hidle hrun =>
    exact h.grows hlive (unreceived_of_utters (FlushOnes.grows hrun)) (FlushOnes.stance hrun).phase
  | unflushed hactive => exact h.grows hlive (.refl _ _) rfl
  | handedOff hoff => exact h.grows hlive (unreceived_of_utters hoff.grows) hoff.stance.phase
  | settled hsettles =>
    intro hlive' hpast
    have hbefore := h hlive (hpast.of_grows (unreceived_of_utters hsettles.grows))
    -- An exchange that is open keeps the loop from settling anything.
    cases hsettles with
    | busy hactive => exact hbefore
    | rekeyed cookie tick bytesTx started trigger hidle => simp [hidle, awaitsPeer] at hbefore
    | closes tick now hidle => simp [hidle, awaitsPeer] at hbefore
  | packet p htakes => exact htakes.attentive h
  | occurred event hoccurs => exact h.grows hlive hoccurs.unreceived hoccurs.phase_eq
  | pumped child child' step hpc hchild hpump => exact h.grows hpc (.refl _ _) rfl
  | flushFailed | settleFailed | packetFailed | readFailed | timedOut =>
    exact fun hlive' => absurd rfl (hlive' _)

theorem attentive_start (h : Handshake) : (Config.start h).Attentive := by
  rintro - ⟨before, iC, after, hlog, -, -⟩
  have hmem : Obs.received iC ∈ h.frames.map Obs.sealed := by
    change Obs.received iC ∈ (Config.start h).world.session.log
    rw [hlog]
    simp
  simp at hmem

/-- Behind the peer's KEXINIT a packet outside the exchange ends the connection, unless
it arrives in the place of a wrong guess. -/
theorem endsOn_unless_guess {p : Bytes} (hphase : awaitsPeer w.session.rekey.phase = true)
    (hkex : isKexMessage p = false) :
    Config.EndsOn env p ⟨w, .waiting⟩ ↔ ¬AwaitsGuess w.session := by
  refine ⟨fun hends hguess => not_endsOn_of_guess hguess hends, fun hguess => ?_⟩
  refine endsOn_of_not_takes fun w' htakes => ?_
  have hnot : ∀ {phase : RekeyPhase}, awaitsPeer phase = false →
      w.session.rekey.phase ≠ phase := by
    rintro phase hfalse rfl
    simp [hphase] at hfalse
  cases htakes with
  | handled hwhen hreacts =>
    cases hwhen with
    | idle hidle hmsg => exact hnot rfl hidle
    | inline iS hsent hinline => exact hnot rfl hsent
  | deferred iS hsent hmsg hinline hroom => exact hnot rfl hsent
  | rekeying hrekeys =>
    cases hrekeys with
    | opened cookie n tick bytesTx started hidle => exact hnot rfl hidle
    | answered iS n tick hsent => exact hnot rfl hsent
    | skipped iC iS n hskips => exact hguess ⟨iC, iS, n, hskips⟩
    | replied iC iS n tick₁ tick bytesTx₁ bytesTx r hawaits hmsg =>
      simp [isKexMessage, hmsg, sshMsgKexHybridInit] at hkex
  | rekeyed hrekeys hdrained =>
    cases hrekeys with
    | completed newRx tick now hawaits hmsg =>
      rw [hmsg] at hkex
      cases hkex

/-! ### The first exchange -/

/-- The packets that the initial exchange may wait for behind the peer's KEXINIT. -/
def inExchange : Transport.Awaited → Bool
  | .guessed | .hybridInit | .newKeys => true
  | .kexInit | .serviceRequest | .userAuth => false

/-- The packets hold the peer's KEXINIT, and not its NEWKEYS yet. -/
def MidExchange (arrivals : List Arrival) : Prop :=
  ∃ awaited, Awaited.run .kexInit arrivals = some awaited ∧ inExchange awaited = true

/-- The one packet is a KEXINIT that announces a guess which is wrong. -/
def AnnouncesGuess (arrivals : List Arrival) : Prop :=
  ∃ iC n, arrivals = [⟨false, iC⟩] ∧ negotiatedBy iC = some n ∧ n.skipGuessedPacket = true

theorem not_accepts_kexInit (awaited : Transport.Awaited) (x : Arrival) :
    awaited.accepts x ≠ some .kexInit := by
  obtain ⟨isSealed, payload⟩ := x
  intro h
  cases awaited <;> cases isSealed <;>
    simp only [Awaited.accepts, Option.map_eq_some_iff, Option.ite_none_right_eq_some,
      reduceCtorEq, Option.some.injEq, and_false] at h
  obtain ⟨n, -, h⟩ := h
  split at h <;> cases h

/-- A KEXINIT is awaited before the first packet only. -/
theorem eq_nil_of_run_kexInit {arrivals : List Arrival}
    (h : Awaited.run .kexInit arrivals = some .kexInit) : arrivals = [] := by
  cases arrivals using List.reverseRecOn with
  | nil => rfl
  | append_singleton before x =>
    rw [Awaited.run_concat, Option.bind_eq_some_iff] at h
    obtain ⟨awaited, -, haccepts⟩ := h
    exact absurd haccepts (not_accepts_kexInit awaited x)

/-- Where a guess is awaited, the peer has announced one. -/
theorem announcesGuess_of_run {arrivals : List Arrival}
    (h : Awaited.run .kexInit arrivals = some .guessed) : AnnouncesGuess arrivals := by
  cases arrivals using List.reverseRecOn with
  | nil => cases h
  | append_singleton before x =>
    rw [Awaited.run_concat, Option.bind_eq_some_iff] at h
    obtain ⟨awaited, hbefore, haccepts⟩ := h
    obtain ⟨isSealed, iC⟩ := x
    cases awaited <;> cases isSealed <;>
      simp only [Awaited.accepts, Option.map_eq_some_iff, Option.ite_none_right_eq_some,
        reduceCtorEq, Option.some.injEq, and_false] at haccepts
    obtain ⟨n, hn, hskip⟩ := haccepts
    rw [eq_nil_of_run_kexInit hbefore]
    refine ⟨iC, n, rfl, hn, ?_⟩
    split at hskip
    next hguess => exact hguess
    next => cases hskip

theorem refuses_of_not_kex {awaited : Transport.Awaited} {x : Arrival}
    (hawaited : inExchange awaited = true) (hguess : awaited ≠ .guessed)
    (hkex : isKexMessage x.payload = false) : awaited.accepts x = none := by
  obtain ⟨isSealed, payload⟩ := x
  cases awaited with
  | kexInit | serviceRequest | userAuth => cases hawaited
  | guessed => exact absurd rfl hguess
  | hybridInit =>
    cases isSealed with
    | true => rfl
    | false =>
      have hnot : isHybridInit payload = false := by
        rw [isHybridInit, Bool.and_eq_false_iff]
        left
        simp only [decide_eq_false_iff_not]
        intro hhead
        simp [isKexMessage, hhead, sshMsgKexHybridInit] at hkex
      simp [Awaited.accepts, hnot]
  | newKeys =>
    cases isSealed with
    | true => rfl
    | false =>
      have hnot : payload ≠ [sshMsgNewkeys] := by
        rintro rfl
        cases hkex
      simp [Awaited.accepts, hnot]

/-- **Nothing but messages of the exchange past the peer's KEXINIT.** In the initial
exchange, and in every state of `drive`, a packet outside the range of the key exchange
ends the connection between the peer's KEXINIT and its NEWKEYS, unless it arrives in
the place of a wrong guess. -/
theorem only_kex_past_kexinit (host : Host) (input : Bytes) (env : Env) (h : Handshake)
    (inputs : List Input) :
    (∀ (before after : List Arrival) (x : Arrival),
      Transport.received (runHandshake host (Link.start input)).2.log = before ++ x :: after →
      MidExchange before → isKexMessage x.payload = false → ¬AnnouncesGuess before →
      after = [] ∧ ∃ e, (runHandshake host (Link.start input)).1 = .error e) ∧
    ∀ c, Config.runs env h inputs = some c → c.pc = .waiting →
      PastKexinit c.world.session.log → ∀ p, isKexMessage p = false →
      (c.EndsOn env p ↔ ¬AwaitsGuess c.world.session) := by
  constructor
  · rintro before after x hreceived ⟨awaited, hrun, hawaited⟩ hkex hguess
    obtain ⟨next, hnext, hrefused⟩ := fails_of_refused host input hreceived
    obtain rfl := Option.some.inj (hrun.symm.trans hnext)
    refine hrefused (refuses_of_not_kex hawaited ?_ hkex)
    rintro rfl
    exact hguess (announcesGuess_of_run hrun)
  · intro c hrun hpc hpast p hkex
    have hattentive : c.Attentive :=
      invariant_run (fun _ _ _ hinv hstep => Config.Attentive.turn hinv (step_turn hstep))
        (attentive_start h) hrun
    obtain ⟨w, pc⟩ := c
    obtain rfl : pc = .waiting := hpc
    exact endsOn_unless_guess (hattentive (by simp [Config.live]) hpast) hkex

/-- The client starts a re-key and announces no guess. -/
def kexinitRun : List Input :=
  packetTurn (clientKexinit kexAlgorithm false) ++ [.phase, .phase, .phase]

/-- The log ends in the peer's KEXINIT and the answer to it. -/
def endsInKexinit (log : List Obs) : Bool :=
  match log.reverse with
  | .sealed _ :: .received iC :: _ => iC.head? = some sshMsgKexinit
  | _ => false

theorem pastKexinit_of_last {log : List Obs} (h : endsInKexinit log = true) :
    PastKexinit log := by
  unfold endsInKexinit at h
  split at h
  next f iC rest heq =>
    refine ⟨rest.reverse, iC, [.sealed f], ?_, of_decide_eq_true h, by simp⟩
    rw [← List.reverse_reverse log, heq]
    simp
  next => cases h

/-- An IGNORE before the client's NEWKEYS ends a handshake, and one behind its KEXINIT
ends a session. -/
theorem only_kex_past_kexinit_ignore :
    (∃ e, (runHandshake plainHost
      (Link.start (clientHello ++ plainPacket [sshMsgIgnore]))).1 = .error e) ∧
    ∃ c, Config.runs plainEnv plainHandshake kexinitRun = some c ∧
      c.EndsOn plainEnv [sshMsgIgnore] := by
  obtain ⟨hinitial, hrekey⟩ := only_kex_past_kexinit plainHost
    (clientHello ++ plainPacket [sshMsgIgnore]) plainEnv plainHandshake kexinitRun
  constructor
  · have hcheck : Transport.received (runHandshake plainHost
        (Link.start (clientHello ++ plainPacket [sshMsgIgnore]))).2.log =
          [⟨false, clientKexinit clientKexList false⟩, ⟨false, hybridInit⟩] ++
            ⟨false, [sshMsgIgnore]⟩ :: [] ∧
        Awaited.run .kexInit [⟨false, clientKexinit clientKexList false⟩, ⟨false, hybridInit⟩] =
          some .newKeys := by
      decide +kernel
    refine (hinitial _ _ _ hcheck.1 ⟨_, hcheck.2, rfl⟩ rfl ?_).2
    rintro ⟨iC, n, hone, -, -⟩
    simp at hone
  · have hc : (Config.runs plainEnv plainHandshake kexinitRun).map (fun c =>
        c.pc.isWaiting && skipsGuess c.world.session.rekey.phase = some false
          && endsInKexinit c.world.session.log) = some true := by
      decide +kernel
    obtain ⟨c, hrun, hc⟩ := Option.map_eq_some_iff.1 hc
    simp only [Bool.and_eq_true, decide_eq_true_eq] at hc
    obtain ⟨⟨hpc, hphase⟩, hlog⟩ := hc
    have hpc : c.pc = .waiting := Pc.eq_waiting hpc
    have hpast := pastKexinit_of_last hlog
    refine ⟨c, hrun, (hrekey c hrun hpc hpast _ rfl).2 ?_⟩
    rintro ⟨iC, iS, n, hguess⟩
    rw [hguess] at hphase
    cases hphase

/-- An IGNORE in the place of the guess is dropped. -/
theorem ignore_guess_dropped : ∃ c, Config.runs plainEnv plainHandshake guessRun = some c ∧
    c.pc = .waiting ∧ PastKexinit c.world.session.log ∧ isKexMessage [sshMsgIgnore] = false ∧
    ¬c.EndsOn plainEnv [sshMsgIgnore] := by
  have hc : (Config.runs plainEnv plainHandshake guessRun).map (fun c =>
      c.pc.isWaiting && skipsGuess c.world.session.rekey.phase = some true &&
        endsInKexinit c.world.session.log) = some true := by
    decide +kernel
  obtain ⟨⟨w, pc⟩, hrun, hc⟩ := Option.map_eq_some_iff.1 hc
  simp only [Bool.and_eq_true, decide_eq_true_eq] at hc
  obtain ⟨⟨hpc, hphase⟩, hlog⟩ := hc
  obtain rfl := Pc.eq_waiting hpc
  exact ⟨_, hrun, rfl, pastKexinit_of_last hlog, rfl,
    not_endsOn_of_guess (exists_of_skipsGuess hphase)⟩

end QuantumSsh.Channel
