import QuantumSsh.Channel.Custody

/-!
# Agreement with a conforming client

Server and client stay abreast over any number of key exchanges, whichever of them starts
one: the packets under way in a direction lie between the ends of that direction, and what
lies there accords with the stages of both. From this follows that either opens every packet
as it was sealed, and that the server meets no packet it does not expect.
-/

namespace QuantumSsh.Channel

open Wire Kex Machine Program Transport

variable {env : Env} {k : ClientCrypto env.crypto} {w w₁ w' : World} {cl : Client}
  {toServer toClient : List Frame} {p : Bytes} {xs : List Bytes}

/-! ### Both directions -/

/-- The packets under way lie between the two ends of each direction, and both parties stand
in accord. -/
structure Abreast (k : ClientCrypto env.crypto) (w : World) (cl : Client)
    (toServer toClient : List Frame) : Prop where
  clientId : cl.clientId = w.session.clientId
  sessionId : cl.sessionId = w.session.sessionId
  carries : ∃ ps ks qs ls, packets.Carries w.rxEnd ps ks toServer cl.tx ∧
    packets.Carries cl.rx qs ls toClient w.txEnd ∧
    Accord k cl.clientId cl.sessionId w.session.rekey.phase ps ks cl.stage qs ls

/-! ### The client moves -/

theorem Abreast.sends (h : Abreast k w cl toServer toClient) {stage : Stage}
    (hp : packets.switches p = false)
    (haccord : ∀ ps ks qs ls,
      Accord k cl.clientId cl.sessionId w.session.rekey.phase ps ks cl.stage qs ls →
      Accord k cl.clientId cl.sessionId w.session.rekey.phase (ps ++ [p]) ks stage qs ls) :
    Abreast k w (cl.sends p stage).1 (toServer ++ [(cl.sends p stage).2]) toClient := by
  obtain ⟨ps, ks, qs, ls, hserver, hclient, h'⟩ := h.carries
  exact ⟨h.clientId, h.sessionId, ps ++ [p], ks, qs, ls, hserver.concat (by simpa using hp),
    hclient, haccord ps ks qs ls h'⟩

theorem Abreast.switches (h : Abreast k w cl toServer toClient) {stage : Stage} {tx : PacketCipher}
    (haccord : ∀ ps ks qs ls,
      Accord k cl.clientId cl.sessionId w.session.rekey.phase ps ks cl.stage qs ls →
      Accord k cl.clientId cl.sessionId w.session.rekey.phase (ps ++ [[sshMsgNewkeys]])
        (ks ++ [tx]) stage qs ls) :
    Abreast k w (cl.switches tx stage).1 (toServer ++ [(cl.switches tx stage).2]) toClient := by
  obtain ⟨ps, ks, qs, ls, hserver, hclient, h'⟩ := h.carries
  have hnewkeys : packets.switches [sshMsgNewkeys] = true := rfl
  exact ⟨h.clientId, h.sessionId, ps ++ [[sshMsgNewkeys]], ks ++ [tx], qs, ls,
    hserver.concatSwitch tx hnewkeys, hclient, haccord ps ks qs ls h'⟩

theorem switches_of_method {g : Bytes} (h : isMethodMessage g = true) :
    packets.switches g = false := by
  cases hg : g.head? with
  | none => simp [packets, hg]
  | some msg =>
    refine switches_of_head hg ?_
    rintro rfl
    simp [isMethodMessage, hg, sshMsgNewkeys] at h

/-- Whatever the client sends, the two stay abreast. -/
theorem Abreast.act (h : Abreast k w cl toServer toClient) {act : Act} {cl' : Client} {f : Frame}
    (hact : cl.act k act = some (cl', f)) : Abreast k w cl' (toServer ++ [f]) toClient := by
  cases act with
  | message p =>
    simp only [Client.act, Option.ite_none_right_eq_some, Option.some.injEq] at hact
    obtain ⟨⟨hstage, hp⟩, hsends⟩ := hact
    obtain ⟨rfl, rfl⟩ := Prod.ext_iff.1 hsends.symm
    exact h.sends (switches_of_not_kex hp) fun _ _ _ _ h => h.message hstage hp
  | kexinit o =>
    have hp : packets.switches o.payload = false := switches_of_head o.head (by decide)
    simp only [Client.act] at hact
    split at hact
    next hstage =>
      obtain ⟨rfl, rfl⟩ := Prod.ext_iff.1 (Option.some.inj hact).symm
      exact h.sends hp fun _ _ _ _ h => (hstage ▸ h).kexinit o
    next iS hstage =>
      obtain ⟨rfl, rfl⟩ := Prod.ext_iff.1 (Option.some.inj hact).symm
      exact h.sends hp fun _ _ _ _ h => (hstage ▸ h).answer o
    next => cases hact
  | guess g =>
    simp only [Client.act] at hact
    split at hact
    next o heard hstage =>
      simp only [Option.ite_none_right_eq_some, Option.some.injEq] at hact
      obtain ⟨⟨hg, hother⟩, hsends⟩ := hact
      obtain ⟨rfl, rfl⟩ := Prod.ext_iff.1 hsends.symm
      refine h.sends (switches_of_method hg) fun _ _ _ _ h => (hstage ▸ h).sends ?_ ⟨_, _, _, rfl⟩
        fun _ _ _ _ hsent => hsent.guess hg hother
      intro _ _ _ hawaits
      cases hawaits
    next => cases hact
  | guessInit secret =>
    simp only [Client.act] at hact
    split at hact
    next o heard hstage =>
      simp only [Option.ite_none_right_eq_some, Option.some.injEq] at hact
      obtain ⟨-, hsends⟩ := hact
      obtain ⟨rfl, rfl⟩ := Prod.ext_iff.1 hsends.symm
      refine h.sends rfl fun _ _ _ _ h => (hstage ▸ h).sends ?_ ⟨_, _, _, rfl⟩
        fun _ _ _ hours hsent => hsent.guessInit hours secret
      intro _ _ _ hawaits
      cases hawaits
    next => cases hact
  | init secret =>
    have hsends : ∀ {o : Offer} {iS : Bytes} {guess : Guess}, guess ≠ .owed →
        cl.stage = .offered o (some iS) guess →
        some (cl.sends (k.initPayload secret) (.waiting o iS secret)) = some (cl', f) →
        Abreast k w cl' (toServer ++ [f]) toClient := by
      intro o iS guess hguess hstage hact
      obtain ⟨rfl, rfl⟩ := Prod.ext_iff.1 (Option.some.inj hact).symm
      refine h.sends rfl fun _ _ _ _ h => (hstage ▸ h).sends ?_ ⟨_, _, _, rfl⟩
        fun _ _ _ _ hsent => hsent.init hguess secret
      intro _ _ _ hawaits
      cases hawaits
    simp only [Client.act] at hact
    split at hact
    next hstage => exact hsends (by simp) hstage hact
    next hstage => exact hsends (by simp) hstage hact
    next => cases hact
  | newkeys =>
    simp only [Client.act] at hact
    split at hact
    next tx rx hstage =>
      obtain ⟨rfl, rfl⟩ := Prod.ext_iff.1 (Option.some.inj hact).symm
      exact h.switches fun _ _ _ _ h => (hstage ▸ h).switched
    next tx hstage =>
      obtain ⟨rfl, rfl⟩ := Prod.ext_iff.1 (Option.some.inj hact).symm
      exact h.switches fun _ _ _ _ h => (hstage ▸ h).finished
    next => cases hact

/-- The client opens the next packet as it was sealed. -/
theorem Abreast.receive {f : Frame} (h : Abreast k w cl toServer (f :: toClient))
    (hlive : cl.stage ≠ .gone) :
    ∃ q, f = packets.mark cl.rx q ∧ Abreast k w (cl.takes k q) toServer toClient := by
  obtain ⟨ps, ks, qs, ls, hserver, hclient, haccord⟩ := h.carries
  obtain ⟨q, qs, rfl, rfl⟩ := hclient.exists_head
  refine ⟨q, rfl, ?_⟩
  obtain hreads := haccord.reads hlive
  generalize cl.takes k q = cl' at hreads
  cases hreads with
  | next hq haccord' =>
    obtain ⟨fs, hfs, hclient'⟩ := hclient.of_next hq
    obtain ⟨-, rfl⟩ := List.cons.inj hfs
    exact ⟨h.clientId, h.sessionId, ps, ks, qs, ls, hserver, hclient', haccord'⟩
  | switch hq hls haccord' =>
    subst hls
    obtain ⟨fs, hfs, hclient'⟩ := hclient.of_switch hq
    obtain ⟨-, rfl⟩ := List.cons.inj hfs
    exact ⟨h.clientId, h.sessionId, ps, ks, qs, _, hserver, hclient', haccord'⟩

/-! ### The server moves -/

/-- The server goes on, and with what it puts under way the two are abreast. -/
def Proceeds (k : ClientCrypto env.crypto) (w w' : World) (cl : Client)
    (toServer toClient : List Frame) : Prop :=
  ∃ fs, sealedFrames w'.session.log = sealedFrames w.session.log ++ fs ∧
    Abreast k w' cl toServer (toClient ++ fs)

theorem Abreast.proceeds (h : Abreast k w' cl toServer toClient)
    (hlog : sealedFrames w'.session.log = sealedFrames w.session.log) :
    Proceeds k w w' cl toServer toClient :=
  ⟨[], by rw [hlog, List.append_nil], by rwa [List.append_nil]⟩

theorem Proceeds.trans (h : Proceeds k w w₁ cl toServer toClient)
    (h' : ∀ toClient, Abreast k w₁ cl toServer toClient → Proceeds k w₁ w' cl toServer toClient) :
    Proceeds k w w' cl toServer toClient := by
  obtain ⟨fs, hlog, h⟩ := h
  obtain ⟨gs, hlog', h'⟩ := h' _ h
  exact ⟨fs ++ gs, by rw [hlog', hlog, List.append_assoc], by rwa [← List.append_assoc]⟩

/-- Messages outside of an exchange. -/
theorem Abreast.ships (h : Abreast k w cl toServer toClient) (hships : Ships xs w w')
    (hxs : ∀ x ∈ xs, isOrdinary x = true) (hidle : w.session.rekey.phase = .idle ∨ xs = []) :
    Proceeds k w w' cl toServer toClient := by
  refine ⟨_, hships.frames, h.clientId.trans hships.clientId.symm,
    h.sessionId.trans hships.sessionId.symm, ?_⟩
  obtain ⟨ps, ks, qs, ls, hserver, hclient, haccord⟩ := h.carries
  rw [hships.tx, hships.rx, hships.phase]
  refine ⟨ps, ks, qs ++ xs, ls, hserver,
    hclient.concat fun x hx => switches_of_ordinary (hxs x hx), ?_⟩
  obtain hidle | rfl := hidle
  · rw [hidle] at haccord ⊢
    exact haccord.seals hxs
  · rwa [List.append_nil]

theorem Abreast.speaks (h : Abreast k w cl toServer toClient) (hspeaks : Speaks w w')
    (hidle : w.session.rekey.phase = .idle) : Proceeds k w w' cl toServer toClient := by
  obtain ⟨xs, hxs, hships⟩ := hspeaks
  exact h.ships hships hxs (.inl hidle)

/-- Nothing is sealed. -/
theorem Abreast.quiet (h : Abreast k w cl toServer toClient) (hships : Ships [] w w') :
    Proceeds k w w' cl toServer toClient :=
  h.ships hships (by simp) (.inr rfl)

/-- The server starts an exchange. -/
theorem Abreast.begun (h : Abreast k w cl toServer toClient) (hidle : w.session.rekey.phase = .idle)
    {cookie : Bytes} (hours : IsOurKexinit (buildRekeyKexinit cookie)) (tick bytesTx started : ℕ)
    (trigger : Trigger) :
    Proceeds k w { w with session := w.session.begun cookie tick bytesTx started trigger } cl
      toServer toClient := by
  obtain ⟨ps, ks, qs, ls, hserver, hclient, haccord⟩ := h.carries
  rw [hidle] at haccord
  refine ⟨_, sealedFrames_append _ _, h.clientId, h.sessionId, ps, ks,
    qs ++ [buildRekeyKexinit cookie], ls, hserver, ?_, haccord.begun hours⟩
  have hkexinit : packets.switches (buildRekeyKexinit cookie) = false :=
    switches_of_head hours.head (by decide)
  exact hclient.concat (by simpa using hkexinit)

theorem Abreast.settles (h : Abreast k w cl toServer toClient) (hsettles : Settles w false w')
    (hours : OurPhase w'.session.rekey.phase) : Proceeds k w w' cl toServer toClient := by
  cases hsettles with
  | busy hactive => exact h.proceeds rfl
  | rekeyed cookie tick bytesTx started trigger hidle hcredits hstate =>
    refine (h.speaks hcredits.speaks hidle).trans fun _ h => ?_
    exact h.begun (hcredits.stance.phase.trans hidle) hours tick bytesTx started trigger
  | @closes w₁ _ _ tick now hidle hcredits hdue hcloses =>
    have hcredited : Speaks w (w₁.atTick tick) := hcredits.speaks.congr ⟨tick, rfl⟩
    exact h.speaks (hcredited.trans hcloses.speaks) hidle

/-! ### The server reads -/

theorem sealedFrames_arrived (w : World) (p : Bytes) :
    sealedFrames (w.arrived p).session.log = sealedFrames w.session.log :=
  (sealedFrames_append _ _).trans (List.append_nil _)

/-- The packet is at the head of what is under way to the server, and one that it can be
given. -/
structure Delivers (k : ClientCrypto env.crypto) (w : World) (cl : Client) (p : Bytes)
    (toServer toClient : List Frame) : Prop where
  clientId : cl.clientId = w.session.clientId
  sessionId : cl.sessionId = w.session.sessionId
  carries : ∃ ps ks qs ls,
    packets.Carries w.rxEnd (p :: ps) ks (packets.mark w.rxEnd p :: toServer) cl.tx ∧
      packets.Carries cl.rx qs ls toClient w.txEnd ∧
      Arrives k cl.clientId cl.sessionId p ps ks cl.stage qs ls w.session.rekey.phase

/-- The server opens the next packet as it was sealed. -/
theorem Abreast.delivers (hblob : env.hostKeyBlob.length < 2 ^ 32) {f : Frame}
    (h : Abreast k w cl (f :: toServer) toClient) :
    ∃ p, f = packets.mark w.rxEnd p ∧ Delivers k w cl p toServer toClient := by
  obtain ⟨ps, ks, qs, ls, hserver, hclient, haccord⟩ := h.carries
  obtain ⟨p, ps, rfl, rfl⟩ := hserver.exists_head
  exact ⟨p, rfl, h.clientId, h.sessionId, ps, ks, qs, ls, hserver, hclient, haccord.arrives hblob⟩

theorem isKexMessage_of_method (h : isMethodMessage p = true) : isKexMessage p = true := by
  simp only [isMethodMessage, Bool.and_eq_true, decide_eq_true_eq] at h
  simp only [isKexMessage, Bool.and_eq_true, decide_eq_true_eq]
  have hmin : (20 : UInt8) ≤ 30 := by decide
  exact ⟨UInt8.le_trans hmin h.1, h.2⟩

namespace Delivers

theorem suits (h : Delivers k w cl p toServer toClient) : Suits p w.session.rekey.phase := by
  obtain ⟨ps, ks, qs, ls, -, -, harrives⟩ := h.carries
  generalize w.session.rekey.phase = phase at harrives
  cases harrives with
  | plain hp hphase => exact .message hp hphase
  | opens hp => exact .kexinit hp (.inl rfl)
  | answers hp => exact .kexinit hp (.inr ⟨_, rfl⟩)
  | skipped hp =>
    exact .guess (isKexMessage_of_method hp)
  | init hp => exact .init hp
  | newkeys hp => exact .newkeys hp

/-- A packet other than NEWKEYS is taken off. -/
theorem next (h : Delivers k w cl p toServer toClient) (hp : packets.switches p = false) :
    ∃ ps ks qs ls, packets.Carries (packets.next w.rxEnd) ps ks toServer cl.tx ∧
      packets.Carries cl.rx qs ls toClient w.txEnd ∧
      Arrives k cl.clientId cl.sessionId p ps ks cl.stage qs ls w.session.rekey.phase := by
  obtain ⟨ps, ks, qs, ls, hserver, hclient, harrives⟩ := h.carries
  obtain ⟨fs, hfs, hserver⟩ := hserver.of_next hp
  obtain ⟨-, rfl⟩ := List.cons.inj hfs
  exact ⟨ps, ks, qs, ls, hserver, hclient, harrives⟩

/-- A message outside of the exchange. -/
theorem message (h : Delivers k w cl p toServer toClient) (hp : isKexMessage p = false) :
    Abreast k (w.arrived p) cl toServer toClient := by
  obtain ⟨ps, ks, qs, ls, hserver, hclient, harrives⟩ := h.next (switches_of_not_kex hp)
  refine ⟨h.clientId, h.sessionId, ps, ks, qs, ls, hserver, hclient, ?_⟩
  change Accord k cl.clientId cl.sessionId w.session.rekey.phase ps ks cl.stage qs ls
  have hkex : isKexMessage p = true → False := by
    rw [hp]
    simp
  generalize w.session.rekey.phase = phase at harrives ⊢
  cases harrives with
  | plain _ _ haccord => exact haccord
  | opens hmsg | answers hmsg | init hmsg => exact (hkex (isKexMessage_of_head hmsg rfl)).elim
  | skipped hmsg => exact (hkex (isKexMessage_of_method hmsg)).elim
  | newkeys hmsg =>
    subst hmsg
    cases hp

/-- A packet of the exchange that does not end it. -/
theorem rekeying (h : Delivers k w cl p toServer toClient) {s : Session}
    (hrekeys : Rekeys env p (w.arrived p).session .continued s) (hours : OurPhase s.rekey.phase) :
    Proceeds k w { w with session := s } cl toServer toClient := by
  have hlog := sealedFrames_arrived w p
  cases hrekeys with
  | opened cookie n tick bytesTx started hphase hmsg hn =>
    obtain ⟨ps, ks, qs, ls, hserver, hclient, harrives⟩ := h.next (switches_of_head hmsg (by decide))
    change w.session.rekey.phase = .idle at hphase
    rw [hphase] at harrives
    cases harrives with
    | plain hp => simp [isKexMessage_of_head hmsg rfl] at hp
    | opens _ haccord =>
      have hkexinit : packets.switches (buildRekeyKexinit cookie) = false := rfl
      refine ⟨_, (sealedFrames_append _ _).trans (congrArg (· ++ _) hlog), h.clientId, h.sessionId,
        ps, ks, qs ++ [buildRekeyKexinit cookie], ls, hserver, ?_, haccord _ n hours hn⟩
      exact hclient.concat (by simpa using hkexinit)
  | answered iS n tick hphase hmsg hn =>
    obtain ⟨ps, ks, qs, ls, hserver, hclient, harrives⟩ := h.next (switches_of_head hmsg (by decide))
    change w.session.rekey.phase = .sentKexInit iS at hphase
    rw [hphase] at harrives
    cases harrives with
    | plain hp => simp [isKexMessage_of_head hmsg rfl] at hp
    | answers _ haccord =>
      refine Abreast.proceeds ?_ hlog
      exact ⟨h.clientId, h.sessionId, ps, ks, qs, ls, hserver, hclient, haccord n hn⟩
  | skipped iC iS n hphase =>
    change w.session.rekey.phase = .awaitHybridInit iC iS n true at hphase
    have hp : packets.switches p = false := by
      obtain ⟨ps, ks, qs, ls, -, -, harrives⟩ := h.carries
      rw [hphase] at harrives
      cases harrives with
      | plain hp => exact switches_of_not_kex hp
      | skipped hp => exact switches_of_method hp
    obtain ⟨ps, ks, qs, ls, hserver, hclient, harrives⟩ := h.next hp
    rw [hphase] at harrives
    cases harrives with
    | plain _ hbefore => simp at hbefore
    | skipped _ haccord =>
      refine Abreast.proceeds ?_ hlog
      exact ⟨h.clientId, h.sessionId, ps, ks, qs, ls, hserver, hclient, haccord⟩
  | replied iC iS n tick₁ tick bytesTx₁ bytesTx r hphase hmsg =>
    obtain ⟨ps, ks, qs, ls, hserver, hclient, harrives⟩ := h.next (switches_of_head hmsg (by decide))
    change w.session.rekey.phase = .awaitHybridInit iC iS n false at hphase
    rw [hphase] at harrives
    cases harrives with
    | plain _ hbefore => simp at hbefore
    | init _ haccord =>
      have hreply : ∀ q ∈ [r.payload], packets.switches q = false := by
        intro q hq
        rw [List.mem_singleton.1 hq]
        rfl
      have hnewkeys : packets.switches [sshMsgNewkeys] = true := rfl
      have hsealed := (hclient.concat hreply).concatSwitch r.newTx hnewkeys
      rw [List.append_assoc, List.append_assoc] at hsealed
      refine ⟨_, ?_, h.clientId, h.sessionId, ps, ks, qs ++ [r.payload, [sshMsgNewkeys]], _, hserver,
        hsealed, haccord _ r h.clientId.symm h.sessionId.symm⟩
      refine (sealedFrames_append _ _).trans ?_
      rw [← List.append_assoc]
      exact congrArg (· ++ _) ((sealedFrames_append _ _).trans (congrArg (· ++ _) hlog))

/-- The NEWKEYS that ends the exchange. -/
theorem completed (h : Delivers k w cl p toServer toClient) {s : Session}
    (hrekeys : Rekeys env p (w.arrived p).session .completed s) :
    Abreast k (w.drained s) cl toServer toClient ∧
      sealedFrames s.log = sealedFrames w.session.log ∧ s.rekey.phase = .idle := by
  obtain ⟨ps, ks, qs, ls, hserver, hclient, harrives⟩ := h.carries
  cases hrekeys with
  | completed newRx tick now hphase hmsg =>
    change w.session.rekey.phase = .awaitNewKeys newRx at hphase
    rw [hphase] at harrives
    refine ⟨⟨h.clientId, h.sessionId, ?_⟩, ?_, rfl⟩
    · cases harrives with
      | plain _ hbefore => simp at hbefore
      | newkeys hp hks haccord =>
        subst hp hks
        obtain ⟨fs, hfs, hserver⟩ := hserver.of_switch rfl
        obtain ⟨-, rfl⟩ := List.cons.inj hfs
        exact ⟨ps, _, qs, ls, hserver, hclient, haccord⟩
    · refine (sealedFrames_append _ _).trans ((List.append_nil _).trans ?_)
      exact sealedFrames_arrived w p

/-- What the server does with a packet that does not end the connection. -/
theorem takes (h : Delivers k w cl p toServer toClient) (htakes : TakesPacket env p w w')
    (hours : OurPhase w'.session.rekey.phase) : Proceeds k w w' cl toServer toClient := by
  have hlog := sealedFrames_arrived w p
  have hmessage : isKexMessage p = false → Proceeds k w (w.arrived p) cl toServer toClient :=
    fun hp => (h.message hp).proceeds hlog
  cases htakes with
  | handled hwhen hreacts =>
    refine (hmessage (hwhen.not_kex h.suits)).trans fun _ h => ?_
    obtain hships | ⟨hinline, hspeaks⟩ := hreacts.ships
    · exact h.quiet hships
    · cases hwhen with
      | idle hphase hmsg => exact h.speaks hspeaks hphase
      | inline iS hphase hinline' => simp [hinline] at hinline'
  | deferred iS hphase hmsg hinline hroom =>
    refine (hmessage (h.suits.not_kex (.inr ⟨iS, hphase⟩) hmsg)).trans fun _ h => ?_
    exact h.quiet ((Ships.refl _).congr ⟨_, rfl⟩)
  | rekeying hrekeys => exact h.rekeying hrekeys hours
  | rekeyed hrekeys hdrained =>
    obtain ⟨habreast, hlog, hidle⟩ := h.completed hrekeys
    exact (habreast.proceeds hlog).trans fun _ h => h.speaks hdrained.speaks hidle

end Delivers

/-! ### Behind the end of the server -/

/-- What is under way to the client when the server has ended: what lay between the two before
the last step, and what was sealed in it. -/
inductive Trailing (k : ClientCrypto env.crypto) (cl : Client) (toClient : List Frame) : Prop
  | behind (w : World) (toServer frames : List Frame) (xs : List Bytes)
      (h : Abreast k w cl toServer frames) (hxs : ∀ x ∈ xs.dropLast, packets.switches x = false)
      (hframes : toClient = frames ++ packets.marks w.txEnd xs)
  | last (xs : List Bytes) (hxs : ∀ x ∈ xs.dropLast, packets.switches x = false)
      (hframes : toClient = packets.marks cl.rx xs)

theorem act_rx {act : Act} {cl' : Client} {f : Frame} (h : cl.act k act = some (cl', f)) :
    cl'.rx = cl.rx := by
  cases act
  all_goals
    simp only [Client.act] at h
    repeat' split at h
    all_goals cases h <;> rfl

theorem Trailing.act (h : Trailing k cl toClient) {act : Act} {cl' : Client} {f : Frame}
    (hact : cl.act k act = some (cl', f)) : Trailing k cl' toClient := by
  cases h with
  | behind w toServer frames xs h hxs hframes =>
    exact .behind w _ frames xs (h.act hact) hxs hframes
  | last xs hxs hframes =>
    refine .last xs hxs ?_
    rw [act_rx hact]
    exact hframes

theorem takes_rx {q : Bytes} (hq : packets.switches q = false) :
    (cl.takes k q).rx = packets.next cl.rx := by
  have hnot : q.head? ≠ some sshMsgNewkeys := by simpa [packets] using hq
  rw [Client.takes, if_neg hnot]

theorem Trailing.last_receive {f : Frame} (hxs : ∀ x ∈ xs.dropLast, packets.switches x = false)
    (hframes : f :: toClient = packets.marks cl.rx xs) :
    ∃ q, f = packets.mark cl.rx q ∧ Trailing k (cl.takes k q) toClient := by
  cases xs with
  | nil => cases hframes
  | cons q xs =>
    obtain ⟨rfl, rfl⟩ := List.cons.inj hframes
    refine ⟨q, rfl, .last xs (fun x hx => hxs x ?_) ?_⟩
    · cases xs with
      | nil => cases hx
      | cons y xs => exact List.mem_cons_of_mem q hx
    · cases xs with
      | nil => rfl
      | cons y xs => rw [takes_rx (hxs q List.mem_cons_self)]

/-- The client opens the last packets too as they were sealed. -/
theorem Trailing.receive {f : Frame} (h : Trailing k cl (f :: toClient))
    (hlive : cl.stage ≠ .gone) :
    ∃ q, f = packets.mark cl.rx q ∧ Trailing k (cl.takes k q) toClient := by
  cases h with
  | behind w toServer frames xs h hxs hframes =>
    cases frames with
    | nil =>
      obtain ⟨ps, ks, qs, ls, -, hclient, -⟩ := h.carries
      obtain ⟨-, -, htx⟩ := hclient.items_of_nil
      rw [htx] at hframes
      exact Trailing.last_receive hxs hframes
    | cons g frames =>
      obtain ⟨rfl, rfl⟩ := List.cons.inj hframes
      obtain ⟨q, hq, h⟩ := h.receive hlive
      exact ⟨q, hq, .behind w toServer frames xs h hxs rfl⟩
  | last xs hxs hframes => exact Trailing.last_receive hxs hframes

theorem Abreast.trails (h : Abreast k w cl toServer toClient) (htrails : Trails w w') :
    ∃ fs, sealedFrames w'.session.log = sealedFrames w.session.log ++ fs ∧
      Trailing k cl (toClient ++ fs) := by
  obtain ⟨xs, hxs, hlog⟩ := htrails
  exact ⟨_, hlog, .behind w toServer toClient xs h hxs rfl⟩

theorem Trails.emitFinished (h : Trails w w') : Trails w w'.emitFinished := by
  obtain ⟨xs, hxs, hlog⟩ := h
  refine ⟨xs, hxs, ?_⟩
  rw [(emitFinished_ships w').frames, hlog]
  exact List.append_nil _

theorem Settles.trails (h : Settles w true w') : Trails w w' := by
  cases h with
  | @closes w₁ _ _ tick now hidle hcredits hdue hcloses =>
    have hcredited : Speaks w (w₁.atTick tick) := hcredits.speaks.congr ⟨tick, rfl⟩
    exact (hcredited.trans hcloses.speaks).trails (.refl _)

/-! ### A step of the server -/

/-- While the server goes on the two are abreast; behind its end the client has the last
packets. -/
structure Stands (k : ClientCrypto env.crypto) (c : Config) (cl : Client)
    (toServer toClient : List Frame) : Prop where
  live : c.live → Abreast k c.world cl toServer toClient
  done : ¬c.live → Trailing k cl toClient

/-- So they stand after a step of the server, with what it put under way. -/
def Leads (k : ClientCrypto env.crypto) (c c' : Config) (cl : Client)
    (toServer toClient : List Frame) : Prop :=
  ∃ fs, sealedFrames c'.world.session.log = sealedFrames c.world.session.log ++ fs ∧
    Stands k c' cl toServer (toClient ++ fs)

variable {c c' : Config} {input : Input}

theorem Proceeds.leads {pc pc' : Pc} (h : Proceeds k w w' cl toServer toClient)
    (hlive : Config.live ⟨w', pc'⟩) : Leads k ⟨w, pc⟩ ⟨w', pc'⟩ cl toServer toClient := by
  obtain ⟨fs, hlog, h⟩ := h
  exact ⟨fs, hlog, fun _ => h, fun hdone => absurd hlive hdone⟩

theorem Abreast.leads {pc pc' : Pc} {toServer₀ : List Frame}
    (h : Abreast k w cl toServer₀ toClient) (htrails : Trails w w')
    (hdone : ¬Config.live ⟨w', pc'⟩) : Leads k ⟨w, pc⟩ ⟨w', pc'⟩ cl toServer toClient := by
  obtain ⟨fs, hlog, h⟩ := h.trails htrails
  exact ⟨fs, hlog, fun hlive => absurd hlive hdone, fun _ => h⟩

theorem not_live (w : World) (r : Except TransportError Unit) : ¬Config.live ⟨w, .done r⟩ :=
  fun hlive => hlive r rfl

/-- A step that reads no packet. -/
theorem Abreast.turn (h : Abreast k c.world cl toServer toClient) (hturn : Turn env c input c')
    (hinput : isDelivery input = false)
    (hours : c'.live → OurPhase c'.world.session.rekey.phase) :
    Leads k c c' cl toServer toClient := by
  have hlive : ∀ {w : World} {pc : Pc}, pc.isDone = false → Config.live ⟨w, pc⟩ :=
    fun h => live_of_isDone h
  cases hturn with
  | flushed hidle hrun => exact (h.speaks (FlushOnes.speaks hrun) hidle).leads (hlive rfl)
  | unflushed hactive => exact Proceeds.leads (h.proceeds rfl) (hlive rfl)
  | handedOff hoff => exact (h.quiet hoff.ships).leads (hlive rfl)
  | settled hsettles =>
    rename_i finished
    cases finished with
    | true => exact h.leads hsettles.trails (not_live _ _)
    | false => exact (h.settles hsettles (hours (hlive rfl))).leads (hlive rfl)
  | occurred event hoccurs => exact (h.quiet hoccurs.ships).leads (hlive rfl)
  | pumped child child' step hpc hchild hpump =>
    exact Proceeds.leads (h.quiet ((Ships.refl _).congr ⟨_, rfl⟩)) hpc
  | flushFailed e hidle hfails => exact h.leads hfails.trails.emitFinished (not_live _ _)
  | settleFailed e hfails => exact h.leads hfails.trails.emitFinished (not_live _ _)
  | readFailed error => exact h.leads (Trails.refl _).emitFinished (not_live _ _)
  | timedOut hactive hleft => exact h.leads (trails_left hleft).emitFinished (not_live _ _)
  | packet | packetFailed => cases hinput

/-- A step that reads the next packet. -/
theorem Abreast.turn_packet
    (h : Abreast k c.world cl (packets.mark c.world.rxEnd p :: toServer) toClient)
    (hdelivers : Delivers k c.world cl p toServer toClient)
    (hturn : Turn env c (.event (.packet p)) c')
    (hours : c'.live → OurPhase c'.world.session.rekey.phase) :
    Leads k c c' cl toServer toClient := by
  cases hturn with
  | packet _ htakes =>
    exact (hdelivers.takes htakes (hours (live_of_isDone rfl))).leads (live_of_isDone rfl)
  | occurred _ hoccurs => cases hoccurs
  | packetFailed _ e hfails =>
    obtain htrails | ⟨s, hrekeys, htrails⟩ := hfails.trails
    · exact h.leads htrails.emitFinished (not_live _ _)
    · obtain ⟨habreast, hlog, -⟩ := hdelivers.completed hrekeys
      obtain ⟨fs, hlog', h⟩ := habreast.trails htrails.emitFinished
      exact ⟨fs, hlog'.trans (congrArg (· ++ _) hlog), fun hlive => absurd hlive (not_live _ _),
        fun _ => h⟩

/-! ### Whole runs -/

/-- What holds of server and client at every moment. -/
structure Agrees (k : ClientCrypto env.crypto) (x : Peers) : Prop where
  stands : Stands k x.server x.client x.toServer x.toClient
  ours : x.server.live → OurPhase x.server.world.session.rekey.phase
  custody : Custody x.server
  composed : ∀ e, x.server.pc = .done (.error e) → isConfused e = false
  opened : ∀ o ∈ x.opened, o.Matches

theorem toClient_advance (x : Peers) {fs : List Frame}
    (hlog : sealedFrames c'.world.session.log = sealedFrames x.server.world.session.log ++ fs) :
    (x.advance c').toClient = x.toClient ++ fs := by
  rw [Peers.advance, hlog, List.drop_left]

theorem opened_concat {os : List Opening} (h : ∀ o ∈ os, o.Matches) (e : CipherEnd) (q : Bytes) :
    ∀ o ∈ os ++ [⟨packets.mark e q, e⟩], o.Matches := by
  intro o ho
  obtain ho | ho := List.mem_append.1 ho
  · exact h o ho
  · rw [List.mem_singleton.1 ho]
    rfl

theorem opens_mark (w : World) (p : Bytes) : w.opens (packets.mark w.rxEnd p) = .packet p :=
  if_pos rfl

section

variable {x x' : Peers}

theorem Agrees.server
    (hrandom : ∀ tick length bytes, env.random tick length = some bytes → bytes.length = length)
    (h : Agrees k x) (hstep : x.server.step env input = some c')
    (hinput : isDelivery input = false) : Agrees k (x.advance c') := by
  have hturn := step_turn hstep
  have hlive := hturn.live
  have hours := step_ours hrandom hstep (h.ours hlive)
  have hpacket : ∀ p, input ≠ .event (.packet p) := by
    rintro p rfl
    cases hinput
  obtain ⟨fs, hlog, hstands⟩ := (h.stands.live hlive).turn hturn hinput hours
  refine ⟨?_, hours, h.custody.turn hturn fun p hp => absurd hp (hpacket p), fun e hpc => ?_, h.opened⟩
  · rw [toClient_advance x hlog]
    exact hstands
  · refine step_composed hstep (fun p hp => absurd hp (hpacket p)) ?_ hlive hpc
    rintro rfl
    cases hinput

theorem Agrees.deliver
    (hrandom : ∀ tick length bytes, env.random tick length = some bytes → bytes.length = length)
    (hblob : env.hostKeyBlob.length < 2 ^ 32) (h : Agrees k x) {f : Frame} {rest : List Frame}
    (hunder : x.toServer = f :: rest)
    (hstep : x.server.step env (.event (x.server.world.opens f)) = some c') :
    Agrees k { x.advance c' with
      toServer := rest, opened := x.opened ++ [⟨f, x.server.world.rxEnd⟩] } := by
  have hlive := (step_turn hstep).live
  have hours := step_ours hrandom hstep (h.ours hlive)
  have habreast := h.stands.live hlive
  rw [hunder] at habreast
  obtain ⟨p, rfl, hdelivers⟩ := habreast.delivers hblob
  rw [opens_mark] at hstep
  have hturn := step_turn hstep
  have hsuits : ∀ q, Input.event (.packet p) = .event (.packet q) →
      Suits q x.server.world.session.rekey.phase := by
    rintro q ⟨⟩
    exact hdelivers.suits
  obtain ⟨fs, hlog, hstands⟩ := habreast.turn_packet hdelivers hturn hours
  refine ⟨?_, hours, h.custody.turn hturn hsuits, fun e hpc => ?_, opened_concat h.opened _ p⟩
  · have hclient := toClient_advance x hlog
    simp only at hclient ⊢
    rw [hclient]
    exact hstands
  · exact step_composed hstep (fun q hq => (hsuits q hq).expects) (by simp) hlive hpc

theorem Agrees.client (h : Agrees k x) {act : Act} {cl' : Client} {f : Frame}
    (hact : x.client.act k act = some (cl', f)) :
    Agrees k { x with client := cl', toServer := x.toServer ++ [f] } :=
  { h with
    stands := ⟨fun hlive => (h.stands.live hlive).act hact, fun hdone => (h.stands.done hdone).act hact⟩ }

theorem Agrees.receive (h : Agrees k x) (hstage : x.client.stage ≠ .gone) {f : Frame}
    {rest : List Frame} (hunder : x.toClient = f :: rest) :
    Agrees k { x with
      client := if f = packets.mark x.client.rx f.payload then x.client.takes k f.payload
        else { x.client with stage := .gone }
      toClient := rest, opened := x.opened ++ [⟨f, x.client.rx⟩] } := by
  obtain ⟨hlive', hdone'⟩ := h.stands
  rw [hunder] at hlive' hdone'
  have hopens : ∃ q, f = packets.mark x.client.rx q ∧
      Stands k x.server (x.client.takes k q) x.toServer rest := by
    by_cases hlive : x.server.live
    · obtain ⟨q, hq, h⟩ := (hlive' hlive).receive hstage
      exact ⟨q, hq, fun _ => h, fun hdone => absurd hlive hdone⟩
    · obtain ⟨q, hq, h⟩ := (hdone' hlive).receive hstage
      exact ⟨q, hq, fun hl => absurd hl hlive, fun _ => h⟩
  obtain ⟨q, rfl, hstands⟩ := hopens
  have hmark : packets.mark x.client.rx q =
      packets.mark x.client.rx (packets.mark x.client.rx q).payload := rfl
  refine ⟨?_, h.ours, h.custody, h.composed, opened_concat h.opened _ q⟩
  rw [if_pos hmark]
  exact hstands

theorem Agrees.step
    (hrandom : ∀ tick length bytes, env.random tick length = some bytes → bytes.length = length)
    (hblob : env.hostKeyBlob.length < 2 ^ 32) {move : Move} (h : Agrees k x)
    (hstep : x.step env k move = some x') : Agrees k x' := by
  cases move with
  | server input =>
    simp only [Peers.step] at hstep
    split at hstep
    next => cases hstep
    next hinput =>
      obtain ⟨c', hc', rfl⟩ := Option.map_eq_some_iff.1 hstep
      exact h.server hrandom hc' (Bool.eq_false_iff.2 hinput)
  | deliver =>
    simp only [Peers.step] at hstep
    split at hstep
    next => cases hstep
    next f rest hunder =>
      obtain ⟨c', hc', rfl⟩ := Option.map_eq_some_iff.1 hstep
      exact h.deliver hrandom hblob hunder hc'
  | client act =>
    obtain ⟨⟨cl', f⟩, hact, rfl⟩ := Option.map_eq_some_iff.1 hstep
    exact h.client hact
  | receive =>
    simp only [Peers.step] at hstep
    split at hstep
    next => cases hstep
    next => cases hstep
    next f rest hunder hstage =>
      cases hstep
      exact h.receive hstage hunder

end

/-! ### The start -/

/-- The counts of packets that fit into the counter. -/
theorem marks_counted (tx : PacketCipher) {n : ℕ} (h : n + xs.length < 2 ^ 32) :
    packets.marks ⟨0, tx, n⟩ xs = xs.mapIdx (fun i p => ⟨0, tx, n + i, p⟩) ∧
      packets.advance ⟨0, tx, n⟩ xs = ⟨0, tx, n + xs.length⟩ := by
  induction xs generalizing n with
  | nil => exact ⟨rfl, rfl⟩
  | cons p xs ih =>
    rw [List.length_cons] at h
    have hnext : packets.next ⟨0, tx, n⟩ = ⟨0, tx, n + 1⟩ := by
      have hcount : wrappingAdd 32 n 1 = n + 1 := Nat.mod_eq_of_lt (by omega)
      exact congrArg (CipherEnd.mk 0 tx) hcount
    obtain ⟨hmarks, hadvance⟩ := ih (n := n + 1) (by omega)
    constructor
    · rw [Ratchet.Scheme.marks, hnext, hmarks, List.mapIdx_cons]
      simp only [Nat.add_assoc, Nat.add_comm 1]
      rfl
    · rw [Ratchet.Scheme.advance, hnext, hadvance, List.length_cons]
      congr 1
      omega

theorem isOrdinary_handshake {msg : UInt8} (hmsg : msg ∈ handshakeMessages)
    (hp : p.head? = some msg) : isOrdinary p = true := by
  have hall : ∀ msg ∈ handshakeMessages, isOrdinary [msg] = true := by decide
  simpa [isOrdinary, hp] using hall msg hmsg

theorem agrees_start (h : Handshake) : Agrees k (Peers.start h) := by
  have hlen : 0 + h.sent.length < 2 ^ 32 := by
    have hle := h.sent_le
    have hfew : 2 + maxAuthAttempts < 2 ^ 32 := by decide
    omega
  obtain ⟨hmarks, hadvance⟩ := marks_counted h.tx hlen
  have hord : ∀ q ∈ h.sent, isOrdinary q = true := by
    intro q hq
    obtain ⟨msg, hmsg, hhead⟩ := h.sent_msg q hq
    exact isOrdinary_handshake hmsg hhead
  have hswitches : ∀ q ∈ h.sent, packets.switches q = false :=
    fun q hq => switches_of_ordinary (hord q hq)
  have hsent := (Ratchet.Scheme.Carries.nil (S := packets) ⟨0, h.tx, 0⟩).concat hswitches
  have hlive : (Config.start h).live := live_of_isDone rfl
  have habreast : Abreast k (Config.start h).world (Peers.start h).client [] h.frames := by
    refine ⟨rfl, rfl, [], [], h.sent, [], .nil _, ?_, .rest (.now []) (by simp) (.now _) hord⟩
    rw [hmarks, hadvance] at hsent
    simpa [Handshake.frames, Peers.start, Config.start, World.txEnd] using hsent
  refine ⟨⟨fun _ => habreast, fun hdone => absurd hlive hdone⟩, fun _ => trivial, custody_start h,
    fun e hpc => ?_, by simp [Peers.start]⟩
  cases hpc

/-! ### Agreement -/

section

variable {h : Handshake} {moves : List Move} {x : Peers}

/-- The server's part of a run of both parties is a run of `drive`. -/
theorem exists_runs (hrun : Peers.runs env k h moves = some x) :
    ∃ inputs, Config.runs env h inputs = some x.server := by
  refine invariant_run (P := fun x => ∃ inputs, Config.runs env h inputs = some x.server)
    (fun x move x' hinv hstep => ?_) ⟨[], rfl⟩ hrun
  obtain ⟨inputs, hinputs⟩ := hinv
  have hone : ∀ {input : Input} {c' : Config}, x.server.step env input = some c' →
      ∃ inputs, Config.runs env h inputs = some c' := by
    intro input c' hc'
    refine ⟨inputs ++ [input], ?_⟩
    rw [Config.runs, run_append, ← Config.runs, hinputs, Option.bind_some, run, hc']
    rfl
  cases move with
  | server input =>
    simp only [Peers.step] at hstep
    split at hstep
    next => cases hstep
    next =>
      obtain ⟨c', hc', rfl⟩ := Option.map_eq_some_iff.1 hstep
      exact hone hc'
  | deliver =>
    simp only [Peers.step] at hstep
    split at hstep
    next => cases hstep
    next =>
      obtain ⟨c', hc', rfl⟩ := Option.map_eq_some_iff.1 hstep
      exact hone hc'
  | client act =>
    obtain ⟨⟨cl', f⟩, -, rfl⟩ := Option.map_eq_some_iff.1 hstep
    exact ⟨inputs, hinputs⟩
  | receive =>
    simp only [Peers.step] at hstep
    split at hstep
    next => cases hstep
    next => cases hstep
    next =>
      cases hstep
      exact ⟨inputs, hinputs⟩

/-- **Agreement.** Server and client run over any number of key exchanges, whichever of them
starts one. The server does not end the connection because of the packets it is given; both
open every packet with the cipher, install and number it was sealed with; and every message
outside of the exchanges is handled at most once, and once as soon as no exchange is under
way. -/
theorem rekey_agreement
    (hrandom : ∀ tick length bytes, env.random tick length = some bytes → bytes.length = length)
    (hblob : env.hostKeyBlob.length < 2 ^ 32) (hrun : Peers.runs env k h moves = some x) :
    (∀ reason ∈ [Reason.packetAuthFailed, .unexpectedDuringRekey, .expectedNewkeys],
      x.server.pc ≠ .done (.error (.rejected reason))) ∧
    (∀ o ∈ x.opened, o.Matches) ∧
    List.Subperm (messagesHandled x.server.world.session.log)
      (messagesReceived x.server.world.session.log) ∧
    (x.server.live → x.server.world.session.rekey.phase = .idle →
      (messagesHandled x.server.world.session.log).Perm
        (messagesReceived x.server.world.session.log)) := by
  have hagrees : Agrees k x :=
    invariant_run (fun _ _ _ hinv hstep => Agrees.step hrandom hblob hinv hstep) (agrees_start h) hrun
  refine ⟨fun reason hreason hpc => ?_, hagrees.opened, ?_, fun hlive hidle => ?_⟩
  · have hcomposed := hagrees.composed _ hpc
    simp only [List.mem_cons, List.not_mem_nil, or_false] at hreason
    obtain rfl | rfl | rfl := hreason <;> cases hcomposed
  · obtain ⟨rest, hrest⟩ := hagrees.custody.accounts
    exact (List.sublist_append_left _ rest).subperm.trans hrest.subperm
  · obtain ⟨inputs, hinputs⟩ := exists_runs hrun
    have hkept := hagrees.custody.deferred hlive
    rw [(defers_of_run hinputs hlive).idle hidle] at hkept
    rwa [Accounts, List.append_nil] at hkept

end

/-! ### A meeting -/

/-- The first bytes, filled up with zeros. -/
def pad (n : ℕ) (b : Bytes) : Bytes := (b ++ List.replicate n 0).take n

theorem length_pad (n : ℕ) (b : Bytes) : (pad n b).length = n := by
  simp [pad]

theorem pad_pad {n m : ℕ} (h : n ≤ m) (b : Bytes) : pad n (pad m b) = pad n b := by
  obtain ⟨d, rfl⟩ := Nat.exists_eq_add_of_le h
  rw [pad, List.take_append_of_le_length (by rw [length_pad]; exact h), pad, List.take_take,
    Nat.min_eq_left h, List.replicate_add, ← List.append_assoc,
    List.take_append_of_le_length (by simp), pad]

/-- Stand-ins for the primitives by which both sides come to the same secrets. -/
def meetingCrypto : Crypto :=
  { plainCrypto with
    encapsulate := fun _ m => (pad mlkemCtLen m, pad 32 m)
    x25519Public := pad x25519Len
    diffieHellman := fun secret peer =>
      some (List.zipWith (· ^^^ ·) (pad x25519Len secret) (pad x25519Len peer)) }

def meetingEnv : Env := { plainEnv with crypto := meetingCrypto }

def meetingClient : ClientCrypto meetingCrypto where
  encapsulationKey := pad mlkemEkLen
  decapsulate _ ct := pad 32 ct
  encapsulationKey_length := length_pad _
  x25519Public_length := length_pad _
  ciphertext_length _ _ := length_pad _ _
  decapsulate_encapsulate _ m := pad_pad (by decide) m
  diffieHellman_comm x y := by
    change some (List.zipWith _ (pad x25519Len x) (pad x25519Len (pad x25519Len y))) =
      some (List.zipWith _ (pad x25519Len y) (pad x25519Len (pad x25519Len x)))
    rw [pad_pad (Nat.le_refl _), pad_pad (Nat.le_refl _), List.zipWith_comm_of_comm UInt8.xor_comm]

/-- What the client offers: the hybrid exchange, or another one with a guess at that. -/
def meetingFields (other : String) (follows : UInt8) : KexinitFields :=
  { ourFields (List.replicate 16 7) with
    kexAlgorithms := utf8 (other ++ kexAlgorithm)
    firstKexPacketFollows := follows }

def meetingOffer : Offer where
  fields := meetingFields "" 0
  wellFormed := ⟨by decide +kernel, by decide +kernel, by decide +kernel⟩

def guessingOffer : Offer where
  fields := meetingFields "curve25519-sha256," 1
  wellFormed := ⟨by decide +kernel, by decide +kernel, by decide +kernel⟩

def meetingSecret : ClientSecret := ⟨[1, 2, 3], [4, 5]⟩

/-- The server goes on until it reads the next packet. -/
def readingTurn : List Move := [.server .phase, .server .phase, .server .phase, .deliver]

/-- From the client's KEX_HYBRID_INIT on. -/
def exchangeMoves : List Move :=
  List.flatten [[.client (.init meetingSecret)], readingTurn,
    [.receive, .receive, .client .newkeys], readingTurn]

/-- Both sides start an exchange at once, with a request under way; in a second exchange the
client guesses wrong. -/
def meetingMoves : List Move :=
  List.flatten [[.client (.message (openSession 7 maxPacket maxPacket))], readingTurn,
    [.client (.message (globalRequest true)), .client (.kexinit meetingOffer)], readingTurn,
    [.receive], readingTurn, [.receive], exchangeMoves,
    [.client (.kexinit guessingOffer), .client (.guess [35])], readingTurn, readingTurn,
    [.receive, .receive], exchangeMoves]

theorem rekey_agreement_meeting :
    ∃ x, Peers.runs meetingEnv meetingClient hastyHandshake meetingMoves = some x ∧
      x.server.world.txEnd.install = 2 ∧ x.server.world.rxEnd.install = 2 ∧
      x.opened.length = 17 ∧ (∀ o ∈ x.opened, o.Matches) ∧
      (messagesHandled x.server.world.session.log).length = 2 ∧
      (messagesHandled x.server.world.session.log).Perm
        (messagesReceived x.server.world.session.log) := by
  have hx : (Peers.runs meetingEnv meetingClient hastyHandshake meetingMoves).map (fun x =>
      (x.server.world.txEnd.install, x.server.world.rxEnd.install, x.opened.length,
        (messagesHandled x.server.world.session.log).length, x.server.pc.isDone,
        x.server.world.session.rekeyActive)) = some (2, 2, 17, 2, false, false) := by
    decide +kernel
  obtain ⟨x, hrun, hx⟩ := Option.map_eq_some_iff.1 hx
  simp only [Prod.mk.injEq] at hx
  obtain ⟨htx, hrx, hopened, hhandled, hdone, hactive⟩ := hx
  have hrandom : ∀ tick length bytes, meetingEnv.random tick length = some bytes →
      bytes.length = length := by
    rintro tick length bytes ⟨⟩
    exact List.length_replicate
  have hblob : meetingEnv.hostKeyBlob.length < 2 ^ 32 := by decide
  obtain ⟨-, hmatches, -, hperm⟩ := rekey_agreement hrandom hblob hrun
  have hidle : x.server.world.session.rekey.phase = .idle := by
    simpa [Session.rekeyActive] using hactive
  exact ⟨x, hrun, htx, hrx, hopened, hmatches, hhandled, hperm (live_of_isDone hdone) hidle⟩

end QuantumSsh.Channel
