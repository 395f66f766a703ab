import QuantumSsh.Channel.Client

/-!
# Where two parties of a key exchange can stand

The phase of the server, the stage of the client and the packets under way in both
directions fit together in one of a few ways. Whatever either party may do leads from one
of them to another, and both come to the same keys.
-/

namespace QuantumSsh.Channel

open Wire Kex Machine Program Transport

variable {env : Env} {c : Crypto} {iS : Bytes} {o : Offer}

/-! ### Our KEXINIT -/

/-- A KEXINIT of the server. -/
def IsOurKexinit (iS : Bytes) : Prop :=
  ∃ cookie : Bytes, cookie.length = 16 ∧ iS = buildRekeyKexinit cookie

/-- The fields of our KEXINIT. -/
def ourFields (cookie : Bytes) : KexinitFields where
  cookie
  kexAlgorithms := utf8 kexListRekey
  serverHostKeyAlgorithms := utf8 hostKeyList
  encryptionC2s := utf8 encryptionList
  encryptionS2c := utf8 encryptionList
  macC2s := utf8 macList
  macS2c := utf8 macList
  compressionC2s := utf8 compressionList
  compressionS2c := utf8 compressionList
  languagesC2s := []
  languagesS2c := []
  firstKexPacketFollows := 0
  reserved := 0

theorem IsOurKexinit.head (h : IsOurKexinit iS) : iS.head? = some sshMsgKexinit := by
  obtain ⟨cookie, -, rfl⟩ := h
  rfl

theorem IsOurKexinit.parse (h : IsOurKexinit iS) : parseKexinit iS = .ok (ourFields []).peer := by
  obtain ⟨cookie, hcookie, rfl⟩ := h
  have hlists : ∀ raw ∈ (ourFields []).lists,
      IsNameList raw ∧ raw.length ≤ nameListBound := by
    decide +kernel
  refine parseKexinit_ok.2 ⟨ourFields cookie, ⟨hcookie, hlists, Nat.two_pow_pos 32⟩, ?_, rfl⟩
  have hempty : utf8 "" = [] := by decide
  simp [buildRekeyKexinit, buildKexinitWith, putNameList, KexinitFields.encode,
    KexinitFields.lists, ourFields, hempty, putBoolean]

/-- A guess is skipped exactly if the client finds it wrong. -/
theorem IsOurKexinit.skips_eq (h : IsOurKexinit iS) (o : Offer) :
    skips o.peer = (o.peer.firstKexPacketFollows && !o.confirmedBy iS) := by
  have hkex : (names (ourFields []).peer.kexAlgorithms).head? = some (utf8 kexAlgorithm) := by
    decide
  have hhost : (names (ourFields []).peer.serverHostKeyAlgorithms).head? =
      some (utf8 hostKeyList) := by
    decide
  rw [Offer.confirmedBy, h.parse]
  simp only [skips, guessedWrong, hkex, hhost, Bool.not_not]

theorem Offer.head (o : Offer) : o.payload.head? = some sshMsgKexinit := rfl

theorem Offer.parse (o : Offer) : parseKexinit o.payload = .ok o.peer :=
  parseKexinit_ok.2 ⟨o.fields, o.wellFormed, rfl, rfl⟩

/-- What the server chooses on the client's KEXINIT. -/
theorem fields_of_negotiates {n : Negotiated} (h : Negotiates o.payload n) :
    n.skipGuessedPacket = skips o.peer ∧ pick o.peer.encryptionC2s = some n.cipherC2s ∧
      pick o.peer.encryptionS2c = some n.cipherS2c := by
  unfold Negotiates at h
  rw [o.parse] at h
  change negotiate o.peer false = .ok n at h
  rw [negotiate_eq] at h
  split at h
  next => cases h
  next =>
    split at h
    next => cases h
    next =>
      split at h
      next => cases h
      next =>
        split at h
        next => cases h
        next c2s hc2s =>
          split at h
          next => cases h
          next s2c hs2c =>
            split at h
            next => cases h
            next =>
              cases h
              exact ⟨rfl, hc2s, hs2c⟩

/-! ### Both parties derive the same keys -/

section

variable (k : ClientCrypto env.crypto) {secret : ClientSecret}

theorem length_clientInit : (k.clientInit secret).length = clientInitLen := by
  rw [ClientCrypto.clientInit, List.length_append, k.encapsulationKey_length,
    k.x25519Public_length, clientInitLen]

/-- The share that the server reads is the client's. -/
theorem clientInit_of_reads {clientInit rest : Bytes}
    (h : readHybridInit.run (k.initPayload secret) = .ok (clientInit, rest)) :
    clientInit = k.clientInit secret := by
  simp only [readHybridInit, Reader.run_bind_ok, Reader.run_pure_ok, Reader.byte_ok,
    Reader.string_ok, Reader.finish_ok] at h
  obtain ⟨msg, _, hmsg, share, _, ⟨⟨-, hshare⟩, rfl⟩, -, -, ⟨rfl, -⟩, rfl, -⟩ := h
  have hlen : (k.clientInit secret).length < 2 ^ 32 := by
    rw [length_clientInit]
    decide
  have hput : putString (k.clientInit secret) ++ [] = putString share ++ [] := by
    simpa [ClientCrypto.initPayload] using (List.cons.inj hmsg).2
  exact (putString_append_inj hlen hshare hput).1.symm

/-- The exchange as the server carries it out on the client's share. -/
theorem exists_of_hybridExchange {m serverSecret : Option Bytes} {outcome : HybridOutcome}
    (h : hybridExchange env.crypto (k.clientInit secret) m serverSecret = .ok outcome) :
    k.sharedSecret secret outcome.serverReply = some outcome.sharedSecret ∧
      outcome.serverReply.length < 2 ^ 32 := by
  have htake : (k.clientInit secret).take mlkemEkLen =
      k.encapsulationKey secret.decapsulationKey := by
    rw [ClientCrypto.clientInit, List.take_left' (k.encapsulationKey_length _)]
  have hdrop : (k.clientInit secret).drop mlkemEkLen =
      env.crypto.x25519Public secret.x25519Secret := by
    rw [ClientCrypto.clientInit, List.drop_left' (k.encapsulationKey_length _)]
  obtain ⟨reason, -, hfails⟩ | ⟨seed, own, kCl, -, -, hkCl, hdone⟩ :=
    hybridExchange_cases env.crypto (k.clientInit secret) m serverSecret
  · rw [hfails] at h
    cases h
  · rw [hdone] at h
    cases h
    rw [hdrop] at hkCl
    rw [htake]
    have hct := k.ciphertext_length secret.decapsulationKey seed
    constructor
    · rw [ClientCrypto.sharedSecret, List.take_left' hct, List.drop_left' hct,
        k.diffieHellman_comm, hkCl, k.decapsulate_encapsulate]
      rfl
    · rw [List.length_append, hct, k.x25519Public_length]
      decide

theorem firstShared_eq (own : Bytes) : firstShared own (utf8 encryptionList) = pick own := rfl

/-- A reply that the client can read leads it to the server's ciphers. -/
theorem ciphers_of_reply {s : Session} {n : Negotiated} (hblob : env.hostKeyBlob.length < 2 ^ 32)
    (hours : IsOurKexinit iS) (hn : Negotiates o.payload n)
    (r : HybridReply env s (k.initPayload secret) o.payload iS n) {pair : PacketCipher × PacketCipher}
    (h : k.ciphers s.clientId s.sessionId o iS secret r.payload = some pair) :
    pair = (r.newRx, r.newTx) := by
  have hinit := clientInit_of_reads k r.reads
  have hexchange := r.exchanges
  rw [hinit] at hexchange
  obtain ⟨hsecret, hreply⟩ := exists_of_hybridExchange k hexchange
  obtain ⟨-, hc2s, hs2c⟩ := fields_of_negotiates hn
  rw [ClientCrypto.ciphers, hours.parse] at h
  split at h
  next theirs hostKeyBlob serverReply signature rest htheirs hread =>
    obtain rfl : (ourFields []).peer = theirs := Except.ok.inj htheirs
    simp only [readHybridReply, Reader.run_bind_ok, Reader.run_pure_ok, Reader.byte_ok,
      Reader.string_ok] at hread
    obtain ⟨msg, _, hmsg, blob, _, ⟨⟨-, hblob'⟩, hone⟩, reply, rest', ⟨⟨-, hreply'⟩, htwo⟩, _, _,
      ⟨-, -⟩, -, -, -, heq, -⟩ := hread
    obtain ⟨rfl, rfl, -⟩ : blob = hostKeyBlob ∧ reply = serverReply ∧ _ := by simpa using heq
    have hpayload : putString env.hostKeyBlob ++ (putString r.outcome.serverReply ++
        putString r.signature) = putString blob ++ (putString reply ++ rest') := by
      rw [hone, htwo] at hmsg
      simpa [HybridReply.payload] using (List.cons.inj hmsg).2
    obtain ⟨rfl, hrest⟩ := putString_append_inj hblob hblob' hpayload
    obtain ⟨rfl, -⟩ := putString_append_inj hreply hreply' hrest
    rw [show (ourFields []).peer.encryptionC2s = utf8 encryptionList from rfl,
      show (ourFields []).peer.encryptionS2c = utf8 encryptionList from rfl, firstShared_eq,
      firstShared_eq, hc2s, hs2c, hsecret] at h
    have hderives := r.derives
    rw [hinit] at hderives
    exact (Option.some.inj (hderives.symm.trans h)).symm
  next => cases h

end

/-! ### What is under way -/

/-- The server is idle, or will be once it has read the NEWKEYS at the head of what is
under way to it. -/
inductive ServerIdle : RekeyPhase → List Bytes → List PacketCipher → List Bytes → Prop
  | now (ps : List Bytes) : ServerIdle .idle ps [] ps
  | soon (rx : PacketCipher) (ps : List Bytes) :
      ServerIdle (.awaitNewKeys rx) ([sshMsgNewkeys] :: ps) [rx] ps

/-- The same for the client. -/
inductive ClientIdle : Stage → List Bytes → List PacketCipher → List Bytes → Prop
  | now (qs : List Bytes) : ClientIdle .idle qs [] qs
  | soon (rx : PacketCipher) (qs : List Bytes) :
      ClientIdle (.switched rx) ([sshMsgNewkeys] :: qs) [rx] qs

/-- The client has heard our KEXINIT, or it is the last of what is under way. -/
inductive Told (iS : Bytes) : Option Bytes → List Bytes → Prop
  | soon {qs : List Bytes} (hqs : ∀ q ∈ qs, isOrdinary q = true) : Told iS none (qs ++ [iS])
  | now : Told iS (some iS) []

/-- What the client has sent behind its KEXINIT. -/
inductive Sent (k : ClientCrypto c) (o : Offer) : Option Bytes → Stage → List Bytes → Prop
  | unannounced {heard : Option Bytes} (hskips : skips o.peer = false) :
      Sent k o heard (.offered o heard .unannounced) []
  | owed {heard : Option Bytes} (hfollows : o.peer.firstKexPacketFollows = true) :
      Sent k o heard (.offered o heard .owed) []
  | guessed {heard : Option Bytes} {g : Bytes} (hskips : skips o.peer = true)
      (hg : isMethodMessage g = true) : Sent k o heard (.offered o heard (.sent none)) [g]
  | guessedInit {heard : Option Bytes} {secret : ClientSecret}
      (hfollows : o.peer.firstKexPacketFollows = true)
      (hheard : heard.isSome = true → skips o.peer = true) :
      Sent k o heard (.offered o heard (.sent (some secret))) [k.initPayload secret]
  | waiting {iS : Bytes} {secret : ClientSecret} (hskips : skips o.peer = false) :
      Sent k o (some iS) (.waiting o iS secret) [k.initPayload secret]
  | again {iS g : Bytes} {secret : ClientSecret} (hskips : skips o.peer = true)
      (hg : isMethodMessage g = true) :
      Sent k o (some iS) (.waiting o iS secret) [g, k.initPayload secret]

/-- What the server has not read of it; the flag tells whether a guess is still to be
skipped. -/
inductive Unread (o : Offer) : Bool → List Bytes → List Bytes → Prop
  | all (out : List Bytes) : Unread o (skips o.peer) out out
  | skipped (g : Bytes) (out : List Bytes) (hskips : skips o.peer = true) :
      Unread o false (g :: out) out

/-- The server has answered, and the client waits for it. -/
inductive Awaits (o : Offer) : Option Bytes → Stage → ClientSecret → Prop
  | guessed {secret : ClientSecret} (hfollows : o.peer.firstKexPacketFollows = true)
      (hskips : skips o.peer = false) :
      Awaits o none (.offered o none (.sent (some secret))) secret
  | waiting {iS : Bytes} {secret : ClientSecret} :
      Awaits o (some iS) (.waiting o iS secret) secret

/-- How the two parties can stand: the server's phase, what it has still to read and the
keys it changes to at that, and the same of the client. -/
inductive Accord (k : ClientCrypto c) (clientId sessionId : Bytes) :
    RekeyPhase → List Bytes → List PacketCipher → Stage → List Bytes → List PacketCipher → Prop
  /-- No exchange has begun. -/
  | rest {phase : RekeyPhase} {stage : Stage} {ps ps₁ qs qs₁ : List Bytes}
      {ks ls : List PacketCipher} (hserver : ServerIdle phase ps ks ps₁)
      (hps : ∀ p ∈ ps₁, isKexMessage p = false) (hclient : ClientIdle stage qs ls qs₁)
      (hqs : ∀ q ∈ qs₁, isOrdinary q = true) : Accord k clientId sessionId phase ps ks stage qs ls
  /-- Our KEXINIT is out, and not heard. -/
  | called {iS : Bytes} {stage : Stage} {ps qs qs₁ : List Bytes} {ls : List PacketCipher}
      (hours : IsOurKexinit iS) (hps : ∀ p ∈ ps, isKexMessage p = false)
      (hclient : ClientIdle stage qs ls (qs₁ ++ [iS])) (hqs : ∀ q ∈ qs₁, isOrdinary q = true) :
      Accord k clientId sessionId (.sentKexInit iS) ps [] stage qs ls
  /-- It is heard, and not answered. -/
  | asked {iS : Bytes} {ps : List Bytes} (hours : IsOurKexinit iS)
      (hps : ∀ p ∈ ps, isKexMessage p = false) :
      Accord k clientId sessionId (.sentKexInit iS) ps [] (.asked iS) [] []
  /-- The client's KEXINIT is out, and ours is not. -/
  | offered {o : Offer} {phase : RekeyPhase} {stage : Stage} {ps ps₁ out qs : List Bytes}
      {ks : List PacketCipher} (hserver : ServerIdle phase ps ks (ps₁ ++ o.payload :: out))
      (hps : ∀ p ∈ ps₁, isKexMessage p = false) (hsent : Sent k o none stage out)
      (hqs : ∀ q ∈ qs, isOrdinary q = true) : Accord k clientId sessionId phase ps ks stage qs []
  /-- Both are out, and the server has not read the client's. -/
  | crossed {o : Offer} {iS : Bytes} {heard : Option Bytes} {stage : Stage}
      {ps₁ out qs : List Bytes} (hours : IsOurKexinit iS) (hps : ∀ p ∈ ps₁, isKexMessage p = false)
      (hsent : Sent k o heard stage out) (htold : Told iS heard qs) :
      Accord k clientId sessionId (.sentKexInit iS) (ps₁ ++ o.payload :: out) [] stage qs []
  /-- The server has read it, and waits for the KEX_HYBRID_INIT. -/
  | agreed {o : Offer} {iS : Bytes} {n : Negotiated} {skip : Bool} {heard : Option Bytes}
      {stage : Stage} {ps out qs : List Bytes} (hours : IsOurKexinit iS)
      (hn : Negotiates o.payload n) (hsent : Sent k o heard stage out)
      (hunread : Unread o skip out ps) (htold : Told iS heard qs) :
      Accord k clientId sessionId (.awaitHybridInit o.payload iS n skip) ps [] stage qs []
  /-- The reply and our NEWKEYS are out. -/
  | replied {o : Offer} {iS reply : Bytes} {heard : Option Bytes} {stage : Stage}
      {secret : ClientSecret} {rx tx : PacketCipher} {qs : List Bytes} (hours : IsOurKexinit iS)
      (hawaits : Awaits o heard stage secret) (hreply : reply.head? = some sshMsgKexHybridReply)
      (hciphers : ∀ pair, k.ciphers clientId sessionId o iS secret reply = some pair → pair = (rx, tx))
      (htold : Told iS heard qs) :
      Accord k clientId sessionId (.awaitNewKeys rx) [] [] stage
        (qs ++ [reply, [sshMsgNewkeys]]) [tx]
  /-- The client has read the reply. -/
  | keyed {rx tx : PacketCipher} :
      Accord k clientId sessionId (.awaitNewKeys rx) [] [] (.keyed rx tx) [[sshMsgNewkeys]] [tx]
  /-- It has read our NEWKEYS too, and its own are not out. -/
  | received {rx : PacketCipher} :
      Accord k clientId sessionId (.awaitNewKeys rx) [] [] (.received rx) [] []
  /-- It could not read the reply, and left. -/
  | gone {rx : PacketCipher} {qs : List Bytes} {ls : List PacketCipher} :
      Accord k clientId sessionId (.awaitNewKeys rx) [] [] .gone qs ls

/-! ### What the client does -/

section

variable {k : ClientCrypto c} {clientId sessionId : Bytes} {phase : RekeyPhase}
  {stage stage' : Stage} {heard heard' : Option Bytes} {o' : Offer} {p q g : Bytes} {ps ps₁ qs qs₁ out : List Bytes}
  {ks ls : List PacketCipher}

theorem ServerIdle.append (h : ServerIdle phase ps ks ps₁) (xs : List Bytes) :
    ServerIdle phase (ps ++ xs) ks (ps₁ ++ xs) := by
  cases h with
  | now => exact .now _
  | soon rx => exact .soon rx _

theorem ClientIdle.append (h : ClientIdle stage qs ls qs₁) (xs : List Bytes) :
    ClientIdle stage (qs ++ xs) ls (qs₁ ++ xs) := by
  cases h with
  | now => exact .now _
  | soon rx => exact .soon rx _

theorem Unread.append {skip : Bool} (h : Unread o skip out ps) (xs : List Bytes) :
    Unread o skip (out ++ xs) (ps ++ xs) := by
  cases h with
  | all => exact .all _
  | skipped g _ hskips => exact .skipped g _ hskips

theorem forall_mem_concat {P : Bytes → Prop} (h : ∀ x ∈ ps, P x) (hp : P p) :
    ∀ x ∈ ps ++ [p], P x := by
  intro x hx
  obtain hx | hx := List.mem_append.1 hx
  · exact h x hx
  · rw [List.mem_singleton.1 hx]
    exact hp

theorem Sent.not_mayTalk (h : Sent k o heard stage out) : stage.mayTalk = false := by
  cases h <;> rfl

theorem Awaits.not_mayTalk {secret : ClientSecret} (h : Awaits o heard stage secret) :
    stage.mayTalk = false := by
  cases h <;> rfl

/-- A message outside of an exchange. -/
theorem Accord.message (h : Accord k clientId sessionId phase ps ks stage qs ls)
    (hstage : stage.mayTalk = true) (hp : isKexMessage p = false) :
    Accord k clientId sessionId phase (ps ++ [p]) ks stage qs ls := by
  cases h with
  | rest hserver hps hclient hqs =>
    exact .rest (hserver.append _) (forall_mem_concat hps hp) hclient hqs
  | called hours hps hclient hqs => exact .called hours (forall_mem_concat hps hp) hclient hqs
  | asked hours hps => exact .asked hours (forall_mem_concat hps hp)
  | offered _ _ hsent | crossed _ _ hsent | agreed _ _ hsent =>
    rw [hsent.not_mayTalk] at hstage
    cases hstage
  | replied _ hawaits =>
    rw [hawaits.not_mayTalk] at hstage
    cases hstage
  | keyed | received | gone => cases hstage

/-- Behind the KEXINIT nothing is out. -/
theorem sent_guess : Sent k o heard (.offered o heard o.guess) [] := by
  unfold Offer.guess
  split
  next h => exact .owed h
  next h => exact .unannounced (by simp [skips, h])

/-- The client starts an exchange, or answers before it has heard of ours. -/
theorem Accord.kexinit (h : Accord k clientId sessionId phase ps ks .idle qs ls) (o : Offer) :
    Accord k clientId sessionId phase (ps ++ [o.payload]) ks (.offered o none o.guess) qs ls := by
  cases h with
  | rest hserver hps hclient hqs =>
    cases hclient
    exact .offered (hserver.append _) hps sent_guess hqs
  | called hours hps hclient hqs =>
    cases hclient
    exact .crossed hours hps sent_guess (.soon hqs)
  | offered _ _ hsent | crossed _ _ hsent | agreed _ _ hsent => cases hsent
  | replied _ hawaits => cases hawaits

/-- The client answers. -/
theorem Accord.answer (h : Accord k clientId sessionId phase ps ks (.asked iS) qs ls) (o : Offer) :
    Accord k clientId sessionId phase (ps ++ [o.payload]) ks (.offered o (some iS) o.guess) qs ls := by
  cases h with
  | asked hours hps => exact .crossed hours hps sent_guess .now
  | rest _ _ hclient | called _ _ hclient => cases hclient
  | offered _ _ hsent | crossed _ _ hsent | agreed _ _ hsent => cases hsent
  | replied _ hawaits => cases hawaits

/-- What the client has heard is our KEXINIT. -/
def HeardOurs (heard : Option Bytes) : Prop := ∀ iS, heard = some iS → IsOurKexinit iS

theorem Told.heardOurs (h : Told iS heard qs) (hours : IsOurKexinit iS) : HeardOurs heard := by
  rintro iS' rfl
  cases h with
  | now => exact hours

/-- A further packet behind the KEXINIT. -/
theorem Accord.sends (h : Accord k clientId sessionId phase ps ks stage qs ls)
    (hsent : ∀ o heard secret, ¬Awaits o heard stage secret)
    (hstage : ∃ o heard guess, stage = .offered o heard guess)
    (hsends : ∀ o heard out, HeardOurs heard → Sent k o heard stage out →
      Sent k o heard stage' (out ++ [g])) :
    Accord k clientId sessionId phase (ps ++ [g]) ks stage' qs ls := by
  obtain ⟨o, heard, guess, rfl⟩ := hstage
  cases h with
  | offered hserver hps hone hqs =>
    refine .offered ?_ hps (hsends _ _ _ (by simp [HeardOurs]) hone) hqs
    simpa using hserver.append [g]
  | crossed hours hps hone htold =>
    rw [List.append_assoc, List.cons_append]
    exact .crossed hours hps (hsends _ _ _ (htold.heardOurs hours) hone) htold
  | agreed hours hn hone hunread htold =>
    exact .agreed hours hn (hsends _ _ _ (htold.heardOurs hours) hone) (hunread.append [g]) htold
  | replied _ hawaits => exact absurd hawaits (hsent _ _ _)
  | rest _ _ hclient | called _ _ hclient => cases hclient

/-- The client makes its guess. -/
theorem Sent.guess (h : Sent k o heard (.offered o' heard' .owed) out) (hg : isMethodMessage g = true)
    (hother : guessesHybrid o'.peer = false) :
    Sent k o heard (Stage.offering o' heard' (.sent none)) (out ++ [g]) := by
  cases h with
  | owed hfollows =>
    have hskips : skips o.peer = true := by
      simp only [guessesHybrid, decide_eq_false_iff_not] at hother
      simp [skips, hfollows, hother]
    have hstage : Stage.offering o heard (.sent none) = .offered o heard (.sent none) := by
      unfold Stage.offering
      split
      next h => cases h
      next => rfl
    rw [hstage]
    exact .guessed hskips hg

theorem offering_heard (o : Offer) (iS : Bytes) (secret : ClientSecret) :
    Stage.offering o (some iS) (.sent (some secret)) =
      if o.confirmedBy iS then .waiting o iS secret
      else .offered o (some iS) (.sent (some secret)) := rfl

theorem offering_guessed (hours : HeardOurs heard) {secret : ClientSecret}
    (hfollows : o.peer.firstKexPacketFollows = true) :
    Sent k o heard (Stage.offering o heard (.sent (some secret))) [k.initPayload secret] := by
  cases heard with
  | none => exact .guessedInit hfollows (by simp)
  | some iS =>
    have hskips := (hours iS rfl).skips_eq o
    rw [hfollows, Bool.true_and] at hskips
    rw [offering_heard]
    by_cases hconfirmed : o.confirmedBy iS = true
    · rw [if_pos hconfirmed]
      exact .waiting (by rw [hskips, hconfirmed, Bool.not_true])
    · rw [if_neg hconfirmed]
      exact .guessedInit hfollows fun _ => by
        rw [hskips, Bool.eq_false_iff.2 hconfirmed, Bool.not_false]

theorem Sent.guessInit (h : Sent k o heard (.offered o' heard' .owed) out) (hours : HeardOurs heard)
    (secret : ClientSecret) :
    Sent k o heard (Stage.offering o' heard' (.sent (some secret))) (out ++ [k.initPayload secret]) := by
  cases h with
  | owed hfollows => exact offering_guessed hours hfollows

/-- The client sends its share once it has heard of ours. -/
theorem Sent.init {guess : Guess} (h : Sent k o heard (.offered o' (some iS) guess) out)
    (hguess : guess ≠ .owed) (secret : ClientSecret) :
    Sent k o heard (.waiting o' iS secret) (out ++ [k.initPayload secret]) := by
  cases h with
  | unannounced hskips => exact .waiting hskips
  | owed => exact absurd rfl hguess
  | guessed hskips hg => exact .again hskips hg
  | guessedInit hfollows hheard => exact .again (hheard rfl) rfl

/-- The client hears of our KEXINIT. -/
theorem Sent.hear (h : Sent k o none stage out) (hours : IsOurKexinit iS) :
    ∃ guess, stage = .offered o none guess ∧
      Sent k o (some iS) (Stage.offering o (some iS) guess) out := by
  have hheard : HeardOurs (some iS) := by
    rintro _ ⟨⟩
    exact hours
  cases h with
  | unannounced hskips => exact ⟨_, rfl, .unannounced hskips⟩
  | owed hfollows => exact ⟨_, rfl, .owed hfollows⟩
  | guessed hskips hg => exact ⟨_, rfl, .guessed hskips hg⟩
  | guessedInit hfollows => exact ⟨_, rfl, offering_guessed hheard hfollows⟩

theorem Awaits.hear {secret : ClientSecret} (h : Awaits o none stage secret)
    (hours : IsOurKexinit iS) :
    ∃ guess, stage = .offered o none guess ∧
      Awaits o (some iS) (Stage.offering o (some iS) guess) secret := by
  cases h with
  | guessed hfollows hskips =>
    have hconfirmed : o.confirmedBy iS = true := by
      have hskips' := hours.skips_eq o
      rwa [hskips, hfollows, Bool.true_and, eq_comm, Bool.not_eq_false'] at hskips'
    refine ⟨_, rfl, ?_⟩
    rw [offering_heard, if_pos hconfirmed]
    exact .waiting

/-- The client's NEWKEYS, before it has read ours. -/
theorem Accord.switched {tx rx : PacketCipher}
    (h : Accord k clientId sessionId phase ps ks (.keyed tx rx) qs ls) :
    Accord k clientId sessionId phase (ps ++ [[sshMsgNewkeys]]) (ks ++ [tx]) (.switched rx) qs ls := by
  cases h with
  | keyed => exact .rest (.soon _ []) (by simp) (.soon _ []) (by simp)
  | rest _ _ hclient | called _ _ hclient => cases hclient
  | offered _ _ hsent | crossed _ _ hsent | agreed _ _ hsent => cases hsent
  | replied _ hawaits => cases hawaits

/-- The client's NEWKEYS, behind ours. -/
theorem Accord.finished {tx : PacketCipher}
    (h : Accord k clientId sessionId phase ps ks (.received tx) qs ls) :
    Accord k clientId sessionId phase (ps ++ [[sshMsgNewkeys]]) (ks ++ [tx]) .idle qs ls := by
  cases h with
  | received => exact .rest (.soon _ []) (by simp) (.now []) (by simp)
  | rest _ _ hclient | called _ _ hclient => cases hclient
  | offered _ _ hsent | crossed _ _ hsent | agreed _ _ hsent => cases hsent
  | replied _ hawaits => cases hawaits

/-! ### What the client reads -/

theorem Told.cons (h : Told iS heard (q :: qs)) :
    heard = none ∧ (isOrdinary q = true ∧ Told iS none qs ∨ q = iS ∧ qs = []) := by
  generalize hqs : q :: qs = qs' at h
  cases h with
  | now => cases hqs
  | @soon qs₁ hord =>
    refine ⟨rfl, ?_⟩
    cases qs₁ with
    | nil =>
      obtain ⟨rfl, rfl⟩ := List.cons.inj hqs
      exact .inr ⟨rfl, rfl⟩
    | cons x qs₁ =>
      obtain ⟨rfl, rfl⟩ := List.cons.inj hqs
      exact .inl ⟨hord q List.mem_cons_self, .soon fun x hx => hord x (List.mem_cons_of_mem q hx)⟩

theorem Told.of_nil (h : Told iS heard []) : heard = some iS := by
  generalize hqs : ([] : List Bytes) = qs' at h
  cases h with
  | now => rfl
  | soon hord => simp at hqs

theorem switches_of_head {p : Bytes} {msg : UInt8} (h : p.head? = some msg)
    (hmsg : msg ≠ sshMsgNewkeys) : packets.switches p = false := by
  simp [packets, h, hmsg]

theorem switches_of_ordinary (h : isOrdinary q = true) : packets.switches q = false := by
  simp only [isOrdinary, Bool.and_eq_true, decide_eq_true_eq] at h
  simp [packets, h.1.2]

theorem switches_of_not_kex (h : isKexMessage p = false) : packets.switches p = false := by
  cases hp : p.head? with
  | none => simp [packets, hp]
  | some msg =>
    refine switches_of_head hp ?_
    rintro rfl
    simp [isKexMessage, hp, sshMsgNewkeys] at h

variable {cl : Client}

theorem takes_ordinary (h : isOrdinary q = true) :
    cl.takes k q = { cl with rx := packets.next cl.rx } := by
  simp only [isOrdinary, Bool.and_eq_true, decide_eq_true_eq] at h
  obtain ⟨⟨⟨hdisconnect, hkexinit⟩, hnewkeys⟩, hreply⟩ := h
  rw [Client.takes, if_neg hnewkeys, Client.hears, if_neg hdisconnect, if_neg hkexinit,
    if_neg hreply]

theorem takes_kexinit (hq : q.head? = some sshMsgKexinit) {guess : Guess}
    (hstage : cl.stage = .offered o none guess) :
    cl.takes k q = { cl with rx := packets.next cl.rx, stage := .offering o (some q) guess } := by
  rw [Client.takes, if_neg (by simp [hq, sshMsgKexinit, sshMsgNewkeys]), Client.hears,
    if_neg (by simp [hq, sshMsgKexinit, Kex.sshMsgDisconnect]), if_pos hq, hstage]

theorem takes_call (hq : q.head? = some sshMsgKexinit) (hstage : cl.stage = .idle) :
    cl.takes k q = { cl with rx := packets.next cl.rx, stage := .asked q } := by
  rw [Client.takes, if_neg (by simp [hq, sshMsgKexinit, sshMsgNewkeys]), Client.hears,
    if_neg (by simp [hq, sshMsgKexinit, Kex.sshMsgDisconnect]), if_pos hq, hstage]

theorem takes_reply (hq : q.head? = some sshMsgKexHybridReply) {secret : ClientSecret}
    (hstage : cl.stage = .waiting o iS secret) :
    (∃ pair, k.ciphers cl.clientId cl.sessionId o iS secret q = some pair ∧
      cl.takes k q = { cl with rx := packets.next cl.rx, stage := .keyed pair.1 pair.2 }) ∨
      cl.takes k q = { cl with rx := packets.next cl.rx, stage := .gone } := by
  rw [Client.takes, if_neg (by simp [hq, sshMsgKexHybridReply, sshMsgNewkeys]), Client.hears,
    if_neg (by simp [hq, sshMsgKexHybridReply, Kex.sshMsgDisconnect]),
    if_neg (by simp [hq, sshMsgKexHybridReply, sshMsgKexinit]), if_pos hq, hstage]
  cases hciphers : k.ciphers cl.clientId cl.sessionId o iS secret q with
  | none => exact .inr (by simp only [hciphers])
  | some pair => exact .inl ⟨pair, rfl, by simp only [hciphers]⟩

theorem takes_newkeys (hq : q.head? = some sshMsgNewkeys) {rx : PacketCipher} :
    (∀ tx, cl.stage = .keyed tx rx →
      cl.takes k q = { cl with rx := packets.switch cl.rx rx, stage := .received tx }) ∧
    (cl.stage = .switched rx →
      cl.takes k q = { cl with rx := packets.switch cl.rx rx, stage := .idle }) := by
  constructor
  · intro tx hstage
    rw [Client.takes, if_pos hq, hstage]
  · intro hstage
    rw [Client.takes, if_pos hq, hstage]

/-- What reading a packet does to the client's end, and where the parties stand then. -/
inductive Reads (k : ClientCrypto c) (phase : RekeyPhase) (ps : List Bytes) (ks : List PacketCipher)
    (cl : Client) (q : Bytes) (qs : List Bytes) (ls : List PacketCipher) : Client → Prop
  | next {stage : Stage} (hq : packets.switches q = false)
      (haccord : Accord k cl.clientId cl.sessionId phase ps ks stage qs ls) :
      Reads k phase ps ks cl q qs ls { cl with rx := packets.next cl.rx, stage }
  | switch {stage : Stage} {rx : PacketCipher} {ls' : List PacketCipher}
      (hq : packets.switches q = true) (hls : ls = rx :: ls')
      (haccord : Accord k cl.clientId cl.sessionId phase ps ks stage qs ls') :
      Reads k phase ps ks cl q qs ls { cl with rx := packets.switch cl.rx rx, stage }

theorem reads_ordinary (hq : isOrdinary q = true)
    (h : Accord k cl.clientId cl.sessionId phase ps ks cl.stage qs ls) :
    Reads k phase ps ks cl q qs ls (cl.takes k q) := by
  rw [takes_ordinary hq]
  exact .next (switches_of_ordinary hq) h

/-- Every packet that is under way to the client is one it can read. -/
theorem Accord.reads (h : Accord k cl.clientId cl.sessionId phase ps ks cl.stage (q :: qs) ls)
    (hlive : cl.stage ≠ .gone) : Reads k phase ps ks cl q qs ls (cl.takes k q) := by
  have hnewkeys : packets.switches [sshMsgNewkeys] = true := rfl
  generalize hstage : cl.stage = stage at h
  generalize hqs : q :: qs = under at h
  cases h with
  | rest hserver hps hclient hord =>
    cases hclient with
    | now =>
      subst hqs
      refine reads_ordinary (hord q List.mem_cons_self) ?_
      rw [hstage]
      exact .rest hserver hps (.now qs) fun x hx => hord x (List.mem_cons_of_mem q hx)
    | soon rx =>
      obtain ⟨rfl, rfl⟩ := List.cons.inj hqs
      rw [(takes_newkeys rfl).2 hstage]
      exact .switch hnewkeys rfl (.rest hserver hps (.now _) hord)
  | @called iS _ _ _ qs₁ _ hours hps hclient hord =>
    generalize hunder : qs₁ ++ [iS] = rest at hclient
    cases hclient with
    | now =>
      cases qs₁ with
      | nil =>
        obtain ⟨rfl, rfl⟩ := List.cons.inj (hqs.trans hunder.symm)
        rw [takes_call hours.head hstage]
        exact .next (switches_of_head hours.head (by decide)) (.asked hours hps)
      | cons x qs₁ =>
        obtain ⟨rfl, rfl⟩ := List.cons.inj (hqs.trans hunder.symm)
        refine reads_ordinary (hord q List.mem_cons_self) ?_
        rw [hstage]
        exact .called hours hps (.now _) fun x hx => hord x (List.mem_cons_of_mem q hx)
    | soon rx =>
      obtain ⟨rfl, rfl⟩ := List.cons.inj hqs
      rw [(takes_newkeys rfl).2 hstage]
      exact .switch hnewkeys rfl (.called hours hps (hunder ▸ .now _) hord)
  | asked => cases hqs
  | offered hserver hps hsent hord =>
    subst hqs
    refine reads_ordinary (hord q List.mem_cons_self) ?_
    rw [hstage]
    exact .offered hserver hps hsent fun x hx => hord x (List.mem_cons_of_mem q hx)
  | crossed hours hps hsent htold =>
    subst hqs
    obtain ⟨rfl, ⟨hq, htold⟩ | ⟨rfl, rfl⟩⟩ := htold.cons
    · refine reads_ordinary hq ?_
      rw [hstage]
      exact .crossed hours hps hsent htold
    · obtain ⟨guess, rfl, hheard⟩ := hsent.hear hours
      rw [takes_kexinit hours.head hstage]
      exact .next (switches_of_head hours.head (by decide)) (.crossed hours hps hheard .now)
  | agreed hours hn hsent hunread htold =>
    subst hqs
    obtain ⟨rfl, ⟨hq, htold⟩ | ⟨rfl, rfl⟩⟩ := htold.cons
    · refine reads_ordinary hq ?_
      rw [hstage]
      exact .agreed hours hn hsent hunread htold
    · obtain ⟨guess, rfl, hheard⟩ := hsent.hear hours
      rw [takes_kexinit hours.head hstage]
      exact .next (switches_of_head hours.head (by decide)) (.agreed hours hn hheard hunread .now)
  | @replied o iS reply heard _ secret rx tx qs₁ hours hawaits hreply hciphers htold =>
    cases qs₁ with
    | nil =>
      obtain ⟨rfl, rfl⟩ := List.cons.inj hqs
      obtain rfl := htold.of_nil
      cases hawaits with
      | waiting =>
        obtain ⟨pair, hpair, htakes⟩ | htakes := takes_reply hreply hstage
        · obtain rfl := hciphers pair hpair
          rw [htakes]
          exact .next (switches_of_head hreply (by decide)) .keyed
        · rw [htakes]
          exact .next (switches_of_head hreply (by decide)) .gone
    | cons x qs₁ =>
      obtain ⟨rfl, rfl⟩ := List.cons.inj hqs
      obtain ⟨rfl, ⟨hq, htold⟩ | ⟨rfl, rfl⟩⟩ := htold.cons
      · refine reads_ordinary hq ?_
        rw [hstage]
        exact .replied hours hawaits hreply hciphers htold
      · obtain ⟨guess, rfl, hheard⟩ := hawaits.hear hours
        rw [takes_kexinit hours.head hstage]
        exact .next (switches_of_head hours.head (by decide))
          (.replied hours hheard hreply hciphers .now)
  | keyed =>
    obtain ⟨rfl, rfl⟩ := List.cons.inj hqs
    rw [(takes_newkeys rfl).1 _ hstage]
    exact .switch hnewkeys rfl .received
  | received => cases hqs
  | gone => exact absurd hstage hlive

/-! ### What the server does -/

/-- Outside of an exchange the server sends what it likes. -/
theorem Accord.seals (h : Accord k clientId sessionId .idle ps ks stage qs ls) {xs : List Bytes}
    (hxs : ∀ x ∈ xs, isOrdinary x = true) :
    Accord k clientId sessionId .idle ps ks stage (qs ++ xs) ls := by
  have hall : ∀ {ys : List Bytes}, (∀ y ∈ ys, isOrdinary y = true) →
      ∀ y ∈ ys ++ xs, isOrdinary y = true :=
    fun hys y hy => (List.mem_append.1 hy).elim (hys y) (hxs y)
  cases h with
  | rest hserver hps hclient hord => exact .rest hserver hps (hclient.append xs) (hall hord)
  | offered hserver hps hsent hord => exact .offered hserver hps hsent (hall hord)

/-- The server starts an exchange. -/
theorem Accord.begun (h : Accord k clientId sessionId .idle ps ks stage qs ls)
    (hours : IsOurKexinit iS) :
    Accord k clientId sessionId (.sentKexInit iS) ps ks stage (qs ++ [iS]) ls := by
  cases h with
  | rest hserver hps hclient hord =>
    cases hserver
    exact .called hours hps (hclient.append [iS]) hord
  | offered hserver hps hsent hord =>
    cases hserver
    exact .crossed hours hps hsent (.soon hord)

end

/-! ### What the server reads -/

section

variable {k : ClientCrypto env.crypto} {clientId sessionId p : Bytes} {phase : RekeyPhase}
  {stage : Stage} {heard : Option Bytes} {ps qs out : List Bytes} {ks ls : List PacketCipher}

/-- The packets that the server can be given, by its phase, and where the parties stand once
it has taken them. -/
inductive Arrives (k : ClientCrypto env.crypto) (clientId sessionId p : Bytes) (ps : List Bytes)
    (ks : List PacketCipher) (stage : Stage) (qs : List Bytes) (ls : List PacketCipher) :
    RekeyPhase → Prop
  | plain {phase : RekeyPhase} (hp : isKexMessage p = false)
      (hphase : phase = .idle ∨ ∃ iS, phase = .sentKexInit iS)
      (haccord : Accord k clientId sessionId phase ps ks stage qs ls) :
      Arrives k clientId sessionId p ps ks stage qs ls phase
  | opens (hp : p.head? = some sshMsgKexinit)
      (haccord : ∀ iS n, IsOurKexinit iS → Negotiates p n →
        Accord k clientId sessionId (.awaitHybridInit p iS n n.skipGuessedPacket) ps ks stage
          (qs ++ [iS]) ls) :
      Arrives k clientId sessionId p ps ks stage qs ls .idle
  | answers {iS : Bytes} (hp : p.head? = some sshMsgKexinit)
      (haccord : ∀ n, Negotiates p n →
        Accord k clientId sessionId (.awaitHybridInit p iS n n.skipGuessedPacket) ps ks stage qs ls) :
      Arrives k clientId sessionId p ps ks stage qs ls (.sentKexInit iS)
  | skipped {iC iS : Bytes} {n : Negotiated} (hp : isMethodMessage p = true)
      (haccord : Accord k clientId sessionId (.awaitHybridInit iC iS n false) ps ks stage qs ls) :
      Arrives k clientId sessionId p ps ks stage qs ls (.awaitHybridInit iC iS n true)
  | init {iC iS : Bytes} {n : Negotiated} (hp : p.head? = some sshMsgKexHybridInit)
      (haccord : ∀ (s : Session) (r : HybridReply env s p iC iS n), s.clientId = clientId →
        s.sessionId = sessionId → Accord k clientId sessionId (.awaitNewKeys r.newRx) ps ks stage
          (qs ++ [r.payload, [sshMsgNewkeys]]) (ls ++ [r.newTx])) :
      Arrives k clientId sessionId p ps ks stage qs ls (.awaitHybridInit iC iS n false)
  | newkeys {rx : PacketCipher} {ks' : List PacketCipher} (hp : p = [sshMsgNewkeys])
      (hks : ks = rx :: ks') (haccord : Accord k clientId sessionId .idle ps ks' stage qs ls) :
      Arrives k clientId sessionId p ps ks stage qs ls (.awaitNewKeys rx)

theorem Unread.cons {skip : Bool} (h : Unread o skip out (p :: ps)) :
    out = p :: ps ∧ skip = skips o.peer ∨
      ∃ g, out = g :: p :: ps ∧ skip = false ∧ skips o.peer = true := by
  cases h with
  | all => exact .inl ⟨rfl, rfl⟩
  | skipped g _ hskips => exact .inr ⟨g, rfl, rfl, hskips⟩

theorem arrives_init {secret : ClientSecret} {n : Negotiated}
    (hblob : env.hostKeyBlob.length < 2 ^ 32) (hours : IsOurKexinit iS)
    (hn : Negotiates o.payload n) (hawaits : Awaits o heard stage secret) (htold : Told iS heard qs) :
    Arrives k clientId sessionId (k.initPayload secret) [] [] stage qs []
      (.awaitHybridInit o.payload iS n false) := by
  refine .init rfl ?_
  rintro s r rfl rfl
  exact .replied hours hawaits rfl (fun pair => ciphers_of_reply k hblob hours hn r) htold

/-- What is out behind the client's KEXINIT is a guess to skip, or the client's share. -/
theorem arrives_behind {skip : Bool} {n : Negotiated} (hblob : env.hostKeyBlob.length < 2 ^ 32)
    (hours : IsOurKexinit iS) (hn : Negotiates o.payload n) (hsent : Sent k o heard stage out)
    (hunread : Unread o skip out (p :: ps)) (htold : Told iS heard qs) :
    Arrives k clientId sessionId p ps [] stage qs [] (.awaitHybridInit o.payload iS n skip) := by
  obtain ⟨rfl, rfl⟩ | ⟨g, rfl, rfl, hskips⟩ := hunread.cons
  · generalize hout : p :: ps = out at hsent
    cases hsent with
    | unannounced | owed => cases hout
    | guessed hskips hg =>
      obtain ⟨rfl, rfl⟩ := List.cons.inj hout
      rw [hskips]
      exact .skipped hg (.agreed hours hn (.guessed hskips hg) (.skipped _ _ hskips) htold)
    | guessedInit hfollows hheard =>
      obtain ⟨rfl, rfl⟩ := List.cons.inj hout
      cases hskips : skips o.peer with
      | true =>
        exact .skipped rfl
          (.agreed hours hn (.guessedInit hfollows hheard) (.skipped _ _ hskips) htold)
      | false =>
        obtain rfl : heard = none := by
          rw [← Option.not_isSome_iff_eq_none]
          intro hsome
          rw [hheard hsome] at hskips
          cases hskips
        exact arrives_init hblob hours hn (.guessed hfollows hskips) htold
    | waiting hskips =>
      obtain ⟨rfl, rfl⟩ := List.cons.inj hout
      rw [hskips]
      exact arrives_init hblob hours hn .waiting htold
    | again hskips hg =>
      obtain ⟨rfl, rfl⟩ := List.cons.inj hout
      rw [hskips]
      exact .skipped hg (.agreed hours hn (.again hskips hg) (.skipped _ _ hskips) htold)
  -- The guess has been skipped; what is left is the share behind it.
  · generalize hout : g :: p :: ps = out at hsent
    cases hsent with
    | unannounced | owed => cases hout
    | guessed | guessedInit | waiting => simp at hout
    | again =>
      obtain ⟨-, hout⟩ := List.cons.inj hout
      obtain ⟨rfl, rfl⟩ := List.cons.inj hout
      exact arrives_init hblob hours hn .waiting htold

/-- Every packet that is under way to the server is one it can read. -/
theorem Accord.arrives (hblob : env.hostKeyBlob.length < 2 ^ 32)
    (h : Accord k clientId sessionId phase (p :: ps) ks stage qs ls) :
    Arrives k clientId sessionId p ps ks stage qs ls phase := by
  have htail : ∀ {x : Bytes} {xs : List Bytes}, (∀ y ∈ x :: xs, isKexMessage y = false) →
      ∀ y ∈ xs, isKexMessage y = false := fun h y hy => h y (List.mem_cons_of_mem _ hy)
  generalize hunder : p :: ps = under at h
  cases h with
  | rest hserver hps hclient hord =>
    cases hserver with
    | now =>
      subst hunder
      exact .plain (hps p List.mem_cons_self) (.inl rfl) (.rest (.now _) (htail hps) hclient hord)
    | soon rx =>
      obtain ⟨rfl, rfl⟩ := List.cons.inj hunder
      exact .newkeys rfl rfl (.rest (.now _) hps hclient hord)
  | called hours hps hclient hord =>
    subst hunder
    exact .plain (hps p List.mem_cons_self) (.inr ⟨_, rfl⟩) (.called hours (htail hps) hclient hord)
  | asked hours hps =>
    subst hunder
    exact .plain (hps p List.mem_cons_self) (.inr ⟨_, rfl⟩) (.asked hours (htail hps))
  | @offered o _ _ _ ps₁ out _ _ hserver hps hsent hord =>
    generalize hrest : ps₁ ++ o.payload :: out = rest at hserver
    cases hserver with
    | now =>
      cases ps₁ with
      | nil =>
        obtain ⟨rfl, rfl⟩ := List.cons.inj (hunder.trans hrest.symm)
        refine .opens rfl fun iS n hours hn => ?_
        rw [(fields_of_negotiates hn).1]
        exact .agreed hours hn hsent (.all _) (.soon hord)
      | cons x ps₁ =>
        obtain ⟨rfl, rfl⟩ := List.cons.inj (hunder.trans hrest.symm)
        exact .plain (hps p List.mem_cons_self) (.inl rfl) (.offered (.now _) (htail hps) hsent hord)
    | soon rx =>
      obtain ⟨rfl, rfl⟩ := List.cons.inj hunder
      exact .newkeys rfl rfl (.offered (hrest ▸ .now _) hps hsent hord)
  | @crossed o iS heard _ ps₁ out _ hours hps hsent htold =>
    cases ps₁ with
    | nil =>
      obtain ⟨rfl, rfl⟩ := List.cons.inj hunder
      refine .answers rfl fun n hn => ?_
      rw [(fields_of_negotiates hn).1]
      exact .agreed hours hn hsent (.all _) htold
    | cons x ps₁ =>
      obtain ⟨rfl, rfl⟩ := List.cons.inj hunder
      exact .plain (hps p List.mem_cons_self) (.inr ⟨_, rfl⟩) (.crossed hours (htail hps) hsent htold)
  | agreed hours hn hsent hunread htold =>
    subst hunder
    exact arrives_behind hblob hours hn hsent hunread htold
  | replied | keyed | received | gone => cases hunder

end

end QuantumSsh.Channel
