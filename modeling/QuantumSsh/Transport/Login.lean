import QuantumSsh.Transport.Order
import QuantumSsh.Userauth

/-!
# The authentication loop

What `authenticate` does with the requests of a peer, whatever they are. The log is
cut into rounds, one for each request: which key `resolve` was asked for, what was
reported, and what was answered. A login is handed on only behind a signature over
the session and the request; the budget bounds the rounds; failures are counted one
by one.
-/

namespace QuantumSsh.Transport

open Wire Kex Machine Program

/-! ### Rounds -/

/-- A request, and what the log shows up to the next one. -/
structure Round where
  request : Bytes
  entries : List HandshakeObs

/-- The log before its first request, and its rounds. -/
def splitRounds : List HandshakeObs → List HandshakeObs × List Round
  | [] => ([], [])
  | .readSealed _ payload :: log => ([], ⟨payload, (splitRounds log).1⟩ :: (splitRounds log).2)
  | obs :: log => (obs :: (splitRounds log).1, (splitRounds log).2)

namespace Round

variable (r : Round)

/-- What was sealed in the round: the cipher as it stood, the number and the payload. -/
def replies : List (Cipher.PacketCipher × ℕ × Bytes) := r.entries.filterMap fun
  | .wroteSealed tx seq payload => some (tx, seq, payload)
  | _ => none

/-- What `resolve` was asked in the round, and what it gave. -/
def asked : List (Bytes × Bytes × Bytes × Option Auth.Candidate) := r.entries.filterMap fun
  | .resolved algorithm keyBlob user candidate => some (algorithm, keyBlob, user, candidate)
  | _ => none

/-- The `auth.failed` events of the round. -/
def reported : List (Bytes × ℕ) := r.entries.filterMap fun
  | .authFailed method count => some (method, count)
  | _ => none

/-- The key that `resolve` gave. -/
def candidate : Option Auth.Candidate := r.asked.head?.bind fun a => a.2.2.2

/-- The method under which the request failed: it is not `publickey`, its key may not
log in, or its signature does not verify. -/
def failure (host : Host) (sessionId : Bytes) : Option Bytes :=
  match Auth.parseUserauthRequest r.request with
  | .error _ => none
  | .ok (.refused method) => some method
  | .ok (.publicKey _ _ _ signature) =>
    match r.candidate, signature with
    | none, _ => some Auth.authMethod
    | some _, none => none
    | some candidate, some signed =>
      if verifyAuthSignature host sessionId signed candidate.verifyingKey then none
      else some Auth.authMethod

/-- The request is signed with the key that `resolve` gave for it: the signature is
over the session and the bytes in front of the signature field. -/
def Proves (host : Host) (sessionId : Bytes) (candidate : Auth.Candidate) : Prop :=
  ∃ user algorithm keyBlob data signature,
    Auth.parseUserauthRequest r.request =
      .ok (.publicKey user algorithm keyBlob (some ⟨data, signature⟩)) ∧
    r.request = data ++ putString (Auth.putSignature signature) ∧
    (∃ tick, r.asked = [(algorithm, keyBlob, user, some candidate)] ∧
      host.resolve tick algorithm keyBlob user = some candidate) ∧
    signature.length = 64 ∧
    host.sigs.verifyStrict candidate.verifyingKey.val (putString sessionId ++ data) signature = true

end Round

/-- The number of the rounds that failed. -/
def failuresIn (host : Host) (sessionId : Bytes) (rounds : List Round) : ℕ :=
  rounds.countP fun r => (r.failure host sessionId).isSome

/-- A run ended with an error behind the answer it took at this tick. -/
def FailedAt {α : Type} (result : Except HandshakeError α) (ended tick : ℕ) : Prop :=
  (∃ e, result = .error e) ∧ ended = tick + 1

/-- What a round starts from: the cipher and the number of its reply, and the requests
and the failures before it. -/
structure Standing where
  tx : Cipher.PacketCipher
  seq : ℕ
  attempts : ℕ
  failures : ℕ

namespace Standing

variable (standing : Standing)

/-- Behind rounds of one reply each. -/
def past (host : Host) (sessionId : Bytes) (rounds : List Round) : Standing where
  tx := standing.tx.after rounds.length
  seq := (fun seq => wrappingAdd 32 seq 1)^[rounds.length] standing.seq
  attempts := standing.attempts + rounds.length
  failures := standing.failures + failuresIn host sessionId rounds

/-- The reply cannot be sealed with the padding drawn at this tick: the random source or
the cipher fails. -/
def Unsealed (host : Host) (tick : ℕ) (reply : Bytes) : Prop :=
  ∃ e, standing.tx.seal host.primitives (host.padding tick) standing.seq reply = .error e

/-- The reply was sealed under the cipher and the number of the round. Or nothing was,
for it could not be, and that was the end. -/
def Answers {α : Type} (host : Host) (isLast : Prop) (result : Except HandshakeError α)
    (ended : ℕ) (reply : Bytes) (replies : List (Cipher.PacketCipher × ℕ × Bytes)) : Prop :=
  replies = [(standing.tx, standing.seq, reply)] ∨
    isLast ∧ replies = [] ∧ ∃ tick, FailedAt result ended tick ∧ standing.Unsealed host tick reply

end Standing

/-- The reply to a request that is not the last word. -/
inductive Reply (host : Host) (sessionId : Bytes) (r : Round) : Bytes → Prop
  | failure {method : Bytes} (h : r.failure host sessionId = some method) :
      Reply host sessionId r (Auth.buildFailurePayload false)
  | pkOk {user algorithm keyBlob : Bytes} {candidate : Auth.Candidate}
      (hrequest : Auth.parseUserauthRequest r.request = .ok (.publicKey user algorithm keyBlob none))
      (hasked : r.asked = [(algorithm, keyBlob, user, some candidate)]) :
      Reply host sessionId r (Auth.buildPkOk algorithm keyBlob)

/-- The reply that ends the authentication; the DISCONNECT of a spent budget takes the
place of the reply that the request would have had. -/
inductive LastReply (host : Host) (sessionId : Bytes) (attempts : ℕ) (r : Round) : Bytes → Prop
  | success {candidate : Auth.Candidate} (h : r.Proves host sessionId candidate) :
      LastReply host sessionId attempts r Auth.buildSuccessPayload
  | malformed {error : Auth.RequestError} (h : Auth.parseUserauthRequest r.request = .error error) :
      LastReply host sessionId attempts r
        (disconnectMessage disconnectProtocolError (requestReason error))
  | spent {reply : Bytes} (h : Reply host sessionId r reply)
      (hspent : Auth.maxAuthAttempts ≤ attempts + 1) :
      LastReply host sessionId attempts r
        (disconnectMessage disconnectByApplication .tooManyAuthAttempts)

/-- What holds of a round of an authentication with this result, which ended at this
tick; `isLast` when no request follows. -/
structure Round.Sound {α : Type} (host : Host) (sessionId : Bytes) (standing : Standing)
    (isLast : Prop) (result : Except HandshakeError α) (ended : ℕ) (r : Round) : Prop where
  /-- `resolve` is asked once, for the key and the user of the request. -/
  asks : ∀ user algorithm keyBlob signature,
    Auth.parseUserauthRequest r.request = .ok (.publicKey user algorithm keyBlob signature) →
      ∃ tick, r.asked = [(algorithm, keyBlob, user, host.resolve tick algorithm keyBlob user)]
  reports : r.reported =
    ((r.failure host sessionId).map fun method => (method, standing.failures + 1)).toList
  replies : ∃ reply, (Reply host sessionId r reply ∨
      isLast ∧ LastReply host sessionId standing.attempts r reply) ∧
    standing.Answers host isLast result ended reply r.replies

/-- What holds of an authentication from this standing on, which ended at this tick. -/
structure AuthenticatesSoundly (host : Host) (sessionId : Bytes) (standing : Standing)
    (events : List HandshakeObs) (result : Except HandshakeError AuthAccepted) (ended : ℕ) :
    Prop where
  opens : (splitRounds events).1 = []
  budget : standing.attempts + (splitRounds events).2.length ≤ Auth.maxAuthAttempts
  sound : ∀ before r after, (splitRounds events).2 = before ++ r :: after →
    r.Sound host sessionId (standing.past host sessionId before) (after = []) result ended
  accepts : ∀ accepted, result = .ok accepted → ∃ before r candidate,
    (splitRounds events).2 = before ++ [r] ∧ r.Proves host sessionId candidate ∧
      accepted.authenticated = candidate.authenticated

/-! ### Cutting the log -/

def HandshakeObs.isRequest : HandshakeObs → Bool
  | .readSealed _ _ => true
  | _ => false

/-- A round is cut off where the next one starts. -/
theorem splitRounds_append {entries log : List HandshakeObs}
    (hentries : ∀ obs ∈ entries, obs.isRequest = false) (hlog : (splitRounds log).1 = []) :
    splitRounds (entries ++ log) = (entries, (splitRounds log).2) := by
  induction entries with
  | nil => exact Prod.ext hlog rfl
  | cons obs entries ih =>
    obtain ⟨hobs, hentries⟩ := List.forall_mem_cons.1 hentries
    have hsplit : splitRounds (obs :: (entries ++ log)) =
        (obs :: (splitRounds (entries ++ log)).1, (splitRounds (entries ++ log)).2) := by
      cases obs with
      | readSealed => cases hobs
      | _ => rfl
    rw [List.cons_append, hsplit, ih hentries]

theorem splitRounds_request {seq : ℕ} {payload : Bytes} {entries log : List HandshakeObs}
    (hentries : ∀ obs ∈ entries, obs.isRequest = false) (hlog : (splitRounds log).1 = []) :
    splitRounds (.readSealed seq payload :: (entries ++ log)) =
      ([], ⟨payload, entries⟩ :: (splitRounds log).2) := by
  rw [splitRounds, splitRounds_append hentries hlog]

section

variable {host : Host} {sessionId payload : Bytes} {standing : Standing} {seq ended : ℕ}
  {entries events : List HandshakeObs} {result : Except HandshakeError AuthAccepted}

theorem Standing.past_nil : standing.past host sessionId [] = standing := by
  simp only [past, List.length_nil, Cipher.PacketCipher.after_zero]
  rfl

theorem Standing.past_append (before after : List Round) :
    standing.past host sessionId (before ++ after) =
      (standing.past host sessionId before).past host sessionId after := by
  simp only [past, failuresIn, List.length_append, List.countP_append,
    Cipher.PacketCipher.after_after, Nat.add_assoc, Nat.add_comm before.length after.length,
    Function.iterate_add_apply]

/-- An authentication that reads no request. -/
theorem AuthenticatesSoundly.idle {e : HandshakeError}
    (h : standing.attempts ≤ Auth.maxAuthAttempts) :
    AuthenticatesSoundly host sessionId standing [] (.error e) ended where
  opens := rfl
  budget := h
  sound := by
    intro before r after hrounds
    exact absurd (congrArg List.length hrounds) (by simp [splitRounds])
  accepts := by
    intro accepted h
    cases h

/-- A round in front of an authentication that goes on. -/
theorem AuthenticatesSoundly.round (h : AuthenticatesSoundly host sessionId
      (standing.past host sessionId [⟨payload, entries⟩]) events result ended)
    (hentries : ∀ obs ∈ entries, obs.isRequest = false)
    (hround : Round.Sound host sessionId standing ((splitRounds events).2 = []) result ended
      ⟨payload, entries⟩) :
    AuthenticatesSoundly host sessionId standing (.readSealed seq payload :: (entries ++ events))
      result ended := by
  have hsplit := @splitRounds_request seq payload entries events hentries h.opens
  constructor
  case opens => rw [hsplit]
  case budget =>
    have hbudget := h.budget
    simp only [Standing.past, List.length_singleton] at hbudget
    rw [hsplit, List.length_cons]
    omega
  case sound =>
    intro before r after hrounds
    rw [hsplit] at hrounds
    cases before with
    | nil =>
      obtain ⟨rfl, rfl⟩ := List.cons.inj hrounds
      rwa [Standing.past_nil]
    | cons first before =>
      obtain ⟨rfl, hrest⟩ := List.cons.inj hrounds
      have hsound := h.sound before r after hrest
      rwa [← Standing.past_append, List.singleton_append] at hsound
  case accepts =>
    intro accepted haccepted
    obtain ⟨before, r, candidate, hrounds, hproves⟩ := h.accepts accepted haccepted
    exact ⟨⟨payload, entries⟩ :: before, r, candidate, by rw [hsplit, hrounds]; rfl, hproves⟩

/-- The last round. -/
theorem AuthenticatesSoundly.last (hattempts : standing.attempts < Auth.maxAuthAttempts)
    (hentries : ∀ obs ∈ entries, obs.isRequest = false)
    (hround : Round.Sound host sessionId standing True result ended ⟨payload, entries⟩)
    (haccepts : ∀ accepted, result = .ok accepted → ∃ candidate,
      Round.Proves ⟨payload, entries⟩ host sessionId candidate ∧
        accepted.authenticated = candidate.authenticated) :
    AuthenticatesSoundly host sessionId standing (.readSealed seq payload :: entries)
      result ended := by
  have hsplit : splitRounds (.readSealed seq payload :: entries) = ([], [⟨payload, entries⟩]) := by
    have h := @splitRounds_request seq payload entries [] hentries rfl
    rwa [List.append_nil] at h
  constructor
  case opens => rw [hsplit]
  case budget =>
    rw [hsplit]
    exact hattempts
  case sound =>
    intro before r after hrounds
    rw [hsplit] at hrounds
    obtain ⟨rfl, rfl, rfl⟩ : before = [] ∧ r = ⟨payload, entries⟩ ∧ after = [] := by
      cases before with
      | nil =>
        obtain ⟨rfl, rfl⟩ := List.cons.inj hrounds
        exact ⟨rfl, rfl, rfl⟩
      | cons first before => exact absurd (congrArg List.length hrounds) (by simp)
    rwa [Standing.past_nil, eq_self]
  case accepts =>
    intro accepted haccepted
    obtain ⟨candidate, hproves⟩ := haccepts accepted haccepted
    exact ⟨[], ⟨payload, entries⟩, candidate, by rw [hsplit]; rfl, hproves⟩

end

/-! ### One round -/

section

variable {host : Host} {l : Link} {sessionId : Bytes}

/-- What the decision on a request is, by what `resolve` gave. -/
inductive Judged (host : Host) (sessionId : Bytes) :
    Auth.UserauthRequest → List HandshakeObs → Verdict → Prop
  | refused (method : Bytes) : Judged host sessionId (.refused method) [] (.failed method)
  | unknown {user algorithm keyBlob : Bytes} (signature : Option Auth.Signed) {tick : ℕ}
      (h : host.resolve tick algorithm keyBlob user = none) :
      Judged host sessionId (.publicKey user algorithm keyBlob signature)
        [.resolved algorithm keyBlob user none] (.failed Auth.authMethod)
  | known {user algorithm keyBlob : Bytes} {tick : ℕ} {candidate : Auth.Candidate}
      (h : host.resolve tick algorithm keyBlob user = some candidate) :
      Judged host sessionId (.publicKey user algorithm keyBlob none)
        [.resolved algorithm keyBlob user (some candidate)] (.known algorithm keyBlob)
  | forged {user algorithm keyBlob : Bytes} {signed : Auth.Signed} {tick : ℕ}
      {candidate : Auth.Candidate} (h : host.resolve tick algorithm keyBlob user = some candidate)
      (hverify : ¬verifyAuthSignature host sessionId signed candidate.verifyingKey = true) :
      Judged host sessionId (.publicKey user algorithm keyBlob (some signed))
        [.resolved algorithm keyBlob user (some candidate)] (.failed Auth.authMethod)
  | proven {user algorithm keyBlob : Bytes} {signed : Auth.Signed} {tick : ℕ}
      {candidate : Auth.Candidate} (h : host.resolve tick algorithm keyBlob user = some candidate)
      (hverify : verifyAuthSignature host sessionId signed candidate.verifyingKey = true) :
      Judged host sessionId (.publicKey user algorithm keyBlob (some signed))
        [.resolved algorithm keyBlob user (some candidate)] (.success candidate)

theorem judge_judged {request : Auth.UserauthRequest} {ok : Verdict → Link → Prop}
    {err : HandshakeError → Link → Prop}
    (hok : ∀ verdict entries l', l'.log = l.log ++ entries → l'.seqTx = l.seqTx →
      Judged host sessionId request entries verdict → ok verdict l') :
    (judge host sessionId request).Ensures l ok err := by
  cases request with
  | refused method => exact hok _ [] _ (List.append_nil _).symm rfl (.refused method)
  | publicKey user algorithm keyBlob signature =>
    cases signature with
    | none =>
      simp only [judge, askResolve, ensures_bind, consult_ensures, ensures_update, ensures_pure]
      cases hresolve : host.resolve l.tick algorithm keyBlob user with
      | none => exact hok _ _ _ rfl rfl (.unknown none hresolve)
      | some candidate => exact hok _ _ _ rfl rfl (.known hresolve)
    | some signed =>
      simp only [judge, askResolve, ensures_bind, consult_ensures, ensures_update, ensures_pure]
      cases hresolve : host.resolve l.tick algorithm keyBlob user with
      | none => exact hok _ _ _ rfl rfl (.unknown _ hresolve)
      | some candidate =>
        dsimp only
        split
        next hverify => exact hok _ _ _ rfl rfl (.proven hresolve hverify)
        next hverify => exact hok _ _ _ rfl rfl (.forged hresolve hverify)

/-- The method of a failure. -/
def Verdict.failure : Verdict → Option Bytes
  | .failed method => some method
  | _ => none

section

variable {payload : Bytes} {request : Auth.UserauthRequest} {verdict : Verdict}
  {entries tail : List HandshakeObs}

theorem Round.asked_append (htail : Round.asked ⟨payload, tail⟩ = []) :
    Round.asked ⟨payload, entries ++ tail⟩ = Round.asked ⟨payload, entries⟩ := by
  unfold Round.asked at *
  rw [List.filterMap_append, htail, List.append_nil]

theorem Judged.asked (h : Judged host sessionId request entries verdict)
    (hparse : Auth.parseUserauthRequest payload = .ok request)
    (htail : Round.asked ⟨payload, tail⟩ = []) {user algorithm keyBlob : Bytes}
    {signature : Option Auth.Signed} (hrequest : Auth.parseUserauthRequest payload =
      .ok (.publicKey user algorithm keyBlob signature)) :
    ∃ tick, Round.asked ⟨payload, entries ++ tail⟩ =
      [(algorithm, keyBlob, user, host.resolve tick algorithm keyBlob user)] := by
  rw [Round.asked_append htail]
  rw [hparse] at hrequest
  cases hrequest
  cases h with
  | @unknown _ _ _ _ tick hresolve => exact ⟨tick, by rw [hresolve]; rfl⟩
  | @known _ _ _ tick _ hresolve => exact ⟨tick, by rw [hresolve]; rfl⟩
  | @forged _ _ _ _ tick _ hresolve => exact ⟨tick, by rw [hresolve]; rfl⟩
  | @proven _ _ _ _ tick _ hresolve => exact ⟨tick, by rw [hresolve]; rfl⟩

theorem Judged.failure_eq (h : Judged host sessionId request entries verdict)
    (hparse : Auth.parseUserauthRequest payload = .ok request)
    (htail : Round.asked ⟨payload, tail⟩ = []) :
    Round.failure ⟨payload, entries ++ tail⟩ host sessionId = verdict.failure := by
  have hasked := @Round.asked_append payload entries tail htail
  rw [Round.failure, Round.candidate, hasked, hparse]
  cases h with
  | refused method => rfl
  | unknown signature => rfl
  | known => rfl
  | forged hresolve hverify => exact if_neg hverify
  | proven hresolve hverify => exact if_pos hverify

/-- A signed request that verifies. -/
theorem Judged.proves {candidate : Auth.Candidate}
    (h : Judged host sessionId request entries (.success candidate))
    (hparse : Auth.parseUserauthRequest payload = .ok request)
    (htail : Round.asked ⟨payload, tail⟩ = []) :
    Round.Proves ⟨payload, entries ++ tail⟩ host sessionId candidate := by
  cases h with
  | @proven user algorithm keyBlob signed tick _ hresolve hverify =>
    simp only [verifyAuthSignature, Bool.and_eq_true, decide_eq_true_eq] at hverify
    cases Auth.encodes_of_parse hparse with
    | @signed _ _ _ raw flag hkey hflag hsignature =>
      exact ⟨user, algorithm, keyBlob, _, raw, hparse, rfl,
        ⟨tick, Round.asked_append htail, hresolve⟩, hverify⟩

/-- A round whose request parses is sound when the entries behind the decision are. -/
theorem Judged.sound {standing : Standing} {isLast : Prop} {ended : ℕ} {reply : Bytes}
    {result : Except HandshakeError AuthAccepted}
    (h : Judged host sessionId request entries verdict)
    (hparse : Auth.parseUserauthRequest payload = .ok request)
    (htail : Round.asked ⟨payload, tail⟩ = [])
    (hreported : Round.reported ⟨payload, tail⟩ =
      (verdict.failure.map fun method => (method, standing.failures + 1)).toList)
    (hreply : Reply host sessionId ⟨payload, entries ++ tail⟩ reply ∨
      isLast ∧ LastReply host sessionId standing.attempts ⟨payload, entries ++ tail⟩ reply)
    (hanswers : standing.Answers host isLast result ended reply (Round.replies ⟨payload, tail⟩)) :
    Round.Sound host sessionId standing isLast result ended ⟨payload, entries ++ tail⟩ := by
  have hquiet : Round.reported ⟨payload, entries⟩ = [] ∧ Round.replies ⟨payload, entries⟩ = [] := by
    cases h with
    | refused method => exact ⟨rfl, rfl⟩
    | _ => exact ⟨rfl, rfl⟩
  have hreported' : Round.reported ⟨payload, entries ++ tail⟩ = Round.reported ⟨payload, tail⟩ := by
    have := hquiet.1
    unfold Round.reported at *
    rw [List.filterMap_append, this, List.nil_append]
  have hreplies' : Round.replies ⟨payload, entries ++ tail⟩ = Round.replies ⟨payload, tail⟩ := by
    have := hquiet.2
    unfold Round.replies at *
    rw [List.filterMap_append, this, List.nil_append]
  constructor
  case asks => exact fun user algorithm keyBlob signature => h.asked hparse htail
  case reports => rw [hreported', hreported, h.failure_eq hparse htail]
  case replies => exact ⟨reply, hreply, by rwa [hreplies']⟩

end

/-- A packet was handed to the stream, or could not be sealed. -/
inductive Link.Tried (host : Host) (tx : Cipher.PacketCipher) (payload : Bytes) (l l' : Link) : Prop
  | handed (log : l'.log = l.log ++ [.wroteSealed tx l.seqTx payload])
  | unsealed {e : Cipher.CipherError} (log : l'.log = l.log) (tick : l'.tick = l.tick + 1)
      (hseal : tx.seal host.primitives (host.padding l.tick) l.seqTx payload = .error e)

theorem writeSealedPacket_tried {tx : Cipher.PacketCipher} {payload : Bytes}
    {ok : Cipher.PacketCipher → Link → Prop} {err : HandshakeError → Link → Prop}
    (hok : ∀ l', l.Wrote (.wroteSealed tx l.seqTx payload) l' → ok (tx.after 1) l')
    (herr : ∀ e l', l.Tried host tx payload l' → err e l') :
    (writeSealedPacket host tx payload).Ensures l ok err := by
  simp only [writeSealedPacket, ensures_bind, consult_ensures, ensures_look]
  cases hseal : tx.seal host.primitives (host.padding l.tick) l.seqTx payload with
  | error e => exact herr _ _ (.unsealed rfl rfl hseal)
  | ok result =>
    obtain ⟨packet, next⟩ := result
    obtain rfl := Cipher.PacketCipher.next_of_seal hseal
    simp only [ensures_bind, ensures_update]
    refine await_ensures ?_ fun e l' hsame => herr e l' (.handed hsame.log)
    intro l' hsame
    simp only [consult_ensures]
    cases host.env.writeOk l'.tick with
    | false => exact herr _ _ (.handed hsame.log)
    | true =>
      refine hok _ ⟨hsame.log, ?_, hsame.seqRx⟩
      change wrappingAdd 32 l'.seqTx 1 = _
      rw [hsame.seqTx]
      rfl

theorem rejectSealed_tried {α : Type} {tx : Cipher.PacketCipher} {code : ℕ}
    {reason : HandshakeReason} {ok : α → Link → Prop} {err : HandshakeError → Link → Prop}
    (herr : ∀ e l', l.Tried host tx (disconnectMessage code reason) l' → err e l') :
    (rejectSealed host tx code reason).Ensures l ok err := by
  simp only [rejectSealed, ensures_bind]
  refine tolerate_ensures (R := l.Tried host tx (disconnectMessage code reason))
    (writeSealedPacket_tried (fun _ hwrote => .handed hwrote.log) fun _ _ htried => htried) ?_ herr
  intro l' htried
  exact herr _ _ htried

theorem Judged.quiet {request : Auth.UserauthRequest} {entries : List HandshakeObs}
    {verdict : Verdict} (h : Judged host sessionId request entries verdict) :
    ∀ obs ∈ entries, obs.isRequest = false := by
  cases h with
  | refused method => simp
  | _ => simp [HandshakeObs.isRequest]

end

/-! ### The loop -/

/-- What an authentication adds to the log is sound. -/
def Done (host : Host) (sessionId : Bytes) (standing : Standing) (l : Link)
    (result : Except HandshakeError AuthAccepted) (l' : Link) : Prop :=
  ∃ events, l'.log = l.log ++ events ∧
    AuthenticatesSoundly host sessionId standing events result l'.tick

section

variable {host : Host} {l l₁ l' : Link} {sessionId payload reply : Bytes} {standing : Standing}
  {seq : ℕ} {e : HandshakeError}

/-- What the last try to reply adds to the log. -/
theorem Link.Tried.answers (h : l₁.Tried host standing.tx reply l') (hseq : l₁.seqTx = standing.seq)
    (payload : Bytes) : ∃ tail, l'.log = l₁.log ++ tail ∧ (∀ obs ∈ tail, obs.isRequest = false) ∧
      Round.asked ⟨payload, tail⟩ = [] ∧ Round.reported ⟨payload, tail⟩ = [] ∧
      standing.Answers host True (.error e : Except HandshakeError AuthAccepted) l'.tick reply
        (Round.replies ⟨payload, tail⟩) := by
  cases h with
  | handed hlog =>
    rw [hseq] at hlog
    exact ⟨_, hlog, by simp [HandshakeObs.isRequest], rfl, rfl, .inl rfl⟩
  | @unsealed error hlog htick hseal =>
    rw [hseq] at hseal
    exact ⟨[], by rw [hlog, List.append_nil], by simp, rfl, rfl,
      .inr ⟨trivial, rfl, l₁.tick, ⟨⟨e, rfl⟩, htick⟩, error, hseal⟩⟩

/-- A request that does not parse ends the authentication. -/
theorem done_of_malformed {error : Auth.RequestError}
    (hlog : l₁.log = l.log ++ [.readSealed seq payload]) (hseq : l₁.seqTx = standing.seq)
    (hattempts : standing.attempts < Auth.maxAuthAttempts)
    (hparse : Auth.parseUserauthRequest payload = .error error)
    (htried : l₁.Tried host standing.tx
      (disconnectMessage disconnectProtocolError (requestReason error)) l') :
    Done host sessionId standing l (.error e) l' := by
  obtain ⟨tail, hlog', hquiet, hasked, hreported, hanswers⟩ := htried.answers hseq payload
  refine ⟨.readSealed seq payload :: tail, by rw [hlog', hlog, List.append_assoc]; rfl,
    .last hattempts hquiet ?_ fun _ h => by cases h⟩
  constructor
  case asks =>
    intro user algorithm keyBlob signature hrequest
    cases hparse.symm.trans hrequest
  case reports =>
    have hfailure : Round.failure ⟨payload, tail⟩ host sessionId = none := by
      rw [Round.failure, hparse]
    rw [hfailure, hreported]
    rfl
  case replies => exact ⟨_, .inr ⟨trivial, .malformed hparse⟩, hanswers⟩

variable {request : Auth.UserauthRequest} {verdict : Verdict} {entries noted : List HandshakeObs}

/-- A request that parses, with what was noted behind the decision on it, up to where
the reply ends the authentication. -/
theorem done_of_last {result : Except HandshakeError AuthAccepted} {tail : List HandshakeObs}
    (hlog : l'.log = l.log ++ [.readSealed seq payload] ++ entries ++ tail)
    (hattempts : standing.attempts < Auth.maxAuthAttempts)
    (hparse : Auth.parseUserauthRequest payload = .ok request)
    (hjudged : Judged host sessionId request entries verdict)
    (hquiet : ∀ obs ∈ tail, obs.isRequest = false)
    (hasked : Round.asked ⟨payload, tail⟩ = [])
    (hreported : Round.reported ⟨payload, tail⟩ =
      (verdict.failure.map fun method => (method, standing.failures + 1)).toList)
    (hreply : Reply host sessionId ⟨payload, entries ++ tail⟩ reply ∨
      LastReply host sessionId standing.attempts ⟨payload, entries ++ tail⟩ reply)
    (hanswers : standing.Answers host True result l'.tick reply (Round.replies ⟨payload, tail⟩))
    (haccepts : ∀ accepted, result = .ok accepted →
      ∃ candidate, verdict = .success candidate ∧ accepted.authenticated = candidate.authenticated) :
    Done host sessionId standing l result l' := by
  refine ⟨.readSealed seq payload :: (entries ++ tail), ?_, .last hattempts ?_ ?_ ?_⟩
  · rw [hlog]
    simp
  · intro obs hobs
    obtain hobs | hobs := List.mem_append.1 hobs
    · exact hjudged.quiet obs hobs
    · exact hquiet obs hobs
  · exact hjudged.sound hparse hasked hreported (hreply.imp_right fun h => ⟨trivial, h⟩) hanswers
  · intro accepted haccepted
    obtain ⟨candidate, rfl, hcandidate⟩ := haccepts accepted haccepted
    exact ⟨candidate, hjudged.proves hparse hasked, hcandidate⟩

/-- A request whose last word is a DISCONNECT, or whose reply cannot be sealed. -/
theorem done_of_end (hlog : l₁.log = l.log ++ [.readSealed seq payload] ++ entries ++ noted)
    (hseq : l₁.seqTx = standing.seq) (htried : l₁.Tried host standing.tx reply l')
    (hattempts : standing.attempts < Auth.maxAuthAttempts)
    (hparse : Auth.parseUserauthRequest payload = .ok request)
    (hjudged : Judged host sessionId request entries verdict)
    (hnoted : ∀ obs ∈ noted, obs.isRequest = false)
    (hasked : Round.asked ⟨payload, noted⟩ = [])
    (hreported : Round.reported ⟨payload, noted⟩ =
      (verdict.failure.map fun method => (method, standing.failures + 1)).toList)
    (hsilent : Round.replies ⟨payload, noted⟩ = [])
    (hreply : ∀ tail, Round.asked ⟨payload, tail⟩ = [] →
      Reply host sessionId ⟨payload, entries ++ tail⟩ reply ∨
        LastReply host sessionId standing.attempts ⟨payload, entries ++ tail⟩ reply) :
    Done host sessionId standing l (.error e) l' := by
  obtain ⟨tail, hlog', hquiet, hasked', hreported', hanswers⟩ := htried.answers hseq payload
  have hasked₂ : Round.asked ⟨payload, noted ++ tail⟩ = [] :=
    (Round.asked_append hasked').trans hasked
  have hreported₂ : Round.reported ⟨payload, noted ++ tail⟩ = Round.reported ⟨payload, noted⟩ := by
    unfold Round.reported at *
    rw [List.filterMap_append, hreported', List.append_nil]
  have hreplies₂ : Round.replies ⟨payload, noted ++ tail⟩ = Round.replies ⟨payload, tail⟩ := by
    unfold Round.replies at *
    rw [List.filterMap_append, hsilent, List.nil_append]
  rw [hlog, List.append_assoc] at hlog'
  refine done_of_last hlog' hattempts hparse hjudged ?_ hasked₂ (hreported₂.trans hreported)
    (hreply _ hasked₂) (by rwa [hreplies₂]) fun _ h => by cases h
  intro obs hobs
  exact (List.mem_append.1 hobs).elim (hnoted obs) (hquiet obs)

/-- A request that is answered, in front of the rest of the authentication. -/
theorem done_of_next {result : Except HandshakeError AuthAccepted} {tail : List HandshakeObs}
    (hlog : l₁.log = l.log ++ [.readSealed seq payload] ++ entries ++ tail)
    (hparse : Auth.parseUserauthRequest payload = .ok request)
    (hjudged : Judged host sessionId request entries verdict)
    (hquiet : ∀ obs ∈ tail, obs.isRequest = false)
    (hasked : Round.asked ⟨payload, tail⟩ = [])
    (hreported : Round.reported ⟨payload, tail⟩ =
      (verdict.failure.map fun method => (method, standing.failures + 1)).toList)
    (hreplies : Round.replies ⟨payload, tail⟩ = [(standing.tx, standing.seq, reply)])
    (hreply : Reply host sessionId ⟨payload, entries ++ tail⟩ reply)
    (h : Done host sessionId ⟨standing.tx.after 1, wrappingAdd 32 standing.seq 1,
      standing.attempts + 1, standing.failures + (verdict.failure.map fun _ => 1).getD 0⟩ l₁
      result l') :
    Done host sessionId standing l result l' := by
  obtain ⟨events, hevents, hsound⟩ := h
  have hcount : failuresIn host sessionId [⟨payload, entries ++ tail⟩] =
      (verdict.failure.map fun _ => 1).getD 0 := by
    rw [failuresIn, List.countP_singleton, hjudged.failure_eq hparse hasked]
    cases verdict.failure with
    | none => rfl
    | some method => rfl
  rw [← hcount] at hsound
  refine ⟨.readSealed seq payload :: ((entries ++ tail) ++ events), ?_,
    AuthenticatesSoundly.round hsound ?_ ?_⟩
  · rw [hevents, hlog]
    simp
  · intro obs hobs
    obtain hobs | hobs := List.mem_append.1 hobs
    · exact hjudged.quiet obs hobs
    · exact hquiet obs hobs
  · exact hjudged.sound hparse hasked hreported (.inl hreply) (.inl hreplies)

end

/-- The rounds of the loop are sound, while there is a budget. -/
theorem authenticateLoop_done {host : Host} {fuel attempts failures : ℕ} {stage : Secured} {l : Link}
    (hbudget : attempts + fuel = Auth.maxAuthAttempts) (hleft : 0 < fuel) :
    (authenticateLoop host fuel attempts failures stage).Ensures l
      (fun accepted l' =>
        Done host stage.sessionId ⟨stage.tx, l.seqTx, attempts, failures⟩ l (.ok accepted) l')
      fun e l' => Done host stage.sessionId ⟨stage.tx, l.seqTx, attempts, failures⟩ l (.error e) l' := by
  induction fuel generalizing attempts failures stage l with
  | zero => cases hleft
  | succ fuel ih =>
    have hattempts : attempts < Auth.maxAuthAttempts := by omega
    simp only [authenticateLoop, ensures_bind]
    refine readSealedPacket_ensures ?_ fun e l' hsame =>
      ⟨[], by rw [hsame.log, List.append_nil], .idle hattempts.le⟩
    intro payload rx l₁ hread
    split
    -- A request that does not parse ends the connection.
    next error hparse =>
      exact rejectSealed_tried fun e l' htried =>
        done_of_malformed hread.log hread.seqTx hattempts hparse htried
    next request hparse =>
      simp only [ensures_bind]
      refine judge_judged ?_
      intro verdict entries l₂ hlog₂ hseq₂ hjudged
      rw [hread.log] at hlog₂
      rw [hread.seqTx] at hseq₂
      split
      -- The proof was accepted: the success message is the last of the loop.
      next candidate =>
        have hsuccess : ∀ tail, Round.asked ⟨payload, tail⟩ = [] →
            LastReply host stage.sessionId attempts ⟨payload, entries ++ tail⟩
              Auth.buildSuccessPayload :=
          fun tail htail => .success (hjudged.proves hparse htail)
        simp only [ensures_bind]
        refine writeSealedPacket_tried ?_ ?_
        · intro l₃ hwrote
          simp only [ensures_update, ensures_pure]
          have hlog₄ : (l₃.observe (.authSucceeded Auth.authMethod candidate.authenticated)).log =
              l.log ++ [.readSealed l.seqRx payload] ++ entries ++
                [.wroteSealed stage.tx l.seqTx Auth.buildSuccessPayload,
                  .authSucceeded Auth.authMethod candidate.authenticated] := by
            simp only [Link.observe, hwrote.log, hlog₂, hseq₂, List.append_assoc,
              List.singleton_append]
          refine done_of_last hlog₄ hattempts hparse hjudged (by simp [HandshakeObs.isRequest]) rfl
            rfl (.inr (hsuccess _ rfl)) (.inl rfl) ?_
          intro accepted haccepted
          cases haccepted
          exact ⟨candidate, rfl, rfl⟩
        · intro e l₃ htried
          rw [← List.append_nil entries, ← List.append_assoc] at hlog₂
          exact done_of_end hlog₂ hseq₂ htried hattempts hparse hjudged (by simp) rfl rfl rfl
            fun tail htail => .inr (hsuccess tail htail)
      -- The failure is logged before the limit is looked at.
      next method =>
        simp only [ensures_bind, ensures_update]
        have hlog₃ : (l₂.observe (.authFailed method (failures + 1))).log =
            l.log ++ [.readSealed l.seqRx payload] ++ entries ++
              [.authFailed method (failures + 1)] := by
          simp only [Link.observe, hlog₂]
        have hnoted : ∀ obs ∈ [HandshakeObs.authFailed method (failures + 1)],
            obs.isRequest = false := by simp [HandshakeObs.isRequest]
        have hanswer : ∀ tail, Round.asked ⟨payload, tail⟩ = [] →
            Reply host stage.sessionId ⟨payload, entries ++ tail⟩ (Auth.buildFailurePayload false) :=
          fun tail htail => .failure (hjudged.failure_eq hparse htail)
        split
        next hspent =>
          refine rejectSealed_tried ?_
          intro e l' htried
          exact done_of_end hlog₃ hseq₂ htried hattempts hparse hjudged hnoted rfl rfl rfl
            fun tail htail => .inr (.spent (hanswer tail htail) hspent)
        next hmore =>
          simp only [ensures_bind]
          refine writeSealedPacket_tried ?_ ?_
          · intro l₄ hwrote
            have hlog₄ := hwrote.log
            have hseq₄ := hwrote.seqTx
            simp only [Link.observe] at hseq₂ hseq₄
            rw [hlog₃, List.append_assoc, show (l₂.observe _).seqTx = l.seqTx from hseq₂] at hlog₄
            rw [hseq₂] at hseq₄
            have hrest := @ih (attempts + 1) (failures + 1) { stage with rx, tx := stage.tx.after 1 }
              l₄ (by omega) (by omega)
            rw [hseq₄] at hrest
            refine hrest.mono ?_ ?_
            · intro accepted l' hdone
              exact done_of_next hlog₄ hparse hjudged (by simp [HandshakeObs.isRequest]) rfl rfl rfl
                (hanswer _ rfl) hdone
            · intro e l' hdone
              exact done_of_next hlog₄ hparse hjudged (by simp [HandshakeObs.isRequest]) rfl rfl rfl
                (hanswer _ rfl) hdone
          · intro e l' htried
            exact done_of_end hlog₃ hseq₂ htried hattempts hparse hjudged hnoted rfl rfl rfl
              fun tail htail => .inl (hanswer tail htail)
      -- A query costs an attempt and is no failure.
      next algorithm keyBlob =>
        have hanswer : ∀ tail, Round.asked ⟨payload, tail⟩ = [] →
            Reply host stage.sessionId ⟨payload, entries ++ tail⟩
              (Auth.buildPkOk algorithm keyBlob) := by
          intro tail htail
          cases hjudged with
          | known hresolve => exact .pkOk hparse (Round.asked_append htail)
        rw [← List.append_nil entries, ← List.append_assoc] at hlog₂
        split
        next hspent =>
          refine rejectSealed_tried ?_
          intro e l' htried
          exact done_of_end hlog₂ hseq₂ htried hattempts hparse hjudged (by simp) rfl rfl rfl
            fun tail htail => .inr (.spent (hanswer tail htail) hspent)
        next hmore =>
          simp only [ensures_bind]
          refine writeSealedPacket_tried ?_ ?_
          · intro l₄ hwrote
            have hlog₄ := hwrote.log
            rw [hlog₂, List.append_nil, hseq₂] at hlog₄
            have hrest := @ih (attempts + 1) failures { stage with rx, tx := stage.tx.after 1 } l₄
              (by omega) (by omega)
            rw [hwrote.seqTx, hseq₂] at hrest
            refine hrest.mono ?_ ?_
            · intro accepted l' hdone
              exact done_of_next hlog₄ hparse hjudged (by simp [HandshakeObs.isRequest]) rfl rfl rfl
                (hanswer _ rfl) hdone
            · intro e l' hdone
              exact done_of_next hlog₄ hparse hjudged (by simp [HandshakeObs.isRequest]) rfl rfl rfl
                (hanswer _ rfl) hdone
          · intro e l' htried
            exact done_of_end hlog₂ hseq₂ htried hattempts hparse hjudged (by simp) rfl rfl rfl
              fun tail htail => .inl (hanswer tail htail)

/-- **Authentication is sound and bounded**: whatever a peer sends, a login is handed on
only as the identity that `resolve` gave for the key of the last request, behind its
signature over the session and that request; at most `MAX_AUTH_ATTEMPTS` requests are
read, each gets one reply under the next number, and the failures are counted. -/
theorem authentication_sound (host : Host) (stage : Secured) (l : Link) :
    ∃ events, (authenticate host stage l).2.log = l.log ++ events ∧
      AuthenticatesSoundly host stage.sessionId ⟨stage.tx, l.seqTx, 0, 0⟩ events
        (authenticate host stage l).1 (authenticate host stage l).2.tick := by
  have h : (authenticate host stage).Ensures l
      (fun accepted l' =>
        Done host stage.sessionId ⟨stage.tx, l.seqTx, 0, 0⟩ l (.ok accepted) l')
      fun e l' => Done host stage.sessionId ⟨stage.tx, l.seqTx, 0, 0⟩ l (.error e) l' :=
    authenticateLoop_done rfl (by decide)
  cases hrun : authenticate host stage l with
  | mk result l' =>
    cases result with
    | ok accepted => exact h.of_ok hrun
    | error e => exact h.of_error hrun

end QuantumSsh.Transport
