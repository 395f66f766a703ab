import Mathlib.Data.List.Induction
import QuantumSsh.Lib.Lists
import QuantumSsh.Transport.Handshake

/-!
# The order of a handshake

An automaton says which packet the handshake accepts next, a count follows the
packets of both directions since their last NEWKEYS, and a third predicate what
the server writes behind its own NEWKEYS. Every stage is proved from what holds of
the log before it.
-/

namespace QuantumSsh.Transport

open Wire Kex Machine Program

/-! ### What is received -/

/-- A packet received. -/
structure Arrival where
  isSealed : Bool
  payload : Bytes
deriving Repr, DecidableEq

def HandshakeObs.arrival : HandshakeObs → Option Arrival
  | .readPlain _ payload => some ⟨false, payload⟩
  | .readSealed _ payload => some ⟨true, payload⟩
  | _ => none

/-- The packets received, in order. -/
def received (log : List HandshakeObs) : List Arrival := log.filterMap HandshakeObs.arrival

@[simp] theorem received_append (log log' : List HandshakeObs) :
    received (log ++ log') = received log ++ received log' :=
  List.filterMap_append

/-- The packet a handshake waits for. -/
inductive Awaited where
  | kexInit
  | guessed
  | hybridInit
  | newKeys
  | serviceRequest
  | userAuth
deriving Repr, DecidableEq

/-- What the peer's first KEXINIT negotiates. -/
def negotiatedBy (iC : Bytes) : Option Negotiated :=
  match parseKexinit iC >>= fun peer => negotiate peer true with
  | .ok negotiated => if iC.head? = some sshMsgKexinit then some negotiated else none
  | .error _ => none

/-- The packet is a KEX_HYBRID_INIT. -/
def isHybridInit (payload : Bytes) : Bool :=
  payload.head? = some sshMsgKexHybridInit && (readHybridInit.run payload).isOk

/-- The packet requests the service `ssh-userauth`. -/
def requestsUserauth (payload : Bytes) : Bool :=
  match parseServiceRequest.run payload with
  | .ok (service, _) => service = utf8 "ssh-userauth"
  | .error _ => false

/-- What is awaited behind an accepted packet; `none` when it is not acceptable. -/
def Awaited.accepts (awaited : Awaited) (x : Arrival) : Option Awaited :=
  match awaited, x.isSealed with
  | .kexInit, false => (negotiatedBy x.payload).map fun negotiated =>
      if negotiated.skipGuessedPacket then .guessed else .hybridInit
  | .guessed, false => some .hybridInit
  | .hybridInit, false => if isHybridInit x.payload then some .newKeys else none
  | .newKeys, false => if x.payload = [sshMsgNewkeys] then some .serviceRequest else none
  | .serviceRequest, true => if requestsUserauth x.payload then some .userAuth else none
  | .userAuth, true => if (Auth.parseUserauthRequest x.payload).isOk then some .userAuth else none
  | _, _ => none

/-- The packets are acceptable one after the other. -/
def Awaited.run (awaited : Awaited) (arrivals : List Arrival) : Option Awaited :=
  arrivals.foldlM Awaited.accepts awaited

theorem Awaited.run_append (awaited : Awaited) (xs ys : List Arrival) :
    awaited.run (xs ++ ys) = (awaited.run xs).bind fun next => next.run ys := by
  simp only [run, List.foldlM_append]
  rfl

theorem Awaited.run_concat (awaited : Awaited) (xs : List Arrival) (x : Arrival) :
    awaited.run (xs ++ [x]) = (awaited.run xs).bind fun next => next.accepts x := by
  rw [run_append]
  congr 1
  funext next
  simp [run]

/-! ### The numbers of the packets -/

/-- The packets of both directions since their last NEWKEYS, as long as every
packet carries the count before it. -/
def countOne (counts : ℕ × ℕ) : HandshakeObs → Option (ℕ × ℕ)
  | .wrotePlain seq _ => if seq = counts.1 then some (counts.1 + 1, counts.2) else none
  | .wroteSealed _ seq _ => if seq = counts.1 then some (counts.1 + 1, counts.2) else none
  | .readPlain seq _ => if seq = counts.2 then some (counts.1, counts.2 + 1) else none
  | .readSealed seq _ => if seq = counts.2 then some (counts.1, counts.2 + 1) else none
  | .agreed _ _ => some counts
  | .resolved _ _ _ _ => some counts
  | .authFailed _ _ => some counts
  | .authSucceeded _ _ => some counts
  | .switchedTx => some (0, counts.2)
  | .switchedRx => some (counts.1, 0)

def counted (log : List HandshakeObs) : Option (ℕ × ℕ) := log.foldlM countOne (0, 0)

theorem counted_concat (log : List HandshakeObs) (obs : HandshakeObs) :
    counted (log ++ [obs]) = (counted log).bind fun counts => countOne counts obs := by
  simp only [counted, List.foldlM_append]
  change (List.foldlM countOne (0, 0) log).bind _ = _
  congr 1
  funext counts
  simp

theorem countOne_le {counts counts' : ℕ × ℕ} {obs : HandshakeObs}
    (h : countOne counts obs = some counts') :
    counts'.1 ≤ counts.1 + 1 ∧ counts'.2 ≤ counts.2 + 1 := by
  cases obs <;> simp only [countOne, Option.ite_none_right_eq_some, Option.some.injEq] at h <;>
    grind

/-- No more packets are counted than the log has entries. -/
theorem counted_le {log : List HandshakeObs} {counts : ℕ × ℕ} (h : counted log = some counts) :
    counts.1 ≤ log.length ∧ counts.2 ≤ log.length := by
  induction log using List.reverseRecOn generalizing counts with
  | nil =>
    cases h
    exact ⟨le_refl _, le_refl _⟩
  | append_singleton log obs ih =>
    rw [counted_concat, Option.bind_eq_some_iff] at h
    obtain ⟨before, hbefore, hobs⟩ := h
    have hle := ih hbefore
    have hone := countOne_le hobs
    rw [List.length_append, List.length_singleton]
    omega

/-! ### What is written behind our NEWKEYS -/

/-- The packets written, in order. -/
def HandshakeObs.isWrite : HandshakeObs → Bool
  | .wrotePlain _ _ => true
  | .wroteSealed _ _ _ => true
  | _ => false

def written (log : List HandshakeObs) : List HandshakeObs := log.filter HandshakeObs.isWrite

@[simp] theorem written_append (log log' : List HandshakeObs) :
    written (log ++ log') = written log ++ written log' :=
  List.filter_append ..

/-- Our NEWKEYS. -/
def HandshakeObs.isNewkeys : HandshakeObs → Bool
  | .wrotePlain _ payload => payload = [sshMsgNewkeys]
  | _ => false

/-- Payloads sealed in order under a cipher, numbered from zero. -/
def sealedWith (tx : Cipher.PacketCipher) (payloads : List Bytes) : List HandshakeObs :=
  payloads.mapIdx fun i payload => .wroteSealed (tx.after i) i payload

/-- The transmit cipher derived from the secret and the hash of an exchange. -/
def Derives (c : Crypto) (sharedSecret exchangeHash : Bytes) (tx : Cipher.PacketCipher) : Prop :=
  ∃ c2s s2c rx material, deriveCipherPair c sharedSecret exchangeHash exchangeHash c2s s2c =
    some (rx, material) ∧ installCipher material = .ok tx

/-- Whatever was written behind our NEWKEYS is sealed under the transmit cipher of
the exchange before it, numbered from zero. -/
def SealedBehindNewkeys (c : Crypto) (log : List HandshakeObs) : Prop :=
  ∀ before newkeys after, log = before ++ newkeys :: after → newkeys.isNewkeys →
    written after = [] ∨ ∃ sharedSecret exchangeHash tx payloads,
      .agreed sharedSecret exchangeHash ∈ before ∧ Derives c sharedSecret exchangeHash tx ∧
      written after = sealedWith tx payloads

/-- Our NEWKEYS was answered with a readable packet other than NEWKEYS. -/
def AnsweredOtherwise (log : List HandshakeObs) : Prop :=
  ∃ before newkeys after seq payload, log = before ++ newkeys :: after ∧ newkeys.isNewkeys ∧
    .readPlain seq payload ∈ after ∧ payload ≠ [sshMsgNewkeys]

/-! ### What the primitives do to the log -/

/-- Neither the counters nor the log changed. -/
structure Link.Same (l l' : Link) : Prop where
  log : l'.log = l.log
  seqTx : l'.seqTx = l.seqTx
  seqRx : l'.seqRx = l.seqRx

theorem Link.Same.trans {l l' l'' : Link} (h : l.Same l') (h' : l'.Same l'') : l.Same l'' :=
  ⟨h'.log.trans h.log, h'.seqTx.trans h.seqTx, h'.seqRx.trans h.seqRx⟩

/-- A packet was read. -/
structure Link.Read (l : Link) (obs : HandshakeObs) (l' : Link) : Prop where
  log : l'.log = l.log ++ [obs]
  seqTx : l'.seqTx = l.seqTx
  seqRx : l'.seqRx = wrappingAdd 32 l.seqRx 1

/-- A packet was written. -/
structure Link.Wrote (l : Link) (obs : HandshakeObs) (l' : Link) : Prop where
  log : l'.log = l.log ++ [obs]
  seqTx : l'.seqTx = wrappingAdd 32 l.seqTx 1
  seqRx : l'.seqRx = l.seqRx

/-- A packet could not be written; it may have been handed to the stream. -/
structure Link.Broke (l : Link) (obs : HandshakeObs) (l' : Link) : Prop where
  log : l'.log = l.log ∨ l'.log = l.log ++ [obs]
  seqTx : l'.seqTx = l.seqTx
  seqRx : l'.seqRx = l.seqRx

variable {host : Host} {l : Link} {α : Type} {err : HandshakeError → Link → Prop}

@[simp] theorem consult_ensures {f : ℕ → α} {ok : α → Link → Prop} :
    (consult f).Ensures l ok err ↔ ok (f l.tick) { l with tick := l.tick + 1 } :=
  Iff.rfl

theorem await_ensures {ok : Unit → Link → Prop} (hok : ∀ l', l.Same l' → ok () l')
    (herr : ∀ e l', l.Same l' → err e l') : (await host).Ensures l ok err := by
  simp only [await, ensures_bind, consult_ensures]
  cases host.timeUp l.tick with
  | false => exact hok _ ⟨rfl, rfl, rfl⟩
  | true => exact herr _ _ ⟨rfl, rfl, rfl⟩

theorem readExact_ensures {n : ℕ} {ok : Bytes → Link → Prop}
    (hok : ∀ b l', l.Same l' → ok b l') (herr : ∀ e l', l.Same l' → err e l') :
    (readExact host n).Ensures l ok err := by
  simp only [readExact, ensures_bind, ensures_look]
  refine await_ensures ?_ herr
  intro l' hsame
  split
  next => exact herr _ _ hsame
  next => exact hok _ _ ⟨hsame.log, hsame.seqTx, hsame.seqRx⟩

theorem readPlain_ensures {ok : Bytes → Link → Prop}
    (hok : ∀ payload l', l.Read (.readPlain l.seqRx payload) l' → ok payload l')
    (herr : ∀ e l', l.Same l' → err e l') : (readPlain host).Ensures l ok err := by
  simp only [readPlain, ensures_bind]
  refine readExact_ensures ?_ herr
  intro lenBytes l₁ hsame₁
  cases validatePacketLength (beValue lenBytes) with
  | error e => exact herr _ _ hsame₁
  | ok bodyLen =>
    simp only [ensures_bind]
    refine readExact_ensures ?_ fun e l' hsame => herr e l' (hsame₁.trans hsame)
    intro body l₂ hsame₂
    have hsame := hsame₁.trans hsame₂
    cases decodePacketBody body with
    | error e => exact herr _ _ hsame
    | ok payload =>
      refine hok payload _ ⟨?_, hsame.seqTx, ?_⟩
      · simp only [Link.observe, hsame.log, hsame.seqRx]
      · simp only [hsame.seqRx]

theorem writePlain_ensures {payload : Bytes} {ok : Unit → Link → Prop}
    (hok : ∀ l', l.Wrote (.wrotePlain l.seqTx payload) l' → ok () l')
    (herr : ∀ e l', l.Broke (.wrotePlain l.seqTx payload) l' → err e l') :
    (writePlain host payload).Ensures l ok err := by
  simp only [writePlain, ensures_bind, consult_ensures]
  cases encodePacket (host.padding l.tick) payload with
  | error e => exact herr _ _ ⟨.inl rfl, rfl, rfl⟩
  | ok packet =>
    simp only [ensures_bind, ensures_update]
    refine await_ensures ?_ ?_
    · intro l' hsame
      simp only [consult_ensures]
      cases host.env.writeOk l'.tick with
      | false => exact herr _ _ ⟨.inr hsame.log, hsame.seqTx, hsame.seqRx⟩
      | true =>
        refine hok _ ⟨hsame.log, ?_, hsame.seqRx⟩
        change wrappingAdd 32 l'.seqTx 1 = _
        rw [hsame.seqTx]
        rfl
    · intro e l' hsame
      exact herr _ _ ⟨.inr hsame.log, hsame.seqTx, hsame.seqRx⟩

theorem readSealedPacket_ensures {rx : Cipher.PacketCipher}
    {ok : Bytes × Cipher.PacketCipher → Link → Prop}
    (hok : ∀ payload rx' l', l.Read (.readSealed l.seqRx payload) l' → ok (payload, rx') l')
    (herr : ∀ e l', l.Same l' → err e l') : (readSealedPacket host rx).Ensures l ok err := by
  simp only [readSealedPacket, ensures_bind]
  refine await_ensures ?_ herr
  intro l₁ hsame
  simp only [ensures_look, id]
  cases hread : readSealed host.primitives ⟨l₁.seqRx, rx⟩ l₁.input with
  | mk result r =>
    cases result with
    | error e => exact herr _ _ hsame
    | ok opened =>
      obtain ⟨payload, rest⟩ := opened
      refine hok payload r.rx _ ⟨?_, hsame.seqTx, ?_⟩
      · simp only [Link.observe, hsame.log, hsame.seqRx]
      · rw [← hsame.seqRx]
        exact seqRx_of_readSealed hread

theorem writeSealedPacket_ensures {tx : Cipher.PacketCipher} {payload : Bytes}
    {ok : Cipher.PacketCipher → Link → Prop}
    (hok : ∀ l', l.Wrote (.wroteSealed tx l.seqTx payload) l' → ok (tx.after 1) l')
    (herr : ∀ e l', l.Broke (.wroteSealed tx l.seqTx payload) l' → err e l') :
    (writeSealedPacket host tx payload).Ensures l ok err := by
  simp only [writeSealedPacket, ensures_bind, consult_ensures, ensures_look]
  cases hseal : tx.seal host.primitives (host.padding l.tick) l.seqTx payload with
  | error e => exact herr _ _ ⟨.inl rfl, rfl, rfl⟩
  | ok result =>
    obtain ⟨packet, next⟩ := result
    obtain rfl := Cipher.PacketCipher.next_of_seal hseal
    simp only [ensures_bind, ensures_update]
    refine await_ensures ?_ ?_
    · intro l' hsame
      simp only [consult_ensures]
      cases host.env.writeOk l'.tick with
      | false => exact herr _ _ ⟨.inr hsame.log, hsame.seqTx, hsame.seqRx⟩
      | true =>
        refine hok _ ⟨hsame.log, ?_, hsame.seqRx⟩
        change wrappingAdd 32 l'.seqTx 1 = _
        rw [hsame.seqTx]
        rfl
    · intro e l' hsame
      exact herr _ _ ⟨.inr hsame.log, hsame.seqTx, hsame.seqRx⟩

/-! ### Phases of the log -/

/-- Our NEWKEYS was not written yet. -/
def Early (log : List HandshakeObs) : Prop := ∀ obs ∈ log, ¬ obs.isNewkeys = true

/-- Our NEWKEYS was written behind an exchange, and nothing since. -/
def Switched (sharedSecret exchangeHash : Bytes) (log : List HandshakeObs) : Prop :=
  ∃ before newkeys after, log = before ++ newkeys :: after ∧ Early before ∧ newkeys.isNewkeys ∧
    .agreed sharedSecret exchangeHash ∈ before ∧ written after = []

/-- Our NEWKEYS was written, and `n` packets sealed since. -/
def Late (c : Crypto) (tx : Cipher.PacketCipher) (n : ℕ) (log : List HandshakeObs) : Prop :=
  ∃ before newkeys after sharedSecret exchangeHash payloads,
    log = before ++ newkeys :: after ∧ Early before ∧ newkeys.isNewkeys ∧
    .agreed sharedSecret exchangeHash ∈ before ∧ Derives c sharedSecret exchangeHash tx ∧
    written after = sealedWith tx payloads ∧ payloads.length = n

/-- A phase that entries other than writes do not end, and in which a connection may be left. -/
structure Phase (c : Crypto) (P : List HandshakeObs → Prop) : Prop where
  quiet : ∀ log obs, obs.isWrite = false → P log → P (log ++ [obs])
  settles : ∀ log, P log → SealedBehindNewkeys c log ∨ AnsweredOtherwise log

variable {c : Crypto} {log : List HandshakeObs} {obs : HandshakeObs}

theorem not_isNewkeys (h : obs.isWrite = false) : ¬ obs.isNewkeys = true := by
  cases obs <;> simp_all [HandshakeObs.isWrite, HandshakeObs.isNewkeys]

theorem Early.concat (h : Early log) (hobs : ¬ obs.isNewkeys = true) : Early (log ++ [obs]) := by
  intro x hx
  obtain hx | hx := List.mem_append.1 hx
  · exact h x hx
  · obtain rfl := List.mem_singleton.1 hx
    exact hobs

/-- Sealed packets hold no NEWKEYS of their own. -/
theorem early_of_sealedWith {after : List HandshakeObs} {tx : Cipher.PacketCipher}
    {payloads : List Bytes} (h : written after = sealedWith tx payloads) : Early after := by
  intro obs hobs hnewkeys
  have hwritten : obs ∈ written after := by
    refine List.mem_filter.2 ⟨hobs, ?_⟩
    cases obs <;> simp_all [HandshakeObs.isWrite, HandshakeObs.isNewkeys]
  rw [h, sealedWith, List.mem_mapIdx] at hwritten
  obtain ⟨i, hi, rfl⟩ := hwritten
  simp [HandshakeObs.isNewkeys] at hnewkeys

theorem early_of_written_eq_nil {after : List HandshakeObs} (h : written after = []) :
    Early after := by
  intro obs hobs hnewkeys
  have hwrite := List.filter_eq_nil_iff.1 h obs hobs
  exact not_isNewkeys (by simpa using hwrite) hnewkeys

theorem phase_early : Phase c Early where
  quiet _ _ hobs h := h.concat (not_isNewkeys hobs)
  settles log h := by
    left
    rintro before newkeys after rfl hnewkeys
    exact absurd hnewkeys (h newkeys (by simp))

theorem phase_switched {sharedSecret exchangeHash : Bytes} :
    Phase c (Switched sharedSecret exchangeHash) where
  quiet log obs hobs h := by
    obtain ⟨before, newkeys, after, rfl, hearly, hnewkeys, hagreed, hafter⟩ := h
    refine ⟨before, newkeys, after ++ [obs], by simp, hearly, hnewkeys, hagreed, ?_⟩
    rw [written_append, hafter]
    simp [written, hobs]
  settles log h := by
    left
    obtain ⟨before, newkeys, after, rfl, hearly, hnewkeys, hagreed, hafter⟩ := h
    intro before' newkeys' after' heq hnewkeys'
    obtain ⟨rfl, rfl, rfl⟩ :=
      Lists.split_unique hearly (early_of_written_eq_nil hafter) hnewkeys' heq
    exact .inl hafter

theorem phase_late {tx : Cipher.PacketCipher} {n : ℕ} : Phase c (Late c tx n) where
  quiet log obs hobs h := by
    obtain ⟨before, newkeys, after, k, h, payloads, rfl, hearly, hnewkeys, hagreed, hderives, hafter,
      hlength⟩ := h
    refine ⟨before, newkeys, after ++ [obs], k, h, payloads, by simp, hearly, hnewkeys, hagreed,
      hderives, ?_, hlength⟩
    rw [written_append, hafter]
    simp [written, hobs]
  settles log h := by
    left
    obtain ⟨before, newkeys, after, k, h, payloads, rfl, hearly, hnewkeys, hagreed, hderives, hafter,
      -⟩ := h
    intro before' newkeys' after' heq hnewkeys'
    obtain ⟨rfl, rfl, rfl⟩ := Lists.split_unique hearly (early_of_sealedWith hafter) hnewkeys' heq
    exact .inr ⟨k, h, tx, payloads, hagreed, hderives, hafter⟩

theorem AnsweredOtherwise.concat (h : AnsweredOtherwise log) (obs : HandshakeObs) :
    AnsweredOtherwise (log ++ [obs]) := by
  obtain ⟨before, newkeys, after, seq, payload, rfl, hnewkeys, hread, hother⟩ := h
  exact ⟨before, newkeys, after ++ [obs], seq, payload, by simp, hnewkeys, by simp [hread], hother⟩

theorem phase_answeredOtherwise : Phase c AnsweredOtherwise where
  quiet _ obs _ h := h.concat obs
  settles _ h := .inr h

/-- A sealed packet under the cipher as it stands. -/
theorem Late.seals {tx : Cipher.PacketCipher} {n : ℕ} (h : Late c tx n log) (payload : Bytes) :
    Late c tx (n + 1) (log ++ [.wroteSealed (tx.after n) n payload]) := by
  obtain ⟨before, newkeys, after, k, h, payloads, rfl, hearly, hnewkeys, hagreed, hderives, hafter,
    rfl⟩ := h
  refine ⟨before, newkeys,
    after ++ [.wroteSealed (tx.after payloads.length) payloads.length payload], k, h,
    payloads ++ [payload], by simp, hearly, hnewkeys, hagreed, hderives, ?_, by simp⟩
  rw [written_append, hafter, sealedWith, sealedWith, List.mapIdx_append]
  simp [written, HandshakeObs.isWrite]

/-! ### Where a handshake stands -/

/-- The packets were acceptable one after the other, but for the last perhaps. -/
def InOrder (arrivals : List Arrival) : Prop :=
  (∃ awaited, Awaited.run .kexInit arrivals = some awaited) ∨
    ∃ before x awaited, arrivals = before ++ [x] ∧ Awaited.run .kexInit before = some awaited ∧
      awaited.accepts x = none

/-- A handshake that waits for a packet, with at most `n` entries in its log. -/
structure At (P : List HandshakeObs → Prop) (n : ℕ) (awaited : Awaited) (l : Link) : Prop where
  order : Awaited.run .kexInit (received l.log) = some awaited
  count : counted l.log = some (l.seqTx, l.seqRx)
  few : l.log.length ≤ n
  phase : P l.log

/-- A handshake that need not go on. -/
structure Stopped (P : List HandshakeObs → Prop) (n : ℕ) (l : Link) : Prop where
  order : InOrder (received l.log)
  count : counted l.log = some (l.seqTx, l.seqRx)
  few : l.log.length ≤ n
  phase : P l.log

/-- A handshake that failed: a packet that could not be written may be counted. -/
structure Over (c : Crypto) (l : Link) : Prop where
  order : InOrder (received l.log)
  count : ∃ tx, counted l.log = some (tx, l.seqRx) ∧ l.seqTx ≤ tx ∧ tx ≤ l.seqTx + 1
  sealing : SealedBehindNewkeys c l.log ∨ AnsweredOtherwise l.log

variable {P Q : List HandshakeObs → Prop} {n : ℕ} {awaited : Awaited} {l' : Link}

theorem At.stopped (h : At P n awaited l) : Stopped P n l :=
  ⟨.inl ⟨awaited, h.order⟩, h.count, h.few, h.phase⟩

theorem Stopped.with (h : Stopped P n l) (hQ : Q l.log) : Stopped Q n l :=
  ⟨h.order, h.count, h.few, hQ⟩

theorem At.same (h : At P n awaited l) (hsame : l.Same l') : At P n awaited l' where
  order := by rw [hsame.log, h.order]
  count := by rw [hsame.log, hsame.seqTx, hsame.seqRx, h.count]
  few := by rw [hsame.log]; exact h.few
  phase := by rw [hsame.log]; exact h.phase

theorem At.ticked (h : At P n awaited l) (tick : ℕ) : At P n awaited { l with tick } :=
  h.same ⟨rfl, rfl, rfl⟩

theorem Stopped.over (h : Stopped P n l) (hphase : Phase c P) : Over c l :=
  ⟨h.order, ⟨l.seqTx, h.count, Nat.le_refl _, Nat.le_succ _⟩, hphase.settles _ h.phase⟩

theorem Stopped.same (h : Stopped P n l) (hsame : l.Same l') : Stopped P n l' where
  order := by rw [hsame.log]; exact h.order
  count := by rw [hsame.log, hsame.seqTx, hsame.seqRx, h.count]
  few := by rw [hsame.log]; exact h.few
  phase := by rw [hsame.log]; exact h.phase

/-- A packet read where a counter cannot wrap. -/
theorem At.read (h : At P n awaited l) (hphase : Phase c P) (hn : n + 1 < 2 ^ 32) {x : Arrival}
    (hread : l.Read obs l') (harrival : obs.arrival = some x) (hwrite : obs.isWrite = false)
    (hcount : countOne (l.seqTx, l.seqRx) obs = some (l.seqTx, l.seqRx + 1)) :
    Stopped P (n + 1) l' ∧ ∀ next, awaited.accepts x = some next → At P (n + 1) next l' := by
  have hreceived : received l'.log = received l.log ++ [x] := by
    rw [hread.log, received_append]
    simp [received, harrival]
  have hle := (counted_le h.count).2
  have hfew := h.few
  have hcounted : counted l'.log = some (l'.seqTx, l'.seqRx) := by
    rw [hread.log, hread.seqTx, hread.seqRx, counted_concat, h.count, wrappingAdd_of_lt (by omega)]
    exact hcount
  have hholds : P l'.log := by
    rw [hread.log]
    exact hphase.quiet _ _ hwrite h.phase
  have hrun : Awaited.run .kexInit (received l'.log) = awaited.accepts x := by
    rw [hreceived, Awaited.run_concat, h.order]
    rfl
  have hlength : l'.log.length ≤ n + 1 := by
    rw [hread.log, List.length_append, List.length_singleton]
    omega
  refine ⟨⟨?_, hcounted, hlength, hholds⟩,
    fun next hnext => ⟨hrun.trans hnext, hcounted, hlength, hholds⟩⟩
  cases haccepts : awaited.accepts x with
  | none => exact .inr ⟨_, x, awaited, hreceived, h.order, haccepts⟩
  | some next => exact .inl ⟨next, hrun.trans haccepts⟩

/-- A packet written where a counter cannot wrap. -/
theorem Stopped.wrote (h : Stopped P n l) (hn : n + 1 < 2 ^ 32) (hwrote : l.Wrote obs l')
    (harrival : obs.arrival = none)
    (hcount : countOne (l.seqTx, l.seqRx) obs = some (l.seqTx + 1, l.seqRx))
    (hQ : Q (l.log ++ [obs])) : received l'.log = received l.log ∧ Stopped Q (n + 1) l' := by
  have hle := (counted_le h.count).1
  have hfew := h.few
  have hreceived : received l'.log = received l.log := by
    rw [hwrote.log, received_append]
    simp [received, harrival]
  refine ⟨hreceived, ?_, ?_, ?_, ?_⟩
  · rw [hreceived]
    exact h.order
  · rw [hwrote.log, hwrote.seqTx, hwrote.seqRx, counted_concat, h.count,
      wrappingAdd_of_lt (by omega)]
    exact hcount
  · rw [hwrote.log, List.length_append, List.length_singleton]
    omega
  · rw [hwrote.log]
    exact hQ

/-- Nothing was read since. -/
theorem At.onward {m : ℕ} (h : At P n awaited l) (hreceived : received l'.log = received l.log)
    (hstopped : Stopped Q m l') : At Q m awaited l' :=
  ⟨hreceived ▸ h.order, hstopped.count, hstopped.few, hstopped.phase⟩

/-- An entry that is no packet. -/
theorem At.note (h : At P n awaited l) (hphase : Phase c P) (hlog : l'.log = l.log ++ [obs])
    (harrival : obs.arrival = none) (hwrite : obs.isWrite = false)
    (hcount : countOne (l.seqTx, l.seqRx) obs = some (l'.seqTx, l'.seqRx)) :
    At P (n + 1) awaited l' := by
  have hfew := h.few
  refine ⟨?_, ?_, ?_, ?_⟩
  · rw [hlog, received_append]
    simpa [received, harrival] using h.order
  · rw [hlog, counted_concat, h.count]
    exact hcount
  · rw [hlog, List.length_append, List.length_singleton]
    omega
  · rw [hlog]
    exact hphase.quiet _ _ hwrite h.phase

/-- A packet that could not be written. -/
theorem Stopped.broke (h : Stopped P n l) (hphase : Phase c P) (hphase' : Phase c Q)
    (hbroke : l.Broke obs l') (harrival : obs.arrival = none)
    (hcount : countOne (l.seqTx, l.seqRx) obs = some (l.seqTx + 1, l.seqRx))
    (hQ : Q (l.log ++ [obs])) : Over c l' := by
  obtain ⟨hlog | hlog, htx, hrx⟩ := hbroke
  · exact (h.same ⟨hlog, htx, hrx⟩).over hphase
  · refine ⟨?_, ⟨l.seqTx + 1, ?_, by omega, by omega⟩, ?_⟩
    · rw [hlog, received_append]
      simpa [received, harrival] using h.order
    · rw [hlog, hrx, counted_concat, h.count]
      exact hcount
    · rw [hlog]
      exact hphase'.settles _ hQ

/-! ### Reading, writing and rejecting in a stage -/

theorem readPlain_at (h : At P n awaited l) (hphase : Phase c P) (hn : n + 1 < 2 ^ 32) :
    (readPlain host).Ensures l
      (fun payload l' => l'.log = l.log ++ [.readPlain l.seqRx payload] ∧ l'.seqTx = l.seqTx ∧
        Stopped P (n + 1) l' ∧
        ∀ next, awaited.accepts ⟨false, payload⟩ = some next → At P (n + 1) next l')
      fun _ l' => Over c l' := by
  refine readPlain_ensures ?_ fun _ l' hsame => (h.same hsame).stopped.over hphase
  intro payload l' hread
  exact ⟨hread.log, hread.seqTx, h.read hphase hn hread rfl rfl (if_pos rfl)⟩

theorem readSealedPacket_at (h : At P n awaited l) (hphase : Phase c P) (hn : n + 1 < 2 ^ 32)
    {rx : Cipher.PacketCipher} :
    (readSealedPacket host rx).Ensures l
      (fun opened l' => l'.seqTx = l.seqTx ∧
        received l'.log = received l.log ++ [⟨true, opened.1⟩] ∧ Stopped P (n + 1) l' ∧
        ∀ next, awaited.accepts ⟨true, opened.1⟩ = some next → At P (n + 1) next l')
      fun _ l' => Over c l' := by
  refine readSealedPacket_ensures ?_ fun _ l' hsame => (h.same hsame).stopped.over hphase
  intro payload rx' l' hread
  refine ⟨hread.seqTx, ?_, h.read hphase hn hread rfl rfl (if_pos rfl)⟩
  rw [hread.log, received_append]
  rfl

theorem writePlain_at (h : Stopped P n l) (hphase : Phase c P) (hphase' : Phase c Q)
    (hn : n + 1 < 2 ^ 32) {payload : Bytes} (hQ : Q (l.log ++ [.wrotePlain l.seqTx payload])) :
    (writePlain host payload).Ensures l
      (fun _ l' => received l'.log = received l.log ∧ Stopped Q (n + 1) l')
      fun _ l' => Over c l' := by
  refine writePlain_ensures ?_ ?_
  · intro l' hwrote
    exact h.wrote hn hwrote rfl (if_pos rfl) hQ
  · intro _ l' hbroke
    exact h.broke hphase hphase' hbroke rfl (if_pos rfl) hQ

theorem writeSealedPacket_at {tx₀ : Cipher.PacketCipher} (h : Stopped (Late c tx₀ l.seqTx) n l)
    (hn : n + 1 < 2 ^ 32) {payload : Bytes} :
    (writeSealedPacket host (tx₀.after l.seqTx) payload).Ensures l
      (fun tx l' => tx = tx₀.after l'.seqTx ∧ received l'.log = received l.log ∧
        Stopped (Late c tx₀ l'.seqTx) (n + 1) l')
      fun _ l' => Over c l' := by
  have hle := (counted_le h.count).1
  have hfew := h.few
  refine writeSealedPacket_ensures ?_ ?_
  · intro l' hwrote
    have hnext : l'.seqTx = l.seqTx + 1 := by
      rw [hwrote.seqTx, wrappingAdd_of_lt (by omega)]
    rw [hnext, Cipher.PacketCipher.after_after]
    exact ⟨rfl, h.wrote hn hwrote rfl (if_pos rfl) (h.phase.seals payload)⟩
  · intro _ l' hbroke
    exact h.broke phase_late phase_late hbroke rfl (if_pos rfl) (h.phase.seals payload)

theorem tolerate_ensures {R : Link → Prop} {p : HandshakeProg α} {ok : Unit → Link → Prop}
    (h : p.Ensures l (fun _ => R) fun _ => R) (hok : ∀ l', R l' → ok () l')
    (herr : ∀ e l', R l' → err e l') : (tolerate p).Ensures l ok err := by
  unfold Prog.Ensures tolerate at *
  cases hp : p l with
  | mk result l' =>
    rw [hp] at h
    cases result with
    | ok a => exact hok _ h
    | error e =>
      by_cases he : e = .rejected .handshakeTimeout
      · simp only [if_pos he]
        exact herr _ _ h
      · simp only [if_neg he]
        exact hok _ h

/-- A DISCONNECT is no NEWKEYS. -/
theorem not_isNewkeys_disconnect (seq code : ℕ) (reason : HandshakeReason) :
    ¬ (HandshakeObs.wrotePlain seq (disconnectMessage code reason)).isNewkeys = true := by
  simp [HandshakeObs.isNewkeys, disconnectMessage, sshMsgDisconnect, sshMsgNewkeys]

-- From here on the programs are walked with the rules of the library alone.
attribute [local irreducible] Prog.Ensures

theorem rejectPlain_over (h : Stopped P n l) (hphase : Phase c P) (hn : n + 1 < 2 ^ 32) {code : ℕ}
    {reason : HandshakeReason}
    (hP : P (l.log ++ [.wrotePlain l.seqTx (disconnectMessage code reason)]))
    {ok : α → Link → Prop} :
    (rejectPlain host code reason).Ensures l ok fun _ l' => Over c l' := by
  simp only [rejectPlain, ensures_bind]
  refine tolerate_ensures ((writePlain_at h hphase hphase hn hP).mono ?_ fun _ _ hover => hover)
    (fun _ hover => ensures_fail.2 hover) fun _ _ hover => hover
  intro _ l' hwrote
  exact hwrote.2.over hphase

/-- A rejection before our NEWKEYS. -/
theorem rejectPlain_early (h : Stopped Early n l) (hn : n + 1 < 2 ^ 32) {code : ℕ}
    {reason : HandshakeReason} {ok : α → Link → Prop} :
    (rejectPlain host code reason).Ensures l ok fun _ l' => Over c l' :=
  rejectPlain_over h phase_early hn (h.phase.concat (not_isNewkeys_disconnect _ _ _))

theorem rejectSealed_over {tx₀ : Cipher.PacketCipher} (h : Stopped (Late c tx₀ l.seqTx) n l)
    (hn : n + 1 < 2 ^ 32) {code : ℕ} {reason : HandshakeReason} {ok : α → Link → Prop} :
    (rejectSealed host (tx₀.after l.seqTx) code reason).Ensures l ok fun _ l' => Over c l' := by
  simp only [rejectSealed, ensures_bind]
  refine tolerate_ensures ((writeSealedPacket_at h hn).mono ?_ fun _ _ hover => hover)
    (fun _ hover => ensures_fail.2 hover) fun _ _ hover => hover
  intro _ l' hwrote
  exact hwrote.2.2.over phase_late

/-! ### The stages -/

theorem at_start (input : Bytes) : At Early 0 .kexInit (Link.start input) where
  order := rfl
  count := rfl
  few := Nat.le_refl 0
  phase := by simp [Early, Link.start]

theorem readIdLine_ensures {ok : Bytes → Link → Prop} (hok : ∀ line l', l.Same l' → ok line l')
    (herr : ∀ e l', l.Same l' → err e l') : (readIdLine host).Ensures l ok err := by
  simp only [readIdLine, ensures_bind]
  refine await_ensures ?_ herr
  intro l₁ hsame
  simp only [ensures_look]
  cases takeIdLine [] l₁.input with
  | none => exact ensures_fail.2 (herr _ _ hsame)
  | some taken =>
    simp only [ensures_bind, ensures_update, ensures_pure]
    exact hok _ _ ⟨hsame.log, hsame.seqTx, hsame.seqRx⟩

theorem versionExchange_at (h : At P n awaited l) (hphase : Phase c P) :
    (versionExchange host).Ensures l (fun _ l' => At P n awaited l') fun _ l' => Over c l' := by
  simp only [versionExchange, ensures_bind]
  refine await_ensures ?_ fun _ l' hsame => (h.same hsame).stopped.over hphase
  intro l₁ hsame₁
  have h₁ := (h.same hsame₁).ticked (l₁.tick + 1)
  simp only [consult_ensures]
  split
  next =>
    simp only [ensures_bind, ensures_fail]
    exact h₁.stopped.over hphase
  next =>
    simp only [ensures_bind]
    refine readIdLine_ensures ?_ fun _ l' hsame => (h₁.same hsame).stopped.over hphase
    intro line l₂ hsame₂
    split
    next =>
      simp only [ensures_bind, ensures_fail]
      exact (h₁.same hsame₂).stopped.over hphase
    next => exact ensures_pure.2 (h₁.same hsame₂)

/-- Our KEXINIT and our reply are no NEWKEYS. -/
theorem not_isNewkeys_of_head {payload : Bytes} {msg : UInt8} (hhead : payload.head? = some msg)
    (hmsg : msg ≠ sshMsgNewkeys) (seq : ℕ) :
    ¬ (HandshakeObs.wrotePlain seq payload).isNewkeys = true := by
  intro h
  obtain rfl : payload = [sshMsgNewkeys] := by simpa [HandshakeObs.isNewkeys] using h
  cases hhead
  exact hmsg rfl

theorem head_buildKexinitWith (list : String) (cookie : Bytes) :
    (buildKexinitWith list cookie).head? = some sshMsgKexinit := by
  simp [buildKexinitWith]

theorem exchangeKexinit_at (h : At Early n .kexInit l) (hn : n + 4 < 2 ^ 32) (stage : KexInit) :
    (exchangeKexinit host stage).Ensures l (fun _ l' => At Early (n + 3) .hybridInit l')
      fun _ l' => Over c l' := by
  simp only [exchangeKexinit, ensures_bind, consult_ensures]
  have h₁ := h.ticked (l.tick + 1)
  cases host.env.random l.tick 16 with
  | none =>
    simp only [ensures_fail]
    exact h₁.stopped.over phase_early
  | some cookie =>
    simp only [ensures_bind]
    have hhead := head_buildKexinitWith kexList cookie
    generalize buildKexinitWith kexList cookie = iS at hhead ⊢
    have hnot := not_isNewkeys_of_head hhead (by decide) l.seqTx
    refine (writePlain_at h₁.stopped phase_early phase_early (by omega)
      (h₁.phase.concat hnot)).mono ?_ fun _ _ hover => hover
    rintro - l₂ ⟨hreceived, hstopped⟩
    have h₂ := h₁.onward hreceived hstopped
    refine (readPlain_at h₂ phase_early (by omega)).mono ?_ fun _ _ hover => hover
    rintro iC l₃ ⟨-, -, hstopped₃, haccepts⟩
    split
    next => exact rejectPlain_early hstopped₃ (by omega)
    next hkexinit =>
      split
      next => exact rejectPlain_early hstopped₃ (by omega)
      next => exact rejectPlain_early hstopped₃ (by omega)
      next negotiated hnegotiated =>
        have hby : negotiatedBy iC = some negotiated := by
          rw [negotiatedBy, hnegotiated]
          exact if_pos (not_not.1 hkexinit)
        simp only [Awaited.accepts, hby, Option.map_some] at haccepts
        split
        next hskip =>
          rw [if_pos hskip] at haccepts
          simp only [ensures_bind]
          refine (readPlain_at (haccepts _ rfl) phase_early (by omega)).mono ?_
            fun _ _ hover => hover
          rintro guess l₄ ⟨-, -, -, haccepts₄⟩
          exact ensures_pure.2 (haccepts₄ _ rfl)
        next hskip =>
          rw [if_neg hskip] at haccepts
          have h₃ := haccepts _ rfl
          exact ensures_pure.2 ⟨h₃.order, h₃.count, Nat.le_succ_of_le h₃.few, h₃.phase⟩

/-- The exchange is known, and our NEWKEYS not written yet. -/
def Agreed (sharedSecret exchangeHash : Bytes) (log : List HandshakeObs) : Prop :=
  Early log ∧ .agreed sharedSecret exchangeHash ∈ log

theorem phase_agreed {sharedSecret exchangeHash : Bytes} :
    Phase c (Agreed sharedSecret exchangeHash) where
  quiet _ _ hobs h := ⟨h.1.concat (not_isNewkeys hobs), List.mem_append_left _ h.2⟩
  settles _ h := phase_early.settles _ h.1

theorem runHybrid_at (h : At Early n .hybridInit l) (hn : n + 4 < 2 ^ 32) (stage : HybridInit) :
    (runHybrid host stage).Ensures l
      (fun next l' => At (Agreed next.sharedSecret next.exchangeHash) (n + 3) .newKeys l')
      fun _ l' => Over c l' := by
  simp only [runHybrid, ensures_bind]
  refine (readPlain_at h phase_early (by omega)).mono ?_ fun _ _ hover => hover
  rintro initPayload l₁ ⟨-, -, hstopped₁, haccepts⟩
  split
  next => exact rejectPlain_early hstopped₁ (by omega)
  next hmsg =>
    split
    next => exact rejectPlain_early hstopped₁ (by omega)
    next clientInit rest hread =>
      have hinit : isHybridInit initPayload = true := by
        have hhead : initPayload.head? = some sshMsgKexHybridInit := by
          cases initPayload with
          | nil => exact absurd hmsg (by decide)
          | cons b tail => simpa using hmsg
        simp [isHybridInit, hhead, hread, Except.isOk, Except.toBool]
      have h₁ := haccepts .newKeys (by simp [Awaited.accepts, hinit])
      simp only [ensures_bind, consult_ensures]
      split
      next => exact rejectPlain_early (h₁.ticked _).stopped (by omega)
      next => exact rejectPlain_early (h₁.ticked _).stopped (by omega)
      next outcome houtcome =>
        simp only [ensures_bind, consult_ensures]
        generalize exchangeHash host.env.crypto _ = h'
        split
        next signature hsignature =>
          simp only [ensures_bind]
          generalize hreply : [sshMsgKexHybridReply] ++ putString host.env.hostKeyBlob ++
            putString outcome.serverReply ++ putString signature = reply
          have hhead : reply.head? = some sshMsgKexHybridReply := by
            rw [← hreply]
            simp
          have h₂ := h₁.ticked (l₁.tick + 1 + 1 + 1)
          have hnot := not_isNewkeys_of_head hhead (by decide) l₁.seqTx
          refine (writePlain_at h₂.stopped phase_early phase_early (by omega)
            (h₂.phase.concat hnot)).mono ?_ fun _ _ hover => hover
          rintro - l₃ ⟨hreceived, hstopped⟩
          simp only [ensures_update, ensures_pure]
          have h₃ : At Early (n + 3) .newKeys (l₃.observe (.agreed outcome.sharedSecret h')) :=
            (h₂.onward hreceived hstopped).note (c := c) phase_early rfl rfl rfl rfl
          exact ⟨h₃.order, h₃.count, h₃.few, h₃.phase, by simp [Link.observe]⟩
        next => exact rejectPlain_early (h₁.ticked _).stopped (by omega)

/-- Our NEWKEYS behind an exchange. -/
theorem Agreed.switches {sharedSecret exchangeHash : Bytes} (h : Agreed sharedSecret exchangeHash log)
    (seq : ℕ) : Switched sharedSecret exchangeHash (log ++ [.wrotePlain seq [sshMsgNewkeys]]) :=
  ⟨log, _, [], rfl, h.1, by simp [HandshakeObs.isNewkeys], h.2, rfl⟩

/-- A packet other than NEWKEYS in answer to ours. -/
theorem Switched.answered {sharedSecret exchangeHash payload : Bytes}
    (h : Switched sharedSecret exchangeHash log) (hother : payload ≠ [sshMsgNewkeys]) (seq : ℕ) :
    AnsweredOtherwise (log ++ [.readPlain seq payload]) := by
  obtain ⟨before, newkeys, after, rfl, -, hnewkeys, -, -⟩ := h
  exact ⟨before, newkeys, after ++ [.readPlain seq payload], seq, payload, by simp, hnewkeys,
    by simp, hother⟩

/-- The transmit cipher of the exchange is installed. -/
theorem Switched.late {sharedSecret exchangeHash : Bytes} {tx : Cipher.PacketCipher}
    (h : Switched sharedSecret exchangeHash log) (hderives : Derives c sharedSecret exchangeHash tx) :
    Late c tx 0 log := by
  obtain ⟨before, newkeys, after, hlog, hearly, hnewkeys, hagreed, hafter⟩ := h
  exact ⟨before, newkeys, after, sharedSecret, exchangeHash, [], hlog, hearly, hnewkeys, hagreed,
    hderives, hafter, rfl⟩

/-- A handshake in its sealed stages. -/
def SealedAt (c : Crypto) (n : ℕ) (awaited : Awaited) (stage : Secured) (l : Link) : Prop :=
  ∃ tx₀ : Cipher.PacketCipher, stage.tx = tx₀.after l.seqTx ∧ At (Late c tx₀ l.seqTx) n awaited l

theorem exchangeNewkeys_at {stage : NewKeys}
    (h : At (Agreed stage.sharedSecret stage.exchangeHash) n .newKeys l) (hn : n + 7 < 2 ^ 32) :
    (exchangeNewkeys host stage).Ensures l
      (fun next l' => SealedAt host.env.crypto (n + 5) .serviceRequest next l')
      fun _ l' => Over host.env.crypto l' := by
  simp only [exchangeNewkeys, ensures_bind]
  refine (writePlain_at h.stopped phase_agreed phase_switched (by omega)
    (h.phase.switches l.seqTx)).mono ?_ fun _ _ hover => hover
  rintro - l₁ ⟨hreceived, hstopped⟩
  simp only [ensures_update]
  have h₂ : At (Switched stage.sharedSecret stage.exchangeHash) (n + 2) .newKeys
      { l₁.observe .switchedTx with seqTx := 0 } :=
    (h.onward hreceived hstopped).note (c := host.env.crypto) phase_switched rfl rfl rfl rfl
  refine (readPlain_at h₂ phase_switched (by omega)).mono ?_ fun _ _ hover => hover
  rintro peerNewkeys l₃ ⟨hlog, hseq, hstopped₃, haccepts⟩
  split
  next hother =>
    have hanswered : AnsweredOtherwise l₃.log := by
      rw [hlog]
      exact h₂.phase.answered hother _
    exact rejectPlain_over (hstopped₃.with hanswered) phase_answeredOtherwise (by omega)
      (hanswered.concat _)
  next hnewkeys =>
    have h₃ := haccepts .serviceRequest (if_pos (not_not.1 hnewkeys))
    simp only [ensures_bind, ensures_update]
    have h₄ : At (Switched stage.sharedSecret stage.exchangeHash) (n + 4) .serviceRequest
        { l₃.observe .switchedRx with seqRx := 0 } :=
      h₃.note (c := host.env.crypto) phase_switched rfl rfl rfl rfl
    split
    next rx material hpair =>
      split
      next rx' hrx =>
        split
        next tx htx =>
          have hderives : Derives host.env.crypto stage.sharedSecret stage.exchangeHash tx :=
            ⟨_, _, rx, material, hpair, htx⟩
          have hzero : ({ l₃.observe .switchedRx with seqRx := 0 } : Link).seqTx = 0 := hseq
          have h₅ : At (Late host.env.crypto tx
              ({ l₃.observe .switchedRx with seqRx := 0 } : Link).seqTx) (n + 4) .serviceRequest
              { l₃.observe .switchedRx with seqRx := 0 } := by
            rw [hzero]
            exact ⟨h₄.order, h₄.count, h₄.few, h₄.phase.late hderives⟩
          have hstart : tx = tx.after ({ l₃.observe .switchedRx with seqRx := 0 } : Link).seqTx := by
            rw [hzero, Cipher.PacketCipher.after_zero]
          generalize ({ l₃.observe .switchedRx with seqRx := 0 } : Link) = l₅ at h₅ hstart ⊢
          split
          next =>
            simp only [ensures_bind]
            rw [hstart]
            refine (writeSealedPacket_at h₅.stopped (by omega)).mono ?_ fun _ _ hover => hover
            rintro tx' l₆ ⟨rfl, hreceived₆, hstopped₆⟩
            exact ensures_pure.2 ⟨tx, rfl, h₅.onward hreceived₆ hstopped₆⟩
          next =>
            exact ensures_pure.2
              ⟨tx, hstart, h₅.order, h₅.count, Nat.le_succ_of_le h₅.few, h₅.phase⟩
        next => exact ensures_fail.2 (h₄.stopped.over phase_switched)
      next => exact ensures_fail.2 (h₄.stopped.over phase_switched)
    next => exact ensures_fail.2 (h₄.stopped.over phase_switched)

theorem readServiceRequest_at {stage : Secured} (h : SealedAt c n .serviceRequest stage l)
    (hn : n + 2 < 2 ^ 32) :
    (readServiceRequest host stage).Ensures l
      (fun next l' => (next.1 = utf8 "ssh-userauth" → SealedAt c (n + 1) .userAuth next.2 l') ∧
        ∃ tx₀ : Cipher.PacketCipher, next.2.tx = tx₀.after l'.seqTx ∧
          Stopped (Late c tx₀ l'.seqTx) (n + 1) l')
      fun _ l' => Over c l' := by
  obtain ⟨tx₀, htx, h⟩ := h
  simp only [readServiceRequest, ensures_bind]
  refine (readSealedPacket_at h phase_late (by omega)).mono ?_ fun _ _ hover => hover
  rintro ⟨payload, rx⟩ l₁ ⟨hseq, -, hstopped, haccepts⟩
  rw [← hseq] at hstopped haccepts htx
  split
  next =>
    rw [htx]
    exact rejectSealed_over hstopped (by omega)
  next service rest hparse =>
    refine ensures_pure.2
      ⟨fun hservice => ⟨tx₀, htx, haccepts .userAuth ?_⟩, tx₀, htx, hstopped⟩
    simp only [Awaited.accepts, requestsUserauth, hparse]
    exact if_pos (by simpa using hservice)

theorem accept_at {stage : Secured} (h : SealedAt c n .userAuth stage l) (hn : n + 1 < 2 ^ 32) :
    (accept host stage).Ensures l (fun next l' => SealedAt c (n + 1) .userAuth next l')
      fun _ l' => Over c l' := by
  obtain ⟨tx₀, htx, h⟩ := h
  simp only [accept, ensures_bind, htx]
  refine (writeSealedPacket_at h.stopped hn).mono ?_ fun _ _ hover => hover
  rintro tx l₁ ⟨rfl, hreceived, hstopped⟩
  exact ensures_pure.2 ⟨tx₀, rfl, h.onward hreceived hstopped⟩

theorem deny_over {stage : Secured} {tx₀ : Cipher.PacketCipher} (htx : stage.tx = tx₀.after l.seqTx)
    (h : Stopped (Late c tx₀ l.seqTx) n l) (hn : n + 1 < 2 ^ 32) {ok : α → Link → Prop} :
    (deny host stage).Ensures l ok fun _ l' => Over c l' := by
  simp only [deny, ensures_bind, htx]
  refine (writeSealedPacket_at h hn).mono ?_ fun _ _ hover => hover
  rintro tx l₁ ⟨-, -, hstopped⟩
  exact ensures_fail.2 (hstopped.over phase_late)

/-- An entry that is no packet is not received. -/
theorem received_observe {obs : HandshakeObs} (h : obs.arrival = none) :
    received (l.observe obs).log = received l.log := by
  simp [Link.observe, received, h]

/-- `resolve` is asked, and nothing else happens. -/
theorem askResolve_at {algorithm keyBlob user : Bytes} (h : At P n awaited l) (hphase : Phase c P)
    {ok : Option Auth.Candidate → Link → Prop}
    (hok : ∀ l', l'.seqTx = l.seqTx → received l'.log = received l.log → At P (n + 1) awaited l' →
      ok (host.resolve l.tick algorithm keyBlob user) l') :
    (askResolve host algorithm keyBlob user).Ensures l ok err := by
  simp only [askResolve, ensures_bind, consult_ensures, ensures_update, ensures_pure]
  exact hok _ rfl (received_observe rfl) ((h.ticked _).note hphase rfl rfl rfl rfl)

/-- The decision on a request reads and writes nothing. -/
theorem judge_at {sessionId : Bytes} {request : Auth.UserauthRequest} (h : At P n awaited l)
    (hphase : Phase c P) {ok : Verdict → Link → Prop}
    (hok : ∀ verdict l', l'.seqTx = l.seqTx → received l'.log = received l.log →
      At P (n + 1) awaited l' → ok verdict l') :
    (judge host sessionId request).Ensures l ok err := by
  cases request with
  | refused method =>
    simp only [judge, ensures_pure]
    exact hok _ _ rfl rfl ⟨h.order, h.count, Nat.le_succ_of_le h.few, h.phase⟩
  | publicKey user algorithm keyBlob signature =>
    cases signature with
    | none =>
      simp only [judge, ensures_bind]
      refine askResolve_at h hphase ?_
      intro l' hseq hreceived h'
      split
      next => exact ensures_pure.2 (hok _ _ hseq hreceived h')
      next => exact ensures_pure.2 (hok _ _ hseq hreceived h')
    | some signed =>
      simp only [judge, ensures_bind]
      refine askResolve_at h hphase ?_
      intro l' hseq hreceived h'
      split
      next =>
        split
        next => exact ensures_pure.2 (hok _ _ hseq hreceived h')
        next => exact ensures_pure.2 (hok _ _ hseq hreceived h')
      next => exact ensures_pure.2 (hok _ _ hseq hreceived h')

/-- The end of a successful handshake: the last packet was a request. -/
def Authenticated (c : Crypto) (accepted : AuthAccepted) (l : Link) : Prop :=
  ∃ n, n ≤ 128 ∧ SealedAt c n .userAuth accepted.secured l ∧
    ∃ before request, received l.log = before ++ [⟨true, request⟩] ∧
      Awaited.run .kexInit before = some .userAuth

theorem authenticateLoop_at {fuel attempts failures : ℕ} {stage : Secured}
    (h : SealedAt c n .userAuth stage l) (hn : n + 4 * fuel ≤ 120) :
    (authenticateLoop host fuel attempts failures stage).Ensures l (Authenticated c)
      fun _ l' => Over c l' := by
  induction fuel generalizing n attempts failures stage l with
  -- No attempt is left: the loop refuses.
  | zero =>
    obtain ⟨tx₀, htx, h⟩ := h
    rw [authenticateLoop, htx]
    exact rejectSealed_over h.stopped (by omega)
  | succ fuel ih =>
    obtain ⟨tx₀, htx, h⟩ := h
    simp only [authenticateLoop, ensures_bind]
    refine (readSealedPacket_at h phase_late (by omega)).mono ?_ fun _ _ hover => hover
    rintro ⟨payload, rx⟩ l₁ ⟨hseq, hreceived, hstopped, haccepts⟩
    rw [← hseq] at hstopped haccepts htx
    split
    next =>
      rw [htx]
      exact rejectSealed_over hstopped (by omega)
    -- Only a request that parses lets the order go on.
    next request hparse =>
      have h₁ := haccepts .userAuth (by simp [Awaited.accepts, hparse, Except.isOk, Except.toBool])
      simp only [ensures_bind]
      refine judge_at h₁ phase_late ?_
      intro verdict l₂ hseq₂ hreceived₂ h₂
      rw [← hseq₂] at h₂ htx
      rw [htx]
      have hrequest : received l₂.log = received l.log ++ [⟨true, payload⟩] :=
        hreceived₂.trans hreceived
      split
      next candidate =>
        simp only [ensures_bind]
        refine (writeSealedPacket_at h₂.stopped (by omega)).mono ?_ fun _ _ hover => hover
        rintro tx l₃ ⟨rfl, hreceived₃, hstopped₃⟩
        simp only [ensures_update, ensures_pure]
        refine ⟨n + 4, by omega, ⟨tx₀, rfl, (h₂.onward hreceived₃ hstopped₃).note phase_late
          rfl rfl rfl rfl⟩, received l.log, payload, ?_, h.order⟩
        rw [received_observe rfl]
        exact hreceived₃.trans hrequest
      next method =>
        simp only [ensures_bind, ensures_update]
        have hseq₃ : (l₂.observe (.authFailed method (failures + 1))).seqTx = l₂.seqTx := rfl
        have h₃ : At (Late c tx₀ l₂.seqTx) (n + 3) .userAuth
            (l₂.observe (.authFailed method (failures + 1))) :=
          h₂.note phase_late rfl rfl rfl rfl
        rw [← hseq₃] at h₃ ⊢
        split
        next => exact rejectSealed_over h₃.stopped (by omega)
        next =>
          simp only [ensures_bind]
          refine (writeSealedPacket_at h₃.stopped (by omega)).mono ?_ fun _ _ hover => hover
          rintro tx l₄ ⟨rfl, hreceived₄, hstopped₄⟩
          exact ih (n := n + 4) ⟨tx₀, rfl, h₃.onward hreceived₄ hstopped₄⟩ (by omega)
      next algorithm keyBlob =>
        split
        next => exact rejectSealed_over h₂.stopped (by omega)
        next =>
          simp only [ensures_bind]
          refine (writeSealedPacket_at h₂.stopped (by omega)).mono ?_ fun _ _ hover => hover
          rintro tx l₃ ⟨rfl, hreceived₃, hstopped₃⟩
          exact ih (n := n + 3) ⟨tx₀, rfl, h₂.onward hreceived₃ hstopped₃⟩ (by omega)

/-- Every handshake ends authenticated or over. -/
theorem runHandshake_ensures (host : Host) (input : Bytes) :
    (runHandshake host).Ensures (Link.start input) (Authenticated host.env.crypto)
      fun _ l => Over host.env.crypto l := by
  simp only [runHandshake, ensures_bind]
  refine (versionExchange_at (at_start input) phase_early).mono ?_ fun _ _ hover => hover
  intro stage₁ l₁ h₁
  refine (exchangeKexinit_at h₁ (by omega) stage₁).mono ?_ fun _ _ hover => hover
  intro stage₂ l₂ h₂
  refine (runHybrid_at h₂ (by omega) stage₂).mono ?_ fun _ _ hover => hover
  intro stage₃ l₃ h₃
  refine (exchangeNewkeys_at h₃ (by omega)).mono ?_ fun _ _ hover => hover
  intro stage₄ l₄ h₄
  refine (readServiceRequest_at h₄ (by omega)).mono ?_ fun _ _ hover => hover
  rintro ⟨service, stage₅⟩ l₅ ⟨huserauth, tx₀, htx, hstopped⟩
  split
  next hservice =>
    simp only [ensures_bind]
    refine (accept_at (huserauth hservice) (by omega)).mono ?_ fun _ _ hover => hover
    intro stage₆ l₆ h₆
    exact authenticateLoop_at h₆ (by decide)
  next => exact deny_over htx hstopped (by omega)

/-! ### The whole handshake -/

theorem Awaited.run_cons (awaited : Awaited) (x : Arrival) (xs : List Arrival) :
    awaited.run (x :: xs) = (awaited.accepts x).bind fun next => next.run xs :=
  List.foldlM_cons

/-- Where more is awaited, there was a next packet. -/
theorem Awaited.exists_of_run {xs : List Arrival} {goal : Awaited}
    (h : awaited.run xs = some goal) (hne : awaited ≠ goal) :
    ∃ x rest next, xs = x :: rest ∧ awaited.accepts x = some next ∧ next.run rest = some goal := by
  cases xs with
  | nil => exact absurd (Option.some.inj h) hne
  | cons x rest =>
    rw [run_cons, Option.bind_eq_some_iff] at h
    obtain ⟨next, hnext, hrest⟩ := h
    exact ⟨x, rest, next, rfl, hnext, hrest⟩

/-- Behind the service only authentication requests are acceptable. -/
theorem Awaited.requests_of_run {xs : List Arrival} {goal : Awaited}
    (h : Awaited.userAuth.run xs = some goal) :
    ∃ requests : List Bytes, xs = requests.map (fun r => ⟨true, r⟩) ∧
      ∀ r ∈ requests, (Auth.parseUserauthRequest r).isOk = true := by
  induction xs with
  | nil => exact ⟨[], rfl, by simp⟩
  | cons x rest ih =>
    rw [run_cons, Option.bind_eq_some_iff] at h
    obtain ⟨next, hnext, hrest⟩ := h
    obtain ⟨isSealed, payload⟩ := x
    cases isSealed with
    | false => simp [accepts] at hnext
    | true =>
      simp only [accepts, Option.ite_none_right_eq_some, Option.some.injEq] at hnext
      obtain ⟨hparse, rfl⟩ := hnext
      obtain ⟨requests, rfl, hall⟩ := ih hrest
      exact ⟨payload :: requests, rfl, by simpa [hparse] using hall⟩

/-- The packets from the KEX_HYBRID_INIT on. -/
theorem Awaited.tail_of_run {xs : List Arrival} (h : Awaited.hybridInit.run xs = some .userAuth) :
    ∃ (init service : Bytes) (requests : List Bytes),
      xs = [⟨false, init⟩, ⟨false, [sshMsgNewkeys]⟩, ⟨true, service⟩] ++
        requests.map (fun r => ⟨true, r⟩) ∧
      isHybridInit init = true ∧ requestsUserauth service = true ∧
      ∀ r ∈ requests, (Auth.parseUserauthRequest r).isOk = true := by
  obtain ⟨⟨isSealed₁, init⟩, rest₁, next₁, rfl, haccepts₁, hrun₁⟩ := exists_of_run h (by decide)
  cases isSealed₁ with
  | true => simp [accepts] at haccepts₁
  | false =>
    simp only [accepts, Option.ite_none_right_eq_some, Option.some.injEq] at haccepts₁
    obtain ⟨hinit, rfl⟩ := haccepts₁
    obtain ⟨⟨isSealed₂, newkeys⟩, rest₂, next₂, rfl, haccepts₂, hrun₂⟩ :=
      exists_of_run hrun₁ (by decide)
    cases isSealed₂ with
    | true => simp [accepts] at haccepts₂
    | false =>
      simp only [accepts, Option.ite_none_right_eq_some, Option.some.injEq] at haccepts₂
      obtain ⟨rfl, rfl⟩ := haccepts₂
      obtain ⟨⟨isSealed₃, service⟩, rest₃, next₃, rfl, haccepts₃, hrun₃⟩ :=
        exists_of_run hrun₂ (by decide)
      cases isSealed₃ with
      | false => simp [accepts] at haccepts₃
      | true =>
        simp only [accepts, Option.ite_none_right_eq_some, Option.some.injEq] at haccepts₃
        obtain ⟨hservice, rfl⟩ := haccepts₃
        obtain ⟨requests, rfl, hrequests⟩ := requests_of_run hrun₃
        exact ⟨init, service, requests, rfl, hinit, hservice, hrequests⟩

/-- The packets of a handshake that got as far as the authentication. -/
theorem Awaited.shape_of_run {xs : List Arrival} (h : Awaited.run .kexInit xs = some .userAuth) :
    ∃ (iC : Bytes) (negotiated : Negotiated) (guess : List Bytes) (init service : Bytes)
      (requests : List Bytes),
      xs = [⟨false, iC⟩] ++ guess.map (fun g => ⟨false, g⟩) ++
        [⟨false, init⟩, ⟨false, [sshMsgNewkeys]⟩, ⟨true, service⟩] ++
        requests.map (fun r => ⟨true, r⟩) ∧
      negotiatedBy iC = some negotiated ∧
      guess.length = (if negotiated.skipGuessedPacket then 1 else 0) ∧
      isHybridInit init = true ∧ requestsUserauth service = true ∧
      ∀ r ∈ requests, (Auth.parseUserauthRequest r).isOk = true := by
  obtain ⟨⟨isSealed₁, iC⟩, rest₁, next₁, rfl, haccepts₁, hrun₁⟩ := exists_of_run h (by decide)
  cases isSealed₁ with
  | true => simp [accepts] at haccepts₁
  | false =>
    simp only [accepts, Option.map_eq_some_iff] at haccepts₁
    obtain ⟨negotiated, hnegotiated, rfl⟩ := haccepts₁
    by_cases hskip : negotiated.skipGuessedPacket = true
    · rw [if_pos hskip] at hrun₁
      obtain ⟨⟨isSealed₂, guess⟩, rest₂, next₂, rfl, haccepts₂, hrun₂⟩ :=
        exists_of_run hrun₁ (by decide)
      cases isSealed₂ with
      | true => simp [accepts] at haccepts₂
      | false =>
        cases haccepts₂
        obtain ⟨init, service, requests, rfl, hrest⟩ := tail_of_run hrun₂
        exact ⟨iC, negotiated, [guess], init, service, requests, by simp, hnegotiated,
          by simp [hskip], hrest⟩
    · rw [if_neg hskip] at hrun₁
      obtain ⟨init, service, requests, rfl, hrest⟩ := tail_of_run hrun₁
      exact ⟨iC, negotiated, [], init, service, requests, by simp, hnegotiated, by simp [hskip],
        hrest⟩

/-- In packets that are in order, only the last can be one that is not acceptable. -/
theorem InOrder.last_of_refused {before after : List Arrival} {x : Arrival}
    (h : InOrder (before ++ x :: after)) :
    ∃ awaited, Awaited.run .kexInit before = some awaited ∧
      (awaited.accepts x = none →
        after = [] ∧ Awaited.run .kexInit (before ++ x :: after) = none) := by
  obtain ⟨goal, hrun⟩ | ⟨before', x', awaited, heq, hrun, hrefused⟩ := h
  · rw [Awaited.run_append, Option.bind_eq_some_iff] at hrun
    obtain ⟨awaited, hbefore, hrest⟩ := hrun
    refine ⟨awaited, hbefore, fun hnone => ?_⟩
    rw [Awaited.run_cons, hnone] at hrest
    cases hrest
  · cases after using List.reverseRecOn with
    | nil =>
      obtain ⟨rfl, hx⟩ := List.append_inj' heq rfl
      cases hx
      exact ⟨awaited, hrun, fun _ => ⟨rfl, by rw [Awaited.run_concat, hrun]; exact hrefused⟩⟩
    | append_singleton after' y =>
      have heq' : (before ++ x :: after') ++ [y] = before' ++ [x'] := by simpa using heq
      obtain ⟨rfl, -⟩ := List.append_inj' heq' rfl
      rw [Awaited.run_append, Option.bind_eq_some_iff] at hrun
      obtain ⟨next, hbefore, hrest⟩ := hrun
      refine ⟨next, hbefore, fun hnone => ?_⟩
      rw [Awaited.run_cons, hnone] at hrest
      cases hrest

theorem Authenticated.run {accepted : AuthAccepted} (h : Authenticated c accepted l) :
    Awaited.run .kexInit (received l.log) = some .userAuth := by
  obtain ⟨n, -, ⟨tx₀, -, h⟩, -⟩ := h
  exact h.order

theorem Authenticated.inOrder {accepted : AuthAccepted} (h : Authenticated c accepted l) :
    InOrder (received l.log) :=
  .inl ⟨_, h.run⟩

theorem Authenticated.counted_eq {accepted : AuthAccepted} (h : Authenticated c accepted l) :
    counted l.log = some (l.seqTx, l.seqRx) := by
  obtain ⟨n, -, ⟨tx₀, -, h⟩, -⟩ := h
  exact h.count

/-- The packets accepted by a handshake that succeeded. -/
theorem Authenticated.shape {accepted : AuthAccepted} (h : Authenticated c accepted l) :
    ∃ (iC : Bytes) (negotiated : Negotiated) (guess : List Bytes) (init service : Bytes)
      (requests : List Bytes),
      received l.log = [⟨false, iC⟩] ++ guess.map (fun g => ⟨false, g⟩) ++
        [⟨false, init⟩, ⟨false, [sshMsgNewkeys]⟩, ⟨true, service⟩] ++
        requests.map (fun r => ⟨true, r⟩) ∧
      negotiatedBy iC = some negotiated ∧
      guess.length = (if negotiated.skipGuessedPacket then 1 else 0) ∧
      isHybridInit init = true ∧ requestsUserauth service = true ∧ requests ≠ [] ∧
      ∀ r ∈ requests, (Auth.parseUserauthRequest r).isOk = true := by
  have hrun := h.run
  obtain ⟨-, -, -, before, request, hreceived, hbefore⟩ := h
  obtain ⟨iC, negotiated, guess, init, service, requests, rfl, hnegotiated, hguess, hinit, hservice,
    hrequests⟩ := Awaited.shape_of_run hbefore
  rw [hreceived, Awaited.run_concat, hbefore] at hrun
  have hrequest : (Auth.parseUserauthRequest request).isOk = true := by
    simpa [Awaited.accepts] using hrun
  refine ⟨iC, negotiated, guess, init, service, requests ++ [request], ?_, hnegotiated, hguess,
    hinit, hservice, by simp, ?_⟩
  · rw [hreceived]
    simp
  · intro r hr
    obtain hr | hr := List.mem_append.1 hr
    · exact hrequests r hr
    · obtain rfl := List.mem_singleton.1 hr
      exact hrequest

/-- A packet that is not acceptable where it arrives is the last, and the handshake
fails. -/
theorem fails_of_refused (host : Host) (input : Bytes) {before after : List Arrival} {x : Arrival}
    (hreceived : received (runHandshake host (Link.start input)).2.log = before ++ x :: after) :
    ∃ awaited, Awaited.run .kexInit before = some awaited ∧
      (awaited.accepts x = none →
        after = [] ∧ ∃ e, (runHandshake host (Link.start input)).1 = .error e) := by
  have hensures := runHandshake_ensures host input
  rcases hrun : runHandshake host (Link.start input) with ⟨result, l⟩
  rw [hrun] at hreceived
  cases result with
  | ok accepted =>
    have h := hensures.of_ok hrun
    have hinOrder := h.inOrder
    have hall := h.run
    rw [hreceived] at hinOrder hall
    obtain ⟨awaited, hbefore, hrefused⟩ := hinOrder.last_of_refused
    refine ⟨awaited, hbefore, fun hnone => ?_⟩
    rw [(hrefused hnone).2] at hall
    cases hall
  | error e =>
    have hinOrder := (hensures.of_error hrun).order
    rw [hreceived] at hinOrder
    obtain ⟨awaited, hbefore, hrefused⟩ := hinOrder.last_of_refused
    exact ⟨awaited, hbefore, fun hnone => ⟨(hrefused hnone).1, e, rfl⟩⟩

/-- For every byte stream of the peer: a handshake that succeeds accepted one
KEXINIT, the guessed packet if one was to be skipped, one KEX_HYBRID_INIT, one
NEWKEYS and, sealed, one request for `ssh-userauth` and at least one
authentication request. In every handshake a packet that is not acceptable where
it arrives is the last and ends the connection, and every packet carries the
number of packets of its direction since the last NEWKEYS. -/
theorem handshake_in_order (host : Host) (input : Bytes) :
    let result := (runHandshake host (Link.start input)).1
    let l := (runHandshake host (Link.start input)).2
    (∀ accepted, result = .ok accepted →
      counted l.log = some (l.seqTx, l.seqRx) ∧
      ∃ (iC : Bytes) (negotiated : Negotiated) (guess : List Bytes) (init service : Bytes)
        (requests : List Bytes),
        received l.log = [⟨false, iC⟩] ++ guess.map (fun g => ⟨false, g⟩) ++
          [⟨false, init⟩, ⟨false, [sshMsgNewkeys]⟩, ⟨true, service⟩] ++
          requests.map (fun r => ⟨true, r⟩) ∧
        negotiatedBy iC = some negotiated ∧
        guess.length = (if negotiated.skipGuessedPacket then 1 else 0) ∧
        isHybridInit init = true ∧ requestsUserauth service = true ∧ requests ≠ [] ∧
        ∀ r ∈ requests, (Auth.parseUserauthRequest r).isOk = true) ∧
    (∀ before x after, received l.log = before ++ x :: after →
      ∃ awaited, Awaited.run .kexInit before = some awaited ∧
        (awaited.accepts x = none → after = [] ∧ ∃ e, result = .error e)) ∧
    ∃ tx, counted l.log = some (tx, l.seqRx) ∧ l.seqTx ≤ tx ∧ tx ≤ l.seqTx + 1 := by
  have hensures := runHandshake_ensures host input
  refine ⟨?_, fun before x after hreceived => fails_of_refused host input hreceived, ?_⟩
  · rcases hrun : runHandshake host (Link.start input) with ⟨result, l⟩
    rintro accepted rfl
    have h := hensures.of_ok hrun
    exact ⟨h.counted_eq, h.shape⟩
  · rcases hrun : runHandshake host (Link.start input) with ⟨result, l⟩
    cases result with
    | ok accepted =>
      have h := hensures.of_ok hrun
      exact ⟨l.seqTx, h.counted_eq, le_refl _, Nat.le_succ _⟩
    | error e => exact (hensures.of_error hrun).count

end QuantumSsh.Transport
