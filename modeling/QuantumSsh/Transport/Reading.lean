import Mathlib.Logic.Relation
import QuantumSsh.Transport.Cipher

/-!
# The two read paths

`read_sealed` of `transport.rs` reads a packet with `read_exact`. `read_packet`
collects it in `inbuf` over several reads, and its future may be dropped and
called anew wherever it waits. The stream is the bytes still to come; how many a
read returns, and when the future is dropped, is up to a schedule. Between two
packets the caller may install a new receive cipher.
-/

namespace QuantumSsh.Transport

open Wire Machine Cipher Relation

/-- The kinds of `TransportError`. -/
inductive ErrorKind where
  | io
  | rejected (reason : Reason)
deriving Repr, DecidableEq

def TransportError.kind : TransportError → ErrorKind
  | .io _ => .io
  | .rejected reason => .rejected reason

/-- The receiving side: `seq_rx` and the receive cipher. -/
structure Receiver where
  seqRx : ℕ
  rx : Cipher.PacketCipher
deriving DecidableEq

variable (p : Primitives)

/-- `frame_body_len`. -/
def frameBodyLen (cipher : Cipher.PacketCipher) (seqnr : ℕ) (lengthBytes : Bytes) :
    Except TransportError ℕ :=
  match cipher.bodyLen p seqnr lengthBytes with
  | .ok n => .ok n
  | .error _ => .error (.rejected .packetAuthFailed)

/-- `open_frame`. -/
def openFrame (cipher : Cipher.PacketCipher) (seqnr : ℕ) (lengthBytes body : Bytes) :
    Except TransportError Bytes × Cipher.PacketCipher :=
  match cipher.open p seqnr lengthBytes body with
  | (.ok payload, next) => (.ok payload, next)
  | (.error _, next) => (.error (.rejected .packetAuthFailed), next)

/-! ### `read_sealed` -/

/-- `read_sealed` on the bytes still to come: the payload and the bytes behind the
packet, and the receiving side it leaves. -/
def readSealed (r : Receiver) (input : Bytes) :
    Except TransportError (Bytes × Bytes) × Receiver :=
  if input.length < 4 then (.error (.io .packetRead), r)
  else
    match frameBodyLen p r.rx r.seqRx (input.take 4) with
    | .error e => (.error e, r)
    | .ok bodyLen =>
      if (input.drop 4).length < bodyLen then (.error (.io .packetRead), r)
      else
        match openFrame p r.rx r.seqRx (input.take 4) ((input.drop 4).take bodyLen) with
        | (.error e, rx) => (.error e, { r with rx })
        | (.ok payload, rx) =>
          (.ok (payload, (input.drop 4).drop bodyLen), ⟨wrappingAdd 32 r.seqRx 1, rx⟩)

/-- What the caller does with the receiving side once it has these payloads: a
completed re-key installs a cipher and counts from zero. -/
def Receiver.handOver (install : List Bytes → Option Cipher.PacketCipher) (payloads : List Bytes)
    (r : Receiver) : Receiver :=
  match install payloads with
  | none => r
  | some rx => ⟨0, rx⟩

/-- A connection read with `read_sealed`: the payloads so far and the bytes to come. -/
structure Plainly where
  receiver : Receiver
  payloads : List Bytes
  input : Bytes

/-- One more packet. -/
def Plainly.Reads (install : List Bytes → Option Cipher.PacketCipher) (s s' : Plainly) : Prop :=
  ∃ payload r, readSealed p s.receiver s.input = (.ok (payload, s'.input), r) ∧
    s'.payloads = s.payloads ++ [payload] ∧ s'.receiver = r.handOver install s'.payloads

/-! ### `read_packet` -/

/-- Where a `read_packet` future waits, with its locals. -/
inductive Await where
  | forLength
  | forBody (len4 : Bytes) (seqnr total : ℕ)
deriving Repr, DecidableEq

/-- How many bytes of `inbuf` it waits for. -/
def Await.want : Await → ℕ
  | .forLength => 4
  | .forBody _ _ total => total

/-- A connection read with `read_packet`. -/
structure Reading where
  receiver : Receiver
  inbuf : Bytes
  bytesRx : ℕ
  /-- The bytes of the stream still to come; a stream that breaks errs behind them. -/
  input : Bytes
  breaks : Bool
  /-- Where the future waits, when there is one. -/
  pending : Option Await
  payloads : List Bytes
  ended : Option TransportError
deriving DecidableEq

/-- What may happen while the driver reads. -/
inductive ReadEvent where
  /-- The future is dropped. -/
  | cancel
  /-- The future is polled, a new one if there is none, and the read it waits for
  returns up to `k + 1` bytes. -/
  | ready (k : ℕ)
deriving Repr, DecidableEq

/-- A read returns. -/
def ReadEvent.isReady : ReadEvent → Bool
  | .cancel => false
  | .ready _ => true

namespace Reading

/-- The future returns an error. -/
def stop (s : Reading) (e : TransportError) : Reading :=
  { s with pending := none, ended := some e }

variable (install : List Bytes → Option Cipher.PacketCipher)

/-- The frame is complete: opens it, and hands the payload over. -/
def takeFrame (len4 : Bytes) (seqnr total : ℕ) (s : Reading) : Reading :=
  let frame := s.inbuf.take total
  let s := { s with inbuf := s.inbuf.drop total }
  match openFrame p s.receiver.rx seqnr len4 (frame.drop 4) with
  | (.error e, rx) => { s with receiver := { s.receiver with rx } }.stop e
  | (.ok payload, rx) =>
    let payloads := s.payloads ++ [payload]
    let r : Receiver := ⟨wrappingAdd 32 s.receiver.seqRx 1, rx⟩
    { s with
      receiver := r.handOver install payloads
      bytesRx := saturatingAdd u64Max s.bytesRx payload.length
      pending := none
      payloads }

/-- The second loop of `read_packet`, up to where it waits. -/
def awaitBody (len4 : Bytes) (seqnr total : ℕ) (s : Reading) : Reading :=
  if s.inbuf.length < total then { s with pending := some (.forBody len4 seqnr total) }
  else s.takeFrame p install len4 seqnr total

/-- `read_packet` from its beginning, up to where it waits. -/
def awaitLength (s : Reading) : Reading :=
  if s.inbuf.length < 4 then { s with pending := some .forLength }
  else
    match frameBodyLen p s.receiver.rx s.receiver.seqRx (s.inbuf.take 4) with
    | .error e => s.stop e
    | .ok bodyLen => s.awaitBody p install (s.inbuf.take 4) s.receiver.seqRx (4 + bodyLen)

/-- `read_packet` behind a read. -/
def proceed : Await → Reading → Reading
  | .forLength, s => s.awaitLength p install
  | .forBody len4 seqnr total, s => s.awaitBody p install len4 seqnr total

/-- `fill_inbuf` where the stream returns up to `k + 1` bytes. -/
def fillInbuf (want k : ℕ) (s : Reading) : Except TransportError Reading :=
  let take := min (want - s.inbuf.length) 8192
  let n := min (k + 1) (min take s.input.length)
  if n = 0 then .error (.io (if s.breaks then .packetRead else .peerClosed))
  else .ok { s with inbuf := s.inbuf ++ s.input.take n, input := s.input.drop n }

/-- The read a future waits for returns. -/
def deliver (k : ℕ) (s : Reading) : Reading :=
  match s.pending with
  | none => s
  | some await =>
    match s.fillInbuf await.want k with
    | .error e => s.stop e
    | .ok s => s.proceed p install await

/-- There is a future. -/
def call (s : Reading) : Reading :=
  if s.pending = none then s.awaitLength p install else s

/-- One event; nothing happens once a read has failed. -/
def step (s : Reading) : ReadEvent → Reading
  | .cancel => { s with pending := none }
  | .ready k => if s.ended.isSome then s else (s.call p install).deliver p install k

/-- A whole schedule. -/
def run (schedule : List ReadEvent) (s : Reading) : Reading := schedule.foldl (step p install) s

end Reading

/-! ### What `read_sealed` does on a beginning of the bytes -/

variable {p}

/-- A declared body leaves room for the tag and fits the largest packet. -/
theorem frameBodyLen_bounds {cipher : Cipher.PacketCipher} {seqnr n : ℕ} {lengthBytes : Bytes}
    (h : frameBodyLen p cipher seqnr lengthBytes = .ok n) :
    tagLen < n ∧ n ≤ maxPacket + tagLen := by
  have hvalid : ∃ length block, validateAeadLength length block = .ok (n - tagLen) ∧
      tagLen ≤ n := by
    simp only [frameBodyLen] at h
    split at h
    next m hm =>
      cases h
      cases cipher with
      | chaCha c =>
        obtain ⟨len, hlen, h⟩ := bind_eq_ok.1 hm
        cases h
        exact ⟨_, _, by rwa [Nat.add_sub_cancel], Nat.le_add_left _ _⟩
      | gcm c =>
        obtain ⟨len, hlen, h⟩ := bind_eq_ok.1 hm
        cases h
        exact ⟨_, _, by rwa [Nat.add_sub_cancel], Nat.le_add_left _ _⟩
    next => cases h
  obtain ⟨length, block, hvalid, hle⟩ := hvalid
  rw [validateAeadLength] at hvalid
  split at hvalid
  next => cases hvalid
  next hlegal =>
    simp only [not_or, Except.ok.injEq] at hlegal hvalid
    omega

theorem readSealed_short {r : Receiver} {input : Bytes} (h : input.length < 4) :
    readSealed p r input = (.error (.io .packetRead), r) :=
  if_pos h

theorem readSealed_badLength {r : Receiver} {head : Bytes} {e : TransportError}
    (hhead : head.length = 4) (h : frameBodyLen p r.rx r.seqRx (head.take 4) = .error e)
    (rest : Bytes) : readSealed p r (head ++ rest) = (.error e, r) := by
  have htake : (head ++ rest).take 4 = head.take 4 := by
    rw [List.take_append_of_le_length (by omega)]
  rw [readSealed, if_neg (by rw [List.length_append]; omega), htake, h]

theorem readSealed_cut {r : Receiver} {input : Bytes} {n : ℕ} (hge : 4 ≤ input.length)
    (h : frameBodyLen p r.rx r.seqRx (input.take 4) = .ok n) (hlt : input.length < 4 + n) :
    readSealed p r input = (.error (.io .packetRead), r) := by
  rw [readSealed, if_neg (by omega), h]
  exact if_pos (by rw [List.length_drop]; omega)

theorem readSealed_frame {r : Receiver} {frame : Bytes} {n : ℕ} (hframe : frame.length = 4 + n)
    (h : frameBodyLen p r.rx r.seqRx (frame.take 4) = .ok n) (rest : Bytes) :
    readSealed p r (frame ++ rest) =
      match openFrame p r.rx r.seqRx (frame.take 4) (frame.drop 4) with
      | (.error e, rx) => (.error e, { r with rx })
      | (.ok payload, rx) => (.ok (payload, rest), ⟨wrappingAdd 32 r.seqRx 1, rx⟩) := by
  have htake : (frame ++ rest).take 4 = frame.take 4 := by
    rw [List.take_append_of_le_length (by omega)]
  have hdrop : (frame ++ rest).drop 4 = frame.drop 4 ++ rest := by
    rw [List.drop_append_of_le_length (by omega)]
  have hbody : (frame.drop 4).length = n := by
    rw [List.length_drop]
    omega
  rw [readSealed, if_neg (by rw [List.length_append]; omega), htake, hdrop, h]
  simp only
  rw [if_neg (by rw [List.length_append]; omega), ← hbody, List.take_left, List.drop_left]

theorem seqRx_of_readSealed {r r' : Receiver} {input payload rest : Bytes}
    (h : readSealed p r input = (.ok (payload, rest), r')) :
    r'.seqRx = wrappingAdd 32 r.seqRx 1 := by
  simp only [readSealed] at h
  split at h
  next => cases h
  next =>
    split at h
    next => cases h
    next =>
      split at h
      next => cases h
      next =>
        split at h
        next => cases h
        next =>
          cases h
          rfl

/-! ### What `read_packet` keeps in its buffer -/

namespace Reading

variable {install : List Bytes → Option Cipher.PacketCipher}

/-- Where `read_packet` waits with this buffer. -/
inductive Waits (p : Primitives) (s : Reading) : Await → Prop
  | length (hlt : s.inbuf.length < 4) : Waits p s .forLength
  | body {n : ℕ} (hge : 4 ≤ s.inbuf.length) (hlt : s.inbuf.length < 4 + n)
      (hbody : frameBodyLen p s.receiver.rx s.receiver.seqRx (s.inbuf.take 4) = .ok n) :
      Waits p s (.forBody (s.inbuf.take 4) s.receiver.seqRx (4 + n))

/-- The future, when there is one, waits where a new one would. -/
def Framed (p : Primitives) (s : Reading) : Prop :=
  ∃ await, s.Waits p await ∧ (s.pending = none ∨ s.pending = some await)

/-- The buffer holds no byte beyond the frame in progress. -/
def NoExcess (p : Primitives) (s : Reading) : Prop :=
  s.inbuf.length ≤ 4 ∨
    ∃ n, frameBodyLen p s.receiver.rx s.receiver.seqRx (s.inbuf.take 4) = .ok n ∧
      s.inbuf.length ≤ 4 + n

theorem Waits.congr {s s' : Reading} {await : Await} (h : s.Waits p await)
    (hinbuf : s'.inbuf = s.inbuf) (hreceiver : s'.receiver = s.receiver) : s'.Waits p await := by
  cases h with
  | length hlt => exact .length (hinbuf ▸ hlt)
  | body hge hlt hbody =>
    rw [← hinbuf, ← hreceiver] at hbody
    rw [← hinbuf, ← hreceiver]
    exact .body (hinbuf ▸ hge) (hinbuf ▸ hlt) hbody

theorem Waits.noExcess {s : Reading} {await : Await} (h : s.Waits p await) : s.NoExcess p := by
  cases h with
  | length hlt => exact .inl (by omega)
  | body hge hlt hbody => exact .inr ⟨_, hbody, by omega⟩

theorem NoExcess.length_le {s : Reading} (h : s.NoExcess p) :
    s.inbuf.length ≤ 4 + maxPacket + tagLen := by
  obtain hle | ⟨n, hbody, hle⟩ := h
  · omega
  · have hmax := (frameBodyLen_bounds hbody).2
    omega

theorem Waits.lt_want {s : Reading} {await : Await} (h : s.Waits p await) :
    s.inbuf.length < await.want := by
  cases h with
  | length hlt => exact hlt
  | body hge hlt hbody => exact hlt

/-- A future called anew derives the same length again. -/
theorem awaitLength_of_waits {s : Reading} {await : Await} (h : s.Waits p await) :
    s.awaitLength p install = { s with pending := some await } := by
  cases h with
  | length hlt => exact if_pos hlt
  | body hge hlt hbody =>
    rw [awaitLength, if_neg (by omega), hbody]
    exact if_pos hlt

theorem call_of_framed {s : Reading} (h : s.Framed p) :
    ∃ await, s.Waits p await ∧ s.call p install = { s with pending := some await } := by
  obtain ⟨await, hwaits, hpending⟩ := h
  refine ⟨await, hwaits, ?_⟩
  rw [call]
  split
  next => exact awaitLength_of_waits hwaits
  next hsome =>
    obtain hnone | hpending := hpending
    · exact absurd hnone hsome
    · rw [← hpending]

/-! ### One read -/

/-- What one read does to a connection. -/
inductive Delivers (p : Primitives) (install : List Bytes → Option Cipher.PacketCipher)
    (s s' : Reading) : Prop
  /-- The frame is not complete yet. -/
  | more (hframed : s'.Framed p) (hlive : s'.ended = none) (hreceiver : s'.receiver = s.receiver)
      (hpayloads : s'.payloads = s.payloads) (hbytes : s'.inbuf ++ s'.input = s.inbuf ++ s.input)
      (hless : s'.input.length < s.input.length)
  /-- A packet is handed over. -/
  | packet {payload : Bytes} {r : Receiver}
      (hread : readSealed p s.receiver (s.inbuf ++ s.input) = (.ok (payload, s'.input), r))
      (hempty : s'.inbuf = []) (hpending : s'.pending = none) (hlive : s'.ended = none)
      (hpayloads : s'.payloads = s.payloads ++ [payload])
      (hreceiver : s'.receiver = r.handOver install s'.payloads)
      (hless : s'.input.length < s.input.length)
  /-- The read path ends. -/
  | failed {e e' : TransportError}
      (hread : readSealed p s.receiver (s.inbuf ++ s.input) = (.error e', s'.receiver))
      (hended : s'.ended = some e) (hkind : e.kind = e'.kind) (hpayloads : s'.payloads = s.payloads)
      (hexcess : s'.NoExcess p) (hdrained : s'.receiver = s.receiver ∨ s'.inbuf = [])

theorem fillInbuf_nil {s : Reading} (hnil : s.input = []) (want k : ℕ) :
    s.fillInbuf want k = .error (.io (if s.breaks then .packetRead else .peerClosed)) := by
  rw [fillInbuf]
  exact if_pos (by simp [hnil])

/-- A read on bytes adds some of them, and none beyond those asked for. -/
theorem fillInbuf_ok {s : Reading} (hinput : s.input ≠ []) {want : ℕ}
    (hwant : s.inbuf.length < want) (k : ℕ) :
    ∃ taken rest, s.input = taken ++ rest ∧ taken ≠ [] ∧ s.inbuf.length + taken.length ≤ want ∧
      s.fillInbuf want k = .ok { s with inbuf := s.inbuf ++ taken, input := rest } := by
  have hpos := List.length_pos_iff.2 hinput
  have hn : min (k + 1) (min (min (want - s.inbuf.length) 8192) s.input.length) ≠ 0 := by omega
  refine ⟨_, _, (List.take_append_drop
    (min (k + 1) (min (min (want - s.inbuf.length) 8192) s.input.length)) s.input).symm, ?_, ?_,
    if_neg hn⟩
  · rw [← List.length_pos_iff, List.length_take]
    omega
  · rw [List.length_take]
    omega

/-- The end of the stream is an I/O error on both paths. -/
theorem readSealed_of_waits {s : Reading} {await : Await} (h : s.Waits p await)
    (hnil : s.input = []) :
    readSealed p s.receiver (s.inbuf ++ s.input) = (.error (.io .packetRead), s.receiver) := by
  rw [hnil, List.append_nil]
  cases h with
  | length hlt => exact readSealed_short hlt
  | body hge hlt hbody => exact readSealed_cut hge hbody hlt

/-- The length is complete. -/
theorem awaitLength_of_length {s : Reading} (hfour : s.inbuf.length = 4) :
    (∃ e, frameBodyLen p s.receiver.rx s.receiver.seqRx (s.inbuf.take 4) = .error e ∧
      s.awaitLength p install = s.stop e) ∨
    ∃ await, s.Waits p await ∧ s.awaitLength p install = { s with pending := some await } := by
  cases hbody : frameBodyLen p s.receiver.rx s.receiver.seqRx (s.inbuf.take 4) with
  | error e =>
    left
    refine ⟨e, rfl, ?_⟩
    rw [awaitLength, if_neg (by omega), hbody]
  | ok n =>
    right
    have hpos := (frameBodyLen_bounds hbody).1
    have hwaits : s.Waits p _ := .body (by omega) (by omega) hbody
    exact ⟨_, hwaits, awaitLength_of_waits hwaits⟩

/-- The frame is complete. -/
theorem takeFrame_delivers {s₀ s : Reading} {n : ℕ} (hlength : s.inbuf.length = 4 + n)
    (hbody : frameBodyLen p s.receiver.rx s.receiver.seqRx (s.inbuf.take 4) = .ok n)
    (hlive : s.ended = none) (hreceiver : s.receiver = s₀.receiver)
    (hpayloads : s.payloads = s₀.payloads) (hbytes : s.inbuf ++ s.input = s₀.inbuf ++ s₀.input)
    (hless : s.input.length < s₀.input.length) :
    Delivers p install s₀ (s.takeFrame p install (s.inbuf.take 4) s.receiver.seqRx (4 + n)) := by
  have hread := readSealed_frame hlength hbody s.input
  have hdrop : s.inbuf.drop (4 + n) = [] := List.drop_eq_nil_of_le (by omega)
  have htake : s.inbuf.take (4 + n) = s.inbuf := List.take_of_length_le (by omega)
  rw [hbytes, hreceiver] at hread
  rw [takeFrame, htake, hdrop, hreceiver]
  simp only
  cases hopen : openFrame p s₀.receiver.rx s₀.receiver.seqRx (s.inbuf.take 4) (s.inbuf.drop 4) with
  | mk result rx =>
    rw [hopen] at hread
    cases result with
    | error e => exact .failed hread rfl rfl hpayloads (.inl (Nat.zero_le 4)) (.inr rfl)
    | ok payload =>
      exact .packet hread rfl rfl hlive (congrArg (· ++ [payload]) hpayloads) rfl hless

/-- One read, whatever it returns, does what `read_sealed` does on the same bytes. -/
theorem deliver_of_waits {s : Reading} {await : Await} (h : s.Waits p await) (hlive : s.ended = none)
    (k : ℕ) :
    Delivers p install s ({ s with pending := some await }.deliver p install k) := by
  -- With nothing to read the stream has ended in the midst of a packet.
  by_cases hnil : s.input = []
  · have hfill := fillInbuf_nil (s := { s with pending := some await }) hnil await.want k
    simp only [deliver, hfill]
    exact .failed (readSealed_of_waits h hnil) rfl rfl rfl h.noExcess (.inl rfl)
  · obtain ⟨taken, rest, hinput, htaken, hle, hfill⟩ :=
      fillInbuf_ok (s := { s with pending := some await }) hnil h.lt_want k
    have hpos := List.length_pos_iff.2 htaken
    have hless : rest.length < s.input.length := by
      rw [hinput, List.length_append]
      omega
    have hbytes : s.inbuf ++ taken ++ rest = s.inbuf ++ s.input := by
      rw [hinput, List.append_assoc]
    let s₁ : Reading := { s with
      pending := some await, inbuf := s.inbuf ++ taken, input := rest }
    -- A read that does not complete the packet waits on, with less input.
    have hmore : ∀ await', s₁.Waits p await' →
        Delivers p install s { s₁ with pending := some await' } := by
      intro await' hwaits
      exact .more ⟨await', hwaits.congr rfl rfl, .inr rfl⟩ hlive rfl rfl hbytes hless
    have hlength : s₁.inbuf.length = s.inbuf.length + taken.length := List.length_append
    simp only [deliver, hfill]
    change Delivers p install s (s₁.proceed p install await)
    cases h with
    | length hlt =>
      change Delivers p install s (s₁.awaitLength p install)
      by_cases hfour : s₁.inbuf.length < 4
      · rw [awaitLength_of_waits (.length hfour)]
        exact hmore _ (.length hfour)
      · have hfour : s₁.inbuf.length = 4 := by
          simp only [Await.want] at hle
          omega
        obtain ⟨e, hbad, heq⟩ | ⟨await', hwaits, heq⟩ := awaitLength_of_length hfour
        · rw [heq]
          refine .failed ?_ rfl rfl rfl (.inl (le_of_eq hfour)) (.inl rfl)
          rw [← hbytes]
          exact readSealed_badLength hfour hbad rest
        · rw [heq]
          exact hmore await' hwaits
    | @body n hge hlt hbody =>
      have htake : s₁.inbuf.take 4 = s.inbuf.take 4 := List.take_append_of_le_length hge
      change Delivers p install s (s₁.awaitBody p install (s.inbuf.take 4) s.receiver.seqRx (4 + n))
      rw [← htake] at hbody ⊢
      rw [awaitBody]
      split
      next hcut => exact hmore _ (.body (by omega) hcut hbody)
      next hfull =>
        simp only [Await.want] at hle
        exact takeFrame_delivers (by omega) hbody hlive rfl rfl hbytes hless

/-! ### Whole schedules -/

/-- A session before its first packet. -/
def start (receiver : Receiver) (bytesRx : ℕ) (input : Bytes) (breaks : Bool) : Reading where
  receiver
  inbuf := []
  bytesRx
  input
  breaks
  pending := none
  payloads := []
  ended := none

/-- Where reading with `read_sealed` from `t₀` on stands beside a connection. -/
inductive Agrees (p : Primitives) (install : List Bytes → Option Cipher.PacketCipher)
    (t₀ : Plainly) (s : Reading) : Prop
  | live (hlive : s.ended = none) (hframed : s.Framed p)
      (hreads : ReflTransGen (Plainly.Reads p install) t₀
        ⟨s.receiver, s.payloads, s.inbuf ++ s.input⟩)
  | stopped {t : Plainly} {e e' : TransportError} (hended : s.ended = some e)
      (hexcess : s.NoExcess p) (hreads : ReflTransGen (Plainly.Reads p install) t₀ t)
      (hpayloads : t.payloads = s.payloads)
      (hread : readSealed p t.receiver t.input = (.error e', s.receiver))
      (hkind : e.kind = e'.kind)

variable {t₀ : Plainly} {s : Reading}

theorem Agrees.noExcess (h : s.Agrees p install t₀) : s.NoExcess p := by
  cases h with
  | live hlive hframed hreads =>
    obtain ⟨await, hwaits, -⟩ := hframed
    exact hwaits.noExcess
  | stopped hended hexcess hreads hpayloads hread hkind => exact hexcess

theorem step_ready {s : Reading} (hlive : s.ended = none) (hframed : s.Framed p) (k : ℕ) :
    Delivers p install s (s.step p install (.ready k)) := by
  obtain ⟨await, hwaits, hcall⟩ := @call_of_framed p install s hframed
  rw [step, hlive, hcall]
  exact deliver_of_waits hwaits hlive k

theorem Agrees.step (h : s.Agrees p install t₀) (event : ReadEvent) :
    (s.step p install event).Agrees p install t₀ := by
  cases h with
  | live hlive hframed hreads =>
    cases event with
    | cancel =>
      obtain ⟨await, hwaits, -⟩ := hframed
      exact .live hlive ⟨await, hwaits.congr rfl rfl, .inl rfl⟩ hreads
    | ready k =>
      cases @step_ready p install s hlive hframed k with
      | more hframed' hlive' hreceiver hpayloads hbytes hless =>
        refine .live hlive' hframed' ?_
        rw [hreceiver, hpayloads, hbytes]
        exact hreads
      | packet hread hempty hpending hlive' hpayloads hreceiver hless =>
        refine .live hlive' ⟨.forLength, .length (by simp [hempty]), .inl hpending⟩ ?_
        rw [hempty, List.nil_append]
        exact hreads.tail ⟨_, _, hread, hpayloads, hreceiver⟩
      | failed hread hended hkind hpayloads hexcess hdrained =>
        exact .stopped hended hexcess hreads hpayloads.symm hread hkind
  | stopped hended hexcess hreads hpayloads hread hkind =>
    cases event with
    | cancel => exact .stopped hended hexcess hreads hpayloads hread hkind
    | ready k =>
      have hstays : s.step p install (.ready k) = s := by
        rw [Reading.step, hended]
        rfl
      rw [hstays]
      exact .stopped hended hexcess hreads hpayloads hread hkind

/-- The buffer is empty whenever the receiving side changes or a payload is handed over. -/
theorem Agrees.drained (h : s.Agrees p install t₀) (event : ReadEvent)
    (hchanged : (s.step p install event).receiver ≠ s.receiver ∨
      (s.step p install event).payloads ≠ s.payloads) :
    (s.step p install event).inbuf = [] := by
  cases event with
  | cancel => exact absurd hchanged (by simp [Reading.step])
  | ready k =>
    cases h with
    | live hlive hframed hreads =>
      cases @step_ready p install s hlive hframed k with
      | more hframed' hlive' hreceiver hpayloads hbytes hless =>
        exact absurd hchanged (by simp [hreceiver, hpayloads])
      | packet hread hempty hpending hlive' hpayloads hreceiver hless => exact hempty
      | failed hread hended hkind hpayloads hexcess hdrained =>
        obtain hsame | hempty := hdrained
        · exact absurd hchanged (by simp [hsame, hpayloads])
        · exact hempty
    | stopped hended hexcess hreads hpayloads hread hkind =>
      exact absurd hchanged (by simp [Reading.step, hended])

theorem agrees_start (receiver : Receiver) (bytesRx : ℕ) (bytes : Bytes) (breaks : Bool) :
    (start receiver bytesRx bytes breaks).Agrees p install ⟨receiver, [], bytes⟩ :=
  .live rfl ⟨.forLength, .length (by simp [start]), .inl rfl⟩ .refl

theorem agrees_run (h : s.Agrees p install t₀) (schedule : List ReadEvent) :
    (s.run p install schedule).Agrees p install t₀ := by
  induction schedule generalizing s with
  | nil => exact h
  | cons event rest ih => exact ih (h.step event)

/-- A failed read is the last. -/
theorem ended_run {e : TransportError} (hended : s.ended = some e) (schedule : List ReadEvent) :
    (s.run p install schedule).ended = some e := by
  induction schedule generalizing s with
  | nil => exact hended
  | cons event rest ih =>
    cases event with
    | cancel => exact ih hended
    | ready k =>
      refine ih ?_
      rw [Reading.step, hended]
      exact hended

/-- Every read that returns takes a byte off the stream or ends the connection. -/
theorem Agrees.count (h : s.Agrees p install t₀) (schedule : List ReadEvent)
    (hlive : (s.run p install schedule).ended = none) :
    (s.run p install schedule).input.length + schedule.countP ReadEvent.isReady ≤
      s.input.length := by
  induction schedule generalizing s with
  | nil => exact le_refl _
  | cons event rest ih =>
    have hrest := ih (h.step event) hlive
    cases h with
    | live hlive₀ hframed hreads =>
      cases event with
      | cancel =>
        rw [List.countP_cons_of_neg (by simp [ReadEvent.isReady])]
        exact hrest
      | ready k =>
        rw [List.countP_cons_of_pos rfl]
        change ((s.step p install (.ready k)).run p install rest).input.length + _ ≤ _
        cases @step_ready p install s hlive₀ hframed k with
        | more hframed' hlive' hreceiver hpayloads hbytes hless => omega
        | packet hread hempty hpending hlive' hpayloads hreceiver hless => omega
        | failed hread hended hkind hpayloads hexcess hdrained =>
          exact absurd (hlive.symm.trans (ended_run hended rest)) (by simp)
    | stopped hended => exact absurd (hlive.symm.trans (ended_run hended (event :: rest))) (by simp)

end Reading

/-- Reading with `read_packet`, however the stream splits the bytes and wherever
its future is dropped: it hands over what `read_sealed` hands over on the same
bytes and ends as it ends, and it does end once the bytes are used up. Its buffer
never reaches beyond the frame in progress, and is empty when the receive cipher
is replaced. -/
theorem readPacket_agrees (p : Primitives) (install : List Bytes → Option Cipher.PacketCipher)
    (receiver : Receiver) (bytesRx : ℕ) (bytes : Bytes) (breaks : Bool)
    (schedule : List ReadEvent) :
    let s := (Reading.start receiver bytesRx bytes breaks).run p install schedule
    let t₀ : Plainly := ⟨receiver, [], bytes⟩
    s.NoExcess p ∧ s.inbuf.length ≤ 4 + 35000 + 16 ∧
    (∀ event, (s.step p install event).receiver ≠ s.receiver ∨
      (s.step p install event).payloads ≠ s.payloads → (s.step p install event).inbuf = []) ∧
    (s.ended = none → ReflTransGen (Plainly.Reads p install) t₀
      ⟨s.receiver, s.payloads, s.inbuf ++ s.input⟩) ∧
    (∀ e, s.ended = some e → ∃ t e', ReflTransGen (Plainly.Reads p install) t₀ t ∧
      t.payloads = s.payloads ∧ readSealed p t.receiver t.input = (.error e', s.receiver) ∧
      e.kind = e'.kind) ∧
    (bytes.length < schedule.countP ReadEvent.isReady → s.ended ≠ none) := by
  intro s t₀
  have hagrees := Reading.agrees_run (@Reading.agrees_start p install receiver bytesRx bytes breaks)
    schedule
  refine ⟨hagrees.noExcess, hagrees.noExcess.length_le, hagrees.drained, ?_, ?_, ?_⟩
  · intro hlive
    cases hagrees with
    | live _ _ hreads => exact hreads
    | stopped hended => exact absurd (hlive.symm.trans hended) (by simp)
  · intro e hended
    cases hagrees with
    | live hlive => exact absurd (hlive.symm.trans hended) (by simp)
    | stopped hended' hexcess hreads hpayloads hread hkind =>
      cases hended.symm.trans hended'
      exact ⟨_, _, hreads, hpayloads, hread, hkind⟩
  · intro hcount hlive
    have hle := (@Reading.agrees_start p install receiver bytesRx bytes breaks).count schedule hlive
    change _ ≤ bytes.length at hle
    omega

end QuantumSsh.Transport
