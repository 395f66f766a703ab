import QuantumSsh.Lib.Checks
import QuantumSsh.Kex
import QuantumSsh.Fields

/-!
# Negotiation

What `parse_kexinit` and `negotiate` agree on, for every payload of a peer: the
grammar of a KEXINIT, what is asked of it and in which order, and what is chosen.
The names that only mark an extension take no part in the choice; the last section
says where the code reads them all the same.
-/

namespace QuantumSsh.Kex

open Wire Parser Checks

/-! ### The grammar of a KEXINIT -/

/-- The fields of a KEXINIT. -/
structure KexinitFields where
  cookie : Bytes
  kexAlgorithms : Bytes
  serverHostKeyAlgorithms : Bytes
  encryptionC2s : Bytes
  encryptionS2c : Bytes
  macC2s : Bytes
  macS2c : Bytes
  compressionC2s : Bytes
  compressionS2c : Bytes
  languagesC2s : Bytes
  languagesS2c : Bytes
  firstKexPacketFollows : UInt8
  reserved : ℕ

namespace KexinitFields

/-- The name-lists, in wire order. -/
def lists (f : KexinitFields) : List Bytes :=
  [f.kexAlgorithms, f.serverHostKeyAlgorithms, f.encryptionC2s, f.encryptionS2c, f.macC2s,
    f.macS2c, f.compressionC2s, f.compressionS2c, f.languagesC2s, f.languagesS2c]

def encode (f : KexinitFields) : Bytes :=
  [sshMsgKexinit] ++ f.cookie ++ (f.lists.map putString).flatten ++ [f.firstKexPacketFollows] ++
    putUint32 f.reserved

structure WellFormed (f : KexinitFields) : Prop where
  cookie : f.cookie.length = 16
  lists : ∀ raw ∈ f.lists, IsNameList raw ∧ raw.length ≤ nameListBound
  reserved : f.reserved < 2 ^ 32

/-- What `negotiate` looks at. -/
def peer (f : KexinitFields) : PeerKexInit where
  kexAlgorithms := f.kexAlgorithms
  serverHostKeyAlgorithms := f.serverHostKeyAlgorithms
  encryptionC2s := f.encryptionC2s
  encryptionS2c := f.encryptionS2c
  compressionC2s := f.compressionC2s
  compressionS2c := f.compressionS2c
  firstKexPacketFollows := decide (f.firstKexPacketFollows ≠ 0)

/-- The encoding as it is read, field by field. -/
theorem encode_eq (f : KexinitFields) :
    f.encode = sshMsgKexinit :: (f.cookie ++ (putString f.kexAlgorithms ++
      (putString f.serverHostKeyAlgorithms ++ (putString f.encryptionC2s ++
      (putString f.encryptionS2c ++ (putString f.macC2s ++ (putString f.macS2c ++
      (putString f.compressionC2s ++ (putString f.compressionS2c ++
      (putString f.languagesC2s ++ (putString f.languagesS2c ++
      (f.firstKexPacketFollows :: (putUint32 f.reserved ++ []))))))))))))) := by
  simp [encode, lists]

end KexinitFields

/-- The parser accepts exactly the encodings of well-formed fields. -/
theorem parseKexinit_ok {payload : Bytes} {peer : PeerKexInit} :
    parseKexinit payload = .ok peer ↔
      ∃ f : KexinitFields, f.WellFormed ∧ payload = f.encode ∧ peer = f.peer := by
  have hrun : parseKexinit payload = .ok peer ↔
      ∃ rest, readKexinit.run payload = .ok (peer, rest) := by
    unfold parseKexinit
    cases readKexinit.run payload with
    | ok v => simp [Prod.ext_iff]
    | error e => simp
  rw [hrun]
  constructor
  -- A parse that succeeds has read each field in turn, and leaves nothing.
  · rintro ⟨rest, h⟩
    rw [readKexinit] at h
    obtain ⟨msg, _, hpayload, h⟩ := run_bind_ok.1 h
    obtain ⟨hmsg, h⟩ := run_check_ok.1 h
    obtain ⟨cookie, _, hread, h⟩ := run_bind_ok.1 h
    obtain ⟨hcookie, erest⟩ := Reader.take_ok_iff.1 hread
    obtain ⟨kex, _, hread, h⟩ := run_bind_ok.1 h
    obtain ⟨⟨h0, l0, -⟩, e0⟩ := Reader.nameList_ok.1 hread
    obtain ⟨hostKey, _, hread, h⟩ := run_bind_ok.1 h
    obtain ⟨⟨h1, l1, -⟩, e1⟩ := Reader.nameList_ok.1 hread
    obtain ⟨encC2s, _, hread, h⟩ := run_bind_ok.1 h
    obtain ⟨⟨h2, l2, -⟩, e2⟩ := Reader.nameList_ok.1 hread
    obtain ⟨encS2c, _, hread, h⟩ := run_bind_ok.1 h
    obtain ⟨⟨h3, l3, -⟩, e3⟩ := Reader.nameList_ok.1 hread
    obtain ⟨macC2s, _, hread, h⟩ := run_bind_ok.1 h
    obtain ⟨⟨h4, l4, -⟩, e4⟩ := Reader.nameList_ok.1 hread
    obtain ⟨macS2c, _, hread, h⟩ := run_bind_ok.1 h
    obtain ⟨⟨h5, l5, -⟩, e5⟩ := Reader.nameList_ok.1 hread
    obtain ⟨compC2s, _, hread, h⟩ := run_bind_ok.1 h
    obtain ⟨⟨h6, l6, -⟩, e6⟩ := Reader.nameList_ok.1 hread
    obtain ⟨compS2c, _, hread, h⟩ := run_bind_ok.1 h
    obtain ⟨⟨h7, l7, -⟩, e7⟩ := Reader.nameList_ok.1 hread
    obtain ⟨langC2s, _, hread, h⟩ := run_bind_ok.1 h
    obtain ⟨⟨h8, l8, -⟩, e8⟩ := Reader.nameList_ok.1 hread
    obtain ⟨langS2c, _, hread, h⟩ := run_bind_ok.1 h
    obtain ⟨⟨h9, l9, -⟩, e9⟩ := Reader.nameList_ok.1 hread
    obtain ⟨_, _, hread, h⟩ := run_bind_ok.1 h
    obtain ⟨follows, efollows, rfl⟩ := Reader.boolean_ok.1 hread
    obtain ⟨reserved, _, hread, h⟩ := run_bind_ok.1 h
    obtain ⟨hreserved, ereserved⟩ := Reader.uint32_ok.1 hread
    obtain ⟨_, _, hread, h⟩ := run_bind_ok.1 h
    obtain ⟨eend, -⟩ := Reader.finish_ok.1 hread
    obtain ⟨rfl, -⟩ := run_pure_ok.1 h
    refine ⟨⟨cookie, kex, hostKey, encC2s, encS2c, macC2s, macS2c, compC2s, compS2c, langC2s, langS2c,
      follows, reserved⟩, ⟨hcookie, ?_, hreserved⟩, ?_, rfl⟩
    · simp only [KexinitFields.lists, List.forall_mem_cons, List.not_mem_nil, false_imp_iff,
        implies_true, and_true]
      exact ⟨⟨h0, l0⟩, ⟨h1, l1⟩, ⟨h2, l2⟩, ⟨h3, l3⟩, ⟨h4, l4⟩, ⟨h5, l5⟩, ⟨h6, l6⟩, ⟨h7, l7⟩,
        ⟨h8, l8⟩, ⟨h9, l9⟩⟩
    · rw [KexinitFields.encode_eq, Reader.byte_ok.1 hpayload, not_not.1 hmsg, erest, e0, e1, e2, e3,
        e4, e5, e6, e7, e8, e9, efollows, ereserved, eend]
  · rintro ⟨f, hf, rfl, rfl⟩
    have hlists := hf.lists
    simp only [KexinitFields.lists, List.forall_mem_cons, List.not_mem_nil, false_imp_iff,
      implies_true, and_true] at hlists
    obtain ⟨h0, h1, h2, h3, h4, h5, h6, h7, h8, h9⟩ := hlists
    -- The bound of a list is far below what its length prefix can tell.
    have hlt : ∀ {raw : Bytes}, IsNameList raw ∧ raw.length ≤ nameListBound →
        IsNameList raw ∧ raw.length ≤ nameListBound ∧ raw.length < 2 ^ 32 :=
      fun h => ⟨h.1, h.2, h.2.trans_lt (by decide)⟩
    refine ⟨[], ?_⟩
    rw [f.encode_eq, readKexinit, run_bind_of_ok (Reader.byte_ok.2 rfl), run_check_ok]
    refine ⟨not_not.2 rfl, ?_⟩
    beta_reduce
    rw [Reader.bytes, run_bind_of_ok (Reader.take_ok_iff.2 ⟨hf.cookie, rfl⟩)]
    rw [run_bind_of_ok (Reader.nameList_ok.2 ⟨hlt h0, rfl⟩)]
    rw [run_bind_of_ok (Reader.nameList_ok.2 ⟨hlt h1, rfl⟩)]
    rw [run_bind_of_ok (Reader.nameList_ok.2 ⟨hlt h2, rfl⟩)]
    rw [run_bind_of_ok (Reader.nameList_ok.2 ⟨hlt h3, rfl⟩)]
    rw [run_bind_of_ok (Reader.nameList_ok.2 ⟨hlt h4, rfl⟩)]
    rw [run_bind_of_ok (Reader.nameList_ok.2 ⟨hlt h5, rfl⟩)]
    rw [run_bind_of_ok (Reader.nameList_ok.2 ⟨hlt h6, rfl⟩)]
    rw [run_bind_of_ok (Reader.nameList_ok.2 ⟨hlt h7, rfl⟩)]
    rw [run_bind_of_ok (Reader.nameList_ok.2 ⟨hlt h8, rfl⟩)]
    rw [run_bind_of_ok (Reader.nameList_ok.2 ⟨hlt h9, rfl⟩)]
    rw [run_bind_of_ok (Reader.boolean_ok.2 ⟨f.firstKexPacketFollows, rfl, rfl⟩),
      run_bind_of_ok (Reader.uint32_ok.2 ⟨hf.reserved, rfl⟩),
      run_bind_of_ok ((Reader.finish_ok (u := ())).2 ⟨rfl, rfl⟩)]
    rfl

/-! ### What is asked of a peer -/

/-- The names that name an algorithm. -/
def realNames (raw : Bytes) : List Bytes := (names raw).filter fun n => !isMarker n

/-- The ciphers we support, in no order. -/
def IsOurCipher (name : Bytes) : Prop :=
  name = utf8 "chacha20-poly1305@openssh.com" ∨ name = utf8 "aes256-gcm@openssh.com"

/-- What is asked of the peer, in order, and the reason when it is not met. The
marker for strict key exchange is asked for in the initial KEXINIT only. -/
def requirements (peer : PeerKexInit) (initial : Bool) : List (Reason × Prop) :=
  [(.noHybridKex, utf8 kexAlgorithm ∈ realNames peer.kexAlgorithms),
    (.noStrictKex, initial = true → utf8 strictKexClient ∈ names peer.kexAlgorithms),
    (.noHostKeyAlgorithm, utf8 hostKeyList ∈ names peer.serverHostKeyAlgorithms),
    (.noCipherC2s, ∃ n ∈ names peer.encryptionC2s, IsOurCipher n),
    (.noCipherS2c, ∃ n ∈ names peer.encryptionS2c, IsOurCipher n),
    (.noCompression, utf8 "none" ∈ names peer.compressionC2s ∧
      utf8 "none" ∈ names peer.compressionS2c)]

/-- Everything asked for is met. -/
def Acceptable (peer : PeerKexInit) (initial : Bool) : Prop :=
  ∀ r ∈ requirements peer initial, r.2

/-- What is asked of the peer first fails for this reason. -/
def FirstUnmet (peer : PeerKexInit) (initial : Bool) (reason : Reason) : Prop :=
  FailsFirst (requirements peer initial) reason

/-! ### The choice -/

theorem listContains_iff {raw name : Bytes} : listContains raw name = true ↔ name ∈ names raw := by
  simp [listContains]

theorem names_encryptionList : names (utf8 encryptionList) =
    [utf8 "chacha20-poly1305@openssh.com", utf8 "aes256-gcm@openssh.com"] := by
  decide

theorem mem_encryptionList {name : Bytes} :
    name ∈ names (utf8 encryptionList) ↔ IsOurCipher name := by
  rw [names_encryptionList]
  simp [IsOurCipher]

theorem pick_isSome {raw : Bytes} : (∃ n ∈ names raw, IsOurCipher n) ↔ ∃ n, pick raw = some n := by
  unfold pick
  rw [← Option.isSome_iff_exists, List.find?_isSome]
  simp only [decide_eq_true_eq, mem_encryptionList]

theorem pick_eq_none {raw : Bytes} (h : ¬∃ n ∈ names raw, IsOurCipher n) : pick raw = none := by
  cases hpick : pick raw with
  | none => rfl
  | some n => exact absurd (pick_isSome.2 ⟨n, hpick⟩) h

/-- The guess of a peer is skipped. -/
def skips (peer : PeerKexInit) : Bool :=
  peer.firstKexPacketFollows &&
    ((names peer.kexAlgorithms).head? ≠ some (utf8 kexAlgorithm) ||
      (names peer.serverHostKeyAlgorithms).head? ≠ some (utf8 hostKeyList))

theorem offersHybrid_iff {raw : Bytes} :
    ((names raw).filter fun n => !isMarker n).any (fun n => n = utf8 kexAlgorithm) = true ↔
      utf8 kexAlgorithm ∈ realNames raw := by
  rw [List.any_eq_true]
  constructor
  · rintro ⟨n, hn, heq⟩
    rw [← of_decide_eq_true heq]
    exact hn
  · intro h
    exact ⟨_, h, decide_eq_true rfl⟩

theorem not_lacksMarker {initial : Bool} {raw name : Bytes} :
    ¬(initial && !listContains raw name) = true ↔ (initial = true → name ∈ names raw) := by
  cases initial <;> simp [listContains_iff]

theorem not_lacksNone {c2s s2c : Bytes} :
    ¬(!listContains c2s (utf8 compressionList) || !listContains s2c (utf8 compressionList)) = true ↔
      utf8 "none" ∈ names c2s ∧ utf8 "none" ∈ names s2c := by
  have hnone : utf8 compressionList = utf8 "none" := rfl
  rw [hnone, ← listContains_iff, ← listContains_iff]
  simp

/-- The checks of `negotiate` in their order, without the steps between them. -/
theorem negotiate_eq (peer : PeerKexInit) (initial : Bool) :
    negotiate peer initial =
      if ¬((names peer.kexAlgorithms).filter fun n => !isMarker n).any
          (fun n => n = utf8 kexAlgorithm) = true then
        .error (kexFailed .noHybridKex)
      else if (initial && !listContains peer.kexAlgorithms (utf8 strictKexClient)) = true then
        .error (kexFailed .noStrictKex)
      else if ¬listContains peer.serverHostKeyAlgorithms (utf8 hostKeyList) = true then
        .error (kexFailed .noHostKeyAlgorithm)
      else match pick peer.encryptionC2s with
      | none => .error (kexFailed .noCipherC2s)
      | some cipherC2s => match pick peer.encryptionS2c with
        | none => .error (kexFailed .noCipherS2c)
        | some cipherS2c =>
          if (!listContains peer.compressionC2s (utf8 compressionList) ||
              !listContains peer.compressionS2c (utf8 compressionList)) = true then
            .error (kexFailed .noCompression)
          else .ok
            { cipherC2s
              cipherS2c
              extInfo := initial && listContains peer.kexAlgorithms (utf8 extInfoClient)
              skipGuessedPacket := skips peer } := by
  unfold negotiate
  -- Check by check, in the order of the source; each of them ends the negotiation.
  by_cases hhybrid : ((names peer.kexAlgorithms).filter fun n => !isMarker n).any
      (fun n => n = utf8 kexAlgorithm) = true
  swap
  · simp only [if_neg hhybrid, if_pos hhybrid]
    rfl
  rw [if_neg (not_not.2 hhybrid)]
  simp only [if_pos hhybrid]
  by_cases hstrict : (initial && !listContains peer.kexAlgorithms (utf8 strictKexClient)) = true
  · simp only [if_pos hstrict]
    rfl
  simp only [if_neg hstrict]
  by_cases hhost : listContains peer.serverHostKeyAlgorithms (utf8 hostKeyList) = true
  swap
  · simp only [if_neg hhost, if_pos hhost]
    rfl
  rw [if_neg (not_not.2 hhost)]
  simp only [if_pos hhost]
  cases pick peer.encryptionC2s with
  | none => rfl
  | some cipherC2s =>
    cases pick peer.encryptionS2c with
    | none => rfl
    | some cipherS2c =>
      by_cases hcompression : (!listContains peer.compressionC2s (utf8 compressionList) ||
          !listContains peer.compressionS2c (utf8 compressionList)) = true
      · simp only [if_pos hcompression]
        rfl
      · simp only [if_neg hcompression]
        rfl

theorem negotiate_of_acceptable {peer : PeerKexInit} {initial : Bool}
    (h : Acceptable peer initial) :
    ∃ c2s s2c, pick peer.encryptionC2s = some c2s ∧ pick peer.encryptionS2c = some s2c ∧
      negotiate peer initial = .ok
        { cipherC2s := c2s
          cipherS2c := s2c
          extInfo := initial && listContains peer.kexAlgorithms (utf8 extInfoClient)
          skipGuessedPacket := skips peer } := by
  simp only [Acceptable, requirements, List.forall_mem_cons, List.not_mem_nil, false_imp_iff,
    implies_true, and_true] at h
  obtain ⟨hhybrid, hstrict, hhost, hc2s, hs2c, hcompression⟩ := h
  obtain ⟨c2s, hc2s⟩ := pick_isSome.1 hc2s
  obtain ⟨s2c, hs2c⟩ := pick_isSome.1 hs2c
  refine ⟨c2s, s2c, hc2s, hs2c, ?_⟩
  rw [negotiate_eq, if_neg (not_not.2 (offersHybrid_iff.2 hhybrid)), if_neg (not_lacksMarker.2 hstrict),
    if_neg (not_not.2 (listContains_iff.2 hhost)), hc2s, hs2c]
  dsimp only
  rw [if_neg (not_lacksNone.2 hcompression)]

/-- A peer is rejected for the first requirement it does not meet. -/
theorem negotiate_of_unmet {peer : PeerKexInit} {initial : Bool} {reason : Reason}
    (h : FirstUnmet peer initial reason) :
    negotiate peer initial = .error (kexFailed reason) := by
  simp only [FirstUnmet, requirements, failsFirst_cons, not_failsFirst_nil, and_false,
    or_false] at h
  rw [negotiate_eq]
  obtain ⟨hhybrid, rfl⟩ | ⟨hhybrid, h⟩ := h
  · rw [if_pos (offersHybrid_iff.not.2 hhybrid)]
  rw [if_neg (not_not.2 (offersHybrid_iff.2 hhybrid))]
  obtain ⟨hstrict, rfl⟩ | ⟨hstrict, h⟩ := h
  · rw [if_pos (not_not.1 (not_lacksMarker.not.2 hstrict))]
  rw [if_neg (not_lacksMarker.2 hstrict)]
  obtain ⟨hhost, rfl⟩ | ⟨hhost, h⟩ := h
  · rw [if_pos (listContains_iff.not.2 hhost)]
  rw [if_neg (not_not.2 (listContains_iff.2 hhost))]
  obtain ⟨hc2s, rfl⟩ | ⟨hc2s, h⟩ := h
  · rw [pick_eq_none hc2s]
  obtain ⟨c2s, hc2s⟩ := pick_isSome.1 hc2s
  rw [hc2s]
  obtain ⟨hs2c, rfl⟩ | ⟨hs2c, hcompression, rfl⟩ := h
  · rw [pick_eq_none hs2c]
  obtain ⟨s2c, hs2c⟩ := pick_isSome.1 hs2c
  rw [hs2c]
  exact if_pos (not_not.1 (not_lacksNone.not.2 hcompression))

/-! ### From the payload to the choice -/

/-- `parse_kexinit` followed by `negotiate`. -/
def agree (payload : Bytes) (initial : Bool) : Except KexError Negotiated :=
  parseKexinit payload >>= fun peer => negotiate peer initial

/-- The cipher is the first name on the peer's list that we support, however our own
list is ordered. -/
structure Chosen (peerList cipher : Bytes) : Prop where
  first : ∃ before after, names peerList = before ++ cipher :: after ∧ IsOurCipher cipher ∧
    ∀ n ∈ before, ¬IsOurCipher n
  reordered : ∀ ours : List Bytes, ours.Perm (names (utf8 encryptionList)) →
    (names peerList).find? (fun n => n ∈ ours) = some cipher

theorem chosen_of_pick {peerList cipher : Bytes} (h : pick peerList = some cipher) :
    Chosen peerList cipher := by
  refine ⟨?_, fun ours hours => ?_⟩
  · obtain ⟨hcipher, before, after, hnames, hbefore⟩ := List.find?_eq_some_iff_append.1 h
    refine ⟨before, after, hnames, mem_encryptionList.1 (of_decide_eq_true hcipher), fun n hn => ?_⟩
    have hnot := hbefore n hn
    rw [← mem_encryptionList]
    simpa using hnot
  · rw [← h, pick]
    congr 1
    funext n
    exact decide_eq_decide.2 hours.mem_iff

/-- What `parse_kexinit` and `negotiate` owe to a payload. -/
structure NegotiatesAsSpecified (payload : Bytes) (initial : Bool) : Prop where
  accepts : (∃ n, agree payload initial = .ok n) ↔
    ∃ f : KexinitFields, f.WellFormed ∧ payload = f.encode ∧ Acceptable f.peer initial
  chooses : ∀ (f : KexinitFields) (n : Negotiated), f.WellFormed → payload = f.encode →
    agree payload initial = .ok n →
      Chosen f.encryptionC2s n.cipherC2s ∧ Chosen f.encryptionS2c n.cipherS2c
  /-- The cookie, the MAC and language lists and the reserved field play no part. -/
  ignores : ∀ f f' : KexinitFields, f.WellFormed → f'.WellFormed → payload = f.encode →
    f'.peer = f.peer → agree f'.encode initial = agree payload initial
  rejects : ∀ f : KexinitFields, f.WellFormed → payload = f.encode →
    ¬Acceptable f.peer initial →
      ∃ reason, FirstUnmet f.peer initial reason ∧
        agree payload initial = .error (.rejected ⟨reason, 3⟩)
  malformed : (¬∃ f : KexinitFields, f.WellFormed ∧ payload = f.encode) →
    ∃ e, agree payload initial = .error (.wire e)
  rekeyExtInfo : ∀ n, initial = false → agree payload initial = .ok n → n.extInfo = false
  /-- On a re-key it does not matter which markers are there. -/
  rekeyMarker : ∀ f f' : KexinitFields, f.WellFormed → f'.WellFormed → initial = false →
    payload = f.encode → { f'.peer with kexAlgorithms := f.kexAlgorithms } = f.peer →
    realNames f'.kexAlgorithms = realNames f.kexAlgorithms →
      ((∃ n, agree f'.encode initial = .ok n) ↔ ∃ n, agree payload initial = .ok n)

theorem agree_encode {f : KexinitFields} (hf : f.WellFormed) (initial : Bool) :
    agree f.encode initial = negotiate f.peer initial := by
  rw [agree, parseKexinit_ok.2 ⟨f, hf, rfl, rfl⟩]
  rfl

theorem agree_malformed {payload : Bytes}
    (h : ¬∃ f : KexinitFields, f.WellFormed ∧ payload = f.encode) (initial : Bool) :
    ∃ e, agree payload initial = .error (.wire e) := by
  unfold agree
  cases hparse : parseKexinit payload with
  | ok peer =>
    obtain ⟨f, hf, hpayload, -⟩ := parseKexinit_ok.1 hparse
    exact absurd ⟨f, hf, hpayload⟩ h
  | error e =>
    unfold parseKexinit at hparse
    split at hparse
    next => cases hparse
    next wireError hrun =>
      cases hparse
      exact ⟨wireError, rfl⟩

theorem negotiate_ok_iff {peer : PeerKexInit} {initial : Bool} :
    (∃ n, negotiate peer initial = .ok n) ↔ Acceptable peer initial := by
  constructor
  · rintro ⟨n, hn⟩
    obtain hall | ⟨reason, hreason⟩ := met_or_failsFirst (requirements peer initial)
    · exact hall
    · rw [negotiate_of_unmet hreason] at hn
      cases hn
  · intro h
    obtain ⟨c2s, s2c, -, -, hn⟩ := negotiate_of_acceptable h
    exact ⟨_, hn⟩

/-- **Negotiation meets its specification** on every payload, initial or not. -/
theorem negotiation_exact (payload : Bytes) (initial : Bool) :
    NegotiatesAsSpecified payload initial := by
  constructor
  case accepts =>
    constructor
    · rintro ⟨n, hn⟩
      by_cases hwell : ∃ f : KexinitFields, f.WellFormed ∧ payload = f.encode
      · obtain ⟨f, hf, rfl⟩ := hwell
        rw [agree_encode hf] at hn
        exact ⟨f, hf, rfl, negotiate_ok_iff.1 ⟨n, hn⟩⟩
      · obtain ⟨e, he⟩ := agree_malformed hwell initial
        rw [he] at hn
        cases hn
    · rintro ⟨f, hf, rfl, hacceptable⟩
      rw [agree_encode hf]
      exact negotiate_ok_iff.2 hacceptable
  case chooses =>
    rintro f n hf rfl hn
    rw [agree_encode hf] at hn
    obtain ⟨c2s, s2c, hc2s, hs2c, hn'⟩ := negotiate_of_acceptable (negotiate_ok_iff.1 ⟨n, hn⟩)
    rw [hn'] at hn
    cases hn
    exact ⟨chosen_of_pick hc2s, chosen_of_pick hs2c⟩
  case ignores =>
    rintro f f' hf hf' rfl hpeer
    rw [agree_encode hf, agree_encode hf', hpeer]
  case rejects =>
    rintro f hf rfl hnot
    obtain hall | ⟨reason, hreason⟩ := met_or_failsFirst (requirements f.peer initial)
    · exact absurd hall hnot
    · refine ⟨reason, hreason, ?_⟩
      rw [agree_encode hf, negotiate_of_unmet hreason]
      rfl
  case malformed => exact fun h => agree_malformed h initial
  case rekeyExtInfo =>
    rintro n rfl hn
    by_cases hwell : ∃ f : KexinitFields, f.WellFormed ∧ payload = f.encode
    · obtain ⟨f, hf, rfl⟩ := hwell
      rw [agree_encode hf] at hn
      obtain ⟨c2s, s2c, -, -, hn'⟩ := negotiate_of_acceptable (negotiate_ok_iff.1 ⟨n, hn⟩)
      rw [hn'] at hn
      cases hn
      rfl
    · obtain ⟨e, he⟩ := agree_malformed hwell false
      rw [he] at hn
      cases hn
  -- Behind the first exchange the markers no longer count, only the real names.
  case rekeyMarker =>
    rintro f f' hf hf' rfl rfl hpeer hreal
    have hreal' : realNames f'.peer.kexAlgorithms = realNames f.peer.kexAlgorithms := hreal
    rw [agree_encode hf, agree_encode hf', negotiate_ok_iff, negotiate_ok_iff, ← hpeer]
    simp only [Acceptable, requirements, List.forall_mem_cons, List.not_mem_nil, false_imp_iff,
      implies_true, and_true, Bool.false_eq_true]
    rw [hreal']
    rfl

/-! ### Markers -/

/-- The two lists of key exchanges differ in markers only, and not in whether the two
markers that mean something to us are there. -/
structure SameButMarkers (raw raw' : Bytes) : Prop where
  real : realNames raw' = realNames raw
  strict : utf8 strictKexClient ∈ names raw' ↔ utf8 strictKexClient ∈ names raw
  extInfo : utf8 extInfoClient ∈ names raw' ↔ utf8 extInfoClient ∈ names raw

/-- The peer's guess is wrong: its first real key exchange is not the hybrid, or its
first host key algorithm is not ours. -/
def GuessesWrong (peer : PeerKexInit) : Prop :=
  peer.firstKexPacketFollows = true ∧
    ((realNames peer.kexAlgorithms).head? ≠ some (utf8 kexAlgorithm) ∨
      (names peer.serverHostKeyAlgorithms).head? ≠ some (utf8 hostKeyList))

/-- The peer announces a guess, and it is right. -/
def GuessesRight (peer : PeerKexInit) : Prop :=
  peer.firstKexPacketFollows = true ∧
    (realNames peer.kexAlgorithms).head? = some (utf8 kexAlgorithm) ∧
      (names peer.serverHostKeyAlgorithms).head? = some (utf8 hostKeyList)

/-- The first name of the list is a marker. -/
def OpensWithMarker (raw : Bytes) : Prop := ∃ n, (names raw).head? = some n ∧ isMarker n = true

/-- Other markers make no difference, and the guess is judged by the real names. -/
def MarkersIgnored (peer : PeerKexInit) (raw' : Bytes) (initial : Bool) : Prop :=
  negotiate { peer with kexAlgorithms := raw' } initial = negotiate peer initial ∧
    ∀ n, negotiate peer initial = .ok n → (n.skipGuessedPacket = true ↔ GuessesWrong peer)

/-- The first name, when it is no marker, is the first real one. -/
theorem head_realNames {raw : Bytes} (h : ¬OpensWithMarker raw) :
    (realNames raw).head? = (names raw).head? := by
  unfold realNames
  cases hnames : names raw with
  | nil => rfl
  | cons n ns =>
    have hn : isMarker n = false := by
      by_contra hmarker
      exact h ⟨n, by rw [hnames]; rfl, by simpa using hmarker⟩
    simp [hn]

theorem isMarker_kexAlgorithm : isMarker (utf8 kexAlgorithm) = false := by decide

theorem not_both_guesses {peer : PeerKexInit} (h : GuessesRight peer) : ¬GuessesWrong peer := by
  rintro ⟨-, hkex | hhost⟩
  · exact hkex h.2.1
  · exact hhost h.2.2

/-- The guess is skipped when it is wrong, and when a marker comes first. -/
theorem skips_iff {peer : PeerKexInit} :
    skips peer = true ↔
      GuessesWrong peer ∨ GuessesRight peer ∧ OpensWithMarker peer.kexAlgorithms := by
  simp only [skips, Bool.and_eq_true, Bool.or_eq_true, decide_eq_true_eq]
  by_cases hmarker : OpensWithMarker peer.kexAlgorithms
  · obtain ⟨n, hhead, hn⟩ := hmarker
    have hother : (names peer.kexAlgorithms).head? ≠ some (utf8 kexAlgorithm) := by
      rw [hhead]
      rintro ⟨⟩
      rw [isMarker_kexAlgorithm] at hn
      cases hn
    constructor
    · rintro ⟨hfollows, -⟩
      by_cases hwrong : GuessesWrong peer
      · exact .inl hwrong
      · have hright := not_or.1 fun h => hwrong ⟨hfollows, h⟩
        exact .inr ⟨⟨hfollows, not_not.1 hright.1, not_not.1 hright.2⟩, n, hhead, hn⟩
    · rintro (hwrong | ⟨hright, -⟩)
      · exact ⟨hwrong.1, .inl hother⟩
      · exact ⟨hright.1, .inl hother⟩
  · rw [← head_realNames hmarker]
    constructor
    · intro h
      exact .inl h
    · rintro (hwrong | ⟨-, hmarker'⟩)
      · exact hwrong
      · exact absurd hmarker' hmarker

section

variable {peer : PeerKexInit} {raw' : Bytes} {initial : Bool}

theorem SameButMarkers.requirements_eq (h : SameButMarkers peer.kexAlgorithms raw') :
    requirements { peer with kexAlgorithms := raw' } initial = requirements peer initial := by
  simp only [requirements, h.real, h.strict]

/-- With other markers the result is the same, up to the skip. -/
theorem SameButMarkers.negotiate_eq_iff (h : SameButMarkers peer.kexAlgorithms raw')
    (hacceptable : Acceptable peer initial) :
    negotiate { peer with kexAlgorithms := raw' } initial = negotiate peer initial ↔
      skips { peer with kexAlgorithms := raw' } = skips peer := by
  have hacceptable' : Acceptable { peer with kexAlgorithms := raw' } initial := by
    rw [Acceptable, h.requirements_eq]
    exact hacceptable
  obtain ⟨c2s, s2c, hc2s, hs2c, hn⟩ := negotiate_of_acceptable hacceptable
  obtain ⟨c2s', s2c', hc2s', hs2c', hn'⟩ := negotiate_of_acceptable hacceptable'
  obtain rfl : c2s = c2s' := Option.some.inj (hc2s.symm.trans hc2s')
  obtain rfl : s2c = s2c' := Option.some.inj (hs2c.symm.trans hs2c')
  have hext : listContains raw' (utf8 extInfoClient) =
      listContains peer.kexAlgorithms (utf8 extInfoClient) := by
    rw [Bool.eq_iff_iff, listContains_iff, listContains_iff]
    exact h.extInfo
  rw [hn, hn']
  simp [hext]

theorem GuessesRight.with_markers (h : SameButMarkers peer.kexAlgorithms raw') :
    GuessesRight { peer with kexAlgorithms := raw' } ↔ GuessesRight peer := by
  simp only [GuessesRight, h.real]

theorem GuessesWrong.with_markers (h : SameButMarkers peer.kexAlgorithms raw') :
    GuessesWrong { peer with kexAlgorithms := raw' } ↔ GuessesWrong peer := by
  simp only [GuessesWrong, h.real]

/-- **Markers make no difference**, unless the offer is acceptable, the peer's guess is
right, and one of the two lists opens with a marker: the guess is judged by the first
name, marker or not. -/
theorem markers_ignored_iff (h : SameButMarkers peer.kexAlgorithms raw') :
    MarkersIgnored peer raw' initial ↔
      (Acceptable peer initial → GuessesRight peer →
        ¬OpensWithMarker peer.kexAlgorithms ∧ ¬OpensWithMarker raw') := by
  by_cases hacceptable : Acceptable peer initial
  swap
  · refine iff_of_true ⟨?_, fun n hn => ?_⟩ fun h => absurd h hacceptable
    · obtain hall | ⟨reason, hreason⟩ := met_or_failsFirst (requirements peer initial)
      · exact absurd hall hacceptable
      · have hreason' : FirstUnmet { peer with kexAlgorithms := raw' } initial reason := by
          rw [FirstUnmet, h.requirements_eq]
          exact hreason
        rw [negotiate_of_unmet hreason, negotiate_of_unmet hreason']
    · exact absurd (negotiate_ok_iff.1 ⟨n, hn⟩) hacceptable
  have hskip : (∀ n, negotiate peer initial = .ok n →
      (n.skipGuessedPacket = true ↔ GuessesWrong peer)) ↔ (skips peer = true ↔ GuessesWrong peer) := by
    obtain ⟨c2s, s2c, -, -, hn⟩ := negotiate_of_acceptable hacceptable
    constructor
    · intro hall
      exact hall _ hn
    · intro hone n hn'
      rw [hn] at hn'
      cases hn'
      exact hone
  rw [MarkersIgnored, h.negotiate_eq_iff hacceptable, hskip, Bool.eq_iff_iff, skips_iff, skips_iff,
    GuessesWrong.with_markers h, GuessesRight.with_markers h]
  by_cases hright : GuessesRight peer
  · have hwrong := not_both_guesses hright
    simp only [hright, hwrong, hacceptable, false_or, true_and, iff_false, true_imp_iff]
    constructor
    · rintro ⟨hsame, hmarker⟩
      exact ⟨hmarker, fun h' => hmarker (hsame.1 h')⟩
    · rintro ⟨hmarker, hmarker'⟩
      exact ⟨iff_of_false hmarker' hmarker, hmarker⟩
  · simp [hright]

end

/-- A KEXINIT with a guess, under some list of key exchanges. -/
def guessing (kexList : String) : KexinitFields where
  cookie := List.replicate 16 0
  kexAlgorithms := utf8 kexList
  serverHostKeyAlgorithms := utf8 hostKeyList
  encryptionC2s := utf8 encryptionList
  encryptionS2c := utf8 encryptionList
  macC2s := []
  macS2c := []
  compressionC2s := utf8 compressionList
  compressionS2c := utf8 compressionList
  languagesC2s := []
  languagesS2c := []
  firstKexPacketFollows := 1
  reserved := 0

/-- The hybrid first, and the markers behind it in some order. -/
def hybridFirst : String := "mlkem768x25519-sha256,kex-strict-c-v00@openssh.com,ext-info-c"
def hybridFirstMoved : String := "mlkem768x25519-sha256,ext-info-c,kex-strict-c-v00@openssh.com"

/-- The same names with a marker in front. -/
def markerFirst : String := "ext-info-c,mlkem768x25519-sha256,kex-strict-c-v00@openssh.com"

theorem sameButMarkers_moved : SameButMarkers (utf8 hybridFirst) (utf8 hybridFirstMoved) :=
  ⟨by decide, by decide, by decide⟩

theorem not_opensWithMarker_of_head {raw n : Bytes} (hhead : (names raw).head? = some n)
    (hn : isMarker n = false) : ¬OpensWithMarker raw := by
  rintro ⟨n', hhead', hn'⟩
  rw [hhead] at hhead'
  cases hhead'
  rw [hn] at hn'
  cases hn'

theorem markers_ignored_iff_moved :
    MarkersIgnored (guessing hybridFirst).peer (utf8 hybridFirstMoved) true :=
  (markers_ignored_iff sameButMarkers_moved).2 fun _ _ =>
    ⟨not_opensWithMarker_of_head (n := utf8 kexAlgorithm) (by decide) isMarker_kexAlgorithm,
      not_opensWithMarker_of_head (n := utf8 kexAlgorithm) (by decide)
        isMarker_kexAlgorithm⟩

theorem wellFormed_guessing {kexList : String}
    (h : Reader.wellFormedNames true (utf8 kexList) = true)
    (hlen : (utf8 kexList).length ≤ nameListBound) : (guessing kexList).WellFormed := by
  have hreserved : 0 < 2 ^ 32 := by decide
  refine ⟨rfl, ?_, hreserved⟩
  simp only [KexinitFields.lists, guessing, List.forall_mem_cons, List.not_mem_nil, false_imp_iff,
    implies_true, and_true]
  refine ⟨⟨.inr h, hlen⟩, ⟨.inr ?_, ?_⟩, ⟨.inr ?_, ?_⟩, ⟨.inr ?_, ?_⟩, ⟨.inl rfl, ?_⟩,
    ⟨.inl rfl, ?_⟩, ⟨.inr ?_, ?_⟩, ⟨.inr ?_, ?_⟩, ⟨.inl rfl, ?_⟩, ⟨.inl rfl, ?_⟩⟩ <;>
    decide

/-- A marker moved to the front turns a right guess into one that is skipped. -/
theorem marker_first_skips :
    (guessing hybridFirst).WellFormed ∧ (guessing markerFirst).WellFormed ∧
      SameButMarkers (guessing hybridFirst).kexAlgorithms (guessing markerFirst).kexAlgorithms ∧
      { (guessing hybridFirst).peer with kexAlgorithms := (guessing markerFirst).kexAlgorithms } =
        (guessing markerFirst).peer ∧
      ¬MarkersIgnored (guessing hybridFirst).peer (guessing markerFirst).kexAlgorithms true := by
  refine ⟨wellFormed_guessing (by decide) (by decide),
    wellFormed_guessing (by decide) (by decide),
    ⟨by decide, by decide, by decide⟩, rfl, fun h => ?_⟩
  have hskip : (negotiate (guessing markerFirst).peer true).toOption.map
      Negotiated.skipGuessedPacket = some true := by decide
  have hkeep : (negotiate (guessing hybridFirst).peer true).toOption.map
      Negotiated.skipGuessedPacket = some false := by decide
  rw [← h.1] at hkeep
  exact absurd (hskip.symm.trans hkeep) (by decide)

/-! ### The exchange hash -/

namespace ExchangeHashInputs

/-- The bytes that `exchange_hash` feeds to SHA-256. -/
def serialized (i : ExchangeHashInputs) : Bytes :=
  putString i.clientId ++ putString i.serverId ++ putString i.clientKexinit ++
    putString i.serverKexinit ++ putString i.hostKeyBlob ++ putString i.clientInit ++
    putString i.serverReply ++ putString i.sharedSecret

/-- The inputs that the types and `put_string` admit. -/
structure Sized (i : ExchangeHashInputs) : Prop where
  clientId : i.clientId.length < 2 ^ 32
  serverId : i.serverId.length < 2 ^ 32
  clientKexinit : i.clientKexinit.length < 2 ^ 32
  serverKexinit : i.serverKexinit.length < 2 ^ 32
  hostKeyBlob : i.hostKeyBlob.length < 2 ^ 32
  clientInit : i.clientInit.length < 2 ^ 32
  serverReply : i.serverReply.length < 2 ^ 32
  sharedSecret : i.sharedSecret.length = 32

end ExchangeHashInputs

theorem exchangeHash_eq (c : Crypto) (i : ExchangeHashInputs) :
    exchangeHash c i = c.sha256 i.serialized := rfl

/-- Each length says where its input ends, so no byte can move to a neighbour. -/
theorem eq_of_serialized_eq {i j : ExchangeHashInputs} (hi : i.Sized) (hj : j.Sized)
    (h : i.serialized = j.serialized) : i = j := by
  have hsecret : i.sharedSecret.length < 2 ^ 32 := by
    rw [hi.sharedSecret]
    decide
  have hsecret' : j.sharedSecret.length < 2 ^ 32 := by
    rw [hj.sharedSecret]
    decide
  simp only [ExchangeHashInputs.serialized, List.append_assoc] at h
  obtain ⟨hclientId, h⟩ := putString_append_inj hi.clientId hj.clientId h
  obtain ⟨hserverId, h⟩ := putString_append_inj hi.serverId hj.serverId h
  obtain ⟨hclientKexinit, h⟩ := putString_append_inj hi.clientKexinit hj.clientKexinit h
  obtain ⟨hserverKexinit, h⟩ := putString_append_inj hi.serverKexinit hj.serverKexinit h
  obtain ⟨hhostKeyBlob, h⟩ := putString_append_inj hi.hostKeyBlob hj.hostKeyBlob h
  obtain ⟨hclientInit, h⟩ := putString_append_inj hi.clientInit hj.clientInit h
  obtain ⟨hserverReply, h⟩ := putString_append_inj hi.serverReply hj.serverReply h
  rw [← List.append_nil (putString i.sharedSecret), ← List.append_nil (putString j.sharedSecret)] at h
  obtain ⟨hsharedSecret, -⟩ := putString_append_inj hsecret hsecret' h
  cases i
  cases j
  rw [ExchangeHashInputs.mk.injEq]
  exact ⟨hclientId, hserverId, hclientKexinit, hserverKexinit, hhostKeyBlob, hclientInit,
    hserverReply, hsharedSecret⟩

/-- Different inputs are hashed from different bytes. Where SHA-256 tells these apart, `H`
tells the inputs apart. -/
theorem exchange_hash_binds_inputs {i j : ExchangeHashInputs} (hi : i.Sized) (hj : j.Sized) :
    (i.serialized = j.serialized → i = j) ∧
      ∀ c : Crypto, (c.sha256 i.serialized = c.sha256 j.serialized → i.serialized = j.serialized) →
        i ≠ j → exchangeHash c i ≠ exchangeHash c j := by
  refine ⟨eq_of_serialized_eq hi hj, fun c hinjective hne h => hne ?_⟩
  rw [exchangeHash_eq, exchangeHash_eq] at h
  exact eq_of_serialized_eq hi hj (hinjective h)

/-- Inputs that differ in where the client's identification ends. -/
def splitAfter (n : ℕ) : ExchangeHashInputs where
  clientId := [1, 2, 3].take n
  serverId := [1, 2, 3].drop n
  clientKexinit := []
  serverKexinit := []
  hostKeyBlob := []
  clientInit := []
  serverReply := []
  sharedSecret := List.replicate 32 9

theorem sized_splitAfter (n : ℕ) : (splitAfter n).Sized := by
  have hsmall : 0 < 2 ^ 32 := by decide
  refine ⟨?_, ?_, hsmall, hsmall, hsmall, hsmall, hsmall, rfl⟩
  · refine lt_of_le_of_lt (List.length_take_le' ..) ?_
    decide
  · simp only [splitAfter, List.length_drop]
    exact lt_of_le_of_lt (Nat.sub_le ..) (by decide)

/-- A hash that tells strings apart by their first 32 bytes. -/
def firstBytes : Crypto where
  sha256 b := (b ++ List.replicate 32 0).take 32
  sha256_length b := by simp
  validEncapsulationKey _ := true
  encapsulate _ m := (m, m)
  x25519Public secret := secret
  diffieHellman secret _ := some secret

/-- A byte moved from one identification to the other gives another hash. -/
theorem exchange_hash_binds_inputs_shifted :
    exchangeHash firstBytes (splitAfter 1) ≠ exchangeHash firstBytes (splitAfter 2) := by
  have hapart : firstBytes.sha256 (splitAfter 1).serialized ≠
      firstBytes.sha256 (splitAfter 2).serialized := by decide
  exact (exchange_hash_binds_inputs (sized_splitAfter 1) (sized_splitAfter 2)).2 firstBytes
    (fun h => absurd h hapart) (by decide)

end QuantumSsh.Kex
