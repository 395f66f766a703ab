import QuantumSsh.Base64
import QuantumSsh.Cert
import QuantumSsh.Lib.Lists
import QuantumSsh.Lib.Text

/-!
# Key files

`parse_key_lines` of `auth.rs` and its two callers: `authorized_keys` and
`trusted_user_ca_keys`. A file loads whole or not at all; what it loads and which line
it is refused for.
-/

namespace QuantumSsh

namespace Composite.VerifyingKey

/-- The two halves of a key, `split_at(MLDSA_PUBLIC_LEN)`. -/
def ofHalves (keyBytes : Bytes) (h : keyBytes.length = publicLen) : VerifyingKey where
  mldsa := ⟨keyBytes.take mldsaPublicLen, by
    rw [List.length_take, h]
    decide⟩
  ed25519 := ⟨keyBytes.drop mldsaPublicLen, by
    rw [List.length_drop, h]
    decide⟩

/-- `composite::VerifyingKey::from_bytes`. -/
def fromBytes (sigs : Signatures) (keyBytes : Bytes) : Option VerifyingKey :=
  if h : keyBytes.length = publicLen then
    if sigs.ed25519Valid (ofHalves keyBytes h).ed25519 = false then none
    else if sigs.ed25519Weak (ofHalves keyBytes h).ed25519 then none
    else some (ofHalves keyBytes h)
  else none

theorem bytes_ofHalves (keyBytes : Bytes) (h : keyBytes.length = publicLen) :
    (ofHalves keyBytes h).bytes = keyBytes :=
  List.take_append_drop _ _

theorem length_bytes (key : VerifyingKey) : key.bytes.length = publicLen := by
  rw [bytes, List.length_append, key.mldsa.property, key.ed25519.property]
  rfl

end Composite.VerifyingKey

namespace Auth

open Wire Parser HostKey

/-! ### The lines of a file -/

/-- `Display` of a `WireError`. -/
def wireErrorText : WireError → String
  | .truncated => "input truncated"
  | .oversized declared bound => s!"declared length {declared} exceeds bound {bound}"
  | .badPacketLength length => s!"invalid packet_length {length}"
  | .badPadding => "invalid packet padding"
  | .trailingBytes count => s!"{count} trailing bytes after message"
  | .badMpint => "non-canonical mpint"
  | .badNameList => "malformed name-list"
  | .badIdentification => "malformed identification line"

/-- What is wrong with a malformed line. -/
inductive LineFault where
  | noKeyType
  | missingBase64
  | invalidBase64
  | blobTruncated
  | blobAlgorithm (found : Bytes) (expected : Text)
  | missingKeyBytes
  | trailingData (e : WireError)
  | ed25519Length (found : ℕ)
  | invalidEd25519
  | weakEd25519
  | invalidComposite
deriving DecidableEq

/-- The `reason` of a malformed line; `lossy` is `String::from_utf8_lossy`. -/
def LineFault.text (lossy : Bytes → String) : LineFault → String
  | .noKeyType => "no key type found"
  | .missingBase64 => "missing base64 key"
  | .invalidBase64 => "invalid base64"
  | .blobTruncated => "blob truncated or oversized"
  | .blobAlgorithm found expected =>
    "blob algorithm is '" ++ lossy found ++ "', expected '" ++ String.ofList expected ++ "'"
  | .missingKeyBytes => "missing key bytes in blob"
  | .trailingData e => "trailing data in blob: " ++ wireErrorText e
  | .ed25519Length found => s!"expected 32-byte Ed25519 key, got {found} bytes"
  | .invalidEd25519 => "invalid Ed25519 key bytes"
  | .weakEd25519 => "small-order (weak) Ed25519 key"
  | .invalidComposite => "invalid ssh-mldsa44-ed25519 key bytes"

/-- `AuthError`, for content that was read. -/
inductive AuthError where
  | malformedLine (line : ℕ) (reason : LineFault)
  | unsupportedKeyType (line : ℕ) (found expected : Text)
  | keyOptions (line : ℕ)
  | empty
deriving DecidableEq

/-- The line an error names. -/
def AuthError.line : AuthError → Option ℕ
  | .malformedLine line _ => some line
  | .unsupportedKeyType line _ _ => some line
  | .keyOptions line => some line
  | .empty => none

/-- `looks_like_key_type`. -/
def looksLikeKeyType (field : Text) : Bool :=
  "ssh-".toList.isPrefixOf field || "ecdsa-".toList.isPrefixOf field ||
    "sk-".toList.isPrefixOf field

/-- What a caller passes to `parse_key_lines`. -/
structure KeyFile (K : Type) where
  algorithm : Text
  keyBound : ℕ
  parse : (line : ℕ) → (keyBytes : Bytes) → Except AuthError K

variable {K : Type} (sigs : Signatures) (file : KeyFile K)

/-- The wire-format blob: the algorithm and the key, with nothing behind them. -/
def readKeyBlob (line : ℕ) : StateT Bytes (Except AuthError) Bytes := do
  let parsedAlgo ← mapErr (fun _ => .malformedLine line .blobTruncated) (Reader.string keyAlgoBound)
  if parsedAlgo ≠ Text.bytes file.algorithm then
    throw (.malformedLine line (.blobAlgorithm parsedAlgo file.algorithm))
  let keyBytes ← mapErr (fun _ => .malformedLine line .missingKeyBytes) (Reader.string file.keyBound)
  mapErr (fun e => .malformedLine line (.trailingData e)) Reader.finish
  return keyBytes

/-- One round of the loop of `parse_key_lines`; `none` is `continue`. -/
def parseLine (line : ℕ) (rawLine : Text) : Except AuthError (Option (KeyLine K)) := do
  let trimmed := Text.trim rawLine
  if trimmed = [] ∨ trimmed.head? = some '#' then return none
  let first := (Text.splitWhitespace trimmed).head?.getD []
  if !looksLikeKeyType first then throw (.keyOptions line)
  let tokens := Text.splitWhitespace trimmed
  let some algo := tokens[0]? | throw (.malformedLine line .noKeyType)
  if algo ≠ file.algorithm then throw (.unsupportedKeyType line algo file.algorithm)
  let some b64 := tokens[1]? | throw (.malformedLine line .missingBase64)
  let some blob := base64Decode (Text.bytes b64) | throw (.malformedLine line .invalidBase64)
  let (keyBytes, _) ← (readKeyBlob file line).run blob
  let key ← file.parse line keyBytes
  return some { blob, fingerprint := fingerprintSha256 sigs blob, key }

/-- The loop of `parse_key_lines`, from the line of this number on. -/
def parseLinesFrom : (line : ℕ) → List Text → List (KeyLine K) → Except AuthError (List (KeyLine K))
  | _, [], keys => .ok keys
  | line, rawLine :: rest, keys =>
    match parseLine sigs file line rawLine with
    | .error e => .error e
    | .ok none => parseLinesFrom (line + 1) rest keys
    | .ok (some key) => parseLinesFrom (line + 1) rest (keys ++ [key])

/-- `parse_key_lines`. -/
def parseKeyLines (content : Text) : Except AuthError (List (KeyLine K)) := do
  let keys ← parseLinesFrom sigs file 1 (Text.lines content) []
  if keys.isEmpty then throw .empty
  return keys

/-! ### What a line is -/

/-- A line of white space. -/
def isBlank (rawLine : Text) : Bool := rawLine.all Text.isWhitespace

/-- A line that starts with `#`, white space apart. -/
def isComment (rawLine : Text) : Bool :=
  rawLine.find? (fun c => !Text.isWhitespace c) = some '#'

/-- A line that is to hold a key. -/
def isEntry (rawLine : Text) : Bool := !isBlank rawLine && !isComment rawLine

theorem isEntry_iff {rawLine : Text} :
    isEntry rawLine = true ↔
      ¬(Text.trim rawLine = [] ∨ (Text.trim rawLine).head? = some '#') := by
  obtain ⟨before, after, hraw, hbefore, hafter⟩ := Text.trim_spec rawLine
  have hblank : isBlank rawLine = true ↔ Text.trim rawLine = [] := by
    rw [isBlank, List.all_eq_true, Text.trim_eq_nil]
  have hskip : before.find? (fun c => !Text.isWhitespace c) = none := by
    rw [List.find?_eq_none]
    intro c hc
    simp [hbefore c hc]
  cases htrim : Text.trim rawLine with
  | nil => simp [isEntry, hblank.2 htrim]
  | cons c rest =>
    have hc := Text.head_trim_ne htrim
    have hfind : rawLine.find? (fun c => !Text.isWhitespace c) = some c := by
      rw [hraw, htrim, List.find?_append, hskip, Option.none_or, List.cons_append,
        List.find?_cons_of_pos (by simp [hc])]
    have hnot : isBlank rawLine = false := by
      rw [Bool.eq_false_iff, Ne, hblank, htrim]
      simp
    simp [isEntry, hnot, isComment, hfind]

/-- The caller's file: its algorithm is a key type that fits, its parser accepts what `check`
admits and names the line it is given. -/
structure KeyFile.Serves (check : Bytes → K → Prop) : Prop where
  keyType : looksLikeKeyType file.algorithm = true
  fits : (Text.bytes file.algorithm).length ≤ keyAlgoBound
  bound : file.keyBound < 2 ^ 32
  accepts : ∀ line keyBytes key, file.parse line keyBytes = .ok key ↔ check keyBytes key
  names : ∀ line keyBytes e, file.parse line keyBytes = .error e → e.line = some line

/-- The line is `algorithm base64 [comment]`, its blob is the algorithm and a key that the
caller's check admits, and `key` is made of it. -/
structure IsKeyLine (check : Bytes → K → Prop) (rawLine : Text) (key : KeyLine K) : Prop where
  fields : ∃ b64 more, Text.splitWhitespace rawLine = file.algorithm :: b64 :: more ∧
    base64Decode (Text.bytes b64) = some key.blob
  blob : ∃ keyBytes, key.blob = putString (Text.bytes file.algorithm) ++ putString keyBytes ∧
    keyBytes.length ≤ file.keyBound ∧ check keyBytes key.key
  fingerprint : key.fingerprint = fingerprintSha256 sigs key.blob

variable {sigs file} {check : Bytes → K → Prop}

theorem readKeyBlob_ok (hserves : file.Serves check) {line : ℕ} {blob keyBytes rest : Bytes} :
    (readKeyBlob file line).run blob = .ok (keyBytes, rest) ↔
      (blob = putString (Text.bytes file.algorithm) ++ putString keyBytes ∧
        keyBytes.length ≤ file.keyBound) ∧ rest = [] := by
  have hfits : (Text.bytes file.algorithm).length < 2 ^ 32 :=
    lt_of_le_of_lt hserves.fits (by decide)
  simp only [readKeyBlob, run_bind_ok, run_mapErr_ok, Reader.string_ok]
  constructor
  · rintro ⟨parsedAlgo, _, ⟨⟨hbound, hlen⟩, rfl⟩, h⟩
    rw [run_check_ok] at h
    obtain ⟨halgo, h⟩ := h
    simp only [run_bind_ok, run_mapErr_ok, Reader.string_ok, Reader.finish_ok, run_pure_ok] at h
    obtain ⟨_, _, ⟨⟨hbound', hlen'⟩, rfl⟩, _, _, ⟨rfl, rfl⟩, rfl, rfl⟩ := h
    rw [not_ne_iff.1 halgo, List.append_nil]
    exact ⟨⟨rfl, hbound'⟩, rfl⟩
  · rintro ⟨⟨rfl, hbound⟩, rfl⟩
    refine ⟨Text.bytes file.algorithm, putString keyBytes, ⟨⟨hserves.fits, hfits⟩, rfl⟩, ?_⟩
    rw [run_check_ok]
    refine ⟨not_ne_iff.2 rfl, ?_⟩
    simp only [run_bind_ok, run_mapErr_ok, Reader.string_ok, Reader.finish_ok, run_pure_ok]
    exact ⟨keyBytes, [], ⟨⟨hbound, lt_of_le_of_lt hbound hserves.bound⟩, (List.append_nil _).symm⟩,
      (), [], ⟨rfl, rfl⟩, rfl, rfl⟩

theorem line_of_readKeyBlob_error {line : ℕ} {blob : Bytes} {e : AuthError}
    (h : (readKeyBlob file line).run blob = .error e) : e.line = some line := by
  simp only [readKeyBlob, run_bind_error, run_mapErr_error] at h
  obtain ⟨_, -, rfl⟩ | ⟨_, _, -, h⟩ := h
  · rfl
  · rw [run_check_error] at h
    obtain ⟨-, rfl⟩ | ⟨-, h⟩ := h
    · rfl
    · simp only [run_bind_error, run_mapErr_error] at h
      obtain ⟨_, -, rfl⟩ | ⟨_, _, -, ⟨_, -, rfl⟩ | ⟨_, _, -, h⟩⟩ := h
      · rfl
      · rfl
      · exact absurd h run_pure_error

theorem parseLine_of_not_isEntry {line : ℕ} {rawLine : Text} (h : isEntry rawLine = false) :
    parseLine sigs file line rawLine = .ok none := by
  have hskip : Text.trim rawLine = [] ∨ (Text.trim rawLine).head? = some '#' := by
    by_contra hnot
    rw [isEntry_iff.2 hnot] at h
    cases h
  rw [parseLine, if_pos hskip]
  rfl

/-- The round for an entry, with the fields of the line as it stands. -/
theorem parseLine_of_isEntry {line : ℕ} {rawLine : Text} (h : isEntry rawLine = true) :
    parseLine sigs file line rawLine =
      if !looksLikeKeyType ((Text.splitWhitespace rawLine).head?.getD []) then
        .error (.keyOptions line)
      else match Text.splitWhitespace rawLine with
        | [] => .error (.malformedLine line .noKeyType)
        | algo :: fields =>
          if algo ≠ file.algorithm then .error (.unsupportedKeyType line algo file.algorithm)
          else match fields with
            | [] => .error (.malformedLine line .missingBase64)
            | b64 :: _ => match base64Decode (Text.bytes b64) with
              | none => .error (.malformedLine line .invalidBase64)
              | some blob => match (readKeyBlob file line).run blob with
                | .error e => .error e
                | .ok (keyBytes, _) => match file.parse line keyBytes with
                  | .error e => .error e
                  | .ok key => .ok (some ⟨blob, fingerprintSha256 sigs blob, key⟩) := by
  rw [parseLine, if_neg (isEntry_iff.1 h)]
  simp only [Text.splitWhitespace_trim]
  split
  · rfl
  · cases Text.splitWhitespace rawLine with
    | nil => rfl
    | cons algo fields =>
      simp only [List.getElem?_cons_zero, List.getElem?_cons_succ]
      split
      · rfl
      · cases fields with
        | nil => rfl
        | cons b64 more =>
          simp only [List.getElem?_cons_zero]
          cases base64Decode (Text.bytes b64) with
          | none => rfl
          | some blob =>
            simp only
            cases (readKeyBlob file line).run blob with
            | error e => rfl
            | ok v =>
              obtain ⟨keyBytes, rest⟩ := v
              simp only [bind, Except.bind]
              cases file.parse line keyBytes with
              | error e => rfl
              | ok key => rfl

theorem line_of_parseLine_error (hserves : file.Serves check) {line : ℕ} {rawLine : Text}
    {e : AuthError} (h : parseLine sigs file line rawLine = .error e) : e.line = some line := by
  cases hentry : isEntry rawLine with
  | false =>
    rw [parseLine_of_not_isEntry hentry] at h
    cases h
  | true =>
    rw [parseLine_of_isEntry hentry] at h
    split at h
    next => cases h; rfl
    next =>
      split at h
      next => cases h; rfl
      next =>
        split at h
        next => cases h; rfl
        next =>
          split at h
          next => cases h; rfl
          next =>
            split at h
            next => cases h; rfl
            next =>
              split at h
              next hblob => cases h; exact line_of_readKeyBlob_error hblob
              next =>
                split at h
                next hparse => cases h; exact hserves.names _ _ _ hparse
                next => cases h

/-- An entry gives a key exactly when it is a key line, and then the key of that line. -/
theorem parseLine_ok (hserves : file.Serves check) {line : ℕ} {rawLine : Text}
    (hentry : isEntry rawLine = true) {r : Option (KeyLine K)} :
    parseLine sigs file line rawLine = .ok r ↔
      ∃ key, r = some key ∧ IsKeyLine sigs file check rawLine key := by
  rw [parseLine_of_isEntry hentry]
  constructor
  · intro h
    split at h
    next => cases h
    next =>
      split at h
      next => cases h
      next algo fields hfields =>
        split at h
        next => cases h
        next halgo =>
          obtain rfl := not_ne_iff.1 halgo
          split at h
          next => cases h
          next b64 more =>
            split at h
            next => cases h
            next blob hdecode =>
              split at h
              next => cases h
              next keyBytes rest hblob =>
                split at h
                next => cases h
                next key hparse =>
                  cases h
                  obtain ⟨⟨hblob, hbound⟩, -⟩ := (readKeyBlob_ok hserves).1 hblob
                  have hcheck := (hserves.accepts _ _ _).1 hparse
                  exact ⟨_, rfl, ⟨b64, more, hfields, hdecode⟩, ⟨keyBytes, hblob, hbound, hcheck⟩, rfl⟩
  · rintro ⟨key, rfl, ⟨b64, more, hfields, hdecode⟩, ⟨keyBytes, hblob, hbound, hcheck⟩, hfinger⟩
    have hkeyType : ¬(!looksLikeKeyType ((Text.splitWhitespace rawLine).head?.getD [])) = true := by
      rw [hfields]
      simp [hserves.keyType]
    have hread : (readKeyBlob file line).run key.blob = .ok (keyBytes, []) :=
      (readKeyBlob_ok hserves).2 ⟨⟨hblob, hbound⟩, rfl⟩
    rw [if_neg hkeyType, hfields]
    simp only [ne_eq, not_true_eq_false, if_false, hdecode, hread,
      (hserves.accepts line keyBytes key.key).2 hcheck]
    rw [← hfinger]

/-! ### What a file is -/

/-- The loop adds the keys of the entries, in their order. -/
theorem parseLinesFrom_ok (hserves : file.Serves check) {line : ℕ} {rawLines : List Text}
    {keys out : List (KeyLine K)} :
    parseLinesFrom sigs file line rawLines keys = .ok out ↔
      ∃ more, out = keys ++ more ∧
        List.Forall₂ (IsKeyLine sigs file check) (rawLines.filter isEntry) more := by
  induction rawLines generalizing line keys with
  | nil =>
    rw [parseLinesFrom, Except.ok.injEq, List.filter_nil]
    constructor
    · rintro rfl
      exact ⟨[], (List.append_nil keys).symm, .nil⟩
    · rintro ⟨more, rfl, hmore⟩
      cases hmore
      rw [List.append_nil]
  | cons rawLine rest ih =>
    rw [parseLinesFrom]
    cases hentry : isEntry rawLine with
    | false => rw [parseLine_of_not_isEntry hentry, ih, List.filter_cons_of_neg (by simp [hentry])]
    | true =>
      rw [List.filter_cons_of_pos hentry]
      cases hline : parseLine sigs file line rawLine with
      | error e =>
        refine iff_of_false (by simp) ?_
        rintro ⟨more, -, hmore⟩
        cases hmore with
        | cons hkey hmore =>
          rw [(parseLine_ok hserves hentry).2 ⟨_, rfl, hkey⟩] at hline
          cases hline
      | ok r =>
        obtain ⟨key, rfl, hkey⟩ := (parseLine_ok hserves hentry).1 hline
        simp only [ih]
        constructor
        · rintro ⟨more, rfl, hmore⟩
          exact ⟨key :: more, by simp, .cons hkey hmore⟩
        · rintro ⟨more, rfl, hmore⟩
          cases hmore with
          | cons hkey' hmore =>
            rw [(parseLine_ok hserves hentry).2 ⟨_, rfl, hkey'⟩] at hline
            cases hline
            exact ⟨_, by simp, hmore⟩

/-- The loop ends at the first entry that is no key line, with the number of that line. -/
theorem parseLinesFrom_error (hserves : file.Serves check) {line : ℕ} {before after : List Text}
    {bad : Text} {keys : List (KeyLine K)}
    (hbefore : ∀ rawLine ∈ before, isEntry rawLine = true →
      ∃ key, IsKeyLine sigs file check rawLine key)
    (hentry : isEntry bad = true) (hbad : ¬∃ key, IsKeyLine sigs file check bad key) :
    ∃ e, parseLinesFrom sigs file line (before ++ bad :: after) keys = .error e ∧
      e.line = some (line + before.length) := by
  induction before generalizing line keys with
  | nil =>
    rw [List.nil_append, parseLinesFrom]
    cases hline : parseLine sigs file line bad with
    | error e => exact ⟨e, rfl, line_of_parseLine_error hserves hline⟩
    | ok r =>
      obtain ⟨key, -, hkey⟩ := (parseLine_ok hserves hentry).1 hline
      exact absurd ⟨key, hkey⟩ hbad
  | cons rawLine before ih =>
    rw [List.forall_mem_cons] at hbefore
    have hnumber : line + (rawLine :: before).length = line + 1 + before.length := by
      rw [List.length_cons]
      omega
    rw [List.cons_append, parseLinesFrom, hnumber]
    cases hraw : isEntry rawLine with
    | false =>
      rw [parseLine_of_not_isEntry hraw]
      exact ih hbefore.2
    | true =>
      obtain ⟨key, hkey⟩ := hbefore.1 hraw
      rw [(parseLine_ok hserves hraw).2 ⟨key, rfl, hkey⟩]
      exact ih hbefore.2

variable (sigs file check)

/-- How a file loads. -/
structure LoadsExactly (content : Text) : Prop where
  /-- It loads when it has an entry and every entry is a key line. -/
  accepts : (∃ keys, parseKeyLines sigs file content = .ok keys) ↔
    (∃ rawLine ∈ Text.lines content, isEntry rawLine = true) ∧
      ∀ rawLine ∈ Text.lines content, isEntry rawLine = true →
        ∃ key, IsKeyLine sigs file check rawLine key
  /-- The keys are those of the entries, in file order. -/
  keys : ∀ keys, parseKeyLines sigs file content = .ok keys →
    List.Forall₂ (IsKeyLine sigs file check) ((Text.lines content).filter isEntry) keys
  /-- The first entry that is no key line fails the load, with its number. -/
  refuses : ∀ before bad after, Text.lines content = before ++ bad :: after →
    (∀ rawLine ∈ before, isEntry rawLine = true → ∃ key, IsKeyLine sigs file check rawLine key) →
    isEntry bad = true → (¬∃ key, IsKeyLine sigs file check bad key) →
    ∃ e, parseKeyLines sigs file content = .error e ∧ e.line = some (before.length + 1)
  /-- A file without entries is empty. -/
  empty : (∀ rawLine ∈ Text.lines content, isEntry rawLine = false) →
    parseKeyLines sigs file content = .error .empty

variable {sigs file check}

theorem parseKeyLines_ok (hserves : file.Serves check) {content : Text} {keys : List (KeyLine K)} :
    parseKeyLines sigs file content = .ok keys ↔
      keys ≠ [] ∧
        List.Forall₂ (IsKeyLine sigs file check) ((Text.lines content).filter isEntry) keys := by
  have hloop : ∀ out, parseLinesFrom sigs file 1 (Text.lines content) [] = .ok out ↔
      List.Forall₂ (IsKeyLine sigs file check) ((Text.lines content).filter isEntry) out := by
    intro out
    rw [parseLinesFrom_ok hserves]
    simp
  rw [parseKeyLines, ← hloop]
  cases parseLinesFrom sigs file 1 (Text.lines content) [] with
  | error e => simp [bind, Except.bind]
  | ok out =>
    cases out with
    | nil =>
      refine iff_of_false (fun h => ?_) (fun h => ?_)
      · cases h
      · obtain ⟨hne, ⟨⟩⟩ := h
        exact hne rfl
    | cons key out =>
      constructor
      · intro h
        cases h
        exact ⟨by simp, rfl⟩
      · rintro ⟨-, ⟨⟩⟩
        rfl

theorem loadsExactly (hserves : file.Serves check) (content : Text) :
    LoadsExactly sigs file check content where
  accepts := by
    constructor
    · rintro ⟨keys, hkeys⟩
      obtain ⟨hne, hall⟩ := (parseKeyLines_ok hserves).1 hkeys
      constructor
      · obtain ⟨key, hkey⟩ := List.exists_mem_of_ne_nil keys hne
        obtain ⟨rawLine, hraw, -⟩ := Lists.exists_mem_of_forall₂ hall.flip hkey
        obtain ⟨hmem, hentry⟩ := List.mem_filter.1 hraw
        exact ⟨rawLine, hmem, hentry⟩
      · intro rawLine hmem hentry
        obtain ⟨key, -, hkey⟩ := Lists.exists_mem_of_forall₂ hall (List.mem_filter.2 ⟨hmem, hentry⟩)
        exact ⟨key, hkey⟩
    · rintro ⟨⟨rawLine, hmem, hentry⟩, hall⟩
      obtain ⟨keys, hkeys⟩ := Lists.exists_forall₂ fun rawLine hraw =>
        hall rawLine (List.mem_filter.1 hraw).1 (List.mem_filter.1 hraw).2
      refine ⟨keys, (parseKeyLines_ok hserves).2 ⟨?_, hkeys⟩⟩
      rintro rfl
      obtain ⟨_, hnil, -⟩ := Lists.exists_mem_of_forall₂ hkeys (List.mem_filter.2 ⟨hmem, hentry⟩)
      exact absurd hnil List.not_mem_nil
  keys := fun keys hkeys => ((parseKeyLines_ok hserves).1 hkeys).2
  refuses := by
    intro before bad after hlines hbefore hentry hbad
    obtain ⟨e, herror, hline⟩ := @parseLinesFrom_error _ sigs file check hserves 1 before after bad
      [] hbefore hentry hbad
    refine ⟨e, ?_, by rw [hline, Nat.add_comm]⟩
    rw [parseKeyLines, hlines, herror]
    rfl
  empty := by
    intro hnone
    have hloop : parseLinesFrom sigs file 1 (Text.lines content) [] = .ok [] := by
      rw [parseLinesFrom_ok hserves, List.filter_eq_nil_iff.2 (by simpa using hnone)]
      exact ⟨[], rfl, .nil⟩
    rw [parseKeyLines, hloop]
    rfl

/-! ### The two callers -/

variable (sigs)

/-- The `parse` of `parse_key_file`. -/
def parseEd25519 (line : ℕ) (keyBytes : Bytes) : Except AuthError (FixedBytes 32) :=
  if h : keyBytes.length = 32 then
    if sigs.ed25519Valid ⟨keyBytes, h⟩ = false then .error (.malformedLine line .invalidEd25519)
    else if sigs.ed25519Weak ⟨keyBytes, h⟩ then .error (.malformedLine line .weakEd25519)
    else .ok ⟨keyBytes, h⟩
  else .error (.malformedLine line (.ed25519Length keyBytes.length))

/-- The `parse` of `TrustedUserCaKeys::parse`. -/
def parseComposite (line : ℕ) (keyBytes : Bytes) : Except AuthError Composite.VerifyingKey :=
  match Composite.VerifyingKey.fromBytes sigs keyBytes with
  | some key => .ok key
  | none => .error (.malformedLine line .invalidComposite)

/-- What `parse_key_file` passes. -/
def authorizedKeysFile : KeyFile (FixedBytes 32) where
  algorithm := "ssh-ed25519".toList
  keyBound := 64
  parse := parseEd25519 sigs

/-- What `TrustedUserCaKeys::parse` passes. -/
def trustedUserCaKeysFile : KeyFile Composite.VerifyingKey where
  algorithm := "ssh-mldsa44-ed25519".toList
  keyBound := Composite.publicLen
  parse := parseComposite sigs

/-- The Ed25519 keys that are points and not weak. -/
def IsEd25519Key (keyBytes : Bytes) (key : FixedBytes 32) : Prop :=
  key.val = keyBytes ∧ sigs.ed25519Valid key = true ∧ sigs.ed25519Weak key = false

/-- The composite keys whose Ed25519 half is one. -/
def IsCompositeKey (keyBytes : Bytes) (key : Composite.VerifyingKey) : Prop :=
  key.bytes = keyBytes ∧ sigs.ed25519Valid key.ed25519 = true ∧
    sigs.ed25519Weak key.ed25519 = false

variable {sigs}

theorem parseEd25519_ok {line : ℕ} {keyBytes : Bytes} {key : FixedBytes 32} :
    parseEd25519 sigs line keyBytes = .ok key ↔ IsEd25519Key sigs keyBytes key := by
  constructor
  · intro h
    rw [parseEd25519] at h
    split at h
    next hlen =>
      split at h
      next => cases h
      next hvalid =>
        split at h
        next => cases h
        next hweak =>
          cases h
          exact ⟨rfl, by simpa using hvalid, by simpa using hweak⟩
    next => cases h
  · rintro ⟨rfl, hvalid, hweak⟩
    rw [parseEd25519, dif_pos key.property, if_neg (by simp [hvalid]), if_neg (by simp [hweak])]

theorem line_of_parseEd25519_error {line : ℕ} {keyBytes : Bytes} {e : AuthError}
    (h : parseEd25519 sigs line keyBytes = .error e) : e.line = some line := by
  rw [parseEd25519] at h
  split at h
  next =>
    split at h
    next => cases h; rfl
    next =>
      split at h
      next => cases h; rfl
      next => cases h
  next => cases h; rfl

theorem fromBytes_eq_some {keyBytes : Bytes} {key : Composite.VerifyingKey} :
    Composite.VerifyingKey.fromBytes sigs keyBytes = some key ↔ IsCompositeKey sigs keyBytes key := by
  constructor
  · intro h
    rw [Composite.VerifyingKey.fromBytes] at h
    split at h
    next hlen =>
      split at h
      next => cases h
      next hvalid =>
        split at h
        next => cases h
        next hweak =>
          cases h
          exact ⟨Composite.VerifyingKey.bytes_ofHalves .., by simpa using hvalid,
            by simpa using hweak⟩
    next => cases h
  · rintro ⟨rfl, hvalid, hweak⟩
    have hhalves : Composite.VerifyingKey.ofHalves key.bytes key.length_bytes = key :=
      Composite.VerifyingKey.bytes_inj (Composite.VerifyingKey.bytes_ofHalves ..)
    rw [Composite.VerifyingKey.fromBytes, dif_pos key.length_bytes, hhalves,
      if_neg (by simp [hvalid]), if_neg (by simp [hweak])]

theorem serves_authorizedKeysFile : (authorizedKeysFile sigs).Serves (IsEd25519Key sigs) where
  keyType := by
    have hprefix : looksLikeKeyType "ssh-ed25519".toList = true := by decide
    exact hprefix
  fits := by
    have hfits : (Text.bytes "ssh-ed25519".toList).length ≤ keyAlgoBound := by decide
    exact hfits
  bound := by
    have hbound : 64 < 2 ^ 32 := by decide
    exact hbound
  accepts := fun _ _ _ => parseEd25519_ok
  names := fun _ _ _ => line_of_parseEd25519_error

theorem serves_trustedUserCaKeysFile :
    (trustedUserCaKeysFile sigs).Serves (IsCompositeKey sigs) where
  keyType := by
    have hprefix : looksLikeKeyType "ssh-mldsa44-ed25519".toList = true := by decide
    exact hprefix
  fits := by
    have hfits : (Text.bytes "ssh-mldsa44-ed25519".toList).length ≤ keyAlgoBound := by
      decide
    exact hfits
  bound := by
    have hbound : Composite.publicLen < 2 ^ 32 := by decide
    exact hbound
  accepts := by
    intro line keyBytes key
    change parseComposite sigs line keyBytes = .ok key ↔ _
    rw [← fromBytes_eq_some, parseComposite]
    cases Composite.VerifyingKey.fromBytes sigs keyBytes with
    | none => simp
    | some key' => simp
  names := by
    intro line keyBytes e h
    change parseComposite sigs line keyBytes = .error e at h
    rw [parseComposite] at h
    split at h
    next => cases h
    next => cases h; rfl

theorem built_authorizedKeys {content : Text} {keys : List (KeyLine (FixedBytes 32))}
    (h : parseKeyLines sigs (authorizedKeysFile sigs) content = .ok keys) :
    ∀ line ∈ keys, line.Built sigs keyAlgorithm Subtype.val := by
  have halgorithm : Text.bytes "ssh-ed25519".toList = keyAlgorithm := by decide
  intro line hline
  have hall := ((parseKeyLines_ok serves_authorizedKeysFile).1 h).2
  obtain ⟨rawLine, -, hkey⟩ := Lists.exists_mem_of_forall₂ hall.flip hline
  obtain ⟨keyBytes, hblob, -, rfl, -⟩ := hkey.blob
  exact ⟨by rw [hblob, ← halgorithm]; rfl, hkey.fingerprint⟩

theorem built_trustedUserCaKeys {content : Text} {keys : List (KeyLine Composite.VerifyingKey)}
    (h : parseKeyLines sigs (trustedUserCaKeysFile sigs) content = .ok keys) :
    ∀ line ∈ keys, line.Built sigs Composite.algorithm Composite.VerifyingKey.bytes := by
  have halgorithm : Text.bytes "ssh-mldsa44-ed25519".toList = Composite.algorithm := by
    decide
  intro line hline
  have hall := ((parseKeyLines_ok serves_trustedUserCaKeysFile).1 h).2
  obtain ⟨rawLine, -, hkey⟩ := Lists.exists_mem_of_forall₂ hall.flip hline
  obtain ⟨keyBytes, hblob, -, rfl, -⟩ := hkey.blob
  exact ⟨by rw [hblob, ← halgorithm]; rfl, hkey.fingerprint⟩

variable (sigs)

/-- `AuthorizedKeys::parse`. -/
def AuthorizedKeys.parse (content : Text) : Except AuthError (AuthorizedKeys sigs) :=
  match h : parseKeyLines sigs (authorizedKeysFile sigs) content with
  | .error e => .error e
  | .ok keys => .ok ⟨keys, built_authorizedKeys h⟩

/-- Both kinds of file load exactly. The keys of an `authorized_keys` file are found by the
blobs of its entries and by no others. -/
theorem key_files_load_exactly (content : Text) :
    LoadsExactly sigs (authorizedKeysFile sigs) (IsEd25519Key sigs) content ∧
    LoadsExactly sigs (trustedUserCaKeysFile sigs) (IsCompositeKey sigs) content ∧
    ∀ authorized, AuthorizedKeys.parse sigs content = .ok authorized → ∀ keyBlob,
      (∃ key, authorized.lookup keyBlob = some key) ↔
        ∃ rawLine ∈ Text.lines content, isEntry rawLine = true ∧
          ∃ key, IsKeyLine sigs (authorizedKeysFile sigs) (IsEd25519Key sigs) rawLine key ∧
            key.blob = keyBlob := by
  refine ⟨loadsExactly serves_authorizedKeysFile content,
    loadsExactly serves_trustedUserCaKeysFile content, fun authorized hparse keyBlob => ?_⟩
  have hkeys : parseKeyLines sigs (authorizedKeysFile sigs) content = .ok authorized.keys := by
    rw [AuthorizedKeys.parse] at hparse
    split at hparse
    next => cases hparse
    next keys hkeys =>
      cases hparse
      exact hkeys
  have hall := ((parseKeyLines_ok serves_authorizedKeysFile).1 hkeys).2
  rw [← Option.isSome_iff_exists, AuthorizedKeys.lookup, List.find?_isSome]
  simp only [decide_eq_true_eq]
  constructor
  · rintro ⟨key, hmem, hblob⟩
    obtain ⟨rawLine, hraw, hkey⟩ := Lists.exists_mem_of_forall₂ hall.flip hmem
    obtain ⟨hline, hentry⟩ := List.mem_filter.1 hraw
    exact ⟨rawLine, hline, hentry, key, hkey, hblob⟩
  · rintro ⟨rawLine, hline, hentry, key, hkey, hblob⟩
    obtain ⟨key', hmem, hkey'⟩ :=
      Lists.exists_mem_of_forall₂ hall (List.mem_filter.2 ⟨hline, hentry⟩)
    refine ⟨key', hmem, ?_⟩
    -- one line has one blob: its second field decodes in one way
    obtain ⟨b64, more, hfields, hdecode⟩ := hkey.fields
    obtain ⟨b64', more', hfields', hdecode'⟩ := hkey'.fields
    rw [hfields] at hfields'
    cases hfields'
    rw [hdecode, Option.some.injEq] at hdecode'
    rw [← hdecode', hblob]

end Auth

/-- `TrustedUserCaKeys::parse`. -/
def Cert.TrustedUserCaKeys.parse (sigs : Signatures) (content : Text) :
    Except Auth.AuthError (Cert.TrustedUserCaKeys sigs) :=
  match h : Auth.parseKeyLines sigs (Auth.trustedUserCaKeysFile sigs) content with
  | .error e => .error e
  | .ok keys => .ok ⟨keys, Auth.built_trustedUserCaKeys h⟩

end QuantumSsh
