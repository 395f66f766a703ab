import Mathlib.Data.List.DropRight
import QuantumSsh.Keys

/-!
# Base64

The standard alphabet as `host_key.rs` writes and reads it: the encoder pads to a
multiple of four, the decoder passes over white space and over one padding at the end.
Decoding gives back what was encoded. The other way round a text that decodes is the
encoding of what it decodes to, but for the bits that its last character has left over.
-/

namespace QuantumSsh.HostKey

/-- The loop of `base64_encode` that pads to four characters; `fuel` bounds its rounds. -/
def padToFour : (fuel : ℕ) → Bytes → Bytes
  | 0, out => out
  | fuel + 1, out => if out.length % 4 ≠ 0 then padToFour fuel (out ++ [0x3d]) else out

/-- `base64_encode`. At most three characters are missing. -/
def base64Encode (input : Bytes) : Bytes := padToFour 3 (base64EncodeNopad input)

/-- `value` of `base64_decode`. -/
def base64Value (c : UInt8) : Option ℕ :=
  if 0x41 ≤ c ∧ c ≤ 0x5a then some (c.toNat - 0x41)
  else if 0x61 ≤ c ∧ c ≤ 0x7a then some (c.toNat - 0x61 + 26)
  else if 0x30 ≤ c ∧ c ≤ 0x39 then some (c.toNat - 0x30 + 52)
  else if c = 0x2b then some 62
  else if c = 0x2f then some 63
  else none

/-- `u8::is_ascii_whitespace`. -/
def isAsciiWhitespace (c : UInt8) : Bool :=
  c = 0x20 || c = 0x09 || c = 0x0a || c = 0x0c || c = 0x0d

/-- `strip_suffix(b"==")`, else `strip_suffix(b"=")`, else all of it. -/
def stripPadding (trimmed : Bytes) : Bytes :=
  if [0x3d, 0x3d] <:+ trimmed then trimmed.dropLast.dropLast
  else if [0x3d] <:+ trimmed then trimmed.dropLast
  else trimmed

/-- The chunks of four characters. -/
def decodeChunks : Bytes → Option Bytes
  | [] => some []
  | [_] => none
  | [a, b] => do
    let n := (← base64Value a) * 2 ^ 6 + (← base64Value b)
    return [UInt8.ofNat (n * 2 ^ 12 / 2 ^ 16)]
  | [a, b, c] => do
    let n := ((← base64Value a) * 2 ^ 6 + (← base64Value b)) * 2 ^ 6 + (← base64Value c)
    return [UInt8.ofNat (n * 2 ^ 6 / 2 ^ 16), UInt8.ofNat (n * 2 ^ 6 / 2 ^ 8)]
  | a :: b :: c :: d :: rest => do
    let n := (((← base64Value a) * 2 ^ 6 + (← base64Value b)) * 2 ^ 6 + (← base64Value c)) * 2 ^ 6 +
      (← base64Value d)
    let out ← decodeChunks rest
    return UInt8.ofNat (n / 2 ^ 16) :: UInt8.ofNat (n / 2 ^ 8) :: UInt8.ofNat n :: out

/-- `base64_decode`. -/
def base64Decode (input : Bytes) : Option Bytes :=
  let unpadded := stripPadding (input.filter fun c => !isAsciiWhitespace c)
  if unpadded.length % 4 = 1 then none else decodeChunks unpadded

/-! ### The alphabet -/

/-- A character of the encoding. -/
def IsBase64 (c : UInt8) : Prop := ∃ i < 64, c = b64Alphabet.getD i 0

theorem base64Value_alphabet {i : ℕ} (h : i < 64) : base64Value (b64Alphabet.getD i 0) = some i := by
  have hall : ∀ i : Fin 64, base64Value (b64Alphabet.getD i 0) = some i.val := by decide +kernel
  exact hall ⟨i, h⟩

theorem IsBase64.spec {c : UInt8} (h : IsBase64 c) : c ≠ 0x3d ∧ isAsciiWhitespace c = false := by
  obtain ⟨i, hi, rfl⟩ := h
  have hall : ∀ i : Fin 64, b64Alphabet.getD i 0 ≠ 0x3d ∧
      isAsciiWhitespace (b64Alphabet.getD i 0) = false := by decide
  exact hall ⟨i, hi⟩

theorem isBase64_base64Chars (a b c : UInt8) : ∀ x ∈ base64Chars a b c, IsBase64 x := by
  intro x hx
  obtain ⟨i, hi, rfl⟩ := List.mem_map.1 hx
  refine ⟨i, ?_, rfl⟩
  simp only [List.mem_cons, List.not_mem_nil, or_false] at hi
  omega

theorem isBase64_base64EncodeNopad (input : Bytes) :
    ∀ c ∈ base64EncodeNopad input, IsBase64 c := by
  fun_induction base64EncodeNopad input with
  | case1 => simp
  | case2 a => exact fun c hc => isBase64_base64Chars a 0 0 c (List.mem_of_mem_take hc)
  | case3 a b => exact fun c hc => isBase64_base64Chars a b 0 c (List.mem_of_mem_take hc)
  | case4 a b c rest ih =>
    intro x hx
    rcases List.mem_append.1 hx with hx | hx
    · exact isBase64_base64Chars a b c x hx
    · exact ih x hx

/-! ### Decoding what was encoded -/

theorem ofNat_eq_of_mod {n : ℕ} {b : UInt8} (h : n % 256 = b.toNat) : UInt8.ofNat n = b := by
  apply UInt8.toNat_inj.1
  rw [UInt8.toNat_ofNat']
  exact h

/-- Three bytes come back from their four characters. -/
theorem decodeChunks_base64Chars (a b c : UInt8) (rest : Bytes) :
    decodeChunks (base64Chars a b c ++ rest) = (decodeChunks rest).map ([a, b, c] ++ ·) := by
  have ha := a.toNat_lt
  have hb := b.toNat_lt
  have hc := c.toNat_lt
  simp only [base64Chars, List.map_cons, List.map_nil, List.cons_append, List.nil_append]
  rw [decodeChunks]
  iterate 4 rw [base64Value_alphabet (Nat.mod_lt _ (by decide))]
  cases decodeChunks rest with
  | none => rfl
  | some out =>
    simp only [Option.bind_eq_bind, Option.bind_some, Option.map_some, Option.pure_def]
    rw [ofNat_eq_of_mod (b := a) (by omega), ofNat_eq_of_mod (b := b) (by omega),
      ofNat_eq_of_mod (b := c) (by omega)]

theorem decodeChunks_base64EncodeNopad (input : Bytes) :
    decodeChunks (base64EncodeNopad input) = some input := by
  fun_induction base64EncodeNopad input with
  | case1 => rfl
  | case2 a =>
    have ha := a.toNat_lt
    simp only [base64Chars, List.map_cons, List.map_nil, List.take_succ_cons, List.take_zero]
    rw [decodeChunks]
    iterate 2 rw [base64Value_alphabet (Nat.mod_lt _ (by decide))]
    simp only [Option.bind_eq_bind, Option.bind_some, Option.pure_def, UInt8.toNat_zero]
    rw [ofNat_eq_of_mod (b := a) (by omega)]
  | case3 a b =>
    have ha := a.toNat_lt
    have hb := b.toNat_lt
    simp only [base64Chars, List.map_cons, List.map_nil, List.take_succ_cons, List.take_zero]
    rw [decodeChunks]
    iterate 3 rw [base64Value_alphabet (Nat.mod_lt _ (by decide))]
    simp only [Option.bind_eq_bind, Option.bind_some, Option.pure_def, UInt8.toNat_zero]
    rw [ofNat_eq_of_mod (b := a) (by omega), ofNat_eq_of_mod (b := b) (by omega)]
  | case4 a b c rest ih =>
    rw [decodeChunks_base64Chars, ih]
    rfl

/-- The length of an encoding leaves one character over in no chunk. -/
theorem length_base64EncodeNopad (input : Bytes) :
    (base64EncodeNopad input).length = (input.length * 4 + 2) / 3 := by
  fun_induction base64EncodeNopad input with
  | case1 => rfl
  | case2 a => simp [base64Chars]
  | case3 a b => simp [base64Chars]
  | case4 a b c rest ih =>
    rw [List.length_append, ih]
    simp only [base64Chars, List.length_map, List.length_cons, List.length_nil]
    omega

/-! ### Padding -/

theorem padToFour_eq {fuel n : ℕ} {out : Bytes} (hn : n ≤ fuel) (hlt : n < 4)
    (h : (out.length + n) % 4 = 0) : padToFour fuel out = out ++ List.replicate n 0x3d := by
  induction fuel generalizing out n with
  | zero =>
    obtain rfl : n = 0 := by omega
    simp [padToFour]
  | succ fuel ih =>
    rw [padToFour]
    cases n with
    | zero => rw [if_neg (by omega), List.replicate_zero, List.append_nil]
    | succ n =>
      rw [if_pos (by omega), ih (n := n) (by omega) (by omega)
        (by rw [List.length_append, List.length_singleton]; omega), List.append_assoc]
      rfl

/-- The encoding is filled up with at most two `=`. -/
theorem base64Encode_eq (input : Bytes) :
    ∃ n ≤ 2, base64Encode input = base64EncodeNopad input ++ List.replicate n 0x3d ∧
      ((base64EncodeNopad input).length + n) % 4 = 0 := by
  have hlen := length_base64EncodeNopad input
  refine ⟨(4 - (base64EncodeNopad input).length % 4) % 4, by omega, ?_, by omega⟩
  exact padToFour_eq (by omega) (by omega) (by omega)

theorem stripPadding_append {b : Bytes} {n : ℕ} (h : ∀ c ∈ b, c ≠ 0x3d) (hn : n ≤ 2) :
    stripPadding (b ++ List.replicate n 0x3d) = b := by
  have hlast : ¬[0x3d] <:+ b := by
    intro hsuffix
    exact h 0x3d (hsuffix.subset List.mem_cons_self) rfl
  have hlast' : ¬[0x3d, 0x3d] <:+ b := by
    intro hsuffix
    exact h 0x3d (hsuffix.subset List.mem_cons_self) rfl
  match n, hn with
  | 0, _ =>
    rw [List.replicate_zero, List.append_nil, stripPadding, if_neg hlast', if_neg hlast]
  | 1, _ =>
    have hone : ¬[0x3d, 0x3d] <:+ b ++ [0x3d] := by
      rintro ⟨front, hfront⟩
      have hfront' : (front ++ [0x3d]) ++ [0x3d] = b ++ [0x3d] := by rw [← hfront]; simp
      exact hlast ⟨front, List.append_cancel_right hfront'⟩
    rw [List.replicate_one, stripPadding, if_neg hone, if_pos (List.suffix_append b _),
      List.dropLast_concat]
  | 2, _ =>
    have htwo : b ++ [0x3d, 0x3d] = b ++ [0x3d] ++ [0x3d] := by simp
    change stripPadding (b ++ [0x3d, 0x3d]) = b
    rw [stripPadding, if_pos (List.suffix_append b _), htwo, List.dropLast_concat,
      List.dropLast_concat]

/-- The encoding with up to two `=` behind it decodes to what was encoded. -/
theorem base64Decode_padded (input : Bytes) {n : ℕ} (hn : n ≤ 2) :
    base64Decode (base64EncodeNopad input ++ List.replicate n 0x3d) = some input := by
  have hchars := isBase64_base64EncodeNopad input
  have hkeep : (base64EncodeNopad input ++ List.replicate n 0x3d).filter
      (fun c => !isAsciiWhitespace c) = base64EncodeNopad input ++ List.replicate n 0x3d := by
    rw [List.filter_eq_self]
    intro c hc
    rcases List.mem_append.1 hc with hc | hc
    · simp [(hchars c hc).spec.2]
    · rw [(List.mem_replicate.1 hc).2]
      decide
  have hlen := length_base64EncodeNopad input
  rw [base64Decode, hkeep]
  simp only [stripPadding_append (fun c hc => (hchars c hc).spec.1) hn]
  rw [if_neg (by omega), decodeChunks_base64EncodeNopad]

theorem base64Decode_base64Encode (input : Bytes) :
    base64Decode (base64Encode input) = some input := by
  obtain ⟨n, hn, heq, -⟩ := base64Encode_eq input
  rw [heq, base64Decode_padded input hn]

/-- The characters of a padded encoding. -/
theorem mem_base64Encode {input : Bytes} {c : UInt8} (h : c ∈ base64Encode input) :
    IsBase64 c ∨ c = 0x3d := by
  obtain ⟨n, -, heq, -⟩ := base64Encode_eq input
  rw [heq] at h
  obtain h | h := List.mem_append.1 h
  · exact .inl (isBase64_base64EncodeNopad input c h)
  · exact .inr (List.mem_replicate.1 h).2

/-! ### White space -/

/-- The first text is the second with white space put in anywhere. -/
inductive Spaced : Bytes → Bytes → Prop
  | nil : Spaced [] []
  | space {c : UInt8} {text b : Bytes} (hc : isAsciiWhitespace c = true) (h : Spaced text b) :
      Spaced (c :: text) b
  | char {text b : Bytes} (c : UInt8) (h : Spaced text b) : Spaced (c :: text) (c :: b)

theorem Spaced.filter {text b : Bytes} (h : Spaced text b) :
    text.filter (fun c => !isAsciiWhitespace c) = b.filter fun c => !isAsciiWhitespace c := by
  induction h with
  | nil => rfl
  | space hc h ih => rw [List.filter_cons_of_neg (by simp [hc]), ih]
  | char c h ih =>
    by_cases hc : isAsciiWhitespace c
    · rw [List.filter_cons_of_neg (by simp [hc]), List.filter_cons_of_neg (by simp [hc]), ih]
    · rw [List.filter_cons_of_pos (by simpa using hc), List.filter_cons_of_pos (by simpa using hc),
        ih]

theorem base64Decode_spaced {text b : Bytes} (h : Spaced text b) :
    base64Decode text = base64Decode b := by
  simp only [base64Decode, h.filter]

/-- What was encoded, with padding or without and with white space anywhere, decodes to itself;
so no two byte strings have one encoding. -/
theorem base64_round_trip (b : Bytes) :
    (∀ text, Spaced text (base64Encode b) → base64Decode text = some b) ∧
      (∀ text, Spaced text (base64EncodeNopad b) → base64Decode text = some b) ∧
      (∀ b', base64Encode b' = base64Encode b → b' = b) ∧
      ∀ b', base64EncodeNopad b' = base64EncodeNopad b → b' = b := by
  have hnopad : ∀ b, base64Decode (base64EncodeNopad b) = some b := by
    intro b
    have hpadded := base64Decode_padded b (Nat.zero_le 2)
    rwa [List.replicate_zero, List.append_nil] at hpadded
  refine ⟨fun text h => ?_, fun text h => ?_, fun b' h => ?_, fun b' h => ?_⟩
  · rw [base64Decode_spaced h, base64Decode_base64Encode]
  · rw [base64Decode_spaced h, hnopad]
  · have hdecode := base64Decode_base64Encode b'
    rw [h, base64Decode_base64Encode] at hdecode
    exact (Option.some.inj hdecode).symm
  · have hdecode := hnopad b'
    rw [h, hnopad] at hdecode
    exact (Option.some.inj hdecode).symm

theorem base64_round_trip_spaced :
    base64Decode [0x20, 0x51, 0x0a, 0x51, 0x3d, 0x3d] = some [0x41] :=
  (base64_round_trip [0x41]).1 _
    (.space rfl (.char _ (.space rfl (.char _ (.char _ (.char _ .nil))))))

/-! ### The texts that decode -/

/-- The text without white space and without the padding at its end. -/
def unpaddedText (text : Bytes) : Bytes :=
  (text.filter fun c => !isAsciiWhitespace c).rdropWhile (· = 0x3d)

/-- The last character of a chunk that is not full has no bits that reach no byte. -/
def noLeftover : Bytes → Bool
  | [_, b] => (base64Value b).all (· % 2 ^ 4 = 0)
  | [_, _, c] => (base64Value c).all (· % 2 ^ 2 = 0)
  | _ :: _ :: _ :: _ :: rest => noLeftover rest
  | _ => true

theorem base64Value_eq_some {c : UInt8} {i : ℕ} (h : base64Value c = some i) :
    i < 64 ∧ b64Alphabet.getD i 0 = c := by
  have hall : ∀ n : Fin 256, (base64Value (UInt8.ofNat n)).all
      (fun i => decide (i < 64 ∧ b64Alphabet.getD i 0 = UInt8.ofNat n)) = true := by decide +kernel
  have hc := hall ⟨c.toNat, c.toNat_lt⟩
  simpa [h] using hc

theorem alphabet_inj {i j : ℕ} (hi : i < 64) (hj : j < 64) :
    b64Alphabet.getD i 0 = b64Alphabet.getD j 0 ↔ i = j := by
  constructor
  · intro h
    have hvalue := base64Value_alphabet hi
    rw [h, base64Value_alphabet hj] at hvalue
    exact (Option.some.inj hvalue).symm
  · rintro rfl
    rfl

/-- The characters of an encoding, by their values. -/
theorem base64Chars_eq {a b c : UInt8} {i j k l : ℕ}
    (hi : (a.toNat * 2 ^ 16 + b.toNat * 2 ^ 8 + c.toNat) / 2 ^ 18 % 64 = i)
    (hj : (a.toNat * 2 ^ 16 + b.toNat * 2 ^ 8 + c.toNat) / 2 ^ 12 % 64 = j)
    (hk : (a.toNat * 2 ^ 16 + b.toNat * 2 ^ 8 + c.toNat) / 2 ^ 6 % 64 = k)
    (hl : (a.toNat * 2 ^ 16 + b.toNat * 2 ^ 8 + c.toNat) % 64 = l) :
    base64Chars a b c = [b64Alphabet.getD i 0, b64Alphabet.getD j 0, b64Alphabet.getD k 0,
      b64Alphabet.getD l 0] := by
  simp only [base64Chars, List.map_cons, List.map_nil, hi, hj, hk, hl]

theorem eq_encoding_iff {text b : Bytes} (h : decodeChunks text = some b) :
    text = base64EncodeNopad b ↔ noLeftover text = true := by
  induction text using decodeChunks.induct generalizing b with
  | case1 =>
    cases h
    exact iff_of_true rfl rfl
  | case2 x => cases h
  -- Two characters make one byte, and four bits of the second one are left over.
  | case3 x y =>
    simp only [decodeChunks, Option.bind_eq_bind, Option.bind_eq_some_iff] at h
    obtain ⟨i, hx, j, hy, h⟩ := h
    obtain ⟨hi, rfl⟩ := base64Value_eq_some hx
    obtain ⟨hj, rfl⟩ := base64Value_eq_some hy
    cases h
    have hbyte : (UInt8.ofNat ((i * 2 ^ 6 + j) * 2 ^ 12 / 2 ^ 16)).toNat = i * 4 + j / 16 := by
      rw [UInt8.toNat_ofNat']
      omega
    have hchars := @base64Chars_eq (UInt8.ofNat ((i * 2 ^ 6 + j) * 2 ^ 12 / 2 ^ 16)) 0 0 i
      (j / 16 * 16) 0 0 (by rw [hbyte, UInt8.toNat_zero]; omega)
      (by rw [hbyte, UInt8.toNat_zero]; omega) (by rw [hbyte, UInt8.toNat_zero]; omega)
      (by rw [hbyte, UInt8.toNat_zero]; omega)
    rw [base64EncodeNopad, hchars, noLeftover, hy]
    simp only [List.take_succ_cons, List.take_zero, List.cons.injEq, true_and, and_true,
      Option.all_some, decide_eq_true_eq]
    rw [alphabet_inj hj (by omega)]
    omega
  -- Three characters make two bytes, and two bits of the third one are left over.
  | case4 x y z =>
    simp only [decodeChunks, Option.bind_eq_bind, Option.bind_eq_some_iff] at h
    obtain ⟨i, hx, j, hy, k, hz, h⟩ := h
    obtain ⟨hi, rfl⟩ := base64Value_eq_some hx
    obtain ⟨hj, rfl⟩ := base64Value_eq_some hy
    obtain ⟨hk, rfl⟩ := base64Value_eq_some hz
    cases h
    have hfirst : (UInt8.ofNat (((i * 2 ^ 6 + j) * 2 ^ 6 + k) * 2 ^ 6 / 2 ^ 16)).toNat =
        i * 4 + j / 16 := by
      rw [UInt8.toNat_ofNat']
      omega
    have hsecond : (UInt8.ofNat (((i * 2 ^ 6 + j) * 2 ^ 6 + k) * 2 ^ 6 / 2 ^ 8)).toNat =
        j % 16 * 16 + k / 4 := by
      rw [UInt8.toNat_ofNat']
      omega
    have hchars := @base64Chars_eq
      (UInt8.ofNat (((i * 2 ^ 6 + j) * 2 ^ 6 + k) * 2 ^ 6 / 2 ^ 16))
      (UInt8.ofNat (((i * 2 ^ 6 + j) * 2 ^ 6 + k) * 2 ^ 6 / 2 ^ 8)) 0 i j (k / 4 * 4) 0
      (by rw [hfirst, hsecond, UInt8.toNat_zero]; omega)
      (by rw [hfirst, hsecond, UInt8.toNat_zero]; omega)
      (by rw [hfirst, hsecond, UInt8.toNat_zero]; omega)
      (by rw [hfirst, hsecond, UInt8.toNat_zero]; omega)
    rw [base64EncodeNopad, hchars, noLeftover, hz]
    simp only [List.take_succ_cons, List.take_zero, List.cons.injEq, true_and, and_true,
      Option.all_some, decide_eq_true_eq]
    rw [alphabet_inj hk (by omega)]
    omega
  -- A full group leaves nothing over.
  | case5 x y z u rest ih =>
    simp only [decodeChunks, Option.bind_eq_bind, Option.bind_eq_some_iff] at h
    obtain ⟨i, hx, j, hy, k, hz, l, hu, out, hrest, h⟩ := h
    obtain ⟨hi, rfl⟩ := base64Value_eq_some hx
    obtain ⟨hj, rfl⟩ := base64Value_eq_some hy
    obtain ⟨hk, rfl⟩ := base64Value_eq_some hz
    obtain ⟨hl, rfl⟩ := base64Value_eq_some hu
    cases h
    have hfirst : (UInt8.ofNat ((((i * 2 ^ 6 + j) * 2 ^ 6 + k) * 2 ^ 6 + l) / 2 ^ 16)).toNat =
        i * 4 + j / 16 := by
      rw [UInt8.toNat_ofNat']
      omega
    have hsecond : (UInt8.ofNat ((((i * 2 ^ 6 + j) * 2 ^ 6 + k) * 2 ^ 6 + l) / 2 ^ 8)).toNat =
        j % 16 * 16 + k / 4 := by
      rw [UInt8.toNat_ofNat']
      omega
    have hthird : (UInt8.ofNat (((i * 2 ^ 6 + j) * 2 ^ 6 + k) * 2 ^ 6 + l)).toNat =
        k % 4 * 64 + l := by
      rw [UInt8.toNat_ofNat']
      omega
    have hchars := @base64Chars_eq
      (UInt8.ofNat ((((i * 2 ^ 6 + j) * 2 ^ 6 + k) * 2 ^ 6 + l) / 2 ^ 16))
      (UInt8.ofNat ((((i * 2 ^ 6 + j) * 2 ^ 6 + k) * 2 ^ 6 + l) / 2 ^ 8))
      (UInt8.ofNat (((i * 2 ^ 6 + j) * 2 ^ 6 + k) * 2 ^ 6 + l)) i j k l
      (by rw [hfirst, hsecond, hthird]; omega) (by rw [hfirst, hsecond, hthird]; omega)
      (by rw [hfirst, hsecond, hthird]; omega) (by rw [hfirst, hsecond, hthird]; omega)
    rw [base64EncodeNopad, hchars, noLeftover, ← ih hrest]
    simp

theorem ne_pad_of_decodeChunks {text b : Bytes} (h : decodeChunks text = some b) :
    ∀ c ∈ text, c ≠ 0x3d := by
  have hvalue : ∀ {c : UInt8} {i : ℕ}, base64Value c = some i → c ≠ 0x3d := by
    rintro c i hc rfl
    cases hc
  induction text using decodeChunks.induct generalizing b with
  | case1 => simp
  | case2 x => cases h
  | case3 x y =>
    simp only [decodeChunks, Option.bind_eq_bind, Option.bind_eq_some_iff] at h
    obtain ⟨i, hx, j, hy, -⟩ := h
    simp [hvalue hx, hvalue hy]
  | case4 x y z =>
    simp only [decodeChunks, Option.bind_eq_bind, Option.bind_eq_some_iff] at h
    obtain ⟨i, hx, j, hy, k, hz, -⟩ := h
    simp [hvalue hx, hvalue hy, hvalue hz]
  | case5 x y z u rest ih =>
    simp only [decodeChunks, Option.bind_eq_bind, Option.bind_eq_some_iff] at h
    obtain ⟨i, hx, j, hy, k, hz, l, hu, out, hrest, -⟩ := h
    simpa [hvalue hx, hvalue hy, hvalue hz, hvalue hu] using ih hrest

/-- Only `=` goes from the end. -/
theorem eq_stripPadding_append (trimmed : Bytes) :
    ∃ n, trimmed = stripPadding trimmed ++ List.replicate n 0x3d := by
  rw [stripPadding]
  split_ifs with htwo hone
  · obtain ⟨front, rfl⟩ := htwo
    refine ⟨2, ?_⟩
    have hfront : front ++ [0x3d, 0x3d] = front ++ [0x3d] ++ [0x3d] := by simp
    rw [hfront, List.dropLast_concat, List.dropLast_concat]
    simp
  · obtain ⟨front, rfl⟩ := hone
    exact ⟨1, by rw [List.dropLast_concat]; rfl⟩
  · exact ⟨0, by simp⟩

theorem rdropWhile_append_pad {text : Bytes} (h : ∀ c ∈ text, c ≠ 0x3d) (n : ℕ) :
    (text ++ List.replicate n 0x3d).rdropWhile (· = 0x3d) = text := by
  induction n with
  | zero =>
    rw [List.replicate_zero, List.append_nil, List.rdropWhile_eq_self_iff]
    intro hne
    simpa using h _ (List.getLast_mem hne)
  | succ n ih =>
    rw [List.replicate_succ', ← List.append_assoc, List.rdropWhile_concat_pos _ _ _ (by simp), ih]

/-- The doc has decoding strict about everything but the padding. A text that decodes is the
encoding of what it decodes to exactly when the last character of its last chunk leaves no bit
over: the bits over are shifted out and never looked at. -/
theorem base64Decode_strict {s b : Bytes} (h : base64Decode s = some b) :
    unpaddedText s = base64EncodeNopad b ↔ noLeftover (unpaddedText s) = true := by
  simp only [base64Decode] at h
  split_ifs at h
  obtain ⟨n, hn⟩ := eq_stripPadding_append (s.filter fun c => !isAsciiWhitespace c)
  have htext : unpaddedText s = stripPadding (s.filter fun c => !isAsciiWhitespace c) := by
    rw [unpaddedText]
    nth_rewrite 1 [hn]
    exact rdropWhile_append_pad (ne_pad_of_decodeChunks h) n
  rw [htext]
  exact eq_encoding_iff h

theorem base64Decode_strict_two :
    unpaddedText [0x51, 0x51, 0x3d, 0x3d] = base64EncodeNopad [0x41] :=
  (base64Decode_strict (s := [0x51, 0x51, 0x3d, 0x3d]) (b := [0x41]) (by decide)).2 (by decide)

/-- `QQ==` and `QR==` are one byte. -/
theorem base64Decode_not_strict :
    base64Decode [0x51, 0x51, 0x3d, 0x3d] = some [0x41] ∧
      base64Decode [0x51, 0x52, 0x3d, 0x3d] = some [0x41] ∧
      unpaddedText [0x51, 0x52, 0x3d, 0x3d] ≠ base64EncodeNopad [0x41] := by
  decide

end QuantumSsh.HostKey
