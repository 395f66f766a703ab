import QuantumSsh.Fields
import Mathlib.Data.Nat.Digits.Defs

/-!
# The codec

Sequences of typed fields, written with `Writer` and read back with `Reader`. The
multiple precision integers and the name-lists have one encoding each; every other
field is its own.
-/

namespace QuantumSsh.Wire

/-! ### Multiple precision integers -/

/-- `[first, ..] if *first & 0x80 != 0`. -/
def highBit : Bytes → Bool
  | [] => false
  | first :: _ => decide (first &&& 0x80 ≠ 0)

/-- `[0x00, second, ..] if *second & 0x80 == 0`. -/
def redundantZero : Bytes → Bool
  | 0x00 :: second :: _ => decide (second &&& 0x80 = 0)
  | _ => false

/-- `Reader::mpint`. -/
def Reader.mpint (bound : ℕ) : Reader Bytes := do
  let raw ← string bound
  if raw = [0x00] then throw .badMpint
  if redundantZero raw then throw .badMpint
  if highBit raw then throw .badMpint
  return raw

/-- The magnitudes that `mpint` returns. -/
def IsMpint (raw : Bytes) : Prop :=
  raw ≠ [0x00] ∧ redundantZero raw = false ∧ highBit raw = false

/-- What `put_mpint` writes behind the length. -/
def mpintContents (magnitude : Bytes) : Bytes :=
  let stripped := magnitude.dropWhile (· = 0x00)
  if highBit stripped then 0x00 :: stripped else stripped

theorem beValue_cons (b : UInt8) (rest : Bytes) :
    beValue (b :: rest) = b.toNat * 256 ^ rest.length + beValue rest := by
  rw [← List.singleton_append, beValue_append]
  simp [beValue]

theorem beValue_zero_cons (rest : Bytes) : beValue (0x00 :: rest) = beValue rest := by
  rw [beValue_cons]
  simp

theorem beValue_dropWhile (b : Bytes) : beValue (b.dropWhile (· = 0x00)) = beValue b := by
  induction b with
  | nil => rfl
  | cons x xs ih =>
    by_cases hx : x = 0x00
    · rw [List.dropWhile_cons_of_pos (by simpa using hx), ih, hx, beValue_zero_cons]
    · rw [List.dropWhile_cons_of_neg (by simpa using hx)]

theorem beValue_mpintContents (magnitude : Bytes) :
    beValue (mpintContents magnitude) = beValue magnitude := by
  rw [mpintContents]
  split
  · rw [beValue_zero_cons, beValue_dropWhile]
  · rw [beValue_dropWhile]

/-- A byte with its high bit set is not zero. -/
theorem ne_zero_of_highBit {first : UInt8} {rest : Bytes} (h : highBit (first :: rest) = true) :
    first ≠ 0x00 := by
  rintro rfl
  simp [highBit] at h

theorem head_dropWhile_ne (b : Bytes) : (b.dropWhile (· = 0x00)).head? ≠ some 0x00 := by
  intro h
  have hnot := List.head?_dropWhile_not (p := fun x : UInt8 => decide (x = 0x00)) b
  rw [h] at hnot
  simp at hnot

theorem redundantZero_of_ne {first : UInt8} {rest : Bytes} (h : first ≠ 0x00) :
    redundantZero (first :: rest) = false := by
  unfold redundantZero
  split
  next heq =>
    cases heq
    exact absurd rfl h
  next => rfl

/-- What is written can be read. -/
theorem isMpint_mpintContents (magnitude : Bytes) : IsMpint (mpintContents magnitude) := by
  rw [mpintContents]
  cases hstripped : magnitude.dropWhile (· = 0x00) with
  | nil => exact ⟨by decide, by decide, by decide⟩
  | cons first rest =>
    have hfirst : first ≠ 0x00 := by simpa [hstripped] using head_dropWhile_ne magnitude
    by_cases hhigh : highBit (first :: rest) = true
    · rw [if_pos hhigh]
      refine ⟨by simp, ?_, by simp [highBit]⟩
      simpa [redundantZero, highBit] using hhigh
    · rw [if_neg hhigh]
      refine ⟨?_, redundantZero_of_ne hfirst, by simpa using hhigh⟩
      rintro ⟨⟩
      exact hfirst rfl

/-- What can be read is written as it stands. -/
theorem mpintContents_of_isMpint {raw : Bytes} (h : IsMpint raw) : mpintContents raw = raw := by
  obtain ⟨hzero, hredundant, hhigh⟩ := h
  cases raw with
  | nil => rfl
  | cons first rest =>
    by_cases hfirst : first = 0x00
    · subst hfirst
      cases rest with
      | nil => exact absurd rfl hzero
      | cons second rest =>
        have hsecond : highBit (second :: rest) = true := by
          simpa [redundantZero, highBit] using hredundant
        have hne := ne_zero_of_highBit hsecond
        rw [mpintContents, List.dropWhile_cons_of_pos (by simp),
          List.dropWhile_cons_of_neg (by simpa using hne), if_pos hsecond]
    · rw [mpintContents, List.dropWhile_cons_of_neg (by simpa using hfirst), if_neg (by simp [hhigh])]

/-- A big-endian string is the digits of its value, the last one first. -/
theorem beValue_eq_ofDigits (b : Bytes) :
    beValue b = Nat.ofDigits 256 (b.reverse.map UInt8.toNat) := by
  induction b using List.reverseRecOn with
  | nil => rfl
  | append_singleton b x ih =>
    rw [List.reverse_append, List.reverse_singleton, List.singleton_append, List.map_cons,
      Nat.ofDigits_cons, ← ih, beValue_append]
    simp [beValue, Nat.mul_comm, Nat.add_comm]

/-- Without leading zeros a string is the digits of its value. -/
theorem digits_beValue {s : Bytes} (h : s.head? ≠ some 0x00) :
    Nat.digits 256 (beValue s) = s.reverse.map UInt8.toNat := by
  rw [beValue_eq_ofDigits]
  refine Nat.digits_ofDigits 256 (by decide) _ ?_ ?_
  · intro d hd
    obtain ⟨x, -, rfl⟩ := List.mem_map.1 hd
    exact x.toNat_lt
  · intro hne
    cases s with
    | nil => exact absurd rfl hne
    | cons first rest =>
      have hfirst : first ≠ 0x00 := by simpa using h
      simpa [← UInt8.toNat_inj] using hfirst

theorem beValue_inj {s t : Bytes} (hs : s.head? ≠ some 0x00) (ht : t.head? ≠ some 0x00)
    (h : beValue s = beValue t) : s = t := by
  have hdigits : s.reverse.map UInt8.toNat = t.reverse.map UInt8.toNat := by
    rw [← digits_beValue hs, ← digits_beValue ht, h]
  have hreverse := List.map_injective_iff.2 (fun _ _ => UInt8.toNat_inj.1) hdigits
  exact List.reverse_injective hreverse

theorem mpintContents_inj {a b : Bytes} :
    mpintContents a = mpintContents b ↔ beValue a = beValue b := by
  constructor
  · intro h
    rw [← beValue_mpintContents a, h, beValue_mpintContents]
  · intro h
    have hstripped : a.dropWhile (· = 0x00) = b.dropWhile (· = 0x00) :=
      beValue_inj (head_dropWhile_ne a) (head_dropWhile_ne b) (by simpa only [beValue_dropWhile])
    rw [mpintContents, mpintContents, hstripped]

/-- Every integer has a magnitude. -/
theorem exists_beValue (n : ℕ) : ∃ magnitude, beValue magnitude = n := by
  refine ⟨((Nat.digits 256 n).map UInt8.ofNat).reverse, ?_⟩
  have hdigits : ((Nat.digits 256 n).map UInt8.ofNat).map UInt8.toNat = Nat.digits 256 n := by
    rw [List.map_map]
    refine (List.map_congr_left fun d hd => ?_).trans (List.map_id _)
    have hlt := Nat.digits_lt_base (by decide) hd
    simpa [UInt8.toNat_ofNat'] using hlt
  rw [beValue_eq_ofDigits, List.reverse_reverse, hdigits, Nat.ofDigits_digits]

theorem Reader.mpint_ok {bound : ℕ} {raw input rest : Bytes} :
    (Reader.mpint bound).run input = .ok (raw, rest) ↔
      (IsMpint raw ∧ raw.length ≤ bound ∧ raw.length < 2 ^ 32) ∧ input = putString raw ++ rest := by
  simp only [Reader.mpint, run_bind_ok, string_ok]
  constructor
  · rintro ⟨b, _, ⟨hlen, rfl⟩, h⟩
    rw [Parser.run_check_ok, Parser.run_check_ok, Parser.run_check_ok, run_pure_ok] at h
    obtain ⟨hzero, hredundant, hhigh, rfl, rfl⟩ := h
    exact ⟨⟨⟨hzero, by simpa using hredundant, by simpa using hhigh⟩, hlen⟩, rfl⟩
  · rintro ⟨⟨⟨hzero, hredundant, hhigh⟩, hlen⟩, rfl⟩
    refine ⟨raw, rest, ⟨hlen, rfl⟩, ?_⟩
    rw [Parser.run_check_ok, Parser.run_check_ok, Parser.run_check_ok, run_pure_ok]
    exact ⟨hzero, by simp [hredundant], by simp [hhigh], rfl, rfl⟩

/-! ### Name-lists -/

/-- Printable US-ASCII other than the comma. -/
def IsNameByte (b : UInt8) : Prop := 0x21 ≤ b ∧ b ≤ 0x7e ∧ b ≠ 0x2c

/-- A name of a name-list. -/
def IsName (name : Bytes) : Prop := name ≠ [] ∧ ∀ b ∈ name, IsNameByte b

instance (b : UInt8) : Decidable (IsNameByte b) :=
  inferInstanceAs (Decidable (0x21 ≤ b ∧ b ≤ 0x7e ∧ b ≠ 0x2c))

instance (name : Bytes) : Decidable (IsName name) :=
  inferInstanceAs (Decidable (name ≠ [] ∧ ∀ b ∈ name, IsNameByte b))

abbrev Name := { name : Bytes // IsName name }

/-- The names with commas between them. -/
def joined (list : List Name) : Bytes := [0x2c].intercalate (list.map Subtype.val)

/-- The comma scan looks at each name in turn; after a byte of a name the rest of that
name may be empty. -/
theorem wellFormedNames_iff {raw : Bytes} {previousWasComma : Bool} :
    Reader.wellFormedNames previousWasComma raw = true ↔
      ∃ name others, raw.splitOn 0x2c = name :: others ∧
        (previousWasComma = true → name ≠ []) ∧ (∀ b ∈ name, IsNameByte b) ∧
        ∀ other ∈ others, IsName other := by
  induction raw generalizing previousWasComma with
  | nil => cases previousWasComma <;> simp [Reader.wellFormedNames]
  | cons b raw ih =>
    rw [List.splitOn_cons_eq_if_modifyHead, Reader.wellFormedNames]
    by_cases hcomma : b = 0x2c
    · rw [if_pos hcomma, if_pos (by simpa using hcomma), Bool.and_eq_true, ih]
      constructor
      · rintro ⟨hprevious, name, others, hsplit, hname, hbytes, hothers⟩
        refine ⟨[], _, rfl, by simpa using hprevious, by simp, ?_⟩
        rw [hsplit, List.forall_mem_cons]
        exact ⟨⟨hname rfl, hbytes⟩, hothers⟩
      · rintro ⟨name, others, hsplit, hprevious, -, hothers⟩
        obtain ⟨rfl, rfl⟩ := List.cons.inj hsplit
        refine ⟨by simpa using hprevious, ?_⟩
        obtain ⟨name, others, hsplit⟩ := List.exists_cons_of_ne_nil (List.splitOn_ne_nil 0x2c raw)
        rw [hsplit, List.forall_mem_cons] at hothers
        exact ⟨name, others, hsplit, fun _ => hothers.1.1, hothers.1.2, hothers.2⟩
    · rw [if_neg hcomma, if_neg (by simpa using hcomma), Bool.and_eq_true, decide_eq_true_iff, ih]
      constructor
      · rintro ⟨⟨hlow, hhigh⟩, name, others, hsplit, -, hbytes, hothers⟩
        refine ⟨b :: name, others, by rw [hsplit]; rfl, by simp, ?_, hothers⟩
        rw [List.forall_mem_cons]
        exact ⟨⟨hlow, hhigh, hcomma⟩, hbytes⟩
      · rintro ⟨name, others, hsplit, -, hbytes, hothers⟩
        obtain ⟨name', others', hsplit'⟩ :=
          List.exists_cons_of_ne_nil (List.splitOn_ne_nil 0x2c raw)
        rw [hsplit'] at hsplit
        obtain ⟨rfl, rfl⟩ := List.cons.inj hsplit
        rw [List.forall_mem_cons] at hbytes
        exact ⟨⟨hbytes.1.1, hbytes.1.2.1⟩, name', others', hsplit', by simp, hbytes.2, hothers⟩

theorem wellFormedNames_true {raw : Bytes} :
    Reader.wellFormedNames true raw = true ↔ ∀ name ∈ raw.splitOn 0x2c, IsName name := by
  rw [wellFormedNames_iff]
  constructor
  · rintro ⟨name, others, hsplit, hname, hbytes, hothers⟩
    rw [hsplit, List.forall_mem_cons]
    exact ⟨⟨hname rfl, hbytes⟩, hothers⟩
  · intro h
    obtain ⟨name, others, hsplit⟩ := List.exists_cons_of_ne_nil (List.splitOn_ne_nil 0x2c raw)
    rw [hsplit, List.forall_mem_cons] at h
    exact ⟨name, others, hsplit, fun _ => h.1.1, h.1.2, h.2⟩

theorem comma_notMem (list : List Name) : ∀ name ∈ list.map Subtype.val, 0x2c ∉ name := by
  intro name hname hcomma
  obtain ⟨n, -, rfl⟩ := List.mem_map.1 hname
  exact (n.property.2 _ hcomma).2.2 rfl

theorem names_of_splitOn {raw : Bytes} (h : ∀ name ∈ raw.splitOn 0x2c, IsName name) :
    names raw = raw.splitOn 0x2c := by
  rw [names, List.filter_eq_self]
  intro name hname
  simpa using (h name hname).1

/-- Splitting a joined list gives its names back. -/
theorem splitOn_joined {list : List Name} (h : list ≠ []) :
    (joined list).splitOn 0x2c = list.map Subtype.val :=
  List.splitOn_intercalate 0x2c (comma_notMem list) (mt List.map_eq_nil_iff.1 h)

theorem forall_isName (list : List Name) : ∀ name ∈ list.map Subtype.val, IsName name := by
  intro name hname
  obtain ⟨n, -, rfl⟩ := List.mem_map.1 hname
  exact n.property

/-- `names` inverts the join. -/
theorem names_joined_list (list : List Name) : names (joined list) = list.map Subtype.val := by
  by_cases hnil : list = []
  · subst hnil
    rfl
  · rw [names_of_splitOn, splitOn_joined hnil]
    rw [splitOn_joined hnil]
    exact forall_isName list

/-- The name-lists are the joins of names. -/
theorem isNameList_iff {raw : Bytes} : IsNameList raw ↔ ∃ list : List Name, raw = joined list := by
  constructor
  · rintro (rfl | h)
    · exact ⟨[], rfl⟩
    · rw [wellFormedNames_true] at h
      refine ⟨(raw.splitOn 0x2c).attachWith IsName h, ?_⟩
      rw [joined, List.attachWith_map_subtype_val, List.intercalate_splitOn]
  · rintro ⟨list, rfl⟩
    by_cases hnil : list = []
    · exact .inl (by rw [hnil]; rfl)
    · refine .inr (wellFormedNames_true.2 ?_)
      rw [splitOn_joined hnil]
      exact forall_isName list

/-! ### Sequences of fields -/

theorem putString_inj {a b : Bytes} : putString a = putString b ↔ a = b := by
  refine ⟨fun h => ?_, congrArg putString⟩
  have hlen : a.length = b.length := by
    have := congrArg List.length h
    rw [length_putString, length_putString] at this
    omega
  rw [putString, putString, hlen] at h
  exact List.append_cancel_left h

/-- A typed field to write. -/
inductive Field where
  | byte (v : UInt8)
  | boolean (v : Bool)
  | uint32 (v : UInt32)
  | uint64 (v : UInt64)
  | bytes (v : Bytes)
  | string (v : Bytes)
  | nameList (list : List Name)
  | mpint (magnitude : Bytes)

/-- A field to read: its type and, where its length varies, the caller's bound. -/
inductive Shape where
  | byte
  | boolean
  | uint32
  | uint64
  | bytes (n : ℕ)
  | string (bound : ℕ)
  | nameList (bound : ℕ)
  | mpint (bound : ℕ)

/-- A field that was read. -/
inductive Value where
  | byte (v : UInt8)
  | boolean (v : Bool)
  | uint32 (v : ℕ)
  | uint64 (v : ℕ)
  | bytes (v : Bytes)
  | string (v : Bytes)
  | nameList (raw : Bytes)
  | mpint (raw : Bytes)

/-! The methods of `Writer` append to its buffer; `none` is a panic. -/

namespace Writer

def putByte (v : UInt8) (buf : Bytes) : Option Bytes := some (buf ++ [v])

def putBoolean (v : Bool) (buf : Bytes) : Option Bytes := some (buf ++ Wire.putBoolean v)

def putUint32 (v : UInt32) (buf : Bytes) : Option Bytes := some (buf ++ Wire.putUint32 v.toNat)

def putUint64 (v : UInt64) (buf : Bytes) : Option Bytes := some (buf ++ Wire.putUint64 v.toNat)

def putBytes (v buf : Bytes) : Option Bytes := some (buf ++ v)

def putString (v buf : Bytes) : Option Bytes :=
  if v.length < 2 ^ 32 then some (buf ++ Wire.putString v) else none

def putNameList (joined buf : Bytes) : Option Bytes := putString joined buf

def putMpint (magnitude buf : Bytes) : Option Bytes :=
  let stripped := magnitude.dropWhile (· = 0x00)
  if stripped = [] then some (buf ++ Wire.putUint32 0)
  else if highBit stripped then
    if stripped.length + 1 < 2 ^ 32 then
      some (buf ++ Wire.putUint32 (stripped.length + 1) ++ [0x00] ++ stripped)
    else none
  else putString stripped buf

def put : Field → Bytes → Option Bytes
  | .byte v => putByte v
  | .boolean v => putBoolean v
  | .uint32 v => putUint32 v
  | .uint64 v => putUint64 v
  | .bytes v => putBytes v
  | .string v => putString v
  | .nameList list => putNameList (joined list)
  | .mpint magnitude => putMpint magnitude

/-- The fields one after the other into a new buffer. -/
def write (fields : List Field) : Option Bytes := fields.foldlM (fun buf f => put f buf) []

theorem putMpint_eq (magnitude buf : Bytes) :
    putMpint magnitude buf = putString (mpintContents magnitude) buf := by
  rw [putMpint, mpintContents]
  cases hstripped : magnitude.dropWhile (· = 0x00) with
  | nil => rfl
  | cons first rest =>
    rw [if_neg (by simp)]
    by_cases hhigh : highBit (first :: rest) = true
    · rw [if_pos hhigh, if_pos hhigh, putString, Wire.putString]
      simp only [List.length_cons, List.append_assoc, List.cons_append, List.nil_append]
    · rw [if_neg hhigh, if_neg hhigh]

theorem putMpint_eq_some {magnitude w : Bytes} :
    putMpint magnitude [] = some w ↔
      (mpintContents magnitude).length < 2 ^ 32 ∧ Wire.putString (mpintContents magnitude) = w := by
  rw [putMpint_eq, putString, Option.ite_none_right_eq_some, List.nil_append, Option.some.injEq]

end Writer

/-- One field of the shape. -/
def Reader.field : Shape → Reader Value
  | .byte => Value.byte <$> byte
  | .boolean => Value.boolean <$> boolean
  | .uint32 => Value.uint32 <$> uint32
  | .uint64 => Value.uint64 <$> uint64
  | .bytes n => Value.bytes <$> bytes n
  | .string bound => Value.string <$> string bound
  | .nameList bound => Value.nameList <$> nameList bound
  | .mpint bound => Value.mpint <$> mpint bound

/-- The fields in order, and then `finish`. -/
def Reader.fields : List Shape → Reader (List Value)
  | [] => do
    finish
    return []
  | shape :: shapes => do
    let value ← field shape
    let values ← fields shapes
    return value :: values

namespace Field

/-- What stands for the field on the wire. -/
def encoding : Field → Bytes
  | .byte v => [v]
  | .boolean v => Wire.putBoolean v
  | .uint32 v => Wire.putUint32 v.toNat
  | .uint64 v => Wire.putUint64 v.toNat
  | .bytes v => v
  | .string v => Wire.putString v
  | .nameList list => Wire.putString (joined list)
  | .mpint magnitude => Wire.putString (mpintContents magnitude)

/-- The length that a `uint32` is to hold. -/
def declared : Field → ℕ
  | .string v => v.length
  | .nameList list => (joined list).length
  | .mpint magnitude => (mpintContents magnitude).length
  | _ => 0

/-- The shape reads fields of this type and admits this length. -/
def Admitted : Field → Shape → Prop
  | .byte _, .byte => True
  | .boolean _, .boolean => True
  | .uint32 _, .uint32 => True
  | .uint64 _, .uint64 => True
  | .bytes v, .bytes n => n = v.length
  | .string v, .string bound => v.length ≤ bound
  | .nameList list, .nameList bound => (joined list).length ≤ bound
  | .mpint magnitude, .mpint bound => (mpintContents magnitude).length ≤ bound
  | _, _ => False

/-- The value is the field's, for an integer some encoding of it. -/
def Holds : Field → Value → Prop
  | .byte v, .byte v' => v' = v
  | .boolean v, .boolean v' => v' = v
  | .uint32 v, .uint32 v' => v' = v.toNat
  | .uint64 v, .uint64 v' => v' = v.toNat
  | .bytes v, .bytes v' => v' = v
  | .string v, .string v' => v' = v
  | .nameList list, .nameList raw => raw = joined list ∧ names raw = list.map Subtype.val
  | .mpint magnitude, .mpint raw => beValue raw = beValue magnitude
  | _, _ => False

end Field

theorem Writer.put_eq (field : Field) (buf : Bytes) :
    Writer.put field buf =
      if field.declared < 2 ^ 32 then some (buf ++ field.encoding) else none := by
  cases field with
  | mpint magnitude => exact Writer.putMpint_eq magnitude buf
  | _ => rfl

theorem Writer.write_eq (fields : List Field) :
    Writer.write fields =
      if ∀ field ∈ fields, field.declared < 2 ^ 32 then
        some (fields.map Field.encoding).flatten
      else none := by
  suffices h : ∀ buf, fields.foldlM (fun buf f => Writer.put f buf) buf =
      if ∀ field ∈ fields, field.declared < 2 ^ 32 then
        some (buf ++ (fields.map Field.encoding).flatten)
      else none from h []
  induction fields with
  | nil => simp
  | cons field fields ih =>
    intro buf
    rw [List.foldlM_cons, Writer.put_eq]
    by_cases hfield : field.declared < 2 ^ 32
    · rw [if_pos hfield]
      refine (ih _).trans ?_
      simp only [List.forall_mem_cons, hfield, true_and, List.map_cons, List.flatten_cons,
        List.append_assoc]
    · rw [if_neg hfield, if_neg fun h => hfield (h field List.mem_cons_self)]
      rfl

/-- A field is read back in front of anything. -/
theorem Reader.field_encoding {field : Field} {shape : Shape} (hshape : field.Admitted shape)
    (hlen : field.declared < 2 ^ 32) (rest : Bytes) :
    ∃ value, (Reader.field shape).run (field.encoding ++ rest) = .ok (value, rest) ∧
      field.Holds value := by
  -- `Admitted` leaves only the shape of the field's own type
  cases field with
  | byte v =>
    cases shape <;> try exact hshape.elim
    exact ⟨.byte v, Parser.run_map_of_ok (byte_ok.2 rfl), rfl⟩
  | boolean v =>
    cases shape <;> try exact hshape.elim
    refine ⟨.boolean v, Parser.run_map_of_ok (boolean_ok.2 ⟨if v then 1 else 0, rfl, ?_⟩), rfl⟩
    cases v <;> decide
  | uint32 v =>
    cases shape <;> try exact hshape.elim
    exact ⟨.uint32 v.toNat, Parser.run_map_of_ok (uint32_ok.2 ⟨v.toNat_lt, rfl⟩), rfl⟩
  | uint64 v =>
    cases shape <;> try exact hshape.elim
    exact ⟨.uint64 v.toNat, Parser.run_map_of_ok (uint64_ok.2 ⟨v.toNat_lt, rfl⟩), rfl⟩
  | bytes v =>
    cases shape <;> try exact hshape.elim
    exact ⟨.bytes v, Parser.run_map_of_ok (take_ok_iff.2 ⟨hshape.symm, rfl⟩), rfl⟩
  | string v =>
    cases shape <;> try exact hshape.elim
    exact ⟨.string v, Parser.run_map_of_ok (string_ok.2 ⟨⟨hshape, hlen⟩, rfl⟩), rfl⟩
  | nameList list =>
    cases shape <;> try exact hshape.elim
    have hnames : IsNameList (joined list) := isNameList_iff.2 ⟨list, rfl⟩
    exact ⟨.nameList (joined list),
      Parser.run_map_of_ok (nameList_ok.2 ⟨⟨hnames, hshape, hlen⟩, rfl⟩),
      rfl, names_joined_list list⟩
  | mpint magnitude =>
    cases shape <;> try exact hshape.elim
    have hmpint := isMpint_mpintContents magnitude
    exact ⟨.mpint (mpintContents magnitude),
      Parser.run_map_of_ok (mpint_ok.2 ⟨⟨hmpint, hshape, hlen⟩, rfl⟩),
      beValue_mpintContents magnitude⟩

/-- The fields are read back, and nothing is left for `finish` to refuse. -/
theorem Reader.fields_encoding {fields : List Field} {shapes : List Shape}
    (hshapes : List.Forall₂ Field.Admitted fields shapes)
    (hlen : ∀ field ∈ fields, field.declared < 2 ^ 32) :
    ∃ values, (Reader.fields shapes).run (fields.map Field.encoding).flatten = .ok (values, []) ∧
      List.Forall₂ Field.Holds fields values := by
  induction hshapes with
  | nil => exact ⟨[], rfl, .nil⟩
  | @cons field shape fields shapes hshape hshapes ih =>
    rw [List.forall_mem_cons] at hlen
    obtain ⟨value, hvalue, hholds⟩ :=
      field_encoding hshape hlen.1 (fields.map Field.encoding).flatten
    obtain ⟨values, hvalues, hall⟩ := ih hlen.2
    refine ⟨value :: values, ?_, .cons hholds hall⟩
    rw [List.map_cons, List.flatten_cons]
    exact run_bind_ok.2 ⟨value, _, hvalue, run_bind_ok.2 ⟨values, [], hvalues, rfl⟩⟩

/-! ### Round trip and canonicity -/

/-- What was written is read back with bounds that admit it, and nothing is left. The
writer panics only on a field whose length no `uint32` holds. `mpint` accepts exactly what
`put_mpint` writes, one encoding for each integer; `name_list` accepts exactly the joins of
names, and `names` gives them back. -/
theorem written_read_back {fields : List Field} {shapes : List Shape}
    (hshapes : List.Forall₂ Field.Admitted fields shapes) :
    ((Writer.write fields = none ↔ ∃ field ∈ fields, 2 ^ 32 ≤ field.declared) ∧
      ∀ buf, Writer.write fields = some buf →
        ∃ values, (Reader.fields shapes).run buf = .ok (values, []) ∧
          List.Forall₂ Field.Holds fields values) ∧
    (∀ bound input raw rest, (Reader.mpint bound).run input = .ok (raw, rest) ↔
      raw.length ≤ bound ∧
        ∃ magnitude w, Writer.putMpint magnitude [] = some w ∧ w = putString raw ∧
          input = w ++ rest) ∧
    ((∀ n, ∃ magnitude, beValue magnitude = n) ∧
      ∀ magnitude magnitude' w, Writer.putMpint magnitude [] = some w →
        (Writer.putMpint magnitude' [] = some w ↔ beValue magnitude' = beValue magnitude)) ∧
    (∀ bound input raw rest, (Reader.nameList bound).run input = .ok (raw, rest) ↔
      (raw.length ≤ bound ∧ raw.length < 2 ^ 32 ∧ input = putString raw ++ rest) ∧
        ∃ list : List Name, raw = joined list) ∧
    ∀ list : List Name, names (joined list) = list.map Subtype.val := by
  refine ⟨⟨?_, ?_⟩, ?_, ⟨exists_beValue, ?_⟩, ?_, names_joined_list⟩
  · rw [Writer.write_eq]
    split
    next h => simpa using h
    next h => simpa using h
  · intro buf hwrite
    rw [Writer.write_eq, Option.ite_none_right_eq_some] at hwrite
    obtain ⟨hlen, hbuf⟩ := hwrite
    cases hbuf
    exact Reader.fields_encoding hshapes hlen
  · intro bound input raw rest
    rw [Reader.mpint_ok]
    constructor
    · rintro ⟨⟨hmpint, hbound, hlen⟩, rfl⟩
      refine ⟨hbound, raw, putString raw, ?_, rfl, rfl⟩
      rw [Writer.putMpint_eq_some, mpintContents_of_isMpint hmpint]
      exact ⟨hlen, rfl⟩
    · rintro ⟨hbound, magnitude, w, hput, hw, rfl⟩
      obtain ⟨hlen, rfl⟩ := Writer.putMpint_eq_some.1 hput
      obtain rfl := putString_inj.1 hw
      exact ⟨⟨isMpint_mpintContents magnitude, hbound, hlen⟩, rfl⟩
  · intro magnitude magnitude' w hput
    obtain ⟨hlen, rfl⟩ := Writer.putMpint_eq_some.1 hput
    rw [Writer.putMpint_eq_some, putString_inj, ← mpintContents_inj]
    constructor
    · rintro ⟨-, h⟩
      exact h
    · intro h
      exact ⟨by rwa [h], h⟩
  · intro bound input raw rest
    rw [Reader.nameList_ok, isNameList_iff]
    tauto

/-- A field of each type; the integer has a zero to strip and a sign byte to add. -/
def oneOfEach : List Field :=
  [.byte 5, .boolean true, .uint32 7, .uint64 9, .bytes [1, 2], .string [3],
    .nameList [⟨[0x61], by decide⟩, ⟨[0x62, 0x63], by decide⟩], .mpint [0x00, 0x80]]

theorem written_read_back_one_of_each :
    ∃ buf values, Writer.write oneOfEach = some buf ∧
      (Reader.fields [.byte, .boolean, .uint32, .uint64, .bytes 2, .string 1, .nameList 4,
        .mpint 2]).run buf = .ok (values, []) ∧
      List.Forall₂ Field.Holds oneOfEach values := by
  have hshapes : List.Forall₂ Field.Admitted oneOfEach
      [.byte, .boolean, .uint32, .uint64, .bytes 2, .string 1, .nameList 4, .mpint 2] := by
    have hlist : (joined [⟨[0x61], by decide⟩, ⟨[0x62, 0x63], by decide⟩]).length ≤ 4 := by decide
    have hmpint : (mpintContents [0x00, 0x80]).length ≤ 2 := by decide
    exact .cons trivial <| .cons trivial <| .cons trivial <| .cons trivial <| .cons rfl <|
      .cons (Nat.le_refl 1) <| .cons hlist <| .cons hmpint .nil
  obtain ⟨⟨-, hread⟩, -⟩ := written_read_back hshapes
  obtain ⟨values, hvalues, hholds⟩ := hread _ rfl
  exact ⟨_, values, rfl, hvalues, hholds⟩

end QuantumSsh.Wire
