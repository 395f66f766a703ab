import Mathlib.Tactic.Ring

/-!
# Wire encoding

The sshtype primitives of `wire.rs`: a reader over a byte string that takes an
explicit bound on every variable-length field, and the writers. `u32` and `u64`
values are natural numbers; the writers reduce them to their width.
-/

namespace QuantumSsh

/-- A byte string. -/
abbrev Bytes := List UInt8

instance : LawfulBEq Bytes := inferInstance

/-- The bytes of a string literal. -/
def utf8 (s : String) : Bytes := s.toByteArray.data.toList

/-- The byte string is well-formed UTF-8, `std::str::from_utf8`. -/
def isUtf8 (b : Bytes) : Bool := (ByteArray.mk b.toArray).validateUTF8

namespace Wire

/-- `WireError`. -/
inductive WireError where
  | truncated
  | oversized (declared bound : ℕ)
  | badPacketLength (length : ℕ)
  | badPadding
  | trailingBytes (count : ℕ)
  | badMpint
  | badNameList
  | badIdentification
deriving Repr, DecidableEq

/-- A read: the value and the bytes not yet consumed. -/
abbrev Reader (α : Type) := StateT Bytes (Except WireError) α

/-- The big-endian value of a byte string. -/
def beValue (b : Bytes) : ℕ := b.foldl (fun acc x => acc * 256 + x.toNat) 0

theorem beValue_lt (b : Bytes) : beValue b < 256 ^ b.length := by
  suffices h : ∀ acc, b.foldl (fun acc x => acc * 256 + x.toNat) acc < (acc + 1) * 256 ^ b.length by
    simpa [beValue] using h 0
  induction b with
  | nil => simp
  | cons x xs ih =>
    intro acc
    calc xs.foldl (fun acc x => acc * 256 + x.toNat) (acc * 256 + x.toNat)
        < (acc * 256 + x.toNat + 1) * 256 ^ xs.length := ih _
      _ ≤ ((acc + 1) * 256) * 256 ^ xs.length := by
          have hx := x.toNat_lt
          exact Nat.mul_le_mul_right _ (by omega)
      _ = (acc + 1) * 256 ^ (xs.length + 1) := by ring

namespace Reader

def take (n : ℕ) : Reader Bytes := fun input =>
  if input.length < n then .error .truncated else .ok (input.take n, input.drop n)

def byte : Reader UInt8 := fun input =>
  match input with
  | [] => .error .truncated
  | b :: rest => .ok (b, rest)

def boolean : Reader Bool := do
  let b ← byte
  return b ≠ 0

def uint32 : Reader ℕ := do
  let b ← take 4
  return beValue b

def uint64 : Reader ℕ := do
  let b ← take 8
  return beValue b

def bytes (n : ℕ) : Reader Bytes := take n

def string (bound : ℕ) : Reader Bytes := do
  let declared ← uint32
  if declared > bound then throw (.oversized declared bound)
  take declared

/-- The comma scan of `name_list`. -/
def wellFormedNames (previousWasComma : Bool) : Bytes → Bool
  | [] => !previousWasComma
  | b :: rest =>
    if b = 0x2c then !previousWasComma && wellFormedNames true rest
    else decide (0x21 ≤ b ∧ b ≤ 0x7e) && wellFormedNames false rest

/-- The raw bytes of a name-list. -/
def nameList (bound : ℕ) : Reader Bytes := do
  let raw ← string bound
  if raw = [] then return []
  if wellFormedNames true raw then return raw else throw .badNameList

def finish : Reader Unit := fun input =>
  if input = [] then .ok ((), []) else .error (.trailingBytes input.length)

variable {α β : Type} {input rest : Bytes}

theorem run_bind_ok {p : Reader α} {f : α → Reader β} {b : β} :
    (p >>= f).run input = .ok (b, rest) ↔
      ∃ a mid, p.run input = .ok (a, mid) ∧ (f a).run mid = .ok (b, rest) := by
  rw [StateT.run_bind]
  cases hp : p.run input with
  | error e => simp [bind, Except.bind]
  | ok v =>
    obtain ⟨a, mid⟩ := v
    constructor
    · intro h
      exact ⟨a, mid, rfl, h⟩
    · rintro ⟨a', mid', h, hf⟩
      cases h
      exact hf

theorem run_pure_ok {a b : α} :
    (pure a : Reader α).run input = .ok (b, rest) ↔ a = b ∧ input = rest := by
  rw [StateT.run_pure]
  simp [pure, Except.pure]

/-- What reading `n` bytes leaves. -/
theorem take_ok {n : ℕ} {b : Bytes} (h : (take n).run input = .ok (b, rest)) :
    b.length = n ∧ input = b ++ rest := by
  simp only [take, StateT.run] at h
  split at h
  next => cases h
  next hlen =>
    cases h
    exact ⟨by rw [List.length_take]; omega, (List.take_append_drop n input).symm⟩

theorem uint32_lt {v : ℕ} (h : uint32.run input = .ok (v, rest)) : v < 2 ^ 32 := by
  simp only [uint32, run_bind_ok, run_pure_ok] at h
  obtain ⟨b, mid, hb, rfl, -⟩ := h
  have hlt := beValue_lt b
  rw [(take_ok hb).1] at hlt
  exact hlt

theorem string_length {bound : ℕ} {b : Bytes} (h : (string bound).run input = .ok (b, rest)) :
    b.length ≤ bound := by
  simp only [string, run_bind_ok] at h
  obtain ⟨declared, mid, -, hrest⟩ := h
  by_cases hle : declared > bound
  · rw [if_pos hle] at hrest
    cases hrest
  · rw [if_neg hle] at hrest
    rw [(take_ok hrest).1]
    omega

end Reader

/-- `NameList::names`. -/
def names (raw : Bytes) : List Bytes := (raw.splitOn 0x2c).filter fun name => name ≠ []

/-- `NameList::contains`. -/
def listContains (raw name : Bytes) : Bool := (names raw).any fun n => n = name

/-! ### Writers -/

def putBoolean (v : Bool) : Bytes := [if v then 1 else 0]

def putUint32 (v : ℕ) : Bytes :=
  [UInt8.ofNat (v / 2 ^ 24), UInt8.ofNat (v / 2 ^ 16), UInt8.ofNat (v / 2 ^ 8), UInt8.ofNat v]

def putString (v : Bytes) : Bytes := putUint32 v.length ++ v

def putNameList (joined : String) : Bytes := putString (utf8 joined)

/-! ### Reading back what was written -/

theorem beValue_putUint32 {v : ℕ} (hv : v < 2 ^ 32) : beValue (putUint32 v) = v := by
  simp only [beValue, putUint32, List.foldl_cons, List.foldl_nil, UInt8.toNat_ofNat']
  omega

theorem Reader.uint32_putUint32 {v : ℕ} (hv : v < 2 ^ 32) (rest : Bytes) :
    Reader.uint32.run (putUint32 v ++ rest) = .ok (v, rest) := by
  refine run_bind_ok.2 ⟨putUint32 v, rest, ?_, run_pure_ok.2 ⟨beValue_putUint32 hv, rfl⟩⟩
  simp [Reader.take, StateT.run, putUint32]

/-- Four bytes are always some number. -/
theorem Reader.exists_uint32_putUint32 (v : ℕ) (rest : Bytes) :
    ∃ v', Reader.uint32.run (putUint32 v ++ rest) = .ok (v', rest) := by
  refine ⟨beValue (putUint32 v), run_bind_ok.2 ⟨putUint32 v, rest, ?_, run_pure_ok.2 ⟨rfl, rfl⟩⟩⟩
  simp [Reader.take, StateT.run, putUint32]

theorem Reader.string_putString {b : Bytes} {bound : ℕ} (hbound : b.length ≤ bound)
    (hb : b.length < 2 ^ 32) (rest : Bytes) :
    (Reader.string bound).run (putString b ++ rest) = .ok (b, rest) := by
  have hread : Reader.uint32.run (putString b ++ rest) = .ok (b.length, b ++ rest) := by
    rw [putString, List.append_assoc]
    exact uint32_putUint32 hb _
  refine run_bind_ok.2 ⟨b.length, b ++ rest, hread, ?_⟩
  rw [if_neg (by omega)]
  simp [Reader.take, StateT.run]

end Wire

end QuantumSsh
