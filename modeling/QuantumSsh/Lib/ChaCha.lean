import Mathlib.Data.Nat.Basic
import Mathlib.Data.List.Basic

/-!
# ChaCha20 and Poly1305

The stream cipher with a 64-bit nonce and a 64-bit block counter, and the
one-time authenticator, both executable on byte lists.
-/

namespace ChaCha

/-- The value of a byte string, least significant byte first. -/
def leValue (b : List UInt8) : ℕ := b.foldr (fun x acc => x.toNat + 256 * acc) 0

/-- The `n` low bytes of a number, least significant first. -/
def leBytes : (n : ℕ) → ℕ → List UInt8
  | 0, _ => []
  | n + 1, v => UInt8.ofNat v :: leBytes n (v / 256)

theorem length_leBytes (n v : ℕ) : (leBytes n v).length = n := by
  induction n generalizing v with
  | zero => rfl
  | succ n ih => rw [leBytes, List.length_cons, ih]

/-! ### The stream cipher -/

/-- Four words of the state. -/
structure Row where
  w0 : UInt32
  w1 : UInt32
  w2 : UInt32
  w3 : UInt32

namespace Row

/-- A word operation on every lane. -/
def zip (f : UInt32 → UInt32 → UInt32) (a b : Row) : Row :=
  ⟨f a.w0 b.w0, f a.w1 b.w1, f a.w2 b.w2, f a.w3 b.w3⟩

def add : Row → Row → Row := zip (· + ·)

/-- Exclusive or, then a rotation to the left by `n` bits. -/
def xorRotate (n : UInt32) : Row → Row → Row :=
  zip fun a b => ((a ^^^ b) <<< n) ||| ((a ^^^ b) >>> (32 - n))

/-- The lanes moved one place. -/
def turn (a : Row) : Row := ⟨a.w1, a.w2, a.w3, a.w0⟩

/-- The row of four words at an offset. -/
def ofBytes (b : List UInt8) (offset : ℕ) : Row :=
  let word := fun i => UInt32.ofNat (leValue ((b.drop (offset + 4 * i)).take 4))
  ⟨word 0, word 1, word 2, word 3⟩

def toBytes (a : Row) : List UInt8 :=
  leBytes 4 a.w0.toNat ++ leBytes 4 a.w1.toNat ++ leBytes 4 a.w2.toNat ++ leBytes 4 a.w3.toNat

end Row

/-- The state: sixteen words. -/
structure State where
  a : Row
  b : Row
  c : Row
  d : Row

/-- The quarter round on the four columns. -/
def columns (s : State) : State :=
  let a := s.a.add s.b
  let d := s.d.xorRotate 16 a
  let c := s.c.add d
  let b := s.b.xorRotate 12 c
  let a := a.add b
  let d := d.xorRotate 8 a
  let c := c.add d
  let b := b.xorRotate 7 c
  ⟨a, b, c, d⟩

/-- A round on the columns and one on the diagonals. -/
def doubleRound (s : State) : State :=
  let s := columns s
  let s := columns ⟨s.a, s.b.turn, s.c.turn.turn, s.d.turn.turn.turn⟩
  ⟨s.a, s.b.turn.turn.turn, s.c.turn.turn, s.d.turn⟩

/-- The 64 bytes of a block of the keystream. -/
def block (key nonce : List UInt8) (counter : ℕ) : List UInt8 :=
  let start : State :=
    ⟨⟨0x61707865, 0x3320646e, 0x79622d32, 0x6b206574⟩, .ofBytes key 0, .ofBytes key 16,
      .ofBytes (leBytes 8 counter ++ nonce) 0⟩
  let s := Nat.repeat doubleRound 10 start
  (s.a.add start.a).toBytes ++ (s.b.add start.b).toBytes ++ (s.c.add start.c).toBytes ++
    (s.d.add start.d).toBytes

/-- The keystream byte at a position. -/
def keystream (key nonce : List UInt8) (position : ℕ) : UInt8 :=
  (block key nonce (position / 64)).getD (position % 64) 0

example : (List.range 8).map (keystream (List.replicate 32 0) (List.replicate 8 0)) =
    [0x76, 0xb8, 0xe0, 0xad, 0xa0, 0xf1, 0x3d, 0x90] := by
  decide

/-! ### The authenticator -/

/-- The accumulator over the message, sixteen bytes at a time; `fuel` bounds the rounds. -/
def accumulate (r : ℕ) : (fuel : ℕ) → (acc : ℕ) → List UInt8 → ℕ
  | 0, acc, _ => acc
  | _ + 1, acc, [] => acc
  | fuel + 1, acc, message =>
    let chunk := message.take 16
    accumulate r fuel ((acc + leValue chunk + 256 ^ chunk.length) * r % (2 ^ 130 - 5))
      (message.drop 16)

/-- The tag of a message under a 32-byte key. -/
def poly1305 (key message : List UInt8) : List UInt8 :=
  let r := leValue (key.take 16) &&& 0x0ffffffc0ffffffc0ffffffc0fffffff
  leBytes 16 (accumulate r message.length 0 message + leValue (key.drop 16))

example : poly1305 (leBytes 32 0x1bf54941aff6bf4afdb20dfb8a800301a806d542fe52447f336d555778bed685)
    "Cryptographic Forum Research Group".toByteArray.data.toList =
      leBytes 16 0xa927010caf8b2bc2c6365130c11d06a8 := by
  decide

end ChaCha
