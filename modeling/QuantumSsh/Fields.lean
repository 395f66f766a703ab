import QuantumSsh.Lib.Parser
import QuantumSsh.Lib.Lists
import QuantumSsh.Packet
import Mathlib.Data.List.Induction

/-!
# What the readers accept

For each reader of `wire.rs`, the inputs it accepts, as the writer's encoding of
the value in front of the rest. The parsers of whole messages are taken apart with
these.
-/

namespace QuantumSsh.Wire

open Parser

/-! ### Big-endian numbers -/

theorem beValue_append (a b : Bytes) : beValue (a ++ b) = beValue a * 256 ^ b.length + beValue b := by
  induction b using List.reverseRecOn with
  | nil => simp [beValue]
  | append_singleton b x ih =>
    have hlast : ∀ c : Bytes, beValue (c ++ [x]) = beValue c * 256 + x.toNat := by
      intro c
      simp [beValue]
    rw [← List.append_assoc, hlast, hlast, ih, List.length_append, List.length_singleton]
    ring

/-- Four bytes are the encoding of their value. -/
theorem putUint32_beValue {b : Bytes} (h : b.length = 4) : putUint32 (beValue b) = b := by
  match b, h with
  | [w, x, y, z], _ =>
    have hw := w.toNat_lt
    have hx := x.toNat_lt
    have hy := y.toNat_lt
    have hz := z.toNat_lt
    have hvalue : beValue [w, x, y, z] =
        ((w.toNat * 256 + x.toNat) * 256 + y.toNat) * 256 + z.toNat := by
      simp [beValue]
    rw [hvalue, putUint32]
    have hbyte : ∀ (v : UInt8) (n : ℕ), n % 256 = v.toNat → UInt8.ofNat n = v := by
      intro v n hn
      apply UInt8.toNat_inj.1
      rw [UInt8.toNat_ofNat']
      exact hn
    rw [hbyte w _ (by omega), hbyte x _ (by omega), hbyte y _ (by omega), hbyte z _ (by omega)]

theorem putUint32_inj {v v' : ℕ} (hv : v < 2 ^ 32) (hv' : v' < 2 ^ 32)
    (h : putUint32 v = putUint32 v') : v = v' := by
  rw [← beValue_putUint32 hv, ← beValue_putUint32 hv', h]

theorem beValue_putUint64 {v : ℕ} (hv : v < 2 ^ 64) : beValue (putUint64 v) = v := by
  have hlow : beValue (putUint32 v) = v % 2 ^ 32 := by
    have hmod : putUint32 v = putUint32 (v % 2 ^ 32) := by
      simp only [putUint32, List.cons.injEq, and_true]
      refine ⟨?_, ?_, ?_, ?_⟩ <;> apply UInt8.toNat_inj.1 <;>
        simp only [UInt8.toNat_ofNat'] <;> omega
    rw [hmod, beValue_putUint32 (Nat.mod_lt _ (by decide))]
  rw [putUint64, beValue_append, beValue_putUint32 (by omega), hlow, length_putUint32]
  omega

/-- Eight bytes are the encoding of their value. -/
theorem putUint64_beValue {b : Bytes} (h : b.length = 8) : putUint64 (beValue b) = b := by
  have hsplit : b = b.take 4 ++ b.drop 4 := (List.take_append_drop 4 b).symm
  have hhigh : (b.take 4).length = 4 := by rw [List.length_take]; omega
  have hlow : (b.drop 4).length = 4 := by rw [List.length_drop]; omega
  have hvalue : beValue b = beValue (b.take 4) * 2 ^ 32 + beValue (b.drop 4) := by
    conv_lhs => rw [hsplit]
    rw [beValue_append, hlow]
    norm_num
  have hbound : beValue (b.drop 4) < 2 ^ 32 := by
    have := beValue_lt (b.drop 4)
    rwa [hlow] at this
  have hdiv : beValue b / 2 ^ 32 = beValue (b.take 4) := by omega
  have hmod : putUint32 (beValue b) = putUint32 (beValue (b.drop 4)) := by
    simp only [putUint32, List.cons.injEq, and_true]
    refine ⟨?_, ?_, ?_, ?_⟩ <;> apply UInt8.toNat_inj.1 <;>
      simp only [UInt8.toNat_ofNat'] <;> omega
  rw [putUint64, hdiv, hmod, putUint32_beValue hhigh, putUint32_beValue hlow, ← hsplit]

/-! ### The readers -/

/-- The name-lists: no empty name, and only printable US-ASCII. -/
def IsNameList (raw : Bytes) : Prop := raw = [] ∨ Reader.wellFormedNames true raw = true

instance (raw : Bytes) : Decidable (IsNameList raw) := inferInstanceAs (Decidable (_ ∨ _))

namespace Reader

variable {input rest : Bytes}

theorem take_ok_iff {n : ℕ} {b : Bytes} :
    (take n).run input = .ok (b, rest) ↔ b.length = n ∧ input = b ++ rest := by
  refine ⟨take_ok, ?_⟩
  rintro ⟨rfl, rfl⟩
  simp [take, StateT.run]

theorem byte_ok {b : UInt8} : byte.run input = .ok (b, rest) ↔ input = b :: rest := by
  cases input with
  | nil => simp [byte, StateT.run]
  | cons b' rest' => simp [byte, StateT.run]

theorem boolean_ok {v : Bool} :
    boolean.run input = .ok (v, rest) ↔ ∃ b, input = b :: rest ∧ v = decide (b ≠ 0) := by
  simp only [boolean, run_bind_ok, run_pure_ok, byte_ok]
  constructor
  · rintro ⟨b, _, rfl, rfl, rfl⟩
    exact ⟨b, rfl, rfl⟩
  · rintro ⟨b, rfl, rfl⟩
    exact ⟨b, rest, rfl, rfl, rfl⟩

theorem uint32_ok {v : ℕ} :
    uint32.run input = .ok (v, rest) ↔ v < 2 ^ 32 ∧ input = putUint32 v ++ rest := by
  constructor
  · intro h
    have hlt := uint32_lt h
    simp only [uint32, run_bind_ok, run_pure_ok, take_ok_iff] at h
    obtain ⟨b, _, ⟨hlen, rfl⟩, rfl, rfl⟩ := h
    exact ⟨hlt, by rw [putUint32_beValue hlen]⟩
  · rintro ⟨hlt, rfl⟩
    exact uint32_putUint32 hlt rest

theorem uint64_ok {v : ℕ} :
    uint64.run input = .ok (v, rest) ↔ v < 2 ^ 64 ∧ input = putUint64 v ++ rest := by
  simp only [uint64, run_bind_ok, run_pure_ok, take_ok_iff]
  constructor
  · rintro ⟨b, _, ⟨hlen, rfl⟩, rfl, rfl⟩
    have hlt := beValue_lt b
    rw [hlen] at hlt
    exact ⟨hlt, by rw [putUint64_beValue hlen]⟩
  · rintro ⟨hlt, rfl⟩
    exact ⟨putUint64 v, rest, ⟨rfl, rfl⟩, beValue_putUint64 hlt, rfl⟩

theorem string_ok {bound : ℕ} {b : Bytes} :
    (string bound).run input = .ok (b, rest) ↔
      (b.length ≤ bound ∧ b.length < 2 ^ 32) ∧ input = putString b ++ rest := by
  constructor
  · intro h
    have hbound := string_length h
    simp only [string, run_bind_ok, uint32_ok] at h
    obtain ⟨declared, _, ⟨hlt, rfl⟩, h⟩ := h
    rw [run_check_ok, take_ok_iff] at h
    obtain ⟨-, rfl, rfl⟩ := h
    exact ⟨⟨hbound, hlt⟩, by rw [putString, List.append_assoc]⟩
  · rintro ⟨⟨hbound, hlt⟩, rfl⟩
    exact string_putString hbound hlt rest

theorem nameList_ok {bound : ℕ} {raw : Bytes} :
    (nameList bound).run input = .ok (raw, rest) ↔
      (IsNameList raw ∧ raw.length ≤ bound ∧ raw.length < 2 ^ 32) ∧
        input = putString raw ++ rest := by
  simp only [nameList, run_bind_ok, string_ok]
  constructor
  · rintro ⟨b, _, ⟨hlen, rfl⟩, h⟩
    by_cases hnil : b = []
    · rw [if_pos hnil, run_pure_ok] at h
      obtain ⟨rfl, rfl⟩ := h
      exact ⟨⟨.inl rfl, by rwa [hnil] at hlen⟩, by rw [hnil]⟩
    · rw [if_neg hnil] at h
      by_cases hnames : wellFormedNames true b = true
      · rw [if_pos hnames, run_pure_ok] at h
        obtain ⟨rfl, rfl⟩ := h
        exact ⟨⟨.inr hnames, hlen⟩, rfl⟩
      · rw [if_neg hnames] at h
        exact absurd h run_throw_ok
  · rintro ⟨⟨hnames, hlen⟩, rfl⟩
    refine ⟨raw, rest, ⟨hlen, rfl⟩, ?_⟩
    by_cases hnil : raw = []
    · rw [if_pos hnil, run_pure_ok]
      exact ⟨hnil.symm, rfl⟩
    · rw [if_neg hnil, if_pos (hnames.resolve_left hnil), run_pure_ok]
      exact ⟨rfl, rfl⟩

theorem finish_ok {u : Unit} : finish.run input = .ok (u, rest) ↔ input = [] ∧ rest = [] := by
  by_cases h : input = []
  · simp [finish, StateT.run, h, eq_comm]
  · simp [finish, StateT.run, h]

/-- The strings of at most `bound` bytes are decoded in one way only. -/
theorem string_exact (bound : ℕ) :
    Exact (string bound) fun b w => (b.length ≤ bound ∧ b.length < 2 ^ 32) ∧ w = putString b := by
  intro b input rest
  rw [string_ok]
  constructor
  · rintro ⟨hlen, rfl⟩
    exact ⟨putString b, ⟨hlen, rfl⟩, rfl⟩
  · rintro ⟨_, ⟨hlen, rfl⟩, rfl⟩
    exact ⟨hlen, rfl⟩

end Reader

theorem putString_append_inj {a b r s : Bytes} (ha : a.length < 2 ^ 32) (hb : b.length < 2 ^ 32)
    (h : putString a ++ r = putString b ++ s) : a = b ∧ r = s :=
  (Reader.string_exact (2 ^ 32)).unique ⟨⟨ha.le, ha⟩, rfl⟩ ⟨⟨hb.le, hb⟩, rfl⟩ h

end QuantumSsh.Wire
