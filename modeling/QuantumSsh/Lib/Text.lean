import Mathlib.Data.List.DropRight

/-!
# Text

A text is a list of characters. Lines, fields between white space and trimming, as
`str` has them, and the bytes of a text.
-/

/-- `str`. -/
abbrev Text := List Char

namespace Text

/-- `char::is_whitespace`: the property `White_Space`. -/
def isWhitespace (c : Char) : Bool :=
  decide ((0x9 ≤ c.toNat ∧ c.toNat ≤ 0xd) ∨ c.toNat = 0x20 ∨ c.toNat = 0x85 ∨ c.toNat = 0xa0 ∨
    c.toNat = 0x1680 ∨ (0x2000 ≤ c.toNat ∧ c.toNat ≤ 0x200a) ∨ c.toNat = 0x2028 ∨
    c.toNat = 0x2029 ∨ c.toNat = 0x202f ∨ c.toNat = 0x205f ∨ c.toNat = 0x3000)

/-- `str::trim_start`. -/
def trimStart (t : Text) : Text := t.dropWhile isWhitespace

/-- `str::trim_end`. -/
def trimEnd (t : Text) : Text := t.rdropWhile isWhitespace

/-- `str::trim`. -/
def trim (t : Text) : Text := trimEnd (trimStart t)

/-- `str::split_whitespace`. -/
def splitWhitespace (t : Text) : List Text := (t.splitOnP isWhitespace).filter (· ≠ [])

/-- A line without the carriage return before its newline. -/
def stripReturn (line : Text) : Text :=
  if line.getLast? = some '\r' then line.dropLast else line

/-- `str::lines`. The newline at the end is optional; a carriage return belongs to the line
end only in front of a newline. -/
def lines (t : Text) : List Text :=
  let pieces := t.splitOn '\n'
  pieces.dropLast.map stripReturn ++ pieces.getLast?.toList.filter (· ≠ [])

/-- `str::as_bytes`. -/
def bytes (t : Text) : List UInt8 := t.flatMap String.utf8EncodeChar

/-- `char::from` on each byte. -/
def ofAscii (b : List UInt8) : Text := b.map fun c => Char.ofNat c.toNat

/-! ### Trimming -/

/-- Nothing but white space is trimmed. -/
theorem trim_spec (t : Text) :
    ∃ before after, t = before ++ (trim t ++ after) ∧ (∀ c ∈ before, isWhitespace c = true) ∧
      ∀ c ∈ after, isWhitespace c = true := by
  refine ⟨t.takeWhile isWhitespace, (trimStart t).rtakeWhile isWhitespace, ?_, ?_, ?_⟩
  · rw [trim, trimEnd, List.rdropWhile_append_rtakeWhile, trimStart, List.takeWhile_append_dropWhile]
  · intro c hc
    exact List.mem_takeWhile_imp hc
  · intro c hc
    exact List.mem_rtakeWhile_imp hc

theorem trim_eq_nil {t : Text} : trim t = [] ↔ ∀ c ∈ t, isWhitespace c = true := by
  constructor
  · intro h c hc
    obtain ⟨before, after, ht, hbefore, hafter⟩ := trim_spec t
    rw [h, List.nil_append] at ht
    rw [ht, List.mem_append] at hc
    exact hc.elim (hbefore c) (hafter c)
  · intro h
    have hstart : trimStart t = [] := by
      rw [trimStart, List.dropWhile_eq_nil_iff]
      exact h
    rw [trim, hstart]
    rfl

/-- A trimmed text does not start with white space. -/
theorem head_trim_ne {t rest : Text} {c : Char} (h : trim t = c :: rest) : isWhitespace c = false := by
  have hprefix : trim t <+: trimStart t := List.rdropWhile_prefix _ _
  rw [h] at hprefix
  obtain ⟨after, hafter⟩ := hprefix
  have hnot := List.head?_dropWhile_not isWhitespace t
  rw [← trimStart, ← hafter] at hnot
  simpa using hnot

theorem trim_of_forall {t : Text} (h : ∀ c ∈ t, isWhitespace c = false) : trim t = t := by
  have hstart : trimStart t = t := by
    cases t with
    | nil => rfl
    | cons c t => exact List.dropWhile_cons_of_neg (by simp [h c List.mem_cons_self])
  rw [trim, hstart, trimEnd, List.rdropWhile_eq_self_iff]
  intro hne
  simp [h _ (List.getLast_mem hne)]

/-! ### Fields -/

/-- White space ends a field. -/
theorem splitWhitespace_append_cons {a b : Text} {c : Char} (h : isWhitespace c = true) :
    splitWhitespace (a ++ c :: b) = splitWhitespace a ++ splitWhitespace b := by
  rw [splitWhitespace, List.splitOnP_append_cons _ _ h, List.filter_append]
  rfl

theorem splitWhitespace_append_left {a b : Text} (h : ∀ c ∈ a, isWhitespace c = true) :
    splitWhitespace (a ++ b) = splitWhitespace b := by
  induction a with
  | nil => rfl
  | cons c a ih =>
    rw [List.forall_mem_cons] at h
    exact (splitWhitespace_append_cons (a := []) h.1).trans (ih h.2)

theorem splitWhitespace_append_right {a b : Text} (h : ∀ c ∈ b, isWhitespace c = true) :
    splitWhitespace (a ++ b) = splitWhitespace a := by
  cases b with
  | nil => rw [List.append_nil]
  | cons c b =>
    rw [List.forall_mem_cons] at h
    have hnil : splitWhitespace b = [] := by
      have := splitWhitespace_append_left (b := []) h.2
      rwa [List.append_nil] at this
    rw [splitWhitespace_append_cons h.1, hnil, List.append_nil]

theorem splitWhitespace_trim (t : Text) : splitWhitespace (trim t) = splitWhitespace t := by
  obtain ⟨before, after, ht, hbefore, hafter⟩ := trim_spec t
  conv_rhs => rw [ht]
  rw [splitWhitespace_append_left hbefore, splitWhitespace_append_right hafter]

/-! ### Lines -/

theorem splitOn_unlines {ls : List Text} (hnewline : ∀ l ∈ ls, '\n' ∉ l) :
    (ls.flatMap (· ++ ['\n'])).splitOn '\n' = ls ++ [[]] := by
  induction ls with
  | nil => rfl
  | cons l ls ih =>
    rw [List.forall_mem_cons] at hnewline
    rw [List.flatMap_cons, List.append_assoc, List.singleton_append,
      List.splitOn_append_cons_self_of_not_mem hnewline.1, ih hnewline.2, List.cons_append]

/-- Lines that hold no newline and end in no carriage return are read back. -/
theorem lines_unlines {ls : List Text} (hnewline : ∀ l ∈ ls, '\n' ∉ l)
    (hreturn : ∀ l ∈ ls, l.getLast? ≠ some '\r') : lines (ls.flatMap (· ++ ['\n'])) = ls := by
  have hstrip : ls.map stripReturn = ls := by
    refine (List.map_congr_left fun l hl => ?_).trans (List.map_id ls)
    exact if_neg (hreturn l hl)
  rw [lines, splitOn_unlines hnewline]
  simp only [List.dropLast_concat, List.getLast?_concat, hstrip]
  exact List.append_nil ls

/-! ### Bytes -/

theorem utf8EncodeChar_ofNat {b : UInt8} (h : b < 0x80) :
    String.utf8EncodeChar (Char.ofNat b.toNat) = [b] := by
  have hall : ∀ n : Fin 128, String.utf8EncodeChar (Char.ofNat n) = [UInt8.ofNat n] := by
    decide
  have hb : b.toNat < 128 := h
  rw [hall ⟨b.toNat, hb⟩, UInt8.ofNat_toNat]

theorem bytes_append (a b : Text) : bytes (a ++ b) = bytes a ++ bytes b := List.flatMap_append

theorem length_bytes_le (t : Text) : (bytes t).length ≤ 4 * t.length := by
  induction t with
  | nil => exact Nat.le_refl _
  | cons c t ih =>
    have hchar : (String.utf8EncodeChar c).length ≤ 4 := by
      rw [String.length_utf8EncodeChar]
      exact c.utf8Size_le_four
    rw [bytes, List.flatMap_cons, List.length_append, List.length_cons]
    rw [bytes] at ih
    omega

theorem bytes_ofAscii {b : List UInt8} (h : ∀ c ∈ b, c < 0x80) : bytes (ofAscii b) = b := by
  induction b with
  | nil => rfl
  | cons c b ih =>
    rw [List.forall_mem_cons] at h
    rw [ofAscii, List.map_cons, bytes, List.flatMap_cons, utf8EncodeChar_ofNat h.1]
    exact congrArg (c :: ·) (ih h.2)

end Text
