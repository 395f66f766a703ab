import Mathlib.Data.List.Forall2
import QuantumSsh.Lib.Text

/-!
# Flat JSON objects

A reader of one JSON object whose values are strings, integers, `true`, `false` and `null`, and
what it reads of texts that were put together member by member.
-/

namespace Json

inductive Value
  | null
  | bool (b : Bool)
  | int (n : ℤ)
  | str (t : Text)
  deriving DecidableEq

/-- White space between tokens. -/
def isSpace (c : Char) : Bool := c = ' ' || c = '\t' || c = '\n' || c = '\r'

def skipSpace (t : Text) : Text := t.dropWhile isSpace

/-! ### Strings -/

def hexValue (c : Char) : Option ℕ :=
  if 0x30 ≤ c.toNat ∧ c.toNat ≤ 0x39 then some (c.toNat - 0x30)
  else if 0x61 ≤ c.toNat ∧ c.toNat ≤ 0x66 then some (c.toNat - 0x57)
  else if 0x41 ≤ c.toNat ∧ c.toNat ≤ 0x46 then some (c.toNat - 0x37)
  else none

/-- The four digits of a `\u` escape. -/
def hex4 (a b c d : Char) : Option ℕ := do
  let high := (← hexValue a) * 16 + (← hexValue b)
  let low := (← hexValue c) * 16 + (← hexValue d)
  return high * 256 + low

/-- An escape of two characters. -/
def shortEscape (c : Char) : Option Char :=
  if c = '"' ∨ c = '\\' ∨ c = '/' then some c
  else if c = 'b' then some '\x08'
  else if c = 'f' then some '\x0c'
  else if c = 'n' then some '\n'
  else if c = 'r' then some '\r'
  else if c = 't' then some '\t'
  else none

/-- Puts a character in front of what the rest of a string reads as. -/
def push (c : Char) (read : Option (Text × Text)) : Option (Text × Text) :=
  read.map fun (s, rest) => (c :: s, rest)

/-- A string behind its opening quote, and what follows the closing one. -/
def string : Text → Option (Text × Text)
  | [] => none
  | c :: rest =>
    if c = '"' then some ([], rest)
    else if c = '\\' then
      match rest with
      | 'u' :: h₁ :: h₂ :: h₃ :: h₄ :: rest =>
        match hex4 h₁ h₂ h₃ h₄ with
        | none => none
        | some n =>
          if 0xd800 ≤ n ∧ n < 0xdc00 then
            -- the first half of a pair
            match rest with
            | '\\' :: 'u' :: l₁ :: l₂ :: l₃ :: l₄ :: rest =>
              match hex4 l₁ l₂ l₃ l₄ with
              | none => none
              | some m =>
                if 0xdc00 ≤ m ∧ m < 0xe000 then
                  push (Char.ofNat (0x10000 + (n - 0xd800) * 0x400 + (m - 0xdc00))) (string rest)
                else none
            | _ => none
          else if 0xdc00 ≤ n ∧ n < 0xe000 then none
          else push (Char.ofNat n) (string rest)
      | e :: rest =>
        match shortEscape e with
        | none => none
        | some c => push c (string rest)
      | [] => none
    else if c.toNat < 0x20 then none
    else push c (string rest)

theorem string_quote (rest : Text) : string ('"' :: rest) = some ([], rest) := by
  rw [string.eq_def]
  exact if_pos rfl

theorem string_plain {c : Char} (hquote : c ≠ '"') (hslash : c ≠ '\\') (hcontrol : 0x20 ≤ c.toNat)
    (rest : Text) : string (c :: rest) = push c (string rest) := by
  rw [string.eq_def]
  dsimp only
  rw [if_neg hquote, if_neg hslash, if_neg (by omega)]

theorem string_short {e c : Char} (he : e ≠ 'u') (h : shortEscape e = some c) (rest : Text) :
    string ('\\' :: e :: rest) = push c (string rest) := by
  rw [string, if_neg (by decide), if_pos rfl, h]
  intro _ _ _ _ _ heq
  exact absurd heq he

theorem string_hex {a b c d : Char} {n : ℕ} (h : hex4 a b c d = some n) (hn : n < 0xd800)
    (rest : Text) :
    string ('\\' :: 'u' :: a :: b :: c :: d :: rest) = push (Char.ofNat n) (string rest) := by
  rw [string.eq_def]
  dsimp only
  rw [if_neg (by decide), if_pos rfl]
  change (match hex4 a b c d with | none => none | some n => _) = _
  rw [h]
  dsimp only
  rw [if_neg (by omega), if_neg (by omega)]

/-! ### Integers -/

/-- Digits without a zero in front of others. -/
def natural (t : Text) : Option (ℕ × Text) :=
  let digits := t.takeWhile Char.isDigit
  if digits = [] ∨ (digits.head? = some '0' ∧ digits.length ≠ 1) then none
  else some (Nat.ofDigitChars 10 digits 0, t.dropWhile Char.isDigit)

def integer : Text → Option (ℤ × Text)
  | '-' :: t => (natural t).map fun (n, rest) => (-(n : ℤ), rest)
  | t => (natural t).map fun (n, rest) => ((n : ℤ), rest)

/-- The decimal digits of a number. -/
def decimal (n : ℤ) : Text :=
  if n < 0 then '-' :: Nat.toDigits 10 n.natAbs else Nat.toDigits 10 n.natAbs

theorem isDigit_of_mem {n : ℕ} {c : Char} (h : c ∈ Nat.toDigits 10 n) : c.isDigit = true :=
  Nat.isDigit_of_mem_toDigits (b := 10) (by decide) (by decide) h

/-- Only zero starts with a zero. -/
theorem head_toDigits {n : ℕ} (hn : n ≠ 0) : (Nat.toDigits 10 n).head? ≠ some '0' := by
  induction n using Nat.strongRecOn with
  | _ n ih =>
    by_cases hlt : n < 10
    · rw [Nat.toDigits_of_lt_base hlt]
      have hall : ∀ d : Fin 10, d.val ≠ 0 → [Nat.digitChar d].head? ≠ some '0' := by decide
      exact hall ⟨n, hlt⟩ hn
    · rw [Nat.toDigits_of_base_le (by decide) (by omega),
        List.head?_append_of_ne_nil _ Nat.toDigits_ne_nil]
      exact ih (n / 10) (by omega) (by omega)

theorem natural_toDigits (n : ℕ) {rest : Text} (hrest : ∀ c ∈ rest.head?, c.isDigit = false) :
    natural (Nat.toDigits 10 n ++ rest) = some (n, rest) := by
  have hdigits : ∀ c ∈ Nat.toDigits 10 n, c.isDigit = true := fun c => isDigit_of_mem
  have hstop : rest.takeWhile Char.isDigit = [] ∧ rest.dropWhile Char.isDigit = rest := by
    cases rest with
    | nil => exact ⟨rfl, rfl⟩
    | cons c rest =>
      have hc := hrest c rfl
      simp [hc]
  have htake : (Nat.toDigits 10 n ++ rest).takeWhile Char.isDigit = Nat.toDigits 10 n := by
    rw [List.takeWhile_append_of_pos hdigits, hstop.1, List.append_nil]
  have hdrop : (Nat.toDigits 10 n ++ rest).dropWhile Char.isDigit = rest := by
    rw [List.dropWhile_append_of_pos hdigits, hstop.2]
  rw [natural, htake, hdrop, if_neg, Nat.ofDigitChars_ten_toDigits]
  rintro (hnil | ⟨hzero, hone⟩)
  · exact Nat.toDigits_ne_nil hnil
  · by_cases hn : n = 0
    · subst hn
      exact hone rfl
    · exact head_toDigits hn hzero

theorem integer_decimal (n : ℤ) {rest : Text} (hrest : ∀ c ∈ rest.head?, c.isDigit = false) :
    integer (decimal n ++ rest) = some (n, rest) := by
  rw [decimal]
  split_ifs with hn
  · have habs : -(n.natAbs : ℤ) = n := by omega
    rw [List.cons_append, integer, natural_toDigits _ hrest, Option.map_some]
    dsimp only
    rw [habs]
  · have habs : (n.natAbs : ℤ) = n := by omega
    rw [integer, natural_toDigits _ hrest, Option.map_some]
    · dsimp only
      rw [habs]
    · intro t ht
      cases hdigits : Nat.toDigits 10 n.natAbs with
      | nil => exact Nat.toDigits_ne_nil hdigits
      | cons c cs =>
        have hc : c.isDigit = true := isDigit_of_mem (hdigits ▸ List.mem_cons_self)
        rw [hdigits, List.cons_append, List.cons.injEq] at ht
        rw [ht.1] at hc
        cases hc

/-! ### Objects -/

def value : Text → Option (Value × Text)
  | '"' :: t => (string t).map fun (s, rest) => (.str s, rest)
  | 't' :: 'r' :: 'u' :: 'e' :: rest => some (.bool true, rest)
  | 'f' :: 'a' :: 'l' :: 's' :: 'e' :: rest => some (.bool false, rest)
  | 'n' :: 'u' :: 'l' :: 'l' :: rest => some (.null, rest)
  | t => (integer t).map fun (n, rest) => (.int n, rest)

/-- A key, a colon and a value. -/
def member (t : Text) : Option ((Text × Value) × Text) :=
  match skipSpace t with
  | '"' :: t => do
    let (key, t) ← string t
    match skipSpace t with
    | ':' :: t => do
      let (v, t) ← value (skipSpace t)
      return ((key, v), skipSpace t)
    | _ => none
  | _ => none

/-- The members up to the closing brace, at most so many, and nothing behind it. -/
def members : ℕ → Text → Option (List (Text × Value))
  | 0, _ => none
  | fuel + 1, t => do
    let (m, t) ← member t
    match t with
    | ',' :: t => (members fuel t).map (m :: ·)
    | '}' :: t => if skipSpace t = [] then some [m] else none
    | _ => none

/-- One object, and nothing but white space around it. -/
def object (t : Text) : Option (List (Text × Value)) :=
  match skipSpace t with
  | '{' :: t =>
    match skipSpace t with
    | '}' :: t => if skipSpace t = [] then some [] else none
    | _ => members t.length t
  | _ => none

/-- The text reads as the member, in front of a comma or the closing brace. -/
def Reads (w : Text) (m : Text × Value) : Prop :=
  ∀ c rest, c = ',' ∨ c = '}' → member (w ++ c :: rest) = some (m, c :: rest)

/-- The text reads as the value, in front of a comma or the closing brace. -/
def ReadsValue (w : Text) (v : Value) : Prop :=
  ∀ c rest, c = ',' ∨ c = '}' →
    value (skipSpace (w ++ c :: rest)) = some (v, c :: rest)

/-- The text reads as the string, behind its opening quote. -/
def ReadsString (w s : Text) : Prop := ∀ rest, string (w ++ rest) = some (s, rest)

theorem skipSpace_cons {c : Char} (h : isSpace c = false) (rest : Text) :
    skipSpace (c :: rest) = c :: rest := by
  rw [skipSpace, List.dropWhile_cons_of_neg (by simp [h])]

theorem isSpace_of_end {c : Char} (h : c = ',' ∨ c = '}') : isSpace c = false := by
  obtain rfl | rfl := h <;> decide

theorem readsValue_string {w s : Text} (h : ReadsString w s) : ReadsValue ('"' :: w) (.str s) := by
  intro c rest _
  rw [List.cons_append, skipSpace_cons (by decide), value, h]
  rfl

theorem readsValue_bool (b : Bool) :
    ReadsValue (if b then "true".toList else "false".toList) (.bool b) := by
  intro c rest _
  cases b with
  | true => rfl
  | false => rfl

theorem readsValue_decimal (n : ℤ) : ReadsValue (decimal n) (.int n) := by
  intro c rest hc
  have hend : ∀ d ∈ (c :: rest).head?, d.isDigit = false := by
    rintro d ⟨⟩
    obtain rfl | rfl := hc <;> decide
  obtain ⟨d, ds, hd, hdigits⟩ : ∃ d ds, (d = '-' ∨ d.isDigit = true) ∧ decimal n = d :: ds := by
    rw [decimal]
    split_ifs
    · exact ⟨'-', _, .inl rfl, rfl⟩
    · cases hdigits : Nat.toDigits 10 n.natAbs with
      | nil => exact absurd hdigits Nat.toDigits_ne_nil
      | cons d ds =>
        exact ⟨d, ds, .inr (isDigit_of_mem (hdigits ▸ List.mem_cons_self)), rfl⟩
  have hspace : isSpace d = false := by
    rcases hd with rfl | hd
    · decide
    · by_contra hspace
      simp only [isSpace, Bool.or_eq_false_iff, decide_eq_false_iff_not, not_and_or, not_not] at hspace
      rcases hspace with ((rfl | rfl) | rfl) | rfl <;> cases hd
  have hinteger := integer_decimal n hend
  rw [hdigits, List.cons_append] at hinteger ⊢
  rw [skipSpace_cons hspace, value, hinteger]
  · rfl
  all_goals
    rintro _ heq
    rcases hd with rfl | hd
    · cases heq
    · rw [(List.cons.inj heq).1] at hd
      cases hd

theorem Reads.of_parts {k key w : Text} {v : Value} (hkey : ReadsString k key)
    (hvalue : ReadsValue w v) : Reads ('"' :: (k ++ ':' :: w)) (key, v) := by
  intro c rest hc
  rw [List.cons_append, List.append_assoc, List.cons_append, member, skipSpace_cons (by decide)]
  simp only [Option.bind_eq_bind]
  rw [hkey (':' :: (w ++ c :: rest)), Option.bind_some, skipSpace_cons (by decide)]
  simp only [hvalue c rest hc, Option.bind_some, skipSpace_cons (isSpace_of_end hc), Option.pure_def]

theorem members_of_reads {w : Text} {ws : List Text} {m : Text × Value} {ms : List (Text × Value)}
    (h : Reads w m) (hs : List.Forall₂ Reads ws ms) {fuel : ℕ} (hfuel : ms.length < fuel)
    {rest : Text} (hrest : skipSpace rest = []) :
    members fuel (w ++ ws.flatMap (',' :: ·) ++ '}' :: rest) = some (m :: ms) := by
  induction hs generalizing w m fuel with
  | nil =>
    cases fuel with
    | zero => omega
    | succ fuel =>
      rw [List.flatMap_nil, List.append_nil, members, h '}' rest (.inr rfl)]
      simp [hrest]
  | @cons w' m' ws ms h' hs ih =>
    cases fuel with
    | zero => omega
    | succ fuel =>
      have htext : w ++ (w' :: ws).flatMap (',' :: ·) ++ '}' :: rest =
          w ++ ',' :: (w' ++ ws.flatMap (',' :: ·) ++ '}' :: rest) := by simp
      rw [htext, members, h ',' _ (.inl rfl)]
      simp only [Option.bind_eq_bind, Option.bind_some]
      rw [ih h' (by simpa using hfuel)]
      rfl

theorem length_le_flatMap (ws : List Text) : ws.length ≤ (ws.flatMap (',' :: ·)).length := by
  induction ws with
  | nil => exact le_rfl
  | cons w ws ih =>
    simp only [List.flatMap_cons, List.length_append, List.length_cons]
    omega

/-- A text put together of members reads as the object that they make up. -/
theorem object_of_reads {w : Text} {ws : List Text} {m : Text × Value} {ms : List (Text × Value)}
    (h : Reads ('"' :: w) m) (hs : List.Forall₂ Reads ws ms) {rest : Text}
    (hrest : skipSpace rest = []) :
    object ('{' :: ('"' :: w ++ ws.flatMap (',' :: ·) ++ '}' :: rest)) = some (m :: ms) := by
  have hlength := length_le_flatMap ws
  rw [hs.length_eq] at hlength
  rw [object, skipSpace_cons (by decide)]
  simp only [List.cons_append]
  rw [skipSpace_cons (by decide)]
  refine members_of_reads h hs ?_ hrest
  simp only [List.length_append, List.length_cons]
  omega

end Json
