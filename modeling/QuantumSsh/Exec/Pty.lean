import Mathlib.Data.List.Induction
import Mathlib.Logic.Function.Basic
import QuantumSsh.Wire

/-!
# Terminal modes

The modes that a `pty-req` carries: the parser of their blob, and what applying them does to a
termios. The bits of a termios are those of a platform.
-/

namespace QuantumSsh.Pty

open Wire

/-! ### The blob -/

/-- `TruncatedMode`. -/
inductive TruncatedMode
  | mk
  deriving DecidableEq

/-- `Modes`: the value of each opcode. -/
@[ext]
structure Modes where
  values : ℕ → Option ℕ

/-- Puts a value in place of the one before. -/
def Modes.set (modes : Modes) (opcode value : ℕ) : Modes where
  values := Function.update modes.values opcode (some value)

theorem Modes.set_values_self (modes : Modes) (opcode value : ℕ) :
    (modes.set opcode value).values opcode = some value :=
  Function.update_self ..

theorem Modes.set_values_of_ne (modes : Modes) {opcode other : ℕ} (value : ℕ) (h : other ≠ opcode) :
    (modes.set opcode value).values other = modes.values other :=
  Function.update_of_ne h ..

/-- The loop of `parse`. -/
def Modes.parseFrom (modes : Modes) : Bytes → Except TruncatedMode Modes
  | [] => .ok modes
  | opcode :: tail =>
    if opcode.toNat = 0 ∨ 160 ≤ opcode.toNat then .ok modes
    else
      match tail with
      | a :: b :: c :: d :: rest => parseFrom (modes.set opcode.toNat (beValue [a, b, c, d])) rest
      | _ => .error .mk

/-- `Modes::parse`. -/
def Modes.parse (blob : Bytes) : Except TruncatedMode Modes :=
  Modes.parseFrom { values := fun _ => none } blob

/-- `Modes::get`. -/
def Modes.get (modes : Modes) (opcode : ℕ) : Option ℕ := modes.values opcode

/-! ### The platform -/

inductive Os
  | linux
  | macos
  deriving DecidableEq

/-- `SpecialCodeIndex`. -/
inductive SpecialCodeIndex
  | vintr | vquit | verase | vkill | veof | veol | veol2 | vstart | vstop | vsusp | vdsusp
  | vreprint | vwerase | vlnext | vswtc | vstatus | vdiscard
  deriving DecidableEq

/-- `InputModes`, the flags that an opcode names. -/
inductive InputMode
  | ignpar | parmrk | inpck | istrip | inlcr | igncr | icrnl | iuclc | ixon | ixany | ixoff
  | imaxbel | iutf8
  deriving DecidableEq

/-- `LocalModes`. -/
inductive LocalMode
  | isig | icanon | xcase | echo | echoe | echok | echonl | noflsh | tostop | iexten | echoctl
  | echoke | pendin
  deriving DecidableEq

/-- `OutputModes`. -/
inductive OutputMode
  | opost | olcuc | onlcr | ocrnl | onocr | onlret
  deriving DecidableEq

/-- `ControlModes`. -/
inductive ControlMode
  | parenb | parodd
  deriving DecidableEq

/-- `Flag`. -/
inductive Flag
  | input (f : InputMode)
  | «local» (f : LocalMode)
  | output (f : OutputMode)
  | control (f : ControlMode)
  deriving DecidableEq

/-- The fields of a termios that hold flags. -/
inductive Field
  | input | «local» | output | control
  deriving DecidableEq

def Flag.field : Flag → Field
  | .input _ => .input
  | .local _ => .local
  | .output _ => .output
  | .control _ => .control

/-- The constants of a platform. A flag is one bit of its field; the size of a character takes
several bits of the control field, and no flag has one of them. -/
structure Platform where
  os : Os
  width : ℕ
  bit : Flag → Fin width
  csize : BitVec width
  cs7 : BitVec width
  cs8 : BitVec width
  posixVdisable : UInt8
  csize_bit : ∀ f, csize.getLsbD (bit (.control f)) = false
  cs7_csize : cs7 &&& csize = cs7
  cs8_csize : cs8 &&& csize = cs8

/-- `Termios`. -/
structure Termios (P : Platform) where
  specialCodes : SpecialCodeIndex → UInt8
  modes : Field → BitVec P.width

/-! ### What the opcodes name -/

/-- `special_code`. -/
def specialCode (os : Os) (opcode : ℕ) : Option SpecialCodeIndex :=
  match opcode with
  | 1 => some .vintr
  | 2 => some .vquit
  | 3 => some .verase
  | 4 => some .vkill
  | 5 => some .veof
  | 6 => some .veol
  | 7 => some .veol2
  | 8 => some .vstart
  | 9 => some .vstop
  | 10 => some .vsusp
  | 11 => if os = .macos then some .vdsusp else none
  | 12 => some .vreprint
  | 13 => some .vwerase
  | 14 => some .vlnext
  | 16 => if os = .linux then some .vswtc else none
  | 17 => if os = .macos then some .vstatus else none
  | 18 => some .vdiscard
  | _ => none

/-- `flag`. -/
def flag (os : Os) (opcode : ℕ) : Option Flag :=
  match opcode with
  | 30 => some (.input .ignpar)
  | 31 => some (.input .parmrk)
  | 32 => some (.input .inpck)
  | 33 => some (.input .istrip)
  | 34 => some (.input .inlcr)
  | 35 => some (.input .igncr)
  | 36 => some (.input .icrnl)
  | 37 => if os = .linux then some (.input .iuclc) else none
  | 38 => some (.input .ixon)
  | 39 => some (.input .ixany)
  | 40 => some (.input .ixoff)
  | 41 => some (.input .imaxbel)
  | 42 => some (.input .iutf8)
  | 50 => some (.local .isig)
  | 51 => some (.local .icanon)
  | 52 => if os = .linux then some (.local .xcase) else none
  | 53 => some (.local .echo)
  | 54 => some (.local .echoe)
  | 55 => some (.local .echok)
  | 56 => some (.local .echonl)
  | 57 => some (.local .noflsh)
  | 58 => some (.local .tostop)
  | 59 => some (.local .iexten)
  | 60 => some (.local .echoctl)
  | 61 => some (.local .echoke)
  | 62 => some (.local .pendin)
  | 70 => some (.output .opost)
  | 71 => if os = .linux then some (.output .olcuc) else none
  | 72 => some (.output .onlcr)
  | 73 => some (.output .ocrnl)
  | 74 => some (.output .onocr)
  | 75 => some (.output .onlret)
  | 92 => some (.control .parenb)
  | 93 => some (.control .parodd)
  | _ => none

/-! ### Applying the modes -/

variable {P : Platform}

/-- `Flag::set`. -/
def Flag.set (f : Flag) (t : Termios P) (on : Bool) : Termios P :=
  { t with
    modes := Function.update t.modes f.field
      (if on then t.modes f.field ||| BitVec.twoPow P.width (P.bit f)
        else t.modes f.field &&& ~~~BitVec.twoPow P.width (P.bit f)) }

/-- One round of `apply`'s loop. -/
def Modes.applyOpcode (modes : Modes) (t : Termios P) (opcode : ℕ) : Termios P :=
  match modes.get opcode with
  | none => t
  | some value =>
    match specialCode P.os opcode with
    | some index =>
      -- 255 disables the character, and what is above a byte is ignored
      if value < 256 then
        let byte := if value = 255 then P.posixVdisable else UInt8.ofNat value
        { t with specialCodes := Function.update t.specialCodes index byte }
      else t
    | none =>
      match flag P.os opcode with
      | some f => f.set t (decide (value ≠ 0))
      | none => t

/-- The size that the blob asks for. -/
def Modes.size (modes : Modes) (P : Platform) : Option (BitVec P.width) :=
  if (modes.get 91).any (· ≠ 0) then some P.cs8
  else if (modes.get 90).any (· ≠ 0) then some P.cs7
  else none

/-- `Modes::apply`. -/
def Modes.apply (modes : Modes) (t : Termios P) : Termios P :=
  let t := (List.range' 1 159).foldl modes.applyOpcode t
  match modes.size P with
  | some size =>
    { t with modes := Function.update t.modes .control ((t.modes .control &&& ~~~P.csize) ||| size) }
  | none => t

/-! ### What the parser accepts -/

/-- An opcode that takes an argument. -/
def IsMode (opcode : UInt8) : Prop := opcode.toNat ≠ 0 ∧ opcode.toNat < 160

/-- An opcode with its argument. -/
structure Entry where
  opcode : UInt8
  isMode : IsMode opcode
  argument : Vector UInt8 4

/-- The bytes of the entries. -/
def encode (entries : List Entry) : Bytes := entries.flatMap fun e => e.opcode :: e.argument.toList

/-- The argument of the last entry of an opcode. -/
def lastValue (entries : List Entry) (opcode : ℕ) : Option ℕ :=
  (entries.filter fun e => decide (e.opcode.toNat = opcode)).getLast?.map fun e =>
    beValue e.argument.toList

theorem parseFrom_entry (modes : Modes) (e : Entry) (rest : Bytes) :
    modes.parseFrom (e.opcode :: e.argument.toList ++ rest) =
      (modes.set e.opcode.toNat (beValue e.argument.toList)).parseFrom rest := by
  obtain ⟨opcode, hmode, argument⟩ := e
  obtain ⟨a, b, c, d, hargument⟩ : ∃ a b c d, argument.toList = [a, b, c, d] := by
    have hlength : argument.toList.length = 4 := by simp
    match argument.toList, hlength with
    | [a, b, c, d], _ => exact ⟨a, b, c, d, rfl⟩
  obtain ⟨hzero, hlt⟩ := hmode
  have hgoes : ¬(opcode.toNat = 0 ∨ 160 ≤ opcode.toNat) := by omega
  simp only [hargument, List.cons_append, List.nil_append]
  rw [Modes.parseFrom.eq_def]
  exact if_neg hgoes

/-- The modes after the entries. -/
def Modes.setAll (modes : Modes) (entries : List Entry) : Modes :=
  entries.foldl (fun modes e => modes.set e.opcode.toNat (beValue e.argument.toList)) modes

theorem parseFrom_encode (modes : Modes) (entries : List Entry) (rest : Bytes) :
    modes.parseFrom (encode entries ++ rest) = (modes.setAll entries).parseFrom rest := by
  induction entries generalizing modes with
  | nil => rfl
  | cons e entries ih =>
    rw [encode, List.flatMap_cons, List.append_assoc, parseFrom_entry]
    exact ih _

/-- The last entry of an opcode gives its value, and the first modes give those of the others. -/
theorem setAll_values (entries : List Entry) (modes : Modes) (opcode : ℕ) :
    (modes.setAll entries).values opcode = (lastValue entries opcode).or (modes.values opcode) := by
  induction entries using List.reverseRecOn with
  | nil => rfl
  | append_singleton entries e ih =>
    rw [Modes.setAll] at ih ⊢
    rw [List.foldl_append, List.foldl_cons, List.foldl_nil]
    by_cases hopcode : e.opcode.toNat = opcode
    · subst hopcode
      rw [Modes.set_values_self]
      simp [lastValue]
    · rw [Modes.set_values_of_ne _ _ (Ne.symm hopcode), ih]
      simp [lastValue, hopcode]

/-- What stands behind the entries: nothing, a terminator, or an opcode whose argument is cut
short. -/
inductive Rest : Bytes → Prop
  | nil : Rest []
  | terminator {opcode : UInt8} (tail : Bytes) (h : ¬IsMode opcode) : Rest (opcode :: tail)
  | short {opcode : UInt8} {tail : Bytes} (h : IsMode opcode) (hlength : tail.length < 4) :
      Rest (opcode :: tail)

/-- Every blob is entries with one of the three behind them. -/
theorem exists_entries (blob : Bytes) : ∃ entries rest, blob = encode entries ++ rest ∧ Rest rest := by
  induction hn : blob.length using Nat.strongRecOn generalizing blob with
  | _ n ih =>
    match blob with
    | [] => exact ⟨[], [], rfl, .nil⟩
    | opcode :: tail =>
      by_cases hmode : opcode.toNat ≠ 0 ∧ opcode.toNat < 160
      · match tail with
        | a :: b :: c :: d :: rest =>
          simp only [List.length_cons] at hn
          obtain ⟨entries, rest', hblob, hrest⟩ := ih rest.length (by omega) rest rfl
          refine ⟨⟨opcode, hmode, #v[a, b, c, d]⟩ :: entries, rest', ?_, hrest⟩
          rw [hblob]
          rfl
        | [] | [_] | [_, _] | [_, _, _] =>
          exact ⟨[], _, rfl, .short hmode (by simp)⟩
      · exact ⟨[], _, rfl, .terminator tail hmode⟩

/-- The blob ends there, or a terminator does. -/
def Terminated (rest : Bytes) : Prop :=
  rest = [] ∨ ∃ opcode tail, rest = opcode :: tail ∧ ¬IsMode opcode

theorem parse_terminated (entries : List Entry) {rest : Bytes} (h : Terminated rest) :
    Modes.parse (encode entries ++ rest) = .ok { values := lastValue entries } := by
  rw [Modes.parse, parseFrom_encode]
  have hvalues : Modes.setAll { values := fun _ => none } entries =
      { values := lastValue entries } := by
    apply Modes.ext
    funext opcode
    rw [setAll_values, Option.or_none]
  rw [hvalues]
  obtain rfl | ⟨opcode, tail, rfl, hmode⟩ := h
  · rfl
  · rw [IsMode, not_and_or, not_not, not_lt] at hmode
    rw [Modes.parseFrom.eq_def]
    exact if_pos hmode

theorem parse_short (entries : List Entry) {opcode : UInt8} {tail : Bytes} (h : IsMode opcode)
    (hlength : tail.length < 4) :
    Modes.parse (encode entries ++ opcode :: tail) = .error .mk := by
  have hgoes : ¬(opcode.toNat = 0 ∨ 160 ≤ opcode.toNat) := by
    have := h.1
    have := h.2
    omega
  rw [Modes.parse, parseFrom_encode, Modes.parseFrom.eq_def]
  dsimp only
  rw [if_neg hgoes]
  match tail, hlength with
  | [], _ | [_], _ | [_, _], _ | [_, _, _], _ => rfl

/-- What the parser makes of a blob is decided by what stands behind its entries. -/
theorem parse_cases (blob : Bytes) :
    (∃ entries opcode tail, blob = encode entries ++ opcode :: tail ∧ IsMode opcode ∧
      tail.length < 4 ∧ Modes.parse blob = .error .mk) ∨
    ∃ entries rest, blob = encode entries ++ rest ∧ Terminated rest ∧
      Modes.parse blob = .ok { values := lastValue entries } := by
  obtain ⟨entries, rest, rfl, hrest⟩ := exists_entries blob
  cases hrest with
  | nil => exact .inr ⟨entries, _, rfl, .inl rfl, parse_terminated entries (.inl rfl)⟩
  | @terminator opcode tail h =>
    have hend : Terminated (opcode :: tail) := .inr ⟨opcode, tail, rfl, h⟩
    exact .inr ⟨entries, _, rfl, hend, parse_terminated entries hend⟩
  | @short opcode tail h hlength =>
    exact .inl ⟨entries, opcode, tail, rfl, h, hlength, parse_short entries h hlength⟩

/-! ### What applying changes -/

/-- What the rounds of a loop changed, one of them changed. -/
theorem exists_of_foldl_ne {α β γ : Type} {step : β → α → β} {f : β → γ} {l : List α} {b : β}
    (h : f (l.foldl step b) ≠ f b) : ∃ a b, f (step b a) ≠ f b := by
  induction l generalizing b with
  | nil => exact absurd rfl h
  | cons a l ih =>
    by_cases hstep : f (step b a) = f b
    · rw [List.foldl_cons, ← hstep] at h
      exact ih h
    · exact ⟨a, b, hstep⟩

theorem Flag.getLsbD_set (f : Flag) (t : Termios P) (on : Bool) (field : Field) (j : ℕ) :
    ((f.set t on).modes field).getLsbD j =
      if f.field = field ∧ (P.bit f : ℕ) = j then on else (t.modes field).getLsbD j := by
  simp only [Flag.set]
  by_cases hfield : f.field = field
  · subst hfield
    rw [Function.update_self]
    have hlt := (P.bit f).isLt
    by_cases hj : (P.bit f : ℕ) = j
    · subst hj
      cases on <;> simp [hlt]
    · cases on with
      | true => simp [hj]
      | false => simpa [hj] using BitVec.lt_of_getLsbD
  · rw [Function.update_of_ne (Ne.symm hfield), if_neg fun h => hfield h.1]

/-- A round changes the one character that its opcode names. -/
theorem applyOpcode_specialCodes {modes : Modes} {t : Termios P} {opcode : ℕ}
    {index : SpecialCodeIndex}
    (h : (modes.applyOpcode t opcode).specialCodes index ≠ t.specialCodes index) :
    ∃ value, modes.get opcode = some value ∧ specialCode P.os opcode = some index := by
  rw [Modes.applyOpcode] at h
  cases hget : modes.get opcode with
  | none =>
    rw [hget] at h
    exact absurd rfl h
  | some value =>
    refine ⟨value, rfl, ?_⟩
    rw [hget] at h
    dsimp only at h
    cases hcode : specialCode P.os opcode with
    | none =>
      rw [hcode] at h
      dsimp only at h
      cases hflag : flag P.os opcode with
      | none =>
        rw [hflag] at h
        exact absurd rfl h
      | some f =>
        rw [hflag] at h
        exact absurd rfl h
    | some other =>
      rw [hcode] at h
      dsimp only at h
      by_cases hvalue : value < 256
      · rw [if_pos hvalue] at h
        by_contra hne
        have hother : index ≠ other := fun heq => hne (congrArg some heq.symm)
        exact h (Function.update_of_ne hother ..)
      · rw [if_neg hvalue] at h
        exact absurd rfl h

/-- A round changes the one flag that its opcode names. -/
theorem applyOpcode_modes {modes : Modes} {t : Termios P} {opcode : ℕ} {field : Field} {j : ℕ}
    (h : ((modes.applyOpcode t opcode).modes field).getLsbD j ≠ (t.modes field).getLsbD j) :
    ∃ value f, modes.get opcode = some value ∧ flag P.os opcode = some f ∧ f.field = field ∧
      (P.bit f : ℕ) = j := by
  rw [Modes.applyOpcode] at h
  cases hget : modes.get opcode with
  | none =>
    rw [hget] at h
    exact absurd rfl h
  | some value =>
    rw [hget] at h
    dsimp only at h
    cases hcode : specialCode P.os opcode with
    | some other =>
      rw [hcode] at h
      dsimp only at h
      by_cases hvalue : value < 256
      · rw [if_pos hvalue] at h
        exact absurd rfl h
      · rw [if_neg hvalue] at h
        exact absurd rfl h
    | none =>
      rw [hcode] at h
      dsimp only at h
      cases hflag : flag P.os opcode with
      | none =>
        rw [hflag] at h
        exact absurd rfl h
      | some f =>
        rw [hflag] at h
        dsimp only at h
        rw [Flag.getLsbD_set] at h
        split_ifs at h with hbit
        · exact ⟨value, f, rfl, rfl, hbit⟩
        · exact absurd rfl h

/-- The loop leaves the size of a character as it was. -/
theorem foldl_csize (modes : Modes) (t : Termios P) (l : List ℕ) :
    (l.foldl modes.applyOpcode t).modes .control &&& P.csize = t.modes .control &&& P.csize := by
  apply BitVec.eq_of_getLsbD_eq
  intro j hj
  rw [BitVec.getLsbD_and, BitVec.getLsbD_and]
  cases hsize : P.csize.getLsbD j with
  | false => rw [Bool.and_false, Bool.and_false]
  | true =>
    rw [Bool.and_true, Bool.and_true]
    by_contra hne
    obtain ⟨opcode, t', hstep⟩ :=
      exists_of_foldl_ne (f := fun t : Termios P => (t.modes .control).getLsbD j) hne
    obtain ⟨value, f, -, -, hfield, hbit⟩ := applyOpcode_modes hstep
    -- no flag of the control field is one of these bits
    cases f with
    | input | «local» | output => cases hfield
    | control f =>
      have hnot := P.csize_bit f
      rw [hbit, hsize] at hnot
      cases hnot

theorem and_csize (x size : BitVec P.width) (hsize : size &&& P.csize = size) :
    ((x &&& ~~~P.csize) ||| size) &&& P.csize = size := by
  apply BitVec.eq_of_getLsbD_eq
  intro j hj
  have hbit := congrArg (fun y => y.getLsbD j) hsize
  simp only [BitVec.getLsbD_and, BitVec.getLsbD_or, BitVec.getLsbD_not] at hbit ⊢
  cases hsize : size.getLsbD j <;> cases hcsize : P.csize.getLsbD j <;> simp_all

theorem size_and_csize {modes : Modes} {size : BitVec P.width} (h : modes.size P = some size) :
    size &&& P.csize = size := by
  rw [Modes.size] at h
  split_ifs at h <;> cases h
  · exact P.cs8_csize
  · exact P.cs7_csize

/-- The size ends as it was or as one of the two that the blob can ask for. -/
theorem apply_csize (modes : Modes) (t : Termios P) :
    (modes.apply t).modes .control &&& P.csize =
      (modes.size P).getD (t.modes .control &&& P.csize) := by
  rw [Modes.apply]
  cases hsize : modes.size P with
  | none => exact foldl_csize modes t _
  | some size =>
    dsimp only
    rw [Function.update_self, and_csize _ size (size_and_csize hsize)]
    rfl

theorem apply_specialCodes {modes : Modes} {t : Termios P} {index : SpecialCodeIndex}
    (h : (modes.apply t).specialCodes index ≠ t.specialCodes index) :
    ∃ opcode value, modes.get opcode = some value ∧ specialCode P.os opcode = some index := by
  have hloop : ((List.range' 1 159).foldl modes.applyOpcode t).specialCodes index ≠
      t.specialCodes index := by
    rw [Modes.apply] at h
    cases hsize : modes.size P <;> rw [hsize] at h <;> exact h
  obtain ⟨opcode, t', hstep⟩ :=
    exists_of_foldl_ne (f := fun t : Termios P => t.specialCodes index) hloop
  exact ⟨opcode, applyOpcode_specialCodes hstep⟩

theorem apply_modes {modes : Modes} {t : Termios P} {field : Field} {j : ℕ}
    (h : ((modes.apply t).modes field).getLsbD j ≠ (t.modes field).getLsbD j) :
    (∃ opcode value f, modes.get opcode = some value ∧ flag P.os opcode = some f ∧
      f.field = field ∧ (P.bit f : ℕ) = j) ∨ field = .control ∧ P.csize.getLsbD j = true := by
  by_cases hcsize : field = .control ∧ P.csize.getLsbD j = true
  · exact .inr hcsize
  refine .inl ?_
  have hloop : (((List.range' 1 159).foldl modes.applyOpcode t).modes field).getLsbD j ≠
      (t.modes field).getLsbD j := by
    rw [Modes.apply] at h
    cases hsize : modes.size P with
    | none =>
      rw [hsize] at h
      exact h
    | some size =>
      rw [hsize] at h
      dsimp only at h
      by_cases hfield : field = .control
      · subst hfield
        have hoff : P.csize.getLsbD j = false := by simpa using hcsize
        have hmask : size.getLsbD j = false := by
          rw [← size_and_csize hsize, BitVec.getLsbD_and, hoff, Bool.and_false]
        rw [Function.update_self, BitVec.getLsbD_or, BitVec.getLsbD_and, BitVec.getLsbD_not, hoff,
          hmask] at h
        intro heq
        refine h ?_
        rw [heq]
        cases hbit : (t.modes .control).getLsbD j with
        | false => rfl
        | true => simp [BitVec.lt_of_getLsbD hbit]
      · rwa [Function.update_of_ne hfield] at h
  obtain ⟨opcode, t', hstep⟩ :=
    exists_of_foldl_ne (f := fun t : Termios P => (t.modes field).getLsbD j) hloop
  exact ⟨opcode, applyOpcode_modes hstep⟩

/-- Entries of each opcode in the same order give the same modes, whatever the order of distinct
opcodes. -/
theorem lastValue_congr {entries entries' : List Entry}
    (h : ∀ opcode, entries.filter (fun e => decide (e.opcode.toNat = opcode)) =
      entries'.filter fun e => decide (e.opcode.toNat = opcode)) :
    lastValue entries = lastValue entries' := by
  funext opcode
  rw [lastValue, lastValue, h]

/-- The parser fails exactly on a cut argument before the end; otherwise each opcode has its last
argument. Applying the modes changes the characters and flags that the blob names on the
platform and nothing else, in no matter which order distinct opcodes came, and the size of a
character stays or becomes CS7 or CS8. -/
theorem terminal_modes (P : Platform) :
    (∀ blob, Modes.parse blob = .error .mk ↔ ∃ entries opcode tail,
      blob = encode entries ++ opcode :: tail ∧ IsMode opcode ∧ tail.length < 4) ∧
    (∀ blob, Modes.parse blob = .error .mk ∨
      ∃ entries rest, blob = encode entries ++ rest ∧ Terminated rest) ∧
    (∀ entries rest, Terminated rest →
      Modes.parse (encode entries ++ rest) = .ok { values := lastValue entries }) ∧
    (∀ (modes : Modes) (t : Termios P),
      (∀ index, (modes.apply t).specialCodes index ≠ t.specialCodes index →
        ∃ opcode value, modes.get opcode = some value ∧ specialCode P.os opcode = some index) ∧
      (∀ field j, ((modes.apply t).modes field).getLsbD j ≠ (t.modes field).getLsbD j →
        (∃ opcode value f, modes.get opcode = some value ∧ flag P.os opcode = some f ∧
          f.field = field ∧ (P.bit f : ℕ) = j) ∨ field = .control ∧ P.csize.getLsbD j = true) ∧
      (modes.apply t).modes .control &&& P.csize =
        if (modes.get 91).any (· ≠ 0) then P.cs8
        else if (modes.get 90).any (· ≠ 0) then P.cs7
        else t.modes .control &&& P.csize) ∧
    (∀ entries entries' rest rest' modes modes' (t : Termios P),
      (∀ opcode, entries.filter (fun e => decide (e.opcode.toNat = opcode)) =
        entries'.filter fun e => decide (e.opcode.toNat = opcode)) →
      Terminated rest → Terminated rest' → Modes.parse (encode entries ++ rest) = .ok modes →
      Modes.parse (encode entries' ++ rest') = .ok modes' → modes.apply t = modes'.apply t) := by
  refine ⟨fun blob => ⟨fun h => ?_, ?_⟩, fun blob => ?_, fun entries rest => parse_terminated entries,
    fun modes t => ⟨fun index => apply_specialCodes, fun field j => apply_modes, ?_⟩, ?_⟩
  · obtain ⟨entries, opcode, tail, hblob, hmode, hlength, -⟩ | ⟨_, _, -, -, hok⟩ := parse_cases blob
    · exact ⟨entries, opcode, tail, hblob, hmode, hlength⟩
    · cases h.symm.trans hok
  · rintro ⟨entries, opcode, tail, rfl, hmode, hlength⟩
    exact parse_short entries hmode hlength
  · obtain ⟨_, _, _, -, -, -, herror⟩ | ⟨entries, rest, hblob, hrest, -⟩ := parse_cases blob
    · exact .inl herror
    · exact .inr ⟨entries, rest, hblob, hrest⟩
  · rw [apply_csize, Modes.size]
    split_ifs <;> rfl
  · intro entries entries' rest rest' modes modes' t hsame hrest hrest' hparse hparse'
    rw [parse_terminated entries hrest] at hparse
    rw [parse_terminated entries' hrest'] at hparse'
    cases hparse
    cases hparse'
    rw [lastValue_congr hsame]

/-- The bits of the flags on Linux, from the lowest one on. -/
def linuxBit : Flag → Fin 32
  | .input .ignpar => 2
  | .input .parmrk => 3
  | .input .inpck => 4
  | .input .istrip => 5
  | .input .inlcr => 6
  | .input .igncr => 7
  | .input .icrnl => 8
  | .input .iuclc => 9
  | .input .ixon => 10
  | .input .ixany => 11
  | .input .ixoff => 12
  | .input .imaxbel => 13
  | .input .iutf8 => 14
  | .local .isig => 0
  | .local .icanon => 1
  | .local .xcase => 2
  | .local .echo => 3
  | .local .echoe => 4
  | .local .echok => 5
  | .local .echonl => 6
  | .local .noflsh => 7
  | .local .tostop => 8
  | .local .echoctl => 9
  | .local .echoke => 11
  | .local .pendin => 14
  | .local .iexten => 15
  | .output .opost => 0
  | .output .olcuc => 1
  | .output .onlcr => 2
  | .output .ocrnl => 3
  | .output .onocr => 4
  | .output .onlret => 5
  | .control .parenb => 8
  | .control .parodd => 9

def linux : Platform where
  os := .linux
  width := 32
  bit := linuxBit
  csize := 0x30
  cs7 := 0x20
  cs8 := 0x30
  posixVdisable := 0
  csize_bit f := by cases f <;> decide
  cs7_csize := by decide
  cs8_csize := by decide

/-- Eight bits win over seven. -/
example : Modes.size { values := fun _ => some 1 } linux = some 0x30#32 := rfl

end QuantumSsh.Pty
