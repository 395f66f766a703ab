import Mathlib.Logic.Function.Basic
import QuantumSsh.Sftp.Files

/-!
# RENAME without overwriting

The directory entries of a filesystem before and after `rename_no_overwrite`, for any of the
calls it makes failing. A path leads to an entry, which holds a file, a directory or a
symlink, or nothing.
-/

namespace QuantumSsh.Sftp

open Wire Program

variable {κ F E P N : Type}

/-- The directory entries of a filesystem: the one that a path leads to, a symlink at its end
not followed, and what each one holds. -/
structure Entries (κ P N : Type) where
  place : κ → Bytes → Option P
  entry : κ → P → Option N

namespace Entries

/-- The filesystem is as before. -/
def Same (fs : Entries κ P N) (s s' : κ) : Prop := fs.place s' = fs.place s ∧ fs.entry s' = fs.entry s

/-- What `old` led to stands where `new` led, where nothing was, and no longer at its own
place. -/
def Moved [DecidableEq P] (fs : Entries κ P N) (old new : Bytes) (s s' : κ) : Prop :=
  ∃ p q n, fs.place s old = some p ∧ fs.place s new = some q ∧ fs.entry s p = some n ∧
    fs.entry s q = none ∧ fs.entry s' = Function.update (Function.update (fs.entry s) p none) q (some n)

/-- What the calls of the kernel do to the entries when nobody else writes. A call that fails
does nothing, and a link is only made where nothing is. Both paths of a link still lead where
they led, since it only fills an entry that no path could pass. -/
structure Lawful [DecidableEq P] (fs : Entries κ P N) (K : Kernel κ F E) : Prop where
  lstat : ∀ path s, (K.lstat path).Ensures s
    (fun _ s' => fs.Same s s' ∧ ∃ p n, fs.place s path = some p ∧ fs.entry s p = some n)
    fun _ => fs.Same s
  hardLink : ∀ old new s, (K.hardLink old new).Ensures s
    (fun _ s' => ∃ p q n, fs.place s old = some p ∧ fs.place s new = some q ∧
      fs.entry s p = some n ∧ fs.entry s q = none ∧
      fs.place s' old = some p ∧ fs.place s' new = some q ∧
      fs.entry s' = Function.update (fs.entry s) q (some n))
    fun _ => fs.Same s
  removeFile : ∀ path s, (K.removeFile path).Ensures s
    (fun _ s' => ∃ p, fs.place s path = some p ∧ fs.entry s' = Function.update (fs.entry s) p none)
    fun _ => fs.Same s
  rename : ∀ old new s, (K.rename old new).Ensures s
    (fun _ s' => ∃ p q n, fs.place s old = some p ∧ fs.place s new = some q ∧
      fs.entry s p = some n ∧
      (fs.entry s q = none →
        fs.entry s' = Function.update (Function.update (fs.entry s) p none) q (some n)))
    fun _ => fs.Same s

variable [DecidableEq P] {fs : Entries κ P N} {K : Kernel κ F E} {old new : Bytes} {s s₁ s' : κ}

theorem Moved.of_same (h : fs.Moved old new s₁ s') (hsame : fs.Same s s₁) : fs.Moved old new s s' := by
  unfold Moved at h
  rwa [hsame.1, hsame.2] at h

section

variable (laws : fs.Lawful K)
  (hcleanup : ∀ s s₁ e s₂, K.hardLink old new s = (.ok (), s₁) →
    K.removeFile old s₁ = (.error e, s₂) → ∃ s₃, K.removeFile new s₂ = (.ok (), s₃))
  (hlstat : ∀ s e s₁ q n, K.lstat new s = (.error e, s₁) → fs.place s new = some q →
    fs.entry s q = some n → ∃ e' s₂, K.rename old new s₁ = (.error e', s₂))

end

end Entries

/-- A directory: the mode of what stands under each name. -/
abbrev Folder := Bytes → Option ℕ

namespace Folder

def lstat (path : Bytes) : Prog Folder IoError Metadata := fun s =>
  match s path with
  | some mode => (.ok ⟨0, 1, 0, 0, mode, 0, 0⟩, s)
  | none => (.error (.ofKind .notFound), s)

def hardLink (old new : Bytes) : Prog Folder IoError Unit := fun s =>
  match s old, s new with
  | none, _ => (.error (.ofKind .notFound), s)
  | some _, some _ => (.error (.ofKind .alreadyExists), s)
  | some mode, none => (.ok (), Function.update s new (some mode))

def removeFile (path : Bytes) : Prog Folder IoError Unit := fun s =>
  match s path with
  | some _ => (.ok (), Function.update s path none)
  | none => (.error (.ofKind .notFound), s)

def rename (old new : Bytes) : Prog Folder IoError Unit := fun s =>
  match s old with
  | some mode => (.ok (), Function.update (Function.update s old none) new (some mode))
  | none => (.error (.ofKind .notFound), s)

def kernel : Kernel Folder Unit Empty where
  __ := refusingKernel Folder Unit Empty Empty.elim
  lstat := lstat
  hardLink := hardLink
  removeFile := removeFile
  rename := rename

def entries : Entries Folder Bytes ℕ where
  place := fun _ path => some path
  entry := fun s => s

end Folder

end QuantumSsh.Sftp
