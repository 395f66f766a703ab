import QuantumSsh.Lib.FileTree
import QuantumSsh.Lib.Program
import QuantumSsh.Lib.Text
import QuantumSsh.Sftp.Basic

/-!
# The host key file

`keygen` writes a new host key and its `.pub` file, and the server checks the file it is told to
load the key from. Both go through the same system calls, which are a parameter here: each one
returns, or fails and says why.
-/

namespace QuantumSsh.Keygen

open Program FileTree
open Sftp (rposition)

/-! ### System calls -/

/-- The calls that the two programs make, over the state `κ` of the system. `D` are the
descriptors of directories and `F` those of files; a canonical path is the list of its names. -/
structure Kernel (κ D F E : Type) where
  canonicalize : Bytes → Prog κ E Place
  /-- `open` of a directory, for reading and without following a link. -/
  openDir : Place → Prog κ E D
  fstatDir : D → Prog κ E Stat
  stat : Place → Prog κ E Stat
  /-- `openat` with `CREATE`, `EXCL`, `NOFOLLOW` and `WRONLY`. -/
  openat : D → Name → (mode : ℕ) → Prog κ E F
  fchmod : F → (mode : ℕ) → Prog κ E Unit
  writeAll : F → Bytes → Prog κ E Unit
  fsync : F → Prog κ E Unit
  fstat : F → Prog κ E Stat
  unlinkat : D → Name → Prog κ E Unit
  geteuid : ℕ
  /-- `Errno::EXIST`. -/
  isExist : E → Bool
  /-- How an error reads. -/
  errorText : E → Text
  /-- `Path::display`. -/
  display : Bytes → Text

/-- The text of a canonical path. -/
def render : Place → Bytes
  | [] => [slash]
  | p => p.flatMap (slash :: ·)

/-- `Path::ancestors`: the path itself first, the root last. -/
def ancestors (p : Place) : List Place := p.inits.reverse

/-- `{:04o}`. -/
def octal (n : ℕ) : Text := (Nat.toDigits 8 n).leftpad 4 '0'

variable {κ D F E : Type}

/-- The path as it is printed. -/
def Kernel.displayPath (K : Kernel κ D F E) (p : Place) : Text := K.display (render p)

/-! ### Trusted files -/

/-- `TrustedClass`. -/
inductive TrustedClass
  | input
  | secret
  deriving DecidableEq

/-- `ConfigError`, the two that the check of a file gives. -/
inductive ConfigError
  | fileUnavailable (message : Text)
  | insecurePermissions (message : Text)
  deriving DecidableEq

/-- `WRITE_OTHERS`. -/
def writeOthers : ℕ := 0o022

/-- `READ_OTHERS`. -/
def readOthers : ℕ := 0o044

/-- `file_violation`. -/
def fileViolation (mode owner processUid : ℕ) (trusted : TrustedClass) : Option Text :=
  if mode &&& writeOthers ≠ 0 then
    some ("group/world-writable (mode ".toList ++ octal (mode &&& 0o7777) ++ ")".toList)
  else if owner ≠ 0 ∧ owner ≠ processUid then
    some ("owned by uid ".toList ++ Nat.toDigits 10 owner ++
      ", not root or the process uid ".toList ++ Nat.toDigits 10 processUid)
  else if trusted = .secret ∧ mode &&& readOthers ≠ 0 then
    some ("group/world-readable private key (mode ".toList ++ octal (mode &&& 0o7777) ++
      ")".toList)
  else none

/-- `ancestor_violation`. -/
def ancestorViolation (mode : ℕ) : Option Text :=
  if mode &&& writeOthers ≠ 0 then
    some ("group/world-writable ancestor directory (mode ".toList ++ octal (mode &&& 0o7777) ++
      ")".toList)
  else none

/-- `stat_or_unavailable`. -/
def statOrUnavailable (K : Kernel κ D F E) (path : Place) : Prog κ ConfigError Stat :=
  mapError (fun e => .fileUnavailable (K.displayPath path ++ ": cannot stat: ".toList ++ K.errorText e))
    (K.stat path)

/-- `check_trusted_file`. -/
def checkTrustedFile (K : Kernel κ D F E) (path : Bytes) (trusted : TrustedClass) :
    Prog κ ConfigError Place := do
  let canon ← mapError
    (fun e => .fileUnavailable (K.display path ++ ": cannot canonicalise: ".toList ++ K.errorText e))
    (K.canonicalize path)
  let st ← statOrUnavailable K canon
  failWith ((fileViolation st.mode st.uid K.geteuid trusted).map fun violation =>
    .insecurePermissions (K.displayPath canon ++ ": ".toList ++ violation))
  forEach (fun dir => do
    let st ← statOrUnavailable K dir
    failWith ((ancestorViolation st.mode).map fun violation =>
      .insecurePermissions (K.displayPath canon ++ ": ".toList ++ violation ++
        " at ".toList ++ K.displayPath dir))) (ancestors canon).tail
  return canon

/-! ### keygen -/

/-- `Target`. -/
structure Target where
  leaf : Name
  path : Place

/-- `Failure`. -/
structure Failure where
  message : Text
  keyWritten : Bool

/-- `GeneratedHostKey`. -/
structure GeneratedHostKey where
  privatePem : Text
  publicLine : Text
  fingerprint : Text

/-- `RngError`. -/
inductive RngError
  | mk

/-- How an `RngError` reads. -/
def RngError.text (_ : RngError) : Text :=
  "the operating system's random number generator failed".toList

/-- `split`. -/
def split (K : Kernel κ D F E) (path : Bytes) : Except Text (Bytes × Name) :=
  let (parent, leaf) : Bytes × Name :=
    match rposition (fun b => decide (b = slash)) path with
    | none => (dot, path)
    | some 0 => ([slash], path.drop 1)
    | some i => (path.take i, path.drop (i + 1))
  if leaf = [] ∨ leaf = dot ∨ leaf = dotDot then
    .error (K.display path ++ ": the path must end in a file name".toList)
  else .ok (parent, leaf)

/-- `check_directory`, its `refused`. -/
def refused (K : Kernel κ D F E) (p : Place) (violation : Text) : Text :=
  K.displayPath p ++ ": ".toList ++ violation ++
    "; the server would refuse a key there (ADR-0029)".toList

/-- `check_directory`. -/
def checkDirectory (K : Kernel κ D F E) (dir : D) (canonical : Place) : Prog κ Text Unit := do
  let cannotStat (p : Place) (e : E) : Text :=
    K.displayPath p ++ ": cannot stat: ".toList ++ K.errorText e
  let st ← mapError (cannotStat canonical) (K.fstatDir dir)
  failWith ((ancestorViolation st.mode).map (refused K canonical))
  forEach (fun ancestor => do
    let st ← mapError (cannotStat ancestor) (K.stat ancestor)
    failWith ((ancestorViolation st.mode).map (refused K ancestor))) (ancestors canonical).tail

/-- The state of `write_pair`: the files that it has created, beside the system. -/
abbrev Writing (κ : Type) := κ × List Target

/-- A call within `write_pair`. -/
def call {α : Type} (onError : E → Failure) (p : Prog κ E α) : Prog (Writing κ) Failure α :=
  zoom Prod.fst (fun t s => (s, t.2)) (mapError onError p)

/-- `create`. -/
def create (K : Kernel κ D F E) (dir : D) (target : Target) (mode : ℕ) :
    Prog (Writing κ) Failure F := do
  let why (e : E) : Text :=
    if K.isExist e then "already exists; keygen never replaces a file".toList
    else "cannot create: ".toList ++ K.errorText e
  let file ← call
    (fun e => { message := K.displayPath target.path ++ ": ".toList ++ why e, keyWritten := false })
    (K.openat dir target.leaf mode)
  update fun t => (t.1, t.2 ++ [target])
  return file

/-- `write_synced`. -/
def writeSynced (K : Kernel κ D F E) (file : F) (target : Target) (bytes : Bytes) :
    Prog (Writing κ) Failure Unit :=
  call
    (fun e =>
      { message := K.displayPath target.path ++ ": cannot write: ".toList ++ K.errorText e
        keyWritten := true })
    (do
      K.writeAll file bytes
      K.fsync file)

/-- `write_pair`, its `observed`. -/
def observed (K : Kernel κ D F E) (file : F) (target : Target) : Prog (Writing κ) Failure ℕ := do
  let st ← call
    (fun e =>
      { message := K.displayPath target.path ++ ": cannot stat: ".toList ++ K.errorText e
        keyWritten := true })
    (K.fstat file)
  return st.mode &&& 0o7777

def privateMode : ℕ := 0o600

def publicMode : ℕ := 0o644

/-- `write_pair`. -/
def writePair (K : Kernel κ D F E) (dir : D) (priv pub : Target)
    (generate : Except RngError GeneratedHostKey) : Prog (Writing κ) Failure Text := do
  -- the private file has its mode from the open itself on
  let privateFile ← create K dir priv privateMode
  let publicFile ← create K dir pub publicMode
  -- what the umask took away comes back
  forEach (fun (file, target, mode) =>
    call
      (fun e =>
        { message := K.displayPath target.path ++ ": cannot set its mode: ".toList ++
            K.errorText e
          keyWritten := false })
      (K.fchmod file mode))
    [(privateFile, priv, privateMode), (publicFile, pub, publicMode)]
  let key ← ofExcept (generate.mapError fun e =>
    { message := e.text ++ "; no key was written".toList, keyWritten := false })
  writeSynced K privateFile priv (Text.bytes key.privatePem)
  writeSynced K publicFile pub (Text.bytes (key.publicLine ++ ['\n']))
  let privateObserved ← observed K privateFile priv
  let publicObserved ← observed K publicFile pub
  return "wrote ".toList ++ K.displayPath priv.path ++ " (private, ".toList ++
    octal privateObserved ++ ")\nwrote ".toList ++ K.displayPath pub.path ++
    " (public, ".toList ++ octal publicObserved ++ ")\n".toList ++ key.fingerprint ++ ['\n']

/-- What `remove_created` adds when part of the key may be on the disk. -/
def keyNotice : Text :=
  "; part of the private key may have reached the disk: treat that key as never used".toList

/-- `remove_created`, its loop. -/
def removeEach (K : Kernel κ D F E) (dir : D) : List Target → Text → Prog κ Text Text
  | [], message => pure message
  | target :: rest, message => do
    match ← reified (mapError K.errorText (K.unlinkat dir target.leaf)) with
    | .ok () => removeEach K dir rest message
    | .error e =>
      removeEach K dir rest (message ++ "\nerror: cannot remove ".toList ++
        K.displayPath target.path ++ " after that failure: ".toList ++ e ++
        "; remove it before running keygen again".toList)

/-- `remove_created`. -/
def removeCreated (K : Kernel κ D F E) (dir : D) (created : List Target) (failure : Failure) :
    Prog κ Text Text :=
  removeEach K dir created
    (if failure.keyWritten then failure.message ++ keyNotice else failure.message)

/-- Runs the part that creates files, and removes them when it fails. -/
def orRemove (K : Kernel κ D F E) (dir : D) (p : Prog (Writing κ) Failure Text) :
    Prog κ Text Text := fun s =>
  match p (s, []) with
  | (.ok report, (s', _)) => (.ok report, s')
  | (.error failure, (s', created)) => (removeCreated K dir created failure >>= fail) s'

theorem ensures_orRemove {K : Kernel κ D F E} {dir : D} {p : Prog (Writing κ) Failure Text} {s : κ}
    {ok : Text → κ → Prop}
    {err : Text → κ → Prop} :
    (orRemove K dir p).Ensures s ok err ↔ p.Ensures (s, []) (fun report t => ok report t.1)
      fun failure t => (removeCreated K dir t.2 failure).Ensures t.1 err err := by
  rcases hp : p (s, []) with ⟨failure | report, t⟩
  · have hrun : orRemove K dir p s = (removeCreated K dir t.2 failure >>= fail) t.1 := by
      simp only [orRemove, hp]
    have hbind := @ensures_bind κ Text Text Text t.1 err (removeCreated K dir t.2 failure) fail ok
    unfold Prog.Ensures at hbind ⊢
    rw [hrun, hp]
    exact hbind
  · have hrun : orRemove K dir p s = (.ok report, t.1) := by simp only [orRemove, hp]
    unfold Prog.Ensures
    rw [hrun, hp]

/-- `.pub`. -/
def pubSuffix : Name := [0x2e, 0x70, 0x75, 0x62]

/-- `run`. -/
def run (K : Kernel κ D F E) (path : Bytes) (generate : Except RngError GeneratedHostKey) :
    Prog κ Text Text := do
  let (parentPath, leaf) ← ofExcept (split K path)
  let parent ← mapError
    (fun e => K.display parentPath ++ ": cannot resolve the directory: ".toList ++ K.errorText e)
    (K.canonicalize parentPath)
  let dir ← mapError
    (fun e => K.displayPath parent ++ ": cannot open the directory: ".toList ++ K.errorText e)
    (K.openDir parent)
  checkDirectory K dir parent
  let priv : Target := { leaf, path := parent ++ [leaf] }
  let pub : Target := { leaf := leaf ++ pubSuffix, path := parent ++ [leaf ++ pubSuffix] }
  orRemove K dir (writePair K dir priv pub generate)

end QuantumSsh.Keygen
