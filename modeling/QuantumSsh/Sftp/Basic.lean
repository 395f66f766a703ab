import QuantumSsh.Lib.Program
import QuantumSsh.Packet
import Mathlib.Data.Int.Notation

/-!
# What an SFTP session stands on

The constants of `sftp.rs`, the operations of the kernel that it calls, its replies,
and its functions on paths and files that know nothing of handles. The kernel is a
parameter: any state, and for each operation any answer.
-/

namespace QuantumSsh.Sftp

open Wire Program

/-! ### Constants -/

def maxPacket : ℕ := 256 * 1024
def maxData : ℕ := 256 * 1024 - 1024
def maxHandles : ℕ := 256
def maxNames : ℕ := 100
def exitViolation : ℤ := 2

/-- `PATH_MAX` of the kernel. -/
def pathMax : ℕ := 4096

def fxpInit : UInt8 := 1
def fxpVersion : UInt8 := 2
def fxpExtended : UInt8 := 200
def fxpStatus : UInt8 := 101
def fxpHandle : UInt8 := 102
def fxpData : UInt8 := 103
def fxpName : UInt8 := 104
def fxpAttrs : UInt8 := 105
def fxpExtendedReply : UInt8 := 201

def fxOk : ℕ := 0
def fxEof : ℕ := 1
def fxNoSuchFile : ℕ := 2
def fxPermissionDenied : ℕ := 3
def fxFailure : ℕ := 4
def fxOpUnsupported : ℕ := 8

def attrSize : ℕ := 0x1
def attrUidgid : ℕ := 0x2
def attrPermissions : ℕ := 0x4
def attrAcmodtime : ℕ := 0x8
def attrExtended : ℕ := 0x80000000

def openRead : ℕ := 0x1
def openWrite : ℕ := 0x2
def openAppend : ℕ := 0x4
def openCreat : ℕ := 0x8
def openTrunc : ℕ := 0x10
def openExcl : ℕ := 0x20

/-- The requests behind INIT that have a handler of their own. -/
inductive Kind where
  | «open» | close | read | write | lstat | fstat | setstat | fsetstat | opendir | readdir
  | remove | mkdir | rmdir | realpath | stat | rename | readlink | symlink | extended
deriving Repr, DecidableEq

/-- The `FXP_` number of a request. -/
def Kind.byte : Kind → UInt8
  | .open => 3
  | .close => 4
  | .read => 5
  | .write => 6
  | .lstat => 7
  | .fstat => 8
  | .setstat => 9
  | .fsetstat => 10
  | .opendir => 11
  | .readdir => 12
  | .remove => 13
  | .mkdir => 14
  | .rmdir => 15
  | .realpath => 16
  | .stat => 17
  | .rename => 18
  | .readlink => 19
  | .symlink => 20
  | .extended => fxpExtended

def kinds : List Kind :=
  [.open, .close, .read, .write, .stat, .lstat, .fstat, .setstat, .fsetstat, .opendir, .readdir,
    .remove, .mkdir, .rmdir, .realpath, .rename, .readlink, .symlink, .extended]

/-- The request of a number. -/
def Kind.ofByte (b : UInt8) : Option Kind := kinds.find? fun kind => kind.byte = b

/-- The extensions. -/
inductive Extension where
  | posixRename | fsync | limits | expandPath
deriving Repr, DecidableEq

def Extension.name : Extension → Bytes
  | .posixRename => utf8 "posix-rename@openssh.com"
  | .fsync => utf8 "fsync@openssh.com"
  | .limits => utf8 "limits@openssh.com"
  | .expandPath => utf8 "expand-path@openssh.com"

/-- `EXTENSIONS`. -/
def extensions : List Extension := [.posixRename, .fsync, .limits, .expandPath]

def Extension.ofName (name : Bytes) : Option Extension := extensions.find? fun e => e.name = name

/-! ### The kernel -/

inductive ErrorKind where
  | notFound
  | permissionDenied
  | alreadyExists
  | interrupted
  | invalidInput
  | writeZero
  | other
deriving Repr, DecidableEq

/-- `io::Error`, as far as it is looked at. -/
structure IoError where
  kind : ErrorKind
  rawOsError : Option ℤ
deriving Repr, DecidableEq

/-- An error made of its kind. -/
def IoError.ofKind (kind : ErrorKind) : IoError := { kind, rawOsError := none }

/-- `Errno::LOOP`. -/
def IoError.loop : IoError := { kind := .other, rawOsError := some 40 }

/-- `Metadata`. -/
structure Metadata where
  len : ℕ
  nlink : ℕ
  uid : ℕ
  gid : ℕ
  mode : ℕ
  atime : ℤ
  mtime : ℤ
deriving Repr, DecidableEq

def Metadata.isFile (m : Metadata) : Bool := m.mode &&& 0o170000 = 0o100000

def Metadata.isSymlink (m : Metadata) : Bool := m.mode &&& 0o170000 = 0o120000

inductive Access where
  | rdonly
  | wronly
  | rdwr
deriving Repr, DecidableEq

/-- `OFlags`; every open has `CLOEXEC`. -/
structure OFlags where
  access : Access
  append : Bool := false
  create : Bool := false
  trunc : Bool := false
  excl : Bool := false
  nonblock : Bool := false
deriving Repr, DecidableEq

/-- `SetAttrs`. -/
structure SetAttrs where
  size : Option ℕ
  owner : Option (ℕ × ℕ)
  perm : Option ℕ
  times : Option (ℕ × ℕ)
deriving Repr, DecidableEq

/-- The operations of the kernel on its state `κ`, with open files `F` and directory
entries `E`. A directory stream is what it has still to give. -/
structure Kernel (κ F E : Type) where
  «open» : Bytes → OFlags → (mode : ℕ) → Prog κ IoError F
  close : F → κ → κ
  metadata : F → Prog κ IoError Metadata
  readAt : F → (len offset : ℕ) → Prog κ IoError { b : Bytes // b.length ≤ len }
  writeAt : F → (data : Bytes) → (offset : ℕ) → Prog κ IoError { n : ℕ // n ≤ data.length }
  write : F → (data : Bytes) → Prog κ IoError { n : ℕ // n ≤ data.length }
  syncData : F → Prog κ IoError Unit
  syncAll : F → Prog κ IoError Unit
  setLen : F → ℕ → Prog κ IoError Unit
  fchown : F → (uid gid : ℕ) → Prog κ IoError Unit
  fchmod : F → ℕ → Prog κ IoError Unit
  futimens : F → (atime mtime : ℕ) → Prog κ IoError Unit
  readDir : Bytes → Prog κ IoError (List (Except IoError E))
  fileName : E → Bytes
  entryMetadata : E → Prog κ IoError Metadata
  stat : Bytes → Prog κ IoError Metadata
  lstat : Bytes → Prog κ IoError Metadata
  chown : Bytes → (uid gid : ℕ) → Prog κ IoError Unit
  chmod : Bytes → ℕ → Prog κ IoError Unit
  utimens : Bytes → (atime mtime : ℕ) → Prog κ IoError Unit
  removeFile : Bytes → Prog κ IoError Unit
  createDir : Bytes → (mode : ℕ) → Prog κ IoError Unit
  removeDir : Bytes → Prog κ IoError Unit
  readLink : Bytes → Prog κ IoError Bytes
  hardLink : (old new : Bytes) → Prog κ IoError Unit
  rename : (old new : Bytes) → Prog κ IoError Unit
  symlink : (target link : Bytes) → Prog κ IoError Unit
  /-- The system time, in seconds from the epoch. -/
  now : κ → ℤ
  /-- How often a write is still to be interrupted. -/
  interrupts : κ → ℕ
  writeAt_interrupted : ∀ file data offset s e s', writeAt file data offset s = (.error e, s') →
    e.kind = .interrupted → interrupts s' < interrupts s
  write_interrupted : ∀ file data s e s', write file data s = (.error e, s') →
    e.kind = .interrupted → interrupts s' < interrupts s

/-! ### Replies -/

/-- `error_code`. -/
def errorCode (error : IoError) : ℕ :=
  match error.kind with
  | .notFound => fxNoSuchFile
  | .permissionDenied => fxPermissionDenied
  | _ => fxFailure

def statusMessage (code : ℕ) : Bytes :=
  if code = fxOk then utf8 "Success"
  else if code = fxEof then utf8 "End of file"
  else if code = fxNoSuchFile then utf8 "No such file"
  else if code = fxPermissionDenied then utf8 "Permission denied"
  else if code = fxOpUnsupported then utf8 "Operation unsupported"
  else utf8 "Failure"

/-- `status_reply`. -/
def statusReply (id code : ℕ) : Bytes :=
  fxpStatus :: (putUint32 id ++ (putUint32 code ++ putString (statusMessage code) ++ putString []))

/-- `status_of`. -/
def statusOf (id : ℕ) : Except IoError Unit → Bytes
  | .ok _ => statusReply id fxOk
  | .error e => statusReply id (errorCode e)

/-- `clamp_time`. -/
def clampTime (secs : ℤ) : ℕ := min secs.toNat (2 ^ 32 - 1)

/-- `ATTRS_LEN`. -/
def attrsLen : ℕ := 4 + 8 + 4 + 4 + 4 + 4 + 4

/-- `put_attrs`. -/
def putAttrs (m : Metadata) : Bytes :=
  putUint32 (attrSize ||| attrUidgid ||| attrPermissions ||| attrAcmodtime) ++ putUint64 m.len ++
    putUint32 m.uid ++ putUint32 m.gid ++ putUint32 m.mode ++ putUint32 (clampTime m.atime) ++
    putUint32 (clampTime m.mtime)

/-- `attrs_reply`. -/
def attrsReply (id : ℕ) (m : Metadata) : Bytes := fxpAttrs :: (putUint32 id ++ putAttrs m)

/-- `name_reply`. -/
def nameReply (id : ℕ) (path : Bytes) : Bytes :=
  fxpName :: (putUint32 id ++ (putUint32 1 ++ putString path ++ putString path ++ putUint32 0))

/-- The reply to an operation that gives a path. -/
def nameOf (id : ℕ) : Except IoError Bytes → Bytes
  | .ok path => nameReply id path
  | .error e => statusReply id (errorCode e)

/-- The reply to an operation that gives metadata. -/
def attrsOf (id : ℕ) : Except IoError Metadata → Bytes
  | .ok m => attrsReply id m
  | .error e => statusReply id (errorCode e)

/-- `version_reply`. -/
def versionReply : Bytes :=
  fxpVersion :: (putUint32 3 ++
    extensions.flatMap fun e => putString e.name ++ putString (utf8 "1"))

/-! ### Listings -/

/-- `{:>width}`. -/
def padLeft (width : ℕ) (s : String) : String :=
  String.ofList (List.replicate (width - s.length) ' ') ++ s

/-- `{:<width}`. -/
def padRight (width : ℕ) (s : String) : String :=
  s ++ String.ofList (List.replicate (width - s.length) ' ')

/-- `{:02}`. -/
def twoDigits (n : ℤ) : String := if n < 10 then "0" ++ toString n else toString n

/-- `MONTHS`. -/
def months : List String :=
  ["Jan", "Feb", "Mar", "Apr", "May", "Jun", "Jul", "Aug", "Sep", "Oct", "Nov", "Dec"]

/-- `civil_from_days`. -/
def civilFromDays (days : ℤ) : ℤ × ℕ × ℤ :=
  let z := days + 719468
  let era := z / 146097
  let doe := z % 146097
  let yoe := (doe - doe / 1460 + doe / 36524 - doe / 146096) / 365
  let doy := doe - (365 * yoe + yoe / 4 - yoe / 100)
  let mp := (5 * doy + 2) / 153
  let day := doy - (153 * mp + 2) / 5 + 1
  let month := if mp < 10 then mp + 3 else mp - 9
  let year := yoe + era * 400 + if month ≤ 2 then 1 else 0
  (year, (month - 1).toNat, day)

/-- `ls_date`. -/
def lsDate (mtime now : ℤ) : String :=
  let (year, month, day) := civilFromDays (mtime / 86400)
  let name := months.getD month ""
  if mtime ≤ now ∧ min (now - mtime) (2 ^ 63 - 1) < 365 * 24 * 60 * 60 / 2 then
    let secs := mtime % 86400
    name ++ " " ++ padLeft 2 (toString day) ++ " " ++ twoDigits (secs / 3600) ++ ":" ++
      twoDigits (secs % 3600 / 60)
  else name ++ " " ++ padLeft 2 (toString day) ++ "  " ++ toString year

/-- `mode_string`. -/
def modeString (mode : ℕ) : String :=
  let format := mode &&& 0o170000
  let kind :=
    if format = 0o040000 then 'd'
    else if format = 0o120000 then 'l'
    else if format = 0o020000 then 'c'
    else if format = 0o060000 then 'b'
    else if format = 0o010000 then 'p'
    else if format = 0o140000 then 's'
    else '-'
  let bit (mask : ℕ) (c : Char) := if mode &&& mask = 0 then '-' else c
  let exec (x special : ℕ) (on off : Char) :=
    match decide (mode &&& x ≠ 0), decide (mode &&& special ≠ 0) with
    | true, true => on
    | false, true => off
    | true, false => 'x'
    | false, false => '-'
  String.ofList
    [kind, bit 0o400 'r', bit 0o200 'w', exec 0o100 0o4000 's' 'S', bit 0o040 'r', bit 0o020 'w',
      exec 0o010 0o2000 's' 'S', bit 0o004 'r', bit 0o002 'w', exec 0o001 0o1000 't' 'T']

/-- `longname`. -/
def longname (name : Bytes) (m : Metadata) (now : ℤ) : Bytes :=
  utf8 (modeString m.mode ++ " " ++ padLeft 3 (toString m.nlink) ++ " " ++
    padRight 8 (toString m.uid) ++ " " ++ padRight 8 (toString m.gid) ++ " " ++
    padLeft 8 (toString m.len) ++ " " ++ lsDate m.mtime now ++ " ") ++ name

/-! ### Attributes and files -/

variable {κ F E : Type}

/-- `open_flags`. -/
def openFlags (pflags : ℕ) : OFlags where
  access :=
    match decide (pflags &&& openRead ≠ 0), decide (pflags &&& openWrite ≠ 0) with
    | true, true => .rdwr
    | false, true => .wronly
    | _, _ => .rdonly
  append := pflags &&& openAppend ≠ 0
  create := pflags &&& openCreat ≠ 0
  trunc := pflags &&& openTrunc ≠ 0
  excl := pflags &&& openExcl ≠ 0

/-- What is set of an attribute, if it is asked for. -/
def whenSome {α : Type} (value : Option α) (set : α → Prog κ IoError Unit) : Prog κ IoError Unit :=
  match value with
  | some v => set v
  | none => pure ()

/-- `truncate(2)` by path, as `setstat` has it. -/
def truncatePath (K : Kernel κ F E) (path : Bytes) (size : ℕ) : Prog κ IoError Unit := do
  let fd ← K.open path { access := .wronly, nonblock := true } 0
  let result ← reified (K.setLen fd size)
  update (K.close fd)
  ofExcept result

/-- `setstat`. -/
def setstat (K : Kernel κ F E) (path : Bytes) (attrs : SetAttrs) : Prog κ IoError Unit := do
  whenSome attrs.size fun size => truncatePath K path size
  whenSome attrs.owner fun (uid, gid) => K.chown path uid gid
  whenSome attrs.perm fun perm => K.chmod path (perm &&& 0o7777)
  whenSome attrs.times fun (atime, mtime) => K.utimens path atime mtime

/-- `fsetstat`. -/
def fsetstat (K : Kernel κ F E) (file : F) (attrs : SetAttrs) : Prog κ IoError Unit := do
  whenSome attrs.size fun size => K.setLen file size
  whenSome attrs.owner fun (uid, gid) => K.fchown file uid gid
  whenSome attrs.perm fun perm => K.fchmod file (perm &&& 0o7777)
  whenSome attrs.times fun (atime, mtime) => K.futimens file atime mtime

/-- One write of `write_tracked`, at its offset or appending. -/
def writeOnce (K : Kernel κ F E) (file : F) (rest : Bytes) (offset : Option ℕ) (done : ℕ) :
    Prog κ IoError { n : ℕ // n ≤ rest.length } :=
  match offset with
  | some start =>
    if start + done < 2 ^ 64 then K.writeAt file rest (start + done)
    else fail (.ofKind .invalidInput)
  | none => K.write file rest

theorem writeOnce_interrupted {K : Kernel κ F E} {file : F} {rest : Bytes} {offset : Option ℕ}
    {done : ℕ} {s s' : κ} {e : IoError} (h : writeOnce K file rest offset done s = (.error e, s'))
    (he : e.kind = .interrupted) : K.interrupts s' < K.interrupts s := by
  unfold writeOnce at h
  split at h
  · split at h
    · exact K.writeAt_interrupted _ _ _ _ _ _ h he
    · cases h
      cases he
  · exact K.write_interrupted _ _ _ _ _ h he

/-- `write_tracked`, with `done` bytes of the data written and the rest to write: the
result, whether the file was written, and the kernel. -/
def writeTracked (K : Kernel κ F E) (file : F) (rest : Bytes) (offset : Option ℕ) (done : ℕ)
    (written : Bool) (s : κ) : (Except IoError Unit × Bool) × κ :=
  if rest = [] then ((.ok (), written), s)
  else
    match hwrite : writeOnce K file rest offset done s with
    | (.ok ⟨0, _⟩, s') => ((.error (.ofKind .writeZero), written), s')
    | (.ok ⟨n + 1, _⟩, s') =>
      writeTracked K file (rest.drop (n + 1)) offset (done + (n + 1)) true s'
    | (.error e, s') =>
      if _ : e.kind = .interrupted then writeTracked K file rest offset done written s'
      else ((.error e, written), s')
termination_by (rest.length, K.interrupts s)
decreasing_by
  · refine Prod.Lex.left _ _ ?_
    rw [List.length_drop]
    omega
  · exact Prod.Lex.right _ (writeOnce_interrupted hwrite ‹_›)

/-! ### Paths -/

/-- `SYMLOOP_MAX`. -/
def symloopMax : ℕ := 32

def slash : UInt8 := 0x2f
def dot : UInt8 := 0x2e
def tilde : UInt8 := 0x7e

/-- The index of the last entry that satisfies `p`. -/
def rposition (p : UInt8 → Bool) (l : Bytes) : Option ℕ :=
  (l.reverse.findIdx? p).map fun i => l.length - 1 - i

/-- `pop_component`. -/
def popComponent (resolved : Bytes) : Bytes :=
  if resolved.length ≤ 1 then resolved
  else
    let stop := if resolved.getLast? = some slash then resolved.length - 1 else resolved.length
    let cut := ((rposition (· = slash) (resolved.take stop)).map (· + 1)).getD 1
    resolved.take (max cut 1)

/-- The next component, what is left behind it, and whether it is the last. -/
def nextToken (left : Bytes) : Bytes × Bytes × Bool :=
  match left.findIdx? (· = slash) with
  | some i => (left.take i, left.drop (i + 1), false)
  | none => (left, [], true)

theorem nextToken_length {left token rest : Bytes} {last : Bool} (hleft : left ≠ [])
    (h : nextToken left = (token, rest, last)) : rest.length < left.length := by
  have hpos := List.length_pos_iff.2 hleft
  unfold nextToken at h
  split at h
  · cases h
    rw [List.length_drop]
    omega
  · cases h
    exact hpos

/-- A component behind a `/`. -/
def withSlash (resolved : Bytes) : Bytes :=
  if resolved.getLast? = some slash then resolved else resolved ++ [slash]

/-- What a link leaves to resolve: its target, then whatever followed the link. -/
def linkLeft (target rest : Bytes) (last : Bool) : Bytes :=
  if last then target else withSlash target ++ rest

/-- The loop of `realpath`. -/
def resolve (K : Kernel κ F E) (links : ℕ) (resolved left : Bytes) (s : κ) :
    Except IoError Bytes × κ :=
  if _ : left = [] then (.ok resolved, s)
  else
    match _ : nextToken left with
    | (token, rest, last) =>
      let resolved := withSlash resolved
      if token = [] ∨ token = [dot] then resolve K links resolved rest s
      else if token = [dot, dot] then resolve K links (popComponent resolved) rest s
      else
        let resolved := resolved ++ token
        match K.lstat resolved s with
        | (.error e, s) =>
          if e.kind = .notFound ∧ last then (.ok resolved, s) else (.error e, s)
        | (.ok m, s) =>
          if m.isSymlink then
            if _ : symloopMax < links + 1 then (.error .loop, s)
            else
              match K.readLink resolved s with
              | (.error e, s) => (.error e, s)
              | (.ok target, s) =>
                let base :=
                  if target.head? = some slash then resolved.take 1 else popComponent resolved
                resolve K (links + 1) base (linkLeft target rest last) s
          else resolve K links resolved rest s
termination_by (symloopMax - links, left.length)
decreasing_by
  · exact Prod.Lex.right _ (nextToken_length ‹_› ‹_›)
  · exact Prod.Lex.right _ (nextToken_length ‹_› ‹_›)
  · exact Prod.Lex.left _ _ (by omega)
  · exact Prod.Lex.right _ (nextToken_length ‹_› ‹_›)

/-- Where `realpath` starts: what is resolved, and what is left. -/
def realpathStart (path cwd : Bytes) : Bytes × Bytes :=
  match path with
  | [] => (cwd, [dot])
  | b :: rest => if b = slash then ([slash], rest) else (cwd, b :: rest)

/-- The resolved path without a `/` at its end. -/
def trimmed (resolved : Bytes) : Bytes :=
  if 1 < resolved.length ∧ resolved.getLast? = some slash then resolved.dropLast else resolved

/-- `realpath`. -/
def realpath (K : Kernel κ F E) (path cwd : Bytes) : Prog κ IoError Bytes := do
  let (resolved, left) := realpathStart path cwd
  let resolved ← resolve K 0 resolved left
  return trimmed resolved

/-- `expand`. -/
def expand (cwd path : Bytes) : Except IoError Bytes :=
  if path = [tilde] then .ok cwd
  else if [tilde, slash].isPrefixOf path then .ok (cwd ++ [slash] ++ path.drop 2)
  else if path.head? = some tilde then .error (.ofKind .notFound)
  else .ok path

/-- `is_link_unsupported`, on Linux: `OPNOTSUPP`, `NOSYS`, `XDEV` and `PERM`. -/
def isLinkUnsupported (error : IoError) : Bool :=
  error.rawOsError.any fun code => code ∈ [(95 : ℤ), 38, 18, 1]

/-- `rename_if_absent`. -/
def renameIfAbsent (K : Kernel κ F E) (old new : Bytes) : Prog κ IoError Unit := do
  match ← reified (K.lstat new) with
  | .ok _ => fail (.ofKind .alreadyExists)
  | .error _ => K.rename old new

/-- `rename_no_overwrite`. -/
def renameNoOverwrite (K : Kernel κ F E) (old new : Bytes) : Prog κ IoError Unit := do
  if (← K.lstat old).isFile then
    match ← reified (K.hardLink old new) with
    | .ok _ =>
      match ← reified (K.removeFile old) with
      | .ok _ => pure ()
      | .error e =>
        attempt (K.removeFile new)
        fail e
    | .error e => if isLinkUnsupported e then renameIfAbsent K old new else fail e
  else renameIfAbsent K old new

end QuantumSsh.Sftp
