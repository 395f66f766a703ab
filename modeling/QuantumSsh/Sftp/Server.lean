import QuantumSsh.Sftp.Basic

/-!
# The SFTP server

`Server::handle` and the loop of `serve`, `sftp.rs`. A handler takes its arguments from
the packet, and looks up its handle, before it does its work; an argument that is
missing is a violation wherever it is met, and what was done by then stays done. The
input is what the successive reads give.
-/

namespace QuantumSsh.Sftp

open Wire Program

/-- An open handle. -/
inductive Handle (F E : Type) where
  | file (file : F) (append written : Bool)
  | dir (entries : List (Except IoError E))

/-- The handles of a session, and the kernel. -/
structure Server (κ F E : Type) where
  handles : List (Option (Handle F E))
  fs : κ

/-- A malformed request. -/
inductive Violation where
  | violation
deriving Repr, DecidableEq

/-- A request in the handling: what is left of the packet, and the session. -/
structure Scene (κ F E : Type) where
  r : Bytes
  server : Server κ F E

/-- A handler. -/
abbrev Act (κ F E α : Type) : Type := Prog (Scene κ F E) Violation α

/-- Work on a session that reads nothing of the packet. -/
abbrev Work (κ F E α : Type) : Type := StateM (Server κ F E) α

variable {κ F E α : Type}

/-- An argument of the packet. -/
def arg (p : Reader α) : Act κ F E α := fun s =>
  match p.run s.r with
  | .ok (a, r) => (.ok a, { s with r })
  | .error _ => (.error .violation, s)

/-- Work in a handler. -/
def act (work : Work κ F E α) : Act κ F E α := fun s =>
  (.ok (work s.server).1, { s with server := (work s.server).2 })

/-- A system call. -/
def sys (p : Prog κ IoError α) : Work κ F E (Except IoError α) := fun s =>
  ((p s.fs).1, { s with fs := (p s.fs).2 })

/-! ### Arguments -/

/-- `raw_path_arg`. -/
def rawPathArg : Reader Bytes := Reader.string maxPacket

/-- An empty path names the working directory. -/
def orDot (raw : Bytes) : Bytes := if raw = [] then [dot] else raw

/-- `path_arg`. -/
def pathArg : Reader Bytes := do
  return orDot (← rawPathArg)

/-- A value that is there when its flag is. -/
def whenFlag (flags flag : ℕ) (p : Reader α) : Reader (Option α) :=
  if flags &&& flag ≠ 0 then do
    return some (← p)
  else return none

/-- Two numbers. -/
def uint32Pair : Reader (ℕ × ℕ) := do
  let a ← Reader.uint32
  let b ← Reader.uint32
  return (a, b)

/-- The extended pairs of attributes, read and ignored. -/
def skipPairs : ℕ → Reader Unit
  | 0 => return ()
  | n + 1 => do
    let _ ← Reader.string maxPacket
    let _ ← Reader.string maxPacket
    skipPairs n

/-- `read_attrs`. -/
def readAttrs : Reader SetAttrs := do
  let flags ← Reader.uint32
  let size ← whenFlag flags attrSize Reader.uint64
  let owner ← whenFlag flags attrUidgid uint32Pair
  let perm ← whenFlag flags attrPermissions Reader.uint32
  let times ← whenFlag flags attrAcmodtime uint32Pair
  let _ ← whenFlag flags attrExtended do
    let count ← Reader.uint32
    skipPairs count
  return { size, owner, perm, times }

/-! ### Handles -/

/-- The handle of an index, if it is open. -/
def slot (handles : List (Option (Handle F E))) (i : ℕ) : Option (Handle F E) := handles[i]?.join

/-- `has_free_slot`. -/
def Server.hasFreeSlot (s : Server κ F E) : Bool :=
  s.handles.length < maxHandles ∨ s.handles.any Option.isNone

/-- The index a handle string names, if it is a 4-byte index of an open handle. -/
def Server.indexOf (s : Server κ F E) (raw : Bytes) : Option ℕ :=
  if raw.length = 4 ∧ (slot s.handles (beValue raw)).isSome then some (beValue raw) else none

/-- The handle that a handle string names. -/
def Server.handleOf (s : Server κ F E) (raw : Bytes) : Option (ℕ × Handle F E) := do
  let i ← s.indexOf raw
  let handle ← slot s.handles i
  return (i, handle)

/-- `index` and `file`: the open handle that the next argument names. -/
def file : Act κ F E (Option (ℕ × Handle F E)) := do
  let raw ← arg (Reader.string maxPacket)
  look fun s => s.server.handleOf raw

/-- The reply to an `insert` that had a slot. -/
def handleReply (id index : ℕ) : Bytes :=
  fxpHandle :: (putUint32 id ++ putString (putUint32 index))

/-- What is released with a handle. -/
def Kernel.drop (K : Kernel κ F E) : Handle F E → κ → κ
  | .file file _ _ => K.close file
  | .dir _ => id

/-- `insert`. -/
def insert (K : Kernel κ F E) (id : ℕ) (handle : Handle F E) : Work κ F E Bytes := fun s =>
  match s.handles.findIdx? Option.isNone with
  | some i => (handleReply id i, { s with handles := s.handles.set i (some handle) })
  | none =>
    if s.handles.length < maxHandles then
      (handleReply id s.handles.length, { s with handles := s.handles ++ [some handle] })
    else (statusReply id fxFailure, { s with fs := K.drop handle s.fs })

/-! ### Work of the handlers -/

variable (K : Kernel κ F E)

/-- What `open` and `opendir` have in common: a refused request must not have touched
the file. -/
def opening (id : ℕ) (p : Prog κ IoError (Handle F E)) : Work κ F E Bytes := do
  if !(← get).hasFreeSlot then return statusReply id fxFailure
  match ← sys p with
  | .ok handle => insert K id handle
  | .error e => return statusReply id (errorCode e)

/-- The file that `open` opens. -/
def openHandle (path : Bytes) (pflags : ℕ) (attrs : SetAttrs) : Prog κ IoError (Handle F E) := do
  let mode := attrs.perm.elim 0o666 fun p => p &&& 0o777
  let file ← K.open path (openFlags pflags) mode
  return .file file (pflags &&& openAppend ≠ 0) false

/-- The directory that `opendir` opens. -/
def opendirHandle (path : Bytes) : Prog κ IoError (Handle F E) := do
  let entries ← K.readDir path
  return .dir entries

/-- The rest of `open`. -/
def openWork (id : ℕ) (path : Bytes) (pflags : ℕ) (attrs : SetAttrs) : Work κ F E Bytes :=
  opening K id (openHandle K path pflags attrs)

/-- The rest of `opendir`. -/
def opendirWork (id : ℕ) (path : Bytes) : Work κ F E Bytes := opening K id (opendirHandle K path)

/-- The slot is emptied, or its handle replaced. -/
def store (i : ℕ) (handle : Option (Handle F E)) : Work κ F E Unit :=
  modify fun s => { s with handles := s.handles.set i handle }

/-- The sync of a written file: of a regular one only. -/
def syncWritten (file : F) : Prog κ IoError Unit := do
  let m ← K.metadata file
  if m.isFile then K.syncData file

/-- What CLOSE does with the handle it took. -/
def closed (id : ℕ) (handle : Handle F E) : Work κ F E Bytes :=
  match handle with
  | .file file _ true => do
    return statusOf id (← sys (syncWritten K file))
  | _ => return statusReply id fxOk

/-- The rest of `close`. -/
def closeWork (id : ℕ) : Option (ℕ × Handle F E) → Work κ F E Bytes
  | none => return statusReply id fxFailure
  | some (i, handle) => do
    store i none
    let reply ← closed K id handle
    modify fun s => { s with fs := K.drop handle s.fs }
    return reply

/-- The reply to a read. -/
def dataReply (id : ℕ) (data : Bytes) : Bytes := fxpData :: (putUint32 id ++ putString data)

/-- Work with an open file; any other handle is a failure. -/
def onFile (id : ℕ) (work : F → Work κ F E Bytes) : Option (ℕ × Handle F E) → Work κ F E Bytes
  | some (_, .file file _ _) => work file
  | _ => return statusReply id fxFailure

/-- The rest of `read`. -/
def readWork (id offset len : ℕ) : Option (ℕ × Handle F E) → Work κ F E Bytes :=
  onFile id fun file => do
    match ← sys (K.readAt file (min len maxData) offset) with
    | .ok ⟨[], _⟩ => return statusReply id fxEof
    | .ok ⟨data, _⟩ => return dataReply id data
    | .error e => return statusReply id (errorCode e)

/-- The rest of `write`. -/
def writeWork (id offset : ℕ) (data : Bytes) : Option (ℕ × Handle F E) → Work κ F E Bytes
  | some (i, .file file append written) => fun s =>
    let ((result, written), fs) :=
      writeTracked K file data (if append then none else some offset) 0 written s.fs
    (statusOf id result,
      { handles := s.handles.set i (some (.file file append written)), fs })
  | _ => return statusReply id fxFailure

/-- The rest of `fstat`. -/
def fstatWork (id : ℕ) : Option (ℕ × Handle F E) → Work κ F E Bytes :=
  onFile id fun file => do
    return attrsOf id (← sys (K.metadata file))

/-- The rest of `fsetstat`. -/
def fsetstatWork (id : ℕ) (attrs : SetAttrs) : Option (ℕ × Handle F E) → Work κ F E Bytes :=
  onFile id fun file => do
    return statusOf id (← sys (fsetstat K file attrs))

/-- `fsync@openssh.com`. -/
def fsyncWork (id : ℕ) : Option (ℕ × Handle F E) → Work κ F E Bytes :=
  onFile id fun file => do
    return statusOf id (← sys (K.syncAll file))

/-- The clock as `readdir` reads it. -/
def listingTime (now : ℤ) : ℤ := if now < 0 then 0 else min now (2 ^ 63 - 1)

/-- An entry of a listing: its name, its `ls -l` line and its attributes. -/
structure Name where
  name : Bytes
  long : Bytes
  attrs : Metadata
deriving Repr, DecidableEq

/-- The encoded size of an entry. -/
def Name.size (n : Name) : ℕ := 4 + n.name.length + 4 + n.long.length + attrsLen

/-- The type, the id and the count of a listing. -/
def listingHead : ℕ := 1 + 4 + 4

/-- The loop of `readdir`: the names, or the code of a failed read; the entries that
stay; and the kernel. -/
def gather (now : ℤ) : List (Except IoError E) → List Name → (size : ℕ) → κ →
    (Except ℕ (List Name) × List (Except IoError E)) × κ
  | [], names, _, s => ((.ok names, []), s)
  | next :: entries, names, size, s =>
    if maxNames ≤ names.length then ((.ok names, next :: entries), s)
    else
      match next with
      | .error e =>
        if names ≠ [] then ((.ok names, next :: entries), s)
        else ((.error (errorCode e), entries), s)
      | .ok entry =>
        match K.entryMetadata entry s with
        | (.error _, s) => gather now entries names size s
        | (.ok m, s) =>
          let name := K.fileName entry
          let n : Name := { name, long := longname name m now, attrs := m }
          if maxPacket < size + n.size then ((.ok names, next :: entries), s)
          else gather now entries (names ++ [n]) (size + n.size) s

def putName (n : Name) : Bytes := putString n.name ++ putString n.long ++ putAttrs n.attrs

/-- The reply to a listing. -/
def listingReply (id : ℕ) : Except ℕ (List Name) → Bytes
  | .error code => statusReply id code
  | .ok [] => statusReply id fxEof
  | .ok names => fxpName :: (putUint32 id ++ (putUint32 names.length ++ names.flatMap putName))

/-- The rest of `readdir`. -/
def readdirWork (id : ℕ) : Option (ℕ × Handle F E) → Work κ F E Bytes
  | some (i, .dir entries) => fun s =>
    let ((names, entries), fs) :=
      gather K (listingTime (K.now s.fs)) entries [] listingHead s.fs
    (listingReply id names, { handles := s.handles.set i (some (.dir entries)), fs })
  | _ => return statusReply id fxFailure

/-- `stat`. -/
def stat (id : ℕ) (path : Bytes) (follow : Bool) : Work κ F E Bytes := do
  return attrsOf id (← sys (if follow then K.stat path else K.lstat path))

/-- The reply to `limits@openssh.com`. -/
def limitsReply (id : ℕ) : Bytes :=
  fxpExtendedReply :: (putUint32 id ++ (putUint64 maxPacket ++ putUint64 maxData ++
    putUint64 maxData ++ putUint64 maxHandles))

/-- The rest of `expand-path@openssh.com`. -/
def expandWork (cwd : Bytes) (id : ℕ) (path : Bytes) : Work κ F E Bytes := do
  return nameOf id (← sys do
    let p ← ofExcept (expand cwd path)
    realpath K p cwd)

/-! ### Handlers -/

/-- `open`. -/
def openRequest (id : ℕ) : Act κ F E Bytes := do
  let path ← arg pathArg
  let pflags ← arg Reader.uint32
  let attrs ← arg readAttrs
  act (openWork K id path pflags attrs)

/-- `read`. -/
def readRequest (id : ℕ) : Act κ F E Bytes := do
  let handle ← file
  let offset ← arg Reader.uint64
  let len ← arg Reader.uint32
  act (readWork K id offset len handle)

/-- `write`. -/
def writeRequest (id : ℕ) : Act κ F E Bytes := do
  let handle ← file
  let offset ← arg Reader.uint64
  let data ← arg (Reader.string maxPacket)
  act (writeWork K id offset data handle)

/-- `fsetstat`. -/
def fsetstatRequest (id : ℕ) : Act κ F E Bytes := do
  let handle ← file
  let attrs ← arg readAttrs
  act (fsetstatWork K id attrs handle)

/-- `extended`. -/
def extended (cwd : Bytes) (id : ℕ) : Act κ F E Bytes := do
  let name ← arg (Reader.string maxPacket)
  match Extension.ofName name with
  | some .posixRename => do
    let old ← arg pathArg
    let new ← arg pathArg
    act do return statusOf id (← sys (K.rename old new))
  | some .fsync => do
    let handle ← file
    act (fsyncWork K id handle)
  | some .limits => return limitsReply id
  | some .expandPath => do
    let path ← arg (Reader.string maxPacket)
    act (expandWork K cwd id path)
  | none => return statusReply id fxOpUnsupported

/-- The handler of a request. -/
def dispatch (cwd : Bytes) (id : ℕ) : Kind → Act κ F E Bytes
  | .open => openRequest K id
  | .close => do
    let handle ← file
    act (closeWork K id handle)
  | .read => readRequest K id
  | .write => writeRequest K id
  | .stat => do
    let path ← arg pathArg
    act (stat K id path true)
  | .lstat => do
    let path ← arg pathArg
    act (stat K id path false)
  | .fstat => do
    let handle ← file
    act (fstatWork K id handle)
  | .setstat => do
    let path ← arg pathArg
    let attrs ← arg readAttrs
    act do return statusOf id (← sys (setstat K path attrs))
  | .fsetstat => fsetstatRequest K id
  | .opendir => do
    let path ← arg pathArg
    act (opendirWork K id path)
  | .readdir => do
    let handle ← file
    act (readdirWork K id handle)
  | .remove => do
    let path ← arg pathArg
    act do return statusOf id (← sys (K.removeFile path))
  | .mkdir => do
    let path ← arg pathArg
    let attrs ← arg readAttrs
    let mode := attrs.perm.elim 0o777 fun p => p &&& 0o777
    act do return statusOf id (← sys (K.createDir path mode))
  | .rmdir => do
    let path ← arg pathArg
    act do return statusOf id (← sys (K.removeDir path))
  | .realpath => do
    let path ← arg pathArg
    act do return nameOf id (← sys (realpath K path cwd))
  | .rename => do
    let old ← arg pathArg
    let new ← arg pathArg
    act do return statusOf id (← sys (renameNoOverwrite K old new))
  | .readlink => do
    let path ← arg pathArg
    act do return nameOf id (← sys (K.readLink path))
  | .symlink => do
    let target ← arg rawPathArg
    let link ← arg pathArg
    act do return statusOf id (← sys (K.symlink target link))
  | .extended => extended K cwd id

/-- `handle`. -/
def handle (cwd : Bytes) : Act κ F E Bytes := do
  let kind ← arg Reader.byte
  let id ← arg Reader.uint32
  match Kind.ofByte kind with
  | some kind => dispatch K cwd id kind
  | none => return statusReply id fxOpUnsupported

/-- `handle` on a packet. -/
def Server.handle (cwd packet : Bytes) (s : Server κ F E) :
    Except Violation Bytes × Server κ F E :=
  let (reply, scene) := Sftp.handle K cwd { r := packet, server := s }
  (reply, scene.server)

/-! ### Sessions -/

/-- What a read gives; at the end of all there is nothing more to read. -/
inductive Read where
  | chunk (first : UInt8) (rest : Bytes)
  | interrupted
  | failed
deriving Repr, DecidableEq

/-- The end of a loop of reads. -/
inductive Filled where
  | full (got : Bytes)
  /-- The input ended first. -/
  | ended (got : Bytes)
  | failed
deriving Repr, DecidableEq

/-- The loop of reads that fills a buffer, as `read_packet` has it for the length and
`read_exact` for the packet: `want` bytes are missing. -/
def fill : List Read → (want : ℕ) → (got : Bytes) → Filled × List Read
  | input, 0, got => (.full got, input)
  | [], _ + 1, got => (.ended got, [])
  | .interrupted :: input, want + 1, got => fill input (want + 1) got
  | .failed :: input, _ + 1, _ => (.failed, input)
  | .chunk b bs :: input, want + 1, got =>
    match bs.drop want with
    | [] => fill input (want - bs.length) (got ++ b :: bs)
    | c :: cs => (.full (got ++ b :: bs.take want), .chunk c cs :: input)

/-- `read_packet`: the packet, or none at the end of the input. -/
def readPacket (input : List Read) : Except Violation (Option Bytes) × List Read :=
  match fill input 4 [] with
  | (.ended [], input) => (.ok none, input)
  | (.full len, input) =>
    let len := beValue len
    if len = 0 ∨ maxPacket < len then (.error .violation, input)
    else
      match fill input len [] with
      | (.full packet, input) => (.ok (some packet), input)
      | (_, input) => (.error .violation, input)
  | (_, input) => (.error .violation, input)

/-- `write_packet`. -/
def frame (payload : Bytes) : Bytes := putUint32 payload.length ++ payload

/-- How a session ended. -/
structure Outcome (κ F E : Type) where
  status : ℤ
  out : Bytes
  server : Server κ F E

/-- The answer to the first packet. -/
def greet (packet : Bytes) : Except Violation Bytes :=
  match Reader.byte.run packet with
  | .ok (kind, r) =>
    if kind = fxpInit then
      match Reader.uint32.run r with
      | .ok _ => .ok versionReply
      | .error _ => .error .violation
    else .error .violation
  | .error _ => .error .violation

/-- The answer to a packet. -/
def answer (cwd : Bytes) (first : Bool) (packet : Bytes) (s : Server κ F E) :
    Except Violation Bytes × Server κ F E :=
  if first then (greet packet, s) else s.handle K cwd packet

/-- The loop of `serve`. A packet takes input, so `fuel` as long as the input is enough. -/
def serveLoop (cwd : Bytes) : (fuel : ℕ) → List Read → (first : Bool) → Server κ F E →
    (out : Bytes) → Outcome κ F E
  | 0, _, _, s, out => { status := exitViolation, out, server := s }
  | fuel + 1, input, first, s, out =>
    match readPacket input with
    | (.ok none, _) => { status := 0, out, server := s }
    | (.error _, _) => { status := exitViolation, out, server := s }
    | (.ok (some packet), input) =>
      match answer K cwd first packet s with
      | (.ok reply, s) => serveLoop cwd fuel input false s (out ++ frame reply)
      | (.error _, s) => { status := exitViolation, out, server := s }

/-- The bytes of the input, up to a read that fails. -/
def streamOf : List Read → Bytes
  | [] => []
  | .chunk b bs :: input => b :: bs ++ streamOf input
  | .interrupted :: input => streamOf input
  | .failed :: _ => []

/-- `serve`, with writes that succeed. -/
def serve (cwd : Bytes) (input : List Read) (fs : κ) : Outcome κ F E :=
  serveLoop K cwd ((streamOf input).length + 1) input true { handles := [], fs } []

end QuantumSsh.Sftp
