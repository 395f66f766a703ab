import QuantumSsh.Fields
import QuantumSsh.Sftp.Server

/-!
# Requests

A packet is a request when its kind, its id and its fields stand in front of anything.
The handlers of `sftp.rs` read their fields one by one; it is shown that each reads them
all before it does any work, so that a packet that is no request leaves the session as
it was, and one that is has its work done and is answered.
-/

namespace QuantumSsh.Sftp

open Wire Parser

/-! ### The grammar -/

/-- A request, with its fields as they stand in the packet. -/
inductive Request where
  | «open» (path : Bytes) (pflags : ℕ) (attrs : SetAttrs)
  | close (handle : Bytes)
  | read (handle : Bytes) (offset len : ℕ)
  | write (handle : Bytes) (offset : ℕ) (data : Bytes)
  | stat (path : Bytes) (follow : Bool)
  | fstat (handle : Bytes)
  | setstat (path : Bytes) (attrs : SetAttrs)
  | fsetstat (handle : Bytes) (attrs : SetAttrs)
  | opendir (path : Bytes)
  | readdir (handle : Bytes)
  | remove (path : Bytes)
  | mkdir (path : Bytes) (attrs : SetAttrs)
  | rmdir (path : Bytes)
  | realpath (path : Bytes)
  | rename (old new : Bytes)
  | readlink (path : Bytes)
  | symlink (target link : Bytes)
  | posixRename (old new : Bytes)
  | fsync (handle : Bytes)
  | limits
  | expandPath (path : Bytes)
  | unsupported
deriving Repr, DecidableEq

/-- A string that a packet can hold. -/
def IsString (b w : Bytes) : Prop := b.length ≤ maxPacket ∧ w = putString b

def IsUint32 (v : ℕ) (w : Bytes) : Prop := v < 2 ^ 32 ∧ w = putUint32 v

def IsUint64 (v : ℕ) (w : Bytes) : Prop := v < 2 ^ 64 ∧ w = putUint64 v

def IsUint32Pair (v : ℕ × ℕ) (w : Bytes) : Prop :=
  ∃ a b, IsUint32 v.1 a ∧ IsUint32 v.2 b ∧ w = a ++ b

/-- A field that stands there when its flag is set. -/
inductive IsFlagged {α : Type} (words : α → Bytes → Prop) (flags flag : ℕ) : Option α → Bytes → Prop
  | set {a : α} {w : Bytes} (h : flags &&& flag ≠ 0) (hw : words a w) :
      IsFlagged words flags flag (some a) w
  | unset (h : flags &&& flag = 0) : IsFlagged words flags flag none []

/-- As many pairs of strings as the count tells. -/
inductive ArePairs : ℕ → Bytes → Prop
  | nil : ArePairs 0 []
  | cons {n : ℕ} {a b u v w : Bytes} (ha : IsString a u) (hb : IsString b v) (h : ArePairs n w) :
      ArePairs (n + 1) (u ++ (v ++ w))

/-- The extended attributes. -/
def IsExtension (_ : Unit) (w : Bytes) : Prop := ∃ n u v, IsUint32 n u ∧ ArePairs n v ∧ w = u ++ v

/-- An ATTRS field. -/
def IsAttrs (attrs : SetAttrs) (w : Bytes) : Prop :=
  ∃ flags ext f a b c d e, IsUint32 flags f ∧ IsFlagged IsUint64 flags attrSize attrs.size a ∧
    IsFlagged IsUint32Pair flags attrUidgid attrs.owner b ∧
    IsFlagged IsUint32 flags attrPermissions attrs.perm c ∧
    IsFlagged IsUint32Pair flags attrAcmodtime attrs.times d ∧
    IsFlagged IsExtension flags attrExtended ext e ∧ w = f ++ (a ++ (b ++ (c ++ (d ++ e))))

/-- The fields of each kind of request. -/
inductive IsFields : Kind → Request → Bytes → Prop
  | open {path u v w : Bytes} {pflags : ℕ} {attrs : SetAttrs} (hpath : IsString path u)
      (hflags : IsUint32 pflags v) (hattrs : IsAttrs attrs w) :
      IsFields .open (.open path pflags attrs) (u ++ (v ++ w))
  | close {handle u : Bytes} (h : IsString handle u) : IsFields .close (.close handle) u
  | read {handle u v w : Bytes} {offset len : ℕ} (h : IsString handle u)
      (hoffset : IsUint64 offset v) (hlen : IsUint32 len w) :
      IsFields .read (.read handle offset len) (u ++ (v ++ w))
  | write {handle data u v w : Bytes} {offset : ℕ} (h : IsString handle u)
      (hoffset : IsUint64 offset v) (hdata : IsString data w) :
      IsFields .write (.write handle offset data) (u ++ (v ++ w))
  | stat {path u : Bytes} (h : IsString path u) : IsFields .stat (.stat path true) u
  | lstat {path u : Bytes} (h : IsString path u) : IsFields .lstat (.stat path false) u
  | fstat {handle u : Bytes} (h : IsString handle u) : IsFields .fstat (.fstat handle) u
  | setstat {path u v : Bytes} {attrs : SetAttrs} (h : IsString path u) (hattrs : IsAttrs attrs v) :
      IsFields .setstat (.setstat path attrs) (u ++ v)
  | fsetstat {handle u v : Bytes} {attrs : SetAttrs} (h : IsString handle u)
      (hattrs : IsAttrs attrs v) : IsFields .fsetstat (.fsetstat handle attrs) (u ++ v)
  | opendir {path u : Bytes} (h : IsString path u) : IsFields .opendir (.opendir path) u
  | readdir {handle u : Bytes} (h : IsString handle u) : IsFields .readdir (.readdir handle) u
  | remove {path u : Bytes} (h : IsString path u) : IsFields .remove (.remove path) u
  | mkdir {path u v : Bytes} {attrs : SetAttrs} (h : IsString path u) (hattrs : IsAttrs attrs v) :
      IsFields .mkdir (.mkdir path attrs) (u ++ v)
  | rmdir {path u : Bytes} (h : IsString path u) : IsFields .rmdir (.rmdir path) u
  | realpath {path u : Bytes} (h : IsString path u) : IsFields .realpath (.realpath path) u
  | rename {old new u v : Bytes} (hold : IsString old u) (hnew : IsString new v) :
      IsFields .rename (.rename old new) (u ++ v)
  | readlink {path u : Bytes} (h : IsString path u) : IsFields .readlink (.readlink path) u
  | symlink {target link u v : Bytes} (htarget : IsString target u) (hlink : IsString link v) :
      IsFields .symlink (.symlink target link) (u ++ v)
  | posixRename {old new n u v : Bytes} (hn : IsString Extension.posixRename.name n)
      (hold : IsString old u) (hnew : IsString new v) :
      IsFields .extended (.posixRename old new) (n ++ (u ++ v))
  | fsync {handle n u : Bytes} (hn : IsString Extension.fsync.name n) (h : IsString handle u) :
      IsFields .extended (.fsync handle) (n ++ u)
  | limits {n : Bytes} (hn : IsString Extension.limits.name n) : IsFields .extended .limits n
  | expandPath {path n u : Bytes} (hn : IsString Extension.expandPath.name n)
      (h : IsString path u) : IsFields .extended (.expandPath path) (n ++ u)
  | unknown {name n : Bytes} (hname : ∀ e : Extension, e.name ≠ name) (hn : IsString name n) :
      IsFields .extended .unsupported n

/-- The packet is a request with this id: a known kind with its fields, or any other kind. -/
def IsRequest (packet : Bytes) (id : ℕ) (q : Request) : Prop :=
  id < 2 ^ 32 ∧
    ((∃ kind w rest, IsFields kind q w ∧ packet = kind.byte :: (putUint32 id ++ (w ++ rest))) ∨
      ∃ b rest, (∀ kind : Kind, kind.byte ≠ b) ∧ q = .unsupported ∧
        packet = b :: (putUint32 id ++ rest))

/-! ### Reading a request -/

/-- The fields of an extended request. -/
def extendedFields : Reader Request := do
  let name ← Reader.string maxPacket
  match Extension.ofName name with
  | some .posixRename => do
    let old ← rawPathArg
    let new ← rawPathArg
    return .posixRename old new
  | some .fsync => do
    let handle ← Reader.string maxPacket
    return .fsync handle
  | some .limits => return .limits
  | some .expandPath => do
    let path ← Reader.string maxPacket
    return .expandPath path
  | none => return .unsupported

/-- The fields of a request. -/
def fields : Kind → Reader Request
  | .open => do
    let path ← rawPathArg
    let pflags ← Reader.uint32
    let attrs ← readAttrs
    return .open path pflags attrs
  | .close => do
    let handle ← Reader.string maxPacket
    return .close handle
  | .read => do
    let handle ← Reader.string maxPacket
    let offset ← Reader.uint64
    let len ← Reader.uint32
    return .read handle offset len
  | .write => do
    let handle ← Reader.string maxPacket
    let offset ← Reader.uint64
    let data ← Reader.string maxPacket
    return .write handle offset data
  | .stat => do
    let path ← rawPathArg
    return .stat path true
  | .lstat => do
    let path ← rawPathArg
    return .stat path false
  | .fstat => do
    let handle ← Reader.string maxPacket
    return .fstat handle
  | .setstat => do
    let path ← rawPathArg
    let attrs ← readAttrs
    return .setstat path attrs
  | .fsetstat => do
    let handle ← Reader.string maxPacket
    let attrs ← readAttrs
    return .fsetstat handle attrs
  | .opendir => do
    let path ← rawPathArg
    return .opendir path
  | .readdir => do
    let handle ← Reader.string maxPacket
    return .readdir handle
  | .remove => do
    let path ← rawPathArg
    return .remove path
  | .mkdir => do
    let path ← rawPathArg
    let attrs ← readAttrs
    return .mkdir path attrs
  | .rmdir => do
    let path ← rawPathArg
    return .rmdir path
  | .realpath => do
    let path ← rawPathArg
    return .realpath path
  | .rename => do
    let old ← rawPathArg
    let new ← rawPathArg
    return .rename old new
  | .readlink => do
    let path ← rawPathArg
    return .readlink path
  | .symlink => do
    let target ← rawPathArg
    let link ← rawPathArg
    return .symlink target link
  | .extended => extendedFields

/-- A request and its id. -/
def request : Reader (ℕ × Request) := do
  let kind ← Reader.byte
  let id ← Reader.uint32
  match Kind.ofByte kind with
  | some kind => do
    let q ← fields kind
    return (id, q)
  | none => return (id, .unsupported)

/-! ### The readers read the grammar -/

theorem string_reads : Exact (Reader.string maxPacket) IsString := by
  refine (Reader.string_exact maxPacket).congr fun b w => ?_
  refine and_congr_left' (and_iff_left_of_imp fun h => ?_)
  exact lt_of_le_of_lt h (by decide)

theorem uint32_reads : Exact Reader.uint32 IsUint32 := by
  intro v input rest
  rw [Reader.uint32_ok]
  constructor
  · rintro ⟨hv, rfl⟩
    exact ⟨putUint32 v, ⟨hv, rfl⟩, rfl⟩
  · rintro ⟨_, ⟨hv, rfl⟩, rfl⟩
    exact ⟨hv, rfl⟩

theorem uint64_reads : Exact Reader.uint64 IsUint64 := by
  intro v input rest
  rw [Reader.uint64_ok]
  constructor
  · rintro ⟨hv, rfl⟩
    exact ⟨putUint64 v, ⟨hv, rfl⟩, rfl⟩
  · rintro ⟨_, ⟨hv, rfl⟩, rfl⟩
    exact ⟨hv, rfl⟩

section

variable {α β γ : Type} {p : Reader α} {p' : Reader β} {p'' : Reader γ} {P : α → Bytes → Prop}
  {Q : β → Bytes → Prop} {R : γ → Bytes → Prop} {δ : Type}

/-- A value made of one field. -/
theorem one_reads (hp : Exact p P) (f : α → δ) :
    Exact (do let a ← p; return f a) fun d w => ∃ a, P a w ∧ d = f a := by
  refine (hp.bind fun a => exact_pure (f a)).congr fun d w => ?_
  constructor
  · rintro ⟨a, u, v, ha, ⟨rfl, rfl⟩, rfl⟩
    exact ⟨a, by rwa [List.append_nil], rfl⟩
  · rintro ⟨a, ha, rfl⟩
    exact ⟨a, w, [], ha, ⟨rfl, rfl⟩, (List.append_nil w).symm⟩

/-- A value made of two fields. -/
theorem two_reads (hp : Exact p P) (hq : Exact p' Q) (f : α → β → δ) :
    Exact (do let a ← p; let b ← p'; return f a b) fun d w =>
      ∃ a b u v, P a u ∧ Q b v ∧ d = f a b ∧ w = u ++ v := by
  refine (hp.bind fun a => one_reads hq (f a)).congr fun d w => ?_
  constructor
  · rintro ⟨a, u, v, ha, ⟨b, hb, rfl⟩, rfl⟩
    exact ⟨a, b, u, v, ha, hb, rfl, rfl⟩
  · rintro ⟨a, b, u, v, ha, hb, rfl, rfl⟩
    exact ⟨a, u, v, ha, ⟨b, hb, rfl⟩, rfl⟩

/-- A value made of three fields. -/
theorem three_reads (hp : Exact p P) (hq : Exact p' Q) (hr : Exact p'' R) (f : α → β → γ → δ) :
    Exact (do let a ← p; let b ← p'; let c ← p''; return f a b c) fun d x =>
      ∃ a b c u v w, P a u ∧ Q b v ∧ R c w ∧ d = f a b c ∧ x = u ++ (v ++ w) := by
  refine (hp.bind fun a => two_reads hq hr (f a)).congr fun d x => ?_
  constructor
  · rintro ⟨a, u, _, ha, ⟨b, c, v, w, hb, hc, rfl, rfl⟩, rfl⟩
    exact ⟨a, b, c, u, v, w, ha, hb, hc, rfl, rfl⟩
  · rintro ⟨a, b, c, u, v, w, ha, hb, hc, rfl, rfl⟩
    exact ⟨a, u, v ++ w, ha, ⟨b, c, v, w, hb, hc, rfl, rfl⟩, rfl⟩

theorem whenFlag_reads (hp : Exact p P) (flags flag : ℕ) :
    Exact (whenFlag flags flag p) (IsFlagged P flags flag) := by
  unfold whenFlag
  by_cases hflag : flags &&& flag ≠ 0
  · rw [if_pos hflag]
    refine (one_reads hp some).congr fun a w => ?_
    constructor
    · rintro ⟨a, ha, rfl⟩
      exact .set hflag ha
    · rintro (⟨-, ha⟩ | ⟨hunset⟩)
      · exact ⟨_, ha, rfl⟩
      · exact absurd hunset hflag
  · rw [if_neg hflag]
    refine (exact_pure none).congr fun a w => ?_
    constructor
    · rintro ⟨rfl, rfl⟩
      exact .unset (not_not.1 hflag)
    · rintro (⟨hset, -⟩ | -)
      · exact absurd hset hflag
      · exact ⟨rfl, rfl⟩

end

theorem uint32Pair_reads : Exact uint32Pair IsUint32Pair := by
  refine (two_reads uint32_reads uint32_reads Prod.mk).congr fun v w => ?_
  constructor
  · rintro ⟨a, b, u, u', ha, hb, rfl, rfl⟩
    exact ⟨u, u', ha, hb, rfl⟩
  · rintro ⟨u, u', ha, hb, rfl⟩
    exact ⟨v.1, v.2, u, u', ha, hb, rfl, rfl⟩

theorem skipPairs_reads (n : ℕ) : Exact (skipPairs n) fun _ w => ArePairs n w := by
  induction n with
  | zero =>
    refine (exact_pure ()).congr fun _ w => ?_
    constructor
    · rintro ⟨-, rfl⟩
      exact .nil
    · rintro ⟨⟩
      exact ⟨rfl, rfl⟩
  | succ n ih =>
    refine (string_reads.bind fun _ => string_reads.bind fun _ => ih).congr fun _ w => ?_
    constructor
    · rintro ⟨a, u, _, ha, ⟨b, v, w, hb, hpairs, rfl⟩, rfl⟩
      exact .cons ha hb hpairs
    · rintro (_ | ⟨ha, hb, hpairs⟩)
      exact ⟨_, _, _, ha, ⟨_, _, _, hb, hpairs, rfl⟩, rfl⟩

theorem readAttrs_reads : Exact readAttrs IsAttrs := by
  have hext : Exact (do let count ← Reader.uint32; skipPairs count) IsExtension :=
    (uint32_reads.bind skipPairs_reads).congr fun _ _ => Iff.rfl
  refine (uint32_reads.bind fun flags => (whenFlag_reads uint64_reads flags attrSize).bind fun size =>
    (whenFlag_reads uint32Pair_reads flags attrUidgid).bind fun owner =>
    (whenFlag_reads uint32_reads flags attrPermissions).bind fun perm =>
    two_reads (whenFlag_reads uint32Pair_reads flags attrAcmodtime)
      (whenFlag_reads hext flags attrExtended) fun times _ =>
        ({ size, owner, perm, times } : SetAttrs)).congr fun attrs w => ?_
  constructor
  · rintro ⟨flags, f, _, hf, ⟨size, a, _, ha, ⟨owner, b, _, hb, ⟨perm, c, _, hc,
      ⟨times, ext, d, e, hd, he, rfl, rfl⟩, rfl⟩, rfl⟩, rfl⟩, rfl⟩
    exact ⟨flags, ext, f, a, b, c, d, e, hf, ha, hb, hc, hd, he, rfl⟩
  · rintro ⟨flags, ext, f, a, b, c, d, e, hf, ha, hb, hc, hd, he, rfl⟩
    exact ⟨flags, f, _, hf, ⟨_, a, _, ha, ⟨_, b, _, hb, ⟨_, c, _, hc,
      ⟨_, ext, d, e, hd, he, rfl, rfl⟩, rfl⟩, rfl⟩, rfl⟩, rfl⟩

/-! ### Names and numbers -/

theorem Extension.ofName_name (e : Extension) : Extension.ofName e.name = some e := by
  cases e <;> decide

theorem Extension.name_of_ofName {name : Bytes} {e : Extension}
    (h : Extension.ofName name = some e) : e.name = name := by
  simpa using List.find?_some h

theorem Extension.ofName_eq_none {name : Bytes} :
    Extension.ofName name = none ↔ ∀ e : Extension, e.name ≠ name := by
  constructor
  · rintro h e rfl
    rw [Extension.ofName_name] at h
    cases h
  · intro h
    cases hname : Extension.ofName name with
    | none => rfl
    | some e => exact absurd (Extension.name_of_ofName hname) (h e)

theorem Kind.ofByte_byte (kind : Kind) : Kind.ofByte kind.byte = some kind := by
  cases kind <;> decide

theorem Kind.byte_of_ofByte {b : UInt8} {kind : Kind} (h : Kind.ofByte b = some kind) :
    kind.byte = b := by
  simpa using List.find?_some h

theorem Kind.ofByte_eq_none {b : UInt8} : Kind.ofByte b = none ↔ ∀ kind : Kind, kind.byte ≠ b := by
  constructor
  · rintro h kind rfl
    rw [Kind.ofByte_byte] at h
    cases h
  · intro h
    cases hkind : Kind.ofByte b with
    | none => rfl
    | some kind => exact absurd (Kind.byte_of_ofByte hkind) (h kind)

/-! ### The fields of each kind -/

theorem one_string_reads {kind : Kind} {f : Bytes → Request}
    (h : ∀ q w, IsFields kind q w ↔ ∃ b, IsString b w ∧ q = f b) :
    Exact (do let b ← Reader.string maxPacket; return f b) (IsFields kind) :=
  (one_reads string_reads f).congr fun q w => (h q w).symm

theorem string_attrs_reads {kind : Kind} {f : Bytes → SetAttrs → Request}
    (h : ∀ q w, IsFields kind q w ↔
      ∃ b attrs u v, IsString b u ∧ IsAttrs attrs v ∧ q = f b attrs ∧ w = u ++ v) :
    Exact (do let b ← Reader.string maxPacket; let attrs ← readAttrs; return f b attrs)
      (IsFields kind) :=
  (two_reads string_reads readAttrs_reads f).congr fun q w => (h q w).symm

theorem two_strings_reads {kind : Kind} {f : Bytes → Bytes → Request}
    (h : ∀ q w, IsFields kind q w ↔
      ∃ a b u v, IsString a u ∧ IsString b v ∧ q = f a b ∧ w = u ++ v) :
    Exact (do let a ← Reader.string maxPacket; let b ← Reader.string maxPacket; return f a b)
      (IsFields kind) :=
  (two_reads string_reads string_reads f).congr fun q w => (h q w).symm

/-- The requests that an extension of this name can be. -/
def IsExtended (name : Bytes) (q : Request) (w : Bytes) : Prop :=
  match Extension.ofName name with
  | some .posixRename => ∃ old new u v, IsString old u ∧ IsString new v ∧
      q = .posixRename old new ∧ w = u ++ v
  | some .fsync => ∃ handle, IsString handle w ∧ q = .fsync handle
  | some .limits => q = .limits ∧ w = []
  | some .expandPath => ∃ path, IsString path w ∧ q = .expandPath path
  | none => q = .unsupported ∧ w = []

theorem isFields_extended {q : Request} {x : Bytes} :
    IsFields .extended q x ↔ ∃ name u v, IsString name u ∧ IsExtended name q v ∧ x = u ++ v := by
  constructor
  · intro h
    cases h with
    | @posixRename old new n u v hn hold hnew =>
      refine ⟨_, n, u ++ v, hn, ?_, rfl⟩
      rw [IsExtended, Extension.ofName_name]
      exact ⟨old, new, u, v, hold, hnew, rfl, rfl⟩
    | @fsync handle n u hn h =>
      refine ⟨_, n, u, hn, ?_, rfl⟩
      rw [IsExtended, Extension.ofName_name]
      exact ⟨handle, h, rfl⟩
    | limits hn =>
      refine ⟨_, x, [], hn, ?_, (List.append_nil x).symm⟩
      rw [IsExtended, Extension.ofName_name]
      exact ⟨rfl, rfl⟩
    | @expandPath path n u hn h =>
      refine ⟨_, n, u, hn, ?_, rfl⟩
      rw [IsExtended, Extension.ofName_name]
      exact ⟨path, h, rfl⟩
    | @unknown name _ hname hn =>
      refine ⟨name, x, [], hn, ?_, (List.append_nil x).symm⟩
      rw [IsExtended, Extension.ofName_eq_none.2 hname]
      exact ⟨rfl, rfl⟩
  · rintro ⟨name, u, v, hn, h, rfl⟩
    unfold IsExtended at h
    cases hname : Extension.ofName name with
    | none =>
      rw [hname] at h
      obtain ⟨rfl, rfl⟩ := h
      rw [List.append_nil]
      exact .unknown (Extension.ofName_eq_none.1 hname) hn
    | some e =>
      obtain rfl := Extension.name_of_ofName hname
      rw [hname] at h
      cases e with
      | posixRename =>
        obtain ⟨old, new, a, b, hold, hnew, rfl, rfl⟩ := h
        exact .posixRename hn hold hnew
      | fsync =>
        obtain ⟨handle, h, rfl⟩ := h
        exact .fsync hn h
      | limits =>
        obtain ⟨rfl, rfl⟩ := h
        rw [List.append_nil]
        exact .limits hn
      | expandPath =>
        obtain ⟨path, h, rfl⟩ := h
        exact .expandPath hn h

theorem extendedFields_reads : Exact extendedFields (IsFields .extended) := by
  refine (string_reads.bind (Q := IsExtended) fun name => ?_).congr
    fun q w => isFields_extended.symm
  unfold IsExtended
  split
  · exact two_reads string_reads string_reads Request.posixRename
  · exact one_reads string_reads Request.fsync
  · exact exact_pure Request.limits
  · exact one_reads string_reads Request.expandPath
  · exact exact_pure Request.unsupported

theorem fields_reads (kind : Kind) : Exact (fields kind) (IsFields kind) := by
  cases kind with
  | «open» =>
    refine (three_reads string_reads uint32_reads readAttrs_reads Request.open).congr fun q w => ?_
    constructor
    · rintro ⟨a, b, c, u, v, w, ha, hb, hc, rfl, rfl⟩
      exact .open ha hb hc
    · rintro ⟨ha, hb, hc⟩
      exact ⟨_, _, _, _, _, _, ha, hb, hc, rfl, rfl⟩
  | read =>
    refine (three_reads string_reads uint64_reads uint32_reads Request.read).congr fun q w => ?_
    constructor
    · rintro ⟨a, b, c, u, v, w, ha, hb, hc, rfl, rfl⟩
      exact .read ha hb hc
    · intro h
      cases h with
      | read ha hb hc => exact ⟨_, _, _, _, _, _, ha, hb, hc, rfl, rfl⟩
  | write =>
    refine (three_reads string_reads uint64_reads string_reads Request.write).congr fun q w => ?_
    constructor
    · rintro ⟨a, b, c, u, v, w, ha, hb, hc, rfl, rfl⟩
      exact .write ha hb hc
    · intro h
      cases h with
      | write ha hb hc => exact ⟨_, _, _, _, _, _, ha, hb, hc, rfl, rfl⟩
  | extended => exact extendedFields_reads
  | setstat | fsetstat | mkdir =>
    refine string_attrs_reads fun q w => ⟨?_, ?_⟩
    · rintro ⟨⟩
      exact ⟨_, _, _, _, ‹_›, ‹_›, rfl, rfl⟩
    · rintro ⟨b, attrs, u, v, hb, hattrs, rfl, rfl⟩
      constructor <;> assumption
  | rename | symlink =>
    refine two_strings_reads fun q w => ⟨?_, ?_⟩
    · rintro ⟨⟩
      exact ⟨_, _, _, _, ‹_›, ‹_›, rfl, rfl⟩
    · rintro ⟨a, b, u, v, ha, hb, rfl, rfl⟩
      constructor <;> assumption
  | close | stat | lstat | fstat | opendir | readdir | remove | rmdir | realpath | readlink =>
    refine one_string_reads fun q w => ⟨?_, ?_⟩
    · rintro ⟨⟩
      exact ⟨_, ‹_›, rfl⟩
    · rintro ⟨b, hb, rfl⟩
      constructor
      exact hb

/-- The reader accepts exactly the requests. -/
theorem request_ok {packet : Bytes} {id : ℕ} {q : Request} :
    (∃ rest, request.run packet = .ok ((id, q), rest)) ↔ IsRequest packet id q := by
  simp only [request, run_bind_ok, Reader.byte_ok, Reader.uint32_ok]
  constructor
  · rintro ⟨rest, kind, _, rfl, id', r, ⟨hid, rfl⟩, h⟩
    cases hkind : Kind.ofByte kind with
    | none =>
      rw [hkind, run_pure_ok] at h
      obtain ⟨heq, rfl⟩ := h
      cases heq
      exact ⟨hid, .inr ⟨kind, r, Kind.ofByte_eq_none.1 hkind, rfl, rfl⟩⟩
    | some k =>
      obtain rfl := Kind.byte_of_ofByte hkind
      simp only [hkind, run_bind_ok, run_pure_ok] at h
      obtain ⟨q', r', hfields, heq, rfl⟩ := h
      cases heq
      obtain ⟨w, hw, rfl⟩ := (fields_reads k _ _ _).1 hfields
      exact ⟨hid, .inl ⟨k, w, r', hw, rfl⟩⟩
  · rintro ⟨hid, ⟨kind, w, rest, hw, rfl⟩ | ⟨b, rest, hb, rfl, rfl⟩⟩
    · refine ⟨rest, kind.byte, _, rfl, id, w ++ rest, ⟨hid, rfl⟩, ?_⟩
      simp only [Kind.ofByte_byte, run_bind_ok, run_pure_ok]
      exact ⟨q, rest, (fields_reads kind _ _ _).2 ⟨w, hw, rfl⟩, rfl, rfl⟩
    · refine ⟨rest, b, _, rfl, id, rest, ⟨hid, rfl⟩, ?_⟩
      rw [Kind.ofByte_eq_none.2 hb, run_pure_ok]
      exact ⟨rfl, rfl⟩

/-! ### The work of a request -/

variable {κ F E : Type}

/-- Work with the handle that a handle string names. -/
def named (raw : Bytes) (work : Option (ℕ × Handle F E) → Work κ F E Bytes) : Work κ F E Bytes :=
  fun s => work (s.handleOf raw) s

/-- What is done for a request, and its reply. -/
def perform (K : Kernel κ F E) (cwd : Bytes) (id : ℕ) : Request → Work κ F E Bytes
  | .open path pflags attrs => openWork K id (orDot path) pflags attrs
  | .close handle => named handle (closeWork K id)
  | .read handle offset len => named handle (readWork K id offset len)
  | .write handle offset data => named handle (writeWork K id offset data)
  | .stat path follow => stat K id (orDot path) follow
  | .fstat handle => named handle (fstatWork K id)
  | .setstat path attrs => do
    return statusOf id (← sys (setstat K (orDot path) attrs))
  | .fsetstat handle attrs => named handle (fsetstatWork K id attrs)
  | .opendir path => opendirWork K id (orDot path)
  | .readdir handle => named handle (readdirWork K id)
  | .remove path => do
    return statusOf id (← sys (K.removeFile (orDot path)))
  | .mkdir path attrs => do
    let mode := attrs.perm.elim 0o777 fun p => p &&& 0o777
    return statusOf id (← sys (K.createDir (orDot path) mode))
  | .rmdir path => do
    return statusOf id (← sys (K.removeDir (orDot path)))
  | .realpath path => do
    return nameOf id (← sys (realpath K (orDot path) cwd))
  | .rename old new => do
    return statusOf id (← sys (renameNoOverwrite K (orDot old) (orDot new)))
  | .readlink path => do
    return nameOf id (← sys (K.readLink (orDot path)))
  | .symlink target link => do
    return statusOf id (← sys (K.symlink target (orDot link)))
  | .posixRename old new => do
    return statusOf id (← sys (K.rename (orDot old) (orDot new)))
  | .fsync handle => named handle (fsyncWork K id)
  | .limits => return limitsReply id
  | .expandPath path => expandWork K cwd id path
  | .unsupported => return statusReply id fxOpUnsupported

/-! ### Every handler reads before it works -/

section

variable {α β : Type} {K : Kernel κ F E} {cwd : Bytes} {id : ℕ} {s : Server κ F E}
  {g : β → Work κ F E Bytes}

/-- From this session, the handler does the work of what the reader reads, and nothing
when it reads nothing. -/
def Decodes (g : β → Work κ F E Bytes) (s : Server κ F E) (h : Act κ F E Bytes) (p : Reader β) :
    Prop :=
  ∀ r, match p.run r with
    | .ok (b, r') => h ⟨r, s⟩ = (.ok (g b s).1, ⟨r', (g b s).2⟩)
    | .error _ => ∃ r', h ⟨r, s⟩ = (.error .violation, ⟨r', s⟩)

/-- An argument that is there passes what follows it on. -/
theorem arg_bind_of_ok {p : Reader α} {f : α → Act κ F E Bytes} {r r' : Bytes} {a : α}
    (h : p.run r = .ok (a, r')) : (arg p >>= f) ⟨r, s⟩ = f a ⟨r', s⟩ := by
  change Program.Prog.bind (arg p) f ⟨r, s⟩ = _
  simp only [Program.Prog.bind, arg, h]

/-- An argument that is missing ends the handler. -/
theorem arg_bind_of_error {p : Reader α} {f : α → Act κ F E Bytes} {r : Bytes} {e : WireError}
    (h : p.run r = .error e) : (arg p >>= f) ⟨r, s⟩ = (.error .violation, ⟨r, s⟩) := by
  change Program.Prog.bind (arg p) f ⟨r, s⟩ = _
  simp only [Program.Prog.bind, arg, h]

theorem decodes_arg {p : Reader α} {f : α → Act κ F E Bytes} {q : α → Reader β}
    (h : ∀ a, Decodes g s (f a) (q a)) : Decodes g s (arg p >>= f) (p >>= q) := by
  intro r
  cases hp : p.run r with
  | error e =>
    rw [run_bind_of_error hp]
    exact ⟨r, arg_bind_of_error hp⟩
  | ok v =>
    obtain ⟨a, r'⟩ := v
    rw [run_bind_of_ok hp, arg_bind_of_ok hp]
    exact h a r'

theorem decodes_path {f : Bytes → Act κ F E Bytes} {q : Bytes → Reader β}
    (h : ∀ raw, Decodes g s (f (orDot raw)) (q raw)) :
    Decodes g s (arg pathArg >>= f) (rawPathArg >>= q) := by
  intro r
  cases hp : rawPathArg.run r with
  | error e =>
    have hpath : pathArg.run r = .error e := run_bind_of_error hp
    rw [run_bind_of_error hp]
    exact ⟨r, arg_bind_of_error hpath⟩
  | ok v =>
    obtain ⟨raw, r'⟩ := v
    have hpath : pathArg.run r = .ok (orDot raw, r') := run_bind_of_ok hp
    rw [run_bind_of_ok hp, arg_bind_of_ok hpath]
    exact h raw r'

theorem decodes_file {f : Option (ℕ × Handle F E) → Act κ F E Bytes} {q : Bytes → Reader β}
    (h : ∀ raw, Decodes g s (f (s.handleOf raw)) (q raw)) :
    Decodes g s (file >>= f) (Reader.string maxPacket >>= q) := by
  have hfile : (file >>= f : Act κ F E Bytes) = arg (Reader.string maxPacket) >>= fun raw =>
      Program.look (fun s => s.server.handleOf raw) >>= f := by
    funext s
    change Program.Prog.bind (Program.Prog.bind (arg (Reader.string maxPacket)) _) f s =
      Program.Prog.bind (arg (Reader.string maxPacket)) _ s
    cases hp : (Reader.string maxPacket).run s.r with
    | error e => simp only [Program.Prog.bind, arg, hp]
    | ok v => simp only [Program.Prog.bind, arg, hp]; rfl
  rw [hfile]
  exact decodes_arg fun raw r => h raw r

theorem decodes_act {work : Work κ F E Bytes} {b : β} (h : g b s = work s) :
    Decodes g s (act work) (pure b) := by
  intro r
  change act work ⟨r, s⟩ = _
  rw [act, h]

theorem decodes_return {reply : Bytes} {b : β} (h : g b s = (reply, s)) :
    Decodes g s (pure reply) (pure b) := by
  intro r
  change (_, _) = _
  rw [h]

/-- What is read may be put together with more. -/
theorem decodes_map {h : Act κ F E Bytes} {p : Reader α} {f : α → β}
    (hp : Decodes (fun a => g (f a)) s h p) :
    Decodes g s h (do let a ← p; return f a) := by
  intro r
  have hr := hp r
  cases hrun : p.run r with
  | error e =>
    rw [hrun] at hr
    rwa [run_bind_of_error hrun]
  | ok v =>
    rw [hrun] at hr
    rw [run_bind_of_ok hrun]
    exact hr

theorem decodes_extended :
    Decodes (perform K cwd id) s (extended K cwd id) extendedFields := by
  refine decodes_arg fun name => ?_
  cases Extension.ofName name with
  | none => exact decodes_return rfl
  | some e =>
    cases e with
    | posixRename => exact decodes_path fun old => decodes_path fun new => decodes_act rfl
    | fsync => exact decodes_file fun handle => decodes_act rfl
    | limits => exact decodes_return rfl
    | expandPath => exact decodes_arg fun path => decodes_act rfl

theorem decodes_dispatch (kind : Kind) :
    Decodes (perform K cwd id) s (dispatch K cwd id kind) (fields kind) := by
  cases kind with
  | «open» =>
    exact decodes_path fun path => decodes_arg fun pflags => decodes_arg fun attrs => decodes_act rfl
  | close | fstat | readdir => exact decodes_file fun handle => decodes_act rfl
  | read | write =>
    exact decodes_file fun handle => decodes_arg fun offset => decodes_arg fun _ => decodes_act rfl
  | fsetstat => exact decodes_file fun handle => decodes_arg fun attrs => decodes_act rfl
  | setstat | mkdir => exact decodes_path fun path => decodes_arg fun attrs => decodes_act rfl
  | rename => exact decodes_path fun old => decodes_path fun new => decodes_act rfl
  | symlink => exact decodes_arg fun target => decodes_path fun link => decodes_act rfl
  | stat | lstat | opendir | remove | rmdir | realpath | readlink =>
    exact decodes_path fun path => decodes_act rfl
  | extended => exact decodes_extended

theorem decodes_handle :
    Decodes (fun v => perform K cwd v.1 v.2) s (handle K cwd) request := by
  refine decodes_arg fun kind => decodes_arg fun id => ?_
  cases Kind.ofByte kind with
  | none => exact decodes_return rfl
  | some kind => exact decodes_map (decodes_dispatch kind)

end

section

variable {K : Kernel κ F E} {cwd packet : Bytes} {s : Server κ F E}

/-- A request has its work done and is answered. -/
theorem handle_request {id : ℕ} {q : Request} (h : IsRequest packet id q) :
    s.handle K cwd packet = (.ok (perform K cwd id q s).1, (perform K cwd id q s).2) := by
  obtain ⟨rest, hrun⟩ := request_ok.2 h
  have hhandle := @decodes_handle _ _ _ K cwd s packet
  rw [hrun] at hhandle
  rw [Server.handle, hhandle]

/-- Any other packet is a violation, and leaves the session as it was. -/
theorem handle_malformed (h : ∀ id q, ¬IsRequest packet id q) :
    s.handle K cwd packet = (.error .violation, s) := by
  have hhandle := @decodes_handle _ _ _ K cwd s packet
  cases hrun : request.run packet with
  | error e =>
    rw [hrun] at hhandle
    obtain ⟨r', hhandle⟩ := hhandle
    rw [Server.handle, hhandle]
  | ok v =>
    obtain ⟨⟨id, q⟩, rest⟩ := v
    exact absurd (request_ok.1 ⟨rest, hrun⟩) (h id q)

end

end QuantumSsh.Sftp
