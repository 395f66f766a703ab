import Mathlib.Data.List.Forall2
import QuantumSsh.Lib.Text
import QuantumSsh.Sftp.Files
import QuantumSsh.Sftp.Handles

/-!
# Reading a directory to its end

A directory stream is read by any number of READDIR requests. Every entry of it is told
once, in order: as a name, or not at all when its metadata cannot be read, and a read
error of the directory as a status.
-/

namespace QuantumSsh.Sftp

open Wire Program

variable {κ F E : Type}

/-! ### The length of a listing line -/

/-- Metadata as the kernel's types bound it. -/
structure Metadata.Fits (m : Metadata) : Prop where
  len : m.len < 2 ^ 64
  nlink : m.nlink < 2 ^ 64
  uid : m.uid < 2 ^ 32
  gid : m.gid < 2 ^ 32
  mtime : -2 ^ 63 ≤ m.mtime ∧ m.mtime < 2 ^ 63

theorem length_utf8_le (s : String) : (utf8 s).length ≤ 4 * s.length := by
  have hbytes : utf8 s = Text.bytes s.toList := by
    have hlist : utf8 (String.ofList s.toList) = Text.bytes s.toList := by
      rw [utf8, String.toByteArray_ofList, List.utf8Encode, List.data_toByteArray]
      rfl
    rwa [String.ofList_toList] at hlist
  rw [hbytes, ← String.length_toList]
  exact Text.length_bytes_le _

theorem length_toString_nat {n k : ℕ} (hk : 0 < k) (h : n < 10 ^ k) : (toString n).length ≤ k :=
  (Nat.length_repr_le_iff hk).2 h

theorem length_toString_int {i : ℤ} {k : ℕ} (hk : 0 < k) (h : i.natAbs < 10 ^ k) :
    (toString i).length ≤ k + 1 := by
  cases i with
  | ofNat n => exact Nat.le_succ_of_le (length_toString_nat hk h)
  | negSucc n =>
    have hdigits : (toString (n + 1)).length ≤ k := length_toString_nat hk h
    have hneg : toString (Int.negSucc n) = "-" ++ toString (n + 1) := rfl
    rw [hneg, String.length_append]
    have hminus : "-".length = 1 := by decide
    omega

theorem length_padLeft (width : ℕ) (s : String) :
    (padLeft width s).length ≤ max width s.length := by
  simp [padLeft]
  omega

theorem length_padRight (width : ℕ) (s : String) :
    (padRight width s).length ≤ max width s.length := by
  simp [padRight]
  omega

theorem length_twoDigits {i : ℤ} (h : i.natAbs < 100) : (twoDigits i).length ≤ 4 := by
  have hdigits : (toString i).length ≤ 2 + 1 := length_toString_int (by decide) h
  have hzero : "0".length = 1 := by decide
  unfold twoDigits
  split
  · rw [String.length_append]
    omega
  · omega

/-- Only the year depends on how far off the time is. -/
theorem civilFromDays_bounds {days : ℤ} (h : days.natAbs < 2 ^ 63) :
    (civilFromDays days).1.natAbs < 10 ^ 20 ∧ (civilFromDays days).2.2.natAbs < 10 ^ 6 := by
  unfold civilFromDays
  dsimp only
  constructor
  · split <;> omega
  · omega

theorem length_month (i : ℕ) : (months.getD i "").length ≤ 3 := by
  have hall : ∀ name ∈ months, name.length ≤ 3 := by decide
  rw [List.getD_eq_getElem?_getD]
  cases h : months[i]? with
  | none => exact Nat.zero_le 3
  | some name => exact hall name (List.mem_of_getElem? h)

theorem length_lsDate {mtime : ℤ} (h : -2 ^ 63 ≤ mtime ∧ mtime < 2 ^ 63) (now : ℤ) :
    (lsDate mtime now).length ≤ 50 := by
  obtain ⟨hyear, hday⟩ := @civilFromDays_bounds (mtime / 86400) (by omega)
  unfold lsDate
  generalize civilFromDays (mtime / 86400) = civil at hyear hday ⊢
  obtain ⟨year, month, day⟩ := civil
  have hspace : " ".length = 1 := by decide
  have hspaces : "  ".length = 2 := by decide
  have hcolon : ":".length = 1 := by decide
  have hname := length_month month
  have hyear' : (toString year).length ≤ 20 + 1 := length_toString_int (by decide) hyear
  have hday' : (padLeft 2 (toString day)).length ≤ 7 := by
    have hdigits : (toString day).length ≤ 6 + 1 := length_toString_int (by decide) hday
    have hpad := length_padLeft 2 (toString day)
    omega
  dsimp only
  split
  · have hhours := @length_twoDigits (mtime % 86400 / 3600) (by omega)
    have hminutes := @length_twoDigits (mtime % 86400 % 3600 / 60) (by omega)
    simp only [String.length_append]
    omega
  · simp only [String.length_append]
    omega

theorem length_modeString (mode : ℕ) : (modeString mode).length = 10 := by
  simp [modeString]

/-- A line is not much longer than its name. -/
theorem length_longname {m : Metadata} (h : m.Fits) (name : Bytes) (now : ℤ) :
    (longname name m now).length ≤ 600 + name.length := by
  have hnlink := length_padLeft 3 (toString m.nlink)
  have huid := length_padRight 8 (toString m.uid)
  have hgid := length_padRight 8 (toString m.gid)
  have hlen := length_padLeft 8 (toString m.len)
  have hnlink' := @length_toString_nat m.nlink 20 (by decide) (lt_trans h.nlink (by decide))
  have huid' := @length_toString_nat m.uid 10 (by decide) (lt_trans h.uid (by decide))
  have hgid' := @length_toString_nat m.gid 10 (by decide) (lt_trans h.gid (by decide))
  have hlen' := @length_toString_nat m.len 20 (by decide) (lt_trans h.len (by decide))
  have hdate := length_lsDate h.mtime now
  rw [longname, List.length_append]
  refine Nat.add_le_add_right (le_trans (length_utf8_le _) ?_) _
  have hspace : " ".length = 1 := by decide
  simp only [String.length_append, length_modeString]
  omega

/-! ### What a stream tells -/

/-- What the client is told: the name of an entry, or a failed read of the directory. -/
inductive Event where
  | name (n : Name)
  | failed (code : ℕ)

/-- The entry as a listing at the time `now` has it. -/
def nameOfEntry (K : Kernel κ F E) (now : ℤ) (entry : E) (m : Metadata) : Name where
  name := K.fileName entry
  long := longname (K.fileName entry) m now
  attrs := m

/-- What one READDIR consumes of the stream, from the state it finds, and what it tells of it:
an entry whose metadata cannot be read is left out. -/
inductive Passes (K : Kernel κ F E) (now : ℤ) :
    κ → List (Except IoError E) → List Event → κ → Prop
  | nil (s : κ) : Passes K now s [] [] s
  | named {s s₁ s' : κ} {entry : E} {m : Metadata} {consumed : List (Except IoError E)}
      {events : List Event} (hmeta : K.entryMetadata entry s = (.ok m, s₁))
      (h : Passes K now s₁ consumed events s') :
      Passes K now s (.ok entry :: consumed) (.name (nameOfEntry K now entry m) :: events) s'
  | skipped {s s₁ s' : κ} {entry : E} {e : IoError} {consumed : List (Except IoError E)}
      {events : List Event} (hmeta : K.entryMetadata entry s = (.error e, s₁))
      (h : Passes K now s₁ consumed events s') :
      Passes K now s (.ok entry :: consumed) events s'
  | failed {s s' : κ} {e : IoError} {consumed : List (Except IoError E)} {events : List Event}
      (h : Passes K now s consumed events s') :
      Passes K now s (.error e :: consumed) (.failed (errorCode e) :: events) s'

/-- The reply that tells the events, when `rest` of the stream stays: some names, at most a
hundred, counted, in one packet; or one failed read; or, of an exhausted stream, its end. -/
inductive Tells (id : ℕ) (rest : List (Except IoError E)) : List Event → Bytes → Prop
  | names {names : List Name} {reply : Bytes} (hpos : 1 ≤ names.length) (hmax : names.length ≤ 100)
      (hreply : reply = fxpName :: (putUint32 id ++
        (putUint32 names.length ++ names.flatMap putName)))
      (hsize : reply.length ≤ maxPacket) : Tells id rest (names.map .name) reply
  | failed {code : ℕ} (hok : code ≠ fxOk) (heof : code ≠ fxEof) :
      Tells id rest [.failed code] (statusReply id code)
  | eof (hrest : rest = []) : Tells id rest [] (statusReply id fxEof)

/-- A READDIR: the state it found, its id and its reply. -/
structure Call (κ : Type) where
  before : κ
  id : ℕ
  reply : Bytes

/-- The calls read the stream from its first entry to those that are left, each one where the
one before it stopped. -/
inductive Accounted (K : Kernel κ F E) : List (Except IoError E) → List (Call κ) →
    List (List Event) → List (Except IoError E) → Prop
  | nil (left : List (Except IoError E)) : Accounted K left [] [] left
  | cons {call : Call κ} {calls : List (Call κ)} {consumed rest left : List (Except IoError E)}
      {events : List Event} {told : List (List Event)} {s' : κ}
      (hpasses : Passes K (listingTime (K.now call.before)) call.before consumed events s')
      (htells : Tells call.id rest events call.reply) (h : Accounted K rest calls told left) :
      Accounted K (consumed ++ rest) (call :: calls) (events :: told) left

/-- What becomes of one entry of the stream. -/
inductive Fate (K : Kernel κ F E) : Except IoError E → List Event → Prop
  | named {s s' : κ} {entry : E} {m : Metadata} (now : ℤ)
      (hmeta : K.entryMetadata entry s = (.ok m, s')) :
      Fate K (.ok entry) [.name (nameOfEntry K now entry m)]
  | skipped {s s' : κ} {entry : E} {e : IoError} (hmeta : K.entryMetadata entry s = (.error e, s')) :
      Fate K (.ok entry) []
  | failed (e : IoError) : Fate K (.error e) [.failed (errorCode e)]

/-- READDIR requests on one handle. In between anything may happen that leaves the handle as it
is. -/
inductive Readdirs (K : Kernel κ F E) (cwd raw : Bytes) :
    Server κ F E → List (Call κ) → Server κ F E → Prop
  | nil (s : Server κ F E) : Readdirs K cwd raw s [] s
  | readdir {s s₁ s' : Server κ F E} {packet reply : Bytes} {id : ℕ} {calls : List (Call κ)}
      (hq : IsRequest packet id (.readdir raw)) (hhandle : s.handle K cwd packet = (.ok reply, s₁))
      (h : Readdirs K cwd raw s₁ calls s') : Readdirs K cwd raw s (⟨s.fs, id, reply⟩ :: calls) s'
  | between {s s₁ s' : Server κ F E} {calls : List (Call κ)} (hsame : s₁.handleOf raw = s.handleOf raw)
      (h : Readdirs K cwd raw s₁ calls s') : Readdirs K cwd raw s calls s'

/-- The entries of a stream can be listed: their names and metadata are as long as they get. -/
structure Kernel.Listable (K : Kernel κ F E) (stream : List (Except IoError E)) : Prop where
  name : ∀ entry, .ok entry ∈ stream → (K.fileName entry).length ≤ 255
  metadata : ∀ entry, .ok entry ∈ stream → ∀ s m s',
    K.entryMetadata entry s = (.ok m, s') → m.Fits

/-! ### The loop of READDIR -/

section

variable {K : Kernel κ F E}

theorem Kernel.Listable.of_append {consumed rest : List (Except IoError E)}
    (h : K.Listable (consumed ++ rest)) : K.Listable rest where
  name := fun entry hentry => h.name entry (List.mem_append_right _ hentry)
  metadata := fun entry hentry => h.metadata entry (List.mem_append_right _ hentry)

/-- One entry alone always fits a packet. -/
theorem Kernel.Listable.fits {stream : List (Except IoError E)} (h : K.Listable stream) {entry : E}
    (hentry : .ok entry ∈ stream) {s s' : κ} {m : Metadata}
    (hmeta : K.entryMetadata entry s = (.ok m, s')) (now : ℤ) :
    listingHead + (nameOfEntry K now entry m).size ≤ maxPacket := by
  have hname := h.name entry hentry
  have hlong := length_longname (h.metadata entry hentry s m s' hmeta) (K.fileName entry) now
  simp only [Name.size, nameOfEntry, listingHead, attrsLen, maxPacket]
  omega

/-- What the loop has gathered when it ends, from any round on. -/
inductive GathersFrom (K : Kernel κ F E) (now : ℤ) (names : List Name) (s : κ)
    (consumed left : List (Except IoError E)) : Except ℕ (List Name) → Prop
  | names {s' : κ} {new : List Name} (hpasses : Passes K now s consumed (new.map .name) s')
      (hmax : (names ++ new).length ≤ maxNames) (hleft : names ++ new = [] → left = []) :
      GathersFrom K now names s consumed left (.ok (names ++ new))
  | failed {s' : κ} {e : IoError} (hnames : names = [])
      (hpasses : Passes K now s consumed [.failed (errorCode e)] s') :
      GathersFrom K now names s consumed left (.error (errorCode e))

theorem gathersFrom_stop {now : ℤ} {names : List Name} {s : κ} {left : List (Except IoError E)}
    (hmax : names.length ≤ maxNames) (hleft : names = [] → left = []) :
    GathersFrom K now names s [] left (.ok names) := by
  have hstop := @GathersFrom.names _ _ _ K now names s [] left s [] (.nil s)
  simp only [List.append_nil] at hstop
  exact hstop hmax hleft

theorem GathersFrom.skipped {now : ℤ} {names : List Name} {s s₁ : κ} {entry : E} {e : IoError}
    {consumed left : List (Except IoError E)} {result : Except ℕ (List Name)}
    (h : GathersFrom K now names s₁ consumed left result)
    (hmeta : K.entryMetadata entry s = (.error e, s₁)) :
    GathersFrom K now names s (.ok entry :: consumed) left result := by
  cases h with
  | names hpasses hmax hleft => exact .names (.skipped hmeta hpasses) hmax hleft
  | failed hnames hpasses => exact .failed hnames (.skipped hmeta hpasses)

theorem GathersFrom.named {now : ℤ} {names : List Name} {s s₁ : κ} {entry : E} {m : Metadata}
    {consumed left : List (Except IoError E)} {result : Except ℕ (List Name)}
    (h : GathersFrom K now (names ++ [nameOfEntry K now entry m]) s₁ consumed left result)
    (hmeta : K.entryMetadata entry s = (.ok m, s₁)) :
    GathersFrom K now names s (.ok entry :: consumed) left result := by
  cases h with
  | @names s' new hpasses hmax hleft =>
    rw [List.append_assoc, List.singleton_append] at hmax hleft ⊢
    exact .names (.named hmeta hpasses) hmax hleft
  | failed hnames hpasses => exact absurd hnames (by simp)

theorem gathersFrom_gather {now : ℤ} {entries : List (Except IoError E)} (hlist : K.Listable entries)
    {names : List Name} {size : ℕ} (hmax : names.length ≤ maxNames)
    (hsize : names = [] → size = listingHead) (s : κ) :
    ∃ consumed, entries = consumed ++ (gather K now entries names size s).1.2 ∧
      GathersFrom K now names s consumed (gather K now entries names size s).1.2
        (gather K now entries names size s).1.1 := by
  induction entries generalizing names size s with
  | nil => exact ⟨[], rfl, gathersFrom_stop hmax fun _ => rfl⟩
  | cons next entries ih =>
    have hlist' : K.Listable entries := @Kernel.Listable.of_append _ _ _ K [next] entries hlist
    unfold gather
    by_cases hfull : maxNames ≤ names.length
    · rw [if_pos hfull]
      refine ⟨[], rfl, gathersFrom_stop hmax fun hnil => ?_⟩
      rw [hnil] at hfull
      exact absurd hfull (by decide)
    rw [if_neg hfull]
    cases next with
    | error e =>
      -- an error waits until the names before it are told
      by_cases hnames : names ≠ []
      · simp only [if_pos hnames]
        exact ⟨[], rfl, gathersFrom_stop hmax fun hnil => absurd hnil hnames⟩
      · simp only [if_neg hnames]
        exact ⟨[.error e], rfl, .failed (not_not.1 hnames) (.failed (.nil s))⟩
    | ok entry =>
      rcases hmeta : K.entryMetadata entry s with ⟨e | m, s₁⟩
      · simp only [hmeta]
        obtain ⟨consumed, hsplit, hgathers⟩ := ih hlist' hmax hsize s₁
        exact ⟨.ok entry :: consumed, congrArg (_ :: ·) hsplit, hgathers.skipped hmeta⟩
      · have hname : (⟨K.fileName entry, longname (K.fileName entry) m now, m⟩ : Name) =
            nameOfEntry K now entry m := rfl
        simp only [hmeta, hname]
        have hfits := hlist.fits List.mem_cons_self hmeta now
        by_cases hlarge : maxPacket < size + (nameOfEntry K now entry m).size
        · -- the entry stays for the next request, and there are names before it
          rw [if_pos hlarge]
          refine ⟨[], rfl, gathersFrom_stop hmax fun hnil => ?_⟩
          rw [hsize hnil] at hlarge
          omega
        · rw [if_neg hlarge]
          have hmax' : (names ++ [nameOfEntry K now entry m]).length ≤ maxNames := by
            rw [List.length_append, List.length_singleton]
            omega
          obtain ⟨consumed, hsplit, hgathers⟩ := ih hlist' hmax' (by simp) s₁
          exact ⟨.ok entry :: consumed, congrArg (_ :: ·) hsplit, hgathers.named hmeta⟩

theorem errorCode_ne (e : IoError) : errorCode e ≠ fxOk ∧ errorCode e ≠ fxEof := by
  unfold errorCode
  cases e.kind <;> decide

/-- The reply to what the loop gathers tells what it passed. -/
theorem tells_gather {now : ℤ} {entries : List (Except IoError E)} (hlist : K.Listable entries)
    (id : ℕ) (s : κ) :
    ∃ consumed events s', entries = consumed ++ (gather K now entries [] listingHead s).1.2 ∧
      Passes K now s consumed events s' ∧
      Tells id (gather K now entries [] listingHead s).1.2 events
        (listingReply id (gather K now entries [] listingHead s).1.1) := by
  obtain ⟨consumed, hsplit, hgathers⟩ :=
    @gathersFrom_gather _ _ _ K now entries hlist [] listingHead (by decide) (fun _ => rfl) s
  have hsize : (listingReply id (gather K now entries [] listingHead s).1.1).length ≤ maxPacket := by
    refine (@answered_listing id .limits _ fun ns hns => ?_).size
    exact gather_size K now hns rfl (by decide)
  generalize gather K now entries [] listingHead s = g at hsplit hgathers hsize ⊢
  obtain ⟨⟨result, left⟩, s₁⟩ := g
  cases hgathers with
  | @names s' new hpasses hmax hleft =>
    refine ⟨consumed, _, s', hsplit, hpasses, ?_⟩
    cases new with
    | nil => exact .eof (hleft rfl)
    | cons n new => exact .names (Nat.succ_pos _) hmax rfl hsize
  | @failed s' e hnames hpasses =>
    exact ⟨consumed, _, s', hsplit, hpasses, .failed (errorCode_ne e).1 (errorCode_ne e).2⟩

/-! ### READDIR requests -/

variable {cwd raw : Bytes} {s : Server κ F E}

theorem perform_readdir {id i : ℕ} {entries : List (Except IoError E)}
    (hhandle : s.handleOf raw = some (i, .dir entries)) :
    perform K cwd id (.readdir raw) s =
      (listingReply id (gather K (listingTime (K.now s.fs)) entries [] listingHead s.fs).1.1,
        { handles := s.handles.set i (some (.dir
            (gather K (listingTime (K.now s.fs)) entries [] listingHead s.fs).1.2)),
          fs := (gather K (listingTime (K.now s.fs)) entries [] listingHead s.fs).2 }) := by
  have hperform : perform K cwd id (.readdir raw) s =
      readdirWork K id (some (i, .dir entries)) s := by
    rw [← hhandle]
    rfl
  rw [hperform]
  rfl

/-- The handle keeps what the reply has not told. -/
theorem handleOf_readdir {id i : ℕ} {entries : List (Except IoError E)}
    (hhandle : s.handleOf raw = some (i, .dir entries)) :
    (perform K cwd id (.readdir raw) s).2.handleOf raw = some (i, .dir
      (gather K (listingTime (K.now s.fs)) entries [] listingHead s.fs).1.2) := by
  obtain ⟨hlen, hraw, hslot⟩ := handleOf_eq_some.1 hhandle
  rw [perform_readdir hhandle]
  exact handleOf_eq_some.2 ⟨hlen, hraw, slot_set_self (slot_lt hslot)⟩

/-- The calls of any run account for the stream. -/
theorem accounted_readdirs {calls : List (Call κ)} {s' : Server κ F E}
    (hrun : Readdirs K cwd raw s calls s') {i : ℕ} {stream : List (Except IoError E)}
    (hhandle : s.handleOf raw = some (i, .dir stream)) (hlist : K.Listable stream) :
    ∃ told left, Accounted K stream calls told left ∧ s'.handleOf raw = some (i, .dir left) := by
  induction hrun generalizing stream with
  | nil s => exact ⟨[], stream, .nil stream, hhandle⟩
  | between hsame h ih => exact ih (hsame.trans hhandle) hlist
  | @readdir s s₁ s' packet reply id calls hq hrequest h ih =>
    obtain ⟨consumed, events, s₂, hsplit, hpasses, htells⟩ :=
      @tells_gather _ _ _ K (listingTime (K.now s.fs)) stream hlist id s.fs
    have hhandle' := @handleOf_readdir _ _ _ K cwd raw s id i stream hhandle
    have hreply : listingReply id
        (gather K (listingTime (K.now s.fs)) stream [] listingHead s.fs).1.1 =
        (perform K cwd id (.readdir raw) s).1 := by rw [perform_readdir hhandle]
    rw [handle_request hq] at hrequest
    cases hrequest
    rw [hreply] at htells
    clear hreply
    generalize (gather K (listingTime (K.now s.fs)) stream [] listingHead s.fs).1.2 = rest
      at hsplit htells hhandle'
    subst hsplit
    obtain ⟨told, left, haccounted, hleft⟩ := ih hhandle' hlist.of_append
    exact ⟨events :: told, left, .cons hpasses htells haccounted, hleft⟩

/-! ### The whole listing -/

theorem Passes.fates {now : ℤ} {s s' : κ} {consumed : List (Except IoError E)} {events : List Event}
    (h : Passes K now s consumed events s') :
    ∃ fates, List.Forall₂ (Fate K) consumed fates ∧ events = fates.flatten := by
  induction h with
  | nil s => exact ⟨[], .nil, rfl⟩
  | named hmeta h ih =>
    obtain ⟨fates, hfates, rfl⟩ := ih
    exact ⟨_ :: fates, .cons (.named now hmeta) hfates, rfl⟩
  | skipped hmeta h ih =>
    obtain ⟨fates, hfates, rfl⟩ := ih
    exact ⟨[] :: fates, .cons (.skipped hmeta) hfates, rfl⟩
  | failed h ih =>
    obtain ⟨fates, hfates, rfl⟩ := ih
    exact ⟨_ :: fates, .cons (.failed _) hfates, rfl⟩

theorem Accounted.fates {stream left : List (Except IoError E)} {calls : List (Call κ)}
    {told : List (List Event)} (h : Accounted K stream calls told left) :
    ∃ consumed fates, stream = consumed ++ left ∧ List.Forall₂ (Fate K) consumed fates ∧
      told.flatten = fates.flatten := by
  induction h with
  | nil left => exact ⟨[], [], rfl, .nil, rfl⟩
  | cons hpasses htells h ih =>
    obtain ⟨consumed, fates, rfl, hfates, htold⟩ := ih
    obtain ⟨fates', hfates', rfl⟩ := hpasses.fates
    refine ⟨_, fates' ++ fates, (List.append_assoc ..).symm, List.rel_append hfates' hfates, ?_⟩
    rw [List.flatten_cons, htold, List.flatten_append]

/-- However many READDIR requests have been made on a handle, and whatever came between them,
the replies tell each entry of the stream up to the one that is next, once and in order. -/
theorem readdir_tells_stream {i : ℕ} {stream : List (Except IoError E)}
    (hhandle : s.handleOf raw = some (i, .dir stream)) (hlist : K.Listable stream)
    {calls : List (Call κ)} {s' : Server κ F E} (hrun : Readdirs K cwd raw s calls s') :
    ∃ told left, Accounted K stream calls told left ∧ s'.handleOf raw = some (i, .dir left) ∧
      (∃ consumed fates, stream = consumed ++ left ∧ List.Forall₂ (Fate K) consumed fates ∧
        told.flatten = fates.flatten) ∧
      ∀ packet id, IsRequest packet id (.readdir raw) →
        ∃ reply s'', s'.handle K cwd packet = (.ok reply, s'') := by
  obtain ⟨told, left, haccounted, hleft⟩ := accounted_readdirs hrun hhandle hlist
  refine ⟨told, left, haccounted, hleft, haccounted.fates, fun packet id hq => ?_⟩
  exact ⟨_, _, handle_request hq⟩

end

/-- A directory of files with names of one byte; the metadata of the file `0` cannot be read. -/
def bytesKernel : Kernel Unit Unit UInt8 where
  __ := refusingKernel Unit Unit UInt8 ([·])
  entryMetadata := fun entry s =>
    if entry = 0 then (.error (.ofKind .permissionDenied), s)
    else (.ok ⟨0, 1, 0, 0, 0o100644, 0, 0⟩, s)

def bytesStream : List (Except IoError UInt8) :=
  [.ok 0x61, .error (.ofKind .other), .ok 0, .ok 0x62]

/-- The stream, open under the handle 0. -/
def bytesOpen : Server Unit Unit UInt8 where
  handles := [some (.dir bytesStream)]
  fs := ()

theorem bytesKernel_listable : bytesKernel.Listable bytesStream where
  name := fun _ _ => (by decide : 1 ≤ 255)
  metadata := by
    intro entry _ s m s' h
    by_cases hzero : entry = 0
    · cases (if_pos hzero).symm.trans h
    · cases (if_neg hzero).symm.trans h
      exact ⟨by decide, by decide, by decide, by decide, by decide⟩

/-- READDIR of the handle 0. -/
def readdirPacket : Bytes := Kind.readdir.byte :: (putUint32 7 ++ (putString [0, 0, 0, 0] ++ []))

theorem isRequest_readdirPacket : IsRequest readdirPacket 7 (.readdir [0, 0, 0, 0]) :=
  ⟨by decide, .inl ⟨.readdir, _, [], .readdir ⟨by decide, rfl⟩, rfl⟩⟩

/-- Two requests, and what they read of the stream. -/
theorem readdir_tells_stream_twice :
    ∃ calls s', Readdirs bytesKernel [slash] [0, 0, 0, 0] bytesOpen calls s' ∧ calls.length = 2 ∧
      ∃ told left, Accounted bytesKernel bytesStream calls told left ∧
        s'.handleOf [0, 0, 0, 0] = some (0, .dir left) := by
  have hanswer : ∀ s : Server Unit Unit UInt8, ∃ reply s',
      s.handle bytesKernel [slash] readdirPacket = (.ok reply, s') :=
    fun s => ⟨_, _, handle_request isRequest_readdirPacket⟩
  obtain ⟨reply₁, s₁, hfirst⟩ := hanswer bytesOpen
  obtain ⟨reply₂, s₂, hsecond⟩ := hanswer s₁
  have hrun := Readdirs.readdir isRequest_readdirPacket hfirst
    (.readdir isRequest_readdirPacket hsecond (.nil s₂))
  obtain ⟨told, left, haccounted, hleft, -⟩ :=
    readdir_tells_stream rfl bytesKernel_listable hrun
  exact ⟨_, _, hrun, rfl, told, left, haccounted, hleft⟩

end QuantumSsh.Sftp
