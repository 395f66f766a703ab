import QuantumSsh.Sftp.Session

/-!
# Reading and writing files

What reaches a file through `write_tracked`, whatever the kernel does with each of its
writes, and what READ answers at the end of a file.
-/

namespace QuantumSsh.Sftp

open Wire Program

variable {κ F E : Type}

/-! ### Writing -/

/-- A write: where, or at the end of the file, and what. -/
abbrev Piece := Option ℕ × Bytes

/-- The content of a file after a write. A gap before it is filled with zeros. -/
def Piece.apply (content : Bytes) : Piece → Bytes
  | (none, data) => content ++ data
  | (some start, data) =>
    if data = [] then content
    else
      (content ++ List.replicate (start - content.length) 0).take start ++ data ++
        content.drop (start + data.length)

/-- The writes follow each other from the offset on, each where a `u64` can say, and are
the data when put together. -/
inductive Contiguous : Option ℕ → List Piece → Bytes → Prop
  | nil {offset : Option ℕ} : Contiguous offset [] []
  | cons {offset : Option ℕ} {bytes data : Bytes} {pieces : List Piece}
      (hoffset : ∀ start ∈ offset, start < 2 ^ 64)
      (h : Contiguous (offset.map (· + bytes.length)) pieces data) :
      Contiguous offset ((offset, bytes) :: pieces) (bytes ++ data)

/-- `pieces` records what the kernel has written to the file: a write that returns `n` has
written exactly the first `n` bytes, one that fails has written nothing. -/
structure Kernel.Records (K : Kernel κ F E) (file : F) (pieces : κ → List Piece) : Prop where
  writeAt_ok : ∀ {data start s n s'}, K.writeAt file data start s = (.ok n, s') →
    pieces s' = pieces s ++ [(some start, data.take n)]
  writeAt_error : ∀ {data start s e s'}, K.writeAt file data start s = (.error e, s') →
    pieces s' = pieces s
  write_ok : ∀ {data s n s'}, K.write file data s = (.ok n, s') →
    pieces s' = pieces s ++ [(none, data.take n)]
  write_error : ∀ {data s e s'}, K.write file data s = (.error e, s') → pieces s' = pieces s

/-- Two writes of which the second starts where the first ends are one. -/
theorem Piece.apply_apply (content bytes data : Bytes) (offset : Option ℕ) :
    apply (apply content (offset, bytes)) (offset.map (· + bytes.length), data) =
      apply content (offset, bytes ++ data) := by
  cases offset with
  | none => simp [apply]
  | some start =>
    by_cases hbytes : bytes = []
    · simp [hbytes, apply]
    by_cases hdata : data = []
    · simp [hdata, apply]
    have hfront : ((content ++ List.replicate (start - content.length) 0).take start).length =
        start := by
      rw [List.length_take, List.length_append, List.length_replicate]
      omega
    simp only [apply, Option.map_some, hbytes, hdata, List.append_eq_nil_iff, and_self, if_false]
    generalize (content ++ List.replicate (start - content.length) 0).take start = front at hfront ⊢
    have hlong : (front ++ bytes).length = start + bytes.length := by
      rw [List.length_append, hfront]
    have hgap : start + bytes.length - (front ++ bytes ++ content.drop (start + bytes.length)).length =
        0 := by
      rw [List.length_append, hlong]
      omega
    rw [hgap, List.replicate_zero, List.append_nil, List.take_left' hlong]
    have hbehind : (front ++ bytes ++ content.drop (start + bytes.length)).drop
        (start + bytes.length + data.length) = content.drop (start + (bytes ++ data).length) := by
      rw [← List.drop_drop, List.drop_left' hlong, List.drop_drop, List.length_append, Nat.add_assoc]
    rw [hbehind]
    simp only [List.append_assoc]

theorem Contiguous.foldl_apply {offset : Option ℕ} {pieces : List Piece} {data : Bytes}
    (h : Contiguous offset pieces data) (content : Bytes) :
    pieces.foldl Piece.apply content = Piece.apply content (offset, data) := by
  induction h generalizing content with
  | @nil offset => cases offset <;> simp [Piece.apply]
  | cons hoffset h ih => rw [List.foldl_cons, ih, Piece.apply_apply]

section

variable {K : Kernel κ F E} {file : F} {pieces : κ → List Piece}

/-- One write of the loop, at its place. -/
theorem writeOnce_ok (hrecords : K.Records file pieces) {rest : Bytes} {offset : Option ℕ}
    {done : ℕ} {s s' : κ} {n : { n : ℕ // n ≤ rest.length }}
    (h : writeOnce K file rest offset done s = (.ok n, s')) :
    pieces s' = pieces s ++ [(offset.map (· + done), rest.take n)] ∧
      ∀ start ∈ offset.map (· + done), start < 2 ^ 64 := by
  unfold writeOnce at h
  split at h
  next start =>
    split at h
    next hlt =>
      refine ⟨hrecords.writeAt_ok h, ?_⟩
      simpa using hlt
    next => cases h
  next => exact ⟨hrecords.write_ok h, by simp⟩

theorem writeOnce_error (hrecords : K.Records file pieces) {rest : Bytes} {offset : Option ℕ}
    {done : ℕ} {s s' : κ} {e : IoError} (h : writeOnce K file rest offset done s = (.error e, s')) :
    pieces s' = pieces s := by
  unfold writeOnce at h
  split at h
  next start =>
    split at h
    next => exact hrecords.writeAt_error h
    next =>
      cases h
      rfl
  next => exact hrecords.write_error h

/-- What the loop has written when it ends, from any round on. -/
structure WrittenFrom (pieces : κ → List Piece) (rest : Bytes) (offset : Option ℕ)
    (written : Bool) (s : κ) (final : (Except IoError Unit × Bool) × κ) (new : List Piece)
    (data : Bytes) : Prop where
  recorded : pieces final.2 = pieces s ++ new
  contiguous : Contiguous offset new data
  whole : final.1.1 = .ok () → data = rest
  part : data <+: rest
  flag : final.1.2 = true ↔ written = true ∨ data ≠ []

theorem writtenFrom_writeTracked (hrecords : K.Records file pieces) (rest : Bytes)
    (offset : Option ℕ) (done : ℕ) (written : Bool) (s : κ) :
    ∃ new data, WrittenFrom pieces rest (offset.map (· + done)) written s
      (writeTracked K file rest offset done written s) new data := by
  fun_induction writeTracked K file rest offset done written s with
  | case1 done written s =>
    exact ⟨[], [], by simp, .nil, fun _ => rfl, List.nil_prefix, by simp⟩
  | case2 rest done written s hrest hle s' hwrite =>
    obtain ⟨hpieces, hplace⟩ := writeOnce_ok hrecords hwrite
    exact ⟨_, [], hpieces, .cons hplace .nil, nofun, List.nil_prefix, by simp⟩
  | case3 rest done written s hrest n hle s' hwrite ih =>
    obtain ⟨new, data, ih⟩ := ih
    obtain ⟨hpieces, hplace⟩ := writeOnce_ok hrecords hwrite
    have hlen : (rest.take (n + 1)).length = n + 1 := by
      rw [List.length_take]
      omega
    refine ⟨(offset.map (· + done), rest.take (n + 1)) :: new, rest.take (n + 1) ++ data,
      ?_, .cons hplace ?_, ?_, ?_, ?_⟩
    · rw [ih.recorded, hpieces, List.append_assoc, List.singleton_append]
    · have hmap : (offset.map (· + done)).map (· + (n + 1)) = offset.map (· + (done + (n + 1))) := by
        cases offset <;> simp [Nat.add_assoc]
      rw [hlen, hmap]
      exact ih.contiguous
    · intro hok
      rw [ih.whole hok, List.take_append_drop]
    · have hpart := (List.prefix_append_right_inj (rest.take (n + 1))).2 ih.part
      rwa [List.take_append_drop] at hpart
    · refine iff_of_true (ih.flag.2 (.inl rfl)) (.inr fun hnil => ?_)
      rw [(List.append_eq_nil_iff.1 hnil).1] at hlen
      cases hlen
  | case4 rest done written s hrest e s' hwrite hkind ih =>
    obtain ⟨new, data, ih⟩ := ih
    refine ⟨new, data, ?_, ih.contiguous, ih.whole, ih.part, ih.flag⟩
    rw [ih.recorded, writeOnce_error hrecords hwrite]
  | case5 rest done written s hrest e s' hwrite hkind =>
    refine ⟨[], [], ?_, .nil, nofun, List.nil_prefix, by simp⟩
    rw [writeOnce_error hrecords hwrite, List.append_nil]

/-- `write_tracked` leaves in the file exactly the data, or a prefix of it when it fails, in
one piece from the offset on or at the end of the file, and tells whether it wrote. -/
theorem write_tracked_exact (hrecords : K.Records file pieces) (data : Bytes) (offset : Option ℕ)
    (written : Bool) (s : κ) {result : Except IoError Unit} {written' : Bool} {s' : κ}
    (h : writeTracked K file data offset 0 written s = ((result, written'), s')) :
    ∃ new done, pieces s' = pieces s ++ new ∧ Contiguous offset new done ∧
      (∀ content, new.foldl Piece.apply content = Piece.apply content (offset, done)) ∧
      (result = .ok () → done = data) ∧ ((∃ e, result = .error e) → done <+: data) ∧
      (written' = true ↔ written = true ∨ 0 < done.length) := by
  obtain ⟨new, done, hfrom⟩ := writtenFrom_writeTracked hrecords data offset 0 written s
  have hoffset : offset.map (· + 0) = offset := by cases offset <;> rfl
  rw [h, hoffset] at hfrom
  refine ⟨new, done, hfrom.recorded, hfrom.contiguous, hfrom.contiguous.foldl_apply, hfrom.whole,
    fun _ => hfrom.part, ?_⟩
  rw [List.length_pos_iff]
  exact hfrom.flag

end

/-- A kernel that refuses every operation. -/
def refusingKernel (κ F E : Type) (fileName : E → Bytes) : Kernel κ F E where
  «open» := fun _ _ _ => fail (.ofKind .other)
  close := fun _ => id
  metadata := fun _ => fail (.ofKind .other)
  readAt := fun _ _ _ => fail (.ofKind .other)
  writeAt := fun _ _ _ => fail (.ofKind .other)
  write := fun _ _ => fail (.ofKind .other)
  syncData := fun _ => fail (.ofKind .other)
  syncAll := fun _ => fail (.ofKind .other)
  setLen := fun _ _ => fail (.ofKind .other)
  fchown := fun _ _ _ => fail (.ofKind .other)
  fchmod := fun _ _ => fail (.ofKind .other)
  futimens := fun _ _ _ => fail (.ofKind .other)
  readDir := fun _ => fail (.ofKind .other)
  fileName := fileName
  entryMetadata := fun _ => fail (.ofKind .other)
  stat := fun _ => fail (.ofKind .other)
  lstat := fun _ => fail (.ofKind .other)
  chown := fun _ _ _ => fail (.ofKind .other)
  chmod := fun _ _ => fail (.ofKind .other)
  utimens := fun _ _ _ => fail (.ofKind .other)
  removeFile := fun _ => fail (.ofKind .other)
  createDir := fun _ _ => fail (.ofKind .other)
  removeDir := fun _ => fail (.ofKind .other)
  readLink := fun _ => fail (.ofKind .other)
  hardLink := fun _ _ => fail (.ofKind .other)
  rename := fun _ _ => fail (.ofKind .other)
  symlink := fun _ _ => fail (.ofKind .other)
  now := fun _ => 0
  interrupts := fun _ => 0
  writeAt_interrupted := by
    intro file data offset s e s' h hkind
    cases h
    cases hkind
  write_interrupted := by
    intro file data s e s' h hkind
    cases h
    cases hkind

/-- A file in memory: what was written to it, and what becomes of the next writes. -/
structure Disk where
  pieces : List Piece
  script : List (Except IoError ℕ)

/-- The next write does what the script has for it, and all of it when there is none. -/
def Disk.write (offset : Option ℕ) (data : Bytes) :
    Prog Disk IoError { n : ℕ // n ≤ data.length } := fun d =>
  match d.script with
  | [] => (.ok ⟨data.length, Nat.le_refl _⟩, ⟨d.pieces ++ [(offset, data)], []⟩)
  | .ok n :: script =>
    (.ok ⟨min n data.length, Nat.min_le_right ..⟩, ⟨d.pieces ++ [(offset, data.take n)], script⟩)
  | .error e :: script => (.error e, ⟨d.pieces, script⟩)

theorem Disk.write_error {offset : Option ℕ} {data : Bytes} {d d' : Disk} {e : IoError}
    (h : write offset data d = (.error e, d')) :
    d'.pieces = d.pieces ∧ d'.script.length < d.script.length := by
  unfold write at h
  split at h
  next => cases h
  next => cases h
  next hscript =>
    cases h
    exact ⟨rfl, by rw [hscript]; exact Nat.lt_succ_self _⟩

theorem Disk.write_ok {offset : Option ℕ} {data : Bytes} {d d' : Disk}
    {n : { n : ℕ // n ≤ data.length }} (h : write offset data d = (.ok n, d')) :
    d'.pieces = d.pieces ++ [(offset, data.take n)] := by
  unfold write at h
  split at h
  next =>
    cases h
    rw [List.take_length]
  next n script hscript =>
    cases h
    rw [List.take_eq_take_min]
  next => cases h

def diskKernel : Kernel Disk Unit Empty where
  __ := refusingKernel Disk Unit Empty Empty.elim
  writeAt := fun _ data start => Disk.write (some start) data
  write := fun _ data => Disk.write none data
  interrupts := fun d => d.script.length
  writeAt_interrupted := fun _ _ _ _ _ _ h _ => (Disk.write_error h).2
  write_interrupted := fun _ _ _ _ _ h _ => (Disk.write_error h).2

theorem diskKernel_records : diskKernel.Records () Disk.pieces where
  writeAt_ok := Disk.write_ok
  writeAt_error := fun h => (Disk.write_error h).1
  write_ok := Disk.write_ok
  write_error := fun h => (Disk.write_error h).1

section

variable {K : Kernel κ F E} {file : F} {rest : Bytes} {offset : Option ℕ} {done : ℕ}
  {written : Bool} {s s' : κ}

theorem writeTracked_nil : writeTracked K file [] offset done written s = ((.ok (), written), s) := by
  rw [writeTracked, if_pos rfl]

/-- The round of a write of some bytes. -/
theorem writeTracked_ok (n : ℕ) {hn : n + 1 ≤ rest.length}
    (h : writeOnce K file rest offset done s = (.ok ⟨n + 1, hn⟩, s')) :
    writeTracked K file rest offset done written s =
      writeTracked K file (rest.drop (n + 1)) offset (done + (n + 1)) true s' := by
  have hrest : rest ≠ [] := List.ne_nil_of_length_pos (Nat.lt_of_lt_of_le (Nat.succ_pos n) hn)
  rw [writeTracked, if_neg hrest]
  split
  next h' => cases h.symm.trans h'
  next h' =>
    cases h.symm.trans h'
    rfl
  next h' => cases h.symm.trans h'

/-- The round of an interrupted write. -/
theorem writeTracked_interrupted {e : IoError} (hrest : rest ≠ []) (he : e.kind = .interrupted)
    (h : writeOnce K file rest offset done s = (.error e, s')) :
    writeTracked K file rest offset done written s =
      writeTracked K file rest offset done written s' := by
  conv_lhs => rw [writeTracked, if_neg hrest]
  split
  next h' => cases h.symm.trans h'
  next h' => cases h.symm.trans h'
  next h' =>
    cases h.symm.trans h'
    exact dif_pos he

end

/-- A short write and an interruption on the way. -/
theorem write_tracked_exact_short :
    ∃ new done, new = [(some 10, [1]), (some 11, [2, 3]), (some 13, [4])] ∧
      Contiguous (some 10) new done ∧ done = [1, 2, 3, 4] := by
  have hrun : writeTracked diskKernel () [1, 2, 3, 4] (some 10) 0 false
      ⟨[], [.ok 1, .error (.ofKind .interrupted), .ok 2]⟩ =
      ((.ok (), true), ⟨[(some 10, [1]), (some 11, [2, 3]), (some 13, [4])], []⟩) := by
    rw [writeTracked_ok 0 rfl]
    rw [writeTracked_interrupted (by decide) rfl rfl]
    rw [writeTracked_ok 1 rfl]
    rw [writeTracked_ok 0 rfl]
    exact writeTracked_nil
  obtain ⟨new, done, hnew, hcontiguous, -, hwhole, -⟩ :=
    write_tracked_exact diskKernel_records _ _ _ _ hrun
  exact ⟨new, done, hnew.symm, hcontiguous, hwhole rfl⟩

/-! ### Reading -/

/-- `content` is what the file holds: a positional read gives bytes of it from the offset on,
and one into a buffer that is not empty gives none only at or past the end. -/
def Kernel.Reads (K : Kernel κ F E) (file : F) (content : Bytes) (s : κ) : Prop :=
  ∀ len offset data s', K.readAt file len offset s = (.ok data, s') →
    data.1 <+: content.drop offset ∧ (len ≠ 0 → data.1 = [] → content.length ≤ offset)

/-- The reply is EOF exactly at or past the end of the file, and before it bytes of the file,
no more than were asked for. -/
def EndOfFileLaw (id offset len : ℕ) (content reply : Bytes) : Prop :=
  (reply = statusReply id fxEof ↔ content.length ≤ offset) ∧
    (offset < content.length → ∃ data, reply = dataReply id data ∧ data <+: content.drop offset ∧
      data.length ≤ min len maxData)

theorem dataReply_ne_statusReply {id id' code : ℕ} {data : Bytes} :
    dataReply id data ≠ statusReply id' code := by
  intro h
  have hbyte : fxpData = fxpStatus := (List.cons.inj h).1
  revert hbyte
  decide

section

variable {K : Kernel κ F E} {cwd raw : Bytes} {s : Server κ F E} {id offset len i : ℕ} {file : F}
  {append written : Bool} {data : { b : Bytes // b.length ≤ min len maxData }} {fs : κ}

theorem perform_read (hhandle : s.handleOf raw = some (i, .file file append written))
    (hread : K.readAt file (min len maxData) offset s.fs = (.ok data, fs)) :
    perform K cwd id (.read raw offset len) s =
      (if data.1 = [] then statusReply id fxEof else dataReply id data.1, { s with fs }) := by
  have hperform : perform K cwd id (.read raw offset len) s =
      readWork K id offset len (some (i, .file file append written)) s := by
    rw [← hhandle]
    rfl
  rw [hperform]
  simp only [readWork, onFile, sys_bind, hread]
  obtain ⟨_ | ⟨b, bs⟩, hdata⟩ := data
  · rfl
  · rfl

/-- READ keeps the law of the end of file exactly when something was asked for or there is
nothing to give: a request for no bytes is told that the file has ended wherever it reads. -/
theorem read_end_of_file {packet content : Bytes} (hq : IsRequest packet id (.read raw offset len))
    (hhandle : s.handleOf raw = some (i, .file file append written))
    (hreads : K.Reads file content s.fs)
    (hread : K.readAt file (min len maxData) offset s.fs = (.ok data, fs)) :
    (∃ reply s', s.handle K cwd packet = (.ok reply, s') ∧
      EndOfFileLaw id offset len content reply) ↔ len ≠ 0 ∨ content.length ≤ offset := by
  obtain ⟨hpart, hend⟩ := hreads _ _ _ _ hread
  have hmax : min len maxData ≠ 0 ↔ len ≠ 0 := by
    rw [maxData]
    omega
  rw [handle_request hq, perform_read hhandle hread]
  by_cases hnil : data.1 = []
  · rw [if_pos hnil]
    constructor
    · rintro ⟨reply, s', h, hlaw⟩
      cases h
      exact .inr (hlaw.1.1 rfl)
    · intro hwhen
      have hpast : content.length ≤ offset := by
        obtain hlen | hpast := hwhen
        · exact hend (hmax.2 hlen) hnil
        · exact hpast
      exact ⟨_, _, rfl, iff_of_true rfl hpast, fun hlt => absurd hpast (not_le_of_gt hlt)⟩
  · rw [if_neg hnil]
    have hbefore : offset < content.length := by
      by_contra hpast
      rw [List.drop_of_length_le (not_lt.1 hpast), List.prefix_nil] at hpart
      exact hnil hpart
    have hlen : len ≠ 0 := by
      intro hlen
      refine hnil (List.eq_nil_of_length_eq_zero (Nat.le_zero.1 (le_trans data.2 ?_)))
      rw [hlen]
      exact Nat.min_le_left ..
    refine iff_of_true ⟨_, _, rfl, ?_, fun _ => ⟨_, rfl, hpart, data.2⟩⟩ (.inl hlen)
    exact iff_of_false dataReply_ne_statusReply (not_le_of_gt hbefore)

end

/-- A file of three bytes that does not change. -/
def threeBytes : Kernel Unit Unit Empty where
  __ := refusingKernel Unit Unit Empty Empty.elim
  readAt := fun _ len offset s =>
    (.ok ⟨([1, 2, 3].drop offset).take len, List.length_take_le ..⟩, s)

theorem threeBytes_reads : threeBytes.Reads () [1, 2, 3] () := by
  intro len offset data s' h
  cases h
  refine ⟨List.take_prefix .., fun hlen hnil => ?_⟩
  obtain hlen' | hdrop := List.take_eq_nil_iff.1 hnil
  · exact absurd hlen' hlen
  · exact List.drop_eq_nil_iff.1 hdrop

/-- The file, open under the handle 0. -/
def threeBytesOpen : Server Unit Unit Empty where
  handles := [some (.file () false false)]
  fs := ()

/-- READ of the handle 0. -/
def readRequestPacket (offset len : ℕ) : Bytes :=
  Kind.read.byte :: (putUint32 7 ++ (putString [0, 0, 0, 0] ++ (putUint64 offset ++ putUint32 len)))

theorem isRequest_readRequestPacket {offset len : ℕ} (hoffset : offset < 2 ^ 64) (hlen : len < 2 ^ 32) :
    IsRequest (readRequestPacket offset len) 7 (.read [0, 0, 0, 0] offset len) := by
  refine ⟨by decide, .inl ⟨.read, _, [], .read ⟨by decide, rfl⟩ ⟨hoffset, rfl⟩ ⟨hlen, rfl⟩, ?_⟩⟩
  rw [List.append_nil]
  rfl

theorem read_end_of_file_two_of_three :
    ∃ reply s', threeBytesOpen.handle threeBytes [slash] (readRequestPacket 1 2) = (.ok reply, s') ∧
      EndOfFileLaw 7 1 2 [1, 2, 3] reply :=
  (read_end_of_file (isRequest_readRequestPacket (by decide) (by decide)) rfl threeBytes_reads rfl).2
    (.inl (by decide))

/-- A request for no bytes of the three is told that the file has ended. -/
theorem read_of_nothing_ends_file :
    ∃ reply s', threeBytesOpen.handle threeBytes [slash] (readRequestPacket 0 0) = (.ok reply, s') ∧
      reply = statusReply 7 fxEof ∧ ¬([1, 2, 3] : Bytes).length ≤ 0 ∧
        ¬EndOfFileLaw 7 0 0 [1, 2, 3] reply := by
  rw [handle_request (isRequest_readRequestPacket (by decide) (by decide)),
    @perform_read _ _ _ threeBytes [slash] _ threeBytesOpen 7 0 0 0 () false false ⟨[], by decide⟩
      () rfl rfl]
  refine ⟨_, _, rfl, rfl, by decide, fun hlaw => ?_⟩
  exact absurd (hlaw.1.1 rfl) (by decide)

end QuantumSsh.Sftp
