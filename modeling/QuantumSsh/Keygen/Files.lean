import Mathlib.Data.List.Infix
import QuantumSsh.Keygen.Basic

/-!
# The files under the system calls

What the calls of `keygen` and of the server's check do to a tree of files and say about it,
when nobody else writes, and a system of which all of it holds.
-/

namespace QuantumSsh.Keygen

open Program FileTree

variable {κ D F E : Type}

/-! ### Pathnames -/

/-- A call takes the path of the place. -/
def Short (w : Walker) (p : Place) : Prop := (render p).length < w.pathMax

instance (w : Walker) (p : Place) : Decidable (Short w p) := inferInstanceAs (Decidable (_ < _))

/-- The working directory, the path and the targets of the links on the way, joined by slashes,
are below the bound with a NUL: no pathname that `realpath` forms is longer. -/
def Fits (w : Walker) (t : Tree) (path : Bytes) : Prop :=
  (render w.cwd).length + path.length +
    t.targets w.search w.links (start w.cwd path) (FileTree.names path) + 2 < w.pathMax

instance (w : Walker) (t : Tree) (path : Bytes) : Decidable (Fits w t path) :=
  inferInstanceAs (Decidable (_ < _))

/-- `realpath` has room for the path, and a call takes what it resolves to. -/
def Takes (w : Walker) (room : Tree → Bytes → Prop) (t : Tree) (path : Bytes) : Prop :=
  room t path ∧ ∀ p, t.realpath w path = some p → Short w p

theorem length_render_le (p q : Place) : (render p).length ≤ (render (p ++ q)).length := by
  cases p with
  | nil =>
    cases q with
    | nil => exact le_rfl
    | cons c q => simp [render]
  | cons c p => simp [render]

theorem Short.ancestor {w : Walker} {p q : Place} (h : Short w p) (hq : q ∈ ancestors p) :
    Short w q := by
  obtain ⟨rest, rfl⟩ := (List.mem_inits q p).1 (List.mem_reverse.1 hq)
  exact (length_render_le q rest).trans_lt h

/-! ### The tree under the calls -/

/-- The files of the system, and the places that the descriptors stand for. -/
structure Files (κ D F : Type) where
  tree : κ → Tree
  dir : D → Place
  file : F → Place

namespace Files

variable (files : Files κ D F)

/-- What is at a place. -/
def node (s : κ) : Place → Option Node := (files.tree s).node

/-- The files are as before. -/
def Same (s s' : κ) : Prop := files.tree s' = files.tree s

/-- What the calls do to the files when nobody else writes. A call that fails does nothing, a
failed `write_all` apart; a file is only created where nothing is, and belongs to the
process. -/
structure Lawful (K : Kernel κ D F E) : Prop where
  canonicalize : ∀ path, (K.canonicalize path).Within files.Same files.Same
  openDir : ∀ path, (K.openDir path).Within files.Same files.Same
  fstatDir : ∀ dir, (K.fstatDir dir).Within files.Same files.Same
  stat : ∀ path, (K.stat path).Within files.Same files.Same
  fsync : ∀ file, (K.fsync file).Within files.Same files.Same
  fstat : ∀ file, (K.fstat file).Within files.Same files.Same
  openat : ∀ dir leaf mode s, (K.openat dir leaf mode).Ensures s
    (fun file s' => files.file file = files.dir dir ++ [leaf] ∧
      files.node s (files.dir dir ++ [leaf]) = none ∧
      ∃ st, st.uid = K.geteuid ∧ files.node s' =
        Function.update (files.node s) (files.dir dir ++ [leaf]) (some (.file st [])))
    fun _ => files.Same s
  fchmod : ∀ file mode s st content, files.node s (files.file file) = some (.file st content) →
    (K.fchmod file mode).Ensures s
      (fun _ s' => ∃ st', st'.uid = st.uid ∧ st'.mode &&& 0o7777 = mode &&& 0o7777 ∧
        files.node s' =
        Function.update (files.node s) (files.file file) (some (.file st' content)))
      fun _ => files.Same s
  writeAll : ∀ file data s st content, files.node s (files.file file) = some (.file st content) →
    (K.writeAll file data).Ensures s
      (fun _ s' => files.node s' =
        Function.update (files.node s) (files.file file) (some (.file st (content ++ data))))
      fun _ s' => ∃ part, part <+: data ∧ files.node s' =
        Function.update (files.node s) (files.file file) (some (.file st (content ++ part)))
  unlinkat : ∀ dir leaf s, (K.unlinkat dir leaf).Ensures s
    (fun _ s' => files.node s' = Function.update (files.node s) (files.dir dir ++ [leaf]) none)
    fun _ => files.Same s

/-- What the calls say about the files to a process. A directory is opened where its path
leads; a file is created only by a process that may look names up there. A pathname that is
given to `stat` is short; `room` are the paths that `realpath` has the buffers for. -/
structure Answers (w : Walker) (room : Tree → Bytes → Prop) (K : Kernel κ D F E) : Prop where
  fits : ∀ t path, Fits w t path → room t path
  canonicalize : ∀ path s, (K.canonicalize path).Ensures s
    (fun p _ => (files.tree s).realpath w path = some p ∧ room (files.tree s) path)
    fun _ _ => (files.tree s).realpath w path = none ∨ ¬Takes w room (files.tree s) path
  openDir : ∀ path s, (K.openDir path).Ensures s
    (fun dir _ => (files.tree s).walk w.search w.links [] path = some (files.dir dir))
    fun _ _ => True
  fstatDir : ∀ dir s, (K.fstatDir dir).Ensures s
    (fun st _ => files.node s (files.dir dir) = some (.dir st)) fun _ _ => True
  stat : ∀ path s, (K.stat path).Ensures s
    (fun st _ => Short w path ∧ ∃ p, (files.tree s).walk w.search w.links [] path = some p ∧
      statOf (files.node s p) = some st)
    fun _ _ => (files.tree s).walk w.search w.links [] path = none ∨ ¬Short w path
  openat : ∀ dir leaf mode s, (K.openat dir leaf mode).Ensures s
    (fun _ _ => w.search (files.dir dir) = true) fun _ _ => True

variable {files} {s s' : κ}

theorem Same.node_eq (h : files.Same s s') : files.node s' = files.node s :=
  congrArg FileTree.Tree.node h

end Files

/-! ### A system of files -/

inductive Errno
  | noent
  | access
  | exist
  | notdir
  | nametoolong
  deriving DecidableEq

def Errno.text : Errno → Text
  | .noent => "No such file or directory (os error 2)".toList
  | .access => "Permission denied (os error 13)".toList
  | .exist => "File exists (os error 17)".toList
  | .notdir => "Not a directory (os error 20)".toList
  | .nametoolong => "File name too long (os error 36)".toList

/-- What was found, or that nothing was. -/
def found {α : Type} (a : Option α) : Prog Tree Errno α := fun t =>
  match a with
  | some a => (.ok a, t)
  | none => (.error .noent, t)

/-- A call on the tree as it is. -/
def onTree {α : Type} (f : Tree → Prog Tree Errno α) : Prog Tree Errno α := fun t => f t t

/-- A call on a pathname that is short enough. -/
def ifTaken {α : Type} (c : Prop) [Decidable c] (p : Prog Tree Errno α) : Prog Tree Errno α :=
  if c then p else fail .nametoolong

/-- Changes the file at a place. -/
def changeFile (p : Place) (f : Stat → Bytes → Option Node) : Prog Tree Errno Unit := fun t =>
  match h : t.node p with
  | some (.file st content) => (.ok (), t.replaceFile p (f st content) h)
  | _ => (.error .noent, t)

/-- Creates an empty file in a directory. -/
def createFile (w : Walker) (dir : Place) (leaf : Name) (st : Stat) : Prog Tree Errno Place :=
  fun t =>
    if h : t.node (dir ++ [leaf]) = none ∧ isDir (t.node dir) = true ∧ Proper leaf then
      if w.search dir then
        (.ok (dir ++ [leaf]), t.replace (dir ++ [leaf]) (some (.file st [])) (by rw [h.1]; rfl)
          fun _ => ⟨dir, leaf, rfl, h.2⟩)
      else (.error .access, t)
    else (.error .exist, t)

/-- The calls of a process whose files are a tree. A descriptor is the place it was opened at. -/
def treeKernel (w : Walker) (umask euid : ℕ) : Kernel Tree Place Place Errno where
  canonicalize path := onTree fun t => ifTaken (Fits w t path ∧ ∀ p ∈ t.realpath w path, Short w p)
    (found (t.realpath w path))
  openDir path := onTree fun t => ifTaken (Short w path)
    (found ((t.walk w.search w.links [] path).filter fun p => isDir (t.node p)))
  fstatDir dir := onTree fun t => found ((statOf (t.node dir)).filter fun _ => isDir (t.node dir))
  stat path := onTree fun t => ifTaken (Short w path)
    (found ((t.walk w.search w.links [] path).bind fun p => statOf (t.node p)))
  openat dir leaf mode := createFile w dir leaf ⟨0o100000 ||| (mode - (mode &&& umask)), euid⟩
  fchmod file mode := changeFile file fun st content =>
    some (.file { st with mode := 0o100000 ||| (mode &&& 0o7777) } content)
  writeAll file data := changeFile file fun st content => some (.file st (content ++ data))
  fsync _ := pure ()
  fstat file := onTree fun t => found (statOf (t.node file))
  unlinkat dir leaf := changeFile (dir ++ [leaf]) fun _ _ => none
  geteuid := euid
  isExist e := decide (e = .exist)
  errorText := Errno.text
  display := Text.ofAscii

def treeFiles : Files Tree Place Place where
  tree := id
  dir := id
  file := id

section TreeKernel

variable {w : Walker} {umask euid : ℕ} {t : Tree}

@[simp] theorem ensures_found {α : Type} {a : Option α} {ok : α → Tree → Prop}
    {err : Errno → Tree → Prop} :
    (found a).Ensures t ok err ↔ (∀ b, a = some b → ok b t) ∧ (a = none → err .noent t) := by
  cases a with
  | none => simp [found, Prog.Ensures]
  | some a => simp [found, Prog.Ensures]

@[simp] theorem ensures_onTree {α : Type} {f : Tree → Prog Tree Errno α} {ok : α → Tree → Prop}
    {err : Errno → Tree → Prop} : (onTree f).Ensures t ok err ↔ (f t).Ensures t ok err :=
  Iff.rfl

@[simp] theorem ensures_ifTaken {α : Type} {c : Prop} [Decidable c] {p : Prog Tree Errno α}
    {ok : α → Tree → Prop} {err : Errno → Tree → Prop} :
    (ifTaken c p).Ensures t ok err ↔ (c → p.Ensures t ok err) ∧ (¬c → err .nametoolong t) := by
  unfold ifTaken
  split_ifs with hc <;> simp [hc]

theorem ensures_changeFile (p : Place) (f : Stat → Bytes → Option Node) :
    (changeFile p f).Ensures t
      (fun _ t' => ∃ st content, t.node p = some (.file st content) ∧
        t'.node = Function.update t.node p (f st content))
      fun _ t' => t' = t ∧ ∀ st content, t.node p ≠ some (.file st content) := by
  unfold Prog.Ensures changeFile
  split
  · rename_i heq
    split at heq
    · rename_i st content hnode
      cases heq
      exact ⟨st, content, hnode, rfl⟩
    · cases heq
  · rename_i heq
    split at heq
    · cases heq
    · rename_i hnode
      cases heq
      exact ⟨rfl, hnode⟩

theorem ensures_createFile (dir : Place) (leaf : Name) (st : Stat) :
    (createFile w dir leaf st).Ensures t
      (fun file t' => file = dir ++ [leaf] ∧ t.node (dir ++ [leaf]) = none ∧
        w.search dir = true ∧
        t'.node = Function.update t.node (dir ++ [leaf]) (some (.file st [])))
      fun _ t' => t' = t := by
  unfold Prog.Ensures
  by_cases hnode : t.node (dir ++ [leaf]) = none ∧ isDir (t.node dir) = true ∧ Proper leaf
  · by_cases hsearch : w.search dir
    · simp only [createFile, dif_pos hnode, if_pos hsearch]
      exact ⟨trivial, hnode.1, hsearch, rfl⟩
    · simp only [createFile, dif_pos hnode, if_neg hsearch]
  · simp only [createFile, dif_neg hnode]

/-- A file that changed its mode has the bits that were asked for. -/
theorem fileMode_and (mode : ℕ) :
    (0o100000 ||| (mode &&& 0o7777)) &&& 0o7777 = mode &&& 0o7777 := by
  rw [Nat.and_or_distrib_right, Nat.and_assoc, Nat.and_self]
  exact Nat.zero_or _

theorem treeFiles_lawful : treeFiles.Lawful (treeKernel w umask euid) where
  canonicalize path t := by simp [treeKernel, Files.Same]
  openDir path t := by simp [treeKernel, Files.Same]
  fstatDir dir t := by simp [treeKernel, Files.Same]
  stat path t := by simp [treeKernel, Files.Same]
  fsync file t := rfl
  fstat file t := by simp [treeKernel, Files.Same]
  openat dir leaf mode t := by
    refine (ensures_createFile dir leaf _).mono (fun file t' h => ?_) fun _ _ h => h
    obtain ⟨rfl, hnone, -, hnode⟩ := h
    exact ⟨rfl, hnone, _, rfl, hnode⟩
  fchmod file mode t st content hnode := by
    refine (ensures_changeFile file _).mono (fun _ t' h => ?_) fun _ _ h => h.1
    obtain ⟨st', content', hnode', hupdate⟩ := h
    cases hnode.symm.trans hnode'
    exact ⟨{ st with mode := 0o100000 ||| (mode &&& 0o7777) }, rfl, fileMode_and mode, hupdate⟩
  writeAll file data t st content hnode := by
    refine (ensures_changeFile file _).mono (fun _ t' h => ?_) fun _ _ h => ?_
    · obtain ⟨st', content', hnode', hupdate⟩ := h
      cases hnode.symm.trans hnode'
      exact hupdate
    · exact absurd hnode (h.2 st content)
  unlinkat dir leaf t := by
    refine (ensures_changeFile (dir ++ [leaf]) _).mono (fun _ t' h => ?_) fun _ _ h => h.1
    obtain ⟨st, content, -, hupdate⟩ := h
    exact hupdate

/-- What `stat` says is there, where a path leads. -/
theorem exists_statOf {p : Place} (h : t.Stands p) : ∃ st, statOf (t.node p) = some st := by
  obtain ⟨n, hnode, hlink⟩ := h
  rw [hnode]
  match n, hlink with
  | .dir st, _ | .file st _, _ => exact ⟨st, rfl⟩
  | .link target, hlink => exact absurd rfl (hlink target)

theorem treeFiles_answers : treeFiles.Answers w (Fits w) (treeKernel w umask euid) where
  fits _ _ h := h
  canonicalize path t := by
    simp only [treeKernel, ensures_onTree, ensures_ifTaken, ensures_found, treeFiles, id]
    exact ⟨fun htakes => ⟨fun p hp => ⟨hp, htakes.1⟩, .inl⟩, .inr⟩
  openDir path t := by
    simp only [treeKernel, ensures_onTree, ensures_ifTaken, ensures_found, treeFiles, id]
    exact ⟨fun _ => ⟨fun p h => (Option.filter_eq_some_iff.1 h).1, fun _ => trivial⟩,
      fun _ => trivial⟩
  fstatDir dir t := by
    simp only [treeKernel, ensures_onTree, ensures_found, treeFiles, id]
    refine ⟨fun st h => ?_, fun _ => trivial⟩
    obtain ⟨hst, hdir⟩ := Option.filter_eq_some_iff.1 h
    change t.node dir = _
    cases hnode : t.node dir with
    | none =>
      rw [hnode] at hdir
      cases hdir
    | some n =>
      rw [hnode] at hst hdir
      cases n with
      | dir st' =>
        cases hst
        rfl
      | file | link => cases hdir
  stat path t := by
    simp only [treeKernel, ensures_onTree, ensures_ifTaken, ensures_found, treeFiles, id]
    refine ⟨fun hshort => ⟨fun st h => ⟨hshort, Option.bind_eq_some_iff.1 h⟩, fun h => .inl ?_⟩,
      .inr⟩
    rw [Option.bind_eq_none_iff] at h
    rw [Option.eq_none_iff_forall_ne_some]
    intro p hp
    obtain ⟨st, hst⟩ := exists_statOf (Tree.walk_stands (.of_root t) hp)
    cases (h p hp).symm.trans hst
  openat dir leaf mode t :=
    (ensures_createFile dir leaf _).mono (fun _ _ h => h.2.2.1) fun _ _ _ => trivial

end TreeKernel

/-- A root directory of mode 0755 with nothing in it. -/
def emptyTree : Tree where
  node p := if p = [] then some (.dir ⟨0o40755, 0⟩) else none
  root := ⟨_, rfl⟩
  parent p c h := by simp at h
  proper p c h := by simp at h

def rootWalker : Walker where
  cwd := []
  search _ := true
  links := 40
  pathMax := 4096

end QuantumSsh.Keygen
