import QuantumSsh.Keygen.Files

/-!
# What a failed keygen leaves

The tree of files before and after a run of `keygen`, for any of its calls failing, and the
calls that it made on the way.
-/

namespace QuantumSsh.Keygen

open Program FileTree

variable {κ D F E : Type}

/-! ### The calls that change something -/

inductive Call (D F : Type)
  /-- A file was opened for writing. -/
  | opened (dir : D) (leaf : Name)
  | chmod (file : F)
  | write (file : F) (data : Bytes)
  | unlink (dir : D) (leaf : Name) (ok : Bool)

/-- A program that notes a call, with what came of it. -/
def noted {α : Type} (calls : Except E α → List (Call D F)) (p : Prog κ E α) :
    Prog (κ × List (Call D F)) E α := fun t =>
  ((p t.1).1, ((p t.1).2, t.2 ++ calls (p t.1).1))

/-- The system, with the calls noted that change something. -/
def Kernel.traced (K : Kernel κ D F E) : Kernel (κ × List (Call D F)) D F E where
  canonicalize path := noted (fun _ => []) (K.canonicalize path)
  openDir path := noted (fun _ => []) (K.openDir path)
  fstatDir dir := noted (fun _ => []) (K.fstatDir dir)
  stat path := noted (fun _ => []) (K.stat path)
  openat dir leaf mode := noted
    (fun
      | .ok _ => [.opened dir leaf]
      | .error _ => []) (K.openat dir leaf mode)
  fchmod file mode := noted (fun _ => [.chmod file]) (K.fchmod file mode)
  writeAll file data := noted (fun _ => [.write file data]) (K.writeAll file data)
  fsync file := noted (fun _ => []) (K.fsync file)
  fstat file := noted (fun _ => []) (K.fstat file)
  unlinkat dir leaf := noted
    (fun
      | .ok _ => [.unlink dir leaf true]
      | .error _ => [.unlink dir leaf false]) (K.unlinkat dir leaf)
  geteuid := K.geteuid
  isExist := K.isExist
  errorText := K.errorText
  display := K.display

section Traced

variable (K : Kernel κ D F E)

@[simp] theorem Kernel.traced_canonicalize (path : Bytes) :
    K.traced.canonicalize path = noted (fun _ => []) (K.canonicalize path) := rfl

@[simp] theorem Kernel.traced_openDir (path : Place) :
    K.traced.openDir path = noted (fun _ => []) (K.openDir path) := rfl

@[simp] theorem Kernel.traced_fstatDir (dir : D) :
    K.traced.fstatDir dir = noted (fun _ => []) (K.fstatDir dir) := rfl

@[simp] theorem Kernel.traced_stat (path : Place) :
    K.traced.stat path = noted (fun _ => []) (K.stat path) := rfl

@[simp] theorem Kernel.traced_openat (dir : D) (leaf : Name) (mode : ℕ) :
    K.traced.openat dir leaf mode = noted
      (fun
        | .ok _ => [.opened dir leaf]
        | .error _ => []) (K.openat dir leaf mode) := rfl

@[simp] theorem Kernel.traced_fchmod (file : F) (mode : ℕ) :
    K.traced.fchmod file mode = noted (fun _ => [.chmod file]) (K.fchmod file mode) := rfl

@[simp] theorem Kernel.traced_writeAll (file : F) (data : Bytes) :
    K.traced.writeAll file data = noted (fun _ => [.write file data]) (K.writeAll file data) := rfl

@[simp] theorem Kernel.traced_fsync (file : F) :
    K.traced.fsync file = noted (fun _ => []) (K.fsync file) := rfl

@[simp] theorem Kernel.traced_fstat (file : F) :
    K.traced.fstat file = noted (fun _ => []) (K.fstat file) := rfl

@[simp] theorem Kernel.traced_unlinkat (dir : D) (leaf : Name) :
    K.traced.unlinkat dir leaf = noted
      (fun
        | .ok _ => [.unlink dir leaf true]
        | .error _ => [.unlink dir leaf false]) (K.unlinkat dir leaf) := rfl

@[simp] theorem Kernel.traced_errorText : K.traced.errorText = K.errorText := rfl

@[simp] theorem Kernel.traced_displayPath : K.traced.displayPath = K.displayPath := rfl

end Traced

@[simp] theorem ensures_noted {α : Type} {calls : Except E α → List (Call D F)} {p : Prog κ E α}
    {t : κ × List (Call D F)} {ok : α → κ × List (Call D F) → Prop}
    {err : E → κ × List (Call D F) → Prop} :
    (noted calls p).Ensures t ok err ↔ p.Ensures t.1
      (fun a s => ok a (s, t.2 ++ calls (.ok a))) fun e s => err e (s, t.2 ++ calls (.error e)) := by
  unfold Prog.Ensures noted
  rcases p t.1 with ⟨_ | _, _⟩ <;> rfl

namespace Files

variable (files : Files κ D F)

/-- The place that a call is about. -/
def place : Call D F → Place
  | .opened dir leaf | .unlink dir leaf _ => files.dir dir ++ [leaf]
  | .chmod file | .write file _ => files.file file

variable {files} {t₀ : Tree} {here : Place} {created : List Target} {s s' : κ}

/-- The files that were created are where nothing was, and all else is as it was. -/
structure Made (files : Files κ D F) (t₀ : Tree) (here : Place) (created : List Target) (s : κ) :
    Prop where
  others : ∀ p, (∀ target ∈ created, p ≠ here ++ [target.leaf]) → files.node s p = t₀.node p
  fresh : ∀ target ∈ created, t₀.node (here ++ [target.leaf]) = none

theorem Made.of_same (h : files.Made t₀ here created s) (hsame : files.Same s s') :
    files.Made t₀ here created s' where
  others p hp := by rw [hsame.node_eq, h.others p hp]
  fresh := h.fresh

/-- A created file may change. -/
theorem Made.update (h : files.Made t₀ here created s) {target : Target} {n : Option Node}
    (hmem : target ∈ created)
    (hnode : files.node s' = Function.update (files.node s) (here ++ [target.leaf]) n) :
    files.Made t₀ here created s' where
  others p hp := by rw [hnode, Function.update_of_ne (hp target hmem), h.others p hp]
  fresh := h.fresh

theorem Made.create (h : files.Made t₀ here created s) {target : Target} {n : Option Node}
    (hnone : t₀.node (here ++ [target.leaf]) = none)
    (hnode : files.node s' = Function.update (files.node s) (here ++ [target.leaf]) n) :
    files.Made t₀ here (created ++ [target]) s' where
  others p hp := by
    rw [hnode, Function.update_of_ne (hp target (by simp)), h.others p]
    exact fun other hmem => hp other (by simp [hmem])
  fresh other hmem := by
    rcases List.mem_append.1 hmem with hmem | hmem
    · exact h.fresh other hmem
    · rwa [List.mem_singleton.1 hmem]

/-- A created file that is removed leaves its place as it was. -/
theorem Made.remove {target : Target} (h : files.Made t₀ here (target :: created) s)
    (hnode : files.node s' = Function.update (files.node s) (here ++ [target.leaf]) none) :
    files.Made t₀ here created s' where
  others p hp := by
    rw [hnode]
    by_cases hplace : p = here ++ [target.leaf]
    · rw [hplace, Function.update_self, h.fresh target List.mem_cons_self]
    · rw [Function.update_of_ne hplace]
      exact h.others p fun other hmem =>
        (List.mem_cons.1 hmem).elim (fun heq => heq ▸ hplace) (hp other)
  fresh other hmem := h.fresh other (List.mem_cons_of_mem _ hmem)

theorem Made.eq_tree (h : files.Made t₀ here [] s) : files.tree s = t₀ := by
  apply Tree.ext
  funext p
  exact h.others p nofun

end Files

/-! ### How the errors end -/

/-- A text that does not end as the notice about the key does. -/
def Quiet (t : Text) : Prop := t.getLast? ≠ some 'd'

instance (t : Text) : Decidable (Quiet t) := inferInstanceAs (Decidable (_ ≠ _))

theorem Quiet.append {x y : Text} (hx : Quiet x) (hy : Quiet y) : Quiet (x ++ y) := by
  rw [Quiet, List.getLast?_append]
  cases hlast : y.getLast? with
  | none => rwa [Option.none_or]
  | some c =>
    rw [Quiet, hlast] at hy
    simpa using hy

theorem Quiet.append_left {x y : Text} (hy : Quiet y) (hne : y ≠ []) : Quiet (x ++ y) := by
  rwa [Quiet, List.getLast?_append_of_ne_nil _ hne]

theorem quiet_create {exist : Bool} {x y : Text} (hy : Quiet y) :
    Quiet (x ++ if exist = true then "already exists; keygen never replaces a file".toList
      else "cannot create: ".toList ++ y) := by
  cases exist with
  | true =>
    rw [if_pos rfl]
    exact Quiet.append_left (by decide) (by decide)
  | false =>
    rw [if_neg (by decide)]
    have hcreate : Quiet ("cannot create: ".toList ++ y) := Quiet.append (by decide) hy
    exact hcreate.append_left (List.append_ne_nil_of_left_ne_nil (by decide) _)

theorem not_quiet_of_notice {t : Text} (h : keyNotice <:+ t) : ¬Quiet t := by
  obtain ⟨before, rfl⟩ := h
  rw [Quiet, List.getLast?_append_of_ne_nil _ (by decide), not_not]
  decide

/-! ### The clean-up -/

section Cleanup

variable {files : Files κ D F} {K : Kernel κ D F E} {dir : D}

/-- Removing the files goes through all of them. When each removal succeeds, the tree is as it
was and nothing is added to the text. -/
theorem ensures_removeEach (laws : files.Lawful K) (t₀ : Tree) {created : List Target}
    {message : Text}
    {t : κ × List (Call D F)} :
    (removeEach K.traced dir created message).Ensures t
      (fun text t' => ∃ more, t'.2 = t.2 ++ more ∧
        (∀ c ∈ more, ∃ target ∈ created, ∃ ok, c = .unlink dir target.leaf ok) ∧
        ((∀ target ok, .unlink dir target ok ∈ more → ok = true) →
          files.Made t₀ (files.dir dir) created t.1 → files.tree t'.1 = t₀ ∧ text = message))
      fun _ _ => False := by
  induction created generalizing message t with
  | nil => exact ⟨[], by simp, nofun, fun _ hmade => ⟨hmade.eq_tree, rfl⟩⟩
  | cons target created ih =>
    simp only [removeEach, ensures_bind, ensures_reified, ensures_mapError,
      Kernel.traced_unlinkat, ensures_noted]
    refine (laws.unlinkat dir target.leaf t.1).mono (fun _ s hnode => ?_) fun e s _ => ?_
    · refine ih.mono (fun text t' h => ?_) fun _ _ h => h
      obtain ⟨more, hcalls, hmore, hend⟩ := h
      refine ⟨.unlink dir target.leaf true :: more, by simp [hcalls], ?_, fun hok hmade => ?_⟩
      · rw [List.forall_mem_cons]
        refine ⟨⟨target, List.mem_cons_self, true, rfl⟩, fun c hc => ?_⟩
        obtain ⟨other, hother, h⟩ := hmore c hc
        exact ⟨other, List.mem_cons_of_mem _ hother, h⟩
      · exact hend (fun leaf ok hmem => hok leaf ok (List.mem_cons_of_mem _ hmem))
          (hmade.remove hnode)
    · refine ih.mono (fun text t' h => ?_) fun _ _ h => h
      obtain ⟨more, hcalls, hmore, -⟩ := h
      refine ⟨.unlink dir target.leaf false :: more, by simp [hcalls], ?_, fun hok => ?_⟩
      · rw [List.forall_mem_cons]
        refine ⟨⟨target, List.mem_cons_self, false, rfl⟩, fun c hc => ?_⟩
        obtain ⟨other, hother, h⟩ := hmore c hc
        exact ⟨other, List.mem_cons_of_mem _ hother, h⟩
      · exact absurd (hok target.leaf false List.mem_cons_self) (by decide)

end Cleanup

/-! ### The two files -/

/-- The private key was handed to the system to be written. -/
def Attempted (generate : Except RngError GeneratedHostKey) (calls : List (Call D F)) : Prop :=
  ∃ key file, generate = .ok key ∧ .write file (Text.bytes key.privatePem) ∈ calls

/-- What holds throughout `write_pair`, before the private key is written and after. -/
structure Holding (files : Files κ D F) (t₀ : Tree) (here : Place)
    (generate : Except RngError GeneratedHostKey) (written : Bool)
    (t : Writing (κ × List (Call D F))) : Prop where
  made : files.Made t₀ here t.2 t.1.1
  isFile : ∀ target ∈ t.2, ∃ st content,
    files.node t.1.1 (here ++ [target.leaf]) = some (.file st content)
  calls : ∀ c ∈ t.1.2, ∃ target ∈ t.2, files.place c = here ++ [target.leaf]
  kept : ∀ dir leaf ok, .unlink dir leaf ok ∉ t.1.2
  attempted : Attempted generate t.1.2 ↔ written = true

/-- The end of `write_pair` when it fails: its failure tells whether the key was written. -/
def Fails (files : Files κ D F) (t₀ : Tree) (here : Place)
    (generate : Except RngError GeneratedHostKey) (failure : Failure)
    (t : Writing (κ × List (Call D F))) : Prop :=
  Holding files t₀ here generate failure.keyWritten t ∧
    (failure.keyWritten = false → Quiet failure.message)

section Pair

variable {files : Files κ D F} {K : Kernel κ D F E} {dir : D} {t₀ : Tree} {here : Place}
  {generate : Except RngError GeneratedHostKey} {written : Bool}
  {t : Writing (κ × List (Call D F))} {target : Target} {file : F}

/-- A call about a created file that leaves it a file. -/
theorem Holding.change {s : κ} {more : List (Call D F)} {st : Stat} {content : Bytes}
    {written' : Bool} (h : Holding files t₀ here generate written t) (hmem : target ∈ t.2)
    (hnode : files.node s =
      Function.update (files.node t.1.1) (here ++ [target.leaf]) (some (.file st content)))
    (hmore : ∀ c ∈ more, files.place c = here ++ [target.leaf])
    (hkept : ∀ dir leaf ok, .unlink dir leaf ok ∉ more)
    (hwritten : Attempted generate (t.1.2 ++ more) ↔ written' = true) :
    Holding files t₀ here generate written' ((s, t.1.2 ++ more), t.2) where
  made := h.made.update hmem hnode
  isFile other hother := by
    rw [hnode]
    by_cases hplace : here ++ [other.leaf] = here ++ [target.leaf]
    · exact ⟨st, content, by rw [hplace, Function.update_self]⟩
    · rw [Function.update_of_ne hplace]
      exact h.isFile other hother
  calls c hc := by
    rcases List.mem_append.1 hc with hc | hc
    · exact h.calls c hc
    · exact ⟨target, hmem, hmore c hc⟩
  kept dir leaf ok hc := (List.mem_append.1 hc).elim (h.kept dir leaf ok) (hkept dir leaf ok)
  attempted := hwritten

/-- A call that changes no file. -/
theorem Holding.same {s : κ} (h : Holding files t₀ here generate written t)
    (hsame : files.Same t.1.1 s) :
    Holding files t₀ here generate written ((s, t.1.2), t.2) where
  made := h.made.of_same hsame
  isFile := by
    rw [hsame.node_eq]
    exact h.isFile
  calls := h.calls
  kept := h.kept
  attempted := h.attempted

theorem ensures_create (laws : files.Lawful K) (hdir : files.dir dir = here)
    (htext : ∀ e, Quiet (K.errorText e)) {mode : ℕ}
    (h : Holding files t₀ here generate false t) :
    (create K.traced dir target mode).Ensures t
      (fun file t' => Holding files t₀ here generate false t' ∧
        files.file file = here ++ [target.leaf] ∧ t'.2 = t.2 ++ [target])
      (Fails files t₀ here generate) := by
  subst hdir
  simp only [create, call, ensures_bind, ensures_zoom, ensures_mapError, Kernel.traced_openat,
    ensures_noted, ensures_update, ensures_pure]
  refine (laws.openat dir target.leaf mode t.1.1).mono (fun file s hopen => ?_) fun e s hsame => ?_
  · obtain ⟨hfile, hnone, st, -, hnode⟩ := hopen
    refine ⟨?_, hfile, trivial⟩
    have hother : ∀ other ∈ t.2,
        files.dir dir ++ [other.leaf] ≠ files.dir dir ++ [target.leaf] := by
      intro other hmem heq
      obtain ⟨st', content, hsome⟩ := h.isFile other hmem
      rw [heq, hnone] at hsome
      cases hsome
    have hfresh : t₀.node (files.dir dir ++ [target.leaf]) = none := by
      rw [← h.made.others _ fun other hmem heq => hother other hmem heq.symm, hnone]
    refine ⟨h.made.create hfresh hnode, fun other hmem => ?_, fun c hc => ?_,
      fun d leaf ok hc => ?_, ?_⟩
    · rw [hnode]
      rcases List.mem_append.1 hmem with hmem | hmem
      · rw [Function.update_of_ne (hother other hmem)]
        exact h.isFile other hmem
      · rw [List.mem_singleton.1 hmem, Function.update_self]
        exact ⟨st, [], rfl⟩
    · rcases List.mem_append.1 hc with hc | hc
      · obtain ⟨other, hmem, hplace⟩ := h.calls c hc
        exact ⟨other, List.mem_append_left _ hmem, hplace⟩
      · rw [List.mem_singleton.1 hc]
        exact ⟨target, by simp, rfl⟩
    · exact h.kept d leaf ok (by simpa using hc)
    · rw [← h.attempted]
      simp [Attempted]
  · refine ⟨by simpa using h.same hsame, fun _ => ?_⟩
    exact quiet_create (htext e)

theorem ensures_fchmod (laws : files.Lawful K) {mode : ℕ} {onError : E → Failure}
    (hquiet : ∀ e, (onError e).keyWritten = false ∧ Quiet (onError e).message)
    (h : Holding files t₀ here generate false t) (hmem : target ∈ t.2)
    (hfile : files.file file = here ++ [target.leaf]) :
    (call onError (K.traced.fchmod file mode)).Ensures t
      (fun _ t' => Holding files t₀ here generate false t' ∧ t'.2 = t.2)
      (Fails files t₀ here generate) := by
  simp only [call, ensures_zoom, ensures_mapError, Kernel.traced_fchmod, ensures_noted]
  obtain ⟨st, content, hnode⟩ := h.isFile target hmem
  have hwritten : Attempted generate (t.1.2 ++ [.chmod file]) ↔ false = true := by
    rw [← h.attempted]
    simp [Attempted]
  rw [← hfile] at hnode
  refine (laws.fchmod file mode t.1.1 st content hnode).mono (fun _ s hdone => ?_)
    fun e s hsame => ?_
  · obtain ⟨st', -, -, hnode'⟩ := hdone
    rw [hfile] at hnode'
    exact ⟨h.change hmem hnode' (by simpa [Files.place] using hfile) (by simp) hwritten, trivial⟩
  · have hsame' : files.node s =
        Function.update (files.node t.1.1) (here ++ [target.leaf]) (some (.file st content)) := by
      rw [← hfile, ← hnode, Function.update_eq_self, hsame.node_eq]
    refine ⟨?_, fun _ => (hquiet e).2⟩
    rw [(hquiet e).1]
    exact h.change hmem hsame' (by simpa [Files.place] using hfile) (by simp) hwritten

/-- A failure that says the key was written has nothing to be quiet about. -/
theorem Holding.fails (h : Holding files t₀ here generate true t) {failure : Failure}
    (hwritten : failure.keyWritten = true) : Fails files t₀ here generate failure t := by
  refine ⟨hwritten ▸ h, fun hnot => ?_⟩
  rw [hwritten] at hnot
  cases hnot

/-- Once the private key is handed over, the run counts as having written it. -/
theorem ensures_writeSynced (laws : files.Lawful K) {data : Bytes}
    (h : Holding files t₀ here generate written t) (hmem : target ∈ t.2)
    (hfile : files.file file = here ++ [target.leaf])
    (hattempted : Attempted generate (t.1.2 ++ [.write file data])) :
    (writeSynced K.traced file target data).Ensures t
      (fun _ t' => Holding files t₀ here generate true t' ∧ t'.2 = t.2)
      (Fails files t₀ here generate) := by
  simp only [writeSynced, call, ensures_zoom, ensures_mapError, ensures_bind,
    Kernel.traced_writeAll, Kernel.traced_fsync, ensures_noted, List.append_nil]
  obtain ⟨st, content, hnode⟩ := h.isFile target hmem
  have hwrote : ∀ s part, files.node s = Function.update (files.node t.1.1) (files.file file)
      (some (.file st (content ++ part))) →
      Holding files t₀ here generate true ((s, t.1.2 ++ [.write file data]), t.2) := by
    intro s part hnode'
    rw [hfile] at hnode'
    exact h.change hmem hnode' (by simpa [Files.place] using hfile) (by simp)
      (iff_of_true hattempted rfl)
  refine (laws.writeAll file data t.1.1 st content (by rw [hfile, hnode])).mono
    (fun _ s hdone => ?_) fun e s hpart => ?_
  · refine (laws.fsync file s).mono (fun _ s' hsame => ?_) fun e s' hsame => ?_
    · exact ⟨(hwrote s data hdone).same hsame, trivial⟩
    · exact ((hwrote s data hdone).same hsame).fails rfl
  · obtain ⟨part, -, hnode'⟩ := hpart
    exact (hwrote s part hnode').fails rfl

theorem ensures_observed (laws : files.Lawful K) (h : Holding files t₀ here generate true t) :
    (observed K.traced file target).Ensures t
      (fun _ t' => Holding files t₀ here generate true t' ∧ t'.2 = t.2)
      (Fails files t₀ here generate) := by
  simp only [observed, call, ensures_bind, ensures_zoom, ensures_mapError, Kernel.traced_fstat,
    ensures_noted, List.append_nil, ensures_pure]
  refine (laws.fstat file t.1.1).mono (fun _ s hsame => ?_) fun e s hsame => ?_
  · exact ⟨h.same hsame, trivial⟩
  · exact (h.same hsame).fails rfl

theorem ensures_writePair (laws : files.Lawful K) (hdir : files.dir dir = here)
    (htext : ∀ e, Quiet (K.errorText e)) {priv pub : Target}
    (h : Holding files t₀ here generate false t) :
    (writePair K.traced dir priv pub generate).Ensures t (fun _ _ => True)
      (Fails files t₀ here generate) := by
  have hquiet : ∀ {x y : Text} {e : E}, Quiet y → y ≠ [] → Quiet (x ++ y ++ K.errorText e) :=
    fun hy hne => (hy.append_left hne).append (htext _)
  simp only [writePair, ensures_bind]
  refine (ensures_create laws hdir htext h).mono (fun privateFile t₁ h₁ => ?_) fun _ _ h => h
  obtain ⟨h₁, hprivate, hcreated₁⟩ := h₁
  refine (ensures_create laws hdir htext h₁).mono (fun publicFile t₂ h₂ => ?_) fun _ _ h => h
  obtain ⟨h₂, hpublic, hcreated₂⟩ := h₂
  have hpriv : priv ∈ t₂.2 := by simp [hcreated₂, hcreated₁]
  have hpub : pub ∈ t₂.2 := by simp [hcreated₂]
  simp only [forEach, ensures_bind, ensures_pure]
  refine (ensures_fchmod laws (fun e => ⟨rfl, hquiet (by decide) (by decide)⟩) h₂ hpriv
    hprivate).mono (fun _ t₃ h₃ => ?_) fun _ _ h => h
  obtain ⟨h₃, hcreated₃⟩ := h₃
  refine (ensures_fchmod laws (fun e => ⟨rfl, hquiet (by decide) (by decide)⟩) h₃
    (hcreated₃ ▸ hpub) hpublic).mono (fun _ t₄ h₄ => ?_) fun _ _ h => h
  obtain ⟨h₄, hcreated₄⟩ := h₄
  rw [← hcreated₃, ← hcreated₄] at hpriv hpub
  cases hgenerate : generate with
  | error e =>
    subst hgenerate
    exact ⟨h₄, fun _ => Quiet.append_left (by decide) (by decide)⟩
  | ok key =>
    subst hgenerate
    refine (ensures_writeSynced laws h₄ hpriv hprivate
      ⟨key, privateFile, rfl, by simp⟩).mono (fun _ t₅ h₅ => ?_) fun _ _ h => h
    obtain ⟨h₅, hcreated₅⟩ := h₅
    have hattempted : Attempted (.ok key) t₅.1.2 := h₅.attempted.2 rfl
    obtain ⟨key', file', hkey, hwrite⟩ := hattempted
    refine (ensures_writeSynced laws h₅ (hcreated₅ ▸ hpub) hpublic
      ⟨key', file', hkey, List.mem_append_left _ hwrite⟩).mono (fun _ t₆ h₆ => ?_) fun _ _ h => h
    refine (ensures_observed laws h₆.1).mono (fun _ t₇ h₇ => ?_) fun _ _ h => h
    exact (ensures_observed laws h₇.1).mono (fun _ _ _ => trivial) fun _ _ h => h

end Pair

/-! ### The whole run -/

section Run

variable {files : Files κ D F} {K : Kernel κ D F E}

/-- Up to the first file, nothing is changed and no error ends as the notice does. -/
def Untouched (files : Files κ D F) (t t' : κ × List (Call D F)) : Prop :=
  files.Same t.1 t'.1 ∧ t'.2 = t.2

theorem ensures_quiet {α : Type} {p : Prog κ E α} (hp : p.Within files.Same files.Same)
    {onError : E → Text} (hquiet : ∀ e, Quiet (onError e)) {t t' : κ × List (Call D F)}
    (h : Untouched files t t') :
    (mapError onError (noted (fun _ => []) p)).Ensures t' (fun _ => Untouched files t)
      fun text t'' => Untouched files t t'' ∧ Quiet text := by
  simp only [ensures_mapError, ensures_noted, List.append_nil]
  refine (hp t'.1).mono (fun _ s hsame => ?_) fun e s hsame => ?_
  · exact ⟨hsame.trans h.1, h.2⟩
  · exact ⟨⟨hsame.trans h.1, h.2⟩, hquiet e⟩

theorem ensures_checkDirectory (laws : files.Lawful K) (htext : ∀ e, Quiet (K.errorText e))
    {dir : D} {canonical : Place} {t t' : κ × List (Call D F)} (h : Untouched files t t') :
    (checkDirectory K.traced dir canonical).Ensures t' (fun _ => Untouched files t)
      fun text t'' => Untouched files t t'' ∧ Quiet text := by
  have hcannot : ∀ p e, Quiet (K.displayPath p ++ ": cannot stat: ".toList ++ K.errorText e) :=
    fun p e => (Quiet.append_left (by decide) (by decide)).append (htext e)
  have hrefused : ∀ p violation, Quiet (refused K.traced p violation) :=
    fun p violation => Quiet.append_left (by decide) (by decide)
  -- what is done with the mode, once it is known
  have hmode : ∀ p mode u, Untouched files t u →
      (failWith ((ancestorViolation mode).map (refused K.traced p))).Ensures u
        (fun _ => Untouched files t) fun text t'' => Untouched files t t'' ∧ Quiet text := by
    intro p mode u hu
    cases ancestorViolation mode with
    | none => exact hu
    | some violation => exact ⟨hu, hrefused p violation⟩
  simp only [checkDirectory, ensures_bind]
  refine (ensures_quiet (laws.fstatDir dir) (hcannot canonical) h).mono (fun st t₁ h₁ => ?_)
    fun _ _ h => h
  refine (hmode canonical st.mode t₁ h₁).mono (fun _ t₂ h₂ => ?_) fun _ _ h => h
  refine ensures_forEach (fun ancestor _ t₃ h₃ => ?_) h₂
  rw [ensures_bind]
  exact (ensures_quiet (laws.stat ancestor) (hcannot ancestor) h₃).mono
    (fun st t₄ h₄ => hmode ancestor st.mode t₄ h₄) fun _ _ h => h

/-- The end of a failed run. -/
structure NoTrace (files : Files κ D F) (generate : Except RngError GeneratedHostKey) (s : κ)
    (text : Text) (t : κ × List (Call D F)) : Prop where
  tree : (∀ dir leaf, .unlink dir leaf false ∉ t.2) → files.tree t.1 = files.tree s
  calls : ∀ c ∈ t.2, files.node s (files.place c) = none
  notice : (∀ dir leaf, .unlink dir leaf false ∉ t.2) → (keyNotice <:+ text ↔ Attempted generate t.2)

variable {generate : Except RngError GeneratedHostKey} {s : κ}

/-- A run that fails before it creates anything. -/
theorem Untouched.noTrace {text : Text} {t : κ × List (Call D F)} (h : Untouched files (s, []) t)
    (hquiet : Quiet text) : NoTrace files generate s text t where
  tree _ := h.1
  calls c hc := by
    rw [h.2] at hc
    cases hc
  notice _ := by
    rw [h.2]
    refine iff_of_false (fun hnotice => not_quiet_of_notice hnotice hquiet) ?_
    simp [Attempted]

/-- The clean-up after `write_pair`. -/
theorem Fails.ensures_removeCreated (laws : files.Lawful K) {dir : D} {failure : Failure}
    {t : Writing (κ × List (Call D F))}
    (h : Fails files (files.tree s) (files.dir dir) generate failure t) :
    (removeCreated K.traced dir t.2 failure).Ensures t.1 (NoTrace files generate s)
      (NoTrace files generate s) := by
  obtain ⟨h, hquiet⟩ := h
  refine (ensures_removeEach laws (files.tree s)).mono (fun text t' hdone => ?_) fun _ _ h => h.elim
  obtain ⟨more, hcalls, hmore, hend⟩ := hdone
  have hok : (∀ d leaf, .unlink d leaf false ∉ t'.2) →
      ∀ leaf ok, .unlink dir leaf ok ∈ more → ok = true := by
    intro hall leaf ok hmem
    cases ok with
    | true => rfl
    | false => exact absurd (hcalls ▸ List.mem_append_right _ hmem) (hall dir leaf)
  refine ⟨fun hall => (hend (hok hall) h.made).1, fun c hc => ?_, fun hall => ?_⟩
  · rw [hcalls] at hc
    obtain ⟨target, hmem, hplace⟩ :
        ∃ target ∈ t.2, files.place c = files.dir dir ++ [target.leaf] := by
      rcases List.mem_append.1 hc with hc | hc
      · exact h.calls c hc
      · obtain ⟨target, hmem, ok, rfl⟩ := hmore c hc
        exact ⟨target, hmem, rfl⟩
    rw [hplace]
    exact h.made.fresh target hmem
  · have hattempted : Attempted generate t'.2 ↔ Attempted generate t.1.2 := by
      rw [hcalls]
      simp only [Attempted, List.mem_append]
      refine exists_congr fun key => exists_congr fun file => and_congr_right fun _ => ?_
      refine or_iff_left fun hmem => ?_
      obtain ⟨target, -, ok, heq⟩ := hmore _ hmem
      cases heq
    rw [hattempted, h.attempted, (hend (hok hall) h.made).2]
    cases hwritten : failure.keyWritten with
    | true =>
      rw [if_pos rfl]
      exact iff_of_true (List.suffix_append _ _) rfl
    | false =>
      rw [if_neg (by decide)]
      exact iff_of_false (fun hnotice => not_quiet_of_notice hnotice (hquiet hwritten)) (by decide)

theorem ensures_run (laws : files.Lawful K) (htext : ∀ e, Quiet (K.errorText e)) {path : Bytes} :
    (run K.traced path generate).Ensures (s, []) (fun _ _ => True) (NoTrace files generate s) := by
  have hquiet : ∀ {x y : Text} {e : E}, Quiet y → y ≠ [] → Quiet (x ++ y ++ K.errorText e) :=
    fun hy hne => (hy.append_left hne).append (htext _)
  have hnone : Untouched files (s, []) (s, []) := ⟨rfl, rfl⟩
  simp only [run, ensures_bind]
  cases hsplit : split K.traced path with
  | error text =>
    refine hnone.noTrace ?_
    simp only [split] at hsplit
    split_ifs at hsplit
    cases hsplit
    exact Quiet.append_left (by decide) (by decide)
  | ok parts =>
    refine (ensures_quiet (laws.canonicalize parts.1)
      (fun e => hquiet (by decide) (by decide)) hnone).mono (fun parent t₁ h₁ => ?_)
      fun _ _ h => h.1.noTrace h.2
    refine (ensures_quiet (laws.openDir parent)
      (fun e => hquiet (by decide) (by decide)) h₁).mono (fun dir t₂ h₂ => ?_)
      fun _ _ h => h.1.noTrace h.2
    refine (ensures_checkDirectory laws htext h₂).mono (fun _ t₃ h₃ => ?_)
      fun _ _ h => h.1.noTrace h.2
    rw [ensures_orRemove]
    refine (ensures_writePair laws rfl htext ?_).mono (fun _ _ _ => trivial)
      fun failure t h => h.ensures_removeCreated laws
    refine ⟨⟨fun p _ => ?_, List.forall_mem_nil _⟩, List.forall_mem_nil _, fun c hc => ?_,
      fun d leaf ok hc => ?_, ?_⟩
    · exact congrFun (Files.Same.node_eq h₃.1) p
    · rw [h₃.2] at hc
      cases hc
    · rw [h₃.2] at hc
      cases hc
    · rw [h₃.2]
      simp [Attempted]

/-- A keygen that fails leaves the files as they were, if it could remove what it created. It
opened, changed and removed nothing that was there before, and its error says that the key may
have reached the disk exactly when it had begun to write it. -/
theorem keygen_leaves_no_trace (laws : files.Lawful K) (htext : ∀ e, Quiet (K.errorText e))
    {path : Bytes} {s' : κ} {calls : List (Call D F)} {text : Text}
    (hrun : run K.traced path generate (s, []) = (.error text, (s', calls))) :
    ((∀ dir leaf, .unlink dir leaf false ∉ calls) → files.tree s' = files.tree s) ∧
      (∀ c ∈ calls, files.node s (files.place c) = none) ∧
      ((∀ dir leaf, .unlink dir leaf false ∉ calls) →
        (keyNotice <:+ text ↔ Attempted generate calls)) := by
  have hend := (ensures_run laws htext).of_error hrun
  exact ⟨hend.tree, hend.calls, hend.notice⟩

/-- The run for the file `/k` that gets no random numbers. -/
def runWithoutRandom : Except Text Text × Tree × List (Call Place Place) :=
  run (treeKernel rootWalker 0o022 0).traced [0x6b] (.error .mk) (emptyTree, [])

theorem keygen_leaves_no_trace_without_random :
    runWithoutRandom.1 =
        .error (RngError.mk.text ++ "; no key was written".toList) ∧
      runWithoutRandom.2.1 = emptyTree ∧
      runWithoutRandom.2.2 = [.opened [] [0x6b], .opened [] ([0x6b] ++ pubSuffix), .chmod [[0x6b]],
        .chmod [[0x6b] ++ pubSuffix], .unlink [] [0x6b] true,
        .unlink [] ([0x6b] ++ pubSuffix) true] := by
  have hcalls : runWithoutRandom.2.2 = [.opened [] [0x6b], .opened [] ([0x6b] ++ pubSuffix),
      .chmod [[0x6b]], .chmod [[0x6b] ++ pubSuffix], .unlink [] [0x6b] true,
      .unlink [] ([0x6b] ++ pubSuffix) true] := rfl
  have htext : ∀ e : Errno, Quiet e.text := by
    intro e
    cases e <;> decide
  refine ⟨rfl, ?_, hcalls⟩
  have hrun : runWithoutRandom = (.error (RngError.mk.text ++ "; no key was written".toList),
      (runWithoutRandom.2.1, runWithoutRandom.2.2)) := rfl
  exact (keygen_leaves_no_trace treeFiles_lawful htext hrun).1 (by simp [hcalls])

end Run

end QuantumSsh.Keygen
