import QuantumSsh.Sftp.Store

/-!
# The server is a store

On a kernel whose files hold what was written to them, every request is answered by a right
exchange: what `sftp.rs` does to its handles and to the kernel is a step of the store that it
shows. A session is then a run of right exchanges, and it transfers files exactly.
-/

namespace QuantumSsh.Sftp

open Wire Program

variable {κ F E I : Type}

/-! ### Kernels that hold what is written -/

/-- The program leaves what the files hold, whether it returns or fails. -/
abbrev Holds {α : Type} (content : κ → I → Bytes) (p : Prog κ IoError α) : Prop :=
  p.Within (fun s s' => content s' = content s) fun s s' => content s' = content s

/-- The open files are regular ones, `node` says which, and nobody else writes to them. A file
that is new holds nothing. Only files open for it append, and only the others are written at
an offset. -/
structure Kernel.Stores [DecidableEq I] (K : Kernel κ F E) (node : F → I) (appends : F → Bool)
    (content : κ → I → Bytes) : Prop where
  «open» : ∀ path flags mode s, (K.open path flags mode).Ensures s
    (fun file s' => appends file = flags.append ∧
      content s' = if flags.trunc then edited (content s) (node file) (.resize 0) else content s)
    fun _ s' => content s' = content s
  close : ∀ file s, content (K.close file s) = content s
  readAt : ∀ file len offset s, (K.readAt file len offset).Ensures s
    (fun data s' => content s' = content s ∧ data.1 <+: (content s (node file)).drop offset ∧
      (len ≠ 0 → data.1 = [] → (content s (node file)).length ≤ offset))
    fun _ s' => content s' = content s
  writeAt : ∀ file data offset s, appends file = false → (K.writeAt file data offset).Ensures s
    (fun n s' => content s' = edited (content s) (node file) (.write (some offset, data.take n)))
    fun _ s' => content s' = content s
  write : ∀ file data s, appends file = true → (K.write file data).Ensures s
    (fun n s' => content s' = edited (content s) (node file) (.write (none, data.take n)))
    fun _ s' => content s' = content s
  setLen : ∀ file size s, (K.setLen file size).Ensures s
    (fun _ s' => content s' = edited (content s) (node file) (.resize size))
    fun _ s' => content s' = content s
  metadata : ∀ file, Holds content (K.metadata file)
  syncData : ∀ file, Holds content (K.syncData file)
  syncAll : ∀ file, Holds content (K.syncAll file)
  fchown : ∀ file uid gid, Holds content (K.fchown file uid gid)
  fchmod : ∀ file mode, Holds content (K.fchmod file mode)
  futimens : ∀ file atime mtime, Holds content (K.futimens file atime mtime)
  readDir : ∀ path, Holds content (K.readDir path)
  entryMetadata : ∀ entry, Holds content (K.entryMetadata entry)
  stat : ∀ path, Holds content (K.stat path)
  lstat : ∀ path, Holds content (K.lstat path)
  chown : ∀ path uid gid, Holds content (K.chown path uid gid)
  chmod : ∀ path mode, Holds content (K.chmod path mode)
  utimens : ∀ path atime mtime, Holds content (K.utimens path atime mtime)
  removeFile : ∀ path, Holds content (K.removeFile path)
  createDir : ∀ path mode, Holds content (K.createDir path mode)
  removeDir : ∀ path, Holds content (K.removeDir path)
  readLink : ∀ path, Holds content (K.readLink path)
  hardLink : ∀ old new, Holds content (K.hardLink old new)
  rename : ∀ old new, Holds content (K.rename old new)
  symlink : ∀ target link, Holds content (K.symlink target link)

/-! ### The store that a session shows -/

/-- What a handle stands for. -/
def Handle.opened (node : F → I) : Handle F E → Opened I
  | .file f append _ => .file (node f) append
  | .dir _ => .dir

def Server.view (node : F → I) (content : κ → I → Bytes) (s : Server κ F E) : Store I where
  content := content s.fs
  opened := fun i => (slot s.handles i).map (Handle.opened node)

/-- Every handle knows whether its file appends. -/
structure Server.Sound (appends : F → Bool) (s : Server κ F E) : Prop where
  capped : s.handles.length ≤ maxHandles
  append : ∀ i file append written,
    slot s.handles i = some (.file file append written) → append = appends file

/-- What was done for a request is a right exchange. -/
def Moves [DecidableEq I] (node : F → I) (content : κ → I → Bytes) (id : ℕ) (q : Request)
    (s : Server κ F E) (result : Bytes × Server κ F E) : Prop :=
  ∃ file edit, Step (s.view node content) { id, request := q, reply := result.1, file, edit }
    (result.2.view node content)

/-! ### Programs that leave the files alone -/

section

variable {α β : Type} {content : κ → I → Bytes} {s : κ}

theorem holds_iff {p : Prog κ IoError α} : Holds content p ↔ ∀ s, content (p s).2 = content s := by
  refine forall_congr' fun s => ?_
  unfold Prog.Ensures
  rcases p s with ⟨_ | _, _⟩
  · rfl
  · rfl

theorem Holds.run {p : Prog κ IoError α} (h : Holds content p) (s : κ) :
    content (p s).2 = content s :=
  holds_iff.1 h s

theorem Holds.bind {p : Prog κ IoError α} {f : α → Prog κ IoError β} (hp : Holds content p)
    (hf : ∀ a, Holds content (f a)) : Holds content (p >>= f) :=
  Prog.Within.bind hp hf (fun _ _ _ h h' => h'.trans h) fun _ _ _ h h' => h'.trans h

theorem holds_pure (a : α) : Holds content (pure a : Prog κ IoError α) := fun _ => rfl

theorem holds_fail (e : IoError) : Holds content (fail e : Prog κ IoError α) := fun _ => rfl

theorem holds_ofExcept (result : Except IoError α) : Holds content (ofExcept result) := by
  intro s
  cases result with
  | ok _ => exact rfl
  | error _ => exact rfl

theorem Holds.reified {p : Prog κ IoError α} (h : Holds content p) :
    Holds content (reified p) := by
  intro s
  rw [ensures_reified]
  exact h s

theorem Holds.attempt {p : Prog κ IoError α} (h : Holds content p) : Holds content (attempt p) := by
  intro s
  rw [ensures_attempt]
  exact h s

theorem holds_whenSome {value : Option α} {set : α → Prog κ IoError Unit}
    (h : ∀ v, Holds content (set v)) : Holds content (whenSome value set) := by
  cases value with
  | none => exact holds_pure ()
  | some v => exact h v

theorem Holds.ite {c : Prop} [Decidable c] {p p' : Prog κ IoError α} (h : Holds content p)
    (h' : Holds content p') : Holds content (if c then p else p') := by
  by_cases hc : c
  · rwa [if_pos hc]
  · rwa [if_neg hc]

end

section

variable [DecidableEq I] {K : Kernel κ F E} {node : F → I} {appends : F → Bool}
  {content : κ → I → Bytes}

theorem holds_resolve (hstores : K.Stores node appends content) (links : ℕ)
    (resolved left : Bytes) : Holds content (resolve K links resolved left) := by
  refine holds_iff.2 fun s => ?_
  fun_induction resolve K links resolved left s with
  | case1 => rfl
  | case2 links resolved left s hleft token rest last htoken resolved' hskip ih => exact ih
  | case3 links resolved left s hleft rest last resolved' htoken hskip ih => exact ih
  | case4 links resolved left s hleft token rest last htoken resolved' _ _ resolved'' e s₁ hlstat
  | case5 links resolved left s hleft token rest last htoken resolved' _ _ resolved'' e s₁ hlstat
  | case6 links resolved left s hleft token rest last htoken resolved' _ _ resolved'' m s₁ hlstat =>
    have hsame := (hstores.lstat resolved'').run s
    rwa [hlstat] at hsame
  | case7 links resolved left s hleft token rest last htoken resolved' _ _ resolved'' m s₁ hlstat
      hlink hlinks e s₂ hread =>
    have hsame := (hstores.lstat resolved'').run s
    have hsame' := (hstores.readLink resolved'').run s₁
    rw [hlstat] at hsame
    rw [hread] at hsame'
    exact hsame'.trans hsame
  | case8 links resolved left s hleft token rest last htoken resolved' _ _ resolved'' m s₁ hlstat
      hlink hlinks target s₂ hread base ih =>
    have hsame := (hstores.lstat resolved'').run s
    have hsame' := (hstores.readLink resolved'').run s₁
    rw [hlstat] at hsame
    rw [hread] at hsame'
    exact ih.trans (hsame'.trans hsame)
  | case9 links resolved left s hleft token rest last htoken resolved' _ _ resolved'' m s₁ hlstat
      hlink ih =>
    have hsame := (hstores.lstat resolved'').run s
    rw [hlstat] at hsame
    exact ih.trans hsame

theorem holds_realpath (hstores : K.Stores node appends content) (path cwd : Bytes) :
    Holds content (realpath K path cwd) := by
  change Holds content (resolve K 0 _ _ >>= _)
  exact Holds.bind (holds_resolve hstores 0 _ _) fun resolved => holds_pure (trimmed resolved)

theorem holds_renameIfAbsent (hstores : K.Stores node appends content) (old new : Bytes) :
    Holds content (renameIfAbsent K old new) := by
  refine (hstores.lstat new).reified.bind fun found => ?_
  cases found with
  | ok _ => exact holds_fail _
  | error _ => exact hstores.rename old new

theorem holds_renameNoOverwrite (hstores : K.Stores node appends content) (old new : Bytes) :
    Holds content (renameNoOverwrite K old new) := by
  refine (hstores.lstat old).bind fun m => Holds.ite ?_ (holds_renameIfAbsent hstores old new)
  refine (hstores.hardLink old new).reified.bind fun linked => ?_
  cases linked with
  | ok _ =>
    refine (hstores.removeFile old).reified.bind fun removed => ?_
    cases removed with
    | ok _ => exact holds_pure ()
    | error e => exact (hstores.removeFile new).attempt.bind fun _ => holds_fail e
  | error e => exact Holds.ite (holds_renameIfAbsent hstores old new) (holds_fail e)

theorem holds_syncWritten (hstores : K.Stores node appends content) (file : F) :
    Holds content (syncWritten K file) :=
  (hstores.metadata file).bind fun _ => Holds.ite (hstores.syncData file) (holds_pure ())

theorem content_gather (hstores : K.Stores node appends content) (now : ℤ)
    (entries : List (Except IoError E)) (names : List Name) (size : ℕ) (s : κ) :
    content (gather K now entries names size s).2 = content s := by
  induction entries generalizing names size s with
  | nil => rfl
  | cons next entries ih =>
    unfold gather
    split
    · rfl
    · split
      · split
        · rfl
        · rfl
      next entry =>
        have hsame := (hstores.entryMetadata entry).run s
        split
        next e s' hmeta =>
          rw [hmeta] at hsame
          exact (ih ..).trans hsame
        next m s' hmeta =>
          rw [hmeta] at hsame
          dsimp only
          split
          · exact hsame
          · exact (ih ..).trans hsame

/-! ### Programs that change a file -/

/-- What resizes a file and then leaves the files alone has resized it when it returns; when it
fails, it may have. -/
theorem ensures_resized {α : Type} {p : Prog κ IoError Unit} {rest : Unit → Prog κ IoError α}
    {s : κ} {size : ℕ} {P : I → Prop}
    (hp : p.Ensures s (fun _ s' => ∃ f, P f ∧ content s' = edited (content s) f (.resize size))
      fun _ s' => content s' = content s)
    (hrest : ∀ u, Holds content (rest u)) :
    (p >>= rest).Ensures s (fun _ s' => ∃ f, P f ∧ content s' = edited (content s) f (.resize size))
      fun _ s' => content s' = content s ∨
        ∃ f, P f ∧ content s' = edited (content s) f (.resize size) := by
  rw [ensures_bind]
  refine hp.mono ?_ fun _ _ h => .inl h
  rintro u s₁ ⟨f, hf, hedited⟩
  refine (hrest u s₁).mono (fun _ s' hsame => ⟨f, hf, hsame.trans hedited⟩) fun _ s' hsame => ?_
  exact .inr ⟨f, hf, hsame.trans hedited⟩

theorem ensures_truncatePath (hstores : K.Stores node appends content) (path : Bytes) (size : ℕ)
    (s : κ) :
    (truncatePath K path size).Ensures s
      (fun _ s' => ∃ f : I, True ∧ content s' = edited (content s) f (.resize size))
      fun _ s' => content s' = content s := by
  unfold truncatePath
  rw [ensures_bind]
  refine (hstores.open path _ _ s).mono ?_ fun _ _ h => h
  rintro file s₁ ⟨-, hopened⟩
  have hsame : content s₁ = content s := hopened
  rw [ensures_bind, ensures_reified]
  refine (hstores.setLen file size s₁).mono (fun u s₂ hset => ?_) fun e s₂ hset => ?_
  · rw [ensures_bind, ensures_update]
    refine ⟨node file, trivial, ?_⟩
    rw [hstores.close, hset, hsame]
  · rw [ensures_bind, ensures_update]
    change content _ = _
    rw [hstores.close, hset, hsame]

/-- A write that edits nothing. -/
theorem edited_nil (c : I → Bytes) (f : I) (offset : Option ℕ) :
    edited c f (.write (offset, [])) = c := by
  have hsame : Edit.apply (c f) (.write (offset, [])) = c f := by
    cases offset with
    | none => exact List.append_nil _
    | some _ => rfl
  rw [edited, hsame, Function.update_eq_self]

/-- Two writes of which the second starts where the first ends are one edit. -/
theorem edited_edited (c : I → Bytes) (f : I) (offset : Option ℕ) (front back : Bytes) :
    edited (edited c f (.write (offset, front))) f (.write (offset.map (· + front.length), back)) =
      edited c f (.write (offset, front ++ back)) := by
  unfold edited
  rw [Function.update_self, Function.update_idem]
  congr 1
  exact Piece.apply_apply (c f) front back offset

/-- One write of the loop, at its place. -/
theorem ensures_writeOnce (hstores : K.Stores node appends content) {file : F} (rest : Bytes)
    {offset : Option ℕ} (hoffset : appends file = offset.isNone) (done : ℕ) (s : κ) :
    (writeOnce K file rest offset done).Ensures s
      (fun n s' => content s' =
        edited (content s) (node file) (.write (offset.map (· + done), rest.take n)))
      fun _ s' => content s' = content s := by
  unfold writeOnce
  cases offset with
  | none => exact hstores.write file rest s hoffset
  | some start => exact ensures_ite (fun _ => hstores.writeAt file rest _ s hoffset) fun _ => rfl

/-- `write_tracked` makes one edit: all of the data when it returns, a part of it otherwise. -/
theorem writeTracked_edits (hstores : K.Stores node appends content) {file : F} (rest : Bytes)
    {offset : Option ℕ} (hoffset : appends file = offset.isNone) (done : ℕ) (written : Bool)
    (s : κ) :
    ∃ data, content (writeTracked K file rest offset done written s).2 =
        edited (content s) (node file) (.write (offset.map (· + done), data)) ∧ data <+: rest ∧
      ((writeTracked K file rest offset done written s).1.1 = .ok () → data = rest) := by
  fun_induction writeTracked K file rest offset done written s with
  | case1 done written s =>
    exact ⟨[], (edited_nil ..).symm, List.nil_prefix, fun _ => rfl⟩
  | case2 rest done written s hrest hle s' hwrite =>
    have hround := (ensures_writeOnce hstores rest hoffset done s).of_ok hwrite
    exact ⟨[], hround, List.nil_prefix, fun h => by cases h⟩
  | case3 rest done written s hrest n hle s' hwrite ih =>
    have hround := (ensures_writeOnce hstores rest hoffset done s).of_ok hwrite
    obtain ⟨data, hedited, hpart, hwhole⟩ := ih
    have hlen : (rest.take (n + 1)).length = n + 1 := by
      rw [List.length_take]
      omega
    have hplace : offset.map (· + (done + (n + 1))) =
        (offset.map (· + done)).map (· + (rest.take (n + 1)).length) := by
      rw [hlen, Option.map_map]
      congr 1
      funext start
      exact (Nat.add_assoc ..).symm
    refine ⟨rest.take (n + 1) ++ data, ?_, ?_, fun hok => ?_⟩
    · rw [hedited, hround, hplace]
      exact edited_edited ..
    · have hfront := (List.prefix_append_right_inj (rest.take (n + 1))).2 hpart
      rwa [List.take_append_drop] at hfront
    · rw [hwhole hok, List.take_append_drop]
  | case4 rest done written s hrest e s' hwrite hkind ih =>
    have hround := (ensures_writeOnce hstores rest hoffset done s).of_error hwrite
    rwa [hround] at ih
  | case5 rest done written s hrest e s' hwrite hkind =>
    have hround := (ensures_writeOnce hstores rest hoffset done s).of_error hwrite
    exact ⟨[], hround.trans (edited_nil ..).symm, List.nil_prefix, fun h => by cases h⟩

end

/-! ### Requests as exchanges -/

section

variable [DecidableEq I] {K : Kernel κ F E} {node : F → I} {appends : F → Bool}
  {content : κ → I → Bytes} {cwd raw : Bytes} {id i code size : ℕ} {s : Server κ F E} {q : Request}
  {fs : κ} {handle : Handle F E} {file : F} {append written : Bool}

theorem errorCode_mem (e : IoError) : errorCode e ∈ refusals := by
  unfold errorCode
  split
  · decide
  · decide
  · decide

theorem statusOf_ok {result : Except IoError Unit} (h : statusOf id result = statusReply id fxOk) :
    result = .ok () := by
  cases result with
  | ok u => rfl
  | error e =>
    have hrefused : ∀ code ∈ refusals, code < 2 ^ 32 ∧ code ≠ fxOk := by decide
    obtain ⟨hlt, hne⟩ := hrefused _ (errorCode_mem e)
    exact absurd (statusReply_inj hlt (by decide) h) hne

omit [DecidableEq I] in
theorem view_opened (h : slot s.handles i = some handle) :
    (s.view node content).opened i = some (handle.opened node) :=
  congrArg (Option.map (Handle.opened node)) h

omit [DecidableEq I] in
theorem view_opened_none (h : slot s.handles i = none) : (s.view node content).opened i = none :=
  congrArg (Option.map (Handle.opened node)) h

omit [DecidableEq I] in
theorem view_fs (h : content fs = content s.fs) :
    Server.view node content { s with fs } = s.view node content :=
  Store.ext h rfl

omit [DecidableEq I] in
/-- A table that differs in one slot. -/
theorem view_slot {handles : List (Option (Handle F E))} {x : Option (Handle F E)}
    (hslot : slot handles i = x) (hothers : ∀ j, j ≠ i → slot handles j = slot s.handles j) :
    Server.view node content { handles, fs } =
      (Server.view node content { s with fs }).bind i (x.map (Handle.opened node)) := by
  refine Store.ext rfl ?_
  funext j
  by_cases hj : j = i
  · subst hj
    rw [Store.bind_opened_self, ← hslot]
    rfl
  · rw [Store.bind_opened_ne _ _ hj]
    exact congrArg (Option.map (Handle.opened node)) (hothers j hj)

omit [DecidableEq I] in
theorem view_set {x : Option (Handle F E)} (hi : i < s.handles.length) :
    Server.view node content { handles := s.handles.set i x, fs } =
      (Server.view node content { s with fs }).bind i (x.map (Handle.opened node)) :=
  view_slot (slot_set_self hi) fun _ hj => slot_set_ne hj

omit [DecidableEq I] in
theorem names_of_handleOf (h : s.handleOf raw = some (i, handle)) :
    (s.view node content).Names raw (handle.opened node) := by
  obtain ⟨hlen, rfl, hslot⟩ := handleOf_eq_some.1 h
  exact ⟨hlen, view_opened hslot⟩

theorem moves_refused (hcode : code ∈ refusals) (h : content fs = content s.fs) :
    Moves node content id q s (statusReply id code, { s with fs }) := by
  refine ⟨none, none, ?_⟩
  rw [view_fs h]
  exact .refused hcode

theorem moves_quiet {result : Bytes × Server κ F E} (hq : q.IsQuiet)
    (h : result.2.view node content = s.view node content) :
    Moves node content id q s result := by
  refine ⟨none, none, ?_⟩
  rw [h]
  exact .quiet hq

/-- A request that is one program, and leaves the files alone. -/
theorem moves_sys {α : Type} {p : Prog κ IoError α} (hq : q.IsQuiet) (hp : Holds content p)
    (reply : Except IoError α → Bytes) :
    Moves node content id q s (reply (p s.fs).1, { s with fs := (p s.fs).2 }) :=
  moves_quiet hq (view_fs (hp.run s.fs))

/-- A request that resizes a file. -/
theorem moves_resize {p : Prog κ IoError Unit} {P : I → Prop}
    (hp : p.Ensures s.fs
      (fun _ s' => ∃ f, P f ∧ content s' = edited (content s.fs) f (.resize size))
      fun _ s' => content s' = content s.fs ∨
        ∃ f, P f ∧ content s' = edited (content s.fs) f (.resize size))
    (hstep : ∀ f, P f → ∀ reply, Step (s.view node content)
      { id, request := q, reply, file := some f, edit := some (.resize size) }
      ((s.view node content).edit f (.resize size))) :
    Moves node content id q s (statusOf id (p s.fs).1, { s with fs := (p s.fs).2 }) := by
  unfold Prog.Ensures at hp
  have hresized : ∀ f fs, P f → content fs = edited (content s.fs) f (.resize size) →
      ∀ reply, Moves node content id q s (reply, { s with fs }) := by
    intro f fs hf hedited reply
    refine ⟨some f, some (.resize size), ?_⟩
    have hview : Server.view node content { s with fs } =
        (s.view node content).edit f (.resize size) := Store.ext hedited rfl
    rw [hview]
    exact hstep f hf reply
  rcases hrun : p s.fs with ⟨e | u, fs⟩
  · rw [hrun] at hp
    obtain hsame | ⟨f, hf, hedited⟩ := hp
    · exact moves_refused (errorCode_mem e) hsame
    · exact hresized f fs hf hedited _
  · rw [hrun] at hp
    obtain ⟨f, hf, hedited⟩ := hp
    exact hresized f fs hf hedited _

/-- A request with a handle that is not of its kind. -/
theorem moves_failure : Moves node content id q s (statusReply id fxFailure, s) :=
  moves_refused (by decide) rfl

/-- OPEN and OPENDIR, by what they open. -/
theorem moves_opens {p : Prog κ IoError (Handle F E)} {result : Bytes × Server κ F E}
    (h : Opens s id p (.ok result.1, result.2))
    (hp : p.Ensures s.fs
      (fun opened fs => ∀ i, i < maxHandles → (s.view node content).opened i = none →
        ∃ file edit, Step (s.view node content)
          { id, request := q, reply := handleReply id i, file, edit }
          ((Server.view node content { s with fs }).bind i (some (opened.opened node))))
      fun _ fs => content fs = content s.fs) :
    Moves node content id q s result := by
  obtain ⟨reply, s'⟩ := result
  unfold Opens at h
  unfold Prog.Ensures at hp
  split at h
  next =>
    split at h
    next e fs hrun =>
      rw [hrun] at hp
      cases h
      exact moves_refused (errorCode_mem e) hp
    next opened fs hrun =>
      rw [hrun] at hp
      obtain ⟨i, handles, heq, hi, hfree, hslot, hothers⟩ := h
      cases heq
      obtain ⟨file, edit, hstep⟩ := hp i hi (view_opened_none hfree)
      refine ⟨file, edit, ?_⟩
      rw [view_slot hslot hothers]
      exact hstep
  next =>
    cases h
    exact moves_failure

/-- OPEN opens a file, and holds it empty if it was to. -/
theorem moves_open (hstores : K.Stores node appends content) (hsound : s.Sound appends)
    {path : Bytes} {pflags : ℕ} {attrs : SetAttrs} :
    Moves node content id (.open path pflags attrs) s
      (perform K cwd id (.open path pflags attrs) s) := by
  refine moves_opens (opens_opening hsound.capped) ?_
  change Prog.Ensures (K.open (orDot path) (openFlags pflags) _ >>= _) ..
  rw [ensures_bind]
  refine (hstores.open _ _ _ _).mono (fun file fs h i hi hfree => ?_) fun _ _ h => h
  obtain ⟨-, hcontent⟩ := h
  by_cases htrunc : pflags &&& openTrunc ≠ 0
  · have hflag : (openFlags pflags).trunc = true := decide_eq_true htrunc
    rw [hflag, if_pos rfl] at hcontent
    have hview : Server.view node content { s with fs } =
        (s.view node content).edit (node file) (.resize 0) := Store.ext hcontent rfl
    refine ⟨some (node file), some (.resize 0), ?_⟩
    rw [hview]
    exact .truncates hi hfree htrunc
  · have hflag : (openFlags pflags).trunc = false := decide_eq_false htrunc
    rw [hflag] at hcontent
    refine ⟨some (node file), none, ?_⟩
    rw [view_fs hcontent]
    exact .opens hi hfree (not_not.1 htrunc)

theorem moves_opendir (hstores : K.Stores node appends content) (hsound : s.Sound appends)
    {path : Bytes} :
    Moves node content id (.opendir path) s (perform K cwd id (.opendir path) s) := by
  refine moves_opens (opens_opening hsound.capped) ?_
  change Prog.Ensures (K.readDir _ >>= _) ..
  rw [ensures_bind]
  refine (hstores.readDir _ _).mono (fun entries fs h i hi hfree => ?_) fun _ _ h => h
  refine ⟨none, none, ?_⟩
  rw [view_fs h]
  exact .opensDir hi hfree

/-- CLOSE closes, and the files hold what they held. -/
theorem moves_close (hstores : K.Stores node appends content)
    (hof : s.handleOf raw = some (i, handle)) :
    Moves node content id (.close raw) s (closeWork K id (some (i, handle)) s) := by
  have hslot := (handleOf_eq_some.1 hof).2.2
  have hindex := (handleOf_eq_some.1 hof).2.1
  have hclosed : ∀ reply fs, content fs = content s.fs →
      Moves node content id (.close raw) s (reply, { handles := s.handles.set i none, fs }) := by
    intro reply fs hsame
    refine ⟨none, none, ?_⟩
    rw [view_set (slot_lt hslot), view_fs hsame, ← hindex]
    exact .closes (names_of_handleOf hof)
  cases handle with
  | dir entries => exact hclosed _ _ rfl
  | file file append written =>
    cases written with
    | false => exact hclosed _ _ (hstores.close file s.fs)
    | true =>
      exact hclosed _ _ ((hstores.close file _).trans ((holds_syncWritten hstores file).run s.fs))

theorem moves_read (hstores : K.Stores node appends content) {offset len : ℕ}
    (hof : s.handleOf raw = some (i, .file file append written)) :
    Moves node content id (.read raw offset len) s (perform K cwd id (.read raw offset len) s) := by
  have hnames : (s.view node content).Names raw (.file (node file) append) := names_of_handleOf hof
  have hread := hstores.readAt file (min len maxData) offset s.fs
  unfold Prog.Ensures at hread
  rcases hrun : K.readAt file (min len maxData) offset s.fs with ⟨e | data, fs⟩
  · rw [hrun] at hread
    have hperform : perform K cwd id (.read raw offset len) s =
        readWork K id offset len (some (i, .file file append written)) s := by
      rw [← hof]
      rfl
    rw [hperform]
    simp only [readWork, onFile, sys_bind, hrun]
    exact moves_refused (errorCode_mem e) hread
  · rw [hrun] at hread
    obtain ⟨hsame, hpart, hend⟩ := hread
    rw [perform_read hof hrun]
    refine ⟨some (node file), none, ?_⟩
    rw [view_fs hsame]
    by_cases hnil : data.1 = []
    · rw [if_pos hnil]
      refine .ends hnames ?_
      by_cases hlen : len = 0
      · exact .inl hlen
      · refine .inr (hend ?_ hnil)
        rw [maxData]
        omega
    · rw [if_neg hnil]
      exact .reads hnames hnil data.2 hpart

theorem moves_write (hstores : K.Stores node appends content) (hsound : s.Sound appends)
    {offset : ℕ} {data : Bytes} (hof : s.handleOf raw = some (i, .file file append written)) :
    Moves node content id (.write raw offset data) s
      (writeWork K id offset data (some (i, .file file append written)) s) := by
  have hslot := (handleOf_eq_some.1 hof).2.2
  have hopened : (s.view node content).opened i = some (.file (node file) append) :=
    view_opened hslot
  have happend := hsound.append i file append written hslot
  have hoffset : appends file = (if append then none else some offset : Option ℕ).isNone := by
    rw [← happend]
    cases append with
    | false => rfl
    | true => rfl
  obtain ⟨done, hedited, hpart, hwhole⟩ := writeTracked_edits hstores data hoffset 0 written s.fs
  have hplace : (if append then none else some offset : Option ℕ).map (· + 0) =
      if append then none else some offset := by
    cases append with
    | false => rfl
    | true => rfl
  rw [hplace] at hedited
  refine ⟨some (node file),
    some (.write (if append then none else some offset, done)), ?_⟩
  change Step _ _ (Server.view node content { handles := s.handles.set i _, fs := _ })
  rw [view_set (slot_lt hslot)]
  have hview : (Server.view node content { s with fs := (writeTracked K file data
      (if append then none else some offset) 0 written s.fs).2 }).bind i
        (some (.file (node file) append)) =
      (s.view node content).edit (node file)
        (.write (if append then none else some offset, done)) := by
    rw [Store.bind_eq_self]
    · exact Store.ext hedited rfl
    · exact hopened
  change Step _ _ (Store.bind _ i (some (.file (node file) append)))
  rw [hview]
  exact .writes (names_of_handleOf hof) hpart fun hok => hwhole (statusOf_ok hok)

theorem holds_setstat (hstores : K.Stores node appends content) (path : Bytes) {attrs : SetAttrs}
    (hsize : attrs.size = none) : Holds content (setstat K path attrs) := by
  unfold setstat
  rw [hsize]
  refine Holds.bind (holds_pure ()) fun _ => ?_
  refine Holds.bind (holds_whenSome fun owner => hstores.chown path owner.1 owner.2) fun _ => ?_
  refine Holds.bind (holds_whenSome fun perm => hstores.chmod path _) fun _ => ?_
  exact holds_whenSome fun times => hstores.utimens path times.1 times.2

theorem holds_fsetstat (hstores : K.Stores node appends content) (file : F) {attrs : SetAttrs}
    (hsize : attrs.size = none) : Holds content (fsetstat K file attrs) := by
  unfold fsetstat
  rw [hsize]
  refine Holds.bind (holds_pure ()) fun _ => ?_
  refine Holds.bind (holds_whenSome fun owner => hstores.fchown file owner.1 owner.2) fun _ => ?_
  refine Holds.bind (holds_whenSome fun perm => hstores.fchmod file _) fun _ => ?_
  exact holds_whenSome fun times => hstores.futimens file times.1 times.2

/-- SETSTAT resizes a file when a size is set; the rest leaves the files alone. -/
theorem moves_setstat (hstores : K.Stores node appends content) {path : Bytes} {attrs : SetAttrs} :
    Moves node content id (.setstat path attrs) s (perform K cwd id (.setstat path attrs) s) := by
  cases hsize : attrs.size with
  | none =>
    have hquiet : Request.IsQuiet (.setstat path attrs) := hsize
    exact moves_sys hquiet (holds_setstat hstores (orDot path) hsize) (statusOf id)
  | some size =>
    have hrest : Holds content (setstat K (orDot path) { attrs with size := none }) :=
      holds_setstat hstores (orDot path) rfl
    have hset := ensures_resized (ensures_truncatePath hstores (orDot path) size s.fs)
      fun _ => hrest
    have heq : setstat K (orDot path) attrs = truncatePath K (orDot path) size >>= fun _ =>
        setstat K (orDot path) { attrs with size := none } := by
      unfold setstat
      rw [hsize]
      rfl
    rw [← heq] at hset
    exact moves_resize hset fun f _ reply => .resizes hsize

/-- FSETSTAT resizes the file of its handle. -/
theorem moves_fsetstat (hstores : K.Stores node appends content) {attrs : SetAttrs}
    (hof : s.handleOf raw = some (i, .file file append written)) :
    Moves node content id (.fsetstat raw attrs) s
      (fsetstatWork K id attrs (some (i, .file file append written)) s) := by
  cases hsize : attrs.size with
  | none =>
    have hquiet : Request.IsQuiet (.fsetstat raw attrs) := hsize
    exact moves_sys hquiet (holds_fsetstat hstores file hsize) (statusOf id)
  | some size =>
    have hlen : (K.setLen file size).Ensures s.fs
        (fun _ s' => ∃ f, f = node file ∧ content s' = edited (content s.fs) f (.resize size))
        fun _ s' => content s' = content s.fs :=
      (hstores.setLen file size s.fs).mono (fun _ _ h => ⟨node file, rfl, h⟩) fun _ _ h => h
    have hrest : Holds content (fsetstat K file { attrs with size := none }) :=
      holds_fsetstat hstores file rfl
    have hset := ensures_resized hlen fun _ => hrest
    have heq : fsetstat K file attrs = K.setLen file size >>= fun _ =>
        fsetstat K file { attrs with size := none } := by
      unfold fsetstat
      rw [hsize]
      rfl
    rw [← heq] at hset
    refine moves_resize hset fun f hf reply => ?_
    subst hf
    exact .resizesOpen (names_of_handleOf hof) hsize

/-- A listing looks at entries only. -/
theorem moves_readdir (hstores : K.Stores node appends content) {entries : List (Except IoError E)}
    (hof : s.handleOf raw = some (i, .dir entries)) :
    Moves node content id (.readdir raw) s (readdirWork K id (some (i, .dir entries)) s) := by
  have hslot := (handleOf_eq_some.1 hof).2.2
  have hopened : (s.view node content).opened i = some .dir := view_opened hslot
  refine moves_quiet trivial ?_
  change Server.view node content { handles := s.handles.set i _, fs := _ } = _
  rw [view_set (slot_lt hslot), view_fs (content_gather hstores ..)]
  exact Store.bind_eq_self hopened

/-- A request with an open handle. -/
theorem moves_named (hstores : K.Stores node appends content) (hsound : s.Sound appends)
    (hnames : q.names = some raw) (hof : s.handleOf raw = some (i, handle)) :
    Moves node content id q s (perform K cwd id q s) := by
  have hnamed : ∀ work : Option (ℕ × Handle F E) → Work κ F E Bytes,
      Moves node content id q s (work (some (i, handle)) s) →
        Moves node content id q s (named raw work s) := by
    intro work h
    change Moves node content id q s (work (s.handleOf raw) s)
    rwa [hof]
  cases q with
  | close =>
    cases hnames
    exact hnamed _ (moves_close hstores hof)
  | read handle' offset len =>
    cases hnames
    cases handle with
    | file file append written => exact moves_read hstores hof
    | dir entries => exact hnamed _ moves_failure
  | write handle' offset data =>
    cases hnames
    cases handle with
    | file file append written => exact hnamed _ (moves_write hstores hsound hof)
    | dir entries => exact hnamed _ moves_failure
  | fstat =>
    cases hnames
    cases handle with
    | file file append written =>
      exact hnamed _ (moves_sys (by trivial) (hstores.metadata file) (attrsOf id))
    | dir entries => exact hnamed _ moves_failure
  | fsetstat handle' attrs =>
    cases hnames
    cases handle with
    | file file append written => exact hnamed _ (moves_fsetstat hstores hof)
    | dir entries => exact hnamed _ moves_failure
  | readdir =>
    cases hnames
    cases handle with
    | file file append written => exact hnamed _ moves_failure
    | dir entries => exact hnamed _ (moves_readdir hstores hof)
  | fsync =>
    cases hnames
    cases handle with
    | file file append written =>
      exact hnamed _ (moves_sys (by trivial) (hstores.syncAll file) (statusOf id))
    | dir entries => exact hnamed _ moves_failure
  | _ => cases hnames

/-- Every request is answered by a right exchange. -/
theorem perform_moves (hstores : K.Stores node appends content) (hsound : s.Sound appends) :
    Moves node content id q s (perform K cwd id q s) := by
  cases hnames : q.names with
  | some raw =>
    cases hof : s.handleOf raw with
    | none =>
      rw [perform_refused hnames hof]
      exact moves_failure
    | some v => exact moves_named hstores hsound hnames (show _ = some (v.1, v.2) from hof)
  | none =>
    cases q with
    | «open» => exact moves_open hstores hsound
    | opendir => exact moves_opendir hstores hsound
    | setstat => exact moves_setstat hstores
    | stat path follow =>
      have hstat : Holds content (if follow then K.stat (orDot path) else K.lstat (orDot path)) :=
        Holds.ite (hstores.stat _) (hstores.lstat _)
      exact moves_sys (by trivial) hstat (attrsOf id)
    | remove => exact moves_sys (by trivial) (hstores.removeFile _) (statusOf id)
    | mkdir => exact moves_sys (by trivial) (hstores.createDir _ _) (statusOf id)
    | rmdir => exact moves_sys (by trivial) (hstores.removeDir _) (statusOf id)
    | realpath => exact moves_sys (by trivial) (holds_realpath hstores _ _) (nameOf id)
    | rename => exact moves_sys (by trivial) (holds_renameNoOverwrite hstores _ _) (statusOf id)
    | readlink => exact moves_sys (by trivial) (hstores.readLink _) (nameOf id)
    | symlink => exact moves_sys (by trivial) (hstores.symlink _ _) (statusOf id)
    | posixRename => exact moves_sys (by trivial) (hstores.rename _ _) (statusOf id)
    | limits | unsupported => exact moves_quiet (by trivial) rfl
    | expandPath path =>
      have hexpand : Holds content (ofExcept (expand cwd path) >>= fun p => realpath K p cwd) :=
        Holds.bind (holds_ofExcept _) fun p => holds_realpath hstores p cwd
      exact moves_sys (by trivial) hexpand (nameOf id)
    | _ => cases hnames

/-! ### Every handle stays right -/

theorem sound_opens {p : Prog κ IoError (Handle F E)} {s' : Server κ F E} {reply : Bytes}
    (h : Opens s id p (.ok reply, s')) (hsound : s.Sound appends)
    (hcapped : s'.handles.length ≤ maxHandles)
    (hp : ∀ fs file append written,
      p s.fs = (.ok (.file file append written), fs) → append = appends file) :
    s'.Sound appends := by
  refine ⟨hcapped, fun j file append written hslot => ?_⟩
  unfold Opens at h
  split at h
  next =>
    split at h
    next e fs hrun =>
      cases h
      exact hsound.append j file append written hslot
    next opened fs hrun =>
      obtain ⟨i, handles, heq, -, -, hopened, hothers⟩ := h
      cases heq
      by_cases hj : j = i
      · subst hj
        cases hopened.symm.trans hslot
        exact hp fs file append written hrun
      · exact hsound.append j file append written ((hothers j hj).symm.trans hslot)
  next =>
    cases h
    exact hsound.append j file append written hslot

theorem sound_perform (hstores : K.Stores node appends content) (hsound : s.Sound appends) :
    (perform K cwd id q s).2.Sound appends := by
  have hcapped : (perform K cwd id q s).2.handles.length ≤ maxHandles :=
    length_perform hsound.capped
  have hkept : (perform K cwd id q s).2.handles = s.handles →
      (perform K cwd id q s).2.Sound appends := by
    intro hsame
    refine ⟨hcapped, ?_⟩
    rw [hsame]
    exact hsound.append
  cases hnames : q.names with
  | some raw =>
    cases hof : s.handleOf raw with
    | none =>
      apply hkept
      rw [perform_refused hnames hof]
    | some v =>
      obtain ⟨i, handle⟩ := v
      have hacts : ActsOn K s i handle (perform K cwd id q s).2 := actsOn_perform hnames hof
      refine ⟨hcapped, fun j file append written hslot => ?_⟩
      by_cases hj : j = i
      · subst hj
        -- The handle is of the same file as before, in the same mode.
        cases hacts.stays _ hslot with
        | file _ _ written' =>
          exact hsound.append j file append written' (handleOf_eq_some.1 hof).2.2
      · exact hsound.append j file append written ((hacts.others j hj).symm.trans hslot)
  | none =>
    cases hopens : q.opens K with
    | none => exact hkept (perform_keeps hopens hnames)
    | some p =>
      cases q with
      | «open» path pflags attrs =>
        refine sound_opens (opens_opening hsound.capped) hsound hcapped ?_
        intro fs file append written hrun
        obtain ⟨file', s₁, hopen, hpure⟩ := bind_ok_iff.1 hrun
        cases hpure
        exact ((hstores.open _ _ _ _).of_ok hopen).1.symm
      | opendir path =>
        refine sound_opens (opens_opening hsound.capped) hsound hcapped ?_
        intro fs file append written hrun
        obtain ⟨entries, s₁, -, hpure⟩ := bind_ok_iff.1 hrun
        cases hpure
      | _ => cases hopens

end

/-! ### Sessions -/

/-- The packets were INIT and the requests of the log, and each was replied to. -/
inductive Dialog : List Bytes → List (Exchange I) → Bytes → Prop
  | silent : Dialog [] [] []
  | greeted {init : Bytes} {packets : List Bytes} {log : List (Exchange I)} (hinit : IsInit init)
      (hpackets : List.Forall₂ (fun packet x => IsRequest packet x.id x.request) packets log) :
      Dialog (init :: packets) log (frame versionReply ++ log.flatMap fun x => frame x.reply)

/-- The log tells what a session did: a run of right exchanges from the files as they were to
the files as they are, one exchange for each request of the input up to its end or its first
violation, and their replies are the output. -/
structure Logs [DecidableEq I] (node : F → I) (content : κ → I → Bytes) (input : List Read) (fs : κ)
    (o : Outcome κ F E) (log : List (Exchange I)) : Prop where
  runs : Runs { content := content fs, opened := fun _ => none } log (o.server.view node content)
  dialog : ∃ packets tail, streamOf input = packets.flatMap frame ++ tail ∧
    Dialog packets log o.out ∧ Ends input packets.isEmpty tail o.status

section

variable [DecidableEq I] {K : Kernel κ F E} {node : F → I} {appends : F → Bool}
  {content : κ → I → Bytes} {cwd : Bytes}

/-- The requests of a session, as a run. -/
theorem talk_runs (hstores : K.Stores node appends content) {s s' : Server κ F E}
    {packets replies : List Bytes} (h : Talk K cwd false s packets replies s')
    (hsound : s.Sound appends) :
    ∃ log : List (Exchange I), Runs (s.view node content) log (s'.view node content) ∧
      List.Forall₂ (fun packet x => IsRequest packet x.id x.request) packets log ∧
      replies.flatMap frame = log.flatMap fun x => frame x.reply := by
  generalize hfirst : false = first at h
  induction h with
  | nil first s => exact ⟨[], .nil _, .nil, rfl⟩
  | init => cases hfirst
  | @request s s' packet packets replies id q hpacket hq hreply _ ih =>
    have hmoves : Moves node content id q s (perform K cwd id q s) := perform_moves hstores hsound
    obtain ⟨file, edit, hstep⟩ := hmoves
    obtain ⟨log, hruns, hpackets, hreplies⟩ := ih (sound_perform hstores hsound) rfl
    refine ⟨_ :: log, .cons hstep hruns, .cons hq hpackets, ?_⟩
    rw [List.flatMap_cons, List.flatMap_cons, hreplies]

/-- A session is silent, or begins with INIT. -/
theorem talk_cases {s s' : Server κ F E} {packets replies : List Bytes}
    (h : Talk K cwd true s packets replies s') :
    packets = [] ∧ replies = [] ∧ s' = s ∨
      ∃ packet packets' replies', packets = packet :: packets' ∧
        replies = versionReply :: replies' ∧ IsInit packet ∧
        Talk K cwd false s packets' replies' s' := by
  cases h with
  | nil => exact .inl ⟨rfl, rfl, rfl⟩
  | init hpacket hinit h => exact .inr ⟨_, _, _, rfl, rfl, hinit, h⟩

theorem session_logged (hstores : K.Stores node appends content) (hlimits : K.WithinLimits cwd)
    (input : List Read) (fs : κ) :
    ∃ log, Logs node content input fs (serve K cwd input fs) log := by
  obtain ⟨packets, replies, tail, hstream, hout, htalk, hends⟩ :=
    @serveLoop_talk _ _ _ _ _ hlimits ((streamOf input).length + 1) input true
      { handles := [], fs } [] (Nat.lt_succ_self _)
  change Talk K cwd true _ _ _ (serve K cwd input fs).server at htalk
  change (serve K cwd input fs).out = _ at hout
  have hsound : Server.Sound appends ({ handles := [], fs } : Server κ F E) :=
    ⟨Nat.zero_le _, fun i file append written h => by cases i <;> cases h⟩
  rw [List.nil_append] at hout
  obtain ⟨rfl, rfl, hserver⟩ | ⟨packet, packets, replies, rfl, rfl, hinit, htalk⟩ :=
    talk_cases htalk
  · refine ⟨[], ?_, [], tail, hstream, ?_, hends⟩
    · rw [hserver]
      exact .nil _
    · rw [hout]
      exact .silent
  · obtain ⟨log, hruns, hpackets, hreplies⟩ := talk_runs hstores htalk hsound
    refine ⟨log, hruns, packet :: packets, tail, hstream, ?_, hends⟩
    rw [hout, List.flatMap_cons, hreplies]
    exact .greeted hinit hpackets

/-- Every session transfers exactly: it is a run of right exchanges, one for each request, and
a file that was uploaded by writes that were answered OK holds what was sent, in whatever order
they came; a file that was read to its end was read as it is. -/
theorem files_transferred (hstores : K.Stores node appends content) (hlimits : K.WithinLimits cwd)
    (input : List Read) (fs : κ) :
    ∃ log, Logs node content input fs (serve K cwd input fs) log ∧
      TransfersExact (content fs) log (content (serve K cwd input fs).server.fs) := by
  obtain ⟨log, hlog⟩ := session_logged hstores hlimits input fs
  exact ⟨log, hlog, hlog.runs.transfers⟩

end

theorem length_window_le (content : Bytes) (len offset : ℕ) :
    ((content.drop offset).take len).length ≤ len :=
  List.length_take_le ..

/-- All of the data. -/
theorem length_all_le (data : Bytes) : data.length ≤ data.length := Nat.le_refl _

/-- A kernel with one file, which every path names. An open file is whether it appends. -/
def oneFile : Kernel Bytes Bool Empty where
  __ := refusingKernel Bytes Bool Empty Empty.elim
  «open» := fun _ flags _ content => (.ok flags.append, if flags.trunc then [] else content)
  readAt := fun _ len offset content =>
    (.ok ⟨(content.drop offset).take len, length_window_le content len offset⟩, content)
  writeAt := fun _ data offset content =>
    (.ok ⟨data.length, length_all_le data⟩, Piece.apply content (some offset, data))
  write := fun _ data content => (.ok ⟨data.length, length_all_le data⟩, content ++ data)
  setLen := fun _ size content => (.ok (), resized content size)
  writeAt_interrupted := fun _ _ _ _ _ _ h => by cases h
  write_interrupted := fun _ _ _ _ _ h => by cases h

/-- What the one file holds. -/
def oneContent (content : Bytes) : Unit → Bytes := fun _ => content

theorem oneContent_edited (content : Bytes) (e : Edit) :
    oneContent (e.apply content) = edited (oneContent content) () e := by
  funext u
  cases u
  rw [edited, Function.update_self, oneContent, oneContent]

theorem oneFile_stores : oneFile.Stores (fun _ => ()) id oneContent where
  «open» := by
    intro path flags mode s
    refine ⟨rfl, ?_⟩
    cases flags.trunc with
    | false => rfl
    | true =>
      rw [if_pos rfl, if_pos rfl, ← oneContent_edited, Edit.apply, resized_zero]
  close := fun _ _ => rfl
  readAt := by
    intro file len offset s
    refine ⟨rfl, List.take_prefix .., fun hlen hnil => ?_⟩
    obtain hlen' | hdrop := List.take_eq_nil_iff.1 hnil
    · exact absurd hlen' hlen
    · exact List.drop_eq_nil_iff.1 hdrop
  writeAt := by
    intro file data offset s _
    change oneContent (Piece.apply s (some offset, data)) =
      edited _ _ (.write (_, data.take data.length))
    rw [List.take_length]
    exact oneContent_edited s (.write (some offset, data))
  write := by
    intro file data s _
    change oneContent (s ++ data) = edited _ _ (.write (_, data.take data.length))
    rw [List.take_length]
    exact oneContent_edited s (.write (none, data))
  setLen := fun file size s => oneContent_edited s (.resize size)
  metadata := fun _ _ => rfl
  syncData := fun _ _ => rfl
  syncAll := fun _ _ => rfl
  fchown := fun _ _ _ _ => rfl
  fchmod := fun _ _ _ => rfl
  futimens := fun _ _ _ _ => rfl
  readDir := fun _ _ => rfl
  entryMetadata := fun entry => entry.elim
  stat := fun _ _ => rfl
  lstat := fun _ _ => rfl
  chown := fun _ _ _ _ => rfl
  chmod := fun _ _ _ => rfl
  utimens := fun _ _ _ _ => rfl
  removeFile := fun _ _ => rfl
  createDir := fun _ _ _ => rfl
  removeDir := fun _ _ => rfl
  readLink := fun _ _ => rfl
  hardLink := fun _ _ _ => rfl
  rename := fun _ _ _ => rfl
  symlink := fun _ _ _ => rfl

theorem oneFile_withinLimits : oneFile.WithinLimits [slash] := by
  refine withinLimits (by decide) (fun path s hlong => ?_) fun path s target s' h => by cases h
  exact ⟨.ofKind .other, s, rfl, by decide⟩

/-- INIT, an OPEN for reading, and three READs of the handle up to the end of the file. -/
def readingInput : List Read :=
  [.chunk 0 [0, 0, 5, 1, 0, 0, 0, 3],
    .chunk 0 [0, 0, 18, 3, 0, 0, 0, 1, 0, 0, 0, 1, 97, 0, 0, 0, 1, 0, 0, 0, 0],
    .chunk 0 [0, 0, 25, 5, 0, 0, 0, 2, 0, 0, 0, 4, 0, 0, 0, 0, 0, 0, 0, 0, 0, 0, 0, 0, 0, 0, 0, 2],
    .chunk 0 [0, 0, 25, 5, 0, 0, 0, 3, 0, 0, 0, 4, 0, 0, 0, 0, 0, 0, 0, 0, 0, 0, 0, 2, 0, 0, 0, 2],
    .chunk 0 [0, 0, 25, 5, 0, 0, 0, 4, 0, 0, 0, 4, 0, 0, 0, 0, 0, 0, 0, 0, 0, 0, 0, 3, 0, 0, 0, 2]]

/-- INIT, an OPEN that truncates, and WRITEs of `[9, 10]` at 2, of `[8, 9]` at 1 and of `[7]` at
0. -/
def uploadingInput : List Read :=
  [.chunk 0 [0, 0, 5, 1, 0, 0, 0, 3],
    .chunk 0 [0, 0, 18, 3, 0, 0, 0, 1, 0, 0, 0, 1, 97, 0, 0, 0, 26, 0, 0, 0, 0],
    .chunk 0 [0, 0, 27, 6, 0, 0, 0, 2, 0, 0, 0, 4, 0, 0, 0, 0, 0, 0, 0, 0, 0, 0, 0, 2, 0, 0, 0, 2, 9,
      10],
    .chunk 0 [0, 0, 27, 6, 0, 0, 0, 3, 0, 0, 0, 4, 0, 0, 0, 0, 0, 0, 0, 0, 0, 0, 0, 1, 0, 0, 0, 2],
    .chunk 8 [9, 0, 0, 0, 26, 6, 0, 0, 0, 4, 0, 0, 0, 4, 0, 0, 0, 0, 0, 0, 0, 0, 0, 0, 0, 0, 0, 0, 0, 1,
      7]]

/-- A packet is read and answered. -/
theorem serveLoop_answer {K : Kernel κ F E} {cwd packet reply out : Bytes} {fuel : ℕ}
    {input input' : List Read} {first : Bool} {s s' : Server κ F E}
    (hread : readPacket input = (.ok (some packet), input'))
    (hanswer : answer K cwd first packet s = (.ok reply, s')) :
    serveLoop K cwd (fuel + 1) input first s out =
      serveLoop K cwd fuel input' false s' (out ++ frame reply) := by
  simp only [serveLoop, hread, hanswer]

/-- The one file, open under the handle 0. -/
def oneOpen (written : Bool) (content : Bytes) : Server Bytes Bool Empty where
  handles := [some (.file false false written)]
  fs := content

/-- WRITE of the handle 0. -/
def writePacket (id offset : ℕ) (data : Bytes) : Bytes :=
  Kind.write.byte ::
    (putUint32 id ++ ((putString [0, 0, 0, 0] ++ (putUint64 offset ++ putString data)) ++ []))

theorem writeTracked_oneFile {data content : Bytes} {offset : ℕ} {written : Bool}
    (hdata : data ≠ []) (hoffset : offset < 2 ^ 64) :
    writeTracked oneFile false data (some offset) 0 written content =
      ((.ok (), true), Piece.apply content (some offset, data)) := by
  obtain ⟨b, bs, rfl⟩ := List.exists_cons_of_ne_nil hdata
  have honce : writeOnce oneFile false (b :: bs) (some offset) 0 content =
      (.ok ⟨bs.length + 1, length_all_le (b :: bs)⟩,
        Piece.apply content (some offset, b :: bs)) := by
    unfold writeOnce
    dsimp only
    rw [Nat.add_zero, if_pos hoffset]
    rfl
  have hrest : (b :: bs).drop (bs.length + 1) = [] := List.drop_length
  rw [writeTracked, if_neg hdata, honce]
  dsimp only
  rw [writeTracked, if_pos hrest]

theorem answer_writePacket {id offset : ℕ} {data content : Bytes} {written : Bool}
    (hid : id < 2 ^ 32) (hoffset : offset < 2 ^ 64) (hdata : data ≠ [])
    (hlen : data.length ≤ maxPacket) :
    answer oneFile [slash] false (writePacket id offset data) (oneOpen written content) =
      (.ok (statusReply id fxOk), oneOpen true (Piece.apply content (some offset, data))) := by
  have hrequest : IsRequest (writePacket id offset data) id (.write [0, 0, 0, 0] offset data) :=
    ⟨hid, .inl ⟨.write, _, [], .write ⟨by decide, rfl⟩ ⟨hoffset, rfl⟩ ⟨hlen, rfl⟩, rfl⟩⟩
  have hperform : perform oneFile [slash] id (.write [0, 0, 0, 0] offset data)
      (oneOpen written content) =
        writeWork oneFile id offset data (some (0, .file false false written))
          (oneOpen written content) := rfl
  have hanswer : answer oneFile [slash] false (writePacket id offset data)
      (oneOpen written content) = Server.handle oneFile [slash] (writePacket id offset data)
        (oneOpen written content) := rfl
  have htracked := @writeTracked_oneFile data content offset written hdata hoffset
  rw [hanswer, handle_request hrequest, hperform]
  simp only [writeWork, oneOpen]
  rw [if_neg (by decide), htracked]
  rfl

set_option maxRecDepth 4096 in
theorem serve_uploadingInput : serve oneFile [slash] uploadingInput [1] =
    { status := 0
      out := [] ++ frame versionReply ++ frame (handleReply 1 0) ++ frame (statusReply 2 fxOk) ++
        frame (statusReply 3 fxOk) ++ frame (statusReply 4 fxOk)
      server := oneOpen true [7, 8, 9, 10] } := by
  have hfuel : (streamOf uploadingInput).length + 1 = 118 + 6 := by decide +kernel
  have hinit : readPacket uploadingInput = (.ok (some [1, 0, 0, 0, 3]), uploadingInput.drop 1) := by
    decide +kernel
  have hopen : readPacket (uploadingInput.drop 1) =
      (.ok (some [3, 0, 0, 0, 1, 0, 0, 0, 1, 97, 0, 0, 0, 26, 0, 0, 0, 0]),
        uploadingInput.drop 2) := by decide +kernel
  have hwrite₁ : readPacket (uploadingInput.drop 2) =
      (.ok (some (writePacket 2 2 [9, 10])), uploadingInput.drop 3) := by decide +kernel
  have hwrite₂ : readPacket (uploadingInput.drop 3) =
      (.ok (some (writePacket 3 1 [8, 9])), [.chunk 0 (frame (writePacket 4 0 [7])).tail]) := by
    decide +kernel
  have hwrite₃ : readPacket [.chunk 0 (frame (writePacket 4 0 [7])).tail] =
      (.ok (some (writePacket 4 0 [7])), []) := by decide +kernel
  have hgreeted : answer oneFile [slash] true [1, 0, 0, 0, 3] { handles := [], fs := [1] } =
      (.ok versionReply, { handles := [], fs := [1] }) := rfl
  have hopened : answer oneFile [slash] false
      [3, 0, 0, 0, 1, 0, 0, 0, 1, 97, 0, 0, 0, 26, 0, 0, 0, 0] { handles := [], fs := [1] } =
      (.ok (handleReply 1 0), oneOpen false []) := rfl
  rw [serve, hfuel, serveLoop_answer hinit hgreeted, serveLoop_answer hopen hopened,
    serveLoop_answer hwrite₁ (answer_writePacket (by decide) (by decide) (by decide) (by decide)),
    serveLoop_answer hwrite₂ (answer_writePacket (by decide) (by decide) (by decide) (by decide)),
    serveLoop_answer hwrite₃ (answer_writePacket (by decide) (by decide) (by decide) (by decide))]
  rfl

/-- A download, and an upload by writes out of order that overlap. -/
theorem files_transferred_reading :
    ((serve oneFile [slash] readingInput [7, 8, 9]).out =
        frame versionReply ++ (frame (handleReply 1 0) ++ (frame (dataReply 2 [7, 8]) ++
          (frame (dataReply 3 [9]) ++ frame (statusReply 4 fxEof)))) ∧
      ∃ log, Logs (fun _ => ()) oneContent readingInput [7, 8, 9]
          (serve oneFile [slash] readingInput [7, 8, 9]) log ∧
        TransfersExact (oneContent [7, 8, 9]) log
          (oneContent (serve oneFile [slash] readingInput [7, 8, 9]).server.fs)) ∧
    (serve oneFile [slash] uploadingInput [1]).server.fs = [7, 8, 9, 10] ∧
      ∃ log, Logs (fun _ => ()) oneContent uploadingInput [1]
          (serve oneFile [slash] uploadingInput [1]) log ∧
        TransfersExact (oneContent [1]) log
          (oneContent (serve oneFile [slash] uploadingInput [1]).server.fs) :=
  ⟨⟨by decide +kernel,
      files_transferred oneFile_stores oneFile_withinLimits readingInput [7, 8, 9]⟩,
    congrArg (fun o => o.server.fs) serve_uploadingInput,
    files_transferred oneFile_stores oneFile_withinLimits uploadingInput [1]⟩

end QuantumSsh.Sftp
