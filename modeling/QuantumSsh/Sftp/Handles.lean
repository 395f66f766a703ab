import QuantumSsh.Sftp.Session
import Mathlib.Logic.Relation

/-!
# The handle table

What the requests of a session do to its handles, from every table that a sequence of
packets leads to. What a request does to the kernel is told by the operations that are
allowed to it: the kernel is arbitrary, so a kernel that did not change was not called.
-/

namespace QuantumSsh.Sftp

open Wire Program Relation

variable {κ F E : Type}

/-! ### What is to hold -/

/-- The session after some packets. -/
def Server.after (K : Kernel κ F E) (cwd : Bytes) (s : Server κ F E) (packets : List Bytes) :
    Server κ F E :=
  packets.foldl (fun s packet => (s.handle K cwd packet).2) s

/-- What a request opens. -/
def Request.opens (K : Kernel κ F E) : Request → Option (Prog κ IoError (Handle F E))
  | .open path pflags attrs => some (openHandle K (orDot path) pflags attrs)
  | .opendir path => some (opendirHandle K (orDot path))
  | _ => none

/-- The handle string of a request. -/
def Request.names : Request → Option Bytes
  | .close handle | .read handle _ _ | .write handle _ _ | .fstat handle | .fsetstat handle _
  | .readdir handle | .fsync handle => some handle
  | _ => none

/-- An operation on the file of a handle, or on an entry of its directory. -/
inductive Touches (K : Kernel κ F E) : Handle F E → κ → κ → Prop
  | close (file : F) (append written : Bool) (s : κ) :
      Touches K (.file file append written) s (K.close file s)
  | metadata (file : F) (append written : Bool) (s : κ) :
      Touches K (.file file append written) s (K.metadata file s).2
  | readAt (file : F) (append written : Bool) (len offset : ℕ) (s : κ) :
      Touches K (.file file append written) s (K.readAt file len offset s).2
  | writeAt (file : F) (append written : Bool) (data : Bytes) (offset : ℕ) (s : κ) :
      Touches K (.file file append written) s (K.writeAt file data offset s).2
  | write (file : F) (append written : Bool) (data : Bytes) (s : κ) :
      Touches K (.file file append written) s (K.write file data s).2
  | syncData (file : F) (append written : Bool) (s : κ) :
      Touches K (.file file append written) s (K.syncData file s).2
  | syncAll (file : F) (append written : Bool) (s : κ) :
      Touches K (.file file append written) s (K.syncAll file s).2
  | setLen (file : F) (append written : Bool) (size : ℕ) (s : κ) :
      Touches K (.file file append written) s (K.setLen file size s).2
  | fchown (file : F) (append written : Bool) (uid gid : ℕ) (s : κ) :
      Touches K (.file file append written) s (K.fchown file uid gid s).2
  | fchmod (file : F) (append written : Bool) (mode : ℕ) (s : κ) :
      Touches K (.file file append written) s (K.fchmod file mode s).2
  | futimens (file : F) (append written : Bool) (atime mtime : ℕ) (s : κ) :
      Touches K (.file file append written) s (K.futimens file atime mtime s).2
  | entry (entries : List (Except IoError E)) (entry : E) (h : .ok entry ∈ entries) (s : κ) :
      Touches K (.dir entries) s (K.entryMetadata entry s).2

/-- The kernel went on by operations on the handle only. -/
def OnHandle (K : Kernel κ F E) (handle : Handle F E) : κ → κ → Prop :=
  ReflTransGen (Touches K handle)

/-- The handle is of the same file, or of what is left of the same directory. -/
inductive Stays : Handle F E → Handle F E → Prop
  | file (file : F) (append written written' : Bool) :
      Stays (.file file append written) (.file file append written')
  | dir {entries entries' : List (Except IoError E)} (h : entries' <:+ entries) :
      Stays (.dir entries) (.dir entries')

/-- What OPEN and OPENDIR do: nothing at all when the table is full; else they are
refused by the kernel, or answer the index of a free slot that then holds the handle. -/
def Opens (s : Server κ F E) (id : ℕ) (p : Prog κ IoError (Handle F E))
    (result : Except Violation Bytes × Server κ F E) : Prop :=
  if s.hasFreeSlot then
    match p s.fs with
    | (.error e, fs) => result = (.ok (statusReply id (errorCode e)), { s with fs })
    | (.ok handle, fs) => ∃ i handles, result = (.ok (handleReply id i), { handles, fs }) ∧
        i < maxHandles ∧ slot s.handles i = none ∧ slot handles i = some handle ∧
        ∀ j, j ≠ i → slot handles j = slot s.handles j
  else result = (.ok (statusReply id fxFailure), s)

/-- What holds of the handles of a session. -/
structure HandlesLawful (K : Kernel κ F E) (cwd : Bytes) (s : Server κ F E) : Prop where
  capped : (s.handles.filter Option.isSome).length ≤ maxHandles
  opens : ∀ packet id q p, IsRequest packet id q → q.opens K = some p →
    Opens s id p (s.handle K cwd packet)
  closes : ∀ packet id raw i handle, IsRequest packet id (.close raw) →
    s.handleOf raw = some (i, handle) → slot (s.handle K cwd packet).2.handles i = none
  refuses : ∀ packet id q raw, IsRequest packet id q → q.names = some raw →
    raw.length ≠ 4 ∨ slot s.handles (beValue raw) = none →
    s.handle K cwd packet = (.ok (statusReply id fxFailure), s)
  acts : ∀ packet id q raw i handle, IsRequest packet id q → q.names = some raw →
    s.handleOf raw = some (i, handle) →
    OnHandle K handle s.fs (s.handle K cwd packet).2.fs ∧
      (∀ handle', slot (s.handle K cwd packet).2.handles i = some handle' → Stays handle handle') ∧
      ∀ j, j ≠ i → slot (s.handle K cwd packet).2.handles j = slot s.handles j
  keeps : ∀ packet id q, IsRequest packet id q → q.opens K = none → q.names = none →
    (s.handle K cwd packet).2.handles = s.handles

/-! ### Slots -/

section

variable {handles : List (Option (Handle F E))} {i j : ℕ} {x : Option (Handle F E)}

theorem slot_lt {handle : Handle F E} (h : slot handles i = some handle) : i < handles.length := by
  by_contra hge
  rw [slot, List.getElem?_eq_none (Nat.le_of_not_lt hge)] at h
  cases h

theorem slot_set_self (hi : i < handles.length) : slot (handles.set i x) i = x := by
  rw [slot, List.getElem?_set_self hi]
  rfl

theorem slot_set_ne (hne : j ≠ i) : slot (handles.set i x) j = slot handles j := by
  rw [slot, List.getElem?_set_ne hne.symm, slot]

theorem slot_push_self : slot (handles ++ [x]) handles.length = x := by
  rw [slot, List.getElem?_concat_length]
  rfl

theorem slot_push_ne (hne : j ≠ handles.length) : slot (handles ++ [x]) j = slot handles j := by
  obtain hlt | hge := Nat.lt_or_ge j handles.length
  · rw [slot, List.getElem?_append_left hlt, slot]
  · rw [slot, slot, List.getElem?_eq_none hge, List.getElem?_eq_none]
    rw [List.length_append, List.length_singleton]
    omega

/-- The first hole of the table is free. -/
theorem slot_hole (h : handles.findIdx? Option.isNone = some i) :
    i < handles.length ∧ slot handles i = none := by
  obtain ⟨hlt, hnone, -⟩ := List.findIdx?_eq_some_iff_getElem.1 h
  refine ⟨hlt, ?_⟩
  rw [slot, List.getElem?_eq_getElem hlt, Option.isNone_iff_eq_none.1 hnone]
  rfl

end

section

variable {K : Kernel κ F E} {cwd : Bytes} {s : Server κ F E} {raw : Bytes} {id i : ℕ}
  {handle : Handle F E}

/-- A handle string names an open handle by its index. -/
theorem handleOf_eq_some :
    s.handleOf raw = some (i, handle) ↔
      raw.length = 4 ∧ beValue raw = i ∧ slot s.handles i = some handle := by
  unfold Server.handleOf Server.indexOf
  constructor
  · intro h
    split at h
    next hlive =>
      cases hslot : slot s.handles (beValue raw) with
      | none => simp [hslot] at hlive
      | some handle' =>
        simp only [Option.bind_eq_bind, Option.bind_some, hslot] at h
        cases h
        exact ⟨hlive.1, rfl, hslot⟩
    next => cases h
  · rintro ⟨hlen, rfl, hslot⟩
    rw [if_pos ⟨hlen, by rw [hslot]; rfl⟩]
    simp [hslot]

theorem handleOf_eq_none (h : raw.length ≠ 4 ∨ slot s.handles (beValue raw) = none) :
    s.handleOf raw = none := by
  cases hof : s.handleOf raw with
  | none => rfl
  | some v =>
    obtain ⟨i, handle⟩ := v
    obtain ⟨hlen, rfl, hslot⟩ := handleOf_eq_some.1 hof
    obtain hne | hnone := h
    · exact absurd hlen hne
    · rw [hslot] at hnone
      cases hnone

/-! ### Opening -/

/-- `insert` finds a slot whenever `has_free_slot` saw one. -/
theorem insert_of_free (hfree : s.hasFreeSlot = true) (hcap : s.handles.length ≤ maxHandles) :
    ∃ i handles, insert K id handle s = (handleReply id i, { s with handles }) ∧ i < maxHandles ∧
      slot s.handles i = none ∧ slot handles i = some handle ∧
      ∀ j, j ≠ i → slot handles j = slot s.handles j := by
  unfold insert
  cases hhole : s.handles.findIdx? Option.isNone with
  | some i =>
    obtain ⟨hlt, hnone⟩ := slot_hole hhole
    exact ⟨i, s.handles.set i (some handle), rfl, by omega, hnone, slot_set_self hlt,
      fun j hne => slot_set_ne hne⟩
  | none =>
    -- Without a hole the table was short enough to grow.
    have hall := List.findIdx?_eq_none_iff.1 hhole
    have hshort : s.handles.length < maxHandles := by
      obtain hlt | hany := of_decide_eq_true hfree
      · exact hlt
      · obtain ⟨x, hx, hnone⟩ := List.any_eq_true.1 hany
        rw [hall x hx] at hnone
        cases hnone
    dsimp only
    rw [if_pos hshort]
    refine ⟨s.handles.length, s.handles ++ [some handle], rfl, hshort, ?_, slot_push_self,
      fun j hne => slot_push_ne hne⟩
    rw [slot, List.getElem?_eq_none (Nat.le_refl _)]
    rfl

theorem opens_opening {p : Prog κ IoError (Handle F E)} (hcap : s.handles.length ≤ maxHandles) :
    Opens s id p (.ok (opening K id p s).1, (opening K id p s).2) := by
  unfold Opens
  rw [opening_eq]
  split
  next hfree =>
    split
    next e fs hp => rw [hp]
    next opened fs hp =>
      rw [hp]
      have hfree' : Server.hasFreeSlot { s with fs } = true := hfree
      obtain ⟨i, handles, hinsert, hlaws⟩ := @insert_of_free _ _ _ K { s with fs } id opened hfree' hcap
      refine ⟨i, handles, ?_, hlaws⟩
      dsimp only
      rw [hinsert]
  next => rfl

/-! ### Acting on a handle -/

theorem Stays.refl : ∀ handle : Handle F E, Stays handle handle
  | .file f append written => .file f append written written
  | .dir _ => .dir (List.suffix_refl _)

/-- What a request does with the handle it names, and nothing more. -/
structure ActsOn (K : Kernel κ F E) (s : Server κ F E) (i : ℕ) (handle : Handle F E)
    (s' : Server κ F E) : Prop where
  fs : OnHandle K handle s.fs s'.fs
  stays : ∀ handle', slot s'.handles i = some handle' → Stays handle handle'
  others : ∀ j, j ≠ i → slot s'.handles j = slot s.handles j
  length : s'.handles.length = s.handles.length

theorem actsOn_same {fs : κ} (hslot : slot s.handles i = some handle)
    (h : OnHandle K handle s.fs fs) : ActsOn K s i handle { s with fs } where
  fs := h
  stays := by
    intro handle' hslot'
    cases hslot.symm.trans hslot'
    exact .refl handle
  others := fun _ _ => rfl
  length := rfl

theorem actsOn_set {fs : κ} {x : Option (Handle F E)} (hslot : slot s.handles i = some handle)
    (h : OnHandle K handle s.fs fs) (hx : ∀ handle', x = some handle' → Stays handle handle') :
    ActsOn K s i handle { handles := s.handles.set i x, fs } where
  fs := h
  stays := by
    intro handle' hslot'
    apply hx
    rw [← hslot']
    exact (slot_set_self (slot_lt hslot)).symm
  others := fun j hne => slot_set_ne hne
  length := List.length_set ..

/-- Two operations on a handle, one after the other. -/
theorem onHandle_bind {α β : Type} {p : Prog κ IoError α} {f : α → Prog κ IoError β}
    (hp : ∀ s, OnHandle K handle s (p s).2) (hf : ∀ a s, OnHandle K handle s (f a s).2) (s : κ) :
    OnHandle K handle s ((p >>= f) s).2 := by
  change OnHandle K handle s (Prog.bind p f s).2
  have hstep := hp s
  unfold Prog.bind
  split
  next a s' hrun =>
    rw [hrun] at hstep
    exact hstep.trans (hf a s')
  next e s' hrun =>
    rw [hrun] at hstep
    exact hstep

theorem onHandle_whenSome {α : Type} {value : Option α} {set : α → Prog κ IoError Unit}
    (h : ∀ v s, OnHandle K handle s (set v s).2) (s : κ) :
    OnHandle K handle s (whenSome value set s).2 := by
  cases value with
  | none => exact .refl
  | some v => exact h v s

theorem onHandle_fsetstat {file : F} {append written : Bool} {attrs : SetAttrs} (s : κ) :
    OnHandle K (.file file append written) s (fsetstat K file attrs s).2 := by
  apply onHandle_bind
  · exact onHandle_whenSome fun size s => .single (.setLen file append written size s)
  intro _
  apply onHandle_bind
  · exact onHandle_whenSome fun owner s => .single (.fchown file append written owner.1 owner.2 s)
  intro _
  apply onHandle_bind
  · exact onHandle_whenSome fun perm s => .single (.fchmod file append written (perm &&& 0o7777) s)
  intro _
  exact onHandle_whenSome fun times s => .single (.futimens file append written times.1 times.2 s)

theorem onHandle_syncWritten {file : F} {append written : Bool} (s : κ) :
    OnHandle K (.file file append written) s (syncWritten K file s).2 := by
  apply onHandle_bind
  · exact fun s => .single (.metadata file append written s)
  intro m s
  split
  · exact .single (.syncData file append written s)
  · exact .refl

theorem onHandle_writeOnce {file : F} {append written : Bool} {rest : Bytes} {offset : Option ℕ}
    {done : ℕ} (s : κ) :
    OnHandle K (.file file append written) s (writeOnce K file rest offset done s).2 := by
  unfold writeOnce
  split
  · split
    · exact .single (.writeAt file append written rest _ s)
    · exact .refl
  · exact .single (.write file append written rest s)

theorem onHandle_writeTracked {file : F} {append written written' : Bool} {rest : Bytes}
    {offset : Option ℕ} {done : ℕ} (s : κ) :
    OnHandle K (.file file append written) s
      (writeTracked K file rest offset done written' s).2 := by
  fun_induction writeTracked K file rest offset done written' s with
  | case1 => exact .refl
  | case2 rest done written' s hrest hle s' hwrite =>
    have hstep := @onHandle_writeOnce _ _ _ K file append written rest offset done s
    rw [hwrite] at hstep
    exact hstep
  | case3 rest done written' s hrest n hle s' hwrite ih =>
    have hstep := @onHandle_writeOnce _ _ _ K file append written rest offset done s
    rw [hwrite] at hstep
    exact hstep.trans ih
  | case4 rest done written' s hrest e s' hwrite hkind ih =>
    have hstep := @onHandle_writeOnce _ _ _ K file append written rest offset done s
    rw [hwrite] at hstep
    exact hstep.trans ih
  | case5 rest done written' s hrest e s' hwrite hkind =>
    have hstep := @onHandle_writeOnce _ _ _ K file append written rest offset done s
    rw [hwrite] at hstep
    exact hstep

/-- A listing looks at entries of its own directory, and leaves what it did not take. -/
theorem gather_acts {now : ℤ} {all entries : List (Except IoError E)} {names : List Name} {size : ℕ}
    {s : κ} (hall : entries <:+ all) :
    OnHandle K (.dir all) s (gather K now entries names size s).2 ∧
      (gather K now entries names size s).1.2 <:+ all := by
  induction entries generalizing names size s with
  | nil => exact ⟨.refl, hall⟩
  | cons next entries ih =>
    have hrest : entries <:+ all := (List.suffix_cons next entries).trans hall
    unfold gather
    split
    · exact ⟨.refl, hall⟩
    · split
      · split
        · exact ⟨.refl, hall⟩
        · exact ⟨.refl, hrest⟩
      next entry =>
        have htouch : OnHandle K (.dir all) s (K.entryMetadata entry s).2 :=
          .single (.entry all entry (hall.subset List.mem_cons_self) s)
        split
        next e s' hmeta =>
          rw [hmeta] at htouch
          exact ⟨htouch.trans (ih hrest).1, (ih hrest).2⟩
        next m s' hmeta =>
          rw [hmeta] at htouch
          dsimp only
          split
          · exact ⟨htouch, hall⟩
          · exact ⟨htouch.trans (ih hrest).1, (ih hrest).2⟩

theorem actsOn_onFile {work : F → Work κ F E Bytes} (hslot : slot s.handles i = some handle)
    (h : ∀ file append written, handle = .file file append written →
      ActsOn K s i handle (work file s).2) :
    ActsOn K s i handle (onFile id work (some (i, handle)) s).2 := by
  cases handle with
  | file file append written => exact h file append written rfl
  | dir entries => exact actsOn_same hslot .refl

theorem actsOn_close (hslot : slot s.handles i = some handle) :
    ActsOn K s i handle (closeWork K id (some (i, handle)) s).2 := by
  have hempty : ∀ handle' : Handle F E, none = some handle' → Stays handle handle' :=
    fun _ h => by cases h
  match handle, hslot, hempty with
  | .dir entries, hslot, hempty => exact actsOn_set hslot .refl hempty
  | .file file append false, hslot, hempty =>
    exact actsOn_set hslot (.single (.close file append false s.fs)) hempty
  | .file file append true, hslot, hempty =>
    exact actsOn_set hslot ((onHandle_syncWritten s.fs).tail (.close file append true _)) hempty

/-- CLOSE empties its slot first, whatever the sync then tells. -/
theorem slot_close (hslot : slot s.handles i = some handle) :
    slot (closeWork K id (some (i, handle)) s).2.handles i = none := by
  have hhandles : (closeWork K id (some (i, handle)) s).2.handles = s.handles.set i none := by
    match handle with
    | .dir _ => rfl
    | .file _ _ false => rfl
    | .file _ _ true => rfl
  rw [hhandles]
  exact slot_set_self (slot_lt hslot)

/-- A request that names an open handle acts on it and on no other. -/
theorem actsOn_perform {q : Request} (hnames : q.names = some raw)
    (hof : s.handleOf raw = some (i, handle)) : ActsOn K s i handle (perform K cwd id q s).2 := by
  have hslot := (handleOf_eq_some.1 hof).2.2
  -- The work of such a request starts with the handle that its string names.
  have hnamed : ∀ work : Option (ℕ × Handle F E) → Work κ F E Bytes,
      ActsOn K s i handle (work (some (i, handle)) s).2 → ActsOn K s i handle (named raw work s).2 := by
    intro work h
    change ActsOn K s i handle (work (s.handleOf raw) s).2
    rwa [hof]
  cases q with
  | close =>
    cases hnames
    exact hnamed _ (actsOn_close hslot)
  | read handle' offset len =>
    cases hnames
    apply hnamed
    apply actsOn_onFile hslot
    rintro file append written rfl
    rw [sys_bind]
    have htouch : OnHandle K (.file file append written) s.fs
        (K.readAt file (min len maxData) offset s.fs).2 := .single (.readAt ..)
    rcases (K.readAt file (min len maxData) offset s.fs).1 with e | ⟨_ | ⟨b, bs⟩, hlen⟩
    · exact actsOn_same hslot htouch
    · exact actsOn_same hslot htouch
    · exact actsOn_same hslot htouch
  | write handle' offset data =>
    cases hnames
    apply hnamed
    cases handle with
    | dir entries => exact actsOn_same hslot .refl
    | file file append written =>
      refine actsOn_set hslot (onHandle_writeTracked s.fs) fun handle' h => ?_
      cases h
      exact .file ..
  | fstat =>
    cases hnames
    apply hnamed
    apply actsOn_onFile hslot
    rintro file append written rfl
    exact actsOn_same hslot (.single (.metadata file append written s.fs))
  | fsetstat =>
    cases hnames
    apply hnamed
    apply actsOn_onFile hslot
    rintro file append written rfl
    exact actsOn_same hslot (onHandle_fsetstat s.fs)
  | readdir =>
    cases hnames
    apply hnamed
    cases handle with
    | file file append written => exact actsOn_same hslot .refl
    | dir entries =>
      have hgather := @gather_acts _ _ _ K (listingTime (K.now s.fs)) entries entries [] listingHead
        s.fs (List.suffix_refl _)
      refine actsOn_set hslot hgather.1 fun handle' h => ?_
      cases h
      exact .dir hgather.2
  | fsync =>
    cases hnames
    apply hnamed
    apply actsOn_onFile hslot
    rintro file append written rfl
    exact actsOn_same hslot (.single (.syncAll file append written s.fs))
  | _ => cases hnames

/-- A request that names no open handle does nothing. -/
theorem perform_refused {q : Request} (hnames : q.names = some raw) (hof : s.handleOf raw = none) :
    perform K cwd id q s = (statusReply id fxFailure, s) := by
  have hnamed : ∀ work : Option (ℕ × Handle F E) → Work κ F E Bytes,
      work none s = (statusReply id fxFailure, s) →
        named raw work s = (statusReply id fxFailure, s) := by
    intro work h
    change work (s.handleOf raw) s = _
    rwa [hof]
  cases q with
  | close | read | write | fstat | fsetstat | readdir | fsync =>
    cases hnames
    rw [perform, hnamed]
    rfl
  | _ => cases hnames

/-- Any other request leaves the handles alone. -/
theorem perform_keeps {q : Request} (hopens : q.opens K = none) (hnames : q.names = none) :
    (perform K cwd id q s).2.handles = s.handles := by
  cases q with
  | «open» | opendir => cases hopens
  | close | read | write | fstat | fsetstat | readdir | fsync => cases hnames
  | _ => rfl

/-! ### The size of the table -/

theorem length_insert (hcap : s.handles.length ≤ maxHandles) :
    (insert K id handle s).2.handles.length ≤ maxHandles := by
  unfold insert
  split
  · exact (List.length_set ..).trans_le hcap
  · split
    next hlt =>
      change (s.handles ++ [some handle]).length ≤ maxHandles
      rw [List.length_append]
      exact hlt
    next => exact hcap

theorem length_opening {p : Prog κ IoError (Handle F E)} (hcap : s.handles.length ≤ maxHandles) :
    (opening K id p s).2.handles.length ≤ maxHandles := by
  rw [opening_eq]
  split
  · split
    · exact length_insert hcap
    · exact hcap
  · exact hcap

theorem length_perform {q : Request} (hcap : s.handles.length ≤ maxHandles) :
    (perform K cwd id q s).2.handles.length ≤ maxHandles := by
  cases hopens : q.opens K with
  | some p =>
    cases q with
    | «open» | opendir => exact length_opening hcap
    | _ => cases hopens
  | none =>
    cases hnames : q.names with
    | none => rwa [perform_keeps hopens hnames]
    | some raw =>
      cases hof : s.handleOf raw with
      | none => rwa [perform_refused hnames hof]
      | some v => rwa [(actsOn_perform hnames (show _ = some (v.1, v.2) from hof)).length]

theorem length_handle {packet : Bytes} (hcap : s.handles.length ≤ maxHandles) :
    (s.handle K cwd packet).2.handles.length ≤ maxHandles := by
  by_cases h : ∃ id q, IsRequest packet id q
  · obtain ⟨id, q, hq⟩ := h
    rw [handle_request hq]
    exact length_perform hcap
  · rw [handle_malformed fun id q hq => h ⟨id, q, hq⟩]
    exact hcap

/-- No sequence of packets makes the table larger than its cap. -/
theorem length_after (packets : List Bytes) (hcap : s.handles.length ≤ maxHandles) :
    (s.after K cwd packets).handles.length ≤ maxHandles := by
  induction packets generalizing s with
  | nil => exact hcap
  | cons packet packets ih => exact ih (length_handle hcap)

/-! ### Every table of a session -/

theorem handlesLawful_of_length (hcap : s.handles.length ≤ maxHandles) : HandlesLawful K cwd s where
  capped := Nat.le_trans (List.length_filter_le _ _) hcap
  opens := by
    intro packet id q p hq hopens
    rw [handle_request hq]
    cases q with
    | «open» | opendir =>
      cases hopens
      exact opens_opening hcap
    | _ => cases hopens
  closes := by
    intro packet id raw i handle hq hof
    rw [handle_request hq]
    change slot (closeWork K id (s.handleOf raw) s).2.handles i = none
    rw [hof]
    exact slot_close (handleOf_eq_some.1 hof).2.2
  refuses := by
    intro packet id q raw hq hnames hdead
    rw [handle_request hq, perform_refused hnames (handleOf_eq_none hdead)]
  acts := by
    intro packet id q raw i handle hq hnames hof
    rw [handle_request hq]
    have hacts := @actsOn_perform _ _ _ K cwd s raw id i handle q hnames hof
    exact ⟨hacts.fs, hacts.stays, hacts.others⟩
  keeps := by
    intro packet id q hq hopens hnames
    rw [handle_request hq]
    exact perform_keeps hopens hnames

end

/-- In every session, at most 256 handles are open; OPEN and OPENDIR take a free slot or
touch nothing; CLOSE frees its own; and no request acts on a handle it does not name. -/
theorem handle_table_lawful (K : Kernel κ F E) (cwd : Bytes) (fs : κ) (packets : List Bytes) :
    HandlesLawful K cwd (Server.after K cwd { handles := [], fs } packets) :=
  handlesLawful_of_length (length_after packets (Nat.zero_le _))

end QuantumSsh.Sftp
