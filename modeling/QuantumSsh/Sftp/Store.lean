import QuantumSsh.Lib.Patches
import QuantumSsh.Sftp.Files
import QuantumSsh.Sftp.Handles

/-!
# What an SFTP session is for

Files that hold bytes, and handles that stand for files. A request with its reply reads from
a file or changes it, and what it changes is one edit of one file. Here an exchange is said
to be right by what the files hold, with no kernel and no table in sight; what is uploaded
and downloaded over a run of right exchanges follows from that alone.
-/

namespace QuantumSsh.Sftp

open Wire Patches

/-! ### Files and exchanges -/

/-- A change of what a file holds. -/
inductive Edit where
  | write (piece : Piece)
  | resize (size : ℕ)
deriving Repr, DecidableEq

/-- A file of another size: cut, or filled with zeros. -/
def resized (content : Bytes) (size : ℕ) : Bytes :=
  content.take size ++ List.replicate (size - content.length) 0

theorem resized_zero (content : Bytes) : resized content 0 = [] := by
  rw [resized, List.take_zero, Nat.zero_sub, List.replicate_zero, List.nil_append]

def Edit.apply (content : Bytes) : Edit → Bytes
  | .write piece => piece.apply content
  | .resize size => resized content size

/-- What a handle stands for. -/
inductive Opened (I : Type) where
  | file (file : I) (append : Bool)
  | dir

/-- What each file holds, and what each handle stands for. -/
@[ext] structure Store (I : Type) where
  content : I → Bytes
  opened : ℕ → Option (Opened I)

/-- A request and its reply, with the file it reads or changes and its edit. -/
structure Exchange (I : Type) where
  id : ℕ
  request : Request
  reply : Bytes
  file : Option I := none
  edit : Option Edit := none

variable {I : Type}

/-- The handle string names an open handle that stands for this. -/
def Store.Names (st : Store I) (raw : Bytes) (o : Opened I) : Prop :=
  raw.length = 4 ∧ st.opened (beValue raw) = some o

def Store.bind (st : Store I) (i : ℕ) (o : Option (Opened I)) : Store I :=
  { st with opened := Function.update st.opened i o }

@[simp] theorem Store.bind_opened_self (st : Store I) (i : ℕ) (o : Option (Opened I)) :
    (st.bind i o).opened i = o :=
  Function.update_self ..

theorem Store.bind_opened_ne (st : Store I) {i j : ℕ} (o : Option (Opened I)) (h : j ≠ i) :
    (st.bind i o).opened j = st.opened j :=
  Function.update_of_ne h ..

theorem Store.bind_eq_self {st : Store I} {i : ℕ} {o : Option (Opened I)} (h : st.opened i = o) :
    st.bind i o = st := by
  rw [← h, Store.bind, Function.update_eq_self]

/-- The codes of a request that did nothing. -/
def refusals : List ℕ := [fxNoSuchFile, fxPermissionDenied, fxFailure]

/-- A request that neither opens or closes a handle, nor reads or changes a file. -/
def Request.IsQuiet : Request → Prop
  | .open .. | .opendir _ | .close _ | .read .. | .write .. => False
  | .setstat _ attrs | .fsetstat _ attrs => attrs.size = none
  | _ => True

/-- An exchange that was answered OK and laid a slice of the whole at its offset. -/
def Exchange.Lays (x : Exchange I) (whole : Bytes) : Prop :=
  ∃ raw offset data, x.request = .write raw offset data ∧ x.reply = statusReply x.id fxOk ∧
    x.edit ≠ some (.write (none, data)) ∧ IsSlice whole (offset, data)

/-- Pieces that were read from the file, each with the offset it was read at; they leave
nothing below `n` out, and at `n` the file was said to end. -/
structure Downloads (f : I) (n : ℕ) (pieces : List (ℕ × Bytes)) (log : List (Exchange I)) :
    Prop where
  reads : ∀ p ∈ pieces, ∃ x ∈ log, x.file = some f ∧ ∃ raw len,
    x.request = .read raw p.1 len ∧ x.reply = dataReply x.id p.2
  covers : Cover pieces n
  ends : ∃ x ∈ log, x.file = some f ∧ ∃ raw len, len ≠ 0 ∧ x.request = .read raw n len ∧
    x.reply = statusReply x.id fxEof

variable [DecidableEq I]

/-- The edit of a file in an exchange. -/
def Exchange.editOf (f : I) (x : Exchange I) : Option Edit :=
  if x.file = some f then x.edit else none

/-- What a file holds behind some exchanges. -/
def after (f : I) (content : Bytes) (log : List (Exchange I)) : Bytes :=
  (log.filterMap (Exchange.editOf f)).foldl Edit.apply content

/-- What the files hold when one of them is edited. -/
def edited (content : I → Bytes) (f : I) (e : Edit) : I → Bytes :=
  Function.update content f (e.apply (content f))

def Store.edit (st : Store I) (f : I) (e : Edit) : Store I :=
  { st with content := edited st.content f e }

/-- An exchange that is right, and what it makes of the files and the handles. -/
inductive Step : Store I → Exchange I → Store I → Prop
  | opens {st : Store I} {id i pflags : ℕ} {path : Bytes} {attrs : SetAttrs} {f : I}
      (hi : i < maxHandles) (hfree : st.opened i = none) (hkeep : pflags &&& openTrunc = 0) :
      Step st { id, request := .open path pflags attrs, reply := handleReply id i, file := some f }
        (st.bind i (some (.file f (pflags &&& openAppend ≠ 0))))
  | truncates {st : Store I} {id i pflags : ℕ} {path : Bytes} {attrs : SetAttrs} {f : I}
      (hi : i < maxHandles) (hfree : st.opened i = none) (htrunc : pflags &&& openTrunc ≠ 0) :
      Step st
        { id, request := .open path pflags attrs, reply := handleReply id i, file := some f,
          edit := some (.resize 0) }
        ((st.edit f (.resize 0)).bind i (some (.file f (pflags &&& openAppend ≠ 0))))
  | opensDir {st : Store I} {id i : ℕ} {path : Bytes} (hi : i < maxHandles)
      (hfree : st.opened i = none) :
      Step st { id, request := .opendir path, reply := handleReply id i } (st.bind i (some .dir))
  | closes {st : Store I} {id : ℕ} {raw reply : Bytes} {o : Opened I} (hraw : st.Names raw o) :
      Step st { id, request := .close raw, reply } (st.bind (beValue raw) none)
  /-- A WRITE that is answered OK has written all of its data, any other a part of it. -/
  | writes {st : Store I} {id offset : ℕ} {raw data done reply : Bytes} {f : I} {append : Bool}
      (hraw : st.Names raw (.file f append)) (hpart : done <+: data)
      (hwhole : reply = statusReply id fxOk → done = data) :
      Step st
        { id, request := .write raw offset data, reply, file := some f,
          edit := some (.write (if append then none else some offset, done)) }
        (st.edit f (.write (if append then none else some offset, done)))
  | reads {st : Store I} {id offset len : ℕ} {raw data : Bytes} {f : I} {append : Bool}
      (hraw : st.Names raw (.file f append)) (hne : data ≠ [])
      (hlen : data.length ≤ min len maxData)
      (hpart : data <+: (st.content f).drop offset) :
      Step st { id, request := .read raw offset len, reply := dataReply id data, file := some f } st
  | ends {st : Store I} {id offset len : ℕ} {raw : Bytes} {f : I} {append : Bool}
      (hraw : st.Names raw (.file f append)) (hend : len = 0 ∨ (st.content f).length ≤ offset) :
      Step st
        { id, request := .read raw offset len, reply := statusReply id fxEof, file := some f } st
  | resizes {st : Store I} {id size : ℕ} {path reply : Bytes} {attrs : SetAttrs} {f : I}
      (hsize : attrs.size = some size) :
      Step st
        { id, request := .setstat path attrs, reply, file := some f, edit := some (.resize size) }
        (st.edit f (.resize size))
  | resizesOpen {st : Store I} {id size : ℕ} {raw reply : Bytes} {attrs : SetAttrs} {f : I}
      {append : Bool} (hraw : st.Names raw (.file f append)) (hsize : attrs.size = some size) :
      Step st
        { id, request := .fsetstat raw attrs, reply, file := some f, edit := some (.resize size) }
        (st.edit f (.resize size))
  | refused {st : Store I} {id code : ℕ} {q : Request} (hcode : code ∈ refusals) :
      Step st { id, request := q, reply := statusReply id code } st
  | quiet {st : Store I} {id : ℕ} {q : Request} {reply : Bytes} (hq : q.IsQuiet) :
      Step st { id, request := q, reply } st

/-- Right exchanges, one behind the other. -/
inductive Runs : Store I → List (Exchange I) → Store I → Prop
  | nil (st : Store I) : Runs st [] st
  | cons {st st₁ st' : Store I} {x : Exchange I} {log : List (Exchange I)} (h : Step st x st₁)
      (hrest : Runs st₁ log st') : Runs st (x :: log) st'

/-- Writes to a file that lay slices of the whole, all answered OK, and leave nothing of it
out. No other edit of the file stands among them. -/
structure Uploads (f : I) (whole : Bytes) (log : List (Exchange I)) : Prop where
  lays : ∀ x ∈ log, x.editOf f ≠ none → x.Lays whole
  covers : ∀ i < whole.length, ∃ x ∈ log, x.file = some f ∧ ∃ raw offset data,
    x.request = .write raw offset data ∧ Within (offset, data) i

/-- What the log tells of the files: each holds what its edits made of it; what was uploaded
is there, and what was downloaded is what was there. -/
structure TransfersExact (start : I → Bytes) (log : List (Exchange I)) (final : I → Bytes) :
    Prop where
  holds : ∀ f, final f = after f (start f) log
  uploads : ∀ f whole pre up post, log = pre ++ up ++ post →
    (after f (start f) pre).length ≤ whole.length → Uploads f whole up →
    after f (start f) (pre ++ up) = whole
  downloads : ∀ f n pieces pre down post, log = pre ++ down ++ post →
    (∀ x ∈ down, x.editOf f = none) → Downloads f n pieces down →
    pieces.foldl (patch 0) [] = after f (start f) pre

/-! ### Edits along a run -/

section

variable {st st₁ st' : Store I} {x : Exchange I} {log pre post : List (Exchange I)} {f : I}
  {raw data whole : Bytes} {offset len n : ℕ} {pieces : List (ℕ × Bytes)}

theorem after_append (f : I) (content : Bytes) (pre post : List (Exchange I)) :
    after f content (pre ++ post) = after f (after f content pre) post := by
  rw [after, List.filterMap_append, List.foldl_append]
  rfl

theorem after_cons_none (h : x.editOf f = none) (content : Bytes) (log : List (Exchange I)) :
    after f content (x :: log) = after f content log := by
  rw [after, List.filterMap_cons_none h, after]

theorem after_cons_some {e : Edit} (h : x.editOf f = some e) (content : Bytes)
    (log : List (Exchange I)) : after f content (x :: log) = after f (e.apply content) log := by
  rw [after, List.filterMap_cons_some h, List.foldl_cons, after]

theorem editOf_of_file (hfile : x.file = some f) : x.editOf f = x.edit := if_pos hfile

theorem editOf_of_edit (hedit : x.edit = none) (f : I) : x.editOf f = none := by
  rw [Exchange.editOf, hedit, ite_self]

theorem file_of_editOf {e : Edit} (h : x.editOf f = some e) : x.file = some f := by
  by_contra hne
  rw [Exchange.editOf, if_neg hne] at h
  cases h

/-- An edit of one file is the edit of the exchange that names it. -/
theorem edit_content (hfile : x.file = some f) {e : Edit} (hedit : x.edit = some e) (g : I) :
    (st.edit f e).content g = after g (st.content g) [x] := by
  change edited st.content f e g = _
  by_cases hg : g = f
  · subst hg
    have hof : x.editOf g = some e := (editOf_of_file hfile).trans hedit
    rw [edited, Function.update_self, after_cons_some hof]
    rfl
  · have hof : x.editOf g = none := by
      rw [Exchange.editOf, if_neg]
      rw [hfile]
      exact fun h => hg (Option.some.inj h).symm
    rw [edited, Function.update_of_ne hg, after_cons_none hof]
    rfl

/-- A right exchange leaves in every file what its edit makes of it. -/
theorem Step.content (h : Step st x st') (g : I) : st'.content g = after g (st.content g) [x] := by
  cases h with
  | opens | opensDir | closes | reads | ends | refused | quiet =>
    rw [after_cons_none (editOf_of_edit rfl g)]
    rfl
  | truncates | writes | resizes | resizesOpen => exact edit_content rfl rfl g

theorem Runs.content (h : Runs st log st') (g : I) :
    st'.content g = after g (st.content g) log := by
  induction h with
  | nil => rfl
  | @cons st st₁ st' x log hstep _ ih =>
    rw [ih, hstep.content, ← after_append, List.singleton_append]

/-- A run is cut anywhere. -/
theorem Runs.split (h : Runs st (pre ++ post) st') :
    ∃ st₁, Runs st pre st₁ ∧ Runs st₁ post st' := by
  induction pre generalizing st with
  | nil => exact ⟨st, .nil st, h⟩
  | cons x pre ih =>
    cases h with
    | cons hstep hrest =>
      obtain ⟨st₁, hpre, hpost⟩ := ih hrest
      exact ⟨st₁, .cons hstep hpre, hpost⟩

/-- An exchange of a run that does not edit the file finds it as the run did. -/
theorem Runs.found (h : Runs st log st') (hkeep : ∀ x ∈ log, x.editOf f = none) (hx : x ∈ log) :
    ∃ st₁ st₂, Step st₁ x st₂ ∧ st₁.content f = st.content f := by
  obtain ⟨pre, post, rfl⟩ := List.append_of_mem hx
  obtain ⟨st₁, hpre, hpost⟩ := h.split
  have hsame : after f (st.content f) pre = st.content f := by
    have hnone : pre.filterMap (Exchange.editOf f) = [] :=
      List.filterMap_eq_nil_iff.2 fun y hy => hkeep y (List.mem_append_left _ hy)
    rw [after, hnone]
    rfl
  cases hpost with
  | cons hstep _ => exact ⟨st₁, _, hstep, by rw [hpre.content, hsame]⟩

/-! ### What the replies tell -/

omit [DecidableEq I] in
theorem statusReply_inj {id code code' : ℕ} (hcode : code < 2 ^ 32) (hcode' : code' < 2 ^ 32)
    (h : statusReply id code = statusReply id code') : code = code' := by
  have hbody := List.append_cancel_left (List.cons.inj h).2
  rw [List.append_assoc, List.append_assoc] at hbody
  exact putUint32_inj hcode hcode' (List.append_inj_left hbody (by simp [putUint32]))

/-- What a WRITE to a file did there. -/
theorem Step.write_edit (h : Step st x st') (hq : x.request = .write raw offset data)
    (hfile : x.file = some f) :
    ∃ (append : Bool) (done : Bytes),
      x.edit = some (.write (if append then none else some offset, done)) ∧
      (x.reply = statusReply x.id fxOk → done = data) := by
  cases h with
  | @writes id offset' raw' data' done reply f' append hraw hpart hwhole =>
    cases hq
    exact ⟨append, done, rfl, hwhole⟩
  | refused | quiet => cases hfile
  | _ => cases hq

/-- What a READ of a file was given of it. -/
theorem Step.read_data (h : Step st x st') (hq : x.request = .read raw offset len)
    (hfile : x.file = some f) (hreply : x.reply = dataReply x.id data) :
    IsSlice (st.content f) (offset, data) := by
  cases h with
  | @reads id offset' len' raw' data' f' append hraw hne hlen hpart =>
    cases hq
    cases hfile
    have hbody := List.append_cancel_left (List.cons.inj hreply).2
    have heq : data' = data := List.append_inj_right hbody (by simp [putUint32])
    rwa [← heq]
  | ends => exact absurd hreply.symm dataReply_ne_statusReply
  | refused | quiet => cases hfile
  | _ => cases hq

theorem Step.read_end (h : Step st x st') (hq : x.request = .read raw offset len)
    (hfile : x.file = some f) (hreply : x.reply = statusReply x.id fxEof) (hlen : len ≠ 0) :
    (st.content f).length ≤ offset := by
  cases h with
  | reads => exact absurd hreply dataReply_ne_statusReply
  | @ends id offset' len' raw' f' append hraw hend =>
    cases hq
    cases hfile
    exact hend.resolve_left hlen
  | refused | quiet => cases hfile
  | _ => cases hq

/-- An edit that lays a slice of the whole is a WRITE of that slice at its offset. -/
theorem Step.lays (h : Step st x st') (hlays : x.Lays whole) {e : Edit}
    (hedit : x.editOf f = some e) :
    ∃ raw offset data, x.request = .write raw offset data ∧ e = .write (some offset, data) ∧
      IsSlice whole (offset, data) := by
  obtain ⟨raw, offset, data, hq, hreply, hplaced, hslice⟩ := hlays
  have hfile : x.file = some f := file_of_editOf hedit
  obtain ⟨append, done, hwrite, hwhole⟩ := h.write_edit hq hfile
  obtain rfl := hwhole hreply
  have he := hedit.symm.trans ((editOf_of_file hfile).trans hwrite)
  cases append with
  | false => exact ⟨raw, offset, done, hq, Option.some.inj he, hslice⟩
  | true =>
    -- The handle would append, and the data would not lie at the offset of the request.
    exact absurd hwrite hplaced

/-! ### Transfers along a run -/

/-- The writes of an upload, as patches in the order they came in. -/
theorem Runs.patched (h : Runs st log st')
    (hlays : ∀ x ∈ log, x.editOf f ≠ none → x.Lays whole) :
    ∃ ps : List (ℕ × Bytes), st'.content f = ps.foldl (patch 0) (st.content f) ∧
      (∀ p ∈ ps, IsSlice whole p) ∧ ∀ x ∈ log, x.file = some f → ∀ raw offset data,
        x.request = .write raw offset data → (offset, data) ∈ ps := by
  induction h with
  | nil => exact ⟨[], rfl, by simp, by simp⟩
  | @cons st st₁ st' x log hstep _ ih =>
    rw [List.forall_mem_cons] at hlays
    obtain ⟨ps, hcontent, hslices, hin⟩ := ih hlays.2
    rw [hstep.content f] at hcontent
    cases hedit : x.editOf f with
    | none =>
      rw [after_cons_none hedit] at hcontent
      refine ⟨ps, hcontent, hslices, List.forall_mem_cons.2 ⟨?_, hin⟩⟩
      intro hfile raw offset data hq
      obtain ⟨append, done, hwrite, -⟩ := hstep.write_edit hq hfile
      cases hedit.symm.trans ((editOf_of_file hfile).trans hwrite)
    | some e =>
      obtain ⟨raw, offset, data, hq, he, hslice⟩ :=
        hstep.lays (hlays.1 (by rw [hedit]; simp)) hedit
      rw [after_cons_some hedit, he] at hcontent
      refine ⟨(offset, data) :: ps, hcontent, List.forall_mem_cons.2 ⟨hslice, hslices⟩, ?_⟩
      rw [List.forall_mem_cons]
      constructor
      · intro _ raw' offset' data' hq'
        rw [hq] at hq'
        cases hq'
        exact List.mem_cons_self
      · intro y hy hfile raw' offset' data' hq'
        exact List.mem_cons_of_mem _ (hin y hy hfile raw' offset' data' hq')

theorem Runs.uploaded (h : Runs st log st') (hup : Uploads f whole log)
    (hshort : (st.content f).length ≤ whole.length) : st'.content f = whole := by
  obtain ⟨ps, hcontent, hslices, hin⟩ := h.patched hup.lays
  rw [hcontent]
  refine foldl_patch_eq 0 hshort hslices fun i hi => ?_
  obtain ⟨x, hx, hfile, raw, offset, data, hq, hwithin⟩ := hup.covers i hi
  exact ⟨(offset, data), hin x hx hfile raw offset data hq, hwithin⟩

theorem Runs.downloaded (h : Runs st log st') (hkeep : ∀ x ∈ log, x.editOf f = none)
    (hdown : Downloads f n pieces log) : pieces.foldl (patch 0) [] = st.content f := by
  have hslices : ∀ p ∈ pieces, IsSlice (st.content f) p := by
    intro p hp
    obtain ⟨x, hx, hfile, raw, len, hq, hreply⟩ := hdown.reads p hp
    obtain ⟨st₁, st₂, hstep, hsame⟩ := h.found hkeep hx
    rw [← hsame]
    exact hstep.read_data hq hfile hreply
  have hend : (st.content f).length ≤ n := by
    obtain ⟨x, hx, hfile, raw, len, hlen, hq, hreply⟩ := hdown.ends
    obtain ⟨st₁, st₂, hstep, hsame⟩ := h.found hkeep hx
    rw [← hsame]
    exact hstep.read_end hq hfile hreply hlen
  exact foldl_patch_eq 0 (Nat.zero_le _) hslices fun i hi => hdown.covers i (hi.trans_le hend)

/-- Right exchanges transfer exactly. -/
theorem Runs.transfers (h : Runs st log st') : TransfersExact st.content log st'.content where
  holds := h.content
  uploads := by
    rintro f whole pre up post rfl hshort hup
    obtain ⟨st₂, hfront, -⟩ := h.split
    obtain ⟨st₁, hpre, hrun⟩ := hfront.split
    rw [← hpre.content] at hshort
    rw [← hfront.content]
    exact hrun.uploaded hup hshort
  downloads := by
    rintro f n pieces pre down post rfl hkeep hdown
    obtain ⟨st₂, hfront, -⟩ := h.split
    obtain ⟨st₁, hpre, hrun⟩ := hfront.split
    rw [← hpre.content]
    exact hrun.downloaded hkeep hdown

end

end QuantumSsh.Sftp
