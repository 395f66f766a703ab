import QuantumSsh.Sftp.Files
import QuantumSsh.Sftp.Paths

/-!
# The normal form of REALPATH

What `realpath` returns is the path of plain components, all of them there and none a
symlink, but that the last may be missing. Resolving such a path gives the path itself.
-/

namespace QuantumSsh.Sftp

open Program

variable {κ F E : Type}

/-- A component that stands for itself: not empty, without a `/`, neither `.` nor `..`. -/
structure Plain (c : Bytes) : Prop where
  ne_nil : c ≠ []
  no_slash : slash ∉ c
  ne_dot : c ≠ [dot]
  ne_dots : c ≠ [dot, dot]

/-- The absolute path of the components: a `/`, and one between them. -/
def absolute (comps : List Bytes) : Bytes := slash :: [slash].intercalate comps

/-! ### Components -/

/-- The components, a `/` before each of them. -/
def render (comps : List Bytes) : Bytes := comps.flatMap (slash :: ·)

@[simp] theorem render_nil : render [] = [] := rfl

@[simp] theorem render_cons (c : Bytes) (comps : List Bytes) :
    render (c :: comps) = slash :: (c ++ render comps) := rfl

@[simp] theorem render_concat (comps : List Bytes) (c : Bytes) :
    render (comps ++ [c]) = render comps ++ slash :: c := by
  simp [render]

theorem intercalate_cons (c : Bytes) (comps : List Bytes) :
    [slash].intercalate (c :: comps) = c ++ render comps := by
  induction comps generalizing c with
  | nil => simp
  | cons d comps ih => rw [List.intercalate_cons_cons, ih, render_cons]; simp

theorem absolute_concat (comps : List Bytes) (c : Bytes) :
    absolute (comps ++ [c]) = render comps ++ slash :: c := by
  rw [← render_concat]
  cases comps with
  | nil => simp [absolute]
  | cons d comps => rw [List.cons_append, absolute, intercalate_cons, render_cons]

theorem getLast?_ne_slash {front c : Bytes} (hc : Plain c) :
    (front ++ slash :: c).getLast? ≠ some slash := by
  intro h
  rw [List.getLast?_append_of_ne_nil _ (by simp), List.getLast?_cons_of_ne_nil hc.ne_nil] at h
  exact hc.no_slash (List.mem_of_getLast? h)

/-! ### The edits of the resolved path -/

theorem findIdx?_no_slash {l : Bytes} (hl : slash ∉ l) :
    l.findIdx? (fun b => decide (b = slash)) = none := by
  rw [List.findIdx?_eq_none_iff]
  intro b hb
  rw [decide_eq_false_iff_not]
  rintro rfl
  exact hl hb

theorem rposition_slash {front c : Bytes} (hc : slash ∉ c) :
    rposition (fun b => decide (b = slash)) (front ++ slash :: c) = some front.length := by
  have hfind : (front ++ slash :: c).reverse.findIdx? (fun b => decide (b = slash)) =
      some c.length := by
    rw [List.reverse_append, List.reverse_cons, List.append_assoc, List.findIdx?_append,
      findIdx?_no_slash (fun h => hc (List.mem_reverse.1 h)), List.singleton_append,
      List.findIdx?_cons]
    simp
  rw [rposition, hfind]
  simp

theorem take_behind_slash (front c : Bytes) :
    (front ++ slash :: c).take (max (front.length + 1) 1) = front ++ [slash] := by
  have hmax : max (front.length + 1) 1 = (front ++ [slash]).length := by simp
  have hcut : front ++ slash :: c = front ++ [slash] ++ c := by simp
  rw [hmax, hcut, List.take_left]

/-- The cut is behind the last `/`. -/
theorem popComponent_last {front c : Bytes} (hc : Plain c) :
    popComponent (front ++ slash :: c) = front ++ [slash] := by
  have hlen := List.length_pos_iff.2 hc.ne_nil
  unfold popComponent
  rw [if_neg (by simp; omega), if_neg (getLast?_ne_slash hc)]
  simp only [List.take_length, rposition_slash hc.no_slash, Option.map_some, Option.getD_some]
  exact take_behind_slash front c

/-- A `/` at the end does not count. -/
theorem popComponent_slash {front c : Bytes} (hc : Plain c) :
    popComponent (front ++ slash :: c ++ [slash]) = front ++ [slash] := by
  have hstop : (front ++ slash :: c ++ [slash]).length - 1 = (front ++ slash :: c).length := by simp
  unfold popComponent
  rw [if_neg (by simp; omega), if_pos List.getLast?_concat, hstop]
  simp only [List.take_left, rposition_slash hc.no_slash, Option.map_some, Option.getD_some]
  rw [List.append_assoc, List.cons_append]
  exact take_behind_slash front (c ++ [slash])

/-- The path of the components, or that with a `/` at its end. -/
inductive Spells : List Bytes → Bytes → Prop
  | ended (comps : List Bytes) : Spells comps (render comps ++ [slash])
  | bare (comps : List Bytes) (c : Bytes) : Spells (comps ++ [c]) (render comps ++ slash :: c)

theorem Spells.withSlash {comps : List Bytes} {resolved : Bytes} (h : Spells comps resolved)
    (hplain : ∀ c ∈ comps, Plain c) : withSlash resolved = render comps ++ [slash] := by
  unfold Sftp.withSlash
  cases h with
  | ended => rw [if_pos List.getLast?_concat]
  | bare comps c => rw [if_neg (getLast?_ne_slash (hplain c (by simp))), render_concat]

theorem Spells.append {comps : List Bytes} {resolved : Bytes} (h : Spells comps resolved)
    (hplain : ∀ c ∈ comps, Plain c) (token : Bytes) :
    Sftp.withSlash resolved ++ token = absolute (comps ++ [token]) := by
  rw [h.withSlash hplain, absolute_concat, List.append_assoc, List.singleton_append]

theorem popComponent_render {comps : List Bytes} (hplain : ∀ c ∈ comps, Plain c) :
    popComponent (render comps ++ [slash]) = render comps.dropLast ++ [slash] := by
  induction comps using List.reverseRecOn with
  | nil => rfl
  | append_singleton comps c _ =>
    rw [render_concat, popComponent_slash (hplain c (by simp)), List.dropLast_concat]

theorem Spells.trimmed {comps : List Bytes} {resolved : Bytes} (h : Spells comps resolved)
    (hplain : ∀ c ∈ comps, Plain c) : trimmed resolved = absolute comps := by
  unfold Sftp.trimmed
  cases h with
  | ended =>
    rcases List.eq_nil_or_concat' comps with rfl | ⟨comps, c, rfl⟩
    · rfl
    · have hlen : 1 < (render (comps ++ [c]) ++ [slash]).length := by
        rw [render_concat]
        simp
        omega
      rw [if_pos ⟨hlen, List.getLast?_concat⟩, List.dropLast_concat, absolute_concat, render_concat]
  | bare comps c =>
    have hlast := @getLast?_ne_slash (render comps) c (hplain c (by simp))
    rw [if_neg fun h => hlast h.2, absolute_concat]

/-! ### What the components lead to -/

/-- Looking does not change the filesystem, and nobody else does. -/
structure Kernel.Static (K : Kernel κ F E) (s : κ) : Prop where
  lstat : ∀ path, (K.lstat path s).2 = s
  readLink : ∀ path, (K.readLink path s).2 = s

theorem Kernel.Static.of_lstat {K : Kernel κ F E} {s s' : κ} (h : K.Static s) {path : Bytes}
    {result : Except IoError Metadata} (hlstat : K.lstat path s = (result, s')) : s' = s := by
  have hsnd := h.lstat path
  rwa [hlstat] at hsnd

theorem Kernel.Static.of_readLink {K : Kernel κ F E} {s s' : κ} (h : K.Static s) {path : Bytes}
    {result : Except IoError Bytes} (hread : K.readLink path s = (result, s')) : s' = s := by
  have hsnd := h.readLink path
  rwa [hread] at hsnd

/-- Something is there, and it is no symlink. -/
def Kernel.Found (K : Kernel κ F E) (s : κ) (path : Bytes) : Prop :=
  ∃ m, (K.lstat path s).1 = .ok m ∧ m.isSymlink = false

/-- Nothing is there. -/
def Kernel.Missing (K : Kernel κ F E) (s : κ) (path : Bytes) : Prop :=
  ∃ e, (K.lstat path s).1 = .error e ∧ e.kind = .notFound

/-- Plain components that are all there, none of them a symlink. -/
structure Real (K : Kernel κ F E) (s : κ) (comps : List Bytes) : Prop where
  plain : ∀ c ∈ comps, Plain c
  found : ∀ front c, front ++ [c] <+: comps → K.Found s (absolute (front ++ [c]))

/-- As before, but that the last component may be missing. -/
structure Settled (K : Kernel κ F E) (s : κ) (comps : List Bytes) : Prop where
  plain : ∀ c ∈ comps, Plain c
  found : ∀ front c, front ++ [c] <+: comps → front ++ [c] ≠ comps →
    K.Found s (absolute (front ++ [c]))
  last : comps ≠ [] → K.Found s (absolute comps) ∨ K.Missing s (absolute comps)

section

variable {K : Kernel κ F E} {s : κ} {comps : List Bytes} {c : Bytes}

theorem real_nil : Real K s [] where
  plain := nofun
  found := by
    intro front c h
    exact absurd (List.prefix_nil.1 h) (by simp)

theorem Real.concat (h : Real K s comps) (hc : Plain c) (hfound : K.Found s (absolute (comps ++ [c]))) :
    Real K s (comps ++ [c]) where
  plain := by
    intro d hd
    obtain hd | hd := List.mem_append.1 hd
    · exact h.plain d hd
    · rwa [List.mem_singleton.1 hd]
  found := by
    intro front d hpart
    obtain heq | hpart := List.prefix_concat_iff.1 hpart
    · rwa [heq]
    · exact h.found front d hpart

theorem Real.of_prefix {front : List Bytes} (h : Real K s comps) (hfront : front <+: comps) :
    Real K s front where
  plain := fun c hc => h.plain c (hfront.subset hc)
  found := fun before c hpart => h.found before c (hpart.trans hfront)

theorem Real.settled (h : Real K s comps) : Settled K s comps where
  plain := h.plain
  found := fun front c hpart _ => h.found front c hpart
  last := by
    intro hne
    obtain hnil | ⟨front, c, rfl⟩ := List.eq_nil_or_concat' comps
    · exact absurd hnil hne
    · exact .inl (h.found front c (List.prefix_refl _))

theorem Real.settled_concat (h : Real K s comps) (hc : Plain c)
    (hmissing : K.Missing s (absolute (comps ++ [c]))) : Settled K s (comps ++ [c]) where
  plain := by
    intro d hd
    obtain hd | hd := List.mem_append.1 hd
    · exact h.plain d hd
    · rwa [List.mem_singleton.1 hd]
  found := by
    intro front d hpart hne
    exact h.found front d ((List.prefix_concat_iff.1 hpart).resolve_left hne)
  last := fun _ => .inr hmissing

end

/-! ### The loop -/

theorem nextToken_no_slash {left token rest : Bytes} {last : Bool}
    (h : nextToken left = (token, rest, last)) :
    slash ∉ token := by
  unfold nextToken at h
  split at h
  next i hi =>
    cases h
    intro hmem
    obtain ⟨j, hj, hget⟩ := List.mem_iff_getElem.1 hmem
    rw [List.length_take] at hj
    rw [List.getElem_take] at hget
    have hbefore := (List.findIdx?_eq_some_iff_getElem.1 hi).2.2 j (by omega)
    rw [hget] at hbefore
    simp at hbefore
  next hnone =>
    cases h
    intro hmem
    simpa using List.findIdx?_eq_none_iff.1 hnone slash hmem

/-- A token that is looked up is a plain component. -/
theorem plain_token {left token rest : Bytes} {last : Bool}
    (h : nextToken left = (token, rest, last)) (hskip : ¬(token = [] ∨ token = [dot]))
    (hdots : token ≠ [dot, dot]) : Plain token where
  ne_nil := fun h => hskip (.inl h)
  no_slash := nextToken_no_slash h
  ne_dot := fun h => hskip (.inr h)
  ne_dots := hdots

theorem take_one_render (comps : List Bytes) (c : Bytes) :
    (render comps ++ slash :: c).take 1 = [slash] := by
  cases comps <;> rfl

section

variable {K : Kernel κ F E} {s : κ}

/-- The loop keeps the resolved part real, and ends on a settled path. -/
theorem settled_resolve (hstatic : K.Static s) {links : ℕ} {resolved left p : Bytes} {s' : κ}
    (hrun : resolve K links resolved left s = (.ok p, s')) {comps : List Bytes}
    (hspells : Spells comps resolved) (hreal : Real K s comps) :
    s' = s ∧ ∃ comps', Spells comps' p ∧ Settled K s comps' := by
  fun_induction resolve K links resolved left s generalizing comps with
  | case1 =>
    cases hrun
    exact ⟨rfl, comps, hspells, hreal.settled⟩
  | case2 links resolved left s hleft token rest last htoken resolved' hskip ih =>
    refine ih hstatic hrun ?_ hreal
    rw [show resolved' = render comps ++ [slash] from hspells.withSlash hreal.plain]
    exact .ended comps
  | case3 links resolved left s hleft rest last resolved' htoken hskip ih =>
    refine ih hstatic hrun ?_ (hreal.of_prefix (List.dropLast_prefix comps))
    rw [show resolved' = render comps ++ [slash] from hspells.withSlash hreal.plain,
      popComponent_render hreal.plain]
    exact .ended comps.dropLast
  | case4 links resolved left s hleft token rest last htoken resolved' hskip hdots resolved'' e s₁
      hlstat hmissing =>
    have hresolved : resolved'' = absolute (comps ++ [token]) := hspells.append hreal.plain token
    have hplain : Plain token := plain_token htoken hskip hdots
    have hp : resolved'' = p := Except.ok.inj (Prod.mk.inj hrun).1
    refine ⟨(Prod.mk.inj hrun).2.symm.trans (hstatic.of_lstat hlstat), comps ++ [token], ?_, ?_⟩
    · rw [← hp, hresolved, absolute_concat]
      exact .bare comps token
    · rw [hresolved] at hlstat
      exact hreal.settled_concat hplain ⟨e, by rw [hlstat], hmissing.1⟩
  | case5 => cases hrun
  | case6 => cases hrun
  | case7 => cases hrun
  | case8 links resolved left s hleft token rest last htoken resolved' hskip hdots resolved'' m s₁
      hlstat hlink hlinks target s₂ hread base =>
    rename_i ih
    -- an absolute target starts again at the root, a relative one beside the link
    have hresolved : resolved'' = render comps ++ slash :: token := by
      rw [← absolute_concat]
      exact hspells.append hreal.plain token
    have hplain : Plain token := plain_token htoken hskip hdots
    have hs₁ := hstatic.of_lstat hlstat
    subst hs₁
    have hs₂ := hstatic.of_readLink hread
    subst hs₂
    by_cases hroot : target.head? = some slash
    · refine ih hstatic hrun ?_ real_nil
      rw [show base = resolved''.take 1 from dif_pos hroot, hresolved, take_one_render]
      exact .ended []
    · refine ih hstatic hrun ?_ hreal
      rw [show base = popComponent resolved'' from dif_neg hroot, hresolved, popComponent_last hplain]
      exact .ended comps
  | case9 links resolved left s hleft token rest last htoken resolved' hskip hdots resolved'' m s₁
      hlstat hlink ih =>
    have hresolved : resolved'' = absolute (comps ++ [token]) := hspells.append hreal.plain token
    have hplain : Plain token := plain_token htoken hskip hdots
    have hs₁ := hstatic.of_lstat hlstat
    subst hs₁
    rw [hresolved] at hlstat
    refine ih hstatic hrun ?_ (hreal.concat hplain ⟨m, by rw [hlstat], by simpa using hlink⟩)
    rw [hresolved, absolute_concat]
    exact .bare comps token

/-! ### A path that is resolved already -/

theorem nextToken_last {c : Bytes} (hc : slash ∉ c) : nextToken c = (c, [], true) := by
  rw [nextToken, findIdx?_no_slash hc]

theorem nextToken_slash {c : Bytes} (hc : slash ∉ c) (rest : Bytes) :
    nextToken (c ++ slash :: rest) = (c, rest, false) := by
  have hfind : (c ++ slash :: rest).findIdx? (fun b => decide (b = slash)) = some c.length := by
    rw [List.findIdx?_append, findIdx?_no_slash hc, List.findIdx?_cons]
    simp
  rw [nextToken, hfind]
  simp

/-- A component that is there, and no symlink, is passed. -/
theorem resolve_found (hstatic : K.Static s) {links : ℕ} {resolved left token rest : Bytes}
    {last : Bool} (hleft : left ≠ []) (htoken : nextToken left = (token, rest, last))
    (hplain : Plain token) (hfound : K.Found s (withSlash resolved ++ token)) :
    resolve K links resolved left s = resolve K links (withSlash resolved ++ token) rest s := by
  obtain ⟨m, hm, hlink⟩ := hfound
  have hlstat : K.lstat (withSlash resolved ++ token) s = (.ok m, s) :=
    Prod.ext hm (hstatic.lstat _)
  have hskip : ¬(token = [] ∨ token = [dot]) := fun h => h.elim hplain.ne_nil hplain.ne_dot
  conv_lhs => rw [resolve, dif_neg hleft]
  simp only [htoken, if_neg hskip, if_neg hplain.ne_dots, hlstat, hlink]
  rfl

/-- A last component that is missing ends the path. -/
theorem resolve_missing (hstatic : K.Static s) {links : ℕ} {resolved left token rest : Bytes}
    (hleft : left ≠ []) (htoken : nextToken left = (token, rest, true)) (hplain : Plain token)
    (hmissing : K.Missing s (withSlash resolved ++ token)) :
    resolve K links resolved left s = (.ok (withSlash resolved ++ token), s) := by
  obtain ⟨e, he, hkind⟩ := hmissing
  have hlstat : K.lstat (withSlash resolved ++ token) s = (.error e, s) :=
    Prod.ext he (hstatic.lstat _)
  have hskip : ¬(token = [] ∨ token = [dot]) := fun h => h.elim hplain.ne_nil hplain.ne_dot
  rw [resolve, dif_neg hleft]
  simp only [htoken, if_neg hskip, if_neg hplain.ne_dots, hlstat, hkind, and_self, if_true]

/-- A symlink is replaced by its target. -/
theorem resolve_link (hstatic : K.Static s) {links : ℕ} {resolved left token rest target : Bytes}
    {last : Bool} {m : Metadata} (hleft : left ≠ []) (htoken : nextToken left = (token, rest, last))
    (hplain : Plain token) (hm : (K.lstat (withSlash resolved ++ token) s).1 = .ok m)
    (hlink : m.isSymlink = true) (hlinks : ¬symloopMax < links + 1)
    (htarget : (K.readLink (withSlash resolved ++ token) s).1 = .ok target) :
    resolve K links resolved left s =
      resolve K (links + 1)
        (if target.head? = some slash then (withSlash resolved ++ token).take 1
          else popComponent (withSlash resolved ++ token)) (linkLeft target rest last) s := by
  have hlstat : K.lstat (withSlash resolved ++ token) s = (.ok m, s) :=
    Prod.ext hm (hstatic.lstat _)
  have hread : K.readLink (withSlash resolved ++ token) s = (.ok target, s) :=
    Prod.ext htarget (hstatic.readLink _)
  have hskip : ¬(token = [] ∨ token = [dot]) := fun h => h.elim hplain.ne_nil hplain.ne_dot
  conv_lhs => rw [resolve, dif_neg hleft]
  simp only [htoken, if_neg hskip, if_neg hplain.ne_dots, hlstat, if_pos hlink, dif_neg hlinks, hread]

/-- The loop passes over the rest of a settled path as it stands. -/
theorem resolve_settled (hstatic : K.Static s) {links : ℕ} {front todo : List Bytes}
    {resolved : Bytes} (hsettled : Settled K s (front ++ todo)) (hspells : Spells front resolved) :
    ∃ p, resolve K links resolved ([slash].intercalate todo) s = (.ok p, s) ∧
      Spells (front ++ todo) p := by
  induction todo generalizing front resolved with
  | nil =>
    refine ⟨resolved, ?_, by rwa [List.append_nil]⟩
    rw [List.intercalate_nil, resolve, dif_pos rfl]
  | cons c todo ih =>
    have hplain : Plain c := hsettled.plain c (by simp)
    have happend := hspells.append (fun d hd => hsettled.plain d (by simp [hd])) c
    have hspells' : Spells (front ++ [c]) (absolute (front ++ [c])) := by
      rw [absolute_concat]
      exact .bare front c
    have hcons : front ++ c :: todo = front ++ [c] ++ todo := by simp
    -- the last component may be missing, any other one is there
    cases todo with
    | nil =>
      rw [List.intercalate_singleton]
      obtain hfound | hmissing := hsettled.last (by simp)
      · rw [← happend] at hfound
        rw [resolve_found hstatic hplain.ne_nil (nextToken_last hplain.no_slash) hplain hfound,
          happend]
        exact ⟨_, by rw [resolve, dif_pos rfl], hspells'⟩
      · rw [← happend] at hmissing
        rw [resolve_missing hstatic hplain.ne_nil (nextToken_last hplain.no_slash) hplain hmissing,
          happend]
        exact ⟨_, rfl, hspells'⟩
    | cons d todo =>
      have hfound : K.Found s (withSlash resolved ++ c) := by
        rw [happend]
        refine hsettled.found front c ?_ (by simp)
        rw [hcons]
        exact List.prefix_append ..
      rw [List.intercalate_cons_cons, List.append_assoc, List.singleton_append,
        resolve_found hstatic (by simp) (nextToken_slash hplain.no_slash _) hplain hfound, happend,
        hcons]
      rw [hcons] at hsettled
      exact ih hsettled hspells'

end

/-! ### REALPATH -/

theorem spells_absolute (comps : List Bytes) : Spells comps (absolute comps) := by
  obtain rfl | ⟨comps, c, rfl⟩ := List.eq_nil_or_concat' comps
  · exact .ended []
  · rw [absolute_concat]
    exact .bare comps c

section

variable {K : Kernel κ F E} {s : κ}

/-- What REALPATH returns is settled. -/
theorem settled_realpath (hstatic : K.Static s) {path : Bytes} {base : List Bytes}
    (hbase : Real K s base) {p : Bytes} {s' : κ}
    (h : realpath K path (absolute base) s = (.ok p, s')) :
    ∃ comps, p = absolute comps ∧ Settled K s comps := by
  have hstart : ∃ comps, Spells comps (realpathStart path (absolute base)).1 ∧ Real K s comps := by
    unfold realpathStart
    split
    · exact ⟨base, spells_absolute base, hbase⟩
    · split
      · exact ⟨[], .ended [], real_nil⟩
      · exact ⟨base, spells_absolute base, hbase⟩
  obtain ⟨comps, hspells, hreal⟩ := hstart
  rw [realpath_eq] at h
  split at h
  next resolved s₁ hresolve =>
    obtain ⟨-, comps', hspells', hsettled⟩ := settled_resolve hstatic hresolve hspells hreal
    cases h
    exact ⟨comps', hspells'.trimmed hsettled.plain, hsettled⟩
  next => cases h

/-- REALPATH of a settled path is the path, from any directory. -/
theorem realpath_absolute (hstatic : K.Static s) {comps : List Bytes} (h : Settled K s comps)
    (cwd : Bytes) : realpath K (absolute comps) cwd s = (.ok (absolute comps), s) := by
  have hstart : realpathStart (absolute comps) cwd = ([slash], [slash].intercalate comps) := by
    rw [absolute, realpathStart, if_pos rfl]
  obtain ⟨p, hresolve, hspells⟩ := @resolve_settled _ _ _ K s hstatic 0 [] comps [slash] h (.ended [])
  rw [realpath_eq, hstart]
  dsimp only
  rw [hresolve]
  dsimp only
  rw [hspells.trimmed h.plain]
  rfl

/-- REALPATH returns the absolute path of plain components: all but the last are there, none is
a symlink, and REALPATH of the result is the result. -/
theorem realpath_normal_form (hstatic : K.Static s) {path : Bytes} {base : List Bytes}
    (hbase : Real K s base) {p : Bytes} {s' : κ}
    (h : realpath K path (absolute base) s = (.ok p, s')) :
    ∃ comps, p = absolute comps ∧ (∀ c ∈ comps, Plain c) ∧
      (∀ front c, front ++ [c] <+: comps → front ++ [c] ≠ comps →
        ∃ m, (K.lstat (absolute (front ++ [c])) s).1 = .ok m) ∧
      (∀ front c, front ++ [c] <+: comps → ∀ m,
        (K.lstat (absolute (front ++ [c])) s).1 = .ok m → m.isSymlink = false) ∧
      ∀ cwd, realpath K p cwd s = (.ok p, s) := by
  obtain ⟨comps, rfl, hsettled⟩ := settled_realpath hstatic hbase h
  refine ⟨comps, rfl, hsettled.plain, fun front c hpart hne => ?_, fun front c hpart m hm => ?_,
    realpath_absolute hstatic hsettled⟩
  · obtain ⟨m, hm, -⟩ := hsettled.found front c hpart hne
    exact ⟨m, hm⟩
  · by_cases hlast : front ++ [c] = comps
    · subst hlast
      obtain ⟨m', hm', hlink⟩ | ⟨e, he, -⟩ := hsettled.last (by simp)
      · cases hm.symm.trans hm'
        exact hlink
      · cases hm.symm.trans he
    · obtain ⟨m', hm', hlink⟩ := hsettled.found front c hpart hlast
      cases hm.symm.trans hm'
      exact hlink

end

/-- A filesystem of a directory `/d` and a symlink `/l` to it. -/
def linkKernel : Kernel Unit Unit Empty where
  __ := refusingKernel Unit Unit Empty Empty.elim
  lstat := fun path s =>
    if path = [slash, 0x64] then (.ok ⟨0, 2, 0, 0, 0o040755, 0, 0⟩, s)
    else if path = [slash, 0x6c] then (.ok ⟨1, 1, 0, 0, 0o120777, 0, 0⟩, s)
    else (.error (.ofKind .notFound), s)
  readLink := fun path s =>
    if path = [slash, 0x6c] then (.ok [0x64], s) else (.error (.ofKind .invalidInput), s)

theorem linkKernel_static : linkKernel.Static () where
  lstat := fun _ => rfl
  readLink := fun _ => rfl

theorem realpath_linkKernel :
    realpath linkKernel [0x6c, slash, 0x78] [slash] () = (.ok [slash, 0x64, slash, 0x78], ()) := by
  have hplain : ∀ b : UInt8, b ≠ slash → b ≠ dot → Plain [b] := by
    intro b hslash hdot
    exact ⟨by simp, by simpa using hslash.symm, by simpa using hdot, by simp⟩
  have hl : nextToken [0x6c, slash, 0x78] = ([0x6c], [0x78], false) := rfl
  have hd : nextToken [0x64, slash, 0x78] = ([0x64], [0x78], false) := rfl
  have hx : nextToken [0x78] = ([0x78], [], true) := rfl
  have hlstat : (linkKernel.lstat (withSlash [slash] ++ [0x6c]) ()).1 =
      .ok ⟨1, 1, 0, 0, 0o120777, 0, 0⟩ := rfl
  have hread : (linkKernel.readLink (withSlash [slash] ++ [0x6c]) ()).1 = .ok [0x64] := rfl
  have hresolve : resolve linkKernel 0 [slash] [0x6c, slash, 0x78] () =
      (.ok [slash, 0x64, slash, 0x78], ()) :=
    calc resolve linkKernel 0 [slash] [0x6c, slash, 0x78] ()
      _ = resolve linkKernel 1 [slash] [0x64, slash, 0x78] () :=
        resolve_link linkKernel_static (by decide) hl (hplain _ (by decide) (by decide)) hlstat rfl
          (by decide) hread
      _ = resolve linkKernel 1 [slash, 0x64] [0x78] () :=
        resolve_found linkKernel_static (by decide) hd (hplain _ (by decide) (by decide))
          ⟨_, rfl, rfl⟩
      _ = (.ok [slash, 0x64, slash, 0x78], ()) :=
        resolve_missing linkKernel_static (by decide) hx (hplain _ (by decide) (by decide))
          ⟨_, rfl, rfl⟩
  rw [realpath_eq, show realpathStart [0x6c, slash, 0x78] [slash] = ([slash], [0x6c, slash, 0x78])
    from rfl]
  dsimp only
  rw [hresolve]
  rfl

/-- The link is followed, and the missing file behind it kept. -/
theorem realpath_normal_form_behind_link :
    ∃ comps, [slash, 0x64, slash, 0x78] = absolute comps ∧ (∀ c ∈ comps, Plain c) ∧
      ∀ cwd, realpath linkKernel [slash, 0x64, slash, 0x78] cwd () =
        (.ok [slash, 0x64, slash, 0x78], ()) := by
  obtain ⟨comps, hp, hplain, -, -, hagain⟩ :=
    realpath_normal_form linkKernel_static real_nil realpath_linkKernel
  exact ⟨comps, hp, hplain, hagain⟩

end QuantumSsh.Sftp
