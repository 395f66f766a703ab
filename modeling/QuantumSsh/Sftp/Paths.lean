import QuantumSsh.Sftp.Basic

/-!
# Resolved paths

A path that `realpath` resolves is no longer than the kernel looks up: every component
that is added is looked up with all before it.
-/

namespace QuantumSsh.Sftp

open Program

variable {κ F E : Type}

/-- No longer than `PATH_MAX`, but for a `/` at the end. -/
def Short (resolved : Bytes) : Prop :=
  resolved.length ≤ pathMax ∨ resolved.length = pathMax + 1 ∧ resolved.getLast? = some slash

theorem Short.withSlash {resolved : Bytes} (h : Short resolved) : Short (withSlash resolved) := by
  unfold Sftp.withSlash
  split
  next => exact h
  next hlast =>
    have hle : resolved.length ≤ pathMax := h.resolve_right fun h => hlast h.2
    by_cases heq : resolved.length = pathMax
    · exact .inr ⟨by simp [heq], by simp⟩
    · exact .inl (by simp; omega)

theorem rposition_lt {p : UInt8 → Bool} {l : Bytes} {i : ℕ} (h : rposition p l = some i) :
    i < l.length := by
  obtain ⟨j, hj, rfl⟩ := Option.map_eq_some_iff.1 h
  have hlt := (List.findIdx?_eq_some_iff_getElem.1 hj).1
  rw [List.length_reverse] at hlt
  omega

theorem length_popComponent_le (resolved : Bytes) :
    (popComponent resolved).length ≤ resolved.length := by
  unfold popComponent
  split
  · exact Nat.le_refl _
  · exact List.length_take_le' _ _

/-- What is cut off has at least the `/` at the end. -/
theorem length_popComponent_lt {resolved : Bytes} (hlen : 1 < resolved.length)
    (hlast : resolved.getLast? = some slash) : (popComponent resolved).length < resolved.length := by
  unfold popComponent
  rw [if_neg (by omega), if_pos hlast]
  dsimp only
  rw [List.length_take]
  cases hpos : rposition (fun b => decide (b = slash)) (resolved.take (resolved.length - 1)) with
  | none =>
    simp only [Option.map_none, Option.getD_none]
    omega
  | some i =>
    have hlt := rposition_lt hpos
    rw [List.length_take] at hlt
    simp only [Option.map_some, Option.getD_some]
    omega

theorem Short.popComponent {resolved : Bytes} (h : Short resolved) :
    Short (popComponent resolved) := by
  obtain hle | ⟨hlen, hlast⟩ := h
  · exact .inl (Nat.le_trans (length_popComponent_le _) hle)
  · have hlt := length_popComponent_lt (by rw [hlen, pathMax]; omega) hlast
    exact .inl (by omega)

theorem Short.trimmed {resolved : Bytes} (h : Short resolved) :
    (trimmed resolved).length ≤ pathMax := by
  unfold Sftp.trimmed
  obtain hle | ⟨hlen, hlast⟩ := h
  · split
    · rw [List.length_dropLast]
      omega
    · exact hle
  · rw [if_pos ⟨by rw [hlen, pathMax]; omega, hlast⟩, List.length_dropLast]
    omega

/-- The kernel looks up no path that is longer than `PATH_MAX`. -/
def Kernel.LooksUpShort (K : Kernel κ F E) : Prop :=
  ∀ path s, pathMax < path.length → ∃ e s', K.lstat path s = (.error e, s') ∧ e.kind ≠ .notFound

theorem Kernel.LooksUpShort.of_ok {K : Kernel κ F E} (h : K.LooksUpShort) {path : Bytes} {s s' : κ}
    {m : Metadata} (hlstat : K.lstat path s = (.ok m, s')) : Short path := by
  by_contra hlong
  obtain ⟨e, s₁, he, -⟩ := h path s (Nat.lt_of_not_le fun hle => hlong (.inl hle))
  rw [hlstat] at he
  cases he

theorem Kernel.LooksUpShort.of_notFound {K : Kernel κ F E} (h : K.LooksUpShort) {path : Bytes}
    {s s' : κ} {e : IoError} (hlstat : K.lstat path s = (.error e, s'))
    (hkind : e.kind = .notFound) : Short path := by
  by_contra hlong
  obtain ⟨e', s₁, he, hne⟩ := h path s (Nat.lt_of_not_le fun hle => hlong (.inl hle))
  rw [hlstat] at he
  cases he
  exact hne hkind

theorem short_resolve {K : Kernel κ F E} (hlookup : K.LooksUpShort) {links : ℕ}
    {resolved left p : Bytes} {s s' : κ} (hrun : resolve K links resolved left s = (.ok p, s'))
    (h : Short resolved) : Short p := by
  fun_induction resolve K links resolved left s with
  | case1 =>
    cases hrun
    exact h
  | case2 links resolved left s hleft token rest last htoken resolved' hskip ih =>
    exact ih hrun h.withSlash
  | case3 links resolved left s hleft rest last resolved' htoken hskip ih =>
    exact ih hrun h.withSlash.popComponent
  | case4 links resolved left s hleft token rest last htoken resolved' _ _ resolved'' e s₁ hlstat
      hmissing =>
    have hshort : Short resolved'' := hlookup.of_notFound hlstat hmissing.1
    rwa [Except.ok.inj (congrArg Prod.fst hrun)] at hshort
  | case5 | case6 | case7 => cases hrun
  | case8 links resolved left s hleft token rest last htoken resolved' _ _ resolved'' m s₁ hlstat
      hlink hlinks target s₂ hread base ih =>
    -- The target is resolved from the root, or from where the link stands.
    refine ih hrun ?_
    have hshort : Short resolved'' := hlookup.of_ok hlstat
    change Short (if _ then _ else _)
    split
    · exact .inl (Nat.le_trans (List.length_take_le 1 _) (by decide))
    · exact hshort.popComponent
  | case9 links resolved left s hleft token rest last htoken resolved' _ _ resolved'' m s₁ hlstat
      hlink ih =>
    exact ih hrun (hlookup.of_ok hlstat)

theorem realpath_eq (K : Kernel κ F E) (path cwd : Bytes) (s : κ) :
    realpath K path cwd s =
      match resolve K 0 (realpathStart path cwd).1 (realpathStart path cwd).2 s with
      | (.ok resolved, s') => (.ok (trimmed resolved), s')
      | (.error e, s') => (.error e, s') := by
  have hbind : realpath K path cwd s = Prog.bind
      (resolve K 0 (realpathStart path cwd).1 (realpathStart path cwd).2)
      (fun resolved => pure (trimmed resolved)) s := rfl
  rw [hbind]
  unfold Prog.bind
  rcases resolve K 0 (realpathStart path cwd).1 (realpathStart path cwd).2 s with ⟨_ | _, _⟩ <;> rfl

/-- A path that `realpath` resolves is no longer than `PATH_MAX`. -/
theorem length_realpath_le {K : Kernel κ F E} (hlookup : K.LooksUpShort) {path cwd p : Bytes}
    {s s' : κ} (hcwd : cwd.length ≤ pathMax) (hrun : realpath K path cwd s = (.ok p, s')) :
    p.length ≤ pathMax := by
  have hstart : Short (realpathStart path cwd).1 := by
    unfold realpathStart
    split
    · exact .inl hcwd
    · split
      · exact .inl (show 1 ≤ pathMax by decide)
      · exact .inl hcwd
  rw [realpath_eq] at hrun
  split at hrun
  next resolved s₁ hresolve =>
    cases hrun
    exact (short_resolve hlookup hresolve hstart).trimmed
  next => cases hrun

end QuantumSsh.Sftp
