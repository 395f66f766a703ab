import Mathlib.Data.List.Induction
import Mathlib.Logic.Function.Basic

/-!
# A tree of files

Directories, files and symbolic links, each at the place its names lead to from the root, and
the walk of a path through them. The empty name and `.` stay, `..` goes up, and a link goes on
at what it points to, as often as the process may follow one.
-/

namespace FileTree

abbrev Name := List UInt8

/-- The names on the way from the root. -/
abbrev Place := List Name

/-- The mode and the owner. -/
structure Stat where
  mode : ℕ
  uid : ℕ
  deriving DecidableEq

inductive Node
  | dir (st : Stat)
  | file (st : Stat) (content : List UInt8)
  | link (target : List UInt8)
  deriving DecidableEq

def slash : UInt8 := 0x2f

def dot : Name := [0x2e]

def dotDot : Name := [0x2e, 0x2e]

/-- A name that a directory can hold. -/
def Proper (c : Name) : Prop := c ≠ [] ∧ c ≠ dot ∧ c ≠ dotDot

instance (c : Name) : Decidable (Proper c) := inferInstanceAs (Decidable (_ ∧ _))

/-- Whatever is at a place is in a directory, under a proper name. -/
@[ext]
structure Tree where
  node : Place → Option Node
  root : ∃ st, node [] = some (.dir st)
  parent : ∀ p c, node (p ++ [c]) ≠ none → ∃ st, node p = some (.dir st)
  proper : ∀ p c, node (p ++ [c]) ≠ none → Proper c

/-- The process that walks: where it stands, the directories it may look names up in, how many
links it follows, and the bytes of the longest pathname a call takes, its final NUL among them. -/
structure Walker where
  cwd : Place
  search : Place → Bool
  links : ℕ
  pathMax : ℕ

def isDir : Option Node → Bool
  | some (.dir _) => true
  | _ => false

/-- What `stat` says of it. -/
def statOf : Option Node → Option Stat
  | some (.dir st) | some (.file st _) => some st
  | _ => none

/-- The names of a path. -/
def names (path : List UInt8) : List Name := path.splitOn slash

/-- Where the walk of a path starts. -/
def start (here : Place) (path : List UInt8) : Place :=
  if path.head? = some slash then [] else here

namespace Tree

variable (t : Tree) (search : Place → Bool)

/-- Walks the names; `follow` goes on at a link. -/
def walkWith (follow : Place → List Name → Option Place) : Place → List Name → Option Place
  | here, [] => some here
  | here, c :: rest =>
    if isDir (t.node here) = false then none
    else if c = [] then walkWith follow here rest
    else if search here = false then none
    else if c = dot then walkWith follow here rest
    else if c = dotDot then walkWith follow here.dropLast rest
    else
      match t.node (here ++ [c]) with
      | none => none
      | some (.link target) => follow (start here target) (names target ++ rest)
      | some _ => walkWith follow (here ++ [c]) rest

/-- The walk with so many links left to follow. -/
def walk : ℕ → Place → List Name → Option Place
  | 0 => t.walkWith search fun _ _ => none
  | links + 1 => t.walkWith search (walk links)

/-- Where a path leads. -/
def realpath (w : Walker) (path : List UInt8) : Option Place :=
  if path = [] then none else t.walk w.search w.links (start w.cwd path) (names path)

/-- The bytes of the link targets that a walk meets, each behind a slash; `follow` counts on at
a link. -/
def targetsWith (follow : Place → List Name → ℕ) : Place → List Name → ℕ
  | _, [] => 0
  | here, c :: rest =>
    if isDir (t.node here) = false ∨ c ≠ [] ∧ search here = false then 0
    else if c = [] ∨ c = dot then targetsWith follow here rest
    else if c = dotDot then targetsWith follow here.dropLast rest
    else
      match t.node (here ++ [c]) with
      | none => 0
      | some (.link target) => target.length + 1 + follow (start here target) (names target ++ rest)
      | some _ => targetsWith follow (here ++ [c]) rest

/-- The bytes of the link targets with so many links left to follow. -/
def targets : ℕ → Place → List Name → ℕ
  | 0 => t.targetsWith search fun _ _ => 0
  | links + 1 => t.targetsWith search (targets links)

/-- Something other than a link is there. -/
def Stands (p : Place) : Prop := ∃ n, t.node p = some n ∧ ∀ target, n ≠ .link target

variable {t search} {follow : Place → List Name → Option Place} {here p q : Place}
  {cs rest : List Name} {links : ℕ}

theorem Stands.of_isDir (h : isDir (t.node p) = true) : t.Stands p := by
  match hnode : t.node p with
  | some (.dir st) => exact ⟨.dir st, hnode, nofun⟩
  | some (.file _ _) | some (.link _) | none => rw [hnode] at h; cases h

theorem Stands.of_root (t : Tree) : t.Stands [] := by
  obtain ⟨st, hst⟩ := t.root
  exact ⟨_, hst, nofun⟩

/-- The directories on the way to a place. -/
theorem isDir_of_append (h : t.node (p ++ cs) ≠ none) (hcs : cs ≠ []) :
    isDir (t.node p) = true := by
  induction cs using List.reverseRecOn with
  | nil => exact absurd rfl hcs
  | append_singleton cs c ih =>
    rw [← List.append_assoc] at h
    obtain ⟨st, hst⟩ := t.parent _ c h
    cases cs with
    | nil =>
      rw [List.append_nil] at hst
      rw [hst]
      rfl
    | cons => exact ih (by rw [hst]; exact nofun) (List.cons_ne_nil _ _)

/-- Puts something where no directory is, or takes it away. -/
def replace (t : Tree) (p : Place) (n : Option Node) (hp : isDir (t.node p) = false)
    (hroom : n ≠ none → ∃ q c, p = q ++ [c] ∧ isDir (t.node q) = true ∧ Proper c) : Tree where
  node := Function.update t.node p n
  root := by
    obtain ⟨st, hst⟩ := t.root
    refine ⟨st, ?_⟩
    rw [Function.update_of_ne, hst]
    rintro rfl
    rw [hst] at hp
    cases hp
  parent q c hnode := by
    have hdir : ∃ st, t.node q = some (.dir st) := by
      by_cases hplace : q ++ [c] = p
      · subst hplace
        rw [Function.update_self] at hnode
        obtain ⟨q', c', heq, hdir, -⟩ := hroom hnode
        obtain ⟨rfl, -⟩ := List.append_inj' heq rfl
        match hq : t.node q with
        | some (.dir st) => exact ⟨st, rfl⟩
        | some (.file _ _) | some (.link _) | none => rw [hq] at hdir; cases hdir
      · rw [Function.update_of_ne hplace] at hnode
        exact t.parent q c hnode
    obtain ⟨st, hst⟩ := hdir
    refine ⟨st, ?_⟩
    rw [Function.update_of_ne, hst]
    rintro rfl
    rw [hst] at hp
    cases hp
  proper q c hnode := by
    by_cases hplace : q ++ [c] = p
    · subst hplace
      rw [Function.update_self] at hnode
      obtain ⟨q', c', heq, -, hproper⟩ := hroom hnode
      obtain ⟨-, hc⟩ := List.append_inj' heq rfl
      cases hc
      exact hproper
    · rw [Function.update_of_ne hplace] at hnode
      exact t.proper q c hnode

/-- A file is in a directory, under a proper name. -/
theorem room_of_file {st : Stat} {content : List UInt8} (h : t.node p = some (.file st content)) :
    ∃ q c, p = q ++ [c] ∧ isDir (t.node q) = true ∧ Proper c := by
  have hne : t.node p ≠ none := by
    rw [h]
    exact nofun
  cases p using List.reverseRecOn with
  | nil =>
    obtain ⟨st', hst⟩ := t.root
    cases h.symm.trans hst
  | append_singleton q c => exact ⟨q, c, rfl, isDir_of_append hne (by simp), t.proper q c hne⟩

/-- Changes the file at a place, or takes it away. -/
def replaceFile (t : Tree) (p : Place) (n : Option Node) {st : Stat} {content : List UInt8}
    (h : t.node p = some (.file st content)) : Tree :=
  t.replace p n (by rw [h]; rfl) fun _ => room_of_file h

/-! ### One step of the walk -/

section Step

variable {c : Name} {n : Node}

theorem isDir_of_walkWith (h : t.walkWith search follow here (c :: rest) = some q) :
    isDir (t.node here) = true := by
  rw [walkWith] at h
  split_ifs at h with hdir
  all_goals simpa using hdir

theorem walkWith_nil_cons (hdir : isDir (t.node here) = true) :
    t.walkWith search follow here ([] :: rest) = t.walkWith search follow here rest := by
  rw [walkWith, if_neg (by simp [hdir]), if_pos rfl]

/-- A name other than the empty one is looked up, or is one of the two that every directory
holds. -/
theorem walkWith_cons (hdir : isDir (t.node here) = true) (hc : c ≠ [])
    (hsearch : search here = true) :
    t.walkWith search follow here (c :: rest) =
      if c = dot then t.walkWith search follow here rest
      else if c = dotDot then t.walkWith search follow here.dropLast rest
      else
        match t.node (here ++ [c]) with
        | none => none
        | some (.link target) => follow (start here target) (names target ++ rest)
        | some _ => t.walkWith search follow (here ++ [c]) rest := by
  rw [walkWith, if_neg (by simp [hdir]), if_neg hc, if_neg (by simp [hsearch])]

theorem search_of_walkWith (hc : c ≠ [])
    (h : t.walkWith search follow here (c :: rest) = some q) : search here = true := by
  have hdir := isDir_of_walkWith h
  rw [walkWith, if_neg (by simp [hdir]), if_neg hc] at h
  split_ifs at h with hsearch
  all_goals simpa using hsearch

theorem walkWith_proper (hdir : isDir (t.node here) = true) (hsearch : search here = true)
    (hc : Proper c) (hnode : t.node (here ++ [c]) = some n) (hlink : ∀ target, n ≠ .link target) :
    t.walkWith search follow here (c :: rest) = t.walkWith search follow (here ++ [c]) rest := by
  rw [walkWith_cons hdir hc.1 hsearch, if_neg hc.2.1, if_neg hc.2.2, hnode]
  match n, hlink with
  | .dir _, _ | .file _ _, _ => rfl
  | .link target, hlink => exact absurd rfl (hlink target)

end Step

/-! ### Whole walks -/

/-- The walk is the same after each name that is left. -/
theorem walkWith_concat {follow : Place → List Name → Option Place} {leaf : Name} {n : Node}
    (hsearch : search q = true) (hleaf : Proper leaf) (hnode : t.node (q ++ [leaf]) = some n)
    (hlink : ∀ target, n ≠ .link target)
    (hfollow : ∀ here cs, follow here cs = some q →
      follow here (cs ++ [leaf]) = some (q ++ [leaf]))
    (h : t.walkWith search follow here cs = some q) :
    t.walkWith search follow here (cs ++ [leaf]) = some (q ++ [leaf]) := by
  have hdir : isDir (t.node q) = true := isDir_of_append (by rw [hnode]; exact nofun) (by simp)
  induction cs generalizing here with
  | nil =>
    cases h
    rw [List.nil_append, walkWith_proper hdir hsearch hleaf hnode hlink, walkWith]
  | cons c cs ih =>
    have hhere := isDir_of_walkWith h
    rw [List.cons_append]
    by_cases hc : c = []
    · subst hc
      rw [walkWith_nil_cons hhere] at h ⊢
      exact ih h
    have hlook := search_of_walkWith hc h
    rw [walkWith_cons hhere hc hlook] at h ⊢
    split_ifs at h ⊢ with hdot hup
    · exact ih h
    · exact ih h
    · split at h
      · cases h
      · rw [← List.append_assoc]
        exact hfollow _ _ h
      · exact ih h

theorem walk_concat {leaf : Name} {n : Node} (hsearch : search q = true) (hleaf : Proper leaf)
    (hnode : t.node (q ++ [leaf]) = some n) (hlink : ∀ target, n ≠ .link target)
    (h : t.walk search links here cs = some q) :
    t.walk search links here (cs ++ [leaf]) = some (q ++ [leaf]) := by
  induction links generalizing here cs with
  | zero => exact walkWith_concat hsearch hleaf hnode hlink nofun h
  | succ links ih => exact walkWith_concat hsearch hleaf hnode hlink (fun _ _ => ih) h

/-- A walk differs from others only in how it follows links. -/
theorem exists_walk_eq (t : Tree) (search : Place → Bool) (links : ℕ) :
    ∃ follow, t.walk search links = t.walkWith search follow := by
  cases links with
  | zero => exact ⟨_, rfl⟩
  | succ links => exact ⟨_, rfl⟩

theorem walk_nil (t : Tree) (search : Place → Bool) (links : ℕ) (here : Place) :
    t.walk search links here [] = some here := by
  obtain ⟨follow, hwalk⟩ := exists_walk_eq t search links
  rw [hwalk, walkWith]

/-- The empty name and `.` stay. -/
theorem walk_stay {c : Name} (hc : c = [] ∨ c = dot)
    (h : t.walk search links here (c :: rest) = some q) :
    t.walk search links here rest = some q := by
  obtain ⟨follow, hwalk⟩ := exists_walk_eq t search links
  rw [hwalk] at h ⊢
  have hdir := isDir_of_walkWith h
  obtain rfl | rfl := hc
  · rwa [walkWith_nil_cons hdir] at h
  · have hne : dot ≠ [] := by decide
    rwa [walkWith_cons hdir hne (search_of_walkWith hne h), if_pos rfl] at h

/-- A walk from somewhere ends somewhere. -/
theorem walkWith_stands (hfollow : ∀ here cs, t.Stands here → follow here cs = some q → t.Stands q)
    (hhere : t.Stands here) (h : t.walkWith search follow here cs = some q) : t.Stands q := by
  induction cs generalizing here with
  | nil =>
    cases h
    exact hhere
  | cons c cs ih =>
    have hdir := isDir_of_walkWith h
    by_cases hc : c = []
    · subst hc
      rw [walkWith_nil_cons hdir] at h
      exact ih hhere h
    have hlook := search_of_walkWith hc h
    rw [walkWith_cons hdir hc hlook] at h
    split_ifs at h with hdot hup
    · exact ih hhere h
    · refine ih ?_ h
      cases here using List.reverseRecOn with
      | nil => exact hhere
      | append_singleton before last =>
        rw [List.dropLast_concat]
        obtain ⟨n, hnode, -⟩ := hhere
        exact .of_isDir (isDir_of_append (by rw [hnode]; exact nofun) (by simp))
    · split at h
      · cases h
      · refine hfollow _ _ ?_ h
        rw [start]
        split_ifs
        · exact .of_root t
        · exact hhere
      · rename_i n hlink hnode
        exact ih ⟨n, hnode, hlink⟩ h

theorem walk_stands (hhere : t.Stands here) (h : t.walk search links here cs = some q) :
    t.Stands q := by
  induction links generalizing here cs with
  | zero =>
    refine walkWith_stands ?_ hhere h
    exact fun _ _ _ => nofun
  | succ links ih => exact walkWith_stands (fun _ _ hstart => ih hstart) hhere h

theorem realpath_stands {w : Walker} {path : List UInt8} (h : t.realpath w path = some q) :
    t.Stands q := by
  rw [realpath] at h
  split_ifs at h
  refine walk_stands ?_ h
  obtain ⟨follow, hwalk⟩ := exists_walk_eq t w.search w.links
  cases hnames : names path with
  | nil => exact absurd hnames (List.splitOn_ne_nil slash path)
  | cons c rest =>
    rw [hwalk, hnames] at h
    exact .of_isDir (isDir_of_walkWith h)

/-- The directories above a place can be looked into. -/
def Open (search : Place → Bool) (p : Place) : Prop :=
  ∀ before c after, p = before ++ c :: after → search before = true

theorem Open.concat {c : Name} (h : Open search p) (hp : search p = true) :
    Open search (p ++ [c]) := by
  intro before d after heq
  cases after using List.reverseRecOn with
  | nil =>
    obtain ⟨rfl, -⟩ := List.append_inj' heq rfl
    exact hp
  | append_singleton after e =>
    have heq' : p ++ [c] = (before ++ d :: after) ++ [e] := by rw [heq]; simp
    exact h before d after (List.append_inj' heq' rfl).1

/-- The names of a place, walked from the root, lead there and nowhere else. -/
theorem walkWith_place (hstands : t.Stands (here ++ cs)) :
    t.walkWith search follow here cs = some q ↔
      q = here ++ cs ∧ ∀ before c after, cs = before ++ c :: after →
        search (here ++ before) = true := by
  induction cs generalizing here with
  | nil =>
    rw [walkWith, Option.some.injEq, List.append_nil]
    exact ⟨fun h => ⟨h.symm, by simp⟩, fun h => h.1.symm⟩
  | cons c cs ih =>
    obtain ⟨n, hnode, hlink⟩ := hstands
    have hsplit : here ++ c :: cs = here ++ [c] ++ cs := by simp
    have hdir : isDir (t.node here) = true := isDir_of_append (by rw [hnode]; exact nofun) (by simp)
    have hstands' : t.Stands (here ++ [c] ++ cs) := hsplit ▸ ⟨n, hnode, hlink⟩
    have hstands₁ : t.Stands (here ++ [c]) := by
      cases cs with
      | nil => simpa using hstands'
      | cons d cs =>
        obtain ⟨n', hnode', -⟩ := hstands'
        exact .of_isDir (isDir_of_append (by rw [hnode']; exact nofun) (by simp))
    obtain ⟨n₁, hnode₁, hlink₁⟩ := hstands₁
    have hproper := t.proper _ _ (by rw [hnode₁]; exact nofun)
    constructor
    · intro h
      have hsearch := search_of_walkWith hproper.1 h
      rw [walkWith_proper hdir hsearch hproper hnode₁ hlink₁, ih hstands'] at h
      refine ⟨by rw [hsplit]; exact h.1, fun before d after heq => ?_⟩
      cases before with
      | nil => simpa using hsearch
      | cons e before =>
        cases heq
        simpa using h.2 before d after rfl
    · rintro ⟨rfl, hopen⟩
      have hsearch : search here = true := by simpa using hopen [] c cs rfl
      rw [walkWith_proper hdir hsearch hproper hnode₁ hlink₁, ih hstands']
      refine ⟨hsplit, fun before d after heq => ?_⟩
      simpa using hopen (c :: before) d after (by rw [heq]; rfl)

theorem walk_place (hstands : t.Stands p) :
    t.walk search links [] p = some q ↔ q = p ∧ Open search p := by
  cases links with
  | zero => exact walkWith_place hstands
  | succ links => exact walkWith_place hstands

/-! ### A tree that grows -/

/-- What was there is there still. -/
def Extends (t t' : Tree) : Prop := ∀ p n, t.node p = some n → t'.node p = some n

section Extends

variable {t' : Tree}

theorem Extends.isDir_eq (hext : t.Extends t') (h : isDir (t.node p) = true) :
    isDir (t'.node p) = true := by
  match hnode : t.node p with
  | some (.dir st) =>
    rw [hext p _ hnode]
    rfl
  | some (.file _ _) | some (.link _) | none => rw [hnode] at h; cases h

theorem Extends.walkWith {follow' : Place → List Name → Option Place} (hext : t.Extends t')
    (hfollow : ∀ here cs, follow here cs = some q → follow' here cs = some q)
    (h : t.walkWith search follow here cs = some q) :
    t'.walkWith search follow' here cs = some q := by
  induction cs generalizing here with
  | nil => exact h
  | cons c cs ih =>
    have hdir := isDir_of_walkWith h
    have hdir' := hext.isDir_eq hdir
    by_cases hc : c = []
    · subst hc
      rw [walkWith_nil_cons hdir] at h
      rw [walkWith_nil_cons hdir']
      exact ih h
    have hlook := search_of_walkWith hc h
    rw [walkWith_cons hdir hc hlook] at h
    rw [walkWith_cons hdir' hc hlook]
    split_ifs at h ⊢ with hdot hup
    · exact ih h
    · exact ih h
    · split at h
      · cases h
      · rename_i target hnode
        rw [hext _ _ hnode]
        exact hfollow _ _ h
      · rename_i n hlink hnode
        rw [hext _ _ hnode]
        match n, hlink with
        | .dir _, _ | .file _ _, _ => exact ih h
        | .link target, hlink => exact absurd rfl (hlink target)

theorem Extends.walk (hext : t.Extends t') (h : t.walk search links here cs = some q) :
    t'.walk search links here cs = some q := by
  induction links generalizing here cs with
  | zero =>
    refine hext.walkWith ?_ h
    exact fun _ _ => nofun
  | succ links ih => exact hext.walkWith (fun _ _ => ih) h

end Extends

end Tree

/-! ### A path and its last name -/

theorem names_append (path : List UInt8) {leaf : Name} (hleaf : slash ∉ leaf) :
    names (path ++ slash :: leaf) = names path ++ [leaf] := by
  rw [names, List.splitOn_append_cons_self, List.splitOn_eq_singleton hleaf]
  rfl

end FileTree
