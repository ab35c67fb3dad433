import Mathlib.Data.List.Nodup
import Mathlib.Data.List.Infix

/-
  Trees of files.

  A tree holds a directory or a file at each of its paths, and the directory of
  whatever it holds. Making a directory, writing a file, renaming and removing keep
  that; each is refused (`none`) where the operating system would refuse it. Renaming
  takes along everything below.

    `mem_rename`    what is where afterwards;
    `mkdirs_self`   making a directory that is there changes nothing.
-/

namespace Files

variable {ν κ : Type}

inductive Node (κ : Type) where
  | dir
  | file (content : κ)
  deriving DecidableEq

abbrev NodeList (ν κ : Type) := List (List ν × Node κ)

/-- A tree of files: no path twice, and every node in a directory. -/
structure FileTree (ν κ : Type) where
  nodes : NodeList ν κ
  nodup : (nodes.map Prod.fst).Nodup
  closed : ∀ p x, p ++ [x] ∈ nodes.map Prod.fst → (p, .dir) ∈ nodes

@[ext] theorem FileTree.ext {t u : FileTree ν κ} (h : t.nodes = u.nodes) : t = u := by
  cases t
  cases u
  simp only at h
  subst h
  rfl

/-- A tree given by a list is closed when each of its nodes finds its directory. -/
theorem closed_of_dropLast {nodes : NodeList ν κ}
    (h : ∀ p ∈ nodes.map Prod.fst, p ≠ [] → (p.dropLast, Node.dir) ∈ nodes) (p : List ν) (x : ν)
    (hmem : p ++ [x] ∈ nodes.map Prod.fst) : (p, .dir) ∈ nodes := by
  have hdir := h _ hmem (List.append_ne_nil_of_right_ne_nil p (List.cons_ne_nil x []))
  rwa [List.dropLast_concat] at hdir

/-! ## Paths -/

section Paths

variable [DecidableEq ν] {src dst p q : List ν}

/-- Where a path is after a rename: below `src` it moves along. -/
def relocate (src dst p : List ν) : List ν :=
  if src <+: p then dst ++ p.drop src.length else p

theorem relocate_under (src dst rest : List ν) : relocate src dst (src ++ rest) = dst ++ rest := by
  rw [relocate, if_pos (List.prefix_append src rest), List.drop_left]

theorem relocate_other (h : ¬ src <+: p) : relocate src dst p = p := if_neg h

theorem relocate_back (h : ¬ dst <+: p) : relocate dst src (relocate src dst p) = p := by
  by_cases hsrc : src <+: p
  · obtain ⟨rest, rfl⟩ := hsrc
    rw [relocate_under, relocate_under]
  · rw [relocate_other hsrc, relocate_other h]

end Paths

namespace FileTree

def paths (t : FileTree ν κ) : List (List ν) := t.nodes.map Prod.fst

theorem dir_of_prefix (t : FileTree ν κ) {p : List ν} (rest : List ν) (hne : rest ≠ [])
    (h : p ++ rest ∈ t.paths) : (p, .dir) ∈ t.nodes := by
  induction rest using List.reverseRecOn with
  | nil => exact absurd rfl hne
  | append_singleton rest x ih =>
    rw [← List.append_assoc] at h
    have hdir := t.closed _ _ h
    by_cases hrest : rest = []
    · rw [hrest, List.append_nil] at hdir
      exact hdir
    · exact ih hrest (List.mem_map_of_mem (f := Prod.fst) hdir)

theorem mem_of_prefix (t : FileTree ν κ) {p q : List ν} (hpre : p <+: q) (h : q ∈ t.paths) :
    p ∈ t.paths := by
  obtain ⟨rest, rfl⟩ := hpre
  by_cases hrest : rest = []
  · rw [hrest, List.append_nil] at h
    exact h
  · exact List.mem_map_of_mem (f := Prod.fst) (t.dir_of_prefix rest hrest h)

theorem node_unique (t : FileTree ν κ) {p : List ν} {n m : Node κ} (hn : (p, n) ∈ t.nodes)
    (hm : (p, m) ∈ t.nodes) : n = m := by
  have h := List.inj_on_of_nodup_map t.nodup hn hm rfl
  exact (Prod.mk.inj h).2

variable [DecidableEq ν]

/-- `stat`. -/
def node (t : FileTree ν κ) (p : List ν) : Option (Node κ) :=
  (t.nodes.find? (fun e => e.1 = p)).map Prod.snd

variable {t : FileTree ν κ} {n : Node κ}

theorem node_eq_some {p : List ν} :
    t.node p = some n ↔ (p, n) ∈ t.nodes := by
  unfold node
  constructor
  · intro h
    rw [Option.map_eq_some_iff] at h
    obtain ⟨e, he, rfl⟩ := h
    have hp : e.1 = p := by simpa using List.find?_some he
    rw [← hp]
    exact List.mem_of_find?_eq_some he
  · intro h
    cases hfind : t.nodes.find? (fun e => decide (e.1 = p)) with
    | none =>
      have := List.find?_eq_none.mp hfind (p, n) h
      simp at this
    | some e =>
      have hp : e.1 = p := by simpa using List.find?_some hfind
      have hmem := List.mem_of_find?_eq_some hfind
      have heq : e = (p, n) := List.inj_on_of_nodup_map t.nodup hmem h hp
      rw [heq]
      rfl

theorem node_eq_none {p : List ν} : t.node p = none ↔ p ∉ t.paths := by
  constructor
  · intro h hmem
    obtain ⟨e, he, rfl⟩ := List.mem_map.mp hmem
    have := node_eq_some.mpr (show (e.1, e.2) ∈ t.nodes from he)
    rw [h] at this
    cases this
  · intro h
    cases hnode : t.node p with
    | none => rfl
    | some n => exact absurd (List.mem_map_of_mem (f := Prod.fst) (node_eq_some.mp hnode)) h

/-- `pathExists`. -/
def has (t : FileTree ν κ) (p : List ν) : Bool := (t.node p).isSome

theorem has_iff {p : List ν} : t.has p = true ↔ p ∈ t.paths := by
  rw [has, Option.isSome_iff_ne_none, ne_eq, node_eq_none, not_not]

theorem not_mem_of_not_has {p : List ν} (h : t.has p = false) (n : Node κ) :
    (p, n) ∉ t.nodes := by
  intro hn
  rw [← Bool.not_eq_true, has_iff] at h
  exact h (List.mem_map_of_mem (f := Prod.fst) hn)

def isDir (t : FileTree ν κ) (p : List ν) : Bool :=
  match t.node p with
  | some .dir => true
  | _ => false

theorem isDir_iff {p : List ν} : t.isDir p = true ↔ (p, .dir) ∈ t.nodes := by
  rw [← node_eq_some, isDir]
  cases t.node p with
  | none => simp
  | some n => cases n <;> simp

def readFile (t : FileTree ν κ) (p : List ν) : Option κ :=
  match t.node p with
  | some (.file content) => some content
  | _ => none

theorem readFile_eq_some {p : List ν} {content : κ} :
    t.readFile p = some content ↔ (p, .file content) ∈ t.nodes := by
  rw [← node_eq_some, readFile]
  cases t.node p with
  | none => simp
  | some n => cases n <;> simp

/-! ## Adding -/

def add (t : FileTree ν κ) (p : List ν) (n : Node κ) (hfree : p ∉ t.paths)
    (hdir : (p.dropLast, .dir) ∈ t.nodes) : FileTree ν κ where
  nodes := t.nodes ++ [(p, n)]
  nodup := by
    rw [List.map_append, List.map_cons, List.map_nil]
    exact List.nodup_append.mpr ⟨t.nodup, List.nodup_singleton _, by
      rintro q hq r hr rfl
      have hq' : q = p := List.mem_singleton.mp hr
      exact hfree (hq' ▸ hq)⟩
  closed := by
    intro q x h
    rw [List.map_append, List.map_cons, List.map_nil] at h
    rcases List.mem_append.mp h with h | h
    · exact List.mem_append_left _ (t.closed q x h)
    · have hq : q ++ [x] = p := List.mem_singleton.mp h
      rw [← hq, List.dropLast_concat] at hdir
      exact List.mem_append_left _ hdir

/-- `mkdir`, or the creation of a file: refused where something is there already, or
where its directory is not. -/
def create (t : FileTree ν κ) (p : List ν) (n : Node κ) : Option (FileTree ν κ) :=
  if h : p ∉ t.paths ∧ t.isDir p.dropLast = true then
    some (t.add p n h.1 (isDir_iff.mp h.2))
  else none

variable {u : FileTree ν κ} {e : List ν × Node κ}

theorem mem_create {p : List ν} (h : t.create p n = some u)
    : e ∈ u.nodes ↔ e ∈ t.nodes ∨ e = (p, n) := by
  unfold create at h
  split at h
  · cases h
    show e ∈ t.nodes ++ [(p, n)] ↔ _
    rw [List.mem_append, List.mem_singleton]
  · cases h

/-- `mkdir(path, { recursive: true })`. -/
def mkdirs (t : FileTree ν κ) (p : List ν) : Option (FileTree ν κ) :=
  p.inits.foldlM (fun t q => if t.isDir q then some t else t.create q .dir) t

/-- A tree with directories added on the way to a path. -/
structure Made (t : FileTree ν κ) (p : List ν) (u : FileTree ν κ) : Prop where
  kept : ∀ e ∈ t.nodes, e ∈ u.nodes
  added : ∀ e ∈ u.nodes, e ∈ t.nodes ∨ (e.2 = .dir ∧ e.1 <+: p)

omit [DecidableEq ν] in
theorem Made.refl (t : FileTree ν κ) (p : List ν) : Made t p t where
  kept _ he := he
  added _ he := .inl he

theorem Made.create {t u v : FileTree ν κ} {p q : List ν} (h : Made t p u) (hq : q <+: p)
    (hv : u.create q .dir = some v) : Made t p v where
  kept e he := (mem_create hv).mpr (.inl (h.kept e he))
  added e he := by
    rcases (mem_create hv).mp he with he | rfl
    · exact h.added e he
    · exact .inr ⟨rfl, hq⟩

theorem Made.foldlM {p : List ν} : ∀ (qs : List (List ν)) {s : FileTree ν κ},
    (∀ q ∈ qs, q <+: p) → Made t p s →
      qs.foldlM (fun t q => if t.isDir q then some t else t.create q .dir) s = some u → Made t p u := by
  intro qs
  induction qs with
  | nil =>
    intro s _ hs h
    cases h
    exact hs
  | cons q qs ih =>
    intro s hqs hs h
    rw [List.foldlM_cons] at h
    have hq := hqs q List.mem_cons_self
    have hrest := fun r hr => hqs r (List.mem_cons_of_mem q hr)
    by_cases hdir : s.isDir q = true
    · rw [if_pos hdir] at h
      exact ih hrest hs h
    · rw [if_neg hdir] at h
      cases hcreate : s.create q .dir with
      | none =>
        rw [hcreate] at h
        cases h
      | some s' =>
        rw [hcreate] at h
        exact ih hrest (hs.create hq hcreate) h

theorem mkdirs_made {p : List ν} (h : t.mkdirs p = some u) : Made t p u :=
  Made.foldlM p.inits (fun _ hq => (List.mem_inits _ _).mp hq) (Made.refl t p) h

theorem mkdirs_dir {p : List ν} (h : t.mkdirs p = some u) :
    (p, .dir) ∈ u.nodes := by
  have hsplit : p.inits = p.inits.dropLast ++ [p] := by
    induction p using List.reverseRecOn with
    | nil => rfl
    | append_singleton p x _ => simp [List.inits_append]
  rw [mkdirs, hsplit, List.foldlM_append] at h
  obtain ⟨s, -, hlast⟩ := Option.bind_eq_some_iff.mp h
  rw [List.foldlM_cons, Option.bind_eq_bind, Option.bind_eq_some_iff] at hlast
  obtain ⟨v, hv, hlast⟩ := hlast
  cases hlast
  split at hv
  · next hdir =>
    cases hv
    exact isDir_iff.mp hdir
  · exact (mem_create hv).mpr (.inr rfl)

theorem mkdirs_self {p : List ν} (h : (p, .dir) ∈ t.nodes) :
    t.mkdirs p = some t := by
  have hall : ∀ q ∈ p.inits, t.isDir q = true := by
    intro q hq
    rw [List.mem_inits] at hq
    obtain ⟨rest, rfl⟩ := hq
    rw [isDir_iff]
    by_cases hrest : rest = []
    · rw [hrest, List.append_nil] at h
      exact h
    · exact t.dir_of_prefix rest hrest (List.mem_map_of_mem (f := Prod.fst) h)
  unfold mkdirs
  have hfold : ∀ qs : List (List ν), (∀ q ∈ qs, t.isDir q = true) →
      qs.foldlM (fun t q => if t.isDir q then some t else t.create q .dir) t = some t := by
    intro qs
    induction qs with
    | nil => intro _; rfl
    | cons q qs ih =>
      intro hqs
      rw [List.foldlM_cons, if_pos (hqs q List.mem_cons_self)]
      exact ih (fun r hr => hqs r (List.mem_cons_of_mem _ hr))
  exact hfold p.inits hall

/-! ## Renaming -/

/-- What `rename` asks for: something to rename, a free place in a directory, and
not below itself. -/
def Renamable (t : FileTree ν κ) (src dst : List ν) : Prop :=
  src ∈ t.paths ∧ dst ∉ t.paths ∧ ¬ src <+: dst ∧ t.isDir dst.dropLast = true

instance decidableRenamable (t : FileTree ν κ) (src dst : List ν) :
    Decidable (t.Renamable src dst) :=
  inferInstanceAs (Decidable (_ ∧ _ ∧ _ ∧ _))

omit [DecidableEq ν] in
theorem not_under {dst : List ν} (hfree : dst ∉ t.paths) :
    ∀ p ∈ t.paths, ¬ dst <+: p :=
  fun _ hp hpre => hfree (t.mem_of_prefix hpre hp)

def move (t : FileTree ν κ) (src dst : List ν) (h : t.Renamable src dst) : FileTree ν κ where
  nodes := t.nodes.map (fun e => (relocate src dst e.1, e.2))
  nodup := by
    have hmap : (t.nodes.map (fun e => (relocate src dst e.1, e.2))).map Prod.fst =
        t.paths.map (relocate src dst) := by
      rw [paths, List.map_map, List.map_map]
      rfl
    rw [hmap]
    refine List.Nodup.map_on ?_ t.nodup
    intro p hp q hq heq
    rw [← relocate_back (not_under h.2.1 p hp), heq, relocate_back (not_under h.2.1 q hq)]
  closed := by
    intro p x hmem
    rw [List.map_map] at hmem
    obtain ⟨e, he, heq⟩ := List.mem_map.mp hmem
    have hpath : e.1 ∈ t.paths := List.mem_map_of_mem (f := Prod.fst) he
    have hmoved : ∀ q, (q, Node.dir) ∈ t.nodes →
        (relocate src dst q, Node.dir) ∈ t.nodes.map (fun e => (relocate src dst e.1, e.2)) :=
      fun q hq => List.mem_map.mpr ⟨(q, .dir), hq, rfl⟩
    replace heq : relocate src dst e.1 = p ++ [x] := heq
    by_cases hsrc : src <+: e.1
    · obtain ⟨rest, hrest⟩ := hsrc
      rw [← hrest, relocate_under] at heq
      rcases List.eq_nil_or_concat' rest with rfl | ⟨init, y, rfl⟩
      · -- the renamed node itself: its new directory was there, and stays
        rw [List.append_nil] at heq
        have hdir := isDir_iff.mp h.2.2.2
        rw [heq, List.dropLast_concat] at hdir
        have hp : ¬ src <+: p := fun hpre => h.2.2.1 (hpre.trans ⟨[x], heq.symm⟩)
        have := hmoved p hdir
        rwa [relocate_other hp] at this
      · rw [← List.append_assoc] at heq
        obtain ⟨rfl, -⟩ := List.append_inj' heq rfl
        rw [← hrest, ← List.append_assoc] at hpath
        have := hmoved _ (t.closed _ _ hpath)
        rwa [relocate_under] at this
    · rw [relocate_other hsrc] at heq
      rw [heq] at hpath hsrc
      have hp : ¬ src <+: p := fun hpre => hsrc (hpre.trans (List.prefix_append p [x]))
      have := hmoved _ (t.closed _ _ hpath)
      rwa [relocate_other hp] at this

/-- `rename(src, dst)`. -/
def rename (t : FileTree ν κ) (src dst : List ν) : Option (FileTree ν κ) :=
  if h : t.Renamable src dst then some (t.move src dst h) else none

theorem mem_move {src dst : List ν} (h : t.Renamable src dst) {p : List ν}
    : (p, n) ∈ (t.move src dst h).nodes ↔
      (∃ rest, p = dst ++ rest ∧ (src ++ rest, n) ∈ t.nodes) ∨
        (¬ src <+: p ∧ (p, n) ∈ t.nodes) := by
  show (p, n) ∈ t.nodes.map (fun e => (relocate src dst e.1, e.2)) ↔ _
  rw [List.mem_map]
  constructor
  · rintro ⟨⟨q, m⟩, he, heq⟩
    obtain ⟨rfl, rfl⟩ := Prod.mk.inj heq
    by_cases hsrc : src <+: q
    · obtain ⟨rest, rfl⟩ := hsrc
      exact .inl ⟨rest, relocate_under _ _ _, he⟩
    · rw [relocate_other hsrc]
      exact .inr ⟨hsrc, he⟩
  · rintro (⟨rest, rfl, he⟩ | ⟨hsrc, he⟩)
    · exact ⟨_, he, by rw [relocate_under]⟩
    · exact ⟨_, he, by rw [relocate_other hsrc]⟩

/-- **Renaming back undoes a rename.** -/
theorem rename_back {src dst : List ν}
    (h : t.rename src dst = some u) : u.rename dst src = some t := by
  unfold rename at h
  split at h
  · next hren =>
    cases h
    obtain ⟨hsrc, hfree, hbelow, hdir⟩ := hren
    have hpaths : ∀ p, p ∈ (t.move src dst ⟨hsrc, hfree, hbelow, hdir⟩).paths ↔
        (∃ rest, p = dst ++ rest ∧ src ++ rest ∈ t.paths) ∨ (¬ src <+: p ∧ p ∈ t.paths) := by
      intro p
      constructor
      · intro hp
        obtain ⟨⟨q, n⟩, he, rfl⟩ := List.mem_map.mp hp
        rcases (mem_move _).mp he with ⟨rest, hq, hmem⟩ | ⟨hq, hmem⟩
        · exact .inl ⟨rest, hq, List.mem_map_of_mem (f := Prod.fst) hmem⟩
        · exact .inr ⟨hq, List.mem_map_of_mem (f := Prod.fst) hmem⟩
      · rintro (⟨rest, rfl, hp⟩ | ⟨hq, hp⟩)
        · obtain ⟨⟨q, n⟩, he, rfl⟩ := List.mem_map.mp hp
          exact List.mem_map_of_mem (f := Prod.fst) ((mem_move _).mpr (.inl ⟨rest, rfl, he⟩))
        · obtain ⟨⟨q, n⟩, he, rfl⟩ := List.mem_map.mp hp
          exact List.mem_map_of_mem (f := Prod.fst) ((mem_move _).mpr (.inr ⟨hq, he⟩))
    have hback : (t.move src dst ⟨hsrc, hfree, hbelow, hdir⟩).Renamable dst src := by
      refine ⟨?_, ?_, ?_, ?_⟩
      · exact (hpaths dst).mpr (.inl ⟨[], (List.append_nil _).symm, by rwa [List.append_nil]⟩)
      · intro hmem
        rcases (hpaths src).mp hmem with ⟨rest, hp, -⟩ | ⟨hp, -⟩
        · exact not_under hfree src hsrc ⟨rest, hp.symm⟩
        · exact hp (List.prefix_refl src)
      · intro hpre
        exact not_under hfree src hsrc hpre
      · have hne : src ≠ [] := by
          rintro rfl
          exact hbelow List.nil_prefix
        have hlast : src.dropLast ++ [src.getLast hne] = src := List.dropLast_append_getLast hne
        refine isDir_iff.mpr ((mem_move _).mpr (.inr ⟨?_, ?_⟩))
        · intro hpre
          have hlen := hpre.length_le
          have := congrArg List.length hlast
          rw [List.length_append, List.length_singleton] at this
          omega
        · refine t.closed _ (src.getLast hne) ?_
          rw [hlast]
          exact hsrc
    rw [rename, dif_pos hback]
    congr 1
    refine FileTree.ext ?_
    show (t.nodes.map (fun e => (relocate src dst e.1, e.2))).map
      (fun e => (relocate dst src e.1, e.2)) = t.nodes
    rw [List.map_map]
    conv_rhs => rw [← List.map_id t.nodes]
    refine List.map_congr_left ?_
    intro e he
    have hpath : e.1 ∈ t.paths := List.mem_map_of_mem (f := Prod.fst) he
    show (relocate dst src (relocate src dst e.1), e.2) = e
    rw [relocate_back (not_under hfree e.1 hpath)]
  · cases h

theorem rename_some {src dst : List ν} (h : t.rename src dst = some u) :
    t.Renamable src dst ∧ ∀ p n, (p, n) ∈ u.nodes ↔
      (∃ rest, p = dst ++ rest ∧ (src ++ rest, n) ∈ t.nodes) ∨
        (¬ src <+: p ∧ (p, n) ∈ t.nodes) := by
  unfold rename at h
  split at h
  · next hren =>
    cases h
    exact ⟨hren, fun _ _ => mem_move hren⟩
  · cases h

/-! ## Removing -/

/-- Nothing else stands below. -/
def Bare (t : FileTree ν κ) (p : List ν) : Prop := ∀ q ∈ t.paths, p <+: q → q = p

instance decidableBare (t : FileTree ν κ) (p : List ν) : Decidable (t.Bare p) :=
  inferInstanceAs (Decidable (∀ q ∈ t.paths, p <+: q → q = p))

def drop (t : FileTree ν κ) (p : List ν) (h : t.Bare p) : FileTree ν κ where
  nodes := t.nodes.filter (fun e => e.1 ≠ p)
  nodup := t.nodup.sublist (List.Sublist.map _ List.filter_sublist)
  closed := by
    intro q x hmem
    obtain ⟨e, he, heq⟩ := List.mem_map.mp hmem
    have hin := (List.mem_filter.mp he).1
    have hpath : q ++ [x] ∈ t.paths := heq ▸ List.mem_map_of_mem (f := Prod.fst) hin
    refine List.mem_filter.mpr ⟨t.closed q x hpath, ?_⟩
    have hne : q ≠ p := by
      rintro rfl
      have := congrArg List.length (h _ hpath (List.prefix_append q [x]))
      simp at this
    simpa using hne

/-- `unlink` and `rmdir`: refused where nothing is there, or something is below. -/
def remove (t : FileTree ν κ) (p : List ν) : Option (FileTree ν κ) :=
  if h : p ∈ t.paths ∧ t.Bare p then some (t.drop p h.2) else none

theorem mem_remove {p : List ν} (h : t.remove p = some u)
    : e ∈ u.nodes ↔ e ∈ t.nodes ∧ e.1 ≠ p := by
  unfold remove at h
  split at h
  · cases h
    show e ∈ t.nodes.filter (fun e => e.1 ≠ p) ↔ _
    rw [List.mem_filter]
    simp
  · cases h

/-- `rm(path, { recursive: true, force: true })`. -/
def prune (t : FileTree ν κ) (p : List ν) : FileTree ν κ where
  nodes := t.nodes.filter (fun e => ¬ p <+: e.1)
  nodup := t.nodup.sublist (List.Sublist.map _ List.filter_sublist)
  closed := by
    intro q x hmem
    obtain ⟨e, he, heq⟩ := List.mem_map.mp hmem
    obtain ⟨hin, hout⟩ := List.mem_filter.mp he
    have hpath : q ++ [x] ∈ t.paths := heq ▸ List.mem_map_of_mem (f := Prod.fst) hin
    refine List.mem_filter.mpr ⟨t.closed q x hpath, ?_⟩
    rw [decide_eq_true_eq] at hout ⊢
    intro hpre
    rw [heq] at hout
    exact hout (hpre.trans (List.prefix_append q [x]))

theorem mem_prune {p : List ν} :
    e ∈ (t.prune p).nodes ↔ e ∈ t.nodes ∧ ¬ p <+: e.1 := by
  show e ∈ t.nodes.filter (fun e => ¬ p <+: e.1) ↔ _
  rw [List.mem_filter, decide_eq_true_eq]

end FileTree

end Files
