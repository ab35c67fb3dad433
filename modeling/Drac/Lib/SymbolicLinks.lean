import Drac.Lib.FileTree
import Drac.Lib.PosixPath

/-
  File systems with symbolic links.

  A file system is a tree of directories, files and links, with a directory at `/`. A path is
  followed from a directory, name by name: `advance` goes as far as the first link, and `follow`
  goes on from where the link leads, through no more links than the system allows. `realpath` is
  where following from `/` ends.

    `follow_append`     a path is followed in two parts, the second from where the first ends;
    `follow_real`       where following ends there is a directory or a file, and no link above.
-/

namespace SymbolicLinks

open Files PosixPath

/-- What is no directory: a file, or a link to a path. -/
inductive Leaf where
  | data
  | link (target : List Char)
  deriving DecidableEq

/-- A tree some leaves of which are links. -/
structure FileSystem where
  tree : FileTree Name Leaf
  root : ([], .dir) ∈ tree.nodes
  /-- The links that may be followed on the way to one path. -/
  maxLinks : Nat := 40

/-- How far a path goes before its first link. -/
inductive Outcome where
  | arrived (p : Path)
  | missing
  | link (base : Path) (target : List Char) (rest : List Name)

variable (t : FileTree Name Leaf)

/-- From a directory, name by name. -/
def advance : Path → List Name → Outcome
  | base, [] => .arrived base
  | base, s :: rest =>
    if t.isDir base then
      if s = [] ∨ s = ['.'] then advance base rest
      else if s = ['.', '.'] then advance base.dropLast rest
      else
        match t.node (base ++ [s]) with
        | none => .missing
        | some .dir => advance (base ++ [s]) rest
        | some (.file .data) => advance (base ++ [s]) rest
        | some (.file (.link target)) => .link base target rest
    else .missing

/-- Where a link of a directory leads from. -/
def linkBase (base : Path) (target : List Char) : Path := if isAbsolute target then [] else base

/-- Where a path leads through at most so many links, and how many are left. -/
def follow : Nat → Path → List Name → Option (Path × Nat)
  | 0, base, names =>
    match advance t base names with
    | .arrived p => some (p, 0)
    | _ => none
  | links + 1, base, names =>
    match advance t base names with
    | .arrived p => some (p, links + 1)
    | .missing => none
    | .link base target rest => follow links (linkBase base target) (namesOf target ++ rest)

/-- `realpathSync`, `none` where it throws. -/
def FileSystem.realpath (fs : FileSystem) (p : Path) : Option Path :=
  (follow fs.tree fs.maxLinks [] p).map Prod.fst

/-- `existsSync`: what the path leads to is there. -/
def FileSystem.existsSync (fs : FileSystem) (p : Path) : Bool := (fs.realpath p).isSome

def FileSystem.hasLink (fs : FileSystem) (p : Path) : Bool :=
  match fs.tree.node p with
  | some (.file (.link _)) => true
  | _ => false

/-- `lstat`: the path leads to a link, which is not followed. -/
def FileSystem.isLink (fs : FileSystem) (p : Path) : Bool :=
  match fs.realpath p.dropLast, p.getLast? with
  | some d, some s => fs.hasLink (d ++ [s])
  | _, _ => false

/-! ## In two parts -/

variable {t}

theorem advance_append : ∀ (base : Path) (names more : List Name),
    advance t base (names ++ more) =
      match advance t base names with
      | .arrived p => advance t p more
      | .missing => .missing
      | .link base target rest => .link base target (rest ++ more)
  | base, [], more => rfl
  | base, s :: names, more => by
    rw [List.cons_append, advance, advance]
    split
    · split
      · exact advance_append base names more
      · split
        · exact advance_append base.dropLast names more
        · cases t.node (base ++ [s]) with
          | none => rfl
          | some n =>
            cases n with
            | dir => exact advance_append (base ++ [s]) names more
            | file leaf =>
              cases leaf with
              | data => exact advance_append (base ++ [s]) names more
              | link target => rfl
    · rfl

theorem follow_append : ∀ (links : Nat) (base : Path) (names more : List Name),
    follow t links base (names ++ more) =
      (follow t links base names).bind (fun r => follow t r.2 r.1 more)
  | 0, base, names, more => by
    rw [follow, follow, advance_append]
    cases advance t base names with
    | arrived p => rw [Option.bind_some, follow]
    | missing => rfl
    | link base target rest => rfl
  | links + 1, base, names, more => by
    rw [follow, follow, advance_append]
    cases advance t base names with
    | arrived p => rw [Option.bind_some, follow]
    | missing => rfl
    | link base target rest =>
      show follow t links (linkBase base target) (namesOf target ++ (rest ++ more)) = _
      rw [← List.append_assoc]
      exact follow_append links (linkBase base target) (namesOf target ++ rest) more

/-! ## Where it ends -/

/-- A directory or a file stands at the path. -/
def Real (t : FileTree Name Leaf) (p : Path) : Prop :=
  (p, .dir) ∈ t.nodes ∨ (p, .file .data) ∈ t.nodes

theorem Real.dropLast (hroot : ([], .dir) ∈ t.nodes) {p : Path} (h : Real t p) :
    Real t p.dropLast := by
  have hmem : p ∈ t.paths := h.elim (fun h => List.mem_map_of_mem (f := Prod.fst) h)
    (fun h => List.mem_map_of_mem (f := Prod.fst) h)
  cases p using List.reverseRecOn with
  | nil => exact .inl hroot
  | append_singleton p s =>
    rw [List.dropLast_concat]
    exact .inl (t.closed p s hmem)

/-- What is followed on the way to a place that is there, and has only plain names. -/
structure Sound (t : FileTree Name Leaf) (p : Path) : Prop where
  real : Real t p
  plain : ∀ s ∈ p, IsName s

theorem Sound.dropLast (hroot : ([], .dir) ∈ t.nodes) {p : Path} (h : Sound t p) :
    Sound t p.dropLast where
  real := h.real.dropLast hroot
  plain := fun s hs => h.plain s (List.mem_of_mem_dropLast hs)

theorem Sound.push {p : Path} (h : Sound t p) {s : Name} (hs : IsName s)
    (hreal : Real t (p ++ [s])) : Sound t (p ++ [s]) where
  real := hreal
  plain := by
    intro s' hs'
    rcases List.mem_append.mp hs' with hs' | hs'
    · exact h.plain s' hs'
    · exact List.mem_singleton.mp hs' ▸ hs

theorem advance_sound (hroot : ([], .dir) ∈ t.nodes) : ∀ (base : Path) (names : List Name),
    Sound t base → (∀ s ∈ names, '/' ∉ s) →
      (∀ p, advance t base names = .arrived p → Sound t p) ∧
      ∀ b target rest, advance t base names = .link b target rest →
        Sound t b ∧ ∀ s ∈ rest, '/' ∉ s
  | base, [], hbase, _ => by
    refine ⟨?_, fun b target rest h => nomatch h⟩
    intro p h
    cases h
    exact hbase
  | base, s :: names, hbase, hnames => by
    have hrest : ∀ s ∈ names, '/' ∉ s := fun s hs => hnames s (List.mem_cons_of_mem _ hs)
    have hslash := hnames s List.mem_cons_self
    rw [advance]
    split
    · split
      · exact advance_sound hroot base names hbase hrest
      · next hdot =>
        split
        · exact advance_sound hroot base.dropLast names (hbase.dropLast hroot) hrest
        · next hup =>
          have hs : IsName s := ⟨fun h => hdot (.inl h), fun h => hdot (.inr h), hup, hslash⟩
          cases hnode : t.node (base ++ [s]) with
          | none => exact ⟨fun p h => (nomatch h), fun b target rest h => (nomatch h)⟩
          | some n =>
            have hmem := FileTree.node_eq_some.mp hnode
            cases n with
            | dir => exact advance_sound hroot _ names (hbase.push hs (.inl hmem)) hrest
            | file leaf =>
              cases leaf with
              | data => exact advance_sound hroot _ names (hbase.push hs (.inr hmem)) hrest
              | link target =>
                refine ⟨fun p h => (nomatch h), fun b target' rest h => ?_⟩
                cases h
                exact ⟨hbase, hrest⟩
    · exact ⟨fun p h => (nomatch h), fun b target rest h => (nomatch h)⟩

theorem sound_root (hroot : ([], .dir) ∈ t.nodes) : Sound t [] := ⟨.inl hroot, fun _ h => nomatch h⟩

/-- **Where following ends, something stands, and its path has plain names.** -/
theorem follow_sound (hroot : ([], .dir) ∈ t.nodes) : ∀ (links : Nat) (base : Path)
    (names : List Name), Sound t base → (∀ s ∈ names, '/' ∉ s) → ∀ p left,
      follow t links base names = some (p, left) → Sound t p
  | 0, base, names, hbase, hnames, p, left, h => by
    have hsound := advance_sound hroot base names hbase hnames
    rw [follow] at h
    cases hadvance : advance t base names with
    | arrived q => rw [hadvance] at h; cases h; exact hsound.1 p hadvance
    | missing => rw [hadvance] at h; cases h
    | link b target rest => rw [hadvance] at h; cases h
  | links + 1, base, names, hbase, hnames, p, left, h => by
    have hsound := advance_sound hroot base names hbase hnames
    rw [follow] at h
    cases hadvance : advance t base names with
    | arrived q => rw [hadvance] at h; cases h; exact hsound.1 p hadvance
    | missing => rw [hadvance] at h; cases h
    | link b target rest =>
      rw [hadvance] at h
      obtain ⟨hb, hrest⟩ := hsound.2 b target rest hadvance
      have hstart : Sound t (linkBase b target) := by
        unfold linkBase
        split
        · exact sound_root hroot
        · exact hb
      refine follow_sound hroot links _ _ hstart ?_ p left h
      intro s hs
      rcases List.mem_append.mp hs with hs | hs
      · exact slash_not_mem_namesOf target s hs
      · exact hrest s hs

/-! ## One name -/

theorem follow_one {base : Path} {s : Name} (hs : IsName s)
    (hlink : ∀ target, t.node (base ++ [s]) ≠ some (.file (.link target))) (links : Nat) :
    follow t links base [s] = none ∧ ¬ Real t (base ++ [s]) ∨
      follow t links base [s] = some (base ++ [s], links) ∧ Real t (base ++ [s]) := by
  have hdot : ¬ (s = [] ∨ s = ['.']) := fun h => h.elim hs.1 hs.2.1
  have hadvance : advance t base [s] = .missing ∧ ¬ Real t (base ++ [s]) ∨
      advance t base [s] = .arrived (base ++ [s]) ∧ Real t (base ++ [s]) := by
    rw [advance]
    by_cases hdir : t.isDir base = true
    · rw [if_pos hdir, if_neg hdot, if_neg hs.2.2.1]
      cases hnode : t.node (base ++ [s]) with
      | none =>
        left
        refine ⟨rfl, ?_⟩
        rintro (h | h)
        · rw [FileTree.node_eq_some.mpr h] at hnode; cases hnode
        · rw [FileTree.node_eq_some.mpr h] at hnode; cases hnode
      | some n =>
        have hmem := FileTree.node_eq_some.mp hnode
        cases n with
        | dir => exact .inr ⟨rfl, .inl hmem⟩
        | file leaf =>
          cases leaf with
          | data => exact .inr ⟨rfl, .inr hmem⟩
          | link target => exact absurd hnode (hlink target)
    · left
      rw [if_neg hdir]
      refine ⟨rfl, ?_⟩
      rintro (h | h)
      · exact hdir (FileTree.isDir_iff.mpr (t.closed base s (List.mem_map_of_mem (f := Prod.fst) h)))
      · exact hdir (FileTree.isDir_iff.mpr (t.closed base s (List.mem_map_of_mem (f := Prod.fst) h)))
  cases links with
  | zero =>
    rw [follow]
    obtain ⟨h, hreal⟩ | ⟨h, hreal⟩ := hadvance
    · exact .inl ⟨by rw [h], hreal⟩
    · exact .inr ⟨by rw [h], hreal⟩
  | succ links =>
    rw [follow]
    obtain ⟨h, hreal⟩ | ⟨h, hreal⟩ := hadvance
    · exact .inl ⟨by rw [h], hreal⟩
    · exact .inr ⟨by rw [h], hreal⟩

/-- **A path with no link on it leads to itself, if anywhere.** -/
theorem follow_plain (base : Path) (links : Nat) : ∀ (names : List Name), (∀ s ∈ names, IsName s) →
    (∀ k < names.length, ∀ target,
      t.node (base ++ names.take (k + 1)) ≠ some (.file (.link target))) →
    ∀ r, follow t links base names = some r → r = (base ++ names, links) := by
  intro names
  induction names using List.reverseRecOn with
  | nil =>
    intro _ _ r h
    rw [List.append_nil]
    cases links <;> exact (Option.some.inj h).symm
  | append_singleton names s ih =>
    intro hnames hlinks r h
    rw [follow_append] at h
    obtain ⟨q, hq, hlast⟩ := Option.bind_eq_some_iff.mp h
    have hbefore : q = (base ++ names, links) := by
      apply ih (fun s hs => hnames s (List.mem_append_left _ hs)) _ q hq
      intro k hk target
      have hnext := hlinks k (by rw [List.length_append]; omega) target
      rwa [List.take_append_of_le_length (by omega)] at hnext
    subst hbefore
    have hs := hnames s (List.mem_append_right _ List.mem_cons_self)
    have hnolink : ∀ target, t.node (base ++ names ++ [s]) ≠ some (.file (.link target)) := by
      intro target
      have hnext := hlinks names.length (by simp) target
      rwa [List.take_of_length_le (by simp), ← List.append_assoc] at hnext
    obtain ⟨hnone, -⟩ | ⟨hsome, -⟩ := follow_one hs hnolink links
    · rw [hnone] at hlast
      cases hlast
    · rw [hsome] at hlast
      rw [← Option.some.inj hlast, List.append_assoc]

end SymbolicLinks
