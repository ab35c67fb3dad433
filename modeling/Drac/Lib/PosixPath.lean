import Mathlib.Data.List.Basic

/-
  POSIX paths.

  A path is a text; an absolute path, once resolved, is the list of its names from the
  root down, none of them empty, `.`, `..` or holding a slash. The functions are those
  of `node:path`. What they give as text is written with `render`; a slash at the end
  of a path is not kept.

    `relativeTo_under`, `relativeTo_outside`   what lies under a root is named by its
                      own names below it, and anything else by a text that climbs out;
    `joinUnder_render`   names written below a root and joined to it again are found
                      where they were.
-/

namespace PosixPath

abbrev Name := List Char

abbrev Path := List Name

/-- A name that stands for itself. -/
def IsName (s : Name) : Prop := s ≠ [] ∧ s ≠ ['.'] ∧ s ≠ ['.', '.'] ∧ '/' ∉ s

instance decidableIsName (s : Name) : Decidable (IsName s) :=
  inferInstanceAs (Decidable (_ ∧ _ ∧ _ ∧ _))

/-- A resolved path. -/
structure AbsPath where
  names : Path
  plain : ∀ s ∈ names, IsName s

def isAbsolute (text : List Char) : Bool := text.head? = some '/'

def namesOf (text : List Char) : List Name := text.splitOn '/'

def render (p : Path) : List Char := ['/'].intercalate p

/-! ## Normalisation -/

/-- The next name of a path: `..` takes back the one before it, or climbs above the
root where that is allowed. -/
def push (above : Bool) (acc : Path) (s : Name) : Path :=
  if s = [] ∨ s = ['.'] then acc
  else if s = ['.', '.'] then
    if acc.getLast? = none ∨ acc.getLast? = some ['.', '.'] then
      if above then acc ++ [s] else acc
    else acc.dropLast
  else acc ++ [s]

def normalizeNames (above : Bool) (ss : List Name) : Path := ss.foldl (push above) []

/-- `resolve(text)` from a working directory. -/
def resolve (base : Path) (text : List Char) : Path :=
  normalizeNames false (if isAbsolute text then namesOf text else base ++ namesOf text)

/-- `join(root, text)` below a resolved root: a leading slash of the text is lost. -/
def joinUnder (root : Path) (text : List Char) : Path :=
  normalizeNames false (root ++ namesOf text)

/-- `join(...parts)` where the first part is relative. -/
def joinRelative (parts : List (List Char)) : List Char :=
  let ss := normalizeNames true (parts.flatMap namesOf)
  if ss = [] then ['.'] else render ss

def common : Path → Path → Nat
  | s :: p, t :: q => if s = t then common p q + 1 else 0
  | _, _ => 0

/-- `relative(from, to)`. -/
def relativeTo (p q : Path) : List Char :=
  render (List.replicate (p.length - common p q) ['.', '.'] ++ q.drop (common p q))

/-! ## Names -/

theorem slash_not_mem_namesOf (text : List Char) : ∀ s ∈ namesOf text, '/' ∉ s := by
  induction text with
  | nil =>
    intro s hs
    rw [namesOf, List.splitOn_nil, List.mem_singleton] at hs
    rw [hs]
    exact List.not_mem_nil
  | cons c text ih =>
    intro s hs
    rw [namesOf, List.splitOn_cons_eq_if_modifyHead] at hs
    split at hs
    · rcases List.mem_cons.mp hs with rfl | hs
      · exact List.not_mem_nil
      · exact ih s hs
    · next hc =>
      cases hsplit : text.splitOn '/' with
      | nil => exact absurd hsplit (List.splitOn_ne_nil _ _)
      | cons t ts =>
        have hmem : ∀ u ∈ t :: ts, '/' ∉ u := by
          intro u hu
          exact ih u (by rw [namesOf, hsplit]; exact hu)
        rw [hsplit, List.modifyHead_cons] at hs
        rcases List.mem_cons.mp hs with rfl | hs
        · intro hslash
          rcases List.mem_cons.mp hslash with h | h
          · exact hc (by rw [← h]; rfl)
          · exact hmem t List.mem_cons_self h
        · exact hmem s (List.mem_cons_of_mem _ hs)

theorem namesOf_render {p : Path} (hp : ∀ s ∈ p, '/' ∉ s) (hne : p ≠ []) :
    namesOf (render p) = p := List.splitOn_intercalate '/' hp hne

theorem foldl_push_names (above : Bool) (p : Path) (hp : ∀ s ∈ p, IsName s) : ∀ acc : Path,
    p.foldl (push above) acc = acc ++ p := by
  induction p with
  | nil =>
    intro acc
    rw [List.foldl_nil, List.append_nil]
  | cons s p ih =>
    intro acc
    obtain ⟨hnil, hdot, hdots, -⟩ := hp s List.mem_cons_self
    have hpush : push above acc s = acc ++ [s] := by
      rw [push, if_neg (not_or.mpr ⟨hnil, hdot⟩), if_neg hdots]
    rw [List.foldl_cons, hpush, ih (fun t ht => hp t (List.mem_cons_of_mem _ ht)),
      List.append_assoc, List.singleton_append]

theorem normalizeNames_names (above : Bool) {p : Path} (hp : ∀ s ∈ p, IsName s) :
    normalizeNames above p = p := by
  rw [normalizeNames, foldl_push_names above p hp, List.nil_append]

theorem push_isName {acc : Path} (hacc : ∀ s ∈ acc, IsName s) {s : Name} (hs : '/' ∉ s) :
    ∀ t ∈ push false acc s, IsName t := by
  unfold push
  split
  · exact hacc
  · next hplain =>
    split
    · split
      · exact hacc
      · intro t ht
        exact hacc t (List.dropLast_subset _ ht)
    · next hdots =>
      intro t ht
      rcases List.mem_append.mp ht with ht | ht
      · exact hacc t ht
      · obtain rfl := List.mem_singleton.mp ht
        rw [not_or] at hplain
        exact ⟨hplain.1, hplain.2, hdots, hs⟩

theorem normalizeNames_isName {ss : List Name} (h : ∀ s ∈ ss, '/' ∉ s) :
    ∀ t ∈ normalizeNames false ss, IsName t := by
  have hfold : ∀ (ss : List Name) (acc : Path), (∀ s ∈ ss, '/' ∉ s) → (∀ s ∈ acc, IsName s) →
      ∀ t ∈ ss.foldl (push false) acc, IsName t := by
    intro ss
    induction ss with
    | nil => intro acc _ hacc; exact hacc
    | cons s ss ih =>
      intro acc hss hacc
      exact ih _ (fun t ht => hss t (List.mem_cons_of_mem _ ht))
        (push_isName hacc (hss s List.mem_cons_self))
  exact hfold ss [] h (fun s hs => absurd hs List.not_mem_nil)

def AbsPath.resolve (base : AbsPath) (text : List Char) : AbsPath where
  names := PosixPath.resolve base.names text
  plain := by
    refine normalizeNames_isName ?_
    split
    · exact slash_not_mem_namesOf text
    · intro s hs
      rcases List.mem_append.mp hs with hs | hs
      · exact (base.plain s hs).2.2.2
      · exact slash_not_mem_namesOf text s hs

def AbsPath.joinUnder (root : AbsPath) (text : List Char) : AbsPath where
  names := PosixPath.joinUnder root.names text
  plain := by
    refine normalizeNames_isName ?_
    intro s hs
    rcases List.mem_append.mp hs with hs | hs
    · exact (root.plain s hs).2.2.2
    · exact slash_not_mem_namesOf text s hs

theorem joinUnder_render {root p : Path} (hroot : ∀ s ∈ root, IsName s) (hp : ∀ s ∈ p, IsName s)
    (hne : p ≠ []) : joinUnder root (render p) = root ++ p := by
  rw [joinUnder, namesOf_render (fun s hs => (hp s hs).2.2.2) hne]
  refine normalizeNames_names false ?_
  intro s hs
  rcases List.mem_append.mp hs with hs | hs
  · exact hroot s hs
  · exact hp s hs

theorem render_head {s : Name} {p : Path} :
    render (s :: p) = s ++ (if p = [] then [] else '/' :: render p) := by
  cases p with
  | nil => simp [render]
  | cons t p => simp [render, List.intercalate_cons_cons]

theorem render_append {p q : Path} (hp : p ≠ []) (hq : q ≠ []) :
    render (p ++ q) = render p ++ '/' :: render q := by
  induction p with
  | nil => exact absurd rfl hp
  | cons s p ih =>
    cases p with
    | nil => rw [List.singleton_append, render_head, if_neg hq, render_head, if_pos rfl,
        List.append_nil]
    | cons t p =>
      rw [List.cons_append, render_head, if_neg (by simp), ih (List.cons_ne_nil _ _)]
      conv_rhs => rw [render_head, if_neg (List.cons_ne_nil _ _)]
      rw [List.append_assoc, List.cons_append]

theorem isAbsolute_render {p : Path} (hp : ∀ s ∈ p, IsName s) : isAbsolute (render p) = false := by
  cases p with
  | nil => rfl
  | cons s p =>
    obtain ⟨hne, -, -, hslash⟩ := hp s List.mem_cons_self
    cases s with
    | nil => exact absurd rfl hne
    | cons c s =>
      have hc : c ≠ '/' := fun h => hslash (h ▸ List.mem_cons_self)
      rw [render_head, List.cons_append, isAbsolute, List.head?_cons]
      simpa using hc

theorem resolve_render {base p : Path} (hbase : ∀ s ∈ base, IsName s) (hp : ∀ s ∈ p, IsName s)
    (hne : p ≠ []) : resolve base (render p) = base ++ p := by
  rw [resolve, isAbsolute_render hp]
  exact joinUnder_render hbase hp hne

theorem render_inj {p q : Path} (hp : ∀ s ∈ p, IsName s) (hq : ∀ s ∈ q, IsName s) (hpne : p ≠ [])
    (hqne : q ≠ []) (h : render p = render q) : p = q := by
  rw [← namesOf_render (fun s hs => (hp s hs).2.2.2) hpne, h,
    namesOf_render (fun s hs => (hq s hs).2.2.2) hqne]

/-! ## Beginnings of a path -/

theorem prefix_render {s : Name} {p : Path} (hs : '/' ∉ s) (hp : ∀ t ∈ p, IsName t)
    (h : s ++ ['/'] <+: render p) : ∃ q, p = s :: q ∧ q ≠ [] := by
  obtain ⟨u, hu⟩ := h
  have hne : p ≠ [] := by
    rintro rfl
    rw [show render [] = [] from rfl] at hu
    simp at hu
  have hsplit := namesOf_render (fun t ht => (hp t ht).2.2.2) hne
  rw [← hu, List.append_assoc, List.singleton_append, namesOf,
    List.splitOn_append_cons_self_of_not_mem hs] at hsplit
  exact ⟨_, hsplit.symm, List.splitOn_ne_nil _ _⟩

theorem render_below {s : Name} {q : Path} (hne : q ≠ []) : s ++ ['/'] <+: render (s :: q) := by
  rw [render_head, if_neg hne]
  exact ⟨render q, by simp⟩

/-! ## Relative paths -/

theorem common_append (p q : Path) : common p (p ++ q) = p.length := by
  induction p with
  | nil => cases q <;> rfl
  | cons s p ih => rw [List.cons_append, common, if_pos rfl, ih, List.length_cons]

theorem common_le (p : Path) : ∀ q : Path, common p q ≤ p.length := by
  induction p with
  | nil => intro q; cases q <;> exact Nat.le_refl _
  | cons s p ih =>
    intro q
    cases q with
    | nil => exact Nat.zero_le _
    | cons t q =>
      rw [common]
      split
      · exact Nat.succ_le_succ (ih q)
      · exact Nat.zero_le _

theorem prefix_of_common (p : Path) : ∀ q : Path, common p q = p.length → p <+: q := by
  induction p with
  | nil => intro q _; exact List.nil_prefix
  | cons s p ih =>
    intro q h
    cases q with
    | nil => cases h
    | cons t q =>
      rw [common] at h
      split at h
      · next heq =>
        rw [heq, List.cons_prefix_cons]
        exact ⟨rfl, ih q (Nat.succ.inj h)⟩
      · cases h

theorem relativeTo_under (root q : Path) : relativeTo root (root ++ q) = render q := by
  rw [relativeTo, common_append, Nat.sub_self, List.replicate_zero, List.nil_append,
    List.drop_left]

theorem relativeTo_outside {root q : Path} (h : ¬ root <+: q) :
    relativeTo root q = ['.', '.'] ∨ ['.', '.', '/'] <+: relativeTo root q := by
  have hle := common_le root q
  have hne : common root q ≠ root.length := fun heq => h (prefix_of_common root q heq)
  obtain ⟨n, hn⟩ : ∃ n, root.length - common root q = n + 1 := ⟨_, (Nat.succ_pred (by omega)).symm⟩
  rw [relativeTo, hn, List.replicate_succ, List.cons_append, render_head]
  split
  · exact .inl (List.append_nil _)
  · exact .inr ⟨render (List.replicate n ['.', '.'] ++ q.drop (common root q)), rfl⟩

end PosixPath
