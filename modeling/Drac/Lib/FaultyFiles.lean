import Drac.Lib.FileTree

/-
  Calls to a file system that may fail.

  The calls of a program are numbered. Which of them fail, and how far a failing one gets, is
  given by `Faults`; a call that does not fail does what the tree allows, or refuses. `FileIO`
  is the monad of programs of such calls. The files hold lists, so that a part may be written.

    `ok_bind`, `error_bind`   what a sequence of two programs comes to;
    `Keeps.bind`              a relation that every call keeps holds from before to after;
    `call_ok`                 a call that succeeds did all of its work;
    `call_noFault`            where nothing fails, a call does what the tree allows.
-/

namespace Files

variable {ν α β γ : Type}

/-- What a failing call has done by then. -/
structure Fault (ν : Type) where
  /-- How many directories were made; of a file, whether it was, and how much of it. -/
  made : Nat
  /-- What a removal has left. -/
  leaves : List ν → Bool

/-- The calls that fail, by their number. -/
abbrev Faults (ν : Type) := Nat → Option (Fault ν)

def noFault : Faults ν := fun _ => none

inductive FileError where
  /-- The call failed of itself: an input/output error, a permission, a name too long. -/
  | failed
  /-- `ENOENT` -/
  | missing
  /-- `ENOTDIR` -/
  | notDirectory
  /-- What stands in the tree does not allow it. -/
  | refused
  deriving DecidableEq, Repr

/-- A tree, and how many calls were made. -/
structure Disk (ν α : Type) where
  tree : FileTree ν (List α)
  calls : Nat

/-- A program of calls. -/
def FileIO (ν α β : Type) : Type := Faults ν → Disk ν α → Except FileError β × Disk ν α

namespace FileIO

instance : Monad ( FileIO ν α) where
  pure b := fun _ d => (.ok b, d)
  bind x f := fun faults d =>
    match x faults d with
    | (.ok b, d') => f b faults d'
    | (.error e, d') => (.error e, d')

/-- `try { … } catch (error) { … }`, as what became of it. -/
def attempt (x : FileIO ν α β) : FileIO ν α (Except FileError β) :=
  fun faults d => (.ok (x faults d).1, (x faults d).2)

variable {x : FileIO ν α β} {f : β → FileIO ν α γ} {faults : Faults ν} {d d' : Disk ν α}

theorem ok_bind {c : γ} : (x >>= f) faults d = (.ok c, d') ↔
    ∃ b d₁, x faults d = (.ok b, d₁) ∧ f b faults d₁ = (.ok c, d') := by
  show (match x faults d with
    | (.ok b, d') => f b faults d'
    | (.error e, d') => (.error e, d')) = (.ok c, d') ↔ _
  split
  · next b d₁ hx =>
    constructor
    · exact fun h => ⟨b, d₁, hx, h⟩
    · rintro ⟨b', d₁', hx', h⟩
      rw [hx] at hx'
      cases hx'
      exact h
  · next e d₁ hx =>
    constructor
    · intro h
      cases h
    · rintro ⟨b', d₁', hx', h⟩
      rw [hx] at hx'
      cases hx'

theorem error_bind {e : FileError} : (x >>= f) faults d = (.error e, d') ↔
    x faults d = (.error e, d') ∨
      ∃ b d₁, x faults d = (.ok b, d₁) ∧ f b faults d₁ = (.error e, d') := by
  show (match x faults d with
    | (.ok b, d') => f b faults d'
    | (.error e, d') => (.error e, d')) = (.error e, d') ↔ _
  split
  · next b d₁ hx =>
    rw [hx]
    constructor
    · exact fun h => .inr ⟨b, d₁, rfl, h⟩
    · rintro (h | ⟨b', d₁', hx', h⟩)
      · cases h
      · cases hx'
        exact h
  · next e' d₁ hx =>
    rw [hx]
    constructor
    · intro h
      cases h
      exact .inl rfl
    · rintro (h | ⟨b', d₁', hx', -⟩)
      · cases h
        rfl
      · cases hx'

theorem ok_pure {b c : β} : (pure b : FileIO ν α β) faults d = (.ok c, d') ↔ b = c ∧ d = d' := by
  constructor
  · intro h
    cases h
    exact ⟨rfl, rfl⟩
  · rintro ⟨rfl, rfl⟩
    rfl

theorem attempt_ok {r : Except FileError β} :
    attempt x faults d = (.ok r, d') ↔ x faults d = (r, d') := by
  constructor
  · intro h
    cases h
    rfl
  · intro h
    rw [attempt, h]

/-- The program keeps a relation of the trees before and after it. -/
def Keeps (R : FileTree ν (List α) → FileTree ν (List α) → Prop) (x : FileIO ν α β) : Prop :=
  ∀ faults d, R d.tree (x faults d).2.tree

section Keeps

variable {R : FileTree ν (List α) → FileTree ν (List α) → Prop}

theorem Keeps.pure (hrefl : ∀ t, R t t) (b : β) : Keeps R (pure b : FileIO ν α β) :=
  fun _ d => hrefl d.tree

theorem Keeps.bind (htrans : ∀ s t u, R s t → R t u → R s u) (hx : Keeps R x)
    (hf : ∀ b, Keeps R (f b)) : Keeps R (x >>= f) := by
  intro faults d
  show R d.tree (match x faults d with
    | (.ok b, d') => f b faults d'
    | (.error e, d') => (.error e, d')).2.tree
  have hfirst := hx faults d
  split
  · next b d₁ heq =>
    rw [heq] at hfirst
    exact htrans _ _ _ hfirst (hf b faults d₁)
  · next e d₁ heq =>
    rw [heq] at hfirst
    exact hfirst

end Keeps

/-! ## One call -/

/-- A call: what it does where the tree allows it, and what a failing one has done. -/
def call (works : FileTree ν (List α) → Except FileError (β × FileTree ν (List α)))
    (breaks : Fault ν → FileTree ν (List α) → FileTree ν (List α)) : FileIO ν α β :=
  fun faults d =>
    match faults d.calls with
    | some fault => (.error .failed, ⟨breaks fault d.tree, d.calls + 1⟩)
    | none =>
      match works d.tree with
      | .ok (b, t) => (.ok b, ⟨t, d.calls + 1⟩)
      | .error e => (.error e, ⟨d.tree, d.calls + 1⟩)

section Call

variable {works : FileTree ν (List α) → Except FileError (β × FileTree ν (List α))}
  {breaks : Fault ν → FileTree ν (List α) → FileTree ν (List α)}

theorem call_ok {b : β} (h : call works breaks faults d = (.ok b, d')) :
    works d.tree = .ok (b, d'.tree) := by
  unfold call at h
  split at h
  · cases h
  · split at h
    · next hworks =>
      cases h
      exact hworks
    · cases h

theorem call_noFault {b : β} {t : FileTree ν (List α)} (h : works d.tree = .ok (b, t)) :
    call works breaks noFault d = (.ok b, ⟨t, d.calls + 1⟩) := by
  unfold call noFault
  simp only [h]

theorem call_keeps {R : FileTree ν (List α) → FileTree ν (List α) → Prop} (hrefl : ∀ t, R t t)
    (hworks : ∀ t b u, works t = .ok (b, u) → R t u) (hbreaks : ∀ fault t, R t (breaks fault t)) :
    Keeps R (call works breaks) := by
  intro faults d
  unfold call
  split
  · exact hbreaks _ _
  · split
    · next hw => exact hworks _ _ _ hw
    · exact hrefl _

end Call

/-! ## The calls -/

variable [DecidableEq ν]

/-- A file stands where a directory on the way should be. -/
def blocked (t : FileTree ν (List α)) (p : List ν) : Bool :=
  p.inits.any (fun q => (t.readFile q).isSome)

/-- `stat`: whether something is there; a file on the way is an error. -/
def pathExists (p : List ν) : FileIO ν α Bool :=
  call (fun t => if t.has p then .ok (true, t)
      else if blocked t p then .error .notDirectory
      else .ok (false, t))
    (fun _ t => t)

def rename (src dst : List ν) : FileIO ν α Unit :=
  call (fun t => match t.rename src dst with
      | some u => .ok ((), u)
      | none => .error .refused)
    (fun _ t => t)

/-- `open`, `sync` and `close`. -/
def flush (p : List ν) : FileIO ν α Unit :=
  call (fun t => if t.has p then .ok ((), t) else .error .missing) (fun _ t => t)

def mkdirsTo (t : FileTree ν (List α)) (p : List ν) (made : Nat) : FileTree ν (List α) :=
  ((p.inits.take made).foldlM (fun (t : FileTree ν (List α)) q =>
    if t.isDir q then some t else t.create q .dir) t).getD t

/-- `mkdir(path, { recursive: true })`. -/
def mkdirs (p : List ν) : FileIO ν α Unit :=
  call (fun t => match t.mkdirs p with
      | some u => .ok ((), u)
      | none => .error .refused)
    (fun fault t => mkdirsTo t p fault.made)

/-- The file with the first of its content, or not there yet. -/
def writeTo (t : FileTree ν (List α)) (p : List ν) (content : List α) : Nat → FileTree ν (List α)
  | 0 => t
  | written + 1 => (t.create p (.file (content.take written))).getD t

/-- `writeFile(path, content, { flag: 'wx' })`. -/
def writeNew (p : List ν) (content : List α) : FileIO ν α Unit :=
  call (fun t => match t.create p (.file content) with
      | some u => .ok ((), u)
      | none => .error .refused)
    (fun fault t => writeTo t p content fault.made)

end FileIO

/-- A removal stopped half way: what is left, with the directories it stands in. -/
def FileTree.thin [DecidableEq ν] (t : FileTree ν (List α)) (p : List ν) (leaves : List ν → Bool) :
    FileTree ν (List α) where
  nodes := t.nodes.filter
    (fun e => ¬ p <+: e.1 ∨ t.paths.any (fun q => leaves q && decide (e.1 <+: q)))
  nodup := t.nodup.sublist (List.Sublist.map _ List.filter_sublist)
  closed := by
    intro q x hmem
    obtain ⟨e, he, heq⟩ := List.mem_map.mp hmem
    obtain ⟨hin, hleft⟩ := List.mem_filter.mp he
    have hpath : q ++ [x] ∈ t.paths := heq ▸ List.mem_map_of_mem (f := Prod.fst) hin
    refine List.mem_filter.mpr ⟨t.closed q x hpath, ?_⟩
    rw [decide_eq_true_eq, heq] at hleft
    rw [decide_eq_true_eq]
    rcases hleft with hout | hkept
    · exact .inl (fun hpre => hout (hpre.trans (List.prefix_append q [x])))
    · right
      rw [List.any_eq_true] at hkept ⊢
      obtain ⟨r, hr, hkept⟩ := hkept
      rw [Bool.and_eq_true, decide_eq_true_eq] at hkept
      refine ⟨r, hr, ?_⟩
      rw [Bool.and_eq_true, decide_eq_true_eq]
      exact ⟨hkept.1, (List.prefix_append q [x]).trans hkept.2⟩

namespace FileIO

variable [DecidableEq ν]

/-- `rm(path, { recursive: true, force: true })`. -/
def rm (p : List ν) : FileIO ν α Unit :=
  call (fun t => .ok ((), t.prune p)) (fun fault t => t.thin p fault.leaves)

/-! ## What the calls do -/

variable {faults : Faults ν} {d d' : Disk ν α} {p src dst : List ν}

theorem pathExists_ok {b : Bool} (h : pathExists p faults d = (.ok b, d')) :
    b = d.tree.has p ∧ d'.tree = d.tree := by
  have hworks := call_ok h
  split at hworks
  · next hhas =>
    obtain ⟨rfl, htree⟩ := Prod.mk.inj (Except.ok.inj hworks)
    exact ⟨hhas.symm, htree.symm⟩
  · next hhas =>
    split at hworks
    · cases hworks
    · obtain ⟨rfl, htree⟩ := Prod.mk.inj (Except.ok.inj hworks)
      exact ⟨by simpa using hhas, htree.symm⟩

theorem pathExists_keeps (p : List ν) : Keeps Eq (pathExists p : FileIO ν α Bool) := by
  refine call_keeps (fun _ => rfl) ?_ (fun _ _ => rfl)
  intro t b u h
  split at h
  · exact (Prod.mk.inj (Except.ok.inj h)).2
  · split at h
    · cases h
    · exact (Prod.mk.inj (Except.ok.inj h)).2

theorem flush_keeps (p : List ν) : Keeps Eq (flush p : FileIO ν α Unit) := by
  refine call_keeps (fun _ => rfl) ?_ (fun _ _ => rfl)
  intro t b u h
  split at h
  · exact (Prod.mk.inj (Except.ok.inj h)).2
  · cases h

theorem rename_error {e : FileError} (h : rename src dst faults d = (.error e, d')) :
    d'.tree = d.tree := by
  unfold rename call at h
  split at h
  · cases h
    rfl
  · split at h
    · cases h
    · cases h
      rfl

theorem rename_ok {b : Unit} (h : rename src dst faults d = (.ok b, d')) :
    d.tree.rename src dst = some d'.tree := by
  have hworks := call_ok h
  split at hworks
  · next hren =>
    cases hworks
    exact hren
  · cases hworks

theorem mkdirs_ok {b : Unit} (h : mkdirs p faults d = (.ok b, d')) :
    d.tree.mkdirs p = some d'.tree := by
  have hworks := call_ok h
  split at hworks
  · next hmk =>
    cases hworks
    exact hmk
  · cases hworks

theorem writeNew_ok {content : List α} {b : Unit} (h : writeNew p content faults d = (.ok b, d')) :
    d.tree.create p (.file content) = some d'.tree := by
  have hworks := call_ok h
  split at hworks
  · next hcreate =>
    cases hworks
    exact hcreate
  · cases hworks

theorem flush_ok {b : Unit} (h : flush p faults d = (.ok b, d')) : d'.tree = d.tree := by
  have hworks := call_ok h
  split at hworks
  · exact (Prod.mk.inj (Except.ok.inj hworks)).2.symm
  · cases hworks

theorem rm_ok {b : Unit} (h : rm p faults d = (.ok b, d')) : d'.tree = d.tree.prune p := by
  have hworks := call_ok h
  exact (Prod.mk.inj (Except.ok.inj hworks)).2.symm

theorem mkdirsTo_made (t : FileTree ν (List α)) (p : List ν) (made : Nat) :
    FileTree.Made t p (mkdirsTo t p made) := by
  unfold mkdirsTo
  cases hfold : (p.inits.take made).foldlM
      (fun (t : FileTree ν (List α)) q => if t.isDir q then some t else t.create q .dir) t with
  | none => exact .refl t p
  | some u =>
    refine FileTree.Made.foldlM (p.inits.take made) ?_ (.refl t p) hfold
    exact fun q hq => (List.mem_inits _ _).mp (List.mem_of_mem_take hq)

theorem mem_writeTo {t : FileTree ν (List α)} {content : List α} {written : Nat}
    {e : List ν × Node (List α)} (hne : e.1 ≠ p) :
    e ∈ (writeTo t p content written).nodes ↔ e ∈ t.nodes := by
  cases written with
  | zero => rfl
  | succ written =>
    simp only [writeTo]
    cases hcreate : t.create p (.file (content.take written)) with
    | none => rfl
    | some u =>
      refine (FileTree.mem_create hcreate).trans ⟨fun h => h.resolve_right ?_, .inl⟩
      rintro rfl
      exact hne rfl

/-! Where nothing fails, and the tree allows it. -/

theorem pathExists_noFault_there (h : p ∈ d.tree.paths) :
    pathExists p noFault d = (.ok true, ⟨d.tree, d.calls + 1⟩) :=
  call_noFault (if_pos (FileTree.has_iff.mpr h))

theorem pathExists_noFault_missing (h : p ∉ d.tree.paths) (hdir : (p.dropLast, .dir) ∈ d.tree.nodes) :
    pathExists p noFault d = (.ok false, ⟨d.tree, d.calls + 1⟩) := by
  refine call_noFault ?_
  rw [if_neg (fun hhas => h (FileTree.has_iff.mp hhas)), if_neg]
  rw [blocked, List.any_eq_true]
  rintro ⟨q, hq, hfile⟩
  obtain ⟨content, hfile⟩ := Option.isSome_iff_exists.mp hfile
  have hnode := FileTree.readFile_eq_some.mp hfile
  have hpath : q ∈ d.tree.paths := List.mem_map_of_mem (f := Prod.fst) hnode
  obtain ⟨rest, hrest⟩ := (List.mem_inits _ _).mp hq
  rcases List.eq_nil_or_concat' rest with rfl | ⟨init, x, rfl⟩
  · rw [List.append_nil] at hrest
    exact h (hrest ▸ hpath)
  · rw [← hrest, ← List.append_assoc, List.dropLast_concat] at hdir
    have hisdir : (q, Node.dir) ∈ d.tree.nodes := by
      by_cases hinit : init = []
      · rwa [hinit, List.append_nil] at hdir
      · exact d.tree.dir_of_prefix init hinit (List.mem_map_of_mem (f := Prod.fst) hdir)
    cases d.tree.node_unique hnode hisdir

theorem rename_noFault {t : FileTree ν (List α)} (h : d.tree.rename src dst = some t) :
    rename src dst noFault d = (.ok (), ⟨t, d.calls + 1⟩) := by
  refine call_noFault ?_
  simp only [h]

theorem mkdirs_noFault {t : FileTree ν (List α)} (h : d.tree.mkdirs p = some t) :
    mkdirs p noFault d = (.ok (), ⟨t, d.calls + 1⟩) := by
  refine call_noFault ?_
  simp only [h]

theorem flush_noFault (h : p ∈ d.tree.paths) :
    flush p noFault d = (.ok (), ⟨d.tree, d.calls + 1⟩) :=
  call_noFault (if_pos (FileTree.has_iff.mpr h))

theorem rm_noFault : rm p noFault d = (.ok (), ⟨d.tree.prune p, d.calls + 1⟩) := call_noFault rfl

end FileIO

end Files
