import Drac.Recordings.FileDeletionJournal

/-
  The files of a deletion, at every point of its staging.

  `staged_outside`, `staged_inside`, `staged_quarantine` and `staged_kept` say what is
  where once the entries `done` have been staged: outside the operation, what no entry
  has taken; in quarantine, nothing but what they have. `restore_staged` is the other
  way: restoring every entry of the journal, however many were staged, gives back the
  tree the staging began with.
-/

namespace Drac.Recordings

open PosixPath Files FileTree

/-! ## The paths of an operation -/

variable {q : Path}

section Paths

variable {root : AbsPath} {op : Name}

theorem operationRoot_eq : operationRoot root op = root.names ++ [journalDir, op] := by
  rw [operationRoot, operationsRoot, List.append_assoc]
  rfl

theorem target_apart (hq : Target q) (rest : Path) :
    ¬ root.names ++ q <+: operationRoot root op ++ rest := by
  intro h
  rw [operationRoot_eq, List.append_assoc, List.prefix_append_right_inj] at h
  cases q with
  | nil => exact hq.ne_nil rfl
  | cons s q =>
    rw [List.cons_append, List.cons_prefix_cons] at h
    exact hq.head (by rw [h.1]; rfl)

theorem operationRoot_prefix_quarantine : operationRoot root op <+: quarantineRoot root op :=
  List.prefix_append _ _

theorem journalPath_not_quarantine : ¬ quarantineRoot root op <+: journalPath root op := by
  rw [quarantineRoot, journalPath, List.prefix_append_right_inj]
  decide

end Paths

/-- The entries of an operation: each its own target, each a place of its own. -/
structure OwnEntries (root : AbsPath) (op : Name) (es : List JournalEntry) : Prop where
  own : ∀ e ∈ es, ∃ i q, OwnEntry op e i q
  apart : (es.map (quarantinePath root)).Nodup

theorem ownEntries_written (root : AbsPath) {j : DeletionJournal} {rels : List (List Char)}
    (hw : Written j rels) : OwnEntries root j.operationId j.entries where
  own _ he := hw.ownEntry he
  apart := by
    have hnames := fun i => quarantineNames_isName hw.operation_isName i
    have hpath : ∀ r : List Char × Nat, quarantinePath root
        { originalRelative := r.1
          quarantineRelative := joinRelative [journalDir, j.operationId, quarantineDir, padIndex r.2] } =
        root.names ++ quarantineNames j.operationId r.2 := by
      intro r
      rw [quarantinePath]
      show joinUnder root.names (joinRelative (quarantineNames j.operationId r.2)) = _
      rw [joinRelative_names (hnames r.2) (List.cons_ne_nil _ _),
        joinUnder_render root.plain (hnames r.2) (List.cons_ne_nil _ _)]
    have hplaces : j.entries.map (quarantinePath root) =
        (rels.zipIdx.map Prod.snd).map (fun i => root.names ++ quarantineNames j.operationId i) := by
      rw [hw.entries, makeEntries, List.map_map, List.map_map]
      exact List.map_congr_left (fun r _ => hpath r)
    rw [hplaces, List.zipIdx_map_snd]
    refine List.Nodup.map ?_ List.nodup_range'
    intro i k h
    have := List.append_cancel_left h
    simp only [quarantineNames, List.cons.injEq, and_true, true_and] at this
    exact padIndex_inj this

variable {e : JournalEntry} {t u : Tree} {i : Nat} {done : List JournalEntry}

section Staged

variable {root : AbsPath} {op : Name}

theorem stageEntry_some (h : stageEntry root t e = some u) :
    (∀ p n, (p, n) ∈ u.nodes ↔
      (∃ rest, p = quarantinePath root e ++ rest ∧ (originalPath root e ++ rest, n) ∈ t.nodes) ∨
        (¬ originalPath root e <+: p ∧ (p, n) ∈ t.nodes)) ∧
      originalPath root e ∉ u.paths := by
  unfold stageEntry at h
  split at h
  · obtain ⟨hren, hmem⟩ := rename_some h
    refine ⟨hmem, ?_⟩
    obtain ⟨hback, -⟩ := rename_some (rename_back h)
    exact hback.2.1
  · next hmissing =>
    cases h
    have hfree : originalPath root e ∉ t.paths := fun hin => hmissing (has_iff.mpr hin)
    refine ⟨?_, hfree⟩
    intro p n
    constructor
    · intro hp
      exact .inr ⟨not_under hfree p (List.mem_map_of_mem (f := Prod.fst) hp), hp⟩
    · rintro (⟨rest, -, hin⟩ | ⟨-, hp⟩)
      · exact absurd (List.mem_map_of_mem (f := Prod.fst) hin)
          (fun hin => not_under hfree _ hin (List.prefix_append _ rest))
      · exact hp

/-- **What is where** once some entries have been staged. -/
structure StagedTree (root : AbsPath) (op : Name) (base : Tree) (done : List JournalEntry)
    (t : Tree) : Prop where
  outside : ∀ p n, ¬ operationRoot root op <+: p →
    ((p, n) ∈ t.nodes ↔ (p, n) ∈ base.nodes ∧ ∀ e ∈ done, ¬ originalPath root e <+: p)
  inside : ∀ p n, operationRoot root op <+: p → ¬ quarantineRoot root op <+: p →
    ((p, n) ∈ t.nodes ↔ (p, n) ∈ base.nodes)
  quarantine : ∀ p ∈ t.paths, quarantineRoot root op <+: p →
    p = quarantineRoot root op ∨ ∃ e ∈ done, quarantinePath root e <+: p
  kept : ∀ p n, ¬ operationRoot root op <+: p → (p, n) ∈ base.nodes →
    (p, n) ∈ t.nodes ∨ ∃ e ∈ done, ∃ rest, p = originalPath root e ++ rest ∧
      (quarantinePath root e ++ rest, n) ∈ t.nodes

theorem quarantine_under (root : AbsPath) (hop : IsName op)
    (he : OwnEntry op e i q) (rest : Path) :
    quarantineRoot root op <+: quarantinePath root e ++ rest := by
  rw [quarantinePath_own root hop he, List.append_assoc]
  exact List.prefix_append _ _

theorem original_apart (he : OwnEntry op e i q) {p : Path}
    (hp : operationRoot root op <+: p) : ¬ originalPath root e <+: p := by
  obtain ⟨rest, rfl⟩ := hp
  rw [originalPath_own he]
  exact target_apart he.target rest

theorem stagedTree_snoc (hop : IsName op) {base t u : Tree}
    (he : OwnEntry op e i q) (ht : StagedTree root op base done t)
    (hdone : ∀ e ∈ done, ∃ i q, OwnEntry op e i q) (h : stageEntry root t e = some u) :
    StagedTree root op base (done ++ [e]) u := by
  obtain ⟨hmem, hgone⟩ := stageEntry_some h
  have hquarUnder : ∀ rest, quarantineRoot root op <+: quarantinePath root e ++ rest :=
    quarantine_under root hop he
  have hopUnder : ∀ rest, operationRoot root op <+: quarantinePath root e ++ rest :=
    fun rest => operationRoot_prefix_quarantine.trans (hquarUnder rest)
  have hapart : ∀ p, operationRoot root op <+: p → ¬ originalPath root e <+: p :=
    fun p hp => original_apart he hp
  refine ⟨?_, ?_, ?_, ?_⟩
  · intro p n hout
    rw [hmem]
    constructor
    · rintro (⟨rest, rfl, -⟩ | ⟨hnot, hp⟩)
      · exact absurd (hopUnder rest) hout
      · obtain ⟨hbase, hall⟩ := (ht.outside p n hout).mp hp
        refine ⟨hbase, ?_⟩
        intro e' he'
        rcases List.mem_append.mp he' with he' | he'
        · exact hall e' he'
        · rw [List.mem_singleton.mp he']
          exact hnot
    · rintro ⟨hbase, hall⟩
      refine .inr ⟨hall e (List.mem_append_right _ (List.mem_singleton_self e)), ?_⟩
      exact (ht.outside p n hout).mpr ⟨hbase, fun e' he' => hall e' (List.mem_append_left _ he')⟩
  · intro p n hin hnot
    rw [hmem, ← ht.inside p n hin hnot]
    constructor
    · rintro (⟨rest, rfl, -⟩ | ⟨-, hp⟩)
      · exact absurd (hquarUnder rest) hnot
      · exact hp
    · intro hp
      exact .inr ⟨hapart p hin, hp⟩
  · intro p hp hunder
    obtain ⟨⟨p', n⟩, hnode, rfl⟩ := List.mem_map.mp hp
    rcases (hmem p' n).mp hnode with ⟨rest, hrest, -⟩ | ⟨-, hp⟩
    · right
      refine ⟨e, List.mem_append_right _ (List.mem_singleton_self e), rest, ?_⟩
      exact hrest.symm
    · rcases ht.quarantine p' (List.mem_map_of_mem (f := Prod.fst) hp) hunder with heq | ⟨e', he', hpre⟩
      · exact .inl heq
      · exact .inr ⟨e', List.mem_append_left _ he', hpre⟩
  · intro p n hout hbase
    rcases ht.kept p n hout hbase with hp | ⟨e', he', rest, hrest, hp⟩
    · by_cases hpre : originalPath root e <+: p
      · obtain ⟨rest, rfl⟩ := hpre
        right
        exact ⟨e, List.mem_append_right _ (List.mem_singleton_self e), rest, rfl,
          (hmem _ n).mpr (.inl ⟨rest, rfl, hp⟩)⟩
      · exact .inl ((hmem p n).mpr (.inr ⟨hpre, hp⟩))
    · -- what an earlier entry took is in quarantine, where this one takes nothing
      refine .inr ⟨e', List.mem_append_left _ he', rest, hrest, (hmem _ n).mpr (.inr ⟨?_, hp⟩)⟩
      obtain ⟨i', q', hown⟩ := hdone e' he'
      exact hapart _ (operationRoot_prefix_quarantine.trans (quarantine_under root hop hown rest))

theorem stagedTree_base {base : Tree}
    (hbase : ∀ p ∈ base.paths, quarantineRoot root op <+: p → p = quarantineRoot root op) :
    StagedTree root op base [] base where
  outside p n _ := by simp
  inside p n _ _ := Iff.rfl
  quarantine p hp hunder := .inl (hbase p hp hunder)
  kept p n _ h := .inl h

/-- **What is where**, after any number of entries. -/
theorem stagedTree_of_stageEntries (hop : IsName op) {base : Tree}
    (hbase : ∀ p ∈ base.paths, quarantineRoot root op <+: p → p = quarantineRoot root op)
    (done : List JournalEntry) (hdone : ∀ e ∈ done, ∃ i q, OwnEntry op e i q) : ∀ {t : Tree},
    stageEntries root base done = some t → StagedTree root op base done t := by
  induction done using List.reverseRecOn with
  | nil =>
    intro t h
    cases h
    exact stagedTree_base hbase
  | append_singleton done e ih =>
    intro t h
    rw [stageEntries, List.foldlM_append] at h
    obtain ⟨s, hs, h⟩ := Option.bind_eq_some_iff.mp h
    rw [List.foldlM_cons, Option.bind_eq_bind, Option.bind_eq_some_iff] at h
    obtain ⟨t', ht', h⟩ := h
    cases h
    have hinit := fun e he => hdone e (List.mem_append_left _ he)
    obtain ⟨i, q, he⟩ := hdone e (List.mem_append_right _ (List.mem_singleton_self e))
    exact stagedTree_snoc hop he (ih hinit hs) hinit ht'

/-! ## Restoring -/

theorem restoreEntry_missing (h : quarantinePath root e ∉ t.paths) :
    restoreEntry root t e = (t, true) := by
  have hmissing : t.has (quarantinePath root e) = false := by
    rw [← Bool.not_eq_true, has_iff]
    exact h
  rw [restoreEntry, if_pos hmissing]

theorem restoreEntry_back
    (h : t.rename (quarantinePath root e) (originalPath root e) = some u) :
    restoreEntry root t e = (u, true) := by
  obtain ⟨⟨hthere, hgone, -, hdir⟩, -⟩ := rename_some h
  have hhas : ¬ t.has (quarantinePath root e) = false := by
    rw [has_iff.mpr hthere]
    decide
  have hclear : ¬ t.has (originalPath root e) = true := fun hin => hgone (has_iff.mp hin)
  rw [restoreEntry, if_neg hhas, if_neg hclear]
  simp only [mkdirs_self (isDir_iff.mp hdir), h]

/-- **Restoring an entry undoes its staging.** -/
theorem restoreEntry_stageEntry (h : stageEntry root t e = some u)
    (hfree : quarantinePath root e ∉ t.paths) : restoreEntry root u e = (t, true) := by
  unfold stageEntry at h
  split at h
  · exact restoreEntry_back (rename_back h)
  · cases h
    exact restoreEntry_missing hfree

theorem quarantine_free {base t : Tree} (hop : IsName op)
    (ht : StagedTree root op base done t) (he : OwnEntry op e i q)
    (hdone : ∀ e' ∈ done, (∃ i q, OwnEntry op e' i q) ∧ quarantinePath root e' ≠ quarantinePath root e) :
    quarantinePath root e ∉ t.paths := by
  intro hmem
  have hunder := quarantine_under root hop he []
  rw [List.append_nil] at hunder
  have hquar := quarantinePath_own root hop he
  rcases ht.quarantine _ hmem hunder with heq | ⟨e', he', hpre⟩
  · rw [hquar] at heq
    have := congrArg List.length heq
    simp at this
  · obtain ⟨⟨i', q', hown⟩, hne⟩ := hdone e' he'
    have hquar' := quarantinePath_own root hop hown
    refine hne (hpre.eq_of_length ?_)
    rw [hquar, hquar', List.length_append, List.length_append]
    rfl

theorem foldl_restore_missing (es : List JournalEntry) (b : Bool)
    (h : ∀ e ∈ es, quarantinePath root e ∉ t.paths) :
    es.foldl (fun st e =>
      let r := restoreEntry root st.1 e
      (r.1, st.2 && r.2)) (t, b) = (t, b) := by
  induction es with
  | nil => rfl
  | cons e es ih =>
    rw [List.foldl_cons]
    simp only [restoreEntry_missing (h e List.mem_cons_self), Bool.and_true]
    exact ih (fun e' he' => h e' (List.mem_cons_of_mem _ he'))

/-- **Restoring gives back the tree the staging began with**, from any point of it. -/
theorem restoreEntries_staged (hop : IsName op) {base : Tree}
    (hbase : ∀ p ∈ base.paths, quarantineRoot root op <+: p → p = quarantineRoot root op)
    {done rest : List JournalEntry} (hes : OwnEntries root op (done ++ rest))
    (h : stageEntries root base done = some t) :
    restoreEntries root t (done ++ rest) = (base, true) := by
  have hown := hes.own
  have hapart := hes.apart
  rw [List.map_append, List.nodup_append] at hapart
  obtain ⟨hdoneApart, -, hacross⟩ := hapart
  have hdoneOwn := fun e he => hown e (List.mem_append_left rest he)
  -- what was not staged has nothing in quarantine
  have hrest : ∀ e ∈ rest.reverse, quarantinePath root e ∉ t.paths := by
    intro e he
    rw [List.mem_reverse] at he
    obtain ⟨i, q, hq⟩ := hown e (List.mem_append_right _ he)
    refine quarantine_free hop (stagedTree_of_stageEntries hop hbase done hdoneOwn h) hq ?_
    intro e' he'
    exact ⟨hdoneOwn e' he', hacross _ (List.mem_map_of_mem he') _ (List.mem_map_of_mem he)⟩
  rw [restoreEntries, List.reverse_append, List.foldl_append,
    foldl_restore_missing rest.reverse true hrest]
  clear hrest hacross hown hes
  -- and the rest is undone, last first
  induction done using List.reverseRecOn generalizing t with
  | nil =>
    cases h
    rfl
  | append_singleton done e ih =>
    rw [stageEntries, List.foldlM_append] at h
    obtain ⟨s, hs, h⟩ := Option.bind_eq_some_iff.mp h
    rw [List.foldlM_cons, Option.bind_eq_bind, Option.bind_eq_some_iff] at h
    obtain ⟨t', ht', h⟩ := h
    cases h
    have hinit := fun e he => hdoneOwn e (List.mem_append_left _ he)
    rw [List.map_append, List.nodup_append] at hdoneApart
    obtain ⟨hinitApart, -, hlast⟩ := hdoneApart
    obtain ⟨i, q, he⟩ := hdoneOwn e (List.mem_append_right _ (List.mem_singleton_self e))
    have hfree : quarantinePath root e ∉ s.paths := by
      refine quarantine_free hop (stagedTree_of_stageEntries hop hbase done hinit hs) he ?_
      intro e' he'
      exact ⟨hinit e' he', hlast _ (List.mem_map_of_mem he') _ (List.mem_singleton_self _)⟩
    rw [List.reverse_append, List.reverse_singleton, List.singleton_append, List.foldl_cons]
    simp only [restoreEntry_stageEntry ht' hfree, Bool.and_true]
    exact ih hs hinitApart hinit

end Staged

/-! ## The tree the staging begins with -/

/-- Nothing of the operation is there yet: its id is new. -/
def Fresh (root : AbsPath) (op : Name) (t : Tree) : Prop :=
  ∀ p ∈ t.paths, ¬ operationRoot root op <+: p

/-- What the staging begins with: the directories of the operation, and its journal. -/
structure Based (root : AbsPath) (j : DeletionJournal) (before base : Tree) : Prop where
  kept : ∀ e ∈ before.nodes, e ∈ base.nodes
  journal : (journalPath root j.operationId, .file (journalText j)) ∈ base.nodes
  added : ∀ e ∈ base.nodes, e ∈ before.nodes ∨
    (e.2 = .dir ∧ e.1 <+: quarantineRoot root j.operationId) ∨
    e = (journalPath root j.operationId, .file (journalText j))

section Base

variable {root : AbsPath} {before base made : Tree} {j : DeletionJournal}

theorem based_of_create (hmade : Made before (quarantineRoot root j.operationId) made)
    (h : made.create (journalPath root j.operationId) (.file (journalText j)) = some base) :
    Based root j before base where
  kept e he := (mem_create h).mpr (.inl (hmade.kept e he))
  journal := (mem_create h).mpr (.inr rfl)
  added e he := by
    rcases (mem_create h).mp he with he | rfl
    · rcases hmade.added e he with he | he
      · exact .inl he
      · exact .inr (.inl he)
    · exact .inr (.inr rfl)

theorem based_of_write (h : writeDurableJournal root before j = some base) :
    Based root j before base := by
  rw [writeDurableJournal, Option.bind_eq_some_iff] at h
  obtain ⟨made, hmade, h⟩ := h
  exact based_of_create (mkdirs_made hmade) h

theorem Based.quarantine (hfresh : Fresh root j.operationId before)
    (h : Based root j before base) : ∀ p ∈ base.paths,
      quarantineRoot root j.operationId <+: p → p = quarantineRoot root j.operationId := by
  intro p hp hunder
  obtain ⟨e, he, rfl⟩ := List.mem_map.mp hp
  rcases h.added e he with he | ⟨-, hpre⟩ | rfl
  · exact absurd (operationRoot_prefix_quarantine.trans hunder)
      (hfresh _ (List.mem_map_of_mem (f := Prod.fst) he))
  · exact hpre.eq_of_length (Nat.le_antisymm hpre.length_le hunder.length_le)
  · exact absurd hunder journalPath_not_quarantine

theorem Based.files (h : Based root j before base) (p : Path) (content : List Char)
    (hout : ¬ operationRoot root j.operationId <+: p) :
    (p, .file content) ∈ base.nodes ↔ (p, .file content) ∈ before.nodes := by
  constructor
  · intro hp
    rcases h.added _ hp with hp | ⟨hdir, -⟩ | heq
    · exact hp
    · cases hdir
    · obtain ⟨rfl, -⟩ := Prod.mk.inj heq
      exact absurd (List.prefix_append _ _) hout
  · exact h.kept _

end Base

end Drac.Recordings
