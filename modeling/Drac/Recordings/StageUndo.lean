import Drac.Recordings.StageDeletion
import Drac.Recordings.FileDeletionRuns

/-
  The undo of a staged deletion.

  Whichever calls fail, the staging moves some first entries of the journal and no others
  (`stageAll_staged`). What it moved can be moved back in the opposite order, also beside
  whatever was created elsewhere since (`restorable_staged`), and where nothing stood in the
  way of that, all of it is back (`restoreAll_restorable`).
-/

namespace Drac.Recordings

open PosixPath Files FileTree FileIO

/-! ## The guarded tree -/

/-- Below the root, and no part of the journal. -/
def Guarded (root : AbsPath) (p : Path) : Prop :=
  root.names <+: p ∧ p ≠ root.names ∧ ¬ operationsRoot root <+: p

instance decidableGuarded (root : AbsPath) (p : Path) : Decidable (Guarded root p) :=
  inferInstanceAs (Decidable (_ ∧ _ ∧ _))

/-- What is guarded is the same in both trees. -/
def SameGuarded (root : AbsPath) (t u : Tree) : Prop :=
  ∀ p n, Guarded root p → ((p, n) ∈ u.nodes ↔ (p, n) ∈ t.nodes)

variable {p : Path}

section Guarded

variable {root : AbsPath} {s t u : Tree} {op : Name}

theorem SameGuarded.refl (t : Tree) : SameGuarded root t t := fun _ _ _ => Iff.rfl

theorem SameGuarded.trans (h : SameGuarded root s t) (k : SameGuarded root t u) :
    SameGuarded root s u := fun p n hp => (k p n hp).trans (h p n hp)

theorem Guarded.outside (hp : Guarded root p) (rest : Path) :
    ¬ operationsRoot root ++ rest <+: p :=
  fun h => hp.2.2 ((List.prefix_append _ rest).trans h)

theorem Guarded.not_quarantine (hp : Guarded root p) :
    ¬ p <+: quarantineRoot root op := by
  intro hpre
  obtain ⟨rest, rfl⟩ := hp.1
  have hne : rest ≠ [] := by
    rintro rfl
    exact hp.2.1 (List.append_nil _)
  rw [quarantineRoot, operationRoot_eq, List.append_assoc, List.prefix_append_right_inj] at hpre
  cases rest with
  | nil => exact hne rfl
  | cons s rest =>
    rw [List.cons_append, List.cons_prefix_cons] at hpre
    refine hp.2.2 ?_
    rw [operationsRoot, hpre.1]
    exact ⟨rest, by simp⟩

theorem sameGuarded_made (hp : ∀ q, q <+: p → ¬ Guarded root q) (h : Made t p u) :
    SameGuarded root t u := by
  intro q n hq
  refine ⟨fun hu => ?_, h.kept _⟩
  rcases h.added _ hu with ht | ⟨-, hpre⟩
  · exact ht
  · exact absurd hq (hp q hpre)

theorem mkdirs_keeps (hp : ∀ q, q <+: p → ¬ Guarded root q) :
    Keeps (SameGuarded root) (mkdirs p : Calls Unit) := by
  refine call_keeps SameGuarded.refl ?_ (fun fault t => sameGuarded_made hp (mkdirsTo_made t p _))
  intro t b u h
  split at h
  · next hmk =>
    cases h
    exact sameGuarded_made hp (mkdirs_made hmk)
  · cases h

theorem writeNew_keeps (hp : ¬ Guarded root p) (content : List Char) :
    Keeps (SameGuarded root) (writeNew p content : Calls Unit) := by
  have hne : ∀ q, Guarded root q → q ≠ p := by
    rintro q hq rfl
    exact hp hq
  refine call_keeps SameGuarded.refl ?_ (fun fault t q n hq => mem_writeTo (hne q hq))
  intro t b u h q n hq
  split at h
  · next hcreate =>
    cases h
    refine (mem_create hcreate).trans ⟨fun hmem => hmem.resolve_right ?_, .inl⟩
    intro heq
    exact hne q hq (Prod.mk.inj heq).1
  · cases h

theorem flushAll_keeps (ps : List Path) : Keeps Eq (flushAll ps) := by
  induction ps with
  | nil => exact .pure (fun _ => rfl) _
  | cons p ps ih => exact .bind (fun _ _ _ => Eq.trans) (flush_keeps p) (fun _ => ih)

theorem keeps_of_eq {β : Type} {x : Calls β} (h : Keeps Eq x) : Keeps (SameGuarded root) x := by
  intro faults d
  rw [← h faults d]
  exact SameGuarded.refl _

theorem writeJournalCalls_keeps (root : AbsPath) (j : DeletionJournal) :
    Keeps (SameGuarded root) (writeJournalCalls root j) := by
  have htrans : ∀ s t u : Tree, SameGuarded root s t → SameGuarded root t u → SameGuarded root s u :=
    fun _ _ _ => SameGuarded.trans
  have hjournal : ¬ Guarded root (journalPath root j.operationId) := by
    intro h
    refine h.outside [j.operationId, journalFile] ?_
    rw [journalPath, operationRoot, List.append_assoc]
    exact List.prefix_refl _
  refine .bind htrans (mkdirs_keeps (fun q hpre hq => hq.not_quarantine hpre)) (fun _ => ?_)
  refine .bind htrans (writeNew_keeps hjournal _) (fun _ => ?_)
  refine .bind htrans (keeps_of_eq (flush_keeps _)) (fun _ => ?_)
  exact .bind htrans (keeps_of_eq (flush_keeps _)) (fun _ => keeps_of_eq (flush_keeps _))

end Guarded

/-! ## What the staging moves -/

variable {e : JournalEntry}

section Staged

variable {root : AbsPath} {op : Name} {faults : Faults Name} {d d' : Disk Name Char}

theorem stageOne_tree {st : Staging} {r : Except FileError Staging}
    (h : stageOne root st e faults d = (r, d')) :
    ((∃ st', r = .ok st') ∧ stageEntry root d.tree e = some d'.tree) ∨
      ((∃ error, r = .error error) ∧ d'.tree = d.tree) := by
  cases r with
  | ok st' =>
    refine .inl ⟨⟨st', rfl⟩, ?_⟩
    obtain ⟨there, d₁, hthere, h⟩ := ok_bind.mp h
    obtain ⟨rfl, htree⟩ := pathExists_ok hthere
    unfold stageEntry
    split at h
    · next hhas =>
      obtain ⟨_, d₂, hren, h⟩ := ok_bind.mp h
      obtain ⟨-, rfl⟩ := ok_pure.mp h
      rw [if_pos hhas, ← htree]
      exact rename_ok hren
    · next hhas =>
      obtain ⟨-, rfl⟩ := ok_pure.mp h
      rw [if_neg hhas, htree]
  | error error =>
    refine .inr ⟨⟨error, rfl⟩, ?_⟩
    rcases error_bind.mp h with hfirst | ⟨there, d₁, hthere, h⟩
    · have hkeep := pathExists_keeps (originalPath root e) faults d
      rw [hfirst] at hkeep
      exact hkeep.symm
    · obtain ⟨-, htree⟩ := pathExists_ok hthere
      split at h
      · rcases error_bind.mp h with hren | ⟨_, d₂, -, h⟩
        · exact (rename_error hren).trans htree
        · cases h
      · cases h

theorem stageAll_staged (es : List JournalEntry) : ∀ {st : Staging} {r : Except FileError Staging}
    {d : Disk Name Char}, stageAll root es st faults d = (r, d') →
      ∃ done rest, es = done ++ rest ∧ stageEntries root d.tree done = some d'.tree := by
  induction es with
  | nil =>
    intro st r d h
    cases h
    exact ⟨[], [], rfl, rfl⟩
  | cons e es ih =>
    intro st r d h
    have hstop : ∀ {error : FileError} {d₁ : Disk Name Char},
        stageOne root st e faults d = (.error error, d₁) → d₁.tree = d.tree := by
      intro error d₁ hone
      rcases stageOne_tree hone with ⟨⟨st', hst⟩, -⟩ | ⟨-, htree⟩
      · cases hst
      · exact htree
    have hnext : ∀ {st' : Staging} {d₁ : Disk Name Char},
        stageOne root st e faults d = (.ok st', d₁) →
          stageAll root es st' faults d₁ = (r, d') →
            ∃ done rest, e :: es = done ++ rest ∧ stageEntries root d.tree done = some d'.tree := by
      intro st' d₁ hone hall
      rcases stageOne_tree hone with ⟨-, hentry⟩ | ⟨⟨error, herror⟩, -⟩
      · obtain ⟨done, rest, rfl, hstaged⟩ := ih hall
        refine ⟨e :: done, rest, rfl, ?_⟩
        rw [stageEntries, List.foldlM_cons, hentry]
        exact hstaged
      · cases herror
    cases r with
    | ok st' =>
      obtain ⟨st₁, d₁, hone, hall⟩ := ok_bind.mp h
      exact hnext hone hall
    | error error =>
      rcases error_bind.mp h with hone | ⟨st₁, d₁, hone, hall⟩
      · exact ⟨[], e :: es, rfl, by rw [hstop hone]; rfl⟩
      · exact hnext hone hall

theorem stageFiles_staged {j : DeletionJournal} {r : Except FileError Staging}
    (h : stageFiles root j faults d = (r, d')) :
    ∃ done rest, j.entries = done ++ rest ∧ stageEntries root d.tree done = some d'.tree := by
  have hflushes : ∀ (st : Staging) (d₁ : Disk Name Char),
      ((flushAll st.changedDirectories >>= fun _ => pure st) faults d₁).2.tree = d₁.tree := by
    intro st d₁
    have hkeeps : Keeps Eq (flushAll st.changedDirectories >>= fun _ => (pure st : Calls Staging)) :=
      .bind (fun _ _ _ => Eq.trans) (flushAll_keeps _) (fun _ => .pure (fun _ => rfl) st)
    exact (hkeeps faults d₁).symm
  unfold stageFiles at h
  cases r with
  | ok st =>
    obtain ⟨st₁, d₁, hall, h⟩ := ok_bind.mp h
    have htree := hflushes st₁ d₁
    rw [h] at htree
    rw [htree]
    exact stageAll_staged j.entries hall
  | error error =>
    rcases error_bind.mp h with hall | ⟨st₁, d₁, hall, h⟩
    · exact stageAll_staged j.entries hall
    · have htree := hflushes st₁ d₁
      rw [h] at htree
      rw [htree]
      exact stageAll_staged j.entries hall

end Staged

/-! ## Moving back -/

/-- The entries can be moved back in this order, each to a free place, and that gives the
second tree. -/
inductive Restorable (root : AbsPath) : Tree → List JournalEntry → Tree → Prop where
  | nil (t : Tree) : Restorable root t [] t
  | missing {t u : Tree} {e : JournalEntry} {es : List JournalEntry}
      (hmissing : quarantinePath root e ∉ t.paths) (h : Restorable root t es u) :
      Restorable root t (e :: es) u
  | back {t s u : Tree} {e : JournalEntry} {es : List JournalEntry}
      (hback : t.rename (quarantinePath root e) (originalPath root e) = some s)
      (h : Restorable root s es u) : Restorable root t (e :: es) u

/-- The second tree is the first with more in it. -/
def Beside (extra : Path → Node (List Char) → Prop) (t u : Tree) : Prop :=
  ∀ p n, (p, n) ∈ u.nodes ↔ (p, n) ∈ t.nodes ∨ extra p n

/-- What was created elsewhere: not in the operation, and at no original path. -/
def Elsewhere (root : AbsPath) (op : Name) (es : List JournalEntry)
    (extra : Path → Node (List Char) → Prop) : Prop :=
  ∀ p n, extra p n → ¬ operationRoot root op <+: p ∧ ∀ e ∈ es, ¬ originalPath root e <+: p

variable {i : Nat} {q : Path} {done rest : List JournalEntry}

section Restorable

variable {root : AbsPath} {op : Name} {extra : Path → Node (List Char) → Prop}
  {es : List JournalEntry} {t t' u : Tree}

theorem restorable_append {l : List JournalEntry} (h : ∀ e ∈ l, quarantinePath root e ∉ t.paths)
    (hes : Restorable root t es u) : Restorable root t (l ++ es) u := by
  induction l with
  | nil => exact hes
  | cons e l ih =>
    exact .missing (h e List.mem_cons_self) (ih (fun e' he' => h e' (List.mem_cons_of_mem e he')))

theorem Beside.mem_paths (h : Beside extra t t') :
    p ∈ t'.paths ↔ p ∈ t.paths ∨ ∃ n, extra p n := by
  constructor
  · intro hp
    obtain ⟨⟨q, n⟩, hmem, rfl⟩ := List.mem_map.mp hp
    rcases (h q n).mp hmem with ht | hx
    · exact .inl (List.mem_map_of_mem (f := Prod.fst) ht)
    · exact .inr ⟨n, hx⟩
  · rintro (hp | ⟨n, hx⟩)
    · obtain ⟨⟨q, n⟩, hmem, rfl⟩ := List.mem_map.mp hp
      exact List.mem_map_of_mem (f := Prod.fst) ((h q n).mpr (.inl hmem))
    · exact List.mem_map_of_mem (f := Prod.fst) ((h p n).mpr (.inr hx))

theorem Beside.rename (hop : IsName op)
    (he : OwnEntry op e i q) (hin : e ∈ es) (hx : Elsewhere root op es extra) (h : Beside extra t t')
    (hback : t.rename (quarantinePath root e) (originalPath root e) = some u) :
    ∃ u', t'.rename (quarantinePath root e) (originalPath root e) = some u' ∧ Beside extra u u' := by
  obtain ⟨⟨hthere, hfree, hbelow, hdir⟩, hmem⟩ := rename_some hback
  have hquar : ∀ rest n, ¬ extra (quarantinePath root e ++ rest) n := by
    intro rest n hextra
    exact (hx _ n hextra).1 (operationRoot_prefix_quarantine.trans (quarantine_under root hop he rest))
  have hren : t'.Renamable (quarantinePath root e) (originalPath root e) := by
    refine ⟨h.mem_paths.mpr (.inl hthere), ?_, hbelow, ?_⟩
    · intro hin'
      rcases h.mem_paths.mp hin' with hold | ⟨n, hextra⟩
      · exact hfree hold
      · exact (hx _ n hextra).2 e hin (List.prefix_refl _)
    · exact isDir_iff.mpr ((h _ _).mpr (.inl (isDir_iff.mp hdir)))
  refine ⟨_, dif_pos hren, ?_⟩
  intro p n
  rw [mem_move hren, hmem p n]
  constructor
  · rintro (⟨rest, rfl, hnode⟩ | ⟨hout, hnode⟩)
    · exact .inl (.inl ⟨rest, rfl, ((h _ n).mp hnode).resolve_right (hquar rest n)⟩)
    · rcases (h p n).mp hnode with hold | hextra
      · exact .inl (.inr ⟨hout, hold⟩)
      · exact .inr hextra
  · rintro ((⟨rest, rfl, hnode⟩ | ⟨hout, hnode⟩) | hextra)
    · exact .inl ⟨rest, rfl, (h _ n).mpr (.inl hnode)⟩
    · exact .inr ⟨hout, (h p n).mpr (.inl hnode)⟩
    · refine .inr ⟨?_, (h p n).mpr (.inr hextra)⟩
      rintro ⟨rest, rfl⟩
      exact hquar rest n hextra

theorem Beside.free (hop : IsName op)
    (he : OwnEntry op e i q) (hx : Elsewhere root op es extra) (h : Beside extra t t')
    (hfree : quarantinePath root e ∉ t.paths) : quarantinePath root e ∉ t'.paths := by
  intro hin
  rcases h.mem_paths.mp hin with hold | ⟨n, hextra⟩
  · exact hfree hold
  · have hunder := quarantine_under root hop he []
    rw [List.append_nil] at hunder
    exact (hx _ n hextra).1 (operationRoot_prefix_quarantine.trans hunder)

section Back

variable {base : Tree} (hop : IsName op)
  (hbase : ∀ p ∈ base.paths, quarantineRoot root op <+: p → p = quarantineRoot root op)
include hop hbase

theorem restorable_done (hx : Elsewhere root op es extra)
    (hown : OwnEntries root op done) (hin : ∀ e ∈ done, e ∈ es)
    (hstaged : stageEntries root base done = some t) (h : Beside extra t t') :
    ∃ u', Restorable root t' done.reverse u' ∧ Beside extra base u' := by
  induction done using List.reverseRecOn generalizing t t' with
  | nil =>
    cases hstaged
    exact ⟨t', .nil t', h⟩
  | append_singleton done e ih =>
    rw [stageEntries, List.foldlM_append] at hstaged
    obtain ⟨s, hs, hlast⟩ := Option.bind_eq_some_iff.mp hstaged
    rw [List.foldlM_cons, Option.bind_eq_bind, Option.bind_eq_some_iff] at hlast
    obtain ⟨t₁, hentry, hlast⟩ := hlast
    cases hlast
    have hinit : OwnEntries root op done := by
      have hapart := hown.apart
      rw [List.map_append, List.nodup_append] at hapart
      exact ⟨fun e' he' => hown.own e' (List.mem_append_left _ he'), hapart.1⟩
    have hback := fun {s' : Tree} (hss : Beside extra s s') =>
      ih hinit (fun e' he' => hin e' (List.mem_append_left _ he')) hs hss
    have hlastmem : e ∈ done ++ [e] := List.mem_append_right _ (List.mem_singleton_self e)
    obtain ⟨i, q, he⟩ := hown.own e hlastmem
    rw [List.reverse_append, List.reverse_singleton, List.singleton_append]
    unfold stageEntry at hentry
    split at hentry
    · -- moved last, so moved back first
      obtain ⟨s', hs', hss⟩ := Beside.rename hop he (hin e hlastmem) hx h (rename_back hentry)
      obtain ⟨u', hu', hsame⟩ := hback hss
      exact ⟨u', .back hs' hu', hsame⟩
    · cases hentry
      have hfree : quarantinePath root e ∉ t.paths := by
        refine quarantine_free hop (stagedTree_of_stageEntries hop hbase done hinit.own hs) he ?_
        intro e' he'
        have hapart := hown.apart
        rw [List.map_append, List.nodup_append] at hapart
        exact ⟨hinit.own e' he', hapart.2.2 _ (List.mem_map_of_mem he') _
          (List.mem_singleton_self _)⟩
      obtain ⟨u', hu', hsame⟩ := hback h
      exact ⟨u', .missing (h.free hop he hx hfree) hu', hsame⟩

/-- **What was staged can be moved back**, last first, to the tree the staging began with. -/
theorem restorable_staged (hown : OwnEntries root op (done ++ rest))
    (hx : Elsewhere root op (done ++ rest) extra) (hstaged : stageEntries root base done = some t)
    (h : Beside extra t t') :
    ∃ u', Restorable root t' (done ++ rest).reverse u' ∧ Beside extra base u' := by
  have hapart := hown.apart
  rw [List.map_append, List.nodup_append] at hapart
  obtain ⟨hdoneApart, -, hacross⟩ := hapart
  have hdone : OwnEntries root op done :=
    ⟨fun e he => hown.own e (List.mem_append_left rest he), hdoneApart⟩
  have hrest : ∀ e ∈ rest.reverse, quarantinePath root e ∉ t'.paths := by
    intro e he
    rw [List.mem_reverse] at he
    obtain ⟨i, q, hq⟩ := hown.own e (List.mem_append_right done he)
    refine h.free hop hq hx (quarantine_free hop
      (stagedTree_of_stageEntries hop hbase done hdone.own hstaged) hq ?_)
    intro e' he'
    exact ⟨hdone.own e' he', hacross _ (List.mem_map_of_mem he') _ (List.mem_map_of_mem he)⟩
  obtain ⟨u', hu', hsame⟩ := restorable_done hop hbase hx hdone
    (fun e he => List.mem_append_left rest he) hstaged h
  rw [List.reverse_append]
  exact ⟨u', restorable_append hrest hu', hsame⟩

end Back

end Restorable

/-! ## What the undo moves back -/

section Restored

variable {root : AbsPath} {op : Name} {faults : Faults Name} {d d' : Disk Name Char}
  {es : List JournalEntry} {t u : Tree}

theorem restoreOne_tree {st st' : Restoring}
    (h : restoreOne root st e faults d = (.ok st', d')) :
    st.errors <+: st'.errors ∧
      (st'.errors = st.errors → restoreEntry root d.tree e = (d'.tree, true)) := by
  obtain ⟨there, d₁, hthere, h⟩ := ok_bind.mp h
  obtain ⟨rfl, htree⟩ := pathExists_ok hthere
  split at h
  · next hquar =>
    obtain ⟨taken, d₂, htaken, h⟩ := ok_bind.mp h
    obtain ⟨rfl, htree₂⟩ := pathExists_ok htaken
    split at h
    · obtain ⟨rfl, -⟩ := ok_pure.mp h
      exact ⟨List.prefix_append _ _, fun heq => by simp at heq⟩
    · next hfree =>
      obtain ⟨back, d₃, hback, h⟩ := ok_bind.mp h
      have hmoves := attempt_ok.mp hback
      cases back with
      | ok =>
        obtain ⟨rfl, rfl⟩ := ok_pure.mp h
        refine ⟨List.prefix_refl _, fun _ => ?_⟩
        obtain ⟨_, d₄, hmk, hren⟩ := ok_bind.mp hmoves
        have hmade := mkdirs_ok hmk
        have hmoved := rename_ok hren
        rw [htree₂, htree] at hmade
        rw [htree] at hfree
        rw [restoreEntry, if_neg (by simp [hquar]), if_neg hfree]
        simp only [hmade, hmoved]
      | error error =>
        obtain ⟨rfl, -⟩ := ok_pure.mp h
        exact ⟨List.prefix_append _ _, fun heq => by simp at heq⟩
  · next hquar =>
    obtain ⟨rfl, rfl⟩ := ok_pure.mp h
    refine ⟨List.prefix_refl _, fun _ => ?_⟩
    rw [restoreEntry, if_pos (by simpa using hquar), htree]

theorem restoreAll_grows (es : List JournalEntry) : ∀ {st st' : Restoring} {d : Disk Name Char},
    restoreAll root es st faults d = (.ok st', d') → st.errors <+: st'.errors := by
  induction es with
  | nil =>
    intro st st' d h
    obtain ⟨rfl, -⟩ := ok_pure.mp h
    exact List.prefix_refl _
  | cons e es ih =>
    intro st st' d h
    obtain ⟨st₁, d₁, hone, hall⟩ := ok_bind.mp h
    exact (restoreOne_tree hone).1.trans (ih hall)

/-- **Where the undo reports no problem, all is back.** -/
theorem restoreAll_restorable (h : Restorable root t es u) : ∀ {st st' : Restoring}
    {d : Disk Name Char}, d.tree = t → restoreAll root es st faults d = (.ok st', d') →
      st'.errors = [] → d'.tree = u := by
  -- a turn that reports nothing does as `restoreEntry` does
  have hturn : ∀ {e : JournalEntry} {es : List JournalEntry} {s : Tree} {st st₁ st' : Restoring}
      {d d₁ : Disk Name Char}, restoreEntry root d.tree e = (s, true) →
        restoreOne root st e faults d = (.ok st₁, d₁) →
        restoreAll root es st₁ faults d₁ = (.ok st', d') → st'.errors = [] → d₁.tree = s := by
    intro e es s st st₁ st' d d₁ hentry hone hall hnone
    obtain ⟨hgrows, hsame⟩ := restoreOne_tree hone
    have hnone₁ : st₁.errors = [] := List.prefix_nil.mp (hnone ▸ restoreAll_grows es hall)
    have hnone₀ : st.errors = [] := List.prefix_nil.mp (hnone₁ ▸ hgrows)
    have htree := hsame (hnone₁.trans hnone₀.symm)
    rw [hentry] at htree
    exact (Prod.mk.inj htree).1.symm
  induction h with
  | nil t =>
    rintro st st' d rfl hall -
    obtain ⟨-, rfl⟩ := ok_pure.mp hall
    rfl
  | missing hmissing _ ih =>
    rintro st st' d rfl hall hnone
    obtain ⟨st₁, d₁, hone, hall⟩ := ok_bind.mp hall
    exact ih (hturn (restoreEntry_missing hmissing) hone hall hnone) hall hnone
  | back hback _ ih =>
    rintro st st' d rfl hall hnone
    obtain ⟨st₁, d₁, hone, hall⟩ := ok_bind.mp hall
    exact ih (hturn (restoreEntry_back hback) hone hall hnone) hall hnone

theorem restoreJournal_restorable {j : DeletionJournal} (h : Restorable root t j.entries.reverse u)
    (ht : d.tree = t) (hok : restoreJournal root j faults d = (.ok [], d')) :
    d'.tree = u.prune (operationRoot root j.operationId) := by
  obtain ⟨st, d₁, hall, hok⟩ := ok_bind.mp hok
  split at hok
  · next hnone =>
    have hback := restoreAll_restorable h ht hall hnone
    obtain ⟨_, d₂, hflush, hok⟩ := ok_bind.mp hok
    obtain ⟨_, d₃, hrm, hok⟩ := ok_bind.mp hok
    obtain ⟨_, d₄, hlast, hok⟩ := ok_bind.mp hok
    obtain ⟨-, rfl⟩ := ok_pure.mp hok
    have hkeep := flushAll_keeps st.changedDirectories faults d₁
    rw [hflush] at hkeep
    rw [flush_ok hlast, rm_ok hrm, ← hkeep, hback]
  · next hsome =>
    obtain ⟨hnone, -⟩ := ok_pure.mp hok
    exact absurd hnone hsome

end Restored

/-! ## Where nothing fails -/

/-- A directory that moving entries back leaves where it is. -/
def Standing (root : AbsPath) (op : Name) (t : Tree) (p : Path) : Prop :=
  (p, .dir) ∈ t.nodes ∧ (quarantineRoot root op <+: p → p = quarantineRoot root op)

section NoFault

variable {root : AbsPath} {op : Name} {d : Disk Name Char} {t u : Tree}

theorem mem_noteDirectory {changed : List Path} :
    q ∈ noteDirectory changed p ↔ q ∈ changed ∨ q = p := by
  unfold noteDirectory
  split
  · next hin =>
    constructor
    · exact .inl
    · rintro (h | rfl)
      · exact h
      · exact hin
  · rw [List.mem_append, List.mem_singleton]

theorem flushAll_noFault (ps : List Path) : ∀ {d : Disk Name Char}, (∀ p ∈ ps, p ∈ d.tree.paths) →
    ∃ calls, flushAll ps noFault d = (.ok (), ⟨d.tree, calls⟩) := by
  induction ps with
  | nil =>
    intro d _
    exact ⟨d.calls, rfl⟩
  | cons p ps ih =>
    intro d h
    have hfirst := flush_noFault (h p List.mem_cons_self)
    obtain ⟨calls, hrest⟩ := ih (d := ⟨d.tree, d.calls + 1⟩)
      (fun q hq => h q (List.mem_cons_of_mem p hq))
    exact ⟨calls, ok_bind.mpr ⟨_, _, hfirst, hrest⟩⟩

theorem original_outside (he : OwnEntry op e i q) :
    ¬ operationRoot root op <+: originalPath root e := by
  intro hpre
  rw [originalPath_own he, operationRoot_eq, List.prefix_append_right_inj] at hpre
  cases q with
  | nil => exact he.target.ne_nil rfl
  | cons s q =>
    rw [List.cons_prefix_cons] at hpre
    exact he.target.head (by rw [← hpre.1]; rfl)

theorem Standing.rename (hop : IsName op)
    (he : OwnEntry op e i q) (h : Standing root op t p)
    (hback : t.rename (quarantinePath root e) (originalPath root e) = some u) :
    Standing root op u p := by
  refine ⟨((rename_some hback).2 p .dir).mpr (.inr ⟨?_, h.1⟩), h.2⟩
  intro hpre
  rw [quarantinePath_own root hop he] at hpre
  have heq := h.2 ((List.prefix_append _ _).trans hpre)
  rw [heq] at hpre
  have hlen := hpre.length_le
  simp at hlen

theorem restoreOne_noFault_missing (st : Restoring)
    (hop : IsName op) (he : OwnEntry op e i q) (hquar : Standing root op d.tree (quarantineRoot root op))
    (hmissing : quarantinePath root e ∉ d.tree.paths) :
    ∃ calls, restoreOne root st e noFault d = (.ok st, ⟨d.tree, calls⟩) := by
  have hdir : ((quarantinePath root e).dropLast, .dir) ∈ d.tree.nodes := by
    rw [quarantinePath_own root hop he, List.dropLast_concat]
    exact hquar.1
  exact ⟨_, ok_bind.mpr ⟨false, _, pathExists_noFault_missing hmissing hdir, rfl⟩⟩

theorem restoreOne_noFault_back (st : Restoring)
    (hback : d.tree.rename (quarantinePath root e) (originalPath root e) = some u) :
    ∃ st' calls, restoreOne root st e noFault d = (.ok st', ⟨u, calls⟩) ∧ st'.errors = st.errors ∧
      ∀ p ∈ st'.changedDirectories, p ∈ st.changedDirectories ∨
        p = (originalPath root e).dropLast ∨ p = (quarantinePath root e).dropLast := by
  obtain ⟨⟨hthere, hfree, -, hdir⟩, -⟩ := rename_some hback
  have hmoves : (mkdirs (originalPath root e).dropLast >>= fun _ =>
      rename (quarantinePath root e) (originalPath root e) : Calls Unit) noFault
        ⟨d.tree, d.calls + 1 + 1⟩ = (.ok (), ⟨u, d.calls + 1 + 1 + 1 + 1⟩) :=
    ok_bind.mpr ⟨_, _, mkdirs_noFault (mkdirs_self (isDir_iff.mp hdir)), rename_noFault hback⟩
  refine ⟨_, _, ok_bind.mpr ⟨true, _, pathExists_noFault_there hthere, ok_bind.mpr ⟨false, _,
    pathExists_noFault_missing hfree (isDir_iff.mp hdir), ok_bind.mpr ⟨.ok (), _,
      attempt_ok.mpr hmoves, rfl⟩⟩⟩, rfl, ?_⟩
  intro p hp
  rcases mem_noteDirectory.mp hp with hp | rfl
  · rcases mem_noteDirectory.mp hp with hp | rfl
    · exact .inl hp
    · exact .inr (.inl rfl)
  · exact .inr (.inr rfl)

theorem restoreAll_noFault (hop : IsName op) {es : List JournalEntry} (h : Restorable root t es u) :
    (∀ e ∈ es, ∃ i q, OwnEntry op e i q) → ∀ (st : Restoring) (d : Disk Name Char), d.tree = t →
      Standing root op t (quarantineRoot root op) →
      (∀ p ∈ st.changedDirectories, Standing root op t p) →
        ∃ st' calls, restoreAll root es st noFault d = (.ok st', ⟨u, calls⟩) ∧
          st'.errors = st.errors ∧ Standing root op u (quarantineRoot root op) ∧
          ∀ p ∈ st'.changedDirectories, Standing root op u p := by
  induction h with
  | nil t =>
    rintro - st d rfl hquar hchanged
    exact ⟨st, d.calls, rfl, rfl, hquar, hchanged⟩
  | @missing t u e es hmissing _ ih =>
    rintro hown st d rfl hquar hchanged
    obtain ⟨i, q, he⟩ := hown e List.mem_cons_self
    obtain ⟨calls, hone⟩ := restoreOne_noFault_missing st hop he hquar hmissing
    obtain ⟨st', calls', hall, hrest⟩ := ih (fun e' he' => hown e' (List.mem_cons_of_mem e he'))
      st ⟨d.tree, calls⟩ rfl hquar hchanged
    exact ⟨st', calls', ok_bind.mpr ⟨_, _, hone, hall⟩, hrest⟩
  | @back t s u e es hback _ ih =>
    rintro hown st d rfl hquar hchanged
    obtain ⟨i, q, he⟩ := hown e List.mem_cons_self
    obtain ⟨st₁, calls, hone, herrors, hnoted⟩ := restoreOne_noFault_back st hback
    have hnext := fun {p : Path} (hp : Standing root op d.tree p) => hp.rename hop he hback
    have hparent : Standing root op d.tree (originalPath root e).dropLast := by
      obtain ⟨⟨-, -, -, hdir⟩, -⟩ := rename_some hback
      refine ⟨isDir_iff.mp hdir, fun hpre => ?_⟩
      exact absurd (operationRoot_prefix_quarantine.trans (hpre.trans (List.dropLast_prefix _)))
        (original_outside he)
    have hplace : (quarantinePath root e).dropLast = quarantineRoot root op := by
      rw [quarantinePath_own root hop he, List.dropLast_concat]
    obtain ⟨st', calls', hall, herrors', hrest⟩ := ih
      (fun e' he' => hown e' (List.mem_cons_of_mem e he')) st₁ ⟨s, calls⟩ rfl
      (hnext hquar) (by
        intro p hp
        rcases hnoted p hp with hp | rfl | rfl
        · exact hnext (hchanged p hp)
        · exact hnext hparent
        · exact hnext (hplace ▸ hquar))
    exact ⟨st', calls', ok_bind.mpr ⟨_, _, hone, hall⟩, herrors'.trans herrors, hrest⟩

theorem restoreJournal_noFault {j : DeletionJournal} (hop : IsName j.operationId)
    (hown : ∀ e ∈ j.entries, ∃ i q, OwnEntry j.operationId e i q)
    (h : Restorable root t j.entries.reverse u) (ht : d.tree = t)
    (hquar : (quarantineRoot root j.operationId, .dir) ∈ t.nodes) :
    ∃ d', restoreJournal root j noFault d = (.ok [], d') := by
  obtain ⟨st, calls, hall, hnone, hstand, hchanged⟩ := restoreAll_noFault hop h
    (fun e he => hown e (List.mem_reverse.mp he)) {} d ht ⟨hquar, fun _ => rfl⟩
    (fun p hp => by cases hp)
  obtain ⟨calls', hflush⟩ := flushAll_noFault (d := ⟨u, calls⟩) st.changedDirectories
    (fun p hp => List.mem_map_of_mem (f := Prod.fst) (hchanged p hp).1)
  have hops : operationsRoot root ∈ (u.prune (operationRoot root j.operationId)).paths := by
    have hdir : (operationsRoot root, .dir) ∈ u.nodes :=
      u.dir_of_prefix [j.operationId, quarantineDir] (List.cons_ne_nil _ _) (by
        have hmem : quarantineRoot root j.operationId ∈ u.paths :=
          List.mem_map_of_mem (f := Prod.fst) hstand.1
        rwa [quarantineRoot, operationRoot, List.append_assoc] at hmem)
    refine List.mem_map_of_mem (f := Prod.fst) (mem_prune.mpr ⟨hdir, fun hpre => ?_⟩)
    have hlen := hpre.length_le
    simp [operationRoot] at hlen
  refine ⟨⟨u.prune (operationRoot root j.operationId), calls' + 1 + 1⟩,
    ok_bind.mpr ⟨st, _, hall, ?_⟩⟩
  rw [if_pos hnone]
  exact ok_bind.mpr ⟨_, _, hflush, ok_bind.mpr ⟨_, _, rm_noFault, ok_bind.mpr ⟨_, _,
    flush_noFault hops, rfl⟩⟩⟩

end NoFault

/-! ## The undo of a stage -/

/-- Since the staging, things were created, but in no operation's place and at no original path. -/
structure CreatedElsewhere (root : AbsPath) (j : DeletionJournal) (staged later : Tree) : Prop where
  kept : ∀ e ∈ staged.nodes, e ∈ later.nodes
  outside : ∀ p ∈ later.paths, operationRoot root j.operationId <+: p → p ∈ staged.paths
  free : ∀ e ∈ j.entries, originalPath root e ∉ later.paths

/-- What was created since. -/
def createdSince (staged later : Tree) (p : Path) (n : Node (List Char)) : Prop :=
  (p, n) ∈ later.nodes ∧ (p, n) ∉ staged.nodes

theorem CreatedElsewhere.beside {root : AbsPath} {j : DeletionJournal} {staged later : Tree}
    (h : CreatedElsewhere root j staged later) : Beside (createdSince staged later) staged later := by
  intro p n
  by_cases hin : (p, n) ∈ staged.nodes
  · exact iff_of_true (h.kept _ hin) (.inl hin)
  · constructor
    · exact fun hlater => .inr ⟨hlater, hin⟩
    · exact fun hor => (hor.resolve_left hin).1

theorem CreatedElsewhere.elsewhere {root : AbsPath} {j : DeletionJournal} {staged later : Tree}
    (h : CreatedElsewhere root j staged later) :
    Elsewhere root j.operationId j.entries (createdSince staged later) := by
  rintro p n ⟨hlater, hnew⟩
  have hpath : p ∈ later.paths := List.mem_map_of_mem (f := Prod.fst) hlater
  refine ⟨fun hunder => ?_, fun e he hpre => h.free e he (later.mem_of_prefix hpre hpath)⟩
  obtain ⟨⟨q, m⟩, hmem, rfl⟩ := List.mem_map.mp (h.outside p hpath hunder)
  have hsame := later.node_unique hlater (h.kept _ hmem)
  exact hnew (hsame ▸ hmem)

section Undo

variable {root : AbsPath} {j : DeletionJournal} {rels : List (List Char)} {before base t t' : Tree}
  {extra : Path → Node (List Char) → Prop} (hw : Written j rels)
  (hfresh : Fresh root j.operationId before) (hbase : Based root j before base)
include hw

theorem stageEntries_inside (hin : ∀ e ∈ done, e ∈ j.entries)
    {n : Node (List Char)} (hp : operationRoot root j.operationId <+: p) :
    ∀ {s t : Tree}, stageEntries root s done = some t → (p, n) ∈ s.nodes → (p, n) ∈ t.nodes := by
  induction done with
  | nil =>
    intro s t h hs
    cases h
    exact hs
  | cons e done ih =>
    intro s t h hs
    rw [stageEntries, List.foldlM_cons, Option.bind_eq_bind, Option.bind_eq_some_iff] at h
    obtain ⟨s₁, hentry, hrest⟩ := h
    obtain ⟨i, q, he⟩ := hw.ownEntry (hin e List.mem_cons_self)
    refine ih (fun e' he' => hin e' (List.mem_cons_of_mem e he')) hrest ?_
    exact ((stageEntry_some hentry).1 p n).mpr (.inr ⟨original_apart he hp, hs⟩)

include hfresh hbase

theorem undo_restorable (hsplit : j.entries = done ++ rest)
    (hstaged : stageEntries root base done = some t)
    (hx : Elsewhere root j.operationId j.entries extra) (h : Beside extra t t') :
    ∃ u', Restorable root t' j.entries.reverse u' ∧ Beside extra base u' := by
  have hown := ownEntries_written root hw
  rw [hsplit] at hown hx ⊢
  exact restorable_staged hw.operation_isName (hbase.quarantine hfresh) hown hx hstaged h

/-- **An undo that reports nothing** leaves what the staging began with, and what was created
since. -/
theorem undo_guarded (hsplit : j.entries = done ++ rest)
    (hstaged : stageEntries root base done = some t)
    (hx : Elsewhere root j.operationId j.entries extra) (h : Beside extra t t')
    {faults : Faults Name} {final : Tree} (hok : runRestore root j faults t' = (.ok (), final)) :
    (∀ p n, Guarded root p → ((p, n) ∈ final.nodes ↔ (p, n) ∈ base.nodes ∨ extra p n)) ∧
      ∀ p ∈ final.paths, ¬ operationRoot root j.operationId <+: p := by
  obtain ⟨u', hu', hsame⟩ := undo_restorable hw hfresh hbase hsplit hstaged hx h
  have hfinal : final = u'.prune (operationRoot root j.operationId) := by
    unfold runRestore at hok
    obtain ⟨hundone, rfl⟩ := Prod.mk.inj hok
    have hnone : (restoreJournal root j faults ⟨t', 0⟩).1 = .ok [] := by
      cases hres : (restoreJournal root j faults ⟨t', 0⟩).1 with
      | error e =>
        rw [hres] at hundone
        cases hundone
      | ok problems =>
        cases problems with
        | nil => rfl
        | cons p ps =>
          rw [hres] at hundone
          cases hundone
    exact restoreJournal_restorable (d := ⟨t', 0⟩) hu' rfl (Prod.ext hnone rfl)
  rw [hfinal]
  refine ⟨fun p n hp => ?_, fun p hp hunder => ?_⟩
  · rw [mem_prune, hsame p n]
    exact and_iff_left (hp.outside [j.operationId])
  · obtain ⟨⟨q, n⟩, hmem, rfl⟩ := List.mem_map.mp hp
    exact (mem_prune.mp hmem).2 hunder

theorem undo_noFault (hsplit : j.entries = done ++ rest)
    (hstaged : stageEntries root base done = some t)
    (hquar : (quarantineRoot root j.operationId, .dir) ∈ base.nodes)
    (hx : Elsewhere root j.operationId j.entries extra) (h : Beside extra t t') :
    (runRestore root j noFault t').1 = .ok () := by
  obtain ⟨u', hu', -⟩ := undo_restorable hw hfresh hbase hsplit hstaged hx h
  have hthere : (quarantineRoot root j.operationId, .dir) ∈ t'.nodes := by
    refine (h _ _).mpr (.inl (stageEntries_inside hw ?_ operationRoot_prefix_quarantine hstaged hquar))
    exact fun e he => hsplit ▸ List.mem_append_left rest he
  obtain ⟨d', hok⟩ := restoreJournal_noFault (d := ⟨t', 0⟩) hw.operation_isName
    (fun e he => hw.ownEntry he) hu' rfl hthere
  rw [runRestore, hok]
  rfl

end Undo

/-! ## The stage -/

section Stage

variable {root : AbsPath} {candidates : List (List Char)} {guards : List DeletionGuard}
  {operationId : Uuid} {createdAt : IsoInstant} {staging undo : Faults Name} {before t : Tree}

/-- How far a stage came: it threw before any file was moved, or had moved some first entries
of its journal when it ended. -/
inductive StageEnd (root : AbsPath) (candidates : List (List Char)) (guards : List DeletionGuard)
    (operationId : Uuid) (createdAt : IsoInstant) (undo : Faults Name) (before : Tree) :
    Except StageFailure StagedFileDeletion × Tree → Prop where
  | early (failure : StageFailure) (t : Tree) (hsame : SameGuarded root before t)
      (hboth : ∀ e r, failure ≠ .both e r) : StageEnd root candidates guards operationId createdAt
        undo before (.error failure, t)
  | moved (j : DeletionJournal) (rels : List (List Char)) (middle base t : Tree)
      (done rest : List JournalEntry) (hop : j.operationId = operationId.text) (hw : Written j rels)
      (hsame : SameGuarded root before middle) (hfresh : Fresh root j.operationId middle)
      (hbase : Based root j middle base)
      (hquar : (quarantineRoot root j.operationId, .dir) ∈ base.nodes)
      (hsplit : j.entries = done ++ rest) (hstaged : stageEntries root base done = some t)
      (r : Except StageFailure StagedFileDeletion × Tree)
      (hend : (∃ staged, r = (.ok staged, t) ∧ staged.journal = j) ∨
        ∃ error, r = match runRestore root j undo t with
          | (.ok (), u) => (.error (.call error), u)
          | (.error rollbackError, u) => (.error (.both error rollbackError), u)) :
      StageEnd root candidates guards operationId createdAt undo before r

theorem fresh_made {op : Name} (hfresh : Fresh root op before) (h : Made before root.names t) :
    Fresh root op t := by
  intro p hp hunder
  obtain ⟨⟨q, n⟩, hmem, rfl⟩ := List.mem_map.mp hp
  rcases h.added _ hmem with hold | ⟨-, hpre⟩
  · exact hfresh q (List.mem_map_of_mem (f := Prod.fst) hold) hunder
  · have hlen := (hunder.trans hpre).length_le
    simp [operationRoot_eq] at hlen

theorem writeJournalCalls_ok {j : DeletionJournal} {faults : Faults Name} {d d' : Disk Name Char}
    (h : writeJournalCalls root j faults d = (.ok (), d')) :
    writeDurableJournal root d.tree j = some d'.tree ∧
      (quarantineRoot root j.operationId, .dir) ∈ d'.tree.nodes := by
  obtain ⟨_, d₁, hmk, h⟩ := ok_bind.mp h
  obtain ⟨_, d₂, hwrite, h⟩ := ok_bind.mp h
  obtain ⟨_, d₃, hflush, h⟩ := ok_bind.mp h
  obtain ⟨_, d₄, hflush', h⟩ := ok_bind.mp h
  have hmade := mkdirs_ok hmk
  have hcreate := writeNew_ok hwrite
  have htree : d'.tree = d₂.tree := (flush_ok h).trans ((flush_ok hflush').trans (flush_ok hflush))
  rw [htree]
  refine ⟨?_, (mem_create hcreate).mpr (.inl (mkdirs_dir hmade))⟩
  rw [writeDurableJournal, hmade]
  exact hcreate

theorem stageFileDeletion_end (hfresh : Fresh root operationId.text before) :
    StageEnd root candidates guards operationId createdAt undo before
      (stageFileDeletion root candidates guards operationId createdAt staging undo before) := by
  have hroot : ∀ q, q <+: root.names → ¬ Guarded root q :=
    fun q hpre hq => hq.2.1 (hpre.eq_of_length (le_antisymm hpre.length_le hq.1.length_le))
  have hmkdirs := mkdirs_keeps hroot staging ⟨before, 0⟩
  unfold stageFileDeletion
  split
  · next error d heq =>
    rw [heq] at hmkdirs
    exact .early _ _ hmkdirs (fun _ _ h => by cases h)
  · next d heq =>
    rw [heq] at hmkdirs
    have hfresh₁ := fresh_made hfresh (mkdirs_made (mkdirs_ok heq))
    split
    · exact .early _ _ hmkdirs (fun _ _ h => by cases h)
    · next j hjournal =>
      obtain ⟨rels, -, -, hop, hw⟩ := stageJournal_written hjournal
      have hwriting := writeJournalCalls_keeps root j staging d
      split
      · next error d₁ hwrite =>
        rw [hwrite] at hwriting
        exact .early _ _ (hmkdirs.trans hwriting) (fun _ _ h => by cases h)
      · next d₁ hwrite =>
        obtain ⟨hdurable, hquar⟩ := writeJournalCalls_ok hwrite
        unfold stageOrUndo
        split
        · next st d₂ hfiles =>
          obtain ⟨done, rest, hsplit, hstaged⟩ := stageFiles_staged hfiles
          exact .moved j rels d.tree d₁.tree d₂.tree done rest hop hw hmkdirs (hop ▸ hfresh₁)
            (based_of_write hdurable) hquar hsplit hstaged _ (.inl ⟨_, rfl, rfl⟩)
        · next error d₂ hfiles =>
          obtain ⟨done, rest, hsplit, hstaged⟩ := stageFiles_staged hfiles
          exact .moved j rels d.tree d₁.tree d₂.tree done rest hop hw hmkdirs (hop ▸ hfresh₁)
            (based_of_write hdurable) hquar hsplit hstaged _ (.inr ⟨error, rfl⟩)

theorem sameGuarded_based {j : DeletionJournal} {base : Tree} (h : Based root j before base) :
    SameGuarded root before base := by
  intro p n hp
  refine ⟨fun hbase => ?_, h.kept _⟩
  rcases h.added _ hbase with hold | ⟨-, hpre⟩ | heq
  · exact hold
  · exact absurd hpre hp.not_quarantine
  · have hjournal : p = operationsRoot root ++ [j.operationId, journalFile] := by
      rw [(Prod.mk.inj heq).1, journalPath, operationRoot, List.append_assoc]
      rfl
    exact absurd (hjournal ▸ List.prefix_refl _) (hp.outside [j.operationId, journalFile])

end Stage

/-- **What an undo owes.** -/
structure Undoes (root : AbsPath) (operationId : Uuid) (undo : Faults Name) (before : Tree)
    (result : Except StageFailure StagedFileDeletion × Tree) : Prop where
  /-- A stage that throws leaves the guarded tree as it was, -/
  thrown : ∀ failure, result.1 = .error failure → (∀ e r, failure ≠ .both e r) →
    SameGuarded root before result.2
  /-- and throws both errors only where a call of the undo failed. -/
  both : undo = noFault → ∀ e r, result.1 ≠ .error (.both e r)
  /-- A rollback leaves it as it was, beside what was created since, and nothing of its own; -/
  rolledBack : ∀ staged later faults final, result.1 = .ok staged →
    CreatedElsewhere root staged.journal result.2 later →
    staged.rollback root faults later = (.ok (), final) →
      (∀ p n, Guarded root p → ((p, n) ∈ final.nodes ↔
        (p, n) ∈ before.nodes ∨ createdSince result.2 later p n)) ∧
      ∀ p ∈ final.paths, ¬ operationRoot root operationId.text <+: p
  /-- it succeeds where no call of it fails. -/
  rollsBack : ∀ staged later, result.1 = .ok staged →
    CreatedElsewhere root staged.journal result.2 later →
    (staged.rollback root noFault later).1 = .ok ()

/-- **Rollback of a staged deletion is an exact undo**, whichever calls of the staging fail. -/
theorem stage_undoes (root : AbsPath) (candidates : List (List Char)) (guards : List DeletionGuard)
    (operationId : Uuid) (createdAt : IsoInstant) (staging undo : Faults Name) (before : Tree)
    (hfresh : Fresh root operationId.text before) :
    Undoes root operationId undo before
      (stageFileDeletion root candidates guards operationId createdAt staging undo before) := by
  have hstage : StageEnd root candidates guards operationId createdAt undo before
      (stageFileDeletion root candidates guards operationId createdAt staging undo before) :=
    stageFileDeletion_end hfresh
  revert hstage
  generalize stageFileDeletion root candidates guards operationId createdAt staging undo before = r
  intro hstage
  cases hstage with
  | early failure t hsame hboth =>
    refine ⟨?_, ?_, ?_, ?_⟩
    · exact fun _ _ _ => hsame
    · rintro - e r heq
      exact hboth e r (Except.error.inj heq)
    · intro staged later faults final h
      cases h
    · intro staged later h
      cases h
  | moved j rels middle base t done rest hop hw hsame hfresh hbase hquar hsplit hstaged r hend =>
    have hguarded := hsame.trans (sameGuarded_based hbase)
    -- the undo of the stage itself finds nothing else
    have hnothing : Elsewhere root j.operationId j.entries (fun _ _ => False) := fun _ _ h => h.elim
    have hitself : Beside (fun _ _ => False) t t := fun _ _ => (or_false _).to_iff.symm
    rcases hend with ⟨staged, rfl, rfl⟩ | ⟨error, hr⟩
    · refine ⟨?_, ?_, ?_, ?_⟩
      · intro failure h
        cases h
      · rintro - e r h
        cases h
      · rintro _ later faults final ⟨⟩ hcreated hrollback
        obtain ⟨hback, hgone⟩ := undo_guarded hw hfresh hbase hsplit hstaged hcreated.elsewhere
          hcreated.beside hrollback
        refine ⟨fun p n hp => ?_, hop ▸ hgone⟩
        rw [hback p n hp, hguarded p n hp]
      · rintro _ later ⟨⟩ hcreated
        exact undo_noFault hw hfresh hbase hsplit hstaged hquar hcreated.elsewhere hcreated.beside
    · cases hundo : runRestore root j undo t with
      | mk outcome final =>
        rw [hundo] at hr
        cases outcome with
        | ok =>
          subst hr
          obtain ⟨hback, -⟩ := undo_guarded hw hfresh hbase hsplit hstaged hnothing hitself hundo
          refine ⟨fun _ _ _ p n hp => ?_, ?_, ?_, ?_⟩
          · rw [hback p n hp, or_false]
            exact hguarded p n hp
          · rintro - e r h
            cases h
          · intro staged later faults final h
            cases h
          · intro staged later h
            cases h
        | error rollbackError =>
          subst hr
          refine ⟨?_, ?_, ?_, ?_⟩
          · rintro _ ⟨⟩ hboth
            exact absurd rfl (hboth error rollbackError)
          · rintro rfl e r -
            have hok := undo_noFault hw hfresh hbase hsplit hstaged hquar hnothing hitself
            rw [hundo] at hok
            cases hok
          · intro staged later faults final h
            cases h
          · intro staged later h
            cases h

/-! One recording is staged, and the flush of its directory fails. -/

def failsAt (n : Nat) : Faults Name :=
  fun call => if call = n then some { made := 0, leaves := fun _ => true } else none

def stageOneSegment (undo : Faults Name) : Except StageFailure StagedFileDeletion × Tree :=
  stageFileDeletion recordingsRoot (segments 1) [segmentGuard] someOperation someInstant (failsAt 8)
    undo oneSegment

def throwsCall : Except StageFailure StagedFileDeletion → Bool
  | .error (.call .failed) => true
  | _ => false

def throwsBoth : Except StageFailure StagedFileDeletion → Bool
  | .error (.both .failed (.notRestored [.failed _ .failed])) => true
  | _ => false

def segmentPath : Path := "rec".toList :: segmentNames 0

theorem stage_undoes_flush :
    throwsCall (stageOneSegment noFault).1 = true ∧
      (stageOneSegment noFault).2.has segmentPath = true ∧
      Undoes recordingsRoot someOperation noFault oneSegment (stageOneSegment noFault) :=
  ⟨by decide +kernel, by decide +kernel, stage_undoes recordingsRoot (segments 1) [segmentGuard]
    someOperation someInstant (failsAt 8) noFault oneSegment oneSegment_fresh⟩

theorem error_of_throwsBoth {x : Except StageFailure StagedFileDeletion × Tree}
    (h : throwsBoth x.1 = true) : ∃ failure, x = (.error failure, x.2) := by
  obtain ⟨outcome, t⟩ := x
  cases outcome with
  | ok staged => cases h
  | error failure => exact ⟨failure, rfl⟩

/-- The rename back fails as well: the recording stays in quarantine, and both errors are thrown. -/
theorem stage_undo_may_fail :
    ¬ ∀ (root : AbsPath) (candidates : List (List Char)) (guards : List DeletionGuard)
      (operationId : Uuid) (createdAt : IsoInstant) (staging undo : Faults Name) (before : Tree),
      Fresh root operationId.text before → ∀ failure t,
        stageFileDeletion root candidates guards operationId createdAt staging undo before =
          (.error failure, t) → SameGuarded root before t := by
  intro hall
  have hfails : throwsBoth (stageOneSegment (failsAt 3)).1 = true := by decide +kernel
  have hgone : (stageOneSegment (failsAt 3)).2.has segmentPath = false := by decide +kernel
  have hguarded : Guarded recordingsRoot segmentPath := by decide +kernel
  have hbefore : (segmentPath, Node.file ['v']) ∈ oneSegment.nodes := by decide +kernel
  obtain ⟨failure, hstage⟩ := error_of_throwsBoth hfails
  have hsame := hall recordingsRoot (segments 1) [segmentGuard] someOperation someInstant
    (failsAt 8) (failsAt 3) oneSegment oneSegment_fresh failure (stageOneSegment (failsAt 3)).2 hstage
  have hthere := (hsame segmentPath (.file ['v']) hguarded).mpr hbefore
  exact not_mem_of_not_has hgone _ hthere

end Drac.Recordings
