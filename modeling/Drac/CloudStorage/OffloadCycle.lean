import Drac.CloudStorage.OffloadRuns
import Drac.Lib.QueueHead

/-
  What one cycle uploads.

  `RunOnce c s t` is a call of `runOnce` alone, from its start to its end, in which the
  bucket accepts every upload and the database and the disk answer the uploads; what the
  pruning is answered is free. A recording is marked in it exactly when it is among the
  first of the queue, `batch` of them, and its file has content (`runOnce_uploads`); else its
  row is as it was (`Since`). A cycle comes to its end (`runOnce_total`).
-/

namespace Drac.CloudStorage

open PosixPath Runs

/-- The recordings that are to go up, oldest first. -/
def fila (s : Installation) : List Recording :=
  if s.policy.enabled then
    CursorPaging.byTime (·.startedAt) (s.table.rows.filter (fun r =>
      r.cloudKey.isNone && r.triggerMode ∈ (enabledTriggerModes s.policy).map TriggerMode.text))
  else []

def lote (c : Settings) (s : Installation) : List Recording := (fila s).take c.batch

def hasContent (c : Settings) (s : Installation) (r : Recording) : Bool :=
  ((ensureFileUnderRoot c.recordingsRoot r.filePath).bind s.files).any
    (fun content => content.length ≠ 0)

/-- The row says where the copy is. -/
def Uploaded (t : RecordingTable) (id : Text) : Prop :=
  ∃ r ∈ t.rows, r.id = id ∧ r.cloudKey.isSome = true

/-- The database and the disk answer an upload, and the bucket accepts it. -/
def accepts : Stage → Answer → Bool
  | .planning, .fails => false
  | .listing _, .fails => false
  | .uploading _ _ _, .fails => false
  | .uploading _ _ _, .stores length ok => length.isSome && ok
  | _, _ => true

def Cycle.accepts : Cycle → Answer → Bool
  | .running _ stage, answer => CloudStorage.accepts stage answer
  | _, _ => true

/-- Only the cycle `i` moves. -/
def Accepted (i : Nat) (s : Installation) : Label → Prop
  | .advance j answer => j = i ∧ (s.cycles[i]?).any (·.accepts answer) = true
  | _ => False

/-- A call of `runOnce` while no other runs, from its start to its end. -/
structure RunOnce (c : Settings) (s t : Installation) : Prop where
  idle : s.running = false
  path : ∃ s', step c s .call = some s' ∧ Path (offload c) (Accepted s.cycles.length) s' t
  returned : ∃ cfg, t.cycles[s.cycles.length]? = some (.running cfg .returned)

/-! ## What has happened since the cycle began -/

/-- A row as a cycle leaves it: where it is not marked, it is as it was. -/
structure Later (r r' : Recording) : Prop where
  id : r'.id = r.id
  filePath : r'.filePath = r.filePath
  kept : r'.cloudKey = none → r' = r

/-- What may have changed since a cycle began. -/
structure Since (c : Settings) (s u : Installation) : Prop where
  policy : u.policy = s.policy
  rows : ∃ later, u.table.rows = s.table.rows.map later ∧
    ∀ r ∈ s.table.rows, Later r (later r)
  /-- Only the file of a marked recording goes. -/
  files : ∀ p, u.files p = s.files p ∨ u.files p = none ∧ ∃ r ∈ u.table.rows,
    r.cloudKey.isSome = true ∧ ensureFileUnderRoot c.recordingsRoot r.filePath = some p

/-- What is marked: the recordings of the batch with content, beside those that are left. -/
def Marks (c : Settings) (s u : Installation) (left : List Recording) : Prop :=
  ∀ r ∈ s.table.rows, r.cloudKey = none →
    (Uploaded u.table r.id ↔ r ∈ lote c s ∧ hasContent c s r = true ∧ r ∉ left)

/-- An upload goes beyond the size only for a file with content. -/
def UploadStage.Fits (c : Settings) (s u : Installation) (rec : Recording) : UploadStage → Prop
  | .sizing caminho => ensureFileUnderRoot c.recordingsRoot rec.filePath = some caminho
  | .confirming => hasContent c s rec = true ∧
      (u.bucket (c.fullKey (buildCloudKey rec))).isSome = true
  | _ => hasContent c s rec = true

/-- What a cycle that began at `s` has done when it awaits an answer at `u`. -/
def Stage.Doing (c : Settings) (s u : Installation) : Stage → Prop
  | .planning => u.table = s.table ∧ u.files = s.files
  | .listing tipos => u.table = s.table ∧ u.files = s.files ∧ s.policy.enabled = true ∧
      tipos = enabledTriggerModes s.policy
  | .uploading rec rest stage => u.files = s.files ∧ (rec :: rest) <:+ lote c s ∧
      Marks c s u (rec :: rest) ∧ stage.Fits c s u rec
  | .unlinking rec caminho rest => Marks c s u [] ∧
      ensureFileUnderRoot c.recordingsRoot rec.filePath = some caminho ∧
      ∀ r ∈ rec :: rest, Marked u.table r
  | .markingDeleted rec rest => Marks c s u [] ∧ ∀ r ∈ rec :: rest, Marked u.table r
  | .pruning | .selecting _ | .returned => Marks c s u []

theorem Later.refl (r : Recording) : Later r r := ⟨rfl, rfl, fun _ => rfl⟩

theorem Later.trans {r r' r'' : Recording} (h : Later r r') (k : Later r' r'') : Later r r'' := by
  refine ⟨k.id.trans h.id, k.filePath.trans h.filePath, fun hnone => ?_⟩
  have hsame := k.kept hnone
  rw [hsame]
  exact h.kept (hsame ▸ hnone)

theorem Since.refl (c : Settings) (s : Installation) : Since c s s :=
  ⟨rfl, ⟨id, (List.map_id _).symm, fun r _ => Later.refl r⟩, fun _ => .inl rfl⟩

variable {r : Recording}

theorem Since.later {c : Settings} {s u : Installation} (h : Since c s u)
    (hr : r ∈ s.table.rows) : ∃ r' ∈ u.table.rows, Later r r' := by
  obtain ⟨later, hrows, hlater⟩ := h.rows
  exact ⟨later r, hrows ▸ List.mem_map_of_mem hr, hlater r hr⟩

theorem Since.earlier {c : Settings} {s u : Installation} (h : Since c s u) {r' : Recording}
    (hr' : r' ∈ u.table.rows) : ∃ r ∈ s.table.rows, Later r r' := by
  obtain ⟨later, hrows, hlater⟩ := h.rows
  obtain ⟨r, hr, rfl⟩ := List.mem_map.mp (hrows ▸ hr')
  exact ⟨r, hr, hlater r hr⟩

theorem Since.row_or {c : Settings} {s u : Installation} (h : Since c s u)
    (hr : r ∈ s.table.rows) : r ∈ u.table.rows ∨ Uploaded u.table r.id := by
  obtain ⟨r', hr', hlater⟩ := h.later hr
  cases hkey : r'.cloudKey with
  | none => exact .inl (hlater.kept hkey ▸ hr')
  | some key => exact .inr ⟨r', hr', hlater.id, by rw [hkey]; rfl⟩

variable {id : Text}

theorem Since.uploaded {c : Settings} {s u : Installation} (h : Since c s u)
    (hid : Uploaded s.table id) : Uploaded u.table id := by
  obtain ⟨r, hr, rfl, hkey⟩ := hid
  rcases h.row_or hr with hsame | hup
  · exact ⟨r, hsame, rfl, hkey⟩
  · exact hup

variable {t : RecordingTable}

theorem Marked.uploaded (h : Marked t r) :
    Uploaded t r.id := by
  obtain ⟨r', hr', hid, -, hkey⟩ := h
  exact ⟨r', hr', hid, hkey⟩

theorem uploaded_row (hr : r ∈ t.rows)
    (h : Uploaded t r.id) : r.cloudKey.isSome = true := by
  obtain ⟨r', hr', hid, hkey⟩ := h
  rw [← t.eq_of_id hr' hr hid]
  exact hkey

/-- What an effect of a cycle asks of the rows. -/
def Effect.Backed (c : Settings) (u : Installation) : Effect → Prop
  | .unlink caminho => ∃ r ∈ u.table.rows, r.cloudKey.isSome = true ∧
      ensureFileUnderRoot c.recordingsRoot r.filePath = some caminho
  | .markDeleted id _ => Uploaded u.table id
  | _ => True

theorem Since.rows_update {c : Settings} {s u : Installation} (h : Since c s u) (id : Text)
    (data : Recording → Recording) (hid : ∀ r, (data r).id = r.id)
    (hdata : ∀ r ∈ u.table.rows, r.id = id → Later r (data r)) :
    ∃ later, (u.table.update id data hid).rows = s.table.rows.map later ∧
      ∀ r ∈ s.table.rows, Later r (later r) := by
  obtain ⟨later, hrows, hlater⟩ := h.rows
  refine ⟨fun r => if (later r).id = id then data (later r) else later r, ?_, ?_⟩
  · show u.table.rows.map (fun r => if r.id = id then data r else r) = _
    rw [hrows, List.map_map]
    rfl
  · intro r hr
    have hmem : later r ∈ u.table.rows := hrows ▸ List.mem_map_of_mem hr
    show Later r (if (later r).id = id then data (later r) else later r)
    split
    · next heq => exact (hlater r hr).trans (hdata (later r) hmem heq)
    · exact hlater r hr

variable {effect : Effect}

theorem Since.apply {c : Settings} {s u : Installation} (h : Since c s u)
    (hbacked : effect.Backed c u) : Since c s (effect.apply u) := by
  have hgone : ∀ p, u.files p = s.files p ∨ u.files p = none ∧
      ∃ r ∈ (effect.apply u).table.rows, r.cloudKey.isSome = true ∧
        ensureFileUnderRoot c.recordingsRoot r.filePath = some p := by
    intro p
    refine (h.files p).imp_right (And.imp_right ?_)
    rintro ⟨r, hr, hkey, hpath⟩
    obtain ⟨r', hr', -, hpath', hkey'⟩ := extends_apply u effect r hr
    exact ⟨r', hr', hkey' hkey, hpath' ▸ hpath⟩
  cases effect with
  | nothing | store => exact ⟨h.policy, h.rows, h.files⟩
  | markUploaded id key now =>
    have hrows := h.rows_update id
      (fun r => { r with cloudKey := some key, cloudUploadedAt := some now }) (fun _ => rfl)
      (fun r _ _ => ⟨rfl, rfl, nofun⟩)
    exact ⟨h.policy, hrows, hgone⟩
  | markDeleted id now =>
    have hrows := h.rows_update id (fun r => { r with localDeletedAt := some now })
      (fun _ => rfl) (fun r hr hid => ⟨rfl, rfl, fun hnone => by
        have hkey := uploaded_row hr (hid ▸ hbacked)
        rw [show r.cloudKey = none from hnone] at hkey
        cases hkey⟩)
    exact ⟨h.policy, hrows, hgone⟩
  | unlink caminho =>
    refine ⟨h.policy, h.rows, fun p => ?_⟩
    have hp : ((Effect.unlink caminho).apply u).files p = if p = caminho then none else u.files p :=
      Function.update_apply u.files caminho none p
    rw [hp]
    split
    · next heq => exact .inr ⟨rfl, heq ▸ hbacked⟩
    · exact hgone p

theorem hasContent_of_since {c : Settings} {s u : Installation} (h : Since c s u)
    (hr : hasContent c u r = true) : hasContent c s r = true := by
  unfold hasContent at hr ⊢
  cases hpath : ensureFileUnderRoot c.recordingsRoot r.filePath with
  | none =>
    rw [hpath] at hr
    exact hr
  | some p =>
    rw [hpath, Option.bind_some] at hr
    rw [Option.bind_some]
    rcases h.files p with hsame | ⟨hnone, -⟩
    · rw [← hsame]
      exact hr
    · rw [hnone] at hr
      cases hr

/-! ## The queue -/

theorem mem_fila {s : Installation} :
    r ∈ fila s ↔ s.policy.enabled = true ∧ r ∈ s.table.rows ∧ r.cloudKey = none ∧
      r.triggerMode ∈ (enabledTriggerModes s.policy).map TriggerMode.text := by
  unfold fila
  split
  · next hon =>
    rw [(CursorPaging.byTime_perm _ _).mem_iff, List.mem_filter, Bool.and_eq_true,
      Option.isNone_iff_eq_none, decide_eq_true_eq]
    exact ⟨fun h => ⟨hon, h⟩, fun h => h.2⟩
  · next hoff => exact ⟨fun h => (nomatch h), fun h => absurd h.1 hoff⟩

theorem fila_nodup (s : Installation) : ((fila s).map (·.id)).Nodup := by
  unfold fila
  split
  · have hperm := (CursorPaging.byTime_perm (·.startedAt) (s.table.rows.filter (fun r =>
      r.cloudKey.isNone && r.triggerMode ∈
        (enabledTriggerModes s.policy).map TriggerMode.text))).map (·.id)
    exact hperm.nodup_iff.mpr (s.table.ids.sublist (List.filter_sublist.map _))
  · exact List.nodup_nil

theorem lote_nodup (c : Settings) (s : Installation) : (lote c s).Nodup :=
  List.Nodup.of_map _ ((fila_nodup s).sublist ((List.take_sublist c.batch (fila s)).map _))

theorem row_of_mem_lote {c : Settings} {s : Installation} (h : r ∈ lote c s) :
    r ∈ s.table.rows ∧ r.cloudKey = none := by
  obtain ⟨-, hrow, hkey, -⟩ := mem_fila.mp (List.mem_of_mem_take h)
  exact ⟨hrow, hkey⟩

theorem lote_of_on {c : Settings} {s : Installation} (hon : s.policy.enabled = true) :
    lote c s = pendentes c.batch (enabledTriggerModes s.policy) s.table := by
  rw [lote, fila, if_pos hon]
  rfl

/-! ## What a step does -/

variable {now : Int} {stage : Stage}

section Turn

variable {c : Settings} {s u : Installation} {rec : Recording} {rest : List Recording}

theorem Marks.drop (h : Marks c s u (rec :: rest)) (hnone : hasContent c s rec = false) :
    Marks c s u rest := by
  intro r hr hkey
  rw [h r hr hkey]
  refine and_congr_right fun _ => and_congr_right fun hcontent => ?_
  rw [List.mem_cons, not_or]
  refine ⟨And.right, fun hrest => ⟨?_, hrest⟩⟩
  rintro rfl
  rw [hnone] at hcontent
  cases hcontent

theorem uploaded_markUploaded {key id id' : Text} :
    Uploaded (t.markUploaded id key now) id' ↔
      Uploaded t id' ∨ id' = id ∧ ∃ r ∈ t.rows, r.id = id := by
  constructor
  · rintro ⟨r', hr', rfl, hkey⟩
    obtain ⟨r, hr, rfl⟩ := List.mem_map.mp hr'
    split at hkey
    · next hid =>
      right
      rw [if_pos hid]
      exact ⟨hid, r, hr, hid⟩
    · next hid =>
      left
      rw [if_neg hid]
      exact ⟨r, hr, rfl, hkey⟩
  · rintro (⟨r, hr, hid, hkey⟩ | ⟨rfl, r, hr, hid⟩)
    · refine ⟨_, List.mem_map_of_mem hr, ?_⟩
      split
      · exact ⟨hid, rfl⟩
      · exact ⟨hid, hkey⟩
    · refine ⟨_, List.mem_map_of_mem hr, ?_⟩
      rw [if_pos hid]
      exact ⟨hid, rfl⟩

theorem Marks.mark {key : Text} (h : Marks c s u (rec :: rest))
    (hsince : Since c s u) (hsuffix : (rec :: rest) <:+ lote c s)
    (hcontent : hasContent c s rec = true) :
    Marks c s ((Effect.markUploaded rec.id key now).apply u) rest := by
  have hrec : rec ∈ lote c s := hsuffix.subset List.mem_cons_self
  have hrow := (row_of_mem_lote hrec).1
  have hnodup : (rec :: rest).Nodup := (lote_nodup c s).sublist hsuffix.sublist
  obtain ⟨r', hr', hlater⟩ := hsince.later hrow
  intro r hr hkey
  have hmark : Uploaded ((Effect.markUploaded rec.id key now).apply u).table r.id ↔
      Uploaded u.table r.id ∨ r = rec := by
    refine uploaded_markUploaded.trans (or_congr_right ?_)
    refine ⟨fun heq => s.table.eq_of_id hr hrow heq.1, fun heq => ?_⟩
    exact ⟨heq ▸ rfl, r', hr', hlater.id⟩
  rw [hmark, h r hr hkey, List.mem_cons, not_or]
  constructor
  · rintro (⟨hin, hc, -, hrest⟩ | rfl)
    · exact ⟨hin, hc, hrest⟩
    · exact ⟨hrec, hcontent, (List.nodup_cons.mp hnodup).1⟩
  · rintro ⟨hin, hc, hrest⟩
    by_cases heq : r = rec
    · exact .inr heq
    · exact .inl ⟨hin, hc, heq, hrest⟩

theorem uploaded_markDeleted {id id' : Text} :
    Uploaded (t.markDeleted id now) id' ↔ Uploaded t id' := by
  have hsame : ∀ r : Recording,
      (if r.id = id then { r with localDeletedAt := some now } else r).id = r.id ∧
      (if r.id = id then { r with localDeletedAt := some now } else r).cloudKey = r.cloudKey := by
    intro r
    split <;> exact ⟨rfl, rfl⟩
  constructor
  · rintro ⟨r', hr', hid, hkey⟩
    obtain ⟨r, hr, rfl⟩ := List.mem_map.mp hr'
    exact ⟨r, hr, (hsame r).1 ▸ hid, (hsame r).2 ▸ hkey⟩
  · rintro ⟨r, hr, hid, hkey⟩
    exact ⟨_, List.mem_map_of_mem hr, (hsame r).1.trans hid, by rw [(hsame r).2]; exact hkey⟩

theorem nextUpload_doing (hfiles : u.files = s.files) :
    ∀ recs, recs <:+ lote c s → Marks c s u recs → (nextUpload c recs).Doing c s u
  | [], _, h => h
  | rec :: rest, hsuffix, h => by
    unfold nextUpload
    split
    · next hpath =>
      refine nextUpload_doing hfiles rest ((List.suffix_cons rec rest).trans hsuffix) (h.drop ?_)
      rw [hasContent, hpath]
      rfl
    · next caminho hpath => exact ⟨hfiles, hsuffix, h, hpath⟩

theorem nextPrune_doing (h : Marks c s u []) :
    ∀ recs, (∀ r ∈ recs, Marked u.table r) → (nextPrune c recs).Doing c s u
  | [], _ => h
  | rec :: rest, hmarked => by
    unfold nextPrune
    split
    · exact nextPrune_doing h rest (fun r hr => hmarked r (List.mem_cons_of_mem rec hr))
    · next caminho hpath => exact ⟨h, hpath, hmarked⟩

theorem marks_begin (htable : u.table = s.table) : Marks c s u (lote c s) := by
  intro r hr hkey
  rw [htable]
  refine ⟨fun hup => ?_, fun h => absurd h.1 h.2.2⟩
  have hsome := uploaded_row hr hup
  rw [hkey] at hsome
  cases hsome

theorem turnUpload_doing {stage : UploadStage} {answer : Answer}
    {next : Option UploadStage} (hsince : Since c s u)
    (haccept : accepts (.uploading rec rest stage) answer = true)
    (hdoing : (Stage.uploading rec rest stage).Doing c s u)
    (h : turnUpload c u rec stage answer = some (effect, next)) :
    effect.Backed c u ∧ ((next.map (.uploading rec rest ·)).getD (nextUpload c rest)).Doing c s
      (effect.apply u) := by
  obtain ⟨hfiles, hsuffix, hmarks, hfits⟩ := hdoing
  have hleave : hasContent c s rec = false → (nextUpload c rest).Doing c s u :=
    fun hnone => nextUpload_doing hfiles rest ((List.suffix_cons rec rest).trans hsuffix)
      (hmarks.drop hnone)
  unfold turnUpload at h
  split at h
  case h_1 => cases haccept
  case h_2 caminho =>
    have hcontent : hasContent c s rec = (u.files caminho).any (fun b => b.length ≠ 0) := by
      rw [hasContent, hfits, Option.bind_some, hfiles]
    split at h
    · next hnone =>
      cases h
      rw [hnone] at hcontent
      exact ⟨trivial, hleave hcontent⟩
    · next content hsome =>
      rw [hsome] at hcontent
      split at h
      · next hempty =>
        cases h
        rw [Option.any_some, hempty] at hcontent
        exact ⟨trivial, hleave hcontent⟩
      · next hlong =>
        rw [Option.any_some, decide_eq_true hlong] at hcontent
        split at h <;> (cases h; exact ⟨trivial, hfiles, hsuffix, hmarks, hcontent⟩)
  case h_3 => cases h; exact ⟨trivial, hfiles, hsuffix, hmarks, hfits⟩
  case h_4 conteudo length ok =>
    obtain ⟨hlength, rfl⟩ := Bool.and_eq_true_iff.mp haccept
    obtain ⟨n, rfl⟩ := Option.isSome_iff_exists.mp hlength
    cases h
    exact ⟨trivial, hfiles, hsuffix, hmarks, hfits, by simp [stored, Effect.apply]⟩
  case h_5 => cases h; exact ⟨trivial, hfiles, hsuffix, hmarks, hfits⟩
  case h_6 => cases h; exact ⟨trivial, hfiles, hsuffix, hmarks, hfits⟩
  case h_7 =>
    cases h
    refine ⟨trivial, ?_⟩
    split <;> exact ⟨hfiles, hsuffix, hmarks, hfits⟩
  case h_8 sent length ok =>
    obtain ⟨hlength, rfl⟩ := Bool.and_eq_true_iff.mp haccept
    obtain ⟨n, rfl⟩ := Option.isSome_iff_exists.mp hlength
    cases h
    exact ⟨trivial, hfiles, hsuffix, hmarks, hfits, by simp [stored, Effect.apply]⟩
  case h_9 =>
    cases h
    rw [if_pos hfits.2]
    exact ⟨trivial, hfiles, hsuffix, hmarks, hfits.1⟩
  case h_10 now =>
    cases h
    refine ⟨trivial, ?_⟩
    exact nextUpload_doing (u := (Effect.markUploaded rec.id (buildCloudKey rec) now).apply u)
      hfiles rest ((List.suffix_cons rec rest).trans hsuffix) (hmarks.mark hsince hsuffix hfits)
  case h_11 => cases h

theorem marks_of_fails (haccept : accepts stage .fails = true)
    (hdoing : stage.Doing c s u) : Marks c s u [] := by
  cases stage with
  | planning | listing => cases haccept
  | uploading rec rest stage => cases haccept
  | unlinking rec caminho rest => exact hdoing.1
  | markingDeleted rec rest => exact hdoing.1
  | pruning | selecting | returned => exact hdoing

theorem turn_doing {cfg : CloudStorageConfig} {stage stage' : Stage} {answer : Answer}
    (hsince : Since c s u) (haccept : accepts stage answer = true)
    (hdoing : stage.Doing c s u) (h : turn c u cfg stage answer = some (effect, stage')) :
    effect.Backed c u ∧ stage'.Doing c s (effect.apply u) := by
  unfold turn at h
  split at h
  case h_1 =>
    obtain ⟨htable, hfiles⟩ := hdoing
    cases h
    refine ⟨trivial, ?_⟩
    split
    · next hoff =>
      have hempty : lote c s = [] := by
        rw [hsince.policy, Bool.or_eq_true, Bool.not_eq_true', List.isEmpty_iff] at hoff
        refine List.eq_nil_iff_forall_not_mem.mpr (fun r hr => ?_)
        obtain ⟨hon, -, -, hmode⟩ := mem_fila.mp (List.mem_of_mem_take hr)
        rcases hoff with hoff | hnone
        · rw [hon] at hoff
          cases hoff
        · rw [hnone] at hmode
          cases hmode
      have hbegin := marks_begin (c := c) htable
      rw [hempty] at hbegin
      exact hbegin
    · next hon =>
      rw [hsince.policy, Bool.or_eq_true, not_or, Bool.not_eq_true', Bool.not_eq_false] at hon
      exact ⟨htable, hfiles, hon.1, by rw [hsince.policy]⟩
  case h_2 tipos =>
    obtain ⟨htable, hfiles, hon, rfl⟩ := hdoing
    cases h
    refine ⟨trivial, ?_⟩
    rw [htable, ← lote_of_on hon]
    exact nextUpload_doing hfiles _ (List.suffix_refl _) (marks_begin htable)
  case h_3 answer rec rest stage =>
    obtain ⟨⟨effect, next⟩, hupload, heq⟩ := Option.map_eq_some_iff.mp h
    cases heq
    exact turnUpload_doing hsince haccept hdoing hupload
  case h_4 => cases h; exact ⟨trivial, by split <;> exact hdoing⟩
  case h_5 corte =>
    cases h
    refine ⟨trivial, nextPrune_doing hdoing _ fun r hr => ?_⟩
    exact ⟨r, (mem_candidatas hr).1, rfl, rfl, (mem_candidatas hr).2⟩
  case h_6 rec caminho rest =>
    obtain ⟨hmarks, hpath, hmarked⟩ := hdoing
    cases h
    obtain ⟨r, hr, -, hsame, hkey⟩ := hmarked rec List.mem_cons_self
    exact ⟨⟨r, hr, hkey, hsame ▸ hpath⟩, hmarks, hmarked⟩
  case h_7 rec caminho rest =>
    cases h
    exact ⟨trivial, nextPrune_doing hdoing.1 rest
      (fun r hr => hdoing.2.2 r (List.mem_cons_of_mem rec hr))⟩
  case h_8 rec rest now =>
    obtain ⟨hmarks, hmarked⟩ := hdoing
    cases h
    have hbacked : (Effect.markDeleted rec.id now).Backed c u :=
      (hmarked rec List.mem_cons_self).uploaded
    refine ⟨hbacked, nextPrune_doing ?_ rest ?_⟩
    · exact fun r hr hkey => uploaded_markDeleted.trans (hmarks r hr hkey)
    · exact fun r hr => (hmarked r (List.mem_cons_of_mem rec hr)).mono (extends_apply u _)
  case h_9 => cases h
  case h_10 =>
    cases h
    exact ⟨trivial, marks_of_fails haccept hdoing⟩
  case h_11 => cases h

end Turn

/-! ## A whole cycle -/

/-- What holds of a cycle that began at `s`. -/
def Cycle.Doing (c : Settings) (s u : Installation) : Cycle → Prop
  | .running _ stage => stage.Doing c s u
  | _ => u.table = s.table ∧ u.files = s.files

/-- A cycle is at its work, and the rest is as `Since` says. -/
structure Going (c : Settings) (s : Installation) (i : Nat) (u : Installation) : Prop where
  since : Since c s u
  cycle : ∃ cycle, u.cycles[i]? = some cycle ∧ cycle.Doing c s u

theorem getElem?_set_at {s : Installation} {i : Nat} {cycle : Cycle}
    (h : s.cycles[i]? = some cycle) (new : Cycle) : (s.cycles.set i new)[i]? = some new := by
  obtain ⟨hi, -⟩ := List.getElem?_eq_some_iff.mp h
  rw [List.getElem?_set_self hi]

theorem goto_doing {c : Settings} {s u : Installation} {i : Nat} {cfg : CloudStorageConfig}
    (h : stage.Doing c s u) : stage.Doing c s (goto i cfg stage u) := by
  cases stage with
  | uploading rec rest stage =>
    refine ⟨h.1, h.2.1, h.2.2.1, ?_⟩
    have hfits := h.2.2.2
    cases stage <;> exact hfits
  | _ => exact h

theorem step_going {c : Settings} {s u v : Installation} {i : Nat} {a : Label}
    (h : Going c s i u) (haccept : Accepted i u a) (hstep : step c u a = some v) :
    Going c s i v := by
  obtain ⟨hsince, cycle, hcycle, hdoing⟩ := h
  cases a with
  | advance j answer =>
    obtain ⟨rfl, haccept⟩ := haccept
    rw [hcycle, Option.any_some] at haccept
    rw [step, hcycle, Option.bind_some] at hstep
    cases cycle with
    | skipped => cases hstep
    | configuring =>
      have hset : ∀ new, (u.cycles.set j new)[j]? = some new := getElem?_set_at hcycle
      simp only [advance] at hstep
      unfold configure at hstep
      split at hstep
      · cases hstep
        exact ⟨⟨hsince.policy, hsince.rows, hsince.files⟩, .skipped, hset _, hdoing⟩
      · split at hstep
        · cases hstep
          exact ⟨⟨hsince.policy, hsince.rows, hsince.files⟩, .skipped, hset _, hdoing⟩
        · next cfg _ =>
          cases hstep
          exact ⟨⟨hsince.policy, hsince.rows, hsince.files⟩, .running cfg .planning, hset _,
            hdoing⟩
      · cases hstep
    | running cfg stage =>
      obtain ⟨⟨effect, stage'⟩, hturn, rfl⟩ := Option.map_eq_some_iff.mp hstep
      obtain ⟨hbacked, hnext⟩ := turn_doing hsince haccept hdoing hturn
      have happly := hsince.apply hbacked
      refine ⟨⟨happly.policy, happly.rows, happly.files⟩, .running cfg stage', ?_,
        goto_doing hnext⟩
      have hsame : (effect.apply u).cycles[j]? = some (.running cfg stage) := by
        rw [apply_cycles, hcycle]
      exact getElem?_set_at hsame _
  | call | crash | setPolicy | provision | write | record => cases haccept

theorem runOnce_going {c : Settings} {s t : Installation} (h : RunOnce c s t) :
    Since c s t ∧ Marks c s t [] := by
  obtain ⟨hidle, ⟨s', hcall, hpath⟩, cfg, hreturned⟩ := h
  rw [step, if_neg (by rw [hidle]; exact Bool.false_ne_true)] at hcall
  cases hcall
  have hbegin : Going c s s.cycles.length { s with cycles := s.cycles ++ [.configuring] } :=
    ⟨⟨rfl, (Since.refl c s).rows, fun _ => .inl rfl⟩, .configuring, List.getElem?_concat_length,
      rfl, rfl⟩
  obtain ⟨hsince, cycle, hcycle, hdoing⟩ := hpath.invariant
    (I := Going c s s.cycles.length) (fun _ _ _ hi hg hs => step_going hi hg hs) hbegin
  rw [hreturned] at hcycle
  cases hcycle
  exact ⟨hsince, hdoing⟩

/-- **What a cycle uploads**: of its batch, what has content. -/
theorem runOnce_uploads {c : Settings} {s t : Installation} (h : RunOnce c s t)
    (hr : r ∈ s.table.rows) (hkey : r.cloudKey = none) :
    Uploaded t.table r.id ↔ r ∈ lote c s ∧ hasContent c s r = true := by
  rw [(runOnce_going h).2 r hr hkey]
  exact and_congr_right fun _ => and_iff_left List.not_mem_nil

/-! ## A cycle comes to its end -/

/-- The cycle can go on to its end, with answers it accepts. -/
def Returns (c : Settings) (i : Nat) (cfg : CloudStorageConfig) (u : Installation) : Prop :=
  ∃ t, Path (offload c) (Accepted i) u t ∧ t.cycles[i]? = some (.running cfg .returned) ∧
    t.running = false ∧ t.storage = u.storage

section Returns

variable {c : Settings} {i : Nat} {cfg : CloudStorageConfig} {u : Installation}

theorem apply_storage (s : Installation) (effect : Effect) :
    (effect.apply s).storage = s.storage := by
  cases effect <;> rfl

theorem returns_of_turn {stage stage' : Stage} (answer : Answer)
    (hcycle : u.cycles[i]? = some (.running cfg stage)) (haccept : accepts stage answer = true)
    (hturn : turn c u cfg stage answer = some (effect, stage'))
    (hnext : ∀ v, v.cycles[i]? = some (.running cfg stage') →
      (stage' = .returned → v.running = false) → Returns c i cfg v) : Returns c i cfg u := by
  have hsame : (effect.apply u).cycles[i]? = some (.running cfg stage) := by
    rw [apply_cycles, hcycle]
  obtain ⟨t, hpath, hreturned, hidle, hstorage⟩ := hnext (goto i cfg stage' (effect.apply u))
    (getElem?_set_at hsame _) (fun h => by rw [h]; exact Bool.and_false _)
  have hguard : Accepted i u (.advance i answer) := by
    refine ⟨rfl, ?_⟩
    rw [hcycle, Option.any_some]
    exact haccept
  have hstep : (offload c).step u (.advance i answer) =
      some (goto i cfg stage' (effect.apply u)) := by
    show step c u (.advance i answer) = _
    rw [step, hcycle, Option.bind_some, advance, hturn]
    rfl
  have hfirst := Path.tail (M := offload c) (.refl u) hguard hstep
  refine ⟨t, hfirst.trans hpath, hreturned, hidle, hstorage.trans ?_⟩
  exact apply_storage u effect

theorem returns_of_returned {v : Installation}
    (hcycle : v.cycles[i]? = some (.running cfg .returned)) (hidle : v.running = false) :
    Returns c i cfg v :=
  ⟨v, .refl v, hcycle, hidle, rfl⟩

theorem returns_nextPrune : ∀ (recs : List Recording) (u : Installation),
    u.cycles[i]? = some (.running cfg (nextPrune c recs)) →
    (nextPrune c recs = .returned → u.running = false) → Returns c i cfg u
  | [], _, hcycle, hidle => returns_of_returned hcycle (hidle rfl)
  | rec :: rest, u, hcycle, hidle => by
    rw [nextPrune] at hcycle hidle
    split at hcycle
    · exact returns_nextPrune rest u hcycle (by simpa only [*] using hidle)
    · refine returns_of_turn .ok hcycle rfl rfl (fun v hv _ => ?_)
      exact returns_of_turn (.time 0) hv rfl rfl (returns_nextPrune rest)

theorem returns_pruning (u : Installation) (hcycle : u.cycles[i]? = some (.running cfg .pruning)) :
    Returns c i cfg u := by
  by_cases hkeep : u.policy.keepLocalCopy = true ∧ ¬cfg.mode = .mount
  · refine returns_of_turn (.time 0) hcycle rfl (by rw [turn, if_pos hkeep]) (fun v hv hidle => ?_)
    exact returns_of_returned hv (hidle rfl)
  · refine returns_of_turn (.time 0) hcycle rfl (by rw [turn, if_neg hkeep]) (fun v hv _ => ?_)
    exact returns_of_turn .ok hv rfl rfl (returns_nextPrune _)

section Upload

variable {rec : Recording} {rest : List Recording}
  (hrest : ∀ v, v.cycles[i]? = some (.running cfg (nextUpload c rest)) → Returns c i cfg v)
include hrest

theorem returns_confirming (u : Installation)
    (hcycle : u.cycles[i]? = some (.running cfg (.uploading rec rest .confirming))) :
    Returns c i cfg u := by
  by_cases hfound : (u.bucket (c.fullKey (buildCloudKey rec))).isSome = true
  · have hturn : turn c u cfg (.uploading rec rest .confirming) .ok =
        some (.nothing, .uploading rec rest .marking) := by
      simp only [turn, turnUpload, if_pos hfound]
      rfl
    refine returns_of_turn .ok hcycle rfl hturn (fun v hv _ => ?_)
    exact returns_of_turn (.time 0) hv rfl rfl (fun w hw _ => hrest w hw)
  · have hturn : turn c u cfg (.uploading rec rest .confirming) .ok =
        some (.nothing, nextUpload c rest) := by
      simp only [turn, turnUpload, if_neg hfound]
      rfl
    exact returns_of_turn .ok hcycle rfl hturn (fun v hv _ => hrest v hv)

theorem returns_sent {stage : UploadStage} (answer : Answer) (u : Installation)
    (hcycle : u.cycles[i]? = some (.running cfg (.uploading rec rest stage)))
    (haccept : accepts (.uploading rec rest stage) answer = true)
    (hturn : turn c u cfg (.uploading rec rest stage) answer =
      some (effect, .uploading rec rest .confirming)) : Returns c i cfg u :=
  returns_of_turn answer hcycle haccept hturn (fun v hv _ => returns_confirming hrest v hv)

/-- Each part that is sent leaves less of the file. -/
theorem returns_readingPart (tamanho offset : Nat) (sent : Bytes) (u : Installation)
    (hcycle : u.cycles[i]? =
      some (.running cfg (.uploading rec rest (.readingPart tamanho offset sent)))) :
    Returns c i cfg u := by
  induction hleft : tamanho - offset using Nat.strong_induction_on generalizing offset sent u with
  | h left ih =>
    refine returns_of_turn (.bytes []) hcycle rfl rfl (fun v hv _ => ?_)
    have hturn : turn c v cfg (.uploading rec rest (.sendingPart tamanho offset sent
        (partBuffer (min partSize (tamanho - offset)) []))) .ok =
        some (.nothing, .uploading rec rest
          (if offset + min partSize (tamanho - offset) < tamanho then
            .readingPart tamanho (offset + min partSize (tamanho - offset))
              (sent ++ partBuffer (min partSize (tamanho - offset)) [])
          else .completing (sent ++ partBuffer (min partSize (tamanho - offset)) []))) := rfl
    refine returns_of_turn .ok hv rfl hturn (fun w hw _ => ?_)
    split at hw
    · next hmore =>
      have hpart : 0 < partSize := by decide
      exact ih _ (by omega) _ _ w hw rfl
    · exact returns_sent hrest (.stores (some 0) true) w hw rfl rfl

theorem returns_sizing (caminho : Path) (u : Installation)
    (hcycle : u.cycles[i]? = some (.running cfg (.uploading rec rest (.sizing caminho)))) :
    Returns c i cfg u := by
  have hskip : turnUpload c u rec (.sizing caminho) .ok = some (.nothing, none) →
      Returns c i cfg u := by
    intro h
    have hturn : turn c u cfg (.uploading rec rest (.sizing caminho)) .ok =
        some (.nothing, nextUpload c rest) := by
      rw [turn, h]
      rfl
    exact returns_of_turn .ok hcycle rfl hturn (fun v hv _ => hrest v hv)
  have hgo : ∀ stage, turnUpload c u rec (.sizing caminho) .ok = some (.nothing, some stage) →
      turn c u cfg (.uploading rec rest (.sizing caminho)) .ok =
        some (.nothing, .uploading rec rest stage) := by
    intro stage h
    rw [turn, h]
    rfl
  cases hfile : u.files caminho with
  | none => exact hskip (by simp only [turnUpload, hfile])
  | some content =>
    by_cases hempty : content.length = 0
    · exact hskip (by simp only [turnUpload, hfile, if_pos hempty])
    · by_cases hlarge : content.length > maxSinglePutBytes
      · have hturn := hgo (.initiating content.length)
          (by simp only [turnUpload, hfile, if_neg hempty, if_pos hlarge])
        refine returns_of_turn .ok hcycle rfl hturn (fun v hv _ => ?_)
        exact returns_of_turn .ok hv rfl rfl (fun w hw _ => returns_readingPart hrest _ _ _ w hw)
      · have hturn := hgo .reading
          (by simp only [turnUpload, hfile, if_neg hempty, if_neg hlarge])
        refine returns_of_turn .ok hcycle rfl hturn (fun v hv _ => ?_)
        refine returns_of_turn (.bytes content) hv rfl rfl (fun w hw _ => ?_)
        exact returns_sent hrest (.stores (some content.length) true) w hw rfl rfl

end Upload

theorem returns_nextUpload : ∀ (recs : List Recording) (u : Installation),
    u.cycles[i]? = some (.running cfg (nextUpload c recs)) → Returns c i cfg u
  | [], u, hcycle => returns_pruning u hcycle
  | rec :: rest, u, hcycle => by
    rw [nextUpload] at hcycle
    split at hcycle
    · exact returns_nextUpload rest u hcycle
    · exact returns_sizing (returns_nextUpload rest) _ u hcycle

end Returns

theorem returns_planning {c : Settings} {i : Nat} {cfg : CloudStorageConfig} (u : Installation)
    (hcycle : u.cycles[i]? = some (.running cfg .planning)) : Returns c i cfg u := by
  have hturn : turn c u cfg .planning .ok = some (.nothing,
      if !u.policy.enabled || (enabledTriggerModes u.policy).isEmpty then .pruning
      else .listing (enabledTriggerModes u.policy)) := rfl
  refine returns_of_turn .ok hcycle rfl hturn (fun v hv _ => ?_)
  split at hv
  · exact returns_pruning v hv
  · exact returns_of_turn .ok hv rfl rfl (fun w hw _ => returns_nextUpload _ w hw)

/-- Where storage is provisioned, a cycle can be run, and then the next one. -/
theorem runOnce_total (c : Settings) {s : Installation} (hidle : s.running = false)
    (hstorage : s.storage.isSome = true) :
    ∃ t, RunOnce c s t ∧ t.running = false ∧ t.storage.isSome = true := by
  obtain ⟨cfg, hcfg⟩ := Option.isSome_iff_exists.mp hstorage
  obtain ⟨called, hcalled⟩ : ∃ called : Installation,
      called = { s with cycles := s.cycles ++ [Cycle.configuring] } := ⟨_, rfl⟩
  have hcall : step c s .call = some called := by
    rw [step, if_neg (by rw [hidle]; exact Bool.false_ne_true), hcalled]
  have hcycle : called.cycles[s.cycles.length]? = some .configuring := by
    rw [hcalled]
    exact List.getElem?_concat_length
  have hconfigured : step c called (.advance s.cycles.length .ok) = some { called with
      running := true
      cycles := called.cycles.set s.cycles.length (.running cfg .planning) } := by
    have hsame : called.storage = some cfg := by
      rw [hcalled]
      exact hcfg
    simp only [step, hcycle, Option.bind_some, advance, configure, hsame]
  obtain ⟨t, hpath, hreturned, hfree, hsame⟩ := returns_planning (c := c)
    { called with
      running := true
      cycles := called.cycles.set s.cycles.length (.running cfg .planning) }
    (getElem?_set_at hcycle _)
  have hguard : Accepted s.cycles.length called (.advance s.cycles.length .ok) :=
    ⟨rfl, by rw [hcycle]; rfl⟩
  have hfirst := Path.tail (M := offload c) (.refl called) hguard hconfigured
  refine ⟨t, ⟨hidle, ⟨called, hcall, hfirst.trans hpath⟩, cfg, hreturned⟩, hfree, ?_⟩
  rw [hsame, hcalled]
  exact hstorage

end Drac.CloudStorage
