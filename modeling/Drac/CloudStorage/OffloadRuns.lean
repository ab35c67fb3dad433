import Drac.CloudStorage.Offload

/-
  A local file goes only after its full copy is in the bucket.

  The HEAD after an upload asks whether the object is there, not how long it is, and
  nothing looks at the bucket again before `unlink`. So a server that keeps half of what
  it was sent and says that it is fine costs the recording (`unlink_after_short_put`).

  `Verified` is what the code leaves to chance: an object the HEAD finds is as long as
  the file, and once it is confirmed neither the file nor the object changes its length.
  In every run whose steps meet it, whatever policies, modes, crashes and cycles running
  side by side, no file goes without its copy (`unlink_after_copy`). `confirmed` lists the
  copies that must not change; it grows only at the HEAD (`turn_confirmed`).
-/

namespace Drac.CloudStorage

open PosixPath Runs

/-! ## The property and the condition -/

/-- The bucket holds `length` bytes under the key of the recording whose file is there. -/
def HasCopy (c : Settings) (s : Installation) (caminho : Path) (length : Nat) : Prop :=
  ∃ r ∈ s.table.rows, ensureFileUnderRoot c.recordingsRoot r.filePath = some caminho ∧
    ∃ key object, r.cloudKey = some key ∧ s.bucket (c.fullKey key) = some object ∧
      object.length = length

/-- What went from the disk was in the bucket, in its full length. -/
def CopiedFirst (c : Settings) (s t : Installation) : Prop :=
  ∀ caminho content, s.files caminho = some content → t.files caminho = none →
    HasCopy c s caminho content.length

def Cycle.claim : Cycle → Option (Text × Text)
  | .running _ (.uploading rec _ .marking) => some (rec.filePath, buildCloudKey rec)
  | _ => none

def Installation.confirmed (s : Installation) : List (Text × Text) :=
  s.table.rows.filterMap (fun r => r.cloudKey.map (r.filePath, ·)) ++
    s.cycles.filterMap Cycle.claim

def sameSize (c : Settings) (files : Path → Option Bytes) (bucket : Text → Option Bytes)
    (e : Text × Text) : Bool :=
  ((ensureFileUnderRoot c.recordingsRoot e.1).bind files).all (fun content =>
    (bucket (c.fullKey e.2)).any (fun object => object.length = content.length))

def UploadStage.payload : UploadStage → Option Bytes
  | .putting conteudo => some conteudo
  | .completing sent => some sent
  | _ => none

/-- An object found is as long as the file; one that is stored leaves every confirmed copy
as long as its file. -/
def verifiedAnswer (c : Settings) (s : Installation) : Answer → Cycle → Bool
  | .ok, .running _ (.uploading rec _ .confirming) =>
    (s.bucket (c.fullKey (buildCloudKey rec))).isNone ||
      sameSize c s.files s.bucket (rec.filePath, buildCloudKey rec)
  | .stores (some length) _, .running _ (.uploading rec _ stage) =>
    stage.payload.all (fun data => s.confirmed.all (sameSize c s.files
      (Function.update s.bucket (c.fullKey (buildCloudKey rec)) (some (data.take length)))))
  | _, _ => true

/-- The condition on a step: on an answer of the server, and on a change of a file. -/
def verified (c : Settings) (s : Installation) : Label → Bool
  | .advance i answer => (s.cycles[i]?).all (verifiedAnswer c s answer)
  | .write caminho content =>
    s.confirmed.all (sameSize c (Function.update s.files caminho content) s.bucket)
  | _ => true

def Verified (c : Settings) (s : Installation) (a : Label) : Prop := verified c s a = true

variable {s : Installation}

theorem mem_confirmed {e : Text × Text} :
    e ∈ s.confirmed ↔ (∃ r ∈ s.table.rows, r.cloudKey = some e.2 ∧ r.filePath = e.1) ∨
      ∃ cycle ∈ s.cycles, cycle.claim = some e := by
  unfold Installation.confirmed
  rw [List.mem_append, List.mem_filterMap, List.mem_filterMap]
  apply or_congr_left
  constructor
  · rintro ⟨r, hr, he⟩
    obtain ⟨key, hkey, rfl⟩ := Option.map_eq_some_iff.mp he
    exact ⟨r, hr, hkey, rfl⟩
  · rintro ⟨r, hr, hkey, hpath⟩
    exact ⟨r, hr, by rw [hkey, Option.map_some, hpath]⟩

variable {c : Settings}

theorem sameSize_iff {files : Path → Option Bytes} {bucket : Text → Option Bytes}
    {e : Text × Text} : sameSize c files bucket e = true ↔
      ∀ caminho content, ensureFileUnderRoot c.recordingsRoot e.1 = some caminho →
        files caminho = some content →
        ∃ object, bucket (c.fullKey e.2) = some object ∧ object.length = content.length := by
  unfold sameSize
  simp only [Option.all_eq_true, Option.bind_eq_some_iff, Option.any_eq_true, decide_eq_true_eq]
  constructor
  · intro h caminho content hpath hfile
    exact h content ⟨caminho, hpath, hfile⟩
  · rintro h content ⟨caminho, hpath, hfile⟩
    exact h caminho content hpath hfile

theorem sameSize_unlink {files : Path → Option Bytes}
    {bucket : Text → Option Bytes} {e : Text × Text} (caminho : Path)
    (h : sameSize c files bucket e = true) :
    sameSize c (Function.update files caminho none) bucket e = true := by
  rw [sameSize_iff] at h ⊢
  intro p content hpath hfile
  rw [Function.update_apply] at hfile
  split at hfile
  · cases hfile
  · exact h p content hpath hfile

/-! ## What a step of a cycle does -/

variable {answer : Answer}

theorem turnUpload_cases {rec : Recording} {stage : UploadStage}
    {effect : Effect} {next : Option UploadStage}
    (h : turnUpload c s rec stage answer = some (effect, next)) :
    (effect = .nothing ∧ next ≠ some .marking) ∨
    (effect = .nothing ∧ stage = .confirming ∧ answer = .ok ∧
      (s.bucket (c.fullKey (buildCloudKey rec))).isSome = true) ∨
    (next ≠ some .marking ∧ ∃ data length ok, stage.payload = some data ∧
      answer = .stores length ok ∧ effect = stored (c.fullKey (buildCloudKey rec)) data length) ∨
    (next = none ∧ stage = .marking ∧
      ∃ now, effect = .markUploaded rec.id (buildCloudKey rec) now) := by
  unfold turnUpload at h
  split at h
  case h_1 => cases h; exact .inl ⟨rfl, nofun⟩
  case h_2 =>
    left
    split at h
    · cases h; exact ⟨rfl, nofun⟩
    · split at h
      · cases h; exact ⟨rfl, nofun⟩
      · split at h <;> (cases h; exact ⟨rfl, nofun⟩)
  case h_3 => cases h; exact .inl ⟨rfl, nofun⟩
  case h_4 conteudo length ok =>
    cases h
    exact .inr (.inr (.inl ⟨by split <;> nofun, conteudo, length, ok, rfl, rfl, rfl⟩))
  case h_5 => cases h; exact .inl ⟨rfl, nofun⟩
  case h_6 => cases h; exact .inl ⟨rfl, nofun⟩
  case h_7 =>
    cases h
    exact .inl ⟨rfl, by split <;> nofun⟩
  case h_8 sent length ok =>
    cases h
    exact .inr (.inr (.inl ⟨by split <;> nofun, sent, length, ok, rfl, rfl, rfl⟩))
  case h_9 =>
    cases h
    by_cases hfound : (s.bucket (c.fullKey (buildCloudKey rec))).isSome = true
    · exact .inr (.inl ⟨rfl, rfl, rfl, hfound⟩)
    · exact .inl ⟨rfl, by rw [if_neg hfound]; nofun⟩
  case h_10 now => cases h; exact .inr (.inr (.inr ⟨rfl, rfl, now, rfl⟩))
  case h_11 => cases h

/-- A row of the table stands for the recording a cycle holds. -/
def Known (t : RecordingTable) (rec : Recording) : Prop :=
  ∃ r ∈ t.rows, r.id = rec.id ∧ r.filePath = rec.filePath

/-- The row of the recording says where its copy is. -/
def Marked (t : RecordingTable) (rec : Recording) : Prop :=
  ∃ r ∈ t.rows, r.id = rec.id ∧ r.filePath = rec.filePath ∧ r.cloudKey.isSome = true

/-- What a cycle holds is in the table; what it is about to unlink is marked there. -/
def Stage.Sound (c : Settings) (t : RecordingTable) : Stage → Prop
  | .uploading rec rest _ => ∀ r ∈ rec :: rest, Known t r
  | .unlinking rec caminho rest =>
    ensureFileUnderRoot c.recordingsRoot rec.filePath = some caminho ∧
      ∀ r ∈ rec :: rest, Marked t r
  | .markingDeleted _ rest => ∀ r ∈ rest, Marked t r
  | _ => True

def Cycle.Sound (c : Settings) (t : RecordingTable) : Cycle → Prop
  | .running _ stage => stage.Sound c t
  | _ => True

/-- Rows stay, with their id and path, and what is marked stays marked. -/
def Extends (t t' : RecordingTable) : Prop :=
  ∀ r ∈ t.rows, ∃ r' ∈ t'.rows, r'.id = r.id ∧ r'.filePath = r.filePath ∧
    (r.cloudKey.isSome = true → r'.cloudKey.isSome = true)

theorem Extends.refl (t : RecordingTable) : Extends t t :=
  fun r hr => ⟨r, hr, rfl, rfl, id⟩

variable {t : RecordingTable}

theorem extends_update {id : Text} (data : Recording → Recording)
    (hid : ∀ r, (data r).id = r.id) (hpath : ∀ r, (data r).filePath = r.filePath)
    (hkey : ∀ r, r.cloudKey.isSome = true → (data r).cloudKey.isSome = true) :
    Extends t (t.update id data hid) := by
  intro r hr
  refine ⟨if r.id = id then data r else r, List.mem_map_of_mem hr, ?_⟩
  split
  · exact ⟨hid r, hpath r, hkey r⟩
  · exact ⟨rfl, rfl, fun h => h⟩

theorem extends_apply (s : Installation) (effect : Effect) :
    Extends s.table (effect.apply s).table := by
  cases effect with
  | nothing | store | unlink => exact Extends.refl _
  | markUploaded id key now =>
    exact extends_update (fun r => { r with cloudKey := some key, cloudUploadedAt := some now })
      (fun _ => rfl) (fun _ => rfl) (fun _ _ => rfl)
  | markDeleted id now =>
    exact extends_update (fun r => { r with localDeletedAt := some now })
      (fun _ => rfl) (fun _ => rfl) (fun _ h => h)

variable {t' : RecordingTable}

theorem extends_record {r : Recording} (h : t.record r = some t') :
    Extends t t' := by
  unfold RecordingTable.record at h
  split at h
  · cases h
  · cases h
    intro r hr
    exact ⟨r, List.mem_append_left _ hr, rfl, rfl, id⟩

theorem Known.mono (h : Extends t t') {rec : Recording}
    (k : Known t rec) : Known t' rec := by
  obtain ⟨r, hr, hid, hpath⟩ := k
  obtain ⟨r', hr', hid', hpath', -⟩ := h r hr
  exact ⟨r', hr', hid'.trans hid, hpath'.trans hpath⟩

theorem Marked.mono (h : Extends t t') {rec : Recording}
    (k : Marked t rec) : Marked t' rec := by
  obtain ⟨r, hr, hid, hpath, hkey⟩ := k
  obtain ⟨r', hr', hid', hpath', hkey'⟩ := h r hr
  exact ⟨r', hr', hid'.trans hid, hpath'.trans hpath, hkey' hkey⟩

variable {stage : Stage}

theorem Stage.Sound.mono (h : Extends t t')
    (k : stage.Sound c t) : stage.Sound c t' := by
  cases stage with
  | uploading => exact fun r hr => (k r hr).mono h
  | unlinking => exact ⟨k.1, fun r hr => (k.2 r hr).mono h⟩
  | markingDeleted => exact fun r hr => (k r hr).mono h
  | planning | listing | pruning | selecting | returned => trivial

theorem Cycle.Sound.mono (h : Extends t t') {cycle : Cycle}
    (k : cycle.Sound c t) : cycle.Sound c t' := by
  cases cycle with
  | running => exact Stage.Sound.mono h k
  | configuring | skipped => trivial

theorem nextUpload_sound (c : Settings) :
    ∀ recs : List Recording, (∀ r ∈ recs, Known t r) → (nextUpload c recs).Sound c t
  | [], _ => trivial
  | rec :: rest, h => by
    unfold nextUpload
    split
    · exact nextUpload_sound c rest (fun r hr => h r (List.mem_cons_of_mem rec hr))
    · exact h

theorem nextPrune_sound (c : Settings) :
    ∀ recs : List Recording, (∀ r ∈ recs, Marked t r) → (nextPrune c recs).Sound c t
  | [], _ => trivial
  | rec :: rest, h => by
    unfold nextPrune
    split
    · exact nextPrune_sound c rest (fun r hr => h r (List.mem_cons_of_mem rec hr))
    · next caminho hpath => exact ⟨hpath, h⟩

variable {stage' : Stage}

theorem turn_sound {cfg : CloudStorageConfig}
    {effect : Effect}
    (h : turn c s cfg stage answer = some (effect, stage')) (hs : stage.Sound c s.table) :
    stage'.Sound c s.table := by
  have hpend : ∀ tipos, (nextUpload c (pendentes c.batch tipos s.table)).Sound c s.table :=
    fun tipos => nextUpload_sound c _ fun r hr => ⟨r, mem_pendentes hr, rfl, rfl⟩
  have hcand : ∀ corte, (nextPrune c (candidatas corte s.table)).Sound c s.table :=
    fun corte => nextPrune_sound c _ fun r hr =>
      ⟨r, (mem_candidatas hr).1, rfl, rfl, (mem_candidatas hr).2⟩
  unfold turn at h
  split at h
  case h_1 => cases h; split <;> trivial
  case h_2 => cases h; exact hpend _
  case h_3 answer rec rest stage =>
    obtain ⟨r, -, heq⟩ := Option.map_eq_some_iff.mp h
    cases heq
    cases hnext : r.2 with
    | none => exact nextUpload_sound c rest (fun x hx => hs x (List.mem_cons_of_mem rec hx))
    | some next => exact hs
  case h_4 => cases h; split <;> trivial
  case h_5 => cases h; exact hcand _
  case h_6 rec caminho rest =>
    cases h
    exact fun x hx => hs.2 x (List.mem_cons_of_mem rec hx)
  case h_7 rec caminho rest =>
    cases h
    exact nextPrune_sound c rest (fun x hx => hs.2 x (List.mem_cons_of_mem rec hx))
  case h_8 rec rest now => cases h; exact nextPrune_sound c rest hs
  case h_9 => cases h
  case h_10 => cases h; trivial
  case h_11 => cases h

theorem nextUpload_claim (c : Settings) (cfg : CloudStorageConfig) :
    ∀ recs : List Recording, (Cycle.running cfg (nextUpload c recs)).claim = none
  | [] => rfl
  | rec :: rest => by
    unfold nextUpload
    split
    · exact nextUpload_claim c cfg rest
    · rfl

theorem nextPrune_claim (c : Settings) (cfg : CloudStorageConfig) :
    ∀ recs : List Recording, (Cycle.running cfg (nextPrune c recs)).claim = none
  | [] => rfl
  | rec :: rest => by
    unfold nextPrune
    split
    · exact nextPrune_claim c cfg rest
    · rfl

/-- What a step of a cycle comes to, for the copies that are confirmed. -/
inductive Turn (c : Settings) (s : Installation) (cfg : CloudStorageConfig) :
    Stage → Answer → Effect → Stage → Prop where
  | quiet {stage answer effect stage'} (hclaim : (Cycle.running cfg stage').claim = none)
      (heffect : effect = .nothing ∨ (∃ caminho, effect = .unlink caminho) ∨
        ∃ id now, effect = .markDeleted id now) : Turn c s cfg stage answer effect stage'
  | found {rec rest} (hobject : (s.bucket (c.fullKey (buildCloudKey rec))).isSome = true) :
      Turn c s cfg (.uploading rec rest .confirming) .ok .nothing (.uploading rec rest .marking)
  | sent {rec rest stage data length ok stage'} (hpayload : UploadStage.payload stage = some data)
      (hclaim : (Cycle.running cfg stage').claim = none) :
      Turn c s cfg (.uploading rec rest stage) (.stores length ok)
        (stored (c.fullKey (buildCloudKey rec)) data length) stage'
  | marked {rec rest answer now stage'} (hclaim : (Cycle.running cfg stage').claim = none) :
      Turn c s cfg (.uploading rec rest .marking) answer
        (.markUploaded rec.id (buildCloudKey rec) now) stage'

theorem uploading_claim (c : Settings) (cfg : CloudStorageConfig) (rec : Recording)
    (rest : List Recording) {next : Option UploadStage} (h : next ≠ some .marking) :
    (Cycle.running cfg ((next.map (.uploading rec rest ·)).getD (nextUpload c rest))).claim =
      none := by
  cases next with
  | none => exact nextUpload_claim c cfg rest
  | some stage =>
    cases stage with
    | marking => exact absurd rfl h
    | _ => rfl

theorem turn_cases {cfg : CloudStorageConfig}
    {effect : Effect}
    (h : turn c s cfg stage answer = some (effect, stage')) :
    Turn c s cfg stage answer effect stage' := by
  unfold turn at h
  split at h
  case h_1 => cases h; exact .quiet (by split <;> rfl) (.inl rfl)
  case h_2 => cases h; exact .quiet (nextUpload_claim c cfg _) (.inl rfl)
  case h_3 answer rec rest stage =>
    obtain ⟨⟨effect, next⟩, hupload, heq⟩ := Option.map_eq_some_iff.mp h
    cases heq
    rcases turnUpload_cases hupload with hquiet | hfound | hsent | hmarked
    · exact .quiet (uploading_claim c cfg rec rest hquiet.2) (.inl hquiet.1)
    · obtain ⟨rfl, rfl, rfl, hobject⟩ := hfound
      simp only [turnUpload, if_pos hobject, Option.some.injEq, Prod.mk.injEq] at hupload
      rw [← hupload.2]
      exact .found hobject
    · obtain ⟨hnext, data, length, ok, hpayload, rfl, rfl⟩ := hsent
      exact .sent hpayload (uploading_claim c cfg rec rest hnext)
    · obtain ⟨rfl, rfl, now, rfl⟩ := hmarked
      exact .marked (nextUpload_claim c cfg rest)
  case h_4 => cases h; exact .quiet (by split <;> rfl) (.inl rfl)
  case h_5 => cases h; exact .quiet (nextPrune_claim c cfg _) (.inl rfl)
  case h_6 caminho rest => cases h; exact .quiet rfl (.inr (.inl ⟨_, rfl⟩))
  case h_7 => cases h; exact .quiet (nextPrune_claim c cfg _) (.inl rfl)
  case h_8 => cases h; exact .quiet (nextPrune_claim c cfg _) (.inr (.inr ⟨_, _, rfl⟩))
  case h_9 => cases h
  case h_10 => cases h; exact .quiet rfl (.inl rfl)
  case h_11 => cases h

/-! ## The confirmed copies -/

theorem apply_cycles (s : Installation) (effect : Effect) :
    (effect.apply s).cycles = s.cycles := by
  cases effect <;> rfl

theorem apply_key {effect : Effect} {r : Recording} {key : Text}
    (hr : r ∈ (effect.apply s).table.rows) (hkey : r.cloudKey = some key) :
    (r.filePath, key) ∈ s.confirmed ∨
      ∃ r₀ ∈ s.table.rows, r₀.filePath = r.filePath ∧
        ∃ now, effect = .markUploaded r₀.id key now := by
  have hkeep : ∀ r₀ ∈ s.table.rows, r₀.cloudKey = some key → (r₀.filePath, key) ∈ s.confirmed :=
    fun r₀ hr₀ hkey₀ => mem_confirmed.mpr (.inl ⟨r₀, hr₀, hkey₀, rfl⟩)
  cases effect with
  | nothing | store | unlink => exact .inl (hkeep r hr hkey)
  | markDeleted id now =>
    obtain ⟨r₀, hr₀, rfl⟩ := List.mem_map.mp hr
    left
    split at hkey
    · next hid => rw [if_pos hid]; exact hkeep r₀ hr₀ hkey
    · next hid => rw [if_neg hid]; exact hkeep r₀ hr₀ hkey
  | markUploaded id key' now =>
    obtain ⟨r₀, hr₀, rfl⟩ := List.mem_map.mp hr
    split at hkey
    · next hid =>
      rw [if_pos hid]
      right
      have heq : key' = key := Option.some.inj hkey
      exact ⟨r₀, hr₀, rfl, now, by rw [hid, heq]⟩
    · next hid => rw [if_neg hid]; exact .inl (hkeep r₀ hr₀ hkey)

theorem turn_confirmed {i : Nat} {cfg : CloudStorageConfig}
    {effect : Effect} {e : Text × Text}
    (hget : s.cycles[i]? = some (.running cfg stage)) (hsound : stage.Sound c s.table)
    (h : Turn c s cfg stage answer effect stage')
    (he : e ∈ (goto i cfg stage' (effect.apply s)).confirmed) :
    e ∈ s.confirmed ∨ (effect = .nothing ∧ answer = .ok ∧ ∃ rec rest,
      stage = .uploading rec rest .confirming ∧ e = (rec.filePath, buildCloudKey rec) ∧
      (s.bucket (c.fullKey (buildCloudKey rec))).isSome = true) := by
  have hmem := List.mem_of_getElem? hget
  rcases mem_confirmed.mp he with hrow | hcycle
  · obtain ⟨r, hr, hkey, hpath⟩ := hrow
    left
    rcases apply_key hr hkey with hold | hmark
    · rw [hpath] at hold
      exact hold
    · obtain ⟨r₀, hr₀, hpath₀, now, heffect⟩ := hmark
      cases h with
      | quiet _ hquiet =>
        rw [heffect] at hquiet
        rcases hquiet with heq | ⟨_, heq⟩ | ⟨_, _, heq⟩ <;> cases heq
      | found => cases heffect
      | @sent _ _ _ _ length => cases length <;> cases heffect
      | @marked rec rest answer =>
        rw [Effect.markUploaded.injEq] at heffect
        obtain ⟨r₁, hr₁, hid₁, hpath₁⟩ := hsound rec List.mem_cons_self
        have hsame := s.table.eq_of_id hr₀ hr₁ (heffect.1.symm.trans hid₁.symm)
        apply mem_confirmed.mpr
        right
        refine ⟨_, hmem, ?_⟩
        show some (rec.filePath, buildCloudKey rec) = some e
        rw [← hpath₁, ← hsame, hpath₀, hpath, heffect.2.1]
  · obtain ⟨cycle, hcycle, hclaim⟩ := hcycle
    have hset : cycle ∈ s.cycles.set i (.running cfg stage') := by
      rw [← apply_cycles s effect]
      exact hcycle
    rcases List.mem_or_eq_of_mem_set hset with hold | rfl
    · exact .inl (mem_confirmed.mpr (.inr ⟨cycle, hold, hclaim⟩))
    · cases h with
      | quiet hnone | sent _ hnone | marked hnone => rw [hnone] at hclaim; cases hclaim
      | found hobject =>
        cases hclaim
        exact .inr ⟨rfl, rfl, _, _, rfl, rfl, hobject⟩

/-- Every cycle holds rows of the table, and every confirmed copy is as long as its file. -/
structure Confirmed (c : Settings) (s : Installation) : Prop where
  sound : ∀ cycle ∈ s.cycles, cycle.Sound c s.table
  sizes : ∀ e ∈ s.confirmed, sameSize c s.files s.bucket e = true

theorem turn_keeps {i : Nat} {cfg : CloudStorageConfig}
    {effect : Effect}
    (hs : Confirmed c s) (hget : s.cycles[i]? = some (.running cfg stage))
    (hguard : verifiedAnswer c s answer (.running cfg stage) = true)
    (h : turn c s cfg stage answer = some (effect, stage')) :
    Confirmed c (goto i cfg stage' (effect.apply s)) := by
  have hsound : stage.Sound c s.table := hs.sound _ (List.mem_of_getElem? hget)
  have hcases := turn_cases h
  constructor
  · intro cycle hcycle
    have hset : cycle ∈ s.cycles.set i (.running cfg stage') := by
      rw [← apply_cycles s effect]
      exact hcycle
    rcases List.mem_or_eq_of_mem_set hset with hold | rfl
    · exact (hs.sound cycle hold).mono (extends_apply s effect)
    · exact (turn_sound h hsound).mono (extends_apply s effect)
  · intro e he
    rcases turn_confirmed hget hsound hcases he with hold | hhead
    · have hsize := hs.sizes e hold
      cases hcases with
      | quiet _ heffect =>
        rcases heffect with rfl | ⟨caminho, rfl⟩ | ⟨id, now, rfl⟩
        · exact hsize
        · exact sameSize_unlink caminho hsize
        · exact hsize
      | found | marked => exact hsize
      | @sent rec rest stage data length ok _ hpayload =>
        cases length with
        | none => exact hsize
        | some length =>
          simp only [verifiedAnswer, hpayload, Option.all_some, List.all_eq_true] at hguard
          exact hguard e hold
    · obtain ⟨rfl, rfl, rec, rest, rfl, rfl, hobject⟩ := hhead
      simp only [verifiedAnswer, Bool.or_eq_true, Option.isNone_iff_eq_none] at hguard
      cases hguard with
      | inl hnone => rw [hnone] at hobject; cases hobject
      | inr hsize => exact hsize

theorem configure_keeps {s t : Installation} {i : Nat}
    (hs : Confirmed c s) (h : configure i s answer = some t) : Confirmed c t := by
  have hset : ∀ cycle : Cycle, cycle.claim = none → cycle.Sound c s.table →
      ∀ running, Confirmed c { s with running := running, cycles := s.cycles.set i cycle } := by
    intro cycle hclaim hsound running
    constructor
    · intro cycle' hcycle'
      rcases List.mem_or_eq_of_mem_set hcycle' with hold | rfl
      · exact hs.sound cycle' hold
      · exact hsound
    · intro e he
      rcases mem_confirmed.mp he with hrow | ⟨cycle', hcycle', hclaim'⟩
      · exact hs.sizes e (mem_confirmed.mpr (.inl hrow))
      · rcases List.mem_or_eq_of_mem_set hcycle' with hold | rfl
        · exact hs.sizes e (mem_confirmed.mpr (.inr ⟨cycle', hold, hclaim'⟩))
        · rw [hclaim] at hclaim'
          cases hclaim'
  unfold configure at h
  split at h
  · cases h; exact hset .skipped rfl trivial _
  · split at h
    · cases h; exact hset .skipped rfl trivial _
    · next cfg _ => cases h; exact hset (.running cfg .planning) rfl trivial true
  · cases h

theorem configure_files {s t : Installation} {i : Nat}
    (h : configure i s answer = some t) : t.files = s.files := by
  unfold configure at h
  split at h
  · cases h; rfl
  · split at h <;> (cases h; rfl)
  · cases h

theorem record_keys {r : Recording} (h : t.record r = some t')
    {r' : Recording} (hr' : r' ∈ t'.rows) {key : Text} (hkey : r'.cloudKey = some key) :
    r' ∈ t.rows := by
  unfold RecordingTable.record at h
  split at h
  · cases h
  · cases h
    rcases List.mem_append.mp hr' with hold | hnew
    · exact hold
    · rw [List.mem_singleton] at hnew
      rw [hnew] at hkey
      cases hkey

theorem step_keeps {s t : Installation} {a : Label} (hs : Confirmed c s)
    (hguard : Verified c s a) (h : step c s a = some t) : Confirmed c t := by
  cases a with
  | call =>
    simp only [step, Option.some.injEq] at h
    subst h
    split
    · exact hs
    · constructor
      · intro cycle hcycle
        rcases List.mem_append.mp hcycle with hold | hnew
        · exact hs.sound cycle hold
        · rw [List.mem_singleton.mp hnew]
          trivial
      · intro e he
        rcases mem_confirmed.mp he with hrow | ⟨cycle, hcycle, hclaim⟩
        · exact hs.sizes e (mem_confirmed.mpr (.inl hrow))
        · rcases List.mem_append.mp hcycle with hold | hnew
          · exact hs.sizes e (mem_confirmed.mpr (.inr ⟨cycle, hold, hclaim⟩))
          · rw [List.mem_singleton.mp hnew] at hclaim
            cases hclaim
  | advance i answer =>
    obtain ⟨cycle, hget, hadvance⟩ := Option.bind_eq_some_iff.mp h
    have hanswer : verifiedAnswer c s answer cycle = true := by
      simpa only [Verified, verified, hget, Option.all_some] using hguard
    cases cycle with
    | configuring => exact configure_keeps hs hadvance
    | skipped => cases hadvance
    | running cfg stage =>
      obtain ⟨⟨effect, stage'⟩, hturn, rfl⟩ := Option.map_eq_some_iff.mp hadvance
      exact turn_keeps hs hget hanswer hturn
  | crash =>
    cases h
    constructor
    · exact nofun
    · intro e he
      rcases mem_confirmed.mp he with hrow | ⟨cycle, hcycle, -⟩
      · exact hs.sizes e (mem_confirmed.mpr (.inl hrow))
      · cases hcycle
  | setPolicy | provision => cases h; exact ⟨hs.sound, hs.sizes⟩
  | write caminho content =>
    cases h
    exact ⟨hs.sound, fun e he => List.all_eq_true.mp hguard e he⟩
  | record r =>
    obtain ⟨table, htable, rfl⟩ := Option.map_eq_some_iff.mp h
    constructor
    · exact fun cycle hcycle => (hs.sound cycle hcycle).mono (extends_record htable)
    · intro e he
      rcases mem_confirmed.mp he with ⟨r', hr', hkey, hpath⟩ | hcycle
      · exact hs.sizes e (mem_confirmed.mpr (.inl ⟨r', record_keys htable hr' hkey, hkey, hpath⟩))
      · exact hs.sizes e (mem_confirmed.mpr (.inr hcycle))

/-! ## The theorem -/

theorem reach_confirmed
    (h : Reach (offload c) (Verified c) s) : Confirmed c s := by
  refine h.invariant ?_ (fun s a t => step_keeps)
  rintro s ⟨-, hcycles, hrows⟩
  constructor
  · rw [hcycles]
    exact nofun
  · intro e he
    rcases mem_confirmed.mp he with ⟨r, hr, hkey, -⟩ | ⟨cycle, hcycle, -⟩
    · rw [hrows r hr] at hkey
      cases hkey
    · rw [hcycles] at hcycle
      cases hcycle

theorem turn_takes {cfg : CloudStorageConfig}
    {effect : Effect} {caminho : Path} {content : Bytes}
    (h : turn c s cfg stage answer = some (effect, stage'))
    (hfile : s.files caminho = some content) (hgone : (effect.apply s).files caminho = none) :
    ∃ rec rest, stage = .unlinking rec caminho rest := by
  have heffect : effect = .unlink caminho := by
    cases effect with
    | unlink p =>
      simp only [Effect.apply, Function.update_apply] at hgone
      split at hgone
      · next heq => rw [heq]
      · rw [hfile] at hgone; cases hgone
    | nothing | store | markUploaded | markDeleted =>
      have hsame : s.files caminho = none := hgone
      rw [hfile] at hsame
      cases hsame
  subst heffect
  unfold turn at h
  split at h
  case h_6 rec caminho rest => cases h; exact ⟨rec, rest, rfl⟩
  case h_3 rec rest stage =>
    obtain ⟨⟨effect, next⟩, hupload, heq⟩ := Option.map_eq_some_iff.mp h
    cases heq
    rcases turnUpload_cases hupload with hquiet | hfound | ⟨-, _, length, _, -, -, heq⟩ |
      ⟨-, -, _, heq⟩
    · cases hquiet.1
    · cases hfound.1
    · cases length <;> cases heq
    · cases heq
  all_goals cases h

/-- In every run in which the server keeps what it confirms, and what is confirmed keeps its
length, the service takes no file whose full copy is not in the bucket. -/
theorem unlink_after_copy (c : Settings) {s t : Installation} {i : Nat} {answer : Answer}
    (h : Reach (offload c) (Verified c) s) (hstep : step c s (.advance i answer) = some t) :
    CopiedFirst c s t := by
  have hs := reach_confirmed h
  intro caminho content hfile hgone
  obtain ⟨cycle, hget, hadvance⟩ := Option.bind_eq_some_iff.mp hstep
  cases cycle with
  | skipped => cases hadvance
  | configuring =>
    rw [configure_files hadvance, hfile] at hgone
    cases hgone
  | running cfg stage =>
    obtain ⟨⟨effect, stage'⟩, hturn, rfl⟩ := Option.map_eq_some_iff.mp hadvance
    obtain ⟨rec, rest, rfl⟩ := turn_takes hturn hfile hgone
    obtain ⟨hpath, hmarked⟩ := hs.sound _ (List.mem_of_getElem? hget)
    obtain ⟨r, hr, -, hsamePath, hkey⟩ := hmarked rec List.mem_cons_self
    obtain ⟨key, hkey⟩ := Option.isSome_iff_exists.mp hkey
    have hcopy := sameSize_iff.mp (hs.sizes (r.filePath, key)
      (mem_confirmed.mpr (.inl ⟨r, hr, hkey, rfl⟩)))
    rw [← hsamePath] at hpath
    obtain ⟨object, hobject, hlength⟩ := hcopy caminho content hpath hfile
    exact ⟨r, hr, hpath, key, object, hkey, hobject, hlength⟩

/-! ## Runs -/

def clipSettings : Settings where
  recordingsRoot := ⟨["rec".toList], by decide⟩
  keyPrefix := []
  batch := 25

def clipPath : Path := ["rec".toList, "a.mp4".toList]

def clip : Recording where
  id := "7".toList
  cameraId := "porta".toList
  filePath := "a.mp4".toList
  triggerMode := "motion"
  startedAt := 0
  cloudKey := none
  cloudUploadedAt := none
  localDeletedAt := none

/-- One clip of three bytes, on an installation that keeps nothing on its disk. -/
def clipOnDisk : Installation where
  files := Function.update (fun _ => none) clipPath (some [1, 2, 3])
  bucket := fun _ => none
  table := ⟨[clip], List.nodup_singleton _⟩
  policy := { defaultStoragePolicy with enabled := true }
  storage := some { mode := .mount, localWindowHours := 24 }
  running := false
  cycles := []

theorem clipOnDisk_init : (offload clipSettings).init clipOnDisk :=
  ⟨rfl, rfl, fun r hr => by rw [List.mem_singleton.mp hr]; rfl⟩

/-- A cycle up to its `unlink`; the server keeps `length` bytes of the three. -/
def cycleUntilUnlink (length : Nat) : List Label :=
  .call :: ([.ok, .ok, .ok, .ok, .bytes [1, 2, 3], .stores (some length) true, .ok, .time 10,
    .time 20, .ok].map (.advance 0 ·))

theorem unlink_after_copy_clip : ∃ s t, Reach (offload clipSettings) (Verified clipSettings) s ∧
    step clipSettings s (.advance 0 .ok) = some t ∧ s.files clipPath = some [1, 2, 3] ∧
    t.files clipPath = none ∧ CopiedFirst clipSettings s t := by
  have hrun : (((offload clipSettings).run (verified clipSettings) clipOnDisk
      (cycleUntilUnlink 3)).bind (fun s => (step clipSettings s (.advance 0 .ok)).map (fun t =>
        (s.files clipPath, t.files clipPath)))) = some (some [1, 2, 3], none) := by
    decide +kernel
  obtain ⟨s, hs, hlast⟩ := Option.bind_eq_some_iff.mp hrun
  obtain ⟨t, ht, heq⟩ := Option.map_eq_some_iff.mp hlast
  rw [Prod.mk.injEq] at heq
  have hreach : Reach (offload clipSettings) (Verified clipSettings) s :=
    ⟨clipOnDisk, clipOnDisk_init, path_of_run (fun _ _ h => h) _ hs⟩
  exact ⟨s, t, hreach, ht, heq.1, heq.2, unlink_after_copy clipSettings hreach ht⟩

/-- The server keeps one byte of the three and says that it is fine; the HEAD finds the
object, and the file goes. -/
theorem unlink_after_short_put : ∃ s t, Reach (offload clipSettings) Always s ∧
    step clipSettings s (.advance 0 .ok) = some t ∧ ¬ CopiedFirst clipSettings s t := by
  have hrun : (((offload clipSettings).run anyStep clipOnDisk (cycleUntilUnlink 1)).bind
      (fun s => (step clipSettings s (.advance 0 .ok)).map (fun t =>
        (s.files clipPath, t.files clipPath,
          s.table.rows.map (fun r => r.cloudKey.map (fun key =>
            (s.bucket (clipSettings.fullKey key)).map List.length)))))) =
      some (some [1, 2, 3], none, [some (some 1)]) := by
    decide +kernel
  obtain ⟨s, hs, hlast⟩ := Option.bind_eq_some_iff.mp hrun
  obtain ⟨t, ht, heq⟩ := Option.map_eq_some_iff.mp hlast
  simp only [Prod.mk.injEq] at heq
  obtain ⟨hfile, hgone, hrows⟩ := heq
  refine ⟨s, t, ⟨clipOnDisk, clipOnDisk_init, path_of_run (fun _ _ _ => trivial) _ hs⟩, ht, ?_⟩
  intro hcopied
  obtain ⟨r, hr, -, key, object, hkey, hobject, hlength⟩ := hcopied clipPath _ hfile hgone
  have hmem := List.mem_map_of_mem (f := fun r : Recording => r.cloudKey.map (fun key =>
    (s.bucket (clipSettings.fullKey key)).map List.length)) hr
  rw [hrows, List.mem_singleton, hkey, Option.map_some, hobject, Option.map_some, hlength] at hmem
  cases hmem

end Drac.CloudStorage
