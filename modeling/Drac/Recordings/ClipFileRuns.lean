import Drac.Lib.Sha256
import Drac.Recordings.ClipFileInvariant
import Drac.Recordings.RangeExportCoverage

/-
  The hash of an exported clip.

  A row keeps the hash of the file its export made. Both exports replace the file before
  they insert the row, and the row of an earlier export makes the insertion fail: the file
  is the new one then, and the row the old.

    `clips_faithful`   where no export replaces a file that a row, another export or a
                       deletion counts on, and none stops between a new file and its
                       manifest, each row and each manifest tells of its file, and no
                       step of an export changes an exported clip.
-/

namespace Drac.Recordings.ClipFiles

open Runs

variable {config : ClipConfig} {s t : System} {a : Label}

/-! ## The property -/

def Call.output (config : ClipConfig) : Call → Option Text
  | .clip job _ => some (job.outputPath config)
  | .range job _ => some (job.outputPath config)
  | .deletion _ _ => none

def System.exporting (config : ClipConfig) (s : System) (filePath : Text) : Bool :=
  s.calls.any (fun call => !call.over && call.output config = some filePath)

/-- The rows of a path tell of its file. -/
def HashHolds (config : ClipConfig) (s : System) (filePath : Text) : Prop :=
  ∀ row ∈ s.rows, row.filePath = filePath → ∀ file, s.videos filePath = some file →
    row.describes config file

/-- The manifest beside a clip of an interval tells of its file. -/
def ManifestHolds (config : ClipConfig) (s : System) (filePath : Text) : Prop :=
  ∀ identity, filePath = buildRangeExportOutputPath config identity →
    ∀ file m, s.videos filePath = some file → s.manifests (manifestPath filePath) = some m →
      m.describes config file

def ofExport (s : System) : Label → Bool
  | .exportClip _ _ _ _ | .exportCameraRange _ _ => true
  | .advance i _ | .giveUp i =>
    match s.calls[i]? with
    | some (.clip _ _) | some (.range _ _) => true
    | _ => false
  | _ => false

/-- An exported clip whose file is there stays as it is. -/
def Unharmed (s t : System) : Prop :=
  ∀ row ∈ s.rows, row ∈ t.rows ∧ ∀ file, s.videos row.filePath = some file →
    t.videos row.filePath = some file

/-- Rows and manifests tell of their files wherever no export is under way, and no export,
failing or not, harms an exported clip. -/
def Faithful (config : ClipConfig) (G : System → Label → Prop) : Prop :=
  ∀ s, Reach (clipMachine config) G s →
    (∀ filePath, s.exporting config filePath = false →
      HashHolds config s filePath ∧ ManifestHolds config s filePath) ∧
    ∀ a t, G s a → step config s a = some t → ofExport s a = true → Unharmed s t

/-! ## What an export leaves alone -/

/-- Rows stay, and a clip's file changes only where the step writes it. -/
def Touches (config : ClipConfig) (s : System) (a : Label) (t : System) : Prop :=
  (∀ row ∈ s.rows, row ∈ t.rows) ∧ ∀ path, mp4 <:+ path → t.videos path = s.videos path ∨
    ∃ i bytes, written config s a = some (i, path, bytes) ∧ t.videos path = some bytes

theorem touches_goto (i : Nat) (call : Call) : Touches config s a (s.goto i call) :=
  ⟨fun _ hrow => hrow, fun _ _ => Or.inl rfl⟩

theorem touches_insert (data : Nat → ExportedClip) (i : Nat) (call : Call) :
    Touches config s a ((s.insert data).goto i call) :=
  ⟨fun _ hrow => List.mem_append_left _ hrow, fun _ _ => Or.inl rfl⟩

theorem touches_manifest (path : Text) (m : Option Manifest) (i : Nat) (call : Call) :
    Touches config s a ((s.setManifest path m).goto i call) :=
  ⟨fun _ hrow => hrow, fun _ _ => Or.inl rfl⟩

variable {i : Nat}

theorem touches_write {path : Text} {bytes : Bytes}
    (hw : written config s a = some (i, path, bytes)) :
    Touches config s a (s.setVideo path (some bytes)) := by
  refine ⟨fun _ hrow => hrow, ?_⟩
  intro q hq
  by_cases hqp : q = path
  · subst hqp
    exact Or.inr ⟨i, bytes, hw, setVideo_self q (some bytes)⟩
  · exact Or.inl (setVideo_ne hqp (some bytes))

theorem touches_clip {job : ClipJob} {phase : ClipPhase} {answer : Answer}
    (hget : s.calls[i]? = some (.clip job phase))
    (hstep : clipStep config s i job phase answer = some t) :
    Touches config s (.advance i answer) t := by
  have hmade : ∀ converted, Touches config s (.advance i answer)
      (clipMade config s i job converted) := by
    intro converted
    unfold clipMade
    split <;> exact touches_goto i _
  have hwrite : ∀ bytes, written config s (.advance i answer) =
      some (i, job.outputPath config, bytes) →
      Touches config s (.advance i answer)
        (s.setVideo (job.outputPath config) (some bytes)) := by
    intro bytes hw
    exact touches_write hw
  unfold clipStep at hstep
  split at hstep
  any_goals cases hstep
  any_goals exact touches_goto i _
  any_goals exact hmade _
  any_goals exact hwrite _ (by simp only [written, hget])
  -- the three that look at a file or for a row first
  all_goals
    split at hstep
    all_goals
      cases hstep
      first
        | exact touches_goto i _
        | exact touches_insert _ i _

variable {job : RangeJob} {work : RangeWork}

theorem touches_tmp (i : Nat) (call : Call) :
    Touches config s a ((s.setVideo (job.tmpPath config work) none).goto i call) := by
  refine ⟨fun _ hrow => hrow, ?_⟩
  intro path hpath
  exact Or.inl (setVideo_ne (tmpPath_ne_mp4 job work hpath).symm none)

theorem touches_nextAttempt
    (rest : List RangeExportAttempt) : Touches config s a (nextAttempt s i job work rest) := by
  cases rest <;> exact touches_goto i _

theorem touches_attemptFailed
    (rest : List RangeExportAttempt) :
    Touches config s a (attemptFailed config s i job work rest) := by
  cases rest <;> exact touches_tmp i _

theorem touches_planned (segments : List RangeSourceSegment)
    (pid now : Nat) : Touches config s a (planned config s i job segments pid now) := by
  unfold planned
  split
  · split <;> exact touches_goto i _
  · exact touches_goto i _

theorem touches_replaceOutput
    {usada : RangeExportAttempt} {sha : Text} {size : Nat}
    (hget : s.calls[i]? = some (.range job (.replacing work usada sha size))) :
    Touches config s (.advance i .done) (replaceOutput config s i job work usada sha size) := by
  unfold replaceOutput
  split
  · next bytes hbytes =>
    refine ⟨fun _ hrow => hrow, ?_⟩
    intro path hpath
    by_cases hout : path = job.outputPath config
    · subst hout
      refine Or.inr ⟨i, bytes, ?_, setVideo_self _ (some bytes)⟩
      simp only [written, hget, hbytes, Option.map_some]
    · left
      exact (setVideo_ne hout (some bytes)).trans
        (setVideo_ne (tmpPath_ne_mp4 job work hpath).symm none)
  · exact touches_goto i _

theorem touches_range {phase : RangePhase} {answer : Answer}
    (hget : s.calls[i]? = some (.range job phase))
    (hstep : rangeStep config s i job phase answer = some t) :
    Touches config s (.advance i answer) t := by
  have hwrite : ∀ work bytes, written config s (.advance i answer) =
      some (i, job.tmpPath config work, bytes) →
      Touches config s (.advance i answer)
        (s.setVideo (job.tmpPath config work) (some bytes)) := by
    intro work bytes hw
    exact touches_write hw
  unfold rangeStep at hstep
  split at hstep
  any_goals cases hstep
  any_goals exact touches_goto i _
  any_goals exact touches_nextAttempt _
  any_goals exact touches_attemptFailed _
  any_goals exact touches_planned _ _ _
  any_goals exact touches_manifest _ _ i _
  any_goals exact touches_tmp i _
  any_goals exact touches_replaceOutput hget
  any_goals exact hwrite _ _ (by simp only [written, hget])
  -- those that look at a file or for a row first
  all_goals
    split at hstep
    all_goals
      cases hstep
      first
        | exact touches_goto i _
        | exact touches_insert _ i _
        | exact touches_attemptFailed _

theorem unharmed_of_touches (h : Inv config s) (hguard : Orderly config s a)
    (ht : Touches config s a t) : Unharmed s t := by
  intro row hrow
  refine ⟨ht.1 row hrow, ?_⟩
  intro file hfile
  rcases ht.2 row.filePath (h.rowPath row hrow) with hsame | ⟨i, bytes, hw, hnew⟩
  · rw [hsame]
    exact hfile
  · have hall := (Bool.and_eq_true_iff.mp hguard).1
    rw [hw] at hall
    rcases (spared_of_spare hall).free with hsame | ⟨hrows, -⟩
    · rw [hnew, ← hsame]
      exact hfile
    · have hnone := (hrows row hrow rfl).1
      rw [hfile] at hnone
      cases hnone

theorem touches_of_export (hstep : step config s a = some t) (hexport : ofExport s a = true) :
    Touches config s a t := by
  cases a with
  | exportClip | exportCameraRange =>
    obtain ⟨job, -, rfl⟩ := Option.map_eq_some_iff.mp hstep
    exact ⟨fun _ hrow => hrow, fun _ _ => Or.inl rfl⟩
  | advance i answer =>
    obtain ⟨call, hget, hadvance⟩ := Option.bind_eq_some_iff.mp hstep
    cases call with
    | clip job phase => exact touches_clip hget hadvance
    | range job phase => exact touches_range hget hadvance
    | deletion job phase => simp [ofExport, hget] at hexport
  | giveUp i =>
    obtain ⟨call, hget, hstop⟩ := Option.bind_eq_some_iff.mp hstep
    split at hstop
    · cases hstop
    · cases hstop
      exact touches_goto i _
  | deleteClip | recover | removeVideo | removeManifest => cases hexport

theorem exporting_of_undescribed {call : Call} {path : Text}
    (hget : s.calls[i]? = some call) (hund : call.undescribed config = some path) :
    s.exporting config path = true := by
  refine List.any_eq_true.mpr ⟨call, List.mem_of_getElem? hget, ?_⟩
  cases call with
  | clip | deletion => cases hund
  | range job phase =>
    cases phase with
    | describing work usada sha size =>
      cases hund
      simp [Call.over, Call.output]
    | _ => cases hund

/-! ## Runs -/

theorem clips_faithful (config : ClipConfig) : Faithful config (Orderly config) := by
  intro s hreach
  have hinv : Inv config s := inv_reach hreach
  refine ⟨?_, ?_⟩
  · intro filePath hidle
    refine ⟨?_, ?_⟩
    · intro row hrow hpath file hfile
      subst hpath
      exact hinv.row row hrow file (Or.inl hfile)
    · intro identity hpath file m hfile hm
      subst hpath
      rcases hinv.manifest identity file m (Or.inl hfile) hm with h | ⟨i, call, hget, hund⟩
      · exact h
      · -- a manifest still to be written is that of an export under way
        have hbusy := exporting_of_undescribed hget hund
        rw [hidle] at hbusy
        cases hbusy
  · intro a t hguard hstep hexport
    exact unharmed_of_touches hinv hguard (touches_of_export hstep hexport)

def sha256Bytes (bytes : Bytes) : Text := Sha256.hexDigest (bytes.map UInt8.toNat)

theorem sha256Bytes_hex (bytes : Bytes) : ∀ c ∈ sha256Bytes bytes, isLowerHex c = true := by
  have hdigits : "0123456789abcdef".toList.all isLowerHex = true := by decide
  intro c hc
  exact List.all_eq_true.mp hdigits c (Sha256.mem_hex hc)

/-- The defaults: six hours, a margin of two seconds, 240 segments. -/
def storage : ClipConfig where
  recordingsRoot := "/storage".toList
  exportMaxHours := 6
  copySafetySeconds := 2
  maxSegments := 240
  order := byCodePoint
  sha256Hex := sha256Bytes
  sha256_hex := sha256Bytes_hex

def operator : AuthUser where
  id := "u1".toList
  name := "Operador".toList

theorem yardId_shaped : fits uuidShape "5f0c1a9e-2b7d-4c36-9a51-0e8d7b64c2f1".toList = true := by
  decide

def yardRecording : SourceRecording where
  id := ⟨"5f0c1a9e-2b7d-4c36-9a51-0e8d7b64c2f1".toList, yardId_shaped⟩
  cameraId := "yard".toList
  startedAt := 1772600000000
  endedAt := some 1772600020000
  durationSeconds := some 20

def yardClip : ClipJob where
  user := operator
  recording := yardRecording
  startSeconds := 0
  clippedEnd := 10

/-- The clip requested, cut by ffmpeg, checked, measured and inserted. -/
def cutClip (i : Nat) (bytes : Bytes) : List Label :=
  [.exportClip operator yardRecording 0 10, .advance i (.writes bytes), .advance i .done,
    .advance i (.verdict true), .advance i .done, .advance i .done, .advance i .done]

/-- A clip exported a second time fails, and the file is no longer the one of its row. -/
theorem clip_cut_twice : ¬ Faithful storage Always := by
  intro hfaithful
  have hrun : (Machine.run (clipMachine storage) anyStep {} (cutClip 0 [1] ++ cutClip 1 [2])).any
      (fun s => !s.exporting storage (yardClip.outputPath storage) &&
        s.videos (yardClip.outputPath storage) = some [2] &&
        s.rows.any (fun row => row.filePath = yardClip.outputPath storage &&
          row.fileSha256 = some (sha256Bytes [1]))) = true := by
    decide +kernel
  obtain ⟨s, hreach, hstate⟩ := reach_of_any hrun rfl (fun _ _ _ => trivial)
  simp only [Bool.and_eq_true, Bool.not_eq_true', decide_eq_true_eq, List.any_eq_true] at hstate
  obtain ⟨⟨hidle, hfile⟩, row, hin, hpath, hsha⟩ := hstate
  have hholds := ((hfaithful s hreach).1 _ hidle).1
  have hdescribes := (hholds row hin hpath [2] hfile).1
  rw [hsha] at hdescribes
  exact absurd hdescribes (by decide +kernel)

def yardInterval : RangeParams where
  cameraId := "yard".toList
  fromAt := some 10000
  toAt := some 20000
  profile := none
  reason := "BO 123".toList

def yardIdentity : RangeExportIdentity where
  cameraId := "yard".toList
  fromMs := 10000
  toMs := 20000
  profile := .auto

/-- The interval requested, joined from two segments, hashed, put in place, described and
inserted. -/
def joinInterval (i : Nat) (bytes : Bytes) : List Label :=
  [.exportCameraRange operator yardInterval, .advance i .done, .advance i .done, .advance i .done,
    .advance i (.collected contiguous.segments 7 1772600100000), .advance i (.hwaccel false),
    .advance i .done, .advance i (.writes bytes), .advance i .done, .advance i .done,
    .advance i (.verdict true), .advance i .done, .advance i .done, .advance i .done,
    .advance i .done, .advance i (.doneAt 1772600101000), .advance i .done, .advance i .done,
    .advance i .done, .advance i .done]

theorem clips_faithful_exported : ∃ s, Reach (clipMachine storage) (Orderly storage) s ∧
    s.rows.length = 2 ∧ s.videos (yardClip.outputPath storage) = some [1] ∧
      s.videos (buildRangeExportOutputPath storage yardIdentity) = some [2] ∧
      HashHolds storage s (yardClip.outputPath storage) ∧
      HashHolds storage s (buildRangeExportOutputPath storage yardIdentity) ∧
      ManifestHolds storage s (buildRangeExportOutputPath storage yardIdentity) := by
  have hrun : (Machine.run (clipMachine storage) (orderly storage) {}
      (cutClip 0 [1] ++ joinInterval 1 [2])).any
      (fun s => s.rows.length = 2 &&
        (!s.exporting storage (yardClip.outputPath storage) &&
          s.videos (yardClip.outputPath storage) = some [1]) &&
        !s.exporting storage (buildRangeExportOutputPath storage yardIdentity) &&
          s.videos (buildRangeExportOutputPath storage yardIdentity) = some [2]) = true := by
    decide +kernel
  obtain ⟨s, hreach, hstate⟩ := reach_of_any (G := Orderly storage) hrun rfl (fun _ _ h => h)
  simp only [Bool.and_eq_true, Bool.not_eq_true', decide_eq_true_eq] at hstate
  obtain ⟨⟨⟨hrows, hclipIdle, hclip⟩, hrangeIdle⟩, hrange⟩ := hstate
  have hholds := (clips_faithful storage s hreach).1
  exact ⟨s, hreach, hrows, hclip, hrange, (hholds _ hclipIdle).1, hholds _ hrangeIdle⟩

end Drac.Recordings.ClipFiles
