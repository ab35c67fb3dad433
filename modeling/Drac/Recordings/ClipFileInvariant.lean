import Drac.Recordings.ClipFiles
import Drac.Recordings.FileDeletionJournal

/-
  What is known of a clip's file.

  Rows, manifests and exports under way know the hash or the size of a file. What they know
  stays true as long as no export writes over a file that something is known of, or that a
  deletion may put back (`spare`), and none stops after it has put a file in place beside
  the manifest of an older one (`completes`).

    `inv_reach`   in every run of such steps, what is known of a file is true of it.
-/

namespace Drac.Recordings.ClipFiles

open Runs

variable {config : ClipConfig} {s t : System} {a : Label}

/-! ## What tells of a file -/

/-- Hash and size of the row are those of the file. -/
def ExportedClip.describes (config : ClipConfig) (row : ExportedClip) (file : Bytes) : Prop :=
  row.fileSha256 = some (config.sha256Hex file) ∧ row.sizeBytes = some file.length

instance decidableRowDescribes (config : ClipConfig) (row : ExportedClip) (file : Bytes) :
    Decidable (row.describes config file) :=
  inferInstanceAs (Decidable (_ ∧ _))

def Manifest.says (fileSha256 : Text) (size : Nat) : Manifest → Bool
  | .whole proveniencia => proveniencia.fileSha256 = fileSha256 && proveniencia.sizeBytes = size
  | .cutOff => false

/-- Hash and size of the manifest are those of the file. -/
def Manifest.describes (config : ClipConfig) (m : Manifest) (file : Bytes) : Prop :=
  m.says (config.sha256Hex file) file.length = true

/-! ## The condition -/

/-- What an export has found out about a file and has yet to write down. -/
structure Measure where
  place : Text
  sha : Option Text
  size : Option Nat

/-- What was measured so far is true of the file. -/
def Measure.fits (config : ClipConfig) (m : Measure) (file : Bytes) : Prop :=
  (∀ sha ∈ m.sha, sha = config.sha256Hex file) ∧ ∀ size ∈ m.size, size = file.length

def Call.measure (config : ClipConfig) : Call → Option Measure
  | .clip job (.hashing size) => some ⟨job.outputPath config, none, some size⟩
  | .clip job (.inserting sha size) => some ⟨job.outputPath config, some sha, some size⟩
  | .range job (.sizing work _ sha) => some ⟨job.tmpPath config work, some sha, none⟩
  | .range job (.replacing work _ sha size) => some ⟨job.tmpPath config work, some sha, some size⟩
  | .range job (.describing _ _ sha size) | .range job (.inserting _ _ sha size) =>
    some ⟨job.outputPath config, some sha, some size⟩
  | _ => none

/-- No deletion holds a file of the path; and the path has these bytes already, or it has no
row, but for one that misses such a file, and no other export has measured what is there. -/
def spare (config : ClipConfig) (s : System) (i : Nat) (path : Text) (bytes : Bytes) : Bool :=
  s.held.all (fun h => h.filePath ≠ path) &&
    (s.videos path = some bytes ||
      (s.rows.all (fun row => row.filePath ≠ path ||
          (s.videos path = none && decide (row.describes config bytes))) &&
        s.calls.zipIdx.all (fun e => e.2 = i ||
          (e.1.measure config).all (fun m => m.place ≠ path))))

def written (config : ClipConfig) (s : System) : Label → Option (Nat × Text × Bytes)
  | .advance i answer =>
    match s.calls[i]?, answer with
    | some (.clip job (.cutting _)), .writes bytes | some (.clip job .converting), .writes bytes =>
      some (i, job.outputPath config, bytes)
    | some (.range job (.encoding work _ _)), .writes bytes =>
      some (i, job.tmpPath config work, bytes)
    | some (.range job (.replacing work _ _ _)), .done =>
      (s.videos (job.tmpPath config work)).map (fun bytes => (i, job.outputPath config, bytes))
    | _, _ => none
  | _ => none

def System.occupied (s : System) (path : Text) : Bool :=
  (s.videos path).isSome || s.held.any (fun h => h.filePath = path)

/-- The manifest beside the file is none, or already the right one. -/
def settledAt (s : System) (path fileSha256 : Text) (size : Nat) : Bool :=
  !s.occupied path || (s.manifests (manifestPath path)).all (fun m => m.says fileSha256 size)

/-- The step leaves no new file beside the manifest of an older one. -/
def completes (config : ClipConfig) (s : System) : Label → Bool
  | .advance i answer =>
    match s.calls[i]?, answer with
    | some (.range job (.describing _ _ sha size)), .fails =>
      settledAt s (job.outputPath config) sha size
    | some (.range job (.describing _ _ _ _)), .breaks => !s.occupied (job.outputPath config)
    | _, _ => true
  | .giveUp i =>
    match s.calls[i]? with
    | some (.range job (.describing _ _ sha size)) =>
      settledAt s (job.outputPath config) sha size
    | _ => true
  | _ => true

/-- What a step writes is spare, and what it completes is settled. -/
def orderly (config : ClipConfig) (s : System) (a : Label) : Bool :=
  (written config s a).all (fun w => spare config s w.1 w.2.1 w.2.2) && completes config s a

def Orderly (config : ClipConfig) (s : System) (a : Label) : Prop := orderly config s a = true

/-! ## Paths -/

theorem lastName_inj {p q x y : Text} (hx : '/' ∉ x) (hy : '/' ∉ y)
    (h : p ++ '/' :: x = q ++ '/' :: y) : x = y := by
  rcases List.append_eq_append_iff.mp h with ⟨c, -, hc⟩ | ⟨c, -, hc⟩
  · cases c with
    | nil => exact (List.cons.inj hc).2
    | cons d ds =>
      have hin : '/' ∈ x := by
        rw [(List.cons.inj hc).2]
        exact List.mem_append_right ds List.mem_cons_self
      exact absurd hin hx
  · cases c with
    | nil => exact (List.cons.inj hc).2.symm
    | cons d ds =>
      have hin : '/' ∈ y := by
        rw [(List.cons.inj hc).2]
        exact List.mem_append_right ds List.mem_cons_self
      exact absurd hin hy

theorem slash_not_mem_digits (n : Nat) : '/' ∉ Nat.toDigits 10 n := by
  intro h
  exact absurd (Nat.isDigit_of_mem_toDigits (by decide) (by decide) h) (by decide)

theorem slash_not_mem_mp4 : '/' ∉ mp4 := by decide

theorem slash_not_mem_clip : '/' ∉ "clip-".toList := by decide

theorem slash_not_mem_range : '/' ∉ "range-".toList := by decide

/-- A dash keeps two texts of a name apart. -/
theorem slash_not_mem_dash {x y : Text} (hx : '/' ∉ x) (hy : '/' ∉ y) : '/' ∉ x ++ '-' :: y :=
  List.not_mem_append hx (List.not_mem_cons_of_ne_of_not_mem (by decide) hy)

theorem clip_fileName_slash (job : ClipJob) : '/' ∉ job.fileName := by
  have hid : '/' ∉ job.recording.id.text := job.recording.id.isName.2.2.2
  have hfront : '/' ∉ "clip-".toList ++ job.recording.id.text :=
    List.not_mem_append slash_not_mem_clip hid
  have hstart := slash_not_mem_dash hfront (slash_not_mem_digits job.startSeconds)
  have hend := slash_not_mem_dash hstart (slash_not_mem_digits job.clippedEnd)
  unfold ClipJob.fileName
  exact List.not_mem_append hend slash_not_mem_mp4

theorem range_fileName_slash (identity : RangeExportIdentity) :
    '/' ∉ buildRangeExportFileName config identity := by
  have hkey : '/' ∉ identityKey config identity := by
    intro h
    exact absurd (config.sha256_hex _ _ (List.mem_of_mem_take h)) (by decide)
  exact List.not_mem_append (List.not_mem_append slash_not_mem_range hkey) slash_not_mem_mp4

theorem clip_fileName_head (job : ClipJob) : job.fileName.head? = some 'c' := rfl

theorem range_fileName_head (identity : RangeExportIdentity) :
    (buildRangeExportFileName config identity).head? = some 'r' := rfl

theorem clip_path_ne_range (job : ClipJob) (identity : RangeExportIdentity) :
    job.outputPath config ≠ buildRangeExportOutputPath config identity := by
  intro h
  have hname := lastName_inj (clip_fileName_slash job) (range_fileName_slash identity) h
  have hhead := congrArg List.head? hname
  have hsame : some 'c' = some 'r' :=
    (clip_fileName_head job).symm.trans (hhead.trans (range_fileName_head identity))
  exact absurd hsame (by decide)

theorem mp4_suffix_clip (job : ClipJob) : mp4 <:+ job.outputPath config := by
  have hname : mp4 <:+ job.fileName := by
    unfold ClipJob.fileName
    exact List.suffix_append _ mp4
  exact (hname.trans (List.suffix_cons '/' _)).trans (List.suffix_append _ _)

theorem mp4_suffix_range (identity : RangeExportIdentity) :
    mp4 <:+ buildRangeExportOutputPath config identity := by
  have hname : mp4 <:+ buildRangeExportFileName config identity := by
    unfold buildRangeExportFileName
    exact List.suffix_append _ mp4
  exact (hname.trans (List.suffix_cons '/' _)).trans (List.suffix_append _ _)

variable {path : Text}

theorem tmpPath_ne_mp4 (job : RangeJob) (work : RangeWork) (h : mp4 <:+ path) :
    job.tmpPath config work ≠ path := by
  intro heq
  have htmp : ".tmp".toList <:+ job.tmpPath config work := by
    unfold RangeJob.tmpPath
    exact List.suffix_append _ _
  rw [heq] at htmp
  have hlen : mp4.length = ".tmp".toList.length := by decide
  have hsame : mp4 = ".tmp".toList := by
    rcases List.suffix_or_suffix_of_suffix h htmp with hs | hs
    · exact hs.eq_of_length hlen
    · exact (hs.eq_of_length hlen.symm).symm
  exact absurd hsame (by decide)

theorem manifestPath_inj {p q : Text} (hp : mp4 <:+ p) (hq : mp4 <:+ q)
    (h : manifestPath p = manifestPath q) : p = q := by
  rw [manifestPath, manifestPath, if_pos hp, if_pos hq] at h
  have hfront := List.append_cancel_right h
  obtain ⟨x, rfl⟩ := hp
  obtain ⟨y, rfl⟩ := hq
  have htake : ∀ z : Text, (z ++ mp4).take ((z ++ mp4).length - 4) = z := by
    intro z
    have hlen : (z ++ mp4).length - 4 = z.length := by
      rw [List.length_append]
      exact Nat.add_sub_cancel z.length 4
    rw [hlen, List.take_left]
  rw [htake, htake] at hfront
  rw [hfront]

/-! ## The invariant -/

/-- The bytes are at the path, or a deletion holds them that took them from it. -/
def System.has (s : System) (path : Text) (file : Bytes) : Prop :=
  s.videos path = some file ∨ ∃ h ∈ s.held, h.filePath = path ∧ h.bytes = file

/-- The clip whose manifest is still to be written. -/
def Call.undescribed (config : ClipConfig) : Call → Option Text
  | .range job (.describing _ _ _ _) => some (job.outputPath config)
  | _ => none

/-- A path has one file, there or held, and whatever is known of it, in a row, in a manifest
or by an export, is true of it. -/
structure Inv (config : ClipConfig) (s : System) : Prop where
  single : ∀ path file other, s.has path file → s.has path other → file = other
  rowPath : ∀ row ∈ s.rows, mp4 <:+ row.filePath
  row : ∀ row ∈ s.rows, ∀ file, s.has row.filePath file → row.describes config file
  measure : ∀ (i : Nat) (call : Call) (m : Measure), s.calls[i]? = some call →
    call.measure config = some m → ∀ file, s.has m.place file → m.fits config file
  manifest : ∀ identity file m, s.has (buildRangeExportOutputPath config identity) file →
    s.manifests (manifestPath (buildRangeExportOutputPath config identity)) = some m →
    m.describes config file ∨ ∃ (i : Nat) (call : Call), s.calls[i]? = some call ∧
      call.undescribed config = some (buildRangeExportOutputPath config identity)

theorem inv_start : Inv config {} := by
  refine ⟨?_, ?_, ?_, ?_, ?_⟩
  · intro path file other hfile
    rcases hfile with hfile | ⟨e, he, -⟩
    · cases hfile
    · cases he
  · intro row hrow
    cases hrow
  · intro row hrow
    cases hrow
  · intro i call m hget
    cases hget
  · intro identity file m hhas hm
    cases hm

/-! ## Files -/

theorem setVideo_self (path : Text) (content : Option Bytes) :
    (s.setVideo path content).videos path = content := by
  simp only [System.setVideo, Function.update_self]

variable {q : Text}

theorem setVideo_ne (h : q ≠ path) (content : Option Bytes) :
    (s.setVideo path content).videos q = s.videos q := by
  simp only [System.setVideo, Function.update_of_ne h]

variable {file : Bytes}

theorem has_of_setVideo_none
    (h : (s.setVideo path none).has q file) : s.has q file := by
  rcases h with hfile | hheld
  · left
    simp only [System.setVideo, Function.update_apply] at hfile
    split at hfile
    · cases hfile
    · exact hfile
  · exact Or.inr hheld

variable {bytes : Bytes}

/-- What is where after a file has been written that no deletion holds another of. -/
theorem has_of_setVideo
    (hheld : ∀ h ∈ s.held, h.filePath ≠ path) (h : (s.setVideo path (some bytes)).has q file) :
    (q ≠ path ∧ s.has q file) ∨ (q = path ∧ file = bytes) := by
  rcases h with hfile | ⟨e, he, hpath, hbytes⟩
  · simp only [System.setVideo, Function.update_apply] at hfile
    split at hfile
    · next heq => exact Or.inr ⟨heq, (Option.some.inj hfile).symm⟩
    · next hne => exact Or.inl ⟨hne, Or.inl hfile⟩
  · refine Or.inl ⟨?_, Or.inr ⟨e, he, hpath, hbytes⟩⟩
    rw [← hpath]
    exact hheld e he

theorem has_of_release {operation : Nat}
    (h : (s.release operation).has q file) : s.has q file := by
  rcases h with hfile | ⟨e, he, heq⟩
  · exact Or.inl hfile
  · exact Or.inr ⟨e, List.mem_of_mem_filter he, heq⟩

theorem has_of_putAside {i : Nat} {job : Deletion}
    (h : (putAside s i job).has q file) : s.has q file := by
  unfold putAside at h
  split at h
  · next bytes hbytes =>
    rcases h with hfile | ⟨e, he, hpath, heq⟩
    · exact has_of_setVideo_none (Or.inl hfile)
    · rcases List.mem_append.mp he with he | he
      · exact Or.inr ⟨e, he, hpath, heq⟩
      · obtain rfl := List.mem_singleton.mp he
        subst hpath heq
        exact Or.inl hbytes
  · exact h

theorem has_of_restoreHeld {e : Held} (he : e ∈ s.held)
    (h : (restoreHeld s e).has q file) : s.has q file := by
  unfold restoreHeld at h
  split at h
  · exact h
  · rcases has_of_release h with hfile | hheld
    · simp only [System.setVideo, Function.update_apply] at hfile
      split at hfile
      · next hq =>
        subst hq
        exact Or.inr ⟨e, he, rfl, Option.some.inj hfile⟩
      · exact Or.inl hfile
    · exact Or.inr hheld

theorem restoreHeld_keeps (e : Held) : (restoreHeld s e).rows = s.rows ∧
    (restoreHeld s e).manifests = s.manifests ∧ (restoreHeld s e).calls = s.calls := by
  unfold restoreHeld
  split <;> exact ⟨rfl, rfl, rfl⟩

theorem putAside_keeps (i : Nat) (job : Deletion) : (putAside s i job).rows = s.rows ∧
    (putAside s i job).manifests = s.manifests ∧ (putAside s i job).calls = s.calls := by
  unfold putAside
  split <;> exact ⟨rfl, rfl, rfl⟩

/-! ## What keeps the invariant -/

theorem Inv.shrink (h : Inv config s) (hrows : ∀ row ∈ t.rows, row ∈ s.rows)
    (hhas : ∀ path file, t.has path file → s.has path file)
    (hmanifests : ∀ path m, t.manifests path = some m → s.manifests path = some m)
    (hcalls : t.calls = s.calls) : Inv config t := by
  refine ⟨?_, ?_, ?_, ?_, ?_⟩
  · intro path file other hfile hother
    exact h.single path file other (hhas _ _ hfile) (hhas _ _ hother)
  · intro row hrow
    exact h.rowPath row (hrows row hrow)
  · intro row hrow file hfile
    exact h.row row (hrows row hrow) file (hhas _ _ hfile)
  · intro i call m hget hm file hfile
    rw [hcalls] at hget
    exact h.measure i call m hget hm file (hhas _ _ hfile)
  · intro identity file m hfile hm
    rw [hcalls]
    exact h.manifest identity file m (hhas _ _ hfile) (hmanifests _ _ hm)

theorem Inv.setVideo_none (h : Inv config s) (path : Text) : Inv config (s.setVideo path none) :=
  h.shrink (fun _ hrow => hrow) (fun _ _ hfile => has_of_setVideo_none hfile)
    (fun _ _ hm => hm) rfl

theorem Inv.setManifest_none (h : Inv config s) (path : Text) :
    Inv config (s.setManifest path none) := by
  refine h.shrink (fun _ hrow => hrow) (fun _ _ hfile => hfile) ?_ rfl
  intro q m hm
  simp only [System.setManifest, Function.update_apply] at hm
  split at hm
  · cases hm
  · exact hm

theorem Inv.release (h : Inv config s) (operation : Nat) : Inv config (s.release operation) :=
  h.shrink (fun _ hrow => hrow) (fun _ _ hfile => has_of_release hfile) (fun _ _ hm => hm) rfl

theorem Inv.restoreHeld (h : Inv config s) {e : Held} (he : e ∈ s.held) :
    Inv config (restoreHeld s e) := by
  obtain ⟨hrows, hmanifests, hcalls⟩ := restoreHeld_keeps (s := s) e
  refine h.shrink ?_ (fun _ _ hfile => has_of_restoreHeld he hfile) ?_ hcalls
  · intro row hrow
    rwa [hrows] at hrow
  · intro path m hm
    rwa [hmanifests] at hm

theorem Inv.putAside (h : Inv config s) (i : Nat) (job : Deletion) :
    Inv config (putAside s i job) := by
  obtain ⟨hrows, hmanifests, hcalls⟩ := putAside_keeps (s := s) i job
  refine h.shrink ?_ (fun _ _ hfile => has_of_putAside hfile) ?_ hcalls
  · intro row hrow
    rwa [hrows] at hrow
  · intro path m hm
    rwa [hmanifests] at hm

variable {call next : Call}

theorem Inv.goto (h : Inv config s) {i : Nat} (hget : s.calls[i]? = some call)
    (hleft : ∀ path, call.undescribed config = some path → ∀ file m, s.has path file →
      s.manifests (manifestPath path) = some m → m.describes config file)
    (hmeasure : ∀ m, next.measure config = some m → ∀ file, s.has m.place file →
      m.fits config file) : Inv config (s.goto i next) := by
  refine ⟨h.single, h.rowPath, h.row, ?_, ?_⟩
  · intro j other m hother hm file hfile
    rcases getElem?_set_some hother with ⟨-, rfl⟩ | ⟨-, hold⟩
    · exact hmeasure m hm file hfile
    · exact h.measure j other m hold hm file hfile
  · intro identity file m hfile hm
    rcases h.manifest identity file m hfile hm with hdescribes | ⟨j, other, hother, hund⟩
    · exact Or.inl hdescribes
    · by_cases hij : i = j
      · subst hij
        rw [hget] at hother
        cases hother
        exact Or.inl (hleft _ hund file m hfile hm)
      · refine Or.inr ⟨j, other, ?_, hund⟩
        show (s.calls.set i next)[j]? = some other
        rw [List.getElem?_set_ne hij]
        exact hother

theorem Inv.plain (h : Inv config s) {i : Nat} (hget : s.calls[i]? = some call)
    (hund : call.undescribed config = none) (hmeasure : next.measure config = none) :
    Inv config (s.goto i next) := by
  refine h.goto hget ?_ ?_
  · intro path hpath
    rw [hund] at hpath
    cases hpath
  · intro m hm
    rw [hmeasure] at hm
    cases hm

theorem Inv.know (h : Inv config s) {i : Nat} (hget : s.calls[i]? = some call)
    (hund : call.undescribed config = none)
    (hmeasure : ∀ m, next.measure config = some m →
      ∃ file, s.videos m.place = some file ∧ m.fits config file) :
    Inv config (s.goto i next) := by
  refine h.goto hget ?_ ?_
  · intro path hpath
    rw [hund] at hpath
    cases hpath
  · intro m hm file hfile
    obtain ⟨seen, hseen, hfits⟩ := hmeasure m hm
    rw [h.single m.place file seen hfile (Or.inl hseen)]
    exact hfits

theorem Inv.begin (h : Inv config s) (hmeasure : call.measure config = none) :
    Inv config (s.begin call) := by
  refine ⟨h.single, h.rowPath, h.row, ?_, ?_⟩
  · intro j other m hother hm file hfile
    rcases getElem?_concat_some hother with hold | ⟨-, rfl⟩
    · exact h.measure j other m hold hm file hfile
    · rw [hmeasure] at hm
      cases hm
  · intro identity file m hfile hm
    rcases h.manifest identity file m hfile hm with hdescribes | ⟨j, other, hother, hund⟩
    · exact Or.inl hdescribes
    · refine Or.inr ⟨j, other, ?_, hund⟩
      show (s.calls ++ [call])[j]? = some other
      rw [List.getElem?_append_left (List.getElem?_eq_some_iff.mp hother).1]
      exact hother

/-! ## Writing a file -/

/-- What `spare` checks. -/
structure Spared (config : ClipConfig) (s : System) (i : Nat) (path : Text) (bytes : Bytes) :
    Prop where
  held : ∀ h ∈ s.held, h.filePath ≠ path
  free : s.videos path = some bytes ∨
    ((∀ row ∈ s.rows, row.filePath = path →
        s.videos path = none ∧ row.describes config bytes) ∧
      ∀ (j : Nat) (call : Call) (m : Measure), s.calls[j]? = some call → j ≠ i →
        call.measure config = some m → m.place ≠ path)

theorem spared_of_spare {i : Nat}
    (h : spare config s i path bytes = true) : Spared config s i path bytes := by
  simp only [spare, Bool.and_eq_true, Bool.or_eq_true, List.all_eq_true, decide_eq_true_eq] at h
  obtain ⟨hheld, hfree⟩ := h
  refine ⟨hheld, ?_⟩
  rcases hfree with hsame | ⟨hrows, hcalls⟩
  · exact Or.inl hsame
  · refine Or.inr ⟨?_, ?_⟩
    · intro row hrow hpath
      rcases hrows row hrow with hne | hdescribes
      · exact absurd hpath hne
      · exact hdescribes
    · intro j call m hget hj hm
      rcases hcalls (call, j) (List.mem_zipIdx_iff_getElem?.mpr hget) with heq | hall
      · exact absurd heq hj
      · rw [hm] at hall
        simpa using hall

/-- A call writes a file that is spare, and goes on: what it knows of that file is true, and it
is no clip of an interval unless its manifest comes next. -/
theorem Inv.write (h : Inv config s) {i : Nat}
    (hget : s.calls[i]? = some call) (hspared : Spared config s i path bytes)
    (hund : call.undescribed config = none)
    (hmeasure : ∀ m, next.measure config = some m → m.place = path ∧ m.fits config bytes)
    (hpath : next.undescribed config = some path ∨
      ∀ identity, path ≠ buildRangeExportOutputPath config identity) :
    Inv config ((s.setVideo path (some bytes)).goto i next) := by
  have hhas : ∀ {q file}, ((s.setVideo path (some bytes)).goto i next).has q file →
      (q ≠ path ∧ s.has q file) ∨ (q = path ∧ file = bytes) := by
    intro q file hfile
    exact has_of_setVideo hspared.held hfile
  refine ⟨?_, h.rowPath, ?_, ?_, ?_⟩
  · intro q file other hfile hother
    rcases hhas hfile with ⟨hne, hold⟩ | ⟨hq, rfl⟩
    · rcases hhas hother with ⟨-, hold'⟩ | ⟨hq, -⟩
      · exact h.single q file other hold hold'
      · exact absurd hq hne
    · rcases hhas hother with ⟨hne, -⟩ | ⟨-, rfl⟩
      · exact absurd hq hne
      · rfl
  · intro row hrow file hfile
    rcases hhas hfile with ⟨-, hold⟩ | ⟨hq, rfl⟩
    · exact h.row row hrow file hold
    · rcases hspared.free with hsame | ⟨hrows, -⟩
      · exact h.row row hrow file (Or.inl (by rw [hq]; exact hsame))
      · exact (hrows row hrow hq).2
  · intro j other m hother hm file hfile
    rcases getElem?_set_some hother with ⟨-, rfl⟩ | ⟨hj, hold⟩
    · obtain ⟨hplace, hfits⟩ := hmeasure m hm
      rcases hhas hfile with ⟨hne, -⟩ | ⟨-, rfl⟩
      · exact absurd hplace hne
      · exact hfits
    · rcases hhas hfile with ⟨-, hfile⟩ | ⟨hq, rfl⟩
      · exact h.measure j other m hold hm file hfile
      · rcases hspared.free with hsame | ⟨-, hcalls⟩
        · exact h.measure j other m hold hm file (Or.inl (by rw [hq]; exact hsame))
        · exact absurd hq (hcalls j other m hold hj hm)
  · intro identity file m hfile hm
    rcases hhas hfile with ⟨-, hold⟩ | ⟨hq, -⟩
    · rcases h.manifest identity file m hold hm with hdescribes | ⟨j, other, hother, hmissing⟩
      · exact Or.inl hdescribes
      · have hij : i ≠ j := by
          rintro rfl
          rw [hget] at hother
          cases hother
          rw [hund] at hmissing
          cases hmissing
        refine Or.inr ⟨j, other, ?_, hmissing⟩
        show (s.calls.set i next)[j]? = some other
        rw [List.getElem?_set_ne hij]
        exact hother
    · rcases hpath with hmissing | hno
      · refine Or.inr ⟨i, next, ?_, ?_⟩
        · show (s.calls.set i next)[i]? = some next
          exact List.getElem?_set_self (List.getElem?_eq_some_iff.mp hget).1
        · rw [hmissing, hq]
      · exact absurd hq.symm (hno identity)

theorem goto_self {i : Nat} (hget : s.calls[i]? = some call) :
    s.goto i call = s := by
  obtain ⟨hlt, heq⟩ := List.getElem?_eq_some_iff.mp hget
  rw [System.goto, ← heq, List.set_getElem_self]

theorem Inv.writing (h : Inv config s) {i : Nat}
    (hget : s.calls[i]? = some call) (hspared : Spared config s i path bytes)
    (hund : call.undescribed config = none) (hmeasure : call.measure config = none)
    (hpath : ∀ identity, path ≠ buildRangeExportOutputPath config identity) :
    Inv config (s.setVideo path (some bytes)) := by
  have hinv : Inv config ((s.setVideo path (some bytes)).goto i call) := by
    refine h.write hget hspared hund ?_ (Or.inr hpath)
    intro m hm
    rw [hmeasure] at hm
    cases hm
  rwa [goto_self (s := s.setVideo path (some bytes)) hget] at hinv

/-! ## Writing a manifest, inserting a row -/

theorem Inv.setManifest (h : Inv config s) {i : Nat} {m : Manifest}
    (hget : s.calls[i]? = some call) (hund : call.undescribed config = some path)
    (hmp4 : mp4 <:+ path) (hm : ∀ file, s.has path file → m.describes config file)
    (hmeasure : ∀ n, next.measure config = some n → ∀ file, s.has n.place file →
      n.fits config file) :
    Inv config ((s.setManifest (manifestPath path) (some m)).goto i next) := by
  refine ⟨h.single, h.rowPath, h.row, ?_, ?_⟩
  · intro j other n hother hn file hfile
    rcases getElem?_set_some hother with ⟨-, rfl⟩ | ⟨-, hold⟩
    · exact hmeasure n hn file hfile
    · exact h.measure j other n hold hn file hfile
  · intro identity file n hfile hn
    by_cases hsame : buildRangeExportOutputPath config identity = path
    · left
      rw [hsame] at hn hfile
      have hwritten : some m = some n := by
        rw [← hn]
        exact (Function.update_self (manifestPath path) (some m) s.manifests).symm
      cases hwritten
      exact hm file hfile
    · have hother : manifestPath (buildRangeExportOutputPath config identity) ≠ manifestPath path :=
        fun heq => hsame (manifestPath_inj (mp4_suffix_range identity) hmp4 heq)
      have hold : s.manifests (manifestPath (buildRangeExportOutputPath config identity)) =
          some n := by
        rw [← hn]
        exact (Function.update_of_ne hother (some m) s.manifests).symm
      rcases h.manifest identity file n hfile hold with hdescribes | ⟨j, other, hget', hmissing⟩
      · exact Or.inl hdescribes
      · have hij : i ≠ j := by
          rintro rfl
          rw [hget] at hget'
          cases hget'
          rw [hund] at hmissing
          exact hsame (Option.some.inj hmissing).symm
        refine Or.inr ⟨j, other, ?_, hmissing⟩
        show (s.calls.set i next)[j]? = some other
        rw [List.getElem?_set_ne hij]
        exact hget'

theorem Inv.insert (h : Inv config s) {data : Nat → ExportedClip}
    (hmp4 : mp4 <:+ (data s.created).filePath)
    (hfits : ∀ file, s.has (data s.created).filePath file →
      (data s.created).describes config file) : Inv config (s.insert data) := by
  refine ⟨h.single, ?_, ?_, h.measure, h.manifest⟩
  · intro row hrow
    rcases List.mem_append.mp hrow with hrow | hrow
    · exact h.rowPath row hrow
    · rw [List.mem_singleton.mp hrow]
      exact hmp4
  · intro row hrow file hfile
    rcases List.mem_append.mp hrow with hrow | hrow
    · exact h.row row hrow file hfile
    · rw [List.mem_singleton.mp hrow] at hfile ⊢
      exact hfits file hfile

variable {size : Nat}

/-- What an export inserts is what it has measured. -/
theorem row_of_fits {row : ExportedClip} {place sha : Text}
    (hfits : (Measure.mk place (some sha) (some size)).fits config file)
    (hsha : row.fileSha256 = some sha) (hsize : row.sizeBytes = some size) :
    row.describes config file :=
  ⟨by rw [hsha, hfits.1 sha rfl], by rw [hsize, hfits.2 size rfl]⟩

/-! ## Steps -/

variable {answer : Answer}

theorem inv_clip (h : Inv config s) {i : Nat} {job : ClipJob} {phase : ClipPhase}
    (hget : s.calls[i]? = some (.clip job phase)) (hguard : Orderly config s (.advance i answer))
    (hstep : clipStep config s i job phase answer = some t) : Inv config t := by
  have hspare : ∀ bytes, written config s (.advance i answer) =
      some (i, job.outputPath config, bytes) →
      Spared config s i (job.outputPath config) bytes := by
    intro bytes hw
    have hall := (Bool.and_eq_true_iff.mp hguard).1
    rw [hw] at hall
    exact spared_of_spare hall
  have hmade : ∀ converted, Inv config (clipMade config s i job converted) := by
    intro converted
    unfold clipMade
    split
    · exact h.plain hget (by cases phase <;> rfl) rfl
    · exact h.plain hget (by cases phase <;> rfl) rfl
  cases phase with
  | cutting how =>
    cases answer with
    | writes bytes =>
      cases hstep
      refine h.writing hget (hspare bytes ?_) rfl rfl (clip_path_ne_range job)
      simp only [written, hget]
    | done =>
      cases hstep
      exact hmade false
    | fails =>
      cases how with
      | copy | transcode =>
        cases hstep
        exact h.plain hget rfl rfl
    | _ => cases hstep
  | checking converted =>
    cases answer with
    | verdict ok =>
      cases ok with
      | true =>
        cases hstep
        exact h.plain hget rfl rfl
      | false =>
        cases converted with
        | true | false =>
          cases hstep
          exact h.plain hget rfl rfl
    | _ => cases hstep
  | converting =>
    cases answer with
    | writes bytes =>
      cases hstep
      refine h.writing hget (hspare bytes ?_) rfl rfl (clip_path_ne_range job)
      simp only [written, hget]
    | done =>
      cases hstep
      exact hmade true
    | fails =>
      cases hstep
      exact h.plain hget rfl rfl
    | _ => cases hstep
  | measuring =>
    cases answer with
    | done =>
      simp only [clipStep] at hstep
      split at hstep
      · next bytes hbytes =>
        cases hstep
        refine h.know hget rfl (fun m hm => ?_)
        cases hm
        exact ⟨bytes, hbytes, ⟨by simp, by simp⟩⟩
      · cases hstep
        exact h.plain hget rfl rfl
    | _ => cases hstep
  | hashing size =>
    cases answer with
    | done =>
      simp only [clipStep] at hstep
      split at hstep
      · next bytes hbytes =>
        cases hstep
        refine h.know hget rfl (fun m hm => ?_)
        cases hm
        -- the size was taken before, of the same file
        have hfits := h.measure i _ _ hget rfl bytes (Or.inl hbytes)
        exact ⟨bytes, hbytes, ⟨by simp, hfits.2⟩⟩
      · cases hstep
        exact h.plain hget rfl rfl
    | fails =>
      cases hstep
      exact h.plain hget rfl rfl
    | _ => cases hstep
  | inserting sha size =>
    cases answer with
    | done =>
      simp only [clipStep] at hstep
      split at hstep
      · cases hstep
        exact h.plain hget rfl rfl
      · cases hstep
        have hinsert : Inv config (s.insert (job.data config sha size)) := by
          refine h.insert (mp4_suffix_clip job) ?_
          intro file hfile
          exact row_of_fits (h.measure i _ _ hget rfl file hfile) rfl rfl
        exact hinsert.plain (s := s.insert (job.data config sha size)) hget rfl rfl
    | fails =>
      cases hstep
      exact h.plain hget rfl rfl
    | _ => cases hstep
  | «over» outcome => cases answer <;> cases hstep

variable {sha : Text}

section Range

variable {i : Nat} {job : RangeJob} {phase : RangePhase} {work : RangeWork}

theorem Inv.nextAttempt (h : Inv config s) (hget : s.calls[i]? = some (.range job phase))
    (hund : (Call.range job phase).undescribed config = none) (rest : List RangeExportAttempt) :
    Inv config (nextAttempt s i job work rest) := by
  cases rest with
  | nil => exact h.plain hget hund rfl
  | cons attempt rest => exact h.plain hget hund rfl

theorem Inv.attemptFailed (h : Inv config s) (hget : s.calls[i]? = some (.range job phase))
    (hund : (Call.range job phase).undescribed config = none) (rest : List RangeExportAttempt) :
    Inv config (attemptFailed config s i job work rest) :=
  (h.setVideo_none _).nextAttempt (s := s.setVideo _ none) hget hund rest

theorem Inv.planned (h : Inv config s) (hget : s.calls[i]? = some (.range job phase))
    (hund : (Call.range job phase).undescribed config = none)
    (segments : List RangeSourceSegment) (pid now : Nat) :
    Inv config (planned config s i job segments pid now) := by
  unfold ClipFiles.planned
  split
  · split
    · exact h.plain hget hund rfl
    · exact h.plain hget hund rfl
  · exact h.plain hget hund rfl

theorem Inv.replaceOutput (h : Inv config s) {usada : RangeExportAttempt}
    (hget : s.calls[i]? = some (.range job (.replacing work usada sha size)))
    (hspared : ∀ bytes, s.videos (job.tmpPath config work) = some bytes →
      Spared config s i (job.outputPath config) bytes) :
    Inv config (replaceOutput config s i job work usada sha size) := by
  unfold ClipFiles.replaceOutput
  split
  · next bytes hbytes =>
    have hspared := hspared bytes hbytes
    have hne : job.outputPath config ≠ job.tmpPath config work :=
      (tmpPath_ne_mp4 job work (mp4_suffix_range job.identity)).symm
    have hsame : (s.setVideo (job.tmpPath config work) none).videos (job.outputPath config) =
        s.videos (job.outputPath config) := setVideo_ne hne none
    have hstill : Spared config (s.setVideo (job.tmpPath config work) none) i
        (job.outputPath config) bytes := by
      refine ⟨hspared.held, ?_⟩
      rw [hsame]
      exact hspared.free
    refine (h.setVideo_none _).write (s := s.setVideo _ none) hget hstill rfl ?_ (Or.inl rfl)
    intro m hm
    cases hm
    exact ⟨rfl, h.measure i _ _ hget rfl bytes (Or.inl hbytes)⟩
  · exact h.plain hget rfl rfl

theorem not_occupied (h : (!s.occupied path) = true) (file : Bytes) :
    ¬ s.has path file := by
  rw [System.occupied, Bool.not_eq_true', Bool.or_eq_false_iff] at h
  rintro (hfile | ⟨e, he, hpath, -⟩)
  · rw [hfile] at h
    cases h.1
  · have hany : s.held.any (fun h => h.filePath = path) = true :=
      List.any_eq_true.mpr ⟨e, he, by simpa using hpath⟩
    rw [hany] at h
    cases h.2

/-- Beside a file an export leaves before it has written the manifest, there is none that tells
of another. -/
theorem describes_of_settled (h : Inv config s) {usada : RangeExportAttempt}
    (hget : s.calls[i]? = some (.range job (.describing work usada sha size)))
    (hsettled : settledAt s (job.outputPath config) sha size = true) :
    ∀ path, (Call.range job (.describing work usada sha size)).undescribed config = some path →
      ∀ file m, s.has path file → s.manifests (manifestPath path) = some m →
        m.describes config file := by
  intro path hpath file m hfile hm
  cases hpath
  obtain ⟨hsha, hsize⟩ := h.measure i _ _ hget rfl file hfile
  rcases Bool.or_eq_true_iff.mp hsettled with hnone | hall
  · exact absurd hfile (not_occupied hnone file)
  · rw [hm] at hall
    have hsays : m.says sha size = true := by simpa using hall
    rw [Manifest.describes, ← hsha sha rfl, ← hsize size rfl]
    exact hsays

theorem inv_range (h : Inv config s)
    (hget : s.calls[i]? = some (.range job phase)) (hguard : Orderly config s (.advance i answer))
    (hstep : rangeStep config s i job phase answer = some t) : Inv config t := by
  obtain ⟨hspare, hcompletes⟩ := Bool.and_eq_true_iff.mp hguard
  have hspared : ∀ path bytes, written config s (.advance i answer) = some (i, path, bytes) →
      Spared config s i path bytes := by
    intro path bytes hw
    rw [hw] at hspare
    exact spared_of_spare hspare
  cases phase with
  | gating | planning | reusing =>
    cases answer with
    | done | fails =>
      cases hstep
      exact h.plain hget rfl rfl
    | _ => cases hstep
  | looking =>
    cases answer with
    | done =>
      simp only [rangeStep] at hstep
      split at hstep
      · cases hstep
        exact h.plain hget rfl rfl
      · cases hstep
        exact h.plain hget rfl rfl
    | fails =>
      cases hstep
      exact h.plain hget rfl rfl
    | _ => cases hstep
  | collecting =>
    cases answer with
    | collected segments pid now =>
      cases hstep
      exact h.planned hget rfl segments pid now
    | fails =>
      cases hstep
      exact h.plain hget rfl rfl
    | _ => cases hstep
  | preparing work =>
    cases answer with
    | hwaccel preset =>
      cases hstep
      exact h.nextAttempt hget rfl _
    | fails =>
      cases hstep
      exact h.plain hget rfl rfl
    | _ => cases hstep
  | announcing work attempt rest =>
    cases answer with
    | done | fails =>
      cases hstep
      exact h.plain hget rfl rfl
    | _ => cases hstep
  | encoding work attempt rest =>
    cases answer with
    | writes bytes =>
      cases hstep
      refine h.writing hget (hspared _ bytes ?_) rfl rfl ?_
      · simp only [written, hget]
      · intro identity
        exact tmpPath_ne_mp4 job work (mp4_suffix_range identity)
    | done =>
      simp only [rangeStep] at hstep
      split at hstep
      · cases hstep
        exact h.plain hget rfl rfl
      · cases hstep
        exact h.attemptFailed hget rfl rest
    | fails =>
      cases hstep
      exact h.attemptFailed hget rfl rest
    | _ => cases hstep
  | validating work attempt rest =>
    cases answer with
    | done =>
      cases hstep
      exact h.plain hget rfl rfl
    | fails =>
      cases hstep
      exact h.attemptFailed hget rfl rest
    | _ => cases hstep
  | inspecting work attempt rest =>
    cases answer with
    | verdict ok =>
      cases ok with
      | true =>
        cases hstep
        exact h.plain hget rfl rfl
      | false =>
        cases hstep
        exact h.attemptFailed hget rfl rest
    | _ => cases hstep
  | settled work usada =>
    cases answer with
    | done | fails =>
      cases hstep
      exact h.plain hget rfl rfl
    | _ => cases hstep
  | hashing work usada =>
    cases answer with
    | done =>
      simp only [rangeStep] at hstep
      split at hstep
      · next bytes hbytes =>
        cases hstep
        refine h.know hget rfl (fun m hm => ?_)
        cases hm
        exact ⟨bytes, hbytes, ⟨by simp, by simp⟩⟩
      · cases hstep
        exact h.plain hget rfl rfl
    | fails =>
      cases hstep
      exact h.plain hget rfl rfl
    | _ => cases hstep
  | sizing work usada sha =>
    cases answer with
    | done =>
      simp only [rangeStep] at hstep
      split at hstep
      · next bytes hbytes =>
        cases hstep
        refine h.know hget rfl (fun m hm => ?_)
        cases hm
        have hfits := h.measure i _ _ hget rfl bytes (Or.inl hbytes)
        exact ⟨bytes, hbytes, ⟨hfits.1, by simp⟩⟩
      · cases hstep
        exact h.plain hget rfl rfl
    | fails =>
      cases hstep
      exact h.plain hget rfl rfl
    | _ => cases hstep
  | replacing work usada sha size =>
    cases answer with
    | done =>
      cases hstep
      refine h.replaceOutput hget (fun bytes hbytes => hspared _ bytes ?_)
      simp only [written, hget, hbytes, Option.map_some]
    | fails =>
      cases hstep
      exact h.plain hget rfl rfl
    | _ => cases hstep
  | describing work usada sha size =>
    cases answer with
    | doneAt now =>
      cases hstep
      have hfits := h.measure i _ _ hget rfl
      refine h.setManifest hget rfl (mp4_suffix_range job.identity) ?_ ?_
      · intro file hfile
        obtain ⟨hsha, hsize⟩ := hfits file hfile
        simp [Manifest.describes, Manifest.says, RangeJob.proveniencia, ← hsha, ← hsize]
      · intro m hm
        cases hm
        exact hfits
    | fails =>
      cases hstep
      refine h.goto hget (describes_of_settled h hget ?_) ?_
      · simpa only [completes, hget] using hcompletes
      · intro m hm
        cases hm
    | breaks =>
      cases hstep
      have hnone : (!s.occupied (job.outputPath config)) = true := by
        simpa only [completes, hget] using hcompletes
      refine h.setManifest hget rfl (mp4_suffix_range job.identity) ?_ ?_
      · intro file hfile
        exact absurd hfile (not_occupied hnone file)
      · intro m hm
        cases hm
    | _ => cases hstep
  | inserting work usada sha size =>
    cases answer with
    | done =>
      simp only [rangeStep] at hstep
      split at hstep
      · cases hstep
        exact h.plain hget rfl rfl
      · cases hstep
        have hinsert : Inv config (s.insert (job.data config work sha size)) := by
          refine h.insert (mp4_suffix_range job.identity) ?_
          intro file hfile
          exact row_of_fits (h.measure i _ _ hget rfl file hfile) rfl rfl
        exact hinsert.plain (s := s.insert (job.data config work sha size)) hget rfl rfl
    | fails =>
      cases hstep
      exact h.plain hget rfl rfl
    | _ => cases hstep
  | auditing work | finishing work =>
    cases answer with
    | done | fails =>
      cases hstep
      exact h.plain hget rfl rfl
    | _ => cases hstep
  | cleaning work outcome =>
    cases answer with
    | done =>
      cases hstep
      exact (h.setVideo_none _).plain (s := s.setVideo _ none) hget rfl rfl
    | _ => cases hstep
  | «over» outcome => cases answer <;> cases hstep

end Range

theorem inv_deletion (h : Inv config s) {i : Nat} {job : Deletion} {phase : DeletionPhase}
    (hget : s.calls[i]? = some (.deletion job phase))
    (hstep : deletionStep s i job phase answer = some t) : Inv config t := by
  have haside : ∀ next : DeletionPhase,
      Inv config ((putAside s i job).goto i (.deletion job next)) := by
    intro next
    have hget' : (putAside s i job).calls[i]? = some (.deletion job phase) := by
      rw [(putAside_keeps i job).2.2]
      exact hget
    exact (h.putAside i job).plain hget' rfl rfl
  have hback : Inv config ((restoreJournal s i).goto i (.deletion job (.over .failed))) := by
    unfold restoreJournal
    split
    · next e he =>
      have hget' : (restoreHeld s e).calls[i]? = some (.deletion job phase) := by
        rw [(restoreHeld_keeps e).2.2]
        exact hget
      exact (h.restoreHeld (List.mem_of_find?_eq_some he)).plain hget' rfl rfl
    · exact h.plain hget rfl rfl
  cases phase with
  | staging =>
    cases answer with
    | done | breaks =>
      cases hstep
      exact haside _
    | fails =>
      cases hstep
      exact h.plain hget rfl rfl
    | _ => cases hstep
  | deleting =>
    cases answer with
    | done =>
      simp only [deletionStep] at hstep
      split at hstep
      · cases hstep
        have hgone : Inv config { s with
            rows := s.rows.filter (fun row => row.id ≠ job.clipId) } :=
          h.shrink (fun _ hrow => List.mem_of_mem_filter hrow) (fun _ _ hfile => hfile)
            (fun _ _ hm => hm) rfl
        exact hgone.plain (s := { s with rows := _ }) hget rfl rfl
      · cases hstep
        exact h.plain hget rfl rfl
    | fails =>
      cases hstep
      exact h.plain hget rfl rfl
    | _ => cases hstep
  | cleaning =>
    cases answer with
    | done =>
      cases hstep
      exact (h.release i).plain (s := s.release i) hget rfl rfl
    | fails =>
      cases hstep
      exact h.plain hget rfl rfl
    | _ => cases hstep
  | restoring =>
    cases answer with
    | done =>
      cases hstep
      exact hback
    | fails =>
      cases hstep
      exact h.plain hget rfl rfl
    | _ => cases hstep
  | «over» outcome => cases answer <;> cases hstep

theorem Inv.recoverOperation (h : Inv config s) (operation : Nat) :
    Inv config (recoverOperation s operation) := by
  unfold ClipFiles.recoverOperation
  split
  · next e he =>
    split
    · exact h.restoreHeld (List.mem_of_find?_eq_some he)
    · exact h.release operation
  · exact h

theorem inv_giveUp (h : Inv config s) {i : Nat} (hget : s.calls[i]? = some call)
    (hguard : Orderly config s (.giveUp i)) : Inv config (s.goto i call.stop) := by
  have hcompletes := (Bool.and_eq_true_iff.mp hguard).2
  have hmeasure : ∀ m, call.stop.measure config = some m → ∀ file, s.has m.place file →
      m.fits config file := by
    intro m hm
    cases call <;> cases hm
  refine h.goto hget ?_ hmeasure
  intro path hpath file m hfile hm
  cases call with
  | clip | deletion => cases hpath
  | range job phase =>
    cases phase with
    | describing work usada sha size =>
      refine describes_of_settled h hget ?_ path hpath file m hfile hm
      simpa only [completes, hget] using hcompletes
    | _ => cases hpath

theorem inv_step (h : Inv config s) (hguard : Orderly config s a)
    (hstep : step config s a = some t) : Inv config t := by
  cases a with
  | exportClip user recording startSeconds endSeconds =>
    obtain ⟨job, -, rfl⟩ := Option.map_eq_some_iff.mp hstep
    exact h.begin rfl
  | exportCameraRange user params =>
    obtain ⟨job, -, rfl⟩ := Option.map_eq_some_iff.mp hstep
    exact h.begin rfl
  | deleteClip clipId =>
    obtain ⟨row, -, rfl⟩ := Option.map_eq_some_iff.mp hstep
    exact h.begin rfl
  | advance i answer =>
    obtain ⟨call, hget, hadvance⟩ := Option.bind_eq_some_iff.mp hstep
    cases call with
    | clip job phase => exact inv_clip h hget hguard hadvance
    | range job phase => exact inv_range h hget hguard hadvance
    | deletion job phase => exact inv_deletion h hget hadvance
  | giveUp i =>
    obtain ⟨call, hget, hstop⟩ := Option.bind_eq_some_iff.mp hstep
    split at hstop
    · cases hstop
    · cases hstop
      exact inv_giveUp h hget hguard
  | recover operation =>
    cases hstep
    exact h.recoverOperation operation
  | removeVideo path =>
    cases hstep
    exact h.setVideo_none path
  | removeManifest path =>
    cases hstep
    exact h.setManifest_none path

theorem inv_reach (h : Reach (clipMachine config) (Orderly config) s) : Inv config s := by
  apply h.invariant (I := Inv config)
  · intro s hinit
    cases hinit
    exact inv_start
  · intro s a t hinv hguard hstep
    exact inv_step hinv hguard hstep

end Drac.Recordings.ClipFiles
