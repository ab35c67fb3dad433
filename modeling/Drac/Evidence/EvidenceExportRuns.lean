import Drac.Evidence.EvidenceExport
import Drac.Lib.Sha256

/-
  What becomes of an exported package when it is verified.

  The worker keeps a package's payload and its seal under two members of one object, and
  `verifyPackage` looks for the seal's parts beside the payload's. So the hash it is to
  compare with is missing from every file the worker writes, at the first signature and at
  a later one alike.
-/

namespace Drac.Evidence

open JsonLayout Runs

variable {ν : Type} {rt : Runtime ν} {root : Text} {s t : System ν} {a : Label ν}

/-! ## Files without a hash -/

/-- A package whose hash is not at the top. -/
def Nested (content : Members ν) : Prop := ∀ m ∈ content, m.1 ≠ "packageHash".toList

theorem signedContent_nested (payload : JsValue ν) (signature : Members ν) :
    Nested (signedContent payload signature) := by
  intro m hm
  simp only [signedContent, List.mem_cons, List.not_mem_nil, or_false] at hm
  rcases hm with rfl | rfl
  · exact (by decide : "payload".toList ≠ "packageHash".toList)
  · exact (by decide : "signature".toList ≠ "packageHash".toList)

theorem unsignedContent_nested (payload : JsValue ν) (error : Text) :
    Nested (unsignedContent payload error) := by
  intro m hm
  simp only [unsignedContent, List.mem_cons, List.not_mem_nil, or_false] at hm
  rcases hm with rfl | rfl | rfl
  · exact (by decide : "payload".toList ≠ "packageHash".toList)
  · exact (by decide : "signature".toList ≠ "packageHash".toList)
  · exact (by decide : "signatureError".toList ≠ "packageHash".toList)

theorem Nested.field_none {content : Members ν} (h : Nested content) :
    field content "packageHash".toList = none := by
  have hfind : content.find? (fun m => m.1 = "packageHash".toList) = none := by
    apply List.find?_eq_none.mpr
    intro m hm
    rw [decide_eq_true_eq]
    exact h m hm
  rw [field, hfind, Option.map_none]

theorem nested_rejected {content : Members ν} (h : Nested content) :
    parse rt.numbers (artifactText rt content) = some (.obj (plainMembers content)) ∧
      ∀ service, accepts rt service (plainMembers content) = false := by
  refine ⟨?_, ?_⟩
  · rw [artifactText, parse_stringify, plain]
  · intro service
    apply accepts_false
    rw [field_plainMembers, h.field_none]
    rfl

/-! ## What the worker writes -/

/-- The files are as they were, or one of them is a package just written. -/
def WritesPackage (rt : Runtime ν) (s t : System ν) : Prop :=
  t.files = s.files ∨ ∃ path content, Nested content ∧
    t.files = JsMap.set s.files path (artifactText rt content)

theorem writes_package (investigationId id : Text) {content : Members ν} (h : Nested content) :
    WritesPackage rt s (writePackageArtifact rt root s investigationId id content).1 :=
  Or.inr ⟨_, content, h, rfl⟩

theorem advance_files (i : Nat) (fault : Option Text) (phase : Phase ν) :
    WritesPackage rt s (advance rt root s i fault phase) := by
  cases phase with
  | writing data payload signature =>
    cases fault with
    | some error => exact Or.inl rfl
    | none => exact writes_package _ _ (signedContent_nested payload signature)
  | writingUnsigned data payload error =>
    cases fault with
    | some _ => exact Or.inl rfl
    | none => exact writes_package _ _ (unsignedContent_nested payload error)
  | rewriting data payload signature queue =>
    cases fault with
    | some error => exact Or.inl rfl
    | none => exact writes_package _ _ (signedContent_nested payload signature)
  | retry queue =>
    -- the next package of the queue is only read
    left
    cases queue with
    | nil => rfl
    | cons data queue =>
      unfold advance
      cases fault with
      | some _ => rfl
      | none =>
        dsimp only
        split
        · rfl
        · split <;> rfl
  | readRequest data =>
    left
    unfold advance
    cases fault with
    | some _ => rfl
    | none =>
      dsimp only
      split
      · rfl
      · split
        · split <;> rfl
        · split <;> rfl
  | readInvestigation data reqMeta =>
    left
    unfold advance
    cases fault with
    | some _ => rfl
    | none =>
      dsimp only
      split <;> rfl
  | progress data reqMeta inv items =>
    left
    unfold advance
    cases fault with
    | some _ => rfl
    | none =>
      dsimp only
      split <;> rfl
  | processing | ready | pending | failing | retryAll | retryReady | retryFailed =>
    left
    cases fault <;> rfl
  | ended => exact Or.inl rfl

theorem step_files (h : step rt root s a = some t) : WritesPackage rt s t := by
  cases a with
  | advance i fault =>
    obtain ⟨phase, -, rfl⟩ := Option.map_eq_some_iff.mp h
    exact advance_files i fault phase
  | clock now =>
    simp only [step] at h
    split at h
    · cases h
      exact Or.inl rfl
    · cases h
  | job | giveUp | tables | restart =>
    cases h
    exact Or.inl rfl

/-- Every file below the root is such a package. -/
def FilesNested (rt : Runtime ν) (s : System ν) : Prop :=
  ∀ e ∈ s.files, ∃ content, Nested content ∧ e.2 = artifactText rt content

theorem WritesPackage.filesNested (h : WritesPackage rt s t) (hs : FilesNested rt s) :
    FilesNested rt t := by
  intro e he
  rcases h with hsame | ⟨path, content, hcontent, hset⟩
  · rw [hsame] at he
    exact hs e he
  · rw [hset] at he
    rcases JsMap.mem_set he with hnew | hold
    · exact ⟨content, hcontent, by rw [hnew]⟩
    · exact hs e hold

theorem files_nested (h : Reach (exportMachine rt root) Always s) : FilesNested rt s := by
  apply h.invariant (I := FilesNested rt)
  · rintro s ⟨hfiles, -⟩ e he
    rw [hfiles] at he
    cases he
  · intro s a t hs _ hstep
    exact (step_files hstep).filesNested hs

theorem download_file {investigationId packageItemId raw : Text}
    (h : getExportPackageDownload s investigationId packageItemId = some raw) :
    ∃ path, (path, raw) ∈ s.files := by
  obtain ⟨pkg, -, hpkg⟩ := Option.bind_eq_some_iff.mp h
  split at hpkg
  · next path _ => exact ⟨path, JsMap.get?_mem hpkg⟩
  · cases hpkg

theorem download_rejected (h : Reach (exportMachine rt root) Always s)
    {investigationId packageItemId raw : Text}
    (hraw : getExportPackageDownload s investigationId packageItemId = some raw)
    (service : EvidenceService) :
    verifyPackageFile rt service raw = false ∧ ¬ Covered rt service raw := by
  obtain ⟨path, hmem⟩ := download_file hraw
  obtain ⟨content, hcontent, htext⟩ := files_nested h (path, raw) hmem
  obtain ⟨hparse, hrejected⟩ : _ ∧ ∀ service, accepts rt service (plainMembers content) = false :=
    nested_rejected hcontent
  rw [← htext] at hparse
  refine ⟨?_, ?_⟩
  · unfold verifyPackageFile
    rw [hparse]
    exact hrejected service
  · intro hcovered
    obtain ⟨file, hfile, haccepts, -⟩ := hcovered
    rw [hparse, Option.some.injEq, JsValue.obj.injEq] at hfile
    rw [← hfile, hrejected service] at haccepts
    cases haccepts

/-- **No exported package verifies**: in every state reached, whatever way a package became
ready, its file is refused by every verifier. -/
theorem no_package_verifies (h : Reach (exportMachine rt root) Always s)
    (investigationId packageItemId : Text) :
    ∀ pkg, findPackage s investigationId packageItemId = some pkg → isReady pkg = true →
      ∀ raw, getExportPackageDownload s investigationId packageItemId = some raw →
        ∀ service, verifyPackageFile rt service raw = false ∧ ¬ Covered rt service raw := by
  intro pkg _ _ raw hraw service
  exact download_rejected h hraw service

/-! ## A run -/

def sha256Text (t : Text) : Text := Sha256.hexDigest (Sha256.utf8 t)

def hmacText (secret t : Text) : Text := Sha256.hexHmac (Sha256.utf8 secret) (Sha256.utf8 t)

theorem hex_isHexDigit (bytes : List Nat) : (Sha256.hex bytes).all isHexDigit = true := by
  have hdigits : "0123456789abcdef".toList.all isHexDigit = true := by decide
  exact List.all_eq_true.mpr (fun c hc => List.all_eq_true.mp hdigits c (Sha256.mem_hex hc))

theorem sha256Text_hex (t : Text) : HexText (sha256Text t) :=
  ⟨Sha256.hexDigest_ne_nil _, hex_isHexDigit _⟩

theorem hmacText_hex (secret t : Text) : HexText (hmacText secret t) :=
  ⟨Sha256.hexHmac_ne_nil _ _, hex_isHexDigit _⟩

/-- The runtime of the runs: keys of letters, one moment. -/
def exampleRuntime : Runtime Int where
  numbers := wholeNumbers
  number n := n
  localeCompare a b := compare (a.map Char.toLower) (b.map Char.toLower)
  iso _ := "2026-03-04T12:00:00.000Z".toList
  sha256Hex := sha256Text
  hmacSha256Hex := hmacText
  sha256_hex := sha256Text_hex
  hmac_hex := hmacText_hex

def exampleRoot : Text := "storage/evidence-packages".toList

def exampleService : EvidenceService :=
  ⟨"segredo-de-teste-com-tamanho-suficiente".toList, "local-v1".toList⟩

def exampleJob : ExecuteExportJob where
  investigationId := "case".toList
  requestId := "request".toList
  packageItemId := "package".toList
  executionReason := "perícia".toList
  executedByUserId := "user".toList
  executedByUserName := "Ana".toList

/-- A case with one event, an approved request and a package that waits. -/
def exampleItems : List (InvestigationItem Int) :=
  [⟨"event-1".toList, "case".toList, "event".toList, "Portão".toList, none, none, 1772625600000,
      .null⟩,
    ⟨"request".toList, "case".toList, "export_request".toList, "Solicitação".toList, none, none,
      1772625600000, .obj [("status".toList, text "APPROVED")]⟩,
    ⟨"package".toList, "case".toList, "export_package".toList, "Pacote".toList, none, none,
      1772625600000, .obj [("status".toList, text "QUEUED")]⟩]

def exampleStart (service : EvidenceService) : System Int where
  clock := 1772625600000
  service := service
  investigations := [⟨"case".toList, "Caso".toList⟩]
  items := exampleItems
  files := []
  jobs := []

def firstSignature : List (Label Int) :=
  [.job (.executeExport exampleJob), .advance 0 none, .advance 0 none, .advance 0 none,
    .advance 0 none, .advance 0 none, .advance 0 none]

/-- The same with the secret missing at first, and set before the signature is tried again. -/
def secondSignature : List (Label Int) :=
  firstSignature ++ ([.restart exampleService, .job .retryAllPendingSignatures, .advance 1 none,
    .advance 1 none, .advance 1 none, .advance 1 none] : List (Label Int))

def readyAndThere (s : System Int) : Bool :=
  (findPackage s "case".toList "package".toList).any isReady &&
    (getExportPackageDownload s "case".toList "package".toList).isSome

theorem reach_of_run {service : EvidenceService} {labels : List (Label Int)}
    (hrun : (Machine.run (exportMachine exampleRuntime exampleRoot) anyStep
      (exampleStart service) labels).map readyAndThere = some true) :
    ∃ s pkg raw, Reach (exportMachine exampleRuntime exampleRoot) Always s ∧
      findPackage s "case".toList "package".toList = some pkg ∧ isReady pkg = true ∧
      getExportPackageDownload s "case".toList "package".toList = some raw := by
  obtain ⟨s, hs, hready⟩ := Option.map_eq_some_iff.mp hrun
  have hpath : Path (exportMachine exampleRuntime exampleRoot) Always (exampleStart service) s :=
    path_of_run (fun _ _ _ => trivial) _ hs
  obtain ⟨hpkg, hraw⟩ := Bool.and_eq_true_iff.mp hready
  obtain ⟨pkg, hfind, hpkg⟩ := (Option.any_eq_true _ _).mp hpkg
  obtain ⟨raw, hraw⟩ := Option.isSome_iff_exists.mp hraw
  exact ⟨s, pkg, raw, ⟨exampleStart service, ⟨rfl, rfl⟩, hpath⟩, hfind, hpkg, hraw⟩

/-- The package signed at once is ready, and its file does not verify. -/
theorem first_export_rejected : ∃ s pkg raw,
    Reach (exportMachine exampleRuntime exampleRoot) Always s ∧
      findPackage s "case".toList "package".toList = some pkg ∧ isReady pkg = true ∧
      getExportPackageDownload s "case".toList "package".toList = some raw ∧
      ¬ Covered exampleRuntime exampleService raw := by
  have hrun : (Machine.run (exportMachine exampleRuntime exampleRoot) anyStep
      (exampleStart exampleService) firstSignature).map readyAndThere = some true := by
    decide +kernel
  obtain ⟨s, pkg, raw, hreach, hfind, hready, hraw⟩ := reach_of_run hrun
  exact ⟨s, pkg, raw, hreach, hfind, hready, hraw,
    (download_rejected hreach hraw exampleService).2⟩

/-- The package whose signature came later is no better. -/
theorem no_package_verifies_retried : ∃ s raw,
    Reach (exportMachine exampleRuntime exampleRoot) Always s ∧
      getExportPackageDownload s "case".toList "package".toList = some raw ∧
      verifyPackageFile exampleRuntime exampleService raw = false ∧
      ¬ Covered exampleRuntime exampleService raw := by
  have hrun : (Machine.run (exportMachine exampleRuntime exampleRoot) anyStep
      (exampleStart ⟨[], []⟩) secondSignature).map readyAndThere = some true := by
    decide +kernel
  obtain ⟨s, pkg, raw, hreach, hfind, hready, hraw⟩ := reach_of_run hrun
  exact ⟨s, raw, hreach, hraw,
    no_package_verifies hreach "case".toList "package".toList pkg hfind hready raw hraw
      exampleService⟩

end Drac.Evidence
