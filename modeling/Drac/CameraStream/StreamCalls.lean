import Drac.CameraStream.StreamPaths
import Drac.Recordings.FileDeletionJournal

/-
  The calls of the service, and which of them wait for which.

  Whatever a call does, it stays a call for its camera, and begins again at most later. A
  request in flight began after the camera's last invalidation, and who waits for one waits
  for a request of the same camera that did not begin before (`Wired`).
-/

namespace Drac.CameraStream.StreamPaths

open Runs Security Cameras

variable {net : CameraNetwork} {s t : System} {i : Nat} {call : Call} {row : Camera}

/-! ## Keys -/

theorem length_idText (id : CameraId) : (idText id).length = 36 := by
  rw [idText, List.length_map]
  exact Recordings.fits_length id.shaped

theorem idText_injective {a b : CameraId} (h : idText a = idText b) : a = b := by
  have htext : a.text = b.text := by
    apply List.map_injective_iff.mpr _ h
    intro c d hcd
    exact Char.toNat_inj.mp hcd
  cases a
  cases b
  cases htext
  rfl

/-- A text that begins with a camera's id begins with no other. -/
theorem idText_append_inj {a b : CameraId} {p q : Text} (h : idText a ++ p = idText b ++ q) :
    a = b := by
  have hlen : (idText a).length = (idText b).length := by
    rw [length_idText, length_idText]
  exact idText_injective (List.append_inj_left h hlen)

theorem buildEnsureKey_id {a b : CameraId} {m n : LiveViewMode}
    (h : buildEnsureKey a m = buildEnsureKey b n) : a = b := idText_append_inj h

theorem mine_prefix (id : CameraId) (mode : LiveViewMode) :
    idText id ++ [colon] <+: buildEnsureKey id mode := by
  refine ⟨mode.text, ?_⟩
  simp [buildEnsureKey]

/-- After an invalidation no path of the camera is cached or asked for. -/
theorem invalidated_none {β : Type} (m : List (Text × β)) (id : CameraId) (mode : LiveViewMode) :
    JsMap.get? (m.filter (fun e => !decide (idText id ++ [colon] <+: e.1)))
      (buildEnsureKey id mode) = none := by
  rw [JsMap.get?_filter (fun k => !decide (idText id ++ [colon] <+: k)), if_neg]
  simp only [Bool.not_eq_true', decide_eq_false_iff_not, Decidable.not_not]
  exact mine_prefix id mode

/-! ## A call goes on -/

theorem enter_same : (s.enter i call).rows = s.rows ∧ (s.enter i call).clock = s.clock ∧
    (s.enter i call).history = s.history ∧ (s.enter i call).server = s.server ∧
    (s.enter i call).liveCodecCache = s.liveCodecCache ∧
    (s.enter i call).liveSourceCache = s.liveSourceCache ∧
    (s.enter i call).gridSourceCache = s.gridSourceCache ∧
    (s.enter i call).pathEnsureCache = s.pathEnsureCache := by
  unfold System.enter
  split
  · exact ⟨rfl, rfl, rfl, rfl, rfl, rfl, rfl, rfl⟩
  · exact ⟨rfl, rfl, rfl, rfl, rfl, rfl, rfl, rfl⟩

@[simp] theorem enter_rows : (s.enter i call).rows = s.rows := enter_same.1

@[simp] theorem enter_clock : (s.enter i call).clock = s.clock := enter_same.2.1

@[simp] theorem enter_history : (s.enter i call).history = s.history := enter_same.2.2.1

@[simp] theorem enter_server : (s.enter i call).server = s.server := enter_same.2.2.2.1

@[simp] theorem enter_liveCodecCache : (s.enter i call).liveCodecCache = s.liveCodecCache :=
  enter_same.2.2.2.2.1

@[simp] theorem enter_liveSourceCache : (s.enter i call).liveSourceCache = s.liveSourceCache :=
  enter_same.2.2.2.2.2.1

@[simp] theorem enter_gridSourceCache : (s.enter i call).gridSourceCache = s.gridSourceCache :=
  enter_same.2.2.2.2.2.2.1

@[simp] theorem enter_pathEnsureCache : (s.enter i call).pathEnsureCache = s.pathEnsureCache :=
  enter_same.2.2.2.2.2.2.2

theorem get?_enter_inFlight {k : Text} {r : Nat}
    (h : JsMap.get? (s.enter i call).pathEnsureInFlight k = some r) :
    JsMap.get? s.pathEnsureInFlight k = some r := by
  unfold System.enter at h
  split at h
  · change JsMap.get? (if _ then _ else _) k = some r at h
    split at h
    · exact JsMap.get?_of_erase h
    · exact h
  · exact h

theorem hears_camera {other : Call} {outcome : Outcome} :
    (other.hears i call outcome).cameraId = other.cameraId ∧
      (other.hears i call outcome).began = other.began := by
  unfold Call.hears
  split
  · split <;> exact ⟨rfl, rfl⟩
  · exact ⟨rfl, rfl⟩

theorem hears_cases (other : Call) (i : Nat) (call : Call) (outcome : Outcome) :
    other.hears i call outcome = other ∨ (other.phase = .joined i ∧ other.hears i call outcome =
      { other with used := min other.used call.used, phase := .ended outcome }) := by
  unfold Call.hears
  split
  · next request hphase =>
    split
    · next heq => exact .inr ⟨heq ▸ hphase, rfl⟩
    · exact .inl rfl
  · exact .inl rfl

theorem mem_enter {c : Call} (h : c ∈ (s.enter i call).calls) :
    c = call ∨ c ∈ s.calls ∨ ∃ other ∈ s.calls, ∃ outcome, call.phase = .ended outcome ∧
      other.phase = .joined i ∧
      c = { other with used := min other.used call.used, phase := .ended outcome } := by
  unfold System.enter at h
  split at h
  · next outcome hphase =>
    obtain ⟨other, hother, rfl⟩ := List.mem_map.mp h
    obtain hmem | rfl := List.mem_or_eq_of_mem_set hother
    · obtain heq | ⟨hjoined, heq⟩ := hears_cases other i call outcome
      · rw [heq]
        exact .inr (.inl hmem)
      · exact .inr (.inr ⟨other, hmem, outcome, hphase, hjoined, heq⟩)
    · refine .inl ?_
      unfold Call.hears
      rw [hphase]
  · obtain hmem | heq := List.mem_or_eq_of_mem_set h
    · exact .inr (.inl hmem)
    · exact .inl heq

/-- A call stays one of its camera, and did not begin before. -/
def Stays (c c' : Call) : Prop := c'.cameraId = c.cameraId ∧ c.began ≤ c'.began

theorem stays_enter {old c : Call} {r : Nat} (hold : s.calls[i]? = some old) (hstays : Stays old call)
    (h : s.calls[r]? = some c) : ∃ c', (s.enter i call).calls[r]? = some c' ∧ Stays c c' := by
  have hset : ∃ c', (s.calls.set i call)[r]? = some c' ∧ Stays c c' := by
    by_cases hri : i = r
    · subst hri
      rw [hold] at h
      cases h
      refine ⟨call, ?_, hstays⟩
      rw [List.getElem?_set_self (List.getElem?_eq_some_iff.mp hold).1]
    · refine ⟨c, ?_, rfl, le_refl _⟩
      rw [List.getElem?_set_ne hri]
      exact h
  obtain ⟨c', hc', hs⟩ := hset
  unfold System.enter
  split
  · next outcome _ =>
    refine ⟨c'.hears i call outcome, ?_, ?_⟩
    · show ((s.calls.set i call).map _)[r]? = _
      rw [List.getElem?_map, hc']
      rfl
    · unfold Stays
      rw [hears_camera.1, hears_camera.2]
      exact hs
  · exact ⟨c', hc', hs⟩

/-! ## Who waits for whom -/

/-- The calls, the requests in flight and who waits for them fit together. -/
structure Wired (s : System) : Prop where
  began : ∀ c ∈ s.calls, c.began ≤ s.history.epoch c.cameraId
  inFlight : ∀ id mode r, JsMap.get? s.pathEnsureInFlight (buildEnsureKey id mode) = some r →
    ∃ c, s.calls[r]? = some c ∧ c.cameraId = id ∧ s.history.epoch id ≤ c.began
  joined : ∀ c ∈ s.calls, ∀ r, c.phase = .joined r → ∃ c', s.calls[r]? = some c' ∧ Stays c c'

/-- The call may take its place among the others. -/
structure Joins (s : System) (call : Call) : Prop where
  began : call.began ≤ s.history.epoch call.cameraId
  joined : ∀ r, call.phase = .joined r → ∃ c', s.calls[r]? = some c' ∧ Stays call c'

theorem wired_enter {old : Call} (hw : Wired s) (hold : s.calls[i]? = some old)
    (hstays : Stays old call) (hjoins : Joins s call) : Wired (s.enter i call) := by
  refine ⟨?_, ?_, ?_⟩
  · intro c hc
    rw [enter_history]
    obtain rfl | hmem | ⟨other, hother, _, _, _, rfl⟩ := mem_enter hc
    · exact hjoins.began
    · exact hw.began c hmem
    · exact hw.began other hother
  · intro id mode r hr
    obtain ⟨c, hc, hcamera, hbegan⟩ := hw.inFlight id mode r (get?_enter_inFlight hr)
    obtain ⟨c', hc', hs⟩ := stays_enter hold hstays hc
    refine ⟨c', hc', hs.1.trans hcamera, ?_⟩
    rw [enter_history]
    exact hbegan.trans hs.2
  · intro c hc r hr
    have hbefore : ∃ c', s.calls[r]? = some c' ∧ Stays c c' := by
      obtain rfl | hmem | ⟨other, _, _, _, _, rfl⟩ := mem_enter hc
      · exact hjoins.joined r hr
      · exact hw.joined c hmem r hr
      · cases hr
    obtain ⟨c', hc', hs⟩ := hbefore
    obtain ⟨c'', hc'', hs'⟩ := stays_enter hold hstays hc'
    exact ⟨c'', hc'', hs'.1.trans hs.1, hs.2.trans hs'.2⟩

/-- The calls and the requests under way are as they were. -/
structure SameCalls (s t : System) : Prop where
  calls : t.calls = s.calls
  inFlight : t.pathEnsureInFlight = s.pathEnsureInFlight
  epoch : t.history.epoch = s.history.epoch

theorem SameCalls.wired (h : SameCalls s t) (hw : Wired s) : Wired t := by
  refine ⟨?_, ?_, ?_⟩
  · rw [h.calls, h.epoch]
    exact hw.began
  · rw [h.inFlight, h.calls, h.epoch]
    exact hw.inFlight
  · rw [h.calls]
    exact hw.joined

theorem wired_invalidate (hw : Wired s) (id : CameraId) : Wired (invalidateMainCodecCache s id) := by
  have hepoch : ∀ id', s.history.epoch id' ≤ (invalidateMainCodecCache s id).history.epoch id' := by
    intro id'
    show _ ≤ Function.update s.history.epoch id (s.history.epoch id + 1) id'
    by_cases heq : id' = id
    · subst heq
      rw [Function.update_self]
      omega
    · rw [Function.update_of_ne heq]
  refine ⟨?_, ?_, hw.joined⟩
  · intro c hc
    exact (hw.began c hc).trans (hepoch c.cameraId)
  · intro id' mode r hr
    by_cases heq : id' = id
    · subst heq
      have hnone := invalidated_none s.pathEnsureInFlight id' mode
      exact absurd (hr.symm.trans hnone) (Option.some_ne_none r)
    · obtain ⟨c, hc, hcamera, hbegan⟩ := hw.inFlight id' mode r
        (JsMap.get?_of_filter (p := fun k => !decide (idText id ++ [colon] <+: k)) hr)
      refine ⟨c, hc, hcamera, ?_⟩
      show Function.update s.history.epoch id (s.history.epoch id + 1) id' ≤ c.began
      rw [Function.update_of_ne heq]
      exact hbegan

theorem wired_withCall (hw : Wired s) (id : CameraId) (task : Task) :
    Wired (s.withCall (newCall s id task)) := by
  have hkept : ∀ {r : Nat} {c : Call}, s.calls[r]? = some c →
      (s.withCall (newCall s id task)).calls[r]? = some c := by
    intro r c h
    show (s.calls ++ [newCall s id task])[r]? = some c
    rw [List.getElem?_append_left (List.getElem?_eq_some_iff.mp h).1]
    exact h
  refine ⟨?_, ?_, ?_⟩
  · intro c hc
    obtain hmem | heq := List.mem_append.mp hc
    · exact hw.began c hmem
    · rw [List.mem_singleton.mp heq]
      exact le_refl _
  · intro id' mode r hr
    obtain ⟨c, hc, hcamera⟩ := hw.inFlight id' mode r hr
    exact ⟨c, hkept hc, hcamera⟩
  · intro c hc r hr
    obtain hmem | heq := List.mem_append.mp hc
    · obtain ⟨c', hc', hs⟩ := hw.joined c hmem r hr
      exact ⟨c', hkept hc', hs⟩
    · rw [List.mem_singleton.mp heq] at hr
      cases hr

/-! ## Choices -/

def Phase.chosen : Phase → Bool
  | .loading | .tearing _ _ | .joined _ | .resetting | .ended (.path _) | .ended .torn => false
  | _ => true

/-- The row a call goes by was read while the camera was on. -/
def Phase.readOn : Phase → Bool
  | .healing row _ | .ladder row _ _ _ | .primaries row _ _ | .codec row _ | .gpu row _
  | .sourceReading row _ | .sourceDeleting row _ | .sourceAdding row _ | .pathReading row _
  | .pathDeleting row _ | .pathAdding row _ | .settling row _ => row.enabled
  | _ => true

/-- What a call does next about a row it has read, which stays the row it goes by. -/
structure Chooses (row : Camera) (call call' : Call) : Prop where
  camera : call'.cameraId = call.cameraId
  task : call'.task = call.task
  began : call'.began = call.began
  phase : call'.phase.chosen = true
  readOn : row.enabled = true → call'.phase.readOn = true

theorem Chooses.of_uses {n : Nat} {c : Call} (h : Chooses row (call.uses n) c) :
    Chooses row call c :=
  ⟨h.camera, h.task, h.began, h.phase, h.readOn⟩

theorem chooses_chosen (d : Decision) : Chooses row call (chosen call row d) := by
  unfold chosen
  split
  · exact ⟨rfl, rfl, rfl, rfl, fun _ => rfl⟩
  · split
    · split <;> exact ⟨rfl, rfl, rfl, rfl, id⟩
    · exact ⟨rfl, rfl, rfl, rfl, id⟩

theorem chooses_afterSource (url : Text) (codec : Option Text) :
    Chooses row call (afterSource s call row url codec) := by
  unfold afterSource
  split
  · exact chooses_chosen _
  · split
    · exact chooses_chosen _
    · split
      · exact (chooses_chosen _).of_uses
      · exact ⟨rfl, rfl, rfl, rfl, id⟩

theorem chooses_live : Chooses row call (chooseLiveSource net s call row) := by
  unfold chooseLiveSource
  dsimp only
  split
  · exact ⟨rfl, rfl, rfl, rfl, fun _ => rfl⟩
  · split
    · exact chooses_afterSource _ _
    · split
      · exact (chooses_afterSource _ _).of_uses
      · split
        · exact ⟨rfl, rfl, rfl, rfl, fun _ => rfl⟩
        · exact ⟨rfl, rfl, rfl, rfl, id⟩

theorem chooses_useGrid (e : GridEntry) : Chooses row call (useGrid net s call row e) := by
  unfold useGrid
  split
  · exact (chooses_chosen _).of_uses
  · exact chooses_live.of_uses

theorem chooses_startLadder : Chooses row call (startLadder net call row) := by
  unfold startLadder
  dsimp only
  split
  · exact ⟨rfl, rfl, rfl, rfl, fun _ => rfl⟩
  · exact ⟨rfl, rfl, rfl, rfl, id⟩

theorem chooses_grid : Chooses row call (chooseGridSource net s call row) := by
  unfold chooseGridSource
  split
  · split
    · exact ⟨rfl, rfl, rfl, rfl, id⟩
    · exact chooses_useGrid _
  · exact chooses_startLadder

/-- A step of a choice: it leaves everything as it was but for the cached decisions. -/
structure Chose (row : Camera) (s : System) (call : Call) (m : Move) : Prop where
  choice : Chooses row call m.2
  rows : m.1.rows = s.rows
  paths : m.1.pathEnsureCache = s.pathEnsureCache
  inFlight : m.1.pathEnsureInFlight = s.pathEnsureInFlight
  server : m.1.server = s.server
  calls : m.1.calls = s.calls
  history : m.1.history = s.history

theorem chose_healed (cached : GridEntry) (dead : Bool) :
    Chose row s call (healed net s call row cached dead) := by
  unfold healed
  split
  · exact ⟨chooses_startLadder, rfl, rfl, rfl, rfl, rfl, rfl⟩
  · split
    · exact ⟨chooses_useGrid _, rfl, rfl, rfl, rfl, rfl, rfl⟩
    · exact ⟨chooses_startLadder, rfl, rfl, rfl, rfl, rfl, rfl⟩

theorem chose_decideGrid (found : List Found) :
    Chose row s call (decideGrid net s call row found) := by
  unfold decideGrid
  dsimp only
  split
  · exact ⟨chooses_chosen _, rfl, rfl, rfl, rfl, rfl, rfl⟩
  · exact ⟨chooses_live, rfl, rfl, rfl, rfl, rfl, rfl⟩

theorem chose_probedStream (found : List Found) (rest : List Text) :
    Chose row s call (probedStream net s call row found rest) := by
  cases rest with
  | nil => exact chose_decideGrid found
  | cons next rest =>
    simp only [probedStream]
    split
    · exact chose_decideGrid found
    · exact ⟨⟨rfl, rfl, rfl, rfl, id⟩, rfl, rfl, rfl, rfl, rfl, rfl⟩

theorem chose_probedPrimaries (url alternate : Text) (primary other : Option Metadata) :
    Chose row s call (probedPrimaries s call row url alternate primary other) :=
  ⟨chooses_afterSource _ _, rfl, rfl, rfl, rfl, rfl, rfl⟩

theorem chose_probedCodec (url : Text) (codec : Option Text) :
    Chose row s call (probedCodec s call row url codec) := by
  unfold probedCodec
  dsimp only
  split
  · exact ⟨chooses_chosen _, rfl, rfl, rfl, rfl, rfl, rfl⟩
  · exact ⟨chooses_chosen _, rfl, rfl, rfl, rfl, rfl, rfl⟩

/-! ## Steps -/

/-- A move of one call that keeps the rest wired. -/
structure Follows (s : System) (i : Nat) (call : Call) (m : Move) : Prop where
  calls : m.1.calls = s.calls
  stays : Stays call m.2
  wired : Wired (m.1.enter i m.2)

theorem follows_of_wired {call' : Call} (hcalls : t.calls = s.calls) (hw : Wired t)
    (hcall : s.calls[i]? = some call) (hstays : Stays call call') (hjoins : Joins t call') :
    Follows s i call (t, call') :=
  ⟨hcalls, hstays, wired_enter hw (hcalls ▸ hcall) hstays hjoins⟩

theorem follows_same {call' : Call} (hw : Wired s) (hcall : s.calls[i]? = some call)
    (hsame : SameCalls s t) (hcamera : call'.cameraId = call.cameraId)
    (hbegan : call'.began = call.began) (halone : ∀ r, call'.phase ≠ .joined r) :
    Follows s i call (t, call') := by
  apply follows_of_wired hsame.calls (hsame.wired hw) hcall ⟨hcamera, hbegan.ge⟩
  refine ⟨?_, ?_⟩
  · rw [hsame.epoch, hcamera, hbegan]
    exact hw.began call (List.mem_of_getElem? hcall)
  · intro r hr
    exact absurd hr (halone r)

theorem follows_goto {phase : Phase} (hw : Wired s) (hcall : s.calls[i]? = some call)
    (hsame : SameCalls s t) (halone : ∀ r, phase ≠ .joined r) :
    Follows s i call (t, call.goto phase) :=
  follows_same hw hcall hsame rfl rfl halone

theorem follows_choice {call' : Call} (hw : Wired s) (hcall : s.calls[i]? = some call)
    (hsame : SameCalls s t) (h : Chooses row call call') : Follows s i call (t, call') := by
  apply follows_same hw hcall hsame h.camera h.began
  intro r hr
  have hphase := h.phase
  rw [hr] at hphase
  cases hphase

theorem follows_chose {m : Move} (hw : Wired s) (hcall : s.calls[i]? = some call)
    (h : Chose row s call m) : Follows s i call m := by
  apply follows_choice hw hcall _ h.choice
  refine ⟨h.calls, h.inFlight, ?_⟩
  rw [h.history]

theorem SameCalls.refl (s : System) : SameCalls s s := ⟨rfl, rfl, rfl⟩

theorem sameCalls_deletePath (s : System) (name : Text) (answer : Answer) :
    SameCalls s (deletePath s name answer) := by
  cases answer <;> exact ⟨rfl, rfl, rfl⟩

theorem sameCalls_noteTornDown (s : System) (id : CameraId) (off : Option Nat) :
    SameCalls s (noteTornDown s id off) := by
  unfold noteTornDown
  split <;> exact ⟨rfl, rfl, rfl⟩

theorem follows_enterTeardown (hw : Wired s) (hcall : s.calls[i]? = some call)
    (rest : List (LiveViewMode × Bool)) (off : Option Nat) :
    Follows s i call (enterTeardown s call rest off) := by
  unfold enterTeardown
  split
  · have hsame := sameCalls_noteTornDown (invalidateMainCodecCache s call.cameraId)
      call.cameraId off
    have hinv := wired_invalidate hw call.cameraId
    refine follows_of_wired hsame.calls (hsame.wired hinv) hcall ⟨rfl, le_refl _⟩ ⟨?_, ?_⟩
    · rw [hsame.epoch]
      exact hinv.began call (List.mem_of_getElem? hcall)
    · intro r h
      cases h
  · apply follows_goto hw hcall
    · split
      · exact .refl s
      · exact ⟨rfl, rfl, rfl⟩
    · intro r h
      cases h

theorem wired_request {id : CameraId} {mode : LiveViewMode} {c : Call} (hw : Wired s)
    (hcall : s.calls[i]? = some c) (hcamera : c.cameraId = id)
    (hbegan : s.history.epoch id ≤ c.began) :
    Wired { s with
      pathEnsureInFlight := JsMap.set s.pathEnsureInFlight (buildEnsureKey id mode) i } := by
  refine ⟨hw.began, ?_, hw.joined⟩
  intro id' mode' r hr
  change JsMap.get? (JsMap.set _ _ _) _ = some r at hr
  rw [JsMap.get?_set] at hr
  split at hr
  · next hkey =>
    cases hr
    rw [← buildEnsureKey_id hkey]
    exact ⟨c, hcall, hcamera, hbegan⟩
  · exact hw.inFlight id' mode' r hr

theorem follows_ensure (hw : Wired s) (hcall : s.calls[i]? = some call) {call' : Call}
    (hcamera : call'.cameraId = call.cameraId)
    (hbegan : call'.began = s.history.epoch call.cameraId) :
    Follows s i call (ensurePathForCamera s i call') := by
  have hstays : Stays call call' :=
    ⟨hcamera, (hw.began call (List.mem_of_getElem? hcall)).trans_eq hbegan.symm⟩
  have hepoch : call'.began ≤ s.history.epoch call'.cameraId := by
    rw [hcamera, hbegan]
  unfold ensurePathForCamera
  dsimp only
  split
  · refine follows_of_wired rfl hw hcall hstays ⟨hepoch, ?_⟩
    intro r h
    cases h
  · split
    · next request hrequest =>
      refine follows_of_wired rfl hw hcall hstays ⟨hepoch, ?_⟩
      intro r h
      cases h
      obtain ⟨c, hc, hid, hlater⟩ := hw.inFlight _ _ _ hrequest
      refine ⟨c, hc, hid, ?_⟩
      rw [hcamera] at hlater
      exact hbegan.le.trans hlater
    · refine ⟨rfl, hstays, ?_⟩
      have hloading : Wired (s.enter i (call'.goto .loading)) := by
        refine wired_enter hw hcall hstays ⟨hepoch, ?_⟩
        intro r h
        cases h
      have hself : (s.calls.set i (call'.goto .loading))[i]? = some (call'.goto .loading) :=
        List.getElem?_set_self (List.getElem?_eq_some_iff.mp hcall).1
      apply wired_request hloading hself rfl
      show s.history.epoch call'.cameraId ≤ call'.began
      rw [hcamera, hbegan]

theorem follows_loaded (hw : Wired s) (hcall : s.calls[i]? = some call) :
    Follows s i call (loaded net s call) := by
  have hreject : Follows s i call (s, call.reject) := by
    apply follows_goto hw hcall (.refl s)
    intro r h
    cases h
  unfold loaded
  split
  · exact hreject
  · split
    · apply follows_choice hw hcall (.refl s)
      split
      · exact chooses_grid
      · exact chooses_live
    · split
      · exact hreject
      · exact follows_enterTeardown hw hcall _ _

theorem follows_tearStep {m : Move} {rest : List (LiveViewMode × Bool)} {off : Option Nat}
    {answer : Answer} (hw : Wired s) (hcall : s.calls[i]? = some call)
    (h : tearStep s call off answer rest = some m) : Follows s i call m := by
  unfold tearStep at h
  split at h
  · cases h
  · next mode source rest =>
    have hsame := sameCalls_deletePath s (pathNameOf call.cameraId mode source) answer
    have hfollows := follows_enterTeardown (hsame.wired hw) (hsame.calls ▸ hcall) rest off
    split at h
    all_goals cases h
    all_goals exact ⟨hfollows.calls.trans hsame.calls, hfollows.stays, hfollows.wired⟩

theorem follows_recovered (hw : Wired s) (hcall : s.calls[i]? = some call)
    (hsame : SameCalls s t) : Follows s i call (recovered t i call) := by
  have hcall' : t.calls[i]? = some call := hsame.calls ▸ hcall
  have hfollows : Follows t i call (recovered t i call) :=
    follows_ensure (hsame.wired hw) hcall' rfl rfl
  exact ⟨hfollows.calls.trans hsame.calls, hfollows.stays, hfollows.wired⟩

theorem follows_advance {m : Move} {answer : Answer} (hw : Wired s)
    (hcall : s.calls[i]? = some call) (h : advance net s i call call.phase answer = some m) :
    Follows s i call m := by
  have hgoto : ∀ {t : System} {phase : Phase}, SameCalls s t → (∀ r, phase ≠ .joined r) →
      Follows s i call (t, call.goto phase) := follows_goto hw hcall
  unfold advance at h
  split at h
  any_goals cases h
  any_goals exact hgoto ⟨rfl, rfl, rfl⟩ nofun
  · exact follows_loaded hw hcall
  · exact follows_chose hw hcall (chose_healed _ _)
  · exact follows_chose hw hcall (chose_probedStream _ _)
  · exact follows_chose hw hcall (chose_probedPrimaries _ _ _ _)
  · exact follows_chose hw hcall (chose_probedCodec _ _)
  · -- the private source is there as it is wanted
    split at h
    · cases h
      exact hgoto (.refl s) nofun
    · cases h
  · -- and the path
    split at h
    · cases h
      exact hgoto (.refl s) nofun
    · cases h
  · exact follows_tearStep hw hcall h
  all_goals exact follows_recovered hw hcall ⟨rfl, rfl, rfl⟩

theorem follows_start {task : Task} (hw : Wired s) (hcall : s.calls[i]? = some call)
    (hbegan : call.began = s.history.epoch call.cameraId) (hphase : call.phase = .loading) :
    Follows s i call (startCall s i call task) := by
  cases task with
  | ensure mode => exact follows_ensure hw hcall rfl hbegan
  | recover mode => exact follows_goto hw hcall (.refl s) nofun
  | poster =>
    apply follows_same hw hcall (.refl s) rfl rfl
    intro r hr
    cases hphase.symm.trans hr
  | teardown => exact follows_enterTeardown hw hcall teardownPaths (s.offSince call.cameraId)

theorem newCall_last (s : System) (id : CameraId) (task : Task) :
    (s.withCall (newCall s id task)).calls[s.calls.length]? = some (newCall s id task) :=
  List.getElem?_concat_length

theorem wired_begin (hw : Wired s) (id : CameraId) (task : Task) : Wired (beginCall s id task) :=
  (follows_start (wired_withCall hw id task) (newCall_last s id task) rfl rfl).wired

theorem wired_step {a : Label} (hw : Wired s) (h : step net s a = some t) : Wired t := by
  cases a with
  | ensure id mode =>
    cases h
    exact wired_begin hw id _
  | poster id =>
    cases h
    exact wired_begin hw id _
  | recover id mode =>
    cases h
    exact wired_begin (wired_invalidate hw id) id _
  | teardown id =>
    cases h
    exact wired_begin hw id _
  | invalidate id =>
    cases h
    exact wired_invalidate hw id
  | clearPathCache =>
    cases h
    exact ⟨hw.began, hw.inFlight, hw.joined⟩
  | edit id row =>
    cases h
    apply SameCalls.wired _ hw
    refine ⟨rfl, rfl, ?_⟩
    show History.epoch (if row.enabled = true then _ else s.history) = s.history.epoch
    split <;> rfl
  | clock now =>
    simp only [step] at h
    split at h
    · cases h
      exact ⟨hw.began, hw.inFlight, hw.joined⟩
    · cases h
  | restart =>
    cases h
    exact ⟨hw.began, hw.inFlight, hw.joined⟩
  | advance i answer =>
    obtain ⟨call, hcall, hmove⟩ := Option.bind_eq_some_iff.mp h
    obtain ⟨m, hm, rfl⟩ := Option.map_eq_some_iff.mp hmove
    exact (follows_advance hw hcall hm).wired

theorem wired_initial (clock : Int) : Wired { clock := clock } := by
  refine ⟨?_, ?_, ?_⟩
  · intro c hc
    cases hc
  · intro id mode r hr
    cases hr
  · intro c hc
    cases hc

end Drac.CameraStream.StreamPaths
