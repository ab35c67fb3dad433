import Drac.CameraStream.StreamDecisionRuns

/-
  The paths of a camera that is switched off.

  `Gate central: câmera desativada não ganha path (nem via warm/watchdog/live)`: the gate is
  at the reading of the row, and a request that has passed it goes on though the camera is
  switched off and its paths are deleted. What a teardown leaves stays away as long as no
  request that read the row while the camera was on adds a path, or puts one into the cache,
  after the teardown has passed there, and no deletion of the teardown fails at a path that
  is there (`staysOff`). The other requests the gate refuses.

    `gated_step`             no request goes by a row that it read while the camera was off.
-/

namespace Drac.CameraStream.StreamPaths

open Runs Security Cameras

variable {net : CameraNetwork} {s t : System} {i : Nat} {call call' : Call} {row : Camera}

/-! ## Names of paths -/

def stripped (text : List Char) : Text := (text.map Char.toNat).filter isAlphanumeric

variable {c : Char}

theorem isAlphanumeric_of_hex (h : Recordings.isLowerHex c = true) :
    isAlphanumeric c.toNat = true := by
  have hle : ∀ a b : Char, a ≤ b ↔ a.toNat ≤ b.toNat := fun a b => Iff.rfl
  unfold Recordings.isLowerHex at h
  unfold isAlphanumeric
  simp only [Bool.or_eq_true, Bool.and_eq_true, decide_eq_true_eq, hle] at h ⊢
  obtain h | h := h
  · exact .inl (.inl h)
  · exact .inr ⟨h.1, h.2.trans (by decide)⟩

theorem stripped_hex {cs : List Char} (h : Recordings.isLowerHex c = true) :
    stripped (c :: cs) = c.toNat :: stripped cs :=
  List.filter_cons_of_pos (isAlphanumeric_of_hex h)

theorem stripped_dash {cs : List Char} (h : Recordings.isDash c = true) :
    stripped (c :: cs) = stripped cs := by
  rw [of_decide_eq_true h]
  exact List.filter_cons_of_neg (by decide)

/-- Hexadecimal digits and dashes, in fixed places. -/
def HexAndDashes (ps : List (Char → Bool)) : Prop :=
  ∀ p ∈ ps, p = Recordings.isLowerHex ∨ p = Recordings.isDash

theorem length_stripped : ∀ {ps : List (Char → Bool)} {a b : List Char}, HexAndDashes ps →
    Recordings.fits ps a = true → Recordings.fits ps b = true →
    (stripped a).length = (stripped b).length
  | [], [], [], _, _, _ => rfl
  | p :: ps, c :: cs, d :: ds, hps, ha, hb => by
    rw [Recordings.fits, Bool.and_eq_true] at ha hb
    have ih := length_stripped (fun q hq => hps q (List.mem_cons_of_mem _ hq)) ha.2 hb.2
    obtain rfl | rfl := hps p List.mem_cons_self
    · rw [stripped_hex ha.1, stripped_hex hb.1, List.length_cons, List.length_cons, ih]
    · rw [stripped_dash ha.1, stripped_dash hb.1, ih]

theorem stripped_injective : ∀ {ps : List (Char → Bool)} {a b : List Char}, HexAndDashes ps →
    Recordings.fits ps a = true → Recordings.fits ps b = true → stripped a = stripped b → a = b
  | [], [], [], _, _, _, _ => rfl
  | p :: ps, c :: cs, d :: ds, hps, ha, hb, h => by
    rw [Recordings.fits, Bool.and_eq_true] at ha hb
    have hrest : HexAndDashes ps := fun q hq => hps q (List.mem_cons_of_mem _ hq)
    obtain rfl | rfl := hps p List.mem_cons_self
    · rw [stripped_hex ha.1, stripped_hex hb.1] at h
      obtain ⟨hhead, htail⟩ := List.cons.inj h
      rw [Char.toNat_inj.mp hhead, stripped_injective hrest ha.2 hb.2 htail]
    · rw [stripped_dash ha.1, stripped_dash hb.1] at h
      rw [of_decide_eq_true ha.1, of_decide_eq_true hb.1, stripped_injective hrest ha.2 hb.2 h]

theorem uuid_hexAndDashes : HexAndDashes Recordings.uuidShape := by
  intro p hp
  simp only [Recordings.uuidShape, List.mem_append, List.mem_replicate, List.mem_singleton] at hp
  obtain (((((((⟨-, h⟩ | h) | ⟨-, h⟩) | h) | ⟨-, h⟩) | h) | ⟨-, h⟩) | h) | ⟨-, h⟩ := hp
  all_goals first
    | exact .inl h
    | exact .inr h

/-- What the name of a path has after the camera's id. -/
def ending (path : LiveViewMode × Bool) : Text :=
  path.1.suffix ++ if path.2 then units "_source" else []

theorem pathNameOf_eq (id : CameraId) (path : LiveViewMode × Bool) :
    pathNameOf id path.1 path.2 = units "cam_" ++ (stripped id.text ++ ending path) := by
  obtain ⟨mode, source⟩ := path
  cases source
  · simp [pathNameOf, pathNameFromCameraId, ending, stripped, idText]
  · simp [pathNameOf, privateSourcePathName, pathNameFromCameraId, ending, stripped, idText]

theorem ending_injective : ∀ p q : LiveViewMode × Bool, ending p = ending q → p = q := by
  intro p q h
  obtain ⟨m, a⟩ := p
  obtain ⟨n, b⟩ := q
  cases m <;> cases a <;> cases n <;> cases b
  all_goals first
    | rfl
    | exact absurd h (by decide)

theorem pathNameOf_inj {a b : CameraId} {p q : LiveViewMode × Bool}
    (h : pathNameOf a p.1 p.2 = pathNameOf b q.1 q.2) : a = b ∧ p = q := by
  rw [pathNameOf_eq, pathNameOf_eq] at h
  have hlen := length_stripped uuid_hexAndDashes a.shaped b.shaped
  obtain ⟨hid, hending⟩ := List.append_inj (List.append_cancel_left h) hlen
  refine ⟨?_, ending_injective p q hending⟩
  have htext := stripped_injective uuid_hexAndDashes a.shaped b.shaped hid
  cases a
  cases b
  cases htext
  rfl

/-! ## The condition -/

/-- The camera was torn down while off, or a teardown under way, begun since it is off, has
passed the path. -/
def passed (s : System) (id : CameraId) (path : LiveViewMode × Bool) : Bool :=
  s.history.tornDown id || s.calls.any (fun call => call.cameraId = id &&
    match call.phase with
    | .tearing rest off => off = some (s.history.enables id) && path ∉ rest
    | _ => false)

/-- A request that read the row while the camera was on does not undo what a teardown did, and
no deletion of a teardown fails at a path that is there. -/
def staysOff (s : System) (call : Call) : Phase → Answer → Bool
  | .sourceAdding row _, .done | .sourceAdding row _, .lost =>
    !row.enabled || !passed s call.cameraId (call.task.mode, true)
  | .pathAdding row _, .done | .pathAdding row _, .lost =>
    !row.enabled || !passed s call.cameraId (call.task.mode, false)
  | .settling row _, .done => !row.enabled || !s.history.tornDown call.cameraId
  | .tearing (path :: _) off, .fails => off ≠ some (s.history.enables call.cameraId) ||
    pathNameOf call.cameraId path.1 path.2 ∉ s.server
  | _, _ => true

def staysDark (s : System) : Label → Bool
  | .advance i answer => (s.calls[i]?).all (fun call => staysOff s call call.phase answer)
  | _ => true

variable {rest : List (LiveViewMode × Bool)} {off : Option Nat} {answer : Answer} {m : Move}

/-! ## The gate -/

def Gated (s : System) : Prop := ∀ call ∈ s.calls, call.phase.readOn = true

theorem readOn_enterTeardown : (enterTeardown s call rest off).2.phase.readOn = true := by
  unfold enterTeardown
  split <;> rfl

theorem readOn_ensure : (ensurePathForCamera s i call).2.phase.readOn = true := by
  unfold ensurePathForCamera
  dsimp only
  split
  · rfl
  · split <;> rfl

theorem readOn_loaded : (loaded net s call).2.phase.readOn = true := by
  unfold loaded
  split
  · rfl
  · split
    · next henabled =>
      dsimp only
      split
      · exact chooses_grid.readOn henabled
      · exact chooses_live.readOn henabled
    · split
      · rfl
      · exact readOn_enterTeardown

theorem readOn_advance (hon : call.phase.readOn = true)
    (h : advance net s i call call.phase answer = some m) : m.2.phase.readOn = true := by
  unfold advance at h
  split at h
  any_goals cases h
  any_goals
    rename_i hphase
    rw [hphase] at hon
  all_goals first
    | exact hon
    | rfl
    | exact readOn_ensure
    | exact readOn_loaded
    | skip
  · exact (chose_healed _ _).choice.readOn hon
  · exact (chose_probedStream _ _).choice.readOn hon
  · exact (chose_probedPrimaries _ _ _ _).choice.readOn hon
  · exact (chose_probedCodec _ _).choice.readOn hon
  · split at h
    · cases h
      exact hon
    · cases h
  · split at h
    · cases h
      exact hon
    · cases h
  · unfold tearStep at h
    split at h
    · cases h
    · split at h
      all_goals cases h
      all_goals exact readOn_enterTeardown

theorem gated_enter (hg : Gated t) (hon : call'.phase.readOn = true) :
    Gated (t.enter i call') := by
  intro c hc
  obtain rfl | hmem | ⟨_, _, _, _, _, rfl⟩ := mem_enter hc
  · exact hon
  · exact hg c hmem
  · rfl

theorem gated_begin (hg : Gated s) (hw : Wired s) (id : CameraId) (task : Task) :
    Gated (beginCall s id task) := by
  have hfollows : Follows (s.withCall (newCall s id task)) s.calls.length (newCall s id task)
      (startCall (s.withCall (newCall s id task)) s.calls.length (newCall s id task) task) :=
    follows_start (wired_withCall hw id task) (newCall_last s id task) rfl rfl
  apply gated_enter
  · intro c hc
    rw [hfollows.calls] at hc
    obtain hmem | hnew := List.mem_append.mp hc
    · exact hg c hmem
    · rw [List.mem_singleton.mp hnew]
      rfl
  · cases task with
    | ensure mode => exact readOn_ensure
    | recover mode => rfl
    | poster => rfl
    | teardown => exact readOn_enterTeardown

theorem gated_step {a : Label} (hg : Gated s) (hw : Wired s) (h : step net s a = some t) :
    Gated t := by
  cases a with
  | ensure id _ | poster id | teardown id =>
    cases h
    exact gated_begin hg hw id _
  | recover id mode =>
    cases h
    exact gated_begin (s := invalidateMainCodecCache s id) hg (wired_invalidate hw id) id _
  | invalidate _ | clearPathCache | edit _ _ | restart =>
    cases h
    exact hg
  | clock now =>
    simp only [step] at h
    split at h
    · cases h
      exact hg
    · cases h
  | advance i answer =>
    obtain ⟨call, hcall, hmove⟩ := Option.bind_eq_some_iff.mp h
    obtain ⟨m, hm, rfl⟩ := Option.map_eq_some_iff.mp hmove
    apply gated_enter
    · intro c hc
      rw [(follows_advance hw hcall hm).calls] at hc
      exact hg c hc
    · exact readOn_advance (hg call (List.mem_of_getElem? hcall)) hm

/-! ## The invariant -/

/-- Of the camera's paths at most these are on the server. -/
def Only (s : System) (id : CameraId) (rest : List (LiveViewMode × Bool)) : Prop :=
  ∀ path, path ∉ rest → pathNameOf id path.1 path.2 ∉ s.server

/-- What a teardown under way knows and has done. -/
def Tears (s : System) (call : Call) : Prop :=
  ∀ rest n, call.phase = .tearing rest (some n) → n ≤ s.history.enables call.cameraId ∧
    (n = s.history.enables call.cameraId →
      s.offSince call.cameraId = some n ∧ Only s call.cameraId rest)

/-- Nothing of a camera torn down is cached, asked for or on the server. -/
structure Dark (s : System) : Prop where
  off : ∀ id, s.history.tornDown id = true → s.offSince id = some (s.history.enables id)
  server : ∀ id, s.history.tornDown id = true → Only s id []
  cache : ∀ id, s.history.tornDown id = true → ∀ mode,
    JsMap.get? s.pathEnsureCache (buildEnsureKey id mode) = none
  tears : ∀ call ∈ s.calls, Tears s call

/-- The rows and what is known of them are the same, and nothing is there that was not. -/
structure Shrinks (s t : System) : Prop where
  rows : t.rows = s.rows
  enables : t.history.enables = s.history.enables
  tornDown : t.history.tornDown = s.history.tornDown
  server : ∀ name ∈ t.server, name ∈ s.server
  cache : ∀ k e, JsMap.get? t.pathEnsureCache k = some e → JsMap.get? s.pathEnsureCache k = some e

theorem Shrinks.offSince (h : Shrinks s t) (id : CameraId) : t.offSince id = s.offSince id := by
  unfold System.offSince
  rw [h.rows, h.enables]

variable {id : CameraId}

theorem Shrinks.only (h : Shrinks s t)
    (honly : Only s id rest) : Only t id rest :=
  fun path hpath hmem => honly path hpath (h.server _ hmem)

theorem Shrinks.tears (h : Shrinks s t) (htears : Tears s call) : Tears t call := by
  intro rest n hphase
  rw [h.enables, h.offSince]
  obtain ⟨hle, hdone⟩ := htears rest n hphase
  refine ⟨hle, ?_⟩
  intro heq
  exact ⟨(hdone heq).1, h.only (hdone heq).2⟩

theorem Shrinks.refl (s : System) : Shrinks s s :=
  ⟨rfl, rfl, rfl, fun _ h => h, fun _ _ h => h⟩

theorem dark_shrinks (hd : Dark s) (h : Shrinks s t) (hcalls : t.calls = s.calls) : Dark t := by
  refine ⟨?_, ?_, ?_, ?_⟩
  · intro id hid
    rw [h.offSince, h.enables]
    rw [h.tornDown] at hid
    exact hd.off id hid
  · intro id hid
    rw [h.tornDown] at hid
    exact h.only (hd.server id hid)
  · intro id hid mode
    rw [h.tornDown] at hid
    have hnone := hd.cache id hid mode
    cases he : JsMap.get? t.pathEnsureCache (buildEnsureKey id mode) with
    | none => rfl
    | some e => cases hnone.symm.trans (h.cache _ _ he)
  · intro call hmem
    rw [hcalls] at hmem
    exact h.tears (hd.tears call hmem)

theorem tears_of_phase (h : ∀ rest off, call.phase ≠ .tearing rest off) : Tears s call :=
  fun rest _ hphase => absurd hphase (h rest _)

theorem shrinks_enter : Shrinks s (s.enter i call) := by
  refine ⟨enter_rows, ?_, ?_, ?_, ?_⟩
  · rw [enter_history]
  · rw [enter_history]
  · rw [enter_server]
    exact fun _ h => h
  · rw [enter_pathEnsureCache]
    exact fun _ _ h => h

theorem dark_enter (hd : Dark t) (htears : Tears t call') : Dark (t.enter i call') := by
  have hsame : Dark { t.enter i call' with calls := t.calls } := by
    have hshrinks : Shrinks t { t.enter i call' with calls := t.calls } :=
      ⟨shrinks_enter.rows, shrinks_enter.enables, shrinks_enter.tornDown, shrinks_enter.server,
        shrinks_enter.cache⟩
    exact dark_shrinks hd hshrinks rfl
  refine ⟨hsame.off, hsame.server, hsame.cache, ?_⟩
  intro c hc
  apply shrinks_enter.tears
  obtain rfl | hmem | ⟨_, _, _, _, _, rfl⟩ := mem_enter hc
  · exact htears
  · exact hd.tears c hmem
  · exact tears_of_phase nofun

/-! ## Steps -/

/-- A move that leaves the system dark. -/
structure Darkens (m : Move) : Prop where
  dark : Dark m.1
  tears : Tears m.1 m.2

theorem darkens_goto {phase : Phase} (hd : Dark s) (h : Shrinks s t) (hcalls : t.calls = s.calls)
    (hphase : ∀ rest off, phase ≠ .tearing rest off) : Darkens (t, call.goto phase) :=
  ⟨dark_shrinks hd h hcalls, tears_of_phase hphase⟩

theorem darkens_choice (hd : Dark s) (h : Shrinks s t) (hcalls : t.calls = s.calls)
    (hc : Chooses row call call') : Darkens (t, call') := by
  refine ⟨dark_shrinks hd h hcalls, ?_⟩
  apply tears_of_phase
  intro rest off hphase
  have hchosen := hc.phase
  rw [hphase] at hchosen
  cases hchosen

theorem darkens_chose (hd : Dark s) (h : Chose row s call m) : Darkens m := by
  refine darkens_choice hd ⟨h.rows, ?_, ?_, ?_, ?_⟩ h.calls h.choice
  · rw [h.history]
  · rw [h.history]
  · rw [h.server]
    exact fun _ hmem => hmem
  · rw [h.paths]
    exact fun _ _ he => he

theorem dark_addPath (path : LiveViewMode × Bool) (hd : Dark s)
    (hfree : passed s id path = false) : Dark (addPath s (pathNameOf id path.1 path.2)) := by
  unfold passed at hfree
  simp only [Bool.or_eq_false_iff, List.any_eq_false, Bool.and_eq_true, decide_eq_true_eq,
    not_and] at hfree
  obtain ⟨hup, hcalls⟩ := hfree
  have honly : ∀ {id' : CameraId} {rest : List (LiveViewMode × Bool)}, Only s id' rest →
      (id' = id → path ∈ rest) → Only (addPath s (pathNameOf id path.1 path.2)) id' rest := by
    intro id' rest hs hother path' hpath' hmem
    obtain hname | hold := List.mem_cons.mp hmem
    · obtain ⟨hid, heq⟩ := pathNameOf_inj hname
      rw [heq] at hpath'
      exact hpath' (hother hid)
    · exact hs path' hpath' (List.mem_of_mem_filter hold)
  refine ⟨hd.off, ?_, hd.cache, ?_⟩
  · intro id' hid'
    apply honly (hd.server id' hid')
    intro heq
    subst heq
    cases hup.symm.trans hid'
  · intro call hmem rest n hphase
    obtain ⟨hle, hdone⟩ := hd.tears call hmem rest n hphase
    refine ⟨hle, ?_⟩
    intro hn
    change n = s.history.enables call.cameraId at hn
    refine ⟨(hdone hn).1, honly (hdone hn).2 ?_⟩
    intro hid
    have hrest := hcalls call hmem hid
    rw [hphase] at hrest
    simp only [Bool.and_eq_true, decide_eq_true_eq, not_and, Decidable.not_not] at hrest
    apply hrest
    rw [hn, hid]

theorem shrinks_invalidate (s : System) (id : CameraId) :
    Shrinks s (invalidateMainCodecCache s id) :=
  ⟨rfl, rfl, rfl, fun _ h => h, fun _ _ he =>
    JsMap.get?_of_filter (p := fun k => !decide (idText id ++ [colon] <+: k)) he⟩

theorem dark_noteTornDown (hd : Dark s)
    (htears : Tears s (call.goto (.tearing [] off)))
    (hcache : ∀ mode, JsMap.get? s.pathEnsureCache (buildEnsureKey call.cameraId mode) = none) :
    Dark (noteTornDown s call.cameraId off) := by
  unfold noteTornDown
  split
  · next hoff =>
    subst hoff
    obtain ⟨-, hdone⟩ := htears [] _ rfl
    obtain ⟨hsince, honly⟩ := hdone rfl
    have hown : ∀ {P : CameraId → Prop}, P call.cameraId →
        (∀ id, s.history.tornDown id = true → P id) →
        ∀ id, Function.update s.history.tornDown call.cameraId true id = true → P id := by
      intro P hp hold id hid
      by_cases heq : id = call.cameraId
      · exact heq ▸ hp
      · rw [Function.update_of_ne heq] at hid
        exact hold id hid
    exact ⟨hown hsince hd.off, hown honly hd.server, hown hcache hd.cache, hd.tears⟩
  · exact hd

theorem darkens_enterTeardown
    (hd : Dark s) (htears : Tears s (call.goto (.tearing rest off))) :
    Darkens (enterTeardown s call rest off) := by
  unfold enterTeardown
  split
  · have hshrinks := shrinks_invalidate s call.cameraId
    refine ⟨?_, tears_of_phase nofun⟩
    apply dark_noteTornDown (dark_shrinks hd hshrinks rfl) (hshrinks.tears htears)
    exact fun mode => invalidated_none s.pathEnsureCache call.cameraId mode
  · next mode source rest =>
    have hshrinks : Shrinks s (if source then s else
        { s with
          pathEnsureCache := JsMap.erase s.pathEnsureCache (buildEnsureKey call.cameraId mode) }) := by
      split
      · exact .refl s
      · exact ⟨rfl, rfl, rfl, fun _ h => h, fun _ _ he => JsMap.get?_of_erase he⟩
    refine ⟨dark_shrinks hd hshrinks ?_, hshrinks.tears htears⟩
    split <;> rfl

theorem only_teardownPaths (s : System) (id : CameraId) : Only s id teardownPaths := by
  intro path hpath
  have hall : path ∈ teardownPaths := by
    obtain ⟨mode, source⟩ := path
    cases mode <;> cases source <;> decide
  exact absurd hall hpath

theorem darkens_teardown (hd : Dark s) : Darkens (teardownPathsForCamera s call) := by
  apply darkens_enterTeardown hd
  intro rest n hphase
  change Phase.tearing teardownPaths (s.offSince call.cameraId) = .tearing rest (some n) at hphase
  simp only [Phase.tearing.injEq] at hphase
  obtain ⟨rfl, hoff⟩ := hphase
  have hn : n = s.history.enables call.cameraId := by
    unfold System.offSince at hoff
    split at hoff
    · exact (Option.some.inj hoff).symm
    · cases hoff
  exact ⟨hn.le, fun _ => ⟨hoff, only_teardownPaths s call.cameraId⟩⟩

theorem shrinks_deletePath (s : System) (name : Text) (answer : Answer) :
    Shrinks s (deletePath s name answer) := by
  have hfilter : Shrinks s { s with server := s.server.filter (fun n => n ≠ name) } :=
    ⟨rfl, rfl, rfl, fun _ h => List.mem_of_mem_filter h, fun _ _ h => h⟩
  cases answer
  case fails => exact .refl s
  all_goals exact hfilter

theorem deleted {name : Text} (h : answer = .fails → name ∉ s.server) :
    name ∉ (deletePath s name answer).server := by
  have hfilter : name ∉ s.server.filter (fun n => n ≠ name) := by
    intro hmem
    exact absurd rfl (of_decide_eq_true (List.mem_filter.mp hmem).2)
  cases answer
  case fails => exact h rfl
  all_goals exact hfilter

theorem darkens_tearStep
    (hd : Dark s) (hmem : call ∈ s.calls)
    (hphase : call.phase = .tearing rest off)
    (hguard : staysOff s call call.phase answer = true)
    (h : tearStep s call off answer rest = some m) : Darkens m := by
  rw [hphase] at hguard
  unfold tearStep at h
  split at h
  · cases h
  · next mode source rest =>
    have hshrinks := shrinks_deletePath s (pathNameOf call.cameraId mode source) answer
    have hcalls := (sameCalls_deletePath s (pathNameOf call.cameraId mode source) answer).calls
    have hdark : Darkens (enterTeardown
        (deletePath s (pathNameOf call.cameraId mode source) answer) call rest off) := by
      apply darkens_enterTeardown (dark_shrinks hd hshrinks hcalls)
      intro rest' n hrest
      change Phase.tearing rest off = .tearing rest' (some n) at hrest
      simp only [Phase.tearing.injEq] at hrest
      obtain ⟨rfl, rfl⟩ := hrest
      have hold : Tears s (call.goto (.tearing ((mode, source) :: rest) (some n))) := by
        rw [← hphase]
        exact hd.tears call hmem
      obtain ⟨hle, hdone⟩ := hshrinks.tears hold _ n rfl
      refine ⟨hle, ?_⟩
      intro hn
      obtain ⟨hsince, honly⟩ := hdone hn
      refine ⟨hsince, ?_⟩
      intro path hpath
      by_cases heq : path = (mode, source)
      · subst heq
        apply deleted
        rintro rfl
        simp only [staysOff, Bool.or_eq_true, decide_eq_true_eq] at hguard
        refine hguard.resolve_left (fun hne => hne ?_)
        rw [hn, hshrinks.enables]
        rfl
      · apply honly
        simp only [List.mem_cons, not_or]
        exact ⟨heq, hpath⟩
    split at h
    all_goals cases h
    all_goals exact hdark

theorem darkens_ensure (hd : Dark s) : Darkens (ensurePathForCamera s i call) := by
  unfold ensurePathForCamera
  dsimp only
  split
  · exact ⟨hd, tears_of_phase nofun⟩
  · split
    · exact ⟨hd, tears_of_phase nofun⟩
    · refine ⟨?_, tears_of_phase nofun⟩
      exact dark_shrinks hd ⟨rfl, rfl, rfl, fun _ h => h, fun _ _ h => h⟩ rfl

theorem darkens_loaded (hd : Dark s) : Darkens (loaded net s call) := by
  have hreject : Darkens (s, call.reject) := ⟨hd, tears_of_phase nofun⟩
  unfold loaded
  split
  · exact hreject
  · split
    · apply darkens_choice hd (.refl s) rfl
      split
      · exact chooses_grid
      · exact chooses_live
    · split
      · exact hreject
      · exact darkens_teardown hd

theorem darkens_settle {d : Decision} (hd : Dark s)
    (hup : s.history.tornDown call.cameraId = false) : Darkens (settle s call row d) := by
  refine ⟨⟨hd.off, hd.server, ?_, hd.tears⟩, tears_of_phase nofun⟩
  intro id hid mode
  show JsMap.get? (JsMap.set _ _ _) _ = none
  rw [JsMap.get?_set, if_neg]
  · exact hd.cache id hid mode
  · intro hkey
    rw [buildEnsureKey_id hkey] at hup
    cases hup.symm.trans hid

theorem darkens_advance (hd : Dark s) (hon : call.phase.readOn = true) (hmem : call ∈ s.calls)
    (hguard : staysOff s call call.phase answer = true)
    (h : advance net s i call call.phase answer = some m) : Darkens m := by
  have hdelete : ∀ {name : Text} {phase : Phase}, (∀ rest off, phase ≠ .tearing rest off) →
      Darkens (deletePath s name .done, call.goto phase) :=
    darkens_goto hd (shrinks_deletePath s _ .done) rfl
  have hgoto : ∀ {phase : Phase}, (∀ rest off, phase ≠ .tearing rest off) →
      Darkens (s, call.goto phase) := darkens_goto hd (.refl s) rfl
  have hadd : ∀ {row : Camera} {source : Bool}, row.enabled = true →
      (!row.enabled || !passed s call.cameraId (call.task.mode, source)) = true →
      Dark (addPath s (pathNameOf call.cameraId call.task.mode source)) := by
    intro row source hrow hfree
    exact dark_addPath (call.task.mode, source) hd (by simpa [hrow] using hfree)
  unfold advance at h
  split at h
  any_goals cases h
  any_goals
    rename_i hphase
    rw [hphase] at hguard hon
  all_goals first
    | exact hgoto nofun
    | exact hdelete nofun
    | exact ⟨hadd hon hguard, tears_of_phase nofun⟩
    | skip
  · exact darkens_loaded hd
  · exact darkens_chose hd (chose_healed _ _)
  · exact darkens_chose hd (chose_probedStream _ _)
  · exact darkens_chose hd (chose_probedPrimaries _ _ _ _)
  · exact darkens_chose hd (chose_probedCodec _ _)
  · split at h
    · cases h
      exact hgoto nofun
    · cases h
  · split at h
    · cases h
      exact hgoto nofun
    · cases h
  · refine darkens_settle hd ?_
    change Camera.enabled _ = true at hon
    simpa [staysOff, hon] using hguard
  · rw [← hphase] at hguard
    exact darkens_tearStep hd hmem hphase hguard h
  · exact darkens_ensure hd
  all_goals exact darkens_ensure (dark_shrinks hd (shrinks_deletePath s _ .done) rfl)

theorem darkens_start {task : Task} (hd : Dark s) (hmem : call ∈ s.calls) :
    Darkens (startCall s i call task) := by
  cases task with
  | ensure mode => exact darkens_ensure hd
  | recover mode => exact ⟨hd, tears_of_phase nofun⟩
  | poster => exact ⟨hd, hd.tears call hmem⟩
  | teardown => exact darkens_teardown hd

theorem dark_withCall (hd : Dark s) (id : CameraId) (task : Task) :
    Dark (s.withCall (newCall s id task)) := by
  refine ⟨hd.off, hd.server, hd.cache, ?_⟩
  intro c hc
  obtain hmem | hnew := List.mem_append.mp hc
  · exact hd.tears c hmem
  · rw [List.mem_singleton.mp hnew]
    exact tears_of_phase nofun

theorem dark_begin (hd : Dark s) (id : CameraId) (task : Task) : Dark (beginCall s id task) := by
  have hmem := List.mem_of_getElem? (newCall_last s id task)
  have hdark : Darkens (startCall (s.withCall (newCall s id task)) s.calls.length
      (newCall s id task) task) := darkens_start (dark_withCall hd id task) hmem
  exact dark_enter hdark.dark hdark.tears

theorem dark_switchOn (hd : Dark s) (hon : row.enabled = true) :
    Dark (editRow s id row) := by
  have hhistory : (editRow s id row).history = { s.history with
      enables := Function.update s.history.enables id (s.history.enables id + 1)
      tornDown := Function.update s.history.tornDown id false } := by
    unfold editRow
    rw [hon]
    rfl
  have hother : ∀ {id'}, id' ≠ id → (editRow s id row).offSince id' = s.offSince id' := by
    intro id' hne
    unfold System.offSince
    rw [hhistory, show (editRow s id row).rows id' = s.rows id' from Function.update_of_ne hne _ _]
    dsimp only
    rw [Function.update_of_ne hne]
  have htorn : ∀ id', (editRow s id row).history.tornDown id' = true →
      id' ≠ id ∧ s.history.tornDown id' = true := by
    intro id' hid'
    rw [hhistory] at hid'
    dsimp only at hid'
    by_cases heq : id' = id
    · rw [heq, Function.update_self] at hid'
      cases hid'
    · rw [Function.update_of_ne heq] at hid'
      exact ⟨heq, hid'⟩
  refine ⟨?_, ?_, ?_, ?_⟩
  · intro id' hid'
    obtain ⟨hne, hold⟩ := htorn id' hid'
    rw [hother hne, hhistory]
    dsimp only
    rw [Function.update_of_ne hne]
    exact hd.off id' hold
  · intro id' hid'
    exact hd.server id' (htorn id' hid').2
  · intro id' hid'
    exact hd.cache id' (htorn id' hid').2
  · intro call hmem rest n hphase
    obtain ⟨hle, hdone⟩ := hd.tears call hmem rest n hphase
    rw [hhistory]
    dsimp only
    by_cases heq : call.cameraId = id
    · -- what the teardown knows is out of date
      rw [heq, Function.update_self]
      rw [heq] at hle
      exact ⟨by omega, fun hn => absurd hn (by omega)⟩
    · rw [Function.update_of_ne heq, hother heq]
      exact ⟨hle, hdone⟩

theorem dark_switchOff (hd : Dark s) (hoff : row.enabled = false) :
    Dark (editRow s id row) := by
  have hhistory : (editRow s id row).history = s.history := by
    unfold editRow
    rw [hoff]
    rfl
  have hsince : ∀ {id' n}, s.offSince id' = some n → n = s.history.enables id' →
      (editRow s id row).offSince id' = some n := by
    intro id' n hold hn
    by_cases heq : id' = id
    · subst heq
      unfold System.offSince
      rw [hhistory, show (editRow s id' row).rows id' = some row from Function.update_self _ _ _]
      simp [hoff, hn]
    · unfold System.offSince at hold ⊢
      rw [hhistory, show (editRow s id row).rows id' = s.rows id' from
        Function.update_of_ne heq _ _]
      exact hold
  refine ⟨?_, ?_, ?_, ?_⟩
  · intro id' hid'
    rw [hhistory] at hid' ⊢
    exact hsince (hd.off id' hid') rfl
  · intro id' hid'
    rw [hhistory] at hid'
    exact hd.server id' hid'
  · intro id' hid'
    rw [hhistory] at hid'
    exact hd.cache id' hid'
  · intro call hmem rest n hphase
    obtain ⟨hle, hdone⟩ := hd.tears call hmem rest n hphase
    rw [hhistory]
    refine ⟨hle, ?_⟩
    intro hn
    exact ⟨hsince (hdone hn).1 hn, (hdone hn).2⟩

theorem dark_edit (hd : Dark s) : Dark (editRow s id row) := by
  cases henabled : row.enabled with
  | true => exact dark_switchOn hd henabled
  | false => exact dark_switchOff hd henabled

theorem dark_step {a : Label} (hd : Dark s) (hg : Gated s) (hguard : staysDark s a = true)
    (h : step net s a = some t) : Dark t := by
  cases a with
  | ensure id mode =>
    cases h
    exact dark_begin hd id _
  | poster id =>
    cases h
    exact dark_begin hd id _
  | recover id mode =>
    cases h
    exact dark_begin (dark_shrinks hd (shrinks_invalidate s id) rfl) id _
  | teardown id =>
    cases h
    exact dark_begin hd id _
  | invalidate id =>
    cases h
    exact dark_shrinks hd (shrinks_invalidate s id) rfl
  | clearPathCache =>
    cases h
    refine dark_shrinks hd ⟨rfl, rfl, rfl, fun _ h => h, ?_⟩ rfl
    intro k e he
    cases he
  | edit id row =>
    cases h
    exact dark_edit hd
  | clock now =>
    simp only [step] at h
    split at h
    · cases h
      exact dark_shrinks hd ⟨rfl, rfl, rfl, fun _ h => h, fun _ _ he => he⟩ rfl
    · cases h
  | restart =>
    cases h
    refine dark_shrinks hd ⟨rfl, rfl, rfl, ?_, fun _ _ he => he⟩ rfl
    intro name hname
    cases hname
  | advance i answer =>
    obtain ⟨call, hcall, hmove⟩ := Option.bind_eq_some_iff.mp h
    obtain ⟨m, hm, rfl⟩ := Option.map_eq_some_iff.mp hmove
    simp only [staysDark, hcall, Option.all_some] at hguard
    have hmem := List.mem_of_getElem? hcall
    have hdarkens := darkens_advance hd (hg call hmem) hmem hguard hm
    exact dark_enter hdarkens.dark hdarkens.tears

/-! ## Paths handed out -/

/-- A call of the camera that had no path has one after the step. -/
def HandsOut (s t : System) (id : CameraId) : Prop :=
  ∃ (j : Nat) (call : Call) (value : EnsuredCameraPath), t.calls[j]? = some call ∧
    call.cameraId = id ∧ call.phase = .ended (.path value) ∧ s.calls[j]? ≠ some call

variable {value : EnsuredCameraPath}

theorem handed_enter {j : Nat} {c : Call}
    (hc : (s.enter i call).calls[j]? = some c) (hphase : c.phase = .ended (.path value)) :
    s.calls[j]? = some c ∨ (call.phase = .ended (.path value) ∧
      (c.cameraId = call.cameraId ∨
        ∃ other ∈ s.calls, other.phase = .joined i ∧ other.cameraId = c.cameraId)) := by
  unfold System.enter at hc
  split at hc
  · next outcome hended =>
    change ((s.calls.set i call).map _)[j]? = some c at hc
    rw [List.getElem?_map] at hc
    obtain ⟨other, hother, rfl⟩ := Option.map_eq_some_iff.mp hc
    obtain ⟨-, rfl⟩ | ⟨-, hother⟩ := getElem?_set_some hother
    · have hself : other.hears i other outcome = other := by
        unfold Call.hears
        rw [hended]
      rw [hself] at hphase
      exact .inr ⟨hphase, .inl (congrArg Call.cameraId hself)⟩
    · obtain heq | ⟨hjoined, heq⟩ := hears_cases other i call outcome
      · rw [heq]
        exact .inl hother
      · rw [heq] at hphase
        refine .inr ⟨hended.trans hphase, .inr ⟨other, List.mem_of_getElem? hother, hjoined, ?_⟩⟩
        rw [heq]
  · obtain ⟨-, rfl⟩ | ⟨-, hold⟩ := getElem?_set_some hc
    · exact .inr ⟨hphase, .inl rfl⟩
    · exact .inl hold

theorem ensure_noPath
    (hnone : ∀ mode, JsMap.get? s.pathEnsureCache (buildEnsureKey call.cameraId mode) = none) :
    (ensurePathForCamera s i call).2.phase ≠ .ended (.path value) := by
  unfold ensurePathForCamera
  dsimp only
  split
  · next e he =>
    have hget := (Option.filter_eq_some_iff.mp he).1
    rw [hnone] at hget
    cases hget
  · split
    · exact nofun
    · exact nofun

theorem teardown_noPath
    : (enterTeardown s call rest off).2.phase ≠ .ended (.path value) := by
  unfold enterTeardown
  split
  · intro h
    change Phase.ended (if call.task = .teardown then _ else _) = _ at h
    split at h
    all_goals cases h
  · exact nofun

theorem choice_noPath (h : Chooses row call call') :
    call'.phase ≠ .ended (.path value) := by
  intro hphase
  have hchosen := h.phase
  rw [hphase] at hchosen
  cases hchosen

theorem loaded_noPath :
    (loaded net s call).2.phase ≠ .ended (.path value) := by
  unfold loaded
  split
  · exact nofun
  · split
    · dsimp only
      split
      · exact choice_noPath chooses_grid
      · exact choice_noPath chooses_live
    · split
      · exact nofun
      · exact teardown_noPath

/-- No call of a camera that was torn down ends with a path. -/
theorem advance_noPath (hd : Dark s) (hon : call.phase.readOn = true)
    (htorn : s.history.tornDown call.cameraId = true)
    (hguard : staysOff s call call.phase answer = true)
    (h : advance net s i call call.phase answer = some m) : m.2.phase ≠ .ended (.path value) := by
  unfold advance at h
  split at h
  any_goals cases h
  any_goals
    intro hended
    cases hended
    done
  · exact loaded_noPath
  · exact choice_noPath (chose_healed _ _).choice
  · exact choice_noPath (chose_probedStream _ _).choice
  · exact choice_noPath (chose_probedPrimaries _ _ _ _).choice
  · exact choice_noPath (chose_probedCodec _ _).choice
  · split at h
    · cases h
      exact nofun
    · cases h
  · split at h
    · cases h
      exact nofun
    · cases h
  · next hphase =>
    rw [hphase] at hguard hon
    change Camera.enabled _ = true at hon
    simp only [staysOff, htorn, hon, Bool.not_true, Bool.or_self, Bool.false_eq_true] at hguard
  · unfold tearStep at h
    split at h
    · cases h
    · split at h
      all_goals cases h
      all_goals exact teardown_noPath
  · exact ensure_noPath (hd.cache _ htorn)
  all_goals exact ensure_noPath (hd.cache _ htorn)

theorem not_handsOut (hw : Wired s) (hcall : s.calls[i]? = some call)
    (hfollows : Follows s i call m)
    (hno : call.cameraId = id → ∀ value, m.2.phase ≠ .ended (.path value)) :
    ¬ HandsOut s (m.1.enter i m.2) id := by
  rintro ⟨j, c, value, hc, hid, hphase, hnew⟩
  obtain hold | ⟨hended, hwho⟩ := handed_enter hc hphase
  · rw [hfollows.calls] at hold
    exact hnew hold
  · refine hno ?_ value hended
    obtain hself | ⟨other, hother, hjoined, hsame⟩ := hwho
    · exact hfollows.stays.1.symm.trans (hself.symm.trans hid)
    · rw [hfollows.calls] at hother
      obtain ⟨c', hc', hstays⟩ := hw.joined other hother i hjoined
      cases hcall.symm.trans hc'
      exact hstays.1.trans (hsame.trans hid)

theorem begin_notHandsOut {id id' : CameraId} {task : Task} (hd : Dark s) (hw : Wired s)
    (htorn : s.history.tornDown id' = true) : ¬ HandsOut s (beginCall s id task) id' := by
  rintro ⟨j, c, value, hc, hid, hphase, hnew⟩
  have hwired := wired_withCall hw id task
  have hlast := newCall_last s id task
  have hfollows : Follows (s.withCall (newCall s id task)) s.calls.length (newCall s id task)
      (startCall (s.withCall (newCall s id task)) s.calls.length (newCall s id task) task) :=
    follows_start hwired hlast rfl rfl
  refine not_handsOut hwired hlast hfollows ?_ ⟨j, c, value, hc, hid, hphase, ?_⟩
  · intro hsame value
    change id = id' at hsame
    subst hsame
    cases task with
    | ensure mode => exact ensure_noPath (hd.cache id htorn)
    | recover mode => exact nofun
    | poster => exact nofun
    | teardown => exact teardown_noPath
  · intro hold
    obtain hmem | ⟨-, rfl⟩ := getElem?_concat_some hold
    · exact hnew hmem
    · cases hphase

theorem handsOut_calls (h : t.calls = s.calls) : ¬ HandsOut s t id := by
  rintro ⟨j, c, _, hc, -, -, hnew⟩
  rw [h] at hc
  exact hnew hc

theorem step_notHandsOut {a : Label} (hd : Dark s) (hg : Gated s) (hw : Wired s)
    (htorn : s.history.tornDown id = true) (hguard : staysDark s a = true)
    (h : step net s a = some t) : ¬ HandsOut s t id := by
  cases a with
  | ensure _ _ | poster _ | teardown _ =>
    cases h
    exact begin_notHandsOut hd hw htorn
  | recover id' mode =>
    cases h
    exact begin_notHandsOut (s := invalidateMainCodecCache s id')
      (dark_shrinks hd (shrinks_invalidate s id') rfl) (wired_invalidate hw id') htorn
  | invalidate _ | clearPathCache | edit _ _ | restart =>
    cases h
    exact handsOut_calls rfl
  | clock now =>
    simp only [step] at h
    split at h
    · cases h
      exact handsOut_calls rfl
    · cases h
  | advance i answer =>
    obtain ⟨call, hcall, hmove⟩ := Option.bind_eq_some_iff.mp h
    obtain ⟨m, hm, rfl⟩ := Option.map_eq_some_iff.mp hmove
    simp only [staysDark, hcall, Option.all_some] at hguard
    apply not_handsOut hw hcall (follows_advance hw hcall hm)
    rintro rfl value
    exact advance_noPath hd (hg call (List.mem_of_getElem? hcall)) htorn hguard hm

/-! ## Runs -/

theorem dark_reach (h : Reach (streamMachine net) (fun s a => staysDark s a = true) s) :
    Dark s ∧ Gated s ∧ Wired s := by
  apply h.invariant
  · intro s hs
    obtain ⟨clock, rfl⟩ := hs
    have hnone : ∀ {P : Call → Prop}, ∀ call ∈ ({ clock := clock } : System).calls, P call := by
      intro P call hmem
      cases hmem
    exact ⟨⟨nofun, nofun, nofun, hnone⟩, hnone, wired_initial clock⟩
  · rintro s a t ⟨hd, hg, hw⟩ hguard hstep
    exact ⟨dark_step hd hg hguard hstep, gated_step hg hw hstep, wired_step hw hstep⟩

/-- A camera torn down while off has no path once none of its calls is under way, and gets none
by the next step. -/
def Unlit (net : CameraNetwork) (G : System → Label → Prop) (s : System) : Prop :=
  ∀ id, s.history.tornDown id = true → ((s.rows id).any (fun row => !row.enabled) = true) ∧
    ((∀ call ∈ s.calls, call.cameraId = id → ∃ outcome, call.phase = .ended outcome) →
      ∀ mode source, pathNameOf id mode source ∉ s.server) ∧
    ∀ a t, G s a → step net s a = some t → ¬ HandsOut s t id

/-- In every run in which no request that read the row while the camera was on adds a path, or
puts one into the cache, once a teardown has passed there, and no teardown fails to delete a
path that is there, a camera torn down while off stays without paths. -/
theorem disabled_dark (h : Reach (streamMachine net) (fun s a => staysDark s a = true) s) :
    Unlit net (fun s a => staysDark s a = true) s := by
  obtain ⟨hd, hg, hw⟩ := dark_reach h
  intro id htorn
  refine ⟨?_, ?_, ?_⟩
  · have hsince := hd.off id htorn
    unfold System.offSince at hsince
    split at hsince
    · next hoff => exact hoff
    · cases hsince
  · intro _ mode source
    exact hd.server id htorn (mode, source) List.not_mem_nil
  · intro a t hguard hstep
    exact step_notHandsOut hd hg hw htorn hguard hstep

/-! ## The yard switched off -/

def yardRow (enabled : Bool) : Camera :=
  { yardCamera "old" "192.168.0.20" with enabled := enabled }

/-- The path as the camera sends it is asked for, up to the reading of the path. -/
def askOriginal (i : Nat) : List Label :=
  [.ensure yard .original, .advance i .done, .advance i (.codec (some (units "h264")))]

def addOriginal (i : Nat) : List Label :=
  [.advance i .other, .advance i .fails, .advance i .done, .advance i .done]

def switchOff (i : Nat) : List Label :=
  ([.edit yard (yardRow false), .teardown yard] : List Label) ++
    List.replicate 6 (Label.advance i .done)

/-- Opened, switched off and torn down, and asked for in vain. -/
theorem disabled_dark_torn : ∃ s,
    Reach (streamMachine openNetwork) (fun s a => staysDark s a = true) s ∧
      Unlit openNetwork (fun s a => staysDark s a = true) s ∧
      s.history.tornDown yard = true ∧ s.calls.length = 3 := by
  have hrun : (Machine.run (streamMachine openNetwork) staysDark evening
      (([.edit yard (yardRow true)] : List Label) ++ askOriginal 0 ++ addOriginal 0 ++
        switchOff 1 ++ ([.ensure yard .original, .advance 2 .done] : List Label) ++
        List.replicate 6 (Label.advance 2 .fails))).any
      (fun s => s.history.tornDown yard && s.calls.length = 3) = true := by
    decide +kernel
  obtain ⟨s, hreach, hstate⟩ := reach_of_any hrun ⟨_, rfl⟩ (fun _ _ h => h)
  simp only [Bool.and_eq_true, decide_eq_true_eq] at hstate
  exact ⟨s, hreach, disabled_dark hreach, hstate⟩

def Phase.isEnded : Phase → Bool
  | .ended _ => true
  | _ => false

theorem Phase.isEnded_iff {phase : Phase} :
    phase.isEnded = true ↔ ∃ outcome, phase = .ended outcome := by
  cases phase <;> simp [Phase.isEnded]

/-- Switched off between the reading of its row and the adding of its path. -/
theorem disabled_while_opened :
    ¬ ∀ s, Reach (streamMachine openNetwork) Always s → Unlit openNetwork Always s := by
  intro hunlit
  have hrun : (Machine.run (streamMachine openNetwork) anyStep evening
      (([.edit yard (yardRow true)] : List Label) ++ askOriginal 0 ++ switchOff 1 ++
        addOriginal 0)).any
      (fun s => s.history.tornDown yard && s.calls.all (fun call => call.phase.isEnded) &&
        pathNameFromCameraId yard .original ∈ s.server) = true := by
    decide +kernel
  obtain ⟨s, hreach, hstate⟩ := reach_of_any hrun ⟨_, rfl⟩ (fun _ _ _ => trivial)
  simp only [Bool.and_eq_true, List.all_eq_true, decide_eq_true_eq] at hstate
  obtain ⟨⟨htorn, hidle⟩, hpath⟩ := hstate
  refine (hunlit s hreach yard htorn).2.1 ?_ .original false hpath
  intro call hmem _
  exact Phase.isEnded_iff.mp (hidle call hmem)

end Drac.CameraStream.StreamPaths
