import Drac.CameraStream.StreamCalls

/-
  Decisions that stay with the row they were made for.

  Under the keys of the camera's row, and of a row that a call is still deciding for, the
  caches hold decisions of that row's access, and of after the last invalidation before the
  call began (`Sound`). That stays so where a change of the row finds no decision of another
  access under its new keys (`suited`), an invalidation finds nothing to clear
  (`nothingCached`), and a call that was overtaken by an invalidation writes nothing that
  another may still look up (`current`).

    `inv_reach`   in every run of such steps, every cached decision is one to answer from.
-/

namespace Drac.CameraStream.StreamPaths

open Runs Security Cameras

variable {net : CameraNetwork} {s t : System} {i : Nat} {call call' : Call} {row : Camera}

/-! ## The access in a URL -/

def Camera.authority (camera : Camera) (host : Text) : Option Text :=
  match encodeURIComponent camera.username, encodeURIComponent camera.password with
  | some username, some password =>
    some (units "rtsp://" ++ (username ++ colon :: (password ++ at_ ::
      (host ++ colon :: (decimal camera.rtspPort ++ [slash])))))
  | _, _ => none

/-- The address of a row as it stands, and as a URL is built with it. -/
def Camera.hosts (net : CameraNetwork) (camera : Camera) : List Text :=
  camera.ip :: (match targetIp net camera.ip camera.rtspPort with
    | .ok ip => [authorityHost ip]
    | .error _ => [])

/-- The URL has the user name, the password, the address and the port of the row. -/
def carries (net : CameraNetwork) (row : Camera) (url : Text) : Bool :=
  (row.hosts net).any (fun host => (row.authority host).any (fun start => start <+: url))

def Camera.access (camera : Camera) : Text × Text × Text × Int :=
  (camera.username, camera.password, camera.ip, camera.rtspPort)

variable {other : Camera}

theorem carries_congr (h : row.access = other.access) (url : Text) :
    carries net row url = carries net other url := by
  unfold Camera.access at h
  simp only [Prod.mk.injEq] at h
  obtain ⟨husername, hpassword, hip, hport⟩ := h
  unfold carries Camera.hosts Camera.authority
  rw [husername, hpassword, hip, hport]

theorem carries_of_start {host start url : Text} (hhost : host ∈ row.hosts net)
    (hstart : row.authority host = some start) (hurl : start <+: url) :
    carries net row url = true := by
  apply List.any_eq_true.mpr
  refine ⟨host, hhost, ?_⟩
  rw [hstart]
  exact decide_eq_true hurl

variable {path url : Text}

theorem carries_plainUrl (h : row.plainUrl path = some url)
    (hpath : path.head? = some slash) : carries net row url = true := by
  obtain ⟨rest, rfl⟩ : ∃ rest, path = slash :: rest := by
    cases path with
    | nil => cases hpath
    | cons c rest =>
      cases hpath
      exact ⟨rest, rfl⟩
  unfold Camera.plainUrl at h
  split at h
  · next username password huser hpass =>
    cases h
    have hhost : row.ip ∈ row.hosts net := List.mem_cons_self
    apply carries_of_start hhost
    · unfold Camera.authority
      rw [huser, hpass]
    · refine ⟨rest, ?_⟩
      simp
  · cases h

theorem path_head (camera : CameraRtspUrlInput) : camera.path.head? = some slash := by
  unfold CameraRtspUrlInput.path
  dsimp only
  split
  · next h => exact h
  · rfl

theorem carries_rtspUrl {profile : Profile} (h : row.rtspUrl net profile = .ok url) :
    carries net row url = true := by
  unfold Camera.rtspUrl buildRtspUrl at h
  dsimp only at h
  split at h
  · cases h
  · next targetIp htarget =>
    split at h
    · next username password huser hpass =>
      cases h
      have hhost : authorityHost targetIp ∈ row.hosts net := by
        unfold Camera.hosts
        rw [htarget]
        exact List.mem_cons_of_mem _ List.mem_cons_self
      apply carries_of_start hhost
      · unfold Camera.authority
        rw [huser, hpass]
      · generalize hpath : CameraRtspUrlInput.path _ = path
        have hhead : path.head? = some slash := hpath ▸ path_head _
        cases path with
        | nil => cases hhead
        | cons c rest =>
          cases hhead
          refine ⟨rest, ?_⟩
          simp
    · cases h

theorem alternateMainPath_head {rtspPath : Option Text} {channel : Int}
    (h : alternateMainPath rtspPath channel = some path) : path.head? = some slash := by
  unfold alternateMainPath at h
  dsimp only at h
  split at h
  · cases h
    rfl
  · split at h
    · cases h
      rfl
    · cases h

theorem alternateSubPath_head {rtspPath : Option Text} {channel : Int}
    (h : alternateSubPath rtspPath channel = some path) : path.head? = some slash := by
  unfold alternateSubPath at h
  dsimp only at h
  split at h
  · cases h
    rfl
  · split at h
    · cases h
      rfl
    · cases h

/-! ## Keys -/

theorem joinKey_cons (a b : Text) (rest : List Text) :
    joinKey (a :: b :: rest) = a ++ 0x7C :: joinKey (b :: rest) := by
  unfold joinKey
  simp [List.intercalate, List.intersperse]

theorem liveCodecKey_eq (id : CameraId) (row : Camera) : liveCodecKey id row =
    idText id ++ 0x7C :: joinKey (row.keyParts (resolveLiveRtspProfile row)) :=
  joinKey_cons _ _ _

theorem liveSourceKey_eq (id : CameraId) (row : Camera) :
    liveSourceKey id row = units "live-source" ++ 0x7C :: liveCodecKey id row :=
  joinKey_cons _ _ _

theorem gridKey_eq (id : CameraId) (row : Camera) : gridKey id row = units "grid" ++ 0x7C ::
    (idText id ++ 0x7C :: joinKey (row.keyParts (resolveGridRtspProfile row))) := by
  unfold gridKey
  rw [joinKey_cons]
  exact congrArg _ (congrArg _ (joinKey_cons _ _ _))

variable {a b : CameraId} {p q : Camera}

theorem liveCodecKey_id (h : liveCodecKey a p = liveCodecKey b q) :
    a = b := by
  rw [liveCodecKey_eq, liveCodecKey_eq] at h
  exact idText_append_inj h

theorem liveSourceKey_inj
    (h : liveSourceKey a p = liveSourceKey b q) : liveCodecKey a p = liveCodecKey b q := by
  rw [liveSourceKey_eq, liveSourceKey_eq] at h
  exact (List.cons.inj (List.append_cancel_left h)).2

theorem gridKey_id (h : gridKey a p = gridKey b q) : a = b := by
  rw [gridKey_eq, gridKey_eq] at h
  exact idText_append_inj (List.cons.inj (List.append_cancel_left h)).2

/-- Two rows whose decisions would be cached under one key. -/
def SameKey (id : CameraId) (row other : Camera) : Prop :=
  liveSourceKey id row = liveSourceKey id other ∨ gridKey id row = gridKey id other

instance (id : CameraId) (row other : Camera) : Decidable (SameKey id row other) :=
  inferInstanceAs (Decidable (_ ∨ _))

variable {id : CameraId}

theorem SameKey.symm (h : SameKey id row other) :
    SameKey id other row := by
  obtain h | h := h
  · exact .inl h.symm
  · exact .inr h.symm

/-! ## What is known of decisions -/

/-- What is cached under the keys of a row is of its access, and of the epoch given at least. -/
structure Sound (net : CameraNetwork) (s : System) (id : CameraId) (row : Camera) (n : Nat) :
    Prop where
  codec : ∀ e, s.codecEntry (liveCodecKey id row) = some e → n ≤ e.since
  source : ∀ e, s.sourceEntry (liveSourceKey id row) = some e →
    n ≤ e.since ∧ carries net row e.url = true
  grid : ∀ e, s.gridEntry (gridKey id row) = some e →
    n ≤ e.since ∧ ∀ url, e.url = some url → carries net row url = true

def Phase.deciding : Phase → Option Camera
  | .healing row _ | .ladder row _ _ _ | .primaries row _ _ | .codec row _ => some row
  | _ => none

/-- The URLs a call holds are of its row's access. -/
def Phase.holds (net : CameraNetwork) (began : Nat) : Phase → Prop
  | .healing row cached =>
    began ≤ cached.since ∧ ∀ url, cached.url = some url → carries net row url = true
  | .ladder row found url rest =>
    (∀ f ∈ found, carries net row f.url = true) ∧ ∀ u ∈ url :: rest, carries net row u = true
  | .primaries row url alternate => carries net row url = true ∧ carries net row alternate = true
  | .codec row url => carries net row url = true
  | .gpu row d | .sourceReading row d | .sourceDeleting row d | .sourceAdding row d
  | .pathReading row d | .pathDeleting row d | .pathAdding row d | .settling row d
  | .ended (.poster row d) => carries net row d.sourceUrl = true
  | _ => True

/-- Rows with a key in common have their access in common. -/
def Alike (id : CameraId) (row other : Camera) : Prop :=
  SameKey id row other → row.access = other.access

/-- What a call holds is good for a row that stood since it began. -/
structure Fits (net : CameraNetwork) (s : System) (call : Call) : Prop where
  used : call.began ≤ call.used
  holds : call.phase.holds net call.began
  sound : ∀ row, call.phase.deciding = some row → Sound net s call.cameraId row call.began
  present : ∀ row, call.phase.deciding = some row → ∀ other, s.rows call.cameraId = some other →
    Alike call.cameraId row other
  alike : ∀ row, call.phase.deciding = some row → ∀ c ∈ s.calls, c.cameraId = call.cameraId →
    ∀ other, c.phase.deciding = some other → Alike call.cameraId row other

/-- Every call fits, and every cache holds what is good for its row. -/
structure Inv (net : CameraNetwork) (s : System) : Prop where
  fits : ∀ call ∈ s.calls, Fits net s call
  present : ∀ id row, s.rows id = some row → Sound net s id row (s.history.epoch id)
  paths : ∀ id mode e, JsMap.get? s.pathEnsureCache (buildEnsureKey id mode) = some e →
    s.history.epoch id ≤ e.since

/-! ## The condition -/

/-- The decision goes under a key that no row uses of which more is asked: not the camera's
own after an invalidation since the call began, nor that of a call that began later. -/
def current (s : System) (call : Call) (key : Camera → Text) (row : Camera) : Bool :=
  (s.rows call.cameraId).all (fun other =>
    key row ≠ key other || s.history.epoch call.cameraId ≤ call.began) &&
  s.calls.all (fun c => c.cameraId ≠ call.cameraId ||
    c.phase.deciding.all (fun other => key row ≠ key other || c.began ≤ call.began))

def nothingCached (s : System) (id : CameraId) : Bool :=
  (s.rows id).all (fun row => (s.codecEntry (liveCodecKey id row)).isNone &&
    (s.sourceEntry (liveSourceKey id row)).isNone && (s.gridEntry (gridKey id row)).isNone)

/-- What is cached under the keys of a new row, or may be by a call in progress, is of its
access, and nothing of it is older than the last invalidation. -/
def suited (net : CameraNetwork) (s : System) (id : CameraId) (row : Camera) : Bool :=
  (s.codecEntry (liveCodecKey id row)).all (fun e => s.history.epoch id ≤ e.since) &&
  (s.sourceEntry (liveSourceKey id row)).all (fun e =>
    s.history.epoch id ≤ e.since && carries net row e.url) &&
  (s.gridEntry (gridKey id row)).all (fun e =>
    s.history.epoch id ≤ e.since && e.url.all (carries net row)) &&
  s.calls.all (fun c => c.cameraId ≠ id ||
    c.phase.deciding.all (fun other => !SameKey id other row || other.access = row.access))

def keepsDecision (s : System) (call : Call) : Phase → Answer → Bool
  | .ladder row found url rest, .probed metadata =>
    (!has264 (addFound found url metadata) && !rest.isEmpty) ||
      current s call (gridKey call.cameraId) row
  | .primaries row _ _, .both _ _ => current s call (liveSourceKey call.cameraId) row
  | .codec row _, .codec (some _) => current s call (liveCodecKey call.cameraId) row
  | .settling _ _, .done => s.history.epoch call.cameraId ≤ call.began
  | .tearing [_] _, _ => nothingCached s call.cameraId
  | _, _ => true

def keepsDecisions (net : CameraNetwork) (s : System) : Label → Bool
  | .edit id row => suited net s id row
  | .invalidate id | .recover id _ => nothingCached s id
  | .advance i answer => (s.calls[i]?).all (fun call => keepsDecision s call call.phase answer)
  | _ => true

variable {key : Camera → Text}

theorem current_present
    (h : current s call key row = true) (hrow : s.rows call.cameraId = some other)
    (hkey : key row = key other) : s.history.epoch call.cameraId ≤ call.began := by
  unfold current at h
  simp only [Bool.and_eq_true, hrow, Option.all_some, Bool.or_eq_true, decide_eq_true_eq] at h
  exact h.1.resolve_left (fun hne => hne hkey)

theorem current_call {c : Call}
    (h : current s call key row = true) (hmem : c ∈ s.calls) (hid : c.cameraId = call.cameraId)
    (hrow : c.phase.deciding = some other) (hkey : key row = key other) :
    c.began ≤ call.began := by
  unfold current at h
  simp only [Bool.and_eq_true, List.all_eq_true, Bool.or_eq_true, decide_eq_true_eq] at h
  have hc := (h.2 c hmem).resolve_left (fun hne => hne hid)
  rw [hrow] at hc
  simp only [Option.all_some, Bool.or_eq_true, decide_eq_true_eq] at hc
  exact hc.resolve_left (fun hne => hne hkey)

/-! ## Caches -/

theorem Sound.mono {m n : Nat} (h : Sound net s id row n) (hmn : m ≤ n) :
    Sound net s id row m := by
  refine ⟨?_, ?_, ?_⟩
  · intro e he
    exact hmn.trans (h.codec e he)
  · intro e he
    exact ⟨hmn.trans (h.source e he).1, (h.source e he).2⟩
  · intro e he
    exact ⟨hmn.trans (h.grid e he).1, (h.grid e he).2⟩

/-- What a state finds in the caches, the other finds too. -/
structure Finds (s t : System) : Prop where
  codec : ∀ k e, t.codecEntry k = some e → s.codecEntry k = some e
  source : ∀ k e, t.sourceEntry k = some e → s.sourceEntry k = some e
  grid : ∀ k e, t.gridEntry k = some e → s.gridEntry k = some e

variable {n : Nat}

theorem Finds.sound (hf : Finds s t) (h : Sound net s id row n) :
    Sound net t id row n :=
  ⟨fun e he => h.codec e (hf.codec _ e he), fun e he => h.source e (hf.source _ e he),
    fun e he => h.grid e (hf.grid _ e he)⟩

/-- Entries taken away, and time passing, leave fewer to find. -/
theorem finds_of_less (hclock : s.clock ≤ t.clock)
    (hcodec : ∀ k e, JsMap.get? t.liveCodecCache k = some e →
      JsMap.get? s.liveCodecCache k = some e)
    (hsource : ∀ k e, JsMap.get? t.liveSourceCache k = some e →
      JsMap.get? s.liveSourceCache k = some e)
    (hgrid : ∀ k e, JsMap.get? t.gridSourceCache k = some e →
      JsMap.get? s.gridSourceCache k = some e) : Finds s t := by
  have halive : ∀ ttl time, t.alive ttl time = true → s.alive ttl time = true := by
    intro ttl time h
    simp only [System.alive, decide_eq_true_eq] at h ⊢
    omega
  refine ⟨?_, ?_, ?_⟩
  · intro k e he
    obtain ⟨hget, hal⟩ := Option.filter_eq_some_iff.mp he
    exact Option.filter_eq_some_iff.mpr ⟨hcodec k e hget, halive _ _ hal⟩
  · intro k e he
    obtain ⟨hget, hal⟩ := Option.filter_eq_some_iff.mp he
    exact Option.filter_eq_some_iff.mpr ⟨hsource k e hget, halive _ _ hal⟩
  · intro k e he
    obtain ⟨hget, hal⟩ := Option.filter_eq_some_iff.mp he
    exact Option.filter_eq_some_iff.mpr ⟨hgrid k e hget, halive _ _ hal⟩

theorem finds_same (hclock : t.clock = s.clock) (hcodec : t.liveCodecCache = s.liveCodecCache)
    (hsource : t.liveSourceCache = s.liveSourceCache)
    (hgrid : t.gridSourceCache = s.gridSourceCache) : Finds s t := by
  apply finds_of_less hclock.ge
  · rw [hcodec]
    exact fun _ _ he => he
  · rw [hsource]
    exact fun _ _ he => he
  · rw [hgrid]
    exact fun _ _ he => he

theorem finds_enter : Finds s (s.enter i call) :=
  finds_same enter_clock enter_liveCodecCache enter_liveSourceCache enter_gridSourceCache

theorem filter_get?_set {β : Type} {m : List (Text × β)} {k k' : Text} {e e' : β} {p : β → Bool}
    (h : (JsMap.get? (JsMap.set m k e) k').filter p = some e') :
    (k = k' ∧ e' = e) ∨ (JsMap.get? m k').filter p = some e' := by
  rw [JsMap.get?_set] at h
  split at h
  · next hk =>
    obtain ⟨he, -⟩ := Option.filter_eq_some_iff.mp h
    exact .inl ⟨hk, (Option.some.inj he).symm⟩
  · exact .inr h

variable {id' : CameraId}

theorem sound_writeCodec {e : CodecEntry}
    (h : Sound net s id' other n)
    (hown : id' = id → liveCodecKey id row = liveCodecKey id other → n ≤ e.since) :
    Sound net { s with
      liveCodecCache := JsMap.set s.liveCodecCache (liveCodecKey id row) e } id' other n := by
  refine ⟨?_, h.source, h.grid⟩
  intro e' he'
  obtain ⟨hkey, rfl⟩ | hold := filter_get?_set he'
  · obtain rfl := liveCodecKey_id hkey
    exact hown rfl hkey
  · exact h.codec e' hold

theorem sound_writeSource {e : SourceEntry}
    (h : Sound net s id' other n)
    (hown : id' = id → liveSourceKey id row = liveSourceKey id other →
      n ≤ e.since ∧ carries net other e.url = true) :
    Sound net { s with
      liveSourceCache := JsMap.set s.liveSourceCache (liveSourceKey id row) e } id' other n := by
  refine ⟨h.codec, ?_, h.grid⟩
  intro e' he'
  obtain ⟨hkey, rfl⟩ | hold := filter_get?_set he'
  · obtain rfl := liveCodecKey_id (liveSourceKey_inj hkey)
    exact hown rfl hkey
  · exact h.source e' hold

theorem sound_writeGrid {e : GridEntry}
    (h : Sound net s id' other n)
    (hown : id' = id → gridKey id row = gridKey id other →
      n ≤ e.since ∧ ∀ url, e.url = some url → carries net other url = true) :
    Sound net { s with
      gridSourceCache := JsMap.set s.gridSourceCache (gridKey id row) e } id' other n := by
  refine ⟨h.codec, h.source, ?_⟩
  intro e' he'
  obtain ⟨hkey, rfl⟩ | hold := filter_get?_set he'
  · obtain rfl := gridKey_id hkey
    exact hown rfl hkey
  · exact h.grid e' hold

/-! ## Choices -/

/-- A call that has chosen, or goes on choosing, for a row. -/
structure Decides (net : CameraNetwork) (row : Camera) (call : Call) : Prop where
  used : call.began ≤ call.used
  holds : call.phase.holds net call.began
  row : ∀ other, call.phase.deciding = some other → other = row

theorem decides_done {phase : Phase} (hused : call.began ≤ call.used)
    (hholds : phase.holds net call.began) (hdone : phase.deciding = none) :
    Decides net row (call.goto phase) := by
  refine ⟨hused, hholds, ?_⟩
  intro other h
  cases hdone.symm.trans h

theorem decides_reject (hused : call.began ≤ call.used) : Decides net row call.reject :=
  decides_done hused trivial rfl

theorem decides_chosen {d : Decision} (hused : call.began ≤ call.used)
    (hurl : carries net row d.sourceUrl = true) : Decides net row (chosen call row d) := by
  unfold chosen
  split
  · exact decides_done hused hurl rfl
  · split
    · split <;> exact decides_done hused hurl rfl
    · exact decides_done hused hurl rfl

theorem used_uses (hused : call.began ≤ call.used) (hn : call.began ≤ n) :
    (call.uses n).began ≤ (call.uses n).used := le_min hused hn

theorem decides_afterSource {codec : Option Text}
    (hs : Sound net s call.cameraId row call.began) (hused : call.began ≤ call.used)
    (hurl : carries net row url = true) : Decides net row (afterSource s call row url codec) := by
  unfold afterSource
  dsimp only
  split
  · exact decides_chosen hused hurl
  · split
    · exact decides_chosen hused hurl
    · split
      · next e he => exact decides_chosen (used_uses hused (hs.codec e he)) hurl
      · refine ⟨hused, hurl, ?_⟩
        intro other h
        cases h
        rfl

theorem decides_live (hs : Sound net s call.cameraId row call.began)
    (hused : call.began ≤ call.used) : Decides net row (chooseLiveSource net s call row) := by
  unfold chooseLiveSource
  dsimp only
  split
  · exact decides_reject hused
  · next url hurl =>
    have hcarries := carries_rtspUrl hurl
    split
    · exact decides_afterSource hs hused hcarries
    · next path hpath =>
      split
      · next e he =>
        obtain ⟨hsince, hentry⟩ := hs.source e he
        exact decides_afterSource hs (used_uses hused hsince) hentry
      · split
        · exact decides_reject hused
        · next alternate halternate =>
          have hhead : path.head? = some slash := by
            split at hpath
            · exact alternateMainPath_head hpath
            · cases hpath
          refine ⟨hused, ⟨hcarries, carries_plainUrl halternate hhead⟩, ?_⟩
          intro other h
          cases h
          rfl

theorem decides_useGrid {e : GridEntry} (hs : Sound net s call.cameraId row call.began)
    (hused : call.began ≤ call.used) (hsince : call.began ≤ e.since)
    (hurl : ∀ url, e.url = some url → carries net row url = true) :
    Decides net row (useGrid net s call row e) := by
  unfold useGrid
  split
  · next url he => exact decides_chosen (used_uses hused hsince) (hurl url he)
  · exact decides_live hs (used_uses hused hsince)

theorem decides_startLadder (hused : call.began ≤ call.used) :
    Decides net row (startLadder net call row) := by
  unfold startLadder
  dsimp only
  split
  · exact decides_reject hused
  · next url hurl =>
    refine ⟨hused, ⟨?_, ?_⟩, ?_⟩
    · intro f hf
      cases hf
    · intro u hu
      obtain rfl | hrest := List.mem_cons.mp hu
      · exact carries_rtspUrl hurl
      · obtain ⟨path, hpath, hplain⟩ := List.mem_filterMap.mp hrest
        apply carries_plainUrl hplain
        obtain halt | hsub2 := List.mem_append.mp hpath
        · exact alternateSubPath_head (Option.mem_toList.mp halt)
        · simp only [List.mem_cons, List.not_mem_nil, or_false] at hsub2
          obtain rfl | rfl | rfl := hsub2 <;> rfl
    · intro other h
      cases h
      rfl

theorem decides_grid (hs : Sound net s call.cameraId row call.began)
    (hused : call.began ≤ call.used) : Decides net row (chooseGridSource net s call row) := by
  unfold chooseGridSource
  split
  · next e he =>
    obtain ⟨hsince, hurl⟩ := hs.grid e he
    split
    · refine ⟨hused, ⟨hsince, hurl⟩, ?_⟩
      intro other h
      cases h
      rfl
    · exact decides_useGrid hs hused hsince hurl
  · exact decides_startLadder hused

variable {found : List Found}

theorem mem_of_smallest {f : Found} (h : smallest found = some f) :
    f ∈ found := by
  unfold smallest at h
  have hmem := List.mem_of_head? h
  exact (List.mem_insertionSort _).mp hmem

theorem mem_of_chooseFound {f : Found} (h : chooseFound found = some f) :
    f ∈ found := by
  unfold chooseFound at h
  obtain h264 | ⟨-, h265⟩ := Option.or_eq_some_iff.mp h
  · exact List.mem_of_mem_filter (mem_of_smallest h264)
  · exact List.mem_of_mem_filter (mem_of_smallest h265)

theorem carries_addFound (metadata : Option Metadata)
    (hfound : ∀ f ∈ found, carries net row f.url = true) (hurl : carries net row url = true) :
    ∀ f ∈ addFound found url metadata, carries net row f.url = true := by
  intro f hf
  obtain hmem | hnew := List.mem_append.mp hf
  · exact hfound f hmem
  · obtain ⟨m, -, hm⟩ := Option.bind_eq_some_iff.mp (Option.mem_toList.mp hnew)
    obtain ⟨codec, -, rfl⟩ := Option.map_eq_some_iff.mp hm
    exact hurl

/-! ## The invariant -/

/-- Nothing about the rows, the calls and the epochs has changed, and the caches hold nothing
that was not there. -/
structure Less (s t : System) : Prop where
  rows : t.rows = s.rows
  calls : t.calls = s.calls
  epoch : t.history.epoch = s.history.epoch
  finds : Finds s t
  paths : ∀ k e, JsMap.get? t.pathEnsureCache k = some e → JsMap.get? s.pathEnsureCache k = some e

theorem Fits.less (hf : Fits net s call) (hrows : t.rows = s.rows) (hcalls : t.calls = s.calls)
    (hsound : ∀ row, call.phase.deciding = some row → Sound net t call.cameraId row call.began) :
    Fits net t call := by
  refine ⟨hf.used, hf.holds, hsound, ?_, ?_⟩
  · rw [hrows]
    exact hf.present
  · rw [hcalls]
    exact hf.alike

theorem inv_less (hi : Inv net s) (h : Less s t) : Inv net t := by
  refine ⟨?_, ?_, ?_⟩
  · intro c hc
    rw [h.calls] at hc
    have hf := hi.fits c hc
    exact hf.less h.rows h.calls (fun row hrow => h.finds.sound (hf.sound row hrow))
  · intro id row hrow
    rw [h.rows] at hrow
    rw [h.epoch]
    exact h.finds.sound (hi.present id row hrow)
  · intro id mode e he
    rw [h.epoch]
    exact hi.paths id mode e (h.paths _ e he)

theorem inv_write (hi : Inv net s) (hmem : call ∈ s.calls)
    (hrow : call.phase.deciding = some row) (hcurrent : current s call key row = true)
    (hkey : ∀ other, key row = key other → SameKey call.cameraId row other)
    (hrows : t.rows = s.rows) (hcalls : t.calls = s.calls)
    (hepoch : t.history.epoch = s.history.epoch) (hpaths : t.pathEnsureCache = s.pathEnsureCache)
    (hsound : ∀ {id' : CameraId} {other : Camera} {n : Nat}, Sound net s id' other n →
      (id' = call.cameraId → key row = key other →
        n ≤ call.used ∧ row.access = other.access) → Sound net t id' other n) :
    Inv net t := by
  have hown := hi.fits call hmem
  refine ⟨?_, ?_, ?_⟩
  · intro c hc
    rw [hcalls] at hc
    have hf := hi.fits c hc
    apply hf.less hrows hcalls
    intro other hother
    apply hsound (hf.sound other hother)
    intro hid hsame
    refine ⟨?_, hown.alike row hrow c hc hid other hother (hkey other hsame)⟩
    exact (current_call hcurrent hc hid hother hsame).trans hown.used
  · intro id other hother
    rw [hrows] at hother
    rw [hepoch]
    apply hsound (hi.present id other hother)
    rintro rfl hsame
    refine ⟨?_, hown.present row hrow other hother (hkey other hsame)⟩
    exact (current_present hcurrent hother hsame).trans hown.used
  · rw [hpaths, hepoch]
    exact hi.paths

theorem fits_next (hf : Fits net t call) (hrow : call.phase.deciding = some row)
    (hc : Chooses row call call') (hd : Decides net row call') : Fits net t call' := by
  have hback : ∀ other, call'.phase.deciding = some other → other = row := hd.row
  refine ⟨hd.used, hd.holds, ?_, ?_, ?_⟩
  · intro other hother
    rw [hback other hother, hc.camera, hc.began]
    exact hf.sound row hrow
  · intro other hother
    rw [hback other hother, hc.camera]
    exact hf.present row hrow
  · intro other hother
    rw [hback other hother, hc.camera]
    exact hf.alike row hrow

theorem fits_done {phase : Phase} (hused : call.began ≤ call.used)
    (hholds : phase.holds net call.began) (hdone : phase.deciding = none) :
    Fits net t (call.goto phase) := by
  have hnone : ∀ row, (call.goto phase).phase.deciding ≠ some row := by
    intro row h
    cases hdone.symm.trans h
  refine ⟨hused, hholds, ?_, ?_, ?_⟩
  · intro row h
    exact absurd h (hnone row)
  · intro row h
    exact absurd h (hnone row)
  · intro row h
    exact absurd h (hnone row)

theorem holds_ended {outcome : Outcome} {m n : Nat} (h : (Phase.ended outcome).holds net m) :
    (Phase.ended outcome).holds net n := by
  cases outcome <;> exact h

theorem Alike.symm (h : Alike id row other) :
    Alike id other row := fun hkey => (h hkey.symm).symm

theorem inv_enter (hi : Inv net t) (hf : Fits net t call')
    (hwait : ∀ c ∈ t.calls, c.phase = .joined i → c.began ≤ call'.began) :
    Inv net (t.enter i call') := by
  have hcall : ∀ {c : Call} {row other : Camera}, c ∈ (t.enter i call').calls →
      c.cameraId = call'.cameraId → c.phase.deciding = some other →
      call'.phase.deciding = some row → Alike call'.cameraId row other := by
    intro c row other hc hid hother hrow
    obtain rfl | hmem | ⟨_, _, _, _, _, rfl⟩ := mem_enter hc
    · cases hrow.symm.trans hother
      exact fun _ => rfl
    · exact hf.alike row hrow c hmem hid other hother
    · cases hother
  have hheld : ∀ c, Fits net t c → (∀ row, c.phase.deciding = some row →
      ∀ c' ∈ (t.enter i call').calls, c'.cameraId = c.cameraId →
      ∀ other, c'.phase.deciding = some other → Alike c.cameraId row other) →
      Fits net (t.enter i call') c := by
    intro c hc halike
    refine ⟨hc.used, hc.holds, ?_, ?_, halike⟩
    · intro row hrow
      exact finds_enter.sound (hc.sound row hrow)
    · rw [enter_rows]
      exact hc.present
  refine ⟨?_, ?_, ?_⟩
  · intro c hc
    obtain rfl | hmem | ⟨other, hother, outcome, hphase, hjoined, rfl⟩ := mem_enter hc
    · apply hheld _ hf
      intro row hrow c' hc' hid other hother
      exact hcall hc' hid hother hrow
    · have hfc := hi.fits c hmem
      apply hheld c hfc
      intro row hrow c' hc' hid other hother
      obtain rfl | hmem' | ⟨_, _, _, _, _, rfl⟩ := mem_enter hc'
      · rw [← hid]
        exact (hcall hc hid.symm hrow hother).symm
      · exact hfc.alike row hrow c' hmem' hid other hother
      · cases hother
    · have hfo := hi.fits other hother
      have hheard : Fits net t ({ other with used := min other.used call'.used }.goto
          (.ended outcome)) := by
        apply fits_done
        · exact le_min hfo.used ((hwait other hother hjoined).trans hf.used)
        · have hholds := hf.holds
          rw [hphase] at hholds
          exact holds_ended hholds
        · rfl
      apply hheld _ hheard
      intro row hrow
      cases hrow
  · intro id row hrow
    rw [enter_rows] at hrow
    rw [enter_history]
    exact finds_enter.sound (hi.present id row hrow)
  · rw [enter_pathEnsureCache, enter_history]
    exact hi.paths

/-! ## Steps -/

/-- The state a call leaves, and the call as it goes on, are as they should be. -/
structure Keeps (net : CameraNetwork) (m : Move) : Prop where
  inv : Inv net m.1
  fits : Fits net m.1 m.2

theorem keeps_choice (hmem : call ∈ s.calls) (hrow : call.phase.deciding = some row)
    (hi : Inv net t) (hcalls : t.calls = s.calls) (hc : Chooses row call call')
    (hd : Decides net row call') : Keeps net (t, call') :=
  ⟨hi, fits_next (hi.fits call (hcalls ▸ hmem)) hrow hc hd⟩

theorem keeps_decideGrid (hi : Inv net s) (hmem : call ∈ s.calls)
    (hrow : call.phase.deciding = some row)
    (hcurrent : current s call (gridKey call.cameraId) row = true)
    (hfound : ∀ f ∈ found, carries net row f.url = true) :
    Keeps net (decideGrid net s call row found) := by
  have hf := hi.fits call hmem
  have hwrite : ∀ e : GridEntry, e.since = call.used →
      (∀ url, e.url = some url → carries net row url = true) →
      Inv net { s with
        gridSourceCache := JsMap.set s.gridSourceCache (gridKey call.cameraId row) e } := by
    intro e hsince hurl
    refine inv_write hi hmem hrow hcurrent (fun _ h => .inr h) rfl rfl rfl rfl ?_
    intro id' other n hs hown
    apply sound_writeGrid hs
    intro hid hkey
    obtain ⟨hn, haccess⟩ := hown hid hkey
    rw [hsince]
    refine ⟨hn, ?_⟩
    intro url he
    rw [← carries_congr haccess]
    exact hurl url he
  unfold decideGrid
  dsimp only
  split
  · next f hchosen =>
    have hcarries := hfound f (mem_of_chooseFound hchosen)
    refine keeps_choice hmem hrow (hwrite _ rfl ?_) rfl (chooses_chosen _)
      (decides_chosen hf.used hcarries)
    intro url he
    cases he
    exact hcarries
  · refine keeps_choice hmem hrow (hwrite _ rfl ?_) rfl chooses_live
      (decides_live (hf.sound row hrow) hf.used)
    intro url he
    cases he

theorem keeps_ladder {rest : List Text}
    {metadata : Option Metadata} (hi : Inv net s) (hmem : call ∈ s.calls)
    (hphase : call.phase = .ladder row found url rest)
    (hguard : keepsDecision s call call.phase (.probed metadata) = true) :
    Keeps net (probedStream net s call row (addFound found url metadata) rest) := by
  have hf := hi.fits call hmem
  have hrow : call.phase.deciding = some row := by
    rw [hphase]
    rfl
  have hholds := hf.holds
  rw [hphase] at hholds hguard
  obtain ⟨hfound, hurls⟩ := hholds
  have hadded := carries_addFound metadata hfound (hurls url List.mem_cons_self)
  simp only [keepsDecision, Bool.or_eq_true, Bool.and_eq_true, Bool.not_eq_true'] at hguard
  cases rest with
  | nil =>
    obtain ⟨-, hempty⟩ | hcurrent := hguard
    · cases hempty
    · exact keeps_decideGrid hi hmem hrow hcurrent hadded
  | cons next rest =>
    simp only [probedStream]
    split
    · next h264 =>
      obtain ⟨hnone, -⟩ | hcurrent := hguard
      · rw [h264] at hnone
        cases hnone
      · exact keeps_decideGrid hi hmem hrow hcurrent hadded
    · refine keeps_choice hmem hrow hi rfl ⟨rfl, rfl, rfl, rfl, id⟩ ⟨hf.used, ⟨hadded, ?_⟩, ?_⟩
      · intro u hu
        exact hurls u (List.mem_cons_of_mem _ hu)
      · intro other h
        cases h
        rfl

theorem keeps_primaries {url alternate : Text} {primary other : Option Metadata}
    (hi : Inv net s) (hmem : call ∈ s.calls) (hphase : call.phase = .primaries row url alternate)
    (hguard : keepsDecision s call call.phase (.both primary other) = true) :
    Keeps net (probedPrimaries s call row url alternate primary other) := by
  have hf := hi.fits call hmem
  have hrow : call.phase.deciding = some row := by
    rw [hphase]
    rfl
  have hholds := hf.holds
  rw [hphase] at hholds hguard
  unfold probedPrimaries
  dsimp only
  have hcarries : ∀ {takesOther : Bool},
      carries net row (if takesOther = true then alternate else url) = true := by
    intro takesOther
    split
    · exact hholds.2
    · exact hholds.1
  refine keeps_choice hmem hrow ?_ rfl (chooses_afterSource _ _)
    (decides_afterSource (hf.sound row hrow) hf.used hcarries)
  refine inv_write hi hmem hrow hguard (fun _ h => .inl h) rfl rfl rfl rfl ?_
  intro id' other' n hs hown
  apply sound_writeSource hs
  intro hid hkey
  obtain ⟨hn, haccess⟩ := hown hid hkey
  rw [← carries_congr haccess]
  exact ⟨hn, hcarries⟩

theorem keeps_codec {codec : Option Text} (hi : Inv net s) (hmem : call ∈ s.calls)
    (hphase : call.phase = .codec row url)
    (hguard : keepsDecision s call call.phase (.codec codec) = true) :
    Keeps net (probedCodec s call row url codec) := by
  have hf := hi.fits call hmem
  have hrow : call.phase.deciding = some row := by
    rw [hphase]
    rfl
  have hholds := hf.holds
  rw [hphase] at hholds hguard
  unfold probedCodec
  dsimp only
  split
  · exact keeps_choice hmem hrow hi rfl (chooses_chosen _) (decides_chosen hf.used hholds)
  · refine keeps_choice hmem hrow ?_ rfl (chooses_chosen _) (decides_chosen hf.used hholds)
    -- the key of the main source holds that of its codec
    have hkey : ∀ other, liveCodecKey call.cameraId row = liveCodecKey call.cameraId other →
        SameKey call.cameraId row other := by
      intro other h
      refine .inl ?_
      rw [liveSourceKey_eq, liveSourceKey_eq, h]
    refine inv_write hi hmem hrow hguard hkey rfl rfl rfl rfl ?_
    intro id' other n hs hown
    apply sound_writeCodec hs
    intro hid hsame
    exact (hown hid hsame).1

theorem keeps_healed {cached : GridEntry} {dead : Bool} (hi : Inv net s) (hmem : call ∈ s.calls)
    (hphase : call.phase = .healing row cached) :
    Keeps net (healed net s call row cached dead) := by
  have hf := hi.fits call hmem
  have hrow : call.phase.deciding = some row := by
    rw [hphase]
    rfl
  have hholds := hf.holds
  rw [hphase] at hholds
  unfold healed
  split
  · refine keeps_choice hmem hrow ?_ rfl chooses_startLadder (decides_startLadder hf.used)
    refine inv_less hi ⟨rfl, rfl, rfl, ?_, fun _ _ he => he⟩
    exact finds_of_less (le_refl _) (fun _ _ he => he) (fun _ _ he => he)
      (fun _ _ he => JsMap.get?_of_erase he)
  · split
    · exact keeps_choice hmem hrow hi rfl (chooses_useGrid _)
        (decides_useGrid (hf.sound row hrow) hf.used hholds.1 hholds.2)
    · exact keeps_choice hmem hrow hi rfl chooses_startLadder (decides_startLadder hf.used)

theorem fits_present (hi : Inv net s) (hw : Wired s) (hmem : call ∈ s.calls)
    (hpresent : s.rows call.cameraId = some row) (hc : Chooses row call call')
    (hd : Decides net row call') : Fits net s call' := by
  have hsound : Sound net s call.cameraId row call.began :=
    (hi.present call.cameraId row hpresent).mono (hw.began call hmem)
  refine ⟨hd.used, hd.holds, ?_, ?_, ?_⟩
  · intro other hother
    rw [hd.row other hother, hc.camera, hc.began]
    exact hsound
  · intro other hother other' hother'
    rw [hc.camera, hpresent] at hother'
    cases hother'
    rw [hd.row other hother]
    exact fun _ => rfl
  · intro other hother c hcmem hid other' hother'
    rw [hd.row other hother]
    rw [hc.camera] at hid ⊢
    rw [← hid] at hpresent ⊢
    exact ((hi.fits c hcmem).present other' hother' row hpresent).symm

theorem inv_invalidate (hi : Inv net s) (hnone : nothingCached s id = true) :
    Inv net (invalidateMainCodecCache s id) := by
  have hfinds : Finds s (invalidateMainCodecCache s id) :=
    finds_of_less (le_refl _)
      (fun _ _ he => JsMap.get?_of_filter (p := fun k => !decide (idText id ++ [colon] <+: k)) he)
      (fun _ _ he => he)
      (fun _ _ he => JsMap.get?_of_filter
        (p := fun k => !decide (units "grid:" ++ (idText id ++ [colon]) <+: k)) he)
  refine ⟨?_, ?_, ?_⟩
  · intro c hc
    have hf := hi.fits c hc
    exact hf.less rfl rfl (fun row hrow => hfinds.sound (hf.sound row hrow))
  · intro id' row hrow
    show Sound net _ id' row (Function.update s.history.epoch id (s.history.epoch id + 1) id')
    by_cases hid : id' = id
    · -- there is nothing to be too old
      subst hid
      unfold nothingCached at hnone
      rw [show s.rows id' = some row from hrow] at hnone
      simp only [Option.all_some, Bool.and_eq_true, Option.isNone_iff_eq_none] at hnone
      obtain ⟨⟨hcodec, hsource⟩, hgrid⟩ := hnone
      refine ⟨?_, ?_, ?_⟩
      · intro e he
        cases hcodec.symm.trans (hfinds.codec _ e he)
      · intro e he
        cases hsource.symm.trans (hfinds.source _ e he)
      · intro e he
        cases hgrid.symm.trans (hfinds.grid _ e he)
    · rw [Function.update_of_ne hid]
      exact hfinds.sound (hi.present id' row hrow)
  · intro id' mode e he
    show Function.update s.history.epoch id (s.history.epoch id + 1) id' ≤ e.since
    by_cases hid : id' = id
    · subst hid
      cases (invalidated_none s.pathEnsureCache id' mode).symm.trans he
    · rw [Function.update_of_ne hid]
      exact hi.paths id' mode e
        (JsMap.get?_of_filter (p := fun k => !decide (idText id ++ [colon] <+: k)) he)

end Drac.CameraStream.StreamPaths
