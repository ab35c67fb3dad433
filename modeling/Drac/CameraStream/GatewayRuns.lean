import Drac.Lib.Runs
import Drac.CameraStream.SourceGateway

/-
  Runs of the source gateway.

  A call is an operation with the settings it reads and the instant it is made at;
  calls come at non-decreasing instants. Beside the gateway a run carries one
  history variable, `unattempted`: the entries whose circuit opened and for which
  no attempt was noted since.

  `call_entry` says once what a call can do to an entry; `Registered` (each entry
  under its own key, no idle entry with a consumer) and `Awaiting` (an entry that
  awaits an attempt is neither connecting nor online) follow from it for every run.
-/

namespace Drac.CameraStream

open Runs

/-! ## Calls -/

/-- The public calls of the gateway. -/
inductive GatewayOp where
  | resolveSourceUrl (input : ResolveSourceInput)
  | registerPublishedSource (cameraId : String) (profile url : Option String)
  | acquire (cameraId : String) (profile : Option String) (consumer : String)
  | release (id : LeaseId)
  | noteConnecting (cameraId : String) (profile : Option String)
  | noteProgress (cameraId : String) (profile : Option String) (info : ProgressInfo)
  | noteFailure (cameraId : String) (profile : Option String) (random : ℚ)
  | canAttempt (cameraId : String) (profile : Option String)
  | tick

structure GatewayCall where
  settings : Settings
  now : ℚ
  op : GatewayOp

def Gateway.call (c : GatewayCall) (g : Gateway) : Gateway :=
  match c.op with
  | .resolveSourceUrl _ | .canAttempt .. => g
  | .registerPublishedSource cameraId profile url =>
    CameraStream.registerPublishedSource c.settings c.now cameraId profile url g
  | .acquire cameraId profile consumer =>
    (CameraStream.acquire c.settings c.now cameraId profile consumer g).1
  | .release id => CameraStream.release c.now id g
  | .noteConnecting cameraId profile =>
    CameraStream.noteConnecting c.settings c.now cameraId profile g
  | .noteProgress cameraId profile info =>
    CameraStream.noteProgress c.settings c.now cameraId profile info g
  | .noteFailure cameraId profile random =>
    CameraStream.noteFailure c.settings c.now cameraId profile random g
  | .tick => CameraStream.tick c.settings c.now g

def GatewayCall.attempts (c : GatewayCall) : Option SourceKey :=
  match c.op with
  | .noteConnecting cameraId profile | .noteProgress cameraId profile _ =>
    if c.settings.isEnabled then some (cameraId, normalizeSourceProfile profile) else none
  | _ => none

def GatewayCall.opens (c : GatewayCall) (g : Gateway) : Option SourceKey :=
  match c.op with
  | .noteFailure cameraId profile _ =>
    if opensCircuit c.settings c.now cameraId profile g then
      some (cameraId, normalizeSourceProfile profile)
    else none
  | _ => none

/-- A gateway, its clock and the circuits that no attempt has followed. -/
structure GatewayRun where
  gateway : Gateway
  now : ℚ
  /-- The entries whose circuit opened with no attempt noted since. -/
  unattempted : List SourceKey
  deriving DecidableEq

def unattemptedAfter (c : GatewayCall) (g : Gateway) (unattempted : List SourceKey) :
    List SourceKey :=
  ((c.opens g).toList ++ unattempted.filter (fun key => c.attempts ≠ some key)).filter
    (fun key => ((g.call c).entryAt key).isSome)

/-- The gateway, called at times that do not go back. -/
def gatewayMachine : Machine GatewayRun GatewayCall where
  init r := r.gateway = {} ∧ r.unattempted = []
  step r c :=
    if r.now ≤ c.now then
      some ⟨r.gateway.call c, c.now, unattemptedAfter c r.gateway r.unattempted⟩
    else none

/-! ## What a call does to an entry -/

@[simp] theorem entryAt_setEntry (g : Gateway) (key key' : SourceKey) (e : SourceEntry) :
    (g.setEntry key e).entryAt key' = if key = key' then some e else g.entryAt key' :=
  JsMap.get?_set g.entries key e key'

/-- The eight things a call may do to an entry. -/
inductive Effect (c : GatewayCall) (g : Gateway) (key : SourceKey) :
    SourceEntry → SourceEntry → Prop where
  | same (e : SourceEntry) : Effect c g key e e
  | published (e : SourceEntry) (url : Option String) :
      Effect c g key e { e with publishedUrl := url, touchedAtMs := c.now }
  | attached (e : SourceEntry) (id : LeaseId) (consumer : String)
      (hidle : e.state = .idle → ∃ cameraId profile, c.op = .acquire cameraId profile consumer ∧
        c.settings.isEnabled = true ∧
        acquireSubstitute c.settings cameraId (normalizeSourceProfile profile) g = none ∧
        key = (cameraId, normalizeSourceProfile profile)) :
      Effect c g key e (attach id consumer c.now e)
  | detached (e : SourceEntry) (id : LeaseId) : Effect c g key e (detach id c.now e)
  | connecting (e : SourceEntry) (hattempt : c.attempts = some key) :
      Effect c g key e { e with state := .connecting, touchedAtMs := c.now }
  | progressed (e : SourceEntry) (info : ProgressInfo) (hattempt : c.attempts = some key) :
      Effect c g key e (progressed info c.now e)
  | failed (e : SourceEntry) (random : ℚ) : Effect c g key e (failed c.settings c.now random e)
  | stalled (e : SourceEntry) (honline : e.state = .online) :
      Effect c g key e { e with state := .stalled, degraded := true }

/-- The entry a call works on for a key: the one there, or a new one. -/
def Before (c : GatewayCall) (g : Gateway) (key : SourceKey) (e : SourceEntry) : Prop :=
  g.entryAt key = some e ∨ (g.entryAt key = none ∧ e = newEntry key.1 key.2 c.now)

variable {now : ℚ} {cameraId : String} {profile : SourceProfile} {e : SourceEntry}

theorem ensureEntry_spec {g g' : Gateway}
    (h : ensureEntry now cameraId profile g = some (g', e)) :
    (g.entryAt (cameraId, profile) = some e ∨
      (g.entryAt (cameraId, profile) = none ∧ e = newEntry cameraId profile now)) ∧
      ∀ key e', g'.entryAt key = some e' →
        g.entryAt key = some e' ∨ (key = (cameraId, profile) ∧ e' = e) := by
  unfold ensureEntry at h
  split at h
  · next existing hget =>
    cases h
    exact ⟨.inl hget, fun key e' hk => .inl hk⟩
  · next hnone =>
    simp only at h
    split at h
    · cases h
      refine ⟨.inr ⟨hnone, rfl⟩, ?_⟩
      intro key e' hk
      rw [entryAt_setEntry] at hk
      split at hk
      · next heq =>
        cases hk
        exact .inr ⟨heq.symm, rfl⟩
      · exact .inl hk
    · split at h
      · cases h
      · next oldest _ =>
        cases h
        refine ⟨.inr ⟨hnone, rfl⟩, ?_⟩
        intro key e' hk
        rw [entryAt_setEntry] at hk
        split at hk
        · next heq =>
          cases hk
          exact .inr ⟨heq.symm, rfl⟩
        · -- an entry that is still there was not the one given up
          have hkept : JsMap.get? (JsMap.erase g.entries oldest) key = some e' := hk
          rw [JsMap.get?_erase] at hkept
          split at hkept
          · cases hkept
          · exact .inl hkept

variable {s : Settings} {key : SourceKey} {e' : SourceEntry}

theorem onEntry_entry {profile : Option String}
    {change : SourceEntry → SourceEntry} {g : Gateway}
    (h : (onEntry s now cameraId profile change g).entryAt key = some e') :
    g.entryAt key = some e' ∨
      (s.isEnabled = true ∧ key = (cameraId, normalizeSourceProfile profile) ∧
        ∃ e, (g.entryAt key = some e ∨
          (g.entryAt key = none ∧ e = newEntry key.1 key.2 now)) ∧ e' = change e) := by
  unfold onEntry at h
  split at h
  · exact .inl h
  · next hon =>
    split at h
    · exact .inl h
    · next g' e hens =>
      obtain ⟨hbefore, hothers⟩ := ensureEntry_spec hens
      rw [entryAt_setEntry] at h
      split at h
      · next heq =>
        cases h
        subst heq
        exact .inr ⟨by simpa using hon, rfl, e, hbefore, rfl⟩
      · next hne =>
        rcases hothers key e' h with hsame | ⟨heq, -⟩
        · exact .inl hsame
        · exact absurd heq.symm hne

theorem tick_entryAt {g : Gateway} (hnodup : (JsMap.keys g.entries).Nodup) (s : Settings) (now : ℚ)
    (key : SourceKey) : (tick s now g).entryAt key =
      if s.isEnabled then (g.entryAt key).bind (tickEntry s now) else g.entryAt key := by
  unfold tick
  by_cases hon : s.isEnabled = true
  · rw [if_neg (by simp [hon]), if_pos hon]
    exact JsMap.get?_filterMap hnodup (tickEntry s now) key
  · rw [if_pos (by simpa using hon), if_neg hon]

/-! ## The registry -/

/-- Each entry is under its own key, and an idle one has no consumer. -/
structure Gateway.Registered (g : Gateway) : Prop where
  nodup : (JsMap.keys g.entries).Nodup
  own : ∀ key e, g.entryAt key = some e → e.key = key
  idle : ∀ key e, g.entryAt key = some e → e.state = .idle → e.consumers = []

theorem pickSubstitute_mem {candidates : List SourceEntry}
    (h : pickSubstitute candidates = some e) : e ∈ candidates := by
  have hpool : ∀ pool : List SourceEntry,
      (pool.find? (fun e => e.profile = .main)).or pool.head? = some e → e ∈ pool := by
    intro pool hp
    rw [Option.or_eq_some_iff] at hp
    rcases hp with hfind | ⟨-, hhead⟩
    · exact List.mem_of_find?_eq_some hfind
    · exact List.mem_of_head? hhead
  unfold pickSubstitute at h
  simp only at h
  split at h
  · exact List.mem_of_mem_filter (hpool _ h)
  · exact hpool _ h

variable {c : GatewayCall}

section Lookups

variable {g : Gateway} (hreg : g.Registered)
include hreg

theorem activeEntries_mem
    (h : e ∈ activeEntries g cameraId) :
    g.entryAt (cameraId, e.profile) = some e ∧ isActive e = true := by
  simp only [activeEntries, JsMap.values, List.mem_filter, List.mem_map, Bool.and_eq_true,
    decide_eq_true_eq] at h
  obtain ⟨⟨⟨key, e'⟩, hmem, rfl⟩, rfl, hactive⟩ := h
  have hget : g.entryAt key = some e' := JsMap.mem_get? hreg.nodup hmem
  have hkey : (e'.cameraId, e'.profile) = key := hreg.own key e' hget
  exact ⟨by rw [hkey, hget], hactive⟩

theorem acquireSubstitute_spec
    (h : acquireSubstitute s cameraId profile g = some e) :
    g.entryAt e.key = some e ∧ e.state ≠ .idle := by
  unfold acquireSubstitute at h
  split at h
  · cases h
  · simp only at h
    split at h
    · obtain ⟨hget, hactive⟩ :=
        activeEntries_mem hreg (List.mem_of_mem_filter (pickSubstitute_mem h))
      rw [show e.key = (cameraId, e.profile) from hreg.own _ e hget]
      refine ⟨hget, ?_⟩
      intro hidle
      simp [isActive, hidle, hreg.idle _ e hget hidle] at hactive
    · cases h

theorem sourceFor_spec {input : ResolveSourceInput}
    {reason : SourceDecisionReason} (h : sourceFor s input g = some (e, reason)) :
    g.entryAt (input.cameraId, e.profile) = some e ∧ e.state ≠ .idle := by
  unfold sourceFor at h
  simp only at h
  split at h
  · next e' hactive =>
    cases h
    rw [activeEntry, Option.filter_eq_some_iff] at hactive
    obtain ⟨hget, hlive⟩ := hactive
    have hkey : (e.cameraId, e.profile) = _ := hreg.own _ e hget
    rw [Prod.mk.injEq] at hkey
    refine ⟨by rw [hkey.2]; exact hget, ?_⟩
    intro hidle
    simp [isActive, hidle, hreg.idle _ e hget hidle] at hlive
  · split at h
    · rw [Option.map_eq_some_iff] at h
      obtain ⟨e', hpick, heq⟩ := h
      cases heq
      obtain ⟨hget, hactive⟩ :=
        activeEntries_mem hreg (List.mem_of_mem_filter (pickSubstitute_mem hpick))
      refine ⟨hget, ?_⟩
      intro hidle
      simp [isActive, hidle, hreg.idle _ e hget hidle] at hactive
    · cases h

/-- **What a call can do to an entry.** An entry after a call is the one before
it, or a new one, under one of the eight effects. -/
theorem call_entry
    (h : (g.call c).entryAt key = some e') :
    ∃ e, Before c g key e ∧ Effect c g key e e' := by
  obtain ⟨s, now, op⟩ := c
  cases op with
  | resolveSourceUrl input => exact ⟨e', .inl h, .same e'⟩
  | canAttempt cameraId profile => exact ⟨e', .inl h, .same e'⟩
  | registerPublishedSource cameraId profile url =>
    rcases onEntry_entry h with hsame | ⟨-, -, e, hbefore, rfl⟩
    · exact ⟨e', .inl hsame, .same e'⟩
    · exact ⟨e, hbefore, .published e _⟩
  | acquire cameraId profile consumer =>
    simp only [Gateway.call, acquire] at h
    split at h
    · exact ⟨e', .inl h, .same e'⟩
    · next hon =>
      split at h
      · exact ⟨e', .inl h, .same e'⟩
      · next g' e hfound =>
        have hset : (g'.setEntry e.key (attach (g.leaseSeq + 1) consumer now e)).entryAt key =
          some e' := h
        rw [entryAt_setEntry] at hset
        split at hfound
        · -- an open entry takes the consumer
          next e₀ hsub =>
          cases hfound
          obtain ⟨hget, hnot⟩ := acquireSubstitute_spec hreg hsub
          split at hset
          · next heq =>
            cases hset
            exact ⟨e, .inl (heq ▸ hget), .attached e _ consumer (fun hidle => absurd hidle hnot)⟩
          · exact ⟨e', .inl hset, .same e'⟩
        · next hsub =>
          obtain ⟨hbefore, hothers⟩ := ensureEntry_spec hfound
          have hkey : e.key = (cameraId, normalizeSourceProfile profile) := by
            rcases hbefore with hget | ⟨-, rfl⟩
            · exact hreg.own _ e hget
            · rfl
          split at hset
          · next heq =>
            cases hset
            rw [← hkey, heq] at hbefore
            refine ⟨e, ?_, .attached e _ consumer
              (fun _ => ⟨cameraId, profile, rfl, by simpa using hon, hsub, ?_⟩)⟩
            · rcases hbefore with hget | ⟨hnone, hfresh⟩
              · exact .inl hget
              · exact .inr ⟨hnone, by rw [← heq, hkey]; exact hfresh⟩
            · rw [← heq, hkey]
          · next hne =>
            rcases hothers key e' hset with hsame | ⟨heq, -⟩
            · exact ⟨e', .inl hsame, .same e'⟩
            · exact absurd (hkey.trans heq.symm) hne
  | release id =>
    simp only [Gateway.call, release] at h
    split at h
    · exact ⟨e', .inl h, .same e'⟩
    · split at h
      · exact ⟨e', .inl h, .same e'⟩
      · next key₀ _ _ e hget =>
        have hset : (g.setEntry key₀ (detach id now e)).entryAt key = some e' := h
        rw [entryAt_setEntry] at hset
        split at hset
        · next heq =>
          cases hset
          exact ⟨e, .inl (heq ▸ hget), .detached e id⟩
        · exact ⟨e', .inl hset, .same e'⟩
  | noteConnecting cameraId profile =>
    rcases onEntry_entry h with hsame | ⟨hon, rfl, e, hbefore, rfl⟩
    · exact ⟨e', .inl hsame, .same e'⟩
    · exact ⟨e, hbefore, .connecting e (by simp [GatewayCall.attempts, hon])⟩
  | noteProgress cameraId profile info =>
    rcases onEntry_entry h with hsame | ⟨hon, rfl, e, hbefore, rfl⟩
    · exact ⟨e', .inl hsame, .same e'⟩
    · exact ⟨e, hbefore, .progressed e info (by simp [GatewayCall.attempts, hon])⟩
  | noteFailure cameraId profile random =>
    rcases onEntry_entry h with hsame | ⟨-, -, e, hbefore, rfl⟩
    · exact ⟨e', .inl hsame, .same e'⟩
    · exact ⟨e, hbefore, .failed e random⟩
  | tick =>
    have hentry : (tick s now g).entryAt key = some e' := h
    rw [tick_entryAt hreg.nodup] at hentry
    split at hentry
    · obtain ⟨e, hget, htick⟩ := Option.bind_eq_some_iff.mp hentry
      unfold tickEntry at htick
      split at htick
      · next hstalls =>
        cases htick
        have honline : e.state = .online := by
          simp only [stalls, Bool.and_eq_true, decide_eq_true_eq] at hstalls
          exact hstalls.1
        exact ⟨e, .inl hget, .stalled e honline⟩
      · split at htick
        · cases htick
        · cases htick
          exact ⟨e', .inl hget, .same e'⟩
    · exact ⟨e', .inl hentry, .same e'⟩

end Lookups

/-! ## The registry over runs -/

theorem failed_key (s : Settings) (now random : ℚ) (e : SourceEntry) :
    (failed s now random e).key = e.key := by
  simp only [failed]
  split <;> rfl

theorem failed_state (s : Settings) (now random : ℚ) (e : SourceEntry) :
    (failed s now random e).state = .circuitOpen ∨ (failed s now random e).state = .backoff := by
  simp only [failed]
  split
  · exact .inl rfl
  · exact .inr rfl

theorem Effect.key_eq {g : Gateway}
    (h : Effect c g key e e') : e'.key = e.key := by
  cases h with
  | failed random => exact failed_key c.settings c.now random e
  | _ => rfl

theorem Effect.idle_consumers {g : Gateway}
    (h : Effect c g key e e') (hi : e.state = .idle → e.consumers = []) :
    e'.state = .idle → e'.consumers = [] := by
  cases h with
  | same => exact hi
  | published => exact hi
  | attached =>
    intro h'
    simp only [attach] at h'
    split at h'
    · cases h'
    · next hne => exact absurd h' hne
  | detached =>
    -- only the last consumer's leaving makes an entry idle
    intro h'
    simp only [detach, List.length_eq_zero_iff] at h' ⊢
    split at h'
    · next hnone => exact hnone
    · next hsome => rw [hi h'] at hsome ⊢; rfl
  | connecting => intro h'; cases h'
  | progressed => intro h'; cases h'
  | failed random =>
    intro h'
    rcases failed_state c.settings c.now random e with hs | hs <;> rw [h'] at hs <;> cases hs
  | stalled => intro h'; cases h'

theorem setEntry_nodup {g : Gateway} (h : (JsMap.keys g.entries).Nodup) (key : SourceKey)
    (e : SourceEntry) : (JsMap.keys (g.setEntry key e).entries).Nodup :=
  JsMap.keys_nodup_set h key e

theorem ensureEntry_nodup {g g' : Gateway}
    (h : (JsMap.keys g.entries).Nodup)
    (hens : ensureEntry now cameraId profile g = some (g', e)) :
    (JsMap.keys g'.entries).Nodup := by
  unfold ensureEntry at hens
  split at hens
  · cases hens
    exact h
  · simp only at hens
    split at hens
    · cases hens
      exact setEntry_nodup h _ _
    · split at hens
      · cases hens
      · next oldest _ =>
        cases hens
        exact JsMap.keys_nodup_set (JsMap.keys_nodup_erase h oldest) _ _

theorem onEntry_nodup {g : Gateway} (h : (JsMap.keys g.entries).Nodup) (s : Settings) (now : ℚ)
    (cameraId : String) (profile : Option String) (change : SourceEntry → SourceEntry) :
    (JsMap.keys (onEntry s now cameraId profile change g).entries).Nodup := by
  unfold onEntry
  split
  · exact h
  · split
    · exact h
    · next hens => exact setEntry_nodup (ensureEntry_nodup h hens) _ _

theorem call_nodup {g : Gateway} (h : (JsMap.keys g.entries).Nodup) (c : GatewayCall) :
    (JsMap.keys (g.call c).entries).Nodup := by
  obtain ⟨s, now, op⟩ := c
  cases op with
  | resolveSourceUrl input => exact h
  | canAttempt cameraId profile => exact h
  | registerPublishedSource cameraId profile url => exact onEntry_nodup h ..
  | acquire cameraId profile consumer =>
    simp only [Gateway.call, acquire]
    split
    · exact h
    · split
      · exact h
      · next g' e hfound =>
        refine setEntry_nodup ?_ e.key (attach (g.leaseSeq + 1) consumer now e)
        split at hfound
        · cases hfound
          exact h
        · exact ensureEntry_nodup (g := { g with leaseSeq := g.leaseSeq + 1 }) h hfound
  | release id =>
    simp only [Gateway.call, release]
    split
    · exact h
    · split
      · exact h
      · exact JsMap.keys_nodup_set h _ _
  | noteConnecting cameraId profile => exact onEntry_nodup h ..
  | noteProgress cameraId profile info => exact onEntry_nodup h ..
  | noteFailure cameraId profile random => exact onEntry_nodup h ..
  | tick =>
    simp only [Gateway.call, tick]
    split
    · exact h
    · exact h.sublist (JsMap.keys_filterMap_sublist (tickEntry s now) g.entries)

theorem call_registered {g : Gateway} (h : g.Registered) (c : GatewayCall) :
    (g.call c).Registered where
  nodup := call_nodup h.nodup c
  own := by
    intro key e' hget
    obtain ⟨e, hbefore, heffect⟩ := call_entry h hget
    rw [heffect.key_eq]
    rcases hbefore with hget | ⟨-, rfl⟩
    · exact h.own key e hget
    · rfl
  idle := by
    intro key e' hget
    obtain ⟨e, hbefore, heffect⟩ := call_entry h hget
    refine heffect.idle_consumers ?_
    rcases hbefore with hget | ⟨-, rfl⟩
    · exact h.idle key e hget
    · exact fun _ => rfl

variable {r : GatewayRun}

theorem run_registered {G : GatewayRun → GatewayCall → Prop}
    (h : Reach gatewayMachine G r) : r.gateway.Registered := by
  refine h.invariant (I := fun r => r.gateway.Registered) ?_ ?_
  · rintro r ⟨hg, -⟩
    rw [hg]
    exact ⟨by simp [JsMap.keys], by simp [Gateway.entryAt, JsMap.get?],
      by simp [Gateway.entryAt, JsMap.get?]⟩
  · intro r c r' hr _ hs
    simp only [gatewayMachine] at hs
    split at hs
    · cases hs
      exact call_registered hr c
    · cases hs

/-! ## Entries that await an attempt -/

/-- An acquire that takes an idle entry up again though its circuit opened and no
attempt was noted since. -/
def acquiresUnattempted (r : GatewayRun) (c : GatewayCall) : Bool :=
  match c.op with
  | .acquire cameraId profile _ =>
    let key := (cameraId, normalizeSourceProfile profile)
    c.settings.isEnabled &&
      (acquireSubstitute c.settings cameraId (normalizeSourceProfile profile) r.gateway).isNone &&
      r.unattempted.contains key && (r.gateway.entryAt key).any (fun e => e.state = .idle)
  | _ => false

/-- A resolve for which an entry stands whose label is still that of the open
circuit, at an instant its cooldown is over and with a URL to serve. -/
def resolvesOpenedCircuit (r : GatewayRun) (c : GatewayCall) : Bool :=
  match c.op with
  | .resolveSourceUrl input =>
    (sourceFor c.settings input r.gateway).any (fun found =>
      found.1.state = .circuitOpen && !found.1.cooling c.now &&
        (publishedUrlFor input found.1).isSome)
  | _ => false

/-- No acquire takes up an entry that awaits an attempt. -/
def AttemptsNoted (r : GatewayRun) (c : GatewayCall) : Prop := acquiresUnattempted r c = false

/-- An entry that awaits an attempt is there, and neither connecting nor online. -/
def GatewayRun.Awaiting (r : GatewayRun) : Prop :=
  ∀ key ∈ r.unattempted, ∃ e, r.gateway.entryAt key = some e ∧
    (e.state = .idle ∨ e.state = .backoff ∨ e.state = .circuitOpen)

theorem opens_failed {g : Gateway}
    (h : c.opens g = some key) : c.settings.isEnabled = true ∧ ∃ e random,
      c.settings.threshold ≤ e.consecutiveFailures + 1 ∧
        (g.call c).entryAt key = some (failed c.settings c.now random e) := by
  obtain ⟨s, now, op⟩ := c
  cases op with
  | noteFailure cameraId profile random =>
    simp only [GatewayCall.opens] at h
    split at h
    · next hopens =>
      cases h
      simp only [opensCircuit, Bool.and_eq_true] at hopens
      obtain ⟨hon, hany⟩ := hopens
      cases hens : ensureEntry now cameraId (normalizeSourceProfile profile) g with
      | none => simp [hens] at hany
      | some found =>
        obtain ⟨g', e⟩ := found
        simp only [hens, Option.any_some, decide_eq_true_eq] at hany
        have hentry : (onEntry s now cameraId profile (failed s now random) g).entryAt
            (cameraId, normalizeSourceProfile profile) = some (failed s now random e) := by
          simp [onEntry, hon, hens]
        exact ⟨hon, e, random, hany, hentry⟩
    · cases h
  | _ => simp [GatewayCall.opens] at h

theorem opens_entry {g : Gateway}
    (h : c.opens g = some key) :
    ∃ e, (g.call c).entryAt key = some e ∧ e.state = .circuitOpen := by
  obtain ⟨-, e, random, hthreshold, hget⟩ := opens_failed h
  exact ⟨_, hget, by simp [failed, hthreshold]⟩

theorem awaiting_step {r r' : GatewayRun} (hreg : r.gateway.Registered)
    (h : r.Awaiting) (hguard : AttemptsNoted r c) (hs : gatewayMachine.step r c = some r') :
    r'.Awaiting := by
  simp only [gatewayMachine] at hs
  split at hs
  · cases hs
    intro key hkey
    simp only [unattemptedAfter, List.mem_filter, List.mem_append, Option.mem_toList] at hkey
    obtain ⟨hkey, hthere⟩ := hkey
    obtain ⟨e', he'⟩ := Option.isSome_iff_exists.mp hthere
    refine ⟨e', he', ?_⟩
    rcases hkey with hopen | ⟨hold, hnot⟩
    · obtain ⟨e, he, hstate⟩ := opens_entry hopen
      obtain rfl : e = e' := Option.some.inj (he.symm.trans he')
      exact .inr (.inr hstate)
    · obtain ⟨e₀, he₀, hlabel⟩ := h key hold
      obtain ⟨e, hbefore, heffect⟩ := call_entry hreg he'
      have heq : e = e₀ := by
        rcases hbefore with he | ⟨hnone, -⟩
        · exact Option.some.inj (he.symm.trans he₀)
        · rw [hnone] at he₀
          cases he₀
      subst heq
      cases heffect with
      | same => exact hlabel
      | published => exact hlabel
      | attached id consumer hidle =>
        simp only [attach]
        split
        · next his =>
          -- the guard rules this acquire out
          obtain ⟨cameraId, profile, hop, hon, hsub, rfl⟩ := hidle his
          simp [AttemptsNoted, acquiresUnattempted, hop, hon, hsub, hold, he₀, his] at hguard
        · exact hlabel
      | detached =>
        simp only [detach]
        split
        · split
          · exact .inr (.inr rfl)
          · exact .inl rfl
        · exact hlabel
      | connecting hattempt => simp [hattempt] at hnot
      | progressed info hattempt => simp [hattempt] at hnot
      | failed random =>
        rcases failed_state c.settings c.now random e with hs | hs
        · exact .inr (.inr hs)
        · exact .inr (.inl hs)
      | stalled honline => simp [honline] at hlabel
  · cases hs

theorem run_awaiting (h : Reach gatewayMachine AttemptsNoted r) :
    r.Awaiting := by
  have hboth := h.invariant (I := fun r => r.gateway.Registered ∧ r.Awaiting) ?_ ?_
  · exact hboth.2
  · rintro r ⟨hg, hu⟩
    refine ⟨run_registered (G := AttemptsNoted) ⟨r, ⟨hg, hu⟩, .refl r⟩, ?_⟩
    simp [GatewayRun.Awaiting, hu]
  · intro r c r' ⟨hreg, haw⟩ hguard hs
    refine ⟨?_, awaiting_step hreg haw hguard hs⟩
    simp only [gatewayMachine] at hs
    split at hs
    · cases hs
      exact call_registered hreg c
    · cases hs

/-! ## What is served through the gateway -/

/-- The decision serves an entry of the camera that is connecting or online, at a
URL it is published at. -/
def ServesPublished (input : ResolveSourceInput) (g : Gateway) (d : SourceDecision) : Prop :=
  ∃ e, g.entryAt (input.cameraId, d.servedProfile) = some e ∧
    (e.state = .connecting ∨ e.state = .online) ∧ publishedUrlFor input e = some d.url

theorem resolve_gateway {input : ResolveSourceInput} {g : Gateway}
    (h : (resolveSourceUrl s now input g).origin = .gateway) :
    ∃ e reason, sourceFor s input g = some (e, reason) ∧ e.cooling now = false ∧
      e.state ≠ .stalled ∧ e.state ≠ .backoff ∧
      (resolveSourceUrl s now input g).servedProfile = e.profile ∧
      publishedUrlFor input e = some (resolveSourceUrl s now input g).url := by
  unfold resolveSourceUrl at h ⊢
  simp only at h ⊢
  split at h
  · cases h
  · next hon =>
    split at h
    · cases h
    · next hdirect =>
      split at h
      · cases h
      · next e reason hsource =>
        split at h
        · cases h
        · next hcool =>
          split at h
          · cases h
          · next hlabel =>
            split at h
            · cases h
            · next published hpub =>
              rw [not_or] at hlabel
              refine ⟨e, reason, hsource, by simpa using hcool, hlabel.1, hlabel.2, ?_, ?_⟩
              · simp [hon, hdirect, hcool, hlabel]
              · simpa [hon, hdirect, hcool, hlabel] using hpub

/-- **The gateway URL is handed out only while published.** A resolve that finds no
entry still labelled with an open circuit that has cooled down serves, through the
gateway, only an entry connecting or online at a URL it is published at; and in
runs whose acquires take up no entry that awaits an attempt, never one whose
circuit opened with no attempt noted since. -/
theorem gateway_served_published {r : GatewayRun} {c : GatewayCall} {input : ResolveSourceInput}
    (hop : c.op = .resolveSourceUrl input) (hguard : resolvesOpenedCircuit r c = false)
    (hgateway : (resolveSourceUrl c.settings c.now input r.gateway).origin = .gateway) :
    (Reach gatewayMachine Always r →
      ServesPublished input r.gateway (resolveSourceUrl c.settings c.now input r.gateway)) ∧
    (Reach gatewayMachine AttemptsNoted r →
      (input.cameraId, (resolveSourceUrl c.settings c.now input r.gateway).servedProfile) ∉
        r.unattempted) := by
  obtain ⟨e, reason, hsource, hcool, hstalled, hbackoff, hserved, hurl⟩ := resolve_gateway hgateway
  have hopen : e.state ≠ .circuitOpen := by
    intro hopen
    simp [resolvesOpenedCircuit, hop, hsource, hopen, hcool, hurl] at hguard
  constructor
  · intro hreach
    obtain ⟨hget, hidle⟩ := sourceFor_spec (run_registered hreach) hsource
    refine ⟨e, hserved ▸ hget, ?_, hurl⟩
    cases hs : e.state with
    | connecting => exact .inl rfl
    | online => exact .inr rfl
    | idle => exact absurd hs hidle
    | stalled => exact absurd hs hstalled
    | backoff => exact absurd hs hbackoff
    | circuitOpen => exact absurd hs hopen
  · intro hreach hmem
    obtain ⟨hget, hidle⟩ := sourceFor_spec (run_registered hreach) hsource
    obtain ⟨e', hget', hlabel⟩ := run_awaiting hreach _ hmem
    rw [hserved, hget, Option.some.injEq] at hget'
    subst hget'
    rcases hlabel with hs | hs | hs
    · exact hidle hs
    · exact hbackoff hs
    · exact hopen hs

def calls (ops : List (ℚ × GatewayOp)) : List GatewayCall :=
  ops.map (fun op => ⟨{ enabled := some "true" }, op.1, op.2⟩)

def askMain : ResolveSourceInput :=
  { cameraId := "cam", profile := some "main", consumer := "ai", directUrl := "rtsp://camera" }

def openingCalls : List GatewayCall :=
  calls ([(0, GatewayOp.registerPublishedSource "cam" (some "main") (some "rtsp://gateway"))] ++
    List.replicate 5 (0, GatewayOp.noteFailure "cam" (some "main") (1 / 2)))

/-- The circuit cools down, an attempt is noted, a recording joins and a packet
arrives. -/
def recoveringCalls : List GatewayCall :=
  openingCalls ++ calls
    [(60000, .noteConnecting "cam" (some "main")),
      (60001, .acquire "cam" (some "main") "recording"),
      (60002, .noteProgress "cam" (some "main") {})]

def startRun : GatewayRun := ⟨{}, 0, []⟩

theorem gateway_served_recovered : ∃ r,
    gatewayMachine.run (fun r c => !acquiresUnattempted r c) startRun recoveringCalls = some r ∧
      ServesPublished askMain r.gateway
        (resolveSourceUrl { enabled := some "true" } 60003 askMain r.gateway) ∧
      (askMain.cameraId, (resolveSourceUrl { enabled := some "true" } 60003 askMain
        r.gateway).servedProfile) ∉ r.unattempted := by
  set r := (gatewayMachine.run (fun r c => !acquiresUnattempted r c) startRun
    recoveringCalls).getD startRun with hr
  have hrun : gatewayMachine.run (fun r c => !acquiresUnattempted r c) startRun recoveringCalls =
      some r := by decide +kernel
  have hreach : Reach gatewayMachine AttemptsNoted r :=
    ⟨startRun, ⟨rfl, rfl⟩, path_of_run (fun _ _ h => by simpa [AttemptsNoted] using h) _ hrun⟩
  have hserved := gateway_served_published (r := r)
    (c := ⟨{ enabled := some "true" }, 60003, .resolveSourceUrl askMain⟩) rfl
    (by decide +kernel) (by decide +kernel)
  exact ⟨r, hrun, hserved.1 (hreach.mono (fun _ _ _ => trivial)), hserved.2 hreach⟩

/-- Asked for when its circuit has cooled down, before anything was tried, a source
is served through the gateway. -/
theorem gateway_serves_cooled_circuit :
    ¬ ∀ (r : GatewayRun) (c : GatewayCall) (input : ResolveSourceInput),
      Reach gatewayMachine Always r → r.now ≤ c.now → c.op = .resolveSourceUrl input →
      (resolveSourceUrl c.settings c.now input r.gateway).origin = .gateway →
      ServesPublished input r.gateway (resolveSourceUrl c.settings c.now input r.gateway) ∧
        (input.cameraId, (resolveSourceUrl c.settings c.now input r.gateway).servedProfile) ∉
          r.unattempted := by
  intro hclaim
  set r := (gatewayMachine.run anyStep startRun openingCalls).getD startRun with hr
  have hrun : gatewayMachine.run anyStep startRun openingCalls = some r := by rfl
  have hreach : Reach gatewayMachine Always r :=
    ⟨startRun, ⟨rfl, rfl⟩, path_of_run (fun _ _ _ => trivial) _ hrun⟩
  have hserved := hclaim r ⟨{ enabled := some "true" }, 60000, .resolveSourceUrl askMain⟩
    askMain hreach (by decide +kernel) rfl (by decide +kernel)
  exact hserved.2 (by decide +kernel)

end Drac.CameraStream
