import Drac.CameraStream.GatewayEvictions

/-
  Reference counting of the gateway.

  Two indexes say who consumes what: the leases, by their id, and the consumers of each entry.
  They are written by separate operations, and entries leave the registry by timers and by
  eviction. Beside the gateway a run carries two histories: the leases released, and the
  episodes an entry was degraded for, each with the recoveries counted for it.
-/

namespace Drac.CameraStream

open Runs

/-! ## The two indexes -/

def Gateway.lists (g : Gateway) (key : SourceKey) (id : LeaseId) : Bool :=
  (g.entryAt key).any (fun e => (JsMap.get? e.consumers id).isSome)

/-- The leases and the consumers agree, and no id was issued that is still to come. -/
structure Gateway.Counted (g : Gateway) : Prop where
  registered : g.Registered
  issued : ∀ id key, g.lists key id = true → id ≤ g.leaseSeq
  agree : ∀ id key, JsMap.get? g.leases id = some key ↔ g.lists key id = true

variable {now : ℚ} {cameraId : String} {profile : SourceProfile} {s : Settings}

section Lists

variable {g g' : Gateway} {e : SourceEntry}

theorem lists_setEntry (g : Gateway) (key : SourceKey) (e : SourceEntry) (key' : SourceKey)
    (id : LeaseId) : (g.setEntry key e).lists key' id =
      if key = key' then (JsMap.get? e.consumers id).isSome else g.lists key' id := by
  rw [Gateway.lists, entryAt_setEntry]
  split
  · rfl
  · rfl

theorem lists_eq {key : SourceKey} (hget : g.entryAt key = some e) (id : LeaseId) :
    g.lists key id = (JsMap.get? e.consumers id).isSome := by
  simp [Gateway.lists, hget]

theorem lists_evictedFor {key key' : SourceKey} (hreg : g.Registered)
    (h : evictedFor g key = some key') (id : LeaseId) : g.lists key' id = false := by
  unfold evictedFor at h
  split at h
  · cases h
  · obtain ⟨e, hmem, hidle⟩ := oldestIdle_spec h
    rw [lists_eq (JsMap.mem_get? hreg.nodup hmem), hidle]
    rfl

theorem ensureEntry_frame
    (h : ensureEntry now cameraId profile g = some (g', e)) :
    g'.leases = g.leases ∧ g'.leaseSeq = g.leaseSeq ∧ g'.counters = g.counters := by
  unfold ensureEntry at h
  split at h
  · cases h
    exact ⟨rfl, rfl, rfl⟩
  · simp only at h
    split at h
    · cases h
      exact ⟨rfl, rfl, rfl⟩
    · split at h
      · cases h
      · cases h
        exact ⟨rfl, rfl, rfl⟩

theorem ensureEntry_lists
    (hreg : g.Registered) (h : ensureEntry now cameraId profile g = some (g', e))
    (key : SourceKey) (id : LeaseId) : g'.lists key id = g.lists key id := by
  have hentry := ensureEntry_entryAt h key
  by_cases hkey : key = (cameraId, profile)
  · subst hkey
    rw [if_pos rfl] at hentry
    rw [lists_eq hentry]
    rcases (ensureEntry_spec h).1 with hget | ⟨hnone, rfl⟩
    · rw [lists_eq hget]
    · -- a new entry lists nobody
      simp [Gateway.lists, hnone, newEntry, JsMap.get?]
  · rw [if_neg hkey] at hentry
    split at hentry
    · next hevicted =>
      rw [lists_evictedFor hreg hevicted, Gateway.lists, hentry]
      rfl
    · rw [Gateway.lists, hentry, Gateway.lists]

theorem onEntry_frame (s : Settings) (now : ℚ) (cameraId : String) (profile : Option String)
    (change : SourceEntry → SourceEntry) (g : Gateway) :
    (onEntry s now cameraId profile change g).leases = g.leases ∧
      (onEntry s now cameraId profile change g).leaseSeq = g.leaseSeq ∧
      (onEntry s now cameraId profile change g).counters = g.counters := by
  unfold onEntry
  split
  · exact ⟨rfl, rfl, rfl⟩
  · split
    · exact ⟨rfl, rfl, rfl⟩
    · next hens =>
      have hframe := ensureEntry_frame hens
      exact hframe

theorem onEntry_lists {profile : Option String}
    {change : SourceEntry → SourceEntry} (hreg : g.Registered)
    (hchange : ∀ e, (change e).consumers = e.consumers) (key : SourceKey) (id : LeaseId) :
    (onEntry s now cameraId profile change g).lists key id = g.lists key id := by
  unfold onEntry
  split
  · rfl
  · split
    · rfl
    · next g' e hens =>
      have hsame := ensureEntry_lists hreg hens key id
      rw [lists_setEntry, hchange]
      split
      · next heq =>
        have hget := ensureEntry_entryAt hens key
        rw [if_pos heq.symm] at hget
        rw [← hsame, lists_eq hget]
      · exact hsame

theorem tickEntry_consumers (s : Settings) (now : ℚ) (e : SourceEntry) :
    (tickEntry s now e = none ∧ e.consumers = []) ∨
      ∃ e', tickEntry s now e = some e' ∧ e'.consumers = e.consumers := by
  unfold tickEntry
  split
  · exact .inr ⟨_, rfl, rfl⟩
  · split
    · next hidle => exact .inl ⟨rfl, List.length_eq_zero_iff.mp hidle.1⟩
    · exact .inr ⟨_, rfl, rfl⟩

theorem failed_consumers (s : Settings) (now random : ℚ) (e : SourceEntry) :
    (failed s now random e).consumers = e.consumers := by
  simp only [failed]
  split <;> rfl

theorem tick_lists (hreg : g.Registered) (s : Settings) (now : ℚ) (key : SourceKey)
    (id : LeaseId) : (tick s now g).lists key id = g.lists key id := by
  rw [Gateway.lists, tick_entryAt hreg.nodup]
  split
  · cases hget : g.entryAt key with
    | none => simp [Gateway.lists, hget]
    | some e =>
      rw [lists_eq hget]
      rcases tickEntry_consumers s now e with ⟨hnone, hidle⟩ | ⟨e', hsome, hsame⟩
      · simp [hnone, hidle, JsMap.get?]
      · simp [hsome, hsame]
  · rfl

end Lists

/-! ## What a call makes of the indexes -/

/-- The entry an acquire is put on is found, or made, with neither index changed. -/
theorem found_same {g g' : Gateway} {substitute : Option SourceEntry}
    {e : SourceEntry}
    (h : (match substitute with
      | some e => some (g, e)
      | none => ensureEntry now cameraId profile g) = some (g', e)) :
    g'.leases = g.leases ∧ g'.leaseSeq = g.leaseSeq ∧ g'.counters = g.counters := by
  split at h
  · cases h
    exact ⟨rfl, rfl, rfl⟩
  · exact ensureEntry_frame h

section Calls

variable {g : Gateway} (h : g.Counted)
include h

theorem counted_same {g' : Gateway} (hreg : g'.Registered) (hseq : g'.leaseSeq = g.leaseSeq)
    (hleases : g'.leases = g.leases) (hlists : ∀ key id, g'.lists key id = g.lists key id) :
    g'.Counted where
  registered := hreg
  issued id key hid := by
    rw [hseq]
    exact h.issued id key (hlists key id ▸ hid)
  agree id key := by
    rw [hleases, hlists]
    exact h.agree id key

theorem onEntry_counted {profile : Option String}
    {change : SourceEntry → SourceEntry} (hchange : ∀ e, (change e).consumers = e.consumers)
    (hreg : (onEntry s now cameraId profile change g).Registered) :
    (onEntry s now cameraId profile change g).Counted :=
  counted_same h hreg (onEntry_frame ..).2.1 (onEntry_frame ..).1
    (onEntry_lists h.registered hchange)

theorem found_lists
    {g' : Gateway} {e : SourceEntry}
    (hfound : (match acquireSubstitute s cameraId profile g with
      | some e => some (g, e)
      | none => ensureEntry now cameraId profile g) = some (g', e)) :
    (∀ key id, g'.lists key id = g.lists key id) ∧
      ∀ id, g.lists e.key id = (JsMap.get? e.consumers id).isSome := by
  split at hfound
  · next hsub =>
    cases hfound
    exact ⟨fun _ _ => rfl, lists_eq (acquireSubstitute_spec h.registered hsub).1⟩
  · have hlists := ensureEntry_lists h.registered hfound
    refine ⟨hlists, fun id => ?_⟩
    have hget := ensureEntry_entryAt hfound (cameraId, profile)
    rw [if_pos rfl] at hget
    have hkey : e.key = (cameraId, profile) := by
      rcases (ensureEntry_spec hfound).1 with hsame | ⟨-, rfl⟩
      · exact h.registered.own _ e hsame
      · rfl
    rw [hkey, ← hlists, lists_eq hget]

theorem acquire_counted (s : Settings) (now : ℚ) (cameraId : String) (profile : Option String)
    (consumer : String) (hreg : (acquire s now cameraId profile consumer g).1.Registered) :
    (acquire s now cameraId profile consumer g).1.Counted := by
  have hinert : Gateway.Counted { g with leaseSeq := g.leaseSeq + 1 } :=
    ⟨⟨h.registered.nodup, h.registered.own, h.registered.idle⟩,
      fun id key hid => Nat.le_succ_of_le (h.issued id key hid), h.agree⟩
  unfold acquire at hreg ⊢
  simp only at hreg ⊢
  split
  · exact hinert
  · next hon =>
    rw [if_neg hon] at hreg
    split
    · exact hinert
    · next g' e hfound =>
      rw [hfound] at hreg
      obtain ⟨hleases, hseq, -⟩ := found_same hfound
      obtain ⟨hlists, hown⟩ := found_lists hinert hfound
      -- the id is a new one, so no entry lists it yet
      have hnew : ∀ key, g.lists key (g.leaseSeq + 1) = false := by
        intro key
        cases hid : g.lists key (g.leaseSeq + 1) with
        | false => rfl
        | true => exact absurd (h.issued _ key hid) (Nat.not_succ_le_self _)
      have hafter : ∀ key id,
          (g'.setEntry e.key (attach (g.leaseSeq + 1) consumer now e)).lists key id =
            if id = g.leaseSeq + 1 then decide (key = e.key) else g.lists key id := by
        intro key id
        have hsame : g'.lists key id = g.lists key id := hlists key id
        have hown' : g.lists e.key id = (JsMap.get? e.consumers id).isSome := hown id
        have hconsumers : JsMap.get? (attach (g.leaseSeq + 1) consumer now e).consumers id =
            if g.leaseSeq + 1 = id then some consumer else JsMap.get? e.consumers id :=
          JsMap.get?_set _ _ _ _
        rw [lists_setEntry, hconsumers, hsame]
        grind
      refine ⟨hreg, ?_, ?_⟩
      · intro id key hid
        have hid' := (hafter key id).symm.trans hid
        show id ≤ g'.leaseSeq
        rw [hseq]
        split at hid'
        · next heq => exact heq.le
        · exact Nat.le_succ_of_le (h.issued id key hid')
      · intro id key
        have hset : JsMap.get? (JsMap.set g'.leases (g.leaseSeq + 1) e.key) id =
            if g.leaseSeq + 1 = id then some e.key else JsMap.get? g.leases id := by
          rw [JsMap.get?_set, hleases]
        have hlast := hafter key id
        have hagree := h.agree id key
        show JsMap.get? (JsMap.set g'.leases (g.leaseSeq + 1) e.key) id = some key ↔
          (g'.setEntry e.key (attach (g.leaseSeq + 1) consumer now e)).lists key id = true
        rw [hset, hlast]
        grind

theorem release_counted (now : ℚ) (id : LeaseId) (hreg : (release now id g).Registered) :
    (release now id g).Counted := by
  unfold release at hreg ⊢
  split
  · exact h
  · next key hlease =>
    rw [hlease] at hreg
    obtain ⟨e, hget, -⟩ := (Option.any_eq_true _ _).mp ((h.agree id key).mp hlease)
    have hget' : Gateway.entryAt { g with leases := JsMap.erase g.leases id } key = some e := hget
    simp only [hget'] at hreg ⊢
    have hafter : ∀ key' id', (g.setEntry key (detach id now e)).lists key' id' =
        (decide (id' ≠ id) && g.lists key' id') := by
      intro key' id'
      have hconsumers : JsMap.get? (detach id now e).consumers id' =
          if id = id' then none else JsMap.get? e.consumers id' := JsMap.get?_erase _ _ _
      have hold := lists_eq hget id'
      have hunique : g.lists key' id = true → key' = key := by
        intro hlists
        have hlease' := (h.agree id key').mpr hlists
        exact Option.some_inj.mp (hlease'.symm.trans hlease)
      rw [lists_setEntry, hconsumers]
      grind
    refine ⟨hreg, ?_, ?_⟩
    · intro id' key' hid
      have hid' := (hafter key' id').symm.trans hid
      simp only [Bool.and_eq_true] at hid'
      exact h.issued id' key' hid'.2
    · intro id' key'
      have herase := JsMap.get?_erase g.leases id id'
      have hlast := hafter key' id'
      have hagree := h.agree id' key'
      show JsMap.get? (JsMap.erase g.leases id) id' = some key' ↔
        (g.setEntry key (detach id now e)).lists key' id' = true
      rw [herase, hlast]
      grind

theorem call_counted (c : GatewayCall) : (g.call c).Counted := by
  have hreg := call_registered h.registered c
  obtain ⟨s, now, op⟩ := c
  cases op with
  | resolveSourceUrl input => exact h
  | canAttempt cameraId profile => exact h
  | registerPublishedSource cameraId profile url => exact onEntry_counted h (fun _ => rfl) hreg
  | acquire cameraId profile consumer => exact acquire_counted h _ _ _ _ _ hreg
  | release id => exact release_counted h _ _ hreg
  | noteConnecting cameraId profile => exact onEntry_counted h (fun _ => rfl) hreg
  | noteProgress cameraId profile info =>
    exact counted_same h hreg (onEntry_frame ..).2.1 (onEntry_frame ..).1
      (onEntry_lists h.registered (fun _ => rfl))
  | noteFailure cameraId profile random =>
    exact counted_same h hreg (onEntry_frame ..).2.1 (onEntry_frame ..).1
      (onEntry_lists h.registered (failed_consumers s now random))
  | tick =>
    refine counted_same h hreg ?_ ?_ (tick_lists h.registered s now)
    · simp only [Gateway.call, tick]
      split <;> rfl
    · simp only [Gateway.call, tick]
      split <;> rfl

end Calls

variable {c : GatewayCall}

theorem call_leases {g : Gateway} {id : LeaseId} {key : SourceKey}
    (h : JsMap.get? (g.call c).leases id = some key) :
    JsMap.get? g.leases id = some key ∨ id = g.leaseSeq + 1 := by
  obtain ⟨s, now, op⟩ := c
  cases op with
  | resolveSourceUrl input => exact .inl h
  | canAttempt cameraId profile => exact .inl h
  | acquire cameraId profile consumer =>
    simp only [Gateway.call, acquire] at h
    split at h
    · exact .inl h
    · split at h
      · exact .inl h
      · next g' e hfound =>
        have hleases : g'.leases = g.leases := (found_same hfound).1
        have hset : JsMap.get? (JsMap.set g'.leases (g.leaseSeq + 1) e.key) id = some key := h
        rw [JsMap.get?_set, hleases] at hset
        split at hset
        · next heq => exact .inr heq.symm
        · exact .inl hset
  | release id' =>
    left
    simp only [Gateway.call, release] at h
    split at h
    · exact h
    · split at h
      · exact JsMap.get?_of_erase h
      · exact JsMap.get?_of_erase h
  | tick =>
    left
    simp only [Gateway.call, tick] at h
    split at h
    · exact h
    · exact h
  | registerPublishedSource cameraId profile url => exact .inl ((onEntry_frame ..).1 ▸ h)
  | noteConnecting cameraId profile => exact .inl ((onEntry_frame ..).1 ▸ h)
  | noteProgress cameraId profile info => exact .inl ((onEntry_frame ..).1 ▸ h)
  | noteFailure cameraId profile random => exact .inl ((onEntry_frame ..).1 ▸ h)

theorem call_leaseSeq (g : Gateway) (c : GatewayCall) : g.leaseSeq ≤ (g.call c).leaseSeq := by
  obtain ⟨s, now, op⟩ := c
  cases op with
  | resolveSourceUrl input => exact le_refl _
  | canAttempt cameraId profile => exact le_refl _
  | acquire cameraId profile consumer =>
    simp only [Gateway.call, acquire]
    split
    · exact Nat.le_succ _
    · split
      · exact Nat.le_succ _
      · next g' e hfound =>
        have hseq : g'.leaseSeq = g.leaseSeq + 1 := (found_same hfound).2.1
        show g.leaseSeq ≤ g'.leaseSeq
        omega
  | release id =>
    simp only [Gateway.call, release]
    split
    · exact le_refl _
    · split <;> exact le_refl _
  | tick =>
    simp only [Gateway.call, tick]
    split <;> exact le_refl _
  | registerPublishedSource cameraId profile url => exact (onEntry_frame ..).2.1.ge
  | noteConnecting cameraId profile => exact (onEntry_frame ..).2.1.ge
  | noteProgress cameraId profile info => exact (onEntry_frame ..).2.1.ge
  | noteFailure cameraId profile random => exact (onEntry_frame ..).2.1.ge

theorem release_of_notIndexed {g : Gateway} {id : LeaseId} (h : JsMap.get? g.leases id = none)
    (now : ℚ) : release now id g = g := by
  rw [release, h]

theorem release_notIndexed (now : ℚ) (id : LeaseId) (g : Gateway) :
    JsMap.get? (release now id g).leases id = none := by
  simp only [release]
  split
  · next hnone => exact hnone
  · have herase : JsMap.get? (JsMap.erase g.leases id) id = none := by
      rw [JsMap.get?_erase, if_pos rfl]
    split
    · exact herase
    · exact herase

/-! ## Episodes -/

/-- An entry found degraded, and the recoveries counted for it. -/
structure Episode where
  key : SourceKey
  recoveries : Nat := 0
  deriving DecidableEq

/-- The recovery is counted for the latest episode of the key. -/
def recover (key : SourceKey) : List Episode → List Episode
  | [] => []
  | episode :: older =>
    if episode.key = key then { episode with recoveries := episode.recoveries + 1 } :: older
    else episode :: recover key older

def GatewayCall.recovers (c : GatewayCall) (g : Gateway) : Option SourceKey :=
  match c.op with
  | .noteProgress cameraId profile _ =>
    if degradedAt c.settings cameraId profile g then
      some (cameraId, normalizeSourceProfile profile)
    else none
  | _ => none

/-- The keys whose entry a call leaves degraded, and found otherwise. -/
def GatewayCall.degrades (c : GatewayCall) (g : Gateway) : List SourceKey :=
  ((g.call c).entries.filter
    (fun entry => entry.2.degraded && !(g.entryAt entry.1).any (·.degraded))).map Prod.fst

def episodesAfter (c : GatewayCall) (g : Gateway) (episodes : List Episode) : List Episode :=
  (c.degrades g).map (fun key => { key := key }) ++
    (match c.recovers g with
      | none => episodes
      | some key => recover key episodes)

/-- The episode of a degraded entry is the latest of its key, with no recovery counted yet. -/
def OpenEpisodes (g : Gateway) (episodes : List Episode) : Prop :=
  ∀ key e, g.entryAt key = some e → e.degraded = true →
    episodes.find? (fun episode => episode.key = key) = some { key := key }

theorem call_recoveries (g : Gateway) (c : GatewayCall) : (g.call c).counters.recoveries =
    g.counters.recoveries + if (c.recovers g).isSome then 1 else 0 := by
  obtain ⟨s, now, op⟩ := c
  cases op with
  | acquire cameraId profile consumer =>
    simp only [Gateway.call, acquire]
    split
    · rfl
    · split
      · rfl
      · next g' e hfound =>
        have hcounters : g'.counters = g.counters := (found_same hfound).2.2
        show g'.counters.recoveries = _
        rw [hcounters]
        rfl
  | release id =>
    simp only [Gateway.call, release]
    split
    · rfl
    · split <;> rfl
  | tick =>
    simp only [Gateway.call, tick]
    split <;> rfl
  | noteProgress cameraId profile info =>
    have hcounters := (onEntry_frame s now cameraId profile (progressed info now) g).2.2
    simp only [Gateway.call, noteProgress, hcounters, GatewayCall.recovers]
    split <;> rfl
  | registerPublishedSource cameraId profile url =>
    exact congrArg GatewayCounters.recoveries (onEntry_frame ..).2.2
  | noteConnecting cameraId profile =>
    exact congrArg GatewayCounters.recoveries (onEntry_frame ..).2.2
  | noteFailure cameraId profile random =>
    have hcounters := (onEntry_frame s now cameraId profile (failed s now random) g).2.2
    simp only [Gateway.call, noteFailure, hcounters, GatewayCall.recovers]
    rfl
  | _ => rfl

theorem recovers_spec {g : Gateway} {key : SourceKey}
    (h : c.recovers g = some key) : (∃ e, g.entryAt key = some e ∧ e.degraded = true) ∧
      ∃ e', (g.call c).entryAt key = some e' ∧ e'.degraded = false := by
  obtain ⟨s, now, op⟩ := c
  cases op with
  | noteProgress cameraId profile info =>
    simp only [GatewayCall.recovers] at h
    split at h
    · next hdegraded =>
      cases h
      simp only [degradedAt, Bool.and_eq_true] at hdegraded
      obtain ⟨hon, hany⟩ := hdegraded
      obtain ⟨e, hget, hdegraded⟩ := (Option.any_eq_true _ _).mp hany
      refine ⟨⟨e, hget, hdegraded⟩, progressed info now e, ?_, rfl⟩
      have hens : ensureEntry now cameraId (normalizeSourceProfile profile) g = some (g, e) := by
        rw [ensureEntry, hget]
      exact (onEntry_entryAt hon hens _).trans (if_pos rfl)
    · cases h
  | _ => cases h

section Episodes

variable {key key' : SourceKey} {episodes : List Episode}

theorem find?_recover_of_ne (h : key ≠ key') :
    (recover key' episodes).find? (fun episode => episode.key = key) =
      episodes.find? (fun episode => episode.key = key) := by
  induction episodes with
  | nil => rfl
  | cons episode older ih =>
    unfold recover
    split
    · next heq =>
      have hne : ¬ episode.key = key := fun hsame => h (hsame.symm.trans heq)
      simp [hne]
    · simp only [List.find?_cons, ih]

theorem find?_begun {keys : List SourceKey} (h : key ∈ keys) :
    (keys.map (fun key => ({ key := key } : Episode))).find? (fun episode => episode.key = key) =
      some { key := key } := by
  induction keys with
  | nil => cases h
  | cons first rest ih =>
    rw [List.map_cons, List.find?_cons]
    by_cases heq : first = key
    · simp [heq]
    · simpa [heq] using ih ((List.mem_cons.mp h).resolve_left (Ne.symm heq))

theorem recover_spec (h : episodes.find? (fun episode => episode.key = key) = some { key := key })
    (honce : ∀ episode ∈ episodes, episode.recoveries ≤ 1) :
    (∀ episode ∈ recover key episodes, episode.recoveries ≤ 1) ∧
      ((recover key episodes).map (·.recoveries)).sum =
        (episodes.map (·.recoveries)).sum + 1 := by
  induction episodes with
  | nil => cases h
  | cons episode older ih =>
    rw [List.find?_cons] at h
    unfold recover
    by_cases heq : episode.key = key
    · rw [if_pos heq]
      simp only [heq, decide_true, Option.some.injEq] at h
      subst h
      refine ⟨?_, ?_⟩
      · intro episode hmem
        rcases List.mem_cons.mp hmem with rfl | hold
        · exact le_refl _
        · exact honce episode (List.mem_cons_of_mem _ hold)
      · simp only [List.map_cons, List.sum_cons]
        omega
    · rw [if_neg heq]
      simp only [heq, decide_false] at h
      obtain ⟨hones, hsum⟩ := ih h (fun ep hep => honce ep (List.mem_cons_of_mem _ hep))
      refine ⟨?_, ?_⟩
      · intro ep hmem
        rcases List.mem_cons.mp hmem with rfl | hold
        · exact honce ep List.mem_cons_self
        · exact hones ep hold
      · simp only [List.map_cons, List.sum_cons, hsum]
        omega

theorem episodes_step {g : Gateway} (c : GatewayCall)
    (hopen : OpenEpisodes g episodes) (honce : ∀ episode ∈ episodes, episode.recoveries ≤ 1) :
    OpenEpisodes (g.call c) (episodesAfter c g episodes) ∧
      (∀ episode ∈ episodesAfter c g episodes, episode.recoveries ≤ 1) ∧
      ((episodesAfter c g episodes).map (·.recoveries)).sum =
        (episodes.map (·.recoveries)).sum + if (c.recovers g).isSome then 1 else 0 := by
  refine ⟨?_, ?_, ?_⟩
  · intro key e hget hdegraded
    unfold episodesAfter
    rw [List.find?_append]
    by_cases hbefore : (g.entryAt key).any (·.degraded) = true
    · -- degraded before: the call neither begins nor recovers it
      obtain ⟨e₀, hget₀, hdegraded₀⟩ := (Option.any_eq_true _ _).mp hbefore
      have hnone : ((c.degrades g).map (fun key => ({ key := key } : Episode))).find?
          (fun episode => episode.key = key) = none := by
        rw [List.find?_eq_none]
        intro episode hmem
        simp only [GatewayCall.degrades, List.mem_map, List.mem_filter] at hmem
        obtain ⟨key', ⟨⟨key'', e'⟩, ⟨-, hnew⟩, rfl⟩, rfl⟩ := hmem
        intro heq
        simp only [decide_eq_true_eq] at heq
        subst heq
        simp [hbefore] at hnew
      rw [hnone, Option.none_or]
      have hold := hopen key e₀ hget₀ hdegraded₀
      cases hrec : c.recovers g with
      | none => exact hold
      | some key' =>
        have hne : key ≠ key' := by
          intro heq
          obtain ⟨e', hget', hcalm⟩ := (recovers_spec hrec).2
          rw [← heq, hget] at hget'
          cases hget'
          rw [hcalm] at hdegraded
          cases hdegraded
        exact (find?_recover_of_ne hne).trans hold
    · -- degraded by this call
      have hmem : key ∈ c.degrades g :=
        List.mem_map.mpr ⟨(key, e), List.mem_filter.mpr
          ⟨JsMap.get?_mem hget, by simp [hdegraded, hbefore]⟩, rfl⟩
      rw [find?_begun hmem, Option.some_or]
  · intro episode hmem
    rcases List.mem_append.mp hmem with hnew | hold
    · obtain ⟨key, -, rfl⟩ := List.mem_map.mp hnew
      exact Nat.zero_le _
    · cases hrec : c.recovers g with
      | none =>
        rw [hrec] at hold
        exact honce episode hold
      | some key =>
        rw [hrec] at hold
        obtain ⟨e, hget, hdegraded⟩ := (recovers_spec hrec).1
        exact (recover_spec (hopen key e hget hdegraded) honce).1 episode hold
  · have hnew : ((c.degrades g).map (fun key => ({ key := key } : Episode))).map (·.recoveries) =
        (c.degrades g).map (fun _ => 0) := by
      rw [List.map_map]
      rfl
    unfold episodesAfter
    rw [List.map_append, List.sum_append, hnew, List.map_const', List.sum_replicate]
    cases hrec : c.recovers g with
    | none => simp
    | some key =>
      obtain ⟨e, hget, hdegraded⟩ := (recovers_spec hrec).1
      have hsum := (recover_spec (hopen key e hget hdegraded) honce).2
      simpa using hsum

end Episodes

/-! ## Runs -/

/-- A gateway with the leases returned and the episodes of degradation. -/
structure LeaseRun where
  gateway : Gateway
  released : List LeaseId
  episodes : List Episode
  deriving DecidableEq

def GatewayCall.releases (c : GatewayCall) (g : Gateway) : Option LeaseId :=
  match c.op with
  | .release id => if (JsMap.get? g.leases id).isSome then some id else none
  | _ => none

/-- The gateway, with what was released and what was counted. -/
def leaseMachine : Machine LeaseRun GatewayCall where
  init r := r.gateway = {} ∧ r.released = [] ∧ r.episodes = []
  step r c := some
    { gateway := r.gateway.call c
      released := (c.releases r.gateway).toList ++ r.released
      episodes := episodesAfter c r.gateway r.episodes }

/-- **Reference counting is exact.** -/
structure LeaseRun.Exact (r : LeaseRun) : Prop where
  /-- A lease is in the index exactly where its entry lists it. -/
  indexed : ∀ id key, JsMap.get? r.gateway.leases id = some key ↔ r.gateway.lists key id = true
  /-- A second release changes nothing, -/
  again : ∀ id now now', release now' id (release now id r.gateway) = release now id r.gateway
  /-- nor does one of a lease released before in the run. -/
  released : ∀ id ∈ r.released, ∀ now, release now id r.gateway = r.gateway
  /-- No call removes an entry in use. -/
  inUse : ∀ c key e, r.gateway.entryAt key = some e → e.consumers ≠ [] →
    ((r.gateway.call c).entryAt key).isSome
  /-- An episode is counted as one recovery at most. -/
  once : ∀ episode ∈ r.episodes, episode.recoveries ≤ 1
  total : r.gateway.counters.recoveries = (r.episodes.map (·.recoveries)).sum

/-- The two indexes agree, and each episode was counted at most once. -/
structure LeaseRun.Kept (r : LeaseRun) : Prop where
  counted : r.gateway.Counted
  released : ∀ id ∈ r.released, id ≤ r.gateway.leaseSeq ∧ JsMap.get? r.gateway.leases id = none
  opened : OpenEpisodes r.gateway r.episodes
  once : ∀ episode ∈ r.episodes, episode.recoveries ≤ 1
  total : r.gateway.counters.recoveries = (r.episodes.map (·.recoveries)).sum

theorem leases_step {r r' : LeaseRun} (h : r.Kept)
    (hstep : leaseMachine.step r c = some r') : r'.Kept := by
  cases hstep
  obtain ⟨hopen, honce, hsum⟩ := episodes_step c h.opened h.once
  refine ⟨call_counted h.counted c, ?_, hopen, honce, ?_⟩
  · intro id hmem
    rcases List.mem_append.mp hmem with hnew | hold
    · -- taken out by this call
      have hreleases := Option.mem_toList.mp hnew
      unfold GatewayCall.releases at hreleases
      split at hreleases
      · next id' hop =>
        split at hreleases
        · next hsome =>
          cases hreleases
          obtain ⟨key, hlease⟩ := Option.isSome_iff_exists.mp hsome
          have hissued := h.counted.issued id key ((h.counted.agree id key).mp hlease)
          refine ⟨hissued.trans (call_leaseSeq _ c), ?_⟩
          show JsMap.get? (r.gateway.call c).leases id = none
          rw [Gateway.call, hop]
          exact release_notIndexed _ _ _
        · cases hreleases
      · cases hreleases
    · -- ids are not issued again
      obtain ⟨hissued, hnone⟩ := h.released id hold
      refine ⟨hissued.trans (call_leaseSeq _ c), ?_⟩
      cases hlease : JsMap.get? (r.gateway.call c).leases id with
      | none => rfl
      | some key =>
        rcases call_leases hlease with hsome | hnext
        · rw [hnone] at hsome
          cases hsome
        · rw [hnext] at hissued
          exact absurd hissued (Nat.not_succ_le_self _)
  · show (r.gateway.call c).counters.recoveries =
      ((episodesAfter c r.gateway r.episodes).map (·.recoveries)).sum
    rw [call_recoveries, hsum, h.total]

theorem run_kept_leases {r : LeaseRun} (h : Reach leaseMachine Always r) : r.Kept := by
  refine h.invariant (I := LeaseRun.Kept) ?_ (fun r c r' hr _ hs => leases_step hr hs)
  rintro r ⟨hg, hreleased, hepisodes⟩
  have hnone : ∀ key, r.gateway.entryAt key = none := by
    intro key
    rw [hg]
    rfl
  refine ⟨⟨⟨?_, ?_, ?_⟩, ?_, ?_⟩, ?_, ?_, ?_, ?_⟩
  · simp [hg, JsMap.keys]
  · simp [hnone]
  · simp [hnone]
  · simp [Gateway.lists, hnone]
  · intro id key
    rw [Gateway.lists, hnone, hg]
    simp [JsMap.get?]
  · simp [hreleased]
  · intro key e hget
    rw [hnone] at hget
    cases hget
  · simp [hepisodes]
  · simp [hepisodes, hg]

/-- **The gateway's reference counting is exact** in every run of calls. -/
theorem leases_exact {r : LeaseRun} (h : Reach leaseMachine Always r) : r.Exact := by
  have hkept := run_kept_leases h
  refine ⟨hkept.counted.agree, ?_, ?_, ?_, hkept.once, hkept.total⟩
  · intro id now now'
    exact release_of_notIndexed (release_notIndexed now id r.gateway) now'
  · intro id hmem now
    exact release_of_notIndexed (hkept.released id hmem).2 now
  · intro c key e hget hsome
    cases hafter : (r.gateway.call c).entryAt key with
    | none => exact absurd (consumers_of_lost hkept.counted.registered hget hafter) hsome
    | some e' => rfl

def yardEpisode : Episode := { key := ("yard", .main) }

/-- Two consumers share an entry; a failure degrades it, progress recovers it once, and in the
end it stalls. -/
def sharedCalls : List GatewayCall :=
  calls [(0, .acquire "yard" none "live"), (1, .acquire "yard" none "recording"),
    (2, .noteFailure "yard" none (1 / 2)), (3, .noteProgress "yard" none {}),
    (4, .noteProgress "yard" none {}), (5, .release 1), (6, .release 1), (400000, .tick)]

theorem leases_exact_shared : ∃ r,
    leaseMachine.run anyStep ⟨{}, [], []⟩ sharedCalls = some r ∧
      r.gateway.leases = [(2, ("yard", .main))] ∧ r.released = [1] ∧
      r.episodes = [yardEpisode, { yardEpisode with recoveries := 1 }] ∧ r.Exact := by
  have hrun : (leaseMachine.run anyStep ⟨{}, [], []⟩ sharedCalls).any
      (fun r => r.gateway.leases = [(2, ("yard", .main))] && r.released = [1] &&
        r.episodes = [yardEpisode, { yardEpisode with recoveries := 1 }]) = true := by
    decide +kernel
  obtain ⟨r, hr, hseen⟩ := (Option.any_eq_true _ _).mp hrun
  simp only [Bool.and_eq_true, decide_eq_true_eq] at hseen
  obtain ⟨⟨hleases, hreleased⟩, hepisodes⟩ := hseen
  have hreach : Reach leaseMachine Always r :=
    ⟨_, ⟨rfl, rfl, rfl⟩, path_of_run (fun _ _ _ => trivial) _ hr⟩
  exact ⟨r, hr, hleases, hreleased, hepisodes, leases_exact hreach⟩

end Drac.CameraStream
