import Drac.CameraStream.GatewayRuns
import Drac.Lib.Loops

/-
  What a call takes from the registry.

  An entry leaves it in two ways: a tick collects it, or a call that needs a new entry finds
  the registry full and gives up the idle one touched the longest ago (`call_lost`). Neither
  takes an entry that has a consumer (`consumers_of_lost`).
-/

namespace Drac.CameraStream

open Runs

def GatewayCall.needs (c : GatewayCall) (g : Gateway) : Option SourceKey :=
  match c.op with
  | .registerPublishedSource cameraId profile _ | .noteConnecting cameraId profile
  | .noteProgress cameraId profile _ | .noteFailure cameraId profile _ =>
    if c.settings.isEnabled then some (cameraId, normalizeSourceProfile profile) else none
  | .acquire cameraId profile _ =>
    if c.settings.isEnabled &&
        (acquireSubstitute c.settings cameraId (normalizeSourceProfile profile) g).isNone then
      some (cameraId, normalizeSourceProfile profile)
    else none
  | _ => none

def evictedFor (g : Gateway) (key : SourceKey) : Option SourceKey :=
  if (g.entryAt key).isSome || g.entries.length < maxTrackedSources then none
  else oldestIdle g.entries

def GatewayCall.evicts (c : GatewayCall) (g : Gateway) : Option SourceKey :=
  (c.needs g).bind (evictedFor g)

section Evictions

variable {g g' : Gateway} {key : SourceKey} {e : SourceEntry}

theorem ensureEntry_entryAt {now : ℚ} {cameraId : String} {profile : SourceProfile}
    (h : ensureEntry now cameraId profile g = some (g', e)) (key : SourceKey) :
    g'.entryAt key = if key = (cameraId, profile) then some e
      else if evictedFor g (cameraId, profile) = some key then none else g.entryAt key := by
  unfold ensureEntry at h
  unfold evictedFor
  split at h
  · next existing hget =>
    cases h
    rw [hget]
    split
    · next heq => rw [heq, hget]
    · rfl
  · next hnone =>
    simp only at h
    rw [hnone]
    split at h
    · next hroom =>
      cases h
      simp only [entryAt_setEntry, eq_comm (a := key), hroom]
      rfl
    · next hfull =>
      split at h
      · cases h
      · next oldest hold =>
        cases h
        have herase : Gateway.entryAt { g with entries := JsMap.erase g.entries oldest } key =
            if oldest = key then none else g.entryAt key := JsMap.get?_erase g.entries oldest key
        simp only [entryAt_setEntry, eq_comm (a := key), hfull, hold, herase]
        simp

def olderIdle (oldest : Option (SourceKey × ℚ)) (entry : SourceKey × SourceEntry) :
    Option (SourceKey × ℚ) :=
  if entry.2.consumers.length > 0 then oldest
  else
    match oldest with
    | none => some (entry.1, entry.2.touchedAtMs)
    | some (_, oldestAt) =>
      if entry.2.touchedAtMs < oldestAt then some (entry.1, entry.2.touchedAtMs) else oldest

theorem oldestIdle_eq (entries : List (SourceKey × SourceEntry)) :
    oldestIdle entries = (entries.foldl olderIdle none).map Prod.fst := rfl

theorem oldestIdle_spec (h : oldestIdle g.entries = some key) :
    ∃ e, (key, e) ∈ g.entries ∧ e.consumers = [] := by
  rw [oldestIdle_eq] at h
  obtain ⟨⟨key', oldestAt⟩, hfold, rfl⟩ := Option.map_eq_some_iff.mp h
  have hidle := Loops.foldl_invariant
    (P := fun oldest : Option (SourceKey × ℚ) => ∀ k at_, oldest = some (k, at_) →
      ∃ e, (k, e) ∈ g.entries ∧ e.consumers = [])
    (f := olderIdle) g.entries none (by simp) ?_
  · exact hidle key' oldestAt hfold
  · intro oldest entry hentry hkept k at_ hnext
    unfold olderIdle at hnext
    split at hnext
    · exact hkept k at_ hnext
    · next hnone =>
      have hempty : entry.2.consumers = [] := by
        rw [← List.length_eq_zero_iff]
        omega
      split at hnext
      · cases hnext
        exact ⟨entry.2, hentry, hempty⟩
      · split at hnext
        · cases hnext
          exact ⟨entry.2, hentry, hempty⟩
        · exact hkept k at_ hnext

theorem olderIdle_least {oldest : Option (SourceKey × ℚ)} (hidle : e.consumers = [])
    (hlater : ∀ k at_, oldest = some (k, at_) → e.touchedAtMs < at_) :
    olderIdle oldest (key, e) = some (key, e.touchedAtMs) := by
  unfold olderIdle
  rw [if_neg (by simp [hidle])]
  cases oldest with
  | none => rfl
  | some found => exact if_pos (hlater found.1 found.2 rfl)

theorem olderIdle_later {oldest : Option (SourceKey × ℚ)} {entry : SourceKey × SourceEntry} {least : ℚ}
    (hlater : ∀ k at_, oldest = some (k, at_) → least < at_) (hentry : least < entry.2.touchedAtMs) :
    ∀ k at_, olderIdle oldest entry = some (k, at_) → least < at_ := by
  intro k at_ hnext
  unfold olderIdle at hnext
  split at hnext
  · exact hlater k at_ hnext
  · split at hnext
    · cases hnext
      exact hentry
    · split at hnext
      · cases hnext
        exact hentry
      · exact hlater k at_ hnext

theorem foldl_olderIdle_stays {l : List (SourceKey × SourceEntry)} {least : ℚ}
    (hl : ∀ entry ∈ l, least ≤ entry.2.touchedAtMs) :
    l.foldl olderIdle (some (key, least)) = some (key, least) := by
  refine Loops.foldl_invariant (P := fun oldest => oldest = some (key, least)) l _ rfl ?_
  rintro _ entry hentry rfl
  unfold olderIdle
  split
  · rfl
  · exact if_neg (not_lt.mpr (hl entry hentry))

theorem foldl_olderIdle_finds {l : List (SourceKey × SourceEntry)} (hidle : e.consumers = [])
    (hleast : ∀ entry ∈ l, entry = (key, e) ∨ e.touchedAtMs < entry.2.touchedAtMs)
    (hmem : (key, e) ∈ l) (oldest : Option (SourceKey × ℚ))
    (hlater : ∀ k at_, oldest = some (k, at_) → e.touchedAtMs < at_) :
    l.foldl olderIdle oldest = some (key, e.touchedAtMs) := by
  induction l generalizing oldest with
  | nil => cases hmem
  | cons entry rest ih =>
    have hrest := fun x hx => hleast x (List.mem_cons_of_mem entry hx)
    rw [List.foldl_cons]
    rcases hleast entry List.mem_cons_self with rfl | hlt
    · -- found, and nothing after it is older
      rw [olderIdle_least hidle hlater]
      apply foldl_olderIdle_stays
      intro x hx
      rcases hrest x hx with rfl | hlt
      · exact le_refl _
      · exact hlt.le
    · have hin : (key, e) ∈ rest := by
        rcases List.mem_cons.mp hmem with rfl | hin
        · exact absurd hlt (lt_irrefl _)
        · exact hin
      exact ih hrest hin _ (olderIdle_later hlater hlt)

/-- An idle entry touched before all others is the one given up. -/
theorem oldestIdle_of_least {entries : List (SourceKey × SourceEntry)} (hidle : e.consumers = [])
    (hmem : (key, e) ∈ entries)
    (hleast : ∀ entry ∈ entries, entry = (key, e) ∨ e.touchedAtMs < entry.2.touchedAtMs) :
    oldestIdle entries = some key := by
  rw [oldestIdle_eq, foldl_olderIdle_finds hidle hleast hmem none (by simp)]
  rfl

theorem onEntry_lost {s : Settings} {now : ℚ} {cameraId : String} {profile : Option String}
    {change : SourceEntry → SourceEntry} (hbefore : g.entryAt key = some e)
    (hafter : (onEntry s now cameraId profile change g).entryAt key = none) :
    s.isEnabled = true ∧ evictedFor g (cameraId, normalizeSourceProfile profile) = some key := by
  unfold onEntry at hafter
  split at hafter
  · rw [hbefore] at hafter
    cases hafter
  · next hon =>
    split at hafter
    · rw [hbefore] at hafter
      cases hafter
    · next g' e' hens =>
      rw [entryAt_setEntry, ensureEntry_entryAt hens, hbefore] at hafter
      refine ⟨by simpa using hon, ?_⟩
      grind

theorem onEntry_entryAt {s : Settings} {now : ℚ} {cameraId : String} {profile : Option String}
    {change : SourceEntry → SourceEntry} (hon : s.isEnabled = true)
    (hens : ensureEntry now cameraId (normalizeSourceProfile profile) g = some (g', e))
    (key : SourceKey) :
    (onEntry s now cameraId profile change g).entryAt key =
      if key = (cameraId, normalizeSourceProfile profile) then some (change e)
      else if evictedFor g (cameraId, normalizeSourceProfile profile) = some key then none
      else g.entryAt key := by
  unfold onEntry
  rw [if_neg (by simp [hon]), hens]
  simp only
  rw [entryAt_setEntry, ensureEntry_entryAt hens]
  grind

/-- **What a call can take.** An entry that is gone was collected by a tick, or given up for
a new one. -/
theorem call_lost (hreg : g.Registered) {c : GatewayCall} (hbefore : g.entryAt key = some e)
    (hafter : (g.call c).entryAt key = none) :
    (c.op = .tick ∧ tickEntry c.settings c.now e = none) ∨ c.evicts g = some key := by
  obtain ⟨s, now, op⟩ := c
  have hkept : ¬ g.entryAt key = none := by
    rw [hbefore]
    simp
  cases op with
  | resolveSourceUrl input => exact absurd hafter hkept
  | canAttempt cameraId profile => exact absurd hafter hkept
  | registerPublishedSource cameraId profile url =>
    obtain ⟨hon, hlost⟩ := onEntry_lost hbefore hafter
    exact .inr (by simp [GatewayCall.evicts, GatewayCall.needs, hon, hlost])
  | noteConnecting cameraId profile =>
    obtain ⟨hon, hlost⟩ := onEntry_lost hbefore hafter
    exact .inr (by simp [GatewayCall.evicts, GatewayCall.needs, hon, hlost])
  | noteProgress cameraId profile info =>
    have hentry : (onEntry s now cameraId profile (progressed info now) g).entryAt key = none :=
      hafter
    obtain ⟨hon, hlost⟩ := onEntry_lost hbefore hentry
    exact .inr (by simp [GatewayCall.evicts, GatewayCall.needs, hon, hlost])
  | noteFailure cameraId profile random =>
    have hentry : (onEntry s now cameraId profile (failed s now random) g).entryAt key = none :=
      hafter
    obtain ⟨hon, hlost⟩ := onEntry_lost hbefore hentry
    exact .inr (by simp [GatewayCall.evicts, GatewayCall.needs, hon, hlost])
  | acquire cameraId profile consumer =>
    simp only [Gateway.call, acquire] at hafter
    split at hafter
    · exact absurd hafter hkept
    · next hon =>
      split at hafter
      · exact absurd hafter hkept
      · next g' e' hfound =>
        have hset : (g'.setEntry e'.key (attach (g.leaseSeq + 1) consumer now e')).entryAt key =
          none := hafter
        rw [entryAt_setEntry] at hset
        split at hset
        · cases hset
        · split at hfound
          · cases hfound
            exact absurd hset hkept
          · next hsub =>
            rw [ensureEntry_entryAt hfound] at hset
            have hgiven : (if key = (cameraId, normalizeSourceProfile profile) then some e'
                else if evictedFor g (cameraId, normalizeSourceProfile profile) = some key then none
                else g.entryAt key) = none := hset
            rw [hbefore] at hgiven
            have hlost : evictedFor g (cameraId, normalizeSourceProfile profile) = some key := by
              grind
            refine .inr ?_
            have hsub' : acquireSubstitute s cameraId (normalizeSourceProfile profile) g = none :=
              hsub
            have hon' : s.isEnabled = true := by simpa using hon
            simp [GatewayCall.evicts, GatewayCall.needs, hon', hsub', hlost]
  | release id =>
    simp only [Gateway.call, release] at hafter
    split at hafter
    · exact absurd hafter hkept
    · split at hafter
      · exact absurd hafter hkept
      · next key₀ _ _ e' hget =>
        have hset : (g.setEntry key₀ (detach id now e')).entryAt key = none := hafter
        rw [entryAt_setEntry, hbefore] at hset
        split at hset <;> cases hset
  | tick =>
    left
    refine ⟨rfl, ?_⟩
    have hentry : (tick s now g).entryAt key = none := hafter
    rw [tick_entryAt hreg.nodup, hbefore] at hentry
    split at hentry
    · exact hentry
    · cases hentry

/-- **An entry with a consumer stays.** -/
theorem consumers_of_lost (hreg : g.Registered) {c : GatewayCall} (hbefore : g.entryAt key = some e)
    (hafter : (g.call c).entryAt key = none) : e.consumers = [] := by
  rcases call_lost hreg hbefore hafter with ⟨-, htick⟩ | hevict
  · unfold tickEntry at htick
    split at htick
    · cases htick
    · split at htick
      · next hidle => exact List.length_eq_zero_iff.mp hidle.1
      · cases htick
  · obtain ⟨needed, -, hevict⟩ := Option.bind_eq_some_iff.mp hevict
    unfold evictedFor at hevict
    split at hevict
    · cases hevict
    · obtain ⟨e', hmem, hempty⟩ := oldestIdle_spec hevict
      have hget : g.entryAt key = some e' := JsMap.mem_get? hreg.nodup hmem
      rw [hbefore] at hget
      cases hget
      exact hempty

end Evictions

end Drac.CameraStream
