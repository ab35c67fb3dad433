import Mathlib.Algebra.Order.Ring.Int
import Mathlib.Data.List.Chain
import Drac.Lib.Runs

/-
  The player renews the tokens of its playlist.

  Correspondence:
    `vod-continuous.ts`   vodRenewalDueAtMs, shouldRenewPlaylist   ↔ the same names
    `PlaybackPage.tsx`    the effect of a selection ↔ `select` and `probed`; the `tick` of the
                          renewal and what becomes of its answer ↔ `tick` and `renewed`

  Instants are milliseconds of a clock that does not go back. Of a playlist there is what it was
  asked for, when it came and when its tokens expire. A renewal that is on its way when the
  selection changes is not cancelled: its answer is one more of the new selection.
-/

namespace Drac.Playback.PlaylistRenewal

open Runs

/-! ## When a playlist is renewed -/

def DEFAULT_PLAY_TOKEN_TTL_SECONDS : ℤ := 300

def DEFAULT_RENEW_LEAD_SECONDS : ℤ := 60

def MIN_RENEW_INTERVAL_SECONDS : ℤ := 15

/-- What `shouldRenewVodPlaylist` looks at. -/
structure VodRenewalState where
  fetchedAtMs : ℤ
  tokenExpiresAtMs : Option ℤ := none
  tokenTtlSeconds : Option ℤ := none
  renewLeadSeconds : Option ℤ := none
  lastAttemptAtMs : Option ℤ := none
  inFlight : Bool := false
  consecutiveFailures : Option ℤ := none
  maxFailures : Option ℤ := none
  retryDelaySeconds : Option ℤ := none
  documentVisible : Option Bool := none
  playing : Bool := false

def vodRenewalDueAtMs (state : VodRenewalState) : ℤ :=
  let ttlSeconds := state.tokenTtlSeconds.getD DEFAULT_PLAY_TOKEN_TTL_SECONDS
  let leadSeconds := state.renewLeadSeconds.getD DEFAULT_RENEW_LEAD_SECONDS
  let expiresAtMs := state.tokenExpiresAtMs.getD (state.fetchedAtMs + ttlSeconds * 1000)
  let dueAtMs := expiresAtMs - leadSeconds * 1000
  let floorMs := state.fetchedAtMs + MIN_RENEW_INTERVAL_SECONDS * 1000
  let due := max dueAtMs floorMs
  let failures := max 0 (state.consecutiveFailures.getD 0)
  if 0 < failures then
    let retryDelayMs := state.retryDelaySeconds.getD 20 * 1000 * failures
    max due (state.lastAttemptAtMs.getD state.fetchedAtMs + retryDelayMs)
  else due

def shouldRenewPlaylist (state : VodRenewalState) (nowMs : ℤ) : Bool :=
  let failures := max 0 (state.consecutiveFailures.getD 0)
  let maxFailures := max 1 (state.maxFailures.getD 3)
  let visible := state.documentVisible.getD true
  !state.inFlight && failures < maxFailures && (visible || state.playing) &&
    vodRenewalDueAtMs state ≤ nowMs

/-! ## The page -/

structure Playlist (κ : Type) where
  /-- The camera and the day it was asked for. -/
  key : κ
  fetchedAtMs : ℤ
  tokenExpiresAtMs : Option ℤ

/-- The state of the page, and what it has sent. -/
structure Page (κ : Type) where
  selected : κ
  nowMs : ℤ
  /-- The first request of the selection is on its way. -/
  probing : Bool := false
  vodReady : Bool := false
  playlist : Option (Playlist κ) := none
  inFlight : Bool := false
  failures : ℕ := 0
  lastAttemptAtMs : Option ℤ := none
  /-- The renewals on their way, of any selection. -/
  renewals : List κ := []
  /-- When the renewals of this selection went out, the last first. -/
  sent : List ℤ := []

variable {κ : Type}

namespace Page

def renewalState (s : Page κ) (p : Playlist κ) (visible playing : Bool) : VodRenewalState where
  fetchedAtMs := p.fetchedAtMs
  tokenExpiresAtMs := p.tokenExpiresAtMs
  inFlight := s.inFlight
  consecutiveFailures := some s.failures
  lastAttemptAtMs := s.lastAttemptAtMs
  documentVisible := some visible
  playing := playing

def select (s : Page κ) (key : κ) (probes : Bool) : Page κ :=
  { selected := key, nowMs := s.nowMs, probing := probes, renewals := s.renewals }

/-- The answer of a request: `none` where it failed or is no playlist, or its tokens' expiry. -/
def probed (s : Page κ) : Option (Option ℤ) → Page κ
  | none => { s with probing := false }
  | some expiry =>
    { s with probing := false, vodReady := true, playlist := some ⟨s.selected, s.nowMs, expiry⟩ }

def renew (s : Page κ) : Page κ :=
  { s with
    inFlight := true, lastAttemptAtMs := some s.nowMs,
    renewals := s.renewals ++ [s.selected], sent := s.nowMs :: s.sent }

def tick (s : Page κ) (visible playing : Bool) : Page κ :=
  match s.playlist with
  | none => s
  | some p =>
    if s.vodReady && shouldRenewPlaylist (s.renewalState p visible playing) s.nowMs then s.renew
    else s

def renewed (s : Page κ) (key : κ) : Option (Option ℤ) → Page κ
  | none => { s with inFlight := false, failures := s.failures + 1 }
  | some expiry =>
    { s with inFlight := false, failures := 0, playlist := some ⟨key, s.nowMs, expiry⟩ }

end Page

/-- One step: a choice of the user, an answer, or a tick. -/
inductive Label (κ : Type) where
  | select (key : κ) (probes : Bool)
  | probed (answer : Option (Option ℤ))
  | tick (visible playing : Bool)
  | renewed (i : ℕ) (answer : Option (Option ℤ))
  | wait (ms : ℕ)

def step (s : Page κ) : Label κ → Option (Page κ)
  | .select key probes => some (s.select key probes)
  | .probed answer => if s.probing then some (s.probed answer) else none
  | .tick visible playing => some (s.tick visible playing)
  | .renewed i answer =>
    (s.renewals[i]?).map (fun key =>
      { s.renewed key answer with renewals := s.renewals.eraseIdx i })
  | .wait ms => some { s with nowMs := s.nowMs + ms }

def page (κ : Type) : Machine (Page κ) (Label κ) where
  init s := ∃ key nowMs, s = { selected := key, nowMs := nowMs }
  step := step

/-! ## How often it is asked for -/

def minIntervalMs : ℤ := MIN_RENEW_INTERVAL_SECONDS * 1000

/-- The renewals that went out after a playlist came. -/
def sentFor (s : Page κ) (p : Playlist κ) : List ℤ := s.sent.filter (p.fetchedAtMs < ·)

/-- The renewals sent are apart, and the last is the one remembered. -/
structure Paced (s : Page κ) : Prop where
  apart : s.sent.IsChain (fun later earlier => earlier + minIntervalMs ≤ later)
  last : s.lastAttemptAtMs = s.sent.head?
  past : ∀ t ∈ s.sent, t ≤ s.nowMs
  held : ∀ t ∈ s.sent.head?,
    s.inFlight = true ∨ 0 < s.failures ∨ ∃ p ∈ s.playlist, t ≤ p.fetchedAtMs
  few : ∀ p ∈ s.playlist, (sentFor s p).length ≤ min 3 (s.failures + s.inFlight.toNat)

variable {s t : Page κ} {a : Label κ}

theorem floor_le_due (state : VodRenewalState) :
    state.fetchedAtMs + minIntervalMs ≤ vodRenewalDueAtMs state ∧
      (0 < state.consecutiveFailures.getD 0 →
        state.lastAttemptAtMs.getD state.fetchedAtMs + state.retryDelaySeconds.getD 20 * 1000 *
          state.consecutiveFailures.getD 0 ≤ vodRenewalDueAtMs state) := by
  unfold vodRenewalDueAtMs minIntervalMs
  constructor
  · dsimp only
    split <;> omega
  · intro hfailed
    dsimp only
    rw [max_eq_right (Int.le_of_lt hfailed), if_pos hfailed]
    exact Int.le_max_right _ _

theorem due_of_should {p : Playlist κ} {visible playing : Bool}
    (h : shouldRenewPlaylist (s.renewalState p visible playing) s.nowMs = true) :
    s.inFlight = false ∧ s.failures < 3 ∧ p.fetchedAtMs + minIntervalMs ≤ s.nowMs ∧
      (0 < s.failures → s.lastAttemptAtMs.getD p.fetchedAtMs + minIntervalMs ≤ s.nowMs) := by
  simp only [shouldRenewPlaylist, Bool.and_eq_true, Bool.not_eq_true'] at h
  obtain ⟨⟨⟨hidle, hfew⟩, -⟩, hdue⟩ := h
  obtain ⟨hfloor, hretry⟩ := floor_le_due (s.renewalState p visible playing)
  replace hfew := of_decide_eq_true hfew
  replace hfloor := hfloor.trans (of_decide_eq_true hdue)
  replace hretry := fun hfailed => (hretry hfailed).trans (of_decide_eq_true hdue)
  simp only [Page.renewalState, Option.getD_some, Option.getD_none] at hidle hfew hfloor hretry
  refine ⟨hidle, by omega, hfloor, fun hfailed => ?_⟩
  have hlate := hretry (by omega)
  simp only [minIntervalMs, MIN_RENEW_INTERVAL_SECONDS]
  omega

theorem sentFor_new (h : Paced s) (key : κ) (expiry : Option ℤ) :
    sentFor s ⟨key, s.nowMs, expiry⟩ = [] :=
  List.filter_eq_nil_iff.mpr (fun t ht => by simpa using h.past t ht)

theorem Paced.tick (h : Paced s) (visible playing : Bool) : Paced (s.tick visible playing) := by
  unfold Page.tick
  split
  · exact h
  · next p hp =>
    split
    · next hsend =>
      obtain ⟨hidle, hfew, hfloor, hretry⟩ := due_of_should (Bool.and_eq_true_iff.mp hsend).2
      have hspaced : ∀ t ∈ s.sent.head?, t + minIntervalMs ≤ s.nowMs := by
        intro t ht
        rcases h.held t ht with hflying | hfailed | ⟨q, hq, hle⟩
        · rw [hidle] at hflying
          cases hflying
        · have hlast := hretry hfailed
          rwa [h.last, show s.sent.head? = some t from ht] at hlast
        · obtain rfl := Option.some.inj (hp.symm.trans hq)
          omega
      refine ⟨List.isChain_cons.mpr ⟨hspaced, h.apart⟩, rfl, ?_, fun _ _ => .inl rfl, ?_⟩
      · exact List.forall_mem_cons.mpr ⟨Int.le_refl _, h.past⟩
      · intro q hq
        have hbound := h.few q hq
        simp only [sentFor, hidle, Bool.toNat_false] at hbound
        simp only [sentFor, Page.renew, List.filter_cons, Bool.toNat_true]
        split
        · rw [List.length_cons]
          omega
        · omega
    · exact h

theorem Paced.renewed (h : Paced s) (key : κ) (answer : Option (Option ℤ)) :
    Paced (s.renewed key answer) := by
  cases answer with
  | none =>
    refine ⟨h.apart, h.last, h.past, fun _ _ => .inr (.inl (Nat.succ_pos _)), ?_⟩
    intro p hp
    have hbound := h.few p hp
    have hone := Bool.toNat_le s.inFlight
    show (sentFor s p).length ≤ min 3 (s.failures + 1 + 0)
    omega
  | some expiry =>
    refine ⟨h.apart, h.last, h.past, ?_, ?_⟩
    · exact fun t ht => .inr (.inr ⟨_, rfl, h.past t (List.mem_of_mem_head? ht)⟩)
    · rintro p ⟨⟩
      exact (congrArg List.length (sentFor_new h key expiry)).le.trans (Nat.zero_le _)

theorem step_paced (h : Paced s) (hstep : step s a = some t) : Paced t := by
  cases a with
  | select key probes =>
    cases hstep
    exact ⟨.nil, rfl, by simp [Page.select], by simp [Page.select], by simp [Page.select]⟩
  | probed answer =>
    obtain ⟨-, hs⟩ := Option.ite_none_right_eq_some.mp hstep
    cases hs
    cases answer with
    | none => exact ⟨h.apart, h.last, h.past, h.held, h.few⟩
    | some expiry =>
      refine ⟨h.apart, h.last, h.past, ?_, ?_⟩
      · exact fun t ht => .inr (.inr ⟨_, rfl, h.past t (List.mem_of_mem_head? ht)⟩)
      · rintro p ⟨⟩
        exact (congrArg List.length (sentFor_new h _ expiry)).le.trans (Nat.zero_le _)
  | tick visible playing =>
    cases hstep
    exact h.tick visible playing
  | renewed i answer =>
    obtain ⟨key, -, rfl⟩ := Option.map_eq_some_iff.mp hstep
    have hr := h.renewed key answer
    exact ⟨hr.apart, hr.last, hr.past, hr.held, hr.few⟩
  | wait ms =>
    cases hstep
    refine ⟨h.apart, h.last, fun t ht => (h.past t ht).trans ?_, h.held, h.few⟩
    exact Int.le_add_of_nonneg_right (Int.natCast_nonneg ms)

/-- **Renewals are paced.** In whatever order answers come, those of earlier selections too. -/
theorem renewals_paced (h : Reach (page κ) Always s) :
    s.sent.IsChain (fun later earlier => earlier + minIntervalMs ≤ later) ∧
      ∀ p ∈ s.playlist, (sentFor s p).length ≤ 3 := by
  have hpaced : Paced s := h.invariant (I := Paced)
    (by rintro _ ⟨key, nowMs, rfl⟩; exact ⟨.nil, rfl, by simp, by simp, by simp⟩)
    (fun _ _ _ hs _ hstep => step_paced hs hstep)
  exact ⟨hpaced.apart, fun p hp => (hpaced.few p hp).trans (min_le_left _ _)⟩

def closed : Page String := { selected := "", nowMs := 0 }

/-- The first renewal fails, and the next goes out 20 s later. -/
def retries : List (Label String) :=
  [.select "gate" true, .probed (some none), .wait 240000, .tick true true, .renewed 0 none,
    .wait 19999, .tick true true, .wait 1, .tick false true]

theorem renewals_paced_retries : ∃ s, (page String).run anyStep closed retries = some s ∧
    s.sent = [260000, 240000] ∧ ∀ p ∈ s.playlist, (sentFor s p).length ≤ 3 := by
  have hrun : ((page String).run anyStep closed retries).map (·.sent) = some [260000, 240000] := by
    decide +kernel
  obtain ⟨s, hs, hsent⟩ := Option.map_eq_some_iff.mp hrun
  exact ⟨s, hs, hsent, (renewals_paced
    ⟨_, ⟨_, _, rfl⟩, path_of_run (fun _ _ _ => trivial) _ hs⟩).2⟩

/-! ## Whose playlist it is -/

/-- A selection finds no renewal on its way. -/
def Settled (s : Page κ) : Label κ → Prop
  | .select _ _ => s.renewals = []
  | _ => True

/-- Playlist and renewals are of the selection. -/
structure Own (s : Page κ) : Prop where
  playlist : ∀ p ∈ s.playlist, p.key = s.selected
  renewals : ∀ key ∈ s.renewals, key = s.selected

theorem step_own (h : Own s) (hsettled : Settled s a) (hstep : step s a = some t) : Own t := by
  cases a with
  | select key probes =>
    cases hstep
    exact ⟨by simp [Page.select], fun k hk => absurd (hsettled ▸ hk) List.not_mem_nil⟩
  | probed answer =>
    obtain ⟨-, hs⟩ := Option.ite_none_right_eq_some.mp hstep
    cases hs
    cases answer with
    | none => exact ⟨h.playlist, h.renewals⟩
    | some expiry => exact ⟨by rintro p ⟨⟩; rfl, h.renewals⟩
  | tick visible playing =>
    cases hstep
    unfold Page.tick
    split
    · exact h
    · split
      · exact ⟨h.playlist, List.forall_mem_append.mpr ⟨h.renewals, by simp [Page.renew]⟩⟩
      · exact h
  | renewed i answer =>
    obtain ⟨key, hkey, rfl⟩ := Option.map_eq_some_iff.mp hstep
    have hown : key = s.selected := h.renewals key (List.mem_of_getElem? hkey)
    have hleft : ∀ k ∈ s.renewals.eraseIdx i, k = s.selected :=
      fun k hk => h.renewals k (List.mem_of_mem_eraseIdx hk)
    cases answer with
    | none => exact ⟨h.playlist, hleft⟩
    | some expiry => exact ⟨by rintro p ⟨⟩; exact hown, hleft⟩
  | wait ms =>
    cases hstep
    exact ⟨h.playlist, h.renewals⟩

/-- **The playlist is of what is selected**, while no renewal outlives its selection. -/
theorem playlist_selected (h : Reach (page κ) Settled s) : ∀ p ∈ s.playlist, p.key = s.selected :=
  (h.invariant (I := Own) (by rintro _ ⟨key, nowMs, rfl⟩; exact ⟨by simp, by simp⟩)
    (fun _ _ _ => step_own)).playlist

theorem playlist_selected_gate :
    ((closed.select "gate" true).probed (some none)).playlist = some ⟨"gate", 0, none⟩ ∧
      ∀ p ∈ ((closed.select "gate" true).probed (some none)).playlist, p.key = "gate" :=
  ⟨rfl, playlist_selected ⟨closed, ⟨_, _, rfl⟩, .tail (.tail (.refl _)
    (a := .select "gate" true) rfl rfl) (a := .probed (some none)) trivial rfl⟩⟩

end Drac.Playback.PlaylistRenewal
