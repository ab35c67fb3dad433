import Mathlib.Algebra.Group.Nat.Defs
import Mathlib.Data.List.Induction
import Mathlib.Order.Nat
import Drac.Lib.Loops

/-
  The brake on recoveries of a stuck path.

  Correspondence (`mediamtx-proxy.service.ts` ↔ Lean, for one path):
    isRecoveryBraked       ↔ the same name; it also ends a cooldown that has elapsed
    noteRecoveryAttempt    ↔ the same name; the fifth attempt of a window arms a cooldown
    clearRecoveryBrake     ↔ the events `progress` and `missing`: the entry is deleted

  `Record` is the entry of a path with all that has happened to it, in order. A stretch is
  what has happened since the path last made progress or was missing from a listing (`since`).

    attempt_sound, clear_sound    what an attempt and a deletion preserve
    Disciplined                   what follows for the events of a path
-/

namespace Drac.CameraStream.Watchdog

def BRAKE_MAX_RECOVERIES : ℕ := 5

def BRAKE_WINDOW_MS : ℕ := 10 * 60000

def BRAKE_BASE_COOLDOWN_MS : ℕ := 2 * 60000

def BRAKE_MAX_COOLDOWN_MS : ℕ := 30 * 60000

/-- An entry of `recoveryBrake`. -/
structure Brake where
  attempts : List ℕ := []
  cooldownUntil : ℕ := 0
  level : ℕ := 0
  deriving DecidableEq

/-- What the log of a path holds. -/
inductive Event where
  | start (at_ : ℕ)
  | armed (at_ until_ : ℕ)
  | cooled (at_ : ℕ)
  | braked (at_ : ℕ)
  /-- New bytes from a source that is ready. -/
  | progress (at_ : ℕ)
  | missing (at_ : ℕ)
  deriving DecidableEq

/-- The time before which attempts do not count is `now - BRAKE_WINDOW_MS`. -/
def counts (now : ℕ) (at_ : ℕ) : Bool := now < at_ + BRAKE_WINDOW_MS

def cooldownMs (level : ℕ) : ℕ :=
  min BRAKE_MAX_COOLDOWN_MS (BRAKE_BASE_COOLDOWN_MS * 2 ^ (level - 1))

/-- Whether the path is braked, and the entry with what has happened to it. -/
def isRecoveryBraked (now : ℕ) (entry : Option Brake) : Bool × Option Brake × List Event :=
  match entry with
  | none => (false, none, [])
  | some e =>
    if e.cooldownUntil = 0 then (false, some e, [])
    else if now < e.cooldownUntil then (true, some e, [])
    else (false, some { e with cooldownUntil := 0, attempts := [] }, [.cooled now])

def noteRecoveryAttempt (now : ℕ) (entry : Option Brake) : Brake × List Event :=
  let e := entry.getD {}
  let attempts := e.attempts.filter (counts now) ++ [now]
  if attempts.length < BRAKE_MAX_RECOVERIES then ({ e with attempts := attempts }, [.start now])
  else
    let level := e.level + 1
    ({ attempts := [], cooldownUntil := now + cooldownMs level, level := level },
      [.start now, .armed now (now + cooldownMs level)])

/-- The entry of a path, and its log. -/
structure Record where
  entry : Option Brake := none
  log : List Event := []
  deriving DecidableEq

/-- The part of `recoverStuckPath` that asks the brake; is a recovery started? -/
def Record.attempt (r : Record) (now : ℕ) : Bool × Record :=
  let asked := isRecoveryBraked now r.entry
  if asked.1 then (false, ⟨asked.2.1, r.log ++ asked.2.2 ++ [.braked now]⟩)
  else
    let noted := noteRecoveryAttempt now asked.2.1
    (true, ⟨some noted.1, r.log ++ asked.2.2 ++ noted.2⟩)

/-- `clearRecoveryBrake`. -/
def Record.progress (r : Record) (now : ℕ) : Record := ⟨none, r.log ++ [.progress now]⟩

/-- What the end of a tick does to the entry of a path that its listing has not got. -/
def Record.missing (r : Record) (now : ℕ) : Record := ⟨none, r.log ++ [.missing now]⟩

/-! ## Events -/

def Event.time : Event → ℕ
  | .start at_ | .armed at_ _ | .cooled at_ | .braked at_ | .progress at_ | .missing at_ => at_

def Event.clears : Event → Bool
  | .progress _ | .missing _ => true
  | _ => false

/-- The attempts are forgotten, and none is braked for now. -/
def Event.resets : Event → Bool
  | .progress _ | .missing _ | .cooled _ => true
  | _ => false

def Event.startTime : Event → Option ℕ
  | .start at_ => some at_
  | _ => none

def starts (log : List Event) : List ℕ := log.filterMap Event.startTime

def since (log : List Event) : List Event :=
  log.foldl (fun stretch e => if e.clears then [] else stretch ++ [e]) []

/-- In the window of `BRAKE_WINDOW_MS` from a time on. -/
def inWindow (from_ at_ : ℕ) : Bool := from_ ≤ at_ && at_ < from_ + BRAKE_WINDOW_MS

theorem starts_append (log more : List Event) : starts (log ++ more) = starts log ++ starts more :=
  List.filterMap_append

theorem since_concat (log : List Event) (e : Event) :
    since (log ++ [e]) = if e.clears then [] else since log ++ [e] := by
  rw [since, List.foldl_append]
  rfl

theorem cooldownMs_pos (level : ℕ) : 0 < cooldownMs level :=
  Nat.lt_min.mpr ⟨by decide, Nat.mul_pos (by decide) (Nat.two_pow_pos _)⟩

/-- **Cooldowns do not get shorter** from level to level. -/
theorem cooldownMs_mono {level level' : ℕ} (h : level ≤ level') :
    cooldownMs level ≤ cooldownMs level' :=
  Nat.le_min.mpr ⟨Nat.min_le_left _ _, (Nat.min_le_right _ _).trans
    (Nat.mul_le_mul_left _ (Nat.pow_le_pow_right (by decide) (by omega)))⟩

/-- How events of one stretch follow each other: nothing is started in a cooldown, and the next
cooldown is as long. -/
def Event.Before : Event → Event → Prop
  | .armed _ until_, .start at_ => until_ ≤ at_
  | .armed at_ until_, .armed at' until' => until_ - at_ ≤ until' - at'
  | _, _ => True

/-- What is promised of a log. -/
structure Disciplined (log : List Event) : Prop where
  /-- In a window in which the entry is not deleted and no cooldown ends. -/
  window : ∀ from_, (∀ e ∈ log, inWindow from_ e.time = true → e.resets = false) →
    ((starts log).filter (inWindow from_)).length ≤ BRAKE_MAX_RECOVERIES
  cooldowns : (since log).Pairwise Event.Before
  /-- A cooldown is for the attempts of its stretch. -/
  armed : ∀ before at_ until_ after, since log = before ++ .armed at_ until_ :: after →
    BRAKE_MAX_RECOVERIES ≤ ((starts before).filter (counts at_)).length
  braked : ∀ before at_ after, since log = before ++ .braked at_ :: after →
    ∃ armedAt until_, .armed armedAt until_ ∈ before ∧ at_ < until_

/-! ## One event more -/

variable {log : List Event} {e : Event}

theorem Disciplined.concat (h : Disciplined log) (hclears : e.clears = false)
    (hwindow : ∀ from_, (∀ x ∈ log ++ [e], inWindow from_ x.time = true → x.resets = false) →
      ((starts (log ++ [e])).filter (inWindow from_)).length ≤ BRAKE_MAX_RECOVERIES)
    (hbefore : ∀ x ∈ since log, x.Before e)
    (harmed : ∀ at_ until_, e = .armed at_ until_ →
      BRAKE_MAX_RECOVERIES ≤ ((starts (since log)).filter (counts at_)).length)
    (hbraked : ∀ at_, e = .braked at_ →
      ∃ armedAt until_, .armed armedAt until_ ∈ since log ∧ at_ < until_) :
    Disciplined (log ++ [e]) := by
  have hsince : since (log ++ [e]) = since log ++ [e] := by
    rw [since_concat, hclears, if_neg Bool.false_ne_true]
  refine ⟨hwindow, ?_, ?_, ?_⟩
  · rw [hsince]
    refine List.pairwise_append.mpr ⟨h.cooldowns, List.pairwise_singleton _ _, ?_⟩
    intro x hx y hy
    rw [List.mem_singleton.mp hy]
    exact hbefore x hx
  · intro before at_ until_ after hsplit
    rw [hsince] at hsplit
    obtain ⟨heq, rfl, -⟩ | ⟨rest, -, hold⟩ := Loops.concat_eq_split hsplit
    · exact harmed at_ until_ heq.symm
    · exact h.armed before at_ until_ rest hold
  · intro before at_ after hsplit
    rw [hsince] at hsplit
    obtain ⟨heq, rfl, -⟩ | ⟨rest, -, hold⟩ := Loops.concat_eq_split hsplit
    · exact hbraked at_ heq.symm
    · exact h.braked before at_ rest hold

theorem Disciplined.clear (h : Disciplined log) (hclears : e.clears = true)
    (hstart : e.startTime = none) : Disciplined (log ++ [e]) := by
  have hsince : since (log ++ [e]) = [] := by rw [since_concat, hclears, if_pos rfl]
  have hstarts : starts (log ++ [e]) = starts log := by
    rw [starts_append, starts, starts, List.filterMap_cons, hstart]
    exact List.append_nil _
  refine ⟨?_, by rw [hsince]; exact .nil, ?_, ?_⟩
  · intro from_ hnone
    rw [hstarts]
    exact h.window from_ fun x hx => hnone x (List.mem_append_left _ hx)
  · intro before at_ until_ after hsplit
    rw [hsince] at hsplit
    simp at hsplit
  · intro before at_ after hsplit
    rw [hsince] at hsplit
    simp at hsplit

/-! ## The entry and what has happened -/

def Record.attempts (r : Record) : List ℕ := (r.entry.map (·.attempts)).getD []

def Record.cooling (r : Record) : Bool := r.entry.any (·.cooldownUntil ≠ 0)

def startsFrom (from_ : ℕ) (log : List Event) : List ℕ := (starts log).filter (from_ ≤ ·)

/-- Nothing has made the attempts forgotten from a time on, and the window has not passed. -/
structure Open (log : List Event) (now from_ : ℕ) : Prop where
  window : now < from_ + BRAKE_WINDOW_MS
  kept : ∀ e ∈ log, from_ ≤ e.time → e.resets = false

/-- The entry knows what the log says of the present stretch. -/
structure Sound (r : Record) (now : ℕ) : Prop where
  past : ∀ e ∈ r.log, e.time ≤ now
  few : r.attempts.length < BRAKE_MAX_RECOVERIES
  /-- While no cooldown is armed the attempts are the recoveries of any open window. -/
  recalls : ∀ from_, Open r.log now from_ → r.cooling = false →
    startsFrom from_ r.log = r.attempts.filter (from_ ≤ ·)
  full : ∀ from_, Open r.log now from_ → (startsFrom from_ r.log).length ≤ BRAKE_MAX_RECOVERIES
  ofStretch : r.attempts.Sublist (starts (since r.log))
  fresh : r.entry = none → since r.log = []
  levels : ∀ e, r.entry = some e → ∀ at_ until_, .armed at_ until_ ∈ since r.log →
    (∃ level, level ≤ e.level ∧ until_ = at_ + cooldownMs level) ∧
      (until_ ≤ now ∨ until_ = e.cooldownUntil)
  cooldown : ∀ e, r.entry = some e → e.cooldownUntil ≠ 0 →
    ∃ at_, .armed at_ e.cooldownUntil ∈ since r.log
  disciplined : Disciplined r.log

variable {r : Record} {now next : ℕ}

theorem sound_init : Sound {} now where
  past := by simp
  few := by decide
  recalls _ _ _ := rfl
  full _ _ := Nat.zero_le _
  ofStretch := List.nil_sublist _
  fresh _ := rfl
  levels := by simp
  cooldown := by simp
  disciplined := ⟨fun _ _ => Nat.zero_le _, .nil, by simp [since], by simp [since]⟩

theorem Sound.later (h : Sound r now) (hle : now ≤ next) : Sound r next where
  past e he := (h.past e he).trans hle
  few := h.few
  recalls from_ hopen := h.recalls from_ ⟨by have := hopen.window; omega, hopen.kept⟩
  full from_ hopen := h.full from_ ⟨by have := hopen.window; omega, hopen.kept⟩
  ofStretch := h.ofStretch
  fresh := h.fresh
  levels e he at_ until_ harmed :=
    ⟨(h.levels e he at_ until_ harmed).1, (h.levels e he at_ until_ harmed).2.imp_left (·.trans hle)⟩
  cooldown := h.cooldown
  disciplined := h.disciplined

theorem startsFrom_append (from_ : ℕ) (log more : List Event) :
    startsFrom from_ (log ++ more) = startsFrom from_ log ++ startsFrom from_ more := by
  rw [startsFrom, starts_append, List.filter_append, startsFrom, startsFrom]

theorem Open.of_concat {from_ : ℕ} (h : Open (log ++ [e]) now from_) : Open log now from_ :=
  ⟨h.window, fun x hx => h.kept x (List.mem_append_left _ hx)⟩

theorem Sound.startsFrom_eq_nil (h : Sound r now) {from_ : ℕ} (hlt : now < from_) :
    startsFrom from_ r.log = [] := by
  refine List.filter_eq_nil_iff.mpr fun t ht => ?_
  obtain ⟨x, hx, hstart⟩ := List.mem_filterMap.mp ht
  have hpast := h.past x hx
  cases x with
  | start at_ =>
    cases hstart
    rw [decide_eq_true_eq]
    exact Nat.not_le.mpr (Nat.lt_of_le_of_lt hpast hlt)
  | _ => cases hstart

/-- An event that is no start leaves the recoveries of every window. -/
theorem window_of_startTime (hstart : e.startTime = none) (h : Disciplined log) (from_ : ℕ)
    (hnone : ∀ x ∈ log ++ [e], inWindow from_ x.time = true → x.resets = false) :
    ((starts (log ++ [e])).filter (inWindow from_)).length ≤ BRAKE_MAX_RECOVERIES := by
  have hstarts : starts (log ++ [e]) = starts log := by
    rw [starts_append, starts, starts, List.filterMap_cons, hstart]
    exact List.append_nil _
  rw [hstarts]
  exact h.window from_ fun x hx => hnone x (List.mem_append_left _ hx)

/-- **The entry is deleted**, by progress or for a path that is missing. -/
theorem clear_sound (h : Sound r now) (hclears : e.clears = true) (htime : e.time = now) :
    Sound ⟨none, r.log ++ [e]⟩ now := by
  have hresets : e.resets = true := by cases e <;> simp_all [Event.clears, Event.resets]
  have hstart : e.startTime = none := by cases e <;> simp_all [Event.clears, Event.startTime]
  have hsince : since (r.log ++ [e]) = [] := by rw [since_concat, hclears, if_pos rfl]
  have hnil : ∀ from_, Open (r.log ++ [e]) now from_ → startsFrom from_ (r.log ++ [e]) = [] := by
    intro from_ hopen
    have hlt : now < from_ := by
      by_contra hge
      have hkept := hopen.kept e (List.mem_append_right _ (List.mem_singleton_self _)) (by omega)
      rw [hresets] at hkept
      cases hkept
    rw [startsFrom_append, h.startsFrom_eq_nil hlt, startsFrom, starts, List.filterMap_cons, hstart]
    rfl
  refine ⟨?_, by simp [Record.attempts, BRAKE_MAX_RECOVERIES], ?_, ?_, ?_, fun _ => hsince, by simp,
    by simp, h.disciplined.clear hclears hstart⟩
  · intro x hx
    obtain hx | hx := List.mem_append.mp hx
    · exact h.past x hx
    · exact (List.mem_singleton.mp hx ▸ htime).le
  · intro from_ hopen _
    rw [hnil from_ hopen]
    rfl
  · intro from_ hopen
    rw [hnil from_ hopen]
    exact Nat.zero_le _
  · exact List.nil_sublist _

theorem braked_sound {b : Brake} (h : Sound r now) (hentry : r.entry = some b)
    (hlt : now < b.cooldownUntil) : Sound ⟨some b, r.log ++ [.braked now]⟩ now := by
  have hsince : since (r.log ++ [.braked now]) = since r.log ++ [.braked now] := by
    rw [since_concat]
    rfl
  have hattempts : Record.attempts ⟨some b, r.log ++ [.braked now]⟩ = r.attempts := by
    rw [Record.attempts, Record.attempts, hentry]
  have hstarts : starts (since r.log ++ [.braked now]) = starts (since r.log) := by
    rw [starts_append]
    exact List.append_nil _
  have harmed : ∀ {at_ until_}, .armed at_ until_ ∈ since r.log ++ [.braked now] →
      .armed at_ until_ ∈ since r.log := by
    intro at_ until_ hmem
    simpa using hmem
  refine ⟨?_, by rw [hattempts]; exact h.few, ?_, ?_, ?_, by simp, ?_, ?_, ?_⟩
  · intro x hx
    obtain hx | hx := List.mem_append.mp hx
    · exact h.past x hx
    · rw [List.mem_singleton.mp hx]
      exact Nat.le_refl now
  · intro from_ _ hcool
    simp only [Record.cooling, Option.any_some, decide_eq_false_iff_not, not_not] at hcool
    omega
  · intro from_ hopen
    rw [startsFrom_append]
    rw [List.length_append]
    exact h.full from_ hopen.of_concat
  · rw [hsince, hstarts, hattempts]
    exact h.ofStretch
  · intro b' hb' at_ until_ hmem
    cases hb'
    rw [hsince] at hmem
    exact h.levels b hentry at_ until_ (harmed hmem)
  · intro b' hb' hne
    cases hb'
    rw [hsince]
    obtain ⟨at_, hmem⟩ := h.cooldown b hentry hne
    exact ⟨at_, List.mem_append_left _ hmem⟩
  · refine h.disciplined.concat rfl (window_of_startTime rfl h.disciplined) ?_ (by simp) ?_
    · intro x _
      cases x <;> trivial
    · intro time htime
      cases htime
      obtain ⟨at_, hmem⟩ := h.cooldown b hentry (by omega)
      exact ⟨at_, _, hmem, hlt⟩

theorem cooled_sound {b : Brake} (h : Sound r now) (hentry : r.entry = some b)
    (hle : b.cooldownUntil ≤ now) :
    Sound ⟨some { b with cooldownUntil := 0, attempts := [] }, r.log ++ [.cooled now]⟩ now := by
  have hsince : since (r.log ++ [.cooled now]) = since r.log ++ [.cooled now] := by
    rw [since_concat]
    rfl
  have hnil : ∀ from_, Open (r.log ++ [.cooled now]) now from_ →
      startsFrom from_ (r.log ++ [.cooled now]) = [] := by
    intro from_ hopen
    have hlt : now < from_ := by
      by_contra hge
      have hkept := hopen.kept (.cooled now) (by simp) (not_lt.mp hge)
      cases hkept
    rw [startsFrom_append, h.startsFrom_eq_nil hlt]
    rfl
  refine ⟨?_, by simp [Record.attempts, BRAKE_MAX_RECOVERIES], ?_, ?_, ?_, by simp, ?_, by simp, ?_⟩
  · intro x hx
    obtain hx | hx := List.mem_append.mp hx
    · exact h.past x hx
    · rw [List.mem_singleton.mp hx]
      exact Nat.le_refl now
  · intro from_ hopen _
    rw [hnil from_ hopen]
    rfl
  · intro from_ hopen
    rw [hnil from_ hopen]
    exact Nat.zero_le _
  · exact List.nil_sublist _
  · intro b' hb' at_ until_ hmem
    cases hb'
    rw [hsince] at hmem
    obtain ⟨hlevel, huntil⟩ := h.levels b hentry at_ until_ (by simpa using hmem)
    refine ⟨hlevel, .inl ?_⟩
    obtain huntil | rfl := huntil
    · exact huntil
    · exact hle
  · refine h.disciplined.concat rfl (window_of_startTime rfl h.disciplined) ?_ (by simp) (by simp)
    intro x _
    cases x <;> trivial

/-! ## An attempt -/

def Record.counted (r : Record) (now : ℕ) : List ℕ := r.attempts.filter (counts now) ++ [now]

theorem counted_filter (r : Record) {from_ : ℕ} (hwindow : now < from_ + BRAKE_WINDOW_MS) :
    (r.counted now).filter (from_ ≤ ·) =
      r.attempts.filter (from_ ≤ ·) ++ [now].filter (from_ ≤ ·) := by
  rw [Record.counted, List.filter_append, List.filter_filter]
  congr 1
  refine List.filter_congr fun t _ => ?_
  rw [counts, Bool.and_eq_left_iff_imp, decide_eq_true_eq, decide_eq_true_eq]
  omega

theorem Sound.elapsed (h : Sound r now) (hcool : r.cooling = false) {at_ until_ : ℕ}
    (hmem : .armed at_ until_ ∈ since r.log) : until_ ≤ now := by
  cases hentry : r.entry with
  | none =>
    rw [h.fresh hentry] at hmem
    cases hmem
  | some b =>
    obtain ⟨⟨level, -, huntil⟩, hle | heq⟩ := h.levels b hentry at_ until_ hmem
    · exact hle
    · rw [Record.cooling, hentry, Option.any_some, decide_eq_false_iff_not, not_not] at hcool
      have := cooldownMs_pos level
      omega

/-- The recoveries of an open window, with the one that is started. -/
theorem startsFrom_start (h : Sound r now) (hcool : r.cooling = false) {from_ : ℕ}
    (hopen : Open (r.log ++ [.start now]) now from_) :
    startsFrom from_ (r.log ++ [.start now]) = (r.counted now).filter (from_ ≤ ·) := by
  rw [startsFrom_append, h.recalls from_ hopen.of_concat hcool, counted_filter r hopen.window]
  rfl

theorem start_disciplined (h : Sound r now) (hcool : r.cooling = false) :
    Disciplined (r.log ++ [.start now]) := by
  refine h.disciplined.concat rfl ?_ ?_ (by simp) (by simp)
  · intro from_ hnone
    by_cases hin : from_ ≤ now ∧ now < from_ + BRAKE_WINDOW_MS
    · -- all that is from `from_` on is in the window
      have hopen : Open (r.log ++ [.start now]) now from_ := by
        refine ⟨hin.2, fun x hx hfrom => hnone x hx ?_⟩
        have hpast : x.time ≤ now := by
          obtain hx | hx := List.mem_append.mp hx
          · exact h.past x hx
          · exact (List.mem_singleton.mp hx ▸ Nat.le_refl now)
        simp only [inWindow, Bool.and_eq_true, decide_eq_true_eq]
        omega
      have hfew := h.few
      calc ((starts (r.log ++ [.start now])).filter (inWindow from_)).length
          ≤ (startsFrom from_ (r.log ++ [.start now])).length := by
            apply List.Sublist.length_le
            apply List.monotone_filter_right
            intro t ht
            exact (Bool.and_eq_true_iff.mp ht).1
        _ = ((r.counted now).filter (from_ ≤ ·)).length := by rw [startsFrom_start h hcool hopen]
        _ ≤ (r.counted now).length := List.length_filter_le _ _
        _ ≤ r.attempts.length + 1 := by
            rw [Record.counted, List.length_append]
            exact Nat.add_le_add_right (List.length_filter_le _ _) 1
        _ ≤ BRAKE_MAX_RECOVERIES := hfew
    · have hout : [now].filter (inWindow from_) = [] := by
        rw [List.filter_eq_nil_iff]
        intro t ht
        rw [List.mem_singleton.mp ht, inWindow, Bool.and_eq_true, decide_eq_true_eq,
          decide_eq_true_eq]
        exact hin
      rw [starts_append, List.filter_append]
      show (_ ++ [now].filter (inWindow from_)).length ≤ _
      rw [hout, List.append_nil]
      exact h.disciplined.window from_ fun x hx => hnone x (List.mem_append_left _ hx)
  · intro x hx
    cases x with
    | armed at_ until_ => exact h.elapsed hcool hx
    | _ => trivial

theorem counted_sublist (h : Sound r now) :
    (r.counted now).Sublist (starts (since (r.log ++ [.start now]))) := by
  rw [since_concat]
  show (r.attempts.filter (counts now) ++ [now]).Sublist (starts (since r.log ++ [.start now]))
  rw [starts_append]
  exact (List.filter_sublist.trans h.ofStretch).append (List.Sublist.refl _)

theorem note_sound (h : Sound r now) (hcool : r.cooling = false) :
    Sound ⟨some (noteRecoveryAttempt now r.entry).1, r.log ++ (noteRecoveryAttempt now r.entry).2⟩
      now := by
  have hattempts : (r.entry.getD {}).attempts = r.attempts := by
    unfold Record.attempts
    cases r.entry <;> rfl
  have hcounted : (r.entry.getD {}).attempts.filter (counts now) ++ [now] = r.counted now := by
    rw [hattempts, Record.counted]
  have hpast : ∀ x ∈ r.log ++ [.start now], x.time ≤ now := by
    intro x hx
    obtain hx | hx := List.mem_append.mp hx
    · exact h.past x hx
    · exact (List.mem_singleton.mp hx ▸ Nat.le_refl now)
  have hsince : since (r.log ++ [.start now]) = since r.log ++ [.start now] := by
    rw [since_concat]
    rfl
  have hlevels : ∀ at_ until_, .armed at_ until_ ∈ since (r.log ++ [.start now]) →
      (∃ level, level ≤ (r.entry.getD {}).level ∧ until_ = at_ + cooldownMs level) ∧
        until_ ≤ now := by
    intro at_ until_ hmem
    rw [hsince] at hmem
    replace hmem : .armed at_ until_ ∈ since r.log := by simpa using hmem
    refine ⟨?_, h.elapsed hcool hmem⟩
    cases hentry : r.entry with
    | none =>
      rw [h.fresh hentry] at hmem
      cases hmem
    | some b => exact (h.levels b hentry at_ until_ hmem).1
  unfold noteRecoveryAttempt
  dsimp only
  rw [hcounted]
  split
  next hfew =>
    refine ⟨hpast, hfew, ?_, ?_, counted_sublist h, by simp, ?_, ?_, start_disciplined h hcool⟩
    · intro from_ hopen _
      exact startsFrom_start h hcool hopen
    · intro from_ hopen
      rw [startsFrom_start h hcool hopen]
      exact (List.length_filter_le _ _).trans hfew.le
    · intro b hb at_ until_ hmem
      cases hb
      exact ⟨(hlevels at_ until_ hmem).1, .inl (hlevels at_ until_ hmem).2⟩
    · intro b hb hne
      cases hb
      exfalso
      unfold Record.cooling at hcool
      cases hentry : r.entry with
      | none => simp [hentry] at hne
      | some b => simp_all
  next hfull =>
    rw [show r.log ++ [.start now, .armed now (now + cooldownMs ((r.entry.getD {}).level + 1))] =
      (r.log ++ [.start now]) ++ [.armed now (now + cooldownMs ((r.entry.getD {}).level + 1))] by simp]
    have hpos := cooldownMs_pos ((r.entry.getD {}).level + 1)
    have hsince' : since ((r.log ++ [.start now]) ++
        [.armed now (now + cooldownMs ((r.entry.getD {}).level + 1))]) =
        since (r.log ++ [.start now]) ++
          [.armed now (now + cooldownMs ((r.entry.getD {}).level + 1))] := by
      rw [since_concat]
      rfl
    refine ⟨?_, by simp [Record.attempts, BRAKE_MAX_RECOVERIES], ?_, ?_, List.nil_sublist _,
      by simp, ?_, ?_, ?_⟩
    · intro x hx
      obtain hx | hx := List.mem_append.mp hx
      · exact hpast x hx
      · exact (List.mem_singleton.mp hx ▸ Nat.le_refl now)
    · intro from_ _ hcooling
      simp only [Record.cooling, Option.any_some, decide_eq_false_iff_not, not_not] at hcooling
      omega
    · intro from_ hopen
      have hfew := h.few
      rw [startsFrom_append, startsFrom_start h hcool hopen.of_concat]
      calc ((r.counted now).filter (from_ ≤ ·) ++ []).length
          ≤ (r.counted now).length := by
            rw [List.append_nil]
            exact List.length_filter_le _ _
        _ ≤ r.attempts.length + 1 := by
            rw [Record.counted, List.length_append]
            exact Nat.add_le_add_right (List.length_filter_le _ _) 1
        _ ≤ BRAKE_MAX_RECOVERIES := hfew
    · intro b hb at_ until_ hmem
      cases hb
      rw [hsince'] at hmem
      obtain hmem | hmem := List.mem_append.mp hmem
      · obtain ⟨⟨level, hlevel, huntil⟩, hle⟩ := hlevels at_ until_ hmem
        exact ⟨⟨level, hlevel.trans (Nat.le_succ _), huntil⟩, .inl hle⟩
      · cases List.mem_singleton.mp hmem
        exact ⟨⟨_, Nat.le_refl _, rfl⟩, .inr rfl⟩
    · intro b hb _
      cases hb
      rw [hsince']
      exact ⟨now, List.mem_append_right _ (List.mem_singleton_self _)⟩
    · refine (start_disciplined h hcool).concat rfl
        (window_of_startTime rfl (start_disciplined h hcool)) ?_ ?_ (by simp)
      · intro x hx
        cases x with
        | armed at_ until_ =>
          obtain ⟨⟨level, hlevel, rfl⟩, -⟩ := hlevels at_ until_ hx
          show at_ + cooldownMs level - at_ ≤ now + cooldownMs _ - now
          rw [Nat.add_sub_cancel_left, Nat.add_sub_cancel_left]
          exact cooldownMs_mono (hlevel.trans (Nat.le_succ _))
        | _ => trivial
      · intro at_ until_ heq
        cases heq
        have hall : (r.counted now).filter (counts now) = r.counted now := by
          rw [List.filter_eq_self]
          intro t ht
          obtain ht | ht := List.mem_append.mp ht
          · exact (List.mem_filter.mp ht).2
          · rw [List.mem_singleton.mp ht]
            simp [counts, BRAKE_WINDOW_MS]
        have hsub := ((counted_sublist h).filter (counts now)).length_le
        rw [hall] at hsub
        exact (not_lt.mp hfull).trans hsub

/-- **An attempt**, braked or not, preserves what the entry knows. -/
theorem attempt_sound (h : Sound r now) : Sound (r.attempt now).2 now := by
  unfold Record.attempt isRecoveryBraked
  cases hentry : r.entry with
  | none =>
    have hnote := note_sound h (by rw [Record.cooling, hentry]; rfl)
    rw [hentry] at hnote
    simpa using hnote
  | some b =>
    dsimp only
    by_cases hzero : b.cooldownUntil = 0
    · have hnote := note_sound h (by rw [Record.cooling, hentry]; simp [hzero])
      rw [hentry] at hnote
      simpa [hzero] using hnote
    · by_cases hlt : now < b.cooldownUntil
      · simpa [hzero, hlt] using braked_sound h hentry hlt
      · -- the cooldown ends, and the attempt is the first one after it
        have hnote := note_sound (cooled_sound h hentry (not_lt.mp hlt)) rfl
        simpa [hzero, hlt] using hnote

end Drac.CameraStream.Watchdog
