import Drac.CameraStream.GatewayEvictions

/-
  What the gateway remembers of an open circuit.

  A run carries `opened`: the circuits a failure opened and until when, less those whose source
  has progressed since. The settings are those of the process, the same at every call.
-/

namespace Drac.CameraStream

open Runs

/-! ## Runs -/

/-- A gateway, its clock and the circuits it has opened. -/
structure CircuitRun where
  gateway : Gateway
  now : ℚ
  /-- The circuits opened and until when, with no progress noted since. -/
  opened : List (SourceKey × ℚ)

def GatewayCall.progresses (c : GatewayCall) : Option SourceKey :=
  match c.op with
  | .noteProgress cameraId profile _ =>
    if c.settings.isEnabled then some (cameraId, normalizeSourceProfile profile) else none
  | _ => none

def GatewayCall.opensUntil (c : GatewayCall) (g : Gateway) : Option (SourceKey × ℚ) :=
  (c.opens g).bind (fun key =>
    (((g.call c).entryAt key).bind (·.circuitOpenUntilMs)).map (fun until_ => (key, until_)))

/-- The gateway, called at times that do not go back. -/
def circuitMachine : Machine CircuitRun GatewayCall where
  init r := r.gateway = {} ∧ r.opened = []
  step r c :=
    if r.now ≤ c.now then
      some ⟨r.gateway.call c, c.now, (c.opensUntil r.gateway).toList ++
        r.opened.filter (fun circuit => c.progresses ≠ some circuit.1)⟩
    else none

/-- The entry given up for a new one is still cooling down. -/
def forgetsCooling (c : GatewayCall) (g : Gateway) : Bool :=
  (c.evicts g).any (fun key => (g.entryAt key).any (·.cooling c.now))

/-- The settings are the process's, and no entry still cooling down is given up. -/
def KeepsCooling (s : Settings) (r : CircuitRun) (c : GatewayCall) : Prop :=
  c.settings = s ∧ forgetsCooling c r.gateway = false

/-- **An open circuit is remembered.** -/
def CircuitRun.Remembers (s : Settings) (r : CircuitRun) : Prop :=
  ∀ cameraId profile until_, ((cameraId, normalizeSourceProfile profile), until_) ∈ r.opened →
    ∀ now, r.now ≤ now → now < until_ → canAttempt s now cameraId profile r.gateway = false

/-! ## What a call does to a circuit -/

/-- An entry's cooldown is one that its settings allow. -/
def SourceEntry.CooldownAllowed (s : Settings) (e : SourceEntry) : Prop :=
  ∀ cooldown, e.circuitCooldownMs = some cooldown → 0 < cooldown ∧ cooldown ≤ s.maxOpenMs

/-- The circuit is open until an instant at least, and no longer than its cooldown from now. -/
def SourceEntry.OpenUntil (now until_ : ℚ) (e : SourceEntry) : Prop :=
  ∃ closing cooldown, e.circuitOpenUntilMs = some closing ∧ e.circuitCooldownMs = some cooldown ∧
    until_ ≤ closing ∧ closing ≤ now + cooldown

section Circuit

variable {s : Settings} {now random until_ : ℚ} {e e' : SourceEntry}

theorem openMs_pos (s : Settings) : 0 < s.openMs := by
  unfold Settings.openMs positive
  split
  · split
    · assumption
    · norm_num
  · norm_num

theorem maxOpenMs_pos (s : Settings) : 0 < s.maxOpenMs :=
  lt_of_lt_of_le (openMs_pos s) (le_max_left _ _)

/-- The cooldown of a circuit that opens: twice the one before, up to the cap. -/
def nextCooldown (s : Settings) (e : SourceEntry) : ℚ :=
  min (match e.circuitCooldownMs with
    | none => s.openMs
    | some cooldown => cooldown * 2) s.maxOpenMs

theorem failed_circuit (s : Settings) (now random : ℚ) (e : SourceEntry) :
    ((failed s now random e).circuitOpenUntilMs = e.circuitOpenUntilMs ∧
        (failed s now random e).circuitCooldownMs = e.circuitCooldownMs ∧
        ¬ s.threshold ≤ e.consecutiveFailures + 1) ∨
      (failed s now random e).circuitOpenUntilMs = some (now + nextCooldown s e) ∧
        (failed s now random e).circuitCooldownMs = some (nextCooldown s e) := by
  simp only [failed]
  split
  · exact .inr ⟨rfl, rfl⟩
  · next hbelow => exact .inl ⟨rfl, rfl, hbelow⟩

theorem nextCooldown_allowed (h : e.CooldownAllowed s) :
    0 < nextCooldown s e ∧ nextCooldown s e ≤ s.maxOpenMs := by
  refine ⟨?_, min_le_right _ _⟩
  unfold nextCooldown
  cases hcooldown : e.circuitCooldownMs with
  | none => exact lt_min (openMs_pos s) (maxOpenMs_pos s)
  | some cooldown =>
    have hpos := (h cooldown hcooldown).1
    exact lt_min (by linarith) (maxOpenMs_pos s)

theorem failed_allowed (h : e.CooldownAllowed s) : (failed s now random e).CooldownAllowed s := by
  intro cooldown hcooldown
  rcases failed_circuit s now random e with ⟨-, hsame, -⟩ | ⟨-, hnext⟩
  · exact h cooldown (hsame ▸ hcooldown)
  · rw [hnext, Option.some_inj] at hcooldown
    rw [← hcooldown]
    exact nextCooldown_allowed h

theorem failed_openUntil (hallowed : e.CooldownAllowed s) {before : ℚ} (hle : before ≤ now)
    (h : e.OpenUntil before until_) : (failed s now random e).OpenUntil now until_ := by
  obtain ⟨closing, cooldown, hclosing, hcooldown, huntil, hwithin⟩ := h
  obtain ⟨hpos, hcap⟩ := hallowed cooldown hcooldown
  rcases failed_circuit s now random e with
    ⟨hsame, hsame', -⟩ | ⟨hopen, hnext⟩
  · exact ⟨closing, cooldown, hsame.trans hclosing, hsame'.trans hcooldown, huntil, by linarith⟩
  · -- opened again, no less long than before
    have hgrows : cooldown ≤ nextCooldown s e := by
      rw [nextCooldown, hcooldown]
      exact le_min (by linarith) hcap
    exact ⟨_, _, hopen, hnext, by linarith, le_refl _⟩

theorem OpenUntil.later {before : ℚ} (hle : before ≤ now) (h : e.OpenUntil before until_) :
    e.OpenUntil now until_ := by
  obtain ⟨closing, cooldown, hclosing, hcooldown, huntil, hwithin⟩ := h
  exact ⟨closing, cooldown, hclosing, hcooldown, huntil, by linarith⟩

theorem OpenUntil.cooling {before : ℚ} (h : e.OpenUntil before until_) (hnow : now < until_) :
    e.cooling now = true := by
  obtain ⟨closing, -, hclosing, -, huntil, -⟩ := h
  rw [SourceEntry.cooling, hclosing]
  exact decide_eq_true (lt_of_lt_of_le hnow huntil)

end Circuit

section Call

variable {s : Settings} {g : Gateway} {c : GatewayCall} {key : SourceKey} {e e' : SourceEntry}

theorem call_circuit (hreg : g.Registered) (hafter : (g.call c).entryAt key = some e') :
    ∃ e, Before c g key e ∧
      ((e'.circuitOpenUntilMs = e.circuitOpenUntilMs ∧ e'.circuitCooldownMs = e.circuitCooldownMs) ∨
        (c.progresses = some key ∧ e'.circuitCooldownMs = none) ∨
        ∃ random, e' = failed c.settings c.now random e) := by
  by_cases hconnecting : ∃ cameraId profile, c.op = .noteConnecting cameraId profile
  · obtain ⟨cameraId, profile, hop⟩ := hconnecting
    have hentry : (noteConnecting c.settings c.now cameraId profile g).entryAt key = some e' := by
      simpa only [Gateway.call, hop] using hafter
    rcases onEntry_entry hentry with hsame | ⟨-, -, e, hbefore, rfl⟩
    · exact ⟨e', .inl hsame, .inl ⟨rfl, rfl⟩⟩
    · exact ⟨e, hbefore, .inl ⟨rfl, rfl⟩⟩
  · obtain ⟨e, hbefore, heffect⟩ := call_entry hreg hafter
    refine ⟨e, hbefore, ?_⟩
    cases heffect with
    | progressed info hattempt =>
      refine .inr (.inl ⟨?_, rfl⟩)
      unfold GatewayCall.attempts at hattempt
      unfold GatewayCall.progresses
      split at hattempt
      · next cameraId profile hop => exact absurd ⟨cameraId, profile, hop⟩ hconnecting
      · next hop =>
        rw [hop]
        exact hattempt
      · cases hattempt
    | failed random => exact .inr (.inr ⟨random, rfl⟩)
    | _ => exact .inl ⟨rfl, rfl⟩

theorem call_allowed (hreg : g.Registered) (hs : c.settings = s)
    (h : ∀ key e, g.entryAt key = some e → e.CooldownAllowed s)
    (hafter : (g.call c).entryAt key = some e') : e'.CooldownAllowed s := by
  obtain ⟨e, hbefore, hcircuit⟩ := call_circuit hreg hafter
  have hallowed : e.CooldownAllowed s := by
    rcases hbefore with hget | ⟨-, rfl⟩
    · exact h key e hget
    · intro cooldown hcooldown
      cases hcooldown
  rcases hcircuit with ⟨-, hsame⟩ | ⟨-, hnone⟩ | ⟨random, rfl⟩
  · intro cooldown hcooldown
    exact hallowed cooldown (hsame ▸ hcooldown)
  · intro cooldown hcooldown
    rw [hnone] at hcooldown
    cases hcooldown
  · rw [hs]
    exact failed_allowed hallowed

theorem opensUntil_openUntil {until_ : ℚ} (h : c.opensUntil g = some (key, until_)) :
    c.settings.isEnabled = true ∧
      ∃ e', (g.call c).entryAt key = some e' ∧ e'.OpenUntil c.now until_ := by
  obtain ⟨key', hopens, hmap⟩ := Option.bind_eq_some_iff.mp h
  obtain ⟨hon, e, random, hthreshold, hget⟩ := opens_failed hopens
  obtain ⟨closing, hclosing, heq⟩ := Option.map_eq_some_iff.mp hmap
  obtain ⟨rfl, rfl⟩ := Prod.mk.inj heq
  rw [hget] at hclosing
  refine ⟨hon, _, hget, ?_⟩
  rcases failed_circuit c.settings c.now random e with ⟨-, -, hbelow⟩ | ⟨hopen, hcooldown⟩
  · exact absurd hthreshold hbelow
  · have hsome : (failed c.settings c.now random e).circuitOpenUntilMs = some closing := hclosing
    rw [hopen, Option.some_inj] at hsome
    exact ⟨_, _, hopen, hcooldown, hsome.ge, le_refl _⟩

theorem call_openUntil {until_ before : ℚ} (hreg : g.Registered)
    (hallowed : ∀ key e, g.entryAt key = some e → e.CooldownAllowed c.settings)
    (hget : g.entryAt key = some e) (hopen : e.OpenUntil before until_) (hle : before ≤ c.now)
    (huntil : c.now < until_) (hprogress : c.progresses ≠ some key)
    (hkept : forgetsCooling c g = false) :
    ∃ e', (g.call c).entryAt key = some e' ∧ e'.OpenUntil c.now until_ := by
  have hcooling : e.cooling c.now = true := OpenUntil.cooling hopen huntil
  cases hafter : (g.call c).entryAt key with
  | none =>
    -- neither a tick nor a new entry may take it
    rcases call_lost hreg hget hafter with ⟨-, htick⟩ | hevict
    · unfold tickEntry at htick
      split at htick
      · cases htick
      · simp [hcooling] at htick
    · simp [forgetsCooling, hevict, hget, hcooling] at hkept
  | some e' =>
    refine ⟨e', rfl, ?_⟩
    obtain ⟨e₀, hbefore, hcircuit⟩ := call_circuit hreg hafter
    have heq : e₀ = e := by
      rcases hbefore with hget' | ⟨hnone, -⟩
      · exact Option.some_inj.mp (hget'.symm.trans hget)
      · rw [hget] at hnone
        cases hnone
    subst heq
    rcases hcircuit with ⟨hsame, hsame'⟩ | ⟨hprogressed, -⟩ | ⟨random, rfl⟩
    · obtain ⟨closing, cooldown, hclosing, hcooldown, hreach, hwithin⟩ := OpenUntil.later hle hopen
      exact ⟨closing, cooldown, hsame.trans hclosing, hsame'.trans hcooldown, hreach, hwithin⟩
    · exact absurd hprogressed hprogress
    · exact failed_openUntil (hallowed key _ hget) hle hopen

end Call

/-! ## Runs that keep what is cooling -/

/-- The circuits opened are in the registry as long as they are open. -/
structure CircuitRun.Kept (s : Settings) (r : CircuitRun) : Prop where
  registered : r.gateway.Registered
  allowed : ∀ key e, r.gateway.entryAt key = some e → e.CooldownAllowed s
  enabled : r.opened ≠ [] → s.isEnabled = true
  held : ∀ key until_, (key, until_) ∈ r.opened → r.now < until_ →
    ∃ e, r.gateway.entryAt key = some e ∧ e.OpenUntil r.now until_

theorem kept_step {s : Settings} {r r' : CircuitRun} {c : GatewayCall} (h : r.Kept s)
    (hguard : KeepsCooling s r c) (hstep : circuitMachine.step r c = some r') : r'.Kept s := by
  obtain ⟨hs, hkept⟩ := hguard
  simp only [circuitMachine] at hstep
  split at hstep
  · next hle =>
    cases hstep
    refine ⟨call_registered h.registered c, ?_, ?_, ?_⟩
    · intro key e hget
      exact call_allowed h.registered hs h.allowed hget
    · intro hsome
      cases hnew : c.opensUntil r.gateway with
      | none =>
        refine h.enabled (fun hnone => ?_)
        simp [hnew, hnone] at hsome
      | some circuit =>
        have hopened : c.opensUntil r.gateway = some (circuit.1, circuit.2) := hnew
        rw [← hs]
        exact (opensUntil_openUntil hopened).1
    · intro key until_ hmem huntil
      rcases List.mem_append.mp hmem with hnew | hold
      · exact (opensUntil_openUntil (Option.mem_toList.mp hnew)).2
      · obtain ⟨hold, hprogress⟩ := List.mem_filter.mp hold
        obtain ⟨e, hget, hopen⟩ := h.held key until_ hold (lt_of_le_of_lt hle huntil)
        exact call_openUntil h.registered (hs ▸ h.allowed) hget hopen hle huntil
          (by simpa using hprogress) hkept
  · cases hstep

theorem circuit_registered {G : CircuitRun → GatewayCall → Prop} {r : CircuitRun}
    (h : Reach circuitMachine G r) : r.gateway.Registered := by
  refine h.invariant (I := fun r => r.gateway.Registered) ?_ ?_
  · rintro r ⟨hg, -⟩
    rw [hg]
    exact ⟨by simp [JsMap.keys], by simp [Gateway.entryAt, JsMap.get?],
      by simp [Gateway.entryAt, JsMap.get?]⟩
  · intro r c r' hreg _ hstep
    simp only [circuitMachine] at hstep
    split at hstep
    · cases hstep
      exact call_registered hreg c
    · cases hstep

theorem run_kept {s : Settings} {r : CircuitRun} (h : Reach circuitMachine (KeepsCooling s) r) :
    r.Kept s := by
  refine h.invariant (I := CircuitRun.Kept s) ?_ (fun r c r' hr hg hs => kept_step hr hg hs)
  rintro r ⟨hg, ho⟩
  refine ⟨?_, ?_, ?_, ?_⟩
  · rw [hg]
    exact ⟨by simp [JsMap.keys], by simp [Gateway.entryAt, JsMap.get?],
      by simp [Gateway.entryAt, JsMap.get?]⟩
  · simp [hg, Gateway.entryAt, JsMap.get?]
  · exact fun hsome => absurd ho hsome
  · simp [ho]

/-- **An open circuit is remembered** in every run, under settings that stay, that gives up no
entry still cooling down. -/
theorem circuit_remembered (s : Settings) {r : CircuitRun}
    (h : Reach circuitMachine (KeepsCooling s) r) : r.Remembers s := by
  intro cameraId profile until_ hmem now hle hlt
  have hkept := run_kept h
  obtain ⟨e, hget, hopen⟩ := hkept.held _ _ hmem (lt_of_le_of_lt hle hlt)
  have hcooling : e.cooling now = true := OpenUntil.cooling hopen hlt
  have hon := hkept.enabled (List.ne_nil_of_mem hmem)
  simp [canAttempt, hon, hget, hcooling]

/-! ## A full registry -/

deriving instance DecidableEq for Settings

def gatewayOn : Settings := { enabled := some "true" }

def yardKey : SourceKey := ("yard", .main)

def yardFails : List GatewayCall :=
  calls (List.replicate 5 (0, GatewayOp.noteFailure "yard" none (1 / 2)))

def quietStart : CircuitRun := ⟨{}, 0, []⟩

def remembering : CircuitRun → GatewayCall → Bool :=
  fun r c => decide (c.settings = gatewayOn) && !forgetsCooling c r.gateway

theorem circuit_remembered_yard : ∃ r,
    circuitMachine.run remembering quietStart yardFails = some r ∧
      r.opened = [(yardKey, 60000)] ∧ r.Remembers gatewayOn := by
  have hrun : (circuitMachine.run remembering quietStart yardFails).map (·.opened) =
      some [(yardKey, 60000)] := by decide +kernel
  obtain ⟨r, hr, hopened⟩ := Option.map_eq_some_iff.mp hrun
  have hguard : ∀ r c, remembering r c = true → KeepsCooling gatewayOn r c :=
    fun r c h => by simpa [remembering, KeepsCooling] using h
  have hreach : Reach circuitMachine (KeepsCooling gatewayOn) r :=
    ⟨quietStart, ⟨rfl, rfl⟩, path_of_run hguard _ hr⟩
  exact ⟨r, hr, hopened, circuit_remembered gatewayOn hreach⟩

def filler (n : Nat) : String := String.ofList (List.replicate n 'c')

theorem filler_inj {m n : Nat} (h : filler m = filler n) : m = n := by
  have hlist := congrArg String.toList h
  simpa [filler] using congrArg List.length hlist

theorem filler_ne_yard (n : Nat) : filler n ≠ "yard" := by
  intro h
  have hlist := congrArg String.toList h
  simp only [filler, String.toList_ofList] at hlist
  have hy : 'y' ∈ List.replicate n 'c' := by
    rw [hlist]
    decide
  exact absurd (List.eq_of_mem_replicate hy) (by decide)

def connectFiller (n : Nat) : GatewayCall := ⟨gatewayOn, 1, .noteConnecting (filler n) none⟩

/-- The yard's circuit is open, and `n` other cameras are connecting since. -/
structure Crowded (n : Nat) (r : CircuitRun) : Prop where
  now : r.now ≤ 1
  registered : r.gateway.Registered
  length : r.gateway.entries.length = n + 1
  yard : ∃ e, r.gateway.entryAt yardKey = some e ∧ e.consumers = [] ∧ e.touchedAtMs = 0
  others : ∀ key e, r.gateway.entryAt key = some e →
    key = yardKey ∨ e.touchedAtMs = 1 ∧ ∃ i < n, key = (filler i, .main)
  opened : (yardKey, 60000) ∈ r.opened

theorem gatewayOn_isEnabled : gatewayOn.isEnabled = true := by decide +kernel

theorem mainByDefault : normalizeSourceProfile none = .main := by decide +kernel

theorem Crowded.absent {n : Nat} {r : CircuitRun} (h : Crowded n r) :
    r.gateway.entryAt (filler n, .main) = none := by
  cases hget : r.gateway.entryAt (filler n, .main) with
  | none => rfl
  | some e =>
    rcases h.others _ e hget with hyard | ⟨-, i, hi, heq⟩
    · exact absurd (Prod.mk.inj hyard).1 (filler_ne_yard n)
    · have hsame := filler_inj (Prod.mk.inj heq).1
      omega

theorem connectFiller_entryAt {n : Nat} {g : Gateway} (key : SourceKey)
    (habsent : g.entryAt (filler n, .main) = none)
    (hroom : g.entries.length < maxTrackedSources ∨ (oldestIdle g.entries).isSome) :
    (g.call (connectFiller n)).entryAt key =
      if key = (filler n, .main) then
        some { newEntry (filler n) .main 1 with state := .connecting, touchedAtMs := 1 }
      else if evictedFor g (filler n, .main) = some key then none else g.entryAt key := by
  obtain ⟨g', hens⟩ : ∃ g', ensureEntry 1 (filler n) .main g =
      some (g', newEntry (filler n) .main 1) := by
    rw [ensureEntry, habsent]
    simp only
    split
    · exact ⟨_, rfl⟩
    · next hfull =>
      obtain ⟨oldest, hold⟩ := Option.isSome_iff_exists.mp (hroom.resolve_left hfull)
      rw [hold]
      exact ⟨_, rfl⟩
  rw [← mainByDefault] at hens
  have hnoted : (onEntry gatewayOn 1 (filler n) none
      (fun e => { e with state := .connecting, touchedAtMs := 1 }) g).entryAt key = _ :=
    onEntry_entryAt gatewayOn_isEnabled hens key
  rw [mainByDefault] at hnoted
  exact hnoted

theorem connectFiller_length {n : Nat} {g : Gateway} (habsent : g.entryAt (filler n, .main) = none)
    (hroom : g.entries.length < maxTrackedSources) :
    (g.call (connectFiller n)).entries.length = g.entries.length + 1 := by
  have hens : ensureEntry 1 (filler n) (normalizeSourceProfile none) g =
      some (g.setEntry (filler n, .main) (newEntry (filler n) .main 1),
        newEntry (filler n) .main 1) := by
    rw [mainByDefault, ensureEntry, habsent]
    exact if_pos hroom
  have hset := JsMap.length_set_of_get?_none habsent (newEntry (filler n) .main 1)
  simp only [Gateway.call, connectFiller, noteConnecting, onEntry, hens, gatewayOn_isEnabled]
  rw [if_neg (by decide), mainByDefault, ← hset]
  exact JsMap.length_set_of_get? ((JsMap.get?_set _ _ _ _).trans (if_pos rfl)) _

/-- The step of a camera that connects: while there is room, one more. -/
theorem crowded_step {n : Nat} {r : CircuitRun} (h : Crowded n r)
    (hroom : n + 1 < maxTrackedSources) :
    ∃ r', circuitMachine.step r (connectFiller n) = some r' ∧ Crowded (n + 1) r' := by
  refine ⟨_, if_pos h.now, ?_⟩
  have hlength : r.gateway.entries.length < maxTrackedSources := by
    rw [h.length]
    exact hroom
  have hentry := fun key => connectFiller_entryAt key h.absent (.inl hlength)
  have hnobody : evictedFor r.gateway (filler n, .main) = none := by
    simp [evictedFor, hlength]
  refine ⟨le_refl _, call_registered h.registered (connectFiller n), ?_, ?_, ?_, ?_⟩
  · show (r.gateway.call (connectFiller n)).entries.length = n + 1 + 1
    rw [connectFiller_length h.absent hlength, h.length]
  · obtain ⟨e, hget, hidle, htouched⟩ := h.yard
    refine ⟨e, ?_, hidle, htouched⟩
    show (r.gateway.call (connectFiller n)).entryAt yardKey = some e
    have hne : yardKey ≠ (filler n, .main) :=
      fun heq => filler_ne_yard n (Prod.mk.inj heq).1.symm
    rw [hentry, if_neg hne, hnobody, hget]
    rfl
  · intro key e hget
    have hget' : (r.gateway.call (connectFiller n)).entryAt key = some e := hget
    rw [hentry, hnobody] at hget'
    split at hget'
    · next heq =>
      cases hget'
      exact .inr ⟨rfl, n, by omega, heq⟩
    · rcases h.others key e (by simpa using hget') with hyard | ⟨htouched, i, hi, heq⟩
      · exact .inl hyard
      · exact .inr ⟨htouched, i, by omega, heq⟩
  · refine List.mem_append_right _ (List.mem_filter.mpr ⟨h.opened, ?_⟩)
    rfl

/-- The cameras connect one after another, under the same settings. -/
theorem crowded_reach {n : Nat} (h : n + 1 ≤ maxTrackedSources) :
    ∃ r, Reach circuitMachine (fun _ c => c.settings = gatewayOn) r ∧ Crowded n r := by
  induction n with
  | zero =>
    have hrun : (circuitMachine.run (fun _ c => c.settings = gatewayOn) quietStart yardFails).any
        (fun r => r.now = 0 && r.opened = [(yardKey, 60000)] && r.gateway.entries.map
          (fun entry => (entry.1, entry.2.consumers, entry.2.touchedAtMs)) = [(yardKey, [], 0)]) =
        true := by decide +kernel
    obtain ⟨r, hreach, hseen⟩ := reach_of_any (G := fun _ c => c.settings = gatewayOn) hrun
      ⟨rfl, rfl⟩ (fun _ _ h => by simpa using h)
    refine ⟨r, hreach, ?_⟩
    simp only [Bool.and_eq_true, decide_eq_true_eq] at hseen
    obtain ⟨⟨hnow, hopened⟩, hentries⟩ := hseen
    obtain ⟨⟨key, e⟩, hlist, hyard⟩ := List.map_eq_singleton_iff.mp hentries
    simp only [Prod.mk.injEq] at hyard
    obtain ⟨rfl, hidle, htouched⟩ := hyard
    refine ⟨?_, circuit_registered hreach, ?_, ⟨e, ?_, hidle, htouched⟩, ?_, ?_⟩
    · rw [hnow]
      norm_num
    · rw [hlist]
      rfl
    · rw [Gateway.entryAt, hlist]
      simp [JsMap.get?]
    · intro key e' hget
      have hmem := JsMap.get?_mem hget
      rw [hlist] at hmem
      exact .inl (Prod.mk.inj (List.mem_singleton.mp hmem)).1
    · rw [hopened]
      exact List.mem_singleton_self _
  | succ n ih =>
    obtain ⟨r, hreach, hcrowded⟩ := ih (by omega)
    obtain ⟨r', hstep, hcrowded'⟩ := crowded_step hcrowded h
    obtain ⟨s, hinit, hpath⟩ := hreach
    exact ⟨r', ⟨s, hinit, .tail hpath rfl hstep⟩, hcrowded'⟩

/-- A full registry gives up the yard's open circuit, and its source may be tried at once. -/
theorem circuit_forgotten : ¬ ∀ s r, Reach circuitMachine (fun _ c => c.settings = s) r →
    r.Remembers s := by
  intro hall
  obtain ⟨r, hreach, hcrowded⟩ := crowded_reach (n := 1999) (by decide)
  obtain ⟨yard, hget, hidle, htouched⟩ := hcrowded.yard
  have hlost : (r.gateway.call (connectFiller 1999)).entryAt yardKey = none := by
    have hold : oldestIdle r.gateway.entries = some yardKey := by
      refine oldestIdle_of_least hidle (JsMap.get?_mem hget) ?_
      intro entry hmem
      have hentry : r.gateway.entryAt entry.1 = some entry.2 :=
        JsMap.mem_get? hcrowded.registered.nodup hmem
      rcases hcrowded.others _ _ hentry with heq | ⟨hlater, -⟩
      · rw [heq, hget] at hentry
        exact .inl (Prod.ext heq (Option.some.inj hentry).symm)
      · rw [htouched, hlater]
        exact .inr (by norm_num)
    have hfull : ¬ r.gateway.entries.length < maxTrackedSources := by
      rw [hcrowded.length]
      decide
    have hne : yardKey ≠ (filler 1999, .main) :=
      fun heq => filler_ne_yard 1999 (Prod.mk.inj heq).1.symm
    rw [connectFiller_entryAt yardKey hcrowded.absent (.inr (by rw [hold]; rfl)), if_neg hne, if_pos]
    simp [evictedFor, hcrowded.absent, hfull, hold]
  obtain ⟨s, hinit, hpath⟩ := hreach
  have hstep : circuitMachine.step r (connectFiller 1999) = some _ := if_pos hcrowded.now
  have hremembers := hall gatewayOn _ ⟨s, hinit, hpath.tail rfl hstep⟩
  have hopened : (yardKey, (60000 : ℚ)) ∈
      ((connectFiller 1999).opensUntil r.gateway).toList ++
        r.opened.filter (fun circuit => (connectFiller 1999).progresses ≠ some circuit.1) :=
    List.mem_append_right _ (List.mem_filter.mpr ⟨hcrowded.opened, rfl⟩)
  have hclosed := hremembers "yard" none 60000 (by rw [mainByDefault]; exact hopened) 1 (le_refl _)
    (by norm_num)
  have hforgot : canAttempt gatewayOn 1 "yard" none (r.gateway.call (connectFiller 1999)) = true := by
    have hnone : (r.gateway.call (connectFiller 1999)).entryAt ("yard", .main) = none := hlost
    simp [canAttempt, mainByDefault, hnone]
  rw [hforgot] at hclosed
  cases hclosed

end Drac.CameraStream
