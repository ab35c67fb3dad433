import Drac.Lib.Runs

/-
  The registry of the loaded detectors, one per mode, shared by threads.

  Correspondence (`model_registry.py` ↔ Lean):
    ensure_detector   ↔ `advance`, from one access of the shared dictionaries to the next
    reset             ↔ the label `reset`

  A section under the lock is one step. A load is numbered, and names its event and the
  detector it makes: a label ends it well or badly, and a wait ends when its event is set or at
  its timeout. A call has the key of its mode. What the detectors do when they are closed is
  left out, and `last_error`, which no call reads. `keyOf`, `began`, `failed` and `resets` only
  record what has happened.
-/

namespace Drac.Vision.ModelRegistry

open Runs

/-- What a call may raise. -/
inductive Raised where
  | keyError
  /-- What its own load raised. -/
  | ownLoad (load : ℕ)
  /-- `falhou ao carregar no thread anterior`. -/
  | afterWait (load : ℕ) (timedOut : Bool)
  deriving DecidableEq

/-- Where in `get` a call is. -/
inductive Place where
  | start
  /-- At `return self._cache[key]`, outside of the lock. -/
  | hit
  | entering
  /-- At `self._loading[key]`. -/
  | lookup
  | waiting (load : ℕ)
  /-- At `self._cache.get(key)`. -/
  | woken (load : ℕ) (timedOut : Bool)
  | loading (load : ℕ)
  /-- At `self._cache[key] = det`. -/
  | storing (load : ℕ)
  | finishing (load : ℕ) (ok : Bool)
  /-- At `event.set()`, with the event it took out. -/
  | notifying (event : Option ℕ) (load : ℕ) (ok : Bool)
  /-- With the number of resets then. -/
  | returned (load : ℕ) (resets : ℕ)
  | raised (error : Raised)
  deriving DecidableEq

structure Call where
  key : String
  place : Place
  deriving DecidableEq

/-- The cache, the loads and the calls. -/
structure Registry where
  cache : String → Option ℕ := fun _ => none
  /-- `_loading`: the event a mode is waited for with. -/
  loads : String → Option ℕ := fun _ => none
  fired : ℕ → Bool := fun _ => false
  next : ℕ := 0
  calls : List Call := []
  resets : ℕ := 0
  keyOf : ℕ → String := fun _ => ""
  began : ℕ → ℕ := fun _ => 0
  failed : ℕ → Bool := fun _ => false

def Registry.put (s : Registry) (i : ℕ) (c : Call) (place : Place) : Registry :=
  { s with calls := s.calls.set i { c with place } }

inductive Label where
  | call (key : String)
  | move (i : ℕ)
  | fail (i : ℕ)
  | timeout (i : ℕ)
  | reset

def advance (s : Registry) (i : ℕ) (c : Call) : Option Registry :=
  match c.place with
  | .start => some (s.put i c (if s.cache c.key = none then .entering else .hit))
  | .hit =>
    some (s.put i c (match s.cache c.key with
      | some load => .returned load s.resets
      | none => .raised .keyError))
  | .entering =>
    match s.cache c.key, s.loads c.key with
    | some load, _ => some (s.put i c (.returned load s.resets))
    | none, some _ => some (s.put i c .lookup)
    | none, none =>
      some { s.put i c (.loading s.next) with
        loads := Function.update s.loads c.key (some s.next)
        next := s.next + 1
        keyOf := Function.update s.keyOf s.next c.key
        began := Function.update s.began s.next s.resets }
  | .lookup =>
    some (s.put i c (match s.loads c.key with
      | some load => .waiting load
      | none => .raised .keyError))
  | .waiting load => if s.fired load then some (s.put i c (.woken load false)) else none
  | .woken load timedOut =>
    some (s.put i c (match s.cache c.key with
      | some det => .returned det s.resets
      | none => .raised (.afterWait load timedOut)))
  | .loading load => some (s.put i c (.storing load))
  | .storing load =>
    some { s.put i c (.finishing load true) with
      cache := Function.update s.cache c.key (some load) }
  | .finishing load ok =>
    some { s.put i c (.notifying (s.loads c.key) load ok) with
      loads := Function.update s.loads c.key none }
  | .notifying event load ok =>
    some { s.put i c (if ok then .returned load s.resets else .raised (.ownLoad load)) with
      fired := fun e => s.fired e || event = some e }
  | .returned .. | .raised .. => none

def step (s : Registry) : Label → Option Registry
  | .call key => some { s with calls := s.calls ++ [⟨key, .start⟩] }
  | .move i => s.calls[i]?.bind (advance s i)
  | .fail i => s.calls[i]?.bind fun c => match c.place with
    | .loading load =>
      some { s.put i c (.finishing load false) with failed := Function.update s.failed load true }
    | _ => none
  | .timeout i => s.calls[i]?.bind fun c => match c.place with
    | .waiting load => some (s.put i c (.woken load true))
    | _ => none
  | .reset => some { s with cache := fun _ => none, loads := fun _ => none, resets := s.resets + 1 }

/-- Nothing loaded and nobody asking. -/
def machine : Machine Registry Label where
  init s := s = {}
  step := step

/-! ## What is promised -/

/-- Why a call may raise. -/
def Excused (failed : ℕ → Bool) : Raised → Prop
  | .keyError => False
  | .ownLoad load => failed load
  | .afterWait load timedOut => timedOut ∨ failed load

def Call.IsLoading (c : Call) : Prop := ∃ load, c.place = .loading load

/-- What is promised of the registry. -/
structure Promises (s : Registry) : Prop where
  one_load : ∀ (i j : ℕ) c d, s.calls[i]? = some c → s.calls[j]? = some d →
    c.IsLoading → d.IsLoading → c.key = d.key → i = j
  same_detector : ∀ c ∈ s.calls, ∀ d ∈ s.calls, ∀ a b resets, c.key = d.key →
    c.place = .returned a resets → d.place = .returned b resets → a = b
  excused : ∀ c ∈ s.calls, ∀ error, c.place = .raised error → Excused s.failed error
  fresh : ∀ key load, s.cache key = some load → s.began load = s.resets

/-- Not between its first look into the dictionaries and its end. -/
def Call.Idle (c : Call) : Prop :=
  match c.place with
  | .start | .entering | .returned .. | .raised .. => True
  | _ => False

def Call.Finishing (c : Call) : Prop :=
  match c.place with
  | .finishing .. => True
  | _ => False

/-- No reset while a call is under way, and no load ends before those told to wait for it have
looked it up. -/
def Guard (s : Registry) : Label → Prop
  | .reset => ∀ c ∈ s.calls, c.Idle
  | .move i => ∀ c ∈ s.calls[i]?, c.Finishing → ∀ d ∈ s.calls, d.key = c.key → d.place ≠ .lookup
  | _ => True

/-! ## The invariant -/

/-- The load a call has under its mode. -/
def Place.active : Place → Option ℕ
  | .loading load | .storing load | .finishing load _ => some load
  | _ => none

/-- No mode is waited for with the load. -/
def Out (loads : String → Option ℕ) (load : ℕ) : Prop := ∀ key, loads key ≠ some load

/-- What holds of a call where it stands. -/
def Fits (s : Registry) (key : String) : Place → Prop
  | .start | .entering => True
  | .hit => s.cache key ≠ none
  | .lookup => s.loads key ≠ none
  | .waiting load => s.keyOf load = key ∧ load < s.next ∧
    (s.fired load → s.failed load ∨ s.cache key ≠ none)
  | .woken load timedOut => timedOut ∨ s.failed load ∨ s.cache key ≠ none
  | .loading load | .storing load => s.loads key = some load ∧ s.cache key = none
  | .finishing load ok => s.loads key = some load ∧
    if ok then s.cache key = some load else s.failed load
  | .notifying event load ok => event = some load ∧ s.keyOf load = key ∧ load < s.next ∧
    Out s.loads load ∧ if ok then s.cache key = some load else s.failed load
  | .returned load resets => resets ≤ s.resets ∧ (resets = s.resets → s.cache key = some load)
  | .raised error => Excused s.failed error

/-- Each call's place fits the registry, and each load has one owner. -/
structure Sound (s : Registry) : Prop where
  fits : ∀ (i : ℕ) c, s.calls[i]? = some c → Fits s c.key c.place
  owner : ∀ (i j : ℕ) c d load, s.calls[i]? = some c → s.calls[j]? = some d →
    c.place.active = some load → d.place.active = some load → i = j
  loads : ∀ key load, s.loads key = some load →
    s.keyOf load = key ∧ load < s.next ∧ s.began load = s.resets ∧ s.fired load = false
  cache : ∀ key load, s.cache key = some load → load < s.next ∧ s.began load = s.resets
  fired : ∀ load, s.fired load → load < s.next
  same : ∀ (i j : ℕ) c d a b resets, s.calls[i]? = some c → s.calls[j]? = some d →
    c.key = d.key → c.place = .returned a resets → d.place = .returned b resets → a = b

/-! ## One step -/

section Step

variable {s t : Registry} {i : ℕ} {c : Call} {p : Place}

theorem Fits.active {key : String} {load : ℕ} (h : Fits s key p) (hp : p.active = some load) :
    s.loads key = some load := by
  cases p <;> simp only [Place.active, reduceCtorEq, Option.some.injEq] at hp <;>
    exact hp ▸ h.1

theorem Out.update {loads : String → Option ℕ} {load : ℕ} (h : Out loads load) (key : String)
    {event : Option ℕ} (hne : event ≠ some load) : Out (Function.update loads key event) load := by
  intro k
  rw [Function.update_apply]
  split_ifs
  · exact hne
  · exact h k

theorem Sound.move (h : Sound s) (hi : s.calls[i]? = some c)
    (hcalls : t.calls = s.calls.set i { c with place := p }) (hresets : t.resets = s.resets)
    (hkeep : ∀ (j : ℕ) d, j ≠ i → s.calls[j]? = some d → Fits t d.key d.place)
    (hnew : Fits t c.key p)
    (hactive : ∀ load, p.active = some load → c.place.active = some load ∨ s.next ≤ load)
    (hloads : ∀ key load, t.loads key = some load →
      t.keyOf load = key ∧ load < t.next ∧ t.began load = t.resets ∧ t.fired load = false)
    (hcache : ∀ key load, t.cache key = some load → load < t.next ∧ t.began load = t.resets)
    (hfired : ∀ load, t.fired load → load < t.next)
    (hreturn : ∀ load resets, p = .returned load resets → resets = s.resets) : Sound t := by
  have hfits : ∀ (j : ℕ) d, t.calls[j]? = some d → Fits t d.key d.place := by
    intro j d hj
    rw [hcalls] at hj
    rcases getElem?_set_some hj with ⟨-, rfl⟩ | ⟨hne, hj⟩
    · exact hnew
    · exact hkeep j d hne hj
  -- a call that was active before has a number below the next one
  have hold : ∀ (j : ℕ) d load, s.calls[j]? = some d → d.place.active = some load →
      load < s.next := fun j d load hj hd => (h.loads _ _ ((h.fits j d hj).active hd)).2.1
  have hdiffer : ∀ (j : ℕ) d load, j ≠ i → s.calls[j]? = some d → d.place.active = some load →
      p.active ≠ some load := by
    intro j d load hne hj hd hp
    rcases hactive load hp with hc | hnext
    · exact hne (h.owner j i d c load hj hi hd hc)
    · exact absurd (hold j d load hj hd) (by omega)
  refine ⟨hfits, ?_, hloads, hcache, hfired, ?_⟩
  · intro j k d e load hj hk hd he
    rw [hcalls] at hj hk
    rcases getElem?_set_some hj with ⟨hji, rfl⟩ | ⟨hji, hj'⟩ <;>
      rcases getElem?_set_some hk with ⟨hki, rfl⟩ | ⟨hki, hk'⟩
    · exact hji.trans hki.symm
    · exact absurd hd (hdiffer k e load hki hk' he)
    · exact absurd he (hdiffer j d load hji hj' hd)
    · exact h.owner j k d e load hj' hk' hd he
  · intro j k d e a b resets hj hk hkey hd he
    have hfitd := hfits j d hj
    have hfite := hfits k e hk
    rw [hd] at hfitd
    rw [he] at hfite
    by_cases hnow : resets = t.resets
    · -- both are what is in the cache
      have hboth := (hfitd.2 hnow).symm.trans (hkey ▸ hfite.2 hnow)
      exact Option.some.inj hboth
    · rw [hcalls] at hj hk
      rcases getElem?_set_some hj with ⟨-, rfl⟩ | ⟨-, hj⟩
      · exact absurd ((hreturn a resets hd).trans hresets.symm) hnow
      rcases getElem?_set_some hk with ⟨-, rfl⟩ | ⟨-, hk⟩
      · exact absurd ((hreturn b resets he).trans hresets.symm) hnow
      exact h.same j k d e a b resets hj hk hkey hd he

theorem Sound.put (h : Sound s) (hi : s.calls[i]? = some c) (hnew : Fits s c.key p)
    (hactive : ∀ load, p.active = some load → c.place.active = some load)
    (hreturn : ∀ load resets, p = .returned load resets → resets = s.resets) :
    Sound (s.put i c p) :=
  h.move hi rfl rfl (fun j d _ hj => h.fits j d hj) hnew (fun load hp => .inl (hactive load hp))
    h.loads h.cache h.fired hreturn

theorem Sound.newLoad (h : Sound s) (hi : s.calls[i]? = some c) (hcache : s.cache c.key = none)
    (hloads : s.loads c.key = none) :
    Sound { s.put i c (.loading s.next) with
      loads := Function.update s.loads c.key (some s.next)
      next := s.next + 1
      keyOf := Function.update s.keyOf s.next c.key
      began := Function.update s.began s.next s.resets } := by
  refine h.move hi rfl rfl ?_ ⟨by simp, hcache⟩
    (fun load hp => .inr (Nat.le_of_eq (Option.some.inj hp))) ?_ ?_
    (fun load hload => Nat.lt_succ_of_lt (h.fired load hload)) (by simp)
  · intro j d _ hj
    have hfit := h.fits j d hj
    cases hplace : d.place <;> rw [hplace] at hfit <;>
      grind [Fits, Registry.put, Function.update_apply, h.loads, Out.update]
  · intro key load hload
    have hold := h.loads key load
    have hunfired := h.fired s.next
    grind [Registry.put, Function.update_apply]
  · intro key load hload
    have hold := h.cache key load hload
    grind [Registry.put, Function.update_apply]

theorem Sound.store (h : Sound s) (hi : s.calls[i]? = some c) {load : ℕ}
    (hplace : c.place = .storing load) :
    Sound { s.put i c (.finishing load true) with
      cache := Function.update s.cache c.key (some load) } := by
  have hc := h.fits i c hi
  rw [hplace] at hc
  have hnone : s.cache c.key = none := hc.2
  refine h.move hi rfl rfl ?_ ⟨hc.1, by simp⟩ (fun l hp => .inl (by rw [hplace]; exact hp))
    h.loads ?_ h.fired (by simp)
  · intro j d hne hj
    have hfit := h.fits j d hj
    have howner := fun l hd hcl => hne (h.owner j i d c l hj hi hd hcl)
    cases hd : d.place <;> rw [hd] at hfit howner <;>
      grind [Fits, Registry.put, Function.update_apply, Place.active]
  · intro key l hl
    have hold := h.cache key l
    have hload := h.loads c.key load hc.1
    grind [Registry.put, Function.update_apply]

theorem Sound.pop (h : Sound s) (hi : s.calls[i]? = some c) {load : ℕ} {ok : Bool}
    (hplace : c.place = .finishing load ok)
    (hlookup : ∀ d ∈ s.calls, d.key = c.key → d.place ≠ .lookup) :
    Sound { s.put i c (.notifying (s.loads c.key) load ok) with
      loads := Function.update s.loads c.key none } := by
  have hc := h.fits i c hi
  rw [hplace] at hc
  have hload := h.loads c.key load hc.1
  refine h.move hi rfl rfl ?_ ⟨hc.1, hload.1, hload.2.1, ?_, hc.2⟩ (by simp [Place.active]) ?_
    h.cache h.fired (by simp)
  · intro j d hne hj
    have hfit := h.fits j d hj
    have howner := fun l hd hcl => hne (h.owner j i d c l hj hi hd hcl)
    have hnot := hlookup d (List.mem_of_getElem? hj)
    cases hd : d.place <;> rw [hd] at hfit howner hnot <;>
      grind [Fits, Registry.put, Function.update_apply, Place.active, Out.update]
  · intro k hk
    have hother := h.loads k load
    grind [Registry.put, Function.update_apply]
  · intro key l hl
    have hold := h.loads key l
    grind [Registry.put, Function.update_apply]

theorem Sound.notify (h : Sound s) (hi : s.calls[i]? = some c) {event : Option ℕ} {load : ℕ}
    {ok : Bool} (hplace : c.place = .notifying event load ok) :
    Sound { s.put i c (if ok then .returned load s.resets else .raised (.ownLoad load)) with
      fired := fun e => s.fired e || event = some e } := by
  have hc := h.fits i c hi
  rw [hplace] at hc
  obtain ⟨rfl, hkey, hnext, hout, hok⟩ := hc
  refine h.move hi rfl rfl ?_ ?_ (by cases ok <;> simp [Place.active]) ?_ h.cache ?_ ?_
  · intro j d _ hj
    have hfit := h.fits j d hj
    cases hd : d.place <;> rw [hd] at hfit <;> grind [Fits, Registry.put]
  · cases ok <;> grind [Fits, Registry.put, Excused]
  · intro key l hl
    have hold := h.loads key l hl
    have hne : l ≠ load := fun heq => hout key (heq ▸ hl)
    grind [Registry.put]
  · intro l hl
    have hold := h.fired l
    grind [Registry.put]
  · cases ok <;> grind

theorem Sound.fail (h : Sound s) (hi : s.calls[i]? = some c) {load : ℕ}
    (hplace : c.place = .loading load) :
    Sound { s.put i c (.finishing load false) with
      failed := Function.update s.failed load true } := by
  have hc := h.fits i c hi
  rw [hplace] at hc
  refine h.move hi rfl rfl ?_ ⟨hc.1, by simp⟩ (fun l hp => .inl (by rw [hplace]; exact hp))
    h.loads h.cache h.fired (by simp)
  intro j d _ hj
  have hfit := h.fits j d hj
  cases hd : d.place <;> rw [hd] at hfit
  case raised error =>
    cases error <;> grind [Fits, Registry.put, Function.update_apply, Excused]
  all_goals grind [Fits, Registry.put, Function.update_apply]

end Step

/-! ## Runs -/

theorem Sound.advance {s t : Registry} {i : ℕ} {c : Call} (h : Sound s) (hi : s.calls[i]? = some c)
    (hguard : Guard s (.move i)) (hstep : advance s i c = some t) : Sound t := by
  have hc := h.fits i c hi
  unfold ModelRegistry.advance at hstep
  split at hstep
  case h_1 hplace =>
    obtain rfl := Option.some.inj hstep
    split_ifs with hcache
    · exact h.put hi trivial (by simp [Place.active]) (by simp)
    · exact h.put hi hcache (by simp [Place.active]) (by simp)
  case h_2 hplace =>
    rw [hplace] at hc
    obtain rfl := Option.some.inj hstep
    cases hcache : s.cache c.key with
    | none => exact absurd hcache hc
    | some load => exact h.put hi ⟨Nat.le_refl _, fun _ => hcache⟩ (by simp [Place.active]) (by simp)
  case h_3 hplace =>
    split at hstep
    · next load _ hcache =>
      obtain rfl := Option.some.inj hstep
      exact h.put hi ⟨Nat.le_refl _, fun _ => hcache⟩ (by simp [Place.active]) (by simp)
    · next event _ hloads =>
      obtain rfl := Option.some.inj hstep
      exact h.put hi (by simp [Fits, hloads]) (by simp [Place.active]) (by simp)
    · next hcache hloads =>
      obtain rfl := Option.some.inj hstep
      exact h.newLoad hi hcache hloads
  case h_4 hplace =>
    rw [hplace] at hc
    obtain rfl := Option.some.inj hstep
    cases hloads : s.loads c.key with
    | none => exact absurd hloads hc
    | some load =>
      obtain ⟨hkey, hnext, -, hfired⟩ := h.loads c.key load hloads
      exact h.put hi ⟨hkey, hnext, by simp [hfired]⟩ (by simp [Place.active]) (by simp)
  case h_5 load hplace =>
    rw [hplace] at hc
    split_ifs at hstep with hfired
    obtain rfl := Option.some.inj hstep
    exact h.put hi (.inr (hc.2.2 hfired)) (by simp [Place.active]) (by simp)
  case h_6 load timedOut hplace =>
    rw [hplace] at hc
    obtain rfl := Option.some.inj hstep
    cases hcache : s.cache c.key with
    | none =>
      have hexcused : Excused s.failed (.afterWait load timedOut) :=
        hc.imp_right fun hor => hor.resolve_right (not_not_intro hcache)
      exact h.put hi hexcused (by simp [Place.active]) (by simp)
    | some det => exact h.put hi ⟨Nat.le_refl _, fun _ => hcache⟩ (by simp [Place.active]) (by simp)
  case h_7 load hplace =>
    rw [hplace] at hc
    obtain rfl := Option.some.inj hstep
    exact h.put hi hc (by simp [Place.active, hplace]) (by simp)
  case h_8 load hplace =>
    obtain rfl := Option.some.inj hstep
    exact h.store hi hplace
  case h_9 load ok hplace =>
    obtain rfl := Option.some.inj hstep
    exact h.pop hi hplace (hguard c hi (by simp [Call.Finishing, hplace]))
  case h_10 event load ok hplace =>
    obtain rfl := Option.some.inj hstep
    exact h.notify hi hplace
  all_goals cases hstep

theorem Sound.call {s : Registry} (h : Sound s) (key : String) :
    Sound { s with calls := s.calls ++ [⟨key, .start⟩] } := by
  refine ⟨?_, ?_, h.loads, h.cache, h.fired, ?_⟩
  · intro i c hi
    rcases getElem?_concat_some hi with hi | ⟨-, rfl⟩
    · exact h.fits i c hi
    · trivial
  · intro i j c d load hi hj hc hd
    rcases getElem?_concat_some hi with hi | ⟨-, rfl⟩
    · rcases getElem?_concat_some hj with hj | ⟨-, rfl⟩
      · exact h.owner i j c d load hi hj hc hd
      · cases hd
    · cases hc
  · intro i j c d a b resets hi hj hkey hc hd
    rcases getElem?_concat_some hi with hi | ⟨-, rfl⟩
    · rcases getElem?_concat_some hj with hj | ⟨-, rfl⟩
      · exact h.same i j c d a b resets hi hj hkey hc hd
      · cases hd
    · cases hc

theorem Sound.reset {s : Registry} (h : Sound s) (hidle : ∀ c ∈ s.calls, c.Idle) :
    Sound { s with cache := fun _ => none, loads := fun _ => none, resets := s.resets + 1 } := by
  refine ⟨?_, h.owner, by simp, by simp, h.fired, h.same⟩
  intro i c hi
  have hfit := h.fits i c hi
  have hc := hidle c (List.mem_of_getElem? hi)
  cases hplace : c.place <;> simp only [Call.Idle, hplace] at hc <;> rw [hplace] at hfit <;>
    grind [Fits]

theorem Sound.step {s t : Registry} {label : Label} (h : Sound s) (hguard : Guard s label)
    (hstep : step s label = some t) : Sound t := by
  cases label with
  | call key =>
    obtain rfl := Option.some.inj hstep
    exact h.call key
  | move i =>
    obtain ⟨c, hi, hadvance⟩ := Option.bind_eq_some_iff.mp hstep
    exact h.advance hi hguard hadvance
  | fail i =>
    obtain ⟨c, hi, hfail⟩ := Option.bind_eq_some_iff.mp hstep
    split at hfail
    · next load hplace =>
      obtain rfl := Option.some.inj hfail
      exact h.fail hi hplace
    · cases hfail
  | timeout i =>
    obtain ⟨c, hi, htimeout⟩ := Option.bind_eq_some_iff.mp hstep
    split at htimeout
    · obtain rfl := Option.some.inj htimeout
      exact h.put hi (.inl rfl) (by simp [Place.active]) (by simp)
    · cases htimeout
  | reset =>
    obtain rfl := Option.some.inj hstep
    exact h.reset hguard

theorem Sound.promises {s : Registry} (h : Sound s) : Promises s where
  one_load i j c d hi hj hc hd hkey := by
    obtain ⟨a, ha⟩ := hc
    obtain ⟨b, hb⟩ := hd
    have hloadc := @Fits.active s _ _ a (h.fits i c hi) (by rw [ha]; rfl)
    have hloadd := @Fits.active s _ _ b (h.fits j d hj) (by rw [hb]; rfl)
    -- the load of a mode is the one it is waited for with
    have hsame : a = b := Option.some.inj (hloadc.symm.trans (hkey ▸ hloadd))
    exact h.owner i j c d a hi hj (by rw [ha]; rfl) (by rw [hb, hsame]; rfl)
  same_detector c hc d hd a b resets hkey ha hb := by
    obtain ⟨i, hi⟩ := List.mem_iff_getElem?.mp hc
    obtain ⟨j, hj⟩ := List.mem_iff_getElem?.mp hd
    exact h.same i j c d a b resets hi hj hkey ha hb
  excused c hc error herror := by
    obtain ⟨i, hi⟩ := List.mem_iff_getElem?.mp hc
    have hfit := h.fits i c hi
    rwa [herror] at hfit
  fresh key load hload := (h.cache key load hload).2

/-- Where no load ends while a caller is about to look it up, and no reset meets a call under
way, the registry keeps its promises in every state of every run. -/
theorem promises_kept {s : Registry} (h : Reach machine Guard s) : Promises s := by
  refine Sound.promises (h.invariant ?_ fun s label t hs hguard hstep => hs.step hguard hstep)
  rintro s rfl
  exact ⟨by simp, by simp, by simp, by simp, by simp, by simp⟩

instance decidableIdle (c : Call) : Decidable c.Idle := by
  unfold Call.Idle
  split <;> infer_instance

instance decidableFinishing (c : Call) : Decidable c.Finishing := by
  unfold Call.Finishing
  split <;> infer_instance

instance decidableGuard (s : Registry) : DecidablePred (Guard s)
  | .call _ | .fail _ | .timeout _ => isTrue trivial
  | .move _ => inferInstanceAs (Decidable (∀ c ∈ _, _ → _))
  | .reset => inferInstanceAs (Decidable (∀ c ∈ _, _))

/-- Two callers of one mode, the second in time to wait, and a reset after both. -/
def inTime : List Label :=
  [.call "motion", .call "motion", .move 0, .move 0, .move 1, .move 1, .move 1, .move 0, .move 0,
    .move 0, .move 0, .move 1, .move 1, .reset]

theorem promises_kept_inTime : ∃ s,
    machine.run (fun s label => decide (Guard s label)) {} inTime = some s
      ∧ s.calls = [⟨"motion", .returned 0 0⟩, ⟨"motion", .returned 0 0⟩] ∧ Promises s := by
  have hrun : (machine.run (fun s label => decide (Guard s label)) {} inTime).map (·.calls)
      = some [⟨"motion", .returned 0 0⟩, ⟨"motion", .returned 0 0⟩] := by decide
  obtain ⟨s, hs, hcalls⟩ := Option.map_eq_some_iff.mp hrun
  have hreach : Reach machine Guard s :=
    ⟨_, rfl, path_of_run (fun _ _ h => of_decide_eq_true h) _ hs⟩
  exact ⟨s, hs, hcalls, promises_kept hreach⟩

/-- The load of the first ends while the second is about to look up what to wait for. -/
def tooLate : List Label :=
  [.call "motion", .call "motion", .move 0, .move 0, .move 1, .move 1, .move 0, .move 0, .move 0,
    .move 1]

theorem not_promises_kept : ¬ ∀ s, Reach machine Always s → Promises s := by
  intro h
  have hrun : (machine.run anyStep {} tooLate).map (fun s => s.calls[1]?)
      = some (some ⟨"motion", .raised .keyError⟩) := by decide
  obtain ⟨s, hreach, hcall⟩ := reach_of_anyStep hrun rfl
  have hpromises := h s hreach
  exact hpromises.excused _ (List.mem_of_getElem? hcall) _ rfl

end Drac.Vision.ModelRegistry
