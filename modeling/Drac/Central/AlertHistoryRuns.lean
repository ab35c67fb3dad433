import Mathlib.Data.List.Dedup
import Drac.Central.AlertHistory

/-
  What the history of alerts keeps.

  The spec of one heartbeat is `updateAlertHistory_spec`: the keys it leaves before the cut, and
  of each entry its status, when it was last seen and since when. From it

    `Faithful.heartbeat`   a key is in the history once, active exactly when it is in the
                           heartbeat, and no active one is cut off before a resolved one;
    `first_seen_kept`      while an alert stays active, so does the time it was first seen.

  The conditions: a heartbeat repeats no key that is new, the clock has gone on since the
  alerts it no longer brings, and, for the second, its keys are not more than the limit.
-/

namespace Drac.Central.AlertHistory

open Runs
open Security (Text units)

variable {β : Type} {R : Runtime β}

/-! ## The property and the conditions -/

/-- What the history is after a heartbeat. -/
structure Faithful (s : Installation β) : Prop where
  once : (s.alertHistory.map Entry.key).Nodup
  active_iff : ∀ e ∈ s.alertHistory, e.status = .active ↔ e.key ∈ s.latest
  none_before_resolved : (∀ k ∈ s.latest, k ∈ s.alertHistory.map Entry.key) ∨
    ∀ e ∈ s.alertHistory, e.status = .active

def newKeys (history : List (Entry β)) (keys : List Text) : List Text :=
  keys.filter (fun k => k ∉ history.map Entry.key)

/-- No new key twice, and the clock past whatever the heartbeat does not bring. -/
def orderly (R : Runtime β) (s : Installation β) (h : Heartbeat β) : Bool :=
  (alertKeys R h.alerts).all fun keys =>
    (newKeys s.alertHistory keys).Nodup &&
      s.alertHistory.all (fun e => e.key ∈ keys || e.lastSeenAt < h.now)

def Orderly (R : Runtime β) (s : Installation β) (h : Heartbeat β) : Prop := orderly R s h = true

/-- The keys of the heartbeat are not more than the limit. -/
def roomy (R : Runtime β) (h : Heartbeat β) : Bool :=
  (alertKeys R h.alerts).all fun keys => (keys.dedup.length : Int) ≤ R.limit

def brings (R : Runtime β) (k : Text) (h : Heartbeat β) : Bool :=
  (alertKeys R h.alerts).all fun keys => k ∈ keys

/-! ## One pass -/

/-- What the loop has made of the history once it has seen the keys. -/
structure Seen (old : List (Entry β)) (now : Int) (keys : List Text) (history : List (Entry β)) :
    Prop where
  keys_eq : history.map Entry.key = old.map Entry.key ++ newKeys old keys
  seen : ∀ e ∈ history, e.key ∈ keys → e.status = .active ∧ e.lastSeenAt = now ∧
    ∀ e₀ ∈ old, e₀.key = e.key → e.firstSeenAt = e₀.firstSeenAt
  unseen : ∀ e ∈ history, e.key ∉ keys → e ∈ old

variable {k : Text}

theorem newKeys_of_notMem {old : List (Entry β)} (h : k ∉ old.map Entry.key)
    (keys : List Text) : newKeys old (keys ++ [k]) = newKeys old keys ++ [k] := by
  rw [newKeys, List.filter_append, List.filter_cons_of_pos (by simpa using h)]
  rfl

theorem newKeys_of_mem {old : List (Entry β)} (h : k ∈ old.map Entry.key)
    (keys : List Text) : newKeys old (keys ++ [k]) = newKeys old keys := by
  rw [newKeys, List.filter_append, List.filter_cons_of_neg (by simpa using h), List.filter_nil,
    List.append_nil]
  rfl

variable {old history : List (Entry β)} {now : Int} {keys : List Text}

theorem Seen.push (h : Seen old now keys history) (entry : Entry β)
    (hnew : entry.key ∉ old.map Entry.key) (hactive : entry.status = .active)
    (hnow : entry.lastSeenAt = now) : Seen old now (keys ++ [entry.key]) (history ++ [entry]) where
  keys_eq := by
    rw [List.map_append, h.keys_eq, newKeys_of_notMem hnew, List.append_assoc]
    rfl
  seen := by
    intro e he hk
    rcases List.mem_append.mp he with he | he
    · by_cases hseen : e.key ∈ keys
      · exact h.seen e he hseen
      · have hkey : e.key = entry.key := by simpa [hseen] using hk
        exact absurd (hkey ▸ List.mem_map_of_mem (h.unseen e he hseen)) hnew
    · obtain rfl := List.mem_singleton.mp he
      refine ⟨hactive, hnow, fun e₀ he₀ hkey => ?_⟩
      exact absurd (hkey ▸ List.mem_map_of_mem he₀) hnew
  unseen := by
    intro e he hk
    rcases List.mem_append.mp he with he | he
    · exact h.unseen e he (fun hmem => hk (List.mem_append_left _ hmem))
    · obtain rfl := List.mem_singleton.mp he
      exact absurd (List.mem_append_right _ List.mem_cons_self) hk

theorem Seen.update (h : Seen old now keys history) (hnd : (old.map Entry.key).Nodup)
    (hold : k ∈ old.map Entry.key) {f : Entry β → Entry β} (hkey : ∀ e, (f e).key = e.key)
    (hactive : ∀ e, (f e).status = .active) (hnow : ∀ e, (f e).lastSeenAt = now)
    (hfirst : ∀ e, (f e).firstSeenAt = e.firstSeenAt) :
    Seen old now (keys ++ [k]) (KeyedList.update Entry.key k f history) where
  keys_eq := by
    rw [KeyedList.map_update Entry.key hkey, h.keys_eq, newKeys_of_mem hold]
  seen := by
    intro e he hk
    obtain ⟨a, ha, rfl⟩ := (KeyedList.mem_update Entry.key).mp he
    by_cases hak : a.key = k
    · rw [if_pos hak]
      refine ⟨hactive a, hnow a, fun e₀ he₀ heq => ?_⟩
      rw [hkey] at heq
      rw [hfirst]
      by_cases hseen : a.key ∈ keys
      · exact (h.seen a ha hseen).2.2 e₀ he₀ heq
      · rw [KeyedList.eq_of_key hnd (h.unseen a ha hseen) he₀ heq.symm]
    · rw [if_neg hak] at hk ⊢
      exact h.seen a ha (by simpa [hak] using hk)
  unseen := by
    intro e he hk
    obtain ⟨a, ha, rfl⟩ := (KeyedList.mem_update Entry.key).mp he
    by_cases hak : a.key = k
    · rw [if_pos hak, hkey, hak] at hk
      exact absurd (List.mem_append_right _ List.mem_cons_self) hk
    · rw [if_neg hak] at hk ⊢
      exact h.unseen a ha (fun hmem => hk (List.mem_append_left _ hmem))

theorem Seen.index (h : Seen old now keys history) (hnd : (old.map Entry.key).Nodup)
    {i : Nat} (hget : (old.map Entry.key)[i]? = some k) :
    (history.map Entry.key)[i]? = some k ∧
      ∀ j, (history.map Entry.key)[j]? = some k → j = i := by
  have hi : i < (old.map Entry.key).length := (List.getElem?_eq_some_iff.mp hget).1
  rw [h.keys_eq]
  refine ⟨by rw [List.getElem?_append_left hi, hget], fun j hj => ?_⟩
  by_cases hjlt : j < (old.map Entry.key).length
  · rw [List.getElem?_append_left hjlt] at hj
    exact (List.getElem?_inj hjlt hnd).mp (hj.trans hget.symm)
  · rw [List.getElem?_append_right (by omega)] at hj
    have hmem := List.mem_of_getElem? hj
    have hnot := (List.mem_filter.mp hmem).2
    simp only [decide_eq_true_eq] at hnot
    exact absurd (List.mem_of_getElem? hget) hnot

theorem Seen.observe (h : Seen old now keys history) (hnd : (old.map Entry.key).Nodup)
    {alert : Alert β × Text} {history' : List (Entry β)}
    (hobserve : AlertHistory.observe R (indexByKey old) now history alert = some history') :
    ∃ k, alertKey R alert.1 = some k ∧ Seen old now (keys ++ [k]) history' := by
  obtain ⟨alert, id⟩ := alert
  cases alert with
  | null => cases hobserve
  | value code message level =>
    obtain ⟨k, hk, rfl⟩ := Option.map_eq_some_iff.mp hobserve
    refine ⟨k, hk, ?_⟩
    cases hindex : JsMap.get? (indexByKey old) k with
    | none =>
      have hnew : k ∉ old.map Entry.key := by
        intro hmem
        obtain ⟨i, hi⟩ := List.mem_iff_getElem?.mp hmem
        have hsome := (JsMap.get?_index Entry.key hnd k i).mpr hi
        rw [indexByKey, hsome] at hindex
        cases hindex
      exact h.push (newEntry R id k code message level now) hnew rfl rfl
    | some i =>
      have hget := (JsMap.get?_index Entry.key hnd k i).mp hindex
      obtain ⟨hhere, honly⟩ := h.index hnd hget
      show Seen old now (keys ++ [k]) (history.modify i (seenAgain R code message level now))
      rw [KeyedList.modify_eq_update Entry.key _ hhere honly]
      exact h.update hnd (List.mem_of_getElem? hget) (fun _ => rfl) (fun _ => rfl)
        (fun _ => rfl) (fun _ => rfl)

theorem Seen.observeAll (hnd : (old.map Entry.key).Nodup) :
    ∀ {alerts : List (Alert β × Text)} {keys : List Text} {history seen : List (Entry β)}
      {ks : List Text}, Seen old now keys history → alertKeys R alerts = some ks →
      alerts.foldlM (AlertHistory.observe R (indexByKey old) now) history = some seen →
      Seen old now (keys ++ ks) seen
  | [], keys, history, seen, ks, h, hkeys, hseen => by
    rw [alertKeys, List.mapM_nil] at hkeys
    obtain rfl : [] = ks := Option.some.inj hkeys
    cases hseen
    rwa [List.append_nil]
  | alert :: rest, keys, history, seen, ks, h, hkeys, hseen => by
    rw [List.foldlM_cons] at hseen
    obtain ⟨next, hnext, hrest⟩ := Option.bind_eq_some_iff.mp hseen
    obtain ⟨k, hk, hkept⟩ := h.observe hnd hnext
    rw [alertKeys, List.mapM_cons] at hkeys
    obtain ⟨k', hk', hkeys⟩ := Option.bind_eq_some_iff.mp hkeys
    obtain rfl : k = k' := Option.some.inj (hk.symm.trans hk')
    obtain ⟨ks', hks', heq⟩ := Option.bind_eq_some_iff.mp hkeys
    cases heq
    have hall := Seen.observeAll hnd hkept hks' hrest
    rwa [List.append_assoc] at hall

theorem Seen.start (old : List (Entry β)) (now : Int) : Seen old now [] old where
  keys_eq := (List.append_nil _).symm
  seen := fun _ _ h => nomatch h
  unseen := fun _ he _ => he

@[simp] theorem settle_key (keys : List Text) (now : Int) (e : Entry β) :
    (settle keys now e).key = e.key := by
  unfold settle
  split <;> rfl

@[simp] theorem settle_lastSeenAt (keys : List Text) (now : Int) (e : Entry β) :
    (settle keys now e).lastSeenAt = e.lastSeenAt := by
  unfold settle
  split <;> rfl

@[simp] theorem settle_firstSeenAt (keys : List Text) (now : Int) (e : Entry β) :
    (settle keys now e).firstSeenAt = e.firstSeenAt := by
  unfold settle
  split <;> rfl

variable {e : Entry β}

theorem settle_active {keys : List Text} {now : Int}
    (h : e.key ∈ keys → e.status = .active) :
    (settle keys now e).status = .active ↔ e.key ∈ keys := by
  unfold settle
  by_cases hkey : e.key ∈ keys
  · simp [hkey, h hkey]
  · cases hstatus : e.status with
    | active => simp [hkey]
    | resolved => simp [hkey, hstatus]

/-- The history before it is cut. -/
structure Full (old : List (Entry β)) (now : Int) (keys : List Text) (full : List (Entry β)) :
    Prop where
  keys_eq : full.map Entry.key = old.map Entry.key ++ newKeys old keys
  active_iff : ∀ e ∈ full, e.status = .active ↔ e.key ∈ keys
  seen : ∀ e ∈ full, e.key ∈ keys → e.lastSeenAt = now ∧
    ∀ e₀ ∈ old, e₀.key = e.key → e.firstSeenAt = e₀.firstSeenAt
  unseen : ∀ e ∈ full, e.key ∉ keys → ∃ e₀ ∈ old, e₀.key = e.key ∧ e₀.lastSeenAt = e.lastSeenAt

theorem Seen.settled (h : Seen old now keys history) :
    Full old now keys (history.map (settle keys now)) where
  keys_eq := by
    rw [List.map_map, ← h.keys_eq]
    exact List.map_congr_left fun e _ => settle_key keys now e
  active_iff := by
    intro e he
    obtain ⟨a, ha, rfl⟩ := List.mem_map.mp he
    rw [settle_key]
    exact settle_active fun hkey => (h.seen a ha hkey).1
  seen := by
    intro e he hkey
    obtain ⟨a, ha, rfl⟩ := List.mem_map.mp he
    rw [settle_key] at hkey
    obtain ⟨-, hnow, hfirst⟩ := h.seen a ha hkey
    simpa using ⟨hnow, hfirst⟩
  unseen := by
    intro e he hkey
    obtain ⟨a, ha, rfl⟩ := List.mem_map.mp he
    rw [settle_key] at hkey
    exact ⟨a, h.unseen a ha hkey, by simp, by simp⟩

/-- **The spec of one heartbeat.** -/
theorem updateAlertHistory_spec (hnd : (old.map Entry.key).Nodup) {alerts : List (Alert β × Text)}
    {history' : List (Entry β)} (hkeys : alertKeys R alerts = some keys)
    (h : updateAlertHistory R old alerts now = some history') :
    ∃ full, Full old now keys full ∧ history' = sliceTo R.limit (byLastSeen full) := by
  rw [updateAlertHistory] at h
  obtain ⟨ks, hks, h⟩ := Option.bind_eq_some_iff.mp h
  obtain rfl : keys = ks := Option.some.inj (hkeys.symm.trans hks)
  obtain ⟨seen, hseen, heq⟩ := Option.bind_eq_some_iff.mp h
  cases heq
  have hall := Seen.observeAll hnd (Seen.start old now) hkeys hseen
  exact ⟨_, hall.settled, rfl⟩

/-! ## The cut -/

theorem newKeys_disjoint (old : List (Entry β)) (keys : List Text) :
    ∀ a ∈ old.map Entry.key, ∀ b ∈ newKeys old keys, a ≠ b := by
  rintro a ha b hb rfl
  have hnot := (List.mem_filter.mp hb).2
  simp only [decide_eq_true_eq] at hnot
  exact hnot ha

variable {full : List (Entry β)}

theorem Full.nodup (h : Full old now keys full) (hnd : (old.map Entry.key).Nodup)
    (hnew : (newKeys old keys).Nodup) : (full.map Entry.key).Nodup := by
  rw [h.keys_eq]
  exact List.nodup_append.mpr ⟨hnd, hnew, newKeys_disjoint old keys⟩

theorem Full.mem (h : Full old now keys full) (hk : k ∈ keys) :
    ∃ e ∈ full, e.key = k := by
  apply List.mem_map.mp
  rw [h.keys_eq, List.mem_append]
  by_cases hold : k ∈ old.map Entry.key
  · exact .inl hold
  · exact .inr (List.mem_filter.mpr ⟨hk, by simpa using hold⟩)

def isRecent (now : Int) (e : Entry β) : Bool := now ≤ e.lastSeenAt

theorem Full.isRecent_iff (h : Full old now keys full)
    (hclock : ∀ e ∈ old, e.key ∉ keys → e.lastSeenAt < now) (he : e ∈ full) :
    isRecent now e = true ↔ e.key ∈ keys := by
  unfold isRecent
  rw [decide_eq_true_eq]
  by_cases hkey : e.key ∈ keys
  · simp [hkey, (h.seen e he hkey).1]
  · obtain ⟨e₀, he₀, hk₀, hlast⟩ := h.unseen e he hkey
    have hlt := hclock e₀ he₀ (hk₀ ▸ hkey)
    rw [hlast] at hlt
    simp only [hkey, iff_false, not_le]
    exact hlt

theorem byLastSeen_perm (history : List (Entry β)) : (byLastSeen history).Perm history :=
  List.mergeSort_perm _ _

theorem byLastSeen_split (now : Int) (history : List (Entry β)) :
    (byLastSeen history).filter (isRecent now) ++
      (byLastSeen history).filter (fun e => !isRecent now e) = byLastSeen history := by
  apply CursorPaging.filter_append_filter_not (CursorPaging.byTime_sorted _ history)
  intro x y hxy hy
  unfold isRecent at *
  simp only [decide_eq_true_eq] at *
  omega

theorem sliceTo_eq_take (limit : Int) (list : List (Entry β)) :
    ∃ n : Nat, sliceTo limit list = list.take n ∧ (0 ≤ limit → n = limit.toNat) := by
  unfold sliceTo
  split
  · exact ⟨_, rfl, fun _ => rfl⟩
  · next hneg => exact ⟨_, rfl, fun h => absurd h hneg⟩

theorem Full.length_recent (h : Full old now keys full) (hfull : (full.map Entry.key).Nodup)
    (hclock : ∀ e ∈ old, e.key ∉ keys → e.lastSeenAt < now) :
    ((byLastSeen full).filter (isRecent now)).length ≤ keys.dedup.length := by
  have hperm := byLastSeen_perm full
  have hnd : (((byLastSeen full).filter (isRecent now)).map Entry.key).Nodup := by
    have hsorted : ((byLastSeen full).map Entry.key).Nodup :=
      (hperm.map Entry.key).nodup_iff.mpr hfull
    exact hsorted.sublist (List.filter_sublist.map Entry.key)
  have hsub : ((byLastSeen full).filter (isRecent now)).map Entry.key ⊆ keys.dedup := by
    intro k hk
    obtain ⟨e, he, rfl⟩ := List.mem_map.mp hk
    obtain ⟨hmem, hrecent⟩ := List.mem_filter.mp he
    rw [List.mem_dedup]
    exact (h.isRecent_iff hclock (hperm.mem_iff.mp hmem)).mp hrecent
  have hle := (List.subperm_of_subset hnd hsub).length_le
  rwa [List.length_map] at hle

theorem Full.cut (h : Full old now keys full)
    (hclock : ∀ e ∈ old, e.key ∉ keys → e.lastSeenAt < now) (n : Nat) :
    (∀ e ∈ full, e.key ∈ keys → e ∈ (byLastSeen full).take n) ∨
      ∀ e ∈ (byLastSeen full).take n, e.key ∈ keys := by
  have hperm := byLastSeen_perm full
  have hrecent : ∀ e ∈ byLastSeen full, isRecent now e = true ↔ e.key ∈ keys :=
    fun e he => h.isRecent_iff hclock (hperm.mem_iff.mp he)
  rw [← byLastSeen_split now full, List.take_append]
  by_cases hn : ((byLastSeen full).filter (isRecent now)).length ≤ n
  · left
    intro e he hkey
    have hmem := hperm.mem_iff.mpr he
    rw [List.take_of_length_le hn]
    exact List.mem_append_left _ (List.mem_filter.mpr ⟨hmem, (hrecent e hmem).mpr hkey⟩)
  · right
    intro e he
    rw [Nat.sub_eq_zero_of_le (by omega), List.take_zero, List.append_nil] at he
    obtain ⟨hmem, hkey⟩ := List.mem_filter.mp (List.mem_of_mem_take he)
    exact (hrecent e hmem).mp hkey

theorem Full.cut_roomy (h : Full old now keys full) (hfull : (full.map Entry.key).Nodup)
    (hclock : ∀ e ∈ old, e.key ∉ keys → e.lastSeenAt < now)
    {n : Nat} (hroom : keys.dedup.length ≤ n) (he : e ∈ full) (hkey : e.key ∈ keys) :
    e ∈ (byLastSeen full).take n := by
  have hmem := (byLastSeen_perm full).mem_iff.mpr he
  have hlength := h.length_recent hfull hclock
  rw [← byLastSeen_split now full, List.take_append, List.take_of_length_le (by omega)]
  exact List.mem_append_left _ (List.mem_filter.mpr ⟨hmem, (h.isRecent_iff hclock he).mpr hkey⟩)

/-! ## Heartbeats -/

variable {s t : Installation β} {h : Heartbeat β}

theorem Orderly.new (hord : Orderly R s h) (hkeys : alertKeys R h.alerts = some keys) :
    (newKeys s.alertHistory keys).Nodup := by
  simp only [Orderly, orderly, hkeys, Option.all_some, Bool.and_eq_true, decide_eq_true_eq] at hord
  exact hord.1

theorem Orderly.clock (hord : Orderly R s h) (hkeys : alertKeys R h.alerts = some keys) :
    ∀ e ∈ s.alertHistory, e.key ∉ keys → e.lastSeenAt < h.now := by
  simp only [Orderly, orderly, hkeys, Option.all_some, Bool.and_eq_true, List.all_eq_true,
    Bool.or_eq_true, decide_eq_true_eq] at hord
  intro e he hkey
  exact (hord.2 e he).resolve_left hkey

/-- A heartbeat is refused and leaves what there was, or leaves what its pass made. -/
theorem heartbeat_cases (R : Runtime β) (s : Installation β) (h : Heartbeat β) :
    heartbeat R s h = s ∨ ∃ keys history, alertKeys R h.alerts = some keys ∧
      updateAlertHistory R s.alertHistory h.alerts h.now = some history ∧
      heartbeat R s h = ⟨history, keys⟩ := by
  unfold heartbeat
  split
  · next history keys hupdate hkeys => exact .inr ⟨keys, history, hkeys, hupdate, rfl⟩
  · exact .inl rfl

/-- **An orderly heartbeat keeps the history faithful.** -/
theorem Faithful.heartbeat (hs : Faithful s) (hord : Orderly R s h) :
    Faithful (AlertHistory.heartbeat R s h) := by
  obtain heq | ⟨keys, history, hkeys, hupdate, heq⟩ := heartbeat_cases R s h
  · rwa [heq]
  · rw [heq]
    obtain ⟨full, hfull, rfl⟩ := updateAlertHistory_spec hs.once hkeys hupdate
    have hnd := hfull.nodup hs.once (hord.new hkeys)
    obtain ⟨n, htake, -⟩ := sliceTo_eq_take R.limit (byLastSeen full)
    have hmem : ∀ e ∈ (byLastSeen full).take n, e ∈ full :=
      fun e he => (byLastSeen_perm full).mem_iff.mp (List.mem_of_mem_take he)
    refine ⟨?_, ?_, ?_⟩
    · have hsorted := ((byLastSeen_perm full).map Entry.key).nodup_iff.mpr hnd
      rw [htake]
      exact hsorted.sublist ((List.take_sublist n _).map Entry.key)
    · intro e he
      rw [htake] at he
      exact hfull.active_iff e (hmem e he)
    · rw [htake]
      obtain hkept | hactive := hfull.cut (hord.clock hkeys) n
      · left
        intro k hk
        obtain ⟨e, he, rfl⟩ := hfull.mem hk
        exact List.mem_map_of_mem (hkept e he hk)
      · right
        intro e he
        exact (hfull.active_iff e (hmem e he)).mpr (hactive e he)

theorem heartbeat_first (hs : Faithful s) (hord : Orderly R s h) (hroom : roomy R h = true)
    (hbrings : brings R k h = true) (he : e ∈ s.alertHistory)
    (hkey : e.key = k) :
    ∃ e' ∈ (AlertHistory.heartbeat R s h).alertHistory, e'.key = k ∧
      e'.firstSeenAt = e.firstSeenAt := by
  obtain heq | ⟨keys, history, hkeys, hupdate, heq⟩ := heartbeat_cases R s h
  · rw [heq]
    exact ⟨e, he, hkey, rfl⟩
  · rw [heq]
    simp only [roomy, brings, hkeys, Option.all_some, decide_eq_true_eq] at hroom hbrings
    obtain ⟨full, hfull, rfl⟩ := updateAlertHistory_spec hs.once hkeys hupdate
    have hnd := hfull.nodup hs.once (hord.new hkeys)
    obtain ⟨n, htake, hn⟩ := sliceTo_eq_take R.limit (byLastSeen full)
    have hlimit : keys.dedup.length ≤ n := by
      rw [hn (by omega)]
      omega
    obtain ⟨e', he', hkey'⟩ := hfull.mem hbrings
    have hin : e'.key ∈ keys := hkey' ▸ hbrings
    refine ⟨e', ?_, hkey', ?_⟩
    · rw [htake]
      exact hfull.cut_roomy hnd (hord.clock hkeys) hlimit he' hin
    · exact (hfull.seen e' he' hin).2 e he (hkey.trans hkey'.symm)

/-! ## Runs -/

theorem Faithful.start : Faithful ({} : Installation β) where
  once := List.nodup_nil
  active_iff := fun _ h => nomatch h
  none_before_resolved := .inl fun _ h => nomatch h

theorem faithful_of_reach (hs : Reach (heartbeats R) (Orderly R) s) : Faithful s := by
  refine hs.invariant (I := Faithful) ?_ ?_
  · rintro s rfl
    exact .start
  · intro s h t hfaithful hord hstep
    cases hstep
    exact hfaithful.heartbeat hord

/-- The heartbeats through which the alert stays active. -/
def Stays (R : Runtime β) (k : Text) (s : Installation β) (h : Heartbeat β) : Prop :=
  Orderly R s h ∧ roomy R h = true ∧ brings R k h = true

theorem first_seen_kept (hs : Faithful s) (he : e ∈ s.alertHistory)
    (hkey : e.key = k) (hpath : Path (heartbeats R) (Stays R k) s t) :
    Faithful t ∧ ∃ e' ∈ t.alertHistory, e'.key = k ∧ e'.firstSeenAt = e.firstSeenAt := by
  refine hpath.invariant (I := fun t => Faithful t ∧ ∃ e' ∈ t.alertHistory, e'.key = k ∧
    e'.firstSeenAt = e.firstSeenAt) ?_ ⟨hs, e, he, hkey, rfl⟩
  rintro u h v ⟨hu, e', he', hkey', hfirst⟩ ⟨hord, hroom, hbrings⟩ hstep
  cases hstep
  obtain ⟨e'', he'', hkey'', hfirst'⟩ := heartbeat_first hu hord hroom hbrings he' hkey'
  exact ⟨hu.heartbeat hord, e'', he'', hkey'', hfirst'.trans hfirst⟩

/-- **The history is faithful.** In a run of heartbeats that repeat no new key, the clock going
on, each key is in the history once, an entry is active exactly when its key is in the latest
heartbeat, and none of them is missing while a resolved entry is kept. And where the keys are
not more than the limit either, the time an alert was first seen does not go forward while the
heartbeats bring it. -/
theorem alert_history_faithful (R : Runtime β) :
    (∀ s, Reach (heartbeats R) (Orderly R) s → Faithful s) ∧
    ∀ (k : Text) (s t : Installation β) (e e' : Entry β), Reach (heartbeats R) (Orderly R) s →
      e ∈ s.alertHistory → e.key = k → e.status = .active →
      Path (heartbeats R) (Stays R k) s t → e' ∈ t.alertHistory → e'.key = k →
      e'.firstSeenAt ≤ e.firstSeenAt := by
  refine ⟨fun s hs => faithful_of_reach hs, ?_⟩
  intro k s t e e' hs he hkey _ hpath he' hkey'
  obtain ⟨ht, e'', he'', hkey'', hfirst⟩ := first_seen_kept (faithful_of_reach hs) he hkey hpath
  have hsame : e' = e'' := KeyedList.eq_of_key ht.once he' he'' (hkey'.trans hkey''.symm)
  rw [hsame, hfirst]

/-! ## Runs on given alerts -/

def plainTexts : Runtime Text where
  values := { truthy := fun text => text ≠ [], string := some, text := id }
  toLowerCase := fun text => text.map Security.lower

def diskFull (id : String) : Alert Text × Text :=
  (.value (some (units "disk")) (some (units "Disk full")) (some (units "critical")), units id)

def diskEntry (id : String) (lastSeenAt : Int) (occurrences : Nat) : Entry Text where
  id := units id
  key := units "disk:disk full"
  status := .active
  level := units "critical"
  code := units "disk"
  message := units "Disk full"
  firstSeenAt := 0
  lastSeenAt := lastSeenAt
  resolvedAt := none
  occurrences := occurrences

def minute (id : String) (now : Int) : Heartbeat Text := ⟨[diskFull id], now⟩

def afterOne : Installation Text := heartbeat plainTexts {} (minute "a" 0)

def afterTwo : Installation Text := heartbeat plainTexts afterOne (minute "b" 60000)

/-- The disk is full at two heartbeats, a minute apart. -/
theorem alert_history_faithful_disk : Faithful afterOne ∧
    (diskEntry "a" 60000 2).firstSeenAt ≤ (diskEntry "a" 0 1).firstSeenAt := by
  have hone : afterOne.alertHistory = [diskEntry "a" 0 1] := by decide +kernel
  have htwo : afterTwo.alertHistory = [diskEntry "a" 60000 2] := by decide +kernel
  have hreach : Reach (heartbeats plainTexts) (Orderly plainTexts) afterOne :=
    ⟨{}, rfl, .tail (a := minute "a" 0) (.refl _)
      (show orderly plainTexts {} (minute "a" 0) = true by decide +kernel) rfl⟩
  have hstays : Stays plainTexts (units "disk:disk full") afterOne (minute "b" 60000) := by
    refine ⟨?_, ?_, ?_⟩
    · show orderly plainTexts afterOne (minute "b" 60000) = true
      decide +kernel
    · decide +kernel
    · decide +kernel
  have hpath : Path (heartbeats plainTexts) (Stays plainTexts (units "disk:disk full")) afterOne
      afterTwo := .tail (.refl _) hstays rfl
  refine ⟨(alert_history_faithful plainTexts).1 afterOne hreach, ?_⟩
  exact (alert_history_faithful plainTexts).2 _ afterOne afterTwo (diskEntry "a" 0 1)
    (diskEntry "a" 60000 2) hreach (by rw [hone]; exact List.mem_cons_self) rfl rfl hpath
    (by rw [htwo]; exact List.mem_cons_self) rfl

theorem updateAlertHistory_twice :
    updateAlertHistory plainTexts [] [diskFull "a", diskFull "b"] 0 =
      some [diskEntry "a" 0 1, diskEntry "b" 0 1] := by
  have hkeys : alertKeys plainTexts [diskFull "a", diskFull "b"] =
      some [units "disk:disk full", units "disk:disk full"] := by decide +kernel
  have hseen : [diskFull "a", diskFull "b"].foldlM
      (observe plainTexts (indexByKey ([] : List (Entry Text))) 0) [] =
      some [diskEntry "a" 0 1, diskEntry "b" 0 1] := by decide +kernel
  have hsettle : [diskEntry "a" 0 1, diskEntry "b" 0 1].map
      (settle [units "disk:disk full", units "disk:disk full"] 0) =
      [diskEntry "a" 0 1, diskEntry "b" 0 1] := by decide +kernel
  have hsorted : byLastSeen [diskEntry "a" 0 1, diskEntry "b" 0 1] =
      [diskEntry "a" 0 1, diskEntry "b" 0 1] := by
    apply CursorPaging.byTime_of_sorted
    simp [diskEntry]
  rw [updateAlertHistory, hkeys, Option.bind_eq_bind, Option.bind_some, hseen,
    Option.bind_eq_bind, Option.bind_some, hsettle, hsorted]
  rfl

/-- One heartbeat brings the same new alert twice, and the history has it twice. -/
theorem seen_twice : ¬ ∀ s, Reach (heartbeats plainTexts) Always s → Faithful s := by
  intro hall
  have hreach : Reach (heartbeats plainTexts) Always
      (heartbeat plainTexts {} ⟨[diskFull "a", diskFull "b"], 0⟩) :=
    ⟨{}, rfl, .tail (.refl _) trivial rfl⟩
  have hkeys : (alertKeys plainTexts [diskFull "a", diskFull "b"]).isSome = true := by
    decide +kernel
  obtain ⟨keys, hkeys⟩ := Option.isSome_iff_exists.mp hkeys
  have honce := (hall _ hreach).once
  rw [heartbeat, updateAlertHistory_twice, hkeys] at honce
  exact (List.nodup_cons.mp honce).1 List.mem_cons_self

end Drac.Central.AlertHistory
