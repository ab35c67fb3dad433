import Drac.CloudStorage.OffloadCycle

/-
  Cycle after cycle, does every recording go up?

  A recording whose file is missing, empty or outside the root is passed over and not
  marked, so it is read again in every cycle. As many of them as a batch holds, and nothing
  behind them is read any more (`blocked_step`). With fewer, each cycle uploads the recording
  or one before it (`free_step`). So a recording goes up exactly if in each cycle it is `Free`,
  as long as it has not (`offload_progress`); where no two rows name one file, it is free in
  all of them if it is in the first (`free_of_apart`).
-/

namespace Drac.CloudStorage

open PosixPath Runs QueueHead

/-! ## The property and the condition -/

/-- A recording the policy sends to the bucket, and whose content is on the disk. -/
structure Due (c : Settings) (s : Installation) (r : Recording) : Prop where
  row : r ∈ s.table.rows
  enabled : s.policy.enabled = true
  mode : r.triggerMode ∈ (enabledTriggerModes s.policy).map TriggerMode.text
  content : hasContent c s r = true

/-- How many of those before it have nothing to upload. -/
def stuckAhead (c : Settings) (s : Installation) (r : Recording) : Nat :=
  (ahead (·.id) (fila s) r.id).countP (fun x => !hasContent c s x)

/-- Its file is still there, and those in its way are fewer than a batch. -/
structure Free (c : Settings) (s : Installation) (r : Recording) : Prop where
  content : hasContent c s r = true
  ahead : stuckAhead c s r < c.batch

/-- No two rows name one file. -/
def Apart (c : Settings) (t : RecordingTable) : Prop :=
  ∀ x ∈ t.rows, ∀ y ∈ t.rows, ∀ p, ensureFileUnderRoot c.recordingsRoot x.filePath = some p →
    ensureFileUnderRoot c.recordingsRoot y.filePath = some p → x.id = y.id

/-! ## The queue from one cycle to the next -/

section Cycle

variable {c : Settings} {s t : Installation} {r : Recording}

theorem filter_later {later : Recording → Recording} {p : Recording → Bool} :
    ∀ rows : List Recording, (∀ x ∈ rows, Later x (later x)) →
      (∀ x, p x = true → x.cloudKey = none) →
      ((rows.map later).filter p).Sublist (rows.filter p)
  | [], _, _ => .slnil
  | a :: rows, hlater, hp => by
    have hrest := filter_later rows (fun x hx => hlater x (List.mem_cons_of_mem a hx)) hp
    rw [List.map_cons]
    by_cases hin : p (later a) = true
    · have hsame := (hlater a List.mem_cons_self).kept (hp _ hin)
      rw [hsame] at hin ⊢
      rw [List.filter_cons_of_pos hin, List.filter_cons_of_pos hin]
      exact hrest.cons_cons a
    · rw [List.filter_cons_of_neg hin]
      exact hrest.trans ((List.sublist_cons_self a rows).filter p)

theorem fila_sublist (h : Since c s t) : (fila t).Sublist (fila s) := by
  unfold fila
  rw [h.policy]
  split
  · refine CursorPaging.byTime_sublist ?_
    obtain ⟨later, hrows, hlater⟩ := h.rows
    rw [hrows]
    exact filter_later s.table.rows hlater
      (fun x hx => Option.isNone_iff_eq_none.mp (Bool.and_eq_true_iff.mp hx).1)
  · exact .slnil

theorem mem_fila_iff (h : Since c s t) (hr : r ∈ fila s) :
    r ∈ fila t ↔ ¬ Uploaded t.table r.id := by
  obtain ⟨hon, hrow, hkey, hmode⟩ := mem_fila.mp hr
  constructor
  · intro hin hup
    obtain ⟨-, hrow', hkey', -⟩ := mem_fila.mp hin
    have hsome := uploaded_row hrow' hup
    rw [hkey'] at hsome
    cases hsome
  · intro hnot
    refine mem_fila.mpr ⟨h.policy ▸ hon, (h.row_or hrow).resolve_right hnot, hkey, ?_⟩
    rw [h.policy]
    exact hmode

theorem stuck_stays (h : RunOnce c s t) {x : Recording} (hx : x ∈ fila s)
    (hstuck : hasContent c s x = false) : x ∈ fila t ∧ hasContent c t x = false := by
  obtain ⟨hsince, -⟩ := runOnce_going h
  obtain ⟨-, hrow, hkey, -⟩ := mem_fila.mp hx
  refine ⟨(mem_fila_iff hsince hx).mpr fun hup => ?_, ?_⟩
  · rw [((runOnce_uploads h hrow hkey).mp hup).2] at hstuck
    cases hstuck
  · rw [Bool.eq_false_iff] at hstuck ⊢
    exact fun hcontent => hstuck (hasContent_of_since hsince hcontent)

theorem blocked_step (h : RunOnce c s t) (hr : r ∈ fila s) (hblocked : ¬ Free c s r) :
    r ∈ fila t ∧ ¬ Free c t r := by
  obtain ⟨hsince, -⟩ := runOnce_going h
  obtain ⟨-, hrow, hkey, -⟩ := mem_fila.mp hr
  have hin : r ∈ fila t := by
    refine (mem_fila_iff hsince hr).mpr fun hup => hblocked ?_
    obtain ⟨hlote, hcontent⟩ := (runOnce_uploads h hrow hkey).mp hup
    refine ⟨hcontent, not_le.mp fun hle => ?_⟩
    have hlen : c.batch ≤ (ahead (·.id) (fila s) r.id).length := hle.trans List.countP_le_length
    exact not_mem_take hlen hlote
  refine ⟨hin, fun hfree => hblocked ⟨hasContent_of_since hsince hfree.content, ?_⟩⟩
  refine lt_of_le_of_lt (countP_ahead_le (fila_sublist hsince) (fila_nodup s) hin ?_) hfree.ahead
  intro x hx hstuck
  rw [Bool.not_eq_true'] at hstuck ⊢
  exact stuck_stays h hx hstuck

theorem free_step (h : RunOnce c s t) (hr : r ∈ fila s) (hfree : Free c s r) :
    Uploaded t.table r.id ∨ (fila t).length < (fila s).length := by
  obtain ⟨hsince, -⟩ := runOnce_going h
  have hup : ∀ x ∈ lote c s, hasContent c s x = true → Uploaded t.table x.id := by
    intro x hx hcontent
    obtain ⟨hrow, hkey⟩ := row_of_mem_lote hx
    exact (runOnce_uploads h hrow hkey).mpr ⟨hx, hcontent⟩
  rcases mem_take_or (fun x => !hasContent c s x) hr (fila_nodup s) hfree.ahead with
    hin | ⟨x, hx, hcontent⟩
  · exact .inl (hup r hin hfree.content)
  · right
    have hsub := fila_sublist hsince
    refine lt_of_le_of_ne hsub.length_le fun hlen => ?_
    have hmem : x ∈ fila t := by
      rw [hsub.eq_of_length hlen]
      exact List.mem_of_mem_take hx
    rw [Bool.not_eq_false'] at hcontent
    exact (mem_fila_iff hsince (List.mem_of_mem_take hx)).mp hmem (hup x hx hcontent)

theorem content_stays (hsince : Since c s t) (hapart : Apart c s.table) (hr : r ∈ fila t)
    (hcontent : hasContent c s r = true) : hasContent c t r = true := by
  unfold hasContent at hcontent ⊢
  cases hpath : ensureFileUnderRoot c.recordingsRoot r.filePath with
  | none =>
    rw [hpath] at hcontent
    exact hcontent
  | some p =>
    rw [hpath, Option.bind_some] at hcontent
    rw [Option.bind_some]
    rcases hsince.files p with hsame | ⟨-, x, hx, hkey, hp⟩
    · rw [hsame]
      exact hcontent
    · obtain ⟨-, hrow, hnone, -⟩ := mem_fila.mp hr
      obtain ⟨x₀, hx₀, hlater⟩ := hsince.earlier hx
      obtain ⟨r₀, hr₀, hsame⟩ := hsince.earlier hrow
      have hid := hapart x₀ hx₀ r₀ hr₀ p (hlater.filePath ▸ hp) (hsame.filePath ▸ hpath)
      have heq : x = r := t.table.eq_of_id hx hrow (by rw [hlater.id, hid, hsame.id])
      rw [heq, hnone] at hkey
      cases hkey

theorem apart_stays (hsince : Since c s t) (hapart : Apart c s.table) : Apart c t.table := by
  intro x hx y hy p hxp hyp
  obtain ⟨x₀, hx₀, hx'⟩ := hsince.earlier hx
  obtain ⟨y₀, hy₀, hy'⟩ := hsince.earlier hy
  rw [hx'.id, hy'.id]
  exact hapart x₀ hx₀ y₀ hy₀ p (hx'.filePath ▸ hxp) (hy'.filePath ▸ hyp)

theorem free_stays (hsince : Since c s t) (hapart : Apart c s.table) (hr : r ∈ fila t)
    (hfree : Free c s r) : Free c t r := by
  refine ⟨content_stays hsince hapart hr hfree.content, ?_⟩
  refine lt_of_le_of_lt (countP_ahead_ge (fila_sublist hsince) (fila_nodup s) hr ?_) hfree.ahead
  intro x hx hstuck
  rw [Bool.not_eq_true', Bool.eq_false_iff] at hstuck ⊢
  exact fun hcontent => hstuck (content_stays hsince hapart hx hcontent)

end Cycle

/-! ## Cycle after cycle -/

section Cycles

variable {c : Settings} {run : ℕ → Installation} (hrun : ∀ n, RunOnce c (run n) (run (n + 1)))
  {r : Recording}
include hrun

theorem run_since (n : ℕ) {id : Text} (h : Uploaded (run 0).table id) :
    Uploaded (run n).table id := by
  induction n with
  | zero => exact h
  | succ n ih => exact (runOnce_going (hrun n)).1.uploaded ih

theorem waits (hr : r ∈ fila (run 0)) (n : ℕ) :
    r ∈ fila (run n) ∨ Uploaded (run n).table r.id := by
  induction n with
  | zero => exact .inl hr
  | succ n ih =>
    obtain ⟨hsince, -⟩ := runOnce_going (hrun n)
    rcases ih with hin | hup
    · by_cases hup : Uploaded (run (n + 1)).table r.id
      · exact .inr hup
      · exact .inl ((mem_fila_iff hsince hin).mpr hup)
    · exact .inr (hsince.uploaded hup)

theorem blocked_forever {n : ℕ} (hr : r ∈ fila (run n)) (hblocked : ¬ Free c (run n) r) (k : ℕ) :
    r ∈ fila (run (n + k)) ∧ ¬ Free c (run (n + k)) r := by
  induction k with
  | zero => exact ⟨hr, hblocked⟩
  | succ k ih => exact blocked_step (hrun (n + k)) ih.1 ih.2

theorem uploaded_of_free (hr : r ∈ fila (run 0))
    (hfree : ∀ n, ¬ Uploaded (run n).table r.id → Free c (run n) r) :
    ∃ n, Uploaded (run n).table r.id := by
  by_contra hnever
  rw [not_exists] at hnever
  have hshorter : ∀ n, (fila (run (n + 1))).length < (fila (run n)).length := by
    intro n
    have hin := (waits hrun hr n).resolve_right (hnever n)
    exact (free_step (hrun n) hin (hfree n (hnever n))).resolve_left (hnever (n + 1))
  have hbound : ∀ n, (fila (run n)).length + n ≤ (fila (run 0)).length := by
    intro n
    induction n with
    | zero => exact le_rfl
    | succ n ih =>
      have := hshorter n
      omega
  have := hbound ((fila (run 0)).length + 1)
  omega

/-- **When a recording goes up**: in each cycle before, its file is there and those it cannot
pass are fewer than a batch. -/
theorem offload_progress (hdue : Due c (run 0) r) :
    (∃ n, Uploaded (run n).table r.id) ↔
      ∀ n, ¬ Uploaded (run n).table r.id → Free c (run n) r := by
  by_cases hkey : r.cloudKey = none
  · have hr : r ∈ fila (run 0) := mem_fila.mpr ⟨hdue.enabled, hdue.row, hkey, hdue.mode⟩
    refine ⟨?_, uploaded_of_free hrun hr⟩
    rintro ⟨m, hm⟩ n hn
    by_contra hblocked
    have hin := (waits hrun hr n).resolve_right hn
    rcases Nat.le_total n m with hle | hle
    · obtain ⟨k, rfl⟩ := Nat.exists_eq_add_of_le hle
      obtain ⟨hstill, -⟩ := blocked_forever hrun hin hblocked k
      obtain ⟨-, hrow, hnone, -⟩ := mem_fila.mp hstill
      have hsome := uploaded_row hrow hm
      rw [hnone] at hsome
      cases hsome
    · obtain ⟨k, rfl⟩ := Nat.exists_eq_add_of_le hle
      have hlater : ∀ i, RunOnce c (run (m + i)) (run (m + (i + 1))) := fun i => hrun (m + i)
      exact hn (run_since hlater k hm)
  · have hup : Uploaded (run 0).table r.id :=
      ⟨r, hdue.row, rfl, Option.isSome_iff_ne_none.mpr hkey⟩
    exact ⟨fun _ n hn => absurd (run_since hrun n hup) hn, fun _ => ⟨0, hup⟩⟩

/-- Where no two rows name one file, what is free at first stays free. -/
theorem free_of_apart (hapart : Apart c (run 0).table) (hr : r ∈ fila (run 0))
    (hfree : Free c (run 0) r) (n : ℕ) (hn : ¬ Uploaded (run n).table r.id) :
    Free c (run n) r := by
  have hboth : Apart c (run n).table ∧ (¬ Uploaded (run n).table r.id → Free c (run n) r) := by
    clear hn
    induction n with
    | zero => exact ⟨hapart, fun _ => hfree⟩
    | succ n ih =>
      obtain ⟨hsince, -⟩ := runOnce_going (hrun n)
      refine ⟨apart_stays hsince ih.1, fun hn => ?_⟩
      have hin := (waits hrun hr (n + 1)).resolve_right hn
      exact free_stays hsince ih.1 hin (ih.2 fun hup => hn (hsince.uploaded hup))
  exact hboth.2 hn

end Cycles

theorem exists_run (c : Settings) {s : Installation} (hidle : s.running = false)
    (hstorage : s.storage.isSome = true) :
    ∃ run : ℕ → Installation, run 0 = s ∧ ∀ n, RunOnce c (run n) (run (n + 1)) := by
  have hnext : ∀ u : {u : Installation // u.running = false ∧ u.storage.isSome = true},
      ∃ v : {u : Installation // u.running = false ∧ u.storage.isSome = true},
        RunOnce c u.1 v.1 := by
    intro u
    obtain ⟨t, honce, hready⟩ := runOnce_total c u.2.1 u.2.2
    exact ⟨⟨t, hready⟩, honce⟩
  choose next honce using hnext
  refine ⟨fun n => (next^[n] ⟨s, hidle, hstorage⟩).1, rfl, fun n => ?_⟩
  show RunOnce c (next^[n] ⟨s, hidle, hstorage⟩).1 (next^[n + 1] ⟨s, hidle, hstorage⟩).1
  rw [Function.iterate_succ_apply']
  exact honce _

def lostClip : Recording := { clip with id := "6".toList, filePath := "perdido.mp4".toList }

/-- A row whose file is gone, and one that can go up. -/
def lostClipFirst : Installation :=
  { clipOnDisk with table := ⟨[lostClip, clip], by decide⟩ }

theorem fila_lostClipFirst : fila lostClipFirst = [lostClip, clip] :=
  CursorPaging.byTime_of_sorted (l := [lostClip, clip]) (by simp [lostClip])

/-- In a batch of 25 the row ahead is passed. -/
theorem offload_progress_clip : ∃ run : ℕ → Installation, run 0 = lostClipFirst ∧
    (∀ n, RunOnce clipSettings (run n) (run (n + 1))) ∧
      stuckAhead clipSettings (run 0) clip = 1 ∧ ∃ n, Uploaded (run n).table clip.id := by
  obtain ⟨run, hzero, hrun⟩ := exists_run clipSettings (s := lostClipFirst) rfl rfl
  have hcontent : hasContent clipSettings lostClipFirst clip = true := by decide +kernel
  have hdue : Due clipSettings (run 0) clip := by
    rw [hzero]
    exact ⟨by simp [lostClipFirst], rfl, by decide, hcontent⟩
  have hr : clip ∈ fila (run 0) := mem_fila.mpr ⟨hdue.enabled, hdue.row, rfl, hdue.mode⟩
  have hstuck : stuckAhead clipSettings (run 0) clip = 1 := by
    rw [hzero, stuckAhead, fila_lostClipFirst]
    decide +kernel
  have hfirst : Free clipSettings (run 0) clip := by
    refine ⟨hzero ▸ hcontent, ?_⟩
    rw [hstuck]
    decide
  have hapart : Apart clipSettings (run 0).table := by
    have hfiles : ensureFileUnderRoot clipSettings.recordingsRoot lostClip.filePath ≠
        ensureFileUnderRoot clipSettings.recordingsRoot clip.filePath := by
      decide +kernel
    rw [hzero]
    intro x hx y hy p hxp hyp
    simp only [lostClipFirst, List.mem_cons, List.not_mem_nil, or_false] at hx hy
    obtain rfl | rfl := hx <;> obtain rfl | rfl := hy
    · rfl
    · exact absurd (hxp.trans hyp.symm) hfiles
    · exact absurd (hyp.trans hxp.symm) hfiles
    · rfl
  exact ⟨run, hzero, hrun, hstuck,
    (offload_progress hrun hdue).mpr (free_of_apart hrun hapart hr hfirst)⟩

def oneByOne : Settings := { clipSettings with batch := 1 }

/-- One row whose file is gone, a batch of one: nothing goes up any more. -/
theorem offload_blocked : ∃ run : ℕ → Installation,
    (∀ n, RunOnce oneByOne (run n) (run (n + 1))) ∧ Due oneByOne (run 0) clip ∧
      ∀ n, ¬ Uploaded (run n).table clip.id := by
  obtain ⟨run, hzero, hrun⟩ := exists_run oneByOne (s := lostClipFirst) rfl rfl
  have hdue : Due oneByOne (run 0) clip := by
    rw [hzero]
    exact ⟨by simp [lostClipFirst], rfl, by decide, by decide +kernel⟩
  have hr : clip ∈ fila (run 0) := mem_fila.mpr ⟨hdue.enabled, hdue.row, rfl, hdue.mode⟩
  have hblocked : ¬ Free oneByOne (run 0) clip := by
    rw [hzero]
    rintro ⟨-, hahead⟩
    rw [stuckAhead, fila_lostClipFirst] at hahead
    revert hahead
    decide +kernel
  refine ⟨run, hrun, hdue, fun n hn => ?_⟩
  have hstill := (blocked_forever hrun hr hblocked n).1
  rw [Nat.zero_add] at hstill
  obtain ⟨-, hrow, hnone, -⟩ := mem_fila.mp hstill
  have hsome := uploaded_row hrow hn
  rw [hnone] at hsome
  cases hsome

end Drac.CloudStorage
