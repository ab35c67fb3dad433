import Mathlib.Data.List.Basic

/-
  Rounds over the front of a listing.

  A round reads the first `n` rows and takes out those with `p`; the rest of the page
  stays in front of what comes after.

    sweep            what a round leaves
    Reachable        every row with `p` has fewer than `n` rows without it before it
    reachable_sweep  a round does not change that
    front_stuck      where a page has no row with `p` left, none is left at all iff
                     every one was reachable
-/

namespace FrontPages

variable {α : Type*} (n : Nat) (p : α → Bool)

def sweep (rows : List α) : List α := (rows.take n).filter (fun a => !p a) ++ rows.drop n

/-- Fewer than `n` rows without `p` are before any with it. -/
def Reachable (rows : List α) : Prop :=
  ∀ before a after, rows = before ++ a :: after → p a = true →
    (before.filter (fun b => !p b)).length < n

variable {n p}

theorem split_behind {rows before after : List α} {a : α} (h : rows = before ++ a :: after)
    (hlong : n ≤ before.length) : before = rows.take n ++ before.drop n := by
  have htake : rows.take n = before.take n := by rw [h, List.take_append_of_le_length hlong]
  rw [htake, List.take_append_drop]

theorem reachable_sweep (rows : List α) : Reachable n p (sweep n p rows) ↔ Reachable n p rows := by
  constructor
  · intro hreach before a after h ha
    by_cases hlong : n ≤ before.length
    · have hbefore := split_behind h hlong
      have hdrop : rows.drop n = before.drop n ++ a :: after := by
        rw [h, List.drop_append_of_le_length hlong]
      have hlt := hreach ((rows.take n).filter (fun b => !p b) ++ before.drop n) a after
        (by rw [sweep, hdrop, List.append_assoc]) ha
      rw [hbefore]
      simpa using hlt
    · exact Nat.lt_of_le_of_lt (List.length_filter_le _ _) (Nat.not_le.mp hlong)
  · intro hreach before a after h ha
    unfold sweep at h
    rcases List.append_eq_append_iff.mp h with ⟨middle, rfl, hdrop⟩ | ⟨middle, hfront, -⟩
    · have hlt := hreach (rows.take n ++ middle) a after
        (by rw [List.append_assoc, ← hdrop, List.take_append_drop]) ha
      simpa using hlt
    · -- what stays of the page has no row with `p`
      cases middle with
      | nil =>
        rw [List.append_nil] at hfront
        have hdrop : rows.drop n = a :: after := by simpa [hfront] using h
        have hlt := hreach (rows.take n) a after (by rw [← hdrop, List.take_append_drop]) ha
        rw [← hfront, List.filter_filter]
        simpa only [Bool.and_self] using hlt
      | cons b middle =>
        have hhead : b = a := by
          rw [hfront, List.append_assoc, List.append_cancel_left_eq, List.cons_append] at h
          exact (List.cons.inj h).1
        have hmem : a ∈ (rows.take n).filter (fun b => !p b) := by
          rw [hfront, hhead]
          simp
        have hnot := List.of_mem_filter hmem
        rw [ha] at hnot
        cases hnot

theorem front_stuck {rows : List α} (h : ∀ a ∈ rows.take n, p a = false) :
    (∀ a ∈ rows, p a = false) ↔ Reachable n p rows := by
  constructor
  · intro hnone before a after hrows ha
    rw [hnone a (by rw [hrows]; simp)] at ha
    cases ha
  · intro hreach a ha
    by_contra hpa
    rw [Bool.not_eq_false] at hpa
    obtain ⟨before, after, hrows⟩ := List.append_of_mem ha
    have hlt := hreach before a after hrows hpa
    by_cases hlong : n ≤ before.length
    · have hall : (rows.take n).filter (fun b => !p b) = rows.take n :=
        List.filter_eq_self.mpr (fun b hb => by rw [h b hb]; rfl)
      have hlen : (rows.take n).length = n := by
        rw [List.length_take, hrows, List.length_append]
        omega
      rw [split_behind hrows hlong, List.filter_append, List.length_append, hall, hlen] at hlt
      omega
    · have hfront : a ∈ rows.take n := by
        rw [hrows, List.take_append, List.mem_append]
        obtain ⟨m, hm⟩ : ∃ m, n - before.length = m + 1 := ⟨n - before.length - 1, by omega⟩
        rw [hm, List.take_succ_cons]
        exact .inr List.mem_cons_self
      rw [h a hfront] at hpa
      cases hpa

end FrontPages
