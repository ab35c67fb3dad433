import Mathlib.Data.List.DropRight

/-
  Lines of a text that arrives in pieces.

  `splitLines` is `text.split(/\r\n|\r|\n/)`: a pair of breaks is one. `feed` takes every break
  alone, and so a text in pieces as it takes the whole (`feed_append`). Where a pair is cut, one
  more line comes about, which is empty: of the lines that are not empty both give the same
  (`splitLines_eq_feed`).
-/

namespace LineScan

variable {α : Type} [DecidableEq α] (cr lf : α)

/-- `/\r\n|\r|\n/` takes a place of a line. -/
def isBreak (c : α) : Bool := c = cr || c = lf

/-- The lines of a text, where `cur` is read of the first one. -/
def splitFrom (cur : List α) : List α → List (List α)
  | [] => [cur]
  | [c] => if isBreak cr lf c then [cur, []] else [cur ++ [c]]
  | c :: d :: rest =>
    if c = cr ∧ d = lf then cur :: splitFrom [] rest
    else if isBreak cr lf c then cur :: splitFrom [] (d :: rest)
    else splitFrom (cur ++ [c]) (d :: rest)

def splitLines (text : List α) : List (List α) := splitFrom cr lf [] text

def feed (cur : List α) : List α → List (List α) × List α
  | [] => ([], cur)
  | c :: rest =>
    if isBreak cr lf c then (cur :: (feed [] rest).1, (feed [] rest).2)
    else feed (cur ++ [c]) rest

section Feed

variable {cr lf} {cur : List α}

theorem feed_break {c : α} {rest : List α} (h : isBreak cr lf c = true) :
    feed cr lf cur (c :: rest) = (cur :: (feed cr lf [] rest).1, (feed cr lf [] rest).2) := by
  rw [feed, if_pos h]

theorem feed_other {c : α} {rest : List α} (h : isBreak cr lf c = false) :
    feed cr lf cur (c :: rest) = feed cr lf (cur ++ [c]) rest := by
  rw [feed, if_neg (by simp [h])]

/-- **A text in two pieces is taken as the whole.** -/
theorem feed_append (s t : List α) : feed cr lf cur (s ++ t) =
    ((feed cr lf cur s).1 ++ (feed cr lf (feed cr lf cur s).2 t).1,
      (feed cr lf (feed cr lf cur s).2 t).2) := by
  induction s generalizing cur with
  | nil => rfl
  | cons c s ih =>
    rw [List.cons_append]
    cases hc : isBreak cr lf c with
    | true => rw [feed_break hc, feed_break hc, ih, List.cons_append]
    | false => rw [feed_other hc, feed_other hc, ih]

theorem feed_open {s : List α} (hs : ∀ c ∈ s, isBreak cr lf c = false) :
    feed cr lf cur s = ([], cur ++ s) := by
  induction s generalizing cur with
  | nil => rw [feed, List.append_nil]
  | cons c s ih =>
    obtain ⟨hc, hs⟩ := List.forall_mem_cons.mp hs
    rw [feed_other hc, ih hs, List.append_assoc, List.singleton_append]

theorem feed_snd_open {text : List α} (hcur : ∀ c ∈ cur, isBreak cr lf c = false) :
    ∀ c ∈ (feed cr lf cur text).2, isBreak cr lf c = false := by
  induction text generalizing cur with
  | nil => exact hcur
  | cons c text ih =>
    cases hc : isBreak cr lf c with
    | true =>
      rw [feed_break hc]
      exact ih (by simp)
    | false =>
      rw [feed_other hc]
      apply ih
      intro d hd
      obtain hd | hd := List.mem_append.mp hd
      · exact hcur d hd
      · rwa [List.mem_singleton.mp hd]

theorem feed_begins (text : List α) :
    ∃ line ∈ (feed cr lf cur text).1 ++ [(feed cr lf cur text).2], cur <+: line := by
  induction text generalizing cur with
  | nil => exact ⟨cur, by simp [feed], List.prefix_refl cur⟩
  | cons c text ih =>
    cases hc : isBreak cr lf c with
    | true => exact ⟨cur, by simp [feed_break hc], List.prefix_refl cur⟩
    | false =>
      obtain ⟨line, hline, hpre⟩ := @ih (cur ++ [c])
      rw [feed_other hc]
      exact ⟨line, hline, (List.prefix_append cur [c]).trans hpre⟩

end Feed

section Split

variable {cr lf} {cur : List α}

theorem splitFrom_eq_feed {keep : List α → Bool} (hkeep : keep [] = false) (text : List α) :
    ∃ lines, splitFrom cr lf cur text = lines ++ [(feed cr lf cur text).2] ∧
      lines.filter keep = (feed cr lf cur text).1.filter keep := by
  fun_induction splitFrom cr lf cur text with
  | case1 cur => exact ⟨[], rfl, rfl⟩
  | case2 cur c hc =>
    rw [feed_break hc]
    exact ⟨[cur], rfl, rfl⟩
  | case3 cur c hc =>
    rw [feed_other (Bool.eq_false_iff.mpr hc)]
    exact ⟨[], rfl, rfl⟩
  | case4 cur c d rest hpair ih =>
    -- the line between the two breaks is empty
    obtain ⟨lines, hsplit, hfilter⟩ := ih
    obtain ⟨rfl, rfl⟩ := hpair
    rw [feed_break (by simp [isBreak]), feed_break (by simp [isBreak])]
    refine ⟨cur :: lines, by rw [hsplit, List.cons_append], ?_⟩
    rw [List.filter_cons, List.filter_cons, List.filter_cons, hfilter, hkeep]
    rfl
  | case5 cur c d rest hpair hc ih =>
    obtain ⟨lines, hsplit, hfilter⟩ := ih
    rw [feed_break hc]
    refine ⟨cur :: lines, by rw [hsplit, List.cons_append], ?_⟩
    rw [List.filter_cons, List.filter_cons, hfilter]
  | case6 cur c d rest hpair hc ih =>
    rw [feed_other (Bool.eq_false_iff.mpr hc)]
    exact ih

theorem splitLines_filter {keep : List α → Bool} (hkeep : keep [] = false) (text : List α) :
    (splitLines cr lf text).filter keep =
      ((feed cr lf [] text).1 ++ [(feed cr lf [] text).2]).filter keep := by
  obtain ⟨lines, hsplit, hfilter⟩ := @splitFrom_eq_feed _ _ cr lf [] keep hkeep text
  rw [splitLines, hsplit, List.filter_append, List.filter_append, hfilter]

theorem mem_splitLines {text line : List α}
    (h : line ∈ (feed cr lf [] text).1 ++ [(feed cr lf [] text).2]) :
    line = [] ∨ line ∈ splitLines cr lf text := by
  by_cases hne : line = []
  · exact .inl hne
  · right
    have hfilter := @splitLines_filter _ _ cr lf (fun l => l ≠ []) (by simp) text
    have hmem : line ∈ ((feed cr lf [] text).1 ++ [(feed cr lf [] text).2]).filter (fun l => l ≠ []) :=
      List.mem_filter.mpr ⟨h, by simpa using hne⟩
    rw [← hfilter] at hmem
    exact (List.mem_filter.mp hmem).1

end Split

/-! ## The last of the lines -/

section Last

variable {β : Type}

/-- The last `n` of a list are enough to know the last `n` of a longer one. -/
theorem rtake_rtake_append (n : ℕ) (l m : List β) :
    ((l.rtake n) ++ m).rtake n = (l ++ m).rtake n := by
  simp only [List.rtake_eq_reverse_take_reverse, List.reverse_append, List.reverse_reverse,
    List.take_append, List.take_take]
  congr 3
  omega

theorem length_rtake_le (n : ℕ) (l : List β) : (l.rtake n).length ≤ n := by
  rw [List.rtake_eq_reverse_take_reverse, List.length_reverse]
  exact List.length_take_le _ _

theorem mem_of_mem_rtake {n : ℕ} {l : List β} {x : β} (h : x ∈ l.rtake n) : x ∈ l :=
  List.mem_of_mem_drop h

end Last

end LineScan
