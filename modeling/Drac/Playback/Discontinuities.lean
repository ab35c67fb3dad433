import Drac.Playback.VodPlaylist
import Drac.Recordings.RangeExportCoverage

/-
  What a discontinuity of a planned playlist says of the segments up to the next.

  A turn of the loop looks at the segment before and no further, so a segment of no known
  codec hides a change of codec from the segment after it. `planVodPlaylist_sound_iff`: the
  runs of a playlist can be played by one decoder unless two segments of different codecs are
  in a row but for such segments.
-/

namespace Drac.Playback

open Binary64 JsText Recordings

/-! ## Agreement along a list -/

section Along

variable {α : Type} {R S : α → α → Prop} {l : List α}

theorem isChain_both (hR : l.IsChain R) (hS : l.IsChain S) :
    l.IsChain (fun a b => R a b ∧ S a b) := by
  induction l with
  | nil => exact .nil
  | cons a rest ih =>
    obtain ⟨hRa, hRrest⟩ := List.isChain_cons.mp hR
    obtain ⟨hSa, hSrest⟩ := List.isChain_cons.mp hS
    exact List.isChain_cons.mpr ⟨fun b hb => ⟨hRa b hb, hSa b hb⟩, ih hRrest hSrest⟩

/-- A relation between any element and any later one, whatever lies between. -/
theorem pairwise_of_infix (h : ∀ a between b, a :: (between ++ [b]) <:+: l → R a b) :
    l.Pairwise R := by
  induction l with
  | nil => exact .nil
  | cons a rest ih =>
    refine List.pairwise_cons.mpr ⟨fun b hb => ?_, ?_⟩
    · obtain ⟨between, after, rfl⟩ := List.append_of_mem hb
      refine h a between b ⟨[], after, ?_⟩
      simp
    · exact ih (fun c between b hin => h c between b (hin.trans (List.suffix_cons a rest).isInfix))

theorem agree_of_bridges (say : α → Bool) (hnext : l.IsChain R)
    (hbridge : ∀ a between b, a :: (between ++ [b]) <:+: l → between ≠ [] →
      (∀ u ∈ between, say u = false) → R a b)
    (htrans : ∀ a b c, say b = true → R a b → R b c → R a c) :
    ∀ (between : List α) (a b : α), a :: (between ++ [b]) <:+: l → R a b := by
  intro between
  induction h : between.length using Nat.strong_induction_on generalizing between with
  | _ n ih =>
    intro a b hin
    by_cases hsilent : ∀ u ∈ between, say u = false
    · by_cases hnone : between = []
      · subst hnone
        exact List.isChain_pair.mp ( hnext.infix hin)
      · exact hbridge a between b hin hnone hsilent
    · -- one with a say splits the stretch into two shorter ones
      push Not at hsilent
      obtain ⟨m, hm, hsay⟩ := hsilent
      obtain ⟨left, right, rfl⟩ := List.append_of_mem hm
      have hlength : left.length + (right.length + 1) = n := by simpa using h
      have hleft : a :: (left ++ [m]) <:+: l :=
        List.IsInfix.trans ⟨[], right ++ [b], by simp⟩ hin
      have hright : m :: (right ++ [b]) <:+: l :=
        List.IsInfix.trans ⟨a :: left, [], by simp⟩ hin
      exact htrans a m b (by simpa using hsay) (ih left.length (by omega) left rfl a m hleft)
        (ih right.length (by omega) right rfl m b hright)

end Along

/-! ## Runs -/

/-- `toleranceMs` of a request. -/
def vodToleranceMs (input : PlanVodPlaylistInput) : ℚ :=
  max 0 (fl (input.gapToleranceSeconds.getD 1 * 1000))

def VodPlaylistSegment.candidate (segment : VodPlaylistSegment) : VodCandidate where
  id := segment.recordingId
  startMs := segment.startedAt
  endMs := segment.endedAt
  codec := segment.codec

/-- Contiguous within the tolerance, by `deltaMs`. -/
def Joins (toleranceMs : ℚ) (a b : VodCandidate) : Prop :=
  |fl (b.startMs - a.endMs : ℤ)| ≤ toleranceMs

/-- The same codec, where both are known. -/
def SameCodec (a b : VodCandidate) : Prop :=
  ∀ c d, a.codec = some c → b.codec = some d → c = d

/-- **Discontinuities that are sound.** -/
def DiscontinuitiesSound (toleranceMs : ℚ) (segments : List VodPlaylistSegment) : Prop :=
  ∀ run, run <:+: segments → run.IsChain (fun _ b => b.discontinuityReason = none) →
    run.IsChain (fun a b => Joins toleranceMs a.candidate b.candidate) ∧
      ∀ a ∈ run, ∀ b ∈ run, SameCodec a.candidate b.candidate

/-- No change of codec behind contiguous segments of no known codec. -/
def NoMaskedChange (toleranceMs : ℚ) (selected : List VodCandidate) : Prop :=
  ∀ a between b, a :: (between ++ [b]) <:+: selected → between ≠ [] →
    (∀ u ∈ between, u.codec = none) →
    (a :: (between ++ [b])).IsChain (Joins toleranceMs) → SameCodec a b

theorem sameCodec_refl (a : VodCandidate) : SameCodec a a :=
  fun _ _ hc hd => Option.some_inj.mp (hc.symm.trans hd)

theorem sameCodec_symm {a b : VodCandidate} (h : SameCodec a b) : SameCodec b a :=
  fun c d hc hd => (h d c hd hc).symm

theorem sameCodec_of_unknown {a b : VodCandidate} (h : a.codec = none ∨ b.codec = none) :
    SameCodec a b := by
  intro c d hc hd
  rcases h with h | h
  · rw [h] at hc
    cases hc
  · rw [h] at hd
    cases hd

theorem isChain_silent_append {b : VodCandidate} {between : List VodCandidate}
    (hsilent : ∀ u ∈ between, u.codec = none) : (between ++ [b]).IsChain SameCodec := by
  induction between with
  | nil => exact List.isChain_singleton b
  | cons u rest ih =>
    refine List.isChain_cons.mpr ⟨fun _ _ => ?_, ih (fun v hv => hsilent v (List.mem_cons_of_mem _ hv))⟩
    exact sameCodec_of_unknown (.inl (hsilent u List.mem_cons_self))

theorem isChain_silent {a b : VodCandidate} {between : List VodCandidate} (hne : between ≠ [])
    (hsilent : ∀ u ∈ between, u.codec = none) : (a :: (between ++ [b])).IsChain SameCodec := by
  cases between with
  | nil => exact absurd rfl hne
  | cons u rest =>
    have hfirst := sameCodec_of_unknown (a := a) (.inr (hsilent u List.mem_cons_self))
    exact List.isChain_cons_cons.mpr ⟨hfirst, isChain_silent_append hsilent⟩

section Turns

variable {toleranceMs : ℚ}

theorem discontinuityOf_eq_none {a b : VodCandidate} :
    discontinuityOf toleranceMs (some a) b = none ↔ Joins toleranceMs a b ∧ SameCodec a b := by
  have hcodec : (a.codec.isSome && b.codec.isSome && a.codec ≠ b.codec) = false ↔ SameCodec a b := by
    unfold SameCodec
    cases a.codec <;> cases b.codec <;> simp
  rw [← hcodec, Joins, abs_le, discontinuityOf]
  generalize fl ((b.startMs - a.endMs : ℤ) : ℚ) = deltaMs
  split
  · next hgap => simp [not_le.mpr hgap]
  · next hgap =>
    split
    · next hover => simp [not_le.mpr hover]
    · next hover =>
      rw [← not_lt, ← not_lt, and_iff_right ⟨hover, hgap⟩]
      simp

theorem planSegments_reasons (toleranceMs : ℚ) (previous : Option VodCandidate) (cursorMs : ℚ)
    (selected : List VodCandidate) :
    (planSegments toleranceMs previous cursorMs selected).map (·.candidate) = selected ∧
      (planSegments toleranceMs previous cursorMs selected).IsChain (fun a b =>
        b.discontinuityReason = discontinuityOf toleranceMs (some a.candidate) b.candidate) := by
  induction selected generalizing previous cursorMs with
  | nil => exact ⟨rfl, .nil⟩
  | cons current rest ih =>
    obtain ⟨hmap, hchain⟩ := ih (some current) (advanceMs cursorMs current)
    refine ⟨congrArg (current :: ·) hmap, List.isChain_cons.mpr ⟨?_, hchain⟩⟩
    cases rest with
    | nil => simp [planSegments]
    | cons next rest =>
      intro b hb
      cases hb
      rfl

/-- The runs of a plan are sound just where no change of codec is hidden. -/
theorem planSegments_sound_iff (cursorMs : ℚ) (selected : List VodCandidate) :
    DiscontinuitiesSound toleranceMs (planSegments toleranceMs none cursorMs selected) ↔
      NoMaskedChange toleranceMs selected := by
  obtain ⟨hmap, hreasons⟩ := planSegments_reasons toleranceMs none cursorMs selected
  constructor
  · intro hsound a between b hin hne hsilent hjoins
    rw [← hmap, List.infix_map_iff] at hin
    obtain ⟨run, hrun, heq⟩ := hin
    -- one of two neighbours has no known codec, so the stretch is a run
    have hcodecs : (a :: (between ++ [b])).IsChain SameCodec := isChain_silent hne hsilent
    have hboth := isChain_both hjoins hcodecs
    rw [heq, List.isChain_map] at hboth
    have hunbroken : run.IsChain (fun _ b => b.discontinuityReason = none) := by
      refine (isChain_both hboth ( hreasons.infix hrun)).imp ?_
      rintro c d ⟨hagree, hreason⟩
      exact hreason.trans (discontinuityOf_eq_none.mpr hagree)
    have hsame : ∀ c ∈ run.map (·.candidate), ∀ d ∈ run.map (·.candidate), SameCodec c d := by
      intro c hc d hd
      obtain ⟨c', hc', rfl⟩ := List.mem_map.mp hc
      obtain ⟨d', hd', rfl⟩ := List.mem_map.mp hd
      exact (hsound run hrun hunbroken).2 c' hc' d' hd'
    rw [← heq] at hsame
    exact hsame a (by simp) b (by simp)
  · intro hbridge run hrun hunbroken
    have hboth : run.IsChain (fun a b =>
        Joins toleranceMs a.candidate b.candidate ∧ SameCodec a.candidate b.candidate) := by
      refine (isChain_both hunbroken ( hreasons.infix hrun)).imp ?_
      rintro a b ⟨hnone, hreason⟩
      exact discontinuityOf_eq_none.mp (hreason.symm.trans hnone)
    have hjoins := hboth.imp (fun _ _ h => h.1)
    refine ⟨hjoins, ?_⟩
    have hsplit : ∀ (between : List VodPlaylistSegment) (a b : VodPlaylistSegment),
        a :: (between ++ [b]) <:+: run → SameCodec a.candidate b.candidate := by
      refine agree_of_bridges (fun s => s.codec.isSome) (hboth.imp (fun _ _ h => h.2)) ?_ ?_
      · intro a between b hin hne hsilent
        refine hbridge a.candidate (between.map (·.candidate)) b.candidate ?_ (by simpa using hne) ?_ ?_
        · rw [← hmap]
          simpa using (hin.trans hrun).map (·.candidate)
        · intro u hu
          obtain ⟨v, hv, rfl⟩ := List.mem_map.mp hu
          show v.codec = none
          simpa using hsilent v hv
        · have hstretch := (List.isChain_map VodPlaylistSegment.candidate).mpr ( hjoins.infix hin)
          simpa using hstretch
      · intro a m b hm ham hmb c d hc hd
        obtain ⟨e, he⟩ := Option.isSome_iff_exists.mp hm
        exact (ham c e hc he).trans (hmb e d he hd)
    have hpairs : run.Pairwise (fun a b => SameCodec a.candidate b.candidate) :=
      pairwise_of_infix (fun a between b hin => hsplit between a b hin)
    intro a ha b hb
    exact List.Pairwise.forall_of_forall_of_flip
      (R := fun a b : VodPlaylistSegment => SameCodec a.candidate b.candidate)
      (fun x _ => sameCodec_refl _) hpairs (hpairs.imp (fun h => sameCodec_symm h)) ha hb

end Turns

/-- **When a playlist's discontinuities are sound.** Unless segments of no known codec lie,
all contiguous, between two of different codecs. -/
theorem planVodPlaylist_sound_iff (order : LocaleOrder) (input : PlanVodPlaylistInput)
    (fromMs toMs : ℤ) (plan : VodPlaylistPlan) (hfrom : input.fromAt = some fromMs)
    (hto : input.toAt = some toMs) (hplan : planVodPlaylist order input = .ok plan) :
    DiscontinuitiesSound (vodToleranceMs input) plan.segments ↔
      NoMaskedChange (vodToleranceMs input) (selectedSegments order input fromMs toMs) := by
  unfold planVodPlaylist at hplan
  rw [hfrom, hto] at hplan
  simp only at hplan
  split at hplan
  · cases hplan
  · cases hplan
    exact planSegments_sound_iff 0 _

def threeFiles (second : Option String) : PlanVodPlaylistInput where
  segments :=
    [{ id := ⟨"a", by decide, by decide⟩, startedAt := some 0, endedAt := some 60000,
       codec := some "h264" },
      { id := ⟨"b", by decide, by decide⟩, startedAt := some 60000, endedAt := some 120000,
        codec := second },
      { id := ⟨"c", by decide, by decide⟩, startedAt := some 120000, endedAt := some 180000,
        codec := some "hevc" }]
  fromAt := some 0
  toAt := some 180000

theorem planVodPlaylist_sound_known :
    ∃ plan, planVodPlaylist byCodePoint (threeFiles (some "hevc")) = .ok plan ∧
      (DiscontinuitiesSound (vodToleranceMs (threeFiles (some "hevc"))) plan.segments ↔
        NoMaskedChange (vodToleranceMs (threeFiles (some "hevc")))
          (selectedSegments byCodePoint (threeFiles (some "hevc")) 0 180000)) :=
  ⟨_, rfl, planVodPlaylist_sound_iff byCodePoint (threeFiles (some "hevc")) 0 180000 _ rfl rfl rfl⟩

/-- The codec of the second is not known: one run from H.264 into HEVC. -/
theorem planVodPlaylist_masks_change :
    ∃ plan, planVodPlaylist byCodePoint (threeFiles none) = .ok plan ∧ plan.discontinuities = 0 ∧
      ¬ DiscontinuitiesSound (vodToleranceMs (threeFiles none)) plan.segments := by
  have hmade : (planVodPlaylist byCodePoint (threeFiles none)).toOption.map (fun plan =>
      (plan.segments.map (fun s => (s.discontinuityReason, s.codec)), plan.discontinuities)) =
      some ([(none, some "h264"), (none, none), (none, some "hevc")], 0) := by
    decide +kernel
  cases hplan : planVodPlaylist byCodePoint (threeFiles none) with
  | error e =>
    rw [hplan] at hmade
    cases hmade
  | ok plan =>
    rw [hplan] at hmade
    obtain ⟨hsegments, hcount⟩ := Prod.mk.inj (Option.some_inj.mp hmade)
    refine ⟨plan, rfl, hcount, ?_⟩
    intro hsound
    -- the whole playlist is one run, from its first segment to its last
    have hrun : plan.segments.IsChain (fun _ b => b.discontinuityReason = none) := by
      have hchain : (plan.segments.map (fun s => (s.discontinuityReason, s.codec))).IsChain
          (fun _ b => b.1 = none) := by
        rw [hsegments]
        simp
      exact (List.isChain_map _).mp hchain
    have hmem : ∀ c, (none, c) ∈ plan.segments.map (fun s => (s.discontinuityReason, s.codec)) →
        ∃ s ∈ plan.segments, s.codec = c := by
      intro c hc
      obtain ⟨s, hs, heq⟩ := List.mem_map.mp hc
      exact ⟨s, hs, (Prod.mk.inj heq).2⟩
    rw [hsegments] at hmem
    obtain ⟨a, ha, hcodecA⟩ := hmem (some "h264") (by simp)
    obtain ⟨c, hc, hcodecC⟩ := hmem (some "hevc") (by simp)
    have hsame := (hsound plan.segments (List.infix_refl _) hrun).2 a ha c hc "h264" "hevc"
      hcodecA hcodecC
    simp at hsame

end Drac.Playback
