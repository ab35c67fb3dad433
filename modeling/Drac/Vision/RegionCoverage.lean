import Drac.Vision.RegionProposal
import Mathlib.Order.Preorder.Finite

/-
  What `build_regions` covers.

  Containment of boxes is a partial order. Each stage gives, for a box of pixels inside one
  of the regions it is given, a region that it returns and that contains the box:
    calculate_region    of any box around it;
    cluster_boxes       every index ends in a cluster;
    dedupe_regions      a region that is dropped lies in a maximal one, which is kept;
    cap_regions         a turn replaces two regions by one around their union.
-/

namespace Drac.Vision

open Binary64 Loops

/-! ## Containment -/

/-- `a ≤ b` is `box_inside(b, a)`. -/
instance : PartialOrder Box where
  le a b := boxInside b a
  le_refl a := ⟨le_refl _, le_refl _, le_refl _, le_refl _⟩
  le_trans a b c hab hbc :=
    ⟨hbc.1.trans hab.1, hbc.2.1.trans hab.2.1, hab.2.2.1.trans hbc.2.2.1,
      hab.2.2.2.trans hbc.2.2.2⟩
  le_antisymm a b hab hba := by
    obtain ⟨h1, h2, h3, h4⟩ := hab
    obtain ⟨k1, k2, k3, k4⟩ := hba
    apply Box.ext <;> omega

/-- A box of at least one pixel, inside the frame. -/
structure InFrame (frame : Frame) (box : Box) : Prop where
  left : 0 ≤ box.x1
  top : 0 ≤ box.y1
  wide : box.x1 < box.x2
  tall : box.y1 < box.y2
  right : box.x2 ≤ frame.width
  bottom : box.y2 ≤ frame.height

theorem le_unionBox_left (a b : Box) : a ≤ unionBox a b :=
  ⟨min_le_left _ _, min_le_left _ _, le_max_left _ _, le_max_left _ _⟩

theorem le_unionBox_right (a b : Box) : b ≤ unionBox a b :=
  ⟨min_le_right _ _, min_le_right _ _, le_max_right _ _, le_max_right _ _⟩

theorem InFrame.union {frame : Frame} {a b : Box} (ha : InFrame frame a) (hb : InFrame frame b) :
    InFrame frame (unionBox a b) where
  left := le_min ha.left hb.left
  top := le_min ha.top hb.top
  wide := (min_le_left _ _).trans_lt (ha.wide.trans_le (le_max_left _ _))
  tall := (min_le_left _ _).trans_lt (ha.tall.trans_le (le_max_left _ _))
  right := max_le ha.right hb.right
  bottom := max_le ha.bottom hb.bottom

/-! ## Clipping -/

theorem clipPixels_inFrame {frame : Frame} {box clipped : Box}
    (h : clipPixels frame box = some clipped) : InFrame frame clipped := by
  simp only [clipPixels] at h
  split at h
  · cases h
  · next hproper =>
    cases h
    simp only [clamp] at hproper
    constructor <;> simp only [clamp] <;> omega

theorem clipBox_inFrame {frame : Frame} {box : List (Option ℚ)} {clipped : Box}
    (h : clipBox frame box = some clipped) : InFrame frame clipped := by
  simp only [clipBox] at h
  split at h
  · exact clipPixels_inFrame h
  · cases h

@[simp] theorem clipBox_coords (frame : Frame) (box : Box) :
    clipBox frame box.coords = clipPixels frame box := by
  simp [clipBox, Box.coords]

variable {box : Box}

theorem clipPixels_self {frame : Frame} (hbox : InFrame frame box) :
    clipPixels frame box = some box := by
  obtain ⟨left, top, wide, tall, right, bottom⟩ := hbox
  have hx1 : clamp frame.width box.x1 = box.x1 := by simp only [clamp]; omega
  have hy1 : clamp frame.height box.y1 = box.y1 := by simp only [clamp]; omega
  have hx2 : clamp frame.width box.x2 = box.x2 := by simp only [clamp]; omega
  have hy2 : clamp frame.height box.y2 = box.y2 := by simp only [clamp]; omega
  simp only [clipPixels, hx1, hy1, hx2, hy2]
  exact if_neg (by omega)

/-- Clipping a box around a box in the frame leaves a box around it. -/
theorem clipPixels_covers {frame : Frame} {box source : Box} (hbox : InFrame frame box)
    (hle : box ≤ source) : ∃ clipped, clipPixels frame source = some clipped ∧ box ≤ clipped := by
  obtain ⟨h1, h2, h3, h4⟩ := hle
  obtain ⟨left, top, wide, tall, right, bottom⟩ := hbox
  have hx : clamp frame.width source.x1 ≤ box.x1 ∧ box.x2 ≤ clamp frame.width source.x2 := by
    simp only [clamp]
    omega
  have hy : clamp frame.height source.y1 ≤ box.y1 ∧ box.y2 ≤ clamp frame.height source.y2 := by
    simp only [clamp]
    omega
  simp only [clipPixels]
  split
  · omega
  · exact ⟨_, rfl, hx.1, hy.1, hx.2, hy.2⟩

/-! ## A region -/

theorem regionOffset_mem {side size : ℤ} (low high : ℤ) (h : side ≤ size) :
    0 ≤ regionOffset low high side size ∧ regionOffset low high side size + side ≤ size := by
  simp only [regionOffset]
  omega

theorem centredRegion_inFrame {frame : Frame} (hw : 4 ≤ frame.width) (hh : 4 ≤ frame.height)
    (source : Box) (size : ℤ) : InFrame frame (centredRegion frame source size) := by
  have hwidth : max 4 (min size frame.width) ≤ frame.width := by omega
  have hheight : max 4 (min size frame.height) ≤ frame.height := by omega
  have hx := regionOffset_mem source.x1 source.x2 hwidth
  have hy := regionOffset_mem source.y1 source.y2 hheight
  constructor <;> simp only [centredRegion] <;> omega

theorem calculateRegion_inFrame {frame : Frame} (hw : 4 ≤ frame.width) (hh : 4 ≤ frame.height)
    (source : Box) (minSize : ℤ) (multiplier : ℚ) :
    InFrame frame (calculateRegion frame source minSize multiplier) := by
  have hregion := centredRegion_inFrame hw hh source (regionSize source minSize multiplier)
  rw [calculateRegion]
  cases hclip : clipBox frame source.coords with
  | none => exact hregion
  | some clipped =>
    simp only [stretchTo]
    split
    · exact hregion
    · exact hregion.union (clipBox_inFrame hclip)

theorem calculateRegion_covers {frame : Frame} {box source : Box} (hbox : InFrame frame box)
    (hle : box ≤ source) (minSize : ℤ) (multiplier : ℚ) :
    box ≤ calculateRegion frame source minSize multiplier := by
  obtain ⟨clipped, hclip, hle⟩ := clipPixels_covers hbox hle
  rw [calculateRegion, clipBox_coords, hclip, stretchTo]
  split
  · next hinside => exact hle.trans hinside
  · exact hle.trans (le_unionBox_right _ _)

/-! ## Clusters -/

theorem le_hull (cluster : Cluster) : ∀ entry ∈ cluster.members, entry.1 ≤ cluster.hull := by
  have hgrow : ∀ (b : Box) (a : Indexed) (x : Box), x ≤ b → x ≤ unionBox b a.1 :=
    fun b a x hx => hx.trans (le_unionBox_left _ _)
  intro entry hentry
  simp only [Cluster.members, List.mem_cons] at hentry
  simp only [Cluster.hull]
  cases hentry with
  | inl h =>
    rw [h]
    exact foldl_invariant (P := fun b => cluster.first.1 ≤ b) _ _ (le_refl _)
      fun b a _ hb => hgrow b a _ hb
  | inr h =>
    exact foldl_reaches (Q := fun (a : Indexed) b => a.1 ≤ b) _ _
      (fun b a _ => le_unionBox_right _ _) (fun b a _ x hx => hgrow b a _ hx) entry h

/-- Every index that is used is accounted for by a member. -/
def Accounted (entries : List Indexed) (used : List ℕ) (members : List Indexed) : Prop :=
  ∀ entry ∈ entries, entry.2 ∈ used → entry ∈ members

variable {boxes : List Box}

theorem eq_of_same_index {a b : Indexed} (ha : a ∈ boxes.zipIdx)
    (hb : b ∈ boxes.zipIdx) (h : a.2 = b.2) : a = b := by
  rw [List.mem_zipIdx_iff_getElem?] at ha hb
  rw [h, hb] at ha
  exact Prod.ext (Option.some.inj ha).symm h

variable {entry : Indexed}

theorem Accounted.use {used : List ℕ} {members : List Indexed}
    (h : Accounted boxes.zipIdx used members) (hentry : entry ∈ boxes.zipIdx) :
    Accounted boxes.zipIdx (entry.2 :: used) (members ++ [entry]) := by
  intro other hother hused
  rw [List.mem_append, List.mem_singleton]
  cases List.mem_cons.mp hused with
  | inl heq => exact .inr (eq_of_same_index hother hentry heq)
  | inr hmem => exact .inl (h other hother hmem)

variable {i : ℕ}

section Clusters

variable (frame : Frame) (config : RegionConfig)

theorem members_append (cluster : Cluster) (entry : Indexed) :
    (cluster.append entry).members = cluster.members ++ [entry] := by
  simp [Cluster.members, Cluster.append]

theorem compareBox_cases (boundary : Box) (state : Cluster × List ℕ) (entry : Indexed) :
    compareBox frame config boundary state entry = state ∨
      boxInside boundary entry.1 ∧ entry.2 ∉ state.2 ∧
        compareBox frame config boundary state entry =
          (state.1.append entry, entry.2 :: state.2) := by
  simp only [compareBox]
  split
  · exact .inl rfl
  · next hused =>
    split
    · exact .inl rfl
    · next hinside =>
      split
      · exact .inr ⟨not_not.mp hinside, hused, rfl⟩
      · exact .inl rfl

theorem compareBox_used (boundary : Box) (state : Cluster × List ℕ) (entry : Indexed)
    (h : i ∈ state.2) :
    i ∈ (compareBox frame config boundary state entry).2 := by
  cases compareBox_cases frame config boundary state entry with
  | inl heq => rw [heq]; exact h
  | inr heq => rw [heq.2.2]; exact List.mem_cons_of_mem _ h

theorem compareBoxes_accounted {others : List Indexed} (boundary : Box)
    (state : Cluster × List ℕ)
    (h : Accounted boxes.zipIdx state.2 (others ++ state.1.members)) :
    Accounted boxes.zipIdx (boxes.zipIdx.foldl (compareBox frame config boundary) state).2
      (others ++ (boxes.zipIdx.foldl (compareBox frame config boundary) state).1.members) := by
  refine foldl_invariant
    (P := fun st : Cluster × List ℕ =>
      Accounted boxes.zipIdx st.2 (others ++ st.1.members)) _ _ h ?_
  intro st entry hentry hst
  cases compareBox_cases frame config boundary st entry with
  | inl heq => rw [heq]; exact hst
  | inr heq =>
    rw [heq.2.2, members_append, ← List.append_assoc]
    exact hst.use hentry

/-- What a turn of the outer loop does for an index not used yet. -/
theorem openCluster_new {boxes : List Indexed} {state : List Cluster × List ℕ}
    (h : entry.2 ∉ state.2) :
    openCluster frame config boxes state entry =
      (state.1 ++ [(boxes.foldl (compareBox frame config (clusterBoundary entry.1 config.minSize))
          ({ first := entry, rest := [] }, entry.2 :: state.2)).1],
        (boxes.foldl (compareBox frame config (clusterBoundary entry.1 config.minSize))
          ({ first := entry, rest := [] }, entry.2 :: state.2)).2) :=
  if_neg h

theorem openCluster_used {boxes : List Indexed} (state : List Cluster × List ℕ)
    (entry : Indexed) (h : i = entry.2 ∨ i ∈ state.2) :
    i ∈ (openCluster frame config boxes state entry).2 := by
  by_cases hused : entry.2 ∈ state.2
  · rw [openCluster, if_pos hused]
    cases h with
    | inl h => rw [h]; exact hused
    | inr h => exact h
  · rw [openCluster_new frame config hused]
    apply foldl_invariant (P := fun st : Cluster × List ℕ => i ∈ st.2)
    · exact List.mem_cons.mpr h
    · intro st other _ hst
      exact compareBox_used frame config _ st other hst

theorem openCluster_accounted {state : List Cluster × List ℕ}
    (hentry : entry ∈ boxes.zipIdx)
    (h : Accounted boxes.zipIdx state.2 (state.1.flatMap Cluster.members)) :
    Accounted boxes.zipIdx (openCluster frame config boxes.zipIdx state entry).2
      ((openCluster frame config boxes.zipIdx state entry).1.flatMap Cluster.members) := by
  by_cases hused : entry.2 ∈ state.2
  · rw [openCluster, if_pos hused]
    exact h
  · rw [openCluster_new frame config hused, List.flatMap_append, List.flatMap_singleton]
    apply compareBoxes_accounted
    exact h.use hentry

theorem openCluster_length (boxes : List Indexed) (state : List Cluster × List ℕ)
    (entry : Indexed) :
    (openCluster frame config boxes state entry).1.length ≤ state.1.length + 1 := by
  by_cases hused : entry.2 ∈ state.2
  · rw [openCluster, if_pos hused]
    omega
  · rw [openCluster_new frame config hused]
    simp

end Clusters

theorem mem_clusterBoxes (frame : Frame) (config : RegionConfig)
    (h : box ∈ boxes) :
    ∃ cluster ∈ clusterBoxes frame boxes config, ∃ entry ∈ cluster.members, entry.1 = box := by
  obtain ⟨i, hi⟩ := List.mem_iff_getElem?.mp h
  have hentry : (box, i) ∈ boxes.zipIdx := List.mk_mem_zipIdx_iff_getElem?.mpr hi
  have hused : i ∈ (boxes.zipIdx.foldl (openCluster frame config boxes.zipIdx) ([], [])).2 :=
    foldl_reaches (Q := fun (e : Indexed) (st : List Cluster × List ℕ) => e.2 ∈ st.2) _ _
      (fun st e _ => openCluster_used frame config st e (.inl rfl))
      (fun st e _ x hx => openCluster_used frame config st e (.inr hx)) (box, i) hentry
  have hall : Accounted boxes.zipIdx
      (boxes.zipIdx.foldl (openCluster frame config boxes.zipIdx) ([], [])).2
      ((clusterBoxes frame boxes config).flatMap Cluster.members) :=
    foldl_invariant
      (P := fun st : List Cluster × List ℕ =>
        Accounted boxes.zipIdx st.2 (st.1.flatMap Cluster.members)) _ _
      (by intro e _ he; simp at he)
      fun st e he hst => openCluster_accounted frame config he hst
  obtain ⟨cluster, hcluster, hmember⟩ := List.mem_flatMap.mp (hall (box, i) hentry hused)
  exact ⟨cluster, hcluster, (box, i), hmember, rfl⟩

theorem clusterBoxes_length (frame : Frame) (config : RegionConfig) (boxes : List Box) :
    (clusterBoxes frame boxes config).length ≤ boxes.length := by
  have hturns : ∀ (l : List Indexed) (st : List Cluster × List ℕ),
      (l.foldl (openCluster frame config boxes.zipIdx) st).1.length ≤
        st.1.length + l.length := by
    intro l
    induction l with
    | nil => intro st; simp
    | cons e l ih =>
      intro st
      have hstep := openCluster_length frame config boxes.zipIdx st e
      have hrest := ih (openCluster frame config boxes.zipIdx st e)
      rw [List.foldl_cons, List.length_cons]
      omega
  have h := hturns boxes.zipIdx ([], [])
  rw [List.length_zipIdx] at h
  simpa [clusterBoxes] using h

/-! ## Deduplication -/

variable {regions : List Box}

theorem dedupeRegions_covers {region : Box} (h : region ∈ regions) :
    ∃ kept ∈ dedupeRegions regions, region ≤ kept := by
  obtain ⟨kept, hle, hmax⟩ := regions.toFinset.exists_le_maximal (List.mem_toFinset.mpr h)
  have hmem : kept ∈ regions := List.mem_toFinset.mp hmax.prop
  refine ⟨kept, ?_, hle⟩
  simp only [dedupeRegions, List.mem_filter, List.mem_eraseDups, hmem, true_and,
    decide_eq_true_eq, List.any_eq_true, not_exists, not_and, Bool.and_eq_true]
  intro other hother hne hinside
  have heq : kept = other := hmax.eq_of_le (List.mem_toFinset.mpr hother) hinside
  exact hne heq.symm

theorem mem_of_mem_dedupeRegions {region : Box}
    (h : region ∈ dedupeRegions regions) : region ∈ regions :=
  List.mem_eraseDups.mp (List.mem_of_mem_filter h)

theorem dedupeRegions_length (regions : List Box) :
    (dedupeRegions regions).length ≤ regions.length :=
  (List.length_filter_le _ _).trans (length_eraseDups_le regions)

/-! ## Cap -/

variable {current : List Box}

theorem closestPair_mem {a b : Indexed}
    (h : closestPair current = some (a, b)) :
    a.2 < b.2 ∧ current[a.2]? = some a.1 ∧ current[b.2]? = some b.1 := by
  have hfound : ∀ p, closestPair current = some p → p ∈ pairs current.zipIdx := by
    refine foldl_invariant (P := fun best : Option (Indexed × Indexed) =>
      ∀ p, best = some p → p ∈ pairs current.zipIdx) _ _ (by simp) ?_
    intro best pair hpair hbest p hp
    cases best with
    | none =>
      cases hp
      exact hpair
    | some least =>
      simp only [closer] at hp
      split at hp
      · cases hp
        exact hpair
      · exact hbest p hp
  have hmem := mem_of_mem_pairs (hfound _ h)
  exact ⟨rel_of_mem_pairs (pairwise_zipIdx current) (hfound _ h),
    List.mem_zipIdx_iff_getElem?.mp hmem.1, List.mem_zipIdx_iff_getElem?.mp hmem.2⟩

theorem closestPair_isSome (h : 2 ≤ current.length) :
    (closestPair current).isSome := by
  have hkeep : ∀ (l : List (Indexed × Indexed)) (best : Option (Indexed × Indexed)),
      best.isSome → (l.foldl closer best).isSome := by
    intro l best hbest
    apply foldl_invariant (P := fun best : Option (Indexed × Indexed) => best.isSome) _ _ hbest
    intro best pair _ hbest
    cases best with
    | none => rfl
    | some least =>
      simp only [closer]
      split <;> rfl
  obtain ⟨p, rest, hp⟩ := List.exists_cons_of_ne_nil
    (pairs_ne_nil (l := current.zipIdx) (by rw [List.length_zipIdx]; exact h))
  simp only [closestPair, hp, List.foldl_cons]
  exact hkeep rest _ rfl

theorem capLoop_turn (frame : Frame) (config : RegionConfig) (guard : ℕ)
    (h : max 1 config.maxRegions < (current.length : ℤ)) :
    ∃ a b : Indexed, a.2 < b.2 ∧ current[a.2]? = some a.1 ∧ current[b.2]? = some b.1 ∧
      capLoop frame config (guard + 1) current =
        capLoop frame config guard ((current.eraseIdx b.2).eraseIdx a.2 ++
          [calculateRegion frame (unionBox a.1 b.1) config.minSize 1]) := by
  obtain ⟨⟨a, b⟩, hpair⟩ := Option.isSome_iff_exists.mp
    (closestPair_isSome (show 2 ≤ current.length by omega))
  obtain ⟨hlt, ha, hb⟩ := closestPair_mem hpair
  refine ⟨a, b, hlt, ha, hb, ?_⟩
  rw [capLoop, if_neg (by omega), hpair]

theorem capLoop_covers (frame : Frame) (config : RegionConfig)
    (hbox : InFrame frame box) (guard : ℕ) (current : List Box)
    (h : ∃ region ∈ current, box ≤ region) :
    ∃ region ∈ capLoop frame config guard current, box ≤ region := by
  induction guard generalizing current with
  | zero => exact h
  | succ guard ih =>
    by_cases hlimit : (current.length : ℤ) ≤ max 1 config.maxRegions
    · rw [capLoop, if_pos hlimit]
      exact h
    · obtain ⟨a, b, hlt, ha, hb, hturn⟩ := capLoop_turn frame config guard (not_le.mp hlimit)
      rw [hturn]
      apply ih
      obtain ⟨region, hregion, hle⟩ := h
      have hmerged : region = a.1 ∨ region = b.1 →
          box ≤ calculateRegion frame (unionBox a.1 b.1) config.minSize 1 := by
        intro hor
        apply calculateRegion_covers hbox
        cases hor with
        | inl heq => exact (heq ▸ hle).trans (le_unionBox_left _ _)
        | inr heq => exact (heq ▸ hle).trans (le_unionBox_right _ _)
      cases mem_eraseIdx_two hlt ha hb hregion with
      | inl heq => exact ⟨_, by simp, hmerged (.inl heq)⟩
      | inr hor =>
        cases hor with
        | inl heq => exact ⟨_, by simp, hmerged (.inr heq)⟩
        | inr hleft => exact ⟨region, List.mem_append_left _ hleft, hle⟩

theorem capLoop_inFrame {frame : Frame} (hw : 4 ≤ frame.width) (hh : 4 ≤ frame.height)
    (config : RegionConfig) (guard : ℕ) (current : List Box)
    (h : ∀ region ∈ current, InFrame frame region) :
    ∀ region ∈ capLoop frame config guard current, InFrame frame region := by
  induction guard generalizing current with
  | zero => exact h
  | succ guard ih =>
    by_cases hlimit : (current.length : ℤ) ≤ max 1 config.maxRegions
    · rw [capLoop, if_pos hlimit]
      exact h
    · obtain ⟨a, b, -, -, -, hturn⟩ := capLoop_turn frame config guard (not_le.mp hlimit)
      rw [hturn]
      apply ih
      intro region hregion
      rw [List.mem_append, List.mem_singleton] at hregion
      cases hregion with
      | inl hold => exact h region (List.mem_of_mem_eraseIdx (List.mem_of_mem_eraseIdx hold))
      | inr hnew =>
        rw [hnew]
        exact calculateRegion_inFrame hw hh _ _ _

/-- A turn merges two regions into one, so the loop ends at the limit or when its turns are
used up. -/
theorem capLoop_length (frame : Frame) (config : RegionConfig) (guard : ℕ)
    (current : List Box) :
    ((capLoop frame config guard current).length : ℤ) =
      min (current.length : ℤ) (max (max 1 config.maxRegions) (current.length - guard)) := by
  induction guard generalizing current with
  | zero =>
    simp only [capLoop]
    omega
  | succ guard ih =>
    by_cases hlimit : (current.length : ℤ) ≤ max 1 config.maxRegions
    · rw [capLoop, if_pos hlimit]
      omega
    · obtain ⟨a, b, hlt, ha, hb, hturn⟩ := capLoop_turn frame config guard (not_le.mp hlimit)
      have hlast : b.2 < current.length := (List.getElem?_eq_some_iff.mp hb).1
      have hlength : ((current.eraseIdx b.2).eraseIdx a.2 ++
          [calculateRegion frame (unionBox a.1 b.1) config.minSize 1]).length =
            current.length - 1 := by
        have hfirst := List.length_eraseIdx_of_lt hlast
        rw [List.length_append, List.length_eraseIdx_of_lt (by omega), hfirst,
          List.length_singleton]
        omega
      rw [hturn, ih, hlength]
      omega

/-! ## The regions of a frame -/

theorem mem_sortBoxes : box ∈ sortBoxes boxes ↔ box ∈ boxes :=
  List.mem_mergeSort

@[simp] theorem length_sortBoxes (boxes : List Box) : (sortBoxes boxes).length = boxes.length :=
  List.length_mergeSort boxes

theorem proposedRegions_covers (frame : Frame) (config : RegionConfig) {valid : List Box}
    (hbox : InFrame frame box) (h : box ∈ valid) :
    ∃ region ∈ proposedRegions frame valid config, box ≤ region := by
  obtain ⟨cluster, hcluster, entry, hentry, rfl⟩ := mem_clusterBoxes frame config h
  have hle : entry.1 ≤ regionForCluster frame config cluster :=
    calculateRegion_covers hbox (le_hull cluster entry hentry) _ _
  obtain ⟨kept, hkept, hregion⟩ := dedupeRegions_covers
    (List.mem_map_of_mem (f := regionForCluster frame config) hcluster)
  exact ⟨kept, hkept, hle.trans hregion⟩

theorem proposedRegions_length (frame : Frame) (config : RegionConfig) (valid : List Box) :
    (proposedRegions frame valid config).length ≤ valid.length := by
  apply (dedupeRegions_length _).trans
  rw [List.length_map]
  exact clusterBoxes_length frame config valid

theorem proposedRegions_inFrame {frame : Frame} (hw : 4 ≤ frame.width) (hh : 4 ≤ frame.height)
    (config : RegionConfig) (valid : List Box) :
    ∀ region ∈ proposedRegions frame valid config, InFrame frame region := by
  intro region hregion
  obtain ⟨cluster, -, rfl⟩ := List.mem_map.mp (mem_of_mem_dedupeRegions hregion)
  exact calculateRegion_inFrame hw hh _ _ _

theorem buildRegions_length (frame : Frame) (boxes : List (List (Option ℚ)))
    (config : RegionConfig) :
    ((buildRegions frame boxes config).length : ℤ) =
      min ((proposedRegions frame (boxes.filterMap (clipBox frame)) config).length : ℤ)
        (max config.maxRegions
          ((proposedRegions frame (boxes.filterMap (clipBox frame)) config).length - 1000)) := by
  have hrange := config.maxRegions_range.1
  have hmax : max 1 config.maxRegions = config.maxRegions := max_eq_right hrange
  simp only [buildRegions]
  split
  · next hempty =>
    rw [List.isEmpty_iff] at hempty
    have hnone : (proposedRegions frame (boxes.filterMap (clipBox frame)) config).length = 0 := by
      have h := proposedRegions_length frame config (boxes.filterMap (clipBox frame))
      rw [hempty] at h ⊢
      exact Nat.le_zero.mp h
    rw [hnone]
    simp only [List.length_nil, Nat.cast_zero]
    omega
  · rw [length_sortBoxes, capRegions, capLoop_length, hmax]
    rfl

/-- The regions lie in the frame, one contains each box that survives clipping, and there are
at most `max_regions` of them, unless more than a thousand have to be merged away: the loop
then stops with a thousand merged. -/
theorem build_regions_covers (frame : Frame) (hw : 4 ≤ frame.width) (hh : 4 ≤ frame.height)
    (boxes : List (List (Option ℚ))) (config : RegionConfig) :
    ((buildRegions frame boxes config).length : ℤ) ≤
        max config.maxRegions
          ((proposedRegions frame (boxes.filterMap (clipBox frame)) config).length - 1000) ∧
      (proposedRegions frame (boxes.filterMap (clipBox frame)) config).length ≤
        (boxes.filterMap (clipBox frame)).length ∧
      (∀ region ∈ buildRegions frame boxes config, InFrame frame region) ∧
      ∀ box ∈ boxes, ∀ clipped, clipBox frame box = some clipped →
        ∃ region ∈ buildRegions frame boxes config, boxInside region clipped := by
  refine ⟨?_, proposedRegions_length frame config _, ?_, ?_⟩
  · rw [buildRegions_length]
    exact min_le_right _ _
  · intro region hregion
    simp only [buildRegions] at hregion
    split at hregion
    · simp at hregion
    · rw [mem_sortBoxes] at hregion
      exact capLoop_inFrame hw hh config 1000 _
        (proposedRegions_inFrame hw hh config _) region hregion
  · intro box hbox clipped hclip
    have hvalid : clipped ∈ boxes.filterMap (clipBox frame) :=
      List.mem_filterMap.mpr ⟨box, hbox, hclip⟩
    have hframe := clipBox_inFrame hclip
    obtain ⟨region, hregion, hle⟩ := capLoop_covers frame config hframe 1000 _
      (proposedRegions_covers frame config hframe hvalid)
    refine ⟨region, ?_, hle⟩
    simp only [buildRegions]
    rw [if_neg (by rw [List.isEmpty_iff]; exact List.ne_nil_of_mem hvalid), mem_sortBoxes]
    exact hregion

/-- Seven boxes in a frame of 1920 by 1080: the first two close together, the fourth within the
region of the fifth. -/
def crowd : List (List (Option ℚ)) :=
  [[some 1500, some 800, some 1540, some 830], [some 1530, some 810, some 1580, some 850],
    [some 100, some 100, some 140, some 140], [some 500, some 500, some 540, some 540],
    [some 300, some 300, some 800, some 800], [some 900, some 100, some 940, some 140],
    [some 100, some 900, some 140, some 940]]

/-- Six clusters, five regions without the one inside another, four after the cap; and the box
whose region was dropped is covered. -/
theorem build_regions_covers_crowd :
    (clusterBoxes ⟨1080, 1920⟩ (crowd.filterMap (clipBox ⟨1080, 1920⟩))
        RegionConfig.defaults).length = 6 ∧
      (proposedRegions ⟨1080, 1920⟩ (crowd.filterMap (clipBox ⟨1080, 1920⟩))
        RegionConfig.defaults).length = 5 ∧
      (buildRegions ⟨1080, 1920⟩ crowd RegionConfig.defaults).length = 4 ∧
      ∃ region ∈ buildRegions ⟨1080, 1920⟩ crowd RegionConfig.defaults,
        boxInside region ⟨500, 500, 540, 540⟩ := by
  have hproposed : (proposedRegions ⟨1080, 1920⟩ (crowd.filterMap (clipBox ⟨1080, 1920⟩))
      RegionConfig.defaults).length = 5 := by
    decide +kernel
  refine ⟨by decide +kernel, hproposed, ?_, ?_⟩
  · have hlength := buildRegions_length ⟨1080, 1920⟩ crowd RegionConfig.defaults
    rw [hproposed] at hlength
    exact Int.ofNat_inj.mp hlength
  · obtain ⟨-, -, -, hcovers⟩ :=
      build_regions_covers ⟨1080, 1920⟩ (by decide) (by decide) crowd RegionConfig.defaults
    exact hcovers [some 500, some 500, some 540, some 540] (by simp [crowd]) _ (by decide +kernel)

/-! ## More regions than turns -/

theorem clusterBoxes_apart (frame : Frame) (config : RegionConfig) (boxes : List Box)
    (hapart : ∀ a ∈ boxes.zipIdx, ∀ b ∈ boxes.zipIdx, a.2 ≠ b.2 →
      ¬ boxInside (clusterBoundary a.1 config.minSize) b.1) :
    clusterBoxes frame boxes config =
      boxes.zipIdx.map fun entry => { first := entry, rest := [] } := by
  have hinner : ∀ a ∈ boxes.zipIdx, ∀ used : List ℕ,
      boxes.zipIdx.foldl (compareBox frame config (clusterBoundary a.1 config.minSize))
        ({ first := a, rest := [] }, a.2 :: used) = ({ first := a, rest := [] }, a.2 :: used) := by
    intro a ha used
    refine foldl_invariant (P := fun st : Cluster × List ℕ =>
      st = ({ first := a, rest := [] }, a.2 :: used)) _ _ rfl ?_
    intro st b hb hst
    rw [hst]
    cases compareBox_cases frame config (clusterBoundary a.1 config.minSize)
        ({ first := a, rest := [] }, a.2 :: used) b with
    | inl heq => exact heq
    | inr heq =>
      have hne : a.2 ≠ b.2 := fun h => heq.2.1 (h ▸ List.mem_cons_self)
      exact absurd heq.1 (hapart a ha b hb hne)
  have houter : ∀ (l : List Indexed) (clusters : List Cluster) (used : List ℕ),
      (∀ a ∈ l, a ∈ boxes.zipIdx ∧ a.2 ∉ used) → l.Pairwise (fun a b => a.2 < b.2) →
      (l.foldl (openCluster frame config boxes.zipIdx) (clusters, used)).1 =
        clusters ++ l.map fun entry => { first := entry, rest := [] } := by
    intro l
    induction l with
    | nil => intro clusters used _ _; simp
    | cons a l ih =>
      intro clusters used hl hsorted
      rw [List.pairwise_cons] at hsorted
      have ha := hl a List.mem_cons_self
      rw [List.foldl_cons, openCluster_new frame config ha.2, hinner a ha.1, ih _ _ ?_ hsorted.2]
      · simp
      · intro b hb
        have hb' := hl b (List.mem_cons_of_mem _ hb)
        refine ⟨hb'.1, ?_⟩
        rw [List.mem_cons, not_or]
        exact ⟨(hsorted.1 b hb).ne', hb'.2⟩
  exact houter boxes.zipIdx [] [] (fun a ha => ⟨ha, by simp⟩) (pairwise_zipIdx boxes)

theorem dedupeRegions_apart (hnodup : regions.Nodup)
    (hapart : ∀ a ∈ regions, ∀ b ∈ regions, boxInside a b → a = b) :
    dedupeRegions regions = regions := by
  simp only [dedupeRegions, eraseDups_of_nodup hnodup]
  apply List.filter_eq_self.mpr
  intro region hregion
  simp only [decide_eq_true_eq, List.any_eq_true, not_exists, not_and, Bool.and_eq_true]
  intro other hother hne hinside
  exact hne (hapart other hother region hregion hinside)

theorem regionOffset_two {low half side : ℤ} (size : ℤ) (hlow : |low| < 2 ^ 40)
    (hhalf : |half| < 2 ^ 40) (hdouble : side = 2 * half) :
    regionOffset low (low + 2) side size = max 0 (min (low + 1 - half) (size - side)) := by
  rw [abs_lt] at hlow hhalf
  subst hdouble
  have hmiddle : fl (((low + 2 : ℤ) - low : ℚ) / 2) = ((1 : ℤ) : ℚ) :=
    fl_eq_intCast (by push_cast; ring) (by decide)
  have hcentre : fl (((1 : ℤ) : ℚ) + low) = ((low + 1 : ℤ) : ℚ) :=
    fl_eq_intCast (by push_cast; ring) (by rw [abs_lt]; omega)
  have hside : fl (((2 * half : ℤ) : ℚ) / 2) = ((half : ℤ) : ℚ) :=
    fl_eq_intCast (by push_cast; ring) (by rw [abs_lt]; omega)
  have hstart : fl (((low + 1 : ℤ) : ℚ) - half) = ((low + 1 - half : ℤ) : ℚ) :=
    fl_eq_intCast (by push_cast; ring) (by rw [abs_lt]; omega)
  simp only [regionOffset]
  rw [hmiddle, hcentre, hside, hstart, toInt_intCast]

theorem boundaryInterval_two {low : ℤ} (hlow : |low| < 2 ^ 40) :
    boundaryInterval low (low + 2) 320 = (low - 317, low + 319) := by
  rw [abs_lt] at hlow
  have hhalf : fl (((low + 2 : ℤ) - low : ℚ) / 2) = ((1 : ℤ) : ℚ) :=
    fl_eq_intCast (by push_cast; ring) (by decide)
  have hcentre : fl (((1 : ℤ) : ℚ) + low) = ((low + 1 : ℤ) : ℚ) :=
    fl_eq_intCast (by push_cast; ring) (by rw [abs_lt]; omega)
  have hdistance : toInt (fl (((320 : ℤ) : ℚ) - fl (((1 : ℤ) : ℚ) * fl (11 / 10)))) = 318 := by
    decide +kernel
  have hbefore : fl (((low + 1 : ℤ) : ℚ) - ((318 : ℤ) : ℚ)) = ((low - 317 : ℤ) : ℚ) :=
    fl_eq_intCast (by push_cast; ring) (by rw [abs_lt]; omega)
  have hafter : fl (((low + 1 : ℤ) : ℚ) + ((318 : ℤ) : ℚ)) = ((low + 319 : ℤ) : ℚ) :=
    fl_eq_intCast (by push_cast; ring) (by rw [abs_lt]; omega)
  simp only [boundaryInterval]
  rw [hhalf, hcentre, hdistance, hbefore, hafter, toInt_intCast, toInt_intCast]

def sparkFrame : Frame where
  height := 1080
  width := 1048576

def spark (i : ℕ) : Box where
  x1 := 1024 * (i + 1)
  y1 := 0
  x2 := 1024 * (i + 1) + 2
  y2 := 2

def sparks : List (List (Option ℚ)) := (List.range 1005).map fun i => (spark i).coords

theorem spark_boundary (h : i < 1005) :
    clusterBoundary (spark i) 320 =
      ⟨1024 * (i + 1) - 317, -317, 1024 * (i + 1) + 319, 319⟩ := by
  have hsize : max 320 (toInt (flSqrt (fl (((4 : ℤ) : ℚ) / fl (1 / 10))))) = 320 := by
    decide +kernel
  have harea : |((spark i).x2 - (spark i).x1) * ((spark i).y2 - (spark i).y1)| = 4 := by
    simp [spark]
  have hx : boundaryInterval (spark i).x1 (spark i).x2 320 = _ :=
    boundaryInterval_two (by simp only [spark]; rw [abs_lt]; omega)
  have hy : boundaryInterval (spark i).y1 (spark i).y2 320 = _ :=
    boundaryInterval_two (by decide : |(0 : ℤ)| < 2 ^ 40)
  simp only [clusterBoundary]
  rw [harea, hsize, hx, hy]
  rfl

theorem spark_region (h : i < 1005) :
    regionForCluster sparkFrame RegionConfig.defaults { first := (spark i, i), rest := [] } =
      ⟨1024 * (i + 1) - 159, 0, 1024 * (i + 1) + 161, 320⟩ := by
  have hsize : regionSize (spark i) 320 RegionConfig.defaults.margin = 320 := by
    have hlongest : max ((spark i).x2 - (spark i).x1) ((spark i).y2 - (spark i).y1) = 2 := by
      simp [spark]
    simp only [regionSize]
    rw [hlongest]
    decide +kernel
  have hx : regionOffset (spark i).x1 (spark i).x2 320 sparkFrame.width =
      1024 * (i + 1) - 159 := by
    have hlow : |(spark i).x1| < 2 ^ 40 := by
      simp only [spark]
      rw [abs_lt]
      omega
    have hoffset := regionOffset_two sparkFrame.width hlow (by decide : |(160 : ℤ)| < 2 ^ 40)
      (rfl : (320 : ℤ) = 2 * 160)
    simp only [spark, sparkFrame] at hoffset ⊢
    omega
  have hy : regionOffset (spark i).y1 (spark i).y2 320 sparkFrame.height = 0 := by
    have hzero : regionOffset 0 2 320 1080 = 0 := by decide +kernel
    exact hzero
  have hclip : clipPixels sparkFrame (spark i) = some (spark i) := by
    apply clipPixels_self
    constructor <;> simp only [sparkFrame, spark] <;> omega
  have hcentred : centredRegion sparkFrame (spark i) 320 =
      ⟨1024 * (i + 1) - 159, 0, 1024 * (i + 1) + 161, 320⟩ := by
    have hwidth : max 4 (min 320 sparkFrame.width) = 320 := by decide
    have hheight : max 4 (min 320 sparkFrame.height) = 320 := by decide
    simp only [centredRegion, hwidth, hheight, hx, hy]
    apply Box.ext <;> simp only <;> omega
  simp only [regionForCluster, Cluster.hull, List.foldl_nil, calculateRegion, clipBox_coords]
  rw [hclip, stretchTo, show RegionConfig.defaults.minSize = 320 from rfl, hsize, hcentred, if_pos]
  simp only [boxInside, spark]
  omega

theorem sparks_clipped : sparks.filterMap (clipBox sparkFrame) = (List.range 1005).map spark := by
  rw [sparks, List.filterMap_map]
  apply List.filterMap_eq_map_iff_forall_eq_some.mpr
  intro i hi
  rw [List.mem_range] at hi
  rw [Function.comp_apply, clipBox_coords]
  apply clipPixels_self
  constructor <;> simp only [sparkFrame, spark] <;> omega

theorem mem_sparks (h : entry ∈ ((List.range 1005).map spark).zipIdx) :
    entry.2 < 1005 ∧ entry.1 = spark entry.2 := by
  rw [List.mem_zipIdx_iff_getElem?, List.getElem?_map, Option.map_eq_some_iff] at h
  obtain ⟨i, hi, hspark⟩ := h
  obtain ⟨hlt, hget⟩ := List.getElem?_eq_some_iff.mp hi
  rw [List.length_range] at hlt
  rw [List.getElem_range] at hget
  exact ⟨hlt, by rw [← hspark, ← hget]⟩

theorem sparks_regions :
    (proposedRegions sparkFrame ((List.range 1005).map spark) RegionConfig.defaults).length =
      1005 := by
  have hclusters := clusterBoxes_apart sparkFrame RegionConfig.defaults
    ((List.range 1005).map spark) (by
      intro a ha b hb hne hinside
      obtain ⟨ha1, ha2⟩ := mem_sparks ha
      obtain ⟨hb1, hb2⟩ := mem_sparks hb
      rw [ha2, hb2, show RegionConfig.defaults.minSize = 320 from rfl, spark_boundary ha1]
        at hinside
      simp only [boxInside, spark] at hinside
      omega)
  have hregion : ∀ entry ∈ ((List.range 1005).map spark).zipIdx,
      regionForCluster sparkFrame RegionConfig.defaults { first := entry, rest := [] } =
        ⟨1024 * (entry.2 + 1) - 159, 0, 1024 * (entry.2 + 1) + 161, 320⟩ := by
    intro entry hentry
    obtain ⟨hlt, heq⟩ := mem_sparks hentry
    rw [← spark_region hlt, ← heq]
  have happly : (clusterBoxes sparkFrame ((List.range 1005).map spark)
      RegionConfig.defaults).map (regionForCluster sparkFrame RegionConfig.defaults) =
        ((List.range 1005).map spark).zipIdx.map fun entry =>
          ⟨1024 * (entry.2 + 1) - 159, 0, 1024 * (entry.2 + 1) + 161, 320⟩ := by
    rw [hclusters, List.map_map]
    exact List.map_congr_left hregion
  rw [proposedRegions, happly, dedupeRegions_apart, List.length_map, List.length_zipIdx,
    List.length_map, List.length_range]
  · have hsorted := pairwise_zipIdx ((List.range 1005).map spark)
    apply List.Pairwise.map _ _ hsorted
    intro a b hlt heq
    rw [Box.mk.injEq] at heq
    omega
  · intro a ha b hb hinside
    obtain ⟨x, -, rfl⟩ := List.mem_map.mp ha
    obtain ⟨y, -, rfl⟩ := List.mem_map.mp hb
    simp only [boxInside] at hinside
    rw [Box.mk.injEq]
    omega

/-- With the default configuration, 1005 regions far apart end as five, not four. -/
theorem build_regions_over_cap :
    ¬ ∀ (frame : Frame) (boxes : List (List (Option ℚ))) (config : RegionConfig),
      4 ≤ frame.width → 4 ≤ frame.height →
        ((buildRegions frame boxes config).length : ℤ) ≤ config.maxRegions := by
  intro h
  have hlength := buildRegions_length sparkFrame sparks RegionConfig.defaults
  have hcap := h sparkFrame sparks RegionConfig.defaults (by decide) (by decide)
  rw [sparks_clipped, sparks_regions] at hlength
  rw [hlength] at hcap
  exact absurd hcap (by decide)

end Drac.Vision
