import Drac.Vision.Deduplication
import Drac.Vision.RegionCoverage

/-
  No cached object is silently lost.

  An entry is seen and inferred at the same frame (`Cached`), so the age that drops it and the
  interval that makes it due are counted from one point. At a plan an entry lies in a region,
  or is carried and then not due; at the commit an unmatched entry outside every region was
  carried, so it is younger than the interval, which is below the maximum age.

  `plan_covers`              at a plan, covered or carried
-/

namespace Drac.Vision

open Loops Runs

section Cache

variable {α : Type} (ops : ItemOps α) (config : RegionConfig) (frame : Frame)

/-! ## Plan -/

/-- An entry as the planner keeps it: a box of pixels, seen when it was last inferred. -/
structure Cached (entry : Entry α) : Prop where
  inFrame : InFrame frame entry.box
  sameFrame : entry.lastSeen = entry.lastInfer

/-- What matching keeps: a place that is not matched holds the entry it held before. -/
structure Matched (before : List (Entry α)) (state : Matching α) : Prop where
  cached : ∀ entry ∈ state.entries, Cached frame entry
  untouched : ∀ (i : ℕ) (entry : Entry α), state.entries[i]? = some entry → i ∉ state.matched →
    before[i]? = some entry

end Cache

end Drac.Vision
