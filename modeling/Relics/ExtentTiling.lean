import Mathlib.Data.List.Pairwise
import Mathlib.Order.Lattice
import Mathlib.Data.Set.Basic

namespace ExtentTiling

/-!
# Tilings of a region by half-open extents

A list of extents tiles a region when no two of them overlap and together
they cover exactly its points.  Cutting an extent in two and joining two
extents that touch keep a tiling, and extents that neither overlap nor touch
can tile an interval only as a single extent.
-/

variable {α : Type} [LinearOrder α]

/-- A non-empty half-open extent. -/
@[ext] structure Extent (α : Type) [LinearOrder α] where
  lo : α
  hi : α
  nonempty : lo < hi

namespace Extent

/-- The point lies in the extent. -/
def Covers (extent : Extent α) (point : α) : Prop :=
  extent.lo ≤ point ∧ point < extent.hi

/-- The two extents share no point. -/
def Apart (first second : Extent α) : Prop :=
  first.hi ≤ second.lo ∨ second.hi ≤ first.lo

/-- The first extent ends strictly before the second begins. -/
def Before (first second : Extent α) : Prop :=
  first.hi < second.lo

theorem Apart.symm
    {first second : Extent α}
    (apart : Apart first second) :
    Apart second first :=
  Or.symm apart

end Extent

/-- The extents are pairwise apart and cover exactly the region. -/
structure Tiles (extents : List (Extent α)) (region : Set α) : Prop where
  apart : extents.Pairwise Extent.Apart
  covers : ∀ point, point ∈ region ↔ ∃ extent ∈ extents, extent.Covers point

namespace Tiles

theorem nil : Tiles ([] : List (Extent α)) ∅ where
  apart := .nil
  covers point := by simp

/-- A tiling does not depend on the order of its extents. -/
theorem perm
    {extents reordered : List (Extent α)}
    {region : Set α}
    (tiles : Tiles extents region)
    (permuted : extents.Perm reordered) :
    Tiles reordered region where
  apart := (permuted.pairwise_iff Extent.Apart.symm).mp tiles.apart
  covers point := by
    rw [tiles.covers]
    exact exists_congr fun extent => by rw [permuted.mem_iff]

/-- Adding an extent that is apart from all others adds its points. -/
theorem cons
    {extent : Extent α}
    {extents : List (Extent α)}
    {region : Set α}
    (tiles : Tiles extents region)
    (apart : ∀ other ∈ extents, extent.Apart other) :
    Tiles (extent :: extents) ({point | extent.Covers point} ∪ region) where
  apart := List.pairwise_cons.mpr ⟨apart, tiles.apart⟩
  covers point := by
    rw [Set.mem_union, tiles.covers]
    simp

/-- Cutting the first extent at an inner point. -/
theorem cut
    {whole low high : Extent α}
    {rest : List (Extent α)}
    {region : Set α}
    (tiles : Tiles (whole :: rest) region)
    (sameLo : low.lo = whole.lo)
    (seam : low.hi = high.lo)
    (sameHi : high.hi = whole.hi) :
    Tiles (low :: high :: rest) region where
  apart := by
    obtain ⟨wholeApart, restApart⟩ := List.pairwise_cons.mp tiles.apart
    refine List.pairwise_cons.mpr ⟨?_, List.pairwise_cons.mpr ⟨?_, restApart⟩⟩
    · intro other member
      rcases List.mem_cons.mp member with rfl | inRest
      · exact .inl seam.le
      · refine (wholeApart other inRest).imp (fun ends => ?_) (fun ends => ?_)
        · exact (seam.le.trans (high.nonempty.le.trans sameHi.le)).trans ends
        · exact ends.trans sameLo.ge
    · intro other inRest
      refine (wholeApart other inRest).imp (fun ends => ?_) (fun ends => ?_)
      · exact sameHi.le.trans ends
      · exact ends.trans (sameLo.ge.trans (low.nonempty.le.trans seam.le))
  covers point := by
    have parts :
        whole.Covers point ↔ low.Covers point ∨ high.Covers point := by
      simp only [Extent.Covers, sameLo, ← seam, sameHi]
      constructor
      · rintro ⟨above, below⟩
        rcases lt_or_ge point low.hi with inLow | inHigh
        · exact .inl ⟨above, inLow⟩
        · exact .inr ⟨inHigh, below⟩
      · rintro (⟨above, below⟩ | ⟨above, below⟩)
        · exact ⟨above, below.trans
            ((seam.trans_lt high.nonempty).trans_le sameHi.le)⟩
        · exact ⟨(sameLo.ge.trans low.nonempty.le).trans above, below⟩
    rw [tiles.covers]
    simp [parts, or_assoc]

/-- Joining the first two extents when they touch. -/
theorem join
    {whole low high : Extent α}
    {rest : List (Extent α)}
    {region : Set α}
    (tiles : Tiles (low :: high :: rest) region)
    (sameLo : low.lo = whole.lo)
    (seam : low.hi = high.lo)
    (sameHi : high.hi = whole.hi) :
    Tiles (whole :: rest) region where
  apart := by
    obtain ⟨lowApart, highAndRest⟩ := List.pairwise_cons.mp tiles.apart
    obtain ⟨highApart, restApart⟩ := List.pairwise_cons.mp highAndRest
    refine List.pairwise_cons.mpr ⟨?_, restApart⟩
    intro other inRest
    rcases lowApart other (by simp [inRest]) with lowEnds | otherEnds
    · rcases highApart other inRest with highEnds | otherEnds
      · exact .inl (sameHi.ge.trans highEnds)
      · -- an extent between the two halves would be empty
        exact absurd ((otherEnds.trans seam.ge).trans lowEnds)
          (not_le.mpr other.nonempty)
    · exact .inr (otherEnds.trans sameLo.le)
  covers point := by
    have parts :
        whole.Covers point ↔ low.Covers point ∨ high.Covers point := by
      simp only [Extent.Covers, ← sameLo, ← seam, ← sameHi]
      constructor
      · rintro ⟨above, below⟩
        rcases lt_or_ge point low.hi with inLow | inHigh
        · exact .inl ⟨above, inLow⟩
        · exact .inr ⟨inHigh, below⟩
      · rintro (⟨above, below⟩ | ⟨above, below⟩)
        · exact ⟨above, below.trans (seam.trans_lt high.nonempty)⟩
        · exact ⟨low.nonempty.le.trans above, below⟩
    rw [tiles.covers]
    simp [parts, or_assoc]

/-- Extents that neither overlap nor touch tile an interval only as one extent. -/
theorem eq_singleton_of_separated
    {extents : List (Extent α)}
    {whole : Extent α}
    (tiles : Tiles extents {point | whole.Covers point})
    (separated : extents.Pairwise Extent.Before) :
    extents = [whole] := by
  have coveredWhole :
      ∀ point, whole.Covers point ↔ ∃ extent ∈ extents, extent.Covers point :=
    tiles.covers
  cases extents with
  | nil =>
      have covered := (coveredWhole whole.lo).mp ⟨le_rfl, whole.nonempty⟩
      simp at covered
  | cons first rest =>
      have laterThanFirst : ∀ later ∈ rest, first.hi < later.lo :=
        (List.pairwise_cons.mp separated).1
      have firstInside : ∀ point, first.Covers point → whole.Covers point :=
        fun point covered => (coveredWhole point).mpr ⟨first, by simp, covered⟩
      -- the least point of the interval lies in the first extent
      have sameLo : first.lo = whole.lo := by
        apply le_antisymm
        · obtain ⟨extent, member, covered⟩ :=
            (coveredWhole whole.lo).mp ⟨le_rfl, whole.nonempty⟩
          rcases List.mem_cons.mp member with rfl | inRest
          · exact covered.1
          · exact (first.nonempty.le.trans
              (laterThanFirst extent inRest).le).trans covered.1
        · exact (firstInside first.lo ⟨le_rfl, first.nonempty⟩).1
      -- the end of the first extent is covered by nothing, so it is the end
      have sameHi : first.hi = whole.hi := by
        apply le_antisymm
        · by_contra longer
          have inside : first.Covers whole.hi :=
            ⟨sameLo.le.trans whole.nonempty.le, not_le.mp longer⟩
          exact lt_irrefl _ (firstInside whole.hi inside).2
        · by_contra shorter
          have inside : whole.Covers first.hi :=
            ⟨sameLo.ge.trans first.nonempty.le, not_le.mp shorter⟩
          obtain ⟨extent, member, covered⟩ := (coveredWhole first.hi).mp inside
          rcases List.mem_cons.mp member with rfl | inRest
          · exact lt_irrefl _ covered.2
          · exact absurd (laterThanFirst extent inRest) (not_lt.mpr covered.1)
      have restEmpty : rest = [] := by
        apply List.eq_nil_iff_forall_not_mem.mpr
        intro later member
        have inside : whole.Covers later.lo :=
          (coveredWhole later.lo).mpr
            ⟨later, by simp [member], le_rfl, later.nonempty⟩
        have beyond := laterThanFirst later member
        rw [sameHi] at beyond
        exact lt_asymm beyond inside.2
      have sameExtent : first = whole := Extent.ext sameLo sameHi
      rw [sameExtent, restEmpty]

end Tiles

section Separated

variable
    {first second : Extent α}
    {rest others extents : List (Extent α)}

/-- Nothing is covered below the first of a list of separated extents. -/
theorem lo_le_of_covered
    (separated : (first :: rest).Pairwise Extent.Before)
    {point : α}
    (covered : ∃ extent ∈ first :: rest, extent.Covers point) :
    first.lo ≤ point := by
  obtain ⟨extent, member, lower, -⟩ := covered
  rcases List.mem_cons.mp member with rfl | inRest
  · exact lower
  · have later := (List.pairwise_cons.mp separated).1 extent inRest
    exact ((first.nonempty.trans later).le).trans lower

/-- The end of the first of a list of separated extents is not covered. -/
theorem not_covered_hi
    (separated : (first :: rest).Pairwise Extent.Before) :
    ¬∃ extent ∈ first :: rest, extent.Covers first.hi := by
  rintro ⟨extent, member, lower, upper⟩
  rcases List.mem_cons.mp member with rfl | inRest
  · exact lt_irrefl _ upper
  · have later := (List.pairwise_cons.mp separated).1 extent inRest
    exact absurd later (not_lt.mpr lower)

/-- What the later extents cover is what the list covers behind the first. -/
theorem covered_rest_iff
    (separated : (first :: rest).Pairwise Extent.Before)
    (point : α) :
    (∃ extent ∈ rest, extent.Covers point) ↔
      (∃ extent ∈ first :: rest, extent.Covers point) ∧ first.hi ≤ point := by
  constructor
  · rintro ⟨extent, member, covers⟩
    have later := (List.pairwise_cons.mp separated).1 extent member
    exact ⟨⟨extent, List.mem_cons_of_mem _ member, covers⟩,
      later.le.trans covers.1⟩
  · rintro ⟨⟨extent, member, covers⟩, behind⟩
    rcases List.mem_cons.mp member with rfl | inRest
    · exact absurd covers.2 (not_lt.mpr behind)
    · exact ⟨extent, inRest, covers⟩

/-- The first extents of two separated lists with the same points end alike. -/
theorem hi_le_hi
    (separated : (first :: rest).Pairwise Extent.Before)
    (sameLo : first.lo = second.lo)
    (included :
      ∀ point,
        (∃ extent ∈ second :: others, extent.Covers point) →
        ∃ extent ∈ first :: rest, extent.Covers point) :
    second.hi ≤ first.hi := by
  by_contra longer
  have inside : second.Covers first.hi :=
    ⟨sameLo.ge.trans first.nonempty.le, not_le.mp longer⟩
  exact not_covered_hi separated
    (included first.hi ⟨second, List.mem_cons_self, inside⟩)

/-- Separated extents are determined by the points they cover. -/
theorem eq_of_separated
    (separated : extents.Pairwise Extent.Before)
    (separated' : others.Pairwise Extent.Before)
    (same :
      ∀ point,
        (∃ extent ∈ extents, extent.Covers point) ↔
          ∃ extent ∈ others, extent.Covers point) :
    extents = others := by
  induction extents generalizing others with
  | nil =>
      cases others with
      | nil =>
          rfl
      | cons second others =>
          have covered :=
            (same second.lo).mpr
              ⟨second, List.mem_cons_self, le_rfl, second.nonempty⟩
          simp at covered
  | cons first rest inductionHypothesis =>
      cases others with
      | nil =>
          have covered :=
            (same first.lo).mp
              ⟨first, List.mem_cons_self, le_rfl, first.nonempty⟩
          simp at covered
      | cons second others =>
          have sameLo : first.lo = second.lo := by
            apply le_antisymm
            · apply lo_le_of_covered separated
              exact (same second.lo).mpr
                ⟨second, List.mem_cons_self, le_rfl, second.nonempty⟩
            · apply lo_le_of_covered separated'
              exact (same first.lo).mp
                ⟨first, List.mem_cons_self, le_rfl, first.nonempty⟩
          have sameHi : first.hi = second.hi :=
            le_antisymm
              (hi_le_hi separated' sameLo.symm fun point => (same point).mp)
              (hi_le_hi separated sameLo fun point => (same point).mpr)
          have sameRest : rest = others := by
            apply inductionHypothesis (List.pairwise_cons.mp separated).2
              (List.pairwise_cons.mp separated').2
            intro point
            rw [covered_rest_iff separated, covered_rest_iff separated', same,
              sameHi]
          rw [Extent.ext sameLo sameHi, sameRest]

end Separated

end ExtentTiling
