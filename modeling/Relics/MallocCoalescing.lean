import Relics.MallocBlocks

namespace Relics.Malloc

/-!
# What the joining pass needs to leave no fragments

The single pass of `defrag_free_list` relies on the free list being in
ascending order, and it never joins anything to a block at address 0.  For
blocks that do not overlap these are the only two things it relies on: it
leaves a list in ascending order without touching blocks exactly when it is
given one in ascending order in which no block at address 0 is touched.
-/

open ExtentTiling

/-- Each block ends before the next one begins, or where it begins. -/
def Ordered (free : List Block) : Prop :=
  free.Pairwise fun first second => first.fin ≤ second.addr

/-- A block at address 0 ends where another block of the list begins. -/
def NullTouched (blocks : List Block) : Prop :=
  ∃ first ∈ blocks, ∃ second ∈ blocks,
    first.addr = 0 ∧ first.fin = second.addr

/-- The blocks of the list do not overlap. -/
def BlocksApart (blocks : List Block) : Prop :=
  (extents blocks).Pairwise Extent.Apart

section Order

variable
    {block : Block}
    {free : List Block}

theorem blocksApart_cons :
    BlocksApart (block :: free) ↔
      (∀ other ∈ free, block.fin ≤ other.addr ∨ other.fin ≤ block.addr) ∧
        BlocksApart free := by
  simp [BlocksApart, extents, Extent.Apart]

/-- An ordered list ascends. -/
theorem Ordered.ascending
    (ordered : Ordered free) :
    Ascending free := by
  apply List.Pairwise.imp _ ordered
  intro first second ends
  have := first.header_le_fin
  omega

/-- Blocks that do not overlap are ordered once their addresses ascend. -/
theorem Ascending.ordered
    (ascending : Ascending free)
    (apart : BlocksApart free) :
    Ordered free := by
  have apartBlocks :
      free.Pairwise fun first second =>
        first.fin ≤ second.addr ∨ second.fin ≤ first.addr :=
    List.pairwise_map.mp apart
  apply (ascending.and apartBlocks).imp
  rintro first second ⟨lower, firstEnds | secondEnds⟩
  · exact firstEnds
  · have := second.header_le_fin
    omega

/-- A separated list is ordered. -/
theorem Separated.ordered
    (separated : Separated free) :
    Ordered free := by
  apply (List.pairwise_map.mp separated).imp
  intro first second before
  exact Nat.le_of_lt before

/-- No two blocks of a separated list touch. -/
theorem Separated.noneTouch
    (separated : Separated free) :
    NoneTouch free := by
  intro first firstMember second secondMember touch
  have firstRoom := first.header_le_fin
  have secondRoom := second.header_le_fin
  have beforeEither :
      first = second ∨ first.fin < second.addr ∨ second.fin < first.addr := by
    by_cases same : first = second
    · exact .inl same
    · have symmetric :
          free.Pairwise fun left right =>
            left.fin < right.addr ∨ right.fin < left.addr :=
        (List.pairwise_map.mp separated).imp .inl
      have : Std.Symm fun left right : Block =>
          left.fin < right.addr ∨ right.fin < left.addr :=
        ⟨fun _ _ => Or.symm⟩
      exact .inr
        (symmetric.forall firstMember secondMember same)
  rcases beforeEither with rfl | firstEnds | secondEnds
  all_goals omega

/-- Putting a block back keeps an ascending list ascending. -/
theorem ascending_putBack
    (ascending : Ascending free)
    (apart : BlocksApart (block :: free)) :
    Ascending (putBack block free) := by
  obtain ⟨lower, higher, rfl, placed, notHigher, starts⟩ :=
    putBack_shape block free
  have fromBlock := (blocksApart_cons.mp apart).1
  obtain ⟨lowerAscending, higherAscending, across⟩ :=
    List.pairwise_append.mp ascending
  have belowHigher : ∀ other ∈ higher, block.addr < other.addr := by
    intro other member
    cases higher with
    | nil =>
        simp at member
    | cons first rest =>
        have aboveBlock := starts first rfl
        rcases List.mem_cons.mp member with rfl | inRest
        · exact aboveBlock
        · have := (List.pairwise_cons.mp higherAscending).1 other inRest
          omega
  have aboveLower : ∀ other ∈ lower, other.addr < block.addr := by
    intro other member
    have notAbove := notHigher other member
    have blockRoom := block.header_le_fin
    have otherRoom := other.header_le_fin
    rcases fromBlock other (by simp [member]) with blockEnds | otherEnds
    all_goals omega
  rw [placed]
  refine List.pairwise_append.mpr
    ⟨lowerAscending, List.pairwise_cons.mpr ⟨belowHigher, higherAscending⟩, ?_⟩
  intro first firstMember second secondMember
  rcases List.mem_cons.mp secondMember with rfl | inHigher
  · exact aboveLower first firstMember
  · exact across first firstMember second inHigher

/-- The list a block was put back into ascends if the result does. -/
theorem ascending_of_putBack
    (block : Block)
    (ascending : Ascending (putBack block free)) :
    Ascending free :=
  ascending.sublist (List.sublist_orderedInsert block free)

end Order

section Pass

variable
    {last block : Block}
    {free rest : List Block}

/-- Joining two touching blocks keeps the list free of overlaps. -/
theorem blocksApart_joined
    (apart : BlocksApart (last :: block :: rest))
    (touch : last.fin = block.addr) :
    BlocksApart (last.joined block :: rest) := by
  obtain ⟨lastApart, blockAndRest⟩ := blocksApart_cons.mp apart
  obtain ⟨blockApart, restApart⟩ := blocksApart_cons.mp blockAndRest
  refine blocksApart_cons.mpr ⟨?_, restApart⟩
  intro other member
  have fromLast := lastApart other (by simp [member])
  have fromBlock := blockApart other member
  have room := other.header_le_fin
  rw [Block.joined_fin touch, Block.joined_addr]
  omega

/-- Joining two touching blocks keeps the list ordered. -/
theorem ordered_joined
    (ordered : Ordered (last :: block :: rest))
    (touch : last.fin = block.addr) :
    Ordered (last.joined block :: rest) := by
  obtain ⟨-, blockAndRest⟩ := List.pairwise_cons.mp ordered
  obtain ⟨fromBlock, restOrdered⟩ := List.pairwise_cons.mp blockAndRest
  refine List.pairwise_cons.mpr ⟨?_, restOrdered⟩
  intro other member
  rw [Block.joined_fin touch]
  exact fromBlock other member

/-- In an ordered list that begins above 0 no null block is touched. -/
theorem untouched_joined
    (ordered : Ordered (last :: block :: rest))
    (nonNull : last.addr ≠ 0) :
    ¬NullTouched (last.joined block :: rest) := by
  obtain ⟨fromLast, -⟩ := List.pairwise_cons.mp ordered
  have lastRoom := last.header_le_fin
  rintro ⟨first, firstMember, second, -, atNull, -⟩
  rcases List.mem_cons.mp firstMember with rfl | inRest
  · exact nonNull atNull
  · have := fromLast first (by simp [inRest])
    omega

/-- A pass over an ordered list whose null block is not touched separates it. -/
theorem separated_coalesceFrom
    (ordered : Ordered (last :: free))
    (untouched : ¬NullTouched (last :: free)) :
    Separated (coalesceFrom last free) ∧
      ∀ block ∈ coalesceFrom last free, last.addr ≤ block.addr := by
  induction free generalizing last with
  | nil =>
      simp [coalesceFrom, Separated, extents]
  | cons block rest inductionHypothesis =>
      obtain ⟨fromLast, blockAndRest⟩ := List.pairwise_cons.mp ordered
      have lastRoom := last.header_le_fin
      by_cases join : last.addr ≠ 0 ∧ last.fin = block.addr
      · simp only [coalesceFrom, join, ne_eq, not_false_eq_true, and_self,
          ↓reduceIte]
        exact inductionHypothesis (ordered_joined ordered join.2)
          (untouched_joined ordered join.1)
      · simp only [coalesceFrom, join, ↓reduceIte]
        have blockFirst : last.fin ≤ block.addr := fromLast block (by simp)
        have apart : last.fin < block.addr := by
          rcases Nat.lt_or_eq_of_le blockFirst with before | touch
          · exact before
          · have atNull : last.addr = 0 := by
              by_contra nonNull
              exact join ⟨nonNull, touch⟩
            exact absurd
              ⟨last, by simp, block, by simp, atNull, touch⟩ untouched
        have restUntouched : ¬NullTouched (block :: rest) := by
          rintro ⟨first, firstMember, second, secondMember, atNull, touch⟩
          exact untouched
            ⟨first, .tail _ firstMember, second, .tail _ secondMember,
              atNull, touch⟩
        obtain ⟨separated, above⟩ :=
          inductionHypothesis blockAndRest restUntouched
        refine ⟨List.pairwise_cons.mpr ⟨?_, separated⟩, ?_⟩
        · intro extent member
          obtain ⟨other, otherMember, rfl⟩ := List.mem_map.mp member
          exact Nat.lt_of_lt_of_le apart (above other otherMember)
        · intro other member
          rcases List.mem_cons.mp member with rfl | later
          · exact le_rfl
          · have := above other later
            omega

/-- A pass that ends in an ascending list was given one. -/
theorem ascending_of_coalesceFrom
    (apart : BlocksApart (last :: free))
    (ascending : Ascending (coalesceFrom last free)) :
    Ascending (last :: free) := by
  induction free generalizing last with
  | nil =>
      exact List.pairwise_singleton _ _
  | cons block rest inductionHypothesis =>
      obtain ⟨lastApart, blockAndRest⟩ := blocksApart_cons.mp apart
      have lastRoom := last.header_le_fin
      by_cases join : last.addr ≠ 0 ∧ last.fin = block.addr
      · simp only [coalesceFrom, join, ne_eq, not_false_eq_true, and_self,
          ↓reduceIte] at ascending
        obtain ⟨fromJoined, restAscending⟩ :=
          List.pairwise_cons.mp
            (inductionHypothesis (blocksApart_joined apart join.2) ascending)
        rw [Block.joined_addr] at fromJoined
        have fromBlock : ∀ other ∈ rest, block.addr < other.addr := by
          intro other member
          have aboveLast := fromJoined other member
          have room := other.header_le_fin
          -- a lower block would lie between the two that touch
          rcases lastApart other (by simp [member]) with lastEnds | otherEnds
          · have blockRoom := block.header_le_fin
            rcases (blocksApart_cons.mp blockAndRest).1 other member with
                blockEnds | otherEnds
            all_goals omega
          · omega
        refine List.pairwise_cons.mpr
          ⟨?_, List.pairwise_cons.mpr ⟨fromBlock, restAscending⟩⟩
        intro other member
        rcases List.mem_cons.mp member with rfl | inRest
        · omega
        · exact fromJoined other inRest
      · simp only [coalesceFrom, join, ↓reduceIte] at ascending
        obtain ⟨fromLast, laterAscending⟩ := List.pairwise_cons.mp ascending
        obtain ⟨first, later, shape, sameAddr⟩ := head_coalesceFrom block rest
        have lastFirst := fromLast first (by simp [shape])
        have tailAscending := inductionHypothesis blockAndRest laterAscending
        refine List.pairwise_cons.mpr ⟨?_, tailAscending⟩
        intro other member
        rcases List.mem_cons.mp member with rfl | inRest
        · omega
        · have := (List.pairwise_cons.mp tailAscending).1 other inRest
          omega

/-- In an ordered list only the first block can lie at address 0. -/
theorem Ordered.null_first
    (ordered : Ordered (last :: free))
    (member : block ∈ last :: free)
    (atNull : block.addr = 0) :
    block = last := by
  rcases List.mem_cons.mp member with same | inFree
  · exact same
  · have := (List.pairwise_cons.mp ordered).1 block inFree
    have := last.header_le_fin
    omega

/-- A null block that is touched is still touched after the pass. -/
theorem touch_coalesceFrom
    (ordered : Ordered (last :: free))
    (touched : NullTouched (last :: free)) :
    ¬NoneTouch (coalesceFrom last free) := by
  obtain ⟨null, nullMember, second, secondMember, atNull, touch⟩ := touched
  obtain rfl := ordered.null_first nullMember atNull
  have nullRoom := null.header_le_fin
  have inFree : second ∈ free := by
    rcases List.mem_cons.mp secondMember with rfl | inFree
    · omega
    · exact inFree
  cases free with
  | nil =>
      simp at inFree
  | cons block rest =>
      obtain ⟨fromNull, blockAndRest⟩ := List.pairwise_cons.mp ordered
      have isSecond : block.addr = second.addr := by
        rcases List.mem_cons.mp inFree with rfl | inRest
        · rfl
        · have blockFirst := fromNull block (by simp)
          have := (List.pairwise_cons.mp blockAndRest).1 second inRest
          have := block.header_le_fin
          omega
      obtain ⟨first, later, shape, sameAddr⟩ := head_coalesceFrom block rest
      intro noneTouch
      apply noneTouch null _ first
      · simp [coalesceFrom, atNull, shape]
      · rw [sameAddr, isSecond, touch]
      · simp [coalesceFrom, atNull]

/--
Freeing a block leaves a list in ascending order without touching blocks
exactly when the list was in ascending order and no block at address 0 ends
where another free block begins.
-/
theorem ascending_noneTouch_release
    (apart : BlocksApart (block :: free)) :
    Ascending (coalesce (putBack block free)) ∧
        NoneTouch (coalesce (putBack block free)) ↔
      Ascending free ∧ ¬NullTouched (block :: free) := by
  have sameBlocks := putBack_perm block free
  have placedApart : BlocksApart (putBack block free) :=
    ((sameBlocks.map Block.extent).pairwise_iff Extent.Apart.symm).mpr apart
  have sameTouch :
      NullTouched (putBack block free) ↔ NullTouched (block :: free) := by
    simp only [NullTouched, sameBlocks.mem_iff]
  rw [← sameTouch]
  cases shape : putBack block free with
  | nil =>
      simp [shape] at sameBlocks
  | cons last rest =>
      rw [shape] at placedApart
      constructor
      · rintro ⟨ascending, noneTouch⟩
        have placed := ascending_of_coalesceFrom placedApart ascending
        refine ⟨ascending_of_putBack block (shape ▸ placed), ?_⟩
        intro touched
        exact touch_coalesceFrom (placed.ordered placedApart) touched noneTouch
      · rintro ⟨ascending, untouched⟩
        have placed : Ascending (last :: rest) :=
          shape ▸ ascending_putBack ascending apart
        have separated :=
          (separated_coalesceFrom (placed.ordered placedApart) untouched).1
        exact ⟨separated.ordered.ascending, separated.noneTouch⟩

end Pass

end Relics.Malloc
