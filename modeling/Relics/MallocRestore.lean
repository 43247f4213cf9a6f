import Relics.MallocCoalescing
import Relics.MallocSteps

namespace Relics.Malloc

/-!
# Freeing everything restores the heap

From one region whose header does not lie at address 0 the free list starts
as a single block.  Its blocks stay in ascending order and never touch, so
when nothing is handed out any more the bytes of the region are covered by
a single free block again.
-/

open ByteMemory ExtentTiling LinkedList LinkedRing

/-- The free list holds one block of this size, linked only to the head. -/
structure OnlyBlock
    (freeList : Nat)
    (memory : Memory)
    (block recordedSize : Nat) :
    Prop where
  ring : Ring (next memory) (prev memory) freeList [block]
  recorded : size memory block = recordedSize

/--
Whenever nothing is handed out, the free list is the single block
`malloc_addblock` made of the region.
-/
def RestoresHeap
    (freeList : Nat)
    (memory : Memory)
    (entry : E820Map64) :
    Prop :=
  ∀ actions state,
    HeapState.Reaches freeList memory [entry] actions state →
    state.live = [] →
    ∃ recordedSize,
      OnlyBlock freeList (HeapState.initial freeList memory [entry]).memory
          (alignUp entry.base 8) recordedSize ∧
        OnlyBlock freeList state.memory (alignUp entry.base 8) recordedSize

section Separation

variable
    {block : Block}
    {wanted : Nat}
    {before after free : List Block}

/--
What stays of a block keeps its place among the blocks before and after it,
for any comparison of the end of one block with the beginning of another.
-/
theorem pairwise_allocate
    (compare : Nat → Nat → Prop)
    (monotone :
      ∀ {limit low high}, low ≤ high → compare limit low → compare limit high)
    (placed :
      (before ++ block :: after).Pairwise fun first second =>
        compare first.fin second.addr) :
    (before ++ (block.remainder wanted ++ after)).Pairwise fun first second =>
      compare first.fin second.addr := by
  obtain ⟨lower, blockAndAfter, across⟩ := List.pairwise_append.mp placed
  obtain ⟨fromBlock, higher⟩ := List.pairwise_cons.mp blockAndAfter
  refine List.pairwise_append.mpr
    ⟨lower, List.pairwise_append.mpr ⟨?_, higher, ?_⟩, ?_⟩
  · by_cases split : block.Splittable wanted
    all_goals simp [Block.remainder, split]
  · intro rest restMember second secondMember
    rw [(mem_remainder restMember).2]
    exact fromBlock second secondMember
  · intro first firstMember second secondMember
    rcases List.mem_append.mp secondMember with inRemainder | inAfter
    · have behind := (mem_remainder inRemainder).1
      have higher : block.addr ≤ second.addr := by
        omega
      exact monotone higher (across first firstMember block (by simp))
    · exact across first firstMember second (by simp [inAfter])

/-- Serving a request from a separated free list leaves one. -/
theorem separated_allocate
    (separated : Separated (before ++ block :: after)) :
    Separated (before ++ (block.remainder wanted ++ after)) :=
  List.pairwise_map.mpr
    (pairwise_allocate (· < ·) (fun higher below => below.trans_le higher)
      (List.pairwise_map.mp separated))

/-- Serving a request from an ordered free list leaves one. -/
theorem ordered_allocate
    (ordered : Ordered (before ++ block :: after)) :
    Ordered (before ++ (block.remainder wanted ++ after)) :=
  pairwise_allocate (· ≤ ·) (fun higher below => below.trans higher) ordered

/-- Putting a block back and joining separates an ordered list. -/
theorem separated_release
    (ordered : Ordered free)
    (apart : BlocksApart (block :: free))
    (nonNull : ∀ other ∈ block :: free, other.addr ≠ 0) :
    Separated (coalesce (putBack block free)) := by
  have sameBlocks := putBack_perm block free
  have placed := ascending_putBack ordered.ascending apart
  have placedApart : BlocksApart (putBack block free) :=
    ((sameBlocks.map Block.extent).pairwise_iff Extent.Apart.symm).mpr apart
  have untouched : ¬NullTouched (putBack block free) := by
    rintro ⟨first, member, -, -, atNull, -⟩
    exact nonNull first (sameBlocks.mem_iff.mp member) atNull
  cases shape : putBack block free with
  | nil =>
      exact .nil
  | cons last rest =>
      rw [shape] at placed placedApart untouched
      exact (separated_coalesceFrom (placed.ordered placedApart) untouched).1

end Separation

/-- No block lies at address 0. -/
def NoneNull (blocks : BlockState) : Prop :=
  ∀ block ∈ blocks.free ++ blocks.live, block.addr ≠ 0

/-- No step puts a block at address 0. -/
theorem noneNull_step
    {blocks blocks' : BlockState}
    {action : HeapAction}
    (noneNull : NoneNull blocks)
    (step : BlockStep blocks action blocks') :
    NoneNull blocks' := by
  cases step with
  | refuse _ =>
      exact noneNull
  | @allocate before after live block wanted _ _ _ =>
      intro other member
      simp only [List.mem_append, List.mem_cons] at member
      rcases member with (inBefore | inRemainder | inAfter) | rfl | inLive
      · exact noneNull other (by simp [inBefore])
      · have inside := mem_remainder inRemainder
        simp only [allocHeaderSz] at inside
        omega
      · exact noneNull other (by simp [inAfter])
      · rw [Block.taken_addr]
        exact noneNull block (by simp)
      · exact noneNull other (by simp [inLive])
  | @release free live rest block held =>
      intro other member
      rcases List.mem_append.mp member with inFree | inRest
      · obtain ⟨origin, inList, same⟩ := addr_of_mem_release inFree
        rw [← same]
        rcases List.mem_cons.mp inList with rfl | old
        · exact noneNull origin
            (List.mem_append_right _ (held.mem_iff.mpr (by simp)))
        · exact noneNull origin (List.mem_append_left _ old)
      · exact noneNull other
          (List.mem_append_right _ (held.mem_iff.mpr (.tail _ inRest)))
  | clientWrite =>
      exact noneNull

/-- A released block overlaps no free block. -/
theorem blocksApart_of_held
    {block : Block}
    {free live rest : List Block}
    {region : Set Nat}
    (tiles : Tiles (extents (free ++ live)) region)
    (held : live.Perm (block :: rest)) :
    BlocksApart (block :: free) := by
  have shuffled : (free ++ live).Perm ((block :: free) ++ rest) :=
    (held.append_left free).trans List.perm_middle
  have apart := (tiles.perm (shuffled.map Block.extent)).apart
  rw [List.map_append] at apart
  exact (List.pairwise_append.mp apart).1

/-- Neither a released block nor a free one lies at address 0. -/
theorem nonNull_of_held
    {block : Block}
    {free live rest : List Block}
    (noneNull : NoneNull { free := free, live := live })
    (held : live.Perm (block :: rest)) :
    ∀ other ∈ block :: free, other.addr ≠ 0 := by
  intro other member
  apply noneNull
  rcases List.mem_cons.mp member with rfl | inFree
  · exact List.mem_append_right _ (held.mem_iff.mpr (by simp))
  · exact List.mem_append_left _ inFree

/-- A step keeps the free list separated if no block lies at address 0. -/
theorem separated_step
    {blocks blocks' : BlockState}
    {action : HeapAction}
    {region : Set Nat}
    (tiles : Tiles (extents (blocks.free ++ blocks.live)) region)
    (separated : Separated blocks.free)
    (noneNull : NoneNull blocks)
    (step : BlockStep blocks action blocks') :
    Separated blocks'.free := by
  cases step with
  | refuse _ =>
      exact separated
  | allocate _ _ _ =>
      exact separated_allocate separated
  | release held =>
      exact separated_release separated.ordered
        (blocksApart_of_held tiles held) (nonNull_of_held noneNull held)
  | clientWrite =>
      exact separated

/-- A step keeps the free list ordered if no block lies at address 0. -/
theorem ordered_step
    {blocks blocks' : BlockState}
    {action : HeapAction}
    {region : Set Nat}
    (tiles : Tiles (extents (blocks.free ++ blocks.live)) region)
    (ordered : Ordered blocks.free)
    (noneNull : NoneNull blocks)
    (step : BlockStep blocks action blocks') :
    Ordered blocks'.free := by
  cases step with
  | refuse _ =>
      exact ordered
  | allocate _ _ _ =>
      exact ordered_allocate ordered
  | release held =>
      exact (separated_release ordered (blocksApart_of_held tiles held)
        (nonNull_of_held noneNull held)).ordered
  | clientWrite =>
      exact ordered

/-- A free list represented by one block holds that block only. -/
theorem onlyBlock_of_represents
    {freeList : Nat}
    {memory : Memory}
    {block : Block}
    {live : List Block}
    (represents : Represents freeList memory [block] live) :
    OnlyBlock freeList memory block.addr block.size where
  ring := represents.ring
  recorded := represents.sizes block (by simp)

/--
One region off the storage of the list head, ending below the end of the
address space, long enough for a header and with its header not at address 0:
whatever is allocated and freed in whatever order, once everything is freed
the free list is the single block of the region again.
-/
theorem heap_restored
    (freeList : Nat)
    (memory : Memory)
    (entry : E820Map64)
    (regions : WellFormedRegions freeList [entry])
    (nonNull : alignUp entry.base 8 ≠ 0) :
    RestoresHeap freeList memory entry := by
  intro actions state reaches allFreed
  have aligned : alignUp entry.base 8 = headerAddr entry :=
    alignUp_base (regions.below entry (by simp)) (regions.long entry (by simp))
  rw [aligned] at nonNull ⊢
  obtain ⟨blocks, invariant, separated, -⟩ :=
    reaches_blocks
      (fun blocks => Separated blocks.free ∧ NoneNull blocks)
      regions reaches
      ⟨List.pairwise_singleton _ _, by
        simpa [NoneNull, initialBlocks, regionBlock] using nonNull⟩
      (fun tiles holds step =>
        ⟨separated_step tiles holds.1 holds.2 step,
          noneNull_step holds.2 step⟩)
  have noneLive : blocks.live = [] := by
    have pointers := invariant.pointers
    rw [allFreed] at pointers
    exact List.map_eq_nil_iff.mp pointers.nil_eq.symm
  have wholeRegion :
      heapBytes [entry] = {point | (regionBlock entry).extent.Covers point} := by
    ext address
    simp only [heapBytes, List.mem_singleton, exists_eq_left, Set.mem_ofPred_eq,
      Extent.Covers, Block.extent_lo, Block.extent_hi,
      regionBlock_fin (regions.long entry (by simp))]
    rfl
  have tiles := invariant.tiles
  rw [noneLive, List.append_nil, wholeRegion] at tiles
  have single := tiles.eq_singleton_of_separated separated
  obtain ⟨block, free, sameExtent⟩ := List.map_eq_singleton_iff.mp single
  have sameBlock : block = regionBlock entry := by
    have sameLo := congrArg Extent.lo sameExtent
    have sameHi := congrArg Extent.hi sameExtent
    simp only [Block.extent_lo, Block.extent_hi] at sameLo sameHi
    simp only [Block.fin] at sameHi
    ext
    · exact sameLo
    · omega
  have initially := (heapInvariant_initial memory regions).represents
  have represents := invariant.represents
  rw [free, sameBlock] at represents
  exact ⟨(regionBlock entry).size, onlyBlock_of_represents initially,
    onlyBlock_of_represents represents⟩

/-- A region below the list head. -/
def exampleRegion : E820Map64 where
  baseaddr := 0x100004
  length := 0x400
  entryType := e820TypeUsable

/-- The only block after two allocations freed in the order they were made. -/
theorem heap_restored_afterTwo :
    ∃ state,
      HeapState.Reaches 0x2000 (fun _ => 0) [exampleRegion]
          [.kmalloc 100, .kmalloc 40, .kfree 0x100020, .kfree 0x1000a0]
          state ∧
        ∃ recordedSize,
          OnlyBlock 0x2000
              (HeapState.initial 0x2000 (fun _ => 0) [exampleRegion]).memory
              (alignUp exampleRegion.base 8) recordedSize ∧
            OnlyBlock 0x2000 state.memory
              (alignUp exampleRegion.base 8) recordedSize := by
  have regions : WellFormedRegions 0x2000 [exampleRegion] := {
    headFits := by decide
    disjoint := by decide
    below := by decide
    avoidsHead := by decide
    long := by decide }
  have ran :
      (HeapState.run? 0x2000 4
          (HeapState.initial 0x2000 (fun _ => 0) [exampleRegion])
          [.kmalloc 100, .kmalloc 40, .kfree 0x100020, .kfree 0x1000a0]).any
        (fun state => state.live = []) = true := by
    decide +kernel
  obtain ⟨state, reaches, allFreed⟩ := HeapState.exists_reached _ ran
  exact ⟨state, reaches,
    heap_restored 0x2000 (fun _ => 0) exampleRegion regions
      (by decide +kernel) _ state reaches (of_decide_eq_true allFreed)⟩

/-- A region whose bytes contain the list head. -/
def overListHead : E820Map64 where
  baseaddr := 0x1000
  length := 0x10000
  entryType := e820TypeUsable

/--
The list head lies in the middle of the region.  A client that writes one
byte of the block it holds redirects the head, and freeing the block links it
behind an address that is no block.
-/
theorem not_restoresHeap_overListHead :
    alignUp overListHead.base 8 ≠ 0 ∧
      overListHead.limit < 2 ^ 64 ∧
      headerAddr overListHead + allocHeaderSz ≤ overListHead.limit ∧
      ¬RestoresHeap 0x6000 (fun _ => 0) overListHead := by
  refine ⟨by decide +kernel, by decide, by decide, ?_⟩
  intro restores
  have ran :
      (HeapState.run? 0x6000 3
          (HeapState.initial 0x6000 (fun _ => 0) [overListHead])
          [.kmalloc 0xffe8, .clientWrite 0x6000 8, .kfree 0x1018]).any
        (fun state =>
          state.live = [] ∧ next state.memory 0x6000 = 0x6008) = true := by
    decide +kernel
  obtain ⟨state, reaches, final⟩ := HeapState.exists_reached _ ran
  obtain ⟨allFreed, redirected⟩ := of_decide_eq_true final
  obtain ⟨_, -, ⟨ring, -⟩⟩ := restores _ state reaches allFreed
  have first : next state.memory 0x6000 = alignUp overListHead.base 8 :=
    (List.isChain_cons_cons.mp ring).1.1
  rw [redirected] at first
  exact absurd first (by decide +kernel)

end Relics.Malloc
