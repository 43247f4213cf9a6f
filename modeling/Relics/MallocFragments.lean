import Relics.MallocPartition
import Relics.MallocRestore

namespace Relics.Malloc

/-!
# When a release leaves no fragments

`kfree` looks for the first higher block and joins neighbours in one pass, so
it depends on the order of the list it finds.  `kmalloc_init` puts every
region in front of the list, so regions in ascending order give a descending
list.  A release leaves an ascending list without touching blocks exactly
when it finds an ascending one in which no block at address 0 is touched, and
regions given in descending order, none of them at address 0, keep every run
in such states.
-/

open ByteMemory ExtentTiling LabelledRun LinkedList LinkedRing

/-- The free list goes through these blocks. -/
structure FreeListIs
    (freeList : Nat)
    (state : HeapState)
    (nodes : List Nat) :
    Prop where
  ring : Ring (next state.memory) (prev state.memory) freeList nodes
  headOutside : freeList ∉ nodes

/-- The free list ascends and none of its blocks ends where another begins. -/
def Unfragmented (freeList : Nat) (state : HeapState) : Prop :=
  ∃ nodes,
    FreeListIs freeList state nodes ∧
      nodes.Pairwise (· < ·) ∧
      ∀ first ∈ nodes, ∀ second ∈ nodes, blockEnd state first ≠ second

/--
A release finds the free list in ascending order, and no block at address 0
ends where a free block or the released one begins.
-/
def Orderly
    (freeList : Nat)
    (state : HeapState)
    (action : HeapAction) :
    Prop :=
  ∀ ptr,
    action = .kfree ptr →
    ∃ nodes,
      FreeListIs freeList state nodes ∧
        nodes.Pairwise (· < ·) ∧
        ∀ first ∈ containerOf ptr :: nodes,
          ∀ second ∈ containerOf ptr :: nodes,
            first = 0 → blockEnd state first ≠ second

/-- A step that leaves the free list unfragmented if it is a release. -/
def Unfragmenting
    (freeList : Nat)
    (state : HeapState)
    (action : HeapAction)
    (next : HeapState) :
    Prop :=
  HeapState.Step freeList state action next ∧
    ∀ ptr, action = .kfree ptr → Unfragmented freeList next

section Lists

variable
    {freeList : Nat}
    {region : Set Nat}
    {state : HeapState}
    {blocks : BlockState}

/-- The free list goes through the free blocks. -/
theorem HeapInvariant.freeListIs
    (arena : Arena freeList region)
    (invariant : HeapInvariant freeList region state blocks) :
    FreeListIs freeList state (blocks.free.map Block.addr) where
  ring := invariant.represents.ring
  headOutside member := by
    have headers := headersApart_of_tiles arena invariant.tiles
    rw [List.map_append] at headers
    exact headers.left.head_notMem member

/-- The free list goes through nothing but the free blocks. -/
theorem HeapInvariant.eq_of_freeListIs
    (arena : Arena freeList region)
    (invariant : HeapInvariant freeList region state blocks)
    {nodes : List Nat}
    (through : FreeListIs freeList state nodes) :
    nodes = blocks.free.map Block.addr :=
  through.ring.unique invariant.represents.ring through.headOutside
    (invariant.freeListIs arena).headOutside

/-- The list in memory is unfragmented when the list of blocks is. -/
theorem unfragmented_iff
    (arena : Arena freeList region)
    (invariant : HeapInvariant freeList region state blocks) :
    Unfragmented freeList state ↔
      Ascending blocks.free ∧ NoneTouch blocks.free := by
  have ends :
      ∀ block ∈ blocks.free, blockEnd state block.addr = block.fin :=
    fun block member =>
      blockEnd_addr invariant (List.mem_append_left _ member)
  constructor
  · rintro ⟨nodes, through, ascending, apart⟩
    obtain rfl := invariant.eq_of_freeListIs arena through
    refine ⟨List.pairwise_map.mp ascending, ?_⟩
    intro first firstMember second secondMember
    rw [← ends first firstMember]
    exact apart _ (List.mem_map_of_mem firstMember) _
      (List.mem_map_of_mem secondMember)
  · rintro ⟨ascending, noneTouch⟩
    refine ⟨_, invariant.freeListIs arena, List.pairwise_map.mpr ascending, ?_⟩
    intro first firstMember second secondMember
    obtain ⟨firstBlock, inFree, rfl⟩ := List.mem_map.mp firstMember
    obtain ⟨secondBlock, inFree', rfl⟩ := List.mem_map.mp secondMember
    rw [ends firstBlock inFree]
    exact noneTouch firstBlock inFree secondBlock inFree'

/-- The state before a release is orderly when the list of blocks is. -/
theorem orderly_iff
    (arena : Arena freeList region)
    (invariant : HeapInvariant freeList region state blocks)
    {block : Block}
    (held : block ∈ blocks.live) :
    Orderly freeList state (.kfree block.payload) ↔
      Ascending blocks.free ∧ ¬NullTouched (block :: blocks.free) := by
  have header := containerOf_payload arena invariant held
  have ends :
      ∀ other ∈ block :: blocks.free, blockEnd state other.addr = other.fin := by
    intro other member
    apply blockEnd_addr invariant
    rcases List.mem_cons.mp member with rfl | inFree
    · exact List.mem_append_right _ held
    · exact List.mem_append_left _ inFree
  have headers :
      containerOf block.payload :: blocks.free.map Block.addr =
        (block :: blocks.free).map Block.addr := by
    rw [header, List.map_cons]
  constructor
  · intro orderly
    obtain ⟨nodes, through, ascending, apart⟩ := orderly _ rfl
    obtain rfl := invariant.eq_of_freeListIs arena through
    rw [headers] at apart
    refine ⟨List.pairwise_map.mp ascending, ?_⟩
    rintro ⟨first, firstMember, second, secondMember, atNull, touch⟩
    apply apart _ (List.mem_map_of_mem firstMember) _
      (List.mem_map_of_mem secondMember) atNull
    rw [ends first firstMember]
    exact touch
  · rintro ⟨ascending, untouched⟩ ptr same
    obtain rfl : block.payload = ptr := HeapAction.kfree.inj same
    refine ⟨_, invariant.freeListIs arena, List.pairwise_map.mpr ascending, ?_⟩
    rw [headers]
    intro first firstMember second secondMember atNull touch
    obtain ⟨firstBlock, inList, rfl⟩ := List.mem_map.mp firstMember
    obtain ⟨secondBlock, inList', rfl⟩ := List.mem_map.mp secondMember
    rw [ends firstBlock inList] at touch
    exact untouched ⟨firstBlock, inList, secondBlock, inList', atNull, touch⟩

/-- A release leaves the list unfragmented exactly when it finds it orderly. -/
theorem unfragmented_release
    {next : HeapState}
    {ptr : Nat}
    (arena : Arena freeList region)
    (invariant : HeapInvariant freeList region state blocks)
    (step : HeapState.Step freeList state (.kfree ptr) next) :
    Unfragmented freeList next ↔ Orderly freeList state (.kfree ptr) := by
  obtain ⟨blocks', blockStep, invariant'⟩ := step_refines arena invariant step
  cases blockStep with
  | @release free live rest block held =>
      have member : block ∈ live := held.mem_iff.mpr (by simp)
      have apart := blocksApart_of_held invariant.tiles held
      rw [unfragmented_iff arena invariant',
        orderly_iff arena invariant member]
      exact ascending_noneTouch_release apart

end Lists

/--
From well-formed regions, the runs in which every release finds an orderly
free list are the runs in which every release leaves an unfragmented one.
-/
theorem unfragmented_after_release
    (freeList : Nat)
    (memory : Memory)
    (usable : List E820Map64)
    (regions : WellFormedRegions freeList usable)
    (actions : List HeapAction)
    (state : HeapState) :
    Run (Guarded (HeapState.Step freeList) (Orderly freeList))
        (HeapState.initial freeList memory usable) actions state ↔
      Run (Unfragmenting freeList)
        (HeapState.initial freeList memory usable) actions state := by
  have arena := arena_heapBytes regions
  constructor
  · intro run
    apply run.mono
    rintro actions state action next earlier ⟨orderly, step⟩
    have reaches :
        HeapState.Reaches freeList memory usable actions state :=
      earlier.mono fun _ last => last.1
    obtain ⟨blocks, invariant⟩ := reaches_invariant regions reaches
    refine ⟨step, ?_⟩
    rintro ptr rfl
    exact (unfragmented_release arena invariant step).mpr orderly
  · intro run
    apply run.mono
    rintro actions state action next earlier ⟨step, unfragmented⟩
    obtain ⟨blocks, invariant⟩ :=
      reaches_invariant regions earlier.of_guarded
    refine ⟨?_, step⟩
    rintro ptr rfl
    exact (unfragmented_release arena invariant step).mp
      (unfragmented ptr rfl) ptr rfl

/-- Every release of every run leaves the free list unfragmented. -/
def ReleasesUnfragmented
    (freeList : Nat)
    (memory : Memory)
    (usable : List E820Map64) :
    Prop :=
  ∀ actions ptr state,
    HeapState.Reaches freeList memory usable (actions ++ [.kfree ptr]) state →
    Unfragmented freeList state

/--
Regions given in descending order, none with its header at address 0, are
never fragmented by a release.
-/
theorem releasesUnfragmented_of_descending
    {freeList : Nat}
    {memory : Memory}
    {usable : List E820Map64}
    (regions : WellFormedRegions freeList usable)
    (descending :
      usable.Pairwise fun first second => second.limit ≤ first.base)
    (nonNull : ∀ entry ∈ usable, headerAddr entry ≠ 0) :
    ReleasesUnfragmented freeList memory usable := by
  intro actions ptr next run
  obtain ⟨state, reaches, step⟩ := run.exists_last
  have arena := arena_heapBytes regions
  have initiallyOrdered : Ordered (initialBlocks usable) := by
    apply List.pairwise_reverse.mpr
    apply List.pairwise_map.mpr
    apply descending.imp_of_mem
    intro first second _ secondMember lower
    rw [regionBlock_fin (regions.long second secondMember)]
    exact lower.trans (base_le_headerAddr first)
  have initiallyNonNull :
      NoneNull { free := initialBlocks usable, live := [] } := by
    intro block member
    simp only [initialBlocks, List.append_nil, List.mem_reverse,
      List.mem_map] at member
    obtain ⟨entry, inUsable, rfl⟩ := member
    exact nonNull entry inUsable
  obtain ⟨blocks, invariant, ordered, noneNull⟩ :=
    reaches_blocks (fun blocks => Ordered blocks.free ∧ NoneNull blocks)
      regions reaches ⟨initiallyOrdered, initiallyNonNull⟩
      (fun tiles holds step =>
        ⟨ordered_step tiles holds.1 holds.2 step, noneNull_step holds.2 step⟩)
  apply (unfragmented_release arena invariant step).mpr
  have held : ptr ∈ state.live := permits_of_step step
  obtain ⟨block, member, rfl⟩ := invariant.block_of_pointer held
  apply (orderly_iff arena invariant member).mpr
  refine ⟨ordered.ascending, ?_⟩
  rintro ⟨first, firstMember, -, -, atNull, -⟩
  exact nonNull_of_held noneNull (List.perm_cons_erase member) first
    firstMember atNull

/-- The two example regions, the higher one first. -/
def descendingRegions : List E820Map64 :=
  exampleRegions.reverse

/-- A run from descending regions whose release finds an orderly list. -/
theorem unfragmented_after_release_descending :
    ∃ state,
      Run (Guarded (HeapState.Step 0x2000) (Orderly 0x2000))
        (HeapState.initial 0x2000 (fun _ => 0) descendingRegions)
        [.kmalloc 100, .kfree 0x100020] state := by
  have regions : WellFormedRegions 0x2000 descendingRegions := {
    headFits := by decide
    disjoint := by decide
    below := by decide
    avoidsHead := by decide
    long := by decide }
  have unfragmented :
      ReleasesUnfragmented 0x2000 (fun _ => 0) descendingRegions :=
    releasesUnfragmented_of_descending regions (by decide) (by decide)
  have ran :
      (HeapState.run? 0x2000 4
          (HeapState.initial 0x2000 (fun _ => 0) descendingRegions)
          [.kmalloc 100, .kfree 0x100020]).any (fun _ => true) = true := by
    decide +kernel
  obtain ⟨state, reaches, -⟩ := HeapState.exists_reached _ ran
  refine ⟨state,
    (unfragmented_after_release 0x2000 (fun _ => 0) descendingRegions regions
      [.kmalloc 100, .kfree 0x100020] state).mpr ?_⟩
  apply reaches.mono
  intro actions state action next earlier step
  refine ⟨step, ?_⟩
  rintro ptr rfl
  exact unfragmented actions ptr next
    ((earlier.mono fun _ last => last.1).extend step)

/-- Two regions in ascending order: the first release leaves them descending. -/
theorem not_releasesUnfragmented_ascending :
    WellFormedRegions 0x2000 exampleRegions ∧
      ¬ReleasesUnfragmented 0x2000 (fun _ => 0) exampleRegions := by
  refine ⟨exampleRegions_wellFormed, ?_⟩
  intro unfragmented
  have ran :
      (HeapState.run? 0x2000 4
          (HeapState.initial 0x2000 (fun _ => 0) exampleRegions)
          [.kmalloc 100, .kfree 0x200018]).any
        (fun state =>
          next state.memory 0x2000 = 0x200000 ∧
            next state.memory 0x200000 = 0x100008) = true := by
    decide +kernel
  obtain ⟨state, reaches, links⟩ := HeapState.exists_reached _ ran
  obtain ⟨first, second⟩ := of_decide_eq_true links
  obtain ⟨nodes, through, ascending, -⟩ :=
    unfragmented [.kmalloc 100] 0x200018 state reaches
  have ring := through.ring
  match nodes with
  | [] =>
      have := ring.next_head
      simp [first] at this
  | [only] =>
      obtain ⟨⟨forward, -⟩, closes⟩ := List.isChain_cons_cons.mp ring
      obtain ⟨⟨back, -⟩, -⟩ := List.isChain_cons_cons.mp closes
      rw [← forward, first, second] at back
      exact absurd back (by decide)
  | lower :: higher :: rest =>
      obtain ⟨⟨forward, -⟩, onwards⟩ := List.isChain_cons_cons.mp ring
      obtain ⟨⟨forward', -⟩, -⟩ := List.isChain_cons_cons.mp onwards
      have rises := (List.pairwise_cons.mp ascending).1 higher (by simp)
      rw [← forward', ← forward, first, second] at rises
      exact absurd rises (by decide)

end Relics.Malloc
