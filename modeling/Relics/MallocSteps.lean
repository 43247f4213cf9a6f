import Relics.MallocOperations

namespace Relics.Malloc

/-!
# Runs of the allocator refine runs on lists of blocks

`HeapInvariant` ties a state of the allocator to lists of free and live
blocks.  It holds of the state `kmalloc_init` leaves, every action of the
source does to the lists what `BlockStep` says, and no loop of an action
runs on for ever.
-/

open ByteMemory ExtentTiling LabelledRun LinkedList LinkedRing MachineWord

/-- The lists describe the state, and their blocks tile the managed bytes. -/
structure HeapInvariant
    (freeList : Nat)
    (region : Set Nat)
    (state : HeapState)
    (blocks : BlockState) :
    Prop where
  represents :
    Represents freeList state.memory blocks.free blocks.live
  tiles : Tiles (extents (blocks.free ++ blocks.live)) region
  aligned : ∀ block ∈ blocks.free ++ blocks.live, block.addr % 8 = 0
  pointers : state.live.Perm (blocks.live.map Block.payload)

section Operations

variable
    {freeList fuel : Nat}
    {memory : Memory}
    {before after free live : List Block}
    {block : Block}
    {region : Set Nat}

/-- The tiling after a found block has been cut. -/
theorem tiles_splitMiddle
    (wanted : Nat)
    (tiles : Tiles (extents ((before ++ block :: after) ++ live)) region) :
    Tiles
      (extents
        ((before ++ block.taken wanted ::
            (block.remainder wanted ++ after)) ++ live))
      region := by
  have front := tiles_split wanted (tiles.perm (perm_front.map Block.extent))
  apply front.perm
  apply List.Perm.map
  have shuffled :
      (block.remainder wanted ++ ((before ++ after) ++ live)).Perm
        ((before ++ (block.remainder wanted ++ after)) ++ live) := by
    simpa using List.perm_append_comm_assoc (block.remainder wanted) before
      (after ++ live)
  exact (shuffled.cons _).trans perm_front.symm

/-- The block behind a payload of the wanted size. -/
def cutOff (block : Block) (wanted : Nat) : Block where
  addr := block.addr + allocHeaderSz + wanted
  size := block.size - wanted - allocHeaderSz

/-- The memory once both sizes of a cut block are written. -/
def cutMemory (memory : Memory) (block : Block) (wanted : Nat) : Memory :=
  setSize
    (setSize memory (cutOff block wanted).addr (cutOff block wanted).size)
    block.addr wanted

section Cut

variable
    {wanted : Nat}
    (arena : Arena freeList region)
    (tiles : Tiles (extents ((before ++ block :: after) ++ live)) region)

include arena tiles

/-- The comparison that decides on a cut does not wrap around. -/
theorem splits_iff
    (large : wanted ≤ block.size) :
    sub64 block.size wanted ≥ minAllocSz ↔ block.Splittable wanted := by
  have bounded : block.fin < 2 ^ 64 := fin_lt_of_mem arena tiles (by simp)
  simp only [Block.fin, allocHeaderSz] at bounded
  rw [sub64_of_le large (by omega), Block.Splittable]
  omega

/-- The address of the new header is computed without wrapping around. -/
theorem cutOff_addr
    (large : wanted ≤ block.size) :
    add64 (blockOf block.addr) wanted = (cutOff block wanted).addr := by
  have bounded : block.fin < 2 ^ 64 := fin_lt_of_mem arena tiles (by simp)
  rw [blockOf_addr arena tiles (by simp)]
  apply add64_of_lt
  simp only [Block.fin, allocHeaderSz] at bounded
  omega

/-- So is its size. -/
theorem cutOff_size
    (split : block.Splittable wanted) :
    sub64 (sub64 block.size wanted) allocHeaderSz =
      (cutOff block wanted).size := by
  have bounded : block.fin < 2 ^ 64 := fin_lt_of_mem arena tiles (by simp)
  simp only [Block.Splittable, minAllocSz, allocHeaderSz] at split
  simp only [Block.fin, allocHeaderSz] at bounded
  have shrunk : sub64 block.size wanted = block.size - wanted :=
    sub64_of_le (by omega) (by omega)
  rw [shrunk]
  exact sub64_of_le (by simp only [allocHeaderSz]; omega) (by omega)

/-- The new header is apart from every header there is. -/
theorem headersApart_cutOff
    (split : block.Splittable wanted) :
    HeadersApart freeList
      ((cutOff block wanted).addr ::
        ((before ++ block :: after) ++ live).map Block.addr) := by
  have tilesCut := tiles_splitMiddle wanted tiles
  simp only [Block.taken, Block.remainder, split, ↓reduceIte,
    List.singleton_append] at tilesCut
  have regrouped :
      before ++ { block with size := wanted } :: cutOff block wanted :: after =
        (before ++ [{ block with size := wanted }]) ++
          cutOff block wanted :: after := by
    simp
  have fromNew := headersApart_middle arena (regrouped ▸ tilesCut)
  simpa using fromNew

/-- Both headers of a cut are written and the new one is linked in. -/
theorem represents_cut
    (represents : Represents freeList memory (before ++ block :: after) live)
    (split : block.Splittable wanted) :
    Represents freeList
      (listAdd_ (cutMemory memory block wanted)
        (cutOff block wanted).addr block.addr
        (next (cutMemory memory block wanted) block.addr))
      (before ++ { block with size := wanted } :: cutOff block wanted :: after)
      live := by
  have bounded : block.fin < 2 ^ 64 := fin_lt_of_mem arena tiles (by simp)
  simp only [Block.fin, allocHeaderSz] at bounded
  have large : wanted ≤ block.size := Nat.le_of_add_right_le split
  have newHeaders := headersApart_cutOff arena tiles split
  have newFits : (cutOff block wanted).size < 2 ^ 64 := by
    simp only [cutOff, allocHeaderSz]
    omega
  have recordedNew := represents.setSize_fresh newHeaders newFits
  have blockHeaders :
      HeadersApart freeList
        (block.addr ::
          ((before ++ after) ++ (cutOff block wanted :: live)).map
            Block.addr) := by
    apply newHeaders.perm
    have shuffled :
        (cutOff block wanted :: ((before ++ block :: after) ++ live)).Perm
          (block :: ((before ++ after) ++ (cutOff block wanted :: live))) :=
      ((perm_front.cons _).trans (.swap block _ _)).trans
        (List.perm_middle.symm.cons block)
    exact shuffled.map Block.addr
  have wantedFits : wanted < 2 ^ 64 := by omega
  have recordedBoth := recordedNew.resize blockHeaders wantedFits
  have nextFound := recordedBoth.links.1
  have regrouped :
      before ++ { block with size := wanted } :: after =
        (before ++ [{ block with size := wanted }]) ++ after := by
    simp
  rw [regrouped] at recordedBoth
  have linked := recordedBoth.link (by simpa using newHeaders)
  rw [cutMemory, nextFound]
  simpa [leftNode] using linked

/-- Cutting a found block puts the rest behind it on the free list. -/
theorem splitBlock_spec
    (represents : Represents freeList memory (before ++ block :: after) live)
    (large : wanted ≤ block.size) :
    Represents freeList (splitBlock memory block.addr wanted)
      (before ++ block.taken wanted :: (block.remainder wanted ++ after))
      live := by
  have recorded := represents.size_of_free
  have splits := splits_iff arena tiles large
  by_cases split : block.Splittable wanted
  · have cut := represents_cut arena tiles represents split
    simp only [splitBlock, recorded, splits.mpr split, ↓reduceIte,
      cutOff_addr arena tiles large, cutOff_size arena tiles split]
    rw [Block.taken, Block.remainder, if_pos split, if_pos split]
    exact cut
  · have whole : ¬sub64 block.size wanted ≥ minAllocSz := splits.not.mpr split
    simpa [splitBlock, recorded, whole, Block.taken, Block.remainder, split]
      using represents

end Cut

/-- `kmalloc` hands out the first block that is large enough. -/
theorem kmalloc_found
    {wanted : Nat}
    (arena : Arena freeList region)
    (tiles : Tiles (extents ((before ++ block :: after) ++ live)) region)
    (represents : Represents freeList memory (before ++ block :: after) live)
    (positive : 0 < wanted)
    (small : ∀ other ∈ before, other.size < alignUp wanted 8)
    (large : alignUp wanted 8 ≤ block.size)
    (enough : before.length < fuel) :
    ∃ result,
      kmalloc freeList fuel memory wanted = some (result, block.payload) ∧
        Represents freeList result
          (before ++ (block.remainder (alignUp wanted 8) ++ after))
          (block.taken (alignUp wanted 8) :: live) := by
  have found := findBlock_found arena tiles represents small large enough
  have pointer : blockOf block.addr = block.payload :=
    blockOf_addr arena tiles (by simp)
  have nonNull := block.payload_ne_zero
  have split := splitBlock_spec arena tiles represents large
  have headers :=
    headersApart_middle arena (tiles_splitMiddle (alignUp wanted 8) tiles)
  have unlinked := split.unlink headers
  rw [Block.taken_addr] at unlinked
  refine ⟨_, ?_, unlinked⟩
  simp [kmalloc, positive, found, pointer, nonNull]

/-- `kmalloc` returns `NULL` when no block is large enough. -/
theorem kmalloc_none
    {wanted : Nat}
    (arena : Arena freeList region)
    (tiles : Tiles (extents (free ++ live)) region)
    (represents : Represents freeList memory free live)
    (unserved :
      wanted = 0 ∨ ∀ other ∈ free, other.size < alignUp wanted 8)
    (enough : free.length < fuel) :
    kmalloc freeList fuel memory wanted = some (memory, 0) := by
  by_cases positive : 0 < wanted
  · have small := unserved.resolve_left (by omega)
    have found := findBlock_none arena tiles represents small enough
    simp [kmalloc, positive, found]
  · simp [kmalloc, positive]

/-- `kfree` puts the block back and joins neighbours in one pass. -/
theorem kfree_spec
    (arena : Arena freeList region)
    (tiles : Tiles (extents (free ++ block :: live)) region)
    (represents : Represents freeList memory free (block :: live))
    (enough : free.length + 1 < fuel) :
    ∃ result,
      kfree freeList fuel memory block.payload = some result ∧
        Represents freeList result (coalesce (putBack block free)) live := by
  have current : containerOf block.payload = block.addr :=
    containerOf_payload_of_mem arena tiles (by simp)
  have nonNull := block.payload_ne_zero
  have enoughInsertion : free.length < fuel := by
    omega
  obtain ⟨inserted, insertion, representsInserted⟩ :=
    insertBlock_spec arena tiles represents enoughInsertion
  have tilesInserted :
      Tiles (extents (putBack block free ++ live)) region := by
    apply tiles.perm
    apply List.Perm.map
    exact List.perm_middle.trans
      ((putBack_perm block free).append_right live).symm
  have enoughPass : (putBack block free).length < fuel := by
    have lengthInserted := (putBack_perm block free).length_eq
    rw [List.length_cons] at lengthInserted
    omega
  obtain ⟨result, pass, final⟩ :=
    defragFreeList_spec arena tilesInserted representsInserted enoughPass
  refine ⟨result, ?_, final⟩
  simp [kfree, nonNull, current, insertion, pass]

end Operations

section Regions

/-- The first header address in a region: its base rounded up to 8. -/
def headerAddr (entry : E820Map64) : Nat :=
  8 * ((entry.base + 7) / 8)

/-- The block `malloc_addblock` makes of a region. -/
def regionBlock (entry : E820Map64) : Block where
  addr := headerAddr entry
  size := entry.limit - headerAddr entry - allocHeaderSz

/--
Regions the allocator can be given: pairwise disjoint, ending below the end
of the address space, off the list head, and long enough for a header.
-/
structure WellFormedRegions
    (freeList : Nat)
    (usable : List E820Map64) :
    Prop where
  headFits : freeList + 16 ≤ 2 ^ 64
  disjoint :
    usable.Pairwise fun first second =>
      first.limit ≤ second.base ∨ second.limit ≤ first.base
  below : ∀ entry ∈ usable, entry.limit < 2 ^ 64
  avoidsHead :
    ∀ entry ∈ usable,
      freeList + 16 ≤ entry.base ∨ entry.limit ≤ freeList
  long :
    ∀ entry ∈ usable, headerAddr entry + allocHeaderSz ≤ entry.limit

/-- The bytes `kmalloc_init` puts on the free list. -/
def heapBytes (usable : List E820Map64) : Set Nat :=
  { address |
    ∃ entry ∈ usable, headerAddr entry ≤ address ∧ address < entry.limit }

/-- The blocks on the free list after `kmalloc_init`, in list order. -/
def initialBlocks (usable : List E820Map64) : List Block :=
  (usable.map regionBlock).reverse

variable
    {freeList : Nat}
    {usable : List E820Map64}
    {entry : E820Map64}

/-- A header begins inside its region. -/
theorem base_le_headerAddr (entry : E820Map64) :
    entry.base ≤ headerAddr entry := by
  unfold headerAddr
  omega

/-- The block of a long enough region ends with the region. -/
theorem regionBlock_fin
    (long : headerAddr entry + allocHeaderSz ≤ entry.limit) :
    (regionBlock entry).fin = entry.limit := by
  simp only [Block.fin, regionBlock]
  omega

/-- The source rounds the base of a long enough region without overflow. -/
theorem alignUp_base
    (below : entry.limit < 2 ^ 64)
    (long : headerAddr entry + allocHeaderSz ≤ entry.limit) :
    alignUp entry.base 8 = headerAddr entry := by
  rw [alignUp_eight, Nat.mod_eq_of_lt]
  · rfl
  · unfold headerAddr allocHeaderSz at long
    omega

/-- The block `malloc_addblock` makes of an entry, whatever its length. -/
def addedBlock (entry : E820Map64) : Block where
  addr := alignUp entry.base 8
  size :=
    sub64
      (sub64 (add64 entry.baseaddr.toNat entry.length.toNat)
        (alignUp entry.base 8))
      allocHeaderSz

/-- The block of a long enough region is the rest of it. -/
theorem addedBlock_of_long
    (below : entry.limit < 2 ^ 64)
    (long : headerAddr entry + allocHeaderSz ≤ entry.limit) :
    addedBlock entry = regionBlock entry := by
  have total :
      add64 entry.baseaddr.toNat entry.length.toNat = entry.limit :=
    add64_of_lt below
  have recordedSize :
      sub64 (sub64 entry.limit (headerAddr entry)) allocHeaderSz =
        entry.limit - headerAddr entry - allocHeaderSz := by
    rw [sub64_of_le (by omega) below, sub64_of_le (by omega) (by omega)]
  rw [addedBlock, alignUp_base below long, total, recordedSize]
  rfl

/-- `malloc_addblock` puts the block of an entry in front of the list. -/
theorem represents_mallocAddblock
    {memory : Memory}
    {free : List Block}
    (headers :
      HeadersApart freeList
        ((addedBlock entry).addr :: free.map Block.addr))
    (represents : Represents freeList memory free []) :
    Represents freeList
      (mallocAddblock freeList memory
        entry.baseaddr.toNat entry.length.toNat)
      (addedBlock entry :: free) [] := by
  have fits : (addedBlock entry).size < 2 ^ 64 :=
    Nat.mod_lt _ (by decide)
  have recorded := represents.setSize_fresh (by simpa using headers) fits
  have recordedCut :
      Represents freeList
        (setSize memory (addedBlock entry).addr (addedBlock entry).size)
        ([] ++ free) [addedBlock entry] :=
    recorded
  have linked := recordedCut.link (by simpa using headers)
  have shape :
      mallocAddblock freeList memory
          entry.baseaddr.toNat entry.length.toNat =
        listAdd
          (setSize memory (addedBlock entry).addr (addedBlock entry).size)
          (addedBlock entry).addr freeList :=
    rfl
  rw [shape, listAdd, recorded.next_head]
  exact linked

/--
`kmalloc_init` builds the list of the entries' blocks, last entry first, when
their headers do not overlap.
-/
theorem represents_kmallocInit
    (memory : Memory)
    (headers :
      HeadersApart freeList
        (usable.map fun entry => (addedBlock entry).addr)) :
    Represents freeList
      (kmallocInit freeList (listInit memory freeList) usable)
      (usable.map addedBlock).reverse [] := by
  induction usable using List.reverseRecOn with
  | nil =>
      exact {
        ring := ring_listInit memory headers.headFits
        sizes := by simp }
  | append_singleton usable entry inductionHypothesis =>
      have reordered :
          HeadersApart freeList
            ((addedBlock entry).addr ::
              (usable.map addedBlock).reverse.map Block.addr) := by
        apply headers.perm
        rw [List.map_append, List.map_reverse, List.map_map]
        exact
          (List.perm_append_singleton _ _).trans
            ((List.reverse_perm _).symm.cons _)
      have earlier :
          HeadersApart freeList
            (usable.map fun entry => (addedBlock entry).addr) := by
        rw [List.map_append] at headers
        exact headers.left
      have added :=
        represents_mallocAddblock reordered (inductionHypothesis earlier)
      simpa [kmallocInit, List.foldl_append] using added

/-- The bytes of a list of regions avoid the list head and the last address. -/
theorem arena_heapBytes
    (regions : WellFormedRegions freeList usable) :
    Arena freeList (heapBytes usable) where
  headFits := regions.headFits
  avoidsHead address member := by
    obtain ⟨entry, inUsable, lower, upper⟩ := member
    have apart := regions.avoidsHead entry inUsable
    have inside := base_le_headerAddr entry
    omega
  below address member := by
    obtain ⟨entry, inUsable, lower, upper⟩ := member
    have := regions.below entry inUsable
    omega

/-- The blocks of disjoint regions tile the bytes put on the list. -/
theorem tiles_initialBlocks
    (regions : WellFormedRegions freeList usable) :
    Tiles (extents (initialBlocks usable)) (heapBytes usable) := by
  have inListOrder :
      Tiles (extents (usable.map regionBlock)) (heapBytes usable) := by
    constructor
    · rw [extents, List.map_map, List.pairwise_map]
      apply regions.disjoint.imp_of_mem
      intro first second firstMember secondMember apart
      have firstEnds := regionBlock_fin (regions.long first firstMember)
      have secondEnds := regionBlock_fin (regions.long second secondMember)
      have firstInside := base_le_headerAddr first
      have secondInside := base_le_headerAddr second
      simp only [Function.comp_apply, Extent.Apart, Block.extent_lo,
        Block.extent_hi, firstEnds, secondEnds]
      simp only [regionBlock]
      omega
    · intro address
      constructor
      · rintro ⟨entry, member, lower, upper⟩
        refine ⟨(regionBlock entry).extent, ?_, lower, ?_⟩
        · exact List.mem_map_of_mem (List.mem_map_of_mem member)
        · rw [Block.extent_hi, regionBlock_fin (regions.long entry member)]
          exact upper
      · rintro ⟨extent, extentMember, lower, upper⟩
        obtain ⟨block, blockMember, rfl⟩ := List.mem_map.mp extentMember
        obtain ⟨entry, member, rfl⟩ := List.mem_map.mp blockMember
        refine ⟨entry, member, lower, ?_⟩
        rwa [Block.extent_hi, regionBlock_fin (regions.long entry member)]
          at upper
  apply inListOrder.perm
  exact (List.reverse_perm _).symm.map Block.extent

/-- `kmalloc_init` builds the list of the regions' blocks, last region first. -/
theorem kmallocInit_spec
    (memory : Memory)
    (regions : WellFormedRegions freeList usable) :
    Represents freeList
      (kmallocInit freeList (listInit memory freeList) usable)
      (initialBlocks usable) [] := by
  have blocks : usable.map addedBlock = usable.map regionBlock :=
    List.map_congr_left fun entry member =>
      addedBlock_of_long (regions.below entry member)
        (regions.long entry member)
  have headers :=
    headersApart_of_tiles (arena_heapBytes regions)
      (tiles_initialBlocks regions)
  rw [initialBlocks, ← blocks] at headers ⊢
  apply represents_kmallocInit
  have inOrder :=
    headers.perm ((List.reverse_perm (usable.map addedBlock)).map Block.addr)
  rwa [List.map_map] at inOrder

/-- The state `kmalloc_init` leaves. -/
theorem heapInvariant_initial
    (memory : Memory)
    (regions : WellFormedRegions freeList usable) :
    HeapInvariant freeList (heapBytes usable)
      (HeapState.initial freeList memory usable)
      { free := initialBlocks usable, live := [] } where
  represents := kmallocInit_spec memory regions
  tiles := by simpa using tiles_initialBlocks regions
  aligned block member := by
    simp only [initialBlocks, List.append_nil, List.mem_reverse,
      List.mem_map] at member
    obtain ⟨entry, -, rfl⟩ := member
    simp only [regionBlock, headerAddr]
    omega
  pointers := .nil

end Regions

section Steps

variable
    {freeList : Nat}
    {region : Set Nat}
    {state next : HeapState}
    {blocks : BlockState}

/-- A served request keeps the tiling. -/
theorem tiles_allocate
    {before after live : List Block}
    {block : Block}
    {wanted : Nat}
    (tiles : Tiles (extents ((before ++ block :: after) ++ live)) region) :
    Tiles
      (extents
        ((before ++ (block.remainder wanted ++ after)) ++
          block.taken wanted :: live))
      region :=
  (tiles_splitMiddle wanted tiles).perm
    (perm_handOut.map Block.extent)

/-- A release keeps the tiling. -/
theorem tiles_release
    {free live rest : List Block}
    {block : Block}
    (tiles : Tiles (extents (free ++ live)) region)
    (held : live.Perm (block :: rest)) :
    Tiles (extents (coalesce (putBack block free) ++ rest)) region := by
  apply tiles_coalesce
  apply tiles.perm
  apply List.Perm.map
  exact ((held.append_left free).trans List.perm_middle).trans
    ((putBack_perm block free).append_right rest).symm

/-- Every block after a pass begins where a block began before it. -/
theorem addr_of_mem_release
    {free : List Block}
    {block other : Block}
    (member : other ∈ coalesce (putBack block free)) :
    ∃ origin ∈ block :: free, origin.addr = other.addr := by
  cases shape : putBack block free with
  | nil =>
      rw [shape] at member
      simp [coalesce] at member
  | cons first rest =>
      rw [shape] at member
      obtain ⟨origin, inList, same⟩ := addr_of_mem_coalesceFrom member
      rw [← shape] at inList
      exact ⟨origin, (putBack_perm block free).mem_iff.mp inList, same⟩

/-- The addresses after a served request are multiples of 8 again. -/
theorem aligned_allocate
    {before after live : List Block}
    {block : Block}
    {wanted : Nat}
    (aligned :
      ∀ other ∈ (before ++ block :: after) ++ live, other.addr % 8 = 0) :
    ∀ other ∈
        (before ++ (block.remainder (alignUp wanted 8) ++ after)) ++
          block.taken (alignUp wanted 8) :: live,
      other.addr % 8 = 0 := by
  intro other member
  have blockAligned := aligned block (by simp)
  simp only [List.mem_append, List.mem_cons] at member
  rcases member with (inBefore | inRemainder | inAfter) | rfl | inLive
  · exact aligned other (by simp [inBefore])
  · by_cases split : block.Splittable (alignUp wanted 8)
    · simp only [Block.remainder, split, ↓reduceIte,
        List.mem_singleton] at inRemainder
      subst other
      simp only [allocHeaderSz, alignUp_eight]
      omega
    · simp [Block.remainder, split] at inRemainder
  · exact aligned other (by simp [inAfter])
  · simpa using blockAligned
  · exact aligned other (by simp [inLive])

/-- A pointer some client holds belongs to a live block. -/
theorem HeapInvariant.block_of_pointer
    (invariant : HeapInvariant freeList region state blocks)
    {ptr : Nat}
    (held : ptr ∈ state.live) :
    ∃ block ∈ blocks.live, block.payload = ptr := by
  simpa using invariant.pointers.mem_iff.mp held

/-- The header of a live block is found again from its pointer. -/
theorem containerOf_payload
    {block : Block}
    (arena : Arena freeList region)
    (invariant : HeapInvariant freeList region state blocks)
    (member : block ∈ blocks.live) :
    containerOf block.payload = block.addr :=
  containerOf_payload_of_mem arena invariant.tiles
    (List.mem_append_right _ member)

/-- A client's write leaves every header and the list head alone. -/
theorem represents_clientWrite
    {address : Nat}
    {byte : UInt8}
    (arena : Arena freeList region)
    (invariant : HeapInvariant freeList region state blocks)
    (owned : state.ClientOwns address) :
    Represents freeList (setByte state.memory address byte)
      blocks.free blocks.live := by
  obtain ⟨ptr, held, lower, upper⟩ := owned
  obtain ⟨block, member, rfl⟩ := invariant.block_of_pointer held
  have inAll := List.mem_append_right blocks.free member
  rw [containerOf_payload arena invariant member,
    invariant.represents.sizes block inAll] at upper
  have inPayload : block.addr + 24 ≤ address ∧ address < block.fin :=
    ⟨lower, upper⟩
  apply invariant.represents.congr
  · intro headByte headLower headUpper
    have apart := apart_from_head arena invariant.tiles inAll
    exact setByte_other (by omega)
  · intro other otherMember headerByte headerLower headerUpper
    apply setByte_other
    by_cases same : block = other
    · subst other
      omega
    · have apart := apart_of_ne invariant.tiles inAll otherMember same
      have room := other.header_le_fin
      omega

/-- What a client may do in a state. -/
def HeapState.Permits (state : HeapState) : HeapAction → Prop
  | .kmalloc _ => True
  | .kfree ptr => ptr ∈ state.live
  | .clientWrite address _ => state.ClientOwns address

/-- An action succeeds, and one `BlockStep` later describes the result. -/
def Succeeds
    (freeList fuel : Nat)
    (region : Set Nat)
    (state : HeapState)
    (blocks : BlockState)
    (action : HeapAction) :
    Prop :=
  ∃ next blocks',
    HeapState.step? freeList fuel state action = some next ∧
      BlockStep blocks action blocks' ∧
      HeapInvariant freeList region next blocks'

/-- The addresses after a release are multiples of 8 again. -/
theorem aligned_release
    {free live remaining : List Block}
    {block : Block}
    (split : live.Perm (block :: remaining))
    (aligned : ∀ other ∈ free ++ live, other.addr % 8 = 0) :
    ∀ other ∈ coalesce (putBack block free) ++ remaining,
      other.addr % 8 = 0 := by
  have everyHeld : ∀ other ∈ block :: remaining, other.addr % 8 = 0 := by
    intro other member
    exact aligned other
      (List.mem_append_right free (split.mem_iff.mpr member))
  intro other member
  rcases List.mem_append.mp member with inFree | inRemaining
  · obtain ⟨origin, inList, same⟩ := addr_of_mem_release inFree
    rw [← same]
    rcases List.mem_cons.mp inList with rfl | old
    · exact everyHeld origin List.mem_cons_self
    · exact aligned origin (List.mem_append_left live old)
  · exact everyHeld other (List.mem_cons_of_mem block inRemaining)

section Actions

variable
    {fuel : Nat}
    (arena : Arena freeList region)
    (invariant : HeapInvariant freeList region state blocks)

include arena invariant

/-- A request is served or refused. -/
theorem kmalloc_succeeds
    (wanted : UInt64)
    (enough : blocks.free.length < fuel) :
    Succeeds freeList fuel region state blocks (.kmalloc wanted) := by
  by_cases positive : 0 < wanted.toNat
  · rcases firstFit_cases blocks.free (alignUp wanted.toNat 8) with
        allSmall | ⟨before, block, after, shape, small, large⟩
    · have refused :=
        kmalloc_none arena invariant.tiles invariant.represents
          (.inr allSmall) enough
      refine ⟨state, blocks, ?_, .refuse (.inr allSmall), invariant⟩
      simp [HeapState.step?, refused]
    · obtain ⟨free, live⟩ := blocks
      obtain rfl : free = before ++ block :: after := shape
      have enoughBefore : before.length < fuel := by
        simp only [List.length_append, List.length_cons] at enough
        omega
      obtain ⟨result, served, represents⟩ :=
        kmalloc_found arena invariant.tiles invariant.represents positive
          small large enoughBefore
      have nonNull := block.payload_ne_zero
      refine ⟨{ memory := result, live := block.payload :: state.live }, _,
        ?_, .allocate positive small large, ?_⟩
      · simp [HeapState.step?, served, nonNull]
      · exact {
          represents := represents
          tiles := tiles_allocate invariant.tiles
          aligned := aligned_allocate invariant.aligned
          pointers := by
            simpa [Block.payload] using
              invariant.pointers.cons block.payload }
  · have zero : wanted.toNat = 0 := by omega
    have refused :=
      kmalloc_none arena invariant.tiles invariant.represents
        (.inl zero) enough
    refine ⟨state, blocks, ?_, .refuse (.inl zero), invariant⟩
    simp [HeapState.step?, refused]

/-- A pointer that a client holds is released. -/
theorem kfree_succeeds
    {ptr : Nat}
    (held : ptr ∈ state.live)
    (enough : blocks.free.length + 1 < fuel) :
    Succeeds freeList fuel region state blocks (.kfree ptr) := by
  obtain ⟨block, member, rfl⟩ := invariant.block_of_pointer held
  obtain ⟨free, live⟩ := blocks
  have split : live.Perm (block :: live.erase block) :=
    List.perm_cons_erase member
  have tiles :
      Tiles (extents (free ++ block :: live.erase block)) region :=
    invariant.tiles.perm ((split.append_left free).map Block.extent)
  have represents :
      Represents freeList state.memory free (block :: live.erase block) := {
    ring := invariant.represents.ring
    sizes := fun other otherMember =>
      invariant.represents.sizes other
        ((split.append_left free).mem_iff.mpr otherMember) }
  obtain ⟨result, released, final⟩ :=
    kfree_spec arena tiles represents enough
  refine ⟨{ memory := result, live := state.live.erase block.payload }, _,
    ?_, .release split, ?_⟩
  · simp [HeapState.step?, held, released]
  · exact {
      represents := final
      tiles := tiles_release invariant.tiles split
      aligned := aligned_release split invariant.aligned
      pointers := by
        have moved :=
          (invariant.pointers.trans (split.map Block.payload)).erase
            block.payload
        simpa using moved }

/-- A client writes a byte it owns. -/
theorem clientWrite_succeeds
    {address : Nat}
    (byte : UInt8)
    (owned : state.ClientOwns address) :
    Succeeds freeList fuel region state blocks
      (.clientWrite address byte) := by
  refine ⟨{ state with memory := setByte state.memory address byte },
    blocks, ?_, .clientWrite, ?_⟩
  · simp [HeapState.step?, owned]
  · exact {
      represents := represents_clientWrite arena invariant owned
      tiles := invariant.tiles
      aligned := invariant.aligned
      pointers := invariant.pointers }

/-- With enough iterations every action a client may take succeeds. -/
theorem step_succeeds
    {action : HeapAction}
    (permitted : state.Permits action)
    (enough : blocks.free.length + 1 < fuel) :
    Succeeds freeList fuel region state blocks action := by
  cases action with
  | kmalloc wanted =>
      exact kmalloc_succeeds arena invariant wanted (by omega)
  | kfree ptr =>
      exact kfree_succeeds arena invariant permitted enough
  | clientWrite address byte =>
      exact clientWrite_succeeds arena invariant byte permitted

end Actions

/-- The result of an action does not depend on how long its loops may run. -/
theorem step?_more
    {action : HeapAction}
    {fuel more : Nat}
    (ended : HeapState.step? freeList fuel state action = some next)
    (longer : fuel ≤ more) :
    HeapState.step? freeList more state action = some next := by
  cases action with
  | kmalloc wanted =>
      cases served : kmalloc freeList fuel state.memory wanted.toNat with
      | none =>
          simp [HeapState.step?, served] at ended
      | some result =>
          simpa [HeapState.step?, served, kmalloc_more served longer] using ended
  | kfree ptr =>
      by_cases held : ptr ∈ state.live
      · cases released : kfree freeList fuel state.memory ptr with
        | none =>
            simp [HeapState.step?, held, released] at ended
        | some result =>
            simpa [HeapState.step?, held, released, kfree_more released longer]
              using ended
      · simp [HeapState.step?, held] at ended
  | clientWrite address byte =>
      exact ended

/-- Only permitted actions are taken. -/
theorem permits_of_step
    {action : HeapAction}
    (step : HeapState.Step freeList state action next) :
    state.Permits action := by
  obtain ⟨fuel, ended⟩ := step
  cases action with
  | kmalloc wanted =>
      trivial
  | kfree ptr =>
      by_contra notHeld
      have absent : ptr ∉ state.live := notHeld
      simp [HeapState.step?, absent] at ended
  | clientWrite address byte =>
      by_contra notOwned
      have foreign : ¬state.ClientOwns address := notOwned
      simp [HeapState.step?, foreign] at ended

/-- Every action does to the blocks what `BlockStep` says. -/
theorem step_refines
    {action : HeapAction}
    (arena : Arena freeList region)
    (invariant : HeapInvariant freeList region state blocks)
    (step : HeapState.Step freeList state action next) :
    ∃ blocks',
      BlockStep blocks action blocks' ∧
        HeapInvariant freeList region next blocks' := by
  have permitted := permits_of_step step
  obtain ⟨fuel, ended⟩ := step
  have enough : blocks.free.length + 1 < max fuel (blocks.free.length + 2) := by
    omega
  obtain ⟨result, blocks', ended', blockStep, invariant'⟩ :=
    step_succeeds arena invariant permitted enough
  have same := step?_more ended (Nat.le_max_left fuel (blocks.free.length + 2))
  rw [ended'] at same
  obtain rfl : result = next := Option.some.inj same
  exact ⟨blocks', blockStep, invariant'⟩

/-- Every permitted action can be taken. -/
theorem exists_step
    {action : HeapAction}
    (arena : Arena freeList region)
    (invariant : HeapInvariant freeList region state blocks)
    (permitted : state.Permits action) :
    ∃ next, HeapState.Step freeList state action next := by
  have enough : blocks.free.length + 1 < blocks.free.length + 2 := by
    omega
  obtain ⟨next, -, ended, -, -⟩ :=
    step_succeeds arena invariant permitted enough
  exact ⟨next, blocks.free.length + 2, ended⟩

/--
In every state reached the heap is described by lists of blocks, and a
property of lists that every `BlockStep` keeps holds of them.
-/
theorem reaches_blocks
    (property : BlockState → Prop)
    {memory : Memory}
    {usable : List E820Map64}
    {actions : List HeapAction}
    (regions : WellFormedRegions freeList usable)
    (reaches : HeapState.Reaches freeList memory usable actions state)
    (initially : property { free := initialBlocks usable, live := [] })
    (preserved :
      ∀ {blocks action blocks'},
        Tiles (extents (blocks.free ++ blocks.live)) (heapBytes usable) →
        property blocks →
        BlockStep blocks action blocks' →
        property blocks') :
    ∃ blocks,
      HeapInvariant freeList (heapBytes usable) state blocks ∧
        property blocks := by
  have arena := arena_heapBytes regions
  apply reaches.preserves fun state =>
    ∃ blocks,
      HeapInvariant freeList (heapBytes usable) state blocks ∧
        property blocks
  · exact ⟨_, heapInvariant_initial memory regions, initially⟩
  · rintro state action next ⟨blocks, invariant, holds⟩ step
    obtain ⟨blocks', blockStep, invariant'⟩ :=
      step_refines arena invariant step
    exact ⟨blocks', invariant', preserved invariant.tiles holds blockStep⟩

/-- Every state reached satisfies the heap invariant. -/
theorem reaches_invariant
    {memory : Memory}
    {usable : List E820Map64}
    {actions : List HeapAction}
    (regions : WellFormedRegions freeList usable)
    (reaches : HeapState.Reaches freeList memory usable actions state) :
    ∃ blocks, HeapInvariant freeList (heapBytes usable) state blocks := by
  obtain ⟨blocks, invariant, -⟩ :=
    reaches_blocks (fun _ => True) regions reaches trivial
      (fun _ _ _ => trivial)
  exact ⟨blocks, invariant⟩

end Steps

end Relics.Malloc
