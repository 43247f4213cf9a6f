import Relics.MallocSteps

namespace Relics.Malloc

/-!
# The bytes the allocator's functions leave alone

Every store of `kmalloc` goes to the list head or into a block that was free,
and every store of `kfree` to the list head, into a free block or into the
block that is released.  Bytes elsewhere keep their values.
-/

open ByteMemory ExtentTiling LinkedList LinkedRing MachineWord

/-- The byte lies neither in the list head nor in a block of the list. -/
structure OffBlocks
    (freeList : Nat)
    (blocks : List Block)
    (address : Nat) :
    Prop where
  offHead : address < freeList ∨ freeList + 16 ≤ address
  off : ∀ block ∈ blocks, address < block.addr ∨ block.fin ≤ address

/-- The byte lies neither in the list head nor in the header of a block. -/
structure OffHeaders
    (freeList : Nat)
    (blocks : List Block)
    (address : Nat) :
    Prop where
  offHead : address < freeList ∨ freeList + 16 ≤ address
  off :
    ∀ block ∈ blocks,
      address < block.addr ∨ block.addr + allocHeaderSz ≤ address

namespace OffBlocks

variable
    {freeList address : Nat}
    {blocks others : List Block}

/-- What lies off blocks lies off their headers. -/
theorem offHeaders
    (outside : OffBlocks freeList blocks address) :
    OffHeaders freeList blocks address where
  offHead := outside.offHead
  off block member := by
    have := outside.off block member
    have := block.header_le_fin
    simp only [allocHeaderSz]
    omega

/-- What lies off some blocks lies off blocks inside them. -/
theorem mono
    (outside : OffBlocks freeList blocks address)
    (inside :
      ∀ other ∈ others,
        ∃ block ∈ blocks, block.addr ≤ other.addr ∧ other.fin ≤ block.fin) :
    OffBlocks freeList others address where
  offHead := outside.offHead
  off other member := by
    obtain ⟨block, inBlocks, begins, ends⟩ := inside other member
    have := outside.off block inBlocks
    omega

end OffBlocks

namespace OffHeaders

variable
    {freeList address : Nat}
    {blocks : List Block}

/-- The links of the list head and of the headers of the blocks. -/
theorem off_link
    (outside : OffHeaders freeList blocks address)
    {node : Nat}
    (member : node ∈ freeList :: blocks.map Block.addr) :
    address < node ∨ node + 16 ≤ address := by
  rcases List.mem_cons.mp member with rfl | inBlocks
  · exact outside.offHead
  · obtain ⟨block, blockMember, rfl⟩ := List.mem_map.mp inBlocks
    have := outside.off block blockMember
    simp only [allocHeaderSz] at this
    omega

/-- The recorded size of a block. -/
theorem setSize_eq
    (outside : OffHeaders freeList blocks address)
    (memory : Memory)
    {block : Block}
    (member : block ∈ blocks)
    (value : Nat) :
    setSize memory block.addr value address = memory address := by
  apply store_outside
  have := outside.off block member
  simp only [allocHeaderSz] at this
  omega

end OffHeaders

section Links

variable
    {freeList address : Nat}
    {memory : Memory}
    {before after free live : List Block}
    {block : Block}

/-- The cycle through some of the blocks visits nodes of the cycle of all. -/
theorem mem_cycle_of_subset
    {blocks others : List Block}
    (subset : others ⊆ blocks)
    {node : Nat}
    (member : node ∈ freeList :: others.map Block.addr) :
    node ∈ freeList :: blocks.map Block.addr :=
  List.cons_subset_cons freeList (List.map_subset Block.addr subset) member

/-- The free list around a block is part of the free list. -/
theorem around_subset :
    before ++ after ⊆ before ++ block :: after :=
  (List.sublist_cons_self block after).append_left before |>.subset

/-- Unlinking a free block writes only to headers of free blocks and the head. -/
theorem Represents.listDel_eq
    (represents : Represents freeList memory (before ++ block :: after) live)
    (outside : OffHeaders freeList (before ++ block :: after) address) :
    listDel memory block.addr address = memory address := by
  obtain ⟨nextNode, prevNode⟩ := represents.links
  apply listDel_outside
  intro node member
  apply outside.off_link
  simp only [nextNode, prevNode, List.mem_cons, List.not_mem_nil,
    or_false] at member
  rcases member with rfl | seam
  · simp
  · exact mem_cycle_of_subset around_subset (seam_mem seam)

/-- Linking a block in writes to its header, those of free ones and the head. -/
theorem listAdd_eq_of_seam
    {left right : Nat}
    (outside : OffHeaders freeList (block :: free) address)
    (leftMember : left ∈ freeList :: free.map Block.addr)
    (rightMember : right ∈ freeList :: free.map Block.addr) :
    listAdd_ memory block.addr left right address = memory address := by
  apply listAdd_outside
  intro node member
  apply outside.off_link
  simp only [List.mem_cons, List.not_mem_nil, or_false] at member
  simp only [List.map_cons, List.mem_cons] at leftMember rightMember ⊢
  rcases member with rfl | rfl | rfl
  · exact .inr (.inl rfl)
  · exact leftMember.imp_right .inr
  · exact rightMember.imp_right .inr

/-- Every link of the free list stays in the cycle. -/
theorem Represents.links_mem
    (represents : Represents freeList memory free live)
    {node : Nat}
    (member : node ∈ freeList :: free.map Block.addr) :
    next memory node ∈ freeList :: free.map Block.addr ∧
      prev memory node ∈ freeList :: free.map Block.addr := by
  rcases List.mem_cons.mp member with rfl | inFree
  · rw [represents.next_head, represents.prev_head]
    exact ⟨rightOf_mem _ _, leftOf_mem _ _⟩
  · obtain ⟨block, blockMember, rfl⟩ := List.mem_map.mp inFree
    obtain ⟨before, after, rfl⟩ := List.append_of_mem blockMember
    obtain ⟨nextNode, prevNode⟩ := represents.links
    rw [nextNode, prevNode]
    exact ⟨mem_cycle_of_subset around_subset (seam_mem (.inr rfl)),
      mem_cycle_of_subset around_subset (seam_mem (.inl rfl))⟩

end Links

section Allocation

variable
    {freeList address fuel : Nat}
    {memory : Memory}
    {before after free live : List Block}
    {block : Block}
    {region : Set Nat}
    {wanted : Nat}

/--
Cutting a found block writes only to its header, to the next one's and to the
header of what is cut off.
-/
theorem splitBlock_eq
    (arena : Arena freeList region)
    (tiles : Tiles (extents ((before ++ block :: after) ++ live)) region)
    (represents : Represents freeList memory (before ++ block :: after) live)
    (large : wanted ≤ block.size)
    (outside :
      OffHeaders freeList
        (before ++ block.taken wanted :: (block.remainder wanted ++ after))
        address) :
    splitBlock memory block.addr wanted address = memory address := by
  have recorded := represents.size_of_free
  have splits := splits_iff arena tiles large
  by_cases split : block.Splittable wanted
  · have remainder : block.remainder wanted = [cutOff block wanted] :=
      if_pos split
    rw [remainder] at outside
    have sizesWritten :
        cutMemory memory block wanted address = memory address := by
      have takenSize :=
        outside.setSize_eq
          (setSize memory (cutOff block wanted).addr
            (cutOff block wanted).size)
          (by simp : block.taken wanted ∈ _) wanted
      rw [Block.taken_addr] at takenSize
      unfold cutMemory
      rw [takenSize, outside.setSize_eq memory (by simp)]
    -- the list goes on from the block as it did before its size was written
    have nextFound :
        next (cutMemory memory block wanted) block.addr =
          rightNode freeList after := by
      have cut : (cutOff block wanted).addr = block.addr + 24 + wanted := rfl
      unfold cutMemory
      rw [next_setSize (.inl rfl), next_setSize (by omega),
        represents.links.1]
    simp only [splitBlock, recorded, splits.mpr split, ↓reduceIte,
      cutOff_addr arena tiles large, cutOff_size arena tiles split]
    have linked :
        listAdd_ (cutMemory memory block wanted) (cutOff block wanted).addr
            block.addr (rightNode freeList after) address =
          cutMemory memory block wanted address := by
      apply listAdd_outside
      intro node member
      apply outside.off_link
      simp only [List.mem_cons, List.not_mem_nil, or_false] at member
      rcases member with rfl | rfl | rfl
      · simp
      · simp [Block.taken_addr]
      · have onCycle := rightOf_mem freeList (after.map Block.addr)
        rcases List.mem_cons.mp onCycle with atHead | inAfter
        · exact List.mem_cons.mpr (.inl atHead)
        · apply List.mem_cons_of_mem
          simp only [List.map_append, List.map_cons, List.mem_append,
            List.mem_cons]
          exact .inr (.inr (.inr inAfter))
    rw [← nextFound, sizesWritten] at linked
    exact linked
  · have whole : ¬sub64 block.size wanted ≥ minAllocSz := splits.not.mpr split
    simp [splitBlock, recorded, whole]

/--
A request that is served writes only to the headers of free blocks, also of
the one that is cut off, and to the list head.
-/
theorem kmalloc_found_eq
    {result : Memory × Nat}
    (arena : Arena freeList region)
    (tiles : Tiles (extents ((before ++ block :: after) ++ live)) region)
    (represents : Represents freeList memory (before ++ block :: after) live)
    (positive : 0 < wanted)
    (small : ∀ other ∈ before, other.size < alignUp wanted 8)
    (large : alignUp wanted 8 ≤ block.size)
    (enough : before.length < fuel)
    (served : kmalloc freeList fuel memory wanted = some result)
    (outside :
      OffHeaders freeList
        (before ++
          block.taken (alignUp wanted 8) ::
            (block.remainder (alignUp wanted 8) ++ after))
        address) :
    result.1 address = memory address := by
  have found := findBlock_found arena tiles represents small large enough
  have nonNull : blockOf block.addr ≠ 0 := by
    rw [blockOf_addr arena tiles (by simp)]
    omega
  have split := splitBlock_spec arena tiles represents large
  have unlinked := split.listDel_eq outside
  rw [Block.taken_addr,
    splitBlock_eq arena tiles represents large outside] at unlinked
  simp only [kmalloc, positive, ↓reduceIte, found, ne_eq, nonNull,
    not_false_eq_true, Option.some.injEq] at served
  rw [← served]
  exact unlinked

/-- What is cut off and what is handed out lie in the block that was found. -/
theorem OffBlocks.split
    (outside : OffBlocks freeList (before ++ block :: after) address)
    (large : wanted ≤ block.size) :
    OffBlocks freeList
      (before ++ block.taken wanted :: (block.remainder wanted ++ after))
      address := by
  apply outside.mono
  intro other member
  simp only [List.mem_append, List.mem_cons] at member
  rcases member with inBefore | rfl | inRemainder | inAfter
  · exact ⟨other, by simp [inBefore], le_rfl, le_rfl⟩
  · refine ⟨block, by simp, (block.taken_addr wanted).ge, ?_⟩
    simp only [Block.taken]
    split
    · simp only [Block.fin]
      omega
    · exact le_rfl
  · obtain ⟨begins, ends⟩ := mem_remainder inRemainder
    exact ⟨block, by simp, by omega, ends.le⟩
  · exact ⟨other, by simp [inAfter], le_rfl, le_rfl⟩

/-- `kmalloc` writes only to free blocks and the list head. -/
theorem kmalloc_eq
    {result : Memory × Nat}
    (arena : Arena freeList region)
    (tiles : Tiles (extents (free ++ live)) region)
    (represents : Represents freeList memory free live)
    (enough : free.length < fuel)
    (served : kmalloc freeList fuel memory wanted = some result)
    (outside : OffBlocks freeList free address) :
    result.1 address = memory address := by
  by_cases positive : 0 < wanted
  · rcases firstFit_cases free (alignUp wanted 8) with
        allSmall | ⟨before, block, after, rfl, small, large⟩
    · rw [kmalloc_none arena tiles represents (.inr allSmall) enough] at served
      obtain rfl := Option.some.inj served
      rfl
    · have enoughBefore : before.length < fuel := by
        simp only [List.length_append, List.length_cons] at enough
        omega
      exact
        kmalloc_found_eq arena tiles represents positive small large
          enoughBefore served (outside.split large).offHeaders
  · simp only [kmalloc, positive, ↓reduceIte, Option.some.injEq] at served
    rw [← served]

end Allocation

section Release

variable
    {freeList address fuel : Nat}
    {memory result : Memory}
    {before after free live : List Block}
    {block current : Block}
    {region : Set Nat}

/-- The insertion writes only to the block, free blocks and the list head. -/
theorem insertBlock_eq
    {node : Nat}
    (represents : Represents freeList memory free live)
    (outside : OffBlocks freeList (block :: free) address)
    (member : node ∈ freeList :: free.map Block.addr)
    (inserted :
      insertBlock freeList memory block.addr fuel node = some result) :
    result address = memory address := by
  induction fuel generalizing node with
  | zero =>
      cases inserted
  | succ fuel inductionHypothesis =>
      simp only [insertBlock] at inserted
      split_ifs at inserted with atEnd higher
      · obtain rfl := Option.some.inj inserted
        exact listAdd_eq_of_seam outside.offHeaders
          (represents.links_mem List.mem_cons_self).2 List.mem_cons_self
      · obtain rfl := Option.some.inj inserted
        exact listAdd_eq_of_seam outside.offHeaders
          (represents.links_mem member).2 member
      · exact inductionHypothesis (represents.links_mem member).1 inserted

/-- Joining a block to the one in front of it writes only to free blocks. -/
theorem Represents.join_eq
    (represents :
      Represents freeList memory (before ++ current :: block :: after) live)
    (outside :
      OffBlocks freeList (before ++ current :: block :: after) address)
    (arena : Arena freeList region)
    (tiles :
      Tiles (extents ((before ++ current :: block :: after) ++ live)) region)
    (value : Nat)
    (fits : value < 2 ^ 64) :
    listDel (setSize memory current.addr value) block.addr address =
      memory address := by
  have resized := represents.resize (headersApart_middle arena tiles) fits
  have currentMember : current ∈ before ++ current :: block :: after := by
    simp
  have recorded :=
    outside.offHeaders.setSize_eq memory currentMember value
  obtain ⟨nextNode, prevNode⟩ :=
    (List.append_cons before _ (block :: after) ▸ resized).links
  rw [← recorded]
  apply listDel_outside
  intro node member
  apply outside.offHeaders.off_link
  simp only [nextNode, prevNode, List.mem_cons, List.not_mem_nil,
    or_false] at member
  rcases member with rfl | rfl | rfl
  · simp
  · simp [leftNode]
  · apply mem_cycle_of_subset _ (rightOf_mem freeList (after.map Block.addr))
    exact List.subset_append_of_subset_right before
      ((List.sublist_cons_self block after).trans
        (List.sublist_cons_self current (block :: after))).subset

/-- The joining pass from a block on writes only to free blocks. -/
theorem defragLoop_eq
    (before : List Block)
    (arena : Arena freeList region)
    (tiles : Tiles (extents ((before ++ current :: after) ++ live)) region)
    (represents : Represents freeList memory (before ++ current :: after) live)
    (outside : OffBlocks freeList (before ++ current :: after) address)
    (ended :
      defragLoop freeList fuel memory (rightNode freeList after)
          (next memory (rightNode freeList after)) current.addr =
        some result) :
    result address = memory address := by
  induction after generalizing before current memory fuel with
  | nil =>
      cases fuel with
      | zero =>
          cases ended
      | succ fuel =>
          simp only [defragLoop, rightNode, List.map_nil, rightOf_nil,
            ↓reduceIte, Option.some.injEq] at ended
          rw [ended]
  | cons block rest inductionHypothesis =>
      cases fuel with
      | zero =>
          cases ended
      | succ fuel =>
          have turn := defragLoop_turn fuel arena tiles represents
          by_cases join : current.addr ≠ 0 ∧ current.fin = block.addr
          · have bounded : block.fin < 2 ^ 64 :=
              fin_lt_of_mem arena tiles (by simp)
            have sizeFits : (current.joined block).size < 2 ^ 64 := by
              have touch := join.2
              simp only [Block.fin, Block.joined, allocHeaderSz]
                at bounded touch ⊢
              omega
            have grown := represents.joined_size bounded join.2
            have joined := represents.join arena tiles join.2
            have unchanged :=
              represents.join_eq outside arena tiles _ (grown ▸ sizeFits)
            have outsideJoined :
                OffBlocks freeList (before ++ current.joined block :: rest)
                  address := {
              offHead := outside.offHead
              off := by
                intro other member
                simp only [List.mem_append, List.mem_cons] at member
                rcases member with inBefore | rfl | inRest
                · exact outside.off other (by simp [inBefore])
                · have offCurrent := outside.off current (by simp)
                  have offBlock := outside.off block (by simp)
                  rw [Block.joined_fin join.2, Block.joined_addr]
                  omega
                · exact outside.off other (by simp [inRest]) }
            rw [if_pos join] at turn
            rw [← unchanged]
            exact
              inductionHypothesis before (tiles_joined tiles join.2) joined
                outsideJoined (turn.symm.trans ended)
          · rw [if_neg join] at turn
            rw [List.append_cons] at tiles represents outside
            exact
              inductionHypothesis (before ++ [current]) tiles represents
                outside (turn.symm.trans ended)

/-- `defrag_free_list` writes only to free blocks and the list head. -/
theorem defragFreeList_eq
    (arena : Arena freeList region)
    (tiles : Tiles (extents (free ++ live)) region)
    (represents : Represents freeList memory free live)
    (outside : OffBlocks freeList free address)
    (ended : defragFreeList freeList fuel memory = some result) :
    result address = memory address := by
  cases fuel with
  | zero =>
      cases ended
  | succ fuel =>
      unfold defragFreeList at ended
      rw [represents.next_head] at ended
      cases free with
      | nil =>
          simp only [defragLoop, rightNode, List.map_nil, rightOf_nil,
            ↓reduceIte, Option.some.injEq] at ended
          rw [ended]
      | cons block rest =>
          have tilesCut :
              Tiles (extents (([] ++ block :: rest) ++ live)) region :=
            tiles
          have representsCut :
              Represents freeList memory ([] ++ block :: rest) live :=
            represents
          have notHead := addr_ne_head arena tilesCut
          simp only [rightNode, List.map_cons, rightOf_cons, defragLoop,
            notHead, ↓reduceIte, ne_eq, not_true_eq_false, false_and,
            representsCut.links.1] at ended
          exact defragLoop_eq [] arena tiles represents outside ended

/-- `kfree` writes only to its block, to free blocks and to the list head. -/
theorem kfree_eq
    (arena : Arena freeList region)
    (tiles : Tiles (extents (free ++ block :: live)) region)
    (represents : Represents freeList memory free (block :: live))
    (enough : free.length < fuel)
    (outside : OffBlocks freeList (block :: free) address)
    (released : kfree freeList fuel memory block.payload = some result) :
    result address = memory address := by
  have current : containerOf block.payload = block.addr :=
    containerOf_payload_of_mem arena tiles (by simp)
  obtain ⟨inserted, insertion, representsInserted⟩ :=
    insertBlock_spec arena tiles represents enough
  have sameBlocks := putBack_perm block free
  have tilesInserted :
      Tiles (extents (putBack block free ++ live)) region := by
    apply tiles.perm
    apply List.Perm.map
    exact List.perm_middle.trans (sameBlocks.append_right live).symm
  have outsideInserted : OffBlocks freeList (putBack block free) address := {
    offHead := outside.offHead
    off := fun other member =>
      outside.off other (sameBlocks.mem_iff.mp member) }
  simp only [kfree, block.payload_ne_zero, ne_eq, not_false_eq_true,
    ↓reduceIte, current, insertion] at released
  have afterPass :=
    defragFreeList_eq arena tilesInserted representsInserted outsideInserted
      released
  have afterInsertion :=
    insertBlock_eq represents outside
      (represents.links_mem List.mem_cons_self).1 insertion
  exact afterPass.trans afterInsertion

end Release

section Regions

variable
    {freeList address : Nat}
    {memory : Memory}
    {free : List Block}
    {entry : E820Map64}
    {usable : List E820Map64}

/-- `malloc_addblock` writes only to headers and to the list head. -/
theorem mallocAddblock_eq
    (headers :
      HeadersApart freeList
        ((addedBlock entry).addr :: free.map Block.addr))
    (represents : Represents freeList memory free [])
    (outside : OffHeaders freeList (addedBlock entry :: free) address) :
    mallocAddblock freeList memory entry.baseaddr.toNat entry.length.toNat
        address =
      memory address := by
  have fits : (addedBlock entry).size < 2 ^ 64 :=
    Nat.mod_lt _ (by decide)
  have recorded := represents.setSize_fresh (by simpa using headers) fits
  have shape :
      mallocAddblock freeList memory
          entry.baseaddr.toNat entry.length.toNat =
        listAdd
          (setSize memory (addedBlock entry).addr (addedBlock entry).size)
          (addedBlock entry).addr freeList :=
    rfl
  rw [shape, listAdd, recorded.next_head,
    listAdd_eq_of_seam outside List.mem_cons_self (rightOf_mem _ _),
    outside.setSize_eq memory List.mem_cons_self]

/-- `kmalloc_init` writes only to the headers of the blocks and the head. -/
theorem kmallocInit_eq
    (headers :
      HeadersApart freeList
        (usable.map fun entry => (addedBlock entry).addr))
    (outside :
      OffHeaders freeList (usable.map addedBlock).reverse address) :
    kmallocInit freeList (listInit memory freeList) usable address =
      memory address := by
  induction usable using List.reverseRecOn with
  | nil =>
      have := outside.offHead
      simp only [kmallocInit, List.foldl_nil, listInit, setNext, setPrev]
      rw [store_outside (by omega), store_outside (by omega)]
  | append_singleton usable entry inductionHypothesis =>
      have reordered :
          HeadersApart freeList
            ((addedBlock entry).addr ::
              (usable.map addedBlock).reverse.map Block.addr) := by
        apply headers.perm
        rw [List.map_append, List.map_reverse, List.map_map]
        exact
          (List.perm_append_singleton _ _).trans
            ((List.reverse_perm _).symm.cons _)
      have earlier :
          HeadersApart freeList
            (usable.map fun entry => (addedBlock entry).addr) := by
        rw [List.map_append] at headers
        exact headers.left
      rw [List.map_append, List.reverse_append] at outside
      have before :
          OffHeaders freeList (usable.map addedBlock).reverse address := {
        offHead := outside.offHead
        off := fun block member =>
          outside.off block (List.mem_append_right _ member) }
      have added :=
        mallocAddblock_eq reordered (represents_kmallocInit memory earlier)
          outside
      rw [inductionHypothesis earlier before] at added
      simpa [kmallocInit, List.foldl_append] using added

end Regions

end Relics.Malloc
