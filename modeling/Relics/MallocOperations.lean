import Relics.MallocRefinement

namespace Relics.Malloc

/-!
# What the allocator's functions do to the represented lists

For every function there is one theorem: with enough iterations its loops
end, and memory then represents the lists the operation on blocks gives.
The number of iterations needed is the length of the free list plus one.
-/

open ByteMemory ExtentTiling LinkedList LinkedRing MachineWord

/-- The managed bytes avoid the list head and end below the address space. -/
structure Arena (freeList : Nat) (region : Set Nat) : Prop where
  headFits : freeList + 16 ≤ 2 ^ 64
  avoidsHead :
    ∀ address ∈ region, address < freeList ∨ freeList + 16 ≤ address
  below : ∀ address ∈ region, address + 1 < 2 ^ 64

/-- Rounding up to 8, with the wrap of the addition kept. -/
theorem alignUp_eight (num : Nat) :
    alignUp num 8 = 8 * ((num + 7) % 2 ^ 64 / 8) :=
  and_not64_lowOnes 3 (Nat.mod_lt _ (by decide)) (by decide)

section Geometry

variable
    {freeList : Nat}
    {blocks : List Block}
    {region : Set Nat}
    {block : Block}

/-- Every byte of a tile is a managed byte. -/
theorem mem_region_of_mem
    (tiles : Tiles (extents blocks) region)
    (member : block ∈ blocks)
    {address : Nat}
    (lower : block.addr ≤ address)
    (upper : address < block.fin) :
    address ∈ region :=
  (tiles.covers address).mpr
    ⟨block.extent, List.mem_map_of_mem member, lower, upper⟩

/-- A managed block ends below the address space. -/
theorem fin_lt_of_mem
    (arena : Arena freeList region)
    (tiles : Tiles (extents blocks) region)
    (member : block ∈ blocks) :
    block.fin < 2 ^ 64 := by
  have room := block.header_le_fin
  have last :=
    arena.below (block.fin - 1)
      (mem_region_of_mem tiles member (by omega) (by omega))
  omega

/-- A managed block does not reach the list head. -/
theorem apart_from_head
    (arena : Arena freeList region)
    (tiles : Tiles (extents blocks) region)
    (member : block ∈ blocks) :
    freeList + 16 ≤ block.addr ∨ block.fin ≤ freeList := by
  have room := block.header_le_fin
  by_contra overlap
  have shared := arena.avoidsHead (max block.addr freeList)
    (mem_region_of_mem tiles member (by omega) (by omega))
  omega

/-- Two different managed blocks share no byte. -/
theorem apart_of_ne
    {other : Block}
    (tiles : Tiles (extents blocks) region)
    (member : block ∈ blocks)
    (otherMember : other ∈ blocks)
    (different : block ≠ other) :
    block.fin ≤ other.addr ∨ other.fin ≤ block.addr := by
  have symmetric :
      Std.Symm fun first second : Block =>
        first.extent.Apart second.extent :=
    ⟨fun _ _ => Extent.Apart.symm⟩
  exact (List.pairwise_map.mp tiles.apart).forall member otherMember different

/-- The headers of a tiling do not overlap. -/
theorem headersApart_of_tiles
    (arena : Arena freeList region)
    (tiles : Tiles (extents blocks) region) :
    HeadersApart freeList (blocks.map Block.addr) where
  headFits := by
    have := arena.headFits
    omega
  fits node member := by
    obtain ⟨block, inBlocks, rfl⟩ := List.mem_map.mp member
    have := fin_lt_of_mem arena tiles inBlocks
    have := block.header_le_fin
    omega
  fromHead node member := by
    obtain ⟨block, inBlocks, rfl⟩ := List.mem_map.mp member
    have := apart_from_head arena tiles inBlocks
    have := block.header_le_fin
    omega
  apart := by
    rw [List.pairwise_map]
    apply (List.pairwise_map.mp tiles.apart).imp
    intro first second extentsApart
    simp only [Extent.Apart, Block.extent_lo, Block.extent_hi] at extentsApart
    have := first.header_le_fin
    have := second.header_le_fin
    omega

/-- The headers seen from one free block. -/
theorem headersApart_middle
    {before after live : List Block}
    (arena : Arena freeList region)
    (tiles : Tiles (extents ((before ++ block :: after) ++ live)) region) :
    HeadersApart freeList
      (block.addr :: ((before ++ after) ++ live).map Block.addr) :=
  (headersApart_of_tiles arena tiles).perm (perm_front.map Block.addr)

end Geometry

section Iterations

variable
    {freeList fuel more : Nat}
    {memory : Memory}

/-- The result of the search does not depend on how long it may run. -/
theorem findBlock_more
    {wanted node : Nat}
    {result : Nat × Nat}
    (ended : findBlock freeList memory wanted fuel node = some result)
    (longer : fuel ≤ more) :
    findBlock freeList memory wanted more node = some result := by
  induction fuel generalizing node more with
  | zero =>
      simp [findBlock] at ended
  | succ fuel inductionHypothesis =>
      obtain ⟨more, rfl⟩ : ∃ rest, more = rest + 1 := ⟨more - 1, by omega⟩
      simp only [findBlock] at ended ⊢
      split_ifs at ended ⊢ with atEnd fits
      · exact ended
      · exact ended
      · exact inductionHypothesis ended (by omega)

/-- The result of the insertion does not depend on how long it may run. -/
theorem insertBlock_more
    {current node : Nat}
    {result : Memory}
    (ended : insertBlock freeList memory current fuel node = some result)
    (longer : fuel ≤ more) :
    insertBlock freeList memory current more node = some result := by
  induction fuel generalizing node more with
  | zero =>
      simp [insertBlock] at ended
  | succ fuel inductionHypothesis =>
      obtain ⟨more, rfl⟩ : ∃ rest, more = rest + 1 := ⟨more - 1, by omega⟩
      simp only [insertBlock] at ended ⊢
      split_ifs at ended ⊢ with atEnd higher
      · exact ended
      · exact ended
      · exact inductionHypothesis ended (by omega)

/-- The result of the joining pass does not depend on how long it may run. -/
theorem defragLoop_more
    {block temp lastBlock : Nat}
    {result : Memory}
    (ended :
      defragLoop freeList fuel memory block temp lastBlock = some result)
    (longer : fuel ≤ more) :
    defragLoop freeList more memory block temp lastBlock = some result := by
  induction fuel generalizing memory block temp lastBlock more with
  | zero =>
      simp [defragLoop] at ended
  | succ fuel inductionHypothesis =>
      obtain ⟨more, rfl⟩ : ∃ rest, more = rest + 1 := ⟨more - 1, by omega⟩
      simp only [defragLoop] at ended ⊢
      split_ifs at ended ⊢ with atEnd join
      · exact ended
      · exact inductionHypothesis ended (by omega)
      · exact inductionHypothesis ended (by omega)

/-- The result of an allocation does not depend on how long it may run. -/
theorem kmalloc_more
    {wanted : Nat}
    {result : Memory × Nat}
    (ended : kmalloc freeList fuel memory wanted = some result)
    (longer : fuel ≤ more) :
    kmalloc freeList more memory wanted = some result := by
  by_cases positive : wanted > 0
  · simp only [kmalloc, positive, ↓reduceIte] at ended ⊢
    cases found :
        findBlock freeList memory (alignUp wanted 8) fuel
          (next memory freeList) with
    | none =>
        simp [found] at ended
    | some block =>
        rw [findBlock_more found longer]
        simpa [found] using ended
  · simpa [kmalloc, positive] using ended

/-- The result of a release does not depend on how long it may run. -/
theorem kfree_more
    {ptr : Nat}
    {result : Memory}
    (ended : kfree freeList fuel memory ptr = some result)
    (longer : fuel ≤ more) :
    kfree freeList more memory ptr = some result := by
  by_cases nonNull : ptr ≠ 0
  · simp only [kfree, nonNull, ne_eq, not_false_eq_true, ↓reduceIte] at ended ⊢
    cases inserted :
        insertBlock freeList memory (containerOf ptr) fuel
          (next memory freeList) with
    | none =>
        simp [inserted] at ended
    | some middle =>
        rw [insertBlock_more inserted longer]
        rw [inserted] at ended
        exact defragLoop_more ended longer
  · simpa [kfree, nonNull] using ended

end Iterations

section Loops

variable
    {freeList fuel : Nat}
    {memory : Memory}
    {before after free live : List Block}
    {block : Block}
    {region : Set Nat}

/-- The list starts at its first block. -/
theorem Represents.next_head
    (represents : Represents freeList memory free live) :
    next memory freeList = rightNode freeList free :=
  represents.ring.next_head

/-- The last block is in front of the list head. -/
theorem Represents.prev_head
    (represents : Represents freeList memory free live) :
    prev memory freeList = leftNode freeList free :=
  represents.ring.prev_head

/-- The links of a free block. -/
theorem Represents.links
    (represents : Represents freeList memory (before ++ block :: after) live) :
    next memory block.addr = rightNode freeList after ∧
      prev memory block.addr = leftNode freeList before := by
  have ring :
      Ring (next memory) (prev memory) freeList
        (before.map Block.addr ++ block.addr :: after.map Block.addr) := by
    simpa using represents.ring
  exact ring.links_of_member

/-- The recorded size of a free block. -/
theorem Represents.size_of_free
    (represents : Represents freeList memory (before ++ block :: after) live) :
    size memory block.addr = block.size :=
  represents.sizes block (by simp)

/-- A free block is not the list head. -/
theorem addr_ne_head
    (arena : Arena freeList region)
    (tiles : Tiles (extents ((before ++ block :: after) ++ live)) region) :
    block.addr ≠ freeList := by
  have member : block ∈ (before ++ block :: after) ++ live := by
    simp
  have apart := apart_from_head arena tiles member
  have room := block.header_le_fin
  omega

/-- The search passes over blocks that are too small. -/
theorem findBlock_skip
    (before : List Block)
    {wanted : Nat}
    {skipped : List Block}
    (arena : Arena freeList region)
    (tiles : Tiles (extents ((before ++ (skipped ++ after)) ++ live)) region)
    (represents :
      Represents freeList memory (before ++ (skipped ++ after)) live)
    (small : ∀ block ∈ skipped, block.size < wanted) :
    findBlock freeList memory wanted (fuel + skipped.length)
        (rightNode freeList (skipped ++ after)) =
      findBlock freeList memory wanted fuel (rightNode freeList after) := by
  induction skipped generalizing before with
  | nil =>
      rfl
  | cons block rest inductionHypothesis =>
      have notHead := addr_ne_head arena tiles
      have tooSmall : ¬size memory block.addr ≥ wanted := by
        rw [represents.size_of_free]
        exact Nat.not_le.mpr (small block (by simp))
      have moved :
          findBlock freeList memory wanted (fuel + (rest.length + 1))
              block.addr =
            findBlock freeList memory wanted (fuel + rest.length)
              (rightNode freeList (rest ++ after)) := by
        rw [← Nat.add_assoc]
        simp only [findBlock, notHead, ↓reduceIte, tooSmall]
        rw [represents.links.1]
        rfl
      have regrouped :
          before ++ (block :: rest ++ after) =
            (before ++ [block]) ++ (rest ++ after) := by
        simp
      rw [regrouped] at tiles represents
      exact moved.trans
        (inductionHypothesis (before ++ [block]) tiles represents
          (fun other member => small other (List.mem_cons_of_mem block member)))

/-- The search ends at the first block that is large enough. -/
theorem findBlock_found
    {wanted : Nat}
    (arena : Arena freeList region)
    (tiles : Tiles (extents ((before ++ block :: after) ++ live)) region)
    (represents : Represents freeList memory (before ++ block :: after) live)
    (small : ∀ other ∈ before, other.size < wanted)
    (large : wanted ≤ block.size)
    (enough : before.length < fuel) :
    findBlock freeList memory wanted fuel (next memory freeList) =
      some (blockOf block.addr, block.addr) := by
  obtain ⟨spare, rfl⟩ : ∃ spare, fuel = (spare + 1) + before.length :=
    ⟨fuel - before.length - 1, by omega⟩
  rw [represents.next_head]
  rw [findBlock_skip [] arena tiles represents small]
  have notHead := addr_ne_head arena tiles
  have fits : size memory block.addr ≥ wanted := by
    rw [represents.size_of_free]
    exact large
  simp [findBlock, rightNode, notHead, fits]

/-- The search reaches the end of the list when every block is too small. -/
theorem findBlock_none
    {wanted : Nat}
    (arena : Arena freeList region)
    (tiles : Tiles (extents (free ++ live)) region)
    (represents : Represents freeList memory free live)
    (small : ∀ other ∈ free, other.size < wanted)
    (enough : free.length < fuel) :
    findBlock freeList memory wanted fuel (next memory freeList) =
      some (0, freeList) := by
  obtain ⟨spare, rfl⟩ : ∃ spare, fuel = (spare + 1) + free.length :=
    ⟨fuel - free.length - 1, by omega⟩
  have tilesCut : Tiles (extents (([] ++ (free ++ [])) ++ live)) region := by
    simpa using tiles
  have representsCut :
      Represents freeList memory ([] ++ (free ++ [])) live := by
    simpa using represents
  have skip :
      findBlock freeList memory wanted (spare + 1 + free.length)
          (rightNode freeList (free ++ [])) =
        findBlock freeList memory wanted (spare + 1)
          (rightNode freeList []) :=
    findBlock_skip [] arena tilesCut representsCut small
  rw [List.append_nil] at skip
  rw [represents.next_head, skip]
  simp [findBlock, rightNode]

/-- The insertion passes over lower blocks. -/
theorem insertBlock_skip
    (before : List Block)
    {current : Nat}
    {skipped : List Block}
    (arena : Arena freeList region)
    (tiles : Tiles (extents ((before ++ (skipped ++ after)) ++ live)) region)
    (represents :
      Represents freeList memory (before ++ (skipped ++ after)) live)
    (lower : ∀ block ∈ skipped, block.addr ≤ current) :
    insertBlock freeList memory current (fuel + skipped.length)
        (rightNode freeList (skipped ++ after)) =
      insertBlock freeList memory current fuel (rightNode freeList after) := by
  induction skipped generalizing before with
  | nil =>
      rfl
  | cons block rest inductionHypothesis =>
      have notHead := addr_ne_head arena tiles
      have notHigher : ¬block.addr > current :=
        Nat.not_lt.mpr (lower block (by simp))
      have moved :
          insertBlock freeList memory current (fuel + (rest.length + 1))
              block.addr =
            insertBlock freeList memory current (fuel + rest.length)
              (rightNode freeList (rest ++ after)) := by
        rw [← Nat.add_assoc]
        simp only [insertBlock, notHead, ↓reduceIte, notHigher]
        rw [represents.links.1]
        rfl
      have regrouped :
          before ++ (block :: rest ++ after) =
            (before ++ [block]) ++ (rest ++ after) := by
        simp
      rw [regrouped] at tiles represents
      exact moved.trans
        (inductionHypothesis (before ++ [block]) tiles represents
          (fun other member => lower other (List.mem_cons_of_mem block member)))

/-- The insertion puts a block back in front of the first higher one. -/
theorem insertBlock_spec
    (arena : Arena freeList region)
    (tiles : Tiles (extents (free ++ block :: live)) region)
    (represents : Represents freeList memory free (block :: live))
    (enough : free.length < fuel) :
    ∃ result,
      insertBlock freeList memory block.addr fuel (next memory freeList) =
          some result ∧
        Represents freeList result (putBack block free) live := by
  -- `lower` is what the loop passes over, `higher` starts where it stops
  obtain ⟨lower, higher, shape, placed, notHigher, starts⟩ :=
    putBack_shape block free
  have enoughLower : lower.length < fuel := by
    have shorter := congrArg List.length shape
    rw [List.length_append] at shorter
    omega
  obtain ⟨spare, fuelShape⟩ : ∃ spare, fuel = (spare + 1) + lower.length :=
    ⟨fuel - lower.length - 1, by omega⟩
  rw [placed]
  have tilesCut :
      Tiles (extents ((lower ++ higher) ++ block :: live)) region :=
    shape ▸ tiles
  have representsCut :
      Represents freeList memory (lower ++ higher) (block :: live) :=
    shape ▸ represents
  have headers :
      HeadersApart freeList
        (block.addr :: ((lower ++ higher) ++ live).map Block.addr) :=
    (headersApart_of_tiles arena tilesCut).perm
      (List.perm_middle.map Block.addr)
  rw [represents.next_head, fuelShape, shape]
  rw [insertBlock_skip [] arena tilesCut representsCut notHigher]
  refine ⟨_, ?_, representsCut.link headers⟩
  cases higherShape : higher with
  | nil =>
      rw [higherShape, List.append_nil] at representsCut
      simp [insertBlock, rightNode, listAddTail, representsCut.prev_head]
  | cons first rest =>
      rw [higherShape] at representsCut tilesCut
      have notHead := addr_ne_head arena tilesCut
      have isHigher : first.addr > block.addr :=
        starts first (by simp [higherShape])
      simp [insertBlock, rightNode, notHead, isHigher, representsCut.links.2]

/-- The pointer handed out for a managed block. -/
theorem blockOf_addr
    {blocks : List Block}
    (arena : Arena freeList region)
    (tiles : Tiles (extents blocks) region)
    (member : block ∈ blocks) :
    blockOf block.addr = block.addr + 24 := by
  have bounded := fin_lt_of_mem arena tiles member
  have room := block.header_le_fin
  exact add64_of_lt (by unfold allocHeaderSz; omega)

/-- The header of a managed block is found again from its pointer. -/
theorem containerOf_payload_of_mem
    {blocks : List Block}
    (arena : Arena freeList region)
    (tiles : Tiles (extents blocks) region)
    (member : block ∈ blocks) :
    containerOf block.payload = block.addr := by
  have bounded := fin_lt_of_mem arena tiles member
  simp only [Block.fin, allocHeaderSz] at bounded
  simp only [containerOf, Block.payload, allocHeaderSz, sub64]
  omega

/-- The end of a managed block as the source computes it. -/
theorem blockOf_add_size
    {blocks : List Block}
    (arena : Arena freeList region)
    (tiles : Tiles (extents blocks) region)
    (member : block ∈ blocks) :
    add64 (blockOf block.addr) block.size = block.fin := by
  have bounded := fin_lt_of_mem arena tiles member
  rw [blockOf_addr arena tiles member]
  exact add64_of_lt (by simpa [Block.fin, allocHeaderSz] using bounded)

/-- Joining two free blocks that touch keeps the tiling. -/
theorem tiles_joined
    {current : Block}
    (tiles :
      Tiles (extents ((before ++ current :: block :: after) ++ live)) region)
    (touch : current.fin = block.addr) :
    Tiles (extents ((before ++ current.joined block :: after) ++ live))
      region := by
  have front :
      Tiles (extents (current :: block :: ((before ++ after) ++ live)))
        region :=
    tiles.perm
      ((perm_front.trans (perm_front.cons current)).map Block.extent)
  have whole :
      Tiles (extents (current.joined block :: ((before ++ after) ++ live)))
        region := by
    have neighbours :
        Tiles
          (current.extent :: block.extent :: extents ((before ++ after) ++ live))
          region :=
      front
    apply neighbours.join
    · rfl
    · exact touch
    · exact (Block.joined_fin touch).symm
  exact whole.perm (perm_front.symm.map Block.extent)

/-- The size that the pass gives a block with the next one joined to it. -/
theorem Represents.joined_size
    {current : Block}
    (represents :
      Represents freeList memory (before ++ current :: block :: after) live)
    (bounded : block.fin < 2 ^ 64)
    (touch : current.fin = block.addr) :
    add64 (size memory current.addr)
        (add64 allocHeaderSz (size memory block.addr)) =
      (current.joined block).size := by
  have representsSecond := represents
  rw [List.append_cons] at representsSecond
  rw [represents.size_of_free, representsSecond.size_of_free]
  simp only [Block.fin, allocHeaderSz] at bounded touch
  have inner : add64 allocHeaderSz block.size = 24 + block.size :=
    add64_of_lt (by unfold allocHeaderSz; omega)
  rw [inner, add64_of_lt (by omega)]
  rfl

/-- Joining a free block to the one in front of it, as the pass does it. -/
theorem Represents.join
    {current : Block}
    (arena : Arena freeList region)
    (tiles :
      Tiles (extents ((before ++ current :: block :: after) ++ live)) region)
    (represents :
      Represents freeList memory (before ++ current :: block :: after) live)
    (touch : current.fin = block.addr) :
    Represents freeList
      (listDel
        (setSize memory current.addr
          (add64 (size memory current.addr)
            (add64 allocHeaderSz (size memory block.addr))))
        block.addr)
      (before ++ current.joined block :: after) live := by
  have secondCut :
      before ++ current :: block :: after =
        (before ++ [current]) ++ block :: after := by
    simp
  have bounded : block.fin < 2 ^ 64 :=
    fin_lt_of_mem arena tiles (by simp)
  have sizeFits : (current.joined block).size < 2 ^ 64 := by
    simp only [Block.fin, Block.joined, allocHeaderSz] at bounded touch ⊢
    omega
  rw [represents.joined_size bounded touch]
  have resized := represents.resize (headersApart_middle arena tiles) sizeFits
  have headers :
      HeadersApart freeList
        (block.addr ::
          (((before ++ [current.joined block]) ++ after) ++ live).map
            Block.addr) := by
    have original := headersApart_middle arena (secondCut ▸ tiles)
    simpa using original
  have regrouped :
      before ++ { current with size := (current.joined block).size } ::
          block :: after =
        (before ++ [current.joined block]) ++ block :: after := by
    simp [Block.joined]
  rw [regrouped] at resized
  have unlinked := (resized.unlink headers).forget
  simpa using unlinked

/-- A turn of the joining pass at a free block behind another one. -/
theorem defragLoop_turn
    (fuel : Nat)
    {current : Block}
    (arena : Arena freeList region)
    (tiles :
      Tiles (extents ((before ++ current :: block :: after) ++ live)) region)
    (represents :
      Represents freeList memory (before ++ current :: block :: after) live) :
    defragLoop freeList (fuel + 1) memory block.addr
        (next memory block.addr) current.addr =
      if current.addr ≠ 0 ∧ current.fin = block.addr then
        let joined :=
          listDel
            (setSize memory current.addr
              (add64 (size memory current.addr)
                (add64 allocHeaderSz (size memory block.addr))))
            block.addr
        defragLoop freeList fuel joined (rightNode freeList after)
          (next joined (rightNode freeList after)) current.addr
      else
        defragLoop freeList fuel memory (rightNode freeList after)
          (next memory (rightNode freeList after)) block.addr := by
  have tilesSecond := tiles
  have representsSecond := represents
  rw [List.append_cons] at tilesSecond representsSecond
  have notHead := addr_ne_head arena tilesSecond
  have ends :
      add64 (blockOf current.addr) (size memory current.addr) =
        current.fin := by
    rw [represents.size_of_free]
    exact blockOf_add_size arena tiles (by simp)
  rw [defragLoop, if_neg notHead, ends, representsSecond.links.1]

/-- The joining pass from a block on. -/
theorem defragLoop_spec
    (before : List Block)
    {current : Block}
    (arena : Arena freeList region)
    (tiles : Tiles (extents ((before ++ current :: after) ++ live)) region)
    (represents : Represents freeList memory (before ++ current :: after) live)
    (enough : after.length < fuel) :
    ∃ result,
      defragLoop freeList fuel memory (rightNode freeList after)
            (next memory (rightNode freeList after)) current.addr =
          some result ∧
        Represents freeList result (before ++ coalesceFrom current after)
          live := by
  induction after generalizing before current memory fuel with
  | nil =>
      obtain ⟨spare, rfl⟩ : ∃ spare, fuel = spare + 1 := ⟨fuel - 1, by simp at enough; omega⟩
      exact ⟨memory, by simp [defragLoop, rightNode], represents⟩
  | cons block rest inductionHypothesis =>
      obtain ⟨spare, rfl⟩ : ∃ spare, fuel = spare + 1 := ⟨fuel - 1, by omega⟩
      have enoughRest : rest.length < spare := by
        simpa using enough
      have turn := defragLoop_turn spare arena tiles represents
      by_cases join : current.addr ≠ 0 ∧ current.fin = block.addr
      · have joined := represents.join arena tiles join.2
        have tilesJoined :
            Tiles (extents ((before ++ current.joined block :: rest) ++ live))
              region :=
          tiles_joined tiles join.2
        obtain ⟨result, ended, final⟩ :=
          inductionHypothesis before tilesJoined joined enoughRest
        rw [if_pos join] at turn
        refine ⟨result, turn.trans ended, ?_⟩
        simpa [coalesceFrom, join] using final
      · rw [List.append_cons] at tiles represents
        obtain ⟨result, ended, final⟩ :=
          inductionHypothesis (before ++ [current]) tiles represents enoughRest
        rw [if_neg join] at turn
        refine ⟨result, turn.trans ended, ?_⟩
        simpa [coalesceFrom, join] using final

/-- `defrag_free_list` makes one joining pass over the free list. -/
theorem defragFreeList_spec
    (arena : Arena freeList region)
    (tiles : Tiles (extents (free ++ live)) region)
    (represents : Represents freeList memory free live)
    (enough : free.length < fuel) :
    ∃ result,
      defragFreeList freeList fuel memory = some result ∧
        Represents freeList result (coalesce free) live := by
  obtain ⟨spare, rfl⟩ : ∃ spare, fuel = spare + 1 := ⟨fuel - 1, by omega⟩
  unfold defragFreeList
  rw [represents.next_head]
  cases free with
  | nil =>
      exact ⟨memory, by simp [defragLoop, rightNode], represents⟩
  | cons block rest =>
      -- no block precedes the first one
      have tilesCut :
          Tiles (extents (([] ++ block :: rest) ++ live)) region :=
        tiles
      have representsCut :
          Represents freeList memory ([] ++ block :: rest) live :=
        represents
      have notHead := addr_ne_head arena tilesCut
      have temp := representsCut.links.1
      have enoughRest : rest.length < spare := by
        simpa using enough
      obtain ⟨result, ended, final⟩ :=
        defragLoop_spec [] arena tiles represents enoughRest
      refine ⟨result, ?_, final⟩
      simp only [rightNode, List.map_cons, rightOf_cons, defragLoop, notHead,
        ↓reduceIte, ne_eq, not_true_eq_false, false_and, temp]
      exact ended

end Loops

end Relics.Malloc
