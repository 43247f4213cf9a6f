import Relics.MallocFragments

namespace Relics.Malloc

/-!
# Which requests `kmalloc` meets

`kmalloc` rounds a request up to a multiple of 8 and hands out the first block
that is large enough.  The rounding wraps around for the seven largest
requests, which are then taken for requests of no bytes at all.
-/

open ByteMemory ExtentTiling LinkedList LinkedRing MachineWord

/-- A request rounded up to a multiple of 8, without wrapping around. -/
def roundedUp (wanted : Nat) : Nat :=
  8 * ((wanted + 7) / 8)

/-- The answer to a request, with the blocks that were free before it. -/
structure Answers
    (state : HeapState)
    (nodes : List Nat)
    (wanted : UInt64)
    (memory : Memory)
    (ptr : Nat) :
    Prop where
  aligned : ptr ≠ 0 → ptr % 8 = 0
  wasFree : ptr ≠ 0 → containerOf ptr ∈ nodes
  enough : ptr ≠ 0 → wanted.toNat ≤ size memory (containerOf ptr)
  notMuchMore : ptr ≠ 0 → size memory (containerOf ptr) < wanted.toNat + 64
  null :
    ptr = 0 ↔
      wanted = 0 ∨
        ∀ node ∈ nodes, size state.memory node < roundedUp wanted.toNat

/-- `kmalloc` returns, and its answer is the one that the request asks for. -/
def MeetsRequest
    (freeList : Nat)
    (state : HeapState)
    (wanted : UInt64) :
    Prop :=
  ∃ fuel memory ptr nodes,
    kmalloc freeList fuel state.memory wanted.toNat = some (memory, ptr) ∧
      FreeListIs freeList state nodes ∧
      Answers state nodes wanted memory ptr

section Rounding

variable
    {wanted : Nat}

/-- Rounding adds less than 8. -/
theorem roundedUp_bounds (wanted : Nat) :
    wanted ≤ roundedUp wanted ∧ roundedUp wanted < wanted + 8 := by
  unfold roundedUp
  omega

/-- The rounding of the source up to the last request it does not wrap. -/
theorem alignUp_of_le
    (below : wanted ≤ 2 ^ 64 - 8) :
    alignUp wanted 8 = roundedUp wanted := by
  have fits : wanted + 7 < 2 ^ 64 := by omega
  rw [alignUp_eight, Nat.mod_eq_of_lt fits, roundedUp]

/-- The larger requests are rounded to 0. -/
theorem alignUp_of_lt
    (above : 2 ^ 64 - 8 < wanted)
    (bounded : wanted < 2 ^ 64) :
    alignUp wanted 8 = 0 := by
  rw [alignUp_eight]
  omega

/-- What is handed out is less than one split larger than the request. -/
theorem size_taken
    {block : Block}
    (large : wanted ≤ block.size) :
    wanted ≤ (block.taken wanted).size ∧
      (block.taken wanted).size < wanted + minAllocSz := by
  by_cases split : block.Splittable wanted
  · simp only [Block.taken, split, ↓reduceIte, le_refl, true_and]
    exact Nat.lt_add_of_pos_right (by decide)
  · simp only [Block.taken, split, ↓reduceIte]
    exact ⟨large, Nat.not_le.mp split⟩

end Rounding

section Requests

variable
    {freeList : Nat}
    {region : Set Nat}
    {state : HeapState}
    {blocks : BlockState}
    {wanted : UInt64}
    (arena : Arena freeList region)
    (invariant : HeapInvariant freeList region state blocks)

include invariant in
/-- The sizes on the free list are those of the free blocks. -/
theorem forall_size_lt_iff (bound : Nat) :
    (∀ node ∈ blocks.free.map Block.addr, size state.memory node < bound) ↔
      ∀ block ∈ blocks.free, block.size < bound := by
  rw [List.forall_mem_map]
  apply forall₂_congr
  intro block member
  rw [invariant.represents.sizes block (List.mem_append_left _ member)]

include arena invariant

/-- The list head links to itself exactly if no block is free. -/
theorem next_head_eq_iff :
    next state.memory freeList = freeList ↔ blocks.free = [] := by
  rw [invariant.represents.next_head]
  obtain ⟨free, live⟩ := blocks
  cases free with
  | nil =>
      exact iff_of_true rfl rfl
  | cons block rest =>
      have tiles : Tiles (extents (([] ++ block :: rest) ++ live)) region :=
        invariant.tiles
      have notHead : block.addr ≠ freeList := addr_ne_head arena tiles
      exact iff_of_false notHead (List.cons_ne_nil block rest)

/-- A request that no free block can serve is refused, and rightly. -/
theorem meetsRequest_of_unserved
    (unserved :
      wanted.toNat = 0 ∨
        ∀ block ∈ blocks.free, block.size < alignUp wanted.toNat 8)
    (null :
      wanted = 0 ∨
        ∀ block ∈ blocks.free, block.size < roundedUp wanted.toNat) :
    MeetsRequest freeList state wanted := by
  have refused :=
    kmalloc_none arena invariant.tiles invariant.represents unserved
      (Nat.lt_succ_self _)
  refine ⟨_, _, _, _, refused, invariant.freeListIs arena, ?_⟩
  exact {
    aligned := fun nonNull => absurd rfl nonNull
    wasFree := fun nonNull => absurd rfl nonNull
    enough := fun nonNull => absurd rfl nonNull
    notMuchMore := fun nonNull => absurd rfl nonNull
    null := by
      rw [forall_size_lt_iff invariant]
      exact iff_of_true rfl null }

/-- A request is answered with the first block that is large enough. -/
theorem meetsRequest_of_served
    {before after : List Block}
    {block : Block}
    (positive : 0 < wanted.toNat)
    (shape : blocks.free = before ++ block :: after)
    (small : ∀ other ∈ before, other.size < alignUp wanted.toNat 8)
    (large : alignUp wanted.toNat 8 ≤ block.size)
    (exact : alignUp wanted.toNat 8 = roundedUp wanted.toNat) :
    MeetsRequest freeList state wanted := by
  have freeListIs := invariant.freeListIs arena
  have sizes := forall_size_lt_iff invariant (roundedUp wanted.toNat)
  obtain ⟨free, live⟩ := blocks
  obtain rfl : free = before ++ block :: after := shape
  have tiles := invariant.tiles
  have member : block ∈ (before ++ block :: after) ++ live := by
    simp
  obtain ⟨result, served, represents⟩ :=
    kmalloc_found arena tiles invariant.represents positive small large
      (Nat.lt_succ_self _)
  have header := containerOf_payload_of_mem arena tiles member
  have recorded :
      size result block.addr =
        (block.taken (alignUp wanted.toNat 8)).size := by
    have taken :=
      represents.sizes (block.taken (alignUp wanted.toNat 8)) (by simp)
    rwa [Block.taken_addr] at taken
  obtain ⟨notLess, notMore⟩ := size_taken large
  obtain ⟨lower, upper⟩ := roundedUp_bounds wanted.toNat
  rw [exact] at recorded notLess notMore large
  refine ⟨_, _, _, _, served, freeListIs, ?_⟩
  exact {
    aligned := fun _ => by
      have := invariant.aligned block member
      simp only [Block.payload, allocHeaderSz]
      omega
    wasFree := fun _ => by
      rw [header]
      exact List.mem_map_of_mem (by simp)
    enough := fun _ => by
      rw [header, recorded]
      exact lower.trans notLess
    notMuchMore := fun _ => by
      rw [header, recorded]
      simp only [minAllocSz, allocHeaderSz] at notMore
      omega
    null := by
      rw [sizes]
      refine iff_of_false block.payload_ne_zero ?_
      rintro (isZero | allSmall)
      · simp [isZero] at positive
      · have := allSmall block (by simp)
        omega }

/-- Up to the last request that does not wrap every request is met. -/
theorem meetsRequest_of_le
    (below : wanted.toNat ≤ 2 ^ 64 - 8) :
    MeetsRequest freeList state wanted := by
  have exact : alignUp wanted.toNat 8 = roundedUp wanted.toNat :=
    alignUp_of_le below
  by_cases isZero : wanted = 0
  · exact
      meetsRequest_of_unserved arena invariant (.inl (by simp [isZero]))
        (.inl isZero)
  have positive : 0 < wanted.toNat := by
    have nonZero := mt UInt64.toNat_inj.mp isZero
    exact Nat.pos_of_ne_zero nonZero
  rcases firstFit_cases blocks.free (alignUp wanted.toNat 8) with
      allSmall | ⟨before, block, after, shape, small, large⟩
  · exact
      meetsRequest_of_unserved arena invariant (.inr allSmall)
        (.inr (exact ▸ allSmall))
  · exact
      meetsRequest_of_served arena invariant positive shape small large exact

/-- A request that wraps is given the first block there is. -/
theorem not_meetsRequest_of_lt
    (above : 2 ^ 64 - 8 < wanted.toNat)
    (someFree : blocks.free ≠ []) :
    ¬ MeetsRequest freeList state wanted := by
  rintro ⟨fuel, memory, ptr, nodes, ended, through, answers⟩
  have zero : alignUp wanted.toNat 8 = 0 :=
    alignUp_of_lt above wanted.toNat_lt
  obtain rfl := invariant.eq_of_freeListIs arena through
  have null := answers.null
  rw [forall_size_lt_iff invariant] at null
  -- no block has the size that was asked for
  have allSmall :
      ∀ block ∈ blocks.free, block.size < roundedUp wanted.toNat := by
    intro block member
    have bounded :=
      fin_lt_of_mem arena invariant.tiles (List.mem_append_left _ member)
    unfold Block.fin at bounded
    unfold roundedUp
    omega
  obtain ⟨free, live⟩ := blocks
  obtain ⟨block, after, rfl⟩ := List.exists_cons_of_ne_nil someFree
  have tiles : Tiles (extents (([] ++ block :: after) ++ live)) region :=
    invariant.tiles
  have large : alignUp wanted.toNat 8 ≤ block.size := by
    omega
  obtain ⟨result, served, -⟩ :=
    kmalloc_found arena tiles invariant.represents (by omega) (by simp) large
      Nat.zero_lt_one
  have same :=
    (kmalloc_more ended (Nat.le_max_left fuel 1)).symm.trans
      (kmalloc_more served (Nat.le_max_right fuel 1))
  have handedOut : ptr = block.payload :=
    congrArg Prod.snd (Option.some.inj same)
  have isNull := null.mpr (.inr allSmall)
  exact block.payload_ne_zero (handedOut ▸ isNull)

end Requests

/--
In every state reached, a request is met exactly if it is not one of those
whose rounding wraps around, or no block is free.
-/
theorem meetsRequest_iff
    (freeList : Nat)
    (memory : Memory)
    (usable : List E820Map64)
    (regions : WellFormedRegions freeList usable)
    (actions : List HeapAction)
    (state : HeapState)
    (reaches : HeapState.Reaches freeList memory usable actions state)
    (wanted : UInt64) :
    MeetsRequest freeList state wanted ↔
      wanted.toNat ≤ 2 ^ 64 - 8 ∨ next state.memory freeList = freeList := by
  have arena := arena_heapBytes regions
  obtain ⟨blocks, invariant⟩ := reaches_invariant regions reaches
  rw [next_head_eq_iff arena invariant]
  constructor
  · intro meets
    by_contra! wraps
    exact not_meetsRequest_of_lt arena invariant wraps.1 wraps.2 meets
  · rintro (below | empty)
    · exact meetsRequest_of_le arena invariant below
    · apply meetsRequest_of_unserved arena invariant
      · exact .inr (by simp [empty])
      · exact .inr (by simp [empty])

/-- A request after an allocation and its release. -/
theorem meetsRequest_afterRelease :
    ∃ state,
      HeapState.Reaches 0x2000 (fun _ => 0) exampleRegions
          [.kmalloc 100, .kfree 0x200018] state ∧
        MeetsRequest 0x2000 state 0x300 := by
  have ran :
      (HeapState.run? 0x2000 4
          (HeapState.initial 0x2000 (fun _ => 0) exampleRegions)
          [.kmalloc 100, .kfree 0x200018]).any (fun _ => true) = true := by
    decide +kernel
  obtain ⟨state, reaches, -⟩ := HeapState.exists_reached _ ran
  exact ⟨state, reaches,
    (meetsRequest_iff 0x2000 (fun _ => 0) exampleRegions
      exampleRegions_wellFormed _ state reaches 0x300).mpr
      (.inl (by decide))⟩

/-- A request for almost the whole address space is given a block. -/
theorem not_meetsRequest_largest :
    WellFormedRegions 0x2000 exampleRegions ∧
      ¬ MeetsRequest 0x2000
        (HeapState.initial 0x2000 (fun _ => 0) exampleRegions)
        0xFFFFFFFFFFFFFFFF := by
  have regions := exampleRegions_wellFormed
  refine ⟨regions, ?_⟩
  exact
    not_meetsRequest_of_lt (arena_heapBytes regions)
      (heapInvariant_initial (fun _ => 0) regions) (by decide) (by decide)

end Relics.Malloc
