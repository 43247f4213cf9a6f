import Relics.MallocHistory

namespace Relics.Malloc

/-!
# When the allocator runs out of memory

First fit with splitting serves requests of one size from a free block until
less than the request is left of it.  How many requests that are is a number
of the block alone, so the requests of one size that a free list serves are
counted before the first of them is made.
-/

open ByteMemory ExtentTiling LabelledRun

/--
How many requests, each rounded up to `wanted` bytes, a free block of this
size serves.  A rest that could not hold 32 bytes stays with the last one.
-/
def servings (wanted size : Nat) : Nat :=
  if wanted ≤ size then
    1 + (size - max wanted 32) / (wanted + allocHeaderSz)
  else
    0

/-- How many such requests the blocks of a free list serve. -/
def capacity (wanted : Nat) (free : List Block) : Nat :=
  (free.map fun block => servings wanted block.size).sum

section Capacity

variable
    {wanted : Nat}
    {block : Block}
    {before after free rest : List Block}

@[simp] theorem capacity_nil (wanted : Nat) :
    capacity wanted [] = 0 :=
  rfl

@[simp] theorem capacity_cons
    (wanted : Nat)
    (block : Block)
    (rest : List Block) :
    capacity wanted (block :: rest) =
      servings wanted block.size + capacity wanted rest :=
  rfl

@[simp] theorem capacity_append
    (wanted : Nat)
    (before after : List Block) :
    capacity wanted (before ++ after) =
      capacity wanted before + capacity wanted after := by
  simp [capacity]

/-- A block that is too small serves no request. -/
theorem servings_of_lt
    {size : Nat}
    (small : size < wanted) :
    servings wanted size = 0 :=
  if_neg (Nat.not_le.mpr small)

/-- Blocks that are all too small serve no request. -/
theorem capacity_of_small
    (small : ∀ block ∈ free, block.size < wanted) :
    capacity wanted free = 0 := by
  induction free with
  | nil =>
      rfl
  | cons block rest inductionHypothesis =>
      obtain ⟨first, later⟩ := List.forall_mem_cons.mp small
      rw [capacity_cons, servings_of_lt first, inductionHypothesis later]

/-- A block that is large enough serves one request more than what stays of it. -/
theorem servings_remainder
    (large : wanted ≤ block.size) :
    servings wanted block.size =
      1 + capacity wanted (block.remainder wanted) := by
  have counted : servings wanted block.size =
      1 + (block.size - max wanted 32) / (wanted + 24) :=
    if_pos large
  rw [counted]
  by_cases split : block.Splittable wanted
  · have room : wanted + 56 ≤ block.size := split
    simp only [Block.remainder, split, ↓reduceIte, capacity_cons,
      capacity_nil, Nat.add_zero, allocHeaderSz]
    by_cases again : wanted ≤ block.size - wanted - 24
    · have shifted :
          block.size - max wanted 32 =
            (block.size - wanted - 24 - max wanted 32) + (wanted + 24) := by
        omega
      have positive : 0 < wanted + 24 := by
        omega
      rw [servings, if_pos again, shifted, Nat.add_div_right _ positive,
        allocHeaderSz]
      omega
    · have last : block.size - max wanted 32 < wanted + 24 := by
        omega
      rw [servings_of_lt (Nat.not_le.mp again), Nat.div_eq_of_lt last]
  · have room : ¬wanted + 56 ≤ block.size := split
    have last : block.size - max wanted 32 < wanted + 24 := by
      omega
    simp [Block.remainder, split, Nat.div_eq_of_lt last]

/-- A request uses up one unit of the capacity, if there is any left. -/
theorem capacity_step
    {blocks blocks' : BlockState}
    {wanted : UInt64}
    (positive : 0 < wanted.toNat)
    (step : BlockStep blocks (.kmalloc wanted) blocks') :
    capacity (alignUp wanted.toNat 8) blocks'.free =
        capacity (alignUp wanted.toNat 8) blocks.free - 1 ∧
      blocks'.live.length =
        blocks.live.length +
          min 1 (capacity (alignUp wanted.toNat 8) blocks.free) := by
  cases step with
  | refuse unserved =>
      have small := unserved.resolve_left (Nat.ne_of_gt positive)
      simp [capacity_of_small small]
  | @allocate before after live block _ _ small large =>
      have used := servings_remainder large
      simp only [capacity_append, capacity_cons, used, List.length_cons]
      omega

end Capacity

/-- Nothing is asked for but this size, and nothing is released. -/
def OnlyRequests (wanted : UInt64) (actions : List HeapAction) : Prop :=
  ∀ action ∈ actions,
    action = .kmalloc wanted ∨
      ∃ address byte, action = .clientWrite address byte

/--
From a state with known free blocks, requests of one size are served until
the capacity of these blocks for that size is used up, and not once more; what
the clients write in between makes no difference.
-/
theorem requests_served
    (freeList : Nat)
    (memory : Memory)
    (usable : List E820Map64)
    (regions : WellFormedRegions freeList usable)
    (earlier later : List HeapAction)
    (middle state : HeapState)
    (free : List Block)
    (wanted : UInt64)
    (reaches : HeapState.Reaches freeList memory usable earlier middle)
    (freeBlocks : FreeBlocks freeList middle free)
    (positive : 0 < wanted.toNat)
    (onlyRequests : OnlyRequests wanted later)
    (onwards : Run (HeapState.Step freeList) middle later state) :
    state.live.length =
      middle.live.length +
        min (later.count (.kmalloc wanted))
          (capacity (alignUp wanted.toNat 8) free) := by
  have arena := arena_heapBytes regions
  obtain ⟨blocks, invariant⟩ := reaches_invariant regions reaches
  obtain rfl := invariant.eq_of_freeBlocks arena freeBlocks
  have counted :
      ∃ blocks',
        HeapInvariant freeList (heapBytes usable) state blocks' ∧
          capacity (alignUp wanted.toNat 8) blocks'.free =
              capacity (alignUp wanted.toNat 8) blocks.free -
                later.count (.kmalloc wanted) ∧
            blocks'.live.length =
              blocks.live.length +
                min (later.count (.kmalloc wanted))
                  (capacity (alignUp wanted.toNat 8) blocks.free) := by
    induction onwards with
    | start =>
        exact ⟨blocks, invariant, by simp, by simp⟩
    | @extend later current next action run last inductionHypothesis =>
        obtain ⟨blocks', invariant', left, handedOut⟩ :=
          inductionHypothesis fun other member =>
            onlyRequests other (List.mem_append_left _ member)
        obtain ⟨blocks'', blockStep, invariant''⟩ :=
          step_refines arena invariant' last
        refine ⟨blocks'', invariant'', ?_⟩
        rw [List.count_append]
        rcases onlyRequests action (by simp) with
            rfl | ⟨address, byte, rfl⟩
        · obtain ⟨left', handedOut'⟩ := capacity_step positive blockStep
          rw [List.count_singleton_self, left', handedOut', left, handedOut]
          omega
        · have notCounted :
              [HeapAction.clientWrite address byte].count (.kmalloc wanted) =
                0 := by
            simp
          cases blockStep with
          | clientWrite =>
              rw [notCounted, left, handedOut]
              exact ⟨rfl, rfl⟩
  obtain ⟨blocks', invariant', -, handedOut⟩ := counted
  rw [invariant'.pointers.length_eq, invariant.pointers.length_eq,
    List.length_map, List.length_map, handedOut]

/-- A region with room for one block of 48 bytes. -/
def smallRegion : E820Map64 where
  baseaddr := 0x100000
  length := 72
  entryType := e820TypeUsable

/-- Of two requests of 24 bytes it serves one, and all its 48 bytes go with it. -/
theorem requests_served_small :
    ∃ state,
      HeapState.Reaches 0x2000 (fun _ => 0) [smallRegion]
          [.kmalloc 24, .kmalloc 24] state ∧
        state.live.length = 1 := by
  have regions : WellFormedRegions 0x2000 [smallRegion] := {
    headFits := by decide
    disjoint := by decide
    below := by decide
    avoidsHead := by decide
    long := by decide }
  have arena := arena_heapBytes regions
  have invariant := heapInvariant_initial (fun _ => 0) regions
  have permitted : ∀ state : HeapState, state.Permits (.kmalloc 24) :=
    fun _ => trivial
  obtain ⟨middle, first⟩ := exists_step arena invariant (permitted _)
  obtain ⟨blocks, -, invariant'⟩ := step_refines arena invariant first
  obtain ⟨state, second⟩ := exists_step arena invariant' (permitted middle)
  have run :
      HeapState.Reaches 0x2000 (fun _ => 0) [smallRegion]
        [.kmalloc 24, .kmalloc 24] state :=
    .extend (.extend .start first) second
  refine ⟨state, run, ?_⟩
  exact
    requests_served 0x2000 (fun _ => 0) [smallRegion] regions []
      [.kmalloc 24, .kmalloc 24] _ state (initialBlocks [smallRegion]) 24
      .start (invariant.freeBlocks arena) (by decide)
      (by simp [OnlyRequests]) run

end Relics.Malloc
