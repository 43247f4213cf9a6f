import Relics.E820Map
import Relics.LabelledRun
import Relics.LinkedListSource
import Relics.MachineWord

namespace Relics.Malloc

/-!
# The allocator of `malloc_freelist.c`

The functions below follow the source on the bytes of the managed memory:
the headers and the links of the free list live inside that memory.  The
address of the static list head `free_list` is a parameter.  Every list loop
takes a number of iterations it may run; `none` means that it is still
running after that many.
-/

open ByteMemory LabelledRun LinkedList MachineWord

/-- `ALLOC_HEADER_SZ`, the offset of `block` in `alloc_node_t` -/
def allocHeaderSz : Nat := 24

/-- `MIN_ALLOC_SZ` -/
def minAllocSz : Nat := allocHeaderSz + 32

/-- `align_up(num, align)` -/
def alignUp (num align : Nat) : Nat :=
  add64 num (align - 1) &&& not64 (align - 1)

/-- `node->size` -/
def size (memory : Memory) (node : Nat) : Nat :=
  load memory (node + 16) 8

/-- `node->size = value` -/
def setSize (memory : Memory) (node value : Nat) : Memory :=
  store memory (node + 16) 8 value

/-- `&node->block`, the pointer handed to the client -/
def blockOf (node : Nat) : Nat :=
  add64 node allocHeaderSz

/-- `container_of(ptr, alloc_node_t, block)` -/
def containerOf (ptr : Nat) : Nat :=
  sub64 ptr allocHeaderSz

/-- The loop of `defrag_free_list` from a block and the one after it. -/
def defragLoop
    (freeList : Nat) :
    (fuel : Nat) →
    (memory : Memory) →
    (block temp lastBlock : Nat) →
    Option Memory
  | 0, _, _, _, _ => none
  | fuel + 1, memory, block, temp, lastBlock =>
      if block = freeList then
        some memory
      else if lastBlock ≠ 0 ∧
          add64 (blockOf lastBlock) (size memory lastBlock) = block then
        let grown :=
          add64 (size memory lastBlock)
            (add64 allocHeaderSz (size memory block))
        let memory := setSize memory lastBlock grown
        let memory := listDel memory block
        defragLoop freeList fuel memory temp (next memory temp) lastBlock
      else
        defragLoop freeList fuel memory temp (next memory temp) block

/-- `defrag_free_list` -/
def defragFreeList
    (freeList fuel : Nat)
    (memory : Memory) :
    Option Memory :=
  let block := next memory freeList
  defragLoop freeList fuel memory block (next memory block) 0

/--
The search loop of `kmalloc` from a block: the pointer to hand out, or `NULL`
when the end of the list is reached, and the block it belongs to.
-/
def findBlock
    (freeList : Nat)
    (memory : Memory)
    (wanted : Nat) :
    (fuel foundBlock : Nat) →
    Option (Nat × Nat)
  | 0, _ => none
  | fuel + 1, foundBlock =>
      if foundBlock = freeList then
        some (0, foundBlock)
      else if size memory foundBlock ≥ wanted then
        some (blockOf foundBlock, foundBlock)
      else
        findBlock freeList memory wanted fuel (next memory foundBlock)

/-- The branch of `kmalloc` that cuts the rest of a large block off. -/
def splitBlock
    (memory : Memory)
    (foundBlock wanted : Nat) :
    Memory :=
  if sub64 (size memory foundBlock) wanted ≥ minAllocSz then
    let newBlock := add64 (blockOf foundBlock) wanted
    let memory :=
      setSize memory newBlock
        (sub64 (sub64 (size memory foundBlock) wanted) allocHeaderSz)
    let memory := setSize memory foundBlock wanted
    listAdd_ memory newBlock foundBlock (next memory foundBlock)
  else
    memory

/-- `kmalloc` -/
def kmalloc
    (freeList fuel : Nat)
    (memory : Memory)
    (wanted : Nat) :
    Option (Memory × Nat) :=
  if wanted > 0 then
    let wanted := alignUp wanted 8
    match findBlock freeList memory wanted fuel (next memory freeList) with
    | none => none
    | some (ptr, foundBlock) =>
        if ptr ≠ 0 then
          some (listDel (splitBlock memory foundBlock wanted) foundBlock, ptr)
        else
          some (memory, ptr)
  else
    some (memory, 0)

/-- The loop of `kfree` that puts a block back before the first higher one. -/
def insertBlock
    (freeList : Nat)
    (memory : Memory)
    (currentBlock : Nat) :
    (fuel freeBlock : Nat) →
    Option Memory
  | 0, _ => none
  | fuel + 1, freeBlock =>
      if freeBlock = freeList then
        some (listAddTail memory currentBlock freeList)
      else if freeBlock > currentBlock then
        some (listAdd_ memory currentBlock (prev memory freeBlock) freeBlock)
      else
        insertBlock freeList memory currentBlock fuel (next memory freeBlock)

/-- `kfree` -/
def kfree
    (freeList fuel : Nat)
    (memory : Memory)
    (ptr : Nat) :
    Option Memory :=
  if ptr ≠ 0 then
    let currentBlock := containerOf ptr
    match
      insertBlock freeList memory currentBlock fuel (next memory freeList) with
    | none => none
    | some memory => defragFreeList freeList fuel memory
  else
    some memory

/-- `malloc_addblock` -/
def mallocAddblock
    (freeList : Nat)
    (memory : Memory)
    (addr length : Nat) :
    Memory :=
  let newMemoryBlock := alignUp addr 8
  let memory :=
    setSize memory newMemoryBlock
      (sub64 (sub64 (add64 addr length) newMemoryBlock) allocHeaderSz)
  listAdd memory newMemoryBlock freeList

/-- `kmalloc_init` -/
def kmallocInit
    (freeList : Nat)
    (memory : Memory)
    (usable : List E820Map64) :
    Memory :=
  usable.foldl
    (fun memory entry =>
      mallocAddblock freeList memory
        entry.baseaddr.toNat entry.length.toNat)
    memory

/-- The managed memory and the pointers the clients hold. -/
structure HeapState where
  memory : Memory
  live : List Nat

/-- What a client of the allocator can do. -/
inductive HeapAction where
  | kmalloc (wanted : UInt64)
  | kfree (ptr : Nat)
  | clientWrite (address : Nat) (byte : UInt8)
  deriving Repr, DecidableEq

namespace HeapState

/-- The address lies in the `size` bytes of a block some client holds. -/
def ClientOwns (state : HeapState) (address : Nat) : Prop :=
  ∃ ptr ∈ state.live,
    ptr ≤ address ∧
      address < ptr + size state.memory (containerOf ptr)

instance (state : HeapState) (address : Nat) :
    Decidable (state.ClientOwns address) :=
  inferInstanceAs (Decidable (∃ ptr ∈ state.live, _))

/--
One action, with a bound on the iterations of each list loop.  Clients free
only pointers they hold and write only inside their blocks.
-/
def step?
    (freeList fuel : Nat)
    (state : HeapState) :
    HeapAction →
    Option HeapState
  | .kmalloc wanted =>
      match kmalloc freeList fuel state.memory wanted.toNat with
      | none => none
      | some (memory, ptr) =>
          some {
            memory := memory
            live := if ptr ≠ 0 then ptr :: state.live else state.live
          }
  | .kfree ptr =>
      if ptr ∈ state.live then
        match kfree freeList fuel state.memory ptr with
        | none => none
        | some memory =>
            some { memory := memory, live := state.live.erase ptr }
      else
        none
  | .clientWrite address byte =>
      if state.ClientOwns address then
        some { state with memory := setByte state.memory address byte }
      else
        none

/-- One action whose loops all end. -/
def Step
    (freeList : Nat)
    (state : HeapState)
    (action : HeapAction)
    (next : HeapState) :
    Prop :=
  ∃ fuel, step? freeList fuel state action = some next

/-- The state `kmalloc_init` leaves, from any contents of memory. -/
def initial
    (freeList : Nat)
    (memory : Memory)
    (usable : List E820Map64) :
    HeapState where
  memory := kmallocInit freeList (listInit memory freeList) usable
  live := []

/-- The states reached from `kmalloc_init` by a list of actions. -/
abbrev Reaches
    (freeList : Nat)
    (memory : Memory)
    (usable : List E820Map64) :
    List HeapAction → HeapState → Prop :=
  Run (Step freeList) (initial freeList memory usable)

/-- A list of actions, with a bound on the iterations of each list loop. -/
def run?
    (freeList fuel : Nat)
    (state : HeapState) :
    List HeapAction →
    Option HeapState
  | [] => some state
  | action :: rest =>
      match step? freeList fuel state action with
      | none => none
      | some next => run? freeList fuel next rest

/-- What can be run from a reached state is reached. -/
theorem reaches_of_run?
    {freeList fuel : Nat}
    {memory : Memory}
    {usable : List E820Map64}
    {taken actions : List HeapAction}
    {state final : HeapState}
    (reaches : Reaches freeList memory usable taken state)
    (ran : run? freeList fuel state actions = some final) :
    Reaches freeList memory usable (taken ++ actions) final := by
  induction actions generalizing taken state with
  | nil =>
      obtain rfl : state = final := Option.some.inj ran
      simpa using reaches
  | cons action rest inductionHypothesis =>
      cases stepped : step? freeList fuel state action with
      | none =>
          simp [run?, stepped] at ran
      | some next =>
          simp only [run?, stepped] at ran
          simpa using
            inductionHypothesis (reaches.extend ⟨fuel, stepped⟩) ran

/-- A state computed from the initial one is reached. -/
theorem exists_reached
    {freeList fuel : Nat}
    {memory : Memory}
    {usable : List E820Map64}
    {actions : List HeapAction}
    (property : HeapState → Bool)
    (ran :
      (run? freeList fuel (initial freeList memory usable) actions).any
        property = true) :
    ∃ state,
      Reaches freeList memory usable actions state ∧
        property state = true := by
  obtain ⟨state, ended, holds⟩ := (Option.any_eq_true _ _).mp ran
  exact ⟨state, reaches_of_run? .start ended, holds⟩

end HeapState

end Relics.Malloc
