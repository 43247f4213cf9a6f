import Mathlib.Data.List.Sort
import Relics.ExtentTiling
import Relics.MallocSource

namespace Relics.Malloc

/-!
# The allocator on lists of blocks

This is what the allocator does to its blocks once memory is forgotten: the
free list is a list of blocks, allocation takes the first that is large
enough and keeps the rest of it when it can hold a block, and freeing puts a
block back in front of the first higher one and joins neighbours that touch.

The source represents "no previous block" by the null pointer, so its single
joining pass never joins anything to a block at address 0; `coalesceFrom`
keeps that case.
-/

open ExtentTiling

/-- A block: the address of its header and the size recorded there. -/
@[ext] structure Block where
  addr : Nat
  size : Nat
  deriving DecidableEq, Repr

namespace Block

/-- The first address after the payload. -/
def fin (block : Block) : Nat :=
  block.addr + allocHeaderSz + block.size

/-- A block has room for its header. -/
theorem header_le_fin (block : Block) :
    block.addr + 24 ≤ block.fin := by
  simp [fin, allocHeaderSz]

/-- The bytes of the header and the payload. -/
def extent (block : Block) : Extent Nat where
  lo := block.addr
  hi := block.fin
  nonempty := by
    have := block.header_le_fin
    omega

@[simp] theorem extent_lo (block : Block) :
    block.extent.lo = block.addr :=
  rfl

@[simp] theorem extent_hi (block : Block) :
    block.extent.hi = block.fin :=
  rfl

/-- The pointer a client holds to the block. -/
def payload (block : Block) : Nat :=
  block.addr + allocHeaderSz

/-- No block is handed out as `NULL`. -/
theorem payload_ne_zero (block : Block) :
    block.payload ≠ 0 := by
  simp [payload, allocHeaderSz]

/-- The block can be cut behind a payload of the wanted size. -/
def Splittable (block : Block) (wanted : Nat) : Prop :=
  wanted + minAllocSz ≤ block.size

instance (block : Block) (wanted : Nat) :
    Decidable (block.Splittable wanted) :=
  inferInstanceAs (Decidable (_ ≤ _))

/-- The block that is handed out for a request. -/
def taken (block : Block) (wanted : Nat) : Block :=
  if block.Splittable wanted then { block with size := wanted } else block

/-- What stays on the free list when a block serves a request. -/
def remainder (block : Block) (wanted : Nat) : List Block :=
  if block.Splittable wanted then
    [{ addr := block.addr + allocHeaderSz + wanted
       size := block.size - wanted - allocHeaderSz }]
  else
    []

@[simp] theorem taken_addr (block : Block) (wanted : Nat) :
    (block.taken wanted).addr = block.addr := by
  unfold taken
  split <;> rfl

/-- The second block appended to the first. -/
def joined (first second : Block) : Block where
  addr := first.addr
  size := first.size + (allocHeaderSz + second.size)

@[simp] theorem joined_addr (first second : Block) :
    (first.joined second).addr = first.addr :=
  rfl

theorem joined_fin
    {first second : Block}
    (touch : first.fin = second.addr) :
    (first.joined second).fin = second.fin := by
  simp only [fin, joined] at touch ⊢
  omega

end Block

/-- The extents of a list of blocks. -/
def extents (blocks : List Block) : List (Extent Nat) :=
  blocks.map Block.extent

/-- Join later blocks to `last` as long as they touch it. -/
def coalesceFrom : (last : Block) → List Block → List Block
  | last, [] => [last]
  | last, block :: rest =>
      if last.addr ≠ 0 ∧ last.fin = block.addr then
        coalesceFrom (last.joined block) rest
      else
        last :: coalesceFrom block rest

/-- One pass over the free list joining neighbours that touch. -/
def coalesce : List Block → List Block
  | [] => []
  | block :: rest => coalesceFrom block rest

/-- Put a block in front of the first one with a higher address. -/
def putBack (block : Block) (free : List Block) : List Block :=
  free.orderedInsert (fun first second => first.addr < second.addr) block

/-- A list of free blocks and a list of blocks handed out. -/
structure BlockState where
  free : List Block
  live : List Block

/-- What one action does to the free and the live blocks. -/
inductive BlockStep : BlockState → HeapAction → BlockState → Prop where
  | refuse
      {state : BlockState}
      {wanted : UInt64}
      (unserved :
        wanted.toNat = 0 ∨
          ∀ block ∈ state.free, block.size < alignUp wanted.toNat 8) :
      BlockStep state (.kmalloc wanted) state
  | allocate
      {before after live : List Block}
      {block : Block}
      {wanted : UInt64}
      (positive : 0 < wanted.toNat)
      (small : ∀ other ∈ before, other.size < alignUp wanted.toNat 8)
      (large : alignUp wanted.toNat 8 ≤ block.size) :
      BlockStep
        { free := before ++ block :: after, live := live }
        (.kmalloc wanted)
        { free :=
            before ++ (block.remainder (alignUp wanted.toNat 8) ++ after)
          live := block.taken (alignUp wanted.toNat 8) :: live }
  | release
      {free live rest : List Block}
      {block : Block}
      (held : live.Perm (block :: rest)) :
      BlockStep
        { free := free, live := live }
        (.kfree block.payload)
        { free := coalesce (putBack block free), live := rest }
  | clientWrite
      {state : BlockState}
      {address : Nat}
      {byte : UInt8} :
      BlockStep state (.clientWrite address byte) state

/-- The free list in ascending address order. -/
def Ascending (free : List Block) : Prop :=
  free.Pairwise fun first second => first.addr < second.addr

/-- No block of the list ends where another one begins. -/
def NoneTouch (blocks : List Block) : Prop :=
  ∀ first ∈ blocks, ∀ second ∈ blocks, first.fin ≠ second.addr

/-- Each block ends strictly before the next one begins. -/
def Separated (free : List Block) : Prop :=
  (extents free).Pairwise Extent.Before

section Splitting

variable
    {block : Block}
    {wanted : Nat}
    {rest : List Block}
    {region : Set Nat}

/-- The block handed out and what stays tile the bytes of the block found. -/
theorem tiles_split
    (wanted : Nat)
    (tiles : Tiles (extents (block :: rest)) region) :
    Tiles
      (extents (block.taken wanted :: (block.remainder wanted ++ rest)))
      region := by
  by_cases split : block.Splittable wanted
  · have room : wanted + 56 ≤ block.size := split
    simp only [Block.taken, Block.remainder, split, ↓reduceIte]
    apply tiles.cut
    · rfl
    · rfl
    · simp only [Block.extent, Block.fin, allocHeaderSz]
      omega
  · simpa [Block.taken, Block.remainder, split] using tiles

/-- What stays behind begins after the block found and ends with it. -/
theorem mem_remainder
    {other : Block}
    (member : other ∈ block.remainder wanted) :
    block.addr + allocHeaderSz ≤ other.addr ∧ other.fin = block.fin := by
  by_cases split : block.Splittable wanted
  · have room : wanted + 56 ≤ block.size := split
    simp only [Block.remainder, split, ↓reduceIte, List.mem_singleton] at member
    subst other
    simp only [Block.fin, allocHeaderSz]
    omega
  · simp [Block.remainder, split] at member

end Splitting

/-- Either every block is too small or there is a first one large enough. -/
theorem firstFit_cases
    (free : List Block)
    (wanted : Nat) :
    (∀ block ∈ free, block.size < wanted) ∨
      ∃ before block after,
        free = before ++ block :: after ∧
          (∀ other ∈ before, other.size < wanted) ∧
          wanted ≤ block.size := by
  induction free with
  | nil =>
      exact .inl (by simp)
  | cons first rest inductionHypothesis =>
      by_cases large : wanted ≤ first.size
      · exact .inr ⟨[], first, rest, rfl, by simp, large⟩
      · have tooSmall := Nat.not_le.mp large
        rcases inductionHypothesis with
            allSmall | ⟨before, block, after, shape, small, fits⟩
        · exact .inl (List.forall_mem_cons.mpr ⟨tooSmall, allSmall⟩)
        · exact .inr ⟨first :: before, block, after, by simp [shape],
            List.forall_mem_cons.mpr ⟨tooSmall, small⟩, fits⟩

/--
Putting a block back cuts the free list into the lower blocks the search
passes over and a rest that is empty or starts with a higher block.
-/
theorem putBack_shape
    (block : Block)
    (free : List Block) :
    ∃ lower higher,
      free = lower ++ higher ∧
        putBack block free = lower ++ block :: higher ∧
        (∀ other ∈ lower, other.addr ≤ block.addr) ∧
        ∀ first ∈ higher.head?, block.addr < first.addr := by
  induction free with
  | nil =>
      exact ⟨[], [], by simp [putBack]⟩
  | cons first rest inductionHypothesis =>
      by_cases higher : block.addr < first.addr
      · exact ⟨[], first :: rest, by simp [putBack, higher]⟩
      · obtain ⟨lower, later, shape, placed, notHigher, starts⟩ :=
          inductionHypothesis
        refine ⟨first :: lower, later, by simp [shape], ?_, ?_, starts⟩
        · simp only [putBack, List.orderedInsert, higher, ↓reduceIte] at placed ⊢
          rw [placed]
          rfl
        · intro other member
          rcases List.mem_cons.mp member with rfl | inLower
          · exact Nat.not_lt.mp higher
          · exact notHigher other inLower

/-- Putting a block back adds it to the free list. -/
theorem putBack_perm
    (block : Block)
    (free : List Block) :
    (putBack block free).Perm (block :: free) :=
  List.perm_orderedInsert _ block free

section Coalescing

/-- Joining keeps the bytes covered by the free list. -/
theorem tiles_coalesceFrom
    {last : Block}
    {free others : List Block}
    {region : Set Nat}
    (tiles : Tiles (extents (last :: free ++ others)) region) :
    Tiles (extents (coalesceFrom last free ++ others)) region := by
  induction free generalizing last others with
  | nil =>
      simpa [coalesceFrom] using tiles
  | cons block rest inductionHypothesis =>
      by_cases join : last.addr ≠ 0 ∧ last.fin = block.addr
      · simp only [coalesceFrom, join, ne_eq, not_false_eq_true, and_self,
          ↓reduceIte]
        apply inductionHypothesis
        have neighbours :
            Tiles (last.extent :: block.extent :: extents (rest ++ others))
              region :=
          tiles
        apply neighbours.join
        · rfl
        · exact join.2
        · exact (Block.joined_fin join.2).symm
      · simp only [coalesceFrom, join, ↓reduceIte]
        -- set the finished block aside among the others
        have aside : Tiles (extents (block :: rest ++ (last :: others))) region := by
          apply tiles.perm
          exact (List.perm_middle.symm).map Block.extent
        apply (inductionHypothesis aside).perm
        exact (List.perm_middle).map Block.extent

/-- One pass keeps the bytes covered by the free list. -/
theorem tiles_coalesce
    {free others : List Block}
    {region : Set Nat}
    (tiles : Tiles (extents (free ++ others)) region) :
    Tiles (extents (coalesce free ++ others)) region := by
  cases free with
  | nil =>
      exact tiles
  | cons block rest =>
      exact tiles_coalesceFrom tiles

/-- The blocks of a pass begin where blocks of the list began. -/
theorem addr_of_mem_coalesceFrom
    {last : Block}
    {free : List Block}
    {block : Block}
    (member : block ∈ coalesceFrom last free) :
    ∃ origin ∈ last :: free, origin.addr = block.addr := by
  induction free generalizing last with
  | nil =>
      simp only [coalesceFrom, List.mem_singleton] at member
      exact ⟨last, by simp, by rw [member]⟩
  | cons head rest inductionHypothesis =>
      by_cases join : last.addr ≠ 0 ∧ last.fin = head.addr
      · simp only [coalesceFrom, join, ne_eq, not_false_eq_true, and_self,
          ↓reduceIte] at member
        obtain ⟨origin, inList, same⟩ := inductionHypothesis member
        rcases List.mem_cons.mp inList with rfl | inRest
        · exact ⟨last, by simp, same⟩
        · exact ⟨origin, by simp [inRest], same⟩
      · simp only [coalesceFrom, join, ↓reduceIte, List.mem_cons] at member
        rcases member with rfl | later
        · exact ⟨block, by simp, rfl⟩
        · obtain ⟨origin, inList, same⟩ := inductionHypothesis later
          exact ⟨origin, List.mem_cons_of_mem last inList, same⟩

/-- The first block of a pass begins where the list began. -/
theorem head_coalesceFrom
    (last : Block)
    (free : List Block) :
    ∃ first rest,
      coalesceFrom last free = first :: rest ∧ first.addr = last.addr := by
  induction free generalizing last with
  | nil =>
      exact ⟨last, [], rfl, rfl⟩
  | cons block rest inductionHypothesis =>
      by_cases join : last.addr ≠ 0 ∧ last.fin = block.addr
      · simp only [coalesceFrom, join, ne_eq, not_false_eq_true, and_self,
          ↓reduceIte]
        obtain ⟨first, later, shape, same⟩ :=
          inductionHypothesis (last.joined block)
        exact ⟨first, later, shape, same⟩
      · simp only [coalesceFrom, join, ↓reduceIte]
        exact ⟨last, coalesceFrom block rest, rfl, rfl⟩

end Coalescing

end Relics.Malloc
