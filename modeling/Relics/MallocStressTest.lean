import Relics.MallocExhaustion
import Relics.MallocFrame
import Relics.MallocInit
import Relics.StringCopy

namespace Relics.Malloc

/-!
# The allocations of `pmem_map`

After `kmalloc_init` the kernel tries the heap out: it requests 600 and 6
bytes, copies a string to both, releases them again and then requests 24 bytes
1024 times without releasing any.  A request that is not served is a panic.
The first two requests leave no trace, so whether the kernel panics is known
from the usable entries alone.
-/

open ByteMemory ExtentTiling LinkedList LinkedRing MachineWord
open Strings (strcpy stored strcpy_eq)

/-- How `pmem_map` ends: with `panic(MEMORY_ISSUE)` or at its `hlt`. -/
inductive Ending where
  | panic
  | halt
  deriving DecidableEq, Repr

/-- The loop of `pmem_map` that requests 24 bytes in every round. -/
def destroyHeap
    (freeList fuel : Nat) :
    (rounds : Nat) →
    (memory : Memory) →
    Option Ending
  | 0, _ => some .halt
  | rounds + 1, memory =>
      match kmalloc freeList fuel memory 24 with
      | none => none
      | some (memory, m) =>
          if m = 0 then
            some .panic
          else
            destroyHeap freeList fuel rounds memory

/-- `pmem_map` from `kmalloc_init` on; `hello` is where its string lies. -/
def pmemMapTest
    (freeList fuel hello : Nat)
    (memory : Memory) :
    Option Ending :=
  match kmalloc freeList fuel memory 600 with
  | none => none
  | some (memory, s) =>
      if s = 0 then
        some .panic
      else
        match strcpy memory fuel s hello with
        | none => none
        | some memory =>
            match kmalloc freeList fuel memory 6 with
            | none => none
            | some (memory, s2) =>
                if s2 = 0 then
                  some .panic
                else
                  match strcpy memory fuel s2 hello with
                  | none => none
                  | some memory =>
                      match kfree freeList fuel memory s2 with
                      | none => none
                      | some memory =>
                          match kfree freeList fuel memory s with
                          | none => none
                          | some memory =>
                              destroyHeap freeList fuel 1024 memory

section Coalescing

variable
    {block last : Block}
    {wanted : Nat}

/-- A second pass joins nothing. -/
theorem coalesce_coalesceFrom
    (last : Block)
    (rest : List Block) :
    coalesce (coalesceFrom last rest) = coalesceFrom last rest := by
  induction rest generalizing last with
  | nil =>
      rfl
  | cons block rest inductionHypothesis =>
      by_cases join : last.addr ≠ 0 ∧ last.fin = block.addr
      · simp only [coalesceFrom, join, ne_eq, not_false_eq_true, and_self,
          ↓reduceIte]
        exact inductionHypothesis (last.joined block)
      · obtain ⟨first, later, shape, sameAddr⟩ := head_coalesceFrom block rest
        have again := inductionHypothesis block
        rw [shape, coalesce] at again
        simp only [coalesceFrom, join, ↓reduceIte, shape, coalesce, sameAddr,
          again]

/-- Joining three blocks in a row, from either side. -/
theorem Block.joined_assoc (first second third : Block) :
    first.joined (second.joined third) =
      (first.joined second).joined third := by
  ext
  · rfl
  · simp only [Block.joined]
    omega

/-- A block in front of a pass that it touches is joined to its first block. -/
theorem coalesceFrom_coalesceFrom
    (rest : List Block)
    (nonNull : last.addr ≠ 0)
    (touch : last.fin = block.addr) :
    coalesceFrom last (coalesceFrom block rest) =
      coalesceFrom (last.joined block) rest := by
  induction rest generalizing block with
  | nil =>
      simp [coalesceFrom, nonNull, touch]
  | cons next rest inductionHypothesis =>
      have blockNonNull : block.addr ≠ 0 := by
        have := last.header_le_fin
        omega
      have sameFin := Block.joined_fin touch
      by_cases join : block.fin = next.addr
      · have further :
            coalesceFrom last (coalesceFrom (block.joined next) rest) =
              coalesceFrom (last.joined (block.joined next)) rest :=
          inductionHypothesis touch
        simp only [coalesceFrom, blockNonNull, join, nonNull, sameFin,
          Block.joined_addr, ne_eq, not_false_eq_true, and_self, ↓reduceIte,
          further, Block.joined_assoc]
      · have again := coalesce_coalesceFrom next rest
        obtain ⟨first, later, shape, sameAddr⟩ := head_coalesceFrom next rest
        rw [shape, coalesce] at again
        simp only [coalesceFrom, blockNonNull, join, nonNull, touch, sameFin,
          Block.joined_addr, ne_eq, not_false_eq_true, and_self, and_false,
          ↓reduceIte, shape, sameAddr, again]

/-- The two parts of a block that is cut touch. -/
theorem taken_fin
    (split : block.Splittable wanted) :
    (block.taken wanted).fin = (cutOff block wanted).addr := by
  simp [Block.taken, split, Block.fin, cutOff]

/-- The two parts of a block that is cut joined together again. -/
theorem taken_joined_cutOff
    (split : block.Splittable wanted) :
    (block.taken wanted).joined (cutOff block wanted) = block := by
  have room : wanted + 56 ≤ block.size := split
  ext
  · simp
  · simp only [Block.taken, split, ↓reduceIte, Block.joined, cutOff,
      allocHeaderSz]
    omega

/-- What was cut off goes on the free list as one block. -/
theorem remainder_eq
    (split : block.Splittable wanted) :
    block.remainder wanted = [cutOff block wanted] :=
  if_pos split

/-- The front of a block goes before a first block behind it. -/
theorem putBack_taken
    {first : Block}
    {rest : List Block}
    (behind : block.addr < first.addr) :
    putBack (block.taken wanted) (first :: rest) =
      block.taken wanted :: first :: rest := by
  simp [putBack, behind]

/-- What is cut off lies behind the block it was cut off from. -/
theorem addr_lt_cutOff (block : Block) (wanted : Nat) :
    block.addr < (cutOff block wanted).addr := by
  simp only [cutOff, allocHeaderSz]
  omega

/--
Releasing the front of a block whose rest is the first free block undoes the
cut, also if the rest has been joined to later blocks.
-/
theorem release_taken
    (rest : List Block)
    (nonNull : block.addr ≠ 0)
    (split : block.Splittable wanted) :
    coalesce
        (putBack (block.taken wanted)
          (coalesceFrom (cutOff block wanted) rest)) =
      coalesceFrom block rest := by
  obtain ⟨first, later, shape, sameAddr⟩ :=
    head_coalesceFrom (cutOff block wanted) rest
  have behind : block.addr < first.addr :=
    sameAddr ▸ addr_lt_cutOff block wanted
  have nonNullTaken : (block.taken wanted).addr ≠ 0 := by
    rwa [Block.taken_addr]
  have joined :=
    coalesceFrom_coalesceFrom rest nonNullTaken (taken_fin split)
  rw [shape, putBack_taken behind, coalesce, ← shape, joined,
    taken_joined_cutOff split]

/-- The same where the rest has just been cut off. -/
theorem release_taken_cons
    (rest : List Block)
    (nonNull : block.addr ≠ 0)
    (split : block.Splittable wanted) :
    coalesce (putBack (block.taken wanted) (cutOff block wanted :: rest)) =
      coalesceFrom block rest := by
  have join :
      (block.taken wanted).addr ≠ 0 ∧
        (block.taken wanted).fin = (cutOff block wanted).addr :=
    ⟨by rwa [Block.taken_addr], taken_fin split⟩
  rw [putBack_taken (addr_lt_cutOff block wanted), coalesce, coalesceFrom,
    if_pos join, taken_joined_cutOff split]

end Coalescing

section Rounds

variable
    {freeList fuel : Nat}
    {memory : Memory}
    {region : Set Nat}
    {free live : List Block}

/-- A request of the loop is refused or uses up one serving. -/
theorem kmalloc_counted
    (arena : Arena freeList region)
    (tiles : Tiles (extents (free ++ live)) region)
    (represents : Represents freeList memory free live)
    (enough : free.length < fuel) :
    (capacity 24 free = 0 ∧
        kmalloc freeList fuel memory 24 = some (memory, 0)) ∨
      ∃ (result : Memory) (block : Block) (free' live' : List Block),
        kmalloc freeList fuel memory 24 = some (result, block.payload) ∧
          Tiles (extents (free' ++ live')) region ∧
          Represents freeList result free' live' ∧
          free'.length < fuel ∧
          capacity 24 free = capacity 24 free' + 1 := by
  have rounded : alignUp 24 8 = 24 := by
    decide
  rcases firstFit_cases free (alignUp 24 8) with
      allSmall | ⟨before, block, after, rfl, small, large⟩
  · have refused :=
      kmalloc_none arena tiles represents (.inr allSmall) enough
    rw [rounded] at allSmall
    exact .inl ⟨capacity_of_small allSmall, refused⟩
  · have enoughBefore : before.length < fuel := by
      simp only [List.length_append, List.length_cons] at enough
      omega
    obtain ⟨result, served, represents'⟩ :=
      kmalloc_found arena tiles represents (by decide) small large
        enoughBefore
    rw [rounded] at large represents'
    have tiles' :
        Tiles
          (extents
            ((before ++ (block.remainder 24 ++ after)) ++
              block.taken 24 :: live))
          region :=
      tiles_allocate tiles
    have shorter : (block.remainder 24).length ≤ 1 := by
      unfold Block.remainder
      split <;> simp
    have enough' :
        (before ++ (block.remainder 24 ++ after)).length < fuel := by
      simp only [List.length_append, List.length_cons] at enough ⊢
      omega
    have used := servings_remainder large
    have counted :
        capacity 24 (before ++ block :: after) =
          capacity 24 (before ++ (block.remainder 24 ++ after)) + 1 := by
      simp only [capacity_append, capacity_cons, used]
      omega
    exact .inr ⟨result, block, _, _, served, tiles', represents', enough',
      counted⟩

/-- The loop ends in a panic exactly if the free blocks run out. -/
theorem destroyHeap_eq
    (rounds : Nat)
    (arena : Arena freeList region)
    (tiles : Tiles (extents (free ++ live)) region)
    (represents : Represents freeList memory free live)
    (enough : free.length < fuel) :
    destroyHeap freeList fuel rounds memory =
      some (if capacity 24 free < rounds then .panic else .halt) := by
  induction rounds generalizing memory free live with
  | zero =>
      rfl
  | succ rounds inductionHypothesis =>
      rcases kmalloc_counted arena tiles represents enough with
          ⟨noneLeft, refused⟩ |
          ⟨result, block, free', live', served, tiles', represents', enough',
            counted⟩
      · simp [destroyHeap, refused, noneLeft]
      · have later := inductionHypothesis tiles' represents' enough'
        simp only [destroyHeap, served, block.payload_ne_zero, ↓reduceIte,
          later, counted, Nat.add_lt_add_iff_right]

end Rounds

section Strings

variable
    {freeList hello address : Nat}
    {memory result : Memory}
    {region : Set Nat}
    {free live : List Block}
    {block : Block}
    {string : CString}

/-- The string lies neither in the managed bytes nor in the list head. -/
def OffHeap
    (freeList : Nat)
    (region : Set Nat)
    (string : CString)
    (hello : Nat) :
    Prop :=
  ∀ index ≤ string.length,
    hello + index ∉ region ∧
      (hello + index < freeList ∨ freeList + 16 ≤ hello + index)

/-- What lies off the heap lies off its blocks. -/
theorem offBlocks_of_notMem
    {blocks : List Block}
    (tiles : Tiles (extents (free ++ live)) region)
    (among : blocks ⊆ free ++ live)
    (notManaged : address ∉ region)
    (offHead : address < freeList ∨ freeList + 16 ≤ address) :
    OffBlocks freeList blocks address where
  offHead := offHead
  off block member := by
    by_contra inside
    apply notManaged
    apply mem_region_of_mem tiles (among member)
    all_goals omega

/-- A string off the heap is kept where memory changes in the heap only. -/
theorem held_kept
    (held : string.Held memory hello)
    (same :
      ∀ index ≤ string.length,
        result (hello + index) = memory (hello + index)) :
    string.Held result hello := by
  rw [CString.held_iff] at held ⊢
  intro index inside
  rw [same index inside, held index inside]

/-- A string has been copied to an address, without its terminator. -/
structure Written
    (string : CString)
    (memory : Memory)
    (address : Nat)
    (result : Memory) :
    Prop where
  bytes :
    ∀ index < string.length, result (address + index) = string.byte index
  other :
    ∀ other,
      other < address ∨ address + string.length ≤ other →
      result other = memory other

/-- Copying a string to a live block that has room for it. -/
theorem strcpy_live
    (fuel : Nat)
    (arena : Arena freeList region)
    (tiles : Tiles (extents (free ++ block :: live)) region)
    (represents : Represents freeList memory free (block :: live))
    (held : string.Held memory hello)
    (offHeap : OffHeap freeList region string hello)
    (room : string.length < block.size)
    (enough : string.length < fuel) :
    ∃ result,
      strcpy memory fuel block.payload hello = some result ∧
        Represents freeList result free (block :: live) ∧
          string.Held result hello ∧
            Written string memory block.payload result := by
  have blockMember : block ∈ free ++ block :: live := by
    simp
  have managed :
      ∀ address,
        block.payload ≤ address →
        address ≤ block.payload + string.length →
        address ∈ region := by
    intro address lower upper
    simp only [Block.payload, allocHeaderSz] at lower upper
    apply mem_region_of_mem tiles blockMember (by omega)
    simp only [Block.fin, allocHeaderSz]
    omega
  have apart : Strings.Apart block.payload hello string := by
    by_contra overlap
    unfold Strings.Apart at overlap
    have shared := managed (max block.payload hello) (by omega) (by omega)
    have outside :=
      (offHeap (max block.payload hello - hello) (by omega)).1
    rw [Nat.add_sub_of_le (Nat.le_max_right _ _)] at outside
    exact outside shared
  have copied := strcpy_eq held apart fuel
  rw [if_pos enough] at copied
  have unchanged :
      ∀ address,
        address < block.payload ∨ block.fin ≤ address →
        stored memory block.payload string string.length address =
          memory address := by
    intro address outside
    apply if_neg
    simp only [Block.payload, Block.fin, allocHeaderSz] at outside ⊢
    omega
  have written :
      Written string memory block.payload
        (stored memory block.payload string string.length) := {
    bytes := fun index inside => by
      rw [stored, if_pos (by omega), Nat.add_sub_cancel_left]
    other := fun other outside => if_neg (by omega) }
  refine ⟨_, copied, represents.congr ?_ ?_, ?_, written⟩
  · intro address lower upper
    apply unchanged
    have fromHead := apart_from_head arena tiles blockMember
    simp only [Block.payload, allocHeaderSz]
    omega
  · intro other member address lower upper
    apply unchanged
    by_cases same : block = other
    · subst other
      exact .inl upper
    · have apartBlocks := apart_of_ne tiles blockMember member same
      have otherRoom := other.header_le_fin
      simp only [Block.payload, allocHeaderSz]
      omega
  · apply held_kept held
    intro index inside
    apply unchanged
    by_contra within
    apply (offHeap index inside).1
    apply mem_region_of_mem tiles blockMember
    all_goals
      simp only [Block.payload, allocHeaderSz] at within
      omega

end Strings

section Test

variable
    {freeList hello : Nat}
    {memory : Memory}
    {region : Set Nat}
    {block : Block}
    {rest live : List Block}
    {string : CString}

/-- What lies behind the header of a free block lies off all of the headers. -/
theorem offHeaders_inside
    {address : Nat}
    (arena : Arena freeList region)
    (tiles : Tiles (extents (block :: rest ++ live)) region)
    (lower : block.addr + allocHeaderSz ≤ address)
    (upper : address < block.fin) :
    OffHeaders freeList (block :: rest) address where
  offHead := by
    have blockMember : block ∈ block :: rest ++ live := by
      simp
    have := apart_from_head arena tiles blockMember
    omega
  off other member := by
    have blockMember : block ∈ block :: rest ++ live := by
      simp
    by_cases same : block = other
    · subst other
      exact .inr lower
    · have otherMember : other ∈ block :: rest ++ live :=
        List.mem_append_left live member
      have := apart_of_ne tiles blockMember otherMember same
      have := other.header_le_fin
      simp only [allocHeaderSz] at lower ⊢
      omega

/-- A request that the first free block serves, and what it leaves. -/
theorem kmalloc_first
    (wanted fuel : Nat)
    (arena : Arena freeList region)
    (tiles : Tiles (extents (block :: rest ++ live)) region)
    (represents : Represents freeList memory (block :: rest) live)
    (held : string.Held memory hello)
    (offHeap : OffHeap freeList region string hello)
    (positive : 0 < wanted)
    (split : block.Splittable (alignUp wanted 8))
    (enough : rest.length + 1 < fuel) :
    ∃ result,
      kmalloc freeList fuel memory wanted = some (result, block.payload) ∧
        Tiles
          (extents
            (cutOff block (alignUp wanted 8) :: rest ++
              block.taken (alignUp wanted 8) :: live))
          region ∧
          Represents freeList result
              (cutOff block (alignUp wanted 8) :: rest)
              (block.taken (alignUp wanted 8) :: live) ∧
            string.Held result hello ∧
              ∀ address,
                block.addr + allocHeaderSz ≤ address →
                address < block.fin →
                address < (cutOff block (alignUp wanted 8)).addr ∨
                  (cutOff block (alignUp wanted 8)).addr + allocHeaderSz ≤
                    address →
                result address = memory address := by
  have tilesCut : Tiles (extents (([] ++ block :: rest) ++ live)) region :=
    tiles
  have representsCut :
      Represents freeList memory ([] ++ block :: rest) live :=
    represents
  have large : alignUp wanted 8 ≤ block.size :=
    Nat.le_of_add_right_le split
  obtain ⟨result, served, represents'⟩ :=
    kmalloc_found arena tilesCut representsCut positive (by simp) large
      (Nat.lt_of_le_of_lt (Nat.zero_le _) enough)
  have tiles' :
      Tiles
        (extents
          (([] ++ (block.remainder (alignUp wanted 8) ++ rest)) ++
            block.taken (alignUp wanted 8) :: live))
        region :=
    tiles_allocate tilesCut
  rw [remainder_eq split] at tiles' represents'
  refine ⟨result, served, tiles', represents', held_kept held ?_, ?_⟩
  · intro index inside
    obtain ⟨notManaged, offHead⟩ := offHeap index inside
    exact
      kmalloc_eq arena tiles represents enough served
        (offBlocks_of_notMem tiles (List.subset_append_left _ _) notManaged
          offHead)
  · intro address lower upper offCut
    have off := offHeaders_inside arena tiles lower upper
    have offAll :
        OffHeaders freeList
          ([] ++
            block.taken (alignUp wanted 8) ::
              (block.remainder (alignUp wanted 8) ++ rest))
          address := {
      offHead := off.offHead
      off := by
        rw [remainder_eq split]
        intro other member
        simp only [List.nil_append, List.cons_append, List.mem_cons]
          at member
        rcases member with rfl | rfl | inRest
        · rw [Block.taken_addr]
          exact .inr lower
        · exact offCut
        · exact off.off other (List.mem_cons_of_mem _ inRest) }
    exact
      kmalloc_found_eq arena tilesCut representsCut positive (by simp) large
        (Nat.lt_of_le_of_lt (Nat.zero_le _) enough) served offAll

/-- A block of this size stays as large as the request when it is cut. -/
theorem taken_size
    {wanted : Nat}
    (split : block.Splittable wanted) :
    (block.taken wanted).size = wanted := by
  simp [Block.taken, split]

/-- One pass leaves no more blocks than there were. -/
theorem length_coalesceFrom
    (last : Block)
    (rest : List Block) :
    (coalesceFrom last rest).length ≤ rest.length + 1 := by
  induction rest generalizing last with
  | nil =>
      exact le_rfl
  | cons block rest inductionHypothesis =>
      rw [coalesceFrom, List.length_cons]
      split
      · exact (inductionHypothesis _).trans (Nat.le_succ _)
      · exact Nat.succ_le_succ (inductionHypothesis block)

/--
The steps of `pmem_map` before its loop: two blocks are requested, a string is
copied to each, and both are released.
-/
structure TwoBlocks
    (freeList fuel hello : Nat)
    (memory : Memory)
    (s s2 : Nat)
    (served copied served' copied' released' released : Memory) :
    Prop where
  request : kmalloc freeList fuel memory 600 = some (served, s)
  copying : strcpy served fuel s hello = some copied
  request' : kmalloc freeList fuel copied 6 = some (served', s2)
  copying' : strcpy served' fuel s2 hello = some copied'
  releasing' : kfree freeList fuel copied' s2 = some released'
  releasing : kfree freeList fuel released' s = some released

/--
The steps in front of the loop succeed with two blocks that are not null, and
afterwards the free list holds the given blocks.
-/
def Restores
    (freeList fuel hello : Nat)
    (memory : Memory)
    (blocks : List Block) :
    Prop :=
  ∃ s s2 served copied served' copied' released' released,
    s ≠ 0 ∧ s2 ≠ 0 ∧
      TwoBlocks freeList fuel hello memory s s2 served copied served' copied'
        released' released ∧
      Represents freeList released blocks []

/-- A string stands at an address, before the byte that has always been there. -/
structure Copied
    (string : CString)
    (memory : Memory)
    (address : Nat)
    (result : Memory) :
    Prop where
  bytes :
    ∀ index < string.length, result (address + index) = string.byte index
  behind :
    result (address + string.length) = memory (address + string.length)

/--
When the first free block can be cut twice, the two test blocks come from it
and leave no trace: what is left is the free blocks joined in one pass.
-/
theorem exists_twoBlocks
    {fuel : Nat}
    (arena : Arena freeList region)
    (tiles : Tiles (extents (block :: rest)) region)
    (represents : Represents freeList memory (block :: rest) [])
    (held : string.Held memory hello)
    (offHeap : OffHeap freeList region string hello)
    (fiveBytes : string.length = 5)
    (nonNull : block.addr ≠ 0)
    (room : 688 ≤ block.size)
    (enough : rest.length + 5 < fuel) :
    ∃ served copied served' copied' released' released,
      TwoBlocks freeList fuel hello memory block.payload
          (cutOff block 600).payload served copied served' copied' released'
          released ∧
        Copied string memory block.payload copied ∧
        Copied string memory (cutOff block 600).payload copied' ∧
        Tiles (extents (coalesceFrom block rest ++ [])) region ∧
        Represents freeList released (coalesceFrom block rest) [] := by
  have aligned600 : alignUp 600 8 = 600 := by
    decide
  have aligned6 : alignUp 6 8 = 8 := by
    decide
  have split : block.Splittable 600 := by
    simp only [Block.Splittable, minAllocSz, allocHeaderSz]
    omega
  have split' : (cutOff block 600).Splittable 8 := by
    simp only [Block.Splittable, cutOff, minAllocSz, allocHeaderSz]
    omega
  obtain ⟨served, request, tilesServed, representsServed, heldServed,
      keptServed⟩ :=
    kmalloc_first 600 fuel arena (by simpa using tiles) represents held
      offHeap (by decide) (by rwa [aligned600]) (by omega)
  rw [aligned600] at tilesServed representsServed keptServed
  obtain ⟨copied, copying, representsCopied, heldCopied, written⟩ :=
    strcpy_live fuel arena tilesServed representsServed heldServed offHeap
      (by rw [taken_size split]; omega) (by omega)
  obtain ⟨served', request', tilesServed', representsServed', heldServed',
      keptServed'⟩ :=
    kmalloc_first 6 fuel arena tilesServed representsCopied heldCopied offHeap
      (by decide) (by rwa [aligned6]) (by omega)
  rw [aligned6] at tilesServed' representsServed' keptServed'
  obtain ⟨copied', copying', representsCopied', -, written'⟩ :=
    strcpy_live fuel arena tilesServed' representsServed' heldServed' offHeap
      (by rw [taken_size split']; omega) (by omega)
  -- the second block goes back in front of the rest it was cut off from
  have nonNull' : (cutOff block 600).addr ≠ 0 :=
    Nat.ne_of_gt (Nat.lt_of_le_of_lt (Nat.zero_le _)
      (addr_lt_cutOff block 600))
  have enough' :
      (cutOff (cutOff block 600) 8 :: rest).length + 1 < fuel := by
    rw [List.length_cons]
    omega
  obtain ⟨released', releasing', representsReleased'⟩ :=
    kfree_spec arena tilesServed' representsCopied' enough'
  have tilesReleased' := tiles_release tilesServed' (.refl _)
  rw [release_taken_cons rest nonNull' split']
    at representsReleased' tilesReleased'
  -- and so does the first one
  have enough'' :
      (coalesceFrom (cutOff block 600) rest).length + 1 < fuel := by
    have := length_coalesceFrom (cutOff block 600) rest
    omega
  obtain ⟨released, releasing, representsReleased⟩ :=
    kfree_spec arena tilesReleased' representsReleased' enough''
  have tilesReleased := tiles_release tilesReleased' (.refl _)
  rw [release_taken rest nonNull split] at representsReleased tilesReleased
  have payload : (block.taken 600).payload = block.payload := by
    simp [Block.payload]
  have payload' :
      ((cutOff block 600).taken 8).payload = (cutOff block 600).payload := by
    simp [Block.payload]
  rw [payload] at copying releasing written
  rw [payload'] at copying' releasing' written'
  have cut : (cutOff block 600).addr = block.addr + 624 := rfl
  have cut' : (cutOff (cutOff block 600) 8).addr = block.addr + 656 := rfl
  have start : block.payload = block.addr + 24 := rfl
  have start' : (cutOff block 600).payload = block.addr + 648 := rfl
  have fin : block.fin = block.addr + 24 + block.size := rfl
  have fin' : (cutOff block 600).fin = block.addr + 648 + (block.size - 624) := by
    simp only [Block.fin, cutOff, allocHeaderSz]
    omega
  simp only [allocHeaderSz, cut, cut', fin, fin'] at keptServed keptServed'
  have first : Copied string memory block.payload copied := {
    bytes := written.bytes
    behind := by
      rw [written.other _ (.inr (Nat.le_refl _))]
      exact keptServed _ (by omega) (by omega) (by omega) }
  have second :
      Copied string memory (cutOff block 600).payload copied' := {
    bytes := written'.bytes
    behind := by
      rw [written'.other _ (.inr (Nat.le_refl _)),
        keptServed' _ (by omega) (by omega) (by omega),
        written.other _ (by omega)]
      exact keptServed _ (by omega) (by omega) (by omega) }
  exact
    ⟨served, copied, served', copied', released', released,
      ⟨request, copying, request', copying', releasing', releasing⟩,
      first, second, tilesReleased, representsReleased⟩

/-- What the two test blocks leave, and what the rounds then find. -/
theorem pmemMapTest_eq
    {fuel : Nat}
    (arena : Arena freeList region)
    (tiles : Tiles (extents (block :: rest)) region)
    (represents : Represents freeList memory (block :: rest) [])
    (held : string.Held memory hello)
    (offHeap : OffHeap freeList region string hello)
    (fiveBytes : string.length = 5)
    (nonNull : block.addr ≠ 0)
    (room : 688 ≤ block.size)
    (enough : rest.length + 5 < fuel) :
    Restores freeList fuel hello memory (coalesceFrom block rest) ∧
      pmemMapTest freeList fuel hello memory =
        some
          (if capacity 24 (coalesceFrom block rest) < 1024 then
            .panic
          else
            .halt) := by
  obtain ⟨_, _, _, _, _, released, steps, -, -, tilesReleased,
      representsReleased⟩ :=
    exists_twoBlocks arena tiles represents held offHeap fiveBytes nonNull
      room enough
  have enoughRounds : (coalesceFrom block rest).length < fuel := by
    have := length_coalesceFrom block rest
    omega
  have rounds :=
    destroyHeap_eq 1024 arena tilesReleased representsReleased enoughRounds
  constructor
  · exact
      ⟨_, _, _, _, _, _, _, released, block.payload_ne_zero,
        (cutOff block 600).payload_ne_zero, steps, representsReleased⟩
  · simp only [pmemMapTest, steps.request, block.payload_ne_zero, ↓reduceIte,
      steps.copying, steps.request', (cutOff block 600).payload_ne_zero,
      steps.copying', steps.releasing', steps.releasing, rounds]

end Test

section Boot

variable
    {freeList : Nat}
    {e820Map : List E820Map64}
    {entry : E820Map64}

/-- The last usable entry gives the first free block. -/
theorem initialBlocks_append
    {usable others : List E820Map64}
    (shape : usable = others ++ [entry]) :
    initialBlocks usable = regionBlock entry :: initialBlocks others := by
  simp [initialBlocks, shape]

/-- What `kmalloc_init` leaves, with the block of the last usable entry. -/
theorem exists_firstBlock
    (memory : Memory)
    (regions : WellFormedRegions freeList (pmemMap e820Map))
    (last : (pmemMap e820Map).getLast? = some entry) :
    ∃ rest,
      initialBlocks (pmemMap e820Map) = regionBlock entry :: rest ∧
        Tiles (extents (regionBlock entry :: rest))
          (heapBytes (pmemMap e820Map)) ∧
          Represents freeList (heapMemory freeList memory e820Map)
            (regionBlock entry :: rest) [] := by
  obtain ⟨others, shape⟩ := List.getLast?_eq_some_iff.mp last
  have blocks := initialBlocks_append shape
  have invariant := heapInvariant_initial memory regions
  have tiles := invariant.tiles
  have represents := invariant.represents
  rw [List.append_nil] at tiles
  rw [blocks] at tiles represents
  exact ⟨initialBlocks others, blocks, tiles, represents⟩

/-- An entry with room for the two test blocks gives a block with room. -/
theorem room_regionBlock
    (room : headerAddr entry + 712 ≤ entry.limit) :
    688 ≤ (regionBlock entry).size := by
  simp only [regionBlock, allocHeaderSz]
  omega

end Boot

/--
If the last usable entry has room for the two test blocks, its header is not
at address 0 and the string lies off the heap, the two blocks are served and
released again, which leaves the free blocks that `kmalloc_init` makes, joined
in one pass.  Then `pmem_map` ends, and it ends in a panic exactly if these
blocks have a capacity of less than 1024 requests of 24 bytes.
-/
theorem pmemMap_ends
    (freeList hello : Nat)
    (memory : Memory)
    (e820Map : List E820Map64)
    (entry : E820Map64)
    (regions : WellFormedRegions freeList (pmemMap e820Map))
    (last : (pmemMap e820Map).getLast? = some entry)
    (nonNull : headerAddr entry ≠ 0)
    (room : headerAddr entry + 712 ≤ entry.limit)
    (held : Strings.hello.Held (heapMemory freeList memory e820Map) hello)
    (offHeap :
      OffHeap freeList (heapBytes (pmemMap e820Map)) Strings.hello hello) :
    Represents freeList (heapMemory freeList memory e820Map)
        (initialBlocks (pmemMap e820Map)) [] ∧
      ∃ bound,
        ∀ fuel,
          bound ≤ fuel →
          Restores freeList fuel hello (heapMemory freeList memory e820Map)
              (coalesce (initialBlocks (pmemMap e820Map))) ∧
            pmemMapTest freeList fuel hello
                (heapMemory freeList memory e820Map) =
              some
                (if capacity 24 (coalesce (initialBlocks (pmemMap e820Map))) <
                    1024 then
                  .panic
                else
                  .halt) := by
  have arena := arena_heapBytes regions
  obtain ⟨rest, blocks, tiles, represents⟩ :=
    exists_firstBlock memory regions last
  rw [blocks]
  refine ⟨represents, rest.length + 6, ?_⟩
  intro fuel enough
  exact
    pmemMapTest_eq arena tiles represents held offHeap rfl nonNull
      (room_regionBlock room) enough

/-- A map with 64 KiB of usable memory behind a reserved entry. -/
def stressMap : List E820Map64 :=
  [ { baseaddr := 0xf0000, length := 0x10000, entryType := 2 },
    { baseaddr := 0x100000, length := 0x10000, entryType := e820TypeUsable } ]

theorem regions_stressMap : WellFormedRegions 0x2000 (pmemMap stressMap) where
  headFits := by decide
  disjoint := by decide
  below := by decide
  avoidsHead := by decide
  long := by decide

/-- The string lies below the heap that this map gives. -/
theorem held_stressMap :
    Strings.hello.Held
      (heapMemory 0x2000 (fun address => Strings.hello.byte (address - 0x3000))
        stressMap)
      0x3000 := by
  simp only [CString.Held, Strings.hello, Spells]
  decide +kernel

theorem offHeap_stressMap :
    OffHeap 0x2000 (heapBytes (pmemMap stressMap)) Strings.hello 0x3000 := by
  intro index inside
  have short : index ≤ 5 := inside
  refine ⟨?_, by omega⟩
  rintro ⟨entry, member, lower, -⟩
  have usable : pmemMap stressMap = [stressMap[1]] :=
    rfl
  have only : entry = stressMap[1] :=
    List.mem_singleton.mp (usable ▸ member)
  have base : headerAddr stressMap[1] = 0x100000 := by
    decide
  rw [only, base] at lower
  omega

/-- With this map `pmem_map` reaches its end. -/
theorem pmemMap_ends_halt :
    ∃ bound,
      ∀ fuel,
        bound ≤ fuel →
        Restores 0x2000 fuel 0x3000
            (heapMemory 0x2000
              (fun address => Strings.hello.byte (address - 0x3000)) stressMap)
            (coalesce (initialBlocks (pmemMap stressMap))) ∧
          pmemMapTest 0x2000 fuel 0x3000
              (heapMemory 0x2000
                (fun address => Strings.hello.byte (address - 0x3000))
                stressMap) =
            some .halt :=
  (pmemMap_ends 0x2000 0x3000
    (fun address => Strings.hello.byte (address - 0x3000)) stressMap
    stressMap[1] regions_stressMap rfl (by decide) (by decide)
    held_stressMap offHeap_stressMap).2

end Relics.Malloc
