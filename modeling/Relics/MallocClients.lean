import Relics.MallocFrame
import Relics.MallocRequest
import Relics.StringOrder

namespace Relics.Malloc

/-!
# What the clients see of the allocator

To its clients the allocator is a store of objects that do not overlap: a
request adds an object or none, a release takes one away, and a write changes
one byte of one object.  No object changes in any other way, although the
allocator keeps its headers and its free list between the objects.
-/

open ByteMemory ExtentTiling LabelledRun LinkedList LinkedRing MachineWord
open Strings (bytesAt bytesAt_congr)

/-- A block as the client that holds it sees it: its pointer and its bytes. -/
@[ext] structure Object where
  ptr : Nat
  bytes : List UInt8
  deriving DecidableEq, Repr

namespace Object

/-- The first address after the object. -/
def fin (object : Object) : Nat :=
  object.ptr + object.bytes.length

/-- The address is one of the object's. -/
def Owns (object : Object) (address : Nat) : Prop :=
  object.ptr ≤ address ∧ address < object.fin

instance (object : Object) (address : Nat) :
    Decidable (object.Owns address) :=
  inferInstanceAs (Decidable (_ ∧ _))

/-- The two objects share no address. -/
def Apart (first second : Object) : Prop :=
  first.fin ≤ second.ptr ∨ second.fin ≤ first.ptr

/-- A byte is written, which changes the object if the address is its own. -/
def write
    (object : Object)
    (address : Nat)
    (byte : UInt8) :
    Object :=
  if object.Owns address then
    { object with bytes := object.bytes.set (address - object.ptr) byte }
  else
    object

/-- What an action other than the release of the object does to it. -/
def replay (object : Object) : HeapAction → Object
  | .clientWrite address byte => object.write address byte
  | _ => object

@[simp] theorem write_ptr
    (object : Object)
    (address : Nat)
    (byte : UInt8) :
    (object.write address byte).ptr = object.ptr := by
  unfold write
  split <;> rfl

@[simp] theorem replay_ptr
    (object : Object)
    (action : HeapAction) :
    (object.replay action).ptr = object.ptr := by
  cases action <;> simp [replay]

end Object

/-- What one action does to a store of objects. -/
inductive ObjectStep : List Object → HeapAction → List Object → Prop where
  | refuse
      {objects : List Object}
      {wanted : UInt64} :
      ObjectStep objects (.kmalloc wanted) objects
  | allocate
      {objects : List Object}
      {object : Object}
      {wanted : UInt64}
      (placed : object.ptr ≠ 0 ∧ object.ptr % 8 = 0)
      (enough : alignUp wanted.toNat 8 ≤ object.bytes.length)
      (notMuchMore :
        object.bytes.length < alignUp wanted.toNat 8 + minAllocSz)
      (apart : ∀ other ∈ objects, object.Apart other) :
      ObjectStep objects (.kmalloc wanted) (object :: objects)
  | release
      {before after : List Object}
      {object : Object} :
      ObjectStep (before ++ object :: after) (.kfree object.ptr)
        (before ++ after)
  | clientWrite
      {objects : List Object}
      {address : Nat}
      {byte : UInt8}
      (owned : ∃ object ∈ objects, object.Owns address) :
      ObjectStep objects (.clientWrite address byte)
        (objects.map fun object => object.write address byte)

/-- A write moves no object. -/
theorem Object.apart_write
    {first second : Object}
    (apart : first.Apart second)
    (address : Nat)
    (byte : UInt8) :
    (first.write address byte).Apart (second.write address byte) := by
  have sameFin : ∀ object : Object, (object.write address byte).fin = object.fin := by
    intro object
    simp only [Object.fin, Object.write]
    split <;> simp
  simpa [Object.Apart, sameFin] using apart

/-- The objects of a store never overlap, so that a write changes only one. -/
theorem objects_apart
    {actions : List HeapAction}
    {held : List Object}
    (run : Run ObjectStep [] actions held) :
    held.Pairwise Object.Apart := by
  apply run.preserves fun held => held.Pairwise Object.Apart
  · exact .nil
  · intro held action held' apart step
    cases step with
    | refuse =>
        exact apart
    | allocate _ _ _ fresh =>
        exact List.pairwise_cons.mpr ⟨fresh, apart⟩
    | @release before after object =>
        exact apart.sublist
          ((List.sublist_cons_self object after).append_left before)
    | clientWrite _ =>
        apply List.pairwise_map.mpr
        exact apart.imp fun both => Object.apart_write both _ _

/-- The block behind a pointer some client holds. -/
def objectAt (memory : Memory) (ptr : Nat) : Object where
  ptr := ptr
  bytes := bytesAt memory ptr (size memory (containerOf ptr))

/-- The blocks behind the pointers the clients hold. -/
def objects (state : HeapState) : List Object :=
  state.live.map (objectAt state.memory)

/-- An object that is not released is only changed by writes to it. -/
theorem ObjectStep.replay_mem
    {held held' : List Object}
    {action : HeapAction}
    {object : Object}
    (step : ObjectStep held action held')
    (member : object ∈ held)
    (kept : action ≠ .kfree object.ptr) :
    object.replay action ∈ held' := by
  cases step with
  | refuse =>
      exact member
  | allocate _ _ _ _ =>
      exact List.mem_cons_of_mem _ member
  | @release before after released =>
      have other : object ≠ released := by
        rintro rfl
        exact kept rfl
      simp only [List.mem_append, List.mem_cons, other, false_or] at member
      exact List.mem_append.mpr member
  | clientWrite _ =>
      exact List.mem_map_of_mem member

section Bytes

variable
    {memory memory' : Memory}

/-- Writing one byte changes the bytes read at that place only. -/
theorem bytesAt_setByte
    (memory : Memory)
    (start count address : Nat)
    (byte : UInt8) :
    bytesAt (setByte memory address byte) start count =
      if start ≤ address ∧ address < start + count then
        (bytesAt memory start count).set (address - start) byte
      else
        bytesAt memory start count := by
  split_ifs with inside
  · apply List.ext_getElem
    · simp
    · intro i inFirst inSecond
      by_cases here : address = start + i
      · subst here
        simp
      · have elsewhere : start + i ≠ address := Ne.symm here
        have otherIndex : address - start ≠ i := by omega
        simp [setByte_other elsewhere, otherIndex]
  · apply bytesAt_congr
    intro other lower upper
    apply setByte_other
    rintro rfl
    exact inside ⟨lower, upper⟩

/-- A write that keeps the recorded size writes to the object. -/
theorem objectAt_setByte
    {ptr address : Nat}
    {byte : UInt8}
    (sameSize :
      size (setByte memory address byte) (containerOf ptr) =
        size memory (containerOf ptr)) :
    objectAt (setByte memory address byte) ptr =
      (objectAt memory ptr).write address byte := by
  rw [objectAt, sameSize, bytesAt_setByte]
  simp only [Object.write, Object.Owns, Object.fin, objectAt,
    Strings.length_bytesAt]
  split_ifs <;> rfl

/-- An object keeps its bytes where its size and its bytes are kept. -/
theorem objectAt_congr
    {ptr : Nat}
    (sameSize :
      size memory' (containerOf ptr) = size memory (containerOf ptr))
    (sameBytes :
      ∀ address,
        ptr ≤ address →
        address < ptr + size memory (containerOf ptr) →
        memory' address = memory address) :
    objectAt memory' ptr = objectAt memory ptr := by
  rw [objectAt, sameSize, bytesAt_congr sameBytes]
  rfl

end Bytes

section Refinement

variable
    {freeList : Nat}
    {region : Set Nat}
    {state next : HeapState}
    {blocks : BlockState}
    {free live : List Block}
    {block : Block}

/-- The object behind the pointer of a managed block. -/
theorem objectAt_payload
    {memory : Memory}
    (arena : Arena freeList region)
    (tiles : Tiles (extents (free ++ live)) region)
    (represents : Represents freeList memory free live)
    (member : block ∈ free ++ live) :
    objectAt memory block.payload =
      { ptr := block.payload
        bytes := bytesAt memory block.payload block.size } := by
  rw [objectAt, containerOf_payload_of_mem arena tiles member,
    represents.sizes block member]

/-- A byte of a payload lies off every other block. -/
theorem offBlocks_of_payload
    {address : Nat}
    (arena : Arena freeList region)
    (tiles : Tiles (extents (block :: free ++ live)) region)
    (lower : block.payload ≤ address)
    (upper : address < block.fin) :
    OffBlocks freeList free address where
  offHead := by
    have := apart_from_head arena tiles (List.mem_cons_self)
    simp only [Block.payload, allocHeaderSz] at lower
    omega
  off other member := by
    have apart := (List.pairwise_cons.mp tiles.apart).1 other.extent
      (List.mem_map_of_mem (List.mem_append_left _ member))
    simp only [Extent.Apart, Block.extent_lo, Block.extent_hi] at apart
    simp only [Block.payload, allocHeaderSz] at lower
    omega

/-- The blocks with a live one moved to the front. -/
theorem perm_liveFirst
    (member : block ∈ live) :
    (free ++ live).Perm (block :: free ++ live.erase block) :=
  ((List.perm_cons_erase member).append_left free).trans List.perm_middle

/--
An object stays as it is while memory changes in blocks of the free list and
in the list head only, and the sizes are those of the blocks.
-/
theorem objectAt_kept
    {memory memory' : Memory}
    {free' live' : List Block}
    (arena : Arena freeList region)
    (tiles : Tiles (extents (free ++ live)) region)
    (represents : Represents freeList memory free live)
    (represents' : Represents freeList memory' free' live')
    (member : block ∈ live)
    (stays : block ∈ live')
    (unchanged :
      ∀ address,
        block.payload ≤ address →
        address < block.fin →
        memory' address = memory address) :
    objectAt memory' block.payload = objectAt memory block.payload := by
  have header : containerOf block.payload = block.addr :=
    containerOf_payload_of_mem arena tiles (List.mem_append_right _ member)
  have before := represents.sizes block (List.mem_append_right _ member)
  have after := represents'.sizes block (List.mem_append_right _ stays)
  apply objectAt_congr
  · rw [header, before, after]
  · rw [header, before]
    exact unchanged

/-- The blocks with two live ones moved to the front. -/
theorem perm_twoLiveFirst
    {other : Block}
    (member : block ∈ live)
    (stays : other ∈ live.erase block) :
    (free ++ live).Perm
      (other :: (block :: free) ++ (live.erase block).erase other) := by
  have both :
      (free ++ live).Perm
        (free ++ block :: other :: (live.erase block).erase other) :=
    ((List.perm_cons_erase member).trans
      ((List.perm_cons_erase stays).cons block)).append_left free
  have first := both.trans List.perm_middle
  exact first.trans
    ((List.perm_middle.cons block).trans (.swap other block _))

variable
    (arena : Arena freeList region)
    (invariant : HeapInvariant freeList region state blocks)

include arena invariant

/-- No pointer is handed out twice. -/
theorem HeapInvariant.live_nodup :
    state.live.Nodup := by
  have headers := (headersApart_of_tiles arena invariant.tiles).apart
  rw [List.map_append] at headers
  have apart := (List.pairwise_append.mp headers).2.1
  rw [List.pairwise_map] at apart
  rw [invariant.pointers.nodup_iff, List.Nodup, List.pairwise_map]
  apply apart.imp
  intro first second headersApart samePayload
  simp only [Block.payload, allocHeaderSz] at samePayload
  omega

omit arena in
/-- Objects that a change of memory keeps stay the same list of objects. -/
theorem objects_kept
    {memory' : Memory}
    {pointers : List Nat}
    (held : pointers ⊆ state.live)
    (kept :
      ∀ block ∈ blocks.live,
        block.payload ∈ pointers →
        objectAt memory' block.payload =
          objectAt state.memory block.payload) :
    pointers.map (objectAt memory') = pointers.map (objectAt state.memory) := by
  apply List.map_congr_left
  intro ptr member
  obtain ⟨block, inLive, rfl⟩ := invariant.block_of_pointer (held member)
  exact kept block inLive member

/-- A request adds an object apart from all others or leaves all as they are. -/
theorem objectStep_kmalloc
    {wanted : UInt64}
    (step : HeapState.Step freeList state (.kmalloc wanted) next) :
    ObjectStep (objects state) (.kmalloc wanted) (objects next) := by
  obtain ⟨fuel, ended⟩ := step
  have longer := step?_more ended (Nat.le_add_right fuel (blocks.free.length + 1))
  have enough : blocks.free.length < fuel + (blocks.free.length + 1) := by
    omega
  generalize fuel + (blocks.free.length + 1) = more at longer enough
  by_cases unserved :
      wanted.toNat = 0 ∨
        ∀ block ∈ blocks.free, block.size < alignUp wanted.toNat 8
  · have refused :=
      kmalloc_none arena invariant.tiles invariant.represents unserved enough
    have same : next = state := by
      simpa [HeapState.step?, refused] using longer.symm
    rw [same]
    exact .refuse
  · obtain ⟨positive, someLarge⟩ := not_or.mp unserved
    obtain ⟨before, block, after, shape, small, large⟩ :=
      (firstFit_cases blocks.free (alignUp wanted.toNat 8)).resolve_left
        someLarge
    obtain ⟨free, live⟩ := blocks
    obtain rfl : free = before ++ block :: after := shape
    have enoughBefore : before.length < more := by
      simp only [List.length_append, List.length_cons] at enough
      omega
    obtain ⟨result, served, represents⟩ :=
      kmalloc_found arena invariant.tiles invariant.represents
        (Nat.pos_of_ne_zero positive) small large enoughBefore
    have nonNull := block.payload_ne_zero
    have same :
        next = { memory := result, live := block.payload :: state.live } := by
      simpa [HeapState.step?, served, nonNull] using longer.symm
    have tiles' :
        Tiles
          (extents
            ((before ++ (block.remainder (alignUp wanted.toNat 8) ++ after)) ++
              block.taken (alignUp wanted.toNat 8) :: live))
          region :=
      tiles_allocate invariant.tiles
    have payload :
        (block.taken (alignUp wanted.toNat 8)).payload = block.payload := by
      simp [Block.payload]
    have handedOut :=
      objectAt_payload arena tiles' represents
        (List.mem_append_right _ List.mem_cons_self)
    rw [payload] at handedOut
    have kept :
        state.live.map (objectAt result) =
          state.live.map (objectAt state.memory) := by
      apply objects_kept invariant (List.Subset.refl _)
      intro other member _
      apply objectAt_kept arena invariant.tiles invariant.represents represents
        member (List.mem_cons_of_mem _ member)
      intro address lower upper
      apply kmalloc_eq arena invariant.tiles invariant.represents enough served
      have front :=
        invariant.tiles.perm ((perm_liveFirst member).map Block.extent)
      exact offBlocks_of_payload arena front lower upper
    have objectsShape :
        objects next =
          objectAt result block.payload :: objects state := by
      rw [same, objects, List.map_cons, kept, objects]
    rw [objectsShape, handedOut]
    have sizes := size_taken large
    apply ObjectStep.allocate
    · refine ⟨nonNull, ?_⟩
      have aligned := invariant.aligned block (by simp)
      simp only [Block.payload, allocHeaderSz]
      omega
    · rw [Strings.length_bytesAt]
      exact sizes.1
    · rw [Strings.length_bytesAt]
      exact sizes.2
    · intro object member
      obtain ⟨ptr, held, rfl⟩ := List.mem_map.mp member
      obtain ⟨other, inLive, rfl⟩ := invariant.block_of_pointer held
      rw [objectAt_payload arena invariant.tiles invariant.represents
        (List.mem_append_right _ inLive)]
      have apart :
          (block.taken (alignUp wanted.toNat 8)).extent.Apart other.extent := by
        have front :=
          (tiles'.perm (List.perm_middle.map Block.extent)).apart
        exact (List.pairwise_cons.mp front).1 _
          (List.mem_map_of_mem (List.mem_append_right _ inLive))
      simp only [Extent.Apart, Block.extent_lo, Block.extent_hi, Block.fin,
        Block.taken_addr, allocHeaderSz] at apart
      simp only [Object.Apart, Object.fin, Strings.length_bytesAt,
        Block.payload, allocHeaderSz]
      omega

/-- A release takes its object away and leaves all others as they are. -/
theorem objectStep_kfree
    {ptr : Nat}
    (step : HeapState.Step freeList state (.kfree ptr) next) :
    ObjectStep (objects state) (.kfree ptr) (objects next) := by
  have held : ptr ∈ state.live := permits_of_step step
  obtain ⟨fuel, ended⟩ := step
  have longer := step?_more ended (Nat.le_add_right fuel (blocks.free.length + 2))
  have enough : blocks.free.length + 1 < fuel + (blocks.free.length + 2) := by
    omega
  generalize fuel + (blocks.free.length + 2) = more at longer enough
  obtain ⟨block, member, rfl⟩ := invariant.block_of_pointer held
  obtain ⟨free, live⟩ := blocks
  have split : live.Perm (block :: live.erase block) :=
    List.perm_cons_erase member
  have tiles :
      Tiles (extents (free ++ block :: live.erase block)) region :=
    invariant.tiles.perm ((split.append_left free).map Block.extent)
  have represents :
      Represents freeList state.memory free (block :: live.erase block) := {
    ring := invariant.represents.ring
    sizes := fun other otherMember =>
      invariant.represents.sizes other
        ((split.append_left free).mem_iff.mpr otherMember) }
  obtain ⟨result, released, final⟩ :=
    kfree_spec arena tiles represents enough
  have same :
      next = { memory := result, live := state.live.erase block.payload } := by
    simpa [HeapState.step?, held, released] using longer.symm
  have kept :
      (state.live.erase block.payload).map (objectAt result) =
        (state.live.erase block.payload).map (objectAt state.memory) := by
    apply objects_kept invariant List.erase_subset
    intro other otherMember stillHeld
    have different : other ≠ block := by
      rintro rfl
      exact (invariant.live_nodup arena).not_mem_erase stillHeld
    have stays : other ∈ live.erase block :=
      (List.mem_erase_of_ne different).mpr otherMember
    apply objectAt_kept arena invariant.tiles invariant.represents final
      otherMember stays
    intro address lower upper
    have front :=
      invariant.tiles.perm
        ((perm_twoLiveFirst member stays).map Block.extent)
    have outside := offBlocks_of_payload arena front lower upper
    exact
      kfree_eq arena tiles represents (Nat.lt_of_succ_lt enough) outside
        released
  obtain ⟨before, after, -, liveShape, erased⟩ := List.exists_erase_eq held
  rw [same, objects, objects, kept, erased, liveShape, List.map_append,
    List.map_append, List.map_cons]
  exact ObjectStep.release

/-- A client's write changes one object. -/
theorem objectStep_clientWrite
    {address : Nat}
    {byte : UInt8}
    (step : HeapState.Step freeList state (.clientWrite address byte) next) :
    ObjectStep (objects state) (.clientWrite address byte) (objects next) := by
  have owned : state.ClientOwns address := permits_of_step step
  obtain ⟨fuel, ended⟩ := step
  have same :
      next = { state with memory := setByte state.memory address byte } := by
    simpa [HeapState.step?, owned] using ended.symm
  have represents :
      Represents freeList (setByte state.memory address byte)
        blocks.free blocks.live :=
    represents_clientWrite arena invariant owned
  have written :
      objects next =
        (objects state).map fun object => object.write address byte := by
    rw [same, objects, objects, List.map_map]
    apply List.map_congr_left
    intro ptr held
    obtain ⟨block, member, rfl⟩ := invariant.block_of_pointer held
    apply objectAt_setByte
    have inAll : block ∈ blocks.free ++ blocks.live :=
      List.mem_append_right _ member
    rw [containerOf_payload arena invariant member, represents.sizes block inAll,
      invariant.represents.sizes block inAll]
  rw [written]
  obtain ⟨ptr, held, lower, upper⟩ := owned
  refine ObjectStep.clientWrite
    ⟨objectAt state.memory ptr, List.mem_map_of_mem held, lower, ?_⟩
  simpa [Object.fin, objectAt] using upper

/-- Every step of the allocator is a step of the store of objects. -/
theorem objectStep_of_step
    {action : HeapAction}
    (step : HeapState.Step freeList state action next) :
    ObjectStep (objects state) action (objects next) := by
  cases action with
  | kmalloc wanted =>
      exact objectStep_kmalloc arena invariant step
  | kfree ptr =>
      exact objectStep_kfree arena invariant step
  | clientWrite address byte =>
      exact objectStep_clientWrite arena invariant step

end Refinement

/--
From well-formed regions every run of the allocator, seen by its clients, is
a run of a store of objects that is empty at first.
-/
theorem objects_refine
    (freeList : Nat)
    (memory : Memory)
    (usable : List E820Map64)
    (regions : WellFormedRegions freeList usable)
    (actions : List HeapAction)
    (state : HeapState)
    (reaches : HeapState.Reaches freeList memory usable actions state) :
    Run ObjectStep [] actions (objects state) := by
  apply reaches.image objects
  intro actions state action next earlier step
  obtain ⟨blocks, invariant⟩ := reaches_invariant regions earlier
  exact objectStep_of_step (arena_heapBytes regions) invariant step

/-- The objects after two requests, the first of which is released again. -/
theorem objects_refine_afterRelease :
    ∃ state,
      HeapState.Reaches 0x2000 (fun _ => 0) exampleRegions
          [.kmalloc 100, .kmalloc 40, .kfree 0x200018] state ∧
        Run ObjectStep [] [.kmalloc 100, .kmalloc 40, .kfree 0x200018]
          (objects state) := by
  have ran :
      (HeapState.run? 0x2000 4
          (HeapState.initial 0x2000 (fun _ => 0) exampleRegions)
          [.kmalloc 100, .kmalloc 40, .kfree 0x200018]).any
        (fun _ => true) = true := by
    decide +kernel
  obtain ⟨state, reaches, -⟩ := HeapState.exists_reached _ ran
  exact ⟨state, reaches,
    objects_refine 0x2000 (fun _ => 0) exampleRegions exampleRegions_wellFormed
      _ state reaches⟩

/-- The object behind a pointer is the only one with that pointer. -/
theorem objectAt_of_mem
    {state : HeapState}
    {object : Object}
    (member : object ∈ objects state) :
    object.ptr ∈ state.live ∧ object = objectAt state.memory object.ptr := by
  obtain ⟨ptr, held, rfl⟩ := List.mem_map.mp member
  exact ⟨held, rfl⟩

/--
Between the request that handed an object out and its release, its bytes are
changed by the writes to them and by nothing else: whatever is allocated,
released and written elsewhere, replaying its own writes gives its bytes.
-/
theorem object_replayed
    (freeList : Nat)
    (memory : Memory)
    (usable : List E820Map64)
    (regions : WellFormedRegions freeList usable)
    (earlier later : List HeapAction)
    (middle state : HeapState)
    (reaches : HeapState.Reaches freeList memory usable earlier middle)
    (onwards : Run (HeapState.Step freeList) middle later state)
    (ptr : Nat)
    (held : ptr ∈ middle.live)
    (kept : .kfree ptr ∉ later) :
    ptr ∈ state.live ∧
      objectAt state.memory ptr =
        later.foldl Object.replay (objectAt middle.memory ptr) := by
  induction onwards with
  | start =>
      exact ⟨held, rfl⟩
  | @extend later state next action run last inductionHypothesis =>
      obtain ⟨notEarlier, notLast⟩ := not_or.mp (mt List.mem_append.mpr kept)
      obtain ⟨stillHeld, sameBytes⟩ := inductionHypothesis notEarlier
      have reached :
          HeapState.Reaches freeList memory usable (earlier ++ later) state :=
        reaches.append run
      obtain ⟨blocks, invariant⟩ := reaches_invariant regions reached
      have step := objectStep_of_step (arena_heapBytes regions) invariant last
      have member : objectAt state.memory ptr ∈ objects state :=
        List.mem_map_of_mem stillHeld
      have other : action ≠ .kfree (objectAt state.memory ptr).ptr := by
        rintro rfl
        exact notLast List.mem_cons_self
      have found := objectAt_of_mem (step.replay_mem member other)
      rw [Object.replay_ptr] at found
      refine ⟨found.1, ?_⟩
      rw [List.foldl_append, ← sameBytes]
      exact found.2.symm

/-- A byte written between two requests is read back after the second. -/
theorem object_replayed_afterWrite :
    ∃ middle state,
      HeapState.Reaches 0x2000 (fun _ => 0) exampleRegions [.kmalloc 100]
          middle ∧
        Run (HeapState.Step 0x2000) middle
            [.clientWrite 0x200020 7, .kmalloc 40] state ∧
          0x200018 ∈ state.live ∧
            objectAt state.memory 0x200018 =
              (objectAt middle.memory 0x200018).write 0x200020 7 := by
  have regions := exampleRegions_wellFormed
  have arena := arena_heapBytes regions
  have ran :
      (HeapState.run? 0x2000 4
          (HeapState.initial 0x2000 (fun _ => 0) exampleRegions)
          [.kmalloc 100]).any
        (fun state =>
          0x200018 ∈ state.live ∧ state.ClientOwns 0x200020) = true := by
    decide +kernel
  obtain ⟨middle, reaches, owned⟩ := HeapState.exists_reached _ ran
  obtain ⟨held, owns⟩ := of_decide_eq_true owned
  obtain ⟨blocks, invariant⟩ := reaches_invariant regions reaches
  have permitted : middle.Permits (.clientWrite 0x200020 7) :=
    owns
  obtain ⟨written, writes⟩ := exists_step arena invariant permitted
  obtain ⟨blocks', invariant'⟩ :=
    reaches_invariant regions (reaches.extend writes)
  have permitted' : written.Permits (.kmalloc 40) :=
    trivial
  obtain ⟨state, requests⟩ := exists_step arena invariant' permitted'
  have onwards :
      Run (HeapState.Step 0x2000) middle
        [.clientWrite 0x200020 7, .kmalloc 40] state :=
    .extend (.extend .start writes) requests
  have replayed :=
    object_replayed 0x2000 (fun _ => 0) exampleRegions regions [.kmalloc 100]
      [.clientWrite 0x200020 7, .kmalloc 40] middle state reaches onwards
      0x200018 held (by simp)
  simp only [List.foldl_cons, List.foldl_nil, Object.replay] at replayed
  exact ⟨middle, state, reaches, onwards, replayed⟩

end Relics.Malloc
