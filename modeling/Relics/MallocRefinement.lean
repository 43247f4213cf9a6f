import Relics.MallocBlocks

namespace Relics.Malloc

/-!
# The source refines the allocator on lists of blocks

`Represents` says that memory holds the free list as a ring of headers and
records the size of every block, free or handed out.  Each operation of the
source is followed through memory and shown to do to the represented lists
what the operation on lists does.  Only the 24-byte headers matter here;
that they do not overlap follows from the tiling of the managed bytes.
-/

open ByteMemory ExtentTiling LinkedList LinkedRing MachineWord

/-- Memory holds the free list and the sizes of the free and live blocks. -/
structure Represents
    (freeList : Nat)
    (memory : Memory)
    (free live : List Block) :
    Prop where
  ring : Ring (next memory) (prev memory) freeList (free.map Block.addr)
  sizes : ∀ block ∈ free ++ live, size memory block.addr = block.size

/-- The 24-byte headers overlap neither each other nor the list head. -/
structure HeadersApart (freeList : Nat) (nodes : List Nat) : Prop where
  headFits : freeList < 2 ^ 64
  fits : ∀ node ∈ nodes, node < 2 ^ 64
  fromHead : ∀ node ∈ nodes, freeList + 16 ≤ node ∨ node + 24 ≤ freeList
  apart :
    nodes.Pairwise fun first second =>
      first + 24 ≤ second ∨ second + 24 ≤ first

namespace HeadersApart

variable
    {freeList node : Nat}
    {nodes reordered : List Nat}

theorem perm
    (headers : HeadersApart freeList nodes)
    (permuted : nodes.Perm reordered) :
    HeadersApart freeList reordered where
  headFits := headers.headFits
  fits other member := headers.fits other (permuted.mem_iff.mpr member)
  fromHead other member := headers.fromHead other (permuted.mem_iff.mpr member)
  apart := (permuted.pairwise_iff Or.symm).mp headers.apart

/-- The headers of a part of the blocks. -/
theorem left
    {others : List Nat}
    (headers : HeadersApart freeList (nodes ++ others)) :
    HeadersApart freeList nodes where
  headFits := headers.headFits
  fits other member := headers.fits other (List.mem_append_left _ member)
  fromHead other member :=
    headers.fromHead other (List.mem_append_left _ member)
  apart := (List.pairwise_append.mp headers.apart).1

/-- The list head is not a header. -/
theorem head_notMem
    (headers : HeadersApart freeList nodes) :
    freeList ∉ nodes := by
  intro member
  have := headers.fromHead freeList member
  omega

/-- A header is apart from the list head and from every other header. -/
theorem of_mem_cons
    (headers : HeadersApart freeList (node :: nodes))
    {other : Nat}
    (member : other ∈ freeList :: nodes) :
    node + 24 ≤ other ∨ other + 16 ≤ node := by
  rcases List.mem_cons.mp member with rfl | inNodes
  · have := headers.fromHead node (by simp)
    omega
  · have := (List.pairwise_cons.mp headers.apart).1 other inNodes
    omega

/-- The links of a fresh node and of a cycle through the head do not overlap. -/
theorem cycle_apart
    {members others : List Nat}
    (headers : HeadersApart freeList (node :: (members ++ others))) :
    (node :: freeList :: members).Pairwise Apart := by
  obtain ⟨nodeApart, restApart⟩ := List.pairwise_cons.mp headers.apart
  refine List.pairwise_cons.mpr ⟨?_, List.pairwise_cons.mpr ⟨?_, ?_⟩⟩
  · intro other member
    have inCycle : other ∈ freeList :: (members ++ others) := by
      simp only [List.mem_cons, List.mem_append] at member ⊢
      tauto
    have := headers.of_mem_cons inCycle
    unfold Apart
    omega
  · intro other member
    have := headers.fromHead other (by simp [member])
    unfold Apart
    omega
  · apply (List.pairwise_append.mp restApart).1.imp
    intro first second headersApart
    unfold Apart
    omega

end HeadersApart

section Fields

variable
    {memory : Memory}
    {node other value : Nat}

theorem size_setSize_same
    (fits : value < 2 ^ 64) :
    size (setSize memory node value) node = value :=
  (load_store_same memory (node + 16) 8 value).trans (Nat.mod_eq_of_lt fits)

theorem size_setSize_apart
    (apart : node + 24 ≤ other ∨ other + 24 ≤ node) :
    size (setSize memory node value) other = size memory other :=
  load_store_apart (by omega)

theorem next_setSize
    (apart : node = other ∨ node + 24 ≤ other ∨ other + 16 ≤ node) :
    next (setSize memory node value) other = next memory other :=
  load_store_apart (by omega)

theorem prev_setSize
    (apart : node = other ∨ node + 24 ≤ other ∨ other + 16 ≤ node) :
    prev (setSize memory node value) other = prev memory other :=
  load_store_apart (by omega)

/-- Linking a node in keeps every recorded size. -/
theorem size_listAdd_
    {left right : Nat}
    (apart :
      ∀ linked ∈ [node, left, right],
        linked = other ∨ linked + 16 ≤ other ∨ other + 24 ≤ linked) :
    size (listAdd_ memory node left right) other = size memory other := by
  apply load_congr
  intro address lower upper
  apply listAdd_outside
  intro linked member
  have := apart linked member
  omega

/-- Unlinking a node keeps every recorded size. -/
theorem size_listDel
    (apart :
      ∀ linked ∈ [node, prev memory node, next memory node],
        linked = other ∨ linked + 16 ≤ other ∨ other + 24 ≤ linked) :
    size (listDel memory node) other = size memory other := by
  apply load_congr
  intro address lower upper
  apply listDel_outside
  intro linked member
  have := apart linked member
  omega

end Fields

section Representation

variable
    {freeList : Nat}
    {memory : Memory}
    {before after free live : List Block}
    {block : Block}

/-- The node before a cut of the free list. -/
abbrev leftNode (freeList : Nat) (before : List Block) : Nat :=
  leftOf freeList (before.map Block.addr)

/-- The node after a cut of the free list. -/
abbrev rightNode (freeList : Nat) (after : List Block) : Nat :=
  rightOf freeList (after.map Block.addr)

/-- A free block moved to the front of all blocks. -/
theorem perm_front :
    ((before ++ block :: after) ++ live).Perm
      (block :: ((before ++ after) ++ live)) := by
  simp [List.perm_middle]

/-- Taking a block off the free list and handing it out keeps all blocks. -/
theorem perm_handOut :
    ((before ++ block :: after) ++ live).Perm
      ((before ++ after) ++ (block :: live)) :=
  perm_front.trans List.perm_middle.symm

/-- The nodes at a cut are the list head or headers of free blocks. -/
theorem seam_mem
    {node : Nat}
    (seam : node = leftNode freeList before ∨ node = rightNode freeList after) :
    node ∈ freeList :: (before ++ after).map Block.addr := by
  rw [List.map_append]
  rcases seam with rfl | rfl
  · exact leftOf_mem_cycle freeList _ _
  · exact rightOf_mem_cycle freeList _ _

/-- A link word of the head or of another header is off the size of a block. -/
theorem HeadersApart.off_size
    {nodes : List Nat}
    (headers : HeadersApart freeList nodes)
    {linked other : Nat}
    (linkedMember : linked ∈ freeList :: nodes)
    (otherMember : other ∈ nodes) :
    linked = other ∨ linked + 16 ≤ other ∨ other + 24 ≤ linked := by
  rcases List.mem_cons.mp linkedMember with rfl | inNodes
  · have := headers.fromHead other otherMember
    omega
  · by_cases same : linked = other
    · exact .inl same
    · have : linked + 24 ≤ other ∨ other + 24 ≤ linked := by
        have symmetric :
            Std.Symm fun first second : Nat =>
              first + 24 ≤ second ∨ second + 24 ≤ first :=
          ⟨fun _ _ => Or.symm⟩
        exact headers.apart.forall inNodes otherMember same
      omega

/-- The nodes at a cut are among the head and the headers. -/
theorem mem_cycle_of_seam
    {node : Nat}
    (member : node ∈ freeList :: (before ++ after).map Block.addr) :
    node ∈
      freeList :: block.addr :: ((before ++ after) ++ live).map Block.addr := by
  have whole :
      ((before ++ after) ++ live).map Block.addr =
        (before ++ after).map Block.addr ++ live.map Block.addr :=
    List.map_append
  rw [whole]
  rcases List.mem_cons.mp member with rfl | inFree
  · simp
  · exact List.mem_cons_of_mem _
      (List.mem_cons_of_mem _ (List.mem_append_left _ inFree))

/-- Every free or live block has its header among the headers. -/
theorem mem_nodes_of_mem
    {other : Block}
    (member : other ∈ (before ++ after) ++ (block :: live)) :
    other.addr ∈ block.addr :: ((before ++ after) ++ live).map Block.addr := by
  have shuffled : other ∈ block :: ((before ++ after) ++ live) :=
    List.perm_middle.mem_iff.mp member
  simpa using List.mem_map_of_mem (f := Block.addr) shuffled

/-- The representation depends on the head links and the headers only. -/
theorem Represents.congr
    {memory' : Memory}
    (represents : Represents freeList memory free live)
    (sameHead :
      ∀ address,
        freeList ≤ address →
        address < freeList + 16 →
        memory' address = memory address)
    (sameHeaders :
      ∀ block ∈ free ++ live,
        ∀ address,
          block.addr ≤ address →
          address < block.addr + 24 →
          memory' address = memory address) :
    Represents freeList memory' free live := by
  have sameLinks :
      ∀ node ∈ freeList :: free.map Block.addr,
        ∀ address,
          node ≤ address →
          address < node + 16 →
          memory' address = memory address := by
    intro node member address lower upper
    rcases List.mem_cons.mp member with rfl | inFree
    · exact sameHead address lower upper
    · obtain ⟨block, blockMember, rfl⟩ := List.mem_map.mp inFree
      exact sameHeaders block (List.mem_append_left live blockMember)
        address lower (by omega)
  constructor
  · apply represents.ring.congr
    · intro node member
      exact load_congr fun address lower upper =>
        sameLinks node member address lower (by omega)
    · intro node member
      exact load_congr fun address lower upper =>
        sameLinks node member address (by omega) (by omega)
  · intro block member
    rw [← represents.sizes block member]
    exact load_congr fun address lower upper =>
      sameHeaders block member address (by omega) (by omega)

/-- Forgetting a block that is not on the free list. -/
theorem Represents.forget
    (represents : Represents freeList memory free (block :: live)) :
    Represents freeList memory free live where
  ring := represents.ring
  sizes other member :=
    represents.sizes other (by
      simp only [List.mem_append, List.mem_cons] at member ⊢
      tauto)

/-- Recording the size of a block in a fresh header. -/
theorem Represents.setSize_fresh
    (represents : Represents freeList memory free live)
    (headers :
      HeadersApart freeList
        (block.addr :: (free ++ live).map Block.addr))
    (fits : block.size < 2 ^ 64) :
    Represents freeList (setSize memory block.addr block.size)
      free (block :: live) := by
  constructor
  · apply represents.ring.congr
    · intro node member
      apply next_setSize
      right
      apply headers.of_mem_cons
      simp only [List.map_append, List.mem_cons, List.mem_append] at member ⊢
      tauto
    · intro node member
      apply prev_setSize
      right
      apply headers.of_mem_cons
      simp only [List.map_append, List.mem_cons, List.mem_append] at member ⊢
      tauto
  · intro other member
    have isBlockOrOld : other = block ∨ other ∈ free ++ live := by
      simp only [List.mem_append, List.mem_cons] at member ⊢
      tauto
    rcases isBlockOrOld with rfl | old
    · exact size_setSize_same fits
    · have apart :=
        (List.pairwise_cons.mp headers.apart).1 other.addr
          (List.mem_map_of_mem old)
      rw [size_setSize_apart apart, represents.sizes other old]

/-- Recording a new size in the header of a free block. -/
theorem Represents.resize
    {value : Nat}
    (represents : Represents freeList memory (before ++ block :: after) live)
    (headers :
      HeadersApart freeList
        (block.addr :: ((before ++ after) ++ live).map Block.addr))
    (fits : value < 2 ^ 64) :
    Represents freeList (setSize memory block.addr value)
      (before ++ { block with size := value } :: after) live := by
  constructor
  · have sameNodes :
        (before ++ { block with size := value } :: after).map Block.addr =
          (before ++ block :: after).map Block.addr := by
      simp
    rw [sameNodes]
    have place :
        ∀ node ∈ freeList :: (before ++ block :: after).map Block.addr,
          block.addr = node ∨ block.addr + 24 ≤ node ∨
            node + 16 ≤ block.addr := by
      intro node member
      by_cases same : block.addr = node
      · exact .inl same
      · right
        apply headers.of_mem_cons
        simp only [List.map_append, List.map_cons, List.mem_cons,
          List.mem_append] at member ⊢
        tauto
    apply represents.ring.congr
    · exact fun node member => next_setSize (place node member)
    · exact fun node member => prev_setSize (place node member)
  · intro other member
    have isBlockOrOld :
        other = { block with size := value } ∨
          other ∈ (before ++ after) ++ live := by
      simp only [List.mem_append, List.mem_cons] at member ⊢
      tauto
    rcases isBlockOrOld with rfl | old
    · exact size_setSize_same fits
    · have apart :=
        (List.pairwise_cons.mp headers.apart).1 other.addr
          (List.mem_map_of_mem old)
      rw [size_setSize_apart apart]
      apply represents.sizes
      simp only [List.mem_append, List.mem_cons] at old ⊢
      tauto

/-- `list_add_` at a cut of the free list puts a block there. -/
theorem Represents.link
    (represents : Represents freeList memory (before ++ after) (block :: live))
    (headers :
      HeadersApart freeList
        (block.addr :: ((before ++ after) ++ live).map Block.addr)) :
    Represents freeList
      (listAdd_ memory block.addr
        (leftNode freeList before) (rightNode freeList after))
      (before ++ block :: after) live := by
  have split :
      HeadersApart freeList
        (block.addr ::
          ((before.map Block.addr ++ after.map Block.addr) ++
            live.map Block.addr)) := by
    simpa using headers
  constructor
  · have nodes :
        (before ++ block :: after).map Block.addr =
          before.map Block.addr ++ block.addr :: after.map Block.addr := by
      simp
    rw [nodes]
    apply ring_listAdd_
    · simpa using represents.ring
    · exact split.cycle_apart
    · intro other member
      rcases List.mem_cons.mp member with rfl | inCycle
      · exact split.fits _ (by simp)
      · rcases List.mem_cons.mp inCycle with rfl | inFree
        · exact split.headFits
        · exact split.fits other
            (List.mem_cons_of_mem _ (List.mem_append_left _ inFree))
  · intro other member
    have old : other ∈ (before ++ after) ++ (block :: live) :=
      perm_handOut.mem_iff.mp member
    rw [← represents.sizes other old]
    apply size_listAdd_
    intro linked linkedMember
    apply headers.off_size
    · simp only [List.mem_cons, List.not_mem_nil, or_false] at linkedMember
      rcases linkedMember with rfl | seam
      · simp
      · exact mem_cycle_of_seam (seam_mem seam)
    · exact mem_nodes_of_mem old

/-- `list_del` takes a block off the free list. -/
theorem Represents.unlink
    (represents : Represents freeList memory (before ++ block :: after) live)
    (headers :
      HeadersApart freeList
        (block.addr :: ((before ++ after) ++ live).map Block.addr)) :
    Represents freeList (listDel memory block.addr)
      (before ++ after) (block :: live) := by
  have split :
      HeadersApart freeList
        (block.addr ::
          ((before.map Block.addr ++ after.map Block.addr) ++
            live.map Block.addr)) := by
    simpa using headers
  have ring :
      Ring (next memory) (prev memory) freeList
        (before.map Block.addr ++ block.addr :: after.map Block.addr) := by
    simpa using represents.ring
  obtain ⟨nextNode, prevNode⟩ := ring.links_of_member
  constructor
  · rw [List.map_append]
    apply ring_listDel ring split.cycle_apart
    intro other member
    rcases List.mem_cons.mp member with rfl | inFree
    · exact split.headFits
    · exact split.fits other
        (List.mem_cons_of_mem _ (List.mem_append_left _ inFree))
  · intro other member
    have old : other ∈ (before ++ block :: after) ++ live :=
      perm_handOut.mem_iff.mpr member
    rw [← represents.sizes other old]
    apply size_listDel
    intro linked linkedMember
    apply headers.off_size
    · simp only [nextNode, prevNode, List.mem_cons, List.not_mem_nil,
        or_false] at linkedMember
      rcases linkedMember with rfl | seam
      · simp
      · exact mem_cycle_of_seam (seam_mem seam)
    · exact mem_nodes_of_mem member

end Representation

end Relics.Malloc
