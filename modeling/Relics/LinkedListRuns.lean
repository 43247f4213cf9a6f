import Relics.LabelledRun
import Relics.LinkedListSource

namespace Relics.LinkedList

/-!
# Lists that are edited in one memory

A program has any number of lists, with heads and nodes at addresses of its
choice.  It may add a node that is in no list, delete a node that is in one,
and write to any byte that is not a link.  However it goes on, a walk along
the links visits the members that the edits leave, in order and in both
directions, and `list_for_each_safe` may delete what it visits.
-/

open ByteMemory LabelledRun LinkedRing

/-- The lists of a program: the head of each with its members. -/
abbrev Lists : Type :=
  List (Nat × List Nat)

/-- The nodes with link words: the heads and the members. -/
def nodes (lists : Lists) : List Nat :=
  lists.flatMap fun list => list.1 :: list.2

/-- The link words of the nodes do not overlap, and pointers reach them. -/
structure WellFormed (lists : Lists) : Prop where
  apart : (nodes lists).Pairwise Apart
  fits : ∀ node ∈ nodes lists, node < 2 ^ 64

/-- The links in memory are those of the lists. -/
def Represents (memory : Memory) (lists : Lists) : Prop :=
  ∀ list ∈ lists, Ring (next memory) (prev memory) list.1 list.2

/-- A use of a function of the header, or a write to a byte. -/
inductive Operation where
  | init (head : Nat)
  | add (n head : Nat)
  | addTail (n head : Nat)
  | insert (n left right : Nat)
  | del (entry : Nat)
  | write (address : Nat) (byte : UInt8)

/-- What an operation does to memory -/
def Operation.apply (memory : Memory) : Operation → Memory
  | init head => listInit memory head
  | add n head => listAdd memory n head
  | addTail n head => listAddTail memory n head
  | insert n left right => listAdd_ memory n left right
  | del entry => listDel memory entry
  | write address byte => setByte memory address byte

/-- A node that is in no list -/
structure Fresh (lists : Lists) (node : Nat) : Prop where
  apart : ∀ other ∈ nodes lists, Apart node other
  fits : node < 2 ^ 64

/-- What an operation is for, on the lists of the program. -/
inductive Edit : Lists → Operation → Lists → Prop where
  | init
      {lists : Lists}
      {head : Nat}
      (fresh : Fresh lists head) :
      Edit lists (.init head) ((head, []) :: lists)
  | add
      {earlier later : Lists}
      {head n : Nat}
      {members : List Nat}
      (fresh : Fresh (earlier ++ (head, members) :: later) n) :
      Edit (earlier ++ (head, members) :: later) (.add n head)
        (earlier ++ (head, n :: members) :: later)
  | addTail
      {earlier later : Lists}
      {head n : Nat}
      {members : List Nat}
      (fresh : Fresh (earlier ++ (head, members) :: later) n) :
      Edit (earlier ++ (head, members) :: later) (.addTail n head)
        (earlier ++ (head, members ++ [n]) :: later)
  | insert
      {earlier later : Lists}
      {head n : Nat}
      {before after : List Nat}
      (fresh : Fresh (earlier ++ (head, before ++ after) :: later) n) :
      Edit (earlier ++ (head, before ++ after) :: later)
        (.insert n (leftOf head before) (rightOf head after))
        (earlier ++ (head, before ++ n :: after) :: later)
  | del
      {earlier later : Lists}
      {head entry : Nat}
      {before after : List Nat} :
      Edit (earlier ++ (head, before ++ entry :: after) :: later) (.del entry)
        (earlier ++ (head, before ++ after) :: later)
  | write
      {lists : Lists}
      {address : Nat}
      {byte : UInt8}
      (outside :
        ∀ node ∈ nodes lists, address < node ∨ node + 16 ≤ address) :
      Edit lists (.write address byte) lists

section Frames

variable {memory memory' : Memory}
variable {lists earlier later : Lists}
variable {head node : Nat}
variable {members before after : List Nat}

/-- A ring whose link words are unchanged stays a ring. -/
theorem ring_of_sameBytes
    (ring : Ring (next memory) (prev memory) head members)
    (same :
      ∀ node ∈ head :: members,
        ∀ address,
          node ≤ address →
          address < node + 16 →
          memory' address = memory address) :
    Ring (next memory') (prev memory') head members := by
  apply ring.congr
  · intro node member
    apply load_congr
    intro address lower upper
    exact same node member address lower (by omega)
  · intro node member
    apply load_congr
    intro address lower upper
    exact same node member address (by omega) (by omega)

/-- The nodes of one list come first. -/
theorem nodes_perm :
    (nodes (earlier ++ (head, members) :: later)).Perm
      ((head :: members) ++ nodes (earlier ++ later)) := by
  unfold nodes
  rw [List.flatMap_append, List.flatMap_append, List.flatMap_cons]
  exact List.perm_append_comm_assoc _ _ _

/-- Linking a node in adds it to the nodes. -/
theorem nodes_insert_perm :
    (nodes (earlier ++ (head, before ++ node :: after) :: later)).Perm
      (node :: nodes (earlier ++ (head, before ++ after) :: later)) := by
  refine nodes_perm.trans (.trans ?_ (nodes_perm.symm.cons node))
  have front :
      (head :: (before ++ node :: after)).Perm
        (node :: head :: (before ++ after)) :=
    (List.perm_middle.cons head).trans (List.Perm.swap _ _ _)
  exact front.append_right (nodes (earlier ++ later))

/-- A fresh node may be linked in. -/
theorem WellFormed.insert
    (wellFormed : WellFormed (earlier ++ (head, before ++ after) :: later))
    (fresh : Fresh (earlier ++ (head, before ++ after) :: later) node) :
    WellFormed (earlier ++ (head, before ++ node :: after) :: later) where
  apart := by
    rw [nodes_insert_perm.pairwise_iff Apart.symm, List.pairwise_cons]
    exact ⟨fresh.apart, wellFormed.apart⟩
  fits := by
    intro other member
    rcases List.mem_cons.mp (nodes_insert_perm.mem_iff.mp member) with
        rfl | isOld
    · exact fresh.fits
    · exact wellFormed.fits other isOld

/-- A node may be unlinked, and is fresh again. -/
theorem WellFormed.remove
    (wellFormed :
      WellFormed (earlier ++ (head, before ++ node :: after) :: later)) :
    WellFormed (earlier ++ (head, before ++ after) :: later) ∧
      Fresh (earlier ++ (head, before ++ after) :: later) node := by
  obtain ⟨apart, fits⟩ := wellFormed
  rw [nodes_insert_perm.pairwise_iff Apart.symm, List.pairwise_cons] at apart
  have fits' :
      ∀ other ∈ node :: nodes (earlier ++ (head, before ++ after) :: later),
        other < 2 ^ 64 :=
    fun other member => fits other (nodes_insert_perm.mem_iff.mpr member)
  obtain ⟨nodeFits, othersFit⟩ := List.forall_mem_cons.mp fits'
  exact ⟨⟨apart.2, othersFit⟩, ⟨apart.1, nodeFits⟩⟩

/-- The nodes of a list are apart from each other and from all others. -/
theorem WellFormed.split
    (wellFormed : WellFormed (earlier ++ (head, members) :: later)) :
    (head :: members).Pairwise Apart ∧
      (∀ own ∈ head :: members,
        ∀ other ∈ nodes (earlier ++ later), Apart own other) ∧
      ∀ own ∈ head :: members, own < 2 ^ 64 := by
  have apart := wellFormed.apart
  rw [nodes_perm.pairwise_iff Apart.symm, List.pairwise_append] at apart
  refine ⟨apart.1, apart.2.2, fun own member => ?_⟩
  exact
    wellFormed.fits own
      (nodes_perm.mem_iff.mpr (List.mem_append_left _ member))

/-- The nodes of a list are among the nodes. -/
theorem mem_nodes
    {list : Nat × List Nat}
    (member : list ∈ lists)
    (isNode : node ∈ list.1 :: list.2) :
    node ∈ nodes lists :=
  List.mem_flatMap.mpr ⟨list, member, isNode⟩

/--
An edit of one list that changes no byte of the others' link words is an edit
of this list.
-/
theorem Represents.edit
    (represents : Represents memory (earlier ++ (head, members) :: later))
    {members' : List Nat}
    (edited : Ring (next memory') (prev memory') head members')
    (same :
      ∀ other ∈ nodes (earlier ++ later),
        ∀ address,
          other ≤ address →
          address < other + 16 →
          memory' address = memory address) :
    Represents memory' (earlier ++ (head, members') :: later) := by
  intro list member
  rcases List.mem_append.mp member with inEarlier | isOrLater
  · apply ring_of_sameBytes (represents list (List.mem_append_left _ inEarlier))
    intro other isNode
    exact same other (mem_nodes (List.mem_append_left _ inEarlier) isNode)
  · rcases List.mem_cons.mp isOrLater with rfl | inLater
    · exact edited
    · apply
        ring_of_sameBytes
          (represents list
            (List.mem_append_right _ (List.mem_cons_of_mem _ inLater)))
      intro other isNode
      exact same other (mem_nodes (List.mem_append_right _ inLater) isNode)

/-- An address in the link words of a node is not in those of another. -/
theorem outside_of_apart
    {first second address : Nat}
    (apart : Apart first second)
    (lower : second ≤ address)
    (upper : address < second + 16) :
    address < first ∨ first + 16 ≤ address := by
  unfold Apart at apart
  omega

/-- A fresh node is apart from the nodes of a list. -/
theorem Fresh.pairwise
    (fresh : Fresh (earlier ++ (head, members) :: later) node)
    (wellFormed : WellFormed (earlier ++ (head, members) :: later)) :
    (node :: head :: members).Pairwise Apart := by
  rw [List.pairwise_cons]
  refine ⟨fun other member => fresh.apart other ?_, wellFormed.split.1⟩
  exact nodes_perm.mem_iff.mpr (List.mem_append_left _ member)

/-- The nodes that an edit touches are apart from those of other lists. -/
theorem Fresh.touched_apart
    (fresh : Fresh (earlier ++ (head, before ++ after) :: later) node)
    (wellFormed : WellFormed (earlier ++ (head, before ++ after) :: later))
    {touched other : Nat}
    (isTouched : touched ∈ [node, leftOf head before, rightOf head after])
    (isNode : other ∈ nodes (earlier ++ later)) :
    Apart touched other := by
  have others := wellFormed.split.2.1
  simp only [List.mem_cons, List.not_mem_nil, or_false] at isTouched
  rcases isTouched with rfl | rfl | rfl
  · exact
      fresh.apart other (nodes_perm.mem_iff.mpr (List.mem_append_right _ isNode))
  · exact others _ (leftOf_mem_cycle head before after) other isNode
  · exact others _ (rightOf_mem_cycle head before after) other isNode

/-- `list_add_` at a seam of a list inserts there. -/
theorem Represents.insert
    (represents :
      Represents memory (earlier ++ (head, before ++ after) :: later))
    (wellFormed : WellFormed (earlier ++ (head, before ++ after) :: later))
    (fresh : Fresh (earlier ++ (head, before ++ after) :: later) node) :
    Represents (listAdd_ memory node (leftOf head before) (rightOf head after))
      (earlier ++ (head, before ++ node :: after) :: later) := by
  have ring := represents (head, before ++ after) (by simp)
  apply represents.edit
  · apply ring_listAdd_ ring (fresh.pairwise wellFormed)
    exact List.forall_mem_cons.mpr ⟨fresh.fits, wellFormed.split.2.2⟩
  · intro other isNode address lower upper
    apply listAdd_outside
    intro touched isTouched
    exact
      outside_of_apart (fresh.touched_apart wellFormed isTouched isNode)
        lower upper

/-- `list_del` of a member of a list removes it. -/
theorem Represents.remove
    (represents :
      Represents memory (earlier ++ (head, before ++ node :: after) :: later))
    (wellFormed :
      WellFormed (earlier ++ (head, before ++ node :: after) :: later)) :
    Represents (listDel memory node)
      (earlier ++ (head, before ++ after) :: later) := by
  obtain ⟨wellFormed', fresh⟩ := wellFormed.remove
  have ring := represents (head, before ++ node :: after) (by simp)
  obtain ⟨nextNode, prevNode⟩ := ring.links_of_member
  apply represents.edit
  · exact
      ring_listDel ring (fresh.pairwise wellFormed') wellFormed'.split.2.2
  · intro other isNode address lower upper
    apply listDel_outside
    rw [nextNode, prevNode]
    intro touched isTouched
    exact
      outside_of_apart (fresh.touched_apart wellFormed' isTouched isNode)
        lower upper

/-- A write between the links changes no list. -/
theorem Represents.write
    (represents : Represents memory lists)
    {address : Nat}
    {byte : UInt8}
    (outside :
      ∀ node ∈ nodes lists, address < node ∨ node + 16 ≤ address) :
    Represents (setByte memory address byte) lists := by
  intro list member
  apply ring_of_sameBytes (represents list member)
  intro node isNode other lower upper
  apply setByte_other
  rintro rfl
  have apart := outside node (mem_nodes member isNode)
  omega

/-- A new head is a list without members. -/
theorem Represents.init
    (represents : Represents memory lists)
    (fresh : Fresh lists head) :
    Represents (listInit memory head) ((head, []) :: lists) := by
  intro list member
  rcases List.mem_cons.mp member with rfl | isOld
  · exact ring_listInit memory fresh.fits
  · apply ring_of_sameBytes (represents list isOld)
    intro node isNode address lower upper
    have apart := fresh.apart node (mem_nodes isOld isNode)
    unfold Apart at apart
    rw [listInit, setPrev, setNext, store_outside (by omega),
      store_outside (by omega)]

end Frames

section Runs

variable {memory : Memory}
variable {lists lists' : Lists}
variable {operation : Operation}

/-- An edit of the lists is what the operation does in memory. -/
theorem Edit.represents
    (edit : Edit lists operation lists')
    (wellFormed : WellFormed lists)
    (represents : Represents memory lists) :
    WellFormed lists' ∧ Represents (operation.apply memory) lists' := by
  cases edit with
  | init fresh =>
      have apart := List.pairwise_cons.mpr ⟨fresh.apart, wellFormed.apart⟩
      refine ⟨⟨apart, fun node member => ?_⟩, represents.init fresh⟩
      rcases List.mem_cons.mp member with rfl | isOld
      · exact fresh.fits
      · exact wellFormed.fits node isOld
  | @add earlier later head n members fresh =>
      have ring := represents (head, members) (by simp)
      have opened :
          WellFormed (earlier ++ (head, [] ++ members) :: later) :=
        wellFormed
      have inserted := Represents.insert represents opened fresh
      rw [Operation.apply, listAdd, ring.next_head]
      exact ⟨opened.insert fresh, inserted⟩
  | @addTail earlier later head n members fresh =>
      have ring := represents (head, members) (by simp)
      rw [← List.append_nil members] at wellFormed represents fresh
      have inserted := represents.insert wellFormed fresh
      rw [Operation.apply, listAddTail, ring.prev_head]
      exact ⟨wellFormed.insert fresh, inserted⟩
  | insert fresh =>
      exact ⟨wellFormed.insert fresh, represents.insert wellFormed fresh⟩
  | del =>
      exact ⟨wellFormed.remove.1, represents.remove wellFormed⟩
  | write outside =>
      exact ⟨wellFormed, represents.write outside⟩

/-- The memory after some operations -/
def after (memory : Memory) (operations : List Operation) : Memory :=
  operations.foldl Operation.apply memory

/-- A run of edits is one of the operations in memory. -/
theorem represents_run
    {operations : List Operation}
    (run : Run Edit [] operations lists) :
    WellFormed lists ∧ Represents (after memory operations) lists := by
  induction run with
  | start =>
      exact ⟨⟨.nil, by simp [nodes]⟩, by simp [Represents]⟩
  | extend _ edit inductionHypothesis =>
      obtain ⟨wellFormed, represents⟩ := inductionHypothesis
      rw [after, List.foldl_append]
      exact edit.represents wellFormed represents

/-- `list_for_each`: the nodes that the loop visits -/
def listForEach (memory : Memory) (head fuel : Nat) : Option (List Nat) :=
  walk (next memory) head fuel (next memory head)

/-- The same loop along the `prev` links -/
def listForEachBack (memory : Memory) (head fuel : Nat) : Option (List Nat) :=
  walk (prev memory) head fuel (prev memory head)

/-- The loops visit the members of the lists that memory holds. -/
theorem forEach_of_represents
    (wellFormed : WellFormed lists)
    (represents : Represents memory lists)
    {head : Nat}
    {members : List Nat}
    (member : (head, members) ∈ lists)
    {fuel : Nat}
    (enough : members.length < fuel) :
    listForEach memory head fuel = some members ∧
      listForEachBack memory head fuel = some members.reverse := by
  obtain ⟨earlier, later, rfl⟩ := List.append_of_mem member
  have ring := represents _ member
  have noDuplicates := wellFormed.split.1.imp Apart.ne
  have headOutside := (List.nodup_cons.mp noDuplicates).1
  constructor
  · exact ring.walk headOutside enough
  · apply ring.reverse.walk
    · rwa [List.mem_reverse]
    · rwa [List.length_reverse]

end Runs

/--
After any edits, in any memory and of any number of lists, the loops visit
exactly the members that the edits leave, in order and backwards.
-/
theorem forEach_afterEdits
    (memory : Memory)
    (operations : List Operation)
    (lists : Lists)
    (run : Run Edit [] operations lists)
    (head : Nat)
    (members : List Nat)
    (member : (head, members) ∈ lists)
    (fuel : Nat)
    (enough : members.length < fuel) :
    listForEach (after memory operations) head fuel = some members ∧
      listForEachBack (after memory operations) head fuel =
        some members.reverse := by
  obtain ⟨wellFormed, represents⟩ := represents_run run
  exact forEach_of_represents wellFormed represents member enough

/-- Two lists, one of them with two members -/
def twoLists : List Operation :=
  [.init 0x100, .init 0x200, .addTail 0x300 0x100, .write 0x310 0xFF,
    .add 0x400 0x100]

/-- Edits lead to the two lists. -/
theorem run_twoLists :
    Run Edit [] twoLists [(0x200, []), (0x100, [0x400, 0x300])] := by
  have init : Edit [] (.init 0x100) [(0x100, [])] :=
    .init ⟨by simp [nodes], by decide⟩
  have init' :
      Edit [(0x100, [])] (.init 0x200) [(0x200, []), (0x100, [])] :=
    .init ⟨by simp [nodes, Apart], by decide⟩
  have addTail :
      Edit ([(0x200, [])] ++ (0x100, []) :: []) (.addTail 0x300 0x100)
        ([(0x200, [])] ++ (0x100, [] ++ [0x300]) :: []) :=
    .addTail ⟨by simp [nodes, Apart], by decide⟩
  have write :
      Edit [(0x200, []), (0x100, [0x300])] (.write 0x310 0xFF)
        [(0x200, []), (0x100, [0x300])] :=
    .write (by simp [nodes])
  have add :
      Edit ([(0x200, [])] ++ (0x100, [0x300]) :: []) (.add 0x400 0x100)
        ([(0x200, [])] ++ (0x100, 0x400 :: [0x300]) :: []) :=
    .add ⟨by simp [nodes, Apart], by decide⟩
  exact
    .extend (.extend (.extend (.extend (.extend .start init) init') addTail)
      write) add

/-- The two members are visited. -/
theorem forEach_twoLists :
    listForEach (after (fun _ => 0x55) twoLists) 0x100 3 =
        some [0x400, 0x300] ∧
      listForEachBack (after (fun _ => 0x55) twoLists) 0x100 3 =
        some [0x300, 0x400] :=
  forEach_afterEdits (fun _ => 0x55) twoLists _ run_twoLists 0x100
    [0x400, 0x300] (by simp) 3 (by decide)

section Deleting

/--
`list_for_each_safe` with a body that deletes some of the nodes: the memory
behind the loop and the nodes that were visited
-/
def listForEachSafe
    (deletes : Nat → Bool)
    (head : Nat) :
    (fuel : Nat) →
    (memory : Memory) →
    (pos n : Nat) →
    Option (Memory × List Nat)
  | 0, _, _, _ => none
  | fuel + 1, memory, pos, n =>
      if pos = head then
        some (memory, [])
      else
        let memory := if deletes pos then listDel memory pos else memory
        (listForEachSafe deletes head fuel memory n (next memory n)).map
          fun (memory, visited) => (memory, pos :: visited)

variable {memory : Memory}
variable {earlier later : Lists}
variable {head : Nat}
variable {deletes : Nat → Bool}

/-- The loop from the middle of a list on, with the kept nodes before it. -/
theorem listForEachSafe_from
    {kept rest : List Nat}
    (wellFormed : WellFormed (earlier ++ (head, kept ++ rest) :: later))
    (represents :
      Represents memory (earlier ++ (head, kept ++ rest) :: later))
    {fuel : Nat}
    (enough : rest.length < fuel) :
    ∃ memory',
      listForEachSafe deletes head fuel memory (rightOf head rest)
          (next memory (rightOf head rest)) =
        some (memory', rest) ∧
      WellFormed
          (earlier ++
            (head, kept ++ rest.filter fun node => !deletes node) :: later) ∧
        Represents memory'
          (earlier ++
            (head, kept ++ rest.filter fun node => !deletes node) :: later) := by
  induction rest generalizing kept memory fuel with
  | nil =>
      cases fuel with
      | zero =>
          cases enough
      | succ fuel =>
          exact ⟨memory, by simp [listForEachSafe], wellFormed, represents⟩
  | cons node rest inductionHypothesis =>
      cases fuel with
      | zero =>
          cases enough
      | succ fuel =>
          have fewer : rest.length < fuel :=
            Nat.lt_of_succ_lt_succ enough
          have ring := represents (head, kept ++ node :: rest) (by simp)
          have nextNode := ring.links_of_member.1
          have noDuplicates := wellFormed.split.1.imp Apart.ne
          have notHead : node ≠ head := by
            rintro rfl
            exact (List.nodup_cons.mp noDuplicates).1 (by simp)
          cases isDeleted : deletes node with
          | true =>
              obtain ⟨memory', ends, wellFormed', represents'⟩ :=
                inductionHypothesis wellFormed.remove.1
                  (represents.remove wellFormed) fewer
              refine ⟨memory', ?_, ?_, ?_⟩
              · simp [listForEachSafe, notHead, isDeleted, nextNode, ends]
              · simpa [isDeleted] using wellFormed'
              · simpa [isDeleted] using represents'
          | false =>
              have shape : kept ++ node :: rest = (kept ++ [node]) ++ rest := by
                simp
              rw [shape] at wellFormed represents
              obtain ⟨memory', ends, wellFormed', represents'⟩ :=
                inductionHypothesis wellFormed represents fewer
              refine ⟨memory', ?_, ?_, ?_⟩
              · simp [listForEachSafe, notHead, isDeleted, nextNode, ends]
              · simpa [isDeleted] using wellFormed'
              · simpa [isDeleted] using represents'

end Deleting

/--
After any edits, a loop that may delete what it visits visits all members of
its list.  Behind it, walks visit the members that were kept, and the members
of every other list.
-/
theorem forEachSafe_afterEdits
    (memory : Memory)
    (operations : List Operation)
    (earlier later : Lists)
    (head : Nat)
    (members : List Nat)
    (deletes : Nat → Bool)
    (fuel : Nat)
    (run : Run Edit [] operations (earlier ++ (head, members) :: later))
    (enough : members.length < fuel) :
    let memory := after memory operations
    let pos := next memory head
    ∃ memory',
      listForEachSafe deletes head fuel memory pos (next memory pos) =
          some (memory', members) ∧
        ∀ list ∈
            earlier ++
              (head, members.filter fun node => !deletes node) :: later,
          ∀ fuel,
            list.2.length < fuel →
            listForEach memory' list.1 fuel = some list.2 ∧
              listForEachBack memory' list.1 fuel = some list.2.reverse := by
  have both :
      WellFormed (earlier ++ (head, members) :: later) ∧
        Represents (after memory operations)
          (earlier ++ (head, members) :: later) :=
    represents_run run
  obtain ⟨wellFormed, represents⟩ := both
  have ring := represents (head, members) (by simp)
  have opened : WellFormed (earlier ++ (head, [] ++ members) :: later) :=
    wellFormed
  obtain ⟨memory', ends, wellFormed', represents'⟩ :=
    listForEachSafe_from opened represents enough
  refine ⟨memory', ?_, ?_⟩
  · rw [ring.next_head]
    exact ends
  · intro list member fuel enough
    exact forEach_of_represents wellFormed' represents' member enough

/-- The loop deletes the second of the two members. -/
theorem forEachSafe_twoLists :
    let memory := after (fun _ => 0x55) twoLists
    let pos := next memory 0x100
    ∃ memory',
      listForEachSafe (fun node => node = 0x300) 0x100 3 memory pos
            (next memory pos) =
          some (memory', [0x400, 0x300]) ∧
        listForEach memory' 0x100 2 = some [0x400] := by
  obtain ⟨memory', ends, walks⟩ :=
    forEachSafe_afterEdits (fun _ => 0x55) twoLists [(0x200, [])] [] 0x100
      [0x400, 0x300] (fun node => node = 0x300) 3 run_twoLists (by decide)
  exact ⟨memory', ends, (walks (0x100, [0x400]) (by decide) 2 (by decide)).1⟩

end Relics.LinkedList
