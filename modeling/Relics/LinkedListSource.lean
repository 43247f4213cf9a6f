import Mathlib.Data.List.Pairwise
import Relics.ByteMemory
import Relics.LinkedRing

namespace Relics.LinkedList

/-!
# The intrusive list of `linked_list.h`

A `struct ll_head` is two pointers: `next` at offset 0 and `prev` at offset 8.
The operations below are the header's, on the bytes that hold the nodes.  The
two results are that `list_add_` and `list_del` edit a ring of nodes whose
link words do not overlap exactly as `LinkedRing` describes.
-/

open ByteMemory LinkedRing

/-- `node->next` -/
def next (memory : Memory) (node : Nat) : Nat :=
  load memory node 8

/-- `node->prev` -/
def prev (memory : Memory) (node : Nat) : Nat :=
  load memory (node + 8) 8

/-- `node->next = value` -/
def setNext (memory : Memory) (node value : Nat) : Memory :=
  store memory node 8 value

/-- `node->prev = value` -/
def setPrev (memory : Memory) (node value : Nat) : Memory :=
  store memory (node + 8) 8 value

/-- `ll_head_INIT` -/
def listInit (memory : Memory) (head : Nat) : Memory :=
  setPrev (setNext memory head head) head head

/-- `list_add_`, also called `list_insert` -/
def listAdd_ (memory : Memory) (n left right : Nat) : Memory :=
  let memory := setPrev memory right n
  let memory := setNext memory n right
  let memory := setPrev memory n left
  setNext memory left n

/-- `list_add` -/
def listAdd (memory : Memory) (n head : Nat) : Memory :=
  listAdd_ memory n head (next memory head)

/-- `list_add_tail` -/
def listAddTail (memory : Memory) (n head : Nat) : Memory :=
  listAdd_ memory n (prev memory head) head

/-- `list_del_` -/
def listDel_ (memory : Memory) (left right : Nat) : Memory :=
  let memory := setPrev memory right left
  setNext memory left right

/-- `list_del` -/
def listDel (memory : Memory) (entry : Nat) : Memory :=
  let memory := listDel_ memory (prev memory entry) (next memory entry)
  let memory := setNext memory entry 0
  setPrev memory entry 0

/-- The link words of the two nodes do not overlap. -/
def Apart (first second : Nat) : Prop :=
  first + 16 ≤ second ∨ second + 16 ≤ first

theorem Apart.symm
    {first second : Nat}
    (apart : Apart first second) :
    Apart second first :=
  Or.symm apart

instance : Std.Symm Apart where
  symm _ _ := Apart.symm

theorem Apart.ne
    {first second : Nat}
    (apart : Apart first second) :
    first ≠ second := by
  unfold Apart at apart
  omega

/-- Two members of a pairwise apart list are equal or apart. -/
theorem eq_or_apart
    {nodes : List Nat}
    (apart : nodes.Pairwise Apart)
    {first second : Nat}
    (firstMember : first ∈ nodes)
    (secondMember : second ∈ nodes) :
    first = second ∨ Apart first second := by
  by_cases same : first = second
  · exact .inl same
  · exact .inr (apart.forall firstMember secondMember same)

section Fields

variable
    {memory : Memory}
    {node other value : Nat}

theorem next_setNext_same
    (fits : value < 2 ^ 64) :
    next (setNext memory node value) node = value :=
  (load_store_same memory node 8 value).trans (Nat.mod_eq_of_lt fits)

theorem prev_setPrev_same
    (fits : value < 2 ^ 64) :
    prev (setPrev memory node value) node = value :=
  (load_store_same memory (node + 8) 8 value).trans (Nat.mod_eq_of_lt fits)

theorem next_setNext_apart
    (apart : Apart node other) :
    next (setNext memory node value) other = next memory other := by
  apply load_store_apart
  unfold Apart at apart
  omega

theorem prev_setPrev_apart
    (apart : Apart node other) :
    prev (setPrev memory node value) other = prev memory other := by
  apply load_store_apart
  unfold Apart at apart
  omega

theorem next_setPrev
    (apart : node = other ∨ Apart node other) :
    next (setPrev memory node value) other = next memory other := by
  apply load_store_apart
  unfold Apart at apart
  omega

theorem prev_setNext
    (apart : node = other ∨ Apart node other) :
    prev (setNext memory node value) other = prev memory other := by
  apply load_store_apart
  unfold Apart at apart
  omega

end Fields

/-- The empty list is a ring without members. -/
theorem ring_listInit
    (memory : Memory)
    {head : Nat}
    (fits : head < 2 ^ 64) :
    Ring (next (listInit memory head)) (prev (listInit memory head)) head [] := by
  rw [ring_nil_iff]
  constructor
  · exact (next_setPrev (.inl rfl)).trans (next_setNext_same fits)
  · exact prev_setPrev_same fits

/-- `list_add_` writes only the link words of its three nodes. -/
theorem listAdd_outside
    {memory : Memory}
    {n left right address : Nat}
    (outside :
      ∀ node ∈ [n, left, right],
        address < node ∨ node + 16 ≤ address) :
    listAdd_ memory n left right address = memory address := by
  have aboutN := outside n (by simp)
  have aboutLeft := outside left (by simp)
  have aboutRight := outside right (by simp)
  simp only [listAdd_, setNext, setPrev]
  rw [store_outside (by omega), store_outside (by omega),
    store_outside (by omega), store_outside (by omega)]

/-- `list_del` writes only the link words of the entry and its neighbours. -/
theorem listDel_outside
    {memory : Memory}
    {entry address : Nat}
    (outside :
      ∀ node ∈ [entry, prev memory entry, next memory entry],
        address < node ∨ node + 16 ≤ address) :
    listDel memory entry address = memory address := by
  have aboutEntry := outside entry (by simp)
  have aboutLeft := outside (prev memory entry) (by simp)
  have aboutRight := outside (next memory entry) (by simp)
  simp only [listDel, listDel_, setNext, setPrev]
  rw [store_outside (by omega), store_outside (by omega),
    store_outside (by omega), store_outside (by omega)]

section Rings

variable
    {memory : Memory}
    {head node : Nat}
    {before after : List Nat}

/-- `list_add_` between two linked nodes links a node with fresh link words in. -/
theorem ring_listAdd_
    (ring : Ring (next memory) (prev memory) head (before ++ after))
    (apart : (node :: head :: (before ++ after)).Pairwise Apart)
    (fits : ∀ other ∈ node :: head :: (before ++ after), other < 2 ^ 64) :
    Ring
      (next (listAdd_ memory node (leftOf head before) (rightOf head after)))
      (prev (listAdd_ memory node (leftOf head before) (rightOf head after)))
      head (before ++ node :: after) := by
  obtain ⟨nodeApart, cycleApart⟩ := List.pairwise_cons.mp apart
  have noDuplicates : (head :: (before ++ after)).Nodup :=
    cycleApart.imp Apart.ne
  have leftMember := leftOf_mem_cycle head before after
  have rightMember := rightOf_mem_cycle head before after
  have nodeFits := fits node (by simp)
  have leftFits := fits _ (List.mem_cons_of_mem node leftMember)
  have rightFits := fits _ (List.mem_cons_of_mem node rightMember)
  have nodeLeft := nodeApart _ leftMember
  have nodeRight := nodeApart _ rightMember
  have seamApart := eq_or_apart cycleApart leftMember rightMember
  apply ring.insert noDuplicates
  · intro other member notLeft
    have fromNode := nodeApart other member
    have fromLeft :=
      (eq_or_apart cycleApart leftMember member).resolve_left (Ne.symm notLeft)
    have fromRight := eq_or_apart cycleApart rightMember member
    simp only [listAdd_]
    rw [next_setNext_apart fromLeft, next_setPrev (.inr fromNode),
      next_setNext_apart fromNode, next_setPrev fromRight]
  · intro other member notRight
    have fromNode := nodeApart other member
    have fromLeft := eq_or_apart cycleApart leftMember member
    have fromRight :=
      (eq_or_apart cycleApart rightMember member).resolve_left
        (Ne.symm notRight)
    simp only [listAdd_]
    rw [prev_setNext fromLeft, prev_setPrev_apart fromNode,
      prev_setNext (.inr fromNode), prev_setPrev_apart fromRight]
  · constructor
    · exact next_setNext_same nodeFits
    · simp only [listAdd_]
      rw [prev_setNext (.inr nodeLeft.symm), prev_setPrev_same leftFits]
  · constructor
    · simp only [listAdd_]
      rw [next_setNext_apart nodeLeft.symm, next_setPrev (.inl rfl),
        next_setNext_same rightFits]
    · simp only [listAdd_]
      rw [prev_setNext seamApart, prev_setPrev_apart nodeRight,
        prev_setNext (.inr nodeRight), prev_setPrev_same nodeFits]

/-- `list_del` unlinks a member whose link words overlap no other node's. -/
theorem ring_listDel
    (ring : Ring (next memory) (prev memory) head (before ++ node :: after))
    (apart : (node :: head :: (before ++ after)).Pairwise Apart)
    (fits : ∀ other ∈ head :: (before ++ after), other < 2 ^ 64) :
    Ring (next (listDel memory node)) (prev (listDel memory node))
      head (before ++ after) := by
  obtain ⟨nodeApart, cycleApart⟩ := List.pairwise_cons.mp apart
  have noDuplicates : (head :: (before ++ after)).Nodup :=
    cycleApart.imp Apart.ne
  have leftMember := leftOf_mem_cycle head before after
  have rightMember := rightOf_mem_cycle head before after
  have leftFits := fits _ leftMember
  have rightFits := fits _ rightMember
  have nodeLeft := nodeApart _ leftMember
  have nodeRight := nodeApart _ rightMember
  have seamApart := eq_or_apart cycleApart leftMember rightMember
  obtain ⟨nodeNext, nodePrev⟩ := ring.links_of_member
  apply ring.remove noDuplicates
  · intro other member notLeft
    have fromNode := nodeApart other member
    have fromLeft :=
      (eq_or_apart cycleApart leftMember member).resolve_left (Ne.symm notLeft)
    have fromRight := eq_or_apart cycleApart rightMember member
    simp only [listDel, listDel_, nodeNext, nodePrev]
    rw [next_setPrev (.inr fromNode), next_setNext_apart fromNode,
      next_setNext_apart fromLeft, next_setPrev fromRight]
  · intro other member notRight
    have fromNode := nodeApart other member
    have fromLeft := eq_or_apart cycleApart leftMember member
    have fromRight :=
      (eq_or_apart cycleApart rightMember member).resolve_left
        (Ne.symm notRight)
    simp only [listDel, listDel_, nodeNext, nodePrev]
    rw [prev_setPrev_apart fromNode, prev_setNext (.inr fromNode),
      prev_setNext fromLeft, prev_setPrev_apart fromRight]
  · constructor
    · simp only [listDel, listDel_, nodeNext, nodePrev]
      rw [next_setPrev (.inr nodeLeft), next_setNext_apart nodeLeft,
        next_setNext_same rightFits]
    · simp only [listDel, listDel_, nodeNext, nodePrev]
      rw [prev_setPrev_apart nodeRight, prev_setNext (.inr nodeRight),
        prev_setNext seamApart, prev_setPrev_same leftFits]

end Rings

end Relics.LinkedList
