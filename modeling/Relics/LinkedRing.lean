import Mathlib.Data.List.Chain
import Mathlib.Data.List.Nodup

namespace LinkedRing

/-!
# Circular doubly linked lists

A ring is a head node and a list of members such that walking the `next`
links from the head visits the members in order and returns to the head,
and every `prev` link inverts the `next` link before it.  The two edits of
a doubly linked list, linking a fresh node in and unlinking a member, only
have to be checked at the seam; every other link keeps its value.
-/

variable {Node : Type}

/-- The two nodes are linked to each other in both directions. -/
def Linked (next prev : Node → Node) (left right : Node) : Prop :=
  next left = right ∧ prev right = left

/-- The members are linked in order between two occurrences of the head. -/
def Ring
    (next prev : Node → Node)
    (head : Node)
    (members : List Node) :
    Prop :=
  List.IsChain (Linked next prev) (head :: members ++ [head])

/-- The node before the cut that follows `before`: its last node or the head. -/
def leftOf (head : Node) (before : List Node) : Node :=
  before.getLastD head

/-- The node after the cut that precedes `after`: its first node or the head. -/
def rightOf (head : Node) (after : List Node) : Node :=
  after.headD head

@[simp] theorem leftOf_concat
    (head last : Node)
    (before : List Node) :
    leftOf head (before ++ [last]) = last :=
  List.getLastD_concat

@[simp] theorem rightOf_nil (head : Node) :
    rightOf head [] = head :=
  rfl

@[simp] theorem rightOf_cons
    (head first : Node)
    (after : List Node) :
    rightOf head (first :: after) = first :=
  rfl

/-- The node before a cut is the head or one of the members before it. -/
theorem leftOf_mem
    (head : Node)
    (before : List Node) :
    leftOf head before ∈ head :: before :=
  List.getLastD_mem_cons

/-- The node after a cut is the head or one of the members after it. -/
theorem rightOf_mem
    (head : Node)
    (after : List Node) :
    rightOf head after ∈ head :: after := by
  cases after <;> simp

/-- The node before a cut is a node of the cycle. -/
theorem leftOf_mem_cycle
    (head : Node)
    (before after : List Node) :
    leftOf head before ∈ head :: (before ++ after) :=
  List.cons_subset_cons head (List.subset_append_left before after)
    (leftOf_mem head before)

/-- The node after a cut is a node of the cycle. -/
theorem rightOf_mem_cycle
    (head : Node)
    (before after : List Node) :
    rightOf head after ∈ head :: (before ++ after) :=
  List.cons_subset_cons head (List.subset_append_right before after)
    (rightOf_mem head after)

/-- The node before a cut ends the part of the cycle before the cut. -/
theorem dropLast_concat_leftOf
    (head : Node)
    (before : List Node) :
    (head :: before).dropLast ++ [leftOf head before] =
      head :: before := by
  have last :
      leftOf head before =
        (head :: before).getLast (List.cons_ne_nil head before) :=
    (List.getLast_eq_getLastD _).symm
  rw [last, List.dropLast_concat_getLast]

/--
A chain of links survives any change of the link functions that keeps `next`
on all nodes but the last and `prev` on all nodes but the first.
-/
theorem chain_congr
    {next prev next' prev' : Node → Node}
    {nodes : List Node}
    (chain : List.IsChain (Linked next prev) nodes)
    (sameNext : ∀ node, node ∈ nodes.dropLast → next' node = next node)
    (samePrev : ∀ node, node ∈ nodes.tail → prev' node = prev node) :
    List.IsChain (Linked next' prev') nodes := by
  induction nodes with
  | nil =>
      exact .nil
  | cons first rest inductionHypothesis =>
      cases rest with
      | nil =>
          exact .singleton first
      | cons second rest =>
          obtain ⟨⟨forward, backward⟩, later⟩ :=
            List.isChain_cons_cons.mp chain
          refine List.isChain_cons_cons.mpr ⟨⟨?_, ?_⟩, ?_⟩
          · rw [sameNext first (by simp), forward]
          · rw [samePrev second (by simp), backward]
          · apply inductionHypothesis later
            · intro node member
              exact sameNext node (by simp [member])
            · intro node member
              exact samePrev node (by simp_all)

/-- Changing links outside the ring keeps the ring. -/
theorem Ring.congr
    {next prev next' prev' : Node → Node}
    {head : Node}
    {members : List Node}
    (ring : Ring next prev head members)
    (sameNext : ∀ node, node ∈ head :: members → next' node = next node)
    (samePrev : ∀ node, node ∈ head :: members → prev' node = prev node) :
    Ring next' prev' head members := by
  apply chain_congr ring
  · intro node member
    apply sameNext
    rwa [List.dropLast_concat] at member
  · intro node member
    apply samePrev
    simp only [List.cons_append, List.tail_cons, List.mem_append,
      List.mem_singleton] at member
    rcases member with inMembers | isHead
    · simp [inMembers]
    · simp [isHead]

/-- A ring without members is a head linked to itself. -/
theorem ring_nil_iff
    {next prev : Node → Node}
    {head : Node} :
    Ring next prev head [] ↔ next head = head ∧ prev head = head := by
  simp [Ring, Linked]

/-- The seam of a ring cut between `before` and `after`. -/
theorem Ring.seam
    {next prev : Node → Node}
    {head : Node}
    {before after : List Node} :
    Ring next prev head (before ++ after) ↔
      List.IsChain (Linked next prev) (head :: before) ∧
        List.IsChain (Linked next prev) (after ++ [head]) ∧
        Linked next prev (leftOf head before) (rightOf head after) := by
  have cut :
      head :: (before ++ after) ++ [head] =
        (head :: before) ++ (after ++ [head]) := by
    simp
  have lastOfLeft :
      (head :: before).getLast? = some (leftOf head before) := by
    rw [← dropLast_concat_leftOf, List.getLast?_concat]
  have headOfRight :
      (after ++ [head]).head? = some (rightOf head after) := by
    cases after <;> simp
  unfold Ring
  rw [cut, List.isChain_append, lastOfLeft, headOfRight]
  simp

/-- The links of one member. -/
theorem Ring.links_of_member
    {next prev : Node → Node}
    {head node : Node}
    {before after : List Node}
    (ring : Ring next prev head (before ++ node :: after)) :
    next node = rightOf head after ∧ prev node = leftOf head before := by
  have leftSeam := (Ring.seam.mp ring).2.2
  have shifted : Ring next prev head ((before ++ [node]) ++ after) := by
    simpa using ring
  have rightSeam := (Ring.seam.mp shifted).2.2
  constructor
  · simpa [Linked] using rightSeam.1
  · simpa [Linked] using leftSeam.2

/-- The head points at the first member. -/
theorem Ring.next_head
    {next prev : Node → Node}
    {head : Node}
    {members : List Node}
    (ring : Ring next prev head members) :
    next head = rightOf head members := by
  have opened : Ring next prev head ([] ++ members) :=
    ring
  exact (Ring.seam.mp opened).2.2.1

/-- The last member is the one before the head. -/
theorem Ring.prev_head
    {next prev : Node → Node}
    {head : Node}
    {members : List Node}
    (ring : Ring next prev head members) :
    prev head = leftOf head members := by
  have closed : Ring next prev head (members ++ []) := by
    simpa using ring
  exact (Ring.seam.mp closed).2.2.2

/-- The nodes that a walk along `next` visits until it is back at the head. -/
inductive Visited (next : Node → Node) (head : Node) : Node → Prop where
  | first
      (inside : next head ≠ head) :
      Visited next head (next head)
  | onwards
      {node : Node}
      (earlier : Visited next head node)
      (inside : next node ≠ head) :
      Visited next head (next node)

/-- A walk visits the members of a ring and nothing else. -/
theorem Ring.visited_iff
    {next prev : Node → Node}
    {head node : Node}
    {members : List Node}
    (ring : Ring next prev head members)
    (headOutside : head ∉ members) :
    Visited next head node ↔ node ∈ members := by
  constructor
  · intro visited
    induction visited with
    | first inside =>
        rw [ring.next_head] at inside ⊢
        have among := rightOf_mem head members
        exact (List.mem_cons.mp among).resolve_left inside
    | onwards earlier inside inductionHypothesis =>
        obtain ⟨before, after, shape⟩ := List.append_of_mem inductionHypothesis
        rw [shape] at ring
        rw [ring.links_of_member.1] at inside ⊢
        have among := rightOf_mem head after
        have later := (List.mem_cons.mp among).resolve_left inside
        simp [shape, later]
  · intro member
    obtain ⟨before, after, shape⟩ := List.append_of_mem member
    -- the walk reaches each node from the one before it
    induction before using List.reverseRecOn generalizing node after with
    | nil =>
        have arrives : next head = node := by
          rw [ring.next_head, shape]
          rfl
        have inside : next head ≠ head := by
          rw [arrives]
          exact fun isHead => headOutside (isHead ▸ member)
        exact arrives ▸ .first inside
    | append_singleton before last inductionHypothesis =>
        have shorter : members = before ++ last :: (node :: after) := by
          simp [shape]
        have lastMember : last ∈ members := by
          simp [shape]
        have lastVisited := inductionHypothesis lastMember _ shorter
        have arrives : next last = node := by
          rw [shorter] at ring
          exact ring.links_of_member.1
        have inside : next last ≠ head := by
          rw [arrives]
          exact fun isHead => headOutside (isHead ▸ member)
        exact arrives ▸ lastVisited.onwards inside

/-- Both directions of a ring are rings. -/
theorem Ring.reverse
    {next prev : Node → Node}
    {head : Node}
    {members : List Node}
    (ring : Ring next prev head members) :
    Ring prev next head members.reverse := by
  have turned :
      head :: members.reverse ++ [head] = (head :: members ++ [head]).reverse := by
    simp
  unfold Ring at ring ⊢
  rw [turned, List.isChain_reverse]
  exact ring.imp fun _ _ linked => ⟨linked.2, linked.1⟩

/-- The nodes on a walk along the links from a position to the head. -/
def walk
    [DecidableEq Node]
    (link : Node → Node)
    (head : Node) :
    (fuel : Nat) →
    (pos : Node) →
    Option (List Node)
  | 0, _ => none
  | fuel + 1, pos =>
      if pos = head then
        some []
      else
        (walk link head fuel (link pos)).map fun visited => pos :: visited

/-- A walk from the first of some members visits them in order. -/
theorem walk_of_isChain
    [DecidableEq Node]
    {next prev : Node → Node}
    {head : Node}
    {members : List Node}
    (chain : List.IsChain (Linked next prev) (members ++ [head]))
    (headOutside : head ∉ members)
    {fuel : Nat}
    (enough : members.length < fuel) :
    walk next head fuel (rightOf head members) = some members := by
  induction members generalizing fuel with
  | nil =>
      cases fuel with
      | zero =>
          cases enough
      | succ fuel =>
          simp [walk]
  | cons node rest inductionHypothesis =>
      cases fuel with
      | zero =>
          cases enough
      | succ fuel =>
          have notHead : node ≠ head :=
            fun same => headOutside (same ▸ List.mem_cons_self)
          have onwards : next node = rightOf head rest := by
            cases rest with
            | nil =>
                exact (List.isChain_cons_cons.mp chain).1.1
            | cons other rest =>
                exact (List.isChain_cons_cons.mp chain).1.1
          have later :=
            inductionHypothesis chain.tail
              (List.not_mem_of_not_mem_cons headOutside)
              (Nat.lt_of_succ_lt_succ enough)
          simp [walk, notHead, onwards, later]

/-- A walk around a ring visits its members in order. -/
theorem Ring.walk
    [DecidableEq Node]
    {next prev : Node → Node}
    {head : Node}
    {members : List Node}
    (ring : Ring next prev head members)
    (headOutside : head ∉ members)
    {fuel : Nat}
    (enough : members.length < fuel) :
    walk next head fuel (next head) = some members := by
  rw [ring.next_head]
  exact walk_of_isChain ring.tail headOutside enough

/-- The members of a ring are determined by its links. -/
theorem Ring.unique
    {next prev : Node → Node}
    {head : Node}
    {first second : List Node}
    (firstRing : Ring next prev head first)
    (secondRing : Ring next prev head second)
    (notInFirst : head ∉ first)
    (notInSecond : head ∉ second) :
    first = second := by
  -- two walks that start at the same node and stop at the head
  have walk :
      ∀ (start : Node) (left right : List Node),
        List.IsChain (Linked next prev) (start :: left ++ [head]) →
        List.IsChain (Linked next prev) (start :: right ++ [head]) →
        head ∉ left →
        head ∉ right →
        left = right := by
    intro start left
    induction left generalizing start with
    | nil =>
        intro right leftChain rightChain _ notInRight
        cases right with
        | nil =>
            rfl
        | cons node rest =>
            have stops := (List.isChain_cons_cons.mp leftChain).1.1
            have goesOn := (List.isChain_cons_cons.mp rightChain).1.1
            rw [stops] at goesOn
            simp [goesOn] at notInRight
    | cons node rest inductionHypothesis =>
        intro right leftChain rightChain notInLeft notInRight
        cases right with
        | nil =>
            have goesOn := (List.isChain_cons_cons.mp leftChain).1.1
            have stops := (List.isChain_cons_cons.mp rightChain).1.1
            rw [stops] at goesOn
            simp [goesOn] at notInLeft
        | cons other later =>
            obtain ⟨⟨toNode, -⟩, leftLater⟩ := List.isChain_cons_cons.mp leftChain
            obtain ⟨⟨toOther, -⟩, rightLater⟩ :=
              List.isChain_cons_cons.mp rightChain
            rw [toNode] at toOther
            subst other
            have same :=
              inductionHypothesis node later leftLater rightLater
                (List.not_mem_of_not_mem_cons notInLeft)
                (List.not_mem_of_not_mem_cons notInRight)
            rw [same]
  exact walk head first second firstRing secondRing notInFirst notInSecond

section Edits

variable
    {next prev next' prev' : Node → Node}
    {head node : Node}
    {before after : List Node}

/-- What a cut of a duplicate-free cycle keeps apart. -/
structure Cut (head : Node) (before after : List Node) : Prop where
  beforeNodup : (head :: before).Nodup
  afterNodup : (after ++ [head]).Nodup
  headNotBefore : head ∉ before
  headNotAfter : head ∉ after
  disjoint : ∀ first ∈ before, ∀ second ∈ after, first ≠ second

/-- The two sides of a duplicate-free cycle share its head only. -/
theorem cut_of_nodup
    (noDuplicates : (head :: (before ++ after)).Nodup) :
    Cut head before after := by
  obtain ⟨headFresh, membersNodup⟩ := List.nodup_cons.mp noDuplicates
  obtain ⟨beforeNodup, afterNodup, disjoint⟩ :=
    List.nodup_append.mp membersNodup
  have headNotBefore : head ∉ before :=
    fun member => headFresh (List.mem_append_left after member)
  have headNotAfter : head ∉ after :=
    fun member => headFresh (List.mem_append_right before member)
  exact
    { beforeNodup := List.nodup_cons.mpr ⟨headNotBefore, beforeNodup⟩
      afterNodup :=
        List.nodup_append_comm.mp
          (List.nodup_cons.mpr ⟨headNotAfter, afterNodup⟩)
      headNotBefore := headNotBefore
      headNotAfter := headNotAfter
      disjoint := disjoint }

/-- An edit touches only `next` of the left and `prev` of the right seam node. -/
structure SeamEdit
    (next prev next' prev' : Node → Node)
    (head : Node)
    (before after : List Node) :
    Prop where
  sameNext :
    ∀ other,
      other ∈ head :: (before ++ after) →
      other ≠ leftOf head before →
      next' other = next other
  samePrev :
    ∀ other,
      other ∈ head :: (before ++ after) →
      other ≠ rightOf head after →
      prev' other = prev other

/-- The links in front of a cut survive an edit of its seam. -/
theorem Cut.leftSide
    (cut : Cut head before after)
    (edit : SeamEdit next prev next' prev' head before after)
    (leftChain : List.IsChain (Linked next prev) (head :: before)) :
    List.IsChain (Linked next' prev') (head :: before) := by
  apply chain_congr leftChain
  · intro other member
    apply edit.sameNext
    · have inLeft := List.dropLast_subset _ member
      simp only [List.mem_cons, List.mem_append] at inLeft ⊢
      tauto
    · -- the left seam node is the last of this side, and only there
      rintro rfl
      have leftNodup := cut.beforeNodup
      rw [← dropLast_concat_leftOf] at leftNodup
      exact (List.nodup_append.mp leftNodup).2.2 _ member _ (by simp) rfl
  · intro other member
    have inBefore : other ∈ before := by simpa using member
    apply edit.samePrev
    · simp [inBefore]
    · rintro rfl
      rcases List.mem_cons.mp (rightOf_mem head after) with isHead | inAfter
      · exact cut.headNotBefore (isHead ▸ inBefore)
      · exact cut.disjoint _ inBefore _ inAfter rfl

/-- The links behind a cut survive an edit of its seam. -/
theorem Cut.rightSide
    (cut : Cut head before after)
    (edit : SeamEdit next prev next' prev' head before after)
    (rightChain : List.IsChain (Linked next prev) (after ++ [head])) :
    List.IsChain (Linked next' prev') (after ++ [head]) := by
  apply chain_congr rightChain
  · intro other member
    have inAfter : other ∈ after := by
      rwa [List.dropLast_concat] at member
    apply edit.sameNext
    · simp [inAfter]
    · rintro rfl
      rcases List.mem_cons.mp (leftOf_mem head before) with isHead | inBefore
      · exact cut.headNotAfter (isHead ▸ inAfter)
      · exact cut.disjoint _ inBefore _ inAfter rfl
  · intro other member
    cases after with
    | nil =>
        simp at member
    | cons first rest =>
        -- the right seam node is the first of this side, and only there
        have firstFresh : first ∉ rest ++ [head] :=
          (List.nodup_cons.mp cut.afterNodup).1
        have inTail : other ∈ rest ++ [head] := member
        apply edit.samePrev
        · rcases List.mem_append.mp inTail with inRest | isHead
          · simp [inRest]
          · simp [List.mem_singleton.mp isHead]
        · rintro rfl
          exact firstFresh inTail

/-- Linking a fresh node in at a cut. -/
theorem Ring.insert
    (ring : Ring next prev head (before ++ after))
    (noDuplicates : (head :: (before ++ after)).Nodup)
    (sameNext :
      ∀ other,
        other ∈ head :: (before ++ after) →
        other ≠ leftOf head before →
        next' other = next other)
    (samePrev :
      ∀ other,
        other ∈ head :: (before ++ after) →
        other ≠ rightOf head after →
        prev' other = prev other)
    (leftLinked : Linked next' prev' (leftOf head before) node)
    (rightLinked : Linked next' prev' node (rightOf head after)) :
    Ring next' prev' head (before ++ node :: after) := by
  obtain ⟨leftBefore, rightBefore, -⟩ := Ring.seam.mp ring
  have cut := cut_of_nodup noDuplicates
  have edit : SeamEdit next prev next' prev' head before after :=
    ⟨sameNext, samePrev⟩
  have leftChain := cut.leftSide edit leftBefore
  have rightChain := cut.rightSide edit rightBefore
  refine Ring.seam.mpr ⟨leftChain, ?_, leftLinked⟩
  cases after with
  | nil =>
      simpa using rightLinked
  | cons first rest =>
      exact List.isChain_cons_cons.mpr ⟨rightLinked, rightChain⟩

/-- Unlinking a member: its two neighbours are linked to each other. -/
theorem Ring.remove
    (ring : Ring next prev head (before ++ node :: after))
    (noDuplicates : (head :: (before ++ after)).Nodup)
    (sameNext :
      ∀ other,
        other ∈ head :: (before ++ after) →
        other ≠ leftOf head before →
        next' other = next other)
    (samePrev :
      ∀ other,
        other ∈ head :: (before ++ after) →
        other ≠ rightOf head after →
        prev' other = prev other)
    (linked :
      Linked next' prev' (leftOf head before) (rightOf head after)) :
    Ring next' prev' head (before ++ after) := by
  obtain ⟨leftBefore, nodeBefore, -⟩ := Ring.seam.mp ring
  have cut := cut_of_nodup noDuplicates
  have edit : SeamEdit next prev next' prev' head before after :=
    ⟨sameNext, samePrev⟩
  have leftChain := cut.leftSide edit leftBefore
  have rightChain := cut.rightSide edit nodeBefore.tail
  exact Ring.seam.mpr ⟨leftChain, rightChain, linked⟩

end Edits

end LinkedRing
