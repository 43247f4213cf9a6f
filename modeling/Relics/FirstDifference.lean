namespace FirstDifference

/-!
# The first difference of two sequences

Two sequences of one length are the same or differ first at some item of each,
and these two items decide which of the sequences is the lexicographically
smaller one.
-/

variable {α β : Type}

/-- Two sequences have these items where they differ first. -/
inductive DifferFirst : List α → List α → α → α → Prop where
  | here
      {item other : α}
      {rest later : List α}
      (different : item ≠ other) :
      DifferFirst (item :: rest) (other :: later) item other
  | behind
      {same item other : α}
      {rest later : List α}
      (differ : DifferFirst rest later item other) :
      DifferFirst (same :: rest) (same :: later) item other

/-- The sign of a number is the lexicographic order of two sequences. -/
structure Orders [LT α] (first second : List α) (order : Int) : Prop where
  negative : order < 0 ↔ first < second
  zero : order = 0 ↔ first = second
  positive : 0 < order ↔ second < first

namespace DifferFirst

variable {first second : List α}
variable {item other : α}

/-- The items are different. -/
theorem ne_items (differ : DifferFirst first second item other) :
    item ≠ other := by
  induction differ with
  | here different =>
      exact different
  | behind _ inductionHypothesis =>
      exact inductionHypothesis

/-- The sequences are different. -/
theorem ne_sequences (differ : DifferFirst first second item other) :
    first ≠ second := by
  induction differ with
  | here different =>
      exact fun same => different (List.head_eq_of_cons_eq same)
  | behind _ inductionHypothesis =>
      exact fun same => inductionHypothesis (List.tail_eq_of_cons_eq same)

/-- The items are found in the sequences. -/
theorem mem_sequences (differ : DifferFirst first second item other) :
    item ∈ first ∧ other ∈ second := by
  induction differ with
  | here _ =>
      exact ⟨List.mem_cons_self, List.mem_cons_self⟩
  | behind _ inductionHypothesis =>
      exact
        ⟨List.mem_cons_of_mem _ inductionHypothesis.1,
          List.mem_cons_of_mem _ inductionHypothesis.2⟩

/-- The other way round the items change places. -/
theorem symm (differ : DifferFirst first second item other) :
    DifferFirst second first other item := by
  induction differ with
  | here different =>
      exact .here (Ne.symm different)
  | behind _ inductionHypothesis =>
      exact .behind inductionHypothesis

/-- Sequences of images differ first at the images of the items. -/
theorem map
    {image : α → β}
    (injective : ∀ left right, image left = image right → left = right)
    (differ : DifferFirst first second item other) :
    DifferFirst (first.map image) (second.map image)
      (image item) (image other) := by
  induction differ with
  | here different =>
      exact .here fun same => different (injective _ _ same)
  | behind _ inductionHypothesis =>
      exact .behind inductionHypothesis

/-- The first difference is at the first items or behind equal ones. -/
theorem cons_iff
    {head head' : α}
    {rest later : List α} :
    DifferFirst (head :: rest) (head' :: later) item other ↔
      (head ≠ head' ∧ item = head ∧ other = head') ∨
        (head = head' ∧ DifferFirst rest later item other) := by
  constructor
  · intro differ
    cases differ with
    | here different =>
        exact Or.inl ⟨different, rfl, rfl⟩
    | behind differ =>
        exact Or.inr ⟨rfl, differ⟩
  · rintro (⟨different, rfl, rfl⟩ | ⟨rfl, differ⟩)
    · exact .here different
    · exact .behind differ

/-- There is only one first difference. -/
theorem unique
    {item' other' : α}
    (differ : DifferFirst first second item other)
    (differ' : DifferFirst first second item' other') :
    item = item' ∧ other = other' := by
  induction differ with
  | here different =>
      rcases cons_iff.mp differ' with ⟨-, rfl, rfl⟩ | ⟨equal, -⟩
      · exact ⟨rfl, rfl⟩
      · exact absurd equal different
  | behind _ inductionHypothesis =>
      rcases cons_iff.mp differ' with ⟨different, -, -⟩ | ⟨-, later⟩
      · exact absurd rfl different
      · exact inductionHypothesis later

/-- The items decide which sequence is the smaller one. -/
theorem lt_iff
    [LT α]
    [Std.Irrefl (· < · : α → α → Prop)]
    (differ : DifferFirst first second item other) :
    first < second ↔ item < other := by
  induction differ with
  | here different =>
      rw [List.cons_lt_cons_iff]
      exact or_iff_left fun equal => different equal.1
  | @behind same _ _ _ _ _ inductionHypothesis =>
      have notSmaller : ¬ same < same := Std.Irrefl.irrefl same
      rw [List.cons_lt_cons_iff, ← inductionHypothesis]
      constructor
      · rintro (smaller | ⟨-, restSmaller⟩)
        · exact absurd smaller notSmaller
        · exact restSmaller
      · exact fun restSmaller => Or.inr ⟨rfl, restSmaller⟩

end DifferFirst

variable {first second : List α}

/-- Sequences of one length are the same or have a first difference. -/
theorem eq_or_differFirst
    (sameLength : first.length = second.length) :
    first = second ∨
      ∃ item other, DifferFirst first second item other := by
  induction first generalizing second with
  | nil =>
      exact Or.inl (List.eq_nil_of_length_eq_zero sameLength.symm).symm
  | cons head rest inductionHypothesis =>
      cases second with
      | nil =>
          exact absurd sameLength (Nat.succ_ne_zero _)
      | cons head' later =>
          by_cases heads : head = head'
          · subst heads
            rcases inductionHypothesis (Nat.succ.inj sameLength) with
              rfl | ⟨item, other, differ⟩
            · exact Or.inl rfl
            · exact Or.inr ⟨item, other, .behind differ⟩
          · exact Or.inr ⟨head, head', .here heads⟩

section Order

variable [LT α] [Std.Irrefl (· < · : α → α → Prop)]
variable {order : Int}

/-- Only 0 orders a sequence and itself. -/
theorem orders_self (zero : order = 0) :
    Orders first first order := by
  have notSmaller : ¬ first < first := List.lt_irrefl first
  subst zero
  exact
    ⟨iff_of_false (Int.lt_irrefl 0) notSmaller, iff_of_true rfl rfl,
      iff_of_false (Int.lt_irrefl 0) notSmaller⟩

/-- A number orders two sequences when it orders their first difference. -/
theorem orders_iff
    {item other : α}
    (differ : DifferFirst first second item other)
    (nonzero : order ≠ 0) :
    Orders first second order ↔
      (order < 0 ↔ item < other) ∧ (0 < order ↔ other < item) := by
  constructor
  · intro orders
    rw [orders.negative, orders.positive, differ.lt_iff, differ.symm.lt_iff]
    exact ⟨Iff.rfl, Iff.rfl⟩
  · rintro ⟨negative, positive⟩
    exact
      { negative := by rw [negative, differ.lt_iff]
        zero := iff_of_false nonzero differ.ne_sequences
        positive := by rw [positive, differ.symm.lt_iff] }

end Order

end FirstDifference
