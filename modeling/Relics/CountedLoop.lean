namespace CountedLoop

/-!
# Counted loops

A loop whose body runs with the counter at 0, 1, and so on up to a fixed
bound, and the rule that carries an invariant from its start to its end.
-/

variable {State : Type}

/-- Run the body with the counter at `0, …, count - 1`. -/
def loop
    (body : Nat → State → State)
    (initial : State) :
    (count : Nat) →
    State
  | 0 => initial
  | count + 1 => body count (loop body initial count)

/-- An invariant of the counter and the state holds when the loop ends. -/
theorem loop_invariant
    {body : Nat → State → State}
    {initial : State}
    {count : Nat}
    (invariant : Nat → State → Prop)
    (initially : invariant 0 initial)
    (preserved :
      ∀ index state,
        index < count →
        invariant index state →
        invariant (index + 1) (body index state)) :
    invariant count (loop body initial count) := by
  induction count with
  | zero =>
      exact initially
  | succ count inductionHypothesis =>
      apply preserved count _ (Nat.lt_succ_self count)
      apply inductionHypothesis
      intro index state inside
      exact preserved index state (Nat.lt_succ_of_lt inside)

end CountedLoop
