namespace Transducer

/-!
# Machines with outputs

A machine takes an input, answers it with some outputs and goes to its next
state.  A machine simulates another one if it answers the code of each of the
other's inputs as the other answers the input, and keeps the states related.
-/

variable {State Input Output : Type}
variable {State' Input' : Type}

/-- A machine that answers every input with some outputs. -/
structure Machine (State Input Output : Type) where
  next : State → Input → State
  output : State → Input → List Output

namespace Machine

variable (machine : Machine State Input Output)

/-- The state after some inputs. -/
def final (state : State) (inputs : List Input) : State :=
  inputs.foldl machine.next state

/-- The outputs to some inputs, in order. -/
def outputs (state : State) : List Input → List Output
  | [] => []
  | input :: inputs =>
      machine.output state input ++ outputs (machine.next state input) inputs

variable (state : State)
variable (inputs inputs' : List Input)
variable (input : Input)

@[simp]
theorem final_nil :
    machine.final state [] = state :=
  rfl

@[simp]
theorem final_cons :
    machine.final state (input :: inputs) =
      machine.final (machine.next state input) inputs :=
  rfl

@[simp]
theorem final_append :
    machine.final state (inputs ++ inputs') =
      machine.final (machine.final state inputs) inputs' :=
  List.foldl_append

@[simp]
theorem outputs_nil :
    machine.outputs state [] = [] :=
  rfl

@[simp]
theorem outputs_cons :
    machine.outputs state (input :: inputs) =
      machine.output state input ++
        machine.outputs (machine.next state input) inputs :=
  rfl

@[simp]
theorem outputs_append :
    machine.outputs state (inputs ++ inputs') =
      machine.outputs state inputs ++
        machine.outputs (machine.final state inputs) inputs' := by
  induction inputs generalizing state with
  | nil =>
      rfl
  | cons input inputs inductionHypothesis =>
      simp [inductionHypothesis]

/-- Every output is one to some input in some state. -/
theorem exists_of_mem_outputs
    {output : Output}
    (member : output ∈ machine.outputs state inputs) :
    ∃ state input, output ∈ machine.output state input := by
  induction inputs generalizing state with
  | nil =>
      cases member
  | cons input inputs inductionHypothesis =>
      rcases List.mem_append.mp member with first | later
      · exact ⟨state, input, first⟩
      · exact inductionHypothesis _ later

end Machine

/--
The machine answers the code of each of the other's inputs as the other
answers the input, and goes to a related state.
-/
structure Simulates
    (machine : Machine State Input Output)
    (other : Machine State' Input' Output)
    (code : Input' → List Input)
    (Related : State → State' → Prop) :
    Prop where
  related :
    ∀ {state state'} input,
      Related state state' →
      Related (machine.final state (code input)) (other.next state' input)
  outputs :
    ∀ {state state'} input,
      Related state state' →
      machine.outputs state (code input) = other.output state' input

section Simulation

variable {machine : Machine State Input Output}
variable {other : Machine State' Input' Output}
variable {code : Input' → List Input}
variable {Related : State → State' → Prop}
variable {state : State}
variable {state' : State'}

/-- A simulation goes on over any number of inputs. -/
theorem Simulates.run
    (simulates : Simulates machine other code Related)
    (initially : Related state state')
    (inputs : List Input') :
    Related (machine.final state (inputs.flatMap code))
        (other.final state' inputs) ∧
      machine.outputs state (inputs.flatMap code) =
        other.outputs state' inputs := by
  induction inputs generalizing state state' with
  | nil =>
      exact ⟨initially, rfl⟩
  | cons input inputs inductionHypothesis =>
      obtain ⟨related, sameOutputs⟩ :=
        inductionHypothesis (simulates.related input initially)
      rw [List.flatMap_cons, Machine.final_append, Machine.outputs_append]
      refine ⟨related, ?_⟩
      rw [simulates.outputs input initially, sameOutputs]
      rfl

end Simulation

end Transducer
