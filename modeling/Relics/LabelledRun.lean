import Mathlib.Data.List.Induction

namespace LabelledRun

/-!
# Runs of a labelled transition relation

A run lists the actions taken from a fixed initial state.  It grows at its
end, so that an induction over a run meets the states in the order in which
they are reached.  Where a step is a function, a run is a fold.
-/

variable {State Action : Type}

/-- The state is reached from the initial one by taking the actions in order. -/
inductive Run
    (step : State → Action → State → Prop)
    (initial : State) :
    List Action → State → Prop where
  | start :
      Run step initial [] initial
  | extend
      {actions : List Action}
      {state next : State}
      {action : Action} :
      Run step initial actions state →
      step state action next →
      Run step initial (actions ++ [action]) next

/-- The steps of a relation that meet a condition on their source state and action. -/
def Guarded
    (step : State → Action → State → Prop)
    (condition : State → Action → Prop)
    (state : State)
    (action : Action)
    (next : State) :
    Prop :=
  condition state action ∧ step state action next

/-- What the actions tell last, or what held before if they tell nothing -/
def latest
    {Value : Type}
    (tells : Action → Option Value)
    (before : Value)
    (actions : List Action) :
    Value :=
  (actions.filterMap tells).getLast?.getD before

/-- The last action has the last word. -/
theorem latest_append
    {Value : Type}
    (tells : Action → Option Value)
    (before : Value)
    (actions : List Action)
    (action : Action) :
    latest tells before (actions ++ [action]) =
      (tells action).getD (latest tells before actions) := by
  unfold latest
  rw [List.filterMap_append]
  cases said : tells action with
  | none =>
      simp [said]
  | some value =>
      simp [said]

namespace Run

variable
    {step : State → Action → State → Prop}
    {initial final : State}
    {actions : List Action}

/-- What every step preserves, every run preserves. -/
theorem preserves
    (run : Run step initial actions final)
    (invariant : State → Prop)
    (initially : invariant initial)
    (preserved :
      ∀ {state action next},
        invariant state →
        step state action next →
        invariant next) :
    invariant final := by
  induction run with
  | start =>
      exact initially
  | extend _ last inductionHypothesis =>
      exact preserved inductionHypothesis last

/-- A run with a last action ends with a step that takes it. -/
theorem exists_last
    {action : Action}
    (run : Run step initial (actions ++ [action]) final) :
    ∃ state,
      Run step initial actions state ∧ step state action final := by
  generalize taken : actions ++ [action] = all at run
  cases run with
  | start =>
      simp at taken
  | extend earlier last =>
      obtain ⟨rfl, same⟩ := List.append_inj' taken rfl
      obtain rfl := List.singleton_inj.mp same
      exact ⟨_, earlier, last⟩

/-- A run with one action is a step. -/
theorem single
    {action : Action}
    (run : Run step initial [action] final) :
    step initial action final := by
  rw [← List.nil_append [action]] at run
  obtain ⟨state, earlier, last⟩ := run.exists_last
  generalize taken : ([] : List Action) = none at earlier
  cases earlier with
  | start =>
      exact last
  | extend =>
      simp at taken

/-- A run passes through a state between any two parts of its actions. -/
theorem exists_middle
    {earlier later : List Action}
    (run : Run step initial (earlier ++ later) final) :
    ∃ middle,
      Run step initial earlier middle ∧ Run step middle later final := by
  induction later using List.reverseRecOn generalizing final with
  | nil =>
      exact ⟨final, by simpa using run, .start⟩
  | append_singleton later action inductionHypothesis =>
      rw [← List.append_assoc] at run
      obtain ⟨state, shorter, last⟩ := run.exists_last
      obtain ⟨middle, first, second⟩ := inductionHypothesis shorter
      exact ⟨middle, first, .extend second last⟩

/-- Where a step is determined by its action, the actions determine the run. -/
theorem deterministic
    {other : State}
    (run : Run step initial actions final)
    (functional :
      ∀ {state action next next'},
        step state action next →
        step state action next' →
        next = next')
    (run' : Run step initial actions other) :
    final = other := by
  induction run generalizing other with
  | start =>
      generalize taken : ([] : List Action) = all at run'
      cases run' with
      | start =>
          rfl
      | extend =>
          simp at taken
  | extend _ last inductionHypothesis =>
      obtain ⟨state, earlier, last'⟩ := run'.exists_last
      obtain rfl := inductionHypothesis earlier
      exact functional last last'

/-- The actions that a partial step function accepts in a row are a run. -/
theorem of_foldlM
    {step? : State → Action → Option State}
    (accepted : actions.foldlM step? initial = some final) :
    Run (fun state action next => step? state action = some next)
      initial actions final := by
  induction actions using List.reverseRecOn generalizing final with
  | nil =>
      obtain rfl := Option.some.inj accepted
      exact .start
  | append_singleton actions action inductionHypothesis =>
      rw [List.foldlM_append] at accepted
      obtain ⟨state, earlier, last⟩ := Option.bind_eq_some_iff.mp accepted
      exact .extend (inductionHypothesis earlier) (by simpa using last)

/-- A run is one of another relation that has its steps in the states reached. -/
theorem mono
    {step' : State → Action → State → Prop}
    (run : Run step initial actions final)
    (included :
      ∀ {actions state action next},
        Run step' initial actions state →
        step state action next →
        step' state action next) :
    Run step' initial actions final := by
  induction run with
  | start =>
      exact .start
  | extend _ last inductionHypothesis =>
      exact .extend inductionHypothesis (included inductionHypothesis last)

/--
A function of the states that takes every step, in the states reached, to a
step of another relation takes every run to one of that relation.
-/
theorem image
    {Abstract : Type}
    {step' : Abstract → Action → Abstract → Prop}
    (view : State → Abstract)
    (run : Run step initial actions final)
    (simulates :
      ∀ {actions state action next},
        Run step initial actions state →
        step state action next →
        step' (view state) action (view next)) :
    Run step' (view initial) actions (view final) := by
  induction run with
  | start =>
      exact .start
  | extend earlier last inductionHypothesis =>
      exact .extend inductionHypothesis (simulates earlier last)

/--
Where some of the actions are those of another relation and the others do
not change its view, every run is, seen so, one of that relation.
-/
theorem project
    {Abstract Label : Type}
    {step' : Abstract → Label → Abstract → Prop}
    (view : State → Abstract)
    (label : Action → Option Label)
    (run : Run step initial actions final)
    (unseen :
      ∀ {state action next},
        label action = none →
        step state action next →
        view next = view state)
    (simulates :
      ∀ {state action next seen},
        label action = some seen →
        step state action next →
        step' (view state) seen (view next)) :
    Run step' (view initial) (actions.filterMap label) (view final) := by
  induction run with
  | start =>
      exact .start
  | @extend actions state next action _ last inductionHypothesis =>
      rw [List.filterMap_append]
      cases seen : label action with
      | none =>
          rw [unseen seen last]
          simpa [seen] using inductionHypothesis
      | some event =>
          simpa [seen] using
            inductionHypothesis.extend (simulates seen last)

/-- A run from a state that is reached continues the run that reaches it. -/
theorem append
    {middle : State}
    {later : List Action}
    (run : Run step initial actions middle)
    (onwards : Run step middle later final) :
    Run step initial (actions ++ later) final := by
  induction onwards with
  | start =>
      simpa using run
  | extend _ last inductionHypothesis =>
      rw [← List.append_assoc]
      exact .extend inductionHypothesis last

/-- Where each step sets a view to what its action tells, so does a run. -/
theorem view_eq_latest
    {Value : Type}
    {tells : Action → Option Value}
    {view : State → Value}
    (run : Run step initial actions final)
    (follows :
      ∀ {actions state action next},
        Run step initial actions state →
        step state action next →
        view next = (tells action).getD (view state)) :
    view final = latest tells (view initial) actions := by
  induction run with
  | start =>
      rfl
  | extend earlier last inductionHypothesis =>
      rw [latest_append, follows earlier last, inductionHypothesis]

/-- A run whose steps all meet a condition is a run. -/
theorem of_guarded
    {condition : State → Action → Prop}
    (run : Run (Guarded step condition) initial actions final) :
    Run step initial actions final :=
  run.mono fun _ last => last.2

/-- The same with a condition that is decided before each step. -/
theorem guarded_of_foldlM
    {step? : State → Action → Option State}
    {condition : State → Action → Prop}
    [∀ state action, Decidable (condition state action)]
    (accepted :
      actions.foldlM
        (fun state action =>
          if condition state action then step? state action else none)
        initial = some final) :
    Run
      (Guarded (fun state action next => step? state action = some next)
        condition)
      initial actions final := by
  refine (of_foldlM accepted).mono fun _ last => ?_
  split at last
  · exact ⟨by assumption, last⟩
  · cases last

end Run

/--
A condition on each step that decides whether the step keeps an invariant
decides whether the invariant holds after every part of a fold.
-/
theorem foldl_parts_iff
    {State Action : Type}
    {step : State → Action → State}
    (invariant : State → Prop)
    (condition : State → Action → Prop)
    (decides :
      ∀ {state action},
        invariant state →
        (invariant (step state action) ↔ condition state action))
    {initial : State}
    (initially : invariant initial)
    (actions : List Action) :
    (∀ earlier later,
        actions = earlier ++ later →
        invariant (earlier.foldl step initial)) ↔
      ∀ earlier action later,
        actions = earlier ++ action :: later →
        condition (earlier.foldl step initial) action := by
  constructor
  · intro holds earlier action later split
    have before := holds earlier (action :: later) split
    have after := holds (earlier ++ [action]) later (by simp [split])
    rw [List.foldl_append] at after
    exact (decides before).mp after
  · intro meets earlier
    induction earlier using List.reverseRecOn with
    | nil =>
        intro _ _
        exact initially
    | append_singleton earlier action inductionHypothesis =>
        intro later split
        have shorter : actions = earlier ++ action :: later := by
          simp [split]
        rw [List.foldl_append]
        exact
          (decides (inductionHypothesis _ shorter)).mpr
            (meets earlier action later shorter)

end LabelledRun
