/-! Runs of a transition system, and what holds along every step of one. -/

namespace Transition

variable {State Action : Type}

/-- A property of single steps, required of every step of a run, recorded as actions and the states reached. -/
def Along (holds : State → Action → State → Prop) : State → List (Action × State) → Prop
  | _, [] => True
  | start, (action, next) :: rest => holds start action next ∧ Along holds next rest

/-- The state a recorded run ends in. -/
def final : State → List (Action × State) → State
  | start, [] => start
  | _, (_, next) :: rest => final next rest

/-- A property of states, required of the first state and of every state reached. -/
def Visits (holds : State → Prop) : State → List (Action × State) → Prop
  | start, [] => holds start
  | start, (_, next) :: rest => holds start ∧ Visits holds next rest

/-- The record of a sequence of actions, each carried out by a function. -/
def record (exec : State → Action → State) : State → List Action → List (Action × State)
  | _, [] => []
  | start, action :: rest => (action, exec start action) :: record exec (exec start action) rest

section Rules

variable {step guard property : State → Action → State → Prop} (invariant : State → Prop) {start : State}
  {run : List (Action × State)}

theorem along_of_invariant (preserved : ∀ start action next, invariant start → step start action next →
      invariant next ∧ property start action next) (holds : invariant start) (follows : Along step start run) :
    Along property start run := by
  -- The run is walked from its first step, carrying the invariant to each next state.
  induction run generalizing start with
  | nil => trivial
  | cons taken rest ih =>
    obtain ⟨kept, given⟩ := preserved start taken.1 taken.2 holds follows.1
    exact ⟨given, ih kept follows.2⟩

section Kept

variable (preserved : ∀ start action next, invariant start → step start action next → invariant next)
  (holds : invariant start) (follows : Along step start run)
include preserved holds follows

theorem visits_of_invariant : Visits invariant start run := by
  -- The first state satisfies it by assumption and every later one by preservation.
  induction run generalizing start with
  | nil => exact holds
  | cons taken rest ih => exact ⟨holds, ih (preserved _ _ _ holds follows.1) follows.2⟩

theorem final_of_invariant : invariant (final start run) := by
  -- Each step hands the invariant to the state the rest of the run starts from.
  induction run generalizing start with
  | nil => exact holds
  | cons taken rest ih => exact ih (preserved _ _ _ holds follows.1) follows.2

end Kept

theorem along_and (first : Along step start run) (second : Along guard start run) :
    Along (fun before action after => step before action after ∧ guard before action after) start run := by
  -- Both records describe the same steps, so they are paired one step at a time.
  induction run generalizing start with
  | nil => trivial
  | cons taken rest ih => exact ⟨⟨first.1, second.1⟩, ih first.2 second.2⟩

theorem along_iff (preserved : ∀ start action next, invariant start → step start action next →
      invariant next ∧ (property start action next ↔ guard start action next)) (holds : invariant start)
    (follows : Along step start run) : Along property start run ↔ Along guard start run := by
  -- The steps are compared one by one, with the invariant carried from each to the next.
  induction run generalizing start with
  | nil => rfl
  | cons taken rest ih =>
    obtain ⟨kept, same⟩ := preserved start taken.1 taken.2 holds follows.1
    exact and_congr same (ih kept follows.2)

theorem visits_mono {stronger weaker : State → Prop} (implied : ∀ state, stronger state → weaker state)
    (holds : Visits stronger start run) : Visits weaker start run := by
  -- Each visited state is weakened on its own.
  induction run generalizing start with
  | nil => exact implied _ holds
  | cons taken rest ih => exact ⟨implied _ holds.1, ih holds.2⟩

theorem visits_start {holds : State → Prop} (visits : Visits holds start run) : holds start := by
  -- Both shapes of a record name their first state.
  cases run with
  | nil => exact visits
  | cons taken rest => exact visits.1

/-- A state property that a guard decides holds throughout a run exactly when every step is guarded. -/
theorem visits_iff_along {property : State → Prop} {allowed : State → Action → Prop}
    (implied : ∀ state, invariant state → property state)
    (kept : ∀ start action next, invariant start → step start action next → allowed start action → invariant next)
    (broken : ∀ start action next, invariant start → step start action next →
      ¬ allowed start action → ¬ property next) (holds : invariant start) (follows : Along step start run) :
    Visits property start run ↔ Along (fun before action _ => allowed before action) start run := by
  induction run generalizing start with
  | nil => exact ⟨fun _ => trivial, fun _ => implied _ holds⟩
  | cons taken rest ih =>
    by_cases guarded : allowed start taken.1
    -- A guarded step reaches the invariant again, and the rest of the run decides the question.
    · have tail := ih (kept _ _ _ holds follows.1 guarded) follows.2
      exact ⟨fun visits => ⟨guarded, tail.mp visits.2⟩, fun along => ⟨implied _ holds, tail.mpr along.2⟩⟩
    -- An unguarded step is seen in the very next state, so neither side holds.
    · have unseen := broken _ _ _ holds follows.1 guarded
      exact ⟨fun visits => absurd (visits_start visits.2) unseen, fun along => absurd along.1 guarded⟩

variable {exec : State → Action → State}

theorem along_record {actions : List Action} (start : State)
    (each : ∀ state, ∀ action ∈ actions, step state action (exec state action)) :
    Along step start (record exec start actions) := by
  -- Every recorded step is one application of the function.
  induction actions generalizing start with
  | nil => trivial
  | cons action rest ih =>
    exact ⟨each start action List.mem_cons_self,
      ih _ fun state other member => each state other (List.mem_cons_of_mem _ member)⟩

variable {first second : List Action}

theorem along_record_append (along : Along step start (record exec start (first ++ second))) :
    Along step (first.foldl exec start) (record exec (first.foldl exec start) second) := by
  -- Dropping the first part of the record leaves the second, started where the first ended.
  induction first generalizing start with
  | nil => exact along
  | cons action rest ih => exact ih along.2

theorem along_record_join (along : Along step start (record exec start first))
    (later : Along step (first.foldl exec start) (record exec (first.foldl exec start) second)) :
    Along step start (record exec start (first ++ second)) := by
  -- The first record is walked, and the second follows it.
  induction first generalizing start with
  | nil => exact later
  | cons action rest ih => exact ⟨along.1, ih along.2 later⟩

end Rules

end Transition
