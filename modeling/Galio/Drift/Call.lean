/-! Drift's environments, and a call of a function in one of its own. -/

namespace Galio

/-- The codes of `control_flow.h` and `DRIFT_EXECUTION_RETURN`. -/
inductive ExecutionResult where
  | ok
  | error
  | broken
  | continued
  | returned
  deriving DecidableEq

structure FunctionStatement (Statement : Type) where
  name : String
  parameters : List String
  body : List Statement

/-- `Environment`, without its handler of commands. -/
structure Environment (Statement Val : Type) where
  entries : List (String × Val) := []
  functions : List (FunctionStatement Statement) := []
  returnValue : Option Val := none

variable {Statement Expr Val : Type} {environment callee : Environment Statement Val} {name : String}

def environmentCapacity : Nat := 128

/-- The entries with the first one of a name replaced, if there is one. -/
def replaceEntry (name : String) (value : Val) : List (String × Val) → Option (List (String × Val))
  | [] => none
  | entry :: rest =>
    if entry.1 = name then some ((entry.1, value) :: rest) else (replaceEntry name value rest).map (entry :: ·)

def environmentSet (environment : Environment Statement Val) (name : String) (value : Val) :
    Option (Environment Statement Val) :=
  match replaceEntry name value environment.entries with
  | some entries => some { environment with entries := entries }
  | none =>
    if environment.entries.length ≥ environmentCapacity then none
    else some { environment with entries := environment.entries ++ [(name, value)] }

def environmentGet (environment : Environment Statement Val) (name : String) : Option Val :=
  (environment.entries.find? (·.1 = name)).map (·.2)

def environmentGetFunction (environment : Environment Statement Val) (name : String) :
    Option (FunctionStatement Statement) :=
  environment.functions.find? (·.name = name)

section Calls

variable (execute : Statement → Environment Statement Val → ExecutionResult × Environment Statement Val)
  (evaluate : Environment Statement Val → Expr → Option Val × Environment Statement Val)

/-- The loop over the parameters: the caller's environment, which `++` in an argument changes, and the callee's
unless the call fails. -/
def bindArguments (environment callee : Environment Statement Val) :
    List String → List Expr → Environment Statement Val × Option (Environment Statement Val)
  | parameter :: parameters, argument :: arguments =>
    match evaluate environment argument with
    | (none, environment) => (environment, none)
    | (some value, environment) =>
      match environmentSet callee parameter value with
      | none => (environment, none)
      | some callee => bindArguments environment callee parameters arguments
  | _, _ => (environment, some callee)

/-- What is done before the body runs: the caller's variables are copied, and the parameters bound. -/
def calleeEnvironment (environment : Environment Statement Val) (function : FunctionStatement Statement)
    (arguments : List Expr) : Environment Statement Val × Option (Environment Statement Val) :=
  match environment.entries.foldlM (fun callee entry => environmentSet callee entry.1 entry.2)
      ({} : Environment Statement Val) with
  | none => (environment, none)
  | some callee => bindArguments evaluate environment callee function.parameters arguments

def executeBody : List Statement → Environment Statement Val → ExecutionResult × Environment Statement Val
  | [], callee => (.ok, callee)
  | statement :: rest, callee =>
    match execute statement callee with
    | (.ok, callee) => executeBody rest callee
    | stopped => stopped

def interpreterExecuteFunctionCall (environment : Environment Statement Val) (name : String) (arguments : List Expr) :
    ExecutionResult × Environment Statement Val :=
  match environmentGetFunction environment name with
  | none => (.error, environment)
  | some function =>
    if arguments.length ≠ function.parameters.length then (.error, environment)
    else
      match calleeEnvironment evaluate environment function arguments with
      | (environment, none) => (.error, environment)
      | (environment, some callee) =>
        match executeBody execute function.body callee with
        | (.returned, ⟨_, _, some value⟩) => (.ok, { environment with returnValue := some value })
        | (result, _) => (result, environment)

/-- `interpreter_execute` on a call: a value that was returned is dropped. -/
def executeCallStatement (environment : Environment Statement Val) (name : String) (arguments : List Expr) :
    ExecutionResult × Environment Statement Val :=
  match interpreterExecuteFunctionCall execute evaluate environment name arguments with
  | (.ok, environment) => (.ok, { environment with returnValue := none })
  | stopped => stopped

/-- The values of the arguments at the call, in order. -/
def argumentValues (environment : Environment Statement Val) : List Expr → Option (List Val)
  | [] => some []
  | argument :: arguments =>
    match evaluate environment argument with
    | (none, _) => none
    | (some value, environment) => (argumentValues environment arguments).map (value :: ·)

/-- The call is self-contained: the body starts with the parameters bound and the functions at hand, and the caller
keeps its variables and its loops. -/
structure SelfContained (environment : Environment Statement Val) (function : FunctionStatement Statement)
    (arguments : List Expr) : Prop where
  starts : ∃ callee values, (calleeEnvironment evaluate environment function arguments).2 = some callee ∧
    argumentValues evaluate environment arguments = some values ∧
    (∀ pair ∈ function.parameters.zip values, environmentGet callee pair.1 = some pair.2) ∧
    ∀ name visible, environmentGetFunction environment name = some visible →
      environmentGetFunction callee name = some visible
  bindings : (executeCallStatement execute evaluate environment function.name arguments).2.entries =
    environment.entries
  result : (executeCallStatement execute evaluate environment function.name arguments).1 ∈
    [ExecutionResult.ok, .error]

theorem environmentSet_functions {value : Val} (set : environmentSet environment name value = some callee) :
    callee.functions = environment.functions := by
  unfold environmentSet at set
  split at set
  · cases set
    rfl
  · split at set
    · cases set
    · cases set
      rfl

theorem foldlM_functions {entries : List (String × Val)}
    (copied : entries.foldlM (fun callee entry => environmentSet callee entry.1 entry.2) environment = some callee) :
    callee.functions = environment.functions := by
  induction entries generalizing environment with
  | nil =>
    cases copied
    rfl
  | cons entry rest ih =>
    obtain ⟨next, set, copied⟩ := Option.bind_eq_some_iff.mp copied
    rw [ih copied, environmentSet_functions set]

theorem bindArguments_functions {parameters : List String} {arguments : List Expr} {start : Environment Statement Val}
    (bound : (bindArguments evaluate environment start parameters arguments).2 = some callee) :
    callee.functions = start.functions := by
  induction parameters generalizing environment start arguments with
  | nil =>
    cases bound
    rfl
  | cons parameter parameters ih =>
    cases arguments with
    | nil =>
      cases bound
      rfl
    | cons argument arguments =>
      rw [bindArguments] at bound
      split at bound
      · cases bound
      split at bound
      · cases bound
      · rename_i next set
        rw [ih bound, environmentSet_functions set]

/-- The environment of a body has no function at all. -/
theorem calleeEnvironment_functions {function : FunctionStatement Statement} {arguments : List Expr}
    (started : (calleeEnvironment evaluate environment function arguments).2 = some callee) :
    callee.functions = [] := by
  unfold calleeEnvironment at started
  split at started
  · cases started
  · rename_i copy copied
    rw [bindArguments_functions evaluate started, foldlM_functions copied]

/-- No call is self-contained: the body cannot call even its own function. -/
theorem call_not_selfContained {function : FunctionStatement Statement}
    (found : environmentGetFunction environment function.name = some function) (arguments : List Expr) :
    ¬SelfContained execute evaluate environment function arguments := by
  intro contained
  obtain ⟨callee, values, started, _, _, callable⟩ := contained.starts
  have own := callable function.name function found
  rw [environmentGetFunction, calleeEnvironment_functions evaluate started] at own
  cases own

end Calls

/-- A program of `break` and of calls without arguments, as far as these resolve. -/
def executeSample (statement : String) (environment : Environment String Nat) :
    ExecutionResult × Environment String Nat :=
  if statement = "break" then (.broken, environment)
  else if (environmentGetFunction environment statement).isSome then (.ok, environment)
  else (.error, environment)

/-- A function `f` that calls itself, and a function `g` that breaks. -/
def sampleEnvironment : Environment String Nat where
  functions := [⟨"f", [], ["f"]⟩, ⟨"g", [], ["break"]⟩]

/-- In `f` the call of `f` fails, and `g` ends the loop of its caller. -/
theorem sample_calls :
    let evaluate := fun (environment : Environment String Nat) (value : Nat) => (some value, environment)
    (environmentGetFunction sampleEnvironment "f").isSome ∧
      (executeCallStatement executeSample evaluate sampleEnvironment "f" []).1 = .error ∧
      (executeCallStatement executeSample evaluate sampleEnvironment "g" []).1 = .broken := by
  decide

theorem sample_not_selfContained : ¬SelfContained executeSample
    (fun environment (value : Nat) => (some value, environment)) sampleEnvironment ⟨"f", [], ["f"]⟩ [] :=
  call_not_selfContained _ _ rfl []

end Galio
