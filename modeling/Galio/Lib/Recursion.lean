import Mathlib.Data.Set.Finite.Basic
import Mathlib.Logic.Relation

/-! Recursions that go from state to state, and the graph of their steps: one without end is a cycle. -/

namespace Recursion

open Relation Set

variable {State Result Key : Type} {step : State → Option State} {run : Nat → State → Option Result}

/-- A recursion on fuel that goes on exactly where a step can be taken. -/
structure Follows (step : State → Option State) (run : Nat → State → Option Result) : Prop where
  bound : ∀ state, run 0 state = none
  turn : ∀ fuel state, match step state with
    | none => (run (fuel + 1) state).isSome
    | some next => run (fuel + 1) state = run fuel next

/-- A number of steps can be taken in a row. -/
def Lasts (step : State → Option State) : Nat → State → Prop
  | 0, _ => True
  | n + 1, state => ∃ next, step state = some next ∧ Lasts step n next

/-- The edges of the graph. -/
def Edge (step : State → Option State) (here next : State) : Prop := step here = some next

/-- A cycle can be reached. -/
def Cyclic (step : State → Option State) (start : State) : Prop :=
  ∃ here, ReflTransGen (Edge step) start here ∧ TransGen (Edge step) here here

/-- The recursion returns exactly if its steps end before its fuel. -/
theorem Follows.isSome_iff (follows : Follows step run) (fuel : Nat) :
    ∀ state, (run fuel state).isSome ↔ ¬Lasts step fuel state := by
  -- Each step that can be taken uses up one unit of fuel.
  induction fuel with
  | zero => simp [follows.bound, Lasts]
  | succ fuel ih =>
    intro state
    have turn := follows.turn fuel state
    cases next : step state <;> simp_all [Lasts]

/-- Steps end in one state. -/
theorem end_unique {start last other : State} (first : ReflTransGen (Edge step) start last) (ended : step last = none)
    (second : ReflTransGen (Edge step) start other) (ended' : step other = none) : last = other := by
  have stays : ∀ {here there}, step here = none → ReflTransGen (Edge step) here there → here = there := by
    intro here there none onward
    rcases onward.cases_head with same | ⟨_, taken, -⟩
    · exact same
    · simp [Edge, none] at taken
  have once : Relator.RightUnique (Edge step) := fun _ _ _ one two => Option.some.inj (one.symm.trans two)
  exact (first.total_of_right_unique once second).elim (stays ended) fun back => (stays ended' back).symm

/-- A cycle never ends. -/
theorem Cyclic.lasts {start : State} (cyclic : Cyclic step start) (n : Nat) : Lasts step n start := by
  obtain ⟨here, reached, loop⟩ := cyclic
  -- Every state before the cycle has a successor that is before it too.
  have before : ∀ n state, TransGen (Edge step) state here → Lasts step n state := by
    intro n
    induction n with
    | zero => exact fun _ _ => trivial
    | succ n ih =>
      intro state leads
      obtain ⟨next, taken, rest⟩ := TransGen.head'_iff.mp leads
      refine ⟨next, taken, ih next ?_⟩
      rcases reflTransGen_iff_eq_or_transGen.mp rest with rfl | onward
      · exact loop
      · exact onward
  exact before n start (TransGen.trans_right reached loop)

/-- Steps without end, as a sequence of states. -/
theorem exists_endless {start : State} (endless : ∀ n, Lasts step n start) :
    ∃ trail : Nat → State, trail 0 = start ∧ ∀ n, Edge step (trail n) (trail (n + 1)) := by
  let Endless := { state : State // ∀ n, Lasts step n state }
  have onward : ∀ state : Endless, ∃ next : Endless, Edge step state.1 next.1 := by
    intro state
    obtain ⟨next, taken, -⟩ := state.2 1
    refine ⟨⟨next, fun n => ?_⟩, taken⟩
    obtain ⟨other, also, lasts⟩ := state.2 (n + 1)
    cases taken.symm.trans also
    exact lasts
  choose next taken using onward
  refine ⟨fun n => (next^[n] ⟨start, endless⟩).1, rfl, fun n => ?_⟩
  have later : next^[n + 1] ⟨start, endless⟩ = _ := Function.iterate_succ_apply' next n _
  simpa only [later] using taken _

/--
Steps never end exactly if they come to a cycle, where the states have finitely many keys.

The key of a state must tell it from the states that follow it.
-/
theorem endless_iff_cyclic {start : State} (key : State → Key) {keys : Set Key} (finite : keys.Finite)
    (keyed : ∀ here, ReflTransGen (Edge step) start here → key here ∈ keys)
    (apart : ∀ here, ReflTransGen (Edge step) start here → ∀ there, ReflTransGen (Edge step) here there →
      key here = key there → here = there) :
    (∀ n, Lasts step n start) ↔ Cyclic step start := by
  refine ⟨fun endless => ?_, Cyclic.lasts⟩
  obtain ⟨trail, first, taken⟩ := exists_endless endless
  have reached : ∀ n, ReflTransGen (Edge step) start (trail n) := by
    intro n
    induction n with
    | zero => rw [first]
    | succ n ih => exact ih.tail (taken n)
  have onward : ∀ m k, TransGen (Edge step) (trail m) (trail (m + k + 1)) := by
    intro m k
    induction k with
    | zero => exact .single (taken m)
    | succ k ih => exact ih.tail (taken (m + k + 1))
  -- Among infinitely many states two have the same key.
  have repeats : ¬Function.Injective fun n => key (trail n) := fun injective =>
    infinite_of_injective_forall_mem injective (fun n => keyed _ (reached n)) finite
  obtain ⟨m, n, same, different⟩ := Function.not_injective_iff.mp repeats
  wlog before : m < n generalizing m n
  · exact this n m same.symm (Ne.symm different) (by omega)
  obtain ⟨k, rfl⟩ := Nat.exists_eq_add_of_lt before
  refine ⟨trail m, reached m, ?_⟩
  have back := onward m k
  rwa [← apart _ (reached m) _ back.to_reflTransGen same] at back

end Recursion
