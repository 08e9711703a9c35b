import ByteCalc.Proofs.Machine.Decoding
import ByteCalc.Proofs.Machine.Execution

/-! Runs as relations: the states that a run goes through, and how it ends. -/

namespace ByteCalc

namespace Machine

/-- The states in which a run fetches an instruction, in order, its outcome and its last state. -/
inductive Trail : Machine → List Machine → Outcome → Machine → Prop
  /-- The first instruction stops the machine. -/
  | stopped {machine last : Machine} {outcome : Outcome}
      (stepped : machine.step = .stopped outcome last) : Trail machine [machine] outcome last
  /-- The first instruction leads to a state from which the run goes on. -/
  | running {machine later last : Machine} {states : List Machine} {outcome : Outcome}
      (stepped : machine.step = .running later) (onward : Trail later states outcome last) :
      Trail machine (machine :: states) outcome last

section Trails

variable {machine last : Machine} {states : List Machine} {outcome : Outcome}

/-- A state that goes on is seen before those behind it. -/
theorem fetchesFrom_running {later : Machine} (seen : Array Machine)
    (stepped : machine.step = .running later) :
    machine.fetchesFrom seen = later.fetchesFrom (seen.push machine) := by
  -- The state is seen before its step.
  rw [fetchesFrom]
  split
  next next found => cases found.symm.trans stepped; rfl
  next found => cases found.symm.trans stepped

/-- A state that stops is seen, and nothing behind it is. -/
theorem fetchesFrom_stopped (seen : Array Machine)
    (stepped : machine.step = .stopped outcome last) :
    machine.fetchesFrom seen = seen.push machine := by
  -- The state that stops is the last one to be seen.
  rw [fetchesFrom]
  split
  next found => cases found.symm.trans stepped
  next => rfl

/-- Every run has a trail, as each of its instructions leaves less code ahead. -/
theorem exists_trail (machine : Machine) :
    ∃ states outcome last, machine.Trail states outcome last := by
  -- Each step that goes on leaves less of the code.
  induction left : machine.chunk.code.size - machine.cursor using Nat.strongRecOn
    generalizing machine with
  | ind size ih =>
    cases stepped : machine.step with
    | stopped outcome last => exact ⟨_, _, _, .stopped stepped⟩
    | running later =>
      -- The rest of the run is shorter by what the step has passed.
      obtain ⟨states, outcome, last, onward⟩ := ih _ (left ▸ step_remaining stepped) later rfl
      exact ⟨_, _, _, .running stepped onward⟩

/-- A run ends as its trail does. -/
theorem Trail.run_eq (trail : machine.Trail states outcome last) :
    machine.run = (outcome, last) := by
  -- The run takes the same steps.
  induction trail with
  | stopped stepped => exact run_stopped stepped
  | running stepped _ ih => rw [run_running stepped, ih]

/-- A run fetches in the states of its trail. -/
theorem Trail.toList_fetchesFrom (trail : machine.Trail states outcome last)
    (seen : Array Machine) : (machine.fetchesFrom seen).toList = seen.toList ++ states := by
  -- Each state is pushed behind those already seen.
  induction trail generalizing seen with
  | stopped stepped => rw [fetchesFrom_stopped seen stepped, Array.toList_push]
  | running stepped _ ih =>
    rw [fetchesFrom_running seen stepped, ih, Array.toList_push, List.append_assoc,
      List.singleton_append]

/-- A run that has seen nothing before sees its trail. -/
theorem Trail.toList_fetches (trail : machine.Trail states outcome last) :
    machine.fetches.toList = states :=
  trail.toList_fetchesFrom #[]

end Trails

end Machine

end ByteCalc
