import ByteCalc.Proofs.Machine.Trail

/-! Runs on different constants go through the same code, until one of them divides by zero. -/

namespace ByteCalc

namespace Machine

/-- Two machines that differ in their values, and perhaps in the tables of their lines. -/
structure Alike (sameTable : Prop) (first second : Machine) : Prop where
  /-- The code is the same. -/
  code : first.chunk.code = second.chunk.code
  /-- The pools have the same size. -/
  pool : first.chunk.constants.size = second.chunk.constants.size
  /-- The cursors stand at the same offset. -/
  cursor : first.cursor = second.cursor
  /-- The stacks have the same height. -/
  height : first.stack.length = second.stack.length
  /-- The tables of the lines are the same if they are meant to be. -/
  lines : sameTable → first.chunk.lines = second.chunk.lines

end Machine

/-- What the same instruction does on two machines that differ in their values. -/
inductive Step.Alike (sameTable : Prop) : Step → Step → Prop
  /-- Both machines go on. -/
  | running {first second : Machine} (alike : first.Alike sameTable second) :
      Alike sameTable (.running first) (.running second)
  /-- Both machines return, each of them a value of its own. -/
  | returned {value other : Value} {last final : Machine} (alike : last.Alike sameTable final) :
      Alike sameTable (.stopped (.ok value) last) (.stopped (.ok other) final)
  /-- Both machines fail for the same reason. -/
  | failed {fault : RuntimeFault} {line other : Option UInt32} {last final : Machine}
      (sameLine : sameTable → line = other) (alike : last.Alike sameTable final) :
      Alike sameTable (.stopped (.error ⟨fault, line⟩) last)
        (.stopped (.error ⟨fault, other⟩) final)
  /-- Only the first machine divides by zero. -/
  | firstDivides {line : Option UInt32} {last second : Machine} :
      Alike sameTable (.stopped (.error ⟨.divisionByZero, line⟩) last) (.running second)
  /-- Only the second machine divides by zero. -/
  | secondDivides {line : Option UInt32} {first final : Machine} :
      Alike sameTable (.running first) (.stopped (.error ⟨.divisionByZero, line⟩) final)

namespace Machine

/-- How two runs can end, each with the number of its fetches, its outcome and its last state. -/
inductive EndsAlike (sameTable : Prop) : Nat → Outcome → Machine → Nat → Outcome → Machine → Prop
  /-- Both return after so many fetches, each of them a value of its own. -/
  | returned {fetches : Nat} {value other : Value} {last final : Machine}
      (alike : last.Alike sameTable final) :
      EndsAlike sameTable fetches (.ok value) last fetches (.ok other) final
  /-- Both fail after so many fetches, for the same reason. -/
  | failed {fetches : Nat} {fault : RuntimeFault} {line other : Option UInt32}
      {last final : Machine} (sameLine : sameTable → line = other)
      (alike : last.Alike sameTable final) :
      EndsAlike sameTable fetches (.error ⟨fault, line⟩) last fetches (.error ⟨fault, other⟩) final
  /-- The first run divides by zero while the second one goes on. -/
  | firstDivides {fetches others : Nat} {line : Option UInt32} {outcome : Outcome}
      {last final : Machine} (sooner : fetches < others) :
      EndsAlike sameTable fetches (.error ⟨.divisionByZero, line⟩) last others outcome final
  /-- The second run divides by zero while the first one goes on. -/
  | secondDivides {fetches others : Nat} {line : Option UInt32} {outcome : Outcome}
      {last final : Machine} (sooner : others < fetches) :
      EndsAlike sameTable fetches outcome last others (.error ⟨.divisionByZero, line⟩) final

variable {sameTable : Prop} {first second last final : Machine}

namespace Alike

/-- Alike machines stay so if their cursors move to one offset and their heights change alike. -/
theorem move (alike : first.Alike sameTable second) (next : Nat) {stack others : List Value}
    (height : stack.length = others.length) :
    Alike sameTable { first with cursor := next, stack }
      { second with cursor := next, stack := others } :=
  ⟨alike.code, alike.pool, rfl, height, alike.lines⟩

/-- A fault depends on values in no way, and neither does the line, if the tables agree. -/
theorem fail (alike : first.Alike sameTable second) (fault : RuntimeFault)
    (behind : last.Alike sameTable final) :
    (first.fail fault last).Alike sameTable (second.fail fault final) := by
  -- The line is looked up at the cursor, which both machines share.
  refine .failed (fun same => ?_) behind
  rw [Chunk.line?, Chunk.line?, alike.lines same, alike.cursor]

/-- Where one pool has a constant, the other pool has one too. -/
theorem load (alike : first.Alike sameTable second) (index next : Nat) :
    (first.load index next).Alike sameTable (second.load index next) := by
  by_cases inside : index < first.chunk.constants.size
  · -- Both constants are pushed, whatever they are.
    have also := alike.pool ▸ inside
    simp only [Machine.load, Array.getElem?_eq_getElem inside, Array.getElem?_eq_getElem also]
    exact .running (alike.move next (congrArg Nat.succ alike.height))
  · -- Both machines miss the constant, and name the same size.
    have outside := Nat.le_of_not_lt inside
    simp only [Machine.load, Array.getElem?_eq_none outside,
      Array.getElem?_eq_none (alike.pool ▸ outside), alike.pool]
    exact alike.fail _ (alike.move next alike.height)

/-- What is missing of a load is missing on both machines. -/
theorem cutOff (alike : first.Alike sameTable second) :
    first.cutOff.Alike sameTable second.cutOff := by
  -- Both cursors are taken to the end of the one code.
  rw [Machine.cutOff, Machine.cutOff, alike.cursor, alike.code]
  exact alike.fail _ (alike.move _ alike.height)

/-- Too few operands are too few on both machines, and what there is of them is lost. -/
theorem underflow (alike : first.Alike sameTable second) (next : Nat) :
    (first.fail .stackUnderflow { first with cursor := next, stack := [] }).Alike sameTable
      (second.fail .stackUnderflow { second with cursor := next, stack := [] }) :=
  alike.fail _ (alike.move next rfl)

/-- Of two lists of one length, either both are empty or each has a head. -/
theorem nil_or_cons {stack others : List Value} (height : stack.length = others.length) :
    stack = [] ∧ others = [] ∨ ∃ top rest other more,
      stack = top :: rest ∧ others = other :: more ∧ rest.length = more.length := by
  -- The heights leave no other pair of cases.
  cases stack with
  | nil => exact .inl ⟨rfl, List.length_eq_zero_iff.1 height.symm⟩
  | cons top rest =>
    obtain ⟨other, more, rfl⟩ := List.exists_cons_of_length_eq_add_one height.symm
    exact .inr ⟨top, rest, other, more, rfl, rfl, Nat.succ.inj height⟩

/-- An operator asks for two values, and only a division looks at one of them. -/
theorem combine (alike : first.Alike sameTable second) (op : BinaryOp) (next : Nat) :
    (first.combine op next).Alike sameTable (second.combine op next) := by
  unfold Machine.combine
  rcases nil_or_cons alike.height with ⟨none, also⟩ | ⟨right, rest, other, more, some, also, behind⟩
  · -- There is no value at all.
    rw [none, also]
    exact alike.underflow next
  rw [some, also]
  rcases nil_or_cons behind with ⟨rfl, rfl⟩ | ⟨left, rest, other, more, rfl, rfl, below⟩
  · -- There is one value, and no second one.
    exact alike.underflow next
  · -- A result takes the place of the operands, and a division by zero leaves nothing there.
    dsimp only
    split <;> split
    · -- Both machines divide by zero.
      exact alike.fail _ (alike.move next below)
    · -- The first divisor is zero and the second one is not.
      exact .firstDivides
    · -- The second divisor is zero and the first one is not.
      exact .secondDivides
    · -- Both machines have a result.
      exact .running (alike.move next behind)

/-- The same instruction does the same on both machines, unless one of them divides by zero. -/
theorem step (alike : first.Alike sameTable second) :
    first.step.Alike sameTable second.step := by
  -- The code is decoded without a look at the stack, and the stack is asked for its height only.
  simp only [Machine.step, alike.code, alike.cursor]
  cases second.chunk.code[second.cursor]? with
  | none => exact alike.fail _ alike
  | some byte =>
    dsimp only
    cases Opcode.ofByte? byte with
    | none => exact alike.fail _ (alike.move _ alike.height)
    | some opcode =>
      have height := nil_or_cons alike.height
      cases opcode with
      | constant | constantLong =>
        dsimp only
        split
        · -- The operand bytes are there, and hold the same index.
          exact alike.load _ _
        · -- The operand bytes are not there.
          exact alike.cutOff
      | binary op => exact alike.combine op _
      | negate =>
        dsimp only
        -- One operand is all that a negation needs.
        rcases height with ⟨none, also⟩ | ⟨top, rest, other, more, some, also, behind⟩
        · rw [none, also]
          exact alike.underflow _
        · rw [some, also]
          exact .running (alike.move _ (congrArg Nat.succ behind))
      | ret =>
        dsimp only
        rcases height with ⟨none, also⟩ | ⟨top, rest, other, more, some, also, behind⟩
        · rw [none, also]
          exact alike.underflow _
        · rw [some, also]
          exact .returned (alike.move _ behind)

/-- The same for steps that are already known. -/
theorem steps (alike : first.Alike sameTable second) {step also : Step}
    (stepped : first.step = step) (moved : second.step = also) : step.Alike sameTable also :=
  stepped ▸ moved ▸ alike.step

end Alike

section Runs

variable {states others : List Machine} {outcome result : Outcome}

/-- One more fetch on both sides does not change how two runs end. -/
theorem EndsAlike.later {fetches also : Nat}
    (ends : EndsAlike sameTable fetches outcome last also result final) :
    EndsAlike sameTable (fetches + 1) outcome last (also + 1) result final := by
  cases ends with
  | returned alike => exact .returned alike
  | failed sameLine alike => exact .failed sameLine alike
  | firstDivides sooner => exact .firstDivides (Nat.succ_lt_succ sooner)
  | secondDivides sooner => exact .secondDivides (Nat.succ_lt_succ sooner)

/-- A run fetches at least once. -/
theorem Trail.length_pos (trail : first.Trail states outcome last) : 0 < states.length := by
  cases trail <;> exact Nat.succ_pos _

/-- Machines that are alike stay alike, fetch by fetch, as far as both of them run. -/
theorem Trail.alike (trail : first.Trail states outcome last)
    (also : second.Trail others result final) (alike : first.Alike sameTable second) :
    (∀ pair ∈ states.zip others, pair.1.Alike sameTable pair.2) ∧
      EndsAlike sameTable states.length outcome last others.length result final := by
  -- Where only one of the runs stops, it stops by a division by zero.
  induction trail generalizing second others with
  | stopped stepped =>
    cases also with
    | stopped moved =>
      refine ⟨by simpa using alike, ?_⟩
      cases alike.steps stepped moved with
      | returned behind => exact .returned behind
      | failed sameLine behind => exact .failed sameLine behind
    -- A machine that goes on beside a failure has not divided by zero.
    | running moved onward =>
      cases alike.steps stepped moved with
      | firstDivides =>
        exact ⟨by simpa using alike, .firstDivides (Nat.succ_lt_succ onward.length_pos)⟩
  | running stepped onward ih =>
    -- The second machine alone stops, which only a division by zero can explain.
    cases also with
    | stopped moved =>
      cases alike.steps stepped moved with
      | secondDivides =>
        exact ⟨by simpa using alike, .secondDivides (Nat.succ_lt_succ onward.length_pos)⟩
    -- Neither machine stops, and the rest of the runs is alike.
    | running moved others =>
      cases alike.steps stepped moved with
      | running behind =>
        obtain ⟨all, ends⟩ := ih others behind
        exact ⟨List.forall_mem_cons.2 ⟨alike, all⟩, ends.later⟩

/-- The run of a machine fails with a fault of the instruction at an offset. -/
def FailsAt (machine : Machine) (fault : RuntimeFault) (offset : Nat) : Prop :=
  ∃ state line last, machine.Reaches state ∧ state.cursor = offset ∧
    state.step = .stopped (.error ⟨fault, line⟩) last

/-- What a machine comes to fail with, the machine in front of it comes to fail with. -/
theorem FailsAt.running {fault : RuntimeFault} {offset : Nat} (fails : second.FailsAt fault offset)
    (stepped : first.step = .running second) : first.FailsAt fault offset := by
  obtain ⟨state, line, last, reached, place, stopped⟩ := fails
  exact ⟨state, line, last, (Reaches.step stepped).trans reached, place, stopped⟩

/-- A run never takes the cursor back. -/
theorem Reaches.cursor_le (reached : first.Reaches second) : first.cursor ≤ second.cursor := by
  -- Every step on the way moves the cursor on.
  induction reached with
  | refl => exact Nat.le_refl _
  | tail _ stepped ih => exact Nat.le_trans ih (Nat.le_of_lt (step_running stepped).2.1)

/-- Where one machine fails, the other one fails too, if it has not divided by zero before. -/
theorem Alike.failsAt {fault : RuntimeFault} {offset : Nat} (alike : first.Alike sameTable second)
    (other : fault ≠ .divisionByZero) (fails : first.FailsAt fault offset) :
    second.FailsAt fault offset ∨ ∃ earlier < offset, second.FailsAt .divisionByZero earlier := by
  obtain ⟨state, line, last, reached, rfl, stopped⟩ := fails
  induction reached using Relation.ReflTransGen.head_induction_on generalizing second with
  | refl =>
    cases moved : second.step with
    | running next =>
      cases alike.steps stopped moved
      exact absurd rfl other
    | stopped result final =>
      cases alike.steps stopped moved
      exact .inl ⟨second, _, final, .refl, alike.cursor.symm, moved⟩
  | @head first later stepped reached ih =>
    cases moved : second.step with
    | running next =>
      cases alike.steps stepped moved with
      | running behind =>
        rcases ih behind with same | ⟨earlier, before, divides⟩
        · -- The same fault comes later in the second run too.
          exact .inl (same.running moved)
        · -- The second run divides by zero on the way.
          exact .inr ⟨earlier, before, divides.running moved⟩
    | stopped result final =>
      cases alike.steps stepped moved with
      | secondDivides =>
        -- The instruction that divides stands in front of the one that fails.
        have ahead := Nat.lt_of_lt_of_le (step_running stepped).2.1 (Reaches.cursor_le reached)
        exact .inr ⟨second.cursor, alike.cursor ▸ ahead, second, _, final, .refl, rfl, moved⟩

end Runs

/-- Two runs that can be told apart by values, by divisions by zero and by lines only. -/
structure Lockstep (first second : Machine) : Prop where
  /-- Fetch by fetch, the cursors are at the same offset and the stacks have the same height. -/
  fetched : ∀ pair ∈ first.fetches.toList.zip second.fetches.toList,
    pair.1.cursor = pair.2.cursor ∧ pair.1.stack.length = pair.2.stack.length
  /-- After as many fetches, the runs end in the same way, or one of them divides by zero. -/
  ending : EndsAlike (first.chunk.lines = second.chunk.lines)
    first.fetches.size first.run.1 first.run.2 second.fetches.size second.run.1 second.run.2
  /-- Where one run fails, the other one fails too, if it has not divided by zero before. -/
  faults : ∀ fault offset, fault ≠ .divisionByZero → first.FailsAt fault offset →
    second.FailsAt fault offset ∨ ∃ earlier < offset, second.FailsAt .divisionByZero earlier

/--
Chunks with the same code and pools of the same size are run in lockstep, whatever the constants.

Their errors have the same lines if the chunks have the same table of lines.
-/
theorem lockstep_start {first second : Chunk} (code : first.code = second.code)
    (pool : first.constants.size = second.constants.size) :
    (start first).Lockstep (start second) := by
  have alike : (start first).Alike (first.lines = second.lines) (start second) :=
    -- Two new machines differ in nothing but their constants and their tables.
    ⟨code, pool, rfl, rfl, id⟩
  obtain ⟨states, outcome, last, trail⟩ := (start first).exists_trail
  obtain ⟨others, result, final, also⟩ := (start second).exists_trail
  obtain ⟨all, ends⟩ := trail.alike also alike
  refine ⟨fun pair mem => ?_, ?_, fun fault offset other => alike.failsAt other⟩
  · rw [trail.toList_fetches, also.toList_fetches] at mem
    exact ⟨(all pair mem).cursor, (all pair mem).height⟩
  · -- The outcomes and the counts are those of the trails too.
    rw [← Array.length_toList, ← Array.length_toList, trail.toList_fetches, also.toList_fetches,
      trail.run_eq, also.run_eq]
    exact ends

/-- A zero among the constants stops a run in front of the instruction that lacks an operand. -/
theorem lockstep_start_quotient :
    let chunk (divisor : Value) : Chunk :=
      ⟨#[0, 0, 0, 1, 5, 2, 7], #[⟨1⟩, divisor], #[⟨7, 1⟩]⟩
    let zero := chunk ⟨0⟩
    let one := chunk ⟨1⟩
    (zero.code = one.code ∧ zero.constants.size = one.constants.size) ∧
      (start zero).Lockstep (start one) ∧
      (start zero).FailsAt .divisionByZero 4 ∧ (start one).FailsAt .stackUnderflow 5 := by
  intro chunk zero one
  have lockstep : (start zero).Lockstep (start one) := lockstep_start rfl rfl
  have operands (divisor : Value) :
      (start (chunk divisor)).Reaches ⟨chunk divisor, 4, [divisor, ⟨1⟩]⟩ := by
    -- Two loads bring the operands of the division.
    have one : (start (chunk divisor)).Reaches ⟨chunk divisor, 2, [⟨1⟩]⟩ := .step rfl
    exact one.trans (.step rfl)
  refine ⟨⟨rfl, rfl⟩, lockstep, ?_, ?_⟩
  · -- The zero is on top when the division comes.
    exact ⟨_, _, _, operands ⟨0⟩, rfl, rfl⟩
  · -- With another divisor, the quotient is the only operand of the addition.
    have quotient : Reaches ⟨one, 4, [⟨1⟩, ⟨1⟩]⟩ ⟨one, 5, [Value.divide ⟨1⟩ ⟨1⟩]⟩ := .step rfl
    exact ⟨_, _, _, (operands ⟨1⟩).trans quotient, rfl, rfl⟩

end Machine

end ByteCalc
