import ByteCalc.Machine
import ByteCalc.Proofs.Chunk.RowText

/-! The machine executes at its cursor what a listing shows there. -/

namespace ByteCalc

namespace Step

/-- The state that an instruction leaves, whether the machine goes on from it or stops. -/
def later : Step → Machine
  | running machine | stopped _ machine => machine

/-- The fault that an instruction stops with, if it stops with one. -/
def fault? : Step → Option RuntimeFault
  | running _ | stopped (.ok _) _ => none
  | stopped (.error error) _ => some error.fault

end Step

/-- Whether a fault comes from the values on the stack, and not from the code. -/
def RuntimeFault.ofStack : RuntimeFault → Bool
  | stackUnderflow | divisionByZero => true
  | unknownOpcode _ | constantOutOfRange .. | truncatedInstruction _ | missingReturn => false

namespace Chunk

/-- The fault that the code and the pool lead to at an offset, whatever the stack is. -/
def fault? (chunk : Chunk) (offset : Nat) : Option RuntimeFault :=
  match chunk.entry offset with
  | .endOfCode => some .missingReturn
  | .unknown byte => some (.unknownOpcode byte)
  | .truncated _ => some (.truncatedInstruction offset)
  | .load _ index none => some (.constantOutOfRange index chunk.constants.size)
  | .load _ _ (some _) | .plain _ => none

/-- An unknown byte is told from what stands there alone. -/
theorem fault?_unknown_iff {chunk : Chunk} {offset : Nat} {byte : UInt8} :
    chunk.fault? offset = some (.unknownOpcode byte) ↔ chunk.entry offset = .unknown byte := by
  -- Each kind of entry either is the one that the fault names, or leads to another fault.
  unfold fault?
  split <;> simp_all

/-- A load that is cut off is told by its offset, and by no byte that is missing. -/
theorem fault?_truncated_iff {chunk : Chunk} {offset : Nat} :
    chunk.fault? offset = some (.truncatedInstruction offset) ↔
      -- Each kind of entry either is the one that the fault names, or leads to another fault.
      ∃ opcode, chunk.entry offset = .truncated opcode := by
  unfold fault?
  split <;> simp_all

/-- An index is out of range if the entry of its load has no constant. -/
theorem fault?_outOfRange_iff {chunk : Chunk} {offset index : Nat} :
    chunk.fault? offset = some (.constantOutOfRange index chunk.constants.size) ↔
      -- Each kind of entry either is the one that the fault names, or leads to another fault.
      ∃ opcode, chunk.entry offset = .load opcode index none := by
  unfold fault?
  split <;> simp_all

/-- The operand bytes of a load are read off the code behind its opcode. -/
theorem toList_operands (chunk : Chunk) (offset count : Nat) :
    (chunk.code.extract (offset + 1) (offset + (count + 1))).toList =
      (chunk.code.toList.drop (offset + 1)).take count := by
  -- Taking so many bytes from a place is cutting them out between two offsets.
  rw [Array.toList_extract, List.extract_eq_take_drop]
  congr 1
  omega

/-- The byte behind the opcode is the operand of the short load. -/
theorem loadEntry_constant (chunk : Chunk) (offset : Nat) :
    chunk.loadEntry .constant offset =
      match chunk.code[offset + 1]? with
      | some index => .load .constant index.toNat chunk.constants[index.toNat]?
      | none => .truncated .constant := by
  -- Reading one byte and cutting out a list of one are the same.
  have operands := chunk.toList_operands offset 1
  have ahead : chunk.code[offset + 1]? = (chunk.code.toList.drop (offset + 1))[0]? := by
    rw [List.getElem?_drop, Array.getElem?_toList]
  simp only [loadEntry, Opcode.width, operands, ahead]
  -- Either there is a byte, or the code has ended.
  cases chunk.code.toList.drop (offset + 1) <;> rfl

/-- The three bytes behind the opcode are the operands of the long load. -/
theorem loadEntry_constantLong (chunk : Chunk) (offset : Nat) :
    chunk.loadEntry .constantLong offset =
      match chunk.code[offset + 1]?, chunk.code[offset + 2]?, chunk.code[offset + 3]? with
      | some low, some middle, some high =>
        let index := (LongIndex.mk low middle high).toNat
        .load .constantLong index chunk.constants[index]?
      | _, _, _ => .truncated .constantLong := by
  -- The three reads look at the first three places of what is cut out.
  have operands := chunk.toList_operands offset 3
  have ahead (place : Nat) : chunk.code[offset + (place + 1)]? =
      (chunk.code.toList.drop (offset + 1))[place]? := by
    rw [List.getElem?_drop, Array.getElem?_toList, Nat.add_right_comm, Nat.add_assoc]
  simp only [loadEntry, Opcode.width, operands, ahead 0, ahead 1, ahead 2]
  -- The code may end before the first, the second or the third of them.
  rcases chunk.code.toList.drop (offset + 1) with _ | ⟨low, _ | ⟨middle, _ | ⟨high, rest⟩⟩⟩ <;> rfl

/-- What stands at an offset, with what that says about the code. -/
inductive Stands (chunk : Chunk) (offset : Nat) : Entry → Prop
  /-- The code ends before the offset. -/
  | endOfCode (outside : chunk.code.size ≤ offset) : Stands chunk offset .endOfCode
  /-- The byte there is that of no opcode. -/
  | unknown {byte : UInt8} (opened : chunk.code[offset]? = some byte)
      (other : Opcode.ofByte? byte = none) : Stands chunk offset (.unknown byte)
  /-- The opcode there has no operand bytes. -/
  | plain {opcode : Opcode} (opened : chunk.code[offset]? = some opcode.toByte)
      (single : opcode.isLoad = false) : Stands chunk offset (.plain opcode)
  /-- The code ends before the last operand byte. -/
  | truncated {opcode : Opcode} (opened : chunk.code[offset]? = some opcode.toByte)
      (loads : opcode.isLoad) (cut : chunk.code.size < offset + opcode.width) :
      Stands chunk offset (.truncated opcode)
  /-- The operand bytes hold an index. -/
  | load {opcode : Opcode} {index : Nat} (opened : chunk.code[offset]? = some opcode.toByte)
      (loads : opcode.isLoad) (whole : offset + opcode.width ≤ chunk.code.size) :
      Stands chunk offset (.load opcode index chunk.constants[index]?)

/-- A short load is whole as soon as there is a byte behind its opcode. -/
theorem loadEntry_constant_stands {chunk : Chunk} {offset : Nat}
    (opened : chunk.code[offset]? = some Opcode.constant.toByte) :
    chunk.Stands offset (chunk.loadEntry .constant offset) := by
  -- The operand byte is inside the code, or the code ends right before it.
  rw [loadEntry_constant]
  split
  next operand => exact .load opened rfl (Array.getElem?_eq_some_iff.1 operand).1
  next missing =>
    exact .truncated opened rfl (Nat.lt_succ_of_le (Array.getElem?_eq_none_iff.1 missing))

/-- A long load is whole only with all three bytes, and the last one tells. -/
theorem loadEntry_constantLong_stands {chunk : Chunk} {offset : Nat}
    (opened : chunk.code[offset]? = some Opcode.constantLong.toByte) :
    chunk.Stands offset (chunk.loadEntry .constantLong offset) := by
  rw [loadEntry_constantLong]
  split
  next low middle high => exact .load opened rfl (Array.getElem?_eq_some_iff.1 high).1
  next missing =>
    -- If no byte were missing, there would be three of them.
    refine .truncated opened rfl (Nat.lt_of_not_le fun whole => ?_)
    have bounds : offset + 4 ≤ chunk.code.size := whole
    exact missing _ _ _ (Array.getElem?_eq_getElem (by omega))
      (Array.getElem?_eq_getElem (by omega)) (Array.getElem?_eq_getElem (by omega))

/-- An entry is one of five kinds, and each kind has its own code. -/
theorem entry_stands (chunk : Chunk) (offset : Nat) : chunk.Stands offset (chunk.entry offset) := by
  -- The cases are those in which a listing tells the entries apart.
  unfold entry
  split
  next outside => exact .endOfCode (Array.getElem?_eq_none_iff.1 outside)
  next byte opened =>
    -- A byte inside the code is that of a load, of another opcode, or of none.
    split
    next other => exact .unknown opened other
    next known => exact loadEntry_constant_stands (Opcode.ofByte?_eq_some_iff.1 known ▸ opened)
    next known => exact loadEntry_constantLong_stands (Opcode.ofByte?_eq_some_iff.1 known ▸ opened)
    next opcode short long known =>
      refine .plain (Opcode.ofByte?_eq_some_iff.1 known ▸ opened) ?_
      -- Neither load comes to this case.
      cases opcode with
      | constant => exact absurd rfl short
      | constantLong => exact absurd rfl long
      | binary | negate | ret => rfl

/-- The next row of a listing does not start behind the end of the code. -/
theorem row_next_le_size (chunk : Chunk) {offset : Nat} (inside : offset < chunk.code.size) :
    (chunk.row offset).next ≤ chunk.code.size := by
  -- A whole load ends inside the code, and one that is cut off is left for the end.
  rw [row]
  have stands := chunk.entry_stands offset
  generalize chunk.entry offset = entry at stands ⊢
  cases stands with
  | endOfCode outside => exact absurd outside (Nat.not_le_of_lt inside)
  | unknown | plain => exact inside
  | truncated => exact Nat.le_refl _
  | load _ _ whole => exact whole

/-- Only loads look for operand bytes. -/
theorem Stands.sound {chunk : Chunk} {offset : Nat} {entry : Entry}
    (stands : chunk.Stands offset entry) : entry.Sound := by
  -- What stands at an offset tells the opcode too.
  cases stands with
  | endOfCode | unknown | plain => trivial
  | truncated _ loads | load _ loads => exact loads

end Chunk

namespace Machine

/-- Executes an operation that takes its operands from the stack, behind its opcode byte. -/
def operate (machine : Machine) (opcode : Opcode) : Step :=
  let later := { machine with cursor := machine.cursor + 1 }
  match opcode, machine.stack with
  | .binary op, right :: left :: below =>
    if op = .divide ∧ right.isZero then machine.fail .divisionByZero { later with stack := below }
    else .running { later with stack := op.apply left right :: below }
  | .negate, value :: below => .running { later with stack := value.negate :: below }
  | .ret, value :: below => .stopped (.ok value) { later with stack := below }
  -- What there is of the operands is lost.
  | _, _ => machine.fail .stackUnderflow { later with stack := [] }

/-- Executes what a listing shows at the cursor. -/
def execute (machine : Machine) : Entry → Step
  | .endOfCode => machine.fail .missingReturn machine
  | .unknown byte => machine.fail (.unknownOpcode byte) { machine with cursor := machine.cursor + 1 }
  | .plain opcode => machine.operate opcode
  | .truncated _ => machine.cutOff
  | .load opcode index _ => machine.load index (machine.cursor + opcode.width)

/-- The arithmetic of the machine is the operation of its opcode. -/
theorem combine_eq_operate (machine : Machine) (op : BinaryOp) :
    machine.combine op (machine.cursor + 1) = machine.operate (.binary op) := by
  -- They agree on stacks with no value, with one, and with two or more.
  unfold combine operate
  rcases machine.stack with _ | ⟨right, _ | ⟨left, below⟩⟩ <;> rfl

/-- The machine reads byte by byte what a listing cuts out of the code at once. -/
theorem step_eq_execute (machine : Machine) :
    machine.step = machine.execute (machine.chunk.entry machine.cursor) := by
  -- The reads of the machine, one by one, decide between the same cases.
  cases opened : machine.chunk.code[machine.cursor]? with
  -- With no byte at the cursor, both stop at the end of the code.
  | none => simp only [step, Chunk.entry, opened, execute]
  | some byte =>
    cases known : Opcode.ofByte? byte with
    -- With a byte of no opcode, both name the byte.
    | none => simp only [step, Chunk.entry, opened, known, execute]
    | some opcode =>
      cases opcode with
      | constant =>
        simp only [step, Chunk.entry, opened, known, Chunk.loadEntry_constant]
        cases machine.chunk.code[machine.cursor + 1]? <;> rfl
      | constantLong =>
        -- The bytes behind the opcode are missed one after the other, with the same outcome.
        simp only [step, Chunk.entry, opened, known, Chunk.loadEntry_constantLong, Nat.add_assoc]
        rcases machine.chunk.code[machine.cursor + 1]? with _ | low
        · rfl
        rcases machine.chunk.code[machine.cursor + 2]? with _ | middle
        · rfl
        rcases machine.chunk.code[machine.cursor + 3]? with _ | high <;> rfl
      | binary op => simp only [step, Chunk.entry, opened, known, combine_eq_operate, execute]
      | negate =>
        simp only [step, Chunk.entry, opened, known, execute, operate]
        rcases machine.stack with _ | ⟨value, below⟩ <;> rfl
      | ret =>
        simp only [step, Chunk.entry, opened, known, execute, operate]
        rcases machine.stack with _ | ⟨value, below⟩ <;> rfl

section Faults

variable {machine : Machine}

/-- Only a missing operand or a zero to divide by stops an operation. -/
theorem operate_fault {opcode : Opcode} {fault : RuntimeFault}
    (stopped : (machine.operate opcode).fault? = some fault) : fault.ofStack := by
  -- An operation that stops without a value lacks operands or divides by zero.
  unfold operate at stopped
  split at stopped
  · -- A binary operator with both operands can only divide by zero.
    split at stopped <;> cases stopped
    rfl
  all_goals cases stopped
  rfl

/-- A load fails for its index alone, and never for the stack. -/
theorem load_fault (machine : Machine) (index next : Nat) :
    (machine.load index next).fault? =
      if machine.chunk.constants[index]?.isSome then none
      else some (.constantOutOfRange index machine.chunk.constants.size) := by
  unfold load
  cases machine.chunk.constants[index]? <;> rfl

/-- A fault that does not come from the stack is that of what stands at the cursor. -/
theorem fault_iff {fault : RuntimeFault} (decodes : fault.ofStack = false) :
    machine.step.fault? = some fault ↔
      machine.chunk.fault? machine.cursor = some fault := by
  -- Operations are the only entries whose faults come from the stack.
  rw [step_eq_execute, Chunk.fault?]
  have stands := machine.chunk.entry_stands machine.cursor
  generalize machine.chunk.entry machine.cursor = entry at stands ⊢
  cases stands with
  -- What cannot be executed stops the machine with its own fault.
  | endOfCode | unknown | truncated => exact Iff.rfl
  | plain opcode =>
    -- An operation that decodes well has no fault of the code.
    refine ⟨fun stopped => ?_, fun none => nomatch none⟩
    rw [operate_fault stopped] at decodes
    cases decodes
  | @load opcode index =>
    -- The load decodes well, and its constant is found or not.
    rw [execute, load_fault]
    cases machine.chunk.constants[index]? <;> exact Iff.rfl

end Faults

/-- An operation has no operand bytes to pass. -/
theorem operate_cursor (machine : Machine) (opcode : Opcode) :
    (machine.operate opcode).later.cursor = machine.cursor + 1 := by
  -- The opcode byte is passed in any case, even before a fault.
  unfold operate
  split
  · split <;> rfl
  all_goals rfl

/-- A load passes its operand bytes before it looks up the constant. -/
theorem load_cursor (machine : Machine) (index next : Nat) :
    (machine.load index next).later.cursor = next := by
  unfold load
  split <;> rfl

/-- Inside the code, the machine goes on to the next row of a listing, even if it stops there. -/
theorem step_cursor {machine : Machine} (inside : machine.cursor < machine.chunk.code.size) :
    machine.step.later.cursor = (machine.chunk.row machine.cursor).next := by
  -- The bytes that the machine takes are those that the row stands for.
  rw [step_eq_execute, Chunk.row]
  have stands := machine.chunk.entry_stands machine.cursor
  generalize machine.chunk.entry machine.cursor = entry at stands ⊢
  cases stands with
  | endOfCode outside => exact absurd outside (Nat.not_le_of_lt inside)
  -- These two pass the opcode byte, and a load that is cut off passes all that is left.
  | unknown | truncated => rfl
  | plain => exact machine.operate_cursor _
  | load => exact machine.load_cursor _ _

/-- Behind the code there is nothing to execute, and nothing changes. -/
theorem step_outside {machine : Machine} (outside : machine.chunk.code.size ≤ machine.cursor) :
    machine.step = machine.fail .missingReturn machine := by
  have missing : machine.chunk.code[machine.cursor]? = none := Array.getElem?_eq_none outside
  simp only [step, missing]

/-- Only behind the code is a return missed. -/
theorem size_le_of_missingReturn {machine : Machine}
    (stopped : machine.step.fault? = some .missingReturn) :
    machine.chunk.code.size ≤ machine.cursor := by
  -- There is one entry that leads to this fault.
  have stands := machine.chunk.entry_stands machine.cursor
  rw [fault_iff rfl, Chunk.fault?] at stopped
  split at stopped
  next ended =>
    rw [ended] at stands
    cases stands with
    | endOfCode outside => exact outside
  all_goals cases stopped

end Machine

/-- A row of a listing tells what the machine does there, whether that succeeds or fails. -/
structure Row.Agrees (row : Row) (machine : Machine) : Prop where
  /-- The next row is where the machine has moved on to. -/
  next : row.next = machine.step.later.cursor
  /-- The row names an unknown byte exactly if the machine stops at that. -/
  unknown : ∀ byte : UInt8, row.EndsIn s!"Unknown code {byte}" ↔
    machine.step.fault? = some (.unknownOpcode byte)
  /-- The row is cut off exactly if the machine misses operand bytes there. -/
  truncated : row.EndsIn "<truncated>" ↔
    machine.step.fault? = some (.truncatedInstruction machine.cursor)
  /-- The row shows an index out of range exactly if the machine stops at that. -/
  outOfRange : ∀ index, (∃ opcode, row.Shows opcode index "<out of range>") ↔
    machine.step.fault? = some (.constantOutOfRange index machine.chunk.constants.size)
  /-- The row shows another text only for a constant that the machine pushes. -/
  constant : ∀ opcode index text, row.Shows opcode index text → text ≠ "<out of range>" →
    machine.chunk.code[machine.cursor]? = some opcode.toByte ∧
    ∃ value, machine.chunk.constants[index]? = some value ∧ text = value.toText ∧
      machine.step = .running { machine with cursor := row.next, stack := value :: machine.stack }
  /-- In all other cases the row ends in the name of the operation that the machine performs. -/
  operation : (∀ byte : UInt8, ¬ row.EndsIn s!"Unknown code {byte}") → ¬ row.EndsIn "<truncated>" →
    (∀ opcode index text, ¬ row.Shows opcode index text) →
    ∃ opcode, row.EndsIn opcode.mnemonic ∧
      machine.chunk.code[machine.cursor]? = some opcode.toByte ∧
      machine.step = machine.operate opcode

/-- The listing of any code agrees with the machine at any offset and on any stack. -/
theorem row_agrees (chunk : Chunk) (stack : List Value) {offset : Nat}
    (inside : offset < chunk.code.size) : (chunk.row offset).Agrees ⟨chunk, offset, stack⟩ := by
  let machine : Machine := ⟨chunk, offset, stack⟩
  have stands : chunk.Stands offset (chunk.row offset).entry := chunk.entry_stands offset
  have stepped : machine.step = machine.execute (chunk.row offset).entry := machine.step_eq_execute
  have moved : machine.step.later.cursor = (chunk.row offset).next := Machine.step_cursor inside
  -- The entry of the row is what stands at the offset and what the machine executes.
  refine ⟨moved.symm, fun byte => ?_, ?_, fun index => ?_, ?_, ?_⟩
  · -- The same entry is behind the row and behind the fault.
    rw [Row.endsIn_unknown_iff, Machine.fault_iff rfl, Chunk.fault?_unknown_iff]
    rfl
  · -- A missing operand byte is the same for both.
    rw [Row.endsIn_truncated_iff, Machine.fault_iff rfl, Chunk.fault?_truncated_iff]
    rfl
  · rw [Machine.fault_iff rfl, Chunk.fault?_outOfRange_iff]
    -- The message stands for the lack of a constant, as no value is written like it.
    simp only [Row.shows_iff stands.sound, Entry.constantText_eq_iff, exists_eq_right]
    rfl
  · -- A constant that is shown is in the pool, and the load pushes it.
    intro opcode index text shown other
    obtain ⟨constant, loads, rfl⟩ := (Row.shows_iff stands.sound).1 shown
    rw [loads] at stands
    cases stands with
    | load opened =>
      refine ⟨opened, ?_⟩
      rw [loads, Machine.execute, Machine.load] at stepped
      cases found : chunk.constants[index]? with
      -- With no constant, the text would be that of an index out of range.
      | none => exact absurd (Entry.constantText_eq_iff.2 found).symm other
      | some value =>
        -- The constant is pushed, and the cursor is that of the next row.
        refine ⟨value, rfl, rfl, ?_⟩
        rw [← moved]
        simp only [machine, found] at stepped
        rw [stepped]
        rfl
  · intro notUnknown notTruncated notShown
    -- What is left is an opcode without operand bytes.
    have sound := stands.sound
    generalize shown : (chunk.row offset).entry = entry at stands stepped
    cases stands with
    | endOfCode outside => exact absurd outside (Nat.not_le_of_lt inside)
    | unknown => exact absurd (Row.endsIn_unknown_iff.2 shown) (notUnknown _)
    | truncated => exact absurd (Row.endsIn_truncated_iff.2 ⟨_, shown⟩) notTruncated
    | load => exact absurd ((Row.shows_iff sound).2 ⟨_, shown, rfl⟩) (notShown _ _ _)
    | plain opened => exact ⟨_, (Row.endsIn_mnemonic_iff sound).2 shown, opened, stepped⟩

/-- A long load with two of its three operand bytes is cut off for both, and both go to the end. -/
theorem row_agrees_cutOff :
    let chunk : Chunk := { code := #[1, 0, 0] }
    (chunk.row 0).EndsIn "<truncated>" ∧ (chunk.row 0).next = 3 ∧
      (Machine.start chunk).step.later.cursor = 3 := by
  intro chunk
  -- The opcode of a long load is the first of the three bytes.
  have inside : 0 < chunk.code.size := by decide
  have agrees := row_agrees chunk [] inside
  have next : (chunk.row 0).next = 3 := rfl
  exact ⟨agrees.truncated.2 rfl, next, agrees.next ▸ next⟩

end ByteCalc
