import ByteCalc.Operator

/-! Opcodes with their bytes, widths and mnemonics, and the three bytes of a long index. -/

namespace ByteCalc

/-- The operation an instruction performs. -/
inductive Opcode where
  /-- Pushes the constant whose index is the one operand byte. -/
  | constant
  /-- Pushes the constant whose index is spread over three operand bytes. -/
  | constantLong
  /-- Replaces the two values on top by the result of an operator. -/
  | binary (op : BinaryOp)
  /-- Flips the sign of the value on top. -/
  | negate
  /-- Ends the run with the value on top. -/
  | ret
deriving DecidableEq, Repr

namespace Opcode

/-- Every opcode, in the order of their bytes. -/
def all : List Opcode :=
  [constant, constantLong, binary .add, binary .subtract, binary .multiply, binary .divide,
    negate, ret]

theorem mem_all (opcode : Opcode) : opcode ∈ all := by
  -- The list has a place for every constructor, and for every operator of the binary one.
  cases opcode with
  | binary op => cases op <;> decide
  | constant | constantLong | negate | ret => decide

/-- The byte that stands for the opcode. -/
def toByte : Opcode → UInt8
  | constant => 0
  | constantLong => 1
  | binary .add => 2
  | binary .subtract => 3
  | binary .multiply => 4
  | binary .divide => 5
  | negate => 6
  | ret => 7

/-- The opcode a byte stands for, if it stands for one. -/
def ofByte? (byte : UInt8) : Option Opcode :=
  if byte = 0 then some constant
  else if byte = 1 then some constantLong
  else if byte = 2 then some (binary .add)
  else if byte = 3 then some (binary .subtract)
  else if byte = 4 then some (binary .multiply)
  else if byte = 5 then some (binary .divide)
  else if byte = 6 then some negate
  else if byte = 7 then some ret
  else none

/-- An opcode is read back from its byte. -/
theorem ofByte?_toByte (opcode : Opcode) : ofByte? opcode.toByte = some opcode := by
  -- The two tables are written in the same order.
  cases opcode with
  | binary op => cases op <;> rfl
  | constant | constantLong | negate | ret => rfl

/-- A byte stands for an opcode exactly if it is the byte of that opcode. -/
theorem ofByte?_eq_some_iff {byte : UInt8} {opcode : Opcode} :
    ofByte? byte = some opcode ↔ opcode.toByte = byte := by
  -- Each branch of the table fixes the byte and the opcode together.
  refine ⟨fun known => ?_, fun same => same ▸ ofByte?_toByte opcode⟩
  grind [ofByte?, toByte]

/-- The number of bytes an instruction takes, its opcode byte included. -/
def width : Opcode → Nat
  | constant => 2
  | constantLong => 4
  | binary _ | negate | ret => 1

/-- Every instruction has an opcode byte. -/
theorem width_pos (opcode : Opcode) : 0 < opcode.width := by
  -- The table holds no zero.
  unfold width
  split <;> decide

/-- The name shown in listings. -/
def mnemonic : Opcode → String
  | constant => "OP_CONSTANT"
  | constantLong => "OP_CONSTANT_LONG"
  | binary .add => "OP_ADD"
  | binary .subtract => "OP_SUBTRACT"
  | binary .multiply => "OP_MULTIPLY"
  | binary .divide => "OP_DIVIDE"
  | negate => "OP_NEGATE"
  | ret => "OP_RETURN"

end Opcode

/-- The largest index that one operand byte can hold. -/
def maxShortIndex : Nat := 255

/-- The number of indices that three operand bytes can hold. -/
def maxConstants : Nat := 0x1000000

/-- A pool index over three operand bytes, the lowest byte first. -/
structure LongIndex where
  /-- The index modulo 256. -/
  low : UInt8
  /-- The second byte. -/
  middle : UInt8
  /-- The third byte. -/
  high : UInt8
deriving DecidableEq, Repr

namespace LongIndex

/-- The bytes of an index, whose part above them is dropped. -/
def ofNat (index : Nat) : LongIndex :=
  ⟨UInt8.ofNat index, UInt8.ofNat (index >>> 8), UInt8.ofNat (index >>> 16)⟩

/-- The index the bytes hold. -/
def toNat (index : LongIndex) : Nat :=
  index.low.toNat + (index.middle.toNat <<< 8) + (index.high.toNat <<< 16)

/-- The bytes in the order they follow the opcode. -/
def bytes (index : LongIndex) : List UInt8 :=
  [index.low, index.middle, index.high]

/-- An index that fits is read back from its bytes. -/
theorem toNat_ofNat {index : Nat} (fits : index < maxConstants) :
    (ofNat index).toNat = index := by
  -- The three bytes are the digits of the index in base 256.
  unfold maxConstants at fits
  unfold ofNat toNat
  rw [UInt8.toNat_ofNat', UInt8.toNat_ofNat', UInt8.toNat_ofNat', Nat.shiftRight_eq_div_pow,
    Nat.shiftRight_eq_div_pow, Nat.shiftLeft_eq, Nat.shiftLeft_eq]
  omega

/-- Bytes are written back from the index they hold. -/
theorem ofNat_toNat (index : LongIndex) : ofNat index.toNat = index := by
  -- Each byte is below 256, so none of them reaches into the place of the next.
  obtain ⟨low, middle, high⟩ := index
  have := low.toNat_lt
  have := middle.toNat_lt
  have := high.toNat_lt
  unfold ofNat toNat
  rw [LongIndex.mk.injEq, ← UInt8.toNat_inj, ← UInt8.toNat_inj, ← UInt8.toNat_inj,
    UInt8.toNat_ofNat', UInt8.toNat_ofNat', UInt8.toNat_ofNat', Nat.shiftRight_eq_div_pow,
    Nat.shiftRight_eq_div_pow, Nat.shiftLeft_eq, Nat.shiftLeft_eq]
  dsimp only
  omega

end LongIndex

end ByteCalc
