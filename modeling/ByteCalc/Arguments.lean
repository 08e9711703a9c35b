import ByteCalc.Machine

/-! Arguments of the command line: the options they set and the script they name. -/

namespace ByteCalc

/-- What is asked for besides the result. -/
structure Options where
  /-- Whether a listing of the code comes before the result. -/
  disassemble : Bool := false
  /-- Whether a run is logged. -/
  trace : Bool := false
  /-- The stack slots to set aside before a run, which fails if they are too many. -/
  stackCapacity : Nat := defaultStackCapacity

/-- What the arguments of the command line have asked for. -/
structure Arguments where
  /-- Whether a listing has been asked for. -/
  disassemble : Bool := false
  /-- Whether a log has been asked for. -/
  trace : Bool := false
  /-- The number of stack slots, if one has been given. -/
  stackCapacity : Option Nat := none
  /-- The path of the script to run; without one, an interactive session starts. -/
  script : Option String := none

namespace Arguments

/-- The options that have been asked for, and the default number of stack slots otherwise. -/
def options (known : Arguments) : Options where
  disassemble := known.disassemble
  trace := known.trace
  stackCapacity := known.stackCapacity.getD defaultStackCapacity

/-- Reads a number of one machine word: decimal digits, which a plus sign may precede. -/
def word? (text : List Char) : Option Nat :=
  let digits := if text.head? = some '+' then text.tail else text
  let number := Nat.ofDigitChars 10 digits 0
  if digits ≠ [] ∧ digits.all Char.isDigit ∧ number < UInt64.size then some number else none

/-- Adds the number of stack slots, which is given once at most. -/
def addCapacity? (known : Arguments) (text : List Char) : Option Arguments :=
  match known.stackCapacity, word? text with
  | none, some slots => some { known with stackCapacity := some slots }
  | _, _ => none

/-- Adds a flag by its letter, each of them once at most. -/
def addFlag? (known : Arguments) : Char → Option Arguments
  | 'd' => if known.disassemble then none else some { known with disassemble := true }
  | 't' => if known.trace then none else some { known with trace := true }
  | _ => none

/-- Adds the path of the script, which is given once at most. -/
def addScript? (known : Arguments) (path : String) : Option Arguments :=
  if path.isEmpty ∨ known.script.isSome then none else some { known with script := some path }

/-- Adds a word that does not need the next one: a number with its name, letters or a path. -/
def addWord? (known : Arguments) (word : String) : Option Arguments :=
  match word.toList with
  | '-' :: '-' :: name =>
    ("stack-capacity=".toList.isPrefixOf? name).bind known.addCapacity?
  -- A single dash is a path, and letters behind it are flags.
  | '-' :: letter :: letters => (letter :: letters).foldlM addFlag? known
  | _ => known.addScript? word

/-- Adds further words to those already read, unless one has no meaning or comes once too often. -/
def read? (known : Arguments) : List String → Option Arguments
  | [] => some known
  | "--disassemble" :: others => do (← known.addFlag? 'd').read? others
  | "--trace" :: others => do (← known.addFlag? 't').read? others
  | "--stack-capacity" :: slots :: others => do (← known.addCapacity? slots.toList).read? others
  -- Behind two dashes, every word is a path.
  | "--" :: paths => paths.foldlM addScript? known
  | word :: others => do (← known.addWord? word).read? others

end Arguments

end ByteCalc
