import ByteCalc.Arguments
import ByteCalc.Interpret
import ByteCalc.Text.Blank

/-! Sessions: what a script and an interactive session print, and how they end. -/

namespace ByteCalc

/-- Text for the two channels of a program. -/
structure Output where
  /-- Text for standard output. -/
  out : String := ""
  /-- Text for standard error. -/
  err : String := ""
deriving DecidableEq, Repr

instance : Append Output := ⟨fun left right => ⟨left.out ++ right.out, left.err ++ right.err⟩⟩

/-- Why a script cannot be read. -/
inductive ReadFailure where
  /-- No file has the path. -/
  | notFound
  /-- The file is not text in UTF-8. -/
  | notText
  /-- The system gives another reason. -/
  | other (reason : String)
deriving DecidableEq, Repr

/-- The text for a script that cannot be read. -/
def ReadFailure.message : ReadFailure → String
  | notFound => "No such file or directory (os error 2)"
  | notText => "stream did not contain valid UTF-8"
  | other reason => reason

/-- The exit code after input that cannot be read. -/
def unreadableExit : UInt32 := 74

/-- The exit code after a panic. -/
def panicExit : UInt32 := 101

/-- How the program ends. -/
inductive Ending where
  /-- It exits with a code. -/
  | exit (code : UInt32)
  /-- It panics, which the host reports on standard error with a message and words of its own. -/
  | panic (message : String)
deriving DecidableEq, Repr

/-- The exit code that is seen from outside. -/
def Ending.exitCode : Ending → UInt32
  | exit code => code
  | panic _ => panicExit

/-- The ending of a program that asks for more stack slots than can be set aside. -/
def Ending.overflow : Ending := panic "capacity overflow"

/-- A record as a line of standard error. -/
def Record.toLine (record : Record) : String :=
  s!"[{padRight 5 record.detail.label} lox_vm::vm::vm] {record.message}\n"

/-- What the evaluation of a source text comes to. -/
inductive Evaluation where
  /-- The text has a value. -/
  | value (value : Value)
  /-- There is an error in place of a value. -/
  | error (error : InterpretError)
  /-- The stack cannot be set aside, which the program does not survive. -/
  | overflow

/-- What a run comes to. -/
def Evaluation.ofOutcome : Outcome → Evaluation
  | .ok returned => .value returned
  | .error fault => .error (.runtime fault)

/-- What is printed while a source text is evaluated, and what that comes to. -/
def evaluate (options : Options) (source : String) : Output × Evaluation :=
  match compile source with
  | .error error => ({}, .error (.compile error))
  | .ok chunk =>
    -- The listing comes first, so it is printed even if the stack is refused or the run fails.
    let listing := if options.disassemble then chunk.listing "code" else ""
    match Machine.startWith? options.stackCapacity chunk with
    | none => ({ out := listing }, .overflow)
    | some machine =>
      let limit := if options.trace then some Detail.trace else none
      let records := machine.runRecords limit
      let log := records.foldl (fun text record => text ++ record.toLine) ""
      (⟨listing, log⟩, .ofOutcome machine.run.1)

namespace Script

/-- What a script prints, and how it ends. -/
def run (options : Options) (source : String) : Output × Ending :=
  match evaluate options source with
  | (printed, .value value) => (printed ++ { out := value.toText ++ "\n" }, .exit 0)
  | (printed, .error error) => (printed ++ { err := error.message ++ "\n" }, .exit error.exitCode)
  | (printed, .overflow) => (printed, .overflow)

/-- What is printed for a script that cannot be read, and how the program ends. -/
def refuse (path : String) (failure : ReadFailure) : Output × Ending :=
  ({ err := s!"Could not read file '{path}': {failure.message}\n" }, .exit unreadableExit)

/-- What the script in some bytes prints, and how it ends. -/
def runBytes (options : Options) (path : String) (bytes : ByteArray) : Output × Ending :=
  match String.fromUTF8? bytes with
  | some source => run options source
  | none => refuse path .notText

end Script

namespace Session

/-- What an interactive session prints first. -/
def greeting : Output :=
  { out := "lox_vm REPL\nEnter expressions, or 'quit' to leave.\n" }

/-- What is printed before each line of an interactive session is read. -/
def prompt : Output := { out := "> " }

/-- What is printed when the input of an interactive session ends. -/
def farewell : Output := { out := "\n" }

/-- What a line leads to in an interactive session. -/
inductive Turn where
  /-- Something is printed, and the session goes on. -/
  | answer (printed : Output)
  /-- Something is printed, and the session ends. -/
  | leave (printed : Output) (ending : Ending)
deriving DecidableEq, Repr

/-- What an expression leads to in an interactive session. -/
def answer (options : Options) (source : String) : Turn :=
  match evaluate options source with
  | (printed, .value value) => .answer (printed ++ { out := value.toText ++ "\n" })
  | (printed, .error error) => .answer (printed ++ { out := error.message ++ "\n" })
  | (printed, .overflow) => .leave printed .overflow

/-- What a line, given by its bytes, leads to in an interactive session. -/
def respond (options : Options) (line : ByteArray) : Turn :=
  -- Blanks around the text do not count, and a line of nothing else has no answer.
  match String.fromUTF8? line with
  | none =>
    .leave { err := s!"Error reading input: {ReadFailure.notText.message}\n" }
      (.exit unreadableExit)
  | some text =>
    let source := trimBlanks text
    if source = "quit" ∨ source = "exit" then .leave {} (.exit 0)
    else if source.isEmpty then .answer {}
    else answer options source

/-- The byte that ends a line. -/
def lineFeed : UInt8 := 10

/-- The bytes of the first line, without the line feed that ends it. -/
def firstLine (input : List UInt8) : List UInt8 :=
  input.takeWhile (· ≠ lineFeed)

/-- The bytes after the first line. -/
def afterLine (input : List UInt8) : List UInt8 :=
  (input.dropWhile (· ≠ lineFeed)).drop 1

/-- Some input is always used up by a line. -/
theorem length_afterLine_lt {input : List UInt8} (some : input ≠ []) :
    (afterLine input).length < input.length := by
  -- Either a line feed is dropped, or all of the input is the first line.
  have kept := (List.dropWhile_suffix (· ≠ lineFeed) (l := input)).length_le
  have present := List.length_pos_iff.2 some
  simp only [afterLine, List.length_drop]
  omega

/-- The rest of an interactive session over the rest of its input, after what is printed so far. -/
def converse (options : Options) (printed : Output) (input : List UInt8) : Output × Ending :=
  -- The last line counts even if no line feed ends it.
  if ended : input = [] then (printed ++ prompt ++ farewell, .exit 0)
  else
    have := length_afterLine_lt ended
    match respond options ⟨(firstLine input).toArray⟩ with
    | .answer reply => converse options (printed ++ prompt ++ reply) (afterLine input)
    | .leave reply ending => (printed ++ prompt ++ reply, ending)
termination_by input.length

/-- What an interactive session prints over all of its input, and how it ends. -/
def run (options : Options) (input : List UInt8) : Output × Ending :=
  converse options greeting input

end Session

end ByteCalc
