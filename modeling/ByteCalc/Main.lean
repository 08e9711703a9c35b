import ByteCalc.Session

/-! The program: it runs a script, or holds a session with the user when no script is named. -/

namespace ByteCalc

/-- Prints text on both channels. -/
def Output.print (output : Output) : IO Unit := do
  let out ← IO.getStdout
  out.putStr output.out
  out.flush
  (← IO.getStderr).putStr output.err

/-- Reads the bytes of a line after those already read, or gives none at the end of the input. -/
partial def readLine (input : IO.FS.Stream) (line : ByteArray) : IO (Option ByteArray) := do
  let byte ← input.read 1
  if byte.isEmpty then return if line.isEmpty then none else some line
  else if byte.toList = [Session.lineFeed] then return some line
  else readLine input (line ++ byte)

/-- Prints the last text of the program and the message of a panic, and gives the exit code. -/
def Ending.conclude (ending : Ending) (printed : Output) : IO UInt32 := do
  printed.print
  match ending with
  | .exit _ => pure ()
  | .panic message => Output.print { err := s!"panicked: {message}\n" }
  return ending.exitCode

/-- Answers the lines of the user until the session ends. -/
partial def hold (options : Options) (input : IO.FS.Stream) : IO UInt32 := do
  Session.prompt.print
  match ← readLine input .empty with
  | none => Ending.conclude (.exit 0) Session.farewell
  | some line =>
    match Session.respond options line with
    | .answer printed =>
      printed.print
      hold options input
    | .leave printed ending => ending.conclude printed

/-- What the script at a path prints, and how it ends. -/
def runPath (options : Options) (path : String) : IO (Output × Ending) := do
  try
    return Script.runBytes options path (← IO.FS.readBinFile path)
  catch
    | .noFileOrDirectory .. => return Script.refuse path .notFound
    | failure => return Script.refuse path (.other (toString failure))

/-- Runs the program on the arguments of the command line. -/
def runProgram (words : List String) : IO UInt32 := do
  match ({} : Arguments).read? words with
  | none =>
    Output.print { err := "usage: [--disassemble] [--trace] [--stack-capacity N] [SCRIPT]\n" }
    return 2
  | some known =>
    match known.script with
    | some path =>
      let (printed, ending) ← runPath known.options path
      ending.conclude printed
    | none =>
      Session.greeting.print
      hold known.options (← IO.getStdin)

end ByteCalc

/-- The entry point of the program. -/
def main (words : List String) : IO UInt32 :=
  ByteCalc.runProgram words
