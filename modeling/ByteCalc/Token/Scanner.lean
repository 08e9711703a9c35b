import ByteCalc.Token.Lexeme

/-! The scanner: tokens and faults of a source text in order, with the lines they stand on. -/

namespace ByteCalc

/-- What a scan of one lexeme gives. -/
inductive Scan where
  /-- A token. -/
  | token (token : Token)
  /-- Characters that make up no token. -/
  | fault (error : CompileError)
  /-- The end of the text, with its line. -/
  | finish (line : UInt32)
deriving DecidableEq, Repr

/-- Whether a scan met the end of the text. -/
def Scan.isFinish : Scan → Bool
  | finish _ => true
  | token _ | fault _ => false

/-- The tokens of a source text as far as they can be scanned. -/
structure Lexed where
  /-- The tokens before the end or the first fault. -/
  tokens : List Token
  /-- The line on which the text ends, or the fault that comes after the tokens. -/
  ending : Except CompileError UInt32

/-- A position in a source text. -/
structure Scanner where
  /-- The text that is still to be read. -/
  rest : List Char
  /-- The line on which it starts. -/
  line : UInt32
deriving DecidableEq, Repr

namespace Scanner

/-- The start of a source text, on its first line. -/
def start (source : String) : Scanner :=
  ⟨source.toList, 1⟩

/-- Skips blanks, and comments from their two slashes up to the line feed. -/
def skip (inComment : Bool) (line : UInt32) : List Char → Scanner
  | [] => ⟨[], line⟩
  | char :: rest =>
    -- A line feed ends a comment, and is counted like any other.
    if char = '\n' then skip false (line + 1) rest
    else if inComment || char = ' ' || char = '\r' || char = '\t' then skip inComment line rest
    else if char = '/' && rest.head? = some '/' then skip true line rest
    else ⟨char :: rest, line⟩

/-- Scans past filler and one lexeme. -/
def next (scanner : Scanner) : Scan × Scanner :=
  match skip false scanner.line scanner.rest with
  | ⟨[], line⟩ => (.finish line, ⟨[], line⟩)
  | ⟨char :: rest, line⟩ =>
    -- A token stands on the line where it ends, and a fault on the line where it starts.
    let lexeme := Lexeme.read char rest
    let after := line + UInt32.ofNat (lexeme.text.count '\n')
    let scan := match lexeme.found with
      | .ok kind => .token ⟨kind, String.ofList lexeme.text, after⟩
      | .error fault => .fault ⟨fault, line⟩
    (scan, ⟨lexeme.rest, after⟩)

/-- Skipping never lengthens the text. -/
theorem skip_rest_length (inComment : Bool) (line : UInt32) (text : List Char) :
    (skip inComment line text).rest.length ≤ text.length := by
  -- Each character is either skipped or the first one that is kept.
  induction text generalizing inComment line with
  | nil => simp [skip]
  | cons char rest ih =>
    unfold skip
    split
    · exact Nat.le_succ_of_le (ih ..)
    · split
      · exact Nat.le_succ_of_le (ih ..)
      · split
        · exact Nat.le_succ_of_le (ih ..)
        · exact Nat.le_refl _

/-- Unless the text has ended, a scan leaves a shorter text. -/
theorem next_rest_length {scanner : Scanner} (unfinished : ¬ scanner.next.1.isFinish) :
    scanner.next.2.rest.length < scanner.rest.length := by
  -- Skipping keeps the length or shortens it, and the lexeme takes at least one character.
  have skipped := skip_rest_length false scanner.line scanner.rest
  unfold next at unfinished ⊢
  split
  next line ended => simp [ended, Scan.isFinish] at unfinished
  next char rest line opened =>
    rw [opened] at skipped
    exact Nat.lt_of_le_of_lt (Lexeme.read_rest_length char rest) skipped

/-- Scanning a token leaves a shorter text. -/
theorem next_token_rest_length {scanner later : Scanner} {token : Token}
    (scanned : scanner.next = (.token token, later)) :
    later.rest.length < scanner.rest.length := by
  have unfinished : ¬ scanner.next.1.isFinish := by simp [scanned, Scan.isFinish]
  simpa [scanned] using next_rest_length unfinished

/-- All scans up to the end of the text, faults included, after those already made. -/
def scansFrom (scanner : Scanner) (made : Array Scan) : Array Scan × Scanner :=
  -- A fault does not end the scan, which goes on after the characters at fault.
  let result := scanner.next
  if ended : result.1.isFinish then (made.push result.1, result.2)
  else
    have := next_rest_length ended
    result.2.scansFrom (made.push result.1)
termination_by scanner.rest.length

/-- All scans up to the end of the text, and the position at the end. -/
def scans (scanner : Scanner) : Array Scan × Scanner :=
  scanner.scansFrom #[]

/-- The tokens up to the end of the text or its first fault, after those already scanned. -/
def lexFrom (scanner : Scanner) (scanned : Array Token) : Lexed :=
  match result : scanner.next with
  | (.token token, later) =>
    have := next_token_rest_length result
    later.lexFrom (scanned.push token)
  | (.fault error, _) => ⟨scanned.toList, .error error⟩
  | (.finish line, _) => ⟨scanned.toList, .ok line⟩
termination_by scanner.rest.length

end Scanner

/-- The tokens of a source text up to its end or its first fault. -/
def lex (source : String) : Lexed :=
  (Scanner.start source).lexFrom #[]

/-- The tokens of a source text and the line of its end, unless it has a fault. -/
def tokenize (source : String) : Except CompileError (List Token × UInt32) := do
  -- A fault anywhere in the text leaves no tokens.
  let lexed := lex source
  let line ← lexed.ending
  return (lexed.tokens, line)

end ByteCalc
