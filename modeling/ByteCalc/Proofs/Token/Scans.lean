import ByteCalc.Token.Scanner

/-! The scans of a source text are its tokens, then its end or its first fault. -/

namespace ByteCalc

/-- Whether a fault lies in the characters of a text, and not in its tokens. -/
def CompileFault.isLexical : CompileFault → Bool
  | unexpectedChar _ | unterminatedString => true
  | expectedExpression _ | expectedToken _ _ | unsupported _ | tooDeep | chunk _ => false

/-- All scans of a source text, from its start to its end. -/
def scansOf (source : String) : List Scan :=
  (Scanner.start source).scans.1.toList

/-- The scan that comes after the tokens: the end of the text, or its first fault. -/
def Lexed.last (lexed : Lexed) : Scan :=
  match lexed.ending with
  | .ok line => .finish line
  | .error error => .fault error

/-- Whether a scan gives a token. -/
def Scan.isToken : Scan → Bool
  | token _ => true
  | fault _ | finish _ => false

/-- The tokens end with something that is no token. -/
theorem Lexed.last_isToken (lexed : Lexed) : lexed.last.isToken = false := by
  unfold last
  split <;> rfl

/-- The tokens before the first other scan are determined by the scans, and so is all after them. -/
theorem Scan.map_token_append_inj {these those : List Token} {first second : Scan}
    {after behind : List Scan} (firstEnds : first.isToken = false)
    (secondEnds : second.isToken = false)
    (same : these.map .token ++ first :: after = those.map .token ++ second :: behind) :
    these = those ∧ first = second ∧ after = behind := by
  -- Token by token, neither side can end before the other.
  induction these generalizing those with
  | nil =>
    cases those with
    | nil => simpa using same
    | cons token rest =>
      obtain ⟨rfl, _⟩ := List.cons.inj same
      cases firstEnds
  | cons token rest ih =>
    cases those with
    | nil =>
      obtain ⟨rfl, _⟩ := List.cons.inj same
      cases secondEnds
    | cons other others =>
      obtain ⟨head, tail⟩ := List.cons.inj same
      cases head
      obtain ⟨rfl, rest⟩ := ih tail
      exact ⟨rfl, rest⟩

namespace Scanner

/-- Scanning on adds to the scans that were made before. -/
theorem scansFrom_extends (scanner : Scanner) (made : Array Scan) :
    ∃ more, (scanner.scansFrom made).1.toList = made.toList ++ more := by
  -- Each scan is put at the end.
  fun_induction scansFrom scanner made with
  | case1 scanner made result ended => exact ⟨[result.1], Array.toList_push⟩
  | case2 scanner made result ended _ ih =>
    obtain ⟨more, extended⟩ := ih
    exact ⟨result.1 :: more, by rw [extended, Array.toList_push, List.append_assoc]; rfl⟩

/-- A scan that meets the end is the last one. -/
theorem scansFrom_finish {scanner later : Scanner} {line : UInt32} (made : Array Scan)
    (scanned : scanner.next = (.finish line, later)) :
    scanner.scansFrom made = (made.push (.finish line), later) := by
  have finished : scanner.next.1.isFinish := by simp [scanned, Scan.isFinish]
  rw [scansFrom, dif_pos finished, scanned]

/-- A scan that does not meet the end is followed by others. -/
theorem scansFrom_step {scanner later : Scanner} {scan : Scan} (made : Array Scan)
    (scanned : scanner.next = (scan, later)) (unfinished : scan.isFinish = false) :
    scanner.scansFrom made = later.scansFrom (made.push scan) := by
  have goesOn : ¬ scanner.next.1.isFinish := by simp [scanned, unfinished]
  rw [scansFrom, dif_neg goesOn]
  simp only [scanned]

/-- What is wrong with a lexeme lies in its characters. -/
theorem read_isLexical {char : Char} {rest : List Char} {fault : CompileFault}
    (found : (Lexeme.read char rest).found = .error fault) : fault.isLexical = true := by
  -- Only a string and a character that begins nothing can be at fault.
  unfold Lexeme.read at found
  split at found
  · -- Symbols are never at fault.
    unfold Lexeme.symbol at found
    split at found <;> cases found
  split at found
  · -- A string is at fault if it is open.
    unfold Lexeme.string at found
    split at found <;> cases found
    rfl
  split at found
  · -- Numbers are never at fault.
    unfold Lexeme.number at found
    simp only at found
    split at found
    · split at found <;> cases found
    · cases found
  split at found <;> cases found
  rfl

/-- The fault of a scan lies in the characters. -/
theorem next_isLexical {scanner later : Scanner} {error : CompileError}
    (scanned : scanner.next = (.fault error, later)) : error.fault.isLexical = true := by
  -- A scan passes on the fault of its lexeme.
  unfold next at scanned
  split at scanned
  · cases scanned
  · obtain ⟨scan, _⟩ := Prod.mk.inj scanned
    split at scan
    · cases scan
    next fault found =>
      cases scan
      exact read_isLexical found

/-- Up to the end or the first fault, scanning and lexing make the same tokens. -/
theorem scansFrom_lexFrom (scanner : Scanner) (scanned : Array Token) (made : Array Scan)
    (same : made.toList = scanned.toList.map .token) :
    let lexed := scanner.lexFrom scanned
    ∃ more, (scanner.scansFrom made).1.toList = lexed.tokens.map .token ++ lexed.last :: more ∧
      (lexed.last.isFinish → more = []) := by
  -- Both take the same step, and only scanning goes on after a fault.
  fun_induction lexFrom scanner scanned generalizing made with
  | case1 scanner scanned token later result _ ih =>
    rw [scansFrom_step made result rfl]
    exact ih (made.push (.token token)) (by simp [same])
  | case2 scanner scanned error later result =>
    rw [scansFrom_step made result rfl]
    obtain ⟨more, extended⟩ := later.scansFrom_extends (made.push (.fault error))
    refine ⟨more, ?_, fun impossible => nomatch impossible⟩
    rw [extended, Array.toList_push, same, List.append_assoc]
    rfl
  | case3 scanner scanned line later result =>
    rw [scansFrom_finish made result]
    exact ⟨[], by rw [Array.toList_push, same]; rfl, fun _ => rfl⟩

/-- The fault that ends the tokens of a text lies in its characters. -/
theorem lexFrom_isLexical (scanner : Scanner) (scanned : Array Token) {error : CompileError}
    (faulty : (scanner.lexFrom scanned).ending = .error error) :
    error.fault.isLexical = true := by
  -- Only the scan that ends the tokens can be at fault.
  fun_induction lexFrom scanner scanned with
  | case1 scanner scanned token later result _ ih => exact ih faulty
  | case2 scanner scanned fault later result =>
    cases faulty
    exact next_isLexical result
  | case3 scanner scanned line later result => cases faulty

end Scanner

/-- The scans of a text begin with its tokens and with what ends them. -/
theorem scansOf_eq (source : String) :
    ∃ more, scansOf source = (lex source).tokens.map .token ++ (lex source).last :: more ∧
      ((lex source).last.isFinish → more = []) :=
  (Scanner.start source).scansFrom_lexFrom #[] #[] rfl

/-- The fault that ends the tokens of a source text lies in its characters. -/
theorem lex_isLexical {source : String} {error : CompileError}
    (faulty : (lex source).ending = .error error) : error.fault.isLexical = true :=
  (Scanner.start source).lexFrom_isLexical #[] faulty

/-- A text without faults is one whose scans are tokens up to its end. -/
theorem scansOf_eq_tokens_iff {source : String} {tokens : List Token} {line : UInt32} :
    scansOf source = tokens.map .token ++ [.finish line] ↔ lex source = ⟨tokens, .ok line⟩ := by
  obtain ⟨more, scans, ended⟩ := scansOf_eq source
  constructor
  · intro whole
    obtain ⟨same, last, _⟩ := Scan.map_token_append_inj (lex source).last_isToken rfl
      (scans.symm.trans whole)
    -- The scan that ends the tokens says how the text ends.
    cases lexed : lex source with
    | mk all ending =>
      rw [lexed] at same last
      cases ending with
      | error error => cases last
      | ok endLine =>
        cases last
        cases same
        rfl
  · intro lexed
    rw [lexed] at scans ended
    rw [scans, ended rfl]
    rfl

/-- The tokens of a text are given if they go up to its end. -/
theorem tokenize_eq_ok_iff {source : String} {tokens : List Token} {endLine : UInt32} :
    tokenize source = .ok (tokens, endLine) ↔ lex source = ⟨tokens, .ok endLine⟩ := by
  -- Without a fault at the end, all of the tokens are the result.
  cases lexed : lex source with
  | mk all ending =>
    cases ending <;> simp [tokenize, lexed, Bind.bind, Except.bind, pure, Except.pure]

/-- The first fault of a text is the one that ends its tokens. -/
theorem lex_of_ending_error {source : String} {error : CompileError}
    (faulty : (lex source).ending = .error error) :
    ∃ more, scansOf source = (lex source).tokens.map .token ++ .fault error :: more := by
  obtain ⟨more, scans, _⟩ := scansOf_eq source
  exact ⟨more, by rw [scans, Lexed.last, faulty]⟩

end ByteCalc
