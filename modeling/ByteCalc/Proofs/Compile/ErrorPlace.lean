import ByteCalc.Proofs.Compile.Rejection

/-! An error names the first token that no sentence of the grammar has in its place. -/

namespace ByteCalc

/-- The error with which a source text is refused, if it is. -/
def compileError? (source : String) : Option CompileError :=
  match compile source with
  | .ok _ => none
  | .error error => some error

/-- A text has an error exactly if it is refused with it. -/
theorem compileError?_eq_some_iff {source : String} {error : CompileError} :
    compileError? source = some error ↔ compile source = .error error := by
  -- A text is compiled or it is not, and never both.
  unfold compileError?
  cases compile source with
  | ok chunk => simp
  | error other => simp

/-- The kinds of tokens that begin an operand for which there is no code. -/
def unsupportedKinds : List TokenKind :=
  [.identifier, .string, .keyword .nil, .keyword .true, .keyword .false, .bang, .keyword .this,
    .keyword .super]

/-- The kinds without code are those that the compiler refuses as unsupported. -/
theorem beginsUnsupported_iff {kind : TokenKind} :
    kind.beginsUnsupported = true ↔ kind ∈ unsupportedKinds := by
  -- The two tables agree on each of the kinds.
  cases kind with
  | keyword word => cases word <;> decide
  | _ => decide

/-- What a fault in the order of the tokens has found where something else is needed. -/
def CompileFault.found? : CompileFault → Option String
  | expectedExpression found | expectedToken _ found | unsupported found => some found
  | unexpectedChar _ | unterminatedString | tooDeep | chunk _ => none

namespace Scan

/-- The text and the line with which an error shows a token, or the end. -/
inductive Shows : Scan → String → UInt32 → Prop where
  | token (token : Token) : Shows (.token token) token.lexeme token.line
  | finish (line : UInt32) : Shows (.finish line) "end" line

/-- Some tokens can go on to a sentence with what is scanned next, or are one at the end. -/
def Continues (before : List Token) : Scan → Prop
  | token next => Viable (before ++ [next])
  | finish _ => ∃ tree, Sentence before tree
  | fault _ => False

/-- The scan gives a token that begins an operand without code. -/
def IsUnsupported (scan : Scan) : Prop :=
  ∃ token, scan = .token token ∧ token.kind ∈ unsupportedKinds

end Scan

/-- The fault of a scan that cannot stand behind some tokens, told by what has to stand there. -/
structure FaultAt (before : List Token) (scan : Scan) (found : String) (fault : CompileFault) :
    Prop where
  /-- An operand is needed, and one without code begins. -/
  unsupported : fault = .unsupported found ↔ RequiresOperand before ∧ scan.IsUnsupported
  /-- An operand is needed, and none begins. -/
  expression : fault = .expectedExpression found ↔ RequiresOperand before ∧ ¬ scan.IsUnsupported
  /-- A parenthesis has to be closed before the end. -/
  closing : fault = .expectedToken "Expect ')' after expression." found ↔
    ¬ RequiresOperand before ∧ LeavesOpen before
  /-- Nothing has to come before the end. -/
  ending : fault = .expectedToken "Expect end of expression." found ↔
    ¬ RequiresOperand before ∧ ¬ LeavesOpen before

/-- The position behind some tokens tells the fault of what cannot stand there. -/
theorem Place.faultAt {place : Place} {before : List Token} {scan : Scan} {unsupported : Bool}
    (walked : start.walk before = some place) (told : unsupported = true ↔ scan.IsUnsupported)
    (found : String) : FaultAt before scan found (place.fault unsupported found) := by
  have required := requiresOperand_iff walked
  have opened := leavesOpen_iff walked
  have differ : "Expect end of expression." ≠ "Expect ')' after expression." := by decide
  obtain ⟨count, _ | _⟩ := place
  · -- No operand is wanted, so that the fault depends on the parentheses.
    rcases Nat.eq_zero_or_pos count with rfl | positive
    · constructor <;> simp_all [fault, wanted]
    · constructor <;> simp_all [fault, wanted, Nat.ne_of_gt positive]
  · -- An operand is wanted, so that the fault depends on what comes instead.
    cases unsupported
    · constructor <;> simp_all [fault]
    · constructor <;> simp_all [fault]

/-- A fault at a place names what is found there. -/
theorem Place.fault_found {place : Place} {unsupported : Bool} {shown found : String}
    (named : (place.fault unsupported shown).found? = some found) : shown = found := by
  -- Every kind of fault names what was found.
  unfold fault at named
  split at named
  · split at named <;> exact Option.some.inj named
  · exact Option.some.inj named

/-- A fault at a place is never one of the characters. -/
theorem Place.fault_not_lexical (place : Place) (unsupported : Bool) (found : String) :
    (place.fault unsupported found).isLexical = false := by
  -- The faults at a place are those of the grammar.
  unfold fault
  split
  · split <;> rfl
  · rfl

/-- A fault in the characters names no token. -/
theorem CompileFault.found?_of_lexical {fault : CompileFault} (lexical : fault.isLexical = true) :
    fault.found? = none := by
  -- Faults that name a token are found by the compiler, and not by the scanner.
  cases fault with
  | unexpectedChar | unterminatedString | tooDeep | chunk => rfl
  | expectedExpression | expectedToken | unsupported => cases lexical

/-- The front of tokens that go on to a sentence goes on to it as well. -/
theorem Viable.left {before after : List Token} (viable : Viable (before ++ after)) :
    Viable before := by
  -- What completes the longer text completes the shorter one together with the rest of it.
  obtain ⟨rest, tree, spelled⟩ := viable
  exact ⟨after ++ rest, tree, by rwa [← List.append_assoc]⟩

/-- Tokens that go on to a sentence do so without the last of them. -/
theorem Viable.dropLast {tokens : List Token} (viable : Viable tokens) : Viable tokens.dropLast := by
  -- Without its last token, a text is a beginning of itself.
  obtain ⟨last, whole⟩ := tokens.dropLast_prefix
  rw [← whole] at viable
  exact viable.left

section Places

variable {source : String} {tokens before after : List Token} {token : Token} {place : Place}

/-- A token that cannot stand where it does is the first one that no sentence goes on with. -/
theorem misplaced_token (split : (lex source).tokens = before ++ token :: after)
    (walked : Place.start.walk before = some place) (stuck : place.next? token.kind = none) :
    ∃ scan behind, scansOf source = before.map .token ++ scan :: behind ∧
      scan.Shows token.lexeme token.line ∧ Viable before ∧ ¬ scan.Continues before ∧
      FaultAt before scan token.lexeme (place.fault token.kind.beginsUnsupported token.lexeme) := by
  -- What is scanned is the token, and then the rest of the text.
  obtain ⟨more, scans, _⟩ := scansOf_eq source
  refine ⟨.token token, after.map .token ++ (lex source).last :: more, ?_, .token token,
    viable_iff.2 ⟨place, walked⟩, ?_, Place.faultAt walked ?_ _⟩
  · simp [scans, split]
  · -- The walk along the tokens ends in front of this one.
    intro viable
    obtain ⟨later, moved⟩ := viable_iff.1 viable
    rw [Place.walk_append, walked, Option.bind_some, Place.walk_cons, stuck] at moved
    cases moved
  · -- The two tables of unsupported kinds agree.
    rw [beginsUnsupported_iff]
    exact ⟨fun kind => ⟨token, rfl, kind⟩, fun ⟨_, same, kind⟩ => by cases same; exact kind⟩

/-- An end that comes too early ends no sentence. -/
theorem misplaced_end {line : UInt32} (lexed : lex source = ⟨tokens, .ok line⟩)
    (walked : Place.start.walk tokens = some place) (unfinished : place ≠ .finish) :
    ∃ scan behind, scansOf source = tokens.map .token ++ scan :: behind ∧
      scan.Shows "end" line ∧ Viable tokens ∧ ¬ scan.Continues tokens ∧
      FaultAt tokens scan "end" (place.fault false "end") := by
  -- A text without faults ends with the scan of its end.
  refine ⟨.finish line, [], scansOf_eq_tokens_iff.2 lexed, .finish line,
    viable_iff.2 ⟨place, walked⟩, ?_, Place.faultAt walked ?_ _⟩
  · -- Behind the last token, only the end of a sentence is a place to stop at.
    intro sentence
    exact unfinished (Option.some.inj (walked.symm.trans (exists_sentence_iff.1 sentence)))
  · -- The end is no token, and so no unsupported one.
    exact ⟨nofun, fun ⟨_, same, _⟩ => nomatch same⟩

/-- An error that shows something shows what no sentence goes on with. -/
theorem misplaced_of_found {error : CompileError} {found : String}
    (reported : Compile.Reports (lex source).ending (lex source).tokens error)
    (named : error.fault.found? = some found) :
    ∃ before scan behind, scansOf source = before.map .token ++ scan :: behind ∧
      scan.Shows found error.line ∧ Viable before ∧ ¬ scan.Continues before ∧
      FaultAt before scan found error.fault := by
  -- A fault in the characters shows nothing, and neither does a limit.
  cases reported with
  -- The token that does not fit is shown in the error.
  | token split walked stuck =>
    obtain rfl := Place.fault_found named
    exact ⟨_, misplaced_token split walked stuck⟩
  -- The end is shown in the error, in place of a token.
  | @finish place line walked unfinished ended =>
    obtain rfl := Place.fault_found named
    have lexed : lex source = ⟨(lex source).tokens, .ok line⟩ := by rw [← ended]
    exact ⟨_, misplaced_end lexed walked unfinished⟩
  -- A fault of the scanner names no token, so that nothing is found.
  | fault _ ended | faultBehind _ _ _ ended =>
    rw [CompileFault.found?_of_lexical (lex_isLexical ended)] at named
    cases named
  | tooDeep | pool => cases named

/-- A fault in the characters comes behind tokens that stand where they can, but for the last. -/
theorem faulty_of_lexical {error : CompileError}
    (reported : Compile.Reports (lex source).ending (lex source).tokens error)
    (lexical : error.fault.isLexical = true) :
    ∃ before behind, scansOf source = before.map .token ++ .fault error :: behind ∧
      Viable before.dropLast ∧ (¬ RequiresOperand before.dropLast → Viable before) := by
  -- The other errors lie in the tokens or in a limit.
  cases reported with
  | token | finish =>
    rw [Place.fault_not_lexical] at lexical
    cases lexical
  -- All tokens in front of the fault are in their places.
  | fault walked ended =>
    obtain ⟨behind, scans⟩ := lex_of_ending_error ended
    have viable := viable_iff.2 ⟨_, walked⟩
    exact ⟨_, behind, scans, viable.dropLast, fun _ => viable⟩
  -- The last token has not been looked at, and may be out of its place.
  | @faultBehind before token place _ split walked wants ended =>
    obtain ⟨behind, scans⟩ := lex_of_ending_error ended
    have viable := viable_iff.2 ⟨_, walked⟩
    have required := (requiresOperand_iff walked).2 wants
    refine ⟨_, behind, scans, ?_, ?_⟩
    · rwa [split, List.dropLast_concat]
    · -- The token in front of the fault stands where an operand is needed.
      rw [split, List.dropLast_concat]
      exact fun other => absurd required other
  | tooDeep | pool => cases lexical

end Places

/--
Where a source text is refused.

A fault in the order of the tokens is that of the first scan that no sentence goes on with,
and is told by what has to stand in its place.
A fault in the characters is the first one of the text, and all tokens in front of it go on to
a sentence, but for one that stands right in front of it in the place of an operand.
-/
theorem compile_error_place {source : String} {error : CompileError}
    (failed : compile source = .error error) :
    (∀ found, error.fault.found? = some found →
      ∃ before scan after, scansOf source = before.map .token ++ scan :: after ∧
        scan.Shows found error.line ∧ Viable before ∧ ¬ scan.Continues before ∧
        FaultAt before scan found error.fault) ∧
    (error.fault.isLexical = true →
      ∃ before after, scansOf source = before.map .token ++ .fault error :: after ∧
        Viable before.dropLast ∧ (¬ RequiresOperand before.dropLast → Viable before)) := by
  -- What is found and the characters are told apart by the way in which the text is refused.
  have reported := Compile.compile_reports failed
  constructor
  · intro found named
    exact misplaced_of_found reported named
  · intro lexical
    exact faulty_of_lexical reported lexical

/-- Behind the literal, the parenthesis is still to be closed. -/
theorem compile_error_place_unclosed :
    compile "(1 2" = .error ⟨.expectedToken "Expect ')' after expression." "2", 1⟩ ∧
      ∃ before scan after, scansOf "(1 2" = before.map .token ++ scan :: after ∧
        scan.Shows "2" 1 ∧ Viable before ∧ ¬ scan.Continues before ∧
        FaultAt before scan "2" (.expectedToken "Expect ')' after expression." "2") := by
  -- The text is short enough for its compilation to be evaluated.
  have refused : compile "(1 2" = .error ⟨.expectedToken "Expect ')' after expression." "2", 1⟩ :=
    compileError?_eq_some_iff.1 (by decide +kernel)
  exact ⟨refused, (compile_error_place refused).1 "2" rfl⟩

end ByteCalc
