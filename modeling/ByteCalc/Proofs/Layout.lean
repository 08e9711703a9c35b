import ByteCalc.Proofs.Compile.ErrorPlace
import ByteCalc.Proofs.Compile.Relined
import ByteCalc.Proofs.Interpretation
import ByteCalc.Proofs.Token.Inset

/-! White space and comments between the tokens of a text change nothing but lines. -/

namespace ByteCalc

section Spans

variable {source : String} {tokens : List Token} {endLine : UInt32}

/-- The line that is given for the span in a place. -/
def lineOf (spans : List Span) (line : Span → UInt32) (place : Nat) : UInt32 :=
  (spans[place]?.map line).getD 0

/-- Spans on other lines have the tokens that stand on these lines. -/
theorem map_atLine_eq_reline (line : Span → UInt32) (lines : Nat → UInt32) {spans : List Span}
    {place : Nat} (scans : spans.map (·.scan) = tokens.map .token ++ [.finish endLine])
    (agree : ∀ index span, spans[index]? = some span → lines (place + index) = line span) :
    spans.map (fun span => span.scan.atLine (line span)) =
      (reline lines place tokens).map .token ++ [.finish (lines (place + tokens.length))] := by
  -- The spans are gone through along with the tokens, up to the span of the end.
  induction tokens generalizing spans place with
  | nil =>
    -- Only the span of the end is left, and its place is that behind all tokens.
    obtain ⟨span, rfl, finish⟩ := List.map_eq_singleton_iff.1 scans
    simp [reline, Scan.atLine, finish, ← agree 0 span rfl]
  | cons token rest ih =>
    -- The first span is that of the first token, and the others follow it.
    obtain ⟨span, others, rfl, read, later⟩ := List.map_eq_cons_iff.1 scans
    have behind (index : Nat) (other : Span) (found : others[index]? = some other) :
        lines (place + 1 + index) = line other := by
      rw [Nat.add_assoc, Nat.add_comm 1]
      exact agree (index + 1) other found
    rw [List.map_cons, ih later behind, read, ← agree 0 span rfl]
    simp only [reline, List.map_cons, List.cons_append, List.length_cons, Nat.add_assoc,
      Nat.add_comm 1]
    rfl

/-- The span in a place has the line that is given for it. -/
theorem lineOf_eq {spans : List Span} {line : Span → UInt32} {place : Nat} {span : Span}
    (found : spans[place]? = some span) : lineOf spans line place = line span := by
  rw [lineOf, found]
  rfl

/-- The spans of a text without faults are its tokens, and its end. -/
theorem map_scan_of_lex (lexed : lex source = ⟨tokens, .ok endLine⟩) :
    (spansOf source).map (·.scan) = tokens.map .token ++ [.finish endLine] := by
  -- The scans of a text without faults are known, and the spans have them.
  rw [map_scan_spansOf, scansOf_eq_tokens_iff.2 lexed]

/-- There is one span for each token, and one for the end. -/
theorem length_spansOf (lexed : lex source = ⟨tokens, .ok endLine⟩) :
    (spansOf source).length = tokens.length + 1 := by
  simpa using congrArg List.length (map_scan_of_lex lexed)

/-- A text that is lexed to its end has no fault among its spans. -/
theorem not_fault_of_lex (lexed : lex source = ⟨tokens, .ok endLine⟩) :
    ∀ span ∈ spansOf source, ∀ error, span.scan ≠ .fault error := by
  -- The scans are the tokens and the end, none of which is a fault.
  intro span mem error faulty
  have scanned : span.scan ∈ tokens.map Scan.token ++ [.finish endLine] :=
    map_scan_of_lex lexed ▸ List.mem_map_of_mem mem
  simp [faulty] at scanned

/-- On the lines of their spans, the tokens are as they are. -/
theorem reline_own (lexed : lex source = ⟨tokens, .ok endLine⟩) :
    let lines := lineOf (spansOf source) (·.scan.line)
    reline lines 0 tokens = tokens ∧ lines tokens.length = endLine := by
  intro lines
  -- On the line where it stands, no scan changes.
  have scans := map_scan_of_lex lexed
  have relined := map_atLine_eq_reline (·.scan.line) lines scans
    fun index span found => by rw [Nat.zero_add]; exact lineOf_eq found
  simp only [Scan.atLine_line, scans, Nat.zero_add] at relined
  obtain ⟨same, finish, _⟩ := Scan.map_token_append_inj rfl rfl relined.symm
  exact ⟨same, by injection finish⟩

/-- The tokens of a text with filler in it are those of the text, on the lines they are moved to. -/
theorem Inset.lex_text (inset : Inset source) (lexed : lex source = ⟨tokens, .ok endLine⟩) :
    let lines := lineOf (spansOf source) inset.line
    lex inset.text = ⟨reline lines 0 tokens, .ok (lines tokens.length)⟩ := by
  -- The text has the same scans with other lines, and so the same tokens.
  intro lines
  have relined := map_atLine_eq_reline inset.line lines (map_scan_of_lex lexed)
    fun index span found => by rw [Nat.zero_add]; exact lineOf_eq found
  rw [Nat.zero_add] at relined
  rw [← scansOf_eq_tokens_iff, inset.scansOf_text (not_fault_of_lex lexed), ← relined]
  rfl

/-- Behind all tokens stands the end of the text. -/
theorem spansOf_end (lexed : lex source = ⟨tokens, .ok endLine⟩) :
    (spansOf source)[tokens.length]? =
      some ⟨.finish endLine, source.utf8ByteSize, source.utf8ByteSize⟩ := by
  -- The last span stands behind as many others as there are tokens.
  obtain ⟨line, last⟩ := (tiles_spansOf source).getLast?
  have scans := congrArg List.getLast? (map_scan_of_lex lexed)
  rw [List.getLast?_map, last, List.getLast?_append] at scans
  obtain rfl : line = endLine := by simpa using scans
  rw [List.getLast?_eq_getElem?, length_spansOf lexed] at last
  exact last

/-- No text has an edge behind its end, so that its end is always moved. -/
theorem Inset.line_end (inset : Inset source) (endLine : UInt32) :
    inset.line ⟨.finish endLine, source.utf8ByteSize, source.utf8ByteSize⟩ =
      endLine + inset.shift := by
  -- The end is never in front of the place of the filler.
  have inside : inset.offset ≤ source.utf8ByteSize := by
    have size := congrArg String.utf8ByteSize inset.whole
    rw [String.utf8ByteSize_append] at size
    rw [Inset.offset]
    omega
  exact if_pos inside

end Spans

namespace Expression

/-- The code of a text, whose return belongs to the end behind all tokens. -/
def ownedProgram (tree : Expression) : List Owned :=
  tree.owned 0 0 ++ [⟨.ret, tree.tokenCount⟩]

/-- For each byte of the code of a text, the place of the token that it is written for. -/
def bytePlaces (tree : Expression) : List Nat :=
  tree.ownedProgram.flatMap fun item =>
    List.replicate item.instruction.bytes.length item.place

/-- The span of the token that the byte at an offset is written for. -/
def owner? (tree : Expression) (source : String) (offset : Nat) : Option Span :=
  tree.bytePlaces[offset]?.bind fun place => (spansOf source)[place]?

/-- On other lines, the program has the same instructions. -/
theorem program_reline (lines : Nat → UInt32) (tree : Expression) :
    (tree.reline lines 0).program (lines tree.tokenCount) =
      tree.ownedProgram.map (Owned.placed lines) := by
  -- The return is moved like the others, as it belongs to the end.
  rw [program, code_reline, ownedProgram, List.map_append]
  rfl

/-- The bytes of the code are the same on all lines. -/
theorem chunk_reline_code (lines : Nat → UInt32) (tree : Expression) :
    ((tree.reline lines 0).chunk (lines tree.tokenCount)).code.toList =
      tree.ownedProgram.flatMap (·.instruction.bytes) := by
  -- The bytes of an instruction do not depend on its line.
  rw [chunk_code, program_reline, Placed.bytes, List.flatMap_map]
  rfl

/-- On other lines, each byte has the line of the token it is written for. -/
theorem chunk_reline_byteLines (lines : Nat → UInt32) (tree : Expression) :
    ((tree.reline lines 0).chunk (lines tree.tokenCount)).byteLines =
      tree.bytePlaces.map lines := by
  -- The line of a byte is that of the place which its instruction has.
  rw [chunk_byteLines, program_reline, Placed.lines, bytePlaces, List.flatMap_map,
    List.map_flatMap]
  simp only [List.map_replicate]
  rfl

/-- On other lines, the constants are the same. -/
theorem chunk_reline_constants (lines : Nat → UInt32) (endLine : UInt32) (tree : Expression) :
    ((tree.reline lines 0).chunk endLine).constants.toList = tree.values := by
  rw [chunk_constants, values_reline]

/-- Every byte is written for a token, or for the end. -/
theorem place_of_mem_bytePlaces {tree : Expression} {place : Nat}
    (mem : place ∈ tree.bytePlaces) : place ≤ tree.tokenCount := by
  -- The return is the last one, at the place behind all tokens.
  obtain ⟨item, inside, copies⟩ := List.mem_flatMap.1 mem
  rw [List.eq_of_mem_replicate copies]
  rcases List.mem_append.1 inside with inTree | last
  · have bound := place_of_mem_owned inTree
    omega
  · rw [List.mem_singleton.1 last]

/-- The last byte is the return, which is written for the end. -/
theorem bytePlaces_last (lines : Nat → UInt32) (tree : Expression) :
    tree.bytePlaces[((tree.reline lines 0).chunk (lines tree.tokenCount)).code.size - 1]? =
      some tree.tokenCount := by
  -- There are as many places as bytes.
  have size : ((tree.reline lines 0).chunk (lines tree.tokenCount)).code.size =
      tree.bytePlaces.length := by
    rw [← Array.length_toList, chunk_reline_code, bytePlaces, List.length_flatMap,
      List.length_flatMap]
    simp only [List.length_replicate]
  have last : tree.bytePlaces = (tree.owned 0 0).flatMap (fun item =>
      List.replicate item.instruction.bytes.length item.place) ++ [tree.tokenCount] := by
    rw [bytePlaces, ownedProgram, List.flatMap_append]
    rfl
  rw [size, ← List.getLast?_eq_getElem?, last, List.getLast?_append]
  rfl

section Lines

variable {source : String} {tokens : List Token} {endLine : UInt32} {tree : Expression}

/-- Each byte has the line that is given for the span of its token. -/
theorem chunk_reline_line? (lexed : lex source = ⟨tokens, .ok endLine⟩)
    (spelled : Sentence tokens tree) (line : Span → UInt32) (offset : Nat) :
    let lines := lineOf (spansOf source) line
    ((tree.reline lines 0).chunk (lines tree.tokenCount)).line? offset =
      (tree.owner? source offset).map line := by
  intro lines
  -- Lines are looked up in the lines of all bytes.
  rw [Chunk.line?_eq, chunk_reline_byteLines, List.getElem?_map, owner?]
  cases found : tree.bytePlaces[offset]? with
  | none => rfl
  | some place =>
    -- There is one span more than there are tokens.
    have bound := place_of_mem_bytePlaces (List.mem_of_getElem? found)
    have inside : place < (spansOf source).length := by
      rw [length_spansOf lexed, spelled.length_eq]
      omega
    have span : (spansOf source)[place]? = some (spansOf source)[place] :=
      List.getElem?_eq_getElem inside
    simp only [Option.map_some, Option.bind_some, span]
    exact congrArg some (lineOf_eq span)

/-- The return belongs to the span of the end. -/
theorem owner?_last (lexed : lex source = ⟨tokens, .ok endLine⟩) (spelled : Sentence tokens tree)
    (lines : Nat → UInt32) :
    tree.owner? source (((tree.reline lines 0).chunk (lines tree.tokenCount)).code.size - 1) =
      some ⟨.finish endLine, source.utf8ByteSize, source.utf8ByteSize⟩ := by
  -- The return is the last byte, at the place of the end.
  rw [owner?, tree.bytePlaces_last, Option.bind_some, ← spelled.length_eq, spansOf_end lexed]

end Lines

end Expression

section Layout

variable {source : String} {tokens : List Token} {endLine : UInt32} {tree : Expression}
  {chunk : Chunk}

/-- What went wrong has no part in the value that there may be. -/
theorem toOption_mapError (outcome : Outcome) :
    (outcome.mapError InterpretError.runtime).toOption = outcome.toOption := by
  -- A value stays, and an error is dropped either way.
  cases outcome <;> rfl

/-- The code of a text is that of its expression, on the lines of the spans of its tokens. -/
theorem compile_eq_reline (lexed : lex source = ⟨tokens, .ok endLine⟩)
    (built : compile source = .ok chunk) :
    let lines := lineOf (spansOf source) (·.scan.line)
    ∃ tree, Sentence tokens tree ∧ tree.nesting ≤ maxNesting ∧
      tree.literals.length ≤ maxConstants ∧
      chunk = (tree.reline lines 0).chunk (lines tree.tokenCount) := by
  intro lines
  obtain ⟨others, otherLine, tree, otherLexed, spelled, shallow, fits, rfl⟩ := compile_eq_ok built
  cases lexed.symm.trans otherLexed
  -- The tokens are their own on these lines, so that the expression is its own too.
  obtain ⟨sameTokens, sameEnd⟩ := reline_own lexed
  have relined := spelled.reline lines 0
  rw [sameTokens] at relined
  refine ⟨tree, spelled, shallow, fits, ?_⟩
  rw [relined.unique spelled, ← spelled.length_eq]
  exact congrArg tree.chunk sameEnd.symm

/-- The text with filler in it is compiled to the code of the same expression on the other lines. -/
theorem Inset.compile_text (inset : Inset source) (lexed : lex source = ⟨tokens, .ok endLine⟩)
    (spelled : Sentence tokens tree) (shallow : tree.nesting ≤ maxNesting)
    (fits : tree.literals.length ≤ maxConstants) :
    let lines := lineOf (spansOf source) inset.line
    compile inset.text = .ok ((tree.reline lines 0).chunk (lines tree.tokenCount)) := by
  -- Other lines change neither the nesting nor the number of literals.
  intro lines
  rw [← spelled.length_eq]
  exact compile_sentence (inset.lex_text lexed) (spelled.reline lines 0)
    (by rwa [Expression.nesting_reline]) (by rwa [Expression.length_literals_reline])

/-- A text that is refused stands on the line of some span there, and so it does with filler. -/
theorem exists_span_of_error {error : CompileError} (lexed : lex source = ⟨tokens, .ok endLine⟩)
    (failed : compile source = .error error) :
    ∃ span ∈ spansOf source, error.line = span.scan.line ∧
      ∀ inset : Inset source, compile inset.text = .error ⟨error.fault, inset.line span⟩ := by
  obtain ⟨spot, inside, fails⟩ := Compile.compile_fails lexed failed
  -- The place where the text is refused is that of a span, which tells the line.
  have bound : spot < (spansOf source).length := by
    rw [length_spansOf lexed]
    omega
  have span : (spansOf source)[spot]? = some (spansOf source)[spot] :=
    List.getElem?_eq_getElem bound
  refine ⟨(spansOf source)[spot], List.getElem_mem bound, ?_, fun inset => ?_⟩
  · -- On its own lines, the text is refused like on all others.
    obtain ⟨sameTokens, sameEnd⟩ := reline_own lexed
    have again := fails (lineOf (spansOf source) (·.scan.line)) source
      (by rw [sameTokens, sameEnd, lexed])
    rw [failed] at again
    exact (congrArg CompileError.line (Except.error.inj again)).trans (lineOf_eq span)
  · -- With filler, the text has the same tokens on the lines of the inset.
    rw [fails _ _ (inset.lex_text lexed), lineOf_eq span]

/-- Filler does not change the value of a text, nor that it has none. -/
theorem Inset.interpret_text (inset : Inset source) (lexed : lex source = ⟨tokens, .ok endLine⟩) :
    (interpret inset.text).toOption = (interpret source).toOption := by
  cases built : compile source with
  | ok chunk =>
    -- Both texts are evaluated as the same expression.
    obtain ⟨tree, spelled, shallow, fits, _⟩ := compile_eq_reline lexed built
    rw [interpret_of_sentence lexed spelled built,
      interpret_of_sentence (inset.lex_text lexed) (spelled.reline _ 0)
        (inset.compile_text lexed spelled shallow fits),
      toOption_mapError, toOption_mapError, Expression.eval_reline]
  | error error =>
    obtain ⟨spot, _, fails⟩ := Compile.compile_fails lexed built
    rw [interpret, interpret, built, fails _ _ (inset.lex_text lexed)]
    rfl

/--
Filler between the tokens of a text moves lines, and changes nothing else.

It can be put in where a token or the end starts, or where a token ends, and moves just what
starts behind it.
-/
theorem compile_layout (scanned : tokenize source = .ok (tokens, endLine)) :
    (∀ chunk, compile source = .ok chunk → ∃ tree, Sentence tokens tree ∧
      (∀ offset, chunk.line? offset = (tree.owner? source offset).map (·.scan.line)) ∧
      ∀ inset : Inset source, ∃ other, compile inset.text = .ok other ∧
        other.code = chunk.code ∧ other.constants = chunk.constants ∧
        (∀ offset, other.line? offset = (tree.owner? source offset).map inset.line) ∧
        chunk.line? (chunk.code.size - 1) = some endLine ∧
        other.line? (chunk.code.size - 1) = some (endLine + inset.shift)) ∧
    (∀ error, compile source = .error error → ∃ span ∈ spansOf source,
      error.line = span.scan.line ∧
      ∀ inset : Inset source, compile inset.text = .error ⟨error.fault, inset.line span⟩) ∧
    ∀ inset : Inset source, (interpret inset.text).toOption = (interpret source).toOption := by
  have lexed := tokenize_eq_ok_iff.1 scanned
  refine ⟨fun chunk built => ?_, fun error failed => exists_span_of_error lexed failed,
    fun inset => inset.interpret_text lexed⟩
  -- Both chunks are that of the same expression, on two choices of lines.
  obtain ⟨tree, spelled, shallow, fits, rfl⟩ := compile_eq_reline lexed built
  have lines := Expression.chunk_reline_line? lexed spelled (·.scan.line)
  have last := Expression.owner?_last lexed spelled (lineOf (spansOf source) (·.scan.line))
  refine ⟨tree, spelled, lines, fun inset => ?_⟩
  have moved := Expression.chunk_reline_line? lexed spelled inset.line
  refine ⟨_, inset.compile_text lexed spelled shallow fits, ?_, ?_, moved, ?_, ?_⟩
  · -- The bytes do not depend on lines.
    rw [← Array.toList_inj, Expression.chunk_reline_code, Expression.chunk_reline_code]
  · -- The constants do not either.
    rw [← Array.toList_inj, Expression.chunk_reline_constants, Expression.chunk_reline_constants]
  · rw [lines, last]
    rfl
  · -- The end is behind the filler, and so the return is moved.
    rw [moved, last, Option.map_some, inset.line_end]

/-- A comment behind an operator moves what comes behind it to the next line. -/
theorem compile_layout_comment :
    (interpret "1/ // half\n2").toOption = (interpret "1/2").toOption ∧
      ∃ chunk other, compile "1/2" = .ok chunk ∧ compile "1/ // half\n2" = .ok other ∧
        other.code = chunk.code ∧ chunk.line? (chunk.code.size - 1) = some 1 ∧
        other.line? (chunk.code.size - 1) = some 2 := by
  -- The tokens of the text without the comment are known.
  have scans : scansOf "1/2" =
      [⟨.number, "1", 1⟩, ⟨.slash, "/", 1⟩, ⟨.number, "2", 1⟩].map .token ++ [.finish 1] := by
    decide +kernel
  have scanned := tokenize_eq_ok_iff.2 (scansOf_eq_tokens_iff.1 scans)
  have comment : Filler False ('/' :: '/' :: (" half".toList ++ ['\n'])) :=
    .comment (by decide) .nil
  have closed : Filler False " // half\n".toList := .blank rfl comment
  let inset : Inset "1/2" :=
    { before := "1/"
      filler := " // half\n"
      after := "2"
      whole := by decide
      edge := ⟨⟨.token ⟨.number, "2", 1⟩, 2, 3⟩, by decide +kernel, .inl (by decide)⟩
      closed := closed
      starts := ⟨' ', "// half\n".toList, by decide, rfl⟩ }
  obtain ⟨compiled, _, interpreted⟩ := compile_layout scanned
  refine ⟨interpreted inset, ?_⟩
  cases built : compile "1/2" with
  | error error =>
    have accepted : compileError? "1/2" = none := by decide +kernel
    rw [compileError?_eq_some_iff.2 built] at accepted
    cases accepted
  | ok chunk =>
    obtain ⟨tree, _, _, moved⟩ := compiled chunk built
    obtain ⟨other, relined, code, _, _, last, movedLast⟩ := moved inset
    have shift : 1 + lineFeeds " // half\n".toList = 2 := by decide +kernel
    exact ⟨chunk, other, rfl, relined, code, last, movedLast.trans (congrArg some shift)⟩

end Layout

end ByteCalc
