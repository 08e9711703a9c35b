import Mathlib.Algebra.Group.Nat.Defs
import ByteCalc.Proofs.Compile.Completeness
import ByteCalc.Proofs.Compile.Soundness
import ByteCalc.Proofs.Expression.Unambiguous
import ByteCalc.Proofs.Token.Scans

/-! The compiler accepts the sentences of the grammar that are neither too deep nor too long. -/

namespace ByteCalc

namespace Compile

/-- What is left to do once the tokens of a sum have been compiled. -/
def conclude (ending : Except CompileError UInt32) {bound : Nat} (whole : Compiled bound) :
    Except CompileError Chunk :=
  match whole.rest with
  | [] => ending.bind fun line => .ok (whole.chunk.writeOpcode .ret line)
  | extra => unexpected ending "Expect end of expression." extra

/-- A text is compiled as one sum, behind which nothing may be left. -/
theorem compile_eq (source : String) :
    compile source =
      (nextLine (lex source).ending (lex source).tokens).bind fun _ =>
        (partWithin (lex source).ending maxNesting .sum (lex source).tokens .empty).bind
          (conclude (lex source).ending) :=
  rfl

/-- Only where no token is left over is there a result. -/
theorem conclude_eq_ok {ending : Except CompileError UInt32} {bound : Nat}
    {whole : Compiled bound} {chunk : Chunk} (built : conclude ending whole = .ok chunk) :
    whole.rest = [] ∧
      ∃ endLine, ending = .ok endLine ∧ chunk = whole.chunk.writeOpcode .ret endLine := by
  -- Tokens that are left over are refused.
  unfold conclude at built
  split at built
  next none =>
    obtain ⟨endLine, ended, built⟩ := bind_eq_ok_iff.1 built
    cases built
    exact ⟨none, endLine, ended, rfl⟩
  · exact absurd built unexpected_ne_ok

end Compile

/-- The chunk of a source text: the code of its expression, and a return at the end. -/
def Expression.chunk (tree : Expression) (endLine : UInt32) : Chunk :=
  (Chunk.empty.writeExpression tree).writeOpcode .ret endLine

section Sentences

variable {source : String} {tokens : List Token} {endLine : UInt32} {tree : Expression}

/-- An expression within the limits is compiled to its code. -/
theorem compile_sentence (lexed : lex source = ⟨tokens, .ok endLine⟩)
    (spelled : Sentence tokens tree) (shallow : tree.nesting ≤ maxNesting)
    (fits : tree.literals.length ≤ maxConstants) :
    compile source = .ok (tree.chunk endLine) := by
  obtain ⟨line, looked⟩ := Compile.nextLine_ok endLine tokens
  -- There is no token behind the last one, so that nothing continues the sum.
  have stops : Compile.Stops .sum [] := fun token next => nomatch next
  have room : Chunk.empty.constants.size + tree.literals.length ≤ maxConstants := by
    simpa [Chunk.empty] using fits
  -- The tokens are one phrase, with nothing behind it.
  have parsed : Compile.partWithin (.ok endLine) maxNesting .sum tokens .empty = _ :=
    Compile.partWithin_phrase spelled (Level.le_refl _) stops.follows (List.append_nil _).symm room
      shallow (List.length_pos_iff.2 spelled.ne_nil)
  rw [Compile.compile_eq, lexed]
  -- Behind the phrase no token is left, so that the chain stops and the return follows.
  simp only [looked, parsed, Compile.chain_stop stops, Except.bind, Compile.conclude,
    Expression.chunk]

/-- An expression that nests too deeply is refused for that. -/
theorem compile_deep_sentence (lexed : lex source = ⟨tokens, .ok endLine⟩)
    (spelled : Sentence tokens tree) (deep : maxNesting < tree.nesting)
    (fits : tree.literals.length ≤ maxConstants) :
    ∃ line, compile source = .error ⟨.tooDeep, line⟩ := by
  -- The pool has room, so that only the nesting can stop the compiler.
  obtain ⟨_, looked⟩ := Compile.nextLine_ok endLine tokens
  have stops : Compile.Stops .sum [] := fun token next => nomatch next
  have room : Chunk.empty.constants.size + tree.literals.length ≤ maxConstants := by
    simpa [Chunk.empty] using fits
  obtain ⟨line, refused⟩ : ∃ line,
      Compile.partWithin (.ok endLine) maxNesting .sum tokens .empty = .error ⟨.tooDeep, line⟩ :=
    Compile.partWithin_tooDeep spelled (Level.le_refl _) stops.follows (List.append_nil _).symm
      room deep
  refine ⟨line, ?_⟩
  rw [Compile.compile_eq, lexed]
  simp only [looked, refused, Except.bind]

/-- An expression that has too many literals, but is not too deep, is refused for the literals. -/
theorem compile_overfull_sentence (lexed : lex source = ⟨tokens, .ok endLine⟩)
    (spelled : Sentence tokens tree) (shallow : tree.nesting ≤ maxNesting)
    (overfull : maxConstants < tree.literals.length) :
    ∃ error line, compile source = .error ⟨.chunk error, line⟩ := by
  -- The nesting is within its limit, so that only the pool can stop the compiler.
  obtain ⟨_, looked⟩ := Compile.nextLine_ok endLine tokens
  have stops : Compile.Stops .sum [] := fun token next => nomatch next
  have full : maxConstants < Chunk.empty.constants.size + tree.literals.length := by
    simpa [Chunk.empty] using overfull
  obtain ⟨error, line, refused⟩ : ∃ error line,
      Compile.partWithin (.ok endLine) maxNesting .sum tokens .empty =
        .error ⟨.chunk error, line⟩ :=
    Compile.partWithin_overfull spelled (Level.le_refl _) stops.follows (List.append_nil _).symm
      full shallow
  refine ⟨error, line, ?_⟩
  rw [Compile.compile_eq, lexed]
  simp only [looked, refused, Except.bind]

/-- Whatever is compiled is an expression within the limits, and the result is its code. -/
theorem compile_eq_ok {chunk : Chunk} (built : compile source = .ok chunk) :
    ∃ tokens endLine tree, lex source = ⟨tokens, .ok endLine⟩ ∧ Sentence tokens tree ∧
      tree.nesting ≤ maxNesting ∧ tree.literals.length ≤ maxConstants ∧
      chunk = tree.chunk endLine := by
  rw [Compile.compile_eq] at built
  obtain ⟨_, _, built⟩ := bind_eq_ok_iff.1 built
  obtain ⟨whole, parsed, built⟩ := bind_eq_ok_iff.1 built
  -- A result is given only where the sum takes all of the tokens.
  obtain ⟨none, endLine, ended, rfl⟩ := Compile.conclude_eq_ok built
  obtain ⟨phrase, tree, read, _⟩ := Compile.partWithin_reads _ _ _ _ _ _ parsed
  -- No token is left behind the phrase, so that it is all of the tokens.
  have all : (lex source).tokens = phrase := by rw [read.split, none, List.append_nil]
  have fits := read.fits
  rw [read.code, Chunk.writeExpression_constants_size] at fits
  refine ⟨phrase, endLine, tree, ?_, read.spelled, read.shallow, ?_, ?_⟩
  · rw [← all, ← ended]
  · simpa [Chunk.empty] using fits
  · rw [read.code, Expression.chunk]

end Sentences

/--
A source text is compiled if it has no faults, its tokens spell an expression, and that
expression neither nests too deeply nor has too many literals.

A text for which only the nesting is too deep is refused for just that.
-/
theorem compile_accepts (source : String) :
    ((∃ chunk, compile source = .ok chunk) ↔
      ∃ tokens endLine tree, scansOf source = tokens.map .token ++ [.finish endLine] ∧
        Sentence tokens tree ∧ (∀ other, Sentence tokens other → other = tree) ∧
        tree.nesting ≤ 255 ∧ tree.literals.length ≤ 2 ^ 24) ∧
    ∀ tokens endLine tree, scansOf source = tokens.map .token ++ [.finish endLine] →
      Sentence tokens tree → tree.literals.length ≤ 2 ^ 24 → ¬ tree.nesting ≤ 255 →
        ∃ line, compile source = .error ⟨.tooDeep, line⟩ := by
  -- Whatever is compiled is a sentence, and the limits tell what becomes of a sentence.
  refine ⟨⟨?_, ?_⟩, ?_⟩
  · -- A compiled text has been read as a sentence within the limits.
    rintro ⟨chunk, built⟩
    obtain ⟨tokens, endLine, tree, lexed, spelled, shallow, fits, _⟩ := compile_eq_ok built
    exact ⟨tokens, endLine, tree, scansOf_eq_tokens_iff.2 lexed, spelled,
      fun other otherSpelled => otherSpelled.unique spelled, shallow, fits⟩
  · -- A sentence within the limits is compiled, and to its own code.
    rintro ⟨tokens, endLine, tree, scans, spelled, _, shallow, fits⟩
    exact ⟨_, compile_sentence (scansOf_eq_tokens_iff.1 scans) spelled shallow fits⟩
  · -- The pool has room, so that the nesting is all that is wrong.
    intro tokens endLine tree scans spelled fits deep
    exact compile_deep_sentence (scansOf_eq_tokens_iff.1 scans) spelled (Nat.lt_of_not_le deep) fits

section Signs

/-- A literal behind so many signs, as a text. -/
def signed (count : Nat) : String :=
  String.ofList (List.replicate count '-' ++ ['1'])

/-- The tokens of that text. -/
def signedTokens (count : Nat) : List Token :=
  List.replicate count ⟨.minus, "-", 1⟩ ++ [⟨.number, "1", 1⟩]

/-- Each sign is one scan, whatever comes behind the signs. -/
theorem scansFrom_signs (count : Nat) (rest : List Char) (made : Array Scan) :
    ∃ later : Array Scan,
      later.toList = made.toList ++ List.replicate count (.token ⟨.minus, "-", 1⟩) ∧
      (Scanner.mk (List.replicate count '-' ++ rest) 1).scansFrom made =
        (Scanner.mk rest 1).scansFrom later := by
  -- A sign is a token by itself, whatever follows.
  have minus (rest : List Char) :
      Scanner.next ⟨'-' :: rest, 1⟩ = (.token ⟨.minus, "-", 1⟩, ⟨rest, 1⟩) := rfl
  induction count generalizing made with
  | zero => exact ⟨made, (List.append_nil _).symm, rfl⟩
  | succ count ih =>
    -- The first sign is scanned, and the others behind it.
    obtain ⟨later, scanned, same⟩ := ih (made.push (.token ⟨.minus, "-", 1⟩))
    refine ⟨later, ?_, ?_⟩
    · rw [scanned, Array.toList_push, List.append_assoc, List.replicate_succ]
      rfl
    · rw [List.replicate_succ, List.cons_append, Scanner.scansFrom_step made (minus _) rfl, same]

/-- The literal behind the signs ends at the end of the text, or at a plus sign. -/
theorem Scanner.next_one (rest : List Char) (ends : ∀ char ∈ rest.head?, char = '+') :
    Scanner.next ⟨'1' :: rest, 1⟩ = (.token ⟨.number, "1", 1⟩, ⟨rest, 1⟩) := by
  -- A plus sign does not go on with the number.
  cases rest with
  | nil => decide
  | cons char rest =>
    obtain rfl := ends char rfl
    rfl

/-- The tokens of the text are scanned in their order, and then its end. -/
private theorem scansOf_signed (count : Nat) :
    scansOf (signed count) = (signedTokens count).map .token ++ [.finish 1] := by
  -- Behind the literal nothing is left to scan.
  have finish : Scanner.next ⟨[], 1⟩ = (.finish 1, ⟨[], 1⟩) := rfl
  obtain ⟨later, scanned, same⟩ := scansFrom_signs count ['1'] #[]
  rw [scansOf, Scanner.scans, Scanner.start, signed, String.toList_ofList, same,
    Scanner.scansFrom_step _ (Scanner.next_one [] nofun) rfl, Scanner.scansFrom_finish _ finish]
  simp [scanned, signedTokens]

/-- The text is an expression that nests by one level for each sign, and one for the literal. -/
theorem exists_signed (count : Nat) :
    ∃ tree, Phrase .unary (signedTokens count) tree ∧ tree.nesting = count + 1 ∧
      tree.literals.length = 1 := by
  -- Each sign opens one more level.
  induction count with
  | zero => exact ⟨_, .number rfl, rfl, rfl⟩
  | succ count ih =>
    obtain ⟨tree, spelled, nesting, literals⟩ := ih
    -- A sign more is a negation more around the same literal.
    refine ⟨.negate ⟨.minus, "-", 1⟩ tree, .negate rfl spelled, ?_, literals⟩
    rw [Expression.nesting, nesting]
    omega

/-- The limit lies between 254 and 255 signs. -/
theorem compile_accepts_signed :
    (∃ chunk, compile (signed 254) = .ok chunk) ∧
      ∃ line, compile (signed 255) = .error ⟨.tooDeep, line⟩ := by
  -- A literal behind signs nests by one level for each of them, and one for itself.
  obtain ⟨tree, spelled, nesting, literals⟩ := exists_signed 254
  obtain ⟨deeper, deepSpelled, deepNesting, deepLiterals⟩ := exists_signed 255
  constructor
  · -- With 254 signs, the literal takes the last level.
    refine (compile_accepts (signed 254)).1.2 ⟨_, _, tree, scansOf_signed 254,
      .term (.factor spelled), fun other otherSpelled => otherSpelled.unique spelled, ?_, ?_⟩
    · omega
    · omega
  · -- With 255 signs, there is no level left for the literal.
    refine (compile_accepts (signed 255)).2 _ _ deeper (scansOf_signed 255)
      (.term (.factor deepSpelled)) ?_ ?_
    · omega
    · omega

end Signs

end ByteCalc
