import ByteCalc.Chunk
import ByteCalc.Token.Scanner

/-! Compilation of expressions, in one pass over the tokens that writes code as it goes. -/

namespace ByteCalc

/-- The number of expression levels that may be open at once. -/
def maxNesting : Nat := 255

/-- The operator a token stands for between two operands. -/
def TokenKind.binaryOp? : TokenKind → Option BinaryOp
  | .plus => some .add
  | .minus => some .subtract
  | .star => some .multiply
  | .slash => some .divide
  | _ => none

/-- Whether a token begins an operand of the script language that has no code. -/
def TokenKind.beginsUnsupported : TokenKind → Bool
  | .identifier | .string | .bang => true
  | .keyword .nil | .keyword .true | .keyword .false | .keyword .this | .keyword .super => true
  | _ => false

/-- What a part of some tokens leaves once it is compiled, with fewer tokens than a bound. -/
structure Compiled (bound : Nat) where
  /-- The tokens after the part. -/
  rest : List Token
  /-- The chunk with the code of the part. -/
  chunk : Chunk
  /-- Some token has been compiled. -/
  shorter : rest.length < bound

namespace Compile

/-- The line of the next token, or of the end, unless a fault comes next. -/
def nextLine (ending : Except CompileError UInt32) : List Token → Except CompileError UInt32
  | [] => ending
  | token :: _ => .ok token.line

/-- Compiles the front of some tokens at a level, after the code of a chunk. -/
abbrev Part :=
  Level → (tokens : List Token) → Chunk → Except CompileError (Compiled tokens.length)

/-- The error for a token that an operand cannot begin with. -/
def misplaced (token : Token) : CompileError :=
  if token.kind.beginsUnsupported then ⟨.unsupported token.lexeme, token.line⟩
  else ⟨.expectedExpression token.lexeme, token.line⟩

/-- Fails because the next token, or the end, is not the one that is wanted. -/
def unexpected {α : Type} (ending : Except CompileError UInt32) (wanted : String) :
    List Token → Except CompileError α
  | [] => do
    let line ← ending
    throw ⟨.expectedToken wanted "end", line⟩
  | token :: _ => throw ⟨.expectedToken wanted token.lexeme, token.line⟩

/-- Compiles the closing parenthesis of a grouping, which has no code. -/
def closing (ending : Except CompileError UInt32) {bound : Nat} (tokens : List Token)
    (chunk : Chunk) (short : tokens.length < bound) : Except CompileError (Compiled bound) :=
  -- The token after the parenthesis is scanned with it, so its fault comes first.
  let failure := unexpected ending "Expect ')' after expression." tokens
  match tokens with
  | [] => failure
  | token :: rest =>
    if token.kind = .rightParen then do
      let _ ← nextLine ending rest
      return ⟨rest, chunk, Nat.lt_of_succ_lt short⟩
    else failure

/-- Compiles an operand: a literal, a grouping or a negation. -/
def operand (ending : Except CompileError UInt32) (part : Part) (tokens : List Token)
    (chunk : Chunk) : Except CompileError (Compiled tokens.length) :=
  match tokens with
  | [] => do
    let line ← ending
    throw ⟨.expectedExpression "end", line⟩
  | token :: rest => do
    -- One more token is scanned before this one is looked at, so its fault comes first.
    let _ ← nextLine ending rest
    match token.kind with
    | .number =>
      match chunk.writeConstant (.ofLiteral token.lexeme) token.line with
      | .ok written => return ⟨rest, written, Nat.lt_succ_self _⟩
      | .error error => throw ⟨.chunk error, token.line⟩
    | .leftParen =>
      let inside ← part .sum rest chunk
      closing ending inside.rest inside.chunk (Nat.lt_succ_of_lt inside.shorter)
    | .minus =>
      let negated ← part .unary rest chunk
      return ⟨negated.rest, negated.chunk.writeOpcode .negate token.line,
        Nat.lt_succ_of_lt negated.shorter⟩
    | _ => throw (misplaced token)

/-- Compiles the operators that continue a chain of a level, each with its right operand. -/
def chain (ending : Except CompileError UInt32) (part : Part) (level : Level) {bound : Nat}
    (tokens : List Token) (chunk : Chunk) (short : tokens.length < bound) :
    Except CompileError (Compiled bound) :=
  -- An operator of a looser level is left for the chain that it belongs to.
  match tokens with
  | [] => .ok ⟨[], chunk, short⟩
  | token :: rest =>
    match token.kind.binaryOp? with
    | none => .ok ⟨token :: rest, chunk, short⟩
    | some op =>
      if level ≤ op.level then do
        let _ ← nextLine ending rest
        let right ← part op.rightLevel rest chunk
        have : right.rest.length < rest.length + 1 := Nat.lt_succ_of_lt right.shorter
        chain ending part level right.rest (right.chunk.writeOpcode (.binary op) token.line)
          (Nat.lt_trans this short)
      else .ok ⟨token :: rest, chunk, short⟩
termination_by tokens.length
decreasing_by exact this

/-- Compiles the front of some tokens at a level, with room for so many open levels. -/
def partWithin (ending : Except CompileError UInt32) : Nat → Part
  | 0, _, tokens, _ => do
    let line ← nextLine ending tokens
    throw ⟨.tooDeep, line⟩
  | room + 1, level, tokens, chunk => do
    let left ← operand ending (partWithin ending room) tokens chunk
    chain ending (partWithin ending room) level left.rest left.chunk left.shorter

end Compile

/-- The chunk that computes the expression in a source text and returns its value. -/
def compile (source : String) : Except CompileError Chunk := do
  -- The first token is scanned before anything is compiled.
  let lexed := lex source
  let _ ← Compile.nextLine lexed.ending lexed.tokens
  let whole ← Compile.partWithin lexed.ending maxNesting .sum lexed.tokens .empty
  match whole.rest with
  | [] =>
    let line ← lexed.ending
    return whole.chunk.writeOpcode .ret line
  | extra => Compile.unexpected lexed.ending "Expect end of expression." extra

end ByteCalc
