import ByteCalc.Error
import ByteCalc.Token

/-! Lexemes: the piece that one reading takes off the front of a text. -/

namespace ByteCalc

/-- The kind of a symbol of one character. -/
def TokenKind.ofSymbol? : Char → Option TokenKind
  | '(' => some .leftParen
  | ')' => some .rightParen
  | '{' => some .leftBrace
  | '}' => some .rightBrace
  | ';' => some .semicolon
  | ',' => some .comma
  | '.' => some .dot
  | '-' => some .minus
  | '+' => some .plus
  | '/' => some .slash
  | '*' => some .star
  | '!' => some .bang
  | '=' => some .equal
  | '<' => some .less
  | '>' => some .greater
  | _ => none

/-- The kind of a symbol once an equals sign is joined to it. -/
def TokenKind.joinEqual? : TokenKind → Option TokenKind
  | .bang => some .bangEqual
  | .equal => some .equalEqual
  | .less => some .lessEqual
  | .greater => some .greaterEqual
  | _ => none

/-- Whether a character can begin a word: an ASCII letter or an underscore. -/
def beginsWord (char : Char) : Bool :=
  char.isAlpha || char = '_'

/-- Whether a character can continue a word. -/
def continuesWord (char : Char) : Bool :=
  beginsWord char || char.isDigit

/-- A piece taken off the front of a text, and the text after it. -/
structure Lexeme where
  /-- The kind of token the piece is, or what is wrong with it. -/
  found : Except CompileFault TokenKind
  /-- The characters of the piece. -/
  text : List Char
  /-- The characters after the piece. -/
  rest : List Char

namespace Lexeme

/-- A symbol, together with an equals sign that it joins. -/
def symbol (kind : TokenKind) (char : Char) (rest : List Char) : Lexeme :=
  -- The longer of two possible symbols is taken.
  match kind.joinEqual?, rest with
  | some joined, '=' :: after => ⟨.ok joined, [char, '='], after⟩
  | _, _ => ⟨.ok kind, [char], rest⟩

/-- A string up to its closing quote, given the text from its opening quote on. -/
def string (quote : Char) (rest : List Char) : Lexeme :=
  -- Without a closing quote, the fault covers all of the text.
  match rest.dropWhile (· ≠ '"') with
  | closing :: after => ⟨.ok .string, quote :: rest.takeWhile (· ≠ '"') ++ [closing], after⟩
  | [] => ⟨.error .unterminatedString, quote :: rest, []⟩

/-- Digits, and a point with more digits if a digit follows the point. -/
def number (digit : Char) (rest : List Char) : Lexeme :=
  -- A point that no digit follows is left for the next lexeme.
  let whole := digit :: rest.takeWhile Char.isDigit
  match rest.dropWhile Char.isDigit with
  | '.' :: first :: more =>
    if first.isDigit then
      ⟨.ok .number, whole ++ '.' :: first :: more.takeWhile Char.isDigit,
        more.dropWhile Char.isDigit⟩
    else ⟨.ok .number, whole, '.' :: first :: more⟩
  | after => ⟨.ok .number, whole, after⟩

/-- A reserved word or an identifier. -/
def word (letter : Char) (rest : List Char) : Lexeme :=
  -- The whole word decides, so a reserved word can begin an identifier.
  let text := letter :: rest.takeWhile continuesWord
  let kind := match Keyword.ofSpelling? (String.ofList text) with
    | some reserved => .keyword reserved
    | none => .identifier
  ⟨.ok kind, text, rest.dropWhile continuesWord⟩

/-- The lexeme at the front of a text, given its first character and the others. -/
def read (char : Char) (rest : List Char) : Lexeme :=
  match TokenKind.ofSymbol? char with
  | some kind => symbol kind char rest
  | none =>
    if char = '"' then string char rest
    else if char.isDigit then number char rest
    else if beginsWord char then word char rest
    else ⟨.error (.unexpectedChar char), [char], rest⟩

/-- A symbol and the text after it make up the text that was read. -/
theorem symbol_text_append_rest (kind : TokenKind) (char : Char) (rest : List Char) :
    (symbol kind char rest).text ++ (symbol kind char rest).rest = char :: rest := by
  -- The joined equals sign moves from the rest to the text.
  unfold symbol
  split <;> rfl

/-- A string and the text after it make up the text that was read. -/
theorem string_text_append_rest (quote : Char) (rest : List Char) :
    (string quote rest).text ++ (string quote rest).rest = quote :: rest := by
  -- The closing quote is the first character that the skipped part leaves over.
  unfold string
  split
  next closing after left =>
    rw [List.append_assoc, List.cons_append, List.singleton_append, ← left,
      List.takeWhile_append_dropWhile]
  next => simp

/-- A number and the text after it make up the text that was read. -/
theorem number_text_append_rest (digit : Char) (rest : List Char) :
    (number digit rest).text ++ (number digit rest).rest = digit :: rest := by
  -- The digits before the point and the text from the point on are the two halves of the rest.
  have whole := List.takeWhile_append_dropWhile (p := Char.isDigit) (l := rest)
  simp only [number]
  split
  next first more left =>
    rw [left] at whole
    split
    · simpa [List.takeWhile_append_dropWhile] using whole
    · simpa using whole
  next => simp

/-- A word and the text after it make up the text that was read. -/
theorem word_text_append_rest (letter : Char) (rest : List Char) :
    (word letter rest).text ++ (word letter rest).rest = letter :: rest := by
  -- The text is cut where the word ends.
  simp [word, List.takeWhile_append_dropWhile]

/-- A lexeme and the text after it make up the text that was read. -/
theorem read_text_append_rest (char : Char) (rest : List Char) :
    (read char rest).text ++ (read char rest).rest = char :: rest := by
  -- Each kind of lexeme keeps all the characters it was given.
  unfold read
  split
  · exact symbol_text_append_rest ..
  · split
    · exact string_text_append_rest ..
    · split
      · exact number_text_append_rest ..
      · split
        · exact word_text_append_rest ..
        · rfl

/-- No lexeme is empty. -/
theorem read_text_ne_nil (char : Char) (rest : List Char) : (read char rest).text ≠ [] := by
  -- Every kind keeps the first character.
  unfold read symbol string number word
  repeat' split
  all_goals simp

/-- Reading a lexeme leaves a shorter text. -/
theorem read_rest_length (char : Char) (rest : List Char) :
    (read char rest).rest.length ≤ rest.length := by
  -- What the lexeme takes, which is one character or more, is missing from the rest.
  have whole := congrArg List.length (read_text_append_rest char rest)
  have nonempty := List.length_pos_iff.2 (read_text_ne_nil char rest)
  simp only [List.length_append, List.length_cons] at whole
  omega

end Lexeme

end ByteCalc
