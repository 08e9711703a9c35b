/-! Tokens of the script language: their kinds, their spelling and their lines. -/

namespace ByteCalc

/-- A reserved word. -/
inductive Keyword where
  | «and»
  | «class»
  | «else»
  | «false»
  | «for»
  | «fun»
  | «if»
  | «nil»
  | «or»
  | «print»
  | «return»
  | «super»
  | «this»
  | «true»
  | «var»
  | «while»
deriving DecidableEq, Repr

namespace Keyword

/-- Every reserved word. -/
def all : List Keyword :=
  [.and, .class, .else, .false, .for, .fun, .if, .nil, .or, .print, .return, .super, .this,
    .true, .var, .while]

/-- How a reserved word is written. -/
def spelling : Keyword → String
  | .and => "and"
  | .class => "class"
  | .else => "else"
  | .false => "false"
  | .for => "for"
  | .fun => "fun"
  | .if => "if"
  | .nil => "nil"
  | .or => "or"
  | .print => "print"
  | .return => "return"
  | .super => "super"
  | .this => "this"
  | .true => "true"
  | .var => "var"
  | .while => "while"

/-- The reserved word written as a text, if it is one. -/
def ofSpelling? (text : String) : Option Keyword :=
  -- No two words are spelled alike, so the first one found is the only one.
  all.find? fun word => word.spelling = text

/-- A reserved word is read back from its spelling. -/
theorem ofSpelling?_spelling (word : Keyword) : ofSpelling? word.spelling = some word := by
  -- The words before it in the table are spelled differently.
  cases word <;> rfl

end Keyword

/-- What a token is. -/
inductive TokenKind where
  | leftParen
  | rightParen
  | leftBrace
  | rightBrace
  | comma
  | dot
  | minus
  | plus
  | semicolon
  | slash
  | star
  | bang
  | bangEqual
  | equal
  | equalEqual
  | greater
  | greaterEqual
  | less
  | lessEqual
  | identifier
  | string
  | number
  | keyword (word : Keyword)
deriving DecidableEq, Repr

/-- A token of a source text. -/
structure Token where
  /-- What the token is. -/
  kind : TokenKind
  /-- The text of the token, with the quotes of a string. -/
  lexeme : String
  /-- The line on which the token ends. -/
  line : UInt32
deriving DecidableEq, Repr

end ByteCalc
