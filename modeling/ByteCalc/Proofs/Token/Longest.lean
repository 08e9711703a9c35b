import ByteCalc.Proofs.Token.Munch
import ByteCalc.Proofs.Token.Spans

/-! The forms of tokens: whatever the scanner takes is the longest text in front of it that has one. -/

namespace ByteCalc

/-- The symbols, each with its kind. -/
def symbols : List (List Char × TokenKind) :=
  [(['('], .leftParen), ([')'], .rightParen), (['{'], .leftBrace), (['}'], .rightBrace),
    ([','], .comma), (['.'], .dot), (['-'], .minus), (['+'], .plus), ([';'], .semicolon),
    (['/'], .slash), (['*'], .star), (['!'], .bang), (['!', '='], .bangEqual), (['='], .equal),
    (['=', '='], .equalEqual), (['>'], .greater), (['>', '='], .greaterEqual), (['<'], .less),
    (['<', '='], .lessEqual)]

/-- The texts that are tokens of a kind, wherever they stand. -/
inductive Form : TokenKind → List Char → Prop where
  /-- A symbol has one character or two. -/
  | symbol {kind : TokenKind} {text : List Char} (listed : (text, kind) ∈ symbols) : Form kind text
  /-- A number has digits. -/
  | whole {digits : List Char} (nonempty : digits ≠ [])
      (all : ∀ char ∈ digits, char.isDigit = true) : Form .number digits
  /-- It may have a point with digits on both sides. -/
  | fraction {digits places : List Char} (nonempty : digits ≠ [])
      (all : ∀ char ∈ digits, char.isDigit = true) (some : places ≠ [])
      (behind : ∀ char ∈ places, char.isDigit = true) : Form .number (digits ++ '.' :: places)
  /-- A reserved word is a keyword. -/
  | keyword (word : Keyword) : Form (.keyword word) word.spelling.toList
  /-- Every other word is an identifier. -/
  | identifier {letter : Char} {body : List Char} (begins : beginsWord letter = true)
      (all : ∀ char ∈ body, continuesWord char = true)
      (free : ∀ word : Keyword, word.spelling.toList ≠ letter :: body) :
      Form .identifier (letter :: body)
  /-- A string goes from a quote to the next one. -/
  | string {body : List Char} (inside : '"' ∉ body) : Form .string ('"' :: (body ++ ['"']))

/-- A text is the longest one that some text begins with and that has the form of a token. -/
structure Longest (whole : List Char) (kind : TokenKind) (text : List Char) : Prop where
  /-- It has the form of this kind. -/
  form : Form kind text
  /-- It is what the whole begins with. -/
  begins : text <+: whole
  /-- No other text of any form that the whole begins with is longer. -/
  longest : ∀ other longer, Form other longer → longer <+: whole → longer.length ≤ text.length

/-- A symbol is one character, or one character with an equals sign that it joins. -/
theorem mem_symbols_iff {text : List Char} {kind : TokenKind} :
    (text, kind) ∈ symbols ↔
      ∃ char, text = [char] ∧ TokenKind.ofSymbol? char = some kind ∨
        text = [char, '='] ∧ (TokenKind.ofSymbol? char).bind TokenKind.joinEqual? = some kind := by
  constructor
  · intro listed
    -- Each row of the table begins with the character it is known by.
    have rows : symbols.all fun row => row.1.any fun char =>
        row.1 = [char] ∧ TokenKind.ofSymbol? char = some row.2 ∨
          row.1 = [char, '='] ∧
            (TokenKind.ofSymbol? char).bind TokenKind.joinEqual? = some row.2 := by decide
    obtain ⟨char, _, found⟩ := List.any_eq_true.1 (List.all_eq_true.1 rows _ listed)
    exact ⟨char, of_decide_eq_true found⟩
  · rintro ⟨char, ⟨rfl, named⟩ | ⟨rfl, joined⟩⟩
    · -- The symbols are those of the table, one character each.
      unfold TokenKind.ofSymbol? at named
      split at named <;> cases named <;> decide
    · -- Only four of the characters join an equals sign.
      unfold TokenKind.ofSymbol? at joined
      split at joined <;> cases joined <;> decide

/-- A reserved word that is found for a text is spelled like the text. -/
theorem spelling_of_ofSpelling? {text : List Char} {word : Keyword}
    (found : Keyword.ofSpelling? (String.ofList text) = some word) :
    word.spelling.toList = text := by
  -- The search compares spellings.
  have same : word.spelling = String.ofList text := by simpa using List.find?_some found
  rw [same, String.toList_ofList]

/-- A reserved word is found for its own spelling. -/
theorem wordKind_spelling (word : Keyword) : wordKind word.spelling.toList = .keyword word := by
  -- The spelling is a list of characters, from which the word is made again.
  rw [wordKind, String.ofList_toList, Keyword.ofSpelling?_spelling]

/-- A text that is no reserved word is an identifier. -/
theorem wordKind_of_free {text : List Char}
    (free : ∀ word : Keyword, word.spelling.toList ≠ text) : wordKind text = .identifier := by
  -- A word that is found would be spelled like the text.
  rw [wordKind]
  split
  next word found => exact absurd (spelling_of_ofSpelling? found) (free word)
  -- Nothing was found, and that is what an identifier is.
  next => rfl

namespace Form

variable {kind other : TokenKind} {text rest : List Char}

/-- No token is without characters. -/
theorem ne_nil (form : Form kind text) : text ≠ [] := by
  -- Every form has a first character, by its shape or by assumption.
  cases form with
  | symbol listed =>
    obtain ⟨char, ⟨rfl, _⟩ | ⟨rfl, _⟩⟩ := mem_symbols_iff.1 listed
    · exact List.cons_ne_nil _ _
    · exact List.cons_ne_nil _ _
  | whole nonempty => exact nonempty
  | fraction => simp
  | keyword word => cases word <;> decide
  | identifier | string => exact List.cons_ne_nil _ _

/-- Reserved words are made of the characters of words. -/
theorem exists_letter (word : Keyword) :
    ∃ letter body, word.spelling.toList = letter :: body ∧ beginsWord letter = true ∧
      ∀ char ∈ body, continuesWord char = true := by
  -- Each of the spellings begins with a letter, and goes on with letters.
  cases word <;> exact ⟨_, _, rfl, by decide, List.all_eq_true.1 (by decide)⟩

/-- What is written like a token is one if nothing comes behind it. -/
theorem munch (form : Form kind text) : Munch kind text [] := by
  -- At the end of a text, all runs have come to their ends.
  have ends (inRun : Char → Bool) : EndsRun inRun [] := fun char none => nomatch none
  cases form with
  | symbol listed =>
    obtain ⟨char, ⟨rfl, named⟩ | ⟨rfl, joined⟩⟩ := mem_symbols_iff.1 listed
    · -- With nothing behind it, there is no equals sign either.
      exact .symbol named (.inr nofun)
    · -- The equals sign is part of the symbol already.
      obtain ⟨simple, named, joins⟩ := Option.bind_eq_some_iff.1 joined
      exact .joined named joins
  | whole nonempty all =>
    obtain ⟨digit, digits, rfl⟩ := List.exists_cons_of_ne_nil nonempty
    obtain ⟨begins, all⟩ := List.forall_mem_cons.1 all
    exact .whole begins all (ends _) nofun
  | fraction nonempty all some behind =>
    obtain ⟨digit, digits, rfl⟩ := List.exists_cons_of_ne_nil nonempty
    obtain ⟨place, places, rfl⟩ := List.exists_cons_of_ne_nil some
    obtain ⟨begins, all⟩ := List.forall_mem_cons.1 all
    obtain ⟨point, behind⟩ := List.forall_mem_cons.1 behind
    exact .fraction begins all point behind (ends _)
  | keyword word =>
    have named := wordKind_spelling word
    -- The characters of a reserved word are those of any word.
    obtain ⟨letter, body, spelled, begins, all⟩ := exists_letter word
    rw [spelled] at named ⊢
    exact named ▸ .word begins all (ends _)
  | identifier begins all free => exact wordKind_of_free free ▸ .word begins all (ends _)
  | string inside => exact .string inside

/-- Whatever comes behind a form, a token goes at least as far as the form does. -/
theorem exists_munch (form : Form kind text) (rest : List Char) :
    ∃ found more after, rest = more ++ after ∧ Munch found (text ++ more) after := by
  -- A run goes on for as long as there are characters for it.
  have run (inRun : Char → Bool) (first : List Char) (all : ∀ char ∈ first, inRun char = true) :
      ∀ char ∈ first ++ rest.takeWhile inRun, inRun char = true := fun char mem =>
    (List.mem_append.1 mem).elim (all char) List.mem_takeWhile_imp
  have split (inRun : Char → Bool) : rest = rest.takeWhile inRun ++ rest.dropWhile inRun :=
    List.takeWhile_append_dropWhile.symm
  have word {letter : Char} {body : List Char} (begins : beginsWord letter = true)
      (all : ∀ char ∈ body, continuesWord char = true) :
      ∃ found more after, rest = more ++ after ∧ Munch found (letter :: body ++ more) after :=
    ⟨_, _, _, split continuesWord, .word begins (run _ _ all) (endsRun_dropWhile _ _)⟩
  cases form with
  | symbol listed =>
    obtain ⟨char, ⟨rfl, named⟩ | ⟨rfl, joined⟩⟩ := mem_symbols_iff.1 listed
    · -- An equals sign behind the symbol joins it if it can.
      by_cases alone : kind.joinEqual? = none ∨ rest.head? ≠ some '='
      · exact ⟨kind, [], rest, rfl, .symbol named alone⟩
      · obtain ⟨joins, next⟩ := not_or.1 alone
        obtain ⟨joined, joins⟩ := Option.ne_none_iff_exists'.1 joins
        obtain ⟨after, rfl⟩ := List.head?_eq_some_iff.1 (not_not.1 next)
        exact ⟨joined, ['='], after, rfl, .joined named joins⟩
    · -- The symbol has joined its equals sign, and joins no other.
      obtain ⟨simple, named, joins⟩ := Option.bind_eq_some_iff.1 joined
      exact ⟨kind, [], rest, rfl, .joined named joins⟩
  | whole nonempty all =>
    obtain ⟨digit, digits, rfl⟩ := List.exists_cons_of_ne_nil nonempty
    obtain ⟨begins, all⟩ := List.forall_mem_cons.1 all
    have ends := endsRun_dropWhile Char.isDigit rest
    by_cases point : ∃ place more, rest.dropWhile Char.isDigit = '.' :: place :: more ∧
        place.isDigit = true
    · -- Behind the digits there is a point with at least one digit.
      obtain ⟨place, more, left, digit⟩ := point
      refine ⟨.number, rest.takeWhile Char.isDigit ++ '.' :: place :: more.takeWhile Char.isDigit,
        more.dropWhile Char.isDigit, ?_, ?_⟩
      · conv_lhs => rw [split Char.isDigit, left]
        simp
      · have munch := Munch.fraction begins (run _ _ all) digit
          (fun _ => List.mem_takeWhile_imp (l := more)) (endsRun_dropWhile Char.isDigit more)
        simpa using munch
    · refine ⟨_, _, _, split Char.isDigit, .whole begins (run _ _ all) ends ?_⟩
      intro place more left
      exact Bool.eq_false_iff.2 fun digit => point ⟨place, more, left, digit⟩
  | fraction nonempty all some behind =>
    -- The point is in the form, so that only the digits behind it can go on.
    obtain ⟨digit, digits, rfl⟩ := List.exists_cons_of_ne_nil nonempty
    obtain ⟨place, places, rfl⟩ := List.exists_cons_of_ne_nil some
    obtain ⟨begins, all⟩ := List.forall_mem_cons.1 all
    obtain ⟨point, behind⟩ := List.forall_mem_cons.1 behind
    have munch := Munch.fraction begins all point (run _ _ behind)
      (endsRun_dropWhile Char.isDigit rest)
    exact ⟨_, _, _, split Char.isDigit, by simpa using munch⟩
  | keyword reserved =>
    -- A reserved word may be the beginning of a longer word.
    obtain ⟨letter, body, spelled, begins, all⟩ := exists_letter reserved
    exact spelled ▸ word begins all
  | identifier begins all free => exact word begins all
  -- A string is closed, and nothing can continue it.
  | string inside => exact ⟨_, [], rest, rfl, by simpa using Munch.string inside⟩

end Form

/-- A token has the form of its kind. -/
theorem Munch.form {kind : TokenKind} {text rest : List Char} (munch : Munch kind text rest) :
    Form kind text := by
  cases munch with
  | symbol named alone => exact .symbol (mem_symbols_iff.2 ⟨_, .inl ⟨rfl, named⟩⟩)
  | joined named joins =>
    -- A joined symbol is found in the table with its equals sign.
    exact .symbol (mem_symbols_iff.2 ⟨_, .inr ⟨rfl, Option.bind_eq_some_iff.2 ⟨_, named, joins⟩⟩⟩)
  | whole begins all =>
    exact .whole (List.cons_ne_nil _ _) (List.forall_mem_cons.2 ⟨begins, all⟩)
  | fraction begins all point behind =>
    exact .fraction (List.cons_ne_nil _ _) (List.forall_mem_cons.2 ⟨begins, all⟩)
      (List.cons_ne_nil _ _) (List.forall_mem_cons.2 ⟨point, behind⟩)
  | @word letter body _ begins all =>
    -- A word is reserved, or it is not.
    by_cases reserved : ∃ word : Keyword, word.spelling.toList = letter :: body
    · obtain ⟨word, spelled⟩ := reserved
      rw [← spelled, wordKind_spelling]
      exact .keyword word
    · have free := not_exists.1 reserved
      rw [wordKind_of_free free]
      exact .identifier begins all free
  | string inside => exact .string inside

/-- From one text there is only one token to be taken. -/
theorem Munch.unique {kind other : TokenKind} {text also rest after : List Char}
    (munch : Munch kind text rest) (another : Munch other also after)
    (same : text ++ rest = also ++ after) : kind = other ∧ text = also := by
  obtain ⟨char, tail, rfl⟩ := List.exists_cons_of_ne_nil munch.form.ne_nil
  obtain ⟨first, others, rfl⟩ := List.exists_cons_of_ne_nil another.form.ne_nil
  obtain ⟨rfl, _⟩ := List.cons.inj same
  have tails : tail ++ rest = others ++ after := (List.cons.inj same).2
  -- Both of them are what the scanner reads there.
  have read := Lexeme.read_of_munch munch
  have again := Lexeme.read_of_munch another
  rw [tails, again] at read
  obtain ⟨kinds, texts, _⟩ := Lexeme.mk.inj read
  exact ⟨(Except.ok.inj kinds).symm, texts.symm⟩

namespace Form

variable {kind other : TokenKind} {text : List Char}

/-- No text has the forms of two kinds. -/
theorem unique (form : Form kind text) (also : Form other text) : kind = other :=
  (form.munch.unique also.munch rfl).1

/-- The keywords are the reserved words. -/
theorem keyword_iff (form : Form kind text) (word : Keyword) :
    kind = .keyword word ↔ text = word.spelling.toList := by
  -- The other direction holds because no text has two kinds.
  refine ⟨fun named => ?_, fun spelled => form.unique (spelled ▸ .keyword word)⟩
  cases form with
  | symbol listed =>
    -- No row of the table is that of a word.
    subst named
    simp [symbols] at listed
  | keyword => cases named; rfl
  -- The kind would be that of a number, of an identifier or of a string.
  | whole | fraction | identifier | string => cases named

end Form

section Longest

variable {whole text rest : List Char} {kind : TokenKind}

/-- The token that is taken from a text is the longest form that the text begins with. -/
theorem Munch.longest (munch : Munch kind text rest) : Longest (text ++ rest) kind text := by
  refine ⟨munch.form, List.prefix_append _ _, fun other longer form begins => ?_⟩
  -- Another form goes no further than some token, and that is the same one.
  obtain ⟨behind, split⟩ := begins
  obtain ⟨found, more, after, rfl, further⟩ := form.exists_munch behind
  obtain ⟨_, rfl⟩ := munch.unique further (by rw [← split, List.append_assoc])
  rw [List.length_append]
  exact Nat.le_add_right _ _

/-- Where a text begins with a form, a token is read. -/
theorem Form.read_eq_ok {char : Char} {behind : List Char} (form : Form kind text)
    (begins : text <+: char :: behind) :
    ∃ found taken after, Lexeme.read char behind = ⟨.ok found, taken, after⟩ := by
  -- Whatever comes behind the form, a token goes as far as the form.
  obtain ⟨more, split⟩ := begins
  obtain ⟨found, further, after, rfl, munch⟩ := form.exists_munch more
  obtain ⟨first, tail, spelled⟩ := List.exists_cons_of_ne_nil munch.form.ne_nil
  rw [← List.append_assoc, spelled] at split
  rw [spelled] at munch
  -- The token begins with the first character, and so the rest of it comes next.
  obtain ⟨rfl, _⟩ := List.cons.inj split
  have tails : tail ++ after = behind := (List.cons.inj split).2
  exact ⟨found, _, after, tails ▸ Lexeme.read_of_munch munch⟩

/-- No form begins with a quote unless another quote follows. -/
theorem Form.closed {body : List Char} (form : Form kind text) (begins : text <+: '"' :: body) :
    '"' ∈ body := by
  -- What is read at the quote is a string, up to the first quote behind it.
  obtain ⟨found, taken, after, read⟩ := form.read_eq_ok begins
  have string : Lexeme.string '"' body = ⟨.ok found, taken, after⟩ := read
  unfold Lexeme.string at string
  split at string
  next closing _ left =>
    have stopped := endsRun_dropWhile (fun char => decide (char ≠ '"')) body
    rw [left] at stopped
    have quote : closing = '"' := by simpa using stopped closing rfl
    have kept : closing ∈ body.dropWhile (fun char => decide (char ≠ '"')) :=
      left ▸ List.mem_cons_self
    exact quote ▸ (List.dropWhile_suffix _).subset kept
  · -- Without another quote, the string would have been at fault.
    cases string

/-- There is one longest form at most. -/
theorem Longest.unique {other : TokenKind} {also : List Char} (longest : Longest whole kind text)
    (another : Longest whole other also) : kind = other ∧ text = also := by
  -- Two beginnings of one text that are equally long are the same.
  have size := Nat.le_antisymm (another.longest _ _ longest.form longest.begins)
    (longest.longest _ _ another.form another.begins)
  obtain ⟨rest, rfl⟩ := longest.begins
  obtain ⟨behind, split⟩ := another.begins
  obtain ⟨rfl, _⟩ := List.append_inj split size.symm
  exact ⟨longest.form.unique another.form, rfl⟩

end Longest

/-- What a scan finds at the front of a text, behind all filler. -/
inductive Scan.Finds (whole : List Char) : Scan → Prop where
  /-- A token is the longest form. -/
  | token {kind : TokenKind} {lexeme : String} (line : UInt32)
      (longest : Longest whole kind lexeme.toList) : Finds whole (.token ⟨kind, lexeme, line⟩)
  /-- The end comes where nothing is left. -/
  | finish (line : UInt32) (ended : whole = []) : Finds whole (.finish line)
  /-- A quote opens no string if no other quote follows. -/
  | unterminatedString {body : List Char} (line : UInt32) (opened : whole = '"' :: body)
      (unclosed : '"' ∉ body) : Finds whole (.fault ⟨.unterminatedString, line⟩)
  /-- Any other character is unexpected where the text begins with no form. -/
  | unexpectedChar {char : Char} (line : UInt32) (first : whole.head? = some char)
      (noQuote : char ≠ '"') (formless : ∀ kind text, Form kind text → ¬ text <+: whole) :
      Finds whole (.fault ⟨.unexpectedChar char, line⟩)

/-- Whatever the scanner takes is found at the front of what is left behind the gap. -/
theorem Takes.finds {line : UInt32} {gap text rest : List Char} {scan : Scan}
    (takes : Takes line gap text rest scan) : scan.Finds (text ++ rest) := by
  cases takes with
  | token closed stands found =>
    -- What the token is written with is the longest form.
    have longest := (Lexeme.munch_of_read found).longest
    exact .token _ (by simpa using longest)
  | finish filled => exact .finish _ rfl
  | @fault tail rest char fault closed stands found =>
    -- If there were a form, a token would have been read.
    have formless (kind : TokenKind) (form : List Char) (has : Form kind form) :
        ¬ form <+: char :: tail ++ rest := fun begins => by
      obtain ⟨_, _, _, read⟩ := has.read_eq_ok begins
      cases found.symm.trans read
    rcases Lexeme.read_eq_error found with ⟨rfl, _⟩ | ⟨rfl, rfl, _, _, unclosed⟩
    · refine .unexpectedChar _ rfl (fun quote => ?_) formless
      -- A quote is the beginning of a string, closed or not.
      subst quote
      have string : Lexeme.string '"' (tail ++ rest) = _ := found
      unfold Lexeme.string at string
      split at string <;> cases string
    · exact .unterminatedString _ rfl unclosed

namespace Scan.Finds

variable {whole : List Char} {scan : Scan}

/-- A token is found exactly where there is a longest form, which is its lexeme. -/
theorem token_iff (finds : scan.Finds whole) {kind : TokenKind} {lexeme : String} :
    (∃ line, scan = .token ⟨kind, lexeme, line⟩) ↔ Longest whole kind lexeme.toList := by
  constructor
  · rintro ⟨line, rfl⟩
    cases finds with
    | token _ longest => exact longest
  · intro longest
    -- Where there is a longest form, none of the other scans is possible.
    cases finds with
    | token line also =>
      obtain ⟨rfl, same⟩ := longest.unique also
      exact ⟨line, by rw [String.toList_inj.1 same]⟩
    | finish line ended =>
      -- Only the empty text is at the front of nothing.
      have none := longest.begins
      rw [ended, List.prefix_nil] at none
      exact absurd none longest.form.ne_nil
    | unterminatedString line opened unclosed =>
      exact absurd (longest.form.closed (opened ▸ longest.begins)) unclosed
    | unexpectedChar line first noQuote formless =>
      exact absurd longest.begins (formless _ _ longest.form)

/-- The end is found exactly where nothing is left. -/
theorem finish_iff (finds : scan.Finds whole) : (∃ line, scan = .finish line) ↔ whole = [] := by
  -- All other scans need a character.
  constructor
  · rintro ⟨line, rfl⟩
    cases finds with
    | finish _ ended => exact ended
  · rintro rfl
    cases finds with
    | token line longest =>
      exact absurd (List.prefix_nil.1 longest.begins) longest.form.ne_nil
    | finish line => exact ⟨line, rfl⟩
    | unterminatedString line opened => cases opened
    | unexpectedChar line first => cases first

/-- An unclosed string is found exactly where a quote opens a string and no other quote follows. -/
theorem unterminatedString_iff (finds : scan.Finds whole) :
    (∃ line, scan = .fault ⟨.unterminatedString, line⟩) ↔
      ∃ body, whole = '"' :: body ∧ '"' ∉ body := by
  -- Without another quote there is no form, and a quote is never unexpected.
  constructor
  · rintro ⟨line, rfl⟩
    cases finds with
    | unterminatedString _ opened unclosed => exact ⟨_, opened, unclosed⟩
  · rintro ⟨body, rfl, unclosed⟩
    cases finds with
    | token line longest => exact absurd (longest.form.closed longest.begins) unclosed
    | finish line ended => cases ended
    | unterminatedString line => exact ⟨line, rfl⟩
    | unexpectedChar line first noQuote =>
      cases first
      exact absurd rfl noQuote

/-- A character is unexpected exactly where the text begins with it and with no form. -/
theorem unexpectedChar_iff (finds : scan.Finds whole) {char : Char} :
    (∃ line, scan = .fault ⟨.unexpectedChar char, line⟩) ↔
      whole.head? = some char ∧ char ≠ '"' ∧ ∀ kind text, Form kind text → ¬ text <+: whole := by
  -- Where no form begins, a fault is found, and the first character tells which.
  constructor
  · rintro ⟨line, rfl⟩
    cases finds with
    | unexpectedChar _ first noQuote formless => exact ⟨first, noQuote, formless⟩
  · rintro ⟨first, noQuote, formless⟩
    cases finds with
    | token line longest => exact absurd longest.begins (formless _ _ longest.form)
    | finish line ended =>
      subst ended
      cases first
    | unterminatedString line opened =>
      subst opened
      cases first
      exact absurd rfl noQuote
    | unexpectedChar line also =>
      obtain rfl := Option.some.inj (also.symm.trans first)
      exact ⟨line, rfl⟩

end Scan.Finds

section Rescan

variable {line : UInt32} {gap text rest : List Char} {scan : Scan}

/-- The gap in front of what is taken is filler, and open at its end only at the end of all. -/
theorem Takes.filler (takes : Takes line gap text rest scan) :
    Filler (text ++ rest = []) gap := by
  -- Only in front of the end may the last comment be left open.
  cases takes with
  | token closed | fault closed => exact closed.mono False.elim
  | finish filled => exact filled.mono fun _ => rfl

/-- No more filler comes behind the gap. -/
theorem Takes.stands (takes : Takes line gap text rest scan) : Stands (text ++ rest) := by
  cases takes with
  | token _ stands | fault _ stands => exact stands
  | finish => exact fun char none => nomatch none

/-- Where a text can be a lexeme, so can its beginning. -/
theorem Stands.beginning (stands : Stands (text ++ rest)) : Stands text := by
  -- What begins a comment in a part begins one in the whole.
  intro char first
  obtain ⟨tail, rfl⟩ := List.head?_eq_some_iff.1 first
  obtain ⟨visible, noComment⟩ := stands char rfl
  refine ⟨visible, fun ⟨slash, second⟩ => noComment ⟨slash, ?_⟩⟩
  obtain ⟨more, rfl⟩ := List.head?_eq_some_iff.1 second
  rfl

/-- A lexeme that stands by itself is scanned as one token of its kind, and then comes the end. -/
theorem Form.tokenize {kind : TokenKind} (form : Form kind text) (stands : Stands text) :
    tokenize (String.ofList text) =
      .ok ([⟨kind, String.ofList text, 1 + lineFeeds text⟩], 1 + lineFeeds text) := by
  -- A form has a first character, at which it is read.
  obtain ⟨char, tail, rfl⟩ := List.exists_cons_of_ne_nil form.ne_nil
  -- Nothing is skipped in front of the token, and nothing is left behind it.
  have alone : Takes 1 [] (char :: tail) [] _ :=
    .token .nil (by rwa [List.append_nil]) (Lexeme.read_of_munch form.munch)
  have first : Scanner.next ⟨char :: tail, 1⟩ =
      (.token ⟨kind, String.ofList (char :: tail), 1 + lineFeeds (char :: tail)⟩,
        ⟨[], 1 + lineFeeds (char :: tail)⟩) := by
    simpa using alone.next
  refine tokenize_eq_ok_iff.2 (scansOf_eq_tokens_iff.1 ?_)
  rw [scansOf, Scanner.scans, Scanner.start, String.toList_ofList,
    Scanner.scansFrom_step _ first rfl, Scanner.scansFrom_finish _ rfl]
  rfl

end Rescan

/--
The scanner takes the longest form that comes behind white space and comments.

The end is found only where nothing is left, an unclosed string only at a quote without another one,
and an unexpected character only where no form begins.
A lexeme is the same token by itself, so that nothing around it matters to what it is.
-/
theorem next_longest (scanner : Scanner) :
    ∃ gap whole, scanner.rest = gap ++ whole ∧ Filler (whole = []) gap ∧ Stands whole ∧
      (∀ kind lexeme, (∃ line, scanner.next.1 = .token ⟨kind, lexeme, line⟩) ↔
        Longest whole kind lexeme.toList) ∧
      ((∃ line, scanner.next.1 = .finish line) ↔ whole = []) ∧
      ((∃ line, scanner.next.1 = .fault ⟨.unterminatedString, line⟩) ↔
        ∃ body, whole = '"' :: body ∧ '"' ∉ body) ∧
      (∀ char, (∃ line, scanner.next.1 = .fault ⟨.unexpectedChar char, line⟩) ↔
        whole.head? = some char ∧ char ≠ '"' ∧
          ∀ kind text, Form kind text → ¬ text <+: whole) ∧
      ∀ kind lexeme line, scanner.next.1 = .token ⟨kind, lexeme, line⟩ →
        (∀ word, kind = .keyword word ↔ lexeme = word.spelling) ∧
        ∃ own, tokenize lexeme = .ok ([⟨kind, lexeme, own⟩], own) := by
  obtain ⟨rest, line⟩ := scanner
  obtain ⟨gap, text, rest, scan, rfl, takes⟩ := exists_takes line rest
  have finds := takes.finds
  refine ⟨gap, text ++ rest, rfl, takes.filler, takes.stands, ?_⟩
  rw [takes.next]
  refine ⟨fun kind lexeme => finds.token_iff, finds.finish_iff, finds.unterminatedString_iff,
    fun char => finds.unexpectedChar_iff, fun kind lexeme line scanned => ?_⟩
  -- The lexeme is a form, and stands where the scanner found it.
  have longest := finds.token_iff.1 ⟨line, scanned⟩
  refine ⟨fun word => ?_, 1 + lineFeeds lexeme.toList, ?_⟩
  · -- The spellings are compared as lists of characters.
    rw [longest.form.keyword_iff, String.toList_inj]
  · obtain ⟨behind, split⟩ := longest.begins
    have stands : Stands lexeme.toList := Stands.beginning (split ▸ takes.stands)
    simpa using longest.form.tokenize stands

/-- Three equals signs are two symbols, and a point without digits behind it is one by itself. -/
example : scansOf "===1." = [.token ⟨.equalEqual, "==", 1⟩, .token ⟨.equal, "=", 1⟩,
    .token ⟨.number, "1", 1⟩, .token ⟨.dot, ".", 1⟩, .finish 1] := by decide +kernel

end ByteCalc
