import Mathlib.Data.List.TakeWhile
import ByteCalc.Proofs.Token.Filler

/-! Longest lexemes: what a token is written with, and what must not come behind it. -/

namespace ByteCalc

/-- What comes next does not continue a run of some characters. -/
def EndsRun (inRun : Char → Bool) (rest : List Char) : Prop :=
  ∀ char ∈ rest.head?, inRun char = false

section Runs

variable {inRun : Char → Bool} {run rest : List Char}

/-- What is taken of a run that ends is all of it. -/
theorem takeWhile_run (all : ∀ char ∈ run, inRun char = true) (ends : EndsRun inRun rest) :
    (run ++ rest).takeWhile inRun = run := by
  -- Behind the run, the first character stops it.
  rw [List.takeWhile_append_of_pos all]
  cases rest with
  | nil => exact List.append_nil run
  | cons char rest => rw [List.takeWhile_cons_of_neg (by simp [ends char rfl]), List.append_nil]

/-- What is left of a run that ends is the text behind it. -/
theorem dropWhile_run (all : ∀ char ∈ run, inRun char = true) (ends : EndsRun inRun rest) :
    (run ++ rest).dropWhile inRun = rest := by
  -- The same character is the first one to be left.
  rw [List.dropWhile_append_of_pos all]
  cases rest with
  | nil => rfl
  | cons char rest => rw [List.dropWhile_cons_of_neg (by simp [ends char rfl])]

/-- A run is taken up to where it ends. -/
theorem endsRun_dropWhile (inRun : Char → Bool) (text : List Char) :
    EndsRun inRun (text.dropWhile inRun) := by
  -- What is not dropped starts with a character that is not in the run.
  intro char first
  have stopped := List.head?_dropWhile_not inRun text
  rw [first] at stopped
  exact stopped

end Runs

/-- The kind of a word: a reserved word is a keyword, and any other word is an identifier. -/
def wordKind (text : List Char) : TokenKind :=
  match Keyword.ofSpelling? (String.ofList text) with
  | some reserved => .keyword reserved
  | none => .identifier

/-- A token in front of a text: what it is written with, and that the text does not continue it. -/
inductive Munch : TokenKind → (text rest : List Char) → Prop where
  /-- A symbol that joins no equals sign. -/
  | symbol {char : Char} {kind : TokenKind} {rest : List Char}
      (named : TokenKind.ofSymbol? char = some kind)
      (alone : kind.joinEqual? = none ∨ rest.head? ≠ some '=') : Munch kind [char] rest
  /-- A symbol with the equals sign that it joins. -/
  | joined {char : Char} {kind joined : TokenKind} {rest : List Char}
      (named : TokenKind.ofSymbol? char = some kind) (joins : kind.joinEqual? = some joined) :
      Munch joined [char, '='] rest
  /-- A string, up to the next quote. -/
  | string {body rest : List Char} (inside : '"' ∉ body) :
      Munch .string ('"' :: (body ++ ['"'])) rest
  /-- A number without a point. -/
  | whole {digit : Char} {digits rest : List Char} (begins : digit.isDigit = true)
      (all : ∀ char ∈ digits, char.isDigit = true) (ends : EndsRun Char.isDigit rest)
      (noPoint : ∀ first more, rest = '.' :: first :: more → first.isDigit = false) :
      Munch .number (digit :: digits) rest
  /-- A number with a point and digits on both sides of it. -/
  | fraction {digit place : Char} {digits places rest : List Char} (begins : digit.isDigit = true)
      (all : ∀ char ∈ digits, char.isDigit = true) (point : place.isDigit = true)
      (behind : ∀ char ∈ places, char.isDigit = true) (ends : EndsRun Char.isDigit rest) :
      Munch .number (digit :: (digits ++ '.' :: place :: places)) rest
  /-- A reserved word or an identifier. -/
  | word {letter : Char} {body rest : List Char} (begins : beginsWord letter = true)
      (all : ∀ char ∈ body, continuesWord char = true) (ends : EndsRun continuesWord rest) :
      Munch (wordKind (letter :: body)) (letter :: body) rest

namespace Lexeme

section Beginnings

variable {char : Char}

/-- A digit is no symbol, and it begins neither a string nor a word. -/
theorem read_digit (digit : char.isDigit = true) (rest : List Char) :
    read char rest = number char rest := by
  -- A digit is neither a symbol nor a quote.
  have noSymbol : TokenKind.ofSymbol? char = none := by
    unfold TokenKind.ofSymbol?
    split
    all_goals first | rfl | exact absurd digit (by decide)
  -- No symbol and no quote is a digit, as a look at each tells.
  have noQuote : char ≠ '"' := by
    rintro rfl
    exact absurd digit (by decide)
  simp only [read, noSymbol, if_neg noQuote, if_pos digit]

/-- What begins a word begins nothing else. -/
theorem read_letter (begins : beginsWord char = true) (rest : List Char) :
    read char rest = word char rest := by
  -- No symbol is a letter or an underscore.
  have noSymbol : TokenKind.ofSymbol? char = none := by
    unfold TokenKind.ofSymbol?
    split
    all_goals first | rfl | exact absurd begins (by decide)
  have noQuote : char ≠ '"' := by
    rintro rfl
    exact absurd begins (by decide)
  have noDigit : char.isDigit = false := by
    -- The digits lie below the letters and the underscore.
    refine Bool.eq_false_iff.2 fun digit => ?_
    have high : char.val.toNat ≤ 57 :=
      UInt32.le_iff_toNat_le.1 (of_decide_eq_true (Bool.and_eq_true_iff.1 digit).2)
    rcases Bool.or_eq_true_iff.1 begins with letter | underscore
    · rcases Bool.or_eq_true_iff.1 letter with upper | lower
      · -- The letter is an upper one.
        have bounds : 'A'.val ≤ char.val ∧ char.val ≤ 'Z'.val := of_decide_eq_true upper
        have low : 65 ≤ char.val.toNat := UInt32.le_iff_toNat_le.1 bounds.1
        omega
      · -- The letter is a lower one.
        have low : 97 ≤ char.val.toNat :=
          UInt32.le_iff_toNat_le.1 (of_decide_eq_true (Bool.and_eq_true_iff.1 lower).1)
        omega
    · -- The underscore is known.
      obtain rfl := of_decide_eq_true underscore
      exact absurd digit (by decide)
  simp only [read, noSymbol, if_neg noQuote, noDigit, if_pos begins]
  rfl

end Beginnings

section Reading

variable {char : Char} {behind tail text rest : List Char} {kind : TokenKind}

/-- What a token is written with is read as that token. -/
theorem read_of_munch (munch : Munch kind (char :: tail) rest) :
    read char (tail ++ rest) = ⟨.ok kind, char :: tail, rest⟩ := by
  cases munch with
  | symbol named alone =>
    -- The symbol is read, and no equals sign is joined.
    simp only [read, named, List.nil_append]
    unfold symbol
    split
    next joins => simp [joins] at alone
    next => rfl
  | joined named joins => simp [read, named, symbol, joins]
  | @string body _ inside =>
    -- The body is the run of characters up to the first quote.
    have quoted : ∀ char ∈ body, decide (char ≠ '"') = true := fun char mem =>
      decide_eq_true fun same => inside (same ▸ mem)
    have ends : EndsRun (fun char => decide (char ≠ '"')) ('"' :: rest) := by
      rintro char first
      cases first
      rfl
    have quote : read '"' (body ++ ['"'] ++ rest) = string '"' (body ++ '"' :: rest) := by
      rw [List.append_assoc]
      rfl
    simp only [quote, string, dropWhile_run quoted ends, takeWhile_run quoted ends,
      List.cons_append]
  | whole begins all ends noPoint =>
    -- The digits are a run, which the text behind them ends.
    simp only [read_digit begins, number, dropWhile_run all ends, takeWhile_run all ends]
    split
    next first more => rw [if_neg (by simp [noPoint first more rfl])]
    next => rfl
  | @fraction _ place digits places _ begins all point behind ends =>
    -- The digits in front of the point end there, and those behind it end with the text.
    have pointed : EndsRun Char.isDigit ('.' :: place :: (places ++ rest)) := by
      rintro char first
      cases first
      rfl
    have whole : digits ++ '.' :: place :: places ++ rest =
        digits ++ '.' :: place :: (places ++ rest) := by simp
    simp only [read_digit begins, number, whole, dropWhile_run all pointed,
      takeWhile_run all pointed, if_pos point, dropWhile_run behind ends,
      takeWhile_run behind ends, List.cons_append]
  | word begins all ends =>
    -- The characters of the word are a run, which the text behind them ends.
    simp only [read_letter begins, Lexeme.word, dropWhile_run all ends, takeWhile_run all ends]
    rfl

/-- A symbol joins an equals sign if it can. -/
theorem munch_of_symbol {simple : TokenKind} (named : TokenKind.ofSymbol? char = some simple)
    (found : symbol simple char behind = ⟨.ok kind, text, rest⟩) : Munch kind text rest := by
  -- An equals sign that comes next joins the symbol wherever it can.
  unfold symbol at found
  split at found
  next joins =>
    cases found
    exact .joined named joins
  next alone =>
    cases found
    refine .symbol named ?_
    cases joins : kind.joinEqual? with
    -- The symbol joins nothing.
    | none => exact .inl rfl
    | some joined =>
      -- If an equals sign came next, it would have been joined.
      refine .inr fun first => ?_
      obtain ⟨after, rfl⟩ := List.head?_eq_some_iff.1 first
      exact alone joined after joins rfl

/-- A string is closed by the first quote behind the one that opens it. -/
theorem munch_of_string (found : string '"' behind = ⟨.ok kind, text, rest⟩) :
    Munch kind text rest := by
  -- Only a quote stops the characters of a string.
  unfold string at found
  split at found
  next closing after left =>
    have stopped := endsRun_dropWhile (fun char => decide (char ≠ '"')) behind
    rw [left] at stopped
    obtain rfl : closing = '"' := by simpa using stopped closing rfl
    cases found
    refine .string fun mem => ?_
    simpa using List.mem_takeWhile_imp mem
  · -- Without another quote there is no token.
    cases found

/-- A number takes a point only with a digit behind it. -/
theorem munch_of_number (digit : char.isDigit = true)
    (found : number char behind = ⟨.ok kind, text, rest⟩) : Munch kind text rest := by
  have all (text : List Char) : ∀ char ∈ text.takeWhile Char.isDigit, char.isDigit = true :=
    fun _ => List.mem_takeWhile_imp
  have ends := endsRun_dropWhile Char.isDigit behind
  simp only [number] at found
  -- What stands behind the digits decides whether there is a fraction.
  split at found
  next first more left =>
    split at found
    next point =>
      -- The point has a digit behind it, and so it belongs to the number.
      cases found
      exact .fraction digit (all behind) point (all more) (endsRun_dropWhile _ _)
    next noPoint =>
      -- The point has no digit behind it, and so the number ends in front of it.
      cases found
      refine .whole digit (all behind) (left ▸ ends) fun other others same => ?_
      cases same
      exact Bool.eq_false_iff.2 noPoint
  next noPoint =>
    cases found
    exact .whole digit (all behind) ends fun first more left => absurd left (noPoint first more)

/-- Whatever is read as a token is written like one, and does not go on behind that. -/
theorem munch_of_read (found : read char behind = ⟨.ok kind, text, rest⟩) :
    Munch kind text rest := by
  unfold read at found
  -- The cases are those of the first character.
  split at found
  next named => exact munch_of_symbol named found
  split at found
  next quote =>
    subst quote
    exact munch_of_string found
  split at found
  next digit => exact munch_of_number digit found
  split at found
  next begins =>
    cases found
    exact .word begins (fun _ => List.mem_takeWhile_imp) (endsRun_dropWhile _ _)
  · cases found

end Reading

end Lexeme

/-- A text with white space put into it, which may have anything behind that. -/
inductive Spaced : (text spaced : List Char) → Prop where
  /-- The white space stands in front. -/
  | here {char : Char} {text rest : List Char} (spacing : isSpacing char = true) :
      Spaced text (char :: rest)
  /-- The white space stands behind a character of the text. -/
  | later {char : Char} {text spaced : List Char} (inner : Spaced text spaced) :
      Spaced (char :: text) (char :: spaced)

/-- White space that is put between two parts of a text, in front of anything, parts it. -/
theorem spaced_append {char : Char} (spacing : isSpacing char = true)
    (front after rest : List Char) : Spaced (front ++ after) (front ++ char :: rest) := by
  -- The white space stays where the two texts begin to differ.
  induction front with
  | nil => exact .here spacing
  | cons first front ih => exact .later ih

section Spacing

variable {rest parted : List Char} {char : Char}

/-- No white space is a digit. -/
theorem not_isDigit_of_isSpacing (spacing : isSpacing char = true) : char.isDigit = false := by
  rcases eq_of_isSpacing spacing with rfl | rfl | rfl | rfl <;> rfl

/-- No white space belongs to a word. -/
theorem not_continuesWord_of_isSpacing (spacing : isSpacing char = true) :
    continuesWord char = false := by
  rcases eq_of_isSpacing spacing with rfl | rfl | rfl | rfl <;> rfl

/-- A run that has ended ends where white space is put behind it. -/
theorem EndsRun.spaced {inRun : Char → Bool} (ends : EndsRun inRun rest)
    (outside : ∀ char, isSpacing char = true → inRun char = false) (apart : Spaced rest parted) :
    EndsRun inRun parted := by
  -- What comes next is what came next before, or white space.
  rintro char first
  cases apart with
  | here spacing =>
    cases first
    exact outside _ spacing
  | later => exact ends char first

/-- A token stays as it is if white space is put into the text behind it. -/
theorem Munch.spaced {kind : TokenKind} {text : List Char} (munch : Munch kind text rest)
    (apart : Spaced rest parted) : Munch kind text parted := by
  cases munch with
  | symbol named alone =>
    refine .symbol named (alone.imp_right fun other first => ?_)
    -- White space is no equals sign.
    cases apart with
    | here spacing =>
      cases first
      cases spacing
    | later => exact other first
  -- All of the token is in front of the text.
  | joined named joins => exact .joined named joins
  | string inside => exact .string inside
  | whole begins all ends noPoint =>
    refine .whole begins all (ends.spaced (fun _ => not_isDigit_of_isSpacing) apart) ?_
    -- The text is looked at as far as the character behind a point.
    rintro first more rfl
    cases apart with
    | here spacing => cases spacing
    | later inner =>
      cases inner with
      | here spacing => exact not_isDigit_of_isSpacing spacing
      | later => exact noPoint first _ rfl
  | fraction begins all point behind ends =>
    -- One character behind the digits is enough to end them.
    exact .fraction begins all point behind (ends.spaced (fun _ => not_isDigit_of_isSpacing) apart)
  | word begins all ends =>
    -- One character behind the word is enough to end it.
    exact .word begins all (ends.spaced (fun _ => not_continuesWord_of_isSpacing) apart)

end Spacing

end ByteCalc
