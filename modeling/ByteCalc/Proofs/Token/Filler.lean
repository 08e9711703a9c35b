import ByteCalc.Token.Scanner

/-! Filler: the white space and the comments between the lexemes of a text. -/

namespace ByteCalc

/-- Whether a character is white space between lexemes. -/
def isSpacing (char : Char) : Bool :=
  char = ' ' || char = '\t' || char = '\r' || char = '\n'

/-- Four characters are white space. -/
theorem eq_of_isSpacing {char : Char} (spacing : isSpacing char = true) :
    char = ' ' ∨ char = '\t' ∨ char = '\r' ∨ char = '\n' := by
  simpa only [isSpacing, Bool.or_eq_true, decide_eq_true_eq, or_assoc] using spacing

/--
White space and comments.

A comment runs to a line feed, or to the end where the filler is the last thing in its text.
-/
inductive Filler (isLast : Prop) : List Char → Prop where
  /-- Nothing at all. -/
  | nil : Filler isLast []
  /-- A white space character in front of more filler. -/
  | blank {char : Char} {rest : List Char} (spacing : isSpacing char = true)
      (filler : Filler isLast rest) : Filler isLast (char :: rest)
  /-- A comment, and more filler on the next line. -/
  | comment {body rest : List Char} (sameLine : '\n' ∉ body) (filler : Filler isLast rest) :
      Filler isLast ('/' :: '/' :: (body ++ '\n' :: rest))
  /-- A comment at the end of the text. -/
  | openComment {body : List Char} (last : isLast) (sameLine : '\n' ∉ body) :
      Filler isLast ('/' :: '/' :: body)

/-- Where a lexeme can begin: at no white space, at no comment, or at the end. -/
def Stands (text : List Char) : Prop :=
  ∀ char ∈ text.head?, isSpacing char = false ∧ ¬ (char = '/' ∧ text.tail.head? = some '/')

/-- The lines that a text takes its reader further. -/
def lineFeeds (text : List Char) : UInt32 :=
  UInt32.ofNat (text.count '\n')

/-- No lines are passed in a text without characters. -/
@[simp] theorem lineFeeds_nil : lineFeeds [] = 0 :=
  rfl

@[simp] theorem lineFeeds_append (first second : List Char) :
    lineFeeds (first ++ second) = lineFeeds first + lineFeeds second := by
  -- The words wrap around in the same way as their sum does.
  rw [lineFeeds, List.count_append, UInt32.ofNat_add]
  rfl

/-- A line feed is one line, on top of those behind it. -/
theorem lineFeeds_newline (rest : List Char) : lineFeeds ('\n' :: rest) = 1 + lineFeeds rest :=
  lineFeeds_append ['\n'] rest

/-- Without a line feed, the line stays. -/
theorem lineFeeds_of_notMem {text : List Char} (sameLine : '\n' ∉ text) : lineFeeds text = 0 := by
  rw [lineFeeds, List.count_eq_zero_of_not_mem sameLine]
  rfl

/-- Other characters take the reader to no other line. -/
theorem lineFeeds_cons_of_ne {char : Char} (other : char ≠ '\n') (rest : List Char) :
    lineFeeds (char :: rest) = lineFeeds rest := by
  rw [lineFeeds, List.count_cons_of_ne other]
  rfl

namespace Filler

variable {isLast : Prop} {filler rest : List Char}

/-- Filler that may stand somewhere may stand wherever the same or more is allowed. -/
theorem mono {other : Prop} (imp : isLast → other) (filled : Filler isLast filler) :
    Filler other filler := by
  -- Only a comment that is left open asks for the end.
  induction filled with
  | nil => exact .nil
  | blank spacing _ ih => exact .blank spacing ih
  | comment sameLine _ ih => exact .comment sameLine ih
  | openComment last sameLine => exact .openComment (imp last) sameLine

/-- Filler whose comments are all closed can stand in front of other filler. -/
theorem append (closed : Filler False filler) (filled : Filler isLast rest) :
    Filler isLast (filler ++ rest) := by
  -- A comment that is closed lets the filler go on behind it.
  induction closed with
  | nil => exact filled
  | blank spacing _ ih => exact .blank spacing ih
  | comment sameLine _ ih =>
    rw [List.cons_append, List.cons_append, List.append_assoc]
    exact .comment sameLine ih
  | openComment last => exact last.elim

/-- Either all comments of some filler are closed, or the last one is open. -/
theorem closed_or_open (filled : Filler isLast filler) :
    Filler False filler ∨ isLast ∧ ∃ front body, filler = front ++ '/' :: '/' :: body ∧
      Filler False front ∧ '\n' ∉ body := by
  induction filled with
  | nil => exact .inl .nil
  | @blank char rest spacing _ ih =>
    -- What is in front of an open comment is longer by the character.
    -- The blank stays in front of whatever follows.
    rcases ih with closed | ⟨last, front, body, rfl, closed, sameLine⟩
    · exact .inl (.blank spacing closed)
    · exact .inr ⟨last, char :: front, body, rfl, .blank spacing closed, sameLine⟩
  -- This comment is closed, so it belongs to what is in front of an open one.
  | @comment comment rest inner _ ih =>
    rcases ih with closed | ⟨last, front, body, rfl, closed, sameLine⟩
    · exact .inl (.comment inner closed)
    · exact .inr ⟨last, '/' :: '/' :: (comment ++ '\n' :: front), body, by simp,
        .comment inner closed, sameLine⟩
  -- The comment that is open begins right here.
  | openComment last sameLine => exact .inr ⟨last, [], _, rfl, .nil, sameLine⟩

/-- Filler behind an open comment goes on with the comment, up to its first line feed. -/
private theorem openComment_insert (last : isLast) (closed : Filler False filler)
    {body : List Char} (sameLine : '\n' ∉ body) :
    Filler isLast ('/' :: '/' :: (body ++ filler)) := by
  induction closed generalizing body with
  | nil => exact .openComment last (by simpa using sameLine)
  | @blank char rest _ closed ih =>
    by_cases newline : char = '\n'
    · subst newline
      -- A line feed ends the comment, and the rest is filler as it was.
      exact .comment sameLine (closed.mono False.elim)
    · -- Any other white space belongs to the comment.
      have longer : '\n' ∉ body ++ [char] := by simpa [sameLine] using Ne.symm newline
      simpa using ih longer
  | @comment inner rest innerLine closed _ =>
    -- A comment inside a comment is no more than a part of it, and ends it.
    have longer : '\n' ∉ body ++ '/' :: '/' :: inner := by simp [sameLine, innerLine]
    simpa using Filler.comment longer (closed.mono False.elim)
  | openComment last => exact last.elim

/-- Filler can be put behind filler, even if that ends with an open comment. -/
theorem insert (filled : Filler isLast filler) (closed : Filler False rest) :
    Filler isLast (filler ++ rest) := by
  -- Only an open comment at the end can take in some of what is put behind it.
  rcases filled.closed_or_open with whole | ⟨last, front, body, rfl, whole, sameLine⟩
  · -- A closed end takes on any filler.
    exact whole.append (closed.mono False.elim)
  · -- The open comment takes in what is put behind it.
    rw [List.append_assoc]
    exact whole.append (openComment_insert last closed sameLine)

end Filler

namespace Scanner

variable {line : UInt32} {text rest : List Char}

section Equations

/-- A line feed is counted, and ends a comment if there is one. -/
theorem skip_newline (inComment : Bool) :
    skip inComment line ('\n' :: rest) = skip false (line + 1) rest :=
  rfl

/-- Two slashes begin a comment. -/
theorem skip_slashes : skip false line ('/' :: '/' :: rest) = skip true line rest :=
  rfl

/-- In a comment, everything up to the line feed is skipped. -/
theorem skip_comment (sameLine : '\n' ∉ text) (rest : List Char) :
    skip true line (text ++ rest) = skip true line rest := by
  -- The comment goes on up to the next line feed.
  induction text with
  | nil => rfl
  | cons char text ih =>
    -- The character is no line feed, and none comes later.
    have other : char ≠ '\n' := fun same => sameLine (same ▸ List.mem_cons_self)
    have later : '\n' ∉ text := fun mem => sameLine (List.mem_cons_of_mem _ mem)
    rw [List.cons_append, skip, if_neg other, if_pos (by simp), ih later]

/-- A white space character is skipped, and starts a new line if it is a line feed. -/
theorem skip_spacing {char : Char} (spacing : isSpacing char = true) :
    skip false line (char :: rest) = skip false (line + lineFeeds [char]) rest := by
  -- Only the last one of the four characters is a line feed.
  rcases eq_of_isSpacing spacing with rfl | rfl | rfl | rfl
  · exact congrArg (skip false · rest) (UInt32.add_zero line).symm
  · exact congrArg (skip false · rest) (UInt32.add_zero line).symm
  · exact congrArg (skip false · rest) (UInt32.add_zero line).symm
  · rfl

/-- Where a lexeme can begin, nothing is skipped. -/
theorem skip_stands (stands : Stands text) : skip false line text = ⟨text, line⟩ := by
  -- The first character is neither white space nor the beginning of a comment.
  cases text with
  | nil => rfl
  | cons char rest =>
    obtain ⟨visible, noComment⟩ := stands char rfl
    simp only [isSpacing, Bool.or_eq_false_iff, decide_eq_false_iff_not] at visible
    obtain ⟨⟨⟨space, tab⟩, carriage⟩, newline⟩ := visible
    rw [skip, if_neg newline, if_neg (by simp [space, carriage, tab]),
      if_neg (by simpa using noComment)]

end Equations

section Laws

variable {gap filler : List Char}

/-- Filler is skipped, and takes the scanner as many lines further as it has line feeds. -/
theorem skip_filler (filled : Filler (rest = []) gap) :
    skip false line (gap ++ rest) = skip false (line + lineFeeds gap) rest := by
  induction filled generalizing line with
  | nil => rw [lineFeeds_nil, UInt32.add_zero, List.nil_append]
  | @blank char more spacing _ ih =>
    -- The character is skipped with its line feed, if it is one.
    rw [List.cons_append, skip_spacing spacing, ih, UInt32.add_assoc, ← lineFeeds_append]
    rfl
  | @comment body more sameLine _ ih =>
    -- The only line feed of a comment is the one that ends it.
    have feeds : lineFeeds ('/' :: '/' :: (body ++ '\n' :: more)) = 1 + lineFeeds more := by
      rw [lineFeeds_cons_of_ne (by decide), lineFeeds_cons_of_ne (by decide), lineFeeds_append,
        lineFeeds_of_notMem sameLine, UInt32.zero_add, lineFeeds_newline]
    rw [List.cons_append, List.cons_append, List.append_assoc, skip_slashes, skip_comment sameLine,
      List.cons_append, skip_newline, ih, feeds, UInt32.add_assoc]
  | @openComment body last sameLine =>
    have feeds : lineFeeds ('/' :: '/' :: body) = 0 := by
      rw [lineFeeds_cons_of_ne (by decide), lineFeeds_cons_of_ne (by decide),
        lineFeeds_of_notMem sameLine]
    rw [last, List.cons_append, List.cons_append, skip_slashes, skip_comment sameLine, feeds,
      UInt32.add_zero]
    rfl

/-- Filler that is closed is skipped, whatever comes behind it. -/
theorem skip_closed (closed : Filler False filler) (rest : List Char) :
    skip false line (filler ++ rest) = skip false (line + lineFeeds filler) rest :=
  skip_filler (closed.mono False.elim)

end Laws

end Scanner

/-- A comment ends at a line feed or at the end of the text. -/
private theorem exists_comment (text : List Char) :
    ∃ body rest, '\n' ∉ body ∧ (text = body ++ '\n' :: rest ∨ text = body) := by
  -- The body ends at the first line feed, or with the text.
  induction text with
  | nil => exact ⟨[], [], List.not_mem_nil, .inr rfl⟩
  | cons char text ih =>
    by_cases newline : char = '\n'
    · -- The comment is empty in front of the line feed.
      exact ⟨[], text, List.not_mem_nil, .inl (by rw [newline]; rfl)⟩
    · -- The comment is longer by the character.
      obtain ⟨body, rest, sameLine, split⟩ := ih
      refine ⟨char :: body, rest, ?_, ?_⟩
      · simpa using ⟨Ne.symm newline, sameLine⟩
      · simpa using split

/-- A text is filler in front of a lexeme, or in front of its end. -/
theorem exists_gap (text : List Char) :
    ∃ gap rest, text = gap ++ rest ∧ Filler (rest = []) gap ∧ Stands rest := by
  -- Each white space character and each comment leaves a shorter text.
  induction size : text.length using Nat.strongRecOn generalizing text
  rename_i ih
  subst size
  by_cases stands : Stands text
  · -- A text that begins with a lexeme has no filler in front of it.
    exact ⟨[], text, rfl, .nil, stands⟩
  -- What begins no lexeme begins with white space or with a comment.
  obtain ⟨char, tail, rfl, filled⟩ : ∃ char tail, text = char :: tail ∧
      (isSpacing char = true ∨ char = '/' ∧ tail.head? = some '/') := by
    cases text with
    | nil => exact absurd (fun char first => nomatch first) stands
    | cons char tail =>
      refine ⟨char, tail, rfl, Classical.byContradiction fun neither => stands ?_⟩
      rintro other first
      -- Neither kind of filler begins here, so the text would stand.
      cases first
      exact ⟨by simpa using fun spacing => neither (.inl spacing),
        fun slashes => neither (.inr slashes)⟩
  rcases filled with spacing | ⟨rfl, slash⟩
  · -- The blank is the first character of the gap.
    obtain ⟨gap, rest, split, filled, stands⟩ := ih _ (Nat.lt_succ_self _) tail rfl
    exact ⟨char :: gap, rest, by rw [split]; rfl, .blank spacing filled, stands⟩
  -- The second slash is the first character behind the first one.
  obtain ⟨inner, rfl⟩ := List.head?_eq_some_iff.1 slash
  obtain ⟨body, below, sameLine, split⟩ := exists_comment inner
  rcases split with rfl | rfl
  · -- The comment ends at a line feed, and filler may go on behind it.
    obtain ⟨gap, rest, rfl, filled, stands⟩ := ih below.length (by simp; omega) below rfl
    exact ⟨'/' :: '/' :: (body ++ '\n' :: gap), rest, by simp, .comment sameLine filled, stands⟩
  · -- The comment is open up to the end of the text.
    exact ⟨'/' :: '/' :: inner, [], by simp, .openComment rfl sameLine,
      fun char first => nomatch first⟩

end ByteCalc
