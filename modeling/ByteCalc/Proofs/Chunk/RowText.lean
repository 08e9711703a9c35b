import Mathlib.Data.List.Basic
import ByteCalc.Chunk.Listing
import ByteCalc.Proofs.Text.Characters

/-! The end of a row tells what stands at its offset. -/

namespace ByteCalc

section Suffixes

variable {first mark : Char} {front back before ending : List Char}

/-- An ending whose first character is not in front of a text lies inside the text. -/
theorem suffix_behind (apart : first ∉ front) (ends : first :: ending <:+ front ++ back) :
    first :: ending <:+ back := by
  -- Of two endings of one text, one is an ending of the other.
  rcases List.suffix_or_suffix_of_suffix ends (List.suffix_append front back) with
    -- The other text is the shorter one, and the front ends with a gap in front of the ending.
    inside | ⟨gap, whole⟩
  · exact inside
  · cases gap with
    | nil => exact whole ▸ List.suffix_refl _
    | cons head gap =>
      -- A longer ending would reach into the front with its first character.
      obtain ⟨rest, all⟩ := ends
      rw [← whole, ← List.append_assoc] at all
      have reached : rest ++ head :: gap = front := List.append_cancel_right all
      obtain ⟨rfl, _⟩ := List.cons.inj whole
      exact absurd (reached ▸ List.mem_append_right rest List.mem_cons_self) apart

/-- A mark that a text holds once is matched by itself in whatever the text ends in. -/
theorem suffix_at_mark (inFront : mark ∉ front) (inBack : mark ∉ back)
    (ends : before ++ mark :: ending <:+ front ++ mark :: back) : ending = back := by
  -- Both ways to cut the text cut it at the only mark.
  -- What stands in front of the ending belongs to what is in front of the mark.
  obtain ⟨rest, whole⟩ := ends
  rw [← List.append_assoc] at whole
  exact ((List.append_cons_inj_of_notMem inFront inBack).1 whole.symm).2.2.symm

end Suffixes

namespace Opcode

/-- Whether operand bytes follow the opcode. -/
def isLoad : Opcode → Bool
  | constant | constantLong => true
  | binary _ | negate | ret => false

/-- The column of the mnemonic behind the two letters that every mnemonic starts with. -/
def column (opcode : Opcode) : List Char :=
  (padRight 16 opcode.mnemonic).toList.drop 2

/-- A padded mnemonic starts with two letters, and its column follows. -/
theorem toList_padRight_mnemonic (opcode : Opcode) :
    (padRight 16 opcode.mnemonic).toList = 'O' :: 'P' :: opcode.column := by
  -- No mnemonic is longer than the column, and each starts with the same two letters.
  cases opcode with
  | binary op => cases op <;> rfl
  | constant | constantLong | negate | ret => rfl

/-- All columns of mnemonics have the same width. -/
theorem length_column (opcode : Opcode) : opcode.column.length = 14 := by
  -- Of the sixteen places, two are taken by the letters in front.
  cases opcode with
  | binary op => cases op <;> rfl
  | constant | constantLong | negate | ret => rfl

/-- No two mnemonics are alike. -/
theorem column_inj {first second : Opcode} (same : first.column = second.column) :
    first = second := by
  -- There are only so many pairs of opcodes to compare.
  have apart : ∀ first ∈ all, ∀ second ∈ all, first.column = second.column → first = second := by
    decide +kernel
  exact apart first (mem_all first) second (mem_all second) same

/-- No mnemonic is the end of another one. -/
theorem mnemonic_suffix {first second : Opcode}
    (ends : first.mnemonic.toList <:+ second.mnemonic.toList) : first = second := by
  -- Here too all pairs are compared.
  have apart : ∀ first ∈ all, ∀ second ∈ all,
      first.mnemonic.toList <:+ second.mnemonic.toList → first = second := by decide +kernel
  exact apart first (mem_all first) second (mem_all second) ends

/-- Every mnemonic starts with the same two letters, of which the second is the one to look for. -/
theorem toList_mnemonic (opcode : Opcode) :
    opcode.mnemonic.toList = ['O'] ++ 'P' :: opcode.mnemonic.toList.drop 2 := by
  -- All eight mnemonics are looked at.
  cases opcode with
  | binary op => cases op <;> rfl
  | constant | constantLong | negate | ret => rfl

/-- The characters of a mnemonic. -/
def isNameChar (char : Char) : Bool :=
  char.isUpper || char == '_'

/-- A mnemonic has no characters but capital letters and the underscore. -/
theorem isNameChar_of_mem {opcode : Opcode} {char : Char} (mem : char ∈ opcode.mnemonic.toList) :
    isNameChar char := by
  -- There are eight names to look at.
  have names : ∀ opcode ∈ all, opcode.mnemonic.toList.all isNameChar := by decide +kernel
  exact List.all_eq_true.1 (names opcode (mem_all opcode)) char mem

/-- What is no such character is not in any mnemonic. -/
theorem not_mem_mnemonic {opcode : Opcode} {mark : Char} (other : isNameChar mark = false) :
    mark ∉ opcode.mnemonic.toList := by
  intro mem
  simp [isNameChar_of_mem mem] at other

/-- The column of a mnemonic has no characters besides those of the mnemonic and blanks. -/
theorem not_mem_padRight {opcode : Opcode} {mark : Char} (other : isNameChar mark = false)
    (notBlank : mark ≠ ' ') : mark ∉ (padRight 16 opcode.mnemonic).toList := by
  -- Padding adds nothing but blanks.
  intro mem
  rcases mem_padRight mem with blank | inName
  · exact notBlank blank
  · exact not_mem_mnemonic other inName

/-- The mnemonic of a load has its second letter once. -/
theorem not_mem_column {opcode : Opcode} (loads : opcode.isLoad) : 'P' ∉ opcode.column := by
  -- Only the two loads have to be looked at.
  cases opcode with
  | constant | constantLong => decide
  | binary | negate | ret => cases loads

end Opcode

/-- The characters of the columns in which a row shows numbers. -/
def isColumnChar (char : Char) : Bool :=
  char.isDigit || [' ', '|', '?'].contains char

/-- The column of an index. -/
def indexColumn (index : Nat) : List Char :=
  (padLeft 4 ' ' (toString index)).toList

/-- The column of an index has no characters but blanks and digits. -/
theorem isColumnChar_of_mem_indexColumn {index : Nat} {char : Char}
    (mem : char ∈ indexColumn index) : isColumnChar char := by
  -- The number is padded with blanks, and has digits otherwise.
  rcases mem_padLeft mem with rfl | digit
  · rfl
  · simp [isColumnChar, isDigit_of_mem_toString digit]

/-- The column of an index is never empty. -/
theorem indexColumn_ne_nil (index : Nat) : indexColumn index ≠ [] := by
  -- The number has a digit, whatever is put in front of it.
  rw [indexColumn, toList_padLeft]
  exact List.append_ne_nil_of_right_ne_nil _ (toString_ne_nil index)

/-- An index that fills its column is told from the text behind it by the first blank. -/
theorem indexColumn_inj {first second : Nat} {these those : List Char}
    (same : indexColumn first ++ ' ' :: these =
      indexColumn second ++ ' ' :: those) :
    first = second ∧ these = those := by
  -- Digits are no blanks, so that the blanks around a number show where it begins and ends.
  have digits {number : Nat} : ' ' ∉ (toString number).toList := fun mem =>
    absurd (isDigit_of_mem_toString mem) (by decide)
  have trimmed (number : Nat) (behind : List Char) :
      (indexColumn number ++ ' ' :: behind).dropWhile (· = ' ') =
        (toString number).toList ++ ' ' :: behind := by
    -- The blanks in front of the digits are dropped, and the first digit stays.
    obtain ⟨digit, more, spelled⟩ := List.exists_cons_of_ne_nil (toString_ne_nil number)
    have stays : digit ≠ ' ' := fun blank =>
      digits (spelled ▸ List.mem_cons.2 (.inl blank.symm) : ' ' ∈ (toString number).toList)
    rw [indexColumn, toList_padLeft, List.append_assoc, List.dropWhile_append_of_pos (by simp),
      spelled]
    simp [stays]
  -- Without the blanks in front, both texts start with their numbers.
  have read := congrArg (List.dropWhile (· = ' ')) same
  rw [trimmed, trimmed] at read
  -- The first blank behind it ends the number.
  have pieces := congrArg (List.splitOn ' ') read
  rw [List.splitOn_append_cons_self_of_not_mem digits,
    List.splitOn_append_cons_self_of_not_mem digits] at pieces
  obtain rfl := toString_inj (List.cons.inj pieces).1
  exact ⟨rfl, (List.cons.inj (List.append_cancel_left read)).2⟩

namespace Entry

/-- Operand bytes are missing or shown only behind an opcode that has some. -/
def Sound : Entry → Prop
  | truncated opcode | load opcode _ _ => opcode.isLoad
  | endOfCode | unknown _ | plain _ => True

/-- What a load shows in place of its constant. -/
def constantText : Option Value → String
  | some value => value.toText
  | none => "<out of range>"

/-- The message for a missing constant is the text of no value. -/
theorem constantText_eq_iff {constant : Option Value} :
    "<out of range>" = constantText constant ↔ constant = none := by
  -- No value is written with an angle bracket.
  refine ⟨fun same => ?_, fun none => none ▸ rfl⟩
  cases constant with
  | none => rfl
  | some value =>
    have bracket : '<' ∈ value.toText.toList := by
      rw [← show "<out of range>" = value.toText from same]
      decide
    exact absurd (Value.isTextChar_of_mem bracket) (by decide)

/-- The columns of a load that shows an index and some text. -/
def loadText (opcode : Opcode) (index : Nat) (shown : String) : String :=
  padRight 16 opcode.mnemonic ++ " " ++ padLeft 4 ' ' (toString index) ++ " " ++ shown

/-- The text of a load consists of its columns. -/
theorem text_load (opcode : Opcode) (index : Nat) (constant : Option Value) :
    (load opcode index constant).text = loadText opcode index (constantText constant) := by
  cases constant <;> rfl

/-- The text of a load, cut behind the second letter of its mnemonic. -/
theorem toList_loadText (opcode : Opcode) (index : Nat) (shown : String) :
    (loadText opcode index shown).toList =
      ['O'] ++ 'P' :: (opcode.column ++ ' ' :: (indexColumn index ++ ' ' :: shown.toList)) := by
  simp [loadText, Opcode.toList_padRight_mnemonic, indexColumn]

/-- A load has no character besides those of its columns, its mnemonic and the text it shows. -/
theorem not_mem_loadText {opcode : Opcode} {index : Nat} {shown : String} {mark : Char}
    (letter : isColumnChar mark = false) (other : Opcode.isNameChar mark = false)
    (inShown : mark ∉ shown.toList) : mark ∉ (loadText opcode index shown).toList := by
  -- The text is cut into its columns, with blanks between them.
  have notBlank : mark ≠ ' ' := fun blank => by simp [blank, isColumnChar] at letter
  have inName : mark ∉ (padRight 16 opcode.mnemonic).toList :=
    Opcode.not_mem_padRight other notBlank
  have inColumn : mark ∉ indexColumn index := fun mem => by
    simp [isColumnChar_of_mem_indexColumn mem] at letter
  simp only [loadText, String.toList_append, List.mem_append, not_or]
  exact ⟨⟨⟨⟨inName, by simpa using notBlank⟩, inColumn⟩, by simpa using notBlank⟩, inShown⟩

/-- What a load shows for its constant has no character besides those of values and the message. -/
theorem not_mem_constantText {constant : Option Value} {mark : Char}
    (other : Value.isTextChar mark = false) (inMessage : mark ∉ "<out of range>".toList) :
    mark ∉ (constantText constant).toList := by
  -- Either a value is shown or the message for a missing one.
  intro mem
  cases constant with
  | some value => simp [Value.isTextChar_of_mem mem] at other
  | none => exact inMessage mem

/-- The second letter of a load is not found again behind it. -/
theorem not_mem_behind {opcode : Opcode} (loads : opcode.isLoad) (index : Nat)
    (constant : Option Value) :
    'P' ∉ opcode.column ++ ' ' :: (indexColumn index ++ ' ' :: (constantText constant).toList) := by
  -- The index, the value and the message are written without capital letters of this kind.
  have inIndex : 'P' ∉ indexColumn index := fun mem =>
    absurd (isColumnChar_of_mem_indexColumn mem) (by decide)
  have inShown : 'P' ∉ (constantText constant).toList := not_mem_constantText rfl (by decide)
  simp [Opcode.not_mem_column loads, inIndex, inShown]

/-- The second letter of a load is not found again in the message for missing operand bytes. -/
theorem not_mem_message {opcode : Opcode} (loads : opcode.isLoad) :
    'P' ∉ opcode.column ++ ' ' :: '<' :: "truncated>".toList := by
  simp [Opcode.not_mem_column loads]

/-- The text of a load that is cut off, taken apart behind the second letter of its mnemonic. -/
theorem toList_truncated (opcode : Opcode) :
    (truncated opcode).text.toList =
      ['O'] ++ 'P' :: (opcode.column ++ ' ' :: '<' :: "truncated>".toList) := by
  simp [text, Opcode.toList_padRight_mnemonic]

/-- A load that is cut off has no character besides those of its mnemonic and the message. -/
theorem not_mem_truncated {opcode : Opcode} {mark : Char} (other : Opcode.isNameChar mark = false)
    (inMessage : mark ∉ " <truncated>".toList) : mark ∉ (truncated opcode).text.toList := by
  -- The message stands behind the padded mnemonic.
  have notBlank : mark ≠ ' ' := fun blank => inMessage (blank ▸ List.mem_cons_self)
  intro mem
  rcases List.mem_append.1 (String.toList_append ▸ mem) with inName | behind
  · exact Opcode.not_mem_padRight other notBlank inName
  · exact inMessage behind

/-- The text of an unknown byte, cut at a letter that no other entry has. -/
theorem toList_unknown (byte : UInt8) :
    (unknown byte).text.toList =
      ['U', 'n'] ++ 'k' :: ("nown code ".toList ++ (toString byte.toNat).toList) := by
  -- The words are the same for all bytes.
  show ("Unknown code " ++ toString byte.toNat).toList = _
  rw [String.toList_append]
  rfl

/-- An unknown byte shows nothing but two words and its number. -/
theorem not_mem_unknown {byte : UInt8} {mark : Char} (other : mark.isDigit = false)
    (inWords : mark ∉ "Unknown code ".toList) : mark ∉ (unknown byte).text.toList := by
  -- Behind the words there are only digits.
  intro mem
  rcases List.mem_append.1 (String.toList_append ▸ mem) with words | digit
  · exact inWords words
  · simp [isDigit_of_mem_toString digit] at other

end Entry

namespace Row

/-- The columns of a row in front of its entry. -/
def columns (row : Row) : String :=
  padLeft 4 '0' (toString row.offset) ++ " " ++ padLeft 4 ' ' row.mark.text ++ " "

/-- The text of a row is that of its columns, and then that of its entry. -/
theorem text_eq (row : Row) : row.text = row.columns ++ row.entry.text :=
  rfl

/-- The text of a row ends in a given text. -/
def EndsIn (row : Row) (ending : String) : Prop :=
  ending.toList <:+ row.text.toList

/-- A row ends in the mnemonic of an opcode, an index and a text, each in its column. -/
def Shows (row : Row) (opcode : Opcode) (index : Nat) (text : String) : Prop :=
  row.EndsIn (Entry.loadText opcode index text)

end Row

/-- The mark for a line has no characters but those of the columns. -/
theorem LineMark.isColumnChar_of_mem {mark : LineMark} {char : Char}
    (mem : char ∈ mark.text.toList) : isColumnChar char := by
  -- A line is written with digits, and the other two marks are single signs.
  cases mark with
  | known line => simp [isColumnChar, isDigit_of_mem_toString mem]
  | repeated | unknown =>
    obtain rfl := List.mem_singleton.1 mem
    rfl

namespace Row

variable {row : Row} {opcode : Opcode}

/-- The columns in front of an entry have no characters but their own. -/
theorem isColumnChar_of_mem {char : Char} (mem : char ∈ row.columns.toList) :
    isColumnChar char := by
  -- The columns of the offset and of the line are set apart by single blanks.
  have blank {char : Char} (mem : char ∈ " ".toList) : isColumnChar char := by
    obtain rfl := List.mem_singleton.1 mem
    rfl
  simp only [columns, String.toList_append, List.mem_append] at mem
  rcases mem with ((offset | gap) | mark) | gap
  · -- The offset is padded with zeros, which are digits too.
    rcases mem_padLeft offset with rfl | digit
    · rfl
    · simp [isColumnChar, isDigit_of_mem_toString digit]
  · exact blank gap
  · -- The mark is padded with blanks.
    rcases mem_padLeft mark with rfl | inside
    · rfl
    · exact LineMark.isColumnChar_of_mem inside
  · exact blank gap

/-- An ending that does not start like a column is one of the entry. -/
theorem endsIn_iff {ending : String} {first : Char} {tail : List Char}
    (spelled : ending.toList = first :: tail) (letter : isColumnChar first = false) :
    row.EndsIn ending ↔ ending.toList <:+ row.entry.text.toList := by
  -- The ending cannot reach back into the columns, as its first character is in none of them.
  rw [EndsIn, text_eq, String.toList_append, spelled]
  refine ⟨suffix_behind fun mem => ?_, fun ends => ends.trans (List.suffix_append _ _)⟩
  simp [isColumnChar_of_mem mem] at letter

/-- A row ends like an unknown byte exactly if that byte stands there. -/
theorem endsIn_unknown_iff {byte : UInt8} :
    row.EndsIn s!"Unknown code {byte}" ↔ row.entry = .unknown byte := by
  show row.EndsIn (Entry.unknown byte).text ↔ _
  rw [endsIn_iff (Entry.toList_unknown byte) rfl]
  refine ⟨fun ends => ?_, fun unknown => unknown ▸ List.suffix_refl _⟩
  -- No other entry has the letter in the middle of the first word.
  have marked : 'k' ∈ row.entry.text.toList := ends.subset (by simp [Entry.toList_unknown])
  cases found : row.entry with
  | unknown other =>
    -- Both texts are cut at the letter, and the digits behind it are those of the two bytes.
    rw [found, Entry.toList_unknown, Entry.toList_unknown] at ends
    have inDigits : 'k' ∉ "nown code ".toList ++ (toString other.toNat).toList := by
      intro mem
      rcases List.mem_append.1 mem with words | digit
      · -- The words have the letter no second time.
        exact absurd words (by decide)
      · exact absurd (isDigit_of_mem_toString digit) (by decide)
    -- Equal numbers in the text are equal bytes.
    have digits := List.append_cancel_left (suffix_at_mark (by decide) inDigits ends)
    rw [UInt8.toNat_inj.1 (toString_inj digits)]
  -- The message for the end of the code has other letters.
  | endOfCode => exact absurd (found ▸ marked) (by decide)
  | plain opcode =>
    rw [found] at marked
    exact absurd marked (Opcode.not_mem_mnemonic rfl)
  | truncated opcode =>
    rw [found] at marked
    exact absurd marked (Entry.not_mem_truncated rfl (by decide))
  | load opcode index constant =>
    -- A load shows capital letters, digits, blanks and a value or the message.
    rw [found, Entry.text_load] at marked
    have inShown : 'k' ∉ (Entry.constantText constant).toList :=
      Entry.not_mem_constantText rfl (by decide)
    exact absurd marked (Entry.not_mem_loadText rfl rfl inShown)

/-- A row ends like a load that is cut off exactly if one stands there. -/
theorem endsIn_truncated_iff :
    row.EndsIn "<truncated>" ↔ ∃ opcode, row.entry = .truncated opcode := by
  have spelled : "<truncated>".toList = '<' :: "truncated>".toList := rfl
  rw [endsIn_iff spelled rfl]
  constructor
  · intro ends
    -- The angle bracket opens a message, and there are two others.
    have marked : '<' ∈ row.entry.text.toList := ends.subset (by decide)
    cases found : row.entry with
    | truncated opcode => exact ⟨opcode, rfl⟩
    | endOfCode => exact absurd (found ▸ ends) (by decide)
    | unknown byte =>
      rw [found] at marked
      exact absurd marked (Entry.not_mem_unknown rfl (by decide))
    | plain opcode =>
      rw [found] at marked
      exact absurd marked (Opcode.not_mem_mnemonic rfl)
    | load opcode index constant =>
      rw [found, Entry.text_load] at marked ends
      cases constant with
      | some value =>
        have inShown : '<' ∉ (Entry.constantText (some value)).toList := fun mem =>
          absurd (Value.isTextChar_of_mem mem) (by decide)
        exact absurd marked (Entry.not_mem_loadText rfl rfl inShown)
      -- The other message with a bracket is as long, but none is the end of the other.
      | none =>
        have other : "<out of range>".toList <:+
            (Entry.loadText opcode index "<out of range>").toList := by
          rw [Entry.loadText, String.toList_append]
          exact List.suffix_append _ _
        rcases List.suffix_or_suffix_of_suffix ends other with longer | longer
        · exact absurd longer (by decide)
        · exact absurd longer (by decide)
  · -- The message is the last column of a load that is cut off.
    rintro ⟨opcode, truncated⟩
    rw [truncated, Entry.toList_truncated]
    exact ⟨['O'] ++ 'P' :: opcode.column ++ [' '], by simp⟩

/-- A row shows an index and a text exactly if they are those of a load there. -/
theorem shows_iff (sound : row.entry.Sound) {index : Nat} {text : String} :
    row.Shows opcode index text ↔
      ∃ constant, row.entry = .load opcode index constant ∧ text = Entry.constantText constant := by
  -- The first letter of the mnemonic does not occur in the columns in front of the entry.
  rw [Shows, endsIn_iff (Entry.toList_loadText opcode index text) rfl]
  constructor
  · intro ends
    -- The second letter of the mnemonic tells loads from all entries without one.
    have marked : 'P' ∈ row.entry.text.toList := ends.subset (by simp [Entry.toList_loadText])
    rw [Entry.toList_loadText] at ends
    cases found : row.entry with
    | endOfCode => exact absurd (found ▸ marked) (by decide)
    | unknown byte =>
      rw [found] at marked
      exact absurd marked (Entry.not_mem_unknown rfl (by decide))
    -- Without operand bytes there is no blank behind the mnemonic.
    | plain other =>
      rw [found] at ends
      have blank : ' ' ∈ other.mnemonic.toList := ends.subset (by simp)
      exact absurd blank (Opcode.not_mem_mnemonic rfl)
    | truncated other =>
      rw [found] at sound ends
      rw [Entry.toList_truncated] at ends
      have whole := suffix_at_mark (by decide) (Entry.not_mem_message sound) ends
      obtain ⟨_, behind⟩ :=
        List.append_inj whole (by rw [Opcode.length_column, Opcode.length_column])
      -- The message stands where the column of the index would start.
      obtain ⟨first, more, column⟩ := List.exists_cons_of_ne_nil (indexColumn_ne_nil index)
      have start := (List.cons.inj behind).2
      rw [column, List.cons_append] at start
      have inColumn : '<' ∈ indexColumn index :=
        column ▸ List.mem_cons.2 (.inl (List.cons.inj start).1.symm)
      exact absurd (isColumnChar_of_mem_indexColumn inColumn) (by decide)
    | load other shown constant =>
      rw [found] at sound ends
      rw [Entry.text_load, Entry.toList_loadText] at ends
      have whole := suffix_at_mark (by decide) (Entry.not_mem_behind sound shown constant) ends
      -- The mnemonics are cut off at the width of their column.
      obtain ⟨names, behind⟩ :=
        List.append_inj whole (by rw [Opcode.length_column, Opcode.length_column])
      obtain ⟨rfl, texts⟩ := indexColumn_inj (List.cons.inj behind).2
      obtain rfl := Opcode.column_inj names
      exact ⟨constant, rfl, String.toList_inj.1 texts⟩
  · -- The load is written as it is shown.
    rintro ⟨constant, loads, rfl⟩
    have same : row.entry.text = Entry.loadText opcode index (Entry.constantText constant) := by
      rw [loads, Entry.text_load]
    exact same ▸ List.suffix_refl _

/-- A row ends in a mnemonic exactly if an opcode of that name stands there without operands. -/
theorem endsIn_mnemonic_iff (sound : row.entry.Sound) :
    row.EndsIn opcode.mnemonic ↔ row.entry = .plain opcode := by
  -- Here too the first letter does not occur in the columns.
  rw [endsIn_iff opcode.toList_mnemonic rfl]
  constructor
  · intro ends
    have marked : 'P' ∈ row.entry.text.toList :=
      ends.subset (by rw [Opcode.toList_mnemonic]; simp)
    -- Behind the mnemonic of a load there is a blank, but there is none in a mnemonic.
    have noBlank : ' ' ∉ opcode.mnemonic.toList.drop 2 := fun mem =>
      Opcode.not_mem_mnemonic rfl (List.mem_of_mem_drop mem)
    cases found : row.entry with
    | endOfCode => exact absurd (found ▸ marked) (by decide)
    | unknown byte =>
      rw [found] at marked
      exact absurd marked (Entry.not_mem_unknown rfl (by decide))
    -- Two mnemonics of which one ends the other are the same.
    | plain other =>
      rw [found] at ends
      rw [Opcode.mnemonic_suffix ends]
    | truncated other =>
      rw [found] at sound ends
      rw [Entry.toList_truncated, Opcode.toList_mnemonic] at ends
      -- The text behind the letter would be the rest of a mnemonic, but it has a blank.
      have whole := suffix_at_mark (by decide) (Entry.not_mem_message sound) ends
      exact absurd (by rw [whole]; simp) noBlank
    | load other shown constant =>
      rw [found] at sound ends
      rw [Entry.text_load, Entry.toList_loadText, Opcode.toList_mnemonic] at ends
      have whole := suffix_at_mark (by decide) (Entry.not_mem_behind sound shown constant) ends
      exact absurd (by rw [whole]; simp) noBlank
  · -- A plain entry is its mnemonic and nothing more.
    intro plain
    rw [plain]
    exact List.suffix_refl _

end Row

end ByteCalc
