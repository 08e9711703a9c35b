import ByteCalc.Proofs.Token.Inset

/-! The line of a scan is one more than the number of line feeds in front of its place. -/

namespace ByteCalc

open String (utf8Len)

/-- The number of the line that comes behind a text: lines are counted from one. -/
def lineBehind (text : List Char) : Nat :=
  1 + text.count '\n'

/-- A scan of the middle part of a text has the right characters and the right line. -/
inductive Scan.OnLine (before text after : List Char) : Scan → Prop where
  /-- A token stands on the line on which its lexeme ends. -/
  | token {token : Token} (spelled : token.lexeme.toList = text)
      (counted : token.line.toNat = lineBehind (before ++ text)) :
      OnLine before text after (.token token)
  /-- An unexpected character stands on the line that it comes on. -/
  | unexpectedChar {char : Char} {line : UInt32} (single : text = [char])
      (counted : line.toNat = lineBehind before) :
      OnLine before text after (.fault ⟨.unexpectedChar char, line⟩)
  /-- A string without a closing quote stands on the line of its opening quote. -/
  | unterminatedString {body : List Char} {line : UInt32} (opened : text = '"' :: body)
      (counted : line.toNat = lineBehind before) :
      OnLine before text after (.fault ⟨.unterminatedString, line⟩)
  /-- The end stands on the last line. -/
  | finish {line : UInt32} (nothing : text = []) (last : after = [])
      (counted : line.toNat = lineBehind before) : OnLine before text after (.finish line)

/-- More text in front can only lead to a later line. -/
theorem lineBehind_mono (text more : List Char) : lineBehind text ≤ lineBehind (text ++ more) := by
  simp only [lineBehind, List.count_append]
  omega

/-- The line that is counted in a word is the right one as long as the word has room for it. -/
theorem toNat_lineFeeds {text : List Char} (few : text.count '\n' < 2 ^ 32 - 1) :
    (1 + lineFeeds text).toNat = lineBehind text := by
  -- Neither the number of line feeds nor the one on top of it wraps around.
  have one : (1 : UInt32).toNat = 1 := rfl
  rw [lineFeeds, UInt32.toNat_add, UInt32.toNat_ofNat', one, lineBehind]
  omega

/-- Line feeds that come next are counted on top of those that have been counted. -/
theorem line_onward {line : UInt32} {before : List Char} (right : line = 1 + lineFeeds before)
    (text : List Char) : line + lineFeeds text = 1 + lineFeeds (before ++ text) := by
  -- The sums wrap around alike.
  rw [right, UInt32.add_assoc, ← lineFeeds_append]

section OnLine

variable {line : UInt32} {before gap text rest : List Char} {scan : Scan}

/-- A scan that starts on the right line is on the right line. -/
theorem Takes.onLine (takes : Takes line gap text rest scan) (right : line = 1 + lineFeeds before)
    (few : (before ++ (gap ++ (text ++ rest))).count '\n' < 2 ^ 32 - 1) :
    scan.OnLine (before ++ gap) text rest := by
  -- All three parts have so few line feeds together, and so each of them has.
  simp only [List.count_append] at few
  -- The line feeds of the gap come first, and then those of the text.
  have ahead : (line + lineFeeds gap).toNat = lineBehind (before ++ gap) := by
    rw [line_onward right]
    exact toNat_lineFeeds (by simp only [List.count_append]; omega)
  cases takes with
  | token closed stands found =>
    -- The line feeds of the token itself count too.
    refine .token String.toList_ofList ?_
    rw [line_onward right, ← List.append_assoc]
    refine toNat_lineFeeds ?_
    simp only [List.count_append] at few ⊢
    omega
  | fault closed stands found =>
    rcases Lexeme.read_eq_error found with ⟨rfl, single⟩ | ⟨rfl, rfl, opened, _⟩
    · exact .unexpectedChar single ahead
    · exact .unterminatedString opened ahead
  | finish filled => exact .finish rfl rfl ahead

/-- A scan is on no line in front of its place. -/
theorem Scan.OnLine.le_line (onLine : scan.OnLine before text rest) :
    lineBehind before ≤ scan.line.toNat := by
  -- Only the line of a token counts line feeds of its own.
  cases onLine with
  | token _ counted => exact counted ▸ lineBehind_mono before text
  | unexpectedChar _ counted | unterminatedString _ counted | finish _ _ counted =>
    exact Nat.le_of_eq counted.symm

/-- A scan is on no line behind its place. -/
theorem Scan.OnLine.line_le (onLine : scan.OnLine before text rest) :
    scan.line.toNat ≤ lineBehind (before ++ text) := by
  -- All others are on the line on which they start.
  cases onLine with
  | token _ counted => exact Nat.le_of_eq counted
  | unexpectedChar _ counted | unterminatedString _ counted | finish _ _ counted =>
    exact counted ▸ lineBehind_mono before text

end OnLine

/-- The part of a text that a span covers is on the right line. -/
def Span.Counts (whole before : List Char) (span : Span) : Prop :=
  ∃ gap text after, whole = gap ++ (text ++ after) ∧
    utf8Len (before ++ gap) = span.first ∧ utf8Len (before ++ gap ++ text) = span.last ∧
    span.scan.OnLine (before ++ gap) text after

/-- From a position on the right line on, all spans are on the right lines. -/
theorem counts_spansFrom (line : UInt32) (whole : List Char) :
    ∀ before, line = 1 + lineFeeds before → (before ++ whole).count '\n' < 2 ^ 32 - 1 →
      ∀ span ∈ Scanner.spansFrom ⟨whole, line⟩ (utf8Len before), span.Counts whole before := by
  induction line, whole using takes_induction with
  | @finish line gap filled =>
    intro before right few span mem
    have takes : Takes line gap [] [] _ := .finish filled
    rw [Scanner.spansFrom_finish filled, List.mem_singleton] at mem
    subst mem
    refine ⟨gap, [], [], by simp, by simp, by simp, takes.onLine right (by simpa using few)⟩
  | @step line gap text rest scan takes unfinished ih =>
    intro before right few span mem
    rw [takes.spansFrom_step unfinished] at mem
    rcases List.mem_cons.1 mem with rfl | later
    · exact ⟨gap, text, rest, rfl, by simp, by simp [Nat.add_assoc], takes.onLine right few⟩
    · -- What has been read by then counts for the later spans.
      have onward := line_onward right (gap ++ text)
      obtain ⟨next, taken, after, rfl, first, last, onLine⟩ :=
        ih _ onward (by simpa using few) span (by simpa [Nat.add_assoc] using later)
      exact ⟨gap ++ (text ++ next), taken, after, by simp, by simpa using first,
        by simpa using last, by simpa using onLine⟩

/-- From a position on the right line on, no span is on an earlier line than one before it. -/
theorem pairwise_line_spansFrom (line : UInt32) (whole : List Char) :
    ∀ before, line = 1 + lineFeeds before → (before ++ whole).count '\n' < 2 ^ 32 - 1 →
      (Scanner.spansFrom ⟨whole, line⟩ (utf8Len before)).Pairwise
        fun span later => span.scan.line ≤ later.scan.line := by
  induction line, whole using takes_induction with
  | finish filled =>
    intro before right few
    rw [Scanner.spansFrom_finish filled]
    exact List.pairwise_singleton _ _
  | @step line gap text rest scan takes unfinished ih =>
    intro before right few
    have onward := line_onward right (gap ++ text)
    have room : (before ++ (gap ++ text) ++ rest).count '\n' < 2 ^ 32 - 1 := by simpa using few
    have size : utf8Len before + utf8Len gap + utf8Len text = utf8Len (before ++ (gap ++ text)) := by
      simp [Nat.add_assoc]
    rw [takes.spansFrom_step unfinished, size]
    refine .cons (fun later mem => ?_) (ih _ onward room)
    -- This one ends in front of the gap before the later one.
    obtain ⟨next, taken, after, _, _, _, onLine⟩ := counts_spansFrom _ _ _ onward room later mem
    refine UInt32.le_iff_toNat_le.2 ?_
    calc scan.line.toNat
        ≤ lineBehind (before ++ gap ++ text) := (takes.onLine right few).line_le
      _ = lineBehind (before ++ (gap ++ text)) := by rw [List.append_assoc]
      _ ≤ lineBehind (before ++ (gap ++ text) ++ next) := lineBehind_mono _ _
      _ ≤ later.scan.line.toNat := onLine.le_line

/--
The scans of a text stand on the lines of their places, as long as there is a word for each line.

A token is on the line where it ends, a fault on the line where it starts, and the end on the last
line, so that from one scan to the next the lines never decrease.
-/
theorem spans_on_lines {source : String} (few : source.toList.count '\n' < 2 ^ 32 - 1) :
    (spansOf source).map (·.scan) = scansOf source ∧
    (∀ span ∈ spansOf source, ∃ before text after, source.toList = before ++ (text ++ after) ∧
      utf8Len before = span.first ∧ utf8Len (before ++ text) = span.last ∧
      span.scan.OnLine before text after) ∧
    (scansOf source).Pairwise fun scan later => scan.line ≤ later.line := by
  -- The first line is the right one for the beginning of the text.
  have start : (1 : UInt32) = 1 + lineFeeds [] := rfl
  refine ⟨map_scan_spansOf source, fun span mem => ?_, ?_⟩
  · -- With nothing in front, the offsets are those of the text.
    obtain ⟨gap, text, after, split, counts⟩ := counts_spansFrom 1 source.toList [] start few span mem
    exact ⟨gap, text, after, split, counts⟩
  · -- The scans keep the order of their spans.
    rw [← map_scan_spansOf, List.pairwise_map]
    exact pairwise_line_spansFrom 1 source.toList [] start few

/-- A string that is closed is on the line of its last quote, and an open one on that of its first. -/
theorem spans_on_lines_strings :
    let source := "\"a\nb\" @\n\"c\n"
    source.toList.count '\n' < 2 ^ 32 - 1 ∧
      scansOf source = [.token ⟨.string, "\"a\nb\"", 2⟩, .fault ⟨.unexpectedChar '@', 2⟩,
        .fault ⟨.unterminatedString, 3⟩, .finish 4] ∧
      (∃ before text after, source.toList = before ++ (text ++ after) ∧ utf8Len before = 8 ∧
        Scan.OnLine before text after (.fault ⟨.unterminatedString, 3⟩)) ∧
      (scansOf source).Pairwise fun scan later => scan.line ≤ later.line := by
  intro source
  have few : source.toList.count '\n' < 2 ^ 32 - 1 := by decide
  obtain ⟨_, counts, ordered⟩ := spans_on_lines few
  -- The open string starts at the eighth byte.
  have unclosed : (⟨.fault ⟨.unterminatedString, 3⟩, 8, 11⟩ : Span) ∈ spansOf source := by
    decide +kernel
  obtain ⟨before, text, after, split, first, _, onLine⟩ := counts _ unclosed
  exact ⟨few, by decide +kernel, ⟨before, text, after, split, first, onLine⟩, ordered⟩

end ByteCalc
