import ByteCalc.Proofs.Token.Munch
import ByteCalc.Proofs.Token.Spans

/-! Filler that is put into a text at an edge of a lexeme changes only the lines behind it. -/

namespace ByteCalc

open String (utf8Len)

namespace Scan

/-- The line that a scan stands on. -/
def line : Scan → UInt32
  | .token read => read.line
  | .fault error => error.line
  | .finish line => line

/-- The scan on another line. -/
def atLine (line : UInt32) : Scan → Scan
  | .token read => .token { read with line := line }
  | .fault error => .fault { error with line := line }
  | .finish _ => .finish line

/-- A scan stands on its own line. -/
theorem atLine_line (scan : Scan) : scan.atLine scan.line = scan := by
  cases scan <;> rfl

/-- On another line, the end is still the end. -/
theorem isFinish_atLine (scan : Scan) (line : UInt32) :
    (scan.atLine line).isFinish = scan.isFinish := by
  cases scan <;> rfl

/-- What is neither a fault nor the end is a token. -/
theorem exists_token {scan : Scan} (unfinished : scan.isFinish = false)
    (noFault : ∀ error, scan ≠ .fault error) : ∃ token, scan = .token token := by
  -- Three kinds of scans are possible, and two of them are ruled out.
  cases scan with
  | token token => exact ⟨token, rfl⟩
  | fault error => exact absurd rfl (noFault error)
  | finish line => cases unfinished

end Scan

section Takes

variable {line : UInt32} {gap text rest parted filler : List Char} {scan : Scan} {token : Token}

/-- It does not matter which of two numbers is counted first from a line on. -/
private theorem add_swap (line first second : UInt32) :
    -- The sum is the same in any order, even where it wraps around.
    line + first + second = line + second + first := by
  rw [UInt32.add_assoc, UInt32.add_comm first, UInt32.add_assoc]

/-- The same characters are scanned alike on other lines. -/
theorem Takes.shift (takes : Takes line gap text rest scan) (shift : UInt32) :
    Takes (line + shift) gap text rest (scan.atLine (scan.line + shift)) := by
  -- What is taken does not depend on the line on which the scanner stands.
  cases takes with
  | token closed stands found =>
    simp only [Scan.atLine, Scan.line, add_swap line _ shift]
    exact .token closed stands found
  | fault closed stands found =>
    simp only [Scan.atLine, Scan.line, add_swap line _ shift]
    exact .fault closed stands found
  | finish filled =>
    simp only [Scan.atLine, Scan.line, add_swap line _ shift]
    exact .finish filled

/-- Filler in front of a gap belongs to the gap. -/
theorem Takes.prepend (takes : Takes (line + lineFeeds filler) gap text rest scan)
    (closed : Filler False filler) : Takes line (filler ++ gap) text rest scan := by
  -- The filler in front becomes a part of the gap, with its line feeds.
  cases takes with
  | token inner stands found =>
    rw [UInt32.add_assoc, ← lineFeeds_append, ← List.append_assoc]
    exact .token (closed.append inner) stands found
  | fault inner stands found =>
    rw [UInt32.add_assoc, ← lineFeeds_append]
    exact .fault (closed.append inner) stands found
  | finish filled =>
    rw [UInt32.add_assoc, ← lineFeeds_append]
    exact .finish (closed.append filled)

/-- Where a lexeme can begin, one can begin if white space is put behind its first character. -/
theorem Stands.spaced {char : Char} {tail : List Char} (stands : Stands (char :: (tail ++ rest)))
    (apart : Spaced rest parted) : Stands (char :: (tail ++ parted)) := by
  rintro other first
  cases first
  obtain ⟨visible, noComment⟩ := stands char rfl
  refine ⟨visible, fun ⟨slash, next⟩ => noComment ⟨slash, ?_⟩⟩
  -- Behind the first character, white space is no slash.
  cases tail with
  -- The next character of the lexeme is not touched.
  | cons => exact next
  | nil =>
    cases apart with
    | here spacing =>
      cases next
      cases spacing
    -- The next character of the text is that of the text before.
    | later => exact next

/-- White space behind a token leaves the token as it is. -/
theorem Takes.spaced (takes : Takes line gap text rest (.token token))
    (apart : Spaced rest parted) : Takes line gap text parted (.token token) := by
  cases takes with
  | token closed stands found =>
    -- It is still the longest lexeme that the text begins with.
    have munch := (Lexeme.munch_of_read found).spaced apart
    exact .token closed (stands.spaced apart) (Lexeme.read_of_munch munch)

end Takes

/-- All scans of a text that starts on a line. -/
def scansAt (line : UInt32) (text : List Char) : List Scan :=
  (Scanner.scans ⟨text, line⟩).1.toList

section Scans

variable {line : UInt32} {gap text rest filler : List Char} {scan : Scan}

/-- The scans may be read off the spans, from any offset. -/
theorem scansAt_eq_spansFrom (line : UInt32) (text : List Char) (offset : Nat) :
    scansAt line text = (Scanner.spansFrom ⟨text, line⟩ offset).map (·.scan) := by
  have scans := scansFrom_eq_spansFrom line text offset #[]
  rwa [List.nil_append] at scans

/-- In front of the end, there is one scan. -/
theorem scansAt_finish (filled : Filler True gap) :
    scansAt line gap = [.finish (line + lineFeeds gap)] := by
  rw [scansAt_eq_spansFrom line gap 0, Scanner.spansFrom_finish filled]
  rfl

/-- The scan of a lexeme is followed by the scans of what is behind it. -/
theorem Takes.scansAt (takes : Takes line gap text rest scan) (unfinished : scan.isFinish = false) :
    scansAt line (gap ++ (text ++ rest)) =
      scan :: ByteCalc.scansAt (line + lineFeeds (gap ++ text)) rest := by
  rw [scansAt_eq_spansFrom _ _ 0, takes.spansFrom_step unfinished, List.map_cons,
    ← scansAt_eq_spansFrom]

/-- Filler in front of a text moves the lines of all its scans. -/
theorem scansAt_filler (closed : Filler False filler) (whole : List Char) :
    scansAt line (filler ++ whole) = scansAt (line + lineFeeds filler) whole := by
  -- The filler belongs to the gap of the first scan, and the others do not see it.
  obtain ⟨gap, text, rest, scan, rfl, takes⟩ := exists_takes (line + lineFeeds filler) whole
  have longer := takes.prepend closed
  cases ended : scan.isFinish with
  | true =>
    cases takes with
    | token | fault => cases ended
    | finish filled =>
      -- Two runs of filler make one, and there is nothing else.
      simp only [List.append_nil]
      rw [scansAt_finish filled, scansAt_finish (closed.append filled), lineFeeds_append,
        UInt32.add_assoc]
  | false =>
    -- The first scan has the longer gap, and the rest starts on the same line as before.
    rw [takes.scansAt ended, ← List.append_assoc, longer.scansAt ended]
    simp only [List.append_assoc, lineFeeds_append, UInt32.add_assoc]

end Scans

namespace Span

/-- The line of a span behind so many more lines, if it does not start before an offset. -/
def movedLine (edge : Nat) (shift : UInt32) (span : Span) : UInt32 :=
  if edge ≤ span.first then span.scan.line + shift else span.scan.line

/-- The scan of a span on the line that it is moved to. -/
def moved (edge : Nat) (shift : UInt32) (span : Span) : Scan :=
  span.scan.atLine (span.movedLine edge shift)

end Span

section Edges

variable {line : UInt32} {filler : List Char}

/-- No span starts in front of the offset that the spans start from. -/
theorem le_of_mem_spansFrom (line : UInt32) (whole : List Char) :
    ∀ offset, ∀ span ∈ Scanner.spansFrom ⟨whole, line⟩ offset,
      offset ≤ span.first ∧ span.first ≤ span.last := by
  -- The first span starts behind the gap, and the others behind the first one.
  induction line, whole using takes_induction with
  | finish filled =>
    intro offset span mem
    rw [Scanner.spansFrom_finish filled] at mem
    obtain rfl := List.mem_singleton.1 mem
    exact ⟨Nat.le_add_right _ _, Nat.le_refl _⟩
  | @step line gap text rest scan takes unfinished ih =>
    intro offset span mem
    rw [takes.spansFrom_step unfinished] at mem
    rcases List.mem_cons.1 mem with rfl | later
    · exact ⟨Nat.le_add_right _ _, Nat.le_add_right _ _⟩
    · -- The others start where it ends, at the earliest.
      obtain ⟨low, order⟩ := ih _ span later
      exact ⟨by omega, order⟩

/-- On a later line, all spans are moved. -/
theorem scansAt_shift (shift : UInt32) (line : UInt32) (whole : List Char) :
    ∀ edge offset, (∀ span ∈ Scanner.spansFrom ⟨whole, line⟩ offset, edge ≤ span.first) →
      scansAt (line + shift) whole =
        (Scanner.spansFrom ⟨whole, line⟩ offset).map (·.moved edge shift) := by
  -- Every span counts as moved, as none of them starts in front of the edge.
  induction line, whole using takes_induction with
  | @finish line gap filled =>
    intro edge offset behind
    -- The only span is moved, as it starts at the edge or behind it.
    have finish : scansAt (line + shift) gap = _ := scansAt_finish filled
    rw [Scanner.spansFrom_finish filled] at behind ⊢
    rw [finish, List.map_singleton, Span.moved, Span.movedLine,
      if_pos (behind _ (List.mem_singleton_self _)), add_swap]
    rfl
  | @step line gap text rest scan takes unfinished ih =>
    intro edge offset behind
    -- The first scan is moved with its line, and the rest starts further down.
    have shifted := (takes.shift shift).scansAt (by rw [Scan.isFinish_atLine, unfinished])
    rw [takes.spansFrom_step unfinished] at behind ⊢
    obtain ⟨first, later⟩ := List.forall_mem_cons.1 behind
    rw [shifted, List.map_cons, Span.moved, Span.movedLine, if_pos first, add_swap, ih _ _ later]

/-- Filler behind a gap moves the lines as well as filler in front of it. -/
theorem scansAt_gap_filler {gap : List Char} (gapClosed : Filler False gap)
    (closed : Filler False filler) (line : UInt32) (whole : List Char) :
    scansAt line (gap ++ (filler ++ whole)) = scansAt (line + lineFeeds filler) (gap ++ whole) := by
  -- The line feeds of both are counted, in either order.
  rw [scansAt_filler gapClosed, scansAt_filler closed, scansAt_filler gapClosed, add_swap]

/-- Two cuts of the same text are ordered by their sizes. -/
theorem exists_between {front after before behind : List Char}
    (same : front ++ after = before ++ behind) (order : utf8Len before ≤ utf8Len front) :
    ∃ between, front = before ++ between ∧ behind = between ++ after := by
  rcases List.append_eq_append_iff.1 same with ⟨between, rfl, rfl⟩ | ⟨between, rfl, rfl⟩
  · -- The cut that is not behind the other one is the same.
    rw [String.utf8Len_append] at order
    have none : between = [] := String.utf8Len_eq_zero.1 (by omega)
    exact ⟨[], by simp [none], by simp [none]⟩
  · -- The other cut is further on by what is between the two.
    exact ⟨between, rfl, rfl⟩

/-- Two cuts at the same offset are one cut. -/
theorem eq_of_utf8Len_eq {front after before behind : List Char}
    (same : front ++ after = before ++ behind) (size : utf8Len front = utf8Len before) :
    front = before ∧ after = behind := by
  -- Between two places of the same offset there are no characters.
  obtain ⟨between, rfl, rfl⟩ := exists_between same (Nat.le_of_eq size.symm)
  rw [String.utf8Len_append] at size
  have none : between = [] := String.utf8Len_eq_zero.1 (by omega)
  exact ⟨by simp [none], by simp [none]⟩

/-- An edge that is not where the first lexeme starts stands behind that lexeme. -/
theorem Takes.le_of_edge {gap text rest : List Char} {scan : Scan} {offset size : Nat}
    (takes : Takes line gap text rest scan) (unfinished : scan.isFinish = false)
    (edge : ∃ span ∈ Scanner.spansFrom ⟨gap ++ (text ++ rest), line⟩ offset,
      offset + size = span.first ∨ offset + size = span.last)
    (notAtStart : size ≠ utf8Len gap) : utf8Len (gap ++ text) ≤ size := by
  -- The edge belongs to the first span or to one of the others.
  obtain ⟨span, mem, edge⟩ := edge
  rw [takes.spansFrom_step unfinished] at mem
  rw [String.utf8Len_append]
  rcases List.mem_cons.1 mem with rfl | later
  · -- The first span has its own edges, and the edge is not the first of them.
    simp only at edge
    omega
  · -- The other spans start where the first one ends, or later.
    have low := le_of_mem_spansFrom _ _ _ span later
    omega

/-- Filler that starts with white space moves what starts behind it, and leaves the rest alone. -/
theorem scansAt_inset (closed : Filler False filler) {blank : Char} {more : List Char}
    (starts : filler = blank :: more) (spacing : isSpacing blank = true) (line : UInt32)
    (whole : List Char) : ∀ front after offset, whole = front ++ after →
      (∀ span ∈ Scanner.spansFrom ⟨whole, line⟩ offset, ∀ error, span.scan ≠ .fault error) →
      (∃ span ∈ Scanner.spansFrom ⟨whole, line⟩ offset,
        offset + utf8Len front = span.first ∨ offset + utf8Len front = span.last) →
      scansAt line (front ++ (filler ++ after)) = (Scanner.spansFrom ⟨whole, line⟩ offset).map
        (·.moved (offset + utf8Len front) (lineFeeds filler)) := by
  induction line, whole using takes_induction with
  | @finish line gap filled =>
    intro front after offset split _ ⟨span, mem, edge⟩
    rw [Scanner.spansFrom_finish filled] at mem ⊢
    obtain rfl := List.mem_singleton.1 mem
    -- The only edge is the end, which stands behind all of the gap.
    have size : utf8Len front = utf8Len gap := by simpa using edge
    obtain ⟨rfl, rfl⟩ := eq_of_utf8Len_eq (by rw [← split, List.append_nil]) size
    rw [List.append_nil, scansAt_finish (filled.insert closed), List.map_singleton, Span.moved,
      Span.movedLine, if_pos (Nat.le_refl _), lineFeeds_append, ← UInt32.add_assoc]
    rfl
  | @step line gap text rest scan takes unfinished ih =>
    intro front after offset split clean ⟨span, mem, edge⟩
    have low := le_of_mem_spansFrom (line + lineFeeds (gap ++ text)) rest
      (offset + utf8Len gap + utf8Len text)
    by_cases atStart : utf8Len front = utf8Len gap
    · -- The lexeme is moved with everything behind it.
      obtain ⟨rfl, rfl⟩ := eq_of_utf8Len_eq split.symm atStart
      rw [scansAt_gap_filler (takes.closed unfinished) closed]
      refine scansAt_shift _ _ _ _ _ fun span mem => ?_
      rw [takes.spansFrom_step unfinished] at mem
      rcases List.mem_cons.1 mem with rfl | later
      · exact Nat.le_refl _
      · have := (low span later).1
        omega
    -- The lexeme stands in front of the edge, and the edge is at its end or in the rest.
    have order := takes.le_of_edge unfinished ⟨span, mem, edge⟩ atStart
    obtain ⟨between, rfl, rfl⟩ := exists_between (by rw [← split, List.append_assoc]) order
    rw [takes.spansFrom_step unfinished] at clean mem ⊢
    obtain ⟨noFault, laterClean⟩ := List.forall_mem_cons.1 clean
    obtain ⟨token, rfl⟩ := Scan.exists_token unfinished noFault
    have positive : utf8Len text ≠ 0 := fun none =>
      takes.text_ne_nil unfinished (String.utf8Len_eq_zero.1 none)
    have size : offset + utf8Len (gap ++ text ++ between) =
        offset + utf8Len gap + utf8Len text + utf8Len between := by
      simp only [String.utf8Len_append]
      omega
    -- The lexeme sees no more of the filler than the white space that it starts with.
    have apart : Spaced (between ++ after) (between ++ (filler ++ after)) := by
      rw [starts]
      exact spaced_append spacing between after _
    have parted := takes.spaced apart
    have same : gap ++ text ++ between ++ (filler ++ after) =
        gap ++ (text ++ (between ++ (filler ++ after))) := by simp only [List.append_assoc]
    rw [same, parted.scansAt unfinished, List.map_cons, size, Span.moved, Span.movedLine,
      if_neg (by simp only; omega), Scan.atLine_line]
    congr 1
    rcases List.mem_cons.1 mem with rfl | later
    · -- The edge is the end of the lexeme, so that all of the rest is moved.
      have none : between = [] := String.utf8Len_eq_zero.1 (by simp only at edge; omega)
      subst none
      rw [List.nil_append, List.nil_append, scansAt_filler closed]
      exact scansAt_shift _ _ _ _ _ fun span mem => by simpa using (low span mem).1
    · -- The edge is that of a later span, so that the rest is a shorter text with filler in it.
      exact ih _ _ _ rfl laterClean ⟨span, later, by rwa [size] at edge⟩

end Edges

/-- Filler that is put into a source text where one of its lexemes starts or ends. -/
structure Inset (source : String) where
  /-- The text in front of the filler. -/
  before : String
  /-- What is put into the text. -/
  filler : String
  /-- The text behind the filler. -/
  after : String
  /-- The two parts make up the source text. -/
  whole : source = before ++ after
  /-- They meet at the start or at the end of some span, which may be that of the end. -/
  edge : ∃ span ∈ spansOf source,
    before.utf8ByteSize = span.first ∨ before.utf8ByteSize = span.last
  /-- Every comment of the filler ends with a line feed. -/
  closed : Filler False filler.toList
  /-- The filler starts with white space. It ends with it too, since a comment does so. -/
  starts : ∃ blank more, filler.toList = blank :: more ∧ isSpacing blank = true

namespace Inset

variable {source : String}

/-- The source text with the filler in it. -/
def text (inset : Inset source) : String :=
  inset.before ++ inset.filler ++ inset.after

/-- The byte offset of the filler. -/
def offset (inset : Inset source) : Nat :=
  inset.before.utf8ByteSize

/-- The number of lines that the filler adds. -/
def shift (inset : Inset source) : UInt32 :=
  lineFeeds inset.filler.toList

/-- The line of a span of the source text in the text with the filler. -/
def line (inset : Inset source) (span : Span) : UInt32 :=
  span.movedLine inset.offset inset.shift

/-- The scans are the same, apart from the lines of those that start behind the filler. -/
theorem scansOf_text (inset : Inset source)
    (clean : ∀ span ∈ spansOf source, ∀ error, span.scan ≠ .fault error) :
    scansOf inset.text = (spansOf source).map (·.moved inset.offset inset.shift) := by
  -- The filler is put between the two parts, at the offset where they meet.
  obtain ⟨blank, more, starts, spacing⟩ := inset.starts
  have split : source.toList = inset.before.toList ++ inset.after.toList := by
    rw [← String.toList_append, ← inset.whole]
  have size : 0 + utf8Len inset.before.toList = inset.offset := by
    rw [Nat.zero_add, String.utf8Len_toList]
    rfl
  have scans := scansAt_inset inset.closed starts spacing 1 source.toList _ _ 0 split clean
    (by rw [size]; exact inset.edge)
  rw [size] at scans
  rw [← String.toList_append, ← String.toList_append, ← String.append_assoc] at scans
  exact scans

end Inset

end ByteCalc
