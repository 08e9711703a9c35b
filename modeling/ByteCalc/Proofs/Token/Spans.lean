import Mathlib.Data.List.TakeWhile
import Mathlib.Data.String.Basic
import ByteCalc.Proofs.Token.Filler
import ByteCalc.Proofs.Token.Scans

/-! The spans of a text that the scans cover, which leave nothing but filler between them. -/

namespace ByteCalc

open String (utf8Len)

/-- What a scan takes off a text: filler, and then a lexeme or nothing at all. -/
inductive Takes (line : UInt32) : (gap text rest : List Char) → Scan → Prop where
  /-- A token stands on the line where it ends. -/
  | token {gap tail rest : List Char} {char : Char} {kind : TokenKind} (closed : Filler False gap)
      (stands : Stands (char :: (tail ++ rest)))
      (found : Lexeme.read char (tail ++ rest) = ⟨.ok kind, char :: tail, rest⟩) :
      Takes line gap (char :: tail) rest
        (.token ⟨kind, String.ofList (char :: tail), line + lineFeeds (gap ++ char :: tail)⟩)
  /-- A fault stands on the line where it starts. -/
  | fault {gap tail rest : List Char} {char : Char} {fault : CompileFault}
      (closed : Filler False gap) (stands : Stands (char :: (tail ++ rest)))
      (found : Lexeme.read char (tail ++ rest) = ⟨.error fault, char :: tail, rest⟩) :
      Takes line gap (char :: tail) rest (.fault ⟨fault, line + lineFeeds gap⟩)
  /-- The end comes behind filler, of which the last comment may be open. -/
  | finish {gap : List Char} (filled : Filler True gap) :
      Takes line gap [] [] (.finish (line + lineFeeds gap))

section Takes

variable {line : UInt32} {gap text rest : List Char} {scan : Scan}

-- The characters in front of a lexeme are those of the gap, and so are the line feeds.
/-- In front of a lexeme or of the end, the scanner skips the gap. -/
theorem Takes.skip (takes : Takes line gap text rest scan) :
    Scanner.skip false line (gap ++ (text ++ rest)) = ⟨text ++ rest, line + lineFeeds gap⟩ := by
  -- The gap is all that is skipped, as what comes behind it stands for itself.
  cases takes with
  | token closed stands | fault closed stands =>
    rw [Scanner.skip_closed closed]
    exact Scanner.skip_stands stands
  | finish filled => exact Scanner.skip_filler (filled.mono fun _ => rfl)

/-- The scanner takes what can be taken. -/
theorem Takes.next (takes : Takes line gap text rest scan) :
    Scanner.next ⟨gap ++ (text ++ rest), line⟩ =
      (scan, ⟨rest, line + lineFeeds (gap ++ text)⟩) := by
  -- A scan skips the gap and reads what is behind it.
  have skipped := takes.skip
  rw [Scanner.next, skipped, lineFeeds_append]
  cases takes with
  | token closed stands found | fault closed stands found =>
    simp only [List.cons_append, found, lineFeeds_append, ← UInt32.add_assoc]
    rfl
  | finish filled => simp

/-- Whatever the scanner takes can be taken. -/
theorem exists_takes (line : UInt32) (whole : List Char) :
    ∃ gap text rest scan, whole = gap ++ (text ++ rest) ∧ Takes line gap text rest scan := by
  obtain ⟨gap, standing, rfl, filled, stands⟩ := exists_gap whole
  cases standing with
  | nil => exact ⟨gap, [], [], _, rfl, .finish (filled.mono fun _ => trivial)⟩
  | cons char behind =>
    have closed : Filler False gap := filled.mono fun none => nomatch none
    have whole := Lexeme.read_text_append_rest char behind
    cases read : Lexeme.read char behind with
    | mk found text rest =>
      -- The text of a lexeme begins with the character it was read at.
      simp only [read] at whole
      obtain ⟨tail, rfl, rfl⟩ : ∃ tail, text = char :: tail ∧ behind = tail ++ rest := by
        have nonempty := Lexeme.read_text_ne_nil char behind
        simp only [read] at nonempty
        obtain ⟨first, tail, rfl⟩ := List.exists_cons_of_ne_nil nonempty
        obtain ⟨rfl, split⟩ := List.cons.inj whole
        exact ⟨tail, rfl, split.symm⟩
      cases found with
      | ok kind => exact ⟨gap, char :: tail, rest, _, rfl, .token closed stands read⟩
      | error fault => exact ⟨gap, char :: tail, rest, _, rfl, .fault closed stands read⟩

/-- Only the end takes up nothing. -/
theorem Takes.text_ne_nil (takes : Takes line gap text rest scan)
    (unfinished : scan.isFinish = false) : text ≠ [] := by
  -- Tokens and faults begin with the character they are found at.
  cases takes with
  | token | fault => exact List.cons_ne_nil _ _
  | finish => cases unfinished

end Takes

/-- A scan, with the byte offsets between which its characters stand. -/
structure Span where
  /-- What was scanned. -/
  scan : Scan
  /-- The offset of the first byte. -/
  first : Nat
  /-- The offset behind the last byte. -/
  last : Nat
deriving DecidableEq, Repr

/-- The spans of all scans up to the end, from a position at a byte offset on. -/
def Scanner.spansFrom (scanner : Scanner) (offset : Nat) : List Span :=
  -- Offsets tell how many bytes have been taken off the text.
  let result := scanner.next
  let standing := skip false scanner.line scanner.rest
  let first := offset + (utf8Len scanner.rest - utf8Len standing.rest)
  let last := offset + (utf8Len scanner.rest - utf8Len result.2.rest)
  if ended : result.1.isFinish then [⟨result.1, first, last⟩]
  else
    have := next_rest_length ended
    ⟨result.1, first, last⟩ :: result.2.spansFrom last
termination_by scanner.rest.length

/-- The spans of all scans of a source text. -/
def spansOf (source : String) : List Span :=
  (Scanner.start source).spansFrom 0

section Spans

variable {line : UInt32} {gap text rest : List Char} {scan : Scan}

/-- In front of the end, one scan finds the end. -/
theorem Scanner.next_finish (filled : Filler True gap) :
    Scanner.next ⟨gap, line⟩ = (.finish (line + lineFeeds gap), ⟨[], line + lineFeeds gap⟩) := by
  simpa using (Takes.finish filled).next

/-- In front of the end, one span is left, and it is empty. -/
theorem Scanner.spansFrom_finish (filled : Filler True gap) (offset : Nat) :
    Scanner.spansFrom ⟨gap, line⟩ offset =
      [⟨.finish (line + lineFeeds gap), offset + utf8Len gap, offset + utf8Len gap⟩] := by
  -- The scan skips the filler and finds nothing behind it.
  have next : Scanner.next ⟨gap, line⟩ = _ := next_finish filled
  have skipped : skip false line gap = ⟨[], line + lineFeeds gap⟩ := by
    simpa using (Takes.finish filled).skip
  have ended : (Scanner.next ⟨gap, line⟩).1.isFinish := by
    rw [next]
    rfl
  rw [spansFrom, dif_pos ended]
  simp only [next, skipped, String.utf8Len_nil, Nat.sub_zero]

/-- The span of a lexeme is followed by the spans of what is behind the lexeme. -/
theorem Takes.spansFrom_step (takes : Takes line gap text rest scan)
    (unfinished : scan.isFinish = false) (offset : Nat) :
    Scanner.spansFrom ⟨gap ++ (text ++ rest), line⟩ offset =
      ⟨scan, offset + utf8Len gap, offset + utf8Len gap + utf8Len text⟩ ::
        Scanner.spansFrom ⟨rest, line + lineFeeds (gap ++ text)⟩
          (offset + utf8Len gap + utf8Len text) := by
  have goesOn : ¬ (Scanner.next ⟨gap ++ (text ++ rest), line⟩).1.isFinish := by
    rw [takes.next]
    simp [unfinished]
  -- What is left behind the gap and behind the lexeme tells the sizes of both.
  have first : utf8Len (gap ++ (text ++ rest)) - utf8Len (text ++ rest) = utf8Len gap := by
    simp only [String.utf8Len_append]
    omega
  have last : utf8Len (gap ++ (text ++ rest)) - utf8Len rest = utf8Len gap + utf8Len text := by
    simp only [String.utf8Len_append]
    omega
  rw [Scanner.spansFrom, dif_neg goesOn]
  simp only [takes.next, takes.skip, first, last, Nat.add_assoc]

end Spans

/-- What holds of every text with one scan left, and goes back over a scan, holds of every text. -/
theorem takes_induction {motive : UInt32 → List Char → Prop}
    (finish : ∀ {line gap}, Filler True gap → motive line gap)
    (step : ∀ {line gap text rest scan}, Takes line gap text rest scan → scan.isFinish = false →
      motive (line + lineFeeds (gap ++ text)) rest → motive line (gap ++ (text ++ rest)))
    (line : UInt32) (whole : List Char) : motive line whole := by
  -- A scan that is not the last one leaves a shorter text.
  induction size : whole.length using Nat.strongRecOn generalizing line whole
  rename_i ih
  subst size
  obtain ⟨gap, text, rest, scan, rfl, takes⟩ := exists_takes line whole
  cases ended : scan.isFinish with
  | true =>
    cases takes with
    | token | fault => cases ended
    | finish filled => simpa using finish filled
  | false =>
    refine step takes ended (ih rest.length ?_ _ _ rfl)
    have := List.length_pos_iff.2 (takes.text_ne_nil ended)
    simp only [List.length_append]
    omega

/-- The scans are those of the spans, after the ones that were made before. -/
theorem scansFrom_eq_spansFrom (line : UInt32) (whole : List Char) :
    ∀ offset made, (Scanner.scansFrom ⟨whole, line⟩ made).1.toList =
      made.toList ++ (Scanner.spansFrom ⟨whole, line⟩ offset).map (·.scan) := by
  -- The scanner pushes one scan for each span.
  induction line, whole using takes_induction with
  | finish filled =>
    intro offset made
    rw [Scanner.scansFrom_finish made (Scanner.next_finish filled),
      Scanner.spansFrom_finish filled, Array.toList_push]
    rfl
  | step takes unfinished ih =>
    intro offset made
    rw [Scanner.scansFrom_step made takes.next unfinished, takes.spansFrom_step unfinished, ih,
      Array.toList_push, List.append_assoc]
    rfl

/-- The spans leave out no scan of a text and add none. -/
theorem map_scan_spansOf (source : String) : (spansOf source).map (·.scan) = scansOf source := by
  -- The spans may be counted from any offset, and these are counted from zero.
  have scans := scansFrom_eq_spansFrom 1 source.toList 0 #[]
  rw [List.nil_append] at scans
  exact scans.symm

/-- A text stands in another one between two byte offsets, both of them between characters. -/
def Slice (source : String) (first last : Nat) (text : String) : Prop :=
  ∃ before after : String, source = before ++ text ++ after ∧
    before.utf8ByteSize = first ∧ (before ++ text).utf8ByteSize = last

/-- The characters that a token or a fault is made of. -/
inductive Scan.Covers : Scan → List Char → Prop where
  /-- A token is its lexeme. -/
  | token (token : Token) : Covers (.token token) token.lexeme.toList
  /-- A character that begins nothing is a fault by itself. -/
  | unexpectedChar (char : Char) (line : UInt32) :
      Covers (.fault ⟨.unexpectedChar char, line⟩) [char]
  /-- A string is at fault from its opening quote on, if no other quote follows. -/
  | unterminatedString {body : List Char} (unclosed : '"' ∉ body) (line : UInt32) :
      Covers (.fault ⟨.unterminatedString, line⟩) ('"' :: body)

/-- Some spans take up a source text from an offset to its end, apart from filler. -/
inductive Tiles (source : String) : Nat → List Span → Prop where
  /-- The end takes up nothing, behind filler of which the last comment may be open. -/
  | finish {offset : Nat} {line : UInt32} {gap : String}
      (skipped : Slice source offset source.utf8ByteSize gap) (filled : Filler True gap.toList) :
      Tiles source offset [⟨.finish line, source.utf8ByteSize, source.utf8ByteSize⟩]
  /-- Any other span takes up its characters, and leaves what is behind them to the others. -/
  | span {offset : Nat} {span : Span} {spans : List Span} {gap text : String}
      (skipped : Slice source offset span.first gap) (filled : Filler False gap.toList)
      (taken : Slice source span.first span.last text) (covers : span.scan.Covers text.toList)
      (onward : span.first < span.last)
      (unclosed : ∀ line, span.scan = .fault ⟨.unterminatedString, line⟩ →
        span.last = source.utf8ByteSize)
      (tiles : Tiles source span.last spans) : Tiles source offset (span :: spans)

/-- A lexeme at fault is a character that begins nothing, or the string at the end of the text. -/
theorem Lexeme.read_eq_error {char : Char} {rest text after : List Char} {fault : CompileFault}
    (found : read char rest = ⟨.error fault, text, after⟩) :
    fault = .unexpectedChar char ∧ text = [char] ∨
      fault = .unterminatedString ∧ char = '"' ∧ text = '"' :: rest ∧ after = [] ∧ '"' ∉ rest := by
  unfold read at found
  -- Symbols, numbers and words are never at fault.
  split at found
  · unfold symbol at found
    split at found <;> cases found
  split at found
  next quote =>
    subst quote
    unfold string at found
    split at found
    · cases found
    next none =>
      -- Everything is dropped, so that there is no other quote.
      cases found
      refine .inr ⟨rfl, rfl, rfl, rfl, fun mem => ?_⟩
      simpa using List.dropWhile_eq_nil_iff.1 none '"' mem
  split at found
  · unfold number at found
    simp only at found
    split at found
    · split at found <;> cases found
    · cases found
  split at found
  · cases found
  · cases found
    exact .inl ⟨rfl, rfl⟩

section Tiles

variable {line : UInt32} {gap text rest : List Char} {scan : Scan}

/-- What is taken is covered by its scan. -/
theorem Takes.covers (takes : Takes line gap text rest scan) (unfinished : scan.isFinish = false) :
    scan.Covers text := by
  -- A token covers its lexeme, and a fault what could not be read.
  cases takes with
  | token => simpa using Scan.Covers.token ⟨_, String.ofList (_ :: _), _⟩
  | fault closed stands found =>
    rcases Lexeme.read_eq_error found with ⟨rfl, single⟩ | ⟨rfl, rfl, whole, _, unclosed⟩
    · -- The fault is a character by itself.
      rw [single]
      exact .unexpectedChar _ _
    · -- The fault is a string up to the end.
      rw [whole]
      exact .unterminatedString unclosed _
  | finish => cases unfinished

/-- Nothing is left behind an open string. -/
theorem Takes.rest_of_unterminated (takes : Takes line gap text rest scan) {start : UInt32}
    (unclosed : scan = .fault ⟨.unterminatedString, start⟩) : rest = [] := by
  -- An open string has taken everything up to the end.
  cases takes with
  | fault closed stands found =>
    cases unclosed
    rcases Lexeme.read_eq_error found with ⟨impossible, _⟩ | ⟨_, _, _, none, _⟩
    · -- A character that is at fault by itself is not a string.
      cases impossible
    · exact none
  | token | finish => cases unclosed

/-- The filler in front of a lexeme is closed. -/
theorem Takes.closed (takes : Takes line gap text rest scan) (unfinished : scan.isFinish = false) :
    Filler False gap := by
  -- Only in front of the end may a comment be left open.
  cases takes with
  | token closed | fault closed => exact closed
  | finish => cases unfinished

/-- The characters between two parts of a text stand between the offsets of these parts. -/
theorem slice_of_split {source : String} {before after : List Char}
    (split : source.toList = before ++ (text ++ after)) :
    Slice source (utf8Len before) (utf8Len before + utf8Len text) (String.ofList text) := by
  -- The offsets count the bytes of the characters in front.
  refine ⟨String.ofList before, String.ofList after, ?_, String.utf8ByteSize_ofList before, ?_⟩
  · -- The three parts are put together again.
    rw [← String.ofList_append, ← String.ofList_append, List.append_assoc, ← split,
      String.ofList_toList]
  · -- The bytes of both parts in front are counted.
    rw [← String.ofList_append, String.utf8ByteSize_ofList, String.utf8Len_append]

/-- Behind the part of a text that has been read, the spans take up all of the rest. -/
theorem tiles_spansFrom (source : String) (line : UInt32) (whole : List Char) :
    ∀ before, source.toList = before ++ whole →
      Tiles source (utf8Len before) (Scanner.spansFrom ⟨whole, line⟩ (utf8Len before)) := by
  -- Each scan adds its gap and its characters to what has been read.
  induction line, whole using takes_induction with
  | @finish line gap filled =>
    -- All that is left is filler, up to the size of the whole.
    intro before split
    have size : utf8Len before + utf8Len gap = source.utf8ByteSize := by
      rw [← String.utf8Len_append, ← split, String.utf8Len_toList]
    have behind : source.toList = before ++ (gap ++ []) := by rwa [List.append_nil]
    have skipped := slice_of_split behind
    rw [Scanner.spansFrom_finish filled, size]
    rw [size] at skipped
    exact .finish skipped (by simpa using filled)
  | @step line gap text rest scan takes unfinished ih =>
    -- The text is read up to the gap, up to the lexeme, and up to what is behind it.
    intro before split
    have behind : source.toList = (before ++ gap) ++ (text ++ rest) := by simpa using split
    have later : source.toList = (before ++ gap ++ text) ++ rest := by simpa using split
    have tiles := ih _ later
    -- The gap and the characters are slices between the sizes of what is in front of each.
    have skipped := slice_of_split split
    have taken := slice_of_split behind
    simp only [String.utf8Len_append] at tiles skipped taken
    rw [takes.spansFrom_step unfinished]
    refine .span skipped (by simpa using takes.closed unfinished) taken
      (by simpa using takes.covers unfinished) ?_ (fun start unclosed => ?_) tiles
    · -- A lexeme has a character, and each character has a byte.
      have positive : utf8Len text ≠ 0 := fun none =>
        takes.text_ne_nil unfinished (String.utf8Len_eq_zero.1 none)
      simp only
      omega
    · -- Behind an open string there is nothing, so it ends where the text ends.
      rw [← String.utf8Len_toList, later, takes.rest_of_unterminated unclosed, List.append_nil,
        String.utf8Len_append, String.utf8Len_append]

/-- The last span is that of the end, and takes up nothing. -/
theorem Tiles.getLast? {source : String} {offset : Nat} {spans : List Span}
    (tiles : Tiles source offset spans) :
    ∃ line, spans.getLast? = some ⟨.finish line, source.utf8ByteSize, source.utf8ByteSize⟩ := by
  -- Whatever comes before it, the end is the last one.
  induction tiles with
  | @finish _ line => exact ⟨line, rfl⟩
  | span _ _ _ _ _ _ _ ih =>
    obtain ⟨line, last⟩ := ih
    exact ⟨line, by rw [List.getLast?_cons, last]; rfl⟩

/-- The spans of a whole text take up all of it. -/
theorem tiles_spansOf (source : String) : Tiles source 0 (spansOf source) :=
  tiles_spansFrom source 1 source.toList [] rfl

end Tiles

/-- There are no more scans than characters, apart from that of the end. -/
theorem length_spansFrom_le (line : UInt32) (whole : List Char) :
    ∀ offset, (Scanner.spansFrom ⟨whole, line⟩ offset).length ≤ whole.length + 1 := by
  -- Each span but the last one covers a character at least.
  induction line, whole using takes_induction with
  | finish filled =>
    intro offset
    rw [Scanner.spansFrom_finish filled]
    exact Nat.le_add_left 1 _
  | @step line gap text rest scan takes unfinished ih =>
    intro offset
    have := ih (offset + utf8Len gap + utf8Len text)
    have := List.length_pos_iff.2 (takes.text_ne_nil unfinished)
    rw [takes.spansFrom_step unfinished]
    simp only [List.length_cons, List.length_append]
    omega

/-- The position after so many scans, whatever they have met. -/
def Scanner.after (scanner : Scanner) : Nat → Scanner
  | 0 => scanner
  | count + 1 => scanner.next.2.after count

/-- At the end of a text, every scan meets the end on the same line. -/
theorem Scanner.next_after_end (line : UInt32) (count : Nat) :
    ((Scanner.mk [] line).after count).next.1 = .finish line := by
  -- A scan of nothing leaves the scanner as it is.
  induction count with
  | zero => rfl
  | succ count ih => exact ih

/-- Scan by scan, the scanner goes through the spans, and then meets the end again and again. -/
theorem next_after_eq_spansFrom (line : UInt32) (whole : List Char) :
    ∃ endLine, ∀ offset, let scans := (Scanner.spansFrom ⟨whole, line⟩ offset).map (·.scan)
      scans.getLast? = some (.finish endLine) ∧
        ∀ count, ((Scanner.mk whole line).after count).next.1 =
          scans.getD count (.finish endLine) := by
  -- A scanner that has come to the end stays there.
  induction line, whole using takes_induction with
  | @finish line gap filled =>
    refine ⟨line + lineFeeds gap, fun offset => ?_⟩
    rw [Scanner.spansFrom_finish filled]
    refine ⟨rfl, fun count => ?_⟩
    cases count with
    | zero => simp [Scanner.after, Scanner.next_finish filled]
    | succ count =>
      -- So is every other one, as there is nothing left to scan.
      simpa [Scanner.after, Scanner.next_finish filled] using Scanner.next_after_end _ count
  | @step line gap text rest scan takes unfinished ih =>
    obtain ⟨endLine, later⟩ := ih
    refine ⟨endLine, fun offset => ?_⟩
    obtain ⟨last, scans⟩ := later (offset + utf8Len gap + utf8Len text)
    rw [takes.spansFrom_step unfinished, List.map_cons]
    refine ⟨?_, fun count => ?_⟩
    · -- The end is the last scan of the rest already.
      rw [List.getLast?_cons, last]
      rfl
    · -- The first scan is that of the lexeme, and the others are those of the rest.
      cases count with
      | zero => simp [Scanner.after, takes.next]
      | succ count => simpa [Scanner.after, takes.next] using scans count

/--
The scans of a source text lose nothing of it, and take nothing twice.

Their spans follow each other from the start of the text to its end, on boundaries of characters,
and there is nothing but filler between them.
There are no more of them than characters and the end, which every later scan meets again.
-/
theorem scans_lossless (source : String) :
    (spansOf source).map (·.scan) = scansOf source ∧
    Tiles source 0 (spansOf source) ∧
    (scansOf source).length ≤ source.length + 1 ∧
    ∃ endLine, (scansOf source).getLast? = some (.finish endLine) ∧
      ∀ count, ((Scanner.start source).after count).next.1 =
        (scansOf source).getD count (.finish endLine) := by
  refine ⟨map_scan_spansOf source, tiles_spansOf source, ?_, ?_⟩
  · rw [← map_scan_spansOf, List.length_map]
    exact length_spansFrom_le 1 source.toList 0
  · obtain ⟨endLine, scans⟩ := next_after_eq_spansFrom 1 source.toList
    rw [← map_scan_spansOf]
    exact ⟨endLine, scans 0⟩

end ByteCalc
