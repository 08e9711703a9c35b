import ByteCalc.Proofs.Token.LineCount

/-! A line feed between two texts parts their scans, unless the first text ends inside a string. -/

namespace ByteCalc

/-- A line feed closes the last comment of some filler. -/
theorem Filler.lineFeed {isLast : Prop} {filler : List Char} (filled : Filler isLast filler) :
    Filler False (filler ++ ['\n']) := by
  induction filled with
  -- A line feed alone is white space.
  | nil => exact .blank (by decide) .nil
  | blank spacing _ ih => exact .blank spacing ih
  -- The comment is closed already, and the line feed comes at the end.
  | comment sameLine _ ih =>
    rw [List.cons_append, List.cons_append, List.append_assoc]
    exact .comment sameLine ih
  -- The line feed ends the comment.
  | openComment _ sameLine => exact .comment sameLine .nil

/-- A character that begins nothing is unexpected whatever comes behind it. -/
theorem Lexeme.read_unexpected {char : Char} {rest text after : List Char}
    (found : read char rest = ⟨.error (.unexpectedChar char), text, after⟩) (other : List Char) :
    read char other = ⟨.error (.unexpectedChar char), [char], other⟩ := by
  unfold read at found ⊢
  -- Of all the cases of the first character, only the last one leads to this fault.
  split at found
  · -- A symbol that was named is never unexpected.
    unfold symbol at found
    split at found <;> cases found
  split at found
  · -- An open string is another fault.
    unfold string at found
    split at found <;> cases found
  split at found
  · -- A digit begins a number.
    unfold number at found
    simp only at found
    split at found
    · split at found <;> cases found
    · cases found
  split at found
  · -- A letter begins a word.
    cases found
  next noQuote noDigit noLetter => simp only [if_neg noQuote, if_neg noDigit, if_neg noLetter]

section Takes

variable {line : UInt32} {gap text rest parted : List Char} {scan : Scan}

/-- White space behind a token or an unexpected character leaves that as it is. -/
theorem Takes.spaced_of_closed (takes : Takes line gap text rest scan)
    (unfinished : scan.isFinish = false)
    (closed : ∀ start, scan ≠ .fault ⟨.unterminatedString, start⟩)
    (apart : Spaced rest parted) : Takes line gap text parted scan := by
  cases takes with
  -- A token ends where white space begins.
  | token inner stands found => exact (Takes.token inner stands found).spaced apart
  | fault inner stands found =>
    rcases Lexeme.read_eq_error found with ⟨rfl, single⟩ | ⟨rfl, _⟩
    · -- The character alone was read, and it is read alone again.
      obtain rfl := (List.cons.inj single).2
      exact .fault inner (stands.spaced apart) (Lexeme.read_unexpected found parted)
    · -- An open string would take in the white space.
      exact absurd rfl (closed _)
  | finish => cases unfinished

end Takes

/-- Behind a line feed, scanning starts again on the next line. -/
theorem scansAt_lineFeed (line : UInt32) (above : List Char) :
    ∀ below, (∀ start, .fault ⟨.unterminatedString, start⟩ ∉ scansAt line above) →
      ∃ front endLine, scansAt line above = front ++ [.finish endLine] ∧
        scansAt line (above ++ '\n' :: below) =
          front ++ scansAt (line + lineFeeds (above ++ ['\n'])) below := by
  induction line, above using takes_induction with
  | @finish line gap filled =>
    intro below _
    refine ⟨[], _, scansAt_finish filled, ?_⟩
    -- The line feed belongs to the gap in front of the first scan below.
    rw [List.append_cons, scansAt_filler filled.lineFeed, List.nil_append]
  | @step line gap text rest scan takes unfinished ih =>
    intro below closed
    rw [takes.scansAt unfinished] at closed ⊢
    -- What is said of all scans is said of the first one and of the others.
    have first : ∀ start, scan ≠ .fault ⟨.unterminatedString, start⟩ := fun start open' =>
      closed start (open' ▸ List.mem_cons_self)
    obtain ⟨front, endLine, scans, onward⟩ :=
      ih below fun start mem => closed start (List.mem_cons_of_mem _ mem)
    -- The line feed does not change what is taken in front of it.
    have apart : Spaced rest (rest ++ '\n' :: below) := by
      have spacing : isSpacing '\n' = true := by decide
      have spaced := spaced_append spacing rest [] below
      rwa [List.append_nil] at spaced
    have same : gap ++ (text ++ rest) ++ '\n' :: below =
        gap ++ (text ++ (rest ++ '\n' :: below)) := by simp only [List.append_assoc]
    refine ⟨scan :: front, endLine, by rw [scans, List.cons_append], ?_⟩
    rw [same, (takes.spaced_of_closed unfinished first apart).scansAt unfinished, onward,
      List.cons_append]
    simp only [lineFeeds_append, UInt32.add_assoc]

/-- The scan so many lines further down. -/
def Scan.below (lines : Nat) (scan : Scan) : Scan :=
  scan.atLine (scan.line + UInt32.ofNat lines)

/-- The scan stands as many lines further down. -/
theorem Scan.line_below (lines : Nat) (scan : Scan) :
    (scan.below lines).line = scan.line + UInt32.ofNat lines := by
  -- Each kind of scan has one line, which is the one that is moved.
  cases scan <;> rfl

/-- A text that starts further down has all of its scans further down. -/
theorem scansAt_below (lines : Nat) (line : UInt32) (text : List Char) :
    scansAt (line + UInt32.ofNat lines) text = (scansAt line text).map (·.below lines) := by
  -- All of the spans start behind the offset that scanning starts from.
  have moved := scansAt_shift (UInt32.ofNat lines) line text 0 0 fun span _ => Nat.zero_le _
  rw [moved, scansAt_eq_spansFrom line text 0, List.map_map]
  refine List.map_congr_left fun span _ => ?_
  rw [Span.moved, Span.movedLine, if_pos (Nat.zero_le _)]
  rfl

/-- No scan of a text is on a later line than the last one of the text. -/
theorem line_le_of_mem_scansOf {source : String} (few : source.toList.count '\n' < 2 ^ 32 - 1)
    {scan : Scan} (mem : scan ∈ scansOf source) : scan.line.toNat ≤ lineBehind source.toList := by
  -- Each scan is that of a span, and the span has a place in the text.
  rw [← map_scan_spansOf] at mem
  obtain ⟨span, spanned, rfl⟩ := List.mem_map.1 mem
  obtain ⟨gap, text, after, split, _, _, onLine⟩ :=
    counts_spansFrom 1 source.toList [] rfl few span spanned
  rw [split, ← List.append_assoc]
  exact Nat.le_trans onLine.line_le (lineBehind_mono _ after)

/--
Two texts with a line feed between them are scanned one after the other.

The scans of the text above are followed by those of the text below, which come so many lines
further down as there are above.
An open string in the text above would take in the line feed, so that there must not be one.
-/
theorem scans_lineBreak {above : String}
    (closed : ∀ line, .fault ⟨.unterminatedString, line⟩ ∉ scansOf above) (below : String) :
    let lines := 1 + above.toList.count '\n'
    ∃ front endLine, scansOf above = front ++ [.finish endLine] ∧
      scansOf (above ++ "\n" ++ below) = front ++ (scansOf below).map (·.below lines) ∧
      ((above ++ "\n" ++ below).toList.count '\n' < 2 ^ 32 - 1 →
        ∀ scan ∈ scansOf below, (scan.below lines).line.toNat = scan.line.toNat + lines) := by
  intro lines
  obtain ⟨front, endLine, scans, onward⟩ := scansAt_lineFeed 1 above.toList below.toList closed
  refine ⟨front, endLine, scans, ?_, fun few scan mem => ?_⟩
  · -- The first line below comes behind all lines above and the line feed.
    have joined : (above ++ "\n" ++ below).toList = above.toList ++ '\n' :: below.toList := by
      simp [String.toList_append]
    have feeds : lineFeeds (above.toList ++ ['\n']) = UInt32.ofNat lines := by
      rw [lineFeeds, List.count_append, Nat.add_comm]
      rfl
    rw [feeds, scansAt_below] at onward
    rw [scansOf, Scanner.start, joined]
    exact onward
  · -- The last line below is the last one of the whole, and there is a word for that.
    have size : (above ++ "\n" ++ below).toList.count '\n' = lines + below.toList.count '\n' := by
      simp only [String.toList_append, List.count_append, lines]
      have one : "\n".toList.count '\n' = 1 := rfl
      omega
    have bound := line_le_of_mem_scansOf (by omega) mem
    rw [lineBehind] at bound
    rw [Scan.line_below, UInt32.toNat_add, UInt32.toNat_ofNat']
    omega

/-- A quote in a comment is closed by the line feed, and a point behind a number stays a symbol. -/
theorem scans_lineBreak_comment :
    let above := "1.\n@ // \""
    let below := "5 \"x"
    (∀ line, .fault ⟨.unterminatedString, line⟩ ∉ scansOf above) ∧
      scansOf (above ++ "\n" ++ below) = [.token ⟨.number, "1", 1⟩, .token ⟨.dot, ".", 1⟩,
        .fault ⟨.unexpectedChar '@', 2⟩, .token ⟨.number, "5", 3⟩,
        .fault ⟨.unterminatedString, 3⟩, .finish 3] := by
  intro above below
  have scans : scansOf above = [.token ⟨.number, "1", 1⟩, .token ⟨.dot, ".", 1⟩,
      .fault ⟨.unexpectedChar '@', 2⟩] ++ [.finish 2] := by decide +kernel
  have later : scansOf below = [.token ⟨.number, "5", 1⟩, .fault ⟨.unterminatedString, 1⟩,
      .finish 1] := by decide +kernel
  have closed : ∀ line, .fault ⟨.unterminatedString, line⟩ ∉ scansOf above := by simp [scans]
  obtain ⟨front, endLine, split, joined, _⟩ := scans_lineBreak closed below
  -- The end above is dropped, and what is in front of it stays.
  obtain ⟨rfl, _⟩ := List.append_inj' (scans.symm.trans split) rfl
  refine ⟨closed, joined.trans ?_⟩
  rw [later]
  decide +kernel

end ByteCalc
