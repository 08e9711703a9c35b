import ByteCalc.Proofs.Interpretation
import ByteCalc.Proofs.Number.Shortest
import ByteCalc.Proofs.Number.Spelling
import ByteCalc.Proofs.Token.Inset

/-! The text of a finite value is interpreted as the same value, and other texts are refused. -/

namespace ByteCalc

namespace Value

variable {value : Value}

/-- Whether the value is a number, and not infinite. -/
def isFinite (value : Value) : Bool :=
  value.magnitude < Binary64.infinity

/-- The magnitude of a finite value lies below that of infinity. -/
theorem magnitude_lt (finite : value.isFinite = true) : value.magnitude < Binary64.infinity :=
  of_decide_eq_true finite

/-- A finite value is a number. -/
theorem isNaN_of_isFinite (finite : value.isFinite = true) : value.isNaN = false :=
  decide_eq_false (Nat.not_lt_of_lt (magnitude_lt finite))

/-- A finite value is written as the shortest decimal of its magnitude. -/
theorem absText_of_isFinite (finite : value.isFinite = true) :
    value.absText = String.ofList (Decimal.shortest value.magnitude).toText :=
  if_neg (Nat.ne_of_lt (magnitude_lt finite))

/-- A number that is not finite is infinite. -/
theorem absText_eq_inf (infinite : value.isFinite = false) (number : value.isNaN = false) :
    value.absText = "inf" := by
  -- Neither above nor below infinity, the magnitude is infinity.
  have high : ¬ value.magnitude < Binary64.infinity := of_decide_eq_false infinite
  have low : ¬ Binary64.infinity < value.magnitude := of_decide_eq_false number
  exact if_pos (Nat.le_antisymm (Nat.le_of_not_lt low) (Nat.le_of_not_lt high))

/-- The magnitude is the word without its highest bit. -/
theorem magnitude_eq (value : Value) : value.magnitude = value.bits.toNat % 2 ^ 63 := by
  -- The mask has all bits but that one.
  have mask : (0x7FFFFFFFFFFFFFFF : UInt64).toNat = 2 ^ 63 - 1 := rfl
  rw [magnitude, UInt64.toNat_and, mask, Nat.and_two_pow_sub_one_eq_mod]

/-- The sign is all that is left of a word if the other bits are shifted out of it. -/
theorem isNegative_iff : value.isNegative = true ↔ value.bits.toNat / 2 ^ 63 = 1 := by
  -- The shift leaves one bit of the word, which is a quotient.
  have one : (1 : UInt64).toNat = 1 := rfl
  have places : (63 : UInt64).toNat % 64 = 63 := rfl
  rw [isNegative, decide_eq_true_eq, ← UInt64.toNat_inj, UInt64.toNat_shiftRight, one, places,
    Nat.shiftRight_eq_div_pow]

/-- Without a sign, the magnitude is the word. -/
theorem ofNat_magnitude (positive : value.isNegative = false) :
    (⟨UInt64.ofNat value.magnitude⟩ : Value) = value := by
  -- If the highest bit were set, the value would be negative.
  have sign : ¬ value.bits.toNat / 2 ^ 63 = 1 := fun set => by
    rw [isNegative_iff.2 set] at positive
    cases positive
  have bounded := value.bits.toNat_lt
  rw [magnitude_eq, Nat.mod_eq_of_lt (by omega), UInt64.ofNat_toNat]

/-- With a sign, the magnitude is the word of the opposite value. -/
theorem negate_magnitude (negative : value.isNegative = true) :
    (⟨UInt64.ofNat value.magnitude⟩ : Value).negate = value := by
  obtain ⟨bits⟩ := value
  have sign : bits.toNat / 2 ^ 63 = 1 := isNegative_iff.1 negative
  have bounded := bits.toNat_lt
  have flipped : (0x8000000000000000 : UInt64).toNat = 2 ^ 63 := rfl
  have low : bits.toNat % 2 ^ 63 < 2 ^ 63 := Nat.mod_lt _ (by decide)
  -- The bits below the sign stay, and the sign is set.
  have whole : (bits.toNat % 2 ^ 63 ^^^ 2 ^ 63) / 2 ^ 63 = 1 := by
    rw [Nat.xor_div_two_pow, Nat.div_eq_of_lt low, Nat.div_self (by decide), Nat.zero_xor]
  have part : (bits.toNat % 2 ^ 63 ^^^ 2 ^ 63) % 2 ^ 63 = bits.toNat % 2 ^ 63 := by
    rw [Nat.xor_mod_two_pow, Nat.mod_mod, Nat.mod_self, Nat.xor_zero]
  have fits : bits.toNat % 2 ^ 63 % 2 ^ 64 = bits.toNat % 2 ^ 63 :=
    Nat.mod_eq_of_lt (Nat.lt_trans low (by decide))
  rw [negate, Value.mk.injEq, magnitude_eq, ← UInt64.toNat_inj, UInt64.toNat_xor,
    UInt64.toNat_ofNat', flipped, fits]
  omega

/-- The text of a magnitude is a literal for it. -/
theorem ofLiteral_absText (finite : value.isFinite = true) :
    ofLiteral value.absText = ⟨UInt64.ofNat value.magnitude⟩ := by
  -- The decimal reads back as the word it was found for.
  rw [absText_of_isFinite finite, ofLiteral, String.toList_ofList, Decimal.ofText_toText,
    Decimal.toWord_shortest (magnitude_lt finite)]

/-- The text of a magnitude is one token. -/
theorem lex_absText (finite : value.isFinite = true) :
    ∃ line, lex value.absText = ⟨[⟨.number, value.absText, line⟩], .ok line⟩ := by
  rw [absText_of_isFinite finite]
  -- A decimal has the form of a number token and begins with no filler.
  have form := Decimal.toText_form (Decimal.shortest value.magnitude)
  exact ⟨_, tokenize_eq_ok_iff.1 (form.tokenize (Decimal.toText_stands _))⟩

end Value

section Texts

variable {source : String} {tokens : List Token} {token : Token} {endLine : UInt32}

/-- A minus sign is scanned as a token on its own, whatever comes behind it. -/
theorem scansAt_minus (line : UInt32) (rest : List Char) :
    scansAt line ('-' :: rest) = .token ⟨.minus, "-", line⟩ :: scansAt line rest := by
  -- A minus sign joins no equals sign.
  have stands : Stands ('-' :: ([] ++ rest)) := by
    rintro char first
    cases first
    exact ⟨rfl, fun slash => absurd slash.1 (by decide)⟩
  have takes : Takes line [] ['-'] rest _ :=
    .token .nil stands (Lexeme.read_of_munch (.symbol rfl (.inl rfl)))
  have scans := takes.scansAt rfl
  have sameLine : line + lineFeeds ['-'] = line := UInt32.add_zero line
  simp only [List.nil_append, List.singleton_append, sameLine] at scans
  exact scans

/-- A minus sign in front of a text is one more token. -/
theorem lex_minus (lexed : lex source = ⟨tokens, .ok endLine⟩) :
    lex ("-" ++ source) = ⟨⟨.minus, "-", 1⟩ :: tokens, .ok endLine⟩ := by
  -- The rest of the text is scanned from the same line on.
  have scans : scansAt 1 source.toList = _ := scansOf_eq_tokens_iff.2 lexed
  have whole : ("-" ++ source).toList = '-' :: source.toList := String.toList_append
  refine scansOf_eq_tokens_iff.1 ?_
  rw [scansOf, Scanner.start, whole]
  exact (scansAt_minus 1 _).trans (congrArg _ scans)

/-- A literal behind a minus sign is interpreted as the opposite value. -/
theorem interpret_minus_number (lexed : lex source = ⟨[token], .ok endLine⟩)
    (number : token.kind = .number) :
    interpret ("-" ++ source) = .ok (Value.ofLiteral token.lexeme).negate :=
  interpret_sentence (lex_minus lexed) (.term (.factor (.negate rfl (.number number))))
    (by simp [Expression.nesting, maxNesting]) (by simp [Expression.literals, maxConstants])

/-- A part that begins with an operand without code is refused for that. -/
theorem Compile.partWithin_unsupported (room : Nat) (level : Level) (chunk : Chunk)
    (unsupported : token.kind.beginsUnsupported = true) :
    Compile.partWithin (.ok endLine) (room + 1) level (token :: tokens) chunk =
      .error ⟨.unsupported token.lexeme, token.line⟩ := by
  -- The three kinds that begin an operand with code are supported.
  have other (kind : TokenKind) (supported : kind.beginsUnsupported = false) :
      token.kind ≠ kind := by
    rintro rfl
    rw [unsupported] at supported
    cases supported
  obtain ⟨line, looked⟩ := Compile.nextLine_ok endLine tokens
  rw [Compile.partWithin_succ, Compile.operand_misplaced (other _ rfl) (other _ rfl) (other _ rfl),
    looked, Compile.misplaced, if_pos unsupported]
  rfl

/-- A text that begins with such an operand is refused for it. -/
theorem interpret_unsupported (lexed : lex source = ⟨token :: tokens, .ok endLine⟩)
    (unsupported : token.kind.beginsUnsupported = true) :
    interpret source = .error (.compile ⟨.unsupported token.lexeme, token.line⟩) := by
  -- The part is the whole text, and it is refused at its first token.
  have refused : compile source = .error ⟨.unsupported token.lexeme, token.line⟩ := by
    rw [Compile.compile_eq, lexed, maxNesting, Compile.partWithin_unsupported _ _ _ unsupported]
    rfl
  rw [interpret, refused]

/-- A sign is only compiled behind its operand, so that the operand is still the first to fail. -/
theorem interpret_minus_unsupported (lexed : lex source = ⟨token :: tokens, .ok endLine⟩)
    (unsupported : token.kind.beginsUnsupported = true) :
    interpret ("-" ++ source) = .error (.compile ⟨.unsupported token.lexeme, token.line⟩) := by
  -- The sign asks for an operand first, and that is refused.
  have refused : compile ("-" ++ source) = .error ⟨.unsupported token.lexeme, token.line⟩ := by
    rw [Compile.compile_eq, lex_minus lexed, maxNesting, Compile.partWithin_succ,
      Compile.operand_minus rfl, Compile.partWithin_unsupported _ _ _ unsupported]
    rfl
  rw [interpret, refused]

end Texts

/--
The text of a finite value is interpreted as that very value, and every other text is refused.

The sign is not part of a literal, so that negative zero comes back from the negation of zero.
-/
theorem interpret_toText (value : Value) :
    interpret value.toText =
      if value.isFinite then .ok value
      else .error (.compile ⟨.unsupported (if value.isNaN then "NaN" else "inf"), 1⟩) := by
  cases finite : value.isFinite with
  | true =>
    -- A finite value is written as a decimal, with or without a sign.
    obtain ⟨line, lexed⟩ := Value.lex_absText finite
    rw [if_pos rfl, Value.toText, Value.isNaN_of_isFinite finite, if_neg (by decide)]
    cases sign : value.isNegative with
    | false =>
      rw [if_neg (by decide), interpret_number lexed rfl, Value.ofLiteral_absText finite,
        Value.ofNat_magnitude sign]
    | true =>
      rw [if_pos rfl, interpret_minus_number lexed rfl, Value.ofLiteral_absText finite,
        Value.negate_magnitude sign]
  | false =>
    -- Both of the texts are names, and names are operands that have no code.
    rw [if_neg (by decide), Value.toText]
    cases number : value.isNaN with
    | true =>
      have lexed : lex "NaN" = ⟨[⟨.identifier, "NaN", 1⟩], .ok 1⟩ :=
        scansOf_eq_tokens_iff.1 (by decide +kernel)
      exact interpret_unsupported lexed rfl
    | false =>
      have lexed : lex "inf" = ⟨[⟨.identifier, "inf", 1⟩], .ok 1⟩ :=
        scansOf_eq_tokens_iff.1 (by decide +kernel)
      rw [if_neg (by decide), Value.absText_eq_inf finite number]
      cases value.isNegative with
      | true => exact interpret_minus_unsupported lexed rfl
      | false => exact interpret_unsupported lexed rfl

end ByteCalc
