import Mathlib.Data.List.Forall2
import Mathlib.Data.List.TakeWhile
import ByteCalc.Proofs.Interpretation
import ByteCalc.Session

/-! Sessions: lines are answered one after the other, and nothing of one line reaches another. -/

namespace ByteCalc

namespace Output

/-- Standard output is joined with standard output. -/
@[simp] theorem out_append (first second : Output) :
    (first ++ second).out = first.out ++ second.out :=
  rfl

/-- The error channel is joined with the error channel. -/
@[simp] theorem err_append (first second : Output) :
    (first ++ second).err = first.err ++ second.err :=
  rfl

/-- Of three outputs, it does not matter which two are joined first. -/
theorem append_assoc (first second third : Output) :
    first ++ second ++ third = first ++ (second ++ third) := by
  -- Both channels are texts.
  change Output.mk _ _ = Output.mk _ _
  simp only [out_append, err_append, String.append_assoc]

end Output

namespace Session

/-- The listing in front of the answer to an expression, for those who ask for it. -/
def listingOf (options : Options) (chunk : Chunk) : String :=
  if options.disassemble then chunk.listing "code" else ""

/-- What a session answers to an expression on standard output. -/
inductive Answers (options : Options) (source : String) : String → Prop where
  /-- The value of the expression. -/
  | value {chunk : Chunk} {value : Value} (built : compile source = .ok chunk)
      (evaluated : interpret source = .ok value) :
      Answers options source (listingOf options chunk ++ (value.toText ++ "\n"))
  /-- The error that its run stops with. -/
  | stopped {chunk : Chunk} {error : RuntimeError} (built : compile source = .ok chunk)
      (stopped : interpret source = .error (.runtime error)) :
      Answers options source
        (listingOf options chunk ++ ((InterpretError.runtime error).message ++ "\n"))
  /-- The error that it is refused with, without a listing. -/
  | refused {error : CompileError} (refused : compile source = .error error) :
      Answers options source ((InterpretError.compile error).message ++ "\n")

/-- What a line of text shows on standard output, up to the next prompt. -/
inductive Shows (options : Options) (line : List UInt8) : String → Prop where
  /-- Blanks have no answer. -/
  | blank {text : String} (decoded : String.fromUTF8? ⟨line.toArray⟩ = some text)
      (blank : trimBlanks text = "") : Shows options line ""
  /-- Any other text is an expression once it is without the blanks around it. -/
  | answer {text shown : String} (decoded : String.fromUTF8? ⟨line.toArray⟩ = some text)
      (nonempty : trimBlanks text ≠ "") (goesOn : trimBlanks text ∉ ["quit", "exit"])
      (answers : Answers options (trimBlanks text) shown) : Shows options line shown

section Unique

variable {options : Options} {source first second : String} {line : List UInt8}

/-- An expression has one answer. -/
theorem Answers.unique (answers : Answers options source first)
    (also : Answers options source second) : first = second := by
  -- The source text is compiled in one way, and interpreted in one way.
  cases answers with
  | value built evaluated =>
    cases also with
    | value other again =>
      cases built.symm.trans other
      cases evaluated.symm.trans again
      rfl
    | stopped _ stopped => cases evaluated.symm.trans stopped
    | refused refused => cases built.symm.trans refused
  | stopped built stopped =>
    cases also with
    | value _ evaluated => cases stopped.symm.trans evaluated
    | stopped other again =>
      cases built.symm.trans other
      cases stopped.symm.trans again
      rfl
    | refused refused => cases built.symm.trans refused
  | refused refused =>
    cases also with
    | value built => cases refused.symm.trans built
    | stopped built => cases refused.symm.trans built
    | refused again =>
      cases refused.symm.trans again
      rfl

/-- A line shows one text. -/
theorem Shows.unique (shown : Shows options line first) (also : Shows options line second) :
    first = second := by
  -- The bytes of a line are decoded in one way, so that both are blank or neither is.
  cases shown with
  | blank decoded blank =>
    cases also with
    | blank => rfl
    | answer other nonempty =>
      cases decoded.symm.trans other
      exact absurd blank nonempty
  | answer decoded nonempty _ answers =>
    cases also with
    | blank other blank =>
      cases decoded.symm.trans other
      exact absurd blank nonempty
    | answer other _ _ again =>
      cases decoded.symm.trans other
      exact answers.unique again

end Unique

section Expressions

variable {options : Options} {source : String} {chunk : Chunk}

end Expressions

section Responses

variable {options : Options} {line : List UInt8} {text : String} {chunk : Chunk}

end Responses

section Lines

variable {line rest : List UInt8}

end Lines

end Session

end ByteCalc
