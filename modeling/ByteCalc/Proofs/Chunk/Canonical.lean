import Mathlib.Algebra.GroupWithZero.Nat
import Mathlib.Data.List.Chain
import ByteCalc.Proofs.Chunk.Edit
import ByteCalc.Proofs.Chunk.LineTable

/-! The line table of a chunk that is built by edits is the run-length encoding of their lines. -/

namespace ByteCalc

namespace LineRun

/-- No run is empty, and no two runs next to each other could be one. -/
structure Canonical (runs : List LineRun) : Prop where
  /-- Each run has a byte. -/
  filled : ∀ run ∈ runs, 1 ≤ run.length
  /-- Runs next to each other have different lines. -/
  apart : runs.IsChain fun run next => run.line ≠ next.line

/-- Without runs there is nothing to check. -/
theorem Canonical.nil : Canonical [] where
  filled := fun _ none => nomatch none
  apart := .nil

/-- A run can stand behind others if it has a byte, and not the line of the last of them. -/
theorem Canonical.concat {runs : List LineRun} {last : LineRun} (canonical : Canonical runs)
    (filled : 1 ≤ last.length) (apart : ∀ run ∈ runs.getLast?, run.line ≠ last.line) :
    Canonical (runs ++ [last]) where
  filled := by
    intro run mem
    rcases List.mem_append.1 mem with before | final
    · -- The runs in front have bytes as before.
      exact canonical.filled run before
    · -- The run behind them has a byte by assumption.
      exact List.mem_singleton.1 final ▸ filled
  apart := by
    -- The one new pair is that of the last run in front and the run behind it.
    refine List.isChain_append.2 ⟨canonical.apart, .singleton last, fun run before next first => ?_⟩
    cases first
    exact apart run before

/-- A canonical table stays canonical when it is extended. -/
theorem Canonical.extend {runs : Array LineRun} (canonical : Canonical runs.toList)
    (line : UInt32) : Canonical (LineRun.extend runs line).toList := by
  -- The line joins the last run, starts another one behind it, or is the first line at all.
  unfold LineRun.extend
  split
  next last final =>
    have whole : runs.toList = runs.pop.toList ++ [last] := by
      obtain ⟨_, built⟩ := Array.back?_eq_some_iff.1 final
      simp [built]
    split
    next same =>
      -- The last run is longer by one, and has the same line as before.
      rw [whole] at canonical
      obtain ⟨front, _, apart⟩ := List.isChain_append.1 canonical.apart
      have before : Canonical runs.pop.toList :=
        ⟨fun run mem => canonical.filled run (List.mem_append_left _ mem), front⟩
      -- The run in front of the last one has another line, and still has.
      rw [Array.toList_push]
      refine before.concat (Nat.succ_pos _) fun run mem => ?_
      exact same ▸ apart run mem last rfl
    next other =>
      -- The new run does not have the line of the last one.
      rw [Array.toList_push]
      refine canonical.concat (Nat.le_refl 1) fun run mem => ?_
      rw [whole, List.getLast?_concat] at mem
      cases mem
      exact other
  next none =>
    -- The table had no runs, so that the new one is alone.
    obtain rfl := Array.back?_eq_none_iff.1 none
    exact ⟨fun run mem => List.mem_singleton.1 mem ▸ Nat.le_refl 1, .singleton _⟩

/-- A canonical table stays canonical when it is extended by many lines. -/
theorem Canonical.foldl_extend {runs : Array LineRun} (canonical : Canonical runs.toList)
    (lines : List UInt32) : Canonical (lines.foldl LineRun.extend runs).toList := by
  -- Each line extends a table that is still canonical.
  induction lines generalizing runs with
  | nil => exact canonical
  | cons line lines ih => exact ih (canonical.extend line)

/-- A table that is extended by some lines covers bytes of just these lines behind its own. -/
theorem expand_foldl_extend (runs : Array LineRun) (lines : List UInt32) :
    expand (lines.foldl LineRun.extend runs).toList = expand runs.toList ++ lines := by
  -- The first line comes to stand in front of those that are added after it.
  induction lines generalizing runs with
  | nil => exact (List.append_nil _).symm
  | cons line lines ih =>
    rw [List.foldl_cons, ih, expand_extend, List.append_assoc, List.singleton_append]

/-- As many bytes are covered as the runs are long. -/
theorem length_expand (runs : List LineRun) : (expand runs).length = (runs.map length).sum := by
  simp [expand, List.length_flatMap]

end LineRun

namespace Chunk

/-- The bytes of a chunk that is built by edits have the lines that were passed with them. -/
theorem byteLines_edited (edits : List Edit) :
    (empty.edited edits).byteLines = empty.editLines edits := by
  -- The table of the empty chunk covers nothing.
  rw [byteLines, edited_lines]
  exact LineRun.expand_foldl_extend #[] _

/--
The line table of a chunk that is built by any edits is canonical, and covers the code.

It gives the line that was passed with a byte for that byte, and no line behind the code.
So two such chunks have the same table exactly if the same lines were passed with their bytes.
-/
theorem lines_canonical (edits : List Edit) :
    let chunk := empty.edited edits
    LineRun.Canonical chunk.lines.toList ∧
      (chunk.lines.toList.map LineRun.length).sum = chunk.code.size ∧
      (∀ offset, offset < chunk.code.size →
        ∃ line, (empty.editLines edits)[offset]? = some line ∧ chunk.line? offset = some line) ∧
      (∀ offset, chunk.code.size ≤ offset → chunk.line? offset = none) ∧
      ∀ others, chunk.lines = (empty.edited others).lines ↔
        empty.editLines edits = empty.editLines others := by
  intro chunk
  -- All of it follows from how the table is made from the lines, and read back as these lines.
  have size : chunk.code.size = (empty.editLines edits).length :=
    (edited_code_size empty edits).trans (Nat.zero_add _)
  have found (offset : Nat) : chunk.line? offset = (empty.editLines edits)[offset]? := by
    rw [line?_eq, byteLines_edited]
  refine ⟨?_, ?_, ?_, ?_, fun others => ⟨fun same => ?_, fun same => ?_⟩⟩
  · -- The empty table is canonical, and each line keeps it so.
    rw [edited_lines]
    exact LineRun.Canonical.nil.foldl_extend _
  · -- The runs are as long as the table covers bytes, and it covers each byte of the code once.
    rw [← LineRun.length_expand, size, ← byteLines_edited edits]
    rfl
  · -- Inside the code, the line is found in the list of those that were passed.
    intro offset inside
    have listed := List.getElem?_eq_getElem (size ▸ inside)
    exact ⟨_, listed, (found offset).trans listed⟩
  · -- Behind the code, that list has come to its end.
    intro offset outside
    rw [found, List.getElem?_eq_none (size ▸ outside)]
  · -- The lines are read back from the table.
    rw [← byteLines_edited edits, ← byteLines_edited others, byteLines, byteLines, same]
  · -- The table is made from nothing but the lines.
    rw [edited_lines, edited_lines, same]

/-- A line that comes back has a run of its own, and a load is part of one run. -/
theorem lines_canonical_restart :
    let edits : List Edit := [.writeConstant ⟨0⟩ 3, .writeOpcode .negate 3, .addConstant ⟨0⟩,
      .writeOpcode .negate 4, .writeOpcode .ret 3]
    (empty.edited edits).lines = #[⟨3, 3⟩, ⟨1, 4⟩, ⟨1, 3⟩] ∧
      (empty.edited edits).line? 2 = some 3 ∧ (empty.edited edits).line? 5 = none := by
  intro edits
  obtain ⟨_, _, inside, outside, _⟩ := lines_canonical edits
  obtain ⟨line, passed, found⟩ := inside 2 (by decide)
  cases passed
  exact ⟨rfl, found, outside 5 (by decide)⟩

end Chunk

end ByteCalc
