import ByteCalc.Proofs.Compile.Acceptance

/-! The compiler with a counter of its open levels, which goes back wherever a part succeeds. -/

namespace ByteCalc

namespace Compile

/-- What is counted while a text is compiled. -/
structure Tally where
  /-- The counter that is compared with the limit. -/
  depth : Nat := 0
  /-- The number of parts that have begun and have not come back. -/
  active : Nat := 0
  /-- The most parts that have been active at once. -/
  peak : Nat := 0
deriving DecidableEq, Repr

namespace Tally

/-- A part begins, and takes a level. -/
def enter (tally : Tally) : Tally :=
  ⟨tally.depth + 1, tally.active + 1, max tally.peak (tally.active + 1)⟩

/-- A part comes back with a result, and gives its level up. -/
def leave (tally : Tally) : Tally :=
  { tally with depth := tally.depth - 1, active := tally.active - 1 }

/-- A part comes back with an error, which leaves the counter as it is. -/
def abandon (tally : Tally) : Tally :=
  { tally with active := tally.active - 1 }

end Tally

/-- A computation that counts as it goes, up to its result or its error. -/
abbrev Counting := ExceptT CompileError (StateM Tally)

/-- The result of a computation, and what has been counted in the end. -/
def Counting.runFrom {α : Type} (counting : Counting α) (tally : Tally) :
    Except CompileError α × Tally :=
  Id.run (counting.run.run tally)

/-- Counts a part from its beginning to its return, unless the counter is at the limit. -/
def counted {α : Type} (refusal body : Counting α) : Counting α := do
  if maxNesting ≤ (← get).depth then refusal
  else
    modify Tally.enter
    -- The counter goes back behind a result only, and an error ends the compilation.
    match ← observing body with
    | .ok result =>
      modify Tally.leave
      return result
    | .error error =>
      modify Tally.abandon
      throw error

/-- Compiles the front of some tokens at a level, of which there are fewer than a bound. -/
abbrev CountedPart (bound : Nat) :=
  Level → (tokens : List Token) → tokens.length < bound → Chunk → Counting (Compiled tokens.length)

/-- What is left of the tokens behind a first one is shorter than all of them. -/
theorem shorter_behind (token : Token) {rest : List Token} (inside : Compiled rest.length) :
    inside.rest.length < (token :: rest).length :=
  Nat.lt_succ_of_lt inside.shorter

/-- Compiles an operand, and counts the part inside a grouping or a negation. -/
def countedOperand (ending : Except CompileError UInt32) {bound : Nat} (part : CountedPart bound)
    (tokens : List Token) (chunk : Chunk) (fits : tokens.length ≤ bound) :
    Counting (Compiled tokens.length) :=
  match tokens with
  | [] => operand ending (partWithin ending 0) [] chunk
  | token :: rest =>
    match token.kind with
    | .leftParen => do
      let _ ← nextLine ending rest
      let inside ← part .sum rest fits chunk
      closing ending inside.rest inside.chunk (shorter_behind token inside)
    | .minus => do
      let _ ← nextLine ending rest
      let negated ← part .unary rest fits chunk
      return ⟨negated.rest, negated.chunk.writeOpcode .negate token.line,
        shorter_behind token negated⟩
    -- Any other operand has no part inside, and is compiled without counting.
    | _ => operand ending (partWithin ending 0) (token :: rest) chunk

/-- Compiles the operators that continue a chain, and counts their right operands. -/
def countedChain (ending : Except CompileError UInt32) {bound : Nat} (part : CountedPart bound)
    (level : Level) (tokens : List Token) (chunk : Chunk) (short : tokens.length < bound) :
    Counting (Compiled bound) :=
  match tokens with
  | [] => return ⟨[], chunk, short⟩
  | token :: rest =>
    match token.kind.binaryOp? with
    | none => return ⟨token :: rest, chunk, short⟩
    | some op =>
      if level ≤ op.level then do
        let _ ← nextLine ending rest
        let right ← part op.rightLevel rest (Nat.lt_of_succ_lt short) chunk
        have := shorter_behind token right
        countedChain ending part level right.rest (right.chunk.writeOpcode (.binary op) token.line)
          (Nat.lt_trans this short)
      else return ⟨token :: rest, chunk, short⟩
termination_by tokens.length
decreasing_by exact this

/-- Compiles the front of some tokens at a level, and counts it as a part. -/
def countedPart (ending : Except CompileError UInt32) (level : Level) (tokens : List Token)
    (chunk : Chunk) : Counting (Compiled tokens.length) :=
  let inner : CountedPart tokens.length := fun level shorter _ chunk =>
    countedPart ending level shorter chunk
  let refusal : Counting (Compiled tokens.length) := do
    let line ← nextLine ending tokens
    throw ⟨.tooDeep, line⟩
  counted refusal do
    let left ← countedOperand ending inner tokens chunk (Nat.le_refl _)
    countedChain ending inner level left.rest left.chunk left.shorter
termination_by tokens.length

/-- Compiles a source text, and counts all of its parts. -/
def countedCompile (source : String) : Counting Chunk := do
  let lexed := lex source
  let _ ← nextLine lexed.ending lexed.tokens
  let whole ← countedPart lexed.ending .sum lexed.tokens .empty
  conclude lexed.ending whole

namespace Counting

variable {α β : Type}

/-- A sequence counts on from what its first step has counted. -/
theorem runFrom_bind (first : Counting α) (next : α → Counting β) (tally : Tally) :
    runFrom (first >>= next) tally =
      match runFrom first tally with
      | (.ok value, later) => runFrom (next value) later
      | (.error error, later) => (.error error, later) := by
  -- A step that fails is the end of the sequence.
  simp only [runFrom, ExceptT.run_bind, StateT.run_bind, Id.run_bind]
  rcases Id.run (first.run.run tally) with ⟨_ | _, later⟩ <;> rfl

/-- What an attempt has counted is kept, even if it fails. -/
theorem runFrom_tryCatch (attempt : Counting α) (handle : CompileError → Counting α)
    (tally : Tally) :
    runFrom (tryCatch attempt handle) tally =
      match runFrom attempt tally with
      | (.ok value, later) => (.ok value, later)
      | (.error error, later) => runFrom (handle error) later := by
  -- The attempt and the handler count on the same tally.
  simp only [runFrom, tryCatch, tryCatchThe, MonadExceptOf.tryCatch, ExceptT.tryCatch, ExceptT.run,
    ExceptT.mk, StateT.run_bind, Id.run_bind]
  rcases Id.run (StateT.run attempt tally) with ⟨_ | _, later⟩ <;> rfl

/-- What is observed has its count, and never fails. -/
theorem runFrom_observing (body : Counting α) (tally : Tally) :
    runFrom (observing body) tally = (.ok (runFrom body tally).1, (runFrom body tally).2) := by
  -- The observation is an attempt whose error is handled by keeping it.
  rw [observing, runFrom_tryCatch, runFrom_bind]
  rcases runFrom body tally with ⟨_ | _, later⟩ <;> rfl

/-- Below the limit a part enters, and it leaves or abandons its level in the end. -/
theorem runFrom_counted (refusal body : Counting α) (tally : Tally) :
    runFrom (counted refusal body) tally =
      if maxNesting ≤ tally.depth then runFrom refusal tally
      else match runFrom body tally.enter with
        | (.ok value, later) => (.ok value, later.leave)
        | (.error error, later) => (.error error, later.abandon) := by
  -- The counter is read before anything is counted.
  have looked : runFrom get tally = (.ok tally, tally) := rfl
  have begun : runFrom (modify Tally.enter) tally = (.ok ⟨⟩, tally.enter) := rfl
  rw [counted, runFrom_bind, looked]
  dsimp only
  split
  · -- The counter is at the limit.
    rfl
  · -- The body is run with one level more.
    rw [runFrom_bind, begun]
    dsimp only
    rw [runFrom_bind, runFrom_observing]
    rcases runFrom body tally.enter with ⟨_ | _, later⟩ <;> rfl

end Counting

/-- A computation ends as it does without counting, and has opened no more parts than fit. -/
structure Keeps {α : Type} (room : Nat) (plain : Except CompileError α) (before : Tally)
    (ended : Except CompileError α × Tally) : Prop where
  /-- The result or the error is the one without counting. -/
  result : ended.1 = plain
  /-- If there is a result, the counter is back where it was. -/
  depth : ∀ value, plain = .ok value → ended.2.depth = before.depth
  /-- Every part has come back. -/
  active : ended.2.active = before.active
  /-- Besides the parts that were active before, no more have been active than there is room for. -/
  peak : ended.2.peak ≤ max before.peak (before.active + room)

/-- Counting makes no difference, given the room that the counter leaves. -/
structure Agrees {α : Type} (room : Nat) (plain : Except CompileError α)
    (counting : Counting α) : Prop where
  /-- Every run keeps within the room, whatever has been counted before. -/
  keeps : ∀ tally, maxNesting - tally.depth = room →
    Keeps room plain tally (counting.runFrom tally)

namespace Agrees

variable {α β : Type} {room : Nat} {plain : Except CompileError α} {refusal body : Counting α}

/-- What has no parts does not count. -/
theorem lift (plain : Except CompileError α) : Agrees room plain (liftM plain) :=
  ⟨fun _ _ => ⟨rfl, fun _ _ => rfl, rfl, Nat.le_max_left _ _⟩⟩

/-- A value counts for nothing. -/
theorem ok (value : α) : Agrees room (.ok value) (pure value) :=
  lift (.ok value)

/-- An error counts for nothing. -/
theorem error (error : CompileError) : Agrees (α := α) room (.error error) (throw error) :=
  lift (.error error)

/-- Two steps agree if each of them does, as the first one gives its levels back. -/
theorem bind {next : α → Except CompileError β} {later : α → Counting β}
    (first : Agrees room plain body) (second : ∀ value, Agrees room (next value) (later value)) :
    Agrees room (plain.bind next) (body >>= later) := by
  refine ⟨fun tally free => ?_⟩
  have done := first.keeps tally free
  rw [Counting.runFrom_bind]
  generalize body.runFrom tally = ended at done
  obtain ⟨failure | value, middle⟩ := ended
  · -- The first step fails, and what it has counted stays.
    obtain rfl : _ = plain := done.result
    exact ⟨rfl, fun _ => nofun, done.active, done.peak⟩
  · -- The first step succeeds, and the second one starts with the same room.
    obtain rfl : _ = plain := done.result
    have depth : middle.depth = tally.depth := done.depth value rfl
    have active : middle.active = tally.active := done.active
    have peak : middle.peak ≤ max tally.peak (tally.active + room) := done.peak
    have after : Keeps room (next value) middle ((later value).runFrom middle) :=
      (second value).keeps middle (depth ▸ free)
    refine ⟨after.result, fun last finished => (after.depth last finished).trans depth,
      after.active.trans active, Nat.le_trans after.peak ?_⟩
    omega

/-- Without room, a part is refused. -/
theorem refused (refuses : Agrees 0 plain refusal) : Agrees 0 plain (counted refusal body) := by
  refine ⟨fun tally full => ?_⟩
  -- The room is gone exactly at the limit.
  have limit : maxNesting ≤ tally.depth := Nat.le_of_sub_eq_zero full
  rw [Counting.runFrom_counted, if_pos limit]
  exact refuses.keeps tally full

/-- With room, a part takes one level of it while it is active. -/
theorem entered (inner : Agrees room plain body) :
    Agrees (room + 1) plain (counted refusal body) := by
  refine ⟨fun tally free => ?_⟩
  -- Inside, the counter is one higher and the room one smaller.
  have done := inner.keeps tally.enter (by simp only [Tally.enter]; omega)
  rw [Counting.runFrom_counted, if_neg (by omega)]
  generalize body.runFrom tally.enter = ended at done
  obtain ⟨failure | value, later⟩ := ended
  all_goals
    obtain rfl : _ = plain := done.result
    have active : later.active = tally.active + 1 := done.active
    have peak : later.peak ≤ max (max tally.peak (tally.active + 1)) (tally.active + 1 + room) :=
      done.peak
  · refine ⟨rfl, fun _ => nofun, congrArg (· - 1) active, ?_⟩
    simp only [Tally.abandon]
    omega
  · have depth : later.depth = tally.depth + 1 := done.depth value rfl
    refine ⟨rfl, fun _ _ => congrArg (· - 1) depth, congrArg (· - 1) active, ?_⟩
    simp only [Tally.leave]
    omega

end Agrees

section Parts

variable {ending : Except CompileError UInt32} {room bound : Nat} {plain : Part}
  {part : CountedPart bound}

/-- An operand agrees if the parts inside it do. -/
theorem operand_agrees
    (inner : ∀ level tokens short chunk,
      Agrees room (plain level tokens chunk) (part level tokens short chunk))
    (tokens : List Token) (chunk : Chunk) (fits : tokens.length ≤ bound) :
    Agrees room (operand ending plain tokens chunk)
      (countedOperand ending part tokens chunk fits) := by
  cases tokens with
  | nil => exact .lift _
  | cons token rest =>
    -- Only a parenthesis and a sign have a part behind them.
    obtain ⟨kind, lexeme, line⟩ := token
    cases kind
    case leftParen => exact .bind (.lift _) fun _ => .bind (inner ..) fun inside => .lift _
    case minus => exact .bind (.lift _) fun _ => .bind (inner ..) fun negated => .ok _
    all_goals exact .lift _

/-- A chain agrees if its right operands do, however many there are. -/
theorem chain_agrees
    (inner : ∀ level tokens short chunk,
      Agrees room (plain level tokens chunk) (part level tokens short chunk))
    (level : Level) (tokens : List Token) (chunk : Chunk) (short : tokens.length < bound) :
    Agrees room (chain ending plain level tokens chunk short)
      (countedChain ending part level tokens chunk short) := by
  -- Each right operand has given its levels back when the next operator comes.
  induction size : tokens.length using Nat.strongRecOn generalizing tokens chunk
  rename_i ih
  subst size
  cases tokens with
  | nil =>
    rw [chain, countedChain]
    exact .ok _
  | cons token rest =>
    rw [chain, countedChain]
    cases token.kind.binaryOp? with
    | none => exact .ok _
    | some op =>
      dsimp only
      split
      · -- The right operand is counted, and the chain goes on behind it.
        refine .bind (.lift _) fun _ => .bind (inner ..) fun right => ?_
        exact ih _ (Nat.lt_succ_of_lt right.shorter) _ _ _ rfl
      · exact .ok _

end Parts

/-- The counter leaves a part the room that it has, so that the part is the same with it. -/
theorem countedPart_agrees (ending : Except CompileError UInt32) (room : Nat) (level : Level)
    (tokens : List Token) (chunk : Chunk) :
    Agrees room (partWithin ending room level tokens chunk)
      (countedPart ending level tokens chunk) := by
  -- The parts inside a part have one level less to open.
  induction room generalizing level tokens chunk with
  | zero =>
    rw [countedPart, partWithin_zero]
    -- Without room, the part is refused at the next line.
    exact .refused (.bind (.lift _) fun line => .error _)
  | succ room ih =>
    rw [countedPart, partWithin_succ]
    refine .entered (.bind ?_ fun left => ?_)
    · exact operand_agrees (fun _ _ _ _ => ih ..) tokens chunk _
    · exact chain_agrees (fun _ _ _ _ => ih ..) level left.rest left.chunk left.shorter

/-- A whole text is compiled alike with all the levels as room, and with the counter at zero. -/
theorem countedCompile_agrees (source : String) :
    Agrees maxNesting (compile source) (countedCompile source) := by
  -- The parts are the only steps that count.
  rw [compile_eq, countedCompile]
  exact .bind (.lift _) fun _ => .bind (countedPart_agrees ..) fun whole => .lift _

end Compile

end ByteCalc
