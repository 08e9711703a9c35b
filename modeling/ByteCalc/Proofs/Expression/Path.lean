import ByteCalc.Proofs.Expression.Slots

/-! The ways down to the literals of an expression, and how many levels they open. -/

namespace ByteCalc

/-- A step from an expression down to one of its operands. -/
inductive Turn where
  /-- Into parentheses. -/
  | group
  /-- Behind a sign. -/
  | negate
  /-- To the left of an operator. -/
  | left
  /-- To the right of an operator. -/
  | right
deriving DecidableEq, Repr

/-- The number of signs and parentheses around a literal, given the way down to it. -/
def enclosures : List Turn → Nat
  | [] => 0
  | .group :: path | .negate :: path => enclosures path + 1
  | .left :: path | .right :: path => enclosures path

/-- The number of right operands around a literal, given the way down to it. -/
def rightTurns : List Turn → Nat
  | [] => 0
  | .right :: path => rightTurns path + 1
  | .group :: path | .negate :: path | .left :: path => rightTurns path

/--
The ways from an expression down to its literals, in order.

Each of the other tokens stands around some literal, which is enclosed by no less.
-/
def Expression.paths : Expression → List (List Turn)
  | number _ => [[]]
  | group inside => inside.paths.map (.group :: ·)
  | negate _ operand => operand.paths.map (.negate :: ·)
  | binary _ _ left right => left.paths.map (.left :: ·) ++ right.paths.map (.right :: ·)

namespace Expression

/-- Besides the level of the literal, every enclosure and every right operand opens a level. -/
theorem lt_nesting_of_mem_paths {tree : Expression} {path : List Turn} (mem : path ∈ tree.paths) :
    enclosures path + rightTurns path < tree.nesting := by
  -- The first turn is that of the root, and the others are a path of the operand.
  induction tree generalizing path with
  | number literal =>
    obtain rfl := List.mem_singleton.1 mem
    exact Nat.zero_lt_one
  | group inside ih | negate sign inside ih =>
    obtain ⟨rest, below, rfl⟩ := List.mem_map.1 mem
    have deeper := ih below
    -- The turn adds one enclosure, and the node adds one level.
    simp only [nesting, enclosures, rightTurns]
    omega
  | binary op operator left right leftIh rightIh =>
    rcases List.mem_append.1 mem with onLeft | onRight
    · obtain ⟨rest, below, rfl⟩ := List.mem_map.1 onLeft
      have deeper := leftIh below
      simp only [nesting, enclosures, rightTurns]
      omega
    · obtain ⟨rest, below, rfl⟩ := List.mem_map.1 onRight
      -- A right turn counts once, like the level of the right operand.
      have deeper := rightIh below
      simp only [nesting, enclosures, rightTurns]
      omega

/-- Some literal needs all the levels of its expression. -/
theorem exists_path_nesting (tree : Expression) :
    ∃ path ∈ tree.paths, tree.nesting = enclosures path + rightTurns path + 1 := by
  -- It is found on the side of each operator that needs more levels.
  induction tree with
  | number literal => exact ⟨[], List.mem_singleton_self _, rfl⟩
  | group inside ih | negate sign inside ih =>
    obtain ⟨path, mem, deep⟩ := ih
    -- The path of the operand is made one turn longer.
    refine ⟨_, List.mem_map_of_mem mem, ?_⟩
    simp only [nesting, enclosures, rightTurns]
    omega
  | binary op operator left right leftIh rightIh =>
    obtain ⟨leftPath, leftMem, leftDeep⟩ := leftIh
    obtain ⟨rightPath, rightMem, rightDeep⟩ := rightIh
    by_cases side : left.nesting ≤ 1 + right.nesting
    · -- The right side is at least as deep, with the level it opens itself.
      refine ⟨_, List.mem_append_right _ (List.mem_map_of_mem rightMem), ?_⟩
      simp only [nesting, enclosures, rightTurns]
      omega
    · refine ⟨_, List.mem_append_left _ (List.mem_map_of_mem leftMem), ?_⟩
      simp only [nesting, enclosures, rightTurns]
      omega

/-- The levels of an expression are those on the way to some literal. -/
theorem nesting_le_iff {tree : Expression} {bound : Nat} :
    tree.nesting ≤ bound + 1 ↔
      ∀ path ∈ tree.paths, enclosures path + rightTurns path ≤ bound := by
  -- No path is deeper than the nesting, and one is as deep.
  constructor
  · intro shallow path mem
    have deeper := lt_nesting_of_mem_paths mem
    omega
  · intro all
    obtain ⟨path, mem, deep⟩ := tree.exists_path_nesting
    have low := all path mem
    omega

end Expression

/-- Between two enclosures, a literal stands in no more right operands than there are chains. -/
theorem Phrase.rightTurns_le {level : Level} {tokens : List Token} {tree : Expression}
    (spelled : Phrase level tokens tree) {path : List Turn} (mem : path ∈ tree.paths) :
    rightTurns path + 1 ≤ 2 * enclosures path + level.slack := by
  induction spelled generalizing path with
  | number kind =>
    obtain rfl := List.mem_singleton.1 mem
    -- The path is empty, and the slack of a unary phrase is one.
    exact Nat.le_refl 1
  | group opens spelled closes ih | negate kind spelled ih =>
    -- An enclosure is followed by a sum at the loosest, whose chains are two.
    obtain ⟨rest, below, rfl⟩ := List.mem_map.1 mem
    have inner := ih below
    simp only [enclosures, rightTurns, Level.slack] at inner ⊢
    omega
  | factor spelled ih | term spelled ih =>
    -- The slack grows by one where a phrase is taken for a looser one.
    exact Nat.le_succ_of_le (ih mem)
  | @chain level operator op before after left right spells same leftSpelled rightSpelled leftIh
      rightIh =>
    subst same
    rcases List.mem_append.1 mem with onLeft | onRight
    · obtain ⟨rest, below, rfl⟩ := List.mem_map.1 onLeft
      have inner := leftIh below
      simp only [enclosures, rightTurns]
      exact inner
    · -- The right operand is a level tighter than its operator.
      obtain ⟨rest, below, rfl⟩ := List.mem_map.1 onRight
      have inner := rightIh below
      have slack := op.slack_level
      simp only [enclosures, rightTurns]
      omega

end ByteCalc
