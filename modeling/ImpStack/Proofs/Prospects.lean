import ImpStack.Syntax.Parser

/-!
What may come behind the tokens that a parser has read. A prospect is the stack of goals that are
still before the parser. A token takes the topmost goal a step further, leaves it behind and goes to
the goal below, or fits nowhere.

What a prospect has taken can always be completed: every goal has a shortest text of its own, and
these texts in a row reach all goals (`Prospect.run_completion`). The stack has to be in order for
that, which means that no goal takes a token that the next one waits for; every step keeps it so
(`Goal.Orderly.of_step`).
-/
namespace ImpStack

/-- What a parser has to read. -/
inductive Goal where
  | operand
  /-- The operators behind an operand that bind at least as tightly as `least`, if there are any. -/
  | operators (least : Strength)
  /-- Nothing: an expression is complete that is more than a name. -/
  | plain
  /-- The parenthesis behind an expression that began with one. -/
  | groupClose
  | name
  | sign (symbol : Symbol)
  /-- An expression, or nothing in front of `closing`. -/
  | optional (closing : Symbol)
  | moreArgs
  | optionalName
  | moreNames
  | statement
  /-- The `else` of a branch, if there is one. -/
  | otherwise
  /-- Statements and the brace that closes them. -/
  | statements
  deriving DecidableEq, Repr

/-- What a token does to a goal. `isName` says of the expression that is read whether it is a lone
name, which alone may be assigned. -/
inductive Move where
  /-- The token belongs to the goal; the goals `next` are what is left of it. -/
  | take (isName : Bool) (next : List Goal)
  /-- The goal is complete in front of the token. -/
  | pass (isName : Bool)
  | refuse
  deriving DecidableEq, Repr

/-- The move with goals behind what is left. -/
def Move.andThen (later : List Goal) : Move → Move
  | take isName next => take isName (next ++ later)
  | pass isName => pass isName
  | refuse => refuse

theorem Move.andThen_eq_take {move : Move} {isName : Bool} {next later : List Goal}
    (taken : move.andThen later = .take isName next) :
    ∃ first, move = .take isName first ∧ next = first ++ later := by
  cases move with
  | take _ first =>
    cases taken
    exact ⟨first, rfl, rfl⟩
  | pass _ => cases taken
  | refuse => cases taken

namespace Goal

/-- An operand begins with a literal, a name, a parenthesis or a sign. -/
def moveOperand (token : Token) : Move :=
  match token.kind with
  | .intLiteral =>
    if (Numeral.int32? token.lexeme.toList).isSome then .take false [] else .refuse
  | .floatLiteral =>
    if (Binary32.ofNumeral? token.lexeme.toList).isSome then .take false [] else .refuse
  | .identifier => .take true []
  | .symbol .leftParen => .take false [operand, operators .assignment, groupClose]
  | .symbol .minus => .take false [operand, operators .negation, plain]
  | _ => .refuse

/-- An operand is never complete before it has begun. -/
theorem moveOperand_ne_pass (token : Token) (isName : Bool) :
    moveOperand token ≠ .pass isName := by
  unfold moveOperand
  split
  · split <;> simp
  · split <;> simp
  all_goals simp

/-- What an operator asks for, and the operators behind it. -/
def moveOperator (isName : Bool) (least : Strength) : Operator → Move
  | .assign =>
    if isName then .take false [operand, operators .assignment, plain, operators least]
    else .refuse
  | .call =>
    .take false [optional .rightParen, moreArgs, sign .rightParen, operators least]
  | .binary op =>
    .take false
      [operand, operators (Operator.binary op).strength.tighter, plain, operators least]

/-- The first token of a statement says what is left of it. -/
def moveStatement (first : Token) : Move :=
  match first.kind with
  | .keyword .if_ =>
    .take false [sign .leftParen, operand, operators .assignment,
      sign .rightParen, statement, otherwise]
  | .keyword .while_ =>
    .take false [sign .leftParen, operand, operators .assignment,
      sign .rightParen, statement]
  | .keyword .print =>
    .take false [sign .leftParen, operand, operators .assignment,
      sign .rightParen, sign .semicolon]
  | .keyword .return_ => .take false [optional .semicolon, sign .semicolon]
  | .symbol .leftBrace => .take false [statements]
  | _ => (moveOperand first).andThen [operators .assignment, sign .semicolon]

theorem moveStatement_ne_pass (token : Token) (isName : Bool) :
    moveStatement token ≠ .pass isName := by
  unfold moveStatement
  split
  case h_6 =>
    have stays := moveOperand_ne_pass token
    cases move : moveOperand token with
    | pass other => exact absurd move (stays other)
    | take _ _ => simp [Move.andThen]
    | refuse => simp [Move.andThen]
  all_goals simp

/-- What the next token does to a goal. -/
def move (isName : Bool) (next : Token) : Goal → Move
  | operand => moveOperand next
  | operators least =>
    match next.kind.operator? with
    | none => .pass isName
    | some op => if least ≤ op.strength then moveOperator isName least op else .pass isName
  | plain => .pass false
  | groupClose => if next.kind = .symbol .rightParen then .take isName [] else .refuse
  | name => if next.kind = .identifier then .take false [] else .refuse
  | sign symbol => if next.kind = .symbol symbol then .take false [] else .refuse
  | optional closing =>
    if next.kind = .symbol closing then .pass false
    else (moveOperand next).andThen [operators .assignment]
  | moreArgs =>
    if next.kind = .symbol .comma then .take false [operand, operators .assignment, moreArgs]
    else .pass false
  | optionalName =>
    if next.kind = .symbol .rightParen then .pass false
    else if next.kind = .identifier then .take false [] else .refuse
  | moreNames =>
    if next.kind = .symbol .comma then .take false [name, moreNames]
    else .pass false
  | statement => moveStatement next
  | otherwise =>
    if next.kind = .keyword .else_ then .take false [statement] else .pass false
  | statements =>
    if next.kind = .symbol .rightBrace then .take false []
    else (moveStatement next).andThen [statements]

/-- What follows the word `function`. -/
def afterFunction : List Goal :=
  [name, sign .leftParen, optionalName, moreNames,
    sign .rightParen, sign .leftBrace, statements]

end Goal

/-- The goals before a parser, the nearest first. Behind the last of them, functions may follow up
to the end of the input. -/
structure Prospect where
  isName : Bool
  goals : List Goal
  deriving DecidableEq, Repr

namespace Prospect

/-- The prospect of a whole program. -/
def start : Prospect := ⟨false, []⟩

/-- Goals that are complete are left behind until one takes the token or refuses it. -/
def stepAlong (token : Token) : (isName : Bool) → (goals : List Goal) → Option Prospect
  | _, [] =>
    if token.kind = .keyword .function then some ⟨false, Goal.afterFunction⟩
    else if token.kind = .eof then some start
    else none
  | isName, goal :: rest =>
    match goal.move isName token with
    | .take isName next => some ⟨isName, next ++ rest⟩
    | .pass isName => stepAlong token isName rest
    | .refuse => none

/-- The prospect behind a token that fits. -/
def step (prospect : Prospect) (token : Token) : Option Prospect :=
  stepAlong token prospect.isName prospect.goals

/-- The prospect behind several tokens, if all of them fit. -/
def run (prospect : Prospect) (tokens : List Token) : Option Prospect :=
  tokens.foldlM step prospect

variable {isName other : Bool} {goal : Goal} {goals rest next : List Goal} {token : Token}

theorem step_take (move : goal.move isName token = .take other next) :
    step ⟨isName, goal :: rest⟩ token = some ⟨other, next ++ rest⟩ := by
  simp only [step, stepAlong, move]

theorem step_pass (move : goal.move isName token = .pass other) :
    step ⟨isName, goal :: rest⟩ token = step ⟨other, rest⟩ token := by
  simp only [step, stepAlong, move]

/-- A goal that stands for several ones may be replaced by them. -/
theorem step_congr {other : Goal} {later : List Goal}
    (same : other.move isName token = (goal.move isName token).andThen later)
    (stays : ∀ name, goal.move isName token ≠ .pass name) :
    step ⟨isName, other :: rest⟩ token = step ⟨isName, goal :: (later ++ rest)⟩ token := by
  simp only [step, stepAlong, same]
  cases move : goal.move isName token with
  | take _ next => simp [Move.andThen]
  | pass name => exact absurd move (stays name)
  | refuse => rfl

theorem step_refuse (move : goal.move isName token = .refuse) :
    step ⟨isName, goal :: rest⟩ token = none := by
  simp only [step, stepAlong, move]

theorem run_cons (prospect : Prospect) (token : Token) (tokens : List Token) :
    prospect.run (token :: tokens) = (prospect.step token).bind (run · tokens) := by
  simp only [run, List.foldlM_cons]
  rfl

theorem run_append (prospect : Prospect) (first second : List Token) :
    prospect.run (first ++ second) = (prospect.run first).bind (run · second) := by
  simp only [run, List.foldlM_append]
  rfl

theorem run_take (move : goal.move isName token = .take other next) (tokens : List Token) :
    run ⟨isName, goal :: rest⟩ (token :: tokens) = run ⟨other, next ++ rest⟩ tokens := by
  rw [run_cons, step_take move]
  rfl

theorem run_pass (move : goal.move isName token = .pass other) (tokens : List Token) :
    run ⟨isName, goal :: rest⟩ (token :: tokens) = run ⟨other, rest⟩ (token :: tokens) := by
  rw [run_cons, run_cons, step_pass move]

end Prospect

/-! ### Completion -/

/-- A token of the kind. -/
def Token.sample (kind : Kind) : Token :=
  match kind with
  | .intLiteral => ⟨kind, "0", .start⟩
  | .floatLiteral => ⟨kind, "0.0", .start⟩
  | .identifier => ⟨kind, "x", .start⟩
  | .keyword word => ⟨kind, word.spelling, .start⟩
  | .symbol sign => ⟨kind, sign.spelling, .start⟩
  | .eof => ⟨kind, "", .start⟩
  | .invalid => ⟨kind, "?", .start⟩

@[simp]
theorem Token.sample_kind (kind : Kind) : (sample kind).kind = kind := by
  cases kind <;> rfl

namespace Goal

/-- Tokens that reach the goal. -/
def shortest : Goal → List Token
  | operand => [.sample .intLiteral]
  | operators _ => []
  | plain => []
  | groupClose => [.sample (.symbol .rightParen)]
  | name => [.sample .identifier]
  | sign symbol => [.sample (.symbol symbol)]
  | optional _ => [.sample .intLiteral]
  | moreArgs => []
  | optionalName => [.sample .identifier]
  | moreNames => []
  | statement => [.sample (.symbol .leftBrace), .sample (.symbol .rightBrace)]
  | otherwise =>
    [.sample (.keyword .else_), .sample (.symbol .leftBrace), .sample (.symbol .rightBrace)]
  | statements => [.sample (.symbol .rightBrace)]

/-- No goal needs the end of the input. -/
theorem not_eof_of_mem_shortest {goal : Goal} {next : Token} (member : next ∈ goal.shortest) :
    next.kind ≠ .eof := by
  have real : goal.shortest.all (!·.isEof) := by cases goal <;> rfl
  simpa [Token.isEof] using List.all_eq_true.mp real next member

/-- Whether an operator or a comma behind the goal could still belong to it. -/
def isOpen : Goal → Bool
  | operand => true
  | operators _ => true
  | plain => true
  | optional _ => true
  | moreArgs => true
  | moreNames => true
  | _ => false

/-- The token belongs to no open goal. -/
def Separates (next : Token) : Prop :=
  next.kind.operator? = none ∧ next.kind ≠ .symbol .comma

@[simp]
theorem separates_rightParen : Separates (.sample (.symbol .rightParen)) := ⟨rfl, by simp⟩

@[simp]
theorem separates_semicolon : Separates (.sample (.symbol .semicolon)) := ⟨rfl, by simp⟩

/-- The goal may stand behind an open one: it does not ask for a token that the open one would
take. -/
def MayFollow : Goal → Prop
  | sign symbol => Separates (.sample (.symbol symbol))
  | _ => True

/-- No goal in the list takes away a token from the next one. -/
def Orderly : List Goal → Prop
  | [] => True
  | goal :: rest => (goal.isOpen → ∀ next ∈ rest.head?, next.MayFollow) ∧ Orderly rest

/-- Tokens that reach all goals, and the end of the input. -/
def completion (goals : List Goal) : List Token :=
  goals.flatMap shortest ++ [.sample .eof]

variable {isName other : Bool} {least : Strength} {first : Token} {goals rest next : List Goal}

@[simp]
theorem completion_cons (goal : Goal) (rest : List Goal) :
    completion (goal :: rest) = goal.shortest ++ completion rest := by
  simp [completion]

/-- Behind an open goal the completion of the others goes on with a separator. -/
theorem completion_eq_cons (orderly : Orderly goals)
    (behind : ∀ goal ∈ goals.head?, goal.MayFollow) :
    ∃ first later, completion goals = first :: later ∧ Separates first := by
  induction goals with
  | nil => exact ⟨_, _, rfl, rfl, by simp⟩
  | cons goal rest ih =>
    have inner : goal.isOpen → goal.shortest = [] →
        ∃ first later, completion (goal :: rest) = first :: later ∧ Separates first := by
      intro isOpen empty
      rw [completion_cons, empty, List.nil_append]
      exact ih orderly.2 (orderly.1 isOpen)
    have own : ∀ {first later}, goal.shortest = first :: later → Separates first →
        ∃ first later, completion (goal :: rest) = first :: later ∧ Separates first := by
      intro first later shortest separates
      rw [completion_cons, shortest]
      exact ⟨first, _, rfl, separates⟩
    cases goal with
    | operators least => exact inner rfl rfl
    | plain => exact inner rfl rfl
    | moreArgs => exact inner rfl rfl
    | moreNames => exact inner rfl rfl
    | sign symbol => exact own rfl (behind _ rfl)
    | _ => exact own rfl ⟨rfl, by simp⟩

/-! ### What a step leaves -/

/-- What is left of an operand keeps the stack in order. -/
theorem Orderly.of_moveOperand (move : moveOperand first = .take other next)
    (orderly : Orderly rest) (behind : ∀ goal ∈ rest.head?, goal.MayFollow) :
    Orderly (next ++ rest) := by
  unfold moveOperand at move
  split at move
  · split at move <;> cases move
    exact orderly
  · split at move <;> cases move
    exact orderly
  · cases move
    exact orderly
  · cases move
    simpa [Orderly, isOpen, MayFollow] using orderly
  · cases move
    simpa [Orderly, isOpen, MayFollow] using ⟨behind, orderly⟩
  · cases move

/-- What an operator asks for keeps the stack in order. -/
theorem Orderly.of_moveOperator {op : Operator}
    (move : moveOperator isName least op = .take other next)
    (orderly : Orderly (operators least :: rest)) : Orderly (next ++ rest) := by
  cases op with
  | assign =>
    simp only [moveOperator] at move
    split at move <;> cases move
    simpa [Orderly, isOpen, MayFollow] using orderly
  | call =>
    cases move
    simpa [Orderly, isOpen, MayFollow] using orderly
  | binary op =>
    cases move
    simpa [Orderly, isOpen, MayFollow] using orderly

theorem Orderly.of_moveStatement (move : moveStatement first = .take other next)
    (orderly : Orderly rest) : Orderly (next ++ rest) := by
  unfold moveStatement at move
  split at move
  case h_6 =>
    obtain ⟨operand, taken, rfl⟩ := Move.andThen_eq_take move
    rw [List.append_assoc]
    refine .of_moveOperand taken ?_ ?_
    · simpa [Orderly, isOpen, MayFollow] using orderly
    · simp [MayFollow]
  all_goals
    cases move
    simpa [Orderly, isOpen, MayFollow] using orderly

/-- Whatever goal takes a token, what is left of it keeps the stack in order. -/
theorem Orderly.of_move {goal : Goal} (move : goal.move isName first = .take other next)
    (orderly : Orderly (goal :: rest)) : Orderly (next ++ rest) := by
  cases goal with
  | operand => exact .of_moveOperand move orderly.2 (orderly.1 rfl)
  | operators least =>
    simp only [Goal.move] at move
    split at move
    · cases move
    · split at move
      · exact .of_moveOperator move orderly
      · cases move
  | optional closing =>
    simp only [Goal.move] at move
    split at move
    · cases move
    · obtain ⟨operand, taken, rfl⟩ := Move.andThen_eq_take move
      rw [List.append_assoc]
      exact .of_moveOperand taken ⟨orderly.1, orderly.2⟩ (by simp [MayFollow])
  | statement => exact .of_moveStatement move orderly.2
  | statements =>
    simp only [Goal.move] at move
    split at move
    · cases move
      exact orderly.2
    · obtain ⟨statement, taken, rfl⟩ := Move.andThen_eq_take move
      rw [List.append_assoc]
      exact .of_moveStatement taken ⟨by simp [isOpen], orderly.2⟩
  | plain => cases move
  -- The remaining goals expect one sign and leave only goals that may follow each other.
  | _ =>
    simp only [Goal.move] at move
    repeat' split at move
    all_goals cases move
    all_goals simpa [Orderly, isOpen, MayFollow] using orderly

/-- A separator continues no expression. -/
theorem Separates.passes_operators (separates : Separates first) :
    (operators least).move isName first = .pass isName := by
  simp only [Goal.move, separates.1]

/-! ### What a run reaches -/

/-- A step keeps the stack in order, whether it ends goals or takes a token. -/
theorem Orderly.of_step {prospect reached : Prospect} {token : Token}
    (steps : prospect.step token = some reached) (orderly : Orderly prospect.goals) :
    Orderly reached.goals := by
  obtain ⟨isName, goals⟩ := prospect
  induction goals generalizing isName with
  | nil =>
    simp only [Prospect.step, Prospect.stepAlong] at steps
    split at steps
    · cases steps
      simp [afterFunction, Orderly, isOpen, MayFollow]
    · split at steps <;> cases steps
      exact trivial
  | cons goal rest ih =>
    cases move : goal.move isName token with
    | take other next =>
      rw [Prospect.step_take move] at steps
      cases steps
      exact .of_move move orderly
    | pass other =>
      rw [Prospect.step_pass move] at steps
      exact ih other steps orderly.2
    | refuse => cases (Prospect.step_refuse move).symm.trans steps

/-- So do several steps. -/
theorem Orderly.of_run {prospect reached : Prospect} {tokens : List Token}
    (runs : prospect.run tokens = some reached) (orderly : Orderly prospect.goals) :
    Orderly reached.goals := by
  induction tokens generalizing prospect with
  | nil =>
    cases runs
    exact orderly
  | cons token tokens ih =>
    rw [Prospect.run_cons, Option.bind_eq_some_iff] at runs
    obtain ⟨next, steps, runs⟩ := runs
    exact ih runs (.of_step steps orderly)

end Goal

namespace Prospect

open Goal

/-- Goals in order are reached by their completion. -/
theorem run_completion {goals : List Goal} (orderly : Orderly goals) (isName : Bool) :
    (run ⟨isName, goals⟩ (completion goals)).isSome := by
  induction goals generalizing isName with
  | nil => rfl
  | cons goal rest ih =>
    -- an open goal that needs nothing more is left behind at the first token of the others
    have passed : ∀ {due : Goal} {name other}, goal.isOpen →
        (∀ first, Separates first → due.move name first = .pass other) →
        (run ⟨name, due :: rest⟩ (completion rest)).isSome := by
      intro due name other isOpen passes
      have others := ih orderly.2 other
      obtain ⟨first, later, eq, separates⟩ := completion_eq_cons orderly.2 (orderly.1 isOpen)
      rw [eq] at others ⊢
      rwa [run_pass (passes first separates)]
    rw [completion_cons]
    cases goal with
    | operators least => exact passed rfl fun first separates => separates.passes_operators
    | plain => exact passed rfl fun _ _ => rfl
    | moreArgs => exact passed rfl fun first separates => if_neg separates.2
    | moreNames => exact passed rfl fun first separates => if_neg separates.2
    | operand => exact ih orderly.2 false
    | groupClose => exact ih orderly.2 isName
    | name => exact ih orderly.2 false
    | sign symbol =>
      have taken : (Goal.sign symbol).move isName (.sample (.symbol symbol)) = .take false [] :=
        if_pos rfl
      rw [shortest, List.singleton_append, run_take taken]
      exact ih orderly.2 false
    | optional closing => exact passed rfl fun first separates => separates.passes_operators
    | optionalName => exact ih orderly.2 false
    | statement => exact ih orderly.2 false
    | otherwise => exact ih orderly.2 false
    | statements => exact ih orderly.2 false

end Prospect

end ImpStack
