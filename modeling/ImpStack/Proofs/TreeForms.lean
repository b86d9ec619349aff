import ImpStack.Proofs.Forms
import ImpStack.Syntax.Printer

/-!
Printed trees as text in parentheses. The text of a tree spells one form, in which expressions,
statements, blocks and functions are told apart by the word in front (`Program.spells`).

The form has the structure of the tree, without places and without the line breaks and blanks of the
printed text. A branch without an alternative has another word than one with it, so that both can be
told apart although their blocks look alike.
-/
namespace ImpStack

/-! ### The form of a tree -/

mutual

/-- Literals and variables are words; all else stands in parentheses behind a word. -/
def Expr.form : Expr → Form
  | .int _ value => .ofText (toString value.toInt)
  | .float _ value => .ofText (Binary32.text .exact value)
  | .var _ name => .ofText name
  | .binary _ op left right => .headed op.spelling [left.form, right.form]
  | .negate _ operand => .headed "-" [operand.form]
  | .call _ callee args => .headed "call" (.ofText callee :: Expr.formsOfAll args)
  | .assign _ target value => .headed "=" [.ofText target, value.form]
termination_by structural expr => expr

def Expr.formsOfAll : List Expr → List Form
  | [] => []
  | first :: rest => first.form :: Expr.formsOfAll rest
termination_by structural exprs => exprs

end

mutual

/-- A statement stands in parentheses behind the word that says what it is. -/
def Stmt.form : Stmt → Form
  | .assign _ target value => .headed "=" [.ofText target, value.form]
  | .discard _ value => .headed "expr-stmt" [value.form]
  | .print _ value => .headed "print" [value.form]
  | .branch _ condition body none =>
    .headed "if" [condition.form, .headed "block" (Stmt.formsOfAll body)]
  | .branch _ condition body (some alternative) =>
    .headed "if-else" [condition.form, .headed "block" (Stmt.formsOfAll body),
      .headed "block" (Stmt.formsOfAll alternative)]
  | .loop _ condition body =>
    .headed "while" [condition.form, .headed "block" (Stmt.formsOfAll body)]
  | .return_ _ none => .headed "return" []
  | .return_ _ (some value) => .headed "return" [value.form]
  | .block _ body => .headed "block" (Stmt.formsOfAll body)
termination_by structural statement => statement

def Stmt.formsOfAll : List Stmt → List Form
  | [] => []
  | first :: rest => first.form :: Stmt.formsOfAll rest
termination_by structural body => body

end

/-- The name, the parameters in parentheses and the body as a block. -/
def Function.form (function : Function) : Form :=
  .headed "fun" [.ofText function.name,
    .group (function.params.map fun param => .ofText param.name),
    .headed "block" (Stmt.formsOfAll function.body)]

/-- The functions in their order. -/
def Program.form (program : Program) : Form :=
  .headed "program" (program.functions.map Function.form)

/-! ### Words of a tree -/

open Mark (Spells Follow IsGap)

theorem BinaryOp.oneWord_spelling (op : BinaryOp) : OneWord op.spelling := by
  obtain op | op := op <;> cases op <;> decide

theorem toList_newLine (level : Nat) :
    (newLine level).toList = '\n' :: List.replicate (2 * level) ' ' := by
  simp [newLine, toList_pushn]

/-- Nothing of a line break is seen. -/
theorem isGap_newLine (level : Nat) : IsGap (newLine level).toList := by
  rw [toList_newLine]
  refine List.forall_mem_cons.mpr ⟨.inr rfl, fun c member => ?_⟩
  exact .inl (List.eq_of_mem_replicate member)

/-! ### The text spells the form -/

mutual

/-- The text of an expression spells its form, if its names are words and its floats are numbers. -/
theorem Expr.spells (e : Expr) (spelled : e.WellSpelled) : Spells e.text.toList [e.form] := by
  cases e with
  | int position value => exact .word (oneWord_toString value.toInt)
  | float position value => exact .word (Binary32.IsNumber.oneWord spelled)
  | var position name => exact .word (IsWord.oneWord spelled)
  | binary position op left right =>
    have parts := Follow.blank (left.spells spelled.1) (.blank (right.spells spelled.2) .nil)
    refine .of_eq ?_ (parts.headed op.oneWord_spelling)
    simp [text, toString_text]
  | negate position operand =>
    have parts := Follow.blank (operand.spells spelled) .nil
    refine .of_eq ?_ (parts.headed (show OneWord "-" by decide))
    simp [text, toString_text]
  | call position callee args =>
    have parts := Follow.blank (.word spelled.1.oneWord) (Expr.args_follow args spelled.2)
    refine .of_eq ?_ (parts.headed (show OneWord "call" by decide))
    simp [text, toString_text]
  | assign position target value =>
    have parts := Follow.blank (.word spelled.1.oneWord) (.blank (value.spells spelled.2) .nil)
    refine .of_eq ?_ (parts.headed (show OneWord "=" by decide))
    simp [text, toString_text]

/-- Arguments follow the callee, each behind a blank. -/
theorem Expr.args_follow (args : List Expr) (spelled : Expr.AllWellSpelled args) :
    Follow (argsText args).toList (formsOfAll args) := by
  cases args with
  | nil => exact .nil
  | cons first rest =>
    have following := Follow.blank (first.spells spelled.1) (Expr.args_follow rest spelled.2)
    simpa [argsText, formsOfAll] using following

end

/-- One more form on a line of its own. -/
theorem Mark.Follow.line {text other : List Char} {form : Form} {forms : List Form} (level : Nat)
    (first : Spells text [form]) (following : Follow other forms) :
    Follow ((newLine level).toList ++ (text ++ other)) (form :: forms) :=
  .cons (isGap_newLine level) (by simp [toList_newLine]) first following

/-- The lines of a block, in parentheses behind its word. -/
theorem blockText_spells {lines : String} {forms : List Form}
    (following : Follow lines.toList forms) :
    Spells (blockText lines).toList [.headed "block" forms] := by
  refine .of_eq ?_ (following.headed (show OneWord "block" by decide))
  simp [blockText]

mutual

/-- The text of a statement spells its form, whatever its level of indentation. -/
theorem Stmt.spells (level : Nat) (statement : Stmt) (spelled : statement.WellSpelled) :
    Spells (statement.text level).toList [statement.form] := by
  cases statement with
  | assign position target value =>
    have parts := Follow.blank (.word spelled.1.oneWord) (.blank (value.spells spelled.2) .nil)
    refine .of_eq ?_ (parts.headed (show OneWord "=" by decide))
    simp [text, toString_text]
  | discard position value =>
    have parts := Follow.blank (value.spells spelled) .nil
    refine .of_eq ?_ (parts.headed (show OneWord "expr-stmt" by decide))
    simp [text, toString_text]
  | print position value =>
    have parts := Follow.blank (value.spells spelled) .nil
    refine .of_eq ?_ (parts.headed (show OneWord "print" by decide))
    simp [text, toString_text]
  | branch position condition body alternative =>
    cases alternative with
    | none =>
      have block := blockText_spells (Stmt.lines_follow (level + 2) body spelled.2)
      have parts := Follow.blank (condition.spells spelled.1) (.line (level + 1) block .nil)
      refine .of_eq ?_ (parts.headed (show OneWord "if" by decide))
      simp [text, toString_text]
    | some alternative =>
      have block := blockText_spells (Stmt.lines_follow (level + 2) body spelled.2.1)
      have other := blockText_spells (Stmt.lines_follow (level + 2) alternative spelled.2.2)
      have parts := Follow.blank (condition.spells spelled.1)
        (.line (level + 1) block (.line (level + 1) other .nil))
      refine .of_eq ?_ (parts.headed (show OneWord "if-else" by decide))
      simp [text, toString_text]
  | loop position condition body =>
    have block := blockText_spells (Stmt.lines_follow (level + 2) body spelled.2)
    have parts := Follow.blank (condition.spells spelled.1) (.line (level + 1) block .nil)
    refine .of_eq ?_ (parts.headed (show OneWord "while" by decide))
    simp [text, toString_text]
  | return_ position value =>
    cases value with
    | none =>
      refine .of_eq ?_ (Follow.nil.headed (show OneWord "return" by decide))
      simp [text]
    | some value =>
      have parts := Follow.blank (value.spells spelled) .nil
      refine .of_eq ?_ (parts.headed (show OneWord "return" by decide))
      simp [text, toString_text]
  | block position body => exact blockText_spells (Stmt.lines_follow (level + 1) body spelled)

/-- Statements stand on lines of their own. -/
theorem Stmt.lines_follow (level : Nat) (body : List Stmt) (spelled : Stmt.AllWellSpelled body) :
    Follow (linesText level body).toList (formsOfAll body) := by
  cases body with
  | nil => exact .nil
  | cons first rest =>
    have following := Follow.line level (first.spells level spelled.1)
      (Stmt.lines_follow level rest spelled.2)
    simpa [linesText, formsOfAll] using following

end

theorem toList_intercalate_cons (name : String) (names : List String) :
    (" ".intercalate (name :: names)).toList =
      name.toList ++ names.flatMap fun name => [' '] ++ name.toList := by
  induction names generalizing name with
  | nil => simp
  | cons second names ih =>
    rw [String.intercalate_cons_cons, String.toList_append, ih]
    simp

/-- Parameters stand in parentheses with blanks between them, also if there are none. -/
theorem spells_params {params : List Param} (words : ∀ param ∈ params, IsWord param.name) :
    Spells ('(' :: ((" ".intercalate (params.map Param.name)).toList ++ [')']))
      [.group (params.map fun param => .ofText param.name)] := by
  cases params with
  | nil => exact Follow.nil.spells.group
  | cons first rest =>
    have spells : ∀ param ∈ first :: rest, Spells param.name.toList [.ofText param.name] :=
      fun param member => .word (words param member).oneWord
    have others : Follow (rest.flatMap fun param => [' '] ++ param.name.toList)
        (rest.map fun param => .ofText param.name) :=
      .flatMap (by simp [IsGap]) (List.cons_ne_nil ' ' [])
        fun param member => spells param (List.mem_cons_of_mem _ member)
    have inside := (spells first List.mem_cons_self).append others.spells others.ends
    rw [List.map_cons, toList_intercalate_cons, List.flatMap_map]
    exact inside.group

/-- The text of a function spells its form. -/
theorem Function.WellSpelled.spells {function : Function} (spelled : function.WellSpelled) :
    Spells function.text.toList [function.form] := by
  have block := blockText_spells (Stmt.lines_follow 3 function.body spelled.body)
  have parts := Follow.blank (.word spelled.name.oneWord)
    (.blank (spells_params spelled.params) (.line 2 block .nil))
  refine .of_eq ?_ (parts.headed (show OneWord "fun" by decide))
  simp [Function.text, toString_text]

/-- The text of a program spells its form, whose functions stand on lines of their own. -/
theorem Program.spells {program : Program} (spelled : program.WellSpelled) :
    Spells program.text.toList [program.form] := by
  have functions : Follow
      (program.functions.flatMap fun function => (newLine 1).toList ++ function.text.toList)
      (program.functions.map Function.form) :=
    .flatMap (isGap_newLine 1) (by simp [toList_newLine])
      fun function member => (spelled function member).spells
  refine .of_eq ?_ (functions.headed (show OneWord "program" by decide))
  simp [text, List.flatMap_map]

end ImpStack
