import ImpStack.Proofs.Bare
import ImpStack.Proofs.TreeForms

/-!
What a printed tree tells about the tree. The text spells one form, in which all of the tree is kept
but its places; only infinity is written like a variable (`Program.prints_alike_iff`).

The one direction is that neither places nor the spelling of infinity get into the text
(`Program.text_erased`). The other one goes through forms: equal texts spell equal forms, and equal
forms of trees that come from a source are those of equal trees (`Program.erased_eq_of_form_eq`).
-/
namespace ImpStack

/-! ### Infinity as a name -/

/-- What infinity is written as. -/
def infinityName : String := "inf"

mutual

/-- The expression with variables in place of the literals that are infinity. -/
def Expr.infinityAsName : Expr → Expr
  | .int position value => .int position value
  | .float position value =>
    if value = Binary32.infinity false then .var position infinityName else .float position value
  | .var position name => .var position name
  | .binary position op left right =>
    .binary position op left.infinityAsName right.infinityAsName
  | .negate position operand => .negate position operand.infinityAsName
  | .call position callee args => .call position callee (Expr.infinityAsNameAll args)
  | .assign position target value => .assign position target value.infinityAsName
termination_by structural expr => expr

def Expr.infinityAsNameAll : List Expr → List Expr
  | [] => []
  | first :: rest => first.infinityAsName :: Expr.infinityAsNameAll rest
termination_by structural exprs => exprs

end

mutual

/-- The statement with variables in place of the literals that are infinity. -/
def Stmt.infinityAsName : Stmt → Stmt
  | .assign position target value => .assign position target value.infinityAsName
  | .discard position value => .discard position value.infinityAsName
  | .print position value => .print position value.infinityAsName
  | .branch position condition body none =>
    .branch position condition.infinityAsName (Stmt.infinityAsNameAll body) none
  | .branch position condition body (some alternative) =>
    .branch position condition.infinityAsName (Stmt.infinityAsNameAll body)
      (some (Stmt.infinityAsNameAll alternative))
  | .loop position condition body =>
    .loop position condition.infinityAsName (Stmt.infinityAsNameAll body)
  | .return_ position value => .return_ position (value.map Expr.infinityAsName)
  | .block position body => .block position (Stmt.infinityAsNameAll body)
termination_by structural statement => statement

def Stmt.infinityAsNameAll : List Stmt → List Stmt
  | [] => []
  | first :: rest => first.infinityAsName :: Stmt.infinityAsNameAll rest
termination_by structural body => body

end

def Function.infinityAsName (function : Function) : Function :=
  { function with body := Stmt.infinityAsNameAll function.body }

def Program.infinityAsName (program : Program) : Program :=
  ⟨program.functions.map Function.infinityAsName⟩

/-! ### What the text leaves out -/

theorem Binary32.text_infinity : text .exact (infinity false) = infinityName := by decide

mutual

/-- Neither places nor the spelling of infinity get into the text of an expression. -/
theorem Expr.text_erased (e : Expr) : e.infinityAsName.bare.text = e.text := by
  cases e with
  | int => rfl
  | float position value =>
    rw [infinityAsName]
    split
    · next infinite =>
      rw [infinite]
      exact Binary32.text_infinity.symm
    · rfl
  | var => rfl
  | binary position op left right =>
    rw [infinityAsName, bare, text, text, text_erased left, text_erased right]
  | negate position operand => rw [infinityAsName, bare, text, text, text_erased operand]
  | call position callee args => rw [infinityAsName, bare, text, text, argsText_erased args]
  | assign position target value => rw [infinityAsName, bare, text, text, text_erased value]

theorem Expr.argsText_erased (args : List Expr) :
    argsText (bareAll (infinityAsNameAll args)) = argsText args := by
  cases args with
  | nil => rfl
  | cons first rest =>
    rw [infinityAsNameAll, bareAll, argsText, argsText, text_erased first, argsText_erased rest]

end

mutual

/-- Neither of them gets into the text of a statement, at any level of indentation. -/
theorem Stmt.text_erased (level : Nat) (statement : Stmt) :
    statement.infinityAsName.bare.text level = statement.text level := by
  cases statement with
  | assign position target value =>
    rw [infinityAsName, bare, text, text, Expr.text_erased value]
  | discard position value => rw [infinityAsName, bare, text, text, Expr.text_erased value]
  | print position value => rw [infinityAsName, bare, text, text, Expr.text_erased value]
  | branch position condition body alternative =>
    cases alternative with
    | none =>
      rw [infinityAsName, bare, text, text, Expr.text_erased condition, linesText_erased _ body]
    | some alternative =>
      rw [infinityAsName, bare, text, text, Expr.text_erased condition, linesText_erased _ body,
        linesText_erased _ alternative]
  | loop position condition body =>
    rw [infinityAsName, bare, text, text, Expr.text_erased condition, linesText_erased _ body]
  | return_ position value =>
    cases value with
    | none => rfl
    | some value =>
      rw [infinityAsName, bare, Option.map_some, Option.map_some, text, text,
        Expr.text_erased value]
  | block position body => rw [infinityAsName, bare, text, text, linesText_erased _ body]

theorem Stmt.linesText_erased (level : Nat) (body : List Stmt) :
    linesText level (bareAll (infinityAsNameAll body)) = linesText level body := by
  cases body with
  | nil => rfl
  | cons first rest =>
    rw [infinityAsNameAll, bareAll, linesText, linesText, text_erased level first,
      linesText_erased level rest]

end

theorem Function.text_erased (function : Function) :
    function.infinityAsName.bare.text = function.text := by
  have params : (function.params.map Param.bare).map Param.name = function.params.map Param.name :=
    List.map_map
  unfold text
  simp only [infinityAsName, bare, params, Stmt.linesText_erased]

theorem Program.text_erased (program : Program) :
    program.infinityAsName.bare.text = program.text := by
  simp [text, infinityAsName, bare, Function.comp_def, Function.text_erased]

/-! ### The form determines the tree -/

/-- No word begins like a numeral. -/
theorem IsWord.not_numeral {name : String} (isWord : IsWord name) {first : Char}
    {rest : List Char} (text_eq : name.toList = first :: rest) :
    ¬(first.isDigit ∨ first = '-') := by
  obtain ⟨start, _, word_eq, isStart, _⟩ := isWord
  obtain rfl : start = first := (List.cons.inj (word_eq.symm.trans text_eq)).1
  rintro (digit | rfl)
  · rw [Pattern.not_isDigit_of_isWordStart isStart] at digit
    cases digit
  · exact absurd isStart (by decide +kernel)

/-- No name is written like an integer. -/
theorem IsWord.ne_toString {name : String} (isWord : IsWord name) (n : Int) :
    toString n ≠ name := by
  rintro rfl
  obtain ⟨nonempty, -⟩ := oneWord_toString n
  obtain ⟨first, rest, text_eq⟩ := List.exists_cons_of_ne_nil nonempty
  refine isWord.not_numeral text_eq (Numeral.mem_integerText (n := n) ?_)
  rw [← Numeral.toList_toString, text_eq]
  exact List.mem_cons_self

namespace Binary32.IsNumber

variable {x : Float32}

/-- No float is written like an integer. -/
theorem text_ne_toString (number : IsNumber x) (n : Int) : text .exact x ≠ toString n := by
  intro same
  refine number.text_ne_integerText n ?_
  rw [same, Numeral.toList_toString]

/-- The only number that is written like a variable is infinity. -/
theorem eq_infinity_of_isWord (number : IsNumber x) (isWord : IsWord (text .exact x)) :
    x = infinity false := by
  obtain infinite | ⟨first, rest, text_eq, numeral⟩ := number.infinity_or_numeral
  · exact infinite
  · exact absurd numeral (isWord.not_numeral text_eq)

end Binary32.IsNumber

theorem BinaryOp.spelling_inj {op other : BinaryOp} (same : op.spelling = other.spelling) :
    op = other := by
  revert same
  obtain op | op := op <;> obtain other | other := other <;> cases op <;> cases other <;> decide

theorem BinaryOp.spelling_ne_call (op : BinaryOp) : op.spelling ≠ "call" := by
  obtain op | op := op <;> cases op <;> decide

theorem BinaryOp.spelling_ne_assign (op : BinaryOp) : op.spelling ≠ "=" := by
  obtain op | op := op <;> cases op <;> decide

namespace Expr

/-- The word that the expression is, if it is a literal or a variable. -/
def word? : Expr → Option String
  | .int _ value => some (toString value.toInt)
  | .float _ value => some (Binary32.text .exact value)
  | .var _ name => some name
  | _ => none

theorem form_of_word? {e : Expr} {word : String} (isWord : e.word? = some word) :
    e.form = .ofText word := by
  cases e with
  | int | float | var => exact Option.some.inj isWord ▸ rfl
  | _ => cases isWord

/-- Other expressions stand in parentheses. -/
theorem form_ne_ofText {e : Expr} (compound : e.word? = none) (word : String) :
    e.form ≠ .ofText word := by
  cases e with
  | int | float | var => cases compound
  | _ => exact Form.ofText_ne_headed.symm

theorem erased_float (here there : Position) (x : Float32) :
    (float here x).infinityAsName.bare = (float there x).infinityAsName.bare := by
  rw [infinityAsName, infinityAsName]
  split <;> rfl

/-- A literal that is written like a variable is erased to that variable. -/
theorem erased_float_eq_var {here there : Position} {x : Float32} {name : String}
    (number : Binary32.IsNumber x) (isWord : IsWord name)
    (same : Binary32.text .exact x = name) :
    (float here x).infinityAsName.bare = (var there name).infinityAsName.bare := by
  subst same
  obtain rfl := number.eq_infinity_of_isWord isWord
  rw [infinityAsName, if_pos rfl, Binary32.text_infinity]
  rfl

/-- Literals and variables are told apart by their words, but for infinity. -/
theorem erased_eq_of_word?_eq {e other : Expr} {word : String} (spelled : e.WellSpelled)
    (spelledOther : other.WellSpelled) (isWord : e.word? = some word)
    (isWordToo : other.word? = some word) :
    e.infinityAsName.bare = other.infinityAsName.bare := by
  have both : e.word? = other.word? := isWord.trans isWordToo.symm
  -- No number is printed as a word and no float as an integer. What is left is a float against a
  -- name, which agree only if the float is infinite.
  cases e with
  | int _ value =>
    cases other with
    | int _ otherValue =>
      rw [Int32.toInt_inj.mp (Numeral.toString_inj (Option.some.inj both))]
      rfl
    | float _ x =>
      exact absurd (Option.some.inj both).symm
        (Binary32.IsNumber.text_ne_toString spelledOther value.toInt)
    | var _ name =>
      exact absurd (Option.some.inj both) (IsWord.ne_toString spelledOther value.toInt)
    | _ => cases isWordToo
  | float _ x =>
    cases other with
    | int _ value =>
      exact absurd (Option.some.inj both) (Binary32.IsNumber.text_ne_toString spelled value.toInt)
    | float _ y =>
      obtain rfl := Binary32.IsNumber.text_inj spelled spelledOther (Option.some.inj both)
      exact erased_float ..
    | var _ name => exact erased_float_eq_var spelled spelledOther (Option.some.inj both)
    | _ => cases isWordToo
  | var _ name =>
    cases other with
    | int _ value =>
      exact absurd (Option.some.inj both).symm (IsWord.ne_toString spelled value.toInt)
    | float _ x =>
      exact (erased_float_eq_var spelledOther spelled (Option.some.inj both).symm).symm
    | var _ otherName =>
      obtain rfl : name = otherName := Option.some.inj both
      rfl
    | _ => cases isWordToo
  | _ => cases isWord

theorem erased_eq_of_word {e other : Expr} {word : String} (spelled : e.WellSpelled)
    (spelledOther : other.WellSpelled) (isWord : e.word? = some word)
    (same : e.form = other.form) : e.infinityAsName.bare = other.infinityAsName.bare := by
  cases isWordToo : other.word? with
  | none => exact absurd (same.symm.trans (form_of_word? isWord)) (form_ne_ofText isWordToo word)
  | some otherWord =>
    have words := (form_of_word? isWord).symm.trans (same.trans (form_of_word? isWordToo))
    exact erased_eq_of_word?_eq spelled spelledOther (Form.ofText_inj words ▸ isWord) isWordToo

mutual

/-- Expressions with the same form are the same, but for what is erased. -/
theorem erased_eq_of_form_eq (e other : Expr) (spelled : e.WellSpelled)
    (spelledOther : other.WellSpelled) (same : e.form = other.form) :
    e.infinityAsName.bare = other.infinityAsName.bare := by
  cases e with
  | int => exact erased_eq_of_word spelled spelledOther rfl same
  | float => exact erased_eq_of_word spelled spelledOther rfl same
  | var => exact erased_eq_of_word spelled spelledOther rfl same
  | binary _ op left right =>
    cases other with
    | binary _ otherOp otherLeft otherRight =>
      obtain ⟨lefts, rights⟩ := Form.headed_two_inj same
      simp only [infinityAsName, bare, BinaryOp.spelling_inj (Form.headed_inj same).1,
        erased_eq_of_form_eq left otherLeft spelled.1 spelledOther.1 lefts,
        erased_eq_of_form_eq right otherRight spelled.2 spelledOther.2 rights]
    | negate => exact absurd (Form.headed_inj same).2 (by simp)
    | call => exact absurd (Form.headed_inj same).1 op.spelling_ne_call
    | assign => exact absurd (Form.headed_inj same).1 op.spelling_ne_assign
    | _ => exact absurd same.symm Form.ofText_ne_headed
  | negate _ operand =>
    cases other with
    | binary => exact absurd (Form.headed_inj same).2 (by simp)
    | negate _ otherOperand =>
      have operands := Form.headed_one_inj same
      simp only [infinityAsName, bare,
        erased_eq_of_form_eq operand otherOperand spelled spelledOther operands]
    | call => exact absurd (Form.headed_inj same).1 (by decide)
    | assign => exact absurd (Form.headed_inj same).1 (by decide)
    | _ => exact absurd same.symm Form.ofText_ne_headed
  | call _ callee args =>
    cases other with
    | binary _ op => exact absurd (Form.headed_inj same).1.symm op.spelling_ne_call
    | negate => exact absurd (Form.headed_inj same).1 (by decide)
    | call _ otherCallee otherArgs =>
      obtain ⟨callees, arguments⟩ := List.cons.inj (Form.headed_inj same).2
      simp only [infinityAsName, bare, Form.ofText_inj callees,
        erasedAll_eq_of_forms_eq args otherArgs spelled.2 spelledOther.2 arguments]
    | assign => exact absurd (Form.headed_inj same).1 (by decide)
    | _ => exact absurd same.symm Form.ofText_ne_headed
  | assign _ target value =>
    cases other with
    | binary _ op => exact absurd (Form.headed_inj same).1.symm op.spelling_ne_assign
    | negate => exact absurd (Form.headed_inj same).1 (by decide)
    | call => exact absurd (Form.headed_inj same).1 (by decide)
    | assign _ otherTarget otherValue =>
      obtain ⟨targets, values⟩ := Form.headed_two_inj same
      simp only [infinityAsName, bare, Form.ofText_inj targets,
        erased_eq_of_form_eq value otherValue spelled.2 spelledOther.2 values]
    | _ => exact absurd same.symm Form.ofText_ne_headed

theorem erasedAll_eq_of_forms_eq (args others : List Expr) (spelled : AllWellSpelled args)
    (spelledOthers : AllWellSpelled others) (same : formsOfAll args = formsOfAll others) :
    bareAll (infinityAsNameAll args) = bareAll (infinityAsNameAll others) := by
  cases args with
  | nil =>
    cases others with
    | nil => rfl
    | cons => cases same
  | cons first rest =>
    cases others with
    | nil => cases same
    | cons otherFirst otherRest =>
      obtain ⟨firsts, rests⟩ := List.cons.inj same
      simp only [infinityAsNameAll, bareAll,
        erased_eq_of_form_eq first otherFirst spelled.1 spelledOthers.1 firsts,
        erasedAll_eq_of_forms_eq rest otherRest spelled.2 spelledOthers.2 rests]

end

end Expr

namespace Stmt

/-- The word that the statement begins with. -/
def head : Stmt → String
  | .assign .. => "="
  | .discard .. => "expr-stmt"
  | .print .. => "print"
  | .branch _ _ _ alternative => if alternative.isSome then "if-else" else "if"
  | .loop .. => "while"
  | .return_ .. => "return"
  | .block .. => "block"

/-- A statement stands in parentheses behind its word. -/
theorem exists_form_eq (statement : Stmt) :
    ∃ parts, statement.form = .headed statement.head parts := by
  cases statement with
  | branch _ _ _ alternative => cases alternative <;> exact ⟨_, rfl⟩
  | return_ _ value => cases value <;> exact ⟨_, rfl⟩
  | _ => exact ⟨_, rfl⟩

theorem head_eq_of_form_eq {statement other : Stmt} (same : statement.form = other.form) :
    statement.head = other.head := by
  obtain ⟨parts, form_eq⟩ := statement.exists_form_eq
  obtain ⟨otherParts, otherForm_eq⟩ := other.exists_form_eq
  exact (Form.headed_inj (form_eq.symm.trans (same.trans otherForm_eq))).1

mutual

/-- Statements with the same form are the same, but for what is erased. -/
theorem erased_eq_of_form_eq (statement other : Stmt) (spelled : statement.WellSpelled)
    (spelledOther : other.WellSpelled) (same : statement.form = other.form) :
    statement.infinityAsName.bare = other.infinityAsName.bare := by
  have heads := head_eq_of_form_eq same
  cases statement <;> cases other
  case assign.assign _ target value _ otherTarget otherValue =>
    obtain ⟨targets, values⟩ := Form.headed_two_inj same
    simp only [infinityAsName, bare, Form.ofText_inj targets,
      value.erased_eq_of_form_eq otherValue spelled.2 spelledOther.2 values]
  case discard.discard _ value _ otherValue =>
    have values := Form.headed_one_inj same
    simp only [infinityAsName, bare,
      value.erased_eq_of_form_eq otherValue spelled spelledOther values]
  case print.print _ value _ otherValue =>
    have values := Form.headed_one_inj same
    simp only [infinityAsName, bare,
      value.erased_eq_of_form_eq otherValue spelled spelledOther values]
  case branch.branch _ condition body alternative _ otherCondition otherBody otherAlternative =>
    cases alternative <;> cases otherAlternative
    case none.none =>
      obtain ⟨conditions, blocks⟩ := Form.headed_two_inj same
      obtain ⟨-, bodies⟩ := Form.headed_inj blocks
      simp only [infinityAsName, bare,
        condition.erased_eq_of_form_eq otherCondition spelled.1 spelledOther.1 conditions,
        erasedAll_eq_of_forms_eq body otherBody spelled.2 spelledOther.2 bodies]
    case some.some alternative otherAlternative =>
      obtain ⟨-, parts⟩ := Form.headed_inj same
      simp only [List.cons.injEq, and_true] at parts
      obtain ⟨-, bodies⟩ := Form.headed_inj parts.2.1
      obtain ⟨-, alternatives⟩ := Form.headed_inj parts.2.2
      simp only [infinityAsName, bare,
        condition.erased_eq_of_form_eq otherCondition spelled.1 spelledOther.1 parts.1,
        erasedAll_eq_of_forms_eq body otherBody spelled.2.1 spelledOther.2.1 bodies,
        erasedAll_eq_of_forms_eq alternative otherAlternative spelled.2.2 spelledOther.2.2
          alternatives]
    all_goals exact absurd heads (by simp [head])
  case loop.loop _ condition body _ otherCondition otherBody =>
    obtain ⟨conditions, blocks⟩ := Form.headed_two_inj same
    obtain ⟨-, bodies⟩ := Form.headed_inj blocks
    simp only [infinityAsName, bare,
      condition.erased_eq_of_form_eq otherCondition spelled.1 spelledOther.1 conditions,
      erasedAll_eq_of_forms_eq body otherBody spelled.2 spelledOther.2 bodies]
  case return_.return_ _ value _ otherValue =>
    cases value <;> cases otherValue
    case none.none => rfl
    case some.some value otherValue =>
      have values := Form.headed_one_inj same
      simp only [infinityAsName, bare, Option.map_some,
        value.erased_eq_of_form_eq otherValue spelled spelledOther values]
    all_goals exact absurd (Form.headed_inj same).2 (by simp)
  case block.block _ body _ otherBody =>
    obtain ⟨-, bodies⟩ := Form.headed_inj same
    simp only [infinityAsName, bare,
      erasedAll_eq_of_forms_eq body otherBody spelled spelledOther bodies]
  -- Statements of two kinds begin with two words.
  all_goals
    simp only [head] at heads
    first
    | exact absurd heads (by decide)
    | split at heads <;> exact absurd heads (by decide)

theorem erasedAll_eq_of_forms_eq (body others : List Stmt) (spelled : AllWellSpelled body)
    (spelledOthers : AllWellSpelled others) (same : formsOfAll body = formsOfAll others) :
    bareAll (infinityAsNameAll body) = bareAll (infinityAsNameAll others) := by
  cases body with
  | nil =>
    cases others with
    | nil => rfl
    | cons => cases same
  | cons first rest =>
    cases others with
    | nil => cases same
    | cons otherFirst otherRest =>
      obtain ⟨firsts, rests⟩ := List.cons.inj same
      simp only [infinityAsNameAll, bareAll,
        erased_eq_of_form_eq first otherFirst spelled.1 spelledOthers.1 firsts,
        erasedAll_eq_of_forms_eq rest otherRest spelled.2 spelledOthers.2 rests]

end

end Stmt

theorem bare_params_eq {params others : List Param}
    (same : params.map (fun param => Form.ofText param.name) =
      others.map fun param => Form.ofText param.name) :
    params.map Param.bare = others.map Param.bare := by
  induction params generalizing others with
  | nil =>
    cases others with
    | nil => rfl
    | cons => cases same
  | cons first rest ih =>
    cases others with
    | nil => cases same
    | cons otherFirst otherRest =>
      obtain ⟨names, rests⟩ := List.cons.inj same
      simp only [List.map_cons, Param.bare, Form.ofText_inj names, ih rests]

/-- The name, the parameters and the body of a function can be told from its form. -/
theorem Function.erased_eq_of_form_eq {function other : Function}
    (spelled : function.WellSpelled) (spelledOther : other.WellSpelled)
    (same : function.form = other.form) :
    function.infinityAsName.bare = other.infinityAsName.bare := by
  obtain ⟨-, parts⟩ := Form.headed_inj same
  simp only [List.cons.injEq, Form.group.injEq, and_true] at parts
  obtain ⟨names, params, blocks⟩ := parts
  obtain ⟨-, bodies⟩ := Form.headed_inj blocks
  simp only [infinityAsName, bare, Form.ofText_inj names, bare_params_eq params,
    Stmt.erasedAll_eq_of_forms_eq function.body other.body spelled.body spelledOther.body bodies]

theorem Function.erasedAll_eq_of_forms_eq {functions others : List Function}
    (spelled : ∀ function ∈ functions, function.WellSpelled)
    (spelledOthers : ∀ function ∈ others, function.WellSpelled)
    (same : functions.map form = others.map form) :
    functions.map (·.infinityAsName.bare) = others.map (·.infinityAsName.bare) := by
  induction functions generalizing others with
  | nil =>
    cases others with
    | nil => rfl
    | cons => cases same
  | cons first rest ih =>
    cases others with
    | nil => cases same
    | cons otherFirst otherRest =>
      obtain ⟨firsts, rests⟩ := List.cons.inj same
      obtain ⟨firstSpelled, restSpelled⟩ := List.forall_mem_cons.mp spelled
      obtain ⟨otherSpelled, othersSpelled⟩ := List.forall_mem_cons.mp spelledOthers
      rw [List.map_cons, List.map_cons, ih restSpelled othersSpelled rests,
        erased_eq_of_form_eq firstSpelled otherSpelled firsts]

theorem Program.erased_eq_of_form_eq {program other : Program} (spelled : program.WellSpelled)
    (spelledOther : other.WellSpelled) (same : program.form = other.form) :
    program.infinityAsName.bare = other.infinityAsName.bare := by
  have functions := Function.erasedAll_eq_of_forms_eq spelled spelledOther (Form.headed_inj same).2
  simpa [infinityAsName, bare, Function.comp_def] using functions

/-- Two sources have the same printed tree exactly if their trees differ only in their places, and
in infinity being written like a variable. -/
theorem Program.prints_alike_iff {source otherSource : String} {program other : Program}
    (parsed : Program.ofSource source = .ok program)
    (parsedOther : Program.ofSource otherSource = .ok other) :
    program.text = other.text ↔ program.infinityAsName.bare = other.infinityAsName.bare := by
  have spelled := Program.wellSpelled_of_ofSource parsed
  have spelledOther := Program.wellSpelled_of_ofSource parsedOther
  constructor
  · intro same
    have spells := Program.spells spelled
    rw [same] at spells
    exact Program.erased_eq_of_form_eq spelled spelledOther
      (spells.unique (Program.spells spelledOther))
  · intro same
    rw [← program.text_erased, same, other.text_erased]

/-- Returns a number beyond the largest one. -/
def overflowSource : String :=
  "function f() \x7b return 1000000000000000000000000000000000000000.0; \x7d"

/-- Returns a variable. -/
def variableSource : String := "function f() \x7b return inf; \x7d"

/-- A function that returns the value. -/
def Program.returning (value : Expr) : Program :=
  ⟨[⟨"f", [], [.return_ ⟨1, 16⟩ (some value)], ⟨1, 1⟩⟩]⟩

/-- The tokens of a function that returns the value of one token, which ends in the given column. -/
def Token.returning (value : Token) (column : Nat) : List Token :=
  [⟨.keyword .function, "function", ⟨1, 1⟩⟩, ⟨.identifier, "f", ⟨1, 10⟩⟩,
    ⟨.symbol .leftParen, "(", ⟨1, 11⟩⟩, ⟨.symbol .rightParen, ")", ⟨1, 12⟩⟩,
    ⟨.symbol .leftBrace, "\x7b", ⟨1, 14⟩⟩, ⟨.keyword .return_, "return", ⟨1, 16⟩⟩, value,
    ⟨.symbol .semicolon, ";", ⟨1, column⟩⟩, ⟨.symbol .rightBrace, "\x7d", ⟨1, column + 2⟩⟩]

/-- A function that returns what one token stands for. -/
theorem Program.ofTokens_returning {token : Token} {value : Expr} (column : Nat)
    (phrase : Phrase .assignment [token] value) (real : token.kind ≠ .eof) :
    Program.ofTokens (Token.returning token column ++ [.eofAt ⟨1, column + 3⟩]) =
      .ok (.returning value) := by
  refine (Program.ofTokens_eq_ok_iff ?_ rfl _).mpr ?_
  · simp [Token.returning, real]
  · exact .cons (.function rfl rfl rfl .none rfl rfl
      (.cons (.returnValue rfl phrase rfl) .nil) rfl) .nil

theorem Program.prints_alike_iff_overflow :
    Program.ofSource overflowSource =
        .ok (.returning (.float ⟨1, 23⟩ (Binary32.infinity false))) ∧
      Program.ofSource variableSource = .ok (.returning (.var ⟨1, 23⟩ "inf")) ∧
      (Program.returning (.float ⟨1, 23⟩ (Binary32.infinity false))).text =
        (Program.returning (.var ⟨1, 23⟩ "inf")).text := by
  let literal : Token :=
    ⟨.floatLiteral, "1000000000000000000000000000000000000000.0", ⟨1, 23⟩⟩
  have reads : Binary32.ofNumeral? literal.lexeme.toList = some (Binary32.infinity false) := by
    decide +kernel
  have parsed : Program.ofSource overflowSource =
      .ok (.returning (.float ⟨1, 23⟩ (Binary32.infinity false))) := by
    have listed : Token.listOf overflowSource =
        Token.returning literal 65 ++ [.eofAt ⟨1, 68⟩] := by decide +kernel
    rw [Program.ofSource, listed]
    exact Program.ofTokens_returning 65 ((Phrase.float rfl reads).loosenTo (by decide))
      (show Kind.floatLiteral ≠ .eof by decide)
  have parsedVariable : Program.ofSource variableSource =
      .ok (.returning (.var ⟨1, 23⟩ "inf")) := by
    have listed : Token.listOf variableSource =
        Token.returning ⟨.identifier, "inf", ⟨1, 23⟩⟩ 26 ++ [.eofAt ⟨1, 29⟩] := by decide +kernel
    rw [Program.ofSource, listed]
    exact Program.ofTokens_returning 26 ((Phrase.var rfl).loosenTo (by decide)) (by decide)
  refine ⟨parsed, parsedVariable, (Program.prints_alike_iff parsed parsedVariable).mpr ?_⟩
  rfl

end ImpStack
