import ImpStack.Proofs.ProgramGrammar
import ImpStack.Proofs.Visits

/-!
Where the names of a tree stand. An expression in parentheses has the place of the first of them, so
that the place of a name is that of the name itself or of parentheses in front of it (`StandsAt`).

By induction on derivations of the grammar, every use in a phrase stands in the tokens of the phrase
(`Phrase.uses_standIn`, `Statement.usesStandIn`), and so it is for the functions of a program
(`ProgramText.standsIn`).
-/
namespace ImpStack

/-- The token is the name. -/
def Token.IsName (token : Token) (name : String) : Prop :=
  token.kind = .identifier ∧ token.lexeme = name

/-- The first of the tokens that is no opening parenthesis is the name. -/
def Named (name : String) (tokens : List Token) : Prop :=
  ∃ token, tokens.find? (·.kind ≠ .symbol .leftParen) = some token ∧ token.IsName name

/-- At the position begin parentheses around the name, or the name itself. -/
def StandsAt (tokens : List Token) (position : Position) (name : String) : Prop :=
  ∃ before token behind, tokens = before ++ token :: behind ∧ token.position = position ∧
    Named name (token :: behind)

variable {tokens : List Token} {name : String} {position : Position}

namespace Named

theorem of_name {token : Token} (isName : token.IsName name) (behind : List Token) :
    Named name (token :: behind) :=
  ⟨token, by simp [isName.1], isName⟩

theorem append (named : Named name tokens) (behind : List Token) :
    Named name (tokens ++ behind) := by
  obtain ⟨token, found, isName⟩ := named
  exact ⟨token, by rw [List.find?_append, found, Option.some_or], isName⟩

/-- Parentheses may stand in front of the name. -/
theorem behind_paren {opening : Token} (kind : opening.kind = .symbol .leftParen)
    (named : Named name tokens) : Named name (opening :: tokens) := by
  obtain ⟨token, found, isName⟩ := named
  exact ⟨token, by simpa [kind] using found, isName⟩

/-- The tokens themselves have the place of their first one. -/
theorem standsAt (named : Named name tokens) : StandsAt tokens (place tokens) name := by
  cases tokens with
  | nil =>
    obtain ⟨token, found, _⟩ := named
    cases found
  | cons token behind => exact ⟨[], token, behind, rfl, rfl, named⟩

end Named

theorem StandsAt.within (stands : StandsAt tokens position name) (earlier later : List Token) :
    StandsAt (earlier ++ tokens ++ later) position name := by
  obtain ⟨before, token, behind, rfl, position_eq, named⟩ := stands
  exact ⟨earlier ++ before, token, behind ++ later, by simp, position_eq, named.append later⟩

/-- The name that is used and the place that its use has. -/
def Use.mention? : Use → Option (String × Position)
  | .read name position _ => some (name, position)
  | .call callee _ position => some (callee, position)
  | .assigned _ => none

/-- The name that is used stands at the place of the use. -/
def Use.StandsIn (tokens : List Token) (use : Use) : Prop :=
  ∀ name position, use.mention? = some (name, position) → StandsAt tokens position name

theorem Use.StandsIn.within {use : Use} (stands : use.StandsIn tokens)
    (earlier later : List Token) : use.StandsIn (earlier ++ tokens ++ later) :=
  fun name position mentions => (stands name position mentions).within earlier later

theorem Use.StandsIn.append {use : Use} (stands : use.StandsIn tokens) (later : List Token) :
    use.StandsIn (tokens ++ later) :=
  stands.within [] later

theorem Use.StandsIn.behind {use : Use} (stands : use.StandsIn tokens) (earlier : List Token) :
    use.StandsIn (earlier ++ tokens) := by
  simpa using stands.within earlier []

/-! ### Expressions -/

namespace Expr

/-- The name with which a variable or a call begins. -/
def leadingName? : Expr → Option String
  | .var _ name => some name
  | .call _ callee _ => some callee
  | _ => none

/-- An expression in parentheses begins with the same name. -/
theorem leadingName?_moveTo (position : Position) (e : Expr) :
    (e.moveTo position).leadingName? = e.leadingName? := by
  cases e <;> rfl

/-- Moving an expression changes the place of its leading name and no other place. -/
theorem mem_uses_moveTo {e : Expr} {inside : List String} {use : Use}
    (member : use ∈ (e.moveTo position).uses inside) :
    use ∈ e.uses inside ∨
      ∃ name, e.leadingName? = some name ∧ use.mention? = some (name, position) := by
  cases e with
  | var here name =>
    obtain rfl := List.mem_singleton.mp member
    exact .inr ⟨name, rfl, rfl⟩
  | call here callee args =>
    rcases List.mem_cons.mp member with rfl | inArgs
    · exact .inr ⟨callee, rfl, rfl⟩
    · exact .inl (List.mem_cons_of_mem _ inArgs)
  | _ => exact .inl member

end Expr

/-- If an expression begins with a name, so do its tokens, apart from parentheses. -/
theorem Phrase.named {level : Level} {tokens : List Token} {e : Expr} {name : String}
    (phrase : Phrase level tokens e) (leads : e.leadingName? = some name) : Named name tokens := by
  match phrase with
  | .int _ _ => cases leads
  | .float _ _ => cases leads
  | .var kind =>
    obtain rfl := Option.some.inj leads
    exact .of_name ⟨kind, rfl⟩ []
  | .group openingKind whole _ =>
    rw [Expr.leadingName?_moveTo] at leads
    exact ((whole.named leads).behind_paren openingKind).append _
  | .call callee _ _ _ =>
    obtain rfl := Option.some.inj leads
    rw [List.append_assoc]
    exact (callee.named rfl).append _
  | .negate _ _ => cases leads
  | .binary _ _ _ => cases leads
  | .assign _ _ _ => cases leads
  | .loosen tighter => exact tighter.named leads

mutual

/-- The uses in an expression stand in its tokens, those in parentheses at the parenthesis. -/
theorem Phrase.uses_standIn {level : Level} {tokens : List Token} {e : Expr}
    (phrase : Phrase level tokens e) (inside : List String) :
    ∀ use ∈ e.uses inside, use.StandsIn tokens := by
  intro use member
  match phrase with
  | .int _ _ => cases member
  | .float _ _ => cases member
  | .var kind =>
    obtain rfl := List.mem_singleton.mp member
    rintro name position ⟨⟩
    exact (Named.of_name ⟨kind, rfl⟩ []).standsAt
  | .group openingKind whole _ =>
    -- The parentheses move the leading name of the expression to the opening one. All others keep
    -- their places.
    rcases Expr.mem_uses_moveTo member with kept | ⟨leading, leads, moved⟩
    · exact ((whole.uses_standIn inside use kept).behind [_]).append _
    · intro name position mentions
      obtain ⟨rfl, rfl⟩ := Prod.mk.inj (Option.some.inj (moved.symm.trans mentions))
      exact (((whole.named leads).behind_paren openingKind).append _).standsAt
  | @Phrase.call opening closing left _ _ _ _ callee _ arguments _ =>
    -- A call is placed where its callee is, not at the parenthesis.
    rcases List.mem_cons.mp member with rfl | inArgs
    · rintro name position ⟨⟩
      rw [List.append_assoc, ← place_append callee.ne_nil]
      exact ((callee.named rfl).append _).standsAt
    · have stands := (arguments.uses_standIn inside use inArgs).within (left ++ [opening]) [closing]
      simpa only [List.append_assoc, List.singleton_append] using stands
  | .negate _ operandPhrase => exact (operandPhrase.uses_standIn inside use member).behind [_]
  | .binary leftPhrase _ rightPhrase =>
    rcases List.mem_append.mp member with inLeft | inRight
    · exact (leftPhrase.uses_standIn inside use inLeft).append _
    · rw [List.append_cons]
      exact (rightPhrase.uses_standIn inside use inRight).behind _
  | .assign _ _ valuePhrase =>
    rcases List.mem_append.mp member with inValue | last
    · rw [List.append_cons]
      exact (valuePhrase.uses_standIn _ use inValue).behind _
    · obtain rfl := List.mem_singleton.mp last
      rintro name position ⟨⟩
  | .loosen tighter => exact tighter.uses_standIn inside use member

theorem Arguments.uses_standIn {tokens : List Token} {args : List Expr}
    (arguments : Arguments tokens args) (inside : List String) :
    ∀ use ∈ Expr.usesOfAll inside args, use.StandsIn tokens := by
  intro use member
  match arguments with
  | .none => cases member
  | .some list => exact list.uses_standIn inside use member

theorem ArgumentList.uses_standIn {tokens : List Token} {args : List Expr}
    (list : ArgumentList tokens args) (inside : List String) :
    ∀ use ∈ Expr.usesOfAll inside args, use.StandsIn tokens := by
  intro use member
  match list with
  | .last phrase =>
    rw [Expr.usesOfAll, Expr.usesOfAll, List.append_nil] at member
    exact phrase.uses_standIn inside use member
  | .more phrase _ rest =>
    rcases List.mem_append.mp member with inFirst | inRest
    · exact (phrase.uses_standIn inside use inFirst).append _
    · rw [List.append_cons]
      exact (rest.uses_standIn inside use inRest).behind _

end

/-! ### Statements -/

/-- Whatever blocks the statements stand in, their uses stand in the tokens. -/
def UsesStandIn (tokens : List Token) (body : Block) : Prop :=
  ∀ block index, ∀ visit ∈ Stmt.visitsOfAll block index body, visit.use.StandsIn tokens

theorem Phrase.visits_standIn {level : Level} {e : Expr} (phrase : Phrase level tokens e)
    {block : BlockPath} {inside : List String} :
    ∀ visit ∈ e.visits block inside, visit.use.StandsIn tokens := by
  intro visit member
  obtain ⟨use, among, rfl⟩ := List.mem_map.mp member
  exact phrase.uses_standIn inside use among

/-- The uses in a statement are those in the statement as a block. -/
theorem Stmt.mem_visitsOfAll_asBlock {statement : Stmt} {block : BlockPath} {index : Nat}
    {visit : Visit} (member : visit ∈ statement.visits block index) :
    ∃ block index, visit ∈ Stmt.visitsOfAll block index statement.asBlock := by
  cases statement with
  | block position body => exact ⟨_, _, member⟩
  | _ => exact ⟨block, index, List.mem_append_left _ member⟩

namespace Expr

theorem asBlock_asStatement (position : Position) (e : Expr) :
    (e.asStatement position).asBlock = [e.asStatement position] := by
  cases e <;> rfl

/-- An assignment has the same uses as an expression and as a statement. -/
theorem visits_asStatement (position : Position) (e : Expr) (block : BlockPath) (index : Nat) :
    (e.asStatement position).visits block index = e.visits block [] := by
  cases e with
  | assign here target value => rw [visits_assign]; rfl
  | _ => rfl

end Expr

namespace UsesStandIn

variable {statement : Stmt} {body : Block}

theorem nil (tokens : List Token) : UsesStandIn tokens [] := by
  intro block index visit member
  cases member

/-- A statement that is no block is its own block. -/
theorem single (stand : ∀ block index, ∀ visit ∈ statement.visits block index,
    visit.use.StandsIn tokens) : UsesStandIn tokens [statement] := by
  intro block index visit member
  rw [Stmt.visitsOfAll, Stmt.visitsOfAll, List.append_nil] at member
  exact stand block index visit member

theorem cons {later : List Token} (first : UsesStandIn tokens statement.asBlock)
    (others : UsesStandIn later body) : UsesStandIn (tokens ++ later) (statement :: body) := by
  intro block index visit member
  rcases List.mem_append.mp member with inFirst | inOthers
  · obtain ⟨_, _, listed⟩ := Stmt.mem_visitsOfAll_asBlock inFirst
    exact (first _ _ visit listed).append later
  · exact (others _ _ visit inOthers).behind tokens

end UsesStandIn

/-- The uses in a condition and in what it guards. -/
theorem standIn_guarded {keyword opening closing : Token} {test body : List Token}
    {condition : Expr} {guarded : Block} (testPhrase : Phrase .assignment test condition)
    (stand : UsesStandIn body guarded) {block inner : BlockPath} :
    ∀ visit ∈ condition.visits block [] ++ Stmt.visitsOfAll inner 0 guarded,
      visit.use.StandsIn (keyword :: opening :: test ++ closing :: body) := by
  intro visit member
  rcases List.mem_append.mp member with inTest | inBody
  · exact ((testPhrase.visits_standIn visit inTest).behind [keyword, opening]).append _
  · rw [List.append_cons]
    exact (stand _ _ visit inBody).behind _

mutual

/-- The uses in a statement stand in its tokens. -/
theorem Statement.usesStandIn {rule : ElseRule} {dangling : Bool} {tokens : List Token}
    {statement : Stmt} (reading : Statement rule dangling tokens statement) :
    UsesStandIn tokens statement.asBlock := by
  match reading with
  | .branch _ _ testPhrase _ bodyStatement =>
    refine .single fun block index visit member => ?_
    exact standIn_guarded testPhrase bodyStatement.usesStandIn visit member
  | .branchElse _ _ testPhrase _ bodyStatement _ _ otherStatement =>
    refine .single fun block index visit member => ?_
    rw [Stmt.visits, ← List.append_assoc] at member
    rcases List.mem_append.mp member with before | inOther
    · exact (standIn_guarded testPhrase bodyStatement.usesStandIn visit before).append _
    · rw [List.append_cons]
      exact (otherStatement.usesStandIn _ _ visit inOther).behind _
  | .loop _ _ testPhrase _ bodyStatement =>
    refine .single fun block index visit member => ?_
    exact standIn_guarded testPhrase bodyStatement.usesStandIn visit member
  | .print _ _ valuePhrase _ _ =>
    refine .single fun block index visit member => ?_
    exact ((valuePhrase.visits_standIn visit member).behind [_, _]).append _
  | .returnNone _ _ =>
    refine .single fun block index visit member => ?_
    cases member
  | .returnValue _ valuePhrase _ =>
    refine .single fun block index visit member => ?_
    exact ((valuePhrase.visits_standIn visit member).behind [_]).append _
  | .block _ statements _ =>
    intro block index visit member
    exact ((statements.usesStandIn block index visit member).behind [_]).append _
  | .expression phrase _ =>
    rw [Expr.asBlock_asStatement]
    refine .single fun block index visit member => ?_
    rw [Expr.visits_asStatement] at member
    exact (phrase.visits_standIn visit member).append _

theorem Statements.usesStandIn {rule : ElseRule} {tokens : List Token} {body : List Stmt}
    (reading : Statements rule tokens body) : UsesStandIn tokens body := by
  match reading with
  | .nil => exact .nil _
  | .cons first others => exact first.usesStandIn.cons others.usesStandIn

end

/-! ### Functions and programs -/

/-- Every parameter is a token at its own place. -/
theorem ParamList.standIn {params : List Param} (list : ParamList tokens params) :
    ∀ param ∈ params, ∃ token ∈ tokens,
      token.IsName param.name ∧ token.position = param.position := by
  induction list with
  | last kind =>
    intro param member
    obtain rfl := List.mem_singleton.mp member
    exact ⟨_, List.mem_singleton_self _, ⟨kind, rfl⟩, rfl⟩
  | more kind _ _ ih =>
    intro param member
    rcases List.mem_cons.mp member with rfl | later
    · exact ⟨_, List.mem_cons_self, ⟨kind, rfl⟩, rfl⟩
    · obtain ⟨token, among, stands⟩ := ih param later
      exact ⟨token, List.mem_cons_of_mem _ (List.mem_cons_of_mem _ among), stands⟩

/-- The places of a function, of its parameters and of the uses in its body. -/
structure Function.StandsIn (tokens : List Token) (function : Function) : Prop where
  head : ∃ before keyword name behind, tokens = before ++ keyword :: name :: behind ∧
    keyword.kind = .keyword .function ∧ keyword.position = function.position ∧
    name.IsName function.name
  params : ∀ param ∈ function.params, ∃ token ∈ tokens,
    token.IsName param.name ∧ token.position = param.position
  uses : ∀ visit ∈ function.visits, visit.use.StandsIn tokens

theorem Function.StandsIn.within {function : Function} (stands : function.StandsIn tokens)
    (earlier later : List Token) : function.StandsIn (earlier ++ tokens ++ later) where
  head := by
    obtain ⟨before, keyword, name, behind, rfl, is_head⟩ := stands.head
    exact ⟨earlier ++ before, keyword, name, behind ++ later, by simp, is_head⟩
  params := by
    intro param member
    obtain ⟨token, among, is_param⟩ := stands.params param member
    exact ⟨token, by simp [among], is_param⟩
  uses visit member := (stands.uses visit member).within earlier later

/-- A function is at its first word, with its name behind it. -/
theorem FunctionText.standsIn {rule : ElseRule} {function : Function}
    (text : FunctionText rule tokens function) : function.StandsIn tokens := by
  cases text with
  | @function keyword name opening closing bodyOpening bodyClosing inner body params statements
      keywordKind nameKind _ paramsText _ _ reading _ =>
    constructor
    · exact ⟨[], keyword, name, _, rfl, keywordKind, rfl, nameKind, rfl⟩
    · intro param member
      cases paramsText with
      | none => cases member
      | some list =>
        obtain ⟨token, among, is_param⟩ := list.standIn param member
        exact ⟨token, by simp [among], is_param⟩
    · intro visit member
      have stands := (reading.usesStandIn [] 0 visit member).within
        (keyword :: name :: opening :: inner ++ [closing, bodyOpening]) [bodyClosing]
      simpa using stands

/-- Each function of a program stands in its tokens. -/
theorem ProgramText.standsIn {rule : ElseRule} {program : Program}
    (text : ProgramText rule tokens program) :
    ∀ function ∈ program.functions, function.StandsIn tokens := by
  induction text with
  | nil =>
    intro function member
    cases member
  | cons first _ ih =>
    intro function member
    rcases List.mem_cons.mp member with rfl | later
    · exact first.standsIn.within [] _
    · simpa using (ih function later).within _ []

end ImpStack
