import ImpStack.Proofs.LocalNames

/-!
What a lowering that succeeds consists of, phrase by phrase, and where its code lies in a routine.
For each form of a phrase there is one lemma that takes a success apart: the lowerings of the parts,
with the offsets and slots that they start with, and the code as it is put together from theirs.
Proofs about code are by induction on trees and use these lemmas only.
-/
namespace ImpStack

/-- A step and what follows it succeed only if both do. -/
theorem bind_eq_ok {ε α β : Type} {step : Except ε α} {next : α → Except ε β} {result : β}
    (ok : (step >>= next) = .ok result) : ∃ value, step = .ok value ∧ next value = .ok result := by
  cases step with
  | error error => cases ok
  | ok value => exact ⟨value, rfl, ok⟩

theorem bind_ok {ε α β : Type} {step : Except ε α} {next : α → Except ε β} {value : α} {result : β}
    (first : step = .ok value) (second : next value = .ok result) :
    (step >>= next) = .ok result := by
  rw [first]
  exact second

/-- A success is not touched by what is done to errors. -/
theorem mapError_eq_ok {ε ε' α : Type} {step : Except ε α} {convert : ε → ε'} {value : α}
    (ok : step.mapError convert = .ok value) : step = .ok value := by
  cases step with
  | error error => cases ok
  | ok other =>
    obtain rfl := Except.ok.inj ok
    rfl

namespace Lowering

variable {arities : Arities} {void : Bool} {start : Nat} {slots : Slots} {position : Position}
  {lowered : Lowered}

/-! ### Expressions -/

theorem expr_int_ok {value : Int32}
    (ok : expr arities start slots (.int position value) = .ok lowered) :
    lowered = ⟨[.pushInt value], slots⟩ := by
  rw [expr] at ok
  exact (Except.ok.inj ok).symm

theorem expr_float_ok {value : Float32}
    (ok : expr arities start slots (.float position value) = .ok lowered) :
    lowered = ⟨[.pushFloat value], slots⟩ := by
  rw [expr] at ok
  exact (Except.ok.inj ok).symm

/-- A variable that is read has a slot already. -/
theorem expr_var_ok {name : String}
    (ok : expr arities start slots (.var position name) = .ok lowered) :
    ∃ slot, slots.slot? name = some slot ∧ lowered = ⟨[.load slot], slots⟩ := by
  rw [expr] at ok
  split at ok
  · next slot known => exact ⟨slot, known, (Except.ok.inj ok).symm⟩
  · cases ok

/-- The code of the right operand starts behind that of the left one, with its slots. -/
theorem expr_binary_ok {op : BinaryOp} {left right : Expr}
    (ok : expr arities start slots (.binary position op left right) = .ok lowered) :
    ∃ l r, expr arities start slots left = .ok l ∧
      expr arities (start + l.code.length) l.slots right = .ok r ∧
      lowered = ⟨l.code ++ (r.code ++ operatorCode (start + l.code.length + r.code.length) op),
        r.slots⟩ := by
  rw [expr] at ok
  obtain ⟨l, left_ok, ok⟩ := bind_eq_ok ok
  obtain ⟨r, right_ok, ok⟩ := bind_eq_ok ok
  exact ⟨l, r, left_ok, right_ok, (Except.ok.inj ok).symm⟩

theorem expr_negate_ok {operand : Expr}
    (ok : expr arities start slots (.negate position operand) = .ok lowered) :
    ∃ o, expr arities start slots operand = .ok o ∧ lowered = ⟨o.code ++ [.neg], o.slots⟩ := by
  rw [expr] at ok
  obtain ⟨o, operand_ok, ok⟩ := bind_eq_ok ok
  exact ⟨o, operand_ok, (Except.ok.inj ok).symm⟩

/-- The callee is known and takes as many arguments as there are. -/
theorem expr_call_ok {callee : String} {args : List Expr}
    (ok : expr arities start slots (.call position callee args) = .ok lowered) :
    arities callee = some args.length ∧ ∃ a, exprs arities start slots args = .ok a ∧
      lowered = ⟨a.code ++ [.call callee args.length], a.slots⟩ := by
  rw [expr] at ok
  split at ok
  · cases ok
  · next arity known =>
    split at ok
    · next same =>
      obtain ⟨a, args_ok, ok⟩ := bind_eq_ok ok
      subst same
      exact ⟨known, a, args_ok, (Except.ok.inj ok).symm⟩
    · cases ok

/-- The target gets its slot behind the right side. -/
theorem expr_assign_ok {target : String} {value : Expr}
    (ok : expr arities start slots (.assign position target value) = .ok lowered) :
    ∃ v, expr arities start slots value = .ok v ∧
      lowered = ⟨v.code ++ [.dup, .store ((v.slots.insert target).slotOf target)],
        v.slots.insert target⟩ := by
  rw [expr] at ok
  obtain ⟨v, value_ok, ok⟩ := bind_eq_ok ok
  exact ⟨v, value_ok, (Except.ok.inj ok).symm⟩

theorem exprs_nil_ok (ok : exprs arities start slots [] = .ok lowered) :
    lowered = ⟨[], slots⟩ := by
  rw [exprs] at ok
  exact (Except.ok.inj ok).symm

theorem exprs_cons_ok {first : Expr} {rest : List Expr}
    (ok : exprs arities start slots (first :: rest) = .ok lowered) :
    ∃ f r, expr arities start slots first = .ok f ∧
      exprs arities (start + f.code.length) f.slots rest = .ok r ∧
      lowered = ⟨f.code ++ r.code, r.slots⟩ := by
  rw [exprs] at ok
  obtain ⟨f, first_ok, ok⟩ := bind_eq_ok ok
  obtain ⟨r, rest_ok, ok⟩ := bind_eq_ok ok
  exact ⟨f, r, first_ok, rest_ok, (Except.ok.inj ok).symm⟩

/-! ### Conditions -/

/-- Either a comparison of two operands, or any other expression, whose value is compared with
zero. -/
theorem condition_ok {test : Expr} {jump : Test}
    (ok : condition arities start slots test = .ok (lowered, jump)) :
    (∃ position comparison left right l r,
      test = .binary position (.comparison comparison) left right ∧
      expr arities start slots left = .ok l ∧
      expr arities (start + l.code.length) l.slots right = .ok r ∧
      lowered = ⟨l.code ++ r.code, r.slots⟩ ∧ jump = .compare comparison) ∨
    (test.IsPlain ∧ expr arities start slots test = .ok lowered ∧ jump = .zero) := by
  unfold condition at ok
  split at ok
  · next position comparison left right =>
    obtain ⟨l, left_ok, ok⟩ := bind_eq_ok ok
    obtain ⟨r, right_ok, ok⟩ := bind_eq_ok ok
    obtain ⟨rfl, rfl⟩ := Prod.mk.inj (Except.ok.inj ok)
    exact .inl ⟨position, comparison, left, right, l, r, rfl, left_ok, right_ok, rfl, rfl⟩
  · next plain =>
    obtain ⟨v, value_ok, ok⟩ := bind_eq_ok ok
    obtain ⟨rfl, rfl⟩ := Prod.mk.inj (Except.ok.inj ok)
    exact .inr ⟨plain, value_ok, rfl⟩

/-! ### Statements -/

theorem stmt_assign_ok {target : String} {value : Expr}
    (ok : stmt arities void start slots (.assign position target value) = .ok lowered) :
    ∃ v, expr arities start slots value = .ok v ∧
      lowered = ⟨v.code ++ [.store ((v.slots.insert target).slotOf target)],
        v.slots.insert target⟩ := by
  rw [stmt] at ok
  obtain ⟨v, value_ok, ok⟩ := bind_eq_ok ok
  exact ⟨v, value_ok, (Except.ok.inj ok).symm⟩

theorem stmt_discard_ok {value : Expr}
    (ok : stmt arities void start slots (.discard position value) = .ok lowered) :
    ∃ v, expr arities start slots value = .ok v ∧ lowered = ⟨v.code ++ [.pop], v.slots⟩ := by
  rw [stmt] at ok
  obtain ⟨v, value_ok, ok⟩ := bind_eq_ok ok
  exact ⟨v, value_ok, (Except.ok.inj ok).symm⟩

theorem stmt_print_ok {value : Expr}
    (ok : stmt arities void start slots (.print position value) = .ok lowered) :
    ∃ v, expr arities start slots value = .ok v ∧ lowered = ⟨v.code ++ [.print], v.slots⟩ := by
  rw [stmt] at ok
  obtain ⟨v, value_ok, ok⟩ := bind_eq_ok ok
  exact ⟨v, value_ok, (Except.ok.inj ok).symm⟩

/-- The test jumps over the body. The jump behind the body leads to the next offset, as the one over
an alternative would. -/
theorem stmt_if_ok {test : Expr} {body : List Stmt}
    (ok : stmt arities void start slots (.branch position test body none) = .ok lowered) :
    ∃ t jump b, condition arities start slots test = .ok (t, jump) ∧
      stmts arities void (start + t.code.length + 1) t.slots body = .ok b ∧
      lowered = ⟨t.code ++ jump.jump (start + t.code.length + 1 + b.code.length + 1) :: b.code ++
        [.jump (start + t.code.length + 1 + b.code.length + 1)], b.slots⟩ := by
  rw [stmt] at ok
  obtain ⟨⟨t, jump⟩, test_ok, ok⟩ := bind_eq_ok ok
  obtain ⟨b, body_ok, ok⟩ := bind_eq_ok ok
  exact ⟨t, jump, b, test_ok, body_ok, (Except.ok.inj ok).symm⟩

/-- The test jumps to the alternative, and the body ends with a jump over it. -/
theorem stmt_ifElse_ok {test : Expr} {body alternative : List Stmt}
    (ok : stmt arities void start slots (.branch position test body (some alternative)) =
      .ok lowered) :
    ∃ t jump b a, condition arities start slots test = .ok (t, jump) ∧
      stmts arities void (start + t.code.length + 1) t.slots body = .ok b ∧
      stmts arities void (start + t.code.length + 1 + b.code.length + 1) b.slots alternative =
        .ok a ∧
      lowered = ⟨t.code ++ jump.jump (start + t.code.length + 1 + b.code.length + 1) :: b.code ++
        .jump (start + t.code.length + 1 + b.code.length + 1 + a.code.length) :: a.code,
        a.slots⟩ := by
  rw [stmt] at ok
  obtain ⟨⟨t, jump⟩, test_ok, ok⟩ := bind_eq_ok ok
  obtain ⟨b, body_ok, ok⟩ := bind_eq_ok ok
  obtain ⟨a, alternative_ok, ok⟩ := bind_eq_ok ok
  exact ⟨t, jump, b, a, test_ok, body_ok, alternative_ok, (Except.ok.inj ok).symm⟩

/-- The test jumps behind the loop, and the body ends with a jump back to it. -/
theorem stmt_loop_ok {test : Expr} {body : List Stmt}
    (ok : stmt arities void start slots (.loop position test body) = .ok lowered) :
    ∃ t jump b, condition arities start slots test = .ok (t, jump) ∧
      stmts arities void (start + t.code.length + 1) t.slots body = .ok b ∧
      lowered = ⟨t.code ++ jump.jump (start + t.code.length + 1 + b.code.length + 1) :: b.code ++
        [.jump start], b.slots⟩ := by
  rw [stmt] at ok
  obtain ⟨⟨t, jump⟩, test_ok, ok⟩ := bind_eq_ok ok
  obtain ⟨b, body_ok, ok⟩ := bind_eq_ok ok
  exact ⟨t, jump, b, test_ok, body_ok, (Except.ok.inj ok).symm⟩

theorem stmt_returnNone_ok
    (ok : stmt arities void start slots (.return_ position none) = .ok lowered) :
    lowered = ⟨defaultReturn void, slots⟩ := by
  rw [stmt] at ok
  exact (Except.ok.inj ok).symm

theorem stmt_return_ok {value : Expr}
    (ok : stmt arities void start slots (.return_ position (some value)) = .ok lowered) :
    ∃ v, expr arities start slots value = .ok v ∧ lowered = ⟨v.code ++ [.return_], v.slots⟩ := by
  rw [stmt] at ok
  obtain ⟨v, value_ok, ok⟩ := bind_eq_ok ok
  exact ⟨v, value_ok, (Except.ok.inj ok).symm⟩

theorem stmt_block_ok {body : List Stmt}
    (ok : stmt arities void start slots (.block position body) = .ok lowered) :
    stmts arities void start slots body = .ok lowered := by
  rwa [stmt] at ok

theorem stmts_nil_ok (ok : stmts arities void start slots [] = .ok lowered) :
    lowered = ⟨[], slots⟩ := by
  rw [stmts] at ok
  exact (Except.ok.inj ok).symm

/-- The code of each statement starts behind that of the one before, with its slots. -/
theorem stmts_cons_ok {first : Stmt} {rest : List Stmt}
    (ok : stmts arities void start slots (first :: rest) = .ok lowered) :
    ∃ f r, stmt arities void start slots first = .ok f ∧
      stmts arities void (start + f.code.length) f.slots rest = .ok r ∧
      lowered = ⟨f.code ++ r.code, r.slots⟩ := by
  rw [stmts] at ok
  obtain ⟨f, first_ok, ok⟩ := bind_eq_ok ok
  obtain ⟨r, rest_ok, ok⟩ := bind_eq_ok ok
  exact ⟨f, r, first_ok, rest_ok, (Except.ok.inj ok).symm⟩

/-- The length of the code of a branch or a loop: the test with its jump, the body, the rest. -/
theorem guarded_length (test body rest : Code) (jump : Instruction Nat) :
    (test ++ jump :: body ++ rest).length = test.length + 1 + body.length + rest.length := by
  simp only [List.length_append, List.length_cons]
  omega

/-! ### Functions -/

/-- A function is its body from offset zero on, with a return behind it. -/
theorem routine_ok {function : Function} {result : Routine}
    (ok : routine arities function = .ok result) :
    ∃ b, stmts arities (isEntry function) 0 (paramSlots function.params) function.body = .ok b ∧
      result = {
        name := function.name
        arity := function.arity
        locals := b.slots.size
        void := isEntry function
        code := (b.code ++ defaultReturn (isEntry function)).toArray } := by
  unfold routine at ok
  obtain ⟨b, body_ok, ok⟩ := bind_eq_ok ok
  exact ⟨b, body_ok, (Except.ok.inj ok).symm⟩

theorem routine_name {function : Function} {result : Routine}
    (ok : routine arities function = .ok result) : result.name = function.name := by
  obtain ⟨b, _, rfl⟩ := routine_ok ok
  rfl

theorem routine_arity {function : Function} {result : Routine}
    (ok : routine arities function = .ok result) : result.arity = function.arity := by
  obtain ⟨b, _, rfl⟩ := routine_ok ok
  rfl

end Lowering

/-! ### Code inside a routine -/

/-- The code lies in the code of the routine, from `start` on. -/
def Placed (routine : Routine) (start : Nat) (code : Code) : Prop :=
  ∀ i, i < code.length → routine.code[start + i]? = code[i]?

namespace Placed

variable {routine : Routine} {start : Nat} {code first second : Code}
  {instruction : Instruction Nat}

theorem left (placed : Placed routine start (first ++ second)) : Placed routine start first := by
  intro i inside
  rw [placed i (by simp only [List.length_append]; omega), List.getElem?_append_left inside]

theorem right (placed : Placed routine start (first ++ second)) :
    Placed routine (start + first.length) second := by
  intro i inside
  rw [Nat.add_assoc, placed (first.length + i) (by simp only [List.length_append]; omega),
    List.getElem?_append_right (Nat.le_add_right _ _), Nat.add_sub_cancel_left]

/-- The first instruction of code that lies at `start` is the one fetched there. -/
theorem head (placed : Placed routine start (instruction :: code)) :
    routine.code[start]? = some instruction := by
  simpa using placed 0 (by simp)

theorem tail (placed : Placed routine start (instruction :: code)) :
    Placed routine (start + 1) code := by
  have front : Placed routine start ([instruction] ++ code) := placed
  exact front.right

/-- A test that ends with a jump, the body that it guards, and what stands behind them. -/
theorem guarded {rest : Code}
    (placed : Placed routine start (first ++ instruction :: second ++ rest)) :
    Placed routine start (first ++ [instruction]) ∧
      Placed routine (start + first.length + 1) second ∧
      Placed routine (start + first.length + 1 + second.length) rest := by
  have behind : start + (first ++ instruction :: second).length =
      start + first.length + 1 + second.length := by
    simp only [List.length_append, List.length_cons]
    omega
  have front := placed.left
  rw [List.append_cons] at front
  exact ⟨front.left, placed.left.right.tail, behind ▸ placed.right⟩

theorem lt_size (fetch : routine.code[start]? = some instruction) : start < routine.code.size :=
  (Array.getElem?_eq_some_iff.mp fetch).1

end Placed

/-- The code of a function is that of its body and the return behind it. -/
theorem Lowering.routine_placed {arities : Arities} {function : Function} {routine : Routine}
    (ok : Lowering.routine arities function = .ok routine) :
    ∃ b, stmts arities (isEntry function) 0 (paramSlots function.params) function.body = .ok b ∧
      Placed routine 0 (b.code ++ defaultReturn (isEntry function)) ∧
      routine.code.size = b.code.length + (defaultReturn (isEntry function)).length := by
  obtain ⟨b, body_ok, rfl⟩ := routine_ok ok
  refine ⟨b, body_ok, fun i _ => ?_, ?_⟩
  · rw [Nat.zero_add]
    simp
  · simp

/-- A body never ends a routine: behind it there is always an instruction, so a jump behind the body
stays inside the code. -/
theorem Lowering.defaultReturn_length_pos (void : Bool) : 0 < (defaultReturn void).length := by
  cases void <;> decide

end ImpStack
