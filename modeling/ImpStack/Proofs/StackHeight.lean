import ImpStack.Proofs.Lowering

/-!
The height of the operand stack above the base of a call, at each offset of its code. It is read off
the code from the start, as if it were executed straight on, and every jump of a lowered function
agrees with it. An instruction fits if it finds its operands and leads only to offsets at which the
height is the one to be expected there; the code of every phrase consists of instructions that fit
(`routine_spans`), and between two statements the height is zero (`Boundary.routine_heightAt_eq`).
No run of a machine is looked at here.
-/
namespace ImpStack

/-- The height behind an instruction at the given height. Behind a jump stands the code of the other
case, which has still to push what the first case has just pushed. -/
def Instruction.heightBehind (height : Nat) : Instruction Nat → Nat
  | .pushInt _ => height + 1
  | .pushFloat _ => height + 1
  | .load _ => height + 1
  | .store _ => height - 1
  | .dup => height + 1
  | .pop => height - 1
  | .arithmetic _ => height - 1
  | .neg => height
  | .jump _ => height - 1
  | .jumpIfZero _ => height - 1
  | .jumpIf _ _ => height - 2
  | .call _ arity => height - arity + 1
  | .print => height - 1
  | .return_ => height - 1
  | .returnVoid => height

namespace Routine

/-- The height in front of the offset. -/
def heightAt (routine : Routine) (offset : Nat) : Nat :=
  (routine.code.toList.take offset).foldl Instruction.heightBehind 0

theorem heightAt_zero (routine : Routine) : routine.heightAt 0 = 0 := rfl

/-- The height behind an instruction follows from the one in front of it. -/
theorem heightAt_succ {routine : Routine} {offset : Nat} {instruction : Instruction Nat}
    (fetch : routine.code[offset]? = some instruction) :
    routine.heightAt (offset + 1) = instruction.heightBehind (routine.heightAt offset) := by
  have listed : routine.code.toList[offset]? = some instruction := by
    rw [Array.getElem?_toList, fetch]
  unfold heightAt
  rw [List.take_add_one, listed, Option.toList_some, List.foldl_append, List.foldl_cons,
    List.foldl_nil]

/-- A call may go on at the offset, with the height. -/
def Leads (routine : Routine) (offset height : Nat) : Prop :=
  offset < routine.code.size ∧ routine.heightAt offset = height

/-- Going on behind an instruction that does not end the code. -/
theorem leads_behind {routine : Routine} {offset height : Nat} {instruction : Instruction Nat}
    (fetch : routine.code[offset]? = some instruction)
    (height_eq : routine.heightAt offset = height) (inside : offset + 1 < routine.code.size) :
    routine.Leads (offset + 1) (instruction.heightBehind height) :=
  ⟨inside, by rw [heightAt_succ fetch, height_eq]⟩

end Routine

/-- The instruction finds its operands, wherever it leads the height is the one expected there,
and a return leaves nothing behind. -/
def Instruction.Fits (arities : Arities) (routine : Routine) (offset height : Nat) :
    Instruction Nat → Prop
  | .pushInt _ => routine.Leads (offset + 1) (height + 1)
  | .pushFloat _ => routine.Leads (offset + 1) (height + 1)
  | .load _ => routine.Leads (offset + 1) (height + 1)
  | .store _ => 1 ≤ height ∧ routine.Leads (offset + 1) (height - 1)
  | .dup => 1 ≤ height ∧ routine.Leads (offset + 1) (height + 1)
  | .pop => 1 ≤ height ∧ routine.Leads (offset + 1) (height - 1)
  | .arithmetic _ => 2 ≤ height ∧ routine.Leads (offset + 1) (height - 1)
  | .neg => 1 ≤ height ∧ routine.Leads (offset + 1) height
  | .jump target => routine.Leads target height
  | .jumpIfZero target =>
    1 ≤ height ∧ routine.Leads (offset + 1) (height - 1) ∧ routine.Leads target (height - 1)
  | .jumpIf _ target =>
    2 ≤ height ∧ routine.Leads (offset + 1) (height - 2) ∧ routine.Leads target (height - 2)
  | .call callee arity =>
    arities callee = some arity ∧ arity ≤ height ∧
      routine.Leads (offset + 1) (height - arity + 1)
  | .print => 1 ≤ height ∧ routine.Leads (offset + 1) (height - 1)
  | .return_ => height = 1
  | .returnVoid => height = 0

/-- From `start`, at the height `before`, to `stop`, at the height `after`, all instructions fit. -/
structure Spans (arities : Arities) (routine : Routine) (start before stop after : Nat) : Prop where
  before_eq : routine.heightAt start = before
  after_eq : routine.heightAt stop = after
  fits : ∀ {offset instruction}, start ≤ offset → offset < stop →
    routine.code[offset]? = some instruction →
    instruction.Fits arities routine offset (routine.heightAt offset)

namespace Spans

variable {arities : Arities} {routine : Routine} {start middle stop before between after : Nat}
  {offset height : Nat} {instruction : Instruction Nat}

theorem empty (height_eq : routine.heightAt start = height) :
    Spans arities routine start height start height where
  before_eq := height_eq
  after_eq := height_eq
  fits := by
    intro offset instruction le lt
    omega

theorem trans (left : Spans arities routine start before middle between)
    (right : Spans arities routine middle between stop after) :
    Spans arities routine start before stop after where
  before_eq := left.before_eq
  after_eq := right.after_eq
  fits := by
    intro offset instruction le lt fetch
    rcases Nat.lt_or_ge offset middle with earlier | later
    · exact left.fits le earlier fetch
    · exact right.fits later lt fetch

theorem single (arities : Arities) (fetch : routine.code[offset]? = some instruction)
    (height_eq : routine.heightAt offset = height)
    (fits : instruction.Fits arities routine offset height) :
    Spans arities routine offset height (offset + 1) (instruction.heightBehind height) where
  before_eq := height_eq
  after_eq := by rw [Routine.heightAt_succ fetch, height_eq]
  fits := by
    intro other found le lt fetched
    obtain rfl : other = offset := by omega
    rw [fetch] at fetched
    obtain rfl := Option.some.inj fetched
    rw [height_eq]
    exact fits

/-- One more instruction, behind which the call goes on. -/
theorem next (span : Spans arities routine start before offset height)
    (fetch : routine.code[offset]? = some instruction) (inside : offset + 1 < routine.code.size)
    (fits : routine.Leads (offset + 1) (instruction.heightBehind height) →
      instruction.Fits arities routine offset height) :
    Spans arities routine start before (offset + 1) (instruction.heightBehind height) := by
  have leads := Routine.leads_behind fetch span.after_eq inside
  exact span.trans (.single arities fetch span.after_eq (fits leads))

end Spans

namespace Lowering

variable {arities : Arities} {routine : Routine}

/-- An operator replaces two values by one. In the code of a comparison the zero stands in front of
the one, so the jump over it leads to the height behind the zero as it was before. -/
theorem operatorCode_spans (arities : Arities) {op : BinaryOp} {start height : Nat}
    (placed : Placed routine start (operatorCode start op))
    (inside : start + (operatorCode start op).length < routine.code.size)
    (height_eq : routine.heightAt start = height + 2) :
    Spans arities routine start (height + 2) (start + (operatorCode start op).length)
      (height + 1) := by
  cases op with
  | arithmetic op =>
    have leads := Routine.leads_behind placed.head height_eq inside
    exact .single arities placed.head height_eq ⟨Nat.le_add_left 2 height, leads⟩
  | comparison comparison =>
    simp only [operatorCode, List.length_cons, List.length_nil] at inside ⊢
    have branch := placed.head
    have zero := placed.tail.head
    have skip := placed.tail.tail.head
    have one := placed.tail.tail.tail.head
    have zero_leads := Routine.leads_behind branch height_eq (by omega)
    have skip_leads := Routine.leads_behind zero zero_leads.2 (by omega)
    have one_leads := Routine.leads_behind skip skip_leads.2 (by omega)
    have stop_leads := Routine.leads_behind one one_leads.2 inside
    -- The zero and the one are pushed on two ways that meet behind the code.
    have branch_span := Spans.single arities branch height_eq
      ⟨Nat.le_add_left 2 height, zero_leads, one_leads⟩
    have zero_span := Spans.single arities zero zero_leads.2 skip_leads
    have skip_span := Spans.single arities skip skip_leads.2 stop_leads
    have one_span := Spans.single arities one one_leads.2 stop_leads
    exact ((branch_span.trans zero_span).trans skip_span).trans one_span

mutual

/-- The code of an expression leaves one value more. -/
theorem expr_spans (e : Expr) {start : Nat} {slots : Slots} {lowered : Lowered}
    (ok : expr arities start slots e = .ok lowered) (placed : Placed routine start lowered.code)
    (inside : start + lowered.code.length < routine.code.size) {height : Nat}
    (height_eq : routine.heightAt start = height) :
    Spans arities routine start height (start + lowered.code.length) (height + 1) := by
  -- Whatever stands below, an expression leaves one value more. Its operands are taken by the
  -- instruction behind them.
  cases e with
  | int position value =>
    obtain rfl := expr_int_ok ok
    exact .single arities placed.head height_eq (Routine.leads_behind placed.head height_eq inside)
  | float position value =>
    obtain rfl := expr_float_ok ok
    exact .single arities placed.head height_eq (Routine.leads_behind placed.head height_eq inside)
  | var position name =>
    obtain ⟨slot, _, rfl⟩ := expr_var_ok ok
    exact .single arities placed.head height_eq (Routine.leads_behind placed.head height_eq inside)
  | binary position op left right =>
    obtain ⟨l, r, left_ok, right_ok, rfl⟩ := expr_binary_ok ok
    simp only [List.length_append, ← Nat.add_assoc] at inside ⊢
    have left_span := expr_spans left left_ok placed.left (by omega) height_eq
    have right_span := expr_spans right right_ok placed.right.left (by omega) left_span.after_eq
    have op_span := operatorCode_spans arities placed.right.right (by omega)
      right_span.after_eq
    exact (left_span.trans right_span).trans op_span
  | negate position operand =>
    obtain ⟨o, operand_ok, rfl⟩ := expr_negate_ok ok
    simp only [List.length_append, List.length_singleton, ← Nat.add_assoc] at inside ⊢
    have operand_span := expr_spans operand operand_ok placed.left (by omega) height_eq
    exact operand_span.next placed.right.head inside fun leads => ⟨Nat.le_add_left 1 height, leads⟩
  | call position callee args =>
    obtain ⟨known, a, args_ok, rfl⟩ := expr_call_ok ok
    simp only [List.length_append, List.length_singleton, ← Nat.add_assoc] at inside ⊢
    have args_span := exprs_spans args args_ok placed.left (by omega) height_eq
    have call_span := args_span.next placed.right.head inside fun leads =>
      ⟨known, Nat.le_add_left _ _, leads⟩
    simp only [Instruction.heightBehind, Nat.add_sub_cancel] at call_span
    exact call_span
  | assign position target value =>
    obtain ⟨v, value_ok, rfl⟩ := expr_assign_ok ok
    simp only [List.length_append, List.length_cons, List.length_nil] at inside ⊢
    have value_span := expr_spans value value_ok placed.left (by omega) height_eq
    have copy_span := value_span.next placed.right.head (by omega) fun leads =>
      ⟨Nat.le_add_left 1 height, leads⟩
    exact copy_span.next placed.right.tail.head (by omega) fun leads =>
      ⟨Nat.le_add_left 1 _, leads⟩
termination_by structural e

/-- The code of arguments leaves as many values more as there are arguments. -/
theorem exprs_spans (es : List Expr) {start : Nat} {slots : Slots} {lowered : Lowered}
    (ok : exprs arities start slots es = .ok lowered) (placed : Placed routine start lowered.code)
    (inside : start + lowered.code.length < routine.code.size) {height : Nat}
    (height_eq : routine.heightAt start = height) :
    Spans arities routine start height (start + lowered.code.length) (height + es.length) := by
  cases es with
  | nil =>
    obtain rfl := exprs_nil_ok ok
    exact .empty height_eq
  | cons first rest =>
    obtain ⟨f, r, first_ok, rest_ok, rfl⟩ := exprs_cons_ok ok
    simp only [List.length_append, ← Nat.add_assoc] at inside ⊢
    have first_span := expr_spans first first_ok placed.left (by omega) height_eq
    have rest_span := exprs_spans rest rest_ok placed.right (by omega) first_span.after_eq
    have total : height + 1 + rest.length = height + (first :: rest).length := by
      rw [List.length_cons]
      omega
    rw [total] at rest_span
    exact first_span.trans rest_span
termination_by structural es

end

/-- The test with its jump, which must lead to where the height is the same. -/
theorem condition_spans {test : Expr} {start other : Nat} {slots : Slots} {lowered : Lowered}
    {jump : Test} (ok : condition arities start slots test = .ok (lowered, jump))
    (placed : Placed routine start (lowered.code ++ [jump.jump other]))
    (inside : start + lowered.code.length + 1 < routine.code.size) {height : Nat}
    (height_eq : routine.heightAt start = height) :
    routine.heightAt (start + lowered.code.length + 1) = height ∧
      (routine.Leads other height →
        Spans arities routine start height (start + lowered.code.length + 1) height) := by
  have fetch := placed.right.head
  obtain ⟨position, comparison, left, right, l, r, rfl, left_ok, right_ok, rfl, rfl⟩ |
    ⟨plain, value_ok, rfl⟩ := condition_ok ok
  · simp only [List.length_append, ← Nat.add_assoc] at inside fetch ⊢
    have left_span := expr_spans left left_ok placed.left.left (by omega) height_eq
    have right_span := expr_spans right right_ok placed.left.right (by omega) left_span.after_eq
    have leads := Routine.leads_behind fetch right_span.after_eq inside
    refine ⟨leads.2, fun other_leads => ?_⟩
    exact (left_span.trans right_span).next fetch inside fun leads =>
      ⟨Nat.le_add_left 2 height, leads, other_leads⟩
  · have value_span := expr_spans test value_ok placed.left (by omega) height_eq
    have leads := Routine.leads_behind fetch value_span.after_eq inside
    refine ⟨leads.2, fun other_leads => ?_⟩
    exact value_span.next fetch inside fun leads =>
      ⟨Nat.le_add_left 1 height, leads, other_leads⟩

/-- A return without a value is met with nothing on the stack, on both ways. -/
theorem defaultReturn_spans (arities : Arities) {void : Bool} {start : Nat}
    (placed : Placed routine start (defaultReturn void))
    (inside : start + (defaultReturn void).length ≤ routine.code.size)
    (height_eq : routine.heightAt start = 0) :
    Spans arities routine start 0 (start + (defaultReturn void).length) 0 := by
  cases void with
  | true => exact .single arities placed.head height_eq rfl
  | false =>
    have zero := placed.head
    have fetch := placed.tail.head
    have leads := Routine.leads_behind zero height_eq (Placed.lt_size fetch)
    exact (Spans.single arities zero height_eq leads).trans (.single arities fetch leads.2 rfl)

variable {void : Bool}

mutual

/-- The code of a statement begins and ends with nothing on the stack. -/
theorem stmt_spans (statement : Stmt) {start : Nat} {slots : Slots} {lowered : Lowered}
    (ok : stmt arities void start slots statement = .ok lowered)
    (placed : Placed routine start lowered.code)
    (inside : start + lowered.code.length < routine.code.size)
    (height_eq : routine.heightAt start = 0) :
    Spans arities routine start 0 (start + lowered.code.length) 0 := by
  -- Where two ways lead to one offset, the heights they leave have to agree. That is so since every
  -- statement ends at the height 0 that it begins at.
  cases statement with
  | assign position target value =>
    obtain ⟨v, value_ok, rfl⟩ := stmt_assign_ok ok
    simp only [List.length_append, List.length_singleton, ← Nat.add_assoc] at inside ⊢
    have value_span := expr_spans value value_ok placed.left (by omega) height_eq
    exact value_span.next placed.right.head inside fun leads => ⟨Nat.le_refl 1, leads⟩
  | discard position value =>
    obtain ⟨v, value_ok, rfl⟩ := stmt_discard_ok ok
    simp only [List.length_append, List.length_singleton, ← Nat.add_assoc] at inside ⊢
    have value_span := expr_spans value value_ok placed.left (by omega) height_eq
    exact value_span.next placed.right.head inside fun leads => ⟨Nat.le_refl 1, leads⟩
  | print position value =>
    obtain ⟨v, value_ok, rfl⟩ := stmt_print_ok ok
    simp only [List.length_append, List.length_singleton, ← Nat.add_assoc] at inside ⊢
    have value_span := expr_spans value value_ok placed.left (by omega) height_eq
    exact value_span.next placed.right.head inside fun leads => ⟨Nat.le_refl 1, leads⟩
  | branch position test body alternative =>
    cases alternative with
    | none =>
      obtain ⟨t, jump, b, test_ok, body_ok, rfl⟩ := stmt_if_ok ok
      obtain ⟨placed_test, placed_body, placed_jump⟩ := placed.guarded
      simp only [guarded_length, List.length_singleton, ← Nat.add_assoc] at inside ⊢
      obtain ⟨body_height, test_spans⟩ :=
        condition_spans test_ok placed_test (by omega) height_eq
      have body_span := stmts_spans body body_ok placed_body (by omega) body_height
      have stop_leads := Routine.leads_behind placed_jump.head body_span.after_eq inside
      have jump_span := Spans.single arities placed_jump.head body_span.after_eq
        stop_leads
      exact ((test_spans stop_leads).trans body_span).trans jump_span
    | some alternative =>
      obtain ⟨t, jump, b, a, test_ok, body_ok, alternative_ok, rfl⟩ := stmt_ifElse_ok ok
      obtain ⟨placed_test, placed_body, placed_rest⟩ := placed.guarded
      simp only [guarded_length, List.length_cons, Nat.add_comm a.code.length 1,
        ← Nat.add_assoc] at inside ⊢
      obtain ⟨body_height, test_spans⟩ :=
        condition_spans test_ok placed_test (by omega) height_eq
      have body_span := stmts_spans body body_ok placed_body (by omega) body_height
      have other_leads := Routine.leads_behind placed_rest.head body_span.after_eq (by omega)
      have other_span := stmts_spans alternative alternative_ok placed_rest.tail inside
        other_leads.2
      have jump_span := Spans.single arities placed_rest.head body_span.after_eq
        ⟨inside, other_span.after_eq⟩
      exact (((test_spans other_leads).trans body_span).trans jump_span).trans other_span
  | loop position test body =>
    obtain ⟨t, jump, b, test_ok, body_ok, rfl⟩ := stmt_loop_ok ok
    obtain ⟨placed_test, placed_body, placed_jump⟩ := placed.guarded
    simp only [guarded_length, List.length_singleton, ← Nat.add_assoc] at inside ⊢
    obtain ⟨body_height, test_spans⟩ :=
      condition_spans test_ok placed_test (by omega) height_eq
    have body_span := stmts_spans body body_ok placed_body (by omega) body_height
    have stop_leads := Routine.leads_behind placed_jump.head body_span.after_eq inside
    have start_leads : routine.Leads start 0 := ⟨by omega, height_eq⟩
    have jump_span := Spans.single arities placed_jump.head body_span.after_eq
      start_leads
    exact ((test_spans stop_leads).trans body_span).trans jump_span
  | return_ position value =>
    cases value with
    | none =>
      obtain rfl := stmt_returnNone_ok ok
      exact defaultReturn_spans arities placed (Nat.le_of_lt inside) height_eq
    | some value =>
      obtain ⟨v, value_ok, rfl⟩ := stmt_return_ok ok
      simp only [List.length_append, List.length_singleton, ← Nat.add_assoc] at inside ⊢
      have value_span := expr_spans value value_ok placed.left (by omega) height_eq
      exact value_span.trans (.single arities placed.right.head value_span.after_eq rfl)
  | block position body => exact stmts_spans body (stmt_block_ok ok) placed inside height_eq
termination_by structural statement

theorem stmts_spans (body : List Stmt) {start : Nat} {slots : Slots} {lowered : Lowered}
    (ok : stmts arities void start slots body = .ok lowered)
    (placed : Placed routine start lowered.code)
    (inside : start + lowered.code.length < routine.code.size)
    (height_eq : routine.heightAt start = 0) :
    Spans arities routine start 0 (start + lowered.code.length) 0 := by
  cases body with
  | nil =>
    obtain rfl := stmts_nil_ok ok
    exact .empty height_eq
  | cons first rest =>
    obtain ⟨f, r, first_ok, rest_ok, rfl⟩ := stmts_cons_ok ok
    simp only [List.length_append, ← Nat.add_assoc] at inside ⊢
    have first_span := stmt_spans first first_ok placed.left (by omega) height_eq
    have rest_span := stmts_spans rest rest_ok placed.right inside first_span.after_eq
    exact first_span.trans rest_span
termination_by structural body

end

/-- All instructions of a function fit. -/
theorem routine_spans {function : Function} (ok : Lowering.routine arities function = .ok routine) :
    Spans arities routine 0 0 routine.code.size 0 := by
  obtain ⟨b, body_ok, placed, size_eq⟩ := routine_placed ok
  have pos := defaultReturn_length_pos (isEntry function)
  have body_span := stmts_spans function.body body_ok placed.left (by omega) routine.heightAt_zero
  have end_span := defaultReturn_spans arities placed.right (by omega)
    body_span.after_eq
  rw [Nat.zero_add, ← size_eq] at end_span
  rw [Nat.zero_add] at body_span
  exact body_span.trans end_span

/-! ### Statement boundaries -/

/-- A statement of the body whose code is at `start`, or one inside such a statement, begins or ends
at the offset. -/
inductive Boundary (arities : Arities) (void : Bool) :
    (start : Nat) → Slots → List Stmt → (offset : Nat) → Prop where
  | here {start : Nat} {slots : Slots} {body : List Stmt} :
      Boundary arities void start slots body start
  | behind {start offset : Nat} {slots : Slots} {first : Stmt} {rest : List Stmt} {f : Lowered} :
      stmt arities void start slots first = .ok f →
      Boundary arities void (start + f.code.length) f.slots rest offset →
      Boundary arities void start slots (first :: rest) offset
  | branch {start offset : Nat} {slots : Slots} {position : Position} {test : Expr}
      {body rest : List Stmt} {alternative : Option (List Stmt)} {t : Lowered} {jump : Test} :
      condition arities start slots test = .ok (t, jump) →
      Boundary arities void (start + t.code.length + 1) t.slots body offset →
      Boundary arities void start slots (.branch position test body alternative :: rest) offset
  | alternative {start offset : Nat} {slots : Slots} {position : Position} {test : Expr}
      {body other rest : List Stmt} {t b : Lowered} {jump : Test} :
      condition arities start slots test = .ok (t, jump) →
      stmts arities void (start + t.code.length + 1) t.slots body = .ok b →
      Boundary arities void (start + t.code.length + 1 + b.code.length + 1) b.slots other offset →
      Boundary arities void start slots (.branch position test body (some other) :: rest) offset
  | loop {start offset : Nat} {slots : Slots} {position : Position} {test : Expr}
      {body rest : List Stmt} {t : Lowered} {jump : Test} :
      condition arities start slots test = .ok (t, jump) →
      Boundary arities void (start + t.code.length + 1) t.slots body offset →
      Boundary arities void start slots (.loop position test body :: rest) offset
  | block {start offset : Nat} {slots : Slots} {position : Position} {body rest : List Stmt} :
      Boundary arities void start slots body offset →
      Boundary arities void start slots (.block position body :: rest) offset

/-- Where the body behind a test stands, and that it begins with nothing on the stack. -/
theorem guarded_body {test : Expr} {start other : Nat} {slots : Slots} {t : Lowered} {jump : Test}
    {body rest : Code} (ok : condition arities start slots test = .ok (t, jump))
    (placed : Placed routine start (t.code ++ jump.jump other :: body ++ rest))
    (inside : start + t.code.length + 1 < routine.code.size)
    (height_eq : routine.heightAt start = 0) :
    Placed routine (start + t.code.length + 1) body ∧
      routine.heightAt (start + t.code.length + 1) = 0 := by
  obtain ⟨placed_test, placed_body, _⟩ := placed.guarded
  exact ⟨placed_body, (condition_spans ok placed_test inside height_eq).1⟩

/-- By induction on where the boundary stands: each step into a statement or past one starts again
with nothing on the stack. -/
theorem Boundary.heightAt_eq {start offset : Nat} {slots : Slots} {body : List Stmt}
    (boundary : Boundary arities void start slots body offset) {lowered : Lowered}
    (ok : stmts arities void start slots body = .ok lowered)
    (placed : Placed routine start lowered.code)
    (inside : start + lowered.code.length < routine.code.size)
    (height_eq : routine.heightAt start = 0) : routine.heightAt offset = 0 := by
  -- By induction on the way to the boundary: a statement in front spans from 0 to 0, and a body
  -- inside a statement begins at 0.
  induction boundary generalizing lowered with
  | here => exact height_eq
  | behind first_ok _ ih =>
    obtain ⟨f, r, first_ok', rest_ok, rfl⟩ := stmts_cons_ok ok
    obtain rfl := Except.ok.inj (first_ok.symm.trans first_ok')
    simp only [List.length_append, ← Nat.add_assoc] at inside
    have first_span := stmt_spans _ first_ok placed.left (by omega) height_eq
    exact ih rest_ok placed.right inside first_span.after_eq
  | @branch start offset slots position test body rest alternative t jump test_ok _ ih =>
    obtain ⟨f, r, first_ok, rest_ok, rfl⟩ := stmts_cons_ok ok
    rw [List.length_append] at inside
    cases alternative with
    | none =>
      obtain ⟨t', jump', b, test_ok', body_ok, rfl⟩ := stmt_if_ok first_ok
      obtain ⟨rfl, rfl⟩ := Prod.mk.inj (Except.ok.inj (test_ok.symm.trans test_ok'))
      rw [guarded_length] at inside
      obtain ⟨placed_body, body_height⟩ :=
        guarded_body test_ok placed.left (by omega) height_eq
      exact ih body_ok placed_body (by omega) body_height
    | some other =>
      obtain ⟨t', jump', b, a, test_ok', body_ok, _, rfl⟩ := stmt_ifElse_ok first_ok
      obtain ⟨rfl, rfl⟩ := Prod.mk.inj (Except.ok.inj (test_ok.symm.trans test_ok'))
      rw [guarded_length] at inside
      obtain ⟨placed_body, body_height⟩ :=
        guarded_body test_ok placed.left (by omega) height_eq
      exact ih body_ok placed_body (by omega) body_height
  | alternative test_ok body_ok _ ih =>
    obtain ⟨f, r, first_ok, rest_ok, rfl⟩ := stmts_cons_ok ok
    obtain ⟨t', jump', b', a, test_ok', body_ok', other_ok, rfl⟩ := stmt_ifElse_ok first_ok
    obtain ⟨rfl, rfl⟩ := Prod.mk.inj (Except.ok.inj (test_ok.symm.trans test_ok'))
    obtain rfl := Except.ok.inj (body_ok.symm.trans body_ok')
    rw [List.length_append, guarded_length, List.length_cons] at inside
    obtain ⟨placed_body, body_height⟩ := guarded_body test_ok placed.left (by omega) height_eq
    obtain ⟨_, _, placed_rest⟩ := placed.left.guarded
    have body_span := stmts_spans _ body_ok placed_body (by omega) body_height
    -- The alternative is not entered from the body in front of it but from the test, by the jump.
    have other_leads := Routine.leads_behind placed_rest.head body_span.after_eq (by omega)
    exact ih other_ok placed_rest.tail (by omega) other_leads.2
  | loop test_ok _ ih =>
    obtain ⟨f, r, first_ok, rest_ok, rfl⟩ := stmts_cons_ok ok
    obtain ⟨t', jump', b, test_ok', body_ok, rfl⟩ := stmt_loop_ok first_ok
    obtain ⟨rfl, rfl⟩ := Prod.mk.inj (Except.ok.inj (test_ok.symm.trans test_ok'))
    rw [List.length_append, guarded_length, List.length_singleton] at inside
    obtain ⟨placed_body, body_height⟩ := guarded_body test_ok placed.left (by omega) height_eq
    exact ih body_ok placed_body (by omega) body_height
  | block _ ih =>
    obtain ⟨f, r, first_ok, rest_ok, rfl⟩ := stmts_cons_ok ok
    rw [List.length_append] at inside
    exact ih (stmt_block_ok first_ok) placed.left (by omega) height_eq

/-- At a statement boundary of a function its call has nothing on the stack. -/
theorem Boundary.routine_heightAt_eq {function : Function} {offset : Nat}
    (ok : Lowering.routine arities function = .ok routine)
    (boundary : Boundary arities (isEntry function) 0 (paramSlots function.params) function.body
      offset) : routine.heightAt offset = 0 := by
  obtain ⟨b, body_ok, placed, size_eq⟩ := routine_placed ok
  have pos := defaultReturn_length_pos (isEntry function)
  exact boundary.heightAt_eq body_ok placed.left (by omega) routine.heightAt_zero

end Lowering

end ImpStack
