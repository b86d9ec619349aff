import ImpStack.Code.Generator
import ImpStack.Proofs.Dispatch
import ImpStack.Proofs.Slots

/-!
Generating code with labels (SPEC_FULL, section 4.4) and lowering straight to offsets come to the
same: the generator fails with the error of the lowering, every label that it hands out is bound,
and what it has left behind from earlier programs does not matter (`Generator.generate_eq`).

A label is bound behind the jump that leads to it, so that the code of a phrase can only be compared
with its lowering under the last table of labels. `Generator.Appends` says it of every table that
agrees with the labels of the phrase (`Labels.Agree`); labels handed out earlier or later may be
bound anywhere.
-/
namespace ImpStack

/-! ### Label tables -/

namespace Labels

/-- The number of labels handed out. -/
def size (labels : Labels) : Nat := labels.offsets.size

variable {labels before after final : Labels}

theorem size_fresh (labels : Labels) : labels.fresh.2.size = labels.size + 1 := by
  simp [fresh, size]

theorem size_bind (labels : Labels) (label : Label) (offset : Nat) :
    (labels.bind label offset).size = labels.size := by
  simp [bind, size]

theorem offset?_bind_self (label : Label) (inside : label.id < labels.size) (offset : Nat) :
    (labels.bind label offset).offset? label = some offset := by
  have bound : label.id < labels.offsets.size := inside
  simp [offset?, bind, bound]

/-- Binding one label leaves the others where they are. -/
theorem offset?_bind_of_ne {label other : Label} (different : other.id ≠ label.id) (offset : Nat) :
    (labels.bind label offset).offset? other = labels.offset? other := by
  simp [offset?, bind, Ne.symm different]

/-- The labels handed out so far keep their offsets. -/
structure Below (before after : Labels) : Prop where
  size_le : before.size ≤ after.size
  offset?_eq : ∀ label : Label, label.id < before.size →
    after.offset? label = before.offset? label

theorem Below.refl (labels : Labels) : labels.Below labels := ⟨Nat.le_refl _, fun _ _ => rfl⟩

theorem Below.trans {middle : Labels} (first : before.Below middle) (second : middle.Below after) :
    before.Below after where
  size_le := Nat.le_trans first.size_le second.size_le
  offset?_eq label inside := by
    rw [second.offset?_eq label (Nat.lt_of_lt_of_le inside first.size_le),
      first.offset?_eq label inside]

/-- A new label is behind all others. -/
theorem below_fresh (labels : Labels) : labels.Below labels.fresh.2 where
  size_le := by simp [size_fresh]
  offset?_eq label inside := by
    have bound : label.id < labels.offsets.size := inside
    simp [fresh, offset?, Array.getElem?_push_lt bound, Array.getElem?_eq_getElem bound]

theorem size_freshTwo (labels : Labels) : labels.fresh.2.fresh.2.size = labels.size + 2 := by
  rw [size_fresh, size_fresh]

theorem below_freshTwo (labels : Labels) : labels.Below labels.fresh.2.fresh.2 :=
  labels.below_fresh.trans labels.fresh.2.below_fresh

/-- Binding a later label leaves the earlier ones alone. -/
theorem Below.bind {label : Label} (below : before.Below after) (later : before.size ≤ label.id)
    (offset : Nat) : before.Below (after.bind label offset) where
  size_le := size_bind after label offset ▸ below.size_le
  offset?_eq other inside := by
    rw [offset?_bind_of_ne (Nat.ne_of_lt (Nat.lt_of_lt_of_le inside later)),
      below.offset?_eq other inside]

/-- In the table `final` the labels of `labels` from number `least` on stand for the same places. -/
def Agree (least : Nat) (labels final : Labels) : Prop :=
  ∀ label : Label, least ≤ label.id → label.id < labels.size →
    final.offset? label = labels.offset? label

theorem Agree.refl (least : Nat) (labels : Labels) : Agree least labels labels := fun _ _ _ => rfl

/-- A phrase that stands in front of others keeps its labels while they are generated. -/
theorem Agree.of_below {least later : Nat} (agree : Agree least after final)
    (below : before.Below after) (le : least ≤ later) : Agree later before final := by
  intro label ge inside
  rw [agree label (Nat.le_trans le ge) (Nat.lt_of_lt_of_le inside below.size_le),
    below.offset?_eq label inside]

theorem Agree.of_bind {least later : Nat} {label : Label} {offset : Nat}
    (agree : Agree least (labels.bind label offset) final) (lt : label.id < later)
    (le : least ≤ later) : Agree later labels final := by
  intro other ge inside
  rw [agree other (Nat.le_trans le ge) (size_bind labels label offset ▸ inside),
    offset?_bind_of_ne (Nat.ne_of_gt (Nat.lt_of_lt_of_le lt ge))]

/-- A label that has just been bound. -/
theorem Agree.offset?_bound {least : Nat} {label : Label} {offset : Nat}
    (agree : Agree least (labels.bind label offset) final) (ge : least ≤ label.id)
    (inside : label.id < labels.size) : final.offset? label = some offset := by
  rw [agree label ge (size_bind labels label offset ▸ inside), offset?_bind_self label inside]

/-- A label that has been bound earlier. -/
theorem Agree.offset?_earlier {least : Nat} {label : Label} {offset : Nat}
    (agree : Agree least (labels.bind label offset) final) (other : Label) (ge : least ≤ other.id)
    (inside : other.id < labels.size) (different : other.id ≠ label.id) :
    final.offset? other = labels.offset? other := by
  rw [agree other ge (size_bind labels label offset ▸ inside), offset?_bind_of_ne different]

theorem resolve_jump {label : Label} {offset : Nat} (bound : final.offset? label = some offset) :
    final.resolve (.jump label) = .ok (.jump offset) := by
  simp [resolve, Instruction.mapTarget, bound]
  rfl

/-- A jump to a bound label becomes a jump to its offset. -/
theorem resolve_jumpIf {label : Label} {offset : Nat} (comparison : Comparison)
    (bound : final.offset? label = some offset) :
    final.resolve (.jumpIf comparison label) = .ok (.jumpIf comparison offset) := by
  simp [resolve, Instruction.mapTarget, bound]
  rfl

theorem resolve_jumpIfZero {label : Label} {offset : Nat}
    (bound : final.offset? label = some offset) :
    final.resolve (.jumpIfZero label) = .ok (.jumpIfZero offset) := by
  simp [resolve, Instruction.mapTarget, bound]
  rfl

end Labels

theorem mapM_append_ok {ε α β : Type} {step : α → Except ε β} {xs ys : List α} {as bs : List β}
    (left : xs.mapM step = .ok as) (right : ys.mapM step = .ok bs) :
    (xs ++ ys).mapM step = .ok (as ++ bs) := by
  rw [List.mapM_append, left, right]
  rfl

theorem mapM_cons_ok {ε α β : Type} {step : α → Except ε β} {x : α} {xs : List α} {a : β}
    {as : List β} (head : step x = .ok a) (tail : xs.mapM step = .ok as) :
    (x :: xs).mapM step = .ok (a :: as) := by
  rw [List.mapM_cons, head, tail]
  rfl

theorem length_of_mapM_ok {ε α β : Type} {step : α → Except ε β} {xs : List α} {ys : List β}
    (ok : xs.mapM step = .ok ys) : ys.length = xs.length :=
  (mapM_forall₂ ok).length_eq.symm

/-! ### What a generation does beside a lowering -/

namespace Generator

/-- What stays the same while a function is generated. -/
structure SameFrame (before after : Generator) : Prop where
  name_eq : after.name = before.name
  arities_eq : after.arities = before.arities
  function_eq : after.function = before.function
  void_eq : after.void = before.void

/-- The generator has come as far as a lowering at `start` with the slots `slots`. -/
structure StandsAt (generator : Generator) (arities : Arities) (void : Bool) (start : Nat)
    (slots : Slots) : Prop where
  arities_eq : generator.arities = arities
  void_eq : generator.void = void
  length_eq : generator.code.length = start
  slots_eq : generator.slots = slots

/-- From `before` to `after` code has been emitted that becomes the code of `lowered` in every table
that keeps the labels handed out in between. -/
structure Appends (before : Generator) (lowered : Lowered) (after : Generator) : Prop where
  frame : before.SameFrame after
  slots_eq : after.slots = lowered.slots
  labels_below : before.labels.Below after.labels
  emitted : ∃ part, after.code = before.code ++ part ∧
    ∀ final, Labels.Agree before.labels.size after.labels final →
      part.mapM final.resolve = .ok lowered.code

theorem SameFrame.refl (generator : Generator) : generator.SameFrame generator :=
  ⟨rfl, rfl, rfl, rfl⟩

theorem SameFrame.trans {before middle after : Generator} (first : before.SameFrame middle)
    (second : middle.SameFrame after) : before.SameFrame after where
  name_eq := second.name_eq.trans first.name_eq
  arities_eq := second.arities_eq.trans first.arities_eq
  function_eq := second.function_eq.trans first.function_eq
  void_eq := second.void_eq.trans first.void_eq

/-- Emitting changes the code only. -/
theorem SameFrame.push {before after : Generator} {instruction : Instruction Label}
    (frame : before.SameFrame after) : before.SameFrame (after.push instruction) :=
  frame.trans ⟨rfl, rfl, rfl, rfl⟩

theorem SameFrame.bindHere {before after : Generator} {label : Label}
    (frame : before.SameFrame after) : before.SameFrame (after.bindHere label) :=
  frame.trans ⟨rfl, rfl, rfl, rfl⟩

variable {before middle after : Generator} {lowered first second : Lowered}
variable {arities : Arities} {void : Bool} {start : Nat} {slots : Slots}

namespace Appends

theorem nothing (slots_eq : before.slots = slots) : before.Appends ⟨[], slots⟩ before where
  frame := .refl before
  slots_eq := slots_eq
  labels_below := .refl _
  emitted := ⟨[], (List.append_nil _).symm, fun _ _ => rfl⟩

/-- The code with labels is as long as the code with offsets. -/
theorem length_eq (appends : before.Appends lowered after) :
    after.code.length = before.code.length + lowered.code.length := by
  obtain ⟨part, code_eq, resolves⟩ := appends.emitted
  rw [code_eq, List.length_append, length_of_mapM_ok (resolves _ (.refl _ _))]

/-- Behind a phrase the generator stands where the lowering of the next one starts. -/
theorem standsAt (appends : before.Appends lowered after)
    (stands : before.StandsAt arities void start slots) :
    after.StandsAt arities void (start + lowered.code.length) lowered.slots where
  arities_eq := appends.frame.arities_eq.trans stands.arities_eq
  void_eq := appends.frame.void_eq.trans stands.void_eq
  length_eq := by rw [appends.length_eq, stands.length_eq]
  slots_eq := appends.slots_eq

theorem trans (left : before.Appends first middle) (right : middle.Appends second after) :
    before.Appends ⟨first.code ++ second.code, second.slots⟩ after where
  frame := left.frame.trans right.frame
  slots_eq := right.slots_eq
  labels_below := left.labels_below.trans right.labels_below
  emitted := by
    obtain ⟨leftPart, leftCode, leftResolves⟩ := left.emitted
    obtain ⟨rightPart, rightCode, rightResolves⟩ := right.emitted
    refine ⟨leftPart ++ rightPart, by rw [rightCode, leftCode, List.append_assoc], ?_⟩
    intro final agree
    apply mapM_append_ok
    · exact leftResolves final (agree.of_below right.labels_below (Nat.le_refl _))
    · apply rightResolves final
      intro label ge inside
      exact agree label (Nat.le_trans left.labels_below.size_le ge) inside

/-- One instruction more, which leads nowhere. -/
theorem push {instruction : Instruction Label} {direct : Instruction Nat}
    (appends : before.Appends lowered after)
    (resolves : ∀ labels : Labels, labels.resolve instruction = .ok direct) :
    before.Appends ⟨lowered.code ++ [direct], lowered.slots⟩ (after.push instruction) := by
  have last : after.Appends ⟨[direct], lowered.slots⟩ (after.push instruction) := {
    frame := ⟨rfl, rfl, rfl, rfl⟩
    slots_eq := appends.slots_eq
    labels_below := .refl _
    emitted := ⟨[instruction], rfl, fun final _ => mapM_cons_ok (resolves final) rfl⟩ }
  exact appends.trans last

/-- The store of an assignment, whose target gets its slot there. -/
theorem store (appends : before.Appends lowered after) (target : String) :
    before.Appends
      ⟨lowered.code ++ [.store ((lowered.slots.insert target).slotOf target)],
        lowered.slots.insert target⟩
      (({ after with slots := after.slots.insert target } : Generator).push
        (.store ((after.slots.insert target).slotOf target))) := by
  have named : before.Appends ⟨lowered.code, lowered.slots.insert target⟩
      { after with slots := lowered.slots.insert target } := {
    frame := appends.frame.trans ⟨rfl, rfl, rfl, rfl⟩
    slots_eq := rfl
    labels_below := appends.labels_below
    emitted := appends.emitted }
  rw [appends.slots_eq]
  apply named.push
  intro labels
  rfl

end Appends

end Generator

namespace Generation

/-- The generation fails with the error of a direct computation, or it succeeds as well and `post`
relates the two results and the generator that is left. -/
def Follows {α β : Type} (generation : Generation β) (generator : Generator)
    (direct : Except LoweringError α) (post : α → β → Generator → Prop) : Prop :=
  match direct with
  | .error error => (generation.runOn generator).1 = .error (.lowering error)
  | .ok lowered => ∃ result after, generation.runOn generator = (.ok result, after) ∧
      post lowered result after

/-- A generation that fails leaves its generator behind. -/
theorem runOn_bind {α β : Type} (generation : Generation α) (next : α → Generation β)
    (generator : Generator) :
    (generation >>= next).runOn generator =
      match generation.runOn generator with
      | (.ok result, after) => (next result).runOn after
      | (.error error, after) => (.error error, after) := by
  show Id.run (ExceptT.bindCont next (generation.runOn generator).1
    (generation.runOn generator).2) = _
  cases generation.runOn generator with
  | mk result after => cases result <;> rfl

namespace Follows

variable {α β γ δ : Type} {generation : Generation β} {generator : Generator}
  {direct : Except LoweringError α} {post : α → β → Generator → Prop}

/-- A generation and a direct computation, each followed by another one. -/
theorem bind {next : β → Generation δ} {directNext : α → Except LoweringError γ}
    {last : γ → δ → Generator → Prop} (first : Follows generation generator direct post)
    (rest : ∀ lowered result after, post lowered result after →
      Follows (next result) after (directNext lowered) last) :
    Follows (generation >>= next) generator (direct >>= directNext) last := by
  cases direct with
  | error error =>
    show ((generation >>= next).runOn generator).1 = _
    have failed : (generation.runOn generator).1 = .error (.lowering error) := first
    rw [runOn_bind]
    cases ran : generation.runOn generator with
    | mk result after =>
      rw [ran] at failed
      rw [show result = _ from failed]
  | ok lowered =>
    obtain ⟨result, after, ran, holds⟩ := first
    have continued := rest lowered result after holds
    show Follows (generation >>= next) generator (directNext lowered) last
    unfold Follows at continued ⊢
    rw [runOn_bind, ran]
    exact continued

theorem map {last : γ → β → Generator → Prop} {convert : α → γ}
    (first : Follows generation generator direct post)
    (holds : ∀ lowered result after, post lowered result after →
      last (convert lowered) result after) :
    Follows generation generator (direct >>= fun lowered => pure (convert lowered)) last := by
  cases direct with
  | error error => exact first
  | ok lowered =>
    obtain ⟨result, after, ran, related⟩ := first
    exact ⟨result, after, ran, holds lowered result after related⟩

theorem weaken {last : α → β → Generator → Prop}
    (follows : Follows generation generator direct post)
    (implies : ∀ lowered result after, post lowered result after → last lowered result after) :
    Follows generation generator direct last := by
  cases direct with
  | error error => exact follows
  | ok lowered =>
    obtain ⟨result, after, ran, holds⟩ := follows
    exact ⟨result, after, ran, implies lowered result after holds⟩

/-- What is left is related to the result of the direct computation, whose value is known. -/
theorem withEq (follows : Follows generation generator direct post) :
    Follows generation generator direct
      (fun lowered result after => direct = .ok lowered ∧ post lowered result after) := by
  cases direct with
  | error error => exact follows
  | ok lowered =>
    obtain ⟨result, after, ran, holds⟩ := follows
    exact ⟨result, after, ran, rfl, holds⟩

/-- A generation that yields what the direct computation yields. -/
theorem result_eq {direct : Except LoweringError β}
    (follows : Follows generation generator direct (fun lowered result _ => result = lowered)) :
    (generation.runOn generator).1 = direct.mapError .lowering := by
  cases direct with
  | error error => exact follows
  | ok lowered =>
    obtain ⟨result, after, ran, rfl⟩ := follows
    exact congrArg Prod.fst ran

/-- A first action that cannot fail. -/
theorem step {next : β → Generation δ} {last : α → δ → Generator → Prop} {result : β}
    {after : Generator} (ran : generation.runOn generator = (.ok result, after))
    (rest : Follows (next result) after direct last) :
    Follows (generation >>= next) generator direct last := by
  unfold Follows at rest ⊢
  rw [runOn_bind, ran]
  exact rest

end Follows

theorem runOn_slotFor (name : String) (generator : Generator) :
    (slotFor name).runOn generator = (.ok ((generator.slots.insert name).slotOf name),
      { generator with slots := generator.slots.insert name }) := rfl

theorem runOn_existingSlot (name : String) (position : Position) (generator : Generator) :
    (existingSlot name position).runOn generator =
      match generator.slots.slot? name with
      | some slot => (.ok slot, generator)
      | none => (.error (.lowering (.unknownVariable name position)), generator) := by
  show Id.run (StateT.run (ExceptT.run
    (match generator.slots.slot? name with | some slot => _ | none => _)) generator) = _
  cases generator.slots.slot? name <;> rfl

/-- The code of a comparison as a value, with its two new labels bound. -/
def comparedBy (comparison : Comparison) (generator : Generator) : Generator :=
  let holds : Label := ⟨generator.labels.size⟩
  let finish : Label := ⟨generator.labels.size + 1⟩
  { generator with
    code := generator.code ++
      [.jumpIf comparison holds, .pushInt 0, .jump finish, .pushInt 1]
    labels := (generator.labels.fresh.2.fresh.2.bind holds (generator.code.length + 3)).bind finish
      (generator.code.length + 4) }

theorem runOn_comparisonValue (comparison : Comparison) (generator : Generator) :
    (comparisonValue comparison).runOn generator = (.ok (), comparedBy comparison generator) := by
  show (Except.ok (), _) = _
  simp [comparedBy, Generator.bindHere, Generator.push, Labels.fresh, Labels.size]

/-- The two labels of a comparison are bound inside its own code, so that the code resolves whatever
becomes of other labels. -/
theorem comparedBy_appends (comparison : Comparison) (generator : Generator) :
    generator.Appends
      ⟨Lowering.operatorCode generator.code.length (.comparison comparison), generator.slots⟩
      (comparedBy comparison generator) where
  frame := ⟨rfl, rfl, rfl, rfl⟩
  slots_eq := rfl
  labels_below :=
    ((generator.labels.below_freshTwo).bind (Nat.le_refl _) _).bind (Nat.le_succ _) _
  emitted := by
    refine ⟨_, rfl, fun final agree => ?_⟩
    have inside := generator.labels.size_freshTwo
    have finish := agree.offset?_bound (by simp) (by simp [Labels.size_bind, inside])
    have holds : final.offset? ⟨generator.labels.size⟩ = some (generator.code.length + 3) := by
      rw [agree.offset?_earlier ⟨generator.labels.size⟩ (Nat.le_refl _)
        (by simp [Labels.size_bind, inside]) (by simp),
        Labels.offset?_bind_self _ (by simp [inside])]
    exact mapM_cons_ok (Labels.resolve_jumpIf comparison holds) (mapM_cons_ok rfl
      (mapM_cons_ok (Labels.resolve_jump finish) (mapM_cons_ok rfl rfl)))

/-- The code of an operator, behind the code of its operands. -/
theorem operator_follows (op : BinaryOp) {generator after : Generator}
    {lowered : Lowered} (appends : generator.Appends lowered after) {start : Nat}
    (length_eq : after.code.length = start) :
    Follows (operator op) after
      (.ok ⟨lowered.code ++ Lowering.operatorCode start op, lowered.slots⟩)
      (fun lowered _ last => generator.Appends lowered last) := by
  cases op with
  | arithmetic op => exact ⟨(), _, rfl, appends.push fun _ => rfl⟩
  | comparison comparison =>
    have compared := comparedBy_appends comparison after
    rw [length_eq, appends.slots_eq] at compared
    exact ⟨(), _, runOn_comparisonValue comparison after, appends.trans compared⟩

/-! ### Expressions -/

variable {arities : Arities} {void : Bool}

mutual

/-- The generation of an expression appends the code of its lowering. -/
theorem expr_follows (e : Expr) {generator : Generator} {start : Nat} {slots : Slots}
    (stands : generator.StandsAt arities void start slots) :
    Follows (expr e) generator (Lowering.expr arities start slots e)
      (fun lowered _ after => generator.Appends lowered after) := by
  cases e with
  | int position value =>
    exact ⟨(), _, rfl, (Generator.Appends.nothing stands.slots_eq).push fun _ => rfl⟩
  | float position value =>
    exact ⟨(), _, rfl, (Generator.Appends.nothing stands.slots_eq).push fun _ => rfl⟩
  | var position name =>
    rw [Lowering.expr, ← stands.slots_eq]
    unfold expr
    cases found : generator.slots.slot? name with
    | some slot =>
      refine .step (by rw [runOn_existingSlot, found]) ?_
      exact ⟨(), _, rfl, (Generator.Appends.nothing rfl).push fun _ => rfl⟩
    | none =>
      show ((existingSlot name position >>= _).runOn generator).1 = _
      rw [runOn_bind, runOn_existingSlot, found]
  | binary position op left right =>
    rw [Lowering.expr]
    refine (expr_follows left stands).bind fun l _ middle leftAppends => ?_
    have middleStands := leftAppends.standsAt stands
    refine (expr_follows right middleStands).bind fun r _ after rightAppends => ?_
    have afterStands := rightAppends.standsAt middleStands
    have operated := operator_follows op (leftAppends.trans rightAppends) afterStands.length_eq
    rw [List.append_assoc] at operated
    exact operated
  | negate position operand =>
    rw [Lowering.expr]
    refine (expr_follows operand stands).bind fun o _ after appends => ?_
    exact ⟨(), _, rfl, appends.push fun _ => rfl⟩
  | call position callee args =>
    rw [Lowering.expr, ← stands.arities_eq]
    refine Follows.step rfl ?_
    cases known : generator.arities callee with
    | none => rfl
    | some arity =>
      by_cases fits : arity = args.length
      · simp only [if_pos fits]
        rw [stands.arities_eq]
        refine (exprs_follows args stands).bind fun a _ after appends => ?_
        exact ⟨(), _, rfl, appends.push fun _ => rfl⟩
      · simp only [if_neg fits]
        rfl
  | assign position target value =>
    rw [Lowering.expr]
    refine (expr_follows value stands).bind fun v _ after appends => ?_
    have copied : generator.Appends ⟨v.code ++ [.dup], v.slots⟩ (after.push .dup) :=
      appends.push fun _ => rfl
    have stored := copied.store target
    rw [List.append_assoc] at stored
    exact ⟨(), _, rfl, stored⟩
termination_by structural e

theorem exprs_follows (es : List Expr) {generator : Generator} {start : Nat} {slots : Slots}
    (stands : generator.StandsAt arities void start slots) :
    Follows (exprs es) generator (Lowering.exprs arities start slots es)
      (fun lowered _ after => generator.Appends lowered after) := by
  cases es with
  | nil =>
    exact ⟨(), _, rfl, .nothing stands.slots_eq⟩
  | cons first rest =>
    rw [Lowering.exprs]
    refine (expr_follows first stands).bind fun f _ middle firstAppends => ?_
    exact (exprs_follows rest (firstAppends.standsAt stands)).map fun r _ after restAppends =>
      firstAppends.trans restAppends
termination_by structural es

end

/-! ### Statements -/

/-- The jump of a test to a label. -/
def labelJump : Lowering.Test → Label → Instruction Label
  | .compare comparison, label => .jumpIf comparison.negate label
  | .zero, label => .jumpIfZero label

theorem resolve_labelJump {final : Labels} {label : Label} {offset : Nat} (test : Lowering.Test)
    (bound : final.offset? label = some offset) :
    final.resolve (labelJump test label) = .ok (test.jump offset) := by
  cases test with
  | compare comparison => exact Labels.resolve_jumpIf comparison.negate bound
  | zero => exact Labels.resolve_jumpIfZero bound

/-- A test appends the code of its operands, and the jump to a label that is not bound yet. -/
theorem condition_follows (test : Expr) (otherwise : Label) {generator : Generator} {start : Nat}
    {slots : Slots} (stands : generator.StandsAt arities void start slots) :
    Follows (condition otherwise test) generator (Lowering.condition arities start slots test)
      (fun lowered _ after => ∃ tested, generator.Appends lowered.1 tested ∧
        after = tested.push (labelJump lowered.2 otherwise)) := by
  unfold condition
  split
  · next position comparison left right =>
    rw [Lowering.condition]
    refine (expr_follows left stands).bind fun l _ middle leftAppends => ?_
    refine (expr_follows right (leftAppends.standsAt stands)).bind fun r _ after rightAppends => ?_
    exact ⟨(), _, rfl, after, leftAppends.trans rightAppends, rfl⟩
  · next other =>
    rw [Lowering.condition.eq_2 _ _ _ _ other]
    refine (expr_follows test stands).bind fun v _ after appends => ?_
    exact ⟨(), _, rfl, after, appends, rfl⟩

/-- A jump behind the code of `lowered`, whatever it becomes. -/
theorem standsAt_jump {generator tested : Generator} {start : Nat} {slots : Slots}
    {lowered : Lowered} (stands : generator.StandsAt arities void start slots)
    (appends : generator.Appends lowered tested) (jump : Instruction Label) :
    (tested.push jump).StandsAt arities void (start + lowered.code.length + 1) lowered.slots where
  arities_eq := (appends.standsAt stands).arities_eq
  void_eq := (appends.standsAt stands).void_eq
  length_eq := by
    rw [← (appends.standsAt stands).length_eq]
    simp [Generator.push]
  slots_eq := appends.slots_eq

/-- The generator behind the two labels of a branch or loop. -/
def opened (generator : Generator) : Generator :=
  { generator with labels := generator.labels.fresh.2.fresh.2 }

/-- A branch or a loop begins with two new labels. -/
theorem Follows.labelled {α β : Type} {generator : Generator} {direct : Except LoweringError α}
    {next : Label → Label → Generation β} {last : α → β → Generator → Prop}
    (rest : Follows (next ⟨generator.labels.size⟩ ⟨generator.labels.size + 1⟩)
      (opened generator) direct last) :
    Follows (freshLabel >>= fun first => freshLabel >>= fun second => next first second) generator
      direct last := by
  have second : (freshLabel.runOn { generator with labels := generator.labels.fresh.2 }) =
      (.ok ⟨generator.labels.size + 1⟩, opened generator) := by
    rw [← Labels.size_fresh]
    rfl
  exact .step rfl (.step second rest)

theorem opened_standsAt {generator : Generator} {start : Nat} {slots : Slots}
    (stands : generator.StandsAt arities void start slots) :
    (opened generator).StandsAt arities void start slots :=
  ⟨stands.arities_eq, stands.void_eq, stands.length_eq, stands.slots_eq⟩

theorem opened_labels_size (generator : Generator) :
    (opened generator).labels.size = generator.labels.size + 2 :=
  generator.labels.size_freshTwo

theorem opened_code (generator : Generator) : (opened generator).code = generator.code := rfl

theorem opened_sameFrame (generator : Generator) : generator.SameFrame (opened generator) :=
  ⟨rfl, rfl, rfl, rfl⟩

theorem bindHere_standsAt {generator : Generator} {start : Nat} {slots : Slots}
    (stands : generator.StandsAt arities void start slots) (label : Label) :
    (generator.bindHere label).StandsAt arities void start slots :=
  ⟨stands.arities_eq, stands.void_eq, stands.length_eq, stands.slots_eq⟩

end Generation

namespace Generator.Appends

open Generation

variable {generator tested bodied last : Generator} {test body alternative : Lowered}
  {jump : Lowering.Test}

/-- Behind both blocks of a branch its two labels are bound: the first one at the alternative, the
second one behind it. -/
theorem branch (testAppends : (opened generator).Appends test tested)
    (bodyAppends : (tested.push (labelJump jump ⟨generator.labels.size⟩)).Appends body bodied)
    (otherAppends : ((bodied.push (.jump ⟨generator.labels.size + 1⟩)).bindHere
      ⟨generator.labels.size⟩).Appends alternative last) :
    generator.Appends
      ⟨test.code ++ jump.jump (generator.code.length + test.code.length + 1 + body.code.length + 1)
        :: body.code ++ .jump (generator.code.length + test.code.length + 1 + body.code.length + 1 +
          alternative.code.length) :: alternative.code, alternative.slots⟩
      (last.bindHere ⟨generator.labels.size + 1⟩) := by
  have testedSize := testAppends.labels_below.size_le
  have bodiedSize := bodyAppends.labels_below.size_le
  have lastSize := otherAppends.labels_below.size_le
  simp only [opened_labels_size, push_labels, bindHere_labels,
    Labels.size_bind] at testedSize bodiedSize lastSize
  have bodiedLength := bodyAppends.length_eq
  have lastLength := otherAppends.length_eq
  simp only [push_code, bindHere_code, List.length_append, List.length_singleton,
    testAppends.length_eq, opened_code] at bodiedLength lastLength
  have bodiedBelow : generator.labels.Below bodied.labels :=
    (generator.labels.below_freshTwo.trans testAppends.labels_below).trans bodyAppends.labels_below
  have bodiedFrame : generator.SameFrame bodied :=
    ((opened_sameFrame generator).trans testAppends.frame).push.trans bodyAppends.frame
  constructor
  case frame => exact (bodiedFrame.push.bindHere.trans otherAppends.frame).bindHere
  case slots_eq => exact otherAppends.slots_eq
  case labels_below =>
    exact ((bodiedBelow.bind (Nat.le_refl _) _).trans otherAppends.labels_below).bind
      (Nat.le_succ _) _
  case emitted =>
    obtain ⟨testPart, testCode, testResolves⟩ := testAppends.emitted
    obtain ⟨bodyPart, bodyCode, bodyResolves⟩ := bodyAppends.emitted
    obtain ⟨otherPart, otherCode, otherResolves⟩ := otherAppends.emitted
    refine ⟨testPart ++ labelJump jump ⟨generator.labels.size⟩ :: bodyPart ++
      .jump ⟨generator.labels.size + 1⟩ :: otherPart, ?_, fun final agree => ?_⟩
    · simp [otherCode, bodyCode, testCode, opened_code]
    -- Both labels are bound in the last table, and the parts' own labels have not changed since.
    have finish := agree.offset?_bound (Nat.le_succ _)
      (show generator.labels.size + 1 < last.labels.size by omega)
    have other : final.offset? ⟨generator.labels.size⟩ = some (bodied.code.length + 1) := by
      rw [agree.offset?_earlier ⟨generator.labels.size⟩ (Nat.le_refl _)
          (show generator.labels.size < last.labels.size by omega)
          (Nat.ne_of_lt (Nat.lt_succ_self _)),
        otherAppends.labels_below.offset?_eq _
          (by simp only [bindHere_labels, push_labels, Labels.size_bind]; omega),
        bindHere_labels, push_labels,
        Labels.offset?_bind_self ⟨generator.labels.size⟩
          (show generator.labels.size < bodied.labels.size by omega)]
      simp
    -- the labels of each part are those handed out behind the labels of the parts before
    have agreeLast := agree.of_bind (Nat.lt_succ_self _) (Nat.le_add_right _ 2)
    have agreeBodied : Labels.Agree (generator.labels.size + 2) bodied.labels final :=
      (agreeLast.of_below otherAppends.labels_below (Nat.le_refl _)).of_bind
        (Nat.lt_add_of_pos_right (by decide)) (Nat.le_refl _)
    have tests := testResolves final (agreeBodied.of_below bodyAppends.labels_below
      (by simp only [opened_labels_size]; omega))
    have bodies := bodyResolves final (agreeBodied.of_below (.refl _)
      (by simp only [push_labels]; omega))
    have others := otherResolves final (agreeLast.of_below (.refl _)
      (by simp only [bindHere_labels, push_labels, Labels.size_bind]; omega))
    have resolved := mapM_append_ok tests (mapM_cons_ok (resolve_labelJump jump other)
      (mapM_append_ok bodies (mapM_cons_ok (Labels.resolve_jump finish) others)))
    simpa [lastLength, bodiedLength] using resolved

/-- The labels of a loop: the first one is bound in front of the test, the second one behind the
jump back. -/
theorem loop
    (testAppends : ((opened generator).bindHere ⟨generator.labels.size⟩).Appends test tested)
    (bodyAppends : (tested.push (labelJump jump ⟨generator.labels.size + 1⟩)).Appends body bodied) :
    generator.Appends
      ⟨test.code ++ jump.jump (generator.code.length + test.code.length + 1 + body.code.length + 1)
        :: body.code ++ [.jump generator.code.length], body.slots⟩
      ((bodied.push (.jump ⟨generator.labels.size⟩)).bindHere ⟨generator.labels.size + 1⟩) := by
  have testedSize := testAppends.labels_below.size_le
  have bodiedSize := bodyAppends.labels_below.size_le
  simp only [opened_labels_size, push_labels, bindHere_labels,
    Labels.size_bind] at testedSize bodiedSize
  have bodiedLength := bodyAppends.length_eq
  simp only [push_code, bindHere_code, List.length_append, List.length_singleton,
    testAppends.length_eq, opened_code] at bodiedLength
  have openedBelow : generator.labels.Below ((opened generator).bindHere
      ⟨generator.labels.size⟩).labels :=
    generator.labels.below_freshTwo.bind (Nat.le_refl _) _
  have testedFrame : generator.SameFrame tested :=
    (opened_sameFrame generator).bindHere.trans testAppends.frame
  -- As for a branch, the part is resolved against any table that agrees with the last one.
  constructor
  case frame => exact (testedFrame.push.trans bodyAppends.frame).push.bindHere
  case slots_eq => exact bodyAppends.slots_eq
  case labels_below =>
    exact ((openedBelow.trans testAppends.labels_below).trans bodyAppends.labels_below).bind
      (Nat.le_succ _) _
  case emitted =>
    obtain ⟨testPart, testCode, testResolves⟩ := testAppends.emitted
    obtain ⟨bodyPart, bodyCode, bodyResolves⟩ := bodyAppends.emitted
    refine ⟨testPart ++ labelJump jump ⟨generator.labels.size + 1⟩ :: bodyPart ++
      [.jump ⟨generator.labels.size⟩], ?_, fun final agree => ?_⟩
    · simp [bodyCode, testCode, opened_code]
    have finish := agree.offset?_bound (Nat.le_succ _)
      (show generator.labels.size + 1 < bodied.labels.size by omega)
    -- The label of the start is bound in front of the test. Nothing behind binds it again.
    have start : final.offset? ⟨generator.labels.size⟩ = some generator.code.length := by
      rw [agree.offset?_earlier ⟨generator.labels.size⟩ (Nat.le_refl _)
          (show generator.labels.size < bodied.labels.size by omega)
          (Nat.ne_of_lt (Nat.lt_succ_self _)), push_labels,
        bodyAppends.labels_below.offset?_eq ⟨generator.labels.size⟩
          (show generator.labels.size < tested.labels.size by omega),
        push_labels, testAppends.labels_below.offset?_eq _
          (by simp only [bindHere_labels, Labels.size_bind, opened_labels_size]; omega),
        bindHere_labels, Labels.offset?_bind_self _ (by simp only [opened_labels_size]; omega)]
      rfl
    have agreeBodied := agree.of_bind (Nat.lt_succ_self _) (Nat.le_add_right _ 2)
    have tests := testResolves final (agreeBodied.of_below bodyAppends.labels_below
      (by simp only [bindHere_labels, Labels.size_bind, opened_labels_size]; omega))
    have bodies := bodyResolves final (agreeBodied.of_below (.refl _)
      (by simp only [push_labels]; omega))
    have back : [.jump ⟨generator.labels.size⟩].mapM final.resolve =
        .ok [.jump generator.code.length] := mapM_cons_ok (Labels.resolve_jump start) rfl
    have resolved := mapM_append_ok tests (mapM_cons_ok (resolve_labelJump jump finish)
      (mapM_append_ok bodies back))
    simpa [bodiedLength] using resolved

end Generator.Appends

namespace Generation

variable {arities : Arities} {void : Bool}

theorem defaultReturn_follows {generator after : Generator} {lowered : Lowered}
    (appends : generator.Appends lowered after) (void_eq : after.void = void) :
    Follows defaultReturn after (.ok ⟨lowered.code ++ Lowering.defaultReturn void, lowered.slots⟩)
      (fun lowered _ last => generator.Appends lowered last) := by
  unfold defaultReturn
  refine .step rfl ?_
  rw [void_eq]
  cases void with
  | true => exact ⟨(), _, rfl, appends.push fun _ => rfl⟩
  | false =>
    have pushed : generator.Appends ⟨lowered.code ++ [.pushInt 0], lowered.slots⟩
        (after.push (.pushInt 0)) := appends.push fun _ => rfl
    have returned := pushed.push (fun _ => rfl : ∀ labels : Labels, labels.resolve .return_ = _)
    rw [List.append_assoc] at returned
    exact ⟨(), _, rfl, returned⟩

mutual

/-- The generation of a statement appends the code of its lowering. -/
theorem stmt_follows (statement : Stmt) {generator : Generator} {start : Nat} {slots : Slots}
    (stands : generator.StandsAt arities void start slots) :
    Follows (stmt statement) generator (Lowering.stmt arities void start slots statement)
      (fun lowered _ after => generator.Appends lowered after) := by
  cases statement with
  | assign position target value =>
    rw [Lowering.stmt]
    refine (expr_follows value stands).bind fun v _ after appends => ?_
    exact ⟨(), _, rfl, appends.store target⟩
  | discard position value =>
    rw [Lowering.stmt]
    refine (expr_follows value stands).bind fun v _ after appends => ?_
    exact ⟨(), _, rfl, appends.push fun _ => rfl⟩
  | print position value =>
    rw [Lowering.stmt]
    refine (expr_follows value stands).bind fun v _ after appends => ?_
    exact ⟨(), _, rfl, appends.push fun _ => rfl⟩
  | branch position test body alternative =>
    have openedStands := opened_standsAt stands
    cases alternative with
    | none =>
      rw [Lowering.stmt]
      -- Both labels are requested in front of the test and bound behind it, so what the jumps
      -- become is known only from the last table.
      refine .labelled ?_
      refine (condition_follows test _ openedStands).bind fun t _ after tests => ?_
      obtain ⟨tested, testAppends, rfl⟩ := tests
      have testedStands := standsAt_jump openedStands testAppends
        (labelJump t.2 ⟨generator.labels.size⟩)
      refine (stmts_follows body testedStands).bind fun b _ bodied bodyAppends => ?_
      have branched := testAppends.branch bodyAppends (.nothing bodyAppends.slots_eq)
      rw [stands.length_eq] at branched
      exact ⟨(), _, rfl, branched⟩
    | some alternative =>
      rw [Lowering.stmt]
      refine .labelled ?_
      refine (condition_follows test _ openedStands).bind fun t _ after tests => ?_
      obtain ⟨tested, testAppends, rfl⟩ := tests
      have testedStands := standsAt_jump openedStands testAppends
        (labelJump t.2 ⟨generator.labels.size⟩)
      refine (stmts_follows body testedStands).bind fun b _ bodied bodyAppends => ?_
      have bodiedStands := standsAt_jump testedStands bodyAppends
        (.jump ⟨generator.labels.size + 1⟩)
      refine .step rfl (.step rfl ?_)
      refine (stmts_follows alternative ?_).bind fun a _ last otherAppends => ?_
      · exact bindHere_standsAt bodiedStands ⟨generator.labels.size⟩
      have branched := testAppends.branch bodyAppends otherAppends
      rw [stands.length_eq] at branched
      exact ⟨(), _, rfl, branched⟩
  | loop position test body =>
    have startStands := bindHere_standsAt (opened_standsAt stands) ⟨generator.labels.size⟩
    rw [Lowering.stmt]
    refine .labelled (.step rfl ?_)
    refine (condition_follows test _ startStands).bind fun t _ after tests => ?_
    obtain ⟨tested, testAppends, rfl⟩ := tests
    have testedStands := standsAt_jump startStands testAppends
      (labelJump t.2 ⟨generator.labels.size + 1⟩)
    refine (stmts_follows body testedStands).bind fun b _ bodied bodyAppends => ?_
    have looped := testAppends.loop bodyAppends
    rw [stands.length_eq] at looped
    exact ⟨(), _, rfl, looped⟩
  | return_ position value =>
    cases value with
    | none => exact defaultReturn_follows (.nothing stands.slots_eq) stands.void_eq
    | some value =>
      rw [Lowering.stmt]
      refine (expr_follows value stands).bind fun v _ after appends => ?_
      exact ⟨(), _, rfl, appends.push fun _ => rfl⟩
  | block position body =>
    rw [Lowering.stmt]
    exact stmts_follows body stands
termination_by structural statement

theorem stmts_follows (body : List Stmt) {generator : Generator} {start : Nat} {slots : Slots}
    (stands : generator.StandsAt arities void start slots) :
    Follows (stmts body) generator (Lowering.stmts arities void start slots body)
      (fun lowered _ after => generator.Appends lowered after) := by
  cases body with
  | nil =>
    exact ⟨(), _, rfl, .nothing stands.slots_eq⟩
  | cons first rest =>
    rw [Lowering.stmts]
    refine (stmt_follows first stands).bind fun f _ middle firstAppends => ?_
    exact (stmts_follows rest (firstAppends.standsAt stands)).map fun r _ after restAppends =>
      firstAppends.trans restAppends
termination_by structural body

end

/-! ### Functions and programs -/

theorem runOn_params (parameters : List Param) (generator : Generator) :
    (params parameters).runOn generator = (.ok (), { generator with
      slots := parameters.foldl (fun slots param => slots.insert param.name) generator.slots }) := by
  induction parameters generalizing generator with
  | nil => rfl
  | cons param rest ih =>
    rw [params, runOn_bind, runOn_slotFor, List.foldl_cons]
    exact ih _

/-- Every label of a finished function is bound. -/
theorem runOn_fixUp {before after : Generator} {lowered : Lowered}
    (appends : before.Appends lowered after) (unwritten : before.code = []) :
    fixUp.runOn after = (.ok lowered.code, after) := by
  obtain ⟨part, code_eq, resolves⟩ := appends.emitted
  have resolved : after.code.mapM after.labels.resolve = .ok lowered.code := by
    rw [code_eq, unwritten]
    exact resolves after.labels (.refl _ _)
  have read : (get : Generation Generator).runOn after = (.ok after, after) := rfl
  rw [fixUp, runOn_bind, read]
  dsimp only
  rw [resolved]
  rfl

/-- The slots that a finished function leaves are those of all its local names. -/
theorem routine_follows (function : Function) (generator : Generator) :
    Follows (routine function) generator (Lowering.routine generator.arities function)
      (fun lowered result after => result = lowered ∧ after.arities = generator.arities ∧
        after.slots = function.slots) := by
  unfold routine Lowering.routine
  refine .step rfl (.step rfl (.step (runOn_params function.params _) ?_))
  refine (stmts_follows function.body ⟨rfl, rfl, rfl, rfl⟩).withEq.bind
    fun b _ written wrote => ?_
  obtain ⟨body_ok, bodyAppends⟩ := wrote
  have slots_eq : b.slots = function.slots := Lowering.routine_slots body_ok
  have returned := defaultReturn_follows bodyAppends bodyAppends.frame.void_eq
  obtain ⟨_, after, ran, appends⟩ := returned
  refine .step ran (.step (runOn_fixUp appends rfl) ?_)
  refine ⟨_, after, rfl, ?_, appends.frame.arities_eq, appends.slots_eq.trans slots_eq⟩
  rw [appends.slots_eq, appends.frame.void_eq]

/-- Functions in a row. Each resets what the one before it has left. -/
theorem mapM_routine_follows (functions : List Function) (generator : Generator) :
    Follows (functions.mapM routine) generator
      (functions.mapM (Lowering.routine generator.arities))
      (fun lowered result _ => result = lowered) := by
  induction functions generalizing generator with
  | nil => exact ⟨[], generator, rfl, rfl⟩
  | cons function rest ih =>
    rw [List.mapM_cons, List.mapM_cons]
    refine (routine_follows function generator).bind fun r result middle related => ?_
    obtain ⟨rfl, arities_eq, -⟩ := related
    rw [← arities_eq]
    refine (ih middle).bind fun rs results after same => ?_
    exact ⟨_, after, rfl, congrArg (result :: ·) same⟩

end Generation

/-- Whatever the generator has worked on before, it yields what lowering yields. -/
theorem Generator.generate_eq (generator : Generator) (program : Program) :
    (generator.generate program).1 =
      (Assembly.ofProgram generator.name program).mapError .lowering := by
  apply Generation.Follows.result_eq
  unfold Generation.program Assembly.ofProgram
  refine .step rfl (.step rfl ?_)
  refine (Generation.mapM_routine_follows program.functions _).bind fun rs results after same => ?_
  exact ⟨_, after, rfl, congrArg (Assembly.mk generator.name) same⟩

end ImpStack
