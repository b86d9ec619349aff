import ImpStack.Proofs.Dispatch
import ImpStack.Proofs.Execution
import ImpStack.Proofs.StackHeight

/-!
Runs of compiled programs keep their operand stack in order: every instruction finds its operands
above the base of its call, and a call leaves behind nothing but its result
(`Assembly.run_stackSafe`). The invariant of a run (`Balanced`) ties the height of the stack to the
height that `StackHeight` gives for the next offset of each live call; a step keeps it
(`Balanced.step`), and so does a whole run (`Balanced.run`). Nothing is assumed of the check of
scopes, of the sink or of the names of functions.
-/
namespace ImpStack

namespace Operands

variable {operands : Operands} {base : Nat}

theorem pop?_of_lt (above : base + 1 ≤ operands.height) :
    ∃ value rest, operands.pop? base = some (value, rest) ∧ rest.height + 1 = operands.height := by
  have inside : 0 < operands.values.length := by
    rw [← operands.height_eq]
    omega
  obtain ⟨value, values, values_eq⟩ := List.exists_cons_of_length_pos inside
  refine ⟨value, operands.drop 1, ?_, ?_⟩
  · unfold pop?
    rw [if_pos (Nat.lt_of_succ_le above), values_eq]
    rfl
  · show operands.height - 1 + 1 = operands.height
    omega

theorem popPair?_of_le (above : base + 2 ≤ operands.height) :
    ∃ left right rest, operands.popPair? base = some ((left, right), rest) ∧
      rest.height + 2 = operands.height := by
  have aboveRight : base + 1 ≤ operands.height := by omega
  obtain ⟨right, middle, taken, middle_height⟩ := pop?_of_lt aboveRight
  have aboveLeft : base + 1 ≤ middle.height := by omega
  obtain ⟨left, rest, takenLeft, rest_height⟩ := pop?_of_lt aboveLeft
  refine ⟨left, right, rest, ?_, by omega⟩
  unfold popPair?
  simp only [taken, takenLeft, Option.map_some]

theorem popMany?_of_le {count : Nat} (above : base + count ≤ operands.height) :
    ∃ values rest, operands.popMany? base count = some (values, rest) ∧ values.length = count ∧
      rest.height + count = operands.height := by
  induction count generalizing operands with
  | zero => exact ⟨[], operands, rfl, rfl, rfl⟩
  | succ count ih =>
    have aboveLast : base + 1 ≤ operands.height := by omega
    obtain ⟨last, middle, taken, middle_height⟩ := pop?_of_lt aboveLast
    have aboveRest : base + count ≤ middle.height := by omega
    obtain ⟨values, rest, takenMore, count_eq, rest_height⟩ := ih aboveRest
    refine ⟨values ++ [last], rest, ?_, by simp [count_eq], by omega⟩
    unfold popMany?
    simp only [taken, takenMore, Option.map_some]

theorem height_push (operands : Operands) (value : Value) :
    (operands.push value).height = operands.height + 1 := rfl

/-- At the height of the base nothing is cut off. -/
theorem truncate_of_height_eq (height_eq : operands.height = base) :
    operands.truncate base = operands := by
  cases operands with
  | mk values height values_eq =>
    unfold truncate drop
    simp_all

end Operands

/-- Only a full sink refuses a line. -/
theorem Sink.isFull_of_write?_eq_none {sink : Sink} {line : String}
    (refused : sink.write? line = none) : sink.isFull = true := by
  unfold write? at refused
  split at refused
  · assumption
  · cases refused

variable {name : String} {program : Program} {assembly : Assembly}

/-- A call of a function of the program that has a next instruction. -/
structure Frame.Sound (program : Program) (frame : Frame) : Prop where
  origin : ∃ function ∈ program.functions,
    Lowering.routine program.arities function = .ok frame.routine
  inside : frame.next < frame.routine.code.size

/-- The height of the operand stack in front of the next instruction of the call. -/
def Frame.height (frame : Frame) : Nat := frame.base + frame.routine.heightAt frame.next

/-- The calls that wait for one that begins at the height `base`, the innermost first. What each one
expects on the stack is what lies there, with one value more. -/
def Waiting (program : Program) : (base : Nat) → List Frame → Prop
  | base, [] => base = 0
  | base, caller :: callers =>
    caller.Sound program ∧ caller.height = base + 1 ∧ Waiting program caller.base callers

namespace Machine

/-- All live calls are in order, and the operand stack is as high as they expect. -/
structure Balanced (program : Program) (machine : Machine) : Prop where
  sound : machine.frame.Sound program
  height_eq : machine.operands.height = machine.frame.height
  waiting : Waiting program machine.frame.base machine.callers

/-- How a run of a compiled program may stop with the next step. -/
inductive Stops (machine : Machine) : Outcome → Prop where
  | result (value : Option Value) : Stops machine (.ok value)
  | divisionByZero : Stops machine (.error (.divisionByZero machine.frame.routine.name))
  | uninitializedSlot (slot : Nat) :
      Stops machine (.error (.uninitializedSlot machine.frame.routine.name slot))
  | callDepthExceeded : Stops machine (.error .callDepthExceeded)
  | sinkFull : machine.sink.isFull = true → Stops machine (.error .sinkFull)

namespace Balanced

variable {machine next : Machine}

/-- The same call goes on at an offset that it may be led to. -/
theorem goes (balanced : machine.Balanced program) {height : Nat}
    (routine_eq : next.frame.routine = machine.frame.routine)
    (base_eq : next.frame.base = machine.frame.base) (callers_eq : next.callers = machine.callers)
    (leads : machine.frame.routine.Leads next.frame.next height)
    (height_eq : next.operands.height = machine.frame.base + height) : next.Balanced program where
  sound := by
    refine ⟨?_, ?_⟩
    · rw [routine_eq]
      exact balanced.sound.origin
    · rw [routine_eq]
      exact leads.1
  height_eq := by rw [height_eq, Frame.height, routine_eq, base_eq, leads.2]
  waiting := by
    rw [base_eq, callers_eq]
    exact balanced.waiting

/-- A call that has nothing left returns to a caller in order, or the run ends. -/
theorem leave (balanced : machine.Balanced program) {operands : Operands}
    (height_eq : operands.height = machine.frame.base) (value : Option Value) :
    (∃ next, machine.leave operands value = .running next ∧ next.Balanced program) ∨
      machine.leave operands value = .stopped (.ok value) := by
  unfold Machine.leave
  have waiting := balanced.waiting
  cases callers_eq : machine.callers with
  | nil => exact .inr rfl
  | cons caller callers =>
    rw [callers_eq] at waiting
    obtain ⟨sound, caller_height, waiting⟩ := waiting
    refine .inl ⟨_, rfl, sound, ?_, waiting⟩
    rw [Operands.truncate_of_height_eq height_eq, Operands.height_push, height_eq, caller_height]

/-- What a step may lead to: a machine in order, or an end that is no fault of the stack. -/
def Proceeds (program : Program) (machine : Machine) (step : Step) : Prop :=
  (∃ next, step = .running next ∧ next.Balanced program) ∨
    ∃ outcome, step = .stopped outcome ∧ machine.Stops outcome

/-- A jump of the machine leads where the code leads. -/
theorem jump (balanced : machine.Balanced program) {operands : Operands} {target height : Nat}
    (leads : machine.frame.routine.Leads target height)
    (height_eq : operands.height = machine.frame.base + height) :
    Proceeds program machine
      (machine.jump { machine.frame with next := machine.frame.next + 1 } operands target) := by
  refine .inl ⟨{ machine with frame := { machine.frame with next := target }, operands }, ?_, ?_⟩
  · unfold Machine.jump
    rw [if_pos leads.1]
    rfl
  · exact balanced.goes rfl rfl rfl leads height_eq

/-- The machine goes on with the next instruction. -/
theorem within (balanced : machine.Balanced program) {operands : Operands} {frame : Frame}
    {height : Nat} (leads : machine.frame.routine.Leads frame.next height)
    (routine_eq : frame.routine = machine.frame.routine)
    (base_eq : frame.base = machine.frame.base)
    (height_eq : operands.height = machine.frame.base + height) :
    Proceeds program machine (machine.within frame operands) :=
  .inl ⟨{ machine with frame, operands }, rfl,
    balanced.goes routine_eq base_eq rfl leads height_eq⟩

/-- A call gets its arguments and begins with nothing on the stack; its caller expects one value in
their place. -/
theorem call (balanced : machine.Balanced program)
    (ok : Assembly.ofProgram name program = .ok assembly)
    {callee : String} {arity height : Nat} (known : program.arities callee = some arity)
    (enough : machine.frame.base + arity ≤ machine.operands.height)
    (leads : machine.frame.routine.Leads (machine.frame.next + 1) height)
    (height_eq : machine.operands.height + 1 = machine.frame.base + height + arity)
    (underflow : Fault) :
    Proceeds program machine
      (Machine.call assembly machine { machine.frame with next := machine.frame.next + 1 } underflow
        callee arity) := by
  rw [Program.arities_eq] at known
  obtain ⟨function, found, arity_eq⟩ := Option.map_eq_some_iff.mp known
  obtain ⟨routine, reached, routine_ok⟩ := Assembly.dispatch?_of_function? ok found
  obtain ⟨args, operands, taken, _, operands_height⟩ := Operands.popMany?_of_le enough
  unfold Machine.call
  simp only [reached, taken]
  split
  · exact .inr ⟨_, rfl, .callDepthExceeded⟩
  · refine .inl ⟨_, rfl, ⟨⟨function, ?_, routine_ok⟩, ?_⟩, rfl, ⟨?_, leads.1⟩, ?_, balanced.waiting⟩
    · exact List.mem_reverse.mp (List.mem_of_find?_eq_some found)
    · obtain ⟨b, _, _, size_eq⟩ := Lowering.routine_placed routine_ok
      have pos := Lowering.defaultReturn_length_pos (Lowering.isEntry function)
      show 0 < routine.code.size
      omega
    · exact balanced.sound.origin
    · show machine.frame.base + machine.frame.routine.heightAt (machine.frame.next + 1) =
        operands.height + 1
      rw [leads.2]
      omega

/-- One instruction that fits, case by case: it takes what it needs and leads to the height
expected. -/
theorem perform (balanced : machine.Balanced program)
    (ok : Assembly.ofProgram name program = .ok assembly) {instruction : Instruction Nat}
    (fits : instruction.Fits program.arities machine.frame.routine machine.frame.next
      (machine.frame.routine.heightAt machine.frame.next)) (underflow : Fault) :
    Proceeds program machine
      (machine.perform assembly { machine.frame with next := machine.frame.next + 1 } underflow
        instruction) := by
  have height_eq := balanced.height_eq
  unfold Frame.height at height_eq
  -- only the number matters from here on, not the code that it is read off
  generalize machine.frame.routine.heightAt machine.frame.next = height at fits height_eq
  cases instruction with
  | pushInt value =>
    exact balanced.within fits rfl rfl (by rw [Operands.height_push]; omega)
  | pushFloat value =>
    exact balanced.within fits rfl rfl (by rw [Operands.height_push]; omega)
  | load slot =>
    simp only [Machine.perform]
    split
    · exact balanced.within fits rfl rfl (by rw [Operands.height_push]; omega)
    · exact .inr ⟨_, rfl, .uninitializedSlot slot⟩
  | store slot =>
    obtain ⟨enough, leads⟩ := fits
    have above : machine.frame.base + 1 ≤ machine.operands.height := by omega
    obtain ⟨value, rest, taken, rest_height⟩ := Operands.pop?_of_lt above
    simp only [Machine.perform, taken]
    exact balanced.within leads rfl rfl (by omega)
  | dup =>
    obtain ⟨enough, leads⟩ := fits
    have above : machine.frame.base + 1 ≤ machine.operands.height := by omega
    obtain ⟨value, rest, taken, rest_height⟩ := Operands.pop?_of_lt above
    simp only [Machine.perform, taken]
    exact balanced.within leads rfl rfl (by simp only [Operands.height_push]; omega)
  | pop =>
    obtain ⟨enough, leads⟩ := fits
    have above : machine.frame.base + 1 ≤ machine.operands.height := by omega
    obtain ⟨value, rest, taken, rest_height⟩ := Operands.pop?_of_lt above
    simp only [Machine.perform, taken]
    exact balanced.within leads rfl rfl (by omega)
  | arithmetic op =>
    obtain ⟨enough, leads⟩ := fits
    have above : machine.frame.base + 2 ≤ machine.operands.height := by omega
    obtain ⟨left, right, rest, taken, rest_height⟩ := Operands.popPair?_of_le above
    simp only [Machine.perform, taken]
    split
    · exact balanced.within leads rfl rfl (by rw [Operands.height_push]; omega)
    · exact .inr ⟨_, rfl, .divisionByZero⟩
  | neg =>
    obtain ⟨enough, leads⟩ := fits
    have above : machine.frame.base + 1 ≤ machine.operands.height := by omega
    obtain ⟨value, rest, taken, rest_height⟩ := Operands.pop?_of_lt above
    simp only [Machine.perform, taken]
    exact balanced.within leads rfl rfl (by rw [Operands.height_push]; omega)
  | jump target => exact balanced.jump fits height_eq
  | jumpIfZero target =>
    obtain ⟨enough, leads⟩ := fits
    have above : machine.frame.base + 1 ≤ machine.operands.height := by omega
    obtain ⟨value, rest, taken, rest_height⟩ := Operands.pop?_of_lt above
    simp only [Machine.perform, taken]
    split
    · exact balanced.jump leads.2 (by omega)
    · exact balanced.within leads.1 rfl rfl (by omega)
  | jumpIf comparison target =>
    obtain ⟨enough, leads⟩ := fits
    have above : machine.frame.base + 2 ≤ machine.operands.height := by omega
    obtain ⟨left, right, rest, taken, rest_height⟩ := Operands.popPair?_of_le above
    simp only [Machine.perform, taken]
    split
    · exact balanced.jump leads.2 (by omega)
    · exact balanced.within leads.1 rfl rfl (by omega)
  | call callee arity =>
    -- The arguments stand above the base of the caller, so the base of the callee is no lower.
    obtain ⟨known, enough, leads⟩ := fits
    exact balanced.call ok known (by omega) leads (by omega) underflow
  | print =>
    obtain ⟨enough, leads⟩ := fits
    have above : machine.frame.base + 1 ≤ machine.operands.height := by omega
    obtain ⟨value, rest, taken, rest_height⟩ := Operands.pop?_of_lt above
    simp only [Machine.perform, taken]
    split
    · exact .inl ⟨_, rfl, balanced.goes rfl rfl rfl leads (by show rest.height = _; omega)⟩
    · next refused => exact .inr ⟨_, rfl, .sinkFull (Sink.isFull_of_write?_eq_none refused)⟩
  | return_ =>
    -- The value that is returned is all that the frame holds, so the operands are cut at its base.
    have one : height = 1 := fits
    have above : machine.frame.base + 1 ≤ machine.operands.height := by omega
    obtain ⟨value, rest, taken, rest_height⟩ := Operands.pop?_of_lt above
    simp only [Machine.perform, taken]
    have bare : rest.height = machine.frame.base := by omega
    rcases balanced.leave bare (some value) with left | ended
    · exact .inl left
    · exact .inr ⟨_, ended, .result _⟩
  | returnVoid =>
    have none_left : height = 0 := fits
    have bare : machine.operands.height = machine.frame.base := by omega
    rcases balanced.leave bare none with left | ended
    · exact .inl left
    · exact .inr ⟨_, ended, .result _⟩

/-- The next instruction of a machine in order fits. -/
theorem fits (balanced : machine.Balanced program) {instruction : Instruction Nat}
    (fetch : machine.instruction? = some instruction) :
    instruction.Fits program.arities machine.frame.routine machine.frame.next
      (machine.frame.routine.heightAt machine.frame.next) := by
  obtain ⟨function, _, routine_ok⟩ := balanced.sound.origin
  exact (Lowering.routine_spans routine_ok).fits (Nat.zero_le _) balanced.sound.inside fetch

/-- A step leads to a machine in order, or to an end that is no fault of the stack. -/
theorem step (balanced : machine.Balanced program)
    (ok : Assembly.ofProgram name program = .ok assembly) :
    Proceeds program machine (machine.step assembly) := by
  have fetch := Array.getElem?_eq_getElem balanced.sound.inside
  have performs := balanced.perform ok (balanced.fits fetch)
    (.stackUnderflow machine.frame.routine.name machine.frame.next)
  unfold Machine.step
  simp only [fetch]
  exact performs

/-- A whole run stays in order, and it stops only as a compiled program may. -/
theorem run (balanced : machine.Balanced program)
    (ok : Assembly.ofProgram name program = .ok assembly) (count : Nat) :
    (machine.run assembly count).1.Balanced program ∧
      ∀ outcome, (machine.run assembly count).2 = some outcome →
        (machine.run assembly count).1.Stops outcome := by
  induction count generalizing machine with
  | zero =>
    refine ⟨balanced, fun outcome ended => ?_⟩
    cases ended
  | succ count ih =>
    unfold Machine.run
    obtain ⟨next, steps, next_balanced⟩ | ⟨outcome, stopped, stops⟩ := balanced.step ok
    · rw [steps]
      exact ih next_balanced
    · rw [stopped]
      refine ⟨balanced, fun other ended => ?_⟩
      obtain rfl := Option.some.inj ended
      exact stops

end Balanced

/-- A run begins in order: its call has nothing on the stack and nobody waits for it. -/
theorem start_balanced (ok : Assembly.ofProgram name program = .ok assembly) {entry : String}
    {sink : Sink} {machine : Machine}
    (started : Machine.start assembly entry sink = .ok machine) : machine.Balanced program := by
  unfold Machine.start at started
  split at started
  · cases started
  · next routine reached =>
    split at started
    · obtain rfl := Except.ok.inj started
      obtain ⟨function, found, routine_ok⟩ := Assembly.function?_of_dispatch? ok reached
      obtain ⟨b, _, _, size_eq⟩ := Lowering.routine_placed routine_ok
      have pos := Lowering.defaultReturn_length_pos (Lowering.isEntry function)
      refine ⟨⟨⟨function, ?_, routine_ok⟩, ?_⟩, rfl, rfl⟩
      · exact List.mem_reverse.mp (List.mem_of_find?_eq_some found)
      · show 0 < routine.code.size
        omega
    · cases started

/-- The order that a compiled program keeps on the operand stack, as it shows between two steps. -/
structure StackSafe (program : Program) (assembly : Assembly) (machine : Machine) : Prop where
  origin : ∃ function ∈ program.functions,
    Lowering.routine program.arities function = .ok machine.frame.routine
  /-- Between two statements the call has nothing on the stack. -/
  boundary : ∀ function ∈ program.functions,
    Lowering.routine program.arities function = .ok machine.frame.routine →
    Lowering.Boundary program.arities (Lowering.isEntry function) 0
      (Lowering.paramSlots function.params) function.body machine.frame.next →
    machine.operands.height = machine.frame.base
  /-- A call reaches a function, which gets as many arguments as it declares. -/
  call : ∀ callee arity, machine.instruction? = some (.call callee arity) →
    ∃ routine args rest, assembly.dispatch? callee = some routine ∧ routine.arity = arity ∧
      machine.operands.popMany? machine.frame.base arity = some (args, rest) ∧
      args.length = routine.arity
  /-- Below the result there is nothing to cut off. -/
  result : machine.instruction? = some .return_ →
    ∃ value rest, machine.operands.pop? machine.frame.base = some (value, rest) ∧
      rest.height = machine.frame.base ∧ rest.truncate machine.frame.base = rest
  noResult : machine.instruction? = some .returnVoid →
    machine.operands.height = machine.frame.base ∧
      machine.operands.truncate machine.frame.base = machine.operands

/-- What the invariant says between two steps. -/
theorem Balanced.stackSafe {machine : Machine} (balanced : machine.Balanced program)
    (ok : Assembly.ofProgram name program = .ok assembly) :
    machine.StackSafe program assembly where
  origin := balanced.sound.origin
  boundary := by
    intro function _ routine_ok boundary
    have flat := boundary.routine_heightAt_eq routine_ok
    rw [balanced.height_eq, Frame.height, flat, Nat.add_zero]
  call := by
    intro callee arity fetch
    obtain ⟨known, enough, _⟩ := balanced.fits fetch
    rw [Program.arities_eq] at known
    obtain ⟨function, found, arity_eq⟩ := Option.map_eq_some_iff.mp known
    obtain ⟨routine, reached, routine_ok⟩ := Assembly.dispatch?_of_function? ok found
    have arity_eq : routine.arity = arity := (Lowering.routine_arity routine_ok).trans arity_eq
    have above : machine.frame.base + arity ≤ machine.operands.height := by
      rw [balanced.height_eq, Frame.height]
      omega
    obtain ⟨args, rest, taken, count_eq, _⟩ := Operands.popMany?_of_le above
    exact ⟨routine, args, rest, reached, arity_eq, taken, count_eq.trans arity_eq.symm⟩
  result := by
    intro fetch
    have one : machine.frame.routine.heightAt machine.frame.next = 1 := balanced.fits fetch
    have height_eq : machine.operands.height = machine.frame.base + 1 := by
      rw [balanced.height_eq, Frame.height, one]
    obtain ⟨value, rest, taken, rest_height⟩ :=
      Operands.pop?_of_lt (Nat.le_of_eq height_eq.symm)
    have left : rest.height = machine.frame.base := by omega
    exact ⟨value, rest, taken, left, Operands.truncate_of_height_eq left⟩
  noResult := by
    intro fetch
    have flat : machine.frame.routine.heightAt machine.frame.next = 0 := balanced.fits fetch
    have height_eq : machine.operands.height = machine.frame.base := by
      rw [balanced.height_eq, Frame.height, flat, Nat.add_zero]
    exact ⟨height_eq, Operands.truncate_of_height_eq height_eq⟩

end Machine

/-- A fault that shows a mistake in the code itself. -/
def Fault.IsInternal : Fault → Prop
  | .unknownFunction _ => True
  | .stackUnderflow _ _ => True
  | .invalidJump _ _ => True
  | _ => False

namespace Machine

/-- A compiled program stops on no fault of its code. -/
theorem not_isInternal_of_stops {machine : Machine} {fault : Fault}
    (stops : machine.Stops (.error fault)) : ¬ fault.IsInternal := by
  cases stops <;> exact id

/-- A run that cannot start lacks its entry function. -/
theorem start_isInternal (ok : Assembly.ofProgram name program = .ok assembly) {entry : String}
    {sink : Sink} {fault : Fault} (failed : Machine.start assembly entry sink = .error fault)
    (internal : fault.IsInternal) :
    fault = .unknownFunction entry ∧ program.function? entry = none := by
  unfold Machine.start at failed
  split at failed
  · next missing =>
    have related := Assembly.dispatch?_rel ok entry
    rw [missing] at related
    obtain rfl := Except.error.inj failed
    cases found : program.function? entry with
    | none => exact ⟨rfl, rfl⟩
    | some function =>
      rw [found] at related
      cases related
  · split at failed
    · cases failed
    · obtain rfl := Except.error.inj failed
      exact internal.elim

end Machine

/-- Compiled code never upsets its operand stack, whatever its entry, its sink and the number of
steps are. -/
theorem Assembly.run_stackSafe (ok : Assembly.ofProgram name program = .ok assembly)
    (entry : String) (sink : Sink) (count : Nat) :
    (∀ fault, (assembly.runEntry entry sink count).2 = some (.error fault) → fault.IsInternal →
      fault = .unknownFunction entry ∧ program.function? entry = none) ∧
    ∀ machine, Machine.start assembly entry sink = .ok machine →
      (machine.run assembly count).1.StackSafe program assembly := by
  constructor
  · intro fault ended internal
    unfold Assembly.runEntry at ended
    cases started : Machine.start assembly entry sink with
    | error first =>
      simp only [started, Option.some.injEq, Except.error.injEq] at ended
      subst ended
      -- A run that does not start has no such entry. This is the one internal fault that remains.
      exact Machine.start_isInternal ok started internal
    | ok machine =>
      simp only [started] at ended
      obtain ⟨own, stopped, concluded⟩ := Option.map_eq_some_iff.mp ended
      have stops := ((Machine.start_balanced ok started).run ok count).2 own stopped
      unfold Machine.conclude at concluded
      split at concluded
      · subst concluded
        exact absurd internal (Machine.not_isInternal_of_stops stops)
      · obtain rfl := Except.error.inj concluded
        exact internal.elim
  · intro machine started
    exact ((Machine.start_balanced ok started).run ok count).1.stackSafe ok

/-- Two functions of one name, the second of which is the one that counts. -/
def Program.shadowed : Program where
  functions := [
    ⟨"half", [], [], ⟨1, 1⟩⟩,
    ⟨"half", [⟨"n", ⟨2, 15⟩⟩],
      [.return_ ⟨2, 20⟩ (some (.binary ⟨2, 27⟩ (.arithmetic .div) (.var ⟨2, 27⟩ "n")
        (.int ⟨2, 31⟩ 2)))], ⟨2, 1⟩⟩,
    ⟨"main", [],
      [.assign ⟨3, 19⟩ "n" (.int ⟨3, 23⟩ 9),
        .loop ⟨3, 26⟩ (.binary ⟨3, 33⟩ (.comparison .gt) (.var ⟨3, 33⟩ "n") (.int ⟨3, 37⟩ 0))
          [.print ⟨3, 40⟩ (.assign ⟨3, 46⟩ "n" (.call ⟨3, 50⟩ "half" [.var ⟨3, 55⟩ "n"]))]],
      ⟨3, 1⟩⟩]

/-- A call of the second of two functions of one name. -/
theorem Assembly.run_stackSafe_shadowed :
    ∃ assembly machine, Assembly.ofProgram "Main" .shadowed = .ok assembly ∧
      Machine.start assembly "main" .unlimited = .ok machine ∧
      (machine.run assembly 6).1.instruction? = some (.call "half" 1) ∧
      (machine.run assembly 6).1.StackSafe .shadowed assembly :=
  ⟨_, _, rfl, rfl, by decide +kernel, (Assembly.run_stackSafe rfl "main" .unlimited 6).2 _ rfl⟩

end ImpStack
