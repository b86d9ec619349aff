import Mathlib.Data.List.Basic
import ImpStack.Proofs.Execution

/-!
Calls do not disturb each other, whatever code they run (`frames_isolated`). A step works on the
executing frame and on the operands above the base of that frame; the frames that wait, and what
lies below the base, stay as they are. A call that returns has therefore replaced its arguments by
one value and changed nothing else of its caller.

What a step can do is said once (`Moves`, with `moves_of_step`), and the rest is derived from that:
the order of the live calls is an invariant (`Framed`), and while a call from a given caller is
live, what that caller keeps is an invariant as well (`Inside`). The code need not be compiled; it
may underflow, jump out of itself or leave values behind.
-/
namespace ImpStack

namespace Operands

variable {operands rest : Operands} {base count : Nat}

/-- The `height` lowest operands, the topmost of them first. -/
def lowest (operands : Operands) (height : Nat) : List Value :=
  operands.values.drop (operands.height - height)

/-- The second stack has the same operands below `base` as the first. -/
def KeepsBelow (base : Nat) (before after : Operands) : Prop :=
  ∃ taken pushed kept, before.values = taken ++ kept ∧ after.values = pushed ++ kept ∧
    base ≤ kept.length

/-- What is taken was on top, and what is left reaches up to the base. -/
theorem pop?_eq_some {value : Value} (taken : operands.pop? base = some (value, rest)) :
    operands.values = value :: rest.values ∧ base ≤ rest.height := by
  unfold pop? at taken
  split at taken
  · next above =>
    obtain ⟨top, head, popped⟩ := Option.map_eq_some_iff.mp taken
    obtain ⟨rfl, rfl⟩ := Prod.mk.inj popped
    obtain ⟨values, values_eq⟩ := List.head?_eq_some_iff.mp head
    refine ⟨by simp [drop, values_eq], ?_⟩
    show base ≤ operands.height - 1
    omega
  · cases taken

theorem popPair?_eq_some {left right : Value}
    (taken : operands.popPair? base = some ((left, right), rest)) :
    operands.values = right :: left :: rest.values ∧ base ≤ rest.height := by
  unfold popPair? at taken
  split at taken
  · cases taken
  · next top middle takenRight =>
    obtain ⟨⟨lower, lowest⟩, takenLeft, popped⟩ := Option.map_eq_some_iff.mp taken
    obtain ⟨same, rfl⟩ := Prod.mk.inj popped
    obtain ⟨rfl, rfl⟩ := Prod.mk.inj same
    obtain ⟨right_eq, _⟩ := pop?_eq_some takenRight
    obtain ⟨left_eq, above⟩ := pop?_eq_some takenLeft
    exact ⟨by rw [right_eq, left_eq], above⟩

/-- The arguments come off the stack in their order. -/
theorem popMany?_eq_some {args : List Value} (above : base ≤ operands.height)
    (taken : operands.popMany? base count = some (args, rest)) :
    operands.values = args.reverse ++ rest.values ∧ args.length = count ∧ base ≤ rest.height := by
  induction count generalizing operands args with
  | zero =>
    obtain ⟨rfl, rfl⟩ := Prod.mk.inj (Option.some.inj taken)
    exact ⟨rfl, rfl, above⟩
  | succ count ih =>
    unfold popMany? at taken
    split at taken
    · cases taken
    · next last middle takenLast =>
      obtain ⟨⟨earlier, lowest⟩, takenMore, popped⟩ := Option.map_eq_some_iff.mp taken
      obtain ⟨rfl, rfl⟩ := Prod.mk.inj popped
      obtain ⟨last_eq, aboveMiddle⟩ := pop?_eq_some takenLast
      obtain ⟨more_eq, count_eq, aboveRest⟩ := ih aboveMiddle takenMore
      refine ⟨?_, ?_, aboveRest⟩
      · rw [last_eq, more_eq, List.reverse_append]
        rfl
      · rw [List.length_append, count_eq, List.length_singleton]

/-- The lowest operands do not depend on what lies above them. -/
theorem lowest_of_append {upper lower : List Value} (split : operands.values = upper ++ lower)
    (below : base ≤ lower.length) : operands.lowest base = lower.drop (lower.length - base) := by
  have height_eq : operands.height - base = upper.length + (lower.length - base) := by
    rw [operands.height_eq, split, List.length_append]
    omega
  rw [lowest, height_eq, split, List.drop_append]
  simp

theorem length_lowest (above : base ≤ operands.height) : (operands.lowest base).length = base := by
  rw [lowest, List.length_drop, ← operands.height_eq]
  omega

theorem exists_append_lowest (operands : Operands) (base : Nat) :
    ∃ upper, operands.values = upper ++ operands.lowest base :=
  ⟨_, (List.take_append_drop _ _).symm⟩

namespace KeepsBelow

variable {before after : Operands}

/-- Operands below the base stay. -/
theorem lowest_eq (keeps : KeepsBelow base before after) :
    after.lowest base = before.lowest base := by
  obtain ⟨taken, pushed, kept, before_eq, after_eq, below⟩ := keeps
  rw [lowest_of_append before_eq below, lowest_of_append after_eq below]

theorem le_height (keeps : KeepsBelow base before after) : base ≤ after.height := by
  obtain ⟨_, pushed, kept, _, after_eq, below⟩ := keeps
  rw [after.height_eq, after_eq, List.length_append]
  omega

/-- The lowest operands, as far as they lie below the base, are the lowest afterwards as well. -/
theorem suffix (keeps : KeepsBelow base before after) {lower : List Value}
    (lies : lower <:+ before.values) (below : lower.length ≤ base) : lower <:+ after.values := by
  obtain ⟨taken, pushed, kept, before_eq, after_eq, reaches⟩ := keeps
  have inside : lower <:+ kept := by
    refine List.suffix_of_suffix_length_le lies ⟨taken, before_eq.symm⟩ ?_
    exact Nat.le_trans below reaches
  exact inside.trans ⟨pushed, after_eq.symm⟩

end KeepsBelow

end Operands

/-- Where a jump leads. -/
def Instruction.target? : Instruction Nat → Option Nat
  | .jump target => some target
  | .jumpIfZero target => some target
  | .jumpIf _ target => some target
  | _ => none

/-- The same call, behind one more of its instructions. -/
structure Frame.Continues (before after : Frame) : Prop where
  routine_eq : after.routine = before.routine
  base_eq : after.base = before.base
  depth_eq : after.depth = before.depth
  next_eq : after.next = before.next + 1 ∨
    ∃ instruction, before.routine.code[before.next]? = some instruction ∧
      instruction.target? = some after.next

namespace Machine

/-- All live calls, the innermost first. -/
def live (machine : Machine) : List Frame := machine.frame :: machine.callers

/-- The call whose last instruction is next returns the value to its caller. -/
def Gives (machine : Machine) (value : Value) : Prop :=
  (machine.instruction? = some .returnVoid ∧ value = .int 0) ∨
    machine.instruction? = some .return_ ∧ machine.operands.values.head? = some value

variable {assembly : Assembly} {machine next : Machine}

/-! ### What a step does to the calls -/

/-- The machine calls `routine` on `args`, its topmost operands, and leaves `rest` below them. -/
structure Enters (assembly : Assembly) (machine next : Machine) (callee : String)
    (routine : Routine) (args rest : List Value) : Prop where
  reached : assembly.dispatch? callee = some routine
  shallow : machine.frame.depth < maxCallDepth
  operands_eq : machine.operands.values = args.reverse ++ rest
  above : machine.frame.base ≤ rest.length
  frame_eq : next.frame = .enter routine args rest.length (machine.frame.depth + 1)
  callers_eq :
    next.callers = { machine.frame with next := machine.frame.next + 1 } :: machine.callers
  left : next.operands.values = rest

/-- What a step does to the live calls and to their operands. -/
inductive Moves (assembly : Assembly) (machine next : Machine) : Prop where
  | goes (continues : machine.frame.Continues next.frame)
      (callers_eq : next.callers = machine.callers)
      (keeps : machine.operands.KeepsBelow machine.frame.base next.operands)
  | calls {callee : String} {routine : Routine} {args rest : List Value}
      (enters : Enters assembly machine next callee routine args rest)
  | returns {value : Value} (gives : machine.Gives value) (live_eq : machine.callers = next.live)
      (operands_eq : next.operands.values = value :: machine.operands.lowest machine.frame.base)

theorem moves_of_within {operands : Operands} {frame : Frame}
    (keeps : machine.operands.KeepsBelow machine.frame.base operands)
    (continues : machine.frame.Continues frame)
    (running : machine.within frame operands = .running next) : Moves assembly machine next := by
  obtain rfl := Step.running.inj running
  exact .goes continues rfl keeps

/-- Behind the instruction. -/
theorem continues_behind (frame : Frame) :
    frame.Continues { frame with next := frame.next + 1 } :=
  ⟨rfl, rfl, rfl, .inl rfl⟩

theorem continues_store (frame : Frame) (slot : Nat) (value : Value) :
    frame.Continues (Frame.store { frame with next := frame.next + 1 } slot value) :=
  ⟨rfl, rfl, rfl, .inl rfl⟩

theorem moves_of_jump {instruction : Instruction Nat} {operands : Operands} {target : Nat}
    (fetch : machine.instruction? = some instruction) (leads : instruction.target? = some target)
    (keeps : machine.operands.KeepsBelow machine.frame.base operands)
    (running : machine.jump { machine.frame with next := machine.frame.next + 1 } operands target =
      .running next) : Moves assembly machine next := by
  unfold jump at running
  split at running
  · refine moves_of_within keeps ?_ running
    exact ⟨rfl, rfl, rfl, .inr ⟨instruction, fetch, leads⟩⟩
  · cases running

/-- A return gives its value to the caller that waits. -/
theorem moves_of_leave {operands : Operands} {value : Option Value}
    (gives : machine.Gives (value.getD (.int 0)))
    (lowest_eq : operands.lowest machine.frame.base = machine.operands.lowest machine.frame.base)
    (running : machine.leave operands value = .running next) : Moves assembly machine next := by
  unfold leave at running
  split at running
  · cases running
  · next caller callers waiting =>
    obtain rfl := Step.running.inj running
    exact .returns gives waiting (congrArg (List.cons _) lowest_eq)

/-- A call that begins has taken its arguments off the stack. -/
theorem enters_of_call {underflow : Fault} {callee : String} {arity : Nat}
    (above : machine.frame.base ≤ machine.operands.height)
    (running : machine.call assembly { machine.frame with next := machine.frame.next + 1 }
      underflow callee arity = .running next) :
    ∃ routine args rest, args.length = arity ∧
      Enters assembly machine next callee routine args rest := by
  unfold call at running
  split at running
  · cases running
  · next routine reached =>
    split at running
    · cases running
    · next args rest taken =>
      obtain ⟨operands_eq, arity_eq, aboveRest⟩ := Operands.popMany?_eq_some above taken
      split at running
      · cases running
      · next shallow =>
        obtain rfl := Step.running.inj running
        refine ⟨routine, args, rest.values, arity_eq, reached, Nat.lt_of_not_le shallow,
          operands_eq, rest.height_eq ▸ aboveRest, ?_, rfl, rfl⟩
        exact congrArg (Frame.enter routine args · _) rest.height_eq

/-! What an instruction pops lies above the base. -/

theorem keepsBelow_push (above : machine.frame.base ≤ machine.operands.height) (value : Value) :
    machine.operands.KeepsBelow machine.frame.base (machine.operands.push value) :=
  ⟨[], [value], machine.operands.values, rfl, rfl, machine.operands.height_eq ▸ above⟩

theorem keepsBelow_of_pop {operands rest after : Operands} {base : Nat} {value : Value}
    (taken : operands.pop? base = some (value, rest)) (pushed : List Value)
    (after_eq : after.values = pushed ++ rest.values) : operands.KeepsBelow base after := by
  obtain ⟨values_eq, above⟩ := Operands.pop?_eq_some taken
  exact ⟨[value], pushed, rest.values, values_eq, after_eq, rest.height_eq ▸ above⟩

theorem keepsBelow_of_popPair {operands rest after : Operands} {base : Nat} {left right : Value}
    (taken : operands.popPair? base = some ((left, right), rest)) (pushed : List Value)
    (after_eq : after.values = pushed ++ rest.values) : operands.KeepsBelow base after := by
  obtain ⟨values_eq, above⟩ := Operands.popPair?_eq_some taken
  exact ⟨[right, left], pushed, rest.values, values_eq, after_eq, rest.height_eq ▸ above⟩

/-- Every instruction that does not stop the run does one of the three things. What each of them
takes from the stack lies above the base, since nothing else can be taken. -/
theorem moves_of_perform {underflow : Fault} {instruction : Instruction Nat}
    (above : machine.frame.base ≤ machine.operands.height)
    (fetch : machine.instruction? = some instruction)
    (running : machine.perform assembly { machine.frame with next := machine.frame.next + 1 }
      underflow instruction = .running next) : Moves assembly machine next := by
  have behind := continues_behind machine.frame
  -- Only calls and returns change the row of frames. Every other instruction takes its operands
  -- from above the base and goes on in the frame.
  cases instruction with
  | pushInt value | pushFloat value =>
    exact moves_of_within (keepsBelow_push above _) behind running
  | load slot =>
    simp only [perform] at running
    split at running
    · exact moves_of_within (keepsBelow_push above _) behind running
    · cases running
  | store slot =>
    simp only [perform] at running
    split at running
    · next taken =>
      have stored := continues_store machine.frame slot
      exact moves_of_within (keepsBelow_of_pop taken [] rfl) (stored _) running
    · cases running
  | dup =>
    simp only [perform] at running
    split at running
    · next taken => exact moves_of_within (keepsBelow_of_pop taken [_, _] rfl) behind running
    · cases running
  | pop =>
    simp only [perform] at running
    split at running
    · next taken => exact moves_of_within (keepsBelow_of_pop taken [] rfl) behind running
    · cases running
  | arithmetic op =>
    simp only [perform] at running
    split at running
    · next taken =>
      split at running
      · exact moves_of_within (keepsBelow_of_popPair taken [_] rfl) behind running
      · cases running
    · cases running
  | neg =>
    simp only [perform] at running
    split at running
    · next taken => exact moves_of_within (keepsBelow_of_pop taken [_] rfl) behind running
    · cases running
  | jump target =>
    rw [machine.operands.height_eq] at above
    exact moves_of_jump fetch rfl ⟨[], [], _, rfl, rfl, above⟩ running
  | jumpIfZero target =>
    simp only [perform] at running
    split at running
    · next taken =>
      have keeps := keepsBelow_of_pop taken [] rfl
      split at running
      · exact moves_of_jump fetch rfl keeps running
      · exact moves_of_within keeps behind running
    · cases running
  | jumpIf comparison target =>
    simp only [perform] at running
    split at running
    · next taken =>
      have keeps := keepsBelow_of_popPair taken [] rfl
      split at running
      · exact moves_of_jump fetch rfl keeps running
      · exact moves_of_within keeps behind running
    · cases running
  | call callee arity =>
    obtain ⟨routine, args, rest, _, enters⟩ := enters_of_call above running
    exact .calls enters
  | print =>
    simp only [perform] at running
    split at running
    · next taken =>
      split at running
      · obtain rfl := Step.running.inj running
        exact .goes behind rfl (keepsBelow_of_pop taken [] rfl)
      · cases running
    · cases running
  | return_ =>
    simp only [perform] at running
    split at running
    · next taken =>
      obtain ⟨values_eq, _⟩ := Operands.pop?_eq_some taken
      have keeps := keepsBelow_of_pop taken [] rfl
      exact moves_of_leave (.inr ⟨fetch, by rw [values_eq]; rfl⟩) keeps.lowest_eq running
    · cases running
  | returnVoid => exact moves_of_leave (.inl ⟨fetch, rfl⟩) rfl running

/-- A step does one of three things, whatever the code is. -/
theorem moves_of_step (above : machine.frame.base ≤ machine.operands.height)
    (running : machine.step assembly = .running next) : Moves assembly machine next := by
  unfold step at running
  dsimp only at running
  split at running
  · cases running
  · next instruction fetch => exact moves_of_perform above fetch running

namespace Moves

/-- No step changes an operand below the base of the frame that executes it. -/
theorem keepsBelow (moves : Moves assembly machine next)
    (above : machine.frame.base ≤ machine.operands.height) :
    machine.operands.KeepsBelow machine.frame.base next.operands := by
  cases moves with
  | goes _ _ keeps => exact keeps
  | calls enters => exact ⟨_, [], _, enters.operands_eq, enters.left, enters.above⟩
  | returns _ _ operands_eq =>
    obtain ⟨upper, split⟩ := machine.operands.exists_append_lowest machine.frame.base
    exact ⟨upper, [_], _, split, operands_eq, Nat.le_of_eq (Operands.length_lowest above).symm⟩

/-- Every frame that waits is still there, as it was. -/
theorem callers_suffix (moves : Moves assembly machine next) : machine.callers <:+ next.live := by
  cases moves with
  | goes _ callers_eq => exact callers_eq ▸ List.suffix_cons _ _
  | calls enters =>
    rw [live, enters.callers_eq]
    exact (List.suffix_cons _ _).trans (List.suffix_cons _ _)
  | returns _ live_eq => exact live_eq ▸ List.suffix_refl _

end Moves

/-! ### Nested calls -/

/-- Calls, the innermost first, on an operand stack of the given height: none begins below the one
around it, and each knows how many calls there are up to it. -/
def Nested : (height : Nat) → List Frame → Prop
  | _, [] => True
  | height, frame :: outer =>
    frame.base ≤ height ∧ frame.depth = outer.length + 1 ∧ Nested frame.base outer

namespace Nested

variable {height : Nat} {frame : Frame} {inner outer frames : List Frame}

/-- Calls in order stay so when operands are added. -/
theorem mono {higher : Nat} (nested : Nested height frames) (le : height ≤ higher) :
    Nested higher frames := by
  cases frames with
  | nil => trivial
  | cons frame outer => exact ⟨Nat.le_trans nested.1 le, nested.2⟩

theorem base_le (nested : Nested height frames) : ∀ frame ∈ frames, frame.base ≤ height := by
  induction frames generalizing height with
  | nil => simp
  | cons frame outer ih =>
    intro other member
    rcases List.mem_cons.mp member with rfl | waits
    · exact nested.1
    · exact Nat.le_trans (ih nested.2.2 other waits) nested.1

/-- No call begins below one around it. -/
theorem bases_ordered (nested : Nested height frames) :
    frames.Pairwise fun inner outer => outer.base ≤ inner.base := by
  induction frames generalizing height with
  | nil => exact .nil
  | cons frame outer ih => exact .cons nested.2.2.base_le (ih nested.2.2)

end Nested

/-- What holds of every machine that a run comes to. -/
structure Framed (machine : Machine) : Prop where
  nested : Nested machine.operands.height machine.live
  live_le : machine.live.length ≤ maxCallDepth

namespace Framed

/-- The operands of the executing call lie above its base. -/
theorem above (framed : machine.Framed) : machine.frame.base ≤ machine.operands.height :=
  framed.nested.1

/-- A run begins with one call on an empty stack. -/
theorem start {entry : String} {sink : Sink}
    (started : Machine.start assembly entry sink = .ok machine) : machine.Framed := by
  unfold Machine.start at started
  split at started
  · cases started
  · split at started
    · obtain rfl := Except.ok.inj started
      have one : 1 ≤ maxCallDepth := by decide
      exact ⟨⟨Nat.le_refl 0, rfl, trivial⟩, one⟩
    · cases started

theorem moves (framed : machine.Framed) (running : machine.step assembly = .running next) :
    Moves assembly machine next :=
  moves_of_step framed.above running

/-- A step at a call instruction begins that call. -/
theorem enters (framed : machine.Framed) {callee : String} {arity : Nat}
    (fetch : machine.instruction? = some (.call callee arity))
    (running : machine.step assembly = .running next) :
    ∃ routine args rest, args.length = arity ∧
      Enters assembly machine next callee routine args rest := by
  unfold Machine.step at running
  dsimp only at running
  split at running
  · cases running
  · next instruction found =>
    obtain rfl := Option.some.inj (fetch.symm.trans found)
    exact enters_of_call framed.above running

/-- Each of the three moves keeps the order of the live calls: going on changes none, a call comes
on top, a return takes the topmost away. -/
theorem step (framed : machine.Framed) (running : machine.step assembly = .running next) :
    next.Framed := by
  have moves := framed.moves running
  have height_le := (moves.keepsBelow framed.above).le_height
  obtain ⟨_, depth_eq, nested⟩ := framed.nested
  have live_le := framed.live_le
  cases moves with
  | goes continues callers_eq _ =>
    rw [← continues.base_eq] at height_le nested
    rw [← continues.depth_eq] at depth_eq
    constructor
    · exact ⟨height_le, by rw [callers_eq, depth_eq], callers_eq ▸ nested⟩
    · rwa [live, callers_eq]
  | calls enters =>
    have shallow := enters.shallow
    have height_eq := next.operands.height_eq
    rw [enters.left] at height_eq
    constructor
    · rw [live, enters.callers_eq, enters.frame_eq, height_eq]
      exact ⟨Nat.le_refl _, congrArg (· + 1) depth_eq, enters.above, depth_eq, nested⟩
    · rw [live, enters.callers_eq, List.length_cons, List.length_cons]
      omega
  | returns _ live_eq _ =>
    rw [live_eq] at nested
    constructor
    · exact nested.mono height_le
    · rw [live, List.length_cons, live_eq] at live_le
      omega

/-- From one step to a whole run. -/
theorem run (framed : machine.Framed) (assembly : Assembly) (count : Nat) :
    (machine.run assembly count).1.Framed := by
  induction count generalizing machine with
  | zero => exact framed
  | succ count ih =>
    unfold Machine.run
    split
    · next running => exact ih (framed.step running)
    · exact framed

end Framed

/-- The calls of a machine are in order: there is at least one and there are not too many, and none
begins below the one around it or above the operands. -/
structure WellFramed (machine : Machine) : Prop where
  live_pos : 0 < machine.live.length
  live_le : machine.live.length ≤ maxCallDepth
  bases_ordered : machine.live.Pairwise fun inner outer => outer.base ≤ inner.base
  bases_le : ∀ frame ∈ machine.live, frame.base ≤ machine.operands.height

theorem Framed.wellFramed (framed : machine.Framed) : machine.WellFramed where
  live_pos := Nat.succ_pos _
  live_le := framed.live_le
  bases_ordered := framed.nested.bases_ordered
  bases_le := framed.nested.base_le

/-! ### Calls that return -/

theorem run_of_step (steps : machine.step assembly = .running next) (count : Nat) :
    machine.run assembly (count + 1) = next.run assembly count := by
  rw [run, steps]

/-- The machine is inside a call from `outer`, below whose operands `kept` lies. -/
structure Inside (outer : List Frame) (kept : List Value) (machine : Machine) : Prop where
  within : ∃ inner callee, machine.live = inner ++ callee :: outer ∧ callee.base = kept.length
  kept : kept <:+ machine.operands.values

namespace Inside

variable {outer : List Frame} {kept : List Value}

/-- Inside the call there are more live calls than outside. -/
theorem length_lt (inside : machine.Inside outer kept) :
    outer.length < machine.live.length := by
  obtain ⟨inner, callee, live_eq, _⟩ := inside.within
  rw [live_eq, List.length_append, List.length_cons]
  omega

/-- Nothing that is kept lies above the base of the executing frame. -/
theorem length_le (inside : machine.Inside outer kept) (framed : machine.Framed) :
    kept.length ≤ machine.frame.base := by
  obtain ⟨inner, callee, live_eq, base_eq⟩ := inside.within
  have ordered := framed.nested.bases_ordered
  rw [← base_eq]
  cases inner with
  | nil => exact Nat.le_of_eq (congrArg Frame.base (List.cons.inj live_eq).1.symm)
  | cons frame inner =>
    obtain ⟨rfl, callers_eq⟩ := List.cons.inj live_eq
    exact (List.pairwise_cons.mp ordered).1 callee (by simp [callers_eq])

/-- The call goes on, or it ends and leaves one value. -/
theorem step (inside : machine.Inside outer kept) (framed : machine.Framed)
    (running : machine.step assembly = .running next) :
    next.Inside outer kept ∨
      next.live = outer ∧ ∃ value, machine.Gives value ∧ next.operands.values = value :: kept := by
  have moves := framed.moves running
  have below := inside.length_le framed
  -- what is kept lies below the base, where no move reaches
  have still := (moves.keepsBelow framed.above).suffix inside.kept below
  obtain ⟨inner, callee, live_eq, base_eq⟩ := inside.within
  cases moves with
  | goes continues callers_eq _ =>
    refine .inl ⟨?_, still⟩
    rw [live, callers_eq]
    cases inner with
    | nil =>
      obtain ⟨rfl, rfl⟩ := List.cons.inj live_eq
      exact ⟨[], _, rfl, continues.base_eq.trans base_eq⟩
    | cons frame inner =>
      obtain ⟨rfl, callers_eq⟩ := List.cons.inj live_eq
      exact ⟨next.frame :: inner, callee, congrArg _ callers_eq, base_eq⟩
  | calls enters =>
    refine .inl ⟨?_, still⟩
    rw [live, enters.callers_eq]
    cases inner with
    | nil =>
      obtain ⟨rfl, rfl⟩ := List.cons.inj live_eq
      exact ⟨[next.frame], _, rfl, base_eq⟩
    | cons frame inner =>
      obtain ⟨rfl, callers_eq⟩ := List.cons.inj live_eq
      exact ⟨next.frame :: _ :: inner, callee, by rw [callers_eq]; rfl, base_eq⟩
  | returns gives callers_eq operands_eq =>
    -- Without frames further in, it is the frame of the callee that returns, and what was kept is
    -- all that lies below its value.
    cases inner with
    | nil =>
      obtain ⟨rfl, rfl⟩ := List.cons.inj live_eq
      refine .inr ⟨callers_eq.symm, _, gives, ?_⟩
      obtain ⟨upper, split⟩ := inside.kept
      rw [operands_eq, base_eq, Operands.lowest_of_append split.symm (Nat.le_refl _),
        Nat.sub_self, List.drop_zero]
    | cons frame inner =>
      obtain ⟨rfl, inner_eq⟩ := List.cons.inj live_eq
      exact .inl ⟨⟨inner, callee, callers_eq ▸ inner_eq, base_eq⟩, still⟩

/-- The first machine of a run that is outside of the call: its caller, with one value more. -/
theorem run {count : Nat} {back : Machine} (inside : machine.Inside outer kept)
    (framed : machine.Framed) (runs : machine.run assembly count = (back, none))
    (level : back.live.length = outer.length)
    (deeper : ∀ earlier < count, outer.length < (machine.run assembly earlier).1.live.length) :
    back.live = outer ∧ ∃ value, (machine.run assembly (count - 1)).1.Gives value ∧
      back.operands.values = value :: kept := by
  induction count generalizing machine with
  | zero =>
    obtain ⟨rfl, _⟩ := Prod.mk.inj runs
    exact absurd level (Nat.ne_of_gt inside.length_lt)
  | succ count ih =>
    cases steps : machine.step assembly with
    | stopped outcome =>
      rw [Machine.run, steps] at runs
      cases runs
    | running next =>
      have later := run_of_step steps
      rw [later] at runs
      rcases inside.step framed steps with still | ⟨left, value, gives, operands_eq⟩
      · have returned := ih still (framed.step steps) runs fun earlier lt => by
          simpa only [later] using deeper (earlier + 1) (Nat.succ_lt_succ lt)
        cases count with
        | zero =>
          obtain ⟨rfl, _⟩ := Prod.mk.inj runs
          exact absurd level (Nat.ne_of_gt still.length_lt)
        | succ count => simpa only [Nat.add_sub_cancel, later] using returned
      · cases count with
        | zero =>
          obtain ⟨rfl, _⟩ := Prod.mk.inj runs
          exact ⟨left, value, gives, operands_eq⟩
        | succ count =>
          -- The callee has returned already, but up to the last step the row of frames is longer.
          have outside := deeper 1 (by omega)
          rw [later, Machine.run, left] at outside
          exact absurd outside (Nat.lt_irrefl _)

end Inside

/-- The call that the machine makes with its next step has returned after `count` steps: `back` is
the first machine in which no more calls are live than before. -/
structure ReturnsAfter (assembly : Assembly) (machine : Machine) (count : Nat) (back : Machine) :
    Prop where
  positive : 0 < count
  runs : machine.run assembly count = (back, none)
  level : back.live.length = machine.live.length
  deeper : ∀ earlier < count, 0 < earlier →
    machine.live.length < (machine.run assembly earlier).1.live.length

/-- The caller goes on behind its call. All that has changed is that the arguments, `arity` of them,
have been replaced by the value that `last` gives. -/
structure Resumes (machine : Machine) (arity : Nat) (last back : Machine) : Prop where
  frame_eq : back.frame = { machine.frame with next := machine.frame.next + 1 }
  callers_eq : back.callers = machine.callers
  operands : ∃ args rest value, machine.operands.values = args ++ rest ∧ args.length = arity ∧
    last.Gives value ∧ back.operands.values = value :: rest

/-- A call that has returned after `count` steps was live through all of them, so `Inside.run`
applies from its first step on. -/
theorem Framed.resumes (framed : machine.Framed) {callee : String} {arity count : Nat}
    {back : Machine} (fetch : machine.instruction? = some (.call callee arity))
    (returns : machine.ReturnsAfter assembly count back) :
    machine.Resumes arity (machine.run assembly (count - 1)).1 back := by
  obtain ⟨positive, runs, level, deeper⟩ := returns
  cases count with
  | zero => exact absurd positive (Nat.lt_irrefl 0)
  | succ count =>
    cases steps : machine.step assembly with
    | stopped outcome =>
      rw [Machine.run, steps] at runs
      cases runs
    | running next =>
      have later := run_of_step steps
      obtain ⟨routine, args, rest, arity_eq, enters⟩ := framed.enters fetch steps
      -- The call itself is the first step. Behind it the machine is inside the callee, above what
      -- the caller keeps.
      have inside : next.Inside ({ machine.frame with next := machine.frame.next + 1 } ::
          machine.callers) rest := by
        refine ⟨⟨[], next.frame, ?_, by rw [enters.frame_eq]; rfl⟩, ?_⟩
        · rw [live, enters.callers_eq]
          rfl
        · exact enters.left ▸ List.suffix_refl _
      rw [later] at runs
      obtain ⟨left, value, gives, operands_eq⟩ := inside.run (framed.step steps) runs level
        fun earlier lt => later earlier ▸ deeper (earlier + 1) (by omega) (by omega)
      obtain ⟨frame_eq, callers_eq⟩ := List.cons.inj left
      refine ⟨frame_eq, callers_eq, args.reverse, rest, value, enters.operands_eq, ?_, ?_,
        operands_eq⟩
      · rw [List.length_reverse, arity_eq]
      · cases count with
        | zero =>
          obtain ⟨rfl, _⟩ := Prod.mk.inj runs
          exact absurd level (Nat.ne_of_gt inside.length_lt)
        | succ count => simpa only [Nat.add_sub_cancel, later] using gives

/-- Whatever code a machine runs, it keeps its calls apart: their number and their bases are in
order, a step leaves the operands below the base of its frame and all frames that wait as they are,
and a call that returns has replaced its arguments by one value. -/
theorem frames_isolated {entry : String} {sink : Sink}
    (started : Machine.start assembly entry sink = .ok machine) (count : Nat) :
    (machine.run assembly count).1.WellFramed ∧
      (∀ next, (machine.run assembly count).1.step assembly = .running next →
        next.operands.lowest (machine.run assembly count).1.frame.base =
            (machine.run assembly count).1.operands.lowest
              (machine.run assembly count).1.frame.base ∧
          (machine.run assembly count).1.callers <:+ next.live) ∧
      ∀ callee arity more back,
        (machine.run assembly count).1.instruction? = some (.call callee arity) →
        (machine.run assembly count).1.ReturnsAfter assembly more back →
        (machine.run assembly count).1.Resumes arity
          ((machine.run assembly count).1.run assembly (more - 1)).1 back := by
  have framed := (Framed.start started).run assembly count
  refine ⟨framed.wellFramed, fun next running => ?_, fun callee arity more back fetch returns => ?_⟩
  · have moves := framed.moves running
    exact ⟨(moves.keepsBelow framed.above).lowest_eq, moves.callers_suffix⟩
  · exact framed.resumes fetch returns

end Machine

/-- Code as no program has it: `outer` is called with arguments that it does not declare, calls a
function on one operand of two, and leaves operands behind where it returns nothing. -/
def Assembly.untidy : Assembly where
  name := "Main"
  routines := [
    ⟨"main", 0, 0, true, #[.pushInt 7, .pushInt 1, .pushInt 2, .call "outer" 2, .print]⟩,
    ⟨"outer", 0, 0, false, #[.load 0, .load 1, .call "inner" 1, .pushInt 9, .returnVoid]⟩,
    ⟨"inner", 3, 0, false, #[.pushInt 5, .store 0, .pushInt 6, .pushInt 8, .return_]⟩]

namespace Machine

/-- The untidy code just before `outer` is called. -/
def untidyCaller : Machine where
  frame := ⟨⟨"main", 0, 0, true, #[.pushInt 7, .pushInt 1, .pushInt 2, .call "outer" 2, .print]⟩,
    3, .ofArgs [] 0, 0, 1⟩
  callers := []
  operands := .ofList [.int 2, .int 1, .int 7]
  sink := .unlimited

/-- Code that leaves values behind and returns from the middle of its operands. -/
theorem frames_isolated_untidy :
    ∃ machine back, Machine.start .untidy "main" .unlimited = .ok machine ∧
      (machine.run .untidy 3).1 = untidyCaller ∧
      untidyCaller.instruction? = some (.call "outer" 2) ∧
      untidyCaller.ReturnsAfter .untidy 11 back ∧
      untidyCaller.Resumes 2 (untidyCaller.run .untidy 10).1 back := by
  have returns : untidyCaller.ReturnsAfter .untidy 11 (untidyCaller.run .untidy 11).1 :=
    ⟨by decide, rfl, rfl, by decide +kernel⟩
  have started : Machine.start .untidy "main" .unlimited = .ok _ := rfl
  have isolated := (frames_isolated started 3).2.2 "outer" 2 11 _ rfl returns
  exact ⟨_, _, started, rfl, rfl, returns, isolated⟩

end Machine

end ImpStack
