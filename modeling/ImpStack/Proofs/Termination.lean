import ImpStack.Proofs.BlockEquivalence
import ImpStack.Proofs.ForwardCode
import ImpStack.Proofs.Generation

/-!
Code that only goes forward comes to an end. With every step a call either gets nearer to the end of
its code or makes a call one level deeper, and the levels are limited. The measure (`Machine.work`)
counts each instruction that a call has left as all that a call one level deeper could do; every
step lowers it (`Runs.work_lt`), so a run has no more steps than the measure at its start, and that
depends on the size of the code alone (`Assembly.runEntry_ends`). A program without loops has such
code, even where its functions call each other without end (`Generator.run_ends_of_loopFree`).
-/
namespace ImpStack

/-- The number of instructions in all routines. -/
def Assembly.size (assembly : Assembly) : Nat :=
  assembly.routines.foldr (fun routine total => routine.code.size + total) 0

/-- As many steps as a call may still take where routines are shorter than `width`: each of its
instructions counts for all of a call one level deeper. -/
def Frame.work (width : Nat) (frame : Frame) : Nat :=
  (frame.routine.code.size - frame.next) * Nat.pow width (maxCallDepth - frame.depth)

/-- The work of several calls together. -/
def Frame.workOfAll (width : Nat) : List Frame → Nat
  | [] => 0
  | frame :: outer => frame.work width + workOfAll width outer

/-- The work of all live calls. -/
def Machine.work (width : Nat) (machine : Machine) : Nat := Frame.workOfAll width machine.live

variable {assembly : Assembly} {width : Nat}

/-- No routine is longer than all of them together. -/
theorem Assembly.size_code_le {routine : Routine} (member : routine ∈ assembly.routines) :
    routine.code.size ≤ assembly.size := by
  unfold size
  generalize assembly.routines = routines at member
  induction routines with
  | nil => cases member
  | cons first rest ih =>
    rw [List.foldr_cons]
    rcases List.mem_cons.mp member with rfl | later
    · exact Nat.le_add_right _ _
    · exact Nat.le_trans (ih later) (Nat.le_add_left _ _)

theorem Assembly.mem_of_dispatch? {callee : String} {routine : Routine}
    (reached : assembly.dispatch? callee = some routine) : routine ∈ assembly.routines :=
  List.mem_reverse.mp (List.mem_of_find?_eq_some reached)

namespace Frame

variable {frame before after : Frame}

/-- Going on in forward code leaves less to do. -/
theorem work_lt_of_continues (continues : before.Continues after)
    (forward : Forward 0 before.routine.code.toList)
    (inside : before.next < before.routine.code.size) (positive : 0 < width) :
    after.work width < before.work width := by
  have later : before.next < after.next := by
    rcases continues.next_eq with behind | ⟨instruction, fetch, leads⟩
    · omega
    · rw [← Array.getElem?_toList] at fetch
      have further := forward.lt_target fetch leads
      omega
  unfold work
  rw [continues.routine_eq, continues.depth_eq]
  exact Nat.mul_lt_mul_of_pos_right (by omega) (Nat.pow_pos positive)

/-- A new call counts for less than the instruction that makes it. -/
theorem work_enter_lt {routine : Routine} (short : routine.code.size < width) {depth : Nat}
    (shallow : depth < maxCallDepth) (args : List Value) (base : Nat) :
    (enter routine args base (depth + 1)).work width < Nat.pow width (maxCallDepth - depth) := by
  obtain ⟨levels, levels_eq⟩ : ∃ levels, maxCallDepth - depth = levels + 1 :=
    ⟨maxCallDepth - depth - 1, by omega⟩
  have deeper_eq : maxCallDepth - (depth + 1) = levels := by omega
  have pow_eq : Nat.pow width (levels + 1) = width * Nat.pow width levels := Nat.pow_succ'
  simp only [work, enter, Nat.sub_zero, levels_eq, deeper_eq, pow_eq]
  exact Nat.mul_lt_mul_of_pos_right short (Nat.pow_pos (Nat.zero_lt_of_lt short))

/-- An instruction counts for a whole call one level deeper. -/
theorem work_behind (inside : frame.next < frame.routine.code.size) :
    Nat.pow width (maxCallDepth - frame.depth) +
      ({ frame with next := frame.next + 1 } : Frame).work width = frame.work width := by
  have left_eq : frame.routine.code.size - frame.next =
      frame.routine.code.size - (frame.next + 1) + 1 := by omega
  simp only [work, left_eq, Nat.succ_mul]
  omega

end Frame

namespace Machine

variable {machine next : Machine}

theorem work_eq (machine : Machine) : machine.work width =
    machine.frame.work width + Frame.workOfAll width machine.callers := rfl

theorem inside_of_step (running : machine.step assembly = .running next) :
    machine.frame.next < machine.frame.routine.code.size := by
  unfold step at running
  dsimp only at running
  split at running
  · cases running
  · next fetch => exact Placed.lt_size fetch

/-- All live calls run routines of the assembly, and they are in order. -/
structure Runs (assembly : Assembly) (machine : Machine) : Prop where
  framed : machine.Framed
  known : ∀ frame ∈ machine.live, frame.routine ∈ assembly.routines

namespace Runs

/-- A step runs code of the same assembly and keeps the live calls in order. -/
theorem step (runs : machine.Runs assembly) (running : machine.step assembly = .running next) :
    next.Runs assembly where
  framed := runs.framed.step running
  known := by
    have frame_known := runs.known machine.frame List.mem_cons_self
    have callers_known := fun frame waits => runs.known frame (List.mem_cons_of_mem _ waits)
    cases runs.framed.moves running with
    | goes continues callers_eq _ =>
      rw [live, callers_eq]
      exact List.forall_mem_cons.mpr ⟨continues.routine_eq ▸ frame_known, callers_known⟩
    | calls enters =>
      rw [live, enters.callers_eq, enters.frame_eq]
      refine List.forall_mem_cons.mpr ⟨?_, List.forall_mem_cons.mpr ⟨frame_known, callers_known⟩⟩
      exact Assembly.mem_of_dispatch? enters.reached
    | returns _ live_eq _ => exact live_eq ▸ callers_known

/-- Every step lowers the work: going on by the code that is passed, a call because the instruction
that makes it counts for more, a return because a call is gone. -/
theorem work_lt (runs : machine.Runs assembly)
    (forward : ∀ routine ∈ assembly.routines, Forward 0 routine.code.toList)
    (running : machine.step assembly = .running next) :
    next.work (assembly.size + 1) < machine.work (assembly.size + 1) := by
  have inside := inside_of_step running
  have frame_known := runs.known machine.frame List.mem_cons_self
  rw [machine.work_eq]
  cases runs.framed.moves running with
  | goes continues callers_eq _ =>
    rw [next.work_eq, callers_eq]
    have less := Frame.work_lt_of_continues continues (forward _ frame_known) inside
      (Nat.succ_pos assembly.size)
    exact Nat.add_lt_add_right less _
  | @calls _ _ args rest enters =>
    rw [next.work_eq, enters.callers_eq, enters.frame_eq, Frame.workOfAll, ← Nat.add_assoc]
    have known := Assembly.mem_of_dispatch? enters.reached
    -- The code of the callee is a digit of the next lower rank, less than the instruction that is
    -- charged for it.
    have short := Nat.lt_succ_of_le (Assembly.size_code_le known)
    have less := Frame.work_enter_lt short enters.shallow args rest.length
    refine Nat.add_lt_add_right ?_ _
    rw [← Frame.work_behind inside]
    exact Nat.add_lt_add_right less _
  | returns _ live_eq _ =>
    rw [live_eq, ← work]
    refine Nat.lt_add_of_pos_left ?_
    exact Nat.mul_pos (Nat.sub_pos_of_lt inside) (Nat.pow_pos (Nat.succ_pos _))

/-- From one step to a whole run. -/
theorem ends (runs : machine.Runs assembly)
    (forward : ∀ routine ∈ assembly.routines, Forward 0 routine.code.toList) {count : Nat}
    (enough : machine.work (assembly.size + 1) < count) :
    ∃ outcome, (machine.run assembly count).2 = some outcome := by
  induction count generalizing machine with
  | zero => cases enough
  | succ count ih =>
    cases steps : machine.step assembly with
    | stopped outcome => exact ⟨outcome, by rw [run, steps]⟩
    | running next =>
      have less := runs.work_lt forward steps
      rw [run_of_step steps]
      exact ih (runs.step steps) (by omega)

end Runs

/-- A run begins in order, with a bounded amount of work. -/
theorem start_runs {entry : String} {sink : Sink}
    (started : Machine.start assembly entry sink = .ok machine) :
    machine.Runs assembly ∧
      machine.work (assembly.size + 1) < Nat.pow (assembly.size + 1) maxCallDepth := by
  have framed := Framed.start started
  unfold Machine.start at started
  split at started
  · cases started
  · next routine reached =>
    split at started
    · obtain rfl := Except.ok.inj started
      have known := Assembly.mem_of_dispatch? reached
      refine ⟨⟨framed, List.forall_mem_singleton.mpr known⟩, ?_⟩
      have short := Nat.lt_succ_of_le (Assembly.size_code_le known)
      have shallow : 0 < maxCallDepth := by decide
      rw [work_eq, Frame.workOfAll, Nat.add_zero]
      exact Frame.work_enter_lt short shallow [] 0
    · cases started

end Machine

/-- Code that only goes forward ends within a number of steps that depends on its size alone. -/
theorem Assembly.runEntry_ends
    (forward : ∀ routine ∈ assembly.routines, Forward 0 routine.code.toList) (entry : String)
    (sink : Sink) {count : Nat} (enough : Nat.pow (assembly.size + 1) maxCallDepth ≤ count) :
    ∃ outcome, (assembly.runEntry entry sink count).2 = some outcome := by
  unfold runEntry
  split
  · exact ⟨_, rfl⟩
  · next machine started =>
    obtain ⟨runs, less⟩ := Machine.start_runs started
    obtain ⟨outcome, ended⟩ := runs.ends forward (Nat.lt_of_lt_of_le less enough)
    exact ⟨_, Option.map_eq_some_iff.mpr ⟨outcome, ended, rfl⟩⟩

/-- Every run of a program without loops ends, however its functions call each other. -/
theorem Generator.run_ends_of_loopFree {generator : Generator} {program : Program}
    (loopFree : program.hasLoop = false)
    (generated : (generator.generate program).1 = .ok assembly) (entry : String) (sink : Sink) :
    ∃ count outcome, (assembly.runEntry entry sink count).2 = some outcome := by
  rw [generate_eq] at generated
  have forward := Assembly.forward_of_loopFree (mapError_eq_ok generated) loopFree
  exact ⟨_, Assembly.runEntry_ends forward entry sink (Nat.le_refl _)⟩

/-- Functions that call each other without end. -/
def Program.endless : Program where
  functions := [
    ⟨"ping", [⟨"n", ⟨1, 15⟩⟩],
      [.print ⟨1, 20⟩ (.call ⟨1, 26⟩ "pong" [.var ⟨1, 31⟩ "n"])], ⟨1, 1⟩⟩,
    ⟨"pong", [⟨"n", ⟨2, 15⟩⟩],
      [.branch ⟨2, 20⟩ (.binary ⟨2, 24⟩ (.comparison .lt) (.var ⟨2, 24⟩ "n") (.int ⟨2, 28⟩ 0))
        [.return_ ⟨2, 32⟩ none] none,
        .return_ ⟨2, 40⟩ (some (.call ⟨2, 47⟩ "ping" [.binary ⟨2, 52⟩ (.arithmetic .add)
          (.var ⟨2, 52⟩ "n") (.int ⟨2, 56⟩ 1)]))], ⟨2, 1⟩⟩,
    ⟨"main", [], [.discard ⟨3, 19⟩ (.call ⟨3, 19⟩ "ping" [.int ⟨3, 24⟩ 0])], ⟨3, 1⟩⟩]

/-- Mutual recursion without a way out stops at the limit of calls. -/
theorem Generator.run_ends_of_loopFree_endless :
    ∃ assembly, ((Generator.ofName "Main").generate .endless).1 = .ok assembly ∧
      ∃ count outcome, (assembly.runEntry "main" .unlimited count).2 = some outcome := by
  have lowered : Assembly.ofProgram "Main" .endless = .ok _ := rfl
  have generated := ((Generator.ofName "Main").generate_eq .endless).trans
    (congrArg (Except.mapError _) lowered)
  exact ⟨_, generated, run_ends_of_loopFree rfl generated "main" .unlimited⟩

end ImpStack
