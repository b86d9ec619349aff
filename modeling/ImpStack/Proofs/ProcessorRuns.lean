import ImpStack.Machine.Processor
import ImpStack.Proofs.ChannelLines

/-!
A run of a processor shows what a machine shows that starts anew, whatever the processor has been
used for: the machine prints to a sink with as much room as the channel has left. The two are
related in the middle of a step (`Midway`) and between two steps (`InStep`); each operation of the
processor reflects what the machine does with an `Option` in one go (`Takes`, `Reflects`), each step
does (`step_reflects`), and so does a whole run (`execute_inStep`). What a fault leaves behind is
not described further, since the next run resets all of it but the output (`run_eq`). The main
result is `run_after_history`.
-/
namespace ImpStack

/-- Every call knows the number of live calls up to it. -/
def Numbered : List Frame → Prop
  | [] => True
  | frame :: callers => frame.depth = callers.length + 1 ∧ Numbered callers

namespace Processor

variable {start : Channel} {processor : Processor} {machine : Machine} {frame : Frame}
  {operands : Operands}

/-- The processor is in the middle of a step of the machine: its executing call is `frame`, its
operands are `operands`, and all else is as in the machine. -/
structure Midway (start : Channel) (machine : Machine) (frame : Frame) (operands : Operands)
    (processor : Processor) : Prop where
  frames_eq : processor.frames = frame :: machine.callers
  numbered : Numbered processor.frames
  operands_eq : processor.operands = operands
  shows : start.Shows processor.channel machine.sink

/-- The processor is in the state of the machine. -/
def InStep (start : Channel) (machine : Machine) (processor : Processor) : Prop :=
  Midway start machine machine.frame machine.operands processor

/-- Both work above the same base. -/
theorem Midway.base_eq (midway : Midway start machine frame operands processor) :
    processor.base = frame.base := by
  rw [base, midway.frames_eq]

/-- Both report an underflow at the same offset. -/
theorem Midway.underflow_eq (midway : Midway start machine frame operands processor) :
    processor.underflow = .stackUnderflow frame.routine.name (frame.next - 1) := by
  rw [underflow, midway.frames_eq]

/-- The operands are replaced on both sides. -/
theorem Midway.withOperands (midway : Midway start machine frame operands processor)
    (other : Operands) :
    Midway start machine frame other { processor with operands := other } where
  frames_eq := midway.frames_eq
  numbered := midway.numbered
  operands_eq := rfl
  shows := midway.shows

/-- The executing call is replaced by one of the same depth. -/
theorem Midway.withFrame (midway : Midway start machine frame operands processor) (other : Frame)
    (same : other.depth = frame.depth) :
    Midway start machine other operands
      { processor with frames := other :: processor.frames.tail } where
  frames_eq := by
    show other :: processor.frames.tail = _
    rw [midway.frames_eq, List.tail_cons]
  numbered := by
    have numbered := midway.numbered
    rw [midway.frames_eq] at numbered
    show Numbered (other :: processor.frames.tail)
    rw [midway.frames_eq, List.tail_cons]
    exact ⟨same.trans numbered.1, numbered.2⟩
  operands_eq := midway.operands_eq
  shows := midway.shows

end Processor

open Processor

/-- What an instruction does to a processor reflects what it does to a machine that has shown `sink`
so far. -/
inductive Reflects (start : Channel) (sink : Sink) :
    Except Fault (Option (Option Value)) × Processor → Step → Prop
  | running {processor : Processor} {machine : Machine}
      (inStep : InStep start machine processor) :
      Reflects start sink (.ok none, processor) (.running machine)
  | returned {processor : Processor} (value : Option Value)
      (shows : start.Shows processor.channel sink) :
      Reflects start sink (.ok (some value), processor) (.stopped (.ok value))
  | faulted {processor : Processor} (fault : Fault)
      (shows : start.Shows processor.channel sink) :
      Reflects start sink (.error fault, processor) (.stopped (.error fault))

namespace Processing

variable {α β : Type} {spelling : Spelling} {assembly : Assembly} {start : Channel}
  {processor : Processor} {machine : Machine} {frame : Frame} {operands : Operands}

/-- The second part runs on what the first one leaves, unless that is a fault. -/
theorem runOn_bind (first : Processing α) (next : α → Processing β) (processor : Processor) :
    (first >>= next).runOn processor =
      match first.runOn processor with
      | (.ok value, after) => (next value).runOn after
      | (.error fault, after) => (.error fault, after) := by
  show (ExceptT.bindCont next (first.runOn processor).1).run (first.runOn processor).2 = _
  split <;> next same => rw [same]; rfl

theorem runOn_get_bind (next : Processor → Processing β) (processor : Processor) :
    ((get : Processing Processor) >>= next).runOn processor = (next processor).runOn processor :=
  rfl

theorem runOn_push_bind (value : Value) (next : Unit → Processing β) (processor : Processor) :
    (push value >>= next).runOn processor =
      (next ()).runOn { processor with operands := processor.operands.push value } := rfl

theorem runOn_resume_bind (frame : Frame) (next : Unit → Processing β) (processor : Processor) :
    (resume frame >>= next).runOn processor =
      (next ()).runOn { processor with frames := frame :: processor.frames.tail } := rfl

/-- The underflow of an instruction of `frame`, whose next offset is behind it already. -/
abbrev underflowIn (frame : Frame) : Fault := .stackUnderflow frame.routine.name (frame.next - 1)

/-! ### Taking operands -/

/-- Operands are taken as `taken` says. Where there are too few, it is not said which are left. -/
inductive Takes (processor : Processor) :
    (taken : Option (α × Operands)) → Except Fault α × Processor → Prop
  | some (result : α) (rest : Operands) :
      Takes processor (some (result, rest)) (.ok result, { processor with operands := rest })
  | none (left : Operands) :
      Takes processor none (.error processor.underflow, { processor with operands := left })

theorem pop_takes (processor : Processor) :
    Takes processor (processor.operands.pop? processor.base) (pop.runOn processor) := by
  rw [pop, runOn_get_bind]
  cases processor.operands.pop? processor.base with
  | none => exact .none processor.operands
  | some popped => exact .some popped.1 popped.2

/-- Two operands. When the second is missing, the first has been taken already, and the processor is
left without it. -/
theorem popPair_takes (processor : Processor) :
    Takes processor (processor.operands.popPair? processor.base) (popPair.runOn processor) := by
  have first := pop_takes processor
  rw [popPair, runOn_bind, Operands.popPair?]
  generalize pop.runOn processor = ran, processor.operands.pop? processor.base = taken at first
  cases first with
  | none left => exact .none left
  | some right rest =>
    have second := pop_takes { processor with operands := rest }
    dsimp only
    rw [runOn_bind]
    generalize pop.runOn { processor with operands := rest } = ran at second ⊢
    change Takes _ (rest.pop? processor.base) ran at second
    generalize rest.pop? processor.base = taken at second ⊢
    cases second with
    | none left => exact .none left
    | some left rest => exact .some (left, right) rest

theorem popMany_takes (count : Nat) (processor : Processor) :
    Takes processor (processor.operands.popMany? processor.base count)
      ((popMany count).runOn processor) := by
  induction count generalizing processor with
  | zero => exact .some [] processor.operands
  | succ count ih =>
    have first := pop_takes processor
    rw [popMany, runOn_bind, Operands.popMany?]
    generalize pop.runOn processor = ran, processor.operands.pop? processor.base = taken at first
    cases first with
    | none left => exact .none left
    | some last rest =>
      have others := ih { processor with operands := rest }
      dsimp only
      rw [runOn_bind]
      generalize (popMany count).runOn { processor with operands := rest } = ran at others ⊢
      change Takes _ (rest.popMany? processor.base count) ran at others
      generalize rest.popMany? processor.base count = taken at others ⊢
      cases others with
      | none left => exact .none left
      | some values rest => exact .some (values ++ [last]) rest

/-- How the machine goes on with what its instruction takes. -/
def stepWith (frame : Frame) (step : α → Operands → Step) : Option (α × Operands) → Step
  | some (result, rest) => step result rest
  | none => Machine.fault (underflowIn frame)

/-- An instruction that takes operands and goes on, or reports that there are too few. -/
theorem takes_reflects {taking : Processing α} {taken : Option (α × Operands)}
    {next : α → Processing (Option (Option Value))} (step : α → Operands → Step)
    (midway : Midway start machine frame operands processor)
    (takes : Takes processor taken (taking.runOn processor))
    (goesOn : ∀ result rest processor, Midway start machine frame rest processor →
      Reflects start machine.sink ((next result).runOn processor) (step result rest)) :
    Reflects start machine.sink ((taking >>= next).runOn processor)
      (stepWith frame step taken) := by
  rw [runOn_bind]
  generalize taking.runOn processor = ran at takes
  cases takes with
  | none left =>
    dsimp only
    rw [midway.underflow_eq]
    exact .faulted _ midway.shows
  | some result rest => exact goesOn result rest _ (midway.withOperands rest)

theorem pop_reflects {next : Value → Processing (Option (Option Value))}
    {step : Value → Operands → Step} (midway : Midway start machine frame operands processor)
    (goesOn : ∀ value rest processor, Midway start machine frame rest processor →
      Reflects start machine.sink ((next value).runOn processor) (step value rest)) :
    Reflects start machine.sink ((pop >>= next).runOn processor)
      (match operands.pop? frame.base with
        | some (value, rest) => step value rest
        | none => Machine.fault (underflowIn frame)) := by
  have takes := pop_takes processor
  rw [midway.base_eq, midway.operands_eq] at takes
  have reflects := takes_reflects step midway takes goesOn
  cases taken : operands.pop? frame.base <;> rwa [taken] at reflects

theorem popPair_reflects {next : Value × Value → Processing (Option (Option Value))}
    {step : Value → Value → Operands → Step}
    (midway : Midway start machine frame operands processor)
    (goesOn : ∀ left right rest processor, Midway start machine frame rest processor →
      Reflects start machine.sink ((next (left, right)).runOn processor)
        (step left right rest)) :
    Reflects start machine.sink ((popPair >>= next).runOn processor)
      (match operands.popPair? frame.base with
        | some ((left, right), rest) => step left right rest
        | none => Machine.fault (underflowIn frame)) := by
  have takes := popPair_takes processor
  rw [midway.base_eq, midway.operands_eq] at takes
  have reflects := takes_reflects (fun pair => step pair.1 pair.2) midway takes
    fun pair => goesOn pair.1 pair.2
  cases taken : operands.popPair? frame.base <;> rwa [taken] at reflects

theorem popMany_reflects {count : Nat} {next : List Value → Processing (Option (Option Value))}
    {step : List Value → Operands → Step}
    (midway : Midway start machine frame operands processor)
    (goesOn : ∀ values rest processor, Midway start machine frame rest processor →
      Reflects start machine.sink ((next values).runOn processor) (step values rest)) :
    Reflects start machine.sink ((popMany count >>= next).runOn processor)
      (match operands.popMany? frame.base count with
        | none => Machine.fault (underflowIn frame)
        | some (values, rest) => step values rest) := by
  have takes := popMany_takes count processor
  rw [midway.base_eq, midway.operands_eq] at takes
  have reflects := takes_reflects step midway takes goesOn
  cases taken : operands.popMany? frame.base count <;> rwa [taken] at reflects

/-! ### Single operations -/

theorem done_reflects (midway : Midway start machine frame operands processor) :
    Reflects start machine.sink
      ((return none : Processing (Option (Option Value))).runOn processor)
      (machine.within frame operands) :=
  .running ⟨midway.frames_eq, midway.numbered, midway.operands_eq, midway.shows⟩

theorem push_reflects (midway : Midway start machine frame operands processor)
    {value : Value} {next : Unit → Processing (Option (Option Value))} {step : Step}
    (goesOn : ∀ processor, Midway start machine frame (operands.push value) processor →
      Reflects start machine.sink ((next ()).runOn processor) step) :
    Reflects start machine.sink ((push value >>= next).runOn processor) step := by
  rw [runOn_push_bind, midway.operands_eq]
  exact goesOn _ (midway.withOperands _)

/-- A jump is checked on both sides against the same code. -/
theorem jump_reflects (midway : Midway start machine frame operands processor) (target : Nat) :
    Reflects start machine.sink
      ((do jump frame target; return none : Processing (Option (Option Value))).runOn processor)
      (machine.jump frame operands target) := by
  unfold jump Machine.jump
  by_cases inside : target < frame.routine.code.size
  · rw [if_pos inside, if_pos inside, runOn_resume_bind]
    exact done_reflects (midway.withFrame _ rfl)
  · rw [if_neg inside, if_neg inside]
    exact .faulted _ midway.shows

/-- The processor counts its frames where the machine looks at the depth of its executing call; the
frames are numbered, so both are one number. -/
theorem pushFrame_reflects (midway : Midway start machine frame operands processor)
    (routine : Routine) (args : List Value) :
    Reflects start machine.sink
      ((do pushFrame routine args; return none : Processing (Option (Option Value))).runOn
        processor)
      (if maxCallDepth ≤ frame.depth then Machine.fault .callDepthExceeded
      else .running { machine with
        frame := .enter routine args operands.height (frame.depth + 1)
        callers := frame :: machine.callers
        operands }) := by
  have numbered := midway.numbered
  rw [midway.frames_eq] at numbered
  have depth_eq : processor.frames.length = frame.depth := by
    rw [midway.frames_eq, List.length_cons, numbered.1]
  rw [pushFrame, runOn_bind, runOn_get_bind]
  simp only [depth_eq]
  by_cases tooDeep : maxCallDepth ≤ frame.depth
  · rw [if_pos tooDeep, if_pos tooDeep]
    exact .faulted _ midway.shows
  · rw [if_neg tooDeep, if_neg tooDeep, midway.operands_eq, midway.frames_eq]
    refine .running ⟨rfl, ⟨?_, numbered⟩, rfl, midway.shows⟩
    rw [List.length_cons, ← numbered.1]
    rfl

/-- A return drops the frame and cuts the operands; without a caller the run is over. -/
theorem returnFrom_reflects (midway : Midway start machine frame operands processor)
    (base_eq : machine.frame.base = frame.base) (value : Option Value) :
    Reflects start machine.sink ((returnFrom value).runOn processor)
      (machine.leave operands value) := by
  have numbered := midway.numbered
  rw [returnFrom, runOn_get_bind, midway.operands_eq]
  rw [midway.frames_eq] at numbered ⊢
  unfold Machine.leave
  cases callers_eq : machine.callers with
  | nil => exact .returned value midway.shows
  | cons caller callers =>
    rw [callers_eq] at numbered
    rw [base_eq]
    exact .running ⟨rfl, numbered.2, rfl, midway.shows⟩

/-- A line in pieces, for a line at once. -/
theorem print_reflects (midway : Midway start machine frame operands processor)
    (value : Value) :
    Reflects start machine.sink
      ((do print spelling value; return none : Processing (Option (Option Value))).runOn processor)
      (match machine.sink.write? value.text with
        | some sink => .running { machine with frame, operands, sink }
        | none => Machine.fault .sinkFull) := by
  have oneLine : OneLine (String.join (spelling.pieces value)) := by
    rw [spelling.join_pieces]
    exact value.oneLine_text
  have writes := midway.shows.writePieces oneLine
  rw [spelling.join_pieces] at writes
  rw [print, runOn_bind, runOn_get_bind]
  cases written : machine.sink.write? value.text with
  | none =>
    simp only [written] at writes
    rw [writes]
    exact .faulted _ midway.shows
  | some sink =>
    simp only [written] at writes
    obtain ⟨longer, writes, shows⟩ := writes
    rw [writes]
    exact .running ⟨midway.frames_eq, midway.numbered, midway.operands_eq, shows⟩

/-! ### Steps -/

/-- One instruction: what it takes, and then what it does with that. -/
theorem perform_reflects (midway : Midway start machine frame machine.operands processor)
    (base_eq : machine.frame.base = frame.base) (instruction : Instruction Nat) :
    Reflects start machine.sink ((perform spelling assembly frame instruction).runOn processor)
      (machine.perform assembly frame (underflowIn frame) instruction) := by
  cases instruction with
  | pushInt value => exact push_reflects midway fun _ => done_reflects
  | pushFloat value => exact push_reflects midway fun _ => done_reflects
  | load slot =>
    unfold perform Machine.perform
    dsimp only
    cases frame.load? slot with
    | some value => exact push_reflects midway fun _ => done_reflects
    | none => exact .faulted _ midway.shows
  | store slot =>
    exact pop_reflects midway fun value rest processor midway =>
      done_reflects (midway.withFrame _ rfl)
  | dup =>
    exact pop_reflects midway fun value rest processor midway =>
      push_reflects midway fun processor midway =>
        push_reflects midway fun processor midway => done_reflects midway
  | pop => exact pop_reflects midway fun value rest processor midway => done_reflects midway
  | arithmetic op =>
    refine popPair_reflects midway fun left right rest processor midway => ?_
    dsimp only
    cases Value.combine? op left right with
    | some value => exact push_reflects midway fun processor midway => done_reflects midway
    | none => exact .faulted _ midway.shows
  | neg =>
    exact pop_reflects midway fun value rest processor midway =>
      push_reflects midway fun processor midway => done_reflects midway
  | jump target => exact jump_reflects midway target
  | jumpIfZero target =>
    refine pop_reflects midway fun value rest processor midway => ?_
    cases value.isZero with
    | true => exact jump_reflects midway target
    | false => exact done_reflects midway
  | jumpIf comparison target =>
    refine popPair_reflects midway fun left right rest processor midway => ?_
    dsimp only
    cases Value.holds comparison left right with
    | true => exact jump_reflects midway target
    | false => exact done_reflects midway
  | call callee arity =>
    unfold perform Machine.perform Machine.call
    dsimp only
    cases assembly.dispatch? callee with
    | none => exact .faulted _ midway.shows
    | some routine =>
      exact popMany_reflects midway fun args rest processor midway =>
        pushFrame_reflects midway routine args
  | print =>
    exact pop_reflects midway fun value rest processor midway => print_reflects midway value
  | return_ =>
    exact pop_reflects midway fun value rest processor midway =>
      returnFrom_reflects midway base_eq (some value)
  | returnVoid => exact returnFrom_reflects midway base_eq none

/-- The processor moves its frame behind the instruction before it performs it, as the machine
does. -/
theorem step_reflects (spelling : Spelling) (assembly : Assembly)
    (inStep : InStep start machine processor) :
    Reflects start machine.sink ((step spelling assembly).runOn processor)
      (machine.step assembly) := by
  rw [step, runOn_get_bind]
  unfold Machine.step
  rw [inStep.frames_eq]
  dsimp only
  cases machine.frame.routine.code[machine.frame.next]? with
  | none => exact .faulted _ inStep.shows
  | some instruction =>
    dsimp only
    rw [runOn_resume_bind]
    have advanced := inStep.withFrame { machine.frame with next := machine.frame.next + 1 } rfl
    exact perform_reflects advanced rfl instruction

end Processing

namespace Processor

variable {start : Channel} {processor : Processor} {machine : Machine}

/-- After as many steps, the processor has shown and ended like the machine. -/
theorem execute_inStep (spelling : Spelling) (assembly : Assembly) (count : Nat)
    (inStep : InStep start machine processor) :
    (execute spelling assembly count processor).1 = (machine.run assembly count).2 ∧
      start.Shows (execute spelling assembly count processor).2.channel
        (machine.run assembly count).1.sink := by
  induction count generalizing processor machine with
  | zero => exact ⟨rfl, inStep.shows⟩
  | succ count ih =>
    have reflects := Processing.step_reflects spelling assembly inStep
    unfold execute Machine.run
    generalize (Processing.step spelling assembly).runOn processor = ran,
      machine.step assembly = next at reflects
    cases reflects with
    | running inStep => exact ih inStep
    | returned value shows => exact ⟨rfl, shows⟩
    | faulted fault shows => exact ⟨rfl, shows⟩

/-- Of all that earlier runs have left, a run only depends on the channel: it ends like the run of a
machine on the room that is left there, and adds the lines of that run to the text. -/
theorem run_eq (spelling : Spelling) (assembly : Assembly) (entry : String) (count : Nat)
    (processor : Processor) :
    (run spelling assembly entry count processor).1 =
        (assembly.runEntry entry processor.channel.room count).2 ∧
      processor.channel.Shows (run spelling assembly entry count processor).2.channel
        (assembly.runEntry entry processor.channel.room count).1 := by
  have fresh := processor.channel.shows_room
  unfold run Assembly.runEntry Machine.start
  cases assembly.dispatch? entry with
  | none => exact ⟨rfl, fresh⟩
  | some routine =>
    dsimp only
    by_cases noParams : routine.arity = 0
    · rw [if_pos noParams, if_pos noParams]
      have started : (Processing.pushFrame routine []).runOn processor.reset =
          (.ok (), ⟨[.enter routine [] 0 1], .empty, processor.channel⟩) := rfl
      rw [started]
      dsimp only
      -- After the reset nothing is left of earlier runs, so the processor is where a machine
      -- starts.
      have inStep : InStep processor.channel
          ⟨.enter routine [] 0 1, [], .empty, processor.channel.room⟩
          ⟨[.enter routine [] 0 1], .empty, processor.channel⟩ :=
        ⟨rfl, ⟨rfl, trivial⟩, rfl, fresh⟩
      obtain ⟨ended, shows⟩ := execute_inStep spelling assembly count inStep
      refine ⟨?_, shows⟩
      rw [ended]
      unfold conclude Machine.conclude
      rw [shows.flushes_eq]
    · rw [if_neg noParams, if_neg noParams]
      exact ⟨rfl, fresh⟩

/-- Execution that has ended goes no further, however many steps it is given. -/
theorem execute_add {spelling : Spelling} {assembly : Assembly} {count : Nat}
    {reached : Processor} {outcome : Outcome}
    (ended : execute spelling assembly count processor = (some outcome, reached)) (more : Nat) :
    execute spelling assembly (count + more) processor = (some outcome, reached) := by
  induction count generalizing processor with
  | zero => cases ended
  | succ count ih =>
    rw [Nat.succ_add]
    unfold execute at ended ⊢
    split
    · next fault left stepped =>
      rw [stepped] at ended
      exact ended
    · next result left stepped =>
      rw [stepped] at ended
      exact ended
    · next left stepped =>
      rw [stepped] at ended
      exact ih ended

/-- A run that has ended is the same with more steps. -/
theorem run_add {spelling : Spelling} {assembly : Assembly} {entry : String} {count : Nat}
    {outcome : Outcome}
    (ended : (run spelling assembly entry count processor).1 = some outcome) (more : Nat) :
    run spelling assembly entry (count + more) processor =
      run spelling assembly entry count processor := by
  unfold run at ended ⊢
  split
  · rfl
  · next routine found =>
    rw [found] at ended
    dsimp only at ended
    split
    · next noParams =>
      rw [if_pos noParams] at ended
      split
      · rfl
      · next started pushed =>
        rw [pushed] at ended
        dsimp only at ended
        cases executed : execute spelling assembly count started with
        | mk outcome? reached =>
          cases outcome? with
          | none =>
            rw [executed] at ended
            cases ended
          | some outcome => rw [execute_add executed more]
    · rfl

/-! ### Runs one after another -/

/-- On a channel that never fails, a run does not depend on anything that earlier runs have left,
and adds to the text what it writes to an empty channel. -/
theorem run_eq_new (spelling : Spelling) (assembly : Assembly) (entry : String) (count : Nat)
    {processor : Processor} (neverFails : processor.channel.NeverFails) :
    (run spelling assembly entry count processor).1 =
        (run spelling assembly entry count (new .unlimited)).1 ∧
      (run spelling assembly entry count processor).2.channel =
        { processor.channel with text := processor.channel.text ++
          (run spelling assembly entry count (new .unlimited)).2.channel.text } := by
  have room_eq := neverFails.room_eq
  obtain ⟨ended, lines, _, sink_eq, channel_eq⟩ := run_eq spelling assembly entry count processor
  obtain ⟨newEnded, newLines, _, newSink_eq, newChannel_eq⟩ :=
    run_eq spelling assembly entry count (new .unlimited)
  rw [room_eq] at ended sink_eq
  obtain rfl : lines = newLines := Sink.append_inj (sink_eq.symm.trans newSink_eq)
  refine ⟨ended.trans newEnded.symm, ?_⟩
  rw [channel_eq, newChannel_eq]
  simp [Channel.after, new, Channel.unlimited]

/-- A new processor does what a machine does, and writes its lines. -/
theorem new_run_eq (spelling : Spelling) (assembly : Assembly) (entry : String) (count : Nat) :
    (run spelling assembly entry count (new .unlimited)).1 =
        (assembly.runEntry entry .unlimited count).2 ∧
      (run spelling assembly entry count (new .unlimited)).2.channel.text =
        (assembly.runEntry entry .unlimited count).1.text := by
  obtain ⟨ended, lines, _, sink_eq, channel_eq⟩ :=
    run_eq spelling assembly entry count (new .unlimited)
  have room_eq : (new .unlimited).channel.room = Sink.unlimited := rfl
  rw [room_eq] at ended sink_eq
  refine ⟨ended, ?_⟩
  rw [channel_eq, sink_eq]
  simp [Channel.after, new, Channel.unlimited, linesText, Sink.text, Sink.textFrom, Sink.append,
    Sink.unlimited]

/-- The processor behind a history of runs, each for at most a number of steps. -/
def afterRuns (spelling : Spelling) (assembly : Assembly) (history : List (String × Nat))
    (processor : Processor) : Processor :=
  history.foldl (fun processor past => (run spelling assembly past.1 past.2 processor).2) processor

/-- No run makes a channel fail that never does. -/
theorem afterRuns_neverFails (spelling : Spelling) (assembly : Assembly)
    (history : List (String × Nat)) {processor : Processor}
    (neverFails : processor.channel.NeverFails) :
    (afterRuns spelling assembly history processor).channel.NeverFails := by
  induction history generalizing processor with
  | nil => exact neverFails
  | cons past history ih =>
    obtain ⟨_, channel_eq⟩ := run_eq_new spelling assembly past.1 past.2 neverFails
    apply ih
    rw [channel_eq]
    exact neverFails

/-- A processor can be run again after anything. Whatever has been run on it, to whatever end or to
none, and whatever text its output holds, the next run ends as on a new processor and adds the same
text, which is what a machine prints that runs the entry alone. -/
theorem run_after_history (spelling : Spelling) (assembly : Assembly) (text : String)
    (history : List (String × Nat)) (entry : String) (count : Nat) :
    let used := afterRuns spelling assembly history (new { Channel.unlimited with text })
    let alone := run spelling assembly entry count (new .unlimited)
    (run spelling assembly entry count used).1 = alone.1 ∧
      (run spelling assembly entry count used).2.channel.text =
        used.channel.text ++ alone.2.channel.text ∧
      alone.1 = (assembly.runEntry entry .unlimited count).2 ∧
      alone.2.channel.text = (assembly.runEntry entry .unlimited count).1.text := by
  intro used alone
  have neverFails : used.channel.NeverFails :=
    afterRuns_neverFails spelling assembly history ⟨rfl, rfl⟩
  obtain ⟨ended, channel_eq⟩ := run_eq_new spelling assembly entry count neverFails
  exact ⟨ended, congrArg Channel.text channel_eq, new_run_eq spelling assembly entry count⟩

end Processor

end ImpStack
