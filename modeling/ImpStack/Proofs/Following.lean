import ImpStack.Proofs.Activation

/-!
When a run of the machine follows an evaluation. The run goes where the evaluation ends, prints and
reads the same on the way, and stops with the same fault. An evaluation that runs out of fuel is
followed by a run that has made at least as many steps as there was fuel, so that a run which ends
cannot be followed with too little fuel for ever.
-/
namespace ImpStack

open Evaluation

/-- A run of `count` steps whose output and reads take one log to another. `sink` is the sink at
first. -/
def Tracks (assembly : Assembly) (sink : Sink) (count : Nat) (machine : Machine) (log : Log)
    (reached : Machine) (after : Log) : Prop :=
  reached.sink = sink.append after.lines ∧
    ∃ reads, Machine.Reaches assembly count machine reads reached ∧
      after.reads = log.reads ++ reads

namespace Tracks

variable {assembly : Assembly} {sink : Sink} {count : Nat} {machine reached : Machine}
  {log after : Log}

theorem refl (shown : machine.sink = sink.append log.lines) :
    Tracks assembly sink 0 machine log machine log :=
  ⟨shown, [], .refl machine, by simp⟩

theorem trans {more : Nat} {middle : Machine} {between : Log}
    (first : Tracks assembly sink count machine log middle between)
    (second : Tracks assembly sink more middle between reached after) :
    Tracks assembly sink (count + more) machine log reached after := by
  obtain ⟨_, before, left, before_eq⟩ := first
  obtain ⟨shown, later, right, later_eq⟩ := second
  exact ⟨shown, before ++ later, left.trans right, by rw [later_eq, before_eq, List.append_assoc]⟩

theorem step {next : Machine} {between : Log} (steps : machine.step assembly = .running next)
    (read : between.reads = log.reads ++ machine.read?.toList)
    (rest : Tracks assembly sink count next between reached after) :
    Tracks assembly sink (count + 1) machine log reached after := by
  obtain ⟨shown, reads, reaches, reads_eq⟩ := rest
  exact ⟨shown, machine.read?.toList ++ reads, .step steps reaches,
    by rw [reads_eq, read, List.append_assoc]⟩

end Tracks

/-- How a run of `count` steps to `reached` shows that the evaluation has halted there. -/
def HaltsAs (assembly : Assembly) (fuel count : Nat) (reached : Machine) : Halt → Prop
  | .fault fault => reached.step assembly = .stopped (.error fault)
  | .outOfFuel => fuel ≤ count
  | .undecided => False

/-- The run from `machine` follows the evaluation of `part` from `log`; where `part` has a value,
the run goes to a machine that `post` relates to it. -/
def Follows {α : Type} (assembly : Assembly) (sink : Sink) (fuel : Nat) (machine : Machine)
    (log : Log) (part : Eval α) (post : α → Log → Machine → Prop) : Prop :=
  ∃ count reached, match part log with
    | .ok value after => Tracks assembly sink count machine log reached after ∧
        post value after reached
    | .error halt after => Tracks assembly sink count machine log reached after ∧
        HaltsAs assembly fuel count reached halt

/-- A halt for want of fuel is shown by more steps as well, as long as the fuel grows by no more
than they do. -/
theorem HaltsAs.mono {assembly : Assembly} {fuel less count more : Nat} {reached : Machine}
    {halt : Halt} (fuel_le : less + count ≤ fuel + more)
    (halts : HaltsAs assembly fuel count reached halt) :
    HaltsAs assembly less more reached halt := by
  cases halt with
  | fault fault => exact halts
  | outOfFuel =>
    have enough : fuel ≤ count := halts
    show less ≤ more
    omega
  | undecided => exact halts

namespace Follows

variable {α β : Type} {assembly : Assembly} {sink : Sink} {fuel : Nat} {machine : Machine}
  {log : Log} {part : Eval α} {post : α → Log → Machine → Prop}

/-- Where the evaluation is complete, the run need not go on. -/
theorem pure {value : α} (shown : machine.sink = sink.append log.lines)
    (holds : post value log machine) :
    Follows assembly sink fuel machine log (Pure.pure value) post :=
  ⟨0, machine, .refl shown, holds⟩

theorem fault {fault : Fault} (shown : machine.sink = sink.append log.lines)
    (stops : machine.step assembly = .stopped (.error fault)) :
    Follows assembly sink fuel machine log (throw (.fault fault) : Eval α) post :=
  ⟨0, machine, .refl shown, stops⟩

/-- Without fuel nothing is asked of the run. -/
theorem outOfFuel (shown : machine.sink = sink.append log.lines) :
    Follows assembly sink 0 machine log (throw .outOfFuel : Eval α) post :=
  ⟨0, machine, .refl shown, Nat.le_refl 0⟩

/-- The run of what comes first goes on as the run of the rest. Where the first part stops early,
nothing of the rest is asked for. -/
theorem bind {next : α → Eval β} {last : β → Log → Machine → Prop}
    (first : Follows assembly sink fuel machine log part post)
    (rest : ∀ value after reached, post value after reached →
      Follows assembly sink fuel reached after (next value) last) :
    Follows assembly sink fuel machine log (part >>= next) last := by
  obtain ⟨count, middle, follows⟩ := first
  simp only [Follows, Bind.bind, EStateM.bind]
  cases result : part log with
  | error halt after =>
    rw [result] at follows
    exact ⟨count, middle, follows⟩
  | ok value after =>
    rw [result] at follows
    obtain ⟨tracks, holds⟩ := follows
    obtain ⟨more, reached, follows⟩ := rest value after middle holds
    refine ⟨count + more, reached, ?_⟩
    dsimp only
    cases result : next value after with
    | ok value after =>
      rw [result] at follows
      exact ⟨tracks.trans follows.1, follows.2⟩
    | error halt after =>
      rw [result] at follows
      exact ⟨tracks.trans follows.1, follows.2.mono (by omega)⟩

/-- A step that reads nothing in front of a run that follows. It makes up for one unit of fuel. -/
theorem step {next : Machine} (steps : machine.step assembly = .running next)
    (silent : machine.read? = none) (rest : Follows assembly sink fuel next log part post) :
    Follows assembly sink (fuel + 1) machine log part post := by
  have read : log.reads = log.reads ++ machine.read?.toList := by simp [silent]
  obtain ⟨count, reached, follows⟩ := rest
  refine ⟨count + 1, reached, ?_⟩
  cases result : part log with
  | ok value after =>
    rw [result] at follows
    exact ⟨follows.1.step steps read, follows.2⟩
  | error halt after =>
    rw [result] at follows
    exact ⟨follows.1.step steps read, follows.2.mono (by omega)⟩

/-- A run that makes up for more fuel makes up for less. -/
theorem weaken {less : Nat} (le : less ≤ fuel)
    (follows : Follows assembly sink fuel machine log part post) :
    Follows assembly sink less machine log part post := by
  obtain ⟨count, reached, follows⟩ := follows
  refine ⟨count, reached, ?_⟩
  cases result : part log with
  | ok value after => simpa only [result] using follows
  | error halt after =>
    rw [result] at follows
    exact ⟨follows.1, follows.2.mono (by omega)⟩

/-- A step in front that is not counted against the fuel. -/
theorem step_weak {next : Machine} (steps : machine.step assembly = .running next)
    (silent : machine.read? = none) (rest : Follows assembly sink fuel next log part post) :
    Follows assembly sink fuel machine log part post :=
  (rest.step steps silent).weaken (Nat.le_succ fuel)

/-- A step to a machine at which the evaluation of `part` is complete. -/
theorem step_pure {next : Machine} {value : α} (steps : machine.step assembly = .running next)
    (silent : machine.read? = none) (shown : next.sink = sink.append log.lines)
    (holds : post value log next) :
    Follows assembly sink fuel machine log (Pure.pure value) post :=
  .step_weak steps silent (.pure shown holds)

/-- A step that prints the line of the evaluation. -/
theorem printLine_bind {next : Machine} {line : String} {rest : Unit → Eval α}
    (steps : machine.step assembly = .running next) (silent : machine.read? = none)
    (follows : Follows assembly sink fuel next { log with lines := log.lines.push line } (rest ())
      post)
    (shown : next.sink = sink.append (log.lines.push line)) :
    Follows assembly sink fuel machine log (Evaluation.printLine line >>= rest) post := by
  have printed : Follows assembly sink fuel machine log (Evaluation.printLine line)
      (fun _ after reached =>
        after = { log with lines := log.lines.push line } ∧ reached = next) := by
    refine ⟨1, next, Tracks.step steps ?_ (.refl shown), rfl, rfl⟩
    simp [silent]
  refine printed.bind ?_
  rintro _ after reached ⟨rfl, rfl⟩
  exact follows

/-- A load, which reads what the evaluation reads. -/
theorem record_bind {next : Machine} {read : Read} {rest : Unit → Eval α}
    (steps : machine.step assembly = .running next) (reads : machine.read? = some read)
    (follows : Follows assembly sink fuel next { log with reads := log.reads ++ [read] } (rest ())
      post)
    (shown : next.sink = sink.append log.lines) :
    Follows assembly sink fuel machine log (Evaluation.record read >>= rest) post := by
  have recorded : Follows assembly sink fuel machine log (Evaluation.record read)
      (fun _ after reached =>
        after = { log with reads := log.reads ++ [read] } ∧ reached = next) := by
    refine ⟨1, next, Tracks.step steps ?_ (.refl shown), rfl, rfl⟩
    simp [reads]
  refine recorded.bind ?_
  rintro _ after reached ⟨rfl, rfl⟩
  exact follows

end Follows

end ImpStack
