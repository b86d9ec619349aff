import ImpStack.Proofs.ChannelLines
import ImpStack.Proofs.InstructionText

/-!
The listing (SPEC_FULL, section 4.5) of a program that comes from a source determines the program
(`Assembly.listing_determines_code`). Names are words and floats are numbers, so that every line can
be taken apart; and lines of code begin with blanks, which tells where the code of a function ends
(`Routine.codeLines_append_inj`).
-/
namespace ImpStack

/-! ### Lines -/

/-- A text is cut in one way in front of the first occurrence of a character. -/
theorem cut_inj {c : Char} {front otherFront behind otherBehind : List Char} (absent : c ∉ front)
    (otherAbsent : c ∉ otherFront)
    (same : front ++ c :: behind = otherFront ++ c :: otherBehind) :
    front = otherFront ∧ behind = otherBehind := by
  have passed : ∀ d ∈ front, (d != c) = true := by
    intro d member
    simpa using ne_of_mem_of_not_mem member absent
  have otherPassed : ∀ d ∈ otherFront, (d != c) = true := by
    intro d member
    simpa using ne_of_mem_of_not_mem member otherAbsent
  have fronts := congrArg (List.takeWhile (· != c)) same
  rw [List.takeWhile_append_of_pos passed, List.takeWhile_append_of_pos otherPassed] at fronts
  obtain rfl : front = otherFront := by simpa using fronts
  exact ⟨rfl, (List.cons.inj (List.append_cancel_left same)).2⟩

theorem linesText_cons_ne_nil (line : String) (lines : List String) :
    linesText ⟨line :: lines⟩ ≠ linesText ⟨[]⟩ := by
  intro same
  have lists := congrArg String.toList same
  rw [linesText_cons] at lists
  simp [linesText] at lists

/-- A text of lines can be cut into them again. -/
theorem linesText_inj {lines others : List String} (whole : ∀ line ∈ lines, OneLine line)
    (othersWhole : ∀ line ∈ others, OneLine line) (same : linesText ⟨lines⟩ = linesText ⟨others⟩) :
    lines = others := by
  induction lines generalizing others with
  | nil =>
    cases others with
    | nil => rfl
    | cons other others => exact absurd same.symm (linesText_cons_ne_nil other others)
  | cons line lines ih =>
    cases others with
    | nil => exact absurd same (linesText_cons_ne_nil line lines)
    | cons other others =>
      obtain ⟨oneLine, rest⟩ := List.forall_mem_cons.mp whole
      obtain ⟨otherOneLine, otherRest⟩ := List.forall_mem_cons.mp othersWhole
      have lists := congrArg String.toList same
      simp only [linesText_cons, String.toList_append, List.append_assoc] at lists
      obtain ⟨first, following⟩ := cut_inj oneLine otherOneLine lists
      rw [String.toList_inj.mp first, ih rest otherRest (String.toList_inj.mp following)]

namespace Routine

/-- The line in front of the code. -/
def header (routine : Routine) : String :=
  " ".intercalate
    [".function", routine.name, routine.descriptor, "locals=" ++ toString routine.locals]

/-- The lines of code that stands at an offset. -/
def codeLines (offset : Nat) : Code → List String
  | [] => []
  | instruction :: code =>
    ("  " ++ offsetText offset ++ "  " ++ instruction.text) :: codeLines (offset + 1) code

/-- The lines of a function, from its header to its end. -/
def lines (routine : Routine) : List String :=
  routine.header :: (codeLines 0 routine.code.toList ++ [".end"])

/-- Lines of code, put together, are the text of the code. -/
theorem linesText_codeLines (offset : Nat) (code : Code) :
    linesText ⟨codeLines offset code⟩ =
      String.join ((code.zipIdx offset).map fun (instruction, offset) =>
        line instruction offset) := by
  induction code generalizing offset with
  | nil => rfl
  | cons instruction code ih =>
    rw [codeLines, linesText_cons, ih, List.zipIdx_cons, List.map_cons, String.join_cons]
    rfl

/-- The listing of a function consists of its lines. -/
theorem listing_eq (routine : Routine) : routine.listing = linesText ⟨routine.lines⟩ := by
  have code_eq := linesText_codeLines 0 routine.code.toList
  have lines_eq : linesText ⟨routine.lines⟩ =
      routine.header ++ "\n" ++ linesText ⟨codeLines 0 routine.code.toList⟩ ++ ".end\n" := by
    rw [lines, linesText_cons]
    simp [linesText, String.append_assoc]
  have text_eq : routine.listing =
      ".function " ++ routine.name ++ " " ++ routine.descriptor ++ " locals=" ++
        toString routine.locals ++ "\n" ++
        String.join (routine.code.toList.zipIdx.map fun (instruction, offset) =>
          line instruction offset) ++ ".end\n" := rfl
  rw [lines_eq, code_eq, text_eq, ← String.toList_inj]
  simp [header]

end Routine

/-- The listing of a program consists of the lines of its functions, behind its name. -/
theorem Assembly.listing_eq (assembly : Assembly) : assembly.listing =
    ".module " ++ assembly.name ++ "\n" ++
      linesText ⟨assembly.routines.flatMap Routine.lines⟩ := by
  have routines_eq : String.join (assembly.routines.map Routine.listing) =
      linesText ⟨assembly.routines.flatMap Routine.lines⟩ := by
    induction assembly.routines with
    | nil => rfl
    | cons routine routines ih =>
      rw [List.map_cons, String.join_cons, ih, Routine.listing_eq, List.flatMap_cons]
      simp [linesText]
  exact congrArg (".module " ++ assembly.name ++ "\n" ++ ·) routines_eq

/-! ### Lines of a function -/

theorem oneLine_intercalate {parts : List String} (unbroken : ∀ part ∈ parts, Unbroken part) :
    OneLine (" ".intercalate parts) := by
  induction parts with
  | nil => simp [OneLine]
  | cons part parts ih =>
    obtain ⟨first, rest⟩ := List.forall_mem_cons.mp unbroken
    cases parts with
    | nil => simpa [OneLine] using first.2
    | cons second parts =>
      have following := ih rest
      rw [String.intercalate_cons_cons]
      simp only [OneLine, String.toList_append, List.mem_append, not_or]
      exact ⟨⟨first.2, by decide⟩, following⟩

theorem Instruction.WellSpelled.oneLine_text {instruction : Instruction Nat}
    (spelled : instruction.WellSpelled) : OneLine instruction.text := by
  rw [Instruction.text_eq]
  exact oneLine_intercalate spelled.unbroken_words

namespace Routine

theorem toList_descriptor (routine : Routine) : routine.descriptor.toList =
    '(' :: (List.replicate routine.arity 'I' ++ ')' :: [if routine.void then 'V' else 'I']) := by
  cases void_eq : routine.void <;> simp [descriptor, toList_pushn, void_eq]

theorem unbroken_descriptor (routine : Routine) : Unbroken routine.descriptor := by
  rw [Unbroken, toList_descriptor]
  cases routine.void <;> simp

/-- The descriptor counts the parameters and says whether there is a value. -/
theorem descriptor_inj {routine other : Routine} (same : routine.descriptor = other.descriptor) :
    routine.arity = other.arity ∧ routine.void = other.void := by
  have lists := congrArg String.toList same
  rw [toList_descriptor, toList_descriptor] at lists
  obtain ⟨params, values⟩ := cut_inj (by simp) (by simp) (List.cons.inj lists).2
  refine ⟨by simpa using congrArg List.length params, ?_⟩
  cases void_eq : routine.void <;> cases otherVoid_eq : other.void <;> simp_all

theorem WellSpelled.unbroken_header {routine : Routine} (spelled : routine.WellSpelled) :
    ∀ part ∈ [".function", routine.name, routine.descriptor,
      "locals=" ++ toString routine.locals], Unbroken part := by
  have locals := (oneWord_toString_nat routine.locals).unbroken
  have locals_unbroken : Unbroken ("locals=" ++ toString routine.locals) := by
    simpa [Unbroken] using locals
  simp only [List.forall_mem_cons, List.not_mem_nil, false_implies, implies_true, and_true]
  exact ⟨by decide, spelled.name.oneWord.unbroken, routine.unbroken_descriptor, locals_unbroken⟩

/-- The header tells all of a function but its code. -/
theorem header_inj {routine other : Routine} (spelled : routine.WellSpelled)
    (spelledOther : other.WellSpelled) (same : routine.header = other.header) :
    routine.name = other.name ∧ routine.arity = other.arity ∧ routine.void = other.void ∧
      routine.locals = other.locals := by
  have words := intercalate_inj (List.cons_ne_nil _ _) (List.cons_ne_nil _ _)
    spelled.unbroken_header spelledOther.unbroken_header same
  simp only [List.cons.injEq, true_and, and_true] at words
  obtain ⟨names, descriptors, locals⟩ := words
  obtain ⟨arities, voids⟩ := descriptor_inj descriptors
  exact ⟨names, arities, voids, toString_nat_inj ((String.append_right_inj _).mp locals)⟩

/-- Behind the code of a function stands a line that is no line of code. -/
theorem codeLines_append_inj {code other : Code} {behind otherBehind : List String} (offset : Nat)
    (spelled : code.WellSpelled) (spelledOther : other.WellSpelled)
    (same : codeLines offset code ++ ".end" :: behind =
      codeLines offset other ++ ".end" :: otherBehind) :
    code = other ∧ behind = otherBehind := by
  have no_end : ∀ offset (instruction : Instruction Nat),
      ".end" ≠ "  " ++ offsetText offset ++ "  " ++ instruction.text := by
    intro offset instruction same
    have lists := congrArg String.toList same
    simp at lists
  -- By induction on the code. No line of an instruction is `.end`, so both codes end together.
  induction code generalizing offset other with
  | nil =>
    cases other with
    | nil => exact ⟨rfl, (List.cons.inj same).2⟩
    | cons instruction other => exact absurd (List.cons.inj same).1 (no_end offset instruction)
  | cons instruction code ih =>
    cases other with
    | nil => exact absurd (List.cons.inj same).1.symm (no_end offset instruction)
    | cons otherInstruction other =>
      obtain ⟨firsts, rests⟩ := List.cons.inj same
      have texts := (String.append_right_inj _).mp firsts
      obtain ⟨first, rest⟩ := Code.WellSpelled.cons_iff.mp spelled
      obtain ⟨otherFirst, otherRest⟩ := Code.WellSpelled.cons_iff.mp spelledOther
      obtain ⟨rfl, following⟩ := ih (offset + 1) rest otherRest rests
      exact ⟨by rw [first.text_inj otherFirst texts], following⟩

/-- The lines of a function end where its code does, so that functions can be told apart. -/
theorem lines_append_inj {routine other : Routine} {behind otherBehind : List String}
    (spelled : routine.WellSpelled) (spelledOther : other.WellSpelled)
    (same : routine.lines ++ behind = other.lines ++ otherBehind) :
    routine = other ∧ behind = otherBehind := by
  simp only [lines, List.cons_append, List.append_assoc, List.cons.injEq, List.nil_append] at same
  obtain ⟨headers, codes⟩ := same
  obtain ⟨names, arities, voids, locals⟩ := header_inj spelled spelledOther headers
  obtain ⟨code, rfl⟩ := codeLines_append_inj 0 spelled.code spelledOther.code codes
  refine ⟨?_, rfl⟩
  cases routine
  cases other
  simp_all [Array.toList_inj]

theorem oneLine_of_mem_codeLines {code : Code} (offset : Nat) (spelled : code.WellSpelled) :
    ∀ line ∈ codeLines offset code, OneLine line := by
  induction code generalizing offset with
  | nil => simp [codeLines]
  | cons instruction code ih =>
    obtain ⟨first, rest⟩ := Code.WellSpelled.cons_iff.mp spelled
    refine List.forall_mem_cons.mpr ⟨?_, ih (offset + 1) rest⟩
    have offsetWord := (oneWord_offsetText offset).unbroken.2
    have text := first.oneLine_text
    simp only [OneLine, String.toList_append, List.mem_append, not_or] at text ⊢
    exact ⟨⟨⟨by decide, offsetWord⟩, by decide⟩, text⟩

theorem oneLine_of_mem_lines {routine : Routine} (spelled : routine.WellSpelled) :
    ∀ line ∈ routine.lines, OneLine line := by
  refine List.forall_mem_cons.mpr ⟨oneLine_intercalate spelled.unbroken_header, ?_⟩
  refine List.forall_mem_append.mpr ⟨oneLine_of_mem_codeLines 0 spelled.code, ?_⟩
  simp [OneLine]

end Routine

/-- The lines of several functions determine the functions and their order. -/
theorem Routine.eq_of_lines_eq {routines others : List Routine}
    (spelled : ∀ routine ∈ routines, routine.WellSpelled)
    (spelledOthers : ∀ routine ∈ others, routine.WellSpelled)
    (same : routines.flatMap Routine.lines = others.flatMap Routine.lines) : routines = others := by
  induction routines generalizing others with
  | nil =>
    cases others with
    | nil => rfl
    | cons => cases same
  | cons routine routines ih =>
    cases others with
    | nil => cases same
    | cons other others =>
      obtain ⟨firstSpelled, restSpelled⟩ := List.forall_mem_cons.mp spelled
      obtain ⟨otherSpelled, othersSpelled⟩ := List.forall_mem_cons.mp spelledOthers
      rw [List.flatMap_cons, List.flatMap_cons] at same
      obtain ⟨rfl, following⟩ := lines_append_inj firstSpelled otherSpelled same
      rw [ih restSpelled othersSpelled following]

theorem oneLine_of_mem_listing {routines : List Routine}
    (spelled : ∀ routine ∈ routines, routine.WellSpelled) :
    ∀ line ∈ routines.flatMap Routine.lines, OneLine line := by
  intro line member
  obtain ⟨routine, among, inside⟩ := List.mem_flatMap.mp member
  exact Routine.oneLine_of_mem_lines (spelled routine among) line inside

/-- Two sources that compile to the same listing under the same name compile to the same code: the
same functions in the same order, with their names, numbers of parameters and slots, and their
instructions with all operands and jump targets. -/
theorem Assembly.listing_determines_code {name source otherSource : String}
    {assembly other : Assembly}
    (accepted : Assembly.ofSource name source = .ok assembly)
    (acceptedOther : Assembly.ofSource name otherSource = .ok other)
    (same : assembly.listing = other.listing) : assembly = other := by
  have spelled := Assembly.wellSpelled_of_ofSource accepted
  have spelledOther := Assembly.wellSpelled_of_ofSource acceptedOther
  have name_eq : assembly.name = other.name :=
    (Assembly.name_of_ofSource accepted).trans (Assembly.name_of_ofSource acceptedOther).symm
  rw [Assembly.listing_eq, Assembly.listing_eq, name_eq, String.append_right_inj] at same
  have lines_eq := linesText_inj (oneLine_of_mem_listing spelled)
    (oneLine_of_mem_listing spelledOther) same
  have routines_eq := Routine.eq_of_lines_eq spelled spelledOther lines_eq
  cases assembly
  cases other
  simp_all

/-- Halves a number. -/
def halvingSource : String :=
  "function half(n) { return n / 2.0; } function main() { print(half(3)); }"

/-- Another text of the same program. -/
def otherHalvingSource : String :=
  "function half(whole) { return (whole) / 02.00; }\nfunction main() { { print(half(3)); } }"

/-- The code of both. -/
def Assembly.halving : Assembly where
  name := "Main"
  routines := [
    { name := "half", arity := 1, locals := 1, void := false,
      code := #[.load 0, .pushFloat (Binary32.ofMagnitude false 0x40000000), .arithmetic .div,
        .return_, .pushInt 0, .return_] },
    { name := "main", arity := 0, locals := 0, void := true,
      code := #[.pushInt 3, .call "half" 1, .print, .returnVoid] }]

theorem Assembly.listing_determines_code_halving :
    ∃ assembly other, Assembly.ofSource "Main" halvingSource = .ok assembly ∧
      Assembly.ofSource "Main" otherHalvingSource = .ok other ∧
      assembly.listing = other.listing ∧ assembly = other := by
  have accepted : Assembly.ofSource "Main" halvingSource = .ok .halving := by decide +kernel
  have acceptedOther : Assembly.ofSource "Main" otherHalvingSource = .ok .halving := by
    decide +kernel
  exact ⟨_, _, accepted, acceptedOther, rfl,
    Assembly.listing_determines_code accepted acceptedOther rfl⟩

end ImpStack
