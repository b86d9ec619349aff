import ImpStack.Proofs.WellSpelledCode
import ImpStack.Proofs.Words

/-!
What the text of an instruction tells (SPEC_FULL, section 4.5). Its first word says which
instruction it is and the words behind it are the operands, so that the text determines the
instruction (`Instruction.WellSpelled.text_inj`); an offset is not hidden by the zeros in front of
it (`offsetText_inj`).
-/
namespace ImpStack

/-! ### Texts without blanks -/

/-- No blank and no line break is in the text. -/
def Unbroken (text : String) : Prop := ' ' ∉ text.toList ∧ '\n' ∉ text.toList

instance (text : String) : Decidable (Unbroken text) := inferInstanceAs (Decidable (_ ∧ _))

/-- A word has no blank in it. -/
theorem OneWord.unbroken {text : String} (oneWord : OneWord text) : Unbroken text := by
  refine ⟨fun member => ?_, fun member => ?_⟩
  · exact absurd (oneWord.2 _ member) (by decide)
  · exact absurd (oneWord.2 _ member) (by decide)

/-- What is written with blanks between its parts can be cut into them again. -/
theorem intercalate_inj {parts others : List String} (nonempty : parts ≠ [])
    (otherNonempty : others ≠ []) (unbroken : ∀ part ∈ parts, Unbroken part)
    (otherUnbroken : ∀ part ∈ others, Unbroken part)
    (same : " ".intercalate parts = " ".intercalate others) : parts = others := by
  have cut : ∀ {parts : List String}, parts ≠ [] → (∀ part ∈ parts, Unbroken part) →
      (" ".intercalate parts).toList.splitOn ' ' = parts.map String.toList := by
    intro parts nonempty unbroken
    rw [String.toList_intercalate]
    exact List.splitOn_intercalate ' ' (by simpa using fun part member => (unbroken part member).1)
      (by simpa using nonempty)
  have lists := cut nonempty unbroken
  rw [same, cut otherNonempty otherUnbroken] at lists
  exact (List.map_injective_iff.mpr (fun _ _ => String.toList_inj.mp) lists).symm

/-! ### Operands -/

/-- The digits of an offset, with zeros in front of them. -/
theorem toList_offsetText (offset : Nat) : (offsetText offset).toList =
    List.replicate (4 - (toString offset).length) '0' ++ Nat.toDigits 10 offset := by
  simp [offsetText, toList_pushn]

theorem isDigit_of_mem_offsetText {offset : Nat} {c : Char}
    (member : c ∈ (offsetText offset).toList) : c.isDigit := by
  rw [toList_offsetText] at member
  obtain zero | digit := List.mem_append.mp member
  · exact Binary32.isDigit_of_mem_replicate zero
  · exact (Pattern.isDigits_toDigits offset).2 c digit

/-- Zeros in front of a number hide nothing of it. -/
theorem offsetText_inj {offset other : Nat} (same : offsetText offset = offsetText other) :
    offset = other := by
  have reads : ∀ offset, Nat.ofDigitChars 10 (offsetText offset).toList 0 = offset := by
    intro offset
    rw [toList_offsetText, Binary32.ofDigitChars_zeros, Nat.ofDigitChars_ten_toDigits]
  rw [← reads offset, same, reads other]

theorem oneWord_offsetText (offset : Nat) : OneWord (offsetText offset) := by
  refine ⟨?_, fun c member => isInWord_of_isDigit (isDigit_of_mem_offsetText member)⟩
  rw [toList_offsetText]
  exact List.append_ne_nil_of_right_ne_nil _ Nat.toDigits_ne_nil

theorem oneWord_toString_nat (n : Nat) : OneWord (toString n) := oneWord_toString (n : Int)

theorem toString_nat_inj {n other : Nat} (same : toString n = toString other) : n = other := by
  have integers : toString (n : Int) = toString (other : Int) := same
  exact Int.ofNat_inj.mp (Numeral.toString_inj integers)

namespace Instruction

/-- An instruction without its operands. -/
inductive Opcode where
  | pushInt | pushFloat | load | store | dup | pop
  | arithmetic (op : Arithmetic)
  | neg | jump | jumpIfZero
  | jumpIf (comparison : Comparison)
  | call | print | return_ | returnVoid
  deriving DecidableEq

namespace Opcode

/-- All opcodes, with those of operators and comparisons. -/
def all : List Opcode :=
  [pushInt, pushFloat, load, store, dup, pop, neg, jump, jumpIfZero, call, print, return_,
    returnVoid] ++ Arithmetic.all.map arithmetic ++ Comparison.all.map jumpIf

theorem mem_all (opcode : Opcode) : opcode ∈ all := by
  cases opcode with
  | arithmetic op => cases op <;> decide
  | jumpIf comparison => cases comparison <;> decide
  | _ => decide

/-- The first word of the text. -/
def mnemonic : Opcode → String
  | pushInt => "push"
  | pushFloat => "pushf"
  | load => "load"
  | store => "store"
  | dup => "dup"
  | pop => "pop"
  | arithmetic op => op.mnemonic
  | neg => "neg"
  | jump => "jump"
  | jumpIfZero => "jz"
  | jumpIf comparison => "if_" ++ comparison.mnemonic
  | call => "call"
  | print => "print"
  | return_ => "ret"
  | returnVoid => "ret_void"

theorem unbroken_mnemonic (opcode : Opcode) : Unbroken opcode.mnemonic := by
  have each : ∀ opcode ∈ all, Unbroken opcode.mnemonic := by decide
  exact each opcode opcode.mem_all

/-- No two instructions have the same first word. -/
theorem mnemonic_inj {opcode other : Opcode} (same : opcode.mnemonic = other.mnemonic) :
    opcode = other := by
  have each : ∀ opcode ∈ all, ∀ other ∈ all, opcode.mnemonic = other.mnemonic → opcode = other := by
    decide
  exact each opcode opcode.mem_all other other.mem_all same

end Opcode

/-- Which instruction it is. -/
def opcode : Instruction Nat → Opcode
  | pushInt _ => .pushInt
  | pushFloat _ => .pushFloat
  | load _ => .load
  | store _ => .store
  | dup => .dup
  | pop => .pop
  | arithmetic op => .arithmetic op
  | neg => .neg
  | jump _ => .jump
  | jumpIfZero _ => .jumpIfZero
  | jumpIf comparison _ => .jumpIf comparison
  | call _ _ => .call
  | print => .print
  | return_ => .return_
  | returnVoid => .returnVoid

/-- The words behind the mnemonic. -/
def operands : Instruction Nat → List String
  | pushInt value => [toString value.toInt]
  | pushFloat value => [Binary32.text .exact value]
  | load slot => [toString slot]
  | store slot => [toString slot]
  | jump target => [offsetText target]
  | jumpIfZero target => [offsetText target]
  | jumpIf _ target => [offsetText target]
  | call callee arity => [callee, toString arity]
  | _ => []

variable {instruction other : Instruction Nat}

/-- A text is made of its words, with single blanks between them. -/
theorem text_eq (instruction : Instruction Nat) :
    instruction.text = " ".intercalate (instruction.opcode.mnemonic :: instruction.operands) := by
  rw [← String.toList_inj]
  cases instruction <;> simp [text, opcode, Opcode.mnemonic, operands, toString_text]

/-- Each operand is written as one word. -/
theorem WellSpelled.oneWord_operands (spelled : instruction.WellSpelled) :
    ∀ operand ∈ instruction.operands, OneWord operand := by
  cases instruction with
  | pushInt value => simpa [operands] using oneWord_toString value.toInt
  | pushFloat value => simpa [operands] using Binary32.IsNumber.oneWord spelled
  | load slot => simpa [operands] using oneWord_toString_nat slot
  | store slot => simpa [operands] using oneWord_toString_nat slot
  | jump target => simpa [operands] using oneWord_offsetText target
  | jumpIfZero target => simpa [operands] using oneWord_offsetText target
  | jumpIf _ target => simpa [operands] using oneWord_offsetText target
  | call callee arity =>
    simpa [operands] using And.intro (IsWord.oneWord spelled) (oneWord_toString_nat arity)
  | _ => simp [operands]

theorem WellSpelled.unbroken_words (spelled : instruction.WellSpelled) :
    ∀ word ∈ instruction.opcode.mnemonic :: instruction.operands, Unbroken word :=
  List.forall_mem_cons.mpr ⟨instruction.opcode.unbroken_mnemonic,
    fun word member => (spelled.oneWord_operands word member).unbroken⟩

/-- Equal opcodes and equal operands make equal instructions. -/
theorem WellSpelled.eq_of_operands_eq (spelled : instruction.WellSpelled)
    (spelledOther : other.WellSpelled) (opcodes : instruction.opcode = other.opcode)
    (same : instruction.operands = other.operands) : instruction = other := by
  cases instruction <;> cases other <;> cases opcodes <;>
    simp only [operands, List.cons.injEq, and_true] at same
  case pushInt.pushInt.refl => rw [Int32.toInt_inj.mp (Numeral.toString_inj same)]
  case pushFloat.pushFloat.refl => rw [Binary32.IsNumber.text_inj spelled spelledOther same]
  case load.load.refl => rw [toString_nat_inj same]
  case store.store.refl => rw [toString_nat_inj same]
  case jump.jump.refl => rw [offsetText_inj same]
  case jumpIfZero.jumpIfZero.refl => rw [offsetText_inj same]
  case jumpIf.jumpIf.refl => rw [offsetText_inj same]
  case call.call.refl => rw [same.1, toString_nat_inj same.2]
  all_goals rfl

/-- The text of an instruction of a source determines it. -/
theorem WellSpelled.text_inj (spelled : instruction.WellSpelled)
    (spelledOther : other.WellSpelled) (same : instruction.text = other.text) :
    instruction = other := by
  rw [text_eq, text_eq] at same
  have words := intercalate_inj (List.cons_ne_nil _ _) (List.cons_ne_nil _ _)
    spelled.unbroken_words spelledOther.unbroken_words same
  obtain ⟨mnemonics, operands⟩ := List.cons.inj words
  exact spelled.eq_of_operands_eq spelledOther (Opcode.mnemonic_inj mnemonics) operands

end Instruction

end ImpStack
