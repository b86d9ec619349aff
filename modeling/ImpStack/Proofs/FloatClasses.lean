import ImpStack.Binary32.Magnitude

/-!
Floats and their classes. Apart from NaN, a float is what its class says
(`IsNumber.eq_of_classify_eq`); what is put together from a magnitude is no NaN
(`isNumber_ofMagnitude`).

Both facts are read off the bits: a NaN has the exponent of all ones and a mantissa that is not
zero.
-/
namespace ImpStack.Binary32

open Float.Model (Format UnpackedFloat)
open Float.Model.UnpackedFloat

/-- Not a NaN. -/
def IsNumber (x : Float32) : Prop := classify x ≠ .nan

section Classes

variable {x y : Float32}

/-- The bit pattern of a number of the class. -/
def Class.pattern : Class → Nat
  | nan => 0
  | infinite negative => (if negative then Nat.pow 2 31 else 0) + infinityBits
  | finite negative bits => (if negative then Nat.pow 2 31 else 0) + bits

/-- The class of a number is its sign and the bits behind the sign. -/
theorem IsNumber.pattern_eq (number : IsNumber x) : (classify x).pattern = x.toBits.toNat := by
  have bound := x.toBits.toNat_lt
  have sign_eq : (if Nat.pow 2 31 ≤ x.toBits.toNat then Nat.pow 2 31 else 0) +
      x.toBits.toNat % Nat.pow 2 31 = x.toBits.toNat := by
    simp only [Nat.pow_eq]
    split <;> omega
  simp only [IsNumber, classify] at number ⊢
  split
  · simpa [Class.pattern] using sign_eq
  · next large =>
    rw [if_neg large] at number
    split
    · next infinite =>
      simpa [Class.pattern, ← infinite] using sign_eq
    · next other =>
      rw [if_neg other] at number
      exact absurd rfl number

/-- Apart from the payload of a NaN, a float is what its class says. -/
theorem IsNumber.eq_of_classify_eq (number : IsNumber x) (same : classify x = classify y) :
    x = y := by
  have numberToo : IsNumber y := by rwa [IsNumber, ← same]
  have pattern_eq : x.toBits.toNat = y.toBits.toNat := by
    rw [← number.pattern_eq, ← numberToo.pattern_eq, same]
  have bits_eq : x.toModel.toBits = y.toModel.toBits := UInt32.toNat_inj.mp pattern_eq
  obtain ⟨⟨bits, valid⟩⟩ := x
  obtain ⟨⟨other, otherValid⟩⟩ := y
  obtain rfl : bits = other := bits_eq
  rfl

theorem classify_infinity : classify (infinity false) = .infinite false := by decide

end Classes

/-! ### Numbers put together from a magnitude -/

/-- The pattern is that of a NaN. -/
def IsNaNPattern (bits : BitVec 32) : Prop :=
  @unpackExponent Format.binary32 bits = -1#8 ∧ @unpackMantissa Format.binary32 bits ≠ 0#23

/-- The patterns of NaNs are those beyond infinity. -/
theorem isNaNPattern_iff (bits : BitVec 32) :
    IsNaNPattern bits ↔ infinityBits < bits.toNat % Nat.pow 2 31 := by
  have exponent_eq :
      (@unpackExponent Format.binary32 bits).toNat = bits.toNat / 2 ^ 23 % 2 ^ 8 := by
    simp [unpackExponent, Nat.shiftRight_eq_div_pow]
  have mantissa_eq : (@unpackMantissa Format.binary32 bits).toNat = bits.toNat % 2 ^ 23 := by
    simp [unpackMantissa]
  rw [IsNaNPattern, ← BitVec.toNat_inj, ne_eq, ← BitVec.toNat_inj, exponent_eq, mantissa_eq,
    infinityBits, Nat.pow_eq]
  simp
  omega

theorem isNumber_iff (x : Float32) : IsNumber x ↔ ¬IsNaNPattern x.toBits.toBitVec := by
  rw [isNaNPattern_iff, IsNumber, classify, ← UInt32.toNat_toBitVec]
  generalize x.toBits.toBitVec.toNat = bits
  split
  · next finite => simpa using Nat.le_of_lt finite
  · split
    · next infinite => simp [infinite]
    · next notFinite notInfinite =>
      simp only [ne_eq, not_true, Decidable.not_not, false_iff]
      omega

/-- The packed form of a number is no NaN. -/
theorem not_isNaNPattern_pack {f : UnpackedFloat} (number : f ≠ .notANumber) :
    ¬IsNaNPattern (pack Format.binary32 f) := by
  suffices exponent : @unpackExponent Format.binary32 (pack Format.binary32 f) = -1#8 →
      @unpackMantissa Format.binary32 (pack Format.binary32 f) = 0#23 from
    fun isNaN => isNaN.2 (exponent isNaN.1)
  unfold pack
  split
  · exact absurd rfl number
  · simp [packedInfinity]
  · simp [packedZero]
  · next s m e positive =>
    simp only
    split
    · simp [packedInfinity]
    · next small =>
      split
      · intro full
        exfalso
        rw [unpackExponent_packComponents, ← BitVec.toNat_inj, BitVec.toNat_ofNat] at full
        simp at full small
        omega
      · simp

/-- A pattern that is none of a NaN unpacks to a number. -/
theorem unpack_ne_notANumber {bits : BitVec 32} (number : ¬IsNaNPattern bits) :
    unpack Format.binary32 bits ≠ .notANumber := by
  unfold unpack
  refine iteInduction (motive := (· ≠ notANumber)) (fun full => ?_) (fun _ => ?_)
  · refine iteInduction (motive := (· ≠ notANumber)) (fun _ => ?_) (fun nonzero => ?_)
    · rintro ⟨⟩
    · exact absurd ⟨full, nonzero⟩ number
  · refine iteInduction (motive := (· ≠ notANumber)) (fun _ => ?_) (fun _ => ?_)
    · by_cases zero : @unpackMantissa Format.binary32 bits = 0#23
      · rw [dif_pos zero]
        rintro ⟨⟩
      · rw [dif_neg zero]
        rintro ⟨⟩
    · rintro ⟨⟩

/-- Up to infinity, every magnitude is that of a number, under either sign. -/
theorem isNumber_ofMagnitude {bits : Nat} (le : bits ≤ infinityBits) (negative : Bool) :
    IsNumber (ofMagnitude negative bits) := by
  have pattern : (UInt32.ofNat (if negative then Nat.pow 2 31 + bits else bits)).toNat %
      Nat.pow 2 31 = bits := by
    have small : bits < 2 ^ 31 := Nat.lt_of_le_of_lt le (by decide)
    simp only [UInt32.toNat_ofNat', Nat.pow_eq]
    split <;> omega
  rw [isNumber_iff]
  refine not_isNaNPattern_pack (unpack_ne_notANumber ?_)
  rw [isNaNPattern_iff, UInt32.toNat_toBitVec, pattern]
  omega

end ImpStack.Binary32
