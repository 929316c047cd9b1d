import Mathlib
import EntitySql.Decimal.Scaling
import EntitySql.Execution.Count
import EntitySql.MySql.Cell
import EntitySql.Proofs.FreshName

/-! Whole numbers that arrive as decimal text. The text of a number reads as that number as
long as a signed word of 64 bits holds it. Behind that the reader takes the double nearest to
it, although an unsigned word would hold it still and a count would be taken from such a
word. -/

namespace EntitySql

/-! The digits of a number read back as it. -/

theorem digitsValue_toDigits (number : Nat) : digitsValue (Nat.toDigits 10 number) = number :=
  Nat.ofDigitChars_ten_toDigits

theorem isEmpty_toDigits (number : Nat) : (Nat.toDigits 10 number).isEmpty = false := by
  simp

theorem readNatural?_toDigits (number : Nat) :
    readNatural? (Nat.toDigits 10 number) = some number := by
  have digits : (Nat.toDigits 10 number).all Char.isDigit = true :=
    List.all_eq_true.mpr fun _ => isDigit_of_mem_toDigits
  rw [readNatural?, isEmpty_toDigits, digits, digitsValue_toDigits]
  rfl

theorem exists_toDigits_cons (number : Nat) :
    ∃ first rest, Nat.toDigits 10 number = first :: rest ∧ first.isDigit = true := by
  rcases List.exists_cons_of_ne_nil (Nat.toDigits_ne_nil (n := number) (b := 10)) with
    ⟨first, rest, shape⟩
  exact ⟨first, rest, shape, isDigit_of_mem_toDigits (shape ▸ List.mem_cons_self)⟩

theorem toList_toString_natCast (number : Nat) :
    (toString (number : Int)).toList = Nat.toDigits 10 number := by
  have shape : toString (number : Int) = Nat.repr number := rfl
  rw [shape, Nat.repr_eq_ofList_toDigits, String.toList_ofList]

theorem toList_toString_neg {number : Nat} (positive : 0 < number) :
    (toString (-(number : Int))).toList = '-' :: Nat.toDigits 10 number := by
  rcases Nat.exists_eq_add_of_le' positive with ⟨fewer, rfl⟩
  have shape : toString (-((fewer + 1 : Nat) : Int)) = "-" ++ Nat.repr (fewer + 1) := rfl
  rw [shape, Nat.repr_eq_ofList_toDigits]
  simp

/-- The text of a number is its sign, where it has one, and the digits of its size. -/
theorem splitSign_toString (number : Int) :
    splitSign (toString number).toList =
      (decide (number < 0), Nat.toDigits 10 number.natAbs) := by
  rcases Int.eq_nat_or_neg number with ⟨size, rfl | rfl⟩
  · rw [toList_toString_natCast]
    rcases exists_toDigits_cons size with ⟨first, rest, shape, digit⟩
    have noMinus : first ≠ '-' := by rintro rfl; exact absurd digit (by decide)
    have noPlus : first ≠ '+' := by rintro rfl; exact absurd digit (by decide)
    simp [splitSign, shape, noMinus, noPlus]
  · rcases Nat.eq_zero_or_pos size with rfl | positive
    · decide
    · rw [toList_toString_neg positive]
      simp [splitSign, positive]

theorem readInt64?_toString (number : Int) :
    readInt64? (toString number) =
      if fitsSigned number then some (Int64.ofInt number) else none := by
  have signed : (if decide (number < 0) then -(number.natAbs : Int) else number.natAbs) =
      number := by
    split
    · next negative =>
        rw [decide_eq_true_eq] at negative
        omega
    · next negative =>
        rw [decide_eq_true_eq] at negative
        omega
  simp only [readInt64?, splitSign_toString, readNatural?_toDigits, Option.bind_eq_bind,
    Option.bind_some, signed]

theorem readUInt64?_toString (number : Nat) :
    readUInt64? (toString (number : Int)) =
      if fitsUnsigned number then some (UInt64.ofNat number) else none := by
  rcases exists_toDigits_cons number with ⟨first, rest, shape, digit⟩
  have noPlus : first ≠ '+' := by rintro rfl; exact absurd digit (by decide)
  have read := readNatural?_toDigits number
  have text := toList_toString_natCast number
  rw [shape] at read text
  unfold readUInt64?
  rw [text]
  split
  · next plus => exact absurd (List.cons.inj plus).1 noPlus
  · dsimp only
    rw [read, Option.bind_eq_bind, Option.bind_some]

namespace Double

/-- Text that starts with a digit names neither an infinity nor anything that is no number. -/
theorem ne_word_of_isDigit {first : Char} {rest : List Char} (digit : first.isDigit = true)
    {word : String} {letter : Char} {letters : List Char} (named : word.toList = letter :: letters)
    (other : letter.isDigit = false) : (String.ofList (first :: rest) == word) = false := by
  rw [beq_eq_false_iff_ne]
  rintro rfl
  rw [String.toList_ofList] at named
  rw [(List.cons.inj named).1, other] at digit
  cases digit

theorem readFinite?_toDigits (negative : Bool) (number : Nat) :
    readFinite? negative (Nat.toDigits 10 number) = some (ofDecimal negative number 0) := by
  have digits : ∀ character ∈ Nat.toDigits 10 number, character.isDigit = true :=
    fun _ => isDigit_of_mem_toDigits
  have whole : (Nat.toDigits 10 number).takeWhile Char.isDigit = Nat.toDigits 10 number :=
    List.takeWhile_eq_self_iff.mpr digits
  have none : (Nat.toDigits 10 number).dropWhile Char.isDigit = [] :=
    List.dropWhile_eq_nil_iff.mpr digits
  simp [readFinite?, whole, none, readExponent?, digitsValue_toDigits]

/-- Whatever its size, the text of a number reads as the double nearest to it. -/
theorem read?_toString (number : Int) :
    read? (toString number) = some (ofDecimal (decide (number < 0)) number.natAbs 0) := by
  rcases exists_toDigits_cons number.natAbs with ⟨first, rest, shape, digit⟩
  have kept : (Nat.toDigits 10 number.natAbs).map Char.toLower =
      Nat.toDigits 10 number.natAbs := by
    conv_rhs => rw [← List.map_id (Nat.toDigits 10 number.natAbs)]
    exact List.map_congr_left fun _ member => toLower_of_isDigit (isDigit_of_mem_toDigits member)
  have notInf : (String.ofList (Nat.toDigits 10 number.natAbs) == "inf") = false :=
    shape ▸ ne_word_of_isDigit digit rfl (by decide)
  have notInfinity : (String.ofList (Nat.toDigits 10 number.natAbs) == "infinity") = false :=
    shape ▸ ne_word_of_isDigit digit rfl (by decide)
  have notNaN : (String.ofList (Nat.toDigits 10 number.natAbs) == "nan") = false :=
    shape ▸ ne_word_of_isDigit digit rfl (by decide)
  simp only [read?, splitSign_toString, kept, notInf, notInfinity, notNaN, Bool.or_self,
    Bool.false_eq_true, if_false, readFinite?_toDigits]

/-! The doubles between the greatest signed word and the greatest unsigned one are
`2 ^ 11` apart. -/

/-- A rounded quotient is off by half a unit at the most. -/
theorem roundQuotient_near (numerator : Nat) {denominator : Nat} (positive : 0 < denominator) :
    2 * (roundQuotient numerator denominator * denominator) ≤ 2 * numerator + denominator ∧
      2 * numerator ≤ 2 * (roundQuotient numerator denominator * denominator) + denominator := by
  have parts := Nat.div_add_mod numerator denominator
  have left := Nat.mod_lt numerator positive
  rw [Nat.mul_comm] at parts
  unfold roundQuotient
  dsimp only
  split
  · next up =>
      simp only [Bool.or_eq_true, decide_eq_true_eq, Bool.and_eq_true, beq_iff_eq] at up
      rw [Nat.add_mul]
      omega
  · next down =>
      simp only [Bool.or_eq_true, decide_eq_true_eq, Bool.and_eq_true, beq_iff_eq, not_or] at down
      omega

variable {number : Nat} (above : 2 ^ 63 ≤ number) (below : number < 2 ^ 64)

include above below

theorem nearestMagnitude_of_top_bit :
    nearestMagnitude number 1 = 1085 * 2 ^ 52 + roundQuotient number (2 ^ 11) ∧
      2 ^ 52 ≤ roundQuotient number (2 ^ 11) ∧ roundQuotient number (2 ^ 11) ≤ 2 ^ 53 := by
  have log : number.log2 = 63 := (Nat.log2_eq_iff (by omega)).mpr ⟨above, below⟩
  rcases roundQuotient_near number (by decide : 0 < 2 ^ 11) with ⟨low, high⟩
  have least : 2 ^ 52 ≤ roundQuotient number (2 ^ 11) := by omega
  have most : roundQuotient number (2 ^ 11) ≤ 2 ^ 53 := by omega
  refine ⟨?_, least, most⟩
  have floorLog : (number.log2 : Int) - Nat.log2 1 = 63 := by rw [log]; rfl
  have fitted : (scaleDown number 1 (63 - 53)).1 / (scaleDown number 1 (63 - 53)).2 ≥
      1 <<< 53 := by
    change number / 2 ^ 10 ≥ 2 ^ 53
    omega
  have exponent : max ((63 : Int) - 52) (-1074) = 11 := rfl
  have scaled : scaleDown number 1 11 = (number, 2 ^ 11) := rfl
  have offset : ((11 : Int) + 1074).toNat <<< 52 = 1085 * 2 ^ 52 := rfl
  have infinite : infinityBits = 2047 * 2 ^ 52 := rfl
  simp only [nearestMagnitude, floorLog, if_pos fitted, exponent, scaled, offset, infinite]
  omega

theorem decimalMagnitude_of_top_bit : decimalMagnitude number 0 = nearestMagnitude number 1 := by
  have short : digitCount number ≤ 20 :=
    (Nat.length_toDigits_le_iff (by decide) (by decide)).mpr (by omega)
  have given : number ≠ 0 := by omega
  have notLarge : ¬ ((digitCount number : Int) + 0 > 310) := by omega
  have notSmall : ¬ ((digitCount number : Int) + 0 < -330) := by omega
  have power : number * Nat.pow 10 (Int.toNat 0) = number := Nat.mul_one number
  simp only [decimalMagnitude, if_neg given, if_neg notLarge, if_neg notSmall, ge_iff_le,
    Int.le_refl, if_true, power]

omit above below in
/-- A magnitude of this size is a whole number of steps of `2 ^ 11`. -/
theorem ratio_ofMagnitude {steps : Nat} (least : 2 ^ 52 ≤ steps) (most : steps ≤ 2 ^ 53) :
    (ofMagnitude false (1085 * 2 ^ 52 + steps)).isFinite = true ∧
      (ofMagnitude false (1085 * 2 ^ 52 + steps)).isNegative = false ∧
      (ofMagnitude false (1085 * 2 ^ 52 + steps)).ratio = (steps * 2 ^ 11, 1) := by
  rcases Nat.lt_or_eq_of_le most with less | rfl
  · have bits : (ofMagnitude false (1085 * 2 ^ 52 + steps)).bits.toNat =
        1085 * 2 ^ 52 + steps := by
      refine UInt64.toNat_ofNat_of_lt' ?_
      simp only [Bool.false_eq_true, if_false, UInt64.size]
      omega
    have magnitude : (ofMagnitude false (1085 * 2 ^ 52 + steps)).magnitudeBits =
        1085 * 2 ^ 52 + steps := by
      rw [magnitudeBits, bits, Nat.shiftLeft_eq]
      omega
    have biased : (ofMagnitude false (1085 * 2 ^ 52 + steps)).biasedExponent = 1086 := by
      rw [biasedExponent, magnitude, Nat.shiftRight_eq_div_pow]
      omega
    have fraction' : (ofMagnitude false (1085 * 2 ^ 52 + steps)).fraction = steps - 2 ^ 52 := by
      rw [fraction, magnitude, Nat.shiftLeft_eq]
      omega
    have digits : (ofMagnitude false (1085 * 2 ^ 52 + steps)).significand = steps := by
      rw [significand, biased, fraction', Nat.shiftLeft_eq]
      simp only [Nat.reduceEqDiff, if_false]
      omega
    have power : (ofMagnitude false (1085 * 2 ^ 52 + steps)).exponent = 11 := by
      rw [exponent, biased]
      rfl
    refine ⟨?_, ?_, ?_⟩
    · rw [isFinite, magnitude, infinityBits, Nat.shiftLeft_eq, decide_eq_true_eq]
      omega
    · rw [isNegative, bits, Nat.shiftLeft_eq, decide_eq_false_iff_not]
      omega
    · rw [ratio, digits, power]
      exact Prod.ext (Nat.shiftLeft_eq _ _) rfl
  · decide

end Double

/-- The doubles are too far apart there to tell each number from its neighbours. -/
theorem Double.near_of_top_bit {number : Nat} (above : 2 ^ 63 ≤ number) (below : number < 2 ^ 64) :
    ∃ whole, (ofDecimal false number 0).isFinite = true ∧
      (ofDecimal false number 0).isNegative = false ∧
      (ofDecimal false number 0).ratio = (whole, 1) ∧
      whole ≤ number + 2 ^ 10 ∧ number ≤ whole + 2 ^ 10 := by
  rcases nearestMagnitude_of_top_bit above below with ⟨magnitude, least, most⟩
  rcases roundQuotient_near number (by decide : 0 < 2 ^ 11) with ⟨low, high⟩
  rcases ratio_ofMagnitude least most with ⟨finite, positive, ratio⟩
  rw [ofDecimal, decimalMagnitude_of_top_bit above below, magnitude]
  exact ⟨_, finite, positive, ratio, by omega, by omega⟩

/-! Words of 64 bits. -/

theorem fitsSigned_iff {number : Int} :
    fitsSigned number = true ↔ -2 ^ 63 ≤ number ∧ number < 2 ^ 63 := by
  have least : Int64.minValue.toInt = -2 ^ 63 := rfl
  have most : Int64.maxValue.toInt = 2 ^ 63 - 1 := rfl
  simp only [fitsSigned, least, most, Bool.and_eq_true, decide_eq_true_eq]
  omega

theorem fitsUnsigned_iff {number : Int} :
    fitsUnsigned number = true ↔ 0 ≤ number ∧ number < 2 ^ 64 := by
  simp only [fitsUnsigned, UInt64.size, Bool.and_eq_true, decide_eq_true_eq]
  omega

theorem map_toNat_readCount_integer {number : Nat} (fits : number < 2 ^ 64) :
    (readCount (.integer number)).map UInt64.toNat = .ok number := by
  have unsigned : fitsUnsigned number = true := fitsUnsigned_iff.mpr (by omega)
  have held : (UInt64.ofNat number).toNat = number := UInt64.toNat_ofNat_of_lt' fits
  rw [readCount, if_pos unsigned, Int.toNat_natCast, Except.map, held]

theorem map_toNat_readCount_text {number : Nat} (fits : number < 2 ^ 64) :
    (readCount (.text (toString (number : Int)))).map UInt64.toNat = .ok number := by
  have unsigned : fitsUnsigned number = true := fitsUnsigned_iff.mpr (by omega)
  have held : (UInt64.ofNat number).toNat = number := UInt64.toNat_ofNat_of_lt' fits
  simp only [readCount, readUInt64?_toString, unsigned, if_true, Except.map, held]

namespace MySql

theorem readDecimal_of_fitsSigned {number : Int} (fits : fitsSigned number = true) :
    readDecimal (toString number) = .integer number := by
  rcases fitsSigned_iff.mp fits with ⟨least, most⟩
  have held : (Int64.ofInt number).toInt = number := Int64.toInt_ofInt_of_le least most
  simp only [readDecimal, readInt64?_toString, fits, if_true, held]

/-- Beyond the greatest signed word the nearest double stands for the number. -/
theorem readDecimal_of_top_bit {number : Nat} (above : 2 ^ 63 ≤ number)
    (below : number < 2 ^ 64) :
    readDecimal (toString (number : Int)) = .double (.ofDecimal false number 0) := by
  have unsigned : fitsSigned number = false := by
    rw [Bool.eq_false_iff, Ne, fitsSigned_iff]
    omega
  rcases Double.near_of_top_bit above below with ⟨_, finite, -⟩
  have negative : decide ((number : Int) < 0) = false := by simp
  simp only [readDecimal, readInt64?_toString, unsigned, Bool.false_eq_true, if_false,
    Double.read?_toString, negative, Int.natAbs_natCast, finite, if_true]

/-- Decimal text of a whole number within 64 bits, signed or not, reads as that number if and
only if a signed word holds it. A greater number reads as a double that may be `2 ^ 10` off, and
is no count then, although the number itself is one, and so is its text. -/
theorem whole_decimals_read_iff (number : Int) (least : -2 ^ 63 ≤ number)
    (most : number < 2 ^ 64) :
    ((Cell.text (toString number)).read .decimal = .integer number ↔ number < 2 ^ 63) ∧
    (2 ^ 63 ≤ number →
      ∃ double whole, (Cell.text (toString number)).read .decimal = .double double ∧
        double.isFinite = true ∧ double.isNegative = false ∧ double.ratio = (whole, 1) ∧
        whole ≤ number.toNat + 2 ^ 10 ∧ number.toNat ≤ whole + 2 ^ 10 ∧
        readCount (readDecimal (toString number)) =
          .error (.execution (.negativeCount (Json.double double).render))) ∧
    (0 ≤ number →
      (readCount (.integer number)).map UInt64.toNat = .ok number.toNat ∧
      (readCount (.text (toString number))).map UInt64.toNat = .ok number.toNat ∧
      ((readCount (readDecimal (toString number))).map UInt64.toNat = .ok number.toNat ↔
        number < 2 ^ 63)) := by
  have within : number < 2 ^ 63 → readDecimal (toString number) = .integer number := fun less =>
    readDecimal_of_fitsSigned (fitsSigned_iff.mpr ⟨least, less⟩)
  have beyond : 2 ^ 63 ≤ number →
      readDecimal (toString number) = .double (.ofDecimal false number.toNat 0) := by
    intro above
    have whole : (number.toNat : Int) = number := Int.toNat_of_nonneg (by omega)
    have least : 2 ^ 63 ≤ number.toNat := by omega
    have read := readDecimal_of_top_bit least (by omega)
    rwa [whole] at read
  refine ⟨⟨?_, within⟩, ?_, ?_⟩
  · intro read
    by_contra notLess
    have other := (beyond (by omega)).symm.trans read
    cases other
  · intro above
    have least : 2 ^ 63 ≤ number.toNat := by omega
    rcases Double.near_of_top_bit least (by omega) with
      ⟨whole, finite, positive, ratio, near, close⟩
    exact ⟨_, whole, beyond above, finite, positive, ratio, near, close, by rw [beyond above]; rfl⟩
  · intro positive
    rcases Int.eq_ofNat_of_zero_le positive with ⟨count, rfl⟩
    have fits : count < 2 ^ 64 := by omega
    refine ⟨map_toNat_readCount_integer fits, map_toNat_readCount_text fits, ?_, ?_⟩
    · intro counted
      by_contra notLess
      rw [beyond (by omega)] at counted
      cases counted
    · intro less
      rw [within less]
      exact map_toNat_readCount_integer fits

theorem whole_decimals_read_iff_greatest_signed :
    -2 ^ 63 ≤ (9223372036854775807 : Int) ∧ (9223372036854775807 : Int) < 2 ^ 64 ∧
      (Cell.text "9223372036854775807").read .decimal = .integer 9223372036854775807 ∧
      (readCount (readDecimal "9223372036854775807")).map UInt64.toNat =
        .ok 9223372036854775807 := by
  rcases whole_decimals_read_iff 9223372036854775807 (by decide) (by decide) with
    ⟨read, -, counted⟩
  exact ⟨by decide, by decide, read.mpr (by decide), (counted (by decide)).2.2.mpr (by decide)⟩

/-- The greatest unsigned word is read as the power of two behind it, and is no count. -/
theorem greatest_word_rounded :
    toString ((2 : Int) ^ 64 - 1) = "18446744073709551615" ∧
      (Cell.text "18446744073709551615").read .decimal = .double ⟨0x43F0000000000000⟩ ∧
      (Double.mk 0x43F0000000000000).ratio = (2 ^ 64, 1) ∧
      (readCount (.text "18446744073709551615")).map UInt64.toNat = .ok (2 ^ 64 - 1) ∧
      readCount (readDecimal "18446744073709551615") =
        .error (.execution (.negativeCount "1.8446744073709552e+19")) :=
  ⟨rfl, rfl, rfl, rfl, rfl⟩

end MySql

end EntitySql
