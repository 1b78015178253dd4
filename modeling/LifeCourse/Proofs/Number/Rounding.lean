import LifeCourse.Number.Range
import Mathlib

/-!
# Rounding to 53 bits

A positive number with 64 bits is a whole number of at most 53 bits, its mantissa, times a power of
two, whose exponent is at least -1074.  An operation computes a mantissa of any size with an exponent
of any size, and rounds: it drops bits from the end of the mantissa until 53 are left and the
exponent is great enough, adds one or not, and drops one more bit if there are 54 now.

Nothing is said here about how near the outcome is.  What is followed through the two steps is the
exponent (`roundWithAccuracy_eq`), because a number is finite as long as its exponent is small, and
whether anything is left of the mantissa, because a number is positive as long as something is.  Both
survive when the number is put into its 64 bits and taken out again (`unpack_pack`).
-/

namespace LifeCourse
namespace Rounding

open Float.Model Float.Model.UnpackedFloat

/-! ## Dropping bits -/

/-- How many bits rounding drops from the end of a mantissa. -/
def surplus (m : Nat) (e : Int) : Nat :=
  (max (m.log2 + e - 52) (-1074) - e).toNat

theorem surplus_eq (m : Nat) (e : Int) :
    (Format.targetExponent Format.binary64 (totalExponent m e) - e).toNat = surplus m e := by
  have hbits : Format.binary64.mantissaBits = 53 := rfl
  have hleast : Format.binary64.minExponent = -1074 := rfl
  rw [Format.targetExponent, hbits, hleast, totalExponent, surplus]
  omega

/-- From an exponent that is great enough only the bits beyond 53 are dropped. -/
theorem surplus_of_le {m : Nat} {e : Int} (h : -1074 ≤ e) : surplus m e = m.log2 - 52 := by
  unfold surplus
  omega

/-- At most 53 bits are left. -/
theorem div_surplus_lt (m : Nat) (e : Int) : m / 2 ^ surplus m e < 2 ^ 53 := by
  refine Nat.div_lt_of_lt_mul ?_
  rw [← Nat.pow_add]
  refine Nat.lt_of_lt_of_le Nat.lt_log2_self (Nat.pow_le_pow_right (by decide) ?_)
  unfold surplus
  omega

/-- From an exponent that is great enough something is left. -/
theorem div_surplus_pos {m : Nat} {e : Int} (hm : 0 < m) (he : -1074 ≤ e) :
    0 < m / 2 ^ surplus m e := by
  have hself := Nat.log2_self_le (Nat.ne_of_gt hm)
  rw [surplus_of_le he]
  exact Nat.div_pos (Nat.le_trans (Nat.pow_le_pow_right (by decide) (by omega)) hself)
    (Nat.two_pow_pos _)

theorem mantissa_shiftRight (em : ExtendedMantissa) (n : Nat) :
    (em >>> n).mantissa = em.mantissa / 2 ^ n := by
  show (Nat.repeat ExtendedMantissa.shiftRightOne n em).mantissa = _
  induction n with
  | zero => exact (Nat.div_one _).symm
  | succ n ih =>
    show (Nat.repeat ExtendedMantissa.shiftRightOne n em).mantissa / 2 = _
    rw [ih, Nat.div_div_eq_div_mul, ← Nat.pow_succ]

/-- The bit that was dropped last decides whether one may be added. -/
theorem roundBit_shiftRight_succ (em : ExtendedMantissa) (n : Nat) :
    (em >>> (n + 1)).roundBit = (em.mantissa / 2 ^ n % 2 != 0) := by
  rw [← mantissa_shiftRight]
  rfl

theorem mantissa_ofMantissaAndAccuracy (m : Nat) (accuracy : Accuracy) :
    (ExtendedMantissa.ofMantissaAndAccuracy m accuracy).mantissa = m := by
  unfold ExtendedMantissa.ofMantissaAndAccuracy
  split <;> rfl

/-- Rounding adds one or nothing. -/
theorem roundedMantissa_cases (em : ExtendedMantissa) :
    em.mantissa ≤ em.roundedMantissa ∧ em.roundedMantissa ≤ em.mantissa + 1 := by
  have heven := Nat.mod_lt em.mantissa (show 0 < 2 by decide)
  unfold ExtendedMantissa.roundedMantissa Accuracy.roundToNearestEven
  split <;> omega

/-- If less than half a unit was dropped, nothing is added. -/
theorem roundedMantissa_of_roundBit {em : ExtendedMantissa} (h : em.roundBit = false) :
    em.roundedMantissa = em.mantissa := by
  obtain ⟨m, roundBit, stickyBit⟩ := em
  cases h
  cases stickyBit <;> rfl

theorem shiftToTargetExponent_eq (m : Nat) (e : Int) (accuracy : Accuracy) :
    shiftToTargetExponent Format.binary64 m e accuracy =
      (ExtendedMantissa.ofMantissaAndAccuracy m accuracy >>> surplus m e, e + surplus m e) := by
  rw [shiftToTargetExponent, shiftToExponent, surplus_eq]

/-! ## Rounding -/

/-- The mantissa after the first of the two steps. -/
def rounded (m : Nat) (e : Int) (accuracy : Accuracy) : Nat :=
  (ExtendedMantissa.ofMantissaAndAccuracy m accuracy >>> surplus m e).roundedMantissa

theorem rounded_cases (m : Nat) (e : Int) (accuracy : Accuracy) :
    m / 2 ^ surplus m e ≤ rounded m e accuracy ∧
      rounded m e accuracy ≤ m / 2 ^ surplus m e + 1 := by
  have hcases := roundedMantissa_cases
    (ExtendedMantissa.ofMantissaAndAccuracy m accuracy >>> surplus m e)
  rwa [mantissa_shiftRight, mantissa_ofMantissaAndAccuracy] at hcases

/-- If the bits that are dropped begin with a zero, the others are all there is. -/
theorem rounded_of_even {m : Nat} {e : Int} (accuracy : Accuracy) {n : Nat}
    (hn : surplus m e = n + 1) (heven : m / 2 ^ n % 2 = 0) :
    rounded m e accuracy = m / 2 ^ surplus m e := by
  have hbit : (ExtendedMantissa.ofMantissaAndAccuracy m accuracy >>> surplus m e).roundBit =
      false := by
    rw [hn, roundBit_shiftRight_succ, mantissa_ofMantissaAndAccuracy, heven]
    rfl
  rw [rounded, roundedMantissa_of_roundBit hbit, mantissa_shiftRight,
    mantissa_ofMantissaAndAccuracy]

/-- A number that is put together from a mantissa and an exponent, unless nothing is left of it. -/
def positive (m : Nat) (e : Int) : UnpackedFloat :=
  if h : m = 0 then .zero .positive else .finite .positive m e (Nat.pos_of_ne_zero h)

/-- **What rounding comes to.** -/
theorem roundWithAccuracy_eq (m : Nat) (e : Int) (accuracy : Accuracy) :
    roundWithAccuracy Format.binary64 .positive m e accuracy =
      positive (rounded m e accuracy / 2 ^ ((rounded m e accuracy).log2 - 52))
        (e + surplus m e + ((rounded m e accuracy).log2 - 52 : Nat)) := by
  have hleast : -1074 ≤ e + surplus m e := by
    unfold surplus
    omega
  rw [roundWithAccuracy, shiftToTargetExponent_eq]
  dsimp only
  rw [shiftToTargetExponent_eq]
  dsimp only
  rw [← rounded, surplus_of_le hleast]
  simp only [mantissa_shiftRight, mantissa_ofMantissaAndAccuracy]
  rfl

/-! ## Small numbers -/

/-- A number that is zero, or is positive and has a mantissa of 53 bits and an exponent between -1074
and `bound`. -/
inductive Upto (bound : Int) : UnpackedFloat → Prop
  | zero (sign : Sign) : Upto bound (.zero sign)
  | finite {m : Nat} {e : Int} (hm : 0 < m) (hlt : m < 2 ^ 53) (hleast : -1074 ≤ e)
      (hle : e ≤ bound) : Upto bound (.finite .positive m e hm)

/-- A positive number. -/
inductive Positive : UnpackedFloat → Prop
  | finite {m : Nat} {e : Int} (hm : 0 < m) : Positive (.finite .positive m e hm)

theorem upto_positive {m : Nat} {e bound : Int} (hlt : m < 2 ^ 53) (hleast : -1074 ≤ e)
    (hle : e ≤ bound) : Upto bound (positive m e) := by
  unfold positive
  split
  · exact .zero .positive
  · exact .finite _ hlt hleast hle

theorem Upto.mono {bound bound' : Int} {u : UnpackedFloat} (h : Upto bound u)
    (hle : bound ≤ bound') : Upto bound' u := by
  cases h with
  | zero sign => exact .zero sign
  | finite hm hlt hleast hle' => exact .finite hm hlt hleast (Int.le_trans hle' hle)

/-- Rounding raises the exponent until 53 bits are left, and perhaps by one more. -/
theorem upto_roundWithAccuracy {m : Nat} {e bound : Int} (accuracy : Accuracy)
    (h : max e (max (m.log2 + e - 52) (-1074)) < bound) :
    Upto bound (roundWithAccuracy Format.binary64 .positive m e accuracy) := by
  have hsurplus : e + surplus m e = max e (max (m.log2 + e - 52) (-1074)) := by
    unfold surplus
    omega
  obtain ⟨-, hle⟩ := rounded_cases m e accuracy
  have hlt := div_surplus_lt m e
  have hlog : (rounded m e accuracy).log2 < 54 := by
    by_cases hzero : rounded m e accuracy = 0
    · rw [hzero]
      decide
    · exact (Nat.log2_lt hzero).mpr (by omega)
  have hleast : -1074 ≤ e + surplus m e := by omega
  rw [roundWithAccuracy_eq]
  refine upto_positive ?_ (by omega) (by omega)
  rw [← surplus_of_le hleast]
  exact div_surplus_lt _ _

/-- If the bits that are dropped begin with a zero, the exponent is raised no more than that. -/
theorem upto_roundWithAccuracy_of_even {m : Nat} {e bound : Int} (accuracy : Accuracy) {n : Nat}
    (hn : surplus m e = n + 1) (heven : m / 2 ^ n % 2 = 0) (hleast : -1074 ≤ e)
    (h : e + (n + 1 : Nat) ≤ bound) :
    Upto bound (roundWithAccuracy Format.binary64 .positive m e accuracy) := by
  have hlt := div_surplus_lt m e
  have hlog : (rounded m e accuracy).log2 < 53 := by
    rw [rounded_of_even accuracy hn heven]
    by_cases hzero : m / 2 ^ surplus m e = 0
    · rw [hzero]
      decide
    · exact (Nat.log2_lt hzero).mpr hlt
  have hnone : (rounded m e accuracy).log2 - 52 = 0 := by omega
  rw [roundWithAccuracy_eq, hnone, Nat.pow_zero, Nat.div_one, rounded_of_even accuracy hn heven]
  exact upto_positive hlt (by omega) (by omega)

/-- From an exponent that is great enough a positive number stays positive. -/
theorem positive_roundWithAccuracy {m : Nat} {e : Int} (accuracy : Accuracy) (hm : 0 < m)
    (he : -1074 ≤ e) : Positive (roundWithAccuracy Format.binary64 .positive m e accuracy) := by
  have hrounded : 0 < rounded m e accuracy :=
    Nat.lt_of_lt_of_le (div_surplus_pos hm he) (rounded_cases m e accuracy).1
  have hpos := div_surplus_pos hrounded (Int.le_refl (-1074))
  rw [surplus_of_le (Int.le_refl _)] at hpos
  rw [roundWithAccuracy_eq, positive, dif_neg (Nat.ne_of_gt hpos)]
  exact .finite hpos

/-! ## Exact numbers -/

/-- An exact number is given zeros at its end until it has 53 bits, or the exponent is the least
one; then it is rounded. -/
theorem round_eq (m : Nat) (e : Int) :
    ∃ n : Nat, (n : Int) = max 0 (e - max (m.log2 + e - 52) (-1074)) ∧
      UnpackedFloat.round Format.binary64 .positive m e =
        roundWithAccuracy Format.binary64 .positive (m <<< n) (e - n) .exact := by
  have htarget : Format.targetExponent Format.binary64 (totalExponent m e) =
      max (m.log2 + e - 52) (-1074) := by
    have hbits : Format.binary64.mantissaBits = 53 := rfl
    have hleast : Format.binary64.minExponent = -1074 := rfl
    rw [Format.targetExponent, hbits, hleast, totalExponent]
    omega
  refine ⟨(e - max (m.log2 + e - 52) (-1074)).toNat, by omega, ?_⟩
  rw [UnpackedFloat.round, htarget]
  rfl

theorem log2_shiftLeft {m : Nat} (hm : 0 < m) (n : Nat) : (m <<< n).log2 = m.log2 + n := by
  rw [Nat.shiftLeft_eq]
  refine (Nat.log2_eq_iff (Nat.ne_of_gt (Nat.mul_pos hm (Nat.two_pow_pos n)))).mpr ⟨?_, ?_⟩
  · rw [Nat.pow_add]
    exact Nat.mul_le_mul_right _ (Nat.log2_self_le (Nat.ne_of_gt hm))
  · rw [Nat.add_right_comm, Nat.pow_add]
    exact Nat.mul_lt_mul_of_pos_right Nat.lt_log2_self (Nat.two_pow_pos n)

theorem upto_round {m : Nat} {e bound : Int} (hm : 0 < m)
    (h : max (m.log2 + e - 52) (-1074) < bound) :
    Upto bound (UnpackedFloat.round Format.binary64 .positive m e) := by
  obtain ⟨n, hn, hround⟩ := round_eq m e
  rw [hround]
  refine upto_roundWithAccuracy .exact ?_
  rw [log2_shiftLeft hm]
  omega

theorem upto_round_of_even {m : Nat} {e bound : Int} {n : Nat} (hlog : m.log2 = 53 + n)
    (heven : m / 2 ^ n % 2 = 0) (hleast : -1074 ≤ e) (h : e + (n + 1 : Nat) ≤ bound) :
    Upto bound (UnpackedFloat.round Format.binary64 .positive m e) := by
  obtain ⟨n', hn', hround⟩ := round_eq m e
  obtain rfl : n' = 0 := by omega
  rw [hround]
  refine upto_roundWithAccuracy_of_even .exact (n := n) ?_ heven (by omega) (by omega)
  rw [surplus_of_le (by omega)]
  show m.log2 - 52 = n + 1
  omega

theorem positive_round {m : Nat} {e : Int} (hm : 0 < m) (he : -1074 ≤ e) :
    Positive (UnpackedFloat.round Format.binary64 .positive m e) := by
  obtain ⟨n, hn, hround⟩ := round_eq m e
  rw [hround]
  refine positive_roundWithAccuracy .exact ?_ (by omega)
  rw [Nat.shiftLeft_eq]
  exact Nat.mul_pos hm (Nat.two_pow_pos n)

/-! ## Sixty-four bits -/

/-- The bits of a number whose exponent is in use. -/
theorem unpack_packComponents_of_ne_zero {exponent : BitVec 11} (mantissa : BitVec 52)
    (htop : exponent ≠ -1#11) (hzero : exponent ≠ 0#11) {bound : Int}
    (hbound : (exponent.toNat : Int) - 1075 ≤ bound) :
    let u := UnpackedFloat.unpack Format.binary64
      (packComponents Format.binary64 .positive exponent mantissa)
    Upto bound u ∧ Positive u := by
  have hpos : 0 < exponent.toNat := by
    refine Nat.pos_of_ne_zero fun h => hzero (BitVec.eq_of_toNat_eq ?_)
    rw [h]
    rfl
  have hbias : Format.binary64.exponentBias = 1023 := rfl
  have hlt := (1#1 ++ mantissa).isLt
  simp only [UnpackedFloat.unpack, unpackExponent_packComponents, unpackMantissa_packComponents,
    unpackSign_packComponents, Sign.ofBitVec_toBitVec]
  rw [if_neg htop, if_neg hzero, hbias]
  exact ⟨.finite _ hlt (by omega) (by omega), .finite _⟩

/-- The bits of a number whose exponent is not in use. -/
theorem unpack_packComponents_zero (mantissa : BitVec 52) {bound : Int} (hbound : -1074 ≤ bound) :
    let u := UnpackedFloat.unpack Format.binary64
      (packComponents Format.binary64 .positive 0#11 mantissa)
    Upto bound u ∧ (mantissa ≠ 0#52 → Positive u) := by
  have hbias : Format.binary64.exponentBias = 1023 := rfl
  have hlt := mantissa.isLt
  simp only [UnpackedFloat.unpack, unpackExponent_packComponents, unpackMantissa_packComponents,
    unpackSign_packComponents, Sign.ofBitVec_toBitVec]
  rw [if_neg (by decide), if_pos trivial]
  split
  · rename_i hzero
    exact ⟨.zero _, fun hne => absurd hzero hne⟩
  · rw [hbias]
    exact ⟨.finite _ (by omega) (by decide) hbound, fun _ => .finite _⟩

/-- **A number that is not too great is packed as one that is not greater.** -/
theorem unpack_pack {u : UnpackedFloat} {bound : Int} (h : Upto bound u) (hbound : bound ≤ 971) :
    Upto bound (Float.Model.pack u).unpack ∧
      (Positive u → Positive (Float.Model.pack u).unpack) := by
  cases h with
  | zero sign =>
    refine ⟨?_, fun h => by cases h⟩
    cases sign
    · exact .zero .negative
    · exact .zero .positive
  | @finite m e hm hlt hleast hle =>
    have hbias : Format.binary64.exponentBias = 1023 := rfl
    have hbits : Format.binary64.mantissaBits = 53 := rfl
    unfold Float.Model.unpack Float.Model.pack
    simp only [UnpackedFloat.pack, hbias, hbits]
    rw [if_neg (by omega)]
    split
    · have hexponent : (BitVec.ofNat 11 (e + 1023 + 52).toNat).toNat = (e + 1075).toNat := by
        rw [BitVec.toNat_ofNat, Nat.mod_eq_of_lt (by omega)]
        omega
      have hne : ∀ n : BitVec 11, n.toNat ≠ (e + 1075).toNat →
          BitVec.ofNat 11 (e + 1023 + 52).toNat ≠ n := by
        rintro n hn rfl
        exact hn hexponent
      have hle' : ((BitVec.ofNat 11 (e + 1023 + 52).toNat).toNat : Int) - 1075 ≤ bound := by
        rw [hexponent]
        omega
      have hunpack := unpack_packComponents_of_ne_zero (BitVec.ofNat 52 m)
        (hne _ (by simp; omega)) (hne _ (by simp; omega)) hle'
      exact ⟨hunpack.1, fun _ => hunpack.2⟩
    · rename_i hlog
      have hsmall : m < 2 ^ 52 := by
        have := (Nat.log2_lt (Nat.ne_of_gt hm) (k := 53)).mpr hlt
        exact (Nat.log2_lt (Nat.ne_of_gt hm)).mp (by omega)
      have hunpack := unpack_packComponents_zero (BitVec.ofNat 52 m) (Int.le_trans hleast hle)
      refine ⟨hunpack.1, fun _ => hunpack.2 fun hzero => ?_⟩
      have hm' := congrArg BitVec.toNat hzero
      rw [BitVec.toNat_ofNat, Nat.mod_eq_of_lt hsmall] at hm'
      exact absurd hm' (Nat.ne_of_gt hm)

/-- What is taken out of 64 bits has a mantissa of 53 bits, and of no fewer unless the exponent is the
least one. -/
theorem unpack_finite {x : Float.Model} {sign : Sign} {m : Nat} {e : Int} {hm : 0 < m}
    (h : x.unpack = .finite sign m e hm) :
    m < 2 ^ 53 ∧ -1074 ≤ e ∧ (2 ^ 52 ≤ m ∨ e = -1074) := by
  have hbias : Format.binary64.exponentBias = 1023 := rfl
  unfold Float.Model.unpack UnpackedFloat.unpack at h
  rw [hbias] at h
  dsimp only at h
  split at h
  · split at h <;> cases h
  · split at h
    · rename_i hzero
      split at h
      · cases h
      · cases h
        have hlt := (@unpackMantissa Format.binary64 x.toBits.toBitVec).isLt
        rw [hzero]
        exact ⟨by omega, by decide, .inr rfl⟩
    · rename_i hzero
      cases h
      have hlt := (@unpackMantissa Format.binary64 x.toBits.toBitVec).isLt
      have hpos : 0 < (@unpackExponent Format.binary64 x.toBits.toBitVec).toNat := by
        refine Nat.pos_of_ne_zero fun h => hzero (BitVec.eq_of_toNat_eq ?_)
        rw [h]
        rfl
      refine ⟨(1#1 ++ @unpackMantissa Format.binary64 x.toBits.toBitVec).isLt, ?_, .inl ?_⟩
      · omega
      · rw [BitVec.toNat_append]
        exact Nat.left_le_or

end Rounding
end LifeCourse
