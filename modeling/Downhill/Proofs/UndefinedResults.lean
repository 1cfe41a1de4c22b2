import Downhill.Vector
import Downhill.Proofs.SpecialValues

/-!
# Results that are no numbers

A difference is no number only if an operand is none or both are the same infinity. Numbers without
a negative sign are safe: their sums, their roots and the squares of all numbers are numbers again,
so a length is no number only if a coordinate is none. A quotient by a positive finite number is
safe too, and a finite number with a small positive one added to it never overflows.
-/

namespace Downhill
open Float.Model Float.Model.UnpackedFloat

/-! ### Signs and packing -/

/-- Not below zero. That a number is none, or a zero with a sign, does not make it negative. -/
inductive IsNotNegative : UnpackedFloat → Prop
  | notANumber : IsNotNegative .notANumber
  | zero (s : Sign) : IsNotNegative (.zero s)
  | infinity : IsNotNegative (.infinity .positive)
  | finite (m : ℕ) (e : ℤ) (hm : 0 < m) : IsNotNegative (.finite .positive m e hm)

/-- A finite number other than zero with a mantissa and an exponent of the format. -/
def Fits (S : Format) : UnpackedFloat → Prop
  | .finite _ m e _ => m < 2 ^ S.mantissaBits ∧ S.minExponent ≤ e ∧
      e + S.mantissaBitsWithoutImplicit ≤ S.exponentBias
  | .infinity _ | .zero _ | .notANumber => False

section Packing

variable {S : Format} {a : UnpackedFloat}

/-- What components that do not stand for an infinity or for no number unpack to. -/
lemma unpack_packComponents_cases (s : Sign) {exponent : BitVec S.exponentBits}
    {mantissa : BitVec S.mantissaBitsWithoutImplicit} (hspecial : exponent ≠ -1#_) :
    UnpackedFloat.unpack S (packComponents S s exponent mantissa) = .zero s ∨
      ∃ m e hm, UnpackedFloat.unpack S (packComponents S s exponent mantissa) =
        .finite s m e hm := by
  unfold UnpackedFloat.unpack
  simp only [unpackExponent_packComponents, unpackMantissa_packComponents,
    unpackSign_packComponents, Sign.ofBitVec_toBitVec, if_neg hspecial]
  split_ifs with hexponent hmantissa
  · exact .inl rfl
  · exact .inr ⟨_, _, BitVec.toNat_pos_of_ne_zero hmantissa, rfl⟩
  · exact .inr ⟨_, _, by simp, rfl⟩

/-- A finite number is packed as an infinity, as a zero or as a finite number of its sign. It is
packed as an infinity only if its exponent is out of range. -/
lemma unpack_pack_finite_cases (s : Sign) (m : ℕ) (e : ℤ) (hm : 0 < m) :
    (UnpackedFloat.unpack S (UnpackedFloat.pack S (.finite s m e hm)) = .infinity s ∧
      S.exponentBias < e + S.mantissaBitsWithoutImplicit) ∨
    UnpackedFloat.unpack S (UnpackedFloat.pack S (.finite s m e hm)) = .zero s ∨
    ∃ m' e' hm', UnpackedFloat.unpack S (UnpackedFloat.pack S (.finite s m e hm)) =
      .finite s m' e' hm' := by
  have hcapacity := two_pow_exponentBits (S := S)
  rw [UnpackedFloat.pack]
  obtain ⟨k, hk⟩ : ∃ k, (e + S.exponentBias + S.mantissaBitsWithoutImplicit).toNat = k := ⟨_, rfl⟩
  simp only [hk]
  split_ifs with hlarge hnormal
  · exact .inl ⟨unpack_packedInfinity s, by omega⟩
  · refine .inr (unpack_packComponents_cases s fun h => ?_)
    have hk' : (BitVec.ofNat S.exponentBits k).toNat = k :=
      (BitVec.toNat_ofNat ..).trans (Nat.mod_eq_of_lt (by omega))
    rw [h, BitVec.neg_one_eq_allOnes, BitVec.toNat_allOnes] at hk'
    omega
  · refine .inr (unpack_packComponents_cases s fun h => ?_)
    have h' := congrArg BitVec.toNat h
    rw [BitVec.neg_one_eq_allOnes, BitVec.toNat_allOnes, BitVec.toNat_zero] at h'
    omega

lemma isNaN_unpack_pack :
    (UnpackedFloat.unpack S (UnpackedFloat.pack S a)).isNaN = a.isNaN := by
  cases a with
  | infinity s => exact congrArg UnpackedFloat.isNaN (unpack_packedInfinity s)
  | notANumber => exact congrArg UnpackedFloat.isNaN unpack_packedNaN
  | zero s => exact congrArg UnpackedFloat.isNaN unpack_packedZero
  | finite s m e hm =>
    obtain ⟨h, -⟩ | h | ⟨_, _, _, h⟩ := unpack_pack_finite_cases (S := S) s m e hm <;>
      · rw [h]
        rfl

lemma isNotNegative_unpack_pack (h : IsNotNegative a) :
    IsNotNegative (UnpackedFloat.unpack S (UnpackedFloat.pack S a)) := by
  cases h with
  | notANumber => exact unpack_packedNaN.symm ▸ .notANumber
  | zero s => exact unpack_packedZero.symm ▸ .zero s
  | infinity => exact (unpack_packedInfinity .positive).symm ▸ .infinity
  | finite m e hm =>
    obtain ⟨h, -⟩ | h | ⟨m', e', hm', h⟩ := unpack_pack_finite_cases (S := S) .positive m e hm
    · exact h ▸ .infinity
    · exact h ▸ .zero .positive
    · exact h ▸ .finite m' e' hm'

/-- A number that fits is packed as a finite number other than zero. -/
lemma unpack_pack_of_fits (h : Fits S a) : ∃ s m e hm,
    UnpackedFloat.unpack S (UnpackedFloat.pack S a) = .finite s m e hm := by
  cases a with
  | infinity | notANumber | zero => exact h.elim
  | finite s m e hm =>
    obtain ⟨hfits, hlow, hhigh⟩ := h
    have hnonzero := isNonzero_unpack_pack s hm hfits hlow
    obtain ⟨-, hlarge⟩ | hzero | hfinite := unpack_pack_finite_cases (S := S) s m e hm
    · omega
    · rw [hzero] at hnonzero
      exact hnonzero.elim
    · exact ⟨s, hfinite⟩

end Packing

/-! ### Rounding without overflow -/

section Rounding

variable {S : Format}

lemma roundWithAccuracy_cases (s : Sign) (m : ℕ) (e : ℤ) (accuracy : Accuracy) :
    roundWithAccuracy S s m e accuracy = .zero s ∨
      ∃ m' e' hm', roundWithAccuracy S s m e accuracy = .finite s m' e' hm' := by
  simp only [roundWithAccuracy]
  split_ifs with hzero
  · exact .inl rfl
  · exact .inr ⟨_, _, Nat.pos_of_ne_zero hzero, rfl⟩

lemma normalize_of_pos {m : ℕ} (hm : 0 < m) (e : ℤ) (s : Sign) :
    UnpackedFloat.normalize S m e s = UnpackedFloat.round S .positive m e := by
  have hcompare : compare (m : ℤ) 0 = .gt := compare_gt_iff_gt.mpr (Int.natCast_pos.mpr hm)
  simp only [UnpackedFloat.normalize, hcompare, Int.toNat_natCast]

lemma roundedMantissa_le (em : ExtendedMantissa) : em.roundedMantissa ≤ em.mantissa + 1 := by
  obtain ⟨m, _ | _, _ | _⟩ := em <;>
    simp only [ExtendedMantissa.roundedMantissa, ExtendedMantissa.accuracy,
      Accuracy.roundToNearestEven] <;> omega

lemma roundedMantissa_of_roundBit {em : ExtendedMantissa} (h : em.roundBit = false) :
    em.roundedMantissa = em.mantissa := by
  obtain ⟨m, _ | _, _ | _⟩ := em <;> first | rfl | cases h

lemma roundBit_shiftRight_succ (em : ExtendedMantissa) (k : ℕ) :
    (em >>> (k + 1)).roundBit = (em.mantissa / 2 ^ k % 2 != 0) := by
  rw [← mantissa_shiftRight]
  rfl

/-- Less than half a unit above `q` is rounded to `q` or below. -/
lemma roundedMantissa_shiftRight_le {m q k : ℕ} (h : 2 * m < (2 * q + 1) * 2 ^ k) :
    (ExtendedMantissa.ofMantissaAndAccuracy m .exact >>> k).roundedMantissa ≤ q := by
  cases k with
  | zero =>
    have hexact : (ExtendedMantissa.ofMantissaAndAccuracy m .exact >>> 0).roundedMantissa = m := rfl
    omega
  | succ k =>
    have hmantissa := mantissa_shiftRight (.ofMantissaAndAccuracy m .exact) (k + 1)
    have hbit := roundBit_shiftRight_succ (.ofMantissaAndAccuracy m .exact) k
    generalize ExtendedMantissa.ofMantissaAndAccuracy m .exact >>> (k + 1) = em at hmantissa hbit ⊢
    rw [mantissa_ofMantissaAndAccuracy] at hmantissa hbit
    rw [Nat.pow_succ, ← Nat.div_div_eq_div_mul] at hmantissa
    have hquotient : m / 2 ^ k < 2 * q + 1 := by
      rw [Nat.div_lt_iff_lt_mul (Nat.two_pow_pos k)]
      rw [Nat.pow_succ] at h
      linarith
    by_cases hbelow : em.mantissa < q
    · exact (roundedMantissa_le em).trans hbelow
    · -- Then the bit below the last place is zero, so the mantissa is cut off.
      have heven : m / 2 ^ k % 2 = 0 := by omega
      rw [roundedMantissa_of_roundBit (by rw [hbit, heven]; rfl)]
      omega

/-- The exponent that a mantissa is moved to stays in range if the number does. -/
lemma exponent_shiftToTargetExponent_le {m : ℕ} (hm : 0 < m) {e top : ℤ} (he : e ≤ top)
    (hmin : S.minExponent ≤ top) (hsize : m < 2 ^ (S.mantissaBits + (top - e).toNat))
    (accuracy : Accuracy) : (shiftToTargetExponent S m e accuracy).2 ≤ top := by
  have hlog := (Nat.log2_lt hm.ne').mpr hsize
  change e + ((S.targetExponent (totalExponent m e) - e).toNat : ℤ) ≤ top
  unfold Format.targetExponent totalExponent
  omega

/-- The number `m * 2 ^ e` is less than half a unit above the largest one of the format, whose unit
is `k` places above that of `m`. -/
structure IsWithin (S : Format) (m : ℕ) (e : ℤ) (k : ℕ) : Prop where
  unit : e + k + S.mantissaBitsWithoutImplicit = S.exponentBias
  size : 2 * m < (2 * (2 ^ S.mantissaBits - 1) + 1) * 2 ^ k

namespace IsWithin

variable {m : ℕ} {e : ℤ} {k : ℕ}

lemma lt_two_pow (h : IsWithin S m e k) : m < 2 ^ (S.mantissaBits + k) := by
  have hplaces := Nat.two_pow_pos S.mantissaBits
  have hscaled : (2 * (2 ^ S.mantissaBits - 1) + 1) * 2 ^ k ≤ 2 * 2 ^ S.mantissaBits * 2 ^ k :=
    Nat.mul_le_mul_right _ (by omega)
  have hsize := h.size
  rw [Nat.pow_add]
  linarith

lemma shiftLeft (h : IsWithin S m e k) (j : ℕ) : IsWithin S (m <<< j) (e - j) (k + j) := by
  refine ⟨by have hunit := h.unit; push_cast; omega, ?_⟩
  calc 2 * m <<< j = 2 * m * 2 ^ j := by rw [Nat.shiftLeft_eq, Nat.mul_assoc]
    _ < (2 * (2 ^ S.mantissaBits - 1) + 1) * 2 ^ k * 2 ^ j :=
        Nat.mul_lt_mul_of_pos_right h.size (Nat.two_pow_pos j)
    _ = (2 * (2 ^ S.mantissaBits - 1) + 1) * 2 ^ (k + j) := by rw [Nat.mul_assoc, Nat.pow_add]

/-- At the unit of the largest number a mantissa is not rounded up beyond its places. Below it there
is room for a carry. -/
lemma roundedMantissa_lt (h : IsWithin S m e k) {j : ℕ} (hj : j ≤ k)
    (hfits : m / 2 ^ j < 2 ^ S.mantissaBits) :
    (ExtendedMantissa.ofMantissaAndAccuracy m .exact >>> j).roundedMantissa <
      2 ^ (S.mantissaBits + (k - j)) := by
  obtain hbelow | rfl := hj.lt_or_eq
  · calc (ExtendedMantissa.ofMantissaAndAccuracy m .exact >>> j).roundedMantissa
        ≤ m / 2 ^ j + 1 :=
          (roundedMantissa_le _).trans_eq (congrArg (· + 1) (mantissa_shiftRight _ j))
      _ ≤ 2 ^ S.mantissaBits := hfits
      _ < 2 ^ (S.mantissaBits + (k - j)) := Nat.pow_lt_pow_right one_lt_two (by omega)
  · rw [Nat.sub_self, Nat.add_zero]
    exact (roundedMantissa_shiftRight_le h.size).trans_lt
      (Nat.sub_one_lt (Nat.two_pow_pos S.mantissaBits).ne')

end IsWithin

lemma fits_roundWithAccuracy (s : Sign) {m : ℕ} (hm : 0 < m) {e : ℤ} (he : S.minExponent ≤ e)
    {k : ℕ} (h : IsWithin S m e k) : Fits S (roundWithAccuracy S s m e .exact) := by
  have hunit := h.unit
  obtain ⟨hpos, hfits, hlow⟩ := shiftToTargetExponent_bounds hm he .exact
  have hhigh : (shiftToTargetExponent S m e .exact).2 ≤ e + k := by
    refine exponent_shiftToTargetExponent_le hm (by omega) (by omega) ?_ .exact
    rw [add_sub_cancel_left, Int.toNat_natCast]
    exact h.lt_two_pow
  have hrounded : 0 < (shiftToTargetExponent S m e .exact).1.roundedMantissa :=
    hpos.trans_le (le_roundToNearestEven _ _)
  have hcarry : (shiftToTargetExponent S m e .exact).1.roundedMantissa <
      2 ^ (S.mantissaBits + (e + k - (shiftToTargetExponent S m e .exact).2).toNat) := by
    obtain ⟨j, hj⟩ : ∃ j : ℕ, shiftToTargetExponent S m e .exact =
        (ExtendedMantissa.ofMantissaAndAccuracy m .exact >>> j, e + j) := ⟨_, rfl⟩
    have hplaces : (e + k - (e + j)).toNat = k - j := by omega
    rw [hj] at hfits hhigh ⊢
    rw [mantissa_shiftRight] at hfits
    rw [hplaces]
    exact h.roundedMantissa_lt (by omega) hfits
  -- The result of rounding is moved once more, in case of a carry.
  have hhigh' := exponent_shiftToTargetExponent_le hrounded hhigh (by omega) hcarry .exact
  obtain ⟨hpos', hfits', hlow'⟩ := shiftToTargetExponent_bounds hrounded hlow .exact
  have hresult : roundWithAccuracy S s m e .exact = .finite s _ _ hpos' := dif_neg hpos'.ne'
  rw [hresult]
  exact ⟨hfits', hlow', (Int.add_le_add_right hhigh' _).trans_eq hunit⟩

/-- The place of the least bit of a number that is unpacked is a place of the format. -/
lemma minExponent_le_of_unpack {b : BitVec S.numBits} {s : Sign} {m : ℕ} {e : ℤ} {hm : 0 < m}
    (h : UnpackedFloat.unpack S b = .finite s m e hm) : S.minExponent ≤ e := by
  have hmin := minExponent_eq (S := S)
  unfold UnpackedFloat.unpack at h
  simp only at h
  split_ifs at h with hspecial _ hzero
  · cases h
    omega
  · cases h
    have hexponent : 0 < (unpackExponent b).toNat := BitVec.toNat_pos_of_ne_zero hzero
    omega

lemma fits_unpack (hbits : 2 ≤ S.exponentBits) {b : BitVec S.numBits} {s : Sign} {m : ℕ} {e : ℤ}
    {hm : 0 < m} (h : UnpackedFloat.unpack S b = .finite s m e hm) : Fits S (.finite s m e hm) :=
  have hbounds := unpack_finite_bounds hbits h
  ⟨hbounds.1, minExponent_le_of_unpack h, hbounds.2⟩

lemma fits_round (s : Sign) {m : ℕ} (hm : 0 < m) {e : ℤ} (he : S.minExponent ≤ e) {k : ℕ}
    (h : IsWithin S m e k) : Fits S (UnpackedFloat.round S s m e) := by
  -- Before it is rounded, a short mantissa is extended by zeros.
  obtain ⟨j, hj, hlow⟩ : ∃ j : ℕ, UnpackedFloat.round S s m e =
      roundWithAccuracy S s (m <<< j) (e - j) .exact ∧ S.minExponent ≤ e - j := by
    refine ⟨_, rfl, ?_⟩
    unfold Format.targetExponent
    omega
  have hpos : 0 < m <<< j := by
    rw [Nat.shiftLeft_eq]
    exact Nat.mul_pos hm (Nat.two_pow_pos j)
  rw [hj]
  exact fits_roundWithAccuracy s hpos hlow (h.shiftLeft j)

/-- A number that lies below half a unit of the largest one is added to any other one without
overflow. -/
lemma fits_add_of_small {m₁ m₂ : ℕ} {e₁ e₂ : ℤ} {hm₁ : 0 < m₁} {hm₂ : 0 < m₂}
    (h₁ : Fits S (.finite .positive m₁ e₁ hm₁)) (h₂ : Fits S (.finite .positive m₂ e₂ hm₂))
    (hsmall : e₂ + S.mantissaBits + 1 + S.mantissaBitsWithoutImplicit ≤ S.exponentBias) :
    Fits S (UnpackedFloat.add S (.finite .positive m₁ e₁ hm₁) (.finite .positive m₂ e₂ hm₂)) := by
  obtain ⟨hfits₁, hlow₁, hhigh₁⟩ := h₁
  obtain ⟨hfits₂, hlow₂, -⟩ := h₂
  obtain ⟨k, hk⟩ : ∃ k : ℕ, min e₁ e₂ + k + S.mantissaBitsWithoutImplicit = S.exponentBias :=
    ⟨(S.exponentBias - S.mantissaBitsWithoutImplicit - min e₁ e₂).toNat, by omega⟩
  obtain ⟨d₁, hd₁⟩ : ∃ d, (e₁ - min e₁ e₂).toNat = d := ⟨_, rfl⟩
  obtain ⟨d₂, hd₂⟩ : ∃ d, (e₂ - min e₁ e₂).toNat = d := ⟨_, rfl⟩
  have hadd : UnpackedFloat.add S (.finite .positive m₁ e₁ hm₁) (.finite .positive m₂ e₂ hm₂) =
      UnpackedFloat.normalize S ((m₁ <<< d₁ : ℕ) + (m₂ <<< d₂ : ℕ)) (min e₁ e₂) .positive := by
    rw [← hd₁, ← hd₂]
    rfl
  have hfirst : m₁ <<< d₁ ≤ (2 ^ S.mantissaBits - 1) * 2 ^ k := by
    rw [Nat.shiftLeft_eq]
    exact Nat.mul_le_mul (by omega) (Nat.pow_le_pow_right two_pos (by omega))
  have hsecond : 2 * m₂ <<< d₂ < 2 ^ k := by
    calc 2 * m₂ <<< d₂ = m₂ * 2 ^ (d₂ + 1) := by rw [Nat.shiftLeft_eq]; ring
      _ < 2 ^ S.mantissaBits * 2 ^ (d₂ + 1) :=
          Nat.mul_lt_mul_of_pos_right hfits₂ (Nat.two_pow_pos _)
      _ = 2 ^ (S.mantissaBits + (d₂ + 1)) := (Nat.pow_add ..).symm
      _ ≤ 2 ^ k := Nat.pow_le_pow_right two_pos (by omega)
  have hpos : 0 < m₁ <<< d₁ + m₂ <<< d₂ := by
    rw [Nat.shiftLeft_eq]
    positivity
  rw [hadd, ← Nat.cast_add, normalize_of_pos hpos]
  exact fits_round .positive hpos (by omega) ⟨hk, by linarith⟩

end Rounding

/-! ### Operations -/

section Operations

variable {S : Format} {a b : UnpackedFloat}

lemma isNaN_roundWithAccuracy (s : Sign) (m : ℕ) (e : ℤ) (accuracy : Accuracy) :
    (roundWithAccuracy S s m e accuracy).isNaN = false := by
  obtain h | ⟨_, _, _, h⟩ := roundWithAccuracy_cases (S := S) s m e accuracy <;>
    exact congrArg UnpackedFloat.isNaN h

lemma isNotNegative_roundWithAccuracy (m : ℕ) (e : ℤ) (accuracy : Accuracy) :
    IsNotNegative (roundWithAccuracy S .positive m e accuracy) := by
  obtain h | ⟨m', e', hm', h⟩ := roundWithAccuracy_cases (S := S) .positive m e accuracy
  · exact h ▸ .zero .positive
  · exact h ▸ .finite m' e' hm'

lemma isNaN_normalize (m : ℤ) (e : ℤ) (s : Sign) :
    (UnpackedFloat.normalize S m e s).isNaN = false := by
  rw [UnpackedFloat.normalize]
  split
  · exact isNaN_roundWithAccuracy ..
  · rfl
  · exact isNaN_roundWithAccuracy ..

lemma isNotNegative_normalize (m : ℕ) (e : ℤ) (s : Sign) :
    IsNotNegative (UnpackedFloat.normalize S m e s) := by
  obtain rfl | hm := Nat.eq_zero_or_pos m
  · exact .zero s
  · rw [normalize_of_pos hm]
    exact isNotNegative_roundWithAccuracy ..

/-- A sum of numbers that are not negative is no number only if one of them is none. -/
lemma add_of_isNotNegative (ha : IsNotNegative a) (hb : IsNotNegative b) :
    IsNotNegative (UnpackedFloat.add S a b) ∧
      (UnpackedFloat.add S a b).isNaN = (a.isNaN || b.isNaN) := by
  cases ha with
  | notANumber => exact ⟨.notANumber, rfl⟩
  | zero s =>
    cases hb with
    | zero s' => cases s <;> cases s' <;> exact ⟨.zero _, rfl⟩
    | notANumber => exact ⟨.notANumber, rfl⟩
    | infinity => exact ⟨.infinity, rfl⟩
    | finite m e hm => exact ⟨.finite m e hm, rfl⟩
  | infinity =>
    cases hb with
    | notANumber => exact ⟨.notANumber, rfl⟩
    | _ => exact ⟨.infinity, rfl⟩
  | finite m e hm =>
    cases hb with
    | notANumber => exact ⟨.notANumber, rfl⟩
    | zero => exact ⟨.finite m e hm, rfl⟩
    | infinity => exact ⟨.infinity, rfl⟩
    | finite => exact ⟨isNotNegative_normalize .., isNaN_normalize ..⟩

/-- A square is not negative, and no number only if its root is none. -/
lemma unpacked_mul_self (a : UnpackedFloat) : IsNotNegative (UnpackedFloat.mul S a a) ∧
    (UnpackedFloat.mul S a a).isNaN = a.isNaN := by
  have hsign : ∀ s : Sign, s * s = .positive := by
    rintro (_ | _) <;> rfl
  cases a with
  | notANumber => exact ⟨.notANumber, rfl⟩
  | zero s => exact ⟨.zero _, rfl⟩
  | infinity s =>
    rw [UnpackedFloat.mul, hsign]
    exact ⟨.infinity, rfl⟩
  | finite s m e hm =>
    rw [UnpackedFloat.mul, hsign]
    exact ⟨isNotNegative_roundWithAccuracy .., isNaN_roundWithAccuracy ..⟩

lemma isNaN_sqrt (ha : IsNotNegative a) : (UnpackedFloat.sqrt S a).isNaN = a.isNaN := by
  cases ha with
  | finite => exact isNaN_roundWithAccuracy ..
  | _ => rfl

lemma isNotNegative_abs (a : UnpackedFloat) : IsNotNegative a.abs := by
  cases a with
  | notANumber => exact .notANumber
  | infinity s => exact .infinity
  | zero s => exact .zero .positive
  | finite s m e hm => exact .finite m e hm

/-- Besides operands that are no numbers, only the difference of an infinity and itself is none. -/
lemma isNaN_sub_iff (a b : UnpackedFloat) : (UnpackedFloat.sub S a b).isNaN = true ↔
    a.isNaN = true ∨ b.isNaN = true ∨ ∃ s, a = .infinity s ∧ b = .infinity s := by
  cases a with
  | notANumber => simp [UnpackedFloat.sub, UnpackedFloat.isNaN]
  | zero s =>
    cases b with
    | zero s' =>
      have h : (UnpackedFloat.sub S (.zero s) (.zero s')).isNaN = false := by
        cases s <;> cases s' <;> rfl
      rw [h]
      simp [UnpackedFloat.isNaN]
    | _ => simp [UnpackedFloat.sub, UnpackedFloat.isNaN]
  | infinity s =>
    cases b with
    | infinity s' =>
      have h : (UnpackedFloat.sub S (.infinity s) (.infinity s')).isNaN = true ↔ s = s' := by
        cases s <;> cases s' <;> constructor <;> intro h <;> first | rfl | cases h
      rw [h]
      simp [UnpackedFloat.isNaN, eq_comm]
    | _ => simp [UnpackedFloat.sub, UnpackedFloat.isNaN]
  | finite s m e hm =>
    cases b with
    | finite s' m' e' hm' =>
      have h : (UnpackedFloat.sub S (.finite s m e hm) (.finite s' m' e' hm')).isNaN = false :=
        isNaN_normalize ..
      rw [h]
      simp [UnpackedFloat.isNaN]
    | _ => simp [UnpackedFloat.sub, UnpackedFloat.isNaN]

lemma isNaN_div (ha : a.isNaN = false) (s : Sign) (m : ℕ) (e : ℤ) (hm : 0 < m) :
    (UnpackedFloat.div S a (.finite s m e hm)).isNaN = false := by
  cases a with
  | notANumber => cases ha
  | zero | infinity => rfl
  | finite => exact isNaN_roundWithAccuracy ..

/-- Two infinities of one sign are what is equal without being finite. -/
lemma infinity_iff (a b : UnpackedFloat) :
    (∃ s, a = .infinity s ∧ b = .infinity s) ↔ a.isFinite = false ∧ a.beq b = true := by
  constructor
  · rintro ⟨s, rfl, rfl⟩
    exact ⟨rfl, beq_self_eq_not_isNaN⟩
  · rintro ⟨hinfinite, hbeq⟩
    obtain ⟨hnumber, -, rfl | ⟨rfl, -⟩ | ⟨rfl, -⟩⟩ := (beq_iff_ne_notANumber_and_eq a b).mp hbeq
    · cases a with
      | infinity s => exact ⟨s, rfl, rfl⟩
      | notANumber => exact absurd rfl hnumber
      | zero | finite => cases hinfinite
    · cases hinfinite
    · cases hinfinite

end Operations

/-! ### The two precisions -/

/-- Roots and absolute values on the bit patterns of a format. -/
class PackedRoots (F : Type) [Arithmetic F] [PackedArithmetic F] : Prop where
  bits_sqrt : ∀ x : F, PackedArithmetic.bits (Arithmetic.sqrt x) =
    pack (PackedArithmetic.format F)
      (UnpackedFloat.sqrt (PackedArithmetic.format F) (PackedArithmetic.unpacked x))
  bits_abs : ∀ x : F, PackedArithmetic.bits (Arithmetic.abs x) =
    pack (PackedArithmetic.format F) (PackedArithmetic.unpacked x).abs

instance : PackedRoots Float where
  bits_sqrt _ := rfl
  bits_abs _ := rfl

instance : PackedRoots Float32 where
  bits_sqrt _ := rfl
  bits_abs _ := rfl

namespace PackedArithmetic

variable {F : Type} [Arithmetic F] [PackedArithmetic F]

/-- A difference of coordinates is no number if one of them is none, or if both are the same
infinity. -/
lemma isNaN_difference_iff (x y : F) : Arithmetic.isNaN (x - y) = true ↔
    Arithmetic.isNaN x = true ∨ Arithmetic.isNaN y = true ∨
      (Arithmetic.isFinite x = false ∧ (x == y) = true) := by
  rw [isNaN_eq, unpacked, bits_sub, isNaN_unpack_pack, isNaN_sub_iff, infinity_iff, isNaN_eq,
    isNaN_eq, isFinite_eq, beq_eq]
  rfl

lemma sum_of_isNotNegative {x y : F} (hx : IsNotNegative (unpacked x))
    (hy : IsNotNegative (unpacked y)) : IsNotNegative (unpacked (x + y)) ∧
      Arithmetic.isNaN (x + y) = (Arithmetic.isNaN x || Arithmetic.isNaN y) := by
  obtain ⟨hsum, hisNaN⟩ := add_of_isNotNegative (S := format F) hx hy
  rw [isNaN_eq, isNaN_eq, isNaN_eq, unpacked, bits_add, isNaN_unpack_pack]
  exact ⟨isNotNegative_unpack_pack hsum, hisNaN⟩

lemma square_isNotNegative (x : F) : IsNotNegative (unpacked (x * x)) ∧
    Arithmetic.isNaN (x * x) = Arithmetic.isNaN x := by
  obtain ⟨hsquare, hisNaN⟩ := unpacked_mul_self (S := format F) (unpacked x)
  rw [isNaN_eq, isNaN_eq, unpacked, bits_mul, isNaN_unpack_pack]
  exact ⟨isNotNegative_unpack_pack hsquare, hisNaN⟩

/-- The passes of a sum of squares keep it from being negative, and they lose no coordinate that is
no number. -/
lemma foldl_squares (v : List F) {s : F} (hs : IsNotNegative (unpacked s)) :
    IsNotNegative (unpacked ((v.zip v).foldl (fun s p => s + p.1 * p.2) s)) ∧
      Arithmetic.isNaN ((v.zip v).foldl (fun s p => s + p.1 * p.2) s) =
        (Arithmetic.isNaN s || v.any Arithmetic.isNaN) := by
  induction v generalizing s with
  | nil => exact ⟨hs, (Bool.or_false _).symm⟩
  | cons x v ih =>
    obtain ⟨hsquare, hsquare_isNaN⟩ := square_isNotNegative x
    obtain ⟨hsum, hsum_isNaN⟩ := sum_of_isNotNegative hs hsquare
    have h := ih hsum
    rw [hsum_isNaN, hsquare_isNaN, Bool.or_assoc] at h
    exact h

variable [PackedRoots F]

/-- A length is no number exactly if a coordinate is none. -/
lemma isNaN_norm (v : List F) : Arithmetic.isNaN (norm v) = v.any Arithmetic.isNaN := by
  have hzero : IsNotNegative (unpacked (0 : F)) ∧ Arithmetic.isNaN (0 : F) = false := by
    rw [isNaN_eq, unpacked, unpack_zero]
    exact ⟨.zero .positive, rfl⟩
  have hdot : IsNotNegative (unpacked (dot v v)) ∧
      Arithmetic.isNaN (dot v v) = (Arithmetic.isNaN (0 : F) || v.any Arithmetic.isNaN) :=
    foldl_squares v hzero.1
  rw [norm, isNaN_eq, unpacked, PackedRoots.bits_sqrt, isNaN_unpack_pack, isNaN_sqrt hdot.1,
    ← isNaN_eq, hdot.2, hzero.2, Bool.false_or]

lemma isNaN_abs (x : F) : Arithmetic.isNaN (Arithmetic.abs x) = Arithmetic.isNaN x := by
  rw [isNaN_eq, isNaN_eq, unpacked, PackedRoots.bits_abs, isNaN_unpack_pack]
  cases unpacked x <;> rfl

lemma abs_of_isFinite {x : F} (hx : Arithmetic.isFinite x = true) :
    IsNotNegative (unpacked (Arithmetic.abs x)) ∧
      (unpacked (Arithmetic.abs x)).isFinite = true := by
  rw [isFinite_eq] at hx
  change (unpacked x).isFinite = true at hx
  rw [unpacked, PackedRoots.bits_abs]
  refine ⟨isNotNegative_unpack_pack (isNotNegative_abs _), ?_⟩
  cases hvalue : unpacked x with
  | zero s => exact congrArg UnpackedFloat.isFinite unpack_packedZero
  | finite s m e hm =>
    have hfits : Fits (format F) (.finite s m e hm) := fits_unpack exponentBits_ge hvalue
    obtain ⟨_, _, _, _, h⟩ := unpack_pack_of_fits (a := .finite .positive m e hm) hfits
    exact congrArg UnpackedFloat.isFinite h
  | infinity | notANumber =>
    rw [hvalue] at hx
    cases hx

/-- A positive number that is small enough to be added to a finite number without overflow. -/
def IsSmall (c : F) : Prop :=
  ∃ m e hm, unpacked c = .finite .positive m e hm ∧
    e + (format F).mantissaBits + 1 + (format F).mantissaBitsWithoutImplicit ≤
      (format F).exponentBias

/-- With a small number added to it, an absolute value is neither zero nor infinite. -/
lemma finite_guarded_abs {x c : F} (hx : Arithmetic.isFinite x = true) (hc : IsSmall c) :
    ∃ s m e hm, unpacked (Arithmetic.abs x + c) = .finite s m e hm := by
  obtain ⟨m, e, hm, hc, hsmall⟩ := hc
  have hfits : Fits (format F) (.finite .positive m e hm) := fits_unpack exponentBits_ge hc
  obtain ⟨hsign, hfinite⟩ := abs_of_isFinite hx
  rw [unpacked, bits_add]
  apply unpack_pack_of_fits
  change Fits _ (UnpackedFloat.add _ (unpacked (Arithmetic.abs x)) (unpacked c))
  rw [hc]
  cases hvalue : unpacked (Arithmetic.abs x) with
  | zero s => exact hfits
  | finite s m' e' hm' =>
    rw [hvalue] at hsign
    cases hsign
    exact fits_add_of_small (fits_unpack exponentBits_ge hvalue) hfits hsmall
  | infinity | notANumber =>
    rw [hvalue] at hfinite
    cases hfinite

/-- A quotient by a guarded absolute value is a number. -/
lemma isNaN_guarded_div {x y c : F} (hx : Arithmetic.isNaN x = false)
    (hy : Arithmetic.isFinite y = true) (hc : IsSmall c) :
    Arithmetic.isNaN (x / (Arithmetic.abs y + c)) = false := by
  obtain ⟨s, m, e, hm, hdivisor⟩ := finite_guarded_abs hy hc
  rw [isNaN_eq] at hx ⊢
  rw [unpacked, bits_div, isNaN_unpack_pack]
  change (UnpackedFloat.div _ (unpacked x) (unpacked _)).isNaN = false
  rw [hdivisor]
  exact isNaN_div hx s m e hm

end PackedArithmetic

end Downhill
