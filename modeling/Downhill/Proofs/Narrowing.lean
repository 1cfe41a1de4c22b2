import Mathlib
import Downhill.Arithmetic

/-!
# Numbers that return from the doubles

A single precision number that was widened comes back when it is narrowed: the places that narrowing
rounds away are the ones that widening filled with zeros. `FaithfulBinary` says this of any binary
arithmetic, and that its special values are those of the doubles.

As for special values, the lemmas about the bits of floats need the import of the whole library.
-/

namespace Downhill

section Widening

/-- The exponent and the fraction of the double that a single precision number widens to, by its own
exponent and fraction. -/
inductive WideFields (exponent fraction : Nat) : Nat → Nat → Prop
  | special : exponent = 255 → WideFields exponent fraction 2047 (fraction * 2 ^ 29)
  | normal : 0 < exponent → exponent < 255 →
      WideFields exponent fraction (exponent + 896) (fraction * 2 ^ 29)
  | zero : exponent = 0 → fraction = 0 → WideFields exponent fraction 0 0
  | subnormal (low : Nat) : exponent = 0 → 0 < fraction →
      fraction * 2 ^ (52 - fraction.log2) = 2 ^ 52 + low →
      WideFields exponent fraction (fraction.log2 + 874) low

namespace WideFields

variable {exponent fraction top low : Nat}

lemma log2_le (hf : 0 < fraction) (h : fraction < 2 ^ 23) : fraction.log2 ≤ 22 := by
  have hlog := (Nat.log2_lt (k := 23) (Nat.ne_of_gt hf)).mpr h
  omega

lemma normalized (hf : 0 < fraction) (h : fraction < 2 ^ 23) :
    ∃ low < 2 ^ 52, fraction * 2 ^ (52 - fraction.log2) = 2 ^ 52 + low := by
  have hlog := log2_le hf h
  have hlow : 2 ^ fraction.log2 * 2 ^ (52 - fraction.log2) = 2 ^ 52 := by
    rw [← Nat.pow_add, Nat.add_sub_cancel' (by omega)]
  have hge := Nat.mul_le_mul_right (2 ^ (52 - fraction.log2))
    (Nat.log2_self_le (Nat.ne_of_gt hf))
  have hlt := Nat.mul_lt_mul_of_pos_right (Nat.lt_log2_self (n := fraction))
    (Nat.two_pow_pos (52 - fraction.log2))
  rw [Nat.pow_succ, Nat.mul_right_comm, hlow] at hlt
  rw [hlow] at hge
  exact ⟨fraction * 2 ^ (52 - fraction.log2) - 2 ^ 52, by omega, by omega⟩

lemma bounds (h : WideFields exponent fraction top low) (he : exponent < 2 ^ 8)
    (hf : fraction < 2 ^ 23) : top < 2 ^ 11 ∧ low < 2 ^ 52 := by
  cases h with
  | special => omega
  | normal => omega
  | zero => omega
  | subnormal low _ hpos hlow =>
    have hlog := log2_le hpos hf
    obtain ⟨low', hlt, hlow'⟩ := normalized hpos hf
    omega

end WideFields

lemma exists_wideFields (bits : Nat) : ∃ top low,
    WideFields (bits / 2 ^ 23 % 2 ^ 8) (bits % 2 ^ 23) top low ∧
      widenBits bits = bits / 2 ^ 31 * 2 ^ 63 + (top * 2 ^ 52 + low) := by
  unfold widenBits
  simp only [Nat.pow_eq]
  have hexponent : bits / 2 ^ 23 % 2 ^ 8 < 2 ^ 8 := Nat.mod_lt _ (by norm_num)
  have hfraction : bits % 2 ^ 23 < 2 ^ 23 := Nat.mod_lt _ (by norm_num)
  generalize bits / 2 ^ 23 % 2 ^ 8 = exponent at *
  generalize bits % 2 ^ 23 = fraction at *
  split_ifs with hspecial hnormal hzero
  · exact ⟨_, _, .special hspecial, rfl⟩
  · exact ⟨_, _, .normal (by omega) (by omega), rfl⟩
  · exact ⟨_, _, .zero (by omega) hzero, rfl⟩
  · obtain ⟨low, -, hlow⟩ := WideFields.normalized (Nat.pos_of_ne_zero hzero) hfraction
    exact ⟨_, low, .subnormal low (by omega) (Nat.pos_of_ne_zero hzero) hlow, by rw [hlow]; omega⟩

/-- The fields of a double that comes from a single precision number. -/
lemma widenBits_fields {bits : Nat} (h : bits < 2 ^ 32) : ∃ top low,
    WideFields (bits / 2 ^ 23 % 2 ^ 8) (bits % 2 ^ 23) top low ∧ widenBits bits < 2 ^ 64 ∧
      widenBits bits / 2 ^ 63 = bits / 2 ^ 31 ∧ widenBits bits / 2 ^ 52 % 2 ^ 11 = top ∧
      widenBits bits % 2 ^ 52 = low := by
  obtain ⟨top, low, hfields, hbits⟩ := exists_wideFields bits
  obtain ⟨htop, hlow⟩ := hfields.bounds (Nat.mod_lt _ (by norm_num)) (Nat.mod_lt _ (by norm_num))
  exact ⟨top, low, hfields, by omega, by omega, by omega, by omega⟩

open Float.Model Float.Model.UnpackedFloat

lemma toBits_ofBits (bits : UInt64) :
    (Float.ofBits bits).toBits.toBitVec =
      if @isNaNBits .binary64 bits.toBitVec = true then packedNaN .binary64
      else bits.toBitVec :=
  @pack_unpack .binary64 bits.toBitVec (by decide)

lemma isNaNBits_iff (spec : Format) (bits : BitVec spec.numBits) :
    isNaNBits bits = true ↔
      bits.toNat / 2 ^ spec.mantissaBitsWithoutImplicit % 2 ^ spec.exponentBits =
          2 ^ spec.exponentBits - 1 ∧
        bits.toNat % 2 ^ spec.mantissaBitsWithoutImplicit ≠ 0 := by
  simp only [isNaNBits, decide_eq_true_eq, unpackExponent_def, unpackMantissa_def,
    ← BitVec.toNat_inj, ne_eq, BitVec.neg_one_eq_allOnes, BitVec.toNat_allOnes,
    BitVec.extractLsb'_toNat, Nat.shiftRight_eq_div_pow, BitVec.toNat_zero,
    Nat.pow_zero, Nat.div_one]

lemma isFinite_unpack_iff (spec : Format) (bits : BitVec spec.numBits) :
    (UnpackedFloat.unpack spec bits).isFinite = true ↔
      bits.toNat / 2 ^ spec.mantissaBitsWithoutImplicit % 2 ^ spec.exponentBits ≠
        2 ^ spec.exponentBits - 1 := by
  have hspecial : unpackExponent bits = -1#_ ↔
      bits.toNat / 2 ^ spec.mantissaBitsWithoutImplicit % 2 ^ spec.exponentBits =
        2 ^ spec.exponentBits - 1 := by
    simp only [unpackExponent_def, ← BitVec.toNat_inj, BitVec.neg_one_eq_allOnes,
      BitVec.toNat_allOnes, BitVec.extractLsb'_toNat, Nat.shiftRight_eq_div_pow]
  rw [ne_eq, ← hspecial]
  unfold UnpackedFloat.unpack
  dsimp only
  split_ifs <;> simp_all [UnpackedFloat.isFinite]

/-- The widened pattern of a single precision number is its own; it never has to be replaced. -/
lemma toBits_widen (x : Float32) : (widen x).toBits.toNat = widenBits x.toBits.toNat := by
  obtain ⟨top, low, hfields, hlt, hsign, htop, hlow⟩ := widenBits_fields x.toBits.toNat_lt
  have hnat : (UInt64.ofNat (widenBits x.toBits.toNat)).toBitVec.toNat =
      widenBits x.toBits.toNat := UInt64.toNat_ofNat_of_lt' hlt
  have hbits := toBits_ofBits (UInt64.ofNat (widenBits x.toBits.toNat))
  rw [widen, ← UInt64.toNat_toBitVec, hbits]
  split
  · rename_i hnan
    rw [isNaNBits_iff, hnat] at hnan
    change widenBits x.toBits.toNat / 2 ^ 52 % 2 ^ 11 = 2 ^ 11 - 1 ∧
      widenBits x.toBits.toNat % 2 ^ 52 ≠ 0 at hnan
    rw [htop, hlow] at hnan
    have hnan32 : @isNaNBits .binary32 x.toBits.toBitVec = true := by
      rw [isNaNBits_iff]
      change x.toBits.toNat / 2 ^ 23 % 2 ^ 8 = 2 ^ 8 - 1 ∧ x.toBits.toNat % 2 ^ 23 ≠ 0
      have hfraction : x.toBits.toNat % 2 ^ 23 < 2 ^ 23 := Nat.mod_lt _ (by norm_num)
      cases hfields with
      | subnormal _ _ hpos _ =>
        have hlog := WideFields.log2_le hpos hfraction
        omega
      | _ => omega
    -- Only one pattern of single precision is no number, and it widens to the one of doubles.
    obtain ⟨hones, hnonzero⟩ := of_decide_eq_true hnan32
    have hpacked : x.toBits.toBitVec = packedNaN .binary32 :=
      x.toModel.valid.eq_packedNaN hones hnonzero
    rw [← UInt32.toNat_toBitVec, hpacked]
    decide
  · exact hnat

/-- The special exponent is widened to the special exponent, and no other one is. -/
lemma isFinite_widen (x : Float32) : (widen x).isFinite = x.isFinite := by
  obtain ⟨top, low, hfields, -, -, htop, -⟩ := widenBits_fields x.toBits.toNat_lt
  have hfraction : x.toBits.toNat % 2 ^ 23 < 2 ^ 23 := Nat.mod_lt _ (by norm_num)
  have hwide : (widen x).isFinite = true ↔ (widen x).toBits.toNat / 2 ^ 52 % 2 ^ 11 ≠ 2 ^ 11 - 1 :=
    isFinite_unpack_iff .binary64 (widen x).toBits.toBitVec
  have hsingle : x.isFinite = true ↔ x.toBits.toNat / 2 ^ 23 % 2 ^ 8 ≠ 2 ^ 8 - 1 :=
    isFinite_unpack_iff .binary32 x.toBits.toBitVec
  rw [Bool.eq_iff_iff, hwide, hsingle, toBits_widen, htop]
  cases hfields with
  | subnormal _ _ hpos _ =>
    have hlog := WideFields.log2_le hpos hfraction
    omega
  | _ => omega

end Widening

lemma roundHalfEven_mul (q d : Nat) (hd : 0 < d) : roundHalfEven (q * d) d = q := by
  unfold roundHalfEven
  simp only [Nat.mul_mod_left, Nat.mul_div_cancel q hd, Nat.mul_zero, if_pos hd]

lemma roundHalfEven_zero (d : Nat) (hd : 0 < d) : roundHalfEven 0 d = 0 := by
  simpa only [Nat.zero_mul] using roundHalfEven_mul 0 d hd

/-- What is left of a widened number is the number. -/
lemma WideFields.narrowed {exponent fraction top low : Nat}
    (h : WideFields exponent fraction top low) (hf : fraction < 2 ^ 23) :
    narrowMagnitude top low = exponent * 2 ^ 23 + fraction := by
  simp only [narrowMagnitude, Nat.pow_eq]
  cases h with
  | special he => rw [if_pos rfl, he, Nat.mul_div_cancel _ (Nat.two_pow_pos 29)]
  | normal hpos hlt =>
    have hmantissa : 2 ^ 52 + fraction * 2 ^ 29 = (2 ^ 23 + fraction) * 2 ^ 29 := by omega
    have hplaces : 29 + (exponent + 896) - (exponent + 896) = 29 := by omega
    rw [if_neg (by omega), if_neg (by omega), Nat.max_eq_left (by omega),
      Nat.max_eq_left (by omega), hplaces, hmantissa, roundHalfEven_mul _ _ (Nat.two_pow_pos 29)]
    omega
  | zero he hzero =>
    rw [if_neg (by omega), if_pos rfl, roundHalfEven_zero _ (Nat.two_pow_pos _)]
    omega
  | subnormal low he hpos hlow =>
    have hlog := WideFields.log2_le hpos hf
    have hplaces : 29 + 897 - (fraction.log2 + 874) = 52 - fraction.log2 := by omega
    rw [if_neg (by omega), if_neg (by omega), Nat.max_eq_right (by omega),
      Nat.max_eq_left (by omega), hplaces, ← hlow, roundHalfEven_mul _ _ (Nat.two_pow_pos _), he]
    omega

lemma narrowBits_widenBits {bits : Nat} (h : bits < 2 ^ 32) :
    narrowBits (widenBits bits) = bits := by
  obtain ⟨top, low, hfields, -, hsign, htop, hlow⟩ := widenBits_fields h
  have hnarrowed := hfields.narrowed (Nat.mod_lt _ (by norm_num))
  unfold narrowBits
  simp only [Nat.pow_eq, hsign, htop, hlow, hnarrowed]
  omega

lemma narrow_widen (x : Float32) : narrow (widen x) = x := by
  rw [narrow, toBits_widen, narrowBits_widenBits x.toBits.toNat_lt, UInt32.ofNat_toNat,
    Float32.ofBits_toBits]

/-- Binary arithmetic that finds its numbers and its special values again among the doubles. -/
class FaithfulBinary (F : Type) [Binary F] : Prop where
  ofDouble_toDouble (x : F) : Binary.ofDouble (Binary.toDouble x) = x
  ofDouble_nan : Binary.ofDouble Float.nan = (0 / 0 : F)
  ofDouble_inf : Binary.ofDouble Float.inf = (Arithmetic.infinity : F)
  ofDouble_neg_inf : Binary.ofDouble (-Float.inf) = (-Arithmetic.infinity : F)

instance : FaithfulBinary Float where
  ofDouble_toDouble _ := rfl
  ofDouble_nan := by decide +kernel
  ofDouble_inf := by decide +kernel
  ofDouble_neg_inf := by decide +kernel

instance : FaithfulBinary Float32 where
  ofDouble_toDouble := narrow_widen
  ofDouble_nan := by decide +kernel
  ofDouble_inf := by decide +kernel
  ofDouble_neg_inf := by decide +kernel

section Special

open Float.Model Float.Model.UnpackedFloat

lemma eq_of_unpack_eq {x y : Float} (h : x.toModel.unpack = y.toModel.unpack) : x = y := by
  apply Float.toBits_inj.mp
  apply UInt64.toBitVec_inj.mp
  exact (unpack_inj_of_valid x.toModel.valid y.toModel.valid).mp h

lemma exists_infinity {x : Float} (hfinite : x.isFinite = false) (hnan : x.isNaN = false) :
    ∃ sign, x.toModel.unpack = infinity sign := by
  change x.toModel.unpack.isFinite = false at hfinite
  change x.toModel.unpack.isNaN = false at hnan
  cases h : x.toModel.unpack with
  | infinity sign => exact ⟨sign, rfl⟩
  | notANumber =>
    rw [h] at hnan
    cases hnan
  | zero sign =>
    rw [h] at hfinite
    cases hfinite
  | finite sign mantissa exponent hpos =>
    rw [h] at hfinite
    cases hfinite

/-- There are three doubles that are not finite, and two of them are numbers. -/
lemma eq_inf_or_neg_inf {x : Float} (hfinite : x.isFinite = false) (hnan : x.isNaN = false) :
    0 < x ∧ x = Float.inf ∨ ¬ 0 < x ∧ x = -Float.inf := by
  obtain ⟨sign, hsign⟩ := exists_infinity hfinite hnan
  cases sign with
  | positive =>
    obtain rfl : x = Float.inf := eq_of_unpack_eq (hsign.trans (by rfl))
    exact .inl ⟨by decide +kernel, rfl⟩
  | negative =>
    obtain rfl : x = -Float.inf := eq_of_unpack_eq (hsign.trans (by rfl))
    exact .inr ⟨by decide +kernel, rfl⟩

/-- A number that is not finite as a double is one of three, and the double tells which. -/
lemma special_of_toDouble {F : Type} [Binary F] [FaithfulBinary F] {x : F}
    (h : (Binary.toDouble x).isFinite = false) :
    (Binary.toDouble x).isNaN = true ∧ x = 0 / 0 ∨
      (Binary.toDouble x).isNaN = false ∧ (0 < Binary.toDouble x ∧ x = Arithmetic.infinity ∨
        ¬ 0 < Binary.toDouble x ∧ x = -Arithmetic.infinity) := by
  have hback := FaithfulBinary.ofDouble_toDouble x
  cases hnan : (Binary.toDouble x).isNaN with
  | true =>
    rw [Float.isNaN_eq_decide_eq_nan, decide_eq_true_eq] at hnan
    rw [hnan, FaithfulBinary.ofDouble_nan] at hback
    exact .inl ⟨rfl, hback.symm⟩
  | false =>
    refine .inr ⟨rfl, ?_⟩
    rcases eq_inf_or_neg_inf h hnan with ⟨hpos, hinf⟩ | ⟨hneg, hinf⟩
    · rw [hinf, FaithfulBinary.ofDouble_inf] at hback
      exact .inl ⟨hpos, hback.symm⟩
    · rw [hinf, FaithfulBinary.ofDouble_neg_inf] at hback
      exact .inr ⟨hneg, hback.symm⟩

end Special

end Downhill
