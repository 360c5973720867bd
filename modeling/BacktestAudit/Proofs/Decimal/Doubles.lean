import BacktestAudit.Decimal.Extended

/-!
Which doubles are no number. The value of a double that its bits tell is the one by which doubles are
compared and computed with; what is less than something is a number, and so is the nearest double to
any ratio.
-/
namespace BacktestAudit.Decimal
open Float.Model.UnpackedFloat (unpack pack unpackExponent unpackMantissa packedInfinity packedZero
  unpackExponent_packComponents)
open Float.Model (Format UnpackedFloat)
set_option autoImplicit false

/-! ## Fields of a word -/

theorem exponent_bits (b : BitVec 64) :
    (@unpackExponent Format.binary64 b).toNat = (b.toNat >>> 52) % 2048 := by
  simp [unpackExponent, BitVec.extractLsb, BitVec.extractLsb'_toNat]

theorem mantissa_bits (b : BitVec 64) :
    (@unpackMantissa Format.binary64 b).toNat = b.toNat % (1 <<< 52) := by
  simp [unpackMantissa, BitVec.extractLsb, BitVec.extractLsb'_toNat]

theorem exponent_full_iff (b : BitVec 64) :
    @unpackExponent Format.binary64 b = -1#_ ↔ (b.toNat >>> 52) % 2048 = 2047 := by
  rw [← exponent_bits, ← BitVec.toNat_inj]
  rfl

theorem mantissa_zero_iff (b : BitVec 64) :
    @unpackMantissa Format.binary64 b = 0#_ ↔ b.toNat % (1 <<< 52) = 0 := by
  rw [← mantissa_bits, ← BitVec.toNat_inj]
  rfl

theorem unpack_eq_nan_iff (b : BitVec 64) :
    unpack Format.binary64 b = .notANumber ↔
      (b.toNat >>> 52) % 2048 = 2047 ∧ b.toNat % (1 <<< 52) ≠ 0 := by
  rw [Ne, ← exponent_full_iff, ← mantissa_zero_iff]
  unfold unpack
  dsimp only
  by_cases hexponent : @unpackExponent Format.binary64 b = -1#_
  · rw [if_pos hexponent]
    by_cases hmantissa : @unpackMantissa Format.binary64 b = 0#_
    · rw [if_pos hmantissa]
      refine iff_of_false (fun h => ?_) fun h => h.2 hmantissa
      cases h
    · rw [if_neg hmantissa]
      exact iff_of_true rfl ⟨hexponent, hmantissa⟩
  · rw [if_neg hexponent]
    refine iff_of_false (fun h => ?_) fun h => hexponent h.1
    by_cases hzero : @unpackExponent Format.binary64 b = 0#_
    · rw [if_pos hzero] at h
      by_cases hmantissa : @unpackMantissa Format.binary64 b = 0#_
      · rw [dif_pos hmantissa] at h
        cases h
      · rw [dif_neg hmantissa] at h
        cases h
    · rw [if_neg hzero] at h
      cases h

theorem of_float_eq_nan_iff (x : Float) :
    Binary64.ofFloat x = .nan ↔ x.toModel.unpack = .notANumber := by
  unfold Float.Model.unpack
  rw [unpack_eq_nan_iff]
  change _ ↔ (x.toBits.toNat >>> 52) % 2048 = 2047 ∧ x.toBits.toNat % (1 <<< 52) ≠ 0
  unfold Binary64.ofFloat
  dsimp only
  split
  · split <;> simp_all
  · split <;> simp_all

theorem Extended.of_float_eq_nan_iff (x : Float) :
    Extended.ofFloat x = .nan ↔ Binary64.ofFloat x = .nan := by
  unfold Extended.ofFloat
  cases Binary64.ofFloat x <;> simp

/-! ## Comparisons -/

theorem numbers_of_lt {a b : Float} (h : a < b) :
    Extended.ofFloat a ≠ .nan ∧ Extended.ofFloat b ≠ .nan := by
  have h : UnpackedFloat.lt a.toModel.unpack b.toModel.unpack = true := of_decide_eq_true h
  simp only [Ne, Extended.of_float_eq_nan_iff, of_float_eq_nan_iff]
  constructor <;> intro hn <;> rw [hn] at h
  · cases hb : b.toModel.unpack <;> rw [hb] at h <;> cases h
  · cases ha : a.toModel.unpack <;> rw [ha] at h <;> cases h

/-! ## Words of numbers -/

theorem unpack_pack_ne_nan {f : UnpackedFloat} (h : f ≠ .notANumber) :
    unpack Format.binary64 (pack Format.binary64 f) ≠ .notANumber := by
  rw [Ne, unpack_eq_nan_iff, Ne, ← exponent_full_iff, ← mantissa_zero_iff]
  fun_cases UnpackedFloat.pack with
  | case1 => exact absurd rfl h
  | case2 => simp [packedInfinity]
  | case3 => simp [packedZero]
  | case4 => simp [packedInfinity]
  | case5 s m e _ _ biased hbiased _ =>
    -- The exponent of a number in range is never full.
    rw [unpackExponent_packComponents]
    rintro ⟨he, -⟩
    have hlt : biased < 2047 := by simpa using hbiased
    have he := congrArg BitVec.toNat he
    rw [BitVec.toNat_ofNat, Nat.mod_eq_of_lt (by simp; omega)] at he
    change _ = 2047 at he
    omega
  | case6 => simp

theorem of_bits_ne_nan {n : Nat} (h : (n >>> 52) % 2048 = 2047 → n % (1 <<< 52) = 0) :
    Extended.ofFloat (Float.ofBits (UInt64.ofNat n)) ≠ .nan := by
  rw [Ne, Extended.of_float_eq_nan_iff, of_float_eq_nan_iff]
  refine @unpack_pack_ne_nan (unpack Format.binary64 (UInt64.ofNat n).toBitVec) ?_
  rw [Ne, unpack_eq_nan_iff]
  rintro ⟨hfield, hfraction⟩
  rw [UInt64.toNat_toBitVec, UInt64.toNat_ofNat'] at hfield hfraction
  simp only [Nat.shiftRight_eq_div_pow, Nat.one_shiftLeft] at *
  omega

/-! ## The nearest double -/

namespace Binary64

theorem magnitude_bits_number {m : Nat} (e : Int) (negative : Bool) (hm : m ≤ 1 <<< 53) :
    (signBit negative + magnitudeBits m e) >>> 52 % 2048 = 2047 →
      (signBit negative + magnitudeBits m e) % (1 <<< 52) = 0 := by
  have hs : signBit negative = 0 ∨ signBit negative = 2 ^ 63 := by
    cases negative <;> simp [signBit]
  simp only [Nat.one_shiftLeft, Nat.shiftRight_eq_div_pow] at *
  unfold magnitudeBits
  split
  next m' e' h =>
    have hm' : m' < 2 ^ 53 := by
      simp only [Nat.one_shiftLeft] at h
      split at h <;> cases h <;> omega
    simp only [Nat.shiftLeft_eq]
    split
    · omega
    · split
      · omega
      · have he' : (e' + 1075).toNat ≤ 2046 := by omega
        omega

def quotient (num den : Nat) (e : Int) : Nat :=
  if 0 ≤ e then num / (den <<< e.toNat) else (num <<< (-e).toNat) / den

theorem quotient_lt {num den k : Nat} {e : Int} (hden : den ≠ 0)
    (h : (num.log2 : Int) + 1 ≤ den.log2 + e + k) : quotient num den e < 1 <<< k := by
  rw [Nat.one_shiftLeft]
  have hnum : num < 2 ^ (num.log2 + 1) := Nat.lt_log2_self
  have hlog : 2 ^ den.log2 ≤ den := Nat.log2_self_le hden
  unfold quotient
  split
  · refine Nat.div_lt_of_lt_mul (Nat.lt_of_lt_of_le hnum ?_)
    rw [Nat.shiftLeft_eq, Nat.mul_assoc, ← Nat.pow_add]
    calc 2 ^ (num.log2 + 1) ≤ 2 ^ (den.log2 + (e.toNat + k)) :=
          Nat.pow_le_pow_right (by decide) (by omega)
      _ = 2 ^ den.log2 * 2 ^ (e.toNat + k) := Nat.pow_add ..
      _ ≤ den * 2 ^ (e.toNat + k) := Nat.mul_le_mul_right _ hlog
  · refine Nat.div_lt_of_lt_mul ?_
    rw [Nat.shiftLeft_eq]
    calc num * 2 ^ (-e).toNat < 2 ^ (num.log2 + 1) * 2 ^ (-e).toNat :=
          Nat.mul_lt_mul_of_pos_right hnum (Nat.two_pow_pos _)
      _ = 2 ^ (num.log2 + 1 + (-e).toNat) := (Nat.pow_add ..).symm
      _ ≤ 2 ^ (den.log2 + k) := Nat.pow_le_pow_right (by decide) (by omega)
      _ = 2 ^ den.log2 * 2 ^ k := Nat.pow_add ..
      _ ≤ den * 2 ^ k := Nat.mul_le_mul_right _ hlog

theorem quotient_of_exponent_lt {num den : Nat} {low : Int} (hden : den ≠ 0)
    (hlow : (num.log2 : Int) - den.log2 - 53 ≤ low) :
    quotient num den (if 1 <<< 53 ≤ quotient num den low then low + 1 else low) < 1 <<< 53 := by
  split
  · exact quotient_lt hden (by omega)
  · omega

theorem nearest_ne_nan (negative : Bool) (num den : Nat) :
    Extended.ofFloat (nearest negative num den) ≠ .nan := by
  unfold nearest
  refine of_bits_ne_nan ?_
  dsimp only
  split
  · cases negative <;> decide
  · next hzero =>
    have hden : den ≠ 0 := by simp_all
    refine magnitude_bits_number _ negative ?_
    -- Rounding adds at most one to a quotient that has no bit too many.
    have hlt := @quotient_of_exponent_lt num den _ hden (Int.le_max_left _ (-1074))
    unfold quotient at hlt
    generalize (if 1 <<< 53 ≤ _ then _ else _ : Int) = e at hlt ⊢
    split
    · next he =>
      rw [if_pos he] at hlt
      exact Nat.le_trans (round_div_le _ _) hlt
    · next he =>
      rw [if_neg he] at hlt
      exact Nat.le_trans (round_div_le _ _) hlt

end Binary64
end BacktestAudit.Decimal
