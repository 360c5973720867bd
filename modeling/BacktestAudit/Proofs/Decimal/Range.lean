import Mathlib.Algebra.Group.Nat.Defs
import BacktestAudit.Proofs.Decimal.Doubles

/-!
The range of doubles. No finite double is beyond the greatest one, and an integer that is not beyond
it has a finite double next to it.
-/
namespace BacktestAudit.Decimal
open Float.Model.UnpackedFloat (unpack pack unpackExponent unpackMantissa packedZero
  unpackExponent_packComponents Sign)
open Float.Model (Format)
set_option autoImplicit false

/-! ## Finite doubles -/

def widest (k : Nat) : Nat := (2 ^ 53 - 1) * 2 ^ k

theorem one_le_widest (k : Nat) : 1 ≤ widest k :=
  Nat.mul_pos (by decide) (Nat.two_pow_pos k)

def greatest : Nat := widest 971

theorem finite_bounds {x : Float} {negative : Bool} {m : Nat} {e : Int}
    (h : Binary64.ofFloat x = .finite negative m e) : m < 2 ^ 53 ∧ e ≤ 971 := by
  unfold Binary64.ofFloat at h
  dsimp only at h
  split at h
  · split at h <;> nomatch h
  · split at h
    · cases h
      simp only [Nat.one_shiftLeft]
      omega
    · cases h
      simp only [Nat.one_shiftLeft, Nat.shiftRight_eq_div_pow] at *
      omega

theorem scaled_le {m k : Nat} {e : Int} (hm : m < 2 ^ 53) (he : e ≤ k) :
    (Binary64.scaled m e).1 ≤ widest k * (Binary64.scaled m e).2 := by
  have hm : m ≤ 2 ^ 53 - 1 := by omega
  unfold Binary64.scaled widest
  split
  · dsimp only
    rw [Nat.shiftLeft_eq, Nat.mul_one]
    exact Nat.mul_le_mul hm (Nat.pow_le_pow_right (by decide) (by omega))
  · dsimp only
    have hone : 1 ≤ 2 ^ k * 1 <<< (-e).toNat := by
      rw [Nat.one_shiftLeft, ← Nat.pow_add]
      exact Nat.one_le_two_pow
    calc m ≤ (2 ^ 53 - 1) * 1 := by omega
      _ ≤ (2 ^ 53 - 1) * (2 ^ k * 1 <<< (-e).toNat) := Nat.mul_le_mul_left _ hone
      _ = (2 ^ 53 - 1) * 2 ^ k * 1 <<< (-e).toNat := (Nat.mul_assoc ..).symm

theorem scaled_pos (m : Nat) (e : Int) : 0 < (Binary64.scaled m e).2 := by
  unfold Binary64.scaled
  split
  · exact Nat.one_pos
  · rw [Nat.one_shiftLeft]
    exact Nat.two_pow_pos _

theorem ratio_pos {x : Float} {num : Int} {den : Nat} (h : Extended.ofFloat x = .ratio num den) :
    0 < den := by
  unfold Extended.ofFloat at h
  split at h
  · cases h
    exact scaled_pos _ _
  · cases h
  · cases h

theorem ratio_le_greatest {x : Float} {num : Int} {den : Nat}
    (h : Extended.ofFloat x = .ratio num den) : num ≤ greatest * den := by
  unfold Extended.ofFloat at h
  split at h
  · next negative m e hx =>
    obtain ⟨hm, he⟩ := finite_bounds hx
    have hscaled : (Binary64.scaled m e).1 ≤ greatest * (Binary64.scaled m e).2 :=
      scaled_le hm he
    simp only [Extended.ratio.injEq] at h
    obtain ⟨rfl, rfl⟩ := h
    have hcast := Int.ofNat_le.mpr hscaled
    rw [Int.natCast_mul] at hcast
    split <;> omega
  · nomatch h
  · nomatch h

theorem round_div_le_of_le {num den q : Nat} (h : num ≤ q * den) : roundDiv num den ≤ q := by
  have hdiv : num / den ≤ q := Nat.div_le_of_le_mul (by rw [Nat.mul_comm]; exact h)
  rcases Nat.lt_or_eq_of_le hdiv with hlt | rfl
  · exact Nat.le_trans (round_div_le num den) hlt
  · have hmod : num % den = 0 := by
      have hsplit := Nat.div_add_mod num den
      rw [Nat.mul_comm] at hsplit
      omega
    unfold roundDiv
    dsimp only
    rw [hmod]
    split
    · exact Nat.le_refl _
    · split
      · omega
      · next hden _ =>
        obtain rfl : den = 0 := by omega
        simp

/-! ## Rounding -/

namespace Binary64

def roundingExponent (num den : Nat) : Int :=
  let low := max ((num.log2 : Int) - den.log2 - 53) (-1074)
  if 1 <<< 53 ≤ quotient num den low then low + 1 else low

def roundedAt (num den : Nat) (e : Int) : Nat :=
  if 0 ≤ e then roundDiv num (den <<< e.toNat) else roundDiv (num <<< (-e).toNat) den

theorem nearest_eq {num den : Nat} (negative : Bool) (hnum : num ≠ 0) (hden : den ≠ 0) :
    nearest negative num den = Float.ofBits (UInt64.ofNat (signBit negative +
      magnitudeBits (roundedAt num den (roundingExponent num den)) (roundingExponent num den))) := by
  have hne : ¬ (decide (num = 0) || decide (den = 0)) = true := by simp [hnum, hden]
  unfold nearest roundedAt roundingExponent quotient
  dsimp only
  rw [if_neg hne]

theorem rounded_le {num den : Nat} (hden : den ≠ 0) :
    roundedAt num den (roundingExponent num den) ≤ 1 <<< 53 := by
  have hlt := @quotient_of_exponent_lt num den _ hden (Int.le_max_left _ (-1074))
  change quotient num den (roundingExponent num den) < 1 <<< 53 at hlt
  unfold roundedAt
  unfold quotient at hlt
  split
  · next he =>
    rw [if_pos he] at hlt
    exact Nat.le_trans (round_div_le _ _) hlt
  · next he =>
    rw [if_neg he] at hlt
    exact Nat.le_trans (round_div_le _ _) hlt

theorem magnitude_bits_le {m : Nat} (e : Int) (hm : m ≤ 1 <<< 53) :
    magnitudeBits m e ≤ 2047 <<< 52 := by
  simp only [Nat.one_shiftLeft] at hm
  unfold magnitudeBits
  split
  next m' e' h =>
    have hm' : m' < 2 ^ 53 := by
      simp only [Nat.one_shiftLeft] at h
      split at h <;> cases h <;> omega
    simp only [Nat.shiftLeft_eq]
    split
    · omega
    · split <;> omega

theorem magnitude_bits_lt {m : Nat} {e : Int} (hm : m ≤ 1 <<< 53)
    (he : e < 971 ∨ e = 971 ∧ m < 1 <<< 53) : magnitudeBits m e < 2047 <<< 52 := by
  simp only [Nat.one_shiftLeft] at hm he
  unfold magnitudeBits
  split
  next m' e' h =>
    have hbounds : m' < 2 ^ 53 ∧ e' ≤ 971 := by
      simp only [Nat.one_shiftLeft] at h
      split at h <;> cases h <;> omega
    obtain ⟨hm', he'⟩ := hbounds
    simp only [Nat.shiftLeft_eq]
    split
    · omega
    · rw [if_neg (by omega)]
      omega

theorem log_lt {n k : Nat} (hn : n ≠ 0) (h : n ≤ widest k) : n.log2 < 53 + k := by
  rw [Nat.log2_lt hn, Nat.pow_add]
  exact Nat.lt_of_le_of_lt h (Nat.mul_lt_mul_of_pos_right (by decide) (Nat.two_pow_pos _))

theorem rounded_at_lt {n k : Nat} (h : n ≤ widest k) : roundedAt n 1 k < 1 <<< 53 := by
  unfold roundedAt
  rw [if_pos (Int.natCast_nonneg k), Int.toNat_natCast, Nat.one_shiftLeft, Nat.one_shiftLeft]
  exact Nat.lt_of_le_of_lt (round_div_le_of_le h) (by decide)

theorem rounding_in_range {n : Nat} (hn : n ≠ 0) (h : n ≤ greatest) :
    roundingExponent n 1 < 971 ∨
      roundingExponent n 1 = 971 ∧ roundedAt n 1 (roundingExponent n 1) < 1 <<< 53 := by
  have hlog : n.log2 < 53 + 971 := log_lt hn h
  have hle : roundingExponent n 1 ≤ 971 := by
    unfold roundingExponent
    dsimp only
    have hone : Nat.log2 1 = 0 := rfl
    rw [hone]
    split <;> omega
  rcases Int.lt_or_eq_of_le hle with hlt | heq
  · exact .inl hlt
  · refine .inr ⟨heq, ?_⟩
    rw [heq]
    exact rounded_at_lt h

/-! ## Words of finite doubles -/

theorem pack_exponent_ne {s : Sign} {m : Nat} {e : Int} {hm : 0 < m} (he : e ≤ 971) :
    unpackExponent (pack Format.binary64 (.finite s m e hm)) ≠ -1#_ := by
  unfold pack
  dsimp only
  have hbiased : (e + (Format.binary64.exponentBias : Int) +
      (Format.binary64.mantissaBitsWithoutImplicit : Int)).toNat ≤ 2046 := by
    have hinside : (e + 1023 + 52).toNat ≤ 2046 := by omega
    exact hinside
  generalize (e + (Format.binary64.exponentBias : Int) +
      (Format.binary64.mantissaBitsWithoutImplicit : Int)).toNat = biased at hbiased
  have hinside : ¬ 2048 ≤ biased + 1 := by omega
  rw [if_neg (show ¬ 2 ^ Format.binary64.exponentBits ≤ biased + 1 from hinside)]
  split
  · rw [unpackExponent_packComponents, Ne, ← BitVec.toNat_inj, BitVec.toNat_ofNat]
    change ¬ biased % 2048 = 2047
    omega
  · rw [unpackExponent_packComponents]
    decide

theorem exponent_stays {b : BitVec 64} (h : @unpackExponent Format.binary64 b ≠ -1#_) :
    unpackExponent (pack Format.binary64 (unpack Format.binary64 b)) ≠ -1#_ := by
  have hfull : (@unpackExponent Format.binary64 b).toNat ≤ 2046 := by
    rw [Ne, exponent_full_iff, ← exponent_bits] at h
    have hbits := (@unpackExponent Format.binary64 b).isLt
    change _ < 2048 at hbits
    omega
  have hle : ∀ k : Nat, k ≤ 2046 → (k : Int) - (1023 + 52) + 1 ≤ 972 := fun _ _ => by omega
  have hexponent := hle _ hfull
  unfold unpack
  dsimp only
  rw [if_neg h]
  by_cases hzero : @unpackExponent Format.binary64 b = 0#_
  · rw [if_pos hzero]
    by_cases hmantissa : @unpackMantissa Format.binary64 b = 0#_
    · rw [dif_pos hmantissa]
      change unpackExponent (packedZero Format.binary64 _) ≠ _
      unfold packedZero
      rw [unpackExponent_packComponents]
      decide
    · rw [dif_neg hmantissa]
      refine pack_exponent_ne ?_
      rw [hzero]
      decide
  · rw [if_neg hzero]
    exact pack_exponent_ne (Int.le_of_add_le_add_right hexponent)

theorem finite_of_bits {negative : Bool} {k : Nat} (h : k < 2047 <<< 52) :
    isFinite (Float.ofBits (UInt64.ofNat (signBit negative + k))) = true := by
  have hs : signBit negative = 0 ∨ signBit negative = 2 ^ 63 := by
    cases negative <;> simp [signBit]
  have hfield : @unpackExponent Format.binary64
      (UInt64.ofNat (signBit negative + k)).toBitVec ≠ -1#_ := by
    rw [Ne, exponent_full_iff, UInt64.toNat_toBitVec, UInt64.toNat_ofNat']
    simp only [Nat.shiftRight_eq_div_pow, Nat.shiftLeft_eq] at h ⊢
    omega
  have hkept := exponent_stays hfield
  rw [Ne, exponent_full_iff] at hkept
  unfold isFinite ofFloat
  change ¬ (Float.ofBits (UInt64.ofNat (signBit negative + k))).toBits.toNat >>> 52 % 2048 = 2047
    at hkept
  dsimp only
  rw [if_neg hkept]
  by_cases hzero :
      (Float.ofBits (UInt64.ofNat (signBit negative + k))).toBits.toNat >>> 52 % 2048 = 0
  · rw [if_pos hzero]
  · rw [if_neg hzero]

theorem ratio_of_finite {x : Float} (h : isFinite x = true) :
    ∃ num den, Extended.ofFloat x = .ratio num den := by
  unfold isFinite at h
  unfold Extended.ofFloat
  split at h
  · next hx =>
    rw [hx]
    exact ⟨_, _, rfl⟩
  · cases h

theorem ratio_eq_some {x : Float} {num : Int} {den : Nat} (h : ratio? x = some (num, den)) :
    Extended.ofFloat x = .ratio num den := by
  unfold ratio? at h
  unfold Extended.ofFloat
  split at h
  · next negative m e hx =>
    rw [hx]
    simp only [Option.some.injEq, Prod.mk.injEq] at h
    obtain ⟨rfl, rfl⟩ := h
    rfl
  · cases h

theorem int_fits_of_le {n : Int} (h : n.natAbs ≤ greatest) : intFits n = true := by
  unfold intFits ofInt
  by_cases hn : n.natAbs = 0
  · obtain rfl : n = 0 := by omega
    decide
  · rw [nearest_eq _ hn Nat.one_ne_zero]
    exact finite_of_bits (magnitude_bits_lt (rounded_le Nat.one_ne_zero) (rounding_in_range hn h))

theorem not_lt_of_beyond {k : Int} {x : Float} (hk : intFits k = false) (hnonneg : 0 ≤ k)
    (hx : isFinite x = true) : (Extended.ofInt k).lt (Extended.ofFloat x) = false := by
  obtain ⟨num, den, hratio⟩ := ratio_of_finite hx
  rw [hratio, Extended.ofInt, Extended.lt, decide_eq_false_iff_not]
  intro hlt
  have hle := ratio_le_greatest hratio
  have hbeyond : (greatest : Int) < k := by
    refine Int.not_le.mp fun hfew => ?_
    rw [int_fits_of_le (by omega)] at hk
    cases hk
  have hscaled : (greatest : Int) * den ≤ k * den :=
    Int.mul_le_mul_of_nonneg_right (Int.le_of_lt hbeyond) (Int.natCast_nonneg den)
  omega

end Binary64
end BacktestAudit.Decimal
