import BacktestAudit.Proofs.Decimal.Range

/-!
Signs of doubles. Integers that are not negative, their products and their quotients have no minus
sign, and what has none is not below zero.
-/
namespace BacktestAudit.Decimal
open Float.Model.UnpackedFloat (unpack pack unpackExponent unpackMantissa unpackSign packComponents
  Sign roundWithAccuracy)
open Float.Model (Format UnpackedFloat)
set_option autoImplicit false

/-! ## Values without a minus sign -/

/-- What has no minus sign. -/
def Unsigned : UnpackedFloat → Prop
  | .notANumber => True
  | .infinity s => s = .positive
  | .zero s => s = .positive
  | .finite s _ _ _ => s = .positive

theorem sign_of_components {format : Format} {s : Sign} {e : BitVec format.exponentBits}
    {m : BitVec format.mantissaBitsWithoutImplicit} :
    Sign.ofBitVec (unpackSign (packComponents format s e m)) = s := by
  have h : unpackSign (packComponents format s e m) = s.toBitVec := by
    refine BitVec.eq_of_getLsbD_eq fun i hi => ?_
    obtain rfl : i = 0 := by omega
    unfold unpackSign
    simp [packComponents, BitVec.getLsbD_append, BitVec.getElem_append]
  rw [h]
  cases s <;> rfl

theorem unsigned_unpack {b : BitVec 64}
    (h : Sign.ofBitVec (@unpackSign Format.binary64 b) = .positive) :
    Unsigned (unpack Format.binary64 b) := by
  unfold unpack
  dsimp only
  by_cases hfull : @unpackExponent Format.binary64 b = -1#_
  · rw [if_pos hfull]
    by_cases hmantissa : @unpackMantissa Format.binary64 b = 0#_
    · rw [if_pos hmantissa]
      exact h
    · rw [if_neg hmantissa]
      trivial
  · rw [if_neg hfull]
    by_cases hzero : @unpackExponent Format.binary64 b = 0#_
    · rw [if_pos hzero]
      by_cases hmantissa : @unpackMantissa Format.binary64 b = 0#_
      · rw [dif_pos hmantissa]
        exact h
      · rw [dif_neg hmantissa]
        exact h
    · rw [if_neg hzero]
      exact h

theorem unsigned_dite {c : Prop} [Decidable c] {f : c → UnpackedFloat} {g : ¬c → UnpackedFloat}
    (hf : ∀ h, Unsigned (f h)) (hg : ∀ h, Unsigned (g h)) : Unsigned (dite c f g) := by
  by_cases h : c
  · rw [dif_pos h]
    exact hf h
  · rw [dif_neg h]
    exact hg h

theorem unsigned_round (m : Nat) (e : Int) (a : UnpackedFloat.Accuracy) :
    Unsigned (roundWithAccuracy Format.binary64 .positive m e a) := by
  unfold roundWithAccuracy
  dsimp only
  exact unsigned_dite (fun _ => rfl) fun _ => rfl

theorem unsigned_pack {f : UnpackedFloat} (h : Unsigned f) :
    Unsigned (unpack Format.binary64 (pack Format.binary64 f)) := by
  refine unsigned_unpack ?_
  fun_cases UnpackedFloat.pack with
  | case1 => exact sign_of_components
  | case2 s => exact sign_of_components.trans h
  | case3 s => exact sign_of_components.trans h
  | case4 s => exact sign_of_components.trans h
  | case5 s => exact sign_of_components.trans h
  | case6 s => exact sign_of_components.trans h

theorem unsigned_mul {f g : UnpackedFloat} (hf : Unsigned f) (hg : Unsigned g) :
    Unsigned (UnpackedFloat.mul Format.binary64 f g) := by
  cases f <;> cases g <;> cases hf <;> cases hg <;> first | trivial | exact unsigned_round _ _ _

theorem unsigned_div {f g : UnpackedFloat} (hf : Unsigned f) (hg : Unsigned g) :
    Unsigned (UnpackedFloat.div Format.binary64 f g) := by
  cases f <;> cases g <;> cases hf <;> cases hg <;> first | trivial | exact unsigned_round _ _ _

theorem not_below_zero {x : Float} (h : Unsigned x.toModel.unpack) : ¬ x < 0 := by
  intro hlt
  have hlt : UnpackedFloat.lt x.toModel.unpack (.zero .positive) = true := of_decide_eq_true hlt
  cases hx : x.toModel.unpack with
  | notANumber => rw [hx] at hlt; nomatch hlt
  | infinity s => rw [hx] at h hlt; cases h; nomatch hlt
  | zero s => rw [hx] at h hlt; nomatch hlt
  | finite s m e hm => rw [hx] at h hlt; cases h; nomatch hlt

theorem unsigned_normalize (n : Nat) :
    Unsigned (UnpackedFloat.normalize Format.binary64 n 0 .positive) := by
  unfold UnpackedFloat.normalize
  split
  · next h => 
    rw [Int.compare_eq_lt] at h
    omega
  · rfl
  · exact unsigned_round _ _ _

theorem unsigned_finite {m : Nat} {e : Int} {h : 0 < m} : Unsigned (.finite .positive m e h) := rfl

theorem unsigned_scientific (m : Nat) (e : Int) :
    Unsigned (UnpackedFloat.ofScientific Format.binary64 m e) := by
  unfold UnpackedFloat.ofScientific
  refine unsigned_dite (fun _ => rfl) fun _ => ?_
  refine iteInduction (fun _ => rfl) fun _ => ?_
  refine iteInduction (fun _ => rfl) fun _ => ?_
  refine iteInduction (fun _ => ?_) fun _ => ?_
  · exact unsigned_mul unsigned_finite unsigned_finite
  · exact unsigned_div unsigned_finite unsigned_finite

theorem unsigned_of_nat (n : Nat) : Unsigned (Float.ofNat n).toModel.unpack := by
  unfold Float.ofNat
  change Unsigned (Float.ofScientific n false 0).toModel.unpack
  unfold Float.ofScientific
  split
  · next h =>
    refine unsigned_pack (unsigned_mul (unsigned_pack ?_) ?_)
    · exact unsigned_normalize _
    · change Unsigned (Float.ofBits 0x3FF0000000000000).toModel.unpack
      exact (rfl : Sign.positive = Sign.positive)
  · exact unsigned_pack (unsigned_scientific n 0)

theorem unsigned_quotient {x y : Float} (hx : Unsigned x.toModel.unpack)
    (hy : Unsigned y.toModel.unpack) : Unsigned (x / y).toModel.unpack :=
  unsigned_pack (unsigned_div hx hy)

/-! ## The sign of what is given -/

theorem sign_bits (b : BitVec 64) :
    (@unpackSign Format.binary64 b).toNat = b.toNat >>> 63 % 2 := by
  unfold unpackSign
  simp [BitVec.extractLsb, BitVec.extractLsb'_toNat]

theorem unsigned_of_bits {k : Nat} (h : k < 2 ^ 63) :
    Unsigned (Float.ofBits (UInt64.ofNat k)).toModel.unpack := by
  refine unsigned_pack (unsigned_unpack ?_)
  have hbit : @unpackSign Format.binary64 (UInt64.ofNat k).toBitVec = 0#1 := by
    rw [← BitVec.toNat_inj, sign_bits, UInt64.toNat_toBitVec, UInt64.toNat_ofNat']
    simp only [Nat.shiftRight_eq_div_pow]
    change _ = 0
    omega
  rw [hbit]
  rfl

theorem of_float_negative {x : Float} (h : x.toBits.toNat >>> 63 = 1) :
    (∃ m e, Binary64.ofFloat x = .finite true m e) ∨ Binary64.ofFloat x = .infinite true ∨
      Binary64.ofFloat x = .nan := by
  unfold Binary64.ofFloat
  simp only [h, decide_true]
  split
  · split
    · exact .inr (.inl rfl)
    · exact .inr (.inr rfl)
  · split
    · exact .inl ⟨_, _, rfl⟩
    · exact .inl ⟨_, _, rfl⟩

theorem le_zero_of_lt {x : Float} (h : x < 0) : (Extended.ofFloat x).le (.ofInt 0) = true := by
  have hneg : x.toBits.toNat >>> 63 = 1 := by
    refine Decidable.byContradiction fun hpos => ?_
    have hbit : @unpackSign Format.binary64 x.toBits.toBitVec = 0#1 := by
      have hword := x.toBits.toNat_lt
      rw [← BitVec.toNat_inj, sign_bits, UInt64.toNat_toBitVec]
      simp only [Nat.shiftRight_eq_div_pow] at hpos ⊢
      change _ = 0
      omega
    refine not_below_zero (unsigned_unpack ?_) h
    change Sign.ofBitVec (@unpackSign Format.binary64 x.toBits.toBitVec) = _
    rw [hbit]
    rfl
  have hnumber := (numbers_of_lt h).1
  unfold Extended.ofFloat at hnumber ⊢
  rcases of_float_negative hneg with ⟨m, e, hx⟩ | hx | hx
  · rw [hx]
    simp only [Extended.le, Extended.lt, Extended.same, Extended.ofInt, if_true, Bool.or_eq_true,
      decide_eq_true_eq, beq_iff_eq]
    omega
  · rw [hx]
    rfl
  · rw [hx] at hnumber
    exact absurd rfl hnumber

/-! ## Integers -/

theorem unsigned_of_int {n : Int} (h : 0 ≤ n) : Unsigned (Binary64.ofInt n).toModel.unpack := by
  have hsign : decide (n < 0) = false := decide_eq_false (by omega)
  unfold Binary64.ofInt
  rw [hsign]
  by_cases hn : n.natAbs = 0
  · rw [hn]
    exact unsigned_of_bits (by decide)
  · rw [Binary64.nearest_eq false hn Nat.one_ne_zero]
    have hbits := Binary64.magnitude_bits_le (Binary64.roundingExponent n.natAbs 1)
      (@Binary64.rounded_le n.natAbs 1 Nat.one_ne_zero)
    refine unsigned_of_bits (Nat.lt_of_le_of_lt (Nat.add_le_add_left hbits _) ?_)
    decide

end BacktestAudit.Decimal
