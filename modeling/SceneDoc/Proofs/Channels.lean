import SceneDoc.Proofs.Rounding
import SceneDoc.Value.Color

namespace SceneDoc

-- Powers are those of the core library, also where more algebra is in scope.
attribute [local instance (high)] instPowNat

variable {tie : Tie} {num den m n top : Nat} {negative : Bool} {x : Double}

/-- Rounding to a whole number never passes one. -/
theorem roundDiv_le_of_le (pos : 0 < den) (h : num ≤ n * den) : roundDiv tie num den ≤ n := by
  have quotient : num / den ≤ n := Nat.div_le_of_le_mul (Nat.mul_comm n den ▸ h)
  rcases Nat.lt_or_eq_of_le quotient with smaller | rfl
  · exact Nat.le_trans (roundDiv_le tie num den) smaller
  · have rest : num % den = 0 := by
      have := Nat.div_add_mod' num den
      omega
    simp [roundDiv, rest, pos]

theorem roundDiv_mul (pos : 0 < den) : roundDiv tie (n * den) den = n := by
  simp [roundDiv, Nat.mul_div_cancel n pos, pos]

namespace Precision

/-- Below a double, doubles are no further apart than there. -/
theorem spacing_dvd_of_le (aligned : Aligned m) (h : n ≤ m) : 2 ^ double.step n ∣ m := by
  rw [step_double]
  by_cases zero : n = 0
  · rw [zero, Nat.log2_zero]
    exact Nat.one_dvd m
  · have log : n.log2 ≤ m.log2 := by
      rw [Nat.le_log2 (by omega)]
      exact Nat.le_trans (Nat.log2_self_le zero) h
    exact Nat.dvd_trans (Nat.pow_dvd_pow 2 (by omega)) aligned

/-- Rounding never passes a number that a double can hold. -/
theorem round_le_of_aligned (aligned : Aligned m) (pos : 0 < den) (h : num ≤ m * den) :
    double.round num den ≤ m := by
  have quotient : num / den ≤ m := Nat.div_le_of_le_mul (Nat.mul_comm m den ▸ h)
  obtain ⟨k, hk⟩ := spacing_dvd_of_le aligned quotient
  have wide := Nat.two_pow_pos (double.step (num / den))
  unfold round
  dsimp only
  generalize 2 ^ double.step (num / den) = spacing at *
  have steps : roundDiv .toEven num (den * spacing) ≤ k := by
    refine roundDiv_le_of_le (Nat.mul_pos pos wide) ?_
    calc
      num ≤ m * den := h
      _ = k * (den * spacing) := by rw [hk]; ac_rfl
  calc
    roundDiv .toEven num (den * spacing) * spacing ≤ k * spacing := Nat.mul_le_mul_right _ steps
    _ = m := by rw [hk, Nat.mul_comm]

/-- What a double can hold is rounded to itself. -/
theorem round_aligned (aligned : Aligned m) : double.round m 1 = m := by
  obtain ⟨k, hk⟩ := spacing_dvd_of_le aligned (Nat.le_refl m)
  have wide := Nat.two_pow_pos (double.step m)
  unfold round
  dsimp only
  rw [Nat.div_one, Nat.one_mul]
  generalize 2 ^ double.step m = spacing at *
  rw [hk, Nat.mul_comm spacing k, roundDiv_mul wide]

end Precision

/-- Whole numbers of up to 53 bits can be held by a double. -/
theorem aligned_whole (small : n ≤ 2 ^ (53 : Nat)) : Aligned (n * unitsPerOne) := by
  unfold unitsPerOne
  exact aligned_mul_two_pow (k := 1074) small

theorem whole_lt_unitsLimit (small : n ≤ 2 ^ (53 : Nat)) : n * unitsPerOne < unitsLimit := by
  have limit : 2 ^ (53 : Nat) * unitsPerOne < unitsLimit := by decide +kernel
  exact Nat.lt_of_le_of_lt (Nat.mul_le_mul_right _ small) limit

namespace Double

theorem isUpTo_iff :
    x.isUpTo top = true ↔ ∃ v, x = .finite v ∧ (v.units = 0 ∨ v.negative = false) ∧
      v.units ≤ top * unitsPerOne := by
  cases x <;> simp [isUpTo]

theorem isFinite_of_isUpTo (h : x.isUpTo top = true) : x.isFinite = true := by
  obtain ⟨v, rfl, _⟩ := isUpTo_iff.mp h
  rfl

/-- A quotient that does not overflow is rounded to its sign and so many units. -/
theorem ofRatio_eq_finite (negative : Bool)
    (h : Precision.double.round (num * unitsPerOne) den < unitsLimit) :
    ∃ v, ofRatio negative num den = .finite v ∧ v.negative = negative ∧
      v.units = Precision.double.round (num * unitsPerOne) den := by
  unfold ofRatio ofUnits
  rw [dif_pos h]
  exact ⟨_, rfl, rfl, rfl⟩

/-- Quotients up to a whole number are rounded to doubles up to it. -/
theorem isUpTo_ofRatio (small : top ≤ 2 ^ (53 : Nat)) (pos : 0 < den)
    (sign : num = 0 ∨ negative = false) (h : num ≤ top * den) :
    (ofRatio negative num den).isUpTo top = true := by
  have units : Precision.double.round (num * unitsPerOne) den ≤ top * unitsPerOne := by
    refine Precision.round_le_of_aligned (aligned_whole small) pos ?_
    rw [Nat.mul_right_comm]
    exact Nat.mul_le_mul_right _ h
  obtain ⟨v, hv, hnegative, hunits⟩ :=
    ofRatio_eq_finite negative (Nat.lt_of_le_of_lt units (whole_lt_unitsLimit small))
  refine isUpTo_iff.mpr ⟨v, hv, ?_, hunits ▸ units⟩
  rcases sign with rfl | rfl
  · left
    have zero : Precision.double.round (0 * unitsPerOne) den ≤ 0 := by
      rw [Nat.zero_mul]
      exact Precision.round_le_of_aligned (Nat.dvd_zero _) pos (Nat.zero_le _)
    rw [hunits]
    exact Nat.le_zero.mp zero
  · exact .inr hnegative

/-- Whole numbers are held exactly. -/
theorem ofRatio_whole (negative : Bool) (small : n ≤ 2 ^ (53 : Nat)) :
    ∃ v, ofRatio negative n 1 = .finite v ∧ v.negative = negative ∧ v.units = n * unitsPerOne := by
  have units := Precision.round_aligned (aligned_whole small)
  have bounded : Precision.double.round (n * unitsPerOne) 1 < unitsLimit := by
    rw [units]
    exact whole_lt_unitsLimit small
  obtain ⟨v, hv, hnegative, hunits⟩ := ofRatio_eq_finite negative bounded
  exact ⟨v, hv, hnegative, hunits.trans units⟩

theorem isIntegral_ofRatio (small : n ≤ 2 ^ (53 : Nat)) :
    (ofRatio negative n 1).isIntegral = true := by
  obtain ⟨v, hv, _, hunits⟩ := ofRatio_whole negative small
  rw [hv, isIntegral, hunits, Nat.mul_mod_left]
  rfl

/-- The double is this whole number, without a sign. -/
def IsNat (x : Double) (n : Nat) : Prop :=
  ∃ v, x = .finite v ∧ v.negative = false ∧ v.units = n * unitsPerOne

theorem isNat_ofInt (small : n ≤ 2 ^ (53 : Nat)) : (ofInt n).IsNat n := by
  obtain ⟨v, hv, hnegative, hunits⟩ := ofRatio_whole ((n : Int) < 0) small
  exact ⟨v, hv, hnegative.trans (decide_eq_false (by omega)), hunits⟩

theorem IsNat.unique {y : Double} (hx : x.IsNat n) (hy : y.IsNat n) : x = y := by
  obtain ⟨v, rfl, vsign, vunits⟩ := hx
  obtain ⟨w, rfl, wsign, wunits⟩ := hy
  cases v
  cases w
  rw [finite.injEq, Finite.mk.injEq]
  exact ⟨vsign.trans wsign.symm, vunits.trans wunits.symm⟩

theorem isUpTo_divNat (h : x.isUpTo 255 = true) : (x.divNat 255).isUpTo 1 = true := by
  obtain ⟨v, rfl, sign, units⟩ := isUpTo_iff.mp h
  refine isUpTo_ofRatio (by decide) (Nat.mul_pos (by decide) unitsPerOne_pos) sign ?_
  rwa [Nat.one_mul]

theorem isUpTo_mulNat (h : x.isUpTo 1 = true) : (x.mulNat 255).isUpTo 255 = true := by
  obtain ⟨v, rfl, sign, units⟩ := isUpTo_iff.mp h
  refine isUpTo_ofRatio (by decide) unitsPerOne_pos (sign.imp_left fun zero => ?_) ?_
  · rw [zero, Nat.zero_mul]
  · omega

end Double

theorem isByteChannel_iff :
    isByteChannel x = true ↔ x.isIntegral = true ∧ x.isUpTo 255 = true := by
  rw [isByteChannel, Bool.and_eq_true]

theorem isByteChannel_ofRatio (small : n ≤ 255) (sign : n = 0 ∨ negative = false) :
    isByteChannel (.ofRatio negative n 1) = true := by
  have bits : n ≤ 2 ^ (53 : Nat) := Nat.le_trans small (by decide)
  refine isByteChannel_iff.mpr ⟨Double.isIntegral_ofRatio bits, ?_⟩
  exact Double.isUpTo_ofRatio (by decide) Nat.one_pos sign (by omega)

/-- Bytes are channels. -/
theorem isByteChannel_ofInt (small : n ≤ 255) : isByteChannel (.ofInt n) = true :=
  isByteChannel_ofRatio small (.inr (decide_eq_false (by omega)))

theorem isUnitChannel_one : isUnitChannel .one = true := by
  unfold isUnitChannel Double.one Double.ofInt
  refine Double.isUpTo_ofRatio (by decide) Nat.one_pos (.inr (by decide)) (by decide)

/-- Whole channels as fractions of 255 are fractional channels. -/
theorem isUnitChannel_divNat (h : isByteChannel x = true) : isUnitChannel (x.divNat 255) = true :=
  Double.isUpTo_divNat (isByteChannel_iff.mp h).2

/-- Fractional channels times 255, rounded, are whole channels. -/
theorem isByteChannel_roundAway (h : isUnitChannel x = true) :
    isByteChannel (x.mulNat 255).roundAway = true := by
  obtain ⟨v, hv, sign, units⟩ := Double.isUpTo_iff.mp (Double.isUpTo_mulNat h)
  rw [hv]
  refine isByteChannel_ofRatio (roundDiv_le_of_le unitsPerOne_pos units) ?_
  exact sign.imp_left fun zero => by
    rw [zero]
    exact Nat.le_zero.mp (roundDiv_le_of_le unitsPerOne_pos (Nat.zero_le _))

end SceneDoc
