import SceneDoc.Proofs.Numerals

namespace SceneDoc

-- Powers are those of the core library, also where more algebra is in scope.
attribute [local instance (high)] instPowNat

/-- A quotient at most half a step away is rounded to a number, an exact half only if it is even. -/
theorem roundDiv_eq {num den m : Nat} (pos : 0 < den) (below : 2 * (m * den) ≤ 2 * num + den)
    (above : 2 * num ≤ 2 * (m * den) + den)
    (strict : m % 2 = 1 → 2 * (m * den) < 2 * num + den ∧ 2 * num < 2 * (m * den) + den) :
    roundDiv .toEven num den = m := by
  have hnum : num / den * den + num % den = num := Nat.div_add_mod' num den
  have hrest : num % den < den := Nat.mod_lt num pos
  unfold roundDiv
  dsimp only
  by_cases hsame : num / den = m
  · rw [hsame] at hnum ⊢
    split
    · rfl
    · split <;> omega
  · obtain ⟨n, rfl, hquotient⟩ : ∃ n, m = n + 1 ∧ num / den = n := by
      have hnext : (m + 1) * den = m * den + den := Nat.succ_mul m den
      have hle : num / den < m + 1 := (Nat.div_lt_iff_lt_mul pos).mpr (by omega)
      have hlt : num / den < m := Nat.lt_of_le_of_ne (Nat.le_of_lt_succ hle) hsame
      obtain ⟨n, rfl⟩ := Nat.exists_eq_add_one_of_ne_zero (Nat.ne_of_gt (Nat.zero_lt_of_lt hlt))
      have hprev : (n + 1) * den = n * den + den := Nat.succ_mul n den
      have hge : n ≤ num / den := (Nat.le_div_iff_mul_le pos).mpr (by omega)
      exact ⟨n, rfl, by omega⟩
    have hprev : (n + 1) * den = n * den + den := Nat.succ_mul n den
    rw [hquotient] at hnum ⊢
    split
    · omega
    · split <;> omega

/-- A power of ten written as a quotient, above and below the power that is some zeros less. -/
theorem ten_pow_shift (exponent : Int) (n : Nat) :
    10 ^ (exponent + n).toNat * 10 ^ (-exponent).toNat =
      10 ^ n * 10 ^ exponent.toNat * 10 ^ (-(exponent + n)).toNat := by
  have hsum : (exponent + n).toNat + (-exponent).toNat =
      n + exponent.toNat + (-(exponent + n)).toNat := by
    omega
  rw [← Nat.pow_add, ← Nat.pow_add, ← Nat.pow_add, hsum]

theorem Precision.step_double (n : Nat) : Precision.double.step n = n.log2 + 1 - 53 :=
  Nat.max_eq_left (Nat.zero_le _)

theorem unitsPerOne_pos : 0 < unitsPerOne := by decide +kernel

theorem four_mul_unitsPerOne : 4 * unitsPerOne = 2 ^ (1076 : Nat) := by decide +kernel

/-- Powers of ten with more than 310 zeros are beyond the range of doubles. -/
theorem two_mul_unitsLimit_le {e : Nat} (h : 311 ≤ e) : 2 * unitsLimit ≤ 10 ^ e * unitsPerOne := by
  induction h with
  | refl => decide +kernel
  | @step n _ ih =>
    rw [Nat.pow_succ, Nat.mul_right_comm]
    omega

/-- As many units as a double has make the double. -/
theorem Double.ofUnits_eq {x : Finite} {units : Nat} (h : units = x.units)
    (aligned : Aligned units) : ofUnits x.negative units aligned = .finite x := by
  subst h
  exact dif_pos x.bounded

namespace Finite

variable {x : Finite} {num den : Nat}

theorem spacing_eq (x : Finite) : x.spacing = 2 ^ (x.units.log2 + 1 - 53) := by
  rw [spacing, Precision.step_double]

theorem spacing_pos (x : Finite) : 0 < x.spacing := Nat.two_pow_pos _

theorem spacing_dvd (x : Finite) : x.spacing ∣ x.units := by
  rw [spacing_eq]
  exact x.aligned

/-- A double has at most 53 significant bits. -/
theorem units_lt (x : Finite) : x.units < 2 ^ (53 : Nat) * x.spacing := by
  rw [spacing_eq, ← Nat.pow_add]
  exact Nat.lt_of_lt_of_le Nat.lt_log2_self (Nat.pow_le_pow_right (by decide) (by omega))

theorem spacing_dvd_two_pow {k : Nat} (h : x.units.log2 ≤ k) : x.spacing ∣ 2 ^ k := by
  rw [spacing_eq]
  exact Nat.pow_dvd_pow 2 (by omega)

/-- The next larger double is no larger than the next power of two. -/
theorem units_add_spacing_le (x : Finite) : x.units + x.spacing ≤ 2 ^ (x.units.log2 + 1) := by
  have hlt : x.units < 2 ^ (x.units.log2 + 1) := Nat.lt_log2_self
  have hdvd := Nat.dvd_sub (spacing_dvd_two_pow (Nat.le_succ _)) x.spacing_dvd
  have hle := Nat.le_of_dvd (by omega) hdvd
  omega

/-- A double that is no power of two has one between itself and the next smaller double. -/
theorem two_pow_add_spacing_le (h : x.units ≠ 0) (power : x.units ≠ 2 ^ x.units.log2) :
    2 ^ x.units.log2 + x.spacing ≤ x.units := by
  have hlt : 2 ^ x.units.log2 < x.units := Nat.lt_of_le_of_ne (Nat.log2_self_le h) power.symm
  have hdvd := Nat.dvd_sub x.spacing_dvd (spacing_dvd_two_pow (Nat.le_refl _))
  have hle := Nat.le_of_dvd (by omega) hdvd
  omega

/-- Where doubles are more than a unit apart, a power of two is 53 binary places above half a step. -/
theorem exists_coarse_power (power : x.units = 2 ^ x.units.log2) (coarse : 1 < x.spacing) :
    ∃ k, x.units.log2 = k + 53 ∧ x.spacing = 2 * 2 ^ k ∧ x.units = 2 ^ (53 : Nat) * 2 ^ k := by
  have hbits : 53 ≤ x.units.log2 := by
    rw [spacing_eq, Nat.one_lt_two_pow_iff] at coarse
    omega
  obtain ⟨k, hk⟩ : ∃ k, x.units.log2 = k + 53 := ⟨x.units.log2 - 53, by omega⟩
  refine ⟨k, hk, ?_, ?_⟩
  · rw [spacing_eq, hk, Nat.add_right_comm, Nat.add_sub_cancel, Nat.pow_succ, Nat.mul_comm]
  · rw [power, hk, Nat.add_comm, Nat.pow_add]

/-- The lower midpoint is at most half a step away. -/
theorem le_lowerMidpoint (x : Finite) : 4 * x.units ≤ x.lowerMidpoint + 2 * x.spacing := by
  unfold lowerMidpoint
  split <;> omega

theorem lowerMidpoint_le (x : Finite) : x.lowerMidpoint ≤ 4 * x.units := by
  unfold lowerMidpoint
  split <;> omega

theorem lowerMidpoint_pos (h : x.units ≠ 0) : 0 < x.lowerMidpoint := by
  have hspacing := spacing_le h
  have hlower := x.le_lowerMidpoint
  omega

theorem mul_le_lowerMidpoint_mul (x : Finite) (n : Nat) :
    4 * (x.units * n) ≤ x.lowerMidpoint * n + 2 * (x.spacing * n) := by
  have hmul := Nat.mul_le_mul_right n x.le_lowerMidpoint
  rwa [Nat.add_mul, Nat.mul_assoc, Nat.mul_assoc] at hmul

theorem upperMidpoint_mul (x : Finite) (n : Nat) :
    x.upperMidpoint * n = 4 * (x.units * n) + 2 * (x.spacing * n) := by
  rw [upperMidpoint, Nat.add_mul, Nat.mul_assoc, Nat.mul_assoc]

/-- Quotients between the midpoints to the neighbours, and on one of these only if the double is
even. -/
def Covers (x : Finite) (num den : Nat) : Prop :=
  if x.units / x.spacing % 2 = 0 then
    x.lowerMidpoint * den ≤ 4 * num ∧ 4 * num ≤ x.upperMidpoint * den
  else x.lowerMidpoint * den < 4 * num ∧ 4 * num < x.upperMidpoint * den

namespace Covers

theorem of_between (lower : x.lowerMidpoint * den < 4 * num)
    (upper : 4 * num < x.upperMidpoint * den) : x.Covers num den := by
  unfold Covers
  split <;> omega

theorem lower (h : x.Covers num den) : x.lowerMidpoint * den ≤ 4 * num := by
  unfold Covers at h
  split at h <;> omega

theorem below (h : x.Covers num den) : 4 * (x.units * den) ≤ 4 * num + 2 * (x.spacing * den) := by
  have hlower := h.lower
  have hmidpoint := x.mul_le_lowerMidpoint_mul den
  omega

theorem above (h : x.Covers num den) : 4 * num ≤ 4 * (x.units * den) + 2 * (x.spacing * den) := by
  have hupper : 4 * num ≤ x.upperMidpoint * den := by
    unfold Covers at h
    split at h <;> omega
  rwa [upperMidpoint_mul] at hupper

theorem strict (h : x.Covers num den) (odd : x.units / x.spacing % 2 = 1) :
    4 * (x.units * den) < 4 * num + 2 * (x.spacing * den) ∧
      4 * num < 4 * (x.units * den) + 2 * (x.spacing * den) := by
  unfold Covers at h
  rw [if_neg (by omega), upperMidpoint_mul] at h
  have hmidpoint := x.mul_le_lowerMidpoint_mul den
  omega

/-- What a double covers is covered however the quotient is written. -/
theorem congr {num' den' : Nat} (h : x.Covers num den) (pos : 0 < den) (pos' : 0 < den')
    (same : num * den' = num' * den) : x.Covers num' den' := by
  have hscale (a : Nat) : (a * den' ≤ 4 * num' ↔ a * den ≤ 4 * num) ∧
      (4 * num' ≤ a * den' ↔ 4 * num ≤ a * den) := by
    have hleft : a * den' * den = a * den * den' := Nat.mul_right_comm a den' den
    have hright : 4 * num' * den = 4 * num * den' := by rw [Nat.mul_assoc, ← same, Nat.mul_assoc]
    constructor
    · rw [← Nat.mul_le_mul_right_iff pos, hleft, hright, Nat.mul_le_mul_right_iff pos']
    · rw [← Nat.mul_le_mul_right_iff pos, hleft, hright, Nat.mul_le_mul_right_iff pos']
  have hlower := hscale x.lowerMidpoint
  have hupper := hscale x.upperMidpoint
  unfold Covers at h ⊢
  simpa only [← Nat.not_le, hlower.1, hlower.2, hupper.1, hupper.2] using h

/-- Where doubles are as far apart as around the double, the double is the multiple nearest to what it
covers. -/
theorem round_of_step (h : x.Covers num den) (pos : 0 < den)
    (step : Precision.double.step (num / den) = Precision.double.step x.units) :
    Precision.double.round num den = x.units := by
  unfold Precision.round
  rw [step]
  change roundDiv .toEven num (den * x.spacing) * x.spacing = x.units
  have hdiv : x.units / x.spacing * x.spacing = x.units := Nat.div_mul_cancel x.spacing_dvd
  have hmul : x.units / x.spacing * (den * x.spacing) = x.units * den := by
    rw [Nat.mul_left_comm, hdiv, Nat.mul_comm]
  have hcomm := Nat.mul_comm den x.spacing
  have hround : roundDiv .toEven num (den * x.spacing) = x.units / x.spacing := by
    have hbelow := h.below
    have habove := h.above
    refine roundDiv_eq (Nat.mul_pos pos x.spacing_pos) ?_ ?_ fun odd => ?_
    · omega
    · omega
    · have hstrict := h.strict odd
      omega
  rw [hround, hdiv]

/-- Just below a power of two doubles are twice as close, and what the power covers there is rounded
to it. -/
theorem round_below_power (h : x.Covers num den) (pos : 0 < den)
    (power : x.units = 2 ^ x.units.log2) (coarse : 1 < x.spacing) (smaller : num / den < x.units) :
    Precision.double.round num den = x.units := by
  have hlower := h.lower
  rw [lowerMidpoint, if_pos ⟨power, coarse⟩, Nat.sub_mul, Nat.mul_assoc] at hlower
  have hsmaller : num < x.units * den := (Nat.div_lt_iff_lt_mul pos).mp smaller
  obtain ⟨k, hk, hspacing, hunits⟩ := exists_coarse_power power coarse
  have hunitsDen : x.units * den = 2 ^ (53 : Nat) * (2 ^ k * den) := by rw [hunits, Nat.mul_assoc]
  have hspacingDen : x.spacing * den = 2 * (2 ^ k * den) := by rw [hspacing, Nat.mul_assoc]
  have hquotient : (num / den).log2 = k + 52 := by
    have hhalf : 2 ^ (k + 52) ≤ num / den := by
      rw [Nat.le_div_iff_mul_le pos, Nat.add_comm, Nat.pow_add, Nat.mul_assoc]
      omega
    have hpos := Nat.two_pow_pos (k + 52)
    refine (Nat.log2_eq_iff (by omega)).mpr ⟨hhalf, ?_⟩
    calc
      num / den < x.units := smaller
      _ = 2 ^ (k + 52 + 1) := by rw [power, hk]
  have hstep : Precision.double.step (num / den) = k := by
    rw [Precision.step_double, hquotient]
    omega
  unfold Precision.round
  rw [hstep]
  have hcomm := Nat.mul_comm den (2 ^ k)
  have hround : roundDiv .toEven num (den * 2 ^ k) = 2 ^ (53 : Nat) := by
    refine roundDiv_eq (Nat.mul_pos pos (Nat.two_pow_pos k)) ?_ ?_ fun odd => ?_
    · omega
    · omega
    · exact absurd odd (by decide)
  dsimp only
  rw [hround, hunits]

/-- Where doubles are a unit apart, they are so all the way down. -/
theorem round_of_unit (h : x.Covers num den) (pos : 0 < den) (unit : x.spacing ≤ 1)
    (smaller : num / den < 2 ^ x.units.log2) : Precision.double.round num den = x.units := by
  have hbits : x.units.log2 + 1 - 53 = 0 := by
    rw [spacing_eq, ← Nat.not_lt, Nat.one_lt_two_pow_iff] at unit
    omega
  have hlog : (num / den).log2 ≤ x.units.log2 := by
    by_cases hzero : num / den = 0
    · rw [hzero, Nat.log2_zero]
      exact Nat.zero_le _
    · exact Nat.le_of_lt ((Nat.log2_lt hzero).mpr smaller)
  refine h.round_of_step pos ?_
  rw [Precision.step_double, Precision.step_double]
  omega

/-- What a double covers is rounded to it. -/
theorem round_eq (h : x.Covers num den) (units : x.units ≠ 0) (pos : 0 < den) :
    Precision.double.round num den = x.units := by
  have hbelow := h.below
  have habove := h.above
  have hnext := x.units_add_spacing_le
  have hstep_pos := Nat.mul_pos x.spacing_pos pos
  have hlt : num / den < 2 ^ (x.units.log2 + 1) := by
    rw [Nat.div_lt_iff_lt_mul pos]
    have hmul := Nat.mul_le_mul_right den hnext
    rw [Nat.add_mul] at hmul
    omega
  by_cases hbinade : 2 ^ x.units.log2 ≤ num / den
  · -- The quotient lies between the same powers of two as the double.
    have hpos := Nat.two_pow_pos x.units.log2
    refine h.round_of_step pos ?_
    rw [Precision.step_double, Precision.step_double,
      (Nat.log2_eq_iff (by omega)).mpr ⟨hbinade, hlt⟩]
  · have hsmaller : num / den < 2 ^ x.units.log2 := Nat.lt_of_not_le hbinade
    have hpower : x.units = 2 ^ x.units.log2 := by
      by_contra hpower
      have hprev := Nat.mul_le_mul_right den (two_pow_add_spacing_le units hpower)
      rw [Nat.add_mul] at hprev
      refine hbinade ((Nat.le_div_iff_mul_le pos).mpr ?_)
      omega
    by_cases hcoarse : 1 < x.spacing
    · exact h.round_below_power pos hpower hcoarse (hpower ▸ hsmaller)
    · exact h.round_of_unit pos (Nat.le_of_not_lt hcoarse) hsmaller

end Covers

def CoversDecimal (x : Finite) (digits : Nat) (exponent : Int) : Prop :=
  x.Covers (digits * 10 ^ exponent.toNat * unitsPerOne) (10 ^ (-exponent).toNat)

theorem readsFrom_iff {digits : Nat} {exponent : Int} :
    x.readsFrom digits exponent = true ↔ x.CoversDecimal digits exponent := by
  have hassoc : 4 * (digits * 10 ^ exponent.toNat * unitsPerOne) =
      4 * digits * 10 ^ exponent.toNat * unitsPerOne := by
    simp only [Nat.mul_assoc]
  unfold readsFrom CoversDecimal Covers
  rw [hassoc]
  split <;> simp

namespace CoversDecimal

variable {digits : Nat} {exponent : Int}

/-- Zeros behind the digits change nothing. -/
theorem zeros (h : x.CoversDecimal digits exponent) (n : Nat) :
    x.CoversDecimal (digits * 10 ^ n) (exponent - n) := by
  have hpos (m : Nat) : 0 < 10 ^ m := Nat.pow_pos (by decide)
  refine h.congr (hpos _) (hpos _) ?_
  have hscale := ten_pow_shift (exponent - n) n
  rw [Int.sub_add_cancel] at hscale
  generalize 10 ^ exponent.toNat = a, 10 ^ (-(exponent - n)).toNat = b at hscale ⊢
  generalize 10 ^ n = c, 10 ^ (exponent - n).toNat = d, 10 ^ (-exponent).toNat = e at hscale ⊢
  generalize unitsPerOne = unit
  calc
    digits * a * unit * b = digits * unit * (a * b) := by ac_rfl
    _ = digits * unit * (c * d * e) := by rw [hscale]
    _ = digits * c * d * unit * e := by ac_rfl

theorem digits_ne_zero (h : x.CoversDecimal digits exponent) (units : x.units ≠ 0) :
    digits ≠ 0 := by
  rintro rfl
  have hscale : 0 < 10 ^ (-exponent).toNat := Nat.pow_pos (by decide)
  have hpos := Nat.mul_pos (lowerMidpoint_pos units) hscale
  have hlower := h.lower
  rw [Nat.zero_mul, Nat.zero_mul, Nat.mul_zero] at hlower
  omega

/-- A decimal that a double covers is not beyond all doubles. -/
theorem exponent_le (h : x.CoversDecimal digits exponent) (units : x.units ≠ 0) :
    exponent ≤ 310 := by
  by_contra hlarge
  have hdigits := h.digits_ne_zero units
  have hden : (-exponent).toNat = 0 := by omega
  have habove := h.above
  have hspacing := spacing_le units
  have hbounded := x.bounded
  rw [hden, Nat.pow_zero, Nat.mul_one, Nat.mul_one] at habove
  have hlimit := two_mul_unitsLimit_le (e := exponent.toNat) (by omega)
  have hpower : 10 ^ exponent.toNat * unitsPerOne ≤ digits * 10 ^ exponent.toNat * unitsPerOne :=
    Nat.mul_le_mul_right _ (Nat.le_mul_of_pos_left _ (by omega))
  omega

/-- Nor is it below the smallest double. -/
theorem le_exponent (h : x.CoversDecimal digits exponent) (units : x.units ≠ 0) :
    -1100 ≤ exponent + digits.log2 := by
  by_contra hsmall
  have hnum : exponent.toNat = 0 := by omega
  have hlower := h.lower
  rw [hnum, Nat.pow_zero, Nat.mul_one] at hlower
  have hpos := lowerMidpoint_pos units
  have hbits : digits < 2 ^ (digits.log2 + 1) := Nat.lt_log2_self
  have hten : 2 ^ (-exponent).toNat ≤ 10 ^ (-exponent).toNat := Nat.pow_le_pow_left (by decide) _
  refine Nat.lt_irrefl (4 * (digits * unitsPerOne)) ?_
  calc
    4 * (digits * unitsPerOne) < 4 * (2 ^ (digits.log2 + 1) * unitsPerOne) := by
      have hmul := Nat.mul_lt_mul_of_pos_right hbits unitsPerOne_pos
      exact Nat.mul_lt_mul_of_pos_left hmul (by decide)
    _ = 2 ^ (digits.log2 + 1 + 1076) := by
      rw [Nat.pow_add _ _ 1076, ← four_mul_unitsPerOne, Nat.mul_left_comm]
    _ ≤ 2 ^ (-exponent).toNat := Nat.pow_le_pow_right (by decide) (by omega)
    _ ≤ 10 ^ (-exponent).toNat := hten
    _ ≤ x.lowerMidpoint * 10 ^ (-exponent).toNat := Nat.le_mul_of_pos_left _ hpos
    _ ≤ 4 * (digits * unitsPerOne) := hlower

/-- The double nearest to a decimal is the one that covers it. -/
theorem ofDecimal_eq (h : x.CoversDecimal digits exponent) (units : x.units ≠ 0) :
    Double.ofDecimal x.negative digits exponent = .finite x := by
  have hlarge := h.exponent_le units
  have hsmall := h.le_exponent units
  rw [Double.ofDecimal, if_neg (h.digits_ne_zero units), if_neg (by omega), if_neg (by omega)]
  exact Double.ofUnits_eq (h.round_eq units (Nat.pow_pos (by decide))) _

end CoversDecimal

end Finite
end SceneDoc
