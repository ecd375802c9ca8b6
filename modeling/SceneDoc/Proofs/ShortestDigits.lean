import SceneDoc.Proofs.Rounding

namespace SceneDoc

-- Powers are those of the core library, also where more algebra is in scope.
attribute [local instance (high)] instPowNat

/-- The nearest whole number is one of the two around. -/
theorem roundDiv_below_or_above (tie : Tie) (num den : Nat) :
    roundDiv tie num den = num / den ∨ roundDiv tie num den = num / den + 1 := by
  have hle := roundDiv_le tie num den
  have hge := le_roundDiv tie num den
  omega

/-- A number is at least the power of ten of its leading digit. -/
theorem pow_length_toDigits_le {n : Nat} (h : n ≠ 0) : 10 ^ ((Nat.toDigits 10 n).length - 1) ≤ n := by
  by_cases hone : (Nat.toDigits 10 n).length ≤ 1
  · rw [Nat.sub_eq_zero_of_le hone]
    exact Nat.pos_of_ne_zero h
  · have hlt := Nat.length_toDigits_le_iff (b := 10) (n := n)
      (k := (Nat.toDigits 10 n).length - 1) (by decide) (by omega)
    omega

theorem lt_pow_length_toDigits (n : Nat) : n < 10 ^ (Nat.toDigits 10 n).length :=
  (Nat.length_toDigits_le_iff (by decide) Nat.length_toDigits_pos).mp (Nat.le_refl _)

namespace Finite

variable {x : Finite} {tie : Tie} {exponent : Int} {digits : Nat}

/-- What is found on a grid is covered. -/
theorem covers_of_onGrid? (h : x.onGrid? tie exponent = some digits) :
    x.CoversDecimal digits exponent := by
  rw [← readsFrom_iff]
  unfold onGrid? at h
  dsimp only at h
  split at h
  · rename_i hbelow habove
    obtain rfl := Option.some.inj h
    rcases roundDiv_below_or_above tie (x.units * 10 ^ (-exponent).toNat)
      (10 ^ exponent.toNat * unitsPerOne) with hround | hround
    · exact hround ▸ hbelow
    · exact hround ▸ habove
  · rename_i hbelow _
    obtain rfl := Option.some.inj h
    exact hbelow
  · rename_i _ habove
    obtain rfl := Option.some.inj h
    exact habove
  · cases h

/-- Where the step is shorter than the distance of the midpoints, something is found. -/
theorem onGrid?_isSome (tie : Tie)
    (fine : 4 * (10 ^ exponent.toNat * unitsPerOne) + x.lowerMidpoint * 10 ^ (-exponent).toNat <
      x.upperMidpoint * 10 ^ (-exponent).toNat) : (x.onGrid? tie exponent).isSome = true := by
  have hpos : 0 < 10 ^ exponent.toNat * unitsPerOne :=
    Nat.mul_pos (Nat.pow_pos (by decide)) unitsPerOne_pos
  have hscale : 0 < 10 ^ (-exponent).toNat := Nat.pow_pos (by decide)
  suffices hreads : ∃ digits, x.readsFrom digits exponent = true ∧
      (digits = x.units * 10 ^ (-exponent).toNat / (10 ^ exponent.toNat * unitsPerOne) ∨
        digits = x.units * 10 ^ (-exponent).toNat / (10 ^ exponent.toNat * unitsPerOne) + 1) by
    obtain ⟨digits, hreads, rfl | rfl⟩ := hreads
    · unfold onGrid?
      simp only [hreads]
      cases x.readsFrom _ exponent <;> rfl
    · unfold onGrid?
      simp only [hreads]
      cases x.readsFrom _ exponent <;> rfl
  simp only [readsFrom_iff, CoversDecimal, Nat.mul_assoc]
  generalize 10 ^ exponent.toNat * unitsPerOne = den at fine hpos ⊢
  generalize 10 ^ (-exponent).toNat = scale at fine hscale ⊢
  have hdivision := Nat.div_add_mod' (x.units * scale) den
  have hrest := Nat.mod_lt (x.units * scale) hpos
  generalize x.units * scale / den = below at hdivision ⊢
  have hnext : (below + 1) * den = below * den + den := Nat.succ_mul below den
  have hlower := Nat.mul_le_mul_right scale x.lowerMidpoint_le
  have hupper := x.upperMidpoint_mul scale
  have hstep := Nat.mul_pos x.spacing_pos hscale
  rw [Nat.mul_assoc] at hlower
  by_cases hbelow : x.lowerMidpoint * scale < 4 * (below * den)
  · exact ⟨below, .of_between hbelow (by omega), .inl rfl⟩
  · exact ⟨below + 1, .of_between (by omega) (by omega), .inr rfl⟩

/-- A double lies at or above the power of ten of its leading digit. -/
theorem leading_le (h : x.units ≠ 0) :
    10 ^ x.leadingExponent.toNat * unitsPerOne ≤ x.units * 10 ^ (-x.leadingExponent).toNat := by
  have hone := unitsPerOne_pos
  unfold leadingExponent
  split
  · rename_i hlarge
    have hpos := Nat.length_toDigits_pos (b := 10) (n := x.units / unitsPerOne)
    have hquotient : x.units / unitsPerOne ≠ 0 := Nat.ne_of_gt (Nat.div_pos hlarge hone)
    have hle := (Nat.le_div_iff_mul_le hone).mp (pow_length_toDigits_le hquotient)
    generalize (Nat.toDigits 10 (x.units / unitsPerOne)).length = length at hpos hle ⊢
    have hexponent : ((length : Int) - 1).toNat = length - 1 := by omega
    have hscale : (-((length : Int) - 1)).toNat = 0 := by omega
    rwa [hexponent, hscale, Nat.pow_zero, Nat.mul_one]
  · have hunits := Nat.pos_of_ne_zero h
    have hlt := lt_pow_length_toDigits ((unitsPerOne + x.units - 1) / x.units - 1)
    generalize (Nat.toDigits 10 _).length = length at hlt ⊢
    have hexponent : (-(length : Int)).toNat = 0 := by omega
    have hscale : (- -(length : Int)).toNat = length := by omega
    rw [hexponent, hscale, Nat.pow_zero, Nat.one_mul]
    have hquotient : (unitsPerOne + x.units - 1) / x.units < 10 ^ length + 1 := by omega
    rw [Nat.div_lt_iff_lt_mul hunits, Nat.succ_mul, Nat.mul_comm] at hquotient
    omega

/-- Seventeen digits always suffice. -/
theorem fine_seventeen (exponent : Int) (h : x.units ≠ 0)
    (hexponent : x.leadingExponent = exponent + (16 : Nat)) :
    4 * (10 ^ exponent.toNat * unitsPerOne) + x.lowerMidpoint * 10 ^ (-exponent).toNat <
      x.upperMidpoint * 10 ^ (-exponent).toNat := by
  have hscale : 0 < 10 ^ (-exponent).toNat := Nat.pow_pos (by decide)
  have hleading : 10 ^ (16 : Nat) * (10 ^ exponent.toNat * unitsPerOne) ≤
      x.units * 10 ^ (-exponent).toNat := by
    have hle := Nat.mul_le_mul_right (10 ^ (-exponent).toNat) (leading_le h)
    rw [hexponent, Nat.mul_right_comm, ten_pow_shift, Nat.mul_right_comm,
      Nat.mul_right_comm x.units] at hle
    rw [← Nat.mul_assoc]
    exact Nat.le_of_mul_le_mul_right hle (Nat.pow_pos (by decide))
  generalize 10 ^ exponent.toNat * unitsPerOne = step at hleading ⊢
  generalize 10 ^ (-exponent).toNat = scale at hscale hleading ⊢
  have hupper := x.upperMidpoint_mul scale
  have hstep := Nat.mul_pos x.spacing_pos hscale
  have hbits := Nat.mul_lt_mul_of_pos_right x.units_lt hscale
  rw [Nat.mul_assoc] at hbits
  unfold lowerMidpoint
  split
  · rename_i hpower
    obtain ⟨k, _, hspacing, hunits⟩ := exists_coarse_power hpower.1 hpower.2
    have hhalf : 2 * (x.units * scale) = 2 ^ (53 : Nat) * (x.spacing * scale) := by
      rw [hunits, hspacing, Nat.mul_assoc, Nat.mul_assoc, Nat.mul_left_comm]
    rw [Nat.sub_mul, Nat.mul_assoc]
    omega
  · rw [Nat.sub_mul, Nat.mul_assoc, Nat.mul_assoc]
    omega

/-- A double covers the decimal of its shortest digits. -/
theorem shortest_covers (tie : Tie) (h : x.units ≠ 0) :
    x.CoversDecimal (x.shortest tie).digits (x.shortest tie).exponent := by
  unfold shortest
  dsimp only
  cases hfound : (List.range 18).findSome? _ with
  | some decimal =>
    obtain ⟨k, _, hk⟩ := List.exists_of_findSome?_eq_some hfound
    obtain ⟨digits, hdigits, rfl⟩ := Option.map_eq_some_iff.mp hk
    exact covers_of_onGrid? hdigits
  | none =>
    have hlast := List.findSome?_eq_none_iff.mp hfound 17 (List.mem_range.mpr (by decide))
    have hfine := fine_seventeen (x.leadingExponent + 1 - (17 : Nat)) h (by omega)
    have hsome := onGrid?_isSome tie hfine
    rw [Option.map_eq_none_iff.mp hlast] at hsome
    cases hsome

end Finite
end SceneDoc
