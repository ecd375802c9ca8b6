import SceneDoc.Number.Literal
import SceneDoc.Proofs.Grammar

namespace SceneDoc

-- Powers are those of the core library, also where more algebra is in scope.
attribute [local instance (high)] instPowNat

open JsonGrammar

theorem digits_toDigits (n : Nat) : Digits (Nat.toDigits 10 n) :=
  ⟨Nat.toDigits_ne_nil, fun _ hc => Nat.isDigit_of_mem_toDigits (by decide) (by decide) hc⟩

/-- A number above zero does not start with a zero. -/
theorem head_toDigits {n : Nat} (h : n ≠ 0) : (Nat.toDigits 10 n).head? ≠ some '0' := by
  induction n using Nat.strongRecOn with
  | ind n ih =>
    rw [Nat.toDigits_eq_if (by decide)]
    split
    · rename_i hsmall
      have hdigit : ∀ d < 10, d ≠ 0 → some d.digitChar ≠ some '0' := by decide
      exact hdigit n hsmall h
    · rename_i hlarge
      rw [List.head?_append_of_ne_nil _ Nat.toDigits_ne_nil]
      exact ih (n / 10) (by omega) (by omega)

theorem leading_toDigits (n : Nat) :
    (Nat.toDigits 10 n).head? = some '0' → Nat.toDigits 10 n = ['0'] := by
  intro h
  by_cases hn : n = 0
  · subst hn
    rfl
  · exact absurd h (head_toDigits hn)

/-- Whole numbers have neither point nor power. -/
theorem magnitude_toDigits (n : Nat) : Magnitude (Nat.toDigits 10 n) := by
  have h := Magnitude.mk (digits_toDigits n) (leading_toDigits n) .none .none
  rwa [List.append_nil, List.append_nil] at h

theorem numeral_int (n : Int) : Numeral (toString n).toList := by
  cases n with
  | ofNat n =>
    have htext : (toString (Int.ofNat n)).toList = Nat.toDigits 10 n := String.toList_ofList
    rw [htext]
    exact .plain (magnitude_toDigits n)
  | negSucc n =>
    have htext : (toString (Int.negSucc n)).toList = '-' :: Nat.toDigits 10 (n + 1) := by
      have hrepr : toString (Int.negSucc n) = "-" ++ Nat.repr (n + 1) := rfl
      rw [hrepr, String.toList_append, Nat.repr, String.toList_ofList, String.toList_ofList]
      rfl
    rw [htext]
    exact .minus (magnitude_toDigits (n + 1))

theorem le_roundDiv (tie : Tie) (num den : Nat) : num / den ≤ roundDiv tie num den := by
  unfold roundDiv
  dsimp only
  split
  · omega
  · split
    · cases tie <;> simp
    · omega

namespace Finite

variable {x : Finite}

theorem spacing_le (h : x.units ≠ 0) : x.spacing ≤ x.units := by
  have hstep : Precision.double.step x.units ≤ x.units.log2 := by
    simp only [Precision.step, Precision.double]
    omega
  calc
    x.spacing ≤ 2 ^ x.units.log2 := Nat.pow_le_pow_right (by decide) hstep
    _ ≤ x.units := Nat.log2_self_le h

/-- Nothing but zero is read from zero. -/
theorem readsFrom_zero (h : x.units ≠ 0) (exponent : Int) : x.readsFrom 0 exponent = false := by
  have hspacing := spacing_le h
  have hlower : 0 < x.lowerMidpoint := by
    unfold lowerMidpoint
    split <;> omega
  have hscale : 0 < 10 ^ (-exponent).toNat := Nat.pow_pos (by decide)
  have hbound := Nat.mul_pos hlower hscale
  unfold readsFrom
  simp only [Nat.mul_zero, Nat.zero_mul]
  split
  · have hle : ¬ x.lowerMidpoint * 10 ^ (-exponent).toNat ≤ 0 := by omega
    simp [hle]
  · simp

theorem onGrid?_ne_zero {tie : Tie} {exponent : Int} {digits : Nat} (h : x.units ≠ 0)
    (found : x.onGrid? tie exponent = some digits) : digits ≠ 0 := by
  have hzero := readsFrom_zero h exponent
  unfold onGrid? at found
  dsimp only at found
  have hbelow {below : Nat} (hreads : x.readsFrom below exponent = true) : below ≠ 0 := by
    rintro rfl
    rw [hzero] at hreads
    cases hreads
  split at found
  · rename_i hreads _
    rw [← Option.some.inj found]
    have hpos := Nat.pos_of_ne_zero (hbelow hreads)
    exact Nat.ne_of_gt (Nat.lt_of_lt_of_le hpos (le_roundDiv _ _ _))
  · rename_i hreads _
    rw [← Option.some.inj found]
    exact hbelow hreads
  · rw [← Option.some.inj found]
    exact Nat.succ_ne_zero _
  · cases found

/-- The digits found for a number that is not zero are not zero. -/
theorem shortest_digits (tie : Tie) (h : x.units ≠ 0) :
    (x.shortest tie).digits ≠ 0 ∨ x.shortest tie = ⟨0, 0⟩ := by
  unfold shortest
  dsimp only
  cases hfound : (List.range 18).findSome? _ with
  | none => exact .inr rfl
  | some decimal =>
    left
    obtain ⟨k, _, hk⟩ := List.exists_of_findSome?_eq_some hfound
    obtain ⟨digits, hdigits, rfl⟩ := Option.map_eq_some_iff.mp hk
    exact onGrid?_ne_zero h hdigits

end Finite

namespace NumberStyle

variable {ds : List Char}

theorem digits_zeros (n : Nat) (h : Digits ds) : Digits (List.replicate n '0' ++ ds) := by
  refine ⟨by simp [h.nonempty], fun c hc => ?_⟩
  rcases List.mem_append.mp hc with hc | hc
  · rw [List.eq_of_mem_replicate hc]
    rfl
  · exact h.digits c hc

/-- The digits before the point: the first of them, with zeros behind if there are too few. -/
theorem digits_whole (n : Nat) (h : Digits ds) :
    Digits (ds.take (n + 1) ++ List.replicate (n + 1 - ds.length) '0') := by
  refine ⟨by simp [h.nonempty], fun c hc => ?_⟩
  rcases List.mem_append.mp hc with hc | hc
  · exact h.digits c (List.mem_of_mem_take hc)
  · rw [List.eq_of_mem_replicate hc]
    rfl

theorem fraction_drop (n : Nat) (h : Digits ds) :
    Digits (if (ds.drop n).isEmpty then ['0'] else ds.drop n) := by
  split
  · exact ⟨by simp, by simp⟩
  · rename_i hne
    exact ⟨by simpa using hne, fun c hc => h.digits c (List.mem_of_mem_drop hc)⟩

/-- Only a zero on its own may lead, and then nothing but the zero stands before the point. -/
theorem positional_magnitude {leading : Int} (h : Digits ds)
    (first : ds.head? = some '0' → ds = ['0'] ∧ leading ≤ 0) :
    Magnitude (positional ds leading) := by
  unfold positional
  split
  · have hzero : Digits ['0'] := ⟨by simp, by simp⟩
    have hmagnitude := Magnitude.mk hzero (fun _ => rfl)
      (.point (digits_zeros (-leading - 1).toNat h)) .none
    rwa [List.append_nil] at hmagnitude
  · have hfirst : (ds.take (leading.toNat + 1) ++
        List.replicate (leading.toNat + 1 - ds.length) '0').head? = some '0' →
        ds.take (leading.toNat + 1) ++
          List.replicate (leading.toNat + 1 - ds.length) '0' = ['0'] := by
      intro hzero
      have hhead : ds.head? = some '0' := by
        obtain ⟨d, rest, rfl⟩ := List.exists_cons_of_ne_nil h.nonempty
        simpa using hzero
      obtain ⟨rfl, hsmall⟩ := first hhead
      have hnat : leading.toNat = 0 := by omega
      simp [hnat]
    have hmagnitude := Magnitude.mk (digits_whole leading.toNat h) hfirst
      (.point (fraction_drop (leading.toNat + 1) h)) .none
    rwa [List.append_nil] at hmagnitude

theorem power_derives (style : NumberStyle) (exponent : Int) : Power (style.power exponent) := by
  refine .power (.inl rfl) ?_ (digits_toDigits _)
  split
  · exact .inr (.inr rfl)
  · split
    · exact .inr (.inl rfl)
    · exact .inl rfl

theorem scientific_magnitude (style : NumberStyle) (leading : Int) (h : Digits ds) :
    Magnitude (style.scientific ds leading) := by
  obtain ⟨d, rest, rfl⟩ := List.exists_cons_of_ne_nil h.nonempty
  obtain ⟨hd, hrest⟩ := List.forall_mem_cons.mp h.digits
  have hwhole : Digits [d] := ⟨by simp, by simpa using hd⟩
  have hfraction : Fraction (if rest.isEmpty then [] else '.' :: rest) := by
    split
    · exact .none
    · rename_i hne
      exact .point ⟨by simpa using hne, hrest⟩
  exact .mk hwhole (by simp) hfraction (style.power_derives leading)

/-- A double is written as a numeral in every style. -/
theorem numeral_finite (style : NumberStyle) (x : Finite) : Numeral (style.finite x).toList := by
  have hmagnitude : Magnitude (style.magnitude x) := by
    unfold magnitude
    split
    · have hzero : Digits ['0'] := ⟨by simp, by simp⟩
      have hmagnitude := Magnitude.mk hzero (fun _ => rfl) (.point hzero) .none
      rwa [List.append_nil] at hmagnitude
    · rename_i hunits
      dsimp only
      split
      · refine positional_magnitude (digits_toDigits _) fun hzero => ?_
        rcases Finite.shortest_digits style.tie hunits with hdigits | hdecimal
        · exact absurd hzero (head_toDigits hdigits)
        · rw [hdecimal]
          exact ⟨rfl, by decide⟩
      · exact style.scientific_magnitude _ (digits_toDigits _)
  unfold finite
  rw [String.toList_ofList]
  cases x.negative with
  | false => exact .plain hmagnitude
  | true => exact .minus hmagnitude

end NumberStyle

theorem Number.numeral_literal (n : Number) : Numeral n.literal.toList := by
  cases n with
  | integer n => exact numeral_int n
  | finite x => exact NumberStyle.document.numeral_finite x

end SceneDoc
