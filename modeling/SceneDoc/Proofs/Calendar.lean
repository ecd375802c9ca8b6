import SceneDoc.Time.Calendar

namespace SceneDoc

-- Sums start from the zero of the core library, also where more algebra is in scope.
attribute [local instance (high)] Zero.ofOfNat0

namespace Date

variable {d e : Date} {year number : Int}

theorem sum_monthLengths (leap : Bool) :
    (monthLengths leap).sum = if leap = true then 366 else 365 := by
  cases leap <;> rfl

/-- From one year to the next it is as many days as the months have. -/
theorem yearStart_succ (year : Int) :
    yearStart (year + 1) = yearStart year + (monthLengths (isLeap year)).sum := by
  rw [sum_monthLengths]
  unfold yearStart
  by_cases leap : isLeap year = true
  · rw [if_pos leap]
    simp only [isLeap, Bool.and_eq_true, Bool.or_eq_true, bne_iff_ne, beq_iff_eq, ne_eq] at leap
    omega
  · rw [if_neg leap]
    simp only [isLeap, Bool.and_eq_true, Bool.or_eq_true, bne_iff_ne, beq_iff_eq, ne_eq] at leap
    omega

theorem yearStart_mono {year later : Int} (h : year ≤ later) :
    yearStart year ≤ yearStart later := by
  unfold yearStart
  omega

/-- Four centuries have 146097 days, and no year starts far from its share of them. -/
theorem yearOf_bounds (number : Int) :
    yearStart (yearOf number) ≤ number ∧ number < yearStart (yearOf number + 1) := by
  have before : yearStart (number * 400 / 146097 - 1) ≤ number := by
    unfold yearStart
    omega
  have after : number < yearStart (number * 400 / 146097 + 1 + 1) := by
    unfold yearStart
    omega
  unfold yearOf
  dsimp only
  split
  · refine ⟨before, ?_⟩
    rwa [Int.sub_add_cancel]
  · split
    · exact ⟨‹_›, after⟩
    · omega

theorem yearOf_eq (start : yearStart year ≤ number) (stop : number < yearStart (year + 1)) :
    yearOf number = year := by
  obtain ⟨lower, upper⟩ := yearOf_bounds number
  rcases Int.lt_trichotomy (yearOf number) year with h | h | h
  · have := yearStart_mono (Int.add_one_le_of_lt h)
    omega
  · exact h
  · have := yearStart_mono (Int.add_one_le_of_lt h)
    omega

/-- Behind whole months the next one is found, with the days that are left. -/
theorem monthOf_sum {k r first : Nat} {lengths : List Nat} (h : r < lengths.getD k 0) :
    monthOf first ((lengths.take k).sum + r) lengths = (first + k, r + 1) := by
  induction lengths generalizing k first with
  | nil => simp at h
  | cons length lengths ih =>
    cases k with
    | zero =>
      have hr : r < length := by simpa using h
      simp [monthOf, hr]
    | succ k =>
      have hr : r < lengths.getD k 0 := by simpa using h
      have hpast : ¬ length + ((lengths.take k).sum + r) < length := by omega
      rw [List.take_succ_cons, List.sum_cons, Nat.add_assoc, monthOf, if_neg hpast,
        Nat.add_sub_cancel_left, ih hr]
      congr 1
      omega

/-- Every day of a year lies behind whole months in one that is not over. -/
theorem exists_month {rest : Nat} {lengths : List Nat} (h : rest < lengths.sum) :
    ∃ k r, r < lengths.getD k 0 ∧ rest = (lengths.take k).sum + r := by
  induction lengths generalizing rest with
  | nil => simp at h
  | cons length lengths ih =>
    by_cases hrest : rest < length
    · exact ⟨0, rest, by simpa using hrest, by simp⟩
    · have hlater : rest - length < lengths.sum := by
        rw [List.sum_cons] at h
        omega
      obtain ⟨k, r, hr, heq⟩ := ih hlater
      refine ⟨k + 1, r, by simpa using hr, ?_⟩
      rw [List.take_succ_cons, List.sum_cons]
      omega

theorem monthLength_succ (year : Int) (k : Nat) :
    monthLength year (k + 1) = (monthLengths (isLeap year)).getD k 0 := by
  simp [monthLength]

/-- A day exists if it lies behind whole months of its year, in one that is not over. -/
theorem isValid_iff :
    d.isValid = true ↔ ∃ k r, d.month = k + 1 ∧ d.day = r + 1 ∧
      r < (monthLengths (isLeap d.year)).getD k 0 := by
  simp only [isValid, Bool.and_eq_true, decide_eq_true_eq]
  constructor
  · intro h
    obtain ⟨⟨⟨hmonth, _⟩, hday⟩, hlength⟩ := h
    obtain ⟨k, hk⟩ := Nat.exists_eq_add_of_le' hmonth
    obtain ⟨r, hr⟩ := Nat.exists_eq_add_of_le' hday
    rw [hk, hr, monthLength_succ] at hlength
    exact ⟨k, r, hk, hr, hlength⟩
  · intro h
    obtain ⟨k, r, hk, hr, hlength⟩ := h
    have htwelve : k < 12 := by
      apply Nat.lt_of_not_le
      intro hlate
      have hnone : (monthLengths (isLeap d.year))[k]? = none :=
        List.getElem?_eq_none (by simpa [monthLengths] using hlate)
      simp [List.getD_eq_getElem?_getD, hnone] at hlength
    rw [hk, hr, monthLength_succ]
    omega

theorem month_le (h : d.isValid = true) : d.month ≤ 12 := by
  simp only [isValid, Bool.and_eq_true, decide_eq_true_eq] at h
  exact h.1.1.2

theorem day_le (h : d.isValid = true) : d.day ≤ 31 := by
  obtain ⟨k, r, _, hr, hlength⟩ := isValid_iff.mp h
  have longest : ∀ length ∈ monthLengths (isLeap d.year), length ≤ 31 := by
    cases isLeap d.year <;> decide
  rw [List.getD_eq_getElem?_getD] at hlength
  cases hk : (monthLengths (isLeap d.year))[k]? with
  | none => simp [hk] at hlength
  | some length =>
    have := longest length (List.mem_of_getElem? hk)
    rw [hk, Option.getD_some] at hlength
    omega

theorem number_eq {k r : Nat} (hk : d.month = k + 1) (hr : d.day = r + 1) :
    d.number = yearStart d.year + ((monthLengths (isLeap d.year)).take k).sum + r := by
  rw [number, hk, hr, Nat.add_sub_cancel]
  omega

theorem sum_take_add_getD (lengths : List Nat) (k : Nat) :
    (lengths.take k).sum + lengths.getD k 0 = (lengths.take (k + 1)).sum := by
  rw [List.take_add_one, List.sum_append, List.getD_eq_getElem?_getD]
  cases lengths[k]? <;> simp

theorem sum_take_le (lengths : List Nat) (k : Nat) : (lengths.take k).sum ≤ lengths.sum := by
  have hsplit := congrArg List.sum (List.take_append_drop k lengths)
  rw [List.sum_append] at hsplit
  omega

/-- A day that exists is computed from its number. -/
theorem ofNumber_number (h : d.isValid = true) : ofNumber d.number = d := by
  obtain ⟨k, r, hk, hr, hlength⟩ := isValid_iff.mp h
  have hnumber := number_eq hk hr
  have hyear : yearOf d.number = d.year := by
    have hsum := sum_take_add_getD (monthLengths (isLeap d.year)) k
    have hle := sum_take_le (monthLengths (isLeap d.year)) (k + 1)
    apply yearOf_eq
    · omega
    · rw [yearStart_succ]
      omega
  have hrest : (d.number - yearStart d.year).toNat =
      ((monthLengths (isLeap d.year)).take k).sum + r := by omega
  unfold ofNumber
  dsimp only
  rw [hyear, hrest, monthOf_sum hlength]
  obtain ⟨year, month, day⟩ := d
  dsimp only at hk hr ⊢
  rw [hk, hr, Nat.add_comm 1]

/-- Every number is that of a day that exists. -/
theorem exists_number (number : Int) : ∃ d : Date, d.isValid = true ∧ d.number = number := by
  obtain ⟨lower, upper⟩ := yearOf_bounds number
  rw [yearStart_succ] at upper
  have hrest : (number - yearStart (yearOf number)).toNat <
      (monthLengths (isLeap (yearOf number))).sum := by omega
  obtain ⟨k, r, hr, heq⟩ := exists_month hrest
  refine ⟨⟨yearOf number, k + 1, r + 1⟩, isValid_iff.mpr ⟨k, r, rfl, rfl, hr⟩, ?_⟩
  rw [number_eq rfl rfl]
  dsimp only
  omega

theorem isValid_ofNumber (number : Int) : (ofNumber number).isValid = true := by
  obtain ⟨d, hd, rfl⟩ := exists_number number
  rwa [ofNumber_number hd]

theorem number_ofNumber (number : Int) : (ofNumber number).number = number := by
  obtain ⟨d, hd, rfl⟩ := exists_number number
  rw [ofNumber_number hd]

theorem number_inj (hd : d.isValid = true) (he : e.isValid = true) (h : d.number = e.number) :
    d = e := by
  rw [← ofNumber_number hd, h, ofNumber_number he]

def next (d : Date) : Date :=
  if d.day < monthLength d.year d.month then { d with day := d.day + 1 }
  else if d.month < 12 then ⟨d.year, d.month + 1, 1⟩
  else ⟨d.year + 1, 1, 1⟩

theorem monthLengths_pos (leap : Bool) : ∀ k < 12, 0 < (monthLengths leap).getD k 0 := by
  cases leap <;> decide

/-- The day after a day exists and has the next number. -/
theorem next_spec (h : d.isValid = true) :
    d.next.isValid = true ∧ d.next.number = d.number + 1 := by
  obtain ⟨k, r, hk, hr, hlength⟩ := isValid_iff.mp h
  have hnumber := number_eq hk hr
  have hsum := sum_take_add_getD (monthLengths (isLeap d.year)) k
  unfold next
  rw [hk, monthLength_succ]
  split
  · rename_i hinside
    rw [number_eq rfl (by rw [hr])]
    have hnext : r + 1 < (monthLengths (isLeap d.year)).getD k 0 := by omega
    refine ⟨isValid_iff.mpr ⟨k, r + 1, rfl, by rw [hr], hnext⟩, ?_⟩
    dsimp only
    omega
  · split
    · rename_i hmonth
      have hpos := monthLengths_pos (isLeap d.year) (k + 1) hmonth
      rw [number_eq rfl rfl]
      refine ⟨isValid_iff.mpr ⟨k + 1, 0, rfl, rfl, hpos⟩, ?_⟩
      dsimp only
      omega
    · rename_i hmonth
      have hpos := monthLengths_pos (isLeap (d.year + 1)) 0 (by decide)
      have hall : (monthLengths (isLeap d.year)).take (k + 1) = monthLengths (isLeap d.year) :=
        List.take_of_length_le (by simpa [monthLengths] using hmonth)
      rw [number_eq rfl rfl, yearStart_succ]
      rw [hall] at hsum
      refine ⟨isValid_iff.mpr ⟨0, 0, rfl, rfl, hpos⟩, ?_⟩
      simp only [List.take_zero, List.sum_nil]
      omega

def later (d : Date) : Nat → Date
  | 0 => d
  | days + 1 => (d.later days).next

theorem later_spec (h : d.isValid = true) (days : Nat) :
    (d.later days).isValid = true ∧ (d.later days).number = d.number + days := by
  induction days with
  | zero => exact ⟨h, by simp [later]⟩
  | succ days ih =>
    obtain ⟨valid, number⟩ := next_spec ih.1
    refine ⟨valid, ?_⟩
    rw [later, number, ih.2]
    omega

/-- The second day is so many days after the first, or before it if the count is negative. -/
def Apart (d e : Date) (days : Int) : Prop := d.later days.toNat = e.later (-days).toNat

/-- How far days are apart is the difference of their numbers. -/
theorem apart_iff {days : Int} (hd : d.isValid = true) (he : e.isValid = true) :
    d.Apart e days ↔ e.number = d.number + days := by
  obtain ⟨hd', hdays⟩ := later_spec hd days.toNat
  obtain ⟨he', hback⟩ := later_spec he (-days).toNat
  unfold Apart
  constructor
  · intro h
    rw [h] at hdays
    omega
  · intro h
    exact number_inj hd' he' (by omega)

end Date
end SceneDoc
