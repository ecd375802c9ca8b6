import Mathlib.Data.List.TakeDrop
import SceneDoc.Proofs.Grammar

namespace SceneDoc

open JsonGrammar

namespace Token

def EndsDigits (rest : List Char) : Prop := ∀ c ∈ rest.head?, c.isDigit = false

def continuesNumber (c : Char) : Bool := c.isDigit || c = '.' || c = 'e' || c = 'E'

def EndsNumber (rest : List Char) : Prop := ∀ c ∈ rest.head?, continuesNumber c = false

namespace EndsNumber

variable {c : Char} {cs rest : List Char}

theorem cons (h : continuesNumber c = false) : EndsNumber (c :: rest) := by
  intro d hd
  cases hd
  exact h

theorem digits (ends : EndsNumber rest) : EndsDigits rest := by
  intro c hc
  have h := ends c hc
  simp only [continuesNumber, Bool.or_eq_false_iff] at h
  exact h.1.1.1

theorem point (ends : EndsNumber rest) : ∀ c ∈ rest.head?, c ≠ '.' := by
  rintro c hc rfl
  cases ends '.' hc

theorem power (ends : EndsNumber rest) : ∀ c ∈ rest.head?, c ≠ 'e' ∧ c ≠ 'E' := by
  intro c hc
  constructor
  · rintro rfl
    cases ends 'e' hc
  · rintro rfl
    cases ends 'E' hc

/-- No number goes on with a blank. -/
theorem blanks (h : Blanks cs) (ends : EndsNumber rest) : EndsNumber (cs ++ rest) := by
  cases cs with
  | nil => exact ends
  | cons c cs =>
    have hc := h c (by simp)
    simp only [isBlank, Bool.or_eq_true, decide_eq_true_eq] at hc
    rcases hc with ((rfl | rfl) | rfl) | rfl <;> exact cons rfl

end EndsNumber

/-- A run of digits is split off up to where it ends. -/
theorem span_digits {ds rest : List Char} (h : ∀ c ∈ ds, c.isDigit = true)
    (ends : EndsDigits rest) : (ds ++ rest).span Char.isDigit = (ds, rest) := by
  have hstop : rest.takeWhile Char.isDigit = [] ∧ rest.dropWhile Char.isDigit = rest := by
    cases rest with
    | nil => exact ⟨rfl, rfl⟩
    | cons c cs => simp [ends c rfl]
  rw [List.span_eq_takeWhile_dropWhile, List.takeWhile_append_of_pos h,
    List.dropWhile_append_of_pos h, hstop.1, hstop.2, List.append_nil]

theorem digits?_append {ds rest : List Char} (h : Digits ds) (ends : EndsDigits rest) :
    digits? (ds ++ rest) = some (ds, rest) := by
  have hspan := span_digits h.digits ends
  unfold digits?
  rw [hspan]
  split
  · rename_i heq
    cases heq
    exact absurd rfl h.nonempty
  · rfl

theorem fraction?_append {fraction rest : List Char} (h : Fraction fraction)
    (ends : EndsDigits rest) (point : ∀ c ∈ rest.head?, c ≠ '.') :
    fraction? (fraction ++ rest) = some (fraction, rest) := by
  cases h with
  | none =>
    unfold fraction?
    split
    · rename_i heq
      simp only [List.nil_append] at heq
      subst heq
      exact absurd rfl (point '.' rfl)
    · rfl
  | point digits => simp [fraction?, digits?_append digits ends]

theorem power?_append {power rest : List Char} (h : Power power) (ends : EndsNumber rest) :
    power? (power ++ rest) = some (power, rest) := by
  cases h with
  | none =>
    cases rest with
    | nil => rfl
    | cons c cs =>
      obtain ⟨hlower, hupper⟩ := ends.power c rfl
      simp [power?, hlower, hupper]
  | @power e sign ds letter signed digits =>
    have hletter : (e = 'e' || e = 'E') = true := by simpa using letter
    have hdigits := digits?_append digits ends.digits
    rcases signed with rfl | rfl | rfl
    · -- The first digit is no sign.
      obtain ⟨d, ds, rfl⟩ := List.exists_cons_of_ne_nil digits.nonempty
      have hd := digits.digits d (by simp)
      simp only [List.cons_append, List.nil_append] at hdigits ⊢
      simp only [power?, hletter, ↓reduceIte]
      split
      · simp_all
      · simp_all
      · rw [hdigits]
        rfl
    · simp [power?, hletter, hdigits]
    · simp [power?, hletter, hdigits]

/-- Digits end where a power of ten starts. -/
theorem endsDigits_power {power rest : List Char} (h : Power power) (ends : EndsNumber rest) :
    EndsDigits (power ++ rest) ∧ ∀ c ∈ (power ++ rest).head?, c ≠ '.' := by
  cases h with
  | none => exact ⟨ends.digits, ends.point⟩
  | @power e sign ds letter signed digits =>
    rcases letter with rfl | rfl
    · simp [EndsDigits]
    · simp [EndsDigits]

theorem endsDigits_fraction {fraction rest : List Char} (h : Fraction fraction)
    (ends : EndsDigits rest) : EndsDigits (fraction ++ rest) := by
  cases h with
  | none => exact ends
  | point digits => simp [EndsDigits]

theorem magnitude_head {cs : List Char} (h : Magnitude cs) :
    ∃ c rest, cs = c :: rest ∧ c.isDigit = true := by
  obtain ⟨digits, leading, point, exponent⟩ := h
  obtain ⟨d, ds, rfl⟩ := List.exists_cons_of_ne_nil digits.nonempty
  exact ⟨d, _, rfl, digits.digits d (by simp)⟩

theorem numeral_head {cs : List Char} (h : Numeral cs) :
    ∃ c rest, cs = c :: rest ∧ (c.isDigit = true ∨ c = '-') := by
  cases h with
  | plain magnitude =>
    obtain ⟨c, rest, rfl, hc⟩ := magnitude_head magnitude
    exact ⟨c, rest, rfl, .inl hc⟩
  | minus magnitude => exact ⟨'-', _, rfl, .inr rfl⟩

/-- What comes after the sign is read up to where the number ends. -/
theorem magnitude_append (sign : List Char) {cs all rest : List Char} (h : Magnitude cs)
    (ends : EndsNumber rest) (signed : minus all = (sign, cs ++ rest)) :
    number? all = some (sign ++ cs, rest) := by
  obtain ⟨digits, leading, point, exponent⟩ := h
  rename_i whole fraction power
  obtain ⟨hpower, hpoint⟩ := endsDigits_power exponent ends
  have hwhole := digits?_append digits (endsDigits_fraction point hpower)
  have hfraction := fraction?_append point hpower hpoint
  have hexponent := power?_append exponent ends
  have hleading : whole.head? ≠ some '0' ∨ whole.length = 1 := by
    by_cases hzero : whole.head? = some '0'
    · exact .inr (by simp [leading hzero])
    · exact .inl hzero
  simp only [List.append_assoc] at signed
  simp [number?, signed, hwhole, hleading, hfraction, hexponent, guard]

/-- A number is read up to where it ends. -/
theorem number?_append {cs rest : List Char} (h : Numeral cs) (ends : EndsNumber rest) :
    number? (cs ++ rest) = some (cs, rest) := by
  cases h with
  | plain magnitude =>
    refine magnitude_append [] magnitude ends ?_
    obtain ⟨c, cs, rfl, hc⟩ := magnitude_head magnitude
    unfold minus
    split
    · -- The first digit is no minus.
      simp_all
    · rfl
  | minus magnitude => exact magnitude_append ['-'] magnitude ends rfl

/-- A character is read in whichever way it is written. -/
theorem string?_append {c : Char} {w : List Char} (h : Spelling c w) (rest : List Char) :
    string? (w ++ rest) = (string? rest).map (prepend c) := by
  cases h with
  | plain visible quote backslash =>
    have hvisible : ¬ c.toNat < 32 := by omega
    simp [string?, backslash, hvisible]
  | @letter _ l short =>
    have hl : l ≠ 'u' := by
      rintro rfl
      cases short
    simp [string?, hl, short]
  | unit number high low =>
    by_cases hnext : ∃ e f g h more, rest = '\\' :: 'u' :: e :: f :: g :: h :: more
    · -- What comes next is looked at, in case that it is the other half of a pair.
      obtain ⟨e, f, g, h, more, rfl⟩ := hnext
      simp only [List.cons_append, List.nil_append]
      rw [string?]
      simp [number, high, low]
    · push Not at hnext
      simp [string?, number, high, low]
  | pair first high second low => simp [string?, first, high, second, low]

/-- A text is read up to its closing quote. -/
theorem string?_quoted {cs : List Char} {parts : List (List Char)}
    (each : List.Forall₂ Spelling cs parts) (rest : List Char) :
    string? (parts.flatten ++ '"' :: rest) = some (cs, rest) := by
  induction each with
  | nil => simp [string?]
  | cons head tail ih =>
    rw [List.flatten_cons, List.append_assoc, string?_append head, ih]
    rfl

/-- Numbers do not start with a blank. -/
theorem numeral_visible {c : Char} (h : c.isDigit = true ∨ c = '-') : isBlank c = false := by
  rcases h with h | rfl
  · unfold isBlank
    simp only [Bool.or_eq_false_iff, decide_eq_false_iff_not]
    refine ⟨⟨⟨?_, ?_⟩, ?_⟩, ?_⟩ <;> (rintro rfl; simp at h)
  · rfl

/-- A number starts with a digit or with a minus. -/
theorem first?_number {c : Char} {cs : List Char} (h : c.isDigit = true ∨ c = '-') :
    first? (c :: cs) = (number? (c :: cs)).map fun (ds, r) => (.number (.ofList ds), r) := by
  unfold first?
  split
  all_goals first | rfl | simp_all

end Token
end SceneDoc
