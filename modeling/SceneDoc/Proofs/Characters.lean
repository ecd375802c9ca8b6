import SceneDoc.Text.Blank
import SceneDoc.Text.LetterCase

namespace SceneDoc

variable {c : Char}

/-- What holds of the first 128 characters holds of every ASCII character. -/
theorem of_ascii {P : Char → Prop} (each : ∀ n < 128, P (Char.ofNat n)) (h : c.toNat < 128) :
    P c := by
  have hc := each c.toNat h
  rwa [Char.ofNat_toNat] at hc

theorem toNat_lt_of_le {top : Char} (le : c ≤ top) (ascii : top.toNat < 128) : c.toNat < 128 :=
  Nat.lt_of_le_of_lt (UInt32.le_iff_toNat_le.mp le) ascii

theorem isAlphanum_iff :
    c.isAlphanum = true ↔ c.isUpper = true ∨ c.isLower = true ∨ c.isDigit = true := by
  change ((c.isUpper || c.isLower) || c.isDigit) = true ↔ _
  rw [Bool.or_eq_true, Bool.or_eq_true, or_assoc]

/-- The letters and digits of these classes are ASCII. -/
theorem toNat_lt_of_isAlphanum (h : c.isAlphanum = true) : c.toNat < 128 := by
  rcases isAlphanum_iff.mp h with upper | lower | digit
  · have range : c.val ≥ 'A'.val ∧ c.val ≤ 'Z'.val := of_decide_eq_true upper
    exact toNat_lt_of_le range.2 (by decide)
  · exact toNat_lt_of_le (of_decide_eq_true (Bool.and_eq_true_iff.mp lower).2) (by decide)
  · exact toNat_lt_of_le (of_decide_eq_true (Bool.and_eq_true_iff.mp digit).2) (by decide)

/-- No letter or digit of these classes is white space. -/
theorem isBlank_of_isAlphanum (h : c.isAlphanum = true) : isBlank c = false := by
  have each : ∀ n < 128, (Char.ofNat n).isAlphanum = true → isBlank (Char.ofNat n) = false := by
    decide
  exact of_ascii (P := fun c => c.isAlphanum = true → isBlank c = false) each
    (toNat_lt_of_isAlphanum h) h

theorem isBlank_of_isDigit (h : c.isDigit = true) : isBlank c = false :=
  isBlank_of_isAlphanum (isAlphanum_iff.mpr (.inr (.inr h)))

/-- Only ASCII letters have another case. -/
theorem toLower_eq_or_lt (c : Char) : c.toLower = c ∨ c.toNat < 128 := by
  unfold Char.toLower
  split
  · rename_i upper
    exact .inr (toNat_lt_of_le upper.2 (by decide))
  · exact .inl rfl

theorem isBlank_toLower (c : Char) : isBlank c.toLower = isBlank c := by
  rcases toLower_eq_or_lt c with same | ascii
  · rw [same]
  · have each : ∀ n < 128, isBlank (Char.ofNat n).toLower = isBlank (Char.ofNat n) := by decide
    exact of_ascii (P := fun c => isBlank c.toLower = isBlank c) each ascii

theorem isUppercase_ascii (ascii : c.toNat < 128) : isUppercase c = c.isUpper := by
  rw [isUppercase, if_pos ascii]

theorem isLowercase_ascii (ascii : c.toNat < 128) : isLowercase c = c.isLower := by
  rw [isLowercase, if_pos ascii]

theorem lowered_ascii (ascii : c.toNat < 128) : lowered c = [c.toLower] := by
  rw [lowered, if_pos ascii]

end SceneDoc
