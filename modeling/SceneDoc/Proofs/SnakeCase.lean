import Mathlib.Data.List.Chain
import SceneDoc.Bindings.Identifier
import SceneDoc.Proofs.Characters

namespace SceneDoc
namespace Identifier

-- Members of a list are checked one by one, also where more instances are in scope.
attribute [local instance (high)] List.decidableBAll

variable {c : Char} {cs rest : List Char} {name word : String} {joins : Bool}

/-- Names of fields: a lower-case letter, and then letters and digits, all of them ASCII. -/
inductive IsFieldName : List Char → Prop
  | mk {c : Char} {cs : List Char} (first : c.isLower = true)
      (rest : ∀ d ∈ cs, d.isAlphanum = true) : IsFieldName (c :: cs)

inductive IsWordChar : Char → Prop
  | lower {c : Char} (h : c.isLower = true) : IsWordChar c
  | digit {c : Char} (h : c.isDigit = true) : IsWordChar c
  | underscore : IsWordChar '_'

inductive IsWord : List Char → Prop
  | mk {c : Char} {cs : List Char} (first : c.isLower = true) (rest : ∀ d ∈ cs, IsWordChar d) :
      IsWord (c :: cs)

/-- An upper-case letter has a lower-case form, which gives it back, and ends no word. -/
theorem upper_cases (upper : c.isUpper = true) :
    c.toLower.isLower = true ∧ c.toLower.toUpper = c ∧ endsWord c = false := by
  have each : ∀ n < 128, (Char.ofNat n).isUpper = true → (Char.ofNat n).toLower.isLower = true ∧
      (Char.ofNat n).toLower.toUpper = Char.ofNat n ∧ endsWord (Char.ofNat n) = false := by
    decide
  have ascii := toNat_lt_of_isAlphanum (isAlphanum_iff.mpr (.inl upper))
  exact of_ascii (P := fun c => c.isUpper = true →
    c.toLower.isLower = true ∧ c.toLower.toUpper = c ∧ endsWord c = false) each ascii upper

/-- Lower-case letters and digits end a word. -/
theorem endsWord_of_lower_or_digit (h : c.isLower = true ∨ c.isDigit = true) :
    endsWord c = true := by
  have ascii := toNat_lt_of_isAlphanum (isAlphanum_iff.mpr (.inr h))
  rw [endsWord, isLowercase_ascii ascii, Bool.or_eq_true]
  exact h

theorem not_upper_of_lower_or_digit (h : c.isLower = true ∨ c.isDigit = true) :
    c.isUpper = false := by
  have each : ∀ n < 128, (Char.ofNat n).isLower = true ∨ (Char.ofNat n).isDigit = true →
      (Char.ofNat n).isUpper = false := by
    decide
  have ascii := toNat_lt_of_isAlphanum (isAlphanum_iff.mpr (.inr h))
  exact of_ascii (P := fun c => c.isLower = true ∨ c.isDigit = true → c.isUpper = false) each ascii h

/-- An upper-case letter becomes a lower-case one, behind an underscore if it starts a word. -/
theorem wordsFrom_upper (upper : c.isUpper = true) :
    wordsFrom joins (c :: rest) =
      (if joins then ['_'] else []) ++ c.toLower :: wordsFrom false rest := by
  have ascii := toNat_lt_of_isAlphanum (isAlphanum_iff.mpr (.inl upper))
  rw [wordsFrom, if_pos (isUppercase_of_isUpper upper), lowered_ascii ascii, (upper_cases upper).2.2,
    List.append_assoc, List.singleton_append]

/-- Any other letter or digit is kept, and an upper-case letter behind it starts a word. -/
theorem wordsFrom_other (h : c.isLower = true ∨ c.isDigit = true) :
    wordsFrom joins (c :: rest) = c :: wordsFrom true rest := by
  have ascii := toNat_lt_of_isAlphanum (isAlphanum_iff.mpr (.inr h))
  have other : isUppercase c = false := by
    rw [isUppercase_ascii ascii, not_upper_of_lower_or_digit h]
  rw [wordsFrom, if_neg (by simp [other]), endsWord_of_lower_or_digit h]

theorem wordsFrom_wordChars (h : ∀ c ∈ cs, c.isAlphanum = true) (joins : Bool) :
    ∀ c ∈ wordsFrom joins cs, IsWordChar c := by
  induction cs generalizing joins with
  | nil => exact List.forall_mem_nil _
  | cons c rest ih =>
    obtain ⟨hc, hrest⟩ := List.forall_mem_cons.mp h
    rcases isAlphanum_iff.mp hc with upper | other
    · rw [wordsFrom_upper upper]
      have joint : ∀ d ∈ (if joins then ['_'] else []), IsWordChar d := by
        intro d hd
        cases joins with
        | false => cases hd
        | true => exact List.mem_singleton.mp hd ▸ .underscore
      exact List.forall_mem_append.mpr
        ⟨joint, List.forall_mem_cons.mpr ⟨.lower (upper_cases upper).1, ih hrest false⟩⟩
    · rw [wordsFrom_other other]
      exact List.forall_mem_cons.mpr ⟨other.elim .lower .digit, ih hrest true⟩

theorem IsFieldName.isWord (h : IsFieldName cs) : IsWord (wordsFrom false cs) := by
  obtain ⟨first, rest⟩ := h
  rw [wordsFrom_other (.inl first)]
  exact .mk first (wordsFrom_wordChars rest true)

theorem IsWord.unmarked (h : IsWord cs) : '#' ∉ cs := by
  obtain ⟨first, rest⟩ := h
  intro mem
  rcases List.mem_cons.mp mem with rfl | mem
  · exact absurd first (by decide)
  · rcases rest _ mem with lower | digit
    · exact absurd lower (by decide)
    · exact absurd digit (by decide)

theorem plain_raw (word : String) : plain (rawMark ++ word) = word := by
  simp [plain, dropStart?, String.toList_append]

theorem IsWord.plain_eq (h : IsWord word.toList) : plain word = word := by
  have other : ¬ rawMark.toList <+: word.toList :=
    fun starts => h.unmarked (starts.subset (by decide))
  simp [plain, dropStart?, other]

theorem ofName_cases (name : String) :
    (String.ofList (wordsFrom false name.toList) ∈ keywords ∧
      ofName name = rawMark ++ String.ofList (wordsFrom false name.toList)) ∨
    (String.ofList (wordsFrom false name.toList) ∉ keywords ∧
      ofName name = String.ofList (wordsFrom false name.toList)) := by
  unfold ofName
  dsimp only
  split
  · rename_i known
    exact .inl ⟨List.contains_iff_mem.mp known, rfl⟩
  · rename_i other
    exact .inr ⟨mt List.contains_iff_mem.mpr other, rfl⟩

/-- Without the mark of raw identifiers, an identifier is the words of its name. -/
theorem IsFieldName.plain_ofName (h : IsFieldName name.toList) :
    plain (ofName name) = String.ofList (wordsFrom false name.toList) := by
  rcases ofName_cases name with ⟨_, marked⟩ | ⟨_, unmarked⟩
  · rw [marked, plain_raw]
  · rw [unmarked]
    apply IsWord.plain_eq
    rw [String.toList_ofList]
    exact h.isWord

/-- Each underscore and the character behind it replaced by that character in upper case. -/
def joined : List Char → List Char
  | '_' :: c :: rest => c.toUpper :: joined rest
  | c :: rest => c :: joined rest
  | [] => []

theorem joined_cons (h : c ≠ '_') : joined (c :: rest) = c :: joined rest := by
  rw [joined]
  rintro d rest' rfl
  exact absurd rfl h

/-- No two upper-case letters stand side by side. -/
def IsCamel (cs : List Char) : Prop := cs.IsChain fun c d => c.isUpper = true → d.isUpper = false

/-- Behind a letter or digit of a name, the words give back what they come from. -/
theorem joined_wordsFrom (camel : IsCamel (c :: cs)) (h : ∀ d ∈ cs, d.isAlphanum = true) :
    joined (wordsFrom (!c.isUpper) cs) = cs := by
  induction cs generalizing c with
  | nil => rfl
  | cons d rest ih =>
    obtain ⟨hd, hrest⟩ := List.forall_mem_cons.mp h
    obtain ⟨apart, later⟩ := List.isChain_cons_cons.mp camel
    rcases isAlphanum_iff.mp hd with upper | other
    · have starts : c.isUpper = false := by
        by_contra upper'
        rw [apart (by simpa using upper')] at upper
        cases upper
      have tail := ih later hrest
      rw [upper] at tail
      rw [wordsFrom_upper upper, starts]
      change joined ('_' :: d.toLower :: wordsFrom false rest) = d :: rest
      rw [joined, (upper_cases upper).2.1]
      exact congrArg _ tail
    · have tail := ih later hrest
      rw [not_upper_of_lower_or_digit other] at tail
      rw [wordsFrom_other other, joined_cons]
      · exact congrArg _ tail
      · rintro rfl
        exact absurd other (by decide)

theorem IsFieldName.joined_words (h : IsFieldName cs) (camel : IsCamel cs) :
    joined (wordsFrom false cs) = cs := by
  obtain ⟨first, rest⟩ := h
  have tail := joined_wordsFrom camel rest
  rw [not_upper_of_lower_or_digit (.inl first)] at tail
  rw [wordsFrom_other (.inl first), joined_cons]
  · exact congrArg _ tail
  · rintro rfl
    exact absurd first (by decide)

theorem IsFieldName.joined_ofName (h : IsFieldName name.toList) (camel : IsCamel name.toList) :
    joined (plain (ofName name)).toList = name.toList := by
  rw [h.plain_ofName, String.toList_ofList, h.joined_words camel]

/-- A name in camel case is what its identifier is read back as, so no two names have the same
identifier. -/
theorem ofName_invertible (h : IsFieldName name.toList) (camel : IsCamel name.toList) :
    joined (plain (ofName name)).toList = name.toList ∧
      ∀ other : String, IsFieldName other.toList → IsCamel other.toList →
        ofName other = ofName name → other = name := by
  refine ⟨h.joined_ofName camel, fun other h' camel' same => ?_⟩
  apply String.toList_inj.mp
  rw [← h'.joined_ofName camel', ← h.joined_ofName camel, same]

/-- A capital behind a digit starts a word, so two names that differ in it stay apart. -/
theorem ofName_invertible_digit :
    joined (plain (ofName "box2D")).toList = "box2D".toList ∧ ofName "box2d" ≠ ofName "box2D" := by
  have field : IsFieldName "box2D".toList := .mk (by decide) (by decide)
  have field' : IsFieldName "box2d".toList := .mk (by decide) (by decide)
  have camel : IsCamel "box2D".toList := by unfold IsCamel; decide
  have camel' : IsCamel "box2d".toList := by unfold IsCamel; decide
  obtain ⟨back, apart⟩ := ofName_invertible field camel
  exact ⟨back, fun same => absurd (apart "box2d" field' camel' same) (by decide)⟩

end Identifier
end SceneDoc
