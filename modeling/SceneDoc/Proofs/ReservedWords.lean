import SceneDoc.Proofs.SnakeCase

namespace SceneDoc
namespace Identifier

-- Members of a list are checked one by one, also where more instances are in scope.
attribute [local instance (high)] List.decidableBAll

variable {cs : List Char} {name word : String}

/-- The words that no plain identifier can be, those that are only kept for later last. -/
def reserved : List String := [
  "as", "async", "await", "break", "const", "continue", "crate", "dyn", "else", "enum", "extern",
  "false", "fn", "for", "if", "impl", "in", "let", "loop", "match", "mod", "move", "mut", "pub", "ref",
  "return", "self", "static", "struct", "super", "trait", "true", "type", "unsafe", "use", "where",
  "while", "abstract", "become", "box", "do", "final", "macro", "override", "priv", "try", "typeof",
  "unsized", "virtual", "yield"]

def pathWords : List String := ["crate", "self", "super"]

/-- Identifiers that a field can have: a word that is not reserved, or a raw one that may be. -/
inductive IsLegal : String → Prop
  | plain {word : String} (spelled : IsWord word.toList) (free : word ∉ reserved) : IsLegal word
  | raw {word : String} (spelled : IsWord word.toList) (allowed : word ∉ pathWords) :
      IsLegal ("r#" ++ word)

/-- The names whose identifiers are not legal: reserved words that are no keywords of the generator, and
the one of these that cannot be raw. -/
def misspelt : List String := [
  "abstract", "async", "await", "become", "crate", "do", "final", "macro", "override", "priv", "self",
  "super", "try", "typeof", "unsized", "virtual", "yield"]

theorem sharp_mem_raw (word : String) : '#' ∈ (rawMark ++ word).toList := by
  rw [String.toList_append]
  exact List.mem_append_left _ (by decide)

theorem isLegal_plain (h : IsWord word.toList) : IsLegal word ↔ word ∉ reserved := by
  constructor
  · intro legal
    cases legal with
    | plain _ free => exact free
    | raw _ _ => exact absurd (sharp_mem_raw _) h.unmarked
  · exact .plain h

theorem isLegal_raw (h : IsWord word.toList) : IsLegal (rawMark ++ word) ↔ word ∉ pathWords := by
  constructor
  · intro legal
    generalize same : rawMark ++ word = identifier at legal
    cases legal with
    | plain spelled _ => exact absurd (same ▸ sharp_mem_raw word) spelled.unmarked
    | @raw other _ allowed =>
      have words : Identifier.plain (rawMark ++ word) = Identifier.plain (rawMark ++ other) :=
        congrArg Identifier.plain same
      rw [plain_raw, plain_raw] at words
      exact words ▸ allowed
  · exact .raw h

/-- Lower-case letters are a word as they are. -/
theorem wordsFrom_lower (h : ∀ c ∈ cs, c.isLower = true) (joins : Bool) :
    wordsFrom joins cs = cs := by
  induction cs generalizing joins with
  | nil => rfl
  | cons c rest ih =>
    obtain ⟨first, later⟩ := List.forall_mem_cons.mp h
    rw [wordsFrom_other (.inl first), ih later true]

/-- Words that are not the name itself are joined by an underscore. -/
theorem wordsFrom_cases (h : ∀ c ∈ cs, c.isAlphanum = true) :
    wordsFrom true cs = cs ∨ '_' ∈ wordsFrom true cs := by
  induction cs with
  | nil => exact .inl rfl
  | cons c rest ih =>
    obtain ⟨hc, hrest⟩ := List.forall_mem_cons.mp h
    rcases isAlphanum_iff.mp hc with upper | other
    · rw [wordsFrom_upper upper]
      exact .inr List.mem_cons_self
    · rw [wordsFrom_other other]
      exact (ih hrest).imp (congrArg _) (List.mem_cons_of_mem c)

/-- Only a lower-case word itself becomes that word. -/
theorem IsFieldName.words_eq_iff (h : IsFieldName name.toList)
    (lower : ∀ c ∈ word.toList, c.isLower = true) :
    String.ofList (wordsFrom false name.toList) = word ↔ name = word := by
  constructor
  · intro same
    have chars := congrArg String.toList same
    rw [String.toList_ofList] at chars
    generalize spelled : name.toList = cs at h chars
    obtain ⟨first, rest⟩ := h
    rw [wordsFrom_other (.inl first)] at chars
    rcases wordsFrom_cases rest with whole | underscore
    · rw [whole] at chars
      exact String.toList_inj.mp (spelled.trans chars)
    · have mem : '_' ∈ word.toList := chars ▸ List.mem_cons_of_mem _ underscore
      exact absurd (lower _ mem) (by decide)
  · rintro rfl
    rw [wordsFrom_lower lower, String.ofList_toList]

theorem IsFieldName.words_mem_iff (h : IsFieldName name.toList) {words : List String}
    (lower : ∀ word ∈ words, ∀ c ∈ word.toList, c.isLower = true) :
    String.ofList (wordsFrom false name.toList) ∈ words ↔ name ∈ words := by
  constructor
  · intro mem
    exact ((h.words_eq_iff (lower _ mem)).mp rfl) ▸ mem
  · intro mem
    rwa [(h.words_eq_iff (lower name mem)).mpr rfl]

theorem IsFieldName.isLegal_iff (h : IsFieldName name.toList) :
    IsLegal (ofName name) ↔ name ∉ misspelt := by
  have lower : ∀ word ∈ misspelt, ∀ c ∈ word.toList, c.isLower = true := by decide
  have spelled : IsWord (String.ofList (wordsFrom false name.toList)).toList := by
    rw [String.toList_ofList]
    exact h.isWord
  rw [← h.words_mem_iff lower]
  rcases ofName_cases name with ⟨known, marked⟩ | ⟨unknown, unmarked⟩
  · have either : ∀ word ∈ keywords, (word ∈ pathWords ↔ word ∈ misspelt) := by decide
    rw [marked, isLegal_raw spelled, either _ known]
  · have missed : ∀ word ∈ reserved, word ∉ keywords → word ∈ misspelt := by decide
    have kept : ∀ word ∈ misspelt, word ∈ reserved := by decide
    rw [unmarked, isLegal_plain spelled]
    exact not_congr ⟨fun mem => missed _ mem unknown, kept _⟩

/-- Without its mark, the identifier of a field is a word, and it is legal unless the name is one of the
words that are spelled wrong. -/
theorem ofName_legal_iff (h : IsFieldName name.toList) :
    IsWord (plain (ofName name)).toList ∧ (IsLegal (ofName name) ↔ name ∉ misspelt) := by
  refine ⟨?_, h.isLegal_iff⟩
  rw [h.plain_ofName, String.toList_ofList]
  exact h.isWord

theorem ofName_legal_iff_type :
    IsFieldName "type".toList ∧ ofName "type" = "r#type" ∧ IsLegal (ofName "type") := by
  have field : IsFieldName "type".toList := .mk (by decide) (by decide)
  exact ⟨field, by decide, (ofName_legal_iff field).2.mpr (by decide)⟩

/-- A reserved word that is no keyword of the generator is an identifier without a mark. -/
theorem ofName_async : IsFieldName "async".toList ∧ ofName "async" = "async" ∧
    ¬ IsLegal (ofName "async") := by
  have field : IsFieldName "async".toList := .mk (by decide) (by decide)
  exact ⟨field, by decide, fun legal => field.isLegal_iff.mp legal (by decide)⟩

end Identifier
end SceneDoc
