import Mathlib.Data.List.Basic
import SceneDoc.Text.Blank

namespace SceneDoc

variable {c d : Char} {cs gap rest word : List Char} {ws vs : List (List Char)}

structure IsSolid (word : List Char) : Prop where
  nonempty : word ≠ []
  visible : ∀ c ∈ word, isBlank c = false

theorem IsSolid.append {final : List Char} (h : IsSolid word) (visible : ∀ c ∈ final, isBlank c = false) :
    IsSolid (word ++ final) :=
  ⟨List.append_ne_nil_of_left_ne_nil h.nonempty final, List.forall_mem_append.mpr ⟨h.visible, visible⟩⟩

/-- The words stand in the text in this order, and all else in it is white space, which separates
them. -/
inductive HasWords : List Char → List (List Char) → Prop
  | blank {cs : List Char} (blank : ∀ c ∈ cs, isBlank c = true) : HasWords cs []
  | word {gap word rest : List Char} {ws : List (List Char)}
      (before : ∀ c ∈ gap, isBlank c = true) (solid : IsSolid word)
      (apart : ∀ c ∈ rest.head?, isBlank c = true) (more : HasWords rest ws) :
      HasWords (gap ++ (word ++ rest)) (word :: ws)

theorem words_cons_blank (blank : isBlank c = true) : words (c :: cs) = words cs := by
  cases cs <;> simp [words, blank]

theorem words_append_blank (blank : ∀ c ∈ gap, isBlank c = true) (cs : List Char) :
    words (gap ++ cs) = words cs := by
  induction gap with
  | nil => rfl
  | cons c gap ih =>
    obtain ⟨first, later⟩ := List.forall_mem_cons.mp blank
    rw [List.cons_append, words_cons_blank first, ih later]

/-- A word is read up to the white space behind it. -/
theorem words_append (solid : IsSolid word) (apart : ∀ c ∈ rest.head?, isBlank c = true) :
    words (word ++ rest) = word :: words rest := by
  obtain ⟨nonempty, visible⟩ := solid
  induction word with
  | nil => exact absurd rfl nonempty
  | cons c cs ih =>
    obtain ⟨first, later⟩ := List.forall_mem_cons.mp visible
    cases cs with
    | nil =>
      cases rest with
      | nil => simp [words, first]
      | cons d rest => simp [words, first, apart d rfl]
    | cons d cs =>
      have tail := ih (List.cons_ne_nil d cs) later
      rw [List.cons_append] at tail
      simp [words, first, later d List.mem_cons_self, tail]

theorem HasWords.words_eq (h : HasWords cs ws) : words cs = ws := by
  induction h with
  | blank blank => simpa [words] using words_append_blank blank []
  | word before solid apart _ ih => rw [words_append_blank before, words_append solid apart, ih]

theorem HasWords.cons_blank (blank : isBlank c = true) (h : HasWords cs ws) :
    HasWords (c :: cs) ws := by
  cases h with
  | blank rest => exact .blank (List.forall_mem_cons.mpr ⟨blank, rest⟩)
  | @word gap word rest ws before solid apart more =>
    have longer : ∀ d ∈ c :: gap, isBlank d = true := List.forall_mem_cons.mpr ⟨blank, before⟩
    exact .word longer solid apart more

/-- A visible character in front of white space is a word. -/
theorem HasWords.cons_word (visible : isBlank c = false) (apart : ∀ d ∈ cs.head?, isBlank d = true)
    (h : HasWords cs ws) : HasWords (c :: cs) ([c] :: ws) := by
  have solid : IsSolid [c] := ⟨List.cons_ne_nil c [], by simpa using visible⟩
  exact .word (List.forall_mem_nil _) solid apart h

/-- A visible character in front of another one goes on its word. -/
theorem HasWords.cons_join (visible : isBlank c = false) (first : isBlank d = false)
    (h : HasWords (d :: cs) ws) : ∃ word rest, ws = word :: rest ∧
      HasWords (c :: d :: cs) ((c :: word) :: rest) := by
  generalize split : d :: cs = text at h
  cases h with
  | blank blank =>
    rw [blank d (split ▸ List.mem_cons_self)] at first
    cases first
  | @word gap word rest ws before solid apart more =>
    cases gap with
    | cons b gap =>
      obtain rfl : d = b := (List.cons.inj split).1
      rw [before d List.mem_cons_self] at first
      cases first
    | nil =>
      have longer : IsSolid (c :: word) :=
        ⟨List.cons_ne_nil c word, List.forall_mem_cons.mpr ⟨visible, solid.visible⟩⟩
      exact ⟨word, ws, rfl, .word (List.forall_mem_nil _) longer apart more⟩

theorem hasWords_words (cs : List Char) : HasWords cs (words cs) := by
  fun_induction words cs with
  | case1 => exact .blank (List.forall_mem_nil _)
  | case2 c blank => exact .blank (by simpa using blank)
  | case3 c visible =>
    exact .cons_word (by simpa using visible) nofun (.blank (List.forall_mem_nil _))
  | case4 c d rest blank ih => exact ih.cons_blank blank
  | case5 c d rest visible blank ih => exact ih.cons_word (by simpa using visible) (by simpa using blank)
  | case6 c d rest visible first none ih =>
    obtain ⟨word, rest, joined, _⟩ := ih.cons_join (by simpa using visible) (by simpa using first)
    cases none.symm.trans joined
  | case7 c d rest visible first word ws found ih =>
    obtain ⟨word, rest, joined, whole⟩ := ih.cons_join (by simpa using visible) (by simpa using first)
    obtain ⟨rfl, rfl⟩ := List.cons.inj (found.symm.trans joined)
    exact whole

/-- What is read from a text are the only words that it has. -/
theorem words_eq_iff : words cs = ws ↔ HasWords cs ws := by
  constructor
  · rintro rfl
    exact hasWords_words cs
  · exact HasWords.words_eq

theorem HasWords.solid (h : HasWords cs ws) : ∀ w ∈ ws, IsSolid w := by
  induction h with
  | blank => exact List.forall_mem_nil _
  | word _ solid _ _ ih => exact List.forall_mem_cons.mpr ⟨solid, ih⟩

theorem hasWords_nil_iff : HasWords cs [] ↔ ∀ c ∈ cs, isBlank c = true := by
  constructor
  · rintro ⟨blank⟩
    exact blank
  · exact .blank

def oneLine (ws : List (List Char)) : List Char := List.intercalate [' '] ws

theorem oneLine_singleton (word : List Char) : oneLine [word] = word := List.intercalate_singleton

theorem oneLine_cons (nonempty : ws ≠ []) : oneLine (word :: ws) = word ++ ' ' :: oneLine ws := by
  cases ws with
  | nil => exact absurd rfl nonempty
  | cons v ws =>
    rw [oneLine, List.intercalate_cons_cons, List.append_assoc]
    rfl

theorem oneLine_append (nonempty : ws ≠ []) (nonempty' : vs ≠ []) :
    oneLine (ws ++ vs) = oneLine ws ++ ' ' :: oneLine vs := by
  induction ws with
  | nil => exact absurd rfl nonempty
  | cons w ws ih =>
    cases ws with
    | nil => rw [List.singleton_append, oneLine_cons nonempty', oneLine_singleton]
    | cons v ws =>
      have several : v :: ws ++ vs ≠ [] := List.append_ne_nil_of_left_ne_nil (List.cons_ne_nil v ws) vs
      rw [List.cons_append, oneLine_cons several, ih (List.cons_ne_nil v ws),
        oneLine_cons (List.cons_ne_nil v ws), List.append_assoc, List.cons_append]

/-- What is written behind a line belongs to its last word. -/
theorem oneLine_concat_append (ws : List (List Char)) (word final : List Char) :
    oneLine (ws ++ [word ++ final]) = oneLine (ws ++ [word]) ++ final := by
  by_cases single : ws = []
  · rw [single, List.nil_append, List.nil_append, oneLine_singleton, oneLine_singleton]
  · rw [oneLine_append single (List.cons_ne_nil _ []), oneLine_append single (List.cons_ne_nil _ []),
      oneLine_singleton, oneLine_singleton, List.append_assoc, List.cons_append]

/-- Nothing but the words is read from their line. -/
theorem hasWords_oneLine (solid : ∀ w ∈ ws, IsSolid w) : HasWords (oneLine ws) ws := by
  induction ws with
  | nil => exact .blank (List.forall_mem_nil _)
  | cons w ws ih =>
    obtain ⟨first, later⟩ := List.forall_mem_cons.mp solid
    have none : ∀ c ∈ ([] : List Char), isBlank c = true := List.forall_mem_nil _
    cases ws with
    | nil =>
      have alone : HasWords ([] ++ (w ++ [])) [w] := .word none first nofun (.blank none)
      simpa [oneLine_singleton] using alone
    | cons v ws =>
      have space : isBlank ' ' = true := by decide
      have apart : ∀ c ∈ (' ' :: oneLine (v :: ws)).head?, isBlank c = true := by simpa using space
      rw [oneLine_cons (List.cons_ne_nil v ws)]
      exact .word none first apart ((ih later).cons_blank space)

end SceneDoc
