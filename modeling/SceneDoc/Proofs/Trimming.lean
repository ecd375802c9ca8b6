import Mathlib.Data.List.TakeWhile
import SceneDoc.Text.Blank

namespace SceneDoc

variable {blanks rest core text : List Char}

/-- White space in front is trimmed up to where it ends. -/
theorem trimStart_append (blank : ∀ c ∈ blanks, isBlank c = true)
    (visible : ∀ c ∈ rest.head?, isBlank c = false) : trimStart (blanks ++ rest) = rest := by
  rw [trimStart, List.dropWhile_append_of_pos blank]
  cases rest with
  | nil => rfl
  | cons c rest => simp [visible c rfl]

theorem trimStart_eq_self (visible : ∀ c ∈ rest.head?, isBlank c = false) : trimStart rest = rest :=
  trimStart_append (List.forall_mem_nil _) visible

/-- White space in front ends at a visible character at the latest. -/
theorem trimStart_append_visible (visible : ∀ c ∈ rest.head?, isBlank c = false) (cs : List Char) :
    trimStart (cs ++ rest) = trimStart cs ++ rest := by
  rw [trimStart, List.dropWhile_append]
  split
  · rename_i none
    rw [trimStart, List.isEmpty_iff.mp none]
    exact trimStart_eq_self visible
  · rfl

theorem prefix_trimStart (cs rest : List Char) :
    trimStart cs <+: trimStart (cs ++ rest) := by
  unfold trimStart
  rw [List.dropWhile_append]
  split
  · rename_i none
    rw [List.isEmpty_iff.mp none]
    exact List.nil_prefix
  · exact List.prefix_append _ _

theorem trimStart_head (cs : List Char) : ∀ c ∈ (trimStart cs).head?, isBlank c = false := by
  intro c hc
  have visible := List.head?_dropWhile_not isBlank cs
  rw [trimStart] at hc
  rw [Option.mem_def.mp hc] at visible
  exact visible

theorem exists_blanks (cs : List Char) :
    ∃ blanks, cs = blanks ++ trimStart cs ∧ ∀ c ∈ blanks, isBlank c = true :=
  ⟨cs.takeWhile isBlank, List.takeWhile_append_dropWhile.symm,
    fun _ hc => List.mem_takeWhile_imp hc⟩

/-- The end of a text is the start of the text read backwards. -/
theorem trimEnd_eq (cs : List Char) : trimEnd cs = (trimStart cs.reverse).reverse := rfl

theorem trimEnd_append (blank : ∀ c ∈ blanks, isBlank c = true)
    (visible : ∀ c ∈ core.getLast?, isBlank c = false) : trimEnd (core ++ blanks) = core := by
  rw [trimEnd_eq, List.reverse_append, trimStart_append, List.reverse_reverse]
  · simpa using blank
  · simpa using visible

theorem trimEnd_eq_self (visible : ∀ c ∈ core.getLast?, isBlank c = false) : trimEnd core = core := by
  rw [← List.append_nil core]
  exact (trimEnd_append (List.forall_mem_nil _) visible).trans (List.append_nil core).symm

/-- The text is a core with white space around it. -/
inductive Encloses (text core : List Char) : Prop
  | mk {before after : List Char} (split : text = before ++ (core ++ after))
      (front : ∀ c ∈ before, isBlank c = true) (back : ∀ c ∈ after, isBlank c = true) :
      Encloses text core

theorem exists_trim (cs : List Char) :
    ∃ blanks, trimStart cs = trim cs ++ blanks ∧ ∀ c ∈ blanks, isBlank c = true := by
  obtain ⟨blanks, split, blank⟩ := exists_blanks (trimStart cs).reverse
  refine ⟨blanks.reverse, ?_, by simpa using blank⟩
  rw [trim, trimEnd_eq, ← List.reverse_append, ← split, List.reverse_reverse]

theorem encloses_trim (text : List Char) : Encloses text (trim text) := by
  obtain ⟨before, front, blank⟩ := exists_blanks text
  obtain ⟨after, back, blank'⟩ := exists_trim text
  have whole : text = before ++ (trim text ++ after) := by
    rw [← back]
    exact front
  exact ⟨whole, blank, blank'⟩

/-- A trimmed text starts with a visible character. -/
theorem trim_head (cs : List Char) : ∀ c ∈ (trim cs).head?, isBlank c = false := by
  intro c hc
  obtain ⟨blanks, split, _⟩ := exists_trim cs
  apply trimStart_head cs
  rw [split, List.head?_append, Option.mem_def.mp hc]
  rfl

/-- A trimmed text ends in a visible character. -/
theorem trim_last (cs : List Char) : ∀ c ∈ (trim cs).getLast?, isBlank c = false := by
  intro c hc
  rw [trim, trimEnd_eq, List.getLast?_reverse] at hc
  exact trimStart_head _ c hc

/-- A core whose ends are visible is what trimming leaves. -/
theorem Encloses.trim_eq (h : Encloses text core) (first : ∀ c ∈ core.head?, isBlank c = false)
    (last : ∀ c ∈ core.getLast?, isBlank c = false) : trim text = core := by
  obtain ⟨rfl, front, back⟩ := h
  rename_i before after
  cases core with
  | nil =>
    have blank : ∀ c ∈ before ++ after, isBlank c = true :=
      fun c hc => (List.mem_append.mp hc).elim (front c) (back c)
    rw [List.nil_append, ← List.append_nil (before ++ after), trim,
      trimStart_append blank (by simp)]
    rfl
  | cons c core =>
    have visible : ∀ d ∈ (c :: core ++ after).head?, isBlank d = false := first
    rw [trim, trimStart_append front visible, trimEnd_append back last]

theorem trim_eq_nil_iff : trim text = [] ↔ ∀ c ∈ text, isBlank c = true := by
  constructor
  · intro none
    obtain ⟨split, front, back⟩ := encloses_trim text
    rw [none, List.nil_append] at split
    rw [split]
    exact List.forall_mem_append.mpr ⟨front, back⟩
  · intro blank
    have around : Encloses text [] := @Encloses.mk text [] text [] (by simp) blank (List.forall_mem_nil _)
    exact around.trim_eq nofun nofun

theorem Encloses.trans {inner : List Char} (h : Encloses text core) (h' : Encloses core inner) :
    Encloses text inner := by
  obtain ⟨rfl, front, back⟩ := h
  rename_i before after
  obtain ⟨rfl, front', back'⟩ := h'
  rename_i first last
  have whole : before ++ (first ++ (inner ++ last) ++ after) =
      (before ++ first) ++ (inner ++ (last ++ after)) := by
    simp only [List.append_assoc]
  refine ⟨whole, fun c hc => ?_, fun c hc => ?_⟩
  · exact (List.mem_append.mp hc).elim (front c) (front' c)
  · exact (List.mem_append.mp hc).elim (back' c) (back c)

/-- White space around a text does not change what trimming leaves of it. -/
theorem Encloses.same_trim (h : Encloses text core) : trim text = trim core :=
  (h.trans (encloses_trim core)).trim_eq (trim_head core) (trim_last core)

end SceneDoc
