import Mathlib.Data.List.Infix
import SceneDoc.Text.Split

namespace SceneDoc

variable {c : Char} {sep cs before after : List Char}

theorem splitOnce?_append (h : c ∉ before) (after : List Char) :
    splitOnce? (c :: sep) (before ++ c :: (sep ++ after)) = some (before, after) := by
  induction before with
  | nil => simp [splitOnce?, List.isPrefixOf_iff_prefix]
  | cons d rest ih =>
    obtain ⟨hd, hrest⟩ := not_or.mp (mt List.mem_cons.mpr h)
    simp [splitOnce?, hd, ih hrest]

/-- Nothing is lost where a text is cut. -/
theorem of_splitOnce? (h : splitOnce? sep cs = some (before, after)) :
    cs = before ++ (sep ++ after) := by
  induction cs generalizing before with
  | nil =>
    unfold splitOnce? at h
    split at h
    · rename_i none
      cases h
      rw [List.isEmpty_iff.mp none]
      rfl
    · cases h
  | cons d cs ih =>
    unfold splitOnce? at h
    split at h
    · rename_i front
      cases h
      exact (List.prefix_iff_eq_append.mp (List.isPrefixOf_iff_prefix.mp front)).symm
    · obtain ⟨⟨rest, _⟩, hrest, heq⟩ := Option.map_eq_some_iff.mp h
      cases heq
      rw [List.cons_append, ← ih hrest]

/-- A character is not found before the place where a text is cut at it. -/
theorem not_mem_of_splitOnce? (h : splitOnce? [c] cs = some (before, after)) : c ∉ before := by
  induction cs generalizing before with
  | nil => cases h
  | cons d cs ih =>
    unfold splitOnce? at h
    split at h
    · cases h
      exact List.not_mem_nil
    · rename_i other
      obtain ⟨⟨rest, _⟩, hrest, heq⟩ := Option.map_eq_some_iff.mp h
      cases heq
      have hd : c ≠ d := by simpa using other
      simp [hd, ih hrest]

theorem splitOnce?_eq_some :
    splitOnce? [c] cs = some (before, after) ↔ cs = before ++ c :: after ∧ c ∉ before := by
  constructor
  · intro h
    exact ⟨of_splitOnce? h, not_mem_of_splitOnce? h⟩
  · rintro ⟨rfl, first⟩
    exact splitOnce?_append first after

section Last

variable {rest tail : List Char}

/-- A text that ends in a separator does not end in a text without its characters. -/
theorem eq_nil_of_append_eq (known : sep ≠ []) (fresh : ∀ c ∈ sep, c ∉ tail)
    (same : before ++ sep = cs ++ tail) : tail = [] := by
  by_contra some
  have last := congrArg List.getLast? same
  rw [List.getLast?_append_of_ne_nil _ known, List.getLast?_append_of_ne_nil _ some,
    List.getLast?_eq_getLast_of_ne_nil known, List.getLast?_eq_getLast_of_ne_nil some] at last
  exact fresh _ (List.getLast_mem known) (Option.some.inj last ▸ List.getLast_mem some)

/-- A separator does not reach into a text that has none of its characters. -/
theorem not_infix_of_fresh (fresh : ∀ c ∈ sep, c ∉ rest) (short : before.length < sep.length) :
    ¬ sep <:+: before ++ rest := by
  rintro ⟨left, right, split⟩
  have known : sep ≠ [] := List.ne_nil_of_length_pos (by omega)
  rcases List.append_eq_append_iff.mp split with ⟨gap, same, _⟩ | ⟨gap, same, rfl⟩
  · have := congrArg List.length same
    simp only [List.length_append] at this
    omega
  · have none : gap = [] :=
      eq_nil_of_append_eq known (fun c hc => mt (List.mem_append_left right) (fresh c hc)) same
    have := congrArg List.length same
    simp only [none, List.length_append, List.length_nil] at this
    omega

theorem afterLast?_eq_none (absent : ¬ sep <:+: cs) : afterLast? sep cs = none := by
  induction cs with
  | nil => rfl
  | cons c cs ih =>
    rw [List.infix_cons_iff, not_or] at absent
    obtain ⟨here, later⟩ := absent
    simp [afterLast?, ih later, List.isPrefixOf_iff_prefix, here]

theorem afterLast?_append (found : afterLast? sep cs = some rest) (before : List Char) :
    afterLast? sep (before ++ cs) = some rest := by
  induction before with
  | nil => exact found
  | cons c before ih => simp [afterLast?, ih]

/-- What stands behind a separator that is not found again. -/
theorem afterLast_append (known : sep ≠ []) (fresh : ∀ c ∈ sep, c ∉ rest) (before : List Char) :
    afterLast sep (before ++ (sep ++ rest)) = rest := by
  have found : afterLast? sep (sep ++ rest) = some rest := by
    obtain ⟨c, front, rfl⟩ := List.exists_cons_of_ne_nil known
    have once : afterLast? (c :: front) (front ++ rest) = none :=
      afterLast?_eq_none (not_infix_of_fresh fresh (by simp))
    simp [afterLast?, once, List.isPrefixOf_iff_prefix]
  rw [afterLast, afterLast?_append found before, Option.getD_some]

theorem of_afterLast? (found : afterLast? sep cs = some rest) :
    ∃ before, cs = before ++ (sep ++ rest) := by
  induction cs with
  | nil => cases found
  | cons c cs ih =>
    unfold afterLast? at found
    split at found
    · rename_i later
      cases found
      obtain ⟨before, rfl⟩ := ih later
      exact ⟨c :: before, rfl⟩
    · split at found
      · rename_i front
        cases found
        exact ⟨[], (List.prefix_iff_eq_append.mp (List.isPrefixOf_iff_prefix.mp front)).symm⟩
      · cases found

/-- The last part is the whole text, or stands behind a separator. -/
theorem afterLast_cases (sep cs : List Char) :
    afterLast sep cs = cs ∨ ∃ before, cs = before ++ (sep ++ afterLast sep cs) := by
  unfold afterLast
  cases found : afterLast? sep cs with
  | none => exact .inl rfl
  | some rest => exact .inr (of_afterLast? found)

theorem afterLast_of_fresh (known : sep ≠ []) (fresh : ∀ c ∈ sep, c ∉ rest) :
    afterLast sep rest = rest := by
  have absent : ¬ sep <:+: [] ++ rest := not_infix_of_fresh fresh (List.length_pos_iff.mpr known)
  rw [List.nil_append] at absent
  rw [afterLast, afterLast?_eq_none absent, Option.getD_none]

/-- The last part holds all of a tail without characters of the separator. -/
theorem exists_afterLast_append (known : sep ≠ []) (fresh : ∀ c ∈ sep, c ∉ tail)
    (cs : List Char) : ∃ front, afterLast sep (cs ++ tail) = front ++ tail := by
  rcases afterLast_cases sep (cs ++ tail) with whole | ⟨before, split⟩
  · exact ⟨cs, whole⟩
  · rw [← List.append_assoc] at split
    rcases List.append_eq_append_iff.mp split with ⟨gap, same, rest⟩ | ⟨gap, _, rest⟩
    · have none : gap = [] := by
        refine eq_nil_of_append_eq known (fun c hc mem => fresh c hc ?_) same
        rw [rest]
        exact List.mem_append_left _ mem
      rw [none, List.nil_append] at rest
      exact ⟨[], rest.symm⟩
    · exact ⟨gap, rest⟩

end Last

end SceneDoc
