import Mathlib.Data.List.Chain
import SceneDoc.Bindings.Comment
import SceneDoc.Proofs.Words

namespace SceneDoc
namespace Comment

variable {width : Nat} {cs word : List Char} {ws vs begun more ls : List (List Char)}
  {later : List (List (List Char))}

theorem byteSize_append (xs ys : List Char) : byteSize (xs ++ ys) = byteSize xs + byteSize ys := by
  simp [byteSize]

theorem byteSize_space (cs : List Char) : byteSize (' ' :: cs) = 1 + byteSize cs := by
  have one : ' '.utf8Size = 1 := by decide
  simp [byteSize, one]

theorem byteSize_oneLine_append (nonempty : ws ≠ []) (nonempty' : vs ≠ []) :
    byteSize (oneLine (ws ++ vs)) = byteSize (oneLine ws) + 1 + byteSize (oneLine vs) := by
  rw [oneLine_append nonempty nonempty', byteSize_append, byteSize_space, Nat.add_assoc]

/-- A word goes on the line begun if there is room for it. -/
theorem fill_room (nonempty : begun ≠ []) (room : byteSize (oneLine (begun ++ [word])) ≤ width) :
    fill width (oneLine begun) (word :: ws) = fill width (oneLine (begun ++ [word])) ws := by
  have several : [word] ≠ [] := List.cons_ne_nil word []
  rw [byteSize_oneLine_append nonempty several, oneLine_singleton] at room
  rw [fill, if_neg (Nat.not_lt.mpr room), oneLine_append nonempty several, oneLine_singleton]

/-- Without room for a word, the line begun ends, and the word begins the next. -/
theorem fill_full (nonempty : begun ≠ []) (full : width < byteSize (oneLine (begun ++ [word]))) :
    fill width (oneLine begun) (word :: ws) = oneLine begun :: fill width (oneLine [word]) ws := by
  rw [byteSize_oneLine_append nonempty (List.cons_ne_nil word []), oneLine_singleton] at full
  rw [fill, if_pos full, oneLine_singleton]

/-- Groups of words, one for each line, that are filled greedily: a line beyond the width is a single
word, and no line has room for the first word of the next. -/
structure IsFilled (width : Nat) (groups : List (List (List Char))) : Prop where
  nonempty : [] ∉ groups
  fits : ∀ g ∈ groups, byteSize (oneLine g) ≤ width ∨ ∃ w, g = [w]
  full : groups.IsChain fun g next => ∀ w ∈ next.head?, width < byteSize (oneLine (g ++ [w]))

theorem IsFilled.nil : IsFilled width [] := ⟨List.not_mem_nil, List.forall_mem_nil _, .nil⟩

theorem IsFilled.single (nonempty : begun ≠ [])
    (fits : byteSize (oneLine begun) ≤ width ∨ ∃ w, begun = [w]) : IsFilled width [begun] :=
  ⟨by simpa using nonempty.symm, by simpa using fits, .singleton begun⟩

/-- A line goes in front of others if it has no room for their first word. -/
theorem IsFilled.cons (nonempty : begun ≠ [])
    (fits : byteSize (oneLine begun) ≤ width ∨ ∃ w, begun = [w])
    (full : width < byteSize (oneLine (begun ++ [word])))
    (h : IsFilled width ((word :: more) :: later)) :
    IsFilled width (begun :: (word :: more) :: later) := by
  refine ⟨?_, List.forall_mem_cons.mpr ⟨fits, h.fits⟩, List.isChain_cons_cons.mpr ⟨?_, h.full⟩⟩
  · intro mem
    rcases List.mem_cons.mp mem with none | mem
    · exact nonempty none.symm
    · exact h.nonempty mem
  · intro w hw
    obtain rfl : word = w := Option.some.inj hw
    exact full

/-- The line begun goes on, and all lines from it on are filled. -/
theorem exists_fill (nonempty : begun ≠ [])
    (fits : byteSize (oneLine begun) ≤ width ∨ ∃ w, begun = [w]) (ws : List (List Char)) :
    ∃ more later, more ++ later.flatten = ws ∧ IsFilled width ((begun ++ more) :: later) ∧
      fill width (oneLine begun) ws = ((begun ++ more) :: later).map oneLine := by
  induction ws generalizing begun with
  | nil =>
    refine ⟨[], [], rfl, ?_⟩
    rw [List.append_nil]
    exact ⟨.single nonempty fits, rfl⟩
  | cons word ws ih =>
    by_cases room : byteSize (oneLine (begun ++ [word])) ≤ width
    · obtain ⟨more, later, rfl, filled, filling⟩ := ih (List.concat_ne_nil word begun) (.inl room)
      rw [List.append_assoc] at filled filling
      rw [fill_room nonempty room, filling]
      exact ⟨word :: more, later, rfl, filled, rfl⟩
    · have full := Nat.lt_of_not_le room
      obtain ⟨more, later, rfl, filled, filling⟩ := ih (List.cons_ne_nil word []) (.inr ⟨word, rfl⟩)
      rw [fill_full nonempty full, filling]
      refine ⟨[], ([word] ++ more) :: later, rfl, ?_⟩
      rw [List.append_nil]
      exact ⟨.cons nonempty fits full filled, rfl⟩

theorem IsFilled.tail (h : IsFilled width (begun :: later)) : IsFilled width later :=
  ⟨mt (List.mem_cons_of_mem begun) h.nonempty, (List.forall_mem_cons.mp h.fits).2, h.full.tail⟩

/-- Words join the line begun as long as all of it fits. -/
theorem fill_join (nonempty : begun ≠ []) (fits : byteSize (oneLine (begun ++ more)) ≤ width ∨ more = [])
    (ws : List (List Char)) :
    fill width (oneLine begun) (more ++ ws) = fill width (oneLine (begun ++ more)) ws := by
  induction more generalizing begun with
  | nil => rw [List.nil_append, List.append_nil]
  | cons word more ih =>
    have whole := fits.resolve_right (List.cons_ne_nil word more)
    rw [List.append_cons] at whole
    have room : byteSize (oneLine (begun ++ [word])) ≤ width := by
      by_cases last : more = []
      · rwa [last, List.append_nil] at whole
      · rw [byteSize_oneLine_append (List.concat_ne_nil word begun) last] at whole
        omega
    rw [List.cons_append, fill_room nonempty room, ih (List.concat_ne_nil word begun) (.inl whole),
      List.append_assoc, List.singleton_append]

/-- The words of the first of filled lines all join it. -/
theorem IsFilled.first_join (nonempty : begun ≠ []) (h : IsFilled width ((begun ++ more) :: later))
    (ws : List (List Char)) :
    fill width (oneLine begun) (more ++ ws) = fill width (oneLine (begun ++ more)) ws := by
  apply fill_join nonempty
  refine (h.fits _ List.mem_cons_self).imp_right ?_
  rintro ⟨word, single⟩
  rcases List.append_eq_singleton_iff.mp single with ⟨none, _⟩ | ⟨_, last⟩
  · exact absurd none nonempty
  · exact last

/-- Filled lines are what their words are filled into. -/
theorem IsFilled.fill_eq (nonempty : begun ≠ []) (h : IsFilled width ((begun ++ more) :: later)) :
    fill width (oneLine begun) (more ++ later.flatten) = ((begun ++ more) :: later).map oneLine := by
  induction later generalizing begun more with
  | nil =>
    rw [h.first_join nonempty, List.flatten_nil, fill, List.map_singleton]
  | cons next later ih =>
    cases next with
    | nil => exact absurd (List.mem_cons_of_mem _ List.mem_cons_self) h.nonempty
    | cons word rest =>
      have full := (List.isChain_cons_cons.mp h.full).1 word rfl
      rw [h.first_join nonempty, List.flatten_cons, List.cons_append,
        fill_full (List.append_ne_nil_of_left_ne_nil nonempty more) full,
        ih (List.cons_ne_nil word []) h.tail]
      rfl

theorem wrap_of_blank (blank : words cs = []) : wrap width cs = [] := by
  rw [wrap, blank]

/-- The first word begins the first line. -/
theorem wrap_of_words (spelled : words cs = word :: ws) :
    wrap width cs = fill width (oneLine [word]) ws := by
  rw [wrap, spelled, oneLine_singleton]

theorem exists_wrap (width : Nat) (cs : List Char) : ∃ groups, HasWords cs groups.flatten ∧
    IsFilled width groups ∧ wrap width cs = groups.map oneLine := by
  have found := hasWords_words cs
  cases spelled : words cs with
  | nil =>
    rw [spelled] at found
    exact ⟨[], found, .nil, wrap_of_blank spelled⟩
  | cons word ws =>
    rw [spelled] at found
    rw [wrap_of_words spelled]
    obtain ⟨more, later, rfl, filled, filling⟩ :=
      exists_fill (List.cons_ne_nil word []) (.inr ⟨word, rfl⟩) ws
    exact ⟨([word] ++ more) :: later, found, filled, filling⟩

/-- A text is wrapped into the lines that are filled with its words, and there are no others. -/
theorem wrap_eq_iff : wrap width cs = ls ↔
    ∃ groups, HasWords cs groups.flatten ∧ IsFilled width groups ∧ ls = groups.map oneLine := by
  constructor
  · rintro rfl
    exact exists_wrap width cs
  · rintro ⟨groups, found, filled, rfl⟩
    cases groups with
    | nil => exact wrap_of_blank found.words_eq
    | cons first later =>
      cases first with
      | nil => exact absurd List.mem_cons_self filled.nonempty
      | cons word more =>
        have begun : IsFilled width (([word] ++ more) :: later) := filled
        rw [wrap_of_words found.words_eq]
        exact begun.fill_eq (List.cons_ne_nil word [])

/-- A word beyond the width has a line of its own, and other lines may be as long as the width. -/
example : wrap 5 "in a\twireframe is ok".toList =
    ["in a".toList, "wireframe".toList, "is ok".toList] := by decide

end Comment
end SceneDoc
