import SceneDoc.Proofs.SourceLines
import SceneDoc.Proofs.Trimming

namespace SceneDoc
namespace Comment

-- Members of a list are checked one by one, also where more instances are in scope.
attribute [local instance (high)] List.decidableBAll

variable {width : Nat} {cs : List Char} {ws ls : List (List Char)} {groups : List (List (List Char))}

def EndsSentence (cs : List Char) : Prop := ∃ c ∈ cs.getLast?, c ∈ ['.', '!', '?', ':']

/-- The words on one line, with a full stop behind them unless there are none or they end a sentence. -/
inductive IsSentence (ws : List (List Char)) : List Char → Prop
  | kept (ended : ws = [] ∨ EndsSentence (oneLine ws)) : IsSentence ws (oneLine ws)
  | stopped (nonempty : ws ≠ []) (unended : ¬ EndsSentence (oneLine ws)) :
      IsSentence ws (oneLine ws ++ ['.'])

theorem isStop_iff {c : Char} : isStop c = true ↔ c ∈ ['.', '!', '?', ':'] := by
  simp [isStop, or_assoc]

theorem closed_of_ended (h : EndsSentence cs) : closed cs = cs := by
  obtain ⟨c, last, stop⟩ := h
  rw [closed, Option.mem_def.mp last]
  exact if_pos (isStop_iff.mpr stop)

theorem closed_of_unended (nonempty : cs ≠ []) (h : ¬ EndsSentence cs) : closed cs = cs ++ ['.'] := by
  have last := List.getLast?_eq_some_getLast nonempty
  rw [closed, last]
  exact if_neg fun stop => h ⟨_, last, isStop_iff.mp stop⟩

theorem closed_closed (cs : List Char) : closed (closed cs) = closed cs := by
  by_cases none : cs = []
  · subst none
    rfl
  by_cases ended : EndsSentence cs
  · rw [closed_of_ended ended, closed_of_ended ended]
  · have stopped : EndsSentence (cs ++ ['.']) :=
      ⟨'.', List.getLast?_concat, List.mem_cons_self⟩
    rw [closed_of_unended none ended, closed_of_ended stopped]

theorem isSentence_closed (solid : ∀ w ∈ ws, IsSolid w) : IsSentence ws (closed (oneLine ws)) := by
  by_cases none : ws = []
  · subst none
    exact .kept (.inl rfl)
  by_cases ended : EndsSentence (oneLine ws)
  · rw [closed_of_ended ended]
    exact .kept (.inr ended)
  · have nonempty : oneLine ws ≠ [] := by
      intro empty
      apply none
      rw [← (hasWords_oneLine solid).words_eq, empty]
      rfl
    rw [closed_of_unended nonempty ended]
    exact .stopped none ended

/-- A sentence is words on one line too, as its full stop belongs to the last of them. -/
theorem IsSentence.exists_oneLine (solid : ∀ w ∈ ws, IsSolid w) (h : IsSentence ws cs) :
    ∃ vs, (∀ w ∈ vs, IsSolid w) ∧ cs = oneLine vs := by
  cases h with
  | kept => exact ⟨ws, solid, rfl⟩
  | stopped several _ =>
    obtain none | ⟨front, last, rfl⟩ := List.eq_nil_or_concat ws
    · exact absurd none several
    rw [List.concat_eq_append] at solid ⊢
    obtain ⟨before, whole⟩ := List.forall_mem_append.mp solid
    have stop : ∀ c ∈ ['.'], isBlank c = false := by decide
    have longer : IsSolid (last ++ ['.']) := (whole last List.mem_cons_self).append stop
    refine ⟨front ++ [last ++ ['.']], ?_, (oneLine_concat_append front last ['.']).symm⟩
    exact List.forall_mem_append.mpr ⟨before, List.forall_mem_singleton.mpr longer⟩

theorem toList_normalize (description : String) :
    (normalize description).toList = closed (oneLine (words description.toList)) :=
  String.toList_ofList

theorem isSentence_normalize (description : String) :
    IsSentence (words description.toList) (normalize description).toList := by
  rw [toList_normalize]
  exact isSentence_closed (hasWords_words description.toList).solid

theorem normalize_normalize (description : String) :
    normalize (normalize description) = normalize description := by
  obtain ⟨vs, solid, line⟩ :=
    (isSentence_normalize description).exists_oneLine (hasWords_words description.toList).solid
  apply String.toList_inj.mp
  rw [toList_normalize, line, (hasWords_oneLine solid).words_eq, ← line, toList_normalize,
    closed_closed]

/-- The characters that end a line: the control characters for it, and Unicode's separators of lines and
of paragraphs. -/
def lineBreaks : List Char := ['\n', '\x0b', '\x0c', '\r', '\u0085', '\u2028', '\u2029']

theorem unbroken_of_spaced (h : Spaced cs) : ∀ c ∈ cs, c ∉ lineBreaks := by
  have blank : ∀ b ∈ lineBreaks, isBlank b = true ∧ b ≠ ' ' := by decide
  intro c mem breaks
  exact (blank c breaks).2 (h c mem (blank c breaks).1)

def start (indent : Nat) : List Char := List.replicate indent ' ' ++ ['/', '/', '/']

/-- The lines of a comment on words in groups. Behind the mark there is a space and a group on each line,
or nothing on a single line if there are no words. -/
structure IsComment (indent : Nat) (groups : List (List (List Char))) (ls : List (List Char)) : Prop where
  blank : groups = [] → ls = [start indent]
  filled : groups ≠ [] → ls = groups.map fun g => start indent ++ ' ' :: oneLine g
  marked : ∀ l ∈ ls, start indent <+: l
  unbroken : ∀ l ∈ ls, ∀ c ∈ l, c ∉ lineBreaks

theorem IsFilled.eq_nil_iff (h : IsFilled width groups) (found : HasWords cs groups.flatten) :
    groups = [] ↔ trim cs = [] := by
  rw [trim_eq_nil_iff, ← hasWords_nil_iff]
  constructor
  · rintro rfl
    exact found
  · intro none
    have empty : groups.flatten = [] := found.words_eq.symm.trans none.words_eq
    by_contra several
    obtain ⟨first, later, rfl⟩ := List.exists_cons_of_ne_nil several
    have first_nil := List.flatten_eq_nil_iff.mp empty first List.mem_cons_self
    exact h.nonempty (first_nil ▸ List.mem_cons_self)

theorem exists_comment (indent : Nat) (cs : List Char) : ∃ groups, HasWords cs groups.flatten ∧
    IsFilled Comment.width groups ∧ IsComment indent groups (lines indent cs) := by
  obtain ⟨groups, found, filled, wrapped⟩ := exists_wrap Comment.width cs
  have empty := filled.eq_nil_iff found
  refine ⟨groups, found, filled, fun none => ?_, fun several => ?_, fun l hl => ?_, fun l hl => ?_⟩
  · rw [lines, empty.mp none]
    rfl
  · have visible : ¬ (trim cs).isEmpty = true :=
      fun none => several (empty.mpr (List.isEmpty_iff.mp none))
    rw [lines, if_neg visible, wrapped, List.map_map]
    rfl
  · obtain ⟨rest, _, rfl⟩ := lines_marked l hl
    exact List.prefix_append _ rest
  · exact unbroken_of_spaced (lines_spaced l hl)

/-- Among the entries of a file, a comment is read as its own lines, whatever it says. -/
theorem lines_entries (front back : List SourceEntry) (indent : Nat) (description : String) :
    SceneDoc.lines ((front ++ .comment indent description :: back).flatMap SourceEntry.text) =
      SceneDoc.lines (front.flatMap SourceEntry.text) ++ lines indent description.toList ++
        SceneDoc.lines (back.flatMap SourceEntry.text) := by
  rw [List.flatMap_append, List.flatMap_cons, lines_append (ended_flatMap SourceEntry.text_ended front),
    lines_append (SourceEntry.text_ended _), SourceEntry.lines_comment, List.append_assoc]

/-- A text is wrapped into the only lines that are filled with its words. A description becomes a
sentence, and stays it. In a comment it fills marked lines that nothing in it breaks, and the lines of what
stands around the comment are the same as without it. -/
theorem description_contained :
    (∀ (width : Nat) (text : List Char) (ls : List (List Char)), wrap width text = ls ↔
      ∃ groups, HasWords text groups.flatten ∧ IsFilled width groups ∧ ls = groups.map oneLine) ∧
    (∀ description : String, normalize (normalize description) = normalize description ∧
      ∃ ws, HasWords description.toList ws ∧ IsSentence ws (normalize description).toList) ∧
    ∀ (indent : Nat) (description : String), ∃ groups ls,
      HasWords description.toList groups.flatten ∧ IsFilled Comment.width groups ∧
      IsComment indent groups ls ∧
      (SourceEntry.comment indent description).text = ls.flatMap (· ++ ['\n']) ∧
      ∀ front back : List SourceEntry,
        SceneDoc.lines ((front ++ .comment indent description :: back).flatMap SourceEntry.text) =
          SceneDoc.lines (front.flatMap SourceEntry.text) ++ ls ++
            SceneDoc.lines (back.flatMap SourceEntry.text) := by
  refine ⟨fun width text ls => wrap_eq_iff, fun description => ?_, fun indent description => ?_⟩
  · exact ⟨normalize_normalize description, _, hasWords_words _, isSentence_normalize description⟩
  · obtain ⟨groups, found, filled, comment⟩ := exists_comment indent description.toList
    exact ⟨groups, lines indent description.toList, found, filled, comment, rfl,
      fun front back => lines_entries front back indent description⟩

end Comment
end SceneDoc
