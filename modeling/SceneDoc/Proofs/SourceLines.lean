import SceneDoc.Bindings.SourceFile
import SceneDoc.Proofs.Wrapping

namespace SceneDoc

variable {cs l : List Char} {ws : List (List Char)} {file : SourceFile}

/-- Without a line break, nor the first half of one at its end. -/
structure IsLine (line : List Char) : Prop where
  unbroken : '\n' ∉ line
  ended : line.getLast? ≠ some '\r'

/-- The only white space in it is the plain space. -/
def Spaced (cs : List Char) : Prop := ∀ c ∈ cs, isBlank c = true → c = ' '

theorem Spaced.append {xs ys : List Char} (hx : Spaced xs) (hy : Spaced ys) : Spaced (xs ++ ys) :=
  List.forall_mem_append.mpr ⟨hx, hy⟩

theorem Spaced.isLine (h : Spaced l) : IsLine l := by
  constructor
  · intro hmem
    cases h _ hmem (by decide)
  · intro hlast
    cases h _ (List.mem_of_getLast? hlast) (by decide)

/-- Characters without a line break go on the line begun. -/
theorem linesFrom_append (h : '\n' ∉ l) (begun rest : List Char) :
    linesFrom begun (l ++ rest) = linesFrom (l.reverse ++ begun) rest := by
  induction l generalizing begun with
  | nil => rfl
  | cons c cs ih =>
    have hc : c ≠ '\n' := fun e => h (e ▸ List.mem_cons_self)
    have hcs : '\n' ∉ cs := fun m => h (List.mem_cons_of_mem _ m)
    calc
      linesFrom begun (c :: cs ++ rest) = linesFrom (c :: begun) (cs ++ rest) := by
        rw [List.cons_append, linesFrom.eq_4 _ _ _ hc]
      _ = linesFrom ((c :: cs).reverse ++ begun) rest := by
        rw [ih hcs, List.reverse_cons, List.append_assoc, List.singleton_append]

/-- A line is read up to its break. -/
theorem lines_line (h : IsLine l) (rest : List Char) :
    lines (l ++ '\n' :: rest) = l :: lines rest := by
  have hended : ∀ before, l.reverse = '\r' :: before → False := by
    intro before hline
    refine h.ended ?_
    rw [← List.head?_reverse, hline]
    rfl
  unfold lines
  rw [linesFrom_append h.unbroken, List.append_nil, linesFrom.eq_3 _ _ hended,
    List.reverse_reverse]

/-- Lines are read separately on both sides of a line break. -/
theorem linesFrom_break (begun xs ys : List Char) :
    linesFrom begun (xs ++ '\n' :: ys) = linesFrom begun (xs ++ ['\n']) ++ lines ys := by
  induction xs generalizing begun with
  | nil =>
    rw [List.nil_append, List.nil_append, linesFrom.eq_def, linesFrom.eq_def begun ['\n']]
    rfl
  | cons c cs ih =>
    by_cases hc : c = '\n'
    · subst hc
      rw [List.cons_append, List.cons_append, linesFrom.eq_def,
        linesFrom.eq_def begun ('\n' :: (cs ++ ['\n']))]
      simp only [ih, List.cons_append]
    · rw [List.cons_append, List.cons_append, linesFrom.eq_4 _ _ _ hc, linesFrom.eq_4 _ _ _ hc, ih]

def Ended (cs : List Char) : Prop := cs = [] ∨ ∃ front, cs = front ++ ['\n']

theorem Ended.append {rest : List Char} (h : Ended cs) (hrest : Ended rest) : Ended (cs ++ rest) := by
  rcases hrest with rfl | ⟨front, rfl⟩
  · rwa [List.append_nil]
  · exact .inr ⟨cs ++ front, (List.append_assoc _ _ _).symm⟩

theorem lines_append (h : Ended cs) (rest : List Char) :
    lines (cs ++ rest) = lines cs ++ lines rest := by
  rcases h with rfl | ⟨front, rfl⟩
  · rfl
  · rw [List.append_assoc]
    exact linesFrom_break [] front rest

theorem ended_flatMap {α : Type} {f : α → List Char} (h : ∀ x, Ended (f x)) (xs : List α) :
    Ended (xs.flatMap f) := by
  induction xs with
  | nil => exact .inl rfl
  | cons x rest ih => exact (h x).append ih

/-- Texts that end in line breaks are read one after the other. -/
theorem lines_flatMap {α : Type} {f : α → List Char} (h : ∀ x, Ended (f x)) (xs : List α) :
    lines (xs.flatMap f) = xs.flatMap fun x => lines (f x) := by
  induction xs with
  | nil => rfl
  | cons x rest ih => rw [List.flatMap_cons, List.flatMap_cons, lines_append (h x), ih]

/-- A line with its break is read as that line. -/
theorem lines_single (h : IsLine l) : lines (l ++ ['\n']) = [l] := lines_line h []

/-- No line of a text holds a line break. -/
theorem linesFrom_unbroken {begun : List Char} (h : '\n' ∉ begun) :
    ∀ l ∈ linesFrom begun cs, '\n' ∉ l := by
  fun_induction linesFrom begun cs with
  | case1 => simp
  | case2 begun nonempty => simpa using h
  | case3 begun rest ended ih =>
    refine List.forall_mem_cons.mpr ⟨?_, ih List.not_mem_nil⟩
    have hended : ended.Sublist begun := by
      unfold ended
      split
      · exact List.sublist_cons_self _ _
      · exact List.Sublist.refl _
    exact fun hmem => h (hended.subset (List.mem_reverse.mp hmem))
  | case4 begun c rest hc ih =>
    exact ih fun hmem => (List.mem_cons.mp hmem).elim (fun e => hc e.symm) h

/-- A line is read with the character that it begins with, if anything is left of it. -/
theorem head_of_mem_lines (h : '\n' ∉ cs) :
    ∀ l ∈ lines (cs ++ ['\n']), ∀ c, l.head? = some c → cs.head? = some c := by
  intro l hl c hc
  unfold lines at hl
  rw [linesFrom_append h, List.append_nil] at hl
  cases hend : cs.reverse with
  | nil =>
    rw [hend] at hl
    rw [List.mem_singleton.mp hl] at hc
    cases hc
  | cons final before =>
    have hcs : cs = before.reverse ++ [final] := by
      rw [← List.reverse_cons, ← hend, List.reverse_reverse]
    rw [hend] at hl
    by_cases hfinal : final = '\r'
    · subst hfinal
      rw [linesFrom] at hl
      rw [List.mem_singleton.mp hl] at hc
      rw [hcs, List.head?_append, hc]
      rfl
    · rw [linesFrom.eq_3 _ _ (by simpa using hfinal)] at hl
      rw [List.mem_singleton.mp hl, List.reverse_cons, ← hcs] at hc
      exact hc

theorem spaced_oneLine (solid : ∀ w ∈ ws, IsSolid w) : Spaced (oneLine ws) := by
  induction ws with
  | nil => exact List.forall_mem_nil _
  | cons w ws ih =>
    obtain ⟨first, later⟩ := List.forall_mem_cons.mp solid
    have hw : Spaced w := fun c hc blank => absurd ((first.visible c hc).symm.trans blank) nofun
    by_cases last : ws = []
    · rwa [last, oneLine_singleton]
    · have hspace : Spaced [' '] := by simp [Spaced]
      rw [oneLine_cons last]
      exact hw.append (hspace.append (ih later))

namespace Comment

variable {width indent : Nat}

theorem wrap_spaced : ∀ l ∈ wrap width cs, Spaced l := by
  intro l hl
  obtain ⟨groups, found, _, wrapped⟩ := exists_wrap width cs
  rw [wrapped] at hl
  obtain ⟨g, hg, rfl⟩ := List.mem_map.mp hl
  exact spaced_oneLine fun w hw => found.solid w (List.mem_flatten.mpr ⟨g, hg, hw⟩)

/-- Each line of a comment is its mark, behind the indent, and then text of a single line. -/
theorem lines_marked :
    ∀ l ∈ lines indent cs, ∃ rest, Spaced rest ∧ l = List.replicate indent ' ' ++ mark ++ rest := by
  intro l hl
  unfold lines at hl
  split at hl
  · rw [List.mem_singleton.mp hl]
    exact ⟨[], by simp [Spaced], (List.append_nil _).symm⟩
  · obtain ⟨written, hwritten, rfl⟩ := List.mem_map.mp hl
    have hspace : Spaced [' '] := by simp [Spaced]
    exact ⟨' ' :: written, hspace.append (wrap_spaced written hwritten), rfl⟩

theorem lines_spaced : ∀ l ∈ lines indent cs, Spaced l := by
  intro l hl
  obtain ⟨rest, hrest, rfl⟩ := lines_marked l hl
  refine Spaced.append (Spaced.append ?_ ?_) hrest
  · intro c hc _
    exact List.eq_of_mem_replicate hc
  · intro c hc hblank
    simp only [mark, List.mem_cons, List.not_mem_nil, or_false, or_self] at hc
    subst hc
    cases hblank.symm.trans (by decide : isBlank '/' = false)

end Comment

namespace SourceEntry

def lines : SourceEntry → List (List Char)
  | .line text => [text.toList]
  | .blank => [[]]
  | .comment indent text => Comment.lines indent text.toList

theorem text_eq (e : SourceEntry) : e.text = e.lines.flatMap (· ++ ['\n']) := by
  cases e with
  | line written => simp [SourceEntry.text, lines]
  | blank => rfl
  | comment indent written => rfl

theorem text_ended (e : SourceEntry) : Ended e.text := by
  rw [text_eq]
  exact ended_flatMap (fun l => .inr ⟨l, rfl⟩) _

/-- An entry is read as its lines, unless a text in it breaks one of them. -/
theorem lines_text {e : SourceEntry} (h : ∀ l ∈ e.lines, IsLine l) :
    SceneDoc.lines e.text = e.lines := by
  rw [text_eq, lines_flatMap fun l => .inr ⟨l, rfl⟩]
  calc
    e.lines.flatMap (fun l => SceneDoc.lines (l ++ ['\n'])) = e.lines.flatMap fun l => [l] :=
      List.flatMap_congr fun l hl => lines_single (h l hl)
    _ = e.lines := List.flatMap_singleton' _

theorem lines_comment (indent : Nat) (text : String) :
    SceneDoc.lines (comment indent text).text = Comment.lines indent text.toList :=
  lines_text fun l hl => (Comment.lines_spaced l hl).isLine

end SourceEntry

namespace SourceFile

/-- The last entries are a line that is not blank and a blank one. -/
def Close (entries : List SourceEntry) : Prop :=
  ∃ front text final, entries = front ++ [.line text, .blank] ∧
    text.toList.getLast? = some final ∧ isBlank final = false

theorem close_line (front : List SourceEntry) (text : String)
    (visible : text.toList.getLast?.any (!isBlank ·) = true) :
    Close (front ++ [.line text, .blank]) := by
  obtain ⟨final, last, visible⟩ := (Option.any_eq_true _ _).mp visible
  exact ⟨front, text, final, rfl, last, by simpa using visible⟩

theorem Close.prepend {entries : List SourceEntry} (h : Close entries) (front : List SourceEntry) :
    Close (front ++ entries) := by
  obtain ⟨middle, text, final, rfl, hlast, visible⟩ := h
  exact ⟨front ++ middle, text, final, (List.append_assoc _ _ _).symm, hlast, visible⟩

/-- A file made of parts ends as the last part does, or as what stands before all parts. -/
theorem Close.flatMap {α : Type} {f : α → List SourceEntry} {entries : List SourceEntry}
    (h : Close entries) (each : ∀ x, Close (f x)) (xs : List α) : Close (entries ++ xs.flatMap f) := by
  rcases List.eq_nil_or_concat xs with rfl | ⟨front, x, rfl⟩
  · rwa [List.flatMap_nil, List.append_nil]
  · rw [List.concat_eq_append, List.flatMap_append, List.flatMap_singleton, ← List.append_assoc]
    exact (each x).prepend _

/-- Of the two line breaks at its end, a file keeps one. -/
theorem text_close (h : Close file.entries) :
    file.text.toList ++ ['\n'] = file.opening ++ file.entries.flatMap SourceEntry.text := by
  obtain ⟨front, text, final, hclose, hlast, visible⟩ := h
  obtain ⟨before, htext⟩ := List.getLast?_eq_some_iff.mp hlast
  have hbreak : isBlank '\n' = true := by decide
  rw [SourceFile.text, String.toList_ofList, hclose]
  simp [SourceEntry.text, htext, trimEnd, visible, hbreak]

/-- The lines before the entries are comments or blank. -/
theorem opening_head (file : SourceFile) :
    ∀ l ∈ lines file.opening, ∀ c, l.head? = some c → c = '/' := by
  have hpiece {cs : List Char} (unbroken : '\n' ∉ cs) (head : ∀ c, cs.head? = some c → c = '/') :
      ∀ l ∈ lines (cs ++ ['\n']), ∀ c, l.head? = some c → c = '/' :=
    fun l hl c hc => head c (head_of_mem_lines unbroken l hl c hc)
  have habout : ∀ l ∈ lines file.about.toList, ∀ m ∈ lines (aboutLine l), ∀ c,
      m.head? = some c → c = '/' := by
    intro l hl
    have hunbroken : '\n' ∉ l := linesFrom_unbroken List.not_mem_nil l hl
    unfold aboutLine
    split
    · exact hpiece (by decide) (by simp)
    · exact hpiece (by simp [hunbroken]) (by simp)
  have hended (l : List Char) : Ended (aboutLine l) := .inr ⟨_, rfl⟩
  have hbanner : Ended (banner.toList ++ ['\n']) := .inr ⟨_, rfl⟩
  have hpieces : file.opening = (banner.toList ++ ['\n']) ++ (([] ++ ['\n']) ++
      ((lines file.about.toList).flatMap aboutLine ++ ([] ++ ['\n']))) := by
    simp [opening]
  rw [hpieces, lines_append hbanner, lines_append (.inr ⟨_, rfl⟩),
    lines_append (ended_flatMap hended _), lines_flatMap hended]
  simp only [List.forall_mem_append]
  have hfirst : banner.toList.head? = some '/' := by decide
  refine ⟨hpiece (by decide) fun c hc => ?_, hpiece (by simp) (by simp), ?_,
    hpiece (by simp) (by simp)⟩
  · exact (Option.some.inj (hfirst.symm.trans hc)).symm
  intro m hm
  obtain ⟨l, hl, hm⟩ := List.mem_flatMap.mp hm
  exact habout l hl m hm

/-- What is read from a file, with the blank line that it loses at its end, are the lines of its
opening and those of its entries. -/
theorem lines_text (h : Close file.entries) :
    lines file.text.toList ++ [[]] =
      lines file.opening ++ file.entries.flatMap fun e => lines e.text := by
  have hopening : Ended file.opening := by
    unfold opening
    exact .inr ⟨_, rfl⟩
  have htext : Ended file.text.toList := by
    unfold SourceFile.text
    rw [String.toList_ofList]
    exact .inr ⟨_, rfl⟩
  have hbreak : lines (file.text.toList ++ ['\n']) = lines file.text.toList ++ [[]] :=
    lines_append htext _
  rw [← hbreak, text_close h, lines_append hopening, lines_flatMap SourceEntry.text_ended]

end SourceFile
end SceneDoc
