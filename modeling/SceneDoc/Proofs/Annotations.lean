import SceneDoc.Proofs.Characters
import SceneDoc.Proofs.Splitting
import SceneDoc.Proofs.Trimming
import SceneDoc.Schema.TypeText

namespace SceneDoc
namespace TypeText

-- Members of a list are checked one by one, also where more instances are in scope.
attribute [local instance (high)] List.decidableBAll

variable {c : Char} {cs text core inner path tail : List Char} {start final written bare : String}

theorem isNameChar_iff : isNameChar c = true ↔ c.isAlphanum = true ∨ c = '_' := by
  simp [isNameChar]

theorem isNameChar_lt (h : isNameChar c = true) : c.toNat < 128 := by
  rcases isNameChar_iff.mp h with alphanum | rfl
  · exact toNat_lt_of_isAlphanum alphanum
  · decide

theorem isNameChar_toLower (h : isNameChar c = true) : isNameChar c.toLower = true := by
  have each : ∀ n < 128, isNameChar (Char.ofNat n) = true →
      isNameChar (Char.ofNat n).toLower = true := by decide
  exact of_ascii (P := fun c => isNameChar c = true → isNameChar c.toLower = true) each
    (isNameChar_lt h) h

theorem isNameChar_visible (h : isNameChar c = true) : isBlank c = false := by
  rcases isNameChar_iff.mp h with alphanum | rfl
  · exact isBlank_of_isAlphanum alphanum
  · decide

def IsName (cs : List Char) : Prop := ∀ c ∈ cs, isNameChar c = true

/-- Names hold no other characters. -/
theorem IsName.not_mem (h : IsName cs) (other : isNameChar c = false) : c ∉ cs := by
  intro hc
  rw [h c hc] at other
  cases other

theorem IsName.sublist {ds : List Char} (h : IsName cs) (sub : ds.Sublist cs) : IsName ds :=
  fun d hd => h d (sub.subset hd)

/-- A letter or an underscore, and then letters, digits and underscores, all of them ASCII. -/
inductive IsIdentifier : List Char → Prop
  | mk {c : Char} {cs : List Char} (first : c.isAlpha = true ∨ c = '_')
      (rest : ∀ d ∈ cs, d.isAlphanum = true ∨ d = '_') : IsIdentifier (c :: cs)

theorem isNameChar_not_digit (h : isNameChar c = true) :
    c.isDigit = false ↔ c.isAlpha = true ∨ c = '_' := by
  have each : ∀ n < 128, isNameChar (Char.ofNat n) = true →
      ((Char.ofNat n).isDigit = false ↔ (Char.ofNat n).isAlpha = true ∨ Char.ofNat n = '_') := by
    decide
  exact of_ascii (P := fun c => isNameChar c = true →
    (c.isDigit = false ↔ c.isAlpha = true ∨ c = '_')) each (isNameChar_lt h) h

theorem isBareName_iff : isBareName cs = true ↔ IsIdentifier cs := by
  cases cs with
  | nil =>
    simp only [isBareName, Bool.false_eq_true, false_iff]
    nofun
  | cons c cs =>
    simp only [isBareName, Bool.and_eq_true, Bool.not_eq_true', List.all_eq_true,
      List.forall_mem_cons]
    constructor
    · intro h
      obtain ⟨other, first, rest⟩ := h
      exact .mk ((isNameChar_not_digit first).mp other) fun d hd => isNameChar_iff.mp (rest d hd)
    · intro h
      obtain ⟨first, rest⟩ := h
      have name : isNameChar c = true :=
        isNameChar_iff.mpr (first.imp_left fun letter => by simp [Char.isAlphanum, letter])
      exact ⟨(isNameChar_not_digit name).mpr first, name, fun d hd => isNameChar_iff.mpr (rest d hd)⟩

theorem IsIdentifier.isName (h : IsIdentifier cs) : IsName cs := by
  obtain ⟨first, rest⟩ := h
  refine List.forall_mem_cons.mpr ⟨isNameChar_iff.mpr ?_, fun d hd => isNameChar_iff.mpr (rest d hd)⟩
  exact first.imp_left fun letter => by simp [Char.isAlphanum, letter]

theorem isName_of_isBareName (h : isBareName cs = true) : IsName cs := (isBareName_iff.mp h).isName

theorem IsIdentifier.ne_nil (h : IsIdentifier cs) : cs ≠ [] := by
  cases h
  exact List.cons_ne_nil _ _

theorem between_ne (h : start.toList.isPrefixOf cs = false) : between start final cs = .plain := by
  simp [between, dropStart?, h]

theorem between_append (inner : List Char) :
    between start final (start.toList ++ inner ++ final.toList) = .inner inner := by
  have hstart : start.toList.isPrefixOf (start.toList ++ (inner ++ final.toList)) = true :=
    List.isPrefixOf_iff_prefix.mpr (List.prefix_append _ _)
  have hfinal : final.toList.isSuffixOf (inner ++ final.toList) = true :=
    List.isSuffixOf_iff_suffix.mpr (List.suffix_append _ _)
  simp [between, dropStart?, dropEnd?, hstart, hfinal]

theorem eq_of_between (h : between start final cs = .inner inner) :
    cs = start.toList ++ inner ++ final.toList := by
  unfold between dropStart? dropEnd? at h
  split at h
  · cases h
  · rename_i rest front
    split at h
    · cases h
    · rename_i ending
      simp only [Option.ite_none_right_eq_some, Option.some.injEq, List.isPrefixOf_iff_prefix,
        List.isSuffixOf_iff_suffix] at front ending
      obtain ⟨starts, rfl⟩ := front
      obtain ⟨ends, rfl⟩ := ending
      cases h
      rw [List.append_assoc, List.suffix_iff_eq_append.mp ends, List.prefix_iff_eq_append.mp starts]

theorem between_eq_plain : between start final cs = .plain ↔ ¬ start.toList <+: cs := by
  constructor
  · intro plain starts
    unfold between dropStart? at plain
    rw [if_pos (List.isPrefixOf_iff_prefix.mpr starts)] at plain
    dsimp only at plain
    split at plain <;> cases plain
  · intro other
    exact between_ne (by simpa [← List.isPrefixOf_iff_prefix] using other)

inductive IsWrapper : String → String → Prop
  | option : IsWrapper "Option<" ">"
  | typingOptional : IsWrapper "typing.Optional[" "]"
  | optional : IsWrapper "Optional[" "]"

theorem unwrapOnce_wrapper (known : IsWrapper start final) (inner : List Char) :
    unwrapOnce (start.toList ++ inner ++ final.toList) = .inner inner := by
  cases known with
  | option => rw [unwrapOnce, between_append]
  | typingOptional => rw [unwrapOnce, between_ne rfl, between_append]
  | optional => rw [unwrapOnce, between_ne rfl, between_ne rfl, between_append]

/-- A wrapper is taken off where one stands around everything. -/
theorem unwrapOnce_eq_inner : unwrapOnce cs = .inner inner ↔
    ∃ start final, IsWrapper start final ∧ cs = start.toList ++ inner ++ final.toList := by
  constructor
  · intro h
    unfold unwrapOnce at h
    split at h
    · split at h
      · exact ⟨_, _, .optional, eq_of_between h⟩
      · exact ⟨_, _, .typingOptional, eq_of_between h⟩
    · exact ⟨_, _, .option, eq_of_between h⟩
  · rintro ⟨start, final, known, rfl⟩
    exact unwrapOnce_wrapper known inner

theorem unwrapOnce_eq_plain :
    unwrapOnce cs = .plain ↔ ∀ start final, IsWrapper start final → ¬ start.toList <+: cs := by
  constructor
  · intro h
    unfold unwrapOnce at h
    split at h
    · rename_i option
      split at h
      · rename_i typing
        rintro start final (_ | _ | _)
        · exact between_eq_plain.mp option
        · exact between_eq_plain.mp typing
        · exact between_eq_plain.mp h
      · contradiction
    · contradiction
  · intro none
    unfold unwrapOnce
    rw [between_eq_plain.mpr (none _ _ .option)]
    dsimp only
    rw [between_eq_plain.mpr (none _ _ .typingOptional)]
    exact between_eq_plain.mpr (none _ _ .optional)

theorem unwrap?_eq (cs : List Char) : unwrap? cs =
    match unwrapOnce cs with
    | .plain => some cs
    | .unclosed => none
    | .inner inner => unwrap? (trim inner) := by
  rw [unwrap?]
  split <;> simp [*]

/-- Wrappers are taken off one by one, with the white space inside each. After `n` of them nothing more
is taken off, and `left` is what is left, unless a wrapper is not closed. -/
inductive Rounds : Nat → List Char → Option (List Char) → Prop
  | plain {cs : List Char} (bare : unwrapOnce cs = .plain) : Rounds 0 cs (some cs)
  | unclosed {cs : List Char} (missing : unwrapOnce cs = .unclosed) : Rounds 0 cs none
  | wrapper {n : Nat} {cs inner : List Char} {left : Option (List Char)}
      (off : unwrapOnce cs = .inner inner) (more : Rounds n (trim inner) left) :
      Rounds (n + 1) cs left

theorem length_wrapper (known : IsWrapper start final) (inner : List Char) :
    inner.length + 8 ≤ (start.toList ++ inner ++ final.toList).length := by
  cases known <;> simp

/-- A text has no more wrappers to take off than an eighth of its characters. -/
theorem exists_rounds (cs : List Char) : ∃ n, 8 * n ≤ cs.length ∧ Rounds n cs (unwrap? cs) := by
  induction cs using unwrap?.induct with
  | case1 cs bare =>
    rw [unwrap?_eq, bare]
    exact ⟨0, Nat.zero_le _, .plain bare⟩
  | case2 cs missing =>
    rw [unwrap?_eq, missing]
    exact ⟨0, Nat.zero_le _, .unclosed missing⟩
  | case3 cs inner off ih =>
    obtain ⟨n, few, rounds⟩ := ih
    rw [unwrap?_eq, off]
    refine ⟨n + 1, ?_, .wrapper off rounds⟩
    obtain ⟨start, final, known, rfl⟩ := unwrapOnce_eq_inner.mp off
    have := length_trim_le inner
    have := length_wrapper known inner
    omega

/-- A text in any number of wrappers, with white space anywhere around it and them. -/
inductive Wrapped (core : List Char) : List Char → Prop
  | bare {text : List Char} (around : Encloses text core) : Wrapped core text
  | wrapper {text inner : List Char} {start final : String} (known : IsWrapper start final)
      (inside : Wrapped core inner)
      (around : Encloses text (start.toList ++ inner ++ final.toList)) : Wrapped core text

/-- Nothing is trimmed off a wrapper. -/
theorem trim_wrapper (known : IsWrapper start final)
    (around : Encloses text (start.toList ++ inner ++ final.toList)) :
    trim text = start.toList ++ inner ++ final.toList := by
  obtain ⟨first, rest, opening, visible⟩ :
      ∃ c cs, start.toList = c :: cs ∧ isBlank c = false := by
    cases known <;> exact ⟨_, _, rfl, rfl⟩
  obtain ⟨last, closing, visible'⟩ : ∃ c, final.toList = [c] ∧ isBlank c = false := by
    cases known <;> exact ⟨_, rfl, rfl⟩
  apply around.trim_eq
  · rw [opening]
    rintro c ⟨⟩
    exact visible
  · rw [closing, List.getLast?_concat]
    rintro c ⟨⟩
    exact visible'

/-- Wrappers make no difference to what is left when they are taken off. -/
theorem Wrapped.unwrap_eq (h : Wrapped core text) : unwrap? (trim text) = unwrap? (trim core) := by
  induction h with
  | bare around => rw [around.same_trim]
  | wrapper known inside around ih =>
    rw [trim_wrapper known around, unwrap?_eq, unwrapOnce_wrapper known]
    exact ih

/-- No wrapper is opened where the text starts, after any white space. -/
def Unopened (text : List Char) : Prop :=
  ∀ start final, IsWrapper start final → ¬ start.toList <+: trimStart text

/-- What is left when wrappers are taken off stood in them, and is none itself. -/
theorem of_unwrap? (h : unwrap? (trim text) = some core) : Wrapped core text ∧ Unopened core := by
  generalize trimmed : trim text = cs at h
  induction cs using unwrap?.induct generalizing text with
  | case1 cs bare =>
    rw [unwrap?_eq, bare] at h
    cases h
    subst trimmed
    refine ⟨.bare (encloses_trim text), fun start final known => ?_⟩
    rw [trimStart_eq_self (trim_head text)]
    exact unwrapOnce_eq_plain.mp bare start final known
  | case2 cs missing =>
    rw [unwrap?_eq, missing] at h
    cases h
  | case3 cs inner off ih =>
    rw [unwrap?_eq, off] at h
    obtain ⟨inside, unopened⟩ := ih rfl h
    obtain ⟨start, final, known, rfl⟩ := unwrapOnce_eq_inner.mp off
    exact ⟨.wrapper known inside (trimmed ▸ encloses_trim text), unopened⟩

inductive IsPath : List Char → Prop
  | none : IsPath []
  | modules (path : List Char) : IsPath (path ++ [':', ':'])
  | dotted (path : List Char) : IsPath (path ++ ['.'])

/-- The last part of a text stands behind a path. -/
theorem exists_path (cs : List Char) :
    ∃ path, IsPath path ∧ cs = path ++ afterLast ['.'] (afterLast [':', ':'] cs) := by
  obtain ⟨before, ends, split⟩ : ∃ before, IsPath before ∧ cs = before ++ afterLast [':', ':'] cs := by
    rcases afterLast_cases [':', ':'] cs with all | ⟨before, rest⟩
    · exact ⟨[], .none, by rw [all, List.nil_append]⟩
    · exact ⟨before ++ [':', ':'], .modules before, by rw [List.append_assoc, ← rest]⟩
  rcases afterLast_cases ['.'] (afterLast [':', ':'] cs) with whole | ⟨front, rest⟩
  · exact ⟨before, ends, whole.symm ▸ split⟩
  · refine ⟨before ++ front ++ ['.'], .dotted _, ?_⟩
    rw [List.append_assoc, List.append_assoc, ← rest, ← split]

theorem IsName.fresh {sep : List Char} (h : IsName tail) (others : ∀ c ∈ sep, isNameChar c = false) :
    ∀ c ∈ sep, c ∉ tail :=
  fun c hc => h.not_mem (others c hc)

/-- A name behind a path is the last part. -/
theorem IsPath.last_part (h : IsPath path) (name : IsName tail) :
    afterLast ['.'] (afterLast [':', ':'] (path ++ tail)) = tail := by
  have colons : ∀ c ∈ [':', ':'], c ∉ tail := name.fresh (by decide)
  have dot : ∀ c ∈ ['.'], c ∉ tail := name.fresh (by decide)
  have alone : afterLast ['.'] tail = tail := afterLast_of_fresh (List.cons_ne_nil _ _) dot
  cases h with
  | none => rw [List.nil_append, afterLast_of_fresh (List.cons_ne_nil _ _) colons, alone]
  | modules path =>
    rw [List.append_assoc, afterLast_append (List.cons_ne_nil _ _) colons, alone]
  | dotted path =>
    -- The colons are looked for first, and leave the dot and all behind it.
    have later : ∀ c ∈ [':', ':'], c ∉ ['.'] ++ tail := by simpa using colons
    obtain ⟨front, part⟩ := exists_afterLast_append (List.cons_ne_nil _ _) later path
    rw [List.append_assoc, part, afterLast_append (List.cons_ne_nil _ _) dot]

/-- White space is trimmed off a path up to its separator at most. -/
theorem IsPath.trimStart (h : IsPath path) : IsPath (trimStart path) := by
  cases h with
  | none => exact .none
  | modules path =>
    rw [trimStart_append_visible]
    · exact .modules _
    · rintro c ⟨⟩
      rfl
  | dotted path =>
    rw [trimStart_append_visible]
    · exact .dotted _
    · rintro c ⟨⟩
      rfl

theorem Unopened.of_append (h : Unopened (path ++ tail)) : Unopened path :=
  fun start final known starts => h start final known (starts.trans (prefix_trimStart path tail))

/-- No wrapper opens later than its bracket. -/
theorem Unopened.append (h : Unopened path) (visible : ∀ c ∈ tail.head?, isBlank c = false)
    (angle : '<' ∉ tail) (square : '[' ∉ tail) : Unopened (path ++ tail) := by
  intro start final known starts
  -- An opening that reached into the tail would end there, with its bracket.
  obtain ⟨front, bracket, opening, other⟩ :
      ∃ cs c, start.toList = cs ++ [c] ∧ c ∉ tail := by
    cases known with
    | option => exact ⟨"Option".toList, _, rfl, angle⟩
    | typingOptional => exact ⟨"typing.Optional".toList, _, rfl, square⟩
    | optional => exact ⟨"Optional".toList, _, rfl, square⟩
  rw [trimStart_append_visible visible, opening] at starts
  obtain ⟨rest, split⟩ := starts
  rcases List.append_eq_append_iff.mp split with ⟨gap, same, _⟩ | ⟨gap, same, here⟩
  · exact h start final known ⟨gap, opening ▸ same.symm⟩
  · have none : gap = [] := by
      refine eq_nil_of_append_eq (by simp) (fun c hc mem => ?_) same
      obtain rfl := List.mem_singleton.mp hc
      exact other (here ▸ List.mem_append_left _ mem)
    rw [none, List.append_nil] at same
    exact h start final known ⟨[], by rw [opening, same, List.append_nil]⟩

theorem IsIdentifier.visible_head (h : IsIdentifier cs) : ∀ c ∈ cs.head?, isBlank c = false :=
  fun c hc => isNameChar_visible (h.isName c (List.mem_of_mem_head? hc))

/-- Behind a path that opens no wrapper, a name is all that is read. -/
theorem Unopened.bareType?_eq (h : Unopened path) (ends : IsPath path)
    (name : IsIdentifier bare.toList) (wrapped : Wrapped (path ++ bare.toList) written.toList) :
    bareType? written = some bare := by
  have core : trim (path ++ bare.toList) = trimStart path ++ bare.toList := by
    have visible : ∀ c ∈ (trimStart path ++ bare.toList).getLast?, isBlank c = false := by
      rw [List.getLast?_append_of_ne_nil _ name.ne_nil]
      exact fun c hc => isNameChar_visible (name.isName c (List.mem_of_mem_getLast? hc))
    rw [trim, trimStart_append_visible name.visible_head, trimEnd_eq_self visible]
  have unopened : Unopened (path ++ bare.toList) :=
    h.append name.visible_head (name.isName.not_mem (by decide)) (name.isName.not_mem (by decide))
  have plain : unwrapOnce (trimStart path ++ bare.toList) = .plain := by
    rw [unwrapOnce_eq_plain, ← trimStart_append_visible name.visible_head]
    exact unopened
  unfold bareType?
  rw [wrapped.unwrap_eq, core, unwrap?_eq, plain]
  simp only [ends.trimStart.last_part name.isName, isBareName_iff.mpr name, ↓reduceIte,
    String.ofList_toList]

/-- An annotation has a bare type name exactly if it is that name behind a path, in any number of
wrappers. -/
theorem bareType?_eq_some : bareType? written = some bare ↔
    ∃ path, IsPath path ∧ Unopened path ∧ IsIdentifier bare.toList ∧
      Wrapped (path ++ bare.toList) written.toList := by
  constructor
  · intro h
    unfold bareType? at h
    split at h
    · cases h
    · rename_i ty left
      dsimp only at h
      split at h
      · rename_i name
        cases h
        obtain ⟨wrapped, unopened⟩ := of_unwrap? left
        obtain ⟨path, ends, split⟩ := exists_path ty
        rw [String.toList_ofList]
        rw [split] at wrapped unopened
        exact ⟨path, ends, unopened.of_append, isBareName_iff.mp name, wrapped⟩
      · cases h
  · rintro ⟨path, ends, unopened, name, wrapped⟩
    exact unopened.bareType?_eq ends name wrapped

/-- The unqualified name in an annotation is a name. -/
theorem bareType?_isName (h : bareType? written = some bare) : IsName bare.toList := by
  obtain ⟨_, _, _, name, _⟩ := bareType?_eq_some.mp h
  exact name.isName

/-- Wrappers make no difference to the name that is read. -/
theorem Wrapped.bareType?_eq {inside : String} (h : Wrapped inside.toList written.toList) :
    bareType? written = bareType? inside := by
  unfold bareType?
  rw [h.unwrap_eq]

/-- An annotation without wrappers is wrapped in nothing. -/
theorem Wrapped.refl (cs : List Char) : Wrapped cs cs :=
  .bare ⟨by rw [List.append_nil, List.nil_append], List.forall_mem_nil _, List.forall_mem_nil _⟩

/-- Any path that opens no wrapper can stand in front of a name. -/
theorem Unopened.bareType?_path {path : String} (h : Unopened path.toList)
    (name : IsIdentifier bare.toList) :
    bareType? (path ++ "::" ++ bare) = some bare ∧ bareType? (path ++ "." ++ bare) = some bare := by
  constructor
  · have colons : Unopened (path.toList ++ [':', ':']) :=
      h.append (by rintro c ⟨⟩; rfl) (by decide) (by decide)
    refine colons.bareType?_eq (.modules _) name ?_
    rw [String.toList_append, String.toList_append]
    exact .refl _
  · have dot : Unopened (path.toList ++ ['.']) :=
      h.append (by rintro c ⟨⟩; rfl) (by decide) (by decide)
    refine dot.bareType?_eq (.dotted _) name ?_
    rw [String.toList_append, String.toList_append]
    exact .refl _

theorem unopened_nil : Unopened [] := by
  rintro start final (_ | _ | _) <;> decide

/-- Wrappers and white space make no difference to the name that is read, nor does a path in front of it.
The name is an identifier and is read as itself. Taking off wrappers comes to an end for every text. -/
theorem bareType?_stable :
    (∀ inner written : String, Wrapped inner.toList written.toList →
      bareType? written = bareType? inner) ∧
    (∀ written bare : String, bareType? written = some bare →
      IsIdentifier bare.toList ∧ bareType? bare = some bare) ∧
    (∀ path bare : String, Unopened path.toList → IsIdentifier bare.toList →
      bareType? (path ++ "::" ++ bare) = some bare ∧ bareType? (path ++ "." ++ bare) = some bare) ∧
    ∀ text : String, ∃ n, 8 * n ≤ text.toList.length ∧
      Rounds n (trim text.toList) (unwrap? (trim text.toList)) := by
  refine ⟨fun _ _ wrapped => wrapped.bareType?_eq, fun written bare h => ?_,
    fun _ _ unopened name => unopened.bareType?_path name, fun text => ?_⟩
  · obtain ⟨_, _, _, name, _⟩ := bareType?_eq_some.mp h
    exact ⟨name, unopened_nil.bareType?_eq .none name (.refl _)⟩
  · obtain ⟨n, few, rounds⟩ := exists_rounds (trim text.toList)
    exact ⟨n, few.trans (length_trim_le text.toList), rounds⟩

/-- A name behind a path in two wrappers. -/
theorem bareType?_stable_nested :
    Unopened "czml::values".toList ∧ Wrapped "czml::values::Rgba".toList
        " typing.Optional[ Option<czml::values::Rgba> ]\n".toList ∧
      bareType? " typing.Optional[ Option<czml::values::Rgba> ]\n" = some "Rgba" ∧
      IsIdentifier "Rgba".toList ∧ bareType? "Rgba" = some "Rgba" := by
  obtain ⟨transparent, idempotent, behind, _⟩ := bareType?_stable
  have unopened : Unopened "czml::values".toList := by
    rintro start final (_ | _ | _) <;> decide
  have name : IsIdentifier "Rgba".toList := isBareName_iff.mp (by decide)
  have inside : Wrapped "czml::values::Rgba".toList " Option<czml::values::Rgba> ".toList :=
    .wrapper .option (.refl _) (@Encloses.mk _ _ [' '] [' '] rfl (by decide) (by decide))
  have nested : Wrapped "czml::values::Rgba".toList
      " typing.Optional[ Option<czml::values::Rgba> ]\n".toList :=
    .wrapper .typingOptional inside (@Encloses.mk _ _ [' '] ['\n'] rfl (by decide) (by decide))
  have read := (transparent _ _ nested).trans (behind "czml::values" "Rgba" unopened name).1
  exact ⟨unopened, nested, read, idempotent _ _ read⟩

end TypeText
end SceneDoc
