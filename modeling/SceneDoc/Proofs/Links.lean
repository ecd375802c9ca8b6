import SceneDoc.Proofs.Construction
import SceneDoc.Proofs.Intervals
import SceneDoc.Proofs.Splitting

namespace SceneDoc

variable {s : String} {f : Field} {form : String → Prop} {refusal : String → Reason} {v : Value}

inductive IsSchemeChar : Char → Prop
  | letter {c : Char} (h : c.isAlpha = true) : IsSchemeChar c
  | digit {c : Char} (h : c.isDigit = true) : IsSchemeChar c
  | plus : IsSchemeChar '+'
  | minus : IsSchemeChar '-'
  | dot : IsSchemeChar '.'

inductive IsScheme : List Char → Prop
  | mk {c : Char} {cs : List Char} (first : c.isAlpha = true) (rest : ∀ d ∈ cs, IsSchemeChar d) :
      IsScheme (c :: cs)

/-- A data URL, or a scheme and something behind it. -/
inductive IsUri : String → Prop
  | data (rest : String) : IsUri ("data:" ++ rest)
  | absolute {scheme rest : String} (known : IsScheme scheme.toList) (some : rest ≠ "") :
      IsUri (scheme ++ "://" ++ rest)

inductive IsReference : String → Prop
  | mk {id property : String} (given : id ≠ "") (plain : '#' ∉ id.toList) (named : property ≠ "") :
      IsReference (id ++ "#" ++ property)

theorem isSchemeChar_iff {c : Char} :
    (c.isAlphanum || c == '+' || c == '-' || c == '.') = true ↔ IsSchemeChar c := by
  simp only [Char.isAlphanum, Bool.or_eq_true, beq_iff_eq]
  constructor
  · intro h
    rcases h with (((letter | digit) | rfl) | rfl) | rfl
    · exact .letter letter
    · exact .digit digit
    · exact .plus
    · exact .minus
    · exact .dot
  · intro h
    cases h <;> simp [*]

theorem isScheme_iff {cs : List Char} : isScheme cs = true ↔ IsScheme cs := by
  cases cs with
  | nil =>
    simp only [isScheme, Bool.false_eq_true, false_iff]
    nofun
  | cons c cs =>
    simp only [isScheme, Bool.and_eq_true, List.all_eq_true, isSchemeChar_iff, List.forall_mem_cons]
    constructor
    · intro h
      obtain ⟨first, _, rest⟩ := h
      exact .mk first rest
    · intro h
      obtain ⟨first, rest⟩ := h
      exact ⟨first, .letter first, rest⟩

/-- No scheme goes past the first colon. -/
theorem IsScheme.colon {cs : List Char} (h : IsScheme cs) : ':' ∉ cs := by
  have other : ¬ IsSchemeChar ':' := by
    rw [← isSchemeChar_iff]
    decide
  obtain ⟨first, rest⟩ := h
  intro mem
  rcases List.mem_cons.mp mem with rfl | mem
  · exact other (.letter first)
  · exact other (rest _ mem)

/-- A text is cut at the first `://`, and a scheme leaves no other place to cut it. -/
theorem splitOnce?_scheme {cs scheme rest : List Char} (known : IsScheme scheme) :
    splitOnce? "://".toList cs = some (scheme, rest) ↔ cs = scheme ++ ("://".toList ++ rest) := by
  constructor
  · exact of_splitOnce?
  · intro h
    subst h
    exact splitOnce?_append known.colon rest

theorem eq_of_toList (sep : String) {before after : List Char}
    (h : s.toList = before ++ (sep.toList ++ after)) :
    s = String.ofList before ++ sep ++ String.ofList after := by
  apply String.toList_inj.mp
  simp [h]

theorem ofList_ne_empty {cs : List Char} : String.ofList cs ≠ "" ↔ (!cs.isEmpty) = true := by
  simp

theorem isUri_iff : isUri s = true ↔ IsUri s := by
  unfold isUri
  rw [Bool.or_eq_true, List.isPrefixOf_iff_prefix]
  constructor
  · intro h
    rcases h with absolute | ⟨rest, data⟩
    · split at absolute
      · rename_i scheme rest cut
        obtain ⟨known, some⟩ := Bool.and_eq_true_iff.mp absolute
        rw [isScheme_iff] at known
        rw [eq_of_toList "://" (of_splitOnce? cut)]
        exact .absolute (by rwa [String.toList_ofList]) (ofList_ne_empty.mpr some)
      · cases absolute
    · have whole : s = "data:" ++ String.ofList rest := by
        apply String.toList_inj.mp
        simp [← data]
      rw [whole]
      exact .data _
  · intro h
    cases h with
    | data rest => exact .inr (by simp)
    | @absolute scheme rest known some =>
      have cut : splitOnce? "://".toList (scheme ++ "://" ++ rest).toList =
          Option.some (scheme.toList, rest.toList) := by
        rw [splitOnce?_scheme known]
        simp [String.toList_append]
      left
      rw [cut]
      simp [isScheme_iff.mpr known, some]

theorem isReference_iff : isReference s = true ↔ IsReference s := by
  unfold isReference
  constructor
  · intro h
    split at h
    · rename_i id property cut
      obtain ⟨given, named⟩ := Bool.and_eq_true_iff.mp h
      obtain ⟨whole, plain⟩ := splitOnce?_eq_some.mp cut
      rw [eq_of_toList "#" whole]
      exact .mk (ofList_ne_empty.mpr given) (by rwa [String.toList_ofList])
        (ofList_ne_empty.mpr named)
    · cases h
  · intro h
    obtain ⟨given, plain, named⟩ := h
    rename_i id property
    have cut : splitOnce? ['#'] (id ++ "#" ++ property).toList =
        some (id.toList, property.toList) := by
      rw [splitOnce?_eq_some]
      exact ⟨by simp [String.toList_append], plain⟩
    rw [cut]
    simp [given, named]

/-- The field takes texts of this form, and holds and writes them as they were given, over an interval
or not; other texts are refused for this reason. -/
structure Field.TakesTexts (f : Field) (form : String → Prop) (refusal : String → Reason) :
    Prop where
  accepts : ∀ s, (∃ v, f.convert (.text s) = .ok v) ↔ form s
  keeps : ∀ s v, f.convert (.text s) = .ok v → v = .text s ∧ v.render = .string s
  refuses : ∀ s e, f.convert (.text s) = .error e ↔ ¬ form s ∧ e = .invalid (refusal s)
  timed : ∀ period s v, f.convert (.timed period (.text s)) = .ok v ↔
    form s ∧ v = .timed ⟨period, f.intervalKey, .text s⟩

namespace Field

/-- A field that checks texts and stores them takes those that pass. -/
theorem TakesTexts.of_check {test : String → Bool} (passes : ∀ s, test s = true ↔ form s)
    (checks : ∀ s, f.convertPlain (.text s) =
      if test s then .ok (.text s) else .error (.invalid (refusal s))) :
    f.TakesTexts form refusal := by
  have accepted (s : String) (v : Value) : f.convert (.text s) = .ok v ↔ form s ∧ v = .text s := by
    rw [convert_plain rfl, checks, ← passes]
    split <;> simp [*, eq_comm]
  refine ⟨fun s => ?_, fun s v h => ?_, fun s e => ?_, fun period s v => ?_⟩
  · simp [accepted]
  · obtain ⟨_, rfl⟩ := (accepted s v).mp h
    exact ⟨rfl, rfl⟩
  · rw [convert_plain rfl, checks, ← passes]
    split <;> simp [*, eq_comm]
  · have alone : (Input.text s).MayHold := ⟨rfl, nofun⟩
    simp [convert_timed_eq_ok, accepted, alone]

theorem takesTexts_uri (kind : f.kind = .uri) : f.TakesTexts IsUri .notUri :=
  .of_check (fun _ => isUri_iff) fun s => by simp only [convertPlain, kind]

theorem takesTexts_reference (kind : f.kind = .reference) :
    f.TakesTexts IsReference .notReference :=
  .of_check (fun _ => isReference_iff) fun s => by simp only [convertPlain, kind]

end Field

/-- A value that was given for a field stands in its slot, unless the object is deleted. -/
theorem Registry.entry_of_given {r : Registry} {cls : String} {inputs : List (String × Input)}
    {o : Object} {input : Input} (built : r.build cls inputs = .ok o) (kept : ¬ Deletes inputs)
    (field : f ∈ o.cls.fields) (given : (f.name, input) ∈ inputs) :
    ∃ v, f.convert input = .ok v ∧ (f, v) ∈ o.entries := by
  obtain ⟨_, valid, slots⟩ := build_eq_ok.mp built
  obtain ⟨slot, place, held⟩ := exists_slot slots field
  cases held with
  | unset nothing => exact absurd (.given given fun deletes => absurd deletes kept) (nothing input)
  | set takes converts =>
    cases takes with
    | given mem _ =>
      cases given_unique valid.names.once mem given
      exact ⟨_, converts, ObjectOf.mem_entries.mpr place⟩
    | default absent _ _ _ => exact absurd given (absent input)

namespace Field

/-- URI and reference fields take exactly the texts of their grammars. An object that is built from such
a text holds it as it was given, and it is written as it was given. -/
theorem takes_links (f : Field) :
    (f.kind = .uri → f.TakesTexts IsUri .notUri) ∧
    (f.kind = .reference → f.TakesTexts IsReference .notReference) ∧
    ∀ (r : Registry) (cls : String) (inputs : List (String × Input)) (o : Object) (s : String),
      f.kind = .uri ∨ f.kind = .reference → r.build cls inputs = .ok o → ¬ Deletes inputs →
      f ∈ o.cls.fields → (f.name, .text s) ∈ inputs →
      (f, .text s) ∈ o.entries ∧
        ∃ entries, o.render = .object entries ∧ (f.name, .string s) ∈ entries := by
  refine ⟨takesTexts_uri, takesTexts_reference, ?_⟩
  intro r cls inputs o s kind built kept field given
  obtain ⟨v, converts, entry⟩ := Registry.entry_of_given built kept field given
  have same : v = .text s ∧ v.render = .string s := by
    rcases kind with uri | reference
    · exact (takesTexts_uri uri).keeps s v converts
    · exact (takesTexts_reference reference).keeps s v converts
  obtain ⟨rfl, _⟩ := same
  refine ⟨entry, _, Value.render_object o, ?_⟩
  exact List.mem_map.mpr ⟨(f, .text s), entry, rfl⟩

def picture : Field := ⟨"picture", "Uri", .uri, none, true, false, "", none⟩

theorem takes_links_picture :
    (∃ v, picture.convert (.text "https://example.com/marker.png") = .ok v) ∧
    ∃ o, (Registry.mk [⟨"Frame", "", [], [picture], []⟩]).build "Frame"
        [("picture", .text "data:,dot")] = .ok o ∧ (picture, .text "data:,dot") ∈ o.entries := by
  obtain ⟨uri, _, holds⟩ := takes_links picture
  have absolute : IsUri ("https" ++ "://" ++ "example.com/marker.png") := by
    rw [← isUri_iff]
    decide
  refine ⟨((uri rfl).accepts _).mpr absolute, ?_⟩
  have builds : ((Registry.mk [⟨"Frame", "", [], [picture], []⟩]).build "Frame"
      [("picture", .text "data:,dot")]).isOk = true := by decide
  obtain ⟨o, built⟩ := isOk_iff.mp builds
  obtain ⟨member, _⟩ := Registry.class?_eq_some (Registry.build_eq_ok.mp built).1
  have field : picture ∈ o.cls.fields := by
    rw [List.mem_singleton.mp member]
    exact List.mem_singleton_self picture
  have kept : ¬ Deletes [("picture", Input.text "data:,dot")] := by simp [Deletes]
  have given : (picture.name, Input.text "data:,dot") ∈ [("picture", Input.text "data:,dot")] :=
    List.mem_singleton_self _
  exact ⟨o, built, (holds _ _ _ o "data:,dot" (.inl rfl) built kept field given).1⟩

end Field
end SceneDoc
