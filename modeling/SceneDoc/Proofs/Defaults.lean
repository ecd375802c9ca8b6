import SceneDoc.Proofs.Canonical
import SceneDoc.Proofs.Compilation

namespace SceneDoc

variable {c : ValueClass} {f : Field} {d : DefaultValue} {definitions : List Definition}
  {r : Registry}

/-- Whether a default of a type that fits the kind also lies in the kind's domain. -/
def DefaultValue.isInDomain (kind : FieldKind) : DefaultValue → Bool
  | .bool _ => true
  | .number x => x.isFinite
  | .text s =>
    match kind with
    | .uri => isUri s
    | .reference => isReference s
    | .instant => Instant.isSpelling s
    | .interval => (TimeInterval.parse s).isOk
    | _ => true

/-- A default has a value exactly if it lies in the domain of its field's kind. -/
theorem Field.convert_default_iff (fits : d.Fits f.kind) :
    (∃ v, f.convert d.toInput = .ok v) ↔ d.isInDomain f.kind = true := by
  have plain : f.convert d.toInput = f.convertPlain d.toInput := by cases d <;> rfl
  rw [plain]
  generalize kind : f.kind = k at fits ⊢
  unfold convertPlain DefaultValue.toInput DefaultValue.isInDomain
  rw [kind]
  cases fits with
  | bool b => simp
  | number x => simp [check_map_eq_ok, checkFinite_eq_ok]
  | text s => simp
  | uri s => exact exists_ite_eq_ok
  | reference s => exact exists_ite_eq_ok
  | instant s =>
    simp only [map_eq_ok, exists_comm (α := Value), exists_eq_right']
    exact exists_ite_eq_ok
  | interval s =>
    simp only [map_eq_ok, exists_comm (α := Value), exists_eq_right']
    exact isOk_iff.symm
  | member mem =>
    have listed := Enumeration.mem_rawValues.mpr ⟨_, mem⟩
    simp [member, Enumeration.contains, listed]

def ValueClass.Defaults (c : ValueClass) (name : String) : Prop :=
  ∃ f ∈ c.fields, f.name = name ∧ f.default ≠ none

/-- Without inputs, the fields with a default are present. -/
theorem ValueClass.present_nil_iff {name : String} : c.present [] name = true ↔ c.Defaults name := by
  simp [present, Defaults, Option.isSome_iff_ne_none]

section Compiled

variable (compiled : Registry.compile definitions = .ok r)
include compiled

theorem Registry.default_fits (hc : c ∈ r.classes) (hf : f ∈ c.fields) (given : f.default = some d) :
    d.Fits f.kind := by
  obtain ⟨_, becomes⟩ := compile_eq_ok.mp compiled
  obtain ⟨_, _, hbecomes⟩ := exists_of_mem_forall₂ becomes hc
  obtain ⟨_, _, _, typed, rfl⟩ := exists_of_mem_forall₂ hbecomes.fields hf
  exact typed.default d given

/-- No field that excludes others has a default. -/
theorem Registry.group_undefaulted (hc : c ∈ r.classes) {rule : Rule} (hrule : rule ∈ c.rules) :
    ∀ name ∈ rule.group, ¬ c.Defaults name := by
  obtain ⟨wellFormed, becomes⟩ := compile_eq_ok.mp compiled
  obtain ⟨definition, hd, hbecomes⟩ := exists_of_mem_forall₂ becomes hc
  rw [hbecomes.rules] at hrule
  intro name hname hdefault
  have allows := (wellFormed.each definition hd).rules rule hrule
  refine Rule.forall_excludes.mp allows.group name hname ?_
  rw [← ValueClass.present_nil_iff] at hdefault
  exact (any_default_iff hbecomes.fields name).mp hdefault

/-- Defaults never exclude each other. -/
theorem Registry.exclusive_met (hc : c ∈ r.classes) {group : List String}
    (hrule : .exclusive group ∈ c.rules) : (Rule.exclusive group).Met (c.present []) := by
  have none : group.countP (c.present []) = 0 := by
    rw [List.countP_eq_zero]
    intro name hname
    rw [ValueClass.present_nil_iff]
    exact group_undefaulted compiled hc hrule name hname
  rw [Rule.Met, none]
  exact Nat.zero_le 1

/-- Every field takes its default, if it has one, and the default has a value. -/
theorem Registry.converts_nil_iff (hc : c ∈ r.classes) :
    (∀ f ∈ c.fields, f.Converts []) ↔
      ∀ f ∈ c.fields, ∀ d, f.default = some d → d.isInDomain f.kind = true := by
  have kept : ¬ Deletes [] := by simp [Deletes]
  refine forall₂_congr fun f hf => ?_
  constructor
  · intro converts d given
    rw [← Field.convert_default_iff (default_fits compiled hc hf given)]
    exact converts _ (.default (by simp) kept given (DefaultValue.gives_iff.mpr rfl))
  · intro domains input takes
    cases takes with
    | given mem _ => simp at mem
    | default _ _ given gives =>
      obtain rfl := DefaultValue.gives_iff.mp gives
      exact (Field.convert_default_iff (default_fits compiled hc hf given)).mpr (domains _ given)

/-- Without required fields and rules that call for one of several, what can go wrong without inputs
is a default out of its domain or one that requires what has none. -/
theorem Registry.valid_nil_iff (hc : c ∈ r.classes) (optional : ∀ f ∈ c.fields, f.required = false)
    (free : ∀ group, .oneOf group ∉ c.rules) :
    c.Valid [] ↔ (∀ f ∈ c.fields, ∀ d, f.default = some d → d.isInDomain f.kind = true) ∧
      ∀ field sibling, .requires field sibling ∈ c.rules → c.Defaults field → c.Defaults sibling := by
  rw [← converts_nil_iff compiled hc]
  have kept : ¬ Deletes [] := by simp [Deletes]
  constructor
  · intro valid
    refine ⟨valid.converts, fun field sibling hrule => ?_⟩
    have met := valid.rules kept _ hrule
    rwa [Rule.Met, ValueClass.present_nil_iff, ValueClass.present_nil_iff] at met
  · intro h
    obtain ⟨converts, requires⟩ := h
    refine ⟨⟨by simp, .nil⟩, converts, fun _ f hf required => ?_, fun _ rule hrule => ?_⟩
    · rw [optional f hf] at required
      cases required
    · cases rule with
      | exclusive group => exact exclusive_met compiled hc hrule
      | oneOf group => exact absurd hrule (free group)
      | requires field sibling =>
        rw [Rule.Met, ValueClass.present_nil_iff, ValueClass.present_nil_iff]
        exact requires field sibling hrule

end Compiled

/-- Whether a class can be built from its defaults: compiling it makes sure that they have the right
types and that none excludes another, but not that they lie in their domains, nor that they have what
they require. -/
theorem Registry.build_nil_iff {cls : String} (compiled : compile definitions = .ok r)
    (found : r.class? cls = some c) :
    (∀ f ∈ c.fields, ∀ d, f.default = some d →
      ((∃ v, f.convert d.toInput = .ok v) ↔ d.isInDomain f.kind = true)) ∧
    (∀ group, .exclusive group ∈ c.rules → (Rule.exclusive group).Met (c.present [])) ∧
    ((∀ f ∈ c.fields, f.required = false) → (∀ group, .oneOf group ∉ c.rules) →
      ((∃ o, r.build cls [] = .ok o) ↔
        (∀ f ∈ c.fields, ∀ d, f.default = some d → d.isInDomain f.kind = true) ∧
        ∀ field sibling, .requires field sibling ∈ c.rules →
          c.Defaults field → c.Defaults sibling)) := by
  have hc := (class?_eq_some found).1
  refine ⟨fun f hf d given => Field.convert_default_iff (default_fits compiled hc hf given),
    fun group hrule => exclusive_met compiled hc hrule, fun optional free => ?_⟩
  rw [← valid_nil_iff compiled hc optional free, (build_iff_valid r cls []).1]
  simp [found]

theorem Registry.build_nil_iff_preamble :
    ∃ r o, compile Catalogue.opening = .ok r ∧ r.build "Preamble" [] = .ok o := by
  have run : ((compile Catalogue.opening).toOption.bind fun r =>
      (r.class? "Preamble").filter fun c => c.rules = [] ∧ c.fields.all fun f =>
        !f.required && f.default.all (·.isInDomain f.kind)).isSome = true := by
    decide +kernel
  simp only [Option.isSome_iff_exists, Option.bind_eq_some_iff, Option.filter_eq_some_iff,
    toOption_eq_some, decide_eq_true_eq, List.all_eq_true, Bool.and_eq_true, Bool.not_eq_true',
    Option.all_eq_true] at run
  obtain ⟨c, r, hr, found, rules, fields⟩ := run
  have built : ∃ o, r.build "Preamble" [] = .ok o := by
    refine ((build_nil_iff hr found).2.2 (fun f hf => (fields f hf).1) (by simp [rules])).mpr ?_
    exact ⟨fun f hf d given => (fields f hf).2 d given, by simp [rules]⟩
  obtain ⟨o, ho⟩ := built
  exact ⟨r, o, hr, ho⟩

def Catalogue.link : Definition where
  name := "Link"
  description := ""
  bases := []
  attributes := [(Attribute.optional "target" "Uri" "").withDefault (.text "nowhere")]
  rules := []

def Catalogue.caption : Definition where
  name := "Caption"
  description := ""
  bases := []
  attributes := [
    (Attribute.optional "show" "bool" "").withDefault (.bool true),
    .optional "text" "String" ""]
  rules := [.requires "show" "text"]

/-- Nothing has to be given, and yet neither class can be built from its defaults. -/
theorem Registry.defaults_refused :
    ∃ r link caption, compile [Catalogue.link, Catalogue.caption] = .ok r ∧
      r.class? "Link" = some link ∧ r.class? "Caption" = some caption ∧
      (∀ f ∈ link.fields ++ caption.fields, f.required = false) ∧
      (∀ group, .oneOf group ∉ link.rules ++ caption.rules) ∧
      r.build "Link" [] = .error (.refused "Link" "target" (.invalid (.notUri "nowhere"))) ∧
      r.build "Caption" [] = .error (.missingDependency "Caption" "show" "text") := by
  have run : ((compile [Catalogue.link, Catalogue.caption]).toOption.bind fun r =>
      (r.class? "Link").bind fun link =>
        (r.class? "Caption").filter fun caption =>
          (link.fields ++ caption.fields).all (!·.required) ∧
          link.rules ++ caption.rules = [.requires "show" "text"] ∧
          (r.build "Link" []).map (fun _ => ()) =
            .error (.refused "Link" "target" (.invalid (.notUri "nowhere"))) ∧
          (r.build "Caption" []).map (fun _ => ()) =
            .error (.missingDependency "Caption" "show" "text")).isSome = true := by
    decide +kernel
  simp only [Option.isSome_iff_exists, Option.bind_eq_some_iff, Option.filter_eq_some_iff,
    toOption_eq_some, decide_eq_true_eq, List.all_eq_true, Bool.not_eq_true', map_eq_error] at run
  obtain ⟨caption, r, hr, link, hlink, hcaption, optional, rules, hl, hc⟩ := run
  exact ⟨r, link, caption, hr, hlink, hcaption, optional, by simp [rules], hl, hc⟩

end SceneDoc
