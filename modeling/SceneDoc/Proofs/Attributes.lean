import SceneDoc.Proofs.Outcomes
import SceneDoc.Schema.Compile

namespace SceneDoc

inductive DefaultValue.Fits : FieldKind → DefaultValue → Prop
  | bool (b : Bool) : Fits .boolean (.bool b)
  | number (x : Double) : Fits .number (.number x)
  | text (s : String) : Fits .text (.text s)
  | uri (s : String) : Fits .uri (.text s)
  | reference (s : String) : Fits .reference (.text s)
  | instant (s : String) : Fits .instant (.text s)
  | interval (s : String) : Fits .interval (.text s)
  | member {e : Enumeration} {variant s : String} (mem : (variant, s) ∈ e.members) :
      Fits (.enumerated e) (.text s)

theorem Enumeration.mem_rawValues {e : Enumeration} {s : String} :
    s ∈ e.rawValues ↔ ∃ variant, (variant, s) ∈ e.members := by
  simp [rawValues]

namespace DefaultValue

variable {kind : FieldKind} {d : DefaultValue}

theorem fault?_eq_none : d.fault? kind = none ↔ d.Fits kind := by
  constructor
  · intro h
    cases d with
    | bool b => cases kind <;> first | exact .bool b | simp [fault?] at h
    | number x => cases kind <;> first | exact .number x | simp [fault?] at h
    | text s =>
      cases kind with
      | text => exact .text s
      | uri => exact .uri s
      | reference => exact .reference s
      | instant => exact .instant s
      | interval => exact .interval s
      | enumerated e =>
        have mem : s ∈ e.rawValues := by simpa [fault?, Enumeration.contains] using h
        obtain ⟨variant, mem⟩ := Enumeration.mem_rawValues.mp mem
        exact .member mem
      | _ => simp [fault?] at h
  · intro h
    cases h with
    | member mem => simp [fault?, Enumeration.contains, Enumeration.mem_rawValues.mpr ⟨_, mem⟩]
    | _ => rfl

/-- A text that is no member of the enumeration it should be of. -/
theorem fault?_eq_notMember {raw name : String} :
    d.fault? kind = some (.notMember raw name) ↔
      ∃ e, kind = .enumerated e ∧ d = .text raw ∧ raw ∉ e.rawValues ∧ name = e.name := by
  constructor
  · intro h
    cases d with
    | bool b => cases kind <;> simp [fault?] at h
    | number x => cases kind <;> simp [fault?] at h
    | text s =>
      cases kind with
      | enumerated e =>
        simp only [fault?, Option.ite_none_left_eq_some, Option.some.injEq,
          DefaultFault.notMember.injEq] at h
        obtain ⟨hmem, rfl, rfl⟩ := h
        exact ⟨e, rfl, rfl, by simpa [Enumeration.contains] using hmem, rfl⟩
      | _ => simp [fault?] at h
  · intro h
    obtain ⟨e, rfl, rfl, hmem, rfl⟩ := h
    simp [fault?, Enumeration.contains, hmem]

/-- Any other default that does not fit has the wrong type. -/
theorem fault?_eq_wrongType :
    d.fault? kind = some .wrongType ↔
      ¬ d.Fits kind ∧ ∀ e raw, kind = .enumerated e → d ≠ .text raw := by
  rw [← fault?_eq_none]
  constructor
  · intro h
    refine ⟨by simp [h], fun e raw hkind hd => ?_⟩
    subst hkind hd
    simp only [fault?, Option.ite_none_left_eq_some, Option.some.injEq, reduceCtorEq,
      and_false] at h
  · intro h
    obtain ⟨hfault, hother⟩ := h
    obtain ⟨fault, hfault⟩ := Option.ne_none_iff_exists'.mp hfault
    cases fault with
    | wrongType => exact hfault
    | notMember raw name =>
      obtain ⟨e, hkind, hd, _⟩ := fault?_eq_notMember.mp hfault
      exact absurd hd (hother e raw hkind)

end DefaultValue

/-- The types of values that are no objects of a class. -/
def FieldKind.ofTypes : List (String × FieldKind) := [
  ("bool", .boolean),
  ("f64", .number),
  ("f32", .number),
  ("i32", .number),
  ("i64", .number),
  ("u32", .number),
  ("number", .number),
  ("String", .text),
  ("str", .text),
  ("Uri", .uri),
  ("Reference", .reference),
  ("Instant", .instant),
  ("TimeInterval", .interval),
  ("Properties", .properties),
  ("Cartesian2", .tuple .cartesian2),
  ("Cartesian3", .tuple .cartesian3),
  ("CartographicDegrees", .tuple .cartographicDegrees),
  ("CartographicRadians", .tuple .cartographicRadians),
  ("UnitQuaternion", .tuple .unitQuaternion),
  ("Rgba", .tuple .rgba),
  ("Rgbaf", .tuple .rgbaf),
  ("NearFarScalar", .tuple .nearFarScalar),
  ("DistanceDisplayCondition", .tuple .distanceDisplayCondition),
  ("BoundingRectangle", .tuple .boundingRectangle),
  ("Wsen", .tuple .wsen),
  ("WsenDegrees", .tuple .wsenDegrees),
  ("CartesianList", .list .cartesian),
  ("CartographicDegreesList", .list .cartographicDegrees),
  ("CartographicRadiansList", .list .cartographicRadians)]

theorem FieldKind.ofTypeName_of_unknown {bare : String} (unknown : bare ∉ ofTypes.map (·.1)) :
    ofTypeName bare = .nested bare := by
  have tuple : TupleShape.ofName? bare = none := by
    have known : ∀ shape ∈ TupleShape.all, shape.name ∈ ofTypes.map (·.1) := by decide
    refine List.find?_eq_none.mpr fun shape hshape same => unknown ?_
    rw [← eq_of_beq same]
    exact known shape hshape
  have list : ListShape.ofName? bare = none := by
    have known : ∀ shape ∈ ListShape.all, shape.name ∈ ofTypes.map (·.1) := by decide
    refine List.find?_eq_none.mpr fun shape hshape same => unknown ?_
    rw [← eq_of_beq same]
    exact known shape hshape
  unfold ofTypeName
  split
  case h_15 => rw [tuple, list]
  all_goals exact absurd (by decide) unknown

/-- Types are looked up in the table, and other names are classes. -/
theorem FieldKind.ofTypeName_eq (bare : String) :
    ofTypeName bare = (ofTypes.lookup bare).getD (.nested bare) := by
  by_cases known : bare ∈ ofTypes.map (·.1)
  · have each : ∀ name ∈ ofTypes.map (·.1),
        ofTypeName name = (ofTypes.lookup name).getD (.nested name) := by
      decide
    exact each bare known
  · have absent : ofTypes.lookup bare = none := by
      refine List.lookup_eq_none_iff.mpr fun e he => bne_iff_ne.mpr fun same => known ?_
      rw [same]
      exact List.mem_map_of_mem he
    rw [ofTypeName_of_unknown known, absent]
    rfl

namespace Attribute

variable {a : Attribute} {cls bare : String} {origin : Option Capability}

/-- The kind that an attribute's field has: its enumeration, if there is one, and otherwise what the
bare type name stands for, which is a class if it is no type of its own. -/
def kindOf (a : Attribute) (bare : String) : FieldKind :=
  match a.enumeration with
  | some e => .enumerated e
  | none => (FieldKind.ofTypes.lookup bare).getD (.nested bare)

def field (a : Attribute) (bare : String) (origin : Option Capability) : Field :=
  ⟨a.name, bare, a.kindOf bare, a.default, a.required, a.interpolatable, a.description, origin⟩

/-- Nothing has both a default and to be given. -/
def Optional (a : Attribute) : Prop := a.required = true → a.default = none

def Declares (a : Attribute) (bare : String) : Prop :=
  ∃ written, a.declaredType = some written ∧ TypeText.bareType? written = some bare

/-- An attribute whose type has this bare name, which its enumeration has too, and whose default fits
the type. -/
structure HasType (a : Attribute) (bare : String) : Prop where
  declared : a.Declares bare
  optional : a.Optional
  enumeration : ∀ e, a.enumeration = some e → bare = e.name
  default : ∀ d, a.default = some d → d.Fits (a.kindOf bare)

/-- The first fault of an attribute: a type that is missing, a default of what has to be given, a
type that cannot be read or is not the enumeration's, or a default that does not fit. -/
inductive Reports (cls : String) (a : Attribute) : SchemaError → Prop
  | untyped (absent : a.declaredType = none) : Reports cls a (.missingType cls a.name)
  | required {written : String} (declared : a.declaredType = some written)
      (required : ¬ a.Optional) : Reports cls a (.requiredWithDefault cls a.name)
  | malformed {written : String} (declared : a.declaredType = some written) (optional : a.Optional)
      (malformed : TypeText.bareType? written = none) :
      Reports cls a (.malformedType cls a.name written)
  | enumeration {bare : String} {e : Enumeration} (declared : a.Declares bare)
      (optional : a.Optional) (given : a.enumeration = some e) (other : bare ≠ e.name) :
      Reports cls a (.enumerationMismatch cls a.name bare e.name)
  | mistyped {bare : String} {d : DefaultValue} (declared : a.Declares bare)
      (optional : a.Optional) (named : ∀ e, a.enumeration = some e → bare = e.name)
      (given : a.default = some d) (unfit : ¬ d.Fits (a.kindOf bare))
      (other : ∀ e raw, a.enumeration = some e → d ≠ .text raw) :
      Reports cls a (.defaultTypeMismatch cls a.name bare)
  | notMember {e : Enumeration} {raw : String} (declared : a.Declares e.name)
      (optional : a.Optional) (given : a.enumeration = some e) (default : a.default = some (.text raw))
      (other : ∀ variant, (variant, raw) ∉ e.members) :
      Reports cls a (.invalidEnumDefault cls a.name raw e.name)

theorem kindOf_of_none (h : a.enumeration = none) : a.kindOf bare = .ofTypeName bare := by
  rw [kindOf, h, FieldKind.ofTypeName_eq]

theorem kind?_eq_some {kind : FieldKind} :
    a.kind? bare = some kind ↔
      (∀ e, a.enumeration = some e → bare = e.name) ∧ kind = a.kindOf bare := by
  unfold kind? kindOf
  rw [FieldKind.ofTypeName_eq]
  cases a.enumeration with
  | none => simp [eq_comm]
  | some e => simp [eq_comm]

theorem kind?_eq_none : a.kind? bare = none ↔ ∃ e, a.enumeration = some e ∧ bare ≠ e.name := by
  unfold kind?
  cases a.enumeration with
  | none => simp
  | some e => simp

theorem ofTypeName_ne_enumerated (e : Enumeration) : FieldKind.ofTypeName bare ≠ .enumerated e := by
  unfold FieldKind.ofTypeName
  split <;> try simp
  split
  · simp
  · split <;> simp

theorem kindOf_eq_enumerated {e : Enumeration} :
    a.kindOf bare = .enumerated e ↔ a.enumeration = some e := by
  cases h : a.enumeration with
  | none => simp [kindOf_of_none h, ofTypeName_ne_enumerated]
  | some e => simp [kindOf, h]

theorem optional_iff : (a.required && a.default.isSome) = false ↔ a.Optional := by
  unfold Optional
  cases a.required <;> simp

/-- An annotation has one bare name. -/
theorem Declares.unique {other : String} (h : a.Declares bare) (h' : a.Declares other) :
    bare = other := by
  obtain ⟨written, hdeclared, htype⟩ := h
  obtain ⟨written', hdeclared', htype'⟩ := h'
  rw [hdeclared] at hdeclared'
  cases hdeclared'
  exact Option.some.inj (htype.symm.trans htype')

theorem HasType.unique {other : String} (h : a.HasType bare) (h' : a.HasType other) :
    bare = other :=
  h.declared.unique h'.declared

/-- If the type can be read and is the enumeration's, all that is left is to check the default. -/
theorem compileField_named (declared : a.Declares bare) (optional : a.Optional)
    (named : ∀ e, a.enumeration = some e → bare = e.name) :
    compileField cls a origin =
      match a.default.bind (·.fault? (a.kindOf bare)) with
      | some .wrongType => .error (.defaultTypeMismatch cls a.name bare)
      | some (.notMember raw name) => .error (.invalidEnumDefault cls a.name raw name)
      | none => .ok (a.field bare origin) := by
  obtain ⟨written, hwritten, hbare⟩ := declared
  have hkind : a.kind? bare = some (a.kindOf bare) := kind?_eq_some.mpr ⟨named, rfl⟩
  rcases hfault : a.default.bind (·.fault? (a.kindOf bare)) with _ | fault
  · simp [compileField, hwritten, optional_iff.mpr optional, hbare, hkind, hfault, field]
  · cases fault <;>
      simp [compileField, hwritten, optional_iff.mpr optional, hbare, hkind, hfault]

/-- An attribute without faults becomes its field. -/
theorem compileField_eq_ok {f : Field} :
    compileField cls a origin = .ok f ↔ ∃ bare, a.HasType bare ∧ f = a.field bare origin := by
  constructor
  · intro h
    unfold compileField at h
    split at h
    · cases h
    · rename_i written hwritten
      split at h
      · cases h
      · rename_i hoptional
        split at h
        · cases h
        · rename_i bare hbare
          split at h
          · cases h
          · rename_i kind hkind
            obtain ⟨hnamed, rfl⟩ := kind?_eq_some.mp hkind
            split at h
            · cases h
            · cases h
            · rename_i hdefault
              cases h
              refine ⟨bare, ⟨⟨written, hwritten, hbare⟩, ?_, hnamed, fun d hd => ?_⟩, rfl⟩
              · exact optional_iff.mp (by simpa using hoptional)
              · rw [hd] at hdefault
                exact DefaultValue.fault?_eq_none.mp hdefault
  · intro h
    obtain ⟨bare, ⟨declared, optional, named, default⟩, rfl⟩ := h
    have hfault : a.default.bind (·.fault? (a.kindOf bare)) = none := by
      cases hd : a.default with
      | none => rfl
      | some d => exact DefaultValue.fault?_eq_none.mpr (default d hd)
    rw [compileField_named declared optional named, hfault]

/-- An attribute with faults is refused with the first of them. -/
theorem compileField_eq_error {e : SchemaError} :
    compileField cls a origin = .error e ↔ a.Reports cls e := by
  constructor
  · intro h
    unfold compileField at h
    split at h
    · rename_i hwritten
      cases h
      exact .untyped hwritten
    · rename_i written hwritten
      split at h
      · rename_i hrequired
        cases h
        exact .required hwritten fun ho => by simp [optional_iff.mpr ho] at hrequired
      · rename_i hoptional
        have optional : a.Optional := optional_iff.mp (by simpa using hoptional)
        split at h
        · rename_i hbare
          cases h
          exact .malformed hwritten optional hbare
        · rename_i bare hbare
          have declared : a.Declares bare := ⟨written, hwritten, hbare⟩
          split at h
          · rename_i hkind
            obtain ⟨e, given, other⟩ := kind?_eq_none.mp hkind
            cases h
            rw [given]
            exact .enumeration declared optional given other
          · rename_i kind hkind
            obtain ⟨named, rfl⟩ := kind?_eq_some.mp hkind
            split at h
            · rename_i hfault
              obtain ⟨d, given, hfault⟩ := Option.bind_eq_some_iff.mp hfault
              obtain ⟨unfit, other⟩ := DefaultValue.fault?_eq_wrongType.mp hfault
              cases h
              exact .mistyped declared optional named given unfit fun e raw he =>
                other e raw (kindOf_eq_enumerated.mpr he)
            · rename_i raw name hfault
              obtain ⟨d, given, hfault⟩ := Option.bind_eq_some_iff.mp hfault
              obtain ⟨e, hkind, rfl, mem, rfl⟩ := DefaultValue.fault?_eq_notMember.mp hfault
              have he := kindOf_eq_enumerated.mp hkind
              cases h
              refine .notMember (named e he ▸ declared) optional he given fun variant member => mem ?_
              exact Enumeration.mem_rawValues.mpr ⟨variant, member⟩
            · cases h
  · intro h
    cases h with
    | untyped absent => simp [compileField, absent]
    | required declared required =>
      have hr : (a.required && a.default.isSome) = true := by
        rw [← Bool.not_eq_false]
        exact mt optional_iff.mp required
      simp only [compileField, declared, hr, ↓reduceIte]
    | malformed declared optional malformed =>
      simp [compileField, declared, optional_iff.mpr optional, malformed]
    | enumeration declared optional given other =>
      obtain ⟨written, hwritten, hbare⟩ := declared
      simp [compileField, hwritten, optional_iff.mpr optional, hbare,
        kind?_eq_none.mpr ⟨_, given, other⟩, given]
    | @mistyped bare d declared optional named given unfit other =>
      have hfault : d.fault? (a.kindOf bare) = some .wrongType :=
        DefaultValue.fault?_eq_wrongType.mpr
          ⟨unfit, fun e raw he => other e raw (kindOf_eq_enumerated.mp he)⟩
      rw [compileField_named declared optional named, given, Option.bind_some, hfault]
    | @notMember e raw declared optional given default other =>
      have mem : raw ∉ e.rawValues := by
        rw [Enumeration.mem_rawValues]
        exact not_exists.mpr other
      have hfault : (DefaultValue.text raw).fault? (a.kindOf e.name) = some (.notMember raw e.name) :=
        DefaultValue.fault?_eq_notMember.mpr ⟨e, kindOf_eq_enumerated.mpr given, rfl, mem, rfl⟩
      have named : ∀ other, a.enumeration = some other → e.name = other.name := fun other he => by
        rw [Option.some.inj (given.symm.trans he)]
      rw [compileField_named declared optional named, default, Option.bind_some, hfault]

end Attribute
end SceneDoc
