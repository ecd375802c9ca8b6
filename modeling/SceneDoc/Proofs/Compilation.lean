import SceneDoc.Proofs.Definitions
import SceneDoc.Schema.Registry

namespace SceneDoc

variable {d : Definition} {definitions : List Definition} {e : SchemaError}

def Attribute.Nests (a : Attribute) (cls : String) : Prop :=
  ∃ bare, a.HasType bare ∧ a.kindOf bare = .nested cls

namespace Catalogue

def Defines (definitions : List Definition) (cls : String) : Prop :=
  ∃ d ∈ definitions, d.name = cls

structure Separate (definitions : List Definition) : Prop where
  names : (definitions.map (·.name)).Nodup
  each : ∀ d ∈ definitions, d.WellFormed

/-- Definitions that compile together: all classes that attributes hold objects of are defined. -/
structure WellFormed (definitions : List Definition) : Prop extends Separate definitions where
  nested : ∀ d ∈ definitions, ∀ a ∈ d.everyAttribute, ∀ cls, a.1.Nests cls → Defines definitions cls

/-- The first fault of definitions: of each in order, where a name that stood before comes ahead of
the definition's own faults, and then the first attribute of a class that is not defined. -/
inductive Reports (definitions : List Definition) : SchemaError → Prop
  | repeated {before after : List Definition} {d : Definition}
      (split : definitions = before ++ d :: after) (earlier : Separate before)
      (mem : d.name ∈ before.map (·.name)) : Reports definitions (.duplicateClass d.name)
  | refused {before after : List Definition} {d : Definition} {e : SchemaError}
      (split : definitions = before ++ d :: after) (earlier : Separate before)
      (fresh : d.name ∉ before.map (·.name)) (fault : d.Reports e) : Reports definitions e
  | unknownType {before after : List Definition} {d : Definition}
      {front back : List (Attribute × Option Capability)} {a : Attribute × Option Capability}
      {cls : String} (separate : Separate definitions)
      (split : definitions = before ++ d :: after)
      (earlier : ∀ c ∈ before, ∀ b ∈ c.everyAttribute, ∀ cls, b.1.Nests cls → Defines definitions cls)
      (attributes : d.everyAttribute = front ++ a :: back)
      (ahead : ∀ b ∈ front, ∀ cls, b.1.Nests cls → Defines definitions cls)
      (nests : a.1.Nests cls) (absent : ¬ Defines definitions cls) :
      Reports definitions (.unknownType d.name a.1.name cls)

end Catalogue

namespace Registry

variable {classes : List ValueClass}

theorem compileClasses_eq (seen : List String) :
    compileClasses seen definitions =
      convertAll (·.name) (fun d => .duplicateClass d.name) compileClass seen definitions := by
  induction definitions generalizing seen with
  | nil => rfl
  | cons d rest ih => simp only [compileClasses, convertAll, ih]

theorem compileClasses_eq_ok :
    compileClasses [] definitions = .ok classes ↔
      Catalogue.Separate definitions ∧ List.Forall₂ Definition.Becomes definitions classes := by
  rw [compileClasses_eq, convertAll_eq_ok]
  simp only [Definition.compileClass_eq_ok, List.forall₂_and_left]
  constructor
  · intro h
    obtain ⟨keys, each, hclasses⟩ := h
    exact ⟨⟨keys.1, each⟩, hclasses⟩
  · intro h
    obtain ⟨⟨names, each⟩, hclasses⟩ := h
    exact ⟨⟨names, by simp⟩, each, hclasses⟩

theorem compileClasses_eq_error :
    compileClasses [] definitions = .error e ↔
      ∃ before d after, definitions = before ++ d :: after ∧ Catalogue.Separate before ∧
        (d.name ∈ before.map (·.name) ∧ e = .duplicateClass d.name ∨
          d.name ∉ before.map (·.name) ∧ d.Reports e) := by
  rw [compileClasses_eq, convertAll_eq_error]
  simp only [Definition.compileClass_eq_ok, List.append_nil]
  constructor
  · intro h
    obtain ⟨before, d, after, hsplit, keys, hbefore, hstops⟩ := h
    refine ⟨before, d, after, hsplit, ⟨keys.1, fun c hc => ?_⟩, ?_⟩
    · obtain ⟨_, each, _⟩ := hbefore c hc
      exact each
    · cases hstops with
      | twice mem => exact .inl ⟨mem, rfl⟩
      | fails fresh error => exact .inr ⟨fresh, Definition.compileClass_eq_error.mp error⟩
  · intro h
    obtain ⟨before, d, after, hsplit, separate, hfault⟩ := h
    refine ⟨before, d, after, hsplit, ⟨separate.names, by simp⟩, fun c hc => ?_, ?_⟩
    · obtain ⟨cls, hbecomes⟩ := (separate.each c hc).exists_becomes
      exact ⟨cls, separate.each c hc, hbecomes⟩
    · rcases hfault with ⟨mem, rfl⟩ | ⟨fresh, reports⟩
      · exact .twice mem
      · exact .fails fresh (Definition.compileClass_eq_error.mpr reports)

/-- A field holds objects of the class that its attribute does. -/
theorem nestedClass?_eq_some {a : Attribute × Option Capability} {f : Field} {cls : String}
    (h : Field.Of a f) : nestedClass? f = some cls ↔ a.1.Nests cls := by
  obtain ⟨bare, htype, rfl⟩ := h
  have hkind : nestedClass? (a.1.field bare a.2) = some cls ↔ a.1.kindOf bare = .nested cls := by
    unfold nestedClass? Attribute.field
    cases a.1.kindOf bare <;> simp
  rw [hkind]
  constructor
  · exact fun hnested => ⟨bare, htype, hnested⟩
  · intro hnests
    obtain ⟨other, hother, hnested⟩ := hnests
    rwa [htype.unique hother]

section UnknownTypes

variable {known : List String} {c : ValueClass}

/-- What `unknownType?` looks for in a class is a field whose class is not known. -/
theorem unknownType?_eq (h : d.Becomes c) :
    unknownType? known c = c.fields.findSome? fun f =>
      (nestedClass? f).bind fun cls =>
        if cls ∈ known then none else some (.unknownType d.name f.name cls) := by
  unfold unknownType?
  congr 1
  funext f
  rw [h.name]
  cases nestedClass? f with
  | none => rfl
  | some cls => simp

theorem unknownClass_eq_none {a : Attribute × Option Capability} {f : Field} (h : Field.Of a f) :
    ((nestedClass? f).bind fun cls =>
        if cls ∈ known then none else some (SchemaError.unknownType d.name f.name cls)) = none ↔
      ∀ cls, a.1.Nests cls → cls ∈ known := by
  simp only [Option.bind_eq_none_iff, nestedClass?_eq_some h]
  refine forall₂_congr fun cls _ => ?_
  simp

theorem unknownClass_eq_some {a : Attribute × Option Capability} {f : Field} (h : Field.Of a f) :
    ((nestedClass? f).bind fun cls =>
        if cls ∈ known then none else some (SchemaError.unknownType d.name f.name cls)) = some e ↔
      ∃ cls, a.1.Nests cls ∧ cls ∉ known ∧ e = .unknownType d.name a.1.name cls := by
  have hname : f.name = a.1.name := by
    obtain ⟨bare, _, rfl⟩ := h
    rfl
  simp only [Option.bind_eq_some_iff, nestedClass?_eq_some h, Option.ite_none_left_eq_some,
    Option.some.injEq, hname, @eq_comm _ e]

theorem unknownType?_eq_none (h : d.Becomes c) :
    unknownType? known c = none ↔ ∀ a ∈ d.everyAttribute, ∀ cls, a.1.Nests cls → cls ∈ known := by
  rw [unknownType?_eq h]
  exact findSome?_eq_none_of_forall₂ h.fields fun a f => unknownClass_eq_none

theorem unknownType?_eq_some (h : d.Becomes c) :
    unknownType? known c = some e ↔
      ∃ front a back, d.everyAttribute = front ++ a :: back ∧
        (∀ b ∈ front, ∀ cls, b.1.Nests cls → cls ∈ known) ∧
        ∃ cls, a.1.Nests cls ∧ cls ∉ known ∧ e = .unknownType d.name a.1.name cls := by
  rw [unknownType?_eq h]
  exact findSome?_eq_some_of_forall₂ h.fields (fun a f => unknownClass_eq_none)
    fun a f h _ => unknownClass_eq_some h

end UnknownTypes

/-- Classes have the names of their definitions. -/
theorem mem_names_iff (h : List.Forall₂ Definition.Becomes definitions classes) {cls : String} :
    cls ∈ classes.map (·.name) ↔ Catalogue.Defines definitions cls := by
  rw [map_eq_of_forall₂ h fun d c becomes => becomes.name]
  exact List.mem_map

/-- Definitions compile if they are well formed, each to the class that it becomes. -/
theorem compile_eq_ok {r : Registry} :
    compile definitions = .ok r ↔
      Catalogue.WellFormed definitions ∧ List.Forall₂ Definition.Becomes definitions r.classes := by
  unfold compile
  rw [bind_eq_ok]
  constructor
  · intro h
    obtain ⟨classes, hclasses, h⟩ := h
    obtain ⟨separate, becomes⟩ := compileClasses_eq_ok.mp hclasses
    split at h
    · cases h
    · rename_i hnone
      cases h
      refine ⟨⟨separate, ?_⟩, becomes⟩
      rw [findSome?_eq_none_of_forall₂ becomes fun d c => unknownType?_eq_none] at hnone
      simpa only [mem_names_iff becomes] using hnone
  · intro h
    obtain ⟨⟨separate, nested⟩, becomes⟩ := h
    refine ⟨r.classes, compileClasses_eq_ok.mpr ⟨separate, becomes⟩, ?_⟩
    have hnone : r.classes.findSome? (unknownType? (r.classes.map (·.name))) = none := by
      rw [findSome?_eq_none_of_forall₂ becomes fun d c => unknownType?_eq_none]
      simpa only [mem_names_iff becomes] using nested
    rw [hnone]
    rfl

/-- Definitions are refused with their first fault. -/
theorem compile_eq_error : compile definitions = .error e ↔ Catalogue.Reports definitions e := by
  unfold compile
  rw [bind_eq_error, compileClasses_eq_error]
  constructor
  · intro h
    rcases h with ⟨before, d, after, split, earlier, hfault⟩ | ⟨classes, hclasses, h⟩
    · rcases hfault with ⟨mem, rfl⟩ | ⟨fresh, fault⟩
      · exact .repeated split earlier mem
      · exact .refused split earlier fresh fault
    · obtain ⟨separate, becomes⟩ := compileClasses_eq_ok.mp hclasses
      split at h
      · rename_i first hsome
        cases h
        rw [findSome?_eq_some_of_forall₂ becomes (fun d c => unknownType?_eq_none)
          fun d c becomes _ => unknownType?_eq_some becomes] at hsome
        simp only [mem_names_iff becomes] at hsome
        obtain ⟨before, d, after, split, earlier, front, a, back, attributes, ahead, cls, nests,
          absent, rfl⟩ := hsome
        exact .unknownType separate split earlier attributes ahead nests absent
      · cases h
  · intro h
    cases h with
    | repeated split earlier mem => exact .inl ⟨_, _, _, split, earlier, .inl ⟨mem, rfl⟩⟩
    | refused split earlier fresh fault => exact .inl ⟨_, _, _, split, earlier, .inr ⟨fresh, fault⟩⟩
    | @unknownType before after d front back a cls separate split earlier attributes ahead nests
        absent =>
      obtain ⟨classes, becomes⟩ :=
        exists_forall₂_iff.mpr fun d hd => (separate.each d hd).exists_becomes
      refine .inr ⟨classes, compileClasses_eq_ok.mpr ⟨separate, becomes⟩, ?_⟩
      have hsome : classes.findSome? (unknownType? (classes.map (·.name))) =
          some (.unknownType d.name a.1.name cls) := by
        rw [findSome?_eq_some_of_forall₂ becomes (fun d c => unknownType?_eq_none)
          fun d c becomes _ => unknownType?_eq_some becomes]
        simp only [mem_names_iff becomes]
        exact ⟨_, _, _, split, earlier, _, _, _, attributes, ahead, _, nests, absent, rfl⟩
      rw [hsome]

end Registry

/-- Fields have the names of the attributes, in order. -/
theorem Definition.Becomes.field_names {c : ValueClass} (h : d.Becomes c) :
    c.fields.map (·.name) = d.everyAttribute.map (·.1.name) := by
  refine map_eq_of_forall₂ h.fields fun a f hof => ?_
  obtain ⟨bare, _, rfl⟩ := hof
  rfl

def ValueClass.UniqueFields (c : ValueClass) : Prop := (c.fields.map (·.name)).Nodup

theorem Registry.compile_uniqueFields {r : Registry} (h : compile definitions = .ok r) :
    ∀ c ∈ r.classes, c.UniqueFields := by
  intro c hc
  obtain ⟨wellFormed, becomes⟩ := compile_eq_ok.mp h
  obtain ⟨d, hd, hc⟩ := exists_of_mem_forall₂ becomes hc
  unfold ValueClass.UniqueFields
  rw [hc.field_names]
  exact (wellFormed.each d hd).attributes.names

/-- There are as many fields as the definitions have attributes. -/
theorem Catalogue.fields_length {classes : List ValueClass}
    (h : List.Forall₂ Definition.Becomes definitions classes) :
    (classes.flatMap (·.fields)).length = attributeCount definitions := by
  rw [List.length_flatMap, map_eq_of_forall₂ h fun d c becomes => becomes.fields.length_eq.symm]
  simp [attributeCount, ← Definition.inherited_eq, Definition.inherited, List.length_flatMap,
    Nat.add_comm]

namespace Registry

/-- Definitions compile exactly if they are well formed. Each then becomes a class that is found by
its name, whose fields are found by theirs, and there is a field for every attribute. Definitions
that do not compile are refused with their first fault. -/
theorem compile_iff_wellFormed (definitions : List Definition) :
    ((∃ r, compile definitions = .ok r) ↔ Catalogue.WellFormed definitions) ∧
    (∀ r, compile definitions = .ok r →
      List.Forall₂ Definition.Becomes definitions r.classes ∧
      (∀ name c, r.class? name = some c ↔ c ∈ r.classes ∧ c.name = name) ∧
      (∀ c ∈ r.classes, ∀ i f, c.fields[i]? = some f →
        c.position? f.name = some i ∧ c.field? f.name = some f) ∧
      (r.classes.flatMap (·.fields)).length = Catalogue.attributeCount definitions) ∧
    (∀ e, compile definitions = .error e ↔ Catalogue.Reports definitions e) := by
  refine ⟨?_, fun r h => ?_, fun e => compile_eq_error⟩
  · constructor
    · intro h
      obtain ⟨r, h⟩ := h
      exact (compile_eq_ok.mp h).1
    · intro wellFormed
      obtain ⟨classes, becomes⟩ :=
        exists_forall₂_iff.mpr fun d hd => (wellFormed.each d hd).exists_becomes
      exact ⟨⟨classes⟩, compile_eq_ok.mpr ⟨wellFormed, becomes⟩⟩
  · obtain ⟨wellFormed, becomes⟩ := compile_eq_ok.mp h
    have names : (r.classes.map (·.name)).Nodup := by
      rw [map_eq_of_forall₂ becomes fun d c becomes => becomes.name]
      exact wellFormed.names
    refine ⟨becomes, fun name c => find?_key_eq_some_iff names, fun c hc i f hf => ?_,
      Catalogue.fields_length becomes⟩
    have once := compile_uniqueFields h c hc
    exact ⟨findIdx?_key_eq_some once hf,
      (find?_key_eq_some_iff once).mpr ⟨List.mem_of_getElem? hf, rfl⟩⟩

end Registry
end SceneDoc
