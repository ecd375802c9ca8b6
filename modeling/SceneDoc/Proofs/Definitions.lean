import SceneDoc.Proofs.Attributes
import SceneDoc.Proofs.Sequences

namespace SceneDoc

variable {d : Definition} {e : SchemaError}

/-- Attributes that compile: each has a type, and no name occurs twice. -/
structure Attribute.AllTyped (attributes : List (Attribute × Option Capability)) : Prop where
  names : (attributes.map (·.1.name)).Nodup
  types : ∀ a ∈ attributes, ∃ bare, a.1.HasType bare

def Field.Of (a : Attribute × Option Capability) (f : Field) : Prop :=
  ∃ bare, a.1.HasType bare ∧ f = a.1.field bare a.2

inductive Rule.Excludes : Rule → List String → Prop
  | exclusive (group : List String) : Excludes (.exclusive group) group
  | oneOf (group : List String) : Excludes (.oneOf group) group

inductive Rule.Mentions : Rule → List String → Prop
  | group {rule : Rule} {names : List String} (excludes : rule.Excludes names) : Mentions rule names
  | requires (field sibling : String) : Mentions (.requires field sibling) [field, sibling]

namespace Rule

variable {rule : Rule} {names : List String} {P : String → Prop}

theorem Excludes.eq (h : rule.Excludes names) : rule.group = names := by
  cases h <;> rfl

/-- A rule that requires something excludes nothing. -/
theorem excludes_of_mem {name : String} (h : name ∈ rule.group) : rule.Excludes rule.group := by
  cases rule with
  | exclusive group => exact .exclusive group
  | oneOf group => exact .oneOf group
  | requires field sibling => cases h

theorem mentions_iff : rule.Mentions names ↔ rule.fields = names := by
  constructor
  · intro h
    cases h with
    | group excludes => cases excludes <;> rfl
    | requires field sibling => rfl
  · rintro rfl
    cases rule with
    | exclusive group => exact .group (.exclusive group)
    | oneOf group => exact .group (.oneOf group)
    | requires field sibling => exact .requires field sibling

theorem forall_mentions :
    (∀ names, rule.Mentions names → ∀ name ∈ names, P name) ↔ ∀ name ∈ rule.fields, P name := by
  simp only [mentions_iff, forall_eq']

theorem forall_excludes :
    (∀ group, rule.Excludes group → ∀ name ∈ group, P name) ↔ ∀ name ∈ rule.group, P name := by
  constructor
  · intro h name mem
    exact h rule.group (excludes_of_mem mem) name mem
  · intro h group excludes
    rw [← excludes.eq]
    exact h

end Rule

namespace Definition

/-- The attributes of capabilities, one after the other, and then a class's own. -/
def attributesFrom : List Capability → List Attribute → List (Attribute × Option Capability)
  | [], own => own.map fun a => (a, none)
  | base :: bases, own =>
    base.attributes.map (fun a => (a, some base)) ++ attributesFrom bases own

def rulesFrom : List Capability → List Rule → List Rule
  | [], own => own
  | base :: bases, own => base.rules ++ rulesFrom bases own

def everyAttribute (d : Definition) : List (Attribute × Option Capability) :=
  attributesFrom d.bases d.attributes

def everyRule (d : Definition) : List Rule := rulesFrom d.bases d.rules

theorem inherited_eq (d : Definition) : d.inherited = d.everyAttribute := by
  unfold inherited everyAttribute
  induction d.bases with
  | nil => rfl
  | cons base bases ih => rw [List.flatMap_cons, List.append_assoc, ih, attributesFrom]

theorem own_mem {a : Attribute} (h : a ∈ d.attributes) : (a, none) ∈ d.everyAttribute := by
  rw [← inherited_eq]
  exact List.mem_append_right _ (List.mem_map_of_mem h)

theorem allRules_eq (d : Definition) : d.allRules = d.everyRule := by
  unfold allRules everyRule
  induction d.bases with
  | nil => rfl
  | cons base bases ih => rw [List.flatMap_cons, List.append_assoc, ih, rulesFrom]

def Has (d : Definition) (name : String) : Prop := ∃ a ∈ d.everyAttribute, a.1.name = name

def Defaults (d : Definition) (name : String) : Prop :=
  ∃ a ∈ d.everyAttribute, a.1.name = name ∧ a.1.default ≠ none

/-- A rule about attributes of the definition, where no attribute of a group has a default. -/
structure Allows (d : Definition) (rule : Rule) : Prop where
  names : ∀ names, rule.Mentions names → ∀ name ∈ names, d.Has name
  group : ∀ group, rule.Excludes group → ∀ name ∈ group, ¬ d.Defaults name

structure WellFormed (d : Definition) : Prop where
  attributes : Attribute.AllTyped d.everyAttribute
  rules : ∀ rule ∈ d.everyRule, d.Allows rule

/-- The class that a definition compiles to: a field for each attribute in order, and the rules of
the capabilities before its own. -/
structure Becomes (d : Definition) (c : ValueClass) : Prop where
  name : c.name = d.name
  description : c.description = d.description
  capabilities : c.capabilities = d.bases
  fields : List.Forall₂ Field.Of d.everyAttribute c.fields
  rules : c.rules = d.everyRule

/-- What is wrong with a rule: its first name that is no attribute's, or else the first of its group
that has a default. -/
inductive Forbids (d : Definition) (rule : Rule) : SchemaError → Prop
  | unknown {before after : List String} {name : String}
      (mentions : rule.Mentions (before ++ name :: after)) (earlier : ∀ other ∈ before, d.Has other)
      (absent : ¬ d.Has name) : d.Forbids rule (.unknownRuleField d.name name)
  | defaulted {before after : List String} {name : String}
      (known : ∀ names, rule.Mentions names → ∀ name ∈ names, d.Has name)
      (excludes : rule.Excludes (before ++ name :: after))
      (earlier : ∀ other ∈ before, ¬ d.Defaults other) (default : d.Defaults name) :
      d.Forbids rule (.defaultInExclusiveGroup d.name name)

/-- The first fault of a definition: of attributes in order, where a name that stood before comes
ahead of the attribute's own faults, and then of rules in order. -/
inductive Reports (d : Definition) : SchemaError → Prop
  | repeated {before after : List (Attribute × Option Capability)} {a : Attribute × Option Capability}
      (split : d.everyAttribute = before ++ a :: after) (earlier : Attribute.AllTyped before)
      (mem : a.1.name ∈ before.map (·.1.name)) : d.Reports (.duplicateField d.name a.1.name)
  | refused {before after : List (Attribute × Option Capability)}
      {a : Attribute × Option Capability} {e : SchemaError}
      (split : d.everyAttribute = before ++ a :: after) (earlier : Attribute.AllTyped before)
      (fresh : a.1.name ∉ before.map (·.1.name)) (fault : a.1.Reports d.name e) : d.Reports e
  | rule {before after : List Rule} {rule : Rule} {e : SchemaError}
      (attributes : Attribute.AllTyped d.everyAttribute) (split : d.everyRule = before ++ rule :: after)
      (earlier : ∀ other ∈ before, d.Allows other) (fault : d.Forbids rule e) : d.Reports e

end Definition

section Fields

variable {cls : String} {attributes : List (Attribute × Option Capability)} {fields : List Field}

theorem compileFields_eq (seen : List String) :
    compileFields cls seen attributes =
      convertAll (·.1.name) (fun a => .duplicateField cls a.1.name)
        (fun a => compileField cls a.1 a.2) seen attributes := by
  induction attributes generalizing seen with
  | nil => rfl
  | cons a rest ih => simp only [compileFields, convertAll, ih]

theorem Field.of_iff {a : Attribute × Option Capability} {f : Field} :
    compileField cls a.1 a.2 = .ok f ↔ Field.Of a f :=
  Attribute.compileField_eq_ok

theorem exists_field_iff {a : Attribute × Option Capability} :
    (∃ f, Field.Of a f) ↔ ∃ bare, a.1.HasType bare := by
  simp [Field.Of]

theorem compileFields_eq_ok :
    compileFields cls [] attributes = .ok fields ↔
      Attribute.AllTyped attributes ∧ List.Forall₂ Field.Of attributes fields := by
  rw [compileFields_eq, convertAll_eq_ok]
  simp only [Field.of_iff]
  constructor
  · intro h
    obtain ⟨keys, hfields⟩ := h
    refine ⟨⟨keys.1, fun a ha => exists_field_iff.mp ?_⟩, hfields⟩
    exact exists_forall₂_iff.mp ⟨fields, hfields⟩ a ha
  · intro h
    obtain ⟨typed, hfields⟩ := h
    exact ⟨⟨typed.names, by simp⟩, hfields⟩

theorem compileFields_eq_error :
    compileFields cls [] attributes = .error e ↔
      ∃ before a after, attributes = before ++ a :: after ∧ Attribute.AllTyped before ∧
        (a.1.name ∈ before.map (·.1.name) ∧ e = .duplicateField cls a.1.name ∨
          a.1.name ∉ before.map (·.1.name) ∧ a.1.Reports cls e) := by
  rw [compileFields_eq, convertAll_eq_error]
  simp only [Field.of_iff, exists_field_iff, List.append_nil]
  constructor
  · intro h
    obtain ⟨before, a, after, hsplit, keys, htypes, hstops⟩ := h
    refine ⟨before, a, after, hsplit, ⟨keys.1, htypes⟩, ?_⟩
    cases hstops with
    | twice mem => exact .inl ⟨mem, rfl⟩
    | fails fresh error => exact .inr ⟨fresh, Attribute.compileField_eq_error.mp error⟩
  · intro h
    obtain ⟨before, a, after, hsplit, typed, hfault⟩ := h
    refine ⟨before, a, after, hsplit, ⟨typed.names, by simp⟩, typed.types, ?_⟩
    rcases hfault with ⟨mem, rfl⟩ | ⟨fresh, reports⟩
    · exact .twice mem
    · exact .fails fresh (Attribute.compileField_eq_error.mpr reports)

/-- Fields have the names of their attributes. -/
theorem any_name_iff (h : List.Forall₂ Field.Of attributes fields) (name : String) :
    fields.any (·.name == name) = true ↔ ∃ a ∈ attributes, a.1.name = name := by
  induction h with
  | nil => simp
  | cons head tail ih =>
    obtain ⟨bare, _, rfl⟩ := head
    simp only [List.any_cons, Bool.or_eq_true, ih, List.mem_cons, exists_eq_or_imp, Attribute.field,
      beq_iff_eq]

/-- Fields have the defaults of their attributes. -/
theorem any_default_iff (h : List.Forall₂ Field.Of attributes fields) (name : String) :
    (fields.any fun f => f.name == name && f.default.isSome) = true ↔
      ∃ a ∈ attributes, a.1.name = name ∧ a.1.default ≠ none := by
  induction h with
  | nil => simp
  | cons head tail ih =>
    obtain ⟨bare, _, rfl⟩ := head
    simp only [List.any_cons, Bool.or_eq_true, ih, List.mem_cons, exists_eq_or_imp, Attribute.field,
      Bool.and_eq_true, beq_iff_eq, Option.isSome_iff_ne_none]

end Fields

namespace Definition

section Rules

variable {fields : List Field} {rule : Rule}

/-- The first name of a rule that no field has. -/
theorem find?_unknown (h : List.Forall₂ Field.Of d.everyAttribute fields) {names : List String}
    {name : String} :
    (names.find? fun name => !fields.any (·.name == name)) = some name ↔
      ∃ before after, names = before ++ name :: after ∧ (∀ other ∈ before, d.Has other) ∧
        ¬ d.Has name := by
  have hhas (name : String) : (!fields.any (·.name == name)) = false ↔ d.Has name := by
    rw [Bool.not_eq_false', any_name_iff h]
    rfl
  rw [List.find?_eq_some_iff_append, ← Bool.not_eq_false, hhas]
  simp only [Bool.not_eq_true', hhas]
  constructor
  · intro h
    obtain ⟨absent, before, after, split, earlier⟩ := h
    exact ⟨before, after, split, earlier, absent⟩
  · intro h
    obtain ⟨before, after, split, earlier, absent⟩ := h
    exact ⟨absent, before, after, split, earlier⟩

/-- The first name of a group whose field has a default. -/
theorem find?_defaulted (h : List.Forall₂ Field.Of d.everyAttribute fields) {names : List String}
    {name : String} :
    (names.find? fun name => fields.any fun f => f.name == name && f.default.isSome) = some name ↔
      ∃ before after, names = before ++ name :: after ∧ (∀ other ∈ before, ¬ d.Defaults other) ∧
        d.Defaults name := by
  have hdefaults (name : String) :
      (fields.any fun f => f.name == name && f.default.isSome) = true ↔ d.Defaults name := by
    rw [any_default_iff h]
    rfl
  rw [List.find?_eq_some_iff_append, hdefaults]
  simp only [Bool.not_eq_true', ← Bool.not_eq_true, hdefaults]
  constructor
  · intro h
    obtain ⟨default, before, after, split, earlier⟩ := h
    exact ⟨before, after, split, earlier, default⟩
  · intro h
    obtain ⟨before, after, split, earlier, default⟩ := h
    exact ⟨default, before, after, split, earlier⟩

theorem find?_unknown_eq_none (h : List.Forall₂ Field.Of d.everyAttribute fields)
    {names : List String} :
    (names.find? fun name => !fields.any (·.name == name)) = none ↔ ∀ name ∈ names, d.Has name := by
  rw [List.find?_eq_none]
  refine forall₂_congr fun name _ => ?_
  rw [Bool.not_eq_true, Bool.not_eq_false', any_name_iff h]
  rfl

theorem find?_defaulted_eq_none (h : List.Forall₂ Field.Of d.everyAttribute fields)
    {names : List String} :
    (names.find? fun name => fields.any fun f => f.name == name && f.default.isSome) = none ↔
      ∀ name ∈ names, ¬ d.Defaults name := by
  rw [List.find?_eq_none]
  refine forall₂_congr fun name _ => ?_
  rw [any_default_iff h]
  rfl

theorem checkRule_eq_ok (h : List.Forall₂ Field.Of d.everyAttribute fields) :
    checkRule d.name fields rule = .ok () ↔ d.Allows rule := by
  constructor
  · intro hok
    unfold checkRule at hok
    split at hok
    · cases hok
    · rename_i hknown
      split at hok
      · cases hok
      · rename_i hplain
        exact ⟨Rule.forall_mentions.mpr ((find?_unknown_eq_none h).mp hknown),
          Rule.forall_excludes.mpr ((find?_defaulted_eq_none h).mp hplain)⟩
  · intro allows
    obtain ⟨names, group⟩ := allows
    rw [Rule.forall_mentions] at names
    rw [Rule.forall_excludes] at group
    simp only [checkRule, (find?_unknown_eq_none h).mpr names, (find?_defaulted_eq_none h).mpr group]

theorem checkRule_eq_error (h : List.Forall₂ Field.Of d.everyAttribute fields) :
    checkRule d.name fields rule = .error e ↔ d.Forbids rule e := by
  constructor
  · intro herror
    unfold checkRule at herror
    split at herror
    · rename_i name hname
      obtain ⟨before, after, split, earlier, absent⟩ := (find?_unknown h).mp hname
      cases herror
      exact .unknown (Rule.mentions_iff.mpr split) earlier absent
    · rename_i hknown
      split at herror
      · rename_i name hname
        obtain ⟨before, after, split, earlier, default⟩ := (find?_defaulted h).mp hname
        cases herror
        have known := Rule.forall_mentions.mpr ((find?_unknown_eq_none h).mp hknown)
        have excludes : rule.Excludes rule.group :=
          Rule.excludes_of_mem (split ▸ List.mem_append_cons_self)
        rw [split] at excludes
        exact .defaulted known excludes earlier default
      · cases herror
  · intro forbids
    cases forbids with
    | unknown mentions earlier absent =>
      have split := Rule.mentions_iff.mp mentions
      simp only [checkRule, (find?_unknown h).mpr ⟨_, _, split, earlier, absent⟩]
    | defaulted known excludes earlier default =>
      rw [Rule.forall_mentions] at known
      have split := excludes.eq
      simp only [checkRule, (find?_unknown_eq_none h).mpr known,
        (find?_defaulted h).mpr ⟨_, _, split, earlier, default⟩]

theorem checkRules_eq_ok (h : List.Forall₂ Field.Of d.everyAttribute fields) {rules : List Rule} :
    checkRules d.name fields rules = .ok () ↔ ∀ rule ∈ rules, d.Allows rule := by
  induction rules with
  | nil => simp [checkRules]
  | cons rule rest ih => rw [checkRules, check_bind_eq_ok, checkRule_eq_ok h, ih, List.forall_mem_cons]

/-- The first rule that is not allowed is the one reported. -/
theorem checkRules_eq_error (h : List.Forall₂ Field.Of d.everyAttribute fields) {rules : List Rule} :
    checkRules d.name fields rules = .error e ↔
      ∃ before rule after, rules = before ++ rule :: after ∧ (∀ other ∈ before, d.Allows other) ∧
        d.Forbids rule e := by
  induction rules with
  | nil => simp [checkRules]
  | cons rule rest ih =>
    rw [checkRules, check_bind_eq_error, checkRule_eq_ok h, checkRule_eq_error h, ih]
    constructor
    · intro hfault
      rcases hfault with forbids | ⟨allows, before, other, after, rfl, earlier, forbids⟩
      · exact ⟨[], rule, rest, rfl, by simp, forbids⟩
      · exact ⟨rule :: before, other, after, rfl, List.forall_mem_cons.mpr ⟨allows, earlier⟩,
          forbids⟩
    · intro hfault
      obtain ⟨before, other, after, split, earlier, forbids⟩ := hfault
      cases before with
      | nil =>
        obtain ⟨rfl, rfl⟩ := List.cons.inj split
        exact .inl forbids
      | cons first before =>
        obtain ⟨rfl, rfl⟩ := List.cons.inj split
        obtain ⟨allows, earlier⟩ := List.forall_mem_cons.mp earlier
        exact .inr ⟨allows, before, other, after, rfl, earlier, forbids⟩

end Rules

/-- A definition compiles if it is well formed, to the class that it becomes. -/
theorem compileClass_eq_ok {c : ValueClass} :
    compileClass d = .ok c ↔ d.WellFormed ∧ d.Becomes c := by
  unfold compileClass
  rw [inherited_eq, allRules_eq, bind_eq_ok]
  constructor
  · intro h
    obtain ⟨fields, hfields, h⟩ := h
    obtain ⟨attributes, hof⟩ := compileFields_eq_ok.mp hfields
    obtain ⟨hrules, h⟩ := check_bind_eq_ok.mp h
    cases h
    exact ⟨⟨attributes, (checkRules_eq_ok hof).mp hrules⟩, ⟨rfl, rfl, rfl, hof, rfl⟩⟩
  · intro h
    obtain ⟨⟨attributes, rules⟩, ⟨hname, hdescription, hcapabilities, hof, hrules⟩⟩ := h
    refine ⟨c.fields, compileFields_eq_ok.mpr ⟨attributes, hof⟩, ?_⟩
    rw [check_bind_eq_ok]
    refine ⟨(checkRules_eq_ok hof).mpr rules, ?_⟩
    rw [← hname, ← hdescription, ← hcapabilities, ← hrules]
    rfl

/-- A definition is refused with its first fault. -/
theorem compileClass_eq_error : compileClass d = .error e ↔ d.Reports e := by
  unfold compileClass
  rw [inherited_eq, allRules_eq, bind_eq_error, compileFields_eq_error]
  constructor
  · intro h
    rcases h with ⟨before, a, after, split, earlier, hfault⟩ | ⟨fields, hfields, h⟩
    · rcases hfault with ⟨mem, rfl⟩ | ⟨fresh, fault⟩
      · exact .repeated split earlier mem
      · exact .refused split earlier fresh fault
    · obtain ⟨attributes, hof⟩ := compileFields_eq_ok.mp hfields
      rcases check_bind_eq_error.mp h with hrules | ⟨_, h⟩
      · obtain ⟨before, rule, after, split, earlier, fault⟩ := (checkRules_eq_error hof).mp hrules
        exact .rule attributes split earlier fault
      · cases h
  · intro h
    cases h with
    | repeated split earlier mem => exact .inl ⟨_, _, _, split, earlier, .inl ⟨mem, rfl⟩⟩
    | refused split earlier fresh fault => exact .inl ⟨_, _, _, split, earlier, .inr ⟨fresh, fault⟩⟩
    | rule attributes split earlier fault =>
      obtain ⟨fields, hof⟩ :=
        exists_forall₂_iff.mpr fun a ha => exists_field_iff.mpr (attributes.types a ha)
      refine .inr ⟨fields, compileFields_eq_ok.mpr ⟨attributes, hof⟩, ?_⟩
      rw [check_bind_eq_error]
      exact .inl ((checkRules_eq_error hof).mpr ⟨_, _, _, split, earlier, fault⟩)

/-- Well-formed definitions are those that become a class. -/
theorem WellFormed.exists_becomes (h : d.WellFormed) : ∃ c, d.Becomes c := by
  obtain ⟨fields, hof⟩ :=
    exists_forall₂_iff.mpr fun a ha => exists_field_iff.mpr (h.attributes.types a ha)
  exact ⟨⟨d.name, d.description, d.bases, fields, d.everyRule⟩, rfl, rfl, rfl, hof, rfl⟩

end Definition

end SceneDoc
