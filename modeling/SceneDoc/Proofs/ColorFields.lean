import SceneDoc.Object.Colors
import SceneDoc.Proofs.SingleFields
import SceneDoc.Proofs.Shapes

namespace SceneDoc

variable {r : Registry} {c : ValueClass} {d : Definition} {f : Field} {shape : TupleShape}
  {a : Attribute} {origin : Option Capability} {bare : String}

/-- The field of an attribute that declares its type. -/
theorem Definition.Becomes.field_mem (becomes : d.Becomes c) (mem : (a, origin) ∈ d.everyAttribute)
    (declared : a.Declares bare) : a.field bare origin ∈ c.fields := by
  obtain ⟨f, hf, other, type, rfl⟩ := exists_of_mem_forall₂ becomes.fields.flip mem
  rwa [declared.unique type.declared]

theorem Definition.Becomes.exists_attribute (becomes : d.Becomes c) (mem : f ∈ c.fields) :
    ∃ a ∈ d.everyAttribute, f.required = a.1.required ∧ f.default = a.1.default := by
  obtain ⟨a, ha, bare, _, rfl⟩ := exists_of_mem_forall₂ becomes.fields mem
  exact ⟨a, ha, rfl, rfl⟩

namespace Registry

theorem exists_standard : ∃ r, standard = .ok r := by
  have compiles : standard.isOk = true := by decide +kernel
  exact isOk_iff.mp compiles

/-- Every definition of the catalogue becomes a class that is found by its name. -/
theorem standard_class? (compiled : standard = .ok r) (mem : d ∈ Catalogue.definitions) :
    ∃ c, r.class? d.name = some c ∧ d.Becomes c := by
  obtain ⟨wellFormed, becomes⟩ := compile_eq_ok.mp compiled
  obtain ⟨c, hc, hbecomes⟩ := exists_of_mem_forall₂ becomes.flip mem
  have names : (r.classes.map (·.name)).Nodup := by
    rw [map_eq_of_forall₂ becomes fun d c becomes => becomes.name]
    exact wellFormed.names
  exact ⟨c, (find?_key_eq_some_iff names).mpr ⟨hc, hbecomes.name⟩, hbecomes⟩

end Registry

/-- A field that holds tuples of this shape, which may vary, under the key of the shape. -/
structure ValueClass.Holds (c : ValueClass) (shape : TupleShape) (f : Field) : Prop where
  single : c.Single f
  name : f.name = shape.key
  kind : f.kind = .tuple shape
  varies : f.interpolatable = true

namespace Catalogue

/-- Any of the alternatives of a color may stand alone. -/
theorem color_single (becomes : color.Becomes c) (once : c.UniqueFields) (mem : f ∈ c.fields)
    (alternative : f.name ∈ ["rgba", "rgbaf", "reference"]) : c.Single f where
  mem := mem
  once := once
  optional := by
    have plain : ∀ a ∈ color.everyAttribute, a.1.required = false := by decide
    intro g hg
    obtain ⟨a, ha, required, _⟩ := becomes.exists_attribute hg
    rw [required, plain a ha]
  absent := by
    have plain : ∀ a ∈ color.everyAttribute, a.1.default = none := by decide
    intro g hg
    obtain ⟨a, ha, _, default⟩ := becomes.exists_attribute hg
    rw [default, plain a ha]
  rules := by
    have met : ∀ name ∈ ["rgba", "rgbaf", "reference"], ∀ rule ∈ color.everyRule,
        rule.Met (· == name) := by
      decide
    rw [becomes.rules]
    exact met f.name alternative
  kept := by
    intro h
    rw [h] at alternative
    revert alternative
    decide

/-- A color has a field for channels of either shape. -/
theorem color_holds (becomes : color.Becomes c) (once : c.UniqueFields) :
    (∃ f, c.Holds .rgba f) ∧ ∃ f, c.Holds .rgbaf f := by
  constructor
  · have declared : color.attributes[0].Declares "Rgba" := ⟨_, rfl, by decide +kernel⟩
    have mem := becomes.field_mem (Definition.own_mem (List.getElem_mem _)) declared
    exact ⟨_, color_single becomes once mem (by decide), rfl, by decide, rfl⟩
  · have declared : color.attributes[1].Declares "Rgbaf" := ⟨_, rfl, by decide +kernel⟩
    have mem := becomes.field_mem (Definition.own_mem (List.getElem_mem _)) declared
    exact ⟨_, color_single becomes once mem (by decide), rfl, by decide, rfl⟩

end Catalogue

structure Registry.HasColors (r : Registry) (c : ValueClass) : Prop where
  found : r.class? "Color" = some c
  name : c.name = "Color"
  whole : ∃ f, c.Holds .rgba f
  fractional : ∃ f, c.Holds .rgbaf f

theorem Registry.exists_standard_colors : ∃ r c, standard = .ok r ∧ r.HasColors c := by
  obtain ⟨r, compiled⟩ := exists_standard
  have defined : Catalogue.color ∈ Catalogue.definitions := by simp [Catalogue.definitions]
  obtain ⟨c, found, becomes⟩ := standard_class? compiled defined
  have once := compile_uniqueFields compiled c (class?_eq_some found).1
  obtain ⟨whole, fractional⟩ := Catalogue.color_holds becomes once
  exact ⟨r, c, compiled, found, becomes.name, whole, fractional⟩

namespace ValueClass.Holds

variable {xs : List Double} {samples : List Sample}

/-- A list as long as a tuple is one value. -/
theorem convert_numbers (holds : c.Holds shape f) (length : xs.length = shape.arity) :
    f.convert (.numbers xs) = (shape.check xs).map fun _ => .samples (.constant xs) := by
  simp [Field.convert, Field.convertPlain, holds.kind, Field.tuple, length, holds.varies]

theorem convert_samples (holds : c.Holds shape f) :
    f.convert (.samples samples) = f.tagged samples shape.check := by
  simp [Field.convert, Field.convertPlain, holds.kind]

end ValueClass.Holds

namespace Registry.HasColors

variable {input : Input}

theorem build_eq (colors : r.HasColors c) (holds : c.Holds shape f) :
    r.build "Color" [(shape.key, input)] = c.build [(f.name, input)] := by
  rw [build, colors.found, holds.name]

end Registry.HasColors
end SceneDoc
