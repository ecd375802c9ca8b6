import SceneDoc.Bindings.Declaration
import SceneDoc.Proofs.Annotations
import SceneDoc.Proofs.Definitions

namespace SceneDoc

open TypeText

variable {c : Char} {cs : List Char}

namespace Identifier

theorem lowered_isName (h : isNameChar c = true) : IsName (lowered c) := by
  intro d hd
  rw [lowered_ascii (isNameChar_lt h)] at hd
  rw [List.mem_singleton.mp hd]
  exact isNameChar_toLower h

theorem wordsFrom_isName (h : IsName cs) (joins : Bool) : IsName (wordsFrom joins cs) := by
  induction cs generalizing joins with
  | nil => exact h
  | cons c rest ih =>
    obtain ⟨hc, hrest⟩ := List.forall_mem_cons.mp h
    have hlater := ih hrest (endsWord c)
    unfold wordsFrom
    split
    · have hjoin : IsName (if joins then ['_'] else []) := by
        cases joins with
        | false => exact List.forall_mem_nil _
        | true => exact List.forall_mem_singleton.mpr (by decide)
      exact List.forall_mem_append.mpr
        ⟨List.forall_mem_append.mpr ⟨hjoin, lowered_isName hc⟩, hlater⟩
    · exact List.forall_mem_cons.mpr ⟨hc, hlater⟩

/-- An identifier has the characters of names and those of the mark of raw ones. -/
theorem ofName_not_mem {name : String} (h : IsName name.toList) (other : isNameChar c = false)
    (unmarked : c ∉ rawMark.toList) : c ∉ (ofName name).toList := by
  have hword : c ∉ wordsFrom false name.toList := (wordsFrom_isName h false).not_mem other
  unfold ofName
  dsimp only
  split
  · rw [String.toList_append, String.toList_ofList]
    exact fun hc => (List.mem_append.mp hc).elim unmarked hword
  · rwa [String.toList_ofList]

end Identifier

theorem Enumeration.typeName_isName {e : Enumeration} (h : IsName e.name.toList) :
    IsName e.typeName.toList := by
  unfold typeName dropEnd?
  split
  · rename_i singular hsingular
    split at hsingular
    · cases hsingular
      rw [String.toList_ofList]
      exact h.sublist (List.take_sublist _ _)
    · cases hsingular
  · exact h

/-- A field of objects is of the class that its type names. -/
theorem Attribute.eq_of_kindOf_eq_nested {a : Attribute} {bare cls : String}
    (h : a.kindOf bare = .nested cls) : bare = cls := by
  cases enumerated : a.enumeration with
  | some e =>
    rw [kindOf_eq_enumerated.mpr enumerated] at h
    cases h
  | none =>
    rw [kindOf_of_none enumerated] at h
    unfold FieldKind.ofTypeName at h
    split at h <;> try cases h
    split at h
    · cases h
    · split at h <;> cases h
      rfl

namespace Field

/-- What a declaration asks of its field: a name of letters, digits and underscores, and a type that
stays on one line and is no optional type of its own. -/
structure Declarable (f : Field) : Prop where
  name : IsName f.name.toList
  unbroken : '\n' ∉ f.baseType.toList
  unwrapped : "Option<".toList.isPrefixOf f.baseType.toList = false

def primitiveTypes : List String :=
  ["bool", "f64", "String", "Vec<f64>", "[f64; 2]", "[f64; 3]", "[f64; 4]",
    "serde_json::Map<String, serde_json::Value>"]

/-- Fields of anything but objects and members of enumerations have such a type. -/
theorem baseType_primitive {f : Field} (unnested : ∀ cls, f.kind ≠ .nested cls)
    (unlisted : ∀ e, f.kind ≠ .enumerated e) : f.baseType ∈ primitiveTypes := by
  have hbase := baseType.eq_1 f
  cases hkind : f.kind with
  | enumerated e => exact absurd hkind (unlisted e)
  | nested cls => exact absurd hkind (unnested cls)
  | tuple shape =>
    rw [hbase, hkind]
    cases f.interpolatable <;> cases shape <;> decide
  | _ =>
    rw [hbase, hkind]
    simp [primitiveTypes]

theorem baseType_nested {f : Field} {cls : String} (kind : f.kind = .nested cls) :
    f.baseType = cls := by
  rw [baseType, kind]

theorem baseType_enumerated {f : Field} {e : Enumeration} (kind : f.kind = .enumerated e) :
    f.baseType = e.typeName := by
  rw [baseType, kind]

/-- The enumerations and classes that compiled fields name have the names of their annotations. -/
theorem Of.kind_isName {a : Attribute × Option Capability} {f : Field} (h : Field.Of a f) :
    (∀ e, f.kind = .enumerated e → IsName e.name.toList) ∧
      ∀ cls, f.kind = .nested cls → IsName cls.toList := by
  obtain ⟨bare, hasType, rfl⟩ := h
  obtain ⟨written, _, hbare⟩ := hasType.declared
  have hname := bareType?_isName hbare
  constructor
  · intro e he
    rwa [← hasType.enumeration e (Attribute.kindOf_eq_enumerated.mp he)]
  · intro cls hcls
    rwa [← Attribute.eq_of_kindOf_eq_nested hcls]

theorem Of.declarable {a : Attribute × Option Capability} {f : Field} (h : Field.Of a f)
    (name : IsName f.name.toList) : f.Declarable := by
  obtain ⟨enumerated, nested⟩ := h.kind_isName
  have hplain {cs : List Char} (hcs : IsName cs) :
      '\n' ∉ cs ∧ "Option<".toList.isPrefixOf cs = false := by
    refine ⟨hcs.not_mem (by decide), ?_⟩
    rw [← Bool.not_eq_true, List.isPrefixOf_iff_prefix]
    exact fun starts => hcs.not_mem (c := '<') (by decide) (starts.subset (by decide))
  have hprimitive : ∀ type ∈ primitiveTypes,
      '\n' ∉ type.toList ∧ "Option<".toList.isPrefixOf type.toList = false := by
    decide
  suffices hbase : '\n' ∉ f.baseType.toList ∧
      "Option<".toList.isPrefixOf f.baseType.toList = false from
    ⟨name, hbase.1, hbase.2⟩
  by_cases hnested : ∃ cls, f.kind = .nested cls
  · obtain ⟨cls, kind⟩ := hnested
    exact baseType_nested kind ▸ hplain (nested cls kind)
  by_cases hlisted : ∃ e, f.kind = .enumerated e
  · obtain ⟨e, kind⟩ := hlisted
    exact baseType_enumerated kind ▸ hplain (Enumeration.typeName_isName (enumerated e kind))
  · exact hprimitive _ (baseType_primitive (not_exists.mp hnested) (not_exists.mp hlisted))

end Field

end SceneDoc
