import Mathlib.Data.List.Flatten
import Mathlib.Data.List.Induction
import Mathlib.Data.List.Nodup
import SceneDoc.Proofs.Canonical
import SceneDoc.Proofs.Mirror

namespace SceneDoc

open TypeText

def Field.enumeration? (f : Field) : Option Enumeration :=
  match f.kind with
  | .enumerated e => some e
  | _ => none

theorem Field.enumeration?_eq_some {f : Field} {e : Enumeration} :
    f.enumeration? = some e ↔ f.kind = .enumerated e := by
  unfold enumeration?
  cases f.kind <;> simp

namespace Enumeration

variable {listed used : List Enumeration} {e : Enumeration}

def list (listed : List Enumeration) (e : Enumeration) : List Enumeration :=
  if listed.any (·.name == e.name) then listed else listed ++ [e]

/-- Each name that is used is listed once, in the order of first use and with what it was first used
for. -/
structure Listed (listed used : List Enumeration) : Prop where
  once : (listed.map (·.name)).Nodup
  order : listed.map (·.name) = (used.map (·.name)).eraseDups
  first : ∀ e ∈ listed, used.find? (·.name == e.name) = some e

theorem Listed.mem_iff (h : Listed listed used) {name : String} :
    name ∈ listed.map (·.name) ↔ name ∈ used.map (·.name) := by
  rw [h.order, List.mem_eraseDups]

theorem eraseDups_append_singleton (names : List String) (name : String) :
    (names ++ [name]).eraseDups =
      if name ∈ names then names.eraseDups else names.eraseDups ++ [name] := by
  rw [List.eraseDups_append, List.removeAll, List.filter_singleton]
  have hsingle : [name].eraseDups = [name] := rfl
  by_cases hname : name ∈ names <;> simp [hname, hsingle]

theorem Listed.list (h : Listed listed used) (e : Enumeration) :
    Listed (list listed e) (used ++ [e]) := by
  have hfirst : ∀ d ∈ listed, (used ++ [e]).find? (·.name == d.name) = some d := by
    intro d hd
    rw [List.find?_append, h.first d hd, Option.some_or]
  unfold Enumeration.list
  split
  · rename_i hany
    obtain ⟨d, hd, hname⟩ := List.any_eq_true.mp hany
    have hused : e.name ∈ used.map (·.name) :=
      h.mem_iff.mp (List.mem_map.mpr ⟨d, hd, beq_iff_eq.mp hname⟩)
    refine ⟨h.once, ?_, hfirst⟩
    rw [List.map_append, List.map_singleton, eraseDups_append_singleton, if_pos hused, h.order]
  · rename_i hany
    have hlisted : e.name ∉ listed.map (·.name) := by
      intro hmem
      obtain ⟨d, hd, hname⟩ := List.mem_map.mp hmem
      exact hany (List.any_eq_true.mpr ⟨d, hd, beq_iff_eq.mpr hname⟩)
    have hused : e.name ∉ used.map (·.name) := mt h.mem_iff.mpr hlisted
    refine ⟨?_, ?_, ?_⟩
    · rw [List.map_append, List.map_singleton]
      exact List.nodup_append.mpr ⟨h.once, List.nodup_singleton _, by
        rintro name hname _ hlast rfl
        exact hlisted (List.mem_singleton.mp hlast ▸ hname)⟩
    · rw [List.map_append, List.map_append, List.map_singleton, eraseDups_append_singleton,
        if_neg hused, h.order]
    · refine List.forall_mem_append.mpr ⟨hfirst, ?_⟩
      have hnone : used.find? (·.name == e.name) = none := by
        rw [List.find?_eq_none]
        intro d hd hname
        exact hused (List.mem_map.mpr ⟨d, hd, beq_iff_eq.mp hname⟩)
      intro d hd
      rw [List.mem_singleton.mp hd, List.find?_append, hnone]
      simp

theorem listed_foldl (used : List Enumeration) : Listed (used.foldl list []) used := by
  induction used using List.reverseRecOn with
  | nil => exact ⟨List.nodup_nil, rfl, by simp⟩
  | append_singleton used e ih =>
    rw [List.foldl_append]
    exact ih.list e

/-- Enumerations of one name become one type. -/
theorem typeName_congr {d : Enumeration} (h : d.name = e.name) : d.typeName = e.typeName := by
  unfold typeName
  rw [h]

end Enumeration

namespace Registry

variable {r : Registry} {definitions : List Definition}

def used (r : Registry) : List Enumeration :=
  (r.classes.flatMap (·.fields)).filterMap Field.enumeration?

theorem enumerations_listed (r : Registry) : Enumeration.Listed r.enumerations r.used := by
  have henumerations : r.enumerations = r.used.foldl Enumeration.list [] := by
    rw [enumerations, used, List.foldl_filterMap]
    congr 1
    funext seen f
    unfold Field.enumeration? Enumeration.list
    cases f.kind <;> rfl
  rw [henumerations]
  exact Enumeration.listed_foldl r.used

theorem mem_used {c : ValueClass} {f : Field} {e : Enumeration} (hc : c ∈ r.classes)
    (hf : f ∈ c.fields) (kind : f.kind = .enumerated e) : e ∈ r.used :=
  List.mem_filterMap.mpr
    ⟨f, List.mem_flatMap.mpr ⟨c, hc, hf⟩, Field.enumeration?_eq_some.mpr kind⟩

end Registry

namespace Mirror

variable {listed : List Enumeration} {e : Enumeration}

theorem enumName?_typeLine (e : Enumeration) :
    enumName? (Variants.typeLine e).toList = some e.typeName := by
  have hline : (Variants.typeLine e).toList =
      "pub enum ".toList ++ e.typeName.toList ++ " \x7b".toList := by
    simp [Variants.typeLine]
  rw [enumName?, hline, between_append]
  simp

/-- The type of an enumeration is declared in its lines, whatever its members are called. -/
theorem typeName_mem (name : IsName e.typeName.toList) :
    e.typeName ∈ ((Variants.enumerationEntries e).flatMap fun entry => lines entry.text).filterMap
      enumName? := by
  have hline : IsLine (Variants.typeLine e).toList := by
    have htext : (Variants.typeLine e).toList =
        "pub enum ".toList ++ e.typeName.toList ++ [' '] ++ ['\x7b'] := by
      simp [Variants.typeLine]
    have hunbroken : '\n' ∉ e.typeName.toList := name.not_mem (by decide)
    rw [htext]
    exact isLine_append (by simp [hunbroken]) (by decide)
  refine List.mem_filterMap.mpr ⟨_, ?_, enumName?_typeLine e⟩
  refine List.mem_flatMap.mpr ⟨.line (Variants.typeLine e), ?_, ?_⟩
  · simp [Variants.enumerationEntries]
  · rw [SourceEntry.text, lines_single hline]
    exact List.mem_singleton_self _

theorem close_enumerations (listed : List Enumeration) :
    SourceFile.Close (Variants.file listed).entries := by
  apply SourceFile.Close.flatMap
  · exact SourceFile.close_line [] _ (by decide)
  · exact fun e =>
      (SourceFile.close_line [.line "        \x7d", .line "    \x7d"] "\x7d" (by decide)).prepend _

/-- The enumerations that are listed are declared in their order. -/
theorem typeNames_sublist (names : ∀ e ∈ listed, IsName e.typeName.toList) :
    (listed.map (·.typeName)).Sublist (enums (Variants.file listed).text) := by
  have henums : enums (Variants.file listed).text =
      (lines (Variants.file listed).opening ++ (Variants.file listed).entries.flatMap fun entry =>
        lines entry.text).filterMap enumName? := by
    rw [← SourceFile.lines_text (close_enumerations listed), List.filterMap_append, enums]
    exact (List.append_nil _).symm
  rw [henums, Variants.file, List.flatMap_append, List.filterMap_append, List.filterMap_append,
    List.flatMap_assoc]
  refine List.Sublist.trans ?_ (List.sublist_append_right _ _)
  refine List.Sublist.trans ?_ (List.sublist_append_right _ _)
  rw [List.map_eq_flatMap, List.filterMap_flatMap]
  exact List.Sublist.flatMap_right _ fun e he => List.singleton_sublist.mpr (typeName_mem (names e he))

end Mirror

/-- A field whose type is declared along with it: a class among `records`, an enumeration among
`enums`, and otherwise a primitive type. -/
structure Field.Declared (f : Field) (records enums : List String) : Prop where
  nested : ∀ cls, f.kind = .nested cls → f.baseType = cls ∧ cls ∈ records
  enumerated : ∀ e, f.kind = .enumerated e → f.baseType = e.typeName ∧ e.typeName ∈ enums
  other : (∀ cls, f.kind ≠ .nested cls) → (∀ e, f.kind ≠ .enumerated e) →
    f.baseType ∈ Field.primitiveTypes

namespace Registry

variable {r : Registry} {definitions : List Definition} {c : ValueClass} {f : Field}

/-- Compiled fields hold objects of compiled classes. -/
theorem nested_mem (compiled : compile definitions = .ok r) (hc : c ∈ r.classes) (hf : f ∈ c.fields)
    {cls : String} (kind : f.kind = .nested cls) : cls ∈ r.classes.map (·.name) := by
  obtain ⟨wellFormed, becomes⟩ := compile_eq_ok.mp compiled
  obtain ⟨d, hd, hbecomes⟩ := exists_of_mem_forall₂ becomes hc
  obtain ⟨a, ha, hof⟩ := exists_of_mem_forall₂ hbecomes.fields hf
  have hnested : nestedClass? f = some cls := by rw [nestedClass?, kind]
  exact (mem_names_iff becomes).mpr
    (wellFormed.nested d hd a ha cls ((nestedClass?_eq_some hof).mp hnested))

theorem field_of (compiled : compile definitions = .ok r) (hc : c ∈ r.classes) (hf : f ∈ c.fields) :
    ∃ a, Field.Of a f := by
  obtain ⟨_, becomes⟩ := compile_eq_ok.mp compiled
  obtain ⟨d, _, hbecomes⟩ := exists_of_mem_forall₂ becomes hc
  obtain ⟨a, _, hof⟩ := exists_of_mem_forall₂ hbecomes.fields hf
  exact ⟨a, hof⟩

/-- Every enumeration that a compiled field uses is listed by a type name of one line. -/
theorem typeName_isName (compiled : compile definitions = .ok r) :
    ∀ e ∈ r.enumerations, IsName e.typeName.toList := by
  intro e he
  have hused : e ∈ r.used := List.mem_of_find?_eq_some ((enumerations_listed r).first e he)
  obtain ⟨f, hf, hsome⟩ := List.mem_filterMap.mp hused
  obtain ⟨c, hc, hf⟩ := List.mem_flatMap.mp hf
  obtain ⟨a, hof⟩ := field_of compiled hc hf
  exact Enumeration.typeName_isName (hof.kind_isName.1 e (Field.enumeration?_eq_some.mp hsome))

theorem typeName_listed (hc : c ∈ r.classes) (hf : f ∈ c.fields) {e : Enumeration}
    (kind : f.kind = .enumerated e) : e.typeName ∈ r.enumerations.map (·.typeName) := by
  have hname : e.name ∈ r.enumerations.map (·.name) :=
    (enumerations_listed r).mem_iff.mpr (List.mem_map.mpr ⟨e, mem_used hc hf kind, rfl⟩)
  obtain ⟨d, hd, hsame⟩ := List.mem_map.mp hname
  exact List.mem_map.mpr ⟨d, hd, Enumeration.typeName_congr hsame⟩

/-- The files generated for a registry whose classes and fields have plain names: the records read
back from them are those of the classes, with a member for each field under its key, and all types
that they name are primitive or declared there. Enumerations are listed once each, in the order of
first use. -/
theorem generation_mirrors (compiled : compile definitions = .ok r)
    (classes : ∀ c ∈ r.classes, isBareName c.name.toList = true)
    (fields : ∀ c ∈ r.classes, ∀ f ∈ c.fields, isBareName f.name.toList = true) :
    ∃ values enums, r.generation.files.lookup "values.rs" = some values ∧
      r.generation.files.lookup "enums.rs" = some enums ∧
      List.Forall₂ Mirror.Record.Mirrors (Mirror.records values) r.classes ∧
      r.generation.fields = ((Mirror.records values).flatMap (·.members)).length ∧
      (∀ c ∈ r.classes, ∀ f ∈ c.fields,
        f.Declared ((Mirror.records values).map (·.name)) (Mirror.enums enums)) ∧
      Enumeration.Listed r.enumerations r.used ∧
      (r.enumerations.map (·.typeName)).Sublist (Mirror.enums enums) := by
  have declarable : ∀ c ∈ r.classes, ∀ f ∈ c.fields, f.Declarable := by
    intro c hc f hf
    obtain ⟨a, hof⟩ := field_of compiled hc hf
    exact hof.declarable (isName_of_isBareName (fields c hc f hf))
  have names : ∀ c ∈ r.classes, '\n' ∉ c.name.toList := fun c hc =>
    (isName_of_isBareName (classes c hc)).not_mem (by decide)
  have hrecords := Mirror.records_file names declarable
  have hmirrors : List.Forall₂ Mirror.Record.Mirrors (r.classes.map Mirror.recordOf) r.classes := by
    rw [List.forall₂_map_left_iff, List.forall₂_same]
    exact fun c hc => Mirror.recordOf_mirrors (declarable c hc)
  have henums := Mirror.typeNames_sublist (typeName_isName compiled)
  refine ⟨_, _, rfl, rfl, ?_, ?_, fun c hc f hf => ⟨fun cls kind => ?_, fun e kind => ?_, ?_⟩,
    enumerations_listed r, henums⟩
  · rw [hrecords]
    exact hmirrors
  · rw [hrecords]
    simp [generation, Records.fieldCount, List.length_flatMap, Mirror.recordOf, Function.comp_def]
  · refine ⟨Field.baseType_nested kind, ?_⟩
    rw [hrecords, List.map_map]
    exact nested_mem compiled hc hf kind
  · exact ⟨Field.baseType_enumerated kind, henums.subset (typeName_listed hc hf kind)⟩
  · exact Field.baseType_primitive

/-- The preamble's class nests the clock's, whose steps are an enumeration, and renames a field. -/
theorem generation_mirrors_opening :
    ∃ r values enums, compile Catalogue.opening = .ok r ∧
      (∀ c ∈ r.classes, isBareName c.name.toList = true) ∧
      (∀ c ∈ r.classes, ∀ f ∈ c.fields, isBareName f.name.toList = true) ∧
      r.generation.files.lookup "values.rs" = some values ∧
      r.generation.files.lookup "enums.rs" = some enums ∧
      List.Forall₂ Mirror.Record.Mirrors (Mirror.records values) r.classes ∧
      (∀ c ∈ r.classes, ∀ f ∈ c.fields,
        f.Declared ((Mirror.records values).map (·.name)) (Mirror.enums enums)) ∧
      r.enumerations.map (·.typeName) = ["ClockRange", "ClockStep"] ∧
      "ClockStep" ∈ Mirror.enums enums := by
  have run : ((compile Catalogue.opening).toOption.filter fun r =>
      r.classes.all (fun c => isBareName c.name.toList &&
        c.fields.all fun f => isBareName f.name.toList) &&
          r.enumerations.map (·.typeName) == ["ClockRange", "ClockStep"]).isSome = true := by
    decide +kernel
  simp only [Option.isSome_iff_exists, Option.filter_eq_some_iff, toOption_eq_some,
    Bool.and_eq_true, List.all_eq_true, beq_iff_eq] at run
  obtain ⟨r, compiled, plain, listed⟩ := run
  have classes : ∀ c ∈ r.classes, isBareName c.name.toList = true := fun c hc => (plain c hc).1
  have fields : ∀ c ∈ r.classes, ∀ f ∈ c.fields, isBareName f.name.toList = true :=
    fun c hc => (plain c hc).2
  obtain ⟨values, enums, hvalues, henums, mirrors, _, declared, _, sublist⟩ :=
    generation_mirrors compiled classes fields
  refine ⟨r, values, enums, compiled, classes, fields, hvalues, henums, mirrors, declared, listed,
    sublist.subset ?_⟩
  rw [listed]
  decide

end Registry

end SceneDoc
