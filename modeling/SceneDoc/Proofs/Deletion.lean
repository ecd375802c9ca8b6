import SceneDoc.Proofs.Canonical
import SceneDoc.Proofs.Compilation

namespace SceneDoc

variable {c : ValueClass} {o : Object} {f : Field} {inputs : List (String × Input)}

namespace Field

/-- Only a boolean is stored as a boolean. -/
theorem convertPlain_eq_bool {input : Input} {b : Bool} (h : f.convertPlain input = .ok (.bool b)) :
    input = .bool b := by
  cases convertPlain_stores h with
  | held holds =>
    cases holds with
    | boolean kind =>
      cases input with
      | bool given =>
        simp only [convertPlain, kind] at h
        cases h
        rfl
      | _ => simp [convertPlain, kind, mismatch] at h

theorem convert_eq_bool {input : Input} {b : Bool} (h : f.convert input = .ok (.bool b)) :
    input = .bool b := by
  unfold convert at h
  split at h
  · obtain ⟨_, _, hv⟩ := map_eq_ok.mp h
    cases hv
  · obtain ⟨_, _, hv⟩ := map_eq_ok.mp h
    cases hv
  · exact convertPlain_eq_bool h

end Field

namespace ObjectOf

/-- Nothing is set but the identity and the deletion itself. -/
def Bare (o : Object) : Prop := ∀ name, o.isSet name = true → name = "id" ∨ name = "delete"

def isDeleted (o : Object) : Bool :=
  match o.get? "delete" with
  | some (.bool true) => true
  | _ => false

theorem isDeleted_iff : o.isDeleted = true ↔ o.get? "delete" = some (.bool true) := by
  unfold isDeleted
  split
  · rename_i h
    simp [h]
  · rename_i h
    simpa using h

end ObjectOf

/-- Objects of the class are deleted unless it is said that they are not. -/
def ValueClass.DeletesByDefault (c : ValueClass) : Prop :=
  ∃ f ∈ c.fields, f.name = "delete" ∧ f.default = some (.bool true)

/-- A deletion is asked for, or it is the default. -/
theorem deletes_or_default {slots : List (Option Value)}
    (hslots : List.Forall₂ (Field.HasSlot inputs) c.fields slots)
    (deleted : (ObjectOf.mk c slots).get? "delete" = some (.bool true)) :
    Deletes inputs ∨ c.DeletesByDefault := by
  obtain ⟨f, hname, he⟩ := ObjectOf.exists_entry deleted
  have hzip := ObjectOf.mem_entries.mp he
  have hslot := (List.forall₂_iff_zip.mp hslots).2 hzip
  cases hslot with
  | set takes converts =>
    have hinput := Field.convert_eq_bool converts
    cases takes with
    | given mem _ =>
      left
      rw [hinput, hname] at mem
      exact mem
    | default _ _ mem gives =>
      right
      refine ⟨f, (List.of_mem_zip hzip).1, hname, ?_⟩
      cases hinput
      cases gives
      exact mem

/-- Only the identity is set when a deletion is asked for. -/
theorem bare_of_deletes {slots : List (Option Value)}
    (hslots : List.Forall₂ (Field.HasSlot inputs) c.fields slots) (asked : Deletes inputs) :
    (ObjectOf.mk c slots).Bare := by
  intro name hset
  rw [ObjectOf.isSet_iff, mem_setNames_iff hslots] at hset
  obtain ⟨f, _, rfl, input, takes⟩ := hset
  cases takes with
  | given _ kept => exact kept asked
  | default _ kept _ _ => exact absurd asked kept

namespace ObjectOf

/-- At most two entries are the entries of an identity. -/
theorem Bare.entries (bare : o.Bare) (once : o.setNames.Nodup) {f : Field} {v : Value}
    (hname : f.name = "delete") (he : (f, v) ∈ o.entries) :
    o.entries = [(f, v)] ∨
      ∃ e : Field × Value, e.1.name = "id" ∧ (o.entries = [e, (f, v)] ∨ o.entries = [(f, v), e]) := by
  have hnames : ∀ e ∈ o.entries, e.1.name = "id" ∨ e.1.name = "delete" := by
    intro e he
    refine bare e.1.name ?_
    rw [isSet_iff, ← entries_names]
    exact List.mem_map.mpr ⟨e, he, rfl⟩
  rw [← entries_names] at once
  generalize o.entries = es at he hnames once ⊢
  match es with
  | [] => cases he
  | [d] => exact .inl (by rw [List.mem_singleton.mp he])
  | [d, e] =>
    right
    have hd := hnames d (by simp)
    have hne : d.1.name ≠ e.1.name := by simpa using once
    rcases List.mem_cons.mp he with rfl | he
    · refine ⟨e, (hnames e (by simp)).resolve_right fun hdelete => ?_, .inr rfl⟩
      exact hne (hname.trans hdelete.symm)
    · cases List.mem_singleton.mp he
      exact ⟨d, hd.resolve_right fun hdelete => hne (hdelete.trans hname.symm), .inl rfl⟩
  | d :: e :: g :: rest =>
    -- Two names do not suffice for three entries.
    have hd := hnames d (by simp)
    have he := hnames e (by simp)
    have hg := hnames g (by simp)
    simp only [List.map_cons, List.nodup_cons, List.mem_cons, not_or] at once
    grind

/-- A bare object that is deleted is written as its deletion and at most an identity. -/
theorem Bare.render (bare : o.Bare) (once : o.setNames.Nodup)
    (deleted : o.get? "delete" = some (.bool true)) :
    o.render = .object [("delete", .bool true)] ∨
      ∃ id, o.render = .object [("id", id), ("delete", .bool true)] ∨
        o.render = .object [("delete", .bool true), ("id", id)] := by
  obtain ⟨f, hname, he⟩ := exists_entry deleted
  have htrue : (Value.bool true).render = .bool true := rfl
  unfold ObjectOf.render
  rw [Value.render_object]
  rcases bare.entries once hname he with hentries | ⟨e, hid, hentries | hentries⟩
  · left
    simp [hentries, hname, htrue]
  · right
    exact ⟨e.2.render, .inl (by simp [hentries, hname, hid, htrue])⟩
  · right
    exact ⟨e.2.render, .inr (by simp [hentries, hname, hid, htrue])⟩

end ObjectOf

/-- What is set of an object that is not deleted on request is what was given or has a default. -/
theorem bare_iff_of_kept {slots : List (Option Value)} (names : c.Knows (inputs.map (·.1)))
    (kept : ¬ Deletes inputs) (hslots : List.Forall₂ (Field.HasSlot inputs) c.fields slots) :
    (ObjectOf.mk c slots).Bare ↔
      ∀ name, c.present inputs name = true → name = "id" ∨ name = "delete" := by
  unfold ObjectOf.Bare
  rw [isSet_eq_present names kept hslots]

/-- An object whose `delete` is true was deleted on request or is deleted by default. It is bare if
the deletion was asked for or nothing but an identity is present, and then written as such. -/
theorem Registry.build_bare_iff {definitions : List Definition} {r : Registry} {cls : String}
    (compiled : compile definitions = .ok r) (built : r.build cls inputs = .ok o)
    (deleted : o.get? "delete" = some (.bool true)) :
    (Deletes inputs ∨ o.cls.DeletesByDefault) ∧
    (o.Bare ↔ Deletes inputs ∨
      ∀ name, o.cls.present inputs name = true → name = "id" ∨ name = "delete") ∧
    (o.Bare → o.render = .object [("delete", .bool true)] ∨
      ∃ id, o.render = .object [("id", id), ("delete", .bool true)] ∨
        o.render = .object [("delete", .bool true), ("id", id)]) := by
  obtain ⟨hcls, valid, hslots⟩ := build_eq_ok.mp built
  obtain ⟨c, slots⟩ := o
  refine ⟨deletes_or_default hslots deleted, ?_, fun bare => bare.render ?_ deleted⟩
  · by_cases asked : Deletes inputs
    · exact iff_of_true (bare_of_deletes hslots asked) (.inl asked)
    · simp only [bare_iff_of_kept valid.names asked hslots, asked, false_or]
  · have once := compile_uniqueFields compiled c (class?_eq_some hcls).1
    exact (ObjectOf.setNames_sublist _).nodup once

theorem Registry.build_bare_iff_viewFrom :
    ∃ r o, compile [Catalogue.viewFrom] = .ok r ∧
      r.build "ViewFrom" [("cartesian", .text ""), ("delete", .bool true)] = .ok o ∧
      o.get? "delete" = some (.bool true) ∧ o.Bare := by
  have run : ((compile [Catalogue.viewFrom]).toOption.bind fun r =>
      (r.build "ViewFrom" [("cartesian", .text ""), ("delete", .bool true)]).toOption.filter
        ObjectOf.isDeleted).isSome = true := by
    decide +kernel
  simp only [Option.isSome_iff_exists, Option.bind_eq_some_iff, Option.filter_eq_some_iff,
    toOption_eq_some, ObjectOf.isDeleted_iff] at run
  obtain ⟨o, r, hr, ho, deleted⟩ := run
  refine ⟨r, o, hr, ho, deleted, (Registry.build_bare_iff hr ho deleted).2.1.mpr (.inl ?_)⟩
  simp [Deletes]

def Catalogue.erased : Definition where
  name := "Erased"
  description := ""
  bases := []
  attributes := [
    (Attribute.optional "delete" "bool" "").withDefault (.bool true),
    .optional "name" "String" ""]
  rules := []

/-- An object that is deleted by default keeps what it is given. -/
theorem Registry.erased_keeps_name :
    ∃ r o, compile [Catalogue.erased] = .ok r ∧
      r.build "Erased" [("name", .text "x")] = .ok o ∧ o.get? "delete" = some (.bool true) ∧
      ¬ o.Bare ∧ o.render.render .compact = .ok "\x7b\"delete\":true,\"name\":\"x\"\x7d" := by
  have run : ((compile [Catalogue.erased]).toOption.bind fun r =>
      (r.build "Erased" [("name", .text "x")]).toOption.filter fun o =>
        o.isDeleted && o.isSet "name" &&
          o.render.render .compact = .ok "\x7b\"delete\":true,\"name\":\"x\"\x7d").isSome
      = true := by
    decide +kernel
  simp only [Option.isSome_iff_exists, Option.bind_eq_some_iff, Option.filter_eq_some_iff,
    toOption_eq_some, Bool.and_eq_true, decide_eq_true_eq, ObjectOf.isDeleted_iff] at run
  obtain ⟨o, r, hr, ho, ⟨deleted, hname⟩, htext⟩ := run
  exact ⟨r, o, hr, ho, deleted, fun bare => by simpa using bare "name" hname, htext⟩

end SceneDoc
