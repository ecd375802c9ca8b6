import Mathlib.Data.List.Basic
import SceneDoc.Json.Basic

namespace SceneDoc
namespace Json

variable {ν μ ε : Type}

/-- Induction over a tree, with the hypothesis at every item and every entry. -/
@[elab_as_elim, induction_eliminator]
theorem induct {P : Json ν → Prop}
    (null : P .null) (bool : ∀ b, P (.bool b)) (number : ∀ n, P (.number n))
    (string : ∀ s, P (.string s))
    (array : ∀ items, (∀ t ∈ items, P t) → P (.array items))
    (object : ∀ entries, (∀ e ∈ entries, P e.2) → P (.object entries)) : ∀ t, P t
  | .null => null
  | .bool b => bool b
  | .number n => number n
  | .string s => string s
  | .array items =>
    array items fun t _ => induct null bool number string array object t
  | .object entries =>
    object entries fun e _ => induct null bool number string array object e.2
termination_by t => t
decreasing_by
  · have h := List.sizeOf_lt_of_mem ‹_ ∈ items›
    simp only [Json.array.sizeOf_spec]
    omega
  · have h := List.sizeOf_lt_of_mem ‹_ ∈ entries›
    obtain ⟨k, v⟩ := e
    simp only [Prod.mk.sizeOf_spec, Json.object.sizeOf_spec] at h ⊢
    omega

theorem mapItems_eq (f : ν → μ) (items : List (Json ν)) :
    mapItems f items = items.map (map f) := by
  induction items with
  | nil => rfl
  | cons t rest ih => simp [mapItems, ih]

theorem mapEntries_eq (f : ν → μ) (entries : List (String × Json ν)) :
    mapEntries f entries = entries.map fun e => (e.1, map f e.2) := by
  induction entries with
  | nil => rfl
  | cons e rest ih => simp [mapEntries, ih]

@[simp] theorem map_array (f : ν → μ) (items : List (Json ν)) :
    (array items).map f = array (items.map (map f)) := by
  simp [map, mapItems_eq]

@[simp] theorem map_object (f : ν → μ) (entries : List (String × Json ν)) :
    (object entries).map f = object (entries.map fun e => (e.1, map f e.2)) := by
  simp [map, mapEntries_eq]

theorem map_eq_null {f : ν → μ} {t : Json ν} : t.map f = .null ↔ t = .null := by
  cases t <;> simp [map]

theorem map_eq_bool {f : ν → μ} {t : Json ν} {b : Bool} : t.map f = .bool b ↔ t = .bool b := by
  cases t <;> simp [map]

theorem map_eq_number {f : ν → μ} {t : Json ν} {m : μ} :
    t.map f = .number m ↔ ∃ n, t = .number n ∧ f n = m := by
  cases t <;> simp [map]

theorem map_eq_string {f : ν → μ} {t : Json ν} {s : String} :
    t.map f = .string s ↔ t = .string s := by
  cases t <;> simp [map]

theorem map_eq_array {f : ν → μ} {t : Json ν} {items : List (Json μ)} :
    t.map f = .array items ↔ ∃ ts, t = .array ts ∧ ts.map (map f) = items := by
  cases t <;> simp [map, mapItems_eq]

theorem map_eq_object {f : ν → μ} {t : Json ν} {entries : List (String × Json μ)} :
    t.map f = .object entries ↔
      ∃ es, t = .object es ∧ es.map (fun e => (e.1, e.2.map f)) = entries := by
  cases t <;> simp [map, mapEntries_eq]

theorem map_entries_eq_cons {f : ν → μ} {es : List (String × Json ν)} {key : String} {t : Json μ}
    {entries : List (String × Json μ)} :
    es.map (fun e => (e.1, e.2.map f)) = (key, t) :: entries ↔
      ∃ value rest, es = (key, value) :: rest ∧ value.map f = t ∧
        rest.map (fun e => (e.1, e.2.map f)) = entries := by
  constructor
  · intro h
    obtain ⟨⟨_, value⟩, rest, rfl, hfirst, hrest⟩ := List.map_eq_cons_iff.mp h
    obtain ⟨rfl, hvalue⟩ := Prod.mk.inj hfirst
    exact ⟨value, rest, rfl, hvalue, hrest⟩
  · rintro ⟨value, rest, rfl, rfl, rfl⟩
    rfl

theorem map_map {κ : Type} (f : ν → μ) (g : μ → κ) (t : Json ν) : (t.map f).map g = t.map (g ∘ f) := by
  induction t with
  | null | bool b | number n | string s => rfl
  | array items ih =>
    rw [map_array, map_array, map_array, List.map_map]
    exact congrArg array (List.map_congr_left ih)
  | object entries ih =>
    rw [map_object, map_object, map_object, List.map_map]
    exact congrArg object (List.map_congr_left fun e he => congrArg (e.1, ·) (ih e he))

mutual

/-- Every tree inside a tree, itself first. -/
def parts : Json ν → List (Json ν)
  | .array items => .array items :: itemParts items
  | .object entries => .object entries :: entryParts entries
  | t => [t]

def itemParts : List (Json ν) → List (Json ν)
  | [] => []
  | t :: rest => parts t ++ itemParts rest

def entryParts : List (String × Json ν) → List (Json ν)
  | [] => []
  | (_, t) :: rest => parts t ++ entryParts rest

end

@[simp] theorem parts_array (items : List (Json ν)) :
    (array items).parts = .array items :: items.flatMap parts := by
  have h : itemParts items = items.flatMap parts := by
    induction items with
    | nil => rfl
    | cons t rest ih => simp [itemParts, ih]
  simp [parts, h]

@[simp] theorem parts_object (entries : List (String × Json ν)) :
    (object entries).parts = .object entries :: entries.flatMap (·.2.parts) := by
  have h : entryParts entries = entries.flatMap (·.2.parts) := by
    induction entries with
    | nil => rfl
    | cons e rest ih => simp [entryParts, ih]
  simp [parts, h]

theorem parts_map (f : ν → μ) (t : Json ν) : (t.map f).parts = t.parts.map (map f) := by
  induction t with
  | null | bool b | number n | string s => rfl
  | array items ih =>
    rw [map_array, parts_array, parts_array, List.map_cons, map_array, List.flatMap_map,
      List.map_flatMap]
    exact congrArg _ (List.flatMap_congr ih)
  | object entries ih =>
    rw [map_object, parts_object, parts_object, List.map_cons, map_object, List.flatMap_map,
      List.map_flatMap]
    exact congrArg _ (List.flatMap_congr ih)

def keys? : Json ν → Option (List String)
  | .object entries => some (entries.map (·.1))
  | _ => none

/-- The keys of every map in a tree, each map before the maps inside it. -/
def keyLists (t : Json ν) : List (List String) := t.parts.filterMap keys?

@[simp] theorem keyLists_array (items : List (Json ν)) :
    (array items).keyLists = items.flatMap keyLists := by
  rw [keyLists, parts_array, List.filterMap_cons_none rfl, List.filterMap_flatMap]
  rfl

@[simp] theorem keyLists_object (entries : List (String × Json ν)) :
    (object entries).keyLists = entries.map (·.1) :: entries.flatMap (·.2.keyLists) := by
  have hkeys : keys? (object entries) = some (entries.map (·.1)) := rfl
  rw [keyLists, parts_object, List.filterMap_cons_some hkeys, List.filterMap_flatMap]
  rfl

theorem keyLists_string (s : String) : (string s : Json ν).keyLists = [] := rfl

/-- Numbers are no keys. -/
@[simp] theorem keyLists_map (f : ν → μ) (t : Json ν) : (t.map f).keyLists = t.keyLists := by
  induction t with
  | null | bool b | number n | string s => rfl
  | array items ih =>
    rw [map_array, keyLists_array, keyLists_array, List.flatMap_map]
    exact List.flatMap_congr ih
  | object entries ih =>
    rw [map_object, keyLists_object, keyLists_object, List.map_map, List.flatMap_map]
    congr 1
    exact List.flatMap_congr ih

def UniqueKeys (t : Json ν) : Prop := ∀ keys ∈ t.keyLists, keys.Nodup

end Json
end SceneDoc
