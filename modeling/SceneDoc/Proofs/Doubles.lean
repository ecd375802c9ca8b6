import SceneDoc.Proofs.Canonical

namespace SceneDoc

variable {r : Registry} {raw : Json Number → Prop} {f : Field} {v : Value}

def TimeTag.doubles : TimeTag → List Double
  | .at _ => []
  | .seconds offset => [offset]

def Samples.doubles : Samples → List Double
  | .constant xs => xs
  | .tagged samples => samples.flatMap fun s => s.time.doubles ++ s.values

theorem TimeTag.IsFinite.doubles {t : TimeTag} (h : t.IsFinite) :
    ∀ x ∈ t.doubles, x.isFinite = true := by
  cases t with
  | «at» i => simp [TimeTag.doubles]
  | seconds x => simpa [TimeTag.doubles, TimeTag.IsFinite] using h

theorem Samples.Canonical.doubles_finite {s : Samples} {admits : List Double → Prop}
    (finite : ∀ xs, admits xs → ∀ x ∈ xs, x.isFinite = true) (h : s.Canonical admits) :
    ∀ x ∈ s.doubles, x.isFinite = true := by
  intro x hx
  cases h with
  | @constant xs value => exact finite xs value x hx
  | @tagged samples nonempty times values =>
    obtain ⟨s, hs, hx⟩ := List.mem_flatMap.mp hx
    rcases List.mem_append.mp hx with hx | hx
    · exact (times s hs).doubles x hx
    · exact finite s.values (values s hs) x hx

theorem IsScalar.finite (xs : List Double) (h : IsScalar xs) : ∀ x ∈ xs, x.isFinite = true := by
  obtain ⟨x, rfl, hx⟩ := h
  simpa using hx

namespace Value

def ownDoubles : Value → List Double
  | .number x => [x]
  | .numbers xs => xs
  | .samples s => s.doubles
  | _ => []

/-- The numbers inside a value, at any depth. Those of raw JSON are no doubles but numbers that a
document can hold. -/
def doubles (v : Value) : List Double := v.parts.flatMap ownDoubles

@[simp] theorem doubles_object (o : Object) :
    (object o).doubles = o.entries.flatMap (·.2.doubles) := by
  rw [doubles, parts_object, List.flatMap_cons, List.flatMap_assoc]
  rfl

@[simp] theorem doubles_timed (t : Timed) : (timed t).doubles = t.value.doubles := by
  rw [doubles, parts_timed, List.flatMap_cons]
  rfl

@[simp] theorem doubles_timedList (ts : List Timed) :
    (timedList ts).doubles = ts.flatMap fun t => (timed t).doubles := by
  rw [doubles, parts_timedList, List.flatMap_cons, List.flatMap_assoc]
  rfl

@[simp] theorem doubles_properties (entries : List (String × Value)) :
    (properties entries).doubles = entries.flatMap (·.2.doubles) := by
  rw [doubles, parts_properties, List.flatMap_cons, List.flatMap_assoc]
  rfl

def AllFinite (v : Value) : Prop := ∀ x ∈ v.doubles, x.isFinite = true

theorem allFinite_object {o : Object} :
    (object o).AllFinite ↔ ∀ e ∈ o.entries, e.2.AllFinite := by
  simp only [AllFinite, doubles_object, List.forall_mem_flatMap]

theorem allFinite_timed {t : Timed} : (timed t).AllFinite ↔ t.value.AllFinite := by
  simp only [AllFinite, doubles_timed]

theorem allFinite_timedList {ts : List Timed} :
    (timedList ts).AllFinite ↔ ∀ t ∈ ts, (timed t).AllFinite := by
  simp only [AllFinite, doubles_timedList, List.forall_mem_flatMap]

theorem allFinite_properties {entries : List (String × Value)} :
    (properties entries).AllFinite ↔ ∀ e ∈ entries, e.2.AllFinite := by
  simp only [AllFinite, doubles_properties, List.forall_mem_flatMap]

end Value

theorem Field.Holds.parts (h : f.Holds v) : v.parts = [v] := by
  cases h <;> simp [Value.parts]

theorem Value.IsProperty.parts (h : v.IsProperty) : v.parts = [v] := by
  cases h <;> simp [Value.parts]

/-- A value without parts has the numbers that it holds itself. -/
theorem Value.allFinite_own (alone : v.parts = [v]) (h : ∀ x ∈ v.ownDoubles, x.isFinite = true) :
    v.AllFinite := by
  simpa [AllFinite, doubles, alone] using h

theorem Field.Holds.allFinite (h : f.Holds v) : v.AllFinite := by
  apply Value.allFinite_own h.parts
  cases h with
  | number kind fixed finite => simpa [Value.ownDoubles] using finite
  | numbers kind varies values => exact values.doubles_finite IsScalar.finite
  | tuple kind fixed value => exact value.finite
  | tuples kind varies values => exact values.doubles_finite fun _ value => value.finite
  | list kind value => exact value.finite
  | boolean | text | uri | reference | instant | interval | intervals | member =>
    simp [Value.ownDoubles]

theorem Value.IsProperty.allFinite (h : v.IsProperty) : v.AllFinite := by
  apply Value.allFinite_own h.parts
  cases h with
  | number finite => simpa [Value.ownDoubles] using finite
  | numbers finite => exact finite
  | bool | text | instant | interval | intervals => simp [Value.ownDoubles]

/-- Canonical values hold finite numbers only. -/
theorem Canonical.allFinite {place : Place} (h : Canonical r raw place v) : v.AllFinite := by
  induction h with
  | object cls slots values ih => exact Value.allFinite_object.mpr ih
  | plain value ih => exact ih
  | timed key alone value ih => exact Value.allFinite_timed.mpr ih
  | timedList entries ih => exact Value.allFinite_timedList.mpr ih
  | held holds => exact holds.allFinite
  | nested kind value ih => exact ih
  | bag kind value ih => exact ih
  | map kind form holds => simp [Value.AllFinite, Value.doubles, Value.parts, Value.ownDoubles]
  | property form => exact form.allFinite
  | propertyObject value ih => exact ih
  | propertyBag names values ih => exact Value.allFinite_properties.mpr ih
  | propertyTree holds => simp [Value.AllFinite, Value.doubles, Value.parts, Value.ownDoubles]

end SceneDoc
