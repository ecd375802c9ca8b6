import SceneDoc.Proofs.Provenance

namespace SceneDoc

variable {o : Object}

@[simp] theorem Double.render_keyLists (x : Double) : x.render.keyLists = [] := rfl

theorem TimeTag.render_keyLists (t : TimeTag) : t.render.keyLists = [] := by
  cases t <;> rfl

@[simp] theorem Samples.render_keyLists (s : Samples) : s.render.keyLists = [] := by
  cases s with
  | constant xs =>
    match xs with
    | [] | [_] | _ :: _ :: _ => simp [render]
  | tagged samples =>
    simp only [render, Json.keyLists_array, List.flatMap_eq_nil_iff, List.mem_flatMap,
      List.mem_cons, List.mem_map]
    intro t ht
    obtain ⟨s, _, ht⟩ := ht
    rcases ht with rfl | ⟨x, _, rfl⟩
    · exact s.time.render_keyLists
    · exact x.render_keyLists

namespace Value

mutual

/-- The keys of every map that a value is written as, each map before the maps inside it. An object
has the names of its set fields; what holds over an interval has `interval` before them. -/
def keyLists : Value → List (List String)
  | .object ⟨cls, slots⟩ => (ObjectOf.mk cls slots).setNames :: slotKeyLists cls.fields slots
  | .timed t => timedKeyLists t
  | .timedList ts => timedListKeyLists ts
  | .properties entries => entries.map (·.1) :: propertyKeyLists entries
  | .json tree => tree.keyLists
  | _ => []

def slotKeyLists : List Field → List (Option Value) → List (List String)
  | _ :: fields, some v :: slots => keyLists v ++ slotKeyLists fields slots
  | _ :: fields, none :: slots => slotKeyLists fields slots
  | _, _ => []

def timedKeyLists : TimedOf Value → List (List String)
  | ⟨_, _, .object ⟨cls, slots⟩⟩ =>
    ("interval" :: (ObjectOf.mk cls slots).setNames) :: slotKeyLists cls.fields slots
  | ⟨_, key, v⟩ => ["interval", key] :: keyLists v

def timedListKeyLists : List (TimedOf Value) → List (List String)
  | [] => []
  | t :: rest => timedKeyLists t ++ timedListKeyLists rest

def propertyKeyLists : List (String × Value) → List (List String)
  | [] => []
  | (_, v) :: rest => keyLists v ++ propertyKeyLists rest

end

theorem slotKeyLists_eq (fields : List Field) (slots : List (Option Value)) :
    slotKeyLists fields slots =
      ((fields.zip slots).filterMap fun (f, slot) => slot.map (f, ·)).flatMap (·.2.keyLists) := by
  induction fields generalizing slots with
  | nil => simp [slotKeyLists]
  | cons f rest ih =>
    cases slots with
    | nil => simp [slotKeyLists]
    | cons slot slots => cases slot <;> simp [slotKeyLists, ih]

@[simp] theorem keyLists_object (o : Object) :
    (object o).keyLists = o.setNames :: o.entries.flatMap (·.2.keyLists) := by
  obtain ⟨cls, slots⟩ := o
  simp [keyLists, slotKeyLists_eq, ObjectOf.entries]

theorem keyLists_timed_object (period : TimeInterval) (key : String) (o : Object) :
    (timed ⟨period, key, object o⟩).keyLists =
      ("interval" :: o.setNames) :: o.entries.flatMap (·.2.keyLists) := by
  obtain ⟨cls, slots⟩ := o
  simp [keyLists, timedKeyLists, slotKeyLists_eq, ObjectOf.entries]

theorem keyLists_timed_plain (t : Timed) (h : ∀ o, t.value ≠ .object o) :
    (timed t).keyLists = ["interval", t.key] :: t.value.keyLists := by
  obtain ⟨period, key, v⟩ := t
  cases v with
  | object o => exact absurd rfl (h o)
  | _ => simp [keyLists, timedKeyLists]

@[simp] theorem keyLists_timedList (ts : List Timed) :
    (timedList ts).keyLists = ts.flatMap fun t => (timed t).keyLists := by
  have h : timedListKeyLists ts = ts.flatMap fun t => (timed t).keyLists := by
    induction ts with
    | nil => rfl
    | cons t rest ih => simp [timedListKeyLists, keyLists, ih]
  simp [keyLists, h]

@[simp] theorem keyLists_properties (entries : List (String × Value)) :
    (properties entries).keyLists = entries.map (·.1) :: entries.flatMap (·.2.keyLists) := by
  have h : propertyKeyLists entries = entries.flatMap (·.2.keyLists) := by
    induction entries with
    | nil => rfl
    | cons e rest ih => simp [propertyKeyLists, ih]
  simp [keyLists, h]

/-- The maps inside the fields of an object, once those of every field are known. -/
theorem entries_keyLists (ih : ∀ v, some v ∈ o.slots → v.render.keyLists = v.keyLists) :
    (o.entries.map fun e => (e.1.name, e.2.render)).flatMap (·.2.keyLists) =
      o.entries.flatMap (·.2.keyLists) := by
  rw [List.flatMap_map]
  exact List.flatMap_congr fun e he => ih e.2 (ObjectOf.entry_slot he)

theorem entries_keys :
    (o.entries.map fun e => (e.1.name, e.2.render)).map (·.1) = o.setNames := by
  rw [List.map_map, ← ObjectOf.entries_names]
  rfl

/-- A value is written with exactly its maps, in order. -/
theorem render_keyLists (v : Value) : v.render.keyLists = v.keyLists := by
  induction v with
  | bool b | text s | instant i | interval i => rfl
  | number x => simp [render, keyLists]
  | numbers xs => simp [render, keyLists]
  | samples s => simp [render, keyLists]
  | intervals is => simp [render, keyLists, Json.keyLists_string]
  | object o ih =>
    rw [render_object, Json.keyLists_object, keyLists_object, entries_keys, entries_keyLists ih]
  | timed t ih =>
    obtain ⟨period, key, v⟩ := t
    by_cases hv : ∃ o, v = .object o
    · obtain ⟨o, rfl⟩ := hv
      rw [render_object, Json.keyLists_object, keyLists_object] at ih
      rw [render_timed_object, Json.keyLists_object, keyLists_timed_object, List.map_cons,
        entries_keys, List.flatMap_cons, (List.cons.inj ih).2]
      rfl
    · have hplain : ∀ o, v ≠ .object o := fun o ho => hv ⟨o, ho⟩
      rw [render_timed_plain _ hplain, keyLists_timed_plain _ hplain]
      simp [Json.keyLists_string, ih]
  | timedList ts ih =>
    rw [render_timedList, Json.keyLists_array, keyLists_timedList, List.flatMap_map]
    exact List.flatMap_congr ih
  | properties entries ih =>
    rw [render_properties, Json.keyLists_object, keyLists_properties, List.flatMap_map]
    simp only [List.map_map]
    congr 1
    exact List.flatMap_congr ih
  | json tree => simp [render, keyLists]

end Value

namespace Renderable

def keyLists (x : Renderable) : List (List String) :=
  x.roots.flatMap fun o => (Value.object o).keyLists

theorem render_keyLists (x : Renderable) : x.render.keyLists = x.keyLists := by
  cases x with
  | object o =>
    simpa [keyLists, roots, render, ObjectOf.render] using Value.render_keyLists (.object o)
  | packet p =>
    simpa [keyLists, roots, render, Packet.render, ObjectOf.render] using
      Value.render_keyLists (.object p.object)
  | document d =>
    simp only [render, Document.render, Json.keyLists_array, keyLists, roots, List.flatMap_map]
    exact List.flatMap_congr fun p _ => Value.render_keyLists (.object p.object)

end Renderable
end SceneDoc
