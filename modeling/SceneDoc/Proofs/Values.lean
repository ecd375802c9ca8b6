import SceneDoc.Object.Render
import SceneDoc.Proofs.JsonTrees

namespace SceneDoc

namespace ObjectOf

variable {ν : Type}

def setNames (o : ObjectOf ν) : List String :=
  ((o.cls.fields.zip o.slots).filter (·.2.isSome)).map (·.1.name)

theorem entries_names (o : ObjectOf ν) : o.entries.map (·.1.name) = o.setNames := by
  unfold entries setNames
  induction o.cls.fields.zip o.slots with
  | nil => rfl
  | cons p rest ih =>
    obtain ⟨f, slot⟩ := p
    cases slot with
    | none => simpa using ih
    | some v => simpa using ih

theorem mem_entries {o : ObjectOf ν} {f : Field} {v : ν} :
    (f, v) ∈ o.entries ↔ (f, some v) ∈ o.cls.fields.zip o.slots := by
  simp only [entries, List.mem_filterMap, Prod.exists, Option.map_eq_some_iff, Prod.mk.injEq]
  constructor
  · intro h
    obtain ⟨g, slot, hm, w, rfl, rfl, rfl⟩ := h
    exact hm
  · intro hm
    exact ⟨f, some v, hm, v, rfl, rfl, rfl⟩

theorem entry_slot {o : ObjectOf ν} {e : Field × ν} (h : e ∈ o.entries) : some e.2 ∈ o.slots :=
  (List.of_mem_zip (mem_entries.mp h)).2

theorem isSet_iff {o : ObjectOf ν} {name : String} : o.isSet name = true ↔ name ∈ o.setNames := by
  simp [isSet, get?, ← entries_names]

theorem exists_entry {o : ObjectOf ν} {name : String} {v : ν} (h : o.get? name = some v) :
    ∃ f, f.name = name ∧ (f, v) ∈ o.entries := by
  obtain ⟨⟨f, w⟩, hfound, rfl⟩ := Option.map_eq_some_iff.mp h
  exact ⟨f, by simpa using List.find?_some hfound, List.mem_of_find?_eq_some hfound⟩

/-- Set fields keep their declared order. -/
theorem setNames_sublist (o : ObjectOf ν) : o.setNames.Sublist (o.cls.fields.map (·.name)) := by
  unfold setNames
  generalize o.cls.fields = fields
  generalize o.slots = slots
  induction fields generalizing slots with
  | nil => simp
  | cons f rest ih =>
    cases slots with
    | nil => simp
    | cons slot slots =>
      cases slot with
      | none => simpa using (ih slots).cons f.name
      | some v => simpa using (ih slots).cons_cons f.name

end ObjectOf

namespace Value

/-- Induction over a value, with the hypothesis at every slot, interval and property. -/
@[elab_as_elim, induction_eliminator]
theorem induct {P : Value → Prop}
    (bool : ∀ b, P (.bool b)) (number : ∀ x, P (.number x)) (text : ∀ s, P (.text s))
    (numbers : ∀ xs, P (.numbers xs)) (samples : ∀ s, P (.samples s))
    (instant : ∀ i, P (.instant i)) (interval : ∀ i, P (.interval i))
    (intervals : ∀ is, P (.intervals is))
    (object : ∀ o : Object, (∀ v, some v ∈ o.slots → P v) → P (.object o))
    (timed : ∀ t : Timed, P t.value → P (.timed t))
    (timedList : ∀ ts : List Timed, (∀ t ∈ ts, P (.timed t)) → P (.timedList ts))
    (properties : ∀ entries, (∀ e ∈ entries, P e.2) → P (.properties entries))
    (json : ∀ tree, P (.json tree)) : ∀ v, P v
  | .bool b => bool b
  | .number x => number x
  | .text s => text s
  | .numbers xs => numbers xs
  | .samples s => samples s
  | .instant i => instant i
  | .interval i => interval i
  | .intervals is => intervals is
  | .object o =>
    object o fun v _ => induct bool number text numbers samples instant interval intervals object
      timed timedList properties json v
  | .timed t =>
    timed t (induct bool number text numbers samples instant interval intervals object
      timed timedList properties json t.value)
  | .timedList ts =>
    timedList ts fun t _ => timed t (induct bool number text numbers samples instant interval
      intervals object timed timedList properties json t.value)
  | .properties entries =>
    properties entries fun e _ => induct bool number text numbers samples instant interval
      intervals object timed timedList properties json e.2
  | .json tree => json tree
termination_by v => v
decreasing_by
  · have h := List.sizeOf_lt_of_mem ‹some v ∈ o.slots›
    obtain ⟨cls, slots⟩ := o
    simp only [Option.some.sizeOf_spec, Value.object.sizeOf_spec, ObjectOf.mk.sizeOf_spec] at h ⊢
    omega
  · obtain ⟨period, key, v⟩ := t
    simp only [Value.timed.sizeOf_spec, TimedOf.mk.sizeOf_spec]
    omega
  · have h := List.sizeOf_lt_of_mem ‹t ∈ ts›
    obtain ⟨period, key, v⟩ := t
    simp only [TimedOf.mk.sizeOf_spec, Value.timedList.sizeOf_spec] at h ⊢
    omega
  · have h := List.sizeOf_lt_of_mem ‹e ∈ entries›
    obtain ⟨name, v⟩ := e
    simp only [Prod.mk.sizeOf_spec, Value.properties.sizeOf_spec] at h ⊢
    omega

theorem renderSlots_eq (fields : List Field) (slots : List (Option Value)) :
    renderSlots fields slots =
      ((fields.zip slots).filterMap fun (f, slot) => slot.map (f, ·)).map
        fun e => (e.1.name, e.2.render) := by
  induction fields generalizing slots with
  | nil => simp [renderSlots]
  | cons f rest ih =>
    cases slots with
    | nil => simp [renderSlots]
    | cons slot slots => cases slot <;> simp [renderSlots, ih]

@[simp] theorem render_object (o : Object) :
    (object o).render = .object (o.entries.map fun e => (e.1.name, e.2.render)) := by
  obtain ⟨cls, slots⟩ := o
  simp [render, renderSlots_eq, ObjectOf.entries]

/-- An object that holds over an interval is written together with it. -/
theorem render_timed_object (period : TimeInterval) (key : String) (o : Object) :
    (timed ⟨period, key, object o⟩).render =
      .object (("interval", .string period.render) ::
        o.entries.map fun e => (e.1.name, e.2.render)) := by
  obtain ⟨cls, slots⟩ := o
  simp [render, renderTimed, renderSlots_eq, ObjectOf.entries]

theorem render_timed_plain (t : Timed) (h : ∀ o, t.value ≠ .object o) :
    (timed t).render =
      .object [("interval", .string t.interval.render), (t.key, t.value.render)] := by
  obtain ⟨period, key, v⟩ := t
  cases v with
  | object o => exact absurd rfl (h o)
  | _ => simp [render, renderTimed]

@[simp] theorem render_timedList (ts : List Timed) :
    (timedList ts).render = .array (ts.map fun t => (timed t).render) := by
  have h : renderTimedList ts = ts.map fun t => (timed t).render := by
    induction ts with
    | nil => rfl
    | cons t rest ih => simp [renderTimedList, render, ih]
  simp [render, h]

@[simp] theorem render_properties (entries : List (String × Value)) :
    (properties entries).render = .object (entries.map fun e => (e.1, e.2.render)) := by
  have h : renderProperties entries = entries.map fun e => (e.1, e.2.render) := by
    induction entries with
    | nil => rfl
    | cons e rest ih => simp [renderProperties, ih]
  simp [render, h]

mutual

/-- Every value inside a value, itself first. -/
def parts : Value → List Value
  | .object ⟨cls, slots⟩ => .object ⟨cls, slots⟩ :: slotParts cls.fields slots
  | .timed t => timedParts t
  | .timedList ts => .timedList ts :: timedListParts ts
  | .properties entries => .properties entries :: propertyParts entries
  | v => [v]

def slotParts : List Field → List (Option Value) → List Value
  | _ :: fields, some v :: slots => parts v ++ slotParts fields slots
  | _ :: fields, none :: slots => slotParts fields slots
  | _, _ => []

def timedParts : TimedOf Value → List Value
  | ⟨period, key, v⟩ => .timed ⟨period, key, v⟩ :: parts v

def timedListParts : List (TimedOf Value) → List Value
  | [] => []
  | t :: rest => timedParts t ++ timedListParts rest

def propertyParts : List (String × Value) → List Value
  | [] => []
  | (_, v) :: rest => parts v ++ propertyParts rest

end

@[simp] theorem parts_object (o : Object) :
    (object o).parts = .object o :: o.entries.flatMap (·.2.parts) := by
  obtain ⟨cls, slots⟩ := o
  have h (fields : List Field) : slotParts fields slots =
      ((fields.zip slots).filterMap fun (f, slot) => slot.map (f, ·)).flatMap (·.2.parts) := by
    induction fields generalizing slots with
    | nil => simp [slotParts]
    | cons f rest ih =>
      cases slots with
      | nil => simp [slotParts]
      | cons slot slots => cases slot <;> simp [slotParts, ih]
  simp [parts, h, ObjectOf.entries]

@[simp] theorem parts_timed (t : Timed) : (timed t).parts = .timed t :: t.value.parts := by
  obtain ⟨period, key, v⟩ := t
  simp [parts, timedParts]

@[simp] theorem parts_timedList (ts : List Timed) :
    (timedList ts).parts = .timedList ts :: ts.flatMap fun t => (timed t).parts := by
  have h : timedListParts ts = ts.flatMap fun t => (timed t).parts := by
    induction ts with
    | nil => rfl
    | cons t rest ih =>
      obtain ⟨period, key, v⟩ := t
      simp [timedListParts, timedParts, ih]
  simp [parts, h]

@[simp] theorem parts_properties (entries : List (String × Value)) :
    (properties entries).parts = .properties entries :: entries.flatMap (·.2.parts) := by
  have h : propertyParts entries = entries.flatMap (·.2.parts) := by
    induction entries with
    | nil => rfl
    | cons e rest ih => simp [propertyParts, ih]
  simp [parts, h]

end Value
end SceneDoc
