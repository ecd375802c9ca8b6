import SceneDoc.Proofs.Compilation
import SceneDoc.Proofs.Distinct
import SceneDoc.Proofs.Rendering

namespace SceneDoc

variable {r : Registry} {raw : Json Number → Prop} {f : Field}

/-- A field whose plain values have the key `interval` beside an interval. -/
def Field.Collides (f : Field) : Prop :=
  f.name = "interval" ∧ (f.kind = .interval ∨ (∃ e, f.kind = .enumerated e) ∨ f.kind = .properties)

/-- Unless it is a nested object, a value has the key `interval` in exactly these fields. -/
theorem Field.intervalKey_eq_interval (plain : ∀ cls, f.kind ≠ .nested cls) :
    f.intervalKey = "interval" ↔ f.Collides := by
  unfold intervalKey Collides
  split
  case h_7 shape kind => cases shape <;> simp [kind, TupleShape.key]
  case h_8 shape kind => cases shape <;> simp [kind, ListShape.key]
  case h_11 cls kind => exact absurd kind (plain cls)
  all_goals rename_i kind
  all_goals simp [kind]

namespace Value

def isTimed : Value → Bool
  | .timed _ => true
  | .timedList ts => !ts.isEmpty
  | _ => false

/-- No object inside the value holds anything over an interval in a field that collides with it. -/
def Clear (v : Value) : Prop :=
  ∀ part ∈ v.parts, ∀ o, part = .object o → ∀ e ∈ o.entries, e.1.Collides → e.2.isTimed = false

theorem clear_object (o : Object) :
    (object o).Clear ↔ (∀ e ∈ o.entries, e.1.Collides → e.2.isTimed = false) ∧
      ∀ e ∈ o.entries, e.2.Clear := by
  simp only [Clear, parts_object, List.forall_mem_cons, List.forall_mem_flatMap, Value.object.injEq,
    forall_eq']

theorem clear_timed (t : Timed) : (timed t).Clear ↔ t.value.Clear := by
  simp [Clear]

theorem clear_timedList (ts : List Timed) :
    (timedList ts).Clear ↔ ∀ t ∈ ts, (timed t).Clear := by
  simp only [Clear, parts_timedList, List.forall_mem_cons, List.forall_mem_flatMap, reduceCtorEq,
    false_imp_iff, implies_true, true_and]

theorem clear_properties (entries : List (String × Value)) :
    (properties entries).Clear ↔ ∀ e ∈ entries, e.2.Clear := by
  simp only [Clear, parts_properties, List.forall_mem_cons, List.forall_mem_flatMap, reduceCtorEq,
    false_imp_iff, implies_true, true_and]

def UniqueKeys (v : Value) : Prop := ∀ keys ∈ v.keyLists, keys.Nodup

theorem uniqueKeys_object (o : Object) :
    (object o).UniqueKeys ↔ o.setNames.Nodup ∧ ∀ e ∈ o.entries, e.2.UniqueKeys := by
  simp only [UniqueKeys, keyLists_object, List.forall_mem_cons, List.forall_mem_flatMap]

theorem uniqueKeys_timed_object (period : TimeInterval) (key : String) (o : Object) :
    (timed ⟨period, key, object o⟩).UniqueKeys ↔
      ("interval" :: o.setNames).Nodup ∧ ∀ e ∈ o.entries, e.2.UniqueKeys := by
  simp only [UniqueKeys, keyLists_timed_object, List.forall_mem_cons, List.forall_mem_flatMap]

theorem uniqueKeys_timed_plain (t : Timed) (h : ∀ o, t.value ≠ .object o) :
    (timed t).UniqueKeys ↔ t.key ≠ "interval" ∧ t.value.UniqueKeys := by
  simp [UniqueKeys, keyLists_timed_plain t h, eq_comm]

theorem uniqueKeys_timedList (ts : List Timed) :
    (timedList ts).UniqueKeys ↔ ∀ t ∈ ts, (timed t).UniqueKeys := by
  simp only [UniqueKeys, keyLists_timedList, List.forall_mem_flatMap]

theorem uniqueKeys_properties (entries : List (String × Value)) :
    (properties entries).UniqueKeys ↔
      (entries.map (·.1)).Nodup ∧ ∀ e ∈ entries, e.2.UniqueKeys := by
  simp only [UniqueKeys, keyLists_properties, List.forall_mem_cons, List.forall_mem_flatMap]

end Value

/-- Values without parts are written without maps. -/
theorem Field.Holds.keyLists {v : Value} (h : f.Holds v) : v.keyLists = [] := by
  cases h <;> simp [Value.keyLists]

theorem Value.IsProperty.keyLists {v : Value} (h : v.IsProperty) : v.keyLists = [] := by
  cases h <;> simp [Value.keyLists]

def Place.Collides : Place → Prop
  | .slot f => f.Collides
  | _ => False

namespace Canonical

/-- The plain value of a field is an object exactly if the field's kind is a class. -/
theorem object_iff_nested {v : Value} (h : Canonical r raw (.plain f) v) :
    (∃ o, v = .object o) ↔ ∃ cls, f.kind = .nested cls := by
  cases h with
  | held holds => cases holds <;> rename_i kind <;> simp [*]
  | nested kind value => simp [kind]
  | bag kind value => simp [kind]
  | map kind form holds => simp [kind]

theorem isTimed_plain {v : Value} (h : Canonical r raw (.plain f) v) : v.isTimed = false := by
  cases h with
  | held holds => cases holds <;> rfl
  | nested _ _ => rfl
  | bag _ _ => rfl
  | map _ _ _ => rfl

/-- An object in a field is canonical on its own. -/
theorem root {o : Object} (h : Canonical r raw (.plain f) (.object o)) :
    Canonical r raw .root (.object o) := by
  cases h with
  | held holds => cases holds
  | nested _ value => exact value

theorem setNames_nodup (fields : ∀ c ∈ r.classes, c.UniqueFields) {o : Object}
    (h : Canonical r raw .root (.object o)) : o.setNames.Nodup := by
  cases h with
  | object cls _ _ => exact o.setNames_sublist.nodup (fields o.cls (Registry.class?_eq_some cls).1)

/-- Over an interval, keys stay unique unless the value's own key is `interval`. -/
theorem uniqueKeys_timed (fields : ∀ c ∈ r.classes, c.UniqueFields) {t : Timed}
    (key : t.key = f.intervalKey) (alone : ∀ o, t.value = .object o → o.isSet "interval" = false)
    (value : Canonical r raw (.plain f) t.value) :
    (Value.timed t).UniqueKeys ↔ ¬ f.Collides ∧ t.value.UniqueKeys := by
  obtain ⟨period, key', v⟩ := t
  by_cases hv : ∃ o, v = .object o
  · obtain ⟨cls, kind⟩ := value.object_iff_nested.mp hv
    have hclear : ¬ f.Collides := by simp [Field.Collides, kind]
    obtain ⟨o, rfl⟩ := hv
    have hset : "interval" ∉ o.setNames := by
      rw [← ObjectOf.isSet_iff, alone o rfl]
      simp
    simp [Value.uniqueKeys_timed_object, Value.uniqueKeys_object, hclear, hset,
      value.root.setNames_nodup fields]
  · have hkey : key' ≠ "interval" ↔ ¬ f.Collides := by
      have hkind : ∀ cls, f.kind ≠ .nested cls := fun cls kind =>
        hv (value.object_iff_nested.mpr ⟨cls, kind⟩)
      rw [← Field.intervalKey_eq_interval hkind]
      exact not_congr (by rw [← key])
    rw [Value.uniqueKeys_timed_plain _ fun o ho => hv ⟨o, ho⟩, hkey]

/-- Keys are unique exactly if the value is clear and no interval of its own collides with its
place. -/
theorem uniqueKeys_iff (fields : ∀ c ∈ r.classes, c.UniqueFields) {place : Place} {v : Value}
    (h : Canonical r Json.UniqueKeys place v) :
    v.UniqueKeys ↔ (place.Collides → v.isTimed = false) ∧ v.Clear := by
  induction h with
  | @object o cls slots values ih =>
    have hnames := setNames_nodup fields (.object cls slots values)
    simp only [Value.uniqueKeys_object, Value.clear_object, Place.Collides, false_imp_iff, true_and,
      hnames]
    constructor
    · exact fun h => ⟨fun e he => ((ih e he).mp (h e he)).1, fun e he => ((ih e he).mp (h e he)).2⟩
    · exact fun h e he => (ih e he).mpr ⟨h.1 e he, h.2 e he⟩
  | plain value ih =>
    rw [ih]
    simp [Place.Collides, value.isTimed_plain]
  | timed key alone value ih =>
    rw [uniqueKeys_timed fields key alone value, ih]
    simp [Place.Collides, Value.isTimed, Value.clear_timed]
  | @timedList f ts entries ih =>
    rw [Value.uniqueKeys_timedList, Value.clear_timedList]
    simp only [Place.Collides, Value.isTimed] at ih ⊢
    cases ts with
    | nil => simp
    | cons t rest =>
      constructor
      · intro h
        have hfirst := (ih t List.mem_cons_self).mp (h t List.mem_cons_self)
        exact ⟨fun hf => absurd (hfirst.1 hf) (by simp), fun t ht => ((ih t ht).mp (h t ht)).2⟩
      · intro h t ht
        exact (ih t ht).mpr ⟨fun hf => absurd (h.1 hf) (by simp), h.2 t ht⟩
  | held holds =>
    simp only [Value.UniqueKeys, holds.keyLists, Value.Clear, holds.parts, Place.Collides]
    cases holds <;> simp
  | nested kind value ih => exact ih
  | bag kind value ih => exact ih
  | map kind form holds =>
    simpa [Value.UniqueKeys, Json.UniqueKeys, Value.keyLists, Value.Clear, Value.parts,
      Place.Collides] using holds
  | property form =>
    simp only [Value.UniqueKeys, form.keyLists, Value.Clear, form.parts, Place.Collides]
    cases form <;> simp
  | propertyObject value ih => exact ih
  | propertyBag names values ih =>
    simp only [Value.uniqueKeys_properties, Value.clear_properties, Place.Collides, false_imp_iff,
      true_and, names] at ih ⊢
    exact forall₂_congr ih
  | propertyTree holds =>
    simpa [Value.UniqueKeys, Json.UniqueKeys, Value.keyLists, Value.Clear, Value.parts,
      Place.Collides] using holds

end Canonical

namespace Renderable

def Clear (x : Renderable) : Prop := ∀ o ∈ x.roots, (Value.object o).Clear

theorem render_uniqueKeys (x : Renderable) :
    x.render.UniqueKeys ↔ ∀ o ∈ x.roots, (Value.object o).UniqueKeys := by
  simp only [Json.UniqueKeys, render_keyLists, keyLists, List.forall_mem_flatMap, Value.UniqueKeys]

end Renderable

/-- No map has a key twice exactly if nothing is held over an interval in a field that is named
`interval` and has no other key for its values. This is also when the compact text is that of one
entry per key. -/
theorem Registry.makes_uniqueKeys_iff {definitions : List Definition} {r : Registry}
    {x : Renderable} (compiled : Registry.compile definitions = .ok r)
    (made : r.Makes Json.UniqueKeys x) :
    (x.render.UniqueKeys ↔ x.Clear) ∧
      (x.render.render .distinct = x.render.render .compact ↔ x.Clear) := by
  have hclear : x.render.UniqueKeys ↔ x.Clear := by
    rw [Renderable.render_uniqueKeys]
    refine forall₂_congr fun o ho => ?_
    rw [(made.built o ho).canonical.uniqueKeys_iff (compile_uniqueFields compiled)]
    simp [Place.Collides]
  obtain ⟨value, hvalue⟩ := made.render_writable
  refine ⟨hclear, ?_⟩
  rw [← hclear, hvalue, Json.render_ok, Json.render_ok, Json.write_distinct_eq_compact]
  simp only [Json.UniqueKeys, Json.keyLists_map]

theorem Registry.makes_uniqueKeys_iff_clock :
    ∃ r o, Registry.compile Catalogue.opening = .ok r ∧
      r.build "Clock" [("multiplier", .timed ⟨none, none⟩ (.number .one))] = .ok o ∧
      (o.render.UniqueKeys ↔ (Renderable.object o).Clear) ∧
      (o.render.render .distinct = o.render.render .compact ↔ (Renderable.object o).Clear) := by
  have run : ((Registry.compile Catalogue.opening).toOption.bind fun r =>
      (r.build "Clock" [("multiplier", .timed ⟨none, none⟩ (.number .one))]).toOption).isSome
      = true := by
    decide +kernel
  simp only [Option.isSome_iff_exists, Option.bind_eq_some_iff, toOption_eq_some] at run
  obtain ⟨o, r, hr, ho⟩ := run
  refine ⟨r, o, hr, ho, Registry.makes_uniqueKeys_iff hr (.object (.build ?_ ?_ ho))⟩
  · simp [Input.objects, Input.parts]
  · simp [Input.trees, Input.parts]

/-- A clock whose own interval holds over an interval has the key `interval` twice in one map. -/
theorem Registry.clock_interval_twice :
    ∃ r o, Registry.compile Catalogue.opening = .ok r ∧
      r.build "Clock" [("interval",
        .timed ⟨some (.text "2012-03-15T10:00:00Z"), some (.text "2012-03-16T10:00:00Z")⟩
          (.interval
            ⟨some (.text "2012-03-15T12:00:00Z"), some (.text "2012-03-15T18:00:00Z")⟩))] = .ok o ∧
      ¬ o.render.UniqueKeys ∧ o.render.render .distinct ≠ o.render.render .compact := by
  have run : ((Registry.compile Catalogue.opening).toOption.bind fun r =>
      ((r.build "Clock" [("interval",
        .timed ⟨some (.text "2012-03-15T10:00:00Z"), some (.text "2012-03-16T10:00:00Z")⟩
          (.interval
            ⟨some (.text "2012-03-15T12:00:00Z"), some (.text "2012-03-15T18:00:00Z")⟩))
        ]).toOption.map fun o => decide (["interval", "interval"] ∈ o.render.keyLists ∧
          o.render.render .distinct ≠ o.render.render .compact))) = some true := by
    decide +kernel
  simp only [Option.bind_eq_some_iff, Option.map_eq_some_iff, toOption_eq_some,
    decide_eq_true_eq] at run
  obtain ⟨r, hr, o, ho, htwice, htexts⟩ := run
  exact ⟨r, o, hr, ho, fun h => by simpa using h _ htwice, htexts⟩

end SceneDoc
