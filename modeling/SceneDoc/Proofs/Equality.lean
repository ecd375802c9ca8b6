import SceneDoc.Proofs.Comparison
import SceneDoc.Proofs.Packets
import SceneDoc.Proofs.Rendering

namespace SceneDoc

variable {r : Registry} {raw : Json Number → Prop} {a b : Object}

namespace ObjectOf

/-- Where each field has a slot, every slot that is set is an entry. -/
theorem forall_slots {ν : Type} {o : ObjectOf ν} {P : ν → Prop}
    (slots : o.slots.length = o.cls.fields.length) (h : ∀ e ∈ o.entries, P e.2) :
    ∀ slot ∈ o.slots, ∀ v, slot = some v → P v := by
  intro slot hslot v hv
  rw [← List.map_snd_zip (Nat.le_of_eq slots)] at hslot
  obtain ⟨⟨f, w⟩, hzip, rfl⟩ := List.mem_map.mp hslot
  exact h (f, v) (mem_entries.mpr (hv ▸ hzip))

/-- Where slots are related, so is what stands under a name. -/
theorem get?_rel {ν : Type} {R : ν → ν → Prop} {a b : ObjectOf ν} (cls : a.cls = b.cls)
    (slots : List.Forall₂ (Option.Rel R) a.slots b.slots) (name : String) :
    Option.Rel R (a.get? name) (b.get? name) := by
  unfold get? entries
  rw [cls]
  generalize b.cls.fields = fields
  generalize a.slots = xs at slots ⊢
  generalize b.slots = ys at slots ⊢
  induction slots generalizing fields with
  | nil => simp
  | cons head tail ih =>
    cases fields with
    | nil => simp
    | cons f fields =>
      cases head with
      | none => simpa using ih fields
      | some h =>
        by_cases hname : f.name = name
        · simpa [hname] using h
        · simpa [hname] using ih fields

end ObjectOf

/-- Classes of a registry are one if their names are. -/
theorem Registry.names_lawful (r : Registry) (c : ValueClass) :
    LawfulAt (fun c d : ValueClass => c.name = d.name) (fun _ => True)
      (fun c => r.class? c.name = some c) c where
  refl _ := rfl
  symm _ h := h.symm
  trans _ _ h k := h.trans k
  unique d h hc hd := by
    rw [h] at hc
    exact Option.some.inj (hc.symm.trans hd)

namespace Value

/-- Every object inside is of a class of the registry, and has one slot for each of its fields. -/
def BelongsTo (r : Registry) (v : Value) : Prop :=
  ∀ part ∈ v.parts, ∀ o, part = .object o →
    r.class? o.cls.name = some o.cls ∧ o.slots.length = o.cls.fields.length

theorem belongsTo_object {o : Object} :
    (object o).BelongsTo r ↔ (r.class? o.cls.name = some o.cls ∧
      o.slots.length = o.cls.fields.length) ∧ ∀ e ∈ o.entries, e.2.BelongsTo r := by
  simp only [BelongsTo, parts_object, List.forall_mem_cons, List.forall_mem_flatMap,
    Value.object.injEq, forall_eq']

theorem belongsTo_timed {t : Timed} : (timed t).BelongsTo r ↔ t.value.BelongsTo r := by
  simp [BelongsTo]

theorem belongsTo_timedList {ts : List Timed} :
    (timedList ts).BelongsTo r ↔ ∀ t ∈ ts, (timed t).BelongsTo r := by
  simp only [BelongsTo, parts_timedList, List.forall_mem_cons, List.forall_mem_flatMap,
    reduceCtorEq, false_imp_iff, implies_true, true_and]

theorem belongsTo_properties {entries : List (String × Value)} :
    (properties entries).BelongsTo r ↔ ∀ e ∈ entries, e.2.BelongsTo r := by
  simp only [BelongsTo, parts_properties, List.forall_mem_cons, List.forall_mem_flatMap,
    reduceCtorEq, false_imp_iff, implies_true, true_and]

/-- No negative zero and no raw JSON is inside. -/
@[mk_iff]
structure Definite (v : Value) : Prop where
  numbers : ∀ x ∈ v.doubles, x.isNegativeZero = false
  trees : v.trees = []

theorem definite_object {o : Object} : (object o).Definite ↔ ∀ e ∈ o.entries, e.2.Definite := by
  simp only [definite_iff, doubles_object, trees_object, List.forall_mem_flatMap,
    List.flatMap_eq_nil_iff, forall_and]

theorem definite_timed {t : Timed} : (timed t).Definite ↔ t.value.Definite := by
  simp only [definite_iff, doubles_timed, trees_timed]

theorem definite_timedList {ts : List Timed} :
    (timedList ts).Definite ↔ ∀ t ∈ ts, (timed t).Definite := by
  simp only [definite_iff, doubles_timedList, trees_timedList, List.forall_mem_flatMap,
    List.flatMap_eq_nil_iff, forall_and]

theorem definite_properties {entries : List (String × Value)} :
    (properties entries).Definite ↔ ∀ e ∈ entries, e.2.Definite := by
  simp only [definite_iff, doubles_properties, trees_properties, List.forall_mem_flatMap,
    List.flatMap_eq_nil_iff, forall_and]

theorem slotsEqual_iff {xs ys : List (Option Value)} :
    slotsEqual xs ys = true ↔
      List.Forall₂ (Option.Rel fun x y => x.equals y = true) xs ys := by
  induction xs generalizing ys with
  | nil => cases ys <;> simp [slotsEqual]
  | cons x xs ih =>
    cases ys with
    | nil => simp [slotsEqual]
    | cons y ys => cases x <;> cases y <;> simp [slotsEqual, ih]

theorem timedEqual_iff {ts us : List Timed} :
    timedEqual ts us = true ↔
      List.Forall₂ (fun t u => (timed t).equals (timed u) = true) ts us := by
  induction ts generalizing us with
  | nil => cases us <;> simp [timedEqual]
  | cons t ts ih =>
    cases us with
    | nil => simp [timedEqual]
    | cons u us => simp [timedEqual, equals, ih]

theorem entriesEqual_iff {ds es : List (String × Value)} :
    entriesEqual ds es = true ↔
      List.Forall₂ (fun d e => d.1 = e.1 ∧ d.2.equals e.2 = true) ds es := by
  induction ds generalizing es with
  | nil => cases es <;> simp [entriesEqual]
  | cons d ds ih => cases es <;> simp [entriesEqual, ih]

/-- Objects are compared by the names of their classes and slot by slot. -/
theorem object_lawful {o : Object}
    (each : ∀ v, some v ∈ o.slots → LawfulAt (fun v w => v.equals w = true)
      (fun v => v.BelongsTo r ∧ v.AllFinite) (fun v => v.BelongsTo r ∧ v.Definite) v) :
    LawfulAt (fun v w => v.equals w = true) (fun v => v.BelongsTo r ∧ v.AllFinite)
      (fun v => v.BelongsTo r ∧ v.Definite) (object o) := by
  refine .form (fun o w => ?_) (fun h => ?_) (fun p h => ?_)
    (.both (f := ObjectOf.cls) (g := ObjectOf.slots) (fun p cls slots => ?_)
      (r.names_lawful o.cls) (.list fun slot hslot => .option fun v hv => each v (hv ▸ hslot)))
  · obtain ⟨c, xs⟩ := o
    cases w with
    | object p =>
      obtain ⟨d, ys⟩ := p
      simp [equals, slotsEqual_iff]
    | _ => simp [equals]
  · -- With one slot for each field, no slot escapes what is known of the entries.
    obtain ⟨⟨_, slots⟩, entries⟩ := belongsTo_object.mp h.1
    have finite := allFinite_object.mp h.2
    exact ⟨trivial, ObjectOf.forall_slots slots fun e he => ⟨entries e he, finite e he⟩⟩
  · obtain ⟨⟨cls, slots⟩, entries⟩ := belongsTo_object.mp h.1
    have definite := definite_object.mp h.2
    exact ⟨cls, ObjectOf.forall_slots slots fun e he => ⟨entries e he, definite e he⟩⟩
  · cases o
    cases p
    cases cls
    cases slots
    rfl

/-- Values of a registry are compared lawfully: by their form, and then by their numbers and parts. -/
theorem equals_lawful (v : Value) :
    LawfulAt (fun v w => v.equals w = true) (fun v => v.BelongsTo r ∧ v.AllFinite)
      (fun v => v.BelongsTo r ∧ v.Definite) v := by
  induction v with
  | bool b | text b | instant b | interval b | intervals b =>
    refine .form (fun b w => ?_) (fun _ => trivial) (fun _ _ => trivial) (.eq b)
    cases w <;> simp [equals]
  | number x =>
    refine .form (fun x w => ?_) (fun h => ?_) (fun y h => ?_) x.equals_lawful
    · cases w <;> simp [equals]
    · simpa [AllFinite, doubles, parts, ownDoubles] using h.2
    · simpa [doubles, parts, ownDoubles] using h.2.numbers
  | numbers xs =>
    refine .form (fun xs w => ?_) (fun h => ?_) (fun ys h => ?_) (Double.listEquals_lawful xs)
    · cases w <;> simp [equals]
    · simpa [AllFinite, doubles, parts, ownDoubles] using h.2
    · simpa [doubles, parts, ownDoubles] using h.2.numbers
  | samples s =>
    refine .form (fun s w => ?_) (fun h => ?_) (fun t h => ?_) s.equals_lawful
    · cases w <;> simp [equals]
    · simpa [AllFinite, doubles, parts, ownDoubles] using h.2
    · simpa [doubles, parts, ownDoubles] using h.2.numbers
  | object o ih => exact object_lawful ih
  | timed t ih =>
    refine .form (fun t w => ?_) (fun h => ?_) (fun u h => ?_)
      (.both (f := TimedOf.interval) (g := fun t => (t.key, t.value)) (fun u interval rest => ?_)
        (.eq t.interval) (.keyed ih))
    · obtain ⟨period, key, v⟩ := t
      cases w <;> simp [equals, and_assoc]
    · exact ⟨trivial, trivial, belongsTo_timed.mp h.1, allFinite_timed.mp h.2⟩
    · exact ⟨trivial, trivial, belongsTo_timed.mp h.1, definite_timed.mp h.2⟩
    · cases t
      cases u
      cases interval
      cases rest
      rfl
  | timedList ts ih =>
    refine .form (fun ts w => ?_) (fun h => ?_) (fun us h => ?_)
      (.list fun t ht => .comap (fun u _ _ => Value.timed.inj) (ih t ht))
    · cases w <;> simp [equals, timedEqual_iff]
    · exact fun t ht => ⟨belongsTo_timedList.mp h.1 t ht, allFinite_timedList.mp h.2 t ht⟩
    · exact fun t ht => ⟨belongsTo_timedList.mp h.1 t ht, definite_timedList.mp h.2 t ht⟩
  | properties entries ih =>
    refine .form (fun entries w => ?_) (fun h => ?_) (fun es h => ?_)
      (.list fun e he => .keyed (ih e he))
    · cases w <;> simp [equals, entriesEqual_iff]
    · exact fun e he =>
        ⟨trivial, belongsTo_properties.mp h.1 e he, allFinite_properties.mp h.2 e he⟩
    · exact fun e he =>
        ⟨trivial, belongsTo_properties.mp h.1 e he, definite_properties.mp h.2 e he⟩
  | json tree =>
    refine .form (fun tree w => ?_) (fun _ => trivial) (fun u h => ?_)
      (tree.equals_lawful Number.equals_lawful)
    · cases w <;> simp [equals]
    · simpa [trees, parts] using h.2.trees

end Value

/-- A value without parts has no objects. -/
theorem Value.belongsTo_own {v : Value} (alone : v.parts = [v]) (other : ∀ o, v ≠ .object o) :
    v.BelongsTo r := by
  intro part hpart o ho
  rw [alone, List.mem_singleton] at hpart
  exact absurd (hpart.symm.trans ho) (other o)

/-- What a registry builds belongs to it. -/
theorem Canonical.belongsTo {place : Place} {v : Value} (h : Canonical r raw place v) :
    v.BelongsTo r := by
  induction h with
  | object cls slots values ih => exact Value.belongsTo_object.mpr ⟨⟨cls, slots⟩, ih⟩
  | plain value ih => exact ih
  | timed key alone value ih => exact Value.belongsTo_timed.mpr ih
  | timedList entries ih => exact Value.belongsTo_timedList.mpr ih
  | held holds => exact Value.belongsTo_own holds.parts (by rintro o rfl; cases holds)
  | nested kind value ih => exact ih
  | bag kind value ih => exact ih
  | map kind form holds => simp [Value.BelongsTo, Value.parts]
  | property form => exact Value.belongsTo_own form.parts (by rintro o rfl; cases form)
  | propertyObject value ih => exact ih
  | propertyBag names values ih => exact Value.belongsTo_properties.mpr ih
  | propertyTree holds => simp [Value.BelongsTo, Value.parts]

theorem Value.equals_text {v : Value} {s : String} :
    v.equals (.text s) = true ↔ v = .text s := by
  cases v <;> simp [Value.equals]

theorem Value.text_equals {v : Value} {s : String} :
    (Value.text s).equals v = true ↔ .text s = v := by
  cases v <;> simp [Value.equals]

/-- Two attempts to make a packet give packets that are equal, or the same error. -/
inductive Packet.SameOutcome : Except Error Packet → Except Error Packet → Prop
  | ok {p q : Packet} (equal : p.equals q = true) : SameOutcome (.ok p) (.ok q)
  | error (e : Error) : SameOutcome (.error e) (.error e)

/-- Objects that are equal have one class if a registry built them. -/
theorem Registry.Built.cls_eq (builtA : r.Built raw a) (builtB : r.Built raw b)
    (equal : a.equals b = true) : a.cls = b.cls := by
  have name : a.cls.name = b.cls.name := by
    simp only [ObjectOf.equals, Bool.and_eq_true, beq_iff_eq] at equal
    exact equal.1
  have clsA := (Value.belongsTo_object.mp builtA.canonical.belongsTo).1.1
  have clsB := (Value.belongsTo_object.mp builtB.canonical.belongsTo).1.1
  exact (r.names_lawful a.cls).unique b.cls name clsA clsB

/-- Packets look at the class and at the identifier, which is a text in both objects or in none. -/
theorem Packet.ofObject_same (cls : a.cls = b.cls) (equal : a.equals b = true) :
    SameOutcome (ofObject a) (ofObject b) := by
  have slots := equal
  simp only [ObjectOf.equals, Bool.and_eq_true, Value.slotsEqual_iff] at slots
  have id := ObjectOf.get?_rel cls slots.2 "id"
  unfold ofObject
  rw [cls]
  split
  · exact .error _
  · revert id
    generalize a.get? "id" = x
    generalize b.get? "id" = y
    intro id
    cases id with
    | none => exact .error _
    | @some v w values =>
      split
      · rename_i s hv
        cases hv
        obtain rfl := Value.text_equals.mp values
        exact .ok equal
      · rename_i other
        split
        · rename_i s hw
          cases hw
          exact absurd (congrArg some (Value.equals_text.mp values)) (other s)
        · exact .error _

/-- Equality of the objects that a registry builds is an equivalence, and wrapping them keeps it. Equal
objects without negative zeros and raw JSON are written as one text in every format. -/
theorem Registry.equals_determines (r : Registry) (raw : Json Number → Prop) :
    Equivalence (fun a b : { o : Object // r.Built raw o } => a.1.equals b.1 = true) ∧
    ∀ a b, r.Built raw a → r.Built raw b → a.equals b = true →
      Packet.SameOutcome (Packet.ofObject a) (Packet.ofObject b) ∧
      ((Value.object a).Definite → (Value.object b).Definite →
        (∀ format, a.render.render format = b.render.render format) ∧
        ∀ layout : Layout, ∃ text, a.render.render layout.format = .ok text ∧
          b.render.render layout.format = .ok text) := by
  have lawful (o : Object) := Value.equals_lawful (r := r) (.object o)
  refine ⟨⟨fun a => ?_, fun {a b} h => ?_, fun {a b c} h k => ?_⟩, fun a b builtA builtB equal => ?_⟩
  · have canonical := a.2.canonical
    exact (lawful a.1).refl ⟨canonical.belongsTo, canonical.allFinite⟩
  · exact (lawful a.1).symm (.object b.1) h
  · exact (lawful a.1).trans (.object b.1) (.object c.1) h k
  · refine ⟨Packet.ofObject_same (builtA.cls_eq builtB equal) equal, fun definiteA definiteB => ?_⟩
    have one : Value.object a = .object b := (lawful a).unique _ equal
      ⟨builtA.canonical.belongsTo, definiteA⟩ ⟨builtB.canonical.belongsTo, definiteB⟩
    obtain rfl := Value.object.inj one
    refine ⟨fun _ => rfl, fun layout => ?_⟩
    obtain ⟨value, hvalue⟩ := builtA.canonical.allFinite.render_writable
    have written := (value.text_read layout).1
    rw [← hvalue] at written
    exact ⟨_, written, written⟩

/-- A sample is stored alike whether it is given as such or in a flat list. -/
theorem Registry.equals_determines_viewFrom :
    ∃ r a b, compile [Catalogue.viewFrom] = .ok r ∧
      r.build "ViewFrom" [("cartesian", .numbers [.zero, .one, .zero, .one])] = .ok a ∧
      r.build "ViewFrom" [("cartesian", .samples [⟨.seconds .zero, [.one, .zero, .one]⟩])] = .ok b ∧
      a.equals b = true ∧ b.equals a = true ∧
      ∀ format, a.render.render format = b.render.render format := by
  have run : ((compile [Catalogue.viewFrom]).toOption.bind fun r =>
      (r.build "ViewFrom" [("cartesian", .numbers [.zero, .one, .zero, .one])]).toOption.bind fun a =>
        (r.build "ViewFrom"
          [("cartesian", .samples [⟨.seconds .zero, [.one, .zero, .one]⟩])]).toOption.filter fun b =>
            a.equals b && [a, b].all fun o => (Value.object o).trees.isEmpty &&
              (Value.object o).doubles.all fun x => !x.isNegativeZero).isSome = true := by
    decide +kernel
  simp only [Option.isSome_iff_exists, Option.bind_eq_some_iff, Option.filter_eq_some_iff,
    toOption_eq_some, Bool.and_eq_true, List.all_eq_true, List.forall_mem_cons,
    List.isEmpty_iff, Bool.not_eq_true'] at run
  obtain ⟨b, r, hr, a, ha, hb, equal, ⟨treesA, numbersA⟩, ⟨treesB, numbersB⟩, _⟩ := run
  have built (input : Input) (o : Object) (objects : input.objects = [])
      (h : r.build "ViewFrom" [("cartesian", input)] = .ok o) : r.Built (fun _ => True) o := by
    refine .build (fun e he x hx => ?_) (fun _ _ _ _ => trivial) h
    cases List.mem_singleton.mp he
    simp [objects] at hx
  have builtA := built _ a (by simp [Input.objects, Input.parts]) ha
  have builtB := built _ b (by simp [Input.objects, Input.parts]) hb
  obtain ⟨equivalence, determines⟩ := equals_determines r fun _ => True
  have back : b.equals a = true := equivalence.symm (x := ⟨a, builtA⟩) (y := ⟨b, builtB⟩) equal
  have texts := (determines a b builtA builtB equal).2 ⟨numbersA, treesA⟩ ⟨numbersB, treesB⟩
  exact ⟨r, a, b, hr, ha, hb, equal, back, texts.1⟩

end SceneDoc
