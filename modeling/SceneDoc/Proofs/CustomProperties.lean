import SceneDoc.Proofs.Provenance
import SceneDoc.Proofs.Sequences

namespace SceneDoc

/-- What is met in a bag: a name behind the names before it in the same bag, or a value that is no
bag. -/
inductive BagItem where
  | name (before : List String) (own : String)
  | value (input : Input)

def BagItem.fault? : BagItem → Option ValueError
  | .name before own =>
    if own ∈ before then some (.invalid (.repeatedProperty own)) else none
  | .value (.number x) => if x.isFinite then none else some (.invalid (.notFinite x))
  | .value (.numbers xs) =>
    (xs.find? (!·.isFinite)).map fun x => .invalid (.notFinite x)
  | .value (.samples samples) =>
    some (.mismatch "a custom property value" (Input.samples samples).kindName)
  | .value (.timed period input) =>
    some (.mismatch "a custom property value" (Input.timed period input).kindName)
  | .value (.timedList entries) =>
    some (.mismatch "a custom property value" (Input.timedList entries).kindName)
  | .value _ => none

namespace Input

/-- What an input has to be at its own level: numbers finite, names different, and nothing that
varies. -/
def IsSound : Input → Prop
  | .number x => x.isFinite = true
  | .numbers xs => ∀ x ∈ xs, x.isFinite = true
  | .properties entries => (entries.map (·.1)).Nodup
  | .samples _ => False
  | .timed _ _ => False
  | .timedList _ => False
  | _ => True

def IsCustom (input : Input) : Prop := ∀ part ∈ input.parts, part.IsSound

mutual

/-- The items of an input from left to right, each name before what stands under it. -/
def items : Input → List BagItem
  | .properties entries => entryItems [] entries
  | input => [.value input]

def entryItems (before : List String) : List (String × Input) → List BagItem
  | [] => []
  | (name, input) :: rest =>
    .name before name :: (items input ++ entryItems (name :: before) rest)

end

mutual

/-- A value that has the form and the leaves of an input. A member of an enumeration is its text. -/
inductive StoredAs : Input → Value → Prop
  | bool (b : Bool) : StoredAs (.bool b) (.bool b)
  | number (x : Double) : StoredAs (.number x) (.number x)
  | text (s : String) : StoredAs (.text s) (.text s)
  | numbers (xs : List Double) : StoredAs (.numbers xs) (.numbers xs)
  | instant (i : Instant) : StoredAs (.instant i) (.instant i)
  | interval (i : TimeInterval) : StoredAs (.interval i) (.interval i)
  | intervals (is : List TimeInterval) : StoredAs (.intervals is) (.intervals is)
  | member (e : Enumeration) (raw : String) : StoredAs (.member e raw) (.text raw)
  | object (o : Object) : StoredAs (.object o) (.object o)
  | json (tree : Json Number) : StoredAs (.json tree) (.json tree)
  | properties {entries : List (String × Input)} {values : List (String × Value)}
      (each : BagStoredAs entries values) : StoredAs (.properties entries) (.properties values)

inductive BagStoredAs : List (String × Input) → List (String × Value) → Prop
  | nil : BagStoredAs [] []
  | cons {name : String} {input : Input} {value : Value} {entries : List (String × Input)}
      {values : List (String × Value)} (head : StoredAs input value)
      (tail : BagStoredAs entries values) :
      BagStoredAs ((name, input) :: entries) ((name, value) :: values)

end

variable {input : Input} {entries : List (String × Input)} {before : List String} {v : Value}

/-- An input is stored if no item is at fault, and else the first fault is reported. -/
structure ReadInOrder (input : Input) : Prop where
  ok : ∀ v, input.custom = .ok v ↔ input.items.findSome? BagItem.fault? = none ∧ input.StoredAs v
  error : ∀ e, input.custom = .error e ↔ input.items.findSome? BagItem.fault? = some e

theorem ReadInOrder.accepted (single : input.items = [.value input]) (custom : input.custom = .ok v)
    (sound : (BagItem.value input).fault? = none) (stored : ∀ w, input.StoredAs w ↔ w = v) :
    input.ReadInOrder where
  ok w := by simp [custom, single, sound, stored, eq_comm]
  error e := by simp [custom, single, sound]

theorem ReadInOrder.refused {e : ValueError} (single : input.items = [.value input])
    (custom : input.custom = .error e) (fault : (BagItem.value input).fault? = some e) :
    input.ReadInOrder where
  ok w := by simp [custom, single, fault]
  error e' := by simp [custom, single, fault]

theorem readInOrder_number (x : Double) : (number x).ReadInOrder := by
  cases finite : x.isFinite with
  | true =>
    have passes : checkFinite [x] = .ok () := checkFinite_eq_ok.mpr (by simpa using finite)
    apply ReadInOrder.accepted (v := .number x) rfl
    · rw [custom, passes, Except.map]
    · simp [BagItem.fault?, finite]
    · exact fun w => ⟨fun h => by cases h; rfl, fun h => h ▸ .number x⟩
  | false =>
    apply ReadInOrder.refused (e := .invalid (.notFinite x)) rfl
    · simp [custom, checkFinite, finite, Except.map]
    · simp [BagItem.fault?, finite]

theorem readInOrder_numbers (xs : List Double) : (numbers xs).ReadInOrder := by
  cases found : xs.find? (!·.isFinite) with
  | none =>
    apply ReadInOrder.accepted (v := .numbers xs) rfl
    · simp only [custom, checkFinite, found, Except.map]
    · simp only [BagItem.fault?, found, Option.map_none]
    · exact fun w => ⟨fun h => by cases h; rfl, fun h => h ▸ .numbers xs⟩
  | some x =>
    apply ReadInOrder.refused (e := .invalid (.notFinite x)) rfl
    · simp only [custom, checkFinite, found, Except.map]
    · simp only [BagItem.fault?, found, Option.map_some]

theorem bag_eq_ok (each : ∀ e ∈ entries, e.2.ReadInOrder) {values : List (String × Value)} :
    customEntries before entries = .ok values ↔
      (entryItems before entries).findSome? BagItem.fault? = none ∧ BagStoredAs entries values := by
  induction entries generalizing before values with
  | nil =>
    constructor
    · intro h
      cases h
      exact ⟨rfl, .nil⟩
    · intro h
      cases h.2
      rfl
  | cons entry rest ih =>
    obtain ⟨name, input⟩ := entry
    obtain ⟨head, each⟩ := List.forall_mem_cons.mp each
    change input.ReadInOrder at head
    rw [customEntries, entryItems, List.findSome?_cons, List.findSome?_append]
    by_cases seen : name ∈ before
    · simp [BagItem.fault?, seen]
    · simp only [List.contains_eq_mem, seen, decide_false, Bool.false_eq_true, ↓reduceIte,
        bind_eq_ok, except_pure, Except.ok.injEq, head.ok, ih each, BagItem.fault?,
        Option.or_eq_none_iff]
      constructor
      · intro h
        obtain ⟨value, ⟨sound, stored⟩, values, ⟨sounds, stores⟩, rfl⟩ := h
        exact ⟨⟨sound, sounds⟩, .cons stored stores⟩
      · intro h
        obtain ⟨⟨sound, sounds⟩, stores⟩ := h
        cases stores with
        | cons stored stores => exact ⟨_, ⟨sound, stored⟩, _, ⟨sounds, stores⟩, rfl⟩

theorem bag_eq_error (each : ∀ e ∈ entries, e.2.ReadInOrder) {e : ValueError} :
    customEntries before entries = .error e ↔
      (entryItems before entries).findSome? BagItem.fault? = some e := by
  induction entries generalizing before with
  | nil => simp [customEntries, entryItems]
  | cons entry rest ih =>
    obtain ⟨name, input⟩ := entry
    obtain ⟨head, each⟩ := List.forall_mem_cons.mp each
    change input.ReadInOrder at head
    rw [customEntries, entryItems, List.findSome?_cons, List.findSome?_append]
    by_cases seen : name ∈ before
    · simp [BagItem.fault?, seen]
    · simp only [List.contains_eq_mem, seen, decide_false, Bool.false_eq_true, ↓reduceIte,
        bind_eq_error, except_pure, head.error, ih each, BagItem.fault?, Option.or_eq_some_iff,
        reduceCtorEq, and_false, exists_false, or_false]
      constructor
      · rintro (first | ⟨value, stored, later⟩)
        · exact .inl first
        · exact .inr ⟨((head.ok value).mp stored).1, later⟩
      · rintro (first | ⟨sound, later⟩)
        · exact .inl first
        · -- No item of the value is at fault, so that it is stored.
          cases outcome : input.custom with
          | error e' =>
            rw [(head.error e').mp outcome] at sound
            cases sound
          | ok value => exact .inr ⟨value, rfl, later⟩

theorem readInOrder (input : Input) : input.ReadInOrder := by
  induction input with
  | properties entries ih =>
    constructor
    · intro v
      rw [custom, map_eq_ok]
      constructor
      · intro h
        obtain ⟨values, hvalues, rfl⟩ := h
        obtain ⟨sound, stores⟩ := (bag_eq_ok ih).mp hvalues
        exact ⟨sound, .properties stores⟩
      · intro h
        obtain ⟨sound, stored⟩ := h
        cases stored with
        | properties stores => exact ⟨_, (bag_eq_ok ih).mpr ⟨sound, stores⟩, rfl⟩
    · intro e
      rw [custom, map_eq_error]
      exact bag_eq_error ih
  | number x => exact readInOrder_number x
  | numbers xs => exact readInOrder_numbers xs
  | samples _ | timed _ _ _ | timedList _ _ => exact .refused rfl rfl rfl
  | bool _ | text _ | instant _ | interval _ | intervals _ | member _ _ | object _ | json _ =>
    refine .accepted rfl rfl rfl fun w => ⟨fun h => ?_, fun h => ?_⟩
    · cases h
      rfl
    · subst h
      constructor

theorem isCustom_properties :
    (properties entries).IsCustom ↔
      (entries.map (·.1)).Nodup ∧ ∀ e ∈ entries, e.2.IsCustom := by
  simp only [IsCustom, parts_properties, List.forall_mem_cons, List.mem_flatMap,
    forall_exists_index, and_imp]
  exact and_congr_right fun _ => ⟨fun h e he part => h part e he, fun h part e he => h e he part⟩

theorem entryItems_sound (each : ∀ e ∈ entries,
    e.2.items.findSome? BagItem.fault? = none ↔ e.2.IsCustom) :
    (entryItems before entries).findSome? BagItem.fault? = none ↔
      FreshKeys (·.1) before entries ∧ ∀ e ∈ entries, e.2.IsCustom := by
  induction entries generalizing before with
  | nil => simp [entryItems, FreshKeys]
  | cons entry rest ih =>
    obtain ⟨name, input⟩ := entry
    obtain ⟨head, each⟩ := List.forall_mem_cons.mp each
    change input.items.findSome? _ = none ↔ _ at head
    rw [freshKeys_cons, List.forall_mem_cons, entryItems, List.findSome?_cons,
      List.findSome?_append]
    by_cases seen : name ∈ before
    · simp [BagItem.fault?, seen]
    · simp only [BagItem.fault?, seen, ↓reduceIte, Option.or_eq_none_iff, head, ih each]
      tauto

/-- No item is at fault exactly if the input is sound at every level. -/
theorem items_sound (input : Input) :
    input.items.findSome? BagItem.fault? = none ↔ input.IsCustom := by
  induction input with
  | properties entries ih =>
    rw [items, entryItems_sound ih, isCustom_properties]
    simp [FreshKeys]
  | samples _ | timed _ _ _ | timedList _ _ =>
    simp [items, BagItem.fault?, IsCustom, parts, IsSound]
  | _ => simp [items, BagItem.fault?, IsCustom, parts, IsSound]

end Input

/-- A bag is accepted exactly if it is custom: at every level its names are different and its numbers
finite, and nothing varies. It is then stored with the same names, nesting and leaves. Else the first
item at fault is reported, from left to right and each name before its value. -/
theorem Field.convert_bag (f : Field) (kind : f.kind = .properties)
    (entries : List (String × Input)) :
    ((∃ v, f.convert (.properties entries) = .ok v) ↔ (Input.properties entries).IsCustom) ∧
    (∀ v, f.convert (.properties entries) = .ok v ↔
      (Input.properties entries).IsCustom ∧ (Input.properties entries).StoredAs v) ∧
    ∀ e, f.convert (.properties entries) = .error e ↔
      ∃ before item after, (Input.properties entries).items = before ++ item :: after ∧
        (∀ i ∈ before, i.fault? = none) ∧ item.fault? = some e := by
  have custom : f.convert (.properties entries) = (Input.properties entries).custom := by
    simp only [convert, convertPlain, kind, Input.custom]
  have reads := Input.readInOrder (.properties entries)
  have sound := Input.items_sound (.properties entries)
  rw [custom]
  refine ⟨⟨fun h => ?_, fun h => ?_⟩, fun v => ?_, fun e => ?_⟩
  · obtain ⟨v, hv⟩ := h
    exact sound.mp ((reads.ok v).mp hv).1
  · cases outcome : (Input.properties entries).custom with
    | ok v => exact ⟨v, rfl⟩
    | error e =>
      have fault := (reads.error e).mp outcome
      rw [sound.mpr h] at fault
      cases fault
  · rw [reads.ok, sound]
  · rw [reads.error, List.findSome?_eq_some_iff]
    simp only [and_comm]

/-- A name may be repeated at different levels; at one level it is refused before its value. -/
theorem Field.convert_bag_nested :
    ∃ f : Field, f.kind = .properties ∧
      (∃ v, f.convert
          (.properties [("a", .properties [("a", .numbers [.zero])]), ("b", .bool true)])
        = .ok v) ∧
      f.convert (.properties [("a", .properties [("b", .text ""), ("b", .samples [])])]) =
        .error (.invalid (.repeatedProperty "b")) := by
  let f : Field := {
    name := "properties", typeName := "Properties", kind := .properties, default := none,
    required := false, interpolatable := false, description := "", origin := none }
  have accepts := (convert_bag f rfl
    [("a", .properties [("a", .numbers [.zero])]), ("b", .bool true)]).1
  have reports := (convert_bag f rfl
    [("a", .properties [("b", .text ""), ("b", .samples [])])]).2.2
  refine ⟨f, rfl, accepts.mpr ?_, (reports _).mpr ?_⟩
  · have finite : Double.zero.isFinite = true := by decide +kernel
    have list : (Input.numbers [.zero]).IsCustom := by
      simp [Input.IsCustom, Input.parts, Input.IsSound, finite]
    have flag : (Input.bool true).IsCustom := by
      simp [Input.IsCustom, Input.parts, Input.IsSound]
    simp [Input.isCustom_properties, list, flag]
  · refine ⟨[.name [] "a", .name [] "b", .value (.text "")], .name ["b"] "b",
      [.value (.samples [])], rfl, ?_, rfl⟩
    simp [BagItem.fault?]

end SceneDoc
