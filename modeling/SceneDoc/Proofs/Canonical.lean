import SceneDoc.Proofs.Construction
import SceneDoc.Proofs.Provenance
import SceneDoc.Proofs.Shapes

namespace SceneDoc

variable {f : Field} {v : Value}

/-- Values without parts that a field of a kind may hold: which form they have and which domain they
lie in. -/
inductive Field.Holds (f : Field) : Value → Prop
  | boolean {b : Bool} (kind : f.kind = .boolean) : f.Holds (.bool b)
  | number {x : Double} (kind : f.kind = .number) (fixed : f.interpolatable = false)
      (finite : x.isFinite = true) : f.Holds (.number x)
  | numbers {s : Samples} (kind : f.kind = .number) (varies : f.interpolatable = true)
      (values : s.Canonical IsScalar) : f.Holds (.samples s)
  | text {s : String} (kind : f.kind = .text) : f.Holds (.text s)
  | uri {s : String} (kind : f.kind = .uri) (form : isUri s = true) : f.Holds (.text s)
  | reference {s : String} (kind : f.kind = .reference) (form : isReference s = true) :
      f.Holds (.text s)
  | instant {i : Instant} (kind : f.kind = .instant) : f.Holds (.instant i)
  | interval {i : TimeInterval} (kind : f.kind = .interval) : f.Holds (.interval i)
  | intervals {is : List TimeInterval} (kind : f.kind = .interval) : f.Holds (.intervals is)
  | tuple {shape : TupleShape} {xs : List Double} (kind : f.kind = .tuple shape)
      (fixed : f.interpolatable = false) (value : shape.Admits xs) : f.Holds (.numbers xs)
  | tuples {shape : TupleShape} {s : Samples} (kind : f.kind = .tuple shape)
      (varies : f.interpolatable = true) (values : s.Canonical shape.Admits) : f.Holds (.samples s)
  | list {shape : ListShape} {xs : List Double} (kind : f.kind = .list shape)
      (value : shape.Admits xs) : f.Holds (.numbers xs)
  | member {e : Enumeration} {raw : String} (kind : f.kind = .enumerated e)
      (mem : raw ∈ e.rawValues) : f.Holds (.text raw)

inductive Value.IsProperty : Value → Prop
  | bool (b : Bool) : IsProperty (.bool b)
  | number {x : Double} (finite : x.isFinite = true) : IsProperty (.number x)
  | text (s : String) : IsProperty (.text s)
  | numbers {xs : List Double} (finite : ∀ x ∈ xs, x.isFinite = true) : IsProperty (.numbers xs)
  | instant (i : Instant) : IsProperty (.instant i)
  | interval (i : TimeInterval) : IsProperty (.interval i)
  | intervals (is : List TimeInterval) : IsProperty (.intervals is)

inductive Place where
  /-- An object on its own. -/
  | root
  | slot (f : Field)
  /-- In a field, or over an interval in that field. -/
  | plain (f : Field)
  /-- In a bag of custom properties. -/
  | property

/-- Values that are canonical at a place, with everything inside them. Objects are of the registry's
classes and have one slot for each field; raw JSON is as `raw` says. -/
inductive Canonical (r : Registry) (raw : Json Number → Prop) : Place → Value → Prop
  | object {o : Object} (cls : r.class? o.cls.name = some o.cls)
      (slots : o.slots.length = o.cls.fields.length)
      (values : ∀ e ∈ o.entries, Canonical r raw (.slot e.1) e.2) :
      Canonical r raw .root (.object o)
  | plain {f : Field} {v : Value} (value : Canonical r raw (.plain f) v) :
      Canonical r raw (.slot f) v
  | timed {f : Field} {t : Timed} (key : t.key = f.intervalKey)
      (alone : ∀ o, t.value = .object o → o.isSet "interval" = false)
      (value : Canonical r raw (.plain f) t.value) : Canonical r raw (.slot f) (.timed t)
  | timedList {f : Field} {ts : List Timed}
      (entries : ∀ t ∈ ts, Canonical r raw (.slot f) (.timed t)) :
      Canonical r raw (.slot f) (.timedList ts)
  | held {f : Field} {v : Value} (holds : f.Holds v) : Canonical r raw (.plain f) v
  | nested {f : Field} {o : Object} (kind : f.kind = .nested o.cls.name)
      (value : Canonical r raw .root (.object o)) : Canonical r raw (.plain f) (.object o)
  | bag {f : Field} {entries : List (String × Value)} (kind : f.kind = .properties)
      (value : Canonical r raw .property (.properties entries)) :
      Canonical r raw (.plain f) (.properties entries)
  | map {f : Field} {tree : Json Number} (kind : f.kind = .properties)
      (form : tree.isObject = true) (holds : raw tree) : Canonical r raw (.plain f) (.json tree)
  | property {v : Value} (form : v.IsProperty) : Canonical r raw .property v
  | propertyObject {o : Object} (value : Canonical r raw .root (.object o)) :
      Canonical r raw .property (.object o)
  | propertyBag {entries : List (String × Value)} (names : (entries.map (·.1)).Nodup)
      (values : ∀ e ∈ entries, Canonical r raw .property e.2) :
      Canonical r raw .property (.properties entries)
  | propertyTree {tree : Json Number} (holds : raw tree) : Canonical r raw .property (.json tree)

section Conversion

variable {r : Registry} {raw : Json Number → Prop}

theorem Field.tagged_eq_ok {samples : List Sample} {admits : List Double → Prop}
    {valuesOk : List Double → Except ValueError Unit}
    (hok : ∀ xs, valuesOk xs = .ok () ↔ admits xs) (h : f.tagged samples valuesOk = .ok v) :
    f.interpolatable = true ∧ ∃ s, v = .samples s ∧ s.Canonical admits := by
  obtain ⟨varies, nonempty, hall, rfl⟩ := tagged_eq_ok_iff.mp h
  exact ⟨varies, _, rfl, .tagged nonempty (fun s hs => (hall s hs).1)
    (fun s hs => (hok s.values).mp (hall s hs).2)⟩

theorem Field.tuple_eq_ok {shape : TupleShape} {xs : List Double} (kind : f.kind = .tuple shape)
    (h : f.tuple shape xs = .ok v) : f.Holds v := by
  unfold tuple at h
  split at h
  · obtain ⟨hadmits, rfl⟩ := check_map_eq_ok.mp h
    rw [TupleShape.check_eq_ok] at hadmits
    cases hvary : f.interpolatable with
    | true => exact .tuples kind hvary (.constant hadmits)
    | false => exact .tuple kind hvary hadmits
  · split at h
    · cases h
    · rename_i varies
      obtain ⟨s, hs, h⟩ := bind_eq_ok.mp h
      obtain ⟨samples, rfl, nonempty, hsamples⟩ := Samples.ofFlat_eq_ok hs
      obtain ⟨hall, rfl⟩ := check_map_eq_ok.mp h
      rw [Sample.checkAll_eq_ok] at hall
      exact .tuples kind (by simpa using varies) (.tagged nonempty (fun s hs => (hall s hs).1)
        fun s hs => TupleShape.check_eq_ok.mp (hall s hs).2)

theorem Field.member_eq_ok {e : Enumeration} {s : String} (kind : f.kind = .enumerated e)
    (h : Field.member e s = .ok v) : f.Holds v := by
  unfold member at h
  split at h
  · rename_i hmem
    cases h
    exact .member kind (by simpa [Enumeration.contains] using hmem)
  · cases h

/-- A flat list of times and numbers. -/
theorem Samples.ofFlat_canonical {xs : List Double} {s : Samples}
    (finite : ∀ x ∈ xs, x.isFinite = true) (h : Samples.ofFlat xs 1 = .ok s) :
    s.Canonical IsScalar := by
  obtain ⟨samples, rfl, nonempty, hsamples⟩ := Samples.ofFlat_eq_ok h
  refine .tagged nonempty (fun t ht => (hsamples t ht).1) fun t ht => ?_
  obtain ⟨_, hlen, hmem⟩ := hsamples t ht
  obtain ⟨x, hx⟩ := List.length_eq_one_iff.mp hlen
  exact ⟨x, hx, finite x (hmem x (by simp [hx]))⟩

/-- What an input carries may stand where objects are built and raw JSON is as it should be. -/
structure Input.Carries (r : Registry) (raw : Json Number → Prop) (input : Input) : Prop where
  objects : ∀ o ∈ input.objects, Canonical r raw .root (.object o)
  trees : ∀ tree ∈ input.trees, raw tree

namespace Input

theorem Carries.timed {period : TimeInterval} {input : Input}
    (h : Input.Carries r raw (.timed period input)) : input.Carries r raw := by
  obtain ⟨objects, trees⟩ := h
  simp only [Input.objects, Input.trees, Input.parts, List.filterMap_cons_none] at objects trees
  exact ⟨objects, trees⟩

theorem Carries.timedList {entries : List (TimeInterval × Input)}
    (h : Input.Carries r raw (.timedList entries)) : ∀ e ∈ entries, e.2.Carries r raw := by
  obtain ⟨objects, trees⟩ := h
  simp only [Input.objects, Input.trees, parts_timedList, List.filterMap_cons_none,
    List.filterMap_flatMap, List.mem_flatMap] at objects trees
  exact fun e he => ⟨fun o ho => objects o ⟨e, he, ho⟩, fun t ht => trees t ⟨e, he, ht⟩⟩

theorem Carries.properties {entries : List (String × Input)}
    (h : Input.Carries r raw (.properties entries)) : ∀ e ∈ entries, e.2.Carries r raw := by
  obtain ⟨objects, trees⟩ := h
  simp only [Input.objects, Input.trees, parts_properties, List.filterMap_cons_none,
    List.filterMap_flatMap, List.mem_flatMap] at objects trees
  exact fun e he => ⟨fun o ho => objects o ⟨e, he, ho⟩, fun t ht => trees t ⟨e, he, ht⟩⟩

/-- A bag has the names it was given, each once, and a value for each. -/
theorem customEntries_eq_ok {seen : List String} {entries : List (String × Input)}
    {values : List (String × Value)} (h : customEntries seen entries = .ok values) :
    values.map (·.1) = entries.map (·.1) ∧ (values.map (·.1)).Nodup ∧
      (∀ e ∈ values, e.1 ∉ seen) ∧ ∀ e ∈ values, ∃ d ∈ entries, d.2.custom = .ok e.2 := by
  induction entries generalizing seen values with
  | nil =>
    simp only [customEntries, Except.ok.injEq] at h
    subst h
    simp
  | cons d rest ih =>
    obtain ⟨name, input⟩ := d
    simp only [customEntries] at h
    split at h
    · cases h
    · rename_i hfresh
      simp only [bind_eq_ok, except_pure, Except.ok.injEq] at h
      obtain ⟨value, hvalue, tail, htail, rfl⟩ := h
      obtain ⟨hnames, hnodup, hseen, hvalues⟩ := ih htail
      refine ⟨by simp [hnames], ?_, ?_, ?_⟩
      · refine List.nodup_cons.mpr ⟨fun hm => ?_, hnodup⟩
        obtain ⟨e, he, heq⟩ := List.mem_map.mp hm
        exact hseen e he (by simp [heq])
      · refine List.forall_mem_cons.mpr ⟨by simpa using hfresh, fun e he hm => ?_⟩
        exact hseen e he (List.mem_cons_of_mem name hm)
      · refine List.forall_mem_cons.mpr ⟨⟨_, List.mem_cons_self, hvalue⟩, fun e he => ?_⟩
        obtain ⟨d, hd, hcustom⟩ := hvalues e he
        exact ⟨d, List.mem_cons_of_mem _ hd, hcustom⟩

/-- A bag whose inputs all have canonical values is canonical. -/
theorem customEntries_canonical {entries : List (String × Input)} {values : List (String × Value)}
    (each : ∀ e ∈ entries, ∀ v, e.2.custom = .ok v → Canonical r raw .property v)
    (h : customEntries [] entries = .ok values) :
    Canonical r raw .property (.properties values) := by
  obtain ⟨_, names, _, hvalues⟩ := customEntries_eq_ok h
  refine .propertyBag names fun e he => ?_
  obtain ⟨d, hd, hcustom⟩ := hvalues e he
  exact each d hd e.2 hcustom

/-- The value of a custom property is canonical. -/
theorem custom_canonical {input : Input} (carries : input.Carries r raw) :
    ∀ v, input.custom = .ok v → Canonical r raw .property v := by
  induction input with
  | bool b | text s | instant i | interval i | intervals is | member e raw =>
    intro v h
    simp only [custom, Except.ok.injEq] at h
    subst h
    exact .property (by constructor)
  | number x =>
    intro v h
    simp only [custom, check_map_eq_ok, checkFinite_eq_ok] at h
    obtain ⟨finite, rfl⟩ := h
    exact .property (.number (by simpa using finite))
  | numbers xs =>
    intro v h
    simp only [custom, check_map_eq_ok, checkFinite_eq_ok] at h
    obtain ⟨finite, rfl⟩ := h
    exact .property (.numbers finite)
  | samples s | timed period input _ | timedList entries _ =>
    intro v h
    simp [custom] at h
  | object o =>
    intro v h
    simp only [custom, Except.ok.injEq] at h
    subst h
    exact .propertyObject (carries.objects o (by simp [objects, parts]))
  | properties entries ih =>
    intro v h
    simp only [custom, map_eq_ok] at h
    obtain ⟨values, h, rfl⟩ := h
    exact customEntries_canonical (fun e he => ih e he (carries.properties e he)) h
  | json tree =>
    intro v h
    simp only [custom, Except.ok.injEq] at h
    subst h
    exact .propertyTree (carries.trees tree (by simp [trees, parts]))

end Input

namespace Field

/-- What a field stores of an input without interval: a value without parts that it may hold, or the
object, the bag of properties or the raw JSON that was given. -/
inductive Stores (f : Field) : Input → Value → Prop
  | held {input : Input} {v : Value} (holds : f.Holds v) : Stores f input v
  | nested {o : Object} (kind : f.kind = .nested o.cls.name) : Stores f (.object o) (.object o)
  | bag {entries : List (String × Input)} {values : List (String × Value)}
      (kind : f.kind = .properties) (converts : Input.customEntries [] entries = .ok values) :
      Stores f (.properties entries) (.properties values)
  | map {tree : Json Number} (kind : f.kind = .properties) (form : tree.isObject = true) :
      Stores f (.json tree) (.json tree)

theorem convertPlain_stores {input : Input} (h : f.convertPlain input = .ok v) :
    f.Stores input v := by
  unfold convertPlain at h
  split at h
  · rename_i kind
    cases h
    exact .held (.boolean kind)
  · rename_i x kind
    simp only [check_map_eq_ok, checkFinite_eq_ok, List.mem_singleton, forall_eq] at h
    obtain ⟨finite, rfl⟩ := h
    cases hvary : f.interpolatable with
    | true => exact .held (.numbers kind hvary (.constant ⟨x, rfl, finite⟩))
    | false => exact .held (.number kind hvary finite)
  · rename_i xs kind
    split at h
    · rename_i varies
      rw [check_bind_eq_ok, checkFinite_eq_ok] at h
      obtain ⟨finite, h⟩ := h
      simp only [bind_eq_ok, except_pure, Except.ok.injEq] at h
      obtain ⟨s, hs, rfl⟩ := h
      exact .held (.numbers kind varies (Samples.ofFlat_canonical finite hs))
    · cases h
  · rename_i kind
    obtain ⟨varies, s, rfl, hs⟩ := tagged_eq_ok (fun _ => checkScalar_eq_ok) h
    exact .held (.numbers kind varies hs)
  · rename_i kind
    cases h
    exact .held (.text kind)
  · rename_i kind
    split at h
    · rename_i form
      cases h
      exact .held (.uri kind form)
    · cases h
  · rename_i kind
    split at h
    · rename_i form
      cases h
      exact .held (.reference kind form)
    · cases h
  · rename_i kind
    cases h
    exact .held (.instant kind)
  · rename_i kind
    obtain ⟨i, _, rfl⟩ := map_eq_ok.mp h
    exact .held (.instant kind)
  · rename_i kind
    cases h
    exact .held (.interval kind)
  · rename_i kind
    obtain ⟨i, _, rfl⟩ := map_eq_ok.mp h
    exact .held (.interval kind)
  · rename_i kind
    cases h
    exact .held (.intervals kind)
  · rename_i kind
    exact .held (tuple_eq_ok kind h)
  · rename_i kind
    obtain ⟨varies, s, rfl, hs⟩ := tagged_eq_ok (fun _ => TupleShape.check_eq_ok) h
    exact .held (.tuples kind varies hs)
  · rename_i kind
    obtain ⟨admits, rfl⟩ := check_map_eq_ok.mp h
    exact .held (.list kind (ListShape.check_eq_ok.mp admits))
  · rename_i kind
    split at h
    · exact .held (member_eq_ok kind h)
    · cases h
  · rename_i kind
    exact .held (member_eq_ok kind h)
  · rename_i o kind
    split at h
    · rename_i name
      cases h
      exact .nested (by rw [name, kind])
    · cases h
  · rename_i entries kind
    obtain ⟨values, hvalues, rfl⟩ := map_eq_ok.mp h
    exact .bag kind hvalues
  · rename_i tree kind
    split at h
    · rename_i form
      cases h
      exact .map kind form
    · cases h
  · cases h

/-- A field's value without interval is canonical, whatever its kind. -/
theorem convertPlain_canonical {input : Input} (carries : input.Carries r raw)
    (h : f.convertPlain input = .ok v) : Canonical r raw (.plain f) v := by
  cases convertPlain_stores h with
  | held holds => exact .held holds
  | @nested o kind =>
    exact .nested kind (carries.objects o (by simp [Input.objects, Input.parts]))
  | bag kind converts =>
    refine .bag kind (Input.customEntries_canonical (fun e he => ?_) converts)
    exact Input.custom_canonical (carries.properties e he)
  | @map tree kind form =>
    exact .map kind form (carries.trees tree (by simp [Input.trees, Input.parts]))

/-- The value of one interval has the field's key, and an object in it no interval of its own. -/
theorem convertTimed_canonical {period : TimeInterval} {input : Input} {t : Timed}
    (carries : input.Carries r raw) (h : f.convertTimed period input = .ok t) :
    Canonical r raw (.slot f) (.timed t) := by
  unfold convertTimed at h
  split at h
  · cases h
  · cases h
  · obtain ⟨value, hvalue, h⟩ := bind_eq_ok.mp h
    have hplain := convertPlain_canonical carries hvalue
    split at h
    · rename_i o
      split at h
      · cases h
      · rename_i alone
        cases h
        refine .timed rfl (fun other ho => ?_) hplain
        cases ho
        simpa using alone
    · rename_i hobject
      cases h
      exact .timed rfl (fun other ho => absurd ho (hobject other)) hplain

theorem convertTimedList_canonical {entries : List (TimeInterval × Input)} {ts : List Timed}
    (carries : ∀ e ∈ entries, e.2.Carries r raw) (h : f.convertTimedList entries = .ok ts) :
    ∀ t ∈ ts, Canonical r raw (.slot f) (.timed t) := by
  induction entries generalizing ts with
  | nil =>
    cases h
    simp
  | cons e rest ih =>
    obtain ⟨period, input⟩ := e
    simp only [convertTimedList, bind_eq_ok, except_pure, Except.ok.injEq] at h
    obtain ⟨t, ht, tail, htail, rfl⟩ := h
    obtain ⟨hfirst, hrest⟩ := List.forall_mem_cons.mp carries
    exact List.forall_mem_cons.mpr ⟨convertTimed_canonical hfirst ht, ih hrest htail⟩

/-- What a field stores of an input is canonical. -/
theorem convert_canonical {input : Input} (carries : input.Carries r raw)
    (h : f.convert input = .ok v) : Canonical r raw (.slot f) v := by
  unfold convert at h
  split at h
  · obtain ⟨t, ht, rfl⟩ := map_eq_ok.mp h
    exact convertTimed_canonical carries.timed ht
  · obtain ⟨ts, hts, rfl⟩ := map_eq_ok.mp h
    exact .timedList (convertTimedList_canonical carries.timedList hts)
  · exact .plain (convertPlain_canonical carries h)

end Field

theorem DefaultValue.Gives.carries {d : DefaultValue} {input : Input} (h : d.Gives input) :
    input.Carries r raw := by
  cases h <;> constructor <;> simp [Input.objects, Input.trees, Input.parts]

/-- A build keeps to the canonical form: if the objects among its inputs are canonical, so is its
result. -/
theorem Registry.build_step {cls : String} {inputs : List (String × Input)} {o : Object}
    (carries : ∀ e ∈ inputs, e.2.Carries r raw) (h : r.build cls inputs = .ok o) :
    Canonical r raw .root (.object o) := by
  obtain ⟨hcls, _, hslots⟩ := build_eq_ok.mp h
  have hname := (class?_eq_some hcls).2
  refine .object (hname ▸ hcls) hslots.length_eq.symm fun e he => ?_
  have hslot := (List.forall₂_iff_zip.mp hslots).2 (ObjectOf.mem_entries.mp he)
  cases hslot with
  | set takes converts =>
    refine Field.convert_canonical ?_ converts
    cases takes with
    | given mem _ => exact carries _ mem
    | default _ _ _ gives => exact gives.carries

/-- Everything that a registry builds is canonical. -/
theorem Registry.Built.canonical {o : Object} (h : r.Built raw o) :
    Canonical r raw .root (.object o) := by
  induction h with
  | build objects trees built ih =>
    exact Registry.build_step (fun e he => ⟨ih e he, trees e he⟩) built

end Conversion

/-- Every object that can be built is canonical, and so is everything inside it: it has one slot for
each field, and what is set is of the field's kind and lies in its domain. -/
theorem Registry.build_canonical (r : Registry) (raw : Json Number → Prop) (cls : String)
    (inputs : List (String × Input)) (o : Object)
    (objects : ∀ e ∈ inputs, ∀ x ∈ e.2.objects, r.Built raw x)
    (trees : ∀ e ∈ inputs, ∀ tree ∈ e.2.trees, raw tree) (built : r.build cls inputs = .ok o) :
    Canonical r raw .root (.object o) :=
  Built.canonical (.build objects trees built)

def Catalogue.opening : List Definition := [preamble, clock]

theorem Registry.build_canonical_clock :
    ∃ r clock o, Registry.compile Catalogue.opening = .ok r ∧
      r.build "Clock" [("multiplier", .number .one)] = .ok clock ∧
      r.build "Preamble" [("clock", .timed ⟨none, none⟩ (.object clock))] = .ok o ∧
      Canonical r (fun _ => True) .root (.object o) := by
  have run : ((Registry.compile Catalogue.opening).toOption.bind fun r =>
      (r.build "Clock" [("multiplier", .number .one)]).toOption.bind fun clock =>
        (r.build "Preamble" [("clock", .timed ⟨none, none⟩ (.object clock))]).toOption).isSome
      = true := by
    decide +kernel
  simp only [Option.isSome_iff_exists, Option.bind_eq_some_iff, toOption_eq_some] at run
  obtain ⟨o, r, hr, clock, hclock, ho⟩ := run
  refine ⟨r, clock, o, hr, hclock, ho, Registry.build_canonical r _ _ _ o ?_ ?_ ho⟩
  · intro e he x hx
    cases List.mem_singleton.mp he
    simp only [Input.objects, Input.parts, List.filterMap_cons, List.filterMap_nil,
      List.mem_singleton] at hx
    subst hx
    refine .build ?_ (fun _ _ _ _ => trivial) hclock
    simp [Input.objects, Input.parts]
  · exact fun _ _ _ _ => trivial

end SceneDoc
