import SceneDoc.Proofs.Moments
import SceneDoc.Proofs.Rendering

namespace SceneDoc

inductive Keyed {α β : Type} (R : α → β → Prop) : String × α → String × β → Prop
  | mk (key : String) {a : α} {b : β} (value : R a b) : Keyed R (key, a) (key, b)

/-- A whole number is written by its digits, and a double by a literal that it is nearest to. -/
inductive Number.WrittenAs : Number → String → Prop
  | integer (n : Int) : WrittenAs (.integer n) (toString n)
  | finite {x : Finite} {literal : String} (nearest : Double.ofLiteral literal = .finite x) :
      WrittenAs (.finite x) literal

inductive Json.WrittenAs : Json Number → Json String → Prop
  | null : WrittenAs .null .null
  | bool (b : Bool) : WrittenAs (.bool b) (.bool b)
  | number {n : Number} {literal : String} (written : n.WrittenAs literal) :
      WrittenAs (.number n) (.number literal)
  | string (s : String) : WrittenAs (.string s) (.string s)
  | array {items : List (Json Number)} {trees : List (Json String)}
      (each : List.Forall₂ WrittenAs items trees) : WrittenAs (.array items) (.array trees)
  | object {entries : List (String × Json Number)} {trees : List (String × Json String)}
      (each : List.Forall₂ (Keyed WrittenAs) entries trees) :
      WrittenAs (.object entries) (.object trees)

inductive Double.WrittenAs : Double → Json String → Prop
  | literal {x : Double} {literal : String} (nearest : Double.ofLiteral literal = x) :
      WrittenAs x (.number literal)

inductive Instant.WrittenAs : Instant → String → Prop
  | text (spelling : String) : WrittenAs (.text spelling) spelling
  | moment {m : Moment} {s : String} (written : m.WrittenAs s) : WrittenAs (.moment m) s

inductive TimeInterval.Bound (sentinel : String) : Option Instant → String → Prop
  | unbounded : Bound sentinel none sentinel
  | «at» {i : Instant} {s : String} (written : i.WrittenAs s) : Bound sentinel (some i) s

inductive TimeInterval.WrittenAs : TimeInterval → Json String → Prop
  | mk {i : TimeInterval} {start stop : String} (first : Bound "0000-00-00T00:00:00Z" i.start start)
      (last : Bound "9999-12-31T24:00:00Z" i.stop stop) :
      WrittenAs i (.string (start ++ "/" ++ stop))

inductive TimeTag.WrittenAs : TimeTag → Json String → Prop
  | «at» {i : Instant} {s : String} (written : i.WrittenAs s) : WrittenAs (.at i) (.string s)
  | seconds {x : Double} {tree : Json String} (written : x.WrittenAs tree) :
      WrittenAs (.seconds x) tree

/-- Samples follow one another in one list, each of them its time and then its values. -/
inductive Sample.Flattened : List Sample → List (Json String) → Prop
  | nil : Flattened [] []
  | cons {s : Sample} {samples : List Sample} {time : Json String} {values rest : List (Json String)}
      (tag : s.time.WrittenAs time) (each : List.Forall₂ Double.WrittenAs s.values values)
      (later : Flattened samples rest) : Flattened (s :: samples) (time :: (values ++ rest))

inductive Samples.WrittenAs : Samples → Json String → Prop
  | one {x : Double} {tree : Json String} (written : x.WrittenAs tree) :
      WrittenAs (.constant [x]) tree
  | constant {xs : List Double} {trees : List (Json String)} (several : xs.length ≠ 1)
      (each : List.Forall₂ Double.WrittenAs xs trees) : WrittenAs (.constant xs) (.array trees)
  | tagged {samples : List Sample} {trees : List (Json String)}
      (flat : Sample.Flattened samples trees) : WrittenAs (.tagged samples) (.array trees)

/-- The set fields under their names, in declared order. -/
inductive SetFields {ν : Type} : List Field → List (Option ν) → List (String × ν) → Prop
  | noFields (slots : List (Option ν)) : SetFields [] slots []
  | noSlots (fields : List Field) : SetFields fields [] []
  | unset {f : Field} {fields : List Field} {slots : List (Option ν)} {set : List (String × ν)}
      (others : SetFields fields slots set) : SetFields (f :: fields) (none :: slots) set
  | set {f : Field} {fields : List Field} {v : ν} {slots : List (Option ν)} {set : List (String × ν)}
      (others : SetFields fields slots set) :
      SetFields (f :: fields) (some v :: slots) ((f.name, v) :: set)

/-- The tree that a value is written as. Texts stand as they are, an object is the map of its set
fields, and an object that holds over an interval has the interval in front of them. -/
inductive Value.WrittenAs : Value → Json String → Prop
  | bool (b : Bool) : WrittenAs (.bool b) (.bool b)
  | number {x : Double} {tree : Json String} (written : x.WrittenAs tree) :
      WrittenAs (.number x) tree
  | text (s : String) : WrittenAs (.text s) (.string s)
  | numbers {xs : List Double} {trees : List (Json String)}
      (each : List.Forall₂ Double.WrittenAs xs trees) : WrittenAs (.numbers xs) (.array trees)
  | samples {s : Samples} {tree : Json String} (written : s.WrittenAs tree) :
      WrittenAs (.samples s) tree
  | instant {i : Instant} {s : String} (written : i.WrittenAs s) : WrittenAs (.instant i) (.string s)
  | interval {i : TimeInterval} {tree : Json String} (written : i.WrittenAs tree) :
      WrittenAs (.interval i) tree
  | intervals {is : List TimeInterval} {trees : List (Json String)}
      (each : List.Forall₂ TimeInterval.WrittenAs is trees) :
      WrittenAs (.intervals is) (.array trees)
  | object {o : Object} {set : List (String × Value)} {tree : Json String}
      (sets : SetFields o.cls.fields o.slots set) (written : WrittenAs (.properties set) tree) :
      WrittenAs (.object o) tree
  | timedObject {period : TimeInterval} {key : String} {o : Object} {stretch : Json String}
      {trees : List (String × Json String)} (interval : period.WrittenAs stretch)
      (written : WrittenAs (.object o) (.object trees)) :
      WrittenAs (.timed ⟨period, key, .object o⟩) (.object (("interval", stretch) :: trees))
  | timed {period : TimeInterval} {key : String} {v : Value} {stretch tree : Json String}
      (interval : period.WrittenAs stretch) (plain : ∀ o, v ≠ .object o) (written : WrittenAs v tree) :
      WrittenAs (.timed ⟨period, key, v⟩) (.object [("interval", stretch), (key, tree)])
  | timedList {ts : List Timed} {trees : List (Json String)}
      (each : List.Forall₂ WrittenAs (ts.map .timed) trees) : WrittenAs (.timedList ts) (.array trees)
  | properties {entries : List (String × Value)} {trees : List (String × Json String)}
      (each : List.Forall₂ (Keyed WrittenAs) entries trees) :
      WrittenAs (.properties entries) (.object trees)
  | json {raw : Json Number} {tree : Json String} (written : raw.WrittenAs tree) :
      WrittenAs (.json raw) tree

/-- The tree of an object, of a packet by its object, and of a document by its packets in order. -/
inductive Renderable.WrittenAs : Renderable → Json String → Prop
  | object {o : Object} {tree : Json String} (written : (Value.object o).WrittenAs tree) :
      WrittenAs (.object o) tree
  | packet {p : Packet} {tree : Json String} (written : (Value.object p.object).WrittenAs tree) :
      WrittenAs (.packet p) tree
  | document {d : Document} {trees : List (Json String)}
      (each : List.Forall₂ (fun p tree => (Value.object p.object).WrittenAs tree) d.packets trees) :
      WrittenAs (.document d) (.array trees)

theorem Number.literal_writtenAs (n : Number) : n.WrittenAs n.literal := by
  cases n with
  | integer n => exact .integer n
  | finite x => exact .finite (Double.ofLiteral_finite .document x)

namespace Json

/-- If the numbers of a rendering are finite, the tree with their literals is one of these. -/
def Yields (t : Json Leaf) (P : Json String → Prop) : Prop :=
  ∀ value : Json Number, t = value.map .ok → P (value.map Number.literal)

theorem Yields.imp {t : Json Leaf} {P Q : Json String → Prop} (h : t.Yields P)
    (imp : ∀ tree, P tree → Q tree) : t.Yields Q :=
  fun value hvalue => imp _ (h value hvalue)

variable {α : Type} {W : α → Json String → Prop} {g : α → Json Leaf}

theorem yields_string {P : Json String → Prop} {s : String} (h : P (.string s)) :
    (string s).Yields P := by
  intro value hvalue
  rw [map_eq_string.mp hvalue.symm]
  exact h

theorem yields_items {items : List α} (each : ∀ a ∈ items, (g a).Yields (W a))
    {values : List (Json Number)} (h : values.map (Json.map .ok) = items.map g) :
    List.Forall₂ W items (values.map (Json.map Number.literal)) := by
  induction items generalizing values with
  | nil =>
    rw [List.map_eq_nil_iff.mp h]
    exact .nil
  | cons a items ih =>
    obtain ⟨ha, hitems⟩ := List.forall_mem_cons.mp each
    obtain ⟨value, rest, rfl, hvalue, hrest⟩ := List.map_eq_cons_iff.mp h
    exact .cons (ha value hvalue.symm) (ih hitems hrest)

theorem yields_array {items : List α} {P : Json String → Prop}
    (each : ∀ a ∈ items, (g a).Yields (W a))
    (h : ∀ trees, List.Forall₂ W items trees → P (.array trees)) :
    (array (items.map g)).Yields P := by
  intro value hvalue
  obtain ⟨values, rfl, hitems⟩ := map_eq_array.mp hvalue.symm
  rw [map_array]
  exact h _ (yields_items each hitems)

theorem yields_object {entries : List (String × α)} {P : Json String → Prop}
    (each : ∀ e ∈ entries, (g e.2).Yields (W e.2))
    (h : ∀ trees, List.Forall₂ (Keyed W) entries trees → P (.object trees)) :
    (object (entries.map fun e => (e.1, g e.2))).Yields P := by
  intro value hvalue
  obtain ⟨values, rfl, hentries⟩ := map_eq_object.mp hvalue.symm
  rw [map_object]
  refine h _ ?_
  clear h hvalue
  induction entries generalizing values with
  | nil =>
    rw [List.map_eq_nil_iff.mp hentries]
    exact .nil
  | cons e entries ih =>
    obtain ⟨he, hrest⟩ := List.forall_mem_cons.mp each
    obtain ⟨value, values, rfl, hvalue, hvalues⟩ := map_entries_eq_cons.mp hentries
    exact .cons (.mk _ (he value hvalue.symm)) (ih hrest values hvalues)

/-- Raw JSON is written as it is. -/
theorem yields_raw (raw : Json Number) : (raw.map Except.ok : Json Leaf).Yields raw.WrittenAs := by
  induction raw with
  | null =>
    intro value h
    rw [map_eq_null.mp h.symm]
    exact .null
  | bool b =>
    intro value h
    rw [map_eq_bool.mp h.symm]
    exact .bool b
  | number n =>
    intro value h
    obtain ⟨n, rfl, hn⟩ := map_eq_number.mp h.symm
    cases hn
    exact .number n.literal_writtenAs
  | string s => exact yields_string (.string s)
  | array items ih =>
    rw [map_array]
    exact yields_array ih fun trees each => .array each
  | object entries ih =>
    rw [map_object]
    exact yields_object ih fun trees each => .object each

end Json

theorem Double.render_yields (x : Double) : x.render.Yields x.WrittenAs := by
  intro value h
  obtain ⟨n, rfl, hn⟩ := Json.map_eq_number.mp h.symm
  cases x with
  | finite x =>
    cases hn
    exact .literal (ofLiteral_finite .document x)
  | nan => cases hn
  | infinite negative => cases hn

theorem Instant.render_writtenAs (i : Instant) : i.WrittenAs i.render := by
  cases i with
  | text spelling => exact .text spelling
  | moment m => exact .moment m.text_writtenAs

theorem TimeInterval.render_yields (i : TimeInterval) :
    (Json.string i.render).Yields i.WrittenAs := by
  obtain ⟨start, stop⟩ := i
  refine Json.yields_string (.mk ?_ ?_)
  · cases start with
    | none => exact .unbounded
    | some i => exact .at i.render_writtenAs
  · cases stop with
    | none => exact .unbounded
    | some i => exact .at i.render_writtenAs

theorem TimeTag.render_yields (t : TimeTag) : t.render.Yields t.WrittenAs := by
  cases t with
  | «at» i => exact Json.yields_string (.at i.render_writtenAs)
  | seconds x => exact x.render_yields.imp fun _ => .seconds

/-- Numbers as a list. -/
theorem Double.render_list_yields {P : Json String → Prop} (xs : List Double)
    (h : ∀ trees, List.Forall₂ Double.WrittenAs xs trees → P (.array trees)) :
    (Json.array (xs.map Double.render)).Yields P :=
  Json.yields_array (fun x _ => x.render_yields) h

theorem Sample.flattened {samples : List Sample} {values : List (Json Number)}
    (h : values.map (Json.map .ok) =
      samples.flatMap fun s => s.time.render :: s.values.map Double.render) :
    Flattened samples (values.map (Json.map Number.literal)) := by
  induction samples generalizing values with
  | nil =>
    rw [List.map_eq_nil_iff.mp h]
    exact .nil
  | cons s samples ih =>
    rw [List.flatMap_cons, List.cons_append] at h
    obtain ⟨time, rest, rfl, htime, hrest⟩ := List.map_eq_cons_iff.mp h
    obtain ⟨own, later, rfl, hown, hlater⟩ := List.map_eq_append_iff.mp hrest
    rw [List.map_cons, List.map_append]
    exact .cons (s.time.render_yields time htime.symm)
      (Json.yields_items (fun x _ => x.render_yields) hown) (ih hlater)

theorem Samples.render_yields (s : Samples) : s.render.Yields s.WrittenAs := by
  cases s with
  | constant xs =>
    match xs with
    | [x] => exact x.render_yields.imp fun _ => .one
    | [] => exact Double.render_list_yields [] fun _ each => .constant (by simp) each
    | x :: y :: rest =>
      exact Double.render_list_yields (x :: y :: rest) fun _ each => .constant (by simp) each
  | tagged samples =>
    intro value h
    obtain ⟨values, rfl, hvalues⟩ := Json.map_eq_array.mp h.symm
    rw [Json.map_array]
    exact .tagged (Sample.flattened hvalues)

theorem ObjectOf.setFields {ν : Type} (o : ObjectOf ν) :
    SetFields o.cls.fields o.slots (o.entries.map fun e => (e.1.name, e.2)) := by
  obtain ⟨cls, slots⟩ := o
  unfold entries
  dsimp only
  generalize cls.fields = fields
  induction fields generalizing slots with
  | nil => exact .noFields slots
  | cons f fields ih =>
    cases slots with
    | nil => exact .noSlots (f :: fields)
    | cons slot slots =>
      cases slot with
      | none => exact .unset (ih slots)
      | some v => exact .set (ih slots)

/-- A value is written as the tree of its form. -/
theorem Value.render_yields (v : Value) : v.render.Yields v.WrittenAs := by
  induction v with
  | bool b =>
    intro value h
    rw [Json.map_eq_bool.mp h.symm]
    exact .bool b
  | number x => exact x.render_yields.imp fun _ => .number
  | text s => exact Json.yields_string (.text s)
  | numbers xs => exact Double.render_list_yields xs fun _ each => .numbers each
  | samples s => exact s.render_yields.imp fun _ => .samples
  | instant i => exact Json.yields_string (.instant i.render_writtenAs)
  | interval i => exact i.render_yields.imp fun _ => .interval
  | intervals is =>
    exact Json.yields_array (fun i _ => i.render_yields) fun _ each => .intervals each
  | object o ih =>
    have hslots : ∀ e ∈ o.entries.map fun e => (e.1.name, e.2), e.2.render.Yields e.2.WrittenAs := by
      intro e he
      obtain ⟨d, hd, rfl⟩ := List.mem_map.mp he
      exact ih d.2 (ObjectOf.entry_slot hd)
    have h := Json.yields_object hslots fun _ each =>
      WrittenAs.object o.setFields (.properties each)
    rw [List.map_map] at h
    rw [render_object]
    exact h
  | timed t ih =>
    obtain ⟨period, key, v⟩ := t
    by_cases hv : ∃ o, v = .object o
    · obtain ⟨o, rfl⟩ := hv
      intro value h
      rw [render_timed_object] at h
      obtain ⟨entries, rfl, hentries⟩ := Json.map_eq_object.mp h.symm
      obtain ⟨stretch, rest, rfl, hstretch, hrest⟩ := Json.map_entries_eq_cons.mp hentries
      have hobject := ih (.object rest) (by rw [render_object, Json.map_object, hrest])
      rw [Json.map_object] at hobject ⊢
      exact .timedObject (period.render_yields stretch hstretch.symm) hobject
    · have plain : ∀ o, v ≠ .object o := fun o ho => hv ⟨o, ho⟩
      intro value h
      rw [render_timed_plain _ plain] at h
      obtain ⟨entries, rfl, hentries⟩ := Json.map_eq_object.mp h.symm
      obtain ⟨stretch, rest, rfl, hstretch, hrest⟩ := Json.map_entries_eq_cons.mp hentries
      obtain ⟨tree, none, rfl, htree, hnone⟩ := Json.map_entries_eq_cons.mp hrest
      rw [List.map_eq_nil_iff.mp hnone, Json.map_object]
      exact .timed (period.render_yields stretch hstretch.symm) plain (ih tree htree.symm)
  | timedList ts ih =>
    have hentries : ∀ v ∈ ts.map timed, v.render.Yields v.WrittenAs :=
      List.forall_mem_map.mpr ih
    have h := Json.yields_array hentries fun _ each => WrittenAs.timedList each
    rw [List.map_map] at h
    rw [render_timedList]
    exact h
  | properties entries ih =>
    rw [render_properties]
    exact Json.yields_object ih fun _ each => .properties each
  | json raw => exact (Json.yields_raw raw).imp fun _ => .json

theorem Renderable.render_yields (x : Renderable) : x.render.Yields x.WrittenAs := by
  cases x with
  | object o => exact (Value.object o).render_yields.imp fun _ => .object
  | packet p => exact (Value.object p.object).render_yields.imp fun _ => .packet
  | document d =>
    exact Json.yields_array (fun p _ => (Value.object p.object).render_yields) fun _ each =>
      .document each

end SceneDoc
