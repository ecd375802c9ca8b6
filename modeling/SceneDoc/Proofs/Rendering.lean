import SceneDoc.Proofs.Doubles
import SceneDoc.Proofs.Keys
import SceneDoc.Proofs.Reading

namespace SceneDoc

variable {r : Registry} {raw : Json Number → Prop} {f : Field}

namespace Json

def Writable (t : Json Leaf) : Prop := ∃ value : Json Number, t = value.map .ok

theorem writable_string (s : String) : (string s : Json Leaf).Writable := ⟨.string s, rfl⟩

theorem writable_array {items : List (Json Leaf)} (h : ∀ t ∈ items, t.Writable) :
    (array items).Writable := by
  suffices hitems : ∃ values : List (Json Number), items = values.map (Json.map .ok) by
    obtain ⟨values, rfl⟩ := hitems
    exact ⟨.array values, by simp⟩
  induction items with
  | nil => exact ⟨[], rfl⟩
  | cons t rest ih =>
    obtain ⟨ht, hrest⟩ := List.forall_mem_cons.mp h
    obtain ⟨value, rfl⟩ := ht
    obtain ⟨values, rfl⟩ := ih hrest
    exact ⟨value :: values, rfl⟩

theorem writable_object {entries : List (String × Json Leaf)} :
    (object entries).Writable ↔ ∀ e ∈ entries, e.2.Writable := by
  constructor
  · intro h e he
    obtain ⟨value, hvalue⟩ := h
    cases value with
    | object values =>
      simp only [map_object, Json.object.injEq] at hvalue
      subst hvalue
      obtain ⟨d, _, rfl⟩ := List.mem_map.mp he
      exact ⟨d.2, rfl⟩
    | array items => simp at hvalue
    | _ => cases hvalue
  · intro h
    suffices hentries : ∃ values : List (String × Json Number),
        entries = values.map fun e => (e.1, e.2.map .ok) by
      obtain ⟨values, rfl⟩ := hentries
      exact ⟨.object values, by simp⟩
    induction entries with
    | nil => exact ⟨[], rfl⟩
    | cons e rest ih =>
      obtain ⟨k, t⟩ := e
      obtain ⟨ht, hrest⟩ := List.forall_mem_cons.mp h
      obtain ⟨value, hvalue⟩ := ht
      obtain ⟨values, rfl⟩ := ih hrest
      exact ⟨(k, value) :: values, by simp [← hvalue]⟩

end Json

theorem Double.render_writable {x : Double} (h : x.isFinite = true) : x.render.Writable := by
  cases x with
  | finite x => exact ⟨.number (.finite x), rfl⟩
  | nan => cases h
  | infinite negative => cases h

/-- Finite numbers as a list. -/
theorem writable_doubles {xs : List Double} (h : ∀ x ∈ xs, x.isFinite = true) :
    ∀ t ∈ xs.map Double.render, t.Writable := by
  intro t ht
  obtain ⟨x, hx, rfl⟩ := List.mem_map.mp ht
  exact Double.render_writable (h x hx)

theorem TimeTag.render_writable {t : TimeTag} (h : ∀ x ∈ t.doubles, x.isFinite = true) :
    t.render.Writable := by
  cases t with
  | «at» i => exact Json.writable_string i.render
  | seconds x => exact Double.render_writable (h x (by simp [doubles]))

theorem Samples.render_writable {s : Samples} (h : ∀ x ∈ s.doubles, x.isFinite = true) :
    s.render.Writable := by
  cases s with
  | constant xs =>
    match xs with
    | [x] => exact Double.render_writable (h x (by simp [doubles]))
    | [] | _ :: _ :: _ => exact Json.writable_array (writable_doubles h)
  | tagged samples =>
    refine Json.writable_array fun t ht => ?_
    obtain ⟨s, hs, ht⟩ := List.mem_flatMap.mp ht
    have hsample : ∀ x ∈ s.time.doubles ++ s.values, x.isFinite = true := fun x hx =>
      h x (List.mem_flatMap.mpr ⟨s, hs, hx⟩)
    rcases List.mem_cons.mp ht with rfl | ht
    · exact TimeTag.render_writable fun x hx => hsample x (List.mem_append_left _ hx)
    · exact writable_doubles (fun x hx => hsample x (List.mem_append_right _ hx)) t ht

/-- An object is written if its fields are, and stays so over an interval. -/
theorem Value.render_timed_writable {t : Timed} (h : t.value.render.Writable) :
    (Value.timed t).render.Writable := by
  obtain ⟨period, key, v⟩ := t
  by_cases hv : ∃ o, v = .object o
  · obtain ⟨o, rfl⟩ := hv
    simp only [Value.render_object, Json.writable_object] at h
    rw [Value.render_timed_object, Json.writable_object]
    exact List.forall_mem_cons.mpr ⟨Json.writable_string _, h⟩
  · rw [Value.render_timed_plain _ fun o ho => hv ⟨o, ho⟩, Json.writable_object]
    simpa using ⟨Json.writable_string _, h⟩

/-- Finite numbers are all that it takes for a value to be written. -/
theorem Value.AllFinite.render_writable {v : Value} (h : v.AllFinite) : v.render.Writable := by
  induction v with
  | bool b => exact ⟨.bool b, rfl⟩
  | number x => exact Double.render_writable (h x (by simp [doubles, parts, ownDoubles]))
  | text s => exact Json.writable_string s
  | numbers xs =>
    refine Json.writable_array (writable_doubles fun x hx => h x ?_)
    simpa [doubles, parts, ownDoubles] using hx
  | samples s =>
    refine Samples.render_writable fun x hx => h x ?_
    simpa [doubles, parts, ownDoubles] using hx
  | instant i => exact Json.writable_string i.render
  | interval i => exact Json.writable_string i.render
  | intervals is =>
    refine Json.writable_array fun t ht => ?_
    obtain ⟨i, _, rfl⟩ := List.mem_map.mp ht
    exact Json.writable_string i.render
  | object o ih =>
    rw [allFinite_object] at h
    rw [render_object, Json.writable_object]
    intro e he
    obtain ⟨d, hd, rfl⟩ := List.mem_map.mp he
    exact ih d.2 (ObjectOf.entry_slot hd) (h d hd)
  | timed t ih =>
    rw [allFinite_timed] at h
    exact render_timed_writable (ih h)
  | timedList ts ih =>
    rw [allFinite_timedList] at h
    rw [render_timedList]
    refine Json.writable_array fun t ht => ?_
    obtain ⟨d, hd, rfl⟩ := List.mem_map.mp ht
    exact ih d hd (h d hd)
  | properties entries ih =>
    rw [allFinite_properties] at h
    rw [render_properties, Json.writable_object]
    intro e he
    obtain ⟨d, hd, rfl⟩ := List.mem_map.mp he
    exact ih d hd (h d hd)
  | json tree => exact ⟨tree, rfl⟩

/-- A double is written with a point or with a power of ten. -/
theorem NumberStyle.finite_point (style : NumberStyle) (x : Finite) :
    '.' ∈ (style.finite x).toList ∨ 'e' ∈ (style.finite x).toList := by
  suffices h : '.' ∈ style.magnitude x ∨ 'e' ∈ style.magnitude x by
    simp only [NumberStyle.finite, String.toList_ofList, List.mem_append]
    exact h.imp .inr .inr
  unfold magnitude
  split
  · exact .inl (by simp)
  · dsimp only
    split
    · left
      unfold positional
      split <;> simp
    · right
      simp [scientific, power]

namespace Json

/-- A null, or a number that is written without point and power of ten. -/
def isBare : Json Leaf → Bool
  | .null => true
  | .number (.ok n) => n.literal.toList.all fun c => c != '.' && c != 'e'
  | _ => false

def bare (t : Json Leaf) : List (Json Leaf) := t.parts.filter isBare

@[simp] theorem bare_string (s : String) : (string s).bare = [] := rfl

@[simp] theorem bare_array (items : List (Json Leaf)) :
    (array items).bare = items.flatMap bare := by
  rw [bare, parts_array, List.filter_cons_of_neg (by simp [isBare]), List.filter_flatMap]
  rfl

@[simp] theorem bare_object (entries : List (String × Json Leaf)) :
    (object entries).bare = entries.flatMap (·.2.bare) := by
  rw [bare, parts_object, List.filter_cons_of_neg (by simp [isBare]), List.filter_flatMap]
  rfl

def isBareLiteral : Json String → Bool
  | .null => true
  | .number literal => literal.toList.all fun c => c != '.' && c != 'e'
  | _ => false

def bareLiterals (t : Json String) : List (Json String) := t.parts.filter isBareLiteral

/-- A rendering with the literals of its numbers; none stand for doubles that are not finite. -/
def literals (t : Json Leaf) : Json String := t.map fun n => (n.toOption.map Number.literal).getD ""

theorem literals_ok (value : Json Number) :
    (value.map .ok).literals = value.map Number.literal :=
  map_map ..

/-- What is bare in a tree of numbers is bare in its text. -/
theorem bareLiterals_eq (value : Json Number) :
    (value.map Number.literal).bareLiterals = (value.map .ok).bare.map literals := by
  have each : isBareLiteral ∘ map Number.literal = isBare ∘ map .ok := by
    funext t
    cases t <;> rfl
  have both : literals ∘ map .ok = map Number.literal := funext literals_ok
  rw [bareLiterals, bare, parts_map, parts_map, List.filter_map, List.filter_map, List.map_map,
    each, both]

end Json

@[simp] theorem Double.render_bare (x : Double) : x.render.bare = [] := by
  cases x with
  | finite x =>
    have hbare : ¬ Json.isBare (.number (.ok (.finite x))) = true := by
      simp only [Json.isBare, Number.literal, List.all_eq_true, Bool.and_eq_true, bne_iff_ne]
      intro h
      rcases NumberStyle.document.finite_point x with hpoint | hpoint
      · exact (h _ hpoint).1 rfl
      · exact (h _ hpoint).2 rfl
    exact List.filter_cons_of_neg hbare
  | nan => rfl
  | infinite negative => rfl

theorem TimeTag.render_bare (t : TimeTag) : t.render.bare = [] := by
  cases t with
  | «at» i => rfl
  | seconds x => exact x.render_bare

@[simp] theorem Samples.render_bare (s : Samples) : s.render.bare = [] := by
  cases s with
  | constant xs =>
    match xs with
    | [] | [_] | _ :: _ :: _ => simp [render]
  | tagged samples =>
    simp only [render, Json.bare_array, List.flatMap_eq_nil_iff, List.mem_flatMap, List.mem_cons,
      List.mem_map]
    intro t ht
    obtain ⟨s, _, ht⟩ := ht
    rcases ht with rfl | ⟨x, _, rfl⟩
    · exact s.time.render_bare
    · exact x.render_bare

namespace Value

def trees (v : Value) : List (Json Number) :=
  v.parts.filterMap fun
    | .json tree => some tree
    | _ => none

@[simp] theorem trees_object (o : Object) :
    (object o).trees = o.entries.flatMap (·.2.trees) := by
  rw [trees, parts_object, List.filterMap_cons_none rfl, List.filterMap_flatMap]
  rfl

@[simp] theorem trees_timed (t : Timed) : (timed t).trees = t.value.trees := by
  rw [trees, parts_timed, List.filterMap_cons_none rfl]
  rfl

@[simp] theorem trees_timedList (ts : List Timed) :
    (timedList ts).trees = ts.flatMap fun t => (timed t).trees := by
  rw [trees, parts_timedList, List.filterMap_cons_none rfl, List.filterMap_flatMap]
  rfl

@[simp] theorem trees_properties (entries : List (String × Value)) :
    (properties entries).trees = entries.flatMap (·.2.trees) := by
  rw [trees, parts_properties, List.filterMap_cons_none rfl, List.filterMap_flatMap]
  rfl

/-- Nulls and whole numbers stand in raw JSON and nowhere else. -/
theorem render_bare (v : Value) :
    v.render.bare = v.trees.flatMap fun tree => (tree.map .ok).bare := by
  induction v with
  | bool b => cases b <;> rfl
  | text s | instant i | interval i => rfl
  | number x => simp [render, trees, parts]
  | numbers xs => simp [render, trees, parts]
  | samples s => simp [render, trees, parts]
  | intervals is => simp [render, trees, parts]
  | object o ih =>
    rw [render_object, Json.bare_object, trees_object, List.flatMap_map, List.flatMap_assoc]
    exact List.flatMap_congr fun e he => ih e.2 (ObjectOf.entry_slot he)
  | timed t ih =>
    obtain ⟨period, key, v⟩ := t
    rw [trees_timed, ← ih]
    by_cases hv : ∃ o, v = .object o
    · obtain ⟨o, rfl⟩ := hv
      simp [render_timed_object]
    · rw [render_timed_plain _ fun o ho => hv ⟨o, ho⟩]
      simp
  | timedList ts ih =>
    rw [render_timedList, Json.bare_array, trees_timedList, List.flatMap_map, List.flatMap_assoc]
    exact List.flatMap_congr ih
  | properties entries ih =>
    rw [render_properties, Json.bare_object, trees_properties, List.flatMap_map, List.flatMap_assoc]
    exact List.flatMap_congr ih
  | json tree => simp [render, trees, parts]

end Value

namespace Renderable

def trees (x : Renderable) : List (Json Number) :=
  x.roots.flatMap fun o => (Value.object o).trees

/-- A rendering that every format writes, with the maps of its objects, and with nulls and whole
numbers in raw JSON only. The same holds of the tree that is read back from its text. -/
structure WellWritten (x : Renderable) : Prop where
  written : ∃ value : Json Number, x.render = value.map .ok ∧
    ∀ format, x.render.render format = format.write value
  finite : ∀ format bad, x.render.render format ≠ .error (.notFinite bad)
  keys : x.render.keyLists = x.keyLists
  bare : x.render.bare = x.trees.flatMap fun tree => (tree.map .ok).bare
  read : ∀ layout : Layout, ∃ text tree, x.render.render layout.format = .ok text ∧
    Json.read? text = some tree ∧ tree.keyLists = x.keyLists ∧
    tree.bareLiterals = x.trees.flatMap fun raw => (raw.map Number.literal).bareLiterals

theorem render_writable {x : Renderable} (h : ∀ o ∈ x.roots, (Value.object o).render.Writable) :
    x.render.Writable := by
  cases x with
  | object o => exact h o (by simp [roots])
  | packet p => exact h p.object (by simp [roots])
  | document d =>
    refine Json.writable_array fun t ht => ?_
    obtain ⟨p, hp, rfl⟩ := List.mem_map.mp ht
    exact h p.object (List.mem_map.mpr ⟨p, hp, rfl⟩)

theorem render_bare (x : Renderable) :
    x.render.bare = x.trees.flatMap fun tree => (tree.map .ok).bare := by
  cases x with
  | object o => simpa [trees, roots, render, ObjectOf.render] using Value.render_bare (.object o)
  | packet p =>
    simpa [trees, roots, render, Packet.render, ObjectOf.render] using
      Value.render_bare (.object p.object)
  | document d =>
    simp only [render, Document.render, Json.bare_array, trees, roots, List.flatMap_map,
      List.flatMap_assoc]
    exact List.flatMap_congr fun p _ => Value.render_bare (.object p.object)

/-- The tree that is read back has the keys and the bare parts of the rendering. -/
theorem read_back {x : Renderable} {value : Json Number} (h : x.render = value.map .ok)
    (layout : Layout) : ∃ text tree, x.render.render layout.format = .ok text ∧
      Json.read? text = some tree ∧ tree.keyLists = x.keyLists ∧
      tree.bareLiterals = x.trees.flatMap fun raw => (raw.map Number.literal).bareLiterals := by
  obtain ⟨written, _, read⟩ := value.text_read layout
  refine ⟨_, _, h ▸ written, read, ?_, ?_⟩
  · rw [Json.keyLists_map, ← x.render_keyLists, h, Json.keyLists_map]
  · simp only [Json.bareLiterals_eq, ← h, render_bare, List.map_flatMap]

end Renderable

/-- Every number in what a registry makes is finite. -/
theorem Registry.Makes.render_writable {x : Renderable} (h : r.Makes raw x) : x.render.Writable :=
  Renderable.render_writable fun o ho => (h.built o ho).canonical.allFinite.render_writable

/-- Whatever a registry makes is well written: its numbers are finite, so that no format fails, its
maps have the names of the set fields in declared order, and it adds no null and no whole number to
the raw JSON that it was given. -/
theorem Registry.makes_wellWritten (r : Registry) (raw : Json Number → Prop) (x : Renderable)
    (made : r.Makes raw x) : x.WellWritten := by
  obtain ⟨value, hvalue⟩ := made.render_writable
  refine ⟨⟨value, hvalue, fun format => ?_⟩, fun format bad => ?_, x.render_keyLists,
    x.render_bare, Renderable.read_back hvalue⟩
  · rw [hvalue, Json.render_ok]
  · rw [hvalue, Json.render_ok]
    cases format with
    | within limit layout =>
      simp only [Format.write]
      split <;> simp
    | _ => simp [Format.write]

theorem Registry.makes_wellWritten_preamble :
    ∃ r clock p d, Registry.compile Catalogue.opening = .ok r ∧
      r.build "Clock" [("multiplier", .number .one)] = .ok clock ∧
      r.preamble [("clock", .timed ⟨none, none⟩ (.object clock))] = .ok p ∧
      Document.ofPackets [p] = .ok d ∧ (Renderable.document d).WellWritten := by
  have run : ((Registry.compile Catalogue.opening).toOption.bind fun r =>
      (r.build "Clock" [("multiplier", .number .one)]).toOption.bind fun clock =>
        (r.preamble [("clock", .timed ⟨none, none⟩ (.object clock))]).toOption.bind fun p =>
          (Document.ofPackets [p]).toOption).isSome = true := by
    decide +kernel
  simp only [Option.isSome_iff_exists, Option.bind_eq_some_iff, toOption_eq_some] at run
  obtain ⟨d, r, hr, clock, hclock, p, hp, hd⟩ := run
  refine ⟨r, clock, p, d, hr, hclock, hp, hd,
    Registry.makes_wellWritten r (fun _ => True) (.document d) (.document (fun q hq => ?_) hd)⟩
  cases List.mem_singleton.mp hq
  refine .preamble (fun e he x hx => ?_) (fun _ _ _ _ => trivial) hp
  cases List.mem_singleton.mp he
  simp only [Input.objects, Input.parts, List.filterMap_cons, List.filterMap_nil,
    List.mem_singleton] at hx
  subst hx
  refine .build ?_ (fun _ _ _ _ => trivial) hclock
  simp [Input.objects, Input.parts]

end SceneDoc
