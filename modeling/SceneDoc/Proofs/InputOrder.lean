import SceneDoc.Proofs.Packets

namespace SceneDoc

variable {c : ValueClass} {xs ys : List (String × Input)} {name : String}

theorem lookup_perm (perm : xs.Perm ys) (once : (xs.map (·.1)).Nodup) (name : String) :
    xs.lookup name = ys.lookup name := by
  have once' : (ys.map (·.1)).Nodup := (perm.map (·.1)).nodup_iff.mp once
  apply Option.ext
  intro input
  rw [lookup_eq_some_iff once, lookup_eq_some_iff once', perm.mem_iff]

/-- Whether a name is given does not depend on the order, even if it is given twice. -/
theorem lookup_eq_none_perm (perm : xs.Perm ys) :
    xs.lookup name = none ↔ ys.lookup name = none := by
  simp only [List.lookup_eq_none_iff, perm.mem_iff]

section Lookup

variable (same : ∀ name, xs.lookup name = ys.lookup name)
include same

theorem isDeletion_congr : isDeletion xs = isDeletion ys := by
  unfold isDeletion
  rw [same]

theorem input?_congr (deleted : Bool) (f : Field) : f.input? deleted xs = f.input? deleted ys := by
  unfold Field.input?
  rw [same]

end Lookup

/-- Slots depend on nothing but what their fields take. -/
theorem convertSlots_congr (cls : String) {dx dy : Bool} {fields : List Field}
    (same : ∀ f ∈ fields, f.input? dx xs = f.input? dy ys) :
    convertSlots cls dx xs fields = convertSlots cls dy ys fields := by
  induction fields with
  | nil => rfl
  | cons f rest ih =>
    obtain ⟨hf, hrest⟩ := List.forall_mem_cons.mp same
    simp only [convertSlots, hf, ih hrest]

namespace ValueClass

theorem Knows.perm {names others : List String} (perm : names.Perm others) (h : c.Knows names) :
    c.Knows others :=
  ⟨fun name hname => h.fields name (perm.mem_iff.mpr hname), perm.nodup_iff.mp h.once⟩

theorem knows_append_one {names : List String} :
    c.Knows (names ++ [name]) ↔
      c.Knows names ∧ name ∉ names ∧ ∃ f ∈ c.fields, f.name = name := by
  constructor
  · intro h
    obtain ⟨fields, once⟩ := h
    have hnodup := List.nodup_append.mp once
    refine ⟨⟨fun n hn => fields n (List.mem_append_left _ hn), hnodup.1⟩, fun hmem => ?_,
      fields name (by simp)⟩
    exact hnodup.2.2 name hmem name (by simp) rfl
  · intro h
    obtain ⟨⟨fields, once⟩, hmem, hfield⟩ := h
    constructor
    · intro n hn
      rcases List.mem_append.mp hn with hn | hn
      · exact fields n hn
      · cases List.mem_singleton.mp hn
        exact hfield
    · apply List.nodup_append.mpr
      refine ⟨once, by simp, fun n hn other hother heq => ?_⟩
      rw [List.mem_singleton] at hother
      exact hmem (hother ▸ heq ▸ hn)

/-- A name is reported that is no field of the class or is given again. -/
inductive Misnames {α : Type} (c : ValueClass) : Except Error α → Prop
  | unknown (name : String) : c.Misnames (.error (.unknownField c.name name))
  | repeated (name : String) : c.Misnames (.error (.duplicateField c.name name))

/-- Two results from inputs of these names are the same if the names are all right, and otherwise both
report a name. -/
structure Agree {α : Type} (c : ValueClass) (names : List String) (x y : Except Error α) : Prop where
  same : c.Knows names → x = y
  misnamed : ¬ c.Knows names → c.Misnames x ∧ c.Misnames y

theorem build_misnames (h : ¬ c.Knows (xs.map (·.1))) : c.Misnames (c.build xs) := by
  cases hnames : c.checkNames [] (xs.map (·.1)) with
  | ok u => exact absurd (checkNames_start.mp hnames) h
  | error e =>
    obtain ⟨before, name, after, hsplit, earlier, bad⟩ := checkNames_start_eq_error.mp hnames
    rw [build_eq_error.mpr (.name hsplit earlier bad)]
    cases bad with
    | unknown _ => exact .unknown name
    | repeated _ => exact .repeated name

/-- A name that is no field is reported if all names before it are right. -/
theorem build_append_unknown (names : c.Knows (xs.map (·.1)))
    (absent : ∀ f ∈ c.fields, f.name ≠ name) (input : Input) :
    c.build (xs ++ [(name, input)]) = .error (.unknownField c.name name) := by
  have hsplit : (xs ++ [(name, input)]).map (·.1) = xs.map (·.1) ++ name :: [] := by
    rw [List.map_append, List.map_cons, List.map_nil]
  apply build_eq_error.mpr
  exact .name hsplit names (.unknown absent)

/-- An object does not depend on the order of its inputs. -/
theorem build_agree (perm : xs.Perm ys) : c.Agree (xs.map (·.1)) (c.build xs) (c.build ys) := by
  have hnames := perm.map (·.1)
  constructor
  · intro names
    have same := lookup_perm perm names.once
    have hslots : convertSlots c.name (isDeletion ys) xs c.fields =
        convertSlots c.name (isDeletion ys) ys c.fields :=
      convertSlots_congr c.name fun f _ => input?_congr same _ f
    unfold build
    rw [checkNames_start.mpr names, checkNames_start.mpr (names.perm hnames), isDeletion_congr same]
    simp only [hslots]
  · intro h
    exact ⟨build_misnames h, build_misnames fun names => h (names.perm hnames.symm)⟩

theorem Agree.bind {α β : Type} {names : List String} {x y : Except Error α}
    (h : c.Agree names x y) (next : α → Except Error β) :
    c.Agree names (x.bind next) (y.bind next) := by
  have misnames : ∀ z : Except Error α, c.Misnames z → c.Misnames (z.bind next) := by
    intro z hz
    cases hz with
    | unknown name => exact .unknown name
    | repeated name => exact .repeated name
  constructor
  · intro names
    rw [h.same names]
  · intro hnot
    obtain ⟨hx, hy⟩ := h.misnamed hnot
    exact ⟨misnames x hx, misnames y hy⟩

end ValueClass

namespace Registry

variable {r : Registry} {cls : String}

theorem build_agree (found : r.class? cls = some c) (perm : xs.Perm ys) :
    c.Agree (xs.map (·.1)) (r.build cls xs) (r.build cls ys) := by
  simp only [build, found]
  exact ValueClass.build_agree perm

/-- An identifier that is drawn stands behind the inputs. If the class has no such field it is
reported last, so in any order it is the same. -/
theorem identified_append_agree (found : r.class? Packet.ordinaryClass = some c) (perm : xs.Perm ys)
    (absent : xs.lookup "id" = none) (id : Input) :
    c.Agree (xs.map (·.1)) (r.identified (xs ++ [("id", id)])) (r.identified (ys ++ [("id", id)])) := by
  have longer := (build_agree found (perm.append_right [("id", id)])).bind Packet.ofObject
  rw [List.map_append] at longer
  constructor
  · intro names
    by_cases hfield : ∃ f ∈ c.fields, f.name = "id"
    · have hnew : "id" ∉ xs.map (·.1) := by
        intro hmem
        obtain ⟨e, he, hid⟩ := List.mem_map.mp hmem
        have hother := List.lookup_eq_none_iff.mp absent e he
        simp [hid] at hother
      exact longer.same (ValueClass.knows_append_one.mpr ⟨names, hnew, hfield⟩)
    · have hnone : ∀ f ∈ c.fields, f.name ≠ "id" := fun f hf hid => hfield ⟨f, hf, hid⟩
      have names' := names.perm (perm.map (·.1))
      simp only [identified, build, found, ValueClass.build_append_unknown names hnone,
        ValueClass.build_append_unknown names' hnone]
  · intro hnot
    apply longer.misnamed
    exact fun names => hnot (ValueClass.knows_append_one.mp names).1

/-- A packet does not depend on the order of its inputs, and neither does what is drawn for it. -/
theorem packet_agree (found : r.class? Packet.ordinaryClass = some c) (perm : xs.Perm ys)
    (ids : IdSource) :
    c.Agree (xs.map (·.1)) (r.packet ids xs).1 (r.packet ids ys).1 ∧
      (r.packet ids xs).2 = (r.packet ids ys).2 := by
  cases hid : xs.lookup "id" with
  | none =>
    have hid' := (lookup_eq_none_perm perm).mp hid
    rw [packet_drawn ids hid, packet_drawn ids hid']
    exact ⟨identified_append_agree found perm hid _, rfl⟩
  | some input =>
    have hgiven : ys.lookup "id" ≠ none := by
      rw [Ne, ← lookup_eq_none_perm perm, hid]
      exact nofun
    obtain ⟨other, hid'⟩ := Option.ne_none_iff_exists'.mp hgiven
    rw [packet_given ids hid, packet_given ids hid']
    exact ⟨(build_agree found perm).bind Packet.ofObject, rfl⟩

/-- Objects, packets and preambles do not depend on the order in which their inputs are given: the
result is the same, be it an object or an error, unless some name is unknown or repeated, which is
then reported in every order. -/
theorem build_perm (r : Registry) (perm : xs.Perm ys) :
    (∀ cls c, r.class? cls = some c →
      c.Agree (xs.map (·.1)) (r.build cls xs) (r.build cls ys)) ∧
    (∀ c ids, r.class? Packet.ordinaryClass = some c →
      c.Agree (xs.map (·.1)) (r.packet ids xs).1 (r.packet ids ys).1 ∧
        (r.packet ids xs).2 = (r.packet ids ys).2) ∧
    (∀ c, r.class? Packet.preambleClass = some c →
      c.Agree (xs.map (·.1)) (r.preamble xs) (r.preamble ys)) := by
  refine ⟨fun cls c found => build_agree found perm, fun c ids found => packet_agree found perm ids,
    fun c found => ?_⟩
  exact (build_agree found perm).bind Packet.ofObject

/-- It does not matter whether a deletion comes before or behind the value that it drops. -/
theorem build_perm_viewFrom :
    ∃ r c, compile [Catalogue.viewFrom] = .ok r ∧ r.class? "ViewFrom" = some c ∧
      c.Knows ["delete", "cartesian"] ∧
      [("delete", Input.bool true), ("cartesian", .text "")].Perm
        [("cartesian", .text ""), ("delete", .bool true)] ∧
      r.build "ViewFrom" [("delete", .bool true), ("cartesian", .text "")] =
        r.build "ViewFrom" [("cartesian", .text ""), ("delete", .bool true)] := by
  have run : ((compile [Catalogue.viewFrom]).toOption.bind fun r =>
      (r.class? "ViewFrom").filter fun c =>
        c.checkNames [] ["delete", "cartesian"] = .ok ()).isSome = true := by
    decide +kernel
  simp only [Option.isSome_iff_exists, Option.bind_eq_some_iff, Option.filter_eq_some_iff,
    toOption_eq_some, decide_eq_true_eq, ValueClass.checkNames_start] at run
  obtain ⟨c, r, hr, found, names⟩ := run
  have perm : [("delete", Input.bool true), ("cartesian", .text "")].Perm
      [("cartesian", .text ""), ("delete", .bool true)] := .swap _ _ _
  exact ⟨r, c, hr, found, names, perm, ((build_perm r perm).1 "ViewFrom" c found).same names⟩

end Registry
end SceneDoc
