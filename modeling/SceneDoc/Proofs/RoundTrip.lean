import SceneDoc.Proofs.WrittenTrees

namespace SceneDoc

def Renderable.AllFinite (x : Renderable) : Prop := ∀ o ∈ x.roots, (Value.object o).AllFinite

/-- A JSON text of this tree and of no other, which is read as the tree. Between the brackets of a list
or a map without entries there is nothing. -/
structure Json.IsReadFrom (tree : Json String) (text : String) : Prop where
  isText : ∀ other, JsonGrammar.IsText other text ↔ other = tree
  read : Json.read? text = some tree
  emptyArray : tree = .array [] → text = "[]"
  emptyObject : tree = .object [] → text = "\x7b\x7d"

/-- Every layout writes the rendering as a text from which the tree is read, with the literals of the
rendering's numbers. -/
def Json.RoundTrips (t : Json Leaf) (tree : Json String) : Prop :=
  ∃ value : Json Number, t = value.map .ok ∧ tree = value.map Number.literal ∧
    ∀ layout : Layout, ∃ text, t.render layout.format = .ok text ∧ tree.IsReadFrom text

theorem Json.isReadFrom_text (value : Json Number) (layout : Layout) :
    (value.map Number.literal).IsReadFrom (value.text layout) := by
  obtain ⟨_, isText, read⟩ := value.text_read layout
  refine ⟨fun other => ⟨fun h => isText_unique h isText, fun h => h ▸ isText⟩, read,
    fun empty => ?_, fun empty => ?_⟩
  · obtain ⟨items, rfl, hitems⟩ := map_eq_array.mp empty
    rw [List.map_eq_nil_iff.mp hitems]
    cases layout <;> rfl
  · obtain ⟨entries, rfl, hentries⟩ := map_eq_object.mp empty
    rw [List.map_eq_nil_iff.mp hentries]
    cases layout <;> rfl

theorem Json.Writable.roundTrips {t : Json Leaf} {P : Json String → Prop} (writable : t.Writable)
    (yields : t.Yields P) : ∃ tree, P tree ∧ t.RoundTrips tree := by
  obtain ⟨value, rfl⟩ := writable
  exact ⟨_, yields value rfl, value, rfl, rfl, fun layout =>
    ⟨_, (value.text_read layout).1, value.isReadFrom_text layout⟩⟩

/-- Values, objects, packets and documents of finite numbers are written as JSON texts, from which the
trees of their forms are read back. -/
theorem render_roundTrips :
    (∀ v : Value, v.AllFinite → ∃ tree, v.WrittenAs tree ∧ v.render.RoundTrips tree) ∧
    (∀ x : Renderable, x.AllFinite → ∃ tree, x.WrittenAs tree ∧ x.render.RoundTrips tree) := by
  refine ⟨fun v finite => finite.render_writable.roundTrips v.render_yields, fun x finite => ?_⟩
  have writable : x.render.Writable :=
    Renderable.render_writable fun o ho => (finite o ho).render_writable
  exact writable.roundTrips x.render_yields

theorem render_roundTrips_opening :
    (∃ tree, (Value.properties [("\"\\\n\x01é", .text "\t"), ("none", .numbers []),
        ("samples", .samples (.tagged [⟨.seconds .one, [.zero]⟩]))]).WrittenAs tree ∧
      (Value.properties [("\"\\\n\x01é", .text "\t"), ("none", .numbers []),
        ("samples", .samples (.tagged [⟨.seconds .one, [.zero]⟩]))]).render.RoundTrips tree) ∧
    ∃ r clock p d tree, Registry.compile Catalogue.opening = .ok r ∧
      r.build "Clock" [("multiplier", .number .one)] = .ok clock ∧
      r.preamble [("clock", .timed ⟨none, none⟩ (.object clock))] = .ok p ∧
      Document.ofPackets [p] = .ok d ∧ (Renderable.document d).WrittenAs tree ∧
      (Renderable.document d).render.RoundTrips tree := by
  have run : ((Registry.compile Catalogue.opening).toOption.bind fun r =>
      (r.build "Clock" [("multiplier", .number .one)]).toOption.bind fun clock =>
        (r.preamble [("clock", .timed ⟨none, none⟩ (.object clock))]).toOption.bind fun p =>
          (Document.ofPackets [p]).toOption.filter fun d =>
            (Renderable.document d).roots.all fun o =>
              (Value.object o).doubles.all (·.isFinite)).isSome = true := by
    decide +kernel
  simp only [Option.isSome_iff_exists, Option.bind_eq_some_iff, Option.filter_eq_some_iff,
    toOption_eq_some, List.all_eq_true] at run
  obtain ⟨d, r, hr, clock, hclock, p, hp, hd, finite⟩ := run
  obtain ⟨tree, written, roundTrips⟩ := render_roundTrips.2 (.document d) finite
  refine ⟨render_roundTrips.1 _ ?_, r, clock, p, d, tree, hr, hclock, hp, hd, written, roundTrips⟩
  simp only [Value.AllFinite, ← List.all_eq_true]
  decide +kernel

end SceneDoc
