import Mathlib.Data.List.Perm.Basic
import SceneDoc.Proofs.Canonical
import SceneDoc.Proofs.Compilation
import SceneDoc.Proofs.Sessions

namespace SceneDoc

/-- An attribute becomes one field only. -/
theorem Field.of_unique : Relator.RightUnique Field.Of := by
  intro a f g hf hg
  obtain ⟨bare, htype, rfl⟩ := hf
  obtain ⟨other, hother, rfl⟩ := hg
  rw [htype.unique hother]

/-- A definition becomes one class only. -/
theorem Definition.becomes_unique : Relator.RightUnique Definition.Becomes := by
  intro d c c' hc hc'
  obtain ⟨name, description, capabilities, fields, rules⟩ := c
  obtain ⟨name', description', capabilities', fields', rules'⟩ := c'
  obtain ⟨rfl, rfl, rfl, hfields, rfl⟩ := hc
  obtain ⟨rfl, rfl, rfl, hfields', rfl⟩ := hc'
  have same : fields = fields' := List.right_unique_forall₂' Field.of_unique hfields hfields'
  rw [same]

namespace Catalogue

variable {ds es : List Definition}

theorem Defines.perm {cls : String} (perm : ds.Perm es) (h : Defines ds cls) : Defines es cls := by
  obtain ⟨d, hd, hname⟩ := h
  exact ⟨d, perm.mem_iff.mp hd, hname⟩

/-- Being well formed is a matter of which definitions there are. -/
theorem WellFormed.perm (perm : ds.Perm es) (h : WellFormed ds) : WellFormed es where
  names := (perm.map _).nodup_iff.mp h.names
  each d hd := h.each d (perm.mem_iff.mpr hd)
  nested d hd a ha cls nests := (h.nested d (perm.mem_iff.mpr hd) a ha cls nests).perm perm

end Catalogue

namespace Registry

variable {r q : Registry} {ds es : List Definition}

section Known

variable (same : ∀ name, r.class? name = q.class? name)
include same

theorem build_known (cls : String) (inputs : List (String × Input)) :
    r.build cls inputs = q.build cls inputs := by
  unfold build
  rw [same]

theorem identified_known (inputs : List (String × Input)) :
    r.identified inputs = q.identified inputs := by
  unfold identified
  rw [build_known same]

theorem packet_known (ids : IdSource) (inputs : List (String × Input)) :
    r.packet ids inputs = q.packet ids inputs := by
  unfold packet
  simp only [identified_known same]

theorem preamble_known (inputs : List (String × Input)) : r.preamble inputs = q.preamble inputs := by
  unfold preamble
  rw [build_known same]

theorem step_known (s : Session) (todo : Step) : s.step r todo = s.step q todo := by
  cases todo with
  | packet inputs => rw [Session.step_packet, Session.step_packet, packet_known same]
  | preamble inputs => simp only [Session.step, preamble_known same]
  | _ => rfl

theorem run_known (s : Session) (steps : List Step) : s.run r steps = s.run q steps := by
  induction steps generalizing s with
  | nil => rfl
  | cons todo rest ih => simp only [Session.run, step_known same, ih]

theorem built_known {raw : Json Number → Prop} {o : Object} (h : r.Built raw o) : q.Built raw o := by
  induction h with
  | build _ trees built ih => exact .build ih trees (build_known same _ _ ▸ built)

theorem makes_known {raw : Json Number → Prop} {x : Renderable} (h : r.Makes raw x) :
    q.Makes raw x := by
  induction h with
  | object built => exact .object (built_known same built)
  | adopted built adopts => exact .adopted (built_known same built) adopts
  | packet objects trees built =>
    exact .packet (fun e he x hx => built_known same (objects e he x hx)) trees
      (packet_known same _ _ ▸ built)
  | preamble objects trees built =>
    exact .preamble (fun e he x hx => built_known same (objects e he x hx)) trees
      (preamble_known same _ ▸ built)
  | document _ assembled ih => exact .document ih assembled

end Known

/-- Registries that cannot be told apart by what they are asked for: a class, an object and its text,
a session from any state, or anything that is made of objects that were built before. -/
structure Alike (r q : Registry) : Prop where
  classes : ∀ name, r.class? name = q.class? name
  builds : ∀ cls inputs, r.build cls inputs = q.build cls inputs
  texts : ∀ cls inputs format,
    (r.build cls inputs).map (·.render.render format) =
      (q.build cls inputs).map (·.render.render format)
  runs : ∀ (s : Session) steps, s.run r steps = s.run q steps
  makes : ∀ raw x, r.Makes raw x ↔ q.Makes raw x

theorem alike_of_classes (same : ∀ name, r.class? name = q.class? name) : r.Alike q where
  classes := same
  builds := build_known same
  texts cls inputs format := by rw [build_known same]
  runs := run_known same
  makes _ _ := ⟨makes_known same, makes_known fun name => (same name).symm⟩

/-- Classes come in the order of their definitions. -/
theorem classes_perm (perm : ds.Perm es) (hr : compile ds = .ok r) (hq : compile es = .ok q) :
    r.classes.Perm q.classes := by
  obtain ⟨_, becomes⟩ := compile_eq_ok.mp hr
  obtain ⟨_, becomes'⟩ := compile_eq_ok.mp hq
  obtain ⟨classes, hclasses, hperm⟩ := List.perm_comp_forall₂ perm becomes'
  rwa [List.right_unique_forall₂' Definition.becomes_unique becomes hclasses]

theorem compile_names (h : compile ds = .ok r) : (r.classes.map (·.name)).Nodup := by
  obtain ⟨wellFormed, becomes⟩ := compile_eq_ok.mp h
  rw [map_eq_of_forall₂ becomes fun d c becomes => becomes.name]
  exact wellFormed.names

/-- Names are different, so a class is found wherever it stands. -/
theorem class?_perm (names : (r.classes.map (·.name)).Nodup) (perm : r.classes.Perm q.classes)
    (name : String) : r.class? name = q.class? name := by
  have names' := (perm.map (·.name)).nodup_iff.mp names
  apply Option.ext
  intro c
  unfold class?
  rw [find?_key_eq_some_iff names, find?_key_eq_some_iff names', perm.mem_iff]

theorem exists_compile_perm (perm : ds.Perm es) (h : ∃ r, compile ds = .ok r) :
    ∃ q, compile es = .ok q := by
  obtain ⟨r, hr⟩ := h
  have wellFormed := (compile_eq_ok.mp hr).1.perm perm
  obtain ⟨classes, becomes⟩ :=
    exists_forall₂_iff.mpr fun d hd => (wellFormed.each d hd).exists_becomes
  exact ⟨⟨classes⟩, compile_eq_ok.mpr ⟨wellFormed, becomes⟩⟩

/-- Definitions in another order compile exactly if they compile as they are, and then to the same
classes in that order, in a registry that is alike. -/
theorem compile_perm (perm : ds.Perm es) :
    ((∃ r, compile ds = .ok r) ↔ ∃ q, compile es = .ok q) ∧
    ∀ r q, compile ds = .ok r → compile es = .ok q → r.classes.Perm q.classes ∧ r.Alike q := by
  refine ⟨⟨exists_compile_perm perm, exists_compile_perm perm.symm⟩, fun r q hr hq => ?_⟩
  have classes := classes_perm perm hr hq
  exact ⟨classes, alike_of_classes (class?_perm (compile_names hr) classes)⟩

/-- A preamble may be defined before the clock that it holds or behind it. -/
theorem compile_perm_opening :
    ∃ r q, Catalogue.opening.Perm Catalogue.opening.reverse ∧
      compile Catalogue.opening = .ok r ∧ compile Catalogue.opening.reverse = .ok q ∧
      r.classes ≠ q.classes ∧ r.class? "Preamble" = q.class? "Preamble" ∧
      r.build "Preamble" [] = q.build "Preamble" [] := by
  have run : ((compile Catalogue.opening).toOption.bind fun r =>
      (compile Catalogue.opening.reverse).toOption.filter fun q =>
        r.classes ≠ q.classes).isSome = true := by
    decide +kernel
  simp only [Option.isSome_iff_exists, Option.bind_eq_some_iff, Option.filter_eq_some_iff,
    toOption_eq_some, decide_eq_true_eq] at run
  obtain ⟨q, r, hr, hq, hne⟩ := run
  have perm : Catalogue.opening.Perm Catalogue.opening.reverse := (List.reverse_perm _).symm
  have alike := ((compile_perm perm).2 r q hr hq).2
  exact ⟨r, q, perm, hr, hq, hne, alike.classes "Preamble", alike.builds "Preamble" []⟩

end Registry
end SceneDoc
