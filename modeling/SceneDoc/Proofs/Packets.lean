import SceneDoc.Document.Packet
import SceneDoc.Proofs.Construction

namespace SceneDoc

variable {f : Field} {inputs : List (String × Input)} {r : Registry} {p : Packet}

namespace Packet

/-- An object of one of the two packet classes whose `id` is the packet's identifier. -/
structure Identified (p : Packet) : Prop where
  cls : p.object.cls.name = ordinaryClass ∨ p.object.cls.name = preambleClass
  text : p.object.get? "id" = some (.text p.id)

theorem ofObject_iff {o : Object} : ofObject o = .ok p ↔ p.object = o ∧ p.Identified := by
  constructor
  · intro h
    unfold ofObject at h
    split at h
    · cases h
    · rename_i hcls
      split at h
      · rename_i s hid
        cases h
        have hname : o.cls.name = ordinaryClass ∨ o.cls.name = preambleClass := by
          rwa [Decidable.not_and_iff_not_or_not, Decidable.not_not, Decidable.not_not] at hcls
        exact ⟨rfl, hname, by simp [id, hid]⟩
      · cases h
  · intro h
    obtain ⟨rfl, hname, hid⟩ := h
    have hcls : ¬ (p.object.cls.name ≠ ordinaryClass ∧ p.object.cls.name ≠ preambleClass) := by
      intro hother
      rcases hname with hname | hname
      · exact hother.1 hname
      · exact hother.2 hname
    simp only [ofObject, hcls, ↓reduceIte, hid]

theorem bind_ofObject_eq_ok {built : Except Error Object} :
    built.bind ofObject = .ok p ↔ built = .ok p.object ∧ p.Identified := by
  cases built with
  | error e => simp [Except.bind]
  | ok o =>
    have h : ofObject o = .ok p ↔ p.object = o ∧ p.Identified := ofObject_iff
    simpa [Except.bind, eq_comm] using h

end Packet

namespace Field

/-- A text that is stored as a text is stored as it is. -/
theorem convertPlain_eq_text {s t : String} (h : f.convertPlain (.text s) = .ok (.text t)) :
    t = s := by
  unfold convertPlain at h
  cases kind : f.kind with
  | text =>
    simp only [kind] at h
    cases h
    rfl
  | uri | reference =>
    simp only [kind] at h
    split at h
    · cases h
      rfl
    · cases h
  | instant | interval =>
    simp only [kind] at h
    obtain ⟨_, _, hv⟩ := map_eq_ok.mp h
    cases hv
  | enumerated e =>
    simp only [kind, member] at h
    split at h
    · cases h
      rfl
    · cases h
  | _ => simp [kind, mismatch] at h

end Field

namespace Registry

theorem packet_given {input : Input} (ids : IdSource) (h : inputs.lookup "id" = some input) :
    r.packet ids inputs = (r.identified inputs, ids) := by
  simp [packet, h]

theorem packet_drawn (ids : IdSource) (h : inputs.lookup "id" = none) :
    r.packet ids inputs =
      (r.identified (inputs ++ [("id", .text ids.draw.1)]), ids.draw.2) := by
  simp [packet, h]

theorem packet_identified {ids : IdSource} (built : (r.packet ids inputs).1 = .ok p) :
    p.Identified := by
  cases given : inputs.lookup "id" with
  | some input =>
    rw [packet_given ids given] at built
    exact (Packet.bind_ofObject_eq_ok.mp built).2
  | none =>
    rw [packet_drawn ids given] at built
    exact (Packet.bind_ofObject_eq_ok.mp built).2

/-- A packet that is given its identifier as a text has that identifier. -/
theorem identified_id {text : String} (built : r.identified inputs = .ok p)
    (given : ("id", Input.text text) ∈ inputs) : p.id = text := by
  obtain ⟨hbuilt, hid⟩ := Packet.bind_ofObject_eq_ok.mp built
  obtain ⟨_, valid, hslots⟩ := build_eq_ok.mp hbuilt
  obtain ⟨f, hname, he⟩ := ObjectOf.exists_entry hid.text
  have hslot := (List.forall₂_iff_zip.mp hslots).2 (ObjectOf.mem_entries.mp he)
  cases hslot with
  | @set input _ takes converts =>
    have hinput : input = .text text := by
      cases takes with
      | given mem _ =>
        rw [hname] at mem
        exact given_unique valid.names.once mem given
      | default absent _ _ _ =>
        rw [hname] at absent
        exact absurd given (absent _)
    subst hinput
    exact Field.convertPlain_eq_text converts

end Registry
end SceneDoc
