import SceneDoc.Document.Session
import SceneDoc.Proofs.Packets

namespace SceneDoc

/-- No preamble stands behind another packet. -/
def Document.Ordered (d : Document) : Prop :=
  ∀ i p, d.packets[i]? = some p → p.isPreamble = true → i = 0

theorem Document.ofPackets_ordered {ps : List Packet} {d : Document}
    (h : Document.ofPackets ps = .ok d) : d.Ordered := by
  unfold ofPackets at h
  split at h
  · cases h
  · rename_i hnone
    cases h
    intro i p hp hpreamble
    rw [List.findIdx?_eq_none_iff] at hnone
    cases i with
    | zero => rfl
    | succ i =>
      have hmem : p ∈ ps.drop 1 := by
        apply List.mem_of_getElem? (i := i)
        rw [List.getElem?_drop, Nat.add_comm]
        exact hp
      have hother := hnone p hmem
      rw [hpreamble] at hother
      cases hother

/-- A step draws an identifier if it asks for one, or builds a packet that is given none. -/
inductive Step.Draws : Step → Prop
  | packet {inputs : List (String × Input)} (absent : inputs.lookup "id" = none) :
    Draws (.packet inputs)
  | drawId : Draws .drawId

namespace Session

variable {r : Registry} {s t : Session} {todo : Step} {answer : Except StepError Answer}

structure Sound (s : Session) : Prop where
  packets : ∀ p ∈ s.packets, p.Identified
  document : s.document.Ordered

/-- How a step may leave packets and document: with one packet more, with another document, or both
as they were. -/
inductive Leaves (s : Session) : Except StepError Answer → Session → Prop
  | added {p : Packet} (ids : IdSource) (identified : p.Identified) :
    Leaves s (.ok (.added s.packets.length p)) ⟨ids, s.packets ++ [p], s.document⟩
  | assembled {d : Document} (ids : IdSource) (ordered : d.Ordered) :
    Leaves s (.ok (.assembled d)) ⟨ids, s.packets, d⟩
  | kept {answer : Except StepError Answer} (ids : IdSource)
    (nothing : ∀ slot p, answer ≠ .ok (.added slot p)) :
    Leaves s answer ⟨ids, s.packets, s.document⟩

theorem step_packet (inputs : List (String × Input)) :
    s.step r (.packet inputs) =
      { s with ids := (r.packet s.ids inputs).2 }.add (r.packet s.ids inputs).1 := rfl

theorem add_ids (built : Except Error Packet) : (s.add built).2.ids = s.ids := by
  cases built <;> rfl

theorem add_leaves {built : Except Error Packet} (ids : IdSource)
    (identified : ∀ p, built = .ok p → p.Identified) :
    s.Leaves ({ s with ids }.add built).1 ({ s with ids }.add built).2 := by
  cases built with
  | error e => exact .kept ids (by simp [add])
  | ok p => exact .added ids (identified p rfl)

theorem assemble_leaves (slots : List Nat) : s.Leaves (s.assemble slots).1 (s.assemble slots).2 := by
  unfold assemble
  split
  · exact .kept s.ids (by simp)
  · split
    · exact .kept s.ids (by simp)
    · rename_i hd
      exact .assembled s.ids (Document.ofPackets_ordered hd)

theorem step_leaves (r : Registry) (s : Session) (todo : Step) :
    s.Leaves (s.step r todo).1 (s.step r todo).2 := by
  cases todo with
  | packet inputs =>
    rw [step_packet]
    exact add_leaves _ fun p hp => Registry.packet_identified hp
  | preamble inputs => exact add_leaves s.ids fun p hp => (Packet.bind_ofObject_eq_ok.mp hp).2
  | adopt o => exact add_leaves s.ids fun p hp => (Packet.ofObject_iff.mp hp).2
  | assemble slots => exact assemble_leaves slots
  | drawId => exact .kept s.ids.draw.2 (by simp [step])
  | fetch slot | field slot name =>
    refine .kept s.ids fun other p h => ?_
    obtain ⟨_, _, hq⟩ := map_eq_ok.mp h
    cases hq
  | find id | document => exact .kept s.ids (by simp [step])
  | compare first second =>
    refine .kept s.ids fun slot p h => ?_
    simp only [step, compare, bind_eq_ok, except_pure, Except.ok.injEq, reduceCtorEq, and_false,
      exists_false] at h

theorem assemble_ids (slots : List Nat) : (s.assemble slots).2.ids = s.ids := by
  unfold assemble
  split
  · rfl
  · split <;> rfl

/-- A step takes the source to the next identifier or leaves it as it is. -/
theorem step_ids (r : Registry) (s : Session) (todo : Step) :
    todo.Draws ∧ (s.step r todo).2.ids = s.ids.draw.2 ∨
      ¬ todo.Draws ∧ (s.step r todo).2.ids = s.ids := by
  cases todo with
  | packet inputs =>
    rw [step_packet, add_ids]
    cases given : inputs.lookup "id" with
    | none =>
      left
      rw [Registry.packet_drawn s.ids given]
      exact ⟨.packet given, rfl⟩
    | some input =>
      right
      rw [Registry.packet_given s.ids given]
      refine ⟨fun h => ?_, rfl⟩
      cases h with
      | packet absent => cases given.symm.trans absent
  | drawId => exact .inl ⟨.drawId, rfl⟩
  | preamble inputs => exact .inr ⟨nofun, add_ids _⟩
  | adopt o => exact .inr ⟨nofun, add_ids _⟩
  | assemble slots => exact .inr ⟨nofun, assemble_ids slots⟩
  | fetch slot | field slot name | find id | document | compare first second =>
    exact .inr ⟨nofun, rfl⟩

/-- Nothing changes but what a packet without an identifier has drawn. -/
structure Unchanged (s : Session) (todo : Step) (t : Session) : Prop where
  packets : t.packets = s.packets
  document : t.document = s.document
  ids : t.ids = s.ids ∨
    (∃ inputs, todo = .packet inputs ∧ inputs.lookup "id" = none) ∧ t.ids = s.ids.draw.2

theorem step_unchanged {e : StepError} (failed : (s.step r todo).1 = .error e) :
    s.Unchanged todo (s.step r todo).2 := by
  have hids := step_ids r s todo
  have hleaves := step_leaves r s todo
  rw [failed] at hleaves
  generalize hafter : (s.step r todo).2 = t at hids hleaves
  cases hleaves with
  | kept ids _ =>
    refine ⟨rfl, rfl, ?_⟩
    rcases hids with ⟨draws, hids⟩ | ⟨_, hids⟩
    · right
      cases draws with
      | @packet inputs absent => exact ⟨⟨inputs, rfl, absent⟩, hids⟩
      | drawId => cases failed
    · exact .inl hids

theorem Leaves.prefix_packets (h : s.Leaves answer t) : s.packets <+: t.packets := by
  cases h with
  | @added p _ _ => exact List.prefix_append s.packets [p]
  | assembled _ _ => exact List.prefix_rfl
  | kept _ _ => exact List.prefix_rfl

theorem Leaves.slot {slot : Nat} {p : Packet} (h : s.Leaves answer t)
    (added : answer = .ok (.added slot p)) : t.packets[slot]? = some p := by
  cases h with
  | added _ _ =>
    cases added
    simp
  | assembled _ _ => cases added
  | kept _ nothing => exact absurd added (nothing slot p)

theorem Leaves.sound (h : s.Leaves answer t) (sound : s.Sound) : t.Sound := by
  cases h with
  | added ids identified =>
    refine ⟨fun q hq => ?_, sound.document⟩
    rcases List.mem_append.mp hq with hq | hq
    · exact sound.packets q hq
    · cases List.mem_singleton.mp hq
      exact identified
  | assembled ids ordered => exact ⟨sound.packets, ordered⟩
  | kept ids _ => exact ⟨sound.packets, sound.document⟩

theorem start_sound (stem : String) : (start stem).Sound := by
  constructor
  · simp [start]
  · intro i p hp
    simp [start, Document.empty] at hp

theorem run_append (xs ys : List Step) (s : Session) :
    s.run r (xs ++ ys) =
      ((s.run r xs).1 ++ ((s.run r xs).2.run r ys).1, ((s.run r xs).2.run r ys).2) := by
  induction xs generalizing s with
  | nil => rfl
  | cons todo rest ih => simp [run, ih]

theorem length_run (steps : List Step) (s : Session) : (s.run r steps).1.length = steps.length := by
  induction steps generalizing s with
  | nil => rfl
  | cons todo rest ih => simp [run, ih]

theorem run_sound (steps : List Step) (sound : s.Sound) : (s.run r steps).2.Sound := by
  induction steps generalizing s with
  | nil => exact sound
  | cons todo rest ih => exact ih ((step_leaves r s todo).sound sound)

theorem run_prefix_packets (steps : List Step) (s : Session) :
    s.packets <+: (s.run r steps).2.packets := by
  induction steps generalizing s with
  | nil => exact List.prefix_rfl
  | cons todo rest ih => exact (step_leaves r s todo).prefix_packets.trans (ih _)

/-- What becomes of a step up to the end of a run: packets stay where they are, a packet that the step
adds stays in its slot, and if it fails it changes nothing but what a packet without an identifier has
drawn. -/
structure Keeps (r : Registry) (s : Session) (todo : Step) (final : Session) : Prop where
  packets : s.packets <+: final.packets
  added : ∀ slot p, (s.step r todo).1 = .ok (.added slot p) → final.packets[slot]? = some p
  failed : ∀ e, (s.step r todo).1 = .error e → s.Unchanged todo (s.step r todo).2

theorem keeps_run (r : Registry) (s : Session) (todo : Step) (after : List Step) :
    s.Keeps r todo (s.run r (todo :: after)).2 := by
  have hstep := step_leaves r s todo
  have hlater := run_prefix_packets (r := r) after (s.step r todo).2
  refine ⟨hstep.prefix_packets.trans hlater, fun slot p added => ?_, fun e => step_unchanged⟩
  obtain ⟨hslot, hp⟩ := List.getElem?_eq_some_iff.mp (hstep.slot added)
  rw [← hp]
  exact List.prefix_iff_getElem?.mp hlater slot hslot

/-- In a session every packet is identified and can be made again of its object, the document is
ordered, packets that were added never change, and a step that fails spends an identifier at most. -/
theorem run_keeps (r : Registry) (stem : String) (steps : List Step) :
    let final := (start stem).run r steps
    final.2.Sound ∧ (∀ p ∈ final.2.packets, Packet.ofObject p.object = .ok p) ∧
      ∀ before todo after, steps = before ++ todo :: after →
        let s := ((start stem).run r before).2
        final.1[before.length]? = some (s.step r todo).1 ∧ s.Keeps r todo final.2 := by
  intro final
  have sound : final.2.Sound := run_sound steps (start_sound stem)
  refine ⟨sound, fun p hp => Packet.ofObject_iff.mpr ⟨rfl, sound.packets p hp⟩, ?_⟩
  intro before todo after hsteps s
  have hfinal : final = (((start stem).run r before).1 ++ (s.run r (todo :: after)).1,
      (s.run r (todo :: after)).2) := by
    rw [← run_append, ← hsteps]
  constructor
  · rw [hfinal, List.getElem?_append_right (Nat.le_of_eq (length_run before _)), length_run,
      Nat.sub_self]
    rfl
  · rw [hfinal]
    exact keeps_run r s todo after

end Session
end SceneDoc
