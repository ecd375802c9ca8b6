import SceneDoc.Document.Assembly
import SceneDoc.Proofs.Values

namespace SceneDoc

namespace Input

/-- Induction over an input, with the hypothesis at every interval and property. -/
@[elab_as_elim, induction_eliminator]
theorem induct {P : Input → Prop}
    (bool : ∀ b, P (.bool b)) (number : ∀ x, P (.number x)) (text : ∀ s, P (.text s))
    (numbers : ∀ xs, P (.numbers xs)) (samples : ∀ s, P (.samples s))
    (instant : ∀ i, P (.instant i)) (interval : ∀ i, P (.interval i))
    (intervals : ∀ is, P (.intervals is)) (member : ∀ e raw, P (.member e raw))
    (object : ∀ o, P (.object o))
    (timed : ∀ period input, P input → P (.timed period input))
    (timedList : ∀ entries, (∀ e ∈ entries, P e.2) → P (.timedList entries))
    (properties : ∀ entries, (∀ e ∈ entries, P e.2) → P (.properties entries))
    (json : ∀ tree, P (.json tree)) : ∀ input, P input
  | .bool b => bool b
  | .number x => number x
  | .text s => text s
  | .numbers xs => numbers xs
  | .samples s => samples s
  | .instant i => instant i
  | .interval i => interval i
  | .intervals is => intervals is
  | .member e raw => member e raw
  | .object o => object o
  | .timed period input =>
    timed period input (induct bool number text numbers samples instant interval intervals member
      object timed timedList properties json input)
  | .timedList entries =>
    timedList entries fun e _ => induct bool number text numbers samples instant interval intervals
      member object timed timedList properties json e.2
  | .properties entries =>
    properties entries fun e _ => induct bool number text numbers samples instant interval
      intervals member object timed timedList properties json e.2
  | .json tree => json tree
termination_by input => input
decreasing_by
  · simp only [Input.timed.sizeOf_spec]
    omega
  · have h := List.sizeOf_lt_of_mem ‹e ∈ entries›
    obtain ⟨period, input⟩ := e
    simp only [Prod.mk.sizeOf_spec, Input.timedList.sizeOf_spec] at h ⊢
    omega
  · have h := List.sizeOf_lt_of_mem ‹e ∈ entries›
    obtain ⟨name, input⟩ := e
    simp only [Prod.mk.sizeOf_spec, Input.properties.sizeOf_spec] at h ⊢
    omega

mutual

/-- Every input inside an input, itself first. What is inside an object is no input any more. -/
def parts : Input → List Input
  | .timed period input => .timed period input :: parts input
  | .timedList entries => .timedList entries :: timedParts entries
  | .properties entries => .properties entries :: propertyParts entries
  | input => [input]

def timedParts : List (TimeInterval × Input) → List Input
  | [] => []
  | (_, input) :: rest => parts input ++ timedParts rest

def propertyParts : List (String × Input) → List Input
  | [] => []
  | (_, input) :: rest => parts input ++ propertyParts rest

end

@[simp] theorem parts_timedList (entries : List (TimeInterval × Input)) :
    (timedList entries).parts = .timedList entries :: entries.flatMap (·.2.parts) := by
  have h : timedParts entries = entries.flatMap (·.2.parts) := by
    induction entries with
    | nil => rfl
    | cons e rest ih => simp [timedParts, ih]
  simp [parts, h]

@[simp] theorem parts_properties (entries : List (String × Input)) :
    (properties entries).parts = .properties entries :: entries.flatMap (·.2.parts) := by
  have h : propertyParts entries = entries.flatMap (·.2.parts) := by
    induction entries with
    | nil => rfl
    | cons e rest ih => simp [propertyParts, ih]
  simp [parts, h]

def objects (input : Input) : List Object :=
  input.parts.filterMap fun
    | .object o => some o
    | _ => none

def trees (input : Input) : List (Json Number) :=
  input.parts.filterMap fun
    | .json tree => some tree
    | _ => none

end Input

/-- Objects that the registry builds from inputs whose objects it built before. Raw JSON among the
inputs is as `raw` says. -/
inductive Registry.Built (r : Registry) (raw : Json Number → Prop) : Object → Prop
  | build {cls : String} {inputs : List (String × Input)} {o : Object}
      (objects : ∀ e ∈ inputs, ∀ x ∈ e.2.objects, r.Built raw x)
      (trees : ∀ e ∈ inputs, ∀ t ∈ e.2.trees, raw t) (built : r.build cls inputs = .ok o) :
      r.Built raw o

inductive Renderable where
  | object (o : Object)
  | packet (p : Packet)
  | document (d : Document)

namespace Renderable

def render : Renderable → Json Leaf
  | .object o => o.render
  | .packet p => p.render
  | .document d => d.render

def roots : Renderable → List Object
  | .object o => [o]
  | .packet p => [p.object]
  | .document d => d.packets.map (·.object)

end Renderable

namespace Registry

variable {r : Registry} {raw : Json Number → Prop} {o : Object} {p : Packet}

/-- Objects, packets and documents that come from the registry. A packet is an object that was built
before, or built together with its identifier, and a document is assembled from packets. -/
inductive Makes (r : Registry) (raw : Json Number → Prop) : Renderable → Prop
  | object {o : Object} (built : r.Built raw o) : r.Makes raw (.object o)
  | adopted {o : Object} {p : Packet} (built : r.Built raw o) (adopts : Packet.ofObject o = .ok p) :
      r.Makes raw (.packet p)
  | packet {ids : IdSource} {inputs : List (String × Input)} {p : Packet}
      (objects : ∀ e ∈ inputs, ∀ x ∈ e.2.objects, r.Built raw x)
      (trees : ∀ e ∈ inputs, ∀ t ∈ e.2.trees, raw t)
      (built : (r.packet ids inputs).1 = .ok p) : r.Makes raw (.packet p)
  | preamble {inputs : List (String × Input)} {p : Packet}
      (objects : ∀ e ∈ inputs, ∀ x ∈ e.2.objects, r.Built raw x)
      (trees : ∀ e ∈ inputs, ∀ t ∈ e.2.trees, raw t) (built : r.preamble inputs = .ok p) :
      r.Makes raw (.packet p)
  | document {ps : List Packet} {d : Document} (packets : ∀ p ∈ ps, r.Makes raw (.packet p))
      (assembled : Document.ofPackets ps = .ok d) : r.Makes raw (.document d)

theorem ofObject_eq_ok (h : Packet.ofObject o = .ok p) : p.object = o := by
  unfold Packet.ofObject at h
  split at h
  · cases h
  · split at h
    · cases h
      rfl
    · cases h

theorem ofPackets_eq_ok {ps : List Packet} {d : Document} (h : Document.ofPackets ps = .ok d) :
    d.packets = ps := by
  unfold Document.ofPackets at h
  split at h
  · cases h
  · cases h
    rfl

/-- A packet built from inputs is one that was built as an object. -/
theorem Built.of_packet {cls : String} {inputs : List (String × Input)}
    (objects : ∀ e ∈ inputs, ∀ x ∈ e.2.objects, r.Built raw x)
    (trees : ∀ e ∈ inputs, ∀ t ∈ e.2.trees, raw t)
    (built : (r.build cls inputs).bind Packet.ofObject = .ok p) : r.Built raw p.object := by
  cases hb : r.build cls inputs with
  | error e =>
    rw [hb] at built
    cases built
  | ok o =>
    rw [hb] at built
    rw [ofObject_eq_ok built]
    exact .build objects trees hb

/-- Whatever the registry makes, it is made of objects that the registry built. -/
theorem Makes.built {x : Renderable} (h : r.Makes raw x) : ∀ o ∈ x.roots, r.Built raw o := by
  induction h with
  | object built => simpa [Renderable.roots] using built
  | adopted built adopts => simpa [Renderable.roots, ofObject_eq_ok adopts] using built
  | @packet ids inputs p objects trees built =>
    suffices h : r.Built raw p.object by simpa [Renderable.roots] using h
    unfold Registry.packet at built
    split at built
    · exact .of_packet objects trees built
    · -- The identifier that is added is a text, so it brings neither objects nor trees.
      refine .of_packet (fun e he x hx => ?_) (fun e he t ht => ?_) built
      · rcases List.mem_append.mp he with he | he
        · exact objects e he x hx
        · cases List.mem_singleton.mp he
          simp [Input.objects, Input.parts] at hx
      · rcases List.mem_append.mp he with he | he
        · exact trees e he t ht
        · cases List.mem_singleton.mp he
          simp [Input.trees, Input.parts] at ht
  | preamble objects trees built =>
    have h := Built.of_packet objects trees built
    simpa [Renderable.roots] using h
  | document packets assembled ih =>
    intro o ho
    simp only [Renderable.roots, ofPackets_eq_ok assembled, List.mem_map] at ho
    obtain ⟨p, hp, rfl⟩ := ho
    exact ih p hp p.object (by simp [Renderable.roots])

end Registry
end SceneDoc
