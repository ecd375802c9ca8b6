import SceneDoc.Document.IdSource
import SceneDoc.Object.Build
import SceneDoc.Object.Equality
import SceneDoc.Object.Render

namespace SceneDoc

structure Packet where
  object : Object

namespace Packet

/-- The class of the packets that describe one object each. -/
def ordinaryClass : String := "Packet"

def preambleClass : String := "Preamble"

/-- An object as a packet, if its class is one of the two and its `id` is a text. -/
def ofObject (o : Object) : Except Error Packet :=
  if o.cls.name ≠ ordinaryClass ∧ o.cls.name ≠ preambleClass then
    .error (.refused "Document" "packets" (.mismatch "a Packet or Preamble" o.cls.name))
  else
    match o.get? "id" with
    | some (.text _) => .ok ⟨o⟩
    | _ => .error (.missingField o.cls.name "id")

def id (p : Packet) : String :=
  match p.object.get? "id" with
  | some (.text s) => s
  | _ => ""

def isPreamble (p : Packet) : Bool := p.object.cls.name == preambleClass

def equals (p q : Packet) : Bool := p.object.equals q.object

def render (p : Packet) : Json Leaf := p.object.render

end Packet

namespace Registry

def identified (r : Registry) (inputs : List (String × Input)) : Except Error Packet :=
  (r.build Packet.ordinaryClass inputs).bind Packet.ofObject

/-- Builds a packet. Without an `id` it gets the next one, which is spent even if building fails. -/
def packet (r : Registry) (ids : IdSource) (inputs : List (String × Input)) :
    Except Error Packet × IdSource :=
  if (inputs.lookup "id").isSome then (r.identified inputs, ids)
  else
    let (id, ids) := ids.draw
    (r.identified (inputs ++ [("id", .text id)]), ids)

/-- Builds a preamble, which has its `id` from the caller or by default. -/
def preamble (r : Registry) (inputs : List (String × Input)) : Except Error Packet :=
  (r.build Packet.preambleClass inputs).bind Packet.ofObject

end Registry
end SceneDoc
