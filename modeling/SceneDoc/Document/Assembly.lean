import SceneDoc.Document.Packet

namespace SceneDoc

structure Document where
  packets : List Packet

namespace Document

def empty : Document := ⟨[]⟩

/-- Keeps the packets as they are, unless a preamble stands behind the first of them. -/
def ofPackets (packets : List Packet) : Except Error Document :=
  match (packets.drop 1).findIdx? Packet.isPreamble with
  | some i => .error (.documentOrder (i + 1))
  | none => .ok ⟨packets⟩

def find? (d : Document) (id : String) : Option Packet :=
  d.packets.find? (·.id == id)

def render (d : Document) : Json Leaf := .array (d.packets.map Packet.render)

end Document
end SceneDoc
