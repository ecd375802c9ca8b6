import SceneDoc.Document.Assembly

namespace SceneDoc

structure Session where
  ids : IdSource
  packets : List Packet
  document : Document

/-- One thing to do. Packets are named by their slots. -/
inductive Step where
  | packet (inputs : List (String × Input))
  | preamble (inputs : List (String × Input))
  /-- Adds an object that was built before as a packet. -/
  | adopt (object : Object)
  | assemble (slots : List Nat)
  | drawId
  | fetch (slot : Nat)
  | field (slot : Nat) (name : String)
  /-- Looks for a packet of the current document. -/
  | find (id : String)
  | document
  | compare (first second : Nat)

inductive Answer where
  | added (slot : Nat) (packet : Packet)
  | assembled (document : Document)
  | drawn (id : String)
  | fetched (packet : Packet)
  | field (value : Option Value)
  | found (packet : Option Packet)
  | document (document : Document)
  | compared (equal : Bool)

inductive StepError where
  /-- A slot without a packet. -/
  | noSlot
  | failed (cause : Error)
deriving DecidableEq

def StepError.message : StepError → String
  | .noSlot => "no such slot"
  | .failed cause => cause.message

namespace Session

def start (stem : String) : Session := ⟨.start stem, [], .empty⟩

def slot? (s : Session) (slot : Nat) : Except StepError Packet :=
  match s.packets[slot]? with
  | some p => .ok p
  | none => .error .noSlot

def add (s : Session) (built : Except Error Packet) : Except StepError Answer × Session :=
  match built with
  | .ok p => (.ok (.added s.packets.length p), { s with packets := s.packets ++ [p] })
  | .error e => (.error (.failed e), s)

def assemble (s : Session) (slots : List Nat) : Except StepError Answer × Session :=
  match slots.mapM s.slot? with
  | .error e => (.error e, s)
  | .ok packets =>
    match Document.ofPackets packets with
    | .error e => (.error (.failed e), s)
    | .ok d => (.ok (.assembled d), { s with document := d })

def compare (s : Session) (first second : Nat) : Except StepError Answer := do
  let p ← s.slot? first
  let q ← s.slot? second
  return .compared (p.equals q)

def step (r : Registry) (s : Session) (todo : Step) : Except StepError Answer × Session :=
  match todo with
  | .packet inputs =>
    let (built, ids) := r.packet s.ids inputs
    { s with ids }.add built
  | .preamble inputs => s.add (r.preamble inputs)
  | .adopt o => s.add (Packet.ofObject o)
  | .assemble slots => s.assemble slots
  | .drawId =>
    let (id, ids) := s.ids.draw
    (.ok (.drawn id), { s with ids })
  | .fetch slot => ((s.slot? slot).map .fetched, s)
  | .field slot name => ((s.slot? slot).map fun p => .field (p.object.get? name), s)
  | .find id => (.ok (.found (s.document.find? id)), s)
  | .document => (.ok (.document s.document), s)
  | .compare first second => (s.compare first second, s)

def run (r : Registry) (s : Session) : List Step → List (Except StepError Answer) × Session
  | [] => ([], s)
  | todo :: rest =>
    let (answer, after) := s.step r todo
    let (answers, final) := after.run r rest
    (answer :: answers, final)

end Session
end SceneDoc
