import SceneDoc.Json.Printer
import SceneDoc.Number.Literal

namespace SceneDoc

inductive WriteError where
  | notFinite (x : Double)
  | full
deriving DecidableEq

def WriteError.message : WriteError → String
  | .notFinite x => "non-finite number " ++ x.special?.getD "" ++ " reached the serializer"
  | .full => "failed to write whole buffer"

inductive Format where
  | compact
  | pretty (indent : Nat)
  | within (limit : Nat) (layout : Layout)
  /-- One entry per key, without white space. -/
  | distinct
deriving DecidableEq

namespace Json

/-- The characters before the first number that is not finite, and that number. -/
def written : List (Piece Leaf) → List Char × Option Double
  | [] => ([], none)
  | .chars cs :: rest =>
    let (text, stop) := written rest
    (cs ++ text, stop)
  | .number (.ok n) :: rest =>
    let (text, stop) := written rest
    (n.literal.toList ++ text, stop)
  | .number (.error x) :: _ => ([], some x)

def toText (layout : Layout) (tree : Json Leaf) : Except WriteError String :=
  match written (tree.pieces layout 0) with
  | (text, none) => .ok (.ofList text)
  | (_, some x) => .error (.notFinite x)

/-- The whole text, if what is written of it fits into `limit` bytes. -/
def toTextWithin (limit : Nat) (layout : Layout) (tree : Json Leaf) : Except WriteError String :=
  let (text, stop) := written (tree.pieces layout 0)
  let text := String.ofList text
  if limit < text.utf8ByteSize then .error .full
  else match stop with
    | none => .ok text
    | some x => .error (.notFinite x)

def render (format : Format) (tree : Json Leaf) : Except WriteError String :=
  match format with
  | .compact => tree.toText .compact
  | .pretty indent => tree.toText (.pretty indent)
  | .within limit layout => tree.toTextWithin limit layout
  | .distinct =>
    match tree.tryMap id with
    | .ok numbers => (numbers.distinct.map .ok).toText .compact
    | .error x => .error (.notFinite x)

end Json
end SceneDoc
