import SceneDoc.Json.Basic
import SceneDoc.Json.Token

namespace SceneDoc
namespace Json

mutual

def value? : Nat → List Token → Option (Json String × List Token)
  | 0, _ => none
  | fuel + 1, tokens =>
    match tokens with
    | .null :: rest => some (.null, rest)
    | .bool b :: rest => some (.bool b, rest)
    | .number literal :: rest => some (.number literal, rest)
    | .text s :: rest => some (.string s, rest)
    | .openArray :: .closeArray :: rest => some (.array [], rest)
    | .openArray :: rest => (items? fuel rest).map fun (items, r) => (.array items, r)
    | .openObject :: .closeObject :: rest => some (.object [], rest)
    | .openObject :: rest => (entries? fuel rest).map fun (entries, r) => (.object entries, r)
    | _ => none

/-- One or more items and the closing bracket. -/
def items? : Nat → List Token → Option (List (Json String) × List Token)
  | 0, _ => none
  | fuel + 1, tokens =>
    match value? fuel tokens with
    | some (v, .closeArray :: rest) => some ([v], rest)
    | some (v, .comma :: rest) => (items? fuel rest).map fun (items, r) => (v :: items, r)
    | _ => none

def entries? : Nat → List Token → Option (List (String × Json String) × List Token)
  | 0, _ => none
  | fuel + 1, tokens =>
    match tokens with
    | .text k :: .colon :: rest =>
      match value? fuel rest with
      | some (v, .closeObject :: rest) => some ([(k, v)], rest)
      | some (v, .comma :: rest) =>
        (entries? fuel rest).map fun (entries, r) => ((k, v) :: entries, r)
      | _ => none
    | _ => none

end

/-- The tree of a text that holds one value and nothing else. Every step down or along takes a
token, so the fuel is enough. -/
def read? (s : String) : Option (Json String) := do
  let tokens ← Token.scan? s.toList
  match value? (2 * tokens.length + 1) tokens with
  | some (v, []) => some v
  | _ => none

end Json
end SceneDoc
