import SceneDoc.Json.Writer
import SceneDoc.Value.Error

namespace SceneDoc

inductive Error where
  | unknownClass (name : String)
  | unknownField (cls field : String)
  | duplicateField (cls field : String)
  /-- A value that its field refuses. -/
  | refused (cls field : String) (cause : ValueError)
  | conflictingFields (cls : String) (fields : List String)
  | missingDependency (cls field sibling : String)
  | missingField (cls field : String)
  | missingAlternative (cls : String) (fields : List String)
  /-- A preamble that is not the first packet. -/
  | documentOrder (index : Nat)
  | unwritable (cause : WriteError)
deriving DecidableEq

def Error.message : Error → String
  | .unknownClass name => "unknown class `" ++ name ++ "`"
  | .unknownField cls field => cls ++ " has no field `" ++ field ++ "`"
  | .duplicateField cls field => cls ++ "." ++ field ++ " given more than once"
  | .refused cls field cause => cls ++ "." ++ field ++ ": " ++ cause.message
  | .conflictingFields cls fields =>
    cls ++ ": fields " ++ String.intercalate ", " fields ++ " are mutually exclusive"
  | .missingDependency cls field sibling =>
    cls ++ "." ++ field ++ " requires " ++ sibling ++ " to be set"
  | .missingField cls field => cls ++ "." ++ field ++ " is required"
  | .missingAlternative cls fields =>
    cls ++ ": exactly one of " ++ String.intercalate ", " fields ++ " must be set"
  | .documentOrder index =>
    "the preamble must be the first packet, found at index " ++ toString index
  | .unwritable cause => cause.message

end SceneDoc
