namespace SceneDoc

inductive SchemaError where
  | missingType (cls field : String)
  | requiredWithDefault (cls field : String)
  | duplicateField (cls field : String)
  | unknownRuleField (cls field : String)
  | defaultTypeMismatch (cls field type : String)
  | invalidEnumDefault (cls field value enumeration : String)
  | defaultInExclusiveGroup (cls field : String)
  | malformedType (cls field written : String)
  | enumerationMismatch (cls field bare enumeration : String)
  | unknownType (cls field type : String)
  | duplicateClass (cls : String)
deriving DecidableEq, Repr

def SchemaError.message : SchemaError → String
  | .missingType cls field => cls ++ "." ++ field ++ ": no declared type"
  | .requiredWithDefault cls field =>
    cls ++ "." ++ field ++ ": a required field cannot have a default"
  | .duplicateField cls field => cls ++ ": duplicate field `" ++ field ++ "`"
  | .unknownRuleField cls field => cls ++ ": rule names unknown field `" ++ field ++ "`"
  | .defaultTypeMismatch cls field type =>
    cls ++ "." ++ field ++ ": default does not match declared type `" ++ type ++ "`"
  | .invalidEnumDefault cls field value enumeration =>
    cls ++ "." ++ field ++ ": default `" ++ value ++ "` is not a member of " ++ enumeration
  | .defaultInExclusiveGroup cls field =>
    cls ++ "." ++ field ++ ": a field of an exclusive group cannot have a default"
  | .malformedType cls field written =>
    cls ++ "." ++ field ++ ": malformed type annotation `" ++ written ++ "`"
  | .enumerationMismatch cls field bare enumeration =>
    cls ++ "." ++ field ++ ": annotation `" ++ bare ++ "` does not name enumeration " ++
      enumeration
  | .unknownType cls field type => cls ++ "." ++ field ++ ": unknown type `" ++ type ++ "`"
  | .duplicateClass cls => "duplicate class `" ++ cls ++ "`"

end SceneDoc
