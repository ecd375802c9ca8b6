import SceneDoc.Bindings.Identifier
import SceneDoc.Schema.Class

namespace SceneDoc

def Field.baseType (f : Field) : String :=
  match f.kind with
  | .boolean => "bool"
  | .number => "f64"
  | .text | .uri | .reference | .instant | .interval => "String"
  | .tuple shape =>
    if f.interpolatable then "Vec<f64>" else "[f64; " ++ toString shape.arity ++ "]"
  | .list _ => "Vec<f64>"
  | .enumerated e => e.typeName
  | .nested cls => cls
  | .properties => "serde_json::Map<String, serde_json::Value>"

structure Declaration where
  identifier : String
  /-- The name that the field has in documents, where the identifier does not spell it. -/
  rename : Option String
  base : String
  optional : Bool
deriving DecidableEq, Repr

def Field.declaration (f : Field) : Declaration where
  identifier := Identifier.ofName f.name
  rename := if Identifier.plain (Identifier.ofName f.name) = f.name then none else some f.name
  base := f.baseType
  optional := !f.required

namespace Declaration

def key (d : Declaration) : String :=
  d.rename.getD (Identifier.plain d.identifier)

def type (d : Declaration) : String :=
  if d.optional then "Option<" ++ d.base ++ ">" else d.base

/-- What the attribute says: a name of its own, and that the field is left out while unset. -/
def attributeParts (d : Declaration) : List String :=
  (d.rename.map fun name => "rename = \"" ++ name ++ "\"").toList ++
    (if d.optional then ["skip_serializing_if = \"Option::is_none\""] else [])

def attribute? (d : Declaration) : Option String :=
  if d.attributeParts.isEmpty then none
  else some ("#[serde(" ++ String.intercalate ", " d.attributeParts ++ ")]")

end Declaration

def DefaultValue.documented : DefaultValue → String
  | .bool b => "`" ++ toString b ++ "`"
  | .number x => "`" ++ x.inMessage ++ "`"
  | .text s => "`\"" ++ s ++ "\"`"

end SceneDoc
