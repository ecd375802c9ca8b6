import SceneDoc.Schema.Capability
import SceneDoc.Value.Shape

namespace SceneDoc

inductive FieldKind where
  | boolean
  | number
  | text
  | uri
  | reference
  | instant
  | interval
  | tuple (shape : TupleShape)
  | list (shape : ListShape)
  | enumerated (enumeration : Enumeration)
  /-- An object of the class named. -/
  | nested (cls : String)
  /-- An open bag of custom properties. -/
  | properties
deriving DecidableEq, Repr

def FieldKind.describe : FieldKind → String
  | .boolean => "a boolean"
  | .number => "a number"
  | .text => "text"
  | .uri => "a URI"
  | .reference => "a reference"
  | .instant => "an instant"
  | .interval => "a time interval"
  | .tuple shape => shape.name
  | .list shape => shape.name
  | .enumerated enumeration => enumeration.name
  | .nested cls => cls
  | .properties => "custom properties"

structure Field where
  name : String
  /-- The bare name of the declared type. -/
  typeName : String
  kind : FieldKind
  default : Option DefaultValue
  required : Bool
  /-- Whether values are stored as samples. -/
  interpolatable : Bool
  description : String
  /-- The capability that the field comes from. -/
  origin : Option Capability
deriving DecidableEq

structure ValueClass where
  name : String
  description : String
  capabilities : List Capability
  fields : List Field
  rules : List Rule
deriving DecidableEq

namespace ValueClass

def position? (c : ValueClass) (name : String) : Option Nat :=
  c.fields.findIdx? (·.name == name)

def field? (c : ValueClass) (name : String) : Option Field :=
  c.fields.find? (·.name == name)

/-- The groups of which at most one field may be set. -/
def exclusiveGroups (c : ValueClass) : List (List String) :=
  c.rules.filterMap fun
    | .exclusive fields => some fields
    | .oneOf fields => some fields
    | .requires _ _ => none

end ValueClass
end SceneDoc
