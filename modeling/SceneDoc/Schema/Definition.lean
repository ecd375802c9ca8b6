import SceneDoc.Number.Double

namespace SceneDoc

/-- A closed set of raw texts, each with the name of its variant. -/
structure Enumeration where
  name : String
  description : String
  members : List (String × String)
deriving DecidableEq, Repr

namespace Enumeration

def rawValues (e : Enumeration) : List String := e.members.map (·.2)

def contains (e : Enumeration) (raw : String) : Bool := e.rawValues.contains raw

end Enumeration

/-- What a class takes part in. A capability adds attributes, and sometimes rules, ahead of the
class's own. -/
inductive Capability where
  | deletable
  | interpolatable
  | aligned
deriving DecidableEq, Repr

def Capability.name : Capability → String
  | .deletable => "Deletable"
  | .interpolatable => "Interpolatable"
  | .aligned => "Aligned"

inductive DefaultValue where
  | bool (value : Bool)
  | number (value : Double)
  | text (value : String)
deriving DecidableEq

/-- An attribute whose type may be missing. -/
structure Attribute where
  name : String
  /-- The type as written, with wrappers and path. -/
  declaredType : Option String
  default : Option DefaultValue
  required : Bool
  interpolatable : Bool
  description : String
  enumeration : Option Enumeration
deriving DecidableEq

namespace Attribute

def optional (name type description : String) : Attribute :=
  ⟨name, some type, none, false, false, description, none⟩

def enumerated (name : String) (enumeration : Enumeration) (description : String) : Attribute :=
  ⟨name, some enumeration.name, none, false, false, description, some enumeration⟩

def interpolated (a : Attribute) : Attribute := { a with interpolatable := true }

def mandatory (a : Attribute) : Attribute := { a with required := true }

def withDefault (a : Attribute) (value : DefaultValue) : Attribute :=
  { a with default := some value }

end Attribute

/-- What fields of one object have to do with each other. -/
inductive Rule where
  /-- At most one of the fields is set. -/
  | exclusive (fields : List String)
  /-- Exactly one of the fields is set. -/
  | oneOf (fields : List String)
  /-- `field` is set only if `sibling` is. -/
  | requires (field sibling : String)
deriving DecidableEq, Repr

namespace Rule

def fields : Rule → List String
  | .exclusive fields => fields
  | .oneOf fields => fields
  | .requires field sibling => [field, sibling]

/-- The fields of which at most one may be set. -/
def group : Rule → List String
  | .exclusive fields => fields
  | .oneOf fields => fields
  | .requires _ _ => []

end Rule

structure Definition where
  name : String
  description : String
  bases : List Capability
  attributes : List Attribute
  rules : List Rule
deriving DecidableEq

end SceneDoc
