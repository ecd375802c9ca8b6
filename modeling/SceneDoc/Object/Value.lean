import SceneDoc.Json.Basic
import SceneDoc.Schema.Class
import SceneDoc.Value.Samples

namespace SceneDoc

/-- An object of a class, with one slot for each field in order. -/
structure ObjectOf (ν : Type) where
  cls : ValueClass
  slots : List (Option ν)

structure TimedOf (ν : Type) where
  interval : TimeInterval
  /-- The key that the value has beside the interval, unless it is an object. -/
  key : String
  value : ν

inductive Value where
  | bool (value : Bool)
  | number (value : Double)
  | text (value : String)
  | numbers (values : List Double)
  | samples (samples : Samples)
  | instant (value : Instant)
  | interval (value : TimeInterval)
  | intervals (values : List TimeInterval)
  | object (value : ObjectOf Value)
  | timed (value : TimedOf Value)
  | timedList (values : List (TimedOf Value))
  | properties (entries : List (String × Value))
  | json (tree : Json Number)

abbrev Object := ObjectOf Value

abbrev Timed := TimedOf Value

namespace ObjectOf

variable {ν : Type}

/-- The set fields in declared order. -/
def entries (o : ObjectOf ν) : List (Field × ν) :=
  (o.cls.fields.zip o.slots).filterMap fun (f, slot) => slot.map (f, ·)

def get? (o : ObjectOf ν) (name : String) : Option ν :=
  (o.entries.find? (·.1.name == name)).map (·.2)

def isSet (o : ObjectOf ν) (name : String) : Bool := (o.get? name).isSome

end ObjectOf

inductive Input where
  | bool (value : Bool)
  | number (value : Double)
  | text (value : String)
  | numbers (values : List Double)
  | samples (samples : List Sample)
  | instant (value : Instant)
  | interval (value : TimeInterval)
  | intervals (values : List TimeInterval)
  /-- A raw text together with the enumeration that it is a member of. -/
  | member (enumeration : Enumeration) (raw : String)
  | object (value : Object)
  | timed (interval : TimeInterval) (value : Input)
  | timedList (entries : List (TimeInterval × Input))
  | properties (entries : List (String × Input))
  | json (tree : Json Number)

def Input.kindName : Input → String
  | .bool _ => "a boolean"
  | .number _ => "a number"
  | .text _ => "text"
  | .numbers _ => "a number list"
  | .samples _ => "time-tagged samples"
  | .instant _ => "an instant"
  | .interval _ => "a time interval"
  | .intervals _ => "a list of time intervals"
  | .member _ _ => "an enumeration member"
  | .object _ => "an object"
  | .timed _ _ => "an interval value"
  | .timedList _ => "interval values"
  | .properties _ => "custom properties"
  | .json _ => "raw JSON"

end SceneDoc
