import SceneDoc.Object.Convert
import SceneDoc.Object.Error
import SceneDoc.Schema.Registry

namespace SceneDoc

/-- Checks that names are fields of the class and occur once, where `seen` are the names before. -/
def ValueClass.checkNames (c : ValueClass) (seen : List String) : List String → Except Error Unit
  | [] => .ok ()
  | name :: rest =>
    if (c.field? name).isNone then .error (.unknownField c.name name)
    else if seen.contains name then .error (.duplicateField c.name name)
    else c.checkNames (name :: seen) rest

def isDeletion (inputs : List (String × Input)) : Bool :=
  match inputs.lookup "delete" with
  | some (.bool true) => true
  | _ => false

def DefaultValue.toInput : DefaultValue → Input
  | .bool b => .bool b
  | .number x => .number x
  | .text s => .text s

/-- The input that a field's value comes from: what was given or else the default, and in a deletion
only what was given for the identity. -/
def Field.input? (f : Field) (deleted : Bool) (inputs : List (String × Input)) : Option Input :=
  if deleted then
    if f.name = "id" ∨ f.name = "delete" then inputs.lookup f.name else none
  else
    match inputs.lookup f.name with
    | some input => some input
    | none => f.default.map (·.toInput)

def convertSlots (cls : String) (deleted : Bool) (inputs : List (String × Input)) :
    List Field → Except Error (List (Option Value))
  | [] => .ok []
  | f :: rest =>
    match f.input? deleted inputs with
    | none => (convertSlots cls deleted inputs rest).map (none :: ·)
    | some input =>
      match f.convert input with
      | .error e => .error (.refused cls f.name e)
      | .ok value => (convertSlots cls deleted inputs rest).map (some value :: ·)

namespace ObjectOf

variable {ν : Type}

def missing? (o : ObjectOf ν) : Option Error :=
  (o.cls.fields.zip o.slots).findSome? fun (f, slot) =>
    if f.required && slot.isNone then some (.missingField o.cls.name f.name) else none

/-- How an object breaks a rule, if it does. Set fields are counted as often as the group lists
them. -/
def broken? (o : ObjectOf ν) : Rule → Option Error
  | .exclusive group =>
    let set := group.filter o.isSet
    if 1 < set.length then some (.conflictingFields o.cls.name set) else none
  | .oneOf group =>
    let set := group.filter o.isSet
    if set.length = 0 then some (.missingAlternative o.cls.name group)
    else if 1 < set.length then some (.conflictingFields o.cls.name set)
    else none
  | .requires field sibling =>
    if o.isSet field && !o.isSet sibling then
      some (.missingDependency o.cls.name field sibling)
    else none

/-- The first requirement that an object does not meet: required fields, and then rules. -/
def fault? (o : ObjectOf ν) : Option Error :=
  match o.missing? with
  | some e => some e
  | none => o.cls.rules.findSome? o.broken?

end ObjectOf

def ValueClass.build (c : ValueClass) (inputs : List (String × Input)) : Except Error Object := do
  c.checkNames [] (inputs.map (·.1))
  let deleted := isDeletion inputs
  let slots ← convertSlots c.name deleted inputs c.fields
  let o : Object := ⟨c, slots⟩
  if deleted then return o
  else
    match o.fault? with
    | some e => .error e
    | none => return o

def Registry.build (r : Registry) (cls : String) (inputs : List (String × Input)) :
    Except Error Object :=
  match r.class? cls with
  | none => .error (.unknownClass cls)
  | some c => c.build inputs

end SceneDoc
