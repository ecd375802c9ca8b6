import SceneDoc.Schema.TypeText
import SceneDoc.Schema.Class
import SceneDoc.Schema.Error

namespace SceneDoc

/-- The kind that a bare type name stands for. A name that is no type of its own names a class. -/
def FieldKind.ofTypeName (bare : String) : FieldKind :=
  match bare with
  | "bool" => .boolean
  | "f64" | "f32" | "i32" | "i64" | "u32" | "number" => .number
  | "String" | "str" => .text
  | "Uri" => .uri
  | "Reference" => .reference
  | "Instant" => .instant
  | "TimeInterval" => .interval
  | "Properties" => .properties
  | _ =>
    match TupleShape.ofName? bare with
    | some shape => .tuple shape
    | none =>
      match ListShape.ofName? bare with
      | some shape => .list shape
      | none => .nested bare

namespace Attribute

/-- The kind of an attribute whose bare type name is given. An enumeration has to be named. -/
def kind? (a : Attribute) (bare : String) : Option FieldKind :=
  match a.enumeration with
  | some e => if bare = e.name then some (.enumerated e) else none
  | none => some (.ofTypeName bare)

end Attribute

inductive DefaultFault where
  | wrongType
  | notMember (value enumeration : String)
deriving DecidableEq, Repr

def DefaultValue.fault? (kind : FieldKind) : DefaultValue → Option DefaultFault
  | .bool _ =>
    match kind with
    | .boolean => none
    | _ => some .wrongType
  | .number _ =>
    match kind with
    | .number => none
    | _ => some .wrongType
  | .text value =>
    match kind with
    | .text | .uri | .reference | .instant | .interval => none
    | .enumerated e => if e.contains value then none else some (.notMember value e.name)
    | _ => some .wrongType

def compileField (cls : String) (a : Attribute) (origin : Option Capability) :
    Except SchemaError Field :=
  match a.declaredType with
  | none => .error (.missingType cls a.name)
  | some written =>
    if a.required && a.default.isSome then .error (.requiredWithDefault cls a.name)
    else
      match TypeText.bareType? written with
      | none => .error (.malformedType cls a.name written)
      | some bare =>
        match a.kind? bare with
        | none =>
          .error (.enumerationMismatch cls a.name bare ((a.enumeration.map (·.name)).getD ""))
        | some kind =>
          match a.default.bind (·.fault? kind) with
          | some .wrongType => .error (.defaultTypeMismatch cls a.name bare)
          | some (.notMember value enumeration) =>
            .error (.invalidEnumDefault cls a.name value enumeration)
          | none =>
            .ok ⟨a.name, bare, kind, a.default, a.required, a.interpolatable, a.description, origin⟩

/-- Compiles attributes in order, where `seen` are the names before them. -/
def compileFields (cls : String) (seen : List String) :
    List (Attribute × Option Capability) → Except SchemaError (List Field)
  | [] => .ok []
  | (a, origin) :: rest =>
    if seen.contains a.name then .error (.duplicateField cls a.name)
    else do
      let field ← compileField cls a origin
      let fields ← compileFields cls (a.name :: seen) rest
      return field :: fields

/-- Every name in a rule has to be a field, and no field of an exclusive group has a default. -/
def checkRule (cls : String) (fields : List Field) (rule : Rule) : Except SchemaError Unit :=
  match rule.fields.find? fun name => !fields.any (·.name == name) with
  | some name => .error (.unknownRuleField cls name)
  | none =>
    match rule.group.find? fun name => fields.any fun f => f.name == name && f.default.isSome with
    | some name => .error (.defaultInExclusiveGroup cls name)
    | none => .ok ()

def checkRules (cls : String) (fields : List Field) : List Rule → Except SchemaError Unit
  | [] => .ok ()
  | rule :: rest => do
    checkRule cls fields rule
    checkRules cls fields rest

def compileClass (d : Definition) : Except SchemaError ValueClass := do
  let fields ← compileFields d.name [] d.inherited
  checkRules d.name fields d.allRules
  return ⟨d.name, d.description, d.bases, fields, d.allRules⟩

end SceneDoc
