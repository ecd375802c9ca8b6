import SceneDoc.Catalogue.Standard
import SceneDoc.Schema.Compile

namespace SceneDoc

structure Registry where
  classes : List ValueClass
deriving DecidableEq

namespace Registry

def class? (r : Registry) (name : String) : Option ValueClass :=
  r.classes.find? (·.name == name)

def compileClasses (seen : List String) : List Definition → Except SchemaError (List ValueClass)
  | [] => .ok []
  | d :: rest =>
    if seen.contains d.name then .error (.duplicateClass d.name)
    else do
      let cls ← compileClass d
      let classes ← compileClasses (d.name :: seen) rest
      return cls :: classes

def nestedClass? (f : Field) : Option String :=
  match f.kind with
  | .nested cls => some cls
  | _ => none

/-- The first field whose class is none of `known`. -/
def unknownType? (known : List String) (c : ValueClass) : Option SchemaError :=
  c.fields.findSome? fun f =>
    match nestedClass? f with
    | some cls => if known.contains cls then none else some (.unknownType c.name f.name cls)
    | none => none

/-- Nested classes may be defined later than they are used, so they are looked for once every class
is compiled. -/
def compile (definitions : List Definition) : Except SchemaError Registry := do
  let classes ← compileClasses [] definitions
  match classes.findSome? (unknownType? (classes.map (·.name))) with
  | some e => .error e
  | none => return ⟨classes⟩

def standard : Except SchemaError Registry := compile Catalogue.definitions

/-- The enumerations that fields use, each once, in the order of first use. -/
def enumerations (r : Registry) : List Enumeration :=
  (r.classes.flatMap (·.fields)).foldl (fun seen f =>
    match f.kind with
    | .enumerated e => if seen.any (·.name == e.name) then seen else seen ++ [e]
    | _ => seen) []

end Registry
end SceneDoc
