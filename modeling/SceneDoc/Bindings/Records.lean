import SceneDoc.Bindings.Declaration
import SceneDoc.Bindings.SourceFile

namespace SceneDoc

-- Sums start from the zero of the core library, also where more algebra is in scope.
attribute [local instance (high)] Zero.ofOfNat0

def Rule.note (rule : Rule) : String :=
  let quoted (name : String) := "`" ++ name ++ "`"
  let listed (names : List String) := String.intercalate ", " (names.map quoted)
  match rule with
  | .exclusive fields => "At most one of " ++ listed fields ++ " may be set."
  | .oneOf fields => "Exactly one of " ++ listed fields ++ " must be set."
  | .requires field sibling => quoted field ++ " requires " ++ quoted sibling ++ "."

namespace Records

open SourceEntry

def fieldLine (f : Field) : String :=
  "    pub " ++ f.declaration.identifier ++ ": " ++ f.declaration.type ++ ","

def fieldEntries (f : Field) : List SourceEntry :=
  comment 4 (Comment.normalize f.description) ::
    (match f.default with
      | none => []
      | some value => [comment 4 "", comment 4 ("Defaults to " ++ value.documented ++ ".")]) ++
    (f.declaration.attribute?.map fun written => line ("    " ++ written)).toList ++
    [line (fieldLine f)]

/-- The comment on a class: its description, capabilities and rules. -/
def classComment (c : ValueClass) : List SourceEntry :=
  comment 0 (Comment.normalize c.description) ::
    (if c.capabilities.isEmpty then []
      else [comment 0 "", comment 0 ("Capabilities: " ++
        String.intercalate ", " (c.capabilities.map Capability.name) ++ ".")]) ++
    (if c.rules.isEmpty then []
      else [comment 0 "", comment 0 "# Rules", comment 0 ""] ++
        c.rules.map fun rule => comment 0 ("- " ++ rule.note))

def classLine (c : ValueClass) : String := "pub struct " ++ c.name ++ " \x7b"

def classEntries (c : ValueClass) : List SourceEntry :=
  classComment c ++
    [line "#[derive(Debug, Clone, PartialEq, Serialize)]", line (classLine c)] ++
    c.fields.flatMap fieldEntries ++ [line "\x7d", blank]

def about : String :=
  "Value classes of the property catalogue as plain serde structs.\n\n" ++
  "These mirror the runtime registry. They do not validate; build through\n" ++
  "`czml::Registry` to get checked, normalized values."

def file (classes : List ValueClass) : SourceFile where
  about := about
  entries :=
    [line "use serde::Serialize;", blank, line "use super::enums::*;", blank] ++
      classes.flatMap classEntries

def fieldCount (classes : List ValueClass) : Nat :=
  (classes.map (·.fields.length)).sum

end Records
end SceneDoc
