import SceneDoc.Bindings.Identifier
import SceneDoc.Bindings.SourceFile

namespace SceneDoc
namespace Variants

open SourceEntry

def typeLine (e : Enumeration) : String := "pub enum " ++ e.typeName ++ " \x7b"

def memberEntries (member : String × String) : List SourceEntry :=
  let (variant, raw) := member
  [comment 4 ("`" ++ raw ++ "`."), line ("    #[serde(rename = \"" ++ raw ++ "\")]"),
    line ("    " ++ variant ++ ",")]

def rawLine (member : String × String) : SourceEntry :=
  let (variant, raw) := member
  line ("            Self::" ++ variant ++ " => \"" ++ raw ++ "\",")

def enumerationEntries (e : Enumeration) : List SourceEntry :=
  [comment 0 (Comment.normalize e.description),
    line "#[derive(Debug, Clone, Copy, PartialEq, Eq, Hash, Serialize)]", line (typeLine e)] ++
    e.members.flatMap memberEntries ++
    [line "\x7d", blank, line ("impl " ++ e.typeName ++ " \x7b"),
      comment 4 "The raw value emitted in documents.",
      line "    pub fn as_str(self) -> &'static str \x7b", line "        match self \x7b"] ++
    e.members.map rawLine ++
    [line "        \x7d", line "    \x7d", line "\x7d", blank]

def file (enumerations : List Enumeration) : SourceFile where
  about := "Enumerations referenced by the property catalogue."
  entries :=
    [line "use serde::Serialize;", blank] ++ enumerations.flatMap enumerationEntries

end Variants
end SceneDoc
