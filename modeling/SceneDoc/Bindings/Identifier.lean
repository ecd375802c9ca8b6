import SceneDoc.Schema.Definition
import SceneDoc.Text.LetterCase
import SceneDoc.Text.Split

namespace SceneDoc
namespace Identifier

def keywords : List String := [
  "as", "box", "break", "const", "continue", "crate", "dyn", "else", "enum", "extern", "false",
  "fn", "for", "if", "impl", "in", "let", "loop", "match", "mod", "move", "mut", "pub", "ref",
  "return", "static", "struct", "trait", "true", "type", "unsafe", "use", "where", "while"]

/-- Whether an upper-case letter behind this character starts a word of its own. -/
def endsWord (c : Char) : Bool := isLowercase c || c.isDigit

/-- Lower-case words. `joins` says whether the character before ends a word. -/
def wordsFrom (joins : Bool) : List Char → List Char
  | [] => []
  | c :: rest =>
    if isUppercase c then
      (if joins then ['_'] else []) ++ lowered c ++ wordsFrom (endsWord c) rest
    else c :: wordsFrom (endsWord c) rest

def rawMark : String := "r#"

def ofName (name : String) : String :=
  let word := String.ofList (wordsFrom false name.toList)
  if keywords.contains word then rawMark ++ word else word

def plain (identifier : String) : String :=
  match dropStart? rawMark.toList identifier.toList with
  | some word => .ofList word
  | none => identifier

end Identifier

/-- The type that an enumeration becomes: its name in the singular. -/
def Enumeration.typeName (e : Enumeration) : String :=
  match dropEnd? ['s'] e.name.toList with
  | some singular => .ofList singular
  | none => e.name

end SceneDoc
