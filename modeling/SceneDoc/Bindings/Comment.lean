import SceneDoc.Text.Blank

namespace SceneDoc
namespace Comment

-- Sums start from the zero of the core library, also where more algebra is in scope.
attribute [local instance (high)] Zero.ofOfNat0

def width : Nat := 80

def byteSize (cs : List Char) : Nat := (cs.map Char.utf8Size).sum

/-- Goes on from the line begun: the next word joins it if both fit the width, and otherwise starts a
line of its own. -/
def fill (width : Nat) (line : List Char) : List (List Char) → List (List Char)
  | [] => [line]
  | word :: rest =>
    if width < byteSize line + 1 + byteSize word then line :: fill width word rest
    else fill width (line ++ ' ' :: word) rest

def wrap (width : Nat) (cs : List Char) : List (List Char) :=
  match words cs with
  | [] => []
  | word :: rest => fill width word rest

def isStop (c : Char) : Bool := c == '.' || c == '!' || c == '?' || c == ':'

/-- A full stop behind text that is not empty and ends no sentence. -/
def closed (cs : List Char) : List Char :=
  match cs.getLast? with
  | none => cs
  | some c => if isStop c then cs else cs ++ ['.']

def normalize (description : String) : String :=
  .ofList (closed (List.intercalate [' '] (words description.toList)))

def mark : List Char := ['/', '/', '/']

/-- The lines of a comment. Without words it is the mark alone. -/
def lines (indent : Nat) (cs : List Char) : List (List Char) :=
  let start := List.replicate indent ' ' ++ mark
  if (trim cs).isEmpty then [start] else (wrap width cs).map fun line => start ++ ' ' :: line

end Comment
end SceneDoc
