import SceneDoc.Json.Basic
import SceneDoc.Text.Hexadecimal

namespace SceneDoc

/-- Without white space, or one entry a line with `indent` spaces a level. -/
inductive Layout where
  | compact
  | pretty (indent : Nat)
deriving DecidableEq, Repr

def Layout.default : Layout := .pretty 4

def Layout.break (layout : Layout) (depth : Nat) : List Char :=
  match layout with
  | .compact => []
  | .pretty indent => '\n' :: List.replicate (indent * depth) ' '

def Layout.colon : Layout → List Char
  | .compact => [':']
  | .pretty _ => [':', ' ']

/-- A stretch of written JSON: fixed characters, or a number's place. -/
inductive Piece (ν : Type) where
  | chars (cs : List Char)
  | number (n : ν)

namespace Json

variable {ν μ ε : Type}

/-- Quotes, backslashes and control characters are escaped, the common ones by a letter. -/
def escape (c : Char) : List Char :=
  if c = '"' then ['\\', '"']
  else if c = '\\' then ['\\', '\\']
  else if c = '\x08' then ['\\', 'b']
  else if c = '\x0c' then ['\\', 'f']
  else if c = '\n' then ['\\', 'n']
  else if c = '\r' then ['\\', 'r']
  else if c = '\t' then ['\\', 't']
  else if c.toNat < 32 then
    ['\\', 'u', '0', '0', hexDigit (c.toNat / 16), hexDigit (c.toNat % 16)]
  else [c]

def quote (s : String) : List Char :=
  '"' :: s.toList.flatMap escape ++ ['"']

mutual

/-- The pieces of a value whose lines are nested `depth` levels deep. Empty lists and maps stay on
one line in every layout. -/
def pieces (layout : Layout) (depth : Nat) : Json ν → List (Piece ν)
  | .null => [.chars ['n', 'u', 'l', 'l']]
  | .bool true => [.chars ['t', 'r', 'u', 'e']]
  | .bool false => [.chars ['f', 'a', 'l', 's', 'e']]
  | .number n => [.number n]
  | .string s => [.chars (quote s)]
  | .array [] => [.chars ['[', ']']]
  | .array (v :: rest) =>
    .chars ('[' :: layout.break (depth + 1)) :: pieces layout (depth + 1) v ++
      itemPieces layout depth rest
  | .object [] => [.chars ['{', '}']]
  | .object ((k, v) :: rest) =>
    .chars ('{' :: layout.break (depth + 1) ++ quote k ++ layout.colon) ::
      pieces layout (depth + 1) v ++ entryPieces layout depth rest

/-- The items after the first, and the closing bracket. -/
def itemPieces (layout : Layout) (depth : Nat) : List (Json ν) → List (Piece ν)
  | [] => [.chars (layout.break depth ++ [']'])]
  | v :: rest =>
    .chars (',' :: layout.break (depth + 1)) :: pieces layout (depth + 1) v ++
      itemPieces layout depth rest

def entryPieces (layout : Layout) (depth : Nat) : List (String × Json ν) → List (Piece ν)
  | [] => [.chars (layout.break depth ++ ['}'])]
  | (k, v) :: rest =>
    .chars (',' :: layout.break (depth + 1) ++ quote k ++ layout.colon) ::
      pieces layout (depth + 1) v ++ entryPieces layout depth rest

end

end Json

def Piece.text (literal : ν → String) : Piece ν → List Char
  | .chars cs => cs
  | .number n => (literal n).toList

def Json.print (layout : Layout) (tree : Json String) : String :=
  .ofList ((tree.pieces layout 0).flatMap (Piece.text id))

end SceneDoc
