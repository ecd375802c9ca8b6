import SceneDoc.Text.Hexadecimal

namespace SceneDoc

inductive Token where
  | openArray
  | closeArray
  | openObject
  | closeObject
  | comma
  | colon
  | null
  | bool (value : Bool)
  | number (literal : String)
  | text (value : String)
deriving DecidableEq, Repr

namespace Token

def isBlank (c : Char) : Bool :=
  c = ' ' || c = '\n' || c = '\r' || c = '\t'

/-- The character that a letter after a backslash stands for. -/
def unescape? : Char → Option Char
  | '"' => some '"'
  | '\\' => some '\\'
  | '/' => some '/'
  | 'b' => some '\x08'
  | 'f' => some '\x0c'
  | 'n' => some '\n'
  | 'r' => some '\r'
  | 't' => some '\t'
  | _ => none

/-- Whether a code unit starts a surrogate pair. -/
def isHigh (n : Nat) : Bool := 0xD800 ≤ n && n < 0xDC00

def isLow (n : Nat) : Bool := 0xDC00 ≤ n && n < 0xE000

def prepend (c : Char) (found : List Char × List Char) : List Char × List Char :=
  (c :: found.1, found.2)

/-- Reads up to the closing quote. Surrogates have to come in pairs. -/
def string? : List Char → Option (List Char × List Char)
  | [] => none
  | '"' :: rest => some ([], rest)
  | '\\' :: 'u' :: a :: b :: c :: d :: '\\' :: 'u' :: e :: f :: g :: h :: rest =>
    match hexNumber? [a, b, c, d] with
    | none => none
    | some high =>
      if isHigh high then
        match hexNumber? [e, f, g, h] with
        | none => none
        | some low =>
          if isLow low then
            (string? rest).map
              (prepend (.ofNat (0x10000 + (high - 0xD800) * 0x400 + (low - 0xDC00))))
          else none
      else if isLow high then none
      else (string? ('\\' :: 'u' :: e :: f :: g :: h :: rest)).map (prepend (.ofNat high))
  | '\\' :: 'u' :: a :: b :: c :: d :: rest =>
    match hexNumber? [a, b, c, d] with
    | none => none
    | some n =>
      if isHigh n || isLow n then none else (string? rest).map (prepend (.ofNat n))
  | '\\' :: c :: rest =>
    match unescape? c with
    | none => none
    | some u => (string? rest).map (prepend u)
  | c :: rest =>
    if c.toNat < 32 || c = '\\' then none else (string? rest).map (prepend c)

def digits? (cs : List Char) : Option (List Char × List Char) :=
  match cs.span Char.isDigit with
  | ([], _) => none
  | found => some found

def minus : List Char → List Char × List Char
  | '-' :: rest => (['-'], rest)
  | cs => ([], cs)

def fraction? : List Char → Option (List Char × List Char)
  | '.' :: rest => (digits? rest).map fun (ds, r) => ('.' :: ds, r)
  | cs => some ([], cs)

def power? : List Char → Option (List Char × List Char)
  | [] => some ([], [])
  | e :: cs =>
    if e = 'e' || e = 'E' then
      match cs with
      | '-' :: rest => (digits? rest).map fun (ds, r) => (e :: '-' :: ds, r)
      | '+' :: rest => (digits? rest).map fun (ds, r) => (e :: '+' :: ds, r)
      | rest => (digits? rest).map fun (ds, r) => (e :: ds, r)
    else some ([], e :: cs)

/-- A number literal at the front of a text: no leading zeros, and digits on both sides of a point. -/
def number? (cs : List Char) : Option (List Char × List Char) := do
  let (sign, cs) := minus cs
  let (whole, cs) ← digits? cs
  guard (whole.head? ≠ some '0' ∨ whole.length = 1)
  let (fraction, cs) ← fraction? cs
  let (power, cs) ← power? cs
  return (sign ++ whole ++ fraction ++ power, cs)

/-- The token at the front of a text that starts with none of the blanks. -/
def first? : List Char → Option (Token × List Char)
  | '[' :: rest => some (.openArray, rest)
  | ']' :: rest => some (.closeArray, rest)
  | '{' :: rest => some (.openObject, rest)
  | '}' :: rest => some (.closeObject, rest)
  | ',' :: rest => some (.comma, rest)
  | ':' :: rest => some (.colon, rest)
  | '"' :: rest => (string? rest).map fun (cs, r) => (.text (.ofList cs), r)
  | 'n' :: 'u' :: 'l' :: 'l' :: rest => some (.null, rest)
  | 't' :: 'r' :: 'u' :: 'e' :: rest => some (.bool true, rest)
  | 'f' :: 'a' :: 'l' :: 's' :: 'e' :: rest => some (.bool false, rest)
  | cs => (number? cs).map fun (ds, r) => (.number (.ofList ds), r)

def scanWithin : Nat → List Char → Option (List Token)
  | _, [] => some []
  | 0, _ :: _ => none
  | fuel + 1, c :: cs =>
    if isBlank c then scanWithin fuel cs
    else
      match first? (c :: cs) with
      | none => none
      | some (token, rest) => (scanWithin fuel rest).map (token :: ·)

/-- The tokens of a text. Each takes at least one character, so the length is fuel enough. -/
def scan? (cs : List Char) : Option (List Token) :=
  scanWithin cs.length cs

end Token
end SceneDoc
