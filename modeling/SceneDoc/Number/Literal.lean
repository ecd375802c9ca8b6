import SceneDoc.Number.Style

namespace SceneDoc

-- Powers are those of the core library, also where more algebra is in scope.
attribute [local instance (high)] instPowNat

inductive Number where
  | integer (value : Int)
  | finite (value : Finite)
deriving DecidableEq

namespace Number

def literal : Number → String
  | .integer n => toString n
  | .finite x => NumberStyle.document.finite x

/-- Numerical equality within each kind; a whole number never equals a double. -/
def equals : Number → Number → Bool
  | .integer m, .integer n => m == n
  | .finite x, .finite y => (Double.finite x).equals (.finite y)
  | _, _ => false

end Number

def natOfDigits (ds : List Char) : Nat :=
  ds.foldl (fun n d => n * 10 + (d.toNat - '0'.toNat)) 0

/-- The parts of a decimal literal: sign, digits, how many of them stand after the point, power of
ten. -/
structure Literal where
  negative : Bool
  digits : List Char
  places : Nat
  power : Int
  whole : Bool
deriving DecidableEq, Repr

namespace Literal

def powerOf : List Char → Int
  | '-' :: ds => - (natOfDigits ds : Int)
  | '+' :: ds => natOfDigits ds
  | ds => natOfDigits ds

def ofChars (cs : List Char) : Literal :=
  let (negative, cs) := match cs with
    | '-' :: rest => (true, rest)
    | _ => (false, cs)
  let (whole, cs) := cs.span Char.isDigit
  match cs with
  | '.' :: rest =>
    let (fraction, cs) := rest.span Char.isDigit
    ⟨negative, whole ++ fraction, fraction.length, powerOf (cs.drop 1), false⟩
  | [] => ⟨negative, whole, 0, 0, true⟩
  | _ :: power => ⟨negative, whole, 0, powerOf power, false⟩

def toDouble (l : Literal) : Double :=
  .ofDecimal l.negative (natOfDigits l.digits) (l.power - l.places)

def toInt? (l : Literal) : Option Int :=
  if l.whole then
    let n : Int := natOfDigits l.digits
    some (if l.negative then -n else n)
  else none

end Literal

/-- The double nearest to a literal. -/
def Double.ofLiteral (s : String) : Double :=
  (Literal.ofChars s.toList).toDouble

/-- A literal as a document keeps it: whole numbers that fit 64 bits stay whole, except minus zero. A
literal beyond the doubles is none. -/
def Number.ofLiteral? (s : String) : Option Number :=
  let l := Literal.ofChars s.toList
  let double := match l.toDouble with
    | .finite x => some (.finite x)
    | _ => none
  match l.toInt? with
  | some n =>
    if l.negative && n == 0 then double
    else if -(2 ^ (63 : Nat) : Int) ≤ n ∧ n < 2 ^ (64 : Nat) then some (.integer n)
    else double
  | none => double

/-- A number's place in a rendering: a number, or a double that no document can hold. -/
abbrev Leaf := Except Double Number

def Double.leaf : Double → Leaf
  | .finite x => .ok (.finite x)
  | x => .error x

end SceneDoc
