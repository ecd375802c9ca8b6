import SceneDoc.Number.Shortest

namespace SceneDoc

/-- How numbers are written: positionally for leading exponents from `plainFrom` up to below
`plainBelow`, and with a power of ten elsewhere. -/
structure NumberStyle where
  plainFrom : Int
  plainBelow : Int
  plus : Bool
  tie : Tie
deriving DecidableEq, Repr

/-- Documents write ten thousandths of a tenth positionally and mark positive powers of ten. -/
def NumberStyle.document : NumberStyle := ⟨-5, 16, true, .toEven⟩

def NumberStyle.message : NumberStyle := ⟨-4, 16, false, .up⟩

namespace NumberStyle

/-- Digits with a point after the one of exponent zero, and at least one digit on each side of it. -/
def positional (digits : List Char) (leading : Int) : List Char :=
  if leading < 0 then
    '0' :: '.' :: List.replicate (-leading - 1).toNat '0' ++ digits
  else
    let whole := leading.toNat + 1
    let fraction := digits.drop whole
    digits.take whole ++ List.replicate (whole - digits.length) '0' ++
      '.' :: (if fraction.isEmpty then ['0'] else fraction)

def power (style : NumberStyle) (exponent : Int) : List Char :=
  let sign := if exponent < 0 then ['-'] else if style.plus then ['+'] else []
  'e' :: sign ++ Nat.toDigits 10 exponent.natAbs

def scientific (style : NumberStyle) (digits : List Char) (leading : Int) : List Char :=
  let fraction := digits.drop 1
  digits.take 1 ++ (if fraction.isEmpty then [] else '.' :: fraction) ++ style.power leading

def magnitude (style : NumberStyle) (x : Finite) : List Char :=
  if x.units = 0 then ['0', '.', '0']
  else
    let decimal := x.shortest style.tie
    let digits := Nat.toDigits 10 decimal.digits
    let leading := decimal.exponent + digits.length - 1
    if style.plainFrom ≤ leading ∧ leading < style.plainBelow then positional digits leading
    else style.scientific digits leading

def finite (style : NumberStyle) (x : Finite) : String :=
  .ofList ((if x.negative then ['-'] else []) ++ style.magnitude x)

end NumberStyle

def Double.special? : Double → Option String
  | .nan => some "NaN"
  | .infinite false => some "inf"
  | .infinite true => some "-inf"
  | .finite _ => none

def Double.inMessage : Double → String
  | .finite x => NumberStyle.message.finite x
  | x => x.special?.getD ""

def Double.listInMessage (xs : List Double) : String :=
  "[" ++ String.intercalate ", " (xs.map inMessage) ++ "]"

end SceneDoc
