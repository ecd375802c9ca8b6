import SceneDoc.Text.Blank
import SceneDoc.Number.Literal
import SceneDoc.Time.Moment

namespace SceneDoc
namespace TimeGrammar

/-- From `least` to `most` digits, as many as there are. -/
def digits? (least most : Nat) (cs : List Char) : Option (Nat × List Char) :=
  let found := (cs.take most).takeWhile Char.isDigit
  if found.length < least then none else some (natOfDigits found, cs.drop found.length)

def after? (c : Char) : List Char → Option (List Char)
  | [] => none
  | d :: rest => if d = c then some rest else none

/-- The nanoseconds of an optional fraction, which has at least one digit. Those behind the ninth are
dropped. -/
def fraction? : List Char → Option (Nat × List Char)
  | '.' :: rest =>
    let digits := rest.takeWhile Char.isDigit
    if digits.isEmpty then none
    else
      some (natOfDigits ((digits ++ List.replicate 9 '0').take 9), rest.drop digits.length)
  | cs => some (0, cs)

def inDay (hour minute second : Nat) : Bool :=
  hour ≤ 23 && minute ≤ 59 && second ≤ 60

/-- The seconds that an offset is ahead of UTC, up to the end of the text: `Z`, or hours and minutes
behind a sign. -/
def offset? : List Char → Option Int
  | ['Z'] => some 0
  | ['z'] => some 0
  | sign :: rest => do
    guard (sign = '+' ∨ sign = '-' ∨ sign = '\u2212')
    let (hours, rest) ← digits? 2 2 rest
    let rest ← after? ':' rest
    let (minutes, rest) ← digits? 2 2 rest
    guard (hours ≤ 23 ∧ minutes ≤ 59 ∧ rest = [])
    let seconds : Int := hours * 3600 + minutes * 60
    return if sign = '+' then seconds else -seconds
  | [] => none

def separator? : List Char → Option (List Char)
  | 'T' :: rest => some rest
  | 't' :: rest => some rest
  | ' ' :: rest => some rest
  | _ => none

/-- Date, time and offset in fixed widths. Second 60 is a leap second. -/
def timestamp? (cs : List Char) : Option LocalTime := do
  let (year, cs) ← digits? 4 4 cs
  let cs ← after? '-' cs
  let (month, cs) ← digits? 2 2 cs
  let cs ← after? '-' cs
  let (day, cs) ← digits? 2 2 cs
  let cs ← separator? cs
  let (hour, cs) ← digits? 2 2 cs
  let cs ← after? ':' cs
  let (minute, cs) ← digits? 2 2 cs
  let cs ← after? ':' cs
  let (second, cs) ← digits? 2 2 cs
  let (nanos, cs) ← fraction? cs
  let date : Date := ⟨year, month, day⟩
  guard (date.isValid ∧ inDay hour minute second)
  let offset ← offset? cs
  return ⟨date, hour, minute, min second 59, nanos + second / 60 * 1000000000, offset⟩

/-- A year: up to four digits, or any number of them behind a sign. -/
def year? (cs : List Char) : Option (Int × List Char) :=
  match trimStart cs with
  | '-' :: rest => (digits? 1 rest.length rest).map fun (n, r) => (-n, r)
  | '+' :: rest => (digits? 1 rest.length rest).map fun (n, r) => (n, r)
  | cs => (digits? 1 4 cs).map fun (n, r) => (n, r)

def field? (cs : List Char) : Option (Nat × List Char) :=
  digits? 1 2 (trimStart cs)

/-- What follows a date that exists, in the range of years that dates have. -/
def afterDate? (cs : List Char) : Option (List Char) := do
  let (year, cs) ← year? cs
  let cs ← after? '-' cs
  let (month, cs) ← field? cs
  let cs ← after? '-' cs
  let (day, cs) ← field? cs
  guard (Date.isValid ⟨year, month, day⟩ ∧ -262143 ≤ year ∧ year ≤ 262142)
  return cs

def afterTime? (cs : List Char) : Option (List Char) := do
  let (hour, cs) ← field? cs
  let cs ← after? ':' cs
  let (minute, cs) ← field? cs
  let cs ← after? ':' cs
  let (second, cs) ← field? cs
  let (_, cs) ← fraction? cs
  guard (inDay hour minute second)
  return cs

def isDate (cs : List Char) : Bool := afterDate? cs == some []

def isLocalDateTime (cs : List Char) : Bool :=
  (afterDate? cs).bind (after? 'T') |>.bind afterTime? |> (· == some [])

end TimeGrammar
end SceneDoc
