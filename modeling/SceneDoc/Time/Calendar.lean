namespace SceneDoc

-- Sums start from the zero of the core library, also where more algebra is in scope.
attribute [local instance (high)] Zero.ofOfNat0

/-- A day of the calendar, not necessarily one that exists. -/
structure Date where
  year : Int
  month : Nat
  day : Nat
deriving DecidableEq, Repr

namespace Date

def isLeap (year : Int) : Bool :=
  year % 4 == 0 && (year % 100 != 0 || year % 400 == 0)

def monthLengths (leap : Bool) : List Nat :=
  [31, if leap then 29 else 28, 31, 30, 31, 30, 31, 31, 30, 31, 30, 31]

def monthLength (year : Int) (month : Nat) : Nat :=
  if month = 0 then 0 else (monthLengths (isLeap year)).getD (month - 1) 0

def isValid (d : Date) : Bool :=
  1 ≤ d.month && d.month ≤ 12 && 1 ≤ d.day && d.day ≤ monthLength d.year d.month

/-- The number of the first day of a year: 365 days a year, and one for each leap year before. -/
def yearStart (year : Int) : Int :=
  365 * year + (year + 3) / 4 - (year + 99) / 100 + (year + 399) / 400

def number (d : Date) : Int :=
  yearStart d.year + ((monthLengths (isLeap d.year)).take (d.month - 1)).sum + d.day - 1

/-- The year that a day falls in. Four centuries have 146097 days, so the guess is off by one at
most. -/
def yearOf (number : Int) : Int :=
  let guess := number * 400 / 146097
  if number < yearStart guess then guess - 1
  else if yearStart (guess + 1) ≤ number then guess + 1
  else guess

/-- Month and day of a day of the year, where `month` is the first of the months whose lengths are
given. -/
def monthOf (month : Nat) (rest : Nat) : List Nat → Nat × Nat
  | [] => (month, rest + 1)
  | length :: lengths =>
    if rest < length then (month, rest + 1) else monthOf (month + 1) (rest - length) lengths

def ofNumber (number : Int) : Date :=
  let year := yearOf number
  let (month, day) := monthOf 1 (number - yearStart year).toNat (monthLengths (isLeap year))
  ⟨year, month, day⟩

end Date
end SceneDoc
