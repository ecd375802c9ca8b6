import SceneDoc.Text.Padded
import SceneDoc.Time.Calendar

namespace SceneDoc

structure Moment where
  seconds : Int
  nanos : Nat
deriving DecidableEq, Repr

/-- A date with a time of day, as a clock at some offset from UTC shows it. -/
structure LocalTime where
  date : Date
  hour : Nat
  minute : Nat
  second : Nat
  nanos : Nat
  /-- Seconds that the clock is ahead of UTC. -/
  offset : Int
deriving DecidableEq, Repr

def LocalTime.toMoment (t : LocalTime) : Moment :=
  ⟨t.date.number * 86400 + t.hour * 3600 + t.minute * 60 + t.second - t.offset, t.nanos⟩

namespace Moment

def date (m : Moment) : Date := .ofNumber (m.seconds / 86400)

def ofDay (m : Moment) : Nat := (m.seconds % 86400).toNat

/-- Four digits for the years from 0 to 9999, and a sign before others. -/
def yearText (year : Int) : List Char :=
  if 0 ≤ year ∧ year ≤ 9999 then padded 4 year.toNat
  else (if year < 0 then '-' else '+') :: padded 4 year.natAbs

/-- The fewest of 0, 3, 6 or 9 digits that lose nothing. -/
def fractionText (nanos : Nat) : List Char :=
  if nanos = 0 then []
  else if nanos % 1000000 = 0 then '.' :: padded 3 (nanos / 1000000)
  else if nanos % 1000 = 0 then '.' :: padded 6 (nanos / 1000)
  else '.' :: padded 9 nanos

def text (m : Moment) : List Char :=
  let date := m.date
  let second := m.ofDay % 60 + m.nanos / 1000000000
  yearText date.year ++ '-' :: padded 2 date.month ++ '-' :: padded 2 date.day ++
    'T' :: padded 2 (m.ofDay / 3600) ++ ':' :: padded 2 (m.ofDay / 60 % 60) ++
    ':' :: padded 2 second ++ fractionText (m.nanos % 1000000000) ++ ['Z']

end Moment
end SceneDoc
