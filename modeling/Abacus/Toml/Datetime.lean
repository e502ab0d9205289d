/-!
# Dates and times

A settings file may hold dates, times of day, and both together, with or without the
distance to universal time.  The program has no use for them, but it keeps them when
it writes the file anew.
-/

namespace Abacus.Toml

/-- A day. -/
structure Date where
  year : Nat
  month : Nat
  day : Nat
  deriving DecidableEq, Repr

/-- A time of day. -/
structure Time where
  hour : Nat
  minute : Nat
  second : Nat
  nanosecond : Nat := 0
  deriving DecidableEq, Repr

/-- The distance to universal time. -/
inductive Offset where
  | zero
  | minutes (n : Int)
  deriving DecidableEq, Repr

/-- A date, a time, or both. -/
structure Datetime where
  date : Option Date := none
  time : Option Time := none
  offset : Option Offset := none
  deriving DecidableEq, Repr

/-- Whether a year has a leap day. -/
def isLeap (year : Nat) : Bool :=
  year % 4 = 0 && (year % 100 ≠ 0 || year % 400 = 0)

/-- The number of days in a month. -/
def daysIn (year month : Nat) : Nat :=
  if month = 2 then (if isLeap year then 29 else 28)
  else if month ∈ [4, 6, 9, 11] then 30
  else 31

/-- A number with leading zeros up to a width. -/
def padded (width n : Nat) : List Char :=
  let ds := Nat.toDigits 10 n
  List.replicate (width - ds.length) '0' ++ ds

/-- The characters of a date. -/
def Date.chars (d : Date) : List Char :=
  padded 4 d.year ++ '-' :: (padded 2 d.month ++ '-' :: padded 2 d.day)

/-- The fraction of a second, with a point in front, without trailing zeros. -/
def fractionChars (nanosecond : Nat) : List Char :=
  if nanosecond = 0 then []
  else '.' :: ((padded 9 nanosecond).reverse.dropWhile (· == '0')).reverse

/-- The characters of a time. -/
def Time.chars (t : Time) : List Char :=
  padded 2 t.hour ++ ':' :: (padded 2 t.minute ++ ':' :: padded 2 t.second) ++
    fractionChars t.nanosecond

/-- The characters of a distance. -/
def Offset.chars : Offset → List Char
  | .zero => ['Z']
  | .minutes n =>
      (if n < 0 then '-' else '+') :: (padded 2 (n.natAbs / 60) ++ ':' :: padded 2 (n.natAbs % 60))

/-- The characters of a date and time. -/
def Datetime.chars (d : Datetime) : List Char :=
  (match d.date with
    | some date => date.chars
    | none => []) ++
  (if d.date.isSome && d.time.isSome then ['T'] else []) ++
  (match d.time with
    | some time => time.chars
    | none => []) ++
  (match d.offset with
    | some offset => offset.chars
    | none => [])

example : Datetime.chars ⟨some ⟨2024, 1, 2⟩, some ⟨3, 4, 5, 60000000⟩, some (.minutes (-90))⟩ =
    "2024-01-02T03:04:05.06-01:30".toList := by decide +kernel

end Abacus.Toml
