import SqlCompiler.Number.Decimal
/-!
# Dates and times

Dates of the proleptic Gregorian calendar, times of day with nanoseconds, and their texts. A leap
second has the second 59 and a fraction of a whole second or more; it is written as second 60.
-/

namespace SqlCompiler

structure Date where
  year : Int
  month : Nat
  day : Nat
deriving DecidableEq, Repr

structure TimeOfDay where
  hour : Nat
  minute : Nat
  second : Nat
  nanos : Nat
deriving DecidableEq, Repr

structure DateTime where
  date : Date
  time : TimeOfDay
deriving DecidableEq, Repr

/-- Four digits, and a sign in front of a year that is negative or has more. -/
def yearText (year : Int) : String :=
  if 0 ≤ year ∧ year ≤ 9999 then padded 4 year.toNat
  else (if year < 0 then "-" else "+") ++ padded 4 year.natAbs

/-- As in `2024-05-06`. -/
def Date.text (d : Date) : String :=
  yearText d.year ++ "-" ++ padded 2 d.month ++ "-" ++ padded 2 d.day

namespace TimeOfDay

/-- The second as it is written. -/
def writtenSecond (t : TimeOfDay) : Nat :=
  if t.nanos ≥ tenTo 9 then t.second + 1 else t.second

def writtenNanos (t : TimeOfDay) : Nat :=
  t.nanos % tenTo 9

/-- As in `07:08:09`. -/
def text (t : TimeOfDay) : String :=
  padded 2 t.hour ++ ":" ++ padded 2 t.minute ++ ":" ++ padded 2 t.writtenSecond

/-- The fraction with as many groups of three digits as it needs, none for zero. -/
def fractionText (t : TimeOfDay) : String :=
  let n := t.writtenNanos
  if n = 0 then ""
  else if n % tenTo 6 = 0 then "." ++ padded 3 (n / tenTo 6)
  else if n % tenTo 3 = 0 then "." ++ padded 6 (n / tenTo 3)
  else "." ++ padded 9 n

def exactText (t : TimeOfDay) : String :=
  t.text ++ t.fractionText

/-- The time cut to milliseconds, as in `07:08:09.120`. -/
def milliText (t : TimeOfDay) : String :=
  t.text ++ "." ++ padded 3 (t.writtenNanos / tenTo 6)

end TimeOfDay

namespace DateTime

/-- As in `2024-05-06 07:08:09`. -/
def text (d : DateTime) : String :=
  d.date.text ++ " " ++ d.time.text

def milliText (d : DateTime) : String :=
  d.date.text ++ " " ++ d.time.milliText

/-- With the whole fraction, and a `T` between date and time. -/
def exactText (d : DateTime) : String :=
  d.date.text ++ "T" ++ d.time.exactText

end DateTime

/-- The number of a day, counted from the first of March of the year 0. -/
def Date.dayNumber (d : Date) : Int :=
  let y := if d.month ≤ 2 then d.year - 1 else d.year
  let m := (d.month + 9) % 12
  365 * y + y / 4 - y / 100 + y / 400 + ((153 * m + 2) / 5 : Nat) + (d.day - 1 : Nat)

def Date.ofDayNumber (n : Int) : Date :=
  let era := n / 146097
  let dayOfEra := (n % 146097).toNat
  let yearOfEra := (dayOfEra - dayOfEra / 1460 + dayOfEra / 36524 - dayOfEra / 146096) / 365
  let dayOfYear := dayOfEra - (365 * yearOfEra + yearOfEra / 4 - yearOfEra / 100)
  let m := (5 * dayOfYear + 2) / 153
  let month := if m < 10 then m + 3 else m - 9
  let year := era * 400 + yearOfEra
  { year := if month ≤ 2 then year + 1 else year
    month
    day := dayOfYear - (153 * m + 2) / 5 + 1 }

/-- The moment `offset` seconds east of Greenwich, in Greenwich. -/
def DateTime.toUtc (d : DateTime) (offset : Int) : DateTime :=
  let seconds : Int := d.time.hour * 3600 + d.time.minute * 60 + d.time.second - offset
  let s := (seconds % 86400).toNat
  { date := Date.ofDayNumber (d.date.dayNumber + seconds / 86400)
    time := { hour := s / 3600, minute := s / 60 % 60, second := s % 60, nanos := d.time.nanos } }

end SqlCompiler
