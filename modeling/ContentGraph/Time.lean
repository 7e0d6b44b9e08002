/-!
# Instants

Points in time as seconds and nanoseconds since 1970-01-01 UTC, the proleptic Gregorian calendar,
and the ISO 8601 text with milliseconds. A leap second is the nanoseconds 10⁹ and up of a
second that ends a minute; it prints as second 60.
-/

namespace ContentGraph

/-- A day of the proleptic Gregorian calendar. -/
structure Date where
  year : Int
  month : Nat
  day : Nat
deriving Repr, DecidableEq

/-- The date that lies `days` days after 1970-01-01. Years are counted from March, so that the
leap day is the last of a year, in eras of 400 years. -/
def Date.ofDays (days : Int) : Date :=
  let z := days + 719468
  let era := z.fdiv 146097
  let dayOfEra := (z - era * 146097).toNat
  let yearOfEra := (dayOfEra - dayOfEra / 1460 + dayOfEra / 36524 - dayOfEra / 146096) / 365
  let dayOfYear := dayOfEra - (365 * yearOfEra + yearOfEra / 4 - yearOfEra / 100)
  let marchMonth := (5 * dayOfYear + 2) / 153
  let day := dayOfYear - (153 * marchMonth + 2) / 5 + 1
  let month := if marchMonth < 10 then marchMonth + 3 else marchMonth - 9
  ⟨yearOfEra + era * 400 + (if month ≤ 2 then 1 else 0), month, day⟩

/-- A point in time. -/
structure Instant where
  seconds : Int
  nanos : Nat
deriving Repr, DecidableEq

namespace Instant

/-- The earliest and the latest year that an instant may have. -/
def yearRange : Int × Int := (-262143, 262142)

/-- The date of an instant. -/
def date (t : Instant) : Date := Date.ofDays (t.seconds.fdiv 86400)

/-- An instant whose year is in range and whose nanoseconds reach 10⁹ only in a second that ends
a minute. -/
def ofParts? (seconds : Int) (nanos : Nat) : Option Instant :=
  let t : Instant := ⟨seconds, nanos⟩
  if t.date.year < yearRange.1 ∨ yearRange.2 < t.date.year then none
  else if 2000000000 ≤ nanos then none
  else if 1000000000 ≤ nanos ∧ seconds % 60 ≠ 59 then none
  else some t

/-- The instant `millis` milliseconds after the epoch, if its year is in range. -/
def ofMillis? (millis : Int) : Option Instant :=
  ofParts? (millis.fdiv 1000) ((millis.fmod 1000).toNat * 1000000)

/-- Decimal digits, with zeros in front up to the given width. -/
def padded (width n : Nat) : String :=
  let digits := Nat.toDigits 10 n
  String.ofList (List.replicate (width - digits.length) '0' ++ digits)

/-- A year: four digits from 0 to 9999, else a sign and at least four digits. -/
def yearText (y : Int) : String :=
  if 0 ≤ y ∧ y ≤ 9999 then padded 4 y.toNat
  else if y < 0 then "-" ++ padded 4 y.natAbs
  else "+" ++ padded 4 y.natAbs

/-- ISO 8601 in UTC with milliseconds, such as `2024-05-01T12:00:00.000Z`. -/
def iso (t : Instant) : String :=
  let d := t.date
  let second := (t.seconds.fmod 86400).toNat
  let leap := t.nanos / 1000000000
  yearText d.year ++ "-" ++ padded 2 d.month ++ "-" ++ padded 2 d.day ++ "T"
    ++ padded 2 (second / 3600) ++ ":" ++ padded 2 (second / 60 % 60) ++ ":"
    ++ padded 2 (second % 60 + leap) ++ "."
    ++ padded 3 (t.nanos % 1000000000 / 1000000) ++ "Z"

end Instant

/-- Milliseconds since the epoch, as a clock is read. -/
abbrev Millis := Int

/-- The ISO text of a clock reading; out of the calendar's range, the bare number. -/
def Millis.iso (t : Millis) : String :=
  match Instant.ofMillis? t with
  | some i => i.iso
  | none => toString t

end ContentGraph
