import RepeatedAddition.Duration

/-!
# Timestamps

A timestamp is an instant together with the offset of the zone in which it is shown.  Its text
follows RFC 3339 with as many fraction digits as needed.  The date is that of the proleptic
Gregorian calendar: a day number is split into eras of 400 years, 146097 days each, counted from the
first of March of the year 0, so that the leap day is the last of its year.

RFC 3339 has room for the years 0 to 9999 and for offsets of less than 24 hours; `Timestamp.text`
refuses others, the year first.  An offset is written in whole minutes, cut toward zero, while its
seconds still move the clock.

Instants are counted in a signed word of 64 bits, in seconds since the first instant of the year 1.
What is given beyond it comes in again at the other end, while moving an instant stops at the last
one.  The shift into a zone is not kept in a word.  It shows what it would show if it were as long
as the shifted seconds are less than `2 ^ 62` away from 1970: for all offsets of less than `2 ^ 61`
seconds, if the instant itself is no further away than that.

* `Date.ofDays`: the date of a day number, day 0 being 1970-01-01.
* `Timestamp.ofParts`: the timestamp of seconds and any number of nanoseconds.
* `Timestamp.later`, `Timestamp.since`: an instant moved by nanoseconds, and the nanoseconds between
  two.
* `Timestamp.text`: the text of a timestamp.
-/

namespace RepeatedAddition

/-- A date of the proleptic Gregorian calendar. -/
structure Date where
  year : Int
  month : Nat
  day : Nat
  deriving DecidableEq, Repr

namespace Date

/-- The years of an era that are over on its given day: leap years end after 1460 days each, but for
three of the four hundredth years. -/
def yearOfEra (dayOfEra : Nat) : Nat :=
  (dayOfEra - dayOfEra / 1460 + dayOfEra / 36524 - dayOfEra / 146096) / 365

/-- The date of a day number.  Months are first counted from March, in which the days before a month
follow the line `(153 m + 2) / 5`. -/
def ofDays (days : Int) : Date :=
  let shifted := days + 719468
  let era := Int.fdiv shifted 146097
  let dayOfEra := (shifted - era * 146097).toNat
  let years := yearOfEra dayOfEra
  let dayOfYear := dayOfEra - (365 * years + years / 4 - years / 100)
  let fromMarch := (5 * dayOfYear + 2) / 153
  let month := if fromMarch < 10 then fromMarch + 3 else fromMarch - 9
  { year := years + era * 400 + (if month ≤ 2 then 1 else 0)
    month := month
    day := dayOfYear - (153 * fromMarch + 2) / 5 + 1 }

end Date

/-- An instant, in seconds since 1970-01-01 and nanoseconds of the second, shown in a zone that lies
`offset` seconds east. -/
structure Timestamp where
  seconds : Int
  nanoseconds : Fin 1000000000
  offset : Int
  deriving DecidableEq, Repr

namespace Timestamp

/-- The nanoseconds of the second in which a number of nanoseconds ends. -/
def ofSecond (nanoseconds : Int) : Fin 1000000000 :=
  ⟨(Int.fmod nanoseconds 1000000000).toNat, by
    have hlt := Int.fmod_lt_of_pos nanoseconds (show (0 : Int) < 1000000000 by decide)
    omega⟩

/-- The seconds from the first instant of the year 1 to that of 1970. -/
def epoch : Int := 62135596800

/-- The first instant of the year 1, shown in the zone without offset. -/
def zero : Timestamp := ⟨-epoch, 0, 0⟩

/-- The seconds that stand for a number of seconds since 1970 when those since the year 1 are kept
in a word. -/
def wrapped (seconds : Int) : Int := Int.bmod (seconds + epoch) (Nat.pow 2 64) - epoch

/-- The timestamp of seconds and nanoseconds, of which the latter may be negative or more than a
second. -/
def ofParts (seconds nanoseconds offset : Int) : Timestamp :=
  { seconds := wrapped (seconds + Int.fdiv nanoseconds 1000000000)
    nanoseconds := ofSecond nanoseconds
    offset := offset }

/-- Seconds since the year 1 moved by some more.  Where the word has no room they stop at its
greatest number, or at the negative of it. -/
def moved (seconds change : Int) : Int :=
  let sum := seconds + change
  let bound : Int := (Nat.pow 2 63 : Nat)
  if -bound ≤ sum ∧ sum < bound then sum
  else if 0 < change then bound - 1
  else -(bound - 1)

/-- The timestamp moved by a number of nanoseconds. -/
def later (t : Timestamp) (nanoseconds : Int) : Timestamp :=
  let total := t.nanoseconds.val + nanoseconds
  { t with
    seconds := moved (t.seconds + epoch) (Int.fdiv total 1000000000) - epoch
    nanoseconds := ofSecond total }

/-- The nanoseconds from an earlier timestamp to this one. -/
def since (t start : Timestamp) : Int :=
  (t.seconds - start.seconds) * 1000000000 + (t.nanoseconds.val - start.nanoseconds.val)

/-- Why a timestamp has no text. -/
inductive Fault where
  | yearOutOfRange
  | zoneHourOutOfRange
  deriving DecidableEq, Repr

/-- What is said of a timestamp without text. -/
def Fault.message : Fault → Text
  | .yearOutOfRange => Text.lit "year outside of range [0,9999]"
  | .zoneHourOutOfRange => Text.lit "timezone hour outside of range [0,23]"

/-- The day number of a timestamp in its zone, with a shift that is not kept in a word. -/
def days (t : Timestamp) : Int := Int.fdiv (t.seconds + t.offset) 86400

/-- The second of the day of a timestamp in its zone, with a shift that is not kept in a word. -/
def secondOfDay (t : Timestamp) : Nat := (Int.fmod (t.seconds + t.offset) 86400).toNat

/-- The date of a timestamp in its zone. -/
def date (t : Timestamp) : Date := Date.ofDays t.days

/-- Whole minutes of an offset, cut toward zero. -/
def offsetMinutes (t : Timestamp) : Int := Int.tdiv t.offset 60

/-- The text of the zone: a letter for no offset, else hours and minutes with a sign. -/
def zoneText (t : Timestamp) : Text :=
  if t.offset = 0 then Text.lit "Z"
  else
    let minutes := t.offsetMinutes.natAbs
    (if t.offsetMinutes < 0 then Text.lit "-" else Text.lit "+")
      ++ Text.paddedDecimal 2 (minutes / 60) ++ Text.lit ":" ++ Text.paddedDecimal 2 (minutes % 60)

/-- The text of a timestamp whose year and offset have room. -/
def layout (t : Timestamp) : Text :=
  let date := t.date
  let second := t.secondOfDay
  Text.paddedDecimal 4 date.year.toNat ++ Text.lit "-" ++ Text.paddedDecimal 2 date.month ++
    Text.lit "-" ++ Text.paddedDecimal 2 date.day ++ Text.lit "T" ++
    Text.paddedDecimal 2 (second / 3600) ++ Text.lit ":" ++
    Text.paddedDecimal 2 (second / 60 % 60) ++ Text.lit ":" ++ Text.paddedDecimal 2 (second % 60) ++
    Duration.fraction 9 t.nanoseconds.val ++ t.zoneText

/-- The text of a timestamp. -/
def text (t : Timestamp) : Except Fault Text :=
  if t.date.year < 0 ∨ 9999 < t.date.year then .error .yearOutOfRange
  else if 24 ≤ t.offsetMinutes.natAbs / 60 then .error .zoneHourOutOfRange
  else .ok t.layout

end Timestamp

end RepeatedAddition
