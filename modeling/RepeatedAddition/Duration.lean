import RepeatedAddition.Text.Basic

/-!
# Durations

A duration is a number of nanoseconds.  Its text loses nothing.  From one second on it is written in
hours, minutes and seconds, the larger ones only where needed and the seconds with their fraction;
below one second it is written in the largest of ms, µs and ns that is not above it, with a
fraction; nothing at all is `0s`.  A fraction never ends in a zero.

* `Duration.fraction`: the digits behind the point.
* `Duration.text`: the text of a duration.
-/

namespace RepeatedAddition

namespace Duration

/-- Drops the zeros at the end of a text of digits. -/
def trimZeros (t : Text) : Text := (t.reverse.dropWhile (· == Text.digit 0)).reverse

/-- The fraction `n / 10 ^ width`: a point and the digits up to the last that is not zero, or
nothing. -/
def fraction (width n : Nat) : Text :=
  let digits := trimZeros (Text.paddedDecimal width n)
  if digits.isEmpty then [] else Text.lit "." ++ digits

/-- A number of units with a fraction, the unit being `10 ^ width` nanoseconds. -/
def inUnit (width : Nat) (symbol : Text) (nanoseconds : Nat) : Text :=
  Text.decimal (nanoseconds / Nat.pow 10 width) ++
    fraction width (nanoseconds % Nat.pow 10 width) ++ symbol

/-- Whole seconds and a fraction as hours, minutes and seconds. -/
def clock (nanoseconds : Nat) : Text :=
  let seconds := nanoseconds / Nat.pow 10 9
  let minutes := seconds / 60
  let hours := minutes / 60
  (if hours > 0 then Text.decimal hours ++ Text.lit "h" else [])
    ++ (if minutes > 0 then Text.decimal (minutes % 60) ++ Text.lit "m" else [])
    ++ Text.decimal (seconds % 60) ++ fraction 9 (nanoseconds % Nat.pow 10 9) ++ Text.lit "s"

/-- The text of a number of nanoseconds without sign. -/
def magnitude (nanoseconds : Nat) : Text :=
  if nanoseconds = 0 then Text.lit "0s"
  else if nanoseconds < Nat.pow 10 3 then inUnit 0 (Text.lit "ns") nanoseconds
  else if nanoseconds < Nat.pow 10 6 then inUnit 3 (Text.lit "µs") nanoseconds
  else if nanoseconds < Nat.pow 10 9 then inUnit 6 (Text.lit "ms") nanoseconds
  else clock nanoseconds

/-- The text of a duration in nanoseconds. -/
def text (nanoseconds : Int) : Text :=
  (if nanoseconds < 0 then Text.lit "-" else []) ++ magnitude nanoseconds.natAbs

end Duration

end RepeatedAddition
