import Mathlib.Tactic.Ring
import RepeatedAddition.Proofs.Calendar
import RepeatedAddition.Proofs.DurationReading
import RepeatedAddition.Proofs.ReportReading
import RepeatedAddition.Proofs.Verdict

/-!
# Reading a timestamp back

The text of a timestamp is read by the rules of RFC 3339, field by field and from the left, and what
it says is turned into an instant by the calendar alone: the number of the day, the time of the day
and the zone.  Nothing of this goes through `Date.ofDays`, so it tells whether the text names the
right instant.

A zone is written in whole minutes while its seconds move the clock, so the text is off by the
seconds of the offset that make no whole minute.

* `Rfc3339.read?`, `Rfc3339.Reading.instant`: what a text says, and the instant of which it speaks.
* `Timestamp.read?_layout`: the fields of a timestamp are read back from its text.
* `Timestamp.instant_fields`: how far the instant that is read is from the instant of the timestamp.
* `Timestamp.text_cases`: a timestamp has a text, or the first thing wrong with it is named.
* `Report.start_reads_back`: the start of a report is read back from its JSON text.
-/

namespace RepeatedAddition

/-! ## Reading RFC 3339 -/

namespace Rfc3339

open Text

/-- The number at the head of a text in exactly so many digits, and what follows. -/
def number? (width : Nat) (t : Text) : Option (Nat × Text) :=
  if (t.take width).length = width ∧ Digits (t.take width) then
    some (value (t.take width), t.drop width) else none

/-- What follows a byte at the head of a text. -/
def mark? (b : UInt8) : Text → Option Text
  | [] => none
  | c :: t => if c = b then some t else none

/-- The minutes by which a zone lies east: the letter `Z` for none, or a sign with hours and
minutes. -/
def zone? : Text → Option Int
  | [] => none
  | b :: t =>
    if b = 90 then if t.isEmpty then some 0 else none
    else if b = 43 ∨ b = 45 then do
      let (hours, t) ← number? 2 t
      let t ← mark? 58 t
      let (minutes, t) ← number? 2 t
      if t.isEmpty ∧ hours < 24 ∧ minutes < 60 then
        some (if b = 45 then -(60 * hours + minutes) else 60 * hours + minutes)
      else none
    else none

/-- What a text says: a date, a time of the day with the digits of its fraction, and the minutes by
which the zone lies east. -/
structure Reading where
  date : Date
  hour : Nat
  minute : Nat
  second : Nat
  fraction : Text
  zone : Int
  deriving DecidableEq, Repr

/-- The whole seconds since 1970-01-01 of which a text speaks. -/
def Reading.seconds (r : Reading) : Int :=
  86400 * r.date.number + 3600 * r.hour + 60 * r.minute + r.second - 60 * r.zone

/-- The instant of which a text speaks, in seconds since 1970-01-01. -/
def Reading.instant (r : Reading) : ℚ := r.seconds + r.fraction.fractionValue

/-- The date at the head of a text, if it is one of the calendar, and what follows. -/
def date? (t : Text) : Option (Date × Text) := do
  let (year, t) ← number? 4 t
  let t ← mark? 45 t
  let (month, t) ← number? 2 t
  let t ← mark? 45 t
  let (day, t) ← number? 2 t
  if (Date.mk year month day).Valid then some (⟨year, month, day⟩, t) else none

/-- Hour, minute and second at the head of a text, if they are a time of the day, and what
follows. -/
def clock? (t : Text) : Option (Nat × Nat × Nat × Text) := do
  let (hour, t) ← number? 2 t
  let t ← mark? 58 t
  let (minute, t) ← number? 2 t
  let t ← mark? 58 t
  let (second, t) ← number? 2 t
  if hour < 24 ∧ minute < 60 ∧ second < 60 then some (hour, minute, second, t) else none

/-- Reads a text: a date, the letter `T`, a time of the day, its fraction and the zone. -/
def read? (t : Text) : Option Reading := do
  let (date, t) ← date? t
  let t ← mark? 84 t
  let (hour, minute, second, t) ← clock? t
  let (fraction, t) ← fraction? t
  let zone ← zone? t
  some ⟨date, hour, minute, second, fraction, zone⟩

/-- A padded number is read back, whatever follows. -/
theorem number?_paddedDecimal {width n : Nat} (h : n < 10 ^ (width + 1)) (s : Text) :
    number? (width + 1) (paddedDecimal (width + 1) n ++ s) = some (n, s) := by
  have hlength := length_paddedDecimal h
  have htake : (paddedDecimal (width + 1) n ++ s).take (width + 1) = paddedDecimal (width + 1) n :=
    List.take_left' hlength
  have hdrop : (paddedDecimal (width + 1) n ++ s).drop (width + 1) = s := List.drop_left' hlength
  rw [number?, htake, hdrop, if_pos ⟨hlength, digits_paddedDecimal _ n⟩, value_paddedDecimal]

theorem mark?_cons (b : UInt8) (t : Text) : mark? b (b :: t) = some t := if_pos rfl

theorem number?_two {n : Nat} (h : n < 100) (s : Text) :
    number? 2 (paddedDecimal 2 n ++ s) = some (n, s) :=
  number?_paddedDecimal h s

/-- The dates of four-digit years are read back. -/
theorem date?_padded {year month day : Nat} (hyear : year < 10000)
    (hdate : (Date.mk year month day).Valid) (s : Text) :
    date? (paddedDecimal 4 year ++
      45 :: (paddedDecimal 2 month ++ 45 :: (paddedDecimal 2 day ++ s))) =
      some (⟨year, month, day⟩, s) := by
  have hmonth : month ≤ 12 := hdate.month_le
  have hday : day ≤ 31 := hdate.day_le
  have hfirst : ∀ s, number? 4 (paddedDecimal 4 year ++ s) = some (year, s) :=
    number?_paddedDecimal hyear
  simp only [date?, hfirst, Option.bind_eq_bind, Option.bind_some, mark?_cons,
    number?_two (show month < 100 by omega), number?_two (show day < 100 by omega)]
  exact if_pos hdate

/-- The times of a day are read back. -/
theorem clock?_padded {hour minute second : Nat} (hhour : hour < 24) (hminute : minute < 60)
    (hsecond : second < 60) (s : Text) :
    clock? (paddedDecimal 2 hour ++
      58 :: (paddedDecimal 2 minute ++ 58 :: (paddedDecimal 2 second ++ s))) =
      some (hour, minute, second, s) := by
  simp only [clock?, Option.bind_eq_bind, Option.bind_some, mark?_cons,
    number?_two (show hour < 100 by omega), number?_two (show minute < 100 by omega),
    number?_two (show second < 100 by omega)]
  exact if_pos ⟨hhour, hminute, hsecond⟩

/-- Hours and minutes of less than a day are read back with their sign. -/
theorem zone?_signed {sign : UInt8} (hsign : sign = 43 ∨ sign = 45) {minutes : Nat}
    (h : minutes < 1440) :
    zone? (sign :: (paddedDecimal 2 (minutes / 60) ++ 58 :: paddedDecimal 2 (minutes % 60))) =
      some (if sign = 45 then -(minutes : Int) else minutes) := by
  have hletter : sign ≠ 90 := by
    rintro rfl
    exact absurd hsign (by decide)
  have hlast := number?_two (show minutes % 60 < 100 by omega) []
  rw [List.append_nil] at hlast
  have hsum : (60 * (minutes / 60 : Nat) + (minutes % 60 : Nat) : Int) = minutes := by omega
  rw [zone?, if_neg hletter, if_pos hsign, number?_two (by omega)]
  simp only [Option.bind_eq_bind, Option.bind_some, mark?_cons, hlast, hsum]
  exact if_pos ⟨rfl, by omega, by omega⟩

end Rfc3339

/-! ## The text of a timestamp -/

namespace Timestamp

open Rfc3339

/-- The instant of a timestamp, in seconds since 1970-01-01. -/
def instant (t : Timestamp) : ℚ := t.seconds + t.nanoseconds.val / 10 ^ 9

theorem days_eq (t : Timestamp) : t.days = (t.seconds + t.offset) / 86400 :=
  Int.fdiv_eq_ediv_of_nonneg _ (by decide)

theorem secondOfDay_eq (t : Timestamp) :
    (t.secondOfDay : Int) = (t.seconds + t.offset) % 86400 := by
  have hmod : Int.fmod (t.seconds + t.offset) 86400 = (t.seconds + t.offset) % 86400 :=
    Int.fmod_eq_emod_of_nonneg _ (by decide)
  rw [secondOfDay, hmod]
  omega

theorem secondOfDay_lt (t : Timestamp) : t.secondOfDay < 86400 := by
  have h := t.secondOfDay_eq
  omega

theorem natAbs_offsetMinutes (t : Timestamp) : t.offsetMinutes.natAbs = t.offset.natAbs / 60 :=
  Int.natAbs_tdiv t.offset 60

/-- The zone is read back in whole minutes. -/
theorem zone?_zoneText {t : Timestamp} (h : t.offset.natAbs < 86400) :
    zone? t.zoneText = some t.offsetMinutes := by
  have hminutes := t.natAbs_offsetMinutes
  unfold zoneText
  by_cases hzero : t.offset = 0
  · rw [if_pos hzero, offsetMinutes, hzero]
    rfl
  · rw [if_neg hzero]
    show zone? ((if t.offsetMinutes < 0 then [45] else [43]) ++
      Text.paddedDecimal 2 (t.offsetMinutes.natAbs / 60) ++ [58] ++
      Text.paddedDecimal 2 (t.offsetMinutes.natAbs % 60)) = _
    rw [List.append_assoc, List.append_assoc]
    split
    case isTrue hwest =>
      show zone? (45 :: (Text.paddedDecimal 2 _ ++ 58 :: Text.paddedDecimal 2 _)) = _
      rw [zone?_signed (Or.inr rfl) (by omega), if_pos rfl]
      congr 1
      omega
    case isFalse heast =>
      show zone? (43 :: (Text.paddedDecimal 2 _ ++ 58 :: Text.paddedDecimal 2 _)) = _
      rw [zone?_signed (Or.inl rfl) (by omega), if_neg (by decide)]
      congr 1
      omega

/-- A zone starts with neither a digit nor a point. -/
theorem head?_zoneText (t : Timestamp) :
    ∀ b ∈ t.zoneText.head?, Text.isDigit b = false ∧ b ≠ 46 := by
  intro b hb
  unfold zoneText at hb
  split at hb
  · obtain rfl : 90 = b := Option.some.inj hb
    decide
  · dsimp only at hb
    split at hb
    · obtain rfl : 45 = b := Option.some.inj hb
      decide
    · obtain rfl : 43 = b := Option.some.inj hb
      decide

/-! ## The whole text -/

/-- The fields of a timestamp whose year and zone have room. -/
def fields (t : Timestamp) : Reading where
  date := t.date
  hour := t.secondOfDay / 3600
  minute := t.secondOfDay / 60 % 60
  second := t.secondOfDay % 60
  fraction := Duration.fractionDigits 9 t.nanoseconds.val
  zone := t.offsetMinutes

theorem valid_date (t : Timestamp) :
    t.date.Valid ∧ t.date.number = (t.seconds + t.offset) / 86400 := by
  rw [← days_eq]
  exact Date.ofDays_eq_iff.mp rfl

/-- **The fields of a timestamp are read back from its text.** -/
theorem read?_layout {t : Timestamp} (hyear : 0 ≤ t.date.year ∧ t.date.year ≤ 9999)
    (hzone : t.offset.natAbs < 86400) : read? t.layout = some t.fields := by
  obtain ⟨hvalid, -⟩ := t.valid_date
  have hsecond := t.secondOfDay_lt
  have hdate : (⟨t.date.year.toNat, t.date.month, t.date.day⟩ : Date) = t.date := by
    rw [Int.toNat_of_nonneg hyear.1]
  rw [← hdate] at hvalid
  have hfraction : Text.fraction? (Duration.fraction 9 t.nanoseconds.val ++ t.zoneText) =
      some (Duration.fractionDigits 9 t.nanoseconds.val, t.zoneText) := by
    rw [Duration.fraction_eq_pointed]
    exact Text.fraction?_pointed (Duration.digits_fractionDigits _ _) t.head?_zoneText
  have hlayout : t.layout = Text.paddedDecimal 4 t.date.year.toNat ++ 45 ::
      (Text.paddedDecimal 2 t.date.month ++ 45 ::
        (Text.paddedDecimal 2 t.date.day ++ 84 ::
          (Text.paddedDecimal 2 (t.secondOfDay / 3600) ++ 58 ::
            (Text.paddedDecimal 2 (t.secondOfDay / 60 % 60) ++ 58 ::
              (Text.paddedDecimal 2 (t.secondOfDay % 60) ++
                (Duration.fraction 9 t.nanoseconds.val ++ t.zoneText)))))) := by
    simp only [layout, List.append_assoc]
    rfl
  rw [hlayout, read?, date?_padded (by omega) hvalid, hdate]
  simp only [Option.bind_eq_bind, Option.bind_some, mark?_cons,
    clock?_padded (show t.secondOfDay / 3600 < 24 by omega) (show t.secondOfDay / 60 % 60 <
      60 by omega) (show t.secondOfDay % 60 < 60 by omega), hfraction, zone?_zoneText hzone]
  rfl

/-- **What is read differs from the instant by the seconds of the offset that make no whole
minute.** -/
theorem instant_fields (t : Timestamp) :
    t.fields.instant = t.instant + (Int.tmod t.offset 60 : Int) := by
  obtain ⟨-, hnumber⟩ := t.valid_date
  have hsecond := t.secondOfDay_eq
  have hfraction : (Duration.fractionDigits 9 t.nanoseconds.val).fractionValue =
      t.nanoseconds.val / 10 ^ 9 :=
    Duration.fractionValue_fractionDigits t.nanoseconds.isLt
  have hseconds : t.fields.seconds = t.seconds + Int.tmod t.offset 60 := by
    have hminutes : 60 * t.offsetMinutes + Int.tmod t.offset 60 = t.offset :=
      Int.mul_tdiv_add_tmod t.offset 60
    show 86400 * t.date.number + 3600 * (t.secondOfDay / 3600 : Nat) +
      60 * (t.secondOfDay / 60 % 60 : Nat) + (t.secondOfDay % 60 : Nat) - 60 * t.offsetMinutes = _
    rw [hnumber]
    omega
  show (t.fields.seconds : ℚ) + (Duration.fractionDigits 9 t.nanoseconds.val).fractionValue = _
  rw [hseconds, hfraction, instant, Int.cast_add]
  ring

-- Fifty-nine seconds of the offset move the clock, and the zone does not say so.
example :
    (⟨0, 500000000, -3599⟩ : Timestamp).layout = Text.lit "1969-12-31T23:00:01.5-00:59" := by decide

/-- The instant of seconds and nanoseconds is their sum while the seconds have room, even if the
nanoseconds are negative or more than a second. -/
theorem instant_ofParts {seconds nanoseconds : Int} (offset : Int)
    (h : -2 ^ 63 ≤ seconds + nanoseconds / 10 ^ 9 + epoch ∧
      seconds + nanoseconds / 10 ^ 9 + epoch < 2 ^ 63) :
    (ofParts seconds nanoseconds offset).instant = seconds + nanoseconds / 10 ^ 9 := by
  have hdiv : Int.fdiv nanoseconds 1000000000 = nanoseconds / 10 ^ 9 :=
    Int.fdiv_eq_ediv_of_nonneg _ (by decide)
  have hwrapped : wrapped (seconds + Int.fdiv nanoseconds 1000000000) =
      seconds + nanoseconds / 10 ^ 9 := by
    rw [wrapped, hdiv, Int.bmod_eq_of_le h.1 h.2]
    omega
  have hsum : nanoseconds = nanoseconds / 10 ^ 9 * 1000000000 + (ofSecond nanoseconds).val := by
    rw [val_ofSecond]
    omega
  have hcast := congrArg (Int.cast : Int → ℚ) hsum
  rw [Int.cast_add, Int.cast_mul, Int.cast_natCast] at hcast
  show ((wrapped (seconds + Int.fdiv nanoseconds 1000000000) : Int) : ℚ) +
    (ofSecond nanoseconds).val / 10 ^ 9 = _
  rw [hwrapped, hcast, Int.cast_add]
  ring

/-! ## Timestamps without text -/

/-- What is wrong with a timestamp.  The zone is looked at only if the year has room. -/
def Faulty (t : Timestamp) : Fault → Prop
  | .yearOutOfRange => t.date.year < 0 ∨ 9999 < t.date.year
  | .zoneHourOutOfRange => (0 ≤ t.date.year ∧ t.date.year ≤ 9999) ∧ 86400 ≤ t.offset.natAbs

/-- A timestamp has a text, or the first thing wrong with it is named. -/
theorem text_cases (t : Timestamp) :
    t.text = .error .yearOutOfRange ∧ (t.date.year < 0 ∨ 9999 < t.date.year) ∨
    t.text = .error .zoneHourOutOfRange ∧ (0 ≤ t.date.year ∧ t.date.year ≤ 9999) ∧
    86400 ≤ t.offset.natAbs ∨
    t.text = .ok t.layout ∧ (0 ≤ t.date.year ∧ t.date.year ≤ 9999) ∧ t.offset.natAbs < 86400 := by
  by_cases hyear : t.date.year < 0 ∨ 9999 < t.date.year
  · exact Or.inl ⟨if_pos hyear, hyear⟩
  have hroom : 0 ≤ t.date.year ∧ t.date.year ≤ 9999 := by omega
  by_cases hzone : t.offset.natAbs < 86400
  · exact Or.inr (Or.inr ⟨text_eq_ok hroom hzone, hroom, hzone⟩)
  · have hminutes := t.natAbs_offsetMinutes
    refine Or.inr (Or.inl ⟨?_, hroom, by omega⟩)
    rw [text, if_neg hyear, if_pos (by omega)]

theorem text_eq_error_iff {t : Timestamp} {fault : Fault} :
    t.text = .error fault ↔ t.Faulty fault := by
  obtain ⟨htext, h⟩ | ⟨htext, h⟩ | ⟨htext, h⟩ := t.text_cases <;> cases fault <;>
    simp only [htext, Faulty, Except.error.injEq, reduceCtorEq, true_iff, false_iff] <;> omega

theorem exists_text_iff {t : Timestamp} :
    (∃ s, t.text = .ok s) ↔ (0 ≤ t.date.year ∧ t.date.year ≤ 9999) ∧ t.offset.natAbs < 86400 := by
  constructor
  · rintro ⟨s, hs⟩
    obtain ⟨htext, h⟩ | ⟨htext, h⟩ | ⟨htext, h⟩ := t.text_cases
    · cases htext.symm.trans hs
    · cases htext.symm.trans hs
    · exact h
  · rintro ⟨hyear, hzone⟩
    exact ⟨t.layout, text_eq_ok hyear hzone⟩

end Timestamp

/-! ## Reports -/

namespace Report

open CommandLine

theorem json_eq_error_iff {r : Report} {fault : Timestamp.Fault} :
    r.json = .error fault ↔ r.metadata.startedAt.text = .error fault := by
  rw [json, document?]
  cases r.metadata.startedAt.text with
  | error other => exact Iff.rfl
  | ok startedAt => exact iff_of_false (by intro h; cases h) (by intro h; cases h)

theorem exists_json_iff {r : Report} :
    (∃ text, r.json = .ok text) ↔ ∃ s, r.metadata.startedAt.text = .ok s := by
  constructor
  · rintro ⟨text, htext⟩
    obtain ⟨s, hs, -⟩ := json_eq_ok_iff.mp htext
    exact ⟨s, hs⟩
  · rintro ⟨s, hs⟩
    exact ⟨_, json_eq_ok_iff.mpr ⟨s, hs, rfl⟩⟩

/-- A report is not written if its start has no text in a document, or if the format is unknown. -/
theorem write_eq_error_iff {r : Report} {format : Text} {e : WriteError} :
    r.write format = .error e ↔
      (format = Text.lit "json" ∧ ∃ fault, r.json = .error fault ∧ e = .timestamp fault) ∨
      (¬ KnownFormat format ∧ e = .unknownFormat format) := by
  by_cases hknown : KnownFormat format
  · obtain rfl | rfl := hknown
    · rw [write, if_pos rfl]
      cases r.json with
      | error fault => simp [KnownFormat, Except.mapError, eq_comm]
      | ok text => simp [KnownFormat, Except.mapError]
    · have hother : Text.lit "markdown" ≠ Text.lit "json" := by decide
      rw [write, if_neg hother, if_pos rfl]
      simp [KnownFormat, hother]
  · have hjson : format ≠ Text.lit "json" := fun h => hknown (Or.inl h)
    simp [write_of_unknown hknown, hjson, hknown, eq_comm]

/-- Where a report is not written, nothing is printed. -/
theorem reportEffect_of_error {r : Report} {format : Text} {e : WriteError}
    (h : r.write format = .error e) :
    reportEffect r format =
      { output := [], diagnostics := [], failure? := some (.unwritten e) } := by
  rw [reportEffect, h]
  rfl

/-- The text of the start is read from the one reading of the document. -/
theorem exists_startedAt {r : Report} {text : Text} (h : r.json = .ok text) :
    ∃ body document, text = body ++ Text.lit "\n" ∧
      (∀ d, Json.Grammar.Document body d ↔ d = document) ∧
      (document.get? "metadata").bind (Json.get? · "startedAt") =
        some (.string r.metadata.startedAt.layout) := by
  obtain ⟨startedAt, hstart, rfl⟩ := json_eq_ok_iff.mp h
  obtain ⟨metadata, hmetadata, hdescribed⟩ := (describedBy_documentAt r.repaired startedAt).metadata
  refine ⟨_, _, rfl, r.document_iff hstart, ?_⟩
  rw [hmetadata, Option.bind_some, hdescribed.startedAt, ← Timestamp.eq_layout_of_text hstart]

/-- **The start of a report is read back from its JSON text.**  There is one date of the calendar on
the day of the start in its zone.  There is no text exactly if the year of that date is beyond the
years 0 to 9999, which is said first, or if the zone is a day or more away; a report that is not
written, be it for its start or for an unknown format, leaves nothing printed.

Else the text is one document and a line end, and in the one reading of the document the start is a
text of RFC 3339.  The instant of which this speaks is that of the start, to the nanosecond, but for
the seconds of the offset that make no whole minute.  The last part says so of a start given in
seconds and any number of nanoseconds, while the seconds since the year 1 fit into a word. -/
theorem start_reads_back (r : Report) :
    ∃ date : Date,
      (∀ d : Date, d.Valid ∧
        d.number = (r.metadata.startedAt.seconds + r.metadata.startedAt.offset) / 86400 ↔
        d = date) ∧
      (r.json = .error .yearOutOfRange ↔ date.year < 0 ∨ 9999 < date.year) ∧
      (r.json = .error .zoneHourOutOfRange ↔
        (0 ≤ date.year ∧ date.year ≤ 9999) ∧ 86400 ≤ r.metadata.startedAt.offset.natAbs) ∧
      ((∃ text, r.json = .ok text) ↔
        (0 ≤ date.year ∧ date.year ≤ 9999) ∧ r.metadata.startedAt.offset.natAbs < 86400) ∧
      (∀ format e, r.write format = .error e ↔
        (format = Text.lit "json" ∧ ∃ fault, r.json = .error fault ∧ e = .timestamp fault) ∨
        (¬ KnownFormat format ∧ e = .unknownFormat format)) ∧
      (∀ format e, r.write format = .error e →
        reportEffect r format =
          { output := [], diagnostics := [], failure? := some (.unwritten e) }) ∧
      ∀ text, r.json = .ok text → ∃ body document startedAt reading,
        text = body ++ Text.lit "\n" ∧
        (∀ d, Json.Grammar.Document body d ↔ d = document) ∧
        (document.get? "metadata").bind (Json.get? · "startedAt") = some (.string startedAt) ∧
        Rfc3339.read? startedAt = some reading ∧
        reading.instant =
        r.metadata.startedAt.instant + (Int.tmod r.metadata.startedAt.offset 60 : Int) ∧
        (60 ∣ r.metadata.startedAt.offset → reading.instant = r.metadata.startedAt.instant) ∧
        ∀ seconds nanoseconds offset, r.metadata.startedAt =
        Timestamp.ofParts seconds nanoseconds offset →
          -2 ^ 63 ≤ seconds + nanoseconds / 10 ^ 9 + Timestamp.epoch →
          seconds + nanoseconds / 10 ^ 9 + Timestamp.epoch < 2 ^ 63 →
          reading.instant = seconds + (nanoseconds : ℚ) / 10 ^ 9 + (Int.tmod offset 60 : Int) := by
  refine ⟨r.metadata.startedAt.date, fun d => ?_, ?_, ?_, ?_, fun format e => write_eq_error_iff,
    fun format e => reportEffect_of_error, fun text htext => ?_⟩
  · rw [← Date.ofDays_eq_iff, ← Timestamp.days_eq, eq_comm]
    rfl
  · rw [json_eq_error_iff, Timestamp.text_eq_error_iff]
    rfl
  · rw [json_eq_error_iff, Timestamp.text_eq_error_iff]
    rfl
  · rw [exists_json_iff, Timestamp.exists_text_iff]
  · obtain ⟨hyear, hzone⟩ := Timestamp.exists_text_iff.mp (exists_json_iff.mp ⟨text, htext⟩)
    obtain ⟨body, document, hbody, hread, hstartedAt⟩ := exists_startedAt htext
    have hinstant := r.metadata.startedAt.instant_fields
    refine ⟨body, document, _, r.metadata.startedAt.fields, hbody, hread, hstartedAt,
      Timestamp.read?_layout hyear hzone, hinstant, fun hminute => ?_, ?_⟩
    · rw [hinstant, Int.tmod_eq_zero_of_dvd hminute, Int.cast_zero, add_zero]
    · intro seconds nanoseconds offset hparts hlow hhigh
      rw [hinstant, hparts, Timestamp.instant_ofParts offset ⟨hlow, hhigh⟩]
      rfl

end Report

end RepeatedAddition
