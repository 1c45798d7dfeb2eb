import RepeatedAddition.Comparison
import RepeatedAddition.Proofs.DecimalFraction
import RepeatedAddition.Proofs.Report

/-!
# Reading a duration back

A duration is written as a sum of parts, each a number before the symbol of its unit, with a minus
sign before them if it is negative.  Here such texts are read, and by nothing but that rule: a part
is digits, a fraction if there is a point, and whatever stands before the next digit as its symbol.
It does not matter to the reading how a duration is split into units, so that what is read is known
to be right whatever units were chosen for it.

What is written is read back as the same number of nanoseconds, with nothing rounded, and so two
durations never have the same text.

* `Duration.TimeUnit`, `Duration.Part`, `Duration.Reading`: what a text says.
* `Duration.read?`: reads a text.
* `Duration.Proper`: how the parts of a duration are chosen.
* `Duration.exists_parts`: a number of nanoseconds is written in proper parts that sum up to it.
* `Duration.exists_reading`: the text of a duration is read back.
* `Comparison.duration_reads_back`: so is the duration in the report of a run.
-/

namespace RepeatedAddition

namespace Duration

open Text

/-! ## What a text says -/

/-- The units of time. -/
inductive TimeUnit where
  | hour
  | minute
  | second
  | millisecond
  | microsecond
  | nanosecond
  deriving DecidableEq, Repr

namespace TimeUnit

/-- The symbol of a unit. -/
def symbol : TimeUnit → Text
  | .hour => lit "h"
  | .minute => lit "m"
  | .second => lit "s"
  | .millisecond => lit "ms"
  | .microsecond => lit "µs"
  | .nanosecond => lit "ns"

/-- The nanoseconds of a unit. -/
def nanoseconds : TimeUnit → Nat
  | .hour => 3600 * 1000000000
  | .minute => 60 * 1000000000
  | .second => 1000000000
  | .millisecond => 1000000
  | .microsecond => 1000
  | .nanosecond => 1

/-- The unit of a symbol. -/
def ofSymbol? (t : Text) : Option TimeUnit :=
  [hour, minute, second, millisecond, microsecond, nanosecond].find? fun u => u.symbol = t

theorem ofSymbol?_symbol (u : TimeUnit) : ofSymbol? u.symbol = some u := by
  cases u <;> decide

theorem isDigit_symbol (u : TimeUnit) : ∀ b ∈ u.symbol, isDigit b = false := by
  have hall : u.symbol.all (!isDigit ·) = true := by cases u <;> decide
  intro b hb
  have hone : (!isDigit b) = true := List.all_eq_true.mp hall b hb
  rwa [Bool.not_eq_true'] at hone

/-- A symbol starts with neither a digit nor a point. -/
theorem head?_symbol (u : TimeUnit) : ∃ b t, u.symbol = b :: t ∧ isDigit b = false ∧ b ≠ 46 := by
  cases u <;> exact ⟨_, _, rfl, by decide, by decide⟩

end TimeUnit

/-- A number of units: its digits before and behind the point, and the unit. -/
structure Part where
  whole : Text
  fraction : Text
  unit : TimeUnit
  deriving DecidableEq, Repr

namespace Part

/-- The text of a part. -/
def text (p : Part) : Text := p.whole ++ pointed p.fraction ++ p.unit.symbol

/-- How many of its unit a part is. -/
def amount (p : Part) : ℚ := p.whole.value + p.fraction.fractionValue

/-- How many nanoseconds a part is. -/
def value (p : Part) : ℚ := p.amount * p.unit.nanoseconds

/-- The part at the head of a text, and what follows. -/
def read? (t : Text) : Option (Part × Text) :=
  if (t.takeWhile isDigit).isEmpty then none
  else do
    let (fraction, rest) ← fraction? (t.dropWhile isDigit)
    let unit ← TimeUnit.ofSymbol? (rest.takeWhile (!isDigit ·))
    return (⟨t.takeWhile isDigit, fraction, unit⟩, rest.dropWhile (!isDigit ·))

/-- There is a number before the unit. -/
structure Legible (p : Part) : Prop where
  ne_nil : p.whole ≠ []
  whole : p.whole.Digits
  fraction : p.fraction.Digits

/-- **A part is read back**, before the next one or the end. -/
theorem read?_text {p : Part} (hp : p.Legible) {s : Text} (hs : ∀ b ∈ s.head?, isDigit b = true) :
    read? (p.text ++ s) = some (p, s) := by
  obtain ⟨b, symbol, hsymbol, hdigit, hpoint⟩ := p.unit.head?_symbol
  have hunit : ∀ c ∈ (p.unit.symbol ++ s).head?, isDigit c = false ∧ c ≠ 46 := by
    intro c hc
    rw [hsymbol] at hc
    obtain rfl := Option.some.inj hc
    exact ⟨hdigit, hpoint⟩
  have hfraction : ∀ c ∈ (pointed p.fraction ++ (p.unit.symbol ++ s)).head?, isDigit c = false := by
    intro c hc
    rw [pointed] at hc
    split at hc
    · exact (hunit c hc).1
    · obtain rfl : 46 = c := Option.some.inj hc
      decide
  obtain ⟨hwhole, hrest⟩ := span_append hp.whole hfraction
  obtain ⟨htake, hdrop⟩ := span_append (p := (!isDigit ·)) (t := p.unit.symbol) (s := s)
    (fun c hc => by simp [p.unit.isDigit_symbol c hc]) (fun c hc => by simp [hs c hc])
  have hne : p.whole.isEmpty = false := List.isEmpty_eq_false_iff.mpr hp.ne_nil
  have htext : p.text ++ s = p.whole ++ (pointed p.fraction ++ (p.unit.symbol ++ s)) := by
    rw [text, List.append_assoc, List.append_assoc]
  rw [read?, htext, hwhole, hrest, hne, fraction?_pointed hp.fraction hunit]
  simp only [Option.bind_eq_bind, Option.bind_some, htake, hdrop, TimeUnit.ofSymbol?_symbol]
  rfl

theorem head?_text {p : Part} (hp : p.Legible) : ∃ b, p.text.head? = some b ∧ isDigit b = true := by
  obtain ⟨b, t, ht⟩ := List.exists_cons_of_ne_nil hp.ne_nil
  refine ⟨b, ?_, hp.whole b (ht ▸ List.mem_cons_self)⟩
  rw [text, ht]
  rfl

end Part

/-- The parts of a text, at most `limit` of them. -/
def parts? : Nat → Text → Option (List Part)
  | _, [] => some []
  | 0, _ :: _ => none
  | limit + 1, b :: t => do
    let (p, rest) ← Part.read? (b :: t)
    let ps ← parts? limit rest
    return p :: ps

/-- What a text says: a sign, and parts that are added up. -/
structure Reading where
  negative : Bool
  parts : List Part
  deriving DecidableEq, Repr

/-- The sum of some parts, in nanoseconds. -/
def total (ps : List Part) : ℚ := (ps.map Part.value).sum

/-- The nanoseconds of which a text speaks. -/
def Reading.value (r : Reading) : ℚ := if r.negative then -total r.parts else total r.parts

/-- Reads a text.  Each part takes at least one byte, so the length of the text is limit enough. -/
def read? : Text → Option Reading
  | [] => none
  | b :: t =>
    if b = 45 then (parts? t.length t).map (⟨true, ·⟩) else
      (parts? (b :: t).length (b :: t)).map (⟨false, ·⟩)

theorem parts?_nil (limit : Nat) : parts? limit [] = some [] := by
  cases limit <;> rfl

theorem parts?_cons {p : Part} (hp : p.Legible) {t : Text} (ht : ∀ b ∈ t.head?, isDigit b = true)
    (limit : Nat) :
    parts? (limit + 1) (p.text ++ t) = (parts? limit t).map (p :: ·) := by
  obtain ⟨b, hb, -⟩ := Part.head?_text hp
  have hread := Part.read?_text hp ht
  obtain ⟨rest, hrest⟩ : ∃ rest, p.text ++ t = b :: rest := by
    obtain ⟨rest, hrest⟩ := List.head?_eq_some_iff.mp hb
    exact ⟨rest ++ t, by rw [hrest, List.cons_append]⟩
  rw [hrest] at hread ⊢
  rw [parts?, hread]
  simp only [Option.bind_eq_bind, Option.bind_some]
  cases parts? limit t <;> rfl

theorem head?_flatMap_text {ps : List Part} (h : ∀ p ∈ ps, p.Legible) :
    ∀ b ∈ (ps.flatMap Part.text).head?, isDigit b = true := by
  intro b hb
  cases ps with
  | nil => exact absurd hb (Option.not_mem_none b)
  | cons p ps =>
    obtain ⟨c, hc, hdigit⟩ := Part.head?_text (h p List.mem_cons_self)
    rw [List.flatMap_cons, List.head?_append, hc, Option.some_or] at hb
    rwa [← Option.some.inj hb]

/-- **Parts that are written one behind another are read back.** -/
theorem parts?_flatMap {ps : List Part} (h : ∀ p ∈ ps, p.Legible) {limit : Nat}
    (hlimit : ps.length ≤ limit) :
    parts? limit (ps.flatMap Part.text) = some ps := by
  induction ps generalizing limit with
  | nil => exact parts?_nil limit
  | cons p ps ih =>
    have hps : ∀ q ∈ ps, q.Legible := fun q hq => h q (List.mem_cons_of_mem p hq)
    obtain ⟨limit, rfl⟩ : ∃ l, limit = l + 1 :=
      ⟨limit - 1, by rw [List.length_cons] at hlimit; omega⟩
    rw [List.flatMap_cons, parts?_cons (h p List.mem_cons_self) (head?_flatMap_text hps),
      ih hps (Nat.le_of_succ_le_succ hlimit)]
    rfl

theorem length_le_length_flatMap_text {ps : List Part} (h : ∀ p ∈ ps, p.Legible) :
    ps.length ≤ (ps.flatMap Part.text).length := by
  induction ps with
  | nil => exact Nat.le_refl 0
  | cons p ps ih =>
    have htail := ih fun q hq => h q (List.mem_cons_of_mem p hq)
    obtain ⟨b, hb, -⟩ := Part.head?_text (h p List.mem_cons_self)
    have hpos : 0 < p.text.length := List.length_pos_of_mem (List.mem_of_mem_head? hb)
    rw [List.length_cons, List.flatMap_cons, List.length_append]
    omega

/-! ## The parts of a duration -/

/-- How the parts of a duration are chosen: from one second on by hours, minutes and seconds, else
by one smaller unit.  Only the last part has a fraction, which does not end in a zero, and what
stands behind a larger unit is less than sixty. -/
structure Proper (ps : List Part) : Prop where
  legible : ∀ p ∈ ps, p.Legible
  units : ps.map Part.unit ∈
    [[.hour, .minute, .second], [.minute, .second], [.second], [.millisecond], [.microsecond],
      [.nanosecond]]
  fraction_last : ∀ p ∈ ps.dropLast, p.fraction = []
  trimmed : ∀ p ∈ ps, p.fraction.getLast? ≠ some (digit 0)
  carried : ∀ p ∈ ps.tail, p.amount < 60

namespace Part

/-- A whole number of units. -/
def counted (u : TimeUnit) (k : Nat) : Part := ⟨decimal k, [], u⟩

/-- A number of nanoseconds in a unit of `10 ^ width` nanoseconds. -/
def measured (width : Nat) (u : TimeUnit) (n : Nat) : Part :=
  ⟨decimal (n / 10 ^ width), fractionDigits width (n % 10 ^ width), u⟩

theorem legible_counted (u : TimeUnit) (k : Nat) : (counted u k).Legible where
  ne_nil := (isDecimal_decimal k).ne_nil
  whole := (isDecimal_decimal k).digits
  fraction := digits_nil

theorem legible_measured (width : Nat) (u : TimeUnit) (n : Nat) : (measured width u n).Legible where
  ne_nil := (isDecimal_decimal _).ne_nil
  whole := (isDecimal_decimal _).digits
  fraction := digits_fractionDigits _ _

theorem amount_counted (u : TimeUnit) (k : Nat) : (counted u k).amount = k := by
  rw [amount, counted, (isDecimal_decimal k).value_eq, fractionValue_nil, add_zero]

/-- **Nothing is rounded.** -/
theorem amount_measured (width : Nat) (u : TimeUnit) (n : Nat) :
    (measured width u n).amount = n / 10 ^ width := by
  have hpos : 0 < 10 ^ width := Nat.pow_pos (by decide)
  have hne : (10 : ℚ) ^ width ≠ 0 := pow_ne_zero _ (by norm_num)
  have hsplit : ((n / 10 ^ width : Nat) : ℚ) * 10 ^ width + (n % 10 ^ width : Nat) = n := by
    exact_mod_cast Nat.div_add_mod' n (10 ^ width)
  rw [amount, measured, (isDecimal_decimal _).value_eq,
    fractionValue_fractionDigits (Nat.mod_lt n hpos), eq_div_iff hne, add_mul,
    div_mul_cancel₀ _ hne, hsplit]

theorem value_counted (u : TimeUnit) (k : Nat) :
    (counted u k).value = (k * u.nanoseconds : Nat) := by
  show (counted u k).amount * u.nanoseconds = _
  rw [amount_counted, Nat.cast_mul]

theorem value_measured {width : Nat} {u : TimeUnit} (h : u.nanoseconds = 10 ^ width) (n : Nat) :
    (measured width u n).value = n := by
  have hne : (10 : ℚ) ^ width ≠ 0 := pow_ne_zero _ (by norm_num)
  show (measured width u n).amount * u.nanoseconds = n
  rw [amount_measured, h, Nat.cast_pow, Nat.cast_ofNat, div_mul_cancel₀ _ hne]

end Part

theorem inUnit_eq_text (width : Nat) (u : TimeUnit) (n : Nat) :
    inUnit width u.symbol n = (Part.measured width u n).text := rfl

/-- A duration in one unit has one part. -/
theorem proper_measured {width : Nat} {u : TimeUnit} (n : Nat)
    (hu : u ∈ [TimeUnit.second, .millisecond, .microsecond, .nanosecond]) :
    Proper [Part.measured width u n] where
  legible := by
    intro p hp
    rw [List.mem_singleton.mp hp]
    exact Part.legible_measured width u n
  units := by
    simp only [List.mem_cons, List.not_mem_nil, or_false] at hu
    rcases hu with rfl | rfl | rfl | rfl <;> simp [Part.measured]
  fraction_last := fun p hp => absurd hp List.not_mem_nil
  trimmed := by
    intro p hp
    rw [List.mem_singleton.mp hp]
    exact getLast?_fractionDigits _ _
  carried := fun p hp => absurd hp List.not_mem_nil

/-- A whole number of a larger unit can stand before parts that are less than sixty. -/
theorem Proper.cons {ps : List Part} (h : Proper ps) (u : TimeUnit) (k : Nat)
    (hunits : u :: ps.map Part.unit ∈ [[TimeUnit.hour, .minute, .second], [.minute, .second]])
    (hless : ∀ p ∈ ps, p.amount < 60) : Proper (Part.counted u k :: ps) where
  legible := List.forall_mem_cons.mpr ⟨Part.legible_counted u k, h.legible⟩
  units := by
    show u :: ps.map Part.unit ∈ _
    exact List.mem_append_left [[TimeUnit.second], [.millisecond], [.microsecond],
      [.nanosecond]] hunits
  fraction_last := by
    intro p hp
    cases ps with
    | nil => exact absurd hp List.not_mem_nil
    | cons q ps =>
      rcases List.mem_cons.mp hp with rfl | hp
      · rfl
      · exact h.fraction_last p hp
  trimmed := List.forall_mem_cons.mpr ⟨(Option.some_ne_none _).symm, h.trimmed⟩
  carried := hless

/-- The seconds of a duration that make no whole minute. -/
def secondsPart (n : Nat) : Part := Part.measured 9 .second (n % 60000000000)

theorem amount_secondsPart_lt (n : Nat) : (secondsPart n).amount < 60 := by
  have hlt : n % 60000000000 < 60000000000 := Nat.mod_lt n (by decide)
  rw [secondsPart, Part.amount_measured, div_lt_iff₀ (by norm_num)]
  calc ((n % 60000000000 : Nat) : ℚ) < 60000000000 := by exact_mod_cast hlt
    _ = 60 * 10 ^ 9 := by norm_num

theorem value_secondsPart (n : Nat) : (secondsPart n).value = (n % 60000000000 : Nat) :=
  Part.value_measured rfl _

/-- Hours and minutes where there are any, and seconds. -/
theorem clock_eq (n : Nat) :
    clock n =
      (if n / 1000000000 / 60 / 60 > 0 then
        (Part.counted .hour (n / 1000000000 / 60 / 60)).text else [])
      ++ (if n / 1000000000 / 60 > 0 then
        (Part.counted .minute (n / 1000000000 / 60 % 60)).text else [])
      ++ (secondsPart n).text := by
  have hwhole : n % 60000000000 / 10 ^ 9 = n / 1000000000 % 60 := by omega
  have hfraction : n % 60000000000 % 10 ^ 9 = n % 1000000000 := by omega
  rw [secondsPart, Part.measured, hwhole, hfraction]
  show _ = _ ++ (decimal (n / 1000000000 % 60) ++ fraction 9 (n % 1000000000) ++ lit "s")
  have hcounted : ∀ u k, (Part.counted u k).text = decimal k ++ u.symbol := by
    intro u k
    show decimal k ++ [] ++ u.symbol = _
    rw [List.append_nil]
  rw [hcounted, hcounted, ← List.append_assoc, ← List.append_assoc]
  rfl

theorem total_cons (p : Part) (ps : List Part) : total (p :: ps) = p.value + total ps := by
  rw [total, List.map_cons, List.sum_cons]
  rfl

theorem total_singleton (p : Part) : total [p] = p.value := by
  rw [total_cons]
  exact add_zero _

/-- From one second on, a duration is written in hours, minutes and seconds. -/
theorem exists_parts_clock (n : Nat) :
    ∃ ps, clock n = ps.flatMap Part.text ∧ Proper ps ∧ total ps = n := by
  have hseconds : Proper [secondsPart n] := proper_measured _ (by simp)
  have hless : ∀ p ∈ [secondsPart n], p.amount < 60 := by
    intro p hp
    rw [List.mem_singleton.mp hp]
    exact amount_secondsPart_lt n
  have hminutes := fun k => hseconds.cons .minute k (by simp [secondsPart, Part.measured]) hless
  rw [clock_eq]
  by_cases hh : n / 1000000000 / 60 / 60 > 0
  · -- hours, so there are minutes to be written, if only zero
    have hminute : (Part.counted .minute (n / 1000000000 / 60 % 60)).amount < 60 := by
      rw [Part.amount_counted]
      exact_mod_cast Nat.mod_lt _ (by decide)
    refine ⟨Part.counted .hour (n / 1000000000 / 60 / 60) ::
      Part.counted .minute (n / 1000000000 / 60 % 60) :: [secondsPart n], ?_, ?_, ?_⟩
    · rw [if_pos hh, if_pos (by omega)]
      simp only [List.flatMap_cons, List.flatMap_nil, List.append_nil, List.append_assoc]
    · exact (hminutes _).cons .hour _ (by simp [secondsPart, Part.measured, Part.counted])
        (List.forall_mem_cons.mpr ⟨hminute, hless⟩)
    · rw [total_cons, total_cons, total_singleton, Part.value_counted, Part.value_counted,
        value_secondsPart]
      norm_cast
      simp only [TimeUnit.nanoseconds]
      omega
  · by_cases hm : n / 1000000000 / 60 > 0
    · refine ⟨[Part.counted .minute (n / 1000000000 / 60 % 60), secondsPart n], ?_, hminutes _, ?_⟩
      · rw [if_neg hh, if_pos hm]
        simp only [List.flatMap_cons, List.flatMap_nil, List.append_nil, List.nil_append]
      · rw [total_cons, total_singleton, Part.value_counted, value_secondsPart]
        norm_cast
        simp only [TimeUnit.nanoseconds]
        omega
    · refine ⟨[secondsPart n], ?_, hseconds, ?_⟩
      · rw [if_neg hh, if_neg hm]
        simp only [List.flatMap_cons, List.flatMap_nil, List.append_nil, List.nil_append]
      · rw [total_singleton, value_secondsPart]
        norm_cast
        omega

/-- **A number of nanoseconds is written in proper parts that sum up to it.** -/
theorem exists_parts (n : Nat) :
    ∃ ps, magnitude n = ps.flatMap Part.text ∧ Proper ps ∧ total ps = n := by
  have hone : ∀ {width : Nat} {u : TimeUnit}, u.nanoseconds = 10 ^ width →
      u ∈ [TimeUnit.second, .millisecond, .microsecond, .nanosecond] →
      ∃ ps, inUnit width u.symbol n = ps.flatMap Part.text ∧ Proper ps ∧ total ps = n := by
    intro width u hunit hu
    refine ⟨[Part.measured width u n], ?_, proper_measured n hu, ?_⟩
    · rw [inUnit_eq_text, List.flatMap_singleton]
    · rw [total_singleton, Part.value_measured hunit]
  unfold magnitude
  split
  case isTrue h =>
    subst h
    exact ⟨[Part.measured 9 .second 0], by decide, proper_measured 0 (by simp),
      by rw [total_singleton, Part.value_measured rfl]⟩
  split
  · exact hone (u := .nanosecond) rfl (by simp)
  split
  · exact hone (u := .microsecond) rfl (by simp)
  split
  · exact hone (u := .millisecond) rfl (by simp)
  · exact exists_parts_clock n

/-! ## Durations -/

theorem Proper.ne_nil {ps : List Part} (h : Proper ps) : ps ≠ [] := by
  rintro rfl
  exact absurd h.units (by decide)

/-- Parts with a minus sign before them. -/
theorem read?_negative {ps : List Part} (h : Proper ps) :
    read? (45 :: ps.flatMap Part.text) = some ⟨true, ps⟩ := by
  rw [read?, if_pos rfl, parts?_flatMap h.legible (length_le_length_flatMap_text h.legible)]
  rfl

/-- Parts without a sign: they start with a digit. -/
theorem read?_positive {ps : List Part} (h : Proper ps) :
    read? (ps.flatMap Part.text) = some ⟨false, ps⟩ := by
  have hparts := parts?_flatMap h.legible (length_le_length_flatMap_text h.legible)
  have hhead := head?_flatMap_text h.legible
  cases htext : ps.flatMap Part.text with
  | nil =>
    have hlength := length_le_length_flatMap_text h.legible
    rw [htext] at hlength
    exact absurd (List.length_eq_zero_iff.mp (Nat.le_zero.mp hlength)) h.ne_nil
  | cons b t =>
    rw [htext] at hparts hhead
    have hb : b ≠ 45 := by
      rintro rfl
      exact absurd (hhead 45 rfl) (by decide)
    rw [read?, if_neg hb, hparts]
    rfl

/-- **A duration is read back from its text.** -/
theorem exists_reading (d : Int) : ∃ r, read? (text d) = some r ∧ Proper r.parts ∧ r.value = d := by
  obtain ⟨ps, htext, hproper, htotal⟩ := exists_parts d.natAbs
  rw [text, htext]
  by_cases hd : d < 0
  · refine ⟨⟨true, ps⟩, ?_, hproper, ?_⟩
    · rw [if_pos hd]
      exact read?_negative hproper
    · have habs : ((d.natAbs : Nat) : Int) = -d := by omega
      show -total ps = d
      rw [htotal, ← Int.cast_natCast, habs, Int.cast_neg, neg_neg]
  · refine ⟨⟨false, ps⟩, ?_, hproper, ?_⟩
    · rw [if_neg hd]
      exact read?_positive hproper
    · have habs : ((d.natAbs : Nat) : Int) = d := by omega
      show total ps = d
      rw [htotal, ← Int.cast_natCast, habs]

/-- **Different durations have different texts.** -/
theorem text_injective : Function.Injective text := by
  intro d d' h
  obtain ⟨r, hr, -, hvalue⟩ := exists_reading d
  obtain ⟨r', hr', -, hvalue'⟩ := exists_reading d'
  rw [h] at hr
  obtain rfl := Option.some.inj (hr.symm.trans hr')
  exact_mod_cast hvalue.symm.trans hvalue'

end Duration

/-! ## The readings of a clock -/

theorem Timestamp.val_ofSecond (n : Int) : ((ofSecond n).val : Int) = n % 1000000000 := by
  have hmod : Int.fmod n 1000000000 = n % 1000000000 := Int.fmod_eq_emod_of_nonneg n (by decide)
  show ((Int.fmod n 1000000000).toNat : Int) = n % 1000000000
  rw [hmod]
  omega

namespace Clock

/-- The nanoseconds between the two readings. -/
def between (clock : Clock) : Int := (clock.start.later clock.elapsed).since clock.start

/-- An instant is moved without loss if it has room in a word. -/
theorem moved_of_room {seconds change : Int} (hmin : -2 ^ 63 ≤ seconds + change)
    (hmax : seconds + change < 2 ^ 63) :
    Timestamp.moved seconds change = seconds + change :=
  if_pos ⟨hmin, hmax⟩

/-- Readings of a clock lie apart by the time that has passed, as long as the second one has
room. -/
theorem between_eq_elapsed {clock : Clock} (hstart : clock.start.seconds.natAbs ≤ 2 ^ 62)
    (hmin : -2 ^ 63 ≤ clock.elapsed) (hmax : clock.elapsed < 2 ^ 63) :
    clock.between = clock.elapsed := by
  have hnano := clock.start.nanoseconds.isLt
  obtain ⟨total, htotal⟩ : ∃ total : Int, total = clock.start.nanoseconds.val + clock.elapsed :=
    ⟨_, rfl⟩
  have hdiv : Int.fdiv total 1000000000 = total / 1000000000 :=
    Int.fdiv_eq_ediv_of_nonneg total (by decide)
  have hmoved : Timestamp.moved (clock.start.seconds + Timestamp.epoch) (total / 1000000000) =
      clock.start.seconds + Timestamp.epoch + total / 1000000000 := by
    apply moved_of_room <;> simp only [Timestamp.epoch] <;> omega
  simp only [between, Timestamp.since, Timestamp.later, Timestamp.val_ofSecond, ← htotal,
    hdiv, hmoved]
  omega

end Clock

/-! ## The duration in a report -/

namespace Comparison

/-- **The duration in a report is read back exactly.**  Whatever was compared, and whatever the
clock said at the start and at the end: the text of the duration is read as the nanoseconds between
the two readings, by a minus sign if there is one and the sum of the parts behind it, with nothing
rounded.  The parts are hours, minutes and seconds, or one smaller unit; a fraction never ends in a
zero, and minutes and seconds behind a larger unit are less than sixty.  So reports of runs that
took different times have different texts there.  Every number of nanoseconds that fits in a signed
word of 64 bits can lie between two readings. -/
theorem duration_reads_back (c : Comparison) (clock : Clock) (os : List Outcome) :
    (∃ r, Duration.read? (c.report clock os).metadata.duration = some r ∧
      r.value = clock.between ∧ Duration.Proper r.parts) ∧
    (∀ (c' : Comparison) (clock' : Clock) (os' : List Outcome),
      (c'.report clock' os').metadata.duration = (c.report clock os).metadata.duration →
        clock'.between = clock.between) ∧
    (clock.start.seconds.natAbs ≤ 2 ^ 62 → -2 ^ 63 ≤ clock.elapsed → clock.elapsed < 2 ^ 63 →
      clock.between = clock.elapsed) := by
  have hduration : ∀ (c : Comparison) (clock : Clock) (os : List Outcome),
      (c.report clock os).metadata.duration = Duration.text clock.between := by
    intro c clock os
    rw [metadata_report]
    rfl
  obtain ⟨r, hread, hproper, hvalue⟩ := Duration.exists_reading clock.between
  refine ⟨⟨r, ?_, hvalue, hproper⟩, fun c' clock' os' hsame => ?_, Clock.between_eq_elapsed⟩
  · rw [hduration, hread]
  · rw [hduration, hduration] at hsame
    exact Duration.text_injective hsame

end Comparison

end RepeatedAddition
