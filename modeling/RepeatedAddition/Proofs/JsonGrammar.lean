import Mathlib.Algebra.GroupWithZero.Nat
import Mathlib.Tactic.Ring
import RepeatedAddition.Json
import RepeatedAddition.Proofs.Delimited
import RepeatedAddition.Proofs.Utf8

/-!
# The grammar of JSON

The grammar of RFC 8259, as relations between a text, what stands at its head, and what follows.  It
is wider than what `Json.text` writes: blanks may stand everywhere between tokens, characters may be
escaped in any of the ways there are, with pairs of surrogates too, and a numeral may have a
fraction and an exponent, as long as the number is whole.

## Where a numeral ends

Every other value shows by its last byte that it is over.  A numeral does not, so the rule for
numbers asks that no byte of a numeral follows.  What the grammar lets follow a value is a blank, a
comma, a closing bracket or the end, so nothing is lost by this; without it `12` would also be a `1`
with a `2` behind it.

* `Grammar.Value`: a value at the head of a text.
* `Grammar.Document`: a text that is one value, with blanks around it.
* `Grammar.Value.unique`: at the head of a text stands at most one value, and it ends in one place.
* `Grammar.Document.unique`: a text has at most one reading.
-/

namespace RepeatedAddition
namespace Json
namespace Grammar

/-! ## Blanks -/

/-- The bytes that may stand between tokens: blanks, tabs and line ends. -/
def isBlank (b : UInt8) : Bool := b = 32 || b = 9 || b = 10 || b = 13

/-- Any number of blanks at the head of a text. -/
inductive Blanks : Text → Text → Prop
  | none (r : Text) : Blanks r r
  | more {b : UInt8} {t r : Text} : isBlank b = true → Blanks t r → Blanks (b :: t) r

/-- The text does not start with a blank. -/
def Solid (t : Text) : Prop := ∀ b ∈ t.head?, isBlank b = false

theorem solid_cons {b : UInt8} (h : isBlank b = false) (t : Text) : Solid (b :: t) := by
  intro c hc
  obtain rfl := Option.some.inj hc
  exact h

/-- All blanks are passed over, up to the first byte that is none. -/
theorem Blanks.unique {t r r' : Text} (h : Blanks t r) (h' : Blanks t r') (hr : Solid r)
    (hr' : Solid r') :
    r = r' := by
  induction h with
  | none r =>
    cases h' with
    | none => rfl
    | more hb _ => exact absurd (hb.symm.trans (hr _ rfl)) (by decide)
  | more hb _ ih =>
    cases h' with
    | none => exact absurd (hb.symm.trans (hr' _ rfl)) (by decide)
    | more _ hblanks => exact ih hblanks hr

/-! ## Numerals -/

/-- The exponent of a numeral: its letter, its sign if it has one, and its digits. -/
structure Exponent where
  letter : UInt8
  sign : Option UInt8
  digits : Text

/-- The parts of a numeral: its sign, the digits before the point, those behind it if there is a
point, and the exponent if there is one. -/
structure Numeral where
  negative : Bool
  whole : Text
  fraction : Option Text
  exponent : Option Exponent

/-- An exponent has one of two letters, one of two signs if any, and at least one digit. -/
structure Exponent.WellFormed (e : Exponent) : Prop where
  letter : e.letter = 101 ∨ e.letter = 69
  sign : ∀ b ∈ e.sign, b = 43 ∨ b = 45
  digits : e.digits.Digits
  ne_nil : e.digits ≠ []

namespace Numeral

/-- The text of an exponent. -/
def exponentText : Option Exponent → Text
  | none => []
  | some e => e.letter :: (e.sign.toList ++ e.digits)

/-- The text of a fraction. -/
def fractionText : Option Text → Text
  | none => []
  | some digits => 46 :: digits

/-- The text of a numeral. -/
def text (m : Numeral) : Text :=
  (if m.negative then [45] else []) ++
    (m.whole ++ (fractionText m.fraction ++ exponentText m.exponent))

/-- The digits before the point have no leading zero, and behind a point stands at least one
digit. -/
structure WellFormed (m : Numeral) : Prop where
  whole_digits : m.whole.Digits
  whole_ne_nil : m.whole ≠ []
  whole_head : m.whole.head? = some 48 → m.whole = [48]
  fraction : ∀ digits ∈ m.fraction, Text.Digits digits ∧ digits ≠ []
  exponent : ∀ e ∈ m.exponent, e.WellFormed

/-- The power of ten by which an exponent scales up. -/
def up (m : Numeral) : Nat :=
  match m.exponent with
  | some e => if e.sign = some 45 then 0 else e.digits.value
  | none => 0

/-- The power of ten by which the point and an exponent scale down. -/
def down (m : Numeral) : Nat :=
  (m.fraction.getD []).length + match m.exponent with
    | some e => if e.sign = some 45 then e.digits.value else 0
    | none => 0

/-- All digits of a numeral, with its sign, as one number. -/
def mantissa (m : Numeral) : Int :=
  let digits : Int := Text.value (m.whole ++ m.fraction.getD [])
  if m.negative then -digits else digits

/-- The number that a numeral denotes is a given whole one. -/
def Denotes (m : Numeral) (n : Int) : Prop := n * 10 ^ m.down = m.mantissa * 10 ^ m.up

theorem Denotes.unique {m : Numeral} {n n' : Int} (h : m.Denotes n) (h' : m.Denotes n') : n = n' :=
  Int.eq_of_mul_eq_mul_right (pow_ne_zero m.down (by decide)) (h.trans h'.symm)

/-- The bytes that numerals have. -/
def isByte (b : UInt8) : Bool := Text.isDigit b || b = 45 || b = 43 || b = 46 || b = 101 || b = 69

theorem isByte_of_isDigit {b : UInt8} (h : Text.isDigit b = true) : isByte b = true := by
  simp [isByte, h]

/-! ### Exponents and fractions -/

section Parts

variable {e e' : Option Exponent} {f f' : Option Text}

theorem isByte_exponentText (h : ∀ x ∈ e, x.WellFormed) :
    ∀ b ∈ exponentText e, isByte b = true := by
  intro b hb
  cases e with
  | none => exact absurd hb List.not_mem_nil
  | some e =>
    have he := h e rfl
    rcases List.mem_cons.mp hb with rfl | hb
    · rcases he.letter with hletter | hletter <;> rw [hletter] <;> decide
    rcases List.mem_append.mp hb with hb | hb
    · rcases he.sign b (Option.mem_toList.mp hb) with rfl | rfl <;> decide
    · exact isByte_of_isDigit (he.digits b hb)

theorem isByte_fractionText (h : ∀ ds ∈ f, Text.Digits ds ∧ ds ≠ []) :
    ∀ b ∈ fractionText f, isByte b = true := by
  intro b hb
  cases f with
  | none => exact absurd hb List.not_mem_nil
  | some digits =>
    rcases List.mem_cons.mp hb with rfl | hb
    · decide
    · exact isByte_of_isDigit ((h digits rfl).1 b hb)

theorem head?_exponentText (h : ∀ x ∈ e, x.WellFormed) :
    ∀ b ∈ (exponentText e).head?, b = 101 ∨ b = 69 := by
  intro b hb
  cases e with
  | none => cases hb
  | some e =>
    obtain rfl := Option.some.inj hb
    exact (h e rfl).letter

/-- Behind the last digit of a fraction stands no digit. -/
theorem isDigit_head?_exponentText (h : ∀ x ∈ e, x.WellFormed) :
    ∀ b ∈ (exponentText e).head?, Text.isDigit b = false := by
  intro b hb
  rcases head?_exponentText h b hb with rfl | rfl <;> decide

/-- Behind the last digit before the point stands no digit. -/
theorem isDigit_head?_fractionText (h : ∀ x ∈ e, x.WellFormed) (f : Option Text) :
    ∀ b ∈ (fractionText f ++ exponentText e).head?, Text.isDigit b = false := by
  intro b hb
  cases f with
  | none => exact isDigit_head?_exponentText h b hb
  | some digits =>
    obtain rfl : 46 = b := Option.some.inj hb
    decide

/-- A sign is no digit, so it does not start digits. -/
theorem cons_ne_of_sign {b : UInt8} {ds es : Text} (hb : b = 43 ∨ b = 45) (hds : Text.Digits ds) :
    b :: es ≠ ds := by
  rintro rfl
  have hdigit := hds b List.mem_cons_self
  rcases hb with rfl | rfl <;> exact absurd hdigit (by decide)

theorem exponentText_inj (h : ∀ x ∈ e, x.WellFormed) (h' : ∀ x ∈ e', x.WellFormed)
    (htext : exponentText e = exponentText e') : e = e' := by
  rcases e with _ | ⟨letter, sign, digits⟩ <;> rcases e' with _ | ⟨letter', sign', digits'⟩
  · rfl
  · cases htext
  · cases htext
  · have he := h _ rfl
    have he' := h' _ rfl
    obtain ⟨hletter, htail⟩ := List.cons.inj htext
    obtain rfl : letter = letter' := hletter
    rcases sign with _ | b <;> rcases sign' with _ | b'
    · obtain rfl : digits = digits' := htail
      rfl
    · exact absurd htail.symm (cons_ne_of_sign (he'.sign b' rfl) he.digits)
    · exact absurd htail (cons_ne_of_sign (he.sign b rfl) he'.digits)
    · obtain ⟨hb, hdigits⟩ := List.cons.inj htail
      obtain rfl : b = b' := hb
      obtain rfl : digits = digits' := hdigits
      rfl

/-- A point does not start an exponent. -/
theorem exponentText_ne_point (h : ∀ x ∈ e, x.WellFormed) (t : Text) :
    exponentText e ≠ 46 :: t := by
  intro heq
  have hhead : 46 ∈ (exponentText e).head? := heq ▸ rfl
  rcases head?_exponentText h 46 hhead with hb | hb <;> exact absurd hb (by decide)

theorem fractionText_append_inj (hf : ∀ ds ∈ f, Text.Digits ds ∧ ds ≠ [])
    (hf' : ∀ ds ∈ f', Text.Digits ds ∧ ds ≠ []) (h : ∀ x ∈ e, x.WellFormed)
    (h' : ∀ x ∈ e', x.WellFormed)
    (htext : fractionText f ++ exponentText e = fractionText f' ++ exponentText e') :
    f = f' ∧ e = e' := by
  rcases f with _ | digits <;> rcases f' with _ | digits'
  · exact ⟨rfl, exponentText_inj h h' htext⟩
  · exact absurd htext (exponentText_ne_point h _)
  · exact absurd htext.symm (exponentText_ne_point h' _)
  · obtain ⟨rfl, hexponent⟩ := Text.run_append_inj (hf digits rfl).1 (hf' digits' rfl).1
      (isDigit_head?_exponentText h) (isDigit_head?_exponentText h') (List.cons.inj htext).2
    exact ⟨rfl, exponentText_inj h h' hexponent⟩

end Parts

/-! ### Whole numerals -/

variable {m m' : Numeral}

theorem isByte_text (h : m.WellFormed) : ∀ b ∈ m.text, isByte b = true := by
  intro b hb
  simp only [text, List.mem_append] at hb
  rcases hb with hb | hb | hb | hb
  · split at hb
    · obtain rfl := List.mem_singleton.mp hb
      decide
    · exact absurd hb List.not_mem_nil
  · exact isByte_of_isDigit (h.whole_digits b hb)
  · exact isByte_fractionText h.fraction b hb
  · exact isByte_exponentText h.exponent b hb

/-- A numeral starts with a minus sign, or with a digit if it has none. -/
theorem exists_text_eq_cons (h : m.WellFormed) :
    ∃ b t, m.text = b :: t ∧
      (m.negative = true ∧ b = 45 ∨ m.negative = false ∧ Text.isDigit b = true) := by
  cases hsign : m.negative with
  | true =>
    rw [text, hsign, if_pos rfl, List.singleton_append]
    exact ⟨45, _, rfl, Or.inl ⟨rfl, rfl⟩⟩
  | false =>
    obtain ⟨b, t, hwhole⟩ := List.exists_cons_of_ne_nil h.whole_ne_nil
    have hdigit : Text.isDigit b = true := h.whole_digits b (hwhole ▸ List.mem_cons_self)
    rw [text, hsign, if_neg Bool.false_ne_true, List.nil_append, hwhole, List.cons_append]
    exact ⟨b, _, rfl, Or.inr ⟨rfl, hdigit⟩⟩

/-- The sign shows in the first byte. -/
theorem negative_eq_of_text_eq (h : m.WellFormed) (h' : m'.WellFormed) (htext : m.text = m'.text) :
    m.negative = m'.negative := by
  obtain ⟨b, t, hb, hfirst⟩ := exists_text_eq_cons h
  obtain ⟨b', t', hb', hfirst'⟩ := exists_text_eq_cons h'
  rw [hb, hb'] at htext
  obtain rfl := (List.cons.inj htext).1
  rcases hfirst with ⟨hsign, rfl⟩ | ⟨hsign, hdigit⟩ <;>
    rcases hfirst' with ⟨hsign', hminus⟩ | ⟨hsign', hdigit'⟩
  · rw [hsign, hsign']
  · exact absurd hdigit' (by decide)
  · rw [hminus] at hdigit
    exact absurd hdigit (by decide)
  · rw [hsign, hsign']

/-- **A numeral has one text.** -/
theorem text_inj (h : m.WellFormed) (h' : m'.WellFormed) (htext : m.text = m'.text) : m = m' := by
  have hsign := negative_eq_of_text_eq h h' htext
  rw [text, text, hsign] at htext
  obtain ⟨hwhole, hrest⟩ := Text.run_append_inj h.whole_digits h'.whole_digits
    (isDigit_head?_fractionText h.exponent m.fraction)
    (isDigit_head?_fractionText h'.exponent m'.fraction) (List.append_cancel_left htext)
  obtain ⟨hfraction, hexponent⟩ :=
    fractionText_append_inj h.fraction h'.fraction h.exponent h'.exponent hrest
  cases m
  cases m'
  simp only [Numeral.mk.injEq]
  exact ⟨hsign, hwhole, hfraction, hexponent⟩

end Numeral

/-! ## Strings -/

/-- The value of a hexadecimal digit. -/
def hexValue? (b : UInt8) : Option Nat :=
  if Text.isDigit b then some (b.toNat - 48)
  else if 97 ≤ b && b ≤ 102 then some (b.toNat - 87)
  else if 65 ≤ b && b ≤ 70 then some (b.toNat - 55)
  else none

/-- The number of four hexadecimal digits at the head of a text, and what follows. -/
def hex4? : Text → Option (Nat × Text)
  | a :: b :: c :: d :: r =>
    match hexValue? a, hexValue? b, hexValue? c, hexValue? d with
    | some a, some b, some c, some d => some (((a * 16 + b) * 16 + c) * 16 + d, r)
    | _, _, _, _ => none
  | _ => none

/-- The character that a byte behind a backslash stands for. -/
def escaped? (b : UInt8) : Option Char :=
  [(34, '"'), (92, '\\'), (47, '/'), (98, '\x08'), (102, '\x0c'), (110, '\n'), (114, '\r'),
    (116, '\t')].lookup b

/-- The character of a pair of surrogates. -/
def ofSurrogates (high low : Nat) : Char :=
  Char.ofNat (0x10000 + (high - 0xD800) * 0x400 + (low - 0xDC00))

/-- A character of a string at the head of a text: by its bytes, by a letter behind a backslash, by
its number, or by those of two surrogates. -/
inductive Character : Text → Char → Text → Prop
  | plain {c : Char} {r : Text} :
    0x20 ≤ c.toNat → c ≠ '"' → c ≠ '\\' → Character (Utf8.encodeChar c ++ r) c r
  | escape {b : UInt8} {c : Char} {r : Text} :
    escaped? b = some c → Character (92 :: b :: r) c r
  | number {n : Nat} {t r : Text} :
    hex4? t = some (n, r) → n.isValidChar → Character (92 :: 117 :: t) (Char.ofNat n) r
  | surrogates {high low : Nat} {t u r : Text} :
    hex4? t = some (high, 92 :: 117 :: u) → 0xD800 ≤ high → high < 0xDC00 →
    hex4? u = some (low, r) → 0xDC00 ≤ low → low < 0xE000 →
    Character (92 :: 117 :: t) (ofSurrogates high low) r

/-- The characters of a string up to its closing quotation mark. -/
inductive Characters : Text → Text → Text → Prop
  | close (r : Text) : Characters (34 :: r) [] r
  | more {c : Char} {t u s r : Text} :
    Character t c u → Characters u s r → Characters t (Utf8.encodeChar c ++ s) r

/-- A character of a string does not start with a quotation mark. -/
theorem Character.not_quote {c : Char} {t r : Text} (h : Character (34 :: t) c r) : False := by
  generalize ht : 34 :: t = t' at h
  cases h with
  | plain _ hquote _ =>
    exact hquote (Utf8.eq_of_encodeChar_append_eq_cons (by decide) ht.symm).1
  | escape _ => exact absurd (List.cons.inj ht).1 (by decide)
  | number _ _ => exact absurd (List.cons.inj ht).1 (by decide)
  | surrogates _ _ _ _ _ _ => exact absurd (List.cons.inj ht).1 (by decide)

/-- A character that starts with a backslash is escaped in one of three ways. -/
theorem Character.of_backslash {c : Char} {t r : Text} (h : Character (92 :: t) c r) :
    (∃ b, t = b :: r ∧ escaped? b = some c) ∨
    (∃ n u, t = 117 :: u ∧ hex4? u = some (n, r) ∧ n.isValidChar ∧ c = Char.ofNat n) ∨
    ∃ high low u v, t = 117 :: u ∧ hex4? u = some (high, 92 :: 117 :: v) ∧
    (0xD800 ≤ high ∧ high < 0xDC00) ∧
      hex4? v = some (low, r) ∧ c = ofSurrogates high low := by
  generalize ht : 92 :: t = t' at h
  cases h with
  | plain _ _ hbackslash =>
    exact absurd (Utf8.eq_of_encodeChar_append_eq_cons (by decide) ht.symm).1 hbackslash
  | escape hc => exact Or.inl ⟨_, (List.cons.inj ht).2, hc⟩
  | number hn hvalid => exact Or.inr (Or.inl ⟨_, _, (List.cons.inj ht).2, hn, hvalid, rfl⟩)
  | surrogates hhigh hle hlt hlow _ _ =>
    exact Or.inr (Or.inr ⟨_, _, _, _, (List.cons.inj ht).2, hhigh, ⟨hle, hlt⟩, hlow, rfl⟩)

/-- The high half of a pair of surrogates is no character. -/
theorem not_isValidChar {n : Nat} (hle : 0xD800 ≤ n) (hlt : n < 0xDC00) : ¬n.isValidChar := by
  rintro (h | h) <;> omega

theorem Character.unique_backslash {c c' : Char} {t r r' : Text} (h : Character (92 :: t) c r)
    (h' : Character (92 :: t) c' r') : c = c' ∧ r = r' := by
  have hletter : escaped? 117 ≠ some c ∧ escaped? 117 ≠ some c' := ⟨nofun, nofun⟩
  rcases h.of_backslash with ⟨b, rfl, hb⟩ | ⟨n, u, rfl, hn, hvalid, hc⟩ |
    ⟨high, low, u, v, rfl, hhigh, hrange, hlow, hc⟩
  · rcases h'.of_backslash with ⟨b', heq, hb'⟩ | ⟨n', u', heq, -⟩ | ⟨high', low', u', v',
      heq, -⟩ <;> obtain ⟨rfl, htail⟩ := List.cons.inj heq
    · exact ⟨Option.some.inj (hb.symm.trans hb'), htail⟩
    · exact absurd hb hletter.1
    · exact absurd hb hletter.1
  · rcases h'.of_backslash with ⟨b', heq, hb'⟩ | ⟨n', u', heq, hn', -, hc'⟩ |
      ⟨high', low', u', v', heq, hhigh', hrange', -⟩
    · exact absurd ((List.cons.inj heq).1 ▸ hb') hletter.2
    · obtain ⟨-, rfl⟩ := List.cons.inj heq
      obtain ⟨rfl, rfl⟩ := Prod.mk.inj (Option.some.inj (hn.symm.trans hn'))
      exact ⟨hc.trans hc'.symm, rfl⟩
    · obtain ⟨-, rfl⟩ := List.cons.inj heq
      obtain ⟨rfl, -⟩ := Prod.mk.inj (Option.some.inj (hn.symm.trans hhigh'))
      exact absurd hvalid (not_isValidChar hrange'.1 hrange'.2)
  · rcases h'.of_backslash with ⟨b', heq, hb'⟩ | ⟨n', u', heq, hn', hvalid', -⟩ |
      ⟨high', low', u', v', heq, hhigh', -, hlow', hc'⟩
    · exact absurd ((List.cons.inj heq).1 ▸ hb') hletter.2
    · obtain ⟨-, rfl⟩ := List.cons.inj heq
      obtain ⟨rfl, -⟩ := Prod.mk.inj (Option.some.inj (hn'.symm.trans hhigh))
      exact absurd hvalid' (not_isValidChar hrange.1 hrange.2)
    · obtain ⟨-, rfl⟩ := List.cons.inj heq
      obtain ⟨rfl, htail⟩ := Prod.mk.inj (Option.some.inj (hhigh.symm.trans hhigh'))
      obtain rfl := (List.cons.inj (List.cons.inj htail).2).2
      obtain ⟨rfl, rfl⟩ := Prod.mk.inj (Option.some.inj (hlow.symm.trans hlow'))
      exact ⟨hc.trans hc'.symm, rfl⟩

/-- A character of a string is given by its bytes, or starts with a backslash. -/
theorem Character.cases {c : Char} {t r : Text} (h : Character t c r) :
    (∃ u, t = 92 :: u) ∨ t = Utf8.encodeChar c ++ r := by
  cases h with
  | plain _ _ _ => exact Or.inr rfl
  | escape _ => exact Or.inl ⟨_, rfl⟩
  | number _ _ => exact Or.inl ⟨_, rfl⟩
  | surrogates _ _ _ _ _ _ => exact Or.inl ⟨_, rfl⟩

/-- At the head of a text stands at most one character. -/
theorem Character.unique {c c' : Char} {t r r' : Text} (h : Character t c r)
    (h' : Character t c' r') :
    c = c' ∧ r = r' := by
  rcases h.cases with ⟨u, rfl⟩ | rfl
  · exact h.unique_backslash h'
  · rcases h'.cases with ⟨u, heq⟩ | heq
    · rw [heq] at h h'
      exact h.unique_backslash h'
    · exact Utf8.encodeChar_append_inj heq

/-- At the head of a text stands at most one rest of a string. -/
theorem Characters.unique {t s s' r r' : Text} (h : Characters t s r) (h' : Characters t s' r') :
    s = s' ∧ r = r' := by
  induction h generalizing s' with
  | close r =>
    cases h' with
    | close => exact ⟨rfl, rfl⟩
    | more hc _ => exact absurd hc Character.not_quote
  | more hc _ ih =>
    cases h' with
    | close => exact absurd hc Character.not_quote
    | more hc' hs' =>
      obtain ⟨rfl, rfl⟩ := hc.unique hc'
      obtain ⟨rfl, rfl⟩ := ih hs'
      exact ⟨rfl, rfl⟩

/-! ## Values -/

mutual

/-- A value at the head of a text, and what follows. -/
inductive Value : Text → Json → Text → Prop
  | null (r : Text) : Value (Text.lit "null" ++ r) .null r
  | bool (b : Bool) (r : Text) : Value (Text.lit (if b then "true" else "false") ++ r) (.bool b) r
  | number {m : Numeral} {n : Int} {r : Text} :
    m.WellFormed → m.Denotes n → (∀ b ∈ r.head?, Numeral.isByte b = false) →
      Value (m.text ++ r) (.number n) r
  | string {t s r : Text} :
    Characters t s r → Value (34 :: t) (.string s) r
  | emptyArray {t r : Text} :
    Blanks t (93 :: r) → Value (91 :: t) (.array []) r
  | array {t u v r : Text} {item : Json} {items : List Json} :
    Blanks t u → Value u item v → Items v items r → Value (91 :: t) (.array (item :: items)) r
  | emptyObject {t r : Text} :
    Blanks t (125 :: r) → Value (123 :: t) (.object []) r
  | object {t u v r : Text} {member : Text × Json} {members : List (Text × Json)} :
    Blanks t (34 :: u) → Member u member v → Members v members r →
      Value (123 :: t) (.object (member :: members)) r

/-- What stands behind an item of an array: further items, and the closing bracket. -/
inductive Items : Text → List Json → Text → Prop
  | done {t r : Text} :
    Blanks t (93 :: r) → Items t [] r
  | more {t u v w r : Text} {item : Json} {items : List Json} :
    Blanks t (44 :: u) → Blanks u v → Value v item w → Items w items r → Items t (item :: items) r

/-- A member of an object behind the opening quotation mark of its key. -/
inductive Member : Text → Text × Json → Text → Prop
  | mk {t u v w key r : Text} {value : Json} :
    Characters t key u → Blanks u (58 :: v) → Blanks v w → Value w value r → Member t (key, value) r

/-- What stands behind a member of an object: further members, and the closing brace. -/
inductive Members : Text → List (Text × Json) → Text → Prop
  | done {t r : Text} :
    Blanks t (125 :: r) → Members t [] r
  | more {t u v w r : Text} {member : Text × Json} {members : List (Text × Json)} :
    Blanks t (44 :: u) → Blanks u (34 :: v) → Member v member w → Members w members r →
      Members t (member :: members) r

end

/-- A text that is one value, with blanks around it. -/
def Document (t : Text) (d : Json) : Prop := ∃ u v, Blanks t u ∧ Value u d v ∧ Blanks v []

/-! ## One reading -/

/-- The forms of values that the first byte tells apart. -/
inductive Form where
  | null
  | bool (b : Bool)
  | number
  | string
  | array
  | object
  deriving DecidableEq

/-- The form of a value. -/
def form : Json → Form
  | .null => .null
  | .bool b => .bool b
  | .number _ => .number
  | .string _ => .string
  | .array _ => .array
  | .object _ => .object

/-- The form of the values that start with a byte. -/
def formAt? (b : UInt8) : Option Form :=
  if b = 110 then some .null
  else if b = 116 then some (.bool true)
  else if b = 102 then some (.bool false)
  else if b = 34 then some .string
  else if b = 91 then some .array
  else if b = 123 then some .object
  else if Text.isDigit b || b = 45 then some .number
  else none

theorem formAt?_of_isDigit {b : UInt8} (h : Text.isDigit b = true) : formAt? b = some .number := by
  have hb := Text.isDigit_iff.mp h
  have hne : ∀ c : UInt8, 57 < c.toNat ∨ c.toNat < 48 → b ≠ c := by
    rintro c hc rfl
    omega
  rw [formAt?, if_neg (hne 110 (by decide)), if_neg (hne 116 (by decide)),
    if_neg (hne 102 (by decide)), if_neg (hne 34 (by decide)), if_neg (hne 91 (by decide)),
    if_neg (hne 123 (by decide)), h]
  rfl

theorem formAt?_head_text {m : Numeral} (h : m.WellFormed) (r : Text) :
    ∃ b t, m.text ++ r = b :: t ∧ formAt? b = some .number := by
  obtain ⟨b, t, htext, hb⟩ := Numeral.exists_text_eq_cons h
  refine ⟨b, t ++ r, by rw [htext, List.cons_append], ?_⟩
  rcases hb with ⟨-, rfl⟩ | ⟨-, hdigit⟩
  · rfl
  · exact formAt?_of_isDigit hdigit

/-- The first byte of a value tells its form. -/
theorem Value.formAt? {t r : Text} {d : Json} (h : Value t d r) :
    ∃ b u, t = b :: u ∧ Grammar.formAt? b = some (form d) := by
  cases h with
  | null => exact ⟨110, _, rfl, rfl⟩
  | bool b =>
    cases b with
    | true => exact ⟨116, _, rfl, rfl⟩
    | false => exact ⟨102, _, rfl, rfl⟩
  | number hm _ _ => exact formAt?_head_text hm r
  | string _ => exact ⟨34, _, rfl, rfl⟩
  | emptyArray _ => exact ⟨91, _, rfl, rfl⟩
  | array _ _ _ => exact ⟨91, _, rfl, rfl⟩
  | emptyObject _ => exact ⟨123, _, rfl, rfl⟩
  | object _ _ _ => exact ⟨123, _, rfl, rfl⟩

theorem Value.form_eq {t r r' : Text} {d d' : Json} (h : Value t d r) (h' : Value t d' r') :
    form d = form d' := by
  obtain ⟨b, u, rfl, hb⟩ := h.formAt?
  obtain ⟨b', u', heq, hb'⟩ := h'.formAt?
  obtain ⟨rfl, -⟩ := List.cons.inj heq
  exact Option.some.inj (hb.symm.trans hb')

theorem formAt?_of_isBlank {b : UInt8} (h : isBlank b = true) : Grammar.formAt? b = none := by
  simp only [isBlank, Bool.or_eq_true, decide_eq_true_eq] at h
  rcases h with ((rfl | rfl) | rfl) | rfl <;> decide

theorem Value.solid {t r : Text} {d : Json} (h : Value t d r) : Solid t := by
  obtain ⟨b, u, rfl, hb⟩ := h.formAt?
  apply solid_cons
  by_contra hblank
  rw [formAt?_of_isBlank (Bool.of_not_eq_false hblank)] at hb
  cases hb

/-- No value starts with a closing bracket. -/
theorem Value.not_bracket {t r : Text} {d : Json} (h : Value (93 :: t) d r) : False := by
  obtain ⟨b, u, heq, hb⟩ := h.formAt?
  obtain ⟨rfl, -⟩ := List.cons.inj heq
  cases hb

section Inversion

variable {t r : Text}

theorem Value.of_null (h : Value t .null r) : t = Text.lit "null" ++ r := by
  cases h with
  | null => rfl

theorem Value.of_bool {b : Bool} (h : Value t (.bool b) r) :
    t = Text.lit (if b then "true" else "false") ++ r := by
  cases h with
  | bool => rfl

theorem Value.of_number {n : Int} (h : Value t (.number n) r) :
    ∃ m : Numeral, t = m.text ++ r ∧ m.WellFormed ∧ m.Denotes n ∧
      ∀ b ∈ r.head?, Numeral.isByte b = false := by
  cases h with
  | number hm hn hr => exact ⟨_, rfl, hm, hn, hr⟩

theorem Value.of_string {s : Text} (h : Value t (.string s) r) :
    ∃ u, t = 34 :: u ∧ Characters u s r := by
  cases h with
  | string hs => exact ⟨_, rfl, hs⟩

theorem Value.of_array {items : List Json} (h : Value t (.array items) r) :
    ∃ u, t = 91 :: u ∧ (items = [] ∧ Blanks u (93 :: r) ∨
      ∃ item rest v w, items = item :: rest ∧ Blanks u v ∧ Value v item w ∧ Items w rest r) := by
  cases h with
  | emptyArray hb => exact ⟨_, rfl, Or.inl ⟨rfl, hb⟩⟩
  | array hb hv hi => exact ⟨_, rfl, Or.inr ⟨_, _, _, _, rfl, hb, hv, hi⟩⟩

theorem Value.of_object {members : List (Text × Json)} (h : Value t (.object members) r) :
    ∃ u, t = 123 :: u ∧ (members = [] ∧ Blanks u (125 :: r) ∨
      ∃ member rest v w, members = member :: rest ∧ Blanks u (34 :: v) ∧ Member v member w ∧
      Members w rest r) := by
  cases h with
  | emptyObject hb => exact ⟨_, rfl, Or.inl ⟨rfl, hb⟩⟩
  | object hb hv hi => exact ⟨_, rfl, Or.inr ⟨_, _, _, _, rfl, hb, hv, hi⟩⟩

end Inversion

/-- Blanks before one of two punctuation marks show which of them follows. -/
theorem Blanks.cons_inj {t r r' : Text} {b b' : UInt8} (h : Blanks t (b :: r))
    (h' : Blanks t (b' :: r')) (hb : isBlank b = false) (hb' : isBlank b' = false) :
    b = b' ∧ r = r' :=
  List.cons.inj (h.unique h' (solid_cons hb r) (solid_cons hb' r'))

/-- Blanks before a value end where the value starts. -/
theorem Blanks.value_eq {t u u' r r' : Text} {d d' : Json} (h : Blanks t u) (h' : Blanks t u')
    (hv : Value u d r) (hv' : Value u' d' r') : u = u' :=
  h.unique h' hv.solid hv'.solid

/-- Where an array is closed at once, no value follows its opening bracket. -/
theorem Blanks.not_value {t u r r' : Text} {d : Json} (h : Blanks t (93 :: r)) (h' : Blanks t u)
    (hv : Value u d r') : False := by
  obtain rfl := h.unique h' (solid_cons (by decide) r) hv.solid
  exact hv.not_bracket

mutual

/-- **At the head of a text stands at most one value, and it ends in one place.** -/
theorem Value.unique {t r : Text} {d : Json} (h : Value t d r) :
    ∀ {d' : Json} {r' : Text}, Value t d' r' → d = d' ∧ r = r' := by
  intro d' r' h'
  have hform := h.form_eq h'
  match h with
  | .null _ =>
    cases d' with
    | null => exact ⟨rfl, List.append_cancel_left h'.of_null⟩
    | _ => exact absurd hform nofun
  | .bool b _ =>
    cases d' with
    | bool b' =>
      obtain rfl : b = b' := Form.bool.inj hform
      exact ⟨rfl, List.append_cancel_left h'.of_bool⟩
    | _ => exact absurd hform nofun
  | .number hm hn hr =>
    cases d' with
    | number n' =>
      obtain ⟨m', heq, hm', hn', hr'⟩ := h'.of_number
      obtain ⟨htext, hrest⟩ :=
        Text.run_append_inj (Numeral.isByte_text hm) (Numeral.isByte_text hm') hr hr' heq
      obtain rfl := Numeral.text_inj hm hm' htext
      exact ⟨congrArg Json.number (hn.unique hn'), hrest⟩
    | _ => exact absurd hform nofun
  | .string hs =>
    cases d' with
    | string s' =>
      obtain ⟨u, heq, hs'⟩ := h'.of_string
      obtain ⟨-, rfl⟩ := List.cons.inj heq
      obtain ⟨rfl, hrest⟩ := hs.unique hs'
      exact ⟨rfl, hrest⟩
    | _ => exact absurd hform nofun
  | .emptyArray hb =>
    cases d' with
    | array items' =>
      obtain ⟨u, heq, hitems⟩ := h'.of_array
      obtain ⟨-, rfl⟩ := List.cons.inj heq
      rcases hitems with ⟨rfl, hb'⟩ | ⟨item', rest', v', w', rfl, hb', hv', -⟩
      · exact ⟨rfl, (hb.cons_inj hb' (by decide) (by decide)).2⟩
      · exact absurd hv' (hb.not_value hb')
    | _ => exact absurd hform nofun
  | .array hb hv hi =>
    cases d' with
    | array items' =>
      obtain ⟨u, heq, hitems⟩ := h'.of_array
      obtain ⟨-, rfl⟩ := List.cons.inj heq
      rcases hitems with ⟨rfl, hb'⟩ | ⟨item', rest', v', w', rfl, hb', hv', hi'⟩
      · exact absurd hv (hb'.not_value hb)
      · obtain rfl := hb.value_eq hb' hv hv'
        obtain ⟨rfl, rfl⟩ := hv.unique hv'
        obtain ⟨rfl, hrest⟩ := hi.unique hi'
        exact ⟨rfl, hrest⟩
    | _ => exact absurd hform nofun
  | .emptyObject hb =>
    cases d' with
    | object members' =>
      obtain ⟨u, heq, hmembers⟩ := h'.of_object
      obtain ⟨-, rfl⟩ := List.cons.inj heq
      rcases hmembers with ⟨rfl, hb'⟩ | ⟨member', rest', v', w', rfl, hb', -⟩
      · exact ⟨rfl, (hb.cons_inj hb' (by decide) (by decide)).2⟩
      · exact absurd (hb.cons_inj hb' (by decide) (by decide)).1 (by decide)
    | _ => exact absurd hform nofun
  | .object hb hm hms =>
    cases d' with
    | object members' =>
      obtain ⟨u, heq, hmembers⟩ := h'.of_object
      obtain ⟨-, rfl⟩ := List.cons.inj heq
      rcases hmembers with ⟨rfl, hb'⟩ | ⟨member', rest', v', w', rfl, hb', hm', hms'⟩
      · exact absurd (hb.cons_inj hb' (by decide) (by decide)).1 (by decide)
      · obtain ⟨-, rfl⟩ := hb.cons_inj hb' (by decide) (by decide)
        obtain ⟨rfl, rfl⟩ := hm.unique hm'
        obtain ⟨rfl, hrest⟩ := hms.unique hms'
        exact ⟨rfl, hrest⟩
    | _ => exact absurd hform nofun
termination_by structural h

theorem Items.unique {t r : Text} {items : List Json} (h : Items t items r) :
    ∀ {items' : List Json} {r' : Text}, Items t items' r' → items = items' ∧ r = r' := by
  intro items' r' h'
  match h with
  | .done hb =>
    cases h' with
    | done hb' => exact ⟨rfl, (hb.cons_inj hb' (by decide) (by decide)).2⟩
    | more hb' _ _ _ => exact absurd (hb.cons_inj hb' (by decide) (by decide)).1 (by decide)
  | .more hb hc hv hi =>
    cases h' with
    | done hb' => exact absurd (hb.cons_inj hb' (by decide) (by decide)).1 (by decide)
    | more hb' hc' hv' hi' =>
      obtain ⟨-, rfl⟩ := hb.cons_inj hb' (by decide) (by decide)
      obtain rfl := hc.value_eq hc' hv hv'
      obtain ⟨rfl, rfl⟩ := hv.unique hv'
      obtain ⟨rfl, hrest⟩ := hi.unique hi'
      exact ⟨rfl, hrest⟩
termination_by structural h

theorem Member.unique {t r : Text} {member : Text × Json} (h : Member t member r) :
    ∀ {member' : Text × Json} {r' : Text}, Member t member' r' → member = member' ∧ r = r' := by
  intro member' r' h'
  match h with
  | .mk hk hb hc hv =>
    cases h' with
    | mk hk' hb' hc' hv' =>
      obtain ⟨rfl, rfl⟩ := hk.unique hk'
      obtain ⟨-, rfl⟩ := hb.cons_inj hb' (by decide) (by decide)
      obtain rfl := hc.value_eq hc' hv hv'
      obtain ⟨rfl, hrest⟩ := hv.unique hv'
      exact ⟨rfl, hrest⟩
termination_by structural h

theorem Members.unique {t r : Text} {members : List (Text × Json)} (h : Members t members r) :
    ∀ {members' : List (Text × Json)} {r' : Text}, Members t members' r' →
      members = members' ∧ r = r' := by
  intro members' r' h'
  match h with
  | .done hb =>
    cases h' with
    | done hb' => exact ⟨rfl, (hb.cons_inj hb' (by decide) (by decide)).2⟩
    | more hb' _ _ _ => exact absurd (hb.cons_inj hb' (by decide) (by decide)).1 (by decide)
  | .more hb hc hm hms =>
    cases h' with
    | done hb' => exact absurd (hb.cons_inj hb' (by decide) (by decide)).1 (by decide)
    | more hb' hc' hm' hms' =>
      obtain ⟨-, rfl⟩ := hb.cons_inj hb' (by decide) (by decide)
      obtain ⟨-, rfl⟩ := hc.cons_inj hc' (by decide) (by decide)
      obtain ⟨rfl, rfl⟩ := hm.unique hm'
      obtain ⟨rfl, hrest⟩ := hms.unique hms'
      exact ⟨rfl, hrest⟩
termination_by structural h

end

/-- **A text has at most one reading.** -/
theorem Document.unique {t : Text} {d d' : Json} (h : Document t d) (h' : Document t d') :
    d = d' := by
  obtain ⟨u, v, hb, hv, -⟩ := h
  obtain ⟨u', v', hb', hv', -⟩ := h'
  obtain rfl := hb.value_eq hb' hv hv'
  exact (hv.unique hv').1

end Grammar
end Json
end RepeatedAddition
