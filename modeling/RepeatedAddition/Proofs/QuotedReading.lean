import Mathlib.Algebra.GroupWithZero.Nat
import RepeatedAddition.Text.Quoted
import RepeatedAddition.Proofs.JsonLayout
import RepeatedAddition.Proofs.Utf8

/-!
# Quoted texts are legible and lose nothing

`Quoted.text` writes any bytes, well-formed or not, so that they can be shown on a terminal.  Here
it is compared with a reader that goes over a whole message byte by byte and collects the quotations
in it.  What it finds in a quoted text is the text, so no two texts are quoted alike: a stray byte
is not taken for the replacement character, nor a backslash for the byte that the digits behind it
name.

Both results are about the spelling of one piece at a time.  So the cases of `Quoted.char` are gone
through once, in `spelled_piece`, and what is shown afterwards is shown of each of the few ways to
spell bytes.

* `Text.Legible`: a text is one of characters, and none of them is a control character.
* `Quoted.Spelled`: the ways to spell bytes, with `spelled_piece`.
* `Quoted.legible_text`: a quoted text is legible, whatever is quoted.
* `Quoted.quotations?`: the quotations in a message.
* `Quoted.foldl_step_text`: the reader finds what was quoted, and stands outside of quotations
  again.
-/

namespace RepeatedAddition

/-! ## Legible texts -/

namespace Text

/-- The control characters: those before the blank, and those from the delete character up to
U+009F. -/
def IsControl (c : Char) : Prop := c.toNat < 0x20 ∨ 0x7F ≤ c.toNat ∧ c.toNat ≤ 0x9F

/-- The text is one of characters, and none of them is a control character. -/
def Legible (t : Text) : Prop := ∃ cs, t = Utf8.encode cs ∧ ∀ c ∈ cs, ¬IsControl c

theorem legible_nil : Legible [] := ⟨[], rfl, List.forall_mem_nil _⟩

theorem legible_encodeChar {c : Char} (h : ¬IsControl c) : Legible (Utf8.encodeChar c) :=
  ⟨[c], (List.flatMap_singleton Utf8.encodeChar c).symm, List.forall_mem_singleton.mpr h⟩

theorem Legible.append {t u : Text} (ht : Legible t) (hu : Legible u) : Legible (t ++ u) := by
  obtain ⟨cs, rfl, hcs⟩ := ht
  obtain ⟨ds, rfl, hds⟩ := hu
  exact ⟨cs ++ ds, List.flatMap_append.symm, List.forall_mem_append.mpr ⟨hcs, hds⟩⟩

theorem legible_flatMap {α : Type} {f : α → Text} (h : ∀ a, Legible (f a)) (as : List α) :
    Legible (as.flatMap f) := by
  induction as with
  | nil => exact legible_nil
  | cons a as ih =>
    rw [List.flatMap_cons]
    exact (h a).append ih

/-- The bytes of ASCII that are no control characters. -/
def isGraphic (b : UInt8) : Bool := 0x20 ≤ b && b < 0x7F

theorem isGraphic_iff {b : UInt8} : isGraphic b = true ↔ 0x20 ≤ b.toNat ∧ b.toNat < 0x7F := by
  simp only [isGraphic, Bool.and_eq_true, decide_eq_true_eq, UInt8.le_iff_toNat_le,
    UInt8.lt_iff_toNat_lt]
  rfl

/-- The text has such bytes only. -/
def Graphic (t : Text) : Prop := ∀ b ∈ t, isGraphic b = true

instance (t : Text) : Decidable (Graphic t) :=
  decidable_of_iff (t.all isGraphic) (by simp [Graphic])

theorem Graphic.append {t u : Text} (ht : Graphic t) (hu : Graphic u) : Graphic (t ++ u) :=
  List.forall_mem_append.mpr ⟨ht, hu⟩

theorem Graphic.legible {t : Text} (h : Graphic t) : Legible t := by
  induction t with
  | nil => exact legible_nil
  | cons b t ih =>
    obtain ⟨hb, ht⟩ := List.forall_mem_cons.mp h
    have hbyte := isGraphic_iff.mp hb
    have hnumber : (Char.ofNat b.toNat).toNat = b.toNat :=
      Utf8.toNat_ofNat_char (by unfold Nat.isValidChar; omega)
    have hchar : Legible (Utf8.encodeChar (Char.ofNat b.toNat)) :=
      legible_encodeChar (by unfold IsControl; omega)
    rw [Utf8.encodeChar_of_toNat hnumber (by omega)] at hchar
    exact hchar.append (ih ht)

theorem graphic_hexadecimal (width n : Nat) : Graphic (hexadecimal width n) := by
  have hdigit : ∀ d < 16, isGraphic (hexDigit d) = true := by decide
  induction width generalizing n with
  | zero => exact List.forall_mem_nil _
  | succ width ih =>
    exact (ih (n / 16)).append (List.forall_mem_singleton.mpr (hdigit _ (Nat.mod_lt n (by decide))))

end Text

namespace Quoted

open Text
open Json.Grammar (hexValue?)

/-! ## Spellings -/

/-- The bytes that have a letter behind a backslash, each behind its letter. -/
def letters : List (UInt8 × UInt8) :=
  [(97, 7), (98, 8), (116, 9), (110, 10), (118, 11), (102, 12), (114, 13), (34, 34), (92, 92)]

/-- Bytes and a spelling of them: those of a printable character by themselves, a byte by its letter
or by two hexadecimal digits, those of a character by four or eight. -/
inductive Spelled : Text → Text → Prop
  | raw {c : Char} : Printable.isPrintable c = true → c ≠ '"' → c ≠ '\\' →
    Spelled (Utf8.encodeChar c) (Utf8.encodeChar c)
  | letter {named meant : UInt8} : (named, meant) ∈ letters → Spelled [meant] [92, named]
  | byte (b : UInt8) : Spelled [b] (lit "\\x" ++ hexadecimal 2 b.toNat)
  | short {c : Char} : c.toNat < 0x10000 →
      Spelled (Utf8.encodeChar c) (lit "\\u" ++ hexadecimal 4 c.toNat)
  | long (c : Char) : Spelled (Utf8.encodeChar c) (lit "\\U" ++ hexadecimal 8 c.toNat)

theorem spelled_letter {c : Char} {l : String} (h : letter? c = some l) :
    Spelled (Utf8.encodeChar c) (lit "\\" ++ lit l) := by
  have hspelled (named meant : UInt8) (hmem : (named, meant) ∈ letters) (hc : c.toNat = meant.toNat)
      (hmeant : meant.toNat < 0x80) : Spelled (Utf8.encodeChar c) [92, named] := by
    rw [Utf8.encodeChar_of_toNat hc hmeant]
    exact .letter hmem
  unfold letter? at h
  split at h
  next hc => cases h; exact hspelled 97 7 (by decide) hc (by decide)
  next hc => cases h; exact hspelled 98 8 (by decide) hc (by decide)
  next hc => cases h; exact hspelled 116 9 (by decide) hc (by decide)
  next hc => cases h; exact hspelled 110 10 (by decide) hc (by decide)
  next hc => cases h; exact hspelled 118 11 (by decide) hc (by decide)
  next hc => cases h; exact hspelled 102 12 (by decide) hc (by decide)
  next hc => cases h; exact hspelled 114 13 (by decide) hc (by decide)
  next => cases h

theorem spelled_char (c : Char) : Spelled (Utf8.encodeChar c) (char c) := by
  unfold char
  split
  next h =>
    simp only [Bool.or_eq_true, decide_eq_true_eq] at h
    obtain rfl | rfl := h
    · exact @Spelled.letter 34 34 (by decide)
    · exact @Spelled.letter 92 92 (by decide)
  next hmark =>
    simp only [Bool.or_eq_true, decide_eq_true_eq, not_or] at hmark
    split
    next hprintable => exact .raw hprintable hmark.1 hmark.2
    next =>
      split
      next l hl => exact spelled_letter hl
      next =>
        split
        next hascii =>
          have hbyte : (UInt8.ofNat c.toNat).toNat = c.toNat := Utf8.toNat_ofNat_byte (by omega)
          rw [Utf8.encodeChar_of_toNat hbyte.symm (by omega)]
          nth_rewrite 2 [← hbyte]
          exact .byte _
        next =>
          split
          next hshort => exact .short hshort
          next => exact .long c

/-- **Every piece is spelled in one of these ways.** -/
theorem spelled_piece (p : Utf8.Piece) : Spelled p.bytes (piece p) := by
  cases p with
  | char c => exact spelled_char c
  | stray b => exact .byte b

/-! ## Quoted texts are legible -/

/-- No printable character is a control character. -/
theorem not_isControl_of_isPrintable {c : Char} (h : Printable.isPrintable c = true) :
    ¬IsControl c := by
  have hranges : (Printable.ranges.all fun r => 0x20 ≤ r.1 && (r.2 < 0x7F || 0x9F < r.1)) =
      true := by decide +kernel
  obtain ⟨r, hr, hc⟩ := List.any_eq_true.mp h
  have hbounds := List.all_eq_true.mp hranges r hr
  simp only [Bool.and_eq_true, Bool.or_eq_true, decide_eq_true_eq] at hc hbounds
  unfold IsControl
  omega

theorem Spelled.legible {bytes spelling : Text} (h : Spelled bytes spelling) :
    Legible spelling := by
  cases h with
  | raw hprintable => exact legible_encodeChar (not_isControl_of_isPrintable hprintable)
  | letter hmem =>
    have hletters : (letters.all fun l => isGraphic l.1) = true := by decide
    exact Graphic.legible (Graphic.append (t := [92]) (by decide)
      (List.forall_mem_singleton.mpr (List.all_eq_true.mp hletters _ hmem)))
  | byte | short | long =>
    exact Graphic.legible (Graphic.append (by decide) (graphic_hexadecimal _ _))

/-- **A quoted text is legible, whatever is quoted.** -/
theorem legible_text (t : Text) : Legible (text t) := by
  have hmark : Legible (lit "\"") := Graphic.legible (by decide)
  exact (hmark.append (legible_flatMap (fun p => (spelled_piece p).legible) _)).append hmark

/-! ## Reading quotations -/

/-- What the number in a spelling is the number of. -/
inductive Numbered where
  | byte
  | character
  deriving DecidableEq, Repr

/-- The bytes that a number stands for. -/
def Numbered.bytes? : Numbered → Nat → Option Text
  | .byte, n => some [UInt8.ofNat n]
  | .character, n => if n.isValidChar then some (Utf8.encodeChar (Char.ofNat n)) else none

/-- Where a reader of a message stands: outside of quotations, inside of one with the content read
so far, there behind a backslash or before a digit with more of them to come, or at a loss. -/
inductive Place where
  | outside
  | inside (content : Text)
  | escape (content : Text)
  | number (content : Text) (of : Numbered) (more value : Nat)
  | lost
  deriving DecidableEq, Repr

/-- The next place behind a backslash. -/
def Place.afterBackslash (content : Text) (b : UInt8) : Place :=
  match letters.lookup b with
  | some meant => .inside (content ++ [meant])
  | none =>
    if b = 120 then .number content .byte 1 0
    else if b = 117 then .number content .character 3 0
    else if b = 85 then .number content .character 7 0
    else .lost

/-- The place inside of a quotation behind a number. -/
def Place.afterNumber (content : Text) (of : Numbered) (value : Nat) : Place :=
  match of.bytes? value with
  | some bytes => .inside (content ++ bytes)
  | none => .lost

/-- The next place in a number. -/
def Place.afterDigit (content : Text) (of : Numbered) (more value : Nat) (b : UInt8) : Place :=
  match hexValue? b, more with
  | none, _ => .lost
  | some d, 0 => .afterNumber content of (value * 16 + d)
  | some d, more + 1 => .number content of more (value * 16 + d)

/-- A reader of a message: the quotations found so far, and where it stands. -/
structure Reader where
  found : List Text
  place : Place
  deriving DecidableEq, Repr

/-- Reads one byte. -/
def step (r : Reader) (b : UInt8) : Reader :=
  match r.place with
  | .outside => if b = 34 then ⟨r.found, .inside []⟩ else r
  | .inside content =>
    if b = 34 then ⟨r.found ++ [content], .outside⟩
    else if b = 92 then ⟨r.found, .escape content⟩
    else ⟨r.found, .inside (content ++ [b])⟩
  | .escape content => ⟨r.found, .afterBackslash content b⟩
  | .number content of more value => ⟨r.found, .afterDigit content of more value b⟩
  | .lost => r

/-- The quotations in a message, if all of them are closed. -/
def quotations? (message : Text) : Option (List Text) :=
  let r := message.foldl step ⟨[], .outside⟩
  if r.place = .outside then some r.found else none

/-! ## Quotations read back -/

variable {found : List Text} {content : Text}

theorem foldl_step_outside {t : Text} (h : 34 ∉ t) :
    t.foldl step ⟨found, .outside⟩ = ⟨found, .outside⟩ := by
  induction t with
  | nil => rfl
  | cons b t ih =>
    rw [List.mem_cons, not_or] at h
    rw [List.foldl_cons, step, if_neg (Ne.symm h.1)]
    exact ih h.2

theorem foldl_step_raw {t : Text} (hquote : 34 ∉ t) (hbackslash : 92 ∉ t) :
    t.foldl step ⟨found, .inside content⟩ = ⟨found, .inside (content ++ t)⟩ := by
  induction t generalizing content with
  | nil => rw [List.append_nil, List.foldl_nil]
  | cons b t ih =>
    rw [List.mem_cons, not_or] at hquote hbackslash
    have hstep : step ⟨found, .inside content⟩ b = ⟨found, .inside (content ++ [b])⟩ :=
      (if_neg (Ne.symm hquote.1)).trans (if_neg (Ne.symm hbackslash.1))
    rw [List.foldl_cons, hstep, ih hquote.2 hbackslash.2, List.append_assoc, List.singleton_append]

theorem step_digit {d : Nat} (h : d < 16) (of : Numbered) (more value : Nat) :
    step ⟨found, .number content of (more + 1) value⟩ (hexDigit d) =
      ⟨found, .number content of more (value * 16 + d)⟩ := by
  simp only [step, Place.afterDigit, Json.hexValue?_hexDigit h]

theorem step_lastDigit {d : Nat} (h : d < 16) (of : Numbered) (value : Nat) :
    step ⟨found, .number content of 0 value⟩ (hexDigit d) =
      ⟨found, .afterNumber content of (value * 16 + d)⟩ := by
  simp only [step, Place.afterDigit, Json.hexValue?_hexDigit h]

/-- **Digits are read from the left, and their number goes on at the right.** -/
theorem foldl_step_hexadecimal {width n : Nat} (h : n < 16 ^ width) (of : Numbered)
    (more value : Nat) :
    (hexadecimal width n).foldl step ⟨found, .number content of (more + width) value⟩ =
      ⟨found, .number content of more (value * 16 ^ width + n)⟩ := by
  -- the last digit is written last, and those before it are the digits of `n / 16`
  induction width generalizing n more with
  | zero =>
    obtain rfl : n = 0 := by omega
    simp [hexadecimal]
  | succ width ih =>
    have hrest : n / 16 < 16 ^ width := Nat.div_lt_of_lt_mul (by rwa [← Nat.pow_succ'])
    have hvalue : (value * 16 ^ width + n / 16) * 16 + n % 16 = value * 16 ^ (width + 1) + n := by
      rw [Nat.pow_succ, ← Nat.mul_assoc]
      omega
    rw [hexadecimal, List.foldl_append, ← Nat.add_assoc, Nat.add_right_comm, ih hrest (more + 1),
      List.foldl_cons, List.foldl_nil, step_digit (Nat.mod_lt n (by decide)), hvalue]

/-- A number of the right width is read to its end. -/
theorem foldl_step_number {width n : Nat} (h : n < 16 ^ (width + 1)) {of : Numbered} {bytes : Text}
    (hbytes : of.bytes? n = some bytes) :
    (hexadecimal (width + 1) n).foldl step ⟨found, .number content of width 0⟩ =
      ⟨found, .inside (content ++ bytes)⟩ := by
  have hrest : n / 16 < 16 ^ width := Nat.div_lt_of_lt_mul (by rwa [← Nat.pow_succ'])
  have hdigits : (hexadecimal width (n / 16)).foldl step ⟨found, .number content of width 0⟩ =
      ⟨found, .number content of 0 (0 * 16 ^ width + n / 16)⟩ := by
    simpa only [Nat.zero_add] using foldl_step_hexadecimal hrest of 0 0
  have hvalue : (0 * 16 ^ width + n / 16) * 16 + n % 16 = n := by omega
  rw [hexadecimal, List.foldl_append, hdigits, List.foldl_cons, List.foldl_nil,
    step_lastDigit (Nat.mod_lt n (by decide)), hvalue]
  simp only [Place.afterNumber, hbytes]

theorem bytes?_toNat (c : Char) : Numbered.character.bytes? c.toNat = some (Utf8.encodeChar c) := by
  have hvalid : c.toNat.isValidChar := c.valid
  rw [Numbered.bytes?, if_pos hvalid, Char.ofNat_toNat]

/-- **Each spelling is read as the bytes that it spells.** -/
theorem Spelled.foldl_step {bytes spelling : Text} (h : Spelled bytes spelling) :
    spelling.foldl step ⟨found, .inside content⟩ = ⟨found, .inside (content ++ bytes)⟩ := by
  cases h with
  | @raw c hprintable hquote hbackslash =>
    exact foldl_step_raw (Utf8.notMem_encodeChar (by decide) hquote)
      (Utf8.notMem_encodeChar (by decide) hbackslash)
  | @letter named meant hmem =>
    have hlookup : (letters.all fun l => letters.lookup l.1 = some l.2) = true := by decide
    have hnamed : letters.lookup named = some meant := by
      simpa using List.all_eq_true.mp hlookup _ hmem
    have hescape : step ⟨found, .inside content⟩ 92 = ⟨found, .escape content⟩ := rfl
    rw [List.foldl_cons, List.foldl_cons, List.foldl_nil, hescape]
    simp only [step, Place.afterBackslash, hnamed]
  | byte b =>
    have hnumber : (lit "\\x").foldl step ⟨found, .inside content⟩ =
        ⟨found, .number content .byte 1 0⟩ := rfl
    have hbytes : Numbered.byte.bytes? b.toNat = some [b] := by
      rw [Numbered.bytes?, UInt8.ofNat_toNat]
    rw [List.foldl_append, hnumber]
    exact foldl_step_number b.toNat_lt hbytes
  | @short c hshort =>
    have hnumber : (lit "\\u").foldl step ⟨found, .inside content⟩ =
        ⟨found, .number content .character 3 0⟩ := rfl
    rw [List.foldl_append, hnumber]
    exact foldl_step_number hshort (bytes?_toNat c)
  | long c =>
    have hnumber : (lit "\\U").foldl step ⟨found, .inside content⟩ =
        ⟨found, .number content .character 7 0⟩ := rfl
    have hvalid : c.toNat < 0xD800 ∨ 0xDFFF < c.toNat ∧ c.toNat < 0x110000 := c.valid
    rw [List.foldl_append, hnumber]
    exact foldl_step_number (by omega) (bytes?_toNat c)

theorem foldl_step_pieces (ps : List Utf8.Piece) :
    (ps.flatMap piece).foldl step ⟨found, .inside content⟩ =
      ⟨found, .inside (content ++ ps.flatMap Utf8.Piece.bytes)⟩ := by
  induction ps generalizing content with
  | nil => rw [List.flatMap_nil, List.flatMap_nil, List.append_nil, List.foldl_nil]
  | cons p ps ih =>
    rw [List.flatMap_cons, List.foldl_append, (spelled_piece p).foldl_step, ih, List.flatMap_cons,
      List.append_assoc]

/-- **The reader finds what was quoted**, and stands outside of quotations again. -/
theorem foldl_step_text (t : Text) :
    (text t).foldl step ⟨found, .outside⟩ = ⟨found ++ [t], .outside⟩ := by
  have hopen : (lit "\"").foldl step ⟨found, .outside⟩ = ⟨found, .inside []⟩ := rfl
  have hclose : (lit "\"").foldl step ⟨found, .inside t⟩ = ⟨found ++ [t], .outside⟩ := rfl
  rw [text, List.foldl_append, List.foldl_append, hopen, foldl_step_pieces,
    Utf8.flatMap_bytes_pieces, List.nil_append, hclose]

/-! ## Messages with quotations -/

/-- A message with its quotations, in order: words that can be shown as they are, quoted texts, and
one behind the other. -/
inductive Wording : List Text → Text → Prop
  | words {t : Text} : Graphic t → 34 ∉ t → Wording [] t
  | quotation (t : Text) : Wording [t] (text t)
  | append {ts us : List Text} {m m' : Text} : Wording ts m → Wording us m' →
      Wording (ts ++ us) (m ++ m')

theorem Wording.legible {ts : List Text} {m : Text} (h : Wording ts m) : Legible m := by
  induction h with
  | words hgraphic => exact hgraphic.legible
  | quotation t => exact legible_text t
  | append _ _ ih ih' => exact ih.append ih'

theorem Wording.foldl_step {ts : List Text} {m : Text} (h : Wording ts m) :
    m.foldl step ⟨found, .outside⟩ = ⟨found ++ ts, .outside⟩ := by
  induction h generalizing found with
  | words _ hquote => rw [foldl_step_outside hquote, List.append_nil]
  | quotation t => exact foldl_step_text t
  | append _ _ ih ih' => rw [List.foldl_append, ih, ih', List.append_assoc]

/-- **The quotations in a message are read back**, all of them and in order. -/
theorem Wording.quotations? {ts : List Text} {m : Text} (h : Wording ts m) :
    quotations? m = some ts := by
  rw [Quoted.quotations?, h.foldl_step]
  exact if_pos rfl

end Quoted

end RepeatedAddition
