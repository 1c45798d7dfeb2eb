import Mathlib.Data.List.Chain
import Mathlib.Data.List.TakeDrop
import RepeatedAddition.Config.Label
import RepeatedAddition.Config.Token
import RepeatedAddition.Proofs.Utf8

/-!
# Tokens that are laid out

A source can be written from the lexemes that it should be read as, with any number of blanks behind
each.

* `Lexeme.IsPlain`: names, numbers in decimal notation, and the signs of structs and lists.
* `Token.laidOut`: lexemes one behind the other, with blanks.
* `Lexeme.standsBefore`: a plain lexeme ends where it should, if a sign, a blank or nothing follows.
* `Token.spells_ofSource`: the tokens of a source that is laid out are the lexemes that were laid
  out.
-/

namespace RepeatedAddition
namespace Config

/-! ## Breaks -/

/-- A character at which names and numbers end: a blank or a sign. -/
def IsBreak (c : Char) : Prop := c ∈ [' ', ',', ':', '\x7b', '\x7d', '[', ']']

instance : DecidablePred IsBreak :=
  fun c => inferInstanceAs (Decidable (c ∈ [' ', ',', ':', '\x7b', '\x7d', '[', ']']))

/-- Nothing follows, or a break. -/
def EndsHere (rest : List Char) : Prop := ∀ c ∈ rest.head?, IsBreak c

theorem endsHere_nil : EndsHere [] := by simp [EndsHere]

theorem endsHere_cons {c : Char} {rest : List Char} :
    EndsHere (c :: rest) ↔ IsBreak c := by simp [EndsHere]

/-- A run of characters goes on up to a break at which it ends. -/
theorem span_append_of_endsHere {p : Char → Bool} {cs rest : List Char} (hcs : ∀ c ∈ cs, p c = true)
    (hbreak : ∀ c, IsBreak c → p c = false) (hrest : EndsHere rest) :
    (cs ++ rest).takeWhile p = cs ∧ (cs ++ rest).dropWhile p = rest := by
  rw [List.takeWhile_append_of_pos hcs, List.dropWhile_append_of_pos hcs]
  cases rest with
  | nil => simp
  | cons c rest =>
    have hc : p c = false := hbreak c (endsHere_cons.mp hrest)
    simp [hc]

/-! ## Numbers -/

namespace Numeral

/-- The characters of a number in decimal notation. -/
def digits (n : Nat) : List Char := Nat.toDigits 10 n

theorem isDigit_of_mem_digits {n : Nat} {c : Char} (h : c ∈ digits n) : c.isDigit = true :=
  Nat.isDigit_of_mem_toDigits (by decide) (by decide) h

/-- Only zero starts with a zero. -/
theorem eq_zero_of_head? {n : Nat} (h : (digits n).head? = some '0') : n = 0 := by
  have hdigit : ∀ m < 10, [m.digitChar].head? = some '0' → m = 0 := by decide
  induction n using Nat.strongRecOn with
  | ind n ih =>
    by_cases hn : n < 10
    · rw [digits, Nat.toDigits_of_lt_base hn] at h
      exact hdigit n hn h
    · rw [digits, Nat.toDigits_of_base_le (by decide) (by omega),
        List.head?_append_of_ne_nil _ Nat.toDigits_ne_nil] at h
      have := ih (n / 10) (by omega) h
      omega

/-- A number is zero, or starts with another digit. -/
theorem digits_cases (n : Nat) :
    n = 0 ∧ digits n = ['0'] ∨ ∃ c cs, digits n = c :: cs ∧ c ≠ '0' := by
  by_cases hn : n = 0
  · subst hn
    exact Or.inl ⟨rfl, by decide⟩
  · obtain ⟨c, cs, hcs⟩ := List.exists_cons_of_ne_nil (show digits n ≠ [] from Nat.toDigits_ne_nil)
    refine Or.inr ⟨c, cs, hcs, ?_⟩
    rintro rfl
    exact hn (eq_zero_of_head? (by rw [hcs, List.head?_cons]))

theorem digitValue?_of_isDigit {c : Char} (h : c.isDigit = true) :
    digitValue? c = some (c.toNat - 48) := by
  rw [digitValue?, if_pos h]

theorem continues_of_isDigit {c : Char} (h : c.isDigit = true) : continues 10 c = true := by
  have hc : 48 ≤ c.toNat ∧ c.toNat ≤ 57 := by simpa [Char.isDigit, UInt32.le_iff_toNat_le] using h
  rw [continues, digitValue?_of_isDigit h, Option.any_some, decide_eq_true_eq]
  omega

theorem continues_of_isBreak {c : Char} (h : IsBreak c) : continues 10 c = false := by
  simp only [IsBreak, List.mem_cons, List.not_mem_nil, or_false] at h
  rcases h with rfl | rfl | rfl | rfl | rfl | rfl | rfl <;> rfl

theorem ne_underscore_of_isDigit {c : Char} (h : c.isDigit = true) : c ≠ '_' := by
  rintro rfl
  cases h

/-- A run of digits goes up to the next break. -/
theorem run_append {cs rest : List Char} (hcs : ∀ c ∈ cs, c.isDigit = true)
    (hrest : EndsHere rest) :
    run 10 (cs ++ rest) = (cs, rest) := by
  obtain ⟨htake, hdrop⟩ :=
    span_append_of_endsHere (p := continues 10) (fun c hc => continues_of_isDigit (hcs c hc))
    (fun c => continues_of_isBreak) hrest
  rw [run, List.span_eq_takeWhile_dropWhile, htake, hdrop]

theorem misplaced_of_digits {cs : List Char} (h : ∀ c ∈ cs, c.isDigit = true) (place : Nat) :
    misplaced place cs = [] := by
  induction cs generalizing place with
  | nil => rw [misplaced]
  | cons c cs ih =>
    have hc := ne_underscore_of_isDigit (h c List.mem_cons_self)
    have hrest := ih fun d hd => h d (List.mem_cons_of_mem c hd)
    rw [misplaced.eq_4 _ _ _ (fun h _ => hc h) (fun _ h _ => hc h), hrest]

/-- Behind its digits, a number has no fraction, multiplier or exponent if it ends there. -/
theorem decimalExtent_of_endsHere (whole : List Char) {rest : List Char} (hrest : EndsHere rest) :
    decimalExtent whole rest = ⟨whole.length, false, []⟩ := by
  cases rest with
  | nil => rfl
  | cons c rest =>
    have hc := endsHere_cons.mp hrest
    simp only [IsBreak, List.mem_cons, List.not_mem_nil, or_false] at hc
    rcases hc with rfl | rfl | rfl | rfl | rfl | rfl | rfl <;> rfl

theorem zeroExtent_of_endsHere {rest : List Char} (hrest : EndsHere rest) :
    zeroExtent rest = ⟨1, false, []⟩ := by
  cases rest with
  | nil => rfl
  | cons c rest =>
    have hc := endsHere_cons.mp hrest
    simp only [IsBreak, List.mem_cons, List.not_mem_nil, or_false] at hc
    rcases hc with rfl | rfl | rfl | rfl | rfl | rfl | rfl <;> rfl

/-- **A number in decimal notation goes as far as its digits.** -/
theorem extent_digits (n : Nat) {rest : List Char} (hrest : EndsHere rest) :
    extent (digits n ++ rest) = ⟨(digits n).length, false, []⟩ := by
  rcases digits_cases n with ⟨-, hzero⟩ | ⟨c, cs, hcs, hc⟩
  · rw [hzero, List.singleton_append]
    have hsplit : extent ('0' :: rest) = zeroExtent rest := by
      refine extent.eq_5 rest ?_ ?_ ?_ ?_ <;> intro r hr <;> subst hr <;>
        exact absurd (endsHere_cons.mp hrest) (by simp [IsBreak])
    rw [hsplit, zeroExtent_of_endsHere hrest]
    rfl
  · have hdigits : ∀ d ∈ digits n, d.isDigit = true := fun d => isDigit_of_mem_digits
    have hsplit : extent (digits n ++ rest) =
        { decimalExtent (digits n) rest with
          faults := misplaced 0 (digits n) ++ (decimalExtent (digits n) rest).faults } := by
      rw [extent.eq_6, run_append hdigits hrest]
      all_goals
        rw [hcs, List.cons_append]
        intro r hr
        exact absurd (List.cons.inj hr).1 hc
    rw [hsplit, decimalExtent_of_endsHere _ hrest, misplaced_of_digits hdigits]
    rfl

/-- The value of digits, as the notation has it. -/
theorem value_eq_ofDigitChars {cs : List Char} (h : ∀ c ∈ cs, c.isDigit = true) (init : Nat) :
    (cs.filter (· != '_')).foldl (fun total c => total * 10 + (digitValue? c).getD 0) init =
      Nat.ofDigitChars 10 cs init := by
  induction cs generalizing init with
  | nil => rfl
  | cons c cs ih =>
    have hc := h c List.mem_cons_self
    rw [List.filter_cons_of_pos (by simpa using ne_underscore_of_isDigit hc), List.foldl_cons,
      ih fun d hd =>
        h d (List.mem_cons_of_mem c hd), digitValue?_of_isDigit hc, Nat.ofDigitChars_cons]
    rw [Option.getD_some, Nat.mul_comm]
    rfl

theorem value_digits (n : Nat) : value 10 (digits n) = n := by
  rw [value, value_eq_ofDigitChars fun c => isDigit_of_mem_digits]
  exact Nat.ofDigitChars_toDigits (by decide) (by decide)

/-- **A number in decimal notation denotes the number.** -/
theorem read_digits (n : Nat) : read (digits n) = .ok (.int (.ofNat n)) := by
  rcases digits_cases n with ⟨rfl, hzero⟩ | ⟨c, cs, hcs, hc⟩
  · rw [hzero]
    rfl
  · have hrun : run 10 (digits n) = (digits n, []) := by
      simpa using run_append (fun d => isDigit_of_mem_digits (n := n)) endsHere_nil
    have hsplit : read (digits n) = readDecimal (digits n) := by
      rw [hcs]
      refine read.eq_5 _ ?_ ?_ ?_ ?_ <;> intro r hr <;> exact absurd (List.cons.inj hr).1 hc
    rw [hsplit, readDecimal, hrun]
    simp [value_digits]

end Numeral

/-! ## Lexemes where they are written -/

namespace Lexeme

/-- How a lexeme is written. -/
def chars : Lexeme → List Char
  | .word n => n.toList
  | .number _ cs | .string cs => cs
  | .mark sign => sign.toList
  | .comma => [',']
  | .bottom => ['_', '|', '_']
  | .lineEnd | .illegal | .finish => []

/-- The lexeme of a number in decimal notation. -/
def natural (n : Nat) : Lexeme := .number false (Numeral.digits n)

/-- The signs of structs and lists, each of one character. -/
def signs : List String := ["\x7b", "\x7d", "[", "]", ":"]

/-- A name, or a number in decimal notation. -/
inductive IsName : Lexeme → Prop
  | word {name : String} (hname : Label.isPlain name = true) : IsName (.word name)
  | natural (n : Nat) : IsName (natural n)

/-- A comma or a sign. -/
inductive IsSign : Lexeme → Prop
  | comma : IsSign .comma
  | mark {sign : String} (hsign : sign ∈ signs) : IsSign (.mark sign)

/-- A lexeme that can be laid out. -/
def IsPlain (l : Lexeme) : Prop := l.IsName ∨ l.IsSign

/-- Before given characters, a lexeme is found where it is written, and nothing is wrong with it. -/
structure StandsBefore (l : Lexeme) (rest : List Char) : Prop where
  found : Token.lexemeAt (l.chars ++ rest) = ⟨l, l.chars.length, []⟩
  visible : ∃ c cs, l.chars = c :: cs ∧ Token.isBlank c = false ∧ c ≠ '/'

end Lexeme

namespace Token

/-- A name starts like nothing else. -/
theorem notMem_of_startsName {c : Char} (h : (Letter.isLetter c || c = '$') = true) :
    c ∉ ['"', '\'', '#', ',', '_', '.', '/', ' ', '\t', '\r', '\n'] := by
  intro hmem
  simp only [List.mem_cons, List.not_mem_nil, or_false] at hmem
  rcases hmem with rfl | rfl | rfl | rfl | rfl | rfl | rfl | rfl | rfl | rfl | rfl <;> revert h <;>
    decide +kernel

theorem isDigit_of_startsName {c : Char} (h : (Letter.isLetter c || c = '$') = true) :
    c.isDigit = false := by
  rw [Bool.eq_false_iff]
  intro hdigit
  have hc : 48 ≤ c.toNat ∧ c.toNat ≤ 57 := by
    simpa [Char.isDigit, UInt32.le_iff_toNat_le] using hdigit
  have hletter : Letter.isLetter c = c.isAlpha := by
    simp [Letter.isLetter, Nat.not_le.mpr (show c.toNat < 0x80 by omega)]
  have halpha : c.isAlpha = false := by
    delta Char.isAlpha Char.isUpper Char.isLower
    simp [UInt32.le_iff_toNat_le]
    omega
  rw [hletter, halpha, Bool.false_or, decide_eq_true_eq] at h
  subst h
  cases hdigit

/-- The characters of a name that needs no quotation marks. -/
theorem exists_chars_of_isPlain {name : String} (h : Label.isPlain name = true) :
    ∃ c cs, name.toList = c :: cs ∧ (Letter.isLetter c || c = '$') = true ∧ ∀ d ∈ c :: cs,
      continuesWord d = true := by
  unfold Label.isPlain at h
  split at h
  · cases h
  next c cs hcs =>
  obtain ⟨hstart, hall⟩ := Bool.and_eq_true_iff.mp h
  refine ⟨c, cs, hcs, hstart,
    List.forall_mem_cons.mpr ⟨?_, fun d hd => List.all_eq_true.mp hall d hd⟩⟩
  rcases Bool.or_eq_true_iff.mp hstart with h | h <;> simp [continuesWord, h]

theorem continuesWord_of_isBreak {c : Char} (h : IsBreak c) : continuesWord c = false := by
  simp only [IsBreak, List.mem_cons, List.not_mem_nil, or_false] at h
  rcases h with rfl | rfl | rfl | rfl | rfl | rfl | rfl <;> decide +kernel

/-- No literal starts with a character that is neither a quotation mark nor a hash sign. -/
theorem extent?_eq_none {c : Char} (rest : List Char) (h : c ∉ ['"', '\'', '#']) :
    StringLiteral.extent? (c :: rest) = none := by
  simp only [List.mem_cons, List.not_mem_nil, or_false, not_or] at h
  obtain ⟨hdouble, hsingle, hhash⟩ := h
  have hopening : StringLiteral.opening? (c :: rest) = none := by
    have hhashes : ((c :: rest).takeWhile (· = '#')).length = 0 := by simp [hhash]
    rw [StringLiteral.opening?, hhashes]
    match rest with
    | [] | [_] | _ :: _ :: _ => simp [hdouble, hsingle]
  rw [StringLiteral.extent?, hopening, Option.map_none]

/-- A lexeme that starts like no string, comma or bottom is a number, a word or a mark. -/
theorem lexemeAt_cons {c : Char} (rest : List Char) (h : c ∉ ['"', '\'', '#', ',', '_']) :
    lexemeAt (c :: rest) =
      if c.isDigit || (c = '.' && rest.head?.any Char.isDigit) then
        ⟨.number (Numeral.extent (c :: rest)).fractional
          ((c :: rest).take (Numeral.extent (c :: rest)).width),
          (Numeral.extent (c :: rest)).width, (Numeral.extent (c :: rest)).faults⟩
      else if startsWord c then
        ⟨.word (String.ofList (wordAt (c :: rest))), (wordAt (c :: rest)).length, []⟩
      else markAt c (c :: rest) := by
  simp only [List.mem_cons, List.not_mem_nil, or_false, not_or] at h
  obtain ⟨hdouble, hsingle, hhash, hcomma, hunderscore⟩ := h
  rw [lexemeAt, extent?_eq_none rest (by simp [hdouble, hsingle, hhash])]
  · exact hcomma
  · exact fun _ heq => absurd heq hunderscore
  · exact fun _ heq => absurd heq hunderscore

/-- The word at the head of a name goes as far as the name. -/
theorem wordAt_append {c : Char} {cs rest : List Char} (hc : c ∉ ['#', '_'])
    (hcs : ∀ d ∈ c :: cs, continuesWord d = true) (hrest : EndsHere rest) :
    wordAt (c :: cs ++ rest) = c :: cs := by
  simp only [List.mem_cons, List.not_mem_nil, or_false, not_or] at hc
  have htake := (span_append_of_endsHere hcs (fun d => continuesWord_of_isBreak) hrest).1
  rw [List.cons_append] at htake ⊢
  simp [wordAt, hc, htake]

/-- A sign stands before anything, but a colon not before another one. -/
theorem markAt_sign {sign : String} (hsign : sign ∈ Lexeme.signs) {c : Char} {rest : List Char}
    (hc : sign.toList = [c]) (hcolon : c = ':' → rest.head? ≠ some ':') :
    markAt c (c :: rest) = ⟨.mark sign, 1, []⟩ := by
  simp only [Lexeme.signs, List.mem_cons, List.not_mem_nil, or_false] at hsign
  rcases hsign with rfl | rfl | rfl | rfl | rfl
  · obtain rfl : '\x7b' = c := by simpa using hc
    rfl
  · obtain rfl : '\x7d' = c := by simpa using hc
    rfl
  · obtain rfl : '[' = c := by simpa using hc
    rfl
  · obtain rfl : ']' = c := by simpa using hc
    rfl
  · obtain rfl : ':' = c := by simpa using hc
    cases rest with
    | nil => rfl
    | cons d rest =>
      have hd : d ≠ ':' := fun h => hcolon rfl (h ▸ rfl)
      simp [markAt, marks, List.isPrefixOf, hd.symm]
      rfl

end Token

namespace Lexeme

theorem standsBefore_number (n : Nat) {rest : List Char} (hrest : EndsHere rest) :
    (natural n).StandsBefore rest := by
  obtain ⟨c, cs, hcs⟩ :=
    List.exists_cons_of_ne_nil (show Numeral.digits n ≠ [] from Nat.toDigits_ne_nil)
  have hc : c.isDigit = true := Numeral.isDigit_of_mem_digits (hcs ▸ List.mem_cons_self)
  have hne {d : Char} (hd : d.isDigit = false) : c ≠ d := by
    rintro rfl
    rw [hc] at hd
    cases hd
  constructor
  · have hextent := Numeral.extent_digits n hrest
    change Token.lexemeAt (Numeral.digits n ++ rest) = ⟨natural n, (Numeral.digits n).length, []⟩
    rw [natural, hcs, List.cons_append] at *
    rw [Token.lexemeAt_cons _ (by simp [hne]), hextent, hc]
    simp
  · refine ⟨c, cs, hcs, ?_, hne rfl⟩
    simp [Token.isBlank, hne]

theorem standsBefore_word {name : String} (hname : Label.isPlain name = true) {rest : List Char}
    (hrest : EndsHere rest) :
    (word name).StandsBefore rest := by
  obtain ⟨c, cs, hcs, hstart, hcontinues⟩ := Token.exists_chars_of_isPlain hname
  have hne := Token.notMem_of_startsName hstart
  simp only [List.mem_cons, List.not_mem_nil, or_false, not_or] at hne
  have hstarts : Token.startsWord c = true := by
    rcases Bool.or_eq_true_iff.mp hstart with h | h <;> simp [Token.startsWord, h]
  constructor
  · have hword : Token.wordAt (c :: cs ++ rest) = c :: cs :=
      Token.wordAt_append (by simp [hne]) hcontinues hrest
    have hdigit : ¬(c.isDigit || (c = '.' && (cs ++ rest).head?.any Char.isDigit)) = true := by
      simp [Token.isDigit_of_startsName hstart, hne]
    change Token.lexemeAt (name.toList ++ rest) = ⟨word name, name.toList.length, []⟩
    rw [hcs, List.cons_append, Token.lexemeAt_cons _ (by simp [hne]), if_neg hdigit, if_pos hstarts,
      ← List.cons_append, hword, ← hcs, String.ofList_toList]
  · refine ⟨c, cs, hcs, ?_, hne.2.2.2.2.2.2.1⟩
    simp [Token.isBlank, hne]

/-- The characters of signs. -/
def signChars : List Char := [',', ':', '\x7b', '\x7d', '[', ']']

theorem chars_of_isSign {l : Lexeme} (h : l.IsSign) :
    ∃ c ∈ signChars, l.chars = [c] ∧ (c = ':' → l = .mark ":") ∧ (c = ',' → l = .comma) := by
  cases h with
  | comma => exact ⟨',', by decide, rfl, by decide, fun _ => rfl⟩
  | mark hsign =>
    simp only [signs, List.mem_cons, List.not_mem_nil, or_false] at hsign
    rcases hsign with rfl | rfl | rfl | rfl | rfl
    · exact ⟨'\x7b', by decide, rfl, by decide, by decide⟩
    · exact ⟨'\x7d', by decide, rfl, by decide, by decide⟩
    · exact ⟨'[', by decide, rfl, by decide, by decide⟩
    · exact ⟨']', by decide, rfl, by decide, by decide⟩
    · exact ⟨':', by decide, rfl, fun _ => rfl, by decide⟩

theorem isBreak_of_mem_signChars {c : Char} (h : c ∈ signChars) : IsBreak c :=
  List.mem_cons_of_mem ' ' h

theorem standsBefore_sign {l : Lexeme} (h : l.IsSign) {rest : List Char}
    (hcolon : l = .mark ":" → rest.head? ≠ some ':') :
    l.StandsBefore rest := by
  have hall : ∀ c ∈ signChars, Token.isBlank c = false ∧ c ≠ '/' ∧ c.isDigit = false ∧ c ≠ '.' ∧
      Token.startsWord c = false ∧ c ∉ ['"', '\'', '#', '_'] := by
    simp only [signChars, List.forall_mem_cons, List.not_mem_nil, false_imp_iff,
      implies_true, and_true]
    decide +kernel
  obtain ⟨c, hmem, hc, hsame, hcomma⟩ := chars_of_isSign h
  obtain ⟨hblank, hslash, hdigit, hpoint, hstarts, hother⟩ := hall c hmem
  simp only [List.mem_cons, List.not_mem_nil, or_false, not_or] at hother
  refine ⟨?_, c, [], hc, hblank, hslash⟩
  rw [hc, List.singleton_append]
  cases h with
  | comma =>
    obtain rfl : ',' = c := by simpa [chars] using hc
    rw [Token.lexemeAt, Token.extent?_eq_none rest (by decide)]
    rfl
  | mark hsign =>
    have hne : c ≠ ',' := fun heq => Lexeme.noConfusion (hcomma heq)
    rw [Token.lexemeAt_cons _ (by simp [hother, hne]), if_neg (by simp [hdigit, hpoint]),
      if_neg (by simp [hstarts])]
    exact Token.markAt_sign hsign hc fun hcolon' => hcolon (hsame hcolon')

theorem chars_of_isName {l : Lexeme} (h : l.IsName) : ∃ c cs, l.chars = c :: cs ∧ c ≠ ':' := by
  cases h with
  | word hname =>
    obtain ⟨c, cs, hcs, hstart, -⟩ := Token.exists_chars_of_isPlain hname
    refine ⟨c, cs, hcs, ?_⟩
    rintro rfl
    revert hstart
    decide +kernel
  | natural n =>
    obtain ⟨c, cs, hcs⟩ :=
      List.exists_cons_of_ne_nil (show Numeral.digits n ≠ [] from Nat.toDigits_ne_nil)
    refine ⟨c, cs, hcs, ?_⟩
    rintro rfl
    have hdigit : ':'.isDigit = true := Numeral.isDigit_of_mem_digits (hcs ▸ List.mem_cons_self)
    cases hdigit

theorem standsBefore_name {l : Lexeme} (h : l.IsName) {rest : List Char} (hrest : EndsHere rest) :
    l.StandsBefore rest := by
  cases h with
  | word hname => exact standsBefore_word hname hrest
  | natural n => exact standsBefore_number n hrest

end Lexeme

/-! ## Lexemes one behind the other -/

/-- Tokens spell lexemes, and nothing is wrong with any of them. -/
def Spells (ts : List Token) (ls : List Lexeme) : Prop :=
  List.Forall₂ (fun t l => t.lexeme = l ∧ t.problems = []) ts ls

namespace Token

/-- Lexemes one behind the other, with a number of blanks behind each. -/
def laidOut (blanks : Nat → Nat) : List Lexeme → List Char
  | [] => []
  | l :: ls => l.chars ++ (List.replicate (blanks ls.length) ' ' ++ laidOut blanks ls)

/-- Two lexemes stay apart without a blank between them. -/
def Apart (l l' : Lexeme) : Prop := (l.IsName → l'.IsSign) ∧ (l = .mark ":" → l' ≠ .mark ":")

/-- Plain lexemes of which each stays apart from the next. -/
structure Legible (ls : List Lexeme) : Prop where
  plain : ∀ l ∈ ls, l.IsPlain
  apart : List.IsChain Apart ls

theorem Legible.tail {l : Lexeme} {ls : List Lexeme} (h : Legible (l :: ls)) : Legible ls :=
  ⟨fun l' hl' => h.plain l' (List.mem_cons_of_mem l hl'), h.apart.tail⟩

theorem Legible.append {ls ls' : List Lexeme} (h : Legible ls) (h' : Legible ls')
    (hapart : ∀ l ∈ ls.getLast?, ∀ l' ∈ ls'.head?, Apart l l') : Legible (ls ++ ls') :=
  ⟨fun l hl => (List.mem_append.mp hl).elim (h.plain l) (h'.plain l),
    List.isChain_append.mpr ⟨h.apart, h'.apart, hapart⟩⟩

theorem Legible.cons {l : Lexeme} {ls : List Lexeme} (hl : l.IsPlain) (h : Legible ls)
    (hapart : ∀ l' ∈ ls.head?, Apart l l') :
    Legible (l :: ls) :=
  ⟨List.forall_mem_cons.mpr ⟨hl, h.plain⟩, List.isChain_cons.mpr ⟨hapart, h.apart⟩⟩

theorem legible_nil : Legible [] := ⟨nofun, .nil⟩

theorem legible_singleton {l : Lexeme} (hl : l.IsPlain) : Legible [l] := .cons hl legible_nil nofun

/-- A sign other than the colon stays apart from whatever stands next to it. -/
theorem apart_of_isSign {l : Lexeme} (h : l.IsSign) (hcolon : l ≠ .mark ":") (l' : Lexeme) :
    Apart l l' ∧ Apart l' l := by
  refine ⟨⟨fun hname => ?_, fun heq => absurd heq hcolon⟩, ⟨fun _ => h, fun _ => hcolon⟩⟩
  cases h <;> cases hname

/-- The character behind a lexeme that is laid out: a blank, or the first of the next lexeme. -/
theorem head?_laidOut (n : Nat) (blanks : Nat → Nat) {ls : List Lexeme} (hls : Legible ls)
    {c : Char} (hc : (List.replicate n ' ' ++ laidOut blanks ls).head? = some c) :
    c = ' ' ∨ ∃ l ∈ ls.head?, ∃ cs, l.chars = c :: cs := by
  cases n with
  | succ n => exact Or.inl (Option.some.inj hc).symm
  | zero =>
    cases ls with
    | nil => cases hc
    | cons l ls =>
      refine Or.inr ⟨l, rfl, ?_⟩
      obtain ⟨d, ds, hds⟩ : ∃ d ds, l.chars = d :: ds := by
        rcases hls.plain l List.mem_cons_self with h | h
        · obtain ⟨d, ds, hds, -⟩ := Lexeme.chars_of_isName h
          exact ⟨d, ds, hds⟩
        · obtain ⟨d, -, hd, -⟩ := Lexeme.chars_of_isSign h
          exact ⟨d, [], hd⟩
      rw [List.replicate_zero, List.nil_append, laidOut, hds] at hc
      exact ⟨ds, (Option.some.inj hc) ▸ hds⟩

/-- **A legible lexeme ends where it should.** -/
theorem standsBefore_laidOut (n : Nat) (blanks : Nat → Nat) {l : Lexeme} {ls : List Lexeme}
    (h : Legible (l :: ls)) :
    l.StandsBefore (List.replicate n ' ' ++ laidOut blanks ls) := by
  have hapart {l' : Lexeme} (hl' : l' ∈ ls.head?) : Apart l l' := by
    obtain ⟨ls', rfl⟩ := List.head?_eq_some_iff.mp hl'
    exact (List.isChain_cons_cons.mp h.apart).1
  rcases h.plain l List.mem_cons_self with hname | hsign
  · refine Lexeme.standsBefore_name hname fun c hc => ?_
    rcases head?_laidOut n blanks h.tail hc with rfl | ⟨l', hl', cs, hcs⟩
    · exact List.mem_cons_self
    · obtain ⟨d, hd, hds, -⟩ := Lexeme.chars_of_isSign ((hapart hl').1 hname)
      rw [hcs] at hds
      exact (List.cons.inj hds).1 ▸ Lexeme.isBreak_of_mem_signChars hd
  · refine Lexeme.standsBefore_sign hsign fun hcolon hc => ?_
    rcases head?_laidOut n blanks h.tail hc with heq | ⟨l', hl', cs, hcs⟩
    · exact absurd heq (by decide)
    · obtain ⟨ls', rfl⟩ := List.head?_eq_some_iff.mp hl'
      rcases h.plain l' (List.mem_cons_of_mem l List.mem_cons_self) with hname' | hsign'
      · obtain ⟨d, ds, hds, hd⟩ := Lexeme.chars_of_isName hname'
        rw [hcs] at hds
        exact hd (List.cons.inj hds).1.symm
      · obtain ⟨d, -, hds, hd, -⟩ := Lexeme.chars_of_isSign hsign'
        rw [hcs] at hds
        exact (hapart rfl).2 hcolon (hd (List.cons.inj hds).1.symm)

/-! ## The tokens of lexemes that are laid out -/

theorem rest_skip (n : Nat) (c : Cursor) : (c.skip n).rest = c.rest.drop n := by
  induction n generalizing c with
  | zero => rfl
  | succ n ih =>
    obtain ⟨cs, place⟩ := c
    cases cs with
    | nil => rfl
    | cons d cs => exact ih _

/-- Blanks are passed over. -/
theorem scan_blanks (n limit : Nat) (pending : Bool) (c : Cursor)
    (hc : ∃ rest, c.rest = List.replicate n ' ' ++ rest) :
    scan (limit + n) pending c = scan limit pending (c.skip n) := by
  induction n generalizing c with
  | zero => rfl
  | succ n ih =>
    obtain ⟨cs, place⟩ := c
    obtain ⟨rest, rfl⟩ := hc
    rw [← Nat.add_assoc, scan]
    exact ih _ ⟨rest, rest_skip 1 _⟩

/-- A lexeme is taken where it stands. -/
theorem scan_lexeme (limit : Nat) (pending : Bool) {l : Lexeme} {rest : List Char}
    (h : l.StandsBefore rest) (c : Cursor) (hc : c.rest = l.chars ++ rest) :
    scan (limit + 1) pending c =
      ⟨l, c.place, []⟩ :: scan limit (l.endsValue pending) (c.skip l.chars.length) := by
  obtain ⟨cs, place⟩ := c
  obtain rfl : cs = l.chars ++ rest := hc
  obtain ⟨d, ds, hds, hblank, hslash⟩ := h.visible
  have hne : d ≠ '\n' ∧ d ≠ ' ' ∧ d ≠ '\t' ∧ d ≠ '\r' := by
    simp only [isBlank, Bool.or_eq_false_iff, decide_eq_false_iff_not] at hblank
    tauto
  have hother : scan (limit + 1) pending ⟨d :: (ds ++ rest), place⟩ =
      ⟨(lexemeAt (d :: (ds ++ rest))).lexeme, place,
        (lexemeAt (d :: (ds ++ rest))).faults.map (Cursor.problem ⟨d :: (ds ++ rest), place⟩)⟩
        :: scan limit ((lexemeAt (d :: (ds ++ rest))).lexeme.endsValue pending)
          (Cursor.skip (lexemeAt (d :: (ds ++ rest))).width ⟨d :: (ds ++ rest), place⟩) := by
    rw [scan]
    split
    · next heq => cases heq
    · next heq => exact absurd (List.cons.inj heq).1 hne.1
    · next heq => exact absurd (List.cons.inj heq).1 hne.2.1
    · next heq => exact absurd (List.cons.inj heq).1 hne.2.2.1
    · next heq => exact absurd (List.cons.inj heq).1 hne.2.2.2
    · next heq => exact absurd (List.cons.inj heq).1 hslash
    · rfl
  have hfound := h.found
  rw [hds, List.cons_append] at hfound ⊢
  rw [hother, hfound]
  rfl

/-- Whether a line break behind lexemes is a comma. -/
def pendingAfter (pending : Bool) (ls : List Lexeme) : Bool :=
  ls.foldl (fun pending l => l.endsValue pending) pending

theorem pendingAfter_concat (pending : Bool) (ls : List Lexeme) (l : Lexeme) :
    pendingAfter pending (ls ++ [l]) = l.endsValue (pendingAfter pending ls) := by
  rw [pendingAfter, List.foldl_append]
  rfl

/-- The lexemes at the end of a source. -/
def ending (pending : Bool) : List Lexeme := if pending then [.lineEnd, .finish] else [.finish]

theorem spells_scan_nil (limit : Nat) (pending : Bool) (place : Position) :
    Spells (scan (limit + 1) pending ⟨[], place⟩) (ending pending) := by
  rw [scan, ending]
  cases pending with
  | false => exact .cons ⟨rfl, rfl⟩ .nil
  | true => exact .cons ⟨rfl, rfl⟩ (.cons ⟨rfl, rfl⟩ .nil)

/-- **What is laid out is scanned as it was meant.**  Each step takes at least one character, so
there are steps enough. -/
theorem spells_scan (blanks : Nat → Nat) {ls : List Lexeme} (hls : Legible ls) {limit : Nat}
    (pending : Bool) (c : Cursor) (hc : c.rest = laidOut blanks ls)
    (hlimit : (laidOut blanks ls).length < limit) :
    Spells (scan limit pending c) (ls ++ ending (pendingAfter pending ls)) := by
  induction ls generalizing limit pending c with
  | nil =>
    obtain ⟨cs, place⟩ := c
    obtain rfl : cs = [] := hc
    obtain ⟨limit, rfl⟩ := Nat.exists_eq_add_of_lt hlimit
    exact spells_scan_nil _ pending place
  | cons l ls ih =>
    have hstands := standsBefore_laidOut (blanks ls.length) blanks hls
    obtain ⟨d, ds, hds, -⟩ := hstands.visible
    have hlength : (laidOut blanks (l :: ls)).length =
        l.chars.length + (blanks ls.length + (laidOut blanks ls).length) := by
      simp [laidOut]
    have hpositive : 0 < l.chars.length := by simp [hds]
    obtain ⟨rest, rfl⟩ := Nat.exists_eq_add_of_le (show blanks ls.length + 1 ≤ limit by omega)
    rw [show blanks ls.length + 1 + rest =
      (rest + blanks ls.length) + 1 by omega, scan_lexeme _ pending hstands c hc]
    have hskip : (c.skip l.chars.length).rest = List.replicate (blanks ls.length) ' ' ++
        laidOut blanks ls := by
      rw [rest_skip, hc, laidOut, List.drop_left]
    rw [scan_blanks (blanks ls.length) rest _ _ ⟨_, hskip⟩]
    refine .cons ⟨rfl, rfl⟩ (ih hls.tail _ _ ?_ (by omega))
    rw [rest_skip, hskip, List.drop_left' (List.length_replicate ..)]

/-! ## Sources that are laid out -/

theorem isForbidden_eq_false {c : Char} (h : continuesWord c = true ∨ IsBreak c) :
    isForbidden c = false := by
  rw [Bool.eq_false_iff]
  intro hforbidden
  have hcases : c = Char.ofNat 0 ∨ c = Char.ofNat 0xFEFF := by
    simp only [isForbidden, Bool.or_eq_true, decide_eq_true_eq] at hforbidden
    exact hforbidden.imp Char.toNat_inj.mp Char.toNat_inj.mp
  rcases hcases with rfl | rfl <;> revert h <;> decide +kernel

theorem allowed_of_isPlain {l : Lexeme} (h : l.IsPlain) :
    ∀ c ∈ l.chars, continuesWord c = true ∨ IsBreak c := by
  intro c hc
  rcases h with hname | hsign
  · left
    cases hname with
    | word hplain =>
      obtain ⟨d, ds, hds, -, hcontinues⟩ := exists_chars_of_isPlain hplain
      exact hcontinues c (hds ▸ hc)
    | natural n => simp [continuesWord, Letter.isDigit, Numeral.isDigit_of_mem_digits hc]
  · obtain ⟨d, hd, hds, -⟩ := Lexeme.chars_of_isSign hsign
    rw [hds, List.mem_singleton] at hc
    exact Or.inr (Lexeme.isBreak_of_mem_signChars (hc ▸ hd))

theorem allowed_laidOut (blanks : Nat → Nat) {ls : List Lexeme} (h : ∀ l ∈ ls, l.IsPlain) :
    ∀ c ∈ laidOut blanks ls, isForbidden c = false := by
  induction ls with
  | nil => exact List.forall_mem_nil _
  | cons l ls ih =>
    obtain ⟨hl, hrest⟩ := List.forall_mem_cons.mp h
    refine List.forall_mem_append.mpr
      ⟨fun c hc => isForbidden_eq_false (allowed_of_isPlain hl c hc),
        List.forall_mem_append.mpr ⟨fun c hc => ?_, ih hrest⟩⟩
    rw [(List.mem_replicate.mp hc).2]
    rfl

theorem characters_map_char {cs : List Char} (h : ∀ c ∈ cs, isForbidden c = false) :
    characters (cs.map .char) = (cs, none) := by
  induction cs with
  | nil => rfl
  | cons c cs ih =>
    obtain ⟨hc, hrest⟩ := List.forall_mem_cons.mp h
    rw [List.map_cons, characters, hc, ih hrest]
    rfl

/-- The tokens of a text of characters that may stand in a source. -/
theorem ofSource_encode (name : Text) {cs : List Char} (h : ∀ c ∈ cs, isForbidden c = false) :
    ofSource name (Utf8.encode cs) = scan (cs.length + 1) false ⟨cs, ⟨name, 1, 1⟩⟩ := by
  have hmark : startsWithMark (cs.map .char) = false := by
    cases cs with
    | nil => rfl
    | cons c cs =>
      have hc := (List.forall_mem_cons.mp h).1
      rw [isForbidden, Bool.or_eq_false_iff] at hc
      exact hc.2
  rw [ofSource, Utf8.pieces_encode, hmark]
  simp only [Bool.false_eq_true, if_false, characters_map_char h]

/-- **The tokens of a source that is laid out are the lexemes that were laid out**, and its end. -/
theorem spells_ofSource (name : Text) (blanks : Nat → Nat) {ls : List Lexeme} (hls : Legible ls) :
    Spells (ofSource name (Utf8.encode (laidOut blanks ls))) (ls ++
      ending (pendingAfter false ls)) := by
  rw [ofSource_encode name (allowed_laidOut blanks hls.plain)]
  exact spells_scan blanks hls false _ rfl (Nat.lt_succ_self _)

end Token

end Config
end RepeatedAddition
