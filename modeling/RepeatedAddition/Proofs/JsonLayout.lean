import RepeatedAddition.Proofs.JsonGrammar

/-!
# Documents read back

The text that is laid out for a document is read back as the document by the grammar, and as no
other.  Texts in it are read back character by character, so what is lost is what no character could
show: a stray byte comes back as the replacement character.

* `Json.repaired`: a document with all its texts repaired.
* `Json.value_layout`: a layout is a value, whatever may follow it.
* `Json.document_text_iff`: the one reading of the text of a document.
-/

namespace RepeatedAddition
namespace Json

open Grammar

mutual

/-- The document with the replacement character for each stray byte of its texts. -/
def repaired : Json → Json
  | .null => .null
  | .bool b => .bool b
  | .number n => .number n
  | .string t => .string (Utf8.repaired t)
  | .array items => .array (repairedItems items)
  | .object members => .object (repairedMembers members)

/-- The items of an array, repaired. -/
def repairedItems : List Json → List Json
  | [] => []
  | item :: items => repaired item :: repairedItems items

/-- The members of an object, repaired. -/
def repairedMembers : List (Text × Json) → List (Text × Json)
  | [] => []
  | (key, value) :: members => (Utf8.repaired key, repaired value) :: repairedMembers members

end

theorem repairedItems_eq_map (items : List Json) : repairedItems items = items.map repaired := by
  induction items with
  | nil => rfl
  | cons item items ih => rw [repairedItems, ih, List.map_cons]

theorem repairedMembers_append (ms ns : List (Text × Json)) :
    repairedMembers (ms ++ ns) = repairedMembers ms ++ repairedMembers ns := by
  induction ms with
  | nil => rfl
  | cons m ms ih => rw [List.cons_append, repairedMembers, ih, repairedMembers, List.cons_append]

/-! ## Strings -/

theorem hexValue?_hexDigit {d : Nat} (h : d < 16) : hexValue? (Text.hexDigit d) = some d := by
  have hall : ∀ d < 16, hexValue? (Text.hexDigit d) = some d := by decide
  exact hall d h

theorem hex4?_hexadecimal {n : Nat} (h : n < 0x10000) (r : Text) :
    hex4? (Text.hexadecimal 4 n ++ r) = some (n, r) := by
  have hdigit : ∀ m, hexValue? (Text.hexDigit (m % 16)) = some (m % 16) := fun m =>
    hexValue?_hexDigit (Nat.mod_lt m (by decide))
  simp only [Text.hexadecimal, List.nil_append, List.cons_append, hex4?, hdigit]
  congr 2
  omega

/-- A character that is written by its number is read back. -/
theorem character_numbered {c : Char} (h : c.toNat < 0x10000) (r : Text) :
    Character (numbered c ++ r) c r := by
  have hread := Character.number (hex4?_hexadecimal h r) c.valid
  rw [Char.ofNat_toNat] at hread
  exact hread

/-- A character that is written behind a backslash is read back. -/
theorem character_escaped {c : Char} {n : Nat} {b : UInt8} (hc : c.toNat = n)
    (hb : escaped? b = some (Char.ofNat n)) (r : Text) : Character (92 :: b :: r) c r := by
  rw [← hc, Char.ofNat_toNat] at hb
  exact Character.escape hb

/-- Every character of a string is read back. -/
theorem character_char (c : Char) (r : Text) : Character (char c ++ r) c r := by
  unfold char
  split
  next h => exact character_escaped h rfl r
  next h => exact character_escaped h rfl r
  next h => exact character_escaped h rfl r
  next h => exact character_escaped h rfl r
  next h => exact character_escaped h rfl r
  next h => exact character_escaped h rfl r
  next h => exact character_escaped h rfl r
  next hquote hbackslash =>
    split
    next h =>
      simp only [Bool.or_eq_true, decide_eq_true_eq] at h
      exact character_numbered (by omega) r
    next h =>
      simp only [Bool.or_eq_true, decide_eq_true_eq, not_or] at h
      refine Character.plain (by omega) ?_ ?_
      · rintro rfl
        exact hquote rfl
      · rintro rfl
        exact hbackslash rfl

/-- Every piece of a text is read back as the character that is shown for it. -/
theorem character_piece (p : Utf8.Piece) (r : Text) : Character (piece p ++ r) p.shown r := by
  cases p with
  | char c => exact character_char c r
  | stray _ => exact Character.plain (by decide) (by decide) (by decide)

theorem characters_pieces (ps : List Utf8.Piece) (r : Text) :
    Characters (ps.flatMap piece ++ 34 :: r) (Utf8.encode (ps.map Utf8.Piece.shown)) r := by
  induction ps with
  | nil => exact Characters.close r
  | cons p ps ih =>
    rw [List.flatMap_cons, List.append_assoc]
    exact Characters.more (character_piece p _) ih

/-- A quoted text is read back repaired. -/
theorem characters_quoted (t r : Text) :
    ∃ u, quoted t ++ r = 34 :: u ∧ Characters u (Utf8.repaired t) r := by
  refine ⟨(Utf8.pieces t).flatMap piece ++ 34 :: r, ?_, characters_pieces (Utf8.pieces t) r⟩
  simp only [quoted, List.append_assoc]
  rfl

/-! ## Numbers -/

/-- The numeral of an integer, without fraction and exponent. -/
def numeral (n : Int) : Numeral := ⟨decide (n < 0), Text.decimal n.natAbs, none, none⟩

theorem text_numeral (n : Int) : (numeral n).text = Text.integer n := by
  cases n with
  | ofNat n =>
    simp [numeral, Numeral.text, Numeral.fractionText, Numeral.exponentText, Text.integer]
  | negSucc n =>
    simp [numeral, Numeral.text, Numeral.fractionText, Numeral.exponentText, Text.integer]; rfl

theorem wellFormed_numeral (n : Int) : (numeral n).WellFormed where
  whole_digits := (Text.isDecimal_decimal n.natAbs).digits
  whole_ne_nil := (Text.isDecimal_decimal n.natAbs).ne_nil
  whole_head := (Text.isDecimal_decimal n.natAbs).head
  fraction := nofun
  exponent := nofun

theorem denotes_numeral (n : Int) : (numeral n).Denotes n := by
  have hvalue : Text.value (Text.decimal n.natAbs ++ []) = n.natAbs := by
    rw [List.append_nil, (Text.isDecimal_decimal n.natAbs).value_eq]
  have hmantissa : (numeral n).mantissa = n := by
    simp only [Numeral.mantissa, numeral, Option.getD_none, hvalue, decide_eq_true_eq]
    split <;> omega
  rw [Numeral.Denotes, hmantissa]
  rfl

/-! ## Layouts -/

/-- What may follow a number: nothing that would belong to it. -/
def Ends (r : Text) : Prop := ∀ b ∈ r.head?, Numeral.isByte b = false

theorem ends_cons {b : UInt8} (h : Numeral.isByte b = false) (r : Text) : Ends (b :: r) := by
  intro c hc
  obtain rfl := Option.some.inj hc
  exact h

theorem blanks_replicate (n : Nat) (r : Text) : Blanks (List.replicate n 32 ++ r) r := by
  induction n with
  | zero => exact Blanks.none r
  | succ n ih =>
    rw [List.replicate_succ, List.cons_append]
    exact Blanks.more (by decide) ih

theorem blanks_newline (level : Nat) (r : Text) : Blanks (newline level ++ r) r :=
  Blanks.more (b := 10) (by decide) (blanks_replicate (2 * level) r)

theorem isByte_of_isBlank {b : UInt8} (h : isBlank b = true) : Numeral.isByte b = false := by
  simp only [isBlank, Bool.or_eq_true, decide_eq_true_eq] at h
  rcases h with ((rfl | rfl) | rfl) | rfl <;> decide

/-- Blanks may follow a number, and what follows them may. -/
theorem ends_of_blanks {t r : Text} (h : Blanks t r) (hr : Ends r) : Ends t := by
  cases h with
  | none => exact hr
  | more hb _ => exact ends_cons (isByte_of_isBlank hb) _

theorem ends_layoutItems (level : Nat) (items : List Json) {r : Text} (h : Ends r) :
    Ends (layoutItems level items ++ r) := by
  cases items with
  | nil => exact h
  | cons item items =>
    simp only [layoutItems, List.append_assoc]
    exact ends_cons (b := 44) (by decide) _

theorem ends_layoutMembers (level : Nat) (members : List (Text × Json)) {r : Text} (h : Ends r) :
    Ends (layoutMembers level members ++ r) := by
  cases members with
  | nil => exact h
  | cons m members =>
    simp only [layoutMembers, List.append_assoc]
    exact ends_cons (b := 44) (by decide) _

/-- A key and its value, laid out, are a member. -/
theorem member_layout (key : Text) {t r : Text} {value : Json} (h : Value t value r) :
    ∃ u, quoted key ++ (Text.lit ": " ++ t) = 34 :: u ∧ Member u (Utf8.repaired key, value) r := by
  obtain ⟨u, heq, hu⟩ := characters_quoted key (Text.lit ": " ++ t)
  exact ⟨u, heq, Member.mk hu (Blanks.none _) (Blanks.more (b := 32) (by decide) (Blanks.none t)) h⟩

mutual

/-- **A layout is a value, whatever may follow it.** -/
theorem value_layout (level : Nat) (d : Json) {r : Text} (h : Ends r) :
    Value (layout level d ++ r) d.repaired r := by
  match d with
  | .null => exact Value.null r
  | .bool true => exact Value.bool true r
  | .bool false => exact Value.bool false r
  | .number n =>
    rw [layout, ← text_numeral]
    exact Value.number (wellFormed_numeral n) (denotes_numeral n) h
  | .string t =>
    obtain ⟨u, heq, hu⟩ := characters_quoted t r
    rw [layout, heq]
    exact Value.string hu
  | .array [] => exact Value.emptyArray (Blanks.none _)
  | .array (item :: items) =>
    have hclose : Blanks (newline level ++ (93 :: r)) (93 :: r) := blanks_newline level _
    have hends :=
      ends_layoutItems (level + 1) items (ends_of_blanks hclose (ends_cons (by decide) r))
    simp only [layout, List.append_assoc]
    exact Value.array (blanks_newline (level + 1) _) (value_layout (level + 1) item hends)
      (items_layoutItems (level + 1) items hclose)
  | .object [] => exact Value.emptyObject (Blanks.none _)
  | .object ((key, value) :: members) =>
    have hclose : Blanks (newline level ++ (125 :: r)) (125 :: r) := blanks_newline level _
    have hends :=
      ends_layoutMembers (level + 1) members (ends_of_blanks hclose (ends_cons (by decide) r))
    obtain ⟨u, heq, hu⟩ := member_layout key (value_layout (level + 1) value hends)
    simp only [layout, List.append_assoc]
    exact Value.object (heq ▸ blanks_newline (level + 1) _) hu
      (members_layoutMembers (level + 1) members hclose)
termination_by structural d

theorem items_layoutItems (level : Nat) (items : List Json) {r s : Text} (h : Blanks s (93 :: r)) :
    Items (layoutItems level items ++ s) (repairedItems items) r := by
  match items with
  | [] => exact Items.done h
  | item :: items =>
    have hends := ends_layoutItems level items (ends_of_blanks h (ends_cons (by decide) r))
    simp only [layoutItems, List.append_assoc]
    exact Items.more (Blanks.none _) (blanks_newline level _) (value_layout level item hends)
      (items_layoutItems level items h)
termination_by structural items

theorem members_layoutMembers (level : Nat) (members : List (Text × Json)) {r s : Text}
    (h : Blanks s (125 :: r)) :
    Members (layoutMembers level members ++ s) (repairedMembers members) r := by
  match members with
  | [] => exact Members.done h
  | (key, value) :: members =>
    have hends := ends_layoutMembers level members (ends_of_blanks h (ends_cons (by decide) r))
    obtain ⟨u, heq, hu⟩ := member_layout key (value_layout level value hends)
    simp only [layoutMembers, List.append_assoc]
    exact Members.more (Blanks.none _) (heq ▸ blanks_newline level _) hu
      (members_layoutMembers level members h)
termination_by structural members

end

/-- **The one reading of the text of a document is the document itself, repaired.** -/
theorem document_text_iff (d d' : Json) : Document d.text d' ↔ d' = d.repaired := by
  have hvalue : Value d.text d.repaired [] := by
    have hlayout := value_layout 0 d (r := []) nofun
    rw [List.append_nil] at hlayout
    exact hlayout
  have hread : Document d.text d.repaired := ⟨d.text, [], Blanks.none _, hvalue, Blanks.none _⟩
  constructor
  · intro h
    exact h.unique hread
  · rintro rfl
    exact hread

end Json
end RepeatedAddition
