import Mathlib.Data.List.Basic
import RepeatedAddition.Text.Utf8

/-!
# Reading UTF-8 undoes writing it

`Utf8.head?` finds the well-formed sequence at the head of a text by the ranges of its bytes.  Here
it is compared with the other direction, the bytes of a character: what is found is a character
whose bytes stand there, and if the bytes of a character stand there it is found.  So a text of
characters comes apart into exactly these characters, and in any text a byte is stray only where the
bytes of no character start.

* `head?_encodeChar_append`, `eq_append_of_head?`: a character is found exactly where its bytes
  stand.
* `encodeChar_append_inj`: the bytes of a character show where they end.
* `pieces_of_append`, `pieces_of_stray`: a text comes apart from its head on.
* `flatMap_bytes_pieces`: the pieces of a text make it up.
* `repaired`, `repaired_of_valid`: a text with the replacement character for each stray byte; one of
  characters alone stays as it is.
-/

namespace RepeatedAddition
namespace Utf8

/-! ## Sequences by the numbers of their bytes -/

theorem toNat_ofNat_byte {n : Nat} (h : n < 256) : (UInt8.ofNat n).toNat = n :=
  UInt8.toNat_ofNat_of_lt' h

theorem toNat_ofNat_char {n : Nat} (h : n.isValidChar) : (Char.ofNat n).toNat = n := by
  rw [Char.ofNat, dif_pos h]
  rfl

theorem two?_cons (a b : UInt8) (rest : Text) :
    two? a (b :: rest) =
      if (0xC2 ≤ a.toNat ∧ a.toNat ≤ 0xDF) ∧ 0x80 ≤ b.toNat ∧ b.toNat ≤ 0xBF then
        some (Char.ofNat (a.toNat % 32 * 64 + b.toNat % 64), rest)
      else none := by
  simp only [two?, isTail, low6, Bool.and_eq_true, decide_eq_true_eq, UInt8.le_iff_toNat_le]
  rfl

theorem three?_cons (a b c : UInt8) (rest : Text) :
    three? a (b :: c :: rest) =
      if ((((0xE0 ≤ a.toNat ∧ a.toNat ≤ 0xEF) ∧ 0x80 ≤ b.toNat ∧ b.toNat ≤ 0xBF) ∧
          0x80 ≤ c.toNat ∧ c.toNat ≤ 0xBF) ∧
          (a.toNat ≠ 0xE0 ∨ 0xA0 ≤ b.toNat)) ∧ (a.toNat ≠ 0xED ∨ b.toNat ≤ 0x9F) then
        some (Char.ofNat ((a.toNat % 16 * 64 + b.toNat % 64) * 64 + c.toNat % 64), rest)
      else none := by
  simp only [three?, isTail, low6, Bool.and_eq_true, Bool.or_eq_true, bne_iff_ne, ne_eq,
    decide_eq_true_eq, UInt8.le_iff_toNat_le, ← UInt8.toNat_inj]
  rfl

theorem four?_cons (a b c d : UInt8) (rest : Text) :
    four? a (b :: c :: d :: rest) =
      if (((((0xF0 ≤ a.toNat ∧ a.toNat ≤ 0xF4) ∧ 0x80 ≤ b.toNat ∧ b.toNat ≤ 0xBF) ∧
          0x80 ≤ c.toNat ∧ c.toNat ≤ 0xBF) ∧ 0x80 ≤ d.toNat ∧ d.toNat ≤ 0xBF) ∧
          (a.toNat ≠ 0xF0 ∨ 0x90 ≤ b.toNat)) ∧ (a.toNat ≠ 0xF4 ∨ b.toNat ≤ 0x8F) then
        some (Char.ofNat (((a.toNat % 8 * 64 + b.toNat % 64) * 64 + c.toNat % 64) * 64 +
          d.toNat % 64), rest)
      else none := by
  simp only [four?, isTail, low6, Bool.and_eq_true, Bool.or_eq_true, bne_iff_ne, ne_eq,
    decide_eq_true_eq, UInt8.le_iff_toNat_le, ← UInt8.toNat_inj]
  rfl

theorem two?_eq_none {a : UInt8} (h : 0xDF < a.toNat) (rest : Text) : two? a rest = none := by
  cases rest with
  | nil => rfl
  | cons b rest => rw [two?_cons, if_neg (by omega)]

theorem three?_eq_none {a : UInt8} (h : 0xEF < a.toNat) (rest : Text) : three? a rest = none := by
  match rest with
  | [] | [_] => rfl
  | b :: c :: rest => rw [three?_cons, if_neg (by omega)]

theorem head?_of_lt {a : UInt8} (h : a.toNat < 0x80) (rest : Text) :
    head? (a :: rest) = some (Char.ofNat a.toNat, rest) :=
  if_pos (UInt8.lt_iff_toNat_lt.mpr h)

theorem head?_of_le {a : UInt8} (h : 0x80 ≤ a.toNat) (rest : Text) :
    head? (a :: rest) = (two? a rest <|> three? a rest <|> four? a rest) :=
  if_neg fun hlt => absurd (UInt8.lt_iff_toNat_lt.mp hlt : a.toNat < 0x80) (Nat.not_lt.mpr h)

/-! ## Characters by their bytes -/

/-- The bytes of a character, by the size of its number. -/
theorem encodeChar_eq (c : Char) :
    encodeChar c =
      if c.toNat ≤ 0x7F then [UInt8.ofNat c.toNat]
      else if c.toNat ≤ 0x7FF then
        [UInt8.ofNat (c.toNat / 64 % 32 + 192), UInt8.ofNat (c.toNat % 64 + 128)]
      else if c.toNat ≤ 0xFFFF then
        [UInt8.ofNat (c.toNat / 4096 % 16 + 224), UInt8.ofNat (c.toNat / 64 % 64 + 128),
          UInt8.ofNat (c.toNat % 64 + 128)]
      else
        [UInt8.ofNat (c.toNat / 262144 % 8 + 240), UInt8.ofNat (c.toNat / 4096 % 64 + 128),
          UInt8.ofNat (c.toNat / 64 % 64 + 128), UInt8.ofNat (c.toNat % 64 + 128)] := rfl

/-- A character of ASCII is the byte with its number. -/
theorem encodeChar_of_toNat {c : Char} {b : UInt8} (h : c.toNat = b.toNat) (hb : b.toNat < 0x80) :
    encodeChar c = [b] := by
  rw [encodeChar_eq, if_pos (by omega), h, UInt8.ofNat_toNat]

/-- A byte of ASCII is in no other character than its own. -/
theorem notMem_encodeChar {c : Char} {b : UInt8} (hb : b.toNat < 0x80)
    (h : c ≠ Char.ofNat b.toNat) :
    b ∉ encodeChar c := by
  intro hmem
  rw [encodeChar_eq] at hmem
  split at hmem
  next hascii =>
    rw [List.mem_singleton.mp hmem, toNat_ofNat_byte (by omega), Char.ofNat_toNat] at h
    exact h rfl
  next =>
    have hhigh : ∀ n, 0x80 ≤ n → n < 256 → b ≠ UInt8.ofNat n := by
      rintro n hlow hbyte rfl
      rw [toNat_ofNat_byte hbyte] at hb
      omega
    split at hmem
    · simp only [List.mem_cons, List.not_mem_nil, or_false] at hmem
      obtain hmem | hmem := hmem <;> exact hhigh _ (by omega) (by omega) hmem
    split at hmem
    · simp only [List.mem_cons, List.not_mem_nil, or_false] at hmem
      obtain hmem | hmem | hmem := hmem <;> exact hhigh _ (by omega) (by omega) hmem
    · simp only [List.mem_cons, List.not_mem_nil, or_false] at hmem
      obtain hmem | hmem | hmem | hmem := hmem <;> exact hhigh _ (by omega) (by omega) hmem

/-- A character is found where its bytes stand. -/
theorem head?_encodeChar_append (c : Char) (rest : Text) :
    head? (encodeChar c ++ rest) = some (c, rest) := by
  have hvalid : c.toNat < 0xD800 ∨ 0xDFFF < c.toNat ∧ c.toNat < 0x110000 := c.valid
  have hfound : ∀ n, n = c.toNat → some (Char.ofNat n, rest) = some (c, rest) := by
    rintro n rfl
    rw [Char.ofNat_toNat]
  rw [encodeChar_eq]
  split
  · have ha : (UInt8.ofNat c.toNat).toNat = c.toNat := toNat_ofNat_byte (by omega)
    rw [List.singleton_append, head?_of_lt (by omega), ha]
    exact hfound _ rfl
  split
  · have ha := toNat_ofNat_byte (n := c.toNat / 64 % 32 + 192) (by omega)
    have hb := toNat_ofNat_byte (n := c.toNat % 64 + 128) (by omega)
    simp only [List.cons_append, List.nil_append]
    rw [head?_of_le (by omega), two?_cons, if_pos (by omega), ha, hb]
    exact hfound _ (by omega)
  split
  · have ha := toNat_ofNat_byte (n := c.toNat / 4096 % 16 + 224) (by omega)
    have hb := toNat_ofNat_byte (n := c.toNat / 64 % 64 + 128) (by omega)
    have hc := toNat_ofNat_byte (n := c.toNat % 64 + 128) (by omega)
    simp only [List.cons_append, List.nil_append]
    rw [head?_of_le (by omega), two?_eq_none (by omega), three?_cons, if_pos (by omega), ha, hb, hc]
    exact hfound _ (by omega)
  · have ha := toNat_ofNat_byte (n := c.toNat / 262144 % 8 + 240) (by omega)
    have hb := toNat_ofNat_byte (n := c.toNat / 4096 % 64 + 128) (by omega)
    have hc := toNat_ofNat_byte (n := c.toNat / 64 % 64 + 128) (by omega)
    have hd := toNat_ofNat_byte (n := c.toNat % 64 + 128) (by omega)
    simp only [List.cons_append, List.nil_append]
    rw [head?_of_le (by omega), two?_eq_none (by omega), three?_eq_none (by omega), four?_cons,
      if_pos (by omega), ha, hb, hc, hd]
    exact hfound _ (by omega)

/-- A byte is known by its number. -/
theorem eq_ofNat_of_toNat {a : UInt8} {n : Nat} (h : a.toNat = n) : UInt8.ofNat n = a := by
  rw [← h, UInt8.ofNat_toNat]

theorem eq_append_of_two? {a : UInt8} {t rest : Text} {c : Char} (h : two? a t = some (c, rest)) :
    a :: t = encodeChar c ++ rest := by
  cases t with
  | nil => cases h
  | cons b t =>
    rw [two?_cons] at h
    split at h
    next hbytes =>
      obtain ⟨rfl, rfl⟩ := Prod.mk.inj (Option.some.inj h)
      rw [encodeChar_eq, toNat_ofNat_char (by unfold Nat.isValidChar; omega), if_neg (by omega),
        if_pos (by omega), eq_ofNat_of_toNat (a := a) (by omega),
        eq_ofNat_of_toNat (a := b) (by omega)]
      rfl
    next => cases h

theorem eq_append_of_three? {a : UInt8} {t rest : Text} {c : Char}
    (h : three? a t = some (c, rest)) :
    a :: t = encodeChar c ++ rest := by
  match t with
  | [] | [_] => cases h
  | b :: d :: t =>
    rw [three?_cons] at h
    split at h
    next hbytes =>
      obtain ⟨rfl, rfl⟩ := Prod.mk.inj (Option.some.inj h)
      rw [encodeChar_eq, toNat_ofNat_char (by unfold Nat.isValidChar; omega), if_neg (by omega),
        if_neg (by omega), if_pos (by omega), eq_ofNat_of_toNat (a := a) (by omega),
        eq_ofNat_of_toNat (a := b) (by omega), eq_ofNat_of_toNat (a := d) (by omega)]
      rfl
    next => cases h

theorem eq_append_of_four? {a : UInt8} {t rest : Text} {c : Char} (h : four? a t = some (c, rest)) :
    a :: t = encodeChar c ++ rest := by
  match t with
  | [] | [_] | [_, _] => cases h
  | b :: d :: e :: t =>
    rw [four?_cons] at h
    split at h
    next hbytes =>
      obtain ⟨rfl, rfl⟩ := Prod.mk.inj (Option.some.inj h)
      rw [encodeChar_eq, toNat_ofNat_char (by unfold Nat.isValidChar; omega), if_neg (by omega),
        if_neg (by omega), if_neg (by omega), eq_ofNat_of_toNat (a := a) (by omega),
        eq_ofNat_of_toNat (a := b) (by omega), eq_ofNat_of_toNat (a := d) (by omega),
        eq_ofNat_of_toNat (a := e) (by omega)]
      rfl
    next => cases h

/-- What is found is a character whose bytes stand there. -/
theorem eq_append_of_head? {t rest : Text} {c : Char} (h : head? t = some (c, rest)) :
    t = encodeChar c ++ rest := by
  cases t with
  | nil => cases h
  | cons a t =>
    by_cases ha : a.toNat < 0x80
    · rw [head?_of_lt ha] at h
      obtain ⟨rfl, rfl⟩ := Prod.mk.inj (Option.some.inj h)
      rw [encodeChar_eq, toNat_ofNat_char (by unfold Nat.isValidChar; omega), if_pos (by omega),
        UInt8.ofNat_toNat]
      rfl
    · rw [head?_of_le (by omega)] at h
      rcases htwo : two? a t with _ | found
      · rcases hthree : three? a t with _ | found
        · rw [htwo, hthree] at h
          exact eq_append_of_four? h
        · rw [htwo, hthree] at h
          exact eq_append_of_three? (hthree.trans h)
      · rw [htwo] at h
        exact eq_append_of_two? (htwo.trans h)

theorem encodeChar_append_inj {c d : Char} {s s' : Text}
    (h : encodeChar c ++ s = encodeChar d ++ s') :
    c = d ∧ s = s' := by
  have hfound := head?_encodeChar_append c s
  rw [h, head?_encodeChar_append] at hfound
  obtain ⟨rfl, rfl⟩ := Prod.mk.inj (Option.some.inj hfound)
  exact ⟨rfl, rfl⟩

/-- A text that starts with an ASCII byte starts with its character. -/
theorem eq_of_encodeChar_append_eq_cons {b : UInt8} {c : Char} {r t : Text} (hb : b.toNat < 0x80)
    (h : encodeChar c ++ r = b :: t) : c = Char.ofNat b.toNat ∧ r = t := by
  have hfound := head?_encodeChar_append c r
  rw [h, head?_of_lt hb] at hfound
  obtain ⟨rfl, rfl⟩ := Prod.mk.inj (Option.some.inj hfound)
  exact ⟨rfl, rfl⟩

theorem encodeChar_ne_nil (c : Char) : encodeChar c ≠ [] := by
  intro h
  have hfound := head?_encodeChar_append c []
  rw [h] at hfound
  cases hfound

/-! ## Pieces -/

/-- What stands behind a character is shorter. -/
theorem length_lt_of_head? {t rest : Text} {c : Char} (h : head? t = some (c, rest)) :
    rest.length < t.length := by
  rw [eq_append_of_head? h, List.length_append]
  have hpos := List.length_pos_iff.mpr (encodeChar_ne_nil c)
  omega

/-- A limit that is large enough is not met. -/
theorem piecesUpTo_eq {m n : Nat} {t : Text} (hm : t.length ≤ m) (hn : t.length ≤ n) :
    piecesUpTo m t = piecesUpTo n t := by
  induction m generalizing n t with
  | zero =>
    obtain rfl := List.length_eq_zero_iff.mp (Nat.le_zero.mp hm)
    cases n <;> rfl
  | succ m ih =>
    cases t with
    | nil => cases n <;> rfl
    | cons b t =>
      rw [List.length_cons] at hm hn
      obtain ⟨n, rfl⟩ : ∃ k, n = k + 1 := ⟨n - 1, by omega⟩
      rw [piecesUpTo, piecesUpTo]
      split
      next c after hhead =>
        have hlt := length_lt_of_head? hhead
        rw [List.length_cons] at hlt
        exact congrArg (Piece.char c :: ·) (ih (by omega) (by omega))
      next => exact congrArg (Piece.stray b :: ·) (ih (by omega) (by omega))

/-- A text that starts with a character comes apart into it and the rest. -/
theorem pieces_of_append (c : Char) (rest : Text) :
    pieces (encodeChar c ++ rest) = .char c :: pieces rest := by
  have hhead := head?_encodeChar_append c rest
  have hlt := length_lt_of_head? hhead
  cases ht : encodeChar c ++ rest with
  | nil => exact absurd ht (List.append_ne_nil_of_left_ne_nil (encodeChar_ne_nil c) rest)
  | cons b t =>
    rw [ht, List.length_cons] at hlt
    rw [ht] at hhead
    rw [pieces, List.length_cons, piecesUpTo, hhead]
    exact congrArg (Piece.char c :: ·) (piecesUpTo_eq (by omega) (by omega))

/-- A byte with which no character starts is stray. -/
theorem pieces_of_stray {b : UInt8} {t : Text} (h : head? (b :: t) = none) :
    pieces (b :: t) = .stray b :: pieces t := by
  rw [pieces, List.length_cons, piecesUpTo, h]
  rfl

/-- A text of characters comes apart into them. -/
theorem pieces_encode (cs : List Char) : pieces (encode cs) = cs.map .char := by
  induction cs with
  | nil => rfl
  | cons c cs ih =>
    have hcons : encode (c :: cs) = encodeChar c ++ encode cs := List.flatMap_cons
    rw [hcons, pieces_of_append, ih, List.map_cons]

/-- The bytes of a piece. -/
def Piece.bytes : Piece → Text
  | .char c => encodeChar c
  | .stray b => [b]

/-- **The pieces of a text make it up**, whether it is one of characters or not. -/
theorem flatMap_bytes_pieces (t : Text) : (pieces t).flatMap Piece.bytes = t := by
  -- the rest behind a character is no tail of the list: the induction is on a bound for the length
  have hbounded : ∀ n, ∀ t : Text, t.length ≤ n → (pieces t).flatMap Piece.bytes = t := by
    intro n
    induction n with
    | zero =>
      intro t ht
      obtain rfl := List.length_eq_zero_iff.mp (Nat.le_zero.mp ht)
      rfl
    | succ n ih =>
      intro t ht
      cases t with
      | nil => rfl
      | cons b t =>
        cases hhead : head? (b :: t) with
        | none =>
          rw [List.length_cons] at ht
          rw [pieces_of_stray hhead, List.flatMap_cons, ih t (by omega)]
          rfl
        | some found =>
          obtain ⟨c, rest⟩ := found
          have hlt := length_lt_of_head? hhead
          rw [eq_append_of_head? hhead, pieces_of_append, List.flatMap_cons, ih rest (by omega)]
          rfl
  exact hbounded t.length t (Nat.le_refl _)

/-! ## Repair -/

/-- The text is one of characters. -/
def Valid (t : Text) : Prop := ∃ cs, t = encode cs

/-- The character that is shown for a piece. -/
def Piece.shown : Piece → Char
  | .char c => c
  | .stray _ => replacement

/-- The text with the replacement character for each stray byte. -/
def repaired (t : Text) : Text := encode ((pieces t).map Piece.shown)

/-- A text of characters has nothing to be repaired. -/
theorem repaired_of_valid {t : Text} (h : Valid t) : repaired t = t := by
  obtain ⟨cs, rfl⟩ := h
  have hshown : Piece.shown ∘ Piece.char = id := rfl
  rw [repaired, pieces_encode, List.map_map, hshown, List.map_id]

/-- The text has ASCII bytes only. -/
def Ascii (t : Text) : Prop := ∀ b ∈ t, b.toNat < 0x80

instance (t : Text) : Decidable (Ascii t) :=
  decidable_of_iff (t.all fun b => b.toNat < 0x80) (by simp [Ascii])

theorem ascii_append {t u : Text} : Ascii (t ++ u) ↔ Ascii t ∧ Ascii u := List.forall_mem_append

/-- A text of ASCII bytes is one of characters. -/
theorem valid_of_ascii {t : Text} (h : Ascii t) : Valid t := by
  induction t with
  | nil => exact ⟨[], rfl⟩
  | cons b t ih =>
    obtain ⟨cs, rfl⟩ := ih fun c hc => h c (List.mem_cons_of_mem b hc)
    have hchar := eq_append_of_head? (head?_of_lt (h b List.mem_cons_self) (encode cs))
    exact ⟨Char.ofNat b.toNat :: cs, hchar⟩

/-- Repairing loses no text altogether. -/
theorem repaired_eq_nil_iff {t : Text} : repaired t = [] ↔ t = [] := by
  constructor
  · intro h
    cases t with
    | nil => rfl
    | cons b t =>
      -- the first piece is there, and is shown by a character
      cases hhead : head? (b :: t) with
      | none =>
        rw [repaired, pieces_of_stray hhead] at h
        exact absurd h (List.append_ne_nil_of_left_ne_nil (encodeChar_ne_nil _) _)
      | some found =>
        rw [eq_append_of_head? hhead, repaired, pieces_of_append] at h
        exact absurd h (List.append_ne_nil_of_left_ne_nil (encodeChar_ne_nil _) _)
  · rintro rfl
    rfl

end Utf8
end RepeatedAddition
