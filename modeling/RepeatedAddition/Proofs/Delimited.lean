import RepeatedAddition.Duration
import RepeatedAddition.Proofs.Decimal

/-!
# Where a text ends

Texts that are written one behind another can be told apart again if each of them shows where it
ends.  There are three ways to show it here: a run of bytes of one class ends before the first byte
of another class, a text ends before a byte that it does not have, and in a sequence every text
starts with a byte with which nothing behind the sequence starts.  Each way is stated for texts with
anything behind them, so that the next text can be taken up where the last one ended.

* `Text.run_append_inj`: runs of one class.
* `Text.append_cons_inj`: texts up to a byte that they do not have.
* `Text.decimal_append_inj`: decimals, which are runs of digits.
* `Text.flatMap_append_inj`: sequences.
* `Text.joined_singleton`, `Text.joined_cons_cons`: texts with a separator, one after another.
-/

namespace RepeatedAddition
namespace Text

/-! ## Runs -/

/-- **A run ends before the first byte of another class.** -/
theorem run_append_inj {p : UInt8 → Bool} {t u s s' : Text} (ht : ∀ b ∈ t, p b = true)
    (hu : ∀ b ∈ u, p b = true) (hs : ∀ b ∈ s.head?, p b = false) (hs' : ∀ b ∈ s'.head?, p b = false)
    (h : t ++ s = u ++ s') :
    t = u ∧ s = s' := by
  induction t generalizing u with
  | nil =>
    cases u with
    | nil => exact ⟨rfl, h⟩
    | cons b u =>
      -- the run on the right would start where the left one is over
      have hhead : s.head? = some b := by
        rw [← List.nil_append s, h, List.cons_append, List.head?_cons]
      have hclass := hu b List.mem_cons_self
      rw [hs b hhead] at hclass
      exact Bool.noConfusion hclass
  | cons a t ih =>
    cases u with
    | nil =>
      have hhead : s'.head? = some a := by
        rw [← List.nil_append s', ← h, List.cons_append, List.head?_cons]
      have hclass := ht a List.mem_cons_self
      rw [hs' a hhead] at hclass
      exact Bool.noConfusion hclass
    | cons b u =>
      obtain ⟨rfl, htail⟩ := List.cons.inj h
      obtain ⟨rfl, hrest⟩ := ih (fun c hc => ht c (List.mem_cons_of_mem a hc))
        (fun c hc => hu c (List.mem_cons_of_mem a hc)) htail
      exact ⟨rfl, hrest⟩

/-- A text ends before a byte that it does not have. -/
theorem append_cons_inj {b : UInt8} {t u s s' : Text} (ht : b ∉ t) (hu : b ∉ u)
    (h : t ++ b :: s = u ++ b :: s') :
    t = u ∧ s = s' := by
  have hother : ∀ {v : Text}, b ∉ v → ∀ c ∈ v, (c != b) = true := by
    intro v hv c hc
    rw [bne_iff_ne]
    rintro rfl
    exact hv hc
  have hhead : ∀ v : Text, ∀ c ∈ (b :: v).head?, (c != b) = false := by
    intro v c hc
    obtain rfl := Option.some.inj hc
    exact bne_self_eq_false b
  obtain ⟨hfirst, hrest⟩ := run_append_inj (hother ht) (hother hu) (hhead s) (hhead s') h
  exact ⟨hfirst, (List.cons.inj hrest).2⟩

/-! ## Decimals -/

/-- What is no digit does not stand in a decimal. -/
theorem notMem_decimal {b : UInt8} (h : isDigit b = false) (n : Nat) : b ∉ decimal n := by
  intro hb
  have hdigit := (isDecimal_decimal n).digits b hb
  rw [h] at hdigit
  exact Bool.noConfusion hdigit

theorem digits_paddedDecimal (width n : Nat) : Digits (paddedDecimal width n) := by
  refine digits_append.mpr ⟨fun b hb => ?_, (isDecimal_decimal n).digits⟩
  rw [List.eq_of_mem_replicate hb]
  decide

theorem decimal_inj {m n : Nat} (h : decimal m = decimal n) : m = n := by
  rw [← (isDecimal_decimal m).value_eq, h, (isDecimal_decimal n).value_eq]

/-- A decimal ends before the first byte that is no digit. -/
theorem decimal_append_inj {m n : Nat} {s s' : Text} (hs : ∀ b ∈ s.head?, isDigit b = false)
    (hs' : ∀ b ∈ s'.head?, isDigit b = false) (h : decimal m ++ s = decimal n ++ s') :
    m = n ∧ s = s' := by
  obtain ⟨hdecimal, hrest⟩ :=
    run_append_inj (isDecimal_decimal m).digits (isDecimal_decimal n).digits hs hs' h
  exact ⟨decimal_inj hdecimal, hrest⟩

/-! ## Sequences -/

variable {α β : Type} {f : α → Text} {key : α → β} {start : UInt8}

/-- **A sequence ends where nothing starts any more.**  If every text of a sequence shows its key
and where it ends, and starts with a byte with which nothing behind the sequence starts, the keys
can be read off. -/
theorem flatMap_append_inj {as bs : List α} {s s' : Text} (hstart : ∀ a, (f a).head? = some start)
    (hs : start ∉ s.head?) (hs' : start ∉ s'.head?)
    (hread : ∀ a ∈ as, ∀ b ∈ bs, ∀ t t' : Text, f a ++ t = f b ++ t' → key a = key b ∧ t = t')
    (h : as.flatMap f ++ s = bs.flatMap f ++ s') : as.map key = bs.map key ∧ s = s' := by
  have hhead : ∀ (a : α) (t : Text), (f a ++ t).head? = some start := by
    intro a t
    rw [List.head?_append, hstart, Option.some_or]
  induction as generalizing bs with
  | nil =>
    cases bs with
    | nil => exact ⟨rfl, h⟩
    | cons b bs =>
      rw [List.flatMap_nil, List.nil_append, List.flatMap_cons, List.append_assoc] at h
      exact absurd (h ▸ hhead b _) hs
  | cons a as ih =>
    cases bs with
    | nil =>
      rw [List.flatMap_nil, List.nil_append, List.flatMap_cons, List.append_assoc] at h
      exact absurd (h ▸ hhead a _) hs'
    | cons b bs =>
      rw [List.flatMap_cons, List.flatMap_cons, List.append_assoc, List.append_assoc] at h
      obtain ⟨hkey, htail⟩ := hread a List.mem_cons_self b List.mem_cons_self _ _ h
      obtain ⟨hkeys, hrest⟩ := ih (fun a' ha' b' hb' =>
        hread a' (List.mem_cons_of_mem a ha') b' (List.mem_cons_of_mem b hb')) htail
      exact ⟨by rw [List.map_cons, List.map_cons, hkey, hkeys], hrest⟩

/-! ## Texts with a separator -/

theorem joined_cons_cons (separator c d : Text) (cells : List Text) :
    joined separator (c :: d :: cells) = c ++ separator ++ joined separator (d :: cells) := by
  simp [joined, List.intercalate]

theorem joined_singleton (separator c : Text) : joined separator [c] = c := by
  simp [joined, List.intercalate]

end Text

/-- A fraction has digits behind its point. -/
theorem Duration.isDigit_of_mem_fraction {width n : Nat} {b : UInt8} (h : b ∈ fraction width n) :
    b = 46 ∨ Text.isDigit b = true := by
  simp only [fraction] at h
  split at h
  · exact absurd h List.not_mem_nil
  rcases List.mem_append.mp h with hpoint | hdigit
  · exact Or.inl (List.mem_singleton.mp hpoint)
  · have hpadded := (List.dropWhile_sublist _).subset (List.mem_reverse.mp hdigit)
    exact Or.inr (Text.digits_paddedDecimal width n b (List.mem_reverse.mp hpadded))

end RepeatedAddition
