import Mathlib.Tactic.Common
import RepeatedAddition.Proofs.Product

/-!
# What a product loses

Each addition of words either keeps its exact sum or drops one carry, worth `2 ^ 64`.  `wraps` never
looks at a sum: it asks for the part of the exact product above `2 ^ 64`.  That part counts the
carries that were dropped on the way, whichever method takes the sum.

The two sums are written here for an addition with effects, `Method.productWith`.  With the plain
addition they are the products of `Method.product`; with an addition that keeps a record of itself
they give the additions that were made, `Method.additions`.

* `toNat_add_toNat`: an addition is exact up to its carry.
* `Accounts`: a run of additions accounts for an exact sum.  It is preserved by a further addition
  at either end, and both methods are built in this way.
* `carries_eq_high_part`: the carries of a product are its part above `2 ^ 64`.
-/

namespace RepeatedAddition

universe u

/-! ## Sums over an addition with effects -/

section WithAddition

variable {m : Type → Type u} [Monad m] (add : UInt64 → UInt64 → m UInt64)

/-- The loop of `accumulate`, over a given addition. -/
def accumulateWith (x counter total : UInt64) : m UInt64 :=
  if counter = 0 then pure total else do
    let total' ← add total x
    accumulateWith x (counter - 1) total'
termination_by counter.toNat
decreasing_by exact toNat_sub_one_lt ‹_›

/-- The recursion of `recursive`, over a given addition. -/
def recursiveWith (x y : UInt64) : m UInt64 :=
  if y = 0 then pure 0 else do
    let rest ← recursiveWith x (y - 1)
    add x rest
termination_by y.toNat
decreasing_by exact toNat_sub_one_lt ‹_›

/-- The product by a method, over a given addition. -/
def Method.productWith : Method → UInt64 → UInt64 → m UInt64
  | .iterative, x, y => accumulateWith add x y 0
  | .recursive, x, y => recursiveWith add x y

end WithAddition

/-- The addition of words, without effects. -/
def plainAdd (a b : UInt64) : Id UInt64 := pure (a + b)

theorem accumulateWith_plainAdd (x counter total : UInt64) :
    (accumulateWith plainAdd x counter total).run = accumulate x counter total := by
  induction counter, total using accumulate.induct x with
  | case1 total => rw [accumulateWith, if_pos rfl, accumulate_zero, Id.run_pure]
  | case2 counter total h ih => rw [accumulateWith, if_neg h, accumulate_of_ne_zero h, ← ih]; rfl

theorem recursiveWith_plainAdd (x y : UInt64) :
    (recursiveWith plainAdd x y).run = recursive x y := by
  induction y using recursive.induct with
  | case1 => rw [recursiveWith, if_pos rfl, recursive_zero, Id.run_pure]
  | case2 y h ih => rw [recursiveWith, if_neg h, recursive_of_ne_zero h, ← ih]; rfl

/-- With the plain addition, the sums are the products. -/
theorem Method.productWith_plainAdd (m : Method) (x y : UInt64) :
    (m.productWith plainAdd x y).run = m.product x y := by
  cases m with
  | iterative => exact accumulateWith_plainAdd x y 0
  | recursive => exact recursiveWith_plainAdd x y

/-! ## Additions and their carries -/

/-- An addition of two words. -/
structure Addition where
  left : UInt64
  right : UInt64
  deriving DecidableEq, Repr

/-- The exact sum is no word. -/
def Addition.Carries (a : Addition) : Prop := 2 ^ 64 ≤ a.left.toNat + a.right.toNat

instance (a : Addition) : Decidable a.Carries :=
  inferInstanceAs (Decidable (2 ^ 64 ≤ a.left.toNat + a.right.toNat))

/-- How many of some additions carry. -/
def carries (made : List Addition) : Nat := made.countP (·.Carries)

theorem carries_append (before after : List Addition) :
    carries (before ++ after) = carries before + carries after :=
  List.countP_append

theorem carries_ne_zero_iff (made : List Addition) : carries made ≠ 0 ↔ ∃ a ∈ made, a.Carries := by
  simp [carries, List.countP_eq_zero]

/-- An addition of words is exact up to its carry. -/
theorem toNat_add_toNat (a b : UInt64) :
    a.toNat + b.toNat = (a + b).toNat + 2 ^ 64 * carries [⟨a, b⟩] := by
  have ha := a.toNat_lt
  have hb := b.toNat_lt
  rw [UInt64.toNat_add, carries, List.countP_singleton]
  have hiff : (Addition.mk a b).Carries ↔ 2 ^ 64 ≤ a.toNat + b.toNat := Iff.rfl
  by_cases h : (Addition.mk a b).Carries
  · rw [if_pos (decide_eq_true h)]
    have := hiff.mp h
    omega
  · rw [if_neg (by simpa using h)]
    have := mt hiff.mpr h
    omega

/-- An addition that puts itself at the end of a record. -/
def recordAdd (a b : UInt64) : StateM (List Addition) UInt64 := do
  modify (· ++ [⟨a, b⟩])
  return a + b

theorem run_recordAdd (a b : UInt64) (log : List Addition) :
    (recordAdd a b).run log = (a + b, log ++ [⟨a, b⟩]) :=
  rfl

/-! ## Accounts -/

/-- Started behind any record, a computation puts `count` additions to it and gives a word that is,
with the carries of these additions, the number `total`. -/
def Accounts (run : StateM (List Addition) UInt64) (count total : Nat) : Prop :=
  ∃ value made, (∀ log, run.run log = (value, log ++ made)) ∧ made.length = count ∧
    total = value.toNat + 2 ^ 64 * carries made

theorem Accounts.pure (value : UInt64) : Accounts (pure value) 0 value.toNat :=
  ⟨value, [], fun log => by rw [List.append_nil]; rfl, rfl, rfl⟩

/-- An addition in front of a computation that goes on with its sum. -/
theorem Accounts.add_then {a b : UInt64} {next : UInt64 → StateM (List Addition) UInt64}
    {count extra : Nat} (h : Accounts (next (a + b)) count ((a + b).toNat + extra)) :
    Accounts (recordAdd a b >>= next) (count + 1) (a.toNat + b.toNat + extra) := by
  obtain ⟨value, made, hrun, hlength, htotal⟩ := h
  refine ⟨value, ⟨a, b⟩ :: made, fun log => ?_, by rw [List.length_cons, hlength], ?_⟩
  · rw [StateT.run_bind, run_recordAdd]
    exact (hrun _).trans (by rw [List.append_assoc, List.singleton_append])
  · have hexact := toNat_add_toNat a b
    have hcarries := carries_append [⟨a, b⟩] made
    rw [List.singleton_append] at hcarries
    omega

/-- An addition behind a computation, to its word. -/
theorem Accounts.then_add {first : StateM (List Addition) UInt64} {count total : Nat}
    (h : Accounts first count total) (a : UInt64) :
    Accounts (first >>= recordAdd a) (count + 1) (a.toNat + total) := by
  obtain ⟨value, made, hrun, hlength, htotal⟩ := h
  refine ⟨a + value, made ++ [⟨a, value⟩],
    fun log => ?_, by rw [List.length_append, hlength]; rfl, ?_⟩
  · rw [StateT.run_bind, hrun]
    exact (run_recordAdd a value _).trans (by rw [List.append_assoc])
  · have hexact := toNat_add_toNat a value
    rw [carries_append]
    omega

theorem toNat_sub_one {y : UInt64} (h : y ≠ 0) : (y - 1).toNat + 1 = y.toNat := by
  have hpos : 0 < y.toNat := Nat.zero_lt_of_lt (toNat_sub_one_lt h)
  rw [UInt64.toNat_sub_of_le y 1 (UInt64.le_iff_toNat_le.mpr hpos)]
  exact Nat.sub_add_cancel hpos

/-- **The loop accounts for its exact sum**, whatever it has accumulated. -/
theorem accounts_accumulateWith (x counter total : UInt64) :
    Accounts (accumulateWith recordAdd x counter total) counter.toNat
      (total.toNat + x.toNat * counter.toNat) := by
  induction counter, total using accumulate.induct x with
  | case1 total =>
    rw [accumulateWith, if_pos rfl]
    exact Accounts.pure total
  | case2 counter total h ih =>
    rw [accumulateWith, if_neg h, ← toNat_sub_one h, Nat.mul_succ, Nat.add_comm (x.toNat * _),
      ← Nat.add_assoc]
    exact ih.add_then

/-- **The recursion accounts for its exact sum.** -/
theorem accounts_recursiveWith (x y : UInt64) :
    Accounts (recursiveWith recordAdd x y) y.toNat (x.toNat * y.toNat) := by
  induction y using recursive.induct with
  | case1 =>
    rw [recursiveWith, if_pos rfl]
    exact Accounts.pure 0
  | case2 y h ih =>
    rw [recursiveWith, if_neg h, ← toNat_sub_one h, Nat.mul_succ, Nat.add_comm (x.toNat * _)]
    exact ih.then_add x

namespace Method

/-- The additions that a method makes for a product, in the order in which it makes them. -/
def additions (m : Method) (x y : UInt64) : List Addition :=
  ((m.productWith recordAdd x y).run []).2

theorem accounts_productWith (m : Method) (x y : UInt64) :
    Accounts (m.productWith recordAdd x y) y.toNat (x.toNat * y.toNat) := by
  cases m with
  | iterative =>
    have h := accounts_accumulateWith x y 0
    rwa [UInt64.toNat_zero, Nat.zero_add] at h
  | recursive => exact accounts_recursiveWith x y

/-- The record of a run of its own: the product that the method gives, and its carries. -/
theorem run_productWith (m : Method) (x y : UInt64) :
    (m.productWith recordAdd x y).run [] = (m.product x y, m.additions x y) ∧
    (m.additions x y).length = y.toNat ∧
    x.toNat * y.toNat = (m.product x y).toNat + 2 ^ 64 * carries (m.additions x y) := by
  obtain ⟨value, made, hrun, hlength, htotal⟩ := m.accounts_productWith x y
  have hmade : m.additions x y = made := by rw [additions, hrun, List.nil_append]
  have hvalue : value = m.product x y := by
    rw [product_eq_mul, ← UInt64.toNat_inj, UInt64.toNat_mul, htotal]
    have := value.toNat_lt
    omega
  rw [hmade, ← hvalue]
  exact ⟨hrun [], hlength, htotal⟩

end Method

/-- **The carries of a product are its part above `2 ^ 64`.**  The sums below are those of the
methods, and so is the product that comes with a record; a record has one addition for each unit of
the multiplier.  Whichever method takes the sum, it drops as many carries as the exact product has
multiples of `2 ^ 64`; so a product wraps exactly if some addition carried, and exactly if the word
that is given is not the exact product. -/
theorem carries_eq_high_part (m : Method) (x y : UInt64) :
    (m.productWith plainAdd x y).run = m.product x y ∧
    (m.productWith recordAdd x y).run [] = (m.product x y, m.additions x y) ∧
    (m.additions x y).length = y.toNat ∧
    carries (m.additions x y) = x.toNat * y.toNat / 2 ^ 64 ∧
    (wraps x y = true ↔ ∃ a ∈ m.additions x y, a.Carries) ∧
    (wraps x y = true ↔ (m.product x y).toNat ≠ x.toNat * y.toNat) := by
  obtain ⟨hrun, hlength, htotal⟩ := m.run_productWith x y
  have hword := (m.product x y).toNat_lt
  refine ⟨m.productWith_plainAdd x y, hrun, hlength, ?_, ?_, ?_⟩
  · rw [htotal]
    omega
  · rw [wraps_iff, ← carries_ne_zero_iff, htotal]
    omega
  · rw [wraps_iff, htotal]
    omega

end RepeatedAddition
