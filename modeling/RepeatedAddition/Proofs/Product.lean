import Mathlib.Algebra.GroupWithZero.Nat
import RepeatedAddition.Product

/-!
# The two sums are the product

`iterative` and `recursive` bracket the same sum from opposite ends, and each addition drops its
carry.  Neither keeps the exact product at any moment, so neither can be compared with it step by
step; what both keep is the product *of words*, which is exact up to a multiple of `2 ^ 64`.

* `accumulate_eq`: the loop adds `x * counter` to whatever it has accumulated.  The statement is
  about every accumulator, because the loop changes it before it comes back to itself.
* `recursive_eq_mul`: the recursion gives the product of words.
* `recursiveWithin_eq`, `wraps_iff`: the guard, and the test for a product that is no word.

The methods follow: `Method.ofName?` finds a method exactly for the listed names, and whichever it
finds multiplies.
-/

namespace RepeatedAddition

/-! ## The loop -/

/-- One term of the sum and the product with the predecessor make the product. -/
theorem add_mul_sub_one (x y : UInt64) : x + x * (y - 1) = x * y := by grind

theorem accumulate_zero (x total : UInt64) : accumulate x 0 total = total := by
  rw [accumulate, if_pos rfl]

theorem accumulate_of_ne_zero {counter : UInt64} (h : counter ≠ 0) (x total : UInt64) :
    accumulate x counter total = accumulate x (counter - 1) (total + x) := by
  rw [accumulate, if_neg h]

/-- **The loop invariant.**  What has been accumulated and what the counter still asks for keep
their sum. -/
theorem accumulate_eq (x counter total : UInt64) :
    accumulate x counter total = total + x * counter := by
  induction counter, total using accumulate.induct x with
  | case1 total => rw [accumulate_zero, UInt64.mul_zero, UInt64.add_zero]
  | case2 counter total h ih =>
    rw [accumulate_of_ne_zero h, ih, UInt64.add_assoc, add_mul_sub_one]

theorem iterative_eq_mul (x y : UInt64) : iterative x y = x * y := by
  rw [iterative, accumulate_eq, UInt64.zero_add]

/-! ## The recursion -/

theorem recursive_zero (x : UInt64) : recursive x 0 = 0 := by
  rw [recursive, if_pos rfl]

theorem recursive_of_ne_zero {y : UInt64} (h : y ≠ 0) (x : UInt64) :
    recursive x y = x + recursive x (y - 1) := by
  rw [recursive, if_neg h]

theorem recursive_eq_mul (x y : UInt64) : recursive x y = x * y := by
  induction y using recursive.induct with
  | case1 => rw [recursive_zero, UInt64.mul_zero]
  | case2 y h ih => rw [recursive_of_ne_zero h, ih, add_mul_sub_one]

/-- The guard lets a multiplier pass up to the limit, and the product is that of words. -/
theorem recursiveWithin_eq (limit x y : UInt64) :
    recursiveWithin limit x y = if y ≤ limit then .ok (x * y) else .error ⟨y, limit⟩ := by
  rw [recursiveWithin, recursive_eq_mul]
  by_cases h : y ≤ limit
  · rw [if_neg (UInt64.not_lt.mpr h), if_pos h]
  · rw [if_pos (UInt64.not_le.mp h), if_neg h]

/-- A product wraps when it is no word. -/
theorem wraps_iff (x y : UInt64) : wraps x y = true ↔ 2 ^ 64 ≤ x.toNat * y.toNat := by
  rw [wraps, bne_iff_ne, Nat.div_ne_zero_iff]
  exact ⟨And.right, fun h => ⟨by decide, h⟩⟩

/-! ## The methods -/

namespace Method

/-- A method has one name, and no other method has it. -/
theorem ofName?_name (m : Method) : ofName? m.name = some m := by
  cases m <;> decide

/-- A method is found only by its name. -/
theorem name_of_ofName? {n : Text} {m : Method} (h : ofName? n = some m) : m.name = n := by
  simpa using List.find?_some h

theorem ofName?_eq_some_iff {n : Text} {m : Method} : ofName? n = some m ↔ n = m.name := by
  constructor
  · exact fun h => (name_of_ofName? h).symm
  · rintro rfl
    exact ofName?_name m

theorem isSome_ofName?_iff (n : Text) : (ofName? n).isSome ↔ n ∈ names := by
  rw [Option.isSome_iff_exists, names, List.mem_map]
  constructor
  · rintro ⟨m, hm⟩
    exact ⟨m, by cases m <;> decide, name_of_ofName? hm⟩
  · rintro ⟨m, -, rfl⟩
    exact ⟨m, ofName?_name m⟩

/-- Every method multiplies words. -/
theorem product_eq_mul (m : Method) (x y : UInt64) : m.product x y = x * y := by
  cases m with
  | iterative => exact iterative_eq_mul x y
  | recursive => exact recursive_eq_mul x y

end Method

/-- **Both sums are the exact product up to a multiple of `2 ^ 64`, and no choice of a method
changes it.**  The loop and the recursion agree on all pairs of words; the names under which a
method is found are the two that are listed; and what is found multiplies. -/
theorem every_method_multiplies :
    (∀ x y : UInt64,
      iterative x y = recursive x y ∧ (iterative x y).toNat = x.toNat * y.toNat % 2 ^ 64) ∧
    Method.names = [Text.lit "iterative", Text.lit "recursive"] ∧
    ∀ n : Text,
      ((Method.ofName? n).isSome ↔ n ∈ Method.names) ∧
      ∀ m, Method.ofName? n = some m →
        ∀ x y : UInt64, (m.product x y).toNat = x.toNat * y.toNat % 2 ^ 64 := by
  refine ⟨fun x y => ⟨?_, ?_⟩, rfl, fun n => ⟨Method.isSome_ofName?_iff n, fun m _ x y => ?_⟩⟩
  · rw [iterative_eq_mul, recursive_eq_mul]
  · rw [iterative_eq_mul, UInt64.toNat_mul]
  · rw [Method.product_eq_mul, UInt64.toNat_mul]

end RepeatedAddition
