import RepeatedAddition.Text.Quoted

/-!
# Products by repeated addition

A word is a natural number below `2 ^ 64`, and addition of words drops the carry.  The product of
two words is a sum with as many equal terms as the multiplier says, and there are two ways to take
it:

* `iterative` accumulates from the left, `((0 + x) + x) + ⋯`;
* `recursive` adds on the way back, `x + (x + (⋯ + 0))`.

The recursion is as deep as the multiplier is large, so `recursiveWithin` refuses a multiplier above
a given limit.  `wraps` says whether the exact product needs more than 64 bits.

A `Method` names one of the two ways; `Method.ofName?` reads a name.
-/

namespace RepeatedAddition

/-- A word that is not zero has a predecessor that is smaller. -/
theorem toNat_sub_one_lt {y : UInt64} (h : y ≠ 0) : (y - 1).toNat < y.toNat := by
  have hy : y.toNat ≠ 0 := fun h' => h (UInt64.toNat_inj.mp (by simpa using h'))
  have hle : (1 : UInt64) ≤ y := by
    rw [UInt64.le_iff_toNat_le]
    simpa using Nat.one_le_iff_ne_zero.mpr hy
  rw [UInt64.toNat_sub_of_le _ _ hle]
  simp only [UInt64.reduceToNat]
  omega

/-- Adds `x` to the accumulator and counts down, until the counter is zero. -/
def accumulate (x counter total : UInt64) : UInt64 :=
  if counter = 0 then total else accumulate x (counter - 1) (total + x)
termination_by counter.toNat
decreasing_by exact toNat_sub_one_lt ‹_›

/-- The product as a sum taken from the left. -/
def iterative (x y : UInt64) : UInt64 := accumulate x y 0

/-- The product as a sum taken from the right: nothing times `x` is zero, and `y` times `x` is `x`
and `y - 1` times `x`. -/
def recursive (x y : UInt64) : UInt64 :=
  if y = 0 then 0 else x + recursive x (y - 1)
termination_by y.toNat
decreasing_by exact toNat_sub_one_lt ‹_›

/-- Whether the exact product of two words is no word: its part above `2 ^ 64` is not zero. -/
def wraps (x y : UInt64) : Bool := x.toNat * y.toNat / Nat.pow 2 64 != 0

/-- A multiplier that is over the limit for recursion. -/
structure DepthExceeded where
  multiplier : UInt64
  limit : UInt64
  deriving DecidableEq, Repr

/-- What is said of a multiplier over the limit. -/
def DepthExceeded.message (e : DepthExceeded) : Text :=
  Text.lit "multiplier " ++ Text.decimal e.multiplier.toNat ++ Text.lit " over limit "
    ++ Text.decimal e.limit.toNat ++ Text.lit ": recursion depth exceeded"

/-- The recursive product, for multipliers up to a limit. -/
def recursiveWithin (limit x y : UInt64) : Except DepthExceeded UInt64 :=
  if y > limit then .error ⟨y, limit⟩ else .ok (recursive x y)

/-- A way to multiply. -/
inductive Method where
  | iterative
  | recursive
  deriving DecidableEq, Repr

namespace Method

/-- All methods, in the order in which they are shown. -/
def all : List Method := [.iterative, .recursive]

/-- The name of a method. -/
def name : Method → Text
  | .iterative => Text.lit "iterative"
  | .recursive => Text.lit "recursive"

/-- The method of a name. -/
def ofName? (n : Text) : Option Method := all.find? fun m => m.name = n

/-- The product by a method. -/
def product : Method → UInt64 → UInt64 → UInt64
  | .iterative => RepeatedAddition.iterative
  | .recursive => RepeatedAddition.recursive

/-- The names of all methods. -/
def names : List Text := all.map name

end Method

/-- What is said of a name that no method has. -/
def unknownMethodMessage (n : Text) : Text := Text.lit "unknown method " ++ Quoted.text n

end RepeatedAddition
