import RepeatedAddition.CommandLine.Request
import RepeatedAddition.Proofs.Delimited
import RepeatedAddition.Proofs.Operand
import RepeatedAddition.Proofs.Product

/-!
# What a request for a product comes to

A request for a product gives four texts, and the settings may have failed to load.  What it comes
to is said here without the order of evaluation: `Fulfillable` is the condition under which there is
a product, and `Rejected` says for each failure that it applies and that nothing before it does.

* `fulfillable_or_rejected`: one of the two always holds.
* `multiplication_of_fulfillable`, `multiplication_of_rejected`: each decides the request, so no
  more than one holds and no two failures apply.
* `warning_of_operands`, `newline_notMem_warningShown`: what the warning says, on one line.
* `product_answered`: what is printed, and when.
-/

namespace RepeatedAddition
namespace CommandLine

open Operand

/-! ## The conditions -/

namespace MulRequest

/-- The limit for recursion: that of the settings, or the word that is given. -/
def HasLimit (r : MulRequest) (settings : Settings) (limit : UInt64) : Prop :=
  (r.maxDepth = [] ∧ limit = settings.maxDepth) ∨
  (r.maxDepth ≠ [] ∧ Valid r.maxDepth ∧ limit.toNat = r.maxDepth.value)

/-- The request can be fulfilled: both operands are words, the settings are there, the limit is
empty or a word, and the method is the iterative one, or the recursive one with a multiplier up to
the limit. -/
def Fulfillable (r : MulRequest) (loaded : Except Config.LoadError Settings) : Prop :=
  Valid r.x ∧ Valid r.y ∧ ∃ settings limit, loaded = .ok settings ∧ r.HasLimit settings limit ∧
    (given r.method settings.method = Text.lit "iterative" ∨
      given r.method settings.method = Text.lit "recursive" ∧ r.y.value ≤ limit.toNat)

/-- The words of the operands, and their product. -/
def asked (r : MulRequest) : Multiplication :=
  ⟨UInt64.ofNat r.x.value, UInt64.ofNat r.y.value, UInt64.ofNat r.x.value * UInt64.ofNat r.y.value⟩

/-- The failure applies, and none does that comes before it: the multiplicand, the multiplier, the
settings, the limit, the method or the depth. -/
inductive Rejected (r : MulRequest) (loaded : Except Config.LoadError Settings) :
    Failure → Prop where
  | multiplicand {fault : Fault} (hx : Faulty r.x fault) :
      Rejected r loaded (.operand ⟨Text.lit "x", r.x, fault⟩)
  | multiplier {fault : Fault} (hx : Valid r.x) (hy : Faulty r.y fault) :
      Rejected r loaded (.operand ⟨Text.lit "y", r.y, fault⟩)
  | settings {e : Config.LoadError} (hx : Valid r.x) (hy : Valid r.y) (hl : loaded = .error e) :
      Rejected r loaded (.config e)
  | limit {settings : Settings} {fault : Fault} (hx : Valid r.x) (hy : Valid r.y)
      (hl : loaded = .ok settings) (hne : r.maxDepth ≠ []) (hd : Faulty r.maxDepth fault) :
      Rejected r loaded (.operand ⟨Text.lit "max-depth", r.maxDepth, fault⟩)
  | method {settings : Settings} {limit : UInt64} (hx : Valid r.x) (hy : Valid r.y)
      (hl : loaded = .ok settings) (hlimit : r.HasLimit settings limit)
      (hi : given r.method settings.method ≠ Text.lit "iterative")
      (hr : given r.method settings.method ≠ Text.lit "recursive") :
      Rejected r loaded (.unknownMethod (given r.method settings.method))
  | depth {settings : Settings} {limit y : UInt64} (hx : Valid r.x) (hy : Valid r.y)
      (hl : loaded = .ok settings) (hlimit : r.HasLimit settings limit)
      (hr : given r.method settings.method = Text.lit "recursive") (hword : y.toNat = r.y.value)
      (hdeep : limit < y) : Rejected r loaded (.depth ⟨y, limit⟩)

end MulRequest

/-! ## Parts of the request -/

theorem operand_of_valid {t : Text} (h : Valid t) (name : String) :
    MulRequest.operand name t = .ok (UInt64.ofNat t.value) := by
  rw [MulRequest.operand, parse, read_of_valid h]
  rfl

theorem operand_of_faulty {t : Text} {fault : Fault} (h : Faulty t fault) (name : String) :
    MulRequest.operand name t = .error (.operand ⟨Text.lit name, t, fault⟩) := by
  rw [MulRequest.operand, parse, read_eq_error_iff.mpr h]
  rfl

/-- A text is an operand, or something is wrong with it. -/
theorem valid_or_faulty (t : Text) : Valid t ∨ ∃ fault, Faulty t fault := by
  cases h : read t with
  | ok v => exact Or.inl (read_eq_ok_iff.mp h).1
  | error fault => exact Or.inr ⟨fault, read_eq_error_iff.mp h⟩

theorem productBy_iterative (limit x y : UInt64) :
    productBy (Text.lit "iterative") limit x y = .ok (x * y) := by
  have hm : Method.ofName? (Text.lit "iterative") = some .iterative :=
    Method.ofName?_name .iterative
  simp only [productBy, hm, iterative_eq_mul]

theorem productBy_recursive (limit x y : UInt64) :
    productBy (Text.lit "recursive") limit x y =
      if y ≤ limit then .ok (x * y) else .error (.depth ⟨y, limit⟩) := by
  have hm : Method.ofName? (Text.lit "recursive") = some .recursive :=
    Method.ofName?_name .recursive
  simp only [productBy, hm, recursiveWithin_eq]
  split <;> rfl

theorem productBy_unknown {n : Text} (hi : n ≠ Text.lit "iterative") (hr : n ≠ Text.lit "recursive")
    (limit x y : UInt64) : productBy n limit x y = .error (.unknownMethod n) := by
  have hm : Method.ofName? n = none := by
    rw [Option.eq_none_iff_forall_ne_some]
    intro m hm
    cases m with
    | iterative => exact hi (Method.ofName?_eq_some_iff.mp hm)
    | recursive => exact hr (Method.ofName?_eq_some_iff.mp hm)
  simp only [productBy, hm]

namespace MulRequest

variable {r : MulRequest} {loaded : Except Config.LoadError Settings} {settings : Settings}
  {limit : UInt64}

theorem limit_of_hasLimit (h : r.HasLimit settings limit) : r.limit settings = .ok limit := by
  rcases h with ⟨hempty, rfl⟩ | ⟨hne, hvalid, hvalue⟩
  · rw [MulRequest.limit, hempty]
    rfl
  · rw [MulRequest.limit, if_neg (by simpa using hne), operand_of_valid hvalid, ← hvalue,
      UInt64.ofNat_toNat]

theorem limit_of_faulty {fault : Fault} (hne : r.maxDepth ≠ []) (h : Faulty r.maxDepth fault) :
    r.limit settings = .error (.operand ⟨Text.lit "max-depth", r.maxDepth, fault⟩) := by
  rw [MulRequest.limit, if_neg (by simpa using hne), operand_of_faulty h]

/-- The limit is empty or a word, or something is wrong with it. -/
theorem hasLimit_or_faulty (r : MulRequest) (settings : Settings) :
    (∃ limit, r.HasLimit settings limit) ∨ r.maxDepth ≠ [] ∧ ∃ fault, Faulty r.maxDepth fault := by
  by_cases hempty : r.maxDepth = []
  · exact Or.inl ⟨_, Or.inl ⟨hempty, rfl⟩⟩
  · rcases valid_or_faulty r.maxDepth with hvalid | hfaulty
    · exact Or.inl ⟨_, Or.inr ⟨hempty, hvalid, UInt64.toNat_ofNat_of_lt' hvalid.2.2⟩⟩
    · exact Or.inr ⟨hempty, hfaulty⟩

/-! ## The request as a whole -/

/-- With operands, settings and a limit, the method decides. -/
theorem multiplication_eq_productBy (hx : Valid r.x) (hy : Valid r.y)
    (hlimit : r.HasLimit settings limit) :
    r.multiplication (.ok settings) =
      (productBy (given r.method settings.method) limit (UInt64.ofNat r.x.value)
        (UInt64.ofNat r.y.value)).map
        fun p => ⟨UInt64.ofNat r.x.value, UInt64.ofNat r.y.value, p⟩ := by
  simp only [multiplication, operand_of_valid hx, operand_of_valid hy, limit_of_hasLimit hlimit,
    Except.mapError, bind, Except.bind, pure, Except.pure]
  cases productBy _ _ _ _ <;> rfl

theorem multiplication_of_fulfillable (h : r.Fulfillable loaded) :
    r.multiplication loaded = .ok r.asked := by
  obtain ⟨hx, hy, settings, limit, rfl, hlimit, hmethod⟩ := h
  rw [multiplication_eq_productBy hx hy hlimit]
  rcases hmethod with hi | ⟨hr, hdepth⟩
  · rw [hi, productBy_iterative]
    rfl
  · have hle : UInt64.ofNat r.y.value ≤ limit := by
      rw [UInt64.le_iff_toNat_le, UInt64.toNat_ofNat_of_lt' hy.2.2]
      exact hdepth
    rw [hr, productBy_recursive, if_pos hle]
    rfl

theorem multiplication_of_rejected {f : Failure} (h : r.Rejected loaded f) :
    r.multiplication loaded = .error f := by
  cases h with
  | multiplicand hx => simp only [multiplication, operand_of_faulty hx, bind, Except.bind]
  | multiplier hx hy =>
    simp only [multiplication, operand_of_valid hx, operand_of_faulty hy, bind, Except.bind]
  | settings hx hy hl =>
    simp only [multiplication, operand_of_valid hx, operand_of_valid hy, hl, Except.mapError, bind,
      Except.bind]
  | limit hx hy hl hne hd =>
    simp only [multiplication, operand_of_valid hx, operand_of_valid hy, hl, limit_of_faulty hne hd,
      Except.mapError, bind, Except.bind]
  | method hx hy hl hlimit hi hr =>
    rw [hl, multiplication_eq_productBy hx hy hlimit, productBy_unknown hi hr]
    rfl
  | @depth settings limit y hx hy hl hlimit hr hword hdeep =>
    rw [hl, multiplication_eq_productBy hx hy hlimit, hr, ← hword, UInt64.ofNat_toNat,
      productBy_recursive, if_neg (UInt64.not_le.mpr hdeep)]
    rfl

/-- **A request is fulfilled or rejected.** -/
theorem fulfillable_or_rejected (r : MulRequest) (loaded : Except Config.LoadError Settings) :
    r.Fulfillable loaded ∨ ∃ f, r.Rejected loaded f := by
  rcases valid_or_faulty r.x with hx | ⟨_, hx⟩
  · rcases valid_or_faulty r.y with hy | ⟨_, hy⟩
    · cases hl : loaded with
      | error e => exact Or.inr ⟨_, .settings hx hy rfl⟩
      | ok settings =>
        rcases hasLimit_or_faulty r settings with ⟨limit, hlimit⟩ | ⟨hne, _, hd⟩
        · by_cases hi : given r.method settings.method = Text.lit "iterative"
          · exact Or.inl ⟨hx, hy, settings, limit, rfl, hlimit, Or.inl hi⟩
          · by_cases hr : given r.method settings.method = Text.lit "recursive"
            · have hword : (UInt64.ofNat r.y.value).toNat = r.y.value :=
                UInt64.toNat_ofNat_of_lt' hy.2.2
              by_cases hdeep : limit < UInt64.ofNat r.y.value
              · exact Or.inr ⟨_, .depth hx hy rfl hlimit hr hword hdeep⟩
              · have hle := UInt64.le_iff_toNat_le.mp (UInt64.not_lt.mp hdeep)
                rw [hword] at hle
                exact Or.inl ⟨hx, hy, settings, limit, rfl, hlimit, Or.inr ⟨hr, hle⟩⟩
            · exact Or.inr ⟨_, .method hx hy rfl hlimit hi hr⟩
        · exact Or.inr ⟨_, .limit hx hy rfl hne hd⟩
    · exact Or.inr ⟨_, .multiplier hx hy⟩
  · exact Or.inr ⟨_, .multiplicand hx⟩

end MulRequest

/-! ## What is printed -/

/-- The warning names the operands. -/
theorem warning_of_operands {m : Multiplication} {x y : Nat} (hx : m.x.toNat = x)
    (hy : m.y.toNat = y) :
    m.warning = Text.lit "warning: " ++ Text.decimal x ++ Text.lit " × " ++ Text.decimal y ++
      Text.lit " does not fit in 64 bits, result wrapped" := by
  rw [Multiplication.warning, hx, hy]

/-- The warning is one line, on a terminal and elsewhere. -/
theorem newline_notMem_warningShown (m : Multiplication) (terminal : Bool) :
    10 ∉ m.warningShown terminal := by
  have hdecimal (n : Nat) : 10 ∉ Text.decimal n := Text.notMem_decimal (by decide) n
  have hwarning : 10 ∉ m.warning := by
    simp only [Multiplication.warning, List.mem_append, not_or]
    exact ⟨⟨⟨⟨by decide, hdecimal _⟩, by decide⟩, hdecimal _⟩, by decide⟩
  cases terminal with
  | false => exact hwarning
  | true =>
    simp only [Multiplication.warningShown, if_true, List.mem_append, not_or]
    exact ⟨⟨by decide, hwarning⟩, by decide⟩

namespace MulRequest

variable {r : MulRequest} {loaded : Except Config.LoadError Settings}

theorem effect_of_fulfillable (h : r.Fulfillable loaded) (terminal : Bool) :
    r.effect loaded terminal = r.asked.effect terminal := by
  rw [effect, multiplication_of_fulfillable h]

theorem effect_of_rejected {f : Failure} (h : r.Rejected loaded f) (terminal : Bool) :
    r.effect loaded terminal = .failed f := by
  rw [effect, multiplication_of_rejected h]

/-- A request fails exactly as it is rejected. -/
theorem failure?_eq_some_iff {f : Failure} (terminal : Bool) :
    (r.effect loaded terminal).failure? = some f ↔ r.Rejected loaded f := by
  rcases fulfillable_or_rejected r loaded with h | ⟨f', h⟩
  · rw [effect_of_fulfillable h]
    refine ⟨fun he => by simp [Multiplication.effect] at he, fun hrejected => ?_⟩
    exact absurd ((multiplication_of_fulfillable h).symm.trans
      (multiplication_of_rejected hrejected)) (by simp)
  · rw [effect_of_rejected h]
    constructor
    · intro he
      obtain rfl : f' = f := Option.some.inj he
      exact h
    · intro hrejected
      have hsame := (multiplication_of_rejected h).symm.trans (multiplication_of_rejected hrejected)
      exact congrArg some (Except.error.inj hsame)

theorem failure?_eq_none_iff (terminal : Bool) :
    (r.effect loaded terminal).failure? = none ↔ r.Fulfillable loaded := by
  constructor
  · intro hnone
    rcases fulfillable_or_rejected r loaded with h | ⟨f, h⟩
    · exact h
    · exact absurd (hnone.symm.trans ((failure?_eq_some_iff terminal).mpr h)) (by simp)
  · intro h
    rw [effect_of_fulfillable h]
    rfl

/-- **A product is printed exactly when it can be, and a failure prints nothing.**  A request that
can be fulfilled, by whichever method, prints the product of the two values less multiples of `2 ^
64`, in decimal notation on a line of its own, and beside it one line of warning, in yellow on a
terminal, if the exact product is no word.  Any other request fails, with the first failure that
applies, and prints nothing at all. -/
theorem product_answered (r : MulRequest) (loaded : Except Config.LoadError Settings)
    (terminal : Bool) :
    (∀ s, r.execute s = r.effect (Config.load s.files [r.config] []) s.terminal) ∧
    ((r.effect loaded terminal).failure? = none ↔ r.Fulfillable loaded) ∧
    (r.Fulfillable loaded →
      (r.effect loaded terminal).output = Text.decimal (r.x.value * r.y.value % 2 ^ 64) ++ [10] ∧
      (Text.decimal (r.x.value * r.y.value % 2 ^ 64)).IsDecimal (r.x.value * r.y.value % 2 ^ 64) ∧
      (2 ^ 64 ≤ r.x.value * r.y.value →
        ∃ warning line : Text,
          warning = Text.lit "warning: " ++ Text.decimal r.x.value ++ Text.lit " × " ++
            Text.decimal r.y.value ++ Text.lit " does not fit in 64 bits, result wrapped" ∧
          line = (if terminal then Text.lit "\x1b[33m" ++ warning ++ Text.lit "\x1b[0m"
            else warning) ∧
          10 ∉ line ∧ (r.effect loaded terminal).diagnostics = line ++ [10]) ∧
      (r.x.value * r.y.value < 2 ^ 64 → (r.effect loaded terminal).diagnostics = [])) ∧
    (∀ f, (r.effect loaded terminal).failure? = some f ↔ r.Rejected loaded f) ∧
    (∀ f, (r.effect loaded terminal).failure? = some f →
      (r.effect loaded terminal).output = [] ∧ (r.effect loaded terminal).diagnostics = []) := by
  refine ⟨fun s => rfl, failure?_eq_none_iff terminal, fun h => ?_,
    fun f => failure?_eq_some_iff terminal, fun f hf => ?_⟩
  · have hx : Valid r.x := h.1
    have hy : Valid r.y := h.2.1
    have hxw : r.asked.x.toNat = r.x.value := UInt64.toNat_ofNat_of_lt' hx.2.2
    have hyw : r.asked.y.toNat = r.y.value := UInt64.toNat_ofNat_of_lt' hy.2.2
    have hproduct : r.asked.product.toNat = r.x.value * r.y.value % 2 ^ 64 := by
      rw [← hxw, ← hyw]
      exact UInt64.toNat_mul _ _
    have hwraps := wraps_iff r.asked.x r.asked.y
    rw [hxw, hyw] at hwraps
    rw [effect_of_fulfillable h]
    refine ⟨?_, Text.isDecimal_decimal _, fun hlarge => ?_, fun hsmall => ?_⟩
    · rw [← hproduct]
      rfl
    · exact ⟨r.asked.warning, r.asked.warningShown terminal, warning_of_operands hxw hyw, rfl,
        newline_notMem_warningShown _ _, if_pos (hwraps.mpr hlarge)⟩
    · exact if_neg fun hw => absurd (hwraps.mp hw) (by omega)
  · rw [effect_of_rejected ((failure?_eq_some_iff terminal).mp hf)]
    exact ⟨rfl, rfl⟩

end MulRequest

end CommandLine
end RepeatedAddition
