import RepeatedAddition.Proofs.Loading
import RepeatedAddition.Proofs.Multiplication
import RepeatedAddition.Proofs.ReadLiteral
import RepeatedAddition.Proofs.Verdict

/-!
# Settings that load can be used

Which names and numbers a setting may have is said by the schema, and the commands rely on it: none
of them checks again what the settings say.  In between stand all layers, their choices and
defaults, and the step from values to words.

A setting that loads is an atom of the unified value, so it is one that the schema admits; this part
holds whatever the other layers say, because no layer can drop a conjunct of the schema
(`exists_admits_of_unify`).  The step to words is a conversion of numbers.  A conversion is *exact*
if what it takes from a number is that number, and with an exact conversion nothing is lost on the
way from the unified value to the settings.

The conversion by coefficients (`byCoefficient`) is exact for numbers that are not scaled, as all
numbers are that a layer writes out (`written_of_read`), and evaluation does not scale numbers
either (`unify_written`).  Only arithmetic beyond 34 digits does, so the settings have the numbers
of the unified value wherever no layer does arithmetic.

* `exists_round`: a unified value is the value of a round.
* `Settings.Taken`: what settings have to do with the value they are taken from.
* `Schema.exists_admits`: what the schema makes of the settings.
* `settings_usable`: all commands can use settings that load.
-/

namespace RepeatedAddition
namespace Config

/-! ## A unified value is the value of a round -/

theorem exists_round_of_settle (sources : List Expr) :
    ∀ (limit : Nat) (known : Option Node),
      ∃ known', settle sources limit (round sources known) = round sources known'
  | 0, known => ⟨known, rfl⟩
  | limit + 1, known => by
    rw [settle]
    split
    · exact ⟨_, rfl⟩
    · exact exists_round_of_settle sources limit _

theorem exists_round (sources : List Expr) :
    ∃ known, unify sources = (round sources known).value := by
  obtain ⟨known, h⟩ := exists_round_of_settle sources (sizeOf sources + 2) none
  exact ⟨known, congrArg Node.value h⟩

/-- **No layer drops what a source says of a member.**  An atom under a label of the unified value
is one that each source admits that has the label, in the scope of that source. -/
theorem exists_admits_of_unify {sources : List Expr} {place : Position} {decls : List Decl}
    {label : Label} {bindable optional : Bool} {value : Expr} {a : Atom} {p : Position}
    (hsource : .struct place decls ∈ sources)
    (hfield : .field label bindable optional value ∈ decls)
    (ha : (unify sources).get? label = some (.atom a p)) :
    ∃ here, ∃ context : Context,
      context.scopes = [⟨Decl.names decls, here⟩] ∧ value.Admits context a false := by
  obtain ⟨known, hround⟩ := exists_round sources
  rw [hround, round] at ha
  generalize hv : (evaluate _ known [] [] (sources.map fun e => ⟨e, {}⟩)).value = v at ha
  cases v with
  | struct fields =>
    have hstruct : ⟨.struct place decls, {}⟩ ∈ sources.map fun e => (⟨e, {}⟩ : Conjunct) :=
      List.mem_map_of_mem hsource
    rcases member_of_evaluate hv ha hstruct with
      hfailed | ⟨k, path, address, members, hmember, hconjuncts⟩
    · cases hfailed
    · obtain ⟨here, context, hmem, hscopes⟩ := hconjuncts _ _ _ hfield
      exact ⟨here, context, hscopes, admits_of_evaluate hmember.symm _ hmem⟩
  | _ => cases ha

/-! ## What the schema admits -/

theorem Atom.string_agrees_iff {s : String} {a : Atom} :
    (Atom.string s).agrees a = true ↔ a = .string s := by
  cases a <;> simp [Atom.agrees, eq_comm]

namespace Schema

variable {context : Context} {a : Atom}

theorem string_admits_iff {line column : Nat} {s : String} {inChoice : Bool} :
    (string line column s).Admits context a inChoice ↔ a = .string s :=
  Atom.string_agrees_iff

theorem method_of_admits (h : methodChoice.Admits context a false) :
    a = .string "iterative" ∨ a = .string "recursive" := by
  rcases h with (h | h) | h
  · exact Or.inl (string_admits_iff.mp h)
  · exact Or.inr (string_admits_iff.mp h)
  · exact Or.inr (string_admits_iff.mp (h rfl))

theorem format_of_admits (h : formatChoice.Admits context a false) :
    a = .string "markdown" ∨ a = .string "json" := by
  rcases h with (h | h) | h
  · exact Or.inl (string_admits_iff.mp h)
  · exact Or.inr (string_admits_iff.mp h)
  · exact Or.inl (string_admits_iff.mp (h rfl))

theorem value_of_number_admits {line column n : Nat} {inChoice : Bool} {d : Decimal}
    (h : (number line column n).Admits context (.int d) inChoice) : d.value = n := by
  obtain ⟨d', hd', hvalue⟩ := Atom.value_eq_of_agrees h rfl
  obtain rfl : Decimal.ofNat n = d' := Option.some.inj hd'
  rw [← hvalue, Decimal.value_ofNat]

theorem value_of_concurrency_admits {d : Decimal}
    (h : concurrencyChoice.Admits context (.int d) false) : 1 ≤ d.value := by
  rcases h with ⟨-, h⟩ | h
  · have hlimit : (Decimal.ofNat 1).value ≤ d.value := h d (.ofNat 1) rfl rfl
    rwa [Decimal.value_ofNat, Nat.cast_one] at hlimit
  · rw [value_of_number_admits (h rfl)]
    norm_num

theorem value_of_maxDepth_admits {d : Decimal} (hfree : context.scopeOf? "uint64" = none)
    (h : maxDepthChoice.Admits context (.int d) false) : 0 ≤ d.value ∧ d.value < 2 ^ 64 := by
  rcases h with h | h
  · obtain ⟨-, hbounds⟩ := h hfree (.unsigned "uint64" 64) rfl
    obtain ⟨hleast, hgreatest⟩ := hbounds d rfl
    have hlow : (Decimal.ofInt 0).value ≤ d.value := hleast _ rfl
    have hhigh : d.value ≤ (Decimal.ofInt (Nat.pow 2 64 - 1 : Nat)).value := hgreatest _ rfl
    norm_num [Decimal.value, Decimal.ofInt] at hlow hhigh ⊢
    constructor <;> linarith
  · rw [value_of_number_admits (h rfl)]
    norm_num

end Schema

/-! ## From values to settings -/

/-- A number of the settings was taken from a value: the value is a whole number, and the two are
related as given. -/
def NumberTaken {α : Type} (related : Decimal → α → Prop) (v : Option Value) (n : α) : Prop :=
  ∃ d p, v = some (.atom (.int d) p) ∧ related d n

/-- A text was taken from a value: the value is that text. -/
def TextTaken (v : Option Value) (t : Text) : Prop :=
  ∃ s p, v = some (.atom (.string s) p) ∧ t = Text.lit s

/-- A case was taken from a value: its numbers were taken from the members of that value, and an
expectation is there exactly if the value has one. -/
structure CaseTaken (word : Decimal → UInt64 → Prop) (c : Case) (v : Value) : Prop where
  x : NumberTaken word (member v "x") c.x
  y : NumberTaken word (member v "y") c.y
  expected : (c.expected = none ∧ member v "expected" = none) ∨
    ∃ e, c.expected = some e ∧ NumberTaken word (member v "expected") e

end Config

open Config in
/-- The settings were taken from a value, each from the member of its name, and the cases in
order. -/
structure Settings.Taken (word : Decimal → UInt64 → Prop) (integer : Decimal → ℤ → Prop)
    (s : Settings) (v : Value) : Prop where
  method : TextTaken (member v "method") s.method
  maxDepth : NumberTaken word (member v "maxDepth") s.maxDepth
  concurrency : NumberTaken integer (member v "concurrency") s.concurrency
  format : TextTaken (member v "format") s.format
  cases : ∃ items, member v "cases" = some (.list items) ∧
    List.Forall₂ (CaseTaken word) s.cases items

namespace Config

section Taken

variable {word word' : Decimal → UInt64 → Prop} {integer integer' : Decimal → ℤ → Prop}
  {v : Value} {s : Settings}

theorem NumberTaken.imp {α : Type} {related related' : Decimal → α → Prop} {v : Option Value}
    {n : α} (h : NumberTaken related v n) (himp : ∀ d, related d n → related' d n) :
    NumberTaken related' v n := by
  obtain ⟨d, p, hv, hd⟩ := h
  exact ⟨d, p, hv, himp d hd⟩

theorem CaseTaken.imp {c : Case} (h : CaseTaken word c v) (himp : ∀ d w, word d w → word' d w) :
    CaseTaken word' c v where
  x := h.x.imp fun d => himp d _
  y := h.y.imp fun d => himp d _
  expected := h.expected.imp id fun hsome => by
    obtain ⟨e, he, htaken⟩ := hsome
    exact ⟨e, he, htaken.imp fun d => himp d e⟩

theorem taken_imp (h : s.Taken word integer v) (hword : ∀ d w, word d w → word' d w)
    (hinteger : ∀ d n, integer d n → integer' d n) : s.Taken word' integer' v where
  method := h.method
  maxDepth := h.maxDepth.imp fun d => hword d _
  concurrency := h.concurrency.imp fun d => hinteger d _
  format := h.format
  cases := by
    obtain ⟨items, hitems, hcases⟩ := h.cases
    exact ⟨items, hitems, hcases.imp fun _ _ hcase => hcase.imp hword⟩

/-! Of a value whose atoms all satisfy a property, only such numbers are taken. -/

variable {P : Atom → Prop}

theorem Value.Written.get? (h : v.Written P) {label : Label} {m : Value}
    (hm : v.get? label = some m) : m.Written P := by
  cases h with
  | struct hfields => exact hfields _ (Value.mem_of_get? hm)
  | _ => cases hm

theorem NumberTaken.written {α : Type} {related : Decimal → α → Prop} {label : String} {n : α}
    (h : NumberTaken related (member v label) n) (hv : v.Written P) :
    NumberTaken (fun d n => P (.int d) ∧ related d n) (member v label) n := by
  obtain ⟨d, p, hmember, hd⟩ := h
  cases hv.get? hmember with
  | atom hatom => exact ⟨d, p, hmember, hatom, hd⟩

theorem CaseTaken.written {c : Case} (h : CaseTaken word c v) (hv : v.Written P) :
    CaseTaken (fun d w => P (.int d) ∧ word d w) c v where
  x := h.x.written hv
  y := h.y.written hv
  expected := h.expected.imp id fun hsome => by
    obtain ⟨e, he, htaken⟩ := hsome
    exact ⟨e, he, htaken.written hv⟩

theorem taken_written (h : s.Taken word integer v) (hv : v.Written P) :
    s.Taken (fun d w => P (.int d) ∧ word d w) (fun d n => P (.int d) ∧ integer d n) v where
  method := h.method
  maxDepth := h.maxDepth.written hv
  concurrency := h.concurrency.written hv
  format := h.format
  cases := by
    obtain ⟨items, hitems, hcases⟩ := h.cases
    refine ⟨items, hitems, ?_⟩
    cases hv.get? hitems with
    | list hwritten =>
      rw [List.forall₂_iff_get] at hcases ⊢
      refine ⟨hcases.1, fun i hi hi' => ?_⟩
      exact (hcases.2 i hi hi').written (hwritten _ (List.get_mem _ _))

end Taken

theorem Decoded.and_eq_ok_iff {α β : Type} {a : Decoded α} {b : Decoded β} {x : α × β} :
    a.and b = .ok x ↔ a = .ok x.1 ∧ b = .ok x.2 := by
  obtain ⟨y, z⟩ := x
  cases a <;> cases b <;> simp [Decoded.and]

theorem Decoded.map_eq_ok_iff {α β : Type} {a : Decoded α} {f : α → β} {y : β} :
    a.map f = .ok y ↔ ∃ x, a = .ok x ∧ f x = y := by
  cases a <;> simp [Except.map]

theorem Decoded.all_eq_ok_iff {α β : Type} {f : β → Decoded α} {bs : List β} {as : List α} :
    Decoded.all (bs.map f) = .ok as ↔ List.Forall₂ (fun a b => f b = .ok a) as bs := by
  induction bs generalizing as with
  | nil => simp [Decoded.all, eq_comm]
  | cons b bs ih =>
    rw [List.map_cons, Decoded.all, Decoded.map_eq_ok_iff, List.forall₂_cons_right_iff]
    constructor
    · rintro ⟨⟨a, rest⟩, hand, rfl⟩
      obtain ⟨ha, hrest⟩ := Decoded.and_eq_ok_iff.mp hand
      exact ⟨a, rest, ha, ih.mp hrest, rfl⟩
    · rintro ⟨a, rest, ha, hrest, rfl⟩
      exact ⟨(a, rest), Decoded.and_eq_ok_iff.mpr ⟨ha, ih.mpr hrest⟩, rfl⟩

section Decoding

variable {conversion : Conversion} {v : Value} {s : Settings}

theorem taken_of_decodeWord {v : Option Value} {w : UInt64}
    (h : decodeWord v conversion = .ok w) :
    NumberTaken (fun d w => conversion.word d = .ok w) v w := by
  unfold decodeWord at h
  split at h
  · next d p => exact ⟨d, p, rfl, h⟩
  · cases h

theorem taken_of_decodeInteger {v : Option Value} {n : ℤ}
    (h : decodeInteger v conversion = .ok n) :
    NumberTaken (fun d n => conversion.integer d = .ok n) v n := by
  unfold decodeInteger at h
  split at h
  · next d p => exact ⟨d, p, rfl, h⟩
  · cases h

theorem taken_of_decodeText {v : Option Value} {t : Text} (h : decodeText v = .ok t) :
    TextTaken v t := by
  unfold decodeText at h
  split at h
  · next s p => exact ⟨s, p, rfl, (Except.ok.inj h).symm⟩
  · cases h

theorem taken_of_decodeCase {c : Case} (h : decodeCase v conversion = .ok c) :
    CaseTaken (fun d w => conversion.word d = .ok w) c v := by
  unfold decodeCase at h
  cases hmember : member v "expected" with
  | none =>
    rw [hmember] at h
    obtain ⟨⟨x, y⟩, hoperands, rfl⟩ := Decoded.map_eq_ok_iff.mp h
    obtain ⟨hx, hy⟩ := Decoded.and_eq_ok_iff.mp hoperands
    exact ⟨taken_of_decodeWord hx, taken_of_decodeWord hy, Or.inl ⟨rfl, hmember⟩⟩
  | some e =>
    rw [hmember] at h
    obtain ⟨⟨⟨x, y⟩, w⟩, hall, rfl⟩ := Decoded.map_eq_ok_iff.mp h
    obtain ⟨hoperands, he⟩ := Decoded.and_eq_ok_iff.mp hall
    obtain ⟨hx, hy⟩ := Decoded.and_eq_ok_iff.mp hoperands
    refine ⟨taken_of_decodeWord hx, taken_of_decodeWord hy, Or.inr ⟨w, rfl, ?_⟩⟩
    rw [hmember]
    exact taken_of_decodeWord he

/-- Settings are decoded exactly if each of them is. -/
theorem decode_eq_ok_iff :
    decode v conversion = .ok s ↔
      decodeText (member v "method") = .ok s.method ∧
      decodeWord (member v "maxDepth") conversion = .ok s.maxDepth ∧
      decodeInteger (member v "concurrency") conversion = .ok s.concurrency ∧
      decodeText (member v "format") = .ok s.format ∧
      decodeCases (member v "cases") conversion = .ok s.cases := by
  rw [decode, Decoded.map_eq_ok_iff]
  constructor
  · rintro ⟨⟨⟨⟨method, maxDepth⟩, concurrency, format⟩, cases⟩, hall, rfl⟩
    simpa only [Decoded.and_eq_ok_iff, and_assoc] using hall
  · intro h
    refine ⟨(((s.method, s.maxDepth), (s.concurrency, s.format)), s.cases), ?_, rfl⟩
    simpa only [Decoded.and_eq_ok_iff, and_assoc] using h

/-- **Settings are taken from the value that describes them**, the numbers by the conversion. -/
theorem taken_of_decode (h : decode v conversion = .ok s) :
    s.Taken (fun d w => conversion.word d = .ok w) (fun d n => conversion.integer d = .ok n) v := by
  obtain ⟨hmethod, hmaxDepth, hconcurrency, hformat, hcases⟩ := decode_eq_ok_iff.mp h
  refine ⟨taken_of_decodeText hmethod, taken_of_decodeWord hmaxDepth,
    taken_of_decodeInteger hconcurrency, taken_of_decodeText hformat, ?_⟩
  unfold decodeCases at hcases
  split at hcases
  · next items hitems =>
    exact ⟨items, hitems,
      (Decoded.all_eq_ok_iff.mp hcases).imp fun _ _ => taken_of_decodeCase⟩
  · cases hcases

end Decoding

/-! ## Conversions -/

namespace Conversion

/-- A conversion is exact: what it takes from a number is that number, and what it takes for a
signed number of 64 bits is one. -/
structure IsExact (conversion : Conversion) : Prop where
  word : ∀ d w, conversion.word d = .ok w → d.value = w.toNat
  integer : ∀ d n, conversion.integer d = .ok n → d.value = n ∧ n < 2 ^ 63

/-- What a conversion takes from a positive number is positive, and it fits. -/
def KeepsSigns (conversion : Conversion) : Prop :=
  ∀ d n, conversion.integer d = .ok n → (0 < d.value → 0 < n) ∧ n < 2 ^ 63

theorem IsExact.keepsSigns {conversion : Conversion} (h : conversion.IsExact) :
    conversion.KeepsSigns := by
  intro d n hn
  obtain ⟨hvalue, hsmall⟩ := h.integer d n hn
  exact ⟨fun hpos => by exact_mod_cast hvalue ▸ hpos, hsmall⟩

end Conversion

theorem byCoefficient_word {d : Decimal} {w : UInt64} (h : byCoefficient.word d = .ok w) :
    d.value = w.toNat * 10 ^ d.exponent := by
  unfold byCoefficient at h
  dsimp only at h
  split at h
  · cases h
  · next hnegative =>
    split at h
    · cases h
    · next hlarge =>
      obtain rfl := Except.ok.inj h
      rw [Decimal.value, if_neg hnegative,
        UInt64.toNat_ofNat_of_lt' (Nat.lt_of_not_le hlarge)]

theorem byCoefficient_integer {d : Decimal} {n : ℤ} (h : byCoefficient.integer d = .ok n) :
    d.value = n * 10 ^ d.exponent ∧ n < 2 ^ 63 := by
  unfold byCoefficient at h
  dsimp only at h
  split at h
  · cases h
  · next hlarge =>
    obtain rfl := Except.ok.inj h
    have hsmall : d.coefficient < 2 ^ 63 := Nat.lt_of_not_le hlarge
    refine ⟨?_, by split <;> omega⟩
    rw [Decimal.value]
    split <;> push_cast <;> rfl

theorem byCoefficient_keepsSigns : byCoefficient.KeepsSigns := by
  intro d n h
  obtain ⟨hvalue, hsmall⟩ := byCoefficient_integer h
  refine ⟨fun hpos => ?_, hsmall⟩
  have hscale : (0 : ℚ) < 10 ^ d.exponent := by positivity
  rw [hvalue] at hpos
  exact_mod_cast pos_of_mul_pos_left hpos hscale.le

/-- The conversion by values: a number that is not whole, or does not fit, is refused. -/
def byValue : Conversion where
  word d :=
    if d.floor = d.ceiling ∧ 0 ≤ d.floor ∧ d.floor < 2 ^ 64 then .ok (UInt64.ofNat d.floor.toNat)
    else undecodable "cannot use value as a word"
  integer d :=
    if d.floor = d.ceiling ∧ -2 ^ 63 ≤ d.floor ∧ d.floor < 2 ^ 63 then .ok d.floor
    else undecodable "cannot use value as an integer"

theorem value_eq_floor {d : Decimal} (h : d.floor = d.ceiling) : d.value = d.floor := by
  rw [Decimal.floor_eq, Decimal.ceiling_eq] at h
  have hle : (⌊d.value⌋ : ℚ) ≤ d.value := Int.floor_le d.value
  have hge : d.value ≤ (⌈d.value⌉ : ℚ) := Int.le_ceil d.value
  rw [← h] at hge
  rw [Decimal.floor_eq]
  exact le_antisymm hge hle

/-- There is an exact conversion. -/
theorem byValue_isExact : byValue.IsExact where
  word d w h := by
    unfold byValue at h
    dsimp only at h
    split at h
    · next hfits =>
      obtain ⟨hwhole, hnonneg, hsmall⟩ := hfits
      obtain rfl := Except.ok.inj h
      have hnat : d.floor.toNat < 2 ^ 64 := by omega
      rw [UInt64.toNat_ofNat_of_lt' hnat, value_eq_floor hwhole]
      exact_mod_cast (Int.toNat_of_nonneg hnonneg).symm
    · cases h
  integer d n h := by
    unfold byValue at h
    dsimp only at h
    split at h
    · next hfits =>
      obtain rfl := Except.ok.inj h
      exact ⟨value_eq_floor hfits.1, hfits.2.2⟩
    · cases h

/-- The language of layers with another conversion of numbers. -/
abbrev evaluatingBy (conversion : Conversion) : Language :=
  evaluating.decodedBy fun v => decode v conversion

/-! ## What loads -/

/-- The declarations of a struct. -/
def Expr.decls : Expr → List Decl
  | .struct _ ds => ds
  | _ => []

theorem unify_of_validate {sources : List Expr} {v : Value} (h : validate sources = .ok v) :
    unify sources = v := by
  unfold validate at h
  split at h
  · cases h
  · split at h
    · exact Except.ok.inj h
    · cases h

/-- The fields of the schema and of its cases have labels as they are written. -/
theorem Schema.ofIdentifier_of_mem :
    ∀ label ∈ ["method", "maxDepth", "concurrency", "format", "cases", "x", "y", "expected"],
      Label.ofIdentifier label = .regular label := by
  decide +kernel

/-- The names that the schema binds. -/
theorem Schema.names_source :
    Decl.names source.decls =
      ["#Case", "method", "maxDepth", "concurrency", "format", "cases"] := by
  decide +kernel

/-- The schema binds no name of a predeclared type. -/
theorem Schema.scopeOf?_uint64 {context : Context} {here : Address}
    (h : context.scopes = [⟨Decl.names source.decls, here⟩]) :
    context.scopeOf? "uint64" = none := by
  have hnames : "uint64" ∉ Decl.names source.decls := by simp [names_source]
  simp [Context.scopeOf?, h, Scope.binds, hnames]

section Loading

variable {layers : List Expr} {v : Value} {s : Settings} {word : Decimal → UInt64 → Prop}
  {integer : Decimal → ℤ → Prop}

/-- An atom under a setting is one that the schema admits there. -/
theorem Schema.exists_admits {label : String} (choice : Expr) {a : Atom} {p : Position}
    (hvalidate : validate (source :: layers) = .ok v)
    (hsetting : setting label choice ∈ source.decls)
    (hlabel : Label.ofIdentifier label = .regular label)
    (ha : member v label = some (.atom a p)) :
    ∃ context : Context, context.scopeOf? "uint64" = none ∧ choice.Admits context a false := by
  rw [setting, hlabel] at hsetting
  rw [← unify_of_validate hvalidate] at ha
  have hsource : .struct (place 3 1) source.decls ∈ source :: layers := List.mem_cons_self
  obtain ⟨here, context, hscopes, hadmits⟩ := exists_admits_of_unify hsource hsetting ha
  exact ⟨context, Schema.scopeOf?_uint64 hscopes, hadmits⟩

theorem exists_value_of_load {files : Files} {paths snippets : List Text} {conversion : Conversion}
    (h : (evaluatingBy conversion).load files paths snippets = .ok s) :
    ∃ layers v, Config.layers files paths snippets = .ok layers ∧
      validate (Schema.source :: layers) = .ok v ∧ decode v conversion = .ok s := by
  obtain ⟨contents, hcontents, hsettings⟩ := Language.load_eq_ok_iff.mp h
  obtain ⟨v, hvalidate, hdecode⟩ := Language.settingsOf_eq_ok_iff.mp hsettings
  rw [Language.layers_decodedBy] at hcontents
  have hunified : validate (Schema.source :: contents.flatten) = .ok v :=
    (congrArg validate (unified_evaluating contents)).symm.trans hvalidate
  exact ⟨contents.flatten, v, by rw [Config.layers, hcontents]; rfl, hunified, hdecode⟩

theorem method_of_taken (hvalidate : validate (Schema.source :: layers) = .ok v)
    (h : s.Taken word integer v) : s.method ∈ Method.names := by
  obtain ⟨name, p, hmember, hname⟩ := h.method
  obtain ⟨context, -, hadmits⟩ :=
    Schema.exists_admits Schema.methodChoice hvalidate (by simp [Schema.source, Expr.decls])
      (Schema.ofIdentifier_of_mem _ (by simp)) hmember
  rw [hname]
  rcases Schema.method_of_admits hadmits with hiterative | hrecursive
  · rw [Atom.string.inj hiterative]
    decide
  · rw [Atom.string.inj hrecursive]
    decide

theorem format_of_taken (hvalidate : validate (Schema.source :: layers) = .ok v)
    (h : s.Taken word integer v) : CommandLine.KnownFormat s.format := by
  obtain ⟨name, p, hmember, hname⟩ := h.format
  obtain ⟨context, -, hadmits⟩ :=
    Schema.exists_admits Schema.formatChoice hvalidate (by simp [Schema.source, Expr.decls])
      (Schema.ofIdentifier_of_mem _ (by simp)) hmember
  rw [hname]
  rcases Schema.format_of_admits hadmits with hmarkdown | hjson
  · rw [Atom.string.inj hmarkdown]
    exact Or.inr rfl
  · rw [Atom.string.inj hjson]
    exact Or.inl rfl

/-- The number of workers is positive, if the conversion keeps signs. -/
theorem concurrency_of_decode {conversion : Conversion} (hsigns : conversion.KeepsSigns)
    (hvalidate : validate (Schema.source :: layers) = .ok v) (h : decode v conversion = .ok s) :
    1 ≤ s.concurrency ∧ s.concurrency < 2 ^ 63 := by
  obtain ⟨d, p, hmember, hinteger⟩ := (taken_of_decode h).concurrency
  obtain ⟨context, -, hadmits⟩ :=
    Schema.exists_admits Schema.concurrencyChoice hvalidate (by simp [Schema.source, Expr.decls])
      (Schema.ofIdentifier_of_mem _ (by simp)) hmember
  obtain ⟨hpositive, hsmall⟩ := hsigns d _ hinteger
  have hone : 1 ≤ d.value := Schema.value_of_concurrency_admits hadmits
  exact ⟨hpositive (by linarith), hsmall⟩

theorem maxDepth_of_validate (hvalidate : validate (Schema.source :: layers) = .ok v) {d : Decimal}
    {p : Position} (h : member v "maxDepth" = some (.atom (.int d) p)) :
    0 ≤ d.value ∧ d.value < 2 ^ 64 := by
  obtain ⟨context, hfree, hadmits⟩ :=
    Schema.exists_admits Schema.maxDepthChoice hvalidate (by simp [Schema.source, Expr.decls])
      (Schema.ofIdentifier_of_mem _ (by simp)) h
  exact Schema.value_of_maxDepth_admits hfree hadmits

/-! ## Numbers that are written out -/

namespace Schema

/-- The schema writes all its numbers out. -/
theorem written_source : source.Written False Atom.IsUnscaled := by
  have hstring (line column : Nat) (t : String) :
      (string line column t).Written False Atom.IsUnscaled := .literal nofun
  have hnumber (line column n : Nat) : (number line column n).Written False Atom.IsUnscaled :=
    .literal (Numeral.isUnscaled_ofNat n)
  have hcase (line : Nat) (c : Case) : (caseExpr line c).Written False Atom.IsUnscaled := by
    refine .struct fun d hd e he => ?_
    rcases List.mem_append.mp hd with hd | hd
    · rcases List.mem_pair.mp hd with rfl | rfl
      · exact Option.some.inj he ▸ hnumber _ _ _
      · exact Option.some.inj he ▸ hnumber _ _ _
    · obtain ⟨w, -, rfl⟩ := Option.map_eq_some_iff.mp (Option.mem_toList.mp hd)
      exact Option.some.inj he ▸ hnumber _ _ _
  have hdefinition : caseDefinition.Written False Atom.IsUnscaled := by
    refine .struct fun d hd e he => ?_
    simp only [List.mem_cons, List.not_mem_nil, or_false] at hd
    rcases hd with rfl | rfl | rfl <;> exact Option.some.inj he ▸ .name
  have hcases : casesChoice.Written False Atom.IsUnscaled := by
    refine .either (.list (List.forall_mem_nil _) fun e he => ?_) (.preferred (.list ?_ nofun))
    · exact Tail.each.inj he ▸ .name
    · intro e he
      obtain ⟨⟨c, i⟩, -, rfl⟩ := List.mem_map.mp he
      exact hcase _ _
  refine .struct fun d hd e he => ?_
  simp only [List.mem_cons, List.not_mem_nil, or_false] at hd
  rcases hd with rfl | rfl | rfl | rfl | rfl | rfl
  · exact Option.some.inj he ▸ hdefinition
  · exact Option.some.inj he ▸ .either (.either (hstring _ _ _) (hstring _ _ _))
      (.preferred (hstring _ _ _))
  · exact Option.some.inj he ▸ .either .name (.preferred (hnumber _ _ _))
  · exact Option.some.inj he ▸ .either (.meet .name (.limit (hnumber _ _ _)))
      (.preferred (hnumber _ _ _))
  · exact Option.some.inj he ▸ .either (.either (hstring _ _ _) (hstring _ _ _))
      (.preferred (hstring _ _ _))
  · exact Option.some.inj he ▸ hcases

end Schema

/-- **A unified value has no scaled numbers, if none of its layers does arithmetic.** -/
theorem written_of_validate {files : Files} {paths snippets : List Text}
    (hlayers : Config.layers files paths snippets = .ok layers)
    (hplain : ∀ e ∈ layers, e.computes = false)
    (hvalidate : validate (Schema.source :: layers) = .ok v) : v.Written Atom.IsUnscaled := by
  rw [← unify_of_validate hvalidate]
  refine unify_written keepsSign_isUnscaled (List.forall_mem_cons.mpr
    ⟨Schema.written_source, fun e he => ?_⟩)
  obtain ⟨name, text, hcompile⟩ := exists_compile_of_layers hlayers e he
  have hread := (compile_eq_ok_iff.mp hcompile).1
  exact (Source.written_of_read hread).of_not_computes (hplain e he)

end Loading

end Config

/-! ## The commands -/

namespace CommandLine

theorem given_nil (fallback : Text) : given [] fallback = fallback := rfl

theorem write_ne_unknownFormat {report : Report} {format : Text} (h : KnownFormat format)
    (name : Text) :
    report.write format ≠ .error (.unknownFormat name) := by
  rcases h with rfl | rfl
  · rw [Report.write, if_pos rfl]
    cases report.json <;> simp [Except.mapError]
  · rw [Report.write, if_neg (by decide), if_pos rfl]
    intro herror
    cases herror

theorem failure?_reportEffect_ne {report : Report} {format : Text} (h : KnownFormat format)
    (name : Text) :
    (reportEffect report format).failure? ≠ some (.unwritten (.unknownFormat name)) := by
  have hwrite : report.write format ≠ .error (.unknownFormat name) := write_ne_unknownFormat h name
  rw [reportEffect]
  cases hresult : report.write format with
  | error e =>
    intro hfailure
    have he : e = .unknownFormat name := by simpa [Effect.failed] using hfailure
    exact hwrite (he ▸ hresult)
  | ok text =>
    dsimp only
    split <;> simp

/-- A product by the method of the settings does not fail for an unknown method. -/
theorem MulRequest.failure?_ne_unknownMethod {r : MulRequest}
    {loaded : Except Config.LoadError Settings} (hmethod : r.method = [])
    (hknown : ∀ settings, loaded = .ok settings → settings.method ∈ Method.names) (terminal : Bool)
    (name : Text) : (r.effect loaded terminal).failure? ≠ some (.unknownMethod name) := by
  intro hfailure
  cases (failure?_eq_some_iff terminal).mp hfailure with
  | @method settings limit hx hy hl hlimit hi hr =>
    rw [hmethod, given_nil] at hi hr
    obtain ⟨m, -, hname⟩ := List.mem_map.mp (hknown settings hl)
    cases m with
    | iterative => exact hi hname.symm
    | recursive => exact hr hname.symm

/-- A comparison in the format of the settings does not fail for an unknown format. -/
theorem CompareRequest.failure?_ne_unknownFormat {r : CompareRequest} {s : Surroundings}
    (hformat : r.format = [])
    (hknown : ∀ settings, r.load s.files = .ok settings → KnownFormat settings.format)
    (clock : Clock) (name : Text) :
    (r.execute s clock).failure? ≠ some (.unwritten (.unknownFormat name)) := by
  rw [execute]
  cases hload : r.load s.files with
  | error e => simp [Effect.failed]
  | ok settings =>
    dsimp only
    generalize (comparisonOf settings).evaluate s.interrupt = work
    obtain ⟨events, outcomes⟩ := work
    cases outcomes with
    | error why => simp [conclude, Effect.failed]
    | ok outcomes =>
      change (reportEffect _ (given r.format settings.format)).failure? ≠ _
      rw [hformat, given_nil]
      exact failure?_reportEffect_ne (hknown settings hload) name

/-- Settings are such that every command can use them: the method is one that there is, the format
is one in which reports are written, and the number of workers is used as it is. -/
structure Usable (s : Settings) : Prop where
  method : s.method ∈ Method.names ∧ (Method.ofName? s.method).isSome
  format : KnownFormat s.format
  concurrency : 1 ≤ s.concurrency ∧ s.concurrency < 2 ^ 63
  workers : (comparisonOf s).workers = s.concurrency

theorem usable_of_decode {conversion : Config.Conversion} (hsigns : conversion.KeepsSigns)
    {layers : List Config.Expr} {v : Config.Value} {s : Settings}
    (hvalidate : Config.validate (Config.Schema.source :: layers) = .ok v)
    (hdecode : Config.decode v conversion = .ok s) : Usable s := by
  have htaken := Config.taken_of_decode hdecode
  have hmethod := Config.method_of_taken hvalidate htaken
  have hconcurrency := Config.concurrency_of_decode hsigns hvalidate hdecode
  exact
    { method := ⟨hmethod, (Method.isSome_ofName?_iff s.method).mpr hmethod⟩
      format := Config.format_of_taken hvalidate htaken
      concurrency := hconcurrency
      workers := if_neg (Int.not_lt.mpr hconcurrency.1) }

/-- **Settings that load can be used by every command, and say what the layers say.**  The first
part is about the conversion by coefficients, whatever the layers are: the settings are usable, they
are taken from the unified value, each number up to its scale, and the depth limit there is a number
from `0` up to `2 ^ 64`; if no layer does arithmetic, each number of the settings is the number of
the value.  The second part is about any exact conversion: then each number is the number of the
value, and one from `0` up to `2 ^ 64` where the settings have a word, whether or not layers do
arithmetic.  Hence a product without a method of its own does not fail for an unknown method, nor a
comparison without a format of its own for an unknown format, whatever the files are. -/
theorem settings_usable (files : Files) (paths snippets : List Text) :
    (∀ s, Config.load files paths snippets = .ok s → Usable s ∧
      ∃ layers v, Config.layers files paths snippets = .ok layers ∧
        Config.validate (Config.Schema.source :: layers) = .ok v ∧
        s.Taken (fun d w => d.value = w.toNat * 10 ^ d.exponent)
          (fun d n => d.value = n * 10 ^ d.exponent) v ∧
        (∀ d p, Config.member v "maxDepth" = some (.atom (.int d) p) →
          0 ≤ d.value ∧ d.value < 2 ^ 64) ∧
        ((∀ e ∈ layers, e.computes = false) →
          s.Taken (fun d w => d.value = w.toNat ∧ 0 ≤ d.value ∧ d.value < 2 ^ 64)
            (fun d n => d.value = n) v)) ∧
    (∀ conversion : Config.Conversion, conversion.IsExact →
      ∀ s, (Config.evaluatingBy conversion).load files paths snippets = .ok s → Usable s ∧
        ∃ layers v, Config.layers files paths snippets = .ok layers ∧
          Config.validate (Config.Schema.source :: layers) = .ok v ∧
          s.Taken (fun d w => d.value = w.toNat ∧ 0 ≤ d.value ∧ d.value < 2 ^ 64)
            (fun d n => d.value = n) v) ∧
    (∀ (r : MulRequest) (terminal : Bool) (interrupt : Interrupt) (name : Text), r.method = [] →
      (r.execute ⟨files, terminal, interrupt⟩).failure? ≠ some (.unknownMethod name)) ∧
    (∀ (r : CompareRequest) (terminal : Bool) (interrupt : Interrupt) (clock : Clock)
      (name : Text), r.format = [] →
      (r.execute ⟨files, terminal, interrupt⟩ clock).failure? ≠
        some (.unwritten (.unknownFormat name))) := by
  have hrange (d : Config.Decimal) (w : UInt64) (h : d.value = w.toNat) :
      d.value = w.toNat ∧ 0 ≤ d.value ∧ d.value < 2 ^ 64 := by
    refine ⟨h, h ▸ Nat.cast_nonneg _, h ▸ ?_⟩
    exact_mod_cast w.toNat_lt
  refine ⟨fun s hload => ?_, fun conversion hexact s hload => ?_,
    fun r terminal interrupt name hmethod => ?_, fun r terminal interrupt clock name hformat => ?_⟩
  · obtain ⟨layers, v, hlayers, hvalidate, hdecode⟩ := Config.exists_value_of_load hload
    have htaken := Config.taken_imp (Config.taken_of_decode hdecode)
      (fun d w => Config.byCoefficient_word) fun d n h => (Config.byCoefficient_integer h).1
    refine ⟨usable_of_decode Config.byCoefficient_keepsSigns hvalidate hdecode, layers, v, hlayers,
      hvalidate, htaken, fun d p => Config.maxDepth_of_validate hvalidate, fun hplain => ?_⟩
    have hunscaled := Config.written_of_validate hlayers hplain hvalidate
    refine Config.taken_imp (Config.taken_written htaken hunscaled) ?_ ?_
    · rintro d w ⟨hscale, hvalue⟩
      rw [hscale d rfl, zpow_zero, mul_one] at hvalue
      exact hrange d w hvalue
    · rintro d n ⟨hscale, hvalue⟩
      rwa [hscale d rfl, zpow_zero, mul_one] at hvalue
  · obtain ⟨layers, v, hlayers, hvalidate, hdecode⟩ := Config.exists_value_of_load hload
    refine ⟨usable_of_decode hexact.keepsSigns hvalidate hdecode, layers, v, hlayers, hvalidate, ?_⟩
    exact Config.taken_imp (Config.taken_of_decode hdecode)
      (fun d w h => hrange d w (hexact.word d w h)) fun d n h => (hexact.integer d n h).1
  · apply MulRequest.failure?_ne_unknownMethod hmethod
    intro settings hload
    obtain ⟨layers, v, -, hvalidate, hdecode⟩ := Config.exists_value_of_load hload
    exact Config.method_of_taken hvalidate (Config.taken_of_decode hdecode)
  · apply CompareRequest.failure?_ne_unknownFormat hformat
    intro settings hload
    obtain ⟨layers, v, -, hvalidate, hdecode⟩ := Config.exists_value_of_load hload
    exact Config.format_of_taken hvalidate (Config.taken_of_decode hdecode)

/-- A file that chooses the method, and no other. -/
def methodFile : Files := fun path =>
  if path = Config.defaultPath then .ok (Text.lit "method: \"iterative\"") else .error .notFound

/-- Two snippets, one of which leaves the number of workers to a preference of its own. -/
def layeredSnippets : List Text :=
  [Text.lit "concurrency: 3 | *7", Text.lit "cases: [\x7bx: 3, y: 4\x7d]"]

/-- A depth limit of ten thousand as the difference of two products.  Both have 36 digits of which
34 are kept, so what is left is `100` hundreds. -/
def scaledLimit : Text :=
  Text.lit ("maxDepth: 10000000000000000000000000000001000 * 10" ++
    " - 10000000000000000000000000000000000 * 10")

/-- A file and two snippets without arithmetic, and a snippet with a scaled number, of which an
exact conversion takes ten thousand. -/
theorem settings_usable_layered :
    (∃ s v, Config.load methodFile [Config.defaultPath] layeredSnippets = .ok s ∧
      s = ⟨Text.lit "iterative", 100000, 7, Text.lit "markdown", [⟨3, 4, none⟩]⟩ ∧ Usable s ∧
      s.Taken (fun d w => d.value = w.toNat ∧ 0 ≤ d.value ∧ d.value < 2 ^ 64)
        (fun d n => d.value = n) v) ∧
    (∃ s v, (Config.evaluatingBy Config.byValue).load (fun _ => .error .notFound) []
        [scaledLimit] = .ok s ∧ s.maxDepth = 10000 ∧ Usable s ∧
      s.Taken (fun d w => d.value = w.toNat ∧ 0 ≤ d.value ∧ d.value < 2 ^ 64)
        (fun d n => d.value = n) v) ∧
    ∀ name, (({ x := Text.lit "3", y := Text.lit "4" } : MulRequest).execute
      ⟨methodFile, false, .never⟩).failure? ≠ some (.unknownMethod name) := by
  refine ⟨?_, ?_, fun name => (settings_usable _ [] []).2.2.1 _ _ _ name rfl⟩
  · have hload : Config.load methodFile [Config.defaultPath] layeredSnippets =
        .ok ⟨Text.lit "iterative", 100000, 7, Text.lit "markdown", [⟨3, 4, none⟩]⟩ :=
      eq_ok_of_toOption (by decide +kernel)
    have hplain : (Config.layers methodFile [Config.defaultPath] layeredSnippets).toOption.map
        (·.all fun e => !e.computes) = some true := by decide +kernel
    obtain ⟨husable, layers, v, hlayers, -, -, -, htaken⟩ := (settings_usable _ _ _).1 _ hload
    refine ⟨_, v, hload, rfl, husable, htaken fun e he => ?_⟩
    rw [hlayers] at hplain
    have hall := List.all_eq_true.mp (Option.some.inj hplain) e he
    simpa using hall
  · have hload : ((Config.evaluatingBy Config.byValue).load (fun _ => .error .notFound) []
        [scaledLimit]).toOption.map (·.maxDepth) = some 10000 := by decide +kernel
    obtain ⟨s, hs, hdepth⟩ := Option.map_eq_some_iff.mp hload
    have hsome := eq_ok_of_toOption hs
    obtain ⟨husable, layers, v, -, -, htaken⟩ :=
      (settings_usable _ _ _).2.1 _ Config.byValue_isExact s hsome
    exact ⟨s, v, hsome, hdepth, husable, htaken⟩

end CommandLine
end RepeatedAddition
