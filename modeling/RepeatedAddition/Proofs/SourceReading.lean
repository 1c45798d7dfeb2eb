import RepeatedAddition.Config.Source
import RepeatedAddition.Proofs.TokenLayout

/-!
# Reading structs, lists and numbers

Reading is a computation over the tokens that are left, which notes problems and goes on.  Where
nothing is wrong, all that it changes is the tokens.  So what a function of the reader does is said
by what the tokens spell before it and after it, and by what it gives in between; the places in a
source are left open.

* `Takes`: the statement about a function of the reader, with its rules.
* `ReadsAs`: lexemes are read as an expression of a kind, whatever comes behind that does not go on
  with it.
* `readsAs_natural`, `readsAs_list`, `readsAs_struct`: numbers, lists of things that can be read,
  and structs of fields that can be read.
* `exists_read_eq_ok`: a source that spells fields is the struct of these fields.
* `exists_read_laidOut`: so is one in which these fields are laid out.
-/

namespace RepeatedAddition
namespace Config
namespace Source

/-! ## Reading without problems -/

/-- From tokens that spell given lexemes, reading gives something of a kind, notes no problem, and
leaves tokens that spell the rest. -/
def Takes {α : Type} (r : Reading α) (ls : List Lexeme) (P : α → Prop) (rest : List Lexeme) :
    Prop :=
  ∀ ts, Spells ts ls → ∃ a ts', P a ∧ Spells ts' rest ∧
    r.run { tokens := ts } = (a, { tokens := ts' })

section Rules

variable {α β : Type} {ls mid rest : List Lexeme} {l : Lexeme} {P : α → Prop} {Q : β → Prop}

theorem Takes.pure {a : α} (h : P a) : Takes (pure a) ls P ls := fun ts hts => ⟨a, ts, h, hts, rfl⟩

theorem Takes.bind {r : Reading α} {f : α → Reading β} (hr : Takes r ls P mid)
    (hf : ∀ a, P a → Takes (f a) mid Q rest) :
    Takes (r >>= f) ls Q rest := by
  intro ts hts
  obtain ⟨a, ts', ha, hts', hrun⟩ := hr ts hts
  obtain ⟨b, ts'', hb, hts'', hrun'⟩ := hf a ha ts' hts'
  refine ⟨b, ts'', hb, hts'', ?_⟩
  rw [StateT.run_bind, hrun]
  exact hrun'

theorem Takes.mono {P' : α → Prop} {r : Reading α} (h : Takes r ls P rest)
    (himp : ∀ a, P a → P' a) :
    Takes r ls P' rest := by
  intro ts hts
  obtain ⟨a, ts', ha, hts', hrun⟩ := h ts hts
  exact ⟨a, ts', himp a ha, hts', hrun⟩

theorem takes_current : Takes current (l :: ls) (fun t => t.lexeme = l) (l :: ls) := by
  intro ts hts
  cases hts with
  | cons ht hrest => exact ⟨_, _, ht.1, .cons ht hrest, rfl⟩

theorem takes_get : Takes get ls (fun s => s.stopped = false) ls :=
  fun ts hts => ⟨_, ts, rfl, hts, rfl⟩

theorem takes_advance {l' : Lexeme} : Takes advance (l :: l' :: ls) (fun _ => True) (l' :: ls) := by
  intro ts hts
  cases hts with
  | cons ht hrest =>
    cases hrest with
    | @cons t' _ ts' _ ht' hrest =>
      refine ⟨(), t' :: ts', trivial, .cons ht' hrest, ?_⟩
      change ((), State.advance _) = _
      simp [State.advance, ht'.2]

end Rules

theorem isMark_eq {t : Token} {l : Lexeme} (h : t.lexeme = l) (sign : String) :
    isMark sign t = decide (l = .mark sign) := by
  rw [isMark, h]
  rfl

/-! ## Expressions -/

/-- What follows an expression and does not go on with it. -/
def Stops (rest : List Lexeme) : Prop := ∃ l ls, rest = l :: ls ∧ operator? l = none ∧ l ≠ .mark "."

theorem takes_operators {rest : List Lexeme} (h : Stops rest) (n strength : Nat) (e : Expr) :
    Takes (operators n strength e) rest (· = e) rest := by
  obtain ⟨l, ls, rfl, hoperator, -⟩ := h
  cases n with
  | zero =>
    rw [operators]
    exact Takes.pure rfl
  | succ n =>
    rw [operators]
    refine takes_current.bind fun t ht => ?_
    rw [ht, hoperator]
    exact Takes.pure rfl

theorem takes_selections {rest : List Lexeme} (h : Stops rest) (n : Nat) (e : Expr) :
    Takes (selections n e) rest (· = e) rest := by
  obtain ⟨l, ls, rfl, -, hpoint⟩ := h
  cases n with
  | zero =>
    rw [selections]
    exact Takes.pure rfl
  | succ n =>
    rw [selections]
    refine takes_current.bind fun t ht => ?_
    rw [isMark_eq ht, decide_eq_false hpoint]
    exact Takes.pure rfl

/-- An expression without signs and operators is what stands there alone. -/
theorem takes_expression {l : Lexeme} {ls rest : List Lexeme} {P : Expr → Prop} {n : Nat}
    (strength : Nat) (h : Takes (primary n) (l :: ls) P rest) (hleading : ∀ p, leading? p l = none)
    (hrest : Stops rest) :
    Takes (expression (n + 2) strength) (l :: ls) P rest := by
  have hoperand : Takes (operand (n + 1)) (l :: ls) P rest := by
    rw [operand]
    refine takes_current.bind fun t ht => ?_
    rw [ht, hleading]
    exact h.bind fun e he => (takes_selections hrest n e).mono fun _ heq => heq ▸ he
  rw [expression]
  exact hoperand.bind fun e he =>
    (takes_operators hrest (n + 1) strength e).mono fun _ heq => heq ▸ he

/-- A single token that is an expression. -/
theorem takes_primary {l : Lexeme} {rest : List Lexeme} {P : Expr → Prop} (hrest : rest ≠ [])
    (h : ∀ t : Token, t.lexeme = l → ∃ e, ofToken? t = some e ∧ P e) (n : Nat) :
    Takes (primary (n + 1)) (l :: rest) P rest := by
  obtain ⟨l', ls, rfl⟩ := List.exists_cons_of_ne_nil hrest
  rw [primary]
  refine takes_current.bind fun t ht => ?_
  obtain ⟨e, he, hP⟩ := h t ht
  rw [he]
  exact takes_advance.bind fun _ _ => Takes.pure hP

/-- Lexemes are read as an expression of a kind, before anything that does not go on with it. -/
structure ReadsAs (ls : List Lexeme) (P : Expr → Prop) : Prop where
  starts : ∃ l ls', ls = l :: ls' ∧ l ∉ [.mark "]", .mark "...", .finish]
  unnamed : ∀ e, P e → ∀ p name, e ≠ .name p name
  takes : ∀ rest, Stops rest → ∀ n, 8 * ls.length ≤ n → Takes (expression n 1) (ls ++ rest) P rest

/-- An expression is a natural number. -/
def IsNatural (n : Nat) (e : Expr) : Prop := ∃ p, e = .literal p (.int (.ofNat n))

theorem readsAs_natural (k : Nat) : ReadsAs [Lexeme.natural k] (IsNatural k) := by
  refine ⟨⟨_, _, rfl, by simp [Lexeme.natural]⟩, ?_, fun rest hrest n hn => ?_⟩
  · rintro e ⟨p, rfl⟩ q name h
    cases h
  · obtain ⟨n, rfl⟩ := Nat.exists_eq_add_of_le' (show 3 ≤ n by simp at hn; omega)
    have hne : rest ≠ [] := by
      obtain ⟨l, ls, rfl, -⟩ := hrest
      exact List.cons_ne_nil l ls
    refine takes_expression (n := n + 1) 1 (takes_primary hne (fun t ht => ?_) n)
      (fun _ => rfl) hrest
    refine ⟨.literal t.place (.int (.ofNat k)), ?_, t.place, rfl⟩
    rw [ofToken?, ht, Lexeme.natural]
    dsimp only
    rw [Numeral.read_digits]
    rfl

/-! ## Lists -/

section Items

variable {α : Type}

/-- What things are written as, one behind the other with commas between them. -/
def separated (spell : α → List Lexeme) : List α → List Lexeme
  | [] => []
  | [a] => spell a
  | a :: b :: rest => spell a ++ .comma :: separated spell (b :: rest)

theorem takes_expect {sign : String} {l : Lexeme} {rest : List Lexeme} :
    Takes (expect sign) (.mark sign :: l :: rest) (fun _ => True) (l :: rest) := by
  rw [expect]
  refine takes_current.bind fun t ht => ?_
  rw [isMark_eq ht, decide_eq_true rfl]
  exact takes_advance

theorem takes_expectClosing {sign : String} (context : String) {l : Lexeme} {rest : List Lexeme} :
    Takes (expectClosing sign context) (.mark sign :: l :: rest) (fun _ => True) (l :: rest) := by
  rw [expectClosing]
  refine takes_current.bind fun t ht => ?_
  rw [ht]
  exact takes_expect

theorem takes_itemComma {l : Lexeme} {rest : List Lexeme} :
    Takes itemComma (.comma :: l :: rest) (· = true) (l :: rest) := by
  rw [itemComma]
  refine takes_current.bind fun t ht => ?_
  rw [ht]
  exact takes_advance.bind fun _ _ => Takes.pure rfl

theorem takes_itemComma_end {rest : List Lexeme} :
    Takes itemComma (.mark "]" :: rest) (· = false) (.mark "]" :: rest) := by
  rw [itemComma]
  refine takes_current.bind fun t ht => ?_
  rw [ht, isMark_eq ht]
  exact Takes.pure rfl

theorem stops_comma (rest : List Lexeme) : Stops (.comma :: rest) := ⟨_, _, rfl, rfl, nofun⟩

theorem stops_bracket (rest : List Lexeme) : Stops (.mark "]" :: rest) :=
  ⟨_, _, rfl, rfl, by decide⟩

theorem stops_brace (rest : List Lexeme) : Stops (.mark "\x7d" :: rest) :=
  ⟨_, _, rfl, rfl, by decide⟩

theorem stops_lineEnd (rest : List Lexeme) : Stops (.lineEnd :: rest) := ⟨_, _, rfl, rfl, nofun⟩

variable {spell : α → List Lexeme} {Means : α → Expr → Prop}

/-- An item that comes next is read by the list. -/
theorem takes_listItems_step {ls mid rest : List Lexeme} {P : Expr →
  Prop} {Q : List Expr × Tail Expr → Prop} {n : Nat}
    (hstarts : ∃ l ls', ls = l :: ls' ∧ l ∉ [.mark "]", .mark "...", .finish])
      (he : Takes (expression n 1) ls P mid)
    (hrest : ∀ e, P e → Takes (do
      if ← itemComma then
        let (es, tail) ← listItems n
        return (e :: es, tail)
      return ([e], .closed)) mid Q rest) : Takes (listItems (n + 1)) ls Q rest := by
  obtain ⟨l, ls', rfl, hl⟩ := hstarts
  simp only [List.mem_cons, List.not_mem_nil, or_false, not_or] at hl
  rw [listItems]
  refine takes_current.bind fun t ht => ?_
  rw [isMark_eq ht, isMark_eq ht, isFinish, ht]
  simp only [hl, decide_false, Bool.false_or, beq_iff_eq, if_false, Bool.false_eq_true]
  exact he.bind hrest

/-- **The items of a list are read one by one.** -/
theorem takes_listItems {items : List α} (h : ∀ a ∈ items, ReadsAs (spell a) (Means a))
    (rest : List Lexeme) {n : Nat} (hn : 8 * (separated spell items).length + 1 ≤ n) :
    Takes (listItems n) (separated spell items ++ .mark "]" :: rest)
      (fun r => List.Forall₂ Means items r.1 ∧ r.2 = .closed) (.mark "]" :: rest) := by
  induction items generalizing n with
  | nil =>
    obtain ⟨n, rfl⟩ := Nat.exists_eq_add_of_le' (show 1 ≤ n by omega)
    rw [separated, List.nil_append, listItems]
    refine takes_current.bind fun t ht => ?_
    rw [isMark_eq ht, decide_eq_true rfl]
    exact Takes.pure ⟨.nil, rfl⟩
  | cons a items ih =>
    have ha := h a List.mem_cons_self
    obtain ⟨n, rfl⟩ := Nat.exists_eq_add_of_le' (show 1 ≤ n by omega)
    obtain ⟨l, ls, hls, hl⟩ := ha.starts
    cases items with
    | nil =>
      rw [separated] at hn ⊢
      refine takes_listItems_step ⟨l, ls ++ .mark "]" :: rest, by rw [hls, List.cons_append], hl⟩
        (ha.takes _ (stops_bracket rest) n (by omega)) fun e he => ?_
      refine takes_itemComma_end.bind fun goesOn hgoesOn => ?_
      rw [hgoesOn]
      exact Takes.pure ⟨.cons he .nil, rfl⟩
    | cons b items =>
      rw [separated, List.length_append, List.length_cons] at hn
      rw [separated, List.append_assoc, List.cons_append]
      obtain ⟨l', ls', hrest⟩ :
          ∃ l' ls', separated spell (b :: items) ++ .mark "]" :: rest = l' :: ls' :=
        List.exists_cons_of_ne_nil (by simp)
      have hstarts : spell a ++ .comma :: (separated spell (b :: items) ++ .mark "]" :: rest) =
          l :: (ls ++ .comma :: (separated spell (b :: items) ++ .mark "]" :: rest)) := by
        rw [hls, List.cons_append]
      refine takes_listItems_step ⟨l, _, hstarts, hl⟩ (ha.takes _ (stops_comma _) n (by omega))
        fun e he => ?_
      refine Takes.bind (hrest ▸ takes_itemComma) fun goesOn hgoesOn => ?_
      rw [hgoesOn]
      refine (ih (fun c hc => h c (List.mem_cons_of_mem a hc)) (by omega)).bind fun r hr => ?_
      exact Takes.pure ⟨.cons he hr.1, hr.2⟩

/-- An expression is a list of given things. -/
def IsListOf (Means : α → Expr → Prop) (items : List α) (e : Expr) : Prop :=
  ∃ p es, e = .list p es .closed ∧ List.Forall₂ Means items es

/-- The lexemes of a list. -/
def listLexemes (spell : α → List Lexeme) (items : List α) : List Lexeme :=
  .mark "[" :: (separated spell items ++ [.mark "]"])

/-- **A list is read as the list of its items.** -/
theorem readsAs_list {items : List α} (h : ∀ a ∈ items, ReadsAs (spell a) (Means a)) :
    ReadsAs (listLexemes spell items) (IsListOf Means items) := by
  refine ⟨⟨_, _, rfl, by decide⟩, ?_, fun rest hrest n hn => ?_⟩
  · rintro e ⟨p, es, rfl, -⟩
    exact nofun
  · rw [listLexemes, List.length_cons, List.length_append, List.length_singleton] at hn
    obtain ⟨n, rfl⟩ := Nat.exists_eq_add_of_le' (show 4 ≤ n by omega)
    rw [listLexemes, List.cons_append, List.append_assoc, List.singleton_append]
    refine takes_expression (n := n + 2) 1 ?_ (fun _ => rfl) hrest
    obtain ⟨l, ls, rfl, -⟩ := hrest
    obtain ⟨l', ls', hinner⟩ : ∃ l' ls', separated spell items ++
      .mark "]" :: l :: ls = l' :: ls' :=
      List.exists_cons_of_ne_nil (by simp)
    rw [primary]
    refine takes_current.bind fun t ht => ?_
    rw [show ofToken? t = none by rw [ofToken?, ht], isMark_eq ht, isMark_eq ht, hinner]
    refine takes_advance.bind fun _ _ => ?_
    rw [← hinner]
    refine (takes_listItems h (l :: ls) (by omega)).bind fun r hr => ?_
    exact (takes_expectClosing _).bind fun _ _ => Takes.pure ⟨t.place, r.1, by rw [hr.2], hr.1⟩

end Items

/-! ## Structs -/

/-- A name that is a label as it stands. -/
def isLabel (name : String) : Bool :=
  Label.isPlain name && !(["true", "false", "null", "_"].contains name) && !name.startsWith "__"
    && Label.ofIdentifier name == .regular name

section Fields

variable {α : Type} {name : α → String} {spell : α → List Lexeme} {Means : α → Expr → Prop}

/-- The lexemes of a field. -/
def fieldLexemes (name : α → String) (spell : α → List Lexeme) (a : α) : List Lexeme :=
  .word (name a) :: .mark ":" :: spell a

/-- A declaration sets a field to what is meant. -/
def SetsField (name : α → String) (Means : α → Expr → Prop) (a : α) (d : Decl) : Prop :=
  ∃ e, Means a e ∧ d = .field (.regular (name a)) true false e

theorem takes_checkName {e : Expr} (h : ∀ p n, e = .name p n → n.startsWith "__" = false)
    (ls : List Lexeme) :
    Takes (checkName e) ls (fun _ => True) ls := by
  cases e with
  | name p n =>
    rw [checkName, h p n rfl]
    exact Takes.pure trivial
  | _ => exact Takes.pure trivial

/-- What ends a field value: a comma or the end of the struct. -/
def EndsField (rest : List Lexeme) : Prop :=
  ∃ l ls, rest = l :: ls ∧ l ∈ [.comma, .lineEnd, .mark "\x7d"]

theorem EndsField.stops {rest : List Lexeme} (h : EndsField rest) : Stops rest := by
  obtain ⟨l, ls, rfl, hl⟩ := h
  simp only [List.mem_cons, List.not_mem_nil, or_false] at hl
  rcases hl with rfl | rfl | rfl
  · exact stops_comma ls
  · exact stops_lineEnd ls
  · exact stops_brace ls

/-- A value is read for a field as it would be anywhere, though it may look like a label at
first. -/
theorem takes_fieldValue {ls rest : List Lexeme} {P : Expr → Prop} (h : ReadsAs ls P)
    (hrest : EndsField rest) {n : Nat} (hn : 8 * ls.length + 1 ≤ n) :
    Takes (fieldValue n) (ls ++ rest) P rest := by
  obtain ⟨n, rfl⟩ := Nat.exists_eq_add_of_le' (show 1 ≤ n by omega)
  obtain ⟨l, ls', hls, -⟩ := h.starts
  have hexpression := h.takes rest hrest.stops n (by omega)
  have hfollows : ∀ t : Token, ∀ l ∈ rest.head?, t.lexeme = l → followsLabel t = false := by
    obtain ⟨k, ks, rfl, hk⟩ := hrest
    intro t l hl ht
    obtain rfl : k = l := Option.some.inj hl
    rw [followsLabel, isMark_eq ht, isMark_eq ht]
    simp only [List.mem_cons, List.not_mem_nil, or_false] at hk
    rcases hk with rfl | rfl | rfl <;> rfl
  rw [fieldValue]
  rw [hls, List.cons_append] at hexpression ⊢
  refine takes_current.bind fun start hstart => ?_
  by_cases hlabel : startsLabel start = true
  · rw [hlabel]
    refine hexpression.bind fun e he => ?_
    refine (takes_checkName (fun p m heq => absurd heq (h.unnamed e he p m)) rest).bind
      fun _ _ => ?_
    cases head? e with
    | none => exact Takes.pure he
    | some head =>
      obtain ⟨k, ks, rfl, -⟩ := hrest
      refine takes_current.bind fun t ht => ?_
      rw [hfollows t k rfl ht]
      exact Takes.pure he
  · rw [Bool.eq_false_iff.mpr hlabel]
    exact hexpression

/-- A label is read as a name. -/
theorem takes_label {label : String} (h : isLabel label = true) (rest : List Lexeme) (n : Nat) :
    Takes (expression (n + 3) 1) (.word label :: .mark ":" :: rest) (fun e => ∃ p,
      e = .name p label) (.mark ":" :: rest) := by
  have hstops : Stops (.mark ":" :: rest) := ⟨_, _, rfl, rfl, by decide⟩
  refine takes_expression (n := n + 1) 1 (takes_primary (List.cons_ne_nil _ _) (fun t ht => ?_) n)
    (fun _ => rfl) hstops
  refine ⟨.name t.place label, ?_, t.place, rfl⟩
  simp only [isLabel, Bool.and_eq_true, Bool.not_eq_true', List.contains_eq_mem,
    decide_eq_false_iff_not, List.mem_cons, List.not_mem_nil, or_false, not_or] at h
  rw [ofToken?, ht]
  simp [ofWord, h]

/-- **A field is read as the declaration that sets it**, with the comma behind it if there is
one. -/
theorem takes_declaration {a : α} (hlabel : isLabel (name a) = true)
    (h : ReadsAs (spell a) (Means a)) {tail rest : List Lexeme} (htail : EndsField tail)
    (hcomma : Takes declarationComma tail (fun _ => True) rest) {n : Nat}
    (hn : 8 * (spell a).length + 4 ≤ n) :
    Takes (declaration n) (fieldLexemes name spell a ++ tail) (fun d => ∃ d', d = some d' ∧
      SetsField name Means a d') rest := by
  obtain ⟨n, rfl⟩ := Nat.exists_eq_add_of_le' (show 4 ≤ n by omega)
  obtain ⟨l, ls, hls, -⟩ := h.starts
  have hvalue := takes_fieldValue h htail (show 8 * (spell a).length + 1 ≤ n + 3 by omega)
  have hregular : Label.ofIdentifier (name a) = .regular (name a) := by
    rw [isLabel, Bool.and_eq_true, beq_iff_eq] at hlabel
    exact hlabel.2
  have hunreserved : (name a).startsWith "__" = false := by
    simp only [isLabel, Bool.and_eq_true, Bool.not_eq_true'] at hlabel
    exact hlabel.1.2
  rw [fieldLexemes, List.cons_append, List.cons_append, declaration]
  refine takes_current.bind fun t ht => ?_
  rw [isMark_eq ht, show startsLabel t = true by rw [startsLabel, ht]]
  refine (takes_label hlabel _ n).bind fun e he => ?_
  obtain ⟨p, rfl⟩ := he
  refine (takes_checkName (fun q m heq => ?_) _).bind fun _ _ => ?_
  · cases heq
    exact hunreserved
  rw [head?]
  refine takes_current.bind fun t ht => ?_
  rw [isMark_eq ht, decide_eq_false (by decide)]
  refine takes_current.bind fun t ht => ?_
  rw [isMark_eq ht, decide_eq_true rfl]
  rw [hls, List.cons_append] at hvalue ⊢
  refine takes_advance.bind fun _ _ => ?_
  refine hvalue.bind fun value hmeans => ?_
  refine hcomma.bind fun _ _ => Takes.pure ⟨_, rfl, value, hmeans, ?_⟩
  rw [Head.field, hregular]

theorem takes_declarationComma {l : Lexeme} {rest : List Lexeme} (k : Lexeme)
    (hk : k ∈ [.comma, .lineEnd]) :
    Takes declarationComma (k :: l :: rest) (fun _ => True) (l :: rest) := by
  rw [declarationComma]
  refine takes_current.bind fun t ht => ?_
  have hcomma : isComma t = true := by
    rw [isComma, ht]
    simp only [List.mem_cons, List.not_mem_nil, or_false] at hk
    rcases hk with rfl | rfl <;> rfl
  rw [hcomma]
  exact takes_advance

theorem takes_declarationComma_end {rest : List Lexeme} :
    Takes declarationComma (.mark "\x7d" :: rest) (fun _ => True) (.mark "\x7d" :: rest) := by
  rw [declarationComma]
  refine takes_current.bind fun t ht => ?_
  rw [isComma, ht, isMark_eq ht, decide_eq_true rfl]
  exact Takes.pure trivial

/-- What ends the declarations of a struct or of a source. -/
def EndsStruct (rest : List Lexeme) : Prop := ∃ l ls, rest = l :: ls ∧ l ∈ [.mark "\x7d", .finish]

theorem takes_declarations_end {rest : List Lexeme} (h : EndsStruct rest) (n : Nat) :
    Takes (declarations n) rest (· = []) rest := by
  obtain ⟨l, ls, rfl, hl⟩ := h
  cases n with
  | zero =>
    rw [declarations]
    exact Takes.pure rfl
  | succ n =>
    rw [declarations]
    refine takes_current.bind fun t ht => takes_get.bind fun s _ => ?_
    have hends : (isMark "\x7d" t || isFinish t) = true := by
      rw [isMark_eq ht, isFinish, ht]
      simp only [List.mem_cons, List.not_mem_nil, or_false] at hl
      rcases hl with rfl | rfl <;> rfl
    rw [hends]
    exact Takes.pure rfl

/-- A field that comes next is read before the others. -/
theorem takes_declarations_step {label : String} {ls mid rest : List Lexeme}
    {P : Option Decl → Prop} {Q : List Decl → Prop} {R : List Decl → Prop} {n : Nat}
    (hd : Takes (declaration n) (.word label :: ls) P mid) (hds : Takes (declarations n) mid Q rest)
    (h : ∀ d ds, P d → Q ds → R (d.toList ++ ds)) :
    Takes (declarations (n + 1)) (.word label :: ls) R rest := by
  rw [declarations]
  refine takes_current.bind fun t ht => takes_get.bind fun s hs => ?_
  rw [isMark_eq ht, isFinish, ht, hs]
  exact hd.bind fun d hP => hds.bind fun ds hQ => Takes.pure (h d ds hP hQ)

/-- **Fields are read one by one**, up to the end of the struct, given what becomes of the comma
behind the last. -/
theorem takes_declarations {fields : List α} (hne : fields ≠ [])
    (hlabels : ∀ a ∈ fields, isLabel (name a) = true)
    (h : ∀ a ∈ fields, ReadsAs (spell a) (Means a)) {tail rest : List Lexeme}
    (htail : EndsField tail) (hcomma : Takes declarationComma tail (fun _ => True) rest)
    (hrest : EndsStruct rest) {n : Nat}
    (hn : 8 * (separated (fieldLexemes name spell) fields).length ≤ n) :
    Takes (declarations n) (separated (fieldLexemes name spell) fields ++ tail)
      (List.Forall₂ (SetsField name Means) fields) rest := by
  induction fields generalizing n with
  | nil => exact absurd rfl hne
  | cons a fields ih =>
    have hlabel := hlabels a List.mem_cons_self
    have ha := h a List.mem_cons_self
    have hlength : (fieldLexemes name spell a).length = (spell a).length + 2 := rfl
    cases fields with
    | nil =>
      rw [separated, hlength] at hn
      obtain ⟨n, rfl⟩ := Nat.exists_eq_add_of_le' (show 1 ≤ n by omega)
      refine takes_declarations_step (takes_declaration hlabel ha htail hcomma (by omega))
        (takes_declarations_end hrest n) ?_
      rintro _ _ ⟨d, rfl, hd⟩ rfl
      exact .cons hd .nil
    | cons b fields =>
      rw [separated, List.length_append, List.length_cons, hlength] at hn
      obtain ⟨n, rfl⟩ := Nat.exists_eq_add_of_le' (show 1 ≤ n by omega)
      obtain ⟨l, ls, hnext⟩ : ∃ l ls, separated (fieldLexemes name spell) (b :: fields) ++
        tail = l :: ls := by
        cases fields <;> exact ⟨_, _, rfl⟩
      have hbetween :
          EndsField (.comma :: (separated (fieldLexemes name spell) (b :: fields) ++ tail)) :=
        ⟨_, _, rfl, by decide⟩
      have hfirst :=
        takes_declaration hlabel ha hbetween (hnext ▸ takes_declarationComma .comma (by decide))
        (show 8 * (spell a).length + 4 ≤ n by omega)
      rw [separated, List.append_assoc, List.cons_append]
      refine takes_declarations_step hfirst (ih (List.cons_ne_nil b fields)
        (fun c hc => hlabels c (List.mem_cons_of_mem a hc))
        (fun c hc => h c (List.mem_cons_of_mem a hc)) (by omega)) ?_
      rintro _ ds ⟨d, rfl, hd⟩ hds
      exact .cons hd hds

/-- The lexemes of a struct. -/
def structLexemes (name : α → String) (spell : α → List Lexeme) (fields : List α) : List Lexeme :=
  .mark "\x7b" :: (separated (fieldLexemes name spell) fields ++ [.mark "\x7d"])

/-- An expression is a struct that sets given fields. -/
def IsStructOf (name : α → String) (Means : α → Expr → Prop) (fields : List α) (e : Expr) : Prop :=
  ∃ p ds, e = .struct p ds ∧ List.Forall₂ (SetsField name Means) fields ds

/-- **A struct is read as the struct of its fields.** -/
theorem readsAs_struct {fields : List α} (hne : fields ≠ [])
    (hlabels : ∀ a ∈ fields, isLabel (name a) = true)
    (h : ∀ a ∈ fields, ReadsAs (spell a) (Means a)) :
    ReadsAs (structLexemes name spell fields) (IsStructOf name Means fields) := by
  refine ⟨⟨_, _, rfl, by decide⟩, ?_, fun rest hrest n hn => ?_⟩
  · rintro e ⟨p, ds, rfl, -⟩
    exact nofun
  · rw [structLexemes, List.length_cons, List.length_append, List.length_singleton] at hn
    obtain ⟨n, rfl⟩ := Nat.exists_eq_add_of_le' (show 4 ≤ n by omega)
    rw [structLexemes, List.cons_append, List.append_assoc, List.singleton_append]
    refine takes_expression (n := n + 2) 1 ?_ (fun _ => rfl) hrest
    obtain ⟨l, ls, rfl, -⟩ := hrest
    obtain ⟨l', ls', hinner⟩ : ∃ l' ls', separated (fieldLexemes name spell) fields ++
      .mark "\x7d" :: l :: ls = l' :: ls' :=
      List.exists_cons_of_ne_nil (by simp)
    rw [primary]
    refine takes_current.bind fun t ht => ?_
    rw [show ofToken? t =
      none by rw [ofToken?, ht], isMark_eq ht, isMark_eq ht, isMark_eq ht, hinner]
    refine takes_advance.bind fun _ _ => ?_
    rw [← hinner]
    refine (takes_declarations hne hlabels h ⟨_, _, rfl, by decide⟩ takes_declarationComma_end ⟨_,
      _, rfl, by decide⟩ (by omega)).bind fun ds hds => ?_
    exact (takes_expectClosing _).bind fun _ _ => Takes.pure ⟨t.place, ds, rfl, hds⟩

/-! ## Sources -/

theorem takes_clause {l : Lexeme} {ls : List Lexeme} (h : l ∉ [.word "package", .word "import"]) :
    Takes clause (l :: ls) (fun _ => True) (l :: ls) := by
  simp only [List.mem_cons, List.not_mem_nil, or_false, not_or] at h
  rw [clause]
  refine takes_current.bind fun t ht => ?_
  rw [ht, beq_false_of_ne h.1]
  refine takes_current.bind fun t ht => ?_
  rw [ht, beq_false_of_ne h.2]
  exact Takes.pure trivial

theorem problems_head?_of_spells {ts : List Token} {ls : List Lexeme} (h : Spells ts ls) :
    (ts.head?.map Token.problems).getD [] = [] := by
  cases h with
  | nil => rfl
  | cons ht _ => exact ht.2

/-- **A source that spells fields is read as the struct of these fields.** -/
theorem exists_read_eq_ok {source text : Text} {fields : List α} (hne : fields ≠ [])
    (hlabels : ∀ a ∈ fields, isLabel (name a) = true ∧ name a ∉ ["package", "import"])
    (h : ∀ a ∈ fields, ReadsAs (spell a) (Means a))
    (htokens : Spells (Token.ofSource source text) (separated (fieldLexemes name spell) fields ++
      [.lineEnd, .finish])) :
    ∃ e, Source.read source text = .ok e ∧ IsStructOf name Means fields e := by
  have hlength := htokens.length_eq
  rw [List.length_append] at hlength
  have hdeclarations : Takes (declarations (16 * ((Token.ofSource source text).length + 1)))
      (separated (fieldLexemes name spell) fields ++ [.lineEnd, .finish])
      (List.Forall₂ (SetsField name Means) fields) [.finish] :=
    takes_declarations hne (fun a ha => (hlabels a ha).1) h ⟨_, _, rfl, by decide⟩
      (takes_declarationComma .lineEnd (by decide)) ⟨_, _, rfl, by decide⟩ (by omega)
  have hfile : Takes (declarationsOfFile (16 * ((Token.ofSource source text).length + 1)))
      (separated (fieldLexemes name spell) fields ++ [.lineEnd, .finish])
      (List.Forall₂ (SetsField name Means) fields) [.finish] := by
    obtain ⟨a, rest, rfl⟩ := List.exists_cons_of_ne_nil hne
    obtain ⟨ls, hls⟩ : ∃ ls, separated (fieldLexemes name spell) (a :: rest) ++
      [.lineEnd, .finish] = .word (name a) :: ls := by
      cases rest <;> exact ⟨_, rfl⟩
    rw [declarationsOfFile]
    rw [hls] at hdeclarations ⊢
    refine (takes_clause (by simpa using (hlabels a List.mem_cons_self).2)).bind fun _ _ => ?_
    refine hdeclarations.bind fun ds hds => takes_current.bind fun t ht => ?_
    rw [isFinish, ht]
    exact Takes.pure hds
  obtain ⟨ds, ts', hds, -, hrun⟩ := hfile _ htokens
  rw [read, problems_head?_of_spells htokens]
  simp only [List.isEmpty_nil, Bool.not_true, Bool.false_eq_true, if_false, hrun]
  exact ⟨_, rfl, _, ds, rfl, hds⟩

/-! ## Sources that are laid out -/

/-- Lexemes that can be laid out where a value stands: behind a colon, with a value that ends where
they end. -/
structure IsValue (ls : List Lexeme) : Prop where
  legible : Token.Legible ls
  starts : ∀ l ∈ ls.head?, l ≠ .mark ":"
  ends : ∃ init l, ls = init ++ [l] ∧ ∀ pending, l.endsValue pending = true

theorem isValue_natural (k : Nat) : IsValue [Lexeme.natural k] where
  legible := Token.legible_singleton (Or.inl (.natural k))
  starts := by rintro l ⟨⟩ ⟨⟩
  ends := ⟨[], _, rfl, fun _ => rfl⟩

theorem legible_separated {items : List α} (h : ∀ a ∈ items, Token.Legible (spell a)) :
    Token.Legible (separated spell items) := by
  fun_induction separated spell items with
  | case1 => exact Token.legible_nil
  | case2 a => exact h a (List.mem_singleton_self a)
  | case3 a b rest ih =>
    obtain ⟨ha, hrest⟩ := List.forall_mem_cons.mp h
    have hcomma (l : Lexeme) := Token.apart_of_isSign .comma nofun l
    refine ha.append (.cons (Or.inr .comma) (ih hrest) fun l' _ => (hcomma l').1) ?_
    rintro l - _ ⟨⟩
    exact (hcomma l).2

/-- What can be laid out can be put between signs. -/
theorem legible_enclosed {opening closing : String}
    (hopening : opening ∈ ["\x7b", "["]) (hclosing : closing ∈ ["\x7d", "]"]) {ls : List Lexeme}
    (h : Token.Legible ls) : Token.Legible (.mark opening :: (ls ++ [.mark closing])) := by
  have hapart {sign : String} (hsign : sign ∈ ["\x7b", "[", "\x7d", "]"]) (l : Lexeme) :=
    Token.apart_of_isSign (l := .mark sign) (.mark (by grind [Lexeme.signs])) (by grind) l
  have hclosed : Token.Legible (ls ++ [.mark closing]) := by
    refine h.append (Token.legible_singleton (Or.inr (.mark (by grind [Lexeme.signs])))) ?_
    rintro l - _ ⟨⟩
    exact (hapart (by grind) l).2
  exact .cons (Or.inr (.mark (by grind [Lexeme.signs]))) hclosed fun l _ => (hapart (by grind) l).1

theorem isValue_list {items : List α} (h : ∀ a ∈ items, IsValue (spell a)) :
    IsValue (listLexemes spell items) where
  legible :=
    legible_enclosed (by decide) (by decide) (legible_separated fun a ha => (h a ha).legible)
  starts := by rintro l ⟨⟩; decide
  ends := ⟨.mark "[" :: separated spell items, .mark "]", rfl, fun _ => rfl⟩

theorem legible_field {a : α} (hlabel : isLabel (name a) = true) (h : IsValue (spell a)) :
    Token.Legible (fieldLexemes name spell a) := by
  have hplain : Label.isPlain (name a) = true := by
    simp only [isLabel, Bool.and_eq_true] at hlabel
    exact hlabel.1.1.1
  have hcolon : Lexeme.IsSign (.mark ":") := .mark (by decide)
  refine .cons (Or.inl (.word hplain)) (.cons (Or.inr hcolon) h.legible fun l hl => ?_) ?_
  · exact ⟨fun hname => (by cases hname), fun _ => h.starts l hl⟩
  · rintro _ ⟨⟩
    exact ⟨fun _ => hcolon, nofun⟩

theorem isValue_struct {fields : List α} (hlabels : ∀ a ∈ fields, isLabel (name a) = true)
    (h : ∀ a ∈ fields, IsValue (spell a)) : IsValue (structLexemes name spell fields) where
  legible :=
    legible_enclosed (by decide) (by decide) (legible_separated fun a ha =>
      legible_field (hlabels a ha) (h a ha))
  starts := by rintro l ⟨⟩; decide
  ends :=
    ⟨.mark "\x7b" :: separated (fieldLexemes name spell) fields, .mark "\x7d", rfl, fun _ => rfl⟩

/-- The last field ends with a value. -/
theorem pendingAfter_separated {fields : List α} (hne : fields ≠ [])
    (h : ∀ a ∈ fields, IsValue (spell a)) :
    Token.pendingAfter false (separated (fieldLexemes name spell) fields) = true := by
  obtain ⟨init, l, hls, hl⟩ : ∃ init l, separated (fieldLexemes name spell) fields = init ++ [l] ∧
      ∀ pending, l.endsValue pending = true := by
    fun_induction separated (fieldLexemes name spell) fields with
    | case1 => exact absurd rfl hne
    | case2 a =>
      obtain ⟨init, l, hls, hl⟩ := (h a (List.mem_singleton_self a)).ends
      exact ⟨.word (name a) :: .mark ":" :: init, l, by rw [fieldLexemes, hls]; rfl, hl⟩
    | case3 a b rest ih =>
      obtain ⟨init, l, hls, hl⟩ := ih (List.cons_ne_nil b rest) (List.forall_mem_cons.mp h).2
      exact ⟨fieldLexemes name spell a ++ .comma :: init,
        l, by rw [hls, List.append_assoc]; rfl, hl⟩
  rw [hls, Token.pendingAfter_concat, hl]

/-- **Fields that are laid out are read as the struct of these fields.** -/
theorem exists_read_laidOut (source : Text) (blanks : Nat → Nat) {fields : List α}
    (hne : fields ≠ [])
    (hlabels : ∀ a ∈ fields, isLabel (name a) = true ∧ name a ∉ ["package", "import"])
    (h : ∀ a ∈ fields, ReadsAs (spell a) (Means a)) (hvalues : ∀ a ∈ fields, IsValue (spell a)) :
    ∃ e,
      Source.read source
        (Utf8.encode (Token.laidOut blanks (separated (fieldLexemes name spell) fields))) = .ok e ∧
      IsStructOf name Means fields e := by
  have hlegible := legible_separated fun a ha => legible_field (hlabels a ha).1 (hvalues a ha)
  refine exists_read_eq_ok hne hlabels h ?_
  have hspells := Token.spells_ofSource source blanks hlegible
  rwa [pendingAfter_separated hne hvalues] at hspells

end Fields

end Source
end Config
end RepeatedAddition
