import RepeatedAddition.Config.Source
import RepeatedAddition.Proofs.WrittenAtom

/-!
# Whole numbers are read as they are

A whole number is a coefficient at a scale.  A numeral with a point or an exponent is fractional,
and a multiplier is multiplied out, so whatever the reader takes for a whole number has the scale
one.

A literal comes from a single token, whatever the state of the reader is, so nothing has to be known
of the state: a computation *yields* something with a property if it does so from every state.

* `Numeral.isUnscaled_of_read`: a numeral gives no whole number at another scale.
* `Source.yieldsWritten`: the functions that read by descent.
* `Source.written_of_read`: all literals of a source.
-/

namespace RepeatedAddition
namespace Config

/-- A whole number has the scale one. -/
def Atom.IsUnscaled (a : Atom) : Prop := ∀ d, a = .int d → d.exponent = 0

theorem keepsSign_isUnscaled : KeepsSign Atom.IsUnscaled := by
  intro a b ha hb d hd
  cases a with
  | int d' =>
    rw [hd, Atom.negated?] at hb
    obtain rfl := Atom.int.inj (Option.some.inj hb)
    exact ha d' rfl
  | float d' =>
    rw [hd] at hb
    cases hb
  | _ =>
    rw [hd] at hb
    cases hb

/-! ## Literals -/

namespace Numeral

theorem isUnscaled_ofNat (n : Nat) : (Atom.int (.ofNat n)).IsUnscaled := by
  intro d hd
  obtain rfl := Atom.int.inj hd
  rfl

theorem isUnscaled_of_whole? {d : Decimal} {a : Atom} (h : whole? d = some a) : a.IsUnscaled := by
  intro d' hd'
  subst hd'
  unfold whole? at h
  split at h
  · rw [← Atom.int.inj (Option.some.inj h)]
  · dsimp only at h
    split at h
    · rw [← Atom.int.inj (Option.some.inj h)]
    · cases h

/-- An exponent makes a number fractional. -/
theorem isUnscaled_of_withExponent {numeral exponent : List Char} {coefficient : Nat} {behind : Int}
    {a : Atom} (h : withExponent numeral coefficient behind exponent = .ok a) : a.IsUnscaled := by
  intro d hd
  subst hd
  unfold withExponent at h
  dsimp only at h
  repeat' split at h
  all_goals cases h

theorem isUnscaled_of_readDecimal {cs : List Char} {a : Atom} (h : readDecimal cs = .ok a) :
    a.IsUnscaled := by
  unfold readDecimal at h
  dsimp only at h
  split at h
  · split at h
    · -- a multiplier, which is multiplied out
      unfold multiplied at h
      dsimp only at h
      split at h
      · next b hb =>
        obtain rfl := Except.ok.inj h
        obtain ⟨d, -, hwhole⟩ := Option.bind_eq_some_iff.mp hb
        exact isUnscaled_of_whole? hwhole
      · cases h
    · exact isUnscaled_of_withExponent h
  · split at h
    · exact fun d hd => by cases (Except.ok.inj h).trans hd
    · obtain rfl := Except.ok.inj h
      exact isUnscaled_ofNat _

theorem isUnscaled_of_read {cs : List Char} {a : Atom} (h : read cs = .ok a) : a.IsUnscaled := by
  unfold read at h
  split at h
  · exact Except.ok.inj h ▸ isUnscaled_ofNat _
  · exact Except.ok.inj h ▸ isUnscaled_ofNat _
  · exact Except.ok.inj h ▸ isUnscaled_ofNat _
  · exact Except.ok.inj h ▸ isUnscaled_ofNat _
  · exact isUnscaled_of_readDecimal h

end Numeral

theorem StringLiteral.isUnscaled_of_read {cs : List Char} {a : Atom} (h : read cs = .ok a) :
    a.IsUnscaled := by
  intro d hd
  unfold read at h
  split at h
  · cases h
  · split at h
    · next form _ _ _ is _ =>
      have hatom : atom form is = .int d := (Except.ok.inj h).trans hd
      unfold atom at hatom
      split at hatom <;> cases hatom
    · cases h

/-! ## Reading by descent -/

namespace Source

/-- From whatever state a computation of the reader starts, what it gives satisfies `Q`. -/
def Yields {α : Type} (Q : α → Prop) (m : Reading α) : Prop := ∀ s, Q (m.run s).1

section Yields

variable {α β : Type} {Q : α → Prop} {R : β → Prop} {m : Reading β} {f : β → Reading α}

theorem Yields.pure {a : α} (h : Q a) : Yields Q (pure a) := fun _ => h

theorem Yields.bind (hm : Yields R m) (hf : ∀ b, R b → Yields Q (f b)) : Yields Q (m >>= f) :=
  fun s => hf _ (hm s) _

theorem Yields.after (m : Reading β) (hf : ∀ b, Yields Q (f b)) : Yields Q (m >>= f) :=
  fun _ => hf _ _

theorem Yields.ite {c : Prop} [Decidable c] {m m' : Reading α} (hm : Yields Q m)
    (hm' : Yields Q m') : Yields Q (if c then m else m') := by
  split
  · exact hm
  · exact hm'

end Yields

/-- All literals of an expression are strings, truth values and the like, or unscaled numbers. -/
def IsRead (e : Expr) : Prop := e.Written True Atom.IsUnscaled

/-- The tail of a list was read. -/
def IsReadTail (tail : Tail Expr) : Prop := ∀ e, tail = .each e → IsRead e

/-- A declaration was read. -/
def IsReadDecl (d : Decl) : Prop := ∀ e, d.value? = some e → IsRead e

theorem yields_unread : Yields IsRead unread := fun _ => .top

theorem isRead_ofWord (place : Position) (n : String) : IsRead (ofWord place n) := by
  have hbool (b : Bool) : (Atom.bool b).IsUnscaled := nofun
  unfold ofWord
  split
  · exact .literal (hbool true)
  split
  · exact .literal (hbool false)
  split
  · exact .literal nofun
  split
  · exact .top
  · exact .name

theorem isRead_ofLiteral (place : Position) (reason : Text) {result : Except Text Atom}
    (h : ∀ a, result = .ok a → a.IsUnscaled) : IsRead (ofLiteral place reason result) := by
  cases result with
  | ok a => exact .literal (h a rfl)
  | error message => exact .faulty

theorem isRead_of_ofToken? {t : Token} {e : Expr} (h : ofToken? t = some e) : IsRead e := by
  unfold ofToken? at h
  split at h
  · exact Option.some.inj h ▸ isRead_ofWord _ _
  · exact Option.some.inj h ▸ isRead_ofLiteral _ _ fun _ => Numeral.isUnscaled_of_read
  · exact Option.some.inj h ▸ isRead_ofLiteral _ _ fun _ => StringLiteral.isUnscaled_of_read
  · exact Option.some.inj h ▸ .bottom
  · cases h

theorem isRead_of_operator? {lexeme : Lexeme} {binding : Nat} {build : Expr → Expr → Expr}
    (h : operator? lexeme = some (binding, build)) {l r : Expr} (hl : IsRead l) (hr : IsRead r) :
    IsRead (build l r) := by
  unfold operator? at h
  split at h
  · exact (Prod.mk.inj (Option.some.inj h)).2 ▸ .either hl hr
  · exact (Prod.mk.inj (Option.some.inj h)).2 ▸ .meet hl hr
  · exact (Prod.mk.inj (Option.some.inj h)).2 ▸ .arithmetic trivial hl hr
  · exact (Prod.mk.inj (Option.some.inj h)).2 ▸ .arithmetic trivial hl hr
  · exact (Prod.mk.inj (Option.some.inj h)).2 ▸ .arithmetic trivial hl hr
  · exact (Prod.mk.inj (Option.some.inj h)).2 ▸ .arithmetic trivial hl hr
  · cases h

theorem isRead_of_leading? {place : Position} {lexeme : Lexeme} {build : Expr → Expr}
    (h : leading? place lexeme = some build) {e : Expr} (he : IsRead e) : IsRead (build e) := by
  unfold leading? at h
  split at h
  · exact Option.some.inj h ▸ .signed he
  · exact Option.some.inj h ▸ .signed he
  · exact Option.some.inj h ▸ .preferred he
  all_goals first | exact Option.some.inj h ▸ .limit he | cases h

theorem isReadDecl_field (head : Head) (optional : Bool) {value : Expr} (h : IsRead value) :
    IsReadDecl (head.field optional value) := by
  intro e he
  cases head with
  | label l bindable => exact Option.some.inj he ▸ h
  | faulty p m => cases he

theorem isReadDecl_embedded {e : Expr} (h : IsRead e) : IsReadDecl (.embedded e) :=
  fun _ he => Option.some.inj he ▸ h

/-- The functions that read by descent, if they go down a given number of steps. -/
structure YieldsWritten (n : Nat) : Prop where
  expression (strength : Nat) : Yields IsRead (expression n strength)
  operators (strength : Nat) (left : Expr) :
    IsRead left → Yields IsRead (operators n strength left)
  operand : Yields IsRead (operand n)
  selections (e : Expr) : IsRead e → Yields IsRead (selections n e)
  primary : Yields IsRead (primary n)
  listItems : Yields (fun list => (∀ e ∈ list.1, IsRead e) ∧ IsReadTail list.2) (listItems n)
  listTail : Yields IsReadTail (listTail n)
  declarations : Yields (fun ds => ∀ d ∈ ds, IsReadDecl d) (declarations n)
  declaration : Yields (fun d => ∀ d' ∈ d, IsReadDecl d') (declaration n)
  fieldValue : Yields IsRead (fieldValue n)

theorem YieldsWritten.zero : YieldsWritten 0 where
  expression _ := yields_unread
  operators _ _ h := Yields.pure h
  operand := yields_unread
  selections _ h := Yields.pure h
  primary := yields_unread
  listItems := Yields.pure ⟨List.forall_mem_nil _, nofun⟩
  listTail := Yields.pure nofun
  declarations := Yields.pure (List.forall_mem_nil _)
  declaration := Yields.pure nofun
  fieldValue := yields_unread

namespace YieldsWritten

variable {n : Nat}

theorem operators_succ (h : YieldsWritten n) (strength : Nat) {left : Expr} (hleft : IsRead left) :
    Yields IsRead (Source.operators (n + 1) strength left) := by
  rw [Source.operators]
  refine Yields.after _ fun t => ?_
  split
  · exact Yields.pure hleft
  · next binding build hbuild =>
    refine Yields.ite (Yields.pure hleft) (Yields.after _ fun _ => ?_)
    refine (h.expression _).bind fun right hright => ?_
    exact h.operators _ _ (isRead_of_operator? hbuild hleft hright)

theorem operand_succ (h : YieldsWritten n) : Yields IsRead (Source.operand (n + 1)) := by
  rw [Source.operand]
  refine Yields.after _ fun t => ?_
  split
  · next build hbuild =>
    refine Yields.after _ fun _ => h.operand.bind fun e he => ?_
    exact Yields.pure (isRead_of_leading? hbuild he)
  · exact h.primary.bind fun e he => h.selections e he

theorem selections_succ (h : YieldsWritten n) {e : Expr} (he : IsRead e) :
    Yields IsRead (Source.selections (n + 1) e) := by
  rw [Source.selections]
  refine Yields.after _ fun t => Yields.ite (Yields.pure he) (Yields.after _ fun _ => ?_)
  refine Yields.after _ fun t => ?_
  split
  · exact Yields.after _ fun _ => h.selections _ (.select he)
  · exact Yields.after _ fun _ => Yields.after _ fun _ => h.selections _ he

theorem primary_succ (h : YieldsWritten n) : Yields IsRead (Source.primary (n + 1)) := by
  rw [Source.primary]
  refine Yields.after _ fun t => ?_
  split
  · next e he => exact Yields.after _ fun _ => Yields.pure (isRead_of_ofToken? he)
  · refine Yields.ite ?_ (Yields.ite ?_ (Yields.ite ?_ ?_))
    · refine Yields.after _ fun _ => (h.expression 1).bind fun e he => ?_
      exact Yields.after _ fun _ => Yields.pure (.group he)
    · refine Yields.after _ fun _ => h.listItems.bind fun list hlist => ?_
      exact Yields.after _ fun _ => Yields.pure (.list hlist.1 hlist.2)
    · refine Yields.after _ fun _ => h.declarations.bind fun ds hds => ?_
      exact Yields.after _ fun _ => Yields.pure (.struct hds)
    · exact Yields.after _ fun _ => Yields.pure .top

theorem listItems_succ (h : YieldsWritten n) :
    Yields (fun list => (∀ e ∈ list.1, IsRead e) ∧ IsReadTail list.2)
      (Source.listItems (n + 1)) := by
  rw [Source.listItems]
  refine Yields.after _ fun t => Yields.ite (Yields.pure ⟨List.forall_mem_nil _, nofun⟩)
    (Yields.ite ?_ ?_)
  · refine Yields.after _ fun _ => h.listTail.bind fun tail htail => ?_
    exact Yields.pure ⟨List.forall_mem_nil _, htail⟩
  · refine (h.expression 1).bind fun e he => Yields.after _ fun more => Yields.ite ?_ ?_
    · refine h.listItems.bind fun list hlist => ?_
      exact Yields.pure ⟨List.forall_mem_cons.mpr ⟨he, hlist.1⟩, hlist.2⟩
    · exact Yields.pure ⟨List.forall_mem_singleton.mpr he, nofun⟩

theorem listTail_succ (h : YieldsWritten n) : Yields IsReadTail (Source.listTail (n + 1)) := by
  have hrest (tail : Tail Expr) (htail : IsReadTail tail) : Yields IsReadTail (do
      let t ← current
      if isComma t then advance
      else if !isMark "]" t then
        modify (·.report t.place (Text.lit "missing ',' in list literal"))
        advance
      return tail) := by
    refine Yields.after _ fun t => Yields.ite ?_ (Yields.ite ?_ (Yields.pure htail))
    · exact Yields.after _ fun _ => Yields.pure htail
    · exact Yields.after _ fun _ => Yields.after _ fun _ => Yields.pure htail
  rw [Source.listTail]
  refine Yields.after _ fun t => Yields.ite ?_ ?_
  · exact hrest .any nofun
  · refine Yields.bind (R := IsReadTail) ?_ fun tail htail => hrest tail htail
    exact fun s e he => Tail.each.inj he ▸ h.expression 1 s

theorem declarations_succ (h : YieldsWritten n) :
    Yields (fun ds => ∀ d ∈ ds, IsReadDecl d) (Source.declarations (n + 1)) := by
  rw [Source.declarations]
  refine Yields.after _ fun t => Yields.after _ fun s =>
    Yields.ite (Yields.pure (List.forall_mem_nil _)) ?_
  refine h.declaration.bind fun d hd => h.declarations.bind fun ds hds => Yields.pure ?_
  exact List.forall_mem_append.mpr ⟨fun d' hd' => hd d' (Option.mem_toList.mp hd'), hds⟩

theorem declaration_succ (h : YieldsWritten n) :
    Yields (fun d => ∀ d' ∈ d, IsReadDecl d') (Source.declaration (n + 1)) := by
  have hsome {d : Decl} (hd : IsReadDecl d) : ∀ d' ∈ some d, IsReadDecl d' :=
    fun _ hd' => Option.some.inj hd' ▸ hd
  rw [Source.declaration]
  refine Yields.after _ fun t => Yields.ite ?_ (Yields.ite ?_ ?_)
  · exact Yields.after _ fun _ => Yields.after _ fun _ => Yields.pure (hsome nofun)
  · refine (h.expression 1).bind fun e he => Yields.after _ fun _ => ?_
    exact Yields.pure (hsome (isReadDecl_embedded he))
  · refine (h.expression 1).bind fun e he => Yields.after _ fun _ => ?_
    have hembedded := hsome (isReadDecl_embedded he)
    split
    · exact Yields.after _ fun _ => Yields.pure hembedded
    · next head _ =>
      have hrest (optional : Bool) : Yields (fun d => ∀ d' ∈ d, IsReadDecl d') (do
          let t ← current
          if isMark ":" t then
            advance
            let value ← Source.fieldValue n
            declarationComma
            return some (head.field optional value)
          else if isComma t then
            advance
            return some (.embedded e)
          else if isMark "\x7d" t || isFinish t then return some (.embedded e)
          else
            modify (·.unexpected "label or ':'")
            return none) := by
        refine Yields.after _ fun t => Yields.ite ?_ (Yields.ite ?_ (Yields.ite ?_ ?_))
        · refine Yields.after _ fun _ => h.fieldValue.bind fun value hvalue => ?_
          exact Yields.after _ fun _ => Yields.pure (hsome (isReadDecl_field head _ hvalue))
        · exact Yields.after _ fun _ => Yields.pure hembedded
        · exact Yields.pure hembedded
        · exact Yields.after _ fun _ => Yields.pure nofun
      exact Yields.after _ fun t => Yields.ite (Yields.after _ fun _ => hrest _) (hrest _)

theorem fieldValue_succ (h : YieldsWritten n) : Yields IsRead (Source.fieldValue (n + 1)) := by
  rw [Source.fieldValue]
  refine Yields.after _ fun start => Yields.ite (h.expression 1) ?_
  refine (h.expression 1).bind fun e he => Yields.after _ fun _ => ?_
  split
  · exact Yields.pure he
  · next head _ =>
    have hrest (optional : Bool) : Yields IsRead (do
        let t ← current
        if isMark ":" t then
          advance
          let value ← Source.fieldValue n
          return .struct start.place [head.field optional value]
        else
          modify (·.report t.place (Text.lit "expected ':'; found " ++ t.lexeme.text))
          return .struct start.place []) := by
      refine Yields.after _ fun t => Yields.ite ?_ ?_
      · refine Yields.after _ fun _ => h.fieldValue.bind fun value hvalue => Yields.pure ?_
        exact .struct (List.forall_mem_singleton.mpr (isReadDecl_field head _ hvalue))
      · exact Yields.after _ fun _ => Yields.pure (.struct (List.forall_mem_nil _))
    refine Yields.after _ fun t => Yields.ite (Yields.pure he) (Yields.after _ fun t => ?_)
    exact Yields.ite (Yields.after _ fun _ => hrest _) (hrest _)

theorem succ (h : YieldsWritten n) : YieldsWritten (n + 1) where
  expression strength := by
    rw [Source.expression]
    exact h.operand.bind fun e he => h.operators strength e he
  operators strength _ hleft := h.operators_succ strength hleft
  operand := h.operand_succ
  selections _ he := h.selections_succ he
  primary := h.primary_succ
  listItems := h.listItems_succ
  listTail := h.listTail_succ
  declarations := h.declarations_succ
  declaration := h.declaration_succ
  fieldValue := h.fieldValue_succ

end YieldsWritten

theorem yieldsWritten (n : Nat) : YieldsWritten n := by
  induction n with
  | zero => exact .zero
  | succ n ih => exact ih.succ

/-- **A source holds no whole number at another scale than one.** -/
theorem written_of_read {name text : Text} {e : Expr} (h : read name text = .ok e) :
    e.Written True Atom.IsUnscaled := by
  have hfile (limit : Nat) :
      Yields (fun ds => ∀ d ∈ ds, IsReadDecl d) (declarationsOfFile limit) := by
    rw [declarationsOfFile]
    refine Yields.after _ fun _ => (yieldsWritten limit).declarations.bind fun ds hds => ?_
    refine Yields.after _ fun t => Yields.ite ?_ (Yields.pure hds)
    exact Yields.after _ fun _ => Yields.pure hds
  unfold read at h
  dsimp only at h
  split at h
  · cases h
  · split at h
    next ds s hrun =>
    split at h
    · have hds := hfile (16 * ((Token.ofSource name text).length + 1))
        { tokens := Token.ofSource name text }
      rw [hrun] at hds
      exact Except.ok.inj h ▸ .struct hds
    · cases h

end Source

end Config
end RepeatedAddition
