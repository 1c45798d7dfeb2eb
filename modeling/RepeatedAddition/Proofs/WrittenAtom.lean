import RepeatedAddition.Proofs.Agreement
import RepeatedAddition.Proofs.Evaluation

/-!
# Where the atoms of a value come from

Evaluation takes literals from place to place, puts signs before numbers and does arithmetic.  Where
there is no arithmetic, it makes no other atoms than those that are written: what holds of all
literals, and stays true of a number when its sign is changed, holds of all atoms of the value.

What a round finds is read by the next one, so the statement is about nodes as a whole, with the
members of all their branches (`Node.Written`), and not only about values.  The proof follows the
mutual recursion of a round: `RoundKeeps` says for each of its functions that written parts stay
written, and a step of the induction on the bound proves one function from the others.

* `Expr.Written`, `Expr.computes`: the literals of an expression, and whether it does arithmetic.
* `Value.Written`: all atoms of a value.
* `roundKeeps`: every function of a round keeps to what is written.
* `unify_written`: the atoms of a unified value are written.
-/

namespace RepeatedAddition
namespace Config

/-! ## What is written -/

/-- The expression of a declaration. -/
def Decl.value? : Decl → Option Expr
  | .field _ _ _ e | .embedded e => some e
  | .faulty _ _ | .ellipsis => none

/-- All literals of an expression satisfy `P`, and it does arithmetic only if `computing` holds. -/
inductive Expr.Written (computing : Prop) (P : Atom → Prop) : Expr → Prop where
  | literal {p : Position} {a : Atom} (h : P a) : Written computing P (.literal p a)
  | faulty {p : Position} {m : Text} : Written computing P (.faulty p m)
  | top {p : Position} : Written computing P (.top p)
  | bottom {p : Position} : Written computing P (.bottom p)
  | name {p : Position} {n : String} : Written computing P (.name p n)
  | select {p : Position} {e : Expr} {l : Label} (h : Written computing P e) :
      Written computing P (.select p e l)
  | group {p : Position} {e : Expr} (h : Written computing P e) : Written computing P (.group p e)
  | signed {p : Position} {s : Sign} {e : Expr} (h : Written computing P e) :
      Written computing P (.signed p s e)
  | arithmetic {op : Arithmetic} {l r : Expr} (h : computing) (hl : Written computing P l)
      (hr : Written computing P r) : Written computing P (.arithmetic op l r)
  | limit {p : Position} {b : Bound} {e : Expr} (h : Written computing P e) :
      Written computing P (.limit p b e)
  | meet {l r : Expr} (hl : Written computing P l) (hr : Written computing P r) :
      Written computing P (.meet l r)
  | either {l r : Expr} (hl : Written computing P l) (hr : Written computing P r) :
      Written computing P (.either l r)
  | preferred {p : Position} {e : Expr} (h : Written computing P e) :
      Written computing P (.preferred p e)
  | struct {p : Position} {ds : List Decl}
      (h : ∀ d ∈ ds, ∀ e, d.value? = some e → Written computing P e) :
      Written computing P (.struct p ds)
  | list {p : Position} {es : List Expr} {tail : Tail Expr}
      (hitems : ∀ e ∈ es, Written computing P e)
      (htail : ∀ e, tail = .each e → Written computing P e) : Written computing P (.list p es tail)

mutual

/-- Whether an expression does arithmetic. -/
def Expr.computes : Expr → Bool
  | .arithmetic _ _ _ => true
  | .literal _ _ | .faulty _ _ | .top _ | .bottom _ | .name _ _ => false
  | .select _ e _ | .group _ e | .signed _ _ e | .limit _ _ e | .preferred _ e => Expr.computes e
  | .meet l r | .either l r => Expr.computes l || Expr.computes r
  | .struct _ ds => computesInDecls ds
  | .list _ es tail => computesInItems es || computesInTail tail

/-- Whether declarations do arithmetic. -/
def computesInDecls : List Decl → Bool
  | [] => false
  | .field _ _ _ e :: ds | .embedded e :: ds => Expr.computes e || computesInDecls ds
  | .faulty _ _ :: ds | .ellipsis :: ds => computesInDecls ds

/-- Whether items do arithmetic. -/
def computesInItems : List Expr → Bool
  | [] => false
  | e :: es => Expr.computes e || computesInItems es

/-- Whether a tail does arithmetic. -/
def computesInTail : Tail Expr → Bool
  | .each e => Expr.computes e
  | .any | .closed => false

end

theorem computes_of_mem_decls {ds : List Decl} (h : computesInDecls ds = false) {d : Decl}
    (hd : d ∈ ds) {e : Expr} (he : d.value? = some e) : e.computes = false := by
  induction ds with
  | nil => cases hd
  | cons d' ds ih =>
    have hhead : (∀ e, d'.value? = some e → e.computes = false) ∧ computesInDecls ds = false := by
      cases d' <;> simp_all [computesInDecls, Decl.value?]
    rcases List.mem_cons.mp hd with rfl | hd
    · exact hhead.1 e he
    · exact ih hhead.2 hd

theorem computes_of_mem_items {es : List Expr} (h : computesInItems es = false) {e : Expr}
    (he : e ∈ es) : e.computes = false := by
  induction es with
  | nil => cases he
  | cons e' es ih =>
    rw [computesInItems, Bool.or_eq_false_iff] at h
    rcases List.mem_cons.mp he with rfl | he
    · exact h.1
    · exact ih h.2 he

variable {P : Atom → Prop}

/-- An expression without arithmetic is written without it. -/
theorem Expr.Written.of_not_computes {e : Expr} (h : e.Written True P) (hc : e.computes = false) :
    e.Written False P := by
  induction h with
  | literal h => exact .literal h
  | faulty => exact .faulty
  | top => exact .top
  | bottom => exact .bottom
  | name => exact .name
  | select _ ih => exact .select (ih hc)
  | group _ ih => exact .group (ih hc)
  | signed _ ih => exact .signed (ih hc)
  | arithmetic _ _ _ _ _ => cases hc
  | limit _ ih => exact .limit (ih hc)
  | meet _ _ ihl ihr =>
    rw [Expr.computes, Bool.or_eq_false_iff] at hc
    exact .meet (ihl hc.1) (ihr hc.2)
  | either _ _ ihl ihr =>
    rw [Expr.computes, Bool.or_eq_false_iff] at hc
    exact .either (ihl hc.1) (ihr hc.2)
  | preferred _ ih => exact .preferred (ih hc)
  | struct _ ih =>
    rw [Expr.computes] at hc
    exact .struct fun d hd e he => ih d hd e he (computes_of_mem_decls hc hd he)
  | list _ _ ihitems ihtail =>
    rw [Expr.computes, Bool.or_eq_false_iff] at hc
    refine .list (fun e he => ihitems e he (computes_of_mem_items hc.1 he)) fun e he => ?_
    have htail := hc.2
    rw [he, computesInTail] at htail
    exact ihtail e he htail

/-- All atoms of a value satisfy `P`. -/
inductive Value.Written (P : Atom → Prop) : Value → Prop where
  | atom {a : Atom} {p : Position} (h : P a) : Written P (.atom a p)
  | struct {fs : List (Label × Value)} (h : ∀ f ∈ fs, Written P f.2) : Written P (.struct fs)
  | list {vs : List Value} (h : ∀ v ∈ vs, Written P v) : Written P (.list vs)
  | vague {t : Text} {ks : List Kind} {ps : List Position} : Written P (.vague t ks ps)
  | ambiguous {vs : List Value} (h : ∀ v ∈ vs, Written P v) : Written P (.ambiguous vs)
  | gap {known : Option (Atom × Position)} {ps : List Problem} (h : ∀ k ∈ known, P k.1) :
      Written P (.gap known ps)
  | failed {ps qs : List Problem} : Written P (.failed ps qs)

/-- All that is known of a node is made of what is written. -/
inductive Node.Written (P : Atom → Prop) : Node → Prop where
  | mk {cs : List Conjunct} {v : Value} {chosen : List Nat}
      {bs : List (List Nat × List (Label × Node))} (hconjuncts : ∀ c ∈ cs, c.expr.Written False P)
      (hvalue : v.Written P) (hmembers : ∀ b ∈ bs, ∀ m ∈ b.2, Node.Written P m.2) :
      Node.Written P (.mk cs v chosen bs)

/-- A fact asks for no other atoms than those that are written. -/
def Fact.Written (P : Atom → Prop) : Fact → Prop
  | .constraint c => ∀ a, c.demand = .atom a → P a
  | .body b => (Expr.struct b.place b.decls).Written False P
  | .sequence s => (Expr.list s.place s.items s.tail).Written False P
  | _ => True

/-- What a node comes apart into is made of what is written. -/
structure Expansion.Written (P : Atom → Prop) (e : Expansion) : Prop where
  facts : ∀ f ∈ e.facts, f.Written P
  tasks : ∀ t ∈ e.tasks, t.expr.Written False P
  choices : ∀ c ∈ e.choices, ∀ a ∈ c.alternatives, a.2.expr.Written False P

/-- The members of branches are made of what is written. -/
def MembersWritten (P : Atom → Prop) (kept : List (List Nat × List (Label × Node))) : Prop :=
  ∀ k ∈ kept, ∀ m ∈ k.2, m.2.Written P

/-- What facts come to is made of what is written. -/
structure Outcome.Written (P : Atom → Prop) (o : Outcome) : Prop where
  value : o.value.Written P
  members : ∀ m ∈ o.members, m.2.Written P

/-- A combination is made of what is written. -/
structure Branch.Written (P : Atom → Prop) (b : Branch) : Prop where
  expansion : b.expansion.Written P
  outcome : b.outcome.Written P

theorem Branch.Written.of_same {b c : Branch} (h : c.Written P) (hsame : b.Same c) :
    b.Written P :=
  ⟨hsame.expansion ▸ h.expansion, hsame.outcome ▸ h.outcome⟩

theorem Branch.Written.kept {b : Branch} (h : b.Written P) : MembersWritten P [b.kept] := by
  intro k hk
  obtain rfl := List.mem_singleton.mp hk
  exact h.outcome.members

theorem MembersWritten.append {k l : List (List Nat × List (Label × Node))}
    (hk : MembersWritten P k) (hl : MembersWritten P l) : MembersWritten P (k ++ l) := by
  intro b hb
  rcases List.mem_append.mp hb with hb | hb
  · exact hk b hb
  · exact hl b hb

/-! ## Expressions come apart -/

namespace Expansion

theorem written_empty : ({} : Expansion).Written P :=
  ⟨List.forall_mem_nil _, List.forall_mem_nil _, List.forall_mem_nil _⟩

theorem written_fact {f : Fact} (h : f.Written P) : (fact f).Written P :=
  ⟨List.forall_mem_singleton.mpr h, List.forall_mem_nil _, List.forall_mem_nil _⟩

theorem written_task {c : Conjunct} (h : c.expr.Written False P) : (task c).Written P :=
  ⟨List.forall_mem_nil _, List.forall_mem_singleton.mpr h, List.forall_mem_nil _⟩

theorem Written.append {d e : Expansion} (hd : d.Written P) (he : e.Written P) :
    (d.append e).Written P :=
  ⟨List.forall_mem_append.mpr ⟨hd.facts, he.facts⟩,
    List.forall_mem_append.mpr ⟨hd.tasks, he.tasks⟩,
    List.forall_mem_append.mpr ⟨hd.choices, he.choices⟩⟩

theorem written_concat {es : List Expansion} (h : ∀ e ∈ es, e.Written P) :
    (concat es).Written P := by
  induction es with
  | nil => exact written_empty
  | cons e es ih =>
    obtain ⟨he, hes⟩ := List.forall_mem_cons.mp h
    exact he.append (ih hes)

end Expansion

theorem Expr.Written.alternatives {e : Expr} (h : e.Written False P) (marked : Bool) :
    ∀ a ∈ e.alternatives marked, a.2.Written False P := by
  induction marked, e using Expr.alternatives.induct with
  | case1 marked l r ihl ihr =>
    cases h with
    | either hl hr =>
      rw [Expr.alternatives]
      exact List.forall_mem_append.mpr ⟨ihl hl, ihr hr⟩
  | case2 marked p e ih =>
    cases h with
    | preferred h =>
      rw [Expr.alternatives]
      exact ih h
  | case3 marked e heither hpreferred =>
    rw [Expr.alternatives, List.forall_mem_singleton]
    · exact h
    · exact heither
    · exact hpreferred

/-- What a struct embeds brings what its own parts bring. -/
theorem partsOfDecls_written {path : List Text} {address : Address} {context : Context}
    {place : Position} {ds rest : List Decl}
    (h : ∀ e, .embedded e ∈ rest → ∀ context', (e.parts path address context').Written P) :
    (partsOfDecls path address context place ds rest).Written P := by
  induction rest with
  | nil => exact Expansion.written_empty
  | cons d rest ih =>
    have hrest := ih fun e he => h e (List.mem_cons_of_mem d he)
    cases d with
    | embedded e =>
      rw [partsOfDecls]
      exact (h e List.mem_cons_self _).append hrest
    | _ =>
      rw [partsOfDecls]
      · exact hrest
      · intro e he
        cases he

theorem Expr.Written.parts {e : Expr} (h : e.Written False P) (path : List Text)
    (address : Address) (context : Context) : (e.parts path address context).Written P := by
  induction h generalizing context with
  | literal h =>
    rw [Expr.parts]
    refine Expansion.written_fact fun a ha => ?_
    cases ha
    exact h
  | faulty => exact Expansion.written_empty
  | top => exact Expansion.written_empty
  | bottom => exact Expansion.written_fact trivial
  | name =>
    rw [Expr.parts]
    split
    · exact Expansion.written_fact fun a ha => by cases ha
    · exact Expansion.written_task .name
  | group _ ih => exact ih context
  | meet _ _ ihl ihr => exact (ihl context).append (ihr context)
  | either hl hr =>
    rw [Expr.parts]
    refine ⟨List.forall_mem_nil _, List.forall_mem_nil _, ?_⟩
    rw [List.forall_mem_singleton, Choice.of]
    intro a ha
    obtain ⟨b, hb, rfl⟩ := List.mem_map.mp ha
    exact (Expr.Written.either hl hr).alternatives false b hb
  | preferred => exact Expansion.written_empty
  | @struct p ds h ih =>
    rw [Expr.parts]
    have hbody : (Fact.body ⟨p, ds, context⟩).Written P := Expr.Written.struct h
    refine (Expansion.written_fact hbody).append ?_
    exact partsOfDecls_written fun e he context' => ih _ he e rfl context'
  | select h => exact Expansion.written_task (.select h)
  | signed h => exact Expansion.written_task (.signed h)
  | arithmetic h => exact h.elim
  | limit h => exact Expansion.written_task (.limit h)
  | list hitems htail => exact Expansion.written_task (.list hitems htail)

/-! ## Names and operations -/

theorem Node.Written.conjuncts {node : Node} (h : node.Written P) :
    ∀ c ∈ node.conjuncts, c.expr.Written False P := by
  cases h with
  | mk hconjuncts _ _ => exact hconjuncts

theorem Node.Written.value {node : Node} (h : node.Written P) : node.value.Written P := by
  cases h with
  | mk _ hvalue _ => exact hvalue

theorem Node.Written.find? {node : Node} (h : node.Written P) {address : Address} {found : Node}
    (hfound : node.find? address = .node found) : found.Written P := by
  induction address, node using Node.find?.induct with
  | case1 node =>
    cases hfound
    exact h
  | case2 chosen label rest node hnone =>
    rw [Node.find?, hnone] at hfound
    cases hfound
  | case3 chosen label rest node ms hms m hm ih =>
    rw [Node.find?, hms] at hfound
    dsimp only at hfound
    rw [hm] at hfound
    refine ih ?_ hfound
    cases h with
    | mk _ _ hmembers =>
      obtain ⟨b, hb, rfl⟩ := Option.map_eq_some_iff.mp hms
      exact hmembers b (List.mem_of_find?_eq_some hb) m (List.mem_of_find?_eq_some hm)
  | case4 chosen label rest node ms hms hnone =>
    rw [Node.find?, hms] at hfound
    dsimp only at hfound
    rw [hnone] at hfound
    cases hfound
  | case5 address node hnil hother =>
    rw [Node.find?] at hfound
    · cases hfound
    · exact hnil
    · exact hother

variable {known : Option Node}

theorem written_of_lookUp (hknown : ∀ root ∈ known, root.Written P) {address : Address}
    {node : Node} (h : lookUp known address = .node node) : node.Written P := by
  cases known with
  | none => cases h
  | some root => exact (hknown root rfl).find? h

theorem follow_written (hknown : ∀ root ∈ known, root.Written P) (path : List Text)
    (address here : Address) (place : Position) (context : Context) (label : Label)
    (target : Address) :
    (follow known path address here place context label target).Written P := by
  unfold follow
  split
  · exact Expansion.written_empty
  split
  · exact Expansion.written_fact trivial
  split
  · split
    · exact Expansion.written_empty
    · exact Expansion.written_fact trivial
  split
  · exact Expansion.written_fact trivial
  · exact Expansion.written_fact trivial
  · next node hnode =>
    have hconcat (used : Context) : (Expansion.concat (node.conjuncts.map fun c =>
        (c.reachedBy used).parts path here)).Written P := by
      refine Expansion.written_concat fun e he => ?_
      obtain ⟨c, hc, rfl⟩ := List.mem_map.mp he
      exact ((written_of_lookUp hknown hnode).conjuncts c hc).parts _ _ _
    exact ⟨(hconcat _).facts, (hconcat _).tasks, (hconcat _).choices⟩

/-- A property of atoms that a sign does not change. -/
def KeepsSign (P : Atom → Prop) : Prop := ∀ a b, P a → a.negated? = some b → P b

theorem signed_written (hsign : KeepsSign P) (path : List Text) (context : Context)
    (place : Position) (sign : Sign) (operand : Expr) {v : Value} (h : v.Written P) :
    (Operation.signed path context place sign operand v).Written P := by
  have hatom (a : Atom) (p : Position) (ha : P a) :
      (Operation.signed path context place sign operand (.atom a p)).Written P := by
    unfold Operation.signed
    dsimp only
    split
    · intro b hb
      cases hb
      exact ha
    · next b hb =>
      intro c hc
      cases hc
      exact hsign a b ha hb
    · trivial
  cases h with
  | atom ha => exact hatom _ _ ha
  | @gap known ps hk =>
    cases known with
    | none => trivial
    | some k => exact hatom k.1 k.2 (hk k rfl)
  | vague =>
    unfold Operation.signed
    dsimp only
    split <;> trivial
  | _ => trivial

theorem limit_written (path : List Text) (context : Context) (place : Position) (bound : Bound)
    (operand : Expr) (v : Value) :
    (Operation.limit path context place bound operand v).Written P := by
  unfold Operation.limit
  dsimp only
  repeat' split
  all_goals first | trivial | (intro a ha; cases ha)

/-! ## Facts meet -/

theorem Value.Written.through {v : Value} (h : v.Written P) (place : Position) :
    (v.through place).Written P := by
  have hfields (fs : List (Label × Value)) (hfs : ∀ f ∈ fs, (f.2.through place).Written P) :
      ∀ f ∈ Value.throughFields place fs, f.2.Written P := by
    induction fs with
    | nil => exact List.forall_mem_nil _
    | cons f fs ih =>
      obtain ⟨hf, hrest⟩ := List.forall_mem_cons.mp hfs
      exact List.forall_mem_cons.mpr ⟨hf, ih hrest⟩
  have hitems (vs : List Value) (hvs : ∀ v ∈ vs, (v.through place).Written P) :
      ∀ v ∈ Value.throughItems place vs, v.Written P := by
    induction vs with
    | nil => exact List.forall_mem_nil _
    | cons v vs ih =>
      obtain ⟨hv, hrest⟩ := List.forall_mem_cons.mp hvs
      exact List.forall_mem_cons.mpr ⟨hv, ih hrest⟩
  induction h with
  | atom h => exact .atom h
  | struct _ ih => exact .struct (hfields _ ih)
  | list _ ih => exact .list (hitems _ ih)
  | vague => exact .vague
  | ambiguous h => exact .ambiguous h
  | gap h => exact .gap h
  | failed => exact .failed

/-- The atom of facts is one that a fact asks for. -/
theorem atom_of_blend_written {facts : List Fact} (h : ∀ f ∈ facts, f.Written P)
    (hkinds : (Blend.of (facts.filterMap Fact.constraint?)).kinds ≠ []) {a : Atom} {c : Constraint}
    (hatom : (Blend.of (facts.filterMap Fact.constraint?)).atom = some (a, c)) : P a := by
  obtain ⟨-, -, hfrom⟩ := Blend.foldl_fields _ {} hkinds
  rcases hfrom (a, c) hatom with hnone | ⟨c', hc', hdemand⟩
  · cases hnone
  · obtain ⟨f, hf, hconstraint⟩ := List.mem_filterMap.mp hc'
    cases f with
    | constraint c'' =>
      obtain rfl := Option.some.inj hconstraint
      exact h _ hf a hdemand
    | body b =>
      rw [Fact.constraint?] at hconstraint
      split at hconstraint
      · obtain rfl := Option.some.inj hconstraint
        cases hdemand
      · cases hconstraint
    | sequence s =>
      obtain rfl := Option.some.inj hconstraint
      cases hdemand
    | _ => cases hconstraint

theorem plainValue_written {facts : List Fact} (h : ∀ f ∈ facts, f.Written P)
    (hkinds : (Blend.of (facts.filterMap Fact.constraint?)).kinds ≠ [])
    {fields items : List (Label × Node)} (hfields : ∀ m ∈ fields, m.2.value.Written P)
    (hitems : ∀ m ∈ items, m.2.value.Written P) :
    (plainValue facts (Blend.of (facts.filterMap Fact.constraint?)) fields items).Written P := by
  have hknown : ∀ k ∈ (Blend.of (facts.filterMap Fact.constraint?)).atom.map
      fun p => (p.1, p.2.place), P k.1 := by
    intro k hk
    obtain ⟨⟨a, c⟩, hatom, rfl⟩ := Option.map_eq_some_iff.mp hk
    exact atom_of_blend_written h hkinds hatom
  unfold plainValue
  dsimp only
  split
  · next a place _ hmapped => exact .atom (hknown _ hmapped)
  · split
    · refine .struct fun f hf => ?_
      obtain ⟨m, hm, rfl⟩ := List.mem_map.mp hf
      exact hfields m hm
    · split
      · refine .list fun v hv => ?_
        obtain ⟨m, hm, rfl⟩ := List.mem_map.mp hv
        exact hitems m hm
      · exact .vague
  · exact .gap hknown

theorem failedValue?_written {plain : Value} (own : List Problem) (members : List (Label × Node))
    (h : plain.Written P) : ((failedValue? own members).getD plain).Written P := by
  unfold failedValue?
  dsimp only
  split
  · exact h
  · exact .failed

/-! ## A round -/

/-- Every function of a round keeps to what is written, given what the round before has found. -/
structure RoundKeeps (P : Atom → Prop) (known : Option Node) (n : Nat) : Prop where
  taskParts (path : List Text) (address here : Address) (task : Conjunct) :
    task.expr.Written False P → (taskParts n known path address here task).Written P
  operandValue (path : List Text) (address : Address) (c : Conjunct) :
    c.expr.Written False P → (operandValue n known path address c).Written P
  runTasks (path : List Text) (address here : Address) (tasks : List Conjunct) (done : Expansion) :
    (∀ t ∈ tasks, t.expr.Written False P) → done.Written P →
    (runTasks n known path address here tasks done).Written P
  expand (path : List Text) (address : Address) (chosen : List Nat) (uses : List Use)
    (cs : List Conjunct) :
    (∀ c ∈ cs, c.expr.Written False P) → (expand n known path address chosen uses cs).Written P
  meet (path : List Text) (address : Address) (chosen : List Nat) (e : Expansion) :
    e.Written P → (meet n known path address chosen e).Written P
  attempt (path : List Text) (address : Address) (base : Branch) (index : Nat) (latest : Standing)
    (alternative : Conjunct) :
    base.Written P → alternative.expr.Written False P →
    (∀ b ∈ (attempt n known path address base index latest alternative).branches, b.Written P) ∧
      MembersWritten P (attempt n known path address base index latest alternative).kept
  choose (path : List Text) (address : Address) (plain : List Problem) (branches : List Branch)
    (choices : List Choice) :
    (∀ b ∈ branches, b.Written P) →
    (∀ c ∈ choices, ∀ a ∈ c.alternatives, a.2.expr.Written False P) →
    (∀ left, (choose n known path address plain branches choices).1 = .ok left →
      ∀ b ∈ left, b.Written P) ∧
      MembersWritten P (choose n known path address plain branches choices).2
  evaluate (path : List Text) (address : Address) (cs : List Conjunct) :
    (∀ c ∈ cs, c.expr.Written False P) → (evaluate n known path address cs).Written P

section Steps

variable {n : Nat}

theorem taskParts_succ_written (hsign : KeepsSign P) (hknown : ∀ root ∈ known, root.Written P)
    (ih : RoundKeeps P known n) (path : List Text) (address here : Address) {task : Conjunct}
    (h : task.expr.Written False P) :
    (taskParts (n + 1) known path address here task).Written P := by
  obtain ⟨e, context⟩ := task
  unfold taskParts
  dsimp only at h ⊢
  split
  · next p items tail =>
    have hsequence : (Fact.sequence ⟨p, items, tail, context⟩).Written P := h
    exact Expansion.written_fact hsequence
  · cases h with
    | signed h =>
      exact Expansion.written_fact (signed_written hsign _ _ _ _ _ (ih.operandValue _ _ _ h))
  · exact Expansion.written_fact (limit_written _ _ _ _ _ _)
  · cases h with
    | arithmetic h => exact h.elim
  · split
    · exact follow_written hknown _ _ _ _ _ _ _
    · exact Expansion.written_empty
  · split
    · exact follow_written hknown _ _ _ _ _ _ _
    · exact Expansion.written_fact trivial
  · exact Expansion.written_empty

theorem operandValue_succ_written (hknown : ∀ root ∈ known, root.Written P)
    (ih : RoundKeeps P known n) (path : List Text) (address : Address) {c : Conjunct}
    (h : c.expr.Written False P) : (operandValue (n + 1) known path address c).Written P := by
  obtain ⟨e, context⟩ := c
  rw [operandValue]
  split
  · split
    · next node hnode => exact (written_of_lookUp hknown hnode).value
    · exact .gap nofun
    · exact .gap nofun
  · have hsingle : ∀ c ∈ [(⟨e, { context with groups := [], anchors := [] }⟩ : Conjunct)],
        c.expr.Written False P := List.forall_mem_singleton.mpr h
    exact (ih.evaluate _ _ _ hsingle).value

theorem runTasks_succ_written (ih : RoundKeeps P known n) (path : List Text)
    (address here : Address) {tasks : List Conjunct} {done : Expansion}
    (htasks : ∀ t ∈ tasks, t.expr.Written False P) (hdone : done.Written P) :
    (runTasks (n + 1) known path address here tasks done).Written P := by
  cases tasks with
  | nil =>
    rw [runTasks_nil]
    exact hdone
  | cons task tasks =>
    obtain ⟨htask, hrest⟩ := List.forall_mem_cons.mp htasks
    rw [runTasks]
    dsimp only
    split
    · exact ih.runTasks _ _ _ _ _ hrest hdone
    · have hparts := ih.taskParts path address here task htask
      refine ih.runTasks _ _ _ _ _ (List.forall_mem_append.mpr ⟨hrest, hparts.tasks⟩) ?_
      exact hdone.append ⟨hparts.facts, List.forall_mem_nil _, hparts.choices⟩

theorem expand_succ_written (ih : RoundKeeps P known n) (path : List Text) (address : Address)
    (chosen : List Nat) (uses : List Use) {cs : List Conjunct}
    (h : ∀ c ∈ cs, c.expr.Written False P) :
    (expand (n + 1) known path address chosen uses cs).Written P := by
  have hdirect : (Expansion.concat
      (cs.map (Conjunct.parts path (address ++ [.branch chosen])))).Written P := by
    refine Expansion.written_concat fun e he => ?_
    obtain ⟨c, hc, rfl⟩ := List.mem_map.mp he
    exact (h c hc).parts _ _ _
  rw [expand]
  exact ih.runTasks _ _ _ _ _ hdirect.tasks ⟨hdirect.facts, List.forall_mem_nil _, hdirect.choices⟩

/-- What the structs of written facts say of a label is written. -/
theorem conjunctsOf_written {facts : List Fact} (h : ∀ f ∈ facts, f.Written P)
    (closures : List (Trail × Anchor)) (here : Address) (label : Label) :
    ∀ c ∈ ((facts.filterMap Fact.body?).map (Body.closedBy closures)).flatMap
      fun b => b.conjunctsOf here label, c.expr.Written False P := by
  intro c hc
  obtain ⟨b, hb, hc⟩ := List.mem_flatMap.mp hc
  obtain ⟨b', hb', rfl⟩ := List.mem_map.mp hb
  obtain ⟨f, hf, hbody⟩ := List.mem_filterMap.mp hb'
  cases f with
  | body b'' =>
    obtain rfl := Option.some.inj hbody
    obtain ⟨d, hd, hfield⟩ := List.mem_filterMap.mp hc
    cases d with
    | field l bindable optional e =>
      dsimp only at hfield
      split at hfield
      · obtain rfl := Option.some.inj hfield
        cases h _ hf with
        | struct hdecls => exact hdecls _ hd e rfl
      · cases hfield
    | _ => cases hfield
  | _ => cases hbody

/-- What the lists of written facts say of an index is written. -/
theorem items_written {facts : List Fact} (h : ∀ f ∈ facts, f.Written P) (index : Nat) :
    ∀ c ∈ (facts.filterMap Fact.sequence?).filterMap fun s => s.conjunct? index,
      c.expr.Written False P := by
  intro c hc
  obtain ⟨s, hs, hc⟩ := List.mem_filterMap.mp hc
  obtain ⟨f, hf, hsequence⟩ := List.mem_filterMap.mp hs
  cases f with
  | sequence s' =>
    obtain rfl := Option.some.inj hsequence
    obtain ⟨e, he, rfl⟩ := Option.map_eq_some_iff.mp hc
    cases h _ hf with
    | list hitems htail =>
      cases hitem : s'.items[index]? with
      | some e' =>
        rw [hitem] at he
        obtain rfl := Option.some.inj he
        exact hitems e' (List.mem_of_getElem? hitem)
      | none =>
        rw [hitem] at he
        cases hs' : s'.tail with
        | each e' =>
          rw [hs'] at he
          obtain rfl := Option.some.inj he
          exact htail e' hs'
        | _ =>
          rw [hs'] at he
          cases he
  | _ => cases hsequence

theorem meet_succ_written (ih : RoundKeeps P known n) (path : List Text) (address : Address)
    (chosen : List Nat) {e : Expansion} (h : e.Written P) :
    (meet (n + 1) known path address chosen e).Written P := by
  rw [meet]
  dsimp only
  generalize hfields : List.map _ (List.eraseDups (_ : List Label)) = fields
  generalize hitems : List.map _ (List.range _) = items
  have hfieldsWritten : ∀ m ∈ fields, m.2.Written P := by
    intro m hm
    rw [← hfields] at hm
    obtain ⟨label, -, rfl⟩ := List.mem_map.mp hm
    have hconjuncts := conjunctsOf_written h.facts e.closures (address ++ [.branch chosen]) label
    dsimp only
    split
    · exact ih.evaluate _ _ _ hconjuncts
    · exact .mk hconjuncts .failed (List.forall_mem_nil _)
  have hitemsWritten : ∀ m ∈ items, m.2.Written P := by
    intro m hm
    rw [← hitems] at hm
    obtain ⟨i, -, rfl⟩ := List.mem_map.mp hm
    exact ih.evaluate _ _ _ (items_written h.facts i)
  refine ⟨?_, List.forall_mem_append.mpr ⟨hfieldsWritten, hitemsWritten⟩⟩
  dsimp only
  split
  · exact .failed
  · next hkinds =>
    have hplain := plainValue_written h.facts (by simpa using hkinds)
      (fun m hm => (hfieldsWritten m hm).value) fun m hm => (hitemsWritten m hm).value
    exact failedValue?_written _ _ hplain

/-! Choices are made: what is left of a choice was left of one of its trials. -/

theorem attempt_succ_written (ih : RoundKeeps P known n) (path : List Text) (address : Address)
    {base : Branch} (index : Nat) (latest : Standing) {alternative : Conjunct}
    (hbase : base.Written P) (h : alternative.expr.Written False P) :
    (∀ b ∈ (attempt (n + 1) known path address base index latest alternative).branches,
      b.Written P) ∧
      MembersWritten P (attempt (n + 1) known path address base index latest alternative).kept := by
  have hmore : (expand n known path address (base.chosen ++ [index]) base.expansion.uses
      [alternative]).Written P := ih.expand _ _ _ _ _ (List.forall_mem_singleton.mpr h)
  rw [attempt]
  dsimp only
  generalize expand n known path address (base.chosen ++ [index]) base.expansion.uses
    [alternative] = more at hmore ⊢
  have hboth := hbase.expansion.append hmore
  have houtcome := ih.meet path address (base.chosen ++ [index])
    { base.expansion.append more with choices := more.choices, uses := more.uses }
    ⟨hboth.facts, hboth.tasks, hmore.choices⟩
  have hbranch : Branch.Written P ⟨base.chosen ++ [index],
      { base.expansion.append more with choices := [], uses := more.uses }, base.standing, latest,
      meet n known path address (base.chosen ++ [index])
        { base.expansion.append more with choices := more.choices, uses := more.uses }⟩ :=
    ⟨⟨hboth.facts, hboth.tasks, List.forall_mem_nil _⟩, houtcome⟩
  split
  · refine ⟨fun b hb => ?_, hbranch.kept⟩
    obtain rfl := Trial.eq_of_mem_branches rfl hb
    exact hbranch
  · obtain ⟨hleft, hkept⟩ := ih.choose path address _ _ more.choices
      (List.forall_mem_singleton.mpr hbranch) hmore.choices
    refine ⟨fun b hb => ?_, hbranch.kept.append hkept⟩
    obtain ⟨left, hchoose, c, hc, hsame⟩ := Trial.same_of_mem_branches rfl hb
    exact (hleft left hchoose c hc).of_same hsame

theorem choose_nil_written (path : List Text) (address : Address) (plain : List Problem)
    {branches : List Branch} (hbranches : ∀ b ∈ branches, b.Written P) :
    (∀ left, (choose n known path address plain branches []).1 = .ok left →
      ∀ b ∈ left, b.Written P) ∧
      MembersWritten P (choose n known path address plain branches []).2 := by
  rw [choose]
  refine ⟨fun left hleft => ?_, List.forall_mem_nil _⟩
  obtain rfl := Except.ok.inj hleft
  exact hbranches

theorem choose_succ_written (ih : RoundKeeps P known n) (path : List Text) (address : Address)
    (plain : List Problem) {branches : List Branch} {choices : List Choice}
    (hbranches : ∀ b ∈ branches, b.Written P)
    (hchoices : ∀ c ∈ choices, ∀ a ∈ c.alternatives, a.2.expr.Written False P) :
    (∀ left, (choose (n + 1) known path address plain branches choices).1 = .ok left →
      ∀ b ∈ left, b.Written P) ∧
      MembersWritten P (choose (n + 1) known path address plain branches choices).2 := by
  cases choices with
  | nil => exact choose_nil_written path address plain hbranches
  | cons choice choices =>
    obtain ⟨hchoice, hrest⟩ := List.forall_mem_cons.mp hchoices
    rw [choose]
    dsimp only
    generalize htrials : (branches.flatMap fun b => choice.alternatives.zipIdx.map fun p =>
      attempt n known path address b p.2 (.ofMark (choice.alternatives.any Prod.fst) p.1.1)
        p.1.2) = trials
    have hwritten : ∀ t ∈ trials, (∀ b ∈ t.branches, b.Written P) ∧ MembersWritten P t.kept := by
      intro t ht
      rw [← htrials] at ht
      obtain ⟨base, hbase, ht⟩ := List.mem_flatMap.mp ht
      obtain ⟨p, hp, rfl⟩ := List.mem_map.mp ht
      exact ih.attempt _ _ _ _ _ _ (hbranches base hbase)
        (hchoice p.1 (List.fst_mem_of_mem_zipIdx hp))
    have hkept : MembersWritten P (trials.flatMap (·.kept)) := by
      intro k hk
      obtain ⟨t, ht, hk⟩ := List.mem_flatMap.mp hk
      exact (hwritten t ht).2 k hk
    split
    · refine ⟨fun left hleft => ?_, hkept⟩
      cases hleft
    · have hsurvivors : ∀ b ∈ Trial.survivors trials, b.Written P := by
        intro b hb
        obtain ⟨t, ht, c, hc, hsame⟩ := Trial.same_of_mem_survivors hb
        exact ((hwritten t ht).1 c hc).of_same hsame
      obtain ⟨hleft, hmore⟩ := ih.choose path address plain _ choices hsurvivors hrest
      exact ⟨hleft, hkept.append hmore⟩

theorem evaluate_succ_written (ih : RoundKeeps P known n) (path : List Text) (address : Address)
    {cs : List Conjunct} (h : ∀ c ∈ cs, c.expr.Written False P) :
    (evaluate (n + 1) known path address cs).Written P := by
  have hwhole := ih.expand path address [] [] cs h
  rw [evaluate]
  dsimp only
  generalize expand n known path address [] [] cs = whole at hwhole ⊢
  have houtcome := ih.meet path address [] whole hwhole
  split
  · refine .mk h ?_ (List.forall_mem_singleton.mpr houtcome.members)
    split
    · exact houtcome.value.through _
    · exact houtcome.value
  · have hbase : Branch.Written P ⟨[], { whole with choices := [] }, .neutral, .neutral,
        meet n known path address [] whole⟩ :=
      ⟨⟨hwhole.facts, hwhole.tasks, List.forall_mem_nil _⟩, houtcome⟩
    obtain ⟨hleft, hkept⟩ := ih.choose path address
      (meet n known path address [] whole).value.brief _ whole.choices
      (List.forall_mem_singleton.mpr hbase) hwhole.choices
    refine .mk h ?_ (hbase.kept.append hkept)
    have hvalues (bs : List Branch) (hbs : ∀ b ∈ bs, b.Written P) :
        (Value.ambiguous (bs.map (·.outcome.value))).Written P := by
      refine .ambiguous fun v hv => ?_
      obtain ⟨b, hb, rfl⟩ := List.mem_map.mp hv
      exact (hbs b hb).outcome.value
    split
    · exact .failed
    · next b hb => exact (hleft _ hb b List.mem_cons_self).outcome.value
    · next bs _ hbs =>
      have hpreferred : ∀ b ∈ bs.filter (·.standing = .preferred), b.Written P :=
        fun b hb => hleft bs hbs b (List.mem_filter.mp hb).1
      split
      · next b hb => exact (hpreferred b (hb ▸ List.mem_cons_self)).outcome.value
      · exact hvalues bs (hleft bs hbs)
      · exact hvalues _ hpreferred

end Steps

/-- **A round makes no atoms of its own.** -/
theorem roundKeeps (hsign : KeepsSign P) (hknown : ∀ root ∈ known, root.Written P) (n : Nat) :
    RoundKeeps P known n := by
  induction n with
  | zero =>
    exact
      { taskParts := fun _ _ _ _ _ => Expansion.written_fact trivial
        operandValue := fun _ _ _ _ => .gap nofun
        runTasks := fun _ _ _ tasks _ _ hdone => by
          cases tasks with
          | nil =>
            rw [runTasks_nil]
            exact hdone
          | cons task tasks => exact hdone.append (Expansion.written_fact trivial)
        expand := fun _ _ _ _ _ _ =>
          ⟨List.forall_mem_singleton.mpr trivial, List.forall_mem_nil _, List.forall_mem_nil _⟩
        meet := fun _ _ _ _ _ => ⟨.failed, List.forall_mem_nil _⟩
        attempt := fun _ _ _ _ _ _ _ _ => ⟨List.forall_mem_nil _, List.forall_mem_nil _⟩
        choose := fun path address plain _ choices hbranches _ => by
          cases choices with
          | nil => exact choose_nil_written path address plain hbranches
          | cons choice choices => exact ⟨nofun, List.forall_mem_nil _⟩
        evaluate := fun _ _ _ h => .mk h .failed (List.forall_mem_nil _) }
  | succ n ih =>
    exact
      { taskParts := fun _ _ _ _ h => taskParts_succ_written hsign hknown ih _ _ _ h
        operandValue := fun _ _ _ h => operandValue_succ_written hknown ih _ _ h
        runTasks := fun _ _ _ _ _ h hdone => runTasks_succ_written ih _ _ _ h hdone
        expand := fun _ _ _ _ _ h => expand_succ_written ih _ _ _ _ h
        meet := fun _ _ _ _ h => meet_succ_written ih _ _ _ h
        attempt := fun _ _ _ _ _ _ hbase h => attempt_succ_written ih _ _ _ _ hbase h
        choose := fun _ _ _ _ _ hbranches h => choose_succ_written ih _ _ _ hbranches h
        evaluate := fun _ _ _ h => evaluate_succ_written ih _ _ h }

/-! ## Rounds -/

theorem round_written (hsign : KeepsSign P) {sources : List Expr}
    (h : ∀ e ∈ sources, e.Written False P) (hknown : ∀ root ∈ known, root.Written P) :
    (round sources known).Written P := by
  refine (roundKeeps hsign hknown _).evaluate _ _ _ fun c hc => ?_
  obtain ⟨e, he, rfl⟩ := List.mem_map.mp hc
  exact h e he

/-- **The atoms of a unified value are those that are written**, up to signs, if none of the sources
does arithmetic. -/
theorem unify_written (hsign : KeepsSign P) {sources : List Expr}
    (h : ∀ e ∈ sources, e.Written False P) : (unify sources).Written P := by
  have hsettle (limit : Nat) (node : Node) (hnode : node.Written P) :
      (settle sources limit node).Written P := by
    induction limit generalizing node with
    | zero => exact hnode
    | succ limit ih =>
      have hnext : (round sources (some node)).Written P :=
        round_written hsign h fun _ hroot => Option.some.inj hroot ▸ hnode
      rw [settle]
      split
      · exact hnext
      · exact ih _ hnext
  have hfirst : (round sources none).Written P := round_written hsign h nofun
  exact (hsettle _ _ hfirst).value

end Config
end RepeatedAddition
