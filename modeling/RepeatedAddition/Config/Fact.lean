import RepeatedAddition.Config.Constraint
import RepeatedAddition.Config.Node

/-!
# Facts about a node

An expression comes apart into facts about its node: constraints, structs and lists, failures, and
operands that are missing.  A meet is taken apart, and so is a struct that embeds something.  What
needs to be looked up or computed is left as a task; choices are left for the end.

* `Fact`: something that a node has to satisfy.
* `Expansion`: facts, tasks and choices, each in order.
* `Conjunct.parts`: what a conjunct comes apart into.
-/

namespace RepeatedAddition

namespace Config

/-- A struct of a node: its declarations in their context. -/
structure Body where
  place : Position
  decls : List Decl
  context : Context

/-- A list of a node: its items and tail in their context. -/
structure Sequence where
  place : Position
  items : List Expr
  tail : Tail Expr
  context : Context

/-- Something that a node has to satisfy.  A cycle is a name that leads back to a node around this
one. -/
inductive Fact where
  | constraint (c : Constraint)
  | body (b : Body)
  | sequence (s : Sequence)
  | failure (ps : List Problem)
  | gap (ps : List Problem)
  | cycle (place : Position)

/-- Alternatives of a choice, each with the remark whether it is preferred. -/
structure Choice where
  alternatives : List (Bool × Conjunct)

/-- A use of another node: its address, and the closed structs and embedding structs around the
use. -/
structure Use where
  target : Address
  groups : List Trail
  anchors : List Anchor
  deriving DecidableEq

/-- What a node comes apart into, the closed structs that are embedded in other structs of the node,
and the other nodes that were used. -/
structure Expansion where
  facts : List Fact := []
  tasks : List Conjunct := []
  choices : List Choice := []
  closures : List (Trail × Anchor) := []
  uses : List Use := []

namespace Expansion

/-- Two expansions taken together. -/
def append (a b : Expansion) : Expansion :=
  ⟨a.facts ++ b.facts, a.tasks ++ b.tasks, a.choices ++ b.choices, a.closures ++ b.closures,
    a.uses ++ b.uses⟩

/-- Several expansions taken together. -/
def concat (es : List Expansion) : Expansion := es.foldr append {}

/-- The expansion into one fact. -/
def fact (f : Fact) : Expansion := { facts := [f] }

/-- The expansion into one task. -/
def task (c : Conjunct) : Expansion := { tasks := [c] }

end Expansion

namespace Scope

/-- Whether a scope binds a name. -/
def binds (name : String) (s : Scope) : Bool := s.names.contains name

end Scope

namespace Context

/-- The scope that binds a name. -/
def scopeOf? (c : Context) (name : String) : Option Scope := c.scopes.find? (Scope.binds name)

/-- The context of what a struct embeds, in a branch at an address. -/
def embedding (c : Context) (address : Address) (decls : List Decl) (place embedded : Position) :
    Context :=
  { c with
    scopes := ⟨Decl.names decls, address⟩ :: c.scopes
    route := c.route ++ [embedded]
    anchors := c.anchors ++ [(place, c.trail)] }

/-- The context of a member of a struct, in a branch at an address. -/
def member (c : Context) (address : Address) (decls : List Decl) : Context :=
  { c with scopes := ⟨Decl.names decls, address⟩ :: c.scopes, anchors := [] }

end Context

/-- The failure of a node. -/
def failure (path : List Text) (message : String) (place : Position) : Fact :=
  .failure [⟨path, Text.lit message, none, [place]⟩]

/-- The alternatives of a choice as conjuncts of a context. -/
def Choice.of (e : Expr) (context : Context) : Choice :=
  ⟨(e.alternatives false).map fun (marked, e) => (marked, ⟨e, context⟩)⟩

mutual

/-- What an expression comes apart into, at a path, in a branch at an address. -/
def Expr.parts (path : List Text) (address : Address) (context : Context) : Expr → Expansion
  | .literal p a => .fact (.constraint ⟨.atom a, p, context.route⟩)
  | .top _ | .faulty _ _ | .preferred _ _ => {}
  | .bottom p => .fact (failure path "explicit error (_|_ literal) in source" p)
  | .group _ e => Expr.parts path address context e
  | .meet l r => (Expr.parts path address context l).append (Expr.parts path address context r)
  | .either l r => { choices := [Choice.of (.either l r) context] }
  | .name p n =>
    match context.scopeOf? n, Predeclared.find? n with
    | none, some t => .fact (.constraint ⟨.type t, p, context.route⟩)
    | _, _ => .task ⟨.name p n, context⟩
  | .struct p ds =>
    (Expansion.fact (.body ⟨p, ds, context⟩)).append (partsOfDecls path address context p ds ds)
  | e => .task ⟨e, context⟩

/-- What the embedded expressions of a struct with declarations `all` come apart into. -/
def partsOfDecls (path : List Text) (address : Address) (context : Context) (place : Position)
    (all : List Decl) :
    List Decl → Expansion
  | [] => {}
  | .embedded e :: ds =>
    (Expr.parts path address (context.embedding address all place e.place) e).append
      (partsOfDecls path address context place all ds)
  | _ :: ds => partsOfDecls path address context place all ds

end

namespace Conjunct

/-- What a conjunct comes apart into. -/
def parts (path : List Text) (address : Address) (c : Conjunct) : Expansion :=
  c.expr.parts path address c.context

/-- A conjunct that is used at another place: it joins the closed structs there, was reached through
the names and places there, and is embedded where the name is. -/
def reachedBy (context : Context) (c : Conjunct) : Conjunct :=
  { c with context :=
    { c.context with
      groups := context.groups ++ c.context.groups
      trail := context.trail ++ c.context.trail
      route := context.route ++ c.context.route
      anchors := context.anchors } }

end Conjunct

namespace Body

/-- Whether the struct declares a label, optional fields included. -/
def declares (b : Body) (label : Label) : Bool :=
  b.decls.any fun
    | .field l _ _ _ => l = label
    | _ => false

/-- Whether the struct is open. -/
def isOpen (b : Body) : Bool :=
  b.decls.any fun
    | .ellipsis => true
    | _ => false

/-- Whether the struct makes its node a struct: one that embeds something is what it embeds, unless
it has data of its own. -/
def imposes (b : Body) : Bool :=
  !(b.decls.any fun
    | .embedded _ => true
    | _ => false)
    || b.decls.any fun
      | .field (.regular _) _ false _ => true
      | _ => false

/-- The labels of the members. -/
def labels (b : Body) : List Label :=
  b.decls.filterMap fun
    | .field l _ false _ => some l
    | _ => none

/-- The conjuncts that the struct gives a label, in a branch at an address. -/
def conjunctsOf (b : Body) (address : Address) (label : Label) : List Conjunct :=
  b.decls.filterMap fun
    | .field l _ _ e => if l = label then some ⟨e, b.context.member address b.decls⟩ else none
    | _ => none

/-- The struct as part of more closed structs: those that are embedded in it, or in the struct into
which it is embedded. -/
def closedBy (closures : List (Trail × Anchor)) (b : Body) : Body :=
  let inside := (b.place, b.context.trail) :: b.context.anchors
  let more :=
    (closures.filter fun c => inside.contains c.2 && !b.context.groups.contains c.1).map Prod.fst
  { b with context := { b.context with groups := b.context.groups ++ more } }

end Body

namespace Sequence

/-- The number of items that a list asks for. -/
def length (s : Sequence) : Nat := s.items.length

/-- Whether a list admits no further items. -/
def isClosed (s : Sequence) : Bool :=
  match s.tail with
  | .closed => true
  | _ => false

/-- The conjunct that a list gives an index. -/
def conjunct? (s : Sequence) (index : Nat) : Option Conjunct :=
  let item := s.items[index]? <|> match s.tail with
    | .each e => some e
    | _ => none
  item.map fun e => ⟨e, { s.context with anchors := [] }⟩

end Sequence

namespace Fact

/-- The struct of a fact. -/
def body? : Fact → Option Body
  | .body b => some b
  | _ => none

/-- The list of a fact. -/
def sequence? : Fact → Option Sequence
  | .sequence s => some s
  | _ => none

/-- The problems of a fact. -/
def problems : Fact → List Problem
  | .failure ps => ps
  | _ => []

/-- What a fact leaves open, if it does. -/
def gap? : Fact → Option (List Problem)
  | .gap ps => some ps
  | _ => none

/-- The constraint of a fact on the node as a whole. -/
def constraint? : Fact → Option Constraint
  | .constraint c => some c
  | .body b => if b.imposes then some ⟨.struct b.decls, b.place, b.context.route⟩ else none
  | .sequence s => some ⟨.list s.items s.tail, s.place, s.context.route⟩
  | _ => none

/-- The place of a cycle. -/
def cycle? : Fact → Option Position
  | .cycle p => some p
  | _ => none

end Fact

/-- Whether a node made of structs admits a label: every closed struct declares it or is open.  Only
data is restricted. -/
def admits (bodies : List Body) (label : Label) : Bool :=
  !label.isRegular || (bodies.flatMap fun b => b.context.groups).all fun g =>
    bodies.any fun b => b.context.groups.contains g && (b.declares label || b.isOpen)

/-! ## Lists taken together -/

/-- The number of items of lists taken together. -/
def itemCount (ss : List Sequence) : Nat := ss.foldl (fun n s => max n s.length) 0

/-- The length up to which items are compared: that of the shortest closed list. -/
def commonCount (ss : List Sequence) : Nat :=
  (ss.filter Sequence.isClosed).foldl (fun n s => min n s.length) (itemCount ss)

/-- The problem of two lists whose lengths do not agree, found at the second. -/
def lengthProblem (path : List Text) (shorter longer : Nat) (place : Position) : Problem :=
  ⟨path, Text.lit "incompatible list lengths (" ++ Text.decimal shorter ++ Text.lit " and "
    ++ Text.decimal longer ++ Text.lit ")", some place, []⟩

/-- The problems of lists behind others that have a given length and may admit no further items. -/
def lengthProblems (path : List Text) (length : Nat) (closed : Bool) : List Sequence → List Problem
  | [] => []
  | s :: ss =>
    let found :=
      if length < s.length && closed then [lengthProblem path length s.length s.place]
      else if s.length < length && s.isClosed then [lengthProblem path s.length length s.place]
      else []
    found ++
      lengthProblems path (if closed then length else max length s.length) (closed || s.isClosed) ss

end Config

end RepeatedAddition
