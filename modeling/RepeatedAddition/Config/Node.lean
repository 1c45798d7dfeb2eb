import RepeatedAddition.Config.Expr
import RepeatedAddition.Config.Value

/-!
# Nodes

A node of the configuration is a place in the data, and a list of conjuncts: expressions, each with
the context in which it was written.  All of them must hold.  A name is looked up in the node that
its scope has become, not in the text around it; this is how a declaration in one source reaches an
expression in another.

A node with choices has a branch for every way to choose, and its members belong to a branch.  So
the address of a node alternates between branches and labels.

* `Address`, `Scope`, `Context`, `Conjunct`: where an expression stands.
* `Node`: what is known of a node, and of all nodes below it.
* `Node.find?`: the node at an address.
-/

namespace RepeatedAddition

namespace Config

/-- A step on the way to a node: into a branch, given by the alternatives chosen one after another,
or to a member of a branch. -/
inductive Step where
  | branch (chosen : List Nat)
  | member (label : Label)
  deriving DecidableEq, Repr

/-- The steps from the root to a node or to a branch. -/
abbrev Address := List Step

/-- The names that a struct binds, and the branch that the struct is part of. -/
structure Scope where
  names : List String
  address : Address

/-- The names that a conjunct came through, each with the depth at which it was met. -/
abbrev Trail := List (Position × Nat)

/-- A struct that embeds something, told apart from the same struct reached otherwise. -/
abbrev Anchor := Position × Trail

/-- Where an expression stands: its scopes, innermost first, the closed structs it is part of, the
names it came through, the places that it came through, and the structs of the same node into which
it is embedded, outermost first. -/
structure Context where
  scopes : List Scope := []
  groups : List Trail := []
  trail : Trail := []
  route : List Position := []
  anchors : List Anchor := []

/-- An expression in its context. -/
structure Conjunct where
  expr : Expr
  context : Context := {}

/-- What is known of a node: its conjuncts, its value, the branch that its value is taken from, and
the members of its branches. -/
inductive Node where
  | mk (conjuncts : List Conjunct) (value : Value) (chosen : List Nat)
      (branches : List (List Nat × List (Label × Node)))

namespace Node

/-- The conjuncts of a node. -/
def conjuncts : Node → List Conjunct
  | .mk cs _ _ _ => cs

/-- The value of a node. -/
def value : Node → Value
  | .mk _ v _ _ => v

/-- The branch that the value of a node is taken from. -/
def chosen : Node → List Nat
  | .mk _ _ c _ => c

/-- The branches of a node. -/
def branches : Node → List (List Nat × List (Label × Node))
  | .mk _ _ _ bs => bs

/-- The members of a branch. -/
def members? (chosen : List Nat) (node : Node) : Option (List (Label × Node)) :=
  (node.branches.find? fun b => b.1 = chosen).map Prod.snd

/-- What an address leads to: a node, a branch that lacks the member, or nothing that is known. -/
inductive Found where
  | node (node : Node)
  | missing
  | unknown

/-- Looks up an address from a node on. -/
def find? : Address → Node → Found
  | [], node => .node node
  | .branch chosen :: .member label :: rest, node =>
    match node.members? chosen with
    | none => .unknown
    | some ms =>
      match ms.find? fun m => m.1 = label with
      | some m => find? rest m.2
      | none => .missing
  | _, _ => .unknown

mutual

/-- Whether the same is known of two nodes. -/
def agrees : Node → Node → Bool
  | .mk cs v _ bs, .mk ds w _ es => cs.length = ds.length && v.agrees w && agreesOnBranches bs es

/-- Whether the same is known of branches. -/
def agreesOnBranches :
    List (List Nat × List (Label × Node)) → List (List Nat × List (Label × Node)) → Bool
  | [], [] => true
  | (c, ms) :: bs, (d, ns) :: es => c = d && agreesOnMembers ms ns && agreesOnBranches bs es
  | _, _ => false

/-- Whether the same is known of members. -/
def agreesOnMembers : List (Label × Node) → List (Label × Node) → Bool
  | [], [] => true
  | (l, a) :: ms, (k, b) :: ns => l = k && agrees a b && agreesOnMembers ms ns
  | _, _ => false

end

end Node

end Config

end RepeatedAddition
