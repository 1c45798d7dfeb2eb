import RepeatedAddition.Config.Operation
import RepeatedAddition.Config.Standing

/-!
# Evaluation

A field may be declared several times, in one source or in several, and its value is what all
declarations allow together.  The value of a field may depend on the values of others, which may
depend on it in turn.  So the configuration is evaluated in rounds: a round evaluates every node
from its conjuncts, and looks up names in what the round before has found.  The first round knows
nothing; a round that finds nothing new is the last.

In a round the evaluation of a node goes in three steps.

1. *Expansion* replaces names by the conjuncts of the fields that they mean, splits meets, and adds
what is embedded.  What remains are facts and choices.  2. The choices are made one after another.
Every alternative is tried on top of every combination of alternatives of the choices before it;
what fails is dropped, and of several that agree one is kept.  3. The facts of a combination *meet*:
constraints are blended, structs are merged field by field, lists item by item.

**Preferences.**  A combination stands as its alternatives do, except that a choice whose preferred
alternatives have all failed has no say; the same holds for what was chosen before.  The value of a
node is the one preferred combination, if there is exactly one.

**Closed structs.**  A struct that comes from a definition admits no other fields than those that
the definition declares.  The conjuncts that come from one use of a definition form a group, and a
field must be declared in every group of its node.  Members inherit the groups, so definitions are
closed at every depth.

**Cycles.**  A name that leads to its own node adds nothing, and so does a name met again at the
same depth.  A name that leads to a node around its own, or that is met again further down, would
nest forever; this is a failure unless something else is known of the node.
-/

namespace RepeatedAddition

namespace Config

/-- What the facts of a branch come to: their blend, their value, and the members. -/
structure Outcome where
  blend : Blend
  value : Value
  members : List (Label × Node)

/-- A combination of alternatives: those chosen, what the node comes apart into with them, how the
combination stands and how its last alternative did, and what it comes to. -/
structure Branch where
  chosen : List Nat
  expansion : Expansion
  standing : Standing
  latest : Standing
  outcome : Outcome

namespace Branch

/-- Whether two combinations come to the same. -/
def agrees (a b : Branch) : Bool :=
  a.outcome.blend.agrees b.outcome.blend && a.outcome.value.agrees b.outcome.value

/-- Adds a combination to others, unless one of them comes to the same; that one is preferred if
either is. -/
def insert (b : Branch) : List Branch → List Branch
  | [] => [b]
  | c :: cs =>
    if c.agrees b then
      (if b.standing = .preferred then { c with standing := .preferred } else c) :: cs
    else c :: insert b cs

/-- The members of a combination, as they are kept for the next round. -/
def kept (b : Branch) : List Nat × List (Label × Node) := (b.chosen, b.outcome.members)

end Branch

/-- An alternative tried on top of a combination.  It may leave several combinations, if it holds
choices itself. -/
structure Trial where
  index : Nat
  standing : Standing
  latest : Standing
  wasPreferred : Bool
  result : Except (List Problem) (List Branch)
  kept : List (List Nat × List (Label × Node))

namespace Trial

/-- Whether something is left of a trial. -/
def succeeded (t : Trial) : Bool :=
  match t.result with
  | .ok _ => true
  | .error _ => false

/-- The combinations that a trial leaves. -/
def branches (t : Trial) : List Branch :=
  match t.result with
  | .ok bs => bs
  | .error _ => []

/-- The problems of a trial that failed. -/
def problems? (t : Trial) : Option (List Problem) :=
  match t.result with
  | .ok _ => none
  | .error ps => some ps

/-- The combinations that a trial leaves, with their standings, given whether what was chosen before
has a say, and whether the choice has one. -/
def settled (before now : Bool) (t : Trial) : List Branch :=
  match t.branches with
  | [b] => [{ b with standing := (b.standing.onlyIf before).and (b.latest.onlyIf now) }]
  | bs => bs.map fun b =>
    { b with standing := (t.standing.onlyIf before).and ((t.latest.and b.standing).onlyIf now) }

/-- The combinations that are left of all trials of a choice.  Where an alternative holds choices
itself and one of its combinations has a standing, those without one are passed over. -/
def survivors (trials : List Trial) : List Branch :=
  let left := trials.filter succeeded
  let before := left.any (·.wasPreferred)
  let now := left.any (·.latest = .preferred)
  let settled := left.map fun t => t.settled before now
  let branches := settled.flatten.foldl (fun bs b => b.insert bs) []
  if settled.any (fun bs => 1 < bs.length && bs.any (·.standing != .neutral)) then
    branches.map fun b => if b.standing = .neutral then { b with standing := .passedOver } else b
  else branches

/-- The problems of the alternatives of a choice, for each those of its last trial. -/
def lastProblems (count : Nat) (trials : List Trial) : List (List Problem) :=
  (List.range count).filterMap fun i =>
    ((trials.filter fun t => t.index = i).filterMap problems?).getLast?

end Trial

/-! ## Empty choices -/

/-- The problems to be shown of alternatives that have all failed.  Of more than two, only those
that have a place of their own are shown. -/
def relevantProblems (pss : List (List Problem)) : List Problem :=
  if pss.length ≤ 2 then pss.flatten
  else (pss.foldl select ([], [])).2
where
  /-- Takes the problems of an alternative in, given the places taken and the problems so far. -/
  select (state : List (Option Position) × List Problem) (ps : List Problem) :
      List (Option Position) × List Problem :=
    match ps with
    | [] => state
    | p :: _ =>
      match (p.decisive :: p.related.map some).find? fun place => !state.1.contains place with
      | some place => (place :: state.1, state.2 ++ ps)
      | none => state

/-- The problems of a node none of whose combinations is left, given its problems without any
choice. -/
def emptyChoice (path : List Text) (plain : List Problem) (pss : List (List Problem)) :
    List Problem :=
  let found := Problem.arranged (relevantProblems pss)
  let header : Problem :=
    ⟨path, Text.decimal found.length ++ Text.lit " errors in empty disjunction:", none, []⟩
  (plain ++ if found.length = 1 then found else header :: found).eraseDups

/-! ## The value of facts -/

/-- The value of a node with problems of its own, or with failed members. -/
def failedValue? (own : List Problem) (members : List (Label × Node)) : Option Value :=
  let failed := members.filter fun m => m.2.value.isFailed
  let first := (failed.head?.map fun m => m.2.value.brief).getD []
  if own.isEmpty && failed.isEmpty then none
  else some (.failed (own ++ first) (own ++ failed.flatMap fun m => m.2.value.full))

/-- A field that its node does not admit. -/
def notAllowed (path : List Text) (conjuncts : List Conjunct) : Node :=
  let ps : List Problem := [⟨path, Text.lit "field not allowed", none, []⟩]
  .mk conjuncts (.failed ps ps) [] []

/-- The value of facts without failures. -/
def plainValue (facts : List Fact) (blend : Blend) (fields items : List (Label × Node)) : Value :=
  let known := blend.atom.map fun (a, c) => (a, c.place)
  match facts.filterMap Fact.gap?, known with
  | [], some (a, place) => .atom a place
  | [], none =>
    if facts.any fun f => (f.body?.map Body.imposes).getD false then
      .struct (fields.map fun m => (m.1, m.2.value))
    else if facts.any fun f => f.sequence?.isSome then .list (items.map fun m => m.2.value)
    else .vague blend.description blend.kinds blend.place?.toList
  | gaps, _ => .gap known gaps.flatten

/-- The problems of names that lead back to nodes around this one, if nothing else is known of the
node. -/
def cycleProblems (path : List Text) (facts : List Fact) : List Problem :=
  let places := facts.filterMap Fact.cycle?
  if places.isEmpty || facts.any (fun f => f.cycle?.isNone) then []
  else [⟨path, Text.lit "structural cycle", none, places⟩]

/-- The problems of the lists of a node. -/
def listProblems (path : List Text) (ss : List Sequence) : List Problem :=
  match ss with
  | [] => []
  | s :: rest => lengthProblems path s.length s.isClosed rest

/-! ## Names -/

/-- What is known at an address. -/
def lookUp (known : Option Node) (address : Address) : Node.Found :=
  match known with
  | none => .unknown
  | some root => root.find? address

/-- The address of what an expression names, if it names something. -/
def addressOf? (known : Option Node) (context : Context) : Expr → Option Address
  | .name _ n => (context.scopeOf? n).map fun s => s.address ++ [.member (.ofIdentifier n)]
  | .group _ e => addressOf? known context e
  | .select _ e label => (addressOf? known context e).map fun a =>
    match lookUp known a with
    | .node node => a ++ [.branch node.chosen, .member label]
    | _ => a ++ [.branch [], .member label]
  | _ => none

/-- The use that a task makes of another node, if it names one. -/
def useOf? (known : Option Node) (task : Conjunct) : Option Use :=
  (addressOf? known task.context task.expr).map fun target =>
    ⟨target, task.context.groups, task.context.anchors⟩

/-- What a name at a place comes apart into in the node at an address, given the address that it
means. -/
def follow (known : Option Node) (path : List Text) (address here : Address) (place : Position)
    (context : Context) (label : Label) (target : Address) : Expansion :=
  if target = address then {}
  else if target.isPrefixOf address then .fact (.cycle place)
  else if context.trail.any fun t => t.1 = place then
    if context.trail.any fun t => t.1 = place && t.2 = path.length then {} else .fact (.cycle place)
  else match lookUp known target with
    | .unknown => .fact (.gap [⟨path, Text.lit "cycle error", some place, []⟩])
    | .missing => .fact (.gap [⟨path, Text.lit "undefined field: " ++ label.text, some place, []⟩])
    | .node node =>
      let trail := (place, path.length) :: context.trail
      let used : Context :=
        { context with
          groups := if label.isDefinition then trail :: context.groups else context.groups
          trail := trail
          route := context.route ++ [place] }
      let closures := match label.isDefinition, context.anchors.head? with
        | true, some anchor => [(trail, anchor)]
        | _, _ => []
      { Expansion.concat (node.conjuncts.map fun c => (c.reachedBy used).parts path here) with
        closures := closures }

/-- The name of a node that is nothing but another node. -/
def onlyName? (direct : Expansion) : Option Position :=
  match direct.facts, direct.tasks, direct.choices with
  | [], [⟨.name p _, _⟩], [] => some p
  | _, _, _ => none

/-! ## A round -/

/-- The problem of a node that nests without end. -/
def endless (path : List Text) : List Problem := [⟨path, Text.lit "structural cycle", none, []⟩]

mutual

/-- What a task comes apart into, in the node at an address with the branch `here`. -/
def taskParts : Nat → Option Node → List Text → Address → Address → Conjunct → Expansion
  | 0, _, path, _, _, _ => .fact (.failure (endless path))
  | n + 1, known, path, address, here, ⟨e, context⟩ =>
    match e with
    | .list p items tail => .fact (.sequence ⟨p, items, tail, context⟩)
    | .signed p sign operand =>
      .fact (Operation.signed path context p sign operand
        (operandValue n known path address ⟨operand, context⟩))
    | .limit p bound operand =>
      .fact (Operation.limit path context p bound operand
        (operandValue n known path address ⟨operand, context⟩))
    | .arithmetic op l r =>
      .fact (Operation.arithmetic path context l.place op
        (operandValue n known path address ⟨l, context⟩)
        (operandValue n known path address ⟨r, context⟩))
    | .name p name =>
      match addressOf? known context (.name p name) with
      | some target => follow known path address here p context (.ofIdentifier name) target
      | none => {}
    | .select p base label =>
      match addressOf? known context (.select p base label) with
      | some target => follow known path address here p context label target
      | none => .fact (failure path "invalid operand of a selection" p)
    | _ => {}

/-- The value of an operand: of the node that it names, or of the expression alone. -/
def operandValue : Nat → Option Node → List Text → Address → Conjunct → Value
  | 0, _, _, _, _ => .gap none []
  | n + 1, known, path, address, ⟨e, context⟩ =>
    match addressOf? known context e with
    | some target =>
      match lookUp known target with
      | .node node => node.value
      | .missing => .gap none [⟨path, Text.lit "undefined field: " ++ e.text, some e.place, []⟩]
      | .unknown => .gap none [⟨path, Text.lit "cycle error", some e.place, []⟩]
    | none =>
      (evaluate n known path address [⟨e, { context with groups := [], anchors := [] }⟩]).value

/-- Does tasks in order, those that they bring last, and adds what they come apart into.  A node
that was used before in the same way adds nothing. -/
def runTasks :
    Nat → Option Node → List Text → Address → Address → List Conjunct → Expansion → Expansion
  | _, _, _, _, _, [], done => done
  | 0, _, path, _, _, _ :: _, done => done.append (.fact (.failure (endless path)))
  | n + 1, known, path, address, here, task :: tasks, done =>
    let use? := useOf? known task
    if use?.any done.uses.contains then runTasks n known path address here tasks done
    else
      let parts := taskParts n known path address here task
      runTasks n known path address here (tasks ++ parts.tasks)
        (done.append { parts with tasks := [], uses := use?.toList })

/-- What conjuncts come apart into, with all tasks done, given the uses that were made of other
nodes before. -/
def expand :
    Nat → Option Node → List Text → Address → List Nat → List Use → List Conjunct → Expansion
  | 0, _, path, _, _, uses, _ => { facts := [.failure (endless path)], uses := uses }
  | n + 1, known, path, address, chosen, uses, conjuncts =>
    let here := address ++ [.branch chosen]
    let direct := Expansion.concat (conjuncts.map (Conjunct.parts path here))
    runTasks n known path address here direct.tasks { direct with tasks := [], uses := uses }

/-- What the facts of a branch come to. -/
def meet : Nat → Option Node → List Text → Address → List Nat → Expansion → Outcome
  | 0, _, path, _, _, _ => ⟨{}, .failed (endless path) (endless path), []⟩
  | n + 1, known, path, address, chosen, e =>
    let here := address ++ [.branch chosen]
    let bodies := (e.facts.filterMap Fact.body?).map (Body.closedBy e.closures)
    let ss := e.facts.filterMap Fact.sequence?
    let blend := Blend.of (e.facts.filterMap Fact.constraint?)
    let own := e.facts.flatMap Fact.problems ++ listProblems path ss ++ blend.problems path
      ++ if e.choices.isEmpty then cycleProblems path e.facts else []
    let fields := (bodies.flatMap Body.labels).eraseDups.map fun label =>
      let conjuncts := bodies.flatMap fun b => b.conjunctsOf here label
      let path := path ++ [label.text]
      (label, if admits bodies label then evaluate n known path (here ++ [.member label]) conjuncts
        else notAllowed path conjuncts)
    let items := (List.range (commonCount ss)).map fun i =>
      (Label.index i, evaluate n known (path ++ [Text.decimal i]) (here ++ [.member (.index i)])
        (ss.filterMap fun s => s.conjunct? i))
    let members := fields ++ items
    let value := if blend.kinds.isEmpty then .failed own own
      else (failedValue? own members).getD (plainValue e.facts blend fields items)
    ⟨blend, value, members⟩

/-- Tries an alternative on top of a combination. -/
def attempt : Nat → Option Node → List Text → Address → Branch → Nat → Standing → Conjunct → Trial
  | 0, _, path, _, _, index, latest, _ =>
    ⟨index, .neutral, latest, false, .error (endless path), []⟩
  | n + 1, known, path, address, base, index, latest, alternative =>
    let chosen := base.chosen ++ [index]
    let more := expand n known path address chosen base.expansion.uses [alternative]
    let expansion := { base.expansion.append more with choices := [], uses := more.uses }
    let outcome := meet n known path address chosen { expansion with choices := more.choices }
    let branch : Branch := ⟨chosen, expansion, base.standing, latest, outcome⟩
    let wasPreferred := base.standing = .preferred || base.latest = .preferred
    if more.choices.isEmpty then
      let result := if outcome.value.isFailed then .error outcome.value.brief else .ok [branch]
      ⟨index, base.standing, latest, wasPreferred, result, [branch.kept]⟩
    else
      let (result, kept) := choose n known path address outcome.value.brief [branch] more.choices
      let result := match result with
        | .ok [b] => .ok [{ b with latest := latest }]
        | r => r
      ⟨index, base.standing, latest, wasPreferred, result, branch.kept :: kept⟩

/-- Makes choices one after another, starting from combinations; `plain` are the problems without
any choice.  Gives the combinations that are left, and the members of all that were tried. -/
def choose : Nat → Option Node → List Text → Address → List Problem → List Branch → List Choice →
    Except (List Problem) (List Branch) × List (List Nat × List (Label × Node))
  | _, _, _, _, _, branches, [] => (.ok branches, [])
  | 0, _, path, _, _, _, _ :: _ => (.error (endless path), [])
  | n + 1, known, path, address, plain, branches, choice :: choices =>
    let marked := choice.alternatives.any Prod.fst
    let trials := branches.flatMap fun b => choice.alternatives.zipIdx.map fun ((mark, c), i) =>
      attempt n known path address b i (.ofMark marked mark) c
    let kept := trials.flatMap (·.kept)
    match Trial.survivors trials with
    | [] =>
      (.error (emptyChoice path plain (Trial.lastProblems choice.alternatives.length trials)), kept)
    | left =>
      let (result, more) := choose n known path address plain left choices
      (result, kept ++ more)

/-- The node at an address with given conjuncts. -/
def evaluate : Nat → Option Node → List Text → Address → List Conjunct → Node
  | 0, _, path, _, conjuncts => .mk conjuncts (.failed (endless path) (endless path)) [] []
  | n + 1, known, path, address, conjuncts =>
    let direct := Expansion.concat (conjuncts.map (Conjunct.parts path (address ++ [.branch []])))
    let whole := expand n known path address [] [] conjuncts
    let outcome := meet n known path address [] whole
    if whole.choices.isEmpty then
      let value := match onlyName? direct with
        | some place => outcome.value.through place
        | none => outcome.value
      .mk conjuncts value [] [([], outcome.members)]
    else
      let base : Branch := ⟨[], { whole with choices := [] }, .neutral, .neutral, outcome⟩
      let (result, kept) := choose n known path address outcome.value.brief [base] whole.choices
      let (value, chosen) := match result with
        | .error ps => (Value.failed ps ps, [])
        | .ok [b] => (b.outcome.value, b.chosen)
        | .ok bs =>
          match bs.filter (·.standing = .preferred) with
          | [b] => (b.outcome.value, b.chosen)
          | [] => (.ambiguous (bs.map (·.outcome.value)), [])
          | preferred => (.ambiguous (preferred.map (·.outcome.value)), [])
      .mk conjuncts value chosen (base.kept :: kept)

end

/-! ## Rounds -/

mutual

/-- The number of nodes of an expression. -/
def Expr.size : Expr → Nat
  | .literal _ _ | .faulty _ _ | .top _ | .bottom _ | .name _ _ => 1
  | .select _ e _ | .signed _ _ e | .limit _ _ e | .preferred _ e | .group _ e => Expr.size e + 1
  | .arithmetic _ l r | .meet l r | .either l r => Expr.size l + Expr.size r + 1
  | .struct _ ds => sizeOfDecls ds + 1
  | .list _ es tail => sizeOfItems es + sizeOfTail tail + 1

/-- The number of nodes of declarations. -/
def sizeOfDecls : List Decl → Nat
  | [] => 0
  | .field _ _ _ e :: ds => Expr.size e + 1 + sizeOfDecls ds
  | .embedded e :: ds => Expr.size e + 1 + sizeOfDecls ds
  | .faulty _ _ :: ds | .ellipsis :: ds => sizeOfDecls ds

/-- The number of nodes of items. -/
def sizeOfItems : List Expr → Nat
  | [] => 0
  | e :: es => Expr.size e + sizeOfItems es

/-- The number of nodes of a tail. -/
def sizeOfTail : Tail Expr → Nat
  | .each e => Expr.size e
  | .any | .closed => 0

end

/-- The size of sources. -/
def sizeOf (sources : List Expr) : Nat := (sources.map Expr.size).foldl (· + ·) 1

/-- A round: the root as it is evaluated from sources, given what the round before has found.  A
chain of steps goes down in an expression or through a name, so its length is bounded by the size of
the sources. -/
def round (sources : List Expr) (known : Option Node) : Node :=
  let size := sizeOf sources
  evaluate (16 * size * size + 64) known [] [] (sources.map fun e => ⟨e, {}⟩)

/-- Goes on with rounds, at most `limit` of them, until one finds nothing new. -/
def settle (sources : List Expr) : Nat → Node → Node
  | 0, node => node
  | limit + 1, node =>
    let next := round sources (some node)
    if next.agrees node then next else settle sources limit next

/-- The value of sources taken together.  A round finds at least one more thing that some name
depends on. -/
def unify (sources : List Expr) : Value :=
  (settle sources (sizeOf sources + 2) (round sources none)).value

end Config

end RepeatedAddition
