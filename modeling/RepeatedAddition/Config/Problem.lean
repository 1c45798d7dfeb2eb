import RepeatedAddition.Text.Basic

/-!
# Problems of a configuration

What is wrong with a configuration is said about a field, named by its path, and points at places in
the sources.  A place that decides comes first, the others follow in the order of the sources.

Several problems are shown in a fixed order, so that the order in which they were found does not
matter: those without a deciding place first, then by place, by path and by text; the same thing is
said once.

* `Problem.summary`: all problems on one line.
* `Problem.details`: each problem with its places, a line each.
-/

namespace RepeatedAddition

namespace Config

/-- A place in a source: lines and columns count from one, columns in bytes. -/
structure Position where
  source : Text
  line : Nat
  column : Nat
  deriving DecidableEq, Repr

/-- The text of a place. -/
def Position.text (p : Position) : Text :=
  p.source ++ Text.lit ":" ++ Text.decimal p.line ++ Text.lit ":" ++ Text.decimal p.column

/-- The order of texts, byte by byte. -/
def textOrder (a b : Text) : Ordering := compareOfLessAndEq a b

/-- The order of places: by source, then from the beginning to the end. -/
def Position.order (p q : Position) : Ordering :=
  (textOrder p.source q.source).then ((compare p.line q.line).then (compare p.column q.column))

/-- Something wrong with the field at a path, which is given by the texts of its labels. -/
structure Problem where
  path : List Text
  message : Text
  decisive : Option Position := none
  related : List Position := []
  deriving DecidableEq, Repr

namespace Problem

/-- The path of a problem in one text. -/
def pathText (p : Problem) : Text := Text.joined (Text.lit ".") p.path

/-- A problem on one line. -/
def line (p : Problem) : Text :=
  if p.path.isEmpty then p.message else p.pathText ++ Text.lit ": " ++ p.message

/-- The places of a problem: the deciding one, then the others in order, none twice. -/
def places (p : Problem) : List Position :=
  let others := p.related.filter fun q => some q ≠ p.decisive
  p.decisive.toList ++ (others.mergeSort fun a b => (a.order b).isLE).eraseDups

/-- The order of deciding places, no place being first. -/
def decisiveOrder : Option Position → Option Position → Ordering
  | none, none => .eq
  | none, some _ => .lt
  | some _, none => .gt
  | some p, some q => p.order q

/-- The order of paths, step by step. -/
def pathOrder : List Text → List Text → Ordering
  | [], [] => .eq
  | [], _ :: _ => .lt
  | _ :: _, [] => .gt
  | a :: as, b :: bs => (textOrder a b).then (pathOrder as bs)

/-- The order in which problems are shown. -/
def order (p q : Problem) : Ordering :=
  (decisiveOrder p.decisive q.decisive).then
    ((pathOrder p.path q.path).then (textOrder p.message q.message))

/-- Whether two problems say the same thing: at the same deciding place about the same path, or,
where one of them has no such place, in the same words. -/
def agrees (p q : Problem) : Bool :=
  match p.decisive, q.decisive with
  | some a, some b => a = b && p.path = q.path
  | _, _ => p.line = q.line

/-- Drops every problem that says the same thing as the one kept before it. -/
def compact : List Problem → List Problem
  | [] => []
  | p :: ps => go p ps
where
  /-- Goes on behind a problem that is kept. -/
  go (kept : Problem) : List Problem → List Problem
    | [] => [kept]
    | q :: qs => if kept.agrees q then go kept qs else kept :: go q qs

/-- The problems in the order in which they are shown, each thing said once. -/
def arranged (ps : List Problem) : List Problem :=
  compact (ps.mergeSort fun p q => (p.order q).isLE)

/-- The first problem on one line, with the number of the others. -/
def summary : List Problem → Text
  | [] => []
  | [p] => p.line
  | p :: ps => p.line ++ Text.lit " (and " ++ Text.decimal ps.length ++ Text.lit " more errors)"

/-- A problem with its places, a line each. -/
def detail (p : Problem) : Text :=
  if p.places.isEmpty then p.line ++ Text.lit "\n"
  else
    p.line ++ Text.lit ":\n" ++ p.places.flatMap fun q => Text.lit "    " ++ q.text ++ Text.lit "\n"

/-- All problems with their places. -/
def details (ps : List Problem) : Text := (arranged ps).flatMap detail

end Problem

end Config

end RepeatedAddition
