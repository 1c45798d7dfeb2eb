import RepeatedAddition.Config.Problem
import RepeatedAddition.Case
import RepeatedAddition.FileTree

/-!
# Loading layers

Settings come in layers: the schema, then files, then snippets given inline.  Every layer is read
and evaluated by itself first, so that what is wrong with one layer alone is said of that layer,
whatever the others hold.  Then all layers are taken together; the result must leave no data open,
and is turned into settings.

A file that does not exist is an error, except under the default path.

What a text says, what two layers say together and which data that leaves is a matter of the
language in which layers are written.  Loading does not look into it: it relies on what the language
does with texts and contents (`Language`), and is the same for every language.

* `LoadError`: the stage at which loading failed, with the problems found there.
* `Language`: what loading needs of a language.
* `Language.load`: the settings of files and snippets.
-/

namespace RepeatedAddition

/-- What the commands need to know. -/
structure Settings where
  method : Text
  maxDepth : UInt64
  concurrency : Int
  format : Text
  cases : List Case
  deriving DecidableEq, Repr

namespace Config

/-- Why settings could not be loaded. -/
inductive LoadError where
  | unreadable (path : Text) (fault : ReadFault)
  | broken (layer : Text) (problems : List Problem)
  | invalid (problems : List Problem)
  | undecodable (problems : List Problem)
  deriving DecidableEq, Repr

namespace LoadError

/-- The stage at which loading failed. -/
def stage : LoadError → Text
  | .unreadable path fault =>
    Text.lit "config: read " ++ path ++ Text.lit ": " ++ fault.message path
  | .broken layer _ => Text.lit "config: compile " ++ layer
  | .invalid _ => Text.lit "config: validate"
  | .undecodable _ => Text.lit "config: decode"

/-- The problems found, if the stage was one that looks into the layers. -/
def problems? : LoadError → Option (List Problem)
  | .unreadable _ _ => none
  | .broken _ ps | .invalid ps | .undecodable ps => some ps

/-- The error on one line. -/
def message (e : LoadError) : Text :=
  match e.problems? with
  | none => e.stage
  | some ps => e.stage ++ Text.lit ": " ++ Problem.summary ps

/-- The problems with their places. -/
def details (e : LoadError) : Text :=
  match e.problems? with
  | none => []
  | some ps => Problem.details ps

end LoadError

/-- The path that is read when none is given, and that need not exist. -/
def defaultPath : Text := Text.lit "addmul.cue"

/-- The name of the snippet with an index. -/
def snippetName (index : Nat) : Text := Text.lit "inline-" ++ Text.decimal index

/-- A language in which layers are written, as far as loading needs it.

* `Content`: what a layer says, or several layers together.
* `schema`: what the schema says.
* `compile`: the content of a text under a name, or what is wrong with it by itself.
* `unify`: what two contents say together.
* `validate`: the data of a content, if it leaves none open.
* `decode`: the settings that data describe. -/
structure Language where
  Content : Type
  Data : Type
  schema : Content
  compile (name text : Text) : Except (List Problem) Content
  unify (below above : Content) : Content
  validate (content : Content) : Except (List Problem) Data
  decode (data : Data) : Except (List Problem) Settings

namespace Language

variable (language : Language)

/-- The content of a layer; what is wrong with it is said of the layer. -/
def layer (name text : Text) : Except LoadError language.Content :=
  (language.compile name text).mapError (.broken name)

/-- The layer of a path, or none where the default path does not exist. -/
def fileLayer? (files : Files) (path : Text) : Except LoadError (Option language.Content) :=
  match files path with
  | .ok text => (language.layer path text).map some
  | .error fault =>
    if path = defaultPath && fault = .notFound then .ok none else .error (.unreadable path fault)

/-- The layers of paths, in order, up to the first that fails. -/
def fileLayers (files : Files) : List Text → Except LoadError (List language.Content)
  | [] => .ok []
  | path :: paths =>
    match language.fileLayer? files path with
    | .error e => .error e
    | .ok content => (fileLayers files paths).map (content.toList ++ ·)

/-- The layers of snippets from an index on, in order, up to the first that fails. -/
def snippetLayers : Nat → List Text → Except LoadError (List language.Content)
  | _, [] => .ok []
  | index, text :: texts =>
    match language.layer (snippetName index) text with
    | .error e => .error e
    | .ok content => (snippetLayers (index + 1) texts).map (content :: ·)

/-- All layers but the schema, in order, up to the first that fails. -/
def layers (files : Files) (paths snippets : List Text) :
    Except LoadError (List language.Content) :=
  match language.fileLayers files paths with
  | .error e => .error e
  | .ok below => (language.snippetLayers 0 snippets).map (below ++ ·)

/-- What layers say together, on top of the schema. -/
def unified (layers : List language.Content) : language.Content :=
  layers.foldl language.unify language.schema

/-- The settings of a content, with all data determined. -/
def settingsOf (content : language.Content) : Except LoadError Settings :=
  match language.validate content with
  | .error ps => .error (.invalid ps)
  | .ok data => (language.decode data).mapError .undecodable

/-- The settings of files and snippets. -/
def load (files : Files) (paths snippets : List Text) : Except LoadError Settings :=
  match language.layers files paths snippets with
  | .error e => .error e
  | .ok layers => language.settingsOf (language.unified layers)

end Language

end Config

end RepeatedAddition
