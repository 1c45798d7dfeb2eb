import RepeatedAddition.Failure
import RepeatedAddition.Proofs.LayerFailure

/-!
# Failures inside contexts

A failure is printed as a line and then the configuration problems behind it, each with its places.
The line is that of the outermost context, while the problems stand at the bottom, behind all
contexts.  Here the two are followed through any number of contexts: the line grows at its front,
and the problems stay what they were.

The problems are looked for from the outside, context by context.  `Failure.causes` lists what is
passed on the way, and at most one of the causes holds problems, so none are shown twice.

* `Failure.text_inContexts`: contexts are put before the text of a failure, and change nothing
  behind.
* `Failure.filterMap_ownProblems?`: among all causes the problems are held once.
* `Config.problems?_eq_none_iff`: an error of loading holds no problems exactly if a file could not
  be read.
* `Failure.wrapped_text`: what is printed of plain failures and of errors of loading, inside any
  contexts.
-/

namespace RepeatedAddition

namespace Failure

/-! ## Contexts, one by one -/

/-- What contexts put before the line of a failure, the outermost first. -/
def contextText (contexts : List Text) : Text :=
  contexts.reverse.flatMap fun w => w ++ Text.lit ": "

theorem contextText_cons (w : Text) (contexts : List Text) :
    contextText (w :: contexts) = contextText contexts ++ (w ++ Text.lit ": ") := by
  rw [contextText, List.reverse_cons, List.flatMap_append, List.flatMap_singleton]
  rfl

theorem inContexts_cons (f : Failure) (w : Text) (contexts : List Text) :
    f.inContexts (w :: contexts) = (within w f).inContexts contexts := List.foldl_cons ..

theorem message_inContexts (f : Failure) (contexts : List Text) :
    (f.inContexts contexts).message = contextText contexts ++ f.message := by
  induction contexts generalizing f with
  | nil => rfl
  | cons w contexts ih =>
    have hwithin : (within w f).message = w ++ Text.lit ": " ++ f.message := rfl
    rw [inContexts_cons, ih, hwithin, contextText_cons, List.append_assoc (contextText contexts)]

theorem problems?_inContexts (f : Failure) (contexts : List Text) :
    (f.inContexts contexts).problems? = f.problems? := by
  induction contexts generalizing f with
  | nil => rfl
  | cons w contexts ih =>
    rw [inContexts_cons, ih]
    rfl

theorem details_inContexts (f : Failure) (contexts : List Text) :
    (f.inContexts contexts).details = f.details := by
  rw [details, details, problems?_inContexts]

/-- **Contexts are put before the text of a failure, and change nothing behind.** -/
theorem text_inContexts (f : Failure) (contexts : List Text) :
    (f.inContexts contexts).text = contextText contexts ++ f.text := by
  rw [text, text, message_inContexts, details_inContexts, List.append_assoc, List.append_assoc,
    List.append_assoc]

/-! ## Causes -/

/-- A failure and what it is around, from the outside. -/
def causes : Failure → List Failure
  | within context cause => within context cause :: cause.causes
  | f => [f]

/-- The problems that a failure holds itself. -/
def ownProblems? : Failure → Option (List Config.Problem)
  | config error => error.problems?
  | _ => none

/-- **Among all causes of a failure the problems are held once**, or not at all. -/
theorem filterMap_ownProblems? (f : Failure) :
    f.causes.filterMap ownProblems? = f.problems?.toList := by
  induction f with
  | within context cause ih => rw [causes, List.filterMap_cons_none rfl, ih, problems?]
  | config error =>
    have hcauses : (config error).causes = [config error] := rfl
    rw [hcauses]
    cases hown : (config error).ownProblems? with
    | none =>
      have hproblems : (config error).problems? = none := hown
      rw [List.filterMap_cons_none hown, hproblems]
      rfl
    | some ps =>
      have hproblems : (config error).problems? = some ps := hown
      rw [List.filterMap_cons_some hown, hproblems]
      rfl
  | _ => rfl

theorem filterMap_ownProblems?_inContexts (f : Failure) (contexts : List Text) :
    (f.inContexts contexts).causes.filterMap ownProblems? = f.problems?.toList := by
  rw [filterMap_ownProblems?, problems?_inContexts]

/-- Nothing stands behind the line of a failure without problems. -/
theorem text_of_problems?_eq_none {f : Failure} (h : f.problems? = none) :
    f.text = f.message ++ Text.lit "\n" := by
  have hdetails : f.details = [] := by rw [details, h]
  rw [text, hdetails, List.append_nil]

end Failure

/-! ## Errors of loading -/

namespace Config

variable {files : Files} {paths snippets : List Text} {e : LoadError}

/-- **An error of loading holds no problems exactly if a file could not be read.** -/
theorem problems?_eq_none_iff (h : load files paths snippets = .error e) :
    e.problems? = none ↔
      ∃ path ∈ paths, ∃ fault, files path = .error fault ∧ e = .unreadable path fault := by
  constructor
  · intro hnone
    rw [load, Language.load, Language.layers_eq_contents] at h
    split at h
    next e' hlayers =>
      obtain rfl := Except.error.inj h
      obtain ⟨l, hl, hfails⟩ := Language.exists_fails_of_contents hlayers
      cases hfails with
      | @unreadable path fault hread hother =>
        refine ⟨path, ?_, fault, hread, rfl⟩
        simpa [layersOf, List.mem_mapIdx] using hl
      | broken => cases hnone
    next =>
      obtain ⟨ps, hsome⟩ := Language.exists_problems_of_settingsOf h
      cases hnone.symm.trans hsome
  · rintro ⟨path, -, fault, -, rfl⟩
    rfl

end Config

namespace Failure

open Config

/-- **Contexts only put their texts before the line of a failure.**  The failure is a plain one, or
an error of loading any files and snippets, and it is put into any contexts.  What is printed is
what would be printed of it without them, behind the contexts, the outermost first.  What stands
behind the line are the details of the error, and of all causes the problems that they are about are
held by one only.  A plain failure holds no problems, and an error of loading holds none exactly if
it is that some file could not be read; then nothing stands behind the line. -/
theorem wrapped_text (contexts : List Text) :
    (∀ message,
      ((plain message).inContexts contexts).text = contextText contexts ++ (plain message).text ∧
      (plain message).text = message ++ Text.lit "\n" ∧
      ((plain message).inContexts contexts).causes.filterMap ownProblems? = []) ∧
    ∀ files paths snippets e, load files paths snippets = .error e →
      ((config e).inContexts contexts).text = contextText contexts ++ (config e).text ∧
      (config e).text = e.message ++ Text.lit "\n" ++ e.details ∧
      ((config e).inContexts contexts).causes.filterMap ownProblems? = e.problems?.toList ∧
      (e.problems? = none ↔ ∃ path ∈ paths, ∃ fault, files path = .error fault ∧
        e = .unreadable path fault) ∧
      (e.problems? = none → (config e).text = e.message ++ Text.lit "\n") := by
  refine ⟨fun message => ?_, fun files paths snippets e hload => ?_⟩
  · exact ⟨text_inContexts _ _, text_of_problems?_eq_none rfl,
      filterMap_ownProblems?_inContexts _ _⟩
  · exact ⟨text_inContexts _ _, rfl, filterMap_ownProblems?_inContexts _ _,
      problems?_eq_none_iff hload, fun hnone => text_of_problems?_eq_none hnone⟩

/-- A snippet that speaks of a field that is not there. -/
def danglingSnippet : Text := Text.lit "maxDepth: n"

/-- What is wrong with it. -/
def danglingProblem : Problem :=
  ⟨[Text.lit "maxDepth"], Text.lit "reference \"n\" not found",
    some ⟨Text.lit "inline-0", 1, 11⟩, []⟩

theorem details_danglingProblem :
    Problem.details [danglingProblem] =
      Text.lit "maxDepth: reference \"n\" not found:\n    inline-0:1:11\n" := by
  have harranged : Problem.arranged [danglingProblem] = [danglingProblem] := by
    rw [Problem.arranged, List.mergeSort_singleton]
    rfl
  have hplaces : danglingProblem.places = [⟨Text.lit "inline-0", 1, 11⟩] := by
    simp [Problem.places, danglingProblem]
  rw [Problem.details, harranged, List.flatMap_singleton, Problem.detail, hplaces]
  decide

/-- A snippet that does not compile is printed with details, and a file that cannot be read without
any. -/
theorem wrapped_text_of_dangling_and_missing :
    (∃ e, load (fun _ => .error .notFound) [] [danglingSnippet] = .error e ∧
      ((config e).inContexts [Text.lit "inner", Text.lit "outer"]).text =
        Text.lit "outer: inner: config: compile inline-0: maxDepth: reference \"n\" not found\n" ++
          Text.lit "maxDepth: reference \"n\" not found:\n    inline-0:1:11\n") ∧
    ∃ e, load (fun _ => .error .notFound) [Text.lit "a.cue"] [] = .error e ∧
      ((config e).inContexts [Text.lit "inner", Text.lit "outer"]).text =
        Text.lit "outer: inner: config: read a.cue: open a.cue: no such file or directory\n" := by
  have hcontexts : contextText [Text.lit "inner", Text.lit "outer"] =
      Text.lit "outer: inner: " := by decide
  have hwrapped := (wrapped_text [Text.lit "inner", Text.lit "outer"]).2
  constructor
  · have hload : load (fun _ => .error .notFound) [] [danglingSnippet] =
        .error (.broken (Text.lit "inline-0") [danglingProblem]) := by
      decide +kernel
    obtain ⟨htext, hparts, -⟩ := hwrapped _ _ _ _ hload
    have hdetails : (LoadError.broken (Text.lit "inline-0") [danglingProblem]).details =
        Text.lit "maxDepth: reference \"n\" not found:\n    inline-0:1:11\n" :=
          details_danglingProblem
    refine ⟨_, hload, ?_⟩
    rw [htext, hparts, hdetails, hcontexts]
    decide
  · have hload : load (fun _ => .error .notFound) [Text.lit "a.cue"] [] =
        .error (.unreadable (Text.lit "a.cue") .notFound) := rfl
    refine ⟨_, hload, ?_⟩
    rw [(hwrapped _ _ _ _ hload).1, hcontexts]
    rfl

end Failure

end RepeatedAddition
