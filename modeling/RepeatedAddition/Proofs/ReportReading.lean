import Mathlib.Data.List.Forall2
import RepeatedAddition.Report.Document
import RepeatedAddition.Proofs.JsonLayout

/-!
# Reading a report back

What a report says is stated here once more, of the document and not of how it is made: which keys
its objects have, in which order, and what stands under each of them.  This pins the report down: a
document describes one report only, but for the instant of its start, of which a document has the
text.

Together with the one reading of a document (`Json.document_text_iff`) it follows that a report is
read back from its JSON text, with the replacement character for each byte of its texts that belongs
to no character.

* `Report.DescribedBy`: what a document says of a report.
* `Report.DescribedBy.unique`: a document describes one report only.
* `Report.repaired`: a report with all its texts repaired.
* `Report.json_reads_back`: the reading of the JSON text of a report.
-/

namespace RepeatedAddition

namespace Json

/-- The keys of an object, in order. -/
def keys : Json → List Text
  | .object members => members.map Prod.fst
  | _ => []

/-- What an object has under a key. -/
def get? (d : Json) (key : String) : Option Json :=
  match d with
  | .object members => members.lookup (Text.lit key)
  | _ => none

end Json

/-! ## What documents say -/

/-- The keys that are there under a condition. -/
def keyIf (present : Bool) (key : String) : List String := if present then [key] else []

/-- A document says how a run was configured, with the text of its start. -/
structure Metadata.DescribedBy (m : Metadata) (startedAt : Text) (d : Json) : Prop where
  keys : d.keys = ["methods", "maxDepth", "concurrency", "startedAt", "duration"].map Text.lit
  methods : d.get? "methods" = some (m.methods.elim .null fun ms => .array (ms.map .string))
  maxDepth : d.get? "maxDepth" = some (.number m.maxDepth.toNat)
  concurrency : d.get? "concurrency" = some (.number m.concurrency)
  startedAt : d.get? "startedAt" = some (.string startedAt)
  duration : d.get? "duration" = some (.string m.duration)

/-- A document says what came of a case.  Products that are absent and a reason that is empty have
no key. -/
structure Outcome.DescribedBy (o : Outcome) (d : Json) : Prop where
  keys : d.keys =
    (["x", "y"] ++ keyIf o.expected.isSome "expected" ++ keyIf o.iterative.isSome "iterative" ++
      keyIf o.recursive.isSome "recursive" ++ ["wrapped", "status"] ++
      keyIf (o.reason ≠ []) "reason").map Text.lit
  x : d.get? "x" = some (.number o.x.toNat)
  y : d.get? "y" = some (.number o.y.toNat)
  expected : d.get? "expected" = o.expected.map fun w => .number w.toNat
  iterative : d.get? "iterative" = o.iterative.map fun w => .number w.toNat
  recursive : d.get? "recursive" = o.recursive.map fun w => .number w.toNat
  wrapped : d.get? "wrapped" = some (.bool o.wrapped)
  status : d.get? "status" = some (.string o.status.label)
  reason : d.get? "reason" = if o.reason = [] then none else some (.string o.reason)

/-- A document says the totals of a report. -/
structure Totals.DescribedBy (t : Totals) (d : Json) : Prop where
  keys : d.keys = ["cases", "ok", "mismatches", "skipped", "wrapped"].map Text.lit
  cases : d.get? "cases" = some (.number t.cases)
  ok : d.get? "ok" = some (.number t.ok)
  mismatches : d.get? "mismatches" = some (.number t.mismatches)
  skipped : d.get? "skipped" = some (.number t.skipped)
  wrapped : d.get? "wrapped" = some (.number t.wrapped)

/-- A document says what came of some cases: `null` if there are none, else all of them in order. -/
def Outcome.AllDescribedBy (os : List Outcome) (d : Json) : Prop :=
  os = [] ∧ d = .null ∨ os ≠ [] ∧ ∃ ds, d = .array ds ∧ List.Forall₂ Outcome.DescribedBy os ds

/-- A document says all that a report does, with the text of its start. -/
structure Report.DescribedBy (r : Report) (startedAt : Text) (d : Json) : Prop where
  keys : d.keys = ["metadata", "outcomes", "totals"].map Text.lit
  metadata : ∃ v, d.get? "metadata" = some v ∧ r.metadata.DescribedBy startedAt v
  outcomes : ∃ v, d.get? "outcomes" = some v ∧ Outcome.AllDescribedBy r.outcomes v
  totals : ∃ v, d.get? "totals" = some v ∧ r.totals.DescribedBy v

/-! ## The documents that are made -/

theorem describedBy_metadataDocument (m : Metadata) (startedAt : Text) :
    m.DescribedBy startedAt (Report.metadataDocument m startedAt) where
  keys := rfl
  methods := by
    obtain ⟨methods, _⟩ := m
    cases methods <;> rfl
  maxDepth := rfl
  concurrency := rfl
  startedAt := rfl
  duration := rfl

theorem describedBy_totalsDocument (t : Totals) : t.DescribedBy (Report.totalsDocument t) where
  keys := rfl
  cases := rfl
  ok := rfl
  mismatches := rfl
  skipped := rfl
  wrapped := rfl

theorem describedBy_outcomeDocument (o : Outcome) : o.DescribedBy (Report.outcomeDocument o) := by
  obtain ⟨x, y, expected, iterative, recursive, wrapped, status, reason⟩ := o
  cases expected <;> cases iterative <;> cases recursive <;> cases reason <;> constructor <;> rfl

theorem allDescribedBy_outcomesDocument (os : List Outcome) :
    Outcome.AllDescribedBy os (Report.outcomesDocument os) := by
  cases os with
  | nil => exact Or.inl ⟨rfl, rfl⟩
  | cons o os =>
    refine Or.inr ⟨List.cons_ne_nil o os, _, rfl, ?_⟩
    exact List.forall₂_map_right_iff.mpr (List.forall₂_same.mpr fun o _ =>
      describedBy_outcomeDocument o)

theorem describedBy_documentAt (r : Report) (startedAt : Text) :
    r.DescribedBy startedAt (r.documentAt startedAt) where
  keys := rfl
  metadata := ⟨_, rfl, describedBy_metadataDocument r.metadata startedAt⟩
  outcomes := ⟨_, rfl, allDescribedBy_outcomesDocument r.outcomes⟩
  totals := ⟨_, rfl, describedBy_totalsDocument r.totals⟩

/-! ## A document describes one report -/

/-- A word is known from its number. -/
theorem word_inj {w w' : UInt64} (h : Json.number w.toNat = Json.number w'.toNat) : w = w' :=
  UInt64.toNat_inj.mp (Int.ofNat.inj (Json.number.inj h))

theorem string_injective : Function.Injective Json.string := fun _ _ => Json.string.inj

theorem methods_inj {a b : Option (List Text)}
    (h : (a.elim Json.null fun ms => .array (ms.map .string)) =
      b.elim .null fun ms => .array (ms.map .string)) :
    a = b := by
  rcases a with _ | ms <;> rcases b with _ | ms'
  · rfl
  · cases h
  · cases h
  · rw [List.map_injective_iff.mpr string_injective (Json.array.inj h)]

/-- Descriptions of one run agree, but for the instant of its start. -/
theorem Metadata.DescribedBy.unique {m m' : Metadata} {s s' : Text} {d : Json}
    (h : m.DescribedBy s d) (h' : m'.DescribedBy s' d) :
    s = s' ∧ m' = { m with startedAt := m'.startedAt } := by
  have hmethods := methods_inj (Option.some.inj (h.methods.symm.trans h'.methods))
  have hdepth := word_inj (Option.some.inj (h.maxDepth.symm.trans h'.maxDepth))
  have hconcurrency := Json.number.inj (Option.some.inj (h.concurrency.symm.trans h'.concurrency))
  have hduration := Json.string.inj (Option.some.inj (h.duration.symm.trans h'.duration))
  refine ⟨Json.string.inj (Option.some.inj (h.startedAt.symm.trans h'.startedAt)), ?_⟩
  rw [hmethods, hdepth, hconcurrency, hduration]

theorem Outcome.DescribedBy.unique {o o' : Outcome} {d : Json} (h : o.DescribedBy d)
    (h' : o'.DescribedBy d) :
    o = o' := by
  have hword : Function.Injective fun w : UInt64 => Json.number w.toNat := fun _ _ => word_inj
  have hx := word_inj (Option.some.inj (h.x.symm.trans h'.x))
  have hy := word_inj (Option.some.inj (h.y.symm.trans h'.y))
  have hexpected := Option.map_injective hword (h.expected.symm.trans h'.expected)
  have hiterative := Option.map_injective hword (h.iterative.symm.trans h'.iterative)
  have hrecursive := Option.map_injective hword (h.recursive.symm.trans h'.recursive)
  have hwrapped := Json.bool.inj (Option.some.inj (h.wrapped.symm.trans h'.wrapped))
  have hstatus := Json.string.inj (Option.some.inj (h.status.symm.trans h'.status))
  have hreason : o.reason = o'.reason := by
    have heq := h.reason.symm.trans h'.reason
    split at heq <;> split at heq
    · simp_all
    · cases heq
    · cases heq
    · exact Json.string.inj (Option.some.inj heq)
  obtain ⟨x, y, expected, iterative, recursive, wrapped, ⟨label⟩, reason⟩ := o
  obtain ⟨x', y', expected', iterative', recursive', wrapped', ⟨label'⟩, reason'⟩ := o'
  subst hx hy hexpected hiterative hrecursive hwrapped hstatus hreason
  rfl

theorem Totals.DescribedBy.unique {t t' : Totals} {d : Json} (h : t.DescribedBy d)
    (h' : t'.DescribedBy d) :
    t = t' := by
  have hnumber : ∀ {m n : Nat}, some (Json.number m) = some (Json.number n) → m = n := fun heq =>
    Int.ofNat.inj (Json.number.inj (Option.some.inj heq))
  have hcases := hnumber (h.cases.symm.trans h'.cases)
  have hok := hnumber (h.ok.symm.trans h'.ok)
  have hmismatches := hnumber (h.mismatches.symm.trans h'.mismatches)
  have hskipped := hnumber (h.skipped.symm.trans h'.skipped)
  have hwrapped := hnumber (h.wrapped.symm.trans h'.wrapped)
  cases t
  cases t'
  subst hcases hok hmismatches hskipped hwrapped
  rfl

theorem Outcome.AllDescribedBy.unique {os os' : List Outcome} {d : Json}
    (h : Outcome.AllDescribedBy os d) (h' : Outcome.AllDescribedBy os' d) : os = os' := by
  rcases h with ⟨rfl, rfl⟩ | ⟨-, ds, rfl, hall⟩ <;> rcases h' with ⟨rfl, hd⟩ | ⟨-, ds', hd, hall'⟩
  · rfl
  · cases hd
  · cases hd
  · obtain rfl := Json.array.inj hd
    have hunique : Relator.LeftUnique Outcome.DescribedBy := fun _ _ _ h h' => h.unique h'
    exact List.left_unique_forall₂' hunique hall hall'

/-- **A document describes one report only**, but for the instant of its start. -/
theorem Report.DescribedBy.unique {r r' : Report} {s s' : Text} {d : Json} (h : r.DescribedBy s d)
    (h' : r'.DescribedBy s' d) :
    s = s' ∧
      r' = { r with metadata := { r.metadata with startedAt := r'.metadata.startedAt } } := by
  obtain ⟨v, hv, hmetadata⟩ := h.metadata
  obtain ⟨v', hv', hmetadata'⟩ := h'.metadata
  obtain ⟨w, hw, houtcomes⟩ := h.outcomes
  obtain ⟨w', hw', houtcomes'⟩ := h'.outcomes
  obtain ⟨u, hu, htotals⟩ := h.totals
  obtain ⟨u', hu', htotals'⟩ := h'.totals
  obtain rfl := Option.some.inj (hv.symm.trans hv')
  obtain rfl := Option.some.inj (hw.symm.trans hw')
  obtain rfl := Option.some.inj (hu.symm.trans hu')
  obtain ⟨hs, hm⟩ := hmetadata.unique hmetadata'
  refine ⟨hs, ?_⟩
  rw [← hm, houtcomes.unique houtcomes', htotals.unique htotals']

/-! ## Repaired reports -/

/-- The description of a run with its texts repaired. -/
def Metadata.repaired (m : Metadata) : Metadata :=
  { m with methods := m.methods.map (·.map Utf8.repaired), duration := Utf8.repaired m.duration }

/-- The outcome with its texts repaired. -/
def Outcome.repaired (o : Outcome) : Outcome :=
  { o with status := ⟨Utf8.repaired o.status.label⟩, reason := Utf8.repaired o.reason }

namespace Report

/-- The report with the replacement character for each stray byte of its texts. -/
def repaired (r : Report) : Report :=
  { r with metadata := r.metadata.repaired, outcomes := r.outcomes.map Outcome.repaired }

/-- The texts of a report. -/
def texts (r : Report) : List Text :=
  r.metadata.methods.getD [] ++ r.metadata.duration :: r.outcomes.flatMap fun o =>
    [o.status.label, o.reason]

/-- All texts of a report are texts of characters. -/
def ValidTexts (r : Report) : Prop := ∀ t ∈ r.texts, Utf8.Valid t

theorem map_repaired {ts : List Text} (h : ∀ t ∈ ts, Utf8.Valid t) : ts.map Utf8.repaired = ts := by
  have hsame : ts.map Utf8.repaired = ts.map id := List.map_congr_left fun t ht =>
    Utf8.repaired_of_valid (h t ht)
  rw [hsame, List.map_id]

/-- A report of valid texts has nothing to be repaired. -/
theorem repaired_of_validTexts {r : Report} (h : r.ValidTexts) : r.repaired = r := by
  obtain ⟨⟨methods, maxDepth, concurrency, startedAt, duration⟩, outcomes, totals⟩ := r
  simp only [ValidTexts, texts, List.mem_append, List.mem_cons, List.mem_flatMap, or_imp,
    forall_and, forall_eq] at h
  obtain ⟨hmethods, hduration, houtcomes⟩ := h
  have hmethods : methods.map (·.map Utf8.repaired) = methods := by
    cases methods with
    | none => rfl
    | some ms => exact congrArg some (map_repaired hmethods)
  have houtcomes : outcomes.map Outcome.repaired = outcomes := by
    have hsame : outcomes.map Outcome.repaired = outcomes.map id := by
      refine List.map_congr_left fun o ho => ?_
      have hstatus := Utf8.repaired_of_valid (houtcomes o.status.label ⟨o, ho, by simp⟩)
      have hreason := Utf8.repaired_of_valid (houtcomes o.reason ⟨o, ho, by simp⟩)
      rw [Outcome.repaired, hstatus, hreason]
      rfl
    rw [hsame, List.map_id]
  rw [repaired, Metadata.repaired, hmethods, Utf8.repaired_of_valid hduration, houtcomes]

/-! ### Repaired documents -/

theorem repaired_methodsDocument (methods : Option (List Text)) :
    (methodsDocument methods).repaired = methodsDocument (methods.map (·.map Utf8.repaired)) := by
  cases methods with
  | none => rfl
  | some ms =>
    simp [methodsDocument, Json.repaired, Json.repairedItems_eq_map, Json.ofText, Function.comp_def]

theorem repaired_metadataDocument (m : Metadata) (startedAt : Text) :
    (metadataDocument m startedAt).repaired =
      metadataDocument m.repaired (Utf8.repaired startedAt) := by
  simp only [metadataDocument, Json.repaired, Json.repairedMembers, repaired_methodsDocument]
  rfl

theorem repairedMembers_wordMember? (key : String) (h : Utf8.repaired (Text.lit key) = Text.lit key)
    (w : Option UInt64) :
    Json.repairedMembers (Json.wordMember? key w) = Json.wordMember? key w := by
  cases w with
  | none => rfl
  | some w => rw [Json.wordMember?, Json.repairedMembers, h]; rfl

theorem repaired_outcomeDocument (o : Outcome) :
    (outcomeDocument o).repaired = outcomeDocument o.repaired := by
  have hreason : (Utf8.repaired o.reason).isEmpty = o.reason.isEmpty := by
    rw [Bool.eq_iff_iff, List.isEmpty_iff, List.isEmpty_iff, Utf8.repaired_eq_nil_iff]
  have hexpected := repairedMembers_wordMember? "expected" rfl o.expected
  have hiterative := repairedMembers_wordMember? "iterative" rfl o.iterative
  have hrecursive := repairedMembers_wordMember? "recursive" rfl o.recursive
  simp only [outcomeDocument, Outcome.repaired, Json.repaired, Json.repairedMembers_append,
    hexpected, hiterative, hrecursive, hreason]
  split <;> rfl

theorem repaired_outcomesDocument (os : List Outcome) :
    (outcomesDocument os).repaired = outcomesDocument (os.map Outcome.repaired) := by
  cases os with
  | nil => rfl
  | cons o os =>
    have hitems : ((o :: os).map outcomeDocument).map Json.repaired =
        ((o :: os).map Outcome.repaired).map outcomeDocument := by
      rw [List.map_map, List.map_map]
      exact List.map_congr_left fun o _ => repaired_outcomeDocument o
    rw [← Json.repairedItems_eq_map] at hitems
    exact congrArg Json.array hitems

theorem repaired_documentAt (r : Report) (startedAt : Text) :
    (r.documentAt startedAt).repaired = r.repaired.documentAt (Utf8.repaired startedAt) := by
  simp only [documentAt, Json.repaired, Json.repairedMembers, repaired_metadataDocument,
    repaired_outcomesDocument]
  rfl

end Report

/-! ## The text of a start -/

namespace Timestamp

theorem ascii_of_digits {t : Text} (h : t.Digits) : Utf8.Ascii t := by
  intro b hb
  have hrange := Text.isDigit_iff.mp (h b hb)
  omega

theorem ascii_fraction (width n : Nat) : Utf8.Ascii (Duration.fraction width n) := by
  intro b hb
  rcases Duration.isDigit_of_mem_fraction hb with rfl | hdigit
  · decide
  · have hrange := Text.isDigit_iff.mp hdigit
    omega

theorem ascii_zoneText (t : Timestamp) : Utf8.Ascii t.zoneText := by
  have hdecimal : ∀ n, Utf8.Ascii (Text.paddedDecimal 2 n) := fun n =>
    ascii_of_digits (Text.digits_paddedDecimal 2 n)
  unfold zoneText
  split
  · decide
  · simp only [Utf8.ascii_append]
    refine ⟨⟨⟨?_, hdecimal _⟩, by decide⟩, hdecimal _⟩
    split <;> decide

/-- **The text of a start is read back as it is.** -/
theorem repaired_layout (t : Timestamp) : Utf8.repaired t.layout = t.layout := by
  have hdecimal : ∀ width n, Utf8.Ascii (Text.paddedDecimal width n) := fun width n =>
    ascii_of_digits (Text.digits_paddedDecimal width n)
  have hbar : Utf8.Ascii (Text.lit "-") := by decide
  have hletter : Utf8.Ascii (Text.lit "T") := by decide
  have hcolon : Utf8.Ascii (Text.lit ":") := by decide
  apply Utf8.repaired_of_valid
  apply Utf8.valid_of_ascii
  simp only [layout, Utf8.ascii_append, hdecimal, hbar, hletter, hcolon, ascii_fraction,
    ascii_zoneText, and_self]

theorem eq_layout_of_text {t : Timestamp} {s : Text} (h : t.text = .ok s) : s = t.layout := by
  unfold text at h
  split at h
  · cases h
  split at h
  · cases h
  · exact (Except.ok.inj h).symm

end Timestamp

namespace Report

/-- What is written of a report. -/
theorem json_eq_ok_iff {r : Report} {t : Text} :
    r.json = .ok t ↔ ∃ startedAt, r.metadata.startedAt.text = .ok startedAt ∧
      t = (r.documentAt startedAt).text ++ Text.lit "\n" := by
  rw [json, document?]
  cases r.metadata.startedAt.text with
  | error fault => exact ⟨nofun, fun ⟨_, hs, _⟩ => absurd hs nofun⟩
  | ok startedAt =>
    constructor
    · intro h
      exact ⟨startedAt, rfl, (Except.ok.inj h).symm⟩
    · rintro ⟨s, hs, rfl⟩
      obtain rfl := Except.ok.inj hs
      rfl

/-- The one reading of the document of a report. -/
theorem document_iff (r : Report) {startedAt : Text} (h : r.metadata.startedAt.text = .ok startedAt)
    (d : Json) :
    Json.Grammar.Document (r.documentAt startedAt).text d ↔
      d = r.repaired.documentAt startedAt := by
  rw [Json.document_text_iff, repaired_documentAt, Timestamp.eq_layout_of_text h,
    Timestamp.repaired_layout]

/-- **A report is read back from its JSON text.**  The text is one document and a line end; by the
grammar the document has one reading, and this describes the report, its texts repaired.  So a
report of valid texts is known from its JSON text, but for the instant of its start, of which the
text is known. -/
theorem json_reads_back (r : Report) (t : Text) (h : r.json = .ok t) :
    ∃ startedAt body document,
      r.metadata.startedAt.text = .ok startedAt ∧
      t = body ++ Text.lit "\n" ∧
      (∀ d, Json.Grammar.Document body d ↔ d = document) ∧
      r.repaired.DescribedBy startedAt document ∧
      ∀ r' : Report, r'.json = .ok t →
        r'.metadata.startedAt.text = .ok startedAt ∧
        (r.ValidTexts → r'.ValidTexts →
          r' = { r with metadata := { r.metadata with startedAt := r'.metadata.startedAt } }) := by
  obtain ⟨startedAt, hstart, ht⟩ := json_eq_ok_iff.mp h
  have hread := r.document_iff hstart
  have hdescribed := describedBy_documentAt r.repaired startedAt
  refine ⟨startedAt, (r.documentAt startedAt).text, _, hstart, ht, hread, hdescribed,
    fun r' h' => ?_⟩
  obtain ⟨startedAt', hstart', ht'⟩ := json_eq_ok_iff.mp h'
  have hbody : (r'.documentAt startedAt').text = (r.documentAt startedAt).text :=
    List.append_cancel_right (ht'.symm.trans ht)
  have hread' := (r'.document_iff hstart' _).mpr rfl
  rw [hbody] at hread'
  have hdocument : r'.repaired.documentAt startedAt' = r.repaired.documentAt startedAt :=
    (hread _).mp hread'
  have hdescribed' := describedBy_documentAt r'.repaired startedAt'
  rw [hdocument] at hdescribed'
  obtain ⟨rfl, hreport⟩ := hdescribed.unique hdescribed'
  refine ⟨hstart', fun hvalid hvalid' => ?_⟩
  rw [repaired_of_validTexts hvalid, repaired_of_validTexts hvalid'] at hreport
  exact hreport

/-- A report whose texts are not all valid, with a product of zero beside one that is absent. -/
def zeroProduct : Report :=
  (empty.describe { methods := some [], concurrency := 1 }).add
    { x := 0, y := 7, iterative := some 0, status := .skipped, reason := [60, 255] }

/-- The JSON text of `zeroProduct`. -/
def zeroProductText : Text :=
  Text.lit "\x7b\n  \"metadata\": \x7b\n    \"methods\": [],\n    \"maxDepth\": 0,\n" ++
  Text.lit "    \"concurrency\": 1,\n    \"startedAt\": \"0001-01-01T00:00:00Z\",\n" ++
  Text.lit "    \"duration\": \"\"\n  \x7d,\n" ++
  Text.lit "  \"outcomes\": [\n    \x7b\n      \"x\": 0,\n      \"y\": 7,\n" ++
  Text.lit "      \"iterative\": 0,\n      \"wrapped\": false,\n" ++
  Text.lit "      \"status\": \"skipped\",\n      \"reason\": \"\\u003c\uFFFD\"\n" ++
  Text.lit "    \x7d\n  ],\n  \"totals\": \x7b\n    \"cases\": 1,\n    \"ok\": 0,\n" ++
  Text.lit "    \"mismatches\": 0,\n    \"skipped\": 1,\n    \"wrapped\": 0\n  \x7d\n\x7d\n"

theorem json_reads_back_zeroProduct :
    zeroProduct.json = .ok zeroProductText ∧
    ∃ body document, zeroProductText = body ++ Text.lit "\n" ∧
      (∀ d, Json.Grammar.Document body d ↔ d = document) ∧
      zeroProduct.repaired.DescribedBy (Text.lit "0001-01-01T00:00:00Z") document := by
  have hjson : zeroProduct.json = .ok zeroProductText :=
    json_eq_ok_iff.mpr ⟨_, rfl, by decide +kernel⟩
  obtain ⟨startedAt, body, document, hstart, hbody, hread, hdescribed, -⟩ :=
    json_reads_back _ _ hjson
  obtain rfl : Text.lit "0001-01-01T00:00:00Z" = startedAt := Except.ok.inj hstart
  exact ⟨hjson, body, document, hbody, hread, hdescribed⟩

end Report

end RepeatedAddition
