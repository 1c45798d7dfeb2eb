import Mathlib.Data.List.DropRight
import Mathlib.Data.List.Forall2
import RepeatedAddition.Proofs.Markdown
import RepeatedAddition.Proofs.ScheduleResult

/-!
# A report in markdown, line by line

The three parts of a report in markdown come from three places: the summary from the totals, the
table from the outcomes, and the last section from the outcomes that disagree.  Whoever reads the
text has only its lines.  The reader below knows nothing of reports: it finds a table by the rule
under its header, takes cells from between bars, and takes for a heading every line that starts like
one.  What it reads in one part agrees with what it reads in the others.

That no line is taken for another is a matter of how lines start.

* A rule starts with a bar and a dash, any other line of a table with a bar and a blank.
* Only the explanation of a mismatch starts with three hash signs and a blank.
* The reason of a mismatch starts with a letter, as do the lines that describe the run.

* `Text.lines`: the lines of a text.
* `Reading.rowsBelow`, `Reading.cells?`, `Reading.sections`: tables, cells, and sections with what
  follows their headings.
* `Report.markdown_eq`: the lines of a report.
* `Report.PartsAgree`: what is read in each part of a report, against the other parts and against
  its outcomes.
* `Schedule.markdown_parts_agree`: the parts of the report of a run agree.
-/

namespace RepeatedAddition

/-! ## Lines -/

namespace Text

/-- The lines of a text, without the line breaks that end them.  The last one may have none. -/
def lines : Text → List Text
  | [] => []
  | b :: t =>
    if b = 10 then [] :: lines t
    else
      match lines t with
      | [] => [[b]]
      | line :: rest => (b :: line) :: rest

/-- Lines, each with a line break behind it. -/
def ofLines (ls : List Text) : Text := ls.flatMap (· ++ [10])

theorem ofLines_cons (l : Text) (ls : List Text) : ofLines (l :: ls) = l ++ 10 :: ofLines ls := by
  rw [ofLines, List.flatMap_cons, List.append_assoc]
  rfl

theorem ofLines_append (ls ls' : List Text) : ofLines (ls ++ ls') = ofLines ls ++ ofLines ls' :=
  List.flatMap_append

theorem lines_cons {l : Text} (h : 10 ∉ l) (t : Text) : lines (l ++ 10 :: t) = l :: lines t := by
  induction l with
  | nil => rw [List.nil_append, lines, if_pos rfl]
  | cons b l ih =>
    rw [List.mem_cons, not_or] at h
    rw [List.cons_append, lines, if_neg (Ne.symm h.1), ih h.2]

/-- **Lines can be read back**, if no line has a line break in it. -/
theorem lines_ofLines {ls : List Text} (h : ∀ l ∈ ls, 10 ∉ l) : lines (ofLines ls) = ls := by
  induction ls with
  | nil => rfl
  | cons l ls ih =>
    obtain ⟨hl, hls⟩ := List.forall_mem_cons.mp h
    rw [ofLines_cons, lines_cons hl, ih hls]

theorem notMem_joined {b : UInt8} {separator : Text} {parts : List Text}
    (hseparator : b ∉ separator) (hparts : ∀ t ∈ parts, b ∉ t) : b ∉ joined separator parts := by
  induction parts with
  | nil => exact List.not_mem_nil
  | cons t parts ih =>
    obtain ⟨ht, hrest⟩ := List.forall_mem_cons.mp hparts
    cases parts with
    | nil => rwa [joined_singleton]
    | cons u parts =>
      rw [joined_cons_cons]
      exact List.not_mem_append (List.not_mem_append ht hseparator) (ih hrest)

end Text

/-! ## Reading tables and sections -/

namespace Reading

/-- The rows of the first table with this rule: the lines below the rule, up to the next empty
line. -/
def rowsBelow (rule : Text) (lines : List Text) : List Text :=
  ((lines.dropWhile (· ≠ rule)).drop 1).takeWhile (· ≠ [])

/-- A text without the blanks at its ends. -/
def trimmed (t : Text) : Text := (t.dropWhile (· = 32)).rdropWhile (· = 32)

/-- The cells of a row: what stands between its bars, where the row starts with a bar and ends with
one. -/
def cells? (line : Text) : Option (List Text) :=
  let parts := line.splitOn 124
  if 2 ≤ parts.length ∧ parts.head? = some [] ∧ parts.getLast? = some [] then
    some (parts.tail.dropLast.map trimmed)
  else none

/-- A cell of a row. -/
def cell? (line : Text) (index : Nat) : Option Text := (cells? line).bind (·[index]?)

/-- How a heading of the lowest level starts. -/
def headingMark : Text := Text.lit "### "

/-- Whether a line is a heading of the lowest level. -/
def isHeading (line : Text) : Bool := headingMark.isPrefixOf line

/-- The headings of the lowest level, each with the next line that is not empty. -/
def sections : List Text → List (Text × Text)
  | [] => []
  | line :: rest =>
    if isHeading line then
      (line.drop headingMark.length, (rest.find? (· ≠ [])).getD []) :: sections rest
    else sections rest

/-! ### Tables -/

/-- A table is found below its rule. -/
theorem rowsBelow_eq {rule : Text} {above rows behind : List Text} (habove : rule ∉ above)
    (hrows : [] ∉ rows) :
    rowsBelow rule (above ++ rule :: (rows ++ [] :: behind)) = rows := by
  have hother : ∀ l ∈ above, decide (l ≠ rule) = true := fun l hl => decide_eq_true fun h =>
    habove (h ▸ hl)
  have hfull : ∀ l ∈ rows, decide (l ≠ []) = true := fun l hl => decide_eq_true fun h =>
    hrows (h ▸ hl)
  have hdrop : (above ++ rule :: (rows ++ [] :: behind)).dropWhile (· ≠ rule) = rule ::
      (rows ++ [] :: behind) := by
    rw [List.dropWhile_append_of_pos hother]
    exact List.dropWhile_cons_of_neg (by simp)
  rw [rowsBelow, hdrop, List.drop_one, List.tail_cons, List.takeWhile_append_of_pos hfull,
    List.takeWhile_cons_of_neg (by simp), List.append_nil]

/-- A cell with a blank on each side. -/
def padded (c : Text) : Text := 32 :: (c ++ [32])

/-- A text that can be read back from a cell. -/
structure IsCell (c : Text) : Prop where
  bar : 124 ∉ c
  newline : 10 ∉ c
  head : c.head? ≠ some 32
  last : c.getLast? ≠ some 32

theorem trimmed_padded {c : Text} (h : IsCell c) : trimmed (padded c) = c := by
  have hfront : (32 :: (c ++ [32])).dropWhile (· = 32) = if c = [] then [] else c ++ [32] := by
    rw [List.dropWhile_cons_of_pos (by decide)]
    cases c with
    | nil => rfl
    | cons b c =>
      have hb : b ≠ 32 := fun hb => h.head (by rw [hb, List.head?_cons])
      rw [List.cons_append, List.dropWhile_cons_of_neg (by simpa using hb),
        if_neg (List.cons_ne_nil b c)]
  rw [trimmed, padded, hfront]
  split
  · next hnil => rw [hnil, List.rdropWhile_nil]
  · rw [List.rdropWhile_concat_pos _ _ _ (by decide), List.rdropWhile_eq_self_iff]
    intro hne hlast
    exact h.last (by rw [List.getLast?_eq_getLast_of_ne_nil hne, of_decide_eq_true hlast])

/-- A row without the line break. -/
def tableLine (cells : List Text) : Text :=
  Text.lit "| " ++ Text.joined (Text.lit " | ") cells ++ Text.lit " |"

theorem tableLine_ne_nil (cells : List Text) : tableLine cells ≠ [] :=
  List.append_ne_nil_of_left_ne_nil (List.append_ne_nil_of_left_ne_nil (by decide) _) _

/-- What stands behind the first bar of a row are the cells with a blank on each side, and bars
behind them. -/
theorem joined_eq_intercalate (c : Text) (cs : List Text) :
    32 :: (Text.joined (Text.lit " | ") (c :: cs) ++ Text.lit " |") =
      [124].intercalate ((c :: cs).map padded ++ [[]]) := by
  have hend : Text.lit " |" = [32, 124] := by decide
  have hbetween : Text.lit " | " = [32, 124, 32] := by decide
  induction cs generalizing c with
  | nil =>
    rw [Text.joined_singleton, hend]
    simp [padded, List.intercalate]
  | cons d cs ih =>
    rw [Text.joined_cons_cons, List.map_cons, List.cons_append,
      List.intercalate_cons_of_ne_nil (by simp), ← ih d, hend, hbetween]
    simp [padded]

/-- **The cells of a row can be read back.** -/
theorem cells?_tableLine {c : Text} {cs : List Text} (h : ∀ t ∈ c :: cs, IsCell t) :
    cells? (tableLine (c :: cs)) = some (c :: cs) := by
  have hline : tableLine (c :: cs) = [124].intercalate ([] :: ((c :: cs).map padded ++ [[]])) := by
    rw [List.intercalate_cons_of_ne_nil (by simp), ← joined_eq_intercalate, tableLine,
      List.append_assoc]
    rfl
  have hbars : ∀ t ∈ [] :: ((c :: cs).map padded ++ [[]]), 124 ∉ t := by
    intro t ht
    rcases List.mem_cons.mp ht with rfl | ht
    · exact List.not_mem_nil
    rcases List.mem_append.mp ht with ht | ht
    · obtain ⟨cell, hcell, rfl⟩ := List.mem_map.mp ht
      exact List.not_mem_cons_of_ne_of_not_mem (by decide)
        (List.not_mem_append (h cell hcell).bar (by decide))
    · rw [List.mem_singleton.mp ht]
      exact List.not_mem_nil
  have hparts : (tableLine (c :: cs)).splitOn 124 = [] :: ((c :: cs).map padded ++ [[]]) := by
    rw [hline, List.splitOn_intercalate 124 hbars (List.cons_ne_nil _ _)]
  have hcells : ((c :: cs).map padded).map trimmed = c :: cs := by
    rw [List.map_map]
    exact (List.map_congr_left fun t ht => trimmed_padded (h t ht)).trans (List.map_id _)
  have hwhole : 2 ≤ ([] :: ((c :: cs).map padded ++ [[]])).length ∧
      ([] :: ((c :: cs).map padded ++ [[]])).head? = some [] ∧
      ([] :: ((c :: cs).map padded ++ [[]])).getLast? = some [] := by
    refine ⟨by simp, rfl, ?_⟩
    rw [← List.cons_append, List.getLast?_concat]
  rw [cells?, hparts, if_pos hwhole, List.tail_cons, List.dropLast_concat, hcells]

/-! ### Sections -/

theorem sections_append {ls : List Text} (h : ∀ l ∈ ls, isHeading l = false) (ls' : List Text) :
    sections (ls ++ ls') = sections ls' := by
  induction ls with
  | nil => rfl
  | cons l ls ih =>
    obtain ⟨hl, hls⟩ := List.forall_mem_cons.mp h
    rw [List.cons_append, sections, hl, if_neg Bool.false_ne_true, ih hls]

theorem length_sections (ls : List Text) : (sections ls).length = ls.countP isHeading := by
  induction ls with
  | nil => rfl
  | cons l ls ih =>
    rw [sections, List.countP_cons, ← ih]
    split <;> rfl

end Reading

/-! ## The lines of a report -/

namespace Report

open Reading (tableLine headingMark isHeading IsCell)

/-- The rule of the table with the totals. -/
def summaryRule : Text := Text.lit "|------:|---:|-----------:|--------:|--------:|"

/-- The rule of the table with the outcomes. -/
def casesRule : Text := Text.lit "|--:|--:|----------:|----------:|---------:|--------|"

/-- The heading of the section with the mismatches. -/
def mismatchesHeading : Text := Text.lit "## Mismatches"

/-- The remark that there are no mismatches. -/
def mismatchesRemark : Text := Text.lit "No mismatches found."

/-- The cells of an outcome. -/
def outcomeCells (o : Outcome) : List Text :=
  [Text.decimal o.x.toNat, Text.decimal o.y.toNat, optionalCell o.iterative,
    optionalCell o.recursive, optionalCell o.expected, statusCell o]

/-- The cells of the totals. -/
def totalsCells (t : Totals) : List Text :=
  [Text.decimal t.cases, Text.decimal t.ok, Text.decimal t.mismatches, Text.decimal t.skipped,
    Text.decimal t.wrapped]

/-- Two operands in a heading. -/
def operandsText (x y : Text) : Text := x ++ Text.lit " × " ++ y

/-- The lines that describe the run. -/
def descriptionTexts (m : Metadata) : List Text :=
  (if (m.methods.getD []).isEmpty then []
    else [Text.lit "Methods: " ++ Text.joined (Text.lit ", ") (m.methods.getD []) ++ Text.lit "  "])
    ++ [Text.lit "Max recursion depth: " ++ Text.decimal m.maxDepth.toNat ++ Text.lit "  "]
    ++ (if m.duration.isEmpty then [] else [Text.lit "Duration: " ++ m.duration ++ Text.lit "  "])

/-- The lines before the rule of the totals. -/
def openingTexts (m : Metadata) : List Text :=
  [Text.lit "# Multiplication Comparison Report", []] ++ descriptionTexts m
    ++ [[], Text.lit "## Summary", [], Text.lit "| Cases | OK | Mismatches | Skipped | Wrapped |"]

/-- The lines between the totals and the rule of the outcomes. -/
def casesTexts : List Text :=
  [[], Text.lit "## Cases", [], Text.lit "| x | y | iterative | recursive | expected | status |"]

/-- The lines that explain a mismatch. -/
def mismatchTexts (o : Outcome) : List Text :=
  [headingMark ++ operandsText (Text.decimal o.x.toNat) (Text.decimal o.y.toNat), [], o.reason, []]

/-- The lines behind the table of the outcomes. -/
def closingTexts (os : List Outcome) : List Text :=
  if os.isEmpty then [mismatchesRemark] else mismatchesHeading :: [] :: os.flatMap mismatchTexts

/-- The lines of a report. -/
def markdownTexts (r : Report) : List Text :=
  openingTexts r.metadata ++ summaryRule :: tableLine (totalsCells r.totals) ::
    (casesTexts ++ casesRule :: (r.outcomes.map (fun o => tableLine (outcomeCells o)) ++
      [] :: closingTexts r.mismatches))

theorem tableRow_eq (cells : List Text) : tableRow cells = tableLine cells ++ [10] := by
  have hend : Text.lit " |\n" = Text.lit " |" ++ [10] := by decide
  rw [tableRow, tableLine, hend, List.append_assoc, List.append_assoc, List.append_assoc]

theorem ofLines_descriptionTexts (m : Metadata) :
    Text.ofLines (descriptionTexts m) = descriptionLines m := by
  have hend : Text.lit "  \n" = Text.lit "  " ++ [10] := by decide
  simp only [descriptionTexts, descriptionLines, hend]
  split <;> split <;> simp [Text.ofLines]

theorem ofLines_mismatchTexts (o : Outcome) :
    Text.ofLines (mismatchTexts o) = mismatchSection o := by
  have hend : Text.lit "\n\n" = [10, 10] := by decide
  simp [mismatchTexts, mismatchSection, operandsText, headingMark, Text.ofLines, hend]

theorem ofLines_closingTexts (os : List Outcome) :
    Text.ofLines (closingTexts os) = mismatchesPart os := by
  rw [closingTexts, mismatchesPart]
  split
  · decide
  · have hsections : Text.ofLines (os.flatMap mismatchTexts) = os.flatMap mismatchSection := by
      rw [Text.ofLines, List.flatMap_assoc]
      exact List.flatMap_congr fun o _ => ofLines_mismatchTexts o
    rw [Text.ofLines_cons, Text.ofLines_cons, hsections]
    rfl

/-- **A report in markdown is a text of lines.** -/
theorem markdown_eq (r : Report) : r.markdown = Text.ofLines r.markdownTexts := by
  have hrows : Text.ofLines (r.outcomes.map fun o => tableLine (outcomeCells o)) =
      r.outcomes.flatMap outcomeRow := by
    rw [Text.ofLines, List.flatMap_map]
    exact List.flatMap_congr fun o _ => (tableRow_eq (outcomeCells o)).symm
  have htotals : totalsRow r.totals = tableLine (totalsCells r.totals) ++ [10] := tableRow_eq _
  rw [markdownTexts, openingTexts, casesTexts]
  simp only [Text.ofLines_append, Text.ofLines_cons, hrows, ofLines_descriptionTexts,
    ofLines_closingTexts]
  have htitle : Text.lit "# Multiplication Comparison Report\n\n" =
      Text.lit "# Multiplication Comparison Report" ++ [10, 10] := by decide
  have hsummary : Text.lit "\n## Summary\n\n" = [10] ++ Text.lit "## Summary" ++ [10, 10] := by
    decide
  have hheader : Text.lit "| Cases | OK | Mismatches | Skipped | Wrapped |\n" =
      Text.lit "| Cases | OK | Mismatches | Skipped | Wrapped |" ++ [10] := by decide
  have hrule : Text.lit "|------:|---:|-----------:|--------:|--------:|\n" = summaryRule ++
      [10] := by decide
  have hcases : Text.lit "\n## Cases\n\n" = [10] ++ Text.lit "## Cases" ++ [10, 10] := by decide
  have hheader' : Text.lit "| x | y | iterative | recursive | expected | status |\n" =
      Text.lit "| x | y | iterative | recursive | expected | status |" ++ [10] := by decide
  have hrule' : Text.lit "|--:|--:|----------:|----------:|---------:|--------|\n" = casesRule ++
      [10] := by decide
  have hbreak : Text.lit "\n" = [10] := by decide
  rw [markdown, htotals, htitle, hsummary, hheader, hrule, hcases, hheader', hrule', hbreak]
  simp [Text.ofLines]

/-! ## How lines start -/

/-- A line that is taken for none of those by which the parts of a report are found. -/
structure IsOrdinary (l : Text) : Prop where
  newline : 10 ∉ l
  summaryRule : l ≠ summaryRule
  casesRule : l ≠ casesRule
  heading : isHeading l = false
  mismatches : l ≠ mismatchesHeading

instance (l : Text) : Decidable (IsOrdinary l) :=
  decidable_of_iff
    (10 ∉ l ∧ l ≠ summaryRule ∧ l ≠ casesRule ∧ isHeading l = false ∧ l ≠ mismatchesHeading)
    ⟨fun h => ⟨h.1, h.2.1, h.2.2.1, h.2.2.2.1, h.2.2.2.2⟩,
      fun h => ⟨h.newline, h.summaryRule, h.casesRule, h.heading, h.mismatches⟩⟩

theorem isHeading_of_head {l : Text} {b : UInt8} (hhead : l.head? = some b) (hhash : b ≠ 35) :
    isHeading l = false := by
  rw [isHeading, Bool.eq_false_iff, ne_eq, List.isPrefixOf_iff_prefix]
  rintro ⟨t, rfl⟩
  exact hhash (Option.some.inj hhead).symm

/-- A line that starts neither with a bar nor with a hash sign. -/
theorem isOrdinary_of_head {l : Text} {b : UInt8} (hhead : l.head? = some b) (hbar : b ≠ 124)
    (hhash : b ≠ 35) (hnewline : 10 ∉ l) : IsOrdinary l := by
  have hother {m : Text} (hm : m.head? ≠ some b) : l ≠ m := fun h => hm (h ▸ hhead)
  exact ⟨hnewline, hother fun h => hbar (Option.some.inj h).symm,
    hother fun h => hbar (Option.some.inj h).symm, isHeading_of_head hhead hhash, hother fun h =>
      hhash (Option.some.inj h).symm⟩

/-- A row starts with a bar and a blank, unlike a rule. -/
theorem isOrdinary_tableLine {cells : List Text} (h : ∀ t ∈ cells, 10 ∉ t) :
    IsOrdinary (tableLine cells) := by
  have hnewline : 10 ∉ tableLine cells :=
    List.not_mem_append (List.not_mem_append (by decide) (Text.notMem_joined (by decide) h))
      (by decide)
  have hstart : (tableLine cells).take 2 = [124, 32] := rfl
  have hother {m : Text} (hm : m.take 2 ≠ [124, 32]) : tableLine cells ≠ m := fun heq =>
    hm (heq ▸ hstart)
  exact ⟨hnewline, hother (by decide), hother (by decide),
    isHeading_of_head (b := 124) rfl (by decide), hother (by decide)⟩

/-! ## The lines of a run -/

theorem isCell_of_notMem {c : Text} (hbar : 124 ∉ c) (hnewline : 10 ∉ c) (hblank : 32 ∉ c) :
    IsCell c :=
  ⟨hbar, hnewline, fun h => hblank (List.mem_of_mem_head? h),
    fun h => hblank (List.mem_of_mem_getLast? h)⟩

theorem isCell_decimal (n : Nat) : IsCell (Text.decimal n) :=
  isCell_of_notMem (Text.notMem_decimal (by decide) n) (Text.notMem_decimal (by decide) n)
    (Text.notMem_decimal (by decide) n)

theorem isCell_optionalCell (w : Option UInt64) : IsCell (optionalCell w) := by
  cases w with
  | none => exact isCell_of_notMem (by decide) (by decide) (by decide)
  | some w => exact isCell_decimal _

variable {limit : UInt64} {k : Case}

/-- The cell of a status has a blank in it, but at neither end. -/
theorem isCell_statusCell (limit : UInt64) (k : Case) : IsCell (statusCell (k.outcome limit)) := by
  rw [statusCell]
  rcases Case.status_outcome limit k with h | h | h <;> rw [h] <;> split <;> constructor <;> decide

theorem isCell_outcomeCells (limit : UInt64) (k : Case) :
    ∀ t ∈ outcomeCells (k.outcome limit), IsCell t := by
  simp only [outcomeCells, List.forall_mem_cons]
  exact ⟨isCell_decimal _, isCell_decimal _, isCell_optionalCell _, isCell_optionalCell _,
    isCell_optionalCell _, isCell_statusCell limit k, List.forall_mem_nil _⟩

theorem isCell_totalsCells (t : Totals) : ∀ c ∈ totalsCells t, IsCell c := by
  simp only [totalsCells, List.forall_mem_cons]
  exact ⟨isCell_decimal _, isCell_decimal _, isCell_decimal _, isCell_decimal _, isCell_decimal _,
    List.forall_mem_nil _⟩

theorem isOrdinary_totalsLine (t : Totals) : IsOrdinary (tableLine (totalsCells t)) :=
  isOrdinary_tableLine fun c hc => (isCell_totalsCells t c hc).newline

theorem isOrdinary_outcomeLine (limit : UInt64) (k : Case) :
    IsOrdinary (tableLine (outcomeCells (k.outcome limit))) :=
  isOrdinary_tableLine fun c hc => (isCell_outcomeCells limit k c hc).newline

theorem isOrdinary_descriptionTexts (c : Comparison) (clock : Clock) :
    ∀ l ∈ descriptionTexts (c.metadata clock), IsOrdinary l := by
  have hmethods : (c.metadata clock).methods.getD [] = Method.names := rfl
  have hdepth :
      IsOrdinary (Text.lit "Max recursion depth: " ++ Text.decimal c.maxDepth.toNat ++
        Text.lit "  ") := by
    refine isOrdinary_of_head (b := 77) rfl (by decide) (by decide) ?_
    exact List.not_mem_append (List.not_mem_append (by decide) (Text.notMem_decimal (by decide) _))
      (by decide)
  have hduration :
      IsOrdinary (Text.lit "Duration: " ++ (c.metadata clock).duration ++ Text.lit "  ") := by
    refine isOrdinary_of_head (b := 68) rfl (by decide) (by decide) ?_
    exact List.not_mem_append (List.not_mem_append (by decide) (Duration.newline_notMem_text _))
      (by decide)
  rw [descriptionTexts, hmethods]
  refine List.forall_mem_append.mpr
    ⟨List.forall_mem_append.mpr ⟨by decide, List.forall_mem_singleton.mpr hdepth⟩, ?_⟩
  split
  · exact List.forall_mem_nil _
  · exact List.forall_mem_singleton.mpr hduration

theorem isOrdinary_openingTexts (c : Comparison) (clock : Clock) :
    ∀ l ∈ openingTexts (c.metadata clock), IsOrdinary l :=
  List.forall_mem_append.mpr
    ⟨List.forall_mem_append.mpr ⟨by decide, isOrdinary_descriptionTexts c clock⟩, by decide⟩

/-- The reason of a mismatch is an ordinary line, and not empty. -/
theorem isOrdinary_reason (h : (k.outcome limit).status = .mismatch) :
    IsOrdinary (k.outcome limit).reason ∧ (k.outcome limit).reason ≠ [] := by
  obtain ⟨e, -, p, -, hreason⟩ := (Case.judged_outcome limit k).mismatch_reason h
  have hhead : (k.outcome limit).reason.head? = some 101 := by
    rw [hreason]
    rfl
  have hnewline : 10 ∉ (k.outcome limit).reason := by
    rw [hreason]
    exact List.not_mem_append
      (List.not_mem_append (List.not_mem_append (by decide) (Text.notMem_decimal (by decide) _))
        (by decide)) (Text.notMem_decimal (by decide) _)
  refine ⟨isOrdinary_of_head hhead (by decide) (by decide) hnewline, ?_⟩
  intro hnil
  rw [hnil] at hhead
  cases hhead

/-! ## The parts of a report -/

/-- A cell shows an optional word: its decimal digits, or a dash. -/
def CellShows (cell : Text) : Option UInt64 → Prop
  | none => cell = Text.lit "-"
  | some w => cell.IsDecimal w.toNat

/-- A row has six cells, and they show an outcome. -/
def RowShows (row : Text) (o : Outcome) : Prop :=
  ∃ x y iterative recursive expected status,
    Reading.cells? row = some [x, y, iterative, recursive, expected, status] ∧
    x.IsDecimal o.x.toNat ∧ y.IsDecimal o.y.toNat ∧ CellShows iterative o.iterative ∧
    CellShows recursive o.recursive ∧ CellShows expected o.expected ∧ status = o.status.label ++
    if o.wrapped then Text.lit " (wrapped)" else []

/-- The status cell of a row starts with the word for a mismatch. -/
def isMismatchRow (row : Text) : Bool :=
  (Reading.cell? row 5).any (Text.lit "mismatch").isPrefixOf

/-- A section is about the outcome of a row: its heading has the operands that the row shows, and
behind it comes the reason of the outcome. -/
def SectionExplains (sec : Text × Text) (row : Text × Outcome) : Prop :=
  (∃ x y, Reading.cell? row.1 0 = some x ∧ Reading.cell? row.1 1 = some y ∧
    sec.1 = operandsText x y) ∧ sec.2 = row.2.reason

/-- The parts of a report agree, as they are read off its lines. -/
structure PartsAgree (r : Report) (lines : List Text) : Prop where
  rows : (Reading.rowsBelow casesRule lines).length = r.totals.cases
  outcomes : List.Forall₂ RowShows (Reading.rowsBelow casesRule lines) r.outcomes
  summary : ∃ row number, Reading.rowsBelow summaryRule lines = [row] ∧
    Reading.cell? row 2 = some number ∧ number.IsDecimal (lines.countP isHeading)
  headings : lines.countP isHeading = (Reading.rowsBelow casesRule lines).countP isMismatchRow
  sections : List.Forall₂ SectionExplains (Reading.sections lines)
    (((Reading.rowsBelow casesRule lines).zip r.outcomes).filter fun row => isMismatchRow row.1)
  mismatches : mismatchesHeading ∈ lines ↔ 0 < lines.countP isHeading
  remark : lines.countP isHeading = 0 → lines.getLast? = some mismatchesRemark

/-- What is read off the section of an outcome: its heading, and its reason. -/
def sectionOf (o : Outcome) : Text × Text :=
  (operandsText (Text.decimal o.x.toNat) (Text.decimal o.y.toNat), o.reason)

/-! ### What is read off a row -/

theorem cells?_outcomeCells (limit : UInt64) (k : Case) :
    Reading.cells? (tableLine (outcomeCells (k.outcome limit))) =
      some (outcomeCells (k.outcome limit)) :=
  Reading.cells?_tableLine (isCell_outcomeCells limit k)

theorem cellShows_optionalCell (w : Option UInt64) : CellShows (optionalCell w) w := by
  cases w with
  | none => rfl
  | some w => exact Text.isDecimal_decimal _

theorem rowShows_outcome (limit : UInt64) (k : Case) :
    RowShows (tableLine (outcomeCells (k.outcome limit))) (k.outcome limit) :=
  ⟨_, _, _, _, _, _, cells?_outcomeCells limit k, Text.isDecimal_decimal _,
    Text.isDecimal_decimal _, cellShows_optionalCell _, cellShows_optionalCell _,
    cellShows_optionalCell _, rfl⟩

/-- **A row tells a mismatch by its status cell.** -/
theorem isMismatchRow_outcome (limit : UInt64) (k : Case) :
    isMismatchRow (tableLine (outcomeCells (k.outcome limit))) =
      decide ((k.outcome limit).status = .mismatch) := by
  have hcell : Reading.cell? (tableLine (outcomeCells (k.outcome limit))) 5 =
      some (statusCell (k.outcome limit)) := by
    rw [Reading.cell?, cells?_outcomeCells]
    rfl
  rw [isMismatchRow, hcell, Option.any_some, statusCell]
  rcases Case.status_outcome limit k with h | h | h <;> rw [h] <;> split <;> decide

theorem sectionExplains_outcome (limit : UInt64) (k : Case) :
    SectionExplains (sectionOf (k.outcome limit))
      (tableLine (outcomeCells (k.outcome limit)), k.outcome limit) := by
  refine ⟨⟨_, _, ?_, ?_, rfl⟩, rfl⟩
  · rw [Reading.cell?, cells?_outcomeCells]
    rfl
  · rw [Reading.cell?, cells?_outcomeCells]
    rfl

/-! ### What is read off the last section -/

theorem sections_mismatchTexts {o : Outcome} (hreason : IsOrdinary o.reason ∧ o.reason ≠ [])
    (rest : List Text) :
    Reading.sections (mismatchTexts o ++ rest) = sectionOf o :: Reading.sections rest := by
  obtain ⟨hordinary, hne⟩ := hreason
  have hheading (t : Text) : isHeading (headingMark ++ t) = true :=
    List.isPrefixOf_iff_prefix.mpr (List.prefix_append headingMark t)
  have hothers : ∀ l ∈ [[], o.reason, []], isHeading l = false := by
    simp only [List.forall_mem_cons]
    exact ⟨rfl, hordinary.heading, rfl, List.forall_mem_nil _⟩
  have hnext : ([[], o.reason, []] ++ rest).find? (· ≠ []) = some o.reason := by
    rw [List.cons_append, List.find?_cons_of_neg (by simp), List.cons_append,
      List.find?_cons_of_pos (by simpa using hne)]
  rw [mismatchTexts, List.cons_append, Reading.sections, if_pos (hheading _), hnext,
    Reading.sections_append hothers, List.drop_left, Option.getD_some, sectionOf]

/-- **The sections of the mismatches can be read back.** -/
theorem sections_closingTexts {os : List Outcome}
    (h : ∀ o ∈ os, IsOrdinary o.reason ∧ o.reason ≠ []) :
    Reading.sections (closingTexts os) = os.map sectionOf := by
  have hsections : Reading.sections (os.flatMap mismatchTexts) = os.map sectionOf := by
    induction os with
    | nil => rfl
    | cons o os ih =>
      obtain ⟨ho, hos⟩ := List.forall_mem_cons.mp h
      rw [List.flatMap_cons, sections_mismatchTexts ho, ih hos, List.map_cons]
  rw [closingTexts]
  split
  · next hnil =>
    rw [List.isEmpty_iff.mp hnil]
    decide
  · have hfront : ∀ l ∈ [mismatchesHeading, []], isHeading l = false := by decide
    exact (Reading.sections_append hfront _).trans hsections

/-- The heading of the last section stands there exactly if there are mismatches. -/
theorem mem_closingTexts_iff (os : List Outcome) :
    mismatchesHeading ∈ closingTexts os ↔ os ≠ [] := by
  rw [closingTexts]
  split
  · next hnil =>
    rw [List.isEmpty_iff.mp hnil]
    decide
  · next hne => exact iff_of_true List.mem_cons_self fun hnil => hne (by rw [hnil]; rfl)

theorem newline_notMem_closingTexts {os : List Outcome}
    (h : ∀ o ∈ os, IsOrdinary o.reason ∧ o.reason ≠ []) :
    ∀ l ∈ closingTexts os, 10 ∉ l := by
  have hsection : ∀ o ∈ os, ∀ l ∈ mismatchTexts o, 10 ∉ l := by
    intro o ho
    simp only [mismatchTexts, operandsText, List.forall_mem_cons]
    have hoperands : 10 ∉ headingMark ++
        (Text.decimal o.x.toNat ++ Text.lit " × " ++ Text.decimal o.y.toNat) :=
      List.not_mem_append (by decide)
        (List.not_mem_append (List.not_mem_append (Text.notMem_decimal (by decide) _) (by decide))
          (Text.notMem_decimal (by decide) _))
    exact ⟨hoperands, List.not_mem_nil, (h o ho).1.newline, List.not_mem_nil, List.forall_mem_nil _⟩
  rw [closingTexts]
  split
  · decide
  · refine List.forall_mem_cons.mpr
      ⟨by decide, List.forall_mem_cons.mpr ⟨List.not_mem_nil, fun l hl => ?_⟩⟩
    obtain ⟨o, ho, hl⟩ := List.mem_flatMap.mp hl
    exact hsection o ho l hl

end Report

/-! ## The report of a run -/

namespace Comparison

open Reading (tableLine isHeading rowsBelow sections)
open Report (casesRule summaryRule outcomeCells totalsCells openingTexts casesTexts closingTexts
  IsOrdinary)

variable (c : Comparison) (clock : Clock)

/-- The lines of the report of a run before the last section. -/
def frontTexts : List Text :=
  openingTexts (c.metadata clock) ++
    summaryRule :: tableLine (totalsCells (c.report clock c.outcomes).totals) ::
    (casesTexts ++ casesRule :: (c.outcomes.map (fun o => tableLine (outcomeCells o)) ++ [[]]))

theorem markdownTexts_report :
    (c.report clock c.outcomes).markdownTexts =
      c.frontTexts clock ++ closingTexts (c.report clock c.outcomes).mismatches := by
  rw [Report.markdownTexts, frontTexts, metadata_report, outcomes_report]
  simp

/-- Before the last section all lines but the rules are ordinary. -/
theorem isOrdinary_frontTexts :
    ∀ l ∈ c.frontTexts clock, IsOrdinary l ∨ l = summaryRule ∨ l = casesRule := by
  have hcases : ∀ l ∈ casesTexts, IsOrdinary l := by decide
  have hrows : ∀ l ∈ c.outcomes.map fun o => tableLine (outcomeCells o), IsOrdinary l := by
    intro l hl
    obtain ⟨o, ho, rfl⟩ := List.mem_map.mp hl
    obtain ⟨k, -, rfl⟩ := List.mem_map.mp ho
    exact Report.isOrdinary_outcomeLine c.maxDepth k
  have hblank : IsOrdinary [] := by decide
  intro l hl
  simp only [frontTexts, List.mem_append, List.mem_cons, List.not_mem_nil, or_false] at hl
  rcases hl with hl | rfl | rfl | hl | rfl | hl | rfl
  · exact Or.inl (Report.isOrdinary_openingTexts c clock l hl)
  · exact Or.inr (Or.inl rfl)
  · exact Or.inl (Report.isOrdinary_totalsLine _)
  · exact Or.inl (hcases l hl)
  · exact Or.inr (Or.inr rfl)
  · exact Or.inl (hrows l hl)
  · exact Or.inl hblank

theorem isHeading_frontTexts : ∀ l ∈ c.frontTexts clock, isHeading l = false := by
  intro l hl
  rcases c.isOrdinary_frontTexts clock l hl with h | rfl | rfl
  · exact h.heading
  · decide
  · decide

/-- The reasons of the mismatches of a run are ordinary lines. -/
theorem isOrdinary_mismatches :
    ∀ o ∈ (c.report clock c.outcomes).mismatches, IsOrdinary o.reason ∧ o.reason ≠ [] := by
  intro o ho
  obtain ⟨hmem, hstatus⟩ := List.mem_filter.mp ho
  rw [outcomes_report] at hmem
  obtain ⟨k, -, rfl⟩ := List.mem_map.mp hmem
  exact Report.isOrdinary_reason (of_decide_eq_true hstatus)

/-- **The lines of the report of a run can be read back.** -/
theorem lines_markdown :
    (c.report clock c.outcomes).markdown.lines = (c.report clock c.outcomes).markdownTexts := by
  rw [Report.markdown_eq]
  refine Text.lines_ofLines fun l hl => ?_
  rw [markdownTexts_report] at hl
  rcases List.mem_append.mp hl with hl | hl
  · rcases c.isOrdinary_frontTexts clock l hl with h | rfl | rfl
    · exact h.newline
    · decide
    · decide
  · exact Report.newline_notMem_closingTexts (c.isOrdinary_mismatches clock) l hl

/-- The table of the totals is found below its rule. -/
theorem rowsBelow_summaryRule :
    rowsBelow summaryRule (c.report clock c.outcomes).markdownTexts =
      [tableLine (totalsCells (c.report clock c.outcomes).totals)] := by
  have habove : summaryRule ∉ openingTexts (c.metadata clock) := fun h =>
    (Report.isOrdinary_openingTexts c clock _ h).summaryRule rfl
  have hrow : [] ∉ [tableLine (totalsCells (c.report clock c.outcomes).totals)] := fun h =>
    Reading.tableLine_ne_nil _ (List.mem_singleton.mp h).symm
  rw [Report.markdownTexts, metadata_report]
  exact Reading.rowsBelow_eq habove hrow

/-- The table of the outcomes is found below its rule. -/
theorem rowsBelow_casesRule :
    rowsBelow casesRule (c.report clock c.outcomes).markdownTexts = c.outcomes.map fun o =>
      tableLine (outcomeCells o) := by
  have habove : casesRule ∉ openingTexts (c.metadata clock) ++
      summaryRule :: tableLine (totalsCells (c.report clock c.outcomes).totals) :: casesTexts := by
    simp only [List.mem_append, List.mem_cons]
    rintro (h | h | h | h)
    · exact (Report.isOrdinary_openingTexts c clock _ h).casesRule rfl
    · exact absurd h (by decide)
    · exact (Report.isOrdinary_totalsLine _).casesRule h.symm
    · exact absurd h (by decide)
  have hrows : [] ∉ c.outcomes.map fun o => tableLine (outcomeCells o) := by
    intro h
    obtain ⟨o, -, ho⟩ := List.mem_map.mp h
    exact Reading.tableLine_ne_nil _ ho
  have hsplit : (c.report clock c.outcomes).markdownTexts =
      (openingTexts (c.metadata clock) ++
        summaryRule :: tableLine (totalsCells (c.report clock c.outcomes).totals) :: casesTexts) ++
      casesRule :: (c.outcomes.map (fun o => tableLine (outcomeCells o)) ++
        [] :: closingTexts (c.report clock c.outcomes).mismatches) := by
    rw [Report.markdownTexts, metadata_report, outcomes_report]
    simp
  rw [hsplit]
  exact Reading.rowsBelow_eq habove hrows

/-- The sections are those of the mismatches. -/
theorem sections_markdownTexts :
    sections (c.report clock c.outcomes).markdownTexts =
      (c.report clock c.outcomes).mismatches.map Report.sectionOf := by
  rw [markdownTexts_report, Reading.sections_append (c.isHeading_frontTexts clock),
    Report.sections_closingTexts (c.isOrdinary_mismatches clock)]

theorem countP_isHeading :
    (c.report clock c.outcomes).markdownTexts.countP isHeading =
      (c.report clock c.outcomes).mismatches.length := by
  rw [← Reading.length_sections, sections_markdownTexts, List.length_map]

/-- The row of an outcome tells a mismatch exactly if the outcome is one. -/
theorem isMismatchRow_of_mem {o : Outcome} (ho : o ∈ c.outcomes) :
    Report.isMismatchRow (tableLine (outcomeCells o)) = decide (o.status = .mismatch) := by
  obtain ⟨k, -, rfl⟩ := List.mem_map.mp ho
  exact Report.isMismatchRow_outcome c.maxDepth k

/-- The rows that tell a mismatch are those of the mismatches, in their order. -/
theorem filter_isMismatchRow :
    (((c.outcomes.map fun o => tableLine (outcomeCells o)).zip c.outcomes).filter fun row =>
      Report.isMismatchRow row.1) =
      (c.report clock c.outcomes).mismatches.map fun o => (tableLine (outcomeCells o), o) := by
  have hzip : (c.outcomes.map fun o => tableLine (outcomeCells o)).zip c.outcomes =
      c.outcomes.map fun o => (tableLine (outcomeCells o), o) := by
    have hpairs : (c.outcomes.map fun o => tableLine (outcomeCells o)).zip (c.outcomes.map id) =
        c.outcomes.map fun o => (tableLine (outcomeCells o), o) := List.zip_map'
    rwa [List.map_id] at hpairs
  rw [hzip, List.filter_map, Report.mismatches, outcomes_report]
  exact congrArg _ (List.filter_congr fun o ho => c.isMismatchRow_of_mem ho)

theorem countP_isMismatchRow :
    (c.outcomes.map fun o => tableLine (outcomeCells o)).countP Report.isMismatchRow =
      (c.report clock c.outcomes).mismatches.length := by
  rw [Report.mismatches, outcomes_report, ← List.countP_eq_length_filter, List.countP_map]
  exact List.countP_congr fun o ho => by rw [Function.comp_apply, c.isMismatchRow_of_mem ho]

theorem mem_markdownTexts_iff :
    Report.mismatchesHeading ∈ (c.report clock c.outcomes).markdownTexts ↔
      (c.report clock c.outcomes).mismatches ≠ [] := by
  rw [markdownTexts_report, List.mem_append, Report.mem_closingTexts_iff]
  refine or_iff_right fun hmem => ?_
  rcases c.isOrdinary_frontTexts clock _ hmem with h | h | h
  · exact h.mismatches rfl
  · exact absurd h (by decide)
  · exact absurd h (by decide)

/-- **The parts of the report of a run agree.** -/
theorem partsAgree_report :
    (c.report clock c.outcomes).PartsAgree (c.report clock c.outcomes).markdown.lines := by
  have hnumber : (c.report clock c.outcomes).totals.mismatches =
      (c.report clock c.outcomes).mismatches.length := by
    rw [totals_report, Report.mismatches, outcomes_report, ← List.countP_eq_length_filter]
  rw [lines_markdown]
  refine ⟨?_, ?_, ?_, ?_, ?_, ?_, ?_⟩
  · rw [rowsBelow_casesRule, List.length_map, totals_report]
  · rw [rowsBelow_casesRule, outcomes_report, List.forall₂_map_left_iff, List.forall₂_same]
    intro o ho
    obtain ⟨k, -, rfl⟩ := List.mem_map.mp ho
    exact Report.rowShows_outcome c.maxDepth k
  · refine ⟨_, Text.decimal (c.report clock c.outcomes).totals.mismatches,
      c.rowsBelow_summaryRule clock, ?_, ?_⟩
    · rw [Reading.cell?, totalsCells, Reading.cells?_tableLine (Report.isCell_totalsCells _)]
      rfl
    · rw [countP_isHeading, ← hnumber]
      exact Text.isDecimal_decimal _
  · rw [countP_isHeading, rowsBelow_casesRule, countP_isMismatchRow]
  · rw [sections_markdownTexts, rowsBelow_casesRule, outcomes_report, filter_isMismatchRow c clock,
      List.forall₂_map_left_iff, List.forall₂_map_right_iff, List.forall₂_same]
    intro o ho
    have hmem := List.mem_of_mem_filter ho
    rw [outcomes_report] at hmem
    obtain ⟨k, -, rfl⟩ := List.mem_map.mp hmem
    exact Report.sectionExplains_outcome c.maxDepth k
  · rw [mem_markdownTexts_iff, countP_isHeading, List.length_pos_iff]
  · intro hnone
    rw [countP_isHeading] at hnone
    rw [markdownTexts_report, List.length_eq_zero_iff.mp hnone]
    exact List.getLast?_concat

end Comparison

namespace Schedule

/-- **The parts of a report agree.**  Whatever the schedule of the run that has returned it: its
table has a row for each outcome, in order, that shows it in six cells; the number of mismatches in
the summary, the number of rows that tell one and the number of sections that explain one are the
same, and each section has the operands of its row and the reason of its outcome.  The heading
before these sections stands there exactly if there are any, and a remark ends the report
otherwise. -/
theorem markdown_parts_agree {c : Comparison} {clock : Clock} {s : State} {r : Report}
    (hs : Reachable c clock s) (hr : s.position = .returned (.ok r)) :
    r.PartsAgree r.markdown.lines := by
  obtain rfl : r = c.report clock c.outcomes := hs.inv.concluded_at hr
  exact c.partsAgree_report clock

/-- A run of three cases: one is met, one is a mismatch of a product that wraps, one is skipped. -/
theorem markdown_parts_agree_mixed :
    ∃ s r, Reachable ⟨5, 2, [⟨3, 4, some 12⟩, ⟨18446744073709551615, 2, some 0⟩, ⟨2, 6, none⟩]⟩
      ⟨.zero, 1500⟩ s ∧
      s.position = .returned (.ok r) ∧ r.PartsAgree r.markdown.lines ∧
      r.totals = ⟨3, 1, 1, 1, 1⟩ := by
  obtain ⟨s, hs, hr, -⟩ := run_reachable
    ⟨5, 2, [⟨3, 4, some 12⟩, ⟨18446744073709551615, 2, some 0⟩, ⟨2, 6, none⟩]⟩ ⟨.zero, 1500⟩ .never
  exact ⟨s, _, hs, hr, markdown_parts_agree hs hr, by decide +kernel⟩

end Schedule

end RepeatedAddition
