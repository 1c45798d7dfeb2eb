import RepeatedAddition.Comparison
import RepeatedAddition.Proofs.Case
import RepeatedAddition.Proofs.Delimited
import RepeatedAddition.Proofs.Report

/-!
# What a report in markdown keeps

A report in markdown is made for readers, and it does not print everything: the reasons of skipped
cases are left out, and the status stands in one cell with the note on a product that wrapped.
Nothing of what a run has decided is lost by that.  The text is read from its beginning: the depth
limit and the duration stand on lines of their own, cells end before the bar that they cannot have,
the table of cases ends before the line that starts with no bar.  This gives the operands and the
expected product of every case, and under the depth limit these determine the whole outcome, the
reasons that are not printed included.

* `Duration.newline_notMem_text`: a duration is one line.
* `Report.tableRow_append_inj`: the cells of a row can be read off.
* `Report.rows_append_inj`: the cases can be read off the rows of their outcomes.
* `Comparison.markdown_determines`: the text determines the depth limit, the duration, the totals
  and all outcomes.
-/

namespace RepeatedAddition

/-! ## Durations -/

namespace Duration

theorem newline_notMem_fraction (width n : Nat) : 10 ∉ fraction width n := by
  intro h
  rcases isDigit_of_mem_fraction h with hpoint | hdigit
  · exact absurd hpoint (by decide)
  · exact absurd hdigit (by decide)

theorem newline_notMem_inUnit (width n : Nat) {symbol : Text} (h : 10 ∉ symbol) :
    10 ∉ inUnit width symbol n :=
  List.not_mem_append (List.not_mem_append (Text.notMem_decimal (by decide) _)
    (newline_notMem_fraction width _)) h

/-- A number before its unit is one line, and so is nothing. -/
theorem newline_notMem_ite (c : Prop) [Decidable c] (n : Nat) {symbol : Text} (h : 10 ∉ symbol) :
    10 ∉ if c then Text.decimal n ++ symbol else [] := by
  split
  · exact List.not_mem_append (Text.notMem_decimal (by decide) n) h
  · exact List.not_mem_nil

theorem newline_notMem_clock (n : Nat) : 10 ∉ clock n := by
  refine List.not_mem_append
    (List.not_mem_append (List.not_mem_append (List.not_mem_append ?_ ?_) ?_) ?_) (by decide)
  · exact newline_notMem_ite _ _ (by decide)
  · exact newline_notMem_ite _ _ (by decide)
  · exact Text.notMem_decimal (by decide) _
  · exact newline_notMem_fraction 9 _

theorem newline_notMem_magnitude (n : Nat) : 10 ∉ magnitude n := by
  unfold magnitude
  split
  · decide
  split
  · exact newline_notMem_inUnit 0 n (by decide)
  split
  · exact newline_notMem_inUnit 3 n (by decide)
  split
  · exact newline_notMem_inUnit 6 n (by decide)
  · exact newline_notMem_clock n

/-- **A duration is one line.** -/
theorem newline_notMem_text (n : Int) : 10 ∉ text n := by
  refine List.not_mem_append ?_ (newline_notMem_magnitude n.natAbs)
  split <;> decide

theorem text_ne_nil (n : Int) : text n ≠ [] := by
  apply List.append_ne_nil_of_right_ne_nil
  unfold magnitude
  split
  · decide
  split
  · exact List.append_ne_nil_of_right_ne_nil _ (by decide)
  split
  · exact List.append_ne_nil_of_right_ne_nil _ (by decide)
  split
  · exact List.append_ne_nil_of_right_ne_nil _ (by decide)
  · exact List.append_ne_nil_of_right_ne_nil _ (by decide)

end Duration

namespace Report

/-! ## Rows -/

/-- A bar behind a blank ends a cell that has none. -/
theorem cell_append_inj {c d s s' : Text} (hc : 124 ∉ c) (hd : 124 ∉ d)
    (h : c ++ (32 :: 124 :: s) = d ++ (32 :: 124 :: s')) : c = d ∧ s = s' := by
  have hblank : ∀ {t : Text}, 124 ∉ t → 124 ∉ t ++ [32] := fun ht =>
    List.not_mem_append ht (by decide)
  have hbar : ∀ t u : Text, t ++ (32 :: 124 :: u) = (t ++ [32]) ++ 124 :: u := fun t u => by simp
  rw [hbar, hbar] at h
  obtain ⟨hcell, hrest⟩ := Text.append_cons_inj (hblank hc) (hblank hd) h
  exact ⟨List.append_cancel_right hcell, hrest⟩

/-- The cells behind the first bar of a row, with the end of the row and anything behind it. -/
theorem cells_append_inj {c d : Text} {cs ds : List Text} {s s' : Text}
    (hlength : cs.length = ds.length) (hc : ∀ t ∈ c :: cs, 124 ∉ t) (hd : ∀ t ∈ d :: ds, 124 ∉ t)
    (h : Text.joined (Text.lit " | ") (c :: cs) ++ (Text.lit " |\n" ++ s) =
      Text.joined (Text.lit " | ") (d :: ds) ++ (Text.lit " |\n" ++ s')) :
    c :: cs = d :: ds ∧ s = s' := by
  have hc₀ := hc c List.mem_cons_self
  have hd₀ := hd d List.mem_cons_self
  induction cs generalizing c d ds with
  | nil =>
    obtain rfl := List.length_eq_zero_iff.mp hlength.symm
    rw [Text.joined_singleton, Text.joined_singleton] at h
    change c ++ (32 :: 124 :: 10 :: s) = d ++ (32 :: 124 :: 10 :: s') at h
    obtain ⟨rfl, hrest⟩ := cell_append_inj hc₀ hd₀ h
    exact ⟨rfl, (List.cons.inj hrest).2⟩
  | cons c' cs ih =>
    cases ds with
    | nil => exact absurd hlength (by simp)
    | cons d' ds =>
      rw [Text.joined_cons_cons, Text.joined_cons_cons, List.append_assoc, List.append_assoc,
        List.append_assoc, List.append_assoc] at h
      change c ++ (32 :: 124 :: 32 :: _) = d ++ (32 :: 124 :: 32 :: _) at h
      obtain ⟨rfl, hrest⟩ := cell_append_inj hc₀ hd₀ h
      obtain ⟨hcells, htail⟩ :=
        ih (Nat.succ.inj hlength) (fun t ht => hc t (List.mem_cons_of_mem c ht))
        (fun t ht => hd t (List.mem_cons_of_mem c ht)) (List.cons.inj hrest).2
        (hc c' (List.mem_cons_of_mem c List.mem_cons_self))
          (hd d' (List.mem_cons_of_mem c List.mem_cons_self))
      exact ⟨congrArg (c :: ·) hcells, htail⟩

/-- **The cells of a row can be read off**, if they have no bar and it is known how many they
are. -/
theorem tableRow_append_inj {c d : Text} {cs ds : List Text} {s s' : Text}
    (hlength : cs.length = ds.length) (hc : ∀ t ∈ c :: cs, 124 ∉ t) (hd : ∀ t ∈ d :: ds, 124 ∉ t)
    (h : tableRow (c :: cs) ++ s = tableRow (d :: ds) ++ s') : c :: cs = d :: ds ∧ s = s' := by
  simp only [tableRow, List.append_assoc] at h
  exact cells_append_inj hlength hc hd (List.append_cancel_left h)

/-! ## Cells -/

theorem bar_notMem_optionalCell (w : Option UInt64) : 124 ∉ optionalCell w := by
  cases w with
  | none => decide
  | some w => exact Text.notMem_decimal (by decide) _

theorem optionalCell_inj {w w' : Option UInt64} (h : optionalCell w = optionalCell w') :
    w = w' := by
  have hdash : ∀ n, Text.lit "-" ≠ Text.decimal n := by
    intro n hn
    have hmem : 45 ∈ Text.decimal n := hn ▸ by decide
    exact Text.notMem_decimal (by decide) n hmem
  cases w with
  | none =>
    cases w' with
    | none => rfl
    | some w' => exact absurd h (hdash _)
  | some w =>
    cases w' with
    | none => exact absurd h.symm (hdash _)
    | some w' => rw [UInt64.toNat_inj.mp (Text.decimal_inj h)]

theorem bar_notMem_statusCell (limit : UInt64) (c : Case) : 124 ∉ statusCell (c.outcome limit) := by
  refine List.not_mem_append ?_ (by split <;> decide)
  rcases Case.status_outcome limit c with h | h | h <;> rw [h] <;> decide

/-! ## The table of cases -/

/-- The cells of an outcome have no bar. -/
theorem bar_notMem_outcomeCells (limit : UInt64) (c : Case) :
    ∀ t ∈ [Text.decimal (c.outcome limit).x.toNat, Text.decimal (c.outcome limit).y.toNat,
      optionalCell (c.outcome limit).iterative, optionalCell (c.outcome limit).recursive,
      optionalCell (c.outcome limit).expected, statusCell (c.outcome limit)], 124 ∉ t := by
  simp only [List.forall_mem_cons]
  exact ⟨Text.notMem_decimal (by decide) _, Text.notMem_decimal (by decide) _,
    bar_notMem_optionalCell _, bar_notMem_optionalCell _, bar_notMem_optionalCell _,
    bar_notMem_statusCell limit c, fun _ h => absurd h List.not_mem_nil⟩

/-- A case can be read off the row of its outcome. -/
theorem outcomeRow_append_inj {limit : UInt64} {c d : Case} {s s' : Text}
    (h : outcomeRow (c.outcome limit) ++ s = outcomeRow (d.outcome limit) ++ s') :
    c = d ∧ s = s' := by
  obtain ⟨hcells, hrest⟩ :=
    tableRow_append_inj (by rfl) (bar_notMem_outcomeCells limit c)
      (bar_notMem_outcomeCells limit d) h
  obtain ⟨hx, hcells⟩ := List.cons.inj hcells
  obtain ⟨hy, hcells⟩ := List.cons.inj hcells
  obtain ⟨-, hcells⟩ := List.cons.inj hcells
  obtain ⟨-, hcells⟩ := List.cons.inj hcells
  obtain ⟨hexpected, -⟩ := List.cons.inj hcells
  obtain ⟨hcx, hcy, hce⟩ := Case.operands_outcome limit c
  obtain ⟨hdx, hdy, hde⟩ := Case.operands_outcome limit d
  rw [hcx, hdx] at hx
  rw [hcy, hdy] at hy
  rw [hce, hde] at hexpected
  refine ⟨?_, hrest⟩
  cases c
  cases d
  rw [Case.mk.injEq]
  exact ⟨UInt64.toNat_inj.mp (Text.decimal_inj hx), UInt64.toNat_inj.mp (Text.decimal_inj hy),
    optionalCell_inj hexpected⟩

/-- **The cases can be read off the rows of their outcomes**, up to an empty line. -/
theorem rows_append_inj {limit : UInt64} {cs ds : List Case} {s s' : Text}
    (h : (cs.map (Case.outcome limit)).flatMap outcomeRow ++ (10 :: s) =
      (ds.map (Case.outcome limit)).flatMap outcomeRow ++ (10 :: s')) : cs = ds := by
  rw [List.flatMap_map, List.flatMap_map] at h
  have hnewline : ∀ t : Text, (124 : UInt8) ∉ (10 :: t).head? := fun t hbar =>
    absurd (Option.some.inj hbar) (by decide)
  have hkeys : cs.map id = ds.map id :=
    (Text.flatMap_append_inj (fun _ => rfl) (hnewline s) (hnewline s')
      (fun _ _ _ _ _ _ hrow => outcomeRow_append_inj hrow) h).1
  rwa [List.map_id, List.map_id] at hkeys

/-- The totals can be passed over. -/
theorem totalsRow_append_inj {t t' : Totals} {s s' : Text}
    (h : totalsRow t ++ s = totalsRow t' ++ s') :
    s = s' := by
  have hcells (t : Totals) : ∀ cell ∈ [Text.decimal t.cases, Text.decimal t.ok,
      Text.decimal t.mismatches, Text.decimal t.skipped, Text.decimal t.wrapped], 124 ∉ cell := by
    simp only [List.forall_mem_cons]
    exact ⟨Text.notMem_decimal (by decide) _, Text.notMem_decimal (by decide) _,
      Text.notMem_decimal (by decide) _, Text.notMem_decimal (by decide) _,
      Text.notMem_decimal (by decide) _, fun _ h => absurd h List.not_mem_nil⟩
  exact (tableRow_append_inj (by rfl) (hcells t) (hcells t') h).2

end Report

/-! ## The whole report -/

namespace Comparison

/-- A run that gives a report gives that of all its outcomes. -/
theorem eq_report_of_run {c : Comparison} {clock : Clock} {interrupt : Interrupt} {r : Report}
    (h : (c.run clock interrupt).2 = .ok r) : r = c.report clock c.outcomes := by
  cases interrupt with
  | never => exact (Except.ok.inj h).symm
  | beforeStart why => cases h
  | atEvent number =>
    simp only [run, evaluate] at h
    split at h
    · cases h
    · exact (Except.ok.inj h).symm

/-- The text before the depth limit, which is the same for all runs. -/
def markdownOpening : Text :=
  Text.lit "# Multiplication Comparison Report\n\n" ++ (Text.lit "Methods: " ++
    (Text.joined (Text.lit ", ") Method.names ++
      (Text.lit "  \n" ++ Text.lit "Max recursion depth: ")))

/-- The text between the duration and the totals. -/
def markdownSummary : Text :=
  Text.lit "\n## Summary\n\n" ++ (Text.lit "| Cases | OK | Mismatches | Skipped | Wrapped |\n" ++
    Text.lit "|------:|---:|-----------:|--------:|--------:|\n")

/-- The text between the totals and the rows of the cases. -/
def markdownCases : Text :=
  Text.lit "\n## Cases\n\n" ++
    (Text.lit "| x | y | iterative | recursive | expected | status |\n" ++
      Text.lit "|--:|--:|----------:|----------:|---------:|--------|\n")

/-- The text of a run, part by part. -/
theorem markdown_report (c : Comparison) (clock : Clock) :
    (c.report clock c.outcomes).markdown =
      markdownOpening ++
        (Text.decimal c.maxDepth.toNat ++ (Text.lit "  \n" ++ (Text.lit "Duration: " ++
        (((c.metadata clock).duration ++ Text.lit "  ") ++ 10 :: (markdownSummary ++
          (Report.totalsRow (c.report clock c.outcomes).totals ++ (markdownCases ++
            ((c.cases.map (Case.outcome c.maxDepth)).flatMap Report.outcomeRow ++
              10 :: Report.mismatchesPart (c.report clock c.outcomes).mismatches)))))))) := by
  have hduration : (c.metadata clock).duration.isEmpty = false := by
    rw [List.isEmpty_eq_false_iff]
    exact Duration.text_ne_nil _
  have hmethods : (c.metadata clock).methods.getD [] = Method.names := rfl
  have hdepth : (c.metadata clock).maxDepth = c.maxDepth := rfl
  have hnames : Method.names.isEmpty = false := rfl
  simp only [Report.markdown, Report.descriptionLines, metadata_report, outcomes_report, hduration,
    hmethods, hdepth, hnames, Bool.false_eq_true, if_false, markdownOpening, markdownSummary,
    markdownCases, List.append_assoc]
  rfl

/-- **Nothing that a run has decided is lost in markdown.**  Whatever the settings, the cases, the
clocks and the interruptions of two runs are: if their reports have the same text, they have the
same depth limit, duration and totals, and the same outcomes, with the reasons that the text does
not show. -/
theorem markdown_determines {c₁ c₂ : Comparison} {clock₁ clock₂ : Clock}
    {interrupt₁ interrupt₂ : Interrupt} {r₁ r₂ : Report}
    (h₁ : (c₁.run clock₁ interrupt₁).2 = .ok r₁) (h₂ : (c₂.run clock₂ interrupt₂).2 = .ok r₂)
    (htext : r₁.markdown = r₂.markdown) :
    r₁.metadata.maxDepth = r₂.metadata.maxDepth ∧ r₁.metadata.duration = r₂.metadata.duration ∧
      r₁.totals = r₂.totals ∧ r₁.outcomes = r₂.outcomes := by
  obtain rfl := eq_report_of_run h₁
  obtain rfl := eq_report_of_run h₂
  rw [markdown_report, markdown_report] at htext
  have hblank : ∀ s : Text, ∀ b ∈ (Text.lit "  \n" ++ s).head?, Text.isDigit b = false := by
    intro s b hb
    obtain rfl : 32 = b := Option.some.inj hb
    decide
  obtain ⟨hdepth, htext⟩ :=
    Text.decimal_append_inj (hblank _) (hblank _) (List.append_cancel_left htext)
  have hline : ∀ (c : Comparison) (clock : Clock), 10 ∉ (c.metadata clock).duration ++
      Text.lit "  " :=
    fun c clock => List.not_mem_append (Duration.newline_notMem_text _) (by decide)
  obtain ⟨hduration, htext⟩ := Text.append_cons_inj (hline c₁ clock₁) (hline c₂ clock₂)
    (List.append_cancel_left (List.append_cancel_left htext))
  have hrows :=
    List.append_cancel_left (Report.totalsRow_append_inj (List.append_cancel_left htext))
  have hlimit : c₁.maxDepth = c₂.maxDepth := UInt64.toNat_inj.mp hdepth
  rw [hlimit] at hrows
  have hcases : c₁.cases = c₂.cases := Report.rows_append_inj hrows
  have houtcomes : c₁.outcomes = c₂.outcomes := by rw [outcomes, outcomes, hlimit, hcases]
  rw [metadata_report, metadata_report, outcomes_report, outcomes_report, totals_report,
    totals_report, houtcomes]
  exact ⟨hlimit, List.append_cancel_right hduration, rfl, rfl⟩

/-- Two runs of the same cases, one of them skipped, with different numbers of workers and different
starts. -/
theorem markdown_determines_skipped :
    ∃ r₁ r₂ : Report,
      ((Comparison.mk 5 1 [⟨3, 4, some 13⟩, ⟨2, 6, none⟩]).run ⟨.zero, 1500⟩ .never).2 = .ok r₁ ∧
      ((Comparison.mk 5 8 [⟨3, 4, some 13⟩, ⟨2, 6, none⟩]).run ⟨⟨0, 0, 60⟩, 1500⟩ (.atEvent 3)).2 =
        .ok r₂ ∧
      r₁.markdown = r₂.markdown ∧ r₁ ≠ r₂ ∧ r₁.outcomes = r₂.outcomes := by
  have h₁ : ((Comparison.mk 5 1 [⟨3, 4, some 13⟩, ⟨2, 6, none⟩]).run ⟨.zero, 1500⟩ .never).2 =
      .ok _ := rfl
  have h₂ :
      ((Comparison.mk 5 8 [⟨3, 4, some 13⟩, ⟨2, 6, none⟩]).run ⟨⟨0, 0, 60⟩, 1500⟩ (.atEvent 3)).2 =
        .ok _ := rfl
  have hdetermined := markdown_determines h₁ h₂ (by decide +kernel)
  exact ⟨_, _, h₁, h₂, by decide +kernel, by decide +kernel, hdetermined.2.2.2⟩

end Comparison

end RepeatedAddition
