import Mathlib.Data.List.Nodup
import TimingCharts.Proofs.Verbosity

/-!
# What a run comes to

A run that is refused prints why and touches nothing. Any other attempts its charts in order, each
from the files that the one before it left, and accounts for every one of them: by a line that tells
where it was saved, or by an error that names it. `run_accounts_for_charts` says both. That no error
comes from elsewhere rests on the logs of single charts, which hold none (`quiet_render`).
-/

namespace TimingCharts

namespace Request

theorem nodup_chosen (choices : List Arguments.Choice) : (chosen choices).Nodup := by
  unfold chosen
  split
  · decide
  · refine List.foldlRecOn choices _ List.nodup_nil ?_
    intro charts h choice _
    cases choice with
    | all => exact h
    | one b =>
      dsimp only
      split
      · exact h
      · next hb =>
        rw [← List.concat_eq_append]
        exact List.Nodup.concat hb h

end Request

/-! ## Logs without errors -/

namespace Log

def Quiet (log : List Record) : Prop := ∀ record ∈ log, record.level ≠ .error

theorem quiet_nil : Quiet [] := by simp [Quiet]

theorem quiet_cons {record : Record} {log : List Record} :
    Quiet (record :: log) ↔ record.level ≠ .error ∧ Quiet log :=
  List.forall_mem_cons

theorem quiet_append {log more : List Record} : Quiet (log ++ more) ↔ Quiet log ∧ Quiet more :=
  List.forall_mem_append

end Log

open Log (Quiet quiet_nil quiet_cons quiet_append)

theorem Plot.quiet_addAll (plot : Plot) (series : List (Series Float × Style)) :
    Quiet (plot.addAll series).2 := by
  induction series generalizing plot with
  | nil => exact quiet_nil
  | cons s series ih =>
    unfold addAll
    apply quiet_append.mpr
    refine ⟨?_, ih _⟩
    unfold addSeries
    split
    · simp [Quiet, emptyWarning, Log.Source.record]
    · exact quiet_nil

theorem Plot.quiet_drawingLog (plot : Plot) : Quiet plot.drawingLog := by
  intro record h
  unfold drawingLog at h
  obtain ⟨⟨series, style⟩, -, h⟩ := List.mem_filterMap.mp h
  dsimp only at h
  split at h
  · cases h
  · cases h
    simp [skippedWarning, Log.Source.record]

theorem Plot.quiet_save (plot : Plot) (path : Path) (files : Files) (host : Host) :
    Quiet (plot.save path files host).log := by
  unfold save
  split
  · split <;> exact plot.quiet_drawingLog
  · split <;> exact quiet_drawingLog _

theorem Plot.quiet_render (plot : Plot) (path : Path) (files : Files) (host : Host) :
    Quiet (plot.render path files host).log := by
  have saved := plot.quiet_save path.scratch files host
  unfold render
  split
  · exact quiet_nil
  · dsimp only
    split
    · exact saved
    · split <;> exact saved

theorem Viewer.quiet_openLog (viewer : Viewer) (files : Files) (path : Path) :
    Quiet (viewer.openLog files path) := by
  unfold openLog
  split <;> simp [Quiet, Log.Source.record]

namespace Benchmark

variable (b : Benchmark) (r : Request) (viewer : Viewer) (host : Host)

theorem quiet_load (files : Files) : Quiet (b.load r files host).2 := by
  unfold load
  dsimp only
  split
  · exact quiet_nil
  · exact quiet_nil
  · split
    · exact quiet_nil
    · simp [Quiet, Log.Source.record]

theorem quiet_plan (table : Table) : Quiet (b.plan table).2 := by
  unfold plan
  dsimp only
  apply quiet_cons.mpr
  exact ⟨by simp [Log.Source.record], Plot.quiet_addAll _ _⟩

theorem quiet_draw (table : Table) (files : Files) :
    Quiet (b.draw r viewer table files host).log := by
  have detected : Quiet ((b.threads table).toList.map fun n =>
      Log.Source.benchmark.record .debug s!"{b.name}: threads detected: {n.toNat}") := by
    simp [Quiet, Log.Source.record]
  have planned := quiet_append.mpr ⟨detected, b.quiet_plan table⟩
  unfold draw
  dsimp only
  split
  · exact planned
  · have drawn (plot : Plot) :=
      quiet_append.mpr ⟨planned, plot.quiet_render (r.output b) files host⟩
    split
    · exact drawn _
    · apply quiet_append.mpr
      refine ⟨drawn _, ?_⟩
      split
      · exact viewer.quiet_openLog _ _
      · exact quiet_nil

theorem quiet_render (files : Files) : Quiet (b.render r viewer files host).log := by
  have loaded := b.quiet_load r host files
  unfold render
  split
  · next h => rwa [h] at loaded
  · next h =>
    rw [h] at loaded
    exact quiet_append.mpr ⟨loaded, b.quiet_draw r viewer host _ files⟩

end Benchmark

namespace Program

/-! ## Attempts -/

/-- Charts attempted one after the other, each from the files that the one before it left. -/
inductive Attempts (r : Request) (viewer : Viewer) (host : Host) :
    Files → List (Benchmark × Outcome Failure Rendered) → Files → Prop where
  | none (files : Files) : Attempts r viewer host files [] files
  | next {files after : Files} {outcomes : List (Benchmark × Outcome Failure Rendered)}
      (b : Benchmark) : Attempts r viewer host (b.render r viewer files host).files outcomes after →
      Attempts r viewer host files ((b, b.render r viewer files host) :: outcomes) after

section
variable {r : Request} {viewer : Viewer} {host : Host}

theorem attempts_renderAll (charts : List Benchmark) (files : Files) :
    Attempts r viewer host files (renderAll r viewer charts files host).1
      (renderAll r viewer charts files host).2 := by
  induction charts generalizing files with
  | nil => exact .none files
  | cons b rest ih => exact .next b (ih _)

theorem map_fst_renderAll (charts : List Benchmark) (files : Files) :
    (renderAll r viewer charts files host).1.map Prod.fst = charts := by
  induction charts generalizing files with
  | nil => rfl
  | cons b rest ih => exact congrArg (b :: ·) (ih _)

theorem Attempts.quiet {files after : Files}
    {outcomes : List (Benchmark × Outcome Failure Rendered)}
    (h : Attempts r viewer host files outcomes after) : ∀ p ∈ outcomes, Quiet p.2.log := by
  induction h with
  | none => simp
  | @next files _ _ b _ ih =>
    exact List.forall_mem_cons.mpr ⟨b.quiet_render r viewer host files, ih⟩

end

def failures (outcomes : List (Benchmark × Outcome Failure Rendered)) :
    List (Benchmark × Failure) :=
  outcomes.filterMap fun p =>
    match p.2.result with
    | .ok _ => none
    | .error failure => some (p.1, failure)

theorem length_failures (outcomes : List (Benchmark × Outcome Failure Rendered)) :
    (failures outcomes).length = (outcomes.filter fun p => failed p.2).length := by
  induction outcomes with
  | nil => rfl
  | cons p rest ih =>
    obtain ⟨b, result, log, files⟩ := p
    cases result with
    | ok rendered => simpa [failures, failed] using ih
    | error failure => simpa [failures, failed] using ih

/-! ## Errors that are printed -/

def tellsError (line : String) : Bool := "ERROR".toList.isPrefixOf line.toList

def errorLines (emissions : List Emission) : List String :=
  (lines .stderr emissions).filter tellsError

def failureLine (p : Benchmark × Failure) : String :=
  s!"ERROR [perf-charts] {p.1.name}: {p.2.message}"

def summaryLine (failed requested : Nat) : String :=
  s!"ERROR [perf-charts] {failed} of {requested} charts failed"

theorem errorLines_append (l l' : List Emission) :
    errorLines (l ++ l') = errorLines l ++ errorLines l' := by
  simp [errorLines, lines]

theorem toList_line (logger : Log.Logger) (record : Log.Record) :
    ∃ rest, (logger.line record).toList =
      (record.level.name.pushn ' ' (5 - record.level.name.length)).toList ++ rest := by
  unfold Log.Logger.line
  simp only [String.toList_append, List.append_assoc]
  exact ⟨_, rfl⟩

theorem tellsError_line (logger : Log.Logger) (record : Log.Record) :
    tellsError (logger.line record) = decide (record.level = .error) := by
  obtain ⟨rest, h⟩ := toList_line logger record
  unfold tellsError
  rw [h]
  cases record.level <;> rfl

theorem line_error (t : Log.Threshold) (message : String) :
    (logger t).line (Log.Source.main.record .error message) =
      "ERROR [perf-charts] " ++ message := by
  have front : "ERROR".pushn ' ' (5 - "ERROR".length) ++ " [" ++ "perf-charts" ++ "] " =
      "ERROR [perf-charts] " := by decide
  rw [← front]
  rfl

theorem line_failureRecord (t : Log.Threshold) (p : Benchmark × Failure) :
    (logger t).line (failureRecord p.1 p.2) = failureLine p := by
  unfold failureRecord failureLine
  rw [line_error]
  simp only [toString, String.append_assoc]

theorem logged_error {logger : Log.Logger} (h : logger.enabled .error = true)
    {record : Log.Record} (hr : record.level = .error) :
    logged logger record = [⟨.stderr, true, logger.line record⟩] := by
  unfold logged
  rw [hr, if_pos h]
  rfl

theorem errorLines_error {logger : Log.Logger} (h : logger.enabled .error = true)
    {record : Log.Record} (hr : record.level = .error) :
    errorLines (logged logger record) = [logger.line record] := by
  rw [logged_error h hr]
  simp [errorLines, lines, tellsError_line, hr]

theorem errorLines_quiet (logger : Log.Logger) {log : List Log.Record} (h : Quiet log) :
    errorLines (log.flatMap (logged logger)) = [] := by
  induction log with
  | nil => rfl
  | cons record log ih =>
    obtain ⟨hr, h⟩ := quiet_cons.mp h
    rw [List.flatMap_cons, errorLines_append, ih h, List.append_nil]
    unfold logged
    split
    · unfold errorLines lines
      rw [List.filter_eq_nil_iff]
      intro line hline
      simp only [List.mem_map, List.mem_filter, List.mem_singleton] at hline
      obtain ⟨e, ⟨rfl, -⟩, rfl⟩ := hline
      simp [tellsError_line, hr]
    · rfl

theorem errorLines_outcomes {t : Log.Threshold} (ht : (logger t).enabled .error = true)
    {outcomes : List (Benchmark × Outcome Failure Rendered)} (h : ∀ p ∈ outcomes, Quiet p.2.log) :
    errorLines (outcomes.flatMap fun p => chartEmissions (logger t) p.1 p.2) =
      (failures outcomes).map failureLine := by
  induction outcomes with
  | nil => rfl
  | cons p rest ih =>
    obtain ⟨b, result, log, files⟩ := p
    obtain ⟨hp, hrest⟩ := List.forall_mem_cons.mp h
    rw [List.flatMap_cons, errorLines_append, ih hrest, chartEmissions, errorLines_append,
      errorLines_quiet _ hp, List.nil_append]
    cases result with
    | ok rendered => rfl
    | error failure =>
      dsimp only
      rw [errorLines_error ht rfl, line_failureRecord _ (b, failure)]
      rfl

/-! ## Runs that start -/

/-- What a run accounts for: the charts that were attempted and what came of them. -/
structure Accounts (r : Request) (viewer : Viewer) (host : Host) (files : Files)
    (outcomes : List (Benchmark × Outcome Failure Rendered)) (exit : Exit) : Prop where
  attempts : Attempts r viewer host files outcomes exit.files
  charts : outcomes.map Prod.fst = r.charts
  saved : savedLines exit.emissions = messages (results outcomes)
  errors : errorLines exit.emissions = (failures outcomes).map failureLine ++
    if failures outcomes = [] then []
    else [summaryLine (failures outcomes).length r.charts.length]
  last : failures outcomes ≠ [] → exit.emissions.getLast? =
    some ⟨.stderr, true, summaryLine (failures outcomes).length r.charts.length⟩
  code : exit.code = if failures outcomes = [] then 0 else 1

theorem closing_eq (r : Request) (outcomes : List (Benchmark × Outcome Failure Rendered)) :
    closing r outcomes = if failures outcomes = [] then []
      else [Log.Source.main.record .error
        s!"{(failures outcomes).length} of {r.charts.length} charts failed"] := by
  unfold closing
  rw [← length_failures]
  simp only [List.length_eq_zero_iff]

theorem line_summary (t : Log.Threshold) (failed requested : Nat) :
    (logger t).line (Log.Source.main.record .error s!"{failed} of {requested} charts failed") =
      summaryLine failed requested := by
  unfold summaryLine
  rw [line_error]
  simp only [toString, String.append_assoc]

theorem accounts_perform {r : Request} (h : (logger r.threshold).enabled .error = true)
    (viewer : Viewer) (host : Host) (files : Files) :
    ∃ outcomes, Accounts r viewer host files outcomes (perform r viewer files host) := by
  have attempts : Attempts r viewer host files _ _ := attempts_renderAll r.charts files
  have opened : Quiet (opening r) := by simp [opening, Quiet, Request.report, Log.Source.record]
  refine ⟨(renderAll r viewer r.charts files host).1, attempts, map_fst_renderAll .., ?_, ?_, ?_, ?_⟩
  · exact savedLines_perform r viewer host files
  · rw [emissions_perform r viewer host rfl, errorLines_append, errorLines_append,
      errorLines_quiet _ opened, errorLines_outcomes h attempts.quiet, List.nil_append, closing_eq]
    split
    · rfl
    · rw [List.flatMap_singleton, errorLines_error h rfl, line_summary]
  · intro hf
    rw [emissions_perform r viewer host rfl, closing_eq, if_neg hf, List.flatMap_singleton,
      logged_error h rfl, List.getLast?_concat, line_summary]
  · have hcode : (perform r viewer files host).code =
        if ((renderAll r viewer r.charts files host).1.filter fun p => failed p.2).length = 0
        then 0 else 1 := rfl
    rw [hcode, ← length_failures]
    simp only [List.length_eq_zero_iff]

/-- Settings name a level, and flags only raise it: errors are always printed. -/
theorem enabled_error (i : Invocation) (s : Settings) :
    (logger (Request.ofInvocation i s).threshold).enabled .error = true := by
  have hlevel : 1 ≤ s.general.logging.rank := by cases s.general.logging <;> decide
  have hraise := Log.Threshold.rank_le_raise (some s.general.logging) i.verbosity
  exact decide_eq_true (hlevel.trans hraise)

end Program

/-- The settings of an invocation: those of its file, or the usual ones if it names none. -/
def Invocation.settings (files : Files) (i : Invocation) : Except Failure Settings :=
  match i.config with
  | some file => Settings.load files file
  | none => .ok {}

theorem Request.ofArguments_eq {arguments : List String} {i : Invocation}
    (h : Arguments.parse arguments = .ok i) (files : Files) :
    ofArguments files arguments = (i.settings files).map (ofInvocation i) := by
  simp only [ofArguments, Invocation.settings, h, Except.mapError, bind, Except.bind]
  cases i.config with
  | none => rfl
  | some file => cases Settings.load files file <;> rfl

theorem exists_settings_of_error {files : Files} {i : Invocation} {failure : Failure}
    (h : i.settings files = .error failure) : ∃ file fault, failure = .settings file fault := by
  unfold Invocation.settings at h
  cases hc : i.config with
  | none => simp [hc] at h
  | some file =>
    simp only [hc, Settings.load] at h
    unfold Except.mapError at h
    split at h
    · cases h
      exact ⟨file, _, rfl⟩
    · cases h

namespace Program

theorem refuse_eq {failure : Failure} (files : Files)
    (h : ∀ rejection, failure = .usage rejection →
      rejection.fault ≠ .helpRequested ∧ rejection.fault ≠ .versionRequested) :
    refuse failure files = ⟨1, [plain .stderr failure.message], files⟩ := by
  unfold refuse
  split
  · exact absurd rfl (h _ rfl).1
  · exact absurd rfl (h _ rfl).2
  · rfl

end Program

/-- A run that is refused, and was not asked for help or the version, says why on the error stream
and leaves all files alone. Any other attempts each chart once and in order, whatever became of
those before it, tells where each chart was saved and which ones failed, with their number at the
end if there are any, and exits with zero if there are none. What it tells is counted in lines: a
line is what is printed at once, so that a text with a line feed in it counts as one. -/
theorem run_accounts_for_charts (arguments : List String) (viewer : Viewer) (files : Files)
    (host : Host) :
    let exit := Program.run arguments viewer files host
    (∀ rejection, Arguments.parse arguments = .error rejection →
      rejection.fault ≠ .helpRequested → rejection.fault ≠ .versionRequested →
      exit = ⟨1, [Program.plain .stderr rejection.message], files⟩) ∧
    ∀ i, Arguments.parse arguments = .ok i →
      (∀ failure, i.settings files = .error failure →
        exit = ⟨1, [Program.plain .stderr failure.message], files⟩) ∧
      ∀ settings, i.settings files = .ok settings →
        let r := Request.ofInvocation i settings
        r.charts.Nodup ∧ ∃ outcomes, Program.Accounts r viewer host files outcomes exit := by
  intro exit
  refine ⟨?_, fun i hi => ⟨?_, ?_⟩⟩
  · intro rejection h hh hv
    have hr : Request.ofArguments files arguments = .error (.usage rejection) := by
      unfold Request.ofArguments
      rw [h]
      rfl
    simp only [exit, Program.run, hr]
    refine Program.refuse_eq files ?_
    intro _ heq
    cases heq
    exact ⟨hh, hv⟩
  · intro failure h
    obtain ⟨file, fault, rfl⟩ := exists_settings_of_error h
    have hr := Request.ofArguments_eq hi files
    rw [h] at hr
    simp only [exit, Program.run, hr, Except.map]
    exact Program.refuse_eq files nofun
  · intro settings h r
    have hr := Request.ofArguments_eq hi files
    rw [h] at hr
    simp only [exit, Program.run, hr, Except.map]
    exact ⟨Request.nodup_chosen _, Program.accounts_perform (Program.enabled_error i settings) ..⟩

theorem run_accounts_for_charts_one_failed :
    let files : Files :=
      ⟨[], [(["results.csv".toList],
        .file (.bytes "n,method,time\n1,recursive,2\n".toUTF8.toList))]⟩
    let invocation : Invocation := { charts := [.one .bubbleSort, .one .mergeSort] }
    let exit := Program.run ["charts", "bubble-sort", "merge-sort"] .missing files
    let refused := Program.run ["charts", "--config", "charts.toml"] .missing files
    Arguments.parse ["charts", "bubble-sort", "merge-sort"] = .ok invocation ∧
      (∃ outcomes,
        Program.Accounts (.ofInvocation invocation {}) .missing .standard files outcomes exit) ∧
      exit.code = 1 ∧
      Program.savedLines exit.emissions = ["Plot saved as mergesort_performance.png"] ∧
      Program.errorLines exit.emissions =
        ["ERROR [perf-charts] bubble-sort: './benchmark_results.csv' not found. " ++
          "Run the C++ bubble sort benchmark first.",
         "ERROR [perf-charts] 1 of 2 charts failed"] ∧
      refused = ⟨1, [Program.plain .stderr
        "failed to load config 'charts.toml': No such file or directory (os error 2)"], files⟩ := by
  intro files invocation exit refused
  have hi : Arguments.parse ["charts", "bubble-sort", "merge-sort"] = .ok invocation := by decide
  have hi' : Arguments.parse ["charts", "--config", "charts.toml"] =
      .ok { config := some "charts.toml" } := by decide
  have hs : Invocation.settings files { config := some "charts.toml" } =
      .error (.settings "charts.toml" (.files .notFound)) := by decide +kernel
  obtain ⟨-, accounts⟩ :=
    ((run_accounts_for_charts _ .missing files .standard).2 invocation hi).2 {} rfl
  refine ⟨hi, accounts, by decide +kernel, by decide +kernel, by decide +kernel, ?_⟩
  exact ((run_accounts_for_charts _ .missing files .standard).2 _ hi').1 _ hs

end TimingCharts
