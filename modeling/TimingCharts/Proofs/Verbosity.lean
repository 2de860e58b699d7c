import Mathlib.Data.List.Flatten
import TimingCharts.Proofs.AddedFlags
import TimingCharts.Proofs.ChartOrder

/-!
# Verbose runs

How much a run says, and whether it opens its charts, has no effect on what it does. Two runs whose
arguments differ in such flags only make requests that differ in threshold and opening only, and
chart by chart come to the same: `flags_change_no_result`.
-/

namespace TimingCharts

/-! ## Thresholds -/

namespace Log.Threshold

theorem ofRank_of_le {n : Nat} (h : 5 ≤ n) : ofRank n = some .trace := by
  obtain ⟨m, rfl⟩ := Nat.exists_eq_add_of_le' h
  rfl

theorem rank_ofRank (n : Nat) : rank (ofRank n) = min n 5 := by
  by_cases h : 5 ≤ n
  · rw [ofRank_of_le h, Nat.min_eq_right h]
    rfl
  · have few : ∀ n < 5, rank (ofRank n) = min n 5 := by decide
    exact few n (by omega)

theorem raise_raise (t : Threshold) (k n : Nat) : raise (raise t k) n = raise t (k + n) := by
  unfold raise
  rw [rank_ofRank]
  by_cases h : 5 ≤ rank t + k
  · rw [ofRank_of_le, ofRank_of_le] <;> omega
  · rw [Nat.min_eq_left (by omega), Nat.add_assoc]

theorem rank_le_raise (t : Threshold) (k : Nat) : rank t ≤ rank (raise t k) := by
  have : rank t ≤ 5 := by
    cases t with
    | none => simp [rank]
    | some level => cases level <;> simp [rank, Level.rank]
  rw [raise, rank_ofRank]
  omega

end Log.Threshold

/-! ## Requests -/

namespace Request

def withFlags (r : Request) (k j : Nat) : Request :=
  { r with threshold := r.threshold.raise k, opens := r.opens || decide (0 < j) }

theorem ofInvocation_withFlags (i : Invocation) (s : Settings) (k j : Nat) :
    ofInvocation (i.withFlags k j) s = (ofInvocation i s).withFlags k j := by
  simp only [ofInvocation, Invocation.withFlags, withFlags, Bool.or_assoc]
  rw [Log.Threshold.raise_raise]

theorem ofArguments_withFlags {k j : Nat} {arguments arguments' : List String} {i : Invocation}
    (h : Arguments.parse arguments = .ok i)
    (h' : Arguments.parse arguments' = .ok (i.withFlags k j)) (files : Files) :
    ofArguments files arguments' = (ofArguments files arguments).map (withFlags · k j) := by
  have hc : (i.withFlags k j).config = i.config := rfl
  simp only [ofArguments, h, h', Except.mapError, bind, Except.bind, hc]
  split
  · cases Settings.load files _ with
    | error failure => rfl
    | ok settings => exact congrArg Except.ok (ofInvocation_withFlags ..)
  · exact congrArg Except.ok (ofInvocation_withFlags ..)

end Request

/-! ## Charts -/

namespace Benchmark

variable (b : Benchmark) (r : Request) (viewer viewer' : Viewer) (host : Host)

theorem render_threshold (t : Log.Threshold) (files : Files) :
    b.render { r with threshold := t } viewer files host = b.render r viewer files host := by
  delta render load draw
  rfl

theorem render_opens (t : Log.Threshold) (opens : Bool) (files : Files) :
    let r' := { r with threshold := t, opens }
    (b.render r' viewer' files host).result = (b.render r viewer files host).result ∧
      (b.render r' viewer' files host).files = (b.render r viewer files host).files := by
  intro r'
  have hload : (b.load r' files host).1 = (b.load r files host).1 := by
    rw [load_eq, load_eq]
    rfl
  cases h : (b.load r files host).1 with
  | error failure =>
    rw [h] at hload
    obtain ⟨h₁, h₂⟩ := render_of_error viewer h
    obtain ⟨h₁', h₂'⟩ := render_of_error viewer' hload
    rw [h₁, h₁', h₂, h₂']
    exact ⟨rfl, rfl⟩
  | ok table =>
    rw [h] at hload
    obtain ⟨h₁, h₂⟩ := render_of_loaded viewer h
    obtain ⟨h₁', h₂'⟩ := render_of_loaded viewer' hload
    rw [h₁, h₁', h₂, h₂']
    by_cases hs : (b.plot r table).series = []
    · obtain ⟨h₃, h₄⟩ := draw_of_empty viewer files host hs
      obtain ⟨h₃', h₄'⟩ := draw_of_empty (r := r') viewer' files host hs
      exact ⟨h₃'.trans h₃.symm, h₄'.trans h₄.symm⟩
    · obtain ⟨h₃, h₄⟩ := draw_of_series viewer files host hs
      obtain ⟨h₃', h₄'⟩ := draw_of_series (r := r') viewer' files host hs
      exact ⟨h₄'.trans h₄.symm, h₃'.trans h₃.symm⟩

end Benchmark

namespace Program

variable (r : Request) (viewer viewer' : Viewer) (host : Host)

theorem renderAll_threshold (t : Log.Threshold) (charts : List Benchmark) (files : Files) :
    renderAll { r with threshold := t } viewer charts files host =
      renderAll r viewer charts files host := by
  induction charts generalizing files with
  | nil => rfl
  | cons b rest ih =>
    rw [renderAll, renderAll, b.render_threshold, ih]

def results (outcomes : List (Benchmark × Outcome Failure Rendered)) :
    List (Benchmark × Except Failure Rendered) :=
  outcomes.map fun p => (p.1, p.2.result)

theorem renderAll_opens (t : Log.Threshold) (opens : Bool) (charts : List Benchmark)
    (files : Files) :
    let r' := { r with threshold := t, opens }
    (renderAll r' viewer' charts files host).2 = (renderAll r viewer charts files host).2 ∧
      results (renderAll r' viewer' charts files host).1 =
        results (renderAll r viewer charts files host).1 := by
  intro r'
  induction charts generalizing files with
  | nil => exact ⟨rfl, rfl⟩
  | cons b rest ih =>
    obtain ⟨hresult, hfiles⟩ := b.render_opens r viewer viewer' host t opens files
    obtain ⟨ih₁, ih₂⟩ := ih (b.render r viewer files host).files
    simp only [renderAll, results, List.map_cons]
    rw [hresult, hfiles]
    exact ⟨ih₁, congrArg _ ih₂⟩

/-! ## What is printed -/

/-- The lines on a stream, without time stamps: a line is what is printed at once. -/
def lines (stream : Log.Stream) (emissions : List Emission) : List String :=
  (emissions.filter (·.stream = stream)).map Emission.text

def tellsSaved (line : String) : Bool := "Plot saved as".toList.isPrefixOf line.toList

def savedLines (emissions : List Emission) : List String :=
  (lines .stdout emissions).filter tellsSaved

theorem savedLines_append (l l' : List Emission) :
    savedLines (l ++ l') = savedLines l ++ savedLines l' := by
  simp [savedLines, lines]

theorem savedLines_flatMap {α : Type} (f : α → List Emission) (l : List α) :
    savedLines (l.flatMap f) = l.flatMap fun a => savedLines (f a) := by
  induction l with
  | nil => rfl
  | cons a l ih => rw [List.flatMap_cons, savedLines_append, ih, List.flatMap_cons]

theorem not_tellsSaved_line (logger : Log.Logger) (record : Log.Record) :
    tellsSaved (logger.line record) = false := by
  have first : ∀ level : Log.Level,
      ∃ c, (level.name.pushn ' ' (5 - level.name.length)).toList.head? = some c ∧ c ≠ 'P' := by
    intro level
    cases level <;> exact ⟨_, rfl, by decide⟩
  obtain ⟨c, hc, hne⟩ := first record.level
  rw [← Bool.not_eq_true, tellsSaved, List.isPrefixOf_iff_prefix]
  rintro ⟨rest, hrest⟩
  have hP : (logger.line record).toList.head? = some 'P' := by
    rw [← hrest]
    rfl
  simp only [Log.Logger.line, String.toList_append, List.append_assoc, List.head?_append, hc] at hP
  cases hP
  exact hne rfl

theorem savedLines_logged (logger : Log.Logger) (record : Log.Record) :
    savedLines (logged logger record) = [] := by
  unfold logged
  split
  · unfold savedLines lines
    rw [List.filter_eq_nil_iff]
    intro line hline
    simp only [List.mem_map, List.mem_filter, List.mem_singleton] at hline
    obtain ⟨e, ⟨rfl, -⟩, rfl⟩ := hline
    rw [not_tellsSaved_line]
    decide
  · rfl

theorem savedLines_records (logger : Log.Logger) (records : List Log.Record) :
    savedLines (records.flatMap (logged logger)) = [] := by
  simp [savedLines_flatMap, savedLines_logged]

theorem tellsSaved_message (rendered : Rendered) : tellsSaved rendered.message = true := by
  have hmark : "Plot saved as ".toList = "Plot saved as".toList ++ [' '] := rfl
  rw [tellsSaved, List.isPrefixOf_iff_prefix]
  delta Rendered.message
  simp only [String.toList_append, toString, hmark, List.append_assoc]
  exact List.prefix_append ..

theorem savedLines_message (rendered : Rendered) :
    savedLines [plain .stdout rendered.message] = [rendered.message] := by
  simp [savedLines, lines, plain, tellsSaved_message]

def messages (results : List (Benchmark × Except Failure Rendered)) : List String :=
  results.filterMap fun p => p.2.toOption.map Rendered.message

theorem savedLines_outcomes (logger : Log.Logger)
    (outcomes : List (Benchmark × Outcome Failure Rendered)) :
    savedLines (outcomes.flatMap fun p => chartEmissions logger p.1 p.2) =
      messages (results outcomes) := by
  induction outcomes with
  | nil => rfl
  | cons p rest ih =>
    obtain ⟨b, result, log, files⟩ := p
    rw [List.flatMap_cons, savedLines_append, ih, chartEmissions, savedLines_append,
      savedLines_records, List.nil_append]
    cases result with
    | error failure =>
      simp only [savedLines_logged]
      rfl
    | ok rendered =>
      simp only [savedLines_message]
      rfl

/-! ## Whole runs -/

def logger (t : Log.Threshold) : Log.Logger := { label := Arguments.packageName, threshold := t }

def opening (r : Request) : List Log.Record :=
  Log.Source.main.record .info
    s!"{Arguments.packageName} {Arguments.packageVersion} initializing..." :: r.report

def closing (r : Request) (outcomes : List (Benchmark × Outcome Failure Rendered)) :
    List Log.Record :=
  let failures := (outcomes.filter fun p => failed p.2).length
  if failures = 0 then []
  else [Log.Source.main.record .error s!"{failures} of {r.charts.length} charts failed"]

theorem emissions_perform {files : Files}
    {outcomes : List (Benchmark × Outcome Failure Rendered)}
    (h : (renderAll r viewer r.charts files host).1 = outcomes) :
    (perform r viewer files host).emissions = (opening r).flatMap (logged (logger r.threshold)) ++
      outcomes.flatMap (fun p => chartEmissions (logger r.threshold) p.1 p.2) ++
      (closing r outcomes).flatMap (logged (logger r.threshold)) := by
  have hclosing : (closing r outcomes).flatMap (logged (logger r.threshold)) =
      if (outcomes.filter fun p => failed p.2).length = 0 then []
      else logged (logger r.threshold) (Log.Source.main.record .error
        s!"{(outcomes.filter fun p => failed p.2).length} of {r.charts.length} charts failed") := by
    unfold closing
    dsimp only
    split
    · rfl
    · exact List.flatMap_singleton ..
  rw [hclosing, ← h]
  rfl

theorem savedLines_perform (files : Files) :
    savedLines (perform r viewer files host).emissions =
      messages (results (renderAll r viewer r.charts files host).1) := by
  rw [emissions_perform r viewer host rfl, savedLines_append, savedLines_append, savedLines_outcomes,
    savedLines_records, savedLines_records, List.nil_append, List.append_nil]

theorem logged_sublist {t t' : Log.Threshold} (h : t.rank ≤ t'.rank) (record : Log.Record) :
    (logged (logger t) record).Sublist (logged (logger t') record) := by
  unfold logged
  by_cases he : (logger t).enabled record.level = true
  · have he' : (logger t').enabled record.level = true := by
      unfold Log.Logger.enabled at he ⊢
      exact decide_eq_true ((of_decide_eq_true he).trans h)
    rw [if_pos he, if_pos he']
    exact .refl _
  · rw [if_neg he]
    exact List.nil_sublist _

theorem chartEmissions_sublist {t t' : Log.Threshold} (h : t.rank ≤ t'.rank) (b : Benchmark)
    (o : Outcome Failure Rendered) :
    (chartEmissions (logger t) b o).Sublist (chartEmissions (logger t') b o) := by
  unfold chartEmissions
  apply List.Sublist.append
  · exact List.Sublist.flatMap_right _ fun record _ => logged_sublist h record
  · cases o.result with
    | ok rendered => exact .refl _
    | error failure => exact logged_sublist h _

/-- A run at a higher threshold prints what it prints at a lower one, and more in between. -/
theorem emissions_sublist {t : Log.Threshold} (h : r.threshold.rank ≤ t.rank) (files : Files) :
    (perform r viewer files host).emissions.Sublist
      (perform { r with threshold := t } viewer files host).emissions := by
  have hall := renderAll_threshold r viewer host t r.charts files
  rw [emissions_perform r viewer host rfl,
    emissions_perform { r with threshold := t } viewer host (congrArg Prod.fst hall)]
  apply List.Sublist.append
  · apply List.Sublist.append
    · exact List.Sublist.flatMap_right _ fun record _ => logged_sublist h record
    · exact List.Sublist.flatMap_right _ fun p _ => chartEmissions_sublist h p.1 p.2
  · exact List.Sublist.flatMap_right _ fun record _ => logged_sublist h record

theorem code_perform_results (files : Files) : (perform r viewer files host).code =
    if (results (renderAll r viewer r.charts files host).1).all (·.2.isOk) then 0 else 1 :=
  code_perform r viewer r.charts files host

/-- Two runs that come to the same, however much they say about it. -/
structure SameResult (before after : Exit) : Prop where
  code : after.code = before.code
  files : after.files = before.files
  saved : savedLines after.emissions = savedLines before.emissions

theorem sameResult_perform (k j : Nat) (files : Files) :
    SameResult (perform r viewer files host) (perform (r.withFlags k j) viewer' files host) := by
  obtain ⟨hfiles, hresults⟩ := renderAll_opens r viewer viewer' host (r.threshold.raise k)
    (r.opens || decide (0 < j)) r.charts files
  let r' := r.withFlags k j
  have hresults : results (renderAll r' viewer' r'.charts files host).1 =
      results (renderAll r viewer r.charts files host).1 := hresults
  refine ⟨?_, hfiles, ?_⟩
  · rw [code_perform_results, code_perform_results, hresults]
  · rw [savedLines_perform, savedLines_perform, hresults]

theorem lines_perform (k : Nat) (files : Files) (stream : Log.Stream) :
    (lines stream (perform r viewer files host).emissions).Sublist
      (lines stream (perform (r.withFlags k 0) viewer files host).emissions) := by
  have hr : r.withFlags k 0 = { r with threshold := r.threshold.raise k } := by
    simp [Request.withFlags]
  rw [hr]
  have hrank := Log.Threshold.rank_le_raise r.threshold k
  exact ((emissions_sublist r viewer host hrank files).filter _).map _

section
variable {k j : Nat} {arguments arguments' : List String} {i : Invocation}
  (h : Arguments.parse arguments = .ok i)
include h

theorem sameResult_run (h' : Arguments.parse arguments' = .ok (i.withFlags k j)) (files : Files) :
    SameResult (run arguments viewer files host) (run arguments' viewer' files host) := by
  unfold run
  rw [Request.ofArguments_withFlags h h' files]
  cases Request.ofArguments files arguments with
  | ok r => exact sameResult_perform r viewer viewer' host k j files
  | error failure => exact ⟨rfl, rfl, rfl⟩

theorem lines_run (h' : Arguments.parse arguments' = .ok (i.withFlags k 0)) (files : Files)
    (stream : Log.Stream) :
    (lines stream (run arguments viewer files host).emissions).Sublist
      (lines stream (run arguments' viewer files host).emissions) := by
  unfold run
  rw [Request.ofArguments_withFlags h h' files]
  cases Request.ofArguments files arguments with
  | ok r => exact lines_perform r viewer host k files stream
  | error failure => exact .refl _

end

end Program

/-- Flags that make a run say more or open its charts change neither its exit code nor the files
nor what it says about saved charts. With more verbosity each stream has the lines it had, with
others in between; a line is what is printed at once, so that a text with a line feed in it counts
as one. Such flags are accepted at the start of any arguments and after any of them that
make sense on their own, up to `--`; `--show` unless it is given already. -/
theorem flags_change_no_result {k j : Nat} {fewer more : List String}
    (added : Arguments.Adds k j fewer more) (program : String) {i i' : Invocation}
    (hf : Arguments.parse (program :: fewer) = .ok i)
    (hm : Arguments.parse (program :: more) = .ok i') (viewer viewer' : Viewer) (files : Files)
    (host : Host) :
    let before := Program.run (program :: fewer) viewer files host
    let after := Program.run (program :: more) viewer' files host
    Program.SameResult before after ∧
      (j = 0 → viewer' = viewer → ∀ stream,
        (Program.lines stream before.emissions).Sublist (Program.lines stream after.emissions)) ∧
      ∀ n s flags first rest, Arguments.Adds n s [] flags → s = 0 ∨ s = 1 ∧ i.showing = false →
        fewer = first ++ rest → "--" ∉ first →
        (∃ i₀, Arguments.parse (program :: first) = .ok i₀) →
        Arguments.Adds n s fewer (first ++ (flags ++ rest)) ∧
          ∃ i₁, Arguments.parse (program :: (first ++ (flags ++ rest))) = .ok i₁ := by
  intro before after
  have hi := Arguments.parse_adds added hf hm
  subst hi
  refine ⟨Program.sameResult_run viewer viewer' host hf hm files, ?_, ?_⟩
  · rintro rfl rfl stream
    exact Program.lines_run viewer' host hf hm files stream
  · rintro n s flags first rest hflags hs rfl hends hfirst
    exact ⟨hflags.insert first rest, Arguments.parse_flags_insert hflags hfirst hends hf hs⟩

theorem flags_change_no_result_merge_sort :
    let files : Files :=
      ⟨[], [(["results.csv".toList],
        .file (.bytes "n,method,time\n1,recursive,2\n".toUTF8.toList))]⟩
    let run := fun arguments viewer => Program.run ("charts" :: arguments) viewer files
    let quiet := run ["-C.", "merge-sort"] (.starts "7")
    let loud := run ["--verbose", "-vC.", "merge-sort"] (.starts "7")
    let shown := run ["-C.", "--show", "merge-sort", "-v"] .missing
    Arguments.parse ["charts", "-C.", "merge-sort"] = .ok
        { directory := some ".", charts := [.one .mergeSort] } ∧
      Program.savedLines loud.emissions = ["Plot saved as mergesort_performance.png"] ∧
      loud.files = quiet.files ∧
      (Program.lines .stdout quiet.emissions).Sublist (Program.lines .stdout loud.emissions) ∧
      shown.code = 0 ∧ shown.files = quiet.files := by
  intro files run quiet loud shown
  have hquiet : Arguments.parse ["charts", "-C.", "merge-sort"] = .ok
      { directory := some ".", charts := [.one .mergeSort] } := by decide
  have hsaved : Program.savedLines quiet.emissions =
      ["Plot saved as mergesort_performance.png"] := by decide +kernel
  have hcode : quiet.code = 0 := by decide +kernel
  have hloud : Arguments.Adds 2 0 ["-C.", "merge-sort"] ["--verbose", "-vC.", "merge-sort"] :=
    .verbose (.joined 1 (by decide) (.keep _ .nil))
  have hshown : Arguments.Adds 1 1 ["-C.", "merge-sort"] ["-C.", "--show", "merge-sort", "-v"] :=
    .keep _ (.showing (.keep _ (.bundle 0 .nil)))
  have hloud' : Arguments.parse ["charts", "--verbose", "-vC.", "merge-sort"] = .ok
      { directory := some ".", verbosity := 2, charts := [.one .mergeSort] } := by decide
  have hshown' : Arguments.parse ["charts", "-C.", "--show", "merge-sort", "-v"] = .ok
      { directory := some ".", verbosity := 1, showing := true, charts := [.one .mergeSort] } := by
    decide
  obtain ⟨⟨-, hfiles, hlines⟩, hsub, -⟩ := flags_change_no_result hloud "charts" hquiet hloud'
    (.starts "7") (.starts "7") files .standard
  obtain ⟨⟨hcode', hfiles', -⟩, -⟩ := flags_change_no_result hshown "charts" hquiet hshown'
    (.starts "7") .missing files .standard
  exact ⟨hquiet, hlines.trans hsaved, hfiles, hsub rfl rfl .stdout, hcode'.trans hcode, hfiles'⟩

end TimingCharts
