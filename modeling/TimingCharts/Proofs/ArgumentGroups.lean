import Mathlib
import TimingCharts.Proofs.RunOutcome

/-!
# Arguments in any order

A command line is a sequence of groups: charts, flags, and options with their values. Where no
option waits for a value, a group is read by itself, whatever comes before and after it. So what is
asked for depends on the groups and, but for the order of the charts, not on their order
(`ofArguments_groups`): flags and options stand above the settings file, and that above the usual
settings.
-/

namespace TimingCharts

namespace Arguments

/-- Words of a command line that belong together. -/
inductive Group where
  | chart (benchmark : Benchmark)
  | all
  | verbose
  /-- A hyphen and one `v` more than `n`. -/
  | bundle (n : Nat)
  | showing
  | config (file : String)
  | directory (short : Bool) (name : String)
  deriving DecidableEq

namespace Group

def words : Group → List String
  | .chart b => [b.name]
  | .all => ["all"]
  | .verbose => ["--verbose"]
  | .bundle n => [String.ofList ('-' :: List.replicate (n + 1) 'v')]
  | .showing => ["--show"]
  | .config file => ["--config", file]
  | .directory short name => [if short then "-C" else "--directory", name]

def file? : Group → Option String
  | .config file => some file
  | _ => none

def directory? : Group → Option String
  | .directory _ name => some name
  | _ => none

def verbosity : Group → Nat
  | .verbose => 1
  | .bundle n => n + 1
  | _ => 0

def benchmark? : Group → Option Benchmark
  | .chart b => some b
  | _ => none

def choice? : Group → Option Choice
  | .chart b => some (.one b)
  | .all => some .all
  | _ => none

def single? : Group → Option Single
  | .showing => some .showing
  | .config _ => some .config
  | .directory _ _ => some .directory
  | _ => none

/-- The value of an option does not look like a flag. -/
def Valued (g : Group) : Prop :=
  ∀ value, g.file? = some value ∨ g.directory? = some value → value.toList.head? ≠ some '-'

def read (m : Matches) : Group → Matches
  | .chart b => { m with charts := m.charts ++ [b.name] }
  | .all => { m with charts := m.charts ++ ["all"] }
  | .verbose => m.louder 1
  | .bundle n => m.louder (n + 1)
  | .showing => { m.name .showing with showing := true }
  | .config file => (m.name .config).setValue .config file
  | .directory _ name => (m.name .directory).setValue .directory name

end Group

def Choice.name : Choice → String
  | .all => "all"
  | .one b => b.name

theorem choice_name (c : Choice) : choice c.name = .ok c := by
  cases c with
  | all => rfl
  | one b => cases b <;> rfl

namespace Matches

/-! ## Reading one group -/

section
variable {m : Matches} (flags : m.chartsOnly = false) {a : String} (plain : a.toList.head? ≠ some '-')
include flags plain

theorem step_plain : m.step a = match m.pending with
    | some option => .ok (m.setValue option a)
    | none => .ok { m with charts := m.charts ++ [a] } := by
  unfold step
  dsimp only
  rw [flags, if_neg Bool.false_ne_true]
  split
  · next h => simp [h] at plain
  · next h => simp [h] at plain
  · next h => simp [h] at plain
  · rfl

theorem step_chart (free : m.pending = none) :
    m.step a = .ok { m with charts := m.charts ++ [a] } := by
  rw [step_plain flags plain, free]

theorem step_value {o : Single} (waits : m.pending = some o) : m.step a = .ok (m.setValue o a) := by
  rw [step_plain flags plain, waits]

end

theorem foldlM_option {m : Matches} (flags : m.chartsOnly = false) {word value : String}
    {o : Single} (valued : o ≠ .showing)
    (named : m.step word = .ok { m.name o with pending := some o })
    (plain : value.toList.head? ≠ some '-') :
    [word, value].foldlM step m = .ok ((m.name o).setValue o value) := by
  have hvalue := step_value (m := { m.name o with pending := some o }) flags plain rfl
  rw [List.foldlM_cons, named]
  show [value].foldlM step _ = _
  rw [List.foldlM_cons, hvalue]
  cases o with
  | showing => exact absurd rfl valued
  | config | directory => rfl

structure Free (m : Matches) : Prop where
  pending : m.pending = none
  chartsOnly : m.chartsOnly = false

theorem free_read {m : Matches} (h : m.Free) (g : Group) : (g.read m).Free := by
  cases g with
  | chart | all => exact ⟨h.pending, h.chartsOnly⟩
  | verbose | bundle | showing | config | directory => exact ⟨rfl, h.chartsOnly⟩

theorem foldlM_words {m : Matches} (h : m.Free) {g : Group} (valued : g.Valued) :
    g.words.foldlM step m = .ok (g.read m) := by
  have single : ∀ {a : String} {n : Matches}, m.step a = .ok n → [a].foldlM step m = .ok n := by
    intro a n hn
    rw [List.foldlM_cons, hn]
    rfl
  cases g with
  | chart b => exact single (step_chart h.chartsOnly (by cases b <;> decide) h.pending)
  | all => exact single (step_chart h.chartsOnly (by decide) h.pending)
  | verbose => exact single (step_verbose h.chartsOnly)
  | bundle n => exact single (step_bundle n h.chartsOnly)
  | showing => exact single (step_show h.chartsOnly)
  | config file =>
    refine foldlM_option (o := .config) h.chartsOnly (by decide) ?_ (valued file (.inl rfl))
    simp only [step, h.chartsOnly]
    rfl
  | directory short name =>
    refine foldlM_option (o := .directory) h.chartsOnly (by decide) ?_ (valued name (.inr rfl))
    cases short with
    | true => exact step_short h.chartsOnly (by decide) []
    | false =>
      simp only [step, h.chartsOnly]
      rfl

/-! ## Reading all groups -/

structure Collects (groups : List Group) (m n : Matches) : Prop where
  config : n.config = (groups.filterMap Group.file?).getLast?.or m.config
  directory : n.directory = (groups.filterMap Group.directory?).getLast?.or m.directory
  showing : n.showing = (m.showing || decide (.showing ∈ groups))
  verbosity : n.verbosity = m.verbosity + (groups.map Group.verbosity).sum
  charts : n.charts = m.charts ++ (groups.filterMap Group.choice?).map Choice.name
  named : n.named = m.named ++ groups.filterMap Group.single?

theorem collects_read (m : Matches) (g : Group) : Collects [g] m (g.read m) := by
  cases g <;> constructor <;>
    simp [Group.read, louder, name, setValue, Group.file?, Group.directory?, Group.verbosity,
      Group.choice?, Group.single?, Choice.name]

theorem Collects.cons {g : Group} {rest : List Group} {m k n : Matches} (h : Collects [g] m k)
    (h' : Collects rest k n) : Collects (g :: rest) m n := by
  rw [← List.singleton_append]
  constructor
  · rw [h'.config, h.config, List.filterMap_append, List.getLast?_append, Option.or_assoc]
  · rw [h'.directory, h.directory, List.filterMap_append, List.getLast?_append, Option.or_assoc]
  · rw [h'.showing, h.showing, Bool.or_assoc, ← Bool.decide_or]
    simp only [List.mem_append]
  · rw [h'.verbosity, h.verbosity, List.map_append, List.sum_append, Nat.add_assoc]
  · rw [h'.charts, h.charts, List.filterMap_append, List.map_append, List.append_assoc]
  · rw [h'.named, h.named, List.filterMap_append, List.append_assoc]

theorem foldlM_groups {groups : List Group} (valued : ∀ g ∈ groups, g.Valued) {m : Matches}
    (h : m.Free) : ∃ n, (groups.flatMap Group.words).foldlM step m = .ok n ∧ n.Free ∧
      Collects groups m n := by
  induction groups generalizing m with
  | nil => exact ⟨m, rfl, h, ⟨rfl, rfl, by simp, rfl, by simp, by simp⟩⟩
  | cons g rest ih =>
    obtain ⟨n, hn, hfree, hcollects⟩ :=
      ih (fun g' hg' => valued g' (List.mem_cons_of_mem _ hg')) (free_read h g)
    refine ⟨n, ?_, hfree, (collects_read m g).cons hcollects⟩
    rw [List.flatMap_cons, List.foldlM_append,
      foldlM_words h (valued g List.mem_cons_self)]
    exact hn

end Matches

/-! ## What is asked for -/

/-- Groups that name each option and `--show` at most once. -/
structure Once (groups : List Group) (file? directory? : Option String) : Prop where
  valued : ∀ g ∈ groups, g.Valued
  config : groups.filterMap Group.file? = file?.toList
  directory : groups.filterMap Group.directory? = directory?.toList
  showing : groups.count .showing ≤ 1

section
variable {groups : List Group} {file? directory? : Option String}

theorem count_single (groups : List Group) :
    (groups.filterMap Group.single?).count .config = (groups.filterMap Group.file?).length ∧
      (groups.filterMap Group.single?).count .directory =
        (groups.filterMap Group.directory?).length ∧
      (groups.filterMap Group.single?).count .showing = groups.count .showing := by
  induction groups with
  | nil => simp
  | cons g rest ih =>
    obtain ⟨hc, hd, hs⟩ := ih
    cases g <;> simp [List.filterMap_cons, Group.single?, Group.file?, Group.directory?, hc, hd, hs]

theorem Once.perm (h : Once groups file? directory?) {groups' : List Group}
    (hp : groups'.Perm groups) : Once groups' file? directory? := by
  have atMostOne : ∀ {f : Group → Option String} {o : Option String},
      groups.filterMap f = o.toList → groups'.filterMap f = o.toList := by
    intro f o ho
    have hperm := hp.filterMap f
    rw [ho] at hperm
    cases o with
    | none => exact List.perm_nil.mp hperm
    | some value => exact List.perm_singleton.mp hperm
  exact ⟨fun g hg => h.valued g (hp.subset hg), atMostOne h.config, atMostOne h.directory,
    (hp.count_eq _).trans_le h.showing⟩

def invocation (groups : List Group) (file? directory? : Option String) : Invocation where
  config := file?
  directory := directory?
  showing := decide (.showing ∈ groups)
  verbosity := (groups.map Group.verbosity).sum
  charts := groups.filterMap Group.choice?

theorem parse_groups (h : Once groups file? directory?) (program : String) :
    parse (program :: groups.flatMap Group.words) = .ok (invocation groups file? directory?) := by
  obtain ⟨m, hm, -, hcollects⟩ := Matches.foldlM_groups h.valued (m := {}) ⟨rfl, rfl⟩
  obtain ⟨hconfig, hdirectory, hshowing⟩ := count_single groups
  have hnamed : m.named = groups.filterMap Group.single? := hcollects.named
  have last : ∀ o : Option String, o.toList.getLast?.or none = o := by
    intro o
    cases o <;> rfl
  have hfile : m.config = file? := by rw [hcollects.config, h.config, last]
  have hdir : m.directory = directory? := by rw [hcollects.directory, h.directory, last]
  have short : ∀ o : Option String, o.toList.length ≤ 1 := by
    intro o
    cases o <;> simp
  refine parse_eq_ok.mpr ⟨m, hm, Matches.finish_eq_ok.mpr ⟨?_, groups.filterMap Group.choice?, ?_, ?_⟩⟩
  · intro o
    rw [Matches.lacks_eq_false, ← List.count_pos_iff, hnamed]
    cases o with
    | config =>
      rw [hconfig, h.config]
      refine ⟨fun hpos hnone => ?_, short file?⟩
      rw [Matches.value, hfile] at hnone
      rw [hnone] at hpos
      cases hpos
    | directory =>
      rw [hdirectory, h.directory]
      refine ⟨fun hpos hnone => ?_, short directory?⟩
      rw [Matches.value, hdir] at hnone
      rw [hnone] at hpos
      cases hpos
    | showing =>
      refine ⟨fun _ hnone => ?_, hshowing.trans_le h.showing⟩
      cases hnone
  · rw [hcollects.charts, mapM_eq_ok, List.nil_append, List.forall₂_map_left_iff, List.forall₂_same]
    exact fun c _ => choice_name c
  · rw [hfile, hdir, hcollects.showing, hcollects.verbosity, Nat.zero_add, Bool.false_or]
    rfl

theorem known_of_parse {program : String} {arguments : List String} {i : Invocation}
    (h : parse (program :: arguments) = .ok i) :
    ∃ m, arguments.foldlM Matches.step {} = .ok m ∧
      ∀ name ∈ m.charts, name = "all" ∨ ∃ b, Benchmark.ofName? name = some b := by
  obtain ⟨m, hm, hi⟩ := parse_eq_ok.mp h
  obtain ⟨-, charts, hcharts, -⟩ := Matches.finish_eq_ok.mp hi
  refine ⟨m, hm, fun name hname => ?_⟩
  obtain ⟨c, -, hc⟩ := exists_of_mem_forall₂ (mapM_eq_ok.mp hcharts).flip hname
  have hc : choice name = .ok c := hc
  by_cases hall : name = "all"
  · exact .inl hall
  · rw [choice, Choice.ofName?, if_neg hall] at hc
    cases hb : Benchmark.ofName? name with
    | some b => exact .inr ⟨b, rfl⟩
    | none =>
      rw [hb] at hc
      cases hc

end

end Arguments

/-! ## The charts -/

/-- The charts that were named, each at its first mention. -/
structure FirstMentions (named charts : List Benchmark) : Prop where
  nodup : charts.Nodup
  mem : ∀ b, b ∈ charts ↔ b ∈ named
  order : charts.Pairwise fun b c => named.idxOf b < named.idxOf c

theorem FirstMentions.nil : FirstMentions [] [] :=
  ⟨List.nodup_nil, fun _ => Iff.rfl, List.Pairwise.nil⟩

theorem FirstMentions.snoc {named charts : List Benchmark} (h : FirstMentions named charts)
    (b : Benchmark) :
    FirstMentions (named ++ [b]) (if b ∈ charts then charts else charts ++ [b]) := by
  have kept : charts.Pairwise fun c d => (named ++ [b]).idxOf c < (named ++ [b]).idxOf d := by
    refine h.order.imp_of_mem fun {c d} hc hd hlt => ?_
    rwa [List.idxOf_append_of_mem ((h.mem c).mp hc), List.idxOf_append_of_mem ((h.mem d).mp hd)]
  by_cases hb : b ∈ charts
  · rw [if_pos hb]
    refine ⟨h.nodup, fun c => ?_, kept⟩
    rw [h.mem, List.mem_append, List.mem_singleton]
    exact ⟨.inl, fun hc => hc.elim id fun heq => heq ▸ (h.mem b).mp hb⟩
  · rw [if_neg hb]
    have hnamed : b ∉ named := fun hmem => hb ((h.mem b).mpr hmem)
    refine ⟨?_, fun c => ?_, List.pairwise_append.mpr ⟨kept, List.pairwise_singleton _ _, ?_⟩⟩
    · rw [← List.concat_eq_append]
      exact h.nodup.concat hb
    · rw [List.mem_append, List.mem_append, h.mem]
    · intro c hc d hd
      rw [List.mem_singleton.mp hd, List.idxOf_append_of_mem ((h.mem c).mp hc),
        List.idxOf_append_of_notMem hnamed]
      exact Nat.lt_add_right _ (List.idxOf_lt_length_of_mem ((h.mem c).mp hc))

namespace Request

open Arguments

theorem chosen_eq_all {choices : List Choice} (h : choices = [] ∨ .all ∈ choices) :
    chosen choices = Benchmark.all := if_pos h

theorem firstMentions_chosen {named : List Benchmark} (filled : named ≠ []) :
    FirstMentions named (chosen (named.map .one)) := by
  have hne : ¬ (named.map Choice.one = [] ∨ .all ∈ named.map Choice.one) := by
    simp [filled]
  rw [chosen, if_neg hne, List.foldl_map]
  clear filled hne
  induction named using List.reverseRecOn with
  | nil => exact .nil
  | append_singleton named b ih =>
    rw [List.foldl_append]
    exact ih.snoc b

structure Merges (groups : List Group) (directory? : Option String) (s : Settings) (r : Request) :
    Prop where
  directory : r.directory = ⟨directory?.getD s.general.directory⟩
  opens : r.opens = true ↔ .showing ∈ groups ∨ s.general.opens = true
  width : r.width = s.general.width
  height : r.height = s.general.height
  threshold : Log.Threshold.rank r.threshold =
    min (s.general.logging.rank + (groups.map Group.verbosity).sum) Log.Level.trace.rank
  all : groups.filterMap Group.benchmark? = [] ∨ .all ∈ groups →
    r.charts = [.bubbleSort, .mergeSort, .mergeSortThreads, .vectorAddition]
  charts : groups.filterMap Group.benchmark? ≠ [] → .all ∉ groups →
    FirstMentions (groups.filterMap Group.benchmark?) r.charts
  input : ∀ b, r.input b = r.directory.join ((s.overrides b).input.getD b.inputName)
  output : ∀ b, r.output b = r.directory.join ((s.overrides b).output.getD b.outputName)

theorem choices_of_all {groups : List Group}
    (h : groups.filterMap Group.benchmark? = [] ∨ .all ∈ groups) :
    groups.filterMap Group.choice? = [] ∨ .all ∈ groups.filterMap Group.choice? := by
  by_cases hall : .all ∈ groups
  · exact .inr (List.mem_filterMap.mpr ⟨_, hall, rfl⟩)
  · have hnone := List.filterMap_eq_nil_iff.mp (h.resolve_right hall)
    refine .inl (List.filterMap_eq_nil_iff.mpr fun g hg => ?_)
    have hg' := hnone g hg
    cases g with
    | chart => cases hg'
    | all => exact absurd hg hall
    | _ => rfl

theorem choices_of_charts {groups : List Group} (h : .all ∉ groups) :
    groups.filterMap Group.choice? = (groups.filterMap Group.benchmark?).map .one := by
  rw [List.map_filterMap]
  refine List.filterMap_congr fun g hg => ?_
  cases g with
  | all => exact absurd hg h
  | _ => rfl

theorem merges_ofInvocation (groups : List Group) (file? directory? : Option String)
    (s : Settings) :
    Merges groups directory? s (ofInvocation (invocation groups file? directory?) s) where
  directory := by cases directory? <;> rfl
  opens := by
    simp only [ofInvocation, invocation, ofSettings, Bool.or_eq_true, decide_eq_true_eq]
    exact or_comm
  width := rfl
  height := rfl
  threshold := Log.Threshold.rank_ofRank _
  all h := chosen_eq_all (choices_of_all h)
  charts filled hall := by
    show FirstMentions _ (chosen (groups.filterMap Group.choice?))
    rw [choices_of_charts hall]
    exact firstMentions_chosen filled
  input _ := rfl
  output _ := rfl

section
variable {groups groups' : List Group} {file? directory? : Option String} {s : Settings}
  {r r' : Request}

theorem Merges.charts_perm (h : Merges groups directory? s r) (h' : Merges groups' directory? s r')
    (hp : groups'.Perm groups) : r'.charts.Perm r.charts := by
  have hnamed := hp.filterMap Group.benchmark?
  have hnil : groups'.filterMap Group.benchmark? = [] ↔ groups.filterMap Group.benchmark? = [] :=
    ⟨fun hnil => List.nil_perm.mp (hnil ▸ hnamed), fun hnil => List.perm_nil.mp (hnil ▸ hnamed)⟩
  by_cases hall : groups.filterMap Group.benchmark? = [] ∨ .all ∈ groups
  · have hall' : groups'.filterMap Group.benchmark? = [] ∨ .all ∈ groups' := by
      rwa [hnil, hp.mem_iff]
    rw [h.all hall, h'.all hall']
  · rw [not_or] at hall
    have first := h.charts hall.1 hall.2
    have first' := h'.charts (mt hnil.mp hall.1) (mt hp.mem_iff.mp hall.2)
    refine (List.perm_ext_iff_of_nodup first'.nodup first.nodup).mpr fun b => ?_
    rw [first'.mem, first.mem, hnamed.mem_iff]

theorem ofInvocation_perm (hp : groups'.Perm groups) :
    ofInvocation (invocation groups' file? directory?) s =
      { ofInvocation (invocation groups file? directory?) s with
        charts := chosen (groups'.filterMap Group.choice?) } := by
  have hshowing : decide (.showing ∈ groups') = decide (.showing ∈ groups) :=
    decide_eq_decide.mpr hp.mem_iff
  have hverbosity := (hp.map Group.verbosity).sum_nat
  simp only [ofInvocation, invocation, hshowing, hverbosity]

theorem ofArguments_once (h : Once groups file? directory?) {files : Files}
    (load : ∀ file, file? = some file → Settings.load files file = .ok s)
    (usual : file? = none → s = {}) (program : String) :
    ofArguments files (program :: groups.flatMap Group.words) =
      .ok (ofInvocation (invocation groups file? directory?) s) := by
  have hsettings : (invocation groups file? directory?).settings files = .ok s := by
    cases file? with
    | some file => exact load file rfl
    | none => exact congrArg Except.ok (usual rfl).symm
  rw [ofArguments_eq (parse_groups h program), hsettings]
  rfl

end

/-- Groups of arguments are accepted in any order, and what they ask for is the settings of the
file, if one is named, with the flags and the directory of the arguments above them. The charts are
all of them if none is named or all are asked for, and else the ones that are named. In another
order the groups ask for the same, but for the order of the charts. And whatever the arguments are:
once they are accepted, their charts are known, and only the settings file can be at fault. -/
theorem ofArguments_groups (files : Files) (program : String) {groups : List Group}
    {file? directory? : Option String} (once : Once groups file? directory?) {s : Settings}
    (load : ∀ file, file? = some file → Settings.load files file = .ok s)
    (usual : file? = none → s = {}) :
    (∃ r, ofArguments files (program :: groups.flatMap Group.words) = .ok r ∧
        Merges groups directory? s r ∧
        ∀ groups' : List Group, groups'.Perm groups →
          ∃ r', ofArguments files (program :: groups'.flatMap Group.words) = .ok r' ∧
            r' = { r with charts := r'.charts } ∧ r'.charts.Perm r.charts) ∧
      ∀ arguments i, parse (program :: arguments) = .ok i →
        (∃ m, arguments.foldlM Matches.step {} = .ok m ∧
          ∀ name ∈ m.charts, name = "all" ∨ ∃ b, Benchmark.ofName? name = some b) ∧
        ∀ failure, ofArguments files (program :: arguments) = .error failure →
          ∃ file fault, failure = .settings file fault := by
  have merges := merges_ofInvocation groups file? directory? s
  refine ⟨⟨_, ofArguments_once once load usual program, merges, fun groups' hp => ?_⟩,
    fun arguments i hi => ⟨known_of_parse hi, fun failure hfailure => ?_⟩⟩
  · have merges' := merges_ofInvocation groups' file? directory? s
    exact ⟨_, ofArguments_once (once.perm hp) load usual program, ofInvocation_perm hp,
      merges.charts_perm merges' hp⟩
  · rw [ofArguments_eq hi] at hfailure
    cases hsettings : i.settings files with
    | ok s =>
      rw [hsettings] at hfailure
      cases hfailure
    | error failure' =>
      rw [hsettings] at hfailure
      cases hfailure
      exact exists_settings_of_error hsettings

theorem ofArguments_groups_seven :
    let text := "[general]\nshow = true\nheight = 800\n"
    let files : Files := ⟨[], [(["charts.toml".toList], .file (.bytes (Text.encode text.toList)))]⟩
    let s : Settings := { general := { opens := true, height := 800 } }
    let groups := [.chart .mergeSort, .bundle 1, .directory true "out", .chart .bubbleSort,
      .config "charts.toml", .chart .mergeSort, .verbose]
    Once groups (some "charts.toml") (some "out") ∧ Settings.load files "charts.toml" = .ok s ∧
      ∃ r, ofArguments files ["perf-charts", "merge-sort", "-vv", "-C", "out", "bubble-sort",
          "--config", "charts.toml", "merge-sort", "--verbose"] = .ok r ∧
        r.directory = ⟨"out"⟩ ∧ r.opens = true ∧ r.height = 800 ∧
        Log.Threshold.rank r.threshold = 5 ∧
        FirstMentions [.mergeSort, .bubbleSort, .mergeSort] r.charts ∧
        r.input .mergeSort = (Path.mk "out").join "results.csv" := by
  intro text files s groups
  have once : Once groups (some "charts.toml") (some "out") := by
    refine ⟨?_, rfl, rfl, by decide⟩
    simp only [groups, List.forall_mem_cons, Group.Valued]
    simp [Group.file?, Group.directory?]
  have load : Settings.load files "charts.toml" = .ok s := by decide +kernel
  obtain ⟨⟨r, hr, merges, -⟩, -⟩ := ofArguments_groups files "perf-charts" once
    (fun file h => Option.some.inj h ▸ load) nofun
  refine ⟨once, load, r, hr, merges.directory, merges.opens.mpr (.inr rfl), merges.height,
    merges.threshold, merges.charts (by decide) (by decide), ?_⟩
  rw [merges.input, merges.directory]
  rfl

end Request

end TimingCharts
