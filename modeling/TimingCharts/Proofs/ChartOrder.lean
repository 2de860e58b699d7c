import TimingCharts.Program
import TimingCharts.Proofs.SafeRendering

/-!
# Charts do not depend on each other

Charts without names of their own share one directory. Each reads one file there and writes two
others, and no two charts touch the same one, so what comes of a chart is what would come of it
alone: `charts_independent`. The invariant of a run is `Progress`.
-/

namespace TimingCharts

/-! ## The same drawing on different files

What an operation does goes by the directories and by what it reads. Where it writes, the files
agree afterwards whatever stood there before. -/

namespace Files

def Agree (f g : Files) (l : Location) : Prop := g.get? l = f.get? l

/-- The same is done to two states of the files: afterwards they agree wherever they did before and
wherever the first was changed. -/
def SameChange (f g f' g' : Files) : Prop :=
  ∀ l, Agree f g l ∨ ¬ Agree f f' l → Agree f' g' l

theorem SameChange.refl (f g : Files) : SameChange f g f g :=
  fun _ hl => hl.resolve_right fun hn => hn rfl

theorem SameChange.trans {f g f' g' f'' g'' : Files} (h : SameChange f g f' g')
    (h' : SameChange f' g' f'' g'') : SameChange f g f'' g'' := by
  intro l hl
  by_cases hf : Agree f f' l
  · rcases hl with hl | hl
    · exact h' l (.inl (h l (.inl hl)))
    · exact h' l (.inr fun hf' => hl (hf'.trans hf))
  · exact h' l (.inl (h l (.inr hf)))

theorem SameChange.of_place {f g f' g' : Files} (l : Location) (hl : Agree f' g' l)
    (hf : ∀ l', l' ≠ l → Agree f f' l') (hg : ∀ l', l' ≠ l → Agree g g' l') :
    SameChange f g f' g' := by
  intro l' h
  by_cases he : l' = l
  · exact he ▸ hl
  · rw [Agree, hf l' he, hg l' he]
    exact h.resolve_right fun hn => hn (hf l' he)

theorem agree_insert (f g : Files) (l : Location) (node : Node) :
    Agree (f.insert l node) (g.insert l node) l := by
  cases l with
  | nil => rfl
  | cons _ _ => rw [Agree, get?_insert_self _ _ (by simp), get?_insert_self _ _ (by simp)]

theorem sameChange_insert (f g : Files) (l : Location) (node : Node) :
    SameChange f g (f.insert l node) (g.insert l node) :=
  .of_place l (agree_insert f g l node) (fun _ => get?_insert_of_ne f node)
    fun _ => get?_insert_of_ne g node

theorem sameChange_erase (f g : Files) (l : Location) :
    SameChange f g (f.erase l) (g.erase l) := by
  refine .of_place l ?_ (fun _ => get?_erase_of_ne f) fun _ => get?_erase_of_ne g
  cases l with
  | nil => rfl
  | cons _ _ => rw [Agree, get?_erase_self _ (by simp), get?_erase_self _ (by simp)]

theorem SameTree.directory_cases {f g : Files} (h : SameTree f g) (l : Location) :
    f.get? l = some .directory ∧ g.get? l = some .directory ∨
      f.get? l ≠ some .directory ∧ g.get? l ≠ some .directory := by
  by_cases hd : f.get? l = some .directory
  · exact Or.inl ⟨hd, (h.directories l).mpr hd⟩
  · exact Or.inr ⟨hd, fun hg => hd ((h.directories l).mp hg)⟩

theorem SameTree.agree_of_noFile {f g : Files} (h : SameTree f g) {l : Location}
    (hf : f.get? l = none ∨ f.get? l = some .directory)
    (hg : g.get? l = none ∨ g.get? l = some .directory) : Agree f g l := by
  rcases h.directory_cases l with ⟨hd, hd'⟩ | ⟨hd, hd'⟩
  · rw [Agree, hd, hd']
  · rw [Agree, hf.resolve_right hd, hg.resolve_right hd']

theorem SameTree.write_cases {f g : Files} (h : SameTree f g) (path : Path) (content : Content) :
    (∃ fault fault', f.write path content = .error fault ∧ g.write path content = .error fault') ∨
    ∃ target, f.resolve path = .ok target ∧
      f.write path content = .ok (f.insert target.location (.file content)) ∧
      g.write path content = .ok (g.insert target.location (.file content)) := by
  cases hr : f.resolve path with
  | error fault =>
    cases hr' : g.resolve path with
    | error fault' => exact Or.inl ⟨fault, fault', write_of_refused hr _, write_of_refused hr' _⟩
    | ok target => rw [resolve_of_sameTree h.symm hr'] at hr; cases hr
  | ok target =>
    rw [write_of_resolve hr, write_of_resolve (resolve_of_sameTree h hr)]
    by_cases hn : target.name.isNone || target.slash
    · rw [if_pos hn, if_pos hn]
      exact Or.inl ⟨_, _, rfl, rfl⟩
    · rw [if_neg hn, if_neg hn]
      rcases h.directory_cases target.location with ⟨hf, hg⟩ | ⟨hf, hg⟩
      · rw [hf, hg]
        exact Or.inl ⟨_, _, rfl, rfl⟩
      · refine Or.inr ⟨target, rfl, ?_, ?_⟩
        · split
          · next hd => exact absurd hd hf
          · rfl
        · split
          · next hd => exact absurd hd hg
          · rfl

theorem SameTree.writable_eq {f g : Files} (h : SameTree f g) (path : Path) :
    g.writable path = f.writable path := by
  rw [writable, writable]
  rcases h.write_cases path (.bytes []) with ⟨_, _, hf, hg⟩ | ⟨_, -, hf, hg⟩
  · rw [hf, hg]; rfl
  · rw [hf, hg]; rfl

theorem SameTree.rename_cases {f g : Files} (h : SameTree f g) {source dest : Path} {old : Target}
    (ho : f.resolve source = .ok old) (hd : g.resolve dest = f.resolve dest)
    (ha : Agree f g old.location) :
    (∃ fault, f.rename source dest = .error fault ∧ g.rename source dest = .error fault) ∨
    ∃ new node, f.resolve dest = .ok new ∧
      f.rename source dest = .ok ((f.erase old.location).insert new.location node) ∧
      g.rename source dest = .ok ((g.erase old.location).insert new.location node) := by
  have ho' := resolve_of_sameTree h ho
  cases hn : f.resolve dest with
  | error fault =>
    rw [hn] at hd
    refine Or.inl ⟨fault, ?_, ?_⟩
    · rw [rename, ho, hn]; rfl
    · rw [rename, ho', hd]; rfl
  | ok new =>
    rw [hn] at hd
    rw [rename_of_resolve ho hn, rename_of_resolve ho' hd, ha]
    by_cases hnames : old.name.isNone || new.name.isNone
    · rw [if_pos hnames, if_pos hnames]
      exact Or.inl ⟨_, rfl, rfl⟩
    rw [if_neg hnames, if_neg hnames]
    split
    · exact Or.inl ⟨_, rfl, rfl⟩
    · exact Or.inl ⟨_, rfl, rfl⟩
    · next node _ _ =>
      by_cases hslash : old.slash || new.slash
      · rw [if_pos hslash, if_pos hslash]
        exact Or.inl ⟨_, rfl, rfl⟩
      rw [if_neg hslash, if_neg hslash]
      rcases h.directory_cases new.location with ⟨hf, hg⟩ | ⟨hf, hg⟩
      · rw [hf, hg]
        exact Or.inl ⟨_, rfl, rfl⟩
      · refine Or.inr ⟨new, node, rfl, ?_, ?_⟩
        · split
          · next hd => exact absurd hd hf
          · rfl
        · split
          · next hd => exact absurd hd hg
          · rfl

end Files

namespace Drawing

theorem sameChange_discard {f g : Files} (h : Files.SameTree f g) {path : Path}
    (hs : path.text.toList.getLast? ≠ some '/') (host : Host) :
    Files.SameChange f g (discard path f host) (discard path g host) := by
  cases hremove : host.refuses (.remove path) with
  | some fault =>
    rw [discard_of_forbidden hremove, discard_of_forbidden hremove]
    exact .refl f g
  | none =>
    cases hr : f.resolve path with
    | error fault =>
      cases hr' : g.resolve path with
      | ok target => rw [Files.resolve_of_sameTree h.symm hr'] at hr; cases hr
      | error fault' =>
        rw [discard_of_refused hr, discard_of_refused hr']
        exact .refl f g
    | ok target =>
      have hr' := Files.resolve_of_sameTree h hr
      have hf := changedWithin_discard hs f host
      have hg := changedWithin_discard hs g host
      have htree := (hf.toSameTree.symm.trans h).trans hg.toSameTree
      refine .of_place target.location (htree.agree_of_noFile ?_ ?_) (fun l hl => ?_) fun l hl => ?_
      · exact noFileAt_discard hremove hs f _ ((hf.leads_iff _ _).mpr ⟨target, hr, rfl⟩)
      · exact noFileAt_discard hremove hs g _ ((hg.leads_iff _ _).mpr ⟨target, hr', rfl⟩)
      · exact hf.elsewhere l fun hlead => hl (hlead.unique hr)
      · exact hg.elsewhere l fun hlead => hl (hlead.unique hr')

end Drawing

def SameDrawing {ε α : Type} (f g : Files) (o o' : Outcome ε α) : Prop :=
  o'.result = o.result ∧ Files.SameChange f g o.files o'.files

theorem SameDrawing.of_unchanged {ε α : Type} {f g : Files} {o o' : Outcome ε α}
    (hr : o'.result = o.result) (hf : o.files = f) (hg : o'.files = g) : SameDrawing f g o o' := by
  refine ⟨hr, ?_⟩
  rw [hf, hg]
  exact .refl f g

theorem SameDrawing.of_part {ε α ε' α' : Type} {f g : Files} {o o' : Outcome ε α}
    {p p' : Outcome ε' α'} (h : SameDrawing f g p p') (hf : o.files = p.files)
    (hg : o'.files = p'.files) (hr : p'.result = p.result → o'.result = o.result) :
    SameDrawing f g o o' := by
  refine ⟨hr h.1, ?_⟩
  rw [hf, hg]
  exact h.2

namespace Plot

/-- A drawing comes to the same in both states: it is saved at one place, or nowhere. -/
theorem save_cases (plot : Plot) (path : Path) (host : Host) {f g : Files}
    (h : Files.SameTree f g) :
    (plot.save path g host).result = (plot.save path f host).result ∧
    ((plot.save path f host).result ≠ .ok () ∧
        (plot.save path f host).files = f ∧ (plot.save path g host).files = g ∨
      ∃ target content, f.resolve path = .ok target ∧
        (plot.save path f host).files = f.insert target.location (.file content) ∧
        (plot.save path g host).files = g.insert target.location (.file content)) := by
  rw [save, save, h.writable_eq]
  cases host.draw plot path (f.writable path) with
  | complete format =>
    dsimp only
    rcases h.write_cases path (.image (plot.image format)) with
      ⟨_, _, hf, hg⟩ | ⟨target, hr, hf, hg⟩
    · rw [hf, hg]
      exact ⟨rfl, .inl ⟨by simp, rfl, rfl⟩⟩
    · rw [hf, hg]
      exact ⟨rfl, .inr ⟨target, _, hr, rfl, rfl⟩⟩
  | brokenOff reached left =>
    cases left with
    | none => exact ⟨rfl, .inl ⟨by simp, rfl, rfl⟩⟩
    | some content =>
      dsimp only [Option.map_some]
      rcases h.write_cases path content with ⟨_, _, hf, hg⟩ | ⟨target, hr, hf, hg⟩
      · rw [hf, hg]
        exact ⟨rfl, .inl ⟨by simp, rfl, rfl⟩⟩
      · rw [hf, hg]
        exact ⟨rfl, .inr ⟨target, content, hr, rfl, rfl⟩⟩

theorem sameDrawing_render (plot : Plot) (host : Host) {path : Path} {f g : Files}
    (h : Files.SameTree f g) {directory : Location}
    (hw : f.walk (f.start path) path.steps.dropLast = .ok directory) :
    SameDrawing f g (plot.render path f host) (plot.render path g host) := by
  have hslash := Path.scratch_not_slash path
  by_cases hempty : plot.series = []
  · rw [render_of_empty hempty, render_of_empty hempty]
    exact .of_unchanged rfl rfl rfl
  obtain ⟨hresult, hfiles⟩ := plot.save_cases path.scratch host h
  have hf := plot.changedWithin_save path.scratch f host
  have hg := plot.changedWithin_save path.scratch g host
  have htree := (hf.toSameTree.symm.trans h).trans hg.toSameTree
  have hchange : Files.SameChange f g (plot.save path.scratch f host).files
      (plot.save path.scratch g host).files := by
    rcases hfiles with ⟨-, hf, hg⟩ | ⟨old, content, -, hf, hg⟩
    · rw [hf, hg]; exact .refl f g
    · rw [hf, hg]; exact Files.sameChange_insert _ _ _ _
  have hdiscard := hchange.trans (Drawing.sameChange_discard htree hslash host)
  cases hs : (plot.save path.scratch f host).result with
  | error fault =>
    rw [render_of_unsaved hempty hs, render_of_unsaved hempty (hresult.trans hs)]
    exact ⟨rfl, hdiscard⟩
  | ok u =>
    cases hrefuse : host.refuses (.rename path.scratch path) with
    | some cause =>
      have hr (outcome : Except Files.Fault Files) :
          host.permit (.rename path.scratch path) outcome = .error cause :=
        Host.permit_of_refused hrefuse
      rw [render_of_refused hempty hs (hr _), render_of_refused hempty (hresult.trans hs) (hr _)]
      exact ⟨rfl, hdiscard⟩
    | none =>
      obtain ⟨old, content, hold, hf', hg'⟩ := hfiles.resolve_left fun hn => hn.1 hs
      have hdest := (Files.resolve_congr (h.trans hg.toSameTree) hw).trans
        (Files.resolve_congr hf.toSameTree hw).symm
      have hsame : (plot.save path.scratch f host).files.Agree
          (plot.save path.scratch g host).files old.location := by
        rw [hf', hg']
        exact Files.agree_insert ..
      have hr (outcome : Except Files.Fault Files) :
          host.permit (.rename path.scratch path) outcome = outcome :=
        Host.permit_of_allowed hrefuse
      rcases htree.rename_cases (Files.resolve_of_sameTree hf.toSameTree hold) hdest hsame with
        ⟨cause, hrf, hrg⟩ | ⟨new, node, -, hrf, hrg⟩
      · rw [render_of_refused hempty hs ((hr _).trans hrf),
          render_of_refused hempty (hresult.trans hs) ((hr _).trans hrg)]
        exact ⟨rfl, hdiscard⟩
      · rw [render_of_renamed hempty hs ((hr _).trans hrf),
          render_of_renamed hempty (hresult.trans hs) ((hr _).trans hrg)]
        refine ⟨rfl, hchange.trans (.trans ?_ (Files.sameChange_insert _ _ new.location node))⟩
        exact Files.sameChange_erase _ _ _

end Plot

namespace Benchmark

theorem sameDrawing_draw (b : Benchmark) (r : Request) (viewer : Viewer) (host : Host)
    (table : Table) {f g : Files} (h : Files.SameTree f g) {directory : Location}
    (hw : f.walk (f.start (r.output b)) (r.output b).steps.dropLast = .ok directory) :
    SameDrawing f g (b.draw r viewer table f host) (b.draw r viewer table g host) := by
  by_cases hempty : (b.plot r table).series = []
  · obtain ⟨hr, hf⟩ := draw_of_empty viewer f host hempty
    obtain ⟨hr', hg⟩ := draw_of_empty viewer g host hempty
    exact .of_unchanged (hr'.trans hr.symm) hf hg
  · obtain ⟨hf, hr⟩ := draw_of_series viewer f host hempty
    obtain ⟨hg, hr'⟩ := draw_of_series viewer g host hempty
    refine ((b.plot r table).sameDrawing_render host h hw).of_part hf hg fun hplot => ?_
    rw [hr, hr', hplot]

theorem sameDrawing_render (b : Benchmark) (r : Request) (viewer : Viewer) (host : Host)
    {f g : Files} (h : Files.SameTree f g) (hread : g.read (r.input b) = f.read (r.input b))
    (hw : ∀ content, f.read (r.input b) = .ok content → ∃ directory,
      f.walk (f.start (r.output b)) (r.output b).steps.dropLast = .ok directory) :
    SameDrawing f g (b.render r viewer f host) (b.render r viewer g host) := by
  have hload : (b.load r g host).1 = (b.load r f host).1 := by rw [load_eq, load_eq, hread]
  cases hl : (b.load r f host).1 with
  | error failure =>
    obtain ⟨hr, hf⟩ := render_of_error viewer hl
    obtain ⟨hr', hg⟩ := render_of_error viewer (hload.trans hl)
    exact .of_unchanged (hr'.trans hr.symm) hf hg
  | ok table =>
    obtain ⟨hr, hf⟩ := render_of_loaded viewer hl
    obtain ⟨hr', hg⟩ := render_of_loaded viewer (hload.trans hl)
    obtain ⟨content, hc⟩ := read_of_load hl
    obtain ⟨directory, hw⟩ := hw content hc
    refine (b.sameDrawing_draw r viewer host table h hw).of_part hf hg fun hdraw => ?_
    rw [hr, hr', hdraw]

end Benchmark

/-! ## Charts in one directory -/

namespace Benchmark

theorem isName_inputName (b : Benchmark) : Path.IsName b.inputName.toList := by
  cases b <;> decide

theorem isName_outputName (b : Benchmark) : Path.IsName b.outputName.toList := by
  cases b <;> decide

theorem outputName_not_dots (b : Benchmark) :
    b.outputName.toList ≠ ['.'] ∧ b.outputName.toList ≠ ['.', '.'] := by
  cases b <;> decide

def ownNames (b : Benchmark) : List (List Char) :=
  [b.outputName.toList, Path.scratchMark ++ b.outputName.toList]

theorem eq_of_mem_ownNames {b c : Benchmark} {name : List Char} (hb : name ∈ b.ownNames)
    (hc : name ∈ c.ownNames) : b = c := by
  have : ∀ b c : Benchmark, (∃ name ∈ b.ownNames, name ∈ c.ownNames) → b = c := by
    intro b c
    cases b <;> cases c <;> decide
  exact this b c ⟨name, hb, hc⟩

end Benchmark

namespace Path

theorem dropLast_steps_join (dir : Path) {name : String} (h : IsName name.toList) :
    (dir.join name).steps.dropLast = dir.steps := by
  rw [steps_join dir h, List.dropLast_concat]

theorem getLast?_steps_join (dir : Path) {name : String} (h : IsName name.toList) :
    (dir.join name).steps.getLast? = some name.toList := by
  rw [steps_join dir h, List.getLast?_concat]

end Path

theorem Files.walk_join (files : Files) (dir : Path) {name : String}
    (h : Path.IsName name.toList) :
    files.walk (files.start (dir.join name)) (dir.join name).steps.dropLast =
      files.walk (files.start dir) dir.steps := by
  rw [Path.dropLast_steps_join dir h, start, start, Path.isAbsolute_join dir h]

theorem Files.exists_walk_of_resolve {files : Files} {dir : Path} {name : String}
    (h : Path.IsName name.toList) {target : Files.Target}
    (hr : files.resolve (dir.join name) = .ok target) :
    ∃ directory, files.walk (files.start dir) dir.steps = .ok directory := by
  obtain ⟨-, directory, hw, -⟩ := resolve_eq_ok.mp hr
  rw [walk_join files dir h] at hw
  exact ⟨directory, hw⟩

section
variable {r : Request} (hr : ∀ b, r.settings.overrides b = {}) (viewer : Viewer)
include hr

theorem Request.input_eq (b : Benchmark) : r.input b = r.directory.join b.inputName := by
  rw [Request.input, hr]
  rfl

theorem Request.output_eq (b : Benchmark) : r.output b = r.directory.join b.outputName := by
  rw [Request.output, hr]
  rfl

end

def Request.Touches (r : Request) (files : Files) (b : Benchmark) (l : Location) : Prop :=
  files.Leads (r.output b) l ∨ files.Leads (r.output b).scratch l

theorem Benchmark.changedWithin_render (b : Benchmark) (r : Request) (viewer : Viewer)
    (host : Host) (files : Files) :
    files.ChangedWithin (b.render r viewer files host).files (r.Touches files b) := by
  have h := b.leaves_render r viewer files host
  generalize b.render r viewer files host = o at h ⊢
  rw [Benchmark.Leaves] at h
  split at h
  · rw [h]
    exact .refl _ _
  · refine ⟨h.1.toSameTree, fun l hl => h.1.nodes l fun p hp hlead => hl ?_⟩
    rw [List.mem_singleton.mp hp] at hlead
    exact Or.inr hlead
  · exact h.elim
  · exact h.elim
  · refine ⟨h.2.1.toSameTree, fun l hl => h.2.1.nodes l fun p hp hlead => hl ?_⟩
    rcases List.mem_cons.mp hp with rfl | hp
    · exact Or.inl hlead
    · rw [List.mem_singleton.mp hp] at hlead
      exact Or.inr hlead

/-- No input is linked to a chart or to a scratch file: nothing that is passed on the way to an
input is something that a chart writes. -/
def Request.Apart (r : Request) (files : Files) : Prop :=
  ∀ b c l l', files.Leads (r.input b) l → files.Passes l l' → ¬ r.Touches files c l'

theorem Request.touches_iff {r : Request} {f g : Files} (h : f.SameTree g) (b : Benchmark)
    (l : Location) : r.Touches g b l ↔ r.Touches f b l := by
  rw [Touches, Touches, h.leads_iff, h.leads_iff]

theorem Files.passes_of_agree {f g : Files} {l l' : Location} (h : g.Passes l l') :
    (∀ m, f.Passes l m → f.Agree g m) → f.Passes l l' := by
  induction h with
  | here l => exact fun _ => .here l
  | link hg _ ih =>
    intro ha
    rw [ha _ (.here _)] at hg
    exact .link hg (ih fun m hm => ha m (.link hg hm))

theorem Request.Apart.of_agree {r : Request} {f g : Files} (h : r.Apart f) (htree : f.SameTree g)
    (ha : ∀ l, (∀ c, ¬ r.Touches f c l) → f.Agree g l) : r.Apart g := by
  intro b c l l' hlead hpass ht
  rw [htree.leads_iff] at hlead
  rw [Request.touches_iff htree] at ht
  have hpass' := Files.passes_of_agree hpass fun m hm => ha m fun c => h b c l m hlead hm
  exact h b c l l' hlead hpass' ht

section
variable {r : Request} (hr : ∀ b, r.settings.overrides b = {})
include hr

theorem Request.Touches.name {files : Files} {b : Benchmark} {l : Location}
    (h : r.Touches files b l) : ∃ name ∈ b.ownNames, l.head? = some name := by
  have hlast := Path.getLast?_steps_join r.directory b.isName_outputName
  rw [← r.output_eq hr] at hlast
  obtain ⟨h₁, h₂⟩ := b.outputName_not_dots
  rcases h with h | h
  · exact ⟨_, List.mem_cons_self .., h.head? hlast h₁ h₂⟩
  · refine ⟨_, List.mem_cons_of_mem _ (List.mem_singleton_self _), ?_⟩
    have hname : (r.output b).scratchName = Path.scratchMark ++ b.outputName.toList := by
      rw [Path.scratchName, Path.fileName?_eq hlast h₁ h₂]
      rfl
    have hs := Path.getLast?_steps_scratch (r.output b)
    rw [hname] at hs
    refine h.head? hs ?_ ?_
    · simp [Path.scratchMark]
    · simp [Path.scratchMark]

theorem Request.Touches.unique {files files' : Files} {b c : Benchmark} {l : Location}
    (hb : r.Touches files b l) (hc : r.Touches files' c l) : b = c := by
  obtain ⟨name, hn, hl⟩ := hb.name hr
  obtain ⟨name', hn', hl'⟩ := hc.name hr
  rw [hl] at hl'
  cases hl'
  exact Benchmark.eq_of_mem_ownNames hn hn'

theorem Request.exists_walk {files : Files} {b : Benchmark} {content : Content}
    (h : files.read (r.input b) = .ok content) :
    ∃ directory, files.walk (files.start r.directory) r.directory.steps = .ok directory := by
  have hfind : ∃ found, files.find (r.input b) = .ok found := by
    rw [Files.read] at h
    cases hf : files.find (r.input b) with
    | ok found => exact ⟨found, rfl⟩
    | error fault => rw [hf] at h; cases h
  obtain ⟨found, hf⟩ := hfind
  obtain ⟨first, he⟩ := Files.entry_of_find hf
  obtain ⟨target, ht, -⟩ := Files.entry_eq_ok he
  rw [r.input_eq hr] at ht
  exact Files.exists_walk_of_resolve b.isName_inputName ht

end

/-! ## One chart after the other -/

structure Kept (r : Request) (f g : Files) : Prop extends Files.SameTree f g where
  reads : ∀ b, g.read (r.input b) = f.read (r.input b)

theorem Kept.trans {r : Request} {f g k : Files} (h : Kept r f g) (h' : Kept r g k) : Kept r f k :=
  ⟨h.toSameTree.trans h'.toSameTree, fun b => (h'.reads b).trans (h.reads b)⟩

section
variable {r : Request} (hr : ∀ b, r.settings.overrides b = {}) (viewer : Viewer) (host : Host)
include hr

theorem kept_render (b : Benchmark) {files : Files} (hapart : r.Apart files) :
    Kept r files (b.render r viewer files host).files := by
  have hchange := b.changedWithin_render r viewer host files
  refine ⟨hchange.toSameTree, fun c => ?_⟩
  cases hl : (b.load r files host).1 with
  | error failure => rw [(Benchmark.render_of_error viewer hl).2]
  | ok table =>
    obtain ⟨content, hc⟩ := Benchmark.read_of_load hl
    obtain ⟨directory, hw⟩ := r.exists_walk hr hc
    rw [← Files.walk_join files r.directory c.isName_inputName, ← r.input_eq hr] at hw
    rw [Files.read, Files.read]
    rw [Files.find_congr (Files.resolve_congr hchange.toSameTree hw)]
    exact fun l l' hlead hpass => hchange.elsewhere l' (hapart c b l l' hlead hpass)

theorem sameDrawing_of_kept (b : Benchmark) {f g : Files} (h : Kept r f g) :
    SameDrawing f g (b.render r viewer f host) (b.render r viewer g host) := by
  refine b.sameDrawing_render r viewer host h.toSameTree (h.reads b) fun content hc => ?_
  obtain ⟨directory, hw⟩ := r.exists_walk hr hc
  refine ⟨directory, ?_⟩
  rw [r.output_eq hr, Files.walk_join f r.directory b.isName_outputName, hw]

end

/-- The files `g` after the charts `done`, which started from `f`: each of them has left what it
leaves alone, and all else is as it was. -/
structure Progress (r : Request) (viewer : Viewer) (host : Host) (f : Files)
    (done : List Benchmark) (g : Files) : Prop where
  kept : Kept r f g
  finished : ∀ b ∈ done, ∀ l, r.Touches f b l → (b.render r viewer f host).files.Agree g l
  untouched : ∀ l, (∀ b ∈ done, ¬ r.Touches f b l) → f.Agree g l

theorem Progress.start (r : Request) (viewer : Viewer) (host : Host) (files : Files) :
    Progress r viewer host files [] files :=
  ⟨⟨.refl _, fun _ => rfl⟩, fun _ hb => absurd hb List.not_mem_nil, fun _ _ => rfl⟩

section
variable {r : Request} {viewer : Viewer} {host : Host} {f g : Files} {done : List Benchmark}

theorem Progress.congr {done' : List Benchmark} (h : Progress r viewer host f done g)
    (hd : ∀ b, b ∈ done' ↔ b ∈ done) : Progress r viewer host f done' g :=
  ⟨h.kept, fun b hb => h.finished b ((hd b).mp hb),
    fun l hl => h.untouched l fun b hb => hl b ((hd b).mpr hb)⟩

theorem Progress.apart (h : Progress r viewer host f done g) (hapart : r.Apart f) : r.Apart g :=
  hapart.of_agree h.kept.toSameTree fun l hl => h.untouched l fun b _ => hl b

structure Files.Same (f g : Files) : Prop where
  workingDirectory : g.workingDirectory = f.workingDirectory
  nodes : ∀ l, g.get? l = f.get? l

theorem Progress.same {g' : Files} (h : Progress r viewer host f done g)
    (h' : Progress r viewer host f done g') : g.Same g' := by
  refine ⟨h'.kept.workingDirectory.trans h.kept.workingDirectory.symm, fun l => ?_⟩
  by_cases hl : ∃ b ∈ done, r.Touches f b l
  · obtain ⟨b, hb, ht⟩ := hl
    exact (h'.finished b hb l ht).trans (h.finished b hb l ht).symm
  · have hl : ∀ b ∈ done, ¬ r.Touches f b l := fun b hb ht => hl ⟨b, hb, ht⟩
    exact (h'.untouched l hl).trans (h.untouched l hl).symm

end

section
variable {r : Request} (hr : ∀ b, r.settings.overrides b = {}) (viewer : Viewer) (host : Host)
  {f : Files} (hapart : r.Apart f)
include hr hapart

theorem Progress.step {g : Files} {done : List Benchmark} (h : Progress r viewer host f done g)
    (c : Benchmark) :
    Progress r viewer host f (c :: done) (c.render r viewer g host).files := by
  have hchange := c.changedWithin_render r viewer host g
  have hsame := sameDrawing_of_kept hr viewer host c h.kept
  have htouch := r.touches_iff h.kept.toSameTree c
  refine ⟨h.kept.trans (kept_render hr viewer host c (h.apart hapart)), fun b hb l hl => ?_,
    fun l hl => ?_⟩
  · by_cases hbc : b = c
    · subst hbc
      apply hsame.2
      -- what the chart does not change is as it was, also if it was drawn before
      by_cases hf : f.Agree (b.render r viewer f host).files l
      · refine Or.inl ?_
        by_cases hdone : b ∈ done
        · exact (h.finished b hdone l hl).trans hf
        · refine h.untouched l fun c hc ht => hdone ?_
          rwa [ht.unique hr hl] at hc
      · exact Or.inr hf
    · have hc : ¬ r.Touches g c l := fun ht => hbc (hl.unique hr ht)
      have hb : b ∈ done := (List.mem_cons.mp hb).resolve_left hbc
      exact (hchange.elsewhere l hc).trans (h.finished b hb l hl)
  · have hc : ¬ r.Touches g c l := fun ht => hl c (List.mem_cons_self ..) ((htouch l).mp ht)
    exact (hchange.elsewhere l hc).trans
      (h.untouched l fun b hb => hl b (List.mem_cons_of_mem _ hb))

/-- A whole run: every chart comes to what it comes to alone. -/
theorem Progress.renderAll (charts : List Benchmark) :
    ∀ {g : Files} {done : List Benchmark}, Progress r viewer host f done g →
      Progress r viewer host f (charts ++ done) (Program.renderAll r viewer charts g host).2 ∧
        (Program.renderAll r viewer charts g host).1.map (fun p => (p.1, p.2.result)) =
          charts.map fun b => (b, (b.render r viewer f host).result) := by
  induction charts with
  | nil => intro g done h; exact ⟨h, rfl⟩
  | cons c rest ih =>
    intro g done h
    obtain ⟨hp, hres⟩ := ih (h.step hr viewer host hapart c)
    refine ⟨hp.congr fun b => ?_, ?_⟩
    · simp only [List.cons_append, List.mem_cons, List.mem_append]
      exact or_left_comm
    · show (c, (c.render r viewer g host).result) :: _ = _
      rw [hres, (sameDrawing_of_kept hr viewer host c h.kept).1, List.map_cons]

end

/-! ## Exit codes -/

theorem Program.renderAll_charts (r : Request) (viewer : Viewer) (host : Host)
    (all charts : List Benchmark) : ∀ files,
    renderAll { r with charts := all } viewer charts files host =
      renderAll r viewer charts files host := by
  induction charts with
  | nil => intro files; rfl
  | cons b rest ih =>
    intro files
    have hb : b.render { r with charts := all } viewer files host =
        b.render r viewer files host := by
      delta Benchmark.render Benchmark.load Benchmark.draw
      rfl
    rw [renderAll, renderAll, hb, ih]

theorem Program.code_perform (r : Request) (viewer : Viewer) (charts : List Benchmark)
    (files : Files) (host : Host) :
    (perform { r with charts } viewer files host).code =
      if ((renderAll r viewer charts files host).1.map fun p => (p.1, p.2.result)).all (·.2.isOk)
      then 0 else 1 := by
  have hcode : (perform { r with charts } viewer files host).code =
      if ((renderAll r viewer charts files host).1.filter fun p => failed p.2).length = 0
      then 0 else 1 := by
    rw [← renderAll_charts r viewer host charts]
    rfl
  have hfailed : ∀ o : Outcome Failure Rendered, o.result.isOk = !failed o := by
    intro o
    rw [failed]
    cases o.result <;> rfl
  rw [hcode]
  simp only [List.length_eq_zero_iff, List.filter_eq_nil_iff, List.all_map, List.all_eq_true,
    Function.comp_apply, hfailed, Bool.not_eq_true', Bool.not_eq_true]

end TimingCharts
