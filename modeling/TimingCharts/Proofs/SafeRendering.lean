import TimingCharts.Rendering
import TimingCharts.Proofs.FileChanges

/-!
# Drawing leaves no half-written chart

A chart that cannot be drawn leaves every file but its scratch file as it was, and no scratch
file either unless it must not be removed; a chart that is drawn stands complete at its path.
`render_keeps_files` says this of plots and of benchmarks, whatever the files are, however the
host draws and wherever it breaks off.
-/

namespace TimingCharts

namespace Host

section
variable {host : Host} {access : Access} {α : Type} {outcome : Except Files.Fault α}

theorem permit_of_refused {fault : Files.Fault} (h : host.refuses access = some fault) :
    host.permit access outcome = .error fault := by
  rw [permit, h]

theorem permit_of_allowed (h : host.refuses access = none) :
    host.permit access outcome = outcome := by
  rw [permit, h]

theorem permit_eq_ok {a : α} (h : host.permit access outcome = .ok a) : outcome = .ok a := by
  cases hr : host.refuses access with
  | some fault => rw [permit_of_refused hr] at h; cases h
  | none => rwa [permit_of_allowed hr] at h

end

theorem format_of_standard {plot : Plot} {path : Path} {writable : Bool}
    {format : Image.Format} (h : standard.draw plot path writable = .complete format) :
    path.extension?.bind Image.Format.ofExtension? = some format := by
  simp only [standard] at h
  split at h
  · next format' hformat =>
    cases h
    exact (Option.filter_eq_some_iff.mp hformat).1
  · cases h

end Host

/-! ## Discarding and saving -/

namespace Drawing

section
variable {path : Path} {files : Files} {host : Host}

theorem discard_of_forbidden {fault : Files.Fault} (h : host.refuses (.remove path) = some fault) :
    discard path files host = files := by
  rw [discard, Host.permit_of_refused h]

theorem discard_of_refused {fault : Files.Fault} (hr : files.resolve path = .error fault) :
    discard path files host = files := by
  rw [discard, Files.remove_of_refused hr]
  cases h : host.refuses (.remove path) with
  | some fault => rw [Host.permit_of_refused h]
  | none => rw [Host.permit_of_allowed h]

theorem discard_cases {target : Files.Target} (h : host.refuses (.remove path) = none)
    (hs : path.text.toList.getLast? ≠ some '/') (hr : files.resolve path = .ok target) :
    (files.get? target.location = none ∨ files.get? target.location = some .directory) ∧
        discard path files host = files ∨
      files.get? target.location ≠ some .directory ∧
        discard path files host = files.erase target.location := by
  have hslash : target.slash = false := by rw [Files.resolve_slash hr]; simp [hs]
  rw [discard, Host.permit_of_allowed h, Files.remove_of_resolve hr, hslash]
  cases files.get? target.location with
  | none => exact .inl ⟨.inl rfl, rfl⟩
  | some node =>
    cases node with
    | directory => exact .inl ⟨.inr rfl, rfl⟩
    | file content => exact .inr ⟨by simp, rfl⟩
    | link dest => exact .inr ⟨by simp, rfl⟩

end

/-- Neither a file nor a link stands at a path. -/
def NoFileAt (files : Files) (path : Path) : Prop :=
  ∀ l, files.Leads path l → files.get? l = none ∨ files.get? l = some .directory

theorem changedWithin_discard {path : Path} (hs : path.text.toList.getLast? ≠ some '/')
    (files : Files) (host : Host) :
    Files.ChangedWithin files (discard path files host) (files.Leads path) := by
  cases h : host.refuses (.remove path) with
  | some fault => rw [discard_of_forbidden h]; exact .refl _ _
  | none =>
    cases hr : files.resolve path with
    | error fault => rw [discard_of_refused hr]; exact .refl _ _
    | ok target =>
      rcases discard_cases h hs hr with ⟨-, hdiscard⟩ | ⟨hnode, hdiscard⟩
      · rw [hdiscard]
        exact .refl _ _
      · rw [hdiscard]
        exact (Files.changedWithin_erase hnode).mono fun l hl => ⟨target, hr, hl.symm⟩

theorem noFileAt_discard {path : Path} {host : Host} (h : host.refuses (.remove path) = none)
    (hs : path.text.toList.getLast? ≠ some '/') (files : Files) :
    NoFileAt (discard path files host) path := by
  intro l hl
  rw [(changedWithin_discard hs files host).leads_iff] at hl
  obtain ⟨target, hr, rfl⟩ := hl
  rcases discard_cases h hs hr with ⟨hnode, hdiscard⟩ | ⟨hnode, hdiscard⟩
  · rw [hdiscard]
    exact hnode
  · rw [hdiscard]
    exact .inl (Files.get?_erase_self _ (Files.ne_nil_of_not_directory hnode))

end Drawing

namespace Plot

theorem image_of_save {plot : Plot} {path : Path} {files : Files} {host : Host}
    (h : (plot.save path files host).result = .ok ()) :
    ∃ format, host.draw plot path (files.writable path) = .complete format ∧
      files.write path (.image (plot.image format)) = .ok (plot.save path files host).files := by
  rw [save] at h ⊢
  cases hdraw : host.draw plot path (files.writable path) with
  | brokenOff reached left =>
    simp only [hdraw] at h
    split at h <;> cases h
  | complete format =>
    simp only [hdraw] at h ⊢
    split at h
    · next saved hsaved => exact ⟨format, rfl, hsaved⟩
    · cases h

theorem backend_of_save {plot : Plot} {path : Path} {files : Files} {host : Host}
    {fault : Drawing.Fault} (h : (plot.save path files host).result = .error fault) :
    fault = .backend := by
  rw [save] at h
  split at h
  · split at h <;> cases h
    rfl
  · split at h <;> cases h <;> rfl

theorem changedWithin_write {files saved : Files} {path : Path} {content : Content}
    (h : files.write path content = .ok saved) :
    Files.ChangedWithin files saved (files.Leads path) := by
  obtain ⟨target, name, hr, -, -, hd, rfl⟩ := Files.write_eq_ok h
  exact (Files.changedWithin_insert hd _).mono fun l hl => ⟨target, hr, hl.symm⟩

/-- Whatever becomes of a drawing, it touches nothing but its path. -/
theorem changedWithin_save (plot : Plot) (path : Path) (files : Files) (host : Host) :
    Files.ChangedWithin files (plot.save path files host).files (files.Leads path) := by
  rw [save]
  split
  · split
    · next hsaved => exact changedWithin_write hsaved
    · exact .refl _ _
  · split
    · next hsaved =>
      obtain ⟨content, -, hsaved⟩ := Option.map_eq_some_iff.mp hsaved
      exact changedWithin_write hsaved
    · exact .refl _ _

section
variable {plot : Plot} {path : Path} {files : Files} {host : Host}

theorem render_of_empty (h : plot.series = []) :
    plot.render path files host = ⟨.error .noSeries, [], files⟩ := by
  rw [render, if_pos (List.isEmpty_iff.mpr h)]

theorem render_of_unsaved {fault : Drawing.Fault} (h : plot.series ≠ [])
    (hs : (plot.save path.scratch files host).result = .error fault) :
    plot.render path files host = ⟨.error .backend, (plot.save path.scratch files host).log,
      Drawing.discard path.scratch (plot.save path.scratch files host).files host⟩ := by
  rw [render, if_neg (mt List.isEmpty_iff.mp h)]
  dsimp only
  rw [hs, backend_of_save hs]

theorem render_of_renamed {renamed : Files} (h : plot.series ≠ [])
    (hs : (plot.save path.scratch files host).result = .ok ())
    (hr : host.permit (.rename path.scratch path)
      ((plot.save path.scratch files host).files.rename path.scratch path) = .ok renamed) :
    plot.render path files host =
      ⟨.ok (), (plot.save path.scratch files host).log, renamed⟩ := by
  rw [render, if_neg (mt List.isEmpty_iff.mp h)]
  dsimp only
  rw [hs, hr]

theorem render_of_refused {cause : Files.Fault} (h : plot.series ≠ [])
    (hs : (plot.save path.scratch files host).result = .ok ())
    (hr : host.permit (.rename path.scratch path)
      ((plot.save path.scratch files host).files.rename path.scratch path) = .error cause) :
    plot.render path files host =
      ⟨.error (.notWritten path cause), (plot.save path.scratch files host).log,
        Drawing.discard path.scratch (plot.save path.scratch files host).files host⟩ := by
  rw [render, if_neg (mt List.isEmpty_iff.mp h)]
  dsimp only
  rw [hs, hr]

end

end Plot

/-! ## What a rendering leaves behind -/

/-- Only the scratch file of a chart may be touched, and no file is left there unless the host
refuses to remove it. -/
def LeavesNothing (host : Host) (out : Path) (before after : Files) : Prop :=
  before.UnchangedBut after [out.scratch] ∧
    (host.refuses (.remove out.scratch) = none → Drawing.NoFileAt after out.scratch)

/-- A complete image of the given size stands at the path of a chart and nothing at that of its
scratch file; all else is as it was. -/
def PutsImage (out : Path) (width height : UInt32) (before after : Files) : Prop :=
  before.UnchangedBut after [out, out.scratch] ∧ after.at? out.scratch = none ∧
    ∃ image : Image, after.at? out = some (.file (.image image)) ∧
      image.width = width ∧ image.height = height

namespace Plot

theorem leavesNothing_discard {host : Host} {path : Path} {files saved : Files}
    (h : Files.ChangedWithin files saved (files.Leads path.scratch)) :
    LeavesNothing host path files (Drawing.discard path.scratch saved host) := by
  have hs := Path.scratch_not_slash path
  refine ⟨Files.ChangedWithin.unchangedBut ?_, fun hr => Drawing.noFileAt_discard hr hs saved⟩
  have hd := (Drawing.changedWithin_discard hs saved host).mono fun l hl =>
    (h.leads_iff path.scratch l).mp hl
  exact (h.trans hd).mono fun l hl => ⟨path.scratch, List.mem_singleton_self _, hl⟩

theorem scratch_location_ne {f g : Files} {path : Path} {old new : Files.Target}
    {name name' : List Char} (hnew : f.resolve path = .ok new) (hname' : new.name = some name')
    (hold : g.resolve path.scratch = .ok old) (hname : old.name = some name) :
    new.location ≠ old.location := by
  obtain ⟨hlast', h₁, h₂, d', hl'⟩ := Files.resolve_name hnew hname'
  obtain ⟨hlast, -, -, d, hl⟩ := Files.resolve_name hold hname
  rw [Path.getLast?_steps_scratch] at hlast
  have hne := Path.scratchName_ne (Path.fileName?_eq hlast' h₁ h₂)
  rw [hl, hl', ← Option.some.inj hlast]
  exact fun he => hne (List.cons.inj he).1.symm

theorem image_rename {path : Path} {files saved renamed : Files} {image : Image}
    (hwrite : files.write path.scratch (.image image) = .ok saved)
    (hr : saved.rename path.scratch path = .ok renamed) :
    files.UnchangedBut renamed [path, path.scratch] ∧ renamed.at? path.scratch = none ∧
      renamed.at? path = some (.file (.image image)) := by
  have hsaved := changedWithin_write hwrite
  obtain ⟨old, -, hold, -, -, hfree, rfl⟩ := Files.write_eq_ok hwrite
  obtain ⟨old', new, name, name', node, hold', hnew, hname, hname', hslash, hnode, hd, rfl⟩ :=
    Files.rename_eq_ok hr
  have heq : old' = old := by
    rw [Files.resolve_of_sameTree hsaved.toSameTree hold] at hold'
    exact (Except.ok.inj hold').symm
  subst heq
  have hne := Files.ne_nil_of_not_directory hfree
  rw [Files.get?_insert_self _ _ hne] at hnode
  cases hnode
  have hapart : new.location ≠ old'.location := scratch_location_ne hnew hname' hold' hname
  let erased := (files.insert old'.location (.file (.image image))).erase old'.location
  have herase : Files.ChangedWithin _ erased (· = old'.location) :=
    Files.changedWithin_erase (by rw [Files.get?_insert_self _ _ hne]; exact nofun)
  have hinsert : Files.ChangedWithin erased (erased.insert new.location (.file (.image image)))
      (· = new.location) :=
    Files.changedWithin_insert (by rw [Files.get?_erase_of_ne _ hapart]; exact hd) _
  have htree := (hsaved.toSameTree.trans herase.toSameTree).trans hinsert.toSameTree
  have hnew' := Files.resolve_of_sameTree hsaved.toSameTree.symm hnew
  refine ⟨Files.ChangedWithin.unchangedBut ?_, ?_, ?_⟩
  · refine ((hsaved.mono ?_).trans (herase.mono ?_)).trans (hinsert.mono ?_)
    · intro l hl
      exact ⟨path.scratch, List.mem_cons_of_mem _ (List.mem_singleton_self _), hl⟩
    · intro l hl
      exact ⟨path.scratch, List.mem_cons_of_mem _ (List.mem_singleton_self _), old', hold, hl.symm⟩
    · intro l hl
      exact ⟨path, List.mem_cons_self .., new, hnew', hl.symm⟩
  · rw [Files.at?, Files.entry_of_resolve (Files.resolve_of_sameTree htree hold),
      Files.get?_insert_of_ne _ _ hapart.symm, Files.get?_erase_self _ hne]
    rfl
  · rw [Files.at?, Files.entry_of_resolve (Files.resolve_of_sameTree htree hnew'),
      Files.get?_insert_self _ _ (Files.ne_nil_of_not_directory hd), hslash]
    rfl

/-- How a rendering goes: it has nothing to draw, the drawing breaks off, the host refuses to put
the image in place, or all goes well. -/
theorem render_cases (plot : Plot) (path : Path) (files : Files) (host : Host) :
    (plot.series = [] ∧ plot.render path files host = ⟨.error .noSeries, [], files⟩) ∨
    (plot.series ≠ [] ∧ ∃ fault, fault ≠ .noSeries ∧
      (plot.render path files host).result = .error fault ∧
      (plot.render path files host).files =
        Drawing.discard path.scratch (plot.save path.scratch files host).files host) ∨
    (plot.series ≠ [] ∧ ∃ format,
      host.draw plot path.scratch (files.writable path.scratch) = .complete format ∧
      (plot.render path files host).result = .ok () ∧
      files.UnchangedBut (plot.render path files host).files [path, path.scratch] ∧
      (plot.render path files host).files.at? path.scratch = none ∧
      (plot.render path files host).files.at? path = some (.file (.image (plot.image format)))) := by
  by_cases hempty : plot.series = []
  · exact .inl ⟨hempty, render_of_empty hempty⟩
  cases hs : (plot.save path.scratch files host).result with
  | error fault =>
    rw [render_of_unsaved hempty hs]
    exact .inr (.inl ⟨hempty, _, by simp, rfl, rfl⟩)
  | ok u =>
    cases hr : host.permit (.rename path.scratch path)
        ((plot.save path.scratch files host).files.rename path.scratch path) with
    | error cause =>
      rw [render_of_refused hempty hs hr]
      exact .inr (.inl ⟨hempty, _, by simp, rfl, rfl⟩)
    | ok renamed =>
      obtain ⟨format, hdraw, hwrite⟩ := image_of_save hs
      obtain ⟨hunchanged, hscratch, hat⟩ := image_rename hwrite (Host.permit_eq_ok hr)
      rw [render_of_renamed hempty hs hr]
      exact .inr (.inr ⟨hempty, format, hdraw, rfl, hunchanged, hscratch, hat⟩)

theorem image_of_render {plot : Plot} {path : Path} {files : Files} {host : Host}
    (h : (plot.render path files host).result = .ok ()) :
    ∃ format, host.draw plot path.scratch (files.writable path.scratch) = .complete format ∧
      (plot.render path files host).files.at? path =
        some (.file (.image (plot.image format))) := by
  rcases plot.render_cases path files host with
    ⟨-, hrender⟩ | ⟨-, fault, -, hresult, -⟩ | ⟨-, format, hdraw, -, -, -, hat⟩
  · rw [hrender] at h
    cases h
  · rw [hresult] at h
    cases h
  · exact ⟨format, hdraw, hat⟩

def Leaves (plot : Plot) (path : Path) (files : Files) (host : Host)
    (o : Outcome Drawing.Fault Unit) : Prop :=
  match o.result with
  | .error .noSeries => plot.series = [] ∧ o.files = files
  | .error _ => plot.series ≠ [] ∧ LeavesNothing host path files o.files
  | .ok () => plot.series ≠ [] ∧ PutsImage path plot.width plot.height files o.files

theorem leaves_render (plot : Plot) (path : Path) (files : Files) (host : Host) :
    plot.Leaves path files host (plot.render path files host) := by
  rcases plot.render_cases path files host with
    ⟨hempty, hrender⟩ | ⟨filled, fault, hfault, hresult, hfiles⟩ |
      ⟨filled, format, -, hresult, hunchanged, hscratch, hat⟩
  · rw [hrender]
    exact ⟨hempty, rfl⟩
  · rw [Leaves, hresult, hfiles]
    have hleaves : LeavesNothing host path files _ :=
      leavesNothing_discard (plot.changedWithin_save path.scratch files host)
    cases fault with
    | noSeries => exact absurd rfl hfault
    | backend => exact ⟨filled, hleaves⟩
    | notWritten _ _ => exact ⟨filled, hleaves⟩
  · rw [Leaves, hresult]
    exact ⟨filled, hunchanged, hscratch, _, hat, rfl, rfl⟩

/-- An image that must neither take its name nor be removed stays where it was drawn. -/
theorem image_stays {plot : Plot} {path : Path} {files : Files} {host : Host}
    {cause fault : Files.Fault} (h : plot.series ≠ [])
    (hs : (plot.save path.scratch files host).result = .ok ())
    (hrename : host.refuses (.rename path.scratch path) = some cause)
    (hremove : host.refuses (.remove path.scratch) = some fault) :
    ∃ format, (plot.render path files host).files.at? path.scratch =
      some (.file (.image (plot.image format))) := by
  obtain ⟨format, -, hwrite⟩ := image_of_save hs
  rw [render_of_refused h hs (Host.permit_of_refused hrename)]
  dsimp only
  rw [Drawing.discard_of_forbidden hremove]
  exact ⟨format, Files.at?_of_write hwrite⟩

end Plot

namespace Benchmark

theorem load_eq (b : Benchmark) (r : Request) (files : Files) (host : Host) :
    (b.load r files host).1 = match host.permit (.read (r.input b)) (files.read (r.input b)) with
      | .error .notFound => .error (.table (r.input b) (.missingInput b.producer))
      | .error fault => .error (.table (r.input b) (.unreadable (.files fault)))
      | .ok content =>
        (Table.ofBytes (r.input b) b.layout content.toBytes).mapError (.table (r.input b)) := by
  delta load
  dsimp only
  -- the files are not looked into
  generalize host.permit (.read (r.input b)) (files.read (r.input b)) = given
  cases given with
  | error fault => cases fault <;> rfl
  | ok content =>
    dsimp only
    cases Table.ofBytes (r.input b) b.layout content.toBytes <;> rfl

section
variable {b : Benchmark} {r : Request} {files : Files} {host : Host}

theorem load_error {failure : Failure} (h : (b.load r files host).1 = .error failure) :
    ∃ path fault, failure = .table path fault := by
  rw [load_eq] at h
  split at h
  · cases h; exact ⟨_, _, rfl⟩
  · cases h; exact ⟨_, _, rfl⟩
  · next content _ =>
    cases ht : Table.ofBytes (r.input b) b.layout content.toBytes with
    | error fault => rw [ht] at h; cases h; exact ⟨_, _, rfl⟩
    | ok table => rw [ht] at h; cases h

theorem read_of_load {table : Table} (h : (b.load r files host).1 = .ok table) :
    ∃ content, files.read (r.input b) = .ok content := by
  rw [load_eq] at h
  cases hc : host.permit (.read (r.input b)) (files.read (r.input b)) with
  | ok content => exact ⟨content, Host.permit_eq_ok hc⟩
  | error fault => cases fault <;> rw [hc] at h <;> cases h

variable (viewer : Viewer)

theorem render_of_error {failure : Failure} (h : (b.load r files host).1 = .error failure) :
    (b.render r viewer files host).result = .error failure ∧
      (b.render r viewer files host).files = files := by
  delta render
  generalize b.load r files host = loaded at h ⊢
  obtain ⟨result, log⟩ := loaded
  cases h
  exact ⟨rfl, rfl⟩

theorem render_of_loaded {table : Table} (h : (b.load r files host).1 = .ok table) :
    (b.render r viewer files host).result = (b.draw r viewer table files host).result ∧
      (b.render r viewer files host).files = (b.draw r viewer table files host).files := by
  delta render
  generalize b.load r files host = loaded at h ⊢
  obtain ⟨result, log⟩ := loaded
  cases h
  exact ⟨rfl, rfl⟩

end

def plot (b : Benchmark) (r : Request) (table : Table) : Plot :=
  { (b.plan table).1 with width := r.width, height := r.height }

def Leaves (b : Benchmark) (r : Request) (files : Files) (host : Host)
    (o : Outcome Failure Rendered) : Prop :=
  match o.result with
  | .error (.table _ _) => o.files = files
  | .error (.drawing _) => LeavesNothing host (r.output b) files o.files
  | .error (.settings _ _) => False
  | .error (.usage _) => False
  | .ok rendered => rendered.output = r.output b ∧
      PutsImage (r.output b) r.width r.height files o.files

section
variable {b : Benchmark} {r : Request} {table : Table} (viewer : Viewer) (files : Files)
  (host : Host)

theorem draw_of_empty (h : (b.plot r table).series = []) :
    (b.draw r viewer table files host).result = .error (.table table.source .empty) ∧
      (b.draw r viewer table files host).files = files := by
  rw [plot] at h
  rw [draw]
  -- the plan is not looked into
  generalize b.plan table = plan at h ⊢
  have h' : plan.1.series.isEmpty = true := List.isEmpty_iff.mpr h
  simp only [h', ite_true, and_self]

theorem draw_of_series (h : (b.plot r table).series ≠ []) :
    (b.draw r viewer table files host).files =
        ((b.plot r table).render (r.output b) files host).files ∧
      (b.draw r viewer table files host).result =
        match ((b.plot r table).render (r.output b) files host).result with
        | .error fault => .error (.drawing fault)
        | .ok () => .ok ⟨b, r.output b, b.threads table⟩ := by
  rw [plot] at h ⊢
  rw [draw]
  generalize b.plan table = plan at h ⊢
  have h' : plan.1.series.isEmpty = false := List.isEmpty_eq_false_iff.mpr h
  simp only [h', Bool.false_eq_true, ite_false]
  generalize Plot.render _ (r.output b) files host = outcome
  rcases outcome with ⟨_ | _, log, files'⟩
  · exact ⟨rfl, rfl⟩
  · exact ⟨rfl, rfl⟩

end

theorem leaves_draw (b : Benchmark) (r : Request) (viewer : Viewer) (table : Table)
    (files : Files) (host : Host) : b.Leaves r files host (b.draw r viewer table files host) := by
  by_cases hempty : (b.plot r table).series = []
  · obtain ⟨hr, hf⟩ := draw_of_empty viewer files host hempty
    rw [Leaves, hr]
    exact hf
  · obtain ⟨hf, hr⟩ := draw_of_series viewer files host hempty
    have h := (b.plot r table).leaves_render (r.output b) files host
    rw [Leaves, hr, hf]
    rw [Plot.Leaves] at h
    split at h
    · exact absurd h.1 hempty
    · next he => rw [he]; exact h.2
    · next he => rw [he]; exact ⟨rfl, h.2⟩

theorem leaves_render (b : Benchmark) (r : Request) (viewer : Viewer) (files : Files)
    (host : Host) : b.Leaves r files host (b.render r viewer files host) := by
  cases hl : (b.load r files host).1 with
  | error failure =>
    obtain ⟨path, fault, rfl⟩ := load_error hl
    obtain ⟨hr, hf⟩ := render_of_error viewer hl
    rw [Leaves, hr]
    exact hf
  | ok table =>
    have h := b.leaves_draw r viewer table files host
    obtain ⟨hr, hf⟩ := render_of_loaded viewer hl
    rw [Leaves] at h ⊢
    rw [hr, hf]
    exact h

end Benchmark

end TimingCharts
