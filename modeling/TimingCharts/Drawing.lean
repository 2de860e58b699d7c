import TimingCharts.Host

/-!
# Drawing charts into files

A chart is drawn beside its file and then renamed, so that a chart that was there before stays
as it is unless the new one is complete.
-/

namespace TimingCharts

/-- What an operation on files comes to: its result, its log and the files after it. -/
structure Outcome (ε α : Type) where
  result : Except ε α
  log : List Log.Record
  files : Files

namespace Drawing

inductive Fault where
  | noSeries
  | backend
  /-- The image could not take its final name. -/
  | notWritten (path : Path) (cause : Files.Fault)
  deriving DecidableEq, Repr

def Fault.message : Fault → String
  | .noSeries => "failed to draw chart: no series to draw"
  | .backend => "failed to draw chart: backend error"
  | .notWritten path cause =>
    s!"failed to draw chart: failed to write '{path.text}': {cause.message}"

end Drawing

namespace Plot

def image (plot : Plot) (format : Image.Format) : Image :=
  ⟨format, plot.width, plot.height, plot.figure⟩

/-- Draws the plot and saves it at a path, touching nothing else. A drawing that breaks off may be
saved as well. -/
def save (plot : Plot) (path : Path) (files : Files) (host : Host := .standard) :
    Outcome Drawing.Fault Unit :=
  match host.draw plot path (files.writable path) with
  | .complete format =>
    match files.write path (.image (plot.image format)) with
    | .ok saved => ⟨.ok (), plot.drawingLog, saved⟩
    | .error _ => ⟨.error .backend, plot.drawingLog, files⟩
  | .brokenOff reached left =>
    let log := { plot with series := plot.series.take reached }.drawingLog
    match left.map (files.write path) with
    | some (.ok saved) => ⟨.error .backend, log, saved⟩
    | _ => ⟨.error .backend, log, files⟩

end Plot

namespace Drawing

/-- The files without the one at a path, if it is there and can be removed. -/
def discard (path : Path) (files : Files) (host : Host := .standard) : Files :=
  match host.permit (.remove path) (files.remove path) with
  | .ok files => files
  | .error _ => files

end Drawing

namespace Plot

/-- Draws the plot into a file, in place of one that is there. -/
def render (plot : Plot) (path : Path) (files : Files) (host : Host := .standard) :
    Outcome Drawing.Fault Unit :=
  if plot.series.isEmpty then ⟨.error .noSeries, [], files⟩
  else
    let saved := plot.save path.scratch files host
    let discarded := Drawing.discard path.scratch saved.files host
    match saved.result with
    | .error fault => ⟨.error fault, saved.log, discarded⟩
    | .ok () =>
      match host.permit (.rename path.scratch path) (saved.files.rename path.scratch path) with
      | .ok renamed => ⟨.ok (), saved.log, renamed⟩
      | .error cause => ⟨.error (.notWritten path cause), saved.log, discarded⟩

end Plot

end TimingCharts
