import TimingCharts.Files
import TimingCharts.Plot

/-!
# The host

What a program finds where it runs: how images come to be drawn there, and what it is not
allowed to do with its files. Both stay as they are during a run.
-/

namespace TimingCharts

/-- What comes of drawing a plot at a path. -/
inductive Drawn where
  | complete (format : Image.Format)
  /-- The drawing breaks off behind some of the series. If it saves a file all the same, that
  is what it leaves. -/
  | brokenOff (reached : Nat) (left : Option Content)

namespace Host

/-- Something done with files that may be refused. -/
inductive Access where
  | read (path : Path)
  | rename (source dest : Path)
  | remove (path : Path)
  deriving DecidableEq, Repr

end Host

structure Host where
  /-- Draws a plot at a path, knowing whether a file can be written there. -/
  draw : Plot → Path → Bool → Drawn
  /-- Why something is refused, if it is. -/
  refuses : Host.Access → Option Files.Fault

namespace Host

def permit {α : Type} (host : Host) (access : Access) (outcome : Except Files.Fault α) :
    Except Files.Fault α :=
  match host.refuses access with
  | some fault => .error fault
  | none => outcome

/-- The format that a path asks for, if it is one that can hold the image of the plot. -/
def formatFor? (plot : Plot) (path : Path) : Option Image.Format :=
  (path.extension?.bind Image.Format.ofExtension?).filter fun format =>
    format.fits plot.width plot.height

/-- A host that draws in the format that the path asks for, and refuses nothing. -/
def standard : Host where
  draw plot path _ :=
    match formatFor? plot path with
    | some format => .complete format
    | none => .brokenOff plot.series.length none
  refuses _ := none

end Host

end TimingCharts
