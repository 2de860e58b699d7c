import TimingCharts.Image
import TimingCharts.Label
import TimingCharts.Log
import TimingCharts.Series
import TimingCharts.Ticks

/-!
# Plots

A plot holds everything that is needed to draw one chart. Series without points are left out
with a warning; points that the scale does not admit are left out of the figure with another.
-/

namespace TimingCharts

/-- Everything that is needed to draw one chart. -/
structure Plot where
  caption : String := ""
  xDescription : String := "Size"
  yDescription : String := "Time (Seconds)"
  scale : Scale
  /-- Whether a linear x-axis has its marks at the measured sizes. -/
  sizeTicks : Bool := false
  xFormat : Label.Format := .default
  yFormat : Label.Format := .default
  width : UInt32 := 1000
  height : UInt32 := 600
  series : List (Series Float × Style) := []

namespace Plot

def emptyWarning (name : String) : Log.Record :=
  Log.Source.chart.record .warn s!"series '{name}' has no data and is not drawn"

def addSeries (plot : Plot) (series : Series Float) (style : Style) : Plot × List Log.Record :=
  if series.isEmpty then (plot, [emptyWarning series.name])
  else ({ plot with series := plot.series ++ [(series, style)] }, [])

def addAll (plot : Plot) : List (Series Float × Style) → Plot × List Log.Record
  | [] => (plot, [])
  | (series, style) :: rest =>
    let (plot, log) := plot.addSeries series style
    let (plot, more) := plot.addAll rest
    (plot, log ++ more)

/-- One call that sets up a plot. -/
inductive Call where
  | caption (text : String)
  | xDescription (text : String)
  | yDescription (text : String)
  | sizeTicks
  | xFormat (format : Label.Format)
  | yFormat (format : Label.Format)
  | size (width height : UInt32)
  | series (series : Series Float) (style : Style)

/-- The plot after a call, and what the call logs. -/
def call (plot : Plot) : Call → Plot × List Log.Record
  | .caption text => ({ plot with caption := text }, [])
  | .xDescription text => ({ plot with xDescription := text }, [])
  | .yDescription text => ({ plot with yDescription := text }, [])
  | .sizeTicks => ({ plot with sizeTicks := true }, [])
  | .xFormat format => ({ plot with xFormat := format }, [])
  | .yFormat format => ({ plot with yFormat := format }, [])
  | .size width height => ({ plot with width, height }, [])
  | .series series style => plot.addSeries series style

/-- The plot after some calls, and what they log. -/
def build (plot : Plot) : List Call → Plot × List Log.Record
  | [] => (plot, [])
  | call :: rest =>
    let (plot, log) := plot.call call
    let (plot, more) := plot.build rest
    (plot, log ++ more)

def insertSize (size : UInt64) : List UInt64 → List UInt64
  | [] => [size]
  | s :: rest =>
    if size < s then size :: s :: rest
    else if size = s then s :: rest
    else s :: insertSize size rest

def sizes (plot : Plot) : List UInt64 :=
  (plot.series.flatMap (·.1.sizes)).foldl (fun sizes s => insertSize s sizes) []

def points (plot : Plot) : List (Float × Float) :=
  plot.series.flatMap fun (series, _) => series.points.map fun (size, time) => (size.toFloat, time)

/-- The x-axis reaches over the sizes that the scale admits. -/
def xRange (plot : Plot) : Range :=
  plot.scale.range ((plot.points.map Prod.fst).filter plot.scale.admits)

/-- The y-axis reaches over the times that the scale admits. -/
def yRange (plot : Plot) : Range :=
  plot.scale.range ((plot.points.map Prod.snd).filter plot.scale.admits)

/-- The x-axis with its marks at the sizes, if they are to sit there. -/
def xAxis? (plot : Plot) : Option Axis :=
  if plot.scale = .linear ∧ plot.sizeTicks then
    some ⟨plot.xRange, plot.sizes.map UInt64.toFloat⟩
  else none

/-- The points of a series that the scale admits in both coordinates. -/
def drawable (scale : Scale) (series : Series Float) : List (Float × Float) :=
  (series.points.map fun (size, time) => (size.toFloat, time)).filter
    fun (x, y) => scale.admits x && scale.admits y

def figure (plot : Plot) : Figure where
  xRange := plot.xRange
  yRange := plot.yRange
  xAxis? := plot.xAxis?
  lines := plot.series.map fun (series, style) =>
    ⟨series.name, style, drawable plot.scale series⟩

def skippedWarning (name : String) (count : Nat) : Log.Record :=
  Log.Source.chart.record .warn s!"series '{name}': {count} points cannot be shown on a log scale"

def drawingLog (plot : Plot) : List Log.Record :=
  plot.series.filterMap fun (series, _) =>
    let skipped := series.points.length - (drawable plot.scale series).length
    if skipped = 0 then none else some (skippedWarning series.name skipped)

end Plot

end TimingCharts
