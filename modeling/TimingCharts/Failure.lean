import TimingCharts.Arguments
import TimingCharts.Drawing
import TimingCharts.Settings

/-!
# Failures

Everything that can keep a chart from being drawn or the program from starting.
-/

namespace TimingCharts

inductive Failure where
  | table (file : Path) (fault : Table.Fault)
  | drawing (fault : Drawing.Fault)
  | settings (file : String) (fault : Settings.Fault)
  | usage (rejection : Arguments.Rejection)
  deriving DecidableEq, Repr

def Failure.message : Failure → String
  | .table file fault => fault.message file
  | .drawing fault => fault.message
  | .settings file fault => s!"failed to load config '{file}': {fault.message}"
  | .usage rejection => rejection.message

end TimingCharts
