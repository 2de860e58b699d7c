import TimingCharts.Main
import TimingCharts.Program
import TimingCharts.Proofs.ChartPoints
import TimingCharts.Proofs.Paths
import TimingCharts.Proofs.FileChanges
import TimingCharts.Proofs.SafeRendering
import TimingCharts.Proofs.ChartOrder
import TimingCharts.Proofs.Decoding
import TimingCharts.Proofs.Records
import TimingCharts.Proofs.Loading
import TimingCharts.Proofs.LoadedTables
import TimingCharts.Proofs.FaultyFiles
import TimingCharts.Proofs.Plans
import TimingCharts.Proofs.ThreadSplit
import TimingCharts.Proofs.CompleteCharts
import TimingCharts.Proofs.AddedFlags
import TimingCharts.Proofs.RowOrder
import TimingCharts.Proofs.Verbosity
import TimingCharts.Proofs.RecordPositions
import TimingCharts.Proofs.Blocks
import TimingCharts.Proofs.RunOutcome
import TimingCharts.Proofs.Averages
import TimingCharts.Proofs.Columns
import TimingCharts.Proofs.Selections
import TimingCharts.Proofs.AxisRanges
import TimingCharts.Proofs.UsableRanges
import TimingCharts.Proofs.PlotBuilding
import TimingCharts.Proofs.SkippedPoints
import TimingCharts.Proofs.ArgumentGroups
import TimingCharts.Proofs.SettingsTokens
import TimingCharts.Proofs.SettingsLines
import TimingCharts.Proofs.UnknownSettings
import TimingCharts.Proofs.SettingsFiles
import TimingCharts.Proofs.ExactValues
import TimingCharts.Proofs.DecimalTexts
import TimingCharts.Proofs.RoundedDecimals
import TimingCharts.Proofs.ScratchPaths
import TimingCharts.Proofs.ImageFormats
import TimingCharts.Proofs.LabelUnits
import TimingCharts.Proofs.TrimmedDecimals
import TimingCharts.Proofs.ShownPaths
