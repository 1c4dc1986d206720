import Tabular.Main
import Tabular.Service
import Tabular.Service.Address
import Tabular.Proofs.Aggregate.Mode
import Tabular.Proofs.Aggregate.Percentile
import Tabular.Proofs.Aggregate.Ranks
import Tabular.Proofs.Amount.Sign
import Tabular.Proofs.Chart.Computed
import Tabular.Proofs.Chart.Groups
import Tabular.Proofs.Chart.Limit
import Tabular.Proofs.Chart.Names
import Tabular.Proofs.Chart.Reordering
import Tabular.Proofs.Chart.Scorecard
import Tabular.Proofs.Command.Numerals
import Tabular.Proofs.Document.Faithful
import Tabular.Proofs.Document.Settings
import Tabular.Proofs.Document.Table
import Tabular.Proofs.Formula.Agreement
import Tabular.Proofs.Formula.Appearance
import Tabular.Proofs.Formula.Blame
import Tabular.Proofs.Formula.Extraction
import Tabular.Proofs.Formula.Keys
import Tabular.Proofs.Formula.Nulls
import Tabular.Proofs.Formula.Printing
import Tabular.Proofs.Formula.Safety
import Tabular.Proofs.Grouping.Ceiling
import Tabular.Proofs.Grouping.Conservation
import Tabular.Proofs.Grouping.GroupBy
import Tabular.Proofs.Grouping.Numbers
import Tabular.Proofs.Grouping.Pivot
import Tabular.Proofs.Grouping.Reshape
import Tabular.Proofs.Metric.Total
import Tabular.Proofs.Sorting
