import Coverpin.Registry.Jurisdictions
import Coverpin.Registry.Ledger
import Coverpin.Registry.OwnershipChart
import Coverpin.Registry.SqlLike
import Coverpin.Registry.StatusOrder
import Coverpin.Registry.Suggestions
import Coverpin.Server.Accounting
import Coverpin.Server.AnalyticsCache
import Coverpin.Server.PermanentIds
import Coverpin.Server.Polls
import Coverpin.Server.SerialOrder
import Coverpin.Server.Sweeps
import Coverpin.Upload.BoundParameters
import Coverpin.Upload.EdgeKeys
import Coverpin.Upload.FileLayout
import Coverpin.Validation.CycleOrder
import Coverpin.Validation.HiddenCycles
import Coverpin.Validation.UnmatchedNames
