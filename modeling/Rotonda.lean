import Rotonda.RibUnit.Filtered
import Rotonda.RibUnit.Batch
import Rotonda.RibUnit.Freshness
import Rotonda.BmpIn.Ledger
import Rotonda.BmpIn.DumpEnd
import Rotonda.BmpIn.Rejection
import Rotonda.BmpIn.Stream
import Rotonda.BgpIn.Replacement
import Rotonda.BgpIn.Agreement
import Rotonda.MrtIn.Identity
import Rotonda.BmpOut.RoundTrip
import Rotonda.BmpOut.Accounting
import Rotonda.BmpOut.Mirror
import Rotonda.Comms.Attach
import Rotonda.Comms.Delivery
import Rotonda.Comms.Status
import Rotonda.Node.Records
import Rotonda.Node.FanIn
import Rotonda.Node.Routers
import Rotonda.Node.Relay
import Rotonda.Manager.Reload
import Rotonda.BmpOut.AsPaths
import Rotonda.BgpIn.StatsBuilder
import Rotonda.BgpIn.Reconfigure
import Rotonda.BgpIn.Gauges
import Rotonda.BmpOut.Budget
import Rotonda.Metrics.Roto
import Rotonda.Targets.Mqtt
import Rotonda.RibUnit.Interner
import Rotonda.WebUi.Base
import Rotonda.WebUi.Routes
import Rotonda.BmpOut.AdminLabel
