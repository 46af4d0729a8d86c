import Ztest.ClusterConfig.Lemmas
import Ztest.Engine.Record.Lemmas.Rerun
import Ztest.Engine.Schedule.Lemmas.EventStream
import Ztest.Engine.Schedule.Lemmas.ExitCode
import Ztest.Engine.Schedule.Lemmas.Retry
import Ztest.Env.Lemmas
import Ztest.Image.BuildPod.Lemmas
import Ztest.Image.Lemmas
import Ztest.Lib.Trace
import Ztest.Lib.Tiles
import Ztest.Libtest.Lemmas
import Ztest.Loadtest.Audit.Lemmas.Sound
import Ztest.Loadtest.Burst.Impl
import Ztest.Loadtest.Burst.Lemmas
import Ztest.Loadtest.Deframer
import Ztest.Loadtest.Desk.Lemmas.Counts
import Ztest.Loadtest.Differential.Lemmas.Exact
import Ztest.Loadtest.Head
import Ztest.Loadtest.Shards
import Ztest.Loadtest.World.Lemmas.Uncharged
import Ztest.Materialize.Lemmas
import Ztest.Materialize.Watch.Impl
import Ztest.Materialize.Watch.Lemmas.Verdict
import Ztest.Plan.Exclude
import Ztest.Plan.Inherit
import Ztest.Plan.Sync.Lemmas
import Ztest.Profiling.Lemmas
import Ztest.Qos.Beacon
import Ztest.Qos.Footprint
import Ztest.Qos.Ledger.Elastic
import Ztest.Qos.Ledger.Lemmas.FairShare
import Ztest.Qos.Ledger.Lemmas.Overcommit
import Ztest.Qos.Ledger.Lemmas.Snapshots
import Ztest.Qos.Peak
import Ztest.Qos.Renewal.Lemmas
import Ztest.Qos.Scheduler.Lemmas.Fair
import Ztest.Resource.BuildSlot.Lemmas
import Ztest.Resource.Graph.Lemmas.Provision
import Ztest.Resource.Graph.Lemmas.Teardown
import Ztest.Resource.Orphans.Lemmas
import Ztest.Resource.Reclaim.Lemmas.Spared
import Ztest.Sync.Cadence.Lemmas
import Ztest.Sync.Launch.Lemmas
import Ztest.Sync.Runner.Lemmas.Watched
import Ztest.Sync.Vigil.Lemmas.Window
import Ztest.Image.Bundle.Impl
import Ztest.Image.Bundle.Lemmas.Address
import Ztest.Image.Bundle.Lemmas.Excludes
import Ztest.Lib.Counter
import Ztest.Lib.Ladder
import Ztest.Lib.Sums
import Ztest.Metrics.Impl
import Ztest.Metrics.Quantile.Lemmas.Folded
import Ztest.Metrics.Quantile.Lemmas.Quantiles
import Ztest.Metrics.Total.Lemmas
import Ztest.Sync.ChainWork.Impl
import Ztest.Sync.ChainWork.Lemmas.Support
import Ztest.Sync.ChainWork.Lemmas.Works
import Ztest.Sync.ChainWork.Lemmas.Segments
import Ztest.Sync.Chronicle.Impl
import Ztest.Sync.Chronicle.Lemmas
import Ztest.Lib.Run
import Ztest.Loadtest.Accounts.Impl
import Ztest.Loadtest.Accounts.Lemmas
import Ztest.Ui.Template.Impl
import Ztest.Ui.Template.Lemmas.Ends
import Ztest.Ui.Template.Lemmas.Outputs
import Ztest.Ui.Template.Lemmas.RoundTrip
import Ztest.Lib.Dag
import Ztest.Lib.Shares
import Ztest.Profiling.Collapse.Impl
import Ztest.Profiling.Collapse.Lemmas
import Ztest.Ui.Plot.Impl
import Ztest.Ui.Plot.Lemmas.Strokes
import Ztest.Ui.Plot.Lemmas.Rasterized
import Ztest.Cli.RunOptions.Impl
import Ztest.Cli.RunOptions.Lemmas
import Ztest.Lib.Conditional
import Ztest.Pipeline.Cluster.Impl
import Ztest.Pipeline.Cluster.Lemmas
import Ztest.Pipeline.Profiles.Impl
import Ztest.Pipeline.Profiles.Lemmas
import Ztest.Cli.Snapshot.Impl
import Ztest.Cli.Snapshot.Lemmas
import Ztest.Image.Buildctl.Impl
import Ztest.Image.Buildctl.Lemmas
import Ztest.Image.Exec
import Ztest.Sync.Await.Impl
import Ztest.Sync.Await.Lemmas
import Ztest.Lib.Utf8
import Ztest.Pipeline.Dumps.Impl
import Ztest.Pipeline.Dumps.Lemmas
import Ztest.Materialize.Snapshot.Impl
import Ztest.Materialize.Snapshot.Lemmas
import Ztest.Engine.Retention.Impl
import Ztest.Engine.Retention.Lemmas
import Ztest.Lib.Ansi
import Ztest.Ui.Console.Bridge.Impl
import Ztest.Ui.Console.Bridge.Lemmas
import Ztest.Ui.Console.Decode
import Ztest.Env.Topology.Impl
import Ztest.Env.Topology.Lemmas
import Ztest.Naming
import Ztest.Ui.Status
import Ztest.Engine.Executor.Impl
import Ztest.Engine.Executor.Lemmas.Cluster
import Ztest.Loadtest.Measure
import Ztest.Loadtest.Ramp
import Ztest.Rate
import Ztest.Ui.Transfers
