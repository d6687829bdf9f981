import Kruise.AdvancedCronJob.Concurrency
import Kruise.BroadcastJob.Parallelism
import Kruise.CloneSet.Rollout
import Kruise.CloneSet.ScaleInOrder
import Kruise.CloneSet.UpdateHook
import Kruise.CloneSet.UpdateOrder
import Kruise.ContainerLaunchPriority.Barrier
import Kruise.ContainerMeta.EnvHash
import Kruise.ContainerRecreateRequest.NotReady
import Kruise.DaemonSet.Snapshot
import Kruise.DaemonSet.Surge
import Kruise.DaemonSet.SyncNodes
import Kruise.DaemonSet.Unavailable
import Kruise.EphemeralJob.SyncTargetPods
import Kruise.Expectations.ResourceVersion
import Kruise.ImagePullJob.NodeEvents
import Kruise.ImagePullJob.Policies
import Kruise.ImagePullJob.Release
import Kruise.ImagePuller.Workers
import Kruise.InPlaceUpdate.NextBatch
import Kruise.InPlaceUpdate.Template
import Kruise.NodePodProbe.CleanUp
import Kruise.PodProbeMarker.InStep
import Kruise.ProbeDaemon.Reporting
import Kruise.Pub.Safety
import Kruise.ResourceDistribution.Distribution
import Kruise.Sidecar.Collisions
import Kruise.Sidecar.Converges
import Kruise.Sidecar.Metadata
import Kruise.Sidecar.Quiet
import Kruise.Sidecar.Reported
import Kruise.Sidecar.Uninterrupted
import Kruise.StatefulSet.Counters
import Kruise.StatefulSet.Retention
import Kruise.StatefulSet.Rolling
import Kruise.StatefulSet.StatusUpdate
import Kruise.UnitedDeployment.Churn
import Kruise.UnitedDeployment.Elastic
import Kruise.UnitedDeployment.History
import Kruise.UpdateSort.OrderedKeys
import Kruise.UpdateSort.ScatterApart
import Kruise.Util.NotReadyKeys
import Kruise.Util.Overlap
import Kruise.Util.Percent
import Kruise.Util.RefManager
import Kruise.Util.SlowStart
import Kruise.Util.StatusUpdate
import Kruise.WorkloadSpread.Capacity
import Kruise.WorkloadSpread.Missing
