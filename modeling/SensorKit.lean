import SensorKit.Auto.AgentConfiguration
import SensorKit.Auto.ConstraintHold
import SensorKit.Auto.ConstraintClosed
import SensorKit.Core.ControllerCalls
import SensorKit.Common.DagExcuses
import SensorKit.Sensor.CollectSettings
import SensorKit.Sensor.ExecutionProtocol
import SensorKit.Core.ControllerLatches
import SensorKit.Auto.OperatorLoop
import SensorKit.Auto.ConfigureFrame
import SensorKit.Auto.SupervisorSound
import SensorKit.Sensor.Splitting
import SensorKit.Data.FileWriterApart
import SensorKit.Data.GraphRuns
import SensorKit.Backend.LeaseSound
import SensorKit.Common.FileWatchSound
import SensorKit.Auto.ProgramDriveSound
import SensorKit.Backend.LongCallSound
import SensorKit.Core.ProgramAttribution
import SensorKit.Core.ProgramSessions
import SensorKit.Common.DagStop
import SensorKit.Sensor.FrameChain
import SensorKit.Sensor.DispatchSound
import SensorKit.Sensor.RoutingCoherent
import SensorKit.Common.Predicate
import SensorKit.Auto.TimeRange
import SensorKit.Common.ElectionOrder
import SensorKit.Auto.ReactorEscalation
import SensorKit.Core.EnableMonitor
import SensorKit.Sensor.PoliciesCompile
import SensorKit.Auto.ReadingConstraints
import SensorKit.Core.TaskContext
import SensorKit.Data.GraphStart
import SensorKit.Data.ContextPaths
import SensorKit.Data.FlowDelivery
import SensorKit.Core.TaskCallOutcome
import SensorKit.Webapi.LiveStreamReplay
import SensorKit.Core.ServiceDetach
import SensorKit.Common.ModelRegistrySound
import SensorKit.Common.ModelRegistryResolve
import SensorKit.Webapi.ForwarderTraffic
import SensorKit.Webapi.StreamCapacity
import SensorKit.Webapi.Security
import SensorKit.Udl.TaskQueueSound
import SensorKit.Data.FitsSound
import SensorKit.Backend.StreamList
import SensorKit.Common.FanOutDelivery
import SensorKit.Slack.Summary
import SensorKit.Burr.Program
import SensorKit.Otto.ObjectLists
import SensorKit.Slack.Notifier
