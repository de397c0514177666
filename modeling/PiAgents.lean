import PiAgents.Lib.Runs
import PiAgents.Lib.StableOrder
import PiAgents.Lib.FirstCome
import PiAgents.Lib.Leading
import PiAgents.Lib.ByteStream
import PiAgents.Lib.ModifiedUtf8
import PiAgents.Lib.Protobuf
import PiAgents.Lib.Batches
import PiAgents.Lib.Binary64
import PiAgents.Lib.Decimal
import PiAgents.Lib.Exact
import PiAgents.Capture.Packet
import PiAgents.Capture.Attribution
import PiAgents.Capture.FlowTable
import PiAgents.Capture.Sensor
import PiAgents.Capture.Conversation
import PiAgents.Capture.Flushes
import PiAgents.Capture.Attempts
import PiAgents.Capture.Moves
import PiAgents.Capture.Eviction
import PiAgents.Capture.Aggregation
import PiAgents.Capture.Disorder
import PiAgents.Capture.Outcomes
import PiAgents.Capture.Proto
import PiAgents.Capture.WrittenFields
import PiAgents.Capture.WireRoundTrip
import PiAgents.Detection.DeviceWindows
import PiAgents.Detection.FlowEventDeserializer
import PiAgents.Detection.FlowWire
import PiAgents.Detection.WindowSpec
import PiAgents.Detection.ArrivalOrder
import PiAgents.Detection.DeviceWindowsSerializer
import PiAgents.Detection.RollingViews
import PiAgents.Detection.DeviceClock
import PiAgents.Detection.FeatureThrottle
import PiAgents.Detection.DedupeAndLateness
import PiAgents.Detection.SensorLateness
import PiAgents.Detection.PortScanRule
import PiAgents.Detection.PortScanDetector
import PiAgents.Detection.RuleSteps
import PiAgents.Detection.IncidentWord
import PiAgents.Detection.RuleStream
import PiAgents.Detection.RuleTurns
import PiAgents.Detection.DroppedState
import PiAgents.Detection.DetectorRun
import PiAgents.Detection.Cooldown
import PiAgents.Detection.TransitionIds
import PiAgents.Detection.Replay
import PiAgents.Detection.PipelineRun
import PiAgents.Detection.RunViews
import PiAgents.Detection.Emissions
import PiAgents.Detection.RunRule
import PiAgents.Detection.Schedules
import PiAgents.Incidents.Database
import PiAgents.Incidents.Projector
import PiAgents.Incidents.Projection
import PiAgents.Incidents.Changes
import PiAgents.Incidents.Handling
import PiAgents.Incidents.Snapshot
import PiAgents.Incidents.LiveFeed
import PiAgents.Incidents.LiveDelivery
import PiAgents.Incidents.LivePage
import PiAgents.Gateway.Restore
import PiAgents.Spooling.Record
import PiAgents.Spooling.Spool
import PiAgents.Spooling.Calls
import PiAgents.Spooling.Sequences
import PiAgents.Spooling.Segments
import PiAgents.Spooling.Layout
import PiAgents.Spooling.Pending
import PiAgents.Detection.AdmittedRecords
import PiAgents.Spooling.Recovery
import PiAgents.Spooling.Agreement
import PiAgents.Spooling.Representation
import PiAgents.Spooling.ReadRuns
import PiAgents.Detection.IdleState
import PiAgents.Detection.Hold
import PiAgents.Gateway.Blocking
import PiAgents.Gateway.Applying
import PiAgents.Gateway.Status
import PiAgents.Gateway.Rendering
import PiAgents.Capture.Rejections
import PiAgents.Capture.DnsNames
import PiAgents.Capture.PcapFile
import PiAgents.Incidents.HealthRedelivery
import PiAgents.Spooling.Ahead
import PiAgents.Spooling.Appending
import PiAgents.Spooling.Crashes
import PiAgents.Spooling.Custody
import PiAgents.Spooling.TornAppends
import PiAgents.Spooling.Positions
import PiAgents.Spooling.Forwarder
import PiAgents.Spooling.Pumping
import PiAgents.Spooling.Forwarding
import PiAgents.Spooling.ForwardRuns
import PiAgents.Spooling.Losses
import PiAgents.Spooling.LossReports
import PiAgents.Detection.Timers
import PiAgents.Detection.Expiring
import PiAgents.Detection.Closing
import PiAgents.Detection.Draining
import PiAgents.Detection.Watch
import PiAgents.Detection.Silence
