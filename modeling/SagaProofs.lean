import SagaProofs.Lib.Run
import SagaProofs.Lib.Number
import SagaProofs.Lib.Text
import SagaProofs.Lib.Baggage
import SagaProofs.Lib.Json
import SagaProofs.Lib.Forest
import SagaProofs.Lib.Chain
import SagaProofs.Lib.Keyed
import SagaProofs.Lib.Search
import SagaProofs.Lib.Saturate
import SagaProofs.Lib.Paging
import SagaProofs.Lib.Tasks
import SagaProofs.Lib.Window
import SagaProofs.Core.Event
import SagaProofs.Core.Message
import SagaProofs.Core.RoundTrip
import SagaProofs.Core.Routing
import SagaProofs.Core.ForeignBaggage
import SagaProofs.Core.Decoding
import SagaProofs.Core.Otel
import SagaProofs.Core.WellFormed
import SagaProofs.Core.Publisher
import SagaProofs.Core.World
import SagaProofs.Core.Lineage
import SagaProofs.Core.Affinity
import SagaProofs.Core.Causation
import SagaProofs.Core.Agreement
import SagaProofs.Core.Unwind
import SagaProofs.Core.Bubbling
import SagaProofs.Core.Registry
import SagaProofs.Core.RouteMap
import SagaProofs.Core.Prefix
import SagaProofs.Core.Retry
import SagaProofs.Core.ErrorFlow
import SagaProofs.Core.Runner
import SagaProofs.Core.Hints
import SagaProofs.Core.EmitPaths
import SagaProofs.Kafka.Watermark
import SagaProofs.Kafka.Batch
import SagaProofs.Kafka.Groups
import SagaProofs.Kafka.Invariant
import SagaProofs.Kafka.Offsets
import SagaProofs.Kafka.Settle
import SagaProofs.Kafka.Heartbeat
import SagaProofs.Kafka.Delivery
import SagaProofs.Kafka.AutoResolve
import SagaProofs.Kafka.Position
import SagaProofs.Kafka.Partition
import SagaProofs.Kafka.Service
import SagaProofs.Kafka.Shutdown
import SagaProofs.Kafka.Connect
import SagaProofs.Monitor.Projector
import SagaProofs.Monitor.Derive
import SagaProofs.Monitor.Status
import SagaProofs.Monitor.Batches
import SagaProofs.Monitor.Redelivery
import SagaProofs.Monitor.Counts
import SagaProofs.Monitor.Consume
import SagaProofs.Monitor.Decoders
import SagaProofs.Monitor.Fold
import SagaProofs.Monitor.Descendants
import SagaProofs.Monitor.Projection
import SagaProofs.Monitor.Subtree
import SagaProofs.Monitor.Pages
import SagaProofs.Monitor.Hub
import SagaProofs.Monitor.SseStore
import SagaProofs.Monitor.Live
import SagaProofs.Monitor.LiveTable
import SagaProofs.Nest.MessageHandlers
import SagaProofs.Nest.Discovery
import SagaProofs.Billing.Flow
import SagaProofs.Billing.Account
import SagaProofs.Billing.Refine
import SagaProofs.Billing.Runs
import SagaProofs.Telecom.Activation
import SagaProofs.Telecom.Lines
import SagaProofs.Telecom.FanIn
