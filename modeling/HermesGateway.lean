import HermesGateway.Wire.EventStream
import HermesGateway.Broker.Notification
import HermesGateway.Broker.Lifecycle
import HermesGateway.Broker.Once
import HermesGateway.Broker.Shown
import HermesGateway.Broker.Acceptance
import HermesGateway.Broker.Bounds
import HermesGateway.Broker.Settlement
import HermesGateway.Broker.Storage
import HermesGateway.Broker.Rotation
import HermesGateway.Broker.Isolation
import HermesGateway.Broker.Retirement
import HermesGateway.Broker.Refusal
import HermesGateway.Peer.Provenance
import HermesGateway.Peer.Agreement
import HermesGateway.Peer.Accumulation
import HermesGateway.Peer.Sse
import HermesGateway.Hermes.ContextLimiter
import HermesGateway.Client.Cursor
import HermesGateway.Client.Ingest
import HermesGateway.Client.Inbox
import HermesGateway.Client.Inline
import HermesGateway.Client.Merge
import HermesGateway.Client.Adapter
import HermesGateway.Client.Outcome
import HermesGateway.Client.Reconcile
import HermesGateway.Client.Readiness
import HermesGateway.System.Convergence
import HermesGateway.System.Conflict
import HermesGateway.System.Receipts
import HermesGateway.System.Mutation
import HermesGateway.System.Conversation
import HermesGateway.Broker.Tracking
import HermesGateway.System.Dispatch
import HermesGateway.System.Pass
import HermesGateway.System.Refusals
