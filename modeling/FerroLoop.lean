import FerroLoop.Wire.Delivery.Closing
import FerroLoop.Session.ExactlyOnce
import FerroLoop.Store.OutboundOrder
import FerroLoop.Queue.Isolation
import FerroLoop.Store.ReadersPoison
import FerroLoop.Workflow.Agreement
import FerroLoop.Wire.Dispatch.Order
import FerroLoop.Wire.Inbox.Convergence
import FerroLoop.Wire.Peer.CatchUp
import FerroLoop.Escalation.OneIssue
import FerroLoop.Failover.Journal
import FerroLoop.Governor.OneDispatch
import FerroLoop.Authority.Revocation
import FerroLoop.Store.CrashRun
import FerroLoop.Store.Reserved
import FerroLoop.Store.Serializable
import FerroLoop.FerroState.Exchange
import FerroLoop.Ledger.Citations
import FerroLoop.FerroState.Edits
import FerroLoop.FerroState.Finality
import FerroLoop.FerroState.Unsettled
import FerroLoop.Governor.Scopes
import FerroLoop.PrPolicy.SelfReview
import FerroLoop.Warrant.Interleavings
import FerroLoop.Proxy.NeverBack
import FerroLoop.Store.Extents
import FerroLoop.Store.TailReplay
import FerroLoop.Wire.Handshake
import FerroLoop.Host.Survivors
import FerroLoop.FerroState.MergeBase
import FerroLoop.Slice.Bounds
import FerroLoop.Wire.Delivery.Encoding
import FerroLoop.Install.Journal
import FerroLoop.Ledger.Escape
import FerroLoop.Vault.Calendar
import FerroLoop.Store.Integrity
import FerroLoop.Workflow.Ceiling
