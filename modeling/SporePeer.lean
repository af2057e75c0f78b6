import SporePeer.Library.Program
import SporePeer.Library.Outcomes
import SporePeer.Library.Embedding
import SporePeer.Library.Interleaving
import SporePeer.Library.Among
import SporePeer.Library.Table
import SporePeer.Library.Bytes
import SporePeer.Library.Text
import SporePeer.Library.Lines
import SporePeer.Library.Hex
import SporePeer.Library.Grammar
import SporePeer.Library.Sorting
import SporePeer.Library.Ledger
import SporePeer.Library.Hmac
import SporePeer.Library.Gossip
import SporePeer.Wire.Value
import SporePeer.Wire.Codec
import SporePeer.Wire.RoundTrip
import SporePeer.Wire.Payloads
import SporePeer.Wire.Boundaries
import SporePeer.Wire.Drift
import SporePeer.Wire.Size
import SporePeer.Fabric.Envelope
import SporePeer.Node.System
import SporePeer.Wire.Framing
import SporePeer.Node.Names
import SporePeer.Node.Store
import SporePeer.Fabric.Relay
import SporePeer.Fabric.Verbs
import SporePeer.Fabric.Effects
import SporePeer.Fabric.Queueing
import SporePeer.Fabric.Runs
import SporePeer.Fabric.Threads
import SporePeer.Fabric.Opening
import SporePeer.Fabric.Readings
import SporePeer.Fabric.Cutting
import SporePeer.Fabric.Keeping
import SporePeer.Fabric.Deadlines
import SporePeer.Fabric.Faces
import SporePeer.Fabric.Matching
import SporePeer.Fabric.Restart
import SporePeer.Fabric.Crashes
import SporePeer.Fabric.Delivery
import SporePeer.Fabric.Dedupe
import SporePeer.Fabric.Eviction
import SporePeer.Fabric.Format
import SporePeer.Fabric.Tokens
import SporePeer.Fabric.Sweeping
import SporePeer.Fabric.Refusals
import SporePeer.Fabric.Horizon
import SporePeer.Fabric.Durability
import SporePeer.Fabric.Isolation
import SporePeer.Fabric.Budget
import SporePeer.Fabric.Concurrency
import SporePeer.Fabric.Parallel
import SporePeer.Fabric.Authorisation
import SporePeer.Fabric.Derivation
import SporePeer.Fabric.Credentials
import SporePeer.Fabric.Interference
import SporePeer.Node.Fetch
import SporePeer.Node.Spelling
import SporePeer.Node.Server
import SporePeer.Node.Windows
import SporePeer.Node.Limiting
import SporePeer.Node.Unwinding
import SporePeer.Node.Sync
import SporePeer.Node.PushStream
import SporePeer.Node.StoreNaming
import SporePeer.Node.BodySizes
import SporePeer.Node.StoreCrash
import SporePeer.Node.SyncProgress
import SporePeer.Node.SyncSafety
import SporePeer.Node.Serving
import SporePeer.Node.PushProgress
import SporePeer.Node.Listing
import SporePeer.Node.Admission
import SporePeer.Node.Pushes
import SporePeer.Node.Acknowledging
import SporePeer.Node.Quota
import SporePeer.Node.Accepting
import SporePeer.Node.Answers
import SporePeer.Node.Exchange
import SporePeer.Node.Peers
import SporePeer.Node.Calls
import SporePeer.Node.Retention
import SporePeer.Node.Holdings
import SporePeer.Node.Union
import SporePeer.Node.Provenance
import SporePeer.Node.Commands
import SporePeer.Node.Gossip
import SporePeer.Node.Requests
import SporePeer.Node.Fetching
import SporePeer.Node.FabricClient
import SporePeer.Node.Dialogue
import SporePeer.Node.CommandLine
import SporePeer.Node.Pidfile
import SporePeer.Node.Lives
