import Yar.Loop
import Yar.Proofs.Footprint
import Yar.Proofs.HandlerFootprint
import Yar.Proofs.Handlers
import Yar.Proofs.Table
import Yar.Proofs.Runs
import Yar.Proofs.Slowest
import Yar.Proofs.Io
import Yar.Proofs.Relay
import Yar.Proofs.Pacing
import Yar.Proofs.Process
import Yar.Proofs.Ready
import Yar.Proofs.Gating
import Yar.Proofs.Fds
import Yar.Proofs.Framing
import Yar.Proofs.Files
import Yar.Proofs.Purge
import Yar.Proofs.Teardown
import Yar.Proofs.Inodes
import Yar.Proofs.Lookup
import Yar.Proofs.Exits
import Yar.Proofs.Actions
import Yar.Proofs.Children
import Yar.Proofs.Delivery
import Yar.Proofs.Outputs
import Yar.Proofs.LastOutput
import Yar.Lib.Ring
import Yar.Yarfs
import Yar.Proofs.Lines
import Yar.Proofs.Modes
import Yar.Proofs.Opens
import Yar.Proofs.Descriptors
import Yar.Proofs.Creates
import Yar.Proofs.Removal
import Yar.Lib.Paging
import Yar.Proofs.Listing
import Yar.Proofs.Rendering
import Yar.Proofs.Requests
import Yar.Proofs.Specs
import Yar.Proofs.Readiness
import Yar.Proofs.Additions
import Yar.Proofs.Startup
import Yar.Proofs.Rollback
import Yar.Proofs.LoopReady
import Yar.Proofs.AddCommand
import Yar.Proofs.IdleExit
import Yar.Own
import Yar.Proofs.Cleanup
import Yar.Proofs.Leaving
import Yar.Proofs.Decoding
import Yar.Hexdump
import Yar.Proofs.Discards
import Yar.Proofs.Drain
import Yar.Proofs.Dump
import Yar.Proofs.Signals
import Yar.Proofs.Needed
import Yar.Proofs.Batches
import Yar.Lib.Outcomes
import Yar.Proofs.Directory
import Yar.Proofs.Leftovers
import Yar.Lib.Handles
import Yar.Proofs.Recorded
import Yar.Proofs.Watched
import Yar.Proofs.DumpText
import Yar.Lib.Keyed
import Yar.Proofs.Names
import Yar.Proofs.Failures
import Yar.Proofs.Faults
import Yar.Lib.Paths
import Yar.Proofs.Clients
import Yar.Console
import Yar.Proofs.Console
import Yar.Proofs.Tracking
