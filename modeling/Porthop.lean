import Porthop.Lib.Run
import Porthop.Lib.Json
import Porthop.Lib.Base64
import Porthop.Lib.Buffer
import Porthop.Lib.Parser
import Porthop.Lib.MessagePack
import Porthop.Git.Uuid
import Porthop.Git.Journal
import Porthop.Git.Agent
import Porthop.Git.Turn
import Porthop.Git.Invariant
import Porthop.Git.Once
import Porthop.Git.Life
import Porthop.Git.Outcome
import Porthop.Git.Capacity
import Porthop.Git.Pending
import Porthop.Git.Desktop
import Porthop.Git.Answer
import Porthop.Git.Honest
import Porthop.Git.Rejected
import Porthop.Git.Message
import Porthop.Git.Codec
import Porthop.Git.Envelope
import Porthop.Git.Document
import Porthop.Git.Frames
import Porthop.Git.Stream
import Porthop.Git.Window
import Porthop.Git.Transfer
import Porthop.Git.Strict
import Porthop.Git.Tokens
import Porthop.Git.Issued
import Porthop.Lib.Table
import Porthop.Metrics.Rollup
import Porthop.Metrics.Sound
import Porthop.Metrics.Compacted
import Porthop.Metrics.History
import Porthop.Metrics.Chart
import Porthop.Lib.Pieces
import Porthop.Clipboard.Demand
import Porthop.Clipboard.Sending
import Porthop.Clipboard.Storing
import Porthop.Clipboard.Exact
import Porthop.Lib.Source
import Porthop.Agent.Messages
import Porthop.Agent.Accepted
import Porthop.Agent.Framed
import Porthop.X11.Protocol
import Porthop.X11.Served
import Porthop.X11.Requests
import Porthop.X11.Limits
import Porthop.X11.Framing
import Porthop.X11.Answers
import Porthop.X11.Framed
import Porthop.Lib.Lossy
import Porthop.Git.Cli
import Porthop.Git.Responses
import Porthop.Git.Objects
import Porthop.Git.Decoded
import Porthop.Git.Blob
import Porthop.Git.Loaded
import Porthop.Lib.Glob
import Porthop.Lib.Splits
import Porthop.Profile.Model
import Porthop.Ssh.KnownHosts
import Porthop.Ssh.HostKey
import Porthop.Git.Status
import Porthop.Git.Grouped
import Porthop.Git.Diff
import Porthop.Git.Patched
import Porthop.Git.Matched
import Porthop.Profile.Tunnels
import Porthop.Profile.Manager
import Porthop.Profile.Current
import Porthop.Profile.Commands
import Porthop.Profile.Disjoint
import Porthop.Profile.Connectivity
import Porthop.Profile.Evidence
import Porthop.Profile.Deliveries
import Porthop.Profile.Changes
import Porthop.Lib.Crash
import Porthop.Vault.Record
import Porthop.Vault.Startup
import Porthop.Vault.Loading
import Porthop.Vault.Saving
import Porthop.Vault.Opening
import Porthop.Vault.Preserved
import Porthop.Lib.Log
import Porthop.Git.Reads
import Porthop.Lib.Distinct
import Porthop.Git.UniquePages
import Porthop.Git.PageLoader
import Porthop.Git.PageLoads
import Porthop.Git.PageAppends
import Porthop.Git.PageGoverned
import Porthop.Lib.Glyphs
import Porthop.Lib.Inclusive
import Porthop.Git.CommandLog
import Porthop.Git.Redacted
import Porthop.Git.Leaks
import Porthop.Git.Logged
import Porthop.Session.Model
import Porthop.Session.Order
import Porthop.Session.Logged
import Porthop.Session.Steps
import Porthop.Session.Runs
import Porthop.Account.Model
import Porthop.Account.Owned
import Porthop.Account.Steps
import Porthop.Account.Served
import Porthop.Sharing.Model
import Porthop.Sharing.Settled
import Porthop.Sharing.Answered
import Porthop.Lib.Lists
import Porthop.Lib.Lines
import Porthop.Lib.Memo
import Porthop.Git.DiffRenderer
import Porthop.Git.DiffModel
import Porthop.Git.DiffText
import Porthop.Git.DiffLayout
import Porthop.Git.DiffRows
import Porthop.Files.Operations
import Porthop.Files.Governed
import Porthop.Files.Cancelled
import Porthop.Query.Git
import Porthop.Files.Registered
import Porthop.Files.Upload
import Porthop.Files.Uploaded
import Porthop.Files.Transferred
import Porthop.Files.Download
import Porthop.Sampling.Sampler
import Porthop.Sampling.Edited
import Porthop.Sampling.Kept
import Porthop.Sampling.Steps
import Porthop.Sampling.Connected
import Porthop.Sampling.Apart
import Porthop.Terminal.Session
import Porthop.Terminal.Steps
import Porthop.Terminal.Typed
import Porthop.Terminal.Whole
import Porthop.Terminal.Shown
import Porthop.Terminal.Going
import Porthop.Terminal.Drained
import Porthop.Terminal.Returned
import Porthop.Wayland.Offers
import Porthop.X11.Interned
import Porthop.X11.Readable
import Porthop.Profile.Forwarded
import Porthop.Lib.Dialogue
import Porthop.Ssh.Auth
import Porthop.Ssh.Offered
import Porthop.Lib.Scan
import Porthop.Git.LogTerminal
import Porthop.Lib.TextDecoder
import Porthop.Git.BlobText
import Porthop.Agent.ShellSetup
import Porthop.Agent.ShellMerged
import Porthop.Agent.ShellPatched
import Porthop.Lib.Dict
import Porthop.Lib.Latest
import Porthop.Metrics.Display
import Porthop.Metrics.Restored
import Porthop.Lib.Pattern
import Porthop.Lib.Ordered
import Porthop.Ports.Model
import Porthop.Ports.Listing
import Porthop.Ports.Rows
import Porthop.Ports.Printed
import Porthop.Ports.Output
import Porthop.Ports.Attributed
import Porthop.Lib.Paging
import Porthop.Git.Pages
import Porthop.Git.Queries
import Porthop.Git.History
import Porthop.Git.HistoryPages
import Porthop.Git.Paged
import Porthop.Lib.Unified
import Porthop.Git.Selection
import Porthop.Git.SelectionApplied
import Porthop.Git.EntryIds
import Porthop.Git.Pathspecs
