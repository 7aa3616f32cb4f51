import Flashclaw.Agents.BlockPieces
import Flashclaw.Agents.BlockText
import Flashclaw.AutoReply.MarkdownPieces
import Flashclaw.AutoReply.MarkdownText
import Flashclaw.Board.Agreement
import Flashclaw.Board.Authority
import Flashclaw.Board.Contents
import Flashclaw.Board.Declared
import Flashclaw.Board.Grants
import Flashclaw.Board.Layout
import Flashclaw.Board.Memory
import Flashclaw.Board.Normal
import Flashclaw.Board.Ops
import Flashclaw.Board.Puts
import Flashclaw.Board.Rows
import Flashclaw.Board.Runs
import Flashclaw.Board.Settled
import Flashclaw.Board.Sqlite
import Flashclaw.Board.SqliteOps
import Flashclaw.Board.SqlitePuts
import Flashclaw.Board.SqliteStore
import Flashclaw.Board.Store
import Flashclaw.CommandQueue.Accounting
import Flashclaw.CommandQueue.Concurrency
import Flashclaw.CommandQueue.Conservation
import Flashclaw.CommandQueue.ExactlyOnce
import Flashclaw.CommandQueue.Machine
import Flashclaw.CommandQueue.Order
import Flashclaw.CommandQueue.State
import Flashclaw.CommandQueue.Waiters
import Flashclaw.Compaction.Cut
import Flashclaw.Compaction.Iterated
import Flashclaw.Compaction.Messages
import Flashclaw.Compaction.Partition
import Flashclaw.Compaction.Prepare
import Flashclaw.Compaction.Session
import Flashclaw.Compaction.Summary
import Flashclaw.Cron.Jobs
import Flashclaw.Cron.Maintenance
import Flashclaw.Cron.Staggered
import Flashclaw.Exec.AllowAlways
import Flashclaw.Exec.Allowlist
import Flashclaw.Exec.Carriers
import Flashclaw.Exec.Dispatch
import Flashclaw.Exec.SafeBinArgv
import Flashclaw.Exec.SafeBinGetopt
import Flashclaw.Exec.SafeBinProfile
import Flashclaw.Exec.TrustPlan
import Flashclaw.Exec.TrustPlanSound
import Flashclaw.Exec.Unwrapped
import Flashclaw.Exec.Wildcards
import Flashclaw.Exec.WindowsEnforced
import Flashclaw.Exec.WindowsShell
import Flashclaw.Exec.WindowsStripped
import Flashclaw.Exec.WindowsTokens
import Flashclaw.Followup.Lifecycle
import Flashclaw.Followup.Protocol
import Flashclaw.Followup.Refinement
import Flashclaw.Followup.Settles
import Flashclaw.GatewayAdmission.Fences
import Flashclaw.GatewayAdmission.Roots
import Flashclaw.GatewayAdmission.State
import Flashclaw.Lib.Backtracking
import Flashclaw.Lib.Chunks
import Flashclaw.Lib.Decimal
import Flashclaw.Lib.Double
import Flashclaw.Lib.JsMap
import Flashclaw.Lib.JsNumber
import Flashclaw.Lib.JsString
import Flashclaw.Lib.Json
import Flashclaw.Lib.JsonPrefix
import Flashclaw.Lib.Lists
import Flashclaw.Lib.Nesting
import Flashclaw.Lib.Peeling
import Flashclaw.Lib.Provenance
import Flashclaw.Lib.Ranges
import Flashclaw.Lib.RegExp
import Flashclaw.Lib.Results
import Flashclaw.Lib.SqlTable
import Flashclaw.Lib.Trace
import Flashclaw.Lib.Transition
import Flashclaw.Lib.Utf16
import Flashclaw.Lib.Utf16Text
import Flashclaw.Lib.Utf8
import Flashclaw.Lib.Utf8Lossy
import Flashclaw.LiveEvents.Application
import Flashclaw.LiveEvents.Claims
import Flashclaw.LiveEvents.Contract
import Flashclaw.LiveEvents.Fences
import Flashclaw.LiveEvents.Order
import Flashclaw.LiveEvents.Receiver
import Flashclaw.LiveEvents.Settles
import Flashclaw.MarkdownCore.ChunkText
import Flashclaw.MarkdownCore.FenceText
import Flashclaw.MarkdownCore.Fences
import Flashclaw.MarkdownCore.Ir
import Flashclaw.MarkdownCore.Markers
import Flashclaw.MarkdownCore.MarkersMerged
import Flashclaw.MarkdownCore.MarkersNested
import Flashclaw.MarkdownCore.RenderAware
import Flashclaw.MarkdownCore.RenderCoalesce
import Flashclaw.MarkdownCore.RenderLimit
import Flashclaw.MarkdownCore.Spans
import Flashclaw.MarkdownCore.TextRanges
import Flashclaw.Net.Cidr
import Flashclaw.Net.Ip
import Flashclaw.Net.Pinned
import Flashclaw.Net.Resolution
import Flashclaw.Net.Ssrf
import Flashclaw.OcPath.Format
import Flashclaw.OcPath.FrontmatterValues
import Flashclaw.OcPath.Jsonc
import Flashclaw.OcPath.Jsonl
import Flashclaw.OcPath.JsonlAgreement
import Flashclaw.OcPath.JsonlEdits
import Flashclaw.OcPath.JsonlRender
import Flashclaw.OcPath.JsonlText
import Flashclaw.OcPath.Markdown
import Flashclaw.OcPath.MarkdownEdit
import Flashclaw.OcPath.MarkdownReread
import Flashclaw.OcPath.MarkdownSurvival
import Flashclaw.OcPath.Segments
import Flashclaw.PluginState.Calls
import Flashclaw.PluginState.Contract
import Flashclaw.PluginState.Limits
import Flashclaw.PluginState.Sequences
import Flashclaw.PluginState.Store
import Flashclaw.Reef.Audit
import Flashclaw.Reef.Base64url
import Flashclaw.Reef.Canonical
import Flashclaw.Reef.Chain
import Flashclaw.Reef.Denials
import Flashclaw.Reef.Encoding
import Flashclaw.Reef.Envelope
import Flashclaw.Reef.Fencing
import Flashclaw.Reef.FileReplay
import Flashclaw.Reef.Guard
import Flashclaw.Reef.Guarded
import Flashclaw.Reef.Identity
import Flashclaw.Reef.Jsonl
import Flashclaw.Reef.JsonlAudit
import Flashclaw.Reef.LogStore
import Flashclaw.Reef.PairingApproval
import Flashclaw.Reef.Pipeline
import Flashclaw.Reef.Protocol
import Flashclaw.Reef.Receipts
import Flashclaw.Reef.Replay
import Flashclaw.Reef.ReplayRows
import Flashclaw.Reef.Restore
import Flashclaw.Reef.Revocation
import Flashclaw.Reef.Sealed
import Flashclaw.Reef.SqliteReplay
import Flashclaw.Reef.TornAppends
import Flashclaw.Reef.Ulid
import Flashclaw.Routing.Bindings
import Flashclaw.Routing.MissingIds
import Flashclaw.Routing.Routes
import Flashclaw.Routing.SessionKey
import Flashclaw.Routing.Tiers
import Flashclaw.StateLease.Exclusion
import Flashclaw.StateLease.Machine
import Flashclaw.StateLease.Steps
import Flashclaw.StateLease.Table
import Flashclaw.StoreWriter.Invariant
import Flashclaw.StoreWriter.Machine
import Flashclaw.StoreWriter.Progress
import Flashclaw.StoreWriter.Served
import Flashclaw.StoreWriter.Steps
import Flashclaw.Tasks.Cancel
import Flashclaw.Tasks.Canonical
import Flashclaw.Tasks.Late
import Flashclaw.Tasks.Record
import Flashclaw.Tasks.Registry
import Flashclaw.Tasks.Updates
import Flashclaw.ToolCallRepair.ClosingCuts
import Flashclaw.ToolCallRepair.Cuts
import Flashclaw.ToolCallRepair.Grammar
import Flashclaw.ToolCallRepair.Markers
import Flashclaw.ToolCallRepair.OverCap
import Flashclaw.ToolCallRepair.OverCapCuts
import Flashclaw.ToolCallRepair.Scans
import Flashclaw.ToolCallRepair.Suppressor
import Flashclaw.Transcript.Settled
import Flashclaw.Transcript.Sound
import Flashclaw.Truncation.Bytes
import Flashclaw.Truncation.Exact
import Flashclaw.Truncation.Lines
import Flashclaw.Truncation.Truncate
