import WireSurge.Cli.Config
import WireSurge.Cli.Load
import WireSurge.Cli.Run
import WireSurge.Cli.RunFile
import WireSurge.Cli.Target
import WireSurge.Cli.Verdict
import WireSurge.Core.Error
import WireSurge.Core.Escape
import WireSurge.Core.Json
import WireSurge.Core.Masking
import WireSurge.Core.Normal
import WireSurge.Core.Numeric
import WireSurge.Core.Pointer
import WireSurge.Core.Redact
import WireSurge.Core.Request
import WireSurge.Core.RunFile
import WireSurge.Core.Scenario
import WireSurge.Core.Secrets
import WireSurge.Core.Template
import WireSurge.Core.Uuid
import WireSurge.Corpus.Permute
import WireSurge.Corpus.Rows
import WireSurge.Corpus.Select
import WireSurge.Dns.Arrival
import WireSurge.Dns.Asked
import WireSurge.Dns.Connect
import WireSurge.Dns.Correlation
import WireSurge.Dns.Correlator
import WireSurge.Dns.Deadline
import WireSurge.Dns.Doh
import WireSurge.Dns.Drain
import WireSurge.Dns.Due
import WireSurge.Dns.Exchange
import WireSurge.Dns.Flush
import WireSurge.Dns.Framed
import WireSurge.Dns.Grammar
import WireSurge.Dns.Message
import WireSurge.Dns.Payload
import WireSurge.Dns.Pickup
import WireSurge.Dns.Pool
import WireSurge.Dns.Query
import WireSurge.Dns.Question
import WireSurge.Dns.Sections
import WireSurge.Dns.Slots
import WireSurge.Dns.Stream
import WireSurge.Dns.Transport
import WireSurge.Dns.Unstarted
import WireSurge.Dns.Wakeup
import WireSurge.Engine.Actor
import WireSurge.Engine.Asking
import WireSurge.Engine.Assertion
import WireSurge.Engine.Balance
import WireSurge.Engine.Budget
import WireSurge.Engine.Compression
import WireSurge.Engine.Conservation
import WireSurge.Engine.Coverage
import WireSurge.Engine.Duration
import WireSurge.Engine.Ending
import WireSurge.Engine.Feeding
import WireSurge.Engine.Final
import WireSurge.Engine.Latency
import WireSurge.Engine.Load
import WireSurge.Engine.Plan
import WireSurge.Engine.Progress
import WireSurge.Engine.Punctual
import WireSurge.Engine.RateGate
import WireSurge.Engine.Records
import WireSurge.Engine.Refusal
import WireSurge.Engine.Run
import WireSurge.Engine.Window
import WireSurge.Engine.WorkSource
import WireSurge.Http.Client
import WireSurge.Http.Response
import WireSurge.Lib.Base64
import WireSurge.Lib.Channel
import WireSurge.Lib.Checked
import WireSurge.Lib.Chunks
import WireSurge.Lib.Codec
import WireSurge.Lib.CycleWalk
import WireSurge.Lib.Double
import WireSurge.Lib.Form
import WireSurge.Lib.Fs
import WireSurge.Lib.Hex
import WireSurge.Lib.Markup
import WireSurge.Lib.Mask
import WireSurge.Lib.Notify
import WireSurge.Lib.Path
import WireSurge.Lib.Percent
import WireSurge.Lib.Pool
import WireSurge.Lib.Prog
import WireSurge.Lib.Quote
import WireSurge.Lib.Replace
import WireSurge.Lib.Rfc1035
import WireSurge.Lib.Run
import WireSurge.Lib.Scanner
import WireSurge.Lib.Script
import WireSurge.Lib.Str
import WireSurge.Lib.Tickets
import WireSurge.Lib.Tree
import WireSurge.Lib.Utf8
import WireSurge.Metrics.Hist
import WireSurge.Metrics.Merge
import WireSurge.Metrics.Rcodes
import WireSurge.Metrics.Runner
import WireSurge.Metrics.Snapshot
import WireSurge.Net.Connect
import WireSurge.Net.Proxy
import WireSurge.Net.Target
import WireSurge.Storage.Concurrent
import WireSurge.Storage.Crash
import WireSurge.Storage.Init
import WireSurge.Storage.Refine
import WireSurge.Storage.Report
import WireSurge.Storage.Rules
import WireSurge.Storage.Runners
import WireSurge.Storage.Shelves
import WireSurge.Storage.Store
import WireSurge.Storage.Workspace
import WireSurge.Storage.Yaml
