import Zabbix.Library.Transition
import Zabbix.Library.KeyedTable
import Zabbix.Algo.BinaryHeap
import Zabbix.Common.History
import Zabbix.HistoryCache.Records
import Zabbix.HistoryCache.Queue
import Zabbix.HistoryCache.System
import Zabbix.HistoryCache.Invariant
import Zabbix.HistoryCache.Operations
import Zabbix.HistoryCache.Consistency
import Zabbix.HistoryCache.Fifo
import Zabbix.HistoryCache.Counter
import Zabbix.Library.LinkedList
import Zabbix.Memory.Alloc
import Zabbix.Memory.Layout
import Zabbix.Memory.Buckets
import Zabbix.Memory.Representation
import Zabbix.Memory.Placement
import Zabbix.Memory.Search
import Zabbix.Memory.Operations
import Zabbix.Memory.System
import Zabbix.Library.Accounts
import Zabbix.Trends.Tables
import Zabbix.Trends.Rounds
import Zabbix.Trends.Order
import Zabbix.Trends.Cache
import Zabbix.Trends.Hints
import Zabbix.Trends.Items
import Zabbix.Trends.Accounting
import Zabbix.Algo.DirectHeap
import Zabbix.ConfigCache.TriggerLocks
import Zabbix.Library.Exclusion
import Zabbix.ConfigCache.TriggerExclusion
import Zabbix.Algo.HeapFamily
import Zabbix.ConfigCache.PollerItems
import Zabbix.ConfigCache.PollerQueues
import Zabbix.ConfigCache.PollerExclusion
import Zabbix.ConfigCache.PollerRuns
import Zabbix.Library.ByteReader
import Zabbix.Common.Serialize
import Zabbix.Preprocessing.Messages
import Zabbix.Preprocessing.Packing
import Zabbix.Preprocessing.RoundTrip
import Zabbix.Preprocessing.Delivery
import Zabbix.Library.Framing
import Zabbix.Ipc.Socket
import Zabbix.Ipc.Assembly
import Zabbix.Ipc.Client
import Zabbix.Ipc.Sending
import Zabbix.Ipc.Service
import Zabbix.Ipc.Transport
import Zabbix.Common.Text
import Zabbix.ItemKey.ParseKey
import Zabbix.ItemKey.Params
import Zabbix.ItemKey.Replace
import Zabbix.ItemKey.Grammar
import Zabbix.ItemKey.Reading
import Zabbix.ItemKey.Recognition
import Zabbix.ItemKey.Tail
import Zabbix.ItemKey.Calls
import Zabbix.ItemKey.Agreement
import Zabbix.ResultCache.Records
import Zabbix.ResultCache.MemoryRuns
import Zabbix.ResultCache.DiskRuns
import Zabbix.ItemKey.ItemUtil
import Zabbix.ItemKey.Values
import Zabbix.ItemKey.Splitting
import Zabbix.ItemKey.Agents
import Zabbix.Library.Wildcard
import Zabbix.KeyAccess.WildcardMatch
import Zabbix.KeyAccess.Rules
import Zabbix.KeyAccess.RuleMeaning
import Zabbix.KeyAccess.Decisions
import Zabbix.KeyAccess.Enforcement
import Zabbix.KeyAccess.Agent2Wildcard
import Zabbix.KeyAccess.Agent2Rules
import Zabbix.KeyAccess.SameReading
import Zabbix.KeyAccess.BothAgents
import Zabbix.ConfigCache.HostAvailability
import Zabbix.ConfigCache.AvailabilityReports
import Zabbix.Library.OrderedLog
import Zabbix.ProxyHistory.Records
import Zabbix.ProxyHistory.Coverage
import Zabbix.ProxyHistory.Receiving
import Zabbix.ProxyHistory.Upload
import Zabbix.ProxyHistory.ExactlyOnce
import Zabbix.Library.Block
import Zabbix.Comms.Packets
import Zabbix.Comms.Reassembly
import Zabbix.Comms.Delivery
import Zabbix.Library.SlotTable
import Zabbix.Algo.Numeric
import Zabbix.Algo.Hashset
import Zabbix.Algo.HashsetRuns
import Zabbix.Library.HeapOrder
import Zabbix.Algo.HeapOrder
import Zabbix.Algo.Hashmap
import Zabbix.Algo.KeyedHeap
import Zabbix.Algo.HeapRuns
import Zabbix.Memory.Frames
import Zabbix.Memory.Reallocation
import Zabbix.Lld.Manager
import Zabbix.Lld.Discovery
import Zabbix.Expression.Numbers
import Zabbix.Library.OperatorChain
import Zabbix.Expression.Evaluate
import Zabbix.Expression.Grammar
import Zabbix.Expression.Tokens
import Zabbix.Expression.Reading
import Zabbix.Expression.Correctness
import Zabbix.Expression.Unknown
import Zabbix.Common.NaturalOrder
import Zabbix.Common.MacroContext
import Zabbix.Common.FunctionParams
import Zabbix.Common.Utf8
import Zabbix.Json.Validate
import Zabbix.Json.Validation
import Zabbix.Json.Exactness
import Zabbix.Common.Integers
import Zabbix.Intervals.Parsing
import Zabbix.Intervals.Agreement
import Zabbix.Intervals.NextCheck
import Zabbix.Intervals.Search
import Zabbix.Library.Odometer
import Zabbix.Network.IpRange
import Zabbix.Network.ParsedRange
import Zabbix.Network.Enumeration
import Zabbix.Maintenance.TagMatching
import Zabbix.Maintenance.UpdateFlags
import Zabbix.Library.Binary64
import Zabbix.Common.Variant
import Zabbix.Preprocessing.Throttle
import Zabbix.Maintenance.Periods
import Zabbix.Maintenance.Schedule
import Zabbix.ConfigCache.QueueOrder
import Zabbix.ConfigCache.QueueRuns
import Zabbix.Tokens.Find
import Zabbix.Tokens.Expression
import Zabbix.Tokens.Containment
import Zabbix.Common.WrittenParams
import Zabbix.Tokens.Calcitem
import Zabbix.Tokens.PlainText
import Zabbix.Tokens.Intact
import Zabbix.KeyAccess.WildcardExact
import Zabbix.ItemKey.MakeKey
import Zabbix.Library.Matching
import Zabbix.Logfiles.Old2new
import Zabbix.Library.BitPrefix
import Zabbix.Network.PeerAddress
import Zabbix.Network.AddressText
import Zabbix.Network.AllowedPeers
import Zabbix.ConfigCache.TriggerDependencies
import Zabbix.ConfigCache.Topology
import Zabbix.ConfigCache.DependencyCheck
import Zabbix.Comms.Lines
import Zabbix.Comms.Connection
import Zabbix.ProxyHistory.SimpleTables
import Zabbix.ProxyHistory.ChangingTable
import Zabbix.ProxyHistory.MoreData
import Zabbix.Library.Propagation
import Zabbix.Services.ItServices
import Zabbix.Services.Loading
import Zabbix.Services.Recalculation
import Zabbix.Services.Consistency
import Zabbix.Library.SqlText
import Zabbix.Library.Sql
import Zabbix.Library.SqlGrammar
import Zabbix.EventCorrelation.Formula
import Zabbix.EventCorrelation.NewEvent
import Zabbix.EventCorrelation.Verdicts
import Zabbix.EventCorrelation.StringConditions
import Zabbix.EventCorrelation.Filter
import Zabbix.EventCorrelation.Selection
import Zabbix.EventCorrelation.GlobalRules
import Zabbix.EventCorrelation.ClosedProblems
import Zabbix.EventCorrelation.ExactClosing
import Zabbix.Library.Cells
import Zabbix.Algo.Queue
import Zabbix.Algo.Int128
import Zabbix.HistoryCache.ProxyQueue
import Zabbix.ItemKey.KeyAliases
import Zabbix.Watch.Manager
import Zabbix.Watch.Mirroring
import Zabbix.Library.Sweep
import Zabbix.Watch.Runs
import Zabbix.Algo.HashsetIterator
import Zabbix.Algo.HashsetAllocation
import Zabbix.Common.Utf8Lengths
import Zabbix.ItemKey.Truncation
import Zabbix.Algo.Setdiff
import Zabbix.Crypto.Base64
import Zabbix.Lld.Filters
import Zabbix.Expression.Origin
import Zabbix.Memory.Isolation
import Zabbix.ConfigCache.TimerQueue
import Zabbix.ItemKey.KeyMacros
