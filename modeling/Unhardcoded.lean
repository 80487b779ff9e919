import Unhardcoded.Python.Base64
import Unhardcoded.Python.Body
import Unhardcoded.Python.Checks
import Unhardcoded.Python.Dict
import Unhardcoded.Python.Json
import Unhardcoded.Python.JsonCompact
import Unhardcoded.Python.JsonRoundTrip
import Unhardcoded.Python.JsonSize
import Unhardcoded.Python.JsonText
import Unhardcoded.Python.Lines
import Unhardcoded.Python.Lists
import Unhardcoded.Python.Ndjson
import Unhardcoded.Python.Number
import Unhardcoded.Python.Utf8
import Unhardcoded.Python.Value
import Unhardcoded.Effects.BoxSum
import Unhardcoded.Effects.Framing
import Unhardcoded.Effects.GroupBy
import Unhardcoded.Effects.History
import Unhardcoded.Effects.Kahn
import Unhardcoded.Effects.KeyedCache
import Unhardcoded.Effects.Latest
import Unhardcoded.Effects.Linkage
import Unhardcoded.Effects.Machine
import Unhardcoded.Effects.Ownership
import Unhardcoded.Effects.Paging
import Unhardcoded.Effects.Prefer
import Unhardcoded.Effects.Program
import Unhardcoded.Effects.Semaphore
import Unhardcoded.Effects.Window
import Unhardcoded.Source.Adapters.Anthropic
import Unhardcoded.Source.Adapters.Bedrock
import Unhardcoded.Source.Adapters.Codex
import Unhardcoded.Source.Adapters.Common
import Unhardcoded.Source.Adapters.Google
import Unhardcoded.Source.Adapters.OpenaiCompatible
import Unhardcoded.Source.Analytics
import Unhardcoded.Source.AutoPolicies
import Unhardcoded.Source.BoundedLines
import Unhardcoded.Source.CallLedger
import Unhardcoded.Source.ChannelIds
import Unhardcoded.Source.ChatInput
import Unhardcoded.Source.CodexAccounts
import Unhardcoded.Source.CodexBackend
import Unhardcoded.Source.CodexBroker
import Unhardcoded.Source.CodexInvites
import Unhardcoded.Source.CodexScarcity
import Unhardcoded.Source.CodexTokens
import Unhardcoded.Source.CompactEndpoint
import Unhardcoded.Source.Compaction
import Unhardcoded.Source.ConsumerKeys
import Unhardcoded.Source.CuratedIndex
import Unhardcoded.Source.DashboardSession
import Unhardcoded.Source.DecisionAnswers
import Unhardcoded.Source.DecisionProtocol
import Unhardcoded.Source.EnvSecrets
import Unhardcoded.Source.FlowCost
import Unhardcoded.Source.FlowData
import Unhardcoded.Source.FlowRouting
import Unhardcoded.Source.FlowRunner
import Unhardcoded.Source.IngressGate
import Unhardcoded.Source.KeyCache
import Unhardcoded.Source.KeyFlight
import Unhardcoded.Source.LuaMarshal
import Unhardcoded.Source.MarketBook
import Unhardcoded.Source.MessageTranslation
import Unhardcoded.Source.OfferSelection
import Unhardcoded.Source.OfficialPricing
import Unhardcoded.Source.OpenrouterCatalog
import Unhardcoded.Source.PeerGates
import Unhardcoded.Source.PeerHealth
import Unhardcoded.Source.PeerLeases
import Unhardcoded.Source.PolicySelection
import Unhardcoded.Source.PolicyTemplates
import Unhardcoded.Source.ProviderAuth
import Unhardcoded.Source.ProviderOverlay
import Unhardcoded.Source.ProxyStream
import Unhardcoded.Source.RateBucket
import Unhardcoded.Source.ResponsesApi
import Unhardcoded.Source.RouteContract
import Unhardcoded.Source.RouterDriver
import Unhardcoded.Source.RuntimeCounters
import Unhardcoded.Source.SerialQueue
import Unhardcoded.Source.SessionMeter
import Unhardcoded.Source.Settings
import Unhardcoded.Source.SnapshotCache
import Unhardcoded.Source.SseGen
import Unhardcoded.Source.SseLines
import Unhardcoded.Source.StreamTail
import Unhardcoded.Source.SubjectBudget
import Unhardcoded.Source.TenantHost
import Unhardcoded.Source.TenantIngress
import Unhardcoded.Source.UsageAggregate
import Unhardcoded.Source.UsageExport
import Unhardcoded.Source.WalletControl
import Unhardcoded.Source.WalletEffects
import Unhardcoded.Source.WalletKeeper
import Unhardcoded.Source.WalletLedger
import Unhardcoded.Guarantees.Analytics
import Unhardcoded.Guarantees.AnalyticsCoverage
import Unhardcoded.Guarantees.BoundedLines
import Unhardcoded.Guarantees.CallLedger
import Unhardcoded.Guarantees.ChannelIds
import Unhardcoded.Guarantees.ChatInput
import Unhardcoded.Guarantees.CodexAccounts
import Unhardcoded.Guarantees.CodexBroker
import Unhardcoded.Guarantees.CodexCommit
import Unhardcoded.Guarantees.CodexInvites
import Unhardcoded.Guarantees.CodexScarcity
import Unhardcoded.Guarantees.CodexStream
import Unhardcoded.Guarantees.CodexTokens
import Unhardcoded.Guarantees.CommitPoint
import Unhardcoded.Guarantees.CompactEndpoint
import Unhardcoded.Guarantees.Compaction
import Unhardcoded.Guarantees.CompactionFlow
import Unhardcoded.Guarantees.CompactionUnits
import Unhardcoded.Guarantees.ConsumerKeys
import Unhardcoded.Guarantees.CuratedIndex
import Unhardcoded.Guarantees.DashboardSession
import Unhardcoded.Guarantees.DecisionAnswers
import Unhardcoded.Guarantees.DecisionRounding
import Unhardcoded.Guarantees.EnvSecrets
import Unhardcoded.Guarantees.FlowCost
import Unhardcoded.Guarantees.FlowRunner
import Unhardcoded.Guarantees.IngressGate
import Unhardcoded.Guarantees.KeyCache
import Unhardcoded.Guarantees.KeyFlight
import Unhardcoded.Guarantees.LuaMarshal
import Unhardcoded.Guarantees.MarketBook
import Unhardcoded.Guarantees.NodeRouting
import Unhardcoded.Guarantees.OfferSelection
import Unhardcoded.Guarantees.OfficialPricing
import Unhardcoded.Guarantees.OpenrouterCatalog
import Unhardcoded.Guarantees.Passthrough
import Unhardcoded.Guarantees.PeerGates
import Unhardcoded.Guarantees.PeerHealth
import Unhardcoded.Guarantees.PeerLeases
import Unhardcoded.Guarantees.PolicySelection
import Unhardcoded.Guarantees.PolicyTemplates
import Unhardcoded.Guarantees.ProviderAuth
import Unhardcoded.Guarantees.ProviderOverlay
import Unhardcoded.Guarantees.ProxyStream
import Unhardcoded.Guarantees.RateBucket
import Unhardcoded.Guarantees.ReclaimSelection
import Unhardcoded.Guarantees.ResponsesApi
import Unhardcoded.Guarantees.RouterDriver
import Unhardcoded.Guarantees.RoutingState
import Unhardcoded.Guarantees.RuntimeCounters
import Unhardcoded.Guarantees.SerialQueue
import Unhardcoded.Guarantees.SessionMeter
import Unhardcoded.Guarantees.Settings
import Unhardcoded.Guarantees.SnapshotCache
import Unhardcoded.Guarantees.SseGen
import Unhardcoded.Guarantees.StreamReader
import Unhardcoded.Guarantees.StreamReaders
import Unhardcoded.Guarantees.StreamTail
import Unhardcoded.Guarantees.StreamedAdapters
import Unhardcoded.Guarantees.StreamedReply
import Unhardcoded.Guarantees.SubjectBudget
import Unhardcoded.Guarantees.TenantHost
import Unhardcoded.Guarantees.TenantIngress
import Unhardcoded.Guarantees.ToolLinkage
import Unhardcoded.Guarantees.UsageAggregate
import Unhardcoded.Guarantees.UsageExport
import Unhardcoded.Guarantees.WalletBreaker
import Unhardcoded.Guarantees.WalletCapHalt
import Unhardcoded.Guarantees.WalletCredit
import Unhardcoded.Guarantees.WalletCycle
import Unhardcoded.Guarantees.WalletDailyCap
import Unhardcoded.Guarantees.WalletDepositOutcome
import Unhardcoded.Guarantees.WalletFootprints
import Unhardcoded.Guarantees.WalletFunding
import Unhardcoded.Guarantees.WalletHaltClear
import Unhardcoded.Guarantees.WalletSpacing
import Unhardcoded.Guarantees.WalletSteps
