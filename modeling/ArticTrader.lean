import ArticTrader.UriReference
import ArticTrader.WakeProxy
import ArticTrader.WalletProvisioning
import ArticTrader.WalletProvisioning
import ArticTrader.PythonNumbers
import ArticTrader.PaperExecutor
import ArticTrader.TradingEngine
import ArticTrader.StrategyINFT
import ArticTrader.InftClient
import ArticTrader.StrategyRoutes
import ArticTrader.UsageGrants
import ArticTrader.BacktestEngine
import ArticTrader.BacktestTampering
import ArticTrader.NonceSubmission
import ArticTrader.PythonGrammar
import ArticTrader.SandboxValidator
import ArticTrader.StrategyInterrupts
import ArticTrader.LegacyEscapes
import ArticTrader.ConcurrentCalls
import ArticTrader.SessionNonce
import ArticTrader.LoginNonce
import ArticTrader.DotSegments
import ArticTrader.StartGate
import ArticTrader.EngineSession
import ArticTrader.TradeEvents
import ArticTrader.LiveMirror
import ArticTrader.SessionIsolation
import ArticTrader.EngineLifecycle
import ArticTrader.HubCallback
import ArticTrader.TradePushes
import ArticTrader.TxHashPatching
import ArticTrader.DecisionAttestation
import ArticTrader.BacktestAccounting
import ArticTrader.BacktestJournal
import ArticTrader.BacktestFills
import ArticTrader.BacktestLevels
import ArticTrader.HotReload
import ArticTrader.PriceFreshness
import ArticTrader.HubCandles
import ArticTrader.VmLeaks
import ArticTrader.VmLifecycle
import ArticTrader.VmHub
import ArticTrader.MorphProvider
import ArticTrader.VmFailures
import ArticTrader.AgentService
import ArticTrader.AgentStatus
import ArticTrader.AgentFailures
import ArticTrader.AgentQuota
import ArticTrader.DrainBarrier
import ArticTrader.MarketplaceRoutes
import ArticTrader.StrategySessions
import ArticTrader.StrategyTables
import ArticTrader.InstallCounts
import ArticTrader.ReportCounts
import ArticTrader.CodeHashes
import ArticTrader.OwnedKeys
import ArticTrader.StrategyRegistry
import ArticTrader.SessionsAlone
import ArticTrader.StrategyMoves
import ArticTrader.UsageOwners
import ArticTrader.SealedConfigs
import ArticTrader.BacktestDatasets
import ArticTrader.DatasetHashes
import ArticTrader.StrategyNames
import ArticTrader.LogPushes
import ArticTrader.LogStream
import ArticTrader.IndexerFlush
import ArticTrader.Republishing
import ArticTrader.BacktestMetrics
import ArticTrader.BacktestSolvency
import ArticTrader.LlmRateLimit
import ArticTrader.IndexerSince
import ArticTrader.SecretsPush
import ArticTrader.IsoDates
import ArticTrader.Markers
import ArticTrader.SigninMessages
import ArticTrader.WalletLogins
import ArticTrader.WsProxy
import ArticTrader.SymbolNormalisers
import ArticTrader.MomentumAlgos
import ArticTrader.ReversionAlgos
import ArticTrader.VolumeAlgos
import ArticTrader.StrategySignals
import ArticTrader.SignalValues
import ArticTrader.PriceUnits
import ArticTrader.TrendSigns
import ArticTrader.SignalSafety
import ArticTrader.BatchPrices
import ArticTrader.Drawdowns
import ArticTrader.EquitySamples
import ArticTrader.TradeLogging
import ArticTrader.Forwarder
import ArticTrader.JsonTexts
import ArticTrader.JsonGrammar
import ArticTrader.ExtractJson
import ArticTrader.GasBump
import ArticTrader.Recency
import ArticTrader.SignedFetch
import ArticTrader.SignificantDigits
import ArticTrader.StrategyCache
import ArticTrader.ReplacementPrices
import ArticTrader.WalletForecast
import ArticTrader.AttestedMetrics
import ArticTrader.BacktestScaling
import ArticTrader.Base64
import ArticTrader.CanonicalRequests
import ArticTrader.IsoRoundTrips
import ArticTrader.LlmPlanner
import ArticTrader.PriceWindows
import ArticTrader.ReasoningDocuments
import ArticTrader.SecretCipher
import ArticTrader.SocketBroadcasts
import ArticTrader.WebLogins
