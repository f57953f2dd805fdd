import BinanceCollector.CollectionNames
import BinanceCollector.Collector.Acceptance
import BinanceCollector.Collector.Connection
import BinanceCollector.Collector.ConnectionDelivery
import BinanceCollector.Collector.ConnectionHandover
import BinanceCollector.Collector.ConnectionRuns
import BinanceCollector.Collector.FieldMaps
import BinanceCollector.Collector.HandoverOrStop
import BinanceCollector.Collector.MultiCollector
import BinanceCollector.Collector.MultiParser
import BinanceCollector.Collector.OrStop
import BinanceCollector.Collector.OrStopRefinement
import BinanceCollector.Collector.Parser
import BinanceCollector.Collector.Permissive
import BinanceCollector.Collector.ProductCatalog
import BinanceCollector.Collector.PromptStop
import BinanceCollector.Collector.Reconnect
import BinanceCollector.Collector.Recovery
import BinanceCollector.Collector.Requests
import BinanceCollector.Collector.Statuses
import BinanceCollector.Collector.Streams
import BinanceCollector.Collector.Subscriptions
import BinanceCollector.Collector.Supervision
import BinanceCollector.Config
import BinanceCollector.Envelope
import BinanceCollector.EnvelopeRecovery
import BinanceCollector.LegacyRuntime
import BinanceCollector.LegacyRuntimeNoLoss
import BinanceCollector.Lib.Bson
import BinanceCollector.Lib.Dict
import BinanceCollector.Lib.Grouping
import BinanceCollector.Lib.Json
import BinanceCollector.Lib.JsonDump
import BinanceCollector.Lib.JsonGrammar
import BinanceCollector.Lib.JsonLimits
import BinanceCollector.Lib.JsonRecode
import BinanceCollector.Lib.Ledger
import BinanceCollector.Lib.Machine
import BinanceCollector.Lib.Monitor
import BinanceCollector.Lib.Percent
import BinanceCollector.Lib.Text
import BinanceCollector.Models.Event
import BinanceCollector.MongoConfig
import BinanceCollector.Monitoring.Agreement
import BinanceCollector.Monitoring.ConnectionStatus
import BinanceCollector.Monitoring.Depth
import BinanceCollector.Monitoring.LegacyAgreement
import BinanceCollector.Monitoring.MultiStats
import BinanceCollector.Monitoring.Rates
import BinanceCollector.Monitoring.Stats
import BinanceCollector.Monitoring.StorageStates
import BinanceCollector.MultiRuntime
import BinanceCollector.MultiRuntimeBacklog
import BinanceCollector.MultiRuntimeCustody
import BinanceCollector.MultiRuntimeNoLoss
import BinanceCollector.MultiRuntimeRefinement
import BinanceCollector.Outputs.Base
import BinanceCollector.Outputs.BufferWaits
import BinanceCollector.Outputs.EventOutput
import BinanceCollector.Outputs.Mongo
import BinanceCollector.Outputs.MongoDelivery
import BinanceCollector.Outputs.MongoDrain
import BinanceCollector.Outputs.MongoEventOutput
import BinanceCollector.Outputs.MultiMongo
import BinanceCollector.Outputs.MultiMongoBatches
import BinanceCollector.Outputs.MultiMongoCalls
import BinanceCollector.Outputs.MultiMongoClose
import BinanceCollector.Outputs.MultiMongoConservation
import BinanceCollector.Outputs.MultiMongoFailures
import BinanceCollector.Outputs.OneShot
import BinanceCollector.Outputs.OpenClose
import BinanceCollector.Outputs.OpenCloseRefinement
import BinanceCollector.Outputs.QueueWaits
import BinanceCollector.Outputs.Stdout
import BinanceCollector.Outputs.StdoutEventOutput
import BinanceCollector.Pipeline
import BinanceCollector.Recognition
import BinanceCollector.Routing
import BinanceCollector.Runtime
import BinanceCollector.RuntimeBracket
import BinanceCollector.RuntimeErrors
import BinanceCollector.RuntimeTurns
import BinanceCollector.Startup
import BinanceCollector.Storability
import BinanceCollector.StorageRoutes
