import OpenTwins.ApiServer
import OpenTwins.Batching
import OpenTwins.Binary32
import OpenTwins.Binary64
import OpenTwins.CappedLog
import OpenTwins.CarriedHeaders
import OpenTwins.Chrony
import OpenTwins.ClientRuns
import OpenTwins.Clients
import OpenTwins.ConfigureRoute
import OpenTwins.ConfigureRuns
import OpenTwins.Connectors
import OpenTwins.CutOff
import OpenTwins.Deviation
import OpenTwins.Draining
import OpenTwins.EngineDrains
import OpenTwins.EngineEffects
import OpenTwins.EngineLoops
import OpenTwins.EngineThreads
import OpenTwins.Entries
import OpenTwins.ErrorMessages
import OpenTwins.EventDispatcher
import OpenTwins.EventParser
import OpenTwins.EventQueue
import OpenTwins.EventSender
import OpenTwins.EventTypes
import OpenTwins.FixedArray
import OpenTwins.FloatWidth
import OpenTwins.HaltAlarm
import OpenTwins.Headers
import OpenTwins.InForce
import OpenTwins.IntegerReadings
import OpenTwins.Interleavings
import OpenTwins.ItemSizes
import OpenTwins.ItemsTaken
import OpenTwins.LastWrite
import OpenTwins.Leftovers
import OpenTwins.Lines
import OpenTwins.LookAhead
import OpenTwins.MessagePack
import OpenTwins.Messages
import OpenTwins.Nearest
import OpenTwins.Outbound
import OpenTwins.Pack
import OpenTwins.PackItems
import OpenTwins.ParserBounds
import OpenTwins.ParserCalls
import OpenTwins.PartialWrites
import OpenTwins.Pipeline
import OpenTwins.PipelineAccounting
import OpenTwins.PipelineSafety
import OpenTwins.Positions
import OpenTwins.ProcessorLoop
import OpenTwins.QueueThreads
import OpenTwins.Receive
import OpenTwins.ReceivedMessages
import OpenTwins.Replies
import OpenTwins.Reports
import OpenTwins.Requests
import OpenTwins.RingBuffer
import OpenTwins.RingThreads
import OpenTwins.RoundTrip
import OpenTwins.Routing
import OpenTwins.RuleCalls
import OpenTwins.RuleEngine
import OpenTwins.Runs
import OpenTwins.SentMessages
import OpenTwins.ServerRuns
import OpenTwins.SessionReads
import OpenTwins.Settings
import OpenTwins.Shutdown
import OpenTwins.SkipItems
import OpenTwins.Snapshots
import OpenTwins.StoreRuns
import OpenTwins.StoredPart
import OpenTwins.TagDiscipline
import OpenTwins.Temporal
import OpenTwins.ThreadRefinement
import OpenTwins.ThreadRuns
import OpenTwins.ThreadSteps
import OpenTwins.ThreadStore
import OpenTwins.Truncation
import OpenTwins.TruthfulReplies
import OpenTwins.TwinService
import OpenTwins.TwinsMemory
import OpenTwins.Unpack
import OpenTwins.UnpackItems
import OpenTwins.UserActions
import OpenTwins.VariableIds
import OpenTwins.WireIntegers
import OpenTwins.WriteBack
