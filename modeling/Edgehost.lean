import Edgehost.Common.SlotMap
import Edgehost.Common.RingBuf
import Edgehost.Common.Runs
import Edgehost.Common.Client
import Edgehost.Core.EdgecoreRequests
import Edgehost.Core.EdgecoreBuffers
import Edgehost.Core.EdgecoreIds
import Edgehost.Core.EdgecoreLedger
import Edgehost.Core.StateRuns
import Edgehost.Core.AuthIssued
import Edgehost.Core.AuthVerify
import Edgehost.Core.AuthRoles
import Edgehost.Core.AuthProxy
import Edgehost.Core.PendingTable
import Edgehost.Core.PendingRuns
import Edgehost.Common.Json
import Edgehost.Host.PluginHost
import Edgehost.Host.PluginDispatch
import Edgehost.Host.OpenaiProxy
import Edgehost.Host.OpenaiRuns
import Edgehost.Host.PluginRuns
import Edgehost.Host.NotifyWorks
import Edgehost.Host.OutboundHttp
import Edgehost.Host.PluginReplies
import Edgehost.Host.PqSidecar
import Edgehost.Host.HubRuns
import Edgehost.Host.StreamWrites
import Edgehost.Host.StreamRuns
import Edgehost.Host.Mediation
import Edgehost.Host.LoopReceives
import Edgehost.Common.Fifo
import Edgehost.Host.TlsLoop
import Edgehost.Host.TlsSends
import Edgehost.Host.ServeMetrics
import Edgehost.Host.TlsEffects
import Edgehost.Host.TlsServer
import Edgehost.Host.TlsReads
import Edgehost.Host.TlsWrites
import Edgehost.Core.EdgecoreQueue
import Edgehost.Host.ConfigYaml
import Edgehost.Host.ConfigHup
import Edgehost.Host.PluginRequests
import Edgehost.Host.PluginExecutions
import Edgehost.Host.StateChanged
import Edgehost.Host.AuthMe
import Edgehost.Host.StateReplies
import Edgehost.Host.AtomicWrites
import Edgehost.Host.PutFeeds
import Edgehost.Host.ErrorBodies
import Edgehost.Host.OpenaiErrors
import Edgehost.Host.ErrorReplies
import Edgehost.Core.AuthMonotone
import Edgehost.Core.AuthPassword
import Edgehost.Core.AuthTamper
import Edgehost.Core.Sha256Spec
import Edgehost.Host.StaticPaths
import Edgehost.Host.PluginState
import Edgehost.Host.Sha1Spec
import Edgehost.Common.JsonStrings
import Edgehost.Host.LoginBody
import Edgehost.Core.CookieHeader
import Edgehost.Common.TextSearch
import Edgehost.Common.BoundedReads
import Edgehost.Host.RouteMatch
import Edgehost.Host.StateKeys
import Edgehost.Host.StateListing
import Edgehost.Host.StateViews
import Edgehost.Host.StatePaths
import Edgehost.Host.ConfigSizes
import Edgehost.Host.PromText
import Edgehost.Host.UpstreamParse
import Edgehost.Host.OpenaiRate
import Edgehost.Host.HubMemory
import Edgehost.Host.OutboundUrl
import Edgehost.Host.HeaderEnd
import Edgehost.Host.ProxyBodies
import Edgehost.Host.UpstreamWire
import Edgehost.Host.StoreRuns
import Edgehost.Host.Isolation
import Edgehost.Host.StoreWriters
import Edgehost.Host.IdleHost
import Edgehost.Host.LoopSimulation
