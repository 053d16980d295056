import Lith.PathConfinement
import Lith.Segmentation
import Lith.BodyDraining
import Lith.Config
import Lith.CacheTransparency
import Lith.CacheCoherence
import Lith.CacheLocking
import Lith.TaskQueue
import Lith.SocketOwnership
import Lith.FieldSearch
import Lith.Message
import Lith.Decimal
import Lith.RenderedRequest
import Lith.FramingSources
import Lith.LetterCase
import Lith.FieldNameCase
import Lith.RelativePath
import Lith.StartUp
import Lith.BodyBuffer
import Lith.PostReply
import Lith.ResponseHeaders
import Lith.Dialogue
import Lith.ErrorPages
import Lith.ServerThreads
import Lith.Shutdown
import Lith.SignalHandlers
import Lith.SignalDelivery
import Lith.CacheHistory
import Lith.FileTransfer
import Lith.ConfigLines
import Lith.RequestTarget
import Lith.Redirect
import Lith.HeaderInsertion
import Lith.PeekBuffers
import Lith.PathBuffers
import Lith.PortBinding
import Lith.SslEngine
import Lith.CacheAtomicity
import Lith.WorkerWakeups
import Lith.CacheLifetime
import Lith.PoolDrain
import Lith.RouteProgress
import Lith.ResponseStream
import Lith.SessionMemory
import Lith.Daemonize
import Lith.LogLines
import Lith.MonotoneReads
import Lith.ConfigMemory
import Lith.ConfigFile
import Lith.ServerParts
import Lith.ConnectionRelease
import Lith.ServerConnections
