import Gts3.Http.Segmentation
import Gts3.Http.RequestTarget
import Gts3.Http.ResponseFraming
import Gts3.Http.ChunkedBody
import Gts3.Http.Reassembly
import Gts3.Web.HeaderBlock
import Gts3.Web.Connection
import Gts3.Web.FilePath
import Gts3.Web.ClassRoutes
import Gts3.Http.Session
import Gts3.Web.TimedConnections
import Gts3.RwMutex
import Gts3.Web.CgiOutput
import Gts3.Sha1
import Gts3.Web.SocketFrameParser
import Gts3.Web.CgiCall
import Gts3.Web.CgiProcess
import Gts3.Http.AllBody
import Gts3.Http.ChunkedResponse
import Gts3.Http.RangeTransfer
import Gts3.Dbi.Manager
import Gts3.TaskThread
import Gts3.Plugins
import Gts3.Utls.JsonRoundTrip
import Gts3.Http.WriteFile
import Gts3.Http.SaveFile
import Gts3.Http.SessionUse
import Gts3.Web.HeadAnswer
import Gts3.TcpWrite
import Gts3.PollWait
import Gts3.SharedLock
import Gts3.Sha1Copy
import Gts3.Uuid
import Gts3.Cmdline.ArgsSpelling
import Gts3.Cmdline.ArgsAccounts
import Gts3.Web.CgiBody
import Gts3.Http.ReadStatus
import Gts3.StrReplace
import Gts3.PercentEncoding
import Gts3.Value
import Gts3.Settings
import Gts3.MimeType
import Gts3.TaskThreadWait
import Gts3.ByteOrder
import Gts3.LogFiles
import Gts3.Cmdline.LockFile
import Gts3.Http.StoredFile
import Gts3.Http.ChunkLoopback
import Gts3.Web.ConnectionLimit
import Gts3.SettingsFile
import Gts3.Web.CgiStart
import Gts3.Cmdline.Interaction
import Gts3.Web.SocketHandshake
import Gts3.Web.SessionLoop
