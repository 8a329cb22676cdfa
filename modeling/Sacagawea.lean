import Sacagawea.Base.Bytes
import Sacagawea.Base.Settings
import Sacagawea.Lib.Split
import Sacagawea.Lib.Walk
import Sacagawea.Request.ReadRequest
import Sacagawea.Request.SecurityPath
import Sacagawea.Lib.Shell
import Sacagawea.Gopher.SanitizePath
import Sacagawea.Gopher.TypePath
import Sacagawea.Lib.Table
import Sacagawea.Gopher.Menu
import Sacagawea.Request.Management
import Sacagawea.Gopher.Requestable
import Sacagawea.Lib.Transition
import Sacagawea.Lib.Framing
import Sacagawea.Log.Protocol
import Sacagawea.Log.Mutex
import Sacagawea.Log.Ledger
import Sacagawea.Log.Conservation
import Sacagawea.Log.Deadlock
import Sacagawea.Log.WakeUp
import Sacagawea.Log.Failure
import Sacagawea.Server.Sighup
import Sacagawea.Lib.Capture
import Sacagawea.Config.Conf
import Sacagawea.Server.Reload
import Sacagawea.Config.Lines
import Sacagawea.Gopher.Listing
import Sacagawea.Request.FailedProbe
import Sacagawea.Server.Inherit
import Sacagawea.Server.AcceptLoop
import Sacagawea.Server.Main
import Sacagawea.Lib.Program
import Sacagawea.Log.Record
import Sacagawea.Log.Decode
import Sacagawea.Transfer.Calls
import Sacagawea.Transfer.ThreadSender
import Sacagawea.Transfer.LoadFile
import Sacagawea.Transfer.Isolation
import Sacagawea.Transfer.Agreement
import Sacagawea.Lib.PrefixTable
import Sacagawea.Request.Navigation
import Sacagawea.Request.Mime
import Sacagawea.Server.Homedir
import Sacagawea.Server.Reread
import Sacagawea.Server.Written
import Sacagawea.Server.Rendered
import Sacagawea.Transfer.Resources
import Sacagawea.Transfer.ShortSend
import Sacagawea.Server.Connections
import Sacagawea.Server.Stored
import Sacagawea.Server.Bounds
import Sacagawea.Gopher.LineEnd
import Sacagawea.Request.Limits
import Sacagawea.Request.Crawl
import Sacagawea.Log.Drain
import Sacagawea.Log.Console
import Sacagawea.Transfer.RecordLength
import Sacagawea.Lib.Typestate
import Sacagawea.Lib.Interleave
import Sacagawea.Lib.Unfold
import Sacagawea.Server.Clients
import Sacagawea.Server.FileLock
import Sacagawea.Server.Logged
import Sacagawea.Server.OneReply
import Sacagawea.Server.SelectLoop
import Sacagawea.Server.Shutdown
import Sacagawea.Lib.Fork
import Sacagawea.Server.Startup
import Sacagawea.Win32.Regex
import Sacagawea.Win32.Logger
import Sacagawea.Win32.ThreadSender
import Sacagawea.Win32.HandOff
import Sacagawea.Win32.LoadFile
