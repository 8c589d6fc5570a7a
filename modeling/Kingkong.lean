import Kingkong.Lib.Run
import Kingkong.Lib.OrderedSet
import Kingkong.Lib.OrderedMap
import Kingkong.Lib.Places
import Kingkong.Lib.Bytes
import Kingkong.Lib.Aead
import Kingkong.Lib.Ascii
import Kingkong.Lib.Base64
import Kingkong.Lib.Lock
import Kingkong.Lib.Monitor
import Kingkong.Lib.Outbox
import Kingkong.Lib.Varint
import Kingkong.Protobuf.Input
import Kingkong.Protobuf.Fields
import Kingkong.Protobuf.Message
import Kingkong.Protobuf.Output
import Kingkong.Protobuf.Serialize
import Kingkong.Xauth.Request
import Kingkong.Xauth.Response
import Kingkong.Base.Semaphore
import Kingkong.Base.AtExit
import Kingkong.Pump.Model
import Kingkong.Pump.Step
import Kingkong.Pump.Conservation
import Kingkong.Pump.Order
import Kingkong.Pump.Wakeup
import Kingkong.Pump.Cancel
import Kingkong.Pump.Batch
import Kingkong.Pump.Service
import Kingkong.Pump.Drain
import Kingkong.Pump.Stranded
import Kingkong.Pump.Parallel
import Kingkong.Pump.Win
import Kingkong.Pump.Early
import Kingkong.Pump.Android
import Kingkong.Pump.Retired
import Kingkong.Loop.Manager
import Kingkong.Loop.Generations
import Kingkong.Loop.UiPump
import Kingkong.Socks5.Model
import Kingkong.Socks5.Stall
import Kingkong.Socks5.Request
import Kingkong.Socks5.Transcript
import Kingkong.Socks5.Handover
import Kingkong.Socks5.Writes
import Kingkong.Connection.Model
import Kingkong.Connection.Step
import Kingkong.Connection.Callbacks
import Kingkong.Connection.SendQueue
import Kingkong.Connection.EarlySend
import Kingkong.Connection.AfterCleanUp
import Kingkong.Connection.Handlers
import Kingkong.Connection.Clients
import Kingkong.Connection.Lifetime
import Kingkong.Connection.Progress
import Kingkong.Connection.Stages
import Kingkong.Connection.Threads
import Kingkong.Connection.Factory
import Kingkong.Connection.Reported
import Kingkong.Tcp.Server
import Kingkong.Crypto.Gcm
import Kingkong.Crypto.Rsa
import Kingkong.Crypto.Base64
import Kingkong.StringUtil.Hex
import Kingkong.StringUtil.UrlEncode
import Kingkong.Http.Model
import Kingkong.Http.Delivery
import Kingkong.Http.Downloader
import Kingkong.Http.Download
import Kingkong.Auth.Model
import Kingkong.Http.Deadlock
import Kingkong.Http.Exchange
import Kingkong.Http.HeaderCase
import Kingkong.Url.Client
import Kingkong.Url.Query
import Kingkong.Auth.Soundness
import Kingkong.Auth.Ledger
import Kingkong.Auth.Outcome
import Kingkong.Auth.Release
import Kingkong.Auth.Signature
import Kingkong.Auth.Exchange
import Kingkong.Mvvm.Model
import Kingkong.Mvvm.Registry
import Kingkong.Mvvm.Bookkeeping
import Kingkong.Mvvm.Dispatch
import Kingkong.Mvvm.Param
import Kingkong.Cpp2Java.Agreement
import Kingkong.Jni.Model
import Kingkong.Jni.Notified
import Kingkong.Jni.VarCache
