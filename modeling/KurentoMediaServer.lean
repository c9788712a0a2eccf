import KurentoMediaServer.Transport.Sticky
import KurentoMediaServer.Transport.Interleaved
import KurentoMediaServer.Transport.Registrar
import KurentoMediaServer.Transport.Secure
import KurentoMediaServer.Methods.Refs
import KurentoMediaServer.Cache.RequestCache
import KurentoMediaServer.Methods.Methods
import KurentoMediaServer.Methods.Transaction
import KurentoMediaServer.Methods.Sequential
import KurentoMediaServer.Methods.Unreported
import KurentoMediaServer.Methods.Substitution
import KurentoMediaServer.Methods.Handed
import KurentoMediaServer.Methods.Nested
import KurentoMediaServer.Cache.AtMostOnce
import KurentoMediaServer.Cache.Retransmit
import KurentoMediaServer.Cache.Origin
import KurentoMediaServer.Cache.Expiry
import KurentoMediaServer.Events.Delivery
import KurentoMediaServer.Events.Isolation
import KurentoMediaServer.Config.Dotted
import KurentoMediaServer.Config.Startup
import KurentoMediaServer.Config.Rounds
import KurentoMediaServer.Config.SameName
import KurentoMediaServer.Resources.ResourceManager
import KurentoMediaServer.Logging.Rotation
import KurentoMediaServer.Cache.Concurrent
import KurentoMediaServer.Cache.Transparent
import KurentoMediaServer.Events.InterleavedDelivery
import KurentoMediaServer.Methods.Exceptions
import KurentoMediaServer.Transport.SendEvent
import KurentoMediaServer.Transport.KeepAlive
import KurentoMediaServer.Transport.Backoff
import KurentoMediaServer.Main.Startup
import KurentoMediaServer.Main.KillLimit
import KurentoMediaServer.Debug.StackTrace
