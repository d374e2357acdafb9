import LocalDevProxy.LogFamilies
import LocalDevProxy.LogContent
import LocalDevProxy.LogFaults
import LocalDevProxy.OneValue
import LocalDevProxy.HostDispatch
import LocalDevProxy.ChildHandles
import LocalDevProxy.Startability
import LocalDevProxy.Lifecycle
import LocalDevProxy.Substitution
import LocalDevProxy.RouteResolution
import LocalDevProxy.HostRule
import LocalDevProxy.LogCap
import LocalDevProxy.LogPump
import LocalDevProxy.LogTail
import LocalDevProxy.Lossless
import LocalDevProxy.HighlightToml
import LocalDevProxy.UnsavedEdits
import LocalDevProxy.LogView
import LocalDevProxy.LogRuns
import LocalDevProxy.Portal
import LocalDevProxy.SavedConfig
import LocalDevProxy.HighlightCompose
import LocalDevProxy.PathRepair
import LocalDevProxy.UpstreamUri
import LocalDevProxy.HopByHop
import LocalDevProxy.Activation
import LocalDevProxy.ListenOnce
import LocalDevProxy.HighlightHeaders
import LocalDevProxy.HighlightCaret
import LocalDevProxy.PathMerge
import LocalDevProxy.Headless
import LocalDevProxy.DesktopExit
import LocalDevProxy.WebSocket
import LocalDevProxy.SerialCalls
import LocalDevProxy.ServerTasks
import LocalDevProxy.Selection
import LocalDevProxy.Profiles
import LocalDevProxy.LogOwners
import LocalDevProxy.SharedLog
import LocalDevProxy.PumpMoments
