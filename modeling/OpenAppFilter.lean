import OpenAppFilter.Base.Run
import OpenAppFilter.Base.HTable
import OpenAppFilter.Base.CText
import OpenAppFilter.Base.CFile
import OpenAppFilter.Base.Words
import OpenAppFilter.Base.Lang
import OpenAppFilter.Base.Rows
import OpenAppFilter.Base.Chain
import OpenAppFilter.Base.Access
import OpenAppFilter.Base.Cut
import OpenAppFilter.Base.Copy
import OpenAppFilter.Kernel.State
import OpenAppFilter.Kernel.Client
import OpenAppFilter.Kernel.Report
import OpenAppFilter.Kernel.Rules
import OpenAppFilter.Kernel.Regexp
import OpenAppFilter.Kernel.RegexpSearch
import OpenAppFilter.Kernel.RegexpProg
import OpenAppFilter.Kernel.Dpi
import OpenAppFilter.Kernel.Scan
import OpenAppFilter.Kernel.Utils
import OpenAppFilter.Kernel.Feature
import OpenAppFilter.Kernel.Conn
import OpenAppFilter.Kernel.Hook
import OpenAppFilter.Kernel.Proc
import OpenAppFilter.Kernel.Netlink
import OpenAppFilter.Kernel.System
import OpenAppFilter.Kernel.ClientSeq
import OpenAppFilter.Kernel.ConnTable
import OpenAppFilter.Kernel.Frame
import OpenAppFilter.Kernel.Verdict
import OpenAppFilter.Daemon.Config
import OpenAppFilter.Daemon.TimeRead
import OpenAppFilter.Daemon.TimeShow
import OpenAppFilter.Daemon.TimeText
import OpenAppFilter.Daemon.Split
import OpenAppFilter.Daemon.Tick
import OpenAppFilter.Daemon.Devices
import OpenAppFilter.Daemon.Day
import OpenAppFilter.Daemon.Loop
import OpenAppFilter.Daemon.Visiting
import OpenAppFilter.Daemon.Users
import OpenAppFilter.Daemon.Feature
import OpenAppFilter.Daemon.Visits
import OpenAppFilter.Daemon.DevLists
import OpenAppFilter.Traffic.Collect
import OpenAppFilter.Traffic.Meter
import OpenAppFilter.Traffic.Lock
import OpenAppFilter.Theorems.Enforcement
import OpenAppFilter.Theorems.SwitchedOff
import OpenAppFilter.Theorems.Stability
import OpenAppFilter.Theorems.Mark
import OpenAppFilter.Theorems.Sender
import OpenAppFilter.Theorems.UrlCopy
import OpenAppFilter.Theorems.AppTable
import OpenAppFilter.Theorems.MacTables
import OpenAppFilter.Theorems.LostReport
import OpenAppFilter.Theorems.FlowLedger
import OpenAppFilter.Theorems.RegexpLanguage
import OpenAppFilter.Theorems.RegexpStale
import OpenAppFilter.Theorems.FeatureReload
import OpenAppFilter.Theorems.DailyLimit
import OpenAppFilter.Theorems.RejectedTime
import OpenAppFilter.Theorems.ShownTime
import OpenAppFilter.Theorems.Migration
import OpenAppFilter.Theorems.SavedSchedule
import OpenAppFilter.Theorems.SplitSync
import OpenAppFilter.Theorems.SplitMode
import OpenAppFilter.Theorems.Resync
import OpenAppFilter.Theorems.TodayBudget
import OpenAppFilter.Theorems.DynamicPhase
import OpenAppFilter.Theorems.ClearTime
import OpenAppFilter.Theorems.Selection
import OpenAppFilter.Theorems.UserFile
import OpenAppFilter.Theorems.VisitReport
import OpenAppFilter.Theorems.TrafficTotals
import OpenAppFilter.Theorems.ClientList
import OpenAppFilter.Theorems.BypassTable
import OpenAppFilter.Theorems.DeviceTable
import OpenAppFilter.Theorems.AppSessions
import OpenAppFilter.Theorems.AppTime
import OpenAppFilter.Theorems.CollectorLock
import OpenAppFilter.Theorems.DeviceBytes
import OpenAppFilter.Theorems.UserSets
import OpenAppFilter.Theorems.MarkVerdict
import OpenAppFilter.Theorems.FlowBounds
import OpenAppFilter.Theorems.HttpReads
import OpenAppFilter.Theorems.ServerName
import OpenAppFilter.Theorems.BadPattern
import OpenAppFilter.Theorems.CompileBounds
import OpenAppFilter.Theorems.FeatureLine
import OpenAppFilter.Theorems.PosDict
import OpenAppFilter.Theorems.FeatureRoom
import OpenAppFilter.Theorems.FeatureBuffers
import OpenAppFilter.Theorems.FeatureFields
import OpenAppFilter.Theorems.PortItem
import OpenAppFilter.Theorems.PortList
import OpenAppFilter.Theorems.BadPortList
import OpenAppFilter.Theorems.PayloadMatch
import OpenAppFilter.Theorems.PacketCopy
import OpenAppFilter.Base.Lock
import OpenAppFilter.Kernel.Locks
import OpenAppFilter.Theorems.HandlerLocks
import OpenAppFilter.Theorems.ConnSweep
import OpenAppFilter.Base.Clock
import OpenAppFilter.Theorems.ClientExpiry
import OpenAppFilter.Theorems.VisitedApps
import OpenAppFilter.Base.Largest
import OpenAppFilter.Base.Quote
import OpenAppFilter.Daemon.Nicknames
import OpenAppFilter.Daemon.TopApps
import OpenAppFilter.Theorems.BusyMinutes
import OpenAppFilter.Theorems.DeviceNames
import OpenAppFilter.Theorems.DynamicCycle
import OpenAppFilter.Theorems.Nicknames
import OpenAppFilter.Theorems.TopEight
import OpenAppFilter.Theorems.TopFive
import OpenAppFilter.Base.Json
import OpenAppFilter.Base.Sessions
import OpenAppFilter.Kernel.CJson
import OpenAppFilter.Kernel.Device
import OpenAppFilter.Daemon.NlReport
import OpenAppFilter.Daemon.ClientFile
import OpenAppFilter.Theorems.JsonReading
import OpenAppFilter.Theorems.JsonBreaks
import OpenAppFilter.Theorems.JsonPrinting
import OpenAppFilter.Theorems.JsonMinify
import OpenAppFilter.Theorems.DeviceText
import OpenAppFilter.Theorems.DeviceWriters
import OpenAppFilter.Theorems.ReportReading
import OpenAppFilter.Theorems.TodayBytes
import OpenAppFilter.Theorems.OnlineClients
import OpenAppFilter.Traffic.Store
import OpenAppFilter.Theorems.TrafficStore
import OpenAppFilter.Base.Pages
import OpenAppFilter.Daemon.UserList
import OpenAppFilter.Theorems.UserPages
import OpenAppFilter.Daemon.AppList
import OpenAppFilter.Theorems.FilteredApps
import OpenAppFilter.Daemon.AppNames
import OpenAppFilter.Theorems.ReportedNames
