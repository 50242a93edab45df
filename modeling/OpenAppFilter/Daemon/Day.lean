import OpenAppFilter.Daemon.Devices
import OpenAppFilter.Base.Run

/-!
# The daemon across midnights and restarts (`main.c`)

The daemon as a system whose events are the calls it makes, the reports it
receives, its restarts, and the midnights that pass meanwhile. A tick of
`oaf_timeout_handler` is the row of calls `oafTimeoutHandler` lists, so that a
midnight or a restart can fall between any two of them.

Beside the daemon's own state a run keeps what an observer counts: the active
reports of each device since the last midnight, and whether a midnight has
passed over minutes that are still in the table, or in the usage file.
-/

namespace OpenAppFilter.Daemon

open Base Kernel

variable {env : Env}

/-- The daemon, the kernel and the usage file, with the local day. -/
structure DayState (env : Env) where
  daemon : DaemonState
  kernel : OafState env
  /-- `last_day` of `check_date_change`. -/
  lastDay : Int := -1
  /-- `/etc/user_list.dat`. -/
  userFile : Option CStr := none
  /-- The number of the local day. -/
  today : Nat := 0
  /-- Active reports since midnight. -/
  reports : CStr → Nat := fun _ => 0
  /-- A midnight passed over the minutes in the table. -/
  carried : Bool := false
  /-- A midnight passed over the minutes in the file. -/
  fileCarried : Bool := false

def DayState.devs (s : DayState env) : DevTable := s.daemon.dev.devs

/-- `am + pm` of a device, without overflow. -/
def DevNode.minutes (node : DevNode) : Nat :=
  node.todayAmActiveTime.toNat + node.todayPmActiveTime.toNat

/-- Some device has minutes. -/
def anyMinutes (devs : DevTable) : Bool := devs.entries.any (fun e => decide (e.2.minutes ≠ 0))

/-- The configuration `af_load_config` loads. -/
structure LoadedConfig where
  global : AfGlobalConfig
  time : AfTimeConfig

/-- What can happen, one call at a time. Clock readings, files and the outcome
of each access are inputs. -/
inductive DayAct where
  | report (mac : DevName) (active : Option Int32) (hour : Fin 24)
  | midnight
  | restart (config : LoadedConfig)
  | updateDevList (afUsers : List (Option CStr)) (leases clients : List DevName)
  | updateOafStatus (io : ProcIo) (clock : Clock)
  | updateDynamicUsedTime (now : Tm)
  | updateLanIp (io : ProcIo) (ip mask : Ipv4)
  | flushDevExpireNode (expired : CStr → Bool)
  | checkDateChange
  | checkAllUsersPeriodTime (clock : CStr → Tm)
  | saveUserTimeToFile (opened : Bool)
  | loadConfig (config : LoadedConfig)
  | updateDevSelectedFlag (afUsers : List (Option CStr))
  | updateSwitches (io : ProcIo)
  | clearActiveTime (io : ProcIo) (mac : Option CStr)
  | flushOfflineUsers

/-- Change the device state alone. -/
def DayState.withDev (s : DayState env) (dev : DevState) : DayState env :=
  { s with daemon := { s.daemon with dev := dev } }

/-- Change the device table alone. -/
def DayState.withDevs (s : DayState env) (devs : DevTable) : DayState env :=
  s.withDev { s.daemon.dev with devs := devs }

/-- One event; `mday` gives the day of the month of each local day. -/
def dayStep (mday : Nat → Nat) (s : DayState env) : DayAct → DayState env
  | .report mac active hour =>
      { s.withDevs (appfilterNlHandler mac active hour s.devs) with
        reports := fun name =>
          if name = mac.val ∧ isActive active then s.reports name + 1 else s.reports name }
  | .midnight =>
      { s with
        today := s.today + 1
        reports := fun _ => 0
        carried := s.carried || anyMinutes s.devs
        fileCarried :=
          s.fileCarried || anyMinutes (loadUserTimeFromFile s.userFile HTable.empty) }
  | .restart config =>
      { s with
        daemon :=
          { global := config.global
            time := config.time
            dev := { devs := loadUserTimeFromFile s.userFile HTable.empty } }
        lastDay := -1
        carried := s.fileCarried }
  | .updateDevList afUsers leases clients =>
      s.withDevs (updateDevList s.daemon.global.userMode afUsers leases clients s.devs)
  | .updateOafStatus io clock =>
      let r := updateOafStatus io clock s.daemon s.kernel
      { s with daemon := r.1, kernel := r.2 }
  | .updateDynamicUsedTime now =>
      s.withDev { s.daemon.dev with
        status := updateDynamicUsedTime s.daemon.time now s.daemon.dev.status }
  | .updateLanIp io ip mask => { s with kernel := updateLanIp io ip mask s.kernel }
  | .flushDevExpireNode expired => s.withDevs (flushDevExpireNode expired s.devs)
  | .checkDateChange =>
      let r := checkDateChange (mday s.today) s.lastDay s.daemon.dev
      { s.withDev r.1 with
        lastDay := r.2
        carried :=
          if s.lastDay ≠ mday s.today ∧ s.lastDay ≠ -1 then false else s.carried }
  | .checkAllUsersPeriodTime clock =>
      let r := checkAllUsersPeriodTime clock s.devs s.daemon.dev.lastReset
      s.withDev { s.daemon.dev with devs := r.1, lastReset := r.2 }
  | .saveUserTimeToFile opened =>
      if opened then
        { s with userFile := some (saveUserTimeToFile s.devs), fileCarried := s.carried }
      else s
  | .loadConfig config =>
      { s with daemon := { s.daemon with global := config.global, time := config.time } }
  | .updateDevSelectedFlag afUsers =>
      s.withDevs (updateDevSelectedFlag s.daemon.global.userMode afUsers s.devs)
  | .updateSwitches io =>
      let k := updateOafRecordStatus io s.daemon s.kernel
      let k := updateOafDisableQuicStatus io s.daemon k
      let k := updateOafAppFilterModeStatus io s.daemon k
      { s with kernel := updateOafSplitTimeStatus io s.daemon k }
  | .clearActiveTime io mac =>
      let r := clearActiveTime io mac s.daemon.dev s.kernel
      { s.withDev r.1 with
        kernel := r.2
        carried :=
          match mac with
          | some (_ :: _) => s.carried
          | _ => false }
  | .flushOfflineUsers => s.withDevs (flushOfflineUsers s.devs)

/-- The daemon's first start: there is no usage file yet. -/
def dayStart (config : LoadedConfig) (k : OafState env) : DayState env where
  daemon := { global := config.global, time := config.time }
  kernel := k

/-! ## A tick -/

/-- What one tick reads: the files, the clock at each call, and the changed
configuration when `g_oaf_config_change` is set. -/
structure TickInput where
  io : ProcIo
  ip : Ipv4
  mask : Ipv4
  afUsers : List (Option CStr)
  leases : List DevName
  clients : List DevName
  tenClock : Clock
  minuteClock : Clock
  periodClock : CStr → Tm
  expired : CStr → Bool
  opened : Bool
  change : Option LoadedConfig

/-- `oaf_timeout_handler`: the calls of the tick number `count`. The time mode is
the one in force when the handler starts. -/
def oafTimeoutHandler (count : Nat) (timeMode : Int32) (i : TickInput) : List DayAct :=
  (if count % 10 = 0 then
    [.updateDevList i.afUsers i.leases i.clients, .updateOafStatus i.io i.tenClock]
  else []) ++
  (if count % 60 = 0 then
    [.updateDynamicUsedTime i.minuteClock.now, .updateOafStatus i.io i.minuteClock,
      .updateLanIp i.io i.ip i.mask, .flushDevExpireNode i.expired, .checkDateChange,
      .checkAllUsersPeriodTime i.periodClock]
  else []) ++
  (if count % 300 = 0 ∧ 0 < count ∧ timeMode = 2 then [.saveUserTimeToFile i.opened] else []) ++
  (match i.change with
  | some config =>
      [.updateLanIp i.io i.ip i.mask, .loadConfig config, .updateDevSelectedFlag i.afUsers,
        .updateDynamicUsedTime i.minuteClock.now, .updateOafStatus i.io i.minuteClock,
        .updateSwitches i.io]
  | none => [])

/-! ## Limit checks -/

/-- The call looks at the minutes: `af_check_time_period_limit` is reached. -/
def limitCheck (s : DayState env) : DayAct → Bool
  | .updateOafStatus _ _ =>
      decide (s.daemon.global.enable = 1) && decide (s.daemon.time.timeMode = 2)
  | _ => false

/-- No device has more minutes than active reports since midnight. -/
def OnlyToday (s : DayState env) : Prop :=
  ∀ e ∈ s.devs.entries, e.2.minutes ≤ s.reports e.1

end OpenAppFilter.Daemon
