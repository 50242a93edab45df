import OpenAppFilter.Daemon.Split

/-!
# Time checks and configuration changes (`main.c`, `appfilter_user.c`)

`af_check_time_valid` decides whether filtering is on, in one of three modes:
by a list of periods, by alternating phases, or by the minutes used. Mode 2 has
two variants, the shared total of `af_check_time_period_limit` and the
per-device check it hands over to. `oafConfigChange` is what
`oaf_timeout_handler` does when `g_oaf_config_change` is set.

The work the handler does every 10, 60 and 300 ticks comes before that block
and leaves `g_af_config` alone; the block is a function of the state it finds.
-/

namespace OpenAppFilter.Daemon

open Base Kernel

variable {env : Env}

/-! ## Global configuration -/

/-- The options of `appfilter.global` behind the switches. -/
structure UciGlobal where
  enable : Option CStr := none
  recordEnable : Option CStr := none
  userMode : Option CStr := none
  disableQuic : Option CStr := none
  appFilterMode : Option CStr := none

/-- The stored configuration; `afUsers` holds the `mac` option of each `af_user`
section. -/
structure UciConfig where
  global : UciGlobal := {}
  time : UciTime := {}
  afUsers : List (Option CStr) := []

/-- `af_global_config_t`, the switches. -/
structure AfGlobalConfig where
  enable : Int32 := 0
  recordEnable : Int32 := 0
  userMode : Int32 := 0
  disableQuic : Int32 := 0
  appFilterMode : Int32 := 0

/-- An option that is missing or negative reads as 0. -/
def globalOption (o : Option CStr) : Int32 :=
  if afUciGetIntValue o < 0 then 0 else afUciGetIntValue o

/-- `af_load_global_config`. -/
def afLoadGlobalConfig (u : UciGlobal) : AfGlobalConfig where
  enable := globalOption u.enable
  recordEnable := globalOption u.recordEnable
  userMode := globalOption u.userMode
  disableQuic := globalOption u.disableQuic
  appFilterMode := globalOption u.appFilterMode

/-! ## Selected devices -/

/-- The loop over the `af_user` sections. `macStr` is the buffer the option is
read into; a section without the option leaves it as it was. -/
def selectUsers : List (Option CStr) → CStr → DevTable → DevTable
  | [], _, devs => devs
  | user :: users, macStr, devs =>
      let macStr := (user.getD macStr).take 127
      selectUsers users macStr
        (devs.modify (macStr.take maxMacLen) (fun node => { node with isSelected := true }))

/-- `update_dev_selected_flag`. -/
def updateDevSelectedFlag (userMode : Int32) (afUsers : List (Option CStr)) (devs : DevTable) :
    DevTable :=
  if userMode = 0 then
    devs.mapVals (fun _ node => { node with isSelected := !node.isWhitelist })
  else
    selectUsers afUsers [] (devs.mapVals (fun _ node => { node with isSelected := false }))

/-! ## Time checks -/

/-- Minutes since midnight. -/
def AfTime.minutes (t : AfTime) : Int32 := t.hour * 60 + t.min
def Tm.minutes (now : Tm) : Int32 := Int32.ofNat (now.hour.val * 60 + now.min.val)

/-- `af_check_time_manual`. -/
def afCheckTimeManual (config : AfTimeConfig) (now : Tm) (s : AfStatus) : AfStatus × Int :=
  if config.timeList.any (fun p => p.days now.wday &&
      decide (p.startTime.minutes ≤ now.minutes ∧ now.minutes ≤ p.endTime.minutes)) then
    ({ s with matchTime := 1 }, 1)
  else ({ s with matchTime := 0 }, 0)

/-- `af_check_time_dynamic`. -/
def afCheckTimeDynamic (s : AfStatus) : Int := s.filter.toInt

/-- `update_dynamic_used_time`. -/
def updateDynamicUsedTime (config : AfTimeConfig) (now : Tm) (s : AfStatus) : AfStatus :=
  if config.timeMode ≠ 1 then s
  else if !config.days now.wday then {}
  else if ¬ (config.segStart.minutes ≤ now.minutes ∧ now.minutes ≤ config.segEnd.minutes) then {}
  else if s.filter = 1 then
    if config.denyTime ≤ s.denyTime + 1 then { s with matchTime := 1, filter := 0, denyTime := 0 }
    else { s with matchTime := 1, denyTime := s.denyTime + 1 }
  else
    if config.allowTime ≤ s.allowTime + 1 then
      { s with matchTime := 1, filter := 1, allowTime := 0 }
    else { s with matchTime := 1, allowTime := s.allowTime + 1 }

/-- The minutes of all selected devices together, in `int` arithmetic. -/
def totalActiveTime (devs : DevTable) (hour : Fin 24) : Int32 :=
  devs.entries.foldl (fun total e =>
    if e.2.isSelected then total + (e.2.activeTime hour).toInt32 else total) 0

/-- `af_check_time_period_limit` without split mode: one budget for all selected
devices. -/
def afCheckSharedPeriodLimit (config : AfTimeConfig) (clock : Clock) (d : DevState) :
    DevState × Int :=
  let limit := config.dailyLimit clock.now.wday
  let idle : AfStatus :=
    { d.status with matchTime := 0, remainTime := 0, usedTime := 0, periodBlocked := 0 }
  if limit.enable = 0 then ({ d with status := idle }, 0)
  else if maxAllowedTime limit clock.now ≤ 0 then ({ d with status := idle }, 0)
  else
    let r := checkAllUsersPeriodTime clock.dev d.devs d.lastReset
    let total := totalActiveTime r.1 clock.now.hour
    let remain := maxAllowedTime limit clock.now - total
    let exceeded := decide (maxAllowedTime limit clock.now ≤ total)
    ({ devs := r.1
       lastReset := r.2
       status := { d.status with
         usedTime := total
         remainTime := if remain < 0 then 0 else remain
         matchTime := 1
         periodBlocked := if exceeded then 1 else 0 } }, if exceeded then 1 else 0)

/-- `af_check_time_period_limit`. -/
def afCheckTimePeriodLimit (io : ProcIo) (config : AfTimeConfig) (clock : Clock) (d : DevState)
    (k : OafState env) : DevState × OafState env × Int :=
  if config.splitTime ≠ 0 then afSplitCheckPeriodLimit io config clock d k
  else
    let r := afCheckSharedPeriodLimit config clock d
    (r.1, k, r.2)

/-- `af_check_time_valid`. -/
def afCheckTimeValid (io : ProcIo) (config : AfTimeConfig) (clock : Clock) (d : DevState)
    (k : OafState env) : DevState × OafState env × Int :=
  if config.timeMode = 0 then
    let r := afCheckTimeManual config clock.now d.status
    ({ d with status := r.1 }, k, r.2)
  else if config.timeMode = 1 then (d, k, afCheckTimeDynamic d.status)
  else if config.timeMode = 2 then afCheckTimePeriodLimit io config clock d k
  else (d, k, 0)

/-- What a time check can do to the devices and to the kernel: nothing, the
per-device check, or the shared one. -/
theorem afCheckTimeValid_cases (io : ProcIo) (config : AfTimeConfig) (clock : Clock)
    (d : DevState) (k : OafState env) :
    ((afCheckTimeValid io config clock d k).1.devs = d.devs ∧
        (afCheckTimeValid io config clock d k).2.1 = k) ∨
      afCheckTimeValid io config clock d k = afSplitCheckPeriodLimit io config clock d k ∨
      ((afCheckTimeValid io config clock d k).1 = (afCheckSharedPeriodLimit config clock d).1 ∧
        (afCheckTimeValid io config clock d k).2.1 = k) := by
  unfold afCheckTimeValid
  split
  · exact Or.inl ⟨rfl, rfl⟩
  · split
    · exact Or.inl ⟨rfl, rfl⟩
    · split
      · unfold afCheckTimePeriodLimit
        split
        · exact Or.inr (Or.inl rfl)
        · exact Or.inr (Or.inr ⟨rfl, rfl⟩)
      · exact Or.inl ⟨rfl, rfl⟩

/-! ## Switches in the kernel -/

/-- `update_oaf_proc_value` for an integer entry that holds `old`: nothing is
written when it cannot be accessed or shows the value already. -/
def updateOafProcValue (io : ProcIo) (key : ProcKey) (old new : CStr) (w : ProcWrite)
    (k : OafState env) : OafState env :=
  if io.value key = true ∧ old ≠ new then procWrite k w else k

/-- The switches: the entry is set to `"1"` or `"0"`. -/
def updateSwitch (io : ProcIo) (key : ProcKey) (old : Int32) (w : Int32 → ProcWrite) (on : Bool)
    (k : OafState env) : OafState env :=
  updateOafProcValue io key (decimal old) (decimal (if on then 1 else 0))
    (w (if on then 1 else 0)) k

/-- `g_af_config`, `g_af_status` and the device table. -/
structure DaemonState where
  global : AfGlobalConfig := {}
  time : AfTimeConfig
  dev : DevState := {}

/-- `update_oaf_status`. -/
def updateOafStatus (io : ProcIo) (clock : Clock) (d : DaemonState) (k : OafState env) :
    DaemonState × OafState env :=
  let r := if d.global.enable = 1 then afCheckTimeValid io d.time clock d.dev k else (d.dev, k, 0)
  ({ d with dev := r.1 },
    updateSwitch io .enable r.2.1.gOafFilterEnable .enable (decide (r.2.2 = 1)) r.2.1)

/-- `update_oaf_record_status`. -/
def updateOafRecordStatus (io : ProcIo) (d : DaemonState) (k : OafState env) : OafState env :=
  updateSwitch io .recordEnable k.gOafRecordEnable .recordEnable
    (decide (d.global.recordEnable = 1)) k

/-- `update_oaf_disable_quic_status`. -/
def updateOafDisableQuicStatus (io : ProcIo) (d : DaemonState) (k : OafState env) :
    OafState env :=
  updateSwitch io .disableQuic k.gDisableQuic .disableQuic (decide (d.global.disableQuic = 1)) k

/-- `update_oaf_app_filter_mode_status`. -/
def updateOafAppFilterModeStatus (io : ProcIo) (d : DaemonState) (k : OafState env) :
    OafState env :=
  updateSwitch io .appFilterMode k.gAppFilterMode .appFilterMode
    (decide (d.global.appFilterMode = 1)) k

/-- `update_oaf_split_time_status`: outside mode 2, or with the option not 1,
split mode is switched off and every block is cleared. -/
def updateOafSplitTimeStatus (io : ProcIo) (d : DaemonState) (k : OafState env) : OafState env :=
  let val := decide (d.time.timeMode = 2) && decide (d.time.splitTime = 1)
  let k := updateSwitch io .splitTime k.gSplitTime .splitTime val k
  if !val && io.blockedMacs "clear".toList then (oafBlockedMacsHandler k "clear".toList).1 else k

/-- `update_lan_ip`; `ip` and `mask` are what the commands printed, 0 for
nothing. -/
def updateLanIp (io : ProcIo) (ip mask : Ipv4) (k : OafState env) : OafState env :=
  let text (v : Ipv4) : CStr := Nat.toDigits 10 v.toNat
  let k := updateOafProcValue io .lanIp (text k.afLanIp) (text ip) (.lanIp ip) k
  updateOafProcValue io .lanMask (text k.afLanMask) (text mask) (.lanMask mask) k

/-! ## A configuration change -/

/-- The block of `oaf_timeout_handler` that runs when `g_oaf_config_change` is
set; `dynamic` is the clock reading of `update_dynamic_used_time`. `none` when
the loader writes out of bounds. -/
def oafConfigChange (io : ProcIo) (lan : Ipv4 × Ipv4) (dynamic : Tm) (clock : Clock) (u : UciConfig)
    (d : DaemonState) (k : OafState env) : Option (UciConfig × DaemonState × OafState env) :=
  let k := updateLanIp io lan.1 lan.2 k
  match afLoadTime u.time with
  | none => none
  | some (time, uciTime) =>
      let global := afLoadGlobalConfig u.global
      let devs := updateDevSelectedFlag global.userMode u.afUsers d.dev.devs
      let status := updateDynamicUsedTime time dynamic d.dev.status
      let r := updateOafStatus io clock
        { global := global, time := time, dev := { d.dev with devs := devs, status := status } } k
      let k := updateOafRecordStatus io r.1 r.2
      let k := updateOafDisableQuicStatus io r.1 k
      let k := updateOafAppFilterModeStatus io r.1 k
      let k := updateOafSplitTimeStatus io r.1 k
      some ({ u with time := uciTime }, r.1, k)

end OpenAppFilter.Daemon
