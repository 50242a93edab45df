import OpenAppFilter.Daemon.Day
import OpenAppFilter.Kernel.Frame

/-!
# User mode and device lists (`appfilter_ubus.c`, `appfilter_user.c`, `oaf_rule`)

Which devices are filtered is configured in three places: the user mode, the
`af_user` sections and the `whitelist` sections. The ubus methods change them in
UCI and run `oaf_rule reload`, which pushes them to the kernel. The daemon keeps
its own copies: the user mode in `g_af_config`, read again when
`g_oaf_config_change` is set, and `is_whitelist` in the device table, read again
by `get_all_users`. `update_dev_list` computes `is_selected` from these copies.

Conventions.

* `user_mode` holds the number `af_uci_set_int_value` printed, or is missing. The
  script writes it to `/proc/sys/oaf/user_mode` as it stands; for a missing
  option it writes an empty line, which leaves the entry alone.
* `system` returns when the script is done, and the script's messages arrive.
* Sections are in the order of their creation.
-/

namespace OpenAppFilter.Daemon

open Base Kernel

variable {env : Env}

/-! ## The stored lists -/

/-- A text that fits the buffer of `af_uci_set_value` behind its key. -/
abbrev MacText (key : CStr) := { s : CStr // fitsParam key s = true }

def afUserKey : CStr := "appfilter.@af_user[-1].mac".toList
def whitelistKey : CStr := "appfilter.@whitelist[-1].mac".toList

/-- The other options `oaf_rule` reads: what it writes to `work_mode` and
`app_filter_mode`, the LAN interface, and the numbers of `app_list`. -/
structure RuleConfig where
  workMode : Option Int32 := none
  appFilterMode : Option Int32 := none
  lanIfname : CStr := []
  apps : List Int := []

/-- The package `appfilter`, as far as it is pushed; the lists hold the `mac`
option of each section. -/
structure UserConfig where
  rule : RuleConfig := {}
  userMode : Option Int32 := none
  afUsers : List (Option CStr) := []
  whitelist : List (Option CStr) := []

/-- The loop of the `add` methods: a new section for each MAC. -/
def addUsers {key : CStr} (users : List (Option CStr)) (macs : List (MacText key)) :
    List (Option CStr) :=
  users ++ macs.map (fun mac => afUciSetValue mac.val)

/-- The loop of the `del` methods: the first section with this MAC goes. `macStr`
is the buffer the option is read into. -/
def delUser (mac : CStr) : List (Option CStr) → CStr → List (Option CStr)
  | [], _ => []
  | user :: users, macStr =>
      let macStr := (user.getD macStr).take 127
      if macStr = mac then users else user :: delUser mac users macStr

/-! ## `oaf_rule reload` -/

/-- `add_mac_to_array_callback` on each section. -/
def listMacs (users : List (Option CStr)) : List CStr :=
  (users.filterMap id).filter (fun mac => mac ≠ [])

/-- `load_mac_list`: outside mode 1 the list is pushed empty. -/
def UserConfig.macList (u : UserConfig) : List CStr :=
  if u.userMode.map decimal = some ['1'] then listMacs u.afUsers else []

/-- `reload_base_config`. -/
def reloadBaseConfig (u : UserConfig) : List Event :=
  u.rule.workMode.toList.map (fun v => .proc (.workMode v)) ++
  u.userMode.toList.map (fun v => .proc (.userMode v)) ++
  .proc (.appFilterMode (u.rule.appFilterMode.getD 0)) ::
  (if u.rule.lanIfname ≠ [] then [.proc (.lanIfname u.rule.lanIfname)] else [])

/-- `reload_rule`: `clean_rule`, `load_rule`, `load_mac_list` and
`load_whitelist_mac`. -/
def reloadRule (u : UserConfig) : List Event :=
  [.config (some { op := some 3, data := some {} }),
    .config (some { op := some 1, data := some { apps := some u.rule.apps } }),
    .config (some { op := some 4, data := some { macList := some u.macList } }),
    .config (some { op := some 5, data := some { macList := some (listMacs u.whitelist) } })]

/-- `reload_oaf_rule`. -/
def reloadOafRule (u : UserConfig) (k : OafState env) : OafState env :=
  run step k (reloadBaseConfig u ++ reloadRule u)

/-! ## The daemon's copies -/

/-- The loops over the sections of a list that set a flag, with the buffer the
option is read into; a section without the option leaves it as it was. -/
def markListed (f : DevNode → DevNode) : List (Option CStr) → CStr → DevTable → DevTable
  | [], _, devs => devs
  | user :: users, macStr, devs =>
      let macStr := (user.getD macStr).take 127
      markListed f users macStr (devs.modify (macStr.take maxMacLen) f)

/-- `update_dev_whitelist_flag`. -/
def updateDevWhitelistFlag (whitelist : List (Option CStr)) (devs : DevTable) : DevTable :=
  markListed (fun node => { node with isWhitelist := true }) whitelist []
    (devs.mapVals (fun _ node => { node with isWhitelist := false }))

/-- The loop of `update_dev_selected_flag` is such a loop. -/
theorem selectUsers_eq_markListed (users : List (Option CStr)) :
    ∀ macStr devs, selectUsers users macStr devs =
      markListed (fun node => { node with isSelected := true }) users macStr devs := by
  induction users with
  | nil =>
      intro macStr devs
      rfl
  | cons user users ih =>
      intro macStr devs
      exact ih _ _

/-! ## The system -/

/-- UCI, the daemon with `g_oaf_config_change`, and the kernel. -/
structure UserState (env : Env) where
  uci : UserConfig
  daemon : DaemonState
  configChange : Bool := true
  kernel : OafState env

/-- The user mode as `af_load_global_config` reads it. -/
def UserConfig.loadedMode (u : UserConfig) : Int32 := globalOption (u.userMode.map decimal)

/-- ubus methods, the calls of the timer handler, reports, and what goes on in the
kernel meanwhile. A missing member of a request is `none`. -/
inductive UserAct where
  | setAppFilterUser (mode : Option Int32)
  | addAppFilterUser (macs : Option (List (MacText afUserKey)))
  | delAppFilterUser (mac : Option CStr)
  | addWhitelistUser (macs : Option (List (MacText whitelistKey)))
  | delWhitelistUser (mac : Option CStr)
  /-- A method that stores other options, reloads and announces the change:
  `set_app_filter`, `set_app_filter_base`, `set_app_filter_adv`. -/
  | setAppFilter (rule : RuleConfig)
  /-- A method that announces a change only: `set_app_filter_time`,
  `clear_active_time`. -/
  | announce
  | setNickname
  | getAllUsers
  | report (mac : DevName) (active : Option Int32) (hour : Fin 24)
  | updateDevList (leases clients : List DevName)
  | updateOafStatus (io : ProcIo) (clock : Clock)
  | flushDevExpireNode (expired : CStr → Bool)
  | flushOfflineUsers
  /-- The block that runs when `g_oaf_config_change` is set. -/
  | configChange (config : LoadedConfig)
  | kernel (ev : Event) (h : (ev.isPacket || ev.isTime) = true)

/-- Store a new configuration and run the script. -/
def UserState.commit (s : UserState env) (u : UserConfig) : UserState env :=
  { s with uci := u, kernel := reloadOafRule u s.kernel }

def UserState.devs (s : UserState env) : DevTable := s.daemon.dev.devs

def UserState.withDevs (s : UserState env) (devs : DevTable) : UserState env :=
  { s with daemon := { s.daemon with dev := { s.daemon.dev with devs := devs } } }

/-- One event. -/
def userStep (s : UserState env) : UserAct → UserState env
  | .setAppFilterUser none => s
  | .setAppFilterUser (some mode) => s.commit { s.uci with userMode := some mode }
  | .addAppFilterUser none => s
  | .addAppFilterUser (some macs) => s.commit { s.uci with afUsers := addUsers s.uci.afUsers macs }
  | .delAppFilterUser none => s
  | .delAppFilterUser (some mac) => s.commit { s.uci with afUsers := delUser mac s.uci.afUsers [] }
  | .addWhitelistUser none => s
  | .addWhitelistUser (some macs) =>
      s.commit { s.uci with whitelist := addUsers s.uci.whitelist macs }
  | .delWhitelistUser none => s
  | .delWhitelistUser (some mac) =>
      s.commit { s.uci with whitelist := delUser mac s.uci.whitelist [] }
  | .setAppFilter rule => { s.commit { s.uci with rule := rule } with configChange := true }
  | .announce => { s with configChange := true }
  | .setNickname => s.commit s.uci
  | .getAllUsers => s.withDevs (updateDevWhitelistFlag s.uci.whitelist s.devs)
  | .report mac active hour => s.withDevs (appfilterNlHandler mac active hour s.devs)
  | .updateDevList leases clients =>
      s.withDevs (updateDevList s.daemon.global.userMode s.uci.afUsers leases clients s.devs)
  | .updateOafStatus io clock =>
      let r := updateOafStatus io clock s.daemon s.kernel
      { s with daemon := r.1, kernel := r.2 }
  | .flushDevExpireNode expired => s.withDevs (flushDevExpireNode expired s.devs)
  | .flushOfflineUsers => s.withDevs (flushOfflineUsers s.devs)
  | .configChange config =>
      if s.configChange then
        { s with
          daemon :=
            { global := { config.global with userMode := s.uci.loadedMode }
              time := config.time
              dev := { s.daemon.dev with
                devs := updateDevSelectedFlag s.uci.loadedMode s.uci.afUsers s.devs } }
          configChange := false }
      else s
  | .kernel ev _ => { s with kernel := step s.kernel ev }

/-- The daemon and the module after their start: the configuration is loaded,
and pushed. -/
def userStart (u : UserConfig) (config : LoadedConfig) (jiffies : Nat) : UserState env where
  uci := u
  daemon := { global := { config.global with userMode := u.loadedMode }, time := config.time }
  kernel := reloadOafRule u (boot env jiffies)

/-- Every device that has an address is selected in the daemon iff the kernel
filters it. -/
def SelectionAgrees (s : UserState env) : Prop :=
  ∀ e ∈ s.devs.entries, ∀ mac, CanonicalMac e.1 mac →
    (e.2.isSelected = true ↔ matchAppFilterUser s.kernel mac = true)

end OpenAppFilter.Daemon
