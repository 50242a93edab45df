import OpenAppFilter.Base.Words
import OpenAppFilter.Daemon.Users

/-!
# The list of filtered apps (`appfilter_ubus.c`, `appfilter_config.c`, `oaf_rule`)

`set_app_filter` stores the list as a list of texts in UCI and runs `oaf_rule
reload`, `get_app_filter` reads it back for the page, and `load_rule` reads it with
the shell and sends it to the kernel.

Conventions.

* The numbers in UCI are those of an `int`, as `set_app_filter` prints them; `atoi`
  stands for what `json_add_int` makes of a text, too.
* A list longer than the buffer of `get_app_filter` is written behind it; then
  there is no answer.
-/

namespace OpenAppFilter.Daemon

open Base Kernel

variable {env : Env}

/-! ## The option -/

/-- `af_uci_add_int_list`; the key of 22 characters and the number fit the 128 bytes. -/
def afUciAddIntList (o : Option UciValue) (value : Int32) : Option UciValue :=
  match o with
  | some (.list l) => some (.list (l ++ [decimal value]))
  | some (.string s) => some (.list [s, decimal value])
  | none => some (.list [decimal value])

/-- What `handle_set_app_filter` leaves in `appfilter.rule.app_list`: the option is
deleted, then the numbers are added. -/
def storedAppList (ids : List Int32) : Option UciValue := ids.foldl afUciAddIntList none

/-- `MAX_APPFILTER_STR_LEN` -/
def maxAppfilterStrLen : Nat := 8192

/-- `handle_get_app_filter`. -/
def handleGetAppFilter (appList : Option UciValue) : Option (List Int32) :=
  let appfilterBuf := afUciGetListValue appList
  if appfilterBuf.length ≥ maxAppfilterStrLen then none
  else some ((tokens ' ' appfilterBuf).map atoi)

/-- `config_get appid_list rule app_list`: the elements of a list with blanks between. -/
def configGet : Option UciValue → CStr
  | none => []
  | some (.string s) => s
  | some (.list l) => (l.intersperse [' ']).flatten

/-- `load_rule`: the numbers it sends. The colon behind the list belongs to its last
word. -/
def loadRule (appList : Option UciValue) : List Int :=
  let appidList := configGet appList
  if appidList = [] then [] else (words (appidList ++ [':'])).map (fun appid => (atoi appid).toInt)

/-! ## The system -/

structure AppListState (env : Env) where
  appList : Option UciValue
  user : UserState env

/-- The event stores options of `RuleConfig`. -/
def UserAct.storesRule : UserAct → Bool
  | .setAppFilter _ => true
  | _ => false

inductive AppListAct where
  | setAppFilter (ids : List Int32)
  /-- `set_app_filter_base` and `set_app_filter_adv`: the list is read again by the script. -/
  | setOptions (rule : RuleConfig)
  | other (act : UserAct) (h : act.storesRule = false)

/-- The options with the numbers `load_rule` finds. -/
def RuleConfig.withList (rule : RuleConfig) (appList : Option UciValue) : RuleConfig :=
  { rule with apps := loadRule appList }

def appListStep (s : AppListState env) : AppListAct → AppListState env
  | .setAppFilter ids =>
      { appList := storedAppList ids
        user := userStep s.user (.setAppFilter (s.user.uci.rule.withList (storedAppList ids))) }
  | .setOptions rule => { s with user := userStep s.user (.setAppFilter (rule.withList s.appList)) }
  | .other act _ => { s with user := userStep s.user act }

/-- The router after its start, with no app chosen yet. -/
def appListStart (u : UserConfig) (config : LoadedConfig) (jiffies : Nat) : AppListState env where
  appList := none
  user := userStart { u with rule := u.rule.withList none } config jiffies

end OpenAppFilter.Daemon
