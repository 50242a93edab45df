import OpenAppFilter.Daemon.Day

/-!
# Commands and the one-second handler (`appfilter_ubus.c`, `main.c`)

A command of the user interface changes the daemon's tables or the stored
configuration and sets `g_oaf_config_change`; the next run of
`oaf_timeout_handler` finds the flag, loads the configuration and checks
everything again. Here the flag and the handler's counter are part of the
state, so that a run says which tick handles which command.
-/

namespace OpenAppFilter.Daemon

open Base Kernel

variable {env : Env}

/-- The daemon between two events of its loop. The flag is set when it
starts. -/
structure LoopState (env : Env) where
  day : DayState env
  /-- `count` of `oaf_timeout_handler`. -/
  count : Nat := 0
  /-- `g_oaf_config_change`. -/
  configChange : Bool := true
  /-- The stored configuration, as `af_load_config` reads it. -/
  stored : LoadedConfig

/-- The events of the loop. `commit` stands for every method that commits a
configuration and sets the flag; the `change` of a tick's input is replaced by
what the flag says. -/
inductive LoopAct where
  | tick (input : TickInput)
  | clearActiveTime (io : ProcIo) (mac : Option CStr)
  | commit (stored : LoadedConfig)
  | report (mac : DevName) (active : Option Int32) (hour : Fin 24)

def LoopAct.isTick : LoopAct → Bool
  | .tick _ => true
  | _ => false

/-- The configuration a tick loads. -/
def LoopState.change (s : LoopState env) : Option LoadedConfig :=
  if s.configChange then some s.stored else none

/-- The calls of one tick. -/
def LoopState.calls (s : LoopState env) (i : TickInput) : List DayAct :=
  oafTimeoutHandler s.count s.day.daemon.time.timeMode { i with change := s.change }

def loopStep (mday : Nat → Nat) (s : LoopState env) : LoopAct → LoopState env
  | .tick i =>
      { s with
        day := run (dayStep mday) s.day (s.calls i)
        count := s.count + 1
        configChange := false }
  | .clearActiveTime io mac =>
      { s with day := dayStep mday s.day (.clearActiveTime io mac), configChange := true }
  | .commit stored => { s with stored := stored, configChange := true }
  | .report mac active hour => { s with day := dayStep mday s.day (.report mac active hour) }

/-- The members `filter` and `remain_time` of `handle_get_oaf_status` in
mode 1. -/
def dynamicStatus (config : AfTimeConfig) (s : AfStatus) : Int32 × Int32 :=
  (s.filter,
    if s.filter = 1 then config.denyTime - s.denyTime else config.allowTime - s.allowTime)

/-- The calls of the block that handles the flag. -/
def changeCalls (i : TickInput) (config : LoadedConfig) : List DayAct :=
  [.updateLanIp i.io i.ip i.mask, .loadConfig config, .updateDevSelectedFlag i.afUsers,
    .updateDynamicUsedTime i.minuteClock.now, .updateOafStatus i.io i.minuteClock,
    .updateSwitches i.io]

/-- The calls before the block. -/
def LoopState.earlyCalls (s : LoopState env) (i : TickInput) : List DayAct :=
  oafTimeoutHandler s.count s.day.daemon.time.timeMode { i with change := none }

theorem LoopState.calls_eq (s : LoopState env) (i : TickInput) :
    s.calls i = s.earlyCalls i ++ (s.change.map (changeCalls i)).getD [] := by
  unfold LoopState.calls LoopState.earlyCalls oafTimeoutHandler
  rw [List.append_nil]
  cases s.change <;> rfl

/-- The block on a stored configuration is `oafConfigChange`. -/
theorem run_changeCalls (mday : Nat → Nat) (s : DayState env) (i : TickInput) {u : UciConfig}
    {time : AfTimeConfig} {uciTime : UciTime} (hload : afLoadTime u.time = some (time, uciTime))
    (husers : i.afUsers = u.afUsers) :
    oafConfigChange i.io (i.ip, i.mask) i.minuteClock.now i.minuteClock u s.daemon s.kernel =
      some ({ u with time := uciTime },
        (run (dayStep mday) s (changeCalls i ⟨afLoadGlobalConfig u.global, time⟩)).daemon,
        (run (dayStep mday) s (changeCalls i ⟨afLoadGlobalConfig u.global, time⟩)).kernel) := by
  unfold oafConfigChange changeCalls
  rw [hload, husers]
  rfl

end OpenAppFilter.Daemon
