import OpenAppFilter.Base.CText
import Mathlib.Data.List.Basic

/-!
# Stored time configuration (`main.c`, `appfilter_config.c`, `appfilter_ubus.c`)

The section `appfilter.time` as libuci keeps it, the loader of the daemon
(`afLoadTimeConfig`), the migration that writes a loaded configuration back
(`applyTimeConfigToUci`) and the ubus method that stores a new one
(`handleSetAppFilterTime`).

Conventions.

* An option that is set is read back as the string that was set; setting the
  empty string removes the option, as in libuci. A saved change is visible to
  every later read, committed or not.
* The code copies texts into fixed buffers and indexes fixed arrays without
  checks. A function that would write out of bounds returns `none`.
* `int days[7]` only ever holds 0 and 1 and is a predicate on weekdays.
-/

namespace OpenAppFilter.Daemon

open Base

/-! ## UCI -/

/-- The value of a UCI option. -/
inductive UciValue where
  | string (s : CStr)
  | list (l : List CStr)
  deriving DecidableEq

/-- The section `appfilter.time`; every option but `time` is a string. -/
structure UciTime where
  timeMode : Option CStr := none
  splitTime : Option CStr := none
  denyTime : Option CStr := none
  allowTime : Option CStr := none
  startTime : Option CStr := none
  endTime : Option CStr := none
  days : Option CStr := none
  time : Option UciValue := none
  dailyLimit : Fin 7 → Option CStr := fun _ => none

/-- `af_uci_get_int_value`. -/
def afUciGetIntValue : Option CStr → Int32
  | some s => atoi s
  | none => -1

/-- `af_uci_get_value` into a cleared buffer of `size` bytes. -/
def afUciGetValue (o : Option CStr) (size : Nat) : CStr := (o.getD []).take (size - 1)

/-- `af_uci_get_list_value` with a blank as delimiter: the elements of a list,
and nothing for a plain option. -/
def afUciGetListValue : Option UciValue → CStr
  | some (.list l) => (l.intersperse [' ']).flatten
  | _ => []

/-- `af_uci_set_value`. -/
def afUciSetValue (s : CStr) : Option CStr := if s = [] then none else some s

/-- `af_uci_set_value` builds `key=value` in 2048 bytes. -/
def fitsParam (key value : CStr) : Bool := key.length + 1 + value.length < 2048

/-- `af_uci_set_int_value`. -/
def afUciSetIntValue (n : Int32) : Option CStr := afUciSetValue (decimal n)

def maxParamListLen : Nat := 1024

/-- `af_uci_add_list` on `appfilter.time.time`, a key of 19 characters. -/
def afUciAddList (o : Option UciValue) (value : CStr) : Option UciValue :=
  if value.length + 19 ≥ maxParamListLen - 1 then o
  else
    match o with
    | some (.list l) => some (.list (l ++ [value]))
    | some (.string s) => some (.list [s, value])
    | none => some (.list [value])

/-! ## Configuration -/

/-- `af_time_t`. -/
structure AfTime where
  hour : Int32 := 0
  min : Int32 := 0
  deriving DecidableEq

/-- `time_config_t`. -/
structure TimePeriod where
  startTime : AfTime
  endTime : AfTime
  days : Fin 7 → Bool

/-- `daily_limit_config_t`. -/
structure DailyLimitConfig where
  enable : Int32 := 0
  amTime : Int32 := 0
  pmTime : Int32 := 0
  deriving DecidableEq

def maxTimeList : Nat := 64
def maxTimeListLen : Nat := 1024

/-- `af_time_config_t`; `timeList` holds the first `time_num` periods. -/
structure AfTimeConfig where
  timeMode : Int32
  splitTime : Int32
  denyTime : Int32
  allowTime : Int32
  segStart : AfTime
  segEnd : AfTime
  days : Fin 7 → Bool
  timeList : List TimePeriod
  dailyLimit : Fin 7 → DailyLimitConfig

/-! ## Loading -/

/-- A number as an index into an array of seven. -/
def dayIndex (n : Int32) : Option (Fin 7) :=
  if h : 0 ≤ n.toInt ∧ n.toInt < 7 then some ⟨n.toInt.toNat, by omega⟩ else none

/-- Set one entry of a `days` array. -/
def setDay (d : Fin 7 → Bool) (i : Fin 7) : Fin 7 → Bool := fun j => decide (j = i) || d j

/-- The loop over the global weekday list; the index is not checked. -/
def loadDays : List CStr → (Fin 7 → Bool) → Option (Fin 7 → Bool)
  | [], d => some d
  | p :: ps, d =>
      match dayIndex (atoi p) with
      | some i => loadDays ps (setDay d i)
      | none => none

/-- `sscanf("%d:%d")` into a cleared `af_time_t`. -/
def scanTime (s : CStr) : AfTime :=
  match scanInts s [':'] with
  | [h, m] => { hour := h, min := m }
  | [h] => { hour := h }
  | _ => {}

/-- The weekdays of one period: numbers out of range are skipped. -/
def periodDays (s : CStr) : Fin 7 → Bool :=
  (tokens ',' s).foldl (fun d wd =>
    match dayIndex (atoi wd) with
    | some i => setDay d i
    | none => d) (fun _ => false)

/-- `sscanf("%d:%d-%d:%d")`: the period, when all four numbers are there. -/
def scanPeriod (s : CStr) (days : Fin 7 → Bool) : Option TimePeriod :=
  match scanInts s [':', '-', ':'] with
  | [h, m, h', m'] => some { startTime := ⟨h, m⟩, endTime := ⟨h', m'⟩, days := days }
  | _ => none

/-- One token of the time list: whether it is in the old format, and the period
when it parses. The weekday part is copied into 64 bytes. -/
def loadPeriod (days : Fin 7 → Bool) (p : CStr) : Option (Bool × Option TimePeriod) :=
  match splitAtChar ';' p with
  | some (weekdays, timePart) =>
      if weekdays.length ≥ 64 then none
      else some (false, scanPeriod timePart (periodDays weekdays))
  | none => some (true, scanPeriod p days)

/-- The loop over the time list, with the periods loaded so far and
`old_ver_config`. Each token writes to `time_list[time_num]`, also one that
does not parse. -/
def loadPeriods (days : Fin 7 → Bool) :
    List CStr → List TimePeriod → Bool → Option (List TimePeriod × Bool)
  | [], acc, old => some (acc, old)
  | p :: ps, acc, old =>
      if acc.length ≥ maxTimeList then none
      else
        match loadPeriod days p with
        | some (o, period) => loadPeriods days ps (acc ++ period.toList) (old || o)
        | none => none

/-- One `daily_limit_<w>` text: `enable:am:pm`, the older `am:pm`, or the
oldest `am`. -/
def loadDailyLimit (s : CStr) : DailyLimitConfig :=
  if s = [] then {}
  else
    match splitAtChar ':' s with
    | some (_, rest) =>
        match splitAtChar ':' rest with
        | some (_, rest') => { enable := atoi s, amTime := atoi rest, pmTime := atoi rest' }
        | none => { enable := 1, amTime := atoi s, pmTime := atoi rest }
    | none => { enable := 1, amTime := atoi s }

/-- `af_load_time_config`: the configuration and `old_ver_config`. Without any
token in the time list the rest of the function is skipped. -/
def afLoadTimeConfig (u : UciTime) : Option (AfTimeConfig × Int) :=
  match loadDays (tokens ' ' (afUciGetValue u.days 128)) (fun _ => false) with
  | none => none
  | some days =>
      let config : AfTimeConfig :=
        { timeMode := afUciGetIntValue u.timeMode
          splitTime := afUciGetIntValue u.splitTime
          denyTime := afUciGetIntValue u.denyTime
          allowTime := afUciGetIntValue u.allowTime
          segStart := scanTime (afUciGetValue u.startTime 128)
          segEnd := scanTime (afUciGetValue u.endTime 128)
          days := days
          timeList := []
          dailyLimit := fun _ => {} }
      let timeListBuf := afUciGetListValue u.time
      if timeListBuf.length ≥ maxTimeListLen then none
      else if tokens ' ' timeListBuf = [] then some (config, 0)
      else
        match loadPeriods days (tokens ' ' timeListBuf) [] false with
        | none => none
        | some (periods, old) =>
            some ({ config with
              timeList := periods
              dailyLimit := fun w =>
                if config.timeMode = 2 then loadDailyLimit (afUciGetValue (u.dailyLimit w) 128)
                else {} }, if old then 1 else 0)

/-- What a loaded configuration holds: both modes as they read, and the stored
limits in mode 2, unless the time list is empty. -/
theorem afLoadTimeConfig_some {u : UciTime} {c : AfTimeConfig} {old : Int}
    (h : afLoadTimeConfig u = some (c, old)) :
    c.timeMode = afUciGetIntValue u.timeMode ∧ c.splitTime = afUciGetIntValue u.splitTime ∧
      ∀ w, c.dailyLimit w =
        if tokens ' ' (afUciGetListValue u.time) = [] ∨ afUciGetIntValue u.timeMode ≠ 2 then {}
        else loadDailyLimit (afUciGetValue (u.dailyLimit w) 128) := by
  unfold afLoadTimeConfig at h
  split at h
  · exact absurd h (by simp)
  · dsimp only at h
    split at h
    · exact absurd h (by simp)
    · split at h
      · rename_i hempty
        obtain ⟨rfl, -⟩ := Prod.mk.inj (Option.some.inj h)
        exact ⟨rfl, rfl, fun w => (if_pos (Or.inl hempty)).symm⟩
      · rename_i hempty
        split at h
        · exact absurd h (by simp)
        · obtain ⟨rfl, -⟩ := Prod.mk.inj (Option.some.inj h)
          refine ⟨rfl, rfl, ?_⟩
          intro w
          by_cases hmode : afUciGetIntValue u.timeMode = 2
          · rw [if_neg (not_or.mpr ⟨hempty, not_not.mpr hmode⟩)]
            exact if_pos hmode
          · rw [if_pos (Or.inr hmode)]
            exact if_neg hmode

/-! ## Writing back -/

/-- The numbers of the set weekdays, joined by `sep`. -/
def dayNumbers (days : Fin 7 → Bool) (sep : CStr) : CStr :=
  ((((List.finRange 7).filter days).map (fun i => Nat.toDigits 10 i.val)).intersperse sep).flatten

/-- `printf("%02d")`. -/
def decimal02 (n : Int32) : CStr :=
  if 0 ≤ n.toInt ∧ n.toInt < 10 then '0' :: decimal n else decimal n

/-- `snprintf(buf, 16, "%02d:%02d")`. -/
def printTime (t : AfTime) : CStr := (decimal02 t.hour ++ ':' :: decimal02 t.min).take 15

/-- `apply_time_config_to_uci`. -/
def applyTimeConfigToUci (u : UciTime) (c : AfTimeConfig) : UciTime :=
  let u := { u with
    timeMode := afUciSetIntValue c.timeMode
    days := afUciSetValue (dayNumbers c.days [' ']) }
  let u :=
    if c.timeMode = 0 then
      { u with time := c.timeList.foldl (fun o p =>
          afUciAddList o ((dayNumbers p.days [','] ++ ';' :: printTime p.startTime ++
            '-' :: printTime p.endTime).take 255)) none }
    else
      { u with
        denyTime := afUciSetIntValue c.denyTime
        allowTime := afUciSetIntValue c.allowTime
        startTime := afUciSetValue (printTime c.segStart)
        endTime := afUciSetValue (printTime c.segEnd) }
  { u with splitTime := afUciSetIntValue c.splitTime }

/-- `af_load_config`, time part: load, and migrate an old configuration. -/
def afLoadTime (u : UciTime) : Option (AfTimeConfig × UciTime) :=
  match afLoadTimeConfig u with
  | none => none
  | some (c, old) => some (c, if old = 1 then applyTimeConfigToUci u c else u)

/-! ## `set_app_filter_time` -/

/-- One entry of `daily_time_list`. -/
structure DayEntry where
  enable : Option Int32
  amTime : Option Int32
  pmTime : Option Int32

/-- One entry of `time_list`. -/
structure PeriodEntry where
  start : Option CStr
  stop : Option CStr
  weekdayList : Option (List Int32) := none

/-- The request of `set_app_filter_time`, with the numbers as
`json_object_get_int` returns them. -/
structure SetTimeReq where
  mode : Option Int32
  weekdayList : Option (List Int32) := none
  timeList : Option (List PeriodEntry) := none
  denyTime : Option Int32 := none
  allowTime : Option Int32 := none
  startTime : Option CStr := none
  endTime : Option CStr := none
  dailyTimeList : Option (List DayEntry) := none
  splitTime : Option Int32 := none

/-- Numbers joined by `sep` in a buffer of `size` bytes; each is printed into 8
bytes first. -/
def joinNumbers (ns : List Int32) (sep : CStr) (size : Nat) : Option CStr :=
  let s := ((ns.map (fun n => (decimal n).take 7)).intersperse sep).flatten
  if s.length ≥ size then none else some s

/-- The text `handle_set_app_filter_time` stores for one period; the buffer has
256 bytes. The outer `none` is an overflow, the inner one a missing field. -/
def periodText (p : PeriodEntry) : Option (Option CStr) :=
  match p.start, p.stop with
  | some start, some stop =>
      let fits (s : CStr) : Option (Option CStr) :=
        if s.length ≥ 256 then none else some (some s)
      match p.weekdayList with
      | some (n :: ns) =>
          match joinNumbers (n :: ns) [','] 64 with
          | some wds => fits (wds ++ ';' :: start ++ '-' :: stop)
          | none => none
      | _ => fits (start ++ '-' :: stop)
  | _, _ => some none

/-- The loop over `time_list`; `false` when it stops at an entry without start
or end. -/
def storePeriods : List PeriodEntry → Option UciValue → Option (Option UciValue × Bool)
  | [], o => some (o, true)
  | p :: ps, o =>
      match periodText p with
      | none => none
      | some none => some (o, false)
      | some (some s) => storePeriods ps (afUciAddList o s)

/-- The text stored for one weekday: `enable:am:pm` in 32 bytes. -/
def limitText (enable am pm : Int32) : CStr :=
  (decimal enable ++ ':' :: decimal am ++ ':' :: decimal pm).take 31

/-- What the two loops of mode 2 leave in `daily_limit_<w>`: all seven options
are deleted, then those with a complete entry are set. -/
def storeDailyLimits (entries : List DayEntry) (w : Fin 7) : Option CStr :=
  match entries[w.val]? with
  | some ⟨some enable, some am, some pm⟩ => afUciSetValue (limitText enable am pm)
  | _ => none

/-- `handle_set_app_filter_time`: the stored section afterwards, and whether the
change was committed and announced to the daemon. -/
def handleSetAppFilterTime (u : UciTime) (req : SetTimeReq) : Option (UciTime × Bool) :=
  match req.mode with
  | none => some (u, false)
  | some mode =>
      let u := { u with timeMode := afUciSetIntValue mode }
      let withDays : Option UciTime :=
        match req.weekdayList with
        | some ns =>
            if mode = 0 ∨ mode = 1 then
              (joinNumbers ns [' '] 128).map (fun s => { u with days := afUciSetValue s })
            else some u
        | none => some u
      match withDays with
      | none => none
      | some u =>
          if mode = 0 then
            match req.timeList with
            | none => some (u, false)
            | some ps =>
                (storePeriods ps none).map (fun r => ({ u with time := r.1 }, r.2))
          else if mode = 1 then
            match req.denyTime, req.allowTime, req.startTime, req.endTime with
            | some deny, some allow, some start, some stop =>
                if !fitsParam "appfilter.time.start_time".toList start ||
                    !fitsParam "appfilter.time.end_time".toList stop then none
                else some ({ u with
                  denyTime := afUciSetIntValue deny
                  allowTime := afUciSetIntValue allow
                  startTime := afUciSetValue start
                  endTime := afUciSetValue stop }, true)
            | _, _, _, _ => some (u, false)
          else if mode = 2 then
            match req.dailyTimeList with
            | none => some (u, false)
            | some entries =>
                if entries.length ≠ 7 then some (u, false)
                else
                  some ({ u with
                    dailyLimit := storeDailyLimits entries
                    splitTime :=
                      match req.splitTime with
                      | some n => afUciSetIntValue n
                      | none => u.splitTime }, true)
          else some (u, true)

end OpenAppFilter.Daemon
