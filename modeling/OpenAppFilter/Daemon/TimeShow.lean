import OpenAppFilter.Daemon.TimeRead

/-!
# `get_app_filter_time` (`appfilter_ubus.c`)

What the settings page is shown of the section `appfilter.time`. The handler
parses the stored texts itself: the global weekdays with `strtok`, which cuts
the buffer up, and later a copy of that buffer for the periods that have no
weekdays of their own.

As in the loader, a text that does not fit its buffer is `none`. The used time
and the device list that mode 2 adds are not part of the configuration and are
left out.
-/

namespace OpenAppFilter.Daemon

open Base

/-- One entry of the reported `time_list`. -/
structure ShownPeriod where
  start : CStr
  stop : CStr
  weekdayList : List Int32
  deriving DecidableEq

/-- The reported configuration. -/
structure ShownTime where
  mode : Int32
  splitTime : Int32
  weekdayList : List Int32
  startTime : CStr
  endTime : CStr
  denyTime : Int32
  allowTime : Int32
  timeList : List ShownPeriod
  /-- in mode 2 only, Sunday to Saturday -/
  dailyTimeList : Option (List DailyLimitConfig)

/-- `global_weekdays`: read from a copy of the buffer that `strtok` has already
gone through. -/
def globalWeekdays (u : UciTime) : Fin 7 → Bool :=
  markDays (tokens ' ' (strtokRest ' ' (afUciGetValue u.days 128)))

/-- The numbers of the set weekdays. -/
def dayList (days : Fin 7 → Bool) : List Int32 :=
  ((List.finRange 7).filter days).map (fun i => Int32.ofNat i.val)

/-- The part of a token behind its weekdays: start and end are copied into 16
bytes each. The inner `none` is a token without `-`. -/
def showTimes (weekdayList : List Int32) (times : CStr) : Option (Option ShownPeriod) :=
  match splitAtChar '-' times with
  | some (start, stop) =>
      if start.length ≥ 16 ∨ stop.length ≥ 16 then none
      else some (some { start := start, stop := stop, weekdayList := weekdayList })
  | none => some none

/-- One token of the time list; the weekday part is copied into 64 bytes. -/
def showPeriod (global : Fin 7 → Bool) (p : CStr) : Option (Option ShownPeriod) :=
  match splitAtChar ';' p with
  | some (weekdays, times) =>
      if weekdays.length ≥ 64 then none
      else showTimes ((tokens ',' weekdays).map atoi) times
  | none => showTimes (dayList global) p

def showPeriods (global : Fin 7 → Bool) : List CStr → Option (List ShownPeriod)
  | [] => some []
  | p :: ps =>
      match showPeriod global p, showPeriods global ps with
      | some shown, some rest => some (shown.toList ++ rest)
      | _, _ => none

/-- One `daily_limit_<w>` text, as the handler reads it. -/
def showDailyLimit (s : CStr) : DailyLimitConfig :=
  if s = [] then {}
  else
    match splitAtChar ':' s with
    | some (_, rest) =>
        match splitAtChar ':' rest with
        | some (_, rest') => { enable := atoi s, amTime := atoi rest, pmTime := atoi rest' }
        | none => { enable := 1, amTime := atoi s, pmTime := atoi rest }
    | none => { enable := 1, amTime := atoi s }

/-- `handle_get_app_filter_time`; `loadedSplit` is the loaded `split_time`, which
replaces the stored one in mode 2. -/
def handleGetAppFilterTime (loadedSplit : Int32) (u : UciTime) : Option ShownTime :=
  let mode := afUciGetIntValue u.timeMode
  let timeStr := afUciGetListValue u.time
  if timeStr.length ≥ maxTimeListLen then none
  else
    (showPeriods (globalWeekdays u) (tokens ' ' timeStr)).map (fun periods =>
      { mode := mode
        splitTime := if mode = 2 then loadedSplit else afUciGetIntValue u.splitTime
        weekdayList := (tokens ' ' (afUciGetValue u.days 128)).map atoi
        startTime := afUciGetValue u.startTime 32
        endTime := afUciGetValue u.endTime 32
        denyTime := afUciGetIntValue u.denyTime
        allowTime := afUciGetIntValue u.allowTime
        timeList := periods
        dailyTimeList :=
          if mode = 2 then
            some (List.ofFn (fun w => showDailyLimit (afUciGetValue (u.dailyLimit w) 128)))
          else none })

/-! ## Token by token -/

/-- The entry shown for one token. -/
def shownPeriod (global : Fin 7 → Bool) (p : CStr) : Option ShownPeriod :=
  (showPeriod global p).getD none

theorem showPeriods_some {global : Fin 7 → Bool} {ps : List CStr} {shown : List ShownPeriod}
    (h : showPeriods global ps = some shown) : shown = ps.filterMap (shownPeriod global) := by
  induction ps generalizing shown with
  | nil =>
      obtain rfl := Option.some.inj h
      rfl
  | cons p ps ih =>
      unfold showPeriods at h
      split at h
      · rename_i one rest hone hrest
        obtain rfl := Option.some.inj h
        have hp : shownPeriod global p = one := by
          unfold shownPeriod
          rw [hone]
          rfl
        rw [List.filterMap_cons, hp, ← ih hrest]
        cases one <;> rfl
      · exact absurd h (by simp)

theorem showPeriods_isSome_iff (global : Fin 7 → Bool) (ps : List CStr) :
    (showPeriods global ps).isSome = true ↔ ∀ p ∈ ps, (showPeriod global p).isSome = true := by
  induction ps with
  | nil => simp [showPeriods]
  | cons p ps ih =>
      unfold showPeriods
      rw [List.forall_mem_cons, ← ih]
      cases showPeriod global p with
      | none => simp
      | some one =>
          cases showPeriods global ps with
          | none => simp
          | some rest => simp

end OpenAppFilter.Daemon
