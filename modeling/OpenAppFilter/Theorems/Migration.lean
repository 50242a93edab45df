import OpenAppFilter.Daemon.Tick
import OpenAppFilter.Daemon.TimeText
import OpenAppFilter.Theorems.RejectedTime

/-!
# Migrating an old schedule

An entry of the time list without weekdays of its own is in the format of older
versions. When the loader meets one, `apply_time_config_to_uci` prints the loaded
configuration back: every period gets the weekdays it was loaded with, and
entries that could not be parsed are gone. Loading the result gives the same
configuration, now with nothing left to migrate.
-/

namespace OpenAppFilter.Theorems

open Base Daemon

/-! ## What is printed for a period -/

/-- Hours from 0 to 23, minutes from 0 to 59. -/
structure OnTheClock (t : AfTime) : Prop where
  hour : 0 ≤ t.hour.toInt ∧ t.hour.toInt < 24
  min : 0 ≤ t.min.toInt ∧ t.min.toInt < 60

theorem decimal02_eq {n : Nat} (hn : n < 60) : decimal02 (Int32.ofNat n) = twoDigits n := by
  revert n
  decide

theorem ofNat_toInt_toNat {n : Int32} (h : 0 ≤ n.toInt) : Int32.ofNat n.toInt.toNat = n := by
  refine Int32.toInt_inj.mp ?_
  have hlt := n.toInt_lt
  rw [Int32.toInt_ofNat_of_lt (by omega)]
  omega

/-- A time on the clock is printed as `HH:MM`. -/
theorem printTime_eq {t : AfTime} (h : OnTheClock t) :
    ∃ k : Fin 24 × Fin 60, printTime t = clockText k ∧ clockTime k = t := by
  obtain ⟨⟨hlo, hhi⟩, mlo, mhi⟩ := h
  refine ⟨(⟨t.hour.toInt.toNat, by omega⟩, ⟨t.min.toInt.toNat, by omega⟩), ?_, ?_⟩
  · have hhour : decimal02 t.hour = twoDigits t.hour.toInt.toNat := by
      have hprint := @decimal02_eq t.hour.toInt.toNat (by omega)
      rwa [ofNat_toInt_toNat hlo] at hprint
    have hmin : decimal02 t.min = twoDigits t.min.toInt.toNat := by
      have hprint := @decimal02_eq t.min.toInt.toNat (by omega)
      rwa [ofNat_toInt_toNat mlo] at hprint
    unfold printTime clockText
    rw [hhour, hmin, List.take_of_length_le (by simp [twoDigits])]
  · unfold clockTime
    dsimp only
    rw [ofNat_toInt_toNat hlo, ofNat_toInt_toNat mlo]

/-- The text `apply_time_config_to_uci` adds for a period. -/
def rewrittenText (p : TimePeriod) : CStr :=
  (dayNumbers p.days [','] ++ ';' :: printTime p.startTime ++ '-' :: printTime p.endTime).take 255

/-- It is the text of a period with weekdays, and that one is loaded as `p`. -/
theorem rewrittenText_eq {p : TimePeriod} (hs : OnTheClock p.startTime)
    (he : OnTheClock p.endTime) : ∃ w : WeekPeriod, rewrittenText p = w.line ∧ w.loaded = p := by
  obtain ⟨a, hprint, ha⟩ := printTime_eq hs
  obtain ⟨b, hprint', hb⟩ := printTime_eq he
  let w : WeekPeriod :=
    { days := (List.finRange 7).filter p.days
      start := a
      stop := b
      days_nodup := (List.nodup_finRange 7).filter _ }
  refine ⟨w, ?_, ?_⟩
  · have hline : dayNumbers p.days [','] ++ ';' :: printTime p.startTime ++
        '-' :: printTime p.endTime = w.line := by
      rw [hprint, hprint']
      unfold WeekPeriod.line
      simp
      rfl
    unfold rewrittenText
    rw [hline, List.take_of_length_le]
    have hlen := w.days_length_le
    rw [w.line_length]
    omega
  · unfold WeekPeriod.loaded
    have hdays : (fun i => decide (i ∈ w.days)) = p.days := by
      funext i
      rw [Bool.eq_iff_iff]
      simp [w]
    rw [hdays]
    show ({ startTime := clockTime a, endTime := clockTime b, days := p.days } : TimePeriod) = p
    rw [ha, hb]

/-! ## The rewritten section -/

theorem listValue_foldl (texts : List CStr) : ∀ {o : Option UciValue} {l : List CStr},
    ListValue o l → (∀ t ∈ texts, t.length < 256) →
      ListValue (texts.foldl afUciAddList o) (l ++ texts) := by
  induction texts with
  | nil =>
      intro o l h _
      rwa [List.append_nil]
  | cons t texts ih =>
      intro o l h hshort
      have hrest := ih (h.add (hshort t List.mem_cons_self))
        (fun t' ht' => hshort t' (List.mem_cons_of_mem _ ht'))
      rwa [List.append_assoc] at hrest

/-- The rewritten time list, as the loader gets it. -/
theorem rewritten_list (u : UciTime) {c : AfTimeConfig} (hmode : c.timeMode = 0) :
    afUciGetListValue (applyTimeConfigToUci u c).time =
      ((c.timeList.map rewrittenText).intersperse [' ']).flatten := by
  have hvalue : ListValue ((c.timeList.map rewrittenText).foldl afUciAddList none)
      ([] ++ c.timeList.map rewrittenText) := by
    refine listValue_foldl _ (Or.inl ⟨rfl, rfl⟩) ?_
    intro t ht
    obtain ⟨p, -, rfl⟩ := List.mem_map.mp ht
    unfold rewrittenText
    rw [List.length_take]
    omega
  have htime : (applyTimeConfigToUci u c).time =
      (c.timeList.map rewrittenText).foldl afUciAddList none := by
    unfold applyTimeConfigToUci
    dsimp only
    rw [if_pos hmode, List.foldl_map]
    rfl
  rw [htime, hvalue.text, List.nil_append]

/-- The rewritten global weekdays. -/
theorem rewritten_days (u : UciTime) {c : AfTimeConfig} (hmode : c.timeMode = 0) :
    loadDays (dayTokens (applyTimeConfigToUci u c)) (fun _ => false) = some c.days := by
  have hdays : (applyTimeConfigToUci u c).days =
      afUciSetValue (weekdayText ((List.finRange 7).filter c.days) [' ']) := by
    unfold applyTimeConfigToUci
    dsimp only
    rw [if_pos hmode]
    rfl
  have hshort : (weekdayText ((List.finRange 7).filter c.days) [' ']).length ≤ 127 := by
    have hlen := List.length_filter_le c.days (List.finRange 7)
    rw [List.length_finRange] at hlen
    rw [weekdayText_length]
    omega
  unfold dayTokens
  rw [hdays, afUciGetValue_set hshort]
  exact loadDays_weekdayText c.days

/-- The rewritten periods are printed periods, loaded as what they were printed
from. -/
theorem rewritten_periods {ps : List TimePeriod}
    (hclock : ∀ p ∈ ps, OnTheClock p.startTime ∧ OnTheClock p.endTime) :
    ∃ ws : List WeekPeriod,
      ps.map rewrittenText = ws.map WeekPeriod.line ∧ ws.map WeekPeriod.loaded = ps := by
  induction ps with
  | nil => exact ⟨[], rfl, rfl⟩
  | cons p ps ih =>
      obtain ⟨ws, hlines, hloaded⟩ := ih (fun q hq => hclock q (List.mem_cons_of_mem _ hq))
      obtain ⟨hs, he⟩ := hclock p List.mem_cons_self
      obtain ⟨w, hline, hw⟩ := rewrittenText_eq hs he
      refine ⟨w :: ws, ?_, ?_⟩
      · rw [List.map_cons, List.map_cons, hline, hlines]
      · rw [List.map_cons, hw, hloaded]

/-- What the migration leaves of the section. -/
theorem applyTimeConfigToUci_eq (u : UciTime) {c : AfTimeConfig} (hmode : c.timeMode = 0) :
    applyTimeConfigToUci u c = { u with
      timeMode := afUciSetIntValue c.timeMode
      splitTime := afUciSetIntValue c.splitTime
      days := (applyTimeConfigToUci u c).days
      time := (applyTimeConfigToUci u c).time } := by
  unfold applyTimeConfigToUci
  dsimp only
  rw [if_pos hmode]

/-- The rewritten schedule is the loaded one, and nothing in it is old. -/
theorem rewritten_schedule (u : UciTime) {c : AfTimeConfig} (hmode : c.timeMode = 0)
    (hnum : c.timeList.length ≤ maxTimeList)
    (hclock : ∀ p ∈ c.timeList, OnTheClock p.startTime ∧ OnTheClock p.endTime)
    (hfit : (afUciGetListValue (applyTimeConfigToUci u c).time).length < maxTimeListLen) :
    readSchedule c.days (afUciGetListValue (applyTimeConfigToUci u c).time) =
      some (c.timeList, false) := by
  obtain ⟨ws, hlines, hloaded⟩ := rewritten_periods hclock
  have hws : ws.length ≤ maxTimeList := by
    rwa [← hloaded, List.length_map] at hnum
  rw [rewritten_list u hmode, hlines] at hfit ⊢
  rw [readSchedule_lines c.days hws, if_neg (by omega), hloaded]

/-- In mode 0 no limit is read, before and after. -/
theorem rewritten_limits {u : UciTime} {c : AfTimeConfig} (hmode : c.timeMode = 0)
    (hread : c.timeMode = afUciGetIntValue u.timeMode) :
    readLimits (applyTimeConfigToUci u c) = readLimits u := by
  have hzero : ∀ v : UciTime, afUciGetIntValue v.timeMode = 0 → readLimits v = fun _ => {} := by
    intro v hv
    funext w
    unfold readLimits
    rw [hv]
    exact if_pos (Or.inr (by decide))
  rw [hzero u (hread ▸ hmode), hzero]
  rw [applyTimeConfigToUci_eq u hmode]
  dsimp only
  rw [afUciGetIntValue_set, hmode]

/-- **Migration keeps the schedule.** When a manual configuration in the old
format is loaded and printed back, and the printed list fits the loader's buffer,
the next load gives the very same configuration (the same weekdays and periods,
so the same verdict at every minute) and reports nothing to migrate. -/
theorem migration_keeps_schedule (u : UciTime) (c : AfTimeConfig)
    (hload : afLoadTimeConfig u = some (c, 1)) (hmode : c.timeMode = 0)
    (hclock : ∀ p ∈ c.timeList, OnTheClock p.startTime ∧ OnTheClock p.endTime)
    (hfit : (afUciGetListValue (applyTimeConfigToUci u c).time).length < maxTimeListLen) :
    afLoadTimeConfig (applyTimeConfigToUci u c) = some (c, 0) := by
  obtain ⟨-, ⟨old, hread, -⟩, htime, hlimit⟩ := afLoadTimeConfig_parts hload
  have hnum : c.timeList.length ≤ maxTimeList := by
    unfold readSchedule at hread
    split at hread
    · exact absurd hread (by simp)
    · exact loadPeriods_length hread (Nat.zero_le _)
  rw [afLoadTimeConfig_eq] at hload
  obtain ⟨days, -, hload⟩ := Option.bind_eq_some_iff.mp hload
  obtain ⟨r, -, hload⟩ := Option.map_eq_some_iff.mp hload
  have hc := (Prod.mk.inj hload).1
  rw [afLoadTimeConfig_eq, rewritten_days u hmode, Option.bind_some,
    rewritten_schedule u hmode hnum hclock hfit, Option.map_some, rewritten_limits hmode htime,
    ← hlimit, applyTimeConfigToUci_eq u hmode]
  refine congrArg some (Prod.ext ?_ rfl)
  dsimp only
  rw [afUciGetIntValue_set, afUciGetIntValue_set]
  -- the other fields are not written in mode 0
  obtain ⟨mode, split, deny, allow, segStart, segEnd, cdays, list, limit⟩ := c
  rw [AfTimeConfig.mk.injEq] at hc
  obtain ⟨-, -, rfl, rfl, rfl, rfl, -⟩ := hc
  rfl

/-- Two old entries, one of the new format and one that says nothing, on Monday
and Tuesday. -/
def oldTime : UciTime :=
  { shippedTime with
    days := some "1 2".toList
    time := some (.list ["08:00-12:30".toList, "3,5;14:00-15:45".toList, "lunch".toList,
      "20:15-21:00".toList]) }

theorem oldTime_loaded : ∃ c, afLoadTimeConfig oldTime = some (c, 1) ∧ c.timeMode = 0 ∧
    c.timeList.map (fun p => (p.startTime, p.endTime)) =
      [(⟨8, 0⟩, ⟨12, 30⟩), (⟨14, 0⟩, ⟨15, 45⟩), (⟨20, 15⟩, ⟨21, 0⟩)] ∧
    afUciGetListValue (applyTimeConfigToUci oldTime c).time =
      "1,2;08:00-12:30 3,5;14:00-15:45 1,2;20:15-21:00".toList := by
  have hfacts : (afLoadTimeConfig oldTime).map (fun r => (r.2, r.1.timeMode,
      r.1.timeList.map (fun p => (p.startTime, p.endTime)),
      afUciGetListValue (applyTimeConfigToUci oldTime r.1).time)) =
      some (1, 0, [(⟨8, 0⟩, ⟨12, 30⟩), (⟨14, 0⟩, ⟨15, 45⟩), (⟨20, 15⟩, ⟨21, 0⟩)],
        "1,2;08:00-12:30 3,5;14:00-15:45 1,2;20:15-21:00".toList) := by
    decide +kernel
  obtain ⟨⟨c, old⟩, hload, hrest⟩ := Option.map_eq_some_iff.mp hfacts
  simp only [Prod.mk.injEq] at hrest
  obtain ⟨rfl, hmode, hlist, htext⟩ := hrest
  exact ⟨c, hload, hmode, hlist, htext⟩

/-- The mixture is migrated. -/
theorem migration_keeps_old_time :
    ∃ c, afLoadTimeConfig oldTime = some (c, 1) ∧ c.timeList.length = 3 ∧
      afLoadTimeConfig (applyTimeConfigToUci oldTime c) = some (c, 0) := by
  obtain ⟨c, hload, hmode, hlist, htext⟩ := oldTime_loaded
  have hclock : ∀ p ∈ c.timeList, OnTheClock p.startTime ∧ OnTheClock p.endTime := by
    intro p hp
    have hmem := List.mem_map_of_mem (f := fun p => (p.startTime, p.endTime)) hp
    rw [hlist] at hmem
    simp only [List.mem_cons, Prod.mk.injEq, List.not_mem_nil, or_false] at hmem
    rcases hmem with ⟨hs, he⟩ | ⟨hs, he⟩ | ⟨hs, he⟩
    · rw [hs, he]
      exact ⟨⟨by decide, by decide⟩, by decide, by decide⟩
    · rw [hs, he]
      exact ⟨⟨by decide, by decide⟩, by decide, by decide⟩
    · rw [hs, he]
      exact ⟨⟨by decide, by decide⟩, by decide, by decide⟩
  refine ⟨c, hload, ?_, ?_⟩
  · rw [← List.length_map (f := fun p => (p.startTime, p.endTime)), hlist]
    rfl
  · refine migration_keeps_schedule oldTime c hload hmode hclock ?_
    rw [htext]
    decide

end OpenAppFilter.Theorems
