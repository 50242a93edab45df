import OpenAppFilter.Daemon.TimeShow
import OpenAppFilter.Theorems.DailyLimit
import Mathlib.Data.List.OfFn

/-!
# The shown schedule and the enforced one

`handle_get_app_filter_time` and `af_load_time_config` parse the same stored
texts with two hand-written parsers. On a well-formed entry they read the same
start and end, and the same weekdays when the entry has its own. For an entry
without weekdays the loader takes the global ones, the handler only the first
of them: its `strtok` over the global list has cut the buffer behind the first
token before the copy is made. And in mode 2 the loader does not get to the
limits when the time list is empty, while the handler shows them.
-/

namespace OpenAppFilter.Theorems

open Base Daemon

/-! ## Well-formed entries -/

/-- One or two digits. -/
def isNumber (s : CStr) : Bool := !s.isEmpty && decide (s.length ≤ 2) && s.all Char.isDigit

/-- A time of day: `H:M`. -/
def isClock (s : CStr) : Bool :=
  match splitAtChar ':' s with
  | some (h, m) => isNumber h && isNumber m
  | none => false

/-- The weekdays an entry names are weekdays. -/
def properDays (p : CStr) : Bool :=
  match splitAtChar ';' p with
  | some (weekdays, _) => (tokens ',' weekdays).all (fun t => (dayIndex (atoi t)).isSome)
  | none => true

/-- A well-formed entry of the time list: `H:M-H:M`, with or without weekdays in
front. -/
def properEntry (p : CStr) : Bool :=
  (match splitAtChar '-' (timePart p) with
    | some (start, stop) => isClock start && isClock stop
    | none => false) && properDays p

theorem splitAtChar_some {c : Char} {s a b : CStr} (h : splitAtChar c s = some (a, b)) :
    s = a ++ c :: b := by
  induction s generalizing a with
  | nil => exact absurd h (by simp [splitAtChar])
  | cons d s ih =>
      unfold splitAtChar at h
      by_cases hd : d = c
      · rw [if_pos hd] at h
        obtain ⟨rfl, rfl⟩ := Prod.mk.inj (Option.some.inj h)
        rw [hd]
        rfl
      · rw [if_neg hd] at h
        obtain ⟨r, hr, heq⟩ := Option.map_eq_some_iff.mp h
        obtain ⟨rfl, rfl⟩ := Prod.mk.inj heq
        rw [ih (a := r.1) hr]
        rfl

/-- The parts of a time of day. -/
theorem isClock_parts {s : CStr} (h : isClock s = true) :
    ∃ hh mm, s = hh ++ ':' :: mm ∧ DigitRun hh ∧ DigitRun mm ∧ s.length ≤ 5 := by
  have hnum : ∀ t, isNumber t = true → DigitRun t ∧ t.length ≤ 2 := by
    intro t ht
    simp only [isNumber, Bool.and_eq_true, decide_eq_true_eq, List.all_eq_true,
      Bool.not_eq_true', List.isEmpty_eq_false_iff] at ht
    exact ⟨⟨ht.1.1, ht.2⟩, ht.1.2⟩
  unfold isClock at h
  split at h
  · rename_i hh mm hsplit
    rw [Bool.and_eq_true] at h
    obtain ⟨hh', hlen⟩ := hnum hh h.1
    obtain ⟨mm', hlen'⟩ := hnum mm h.2
    have hs := splitAtChar_some hsplit
    refine ⟨hh, mm, hs, hh', mm', ?_⟩
    rw [hs, List.length_append, List.length_cons]
    omega
  · exact absurd h Bool.false_ne_true

/-- `sscanf` over a whole period reads what it reads over start and end. -/
theorem scanPeriod_clocks {start stop : CStr} (hs : isClock start = true)
    (he : isClock stop = true) (days : Fin 7 → Bool) :
    scanPeriod (start ++ '-' :: stop) days =
      some { startTime := scanTime start, endTime := scanTime stop, days := days } := by
  obtain ⟨h, m, rfl, hrun, mrun, -⟩ := isClock_parts hs
  obtain ⟨h', m', rfl, hrun', mrun', -⟩ := isClock_parts he
  rw [scanPeriod_runs hrun mrun hrun' mrun', scanTime_runs hrun mrun, scanTime_runs hrun' mrun']

/-- What both parsers find in a well-formed entry. -/
theorem properEntry_parts {p : CStr} (h : properEntry p = true) :
    ∃ start stop, splitAtChar '-' (timePart p) = some (start, stop) ∧
      start.length < 16 ∧ stop.length < 16 ∧
      (∀ days, scanPeriod (timePart p) days =
        some { startTime := scanTime start, endTime := scanTime stop, days := days }) ∧
      properDays p = true := by
  unfold properEntry at h
  rw [Bool.and_eq_true] at h
  obtain ⟨htimes, hdays⟩ := h
  split at htimes
  · rename_i start stop hsplit
    rw [Bool.and_eq_true] at htimes
    obtain ⟨_, _, -, -, -, hlen⟩ := isClock_parts htimes.1
    obtain ⟨_, _, -, -, -, hlen'⟩ := isClock_parts htimes.2
    refine ⟨start, stop, hsplit, by omega, by omega, ?_, hdays⟩
    intro days
    rw [splitAtChar_some hsplit]
    exact scanPeriod_clocks htimes.1 htimes.2 days
  · exact absurd htimes Bool.false_ne_true

/-! ## Agreement on one entry -/

/-- An entry is shown as it is loaded: start, end and the set of weekdays. -/
structure PeriodAgrees (shown : ShownPeriod) (loaded : TimePeriod) : Prop where
  start : scanTime shown.start = loaded.startTime
  stop : scanTime shown.stop = loaded.endTime
  days : ∀ n, n ∈ shown.weekdayList ↔ ∃ i, loaded.days i = true ∧ n.toInt = (i.val : Int)

theorem mem_dayList {days : Fin 7 → Bool} {n : Int32} :
    n ∈ dayList days ↔ ∃ i, days i = true ∧ n.toInt = (i.val : Int) := by
  have hval : ∀ i : Fin 7, (Int32.ofNat i.val).toInt = (i.val : Int) := by decide
  unfold dayList
  simp only [List.mem_map, List.mem_filter, List.mem_finRange, true_and]
  constructor
  · rintro ⟨i, hi, rfl⟩
    exact ⟨i, hi, hval i⟩
  · rintro ⟨i, hi, hn⟩
    exact ⟨i, hi, Int32.toInt_inj.mp ((hval i).trans hn.symm)⟩

/-- Weekdays of its own are shown as they are loaded. -/
theorem ownDays_agree {weekdays : CStr}
    (hall : (tokens ',' weekdays).all (fun t => (dayIndex (atoi t)).isSome) = true) (n : Int32) :
    n ∈ (tokens ',' weekdays).map atoi ↔
      ∃ i, periodDays weekdays i = true ∧ n.toInt = (i.val : Int) := by
  rw [periodDays_eq]
  simp only [markDays_iff, List.mem_map]
  constructor
  · rintro ⟨t, ht, rfl⟩
    obtain ⟨i, hi⟩ := Option.isSome_iff_exists.mp (List.all_eq_true.mp hall t ht)
    exact ⟨i, ⟨t, ht, hi⟩, dayIndex_eq_some_iff.mp hi⟩
  · rintro ⟨i, ⟨t, ht, hi⟩, hn⟩
    refine ⟨t, ht, ?_⟩
    exact Int32.toInt_inj.mp ((dayIndex_eq_some_iff.mp hi).trans hn.symm)

/-- Two lists of weekday numbers show the same set iff they are the same
predicate. -/
theorem dayList_agree_iff {global days : Fin 7 → Bool} :
    (∀ n, n ∈ dayList global ↔ ∃ i, days i = true ∧ n.toInt = (i.val : Int)) ↔
      ∀ i, global i = days i := by
  have hval : ∀ i : Fin 7, (Int32.ofNat i.val).toInt = (i.val : Int) := by decide
  constructor
  · intro h i
    have hi := h (Int32.ofNat i.val)
    rw [mem_dayList, hval] at hi
    have hone : ∀ d : Fin 7 → Bool, (∃ j, d j = true ∧ (i.val : Int) = (j.val : Int)) ↔
        d i = true := by
      intro d
      constructor
      · rintro ⟨j, hj, heq⟩
        have hij : i = j := Fin.ext (by omega)
        rw [hij]
        exact hj
      · intro hd
        exact ⟨i, hd, rfl⟩
    rw [hone, hone] at hi
    exact Bool.eq_iff_iff.mpr hi
  · intro h n
    rw [mem_dayList]
    simp only [h]

/-- The weekday part of every entry fits its buffer in both parsers. -/
def WeekdaysFit (p : CStr) : Prop :=
  ∀ weekdays rest, splitAtChar ';' p = some (weekdays, rest) → weekdays.length < 64

/-- A well-formed entry is shown as it is loaded iff it has weekdays of its own
or the global weekdays of the two parsers are the same. -/
theorem entry_agrees_iff {p : CStr} (hp : properEntry p = true) (hfit : WeekdaysFit p)
    (global days : Fin 7 → Bool) :
    (∃ shown loaded, shownPeriod global p = some shown ∧ loadedPeriod days p = some loaded ∧
        PeriodAgrees shown loaded) ↔
      (splitAtChar ';' p).isSome = true ∨ ∀ i, global i = days i := by
  obtain ⟨start, stop, htimes, hlen, hlen', hscan, hdays⟩ := properEntry_parts hp
  unfold shownPeriod showPeriod loadedPeriod
  unfold timePart at htimes hscan
  unfold properDays at hdays
  have hshow : ∀ wl times, splitAtChar '-' times = some (start, stop) →
      showTimes wl times = some (some { start := start, stop := stop, weekdayList := wl }) := by
    intro wl times ht
    unfold showTimes
    rw [ht]
    exact if_neg (by omega)
  cases hsplit : splitAtChar ';' p with
  | some r =>
      obtain ⟨weekdays, rest⟩ := r
      rw [hsplit] at htimes hscan hdays
      have hroom := hfit weekdays rest hsplit
      simp only [Option.isSome_some, true_or, iff_true]
      rw [if_neg (by omega), hshow _ _ htimes, hscan]
      exact ⟨_, _, rfl, rfl, rfl, rfl, ownDays_agree hdays⟩
  | none =>
      rw [hsplit] at htimes hscan
      simp only [Option.isSome_none, Bool.false_eq_true, false_or]
      rw [hshow _ _ htimes, hscan]
      constructor
      · rintro ⟨shown, loaded, hs, hl, hagree⟩
        obtain rfl := Option.some.inj hs
        obtain rfl := Option.some.inj hl
        exact dayList_agree_iff.mp hagree.days
      · intro h
        exact ⟨_, _, rfl, rfl, rfl, rfl, dayList_agree_iff.mpr h⟩

/-! ## The global weekdays -/

/-- All tokens of the global list are the same day. -/
def OneDay (u : UciTime) : Prop := ∀ p ∈ dayTokens u, ∀ q ∈ dayTokens u, atoi p = atoi q

/-- The first global day is all of them iff there is only one. -/
theorem globalWeekdays_eq_iff {u : UciTime} {days : Fin 7 → Bool}
    (hload : loadDays (dayTokens u) (fun _ => false) = some days) :
    (∀ i, globalWeekdays u i = days i) ↔ OneDay u := by
  have hrange := (loadDays_isSome_iff (dayTokens u) (fun _ => false)).mp (by rw [hload]; rfl)
  have hidx : ∀ p ∈ dayTokens u, ∃ i, dayIndex (atoi p) = some i := by
    intro p hp
    obtain ⟨hlo, hhi⟩ := hrange p hp
    unfold dayIndex
    rw [dif_pos ⟨hlo, hhi⟩]
    exact ⟨_, rfl⟩
  have hdays : ∀ i, days i = true ↔ ∃ p ∈ dayTokens u, dayIndex (atoi p) = some i := by
    intro i
    have h := loadDays_some hload i
    simpa using h
  have hglobal : ∀ i, globalWeekdays u i = true ↔
      ∃ p ∈ (dayTokens u).take 1, dayIndex (atoi p) = some i := by
    intro i
    unfold globalWeekdays
    rw [tokens_strtokRest]
    exact markDays_iff _ i
  simp only [Bool.eq_iff_iff, hdays, hglobal]
  unfold OneDay
  cases hts : dayTokens u with
  | nil => simp
  | cons p ps =>
      rw [hts] at hidx
      simp only [List.take_succ_cons, List.take_zero, List.mem_singleton, exists_eq_left]
      constructor
      · intro h
        have hsame : ∀ q ∈ p :: ps, atoi q = atoi p := by
          intro q hq
          obtain ⟨i, hi⟩ := hidx q hq
          have hpi := (h i).mpr ⟨q, hq, hi⟩
          rw [dayIndex_eq_some_iff] at hi hpi
          exact Int32.toInt_inj.mp (hi.trans hpi.symm)
        intro q hq q' hq'
        rw [hsame q hq, hsame q' hq']
      · intro h i
        constructor
        · intro hi
          exact ⟨p, List.mem_cons_self, hi⟩
        · rintro ⟨q, hq, hi⟩
          rw [h p List.mem_cons_self q hq]
          exact hi

/-! ## The whole answer -/

/-- The settings page shows what is enforced: both parsers return, every
well-formed entry is shown as it is loaded, and in mode 2 the limits are. -/
def ShowsEnforced (loadedSplit : Int32) (u : UciTime) : Prop :=
  ∃ shown c old, handleGetAppFilterTime loadedSplit u = some shown ∧
    afLoadTimeConfig u = some (c, old) ∧
    (∀ p ∈ timeTokens u, properEntry p = true →
      ∃ s l, shownPeriod (globalWeekdays u) p = some s ∧ loadedPeriod c.days p = some l ∧
        PeriodAgrees s l) ∧
    (c.timeMode = 2 → shown.dailyTimeList = some (List.ofFn c.dailyLimit))

/-- Start and end of every entry fit the handler's buffers. -/
def ShownFit (u : UciTime) : Prop :=
  ∀ p ∈ timeTokens u, ∀ start stop, splitAtChar '-' (timePart p) = some (start, stop) →
    start.length < 16 ∧ stop.length < 16

theorem showTimes_isSome_iff (wl : List Int32) (times : CStr) :
    (showTimes wl times).isSome = true ↔
      ∀ start stop, splitAtChar '-' times = some (start, stop) →
        start.length < 16 ∧ stop.length < 16 := by
  unfold showTimes
  cases hsplit : splitAtChar '-' times with
  | none => simp
  | some r =>
      obtain ⟨start, stop⟩ := r
      dsimp only
      by_cases hlong : start.length ≥ 16 ∨ stop.length ≥ 16
      · rw [if_pos hlong]
        simp only [Option.isSome_none, Bool.false_eq_true, false_iff]
        intro h
        have := h start stop rfl
        omega
      · rw [if_neg hlong]
        simp only [Option.isSome_some, true_iff]
        intro start' stop' heq
        obtain ⟨rfl, rfl⟩ := Prod.mk.inj (Option.some.inj heq)
        omega

theorem showPeriod_isSome_iff {global : Fin 7 → Bool} {p : CStr} (hfit : WeekdaysFit p) :
    (showPeriod global p).isSome = true ↔
      ∀ start stop, splitAtChar '-' (timePart p) = some (start, stop) →
        start.length < 16 ∧ stop.length < 16 := by
  unfold showPeriod timePart
  cases hsplit : splitAtChar ';' p with
  | none => exact showTimes_isSome_iff _ _
  | some r =>
      obtain ⟨weekdays, rest⟩ := r
      have hroom := hfit weekdays rest hsplit
      dsimp only
      rw [if_neg (by omega)]
      exact showTimes_isSome_iff _ _

theorem ListsFit.weekdays {u : UciTime} (h : ListsFit u) {p : CStr} (hp : p ∈ timeTokens u) :
    WeekdaysFit p := by
  obtain ⟨pre, post, heq⟩ := List.append_of_mem hp
  exact (h.2.2 pre p post heq).2

/-- When the loader's lists fit, the handler returns iff start and end do. -/
theorem handleGetAppFilterTime_isSome_iff (loadedSplit : Int32) {u : UciTime} (h : ListsFit u) :
    (handleGetAppFilterTime loadedSplit u).isSome = true ↔ ShownFit u := by
  have hshort : ¬ (afUciGetListValue u.time).length ≥ maxTimeListLen := by
    have := h.2.1
    unfold maxTimeListLen
    omega
  unfold handleGetAppFilterTime
  dsimp only
  rw [if_neg hshort, Option.isSome_map, showPeriods_isSome_iff]
  constructor
  · intro hall p hp
    exact (showPeriod_isSome_iff (h.weekdays hp)).mp (hall p hp)
  · intro hall p hp
    exact (showPeriod_isSome_iff (h.weekdays hp)).mpr (hall p hp)

/-- What a returned answer holds. -/
theorem handleGetAppFilterTime_some {loadedSplit : Int32} {u : UciTime} {shown : ShownTime}
    (h : handleGetAppFilterTime loadedSplit u = some shown) :
    shown.timeList = (timeTokens u).filterMap (shownPeriod (globalWeekdays u)) ∧
      (afUciGetIntValue u.timeMode = 2 → shown.dailyTimeList =
        some (List.ofFn (fun w => loadDailyLimit (afUciGetValue (u.dailyLimit w) 128)))) := by
  unfold handleGetAppFilterTime at h
  dsimp only at h
  split at h
  · exact absurd h (by simp)
  · obtain ⟨periods, hperiods, rfl⟩ := Option.map_eq_some_iff.mp h
    refine ⟨showPeriods_some hperiods, ?_⟩
    intro hmode
    exact if_pos hmode

/-- **What the UI shows is what is enforced** iff the stored texts fit the
buffers of both parsers, the global weekdays are one day or no well-formed entry
relies on them, and in mode 2 the time list has a token or all limits read as
nothing. In either case both time lists are those of the tokens, in order. -/
theorem shown_time_iff (loadedSplit : Int32) (u : UciTime) :
    (ShowsEnforced loadedSplit u ↔
      ListsFit u ∧ ShownFit u ∧
        (OneDay u ∨ ∀ p ∈ timeTokens u, properEntry p = true →
          (splitAtChar ';' p).isSome = true) ∧
        (afUciGetIntValue u.timeMode = 2 → timeTokens u ≠ [] ∨
          ∀ w, loadDailyLimit (afUciGetValue (u.dailyLimit w) 128) = {})) ∧
    ∀ shown c old, handleGetAppFilterTime loadedSplit u = some shown →
      afLoadTimeConfig u = some (c, old) →
        shown.timeList = (timeTokens u).filterMap (shownPeriod (globalWeekdays u)) ∧
          c.timeList = (timeTokens u).filterMap (loadedPeriod c.days) := by
  refine ⟨?_, ?_⟩
  · constructor
    · rintro ⟨shown, c, old, hshown, hload, htime, hlimits⟩
      have hfit : ListsFit u := (afLoadTimeConfig_isSome_iff u).mp (by rw [hload]; rfl)
      obtain ⟨hdays, -, hmode, hread⟩ := afLoadTimeConfig_parts hload
      refine ⟨hfit, (handleGetAppFilterTime_isSome_iff loadedSplit hfit).mp (by rw [hshown]; rfl),
        ?_, ?_⟩
      · by_cases hone : OneDay u
        · exact Or.inl hone
        · refine Or.inr ?_
          intro p hp hproper
          rcases (entry_agrees_iff hproper (hfit.weekdays hp) _ _).mp (htime p hp hproper) with h | h
          · exact h
          · exact absurd ((globalWeekdays_eq_iff hdays).mp h) hone
      · intro hmode2
        by_cases hempty : timeTokens u = []
        · refine Or.inr ?_
          have hshow := (handleGetAppFilterTime_some hshown).2 hmode2
          rw [hlimits (hmode.trans hmode2)] at hshow
          have hfun := List.ofFn_injective (Option.some.inj hshow)
          intro w
          have hw := congrFun hfun w
          rw [← hw, hread]
          exact if_pos (Or.inl hempty)
        · exact Or.inl hempty
    · rintro ⟨hfit, hshownFit, hdaysOk, hlimitsOk⟩
      obtain ⟨shown, hshown⟩ := Option.isSome_iff_exists.mp
        ((handleGetAppFilterTime_isSome_iff loadedSplit hfit).mpr hshownFit)
      obtain ⟨⟨c, old⟩, hload⟩ := Option.isSome_iff_exists.mp
        ((afLoadTimeConfig_isSome_iff u).mpr hfit)
      obtain ⟨hdays, -, hmode, hread⟩ := afLoadTimeConfig_parts hload
      refine ⟨shown, c, old, hshown, hload, ?_, ?_⟩
      · intro p hp hproper
        refine (entry_agrees_iff hproper (hfit.weekdays hp) _ _).mpr ?_
        rcases hdaysOk with hone | hown
        · exact Or.inr ((globalWeekdays_eq_iff hdays).mpr hone)
        · exact Or.inl (hown p hp hproper)
      · intro hmode2
        rw [hmode] at hmode2
        rw [(handleGetAppFilterTime_some hshown).2 hmode2, hread]
        congr 2
        funext w
        unfold readLimits
        by_cases hempty : timeTokens u = []
        · rw [if_pos (Or.inl hempty)]
          rcases hlimitsOk hmode2 with hne | hzero
          · exact absurd hempty hne
          · exact hzero w
        · rw [if_neg (not_or.mpr ⟨hempty, not_not.mpr hmode2⟩)]
  · intro shown c old hshown hload
    obtain ⟨-, ⟨o, hsched, -⟩, -, -⟩ := afLoadTimeConfig_parts hload
    refine ⟨(handleGetAppFilterTime_some hshown).1, ?_⟩
    unfold readSchedule at hsched
    split at hsched
    · exact absurd hsched (by simp)
    · have h := loadPeriods_some hsched
      rw [List.nil_append] at h
      exact h

/-- The shipped section has one period and all seven days; the settings page
shows the period for Mondays only. -/
theorem shown_mondays_only :
    (∃ shown, handleGetAppFilterTime 0 shippedTime = some shown ∧
      shown.timeList = [⟨"00:00".toList, "23:59".toList, [1]⟩]) ∧
    (∃ c old, afLoadTimeConfig shippedTime = some (c, old) ∧ ∀ i, c.days i = true) ∧
    ¬ ShowsEnforced 0 shippedTime := by
  have hentry : "00:00-23:59".toList ∈ timeTokens shippedTime := by decide +kernel
  have hproper : properEntry "00:00-23:59".toList = true := by decide +kernel
  have hload : (afLoadTimeConfig shippedTime).isSome = true := by decide +kernel
  obtain ⟨⟨c, old⟩, hc⟩ := Option.isSome_iff_exists.mp hload
  obtain ⟨hdays, -⟩ := afLoadTimeConfig_parts hc
  refine ⟨?_, ⟨c, old, hc, ?_⟩, ?_⟩
  · have hshown : (handleGetAppFilterTime 0 shippedTime).map (·.timeList) =
        some [⟨"00:00".toList, "23:59".toList, [1]⟩] := by decide +kernel
    obtain ⟨shown, hs, hlist⟩ := Option.map_eq_some_iff.mp hshown
    exact ⟨shown, hs, hlist⟩
  · have hall : ∀ i, ∃ p ∈ dayTokens shippedTime, dayIndex (atoi p) = some i := by decide +kernel
    intro i
    exact (loadDays_some hdays i).mpr (Or.inr (hall i))
  · rintro ⟨shown, c', old', -, hc', htime, -⟩
    obtain ⟨hdays', -⟩ := afLoadTimeConfig_parts hc'
    have hfit : ListsFit shippedTime := (afLoadTimeConfig_isSome_iff _).mp hload
    rcases (entry_agrees_iff hproper (hfit.weekdays hentry) _ _).mp (htime _ hentry hproper)
      with h | h
    · exact absurd h (by decide +kernel)
    · have hone := (globalWeekdays_eq_iff hdays').mp h
      have hne := hone "1".toList (by decide +kernel) "2".toList (by decide +kernel)
      exact absurd hne (by decide +kernel)

end OpenAppFilter.Theorems
