import OpenAppFilter.Daemon.TimeText
import OpenAppFilter.Theorems.RejectedTime
import Mathlib.Algebra.Order.Ring.Nat

/-!
# Saving a schedule from the settings page

The page lets the user enter up to 64 periods, each with its weekdays, and the
loader has room for 64 periods. But it first joins the stored texts in a buffer of
1024 bytes, and 64 periods may need up to 64 * 26: the buffer holds 39 periods on
all weekdays. `af_uci_get_list_value` does not look at the length it is given.
-/

namespace OpenAppFilter.Theorems

open Base Daemon

/-! ## What the page sends -/

/-- The periods of a request: at most 64, each with a weekday. -/
structure UiSchedule where
  periods : List WeekPeriod
  atMost : periods.length ≤ maxTimeList
  someDay : ∀ p ∈ periods, p.days ≠ []

/-- One entry of `time_list`. -/
def uiEntry (p : WeekPeriod) : PeriodEntry where
  start := some (clockText p.start)
  stop := some (clockText p.stop)
  weekdayList := some (p.days.map (fun i => Int32.ofNat i.val))

/-- A request with these periods; whatever else it holds is that of `req`. -/
def UiSchedule.request (s : UiSchedule) (req : SetTimeReq) : SetTimeReq :=
  { req with mode := some 0, timeList := some (s.periods.map uiEntry) }

/-- The request is committed, nothing is written out of bounds, and the loader
finds exactly these periods, in order. -/
def SavedAndLoaded (u : UciTime) (req : SetTimeReq) (s : UiSchedule) : Prop :=
  ∃ u' c old, handleSetAppFilterTime u (s.request req) = some (u', true) ∧
    afLoadTimeConfig u' = some (c, old) ∧ c.timeList = s.periods.map WeekPeriod.loaded

/-- What the stored texts need in the list buffer, with a separator or the NUL
behind each. -/
def UiSchedule.chars (s : UiSchedule) : Nat :=
  (s.periods.map (fun p => 2 * p.days.length + 12)).sum

/-- The global weekdays after the request, sent or stored, are weekdays and fit
their buffer. -/
def GlobalDaysFit (u : UciTime) (req : SetTimeReq) : Prop :=
  match req.weekdayList with
  | some ns => (joinNumbers ns [' '] 128).isSome = true ∧ ∀ n ∈ ns, (dayIndex n).isSome = true
  | none => ∀ t ∈ dayTokens u, (dayIndex (atoi t)).isSome = true

/-! ## What is stored -/

theorem joinNumbers_days (p : WeekPeriod) :
    joinNumbers (p.days.map (fun i => Int32.ofNat i.val)) [','] 64 =
      some (weekdayText p.days [',']) := by
  have hdigit : ∀ i : Fin 7, (decimal (Int32.ofNat i.val)).take 7 = Nat.toDigits 10 i.val := by
    decide
  have htext : (((p.days.map (fun i => Int32.ofNat i.val)).map (fun n =>
      (decimal n).take 7)).intersperse [',']).flatten = weekdayText p.days [','] := by
    unfold weekdayText
    rw [List.map_map]
    exact congrArg (fun l => (List.intersperse [','] l).flatten)
      (List.map_congr_left (fun i _ => hdigit i))
  have hlen := p.days_length_le
  unfold joinNumbers
  dsimp only
  rw [htext, if_neg]
  rw [weekdayText_length]
  omega

theorem periodText_uiEntry {p : WeekPeriod} (hday : p.days ≠ []) :
    periodText (uiEntry p) = some (some p.line) := by
  have hlen := p.days_length_le
  obtain ⟨i, is, hdays⟩ := List.exists_cons_of_ne_nil hday
  have hjoin := joinNumbers_days p
  unfold periodText uiEntry
  rw [hdays, List.map_cons] at hjoin
  simp only [hdays, List.map_cons, hjoin]
  have htext : weekdayText (i :: is) [','] ++ ';' :: clockText p.start ++ '-' :: clockText p.stop =
      p.line := by
    unfold WeekPeriod.line
    rw [hdays]
    simp
  rw [htext, if_neg]
  rw [p.line_length]
  omega

theorem storePeriods_uiEntries (ps : List WeekPeriod) : ∀ {o : Option UciValue} {l : List CStr},
    ListValue o l → (∀ p ∈ ps, p.days ≠ []) →
      ∃ o', storePeriods (ps.map uiEntry) o = some (o', true) ∧
        ListValue o' (l ++ ps.map WeekPeriod.line) := by
  induction ps with
  | nil =>
      intro o l h _
      exact ⟨o, rfl, by rwa [List.map_nil, List.append_nil]⟩
  | cons p ps ih =>
      intro o l h hdays
      have htext := periodText_uiEntry (hdays p List.mem_cons_self)
      obtain ⟨o', hstore, hvalue⟩ := ih (h.add (periodText_length htext))
        (fun q hq => hdays q (List.mem_cons_of_mem _ hq))
      refine ⟨o', ?_, ?_⟩
      · rw [List.map_cons, storePeriods, htext]
        exact hstore
      · rwa [List.append_assoc] at hvalue

/-- The option `days` after the request; `none` when its text does not fit. -/
def savedDays (u : UciTime) (req : SetTimeReq) : Option (Option CStr) :=
  match req.weekdayList with
  | some ns => (joinNumbers ns [' '] 128).map afUciSetValue
  | none => some u.days

theorem handleSetAppFilterTime_request (u : UciTime) (req : SetTimeReq) (s : UiSchedule) :
    ∃ time, afUciGetListValue time =
        ((s.periods.map WeekPeriod.line).intersperse [' ']).flatten ∧
      handleSetAppFilterTime u (s.request req) = (savedDays u req).map (fun days =>
        ({ u with timeMode := afUciSetIntValue 0, days := days, time := time }, true)) := by
  obtain ⟨time, hstore, hvalue⟩ :=
    storePeriods_uiEntries s.periods (o := none) (Or.inl ⟨rfl, rfl⟩) s.someDay
  refine ⟨time, hvalue.text, ?_⟩
  unfold handleSetAppFilterTime savedDays UiSchedule.request
  cases req.weekdayList with
  | none => simp [hstore]
  | some ns =>
      cases htext : joinNumbers ns [' '] 128 with
      | none => simp [htext]
      | some text => simp [htext, hstore]

/-! ## What is loaded -/

theorem loadDays_isSome_iff_dayIndex (ts : List CStr) :
    (loadDays ts (fun _ => false)).isSome = true ↔ ∀ t ∈ ts, (dayIndex (atoi t)).isSome = true := by
  rw [loadDays_isSome_iff]
  refine forall₂_congr (fun t _ => ?_)
  unfold dayIndex
  by_cases h : 0 ≤ (atoi t).toInt ∧ (atoi t).toInt < 7
  · simp [h]
  · simp [h]

/-- The condition on the global weekdays is that they are stored and loaded. -/
theorem globalDaysFit_iff (u : UciTime) (req : SetTimeReq) :
    GlobalDaysFit u req ↔ ∃ days, savedDays u req = some days ∧
      (loadDays (tokens ' ' (afUciGetValue days 128)) (fun _ => false)).isSome = true := by
  unfold GlobalDaysFit savedDays
  cases req.weekdayList with
  | none => simp [loadDays_isSome_iff_dayIndex, dayTokens]
  | some ns =>
      cases htext : joinNumbers ns [' '] 128 with
      | none => simp [htext]
      | some text =>
          simp only [htext, Option.isSome_some, true_and, Option.map_some, Option.some.injEq,
            exists_eq_left', tokens_weekdays htext, loadDays_isSome_iff_dayIndex, List.mem_map,
            forall_exists_index, and_imp, forall_apply_eq_imp_iff₂, dayIndex_dayText]

/-- The length of the joined list, one separator less than one behind each. -/
theorem flatten_intersperse_length (ts : List CStr) (c : Char) :
    (ts.intersperse [c]).flatten.length = (ts.map (fun t => t.length + 1)).sum - 1 := by
  induction ts with
  | nil => rfl
  | cons t ts ih =>
      cases ts with
      | nil => simp
      | cons t' ts =>
          rw [List.intersperse_cons_cons, List.flatten_cons, List.flatten_cons, List.length_append,
            List.length_append, ih]
          simp only [List.map_cons, List.sum_cons, List.length_singleton]
          omega

theorem joined_length (s : UiSchedule) :
    ((s.periods.map WeekPeriod.line).intersperse [' ']).flatten.length = s.chars - 1 := by
  have hsum : (s.periods.map WeekPeriod.line).map (fun t => t.length + 1) =
      s.periods.map (fun p => 2 * p.days.length + 12) := by
    rw [List.map_map]
    refine List.map_congr_left ?_
    intro p hp
    have hpos := List.length_pos_iff.mpr (s.someDay p hp)
    show p.line.length + 1 = _
    rw [p.line_length]
    omega
  rw [flatten_intersperse_length, hsum]
  rfl

/-- **A saved schedule is the loaded one** iff its texts, with one character
behind each, need at most the 1024 bytes of the list buffer, and the global
weekdays are weekdays that fit theirs. Otherwise something is written out of
bounds. -/
theorem saved_schedule_loaded_iff (u : UciTime) (req : SetTimeReq) (s : UiSchedule) :
    SavedAndLoaded u req s ↔ s.chars ≤ 1024 ∧ GlobalDaysFit u req := by
  obtain ⟨time, htext, hsave⟩ := handleSetAppFilterTime_request u req s
  have hfits : ¬ (s.chars - 1 ≥ maxTimeListLen) ↔ s.chars ≤ 1024 := by
    unfold maxTimeListLen
    omega
  unfold SavedAndLoaded
  rw [globalDaysFit_iff, hsave, ← hfits]
  constructor
  · rintro ⟨u', c, old, hu', hload, -⟩
    obtain ⟨days, hdays, hu'⟩ := Option.map_eq_some_iff.mp hu'
    obtain ⟨rfl, -⟩ := Prod.mk.inj hu'
    obtain ⟨hloaded, ⟨o, hread, -⟩, -⟩ := afLoadTimeConfig_parts hload
    dsimp only at hread
    rw [htext, readSchedule_lines c.days s.atMost, joined_length] at hread
    refine ⟨?_, days, hdays, Option.isSome_iff_exists.mpr ⟨c.days, hloaded⟩⟩
    intro hlong
    rw [if_pos hlong] at hread
    exact absurd hread (by simp)
  · rintro ⟨hshort, days, hdays, hsome⟩
    obtain ⟨loaded, hloaded⟩ := Option.isSome_iff_exists.mp hsome
    let u' : UciTime := { u with timeMode := afUciSetIntValue 0, days := days, time := time }
    have hread : readSchedule loaded (afUciGetListValue u'.time) =
        some (s.periods.map WeekPeriod.loaded, false) := by
      show readSchedule loaded (afUciGetListValue time) = _
      rw [htext, readSchedule_lines loaded s.atMost, joined_length, if_neg hshort]
    have hdays' : loadDays (dayTokens u') (fun _ => false) = some loaded := hloaded
    obtain ⟨c, hload, -, hperiods⟩ := afLoadTimeConfig_of_parts hdays' hread
    refine ⟨u', c, _, ?_, hload, hperiods⟩
    rw [hdays]
    rfl

/-! ## Forty rows of the page -/

/-- A new row of the page: the whole day, on every weekday. -/
def defaultRow : WeekPeriod where
  days := (List.finRange 7).rotateLeft
  start := (Fin.rev (Fin.last 23), Fin.rev (Fin.last 59))
  stop := (Fin.last 23, Fin.last 59)
  days_nodup := by decide

def defaultRows (n : Nat) (h : n ≤ maxTimeList) : UiSchedule where
  periods := List.replicate n defaultRow
  atMost := by rwa [List.length_replicate]
  someDay := by
    intro p hp
    rw [List.eq_of_mem_replicate hp]
    decide

/-- In mode 0 the page sends an empty list of global weekdays. -/
def uiRequest : SetTimeReq := { mode := some 0, weekdayList := some [] }

/-- Forty rows, left as the page fills them in, do not fit. -/
theorem forty_rows_not_loaded : ¬ ∀ s : UiSchedule, SavedAndLoaded shippedTime uiRequest s := by
  intro h
  obtain ⟨u', c, old, hsave, hload, -⟩ := h (defaultRows 40 (by decide))
  have hnone : ((handleSetAppFilterTime shippedTime
      ((defaultRows 40 (by decide)).request uiRequest)).bind
        (fun r => afLoadTimeConfig r.1)).isSome = false := by
    decide +kernel
  rw [hsave, Option.bind_some, hload] at hnone
  exact absurd hnone (by simp)

end OpenAppFilter.Theorems
