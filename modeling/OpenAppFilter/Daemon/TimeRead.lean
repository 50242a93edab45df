import OpenAppFilter.Daemon.Config

/-!
# What the time loader reads

`af_load_time_config` seen from its inputs: which weekdays the token list
names, which period each token of the time list yields, and the loaded
configuration as one expression of these (`afLoadTimeConfig_eq`).
-/

namespace OpenAppFilter.Daemon

open Base

/-! ## Weekdays -/

def dayTokens (u : UciTime) : List CStr := tokens ' ' (afUciGetValue u.days 128)

theorem dayIndex_eq_some_iff {n : Int32} {i : Fin 7} :
    dayIndex n = some i ↔ n.toInt = (i.val : Int) := by
  unfold dayIndex
  constructor
  · intro h
    split at h
    · rename_i hrange
      have hi := congrArg Fin.val (Option.some.inj h)
      dsimp only at hi
      omega
    · exact absurd h (by simp)
  · intro h
    have hrange : 0 ≤ n.toInt ∧ n.toInt < 7 := by omega
    rw [dif_pos hrange]
    congr 1
    exact Fin.ext (by dsimp only; omega)

/-- The loaded global weekdays are those the tokens name. -/
theorem loadDays_some {ps : List CStr} {d d' : Fin 7 → Bool} (h : loadDays ps d = some d')
    (i : Fin 7) : d' i = true ↔ d i = true ∨ ∃ p ∈ ps, dayIndex (atoi p) = some i := by
  induction ps generalizing d with
  | nil =>
      obtain rfl := Option.some.inj h
      simp
  | cons p ps ih =>
      unfold loadDays at h
      cases hp : dayIndex (atoi p) with
      | none =>
          rw [hp] at h
          exact absurd h (by simp)
      | some j =>
          rw [hp] at h
          rw [ih h]
          simp only [setDay, Bool.or_eq_true, decide_eq_true_eq, List.mem_cons]
          constructor
          · rintro ((rfl | hd) | ⟨q, hq, hi⟩)
            · exact Or.inr ⟨p, Or.inl rfl, hp⟩
            · exact Or.inl hd
            · exact Or.inr ⟨q, Or.inr hq, hi⟩
          · rintro (hd | ⟨q, rfl | hq, hi⟩)
            · exact Or.inl (Or.inr hd)
            · rw [hp] at hi
              exact Or.inl (Or.inl (Option.some.inj hi).symm)
            · exact Or.inr ⟨q, hq, hi⟩

/-- The weekdays a list of tokens names; numbers out of range are skipped. -/
def markDays (ts : List CStr) : Fin 7 → Bool :=
  ts.foldl (fun d wd =>
    match dayIndex (atoi wd) with
    | some i => setDay d i
    | none => d) (fun _ => false)

theorem markDays_iff (ts : List CStr) (i : Fin 7) :
    markDays ts i = true ↔ ∃ t ∈ ts, dayIndex (atoi t) = some i := by
  have hfold : ∀ (ts : List CStr) (d : Fin 7 → Bool), ts.foldl (fun d wd =>
      match dayIndex (atoi wd) with
      | some i => setDay d i
      | none => d) d i = true ↔ d i = true ∨ ∃ t ∈ ts, dayIndex (atoi t) = some i := by
    intro ts
    induction ts with
    | nil =>
        intro d
        simp
    | cons t ts ih =>
        intro d
        rw [List.foldl_cons, ih]
        cases ht : dayIndex (atoi t) with
        | none => simp [ht]
        | some j =>
            simp only [setDay, Bool.or_eq_true, decide_eq_true_eq, List.mem_cons,
              exists_eq_or_imp, ht, Option.some.injEq]
            rw [eq_comm, or_comm (a := j = i), or_assoc]
  refine (hfold ts (fun _ => false)).trans ?_
  simp

/-- The weekdays of a period are those its list names. -/
theorem periodDays_eq (s : CStr) : periodDays s = markDays (tokens ',' s) := rfl

/-! ## Times -/

/-- A number as it is written: digits, and at least one. -/
def DigitRun (s : CStr) : Prop := s ≠ [] ∧ ∀ c ∈ s, c.isDigit = true

/-- The time two numbers stand for. -/
def runTime (h m : CStr) : AfTime := ⟨Int32.ofInt (natPrefix h), Int32.ofInt (natPrefix m)⟩

theorem scanInt_run {s : CStr} (h : DigitRun s) :
    scanInt s = some (Int32.ofInt (natPrefix s), []) := by
  have hscan := scanInt_digits h.1 h.2 (show DigitStop [] from trivial)
  rwa [List.append_nil] at hscan

theorem scanTime_runs {h m : CStr} (hh : DigitRun h) (hm : DigitRun m) :
    scanTime (h ++ ':' :: m) = runTime h m := by
  have hcolon : DigitStop (':' :: m) := digitStop_cons (by decide) m
  unfold scanTime
  simp only [scanInts, scanInt_digits hh.1 hh.2 hcolon, scanInt_run hm, if_true]
  rfl

/-- `sscanf` over a whole period. -/
theorem scanPeriod_runs {h m h' m' : CStr} (hh : DigitRun h) (hm : DigitRun m)
    (hh' : DigitRun h') (hm' : DigitRun m') (days : Fin 7 → Bool) :
    scanPeriod ((h ++ ':' :: m) ++ '-' :: (h' ++ ':' :: m')) days =
      some { startTime := runTime h m, endTime := runTime h' m', days := days } := by
  have hcolon : ∀ rest, DigitStop (':' :: rest) := digitStop_cons (by decide)
  have hminus : ∀ rest, DigitStop ('-' :: rest) := digitStop_cons (by decide)
  unfold scanPeriod
  simp only [List.append_assoc, List.cons_append, scanInts, scanInt_digits hh.1 hh.2 (hcolon _),
    scanInt_digits hm.1 hm.2 (hminus _), scanInt_digits hh'.1 hh'.2 (hcolon _), scanInt_run hm',
    if_true]
  rfl

/-! ## Periods -/

def timeTokens (u : UciTime) : List CStr := tokens ' ' (afUciGetListValue u.time)

/-- The period one token of the time list yields. -/
def loadedPeriod (days : Fin 7 → Bool) (p : CStr) : Option TimePeriod :=
  match splitAtChar ';' p with
  | some (weekdays, timePart) => scanPeriod timePart (periodDays weekdays)
  | none => scanPeriod p days

theorem loadPeriod_some {days : Fin 7 → Bool} {p : CStr} {r : Bool × Option TimePeriod}
    (h : loadPeriod days p = some r) : r.2 = loadedPeriod days p := by
  unfold loadPeriod at h
  unfold loadedPeriod
  cases hsplit : splitAtChar ';' p with
  | none =>
      rw [hsplit] at h
      obtain rfl := Option.some.inj h
      rfl
  | some ws =>
      rw [hsplit] at h
      dsimp only at h
      split at h
      · exact absurd h (by simp)
      · obtain rfl := Option.some.inj h
        rfl

/-- The loaded periods are those the tokens yield, in order. -/
theorem loadPeriods_some {days : Fin 7 → Bool} {ps : List CStr} {acc : List TimePeriod}
    {old : Bool} {r : List TimePeriod × Bool} (h : loadPeriods days ps acc old = some r) :
    r.1 = acc ++ ps.filterMap (loadedPeriod days) := by
  induction ps generalizing acc old with
  | nil =>
      obtain rfl := Option.some.inj h
      simp
  | cons p ps ih =>
      unfold loadPeriods at h
      split at h
      · exact absurd h (by simp)
      · split at h
        · rename_i o period hload
          have hperiod : period = loadedPeriod days p := loadPeriod_some hload
          rw [ih h, List.append_assoc, List.filterMap_cons, ← hperiod]
          cases period <;> rfl
        · exact absurd h (by simp)

/-- No more periods than `time_list` holds. -/
theorem loadPeriods_length {days : Fin 7 → Bool} {ps : List CStr} {acc : List TimePeriod}
    {old : Bool} {r : List TimePeriod × Bool} (h : loadPeriods days ps acc old = some r)
    (hacc : acc.length ≤ maxTimeList) : r.1.length ≤ maxTimeList := by
  induction ps generalizing acc old with
  | nil =>
      obtain rfl := Option.some.inj h
      exact hacc
  | cons p ps ih =>
      unfold loadPeriods at h
      split at h
      · exact absurd h (by simp)
      · rename_i hroom
        split at h
        · rename_i o period _
          refine ih h ?_
          have hone : period.toList.length ≤ 1 := by
            cases period with
            | none => exact Nat.zero_le 1
            | some _ => exact Nat.le_refl 1
          rw [List.length_append]
          omega
        · exact absurd h (by simp)

/-! ## The loaded configuration -/

/-- The periods and `old_ver_config` the loader makes of the time list. -/
def readSchedule (days : Fin 7 → Bool) (text : CStr) : Option (List TimePeriod × Bool) :=
  if text.length ≥ maxTimeListLen then none else loadPeriods days (tokens ' ' text) [] false

/-- The limits in the loaded configuration: the stored ones in mode 2, when the
time list has a token. -/
def readLimits (u : UciTime) (w : Fin 7) : DailyLimitConfig :=
  if timeTokens u = [] ∨ afUciGetIntValue u.timeMode ≠ 2 then {}
  else loadDailyLimit (afUciGetValue (u.dailyLimit w) 128)

/-- `af_load_time_config` as one expression: without a token in the time list
there is no period, and no limit is read. -/
theorem afLoadTimeConfig_eq (u : UciTime) :
    afLoadTimeConfig u = (loadDays (dayTokens u) (fun _ => false)).bind (fun days =>
      (readSchedule days (afUciGetListValue u.time)).map (fun r =>
        ({ timeMode := afUciGetIntValue u.timeMode
           splitTime := afUciGetIntValue u.splitTime
           denyTime := afUciGetIntValue u.denyTime
           allowTime := afUciGetIntValue u.allowTime
           segStart := scanTime (afUciGetValue u.startTime 128)
           segEnd := scanTime (afUciGetValue u.endTime 128)
           days := days
           timeList := r.1
           dailyLimit := readLimits u }, if r.2 then 1 else 0))) := by
  unfold afLoadTimeConfig dayTokens
  cases loadDays (tokens ' ' (afUciGetValue u.days 128)) (fun _ => false) with
  | none => rfl
  | some days =>
      rw [Option.bind_some]
      unfold readSchedule
      dsimp only
      by_cases hlong : (afUciGetListValue u.time).length ≥ maxTimeListLen
      · rw [if_pos hlong, if_pos hlong]
        rfl
      · rw [if_neg hlong, if_neg hlong]
        by_cases hempty : tokens ' ' (afUciGetListValue u.time) = []
        · have hlimits : readLimits u = fun _ => {} := by
            funext w
            exact if_pos (Or.inl hempty)
          rw [if_pos hempty, hempty, hlimits]
          rfl
        · rw [if_neg hempty]
          have hlimits : readLimits u = fun w =>
              if afUciGetIntValue u.timeMode = 2 then
                loadDailyLimit (afUciGetValue (u.dailyLimit w) 128)
              else {} := by
            funext w
            unfold readLimits timeTokens
            by_cases hmode : afUciGetIntValue u.timeMode = 2
            · rw [if_pos hmode, if_neg (not_or.mpr ⟨hempty, not_not.mpr hmode⟩)]
            · rw [if_neg hmode, if_pos (Or.inr hmode)]
          rw [hlimits]
          cases loadPeriods days (tokens ' ' (afUciGetListValue u.time)) [] false <;> rfl

/-- What a successful load consists of. -/
theorem afLoadTimeConfig_parts {u : UciTime} {c : AfTimeConfig} {old : Int}
    (h : afLoadTimeConfig u = some (c, old)) :
    loadDays (dayTokens u) (fun _ => false) = some c.days ∧
      (∃ o, readSchedule c.days (afUciGetListValue u.time) = some (c.timeList, o) ∧
        old = if o then 1 else 0) ∧
      c.timeMode = afUciGetIntValue u.timeMode ∧ c.dailyLimit = readLimits u := by
  rw [afLoadTimeConfig_eq] at h
  obtain ⟨days, hdays, h⟩ := Option.bind_eq_some_iff.mp h
  obtain ⟨r, hr, h⟩ := Option.map_eq_some_iff.mp h
  obtain ⟨rfl, rfl⟩ := Prod.mk.inj h
  exact ⟨hdays, ⟨r.2, hr, rfl⟩, rfl, rfl⟩

/-- Weekdays and schedule that can be read are loaded. -/
theorem afLoadTimeConfig_of_parts {u : UciTime} {days : Fin 7 → Bool} {r : List TimePeriod × Bool}
    (hdays : loadDays (dayTokens u) (fun _ => false) = some days)
    (hread : readSchedule days (afUciGetListValue u.time) = some r) :
    ∃ c, afLoadTimeConfig u = some (c, if r.2 then 1 else 0) ∧ c.days = days ∧
      c.timeList = r.1 := by
  rw [afLoadTimeConfig_eq, hdays, Option.bind_some, hread]
  exact ⟨_, rfl, rfl, rfl⟩

end OpenAppFilter.Daemon
