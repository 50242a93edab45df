import OpenAppFilter.Daemon.TimeRead
import Mathlib.Data.Fintype.Card

/-!
# The text of a schedule

A period is stored as `1,2,5;08:00-12:30`. The settings page sends periods whose
text has this form, and `apply_time_config_to_uci` prints it; `WeekPeriod` is
what they have in common, and the loader reads every list of such texts back, in
order, as long as the whole list fits its buffer (`readSchedule_lines`).
-/

namespace OpenAppFilter.Daemon

open Base

/-! ## Times -/

def twoDigits (n : Nat) : CStr := [Nat.digitChar (n / 10), Nat.digitChar (n % 10)]

/-- `HH:MM`. -/
def clockText (t : Fin 24 × Fin 60) : CStr := twoDigits t.1.val ++ ':' :: twoDigits t.2.val

/-- The time as the loader keeps it. -/
def clockTime (t : Fin 24 × Fin 60) : AfTime :=
  ⟨Int32.ofNat t.1.val, Int32.ofNat t.2.val⟩

theorem digitRun_twoDigits {n : Nat} (hn : n < 60) : DigitRun (twoDigits n) := by
  have hdigits : ∀ n < 60, (twoDigits n).all Char.isDigit = true := by decide
  exact ⟨by simp [twoDigits], List.all_eq_true.mp (hdigits n hn)⟩

theorem runTime_twoDigits (t : Fin 24 × Fin 60) :
    runTime (twoDigits t.1.val) (twoDigits t.2.val) = clockTime t := by
  have hvalue : ∀ n < 60, natPrefix (twoDigits n) = n := by decide
  have hhour : t.1.val < 60 := by omega
  unfold runTime
  rw [hvalue _ hhour, hvalue _ t.2.isLt]
  rfl

theorem scanPeriod_clockText (a b : Fin 24 × Fin 60) (days : Fin 7 → Bool) :
    scanPeriod (clockText a ++ '-' :: clockText b) days =
      some { startTime := clockTime a, endTime := clockTime b, days := days } := by
  have hhour : ∀ h : Fin 24, h.val < 60 := fun h => by omega
  unfold clockText
  rw [scanPeriod_runs (digitRun_twoDigits (hhour _)) (digitRun_twoDigits a.2.isLt)
    (digitRun_twoDigits (hhour _)) (digitRun_twoDigits b.2.isLt), runTime_twoDigits,
    runTime_twoDigits]

theorem clockText_length (t : Fin 24 × Fin 60) : (clockText t).length = 5 := rfl

/-! ## Weekdays -/

/-- `1,2,5`. -/
def weekdayText (days : List (Fin 7)) (sep : CStr) : CStr :=
  ((days.map (fun i => Nat.toDigits 10 i.val)).intersperse sep).flatten

theorem dayIndex_digit (i : Fin 7) : dayIndex (atoi (Nat.toDigits 10 i.val)) = some i := by
  revert i
  decide

/-- The tokens of a weekday list are the numbers it was printed from. -/
theorem tokens_weekdayText {d : Char} (hd : d.isDigit = false) (days : List (Fin 7)) :
    tokens d (weekdayText days [d]) = days.map (fun i => Nat.toDigits 10 i.val) := by
  refine tokens_join ?_
  intro t ht
  obtain ⟨i, -, rfl⟩ := List.mem_map.mp ht
  refine ⟨Nat.toDigits_ne_nil, ?_⟩
  intro hmem
  rw [Nat.isDigit_of_mem_toDigits (by decide) (by decide) hmem] at hd
  exact Bool.false_ne_true hd.symm

theorem periodDays_weekdayText (days : List (Fin 7)) :
    periodDays (weekdayText days [',']) = fun i => decide (i ∈ days) := by
  funext i
  rw [Bool.eq_iff_iff, periodDays_eq, tokens_weekdayText rfl, markDays_iff, decide_eq_true_eq]
  constructor
  · rintro ⟨t, ht, hi⟩
    obtain ⟨j, hj, rfl⟩ := List.mem_map.mp ht
    rw [dayIndex_digit] at hi
    obtain rfl := Option.some.inj hi
    exact hj
  · intro hi
    exact ⟨_, List.mem_map_of_mem hi, dayIndex_digit i⟩

theorem weekdayText_length (days : List (Fin 7)) (c : Char) :
    (weekdayText days [c]).length = 2 * days.length - 1 := by
  have hone : ∀ i : Fin 7, (Nat.toDigits 10 i.val).length = 1 := by decide
  unfold weekdayText
  induction days with
  | nil => rfl
  | cons i days ih =>
      cases days with
      | nil => simp [hone]
      | cons j days =>
          simp only [List.map_cons, List.intersperse_cons_cons, List.flatten_cons,
            List.length_append, List.length_cons, List.length_nil, hone] at ih ⊢
          omega

theorem mem_weekdayText {days : List (Fin 7)} {c d : Char} (h : c ∈ weekdayText days [d]) :
    c.isDigit = true ∨ c = d := by
  unfold weekdayText at h
  obtain ⟨t, ht, hc⟩ := List.mem_flatten.mp h
  have hparts : ∀ l : List CStr, t ∈ l.intersperse [d] → t ∈ l ∨ t = [d] := by
    intro l
    induction l with
    | nil =>
        intro h
        exact absurd h (by simp)
    | cons x l ih =>
        intro h
        cases l with
        | nil => exact Or.inl (by simpa using h)
        | cons y l =>
            rw [List.intersperse_cons_cons, List.mem_cons, List.mem_cons] at h
            rcases h with h | h | h
            · exact Or.inl (h ▸ List.mem_cons_self)
            · exact Or.inr h
            · rcases ih h with h | h
              · exact Or.inl (List.mem_cons_of_mem _ h)
              · exact Or.inr h
  rcases hparts _ ht with ht | rfl
  · obtain ⟨i, -, rfl⟩ := List.mem_map.mp ht
    exact Or.inl (Nat.isDigit_of_mem_toDigits (by decide) (by decide) hc)
  · exact Or.inr (List.mem_singleton.mp hc)

/-! ## Periods -/

/-- A period with its weekdays, as it is printed. -/
structure WeekPeriod where
  days : List (Fin 7)
  start : Fin 24 × Fin 60
  stop : Fin 24 × Fin 60
  days_nodup : days.Nodup

namespace WeekPeriod

/-- The stored text. -/
def line (p : WeekPeriod) : CStr :=
  weekdayText p.days [','] ++ ';' :: (clockText p.start ++ '-' :: clockText p.stop)

/-- The period in the loaded configuration. -/
def loaded (p : WeekPeriod) : TimePeriod where
  startTime := clockTime p.start
  endTime := clockTime p.stop
  days := fun i => decide (i ∈ p.days)

theorem days_length_le (p : WeekPeriod) : p.days.length ≤ 7 := by
  simpa using p.days_nodup.length_le_card

theorem line_length (p : WeekPeriod) : p.line.length = 2 * p.days.length - 1 + 12 := by
  unfold line
  simp only [List.length_append, List.length_cons, weekdayText_length, clockText_length]

theorem line_token (p : WeekPeriod) : p.line ≠ [] ∧ ' ' ∉ p.line := by
  have hclock : ∀ t, ' ' ∉ clockText t := by
    intro t hmem
    have hdigits : ∀ n < 60, ' ' ∉ twoDigits n := by decide
    have hhour : t.1.val < 60 := by omega
    unfold clockText at hmem
    simp only [List.mem_append, List.mem_cons, hdigits _ hhour, hdigits _ t.2.isLt] at hmem
    exact absurd hmem (by decide)
  have hdays : ' ' ∉ weekdayText p.days [','] := by
    intro hmem
    rcases mem_weekdayText hmem with h | h
    · exact absurd h (by decide)
    · exact absurd h (by decide)
  refine ⟨by simp [line], ?_⟩
  unfold line
  simp [hclock, hdays]

theorem splitAtChar_line (p : WeekPeriod) : splitAtChar ';' p.line =
    some (weekdayText p.days [','], clockText p.start ++ '-' :: clockText p.stop) := by
  refine splitAtChar_append ?_
  intro hmem
  rcases mem_weekdayText hmem with h | h
  · exact absurd h (by decide)
  · exact absurd h (by decide)

/-- The loader reads the text as the period, and not as one of the old format. -/
theorem loadPeriod_line (p : WeekPeriod) (global : Fin 7 → Bool) :
    loadPeriod global p.line = some (false, some p.loaded) := by
  have hshort : ¬ (weekdayText p.days [',']).length ≥ 64 := by
    have hlen := p.days_length_le
    rw [weekdayText_length]
    omega
  unfold loadPeriod
  rw [p.splitAtChar_line]
  dsimp only
  rw [if_neg hshort, scanPeriod_clockText, periodDays_weekdayText]
  rfl

end WeekPeriod

theorem loadPeriods_lines (global : Fin 7 → Bool) (ps : List WeekPeriod) :
    ∀ (acc : List TimePeriod) (old : Bool), acc.length + ps.length ≤ maxTimeList →
      loadPeriods global (ps.map WeekPeriod.line) acc old =
        some (acc ++ ps.map WeekPeriod.loaded, old) := by
  induction ps with
  | nil =>
      intro acc old _
      simp [loadPeriods]
  | cons p ps ih =>
      intro acc old hroom
      rw [List.length_cons] at hroom
      rw [List.map_cons, loadPeriods, if_neg (by omega), p.loadPeriod_line]
      dsimp only
      rw [ih _ _ (by simp only [List.length_append, Option.toList_some, List.length_singleton]
                     omega)]
      simp

/-- A list of printed periods is read back when it fits the buffer; it is written
past the end of the buffer otherwise. -/
theorem readSchedule_lines (global : Fin 7 → Bool) {ps : List WeekPeriod}
    (hnum : ps.length ≤ maxTimeList) :
    readSchedule global ((ps.map WeekPeriod.line).intersperse [' ']).flatten =
      if ((ps.map WeekPeriod.line).intersperse [' ']).flatten.length ≥ maxTimeListLen then none
      else some (ps.map WeekPeriod.loaded, false) := by
  have htokens : tokens ' ' ((ps.map WeekPeriod.line).intersperse [' ']).flatten =
      ps.map WeekPeriod.line := by
    refine tokens_join ?_
    intro t ht
    obtain ⟨p, -, rfl⟩ := List.mem_map.mp ht
    exact p.line_token
  unfold readSchedule
  rw [htokens, loadPeriods_lines global ps [] false (by simpa using hnum), List.nil_append]

/-! ## Global weekdays -/

/-- The printed global weekdays are read back. -/
theorem loadDays_weekdayText (days : Fin 7 → Bool) :
    loadDays (tokens ' ' (weekdayText ((List.finRange 7).filter days) [' '])) (fun _ => false) =
      some days := by
  have hload : ∀ (l : List (Fin 7)) (d : Fin 7 → Bool), ∃ d',
      loadDays (l.map (fun i => Nat.toDigits 10 i.val)) d = some d' := by
    intro l
    induction l with
    | nil => exact fun d => ⟨d, rfl⟩
    | cons i l ih =>
        intro d
        rw [List.map_cons, loadDays, dayIndex_digit]
        exact ih (setDay d i)
  rw [tokens_weekdayText rfl]
  obtain ⟨d', hd'⟩ := hload ((List.finRange 7).filter days) (fun _ => false)
  rw [hd']
  congr 1
  funext i
  rw [Bool.eq_iff_iff, loadDays_some hd' i]
  constructor
  · rintro (h | ⟨t, ht, hi⟩)
    · exact absurd h Bool.false_ne_true
    · obtain ⟨j, hj, rfl⟩ := List.mem_map.mp ht
      rw [dayIndex_digit] at hi
      obtain rfl := Option.some.inj hi
      exact (List.mem_filter.mp hj).2
  · intro hi
    refine Or.inr ⟨_, List.mem_map_of_mem (List.mem_filter.mpr ⟨List.mem_finRange i, hi⟩), ?_⟩
    exact dayIndex_digit i

end OpenAppFilter.Daemon
