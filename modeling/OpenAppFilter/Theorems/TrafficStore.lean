import OpenAppFilter.Theorems.TrafficTotals
import OpenAppFilter.Traffic.Store

/-!
# What the traffic tables add up to

The same increment goes to the minute, the day, the month and the year. So the rows
of the parts add up to the row of the whole, also after deletions that spare the
period, and also in a backup, so that a restored database shows it again.

The row of the day and the captured counters rise together. A backup has both, and
when the counters have outlived a power cut the next run books what was lost with
the memory.
-/

namespace OpenAppFilter.Theorems

open Base Traffic

/-! ## Texts of dates -/

theorem dash_not_mem_digits (n : Nat) : '-' ∉ Nat.toDigits 10 n := by
  intro hmem
  have hdigit := Nat.isDigit_of_mem_toDigits (by decide) (by decide) hmem
  exact absurd hdigit (by decide)

theorem dash_not_mem_padded (n : Nat) : '-' ∉ paddedNumber n := by
  unfold paddedNumber
  split
  · rw [List.mem_cons, not_or]
    exact ⟨by decide, dash_not_mem_digits n⟩
  · exact dash_not_mem_digits n

theorem yearText_dashes (y : Nat) : (yearText y).count '-' = 0 :=
  List.count_eq_zero.mpr (dash_not_mem_digits y)

theorem monthText_dashes (y mo : Nat) : (monthText y mo).count '-' = 1 := by
  have hmonth : (paddedNumber mo).count '-' = 0 := List.count_eq_zero.mpr (dash_not_mem_padded mo)
  unfold monthText
  rw [List.count_append, List.count_cons_self, yearText_dashes, hmonth]

/-- Two texts of as many dashes that end in one: neither goes on behind the other. -/
theorem eq_of_dash_append {a b z : CStr} (hcount : a.count '-' = b.count '-')
    (h : a ++ ['-'] ++ z = b ++ ['-']) : a = b := by
  rcases List.eq_nil_or_concat' z with rfl | ⟨z, c, rfl⟩
  · rw [List.append_nil] at h
    exact List.append_cancel_right h
  · rw [← List.append_assoc] at h
    obtain ⟨hb, -⟩ := List.append_inj' h rfl
    have hdashes := congrArg (List.count '-') hb
    rw [List.count_append, List.count_append, List.count_singleton_self] at hdashes
    omega

theorem within_iff {a b c : CStr} (hcount : a.count '-' = b.count '-') :
    within a (b ++ '-' :: c) = true ↔ a = b := by
  unfold within
  rw [List.isPrefixOf_iff_prefix]
  constructor
  · intro h
    have hb : b ++ ['-'] <+: b ++ '-' :: c := ⟨c, by simp⟩
    rcases List.prefix_or_prefix_of_prefix h hb with ⟨z, hz⟩ | ⟨z, hz⟩
    · exact eq_of_dash_append hcount hz
    · exact (eq_of_dash_append hcount.symm hz).symm
  · rintro rfl
    exact ⟨c, by simp⟩

theorem within_monthText (y y' mo : Nat) :
    within (yearText y) (monthText y' mo) = decide (yearText y' = yearText y) := by
  rw [Bool.eq_iff_iff, decide_eq_true_eq, eq_comm (a := yearText y')]
  exact within_iff ((yearText_dashes y).trans (yearText_dashes y').symm)

theorem within_dateText (y mo y' mo' d : Nat) :
    within (monthText y mo) (dateText y' mo' d) = decide (monthText y' mo' = monthText y mo) := by
  rw [Bool.eq_iff_iff, decide_eq_true_eq, eq_comm (a := monthText y' mo')]
  exact within_iff ((monthText_dashes y mo).trans (monthText_dashes y' mo').symm)

/-! ## One run of the collector -/

/-- The bytes of the devices that count. -/
def totalOf (dir : Dir) (devices : List Device) : Nat :=
  ((devices.filterMap sampleOf).map (fun s => dir.of s.flow)).sum

/-- The captured counters of the whole network. -/
def capturedOf (dir : Dir) (db : TrafficDb) : Nat := dir.of (db.captured .global)

/-- What a run adds to each table. -/
def increment (dir : Dir) (db : TrafficDb) (devices : List Device) : Nat :=
  computeDelta (totalOf dir devices) (capturedOf dir db)

theorem rowSum_add {κ : Type} [DecidableEq κ] (dir : Dir) (p : κ → Bool) (key : κ) {delta : Flow}
    {n : Nat} (hdelta : dir.of delta = n) (rows : List (κ × Flow)) :
    rowSum p dir.of (upsert key delta (·.add delta) rows) =
      rowSum p dir.of rows + if p key then n else 0 := by
  subst hdelta
  cases hp : p key with
  | true => exact rowSum_upsert hp rfl (fun a => dir.of_add a delta) rows
  | false => exact rowSum_upsert_other hp dir.of delta _ rows

/-- The tables of the whole network get the increment in the row of the time. -/
theorem tables_collect (dir : Dir) (db : TrafficDb) (t : LocalTime) {devices : List Device}
    (hlist : devices ≠ []) :
    let db' := collectTraffic db (collectionAt t devices)
    (∀ p, rowSum p dir.of db'.daily = rowSum p dir.of db.daily +
      if p (dateText t.year t.mon t.mday) then increment dir db devices else 0) ∧
    (∀ p, rowSum p dir.of db'.monthly = rowSum p dir.of db.monthly +
      if p (monthText t.year t.mon) then increment dir db devices else 0) ∧
    (∀ p, rowSum p dir.of db'.yearly = rowSum p dir.of db.yearly +
      if p (yearText t.year) then increment dir db devices else 0) ∧
    (∀ p, rowSum p dir.of db'.minute = rowSum p dir.of db.minute +
      if p (dateText t.year t.mon t.mday, t.timeText) then increment dir db devices else 0) ∧
    capturedOf dir db' = totalOf dir devices := by
  have hdelta : dir.of ((Flow.sum ((devices.filterMap sampleOf).map (·.flow))).delta
      (db.captured .global)) = increment dir db devices := by
    rw [dir.of_delta, dir.of_sum, List.map_map]
    rfl
  have hcaptured : rowOf CaptureKey.global (((devices.filterMap sampleOf)).foldl
      (fun rows s => upsert (.mac s.mac) s.flow (fun _ => s.flow) rows)
      (upsert .global (Flow.sum ((devices.filterMap sampleOf).map (·.flow)))
        (fun _ => Flow.sum ((devices.filterMap sampleOf).map (·.flow))) db.lastCapture)) =
      some (Flow.sum ((devices.filterMap sampleOf).map (·.flow))) := by
    rw [rowOf_foldl_upsert_other (fun s : Sample => CaptureKey.mac s.mac) (fun s => s.flow)
      (fun s _ => s.flow) _ (fun s _ h => CaptureKey.noConfusion h), rowOf_upsert, if_pos rfl]
    cases rowOf CaptureKey.global db.lastCapture <;> rfl
  unfold collectTraffic
  rw [if_neg (show (collectionAt t devices).devices ≠ [] from hlist)]
  refine ⟨fun p => ?_, fun p => ?_, fun p => ?_, fun p => ?_, ?_⟩
  · exact rowSum_add dir p _ hdelta _
  · exact rowSum_add dir p _ hdelta _
  · exact rowSum_add dir p _ hdelta _
  · exact rowSum_add dir p _ hdelta _
  · have hflow : dir.of (Flow.sum ((devices.filterMap sampleOf).map (·.flow))) =
        totalOf dir devices := by
      rw [dir.of_sum, List.map_map]
      rfl
    rw [← hflow]
    exact congrArg (fun row => dir.of (Option.getD row {})) hcaptured

/-! ## Parts and wholes -/

def monthsOfYear (dir : Dir) (y : Nat) (db : TrafficDb) : Nat :=
  rowSum (within (yearText y)) dir.of db.monthly

def yearTotal (dir : Dir) (y : Nat) (db : TrafficDb) : Nat :=
  rowSum (fun key => decide (key = yearText y)) dir.of db.yearly

def daysOfMonth (dir : Dir) (y mo : Nat) (db : TrafficDb) : Nat :=
  rowSum (within (monthText y mo)) dir.of db.daily

def monthTotal (dir : Dir) (y mo : Nat) (db : TrafficDb) : Nat :=
  rowSum (fun key => decide (key = monthText y mo)) dir.of db.monthly

def minutesOfDay (dir : Dir) (y mo d : Nat) (db : TrafficDb) : Nat :=
  rowSum (fun key : CStr × CStr => decide (key.1 = dateText y mo d)) dir.of db.minute

def dayTotal (dir : Dir) (y mo d : Nat) (db : TrafficDb) : Nat :=
  rowSum (fun key => decide (key = dateText y mo d)) dir.of db.daily

/-- The months of the year add up to it. -/
structure YearAddsUp (dir : Dir) (y : Nat) (db : TrafficDb) : Prop where
  months : ∀ key ∈ db.monthly.map Prod.fst, within (yearText y) key = true →
    ∃ mon, 0 < mon ∧ key = monthText y mon
  sum : monthsOfYear dir y db = yearTotal dir y db

/-- The days of the month add up to it. -/
structure MonthAddsUp (dir : Dir) (y mo : Nat) (db : TrafficDb) : Prop where
  days : ∀ key ∈ db.daily.map Prod.fst, within (monthText y mo) key = true →
    ∃ mday, 0 < mday ∧ key = dateText y mo mday
  sum : daysOfMonth dir y mo db = monthTotal dir y mo db

/-- The minutes of the day add up to it. -/
def DayAddsUp (dir : Dir) (y mo d : Nat) (db : TrafficDb) : Prop :=
  minutesOfDay dir y mo d db = dayTotal dir y mo d db

theorem collect_skips (db : TrafficDb) (t : LocalTime) :
    collectTraffic db (collectionAt t []) = db := if_pos rfl

/-- A run adds the same to both sides. -/
theorem YearAddsUp.collect {dir : Dir} {y : Nat} {db : TrafficDb} (h : YearAddsUp dir y db)
    (t : LocalTime) (devices : List Device) :
    YearAddsUp dir y (collectTraffic db (collectionAt t devices)) := by
  by_cases hlist : devices = []
  · rw [hlist, collect_skips]
    exact h
  · constructor
    case months =>
      unfold collectTraffic
      rw [if_neg (show (collectionAt t devices).devices ≠ [] from hlist)]
      intro key hkey hwithin
      rcases mem_keys_upsert.mp hkey with hold | rfl
      · exact h.months key hold hwithin
      · have hyear : yearText t.year = yearText y :=
          of_decide_eq_true ((within_monthText y t.year t.mon).symm.trans hwithin)
        refine ⟨t.mon, t.mon_pos, ?_⟩
        show monthText t.year t.mon = _
        unfold monthText
        rw [hyear]
    case sum =>
      obtain ⟨-, hmonthly, hyearly, -⟩ := tables_collect dir db t hlist
      have hsum := h.sum
      unfold monthsOfYear yearTotal at hsum ⊢
      rw [hmonthly, hyearly, within_monthText, hsum]

theorem MonthAddsUp.collect {dir : Dir} {y mo : Nat} {db : TrafficDb} (h : MonthAddsUp dir y mo db)
    (t : LocalTime) (devices : List Device) :
    MonthAddsUp dir y mo (collectTraffic db (collectionAt t devices)) := by
  by_cases hlist : devices = []
  · rw [hlist, collect_skips]
    exact h
  · constructor
    case days =>
      unfold collectTraffic
      rw [if_neg (show (collectionAt t devices).devices ≠ [] from hlist)]
      intro key hkey hwithin
      rcases mem_keys_upsert.mp hkey with hold | rfl
      · exact h.days key hold hwithin
      · have hmonth : monthText t.year t.mon = monthText y mo :=
          of_decide_eq_true ((within_dateText y mo t.year t.mon t.mday).symm.trans hwithin)
        refine ⟨t.mday, t.mday_pos, ?_⟩
        show dateText t.year t.mon t.mday = _
        unfold dateText
        rw [hmonth]
    case sum =>
      obtain ⟨hdaily, hmonthly, -⟩ := tables_collect dir db t hlist
      have hsum := h.sum
      unfold daysOfMonth monthTotal at hsum ⊢
      rw [hdaily, hmonthly, within_dateText, hsum]

theorem DayAddsUp.collect {dir : Dir} {y mo d : Nat} {db : TrafficDb} (h : DayAddsUp dir y mo d db)
    (t : LocalTime) (devices : List Device) :
    DayAddsUp dir y mo d (collectTraffic db (collectionAt t devices)) := by
  by_cases hlist : devices = []
  · rw [hlist, collect_skips]
    exact h
  · obtain ⟨hdaily, -, -, hminute, -⟩ := tables_collect dir db t hlist
    unfold DayAddsUp minutesOfDay dayTotal at h ⊢
    rw [hminute, hdaily, h]

/-! ## Deletions -/

/-- The cutoffs of an event; `cleanup` deletes no month and no year. -/
def cutoffsOf : TrafficAct → Option Cutoffs
  | .collect _ _ _ cut => some cut
  | .cleanup days minutes => some ⟨days, minutes, [], []⟩
  | _ => none

/-- The deletion leaves the year and its months. -/
def YearSpared (y : Nat) (cut : Cutoffs) : Prop :=
  (∀ mon, 0 < mon → ¬ monthText y mon < cut.months) ∧ ¬ yearText y < cut.years

/-- The deletion leaves the month and its days. -/
def MonthSpared (y mo : Nat) (cut : Cutoffs) : Prop :=
  (∀ mday, 0 < mday → ¬ dateText y mo mday < cut.days) ∧ ¬ monthText y mo < cut.months

/-- The deletion leaves the day and its minutes. -/
def DaySpared (y mo d : Nat) (cut : Cutoffs) : Prop :=
  ¬ dateText y mo d < cut.minutes ∧ ¬ dateText y mo d < cut.days

theorem deleteBefore_nil {α : Type} (rows : List (CStr × α)) : deleteBefore [] rows = rows := by
  unfold deleteBefore deleteRows
  rw [List.filter_eq_self]
  intro row _
  simp

theorem cleanup_eq (db : TrafficDb) (days minutes : CStr) :
    db.cleanup days minutes = db.autoCleanup ⟨days, minutes, [], []⟩ := by
  unfold TrafficDb.autoCleanup
  rw [deleteBefore_nil, deleteBefore_nil]
  rfl

theorem rowSum_deleteBefore {α : Type} {p : CStr → Bool} {cutoff : CStr} {rows : List (CStr × α)}
    (h : ∀ key ∈ rows.map Prod.fst, p key = true → ¬ key < cutoff) (f : α → Nat) :
    rowSum p f (deleteBefore cutoff rows) = rowSum p f rows :=
  rowSum_deleteRows (fun key hmem hkey => decide_eq_false (h key hmem hkey)) f

/-- The row of one key. -/
theorem rowSum_deleteBefore_key {α : Type} {key cutoff : CStr} (h : ¬ key < cutoff) (f : α → Nat)
    (rows : List (CStr × α)) :
    rowSum (fun k => decide (k = key)) f (deleteBefore cutoff rows) =
      rowSum (fun k => decide (k = key)) f rows := by
  apply rowSum_deleteBefore
  intro k _ hk
  rw [of_decide_eq_true hk]
  exact h

/-- The rows of one date. -/
theorem rowSum_deleteDatesBefore_date {α : Type} {date cutoff : CStr} (h : ¬ date < cutoff)
    (f : α → Nat) (rows : List ((CStr × CStr) × α)) :
    rowSum (fun k => decide (k.1 = date)) f (deleteDatesBefore cutoff rows) =
      rowSum (fun k => decide (k.1 = date)) f rows := by
  apply rowSum_deleteRows
  intro k _ hk
  rw [of_decide_eq_true hk]
  exact decide_eq_false h

theorem YearAddsUp.autoCleanup {dir : Dir} {y : Nat} {db : TrafficDb} (h : YearAddsUp dir y db)
    {cut : Cutoffs} (hspared : YearSpared y cut) : YearAddsUp dir y (db.autoCleanup cut) := by
  constructor
  case months =>
    exact fun key hkey => h.months key (keys_deleteRows (fun key => decide (key < cut.months)) _ hkey)
  case sum =>
    have hmonths : monthsOfYear dir y (db.autoCleanup cut) = monthsOfYear dir y db := by
      refine rowSum_deleteBefore (fun key hkey hwithin => ?_) dir.of
      obtain ⟨mon, hpos, rfl⟩ := h.months key hkey hwithin
      exact hspared.1 mon hpos
    have hyear : yearTotal dir y (db.autoCleanup cut) = yearTotal dir y db :=
      rowSum_deleteBefore_key hspared.2 dir.of db.yearly
    rw [hmonths, hyear, h.sum]

theorem MonthAddsUp.autoCleanup {dir : Dir} {y mo : Nat} {db : TrafficDb} (h : MonthAddsUp dir y mo db)
    {cut : Cutoffs} (hspared : MonthSpared y mo cut) : MonthAddsUp dir y mo (db.autoCleanup cut) := by
  constructor
  case days =>
    exact fun key hkey => h.days key (keys_deleteRows (fun key => decide (key < cut.days)) _ hkey)
  case sum =>
    have hdays : daysOfMonth dir y mo (db.autoCleanup cut) = daysOfMonth dir y mo db := by
      refine rowSum_deleteBefore (fun key hkey hwithin => ?_) dir.of
      obtain ⟨mday, hpos, rfl⟩ := h.days key hkey hwithin
      exact hspared.1 mday hpos
    have hmonth : monthTotal dir y mo (db.autoCleanup cut) = monthTotal dir y mo db :=
      rowSum_deleteBefore_key hspared.2 dir.of db.monthly
    rw [hdays, hmonth, h.sum]

theorem DayAddsUp.autoCleanup {dir : Dir} {y mo d : Nat} {db : TrafficDb} (h : DayAddsUp dir y mo d db)
    {cut : Cutoffs} (hspared : DaySpared y mo d cut) : DayAddsUp dir y mo d (db.autoCleanup cut) := by
  have hminutes : minutesOfDay dir y mo d (db.autoCleanup cut) = minutesOfDay dir y mo d db :=
    rowSum_deleteDatesBefore_date hspared.1 dir.of db.minute
  have hday : dayTotal dir y mo d (db.autoCleanup cut) = dayTotal dir y mo d db :=
    rowSum_deleteBefore_key hspared.2 dir.of db.daily
  unfold DayAddsUp
  rw [hminutes, hday, h]

/-! ## Runs of the store -/

/-- The database and the backup, when they are there, have the property. -/
def StoreHolds (P : TrafficDb → Prop) (s : TrafficStore) : Prop :=
  (∀ db, s.db = some db → P db) ∧ ∀ db, s.backup = .saved db → P db

/-- The event writes tables. -/
def WritesTables : TrafficAct → Prop
  | .collect _ _ _ _ => True
  | .cleanup _ _ => True
  | _ => False

/-- Every other event copies or drops a whole database. -/
theorem StoreHolds.step {P : TrafficDb → Prop} {s : TrafficStore} (h : StoreHolds P s) {a : TrafficAct}
    (hwrites : WritesTables a → ∀ db, (trafficStep s a).db = some db → P db) :
    StoreHolds P (trafficStep s a) := by
  obtain ⟨old, backup, lastCleanup⟩ := s
  cases a with
  | collect now t devices cut =>
      refine ⟨hwrites trivial, ?_⟩
      have hbackup : (TrafficStore.collect ⟨old, backup, lastCleanup⟩ now t devices cut).backup =
          backup := by
        unfold TrafficStore.collect
        dsimp only
        split <;> rfl
      intro db hdb
      exact h.2 db (hbackup.symm.trans hdb)
  | cleanup days minutes => exact ⟨hwrites trivial, h.2⟩
  | persist =>
      cases old with
      | none => exact h
      | some old =>
          refine ⟨h.1, fun db hdb => ?_⟩
          obtain rfl := Backup.saved.inj hdb
          exact h.1 _ rfl
  | restore =>
      cases backup with
      | missing => exact h
      | damaged => exact ⟨h.1, fun db hdb => (nomatch hdb)⟩
      | saved old =>
          refine ⟨fun db hdb => ?_, h.2⟩
          obtain rfl := Option.some.inj hdb
          exact h.2 _ rfl
  | clearBackup => exact ⟨h.1, fun db hdb => (nomatch hdb)⟩
  | powerCut spoilsBackup =>
      refine ⟨fun db hdb => (nomatch hdb), fun db hdb => ?_⟩
      cases spoilsBackup with
      | true => exact nomatch hdb
      | false => exact h.2 db hdb

/-- What the empty database has, what a run of the collector keeps, and what the
deletions of the events keep, the database has after every event. -/
theorem store_keeps {P : TrafficDb → Prop} (hempty : P {})
    (hcollect : ∀ db t devices, P db → P (collectTraffic db (collectionAt t devices)))
    {es : List TrafficAct}
    (hdelete : ∀ a ∈ es, ∀ cut ∈ cutoffsOf a, ∀ db, P db → P (db.autoCleanup cut)) {db : TrafficDb}
    (hdb : (run trafficStep {} es).db = some db) : P db := by
  let C : TrafficStore → TrafficAct → Prop := fun _ a =>
    ∀ cut ∈ cutoffsOf a, ∀ db, P db → P (db.autoCleanup cut)
  have hstep : ∀ s a, StoreHolds P s → C s a → StoreHolds P (trafficStep s a) := by
    intro s a hs ha
    have hold : P (s.db.getD {}) := by
      cases hdb : s.db with
      | none => exact hempty
      | some db => exact hs.1 db hdb
    apply hs.step
    intro hwrites db hdb
    cases a with
    | collect now t devices cut =>
        have hnew := hcollect _ t devices hold
        change (s.collect now t devices cut).db = some db at hdb
        unfold TrafficStore.collect at hdb
        dsimp only at hdb
        split at hdb
        · obtain rfl := Option.some.inj hdb
          exact ha cut rfl _ hnew
        · obtain rfl := Option.some.inj hdb
          exact hnew
    | cleanup days minutes =>
        obtain rfl := Option.some.inj hdb
        rw [cleanup_eq]
        exact ha _ rfl _ hold
    | persist => exact hwrites.elim
    | restore => exact hwrites.elim
    | clearBackup => exact hwrites.elim
    | powerCut spoilsBackup => exact hwrites.elim
  have hstart : StoreHolds P {} := ⟨fun db hdb => (nomatch hdb), fun db hdb => (nomatch hdb)⟩
  have hrun : StoreHolds P (run trafficStep {} es) := by
    refine run_invariant hstep hstart (fun pre a post heq => hdelete a ?_)
    rw [heq]
    simp
  exact hrun.1 db hdb

/-! ## Every period adds up -/

/-- The bytes of the rows that are shown. -/
def shownBytes (dir : Dir) (rows : List (CStr × Flow)) : Nat := (rows.map (fun row => dir.of row.2)).sum

theorem shownBytes_selectRows (dir : Dir) (p : CStr → Bool) (rows : List (CStr × Flow)) :
    shownBytes dir (selectRows p rows) = rowSum p dir.of rows := by
  unfold shownBytes selectRows rowSum
  exact ((List.mergeSort_perm _ _).map _).sum_nat

/-- The minutes of a day that lie behind `now_time`. -/
def laterBytes (dir : Dir) (y mo d : Nat) (nowTime : CStr) (db : TrafficDb) : Nat :=
  rowSum (fun key : CStr × CStr => decide (key.1 = dateText y mo d) && !decide (key.2 ≤ nowTime))
    dir.of db.minute

/-- The minutes of a day are those shown and those that lie behind. -/
theorem minutesOfDay_split (dir : Dir) (y mo d : Nat) (nowTime : CStr) (db : TrafficDb) :
    shownBytes dir (db.queryDay y mo d nowTime).parts + laterBytes dir y mo d nowTime db =
      minutesOfDay dir y mo d db := by
  have hparts : (db.queryDay y mo d nowTime).parts =
      selectRows (fun time => decide (time ≤ nowTime))
        ((db.minute.filter (fun row => row.1.1 = dateText y mo d)).map (fun row => (row.1.2, row.2))) := rfl
  rw [hparts, shownBytes_selectRows]
  unfold laterBytes minutesOfDay rowSum
  induction db.minute with
  | nil => rfl
  | cons row rows ih =>
      by_cases hday : row.1.1 = dateText y mo d
      · by_cases htime : row.1.2 ≤ nowTime
        · simp only [List.filter_cons, hday, htime, decide_true, Bool.not_true, Bool.and_false,
            Bool.false_eq_true, if_true, if_false, List.map_cons, List.sum_cons] at ih ⊢
          omega
        · simp only [List.filter_cons, hday, htime, decide_true, decide_false, Bool.not_false,
            Bool.and_true, Bool.false_eq_true, if_true, if_false, List.map_cons, List.sum_cons] at ih ⊢
          omega
      · simp only [List.filter_cons, hday, decide_false, Bool.false_and, Bool.false_eq_true,
          if_false] at ih ⊢
        exact ih

/-- **The parts of every period add up to it.** After any collections, deletions,
backups, restarts and power cuts: the months of a year that no deletion reached add up
to the year, the days of a month to the month, and the minutes of a day, those shown
and those later than the hour of the query, to the day. -/
theorem traffic_tables_add_up (es : List TrafficAct) {db : TrafficDb}
    (hdb : (run trafficStep {} es).db = some db) (dir : Dir) :
    (∀ y, (∀ a ∈ es, ∀ cut ∈ cutoffsOf a, YearSpared y cut) →
      shownBytes dir (db.queryYear y).parts = shownBytes dir (db.queryYear y).whole) ∧
    (∀ y mo, (∀ a ∈ es, ∀ cut ∈ cutoffsOf a, MonthSpared y mo cut) →
      shownBytes dir (db.queryMonth y mo).parts = shownBytes dir (db.queryMonth y mo).whole) ∧
    (∀ y mo d nowTime, (∀ a ∈ es, ∀ cut ∈ cutoffsOf a, DaySpared y mo d cut) →
      shownBytes dir (db.queryDay y mo d nowTime).parts + laterBytes dir y mo d nowTime db =
        shownBytes dir (db.queryDay y mo d nowTime).whole) := by
  refine ⟨fun y hspared => ?_, fun y mo hspared => ?_, fun y mo d nowTime hspared => ?_⟩
  · have hyear : YearAddsUp dir y db := by
      refine store_keeps ⟨fun key hkey => absurd hkey List.not_mem_nil, rfl⟩ ?_ ?_ hdb
      · exact fun db t devices h => h.collect t devices
      · exact fun a ha cut hcut db h => h.autoCleanup (hspared a ha cut hcut)
    exact (shownBytes_selectRows dir _ _).trans hyear.sum
  · have hmonth : MonthAddsUp dir y mo db := by
      refine store_keeps ⟨fun key hkey => absurd hkey List.not_mem_nil, rfl⟩ ?_ ?_ hdb
      · exact fun db t devices h => h.collect t devices
      · exact fun a ha cut hcut db h => h.autoCleanup (hspared a ha cut hcut)
    exact (shownBytes_selectRows dir _ _).trans hmonth.sum
  · have hday : DayAddsUp dir y mo d db := by
      refine store_keeps (P := DayAddsUp dir y mo d) rfl ?_ ?_ hdb
      · exact fun db t devices h => h.collect t devices
      · exact fun a ha cut hcut db h => h.autoCleanup (hspared a ha cut hcut)
    exact (minutesOfDay_split dir y mo d nowTime db).trans hday

/-! ## Power cuts -/

/-- An event of a day on which the counters survive: it collects on the day, from a
database that is there and whose captured counters have been reached, no deletion is
due, and no backup is spoilt. -/
def SteadyDay (y mo d : Nat) (s : TrafficStore) : TrafficAct → Prop
  | .collect now t devices _ =>
      t.year = y ∧ t.mon = mo ∧ t.mday = d ∧ now - s.lastCleanup ≤ 86400 ∧
        ∃ db, s.db = some db ∧ (devices ≠ [] → ∀ dir, capturedOf dir db ≤ totalOf dir devices)
  | .cleanup _ _ => False
  | .powerCut spoilsBackup => spoilsBackup = false
  | _ => True

/-- What the tables have of the day, its month and its year has grown with the captured
counters since `db₀`. -/
structure GrownAlike (y mo d : Nat) (db₀ db : TrafficDb) : Prop where
  day : ∀ dir, dayTotal dir y mo d db + capturedOf dir db₀ = dayTotal dir y mo d db₀ + capturedOf dir db
  month : ∀ dir, monthTotal dir y mo db + capturedOf dir db₀ = monthTotal dir y mo db₀ + capturedOf dir db
  year : ∀ dir, yearTotal dir y db + capturedOf dir db₀ = yearTotal dir y db₀ + capturedOf dir db

/-- A total that gets the increment keeps step with the captured counters. -/
theorem total_keeps_step {dir : Dir} {total : TrafficDb → Nat} {db₀ db db' : TrafficDb}
    {devices : List Device}
    (hbefore : total db + capturedOf dir db₀ = total db₀ + capturedOf dir db)
    (hreached : capturedOf dir db ≤ totalOf dir devices)
    (hrow : total db' = total db + increment dir db devices)
    (hcaptured : capturedOf dir db' = totalOf dir devices) :
    total db' + capturedOf dir db₀ = total db₀ + capturedOf dir db' := by
  -- the counters have grown, so the increment is the difference
  have hdelta : increment dir db devices + capturedOf dir db = totalOf dir devices := by
    have hcover := computeDelta_add_covered (totalOf dir devices) (capturedOf dir db)
    unfold covered at hcover
    rwa [if_pos hreached] at hcover
  omega

theorem GrownAlike.collect {y mo d : Nat} {db₀ db : TrafficDb} (h : GrownAlike y mo d db₀ db)
    {t : LocalTime} (hyear : t.year = y) (hmon : t.mon = mo) (hmday : t.mday = d)
    {devices : List Device}
    (hreached : devices ≠ [] → ∀ dir, capturedOf dir db ≤ totalOf dir devices) :
    GrownAlike y mo d db₀ (collectTraffic db (collectionAt t devices)) := by
  subst hyear hmon hmday
  by_cases hlist : devices = []
  · rw [hlist, collect_skips]
    exact h
  · constructor
    case day =>
      intro dir
      obtain ⟨hdaily, -, -, -, hcaptured⟩ := tables_collect dir db t hlist
      refine total_keeps_step (h.day dir) (hreached hlist dir) ?_ hcaptured
      unfold dayTotal
      rw [hdaily, decide_eq_true rfl, if_pos rfl]
    case month =>
      intro dir
      obtain ⟨-, hmonthly, -, -, hcaptured⟩ := tables_collect dir db t hlist
      refine total_keeps_step (h.month dir) (hreached hlist dir) ?_ hcaptured
      unfold monthTotal
      rw [hmonthly, decide_eq_true rfl, if_pos rfl]
    case year =>
      intro dir
      obtain ⟨-, -, hyearly, -, hcaptured⟩ := tables_collect dir db t hlist
      refine total_keeps_step (h.year dir) (hreached hlist dir) ?_ hcaptured
      unfold yearTotal
      rw [hyearly, decide_eq_true rfl, if_pos rfl]

/-- A collection on which no deletion is due. -/
theorem collect_db {s : TrafficStore} {now : Int} {t : LocalTime} {devices : List Device} {cut : Cutoffs}
    (hdue : now - s.lastCleanup ≤ 86400) {db : TrafficDb} (hdb : s.db = some db) :
    (trafficStep s (.collect now t devices cut)).db =
      some (collectTraffic db (collectionAt t devices)) := by
  have hnone : ¬ (devices ≠ [] ∧ now - s.lastCleanup > 86400) := by
    rintro ⟨-, hgt⟩
    exact absurd hdue (not_le.mpr hgt)
  show (s.collect now t devices cut).db = _
  unfold TrafficStore.collect
  rw [if_neg hnone, hdb]
  rfl

theorem grownAlike_step {y mo d : Nat} {db₀ : TrafficDb} (s : TrafficStore) (a : TrafficAct)
    (h : StoreHolds (GrownAlike y mo d db₀) s) (ha : SteadyDay y mo d s a) :
    StoreHolds (GrownAlike y mo d db₀) (trafficStep s a) := by
  apply h.step
  intro hwrites db' hdb'
  cases a with
  | collect now t devices cut =>
      obtain ⟨hyear, hmon, hmday, hdue, db, hdb, hreached⟩ := ha
      rw [collect_db hdue hdb] at hdb'
      obtain rfl := Option.some.inj hdb'
      exact (h.1 db hdb).collect hyear hmon hmday hreached
  | cleanup days minutes => exact ha.elim
  | persist => exact hwrites.elim
  | restore => exact hwrites.elim
  | clearBackup => exact hwrites.elim
  | powerCut spoilsBackup => exact hwrites.elim

def februaryNoon (mday : Nat) (h : 0 < mday) : LocalTime := ⟨2025, 2, mday, 12, 0, by decide, h⟩

/-- The cutoffs of the first of March. -/
def marchCutoffs : Cutoffs :=
  { days := "2024-12-01".toList
    minutes := "2025-02-28".toList
    months := "2024-03".toList
    years := "2020".toList }

theorem february_spared : MonthSpared 2025 2 marchCutoffs := by
  constructor
  · intro mday _
    have hyears : ∀ s s' : CStr, ¬ '2' :: '0' :: '2' :: '5' :: s < '2' :: '0' :: '2' :: '4' :: s' := by
      intro s s' h
      simp [List.cons_lt_cons_iff] at h
    exact hyears _ _
  · decide

/-- Two collections, a backup, a third one that is lost, and the counters of the third met again. -/
def powerCutRun : List TrafficAct :=
  [.collect 1000 (februaryNoon 27 (by decide)) [laptop 100 400] marchCutoffs,
    .collect 1060 (februaryNoon 28 (by decide)) [laptop 150 450] marchCutoffs,
    .persist,
    .collect 1120 (februaryNoon 28 (by decide)) [laptop 180 500] marchCutoffs,
    .powerCut false, .restore,
    .collect 1180 (februaryNoon 28 (by decide)) [laptop 200 600] marchCutoffs]

theorem traffic_tables_add_up_february :
    ∃ db, (run trafficStep {} powerCutRun).db = some db ∧
      shownBytes .up (db.queryMonth 2025 2).parts = shownBytes .up (db.queryMonth 2025 2).whole := by
  refine ⟨_, rfl, ?_⟩
  refine (traffic_tables_add_up powerCutRun rfl .up).2.1 2025 2 ?_
  intro a ha cut hcut
  simp only [powerCutRun, List.mem_cons, List.not_mem_nil, or_false] at ha
  rcases ha with rfl | rfl | rfl | rfl | rfl | rfl | rfl
  all_goals cases hcut
  all_goals exact february_spared

/-- The store after the first two collections. -/
def februaryStore : TrafficStore := run trafficStep {} (powerCutRun.take 2)

end OpenAppFilter.Theorems
