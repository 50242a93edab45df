import OpenAppFilter.Daemon.TimeRead
import OpenAppFilter.Theorems.DailyLimit

/-!
# A rejected time request

`handle_set_app_filter_time` stores the options one by one and checks the
request in between; a request it gives up on has already changed what stood in
front of the check. The mode and the global weekdays are always written first,
and in mode 0 the period list is deleted and refilled up to the entry that has
no start or end.

The next load reads the configuration of before iff none of this was news: the
mode is the stored one, the weekdays are the stored ones, and the entries in
front of the bad one read as the stored schedule.
-/

namespace OpenAppFilter.Theorems

open Base Daemon

/-! ## What the written texts read as -/

@[simp] theorem afUciGetIntValue_set (n : Int32) :
    afUciGetIntValue (afUciSetIntValue n) = n := by
  have hne : decimal n ≠ [] := by
    unfold decimal
    split
    · exact Nat.toDigits_ne_nil
    · simp
  unfold afUciSetIntValue afUciSetValue
  rw [if_neg hne]
  exact atoi_decimal n

/-- The text of one weekday number: seven characters of `%d`. -/
def dayText (n : Int32) : CStr := (decimal n).take 7

theorem dayText_chars {n : Int32} {c : Char} (h : c ∈ dayText n) : c.isDigit = true ∨ c = '-' :=
  mem_decimal (List.mem_of_mem_take h)

theorem dayText_ok (n : Int32) : dayText n ≠ [] ∧ ' ' ∉ dayText n := by
  refine ⟨?_, ?_⟩
  · unfold dayText decimal
    split
    · rename_i m hm
      obtain ⟨d, ds, hds⟩ := List.exists_cons_of_ne_nil (Nat.toDigits_ne_nil (n := m) (b := 10))
      rw [hds]
      simp
    · simp
  · intro hmem
    rcases dayText_chars hmem with h | h
    · exact absurd h (by decide)
    · exact absurd h (by decide)

theorem atoi_toDigits (m : Nat) : atoi (Nat.toDigits 10 m) = Int32.ofInt m := by
  obtain ⟨d, ds, hds⟩ := List.exists_cons_of_ne_nil (Nat.toDigits_ne_nil (n := m) (b := 10))
  have hd : d.isDigit = true :=
    Nat.isDigit_of_mem_toDigits (b := 10) (n := m) (by decide) (by decide)
      (by rw [hds]; exact List.mem_cons_self)
  have hvalue := @natPrefix_toDigits m [] trivial
  rw [List.append_nil, hds] at hvalue
  rw [hds, atoi_of_digit hd, hvalue]

theorem atoi_minus_toDigits (m : Nat) : atoi ('-' :: Nat.toDigits 10 m) = Int32.ofInt (-m) := by
  have hskip : skipSpaces ('-' :: Nat.toDigits 10 m) = '-' :: Nat.toDigits 10 m := by
    simp [skipSpaces, isSpace]
  have hvalue := @natPrefix_toDigits m [] trivial
  rw [List.append_nil] at hvalue
  unfold atoi
  rw [hskip]
  simp only [hvalue]

/-- A number that had to be cut off is no weekday, cut off or not. -/
theorem dayIndex_dayText (n : Int32) : dayIndex (atoi (dayText n)) = dayIndex n := by
  have hnone : ∀ k : Int, 7 ≤ k ∨ k < 0 → k < 2 ^ 31 → -2 ^ 31 ≤ k →
      dayIndex (Int32.ofInt k) = none := by
    intro k hout hhi hlo
    unfold dayIndex
    rw [dif_neg]
    rw [Int32.toInt_ofInt_of_le hlo hhi]
    omega
  unfold dayText decimal
  cases hn : n.toInt with
  | ofNat m =>
      dsimp only
      obtain ⟨m', htake, -, hsmall, hsame, hbig⟩ := take_toDigits (j := 7) (by omega) m
      rw [htake, atoi_toDigits]
      have hback : Int32.ofInt (Int.ofNat m) = n := by
        rw [← hn]
        exact Int32.ofInt_toInt n
      by_cases hfit : m < 10 ^ 7
      · rw [hsame hfit]
        exact congrArg dayIndex hback
      · have hm' := hbig (by omega)
        rw [hnone m' (by omega) (by omega) (by omega)]
        unfold dayIndex
        rw [dif_neg]
        rw [hn]
        simp only [Int.ofNat_eq_natCast]
        omega
  | negSucc m =>
      dsimp only
      obtain ⟨m', htake, -, hsmall, hsame, hbig⟩ := take_toDigits (j := 6) (by omega) (m + 1)
      have hcut : ('-' :: Nat.toDigits 10 (m + 1)).take 7 = '-' :: Nat.toDigits 10 m' := by
        rw [List.take_succ_cons, htake]
      have hpos : 0 < m' := by
        by_cases hfit : m + 1 < 10 ^ 6
        · rw [hsame hfit]
          omega
        · have hm' := hbig (by omega)
          omega
      rw [hcut, atoi_minus_toDigits, hnone _ (by omega) (by omega) (by omega)]
      unfold dayIndex
      rw [dif_neg]
      rw [hn]
      omega

/-- A stored text that fits the buffer is read back. -/
theorem afUciGetValue_set {t : CStr} {size : Nat} (h : t.length ≤ size - 1) :
    afUciGetValue (afUciSetValue t) size = t := by
  unfold afUciGetValue afUciSetValue
  by_cases hnil : t = []
  · rw [if_pos hnil, hnil]
    simp
  · rw [if_neg hnil]
    exact List.take_of_length_le h

/-- The stored weekday list has one token for each number. -/
theorem tokens_weekdays {ns : List Int32} {s : CStr} (h : joinNumbers ns [' '] 128 = some s) :
    tokens ' ' (afUciGetValue (afUciSetValue s) 128) = ns.map dayText := by
  unfold joinNumbers at h
  dsimp only at h
  split at h
  · exact absurd h (by simp)
  · rename_i hshort
    obtain rfl := Option.some.inj h
    rw [afUciGetValue_set (by omega)]
    refine tokens_join ?_
    intro t ht
    obtain ⟨n, -, rfl⟩ := List.mem_map.mp ht
    exact dayText_ok n

/-! ## What a rejected request has written -/

/-- The texts of the periods in front of the first entry without start or
end. -/
def textsBefore : List PeriodEntry → List CStr
  | [] => []
  | p :: ps =>
      match periodText p with
      | some (some s) => s :: textsBefore ps
      | _ => []

theorem periodText_length {p : PeriodEntry} {s : CStr} (h : periodText p = some (some s)) :
    s.length < 256 := by
  unfold periodText at h
  split at h
  · dsimp only at h
    split at h
    · split at h
      · split at h
        · exact absurd h (by simp)
        · obtain rfl := Option.some.inj (Option.some.inj h)
          omega
      · exact absurd h (by simp)
    · split at h
      · exact absurd h (by simp)
      · obtain rfl := Option.some.inj (Option.some.inj h)
        omega
  · exact absurd h (by simp)

/-- The list read from an option that holds these strings. -/
def ListValue (o : Option UciValue) (l : List CStr) : Prop :=
  (l = [] ∧ o = none) ∨ (l ≠ [] ∧ o = some (.list l))

theorem ListValue.add {o : Option UciValue} {l : List CStr} (h : ListValue o l) {s : CStr}
    (hs : s.length < 256) : ListValue (afUciAddList o s) (l ++ [s]) := by
  have hroom : ¬ s.length + 19 ≥ maxParamListLen - 1 := by
    unfold maxParamListLen
    omega
  refine Or.inr ⟨by simp, ?_⟩
  unfold afUciAddList
  rw [if_neg hroom]
  rcases h with ⟨rfl, rfl⟩ | ⟨-, rfl⟩ <;> rfl

theorem ListValue.text {o : Option UciValue} {l : List CStr} (h : ListValue o l) :
    afUciGetListValue o = (l.intersperse [' ']).flatten := by
  rcases h with ⟨rfl, rfl⟩ | ⟨-, rfl⟩ <;> rfl

/-- The loop that gives up leaves the entries it had stored. -/
theorem storePeriods_rejected {ps : List PeriodEntry} {o o' : Option UciValue} {l : List CStr}
    (hl : ListValue o l) (h : storePeriods ps o = some (o', false)) :
    ListValue o' (l ++ textsBefore ps) := by
  induction ps generalizing o l with
  | nil => exact absurd h (by simp [storePeriods])
  | cons p ps ih =>
      unfold storePeriods at h
      unfold textsBefore
      cases hp : periodText p with
      | none =>
          rw [hp] at h
          exact absurd h (by simp)
      | some r =>
          rw [hp] at h
          cases r with
          | none =>
              obtain ⟨rfl, -⟩ := Prod.mk.inj (Option.some.inj h)
              rw [List.append_nil]
              exact hl
          | some s =>
              have htail := ih (hl.add (periodText_length hp)) h
              rw [List.append_assoc] at htail
              exact htail

/-- Everything a rejected request may have written. -/
structure Written (u : UciTime) (req : SetTimeReq) (mode : Int32) (u' : UciTime) : Prop where
  rest : u' = { u with timeMode := afUciSetIntValue mode, days := u'.days, time := u'.time }
  modes : mode = 0 ∨ mode = 1 ∨ mode = 2
  days : (∀ ns, req.weekdayList = some ns → mode = 0 ∨ mode = 1 → dayTokens u' = ns.map dayText) ∧
    (req.weekdayList = none ∨ mode = 2 → u'.days = u.days)
  time : (∀ ps, req.timeList = some ps → mode = 0 →
      afUciGetListValue u'.time = ((textsBefore ps).intersperse [' ']).flatten) ∧
    (req.timeList = none ∨ mode ≠ 0 → u'.time = u.time)

/-- The section after the writes in front of the checks: mode and weekdays. -/
structure DaysWritten (u : UciTime) (req : SetTimeReq) (mode : Int32) (v : UciTime) : Prop where
  rest : v = { u with timeMode := afUciSetIntValue mode, days := v.days }
  days : ∀ ns, req.weekdayList = some ns → mode = 0 ∨ mode = 1 → dayTokens v = ns.map dayText
  same : req.weekdayList = none ∨ ¬ (mode = 0 ∨ mode = 1) → v.days = u.days

theorem written_days {u : UciTime} {req : SetTimeReq} {mode : Int32} {v : UciTime}
    (h : (match req.weekdayList with
      | some ns =>
          if mode = 0 ∨ mode = 1 then
            (joinNumbers ns [' '] 128).map (fun s =>
              { u with timeMode := afUciSetIntValue mode, days := afUciSetValue s })
          else some { u with timeMode := afUciSetIntValue mode }
      | none => some { u with timeMode := afUciSetIntValue mode }) = some v) :
    DaysWritten u req mode v := by
  cases hlist : req.weekdayList with
  | none =>
      rw [hlist] at h
      obtain rfl := Option.some.inj h
      refine ⟨rfl, fun ns hns => ?_, fun _ => rfl⟩
      rw [hlist] at hns
      exact absurd hns (by simp)
  | some ns =>
      rw [hlist] at h
      dsimp only at h
      by_cases hmode : mode = 0 ∨ mode = 1
      · rw [if_pos hmode] at h
        obtain ⟨s, hs, rfl⟩ := Option.map_eq_some_iff.mp h
        refine ⟨rfl, ?_, ?_⟩
        · intro ns' hns' _
          obtain rfl := Option.some.inj (hlist.symm.trans hns')
          exact tokens_weekdays hs
        · rintro (hnone | hnot)
          · exact absurd (hlist.symm.trans hnone) (by simp)
          · exact absurd hmode hnot
      · rw [if_neg hmode] at h
        obtain rfl := Option.some.inj h
        exact ⟨rfl, fun _ _ hm => absurd hm hmode, fun _ => rfl⟩

/-- Where a request with a mode is rejected: in mode 0 without a list, in the middle
of its list, or in the other modes before anything else is written. -/
theorem rejected_cases {u u' : UciTime} {req : SetTimeReq} {mode : Int32}
    (hmode : req.mode = some mode) (h : handleSetAppFilterTime u req = some (u', false)) :
    ∃ v, DaysWritten u req mode v ∧
      ((mode = 0 ∧ req.timeList = none ∧ u' = v) ∨
        (∃ ps list, mode = 0 ∧ req.timeList = some ps ∧ storePeriods ps none = some (list, false) ∧
          u' = { v with time := list }) ∨
        ((mode = 1 ∨ mode = 2) ∧ u' = v)) := by
  unfold handleSetAppFilterTime at h
  rw [hmode] at h
  dsimp only at h
  split at h
  · exact absurd h (by simp)
  · rename_i v hv
    refine ⟨v, written_days hv, ?_⟩
    split at h
    · rename_i h0
      cases hlist : req.timeList with
      | none =>
          rw [hlist] at h
          exact Or.inl ⟨h0, rfl, (Prod.mk.inj (Option.some.inj h)).1.symm⟩
      | some ps =>
          rw [hlist] at h
          obtain ⟨r, hstore, heq⟩ := Option.map_eq_some_iff.mp h
          obtain ⟨rfl, hrej⟩ := Prod.mk.inj heq
          exact Or.inr (Or.inl ⟨ps, r.1, h0, rfl, hstore.trans (by rw [← hrej]), rfl⟩)
    · split at h
      · rename_i h1
        split at h
        · split at h
          · exact absurd h (by simp)
          · exact absurd h (by simp)
        · exact Or.inr (Or.inr ⟨Or.inl h1, (Prod.mk.inj (Option.some.inj h)).1.symm⟩)
      · split at h
        · rename_i h2
          split at h
          · exact Or.inr (Or.inr ⟨Or.inr h2, (Prod.mk.inj (Option.some.inj h)).1.symm⟩)
          · split at h
            · exact Or.inr (Or.inr ⟨Or.inr h2, (Prod.mk.inj (Option.some.inj h)).1.symm⟩)
            · exact absurd h (by simp)
        · exact absurd h (by simp)

/-- Without a list, and in mode 2, the weekdays are as they were. -/
theorem DaysWritten.unless {u v : UciTime} {req : SetTimeReq} {mode : Int32}
    (h : DaysWritten u req mode v) : req.weekdayList = none ∨ mode = 2 → v.days = u.days := by
  rintro (hnone | h2)
  · exact h.same (Or.inl hnone)
  · refine h.same (Or.inr ?_)
    rw [h2]
    decide

theorem rejected_written {u u' : UciTime} {req : SetTimeReq}
    (h : handleSetAppFilterTime u req = some (u', false)) :
    (req.mode = none ∧ u' = u) ∨ ∃ mode, req.mode = some mode ∧ Written u req mode u' := by
  cases hmode : req.mode with
  | none =>
      unfold handleSetAppFilterTime at h
      rw [hmode] at h
      obtain ⟨rfl, -⟩ := Prod.mk.inj (Option.some.inj h)
      exact Or.inl ⟨rfl, rfl⟩
  | some mode =>
      refine Or.inr ⟨mode, rfl, ?_⟩
      obtain ⟨v, hv, hcases⟩ := rejected_cases hmode h
      have htime : v.time = u.time := by rw [hv.rest]
      rcases hcases with ⟨h0, hlist, rfl⟩ | ⟨ps, list, h0, hlist, hstore, rfl⟩ | ⟨hmodes, rfl⟩
      · refine ⟨hv.rest.trans ?_, Or.inl h0, ⟨hv.days, hv.unless⟩, ⟨?_, fun _ => htime⟩⟩
        · rw [htime]
        · intro ps hps
          exact absurd (hlist.symm.trans hps) (by simp)
      · have hlv : ListValue list ([] ++ textsBefore ps) :=
          storePeriods_rejected (Or.inl ⟨rfl, rfl⟩) hstore
        rw [List.nil_append] at hlv
        refine ⟨?_, Or.inl h0, ⟨hv.days, hv.unless⟩, ⟨?_, ?_⟩⟩
        · rw [hv.rest]
        · intro ps' hps' _
          obtain rfl := Option.some.inj (hlist.symm.trans hps')
          exact hlv.text
        · rintro (hnone | hne)
          · exact absurd (hlist.symm.trans hnone) (by simp)
          · exact absurd h0 hne
      · refine ⟨hv.rest.trans ?_, Or.inr hmodes, ⟨hv.days, hv.unless⟩, ⟨?_, fun _ => htime⟩⟩
        · rw [htime]
        · intro ps _ h0
          rw [h0] at hmodes
          exact absurd hmodes (by decide)

/-! ## When nothing was news -/

/-- Both sections load, and as the same configuration. -/
def Unchanged (u u' : UciTime) : Prop :=
  ∃ r, afLoadTimeConfig u = some r ∧ afLoadTimeConfig u' = some r

/-- The request brings nothing new in what it writes before it is rejected. -/
structure NothingNew (u : UciTime) (req : SetTimeReq) (mode : Int32) : Prop where
  sameMode : mode = afUciGetIntValue u.timeMode
  /-- the weekdays named are the stored ones -/
  sameDays : ∀ ns, req.weekdayList = some ns → mode = 0 ∨ mode = 1 →
    ∀ n, n ∈ ns ↔ ∃ p ∈ dayTokens u, atoi p = n
  /-- the entries in front of the bad one read as the stored schedule -/
  sameTime : ∀ ps, req.timeList = some ps → mode = 0 →
    ∀ days, loadDays (dayTokens u) (fun _ => false) = some days →
      readSchedule days ((textsBefore ps).intersperse [' ']).flatten =
        readSchedule days (afUciGetListValue u.time)

/-- Two token lists that stay in range load the same weekdays iff they name the
same numbers. -/
theorem loadDays_eq_iff {ps qs : List CStr} {days : Fin 7 → Bool}
    (hps : loadDays ps (fun _ => false) = some days) :
    loadDays qs (fun _ => false) = some days ↔
      ((∀ q ∈ qs, (dayIndex (atoi q)).isSome = true) ∧
        ∀ i, (∃ q ∈ qs, dayIndex (atoi q) = some i) ↔ ∃ p ∈ ps, dayIndex (atoi p) = some i) := by
  have hin : ∀ q, (dayIndex (atoi q)).isSome = true ↔ 0 ≤ (atoi q).toInt ∧ (atoi q).toInt < 7 := by
    intro q
    unfold dayIndex
    by_cases h : 0 ≤ (atoi q).toInt ∧ (atoi q).toInt < 7 <;> simp [h]
  simp only [hin]
  rw [← loadDays_isSome_iff qs (fun _ => false)]
  constructor
  · intro hqs
    refine ⟨by rw [hqs]; rfl, ?_⟩
    intro i
    have hq := loadDays_some hqs i
    have hp := loadDays_some hps i
    simp only [Bool.false_eq_true, false_or] at hq hp
    rw [← hq, ← hp]
  · rintro ⟨hsome, hsame⟩
    obtain ⟨days', hqs⟩ := Option.isSome_iff_exists.mp hsome
    rw [hqs]
    congr 1
    funext i
    have hq := loadDays_some hqs i
    have hp := loadDays_some hps i
    simp only [Bool.false_eq_true, false_or] at hq hp
    rw [Bool.eq_iff_iff, hq, hp, hsame i]

/-- A weekday list loads as the stored weekdays iff it names them. -/
theorem sameDays_iff {u : UciTime} {days : Fin 7 → Bool} {ns : List Int32}
    (hload : loadDays (dayTokens u) (fun _ => false) = some days) :
    loadDays (ns.map dayText) (fun _ => false) = some days ↔
      ∀ n, n ∈ ns ↔ ∃ p ∈ dayTokens u, atoi p = n := by
  have hrange := (loadDays_isSome_iff (dayTokens u) (fun _ => false)).mp (by rw [hload]; rfl)
  rw [loadDays_eq_iff hload]
  simp only [List.mem_map, forall_exists_index, and_imp, forall_apply_eq_imp_iff₂,
    exists_exists_and_eq_and, dayIndex_dayText]
  constructor
  · rintro ⟨hns, hsame⟩ n
    constructor
    · intro hn
      obtain ⟨i, hi⟩ := Option.isSome_iff_exists.mp (hns n hn)
      obtain ⟨p, hp, hpi⟩ := (hsame i).mp ⟨n, hn, hi⟩
      refine ⟨p, hp, ?_⟩
      rw [dayIndex_eq_some_iff] at hi hpi
      exact Int32.toInt_inj.mp (hpi.trans hi.symm)
    · rintro ⟨p, hp, rfl⟩
      obtain ⟨hlo, hhi⟩ := hrange p hp
      have hi : dayIndex (atoi p) = some ⟨(atoi p).toInt.toNat, by omega⟩ := by
        rw [dayIndex_eq_some_iff]
        dsimp only
        omega
      obtain ⟨n, hn, hni⟩ := (hsame _).mpr ⟨p, hp, hi⟩
      rw [dayIndex_eq_some_iff] at hi hni
      rw [Int32.toInt_inj.mp (hi.trans hni.symm)]
      exact hn
  · intro hsame
    refine ⟨?_, ?_⟩
    · intro n hn
      obtain ⟨p, hp, rfl⟩ := (hsame n).mp hn
      obtain ⟨hlo, hhi⟩ := hrange p hp
      unfold dayIndex
      rw [dif_pos ⟨hlo, hhi⟩]
      rfl
    · intro i
      constructor
      · rintro ⟨n, hn, hi⟩
        obtain ⟨p, hp, rfl⟩ := (hsame n).mp hn
        exact ⟨p, hp, hi⟩
      · rintro ⟨p, hp, hi⟩
        exact ⟨atoi p, (hsame _).mpr ⟨p, hp, rfl⟩, hi⟩

/-- In mode 0 and 1 no limit is read; in mode 2 the time list is the stored
one. -/
theorem Written.limits {u u' : UciTime} {req : SetTimeReq} {mode : Int32}
    (h : Written u req mode u') (hmode : mode = afUciGetIntValue u.timeMode) :
    readLimits u' = readLimits u := by
  have hmode' : afUciGetIntValue u'.timeMode = mode := by
    rw [h.rest]
    exact afUciGetIntValue_set mode
  have hlimit : u'.dailyLimit = u.dailyLimit := by rw [h.rest]
  funext w
  unfold readLimits timeTokens
  rw [hmode', ← hmode, hlimit]
  by_cases h2 : mode = 2
  · rw [h.time.2 (Or.inr (by rw [h2]; decide))]
  · rw [if_pos (Or.inr h2), if_pos (Or.inr h2)]

/-- The parts of the loaded configuration a rejected request has not touched. -/
theorem Written.unchanged_iff {u u' : UciTime} {req : SetTimeReq} {mode : Int32}
    (h : Written u req mode u') :
    Unchanged u u' ↔ mode = afUciGetIntValue u.timeMode ∧
      ∃ days r, loadDays (dayTokens u) (fun _ => false) = some days ∧
        loadDays (dayTokens u') (fun _ => false) = some days ∧
        readSchedule days (afUciGetListValue u.time) = some r ∧
        readSchedule days (afUciGetListValue u'.time) = some r := by
  have hmode' : afUciGetIntValue u'.timeMode = mode := by
    rw [h.rest]
    exact afUciGetIntValue_set mode
  constructor
  · rintro ⟨⟨c, old⟩, hu, hu'⟩
    obtain ⟨hdays, ⟨o, hsched, hold⟩, htm, -⟩ := afLoadTimeConfig_parts hu
    obtain ⟨hdays', ⟨o', hsched', hold'⟩, htm', -⟩ := afLoadTimeConfig_parts hu'
    have ho : o' = o := by
      rw [hold] at hold'
      cases o <;> cases o' <;> simp_all
    refine ⟨?_, c.days, (c.timeList, o), hdays, hdays', hsched, by rw [← ho]; exact hsched'⟩
    rw [← htm, htm', hmode']
  · rintro ⟨hmode, days, r, hdays, hdays', hsched, hsched'⟩
    have hlimits := h.limits hmode
    unfold Unchanged
    rw [afLoadTimeConfig_eq, afLoadTimeConfig_eq, hdays, hdays', Option.bind_some,
      Option.bind_some, hsched, hsched', hmode', hmode, hlimits]
    rw [h.rest]
    exact ⟨_, rfl, rfl⟩

/-- **A rejected time request changes nothing** iff the stored lists fit the
loader's arrays and the request brings nothing new in the options that are
written before the check that rejects it. -/
theorem rejected_time_unchanged_iff (u u' : UciTime) (req : SetTimeReq)
    (h : handleSetAppFilterTime u req = some (u', false)) :
    Unchanged u u' ↔ ListsFit u ∧ ∀ mode, req.mode = some mode → NothingNew u req mode := by
  rw [← afLoadTimeConfig_isSome_iff]
  rcases rejected_written h with ⟨hnone, rfl⟩ | ⟨mode, hmode, hw⟩
  · -- without a mode nothing is written
    constructor
    · rintro ⟨r, hr, -⟩
      refine ⟨by rw [hr]; rfl, ?_⟩
      intro mode hmode
      rw [hnone] at hmode
      exact absurd hmode (by simp)
    · rintro ⟨hsome, -⟩
      obtain ⟨r, hr⟩ := Option.isSome_iff_exists.mp hsome
      exact ⟨r, hr, hr⟩
  · rw [hw.unchanged_iff]
    constructor
    · rintro ⟨hsame, days, r, hdays, hdays', hsched, hsched'⟩
      refine ⟨?_, ?_⟩
      · rw [afLoadTimeConfig_eq, hdays, Option.bind_some, hsched]
        rfl
      · intro mode' hmode'
        obtain rfl := Option.some.inj (hmode.symm.trans hmode')
        refine ⟨hsame, ?_, ?_⟩
        · intro ns hns hm
          rw [hw.days.1 ns hns hm] at hdays'
          exact (sameDays_iff hdays).mp hdays'
        · intro ps hps h0 days' hd
          obtain rfl := Option.some.inj (hdays.symm.trans hd)
          rw [← hw.time.1 ps hps h0, hsched, hsched']
    · rintro ⟨hsome, hnew⟩
      obtain ⟨hsame, hsameDays, hsameTime⟩ := hnew mode hmode
      obtain ⟨⟨c, old⟩, hload⟩ := Option.isSome_iff_exists.mp hsome
      obtain ⟨hdays, ⟨o, hsched, -⟩, -⟩ := afLoadTimeConfig_parts hload
      refine ⟨hsame, c.days, (c.timeList, o), hdays, ?_, hsched, ?_⟩
      · cases hlist : req.weekdayList with
        | none =>
            have hkeep := hw.days.2 (Or.inl hlist)
            unfold dayTokens
            rw [hkeep]
            exact hdays
        | some ns =>
            by_cases hm : mode = 0 ∨ mode = 1
            · rw [hw.days.1 ns hlist hm]
              exact (sameDays_iff hdays).mpr (hsameDays ns hlist hm)
            · have h2 : mode = 2 := by
                rcases hw.modes with h0 | h1 | h2
                · exact absurd (Or.inl h0) hm
                · exact absurd (Or.inr h1) hm
                · exact h2
              have hkeep := hw.days.2 (Or.inr h2)
              unfold dayTokens
              rw [hkeep]
              exact hdays
      · cases hlist : req.timeList with
        | none =>
            rw [hw.time.2 (Or.inl hlist)]
            exact hsched
        | some ps =>
            by_cases h0 : mode = 0
            · rw [hw.time.1 ps hlist h0, hsameTime ps hlist h0 c.days hdays]
              exact hsched
            · rw [hw.time.2 (Or.inr h0)]
              exact hsched

/-- A request that repeats the stored mode and weekdays and forgets the
periods. -/
def forgetfulReq : SetTimeReq :=
  { mode := some 0, weekdayList := some [0, 1, 2, 3, 4, 5, 6] }

theorem forgetfulReq_rejected :
    handleSetAppFilterTime shippedTime forgetfulReq =
      some ({ shippedTime with
        timeMode := afUciSetIntValue 0
        days := afUciSetValue "0 1 2 3 4 5 6".toList }, false) := by
  have hjoin : joinNumbers [0, 1, 2, 3, 4, 5, 6] [' '] 128 = some "0 1 2 3 4 5 6".toList := by
    decide +kernel
  unfold handleSetAppFilterTime forgetfulReq
  simp [hjoin]

theorem rejected_time_unchanged_shipped :
    ∃ u', handleSetAppFilterTime shippedTime forgetfulReq = some (u', false) ∧
      Unchanged shippedTime u' := by
  refine ⟨_, forgetfulReq_rejected, ?_⟩
  refine (rejected_time_unchanged_iff shippedTime _ forgetfulReq
    forgetfulReq_rejected).mpr ⟨?_, ?_⟩
  · exact (afLoadTimeConfig_isSome_iff shippedTime).mp (by decide +kernel)
  · intro mode hmode
    obtain rfl := Option.some.inj hmode
    refine ⟨by decide +kernel, ?_, ?_⟩
    · intro ns hns _ n
      obtain rfl := Option.some.inj hns
      have hread : (dayTokens shippedTime).map atoi = [1, 2, 3, 4, 5, 6, 0] := by decide +kernel
      have hmem : (∃ p ∈ dayTokens shippedTime, atoi p = n) ↔
          n ∈ (dayTokens shippedTime).map atoi := List.mem_map.symm
      have hperm : List.Perm [0, 1, 2, 3, 4, 5, 6] (1 :: [2, 3, 4, 5, 6, (0 : Int32)]) := by decide
      rw [hmem, hread]
      exact hperm.mem_iff
    · intro ps hps
      exact absurd hps (by simp [forgetfulReq])

/-- The shipped section, in manual mode, under a request for mode 2 that has no
limits: it is rejected, and from now on mode 2 is loaded. -/
theorem rejected_mode_stays :
    ∃ u', handleSetAppFilterTime shippedTime { mode := some 2 } = some (u', false) ∧
      (∃ c old, afLoadTimeConfig shippedTime = some (c, old) ∧ c.timeMode = 0) ∧
      (∃ c old, afLoadTimeConfig u' = some (c, old) ∧ c.timeMode = 2) ∧
      ¬ Unchanged shippedTime u' := by
  have hload : (afLoadTimeConfig shippedTime).isSome = true := by decide +kernel
  have hload' : (afLoadTimeConfig { shippedTime with timeMode := afUciSetIntValue 2 }).isSome =
      true := by decide +kernel
  have hzero : afUciGetIntValue shippedTime.timeMode = 0 := by decide +kernel
  obtain ⟨⟨c, old⟩, hc⟩ := Option.isSome_iff_exists.mp hload
  obtain ⟨⟨c', old'⟩, hc'⟩ := Option.isSome_iff_exists.mp hload'
  have hmode : c.timeMode = 0 := (afLoadTimeConfig_some hc).1.trans hzero
  have hmode' : c'.timeMode = 2 := (afLoadTimeConfig_some hc').1.trans (afUciGetIntValue_set 2)
  refine ⟨{ shippedTime with timeMode := afUciSetIntValue 2 }, rfl, ⟨c, old, hc, hmode⟩,
    ⟨c', old', hc', hmode'⟩, ?_⟩
  rintro ⟨r, hr, hr'⟩
  have heq : (c, old) = (c', old') := by
    rw [hc] at hr
    rw [hc'] at hr'
    exact (Option.some.inj hr).trans (Option.some.inj hr').symm
  rw [(Prod.mk.inj heq).1, hmode'] at hmode
  exact absurd hmode (by decide)

end OpenAppFilter.Theorems
