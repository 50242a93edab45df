import OpenAppFilter.Daemon.Config

/-!
# A saved daily limit and the loaded one

`handle_set_app_filter_time` stores the seven limits of mode 2 as
`enable:am:pm`, and `af_load_time_config` reads that format back unchanged.
But the loader works through the list of time periods first, which mode 2 does
not use: when the list is empty it leaves before it has read a limit, and a
list that does not fit its arrays makes it write out of bounds.

The stored limits are the loaded ones iff the prior configuration's lists fit
(`ListsFit`) and the time list has at least one token, or there is nothing to
load because all limits are 0:0:0.
-/

namespace OpenAppFilter.Theorems

open Base Daemon

/-! ## The limit text is read back -/

/-- The range the settings page allows. -/
def MinuteRange (n : Int32) : Prop := 0 ≤ n.toInt ∧ n.toInt ≤ 1440

theorem decimal_of_nonneg {n : Int32} (h : 0 ≤ n.toInt) :
    decimal n = Nat.toDigits 10 n.toInt.toNat := by
  unfold decimal
  cases hn : n.toInt with
  | ofNat m => rfl
  | negSucc m =>
      rw [hn] at h
      exact absurd h (by simp)

theorem decimal_length {n : Int32} (h : MinuteRange n) : (decimal n).length ≤ 4 := by
  rw [decimal_of_nonneg h.1, Nat.length_toDigits_le_iff (by decide) (by decide)]
  have hmax := h.2
  omega

theorem decimal_no_colon {n : Int32} (h : 0 ≤ n.toInt) : ':' ∉ decimal n := by
  rw [decimal_of_nonneg h]
  intro hmem
  have hdig := Nat.isDigit_of_mem_toDigits (b := 10) (by decide) (by decide) hmem
  exact absurd hdig (by decide)

/-- `enable:am:pm` with numbers in range is not cut off, and reads back. -/
theorem loadDailyLimit_limitText {e a p : Int32} (he : MinuteRange e) (ha : MinuteRange a)
    (hp : MinuteRange p) :
    afUciSetValue (limitText e a p) = some (limitText e a p) ∧
      loadDailyLimit ((limitText e a p).take 127) = { enable := e, amTime := a, pmTime := p } := by
  have hle := decimal_length he
  have hla := decimal_length ha
  have hlp := decimal_length hp
  have htext : limitText e a p = decimal e ++ ':' :: (decimal a ++ ':' :: decimal p) := by
    unfold limitText
    rw [List.take_of_length_le]
    · simp
    · simp only [List.length_append, List.length_cons]
      omega
  have hne : limitText e a p ≠ [] := by
    rw [htext]
    simp
  have htake : (limitText e a p).take 127 = limitText e a p := by
    rw [List.take_of_length_le]
    rw [htext]
    simp only [List.length_append, List.length_cons]
    omega
  have hstop : ∀ rest, DigitStop (':' :: rest) := digitStop_cons (by decide)
  refine ⟨by rw [afUciSetValue, if_neg hne], ?_⟩
  rw [htake]
  unfold loadDailyLimit
  rw [if_neg hne, htext, splitAtChar_append (decimal_no_colon he.1)]
  dsimp only
  rw [splitAtChar_append (decimal_no_colon ha.1)]
  dsimp only
  rw [atoi_decimal_append e (hstop _), atoi_decimal_append a (hstop _), atoi_decimal p]

/-! ## When the loader stays in bounds -/

/-- The time part of a token of the time list. -/
def timePart (p : CStr) : CStr :=
  match splitAtChar ';' p with
  | some (_, rest) => rest
  | none => p

/-- A token that yields a period: all four numbers can be read. -/
def wellFormedPeriod (p : CStr) : Bool :=
  decide ((scanInts (timePart p) [':', '-', ':']).length = 4)

/-- The stored lists fit the loader's arrays: every token of `days` is a
weekday, the time list has less than 1024 characters, no token's weekday part
has more than 63, and at most 63 periods have been read before any token. -/
def ListsFit (u : UciTime) : Prop :=
  (∀ p ∈ tokens ' ' (afUciGetValue u.days 128), 0 ≤ (atoi p).toInt ∧ (atoi p).toInt < 7) ∧
    (afUciGetListValue u.time).length < 1024 ∧
    ∀ pre p post, tokens ' ' (afUciGetListValue u.time) = pre ++ p :: post →
      (pre.filter wellFormedPeriod).length < 64 ∧
        ∀ weekdays rest, splitAtChar ';' p = some (weekdays, rest) → weekdays.length < 64

theorem loadDays_isSome_iff (ps : List CStr) : ∀ d, (loadDays ps d).isSome = true ↔
    ∀ p ∈ ps, 0 ≤ (atoi p).toInt ∧ (atoi p).toInt < 7 := by
  induction ps with
  | nil =>
      intro d
      simp [loadDays]
  | cons p ps ih =>
      intro d
      unfold loadDays dayIndex
      by_cases hp : 0 ≤ (atoi p).toInt ∧ (atoi p).toInt < 7
      · simp [hp, ih]
      · simp [hp]

theorem scanPeriod_toList_length (s : CStr) (days : Fin 7 → Bool) :
    (scanPeriod s days).toList.length =
      if (scanInts s [':', '-', ':']).length = 4 then 1 else 0 := by
  unfold scanPeriod
  split
  · rename_i heq
    simp [heq]
  · rename_i hne
    rw [if_neg]
    · rfl
    · intro hlen
      match hs : scanInts s [':', '-', ':'], hlen with
      | [h, m, h', m'], _ => exact hne h m h' m' hs

/-- One token: it fits iff its weekday part does, and then yields a period iff
it is well formed. -/
theorem loadPeriod_spec (days : Fin 7 → Bool) (p : CStr) :
    ((loadPeriod days p).isSome = true ↔
      ∀ weekdays rest, splitAtChar ';' p = some (weekdays, rest) → weekdays.length < 64) ∧
    ∀ o period, loadPeriod days p = some (o, period) →
      period.toList.length = if wellFormedPeriod p = true then 1 else 0 := by
  unfold loadPeriod wellFormedPeriod timePart
  cases hsplit : splitAtChar ';' p with
  | none =>
      refine ⟨by simp, ?_⟩
      intro o period h
      obtain ⟨-, rfl⟩ := Prod.mk.inj (Option.some.inj h)
      simp only [decide_eq_true_eq]
      exact scanPeriod_toList_length _ _
  | some r =>
      obtain ⟨weekdays, rest⟩ := r
      by_cases hlong : weekdays.length ≥ 64
      · refine ⟨?_, ?_⟩
        · simp only [if_pos hlong, Option.isSome_none, Bool.false_eq_true, false_iff]
          intro h
          have := h weekdays rest rfl
          omega
        · intro o period h
          simp only [if_pos hlong] at h
          exact absurd h (by simp)
      · refine ⟨?_, ?_⟩
        · simp only [if_neg hlong, Option.isSome_some, true_iff]
          intro weekdays' rest' h
          obtain ⟨rfl, rfl⟩ := Prod.mk.inj (Option.some.inj h)
          omega
        · intro o period h
          simp only [if_neg hlong] at h
          obtain ⟨-, rfl⟩ := Prod.mk.inj (Option.some.inj h)
          simp only [decide_eq_true_eq]
          exact scanPeriod_toList_length _ _

/-- The loop stays in bounds iff at every token there is room for one more
period and the weekday part fits. -/
theorem loadPeriods_isSome_iff (days : Fin 7 → Bool) (ps : List CStr) : ∀ acc old,
    (loadPeriods days ps acc old).isSome = true ↔
      ∀ pre p post, ps = pre ++ p :: post →
        acc.length + (pre.filter wellFormedPeriod).length < 64 ∧
          ∀ weekdays rest, splitAtChar ';' p = some (weekdays, rest) → weekdays.length < 64 := by
  induction ps with
  | nil =>
      intro acc old
      simp [loadPeriods]
  | cons q qs ih =>
      intro acc old
      obtain ⟨hsome, hlen⟩ := loadPeriod_spec days q
      have hmax : maxTimeList = 64 := rfl
      unfold loadPeriods
      by_cases hfull : acc.length ≥ maxTimeList
      · -- no room for this token
        simp only [if_pos hfull, Option.isSome_none, Bool.false_eq_true, false_iff]
        intro h
        have hroom := (h [] q qs rfl).1
        simp only [List.filter_nil, List.length_nil] at hroom
        omega
      · rw [if_neg hfull]
        cases hload : loadPeriod days q with
        | none =>
            simp only [Option.isSome_none, Bool.false_eq_true, false_iff]
            intro h
            have hfit := hsome.mpr (h [] q qs rfl).2
            rw [hload] at hfit
            exact Bool.false_ne_true hfit
        | some r =>
            obtain ⟨o, period⟩ := r
            have hfit := hsome.mp (by rw [hload]; rfl)
            -- a token counts as a period exactly when it yields one
            have hcount : ∀ pre, ((q :: pre).filter wellFormedPeriod).length =
                period.toList.length + (pre.filter wellFormedPeriod).length := by
              intro pre
              rw [hlen o period hload, List.filter_cons]
              split
              · rw [List.length_cons]
                omega
              · omega
            dsimp only
            rw [ih]
            constructor
            · intro h pre p post heq
              cases pre with
              | nil =>
                  obtain ⟨rfl, rfl⟩ := List.cons.inj heq
                  refine ⟨?_, hfit⟩
                  simp only [List.filter_nil, List.length_nil]
                  omega
              | cons q' pre =>
                  rw [List.cons_append] at heq
                  obtain ⟨rfl, htail⟩ := List.cons.inj heq
                  have hrest := h pre p post htail
                  refine ⟨?_, hrest.2⟩
                  have hroom := hrest.1
                  rw [List.length_append] at hroom
                  rw [hcount]
                  omega
            · intro h pre p post heq
              have hrest := h (q :: pre) p post (by rw [heq]; rfl)
              refine ⟨?_, hrest.2⟩
              have hroom := hrest.1
              rw [hcount] at hroom
              rw [List.length_append]
              omega

/-- The loader returns iff the lists fit. -/
theorem afLoadTimeConfig_isSome_iff (u : UciTime) :
    (afLoadTimeConfig u).isSome = true ↔ ListsFit u := by
  have hdaysIff := loadDays_isSome_iff (tokens ' ' (afUciGetValue u.days 128)) (fun _ => false)
  have hmax : maxTimeListLen = 1024 := rfl
  unfold ListsFit afLoadTimeConfig
  rw [← hdaysIff]
  cases loadDays (tokens ' ' (afUciGetValue u.days 128)) (fun _ => false) with
  | none => simp
  | some days =>
      have hperiodsIff :=
        loadPeriods_isSome_iff days (tokens ' ' (afUciGetListValue u.time)) [] false
      simp only [List.length_nil, Nat.zero_add] at hperiodsIff
      rw [← hperiodsIff]
      dsimp only
      by_cases hlong : (afUciGetListValue u.time).length ≥ maxTimeListLen
      · rw [if_pos hlong]
        have hnot : ¬ (afUciGetListValue u.time).length < 1024 := by omega
        simp [hnot]
      · rw [if_neg hlong]
        have hshort : (afUciGetListValue u.time).length < 1024 := by omega
        by_cases hempty : tokens ' ' (afUciGetListValue u.time) = []
        · simp [hempty, hshort, loadPeriods]
        · rw [if_neg hempty]
          cases loadPeriods days (tokens ' ' (afUciGetListValue u.time)) [] false with
          | none => simp
          | some r => simp [hshort]

/-! ## What the loader yields -/

/-- `af_load_time_config` yields mode 2 and these limits. -/
def LoadsLimits (u : UciTime) (limits : Fin 7 → DailyLimitConfig) : Prop :=
  ∃ config old, afLoadTimeConfig u = some (config, old) ∧ config.timeMode = 2 ∧
    ∀ w, config.dailyLimit w = limits w

/-- In mode 2 the loader yields the stored limits when it gets to them, and
zeros when the time list is empty. -/
theorem loadsLimits_iff {u : UciTime} (hmode : afUciGetIntValue u.timeMode = 2)
    (limits : Fin 7 → DailyLimitConfig) :
    LoadsLimits u limits ↔
      ListsFit u ∧
        ∀ w, limits w =
          if tokens ' ' (afUciGetListValue u.time) = [] then {}
          else loadDailyLimit (afUciGetValue (u.dailyLimit w) 128) := by
  rw [← afLoadTimeConfig_isSome_iff]
  constructor
  · rintro ⟨config, old, hload, -, hlim⟩
    refine ⟨by rw [hload]; rfl, ?_⟩
    intro w
    rw [← hlim w, (afLoadTimeConfig_some hload).2.2 w]
    simp [hmode]
  · rintro ⟨hsome, hlim⟩
    obtain ⟨⟨config, old⟩, hload⟩ := Option.isSome_iff_exists.mp hsome
    obtain ⟨htime, -, hstored⟩ := afLoadTimeConfig_some hload
    refine ⟨config, old, hload, htime.trans hmode, ?_⟩
    intro w
    rw [hstored w, hlim w]
    simp [hmode]

/-! ## The saved limits -/

/-- Seven complete entries of `daily_time_list`. -/
def dayEntries (limits : Fin 7 → DailyLimitConfig) : List DayEntry :=
  List.ofFn (fun w => ⟨some (limits w).enable, some (limits w).amTime, some (limits w).pmTime⟩)

/-- The values the settings page allows. -/
def LimitInRange (l : DailyLimitConfig) : Prop :=
  MinuteRange l.enable ∧ MinuteRange l.amTime ∧ MinuteRange l.pmTime

theorem storeDailyLimits_dayEntries (limits : Fin 7 → DailyLimitConfig) (w : Fin 7) :
    storeDailyLimits (dayEntries limits) w =
      afUciSetValue (limitText (limits w).enable (limits w).amTime (limits w).pmTime) := by
  unfold storeDailyLimits dayEntries
  rw [List.getElem?_ofFn, dif_pos w.isLt]

/-- What is stored for an entry in range reads back as that entry. -/
theorem loadDailyLimit_stored {limits : Fin 7 → DailyLimitConfig}
    (hrange : ∀ w, LimitInRange (limits w)) (w : Fin 7) :
    loadDailyLimit (afUciGetValue (storeDailyLimits (dayEntries limits) w) 128) = limits w := by
  obtain ⟨he, ha, hp⟩ := hrange w
  obtain ⟨hset, hload⟩ := loadDailyLimit_limitText he ha hp
  rw [storeDailyLimits_dayEntries, hset]
  exact hload

/-- A mode 2 request with seven entries changes the mode, the limits and the
split switch, and is committed. -/
theorem handleSetAppFilterTime_mode2 (u : UciTime) (req : SetTimeReq)
    (limits : Fin 7 → DailyLimitConfig) (hmode : req.mode = some 2)
    (hlist : req.dailyTimeList = some (dayEntries limits)) :
    ∃ split, handleSetAppFilterTime u req =
      some ({ u with
        timeMode := afUciSetIntValue 2
        dailyLimit := storeDailyLimits (dayEntries limits)
        splitTime := split }, true) := by
  have hlen : (dayEntries limits).length = 7 := by simp [dayEntries]
  unfold handleSetAppFilterTime
  rw [hmode, hlist]
  cases req.weekdayList <;> exact ⟨_, by simp [hlen]; rfl⟩

/-- **A saved daily limit is the loaded one** iff the lists of the prior
configuration fit the loader's arrays, and its time list has a token or all
saved limits are 0:0:0. -/
theorem saved_limit_loaded_iff (u : UciTime) (req : SetTimeReq)
    (limits : Fin 7 → DailyLimitConfig) (hmode : req.mode = some 2)
    (hlist : req.dailyTimeList = some (dayEntries limits))
    (hrange : ∀ w, LimitInRange (limits w)) :
    ∃ u', handleSetAppFilterTime u req = some (u', true) ∧
      (LoadsLimits u' limits ↔
        ListsFit u ∧
          (tokens ' ' (afUciGetListValue u.time) ≠ [] ∨ ∀ w, limits w = {})) := by
  obtain ⟨split, hsave⟩ := handleSetAppFilterTime_mode2 u req limits hmode hlist
  refine ⟨_, hsave, ?_⟩
  have htwo : afUciGetIntValue (afUciSetIntValue 2) = 2 := by decide +kernel
  rw [loadsLimits_iff htwo]
  -- the request touches neither `days` nor `time`
  refine and_congr Iff.rfl ?_
  dsimp only
  by_cases hempty : tokens ' ' (afUciGetListValue u.time) = []
  · simp [hempty]
  · simp [hempty, loadDailyLimit_stored hrange]

/-- One hour in each half of every day. -/
def hourADay (_ : Fin 7) : DailyLimitConfig := { enable := 1, amTime := 60, pmTime := 60 }

def hourADayReq : SetTimeReq :=
  { mode := some 2, dailyTimeList := some (dayEntries hourADay), splitTime := some 1 }

/-- The time section as shipped: manual mode, one period on all days. -/
def shippedTime : UciTime :=
  { timeMode := some "0".toList
    splitTime := some "0".toList
    denyTime := some "60".toList
    allowTime := some "20".toList
    startTime := some "00:00".toList
    endTime := some "23:59".toList
    days := some "1 2 3 4 5 6 0".toList
    time := some (.list ["00:00-23:59".toList])
    dailyLimit := fun _ => some "0:0:0".toList }

/-- On the shipped configuration the saved limits are the loaded ones. -/
theorem saved_limit_loaded_shipped :
    ∃ u', handleSetAppFilterTime shippedTime hourADayReq = some (u', true) ∧
      LoadsLimits u' hourADay := by
  have hrange : ∀ w, LimitInRange (hourADay w) := by
    intro _
    show (0 ≤ (1 : Int32).toInt ∧ (1 : Int32).toInt ≤ 1440) ∧
      (0 ≤ (60 : Int32).toInt ∧ (60 : Int32).toInt ≤ 1440) ∧
      (0 ≤ (60 : Int32).toInt ∧ (60 : Int32).toInt ≤ 1440)
    decide
  obtain ⟨u', hsave, hiff⟩ := saved_limit_loaded_iff shippedTime hourADayReq hourADay rfl rfl hrange
  have hfit : ListsFit shippedTime :=
    (afLoadTimeConfig_isSome_iff shippedTime).mp (by decide +kernel)
  exact ⟨u', hsave, hiff.mpr ⟨hfit, Or.inl (by decide +kernel)⟩⟩

/-- The same configuration after its only period was deleted. -/
def noPeriodTime : UciTime := { shippedTime with time := none }

/-- Without a period the saved hour is not loaded: the limit of every day is
disabled. -/
theorem saved_limit_lost :
    ∃ u', handleSetAppFilterTime noPeriodTime hourADayReq = some (u', true) ∧
      (∃ config old, afLoadTimeConfig u' = some (config, old) ∧ config.timeMode = 2 ∧
        config.dailyLimit = fun _ => {}) ∧
      ¬ LoadsLimits u' hourADay := by
  obtain ⟨split, hsave⟩ := handleSetAppFilterTime_mode2 noPeriodTime hourADayReq hourADay rfl
    rfl
  have htwo : afUciGetIntValue (afUciSetIntValue 2) = 2 := by decide +kernel
  refine ⟨_, hsave, ⟨_, _, rfl, htwo, rfl⟩, ?_⟩
  rintro ⟨config, old, hload, -, hlim⟩
  obtain ⟨rfl, -⟩ := Prod.mk.inj (Option.some.inj hload)
  have hone : ({} : DailyLimitConfig) = { enable := 1, amTime := 60, pmTime := 60 } := hlim 1
  exact absurd hone (by decide)

end OpenAppFilter.Theorems
