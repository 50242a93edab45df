import OpenAppFilter.Daemon.Tick
import OpenAppFilter.Theorems.SplitSync

/-!
# Split mode in the daemon and in the kernel

Three places read the option `split_time`. `af_check_time_period_limit` takes
every value but 0 for split mode, `update_oaf_split_time_status` only 1, and
the kernel is told the latter. The two agree after a configuration change iff
the mode is not 2 or the option reads as 0 or 1. A configuration from before
the option existed has none, and a missing option reads as -1.
-/

namespace OpenAppFilter.Theorems

open Base Kernel Daemon

variable {env : Env}

/-- `af_check_time_valid` gets to the per-device branch of
`af_check_time_period_limit`. -/
def PerDevice (config : AfTimeConfig) : Prop := config.timeMode = 2 ∧ config.splitTime ≠ 0

/-- With it the decision is the one of `af_split_check_period_limit`. -/
theorem afCheckTimeValid_perDevice {config : AfTimeConfig} (h : PerDevice config) (io : ProcIo)
    (clock : Clock) (d : DevState) (k : OafState env) :
    afCheckTimeValid io config clock d k = afSplitCheckPeriodLimit io config clock d k := by
  obtain ⟨hmode, hsplit⟩ := h
  unfold afCheckTimeValid afCheckTimePeriodLimit
  rw [hmode, if_neg (by decide), if_neg (by decide), if_pos rfl, if_pos hsplit]

/-- Without it the decision of mode 2 is the shared one, and the check writes
nothing to the kernel. -/
theorem afCheckTimeValid_shared {config : AfTimeConfig} (hmode : config.timeMode = 2)
    (h : ¬ PerDevice config) (io : ProcIo) (clock : Clock) (d : DevState) (k : OafState env) :
    afCheckTimeValid io config clock d k =
      ((afCheckSharedPeriodLimit config clock d).1, k,
        (afCheckSharedPeriodLimit config clock d).2) := by
  have hsplit : ¬ config.splitTime ≠ 0 := fun hne => h ⟨hmode, hne⟩
  unfold afCheckTimeValid afCheckTimePeriodLimit
  rw [hmode, if_neg (by decide), if_neg (by decide), if_pos rfl, if_neg hsplit]

/-! ## What the change leaves in both places -/

/-- The loader takes both options as they read. -/
theorem afLoadTime_modes {u u' : UciTime} {config : AfTimeConfig}
    (h : afLoadTime u = some (config, u')) :
    config.timeMode = afUciGetIntValue u.timeMode ∧
      config.splitTime = afUciGetIntValue u.splitTime := by
  unfold afLoadTime at h
  split at h
  · exact absurd h (by simp)
  · rename_i c old hc
    obtain ⟨rfl, -⟩ := Prod.mk.inj (Option.some.inj h)
    obtain ⟨hmode, hsplit, -⟩ := afLoadTimeConfig_some hc
    exact ⟨hmode, hsplit⟩

/-- A switch that can be accessed is written unless it has the value already. -/
theorem updateSwitch_eq {io : ProcIo} {key : ProcKey} (hio : io.value key = true) (old : Int32)
    (w : Int32 → ProcWrite) (on : Bool) (k : OafState env) :
    updateSwitch io key old w on k =
      if old = (if on then 1 else 0) then k else procWrite k (w (if on then 1 else 0)) := by
  unfold updateSwitch updateOafProcValue
  by_cases hsame : old = (if on then 1 else 0)
  · rw [if_pos hsame, if_neg (fun h => h.2 (congrArg decimal hsame))]
  · rw [if_neg hsame, if_pos ⟨hio, fun h => hsame (decimal_injective h)⟩]

/-- `update_oaf_split_time_status` leaves its own reading of the option in the
kernel. -/
theorem updateOafSplitTimeStatus_gSplitTime {io : ProcIo} (hio : io.Ok) (d : DaemonState)
    (k : OafState env) :
    (updateOafSplitTimeStatus io d k).gSplitTime =
      if d.time.timeMode = 2 ∧ d.time.splitTime = 1 then 1 else 0 := by
  have hswitch : ∀ on : Bool,
      (updateSwitch io .splitTime k.gSplitTime .splitTime on k).gSplitTime =
        if on then 1 else 0 := by
    intro on
    rw [updateSwitch_eq (hio.1 _)]
    by_cases hsame : k.gSplitTime = (if on then 1 else 0)
    · rw [if_pos hsame, hsame]
    · rw [if_neg hsame]
      rfl
  have hclear : ∀ k₁ : OafState env,
      (oafBlockedMacsHandler k₁ "clear".toList).1.gSplitTime = k₁.gSplitTime := by
    intro k₁
    rw [oafBlockedMacsHandler_clear]
    rfl
  unfold updateOafSplitTimeStatus
  dsimp only
  by_cases hval : d.time.timeMode = 2 ∧ d.time.splitTime = 1
  · simp [hval, hswitch]
  · have hoff : (decide (d.time.timeMode = 2) && decide (d.time.splitTime = 1)) = false := by
      simpa using hval
    rw [hoff, if_neg hval, hio.2]
    simp only [Bool.not_false, Bool.and_self, if_true]
    rw [hclear, hswitch]
    rfl

/-- After the change the daemon has the options as they read, and the kernel
what `update_oaf_split_time_status` makes of them. -/
theorem oafConfigChange_split {io : ProcIo} (hio : io.Ok) {lan : Ipv4 × Ipv4} {dynamic : Tm}
    {clock : Clock} {u u' : UciConfig} {d d' : DaemonState} {k k' : OafState env}
    (h : oafConfigChange io lan dynamic clock u d k = some (u', d', k')) :
    d'.time.timeMode = afUciGetIntValue u.time.timeMode ∧
      d'.time.splitTime = afUciGetIntValue u.time.splitTime ∧
      k'.gSplitTime = if d'.time.timeMode = 2 ∧ d'.time.splitTime = 1 then 1 else 0 := by
  unfold oafConfigChange at h
  dsimp only at h
  cases hload : afLoadTime u.time with
  | none =>
      rw [hload] at h
      exact absurd h (by simp)
  | some r =>
      obtain ⟨time, uciTime⟩ := r
      rw [hload] at h
      obtain ⟨-, rfl, rfl⟩ : _ ∧ _ ∧ _ := by simpa only [Option.some.injEq, Prod.mk.injEq] using h
      obtain ⟨hmode, hsplit⟩ := afLoadTime_modes hload
      exact ⟨hmode, hsplit, updateOafSplitTimeStatus_gSplitTime hio _ _⟩

/-! ## The result -/

/-- The option is one the daemon and the kernel read alike: the mode is not 2,
or `split_time` reads as 0 or 1. -/
def SplitOptionClear (u : UciTime) : Prop :=
  afUciGetIntValue u.timeMode ≠ 2 ∨ afUciGetIntValue u.splitTime = 0 ∨
    afUciGetIntValue u.splitTime = 1

/-- **Daemon and kernel agree on split mode** after a configuration change iff
the stored option is clear; and then, with the kernel in shared mode, the limit
check of mode 2 is the shared one. -/
theorem split_mode_agrees_iff (io : ProcIo) (lan : Ipv4 × Ipv4) (dynamic : Tm) (clock : Clock)
    (u u' : UciConfig) (d d' : DaemonState) (k k' : OafState env) (hio : io.Ok)
    (h : oafConfigChange io lan dynamic clock u d k = some (u', d', k')) :
    ((PerDevice d'.time ↔ d'.time.timeMode = 2 ∧ k'.gSplitTime = 1) ↔ SplitOptionClear u.time) ∧
    (SplitOptionClear u.time → k'.gSplitTime ≠ 1 → d'.time.timeMode = 2 →
      ∀ (io' : ProcIo) (clock' : Clock) (dev : DevState) (k₁ : OafState env),
        afCheckTimeValid io' d'.time clock' dev k₁ =
          ((afCheckSharedPeriodLimit d'.time clock' dev).1, k₁,
            (afCheckSharedPeriodLimit d'.time clock' dev).2)) := by
  obtain ⟨hmode, hsplit, hkernel⟩ := oafConfigChange_split hio h
  have hone : k'.gSplitTime = 1 ↔ d'.time.timeMode = 2 ∧ d'.time.splitTime = 1 := by
    rw [hkernel]
    split
    · rename_i hval
      exact ⟨fun _ => hval, fun _ => rfl⟩
    · rename_i hval
      exact ⟨fun heq => absurd heq (by decide), fun hv => absurd hv hval⟩
  have hagree : (PerDevice d'.time ↔ d'.time.timeMode = 2 ∧ k'.gSplitTime = 1) ↔
      SplitOptionClear u.time := by
    unfold PerDevice SplitOptionClear
    rw [hone, ← hmode, ← hsplit]
    by_cases htwo : d'.time.timeMode = 2
    · by_cases hzero : d'.time.splitTime = 0
      · simp [htwo, hzero]
      · simp [htwo, hzero]
    · simp [htwo]
  refine ⟨hagree, ?_⟩
  intro hclear hshared htwo io' clock' dev k₁
  refine afCheckTimeValid_shared htwo ?_ io' clock' dev k₁
  intro hper
  exact hshared ((hagree.mpr hclear).mp hper).2

/-! ## Stored configurations with and without the option -/

/-- Mode 2 with one hour in each half of every day, as `split_time` says. -/
def oneHourUci (splitTime : Option CStr) : UciConfig where
  global := { enable := some "1".toList }
  time :=
    { timeMode := some "2".toList
      splitTime := splitTime
      days := some "1 2 3 4 5 6 0".toList
      time := some (.list ["00:00-23:59".toList])
      dailyLimit := fun _ => some "1:60:60".toList }

/-- A change to such a configuration on Monday morning, with the phone known to
the daemon and its hour used up. -/
def changeTo (splitTime : Option CStr) :
    Option (UciConfig × DaemonState × OafState routerEnv) :=
  oafConfigChange allOk (0, 0) mondayMorning morningClock (oneHourUci splitTime)
    { time := oneHourConfig, dev := { devs := phoneDevs } } (boot routerEnv 0)

theorem split_mode_agrees_on : ∃ u' d' k', changeTo (some "1".toList) = some (u', d', k') ∧
    (PerDevice d'.time ↔ d'.time.timeMode = 2 ∧ k'.gSplitTime = 1) := by
  obtain ⟨⟨u', d', k'⟩, h⟩ := Option.isSome_iff_exists.mp
    (show (changeTo (some "1".toList)).isSome = true by decide +kernel)
  refine ⟨u', d', k', h, ?_⟩
  refine (split_mode_agrees_iff _ _ _ _ _ _ _ _ _ _ ⟨fun _ => rfl, fun _ => rfl⟩ h).1.mpr ?_
  exact Or.inr (Or.inr (by decide +kernel))

/-- Without the option the daemon checks every device on its own while the
kernel is in shared mode: the phone's hour switches filtering on for
everybody. -/
theorem split_mode_disagrees : ∃ u' d' k', changeTo none = some (u', d', k') ∧
    ¬ (PerDevice d'.time ↔ d'.time.timeMode = 2 ∧ k'.gSplitTime = 1) ∧
    (∀ (io : ProcIo) (clock : Clock) (dev : DevState) (k₁ : OafState routerEnv),
      afCheckTimeValid io d'.time clock dev k₁ = afSplitCheckPeriodLimit io d'.time clock dev k₁) ∧
    k'.gSplitTime = 0 ∧ k'.gOafFilterEnable = 1 := by
  obtain ⟨⟨u', d', k'⟩, h⟩ := Option.isSome_iff_exists.mp
    (show (changeTo none).isSome = true by decide +kernel)
  have hfields : (changeTo none).map (fun r => (r.2.1.time.timeMode, r.2.1.time.splitTime,
      r.2.2.gSplitTime, r.2.2.gOafFilterEnable)) = some (2, -1, 0, 1) := by decide +kernel
  rw [h] at hfields
  obtain ⟨hmode, hsplit, hkernel, hen⟩ : _ ∧ _ ∧ _ ∧ _ := by
    simpa only [Option.map_some, Option.some.injEq, Prod.mk.injEq] using hfields
  have hper : PerDevice d'.time := ⟨hmode, by rw [hsplit]; decide⟩
  refine ⟨u', d', k', h, ?_, fun io clock dev k₁ => afCheckTimeValid_perDevice hper io clock dev k₁,
    hkernel, hen⟩
  intro hagree
  have hone := (hagree.mp hper).2
  rw [hkernel] at hone
  exact absurd hone (by decide)

end OpenAppFilter.Theorems
