import OpenAppFilter.Theorems.DynamicPhase

/-!
# The cycle of the dynamic schedule

Called again and again inside the configured weekday and segment,
`update_dynamic_used_time` goes through a cycle: as many calls that allow as
`allow_time` says, then as many that deny as `deny_time` says. A setting below 1
counts as 1, for the counter is tested after it has been raised. A call outside
starts over.
-/

namespace OpenAppFilter.Theorems

open Base Kernel Daemon

/-! ## The phase after so many calls -/

/-- The calls a phase takes: the setting, and 1 when that is smaller. -/
def phaseLength (setting : Int32) : Nat := (max setting.toInt 1).toNat

theorem phaseLength_pos (setting : Int32) : 0 < phaseLength setting := by
  unfold phaseLength
  omega

theorem phaseLength_lt (setting : Int32) : phaseLength setting < 2 ^ 31 := by
  have hlt : setting.toInt < 2 ^ 31 := setting.toInt_lt
  unfold phaseLength
  omega

/-- The calls of one cycle. -/
def cycleLength (c : AfTimeConfig) : Nat := phaseLength c.allowTime + phaseLength c.denyTime

/-- The phase `m` calls into a cycle. -/
def phaseAt (c : AfTimeConfig) (m : Nat) : Phase :=
  if m < phaseLength c.allowTime then ⟨0, 0, Int32.ofNat m⟩
  else ⟨1, Int32.ofNat (m - phaseLength c.allowTime), 0⟩

theorem phaseAt_allow {c : AfTimeConfig} {m : Nat} (h : m < phaseLength c.allowTime) :
    phaseAt c m = ⟨0, 0, Int32.ofNat m⟩ := if_pos h

theorem phaseAt_deny (c : AfTimeConfig) (m : Nat) :
    phaseAt c (phaseLength c.allowTime + m) = ⟨1, Int32.ofNat m, 0⟩ := by
  unfold phaseAt
  rw [if_neg (by omega), Nat.add_sub_cancel_left]

theorem toInt_ofNat_of_lt {setting : Int32} {m : Nat} (h : m ≤ phaseLength setting) :
    (Int32.ofNat m).toInt = m :=
  Int32.toInt_ofNat_of_lt (Nat.lt_of_le_of_lt h (phaseLength_lt setting))

/-- The test of a counter that has been raised. -/
theorem setting_le_succ_iff {setting : Int32} {m : Nat} (h : m < phaseLength setting) :
    setting ≤ Int32.ofNat m + 1 ↔ phaseLength setting = m + 1 := by
  have hsucc : Int32.ofNat m + 1 = Int32.ofNat (m + 1) := (Int32.ofNat_add m 1).symm
  have hle : m + 1 ≤ phaseLength setting := Nat.succ_le_of_lt h
  rw [hsucc, Int32.le_iff_toInt_le, toInt_ofNat_of_lt hle]
  unfold phaseLength at h ⊢
  omega

/-- One call goes one place on in the cycle, and from its end to its start. -/
theorem phaseAt_advance (c : AfTimeConfig) {m : Nat} (h : m < cycleLength c) :
    (phaseAt c m).advance c = phaseAt c (if m + 1 = cycleLength c then 0 else m + 1) := by
  have hallow := phaseLength_pos c.allowTime
  have hdeny := phaseLength_pos c.denyTime
  unfold cycleLength at h ⊢
  by_cases hm : m < phaseLength c.allowTime
  · rw [phaseAt_allow hm, if_neg (by omega)]
    unfold Phase.advance
    rw [if_neg (show ¬ (0 : Int32) = 1 by decide)]
    dsimp only
    by_cases hlast : phaseLength c.allowTime = m + 1
    · -- the last call that allows
      have hnext := phaseAt_deny c 0
      rw [if_pos ((setting_le_succ_iff hm).mpr hlast), ← hlast]
      exact hnext.symm
    · rw [if_neg (fun hle => hlast ((setting_le_succ_iff hm).mp hle)), phaseAt_allow (by omega),
        Int32.ofNat_add]
      rfl
  · obtain ⟨j, rfl⟩ : ∃ j, m = phaseLength c.allowTime + j := ⟨m - phaseLength c.allowTime, by omega⟩
    have hj : j < phaseLength c.denyTime := by omega
    rw [phaseAt_deny]
    unfold Phase.advance
    rw [if_pos rfl]
    dsimp only
    by_cases hlast : phaseLength c.denyTime = j + 1
    · -- the last call of the cycle
      rw [if_pos ((setting_le_succ_iff hj).mpr hlast), if_pos (by omega), phaseAt_allow hallow]
      rfl
    · rw [if_neg (fun hle => hlast ((setting_le_succ_iff hj).mp hle)), if_neg (by omega),
        Nat.add_assoc, phaseAt_deny, Int32.ofNat_add]
      rfl

theorem one_lt_cycleLength (c : AfTimeConfig) : 1 < cycleLength c :=
  Nat.add_le_add (phaseLength_pos c.allowTime) (phaseLength_pos c.denyTime)

theorem succ_mod_cycle (n : Nat) {l : Nat} (h : 1 < l) :
    (n + 1) % l = if n % l + 1 = l then 0 else n % l + 1 := by
  have hlt := Nat.mod_lt n (Nat.lt_of_succ_lt h)
  rw [Nat.add_mod_eq_ite, Nat.mod_eq_of_lt h]
  split <;> split <;> omega

/-! ## Runs -/

/-- The status, and the calls since the filter last changed. -/
structure CycleState where
  status : AfStatus := {}
  spent : Nat := 0

/-- One call of `update_dynamic_used_time`. -/
def cycleStep (c : AfTimeConfig) (s : CycleState) (now : Tm) : CycleState where
  status := updateDynamicUsedTime c now s.status
  spent := if (updateDynamicUsedTime c now s.status).filter = s.status.filter then s.spent + 1 else 0

/-- The place in its phase of the place in the cycle. -/
def placeInPhase (c : AfTimeConfig) (m : Nat) : Nat :=
  if m < phaseLength c.allowTime then m else m - phaseLength c.allowTime

/-- `n` calls have been made since the start. -/
structure AtCall (c : AfTimeConfig) (n : Nat) (s : CycleState) : Prop where
  phase : phaseOf s.status = phaseAt c (n % cycleLength c)
  spent : s.spent = placeInPhase c (n % cycleLength c)

theorem phaseAt_filter (c : AfTimeConfig) (m : Nat) :
    (phaseAt c m).filter = if m < phaseLength c.allowTime then 0 else 1 := by
  unfold phaseAt
  split <;> rfl

/-- The calls since the filter last changed. -/
theorem placeInPhase_step (c : AfTimeConfig) (m : Nat) :
    (if (phaseAt c (if m + 1 = cycleLength c then 0 else m + 1)).filter = (phaseAt c m).filter then
        placeInPhase c m + 1 else 0) =
      placeInPhase c (if m + 1 = cycleLength c then 0 else m + 1) := by
  have hallow := phaseLength_pos c.allowTime
  have hdeny := phaseLength_pos c.denyTime
  rw [phaseAt_filter, phaseAt_filter]
  unfold placeInPhase cycleLength at *
  by_cases hend : m + 1 = phaseLength c.allowTime + phaseLength c.denyTime
  · rw [if_pos hend, if_pos hallow, if_pos hallow, if_neg (show ¬ m < _ by omega), if_neg (by decide)]
  · rw [if_neg hend]
    by_cases hm : m + 1 < phaseLength c.allowTime
    · rw [if_pos hm, if_pos (show m < _ by omega), if_pos rfl, if_pos (show m < _ by omega), if_pos hm]
    · rw [if_neg hm, if_neg hm]
      by_cases hswitch : m < phaseLength c.allowTime
      · rw [if_pos hswitch, if_neg (by decide)]
        omega
      · rw [if_neg hswitch, if_pos rfl, if_neg hswitch]
        omega

theorem atCall_step {c : AfTimeConfig} (hmode : c.timeMode = 1) {n : Nat} {s : CycleState}
    (h : AtCall c n s) {now : Tm} (hin : InSegment c now) : AtCall c (n + 1) (cycleStep c s now) := by
  have hlt := Nat.mod_lt n (Nat.lt_of_succ_lt (one_lt_cycleLength c))
  have hphase : phaseOf (updateDynamicUsedTime c now s.status) =
      phaseAt c (if n % cycleLength c + 1 = cycleLength c then 0 else n % cycleLength c + 1) := by
    rw [phaseOf_updateDynamicUsedTime hmode hin, h.phase, phaseAt_advance c hlt]
  refine ⟨?_, ?_⟩
  · rw [succ_mod_cycle n (one_lt_cycleLength c)]
    exact hphase
  · have hbefore : s.status.filter = (phaseAt c (n % cycleLength c)).filter :=
      congrArg Phase.filter h.phase
    have hafter := congrArg Phase.filter hphase
    show (if (phaseOf (updateDynamicUsedTime c now s.status)).filter = s.status.filter then
      s.spent + 1 else 0) = _
    rw [hafter, hbefore, h.spent, placeInPhase_step c, succ_mod_cycle n (one_lt_cycleLength c)]

theorem atCall_run {c : AfTimeConfig} (hmode : c.timeMode = 1) (calls : List Tm) :
    ∀ {n : Nat} {s : CycleState}, AtCall c n s → (∀ now ∈ calls, InSegment c now) →
      AtCall c (n + calls.length) (run (cycleStep c) s calls) := by
  induction calls with
  | nil =>
      intro n s h _
      exact h
  | cons now calls ih =>
      intro n s h hin
      have hstep := atCall_step hmode h (hin now List.mem_cons_self)
      have hrest := ih hstep (fun now' h' => hin now' (List.mem_cons_of_mem _ h'))
      rw [run_cons, List.length_cons, Nat.add_comm calls.length, ← Nat.add_assoc]
      exact hrest

theorem atCall_zero (c : AfTimeConfig) : AtCall c 0 {} := by
  have hallow := phaseLength_pos c.allowTime
  refine ⟨?_, ?_⟩
  · rw [Nat.zero_mod, phaseAt_allow hallow]
    rfl
  · rw [Nat.zero_mod]
    exact (if_pos hallow).symm

/-- A call outside the weekdays or the segment is `af_init_time_status`. -/
theorem updateDynamicUsedTime_outside {c : AfTimeConfig} (hmode : c.timeMode = 1) {now : Tm}
    (hout : ¬ InSegment c now) (s : AfStatus) : updateDynamicUsedTime c now s = {} := by
  unfold updateDynamicUsedTime
  rw [if_neg (by simp [hmode])]
  by_cases hday : c.days now.wday = true
  · rw [if_neg (by simp [hday]), if_pos (fun hseg => hout ⟨hday, hseg⟩)]
  · rw [if_pos (by simp [hday])]

/-- **The dynamic schedule cycles.** In mode 1, whatever the two settings: after
any number of calls inside the configured weekday and segment, counted from
`af_init_time_status`, the filter is on iff the place in the cycle lies behind
the calls that allow; the counter of the phase is the number of calls since the
filter last changed, and the other counter is 0. A call outside gives the status
its first value. -/
theorem dynamic_schedule_cycles (c : AfTimeConfig) (calls : List Tm) (hmode : c.timeMode = 1)
    (hin : ∀ now ∈ calls, InSegment c now) :
    let s := run (cycleStep c) {} calls
    let place := calls.length % (phaseLength c.allowTime + phaseLength c.denyTime)
    (s.status.filter = 1 ↔ phaseLength c.allowTime ≤ place) ∧
      (s.status.filter ≠ 1 → s.status.filter = 0 ∧ s.status.allowTime.toInt = s.spent ∧
        s.spent = place ∧ s.status.denyTime = 0) ∧
      (s.status.filter = 1 → s.status.denyTime.toInt = s.spent ∧
        s.spent = place - phaseLength c.allowTime ∧ s.status.allowTime = 0) ∧
      ∀ (now : Tm) (any : AfStatus), ¬ InSegment c now → updateDynamicUsedTime c now any = {} := by
  intro s place
  have hrun := atCall_run hmode calls (atCall_zero c) hin
  rw [Nat.zero_add] at hrun
  have hlt : place < phaseLength c.allowTime + phaseLength c.denyTime :=
    Nat.mod_lt _ (Nat.lt_of_succ_lt (one_lt_cycleLength c))
  have hphase : phaseOf s.status = phaseAt c place := hrun.phase
  have hspent : s.spent = placeInPhase c place := hrun.spent
  have hfilter : s.status.filter = (phaseAt c place).filter := congrArg Phase.filter hphase
  have hallow : s.status.allowTime = (phaseAt c place).allowTime := congrArg Phase.allowTime hphase
  have hdeny : s.status.denyTime = (phaseAt c place).denyTime := congrArg Phase.denyTime hphase
  have hout : ∀ (now : Tm) (any : AfStatus), ¬ InSegment c now →
      updateDynamicUsedTime c now any = {} :=
    fun _ any h => updateDynamicUsedTime_outside hmode h any
  unfold placeInPhase at hspent
  by_cases hplace : place < phaseLength c.allowTime
  · rw [phaseAt_allow hplace] at hfilter hallow hdeny
    rw [if_pos hplace] at hspent
    have hoff : ¬ s.status.filter = 1 := by
      rw [hfilter]
      exact show ¬ (0 : Int32) = 1 by decide
    refine ⟨⟨fun h => absurd h hoff, fun h => by omega⟩, fun _ => ⟨hfilter, ?_, hspent, hdeny⟩,
      fun h => absurd h hoff, hout⟩
    rw [hallow, hspent]
    exact toInt_ofNat_of_lt (Nat.le_of_lt hplace)
  · have hplace' : place = phaseLength c.allowTime + (place - phaseLength c.allowTime) := by omega
    rw [hplace', phaseAt_deny] at hfilter hallow hdeny
    rw [if_neg hplace] at hspent
    refine ⟨⟨fun _ => Nat.le_of_not_lt hplace, fun _ => hfilter⟩, fun h => absurd hfilter h,
      fun _ => ⟨?_, hspent, hallow⟩, hout⟩
    have hle : place - phaseLength c.allowTime ≤ phaseLength c.denyTime := by omega
    rw [hdeny, hspent]
    exact toInt_ofNat_of_lt hle

/-- Three calls of a schedule that allows two and denies five: the filter is on,
and one call has been spent. -/
theorem dynamic_schedule_cycles_third :
    let c := { alternating with allowTime := 2, denyTime := 5 }
    let s := run (cycleStep c) {} [mondayMorning, mondayMorning, mondayMorning]
    s.status.filter = 1 ∧ s.status.denyTime.toInt = 1 ∧ s.status.allowTime = 0 := by
  intro c s
  have hin : ∀ now ∈ [mondayMorning, mondayMorning, mondayMorning], InSegment c now := by
    intro now h
    simp only [List.mem_cons, List.not_mem_nil, or_false, or_self] at h
    rw [h]
    exact inSegment_morning
  obtain ⟨hfilter, -, hdeny, -⟩ := dynamic_schedule_cycles c _ rfl hin
  have hon : s.status.filter = 1 := hfilter.mpr (by decide)
  exact ⟨hon, by rw [(hdeny hon).1, (hdeny hon).2.1]; decide, (hdeny hon).2.2⟩

end OpenAppFilter.Theorems
