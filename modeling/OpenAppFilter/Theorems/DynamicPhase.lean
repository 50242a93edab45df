import OpenAppFilter.Daemon.Loop
import OpenAppFilter.Theorems.TodayBudget

/-!
# The phases of the dynamic schedule

In mode 1 filtering alternates between a phase that allows and one that denies,
and `update_dynamic_used_time` counts the minutes of both. The one-second
handler calls it once a minute, and once more whenever it finds
`g_oaf_config_change` set: every command of the user interface is counted like
a minute that has passed.
-/

namespace OpenAppFilter.Theorems

open Base Kernel Daemon

variable {env : Env}

/-! ## One count -/

/-- The part of `g_af_status` that `update_dynamic_used_time` counts in. -/
structure Phase where
  filter : Int32
  denyTime : Int32
  allowTime : Int32
  deriving DecidableEq

def phaseOf (s : AfStatus) : Phase := ⟨s.filter, s.denyTime, s.allowTime⟩

/-- One count inside the configured weekday and segment. -/
def Phase.advance (c : AfTimeConfig) (p : Phase) : Phase :=
  if p.filter = 1 then
    if c.denyTime ≤ p.denyTime + 1 then { p with filter := 0, denyTime := 0 }
    else { p with denyTime := p.denyTime + 1 }
  else
    if c.allowTime ≤ p.allowTime + 1 then { p with filter := 1, allowTime := 0 }
    else { p with allowTime := p.allowTime + 1 }

/-- The filter phase and the remaining time. -/
def Phase.shown (c : AfTimeConfig) (p : Phase) : Int32 × Int32 :=
  (p.filter, if p.filter = 1 then c.denyTime - p.denyTime else c.allowTime - p.allowTime)

theorem shown_phaseOf (c : AfTimeConfig) (s : AfStatus) :
    (phaseOf s).shown c = dynamicStatus c s := rfl

/-- `now` lies in the configured weekdays and segment. -/
def InSegment (c : AfTimeConfig) (now : Tm) : Prop :=
  c.days now.wday = true ∧ c.segStart.minutes ≤ now.minutes ∧ now.minutes ≤ c.segEnd.minutes

theorem phaseOf_updateDynamicUsedTime {c : AfTimeConfig} (hmode : c.timeMode = 1) {now : Tm}
    (hin : InSegment c now) (s : AfStatus) :
    phaseOf (updateDynamicUsedTime c now s) = (phaseOf s).advance c := by
  unfold updateDynamicUsedTime
  rw [if_neg (by simp [hmode]), if_neg (by simp [hin.1]), if_neg (not_not.mpr hin.2)]
  show _ = if s.filter = 1 then _ else _
  split
  · show _ = if c.denyTime ≤ s.denyTime + 1 then _ else _
    split <;> rfl
  · show _ = if c.allowTime ≤ s.allowTime + 1 then _ else _
    split <;> rfl

theorem sub_succ_ne (a t : Int32) : a - (t + 1) ≠ a - t := by
  intro h
  have hone : t + 1 = t := by grind
  exact absurd (Int32.add_eq_left.mp hone) (by decide)

/-- A count is always seen. -/
theorem shown_advance_ne (c : AfTimeConfig) (p : Phase) : (p.advance c).shown c ≠ p.shown c := by
  unfold Phase.advance
  by_cases hf : p.filter = 1
  · rw [if_pos hf]
    split
    · intro h
      have hfst : (0 : Int32) = p.filter := congrArg Prod.fst h
      rw [hf] at hfst
      exact absurd hfst (by decide)
    · intro h
      have hsnd := congrArg Prod.snd h
      simp only [Phase.shown, if_pos hf] at hsnd
      exact sub_succ_ne _ _ hsnd
  · rw [if_neg hf]
    split
    · intro h
      have hfst : (1 : Int32) = p.filter := congrArg Prod.fst h
      exact hf hfst.symm
    · intro h
      have hsnd := congrArg Prod.snd h
      simp only [Phase.shown, if_neg hf] at hsnd
      exact sub_succ_ne _ _ hsnd

/-! ## One call -/

/-- A call that finds the clock inside the segment and the time configuration
unchanged; a restart is not among them. -/
def CallWithin (c : AfTimeConfig) : DayAct → Prop
  | .updateDynamicUsedTime now => InSegment c now
  | .loadConfig config => config.time = c
  | .restart _ => False
  | _ => True

def isCount : DayAct → Bool
  | .updateDynamicUsedTime _ => true
  | _ => false

/-- In mode 1 the time check changes nothing. -/
theorem afCheckTimeValid_dynamic {c : AfTimeConfig} (hmode : c.timeMode = 1) (io : ProcIo)
    (clock : Clock) (d : DevState) (k : OafState env) :
    afCheckTimeValid io c clock d k = (d, k, afCheckTimeDynamic d.status) := by
  unfold afCheckTimeValid
  rw [if_neg (by rw [hmode]; decide), if_pos hmode]

/-- The daemon is in mode 1 with configuration `c`, at phase `p`. -/
structure AtPhase (c : AfTimeConfig) (p : Phase) (s : DayState env) : Prop where
  time : s.daemon.time = c
  phase : phaseOf s.daemon.dev.status = p

/-- Only `update_dynamic_used_time` moves the phase. -/
theorem atPhase_step {c : AfTimeConfig} (hmode : c.timeMode = 1) {p : Phase} {s : DayState env}
    (h : AtPhase c p s) (mday : Nat → Nat) {a : DayAct} (ha : CallWithin c a) :
    AtPhase c (if isCount a then p.advance c else p) (dayStep mday s a) := by
  obtain ⟨htime, hphase⟩ := h
  cases a with
  | restart config => exact absurd ha (by simp [CallWithin])
  | updateDynamicUsedTime now =>
      refine ⟨htime, ?_⟩
      show phaseOf (updateDynamicUsedTime s.daemon.time now s.daemon.dev.status) = p.advance c
      rw [htime, phaseOf_updateDynamicUsedTime hmode ha, hphase]
  | loadConfig config => exact ⟨ha, hphase⟩
  | updateOafStatus io clock =>
      have hdev : (updateOafStatus io clock s.daemon s.kernel).1.dev = s.daemon.dev := by
        unfold updateOafStatus
        dsimp only
        rw [htime, afCheckTimeValid_dynamic hmode]
        split <;> rfl
      refine ⟨htime, ?_⟩
      show phaseOf (updateOafStatus io clock s.daemon s.kernel).1.dev.status = p
      rw [hdev, hphase]
  | checkDateChange =>
      refine ⟨htime, ?_⟩
      show phaseOf (checkDateChange (mday s.today) s.lastDay s.daemon.dev).1.status = p
      rw [← hphase]
      unfold checkDateChange
      split
      · dsimp only
        split <;> rfl
      · rfl
  | clearActiveTime io mac =>
      refine ⟨htime, ?_⟩
      show phaseOf (clearActiveTime io mac s.daemon.dev s.kernel).1.status = p
      rw [← hphase]
      unfold clearActiveTime
      split
      · unfold resetOneUserTodayActiveTime
        split <;> rfl
      · rfl
  | saveUserTimeToFile opened =>
      cases opened with
      | true => exact ⟨htime, hphase⟩
      | false => exact ⟨htime, hphase⟩
  | report mac active hour => exact ⟨htime, hphase⟩
  | midnight => exact ⟨htime, hphase⟩
  | updateDevList afUsers leases clients => exact ⟨htime, hphase⟩
  | updateLanIp io ip mask => exact ⟨htime, hphase⟩
  | flushDevExpireNode expired => exact ⟨htime, hphase⟩
  | checkAllUsersPeriodTime clock => exact ⟨htime, hphase⟩
  | updateDevSelectedFlag afUsers => exact ⟨htime, hphase⟩
  | updateSwitches io => exact ⟨htime, hphase⟩
  | flushOfflineUsers => exact ⟨htime, hphase⟩

/-- A row of calls moves the phase as often as it counts. -/
theorem atPhase_run {c : AfTimeConfig} (hmode : c.timeMode = 1) (mday : Nat → Nat)
    (calls : List DayAct) : ∀ {p : Phase} {s : DayState env}, AtPhase c p s →
      (∀ a ∈ calls, CallWithin c a) →
      AtPhase c ((Phase.advance c)^[calls.countP isCount] p) (run (dayStep mday) s calls) := by
  induction calls with
  | nil =>
      intro p s h _
      exact h
  | cons a calls ih =>
      intro p s h hin
      have hstep := atPhase_step hmode h mday (hin a List.mem_cons_self)
      have hrest := ih hstep (fun a' ha' => hin a' (List.mem_cons_of_mem _ ha'))
      rw [run_cons, List.countP_cons]
      cases hcount : isCount a with
      | true =>
          rw [hcount] at hrest
          simpa only [if_true, Function.iterate_succ_apply] using hrest
      | false =>
          rw [hcount] at hrest
          simpa using hrest

/-! ## One event of the loop -/

/-- Every clock reading is inside the segment, and no command changes the time
configuration. -/
def StaysWithin (c : AfTimeConfig) : LoopAct → Prop
  | .tick i => InSegment c i.minuteClock.now
  | .commit stored => stored.time = c
  | _ => True

/-- The event is the tick of a full minute. -/
def isMinute (count : Nat) : LoopAct → Bool
  | .tick _ => decide (count % 60 = 0)
  | _ => false

/-- How many of the events are the tick of a full minute. -/
def minuteTicks : Nat → List LoopAct → Nat
  | _, [] => 0
  | count, a :: acts =>
      (if isMinute count a then 1 else 0) +
        minuteTicks (if a.isTick then count + 1 else count) acts

/-- The event is a tick that finds the flag set. -/
def handlesChange (s : LoopState env) (a : LoopAct) : Bool := a.isTick && s.configChange

/-- The daemon and the stored configuration agree on the time configuration. -/
structure LoopAtPhase (c : AfTimeConfig) (p : Phase) (s : LoopState env) : Prop where
  stored : s.stored.time = c
  day : AtPhase c p s.day

/-- A tick counts once for a full minute and once for the flag. -/
theorem countP_calls (s : LoopState env) (i : TickInput) :
    (s.calls i).countP isCount =
      (if s.count % 60 = 0 then 1 else 0) + (if s.configChange then 1 else 0) := by
  rw [LoopState.calls_eq, List.countP_append]
  congr 1
  · unfold LoopState.earlyCalls oafTimeoutHandler
    simp only [List.countP_append, List.countP_nil]
    split <;> split <;> split <;> rfl
  · unfold LoopState.change
    cases s.configChange <;> rfl

theorem within_calls {c : AfTimeConfig} {s : LoopState env} (hstored : s.stored.time = c)
    {i : TickInput} (hin : InSegment c i.minuteClock.now) : ∀ a ∈ s.calls i, CallWithin c a := by
  intro a ha
  rw [LoopState.calls_eq, List.mem_append] at ha
  rcases ha with ha | ha
  · unfold LoopState.earlyCalls oafTimeoutHandler at ha
    simp only [List.mem_append] at ha
    rcases ha with ((ha | ha) | ha) | ha
    · split at ha
      · simp only [List.mem_cons, List.not_mem_nil, or_false] at ha
        rcases ha with rfl | rfl <;> trivial
      · exact absurd ha List.not_mem_nil
    · split at ha
      · simp only [List.mem_cons, List.not_mem_nil, or_false] at ha
        rcases ha with rfl | rfl | rfl | rfl | rfl | rfl
        · exact hin
        all_goals trivial
      · exact absurd ha List.not_mem_nil
    · split at ha
      · simp only [List.mem_cons, List.not_mem_nil, or_false] at ha
        subst ha
        trivial
      · exact absurd ha List.not_mem_nil
    · exact absurd ha List.not_mem_nil
  · unfold LoopState.change at ha
    cases hflag : s.configChange with
    | false =>
        rw [hflag] at ha
        exact absurd ha List.not_mem_nil
    | true =>
        rw [hflag] at ha
        simp only [if_true, Option.map_some, Option.getD_some, changeCalls, List.mem_cons,
          List.not_mem_nil, or_false] at ha
        rcases ha with rfl | rfl | rfl | rfl | rfl | rfl
        · trivial
        · exact hstored
        · trivial
        · exact hin
        all_goals trivial

/-- One event of the loop. -/
theorem loopAtPhase_step {c : AfTimeConfig} (hmode : c.timeMode = 1) {p : Phase}
    {s : LoopState env} (h : LoopAtPhase c p s) (mday : Nat → Nat) {a : LoopAct}
    (ha : StaysWithin c a) :
    LoopAtPhase c ((Phase.advance c)^[(if isMinute s.count a then 1 else 0) +
      if handlesChange s a then 1 else 0] p) (loopStep mday s a) := by
  cases a with
  | tick i =>
      refine ⟨h.stored, ?_⟩
      have hrun := atPhase_run hmode mday (s.calls i) h.day (within_calls h.stored ha)
      rw [countP_calls] at hrun
      show AtPhase c _ (run (dayStep mday) s.day (s.calls i))
      simpa [isMinute, handlesChange, LoopAct.isTick] using hrun
  | clearActiveTime io mac =>
      exact ⟨h.stored, @atPhase_step env c hmode p s.day h.day mday (.clearActiveTime io mac) trivial⟩
  | commit stored => exact ⟨ha, h.day⟩
  | report mac active hour =>
      exact ⟨h.stored, @atPhase_step env c hmode p s.day h.day mday (.report mac active hour) trivial⟩

/-! ## Runs -/

theorem loopStep_count (mday : Nat → Nat) (s : LoopState env) (a : LoopAct) :
    (loopStep mday s a).count = if a.isTick then s.count + 1 else s.count := by
  cases a <;> rfl

/-- What is shown after some events is what the full minutes among them make of
the phase at the start. -/
def ShowsMinutes (mday : Nat → Nat) (c : AfTimeConfig) (p : Phase) (s : LoopState env)
    (acts : List LoopAct) : Prop :=
  dynamicStatus c (run (loopStep mday) s acts).day.daemon.dev.status =
    ((Phase.advance c)^[minuteTicks s.count acts] p).shown c

/-- An event that handles no command leaves the rest of the run to be shown from
the phase it reached. -/
theorem showsMinutes_cons {c : AfTimeConfig} {p : Phase} {s : LoopState env} (mday : Nat → Nat)
    {a : LoopAct} (acts : List LoopAct) :
    ShowsMinutes mday c p s (a :: acts) ↔
      ShowsMinutes mday c ((Phase.advance c)^[if isMinute s.count a then 1 else 0] p)
        (loopStep mday s a) acts := by
  unfold ShowsMinutes
  rw [run_cons, loopStep_count]
  show _ = ((Phase.advance c)^[_ + _] p).shown c ↔ _
  rw [Nat.add_comm, Function.iterate_add_apply]

theorem showsMinutes_prefixes_iff {c : AfTimeConfig} (hmode : c.timeMode = 1) (mday : Nat → Nat)
    (acts : List LoopAct) : ∀ {p : Phase} {s : LoopState env}, LoopAtPhase c p s →
      (∀ a ∈ acts, StaysWithin c a) →
      ((∀ pre post, acts = pre ++ post → ShowsMinutes mday c p s pre) ↔
        EveryStep (loopStep mday) (fun s a => handlesChange s a = false) s acts) := by
  induction acts with
  | nil =>
      intro p s h _
      refine ⟨fun _ => everyStep_nil s, ?_⟩
      intro _ pre post heq
      obtain ⟨rfl, -⟩ := List.append_eq_nil_iff.mp heq.symm
      show dynamicStatus c s.day.daemon.dev.status = p.shown c
      rw [← shown_phaseOf, h.day.phase]
  | cons a acts ih =>
      intro p s h hin
      have hstep := loopAtPhase_step hmode h mday (hin a List.mem_cons_self)
      have hrest := fun a' ha' => hin a' (List.mem_cons_of_mem a ha')
      rw [everyStep_cons]
      by_cases hchange : handlesChange s a = true
      · -- the command is counted on top of the minute, and the count is seen
        refine ⟨fun hall => absurd (hall [a] acts rfl) ?_, fun hquiet => ?_⟩
        · rw [showsMinutes_cons]
          show dynamicStatus c (loopStep mday s a).day.daemon.dev.status ≠ _
          rw [← shown_phaseOf, hstep.day.phase, hchange, if_pos rfl, Nat.add_comm,
            Function.iterate_add_apply]
          exact shown_advance_ne c _
        · exact absurd hquiet.1 (by simp [hchange])
      · rw [Bool.not_eq_true] at hchange
        rw [hchange] at hstep
        have hiff := ih (show LoopAtPhase c _ (loopStep mday s a) from hstep) hrest
        simp only [Bool.false_eq_true, if_false, Nat.add_zero] at hiff
        rw [← hiff]
        constructor
        · intro hall
          refine ⟨hchange, ?_⟩
          intro pre post heq
          exact (showsMinutes_cons mday pre).mp (hall (a :: pre) post (by rw [heq]; rfl))
        · rintro ⟨-, hall⟩ pre post heq
          cases pre with
          | nil =>
              show dynamicStatus c s.day.daemon.dev.status = p.shown c
              rw [← shown_phaseOf, h.day.phase]
          | cons a' pre =>
              obtain ⟨rfl, htail⟩ := List.cons.inj heq
              exact (showsMinutes_cons mday pre).mpr (hall pre post htail)

/-- **The phase counts commands.** In mode 1, with every clock reading inside the
configured weekdays and segment and the time configuration left alone: along a
run the filter phase and the remaining time are always those that the full
minutes give iff no tick of the run finds `g_oaf_config_change` set. -/
theorem dynamic_phase_iff (mday : Nat → Nat) (c : AfTimeConfig) (s : LoopState env)
    (acts : List LoopAct) (hmode : c.timeMode = 1) (htime : s.day.daemon.time = c)
    (hstored : s.stored.time = c) (hin : ∀ a ∈ acts, StaysWithin c a) :
    (∀ pre post, acts = pre ++ post →
      dynamicStatus c (run (loopStep mday) s pre).day.daemon.dev.status =
        ((Phase.advance c)^[minuteTicks s.count pre]
          (phaseOf s.day.daemon.dev.status)).shown c) ↔
      EveryStep (loopStep mday) (fun s a => handlesChange s a = false) s acts :=
  showsMinutes_prefixes_iff hmode mday acts ⟨hstored, htime, rfl⟩ hin

/-! ## A command in the middle of a phase -/

/-- Mode 1 on every day: thirty minutes allowed, ten denied. -/
def alternating : AfTimeConfig :=
  { oneHourConfig with
    timeMode := 1
    allowTime := 30
    denyTime := 10
    segEnd := ⟨23, 59⟩ }

/-- The daemon in its first minute, with no command pending. -/
def firstMinute : LoopState routerEnv where
  day := dayStart ⟨{}, alternating⟩ (boot routerEnv 0)
  count := 1
  configChange := false
  stored := ⟨{}, alternating⟩

theorem inSegment_morning : InSegment alternating mondayMorning := by
  refine ⟨rfl, ?_, ?_⟩ <;> decide

/-- Two ticks without a command, the second one of a full minute: the phase is
where the minute puts it. -/
theorem dynamic_phase_quiet :
    let s : LoopState routerEnv := { firstMinute with count := 59 }
    let acts := [LoopAct.tick quietTick, .tick quietTick]
    minuteTicks s.count acts = 1 ∧
      dynamicStatus alternating (run (loopStep id) s acts).day.daemon.dev.status =
        ((Phase.advance alternating)^[minuteTicks s.count acts]
          (phaseOf s.day.daemon.dev.status)).shown alternating := by
  intro s acts
  refine ⟨by decide, (dynamic_phase_iff id alternating s acts rfl rfl rfl ?_).mpr ?_ acts [] ?_⟩
  · intro a ha
    simp only [acts, List.mem_cons, List.not_mem_nil, or_false, or_self] at ha
    subst ha
    exact inSegment_morning
  · rw [everyStep_cons, everyStep_cons]
    exact ⟨rfl, rfl, everyStep_nil _⟩
  · rw [List.append_nil]

/-- Clearing the minutes of all devices takes a minute off the phase: two runs
with the same full minutes, one with the command, show different remaining
times. -/
theorem dynamic_phase_counts_command :
    ¬ ∀ acts acts' : List LoopAct,
      (∀ a ∈ acts, StaysWithin alternating a) → (∀ a ∈ acts', StaysWithin alternating a) →
      minuteTicks firstMinute.count acts = minuteTicks firstMinute.count acts' →
      dynamicStatus alternating (run (loopStep id) firstMinute acts).day.daemon.dev.status =
        dynamicStatus alternating (run (loopStep id) firstMinute acts').day.daemon.dev.status := by
  intro h
  have hsame := h [.tick quietTick] [.clearActiveTime allOk none, .tick quietTick] ?_ ?_ rfl
  · exact absurd hsame (by decide +kernel)
  · intro a ha
    rw [List.mem_singleton.mp ha]
    exact inSegment_morning
  · intro a ha
    simp only [List.mem_cons, List.not_mem_nil, or_false] at ha
    rcases ha with rfl | rfl
    · trivial
    · exact inSegment_morning

end OpenAppFilter.Theorems
