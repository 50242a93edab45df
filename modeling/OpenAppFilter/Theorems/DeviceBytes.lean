import OpenAppFilter.Theorems.TrafficTotals
import OpenAppFilter.Traffic.Meter

/-!
# Bytes of one device

What the collector records for a MAC against what was counted. A run compares
the counter with the snapshot of the last run that took a sample of the device.
When the counter has fallen below it, it has started again and counts from zero;
when it has grown past it, the run records the difference. So a restart is
noticed iff the first sample after it is below the snapshot, and in no case is a
byte recorded twice.

A device that is offline with both counters at zero is not sampled, so the run
that could see the restart may leave the old snapshot standing.
-/

namespace OpenAppFilter.Theorems

open Base Traffic

variable {mac : ListedMac}

/-! ## What is recorded -/

/-- The sum over all dates of `traffic_ip_daily` for the MAC. -/
def recorded (dir : Dir) (db : TrafficDb) (mac : ListedMac) : Nat :=
  rowSum (fun k : CStr × CStr => decide (k.2 = mac.val)) (fun row => dir.of row.flow) db.ipDaily

/-- The snapshot of the device. -/
def snapshot (dir : Dir) (db : TrafficDb) (mac : ListedMac) : Nat :=
  dir.of (db.captured (.mac mac.val))

/-- A run records the increment of its sample, if it takes one. -/
theorem recorded_collect (dir : Dir) (db : TrafficDb) (l : Listing mac) (counter : Flow) :
    recorded dir (collectTraffic db (l.collection counter)) mac =
      recorded dir db mac +
        if (l.sample counter).isSome then computeDelta (dir.of counter) (snapshot dir db mac)
        else 0 := by
  have hsum : (((l.collection counter).devices.filterMap sampleOf).filter
      (fun s => decide (s.mac = mac.val))).map
        (fun s => computeDelta (dir.of s.flow) (dir.of (db.captured (.mac s.mac)))) =
      (l.sample counter).toList.map
        (fun _ => computeDelta (dir.of counter) (snapshot dir db mac)) := by
    rw [filter_samples]
    refine List.map_congr_left ?_
    intro s hs
    obtain ⟨hmac, hflow⟩ := sample_some (Option.mem_toList.mp hs)
    rw [hmac, hflow]
    rfl
  have hrun : recorded dir (collectTraffic db (l.collection counter)) mac =
      recorded dir db mac + (((l.sample counter).toList.map
        (fun _ => computeDelta (dir.of counter) (snapshot dir db mac))).sum) := by
    rw [← hsum]
    unfold recorded collectTraffic
    split
    · rename_i hnil
      rw [hnil]
      simp
    · dsimp only
      unfold addDeviceRow
      refine rowSum_foldl_upsert_filter (fun s => ?_) (fun s row => ?_) _ _
      · exact dir.of_delta _ _
      · rw [dir.of_add, dir.of_delta]
  rw [hrun]
  cases l.sample counter <;> simp

theorem snapshot_collect (dir : Dir) (db : TrafficDb) (l : Listing mac) (counter : Flow) :
    snapshot dir (collectTraffic db (l.collection counter)) mac =
      if (l.sample counter).isSome then dir.of counter else snapshot dir db mac := by
  unfold snapshot
  rw [captured_collect]
  split <;> rfl

/-! ## Never too much -/

/-- Of the bytes counted, `pend` are not yet recorded, and the counter is at most
as far above the snapshot as that: it counts `pend` from the snapshot on, or has
started again since. -/
structure Covered (dir : Dir) (mac : ListedMac) (m : Meter) (pend : Nat) : Prop where
  total : recorded dir m.db mac + pend ≤ dir.of m.total
  counter : dir.of m.counter ≤ pend ∨ dir.of m.counter = snapshot dir m.db mac + pend

/-- The increment of a run is at most what is not yet recorded. -/
theorem Covered.delta {dir : Dir} {m : Meter} {pend : Nat} (h : Covered dir mac m pend) :
    computeDelta (dir.of m.counter) (snapshot dir m.db mac) ≤ pend := by
  have hcounter := h.counter
  unfold computeDelta
  split_ifs <;> omega

theorem Covered.step {dir : Dir} {m : Meter} {pend : Nat} (h : Covered dir mac m pend)
    (a : MeterAct mac) : ∃ pend', Covered dir mac (meterStep m a) pend' := by
  obtain ⟨htotal, hcounter⟩ := h
  cases a with
  | count bytes =>
      refine ⟨pend + dir.of bytes, ?_, ?_⟩
      · show recorded dir m.db mac + (pend + dir.of bytes) ≤ dir.of (m.total.add bytes)
        rw [dir.of_add]
        omega
      · show dir.of (m.counter.add bytes) ≤ _ ∨ dir.of (m.counter.add bytes) = _
        rw [dir.of_add]
        show _ ∨ _ = snapshot dir m.db mac + _
        omega
  | restart =>
      refine ⟨pend, htotal, Or.inl ?_⟩
      show dir.of {} ≤ pend
      rw [dir.of_zero]
      exact Nat.zero_le _
  | collect l =>
      have hdelta := (Covered.mk htotal hcounter).delta
      have hrec := recorded_collect dir m.db l m.counter
      have hsnap := snapshot_collect dir m.db l m.counter
      by_cases hs : (l.sample m.counter).isSome = true
      · rw [if_pos hs] at hrec hsnap
        refine ⟨0, ?_, Or.inr ?_⟩
        · show recorded dir (collectTraffic m.db _) mac + 0 ≤ dir.of m.total
          omega
        · show dir.of m.counter = snapshot dir (collectTraffic m.db _) mac + 0
          omega
      · rw [if_neg hs] at hrec hsnap
        refine ⟨pend, ?_, ?_⟩
        · show recorded dir (collectTraffic m.db _) mac + pend ≤ dir.of m.total
          omega
        · show dir.of m.counter ≤ pend ∨
            dir.of m.counter = snapshot dir (collectTraffic m.db _) mac + pend
          omega

theorem Covered.run {dir : Dir} (es : List (MeterAct mac)) :
    ∀ {m : Meter} {pend : Nat}, Covered dir mac m pend →
      ∃ pend', Covered dir mac (run meterStep m es) pend' := by
  induction es with
  | nil =>
      intro m pend h
      exact ⟨pend, h⟩
  | cons a es ih =>
      intro m pend h
      obtain ⟨pend', h'⟩ := h.step a
      exact ih h'

theorem covered_start (dir : Dir) : Covered dir mac {} 0 where
  total := by
    show recorded dir {} mac + 0 ≤ dir.of {}
    rw [dir.of_zero]
    exact Nat.le_refl 0
  counter := by
    refine Or.inl ?_
    show dir.of {} ≤ 0
    rw [dir.of_zero]

/-- **No byte is recorded twice.** Whatever is counted, however often the counters
start again, and whichever runs list the device: the increments recorded for the
MAC add up to at most the bytes counted. -/
theorem recorded_le_counted (mac : ListedMac) (es : List (MeterAct mac)) (dir : Dir) :
    recorded dir (run meterStep {} es).db mac ≤ dir.of (run meterStep {} es).total := by
  obtain ⟨pend, h⟩ := (covered_start dir).run es
  have htotal := h.total
  omega

/-! ## When nothing is missing -/

/-- The bytes a sample after a restart leaves out: those below a snapshot that is
still standing. -/
def overtaken (dir : Dir) (m : Meter) (l : Listing mac) : Nat :=
  if m.stale = true ∧ (l.sample m.counter).isSome = true ∧
      snapshot dir m.db mac ≤ dir.of m.counter then snapshot dir m.db mac
  else 0

/-- What one event leaves out. -/
def leftOut (dir : Dir) (m : Meter) : MeterAct mac → Nat
  | .collect l => overtaken dir m l
  | _ => 0

/-- The run sees the restart, if there was one: a sample it takes after it is
below the snapshot, or the snapshot holds nothing. -/
def RestartSeen (m : Meter) (a : MeterAct mac) : Prop := ∀ dir, leftOut dir m a = 0

/-- Everything counted is recorded, lost with a restart, or new; `missing` is what
earlier samples have left out. Without a restart since the last sample the
counter continues the snapshot; after one it has counted what is new. -/
structure Exact (dir : Dir) (mac : ListedMac) (m : Meter) (missing : Nat) : Prop where
  total : recorded dir m.db mac + dir.of m.lost + dir.of m.fresh + missing = dir.of m.total
  counter : dir.of m.counter = (if m.stale then 0 else snapshot dir m.db mac) + dir.of m.fresh

/-- The listing of the device holds an address. -/
def ListedWithIp : MeterAct mac → Prop
  | .collect l => l.HasIp
  | _ => True

/-- A device listed with an address is skipped only while its counters are zero. -/
theorem counter_of_skipped {l : Listing mac} (hip : l.HasIp) {counter : Flow}
    (hs : l.sample counter = none) (dir : Dir) : dir.of counter = 0 := by
  rw [(sample_none hip hs).1, dir.of_zero]

/-- One event adds what its sample leaves out. -/
theorem Exact.step {dir : Dir} {m : Meter} {missing : Nat} (h : Exact dir mac m missing)
    {a : MeterAct mac} (hip : ListedWithIp a) :
    Exact dir mac (meterStep m a) (missing + leftOut dir m a) := by
  obtain ⟨htotal, hcounter⟩ := h
  cases a with
  | count bytes =>
      refine ⟨?_, ?_⟩
      · show recorded dir m.db mac + dir.of m.lost + dir.of (m.fresh.add bytes) + (missing + 0) =
          dir.of (m.total.add bytes)
        rw [dir.of_add, dir.of_add]
        omega
      · show dir.of (m.counter.add bytes) =
          (if m.stale then 0 else snapshot dir m.db mac) + dir.of (m.fresh.add bytes)
        rw [dir.of_add, dir.of_add]
        omega
  | restart =>
      refine ⟨?_, ?_⟩
      · show recorded dir m.db mac + dir.of (m.lost.add m.fresh) + dir.of {} + (missing + 0) =
          dir.of m.total
        rw [dir.of_add, dir.of_zero]
        omega
      · show dir.of {} = 0 + dir.of {}
        rw [Nat.zero_add]
  | collect l =>
      have hrec := recorded_collect dir m.db l m.counter
      have hsnap := snapshot_collect dir m.db l m.counter
      refine ⟨?_, ?_⟩
      · show recorded dir (collectTraffic m.db _) mac + dir.of m.lost + dir.of {} +
          (missing + overtaken dir m l) = dir.of m.total
        rw [dir.of_zero, hrec]
        unfold overtaken
        cases hs : l.sample m.counter with
        | none =>
            -- skipped: the counter is zero, so nothing is new
            have hzero := counter_of_skipped hip hs dir
            simp
            omega
        | some s =>
            unfold computeDelta
            cases hstale : m.stale <;> simp [hstale] at hcounter ⊢ <;> split_ifs <;> omega
      · show dir.of m.counter = (if m.stale && (l.sample m.counter).isNone then 0
          else snapshot dir (collectTraffic m.db _) mac) + dir.of {}
        rw [dir.of_zero, hsnap]
        cases hs : l.sample m.counter with
        | none =>
            have hzero := counter_of_skipped hip hs dir
            cases hstale : m.stale <;> simp [hstale] at hcounter ⊢ <;> omega
        | some s => simp

/-- What a run of events leaves out. -/
def missed (dir : Dir) : Meter → List (MeterAct mac) → Nat
  | _, [] => 0
  | m, a :: es => leftOut dir m a + missed dir (meterStep m a) es

theorem Exact.run {dir : Dir} {es : List (MeterAct mac)} :
    ∀ {m : Meter} {missing : Nat}, Exact dir mac m missing → (∀ a ∈ es, ListedWithIp a) →
      Exact dir mac (run meterStep m es) (missing + missed dir m es) := by
  induction es with
  | nil =>
      intro m missing h _
      exact h
  | cons a es ih =>
      intro m missing h hip
      have hstep := h.step (hip a List.mem_cons_self)
      have hrun := ih hstep (fun a' ha' => hip a' (List.mem_cons_of_mem _ ha'))
      rw [Nat.add_assoc] at hrun
      exact hrun

theorem exact_start (dir : Dir) : Exact dir mac {} 0 where
  total := by
    show recorded dir {} mac + dir.of {} + dir.of {} + 0 = dir.of {}
    rw [dir.of_zero]
    rfl
  counter := by
    show dir.of {} = snapshot dir {} mac + dir.of {}
    have hnone : snapshot dir {} mac = 0 := dir.of_zero
    rw [dir.of_zero, hnone]

/-- Nothing is left out iff every run sees the restarts. -/
theorem missed_eq_zero_iff {es : List (MeterAct mac)} :
    ∀ {m : Meter}, (∀ dir, missed dir m es = 0) ↔ EveryStep meterStep RestartSeen m es := by
  induction es with
  | nil =>
      intro m
      exact ⟨fun _ => everyStep_nil m, fun _ _ => rfl⟩
  | cons a es ih =>
      intro m
      rw [everyStep_cons, ← ih]
      constructor
      · intro h
        refine ⟨fun dir => ?_, fun dir => ?_⟩
        · exact (Nat.add_eq_zero_iff.mp (h dir)).1
        · exact (Nat.add_eq_zero_iff.mp (h dir)).2
      · rintro ⟨hhead, htail⟩ dir
        exact Nat.add_eq_zero_iff.mpr ⟨hhead dir, htail dir⟩

/-- All bytes counted are recorded, but for those between the last run before a
restart and the restart. -/
def AccountedFor (mac : ListedMac) (m : Meter) : Prop :=
  ∀ dir, recorded dir m.db mac + dir.of m.lost = dir.of m.total

/-- After a run, that is so iff nothing was left out. -/
theorem accountedFor_iff {pre : List (MeterAct mac)} {l : Listing mac}
    (hip : ∀ a ∈ pre ++ [.collect l], ListedWithIp a) :
    AccountedFor mac (run meterStep {} (pre ++ [.collect l])) ↔
      EveryStep meterStep RestartSeen {} (pre ++ [.collect l]) := by
  rw [← missed_eq_zero_iff]
  refine forall_congr' (fun dir => ?_)
  have htotal := ((exact_start dir).run hip).total
  have hfresh : dir.of (run meterStep {} (pre ++ [MeterAct.collect l])).fresh = 0 := by
    rw [run_append]
    exact dir.of_zero
  omega

/-- **Restarts are accounted for** at every run iff no run samples the device after
a restart with a counter that has reached its old snapshot again. -/
theorem restarts_accounted_iff (mac : ListedMac) (es : List (MeterAct mac))
    (hip : ∀ a ∈ es, ListedWithIp a) :
    (∀ pre l post, es = pre ++ .collect l :: post →
        AccountedFor mac (run meterStep {} (pre ++ [.collect l]))) ↔
      EveryStep meterStep RestartSeen {} es := by
  have hfront : ∀ {pre : List (MeterAct mac)} {l post}, es = pre ++ .collect l :: post →
      ∀ a ∈ pre ++ [.collect l], ListedWithIp a := by
    intro pre l post heq a ha
    refine hip a ?_
    rw [heq]
    rcases List.mem_append.mp ha with ha | ha
    · exact List.mem_append_left _ ha
    · rw [List.mem_singleton.mp ha]
      exact List.mem_append_right _ List.mem_cons_self
  constructor
  · intro h pre a post heq
    cases a with
    | count bytes => exact fun _ => rfl
    | restart => exact fun _ => rfl
    | collect l =>
        have hseen := (accountedFor_iff (hfront heq)).mp (h pre l post heq)
        exact hseen pre (.collect l) [] rfl
  · intro h pre l post heq
    refine (accountedFor_iff (hfront heq)).mpr ?_
    intro pre' a post' heq'
    refine h pre' a (post' ++ post) ?_
    calc es = (pre ++ [.collect l]) ++ post := by rw [heq]; simp
      _ = (pre' ++ a :: post') ++ post := by rw [heq']
      _ = pre' ++ a :: (post' ++ post) := by simp

/-! ## Restarts a run could see -/

/-- At the first run after a restart both counters are below what they were at
the run before. -/
def RestartVisible (m : Meter) : MeterAct mac → Prop
  | .collect _ => m.restarted = true → ∀ prev, m.lastRun = some prev →
      m.counter.up < prev.up ∧ m.counter.down < prev.down
  | _ => True

/-- The first run after a restart takes a sample. -/
def SampledAfterRestart (m : Meter) : MeterAct mac → Prop
  | .collect l => m.restarted = true → (l.sample m.counter).isSome = true
  | _ => True

/-- As long as no restart goes unsampled, the snapshot is what the counters were
at the last run. -/
structure SnapshotCurrent (mac : ListedMac) (m : Meter) : Prop where
  stale : m.stale = m.restarted
  current : ∀ dir, snapshot dir m.db mac = dir.of (m.lastRun.getD {})
  counter : m.stale = false → ∀ dir, snapshot dir m.db mac ≤ dir.of m.counter

theorem snapshotCurrent_start : SnapshotCurrent mac {} := by
  refine ⟨rfl, fun dir => rfl, fun _ dir => ?_⟩
  show dir.of {} ≤ dir.of {}
  exact Nat.le_refl _

theorem SnapshotCurrent.step {m : Meter} (h : SnapshotCurrent mac m) {a : MeterAct mac}
    (hip : ListedWithIp a) (hsampled : SampledAfterRestart m a) :
    SnapshotCurrent mac (meterStep m a) := by
  obtain ⟨hstale, hsnap, hcounter⟩ := h
  cases a with
  | count bytes =>
      refine ⟨hstale, hsnap, fun hno dir => ?_⟩
      have hle := hcounter hno dir
      show snapshot dir m.db mac ≤ dir.of (m.counter.add bytes)
      rw [dir.of_add]
      omega
  | restart => exact ⟨rfl, hsnap, fun hno => absurd hno (by simp [meterStep])⟩
  | collect l =>
      have hafter := fun dir => snapshot_collect dir m.db l m.counter
      cases hs : l.sample m.counter with
      | some s =>
          simp only [hs, Option.isSome_some, if_true] at hafter
          refine ⟨?_, hafter, fun _ dir => Nat.le_of_eq (hafter dir)⟩
          show (m.stale && (l.sample m.counter).isNone) = false
          rw [hs]
          exact Bool.and_false _
      | none =>
          -- skipped without a restart: counter and snapshot are zero
          have hno : m.stale = false := by
            rw [hstale]
            cases hr : m.restarted with
            | false => rfl
            | true =>
                have hsome := hsampled hr
                rw [hs] at hsome
                exact absurd hsome (by simp)
          have hzero := counter_of_skipped hip hs
          simp only [hs, Option.isSome_none, Bool.false_eq_true, if_false] at hafter
          refine ⟨?_, fun dir => ?_, fun _ dir => ?_⟩
          · show (m.stale && (l.sample m.counter).isNone) = false
            rw [hno]
            rfl
          · have hle := hcounter hno dir
            show snapshot dir (collectTraffic m.db (l.collection m.counter)) mac = dir.of m.counter
            rw [hafter, hzero]
            rw [hzero] at hle
            omega
          · show snapshot dir (collectTraffic m.db (l.collection m.counter)) mac ≤ dir.of m.counter
            rw [hafter]
            exact hcounter hno dir

/-- A restart that is visible is seen. -/
theorem SnapshotCurrent.seen {m : Meter} (h : SnapshotCurrent mac m) {a : MeterAct mac}
    (hvisible : RestartVisible m a) : RestartSeen m a := by
  cases a with
  | count bytes => exact fun _ => rfl
  | restart => exact fun _ => rfl
  | collect l =>
      intro dir
      show (if _ then _ else _) = _
      split
      · rename_i hcase
        obtain ⟨hst, -, hle⟩ := hcase
        rw [h.current] at hle ⊢
        cases hlast : m.lastRun with
        | none => exact dir.of_zero
        | some prev =>
            obtain ⟨hup, hdown⟩ := hvisible (h.stale ▸ hst) prev hlast
            rw [hlast, Option.getD_some] at hle
            cases dir with
            | up => exact absurd hle (Nat.not_le.mpr hup)
            | down => exact absurd hle (Nat.not_le.mpr hdown)
      · rfl

/-- When every visible restart is sampled at once, every restart is seen. -/
theorem restartSeen_of_sampled {es : List (MeterAct mac)} (hip : ∀ a ∈ es, ListedWithIp a)
    (h : EveryStep meterStep (fun m a => RestartVisible m a ∧ SampledAfterRestart m a) {} es) :
    EveryStep meterStep RestartSeen {} es := by
  have hboth : EveryStep meterStep (fun m a => ListedWithIp a ∧ RestartVisible m a ∧
      SampledAfterRestart m a) {} es := by
    intro pre a post heq
    exact ⟨hip a (by rw [heq]; simp), h pre a post heq⟩
  exact EveryStep.of_invariant (I := SnapshotCurrent mac) (fun _ _ hs hC => hs.step hC.1 hC.2.2)
    (fun _ _ hs hC => hs.seen hC.2.1) snapshotCurrent_start hboth

/-! ## A night offline -/

def laptopName : ListedMac := ⟨"02:00:00:00:00:11".toList, by decide⟩

/-- A run that lists the laptop alone. -/
def laptopListing (online : Int) : Listing laptopName where
  today := "2025-02-27".toList
  month := "2025-02".toList
  year := "2025".toList
  time := "10:00".toList
  before := []
  device := some { ip := "192.168.1.2".toList, online := online }
  after := []
  others := by
    intro d hd
    exact absurd hd List.not_mem_nil

theorem laptop_validIp : validIp "192.168.1.2".toList "0.0.0.0".toList = true := by
  decide +kernel

theorem laptopListing_hasIp (online : Int) : (laptopListing online).HasIp :=
  ⟨_, rfl, Or.inl laptop_validIp⟩

/-- 100 bytes each way, a restart, and 150 bytes before and after a second run;
the first run after the restart finds the laptop `online` or not. -/
def nightRun (online : Int) : List (MeterAct laptopName) :=
  [.count ⟨100, 100⟩, .collect (laptopListing 1), .restart, .collect (laptopListing online),
    .count ⟨150, 150⟩, .collect (laptopListing 1)]

theorem nightRun_hasIp (online : Int) : ∀ a ∈ nightRun online, ListedWithIp a := by
  intro a ha
  simp only [nightRun, List.mem_cons, List.not_mem_nil, or_false] at ha
  rcases ha with rfl | rfl | rfl | rfl | rfl | rfl
  · trivial
  · exact laptopListing_hasIp 1
  · trivial
  · exact laptopListing_hasIp online
  · trivial
  · exact laptopListing_hasIp 1

/-- The laptop is online all the time: the zeros are recorded, and all 250 bytes
are. -/
theorem restarts_accounted_online :
    AccountedFor laptopName (run meterStep {} (nightRun 1)) := by
  refine (restarts_accounted_iff laptopName (nightRun 1) (nightRun_hasIp 1)).mpr ?_
    [.count ⟨100, 100⟩, .collect (laptopListing 1), .restart, .collect (laptopListing 1),
      .count ⟨150, 150⟩] (laptopListing 1) [] rfl
  unfold nightRun
  simp only [everyStep_cons]
  refine ⟨fun _ => rfl, ?_, fun _ => rfl, ?_, fun _ => rfl, ?_, everyStep_nil _⟩
  · intro dir
    cases dir <;> decide +kernel
  · intro dir
    cases dir <;> decide +kernel
  · intro dir
    cases dir <;> decide +kernel

/-- The laptop is offline at the run after the restart, which both counters show:
the run skips it, and the next one takes the 150 bytes for 50. -/
theorem offline_restart_missed :
    (∀ a ∈ nightRun 0, ListedWithIp a) ∧ EveryStep meterStep RestartVisible {} (nightRun 0) ∧
      recorded .up (run meterStep {} (nightRun 0)).db laptopName = 150 ∧
      (run meterStep {} (nightRun 0)).lost = {} ∧
      (run meterStep {} (nightRun 0)).total = ⟨250, 250⟩ ∧
      ¬ AccountedFor laptopName (run meterStep {} (nightRun 0)) := by
  have hrec : recorded .up (run meterStep {} (nightRun 0)).db laptopName = 150 := by
    decide +kernel
  have hvisible : EveryStep meterStep RestartVisible {} (nightRun 0) := by
    unfold nightRun
    simp only [everyStep_cons]
    refine ⟨trivial, ?_, trivial, ?_, trivial, ?_, everyStep_nil _⟩
    · intro hr
      exact absurd hr (by decide)
    · intro _ prev hprev
      obtain rfl : (⟨100, 100⟩ : Flow) = prev := Option.some.inj hprev
      decide
    · intro hr
      exact absurd hr (by decide)
  refine ⟨nightRun_hasIp 0, hvisible, hrec, rfl, rfl, ?_⟩
  intro h
  have hup := h .up
  rw [hrec] at hup
  exact absurd hup (by decide)

end OpenAppFilter.Theorems
