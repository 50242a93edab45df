import OpenAppFilter.Base.Run
import OpenAppFilter.Traffic.Collect
import Mathlib.Data.List.Induction

/-!
# Network totals and device totals

The collector books the increment of the whole network and the increments of
the devices side by side. A counter's increment is its value less what the
snapshot already covers, and the snapshot covers nothing when the counter has
fallen below it (`computeDelta_add_covered`). So both sides book the same iff
the snapshot covers the same on both: the captured counters of the sampled
devices that have not fallen add up to the captured network sum, or to nothing
when the network sum has fallen.

A device that leaves the sample, or comes back, breaks this.
-/

namespace OpenAppFilter.Theorems

open Base Traffic

/-! ## One direction at a time -/

/-- Upload or download. -/
inductive Dir where
  | up
  | down

/-- The counter of a direction. -/
def Dir.of : Dir → Flow → Nat
  | .up, f => f.up
  | .down, f => f.down

@[simp] theorem Dir.of_add (dir : Dir) (a b : Flow) :
    dir.of (a.add b) = dir.of a + dir.of b := by
  cases dir <;> rfl

@[simp] theorem Dir.of_delta (dir : Dir) (a b : Flow) :
    dir.of (a.delta b) = computeDelta (dir.of a) (dir.of b) := by
  cases dir <;> rfl

@[simp] theorem Dir.of_zero (dir : Dir) : dir.of {} = 0 := by
  cases dir <;> rfl

theorem Dir.of_sum (dir : Dir) (fs : List Flow) :
    dir.of (Flow.sum fs) = (fs.map dir.of).sum := by
  induction fs with
  | nil => exact dir.of_zero
  | cons f fs ih =>
      show dir.of (f.add (Flow.sum fs)) = _
      rw [dir.of_add, ih, List.map_cons, List.sum_cons]

/-! ## What a snapshot covers -/

/-- The part of a counter that the snapshot of the last run already covers. -/
def covered (current last : Nat) : Nat := if last ≤ current then last else 0

theorem computeDelta_add_covered (current last : Nat) :
    computeDelta current last + covered current last = current := by
  unfold computeDelta covered
  split_ifs <;> omega

/-- What the snapshots of the sampled devices cover. -/
def devicesCovered (dir : Dir) (db : TrafficDb) (samples : List Sample) : Nat :=
  (samples.map (fun s => covered (dir.of s.flow) (dir.of (db.captured (.mac s.mac))))).sum

/-- What the snapshot of the network sum covers. -/
def networkCovered (dir : Dir) (db : TrafficDb) (samples : List Sample) : Nat :=
  covered ((samples.map (fun s => dir.of s.flow)).sum) (dir.of (db.captured .global))

/-- The increments of the devices and what is covered make up their counters. -/
theorem devicesDelta_add_covered (dir : Dir) (db : TrafficDb) (samples : List Sample) :
    (samples.map (fun s => computeDelta (dir.of s.flow)
      (dir.of (db.captured (.mac s.mac))))).sum + devicesCovered dir db samples =
      (samples.map (fun s => dir.of s.flow)).sum := by
  unfold devicesCovered
  induction samples with
  | nil => rfl
  | cons s samples ih =>
      have hs := computeDelta_add_covered (dir.of s.flow) (dir.of (db.captured (.mac s.mac)))
      simp only [List.map_cons, List.sum_cons]
      omega

/-! ## Totals of a day -/

/-- `traffic_daily` of the date. -/
def dailyTotal (dir : Dir) (db : TrafficDb) (today : CStr) : Nat :=
  dir.of ((rowOf today db.daily).getD {})

/-- The sum over all MACs of `traffic_ip_daily` of the date. -/
def devicesTotal (dir : Dir) (db : TrafficDb) (today : CStr) : Nat :=
  rowSum (fun k : CStr × CStr => decide (k.1 = today)) (fun row => dir.of row.flow) db.ipDaily

/-- Both totals agree in both directions. -/
def TotalsAgree (today : CStr) (db : TrafficDb) : Prop :=
  ∀ dir, dailyTotal dir db today = devicesTotal dir db today

/-- A run books the same for the network and for the devices: the snapshots
cover the same. -/
def SameCover (db : TrafficDb) (c : Collection) : Prop :=
  c.devices ≠ [] → ∀ dir, devicesCovered dir db (c.devices.filterMap sampleOf) =
    networkCovered dir db (c.devices.filterMap sampleOf)

theorem dailyTotal_collect (dir : Dir) (db : TrafficDb) {c : Collection} (h : c.devices ≠ []) :
    dailyTotal dir (collectTraffic db c) c.today + networkCovered dir db
        (c.devices.filterMap sampleOf) =
      dailyTotal dir db c.today +
        ((c.devices.filterMap sampleOf).map (fun s => dir.of s.flow)).sum := by
  have hdelta := computeDelta_add_covered
    (((c.devices.filterMap sampleOf).map (fun s => dir.of s.flow)).sum)
    (dir.of (db.captured .global))
  unfold dailyTotal networkCovered collectTraffic
  rw [if_neg h]
  dsimp only
  rw [rowOf_upsert, if_pos rfl, Option.getD_some]
  cases rowOf c.today db.daily with
  | none =>
      rw [Option.elim_none, Option.getD_none, dir.of_zero, dir.of_delta, dir.of_sum, List.map_map]
      show computeDelta ((List.map (fun s : Sample => dir.of s.flow) _).sum) _ + _ = _
      omega
  | some f =>
      rw [Option.elim_some, Option.getD_some, dir.of_add, dir.of_delta, dir.of_sum, List.map_map]
      show dir.of f + computeDelta ((List.map (fun s : Sample => dir.of s.flow) _).sum) _ + _ = _
      omega

theorem devicesTotal_collect (dir : Dir) (db : TrafficDb) {c : Collection} (h : c.devices ≠ []) :
    devicesTotal dir (collectTraffic db c) c.today + devicesCovered dir db
        (c.devices.filterMap sampleOf) =
      devicesTotal dir db c.today +
        ((c.devices.filterMap sampleOf).map (fun s => dir.of s.flow)).sum := by
  have hdelta := devicesDelta_add_covered dir db (c.devices.filterMap sampleOf)
  have hrows : devicesTotal dir (collectTraffic db c) c.today = devicesTotal dir db c.today +
      ((c.devices.filterMap sampleOf).map (fun s => computeDelta (dir.of s.flow)
        (dir.of (db.captured (.mac s.mac))))).sum := by
    unfold devicesTotal collectTraffic
    rw [if_neg h]
    dsimp only
    unfold addDeviceRow
    refine rowSum_foldl_upsert (fun s => ?_) (fun s => ?_) (fun s row => ?_) _ _
    · exact decide_eq_true rfl
    · exact dir.of_delta _ _
    · rw [dir.of_add, dir.of_delta]
  omega

/-- One run keeps the totals in agreement iff it books the same on both sides. -/
theorem totalsAgree_collect_iff {db : TrafficDb} {c : Collection} (h : TotalsAgree c.today db) :
    TotalsAgree c.today (collectTraffic db c) ↔ SameCover db c := by
  by_cases hlist : c.devices = []
  · have hskip : collectTraffic db c = db := if_pos hlist
    rw [hskip]
    exact ⟨fun _ hne => absurd hlist hne, fun _ => h⟩
  · constructor
    · intro hafter _ dir
      have hbefore := h dir
      have hdir := hafter dir
      have hday := dailyTotal_collect dir db hlist
      have hdev := devicesTotal_collect dir db hlist
      omega
    · intro hcover dir
      have hbefore := h dir
      have hsame := hcover hlist dir
      have hday := dailyTotal_collect dir db hlist
      have hdev := devicesTotal_collect dir db hlist
      omega

/-! ## Runs -/

theorem totalsAgree_empty (today : CStr) : TotalsAgree today {} := by
  intro dir
  cases dir <;> rfl

/-- **Network and device totals agree at every moment of a day** iff in every
collection, for upload and download, the captured counters of the sampled
devices that have not fallen add up to the captured network sum, or to 0 when
the sum of the sample is below it. -/
theorem traffic_totals_iff (today : CStr) (cs : List Collection)
    (hday : ∀ c ∈ cs, c.today = today) :
    (∀ pre post, cs = pre ++ post → TotalsAgree today (run collectTraffic {} pre)) ↔
      EveryStep collectTraffic SameCover {} cs := by
  constructor
  · intro hagree pre c post heq
    have hc : c.today = today := hday c (by rw [heq]; simp)
    have hbefore := hagree pre (c :: post) heq
    have hafter := hagree (pre ++ [c]) post (by rw [heq]; simp)
    rw [run_append] at hafter
    rw [← hc] at hbefore hafter
    exact (totalsAgree_collect_iff hbefore).mp hafter
  · intro hcover pre post heq
    -- along the collections of `pre`, each one keeps the totals in agreement
    induction pre using List.reverseRecOn generalizing post with
    | nil => exact totalsAgree_empty today
    | append_singleton pre c ih =>
        have hc : c.today = today := hday c (by rw [heq]; simp)
        have hsplit : cs = pre ++ c :: post := by rw [heq]; simp
        have hbefore := ih (c :: post) hsplit
        rw [run_append]
        rw [← hc] at hbefore ⊢
        exact (totalsAgree_collect_iff hbefore).mpr (hcover pre c post hsplit)

/-! ## Two devices -/

/-- A device of the home network with its counters. -/
def homeDevice (mac ip : String) (up down : Nat) : Device :=
  { ip := ip.toList, mac := mac.toList, todayFlow := ⟨up, down⟩, online := 1 }

def laptop (up down : Nat) : Device := homeDevice "02:00:00:00:00:11" "192.168.1.2" up down
def camera (up down : Nat) : Device := homeDevice "02:00:00:00:00:12" "192.168.1.3" up down

def collectionOf (devices : List Device) : Collection :=
  { today := "2025-02-27".toList
    month := "2025-02".toList
    year := "2025".toList
    time := "10:00".toList
    devices := devices }

/-- Two devices that stay, with growing counters. -/
def growingDay : List Collection :=
  [collectionOf [laptop 100 400, camera 50 10], collectionOf [laptop 120 500, camera 90 10]]

theorem traffic_totals_growing :
    TotalsAgree "2025-02-27".toList (run collectTraffic {} growingDay) := by
  refine (traffic_totals_iff "2025-02-27".toList growingDay ?_).mpr ?_ growingDay [] (by simp)
  · intro c hc
    simp only [growingDay, List.mem_cons, List.not_mem_nil, or_false] at hc
    rcases hc with rfl | rfl <;> rfl
  · unfold growingDay
    rw [everyStep_cons, everyStep_cons]
    refine ⟨?_, ?_, everyStep_nil _⟩
    · intro _ dir
      cases dir <;> decide +kernel
    · intro _ dir
      cases dir <;> decide +kernel

/-- The camera loses its address for one collection. No device has sent a byte
more, and the network total has grown by what the laptop had. -/
theorem traffic_totals_differ :
    let db := run collectTraffic {}
      [collectionOf [laptop 100 400, camera 50 10], collectionOf [laptop 100 400]]
    dailyTotal .up db "2025-02-27".toList = 250 ∧
      devicesTotal .up db "2025-02-27".toList = 150 ∧
      ¬ TotalsAgree "2025-02-27".toList db := by
  intro db
  have hday : dailyTotal .up db "2025-02-27".toList = 250 := by decide +kernel
  have hdev : devicesTotal .up db "2025-02-27".toList = 150 := by decide +kernel
  refine ⟨hday, hdev, ?_⟩
  intro h
  have hup := h .up
  omega

end OpenAppFilter.Theorems
