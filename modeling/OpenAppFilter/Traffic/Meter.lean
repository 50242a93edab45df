import OpenAppFilter.Base.Run
import OpenAppFilter.Traffic.Collect

/-!
# One device under the collector

The byte counters of one MAC as a system: traffic is counted, the counters start
again from zero (at midnight, when the daemon restarts, when the device is
dropped and added again), and the collector runs, with this device in its list
or without. Runs are serial.

Beside the database and the counters a state keeps what an observer counts.
-/

namespace OpenAppFilter.Traffic

open Base

/-- A MAC as the daemon lists it. -/
abbrev ListedMac := { mac : CStr // mac ≠ [] }

/-- What a run finds beside the counters of the device: the date, the other
devices, and the device itself when it is listed. The daemon lists a MAC once. -/
structure Listing (mac : ListedMac) where
  today : CStr
  month : CStr
  year : CStr
  time : CStr
  before : List Device
  device : Option Device
  after : List Device
  others : ∀ d ∈ before ++ after, ∀ s ∈ sampleOf d, s.mac ≠ mac.val

/-- The device with its MAC and its counters. -/
def meteredDevice (mac : ListedMac) (counter : Flow) (d : Device) : Device :=
  { d with mac := mac.val, todayFlow := counter }

/-- What `collect_traffic` reads. -/
def Listing.collection {mac : ListedMac} (l : Listing mac) (counter : Flow) : Collection where
  today := l.today
  month := l.month
  year := l.year
  time := l.time
  devices := l.before ++ (l.device.map (meteredDevice mac counter)).toList ++ l.after

/-- The sample of the device in this run. -/
def Listing.sample {mac : ListedMac} (l : Listing mac) (counter : Flow) : Option Sample :=
  l.device.bind (fun d => sampleOf (meteredDevice mac counter d))

/-- The device is listed with an address. -/
def Listing.HasIp {mac : ListedMac} (l : Listing mac) : Prop :=
  ∃ d, l.device = some d ∧
    (validIp d.ip "0.0.0.0".toList = true ∨ validIp d.ipv6 "::".toList = true)

/-- The database, the counters of the device, and what has been counted. -/
structure Meter where
  db : TrafficDb := {}
  /-- `today_up_bytes` and `today_down_bytes`. -/
  counter : Flow := {}
  /-- All bytes counted. -/
  total : Flow := {}
  /-- Bytes counted since the last run or restart. -/
  fresh : Flow := {}
  /-- Bytes counted between the last run before a restart and the restart. -/
  lost : Flow := {}
  /-- The counters at the last run. -/
  lastRun : Option Flow := none
  /-- There was a restart since the last run. -/
  restarted : Bool := false
  /-- There was a restart since the last run that took a sample of the device. -/
  stale : Bool := false

inductive MeterAct (mac : ListedMac) where
  | count (bytes : Flow)
  | restart
  | collect (l : Listing mac)

/-- One event. -/
def meterStep {mac : ListedMac} (m : Meter) : MeterAct mac → Meter
  | .count bytes =>
      { m with
        counter := m.counter.add bytes
        total := m.total.add bytes
        fresh := m.fresh.add bytes }
  | .restart =>
      { m with
        counter := {}
        fresh := {}
        lost := m.lost.add m.fresh
        restarted := true
        stale := true }
  | .collect l =>
      { m with
        db := collectTraffic m.db (l.collection m.counter)
        fresh := {}
        lastRun := some m.counter
        restarted := false
        stale := m.stale && (l.sample m.counter).isNone }

/-! ## What a run does for the device -/

/-- A sample of the device has its MAC and its counters. -/
theorem sample_some {mac : ListedMac} {l : Listing mac} {counter : Flow} {s : Sample}
    (h : l.sample counter = some s) : s.mac = mac.val ∧ s.flow = counter := by
  obtain ⟨d, -, hs⟩ := Option.bind_eq_some_iff.mp h
  unfold sampleOf at hs
  dsimp only at hs
  split at hs
  · exact absurd hs (by simp)
  · split at hs
    · exact absurd hs (by simp)
    · obtain rfl := Option.some.inj hs
      exact ⟨if_neg mac.property, rfl⟩

/-- When a device is skipped. -/
theorem sampleOf_eq_none_iff (d : Device) :
    sampleOf d = none ↔
      (validIp d.ip "0.0.0.0".toList = false ∧ validIp d.ipv6 "::".toList = false) ∨
        (d.todayFlow.up = 0 ∧ d.todayFlow.down = 0 ∧ d.online = 0) := by
  have hsome : ∀ (s : Sample), (if d.todayFlow.up = 0 ∧ d.todayFlow.down = 0 ∧ d.online = 0
      then none else some s) = none ↔
        d.todayFlow.up = 0 ∧ d.todayFlow.down = 0 ∧ d.online = 0 := by
    intro s
    split
    · rename_i hzero
      exact ⟨fun _ => hzero, fun _ => rfl⟩
    · rename_i hzero
      exact ⟨fun h => absurd h (by simp), fun h => absurd h hzero⟩
  unfold sampleOf
  generalize validIp d.ip "0.0.0.0".toList = v4
  generalize validIp d.ipv6 "::".toList = v6
  cases v4 with
  | false =>
      cases v6 with
      | false => exact ⟨fun _ => Or.inl ⟨rfl, rfl⟩, fun _ => rfl⟩
      | true =>
          refine (hsome _).trans ⟨Or.inr, ?_⟩
          rintro (⟨-, hno⟩ | hzero)
          · exact absurd hno.symm Bool.false_ne_true
          · exact hzero
  | true =>
      refine (hsome _).trans ⟨Or.inr, ?_⟩
      rintro (⟨hno, -⟩ | hzero)
      · exact absurd hno.symm Bool.false_ne_true
      · exact hzero

/-- A device with an address is skipped only when it is offline and both counters
are zero. -/
theorem sample_none {mac : ListedMac} {l : Listing mac} {counter : Flow} (hip : l.HasIp)
    (h : l.sample counter = none) :
    counter = {} ∧ ∀ d, l.device = some d → d.online = 0 := by
  obtain ⟨d, hd, hvalid⟩ := hip
  unfold Listing.sample at h
  rw [hd, Option.bind_some, sampleOf_eq_none_iff] at h
  rcases h with ⟨hv4, hv6⟩ | ⟨hup, hdown, honline⟩
  · exfalso
    rcases hvalid with hv | hv
    · exact Bool.false_ne_true (hv4.symm.trans hv)
    · exact Bool.false_ne_true (hv6.symm.trans hv)
  · refine ⟨?_, ?_⟩
    · show Flow.mk counter.up counter.down = Flow.mk 0 0
      rw [show counter.up = 0 from hup, show counter.down = 0 from hdown]
    · intro d' hd'
      rw [hd] at hd'
      obtain rfl := Option.some.inj hd'
      exact honline

/-- The samples of a run: those of the other devices around the one of this. -/
theorem samples_collection {mac : ListedMac} (l : Listing mac) (counter : Flow) :
    (l.collection counter).devices.filterMap sampleOf =
      l.before.filterMap sampleOf ++ (l.sample counter).toList ++
        l.after.filterMap sampleOf := by
  unfold Listing.collection Listing.sample
  rw [List.filterMap_append, List.filterMap_append]
  congr 2
  cases l.device with
  | none => rfl
  | some d =>
      rw [Option.bind_some, Option.map_some, Option.toList_some, List.filterMap_cons]
      cases sampleOf (meteredDevice mac counter d) <;> rfl

theorem other_sample {mac : ListedMac} (l : Listing mac) {s : Sample}
    (h : s ∈ l.before.filterMap sampleOf ∨ s ∈ l.after.filterMap sampleOf) : s.mac ≠ mac.val := by
  rcases h with h | h
  · obtain ⟨d, hd, hs⟩ := List.mem_filterMap.mp h
    exact l.others d (List.mem_append_left _ hd) s hs
  · obtain ⟨d, hd, hs⟩ := List.mem_filterMap.mp h
    exact l.others d (List.mem_append_right _ hd) s hs

/-- The samples of this MAC in a run. -/
theorem filter_samples {mac : ListedMac} (l : Listing mac) (counter : Flow) :
    ((l.collection counter).devices.filterMap sampleOf).filter
        (fun s => decide (s.mac = mac.val)) = (l.sample counter).toList := by
  have hnone : ∀ ss : List Sample, (∀ s ∈ ss, s.mac ≠ mac.val) →
      ss.filter (fun s => decide (s.mac = mac.val)) = [] := by
    intro ss hss
    rw [List.filter_eq_nil_iff]
    intro s hs
    simpa using hss s hs
  rw [samples_collection, List.filter_append, List.filter_append,
    hnone _ (fun s hs => other_sample l (Or.inl hs)),
    hnone _ (fun s hs => other_sample l (Or.inr hs)), List.nil_append, List.append_nil,
    List.filter_eq_self]
  intro s hs
  have hsome := (sample_some (Option.mem_toList.mp hs)).1
  simpa using hsome

/-- The snapshot after a run: that of the sample, if there was one. -/
theorem captured_collect {mac : ListedMac} (db : TrafficDb) (l : Listing mac) (counter : Flow) :
    (collectTraffic db (l.collection counter)).captured (.mac mac.val) =
      if (l.sample counter).isSome then counter else db.captured (.mac mac.val) := by
  unfold collectTraffic
  split
  · -- an empty list
    rename_i hnil
    have hdev : l.device = none := by
      have hempty : l.before ++ (l.device.map (meteredDevice mac counter)).toList ++ l.after = [] :=
        hnil
      rw [List.append_eq_nil_iff, List.append_eq_nil_iff] at hempty
      cases hd : l.device with
      | none => rfl
      | some d =>
          rw [hd] at hempty
          exact absurd hempty.1.2 (by simp)
    have hsample : l.sample counter = none := by
      unfold Listing.sample
      rw [hdev]
      rfl
    rw [hsample]
    rfl
  · dsimp only [TrafficDb.captured]
    rw [samples_collection, List.foldl_append, List.foldl_append]
    rw [rowOf_foldl_upsert_other (fun s : Sample => CaptureKey.mac s.mac) _ _ _
      (fun s hs h => other_sample l (Or.inr hs) (CaptureKey.mac.inj h))]
    have hbefore := rowOf_foldl_upsert_other (fun s : Sample => CaptureKey.mac s.mac)
      (fun s => s.flow) (fun s _ => s.flow) (l.before.filterMap sampleOf)
      (fun s hs h => other_sample l (Or.inl hs) (CaptureKey.mac.inj h))
    cases hs : l.sample counter with
    | none =>
        rw [Option.toList_none, List.foldl_nil, hbefore, rowOf_upsert, if_neg (by simp)]
        rfl
    | some s =>
        obtain ⟨hmac, hflow⟩ := sample_some hs
        rw [Option.toList_some, List.foldl_cons, List.foldl_nil, rowOf_upsert,
          if_pos (by rw [hmac]), hflow]
        cases rowOf (CaptureKey.mac s.mac) _ <;> rfl

end OpenAppFilter.Traffic
