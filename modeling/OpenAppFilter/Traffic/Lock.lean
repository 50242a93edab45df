import Mathlib.Logic.Function.Basic
import OpenAppFilter.Base.Run
import OpenAppFilter.Traffic.Collect

/-!
# The collector's lock (`traffic.uc`)

`collect_traffic` from its first look at `/tmp/oaf/traffic.lock` to
`release_lock`, in the steps at which invocations can interleave. Each system
call on the lock file, each read of the database and its one transaction is a
step. The processes of the router come and go between the steps; what the lock
sees of them is which pids are in `/proc`.

A `try` body that throws goes to `release_lock` as an empty device list does.
-/

namespace OpenAppFilter.Traffic

open Base

/-- The next step of an invocation. -/
inductive Pc where
  /-- `stat(lock_file)` -/
  | check
  /-- `open(lock_file, 'r')` and the read -/
  | read
  /-- `stat('/proc/' + lock_pid)` -/
  | probe (lockPid : Nat)
  /-- the stale lock: `rm -f` -/
  | remove
  /-- `popen("cat /proc/self/stat ...")`, read to the end and closed -/
  | lookup
  /-- `open(lock_file, 'w')` and the write -/
  | write (pid : Nat)
  /-- steps 1 to 3 -/
  | snapshot
  /-- steps 4 to 6, with the snapshot and the devices as they were read -/
  | update (old : List (CaptureKey × Flow)) (c : Collection)
  /-- `release_lock()` -/
  | release
  | returned

/-- The lock was found free, and is not written yet. -/
def Pc.taking : Pc → Bool
  | .remove | .lookup | .write _ => true
  | _ => false

/-- Between writing the lock and releasing it. -/
def Pc.inside : Pc → Bool
  | .snapshot | .update _ _ | .release => true
  | _ => false

/-- The lock is this invocation's to write or to release. -/
def Pc.busy (p : Pc) : Bool := p.taking || p.inside

/-- The pid in the lock file, the pids in `/proc`, the database and the
invocations. `booked` lists the collections in the order of their updates. -/
structure Collectors where
  lock : Option Nat := none
  procs : List Nat := []
  db : TrafficDb := {}
  pc : Nat → Pc := fun _ => .check
  booked : List Collection := []

namespace Collectors

def goto (s : Collectors) (i : Nat) (p : Pc) : Collectors :=
  { s with pc := Function.update s.pc i p }

@[simp] theorem goto_pc_self (s : Collectors) (i : Nat) (p : Pc) : (s.goto i p).pc i = p := by
  simp [goto]

theorem goto_pc_other (s : Collectors) {i j : Nat} (p : Pc) (h : j ≠ i) :
    (s.goto i p).pc j = s.pc j := by
  simp [goto, h]

@[simp] theorem goto_lock (s : Collectors) (i : Nat) (p : Pc) : (s.goto i p).lock = s.lock := rfl

@[simp] theorem goto_procs (s : Collectors) (i : Nat) (p : Pc) : (s.goto i p).procs = s.procs := rfl

@[simp] theorem goto_db (s : Collectors) (i : Nat) (p : Pc) : (s.goto i p).db = s.db := rfl

@[simp] theorem goto_booked (s : Collectors) (i : Nat) (p : Pc) :
    (s.goto i p).booked = s.booked := rfl

end Collectors

/-! ## Steps -/

/-- What a step reads from outside: the pid of the `cat` child, and what
`get_all_users` and the clock say. -/
structure Outside where
  childPid : Nat
  collection : Collection

/-- Steps 4 to 6: the increments come from the snapshot `old`, the statements run
on the database as it is now. -/
def collectWith (old : List (CaptureKey × Flow)) (db : TrafficDb) (c : Collection) : TrafficDb :=
  let samples := c.devices.filterMap sampleOf
  let total := Flow.sum (samples.map (·.flow))
  let snapshot : TrafficDb := { lastCapture := old }
  let delta := total.delta (snapshot.captured .global)
  { lastCapture := samples.foldl (fun rows s => upsert (.mac s.mac) s.flow (fun _ => s.flow) rows)
      (upsert .global total (fun _ => total) db.lastCapture)
    daily := upsert c.today delta (·.add delta) db.daily
    monthly := upsert c.month delta (·.add delta) db.monthly
    yearly := upsert c.year delta (·.add delta) db.yearly
    minute := upsert (c.today, c.time) delta (·.add delta) db.minute
    ipDaily := samples.foldl (addDeviceRow snapshot c.today) db.ipDaily }

/-- A run by itself updates the database it has read. -/
theorem collectTraffic_eq_collectWith {c : Collection} (h : c.devices ≠ []) (db : TrafficDb) :
    collectTraffic db c = collectWith db.lastCapture db c := by
  unfold collectTraffic
  rw [if_neg h]
  rfl

/-- The next step of one invocation. The child of `lookup` is a process of its
own, which has exited when the read ends; a lock that holds no pid is kept as 0,
and `/proc/0` never exists. -/
def collectorStep (s : Collectors) (i : Nat) (o : Outside) : Collectors :=
  match s.pc i with
  | .check =>
      match s.lock with
      | some _ => s.goto i .read
      | none => s.goto i .lookup
  | .read =>
      match s.lock with
      | some lockPid => s.goto i (.probe lockPid)
      | none => s.goto i .lookup
  | .probe lockPid => if lockPid ∈ s.procs then s.goto i .returned else s.goto i .remove
  | .remove => { s.goto i .lookup with lock := none }
  | .lookup => if o.childPid ∈ s.procs then s else s.goto i (.write o.childPid)
  | .write pid => { s.goto i .snapshot with lock := some pid }
  | .snapshot =>
      if o.collection.devices = [] then s.goto i .release
      else s.goto i (.update s.db.lastCapture o.collection)
  | .update old c =>
      { s.goto i .release with db := collectWith old s.db c, booked := s.booked ++ [c] }
  | .release => { s.goto i .returned with lock := none }
  | .returned => s

/-- An invocation takes its next step or is killed; a process starts or exits. -/
inductive LockAct where
  | step (i : Nat) (o : Outside)
  | kill (i : Nat)
  | spawn (pid : Nat)
  | exit (pid : Nat)

def lockStep (s : Collectors) : LockAct → Collectors
  | .step i o => collectorStep s i o
  | .kill i => s.goto i .returned
  | .spawn pid => if pid = 0 then s else { s with procs := pid :: s.procs }
  | .exit pid => { s with procs := s.procs.filter (fun p => p ≠ pid) }

end OpenAppFilter.Traffic
