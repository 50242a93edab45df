import Mathlib.Data.Fintype.EquivFin
import OpenAppFilter.Traffic.Lock

/-!
# One collector at a time

The lock keeps the pid of the `cat` child, which has exited before the lock is
written, and the test of the lock and its write are separate steps. So the lock
of a running collector is found stale, or not found at all.

The runs in which neither happens are given by `EntryClear`. In these the
collectors exclude each other, and the database is what the booked collections
make of it one after the other. Whenever a step fails `EntryClear`, the two
invocations involved can go on to hold the lock together.
-/

namespace OpenAppFilter.Theorems

open Base Traffic

/-! ## What is shown -/

/-- No two invocations are both between writing the lock and releasing it. -/
def OneInside (s : Collectors) : Prop :=
  ∀ i j, (s.pc i).inside = true → (s.pc j).inside = true → i = j

/-- Every booked collection was added to what the bookings before it left, against
the snapshot these left. -/
def BookedOnce (db : TrafficDb) (s : Collectors) : Prop :=
  s.db = s.booked.foldl collectTraffic db

/-- The lock is not found missing by invocation `i` while another invocation is about to write it, and
not found stale while another is about to write it or holds it. -/
def ClearAt (s : Collectors) (i : Nat) : Prop :=
  match s.pc i with
  | .check | .read => s.lock = none → ∀ j, j ≠ i → (s.pc j).taking = false
  | .probe lockPid => (∃ j, j ≠ i ∧ (s.pc j).busy = true) → lockPid ∈ s.procs
  | _ => True

def EntryClear (s : Collectors) : LockAct → Prop
  | .step i _ => ClearAt s i
  | _ => True

/-! ## Exclusion -/

structure Exclusive (db : TrafficDb) (s : Collectors) : Prop where
  one : ∀ i j, (s.pc i).busy = true → (s.pc j).busy = true → i = j
  locked : ∀ i, (s.pc i).inside = true → s.lock ≠ none
  current : ∀ i old c, s.pc i = .update old c → c.devices ≠ [] ∧ old = s.db.lastCapture
  serial : BookedOnce db s

theorem busy_of_inside {p : Pc} (h : p.inside = true) : p.busy = true := by
  simp [Pc.busy, h]

theorem Exclusive.alone {db : TrafficDb} {s : Collectors} (h : Exclusive db s) {i : Nat}
    (hi : (s.pc i).busy = true) : ∀ j, j ≠ i → (s.pc j).busy = false := by
  intro j hj
  by_contra hbusy
  exact hj (h.one j i (by simpa using hbusy) hi)

/-- An invocation moves on: it was busy before, or no other is. -/
theorem Exclusive.goto {db : TrafficDb} {s : Collectors} (h : Exclusive db s) {i : Nat} {p : Pc}
    (halone : p.busy = true → ∀ j, j ≠ i → (s.pc j).busy = false)
    (hlocked : p.inside = true → s.lock ≠ none)
    (hcurrent : ∀ old c, p = .update old c → c.devices ≠ [] ∧ old = s.db.lastCapture) :
    Exclusive db (s.goto i p) := by
  constructor
  case one =>
    intro j k hj hk
    by_cases hji : j = i <;> by_cases hki : k = i
    · rw [hji, hki]
    · subst hji
      rw [Collectors.goto_pc_self] at hj
      rw [Collectors.goto_pc_other s p hki, halone hj k hki] at hk
      exact absurd hk (by decide)
    · subst hki
      rw [Collectors.goto_pc_self] at hk
      rw [Collectors.goto_pc_other s p hji, halone hk j hji] at hj
      exact absurd hj (by decide)
    · rw [Collectors.goto_pc_other s p hji] at hj
      rw [Collectors.goto_pc_other s p hki] at hk
      exact h.one j k hj hk
  case locked =>
    intro j hj
    by_cases hji : j = i
    · subst hji
      rw [Collectors.goto_pc_self] at hj
      exact hlocked hj
    · rw [Collectors.goto_pc_other s p hji] at hj
      exact h.locked j hj
  case current =>
    intro j old c hj
    by_cases hji : j = i
    · subst hji
      rw [Collectors.goto_pc_self] at hj
      exact hcurrent old c hj
    · rw [Collectors.goto_pc_other s p hji] at hj
      exact h.current j old c hj
  case serial => exact h.serial

theorem Exclusive.leave {db : TrafficDb} {s : Collectors} (h : Exclusive db s) (i : Nat) {p : Pc}
    (hp : p.busy = false) : Exclusive db (s.goto i p) := by
  have hout : p.inside = false := by
    by_contra hin
    exact absurd (busy_of_inside (Bool.of_not_eq_false hin)) (by simp [hp])
  refine h.goto (fun hbusy => ?_) (fun hin => ?_) (fun old c heq => ?_)
  · exact absurd hbusy (by simp [hp])
  · exact absurd hin (by simp [hout])
  · exact absurd hout (by simp [heq, Pc.inside])

/-- An invocation with no other beside it finds the lock free, or goes on towards
writing it. -/
theorem Exclusive.take {db : TrafficDb} {s : Collectors} (h : Exclusive db s) {i : Nat} {p : Pc}
    (hp : p.inside = false) (halone : ∀ j, j ≠ i → (s.pc j).busy = false) :
    Exclusive db (s.goto i p) := by
  refine h.goto (fun _ => halone) (fun hin => ?_) (fun old c heq => ?_)
  · exact absurd hin (by simp [hp])
  · exact absurd hp (by simp [heq, Pc.inside])

theorem Exclusive.lock {db : TrafficDb} {s : Collectors} (h : Exclusive db s) (pid : Nat) :
    Exclusive db { s with lock := some pid } :=
  ⟨h.one, fun _ _ => Option.some_ne_none pid, h.current, h.serial⟩

theorem Exclusive.unlock {db : TrafficDb} {s : Collectors} (h : Exclusive db s)
    (hout : ∀ i, (s.pc i).inside = false) : Exclusive db { s with lock := none } := by
  refine ⟨h.one, ?_, h.current, h.serial⟩
  intro i hi
  exact absurd hi (by rw [hout i]; decide)

/-- The busy invocation moves to a step outside the critical section: nobody is
inside. -/
theorem Exclusive.none_inside {db : TrafficDb} {s : Collectors} (h : Exclusive db s) {i : Nat}
    (hi : (s.pc i).busy = true) {p : Pc} (hp : p.inside = false) (j : Nat) :
    ((s.goto i p).pc j).inside = false := by
  by_cases hji : j = i
  · rw [hji, Collectors.goto_pc_self]
    exact hp
  · rw [Collectors.goto_pc_other s p hji]
    by_contra hin
    have hbusy := busy_of_inside (Bool.of_not_eq_false hin)
    rw [h.alone hi j hji] at hbusy
    exact absurd hbusy (by decide)

/-- The one invocation in the critical section books its collection. -/
theorem Exclusive.book {db : TrafficDb} {s : Collectors} (h : Exclusive db s) {i : Nat}
    {old : List (CaptureKey × Flow)} {c : Collection} (hpc : s.pc i = .update old c) :
    Exclusive db
      { s.goto i .release with db := collectWith old s.db c, booked := s.booked ++ [c] } := by
  have hbusy : (s.pc i).busy = true := by rw [hpc]; rfl
  have hmoved : Exclusive db (s.goto i .release) :=
    h.goto (fun _ => h.alone hbusy) (fun _ => h.locked i (by rw [hpc]; rfl))
      (fun _ _ heq => nomatch heq)
  refine ⟨hmoved.one, hmoved.locked, ?_, ?_⟩
  · intro j old' c' hj
    by_cases hji : j = i
    · subst hji
      exact absurd ((Collectors.goto_pc_self s j .release).symm.trans hj) (fun heq => nomatch heq)
    · have hj' : s.pc j = .update old' c' := (Collectors.goto_pc_other s _ hji).symm.trans hj
      have hidle := h.alone hbusy j hji
      rw [hj'] at hidle
      exact nomatch hidle
  · obtain ⟨hdevices, rfl⟩ := h.current i old c hpc
    show collectWith s.db.lastCapture s.db c = (s.booked ++ [c]).foldl collectTraffic db
    rw [List.foldl_append, ← h.serial, ← collectTraffic_eq_collectWith hdevices]
    rfl

/-- A missing lock means that nobody is inside. -/
theorem Exclusive.alone_of_missing {db : TrafficDb} {s : Collectors} (h : Exclusive db s) {i : Nat}
    (hlock : s.lock = none) (hclear : ∀ j, j ≠ i → (s.pc j).taking = false) :
    ∀ j, j ≠ i → (s.pc j).busy = false := by
  intro j hj
  have hin : (s.pc j).inside = false := by
    by_contra hin
    exact h.locked j (Bool.of_not_eq_false hin) hlock
  simp [Pc.busy, hclear j hj, hin]

/-- A step of an invocation that meets `ClearAt` keeps the exclusion. -/
theorem Exclusive.step {db : TrafficDb} {s : Collectors} (h : Exclusive db s) {i : Nat}
    {o : Outside} (hclear : ClearAt s i) : Exclusive db (collectorStep s i o) := by
  unfold collectorStep
  unfold ClearAt at hclear
  cases hpc : s.pc i with
  | check =>
      rw [hpc] at hclear
      cases hlock : s.lock with
      | some pid => exact h.leave i rfl
      | none => exact h.take rfl (h.alone_of_missing hlock (hclear hlock))
  | read =>
      rw [hpc] at hclear
      cases hlock : s.lock with
      | some pid => exact h.leave i rfl
      | none => exact h.take rfl (h.alone_of_missing hlock (hclear hlock))
  | probe lockPid =>
      rw [hpc] at hclear
      show Exclusive db (if lockPid ∈ s.procs then s.goto i .returned else s.goto i .remove)
      split
      · exact h.leave i rfl
      · rename_i hdead
        refine h.take rfl (fun j hj => ?_)
        by_contra hbusy
        exact hdead (hclear ⟨j, hj, Bool.of_not_eq_false hbusy⟩)
  | remove =>
      have hbusy : (s.pc i).busy = true := by rw [hpc]; rfl
      exact (h.take (p := .lookup) rfl (h.alone hbusy)).unlock (h.none_inside hbusy rfl)
  | lookup =>
      have hbusy : (s.pc i).busy = true := by rw [hpc]; rfl
      show Exclusive db (if o.childPid ∈ s.procs then s else s.goto i (.write o.childPid))
      split
      · exact h
      · exact h.take rfl (h.alone hbusy)
  | write pid =>
      have hbusy : (s.pc i).busy = true := by rw [hpc]; rfl
      exact (h.lock pid).goto (p := .snapshot) (fun _ => h.alone hbusy)
        (fun _ => Option.some_ne_none pid) (fun _ _ heq => nomatch heq)
  | snapshot =>
      have hbusy : (s.pc i).busy = true := by rw [hpc]; rfl
      have hlocked : s.lock ≠ none := h.locked i (by rw [hpc]; rfl)
      show Exclusive db (if o.collection.devices = [] then s.goto i .release
        else s.goto i (.update s.db.lastCapture o.collection))
      split
      · exact h.goto (fun _ => h.alone hbusy) (fun _ => hlocked) (fun _ _ heq => nomatch heq)
      · rename_i hdevices
        refine h.goto (fun _ => h.alone hbusy) (fun _ => hlocked) (fun old c heq => ?_)
        obtain ⟨rfl, rfl⟩ := Pc.update.inj heq
        exact ⟨hdevices, rfl⟩
  | update old c => exact h.book hpc
  | release =>
      have hbusy : (s.pc i).busy = true := by rw [hpc]; rfl
      exact (h.leave i (p := .returned) rfl).unlock (h.none_inside hbusy rfl)
  | returned => exact h

theorem Exclusive.lockStep {db : TrafficDb} {s : Collectors} (h : Exclusive db s) {a : LockAct}
    (hclear : EntryClear s a) : Exclusive db (lockStep s a) := by
  cases a with
  | step i o => exact h.step hclear
  | kill i => exact h.leave i rfl
  | spawn pid =>
      show Exclusive db (if pid = 0 then s else { s with procs := pid :: s.procs })
      split
      · exact h
      · exact ⟨h.one, h.locked, h.current, h.serial⟩
  | exit pid => exact ⟨h.one, h.locked, h.current, h.serial⟩

/-! ## Both inside -/

theorem lockStep_step (s : Collectors) (i : Nat) (o : Outside) :
    lockStep s (.step i o) = collectorStep s i o := rfl

/-- Some pid is not in `/proc`. -/
theorem exists_free_pid (s : Collectors) : ∃ pid, pid ∉ s.procs := by
  obtain ⟨pid, hpid⟩ := Infinite.exists_notMem_finset s.procs.toFinset
  exact ⟨pid, fun hmem => hpid (List.mem_toFinset.mpr hmem)⟩

/-- An invocation that has found the lock free gets into the critical section by its
own steps. -/
theorem enters_of_write {s : Collectors} {i pid : Nat} (h : s.pc i = .write pid) (o : Outside) :
    ∃ acts, ((run lockStep s acts).pc i).inside = true ∧
      ∀ j, j ≠ i → (run lockStep s acts).pc j = s.pc j := by
  refine ⟨[.step i o], ?_⟩
  simp only [run_cons, run_nil, lockStep_step, collectorStep, h]
  constructor
  · exact congrArg Pc.inside (Collectors.goto_pc_self s i .snapshot)
  · exact fun j hj => Collectors.goto_pc_other s .snapshot hj

theorem enters_of_lookup {s : Collectors} {i : Nat} (h : s.pc i = .lookup) (o : Outside) :
    ∃ acts, ((run lockStep s acts).pc i).inside = true ∧
      ∀ j, j ≠ i → (run lockStep s acts).pc j = s.pc j := by
  obtain ⟨pid, hpid⟩ := exists_free_pid s
  obtain ⟨acts, hin, hothers⟩ := enters_of_write (Collectors.goto_pc_self s i (.write pid)) o
  have hstep : collectorStep s i { o with childPid := pid } = s.goto i (.write pid) := by
    simp only [collectorStep, h]
    rw [if_neg hpid]
  refine ⟨.step i { o with childPid := pid } :: acts, ?_⟩
  rw [run_cons, lockStep_step, hstep]
  refine ⟨hin, fun j hj => ?_⟩
  rw [hothers j hj, Collectors.goto_pc_other s _ hj]

theorem enters_of_busy {s : Collectors} {i : Nat} (h : (s.pc i).busy = true) (o : Outside) :
    ∃ acts, ((run lockStep s acts).pc i).inside = true ∧
      ∀ j, j ≠ i → (run lockStep s acts).pc j = s.pc j := by
  cases hpc : s.pc i with
  | remove =>
      obtain ⟨acts, hin, hothers⟩ := enters_of_lookup (Collectors.goto_pc_self { s with lock := none } i .lookup) o
      have hstep : collectorStep s i o = ({ s with lock := none } : Collectors).goto i .lookup := by
        simp only [collectorStep, hpc]
        rfl
      refine ⟨.step i o :: acts, ?_⟩
      rw [run_cons, lockStep_step, hstep]
      refine ⟨hin, fun j hj => ?_⟩
      rw [hothers j hj, Collectors.goto_pc_other _ _ hj]
  | lookup => exact enters_of_lookup hpc o
  | write pid => exact enters_of_write hpc o
  | snapshot => exact ⟨[], by rw [run_nil, hpc]; rfl, fun _ _ => rfl⟩
  | update old c => exact ⟨[], by rw [run_nil, hpc]; rfl, fun _ _ => rfl⟩
  | release => exact ⟨[], by rw [run_nil, hpc]; rfl, fun _ _ => rfl⟩
  | check | read | probe lockPid | returned =>
      rw [hpc] at h
      exact nomatch h

/-- Two invocations that have both found the lock free can both get into the
critical section. -/
theorem both_enter {s : Collectors} {i j : Nat} (hij : j ≠ i) (hi : (s.pc i).busy = true)
    (hj : (s.pc j).busy = true) (o : Outside) : ∃ acts, ¬ OneInside (run lockStep s acts) := by
  obtain ⟨first, hin, hothers⟩ := enters_of_busy hi o
  obtain ⟨second, hin', hothers'⟩ := enters_of_busy (i := j) (by rw [hothers j hij]; exact hj) o
  refine ⟨first ++ second, fun hone => hij ?_⟩
  rw [run_append] at hone
  refine hone j i hin' ?_
  rw [hothers' i hij.symm]
  exact hin

/-- An invocation that fails `ClearAt` finds the lock free beside a busy one. -/
theorem busy_of_not_clear {s : Collectors} {i : Nat} (h : ¬ ClearAt s i) (o : Outside) :
    ∃ j, j ≠ i ∧ ((collectorStep s i o).pc i).busy = true ∧
      ((collectorStep s i o).pc j).busy = true := by
  have taken : ∀ j, j ≠ i → (s.pc j).busy = true → ∀ p : Pc, p.busy = true →
      collectorStep s i o = s.goto i p →
      ∃ j, j ≠ i ∧ ((collectorStep s i o).pc i).busy = true ∧
        ((collectorStep s i o).pc j).busy = true := by
    intro j hj hbusy p hp hstep
    refine ⟨j, hj, ?_, ?_⟩
    · rw [hstep, Collectors.goto_pc_self]
      exact hp
    · rw [hstep, Collectors.goto_pc_other s p hj]
      exact hbusy
  unfold ClearAt at h
  cases hpc : s.pc i with
  | check =>
      simp only [hpc] at h
      push Not at h
      obtain ⟨hlock, j, hj, htaking⟩ := h
      refine taken j hj (by simp [Pc.busy, htaking]) .lookup rfl ?_
      simp only [collectorStep, hpc, hlock]
  | read =>
      simp only [hpc] at h
      push Not at h
      obtain ⟨hlock, j, hj, htaking⟩ := h
      refine taken j hj (by simp [Pc.busy, htaking]) .lookup rfl ?_
      simp only [collectorStep, hpc, hlock]
  | probe lockPid =>
      simp only [hpc] at h
      push Not at h
      obtain ⟨⟨j, hj, hbusy⟩, hdead⟩ := h
      refine taken j hj hbusy .remove rfl ?_
      simp only [collectorStep, hpc]
      rw [if_neg hdead]
  | _ =>
      simp only [hpc] at h
      exact absurd trivial h

/-! ## Main result -/

/-- Every lock a killed collector or an earlier run may have left. -/
def atCheck (db : TrafficDb) (lock : Option Nat) (procs : List Nat) : Collectors :=
  { lock := lock, procs := procs, db := db }

theorem exclusive_atCheck (db : TrafficDb) (lock : Option Nat) (procs : List Nat) :
    Exclusive db (atCheck db lock procs) := by
  refine ⟨fun _ _ hi => ?_, fun _ hi => ?_, fun _ _ _ heq => ?_, rfl⟩
  · exact nomatch hi
  · exact nomatch hi
  · exact nomatch heq

/-- As long as no invocation finds the lock free beside one that takes it or holds
it, the collectors exclude each other and every increment is booked once. A step
that does find it free there can be followed by two collectors inside. -/
theorem collectors_exclude_iff_clear (db : TrafficDb) (lock : Option Nat) (procs : List Nat) :
    (∀ acts, EveryStep lockStep EntryClear (atCheck db lock procs) acts →
      OneInside (run lockStep (atCheck db lock procs) acts) ∧
        BookedOnce db (run lockStep (atCheck db lock procs) acts)) ∧
    ∀ acts i o, ¬ ClearAt (run lockStep (atCheck db lock procs) acts) i →
      ∃ more, ¬ OneInside (run lockStep (atCheck db lock procs) (acts ++ .step i o :: more)) := by
  constructor
  · intro acts hclear
    have hex := run_invariant (I := Exclusive db) (fun _ _ h hC => h.lockStep hC)
      (exclusive_atCheck db lock procs) hclear
    exact ⟨fun i j hi hj => hex.one i j (busy_of_inside hi) (busy_of_inside hj), hex.serial⟩
  · intro acts i o hnot
    obtain ⟨j, hj, hbusy, hbusy'⟩ := busy_of_not_clear hnot o
    obtain ⟨more, hmore⟩ := both_enter hj hbusy hbusy' o
    refine ⟨more, ?_⟩
    rw [run_append, run_cons]
    exact hmore

/-! ## A reload during a collection -/

/-- 100 bytes each way on the counters. -/
def reloadCollection : Collection where
  today := "2025-02-27".toList
  month := "2025-02".toList
  year := "2025".toList
  time := "10:00".toList
  devices :=
    [{ ip := "192.168.1.2".toList, mac := "02:00:00:00:00:11".toList, todayFlow := ⟨100, 100⟩,
       online := 1 }]

def stepOf (i childPid : Nat) : LockAct := .step i ⟨childPid, reloadCollection⟩

/-- The collector of the old service writes the lock. -/
def oldEnters : List LockAct := List.replicate 3 (stepOf 0 100)

/-- It goes on, and the collector of the new service starts beside it. -/
def newEnters : List LockAct := oldEnters ++ stepOf 0 100 :: List.replicate 7 (stepOf 1 101)

/-- Both update the database. -/
def bothBook : List LockAct := newEnters ++ [stepOf 0 100, stepOf 1 101]

/-- Another process has got pid 100 in between, so the new collector leaves. -/
def pidReused : List LockAct := oldEnters ++ .spawn 100 :: List.replicate 3 (stepOf 1 101)

theorem pidReused_clear : EveryStep lockStep EntryClear (atCheck {} none []) pidReused := by
  unfold pidReused oldEnters
  simp only [List.replicate, List.cons_append, List.nil_append, everyStep_cons]
  refine ⟨fun _ j _ => rfl, trivial, trivial, trivial, ?_, ?_, ?_, everyStep_nil _⟩
  · intro hlock
    exact nomatch hlock
  · intro hlock
    exact nomatch hlock
  · intro _
    decide

theorem collectors_exclude_pid_reused :
    OneInside (run lockStep (atCheck {} none []) pidReused) ∧
      BookedOnce {} (run lockStep (atCheck {} none []) pidReused) :=
  (collectors_exclude_iff_clear {} none []).1 pidReused pidReused_clear

/-- The `cat` child with pid 100 is gone: the new collector removes the lock and
writes its own, and both add the same 100 bytes. -/
theorem dead_child_lock_shared :
    ¬ OneInside (run lockStep {} newEnters) ∧
      (run lockStep {} bothBook).booked = [reloadCollection, reloadCollection] ∧
      rowOf reloadCollection.today (run lockStep {} bothBook).db.daily = some ⟨200, 200⟩ ∧
      ¬ BookedOnce {} (run lockStep {} bothBook) := by
  have hrow : rowOf reloadCollection.today (run lockStep {} bothBook).db.daily = some ⟨200, 200⟩ := by
    decide +kernel
  have hbooked : (run lockStep {} bothBook).booked = [reloadCollection, reloadCollection] := rfl
  refine ⟨?_, hbooked, hrow, ?_⟩
  · intro hone
    exact absurd (hone 0 1 (by decide +kernel) (by decide +kernel)) (by decide)
  · intro hserial
    unfold BookedOnce at hserial
    rw [hserial, hbooked] at hrow
    exact absurd hrow (by decide +kernel)

end OpenAppFilter.Theorems
