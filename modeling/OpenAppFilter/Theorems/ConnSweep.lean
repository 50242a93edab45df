import OpenAppFilter.Theorems.BypassTable

/-!
# The sweep over the bypass connection table

One call of `af_conn_clean_timeout` cleans the bucket it starts with and the five
behind it, and the next call starts with the last of these. From bucket 0 on the
calls start with the multiples of five up to 250 and then with 0 again, so 51
calls in a row start with all of them, whatever happens to the table in between
(`cleanCalls_lastBucket`).

A node that is idle at each of the calls goes when its bucket is cleaned, and
what happens to the table elsewhere does not bring it back (`Absent`).
-/

namespace OpenAppFilter.Theorems

open Base Kernel

/-! ## Cleaned buckets and idle nodes -/

/-- The buckets the loop of `af_conn_clean_timeout` cleans from bucket `i` on,
`count` buckets in. -/
def cleanScans (i count : Nat) : List (Fin afConnHashSize) :=
  if h : i < afConnHashSize then
    if count + 1 > maxAfConnCheckCount then [⟨i, h⟩] else ⟨i, h⟩ :: cleanScans (i + 1) (count + 1)
  else []
termination_by afConnHashSize - i

/-- The buckets a call cleans. -/
def scannedBuckets (s : ConnLists) : List (Fin afConnHashSize) := cleanScans s.lastBucket 0

def isCleanTimeout : ConnAct → Bool
  | .cleanTimeout => true
  | _ => false

section

variable (env : Env) (hash : ConnTuple → Fin afConnHashSize)

/-- The states in which a run calls `af_conn_clean_timeout`. -/
def cleanCalls (s : ConnLists) (acts : List ConnAct) : List ConnLists :=
  statesAt (connStep env hash) isCleanTimeout s acts

/-- `last_bucket` starts with 0 and changes with every call; the table does not
matter. -/
def ReachableCursor (b : Nat) : Prop :=
  ∃ s acts, s.lastBucket = 0 ∧ (run (connStep env hash) s acts).lastBucket = b

/-- At a call the stamp `w` lies beyond the timeout, and no act stamps a node of the
tuple. -/
structure IdleAct (t : ConnTuple) (w : Nat) (s : ConnLists) (a : ConnAct) : Prop where
  call : a = .cleanTimeout → timeAfter env (s.jiffies env) (w + afConnTimeout * env.hz) = true
  unstamped : ∀ fields, a ≠ .update t fields true

/-- On the way the tuple is looked up, not found, and added anew. -/
def AddedAnew (s : ConnLists) (acts : List ConnAct) (t : ConnTuple) : Prop :=
  ∃ pre alloc post, acts = pre ++ .findAndAdd t alloc :: post ∧
    connFind hash (run (connStep env hash) s pre) t = none ∧ alloc.conn = true

end

variable {env : Env} {hash : ConnTuple → Fin afConnHashSize}

/-! ## One call -/

/-- The loop is the fold of the buckets it cleans. -/
theorem cleanFrom_eq_foldl (s : ConnLists) (i count : Nat) :
    cleanFrom env s i count = (cleanScans i count).foldl (cleanBucket env) s := by
  induction s, i, count using cleanFrom.induct env with
  | case1 s i count hi hlast =>
      rw [cleanFrom, cleanScans, dif_pos hi, dif_pos hi, if_pos hlast, if_pos hlast]
      rfl
  | case2 s i count hi _ hmore ih =>
      rw [cleanFrom, cleanScans, dif_pos hi, dif_pos hi, if_neg hmore, if_neg hmore]
      exact ih
  | case3 s i count hi =>
      rw [cleanFrom, cleanScans, dif_neg hi, dif_neg hi]
      rfl

theorem mem_cleanScans {i count : Nat} (hcount : count ≤ maxAfConnCheckCount) {b : Fin afConnHashSize} :
    b ∈ cleanScans i count ↔ i ≤ b.val ∧ b.val ≤ i + (maxAfConnCheckCount - count) := by
  have hb := b.isLt
  induction i, count using cleanScans.induct with
  | case1 i count hi hlast =>
      rw [cleanScans, dif_pos hi, if_pos hlast, List.mem_singleton, Fin.ext_iff]
      show b.val = i ↔ _
      omega
  | case2 i count hi hmore ih =>
      have hrest : b ∈ cleanScans (i + 1) (count + 1) ↔
          i + 1 ≤ b.val ∧ b.val ≤ i + 1 + (maxAfConnCheckCount - (count + 1)) := ih (Nat.not_lt.mp hmore)
      rw [cleanScans, dif_pos hi, if_neg hmore, List.mem_cons, hrest, Fin.ext_iff]
      show b.val = i ∨ _ ↔ _
      omega
  | case3 i count hi =>
      rw [cleanScans, dif_neg hi]
      simp only [List.not_mem_nil, false_iff]
      omega

theorem mem_scannedBuckets {s : ConnLists} {b : Fin afConnHashSize} :
    b ∈ scannedBuckets s ↔ s.lastBucket ≤ b.val ∧ b.val ≤ s.lastBucket + maxAfConnCheckCount :=
  mem_cleanScans (Nat.zero_le _)

/-! ## Where the calls start -/

/-- The bucket a call starts with, counted in fives. -/
def CursorAt (a b : Nat) : Prop := a < 51 ∧ b = maxAfConnCheckCount * a

theorem CursorAt.lt {a b : Nat} (h : CursorAt a b) : b < afConnHashSize := by
  unfold CursorAt maxAfConnCheckCount at h
  unfold afConnHashSize
  omega

/-- Only a call moves the cursor, by five and from 250 to 0. -/
theorem CursorAt.step {s : ConnLists} {a : Nat} (h : CursorAt a s.lastBucket) (act : ConnAct) :
    CursorAt (if isCleanTimeout act then (a + 1) % 51 else a) (connStep env hash s act).lastBucket := by
  cases act with
  | findAndAdd t alloc =>
      show CursorAt a (connFindAndAdd env hash s t alloc).lastBucket
      unfold connFindAndAdd
      split
      · exact h
      · split
        · exact h
        · exact h
  | update t fields stamp => exact h
  | pass ticks => exact h
  | cleanTimeout =>
      show CursorAt ((a + 1) % 51) (connCleanTimeout env s).lastBucket
      rw [connCleanTimeout_lastBucket h.lt]
      unfold CursorAt maxAfConnCheckCount at h ⊢
      unfold afConnHashSize
      split
      · omega
      · omega

theorem cursorAt_of_reachable {b : Nat} (h : ReachableCursor env hash b) : ∃ a, CursorAt a b := by
  obtain ⟨s, acts, hstart, rfl⟩ := h
  have hstep : ∀ (s : ConnLists) act, (∃ a, CursorAt a s.lastBucket) → True →
      ∃ a, CursorAt a (connStep env hash s act).lastBucket :=
    fun _ act ⟨_, ha⟩ _ => ⟨_, ha.step act⟩
  exact run_invariant hstep ⟨0, by decide, hstart⟩ (fun _ _ _ _ => trivial)

/-- The calls start with the multiples of five in turn. -/
theorem cleanCalls_lastBucket {acts : List ConnAct} : ∀ {s c : ConnLists} {a j : Nat},
    CursorAt a s.lastBucket → (cleanCalls env hash s acts)[j]? = some c →
    CursorAt ((a + j) % 51) c.lastBucket := by
  induction acts with
  | nil =>
      intro s c a j _ hc
      exact absurd hc (Option.some_ne_none c).symm
  | cons act acts ih =>
      intro s c a j hs hc
      have hnext : CursorAt (if isCleanTimeout act then (a + 1) % 51 else a)
          (connStep env hash s act).lastBucket := hs.step act
      unfold cleanCalls statesAt at hc
      by_cases hcall : isCleanTimeout act = true
      · rw [if_pos hcall] at hc hnext
        cases j with
        | zero =>
            obtain rfl := Option.some.inj hc
            rwa [Nat.add_zero, Nat.mod_eq_of_lt hs.1]
        | succ j =>
            have hrest := ih hnext hc
            rwa [Nat.mod_add_mod, Nat.add_assoc, Nat.add_comm 1 j] at hrest
      · rw [if_neg hcall] at hc hnext
        exact ih hnext hc

/-- 51 calls start with every multiple of five. -/
theorem scanned_of_calls {s : ConnLists} {acts : List ConnAct} {a : Nat} (hs : CursorAt a s.lastBucket)
    (hcalls : 51 ≤ (cleanCalls env hash s acts).length) (b : Fin afConnHashSize) :
    ∃ c ∈ cleanCalls env hash s acts, b ∈ scannedBuckets c := by
  have ha := hs.1
  have hb := b.isLt
  -- the call whose window starts with the last multiple of five that is not behind `b`
  obtain ⟨m, hm, hlow, hhigh⟩ : ∃ m < 51, maxAfConnCheckCount * m ≤ b.val ∧
      b.val ≤ maxAfConnCheckCount * m + maxAfConnCheckCount := by
    unfold afConnHashSize at hb
    unfold maxAfConnCheckCount
    exact ⟨min (b.val / 5) 50, by omega, by omega, by omega⟩
  have hj : (m + 51 - a) % 51 < (cleanCalls env hash s acts).length :=
    Nat.lt_of_lt_of_le (Nat.mod_lt _ (by decide)) hcalls
  obtain ⟨-, hstart⟩ := cleanCalls_lastBucket hs (List.getElem?_eq_getElem hj)
  refine ⟨_, List.getElem_mem hj, mem_scannedBuckets.mpr ?_⟩
  have hturn : (a + (m + 51 - a) % 51) % 51 = m := by omega
  rw [hstart, hturn]
  exact ⟨hlow, hhigh⟩

/-! ## A bucket without the node -/

/-- No node of the tuple with the stamp is in the bucket. -/
def Absent (t : ConnTuple) (w : Nat) (s : ConnLists) (b : Fin afConnHashSize) : Prop :=
  ∀ n ∈ s.table b, ¬ (n.tuple = t ∧ n.conn.lastJiffies = w)

/-- An act that is idle for the node, and adds no other one. -/
def CalmAct (env : Env) (hash : ConnTuple → Fin afConnHashSize) (t : ConnTuple) (w : Nat) (s : ConnLists)
    (a : ConnAct) : Prop :=
  IdleAct env t w s a ∧
    ∀ alloc, a = .findAndAdd t alloc → alloc.conn = true → connFind hash s t ≠ none

section

variable {s : ConnLists} {t : ConnTuple} {w : Nat} {b : Fin afConnHashSize}

theorem Absent.update (h : Absent t w s b) {t' : ConnTuple} {fields : AfConn} {stamp : Bool}
    (hkeep : t' = t → stamp = false) : Absent t w (connUpdate env hash s t' fields stamp) b := by
  rintro n hn ⟨htup, hword⟩
  rcases mem_update_table.mp hn with ⟨rfl, hin⟩ | ⟨_, hin⟩
  · rcases mem_rewriteFirst hin with hin | ⟨n', hn', hn't, rfl⟩
    · exact h n hin ⟨htup, hword⟩
    · cases stamp with
      | true => exact absurd (hkeep (hn't.symm.trans htup)) (by decide)
      | false => exact h n' hn' ⟨htup, hword⟩
  · exact h n hin ⟨htup, hword⟩

theorem Absent.findAndAdd (h : Absent t w s b) {t' : ConnTuple} {alloc : Alloc}
    (hfound : t' = t → alloc.conn = true → connFind hash s t ≠ none) :
    Absent t w (connFindAndAdd env hash s t' alloc) b := by
  unfold connFindAndAdd
  cases hfind : connFind hash s t' with
  | some n => exact h
  | none =>
      dsimp only
      split
      · rename_i halloc
        rintro n hn ⟨htup, hword⟩
        rcases mem_update_table.mp hn with ⟨rfl, hin⟩ | ⟨_, hin⟩
        · rcases List.mem_cons.mp hin with rfl | hin
          · -- the new node is one of another tuple
            obtain rfl : t' = t := htup
            exact hfound rfl halloc hfind
          · exact h n hin ⟨htup, hword⟩
        · exact h n hin ⟨htup, hword⟩
      · exact h

theorem Absent.cleanTimeout (hs : s.lastBucket < afConnHashSize) (h : Absent t w s b) :
    Absent t w (connCleanTimeout env s) b := by
  intro n hn
  rw [connCleanTimeout_table hs] at hn
  split at hn
  · exact h n (List.mem_of_mem_filter hn)
  · exact h n hn

/-- A call takes the node out of the buckets it cleans. -/
theorem absent_of_scanned (hs : s.lastBucket < afConnHashSize)
    (hidle : timeAfter env (s.jiffies env) (w + afConnTimeout * env.hz) = true)
    (hscan : b ∈ scannedBuckets s) : Absent t w (connCleanTimeout env s) b := by
  rintro n hn ⟨-, hword⟩
  rw [connCleanTimeout_table hs, if_pos (mem_scannedBuckets.mp hscan)] at hn
  have hkept := (List.mem_filter.mp hn).2
  unfold ConnLists.expired at hkept
  rw [hword, hidle] at hkept
  exact absurd hkept (by decide)

theorem Absent.step (hs : s.lastBucket < afConnHashSize) {a : ConnAct} (hcalm : CalmAct env hash t w s a)
    (h : Absent t w s b) : Absent t w (connStep env hash s a) b := by
  cases a with
  | findAndAdd t' alloc => exact h.findAndAdd (fun heq => hcalm.2 alloc (by rw [heq]))
  | update t' fields stamp =>
      refine h.update (fun heq => ?_)
      cases stamp with
      | true => exact absurd (by rw [heq]) (hcalm.1.unstamped fields)
      | false => rfl
  | cleanTimeout => exact h.cleanTimeout hs
  | pass ticks => exact h

end

/-- Once its bucket has been cleaned, the node is not there any more. -/
theorem absent_after_scan {t : ConnTuple} {w : Nat} {b : Fin afConnHashSize} {acts : List ConnAct} :
    ∀ {s : ConnLists} {a : Nat}, CursorAt a s.lastBucket →
      EveryStep (connStep env hash) (CalmAct env hash t w) s acts →
      (Absent t w s b ∨ ∃ c ∈ cleanCalls env hash s acts, b ∈ scannedBuckets c) →
      Absent t w (run (connStep env hash) s acts) b := by
  induction acts with
  | nil =>
      intro s a _ _ h
      refine h.resolve_right ?_
      rintro ⟨c, hc, -⟩
      exact absurd hc List.not_mem_nil
  | cons act acts ih =>
      intro s a hs hcalm h
      obtain ⟨hact, hrest⟩ := everyStep_cons.mp hcalm
      refine ih (hs.step act) hrest ?_
      rcases h with h | ⟨c, hc, hscan⟩
      · exact .inl (h.step hs.lt hact)
      · unfold cleanCalls statesAt at hc
        split at hc
        · rename_i hcall
          rcases List.mem_cons.mp hc with rfl | hc
          · cases act with
            | cleanTimeout => exact .inl (absent_of_scanned hs.lt (hact.1.call rfl) hscan)
            | findAndAdd _ _ => exact absurd hcall Bool.false_ne_true
            | update _ _ _ => exact absurd hcall Bool.false_ne_true
            | pass _ => exact absurd hcall Bool.false_ne_true
          · exact .inr ⟨c, hc, hscan⟩
        · exact .inr ⟨c, hc, hscan⟩

/-! ## Main result -/

/-- **Idle bypass connections are reclaimed.** From any table, with any value the
cursor can reach, 51 calls of the cleaner clean all buckets, whatever else happens
between them. A node that no act stamps and whose stamp lies beyond the timeout at
each of the calls is in no bucket after them; what has its tuple and its stamp was
added anew on the way. -/
theorem idle_connections_reclaimed (env : Env) (hash : ConnTuple → Fin afConnHashSize) (s : ConnLists)
    (acts : List ConnAct) (hcursor : ReachableCursor env hash s.lastBucket)
    (hcalls : 51 ≤ (cleanCalls env hash s acts).length) :
    (∀ b, b ∈ (cleanCalls env hash s acts).flatMap scannedBuckets) ∧
      ∀ t w, EveryStep (connStep env hash) (IdleAct env t w) s acts →
        ∀ b, ∀ n ∈ (run (connStep env hash) s acts).table b,
          n.tuple = t → n.conn.lastJiffies = w → AddedAnew env hash s acts t := by
  obtain ⟨a, ha⟩ := cursorAt_of_reachable hcursor
  have hscan : ∀ b, ∃ c ∈ cleanCalls env hash s acts, b ∈ scannedBuckets c := scanned_of_calls ha hcalls
  refine ⟨fun b => List.mem_flatMap.mpr (hscan b), ?_⟩
  intro t w hidle b n hn htup hword
  by_contra hnew
  have hcalm : EveryStep (connStep env hash) (CalmAct env hash t w) s acts := by
    intro pre act post hacts
    refine ⟨hidle pre act post hacts, ?_⟩
    rintro alloc rfl halloc hfind
    exact hnew ⟨pre, alloc, post, hacts, hfind, halloc⟩
  exact absent_after_scan ha hcalm (.inr (hscan b)) n hn ⟨htup, hword⟩

/-- A connection stamped at the start of `jiffies`. -/
def oldConn : ConnNode := ⟨⟨1, 2, 50000, 443, 6⟩, { ignore := false, lastJiffies := 0 }, 0⟩

/-- A minute after it. -/
def oldConnTable : ConnLists where
  table := Function.update (fun _ => []) ⟨0, afConnHashSize_pos⟩ [oldConn]
  ticks := 6000

theorem idle_connection_reclaimed_in_a_minute :
    (∀ b, b ∈ (cleanCalls oneBucketEnv oneBucket oldConnTable
        (List.replicate 51 .cleanTimeout)).flatMap scannedBuckets) ∧
      ∀ b, ∀ n ∈ (run (connStep oneBucketEnv oneBucket) oldConnTable (List.replicate 51 .cleanTimeout)).table b,
        ¬ (n.tuple = oldConn.tuple ∧ n.conn.lastJiffies = 0) := by
  have hcalls : 51 ≤ (cleanCalls oneBucketEnv oneBucket oldConnTable (List.replicate 51 .cleanTimeout)).length := by
    unfold cleanCalls
    rw [statesAt_length, List.countP_replicate]
    decide
  have hclean : EveryStep (connStep oneBucketEnv oneBucket) (fun _ a => a = .cleanTimeout) oldConnTable
      (List.replicate 51 .cleanTimeout) := by
    intro pre act post hacts
    exact List.eq_of_mem_replicate (hacts ▸ List.mem_append_right pre List.mem_cons_self)
  have hidle : EveryStep (connStep oneBucketEnv oneBucket) (IdleAct oneBucketEnv oldConn.tuple 0) oldConnTable
      (List.replicate 51 .cleanTimeout) := by
    refine EveryStep.of_invariant (I := fun s => (∃ a, CursorAt a s.lastBucket) ∧ s.ticks = 6000) ?_ ?_
      ⟨⟨0, by decide, rfl⟩, rfl⟩ hclean
    · rintro s act ⟨⟨a, ha⟩, hticks⟩ rfl
      exact ⟨⟨_, ha.step .cleanTimeout⟩, (connCleanTimeout_ticks ha.lt).trans hticks⟩
    · rintro s act ⟨-, hticks⟩ rfl
      refine ⟨fun _ => ?_, fun fields h => nomatch h⟩
      unfold ConnLists.jiffies
      rw [hticks]
      decide
  obtain ⟨hscanned, hreclaimed⟩ := idle_connections_reclaimed oneBucketEnv oneBucket oldConnTable
    (List.replicate 51 .cleanTimeout) ⟨oldConnTable, [], rfl, rfl⟩ hcalls
  refine ⟨hscanned, ?_⟩
  rintro b n hn ⟨htup, hword⟩
  obtain ⟨pre, alloc, post, hacts, -⟩ := hreclaimed oldConn.tuple 0 hidle b n hn htup hword
  exact nomatch (List.eq_of_mem_replicate (hacts ▸ List.mem_append_right pre List.mem_cons_self) :
    ConnAct.findAndAdd oldConn.tuple alloc = .cleanTimeout)

end OpenAppFilter.Theorems
