import OpenAppFilter.Kernel.ConnTable

/-!
# The bypass connection table

The lists of the table carry one invariant through every lookup with insertion,
every update by the handler and every round of the cleaner: each node is in the
list of its hash, no tuple is in a list twice, and the tuples in the lists are
those whose last entry in the log is an addition (`ConnKept`). A node carries the
word its last stamp left in `jiffies`, so the comparison of `time_after` is about
the true idle time (`idle_of_timeAfter`).

The table of `Conn` is this one with its invariant as a field (`Holds`).
-/

namespace OpenAppFilter.Theorems

open Base Kernel

/-! ## What is shown -/

/-- The tuple was added and not removed since. -/
def addedSince (t : ConnTuple) (log : List ConnLog) : Bool :=
  log.foldl (fun there e =>
    match e with
    | .added t' => there || decide (t' = t)
    | .removed t' _ => there && decide (t' ≠ t)) false

/-- Every node that was removed had been idle for more than `timeout` ticks. -/
def RemovedIdle (timeout : Nat) (log : List ConnLog) : Prop :=
  ∀ t idle, .removed t idle ∈ log → timeout < idle

variable {env : Env} {hash : ConnTuple → Fin afConnHashSize}

/-! ## Lists of nodes -/

theorem addedSince_added (t t' : ConnTuple) (log : List ConnLog) :
    addedSince t (log ++ [.added t']) = (addedSince t log || decide (t' = t)) := by
  simp [addedSince]

/-- Removals take away the tuples of the nodes they are about. -/
theorem addedSince_removed (t : ConnTuple) (idle : ConnNode → Nat) (gone : List ConnNode) :
    ∀ log, addedSince t (log ++ gone.map (fun n => .removed n.tuple (idle n))) = true ↔
      addedSince t log = true ∧ ∀ n ∈ gone, n.tuple ≠ t := by
  induction gone with
  | nil =>
      intro log
      simp
  | cons n gone ih =>
      intro log
      have hsplit : log ++ (n :: gone).map (fun n => ConnLog.removed n.tuple (idle n)) =
          (log ++ [.removed n.tuple (idle n)]) ++
            gone.map (fun n => ConnLog.removed n.tuple (idle n)) := by simp
      have hone : addedSince t (log ++ [.removed n.tuple (idle n)]) = true ↔
          addedSince t log = true ∧ n.tuple ≠ t := by simp [addedSince]
      rw [hsplit, ih, hone, List.forall_mem_cons, and_assoc]

theorem tuples_rewriteFirst {t : ConnTuple} {f : ConnNode → ConnNode}
    (hf : ∀ n, (f n).tuple = n.tuple) (l : List ConnNode) :
    (rewriteFirst t f l).map (·.tuple) = l.map (·.tuple) := by
  induction l with
  | nil => rfl
  | cons n rest ih =>
      unfold rewriteFirst
      split
      · rw [List.map_cons, List.map_cons, hf]
      · rw [List.map_cons, List.map_cons, ih]

/-- Every node after the rewrite was there, or is the rewrite of one of the tuple
that was. -/
theorem mem_rewriteFirst {t : ConnTuple} {f : ConnNode → ConnNode} {n : ConnNode}
    {l : List ConnNode} (h : n ∈ rewriteFirst t f l) : n ∈ l ∨ ∃ n' ∈ l, n'.tuple = t ∧ n = f n' := by
  induction l with
  | nil => exact absurd h List.not_mem_nil
  | cons n₀ rest ih =>
      unfold rewriteFirst at h
      split at h
      · rename_i htup
        rcases List.mem_cons.mp h with rfl | h
        · exact Or.inr ⟨n₀, List.mem_cons_self, htup, rfl⟩
        · exact Or.inl (List.mem_cons_of_mem _ h)
      · rcases List.mem_cons.mp h with rfl | h
        · exact Or.inl List.mem_cons_self
        · rcases ih h with h | ⟨n', hn', htup, rfl⟩
          · exact Or.inl (List.mem_cons_of_mem _ h)
          · exact Or.inr ⟨n', List.mem_cons_of_mem _ hn', htup, rfl⟩

/-- The loop with deletions keeps the nodes that are not expired, in their order,
and logs the others in theirs. -/
theorem cleanList_eq (s : ConnLists) (l : List ConnNode) :
    cleanList env s l = (l.filter (fun n => !s.expired env n),
      (l.filter (s.expired env)).map (fun n => .removed n.tuple (s.ticks - n.stamped))) := by
  induction l with
  | nil => rfl
  | cons n rest ih =>
      unfold cleanList
      rw [ih]
      by_cases hexp : s.expired env n = true
      · simp [hexp]
      · simp [hexp]

/-! ## The idle test -/

theorem ofNat_wrapped (w x : Nat) : BitVec.ofNat w (x % 2 ^ w) = BitVec.ofNat w x := by
  apply BitVec.eq_of_toNat_eq
  simp

/-- With a timeout below half the range of `jiffies`, a node that tests as expired
has been idle longer. -/
theorem idle_of_timeAfter {timeout stamped now : Nat} (htimeout : timeout < 2 ^ (env.longBits - 1))
    (hle : stamped ≤ now)
    (h : timeAfter env (now % 2 ^ env.longBits) (stamped % 2 ^ env.longBits + timeout) = true) :
    timeout < now - stamped := by
  by_contra hidle
  obtain ⟨left, rfl⟩ : ∃ left, timeout = now - stamped + left :=
    Nat.exists_eq_add_of_le (Nat.le_of_not_lt hidle)
  have hword : BitVec.ofNat env.longBits (stamped % 2 ^ env.longBits + (now - stamped + left)) -
      BitVec.ofNat env.longBits (now % 2 ^ env.longBits) = BitVec.ofNat env.longBits left := by
    have hsum : stamped + (now - stamped + left) = now + left := by omega
    rw [BitVec.ofNat_add, ofNat_wrapped, ofNat_wrapped, ← BitVec.ofNat_add, hsum,
      BitVec.ofNat_add, BitVec.add_comm, BitVec.add_sub_cancel]
  -- what is left of the timeout is not negative as a signed word
  have hhalf : 2 * left < 2 ^ env.longBits := by
    cases hbits : env.longBits with
    | zero =>
        rw [hbits] at htimeout
        simp only [Nat.zero_sub, Nat.pow_zero] at htimeout ⊢
        omega
    | succ bits =>
        rw [hbits, Nat.add_sub_cancel] at htimeout
        rw [Nat.pow_succ]
        omega
  have hnat : (BitVec.ofNat env.longBits left).toNat = left := by
    rw [BitVec.toNat_ofNat]
    exact Nat.mod_eq_of_lt (by omega)
  unfold timeAfter at h
  rw [hword, decide_eq_true_eq, BitVec.toInt_eq_toNat_of_lt (by rw [hnat]; exact hhalf)] at h
  exact absurd h (Int.not_lt.mpr (Int.natCast_nonneg _))

/-! ## The invariant -/

structure ConnKept (env : Env) (hash : ConnTuple → Fin afConnHashSize) (s : ConnLists) : Prop where
  placed : ∀ i, ∀ n ∈ s.table i, hash n.tuple = i
  distinct : ∀ i, ((s.table i).map (·.tuple)).Nodup
  listed : ∀ t, (∃ n ∈ s.table (hash t), n.tuple = t) ↔ addedSince t s.log = true
  stamp : ∀ i, ∀ n ∈ s.table i,
    n.conn.lastJiffies = n.stamped % 2 ^ env.longBits ∧ n.stamped ≤ s.ticks
  idle : RemovedIdle (afConnTimeout * env.hz) s.log

theorem mem_update_table {table : Fin afConnHashSize → List ConnNode} {i j : Fin afConnHashSize}
    {l : List ConnNode} {n : ConnNode} :
    n ∈ Function.update table i l j ↔ (j = i ∧ n ∈ l) ∨ (j ≠ i ∧ n ∈ table j) := by
  by_cases hji : j = i
  · subst hji
    simp
  · simp [hji]

theorem connFind_eq_none_iff {s : ConnLists} {t : ConnTuple} :
    connFind hash s t = none ↔ ∀ n ∈ s.table (hash t), n.tuple ≠ t := by
  simp [connFind]

/-- A new node at the head of its list. -/
theorem ConnKept.add {s : ConnLists} (h : ConnKept env hash s) {t : ConnTuple}
    (hnone : connFind hash s t = none) (stale : Bool) : ConnKept env hash (connAdd env hash s t stale) := by
  have habsent := connFind_eq_none_iff.mp hnone
  constructor
  case placed =>
    intro i n hn
    rcases mem_update_table.mp hn with ⟨rfl, hin⟩ | ⟨_, hin⟩
    · rcases List.mem_cons.mp hin with rfl | hin
      · rfl
      · exact h.placed _ n hin
    · exact h.placed i n hin
  case distinct =>
    intro i
    by_cases hi : i = hash t
    · subst hi
      have hnot : t ∉ (s.table (hash t)).map (·.tuple) := by
        intro hmem
        obtain ⟨n, hn, hnt⟩ := List.mem_map.mp hmem
        exact habsent n hn hnt
      show ((Function.update s.table (hash t) _ (hash t)).map _).Nodup
      rw [Function.update_self, List.map_cons, List.nodup_cons]
      exact ⟨hnot, h.distinct _⟩
    · show ((Function.update s.table (hash t) _ i).map _).Nodup
      rw [Function.update_of_ne hi]
      exact h.distinct i
  case listed =>
    intro t'
    show _ ↔ addedSince t' (s.log ++ [.added t]) = true
    rw [addedSince_added, Bool.or_eq_true, decide_eq_true_eq, ← h.listed t']
    constructor
    · rintro ⟨n, hn, hnt⟩
      rcases mem_update_table.mp hn with ⟨hhash, hn⟩ | ⟨_, hn⟩
      · rcases List.mem_cons.mp hn with rfl | hn
        · exact Or.inr hnt
        · exact Or.inl ⟨n, by rw [hhash]; exact hn, hnt⟩
      · exact Or.inl ⟨n, hn, hnt⟩
    · rintro (⟨n, hn, hnt⟩ | rfl)
      · by_cases hhash : hash t' = hash t
        · rw [hhash] at hn
          exact ⟨n, mem_update_table.mpr (Or.inl ⟨hhash, List.mem_cons_of_mem _ hn⟩), hnt⟩
        · exact ⟨n, mem_update_table.mpr (Or.inr ⟨hhash, hn⟩), hnt⟩
      · exact ⟨_, mem_update_table.mpr (Or.inl ⟨rfl, List.mem_cons_self⟩), rfl⟩
  case stamp =>
    intro i n hn
    rcases mem_update_table.mp hn with ⟨rfl, hin⟩ | ⟨_, hin⟩
    · rcases List.mem_cons.mp hin with rfl | hin
      · exact ⟨rfl, Nat.le_refl _⟩
      · exact h.stamp _ n hin
    · exact h.stamp i n hin
  case idle =>
    intro t' idle hmem
    rcases List.mem_append.mp hmem with hmem | hmem
    · exact h.idle t' idle hmem
    · exact nomatch List.mem_singleton.mp hmem

theorem ConnKept.findAndAdd {s : ConnLists} (h : ConnKept env hash s) (t : ConnTuple) (alloc : Alloc) :
    ConnKept env hash (connFindAndAdd env hash s t alloc) := by
  unfold connFindAndAdd
  split
  · exact h
  · rename_i hnone
    split
    · exact h.add hnone alloc.staleIgnore
    · exact h

/-- An update rewrites fields of a node that stays where it is. -/
theorem ConnKept.update {s : ConnLists} (h : ConnKept env hash s) (t : ConnTuple) (fields : AfConn)
    (stamp : Bool) : ConnKept env hash (connUpdate env hash s t fields stamp) := by
  generalize hwrite : (fun n : ConnNode =>
    if stamp then
      { n with conn := { fields with lastJiffies := s.jiffies env }, stamped := s.ticks }
    else { n with conn := { fields with lastJiffies := n.conn.lastJiffies } }) = write
  have htable : (connUpdate env hash s t fields stamp).table =
      Function.update s.table (hash t) (rewriteFirst t write (s.table (hash t))) := by
    rw [← hwrite]
    rfl
  have htuple : ∀ n, (write n).tuple = n.tuple := by
    intro n
    rw [← hwrite]
    cases stamp <;> rfl
  -- the lists hold the same tuples as before
  have hsame : ∀ i, ((connUpdate env hash s t fields stamp).table i).map (·.tuple) =
      (s.table i).map (·.tuple) := by
    intro i
    rw [htable]
    by_cases hi : i = hash t
    · subst hi
      rw [Function.update_self, tuples_rewriteFirst htuple]
    · rw [Function.update_of_ne hi]
  have hmem : ∀ i t', (∃ n ∈ (connUpdate env hash s t fields stamp).table i, n.tuple = t') ↔
      ∃ n ∈ s.table i, n.tuple = t' := by
    intro i t'
    rw [← List.mem_map, hsame, List.mem_map]
  constructor
  case placed =>
    intro i n hn
    obtain ⟨n', hn', htup⟩ := (hmem i n.tuple).mp ⟨n, hn, rfl⟩
    rw [← htup]
    exact h.placed i n' hn'
  case distinct =>
    intro i
    rw [hsame]
    exact h.distinct i
  case listed =>
    intro t'
    rw [hmem]
    exact h.listed t'
  case stamp =>
    intro i n hn
    rw [htable] at hn
    rcases mem_update_table.mp hn with ⟨rfl, hin⟩ | ⟨_, hin⟩
    · rcases mem_rewriteFirst hin with hin | ⟨n', hn', -, rfl⟩
      · exact h.stamp _ n hin
      · rw [← hwrite]
        cases stamp with
        | true => exact ⟨rfl, Nat.le_refl _⟩
        | false => exact h.stamp _ n' hn'
    · exact h.stamp i n hin
  case idle => exact h.idle

/-! ## Cleaning -/

theorem cleanBucket_table (s : ConnLists) (i j : Fin afConnHashSize) :
    (cleanBucket env s i).table j =
      if j = i then (s.table j).filter (fun n => !s.expired env n) else s.table j := by
  simp only [cleanBucket, cleanList_eq]
  by_cases hj : j = i
  · subst hj
    rw [Function.update_self, if_pos rfl]
  · rw [Function.update_of_ne hj, if_neg hj]

theorem cleanBucket_log (s : ConnLists) (i : Fin afConnHashSize) :
    (cleanBucket env s i).log = s.log ++
      ((s.table i).filter (s.expired env)).map (fun n => .removed n.tuple (s.ticks - n.stamped)) := by
  simp only [cleanBucket, cleanList_eq]

/-- One bucket loses its expired nodes. -/
theorem ConnKept.cleanBucket {s : ConnLists} (h : ConnKept env hash s)
    (hhz : afConnTimeout * env.hz < 2 ^ (env.longBits - 1)) (i : Fin afConnHashSize) :
    ConnKept env hash (cleanBucket env s i) := by
  have hsub : ∀ j, ((Kernel.cleanBucket env s i).table j).Sublist (s.table j) := by
    intro j
    rw [cleanBucket_table]
    split
    · exact List.filter_sublist
    · exact List.Sublist.refl _
  constructor
  case placed => exact fun j n hn => h.placed j n ((hsub j).subset hn)
  case distinct => exact fun j => ((hsub j).map (·.tuple)).nodup (h.distinct j)
  case listed =>
    intro t
    rw [cleanBucket_log, addedSince_removed, ← h.listed t]
    constructor
    · rintro ⟨n, hn, rfl⟩
      refine ⟨⟨n, (hsub _).subset hn, rfl⟩, fun n' hn' htup => ?_⟩
      obtain ⟨hin', hexp'⟩ := List.mem_filter.mp hn'
      -- the node left and the node removed are one, and it is expired
      have hhash : hash n.tuple = i := by rw [← htup]; exact h.placed i n' hin'
      rw [cleanBucket_table, if_pos hhash, hhash] at hn
      obtain ⟨hin, hfresh⟩ := List.mem_filter.mp hn
      obtain rfl := List.inj_on_of_nodup_map (h.distinct i) hin' hin htup
      rw [hexp'] at hfresh
      exact absurd hfresh (by decide)
    · rintro ⟨⟨n, hn, rfl⟩, hgone⟩
      refine ⟨n, ?_, rfl⟩
      rw [cleanBucket_table]
      split
      · rename_i hhash
        refine List.mem_filter.mpr ⟨hn, ?_⟩
        cases hexp : s.expired env n with
        | false => rfl
        | true =>
            rw [hhash] at hn
            exact absurd rfl (hgone n (List.mem_filter.mpr ⟨hn, hexp⟩))
      · exact hn
  case stamp => exact fun j n hn => h.stamp j n ((hsub j).subset hn)
  case idle =>
    intro t idle hmem
    rw [cleanBucket_log] at hmem
    rcases List.mem_append.mp hmem with hmem | hmem
    · exact h.idle t idle hmem
    · obtain ⟨n, hn, heq⟩ := List.mem_map.mp hmem
      obtain ⟨rfl, rfl⟩ := ConnLog.removed.inj heq
      obtain ⟨hin, hexp⟩ := List.mem_filter.mp hn
      obtain ⟨hword, hle⟩ := h.stamp i n hin
      unfold ConnLists.expired at hexp
      rw [hword] at hexp
      exact idle_of_timeAfter hhz hle hexp

theorem ConnKept.lastBucket {s : ConnLists} (h : ConnKept env hash s) (b : Nat) :
    ConnKept env hash { s with lastBucket := b } :=
  ⟨h.placed, h.distinct, h.listed, h.stamp, h.idle⟩

theorem ConnKept.cleanFrom {s : ConnLists} (h : ConnKept env hash s)
    (hhz : afConnTimeout * env.hz < 2 ^ (env.longBits - 1)) (i count : Nat) :
    ConnKept env hash (cleanFrom env s i count) := by
  induction s, i, count using Kernel.cleanFrom.induct env with
  | case1 s i count hi hlast =>
      rw [Kernel.cleanFrom, dif_pos hi, if_pos hlast]
      exact h.cleanBucket hhz ⟨i, hi⟩
  | case2 s i count hi _ hmore ih =>
      rw [Kernel.cleanFrom, dif_pos hi, if_neg hmore]
      exact ih (h.cleanBucket hhz ⟨i, hi⟩)
  | case3 s i count hi =>
      rw [Kernel.cleanFrom, dif_neg hi]
      exact h

theorem ConnKept.step {s : ConnLists} (h : ConnKept env hash s)
    (hhz : afConnTimeout * env.hz < 2 ^ (env.longBits - 1)) (a : ConnAct) :
    ConnKept env hash (connStep env hash s a) := by
  cases a with
  | findAndAdd t alloc => exact h.findAndAdd t alloc
  | update t fields stamp => exact h.update t fields stamp
  | cleanTimeout =>
      have hloop := h.cleanFrom hhz s.lastBucket 0
      show ConnKept env hash (connCleanTimeout env s)
      simp only [connCleanTimeout]
      split
      · exact hloop.lastBucket 0
      · exact hloop
  | pass ticks =>
      refine ⟨h.placed, h.distinct, h.listed, fun i n hn => ?_, h.idle⟩
      obtain ⟨hword, hle⟩ := h.stamp i n hn
      exact ⟨hword, Nat.le_add_right_of_le hle⟩

/-- The table with no node, some ticks after the start. -/
theorem kept_start (ticks : Nat) : ConnKept env hash { ticks := ticks } := by
  refine ⟨fun _ n hn => ?_, fun _ => List.nodup_nil, fun t => ?_, fun _ n hn => ?_, fun _ _ hm => ?_⟩
  · exact absurd hn List.not_mem_nil
  · simp [addedSince]
  · exact absurd hn List.not_mem_nil
  · exact absurd hm List.not_mem_nil

/-! ## The table of `Conn` -/

/-- The lists hold the connections of the kernel's table. -/
structure Holds (k : OafState env) (s : ConnLists) : Prop where
  nodes : ∀ i, (s.table i).map (fun n => (n.tuple, n.conn)) = k.conns.buckets i
  last : s.lastBucket = k.connLastBucket.val
  time : s.ticks = k.jiffies

/-- A node is in the list of its hash. -/
theorem Holds.placed {k : OafState env} {s : ConnLists} (h : Holds k s) {i : Fin afConnHashSize}
    {n : ConnNode} (hn : n ∈ s.table i) : afConnHash env n.tuple = i := by
  refine k.conns.placed i (n.tuple, n.conn) ?_
  rw [← h.nodes]
  exact List.mem_map_of_mem hn

/-- A node tests as expired as its connection does. -/
theorem Holds.expired {k : OafState env} {s : ConnLists} (h : Holds k s) (n : ConnNode) :
    s.expired env n = timeAfter env k.jiffies (n.conn.lastJiffies + afConnTimeout * env.hz) := by
  unfold ConnLists.expired ConnLists.jiffies timeAfter
  rw [ofNat_wrapped, h.time]

theorem Holds.find {k : OafState env} {s : ConnLists} (h : Holds k s) (t : ConnTuple) :
    (connFind (afConnHash env) s t).map (·.conn) = k.conns.find? t := by
  unfold connFind HTable.find?
  rw [← h.nodes, List.find?_map, Option.map_map]
  rfl

theorem Holds.findAndAdd {k : OafState env} {s : ConnLists} (h : Holds k s) (t : ConnTuple)
    (alloc : Alloc) :
    Holds (((afConnFindAndAdd k t alloc).map Prod.fst).getD k)
      (connFindAndAdd env (afConnHash env) s t alloc) := by
  have hfind := h.find t
  unfold connFindAndAdd afConnFindAndAdd
  cases hs : connFind (afConnHash env) s t with
  | some n =>
      rw [hs] at hfind
      split
      · exact h
      · rename_i hnone
        exact absurd (hfind.trans hnone) (by simp)
  | none =>
      rw [hs] at hfind
      split
      · rename_i conn hconn
        exact absurd (hfind.trans hconn) (by simp)
      · rename_i hnone
        cases halloc : alloc.conn with
        | false => exact h
        | true =>
            refine ⟨fun i => ?_, h.last, h.time⟩
            show ((Function.update s.table _ _ i).map _) = (k.conns.add t _ hnone).buckets i
            simp only [HTable.add]
            by_cases hi : i = afConnHash env t
            · subst hi
              rw [Function.update_self, if_pos rfl, List.map_cons, h.nodes]
              simp only [newConn, ConnLists.jiffies, OafState.jiffiesWord, h.time]
            · rw [Function.update_of_ne hi, if_neg (Ne.symm hi)]
              exact h.nodes i

/-- Where no tuple is twice, the first node of a tuple is the only one. -/
theorem rewriteFirst_eq_map {t : ConnTuple} {f : ConnNode → ConnNode} {l : List ConnNode}
    (hnd : (l.map (·.tuple)).Nodup) :
    rewriteFirst t f l = l.map (fun n => if n.tuple = t then f n else n) := by
  induction l with
  | nil => rfl
  | cons n rest ih =>
      rw [List.map_cons, List.nodup_cons] at hnd
      unfold rewriteFirst
      split
      · rename_i htup
        have hrest : rest.map (fun n => if n.tuple = t then f n else n) = rest := by
          refine (List.map_congr_left (fun n' hn' => ?_)).trans (List.map_id rest)
          refine if_neg (fun heq => hnd.1 ?_)
          rw [htup, ← heq]
          exact List.mem_map_of_mem hn'
        rw [List.map_cons, if_pos htup, hrest]
      · rename_i htup
        rw [List.map_cons, if_neg htup, ih hnd.2]

/-- An update of the node found is `putConn` of its new fields. -/
theorem Holds.update {k : OafState env} {s : ConnLists} (h : Holds k s) {t : ConnTuple}
    {n : ConnNode} (hfind : connFind (afConnHash env) s t = some n) (fields : AfConn) (stamp : Bool) :
    Holds
      (k.putConn t { fields with
        lastJiffies := if stamp then k.jiffiesWord else n.conn.lastJiffies })
      (connUpdate env (afConnHash env) s t fields stamp) := by
  have hnd : ((s.table (afConnHash env t)).map (·.tuple)).Nodup := by
    have hkeys := k.conns.distinct (afConnHash env t)
    rw [← h.nodes, List.map_map] at hkeys
    exact hkeys
  have hn : n ∈ s.table (afConnHash env t) := List.mem_of_find?_eq_some hfind
  have hnt : n.tuple = t := by simpa using List.find?_some hfind
  refine ⟨fun i => ?_, h.last, h.time⟩
  simp only [connUpdate, OafState.putConn, HTable.modify, HTable.mapVals, HTable.ofKeysSublist,
    ← h.nodes, List.map_map]
  by_cases hi : i = afConnHash env t
  · subst hi
    rw [Function.update_self, rewriteFirst_eq_map hnd, List.map_map]
    refine List.map_congr_left (fun n' hn' => ?_)
    by_cases htup : n'.tuple = t
    · obtain rfl := List.inj_on_of_nodup_map hnd hn' hn (htup.trans hnt.symm)
      cases stamp with
      | true => simp [htup, ConnLists.jiffies, OafState.jiffiesWord, h.time]
      | false => simp [htup]
    · simp [htup]
  · rw [Function.update_of_ne hi]
    refine List.map_congr_left (fun n' hn' => ?_)
    have htup : n'.tuple ≠ t := by
      rintro rfl
      exact hi (h.placed hn').symm
    simp [htup]

/-- The loop looks at the buckets up to five behind the first, and not past the
table. -/
theorem cleanFrom_table (s : ConnLists) (i count : Nat) (hi : i < afConnHashSize)
    (hcount : count ≤ maxAfConnCheckCount) :
    (cleanFrom env s i count).lastBucket =
        min (i + (maxAfConnCheckCount - count)) (afConnHashSize - 1) ∧
      (cleanFrom env s i count).ticks = s.ticks ∧
      ∀ j : Fin afConnHashSize, (cleanFrom env s i count).table j =
        if i ≤ j.val ∧ j.val ≤ min (i + (maxAfConnCheckCount - count)) (afConnHashSize - 1) then
          (s.table j).filter (fun n => !s.expired env n)
        else s.table j := by
  induction s, i, count using cleanFrom.induct env with
  | case1 s i count hlt hstop =>
      obtain rfl : count = maxAfConnCheckCount := by omega
      have hlast : min (i + (maxAfConnCheckCount - maxAfConnCheckCount)) (afConnHashSize - 1) = i := by
        omega
      rw [cleanFrom, dif_pos hlt, if_pos hstop, hlast]
      refine ⟨rfl, rfl, fun j => ?_⟩
      have hrange : (i ≤ j.val ∧ j.val ≤ i) ↔ j = ⟨i, hlt⟩ := by
        rw [Fin.ext_iff]
        exact ⟨fun h => Nat.le_antisymm h.2 h.1, fun h => ⟨Nat.le_of_eq h.symm, Nat.le_of_eq h⟩⟩
      rw [cleanBucket_table, if_congr hrange rfl rfl]
  | case2 s i count hlt _ hmore ih =>
      rw [cleanFrom, dif_pos hlt, if_neg hmore]
      by_cases hnext : i + 1 < afConnHashSize
      · obtain ⟨hlast, hticks, htable⟩ := ih hnext (by omega)
        have hshift : i + 1 + (maxAfConnCheckCount - (count + 1)) =
            i + (maxAfConnCheckCount - count) := by omega
        rw [hshift] at hlast htable
        refine ⟨hlast, hticks, fun j => ?_⟩
        rw [htable, cleanBucket_table]
        -- bucket `i` is done, the others wait for the rest of the loop
        by_cases hj : j = ⟨i, hlt⟩
        · subst hj
          rw [if_neg (fun h => Nat.not_succ_le_self i h.1), if_pos rfl, if_pos ⟨Nat.le_refl i, by
            show i ≤ _
            omega⟩]
        · have hne : j.val ≠ i := fun h => hj (Fin.ext h)
          rw [if_neg hj]
          refine if_congr ?_ rfl rfl
          omega
      · rw [cleanFrom, dif_neg hnext]
        obtain rfl : i = afConnHashSize - 1 := by omega
        refine ⟨?_, rfl, fun j => ?_⟩
        · show afConnHashSize - 1 = _
          omega
        · have hrange : (afConnHashSize - 1 ≤ j.val ∧
              j.val ≤ min (afConnHashSize - 1 + (maxAfConnCheckCount - count)) (afConnHashSize - 1)) ↔
              j = ⟨afConnHashSize - 1, hlt⟩ := by
            rw [Fin.ext_iff]
            show _ ↔ j.val = afConnHashSize - 1
            omega
          rw [cleanBucket_table, if_congr hrange rfl rfl]
  | case3 s i count hnot => exact absurd hi hnot

/-- The wrap test behind the loop moves the cursor and nothing else. -/
theorem connCleanTimeout_loop (s : ConnLists) :
    (connCleanTimeout env s).table = (cleanFrom env s s.lastBucket 0).table ∧
      (connCleanTimeout env s).ticks = (cleanFrom env s s.lastBucket 0).ticks := by
  simp only [connCleanTimeout]
  split
  · exact ⟨rfl, rfl⟩
  · exact ⟨rfl, rfl⟩

section

variable {s : ConnLists} (hs : s.lastBucket < afConnHashSize)

include hs

/-- A call filters the buckets it looks at and leaves the others. -/
theorem connCleanTimeout_table (b : Fin afConnHashSize) :
    (connCleanTimeout env s).table b =
      if s.lastBucket ≤ b.val ∧ b.val ≤ s.lastBucket + maxAfConnCheckCount then
        (s.table b).filter (fun n => !s.expired env n)
      else s.table b := by
  obtain ⟨-, -, htable⟩ := @cleanFrom_table env s s.lastBucket 0 hs (Nat.zero_le _)
  have hb := b.isLt
  rw [(connCleanTimeout_loop s).1, htable]
  refine if_congr ?_ rfl rfl
  omega

/-- The next call starts where this one ended, or with the first bucket. -/
theorem connCleanTimeout_lastBucket :
    (connCleanTimeout env s).lastBucket =
      if s.lastBucket + maxAfConnCheckCount < afConnHashSize - 1 then
        s.lastBucket + maxAfConnCheckCount
      else 0 := by
  obtain ⟨hlast, -, -⟩ := @cleanFrom_table env s s.lastBucket 0 hs (Nat.zero_le _)
  rw [Nat.sub_zero] at hlast
  simp only [connCleanTimeout]
  by_cases hend : s.lastBucket + maxAfConnCheckCount < afConnHashSize - 1
  · rw [if_pos hend, if_neg (by omega)]
    omega
  · rw [if_neg hend, if_pos (by omega)]

theorem connCleanTimeout_ticks : (connCleanTimeout env s).ticks = s.ticks := by
  obtain ⟨-, hticks, -⟩ := @cleanFrom_table env s s.lastBucket 0 hs (Nat.zero_le _)
  exact (connCleanTimeout_loop s).2.trans hticks

end

theorem Holds.cleanTimeout {k : OafState env} {s : ConnLists} (h : Holds k s) :
    Holds (afConnCleanTimeout k) (connCleanTimeout env s) := by
  have hs : s.lastBucket < afConnHashSize := by
    rw [h.last]
    exact k.connLastBucket.isLt
  constructor
  case nodes =>
    intro i
    have hi := i.isLt
    rw [connCleanTimeout_table hs, h.last]
    simp only [afConnCleanTimeout, HTable.filter, HTable.ofKeysSublist, ← h.nodes, List.filter_map]
    split
    · rename_i hrange
      have hlast : i.val ≤ min (k.connLastBucket.val + maxAfConnCheckCount) (afConnHashSize - 1) := by omega
      congr 1
      refine List.filter_congr (fun n hn => ?_)
      simp only [Function.comp_apply, h.placed hn, h.expired]
      rw [decide_eq_true hrange.1, decide_eq_true hlast]
      rfl
    · rename_i hrange
      -- nothing of the bucket tests as expired
      congr 1
      symm
      rw [List.filter_eq_self]
      intro n hn
      simp only [Function.comp_apply, h.placed hn]
      rw [← Bool.decide_and, decide_eq_false (by omega)]
      rfl
  case last =>
    rw [connCleanTimeout_lastBucket hs, h.last]
    simp only [afConnCleanTimeout]
    by_cases hend : k.connLastBucket.val + maxAfConnCheckCount < afConnHashSize - 1
    · rw [if_pos hend, dif_pos (by omega)]
      show _ = min (k.connLastBucket.val + maxAfConnCheckCount) (afConnHashSize - 1)
      omega
    · rw [if_neg hend, dif_neg (by omega)]
  case time =>
    rw [connCleanTimeout_ticks hs, h.time]
    rfl

/-! ## Main result -/

/-- **The bypass connection table.** After every sequence of lookups with
insertion, updates and rounds of the cleaner, over any hash: no two nodes of the
table have the same tuple, each is in the list of its hash, `af_conn_find` finds a
node of a tuple iff the tuple was added and not removed since, and every node that
was removed had been idle for longer than the timeout, wherever `jiffies` wrapped.
The timeout is below half the range of `jiffies`. -/
theorem conn_table_kept (env : Env) (hash : ConnTuple → Fin afConnHashSize)
    (hhz : afConnTimeout * env.hz < 2 ^ (env.longBits - 1)) (ticks : Nat) (acts : List ConnAct) :
    let s := run (connStep env hash) { ticks := ticks } acts
    (∀ i j n n', n ∈ s.table i → n' ∈ s.table j → n.tuple = n'.tuple → i = j ∧ n = n') ∧
      (∀ i, ((s.table i).map (·.tuple)).Nodup) ∧
      (∀ i, ∀ n ∈ s.table i, hash n.tuple = i) ∧
      (∀ t, (∃ n, connFind hash s t = some n) ↔ addedSince t s.log = true) ∧
      (∀ t n, connFind hash s t = some n → n.tuple = t) ∧
      RemovedIdle (afConnTimeout * env.hz) s.log := by
  intro s
  have hkept : ConnKept env hash s :=
    run_invariant (I := ConnKept env hash) (C := fun _ _ => True) (fun s a h _ => h.step hhz a)
      (kept_start ticks) (fun _ _ _ _ => trivial)
  refine ⟨?_, hkept.distinct, hkept.placed, ?_, ?_, hkept.idle⟩
  · intro i j n n' hn hn' htup
    obtain rfl : i = j := by
      rw [← hkept.placed i n hn, htup]
      exact hkept.placed j n' hn'
    exact ⟨rfl, List.inj_on_of_nodup_map (hkept.distinct i) hn hn' htup⟩
  · intro t
    rw [← hkept.listed t]
    constructor
    · rintro ⟨n, hfind⟩
      exact ⟨n, List.mem_of_find?_eq_some hfind, by simpa using List.find?_some hfind⟩
    · rintro ⟨n, hn, htup⟩
      apply Option.ne_none_iff_exists'.mp
      intro hnone
      exact connFind_eq_none_iff.mp hnone n hn htup
  · intro t n hfind
    simpa using List.find?_some hfind

/-- A box with HZ 100 on 32 bits, and a hash that puts everything in one bucket. -/
def oneBucketEnv : Env where
  hz := 100
  longBits := 32
  jhash3words _ _ _ _ := 0
  regexpMatch _ _ := 0

def oneBucket (_ : ConnTuple) : Fin afConnHashSize := ⟨0, afConnHashSize_pos⟩

/-- The first connection is left alone for 30.01 seconds, in which `jiffies` wraps;
the second one is seen in between. -/
def wrapRun : List ConnAct :=
  [.findAndAdd ⟨1, 2, 50000, 443, 6⟩ {}, .pass 1500,
    .findAndAdd ⟨1, 2, 50001, 443, 6⟩ {}, .pass 1501, .cleanTimeout]

theorem conn_table_kept_over_wrap :
    RemovedIdle 3000 (run (connStep oneBucketEnv oneBucket) { ticks := 2 ^ 32 - 100 } wrapRun).log :=
  (conn_table_kept oneBucketEnv oneBucket (by decide) (2 ^ 32 - 100) wrapRun).2.2.2.2.2

end OpenAppFilter.Theorems
