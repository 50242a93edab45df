import OpenAppFilter.Kernel.ClientSeq
import OpenAppFilter.Kernel.System

/-!
# The client list is complete

An iterator that stands at an entry has the entries behind it still to give
(`Standing`): the rest of its bucket, and the buckets after it. `get_first`,
`get_next` and `get_idx` keep this, so a read that starts at a position gives the
records from this position on, whatever the reads before it left in the private
state. Reads of any sizes give the same records as one.
-/

namespace OpenAppFilter.Theorems

open Base Kernel

/-! ## The entries an iterator has before it -/

/-- The entries of the buckets from `b` on. -/
def entriesFrom (t : ClientTable) (b : Nat) : List (Mac × AfClientInfo) :=
  ((List.finRange maxAfClientHashSize).drop b).flatMap t.buckets

theorem entriesFrom_of_lt (t : ClientTable) {b : Nat} (h : b < maxAfClientHashSize) :
    entriesFrom t b = t.buckets ⟨b, h⟩ ++ entriesFrom t (b + 1) := by
  have hlen : b < (List.finRange maxAfClientHashSize).length := by
    rw [List.length_finRange]
    exact h
  unfold entriesFrom
  rw [List.drop_eq_getElem_cons hlen, List.flatMap_cons, List.getElem_finRange]
  rfl

theorem entriesFrom_of_le (t : ClientTable) {b : Nat} (h : maxAfClientHashSize ≤ b) :
    entriesFrom t b = [] := by
  unfold entriesFrom
  rw [List.drop_of_length_le (by rw [List.length_finRange]; exact h)]
  rfl

/-- The iterator stands at the first entry of `l` and has the others of `l` behind
it; at the end it is `NULL`. -/
def Standing (t : ClientTable) (r : AfClientIterState × Option ListPtr)
    (l : List (Mac × AfClientInfo)) : Prop :=
  match l with
  | [] => r.2 = none
  | e :: rest =>
      r.2 = some (.node e.1) ∧
        ∃ (b : Fin maxAfClientHashSize) (front back : List (Mac × AfClientInfo)),
          r.1 = ⟨b.val, some (.head b)⟩ ∧ t.buckets b = front ++ e :: back ∧
            rest = back ++ entriesFrom t (b.val + 1)

/-- The scan over the buckets stops at the first entry from there on. -/
theorem standing_scan (t : ClientTable) (st : AfClientIterState) :
    Standing t (afClientScan t st) (entriesFrom t st.bucket) := by
  induction st using afClientScan.induct t with
  | case1 st h hempty ih =>
      have hbucket : t.buckets ⟨st.bucket, h⟩ = [] := firstOr_eq_head_iff.mp hempty
      rw [afClientScan, dif_pos h, if_pos hempty, entriesFrom_of_lt t h, hbucket]
      exact ih
  | case2 st h hnonempty =>
      rw [afClientScan, dif_pos h, if_neg hnonempty, entriesFrom_of_lt t h]
      rw [nextPtr_head] at hnonempty ⊢
      cases hbucket : t.buckets ⟨st.bucket, h⟩ with
      | nil =>
          rw [hbucket] at hnonempty
          exact absurd rfl hnonempty
      | cons e rest =>
          exact ⟨rfl, ⟨st.bucket, h⟩, [], rest, rfl, hbucket, rfl⟩
  | case3 st h =>
      rw [afClientScan, dif_neg h, entriesFrom_of_le t (Nat.le_of_not_lt h)]
      rfl

theorem standing_first (t : ClientTable) (st : AfClientIterState) :
    Standing t (afClientGetFirst t st) t.entries :=
  standing_scan t { st with bucket := 0 }

/-- `get_next` moves on by one entry: inside the bucket, or to the next bucket that
has one. -/
theorem standing_next {t : ClientTable} {st : AfClientIterState} {head : ListPtr}
    {e : Mac × AfClientInfo} {rest : List (Mac × AfClientInfo)}
    (h : Standing t (st, some head) (e :: rest)) : Standing t (afClientGetNext t st head) rest := by
  obtain ⟨hhead, b, front, back, hst, hbucket, rfl⟩ := h
  obtain rfl : head = .node e.1 := Option.some.inj hhead
  obtain rfl : st = ⟨b.val, some (.head b)⟩ := hst
  show Standing t
    (if some (nextPtr t (.node e.1)) ≠ some (.head b) then (_, some (nextPtr t (.node e.1)))
      else afClientScan t ⟨b.val + 1, some (.head b)⟩) (back ++ entriesFrom t (b.val + 1))
  rw [nextPtr_node hbucket]
  cases back with
  | nil =>
      rw [if_neg (by simp [firstOr])]
      exact standing_scan t ⟨b.val + 1, some (.head b)⟩
  | cons e' back =>
      rw [if_pos (by simp [firstOr])]
      refine ⟨rfl, b, front ++ [e], back, rfl, ?_, rfl⟩
      rw [hbucket, List.append_assoc]
      rfl

theorem standing_walk {t : ClientTable} (pos : Nat) :
    ∀ {r : AfClientIterState × Option ListPtr} {l : List (Mac × AfClientInfo)},
      Standing t r l → Standing t (afClientWalk t pos r) (l.drop pos) := by
  induction pos with
  | zero =>
      intro r l h
      rw [List.drop_zero]
      exact h
  | succ pos ih =>
      intro r l h
      obtain ⟨st, v⟩ := r
      cases l with
      | nil =>
          obtain rfl : v = none := h
          exact rfl
      | cons e rest =>
          obtain rfl : v = some (.node e.1) := h.1
          exact ih (standing_next h)

theorem standing_idx (t : ClientTable) (st : AfClientIterState) (pos : Nat) :
    Standing t (afClientGetIdx t st pos) (t.entries.drop pos) :=
  standing_walk pos (standing_first t st)

/-! ## The records of the file -/

/-- The titles and the entries in table order. -/
def allRecords (t : ClientTable) : List SeqRecord :=
  .titles :: t.entries.map (fun e => .client e.1 e.2)

/-- The item of the sequence file at a position. -/
def ItemAt (t : ClientTable) (pos : Nat) (r : AfClientIterState × Option SeqItem) : Prop :=
  match pos with
  | 0 => r.2 = some .startToken
  | pos + 1 => ∃ p, r.2 = p.map .entry ∧ Standing t (r.1, p) (t.entries.drop pos)

theorem itemAt_start (t : ClientTable) (st : AfClientIterState) (pos : Nat) :
    ItemAt t pos (afClientSeqStart t st pos) := by
  cases pos with
  | zero => rfl
  | succ pos => exact ⟨_, rfl, standing_idx t st pos⟩

theorem itemAt_next {t : ClientTable} {pos : Nat} {st : AfClientIterState} {v : SeqItem}
    (h : ItemAt t pos (st, some v)) : ItemAt t (pos + 1) (afClientSeqNext t st v) := by
  cases pos with
  | zero =>
      obtain rfl : v = .startToken := Option.some.inj h
      exact ⟨_, rfl, standing_idx t st 0⟩
  | succ pos =>
      obtain ⟨p, hp, hstanding⟩ := h
      cases p with
      | none => exact nomatch hp
      | some head =>
          obtain rfl : v = .entry head := Option.some.inj hp
          refine ⟨_, rfl, ?_⟩
          cases hl : t.entries.drop pos with
          | nil =>
              rw [hl] at hstanding
              exact nomatch hstanding
          | cons e rest =>
              rw [hl] at hstanding
              rw [← List.drop_drop, hl]
              exact standing_next hstanding

/-- What is shown at a position is the record there; at the end there is neither. -/
theorem itemAt_show {t : ClientTable} {pos : Nat} {r : AfClientIterState × Option SeqItem}
    (h : ItemAt t pos r) : r.2.map (afClientSeqShow t) = (allRecords t)[pos]? := by
  cases pos with
  | zero =>
      obtain ⟨st, v⟩ := r
      obtain rfl : v = some .startToken := h
      rfl
  | succ pos =>
      obtain ⟨p, hp, hstanding⟩ := h
      show r.2.map _ = (t.entries.map _)[pos]?
      rw [hp, List.getElem?_map, ← List.head?_drop]
      cases hl : t.entries.drop pos with
      | nil =>
          rw [hl] at hstanding
          obtain rfl : p = none := hstanding
          rfl
      | cons e rest =>
          rw [hl] at hstanding
          obtain rfl : p = some (.node e.1) := hstanding.1
          have hmem : (e.1, e.2) ∈ t.entries :=
            List.mem_of_mem_drop (i := pos) (by rw [hl]; exact List.mem_cons_self)
          show some (afClientSeqShow t (.entry (.node e.1))) = some (.client e.1 e.2)
          simp only [afClientSeqShow, HTable.find?_eq_some_iff.mpr hmem]

/-! ## Reads -/

/-- A read gives the next records and leaves the position behind them. -/
theorem seqFill_eq {t : ClientTable} (count : Nat) :
    ∀ {f : SeqFile} {v : Option SeqItem}, ItemAt t f.pos (f.st, v) →
      (seqFill t count f v).2 = ((allRecords t).drop f.pos).take count ∧
        (seqFill t count f v).1.pos = f.pos + (seqFill t count f v).2.length := by
  induction count with
  | zero =>
      intro f v _
      exact ⟨by rw [List.take_zero]; rfl, rfl⟩
  | succ count ih =>
      intro f v hat
      have hshow := itemAt_show hat
      cases v with
      | none =>
          have hend : (allRecords t).drop f.pos = [] := by
            rw [List.drop_eq_nil_iff]
            exact List.getElem?_eq_none_iff.mp hshow.symm
          rw [hend]
          exact ⟨rfl, rfl⟩
      | some v =>
          obtain ⟨hlt, hget⟩ := List.getElem?_eq_some_iff.mp hshow.symm
          have hnext := ih (f := ⟨f.pos + 1, (afClientSeqNext t f.st v).1⟩)
            (v := (afClientSeqNext t f.st v).2) (itemAt_next hat)
          rw [List.drop_eq_getElem_cons hlt, hget, List.take_succ_cons]
          constructor
          · show afClientSeqShow t v :: _ = _
            rw [hnext.1]
          · show (seqFill t count ⟨f.pos + 1, (afClientSeqNext t f.st v).1⟩
                (afClientSeqNext t f.st v).2).1.pos = f.pos + (_ :: _).length
            rw [hnext.2, List.length_cons]
            exact Nat.add_right_comm f.pos 1 _

theorem seqRead_eq (t : ClientTable) (f : SeqFile) (count : Nat) :
    (seqRead t f count).2 = ((allRecords t).drop f.pos).take count ∧
      (seqRead t f count).1.pos = f.pos + (seqRead t f count).2.length :=
  seqFill_eq count (f := ⟨f.pos, (afClientSeqStart t f.st f.pos).1⟩)
    (itemAt_start t f.st f.pos)

/-- Consecutive reads give what one read of their sizes together gives. -/
theorem seqReads_eq (t : ClientTable) (counts : List Nat) :
    ∀ f, seqReads t f counts = ((allRecords t).drop f.pos).take counts.sum := by
  induction counts with
  | nil =>
      intro f
      rw [List.sum_nil, List.take_zero]
      rfl
  | cons count counts ih =>
      intro f
      obtain ⟨hshown, hpos⟩ := seqRead_eq t f count
      show (seqRead t f count).2 ++ seqReads t (seqRead t f count).1 counts = _
      rw [ih, hpos, hshown, ← List.drop_drop, List.sum_cons, List.take_add]
      congr 1
      -- a read that stops short has met the end
      by_cases hlen : count ≤ ((allRecords t).drop f.pos).length
      · rw [List.length_take, Nat.min_eq_left hlen]
      · have hle := Nat.le_of_not_le hlen
        rw [List.take_of_length_le hle, List.drop_length, List.drop_of_length_le hle]

/-! ## Main result -/

/-- The MAC column. -/
def SeqRecord.mac? : SeqRecord → Option Mac
  | .client mac _ => some mac
  | _ => none

theorem allRecords_macs (t : ClientTable) :
    (allRecords t).filterMap SeqRecord.mac? = t.entries.map Prod.fst := by
  unfold allRecords
  rw [List.filterMap_cons, List.filterMap_map, ← List.filterMap_eq_map]
  rfl

variable {env : Env}

/-- **The client list is complete.** After every run of the kernel, and however a
reader splits the file into reads while the table stays, the records are those of
the titles and of the table in bucket order, as far as the reads go; a reader that
goes to the end gets the record of every client. No MAC is in two records. -/
theorem client_list_complete (jiffies : Nat) (es : List Event) (counts : List Nat) :
    let t := (run step (boot env jiffies) es).clients
    seqReads t {} counts =
        (.titles :: t.entries.map (fun e => .client e.1 e.2)).take counts.sum ∧
      (t.entries.length < counts.sum → ∀ mac info,
        t.find? mac = some info ↔ .client mac info ∈ seqReads t {} counts) ∧
      ((seqReads t {} counts).filterMap SeqRecord.mac?).Nodup := by
  intro t
  have hreads : seqReads t {} counts = (allRecords t).take counts.sum := seqReads_eq t counts {}
  refine ⟨hreads, ?_, ?_⟩
  · intro hlen mac info
    have hall : (allRecords t).length ≤ counts.sum := by
      simp only [allRecords, List.length_cons, List.length_map]
      omega
    rw [hreads, List.take_of_length_le hall, HTable.find?_eq_some_iff]
    simp [allRecords]
  · rw [hreads]
    have hsub := (List.take_sublist counts.sum (allRecords t)).filterMap SeqRecord.mac?
    rw [allRecords_macs] at hsub
    exact hsub.nodup t.nodup_keys

end OpenAppFilter.Theorems
