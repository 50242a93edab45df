import OpenAppFilter.Kernel.State

/-!
# `/proc/net/af_client` (`af_client_fs.c`)

The sequence file the daemon reads the clients from. Its iterator holds a bucket
and the head of that bucket's list in private state and follows the `next`
pointers. The lists are circular: the last node of a bucket points back to the
head, and the head of an empty one to itself.

`read` is the loop of `seq_file`: it starts at the position of the file, shows as
many records as its buffer takes and leaves the position at the next one. The
`Id` column is left out: it counts the calls of `show`.
-/

namespace OpenAppFilter.Kernel

open Base

/-! ## Lists -/

/-- A `struct list_head`: the head of a bucket, or the one in a node. -/
inductive ListPtr where
  | head (b : Fin maxAfClientHashSize)
  | node (mac : Mac)
  deriving DecidableEq

/-- Where the nodes of bucket `b` from `nodes` on begin. -/
def firstOr (b : Fin maxAfClientHashSize) (nodes : List (Mac × AfClientInfo)) : ListPtr :=
  match nodes with
  | [] => .head b
  | e :: _ => .node e.1

/-- The `next` pointers of a table. -/
def nextPtr (t : ClientTable) : ListPtr → ListPtr
  | .head b => firstOr b (t.buckets b)
  | .node mac =>
      firstOr (getMacHashCode mac)
        ((t.buckets (getMacHashCode mac)).dropWhile (fun e => e.1 ≠ mac)).tail

@[simp] theorem nextPtr_head (t : ClientTable) (b : Fin maxAfClientHashSize) :
    nextPtr t (.head b) = firstOr b (t.buckets b) := rfl

/-- Behind a node stands the rest of its bucket. -/
theorem nextPtr_node {t : ClientTable} {b : Fin maxAfClientHashSize}
    {front back : List (Mac × AfClientInfo)} {e : Mac × AfClientInfo}
    (h : t.buckets b = front ++ e :: back) : nextPtr t (.node e.1) = firstOr b back := by
  have hb : getMacHashCode e.1 = b := t.placed b e (by rw [h]; simp)
  have hfront : ∀ e' ∈ front, decide (e'.1 ≠ e.1) = true := by
    have hnd := t.distinct b
    rw [h, List.map_append, List.nodup_append] at hnd
    intro e' he'
    have hne : e'.1 ≠ e.1 :=
      hnd.2.2 e'.1 (List.mem_map_of_mem he') e.1 (List.mem_map_of_mem List.mem_cons_self)
    simpa using hne
  show firstOr (getMacHashCode e.1)
    ((t.buckets (getMacHashCode e.1)).dropWhile (fun e' => e'.1 ≠ e.1)).tail = firstOr b back
  rw [hb, h, List.dropWhile_append_of_pos hfront]
  simp

/-- The list of a bucket is empty iff its head points to itself. -/
theorem firstOr_eq_head_iff {b : Fin maxAfClientHashSize} {nodes : List (Mac × AfClientInfo)} :
    firstOr b nodes = .head b ↔ nodes = [] := by
  cases nodes with
  | nil => simp [firstOr]
  | cons e rest => simp [firstOr]

/-! ## Iterator -/

/-- `struct af_client_iter_state`, zeroed when the file is opened. -/
structure AfClientIterState where
  bucket : Nat := 0
  head : Option ListPtr := none

/-- `for (; st->bucket < MAX_AF_CLIENT_HASH_SIZE; st->bucket++)`: the first node of
the next bucket that is not empty. -/
def afClientScan (t : ClientTable) (st : AfClientIterState) : AfClientIterState × Option ListPtr :=
  if h : st.bucket < maxAfClientHashSize then
    if nextPtr t (.head ⟨st.bucket, h⟩) = .head ⟨st.bucket, h⟩ then
      afClientScan t { st with bucket := st.bucket + 1 }
    else
      ({ st with head := some (.head ⟨st.bucket, h⟩) }, some (nextPtr t (.head ⟨st.bucket, h⟩)))
  else (st, none)
termination_by maxAfClientHashSize - st.bucket

/-- `af_client_get_first` -/
def afClientGetFirst (t : ClientTable) (st : AfClientIterState) :
    AfClientIterState × Option ListPtr :=
  afClientScan t { st with bucket := 0 }

/-- `af_client_get_next` -/
def afClientGetNext (t : ClientTable) (st : AfClientIterState) (head : ListPtr) :
    AfClientIterState × Option ListPtr :=
  let node := nextPtr t head
  if some node ≠ st.head then (st, some node)
  else afClientScan t { st with bucket := st.bucket + 1 }

/-- `while (pos && (head = af_client_get_next(seq, head))) pos--`, and `NULL` if
`pos` is left. -/
def afClientWalk (t : ClientTable) : Nat → AfClientIterState × Option ListPtr →
    AfClientIterState × Option ListPtr
  | pos + 1, (st, some head) => afClientWalk t pos (afClientGetNext t st head)
  | _ + 1, (st, none) => (st, none)
  | 0, r => r

/-- `af_client_get_idx` -/
def afClientGetIdx (t : ClientTable) (st : AfClientIterState) (pos : Nat) :
    AfClientIterState × Option ListPtr :=
  afClientWalk t pos (afClientGetFirst t st)

/-! ## Sequence file -/

/-- What the operations hand each other as `void *v`. -/
inductive SeqItem where
  /-- `SEQ_START_TOKEN` -/
  | startToken
  | entry (p : ListPtr)

/-- `af_client_seq_start` -/
def afClientSeqStart (t : ClientTable) (st : AfClientIterState) (pos : Nat) :
    AfClientIterState × Option SeqItem :=
  if pos = 0 then (st, some .startToken)
  else
    let r := afClientGetIdx t st (pos - 1)
    (r.1, r.2.map .entry)

/-- `af_client_seq_next`; the position goes up by one in any case. -/
def afClientSeqNext (t : ClientTable) (st : AfClientIterState) (v : SeqItem) :
    AfClientIterState × Option SeqItem :=
  let r :=
    match v with
    | .startToken => afClientGetIdx t st 0
    | .entry head => afClientGetNext t st head
  (r.1, r.2.map .entry)

/-- A line of the file: the titles, the fields of a node, or what lies at a
pointer that is no node. -/
inductive SeqRecord where
  | titles
  | client (mac : Mac) (info : AfClientInfo)
  | stray

/-- `af_client_seq_show` -/
def afClientSeqShow (t : ClientTable) : SeqItem → SeqRecord
  | .startToken => .titles
  | .entry (.head _) => .stray
  | .entry (.node mac) =>
      match t.find? mac with
      | some info => .client mac info
      | none => .stray

/-- An open file: its position and the private state. -/
structure SeqFile where
  pos : Nat := 0
  st : AfClientIterState := {}

/-- Show and advance until `count` records are shown or the end is met. -/
def seqFill (t : ClientTable) : Nat → SeqFile → Option SeqItem → SeqFile × List SeqRecord
  | count + 1, f, some v =>
      let r := afClientSeqNext t f.st v
      let rest := seqFill t count ⟨f.pos + 1, r.1⟩ r.2
      (rest.1, afClientSeqShow t v :: rest.2)
  | _, f, _ => (f, [])

/-- One `read` whose buffer takes `count` records. -/
def seqRead (t : ClientTable) (f : SeqFile) (count : Nat) : SeqFile × List SeqRecord :=
  let r := afClientSeqStart t f.st f.pos
  seqFill t count ⟨f.pos, r.1⟩ r.2

/-- The records of consecutive reads. -/
def seqReads (t : ClientTable) : SeqFile → List Nat → List SeqRecord
  | _, [] => []
  | f, count :: counts => (seqRead t f count).2 ++ seqReads t (seqRead t f count).1 counts

end OpenAppFilter.Kernel
