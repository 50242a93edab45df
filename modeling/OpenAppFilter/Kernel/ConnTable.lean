import OpenAppFilter.Kernel.Conn
import OpenAppFilter.Base.Run

/-!
# The bypass connection table as lists (`af_conntrack.c`)

The same table as in `Conn`, with nothing assumed of it: 256 lists of nodes, over
any hash of the tuple. `af_conn_add` does not look whether the tuple is there, the
loops run node by node, and the clock goes past the end of `jiffies`. Each node
remembers when it was last stamped, and the table which nodes were added and
removed.
-/

namespace OpenAppFilter.Kernel

open Base

/-- `af_conn_t`; `stamped` is the time of `last_jiffies` without the wrap. -/
structure ConnNode where
  tuple : ConnTuple
  conn : AfConn
  stamped : Nat

/-- A node is added, or removed after `idle` ticks without a stamp. -/
inductive ConnLog where
  | added (t : ConnTuple)
  | removed (t : ConnTuple) (idle : Nat)

/-- `af_conn_table`, the static `last_bucket` and the ticks since the start of
`jiffies`. -/
structure ConnLists where
  table : Fin afConnHashSize → List ConnNode := fun _ => []
  lastBucket : Nat := 0
  ticks : Nat
  log : List ConnLog := []

variable (env : Env) (hash : ConnTuple → Fin afConnHashSize)

/-- The `unsigned long` in `jiffies`. -/
def ConnLists.jiffies (s : ConnLists) : Nat := s.ticks % 2 ^ env.longBits

/-! ## Lookup and insertion -/

/-- `af_conn_find` -/
def connFind (s : ConnLists) (t : ConnTuple) : Option ConnNode :=
  (s.table (hash t)).find? (fun n => n.tuple = t)

/-- `af_conn_add` -/
def connAdd (s : ConnLists) (t : ConnTuple) (stale : Bool) : ConnLists :=
  let n : ConnNode := ⟨t, { ignore := stale, lastJiffies := s.jiffies env }, s.ticks⟩
  { s with
    table := Function.update s.table (hash t) (n :: s.table (hash t))
    log := s.log ++ [.added t] }

/-- `af_conn_find_and_add`, for the table. -/
def connFindAndAdd (s : ConnLists) (t : ConnTuple) (alloc : Alloc) : ConnLists :=
  match connFind hash s t with
  | some _ => s
  | none => if alloc.conn then connAdd env hash s t alloc.staleIgnore else s

/-! ## Updates -/

/-- Rewrite the node a lookup of `t` returns. -/
def rewriteFirst (t : ConnTuple) (f : ConnNode → ConnNode) : List ConnNode → List ConnNode
  | [] => []
  | n :: rest => if n.tuple = t then f n :: rest else n :: rewriteFirst t f rest

/-- What the handler does with the connection it has found: it stores other fields,
and stamps the node or leaves its stamp. -/
def connUpdate (s : ConnLists) (t : ConnTuple) (fields : AfConn) (stamp : Bool) : ConnLists :=
  let write (n : ConnNode) : ConnNode :=
    if stamp then { n with conn := { fields with lastJiffies := s.jiffies env }, stamped := s.ticks }
    else { n with conn := { fields with lastJiffies := n.conn.lastJiffies } }
  { s with
    table := Function.update s.table (hash t) (rewriteFirst t write (s.table (hash t))) }

/-! ## Cleaning -/

/-- `time_after(jiffies, conn->last_jiffies + timeout)` -/
def ConnLists.expired (s : ConnLists) (n : ConnNode) : Bool :=
  timeAfter env (s.jiffies env) (n.conn.lastJiffies + afConnTimeout * env.hz)

/-- `hlist_for_each_entry_safe` over one list, with `hlist_del` of the expired
nodes: what stays, and what goes in the order of the loop. -/
def cleanList (s : ConnLists) : List ConnNode → List ConnNode × List ConnLog
  | [] => ([], [])
  | n :: rest =>
      let r := cleanList s rest
      if s.expired env n then (r.1, .removed n.tuple (s.ticks - n.stamped) :: r.2)
      else (n :: r.1, r.2)

def cleanBucket (s : ConnLists) (i : Fin afConnHashSize) : ConnLists :=
  let r := cleanList env s (s.table i)
  { s with table := Function.update s.table i r.1, log := s.log ++ r.2, lastBucket := i.val }

/-- The loop of `af_conn_clean_timeout` from bucket `i` on, `count` buckets in. -/
def cleanFrom (s : ConnLists) (i count : Nat) : ConnLists :=
  if h : i < afConnHashSize then
    let s := cleanBucket env s ⟨i, h⟩
    if count + 1 > maxAfConnCheckCount then s else cleanFrom s (i + 1) (count + 1)
  else s
termination_by afConnHashSize - i

/-- `af_conn_clean_timeout` -/
def connCleanTimeout (s : ConnLists) : ConnLists :=
  let s := cleanFrom env s s.lastBucket 0
  if s.lastBucket = afConnHashSize - 1 then { s with lastBucket := 0 } else s

/-! ## Runs -/

inductive ConnAct where
  | findAndAdd (t : ConnTuple) (alloc : Alloc)
  | update (t : ConnTuple) (fields : AfConn) (stamp : Bool)
  | cleanTimeout
  | pass (ticks : Nat)

def connStep (s : ConnLists) : ConnAct → ConnLists
  | .findAndAdd t alloc => connFindAndAdd env hash s t alloc
  | .update t fields stamp => connUpdate env hash s t fields stamp
  | .cleanTimeout => connCleanTimeout env s
  | .pass ticks => { s with ticks := s.ticks + ticks }

end OpenAppFilter.Kernel
