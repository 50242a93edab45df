import OpenAppFilter.Kernel.State

/-!
# Bypass connection table (`af_conntrack.c`)

The bypass handler runs before conntrack does and keeps its own connections,
keyed by the 5-tuple of the packet that opened them.
-/

namespace OpenAppFilter.Kernel

open Base

variable {env : Env}

/-- The connection `af_conn_add` fills in. It does not write `ignore`, which
keeps the byte of the fresh block. -/
def newConn (k : OafState env) (stale : Bool) : AfConn :=
  { ignore := stale, lastJiffies := k.jiffiesWord }

/-- `af_conn_find_and_add`; `none` when the allocation fails. -/
def afConnFindAndAdd (k : OafState env) (t : ConnTuple) (alloc : Alloc) :
    Option (OafState env × AfConn) :=
  match h : k.conns.find? t with
  | some conn => some (k, conn)
  | none =>
      if alloc.conn then
        let conn := newConn k alloc.staleIgnore
        some ({ k with conns := k.conns.add t conn h }, conn)
      else none

/-- Store a connection's fields back. -/
def OafState.putConn (k : OafState env) (t : ConnTuple) (conn : AfConn) : OafState env :=
  { k with conns := k.conns.modify t (fun _ => conn) }

/-- `time_after(a, b)`. -/
def timeAfter (env : Env) (a b : Nat) : Bool :=
  decide ((BitVec.ofNat env.longBits b - BitVec.ofNat env.longBits a).toInt < 0)

/-- `af_conn_clean_timeout`: one call looks at up to six buckets, from the
bucket the last call ended in. -/
def afConnCleanTimeout (k : OafState env) : OafState env :=
  let last : Nat := min (k.connLastBucket + maxAfConnCheckCount) (afConnHashSize - 1)
  let expired (t : ConnTuple) (conn : AfConn) : Bool :=
    k.connLastBucket.val ≤ (afConnHash env t).val && (afConnHash env t).val ≤ last &&
      timeAfter env k.jiffies (conn.lastJiffies + afConnTimeout * env.hz)
  { k with
    conns := k.conns.filter (fun t conn => !expired t conn)
    connLastBucket :=
      if h : last < afConnHashSize - 1 then ⟨last, Nat.lt_of_lt_pred h⟩
      else ⟨0, afConnHashSize_pos⟩ }

/-! ## What a lookup finds afterwards -/

/-- After `af_conn_find_and_add` the connection it returned is in the table,
and nothing but the table has changed. -/
theorem afConnFindAndAdd_some {k k' : OafState env} {t : ConnTuple} {alloc : Alloc}
    {conn : AfConn} (h : afConnFindAndAdd k t alloc = some (k', conn)) :
    k'.conns.find? t = some conn ∧ k' = { k with conns := k'.conns } := by
  unfold afConnFindAndAdd at h
  split at h
  · rename_i c hfind
    obtain ⟨rfl, rfl⟩ := Prod.mk.inj (Option.some.inj h)
    exact ⟨hfind, rfl⟩
  · rename_i hfind
    split at h
    · obtain ⟨rfl, rfl⟩ := Prod.mk.inj (Option.some.inj h)
      refine ⟨?_, rfl⟩
      show (k.conns.add t _ hfind).find? t = some _
      rw [HTable.find?_add, if_pos rfl]
    · exact absurd h (by simp)

/-- A connection that `af_conn_clean_timeout` leaves in the table is unchanged. -/
theorem afConnCleanTimeout_find? {k : OafState env} {t : ConnTuple} {conn : AfConn}
    (h : (afConnCleanTimeout k).conns.find? t = some conn) : k.conns.find? t = some conn := by
  simp only [afConnCleanTimeout] at h
  exact HTable.find?_of_filter h

end OpenAppFilter.Kernel
