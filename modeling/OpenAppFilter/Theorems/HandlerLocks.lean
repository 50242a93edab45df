import OpenAppFilter.Kernel.Locks
import OpenAppFilter.Kernel.System
import OpenAppFilter.Kernel.Verdict

/-!
# The locks after a packet

The gateway handler closes every section it opens. The bypass handler does not
on one path: the `return` for a connection that could not be added stands between
`spin_lock(&af_conn_lock)` and its `spin_unlock`, a few lines below a sibling that
gives the client lock back first.
-/

namespace OpenAppFilter.Theorems

open Base Kernel Locking

variable {env : Env}

/-! ## The path that keeps a lock -/

/-- The packet passes the entry checks of the bypass handler, its client is in the
table or gets memory, and its connection neither. -/
def ConnRefused (k : OafState env) (skb : Skb) : Prop :=
  ∃ flow, bypassEntry k skb = some flow ∧
    ((k.clients.find? skb.hSource).isSome || skb.alloc.client) = true ∧
      k.conns.find? flow.tuple = none ∧ skb.alloc.conn = false

theorem afConnFindAndAdd_none {k : OafState env} {t : ConnTuple} {alloc : Alloc} :
    afConnFindAndAdd k t alloc = none ↔ k.conns.find? t = none ∧ alloc.conn = false := by
  have hmap := afConnFindAndAdd_map k t alloc
  rw [← Option.map_eq_none_iff (f := Prod.snd), hmap]
  cases k.conns.find? t with
  | some conn => simp
  | none => simp

/-- What is left of the bypass handler: the lock of the connections is taken and
kept on one path. -/
theorem bypassHandleLocking_eq (k : OafState env) (skb : Skb) :
    ¬ ConnRefused k skb ∧ bypassHandleLocking k skb = pure (appFilterHookBypassHandle k skb) ∨
      ConnRefused k skb ∧
        bypassHandleLocking k skb = (do acquire .conn; pure (appFilterHookBypassHandle k skb)) := by
  unfold ConnRefused bypassHandleLocking appFilterHookBypassHandle
  cases hentry : bypassEntry k skb with
  | none => exact .inl ⟨by simp, rfl⟩
  | some flow =>
      have hconns := (findAndAddAfClient_conns k skb.hSource skb.alloc.client).1
      have hfound := findAndAddAfClient_snd k skb.hSource skb.alloc.client
      dsimp only
      cases hclient : findAndAddAfClient k skb.hSource skb.alloc.client with
      | mk k' found =>
          rw [hclient] at hconns hfound
          rw [← hfound]
          cases found with
          | false => exact .inl ⟨by simp, acquire_release _ _⟩
          | true =>
              dsimp only
              rw [acquire_release]
              cases hconn : afConnFindAndAdd _ flow.tuple skb.alloc with
              | none =>
                  -- the client step has not touched the connections
                  obtain ⟨hfind, halloc⟩ := afConnFindAndAdd_none.mp hconn
                  refine .inr ⟨⟨flow, rfl, rfl, ?_, halloc⟩, rfl⟩
                  rw [← hconns]
                  exact hfind
              | some added =>
                  refine .inl ⟨?_, ?_⟩
                  · rintro ⟨flow', hflow, -, hfind, halloc⟩
                    obtain rfl := Option.some.inj hflow
                    rw [← hconns] at hfind
                    exact absurd (hconn.symm.trans (afConnFindAndAdd_none.mpr ⟨hfind, halloc⟩))
                      (Option.some_ne_none _)
                  · dsimp only
                    rw [acquire_release]
                    exact bypassFlowLocking_eq _ skb flow flow.tuple _

/-! ## Both handlers -/

/-- **The handlers return with the locks they were entered with**, for every
packet, every state and every outcome of the allocations, iff the bypass handler
is not refused a new connection. -/
theorem handlers_keep_locks_iff (k : OafState env) (skb : Skb) :
    Keeps (bypassHandleLocking k skb) ∧ Keeps (gatewayHandleLocking k skb) ↔ ¬ ConnRefused k skb := by
  have hgateway : Keeps (gatewayHandleLocking k skb) := by
    rw [gatewayHandleLocking_eq]
    exact keeps_pure _
  rw [and_iff_left hgateway]
  obtain ⟨hfree, hpure⟩ | ⟨hrefused, hkept⟩ := bypassHandleLocking_eq k skb
  · rw [hpure]
    exact ⟨fun _ => hfree, fun _ => keeps_pure _⟩
  · rw [hkept]
    exact ⟨fun hkeeps => absurd hkeeps (not_keeps_acquire (keeps_pure _)), fun h => absurd hrefused h⟩

/-- A router in bypass mode with the address 192.168.1.1/24. -/
def bypassRouter : OafState routerEnv :=
  { boot routerEnv 0 with afWorkMode := afModeBypass, afLanIp := 0x0101a8c0#32, afLanMask := 0x00ffffff#32 }

/-- The first packet of a connection, with memory for the client and none for the
connection. -/
def refusedSkb : Skb := { lanTcp phoneMac phoneIp 1 with alloc := { conn := false } }

/-- `af_conn_lock` stays taken. -/
theorem conn_lock_kept :
    ((bypassHandleLocking bypassRouter refusedSkb).run (fun _ => 0)).map (fun r => r.2 .conn) = some 1 ∧
      ¬ Keeps (bypassHandleLocking bypassRouter refusedSkb) := by
  have hone : ((bypassHandleLocking bypassRouter refusedSkb).run (fun _ => 0)).map (fun r => r.2 .conn) =
      some 1 := by decide
  refine ⟨hone, fun hkeeps => ?_⟩
  have hheld := congrArg (Option.map (fun held => held HookLock.conn)) (hkeeps (fun _ => 0))
  rw [Option.map_map] at hheld
  exact absurd (hone.symm.trans hheld) (by decide)

end OpenAppFilter.Theorems
