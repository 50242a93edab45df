import OpenAppFilter.Base.Clock
import OpenAppFilter.Kernel.System

/-!
# Client expiry

`check_client_expire` compares `jiffies` with `update_jiffies` plus 90 seconds as
numbers. While one of the two has wrapped and the other has not, a client that was
just seen counts as too old, and one that is long gone counts as fresh
(`checkClientExpire_judges`). The table of bypass connections asks `time_after`.

A client that is misjudged does no harm behind one that is rightly removed: one
call removes one client.
-/

namespace OpenAppFilter.Theorems

open Base Kernel

variable {env : Env}

/-! ## Idle clients -/

/-- The 90 seconds, in ticks. -/
def activeTicks (env : Env) : Nat := maxClientActiveTime * env.hz

/-- The client has been idle for more than 90 seconds. -/
def ClientIdle (k : OafState env) (c : AfClientInfo) : Prop :=
  activeTicks env < elapsed env.longBits k.jiffiesWord c.updateJiffies

instance (k : OafState env) (c : AfClientInfo) : Decidable (ClientIdle k c) :=
  inferInstanceAs (Decidable (_ < _))

/-- The first idle client in table order is removed, and nothing else changes. -/
def ExpiresFirstIdle (k : OafState env) : Prop :=
  match k.clients.first? (fun _ c => decide (ClientIdle k c)) with
  | some (mac, _) => checkClientExpire k = { k with clients := k.clients.erase mac }
  | none => checkClientExpire k = k

/-! ## The condition -/

/-- Exactly one of `jiffies` and the deadline of the client has wrapped since the
client was seen. -/
def DeadlineAcrossWrap (k : OafState env) (c : AfClientInfo) : Prop :=
  WrapBetween env.longBits k.jiffiesWord c.updateJiffies (activeTicks env)

/-- Every client with such a deadline stands behind an idle one without. -/
def WrapsHarmless (k : OafState env) : Prop :=
  ∀ pre e post, k.clients.entries = pre ++ e :: post → DeadlineAcrossWrap k e.2 →
    ∃ e' ∈ pre, ClientIdle k e'.2 ∧ ¬ DeadlineAcrossWrap k e'.2

/-- The test of the loop. -/
def testsExpired (k : OafState env) (c : AfClientInfo) : Bool :=
  decide (k.jiffiesWord > (c.updateJiffies + activeTicks env) % 2 ^ env.longBits)

theorem checkClientExpire_eq (k : OafState env) :
    checkClientExpire k =
      match k.clients.first? (fun _ c => testsExpired k c) with
      | some (mac, _) => { k with clients := k.clients.erase mac }
      | none => k := rfl

/-- The test is right iff no wrap comes between. -/
theorem checkClientExpire_judges {k : OafState env} {c : AfClientInfo}
    (hword : c.updateJiffies < 2 ^ env.longBits) (hticks : activeTicks env < 2 ^ env.longBits) :
    testsExpired k c = decide (ClientIdle k c) ↔ ¬ DeadlineAcrossWrap k c := by
  rw [testsExpired, decide_eq_decide]
  exact deadline_passed_iff (Nat.mod_lt _ (Nat.two_pow_pos _)) hword hticks

/-- What the loop removes is what it should iff it finds the same client. -/
theorem expiresFirstIdle_iff {k : OafState env} :
    ExpiresFirstIdle k ↔
      k.clients.first? (fun _ c => testsExpired k c) =
        k.clients.first? (fun _ c => decide (ClientIdle k c)) := by
  unfold ExpiresFirstIdle
  rw [checkClientExpire_eq]
  have hmem : ∀ {p : Mac → AfClientInfo → Bool} {e}, k.clients.first? p = some e → e ∈ k.clients.entries :=
    fun h => List.mem_of_find?_eq_some h
  cases htest : k.clients.first? (fun _ c => testsExpired k c) with
  | none =>
      cases hidle : k.clients.first? (fun _ c => decide (ClientIdle k c)) with
      | none => exact iff_of_true rfl rfl
      | some e =>
          -- the idle client is overlooked
          refine iff_of_false (fun h => ?_) (Option.some_ne_none e).symm
          exact HTable.erase_ne_self (hmem hidle) (congrArg OafState.clients h).symm
  | some e =>
      cases hidle : k.clients.first? (fun _ c => decide (ClientIdle k c)) with
      | none =>
          -- a client goes that is not idle
          refine iff_of_false (fun h => ?_) (Option.some_ne_none e)
          exact HTable.erase_ne_self (hmem htest) (congrArg OafState.clients h)
      | some e' =>
          constructor
          · intro h
            have hkey : e.1 = e'.1 := HTable.erase_key_inj (hmem htest) (congrArg OafState.clients h)
            rw [List.inj_on_of_nodup_map (HTable.nodup_keys _) (hmem htest) (hmem hidle) hkey]
          · intro h
            rw [Option.some.inj h]

/-! ## Main result -/

/-- **Client expiry follows real idle time** iff every client whose deadline and
`jiffies` are on different sides of the wrap stands, in table order, behind a client
that is idle and is none of these. The times are machine words, and less than half
their range has passed for each client. -/
theorem client_expiry_iff (k : OafState env)
    (hwords : ∀ e ∈ k.clients.entries, e.2.updateJiffies < 2 ^ env.longBits)
    (hticks : activeTicks env < 2 ^ env.longBits) : ExpiresFirstIdle k ↔ WrapsHarmless k := by
  rw [expiresFirstIdle_iff, HTable.first?_eq_first?_iff]
  unfold WrapsHarmless
  refine forall₄_congr (fun pre e post heq => ?_)
  have hjudge : ∀ e' ∈ k.clients.entries,
      testsExpired k e'.2 = decide (ClientIdle k e'.2) ↔ ¬ DeadlineAcrossWrap k e'.2 :=
    fun e' he' => checkClientExpire_judges (hwords e' he') hticks
  have hhere : e ∈ k.clients.entries := by simp [heq]
  -- the two tests disagree about a client iff its deadline lies across the wrap
  refine imp_congr ((not_congr (hjudge e hhere)).trans not_not) ?_
  refine exists_congr (fun e' => and_congr_right (fun he' => ?_))
  have hbefore : e' ∈ k.clients.entries := by simp [heq, he']
  rw [← hjudge e' hbefore, decide_eq_true_eq]
  constructor
  · rintro ⟨htest, hidle⟩
    exact ⟨hidle, by rw [htest, decide_eq_true hidle]⟩
  · rintro ⟨hidle, hsame⟩
    exact ⟨by rw [hsame, decide_eq_true hidle], hidle⟩

/-- A box with HZ 100 on 32 bits. -/
def smallRouterEnv : Env := { routerEnv with longBits := 32 }

/-- The phone and the tablet, seen at these times. -/
def seenAt (jiffies phone tablet : Nat) : OafState smallRouterEnv :=
  let k := boot smallRouterEnv jiffies
  { k with clients := ((HTable.empty.addNew tabletMac { createJiffies := 0, updateJiffies := tablet }).addNew
      phoneMac { createJiffies := 0, updateJiffies := phone }) }

/-- The phone was seen 91 seconds ago, before the wrap, and the tablet 0.1 seconds
ago, after it. -/
theorem client_expiry_over_wrap :
    ExpiresFirstIdle (seenAt (2 ^ 32 + 8600) (2 ^ 32 - 500) 8590) ↔
      WrapsHarmless (seenAt (2 ^ 32 + 8600) (2 ^ 32 - 500) 8590) :=
  client_expiry_iff _ (by decide) (by decide)

/-- Both were seen half a second ago, and one of them is removed. -/
theorem fresh_client_expired : ¬ ExpiresFirstIdle (seenAt (2 ^ 32 - 50) (2 ^ 32 - 100) (2 ^ 32 - 100)) := by
  have hnone : (seenAt (2 ^ 32 - 50) (2 ^ 32 - 100) (2 ^ 32 - 100)).clients.first?
      (fun _ c => decide (ClientIdle (seenAt (2 ^ 32 - 50) (2 ^ 32 - 100) (2 ^ 32 - 100)) c)) = none :=
    Option.isNone_iff_eq_none.mp (by decide)
  intro hright
  rw [ExpiresFirstIdle, hnone] at hright
  have hcount := congrArg (fun k => k.clients.entries.length) hright
  exact absurd hcount (by decide)

end OpenAppFilter.Theorems
