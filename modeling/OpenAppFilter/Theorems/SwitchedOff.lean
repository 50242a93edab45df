import OpenAppFilter.Kernel.Verdict

/-!
# Dropping with the filter switched off

With `enable = 0` the gateway handler drops nothing: each of its drop exits
asks for the switch. The bypass handler asks for it only at its last exit; its
all-apps shortcut and its two quic exits do not, and these are exactly the
drops that survive switching the filter off.
-/

namespace OpenAppFilter.Theorems

open Base Kernel

variable {env : Env}

/-! ## Gateway: every drop exit is guarded -/

theorem gatewayMatched_off {k : OafState env} (hoff : k.gOafFilterEnable = 0) (flow : FlowInfo)
    (mac : Mac) (ct : Nat) (splitSkip : Bool) :
    (gatewayMatched k flow mac ct splitSkip).2 = .accept := by
  simp [gatewayMatched, hoff]

theorem gatewayInspect_off {k : OafState env} (hoff : k.gOafFilterEnable = 0) (flow : FlowInfo)
    (mac : Mac) (ct : Nat) (splitSkip : Bool) :
    (gatewayInspect k flow mac ct splitSkip).2 = .accept := by
  unfold gatewayInspect
  dsimp only
  split
  · rfl
  · exact gatewayMatched_off (by exact hoff) _ _ _ _

theorem gatewayDpi_off {k : OafState env} (hoff : k.gOafFilterEnable = 0) (skb : Skb)
    (flow : FlowInfo) (mac : Mac) (ct : CtRef) (splitSkip : Bool) :
    (gatewayDpi k skb flow mac ct splitSkip).2 = .accept := by
  unfold gatewayDpi
  cases ct.acct with
  | none => rfl
  | some totalPackets =>
      dsimp only
      rw [if_neg (show ¬ (k.gOafFilterEnable ≠ 0 ∧ _) from fun h => h.1 hoff)]
      split
      · rfl
      · split
        · rfl
        · exact gatewayInspect_off hoff _ _ _ _

theorem gateway_off {k : OafState env} (hoff : k.gOafFilterEnable = 0) (skb : Skb) :
    (appFilterHookGatewayHandle k skb).2 = .accept := by
  have hflow : ∀ (k : OafState env) e b, k.gOafFilterEnable = 0 →
      (gatewayFlow k skb e b).2 = .accept := by
    intro k e b hoff
    unfold gatewayFlow
    dsimp only
    rw [if_neg (show ¬ (k.gOafFilterEnable ≠ 0 ∧ k.gDisableQuic ≠ 0 ∧ _) from
        fun h => h.1 hoff),
      if_neg (show ¬ (k.gOafFilterEnable ≠ 0 ∧ k.gAppFilterMode ≠ 0 ∧ _) from
        fun h => h.1 hoff)]
    split
    · exact gatewayDpi_off hoff _ _ _ _ _
    · split
      · simp [gatewayClassified, apply_ite OafState.gOafFilterEnable, hoff]
      · exact gatewayDpi_off hoff _ _ _ _ _
  unfold appFilterHookGatewayHandle
  cases gatewayEntry k skb with
  | none => rfl
  | some e => simp [hoff, hflow]

/-! ## Bypass: the exits that ignore the switch -/

/-- The packet takes one of the three exits of the bypass handler that do not
ask for the switch: the all-apps shortcut on a stored drop flag, the stored
verdict of a quic connection, or the quic block of a new connection. -/
def StrayDrop (k : OafState env) (skb : Skb) : Prop :=
  ∃ flow conn, bypassEntry k skb = some flow ∧ bypassConnOf k skb flow = some conn ∧
    ((conn.drop = true ∧ k.gAppFilterMode ≠ 0) ∨
      (k.gDisableQuic ≠ 0 ∧ conn.drop = true ∧ conn.appId = appidQuic) ∨
      (k.gDisableQuic ≠ 0 ∧ conn.appId = 0 ∧
        ¬ (k.gByPassAccl ≠ 0 ∧ conn.totalPkts + 1 > 256#32) ∧ afMatchQuic flow = true ∧
        matchAppFilterUser k skb.hSource = true))

theorem bypassFinish_off {k : OafState env} (hoff : k.gOafFilterEnable = 0) (mac : Mac)
    (ignore : Bool) (appId : BitVec 32) (drop : Bool) :
    (bypassFinish k mac ignore appId drop).2 = .accept := by
  simp [bypassFinish, hoff]

theorem bypassInspect_off {k : OafState env} (hoff : k.gOafFilterEnable = 0) (flow : FlowInfo)
    (mac : Mac) (t : ConnTuple) (conn : AfConn) :
    (bypassInspect k flow mac t conn).2 = .accept := by
  unfold bypassInspect
  dsimp only
  split
  · rfl
  · unfold bypassMatched
    exact bypassFinish_off (by exact hoff) _ _ _ _

/-- The inspection of a connection with the filter off drops only by the quic
block. -/
theorem bypassDpi_off_iff {k : OafState env} (hoff : k.gOafFilterEnable = 0) (skb : Skb)
    (flow : FlowInfo) (t : ConnTuple) (conn : AfConn) :
    (bypassDpi k skb flow t conn).2 = .drop ↔
      ¬ (k.gByPassAccl ≠ 0 ∧ conn.totalPkts > 256#32) ∧ k.gDisableQuic ≠ 0 ∧
        afMatchQuic flow = true ∧ matchAppFilterUser k skb.hSource = true := by
  unfold bypassDpi
  by_cases haccl : k.gByPassAccl ≠ 0 ∧ conn.totalPkts > 256#32
  · rw [if_pos haccl]
    exact ⟨fun h => absurd h (by simp), fun h => absurd haccl h.1⟩
  · rw [if_neg haccl]
    by_cases hquic : k.gDisableQuic ≠ 0 ∧ afMatchQuic flow = true ∧
        matchAppFilterUser k skb.hSource = true
    · rw [if_pos hquic]
      exact ⟨fun _ => ⟨haccl, hquic⟩, fun _ => rfl⟩
    · rw [if_neg hquic]
      refine ⟨fun h => ?_, fun h => absurd h.2 hquic⟩
      split at h
      · exact absurd h (by simp)
      · rw [bypassInspect_off hoff] at h
        exact absurd h (by decide)

/-- The bypass handler on a connection, with the filter off. -/
theorem bypassFlow_off_iff {k : OafState env} (hoff : k.gOafFilterEnable = 0) (skb : Skb)
    (flow : FlowInfo) (t : ConnTuple) (conn : AfConn) :
    (bypassFlow k skb flow t conn).2 = .drop ↔
      (conn.drop = true ∧ k.gAppFilterMode ≠ 0) ∨
        (k.gDisableQuic ≠ 0 ∧ conn.drop = true ∧ conn.appId = appidQuic) ∨
        (k.gDisableQuic ≠ 0 ∧ conn.appId = 0 ∧
          ¬ (k.gByPassAccl ≠ 0 ∧ conn.totalPkts > 256#32) ∧ afMatchQuic flow = true ∧
          matchAppFilterUser k skb.hSource = true) := by
  have hne : appidQuic ≠ 0 := by decide
  unfold bypassFlow
  by_cases hall : conn.drop = true ∧ k.gAppFilterMode ≠ 0
  · rw [if_pos hall]
    exact ⟨fun _ => Or.inl hall, fun _ => rfl⟩
  · rw [if_neg hall]
    by_cases hid : conn.appId ≠ 0
    · -- a stored app id: only the quic verdict is left
      rw [if_pos hid]
      unfold bypassClassified
      by_cases hquic : k.gDisableQuic ≠ 0 ∧ conn.drop = true ∧ conn.appId = appidQuic
      · rw [if_pos hquic]
        exact ⟨fun _ => Or.inr (Or.inl hquic), fun _ => rfl⟩
      · rw [if_neg hquic, bypassFinish_off hoff]
        refine ⟨fun h => absurd h (by decide), ?_⟩
        rintro (h | h | h)
        · exact absurd h hall
        · exact absurd h hquic
        · exact absurd h.2.1 hid
    · -- no app id yet: the quic block
      rw [if_neg hid, bypassDpi_off_iff hoff]
      have hid0 : conn.appId = 0 := not_not.mp hid
      constructor
      · rintro ⟨haccl, hq, hrest⟩
        exact Or.inr (Or.inr ⟨hq, hid0, haccl, hrest⟩)
      · rintro (h | h | h)
        · exact absurd h hall
        · exact absurd (h.2.2.symm.trans hid0) hne
        · exact ⟨h.2.2.1, h.1, h.2.2.2⟩

/-- With the filter off the bypass handler drops exactly the stray packets. -/
theorem bypass_off_iff {k : OafState env} (hoff : k.gOafFilterEnable = 0) (skb : Skb) :
    (appFilterHookBypassHandle k skb).2 = .drop ↔ StrayDrop k skb := by
  unfold StrayDrop
  cases he : bypassEntry k skb with
  | none =>
      have hacc : (appFilterHookBypassHandle k skb).2 = .accept := by
        unfold appFilterHookBypassHandle
        rw [he]
      rw [hacc]
      exact ⟨fun h => absurd h (by decide), fun ⟨_, _, h, _⟩ => absurd h (by simp)⟩
  | some flow =>
      obtain ⟨hnone, hsome⟩ := bypass_eq he
      cases hconn : bypassConnOf k skb flow with
      | none =>
          rw [hnone hconn]
          refine ⟨fun h => absurd h (by decide), ?_⟩
          rintro ⟨flow', conn, hf, hc, -⟩
          obtain rfl := Option.some.inj hf
          rw [hconn] at hc
          exact absurd hc (by simp)
      | some conn =>
          obtain ⟨k', hq, -, -, heq⟩ := hsome conn hconn
          rw [heq, bypassFlow_off_iff (hq.enable.trans hoff), hq.mode, hq.quic, hq.accl,
            hq.user]
          constructor
          · intro h
            exact ⟨flow, conn, rfl, hconn, h⟩
          · rintro ⟨flow', conn', hf, hc, h⟩
            obtain rfl := Option.some.inj hf
            rw [hconn] at hc
            obtain rfl := Option.some.inj hc
            exact h

/-- In every state a run leads to, with the filter switched off: a packet is
dropped by neither handler iff it is not a stray one. -/
theorem switched_off_accepts_iff (k : OafState env) (es : List Event) (skb : Skb)
    (hoff : (run step k es).gOafFilterEnable = 0) :
    ((appFilterHookGatewayHandle (run step k es) skb).2 ≠ .drop ∧
      (appFilterHookBypassHandle (run step k es) skb).2 ≠ .drop) ↔
      ¬ StrayDrop (run step k es) skb := by
  have hgw : (appFilterHookGatewayHandle (run step k es) skb).2 ≠ .drop := by
    rw [gateway_off hoff]
    decide
  rw [ne_eq, ne_eq, bypass_off_iff hoff]
  exact ⟨fun h => h.2, fun h => ⟨hgw, h⟩⟩

/-- Bypass mode with all apps blocked; one packet has been dropped, then the
filter is switched off. -/
def switchedOffLate : List Event :=
  [.proc (.workMode 1), .proc (.lanIp 0x0101a8c0#32), .proc (.lanMask 0x00ffffff#32),
    .addFeature tcpFeature, .proc (.appFilterMode 1), .proc (.enable 1),
    .preRouting (lanTcp phoneMac phoneIp 7), .proc (.enable 0)]

theorem switched_off_accepts_other_device :
    (run step (boot routerEnv 0) switchedOffLate).gOafFilterEnable = 0 ∧
      (appFilterHookBypassHandle (run step (boot routerEnv 0) switchedOffLate)
        (lanTcp tabletMac [192, 168, 1, 3] 8)).2 ≠ .drop := by
  have hoff : (run step (boot routerEnv 0) switchedOffLate).gOafFilterEnable = 0 := by
    decide +kernel
  refine ⟨hoff, ((switched_off_accepts_iff (boot routerEnv 0) switchedOffLate
    (lanTcp tabletMac [192, 168, 1, 3] 8) hoff).mpr ?_).2⟩
  rw [← bypass_off_iff hoff]
  decide +kernel

/-- The connection dropped before the switch is still dropped after it. -/
theorem switched_off_still_drops :
    (run step (boot routerEnv 0) switchedOffLate).gOafFilterEnable = 0 ∧
      (appFilterHookBypassHandle (run step (boot routerEnv 0) switchedOffLate)
        (lanTcp phoneMac phoneIp 7)).2 = .drop := by
  decide +kernel

end OpenAppFilter.Theorems
