import OpenAppFilter.Kernel.System
import OpenAppFilter.Kernel.Verdict

/-!
# Enforcement and over-blocking in gateway mode

The verdict of a classified flow is cached in the conntrack mark and compared
with the rule only within 30 seconds of the last configuration message. A
switch write (`enable`, `app_filter_mode`, `user_mode`, `split_time`) opens no
such window, so a cached verdict can disagree with the rule for as long as the
flow lives. Both directions are settled exactly:

* a packet that should be dropped is dropped iff the window is open, the drop
  bit is cached, or the split gate drops it before the mark is read;
* a packet that is dropped matches the rule unless its drop bit is cached and
  the re-evaluation is skipped, either by the all-apps shortcut or because the
  window is closed.
-/

namespace OpenAppFilter.Theorems

open Base Kernel

variable {env : Env}

/-! ## Completeness -/

/-- The handler meets a packet that filtering is meant to drop: a confirmed
connection of a known client, an app id in the mark, the filter on, the device
not let through by the split gate, and a rule that matches now. -/
structure MustDrop (k : OafState env) (skb : Skb) (e : GatewayEntry) : Prop where
  entry : gatewayEntry k skb = some e
  confirmed : e.ct.confirmed = true
  classified : Classified (k.ctMark e.ct.id)
  enabled : k.gOafFilterEnable = 1
  gate : k.gSplitTime = 0 ∨ e.client.periodBlocked = true
  rule : matchAppFilterRule k (markAppId (k.ctMark e.ct.id)).toInt e.mac = true

/-- Every such packet of the event is dropped. -/
def Enforces (k : OafState env) (ev : Event) : Prop :=
  ∀ k' skb e, gatewayCall k ev = some (k', skb) → MustDrop k' skb e →
    (appFilterHookGatewayHandle k' skb).2 = .drop

/-- The cached verdict does not stand in the rule's way: a configuration
message came within the last 30 seconds, the mark says drop already, or the
split gate decides alone. -/
def Enforceable (k : OafState env) (e : GatewayEntry) : Prop :=
  actionWindowOpen k = true ∨ markDrop (k.ctMark e.ct.id) = true ∨
    (k.gSplitTime ≠ 0 ∧ k.gAppFilterMode = 1)

/-- One call: a packet that must be dropped is dropped exactly when the cached
verdict does not stand in the way. -/
theorem drop_iff_enforceable {k : OafState env} {skb : Skb} {e : GatewayEntry}
    (h : MustDrop k skb e) :
    (appFilterHookGatewayHandle k skb).2 = .drop ↔ Enforceable k e := by
  have hen : k.gOafFilterEnable ≠ 0 := by
    rw [h.enabled]
    decide
  rw [gateway_drop_iff h.entry h.classified]
  unfold Enforceable newAction
  rw [h.rule]
  cases hwin : actionWindowOpen k with
  | true =>
      refine ⟨fun _ => Or.inl rfl, fun _ => ⟨hen, h.gate, Or.inr (Or.inr rfl)⟩⟩
  | false =>
      simp only [Bool.false_eq_true, if_false, false_or]
      constructor
      · rintro ⟨-, -, hsplit | ⟨-, hbit⟩ | hbit⟩
        · exact Or.inr hsplit
        · exact Or.inl hbit
        · exact Or.inl hbit
      · rintro (hbit | hsplit)
        · exact ⟨hen, h.gate, Or.inr (Or.inr hbit)⟩
        · exact ⟨hen, h.gate, Or.inl hsplit⟩

/-- Over every run from every state: each packet that must be dropped is
dropped iff each of them meets an open window, a cached drop bit or the
all-apps split gate. -/
theorem enforcement_complete_iff (k : OafState env) (es : List Event) :
    EveryStep step Enforces k es ↔
      EveryStep step (fun k ev => ∀ k' skb e, gatewayCall k ev = some (k', skb) →
        MustDrop k' skb e → Enforceable k' e) k es := by
  apply everyStep_congr
  intro k ev
  constructor
  · intro h k' skb e hcall hmust
    exact (drop_iff_enforceable hmust).mp (h k' skb e hcall hmust)
  · intro h k' skb e hcall hmust
    exact (drop_iff_enforceable hmust).mpr (h k' skb e hcall hmust)

/-- The app is filtered from the start; the flow is classified while the
filter is off, 40 seconds after the message; then the filter is switched on and
the flow goes on. -/
def switchedOnLate : List Event :=
  [.addFeature tcpFeature, .config (some (addAppMsg 1001)), .pass 4000 40,
    .forward (lanTcp phoneMac phoneIp 7), .proc (.enable 1)]

/-- The flow classified before the switch is accepted after it. -/
theorem enforcement_incomplete :
    ¬ EveryStep step Enforces (boot routerEnv 0)
      (switchedOnLate ++ [.forward (lanTcp phoneMac phoneIp 7)]) := by
  intro h
  have hstep := h switchedOnLate (.forward (lanTcp phoneMac phoneIp 7)) [] rfl
  have hdrop := hstep
    (afClientHook (run step (boot routerEnv 0) switchedOnLate) (lanTcp phoneMac phoneIp 7))
    (lanTcp phoneMac phoneIp 7)
    ((gatewayEntry (afClientHook (run step (boot routerEnv 0) switchedOnLate)
      (lanTcp phoneMac phoneIp 7)) (lanTcp phoneMac phoneIp 7)).get (by decide +kernel))
    rfl
    { entry := by simp
      confirmed := by decide +kernel
      classified := by decide +kernel
      enabled := by decide +kernel
      gate := Or.inl (by decide +kernel)
      rule := by decide +kernel }
  exact absurd hdrop (by decide +kernel)

/-! ## Over-blocking -/

/-- The handler meets a packet of a classified flow, with split mode and the
quic block off. -/
structure PlainFlow (k : OafState env) (skb : Skb) (e : GatewayEntry) : Prop where
  entry : gatewayEntry k skb = some e
  classified : Classified (k.ctMark e.ct.id)
  split : k.gSplitTime = 0
  quic : k.gDisableQuic = 0

/-- Whatever the event drops of such a flow, the rule matches, and so it is a
packet of a device that `match_app_filter_user` selects. -/
def DropsOnlyMatches (k : OafState env) (ev : Event) : Prop :=
  ∀ k' skb e, gatewayCall k ev = some (k', skb) → PlainFlow k' skb e →
    (appFilterHookGatewayHandle k' skb).2 = .drop →
      matchAppFilterRule k' (markAppId (k'.ctMark e.ct.id)).toInt e.mac = true ∧
        matchAppFilterUser k' e.mac = true

/-- A drop bit that outlived its rule: the filter is on, the mark says drop,
the rule does not match, and the re-evaluation that would clear the bit is not
reached (all-apps mode) or not made (no recent configuration message). -/
def StaleDrop (k : OafState env) (e : GatewayEntry) : Prop :=
  k.gOafFilterEnable ≠ 0 ∧ markDrop (k.ctMark e.ct.id) = true ∧
    (k.gAppFilterMode ≠ 0 ∨ actionWindowOpen k = false) ∧
    matchAppFilterRule k (markAppId (k.ctMark e.ct.id)).toInt e.mac = false

/-- One call: a drop is justified by the rule unless the drop bit is stale. -/
theorem drop_matches_iff {k : OafState env} {skb : Skb} {e : GatewayEntry}
    (h : PlainFlow k skb e) :
    ((appFilterHookGatewayHandle k skb).2 = .drop →
      matchAppFilterRule k (markAppId (k.ctMark e.ct.id)).toInt e.mac = true) ↔
      ¬ StaleDrop k e := by
  rw [gateway_drop_iff h.entry h.classified]
  unfold StaleDrop newAction
  cases hrule : matchAppFilterRule k (markAppId (k.ctMark e.ct.id)).toInt e.mac with
  | true => simp
  | false =>
      cases hwin : actionWindowOpen k with
      | true =>
          -- re-evaluation clears the bit, so only the shortcut is left
          simp only [if_true, h.split, ne_eq, not_true_eq_false, false_and, Bool.false_eq_true,
            or_false, false_or, true_or, true_and, and_true, imp_false, not_and,
            Bool.true_eq_false]
          exact ⟨fun hno hen hbit hmode => hno hen hmode hbit,
            fun hno hen hmode hbit => hno hen hbit hmode⟩
      | false =>
          -- the cached bit decides, with or without the shortcut
          simp only [Bool.false_eq_true, if_false, h.split, ne_eq, not_true_eq_false, false_and,
            false_or, true_or, true_and, imp_false, not_and, or_true, and_true]
          refine ⟨fun hno hen hbit => hno hen (Or.inr hbit), ?_⟩
          rintro hno hen (⟨-, hbit⟩ | hbit)
          · exact hno hen hbit
          · exact hno hen hbit

/-- Over every run from every state: every drop of a classified flow is
justified by the rule iff no packet meets a stale drop bit. -/
theorem no_over_blocking_iff (k : OafState env) (es : List Event) :
    EveryStep step DropsOnlyMatches k es ↔
      EveryStep step (fun k ev => ∀ k' skb e, gatewayCall k ev = some (k', skb) →
        PlainFlow k' skb e → ¬ StaleDrop k' e) k es := by
  apply everyStep_congr
  intro k ev
  constructor
  · intro h k' skb e hcall hflow
    refine (drop_matches_iff hflow).mp ?_
    intro hdrop
    exact (h k' skb e hcall hflow hdrop).1
  · intro h k' skb e hcall hflow hdrop
    have hrule := (drop_matches_iff hflow).mpr (h k' skb e hcall hflow) hdrop
    exact ⟨hrule, matchAppFilterRule_user hrule⟩

/-- The message that puts one device on the whitelist. -/
def whitelistMsg (mac : CStr) : ConfigMsg :=
  { op := some 5, data := some { macList := some [mac] } }

/-- All apps are blocked and a flow of the phone has been dropped; then the
phone is put on the whitelist and the flow goes on. -/
def exemptedLate : List Event :=
  [.addFeature tcpFeature, .proc (.enable 1), .proc (.appFilterMode 1),
    .forward (lanTcp phoneMac phoneIp 7),
    .config (some (whitelistMsg "02:00:00:00:00:11".toList))]

/-- The exempted phone stays blocked, within the re-evaluation window. -/
theorem exempted_device_still_dropped :
    ¬ EveryStep step DropsOnlyMatches (boot routerEnv 0)
      (exemptedLate ++ [.forward (lanTcp phoneMac phoneIp 7)]) := by
  intro h
  have hstep := h exemptedLate (.forward (lanTcp phoneMac phoneIp 7)) [] rfl
  have hmatch := hstep
    (afClientHook (run step (boot routerEnv 0) exemptedLate) (lanTcp phoneMac phoneIp 7))
    (lanTcp phoneMac phoneIp 7)
    ((gatewayEntry (afClientHook (run step (boot routerEnv 0) exemptedLate)
      (lanTcp phoneMac phoneIp 7)) (lanTcp phoneMac phoneIp 7)).get (by decide +kernel))
    rfl
    { entry := by simp
      classified := by decide +kernel
      split := by decide +kernel
      quic := by decide +kernel }
    (by decide +kernel)
  exact absurd hmatch.2 (by decide +kernel)

end OpenAppFilter.Theorems
