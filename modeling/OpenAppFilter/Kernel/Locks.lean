import OpenAppFilter.Base.Lock
import OpenAppFilter.Kernel.Hook

/-!
# The packet handlers and their locks (`app_filter.c`)

The two handlers and what they call, with the locks of the connections, the
clients and the features as the source takes and gives them back. A part of a
handler that takes no lock is the function of `Hook` itself.

Each function is followed down to the `pure` program that is left when the
sections that are closed drop out; `gatewayHandleLocking_eq` does it for the whole
gateway handler. The locks of the rule and mac tables are taken and given back
inside their lookups; they are not among the three.
-/

namespace OpenAppFilter.Kernel

open Base Locking

variable {env : Env}

/-- `af_conn_lock`, `af_client_lock` for reading and for writing, and
`af_feature_lock` for reading. -/
inductive HookLock where
  | conn
  | clientRead
  | clientWrite
  | featureRead
  deriving DecidableEq, Repr

/-! ## Called by both -/

/-- `match_feature`. -/
def matchFeatureLocking (k : OafState env) (flow : FlowInfo) : Locking HookLock (FlowInfo × Bool) := do
  acquire .featureRead
  match k.afFeatureHead.find? (afMatchOne env flow) with
  | some node => do
      release .featureRead
      pure ({ flow with appId := node.appId, feature := some node }, true)
  | none => do
      release .featureRead
      pure (flow, false)

/-- The record update of the gateway handler. -/
def recordVisitLocking (k : OafState env) (mac : Mac) (ignore : Bool) (appId : BitVec 32)
    (drop : Bool) : Locking HookLock (OafState env) :=
  if k.gOafRecordEnable ≠ 0 then do
    acquire .clientWrite
    let k := if ignore = false then k.updateClient mac (afUpdateClientAppInfo k.timestamp appId drop) else k
    release .clientWrite
    pure k
  else pure k

theorem matchFeatureLocking_eq (k : OafState env) (flow : FlowInfo) :
    matchFeatureLocking k flow = pure (matchFeature k flow) := by
  unfold matchFeatureLocking matchFeature
  cases k.afFeatureHead.find? (afMatchOne env flow) with
  | some node => exact acquire_release _ _
  | none => exact acquire_release _ _

theorem recordVisitLocking_eq (k : OafState env) (mac : Mac) (ignore : Bool) (appId : BitVec 32)
    (drop : Bool) : recordVisitLocking k mac ignore appId drop = pure (recordVisit k mac ignore appId drop) := by
  unfold recordVisitLocking recordVisit
  by_cases hrecord : k.gOafRecordEnable ≠ 0
  · rw [if_pos hrecord, if_congr (and_iff_right hrecord) rfl rfl]
    exact acquire_release _ _
  · rw [if_neg hrecord, if_neg (fun h => hrecord h.1)]

/-! ## Gateway handler -/

/-- The branch of a classified flow. -/
def gatewayClassifiedLocking (k : OafState env) (mac : Mac) (ct : Nat) :
    Locking HookLock (OafState env × Verdict) := do
  let mark := k.ctMark ct
  let ctAction := markDrop mark
  let changed := checkAppActionChanged k ctAction (markAppId mark) mac
  let k := if changed then k.setMark ct (setMarkDrop mark (!ctAction)) else k
  let ctAction := if changed then !ctAction else ctAction
  let k ← recordVisitLocking k mac (markIgnore mark) (markAppId mark) ctAction
  pure (k, if k.gOafFilterEnable ≠ 0 ∧ ctAction = true then .drop else .accept)

/-- The end of the inspection. -/
def gatewayMatchedLocking (k : OafState env) (flow : FlowInfo) (mac : Mac) (ct : Nat)
    (splitSkip : Bool) : Locking HookLock (OafState env × Verdict) :=
  let ignored := flow.feature.any (·.ignore)
  let mark := k.ctMark ct &&& 0xffff0000#32 ||| flow.appId &&& 0xffff#32
  let mark := if ignored then mark ||| nfIgnoreBit else mark
  if k.gOafFilterEnable ≠ 0 ∧ splitSkip = true ∧ k.gAppFilterMode ≠ 0 then
    pure (k.setMark ct mark, .accept)
  else do
    let drop := decide (k.gOafFilterEnable ≠ 0) && matchAppFilterRule k flow.appId.toInt mac
    let mark := if drop then mark ||| nfDropBit else mark
    let k ← recordVisitLocking (k.setMark ct mark) mac (flow.ignore || ignored) flow.appId drop
    pure (k, if drop then .drop else .accept)

/-- The inspection. -/
def gatewayInspectLocking (k : OafState env) (flow : FlowInfo) (mac : Mac) (ct : Nat)
    (splitSkip : Bool) : Locking HookLock (OafState env × Verdict) := do
  let flow := dpiMain flow
  let k := (k.updateClient mac (updateUrlVisitingInfo k.timestamp flow)).setMark ct
    (setMarkHello (k.ctMark ct) flow.clientHello)
  let r ← matchFeatureLocking k flow
  if r.2 = false ∧ k.gAppFilterMode = 0 then pure (k, .accept)
  else gatewayMatchedLocking k r.1 mac ct splitSkip

/-- The handler for a flow without an app id. -/
def gatewayDpiLocking (k : OafState env) (skb : Skb) (flow : FlowInfo) (mac : Mac) (ct : CtRef)
    (splitSkip : Bool) : Locking HookLock (OafState env × Verdict) :=
  match ct.acct with
  | none => pure (k, .accept)
  | some totalPackets =>
      if totalPackets > maxDpiPktNum then pure (k, .accept)
      else if k.gOafFilterEnable ≠ 0 ∧ k.gDisableQuic ≠ 0 ∧ afMatchQuic flow = true ∧
          matchAppFilterUser k mac = true then
        pure (k.setMark ct.id
          ((k.ctMark ct.id &&& 0xffff0000#32 ||| appidQuic &&& 0xffff#32) ||| nfDropBit), .drop)
      else
        match flowData skb flow with
        | none => pure (k, .accept)
        | some flow => gatewayInspectLocking k flow mac ct.id splitSkip

/-- The handler after the split gate. -/
def gatewayFlowLocking (k : OafState env) (skb : Skb) (e : GatewayEntry) (splitSkip : Bool) :
    Locking HookLock (OafState env × Verdict) :=
  let mark := k.ctMark e.ct.id
  if mark = 0 then gatewayDpiLocking k skb e.flow e.mac e.ct splitSkip
  else if k.gOafFilterEnable ≠ 0 ∧ k.gDisableQuic ≠ 0 ∧ markAppId mark = appidQuic ∧
      markDrop mark = true then pure (k, .drop)
  else if k.gOafFilterEnable ≠ 0 ∧ k.gAppFilterMode ≠ 0 ∧ markDrop mark = true then pure (k, .drop)
  else if 1000#32 < markAppId mark ∧ markAppId mark < 32000#32 then
    gatewayClassifiedLocking k e.mac e.ct.id
  else
    gatewayDpiLocking k skb { e.flow with
      ignore := markIgnore mark
      clientHello := decide (mark &&& nfClientHelloBit ≠ 0) } e.mac e.ct splitSkip

/-- `app_filter_hook_gateway_handle`. -/
def gatewayHandleLocking (k : OafState env) (skb : Skb) : Locking HookLock (OafState env × Verdict) :=
  if !strstr skb.devName k.gLanIfname then pure (k, .accept)
  else
    match parseFlowProto skb, skb.ct with
    | some flow, some ct =>
        if flow.l4Protocol = ipprotoTcp ∧ ct.confirmed = false then pure (k, .accept)
        else do
          acquire .clientRead
          match gatewayClient k flow with
          | none => do
              release .clientRead
              pure (k, .accept)
          | some (mac, client) => do
              let k := k.updateClient mac (fun c => { c with updateJiffies := k.jiffiesWord })
              let splitActive := decide (k.gSplitTime ≠ 0) && decide (k.gOafFilterEnable ≠ 0)
              let splitBlocked := splitActive && client.periodBlocked
              release .clientRead
              if splitActive && splitBlocked && decide (k.gAppFilterMode = 1) then pure (k, .drop)
              else if splitActive && !splitBlocked then pure (k, .accept)
              else gatewayFlowLocking k skb ⟨flow, ct, mac, client⟩ (splitActive && !splitBlocked)
    | _, _ => pure (k, .accept)

theorem gatewayClassifiedLocking_eq (k : OafState env) (mac : Mac) (ct : Nat) :
    gatewayClassifiedLocking k mac ct = pure (gatewayClassified k mac ct) := by
  unfold gatewayClassifiedLocking gatewayClassified
  simp only [recordVisitLocking_eq, pure_bind]

theorem gatewayMatchedLocking_eq (k : OafState env) (flow : FlowInfo) (mac : Mac) (ct : Nat)
    (splitSkip : Bool) :
    gatewayMatchedLocking k flow mac ct splitSkip = pure (gatewayMatched k flow mac ct splitSkip) := by
  unfold gatewayMatchedLocking gatewayMatched
  simp only [recordVisitLocking_eq, pure_bind]
  split
  · rfl
  · rfl

theorem gatewayInspectLocking_eq (k : OafState env) (flow : FlowInfo) (mac : Mac) (ct : Nat)
    (splitSkip : Bool) :
    gatewayInspectLocking k flow mac ct splitSkip = pure (gatewayInspect k flow mac ct splitSkip) := by
  unfold gatewayInspectLocking gatewayInspect
  simp only [matchFeatureLocking_eq, pure_bind, gatewayMatchedLocking_eq]
  split
  · rfl
  · rfl

theorem gatewayDpiLocking_eq (k : OafState env) (skb : Skb) (flow : FlowInfo) (mac : Mac) (ct : CtRef)
    (splitSkip : Bool) :
    gatewayDpiLocking k skb flow mac ct splitSkip = pure (gatewayDpi k skb flow mac ct splitSkip) := by
  unfold gatewayDpiLocking gatewayDpi
  cases ct.acct with
  | none => rfl
  | some totalPackets =>
      dsimp only
      split
      · rfl
      · split
        · rfl
        · cases flowData skb flow with
          | none => rfl
          | some flow => exact gatewayInspectLocking_eq k flow mac ct.id splitSkip

theorem gatewayFlowLocking_eq (k : OafState env) (skb : Skb) (e : GatewayEntry) (splitSkip : Bool) :
    gatewayFlowLocking k skb e splitSkip = pure (gatewayFlow k skb e splitSkip) := by
  unfold gatewayFlowLocking gatewayFlow
  simp only [gatewayDpiLocking_eq, gatewayClassifiedLocking_eq, apply_ite pure]

/-- Every section of the gateway handler is closed. -/
theorem gatewayHandleLocking_eq (k : OafState env) (skb : Skb) :
    gatewayHandleLocking k skb = pure (appFilterHookGatewayHandle k skb) := by
  unfold gatewayHandleLocking appFilterHookGatewayHandle gatewayEntry
  by_cases hlan : (!strstr skb.devName k.gLanIfname) = true
  · rw [if_pos hlan, if_pos hlan]
  rw [if_neg hlan, if_neg hlan]
  cases parseFlowProto skb with
  | none => rfl
  | some flow =>
      cases skb.ct with
      | none => rfl
      | some ct =>
          dsimp only
          by_cases hsyn : flow.l4Protocol = ipprotoTcp ∧ ct.confirmed = false
          · rw [if_pos hsyn, if_pos hsyn]
          rw [if_neg hsyn, if_neg hsyn]
          -- the section of the lookup ends before the split gate
          cases gatewayClient k flow with
          | none => exact acquire_release _ _
          | some found =>
              dsimp only
              rw [acquire_release]
              simp only [gatewayFlowLocking_eq, apply_ite pure]

/-! ## Bypass handler -/

/-- The inspection. -/
def bypassInspectLocking (k : OafState env) (flow : FlowInfo) (mac : Mac) (t : ConnTuple)
    (conn : AfConn) : Locking HookLock (OafState env × Verdict) := do
  let flow := dpiMain { flow with clientHello := conn.clientHello }
  let conn := { conn with clientHello := flow.clientHello }
  let k := (k.putConn t conn).updateClient mac (updateUrlVisitingInfo k.timestamp flow)
  let r ← matchFeatureLocking k flow
  pure (if r.2 = false ∧ k.gAppFilterMode = 0 then (k, .accept) else bypassMatched k r.1 mac t conn)

/-- The handler for a connection without an app id. -/
def bypassDpiLocking (k : OafState env) (skb : Skb) (flow : FlowInfo) (t : ConnTuple) (conn : AfConn) :
    Locking HookLock (OafState env × Verdict) :=
  if k.gByPassAccl ≠ 0 ∧ conn.totalPkts > 256#32 then pure (k, .accept)
  else if k.gDisableQuic ≠ 0 ∧ afMatchQuic flow = true ∧
      matchAppFilterUser k skb.hSource = true then
    pure (k.putConn t { conn with appId := appidQuic, drop := true }, .drop)
  else
    match flowData skb flow with
    | none => pure (k, .accept)
    | some flow => bypassInspectLocking k flow skb.hSource t conn

/-- The handler once the connection is found. -/
def bypassFlowLocking (k : OafState env) (skb : Skb) (flow : FlowInfo) (t : ConnTuple) (conn : AfConn) :
    Locking HookLock (OafState env × Verdict) :=
  if conn.drop = true ∧ k.gAppFilterMode ≠ 0 then pure (k, .drop)
  else if conn.appId ≠ 0 then pure (bypassClassified k skb.hSource conn)
  else bypassDpiLocking k skb flow t conn

/-- `app_filter_hook_bypass_handle`. -/
def bypassHandleLocking (k : OafState env) (skb : Skb) : Locking HookLock (OafState env × Verdict) :=
  match bypassEntry k skb with
  | none => pure (k, .accept)
  | some flow => do
      acquire .clientWrite
      match findAndAddAfClient k skb.hSource skb.alloc.client with
      | (k, false) => do
          release .clientWrite
          pure (k, .accept)
      | (k, true) => do
          let k := k.updateClient skb.hSource (fun c => { c with
            updateJiffies := k.jiffiesWord
            ip := if flow.src ≠ 0 then flow.src else c.ip })
          release .clientWrite
          acquire .conn
          match afConnFindAndAdd k flow.tuple skb.alloc with
          -- return NF_ACCEPT, with the lock
          | none => pure (k, .accept)
          | some (k, conn) => do
              let conn := { conn with
                lastJiffies := k.jiffiesWord, totalPkts := conn.totalPkts + 1 }
              let k := k.putConn flow.tuple conn
              release .conn
              bypassFlowLocking k skb flow flow.tuple conn

theorem bypassInspectLocking_eq (k : OafState env) (flow : FlowInfo) (mac : Mac) (t : ConnTuple)
    (conn : AfConn) : bypassInspectLocking k flow mac t conn = pure (bypassInspect k flow mac t conn) := by
  unfold bypassInspectLocking bypassInspect
  simp only [matchFeatureLocking_eq, pure_bind]

theorem bypassDpiLocking_eq (k : OafState env) (skb : Skb) (flow : FlowInfo) (t : ConnTuple)
    (conn : AfConn) : bypassDpiLocking k skb flow t conn = pure (bypassDpi k skb flow t conn) := by
  unfold bypassDpiLocking bypassDpi
  split
  · rfl
  · split
    · rfl
    · cases flowData skb flow with
      | none => rfl
      | some flow => exact bypassInspectLocking_eq k flow skb.hSource t conn

theorem bypassFlowLocking_eq (k : OafState env) (skb : Skb) (flow : FlowInfo) (t : ConnTuple)
    (conn : AfConn) : bypassFlowLocking k skb flow t conn = pure (bypassFlow k skb flow t conn) := by
  unfold bypassFlowLocking bypassFlow
  simp only [bypassDpiLocking_eq, apply_ite pure]

end OpenAppFilter.Kernel
