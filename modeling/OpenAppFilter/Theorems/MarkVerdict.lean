import OpenAppFilter.Theorems.Mark

/-!
# The mark and the verdict after the inspection

At the end of the inspection the handler enters the app id into the mark and
sets the drop bit when the rule says so. It writes the low bits over and leaves
the rest as it is, so a drop bit from before stays: the bit of a quic block, or
of a flow blocked while all apps were. The verdict comes from the rule alone.

So the two agree iff the bit was clear, or the rule sets it anyway.
-/

namespace OpenAppFilter.Theorems

open Base Kernel

variable {env : Env}

/-! ## The drop bit through the writes of the inspection -/

theorem markDrop_setMarkHello (mark : BitVec 32) (hello : Bool) :
    markDrop (setMarkHello mark hello) = markDrop mark := by
  unfold markDrop setMarkHello nfClientHelloBit nfDropBit
  cases hello with
  | true =>
      rw [if_pos rfl, BitVec.and_or_distrib_right]
      simp
  | false =>
      rw [if_neg Bool.false_ne_true, BitVec.and_assoc]
      rfl

/-- A write to the low bits leaves the drop bit. -/
theorem markDrop_setAppId (mark w : BitVec 32) :
    markDrop (mark &&& 0xffff0000#32 ||| w &&& 0xffff#32) = markDrop mark := by
  unfold markDrop nfDropBit
  rw [BitVec.and_or_distrib_right, BitVec.and_assoc, BitVec.and_assoc]
  have hlow : 0xffff#32 &&& 0x80000000#32 = 0#32 := by decide
  have hhigh : 0xffff0000#32 &&& 0x80000000#32 = 0x80000000#32 := by decide
  rw [hlow, hhigh]
  simp

theorem markDrop_or_ignore (mark : BitVec 32) : markDrop (mark ||| nfIgnoreBit) = markDrop mark := by
  unfold markDrop nfIgnoreBit nfDropBit
  rw [BitVec.and_or_distrib_right]
  simp

theorem markDrop_or_drop (mark : BitVec 32) : markDrop (mark ||| nfDropBit) = true :=
  markDrop_setMarkDrop mark true

/-- The drop bit and the verdict at the end of the inspection, for a device the
split gate has let through. -/
theorem gatewayMatched_drop (k : OafState env) (flow : FlowInfo) (mac : Mac) (ct : Nat)
    (hen : k.gOafFilterEnable ≠ 0) :
    markDrop ((gatewayMatched k flow mac ct false).1.ctMark ct) =
        (markDrop (k.ctMark ct) || matchAppFilterRule k flow.appId.toInt mac) ∧
      ((gatewayMatched k flow mac ct false).2 = .drop ↔
        matchAppFilterRule k flow.appId.toInt mac = true) := by
  have hignore : ∀ ignored : Bool, markDrop
      (if ignored then (k.ctMark ct &&& 0xffff0000#32 ||| flow.appId &&& 0xffff#32) ||| nfIgnoreBit
        else k.ctMark ct &&& 0xffff0000#32 ||| flow.appId &&& 0xffff#32) =
      markDrop (k.ctMark ct) := by
    intro ignored
    cases ignored with
    | true => exact (markDrop_or_ignore _).trans (markDrop_setAppId _ _)
    | false => exact markDrop_setAppId _ _
  unfold gatewayMatched
  rw [if_neg (fun h => Bool.false_ne_true h.2.1), decide_eq_true hen, Bool.true_and]
  dsimp only
  rw [recordVisit_ctMark, setMark_ctMark]
  cases hrule : matchAppFilterRule k flow.appId.toInt mac with
  | true =>
      refine ⟨?_, by simp⟩
      rw [if_pos rfl, markDrop_or_drop, Bool.or_true]
  | false =>
      refine ⟨?_, by simp⟩
      rw [if_neg Bool.false_ne_true, hignore, Bool.or_false]

/-! ## Packets that are classified by the inspection -/

/-- The flow as the inspection gets it: with what a mark without an app id says
of it. -/
def inspectedFlow (k : OafState env) (e : GatewayEntry) : FlowInfo :=
  let mark := k.ctMark e.ct.id
  if mark = 0 then e.flow
  else { e.flow with
    ignore := markIgnore mark
    clientHello := decide (mark &&& nfClientHelloBit ≠ 0) }

/-- The packet takes the DPI path to its end: none of the exits in front of it
is taken, and a signature matches or all apps are filtered. `flow` is the flow
after `match_feature`. -/
structure ClassifiedByDpi (k : OafState env) (skb : Skb) (e : GatewayEntry) (flow : FlowInfo) :
    Prop where
  entry : gatewayEntry k skb = some e
  gate : PassesGate k e
  noQuicMark : ¬ (k.gDisableQuic ≠ 0 ∧ markAppId (k.ctMark e.ct.id) = appidQuic ∧
    markDrop (k.ctMark e.ct.id) = true)
  noAllMark : ¬ (k.gAppFilterMode ≠ 0 ∧ markDrop (k.ctMark e.ct.id) = true)
  unclassified : ¬ Classified (k.ctMark e.ct.id)
  early : ∃ n, e.ct.acct = some n ∧ n ≤ maxDpiPktNum
  noQuic : ¬ (k.gDisableQuic ≠ 0 ∧ afMatchQuic (inspectedFlow k e) = true ∧
    matchAppFilterUser k e.mac = true)
  inspected : ∃ flow₀, flowData skb (inspectedFlow k e) = some flow₀ ∧
    (matchFeature k (dpiMain flow₀)).1 = flow ∧
    ((matchFeature k (dpiMain flow₀)).2 = true ∨ k.gAppFilterMode ≠ 0)

/-- The state behind the lookup of the client. -/
def clientMet (k : OafState env) (e : GatewayEntry) : OafState env :=
  k.updateClient e.mac (fun c => { c with updateJiffies := k.jiffiesWord })

/-- The gate lets the packet through. -/
theorem ClassifiedByDpi.passes {k : OafState env} {skb : Skb} {e : GatewayEntry} {flow : FlowInfo}
    (h : ClassifiedByDpi k skb e flow) (hen : k.gOafFilterEnable ≠ 0) :
    appFilterHookGatewayHandle k skb = gatewayFlow (clientMet k e) skb e false := by
  unfold appFilterHookGatewayHandle clientMet
  rw [h.entry]
  simp only [updateClient_split, updateClient_enable, updateClient_mode]
  rcases h.gate with hsplit | ⟨hblocked, hmode⟩
  · simp [hsplit]
  · by_cases hsplit : k.gSplitTime = 0
    · simp [hsplit]
    · simp [hblocked, hmode, hsplit, hen]

/-- Neither shortcut nor the branch for classified flows is taken. -/
theorem ClassifiedByDpi.reaches_dpi {k : OafState env} {skb : Skb} {e : GatewayEntry}
    {flow : FlowInfo} (h : ClassifiedByDpi k skb e flow) :
    gatewayFlow (clientMet k e) skb e false =
      gatewayDpi (clientMet k e) skb (inspectedFlow k e) e.mac e.ct false := by
  have hmark : (clientMet k e).ctMark e.ct.id = k.ctMark e.ct.id := rfl
  unfold gatewayFlow inspectedFlow
  rw [hmark]
  by_cases hzero : k.ctMark e.ct.id = 0
  · rw [if_pos hzero, if_pos hzero]
  · have hlow : ¬ (1000#32 < markAppId (k.ctMark e.ct.id) ∧
        markAppId (k.ctMark e.ct.id) < 32000#32) := h.unclassified
    rw [if_neg hzero, if_neg hzero, if_neg (fun hq => h.noQuicMark hq.2),
      if_neg (fun hall => h.noAllMark hall.2), if_neg hlow]

/-- Such a packet is handled by the end of the inspection, in a state with the
same rules and the same drop bit. -/
theorem ClassifiedByDpi.handle {k : OafState env} {skb : Skb} {e : GatewayEntry} {flow : FlowInfo}
    (h : ClassifiedByDpi k skb e flow) (hen : k.gOafFilterEnable ≠ 0) :
    ∃ k', appFilterHookGatewayHandle k skb = gatewayMatched k' flow e.mac e.ct.id false ∧
      k'.gOafFilterEnable = k.gOafFilterEnable ∧
      markDrop (k'.ctMark e.ct.id) = markDrop (k.ctMark e.ct.id) ∧
      ∀ appid mac, matchAppFilterRule k' appid mac = matchAppFilterRule k appid mac := by
  obtain ⟨n, hacct, hn⟩ := h.early
  obtain ⟨flow₀, hdata, hflow, hmatch⟩ := h.inspected
  have hinspect : gatewayDpi (clientMet k e) skb (inspectedFlow k e) e.mac e.ct false =
      gatewayInspect (clientMet k e) flow₀ e.mac e.ct.id false := by
    unfold gatewayDpi
    rw [hacct]
    dsimp only
    rw [if_neg (Nat.not_lt.mpr hn), if_neg (fun hq => h.noQuic hq.2), hdata]
  rw [h.passes hen, h.reaches_dpi, hinspect]
  refine ⟨((clientMet k e).updateClient e.mac
    (updateUrlVisitingInfo (clientMet k e).timestamp (dpiMain flow₀))).setMark e.ct.id
      (setMarkHello (k.ctMark e.ct.id) (dpiMain flow₀).clientHello), ?_, rfl, ?_, fun _ _ => rfl⟩
  · unfold gatewayInspect
    have hno : ¬ ((matchFeature k (dpiMain flow₀)).2 = false ∧ k.gAppFilterMode = 0) := by
      rintro ⟨hf, hm⟩
      rcases hmatch with hyes | hmode
      · rw [hf] at hyes
        exact Bool.false_ne_true hyes
      · exact hmode hm
    rw [← hflow]
    exact if_neg hno
  · rw [setMark_ctMark]
    exact markDrop_setMarkHello _ _

/-- **Mark and verdict after the inspection.** For every state and every packet
the inspection classifies with filtering on: the handler drops the packet iff
the drop bit is set afterwards, exactly when the bit was clear before, or the
rule filters the app for this device. -/
theorem dpi_mark_agrees_iff (k : OafState env) (skb : Skb) (e : GatewayEntry) (flow : FlowInfo)
    (hen : k.gOafFilterEnable = 1) (h : ClassifiedByDpi k skb e flow) :
    ((appFilterHookGatewayHandle k skb).2 = .drop ↔
        markDrop ((appFilterHookGatewayHandle k skb).1.ctMark e.ct.id) = true) ↔
      (markDrop (k.ctMark e.ct.id) = false ∨
        matchAppFilterRule k flow.appId.toInt e.mac = true) := by
  have hon : k.gOafFilterEnable ≠ 0 := by
    rw [hen]
    decide
  obtain ⟨k', hhandle, henable, hbit, hrule⟩ := h.handle hon
  have hon' : k'.gOafFilterEnable ≠ 0 := by
    rw [henable]
    exact hon
  obtain ⟨hmark, hverdict⟩ := gatewayMatched_drop k' flow e.mac e.ct.id hon'
  rw [hhandle, hverdict, hmark, hbit, hrule]
  cases markDrop (k.ctMark e.ct.id) <;> cases matchAppFilterRule k flow.appId.toInt e.mac <;> simp

/-! ## A quic flow that turns out to be something else -/

/-- A UDP datagram of the phone to port 443 with the given payload. -/
def phoneUdp (payload : List UInt8) : Skb :=
  lanSkb phoneMac 7 (ipv4Bytes 17 phoneIp [1, 2, 3, 4]
    ([0x30, 0x39, 0x01, 0xbb, 0, UInt8.ofNat (8 + payload.length), 0, 0] ++ payload))

/-- A quic packet of version 1. -/
def quicPacket : Skb := phoneUdp [0xc0, 0, 0, 0, 1, 8, 1, 2, 3, 4]

/-- A datagram that is not quic. -/
def plainDatagram : Skb := phoneUdp [0x01, 2, 3, 4, 5, 6, 7, 8, 9, 10]

/-- A signature that every UDP datagram with data matches. -/
def udpFeature : AfFeatureNode := { appId := 1002#32, proto := 17 }

/-- Filtering is on; quic is blocked, and then no longer, when app 1002 may come
into the rules. -/
def quicUnblocked (filtered : Bool) : OafState routerEnv :=
  run step (boot routerEnv 0) ([.proc (.enable 1), .proc (.disableQuic 1), .addFeature udpFeature,
    .forward quicPacket, .proc (.disableQuic 0)] ++
      if filtered then [.config (some (addAppMsg 1002))] else [])

/-- The state the handler meets with the next packet of the flow. -/
def nextCall (filtered : Bool) : OafState routerEnv :=
  afClientHook (quicUnblocked filtered) plainDatagram

/-- What the entry checks find. -/
def nextEntry (filtered : Bool) : GatewayEntry :=
  (gatewayEntry (nextCall filtered) plainDatagram).get (by cases filtered <;> decide +kernel)

/-- The flow as the next packet is classified. -/
def nextFlow (filtered : Bool) : FlowInfo :=
  (matchFeature (nextCall filtered)
    (dpiMain (inspectedFlow (nextCall filtered) (nextEntry filtered)))).1

theorem classified_next (filtered : Bool) :
    ClassifiedByDpi (nextCall filtered) plainDatagram (nextEntry filtered) (nextFlow filtered) where
  entry := (Option.some_get _).symm
  gate := Or.inl (by cases filtered <;> rfl)
  noQuicMark := fun h => h.1 (by cases filtered <;> rfl)
  noAllMark := fun h => h.1 (by cases filtered <;> rfl)
  unclassified := by cases filtered <;> decide +kernel
  early := ⟨3, by cases filtered <;> decide +kernel, by decide⟩
  noQuic := fun h => h.1 (by cases filtered <;> rfl)
  inspected := ⟨_, rfl, rfl, Or.inl (by cases filtered <;> decide +kernel)⟩

/-- With the app in the rules the packet is dropped, and the bit is set. -/
theorem dpi_mark_agrees_filtered :
    (appFilterHookGatewayHandle (nextCall true) plainDatagram).2 = .drop ∧
      markDrop ((appFilterHookGatewayHandle (nextCall true) plainDatagram).1.ctMark
        (nextEntry true).ct.id) = true := by
  have hdrop : (appFilterHookGatewayHandle (nextCall true) plainDatagram).2 = .drop := by
    decide +kernel
  have hagree := (dpi_mark_agrees_iff (nextCall true) plainDatagram (nextEntry true)
    (nextFlow true) rfl (classified_next true)).mpr (Or.inr (by decide +kernel))
  exact ⟨hdrop, hagree.mp hdrop⟩

/-- Without, the packet is accepted, with the drop bit of the quic block still in
the mark. -/
theorem quic_drop_bit_stays :
    gatewayCall (quicUnblocked false) (.forward plainDatagram) =
        some (nextCall false, plainDatagram) ∧
      (nextCall false).gOafFilterEnable = 1 ∧
      ClassifiedByDpi (nextCall false) plainDatagram (nextEntry false) (nextFlow false) ∧
      ¬ ((appFilterHookGatewayHandle (nextCall false) plainDatagram).2 = .drop ↔
        markDrop ((appFilterHookGatewayHandle (nextCall false) plainDatagram).1.ctMark
          (nextEntry false).ct.id) = true) := by
  refine ⟨rfl, rfl, classified_next false, ?_⟩
  decide +kernel

end OpenAppFilter.Theorems
