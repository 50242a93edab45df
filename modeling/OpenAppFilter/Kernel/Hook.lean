import OpenAppFilter.Kernel.Client
import OpenAppFilter.Kernel.Conn
import OpenAppFilter.Kernel.Dpi
import OpenAppFilter.Kernel.Rules

/-!
# Packet handlers (`app_filter.c`)

The two handlers that turn a packet into a verdict. Gateway mode keeps the
verdict of a flow in the conntrack mark (`appFilterHookGatewayHandle`), bypass
mode keeps it in its own connection table (`appFilterHookBypassHandle`).

Each handler is cut where the source makes its decisions: the entry checks
that find the flow and the client, the cached verdict, and the inspection of
a flow that has none.
-/

namespace OpenAppFilter.Kernel

open Base

variable {env : Env}

/-! ## Bits of the conntrack mark -/

def nfDropBit : BitVec 32 := 0x80000000#32
def nfClientHelloBit : BitVec 32 := 0x40000000#32
def nfIgnoreBit : BitVec 32 := 0x20000000#32

/-- The app id a mark carries. -/
def markAppId (mark : BitVec 32) : BitVec 32 := mark &&& 0xffff#32

/-- The drop bit of a mark: `ct_action`. -/
def markDrop (mark : BitVec 32) : Bool := mark &&& nfDropBit = nfDropBit

def markIgnore (mark : BitVec 32) : Bool := mark &&& nfIgnoreBit = nfIgnoreBit

/-- Write the drop bit. -/
def setMarkDrop (mark : BitVec 32) (drop : Bool) : BitVec 32 :=
  if drop then mark ||| nfDropBit else mark &&& ~~~nfDropBit

/-- Write the client-hello bit. -/
def setMarkHello (mark : BitVec 32) (hello : Bool) : BitVec 32 :=
  if hello then mark ||| nfClientHelloBit else mark &&& ~~~nfClientHelloBit

def OafState.setMark (k : OafState env) (ct : Nat) (mark : BitVec 32) : OafState env :=
  { k with ctMark := fun i => if i = ct then mark else k.ctMark i }

/-! ## What a client visits -/

/-- `af_get_visit_index`. -/
def afGetVisitIndex (c : AfClientInfo) (appId : BitVec 32) : Fin maxRecordAppNum :=
  ((List.finRange maxRecordAppNum).find? (fun i =>
    (c.visitInfo i).appId = appId || (c.visitInfo i).appId = 0)).getD ⟨0, by decide⟩

/-- `af_update_client_app_info`; `now` is `af_get_timestamp_sec()`. -/
def afUpdateClientAppInfo (now : Nat) (appId : BitVec 32) (drop : Bool) (c : AfClientInfo) :
    AfClientInfo :=
  let index := afGetVisitIndex c appId
  let old := c.visitInfo index
  let new : AppVisitInfo :=
    { appId := appId
      totalNum := old.totalNum + 1
      dropNum := if drop then old.dropNum + 1 else old.dropNum
      latestTime := now
      latestAction := drop }
  { c with
    visitInfo := fun i => if i = index then new else c.visitInfo i
    visiting :=
      if 0 < appId.toInt then { c.visiting with appTime := now, visitingApp := appId }
      else c.visiting }

/-- The host `update_url_visiting_info` reports: its position and length. -/
def reportHost (flow : FlowInfo) : Option (Nat × Int) :=
  if flow.https.isMatch then flow.https.urlPos.map (fun pos => (pos, flow.https.urlLen))
  else if flow.http.isMatch then flow.http.hostPos.map (fun pos => (pos, flow.http.hostLen))
  else none

/-- `update_url_visiting_info`; the length is compared as `unsigned int`. -/
def updateUrlVisitingInfo (now : Nat) (flow : FlowInfo) (c : AfClientInfo) : AfClientInfo :=
  match reportHost flow with
  | none => c
  | some (pos, len) =>
      let len := (len % 2 ^ 32).toNat
      if len < minReportUrlLen ∨ len ≥ maxReportUrlLen then c
      else { c with visiting := { c.visiting with
        visitingUrl := copyText flow.l4Data pos len, urlTime := now } }

/-- The record update of both handlers: `af_update_client_app_info` when
recording is on and the flow's signature is not an ignored one. -/
def recordVisit (k : OafState env) (mac : Mac) (ignore : Bool) (appId : BitVec 32)
    (drop : Bool) : OafState env :=
  if k.gOafRecordEnable ≠ 0 ∧ ignore = false then
    k.updateClient mac (afUpdateClientAppInfo k.timestamp appId drop)
  else k

/-! ## Re-evaluation of a cached verdict -/

/-- The condition `interval_jiffies < max_jiffies` of
`check_app_action_changed`: the last configuration message is less than 30
seconds old, in 32-bit arithmetic. -/
def actionWindowOpen (k : OafState env) : Bool :=
  BitVec.ofNat 32 k.jiffies - k.gUpdateJiffies < BitVec.ofNat 32 (30 * env.hz)

/-- `check_app_action_changed`. -/
def checkAppActionChanged (k : OafState env) (action : Bool) (appId : BitVec 32) (client : Mac) :
    Bool :=
  if actionWindowOpen k then
    if matchAppFilterRule k appId.toInt client then !action else action
  else false

/-- The flow data a signature is matched on: the linear part of the packet, or
a copy when it is not linear; `none` when the copy cannot be made. -/
def flowData (skb : Skb) (flow : FlowInfo) : Option FlowInfo :=
  if skb.nonlinear ∧ flow.l4Len < maxAfSupportDataLen then
    match readSkb skb flow.l4Off (flow.l4Len % 2 ^ 32).toNat with
    | some buf => some { flow with l4Data := buf }
    | none => none
  else some flow

/-! ## Gateway handler -/

/-- What the entry checks of the gateway handler have found. -/
structure GatewayEntry where
  flow : FlowInfo
  ct : CtRef
  mac : Mac
  client : AfClientInfo

/-- The lookup of the client by the flow's source address. -/
def gatewayClient (k : OafState env) (flow : FlowInfo) : Option (Mac × AfClientInfo) :=
  if flow.src ≠ 0 then findAfClientByIp k flow.src
  else
    match flow.src6 with
    | some ip => findAfClientByIpv6 k ip
    | none => none

/-- The entry checks of `app_filter_hook_gateway_handle`; `none` is an early
`NF_ACCEPT`. -/
def gatewayEntry (k : OafState env) (skb : Skb) : Option GatewayEntry :=
  if !strstr skb.devName k.gLanIfname then none
  else
    match parseFlowProto skb, skb.ct with
    | some flow, some ct =>
        if flow.l4Protocol = ipprotoTcp ∧ ct.confirmed = false then none
        else
          match gatewayClient k flow with
          | some (mac, client) => some ⟨flow, ct, mac, client⟩
          | none => none
    | _, _ => none

/-- The branch of a flow whose mark carries an app id between 1000 and 32000:
re-evaluate, write the drop bit back, record, decide. -/
def gatewayClassified (k : OafState env) (mac : Mac) (ct : Nat) : OafState env × Verdict :=
  let mark := k.ctMark ct
  let ctAction := markDrop mark
  let changed := checkAppActionChanged k ctAction (markAppId mark) mac
  let k := if changed then k.setMark ct (setMarkDrop mark (!ctAction)) else k
  let ctAction := if changed then !ctAction else ctAction
  let k := recordVisit k mac (markIgnore mark) (markAppId mark) ctAction
  (k, if k.gOafFilterEnable ≠ 0 ∧ ctAction = true then .drop else .accept)

/-- The end of the inspection: enter the flow's app id into the mark, apply
the rule, record. `splitSkip` is `split_active && !split_blocked`. -/
def gatewayMatched (k : OafState env) (flow : FlowInfo) (mac : Mac) (ct : Nat)
    (splitSkip : Bool) : OafState env × Verdict :=
  let ignored := flow.feature.any (·.ignore)
  let mark := k.ctMark ct &&& 0xffff0000#32 ||| flow.appId &&& 0xffff#32
  let mark := if ignored then mark ||| nfIgnoreBit else mark
  if k.gOafFilterEnable ≠ 0 ∧ splitSkip = true ∧ k.gAppFilterMode ≠ 0 then
    (k.setMark ct mark, .accept)
  else
    let drop := decide (k.gOafFilterEnable ≠ 0) && matchAppFilterRule k flow.appId.toInt mac
    let mark := if drop then mark ||| nfDropBit else mark
    (recordVisit (k.setMark ct mark) mac (flow.ignore || ignored) flow.appId drop,
      if drop then .drop else .accept)

/-- Run the scanners and the signatures over the flow's data. -/
def gatewayInspect (k : OafState env) (flow : FlowInfo) (mac : Mac) (ct : Nat)
    (splitSkip : Bool) : OafState env × Verdict :=
  let flow := dpiMain flow
  let k := (k.updateClient mac (updateUrlVisitingInfo k.timestamp flow)).setMark ct
    (setMarkHello (k.ctMark ct) flow.clientHello)
  let r := matchFeature k flow
  if r.2 = false ∧ k.gAppFilterMode = 0 then (k, .accept)
  else gatewayMatched k r.1 mac ct splitSkip

/-- The handler for a flow without an app id: within the first packets of the
connection, the quic block, then the inspection. -/
def gatewayDpi (k : OafState env) (skb : Skb) (flow : FlowInfo) (mac : Mac) (ct : CtRef)
    (splitSkip : Bool) : OafState env × Verdict :=
  match ct.acct with
  | none => (k, .accept)
  | some totalPackets =>
      if totalPackets > maxDpiPktNum then (k, .accept)
      else if k.gOafFilterEnable ≠ 0 ∧ k.gDisableQuic ≠ 0 ∧ afMatchQuic flow = true ∧
          matchAppFilterUser k mac = true then
        (k.setMark ct.id
          ((k.ctMark ct.id &&& 0xffff0000#32 ||| appidQuic &&& 0xffff#32) ||| nfDropBit), .drop)
      else
        match flowData skb flow with
        | none => (k, .accept)
        | some flow => gatewayInspect k flow mac ct.id splitSkip

/-- The handler after the split gate: the shortcuts on a cached drop bit, then
the classified or the inspected branch. -/
def gatewayFlow (k : OafState env) (skb : Skb) (e : GatewayEntry) (splitSkip : Bool) :
    OafState env × Verdict :=
  let mark := k.ctMark e.ct.id
  if mark = 0 then gatewayDpi k skb e.flow e.mac e.ct splitSkip
  else if k.gOafFilterEnable ≠ 0 ∧ k.gDisableQuic ≠ 0 ∧ markAppId mark = appidQuic ∧
      markDrop mark = true then (k, .drop)
  else if k.gOafFilterEnable ≠ 0 ∧ k.gAppFilterMode ≠ 0 ∧ markDrop mark = true then (k, .drop)
  else if 1000#32 < markAppId mark ∧ markAppId mark < 32000#32 then
    gatewayClassified k e.mac e.ct.id
  else
    gatewayDpi k skb { e.flow with
      ignore := markIgnore mark
      clientHello := decide (mark &&& nfClientHelloBit ≠ 0) } e.mac e.ct splitSkip

/-- `app_filter_hook_gateway_handle`. -/
def appFilterHookGatewayHandle (k : OafState env) (skb : Skb) : OafState env × Verdict :=
  match gatewayEntry k skb with
  | none => (k, .accept)
  | some e =>
      let k := k.updateClient e.mac (fun c => { c with updateJiffies := k.jiffiesWord })
      let splitActive := decide (k.gSplitTime ≠ 0) && decide (k.gOafFilterEnable ≠ 0)
      let splitBlocked := splitActive && e.client.periodBlocked
      if splitActive && splitBlocked && decide (k.gAppFilterMode = 1) then (k, .drop)
      else if splitActive && !splitBlocked then (k, .accept)
      else gatewayFlow k skb e (splitActive && !splitBlocked)

/-! ## Bypass handler -/

/-- `ntohl`. -/
def ntohl (x : BitVec 32) : BitVec 32 :=
  x.extractLsb' 0 8 ++ x.extractLsb' 8 8 ++ x.extractLsb' 16 8 ++ x.extractLsb' 24 8

def isIpv4Broadcast (ip : BitVec 32) : Bool := ip &&& 0x00ffffff#32 = 0x00ffffff#32

def isIpv4Multicast (ip : BitVec 32) : Bool := ip &&& 0xf0000000#32 = 0xe0000000#32

/-- `af_check_bcast_ip`. -/
def afCheckBcastIp (flow : FlowInfo) : Bool :=
  flow.src = 0 || flow.dst = 0 || isIpv4Broadcast (ntohl flow.src) ||
    isIpv4Broadcast (ntohl flow.dst) || isIpv4Multicast (ntohl flow.src) ||
    isIpv4Multicast (ntohl flow.dst)

/-- `af_match_local_packet`. -/
def afMatchLocalPacket (flow : FlowInfo) : Bool :=
  flow.src = 0x0100007f#32 || flow.dst = 0x0100007f#32

/-- The entry checks of `app_filter_hook_bypass_handle`; `none` is an early
`NF_ACCEPT`. -/
def bypassEntry (k : OafState env) (skb : Skb) : Option FlowInfo :=
  if k.afLanIp = 0 ∨ k.afLanMask = 0 then none
  else if strstr skb.devName "docker".toList then none
  else
    match parseFlowProto skb with
    | none => none
    | some flow =>
        if flow.src = 0 ∧ flow.dst = 0 then none
        else if k.afLanIp = flow.src ∨ k.afLanIp = flow.dst then none
        else if afCheckBcastIp flow || afMatchLocalPacket flow then none
        else if flow.src &&& k.afLanMask ≠ k.afLanIp &&& k.afLanMask then none
        else some flow

/-- The connection key of a flow. -/
def FlowInfo.tuple (flow : FlowInfo) : ConnTuple :=
  ⟨flow.src, flow.dst, flow.sport, flow.dport, flow.l4Protocol⟩

/-- The end of the bypass handler: record, then decide. -/
def bypassFinish (k : OafState env) (mac : Mac) (ignore : Bool) (appId : BitVec 32)
    (drop : Bool) : OafState env × Verdict :=
  let k := recordVisit k mac ignore appId drop
  (k, if drop = true ∧ k.gOafFilterEnable ≠ 0 then .drop else .accept)

/-- The branch of a connection that has an app id. The re-evaluated verdict is
used for this packet and not stored. -/
def bypassClassified (k : OafState env) (mac : Mac) (conn : AfConn) : OafState env × Verdict :=
  if k.gDisableQuic ≠ 0 ∧ conn.drop = true ∧ conn.appId = appidQuic then (k, .drop)
  else
    let drop := if checkAppActionChanged k conn.drop conn.appId mac then !conn.drop else conn.drop
    bypassFinish k mac conn.ignore conn.appId drop

/-- The end of the inspection: apply the rule and store the decision in the
connection. -/
def bypassMatched (k : OafState env) (flow : FlowInfo) (mac : Mac) (t : ConnTuple)
    (conn : AfConn) : OafState env × Verdict :=
  let drop := decide (k.gOafFilterEnable ≠ 0) && matchAppFilterRule k flow.appId.toInt mac
  let ignore := flow.feature.any (·.ignore)
  let k := k.putConn t { conn with
    appId := flow.appId, drop := drop, ignore := ignore, state := .dpiFinished }
  bypassFinish k mac ignore flow.appId drop

/-- Run the scanners and the signatures over the flow's data. -/
def bypassInspect (k : OafState env) (flow : FlowInfo) (mac : Mac) (t : ConnTuple)
    (conn : AfConn) : OafState env × Verdict :=
  let flow := dpiMain { flow with clientHello := conn.clientHello }
  let conn := { conn with clientHello := flow.clientHello }
  let k := (k.putConn t conn).updateClient mac (updateUrlVisitingInfo k.timestamp flow)
  let r := matchFeature k flow
  if r.2 = false ∧ k.gAppFilterMode = 0 then (k, .accept)
  else bypassMatched k r.1 mac t conn

/-- The handler for a connection without an app id: the packet limit of
`by_pass_accl`, the quic block, then the inspection. -/
def bypassDpi (k : OafState env) (skb : Skb) (flow : FlowInfo) (t : ConnTuple) (conn : AfConn) :
    OafState env × Verdict :=
  if k.gByPassAccl ≠ 0 ∧ conn.totalPkts > 256#32 then (k, .accept)
  else if k.gDisableQuic ≠ 0 ∧ afMatchQuic flow = true ∧
      matchAppFilterUser k skb.hSource = true then
    (k.putConn t { conn with appId := appidQuic, drop := true }, .drop)
  else
    match flowData skb flow with
    | none => (k, .accept)
    | some flow => bypassInspect k flow skb.hSource t conn

/-- The handler once the connection is found: the all-apps shortcut on its
drop flag, then the classified or the inspected branch. -/
def bypassFlow (k : OafState env) (skb : Skb) (flow : FlowInfo) (t : ConnTuple) (conn : AfConn) :
    OafState env × Verdict :=
  if conn.drop = true ∧ k.gAppFilterMode ≠ 0 then (k, .drop)
  else if conn.appId ≠ 0 then bypassClassified k skb.hSource conn
  else bypassDpi k skb flow t conn

/-- `app_filter_hook_bypass_handle`. -/
def appFilterHookBypassHandle (k : OafState env) (skb : Skb) : OafState env × Verdict :=
  match bypassEntry k skb with
  | none => (k, .accept)
  | some flow =>
      match findAndAddAfClient k skb.hSource skb.alloc.client with
      | (k, false) => (k, .accept)
      | (k, true) =>
          let k := k.updateClient skb.hSource (fun c => { c with
            updateJiffies := k.jiffiesWord
            ip := if flow.src ≠ 0 then flow.src else c.ip })
          match afConnFindAndAdd k flow.tuple skb.alloc with
          | none => (k, .accept)
          | some (k, conn) =>
              let conn := { conn with
                lastJiffies := k.jiffiesWord, totalPkts := conn.totalPkts + 1 }
              bypassFlow (k.putConn flow.tuple conn) skb flow flow.tuple conn

end OpenAppFilter.Kernel
