import OpenAppFilter.Base.Words
import OpenAppFilter.Kernel.Client

/-!
# What the daemon hears of a client (`af_client.c`, `app_filter.c`, `af_client_fs.c`)

Every client record has a timer. Each tick takes the traffic since the last one
into the counters of the period and decides whether the client is active; every
thirtieth tick first sends the daemon a report and starts a new period.
`/proc/net/af_visit` shows, one line for each client, the app and the URL it
visited last.

Conventions.

* `AfClientNode` is the whole `af_client_info_t`: `AfClientInfo` and the fields
  only the timer uses. `report_count` is printed to the log alone and left out.
* `flow` only grows, so the differences below never cut off at zero.
* The report is the compact text of the object that is built. Its numbers go
  through `cJSON_CreateNumber(int)`; mac and address hold nothing that JSON
  escapes. The allocations inside the object are not checked by the code and
  succeed here.
-/

namespace OpenAppFilter.Kernel

open Base

def maxOafNlMsgLen : Nat := 1024

/-! ## The record -/

/-- `flow_rate_t`. -/
structure FlowRate where
  upRate : BitVec 32 := 0
  downRate : BitVec 32 := 0
  pktUpRate : BitVec 32 := 0
  pktDownRate : BitVec 32 := 0

/-- `af_client_info_t` with the fields of the timer. -/
structure AfClientNode extends AfClientInfo where
  lastFlow : FlowStat := {}
  periodFlow : FlowStat := {}
  rate : FlowRate := {}
  visitAppNum : BitVec 32 := 0
  activeTime : Nat := 0
  inactiveTime : Nat := 0
  active : Bool := false
  timerCount : Nat := 0

/-! ## Text of a report -/

/-- `%02x` of a byte. -/
def hexByte (b : UInt8) : CStr :=
  [Nat.digitChar (b.toNat / 16), Nat.digitChar (b.toNat % 16)]

/-- `MAC_FMT`. -/
def macText (mac : Mac) : CStr :=
  hexByte mac.b0 ++ ':' :: (hexByte mac.b1 ++ ':' :: (hexByte mac.b2 ++ ':' ::
    (hexByte mac.b3 ++ ':' :: (hexByte mac.b4 ++ ':' :: hexByte mac.b5))))

/-- `%pI4`: the bytes as they lie in memory. -/
def ipText (ip : Ipv4) : CStr :=
  let byte (i : Nat) : CStr := Nat.toDigits 10 (ip.toNat / 256 ^ i % 256)
  byte 0 ++ '.' :: (byte 1 ++ '.' :: (byte 2 ++ '.' :: byte 3))

def jsonString (s : CStr) : CStr := '"' :: (s ++ ['"'])

/-- `cJSON_CreateNumber(int)`, printed with `%d`. -/
def jsonNumber (n : BitVec 32) : CStr := decimal (Int32.ofBitVec n)

def jsonBool (b : Bool) : CStr := jsonNumber (if b then 1 else 0)

def jsonObject (fields : List (String × CStr)) : CStr :=
  '\x7b' :: (List.intercalate [','] (fields.map (fun f => jsonString f.1.toList ++ ':' :: f.2)) ++
    ['\x7d'])

def jsonArray (items : List CStr) : CStr := '[' :: (List.intercalate [','] items ++ [']'])

/-- `(u32)(bytes >> 10)`. -/
def kilobytes (bytes : Nat) : BitVec 32 := BitVec.ofNat 32 (bytes / 1024)

/-- The slots that hold an app, in order. -/
def recordedApps (c : AfClientInfo) : List AppVisitInfo :=
  ((List.finRange maxRecordAppNum).map c.visitInfo).filter (fun v => decide (v.appId ≠ 0))

def visitText (v : AppVisitInfo) : CStr :=
  jsonObject [("appid", jsonNumber v.appId), ("latest_action", jsonBool v.latestAction)]

/-- The text `__af_visit_info_report` sends. -/
def reportText (mac : Mac) (c : AfClientNode) : CStr :=
  jsonObject
    [("mac", jsonString (macText mac)),
     ("ip", jsonString (ipText c.ip)),
     ("app_num", jsonNumber c.visitAppNum),
     ("up_flow", jsonNumber (kilobytes c.periodFlow.upBytes)),
     ("down_flow", jsonNumber (kilobytes c.periodFlow.downBytes)),
     ("active", jsonBool c.active),
     ("visit_info", jsonArray ((recordedApps c.toAfClientInfo).map visitText))]

theorem hexByte_hexByte (b : UInt8) : HexByte (hexByte b) b := by
  have hdigit : ∀ n < 16, hexVal (Nat.digitChar n) = some n := by decide
  have hlt : b.toNat < 256 := b.toNat_lt
  refine ⟨_, _, b.toNat / 16, b.toNat % 16, rfl, hdigit _ (by omega), hdigit _ (by omega), ?_⟩
  rw [show 16 * (b.toNat / 16) + b.toNat % 16 = b.toNat by omega]
  exact (UInt8.ofNat_toNat).symm

theorem macText_length (mac : Mac) : (macText mac).length = 17 := rfl

theorem mem_macText {mac : Mac} {c : Char} (h : c ∈ macText mac) : isHex c = true ∨ c = ':' := by
  have hhex : ∀ b : UInt8, c ∈ hexByte b → isHex c = true :=
    fun b hb => (hexByte_hexByte b).isHex c hb
  unfold macText at h
  simp only [List.mem_append, List.mem_cons] at h
  rcases h with h | h | h | h | h | h | h | h | h | h | h
  all_goals first
    | exact Or.inl (hhex _ h)
    | exact Or.inr h

/-! ## `/proc/net/af_visit` -/

/-- Less than two minutes ago; the difference is a `u_int32_t`. -/
def recent (now time : Nat) : Bool :=
  decide ((BitVec.ofNat 32 now - BitVec.ofNat 32 time).toNat < 120)

/-- `visiting_app` of `af_visiting_seq_show`. -/
def shownApp (now : Nat) (v : VisitingInfo) : BitVec 32 :=
  if recent now v.appTime then v.visitingApp else 0

/-- `visiting_url` of `af_visiting_seq_show`. The array is as long as the one in
the record, so the copy is complete. -/
def shownUrl (now : Nat) (v : VisitingInfo) : CStr :=
  if recent now v.urlTime then v.visitingUrl else "none".toList

/-- One line of the three columns. -/
def visitColumns (mac app url : CStr) : CStr :=
  leftAligned 20 mac ++ ' ' :: (leftAligned 12 app ++ ' ' :: (leftAligned 32 url ++ ['\n']))

/-- `af_visiting_seq_show` of the start token. -/
def visitingTitle : CStr := visitColumns "Mac".toList "Appid".toList "Url".toList

/-- `af_visiting_seq_show` of a client; the clock is read once for the app and
once for the URL. -/
def afVisitingSeqShow (appNow urlNow : Nat) (mac : Mac) (c : AfClientInfo) : CStr :=
  visitColumns (macText mac) (decimal (Int32.ofBitVec (shownApp appNow c.visiting)))
    (shownUrl urlNow c.visiting)

/-- A client and the clock readings its line is printed with. -/
structure VisitRow where
  appNow : Nat
  urlNow : Nat
  mac : Mac
  client : AfClientInfo

/-- The whole file. -/
def afVisitFile (rows : List VisitRow) : CStr :=
  visitingTitle ++ rows.flatMap (fun r => afVisitingSeqShow r.appNow r.urlNow r.mac r.client)

/-! ## Sending -/

/-- The allocations on the way of one report, and what `netlink_unicast`
returned. -/
structure ReportIo where
  createObject : Bool := true
  print : Bool := true
  msgBuf : Bool := true
  nlmsgNew : Bool := true
  nlmsgPut : Bool := true
  unicast : Int := 0

/-- `af_send_msg_to_user`: the returned value, and the text that was handed to
the daemon. The length is a `uint16_t`. -/
def afSendMsgToUser (io : ReportIo) (pbuf : CStr) : Int × Option CStr :=
  let len := pbuf.length % 2 ^ 16
  if len ≥ maxOafNlMsgLen then (-1, none)
  else if !io.msgBuf then (-1, none)
  else if !io.nlmsgNew then (-1, none)
  else if !io.nlmsgPut then (-1, none)
  else (io.unicast, if io.unicast < 0 then none else some (pbuf.take len))

/-- `__af_visit_info_report`: the record afterwards, and the outcome of
`af_send_msg_to_user` when it was called. The slots are emptied while the object
is built, the counters of the period after the call. -/
def afVisitInfoReport (mac : Mac) (io : ReportIo) (c : AfClientNode) :
    AfClientNode × Option (Int × Option CStr) :=
  if !io.createObject then (c, none)
  else
    let drained := { c with
      visitInfo := fun i => if (c.visitInfo i).appId = 0 then c.visitInfo i else {} }
    if !io.print then (drained, none)
    else ({ drained with periodFlow := {} }, some (afSendMsgToUser io (reportText mac c)))

/-! ## The timer -/

/-- `af_update_client_status`. -/
def afUpdateClientStatus (c : AfClientNode) : AfClientNode :=
  let period : FlowStat := { c.periodFlow with
    downBytes :=
      if 0 < c.lastFlow.downBytes then
        c.periodFlow.downBytes + (c.flow.downBytes - c.lastFlow.downBytes)
      else c.periodFlow.downBytes
    upBytes :=
      if 0 < c.lastFlow.upBytes then
        c.periodFlow.upBytes + (c.flow.upBytes - c.lastFlow.upBytes)
      else c.periodFlow.upBytes }
  let half (last now : Nat) : BitVec 32 := BitVec.ofNat 32 ((now - last) / 2)
  let rate : FlowRate :=
    { upRate := half c.lastFlow.upBytes c.flow.upBytes
      downRate := half c.lastFlow.downBytes c.flow.downBytes
      pktUpRate := half c.lastFlow.upPkts c.flow.upPkts
      pktDownRate := half c.lastFlow.downPkts c.flow.downPkts }
  let c := { c with periodFlow := period, rate := rate, lastFlow := c.flow }
  if rate.pktDownRate > 10 ∨ rate.pktUpRate > 5 then
    { c with activeTime := c.activeTime + 1, inactiveTime := 0, active := true }
  else
    { c with
      inactiveTime := c.inactiveTime + 1
      activeTime := 0
      active := c.active && !decide (c.inactiveTime + 1 > 30) }

/-- `client_timer_handler`: the record after a tick, and the outcome of the
report when the tick sent one. -/
def clientTimerHandler (mac : Mac) (io : ReportIo) (c : AfClientNode) :
    AfClientNode × Option (Int × Option CStr) :=
  let r :=
    if c.timerCount ≥ 30 then
      let r := afVisitInfoReport mac io c
      ({ r.1 with timerCount := 0 }, r.2)
    else (c, none)
  ({ afUpdateClientStatus r.1 with timerCount := r.1.timerCount + 1 }, r.2)

/-! ## The counters after each function -/

@[simp] theorem afUpdateClientStatus_flow (c : AfClientNode) :
    (afUpdateClientStatus c).flow = c.flow := by
  unfold afUpdateClientStatus
  dsimp only
  split <;> rfl

@[simp] theorem afUpdateClientStatus_lastFlow (c : AfClientNode) :
    (afUpdateClientStatus c).lastFlow = c.flow := by
  unfold afUpdateClientStatus
  dsimp only
  split <;> rfl

theorem afUpdateClientStatus_periodFlow (c : AfClientNode) :
    (afUpdateClientStatus c).periodFlow =
      { c.periodFlow with
        downBytes :=
          if 0 < c.lastFlow.downBytes then
            c.periodFlow.downBytes + (c.flow.downBytes - c.lastFlow.downBytes)
          else c.periodFlow.downBytes
        upBytes :=
          if 0 < c.lastFlow.upBytes then
            c.periodFlow.upBytes + (c.flow.upBytes - c.lastFlow.upBytes)
          else c.periodFlow.upBytes } := by
  unfold afUpdateClientStatus
  dsimp only
  split <;> rfl

/-- What a report does to the counters: a report that reached
`af_send_msg_to_user` ends the period, another one changes nothing. -/
theorem afVisitInfoReport_cases (mac : Mac) (io : ReportIo) (c : AfClientNode) :
    (afVisitInfoReport mac io c).1.flow = c.flow ∧
      (afVisitInfoReport mac io c).1.lastFlow = c.lastFlow ∧
      (afVisitInfoReport mac io c).1.periodFlow =
        if (afVisitInfoReport mac io c).2.isSome then {} else c.periodFlow := by
  unfold afVisitInfoReport
  split
  · exact ⟨rfl, rfl, rfl⟩
  · dsimp only
    split
    · exact ⟨rfl, rfl, rfl⟩
    · exact ⟨rfl, rfl, rfl⟩

end OpenAppFilter.Kernel
