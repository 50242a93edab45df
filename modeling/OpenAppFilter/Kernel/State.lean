import OpenAppFilter.Base.HTable
import OpenAppFilter.Base.CText
import Mathlib.Data.BitVec

/-!
# Data model of the kernel module

The records of `app_filter.h`, `af_client.h` and `af_conntrack.h`, the packet
as the hooks see it, and the module's global state (`OafState`): the
`/proc/sys/oaf` switches, the configuration pushed through `/dev/appfilter`,
the client table, the bypass connection table and the conntrack marks.

Conventions.

* `int` switches are `Int32`, `u_int32_t` values and addresses are
  `BitVec 32`; a flag that only ever holds 0 or 1 is a `Bool`.
* IPv4 addresses are the raw `__be32` word as a little-endian CPU loads it.
* `jiffies` is the unwrapped tick count; the code only sees it modulo a word.
* A pointer into a buffer is an offset from the buffer's start, `none` is
  `NULL`. The memory behind a buffer's end is part of `Mem`, so a read past
  the end reads some byte.
* The mac of a client record and the tuple of a connection are the keys of
  their hash tables, not fields of the records.
-/

namespace OpenAppFilter.Kernel

open Base

/-! ## Constants -/

def maxAfClientHashSize : Nat := 64
def maxAfMacHashSize : Nat := 64
def afConnHashSize : Nat := 256
def afConnTimeout : Nat := 30
def maxAfConnCheckCount : Nat := 5
def maxRecordAppNum : Nat := 64
def maxClientActiveTime : Nat := 90
def maxDpiPktNum : Nat := 64
def maxAfSupportDataLen : Int := 3000
def minHttpDataLen : Int := 16
def maxUrlMatchLen : Int := 64
def minHostLen : Nat := 4
def maxHostLen : Nat := 64
def minReportUrlLen : Nat := 4
def maxReportUrlLen : Nat := 64
def maxPosInfoPerFeature : Nat := 16
def httpsUrlOffset : Nat := 9
def httpsLenOffset : Nat := 7
def appidQuic : BitVec 32 := 10#32
def ipprotoTcp : Nat := 6
def ipprotoUdp : Nat := 17

/-! ## Addresses, memory, packets -/

/-- An Ethernet address. -/
structure Mac where
  b0 : UInt8
  b1 : UInt8
  b2 : UInt8
  b3 : UInt8
  b4 : UInt8
  b5 : UInt8
  deriving DecidableEq, Repr

abbrev Ipv4 := BitVec 32
abbrev Ipv6 := BitVec 128

/-- Memory from a base pointer on. -/
abbrev Mem := Nat → UInt8

/-- Verdict of a netfilter hook. -/
inductive Verdict where
  | accept
  | drop
  deriving DecidableEq, Repr

/-- `skb->protocol`. -/
inductive EthProto where
  | ip
  | ipv6
  | other
  deriving DecidableEq, Repr

/-- The conntrack entry of a packet: which connection it is, whether it is
confirmed, and the packet count of both directions when accounting is on. Its
mark is kept in the kernel state. -/
structure CtRef where
  id : Nat
  confirmed : Bool
  acct : Option Nat

/-- Outcome of the atomic allocations made while one packet is handled, and
the stale bytes a fresh block holds where the code does not write them. -/
structure Alloc where
  client : Bool := true
  conn : Bool := true
  buf : Bool := true
  staleIgnore : Bool := false
  staleBuf : Mem := fun _ => 0

/-- A packet. `net` is the linear memory from the network header on,
`seqRead off` the block `skb_seq_read` offers at offset `off`. -/
structure Skb where
  devName : CStr
  hSource : Mac
  protocol : EthProto
  net : Mem
  len : Nat
  nonlinear : Bool := false
  seqRead : Nat → List UInt8 := fun _ => []
  ct : Option CtRef
  alloc : Alloc := {}

/-! ## Flow descriptor -/

inductive HttpMethod where
  | get
  | post
  deriving DecidableEq, Repr

/-- `http_proto_t`. -/
structure HttpProto where
  isMatch : Bool := false
  method : Option HttpMethod := none
  urlPos : Option Nat := none
  urlLen : Int := 0
  hostPos : Option Nat := none
  hostLen : Int := 0
  dataPos : Option Nat := none
  dataLen : Int := 0

/-- `https_proto_t`. -/
structure HttpsProto where
  isMatch : Bool := false
  urlPos : Option Nat := none
  urlLen : Int := 0

/-- `range_value_t`. -/
structure RangeValue where
  isNot : Bool
  start : Int
  stop : Int

/-- `af_pos_info_t`. -/
structure AfPosInfo where
  pos : Int
  value : UInt8

/-- `af_feature_node_t`: one signature. `dportInfo` holds the `num` ranges of
`port_info_t`, `posInfo` the `pos_num` entries. -/
structure AfFeatureNode where
  appId : BitVec 32
  appName : CStr := []
  feature : CStr := []
  proto : Nat
  sport : Nat := 0
  dportInfo : List RangeValue := []
  hostUrl : CStr := []
  requestUrl : CStr := []
  searchStr : CStr := []
  posInfo : List AfPosInfo := []
  ignore : Bool := false

/-- `flow_info_t`. `l4Off` is `l4_data - skb->data`. -/
structure FlowInfo where
  src : Ipv4 := 0
  dst : Ipv4 := 0
  src6 : Option Ipv6 := none
  dst6 : Option Ipv6 := none
  l4Protocol : Nat := 0
  sport : Nat := 0
  dport : Nat := 0
  l4Off : Nat := 0
  l4Data : Mem := fun _ => 0
  l4Len : Int := 0
  http : HttpProto := {}
  https : HttpsProto := {}
  appId : BitVec 32 := 0
  drop : Bool := false
  ignore : Bool := false
  clientHello : Bool := false
  feature : Option AfFeatureNode := none

/-! ## Client records -/

/-- `flow_stat_t`. -/
structure FlowStat where
  upBytes : Nat := 0
  downBytes : Nat := 0
  upPkts : Nat := 0
  downPkts : Nat := 0

/-- `app_visit_info_t`. -/
structure AppVisitInfo where
  appId : BitVec 32 := 0
  totalNum : BitVec 32 := 0
  dropNum : BitVec 32 := 0
  latestTime : Nat := 0
  latestAction : Bool := false

/-- `visiting_info_t`. -/
structure VisitingInfo where
  visitingApp : BitVec 32 := 0
  appTime : Nat := 0
  visitingUrl : CStr := []
  urlTime : Nat := 0

/-- `af_client_info_t`; the mac is the table key. `nf_client_add` clears the
block, so the defaults are the values of a new record. -/
structure AfClientInfo where
  ip : Ipv4 := 0
  ipv6 : Ipv6 := 0
  createJiffies : Nat := 0
  updateJiffies : Nat := 0
  flow : FlowStat := {}
  visiting : VisitingInfo := {}
  visitInfo : Fin maxRecordAppNum → AppVisitInfo := fun _ => {}
  periodBlocked : Bool := false

/-- `get_mac_hash_code`. -/
def getMacHashCode (mac : Mac) : Fin maxAfClientHashSize :=
  ⟨mac.b5.toNat % maxAfClientHashSize, Nat.mod_lt _ (by decide)⟩

/-- `hash_mac`. -/
def hashMac (mac : Mac) : Fin maxAfMacHashSize :=
  ⟨((mac.b0 ^^^ mac.b1).toNat + (mac.b2 ^^^ mac.b3).toNat + (mac.b4 ^^^ mac.b5).toNat)
    % maxAfMacHashSize, Nat.mod_lt _ (by decide)⟩

/-! ## Bypass connections -/

/-- The key of `af_conn_t`. -/
structure ConnTuple where
  srcIp : Ipv4
  dstIp : Ipv4
  srcPort : Nat
  dstPort : Nat
  protocol : Nat
  deriving DecidableEq

inductive AfConnState where
  | new
  | established
  | dpiFinished
  deriving DecidableEq

/-- `af_conn_t` without its tuple. -/
structure AfConn where
  totalPkts : BitVec 32 := 0
  appId : BitVec 32 := 0
  clientHello : Bool := false
  drop : Bool := false
  ignore : Bool
  state : AfConnState := .new
  lastJiffies : Nat

/-! ## Environment and global state -/

/-- What the module takes from the kernel it is built into, and the regular
expression engine of `regexp.c` that the signature matcher calls. -/
structure Env where
  /-- `HZ` -/
  hz : Nat
  /-- bits of `unsigned long` -/
  longBits : Nat
  jhash3words : BitVec 32 → BitVec 32 → BitVec 32 → BitVec 32 → BitVec 32
  regexpMatch : CStr → CStr → Int

theorem afConnHashSize_pos : 0 < afConnHashSize := by decide

/-- `af_conn_hash`. -/
def afConnHash (env : Env) (t : ConnTuple) : Fin afConnHashSize :=
  ⟨(env.jhash3words t.srcIp t.dstIp
      (BitVec.ofNat 32 t.protocol <<< 16 ||| BitVec.ofNat 32 t.srcPort)
      (BitVec.ofNat 32 t.dstPort)).toNat % afConnHashSize, Nat.mod_lt _ afConnHashSize_pos⟩

abbrev ClientTable := HTable Mac AfClientInfo maxAfClientHashSize getMacHashCode

abbrev ConnTable (env : Env) := HTable ConnTuple AfConn afConnHashSize (afConnHash env)

/-- `af_work_mode` values. -/
def afModeGateway : Int32 := 0
def afModeBypass : Int32 := 1

/-- The module's global variables. `gAppIdArray` is the 32x512 table seen as
flat memory from its first cell on. -/
structure OafState (env : Env) where
  gOafFilterEnable : Int32 := 0
  gOafRecordEnable : Int32 := 0
  gByPassAccl : Int32 := 1
  gUserMode : Int32 := 0
  afWorkMode : Int32 := afModeGateway
  afLanIp : Ipv4 := 0
  afLanMask : Ipv4 := 0
  gLanIfname : CStr := "br-lan".toList
  gDisableQuic : Int32 := 0
  gAppFilterMode : Int32 := 0
  gSplitTime : Int32 := 0
  jiffies : Nat
  timestamp : Nat := 0
  gUpdateJiffies : BitVec 32 := 0
  gAppIdArray : Int → Bool := fun _ => false
  afMacHtable : Fin maxAfMacHashSize → List Mac := fun _ => []
  afWhitelistMacHtable : Fin maxAfMacHashSize → List Mac := fun _ => []
  afFeatureHead : List AfFeatureNode := []
  clients : ClientTable := HTable.empty
  conns : ConnTable env := HTable.empty
  /-- `last_bucket` of `af_conn_clean_timeout` -/
  connLastBucket : Fin afConnHashSize := ⟨0, afConnHashSize_pos⟩
  /-- `count` of `oaf_timer_func` -/
  oafTimerCount : Nat := 0
  ctMark : Nat → BitVec 32 := fun _ => 0

/-- `jiffies` as an `unsigned long`. -/
def OafState.jiffiesWord {env : Env} (k : OafState env) : Nat := k.jiffies % 2 ^ env.longBits

end OpenAppFilter.Kernel
