import OpenAppFilter.Base.Chain
import OpenAppFilter.Daemon.Devices
import OpenAppFilter.Daemon.Visits

/-!
# The device table as lists in memory (`appfilter_user.c`)

The daemon's table of devices, with nothing assumed of it: 64 heads, and nodes in
memory that point at each other. The loops follow the pointers, `add_dev_node` does
not look whether the MAC is there, and the flushes unlink and free while they walk.

Conventions.

* The MAC of a node is what `strncpy` leaves in `mac[32]`, and so are its other
  texts.
* `calloc` returns memory nothing is in, or `NULL`; so an address that is in use
  stands for `NULL`.
* The visits of a node go with it. What reads a table and writes nothing is left
  out.
* A loop is given as many rounds as nodes were ever added, `g_cur_user_num`; no
  loop ends for want of rounds. An operation reads the clock once.
-/

namespace OpenAppFilter.Daemon

open Base

/-! ## Nodes -/

/-- `dev_node_t`, without `mac` and `next`. -/
structure DevInfo extends DevNode, DevUsage where
  ip : CStr := []
  ipv6 : CStr := []
  hostname : CStr := []
  expire : Bool := false
  offlineTime : UInt32 := 0
  onlineTime : UInt32 := 0
  upRate : UInt32 := 0
  downRate : UInt32 := 0
  todayUpBytes : UInt64 := 0
  todayDownBytes : UInt64 := 0
  active : Int32 := 0

/-- `strncpy` into an array of `size` characters. -/
def strncpy (size : Nat) (text : CStr) : CStr := text.take size

def maxIpLen : Nat := 32
def maxHostnameSize : Nat := 64

/-- What a report of the kernel says, without its MAC; a member that is missing is
`none`. -/
structure DevReport where
  ip : Option CStr := none
  active : Option Int32 := none
  upFlow : Option UInt64 := none
  downFlow : Option UInt64 := none
  visits : List VisitReport := []

/-- `appfilter_nl_handler`, behind the lookup of the device. -/
def DevInfo.report (c : UsageClock) (hour : Fin 24) (r : DevReport) (d : DevInfo) : DevInfo :=
  { d with
    toDevNode := if isActive r.active then d.toDevNode.addMinute hour else d.toDevNode
    toDevUsage := reportVisits c r.visits d.toDevUsage
    ip := (r.ip.map (strncpy maxIpLen)).getD d.ip
    active := r.active.getD d.active
    todayUpBytes := d.todayUpBytes + r.upFlow.getD 0 * 1024
    todayDownBytes := d.todayDownBytes + r.downFlow.getD 0 * 1024 }

/-- A line of `/tmp/dhcp.leases` the device was added for. -/
def DevInfo.leased (now : UInt32) (ip : CStr) (d : DevInfo) : DevInfo :=
  { d with ip := strncpy maxIpLen ip, online := false, offlineTime := now }

/-- The host name of a lease; `*` stands for none. -/
def DevInfo.named (hostname : CStr) (d : DevInfo) : DevInfo :=
  if hostname ≠ [] ∧ hostname.head? ≠ some '*' then
    { d with hostname := strncpy maxHostnameSize hostname }
  else d

/-- A line of `/proc/net/af_client`; a column that is missing is `none`. -/
structure DevClientLine where
  mac : CStr
  ip : CStr
  ipv6 : Option CStr := none
  upRate : Option UInt32 := none
  downRate : Option UInt32 := none

/-- `update_dev_from_kernel`, for one line. -/
def DevInfo.client (l : DevClientLine) (d : DevInfo) : DevInfo :=
  { d with
    ip := strncpy maxIpLen l.ip
    ipv6 := strncpy 64 (l.ipv6.getD [])
    upRate := l.upRate.getD 0
    downRate := l.downRate.getD 0
    online := true }

/-- `load_user_time_from_file`, for one line. -/
def DevInfo.setMinutes (am pm : UInt32) (d : DevInfo) : DevInfo :=
  { d with todayAmActiveTime := am, todayPmActiveTime := pm }

/-- `clean_dev_online_status`, for one node. -/
def DevInfo.cleanOnline (now : UInt32) (d : DevInfo) : DevInfo :=
  if d.online then { d with offlineTime := now, online := false } else d

/-- `DEV_OFFLINE_TIME` -/
def devOfflineTime : Int32 := 24 * 3600 * 7

/-- `check_dev_expire`, for one node. -/
def DevInfo.checkExpire (now : UInt32) (d : DevInfo) : DevInfo :=
  if d.online then d
  else if devOfflineTime < (now - d.offlineTime).toInt32 then
    { d with
      expire := true
      toDevUsage := d.toDevUsage.mapVisits (fun p => { p with expire := true }) }
  else d

/-! ## The table -/

inductive DevLog where
  | added (mac : CStr)
  | flushed (mac : CStr)
  deriving DecidableEq

/-- `dev_hash_table`, the memory of the nodes, and which were added and flushed. -/
structure DevLists where
  devHashTable : Fin maxDevNodeHashSize → Option Nat := fun _ => none
  heap : Heap (CStr × DevInfo) := fun _ => none
  gCurUserNum : Nat := 0
  log : List DevLog := []

namespace DevLists

/-- `find_dev_node` -/
def findDevNode (s : DevLists) (mac : CStr) : Option (Option Nat) :=
  findLoop (fun node => decide (node.1 = strncpy maxMacLen mac)) s.gCurUserNum s.heap
    (s.devHashTable (devHashMac mac))

/-- `add_dev_node` -/
def addDevNode (s : DevLists) (mac : CStr) (calloc : Option Nat) (now : UInt32) :
    DevLists × Option Nat :=
  match calloc.filter (fun a => (s.heap a).isNone) with
  | none => (s, none)
  | some a =>
      let node : Cell (CStr × DevInfo) :=
        ⟨(strncpy maxMacLen mac, { online := true, onlineTime := now }), s.devHashTable (devHashMac mac)⟩
      ({ devHashTable := Function.update s.devHashTable (devHashMac mac) (some a)
         heap := Function.update s.heap a (some node)
         gCurUserNum := s.gCurUserNum + 1
         log := s.log ++ [.added (strncpy maxMacLen mac)] }, some a)

/-- Write the fields of a node. -/
def writeNode (s : DevLists) (a : Nat) (f : DevInfo → DevInfo) : Option DevLists :=
  match s.heap a with
  | none => none
  | some node =>
      some { s with
        heap := Function.update s.heap a (some ⟨(node.val.1, f node.val.2), node.next⟩) }

/-- `node = find_dev_node(mac); if (!node) node = add_dev_node(mac);` with what is
written to a node just added, and to any. -/
def reachNode (s : DevLists) (mac : CStr) (calloc : Option Nat) (now : UInt32)
    (fresh f : DevInfo → DevInfo) : Option DevLists :=
  match s.findDevNode mac with
  | none => none
  | some (some a) => s.writeNode a f
  | some none =>
      match s.addDevNode mac calloc now with
      | (s, none) => some s
      | (s, some a) => s.writeNode a (fun d => f (fresh d))

/-- `node = find_dev_node(mac); if (!node) continue;` -/
def knownNode (s : DevLists) (mac : CStr) (f : DevInfo → DevInfo) : Option DevLists :=
  match s.findDevNode mac with
  | none => none
  | some none => some s
  | some (some a) => s.writeNode a f

/-- `dev_foreach`, and the loops that are written out like it. -/
def devForeach (s : DevLists) (f : DevInfo → DevInfo) : Option DevLists :=
  (bucketLoop (O := Unit)
    (fun h p => (mapLoop (fun node => (node.1, f node.2)) s.gCurUserNum h p).map (fun h => (h, p, [])))
    (List.finRange maxDevNodeHashSize) s.heap s.devHashTable).map
      (fun r => { s with heap := r.1, devHashTable := r.2.1 })

/-- The loops of `flush_dev_expire_node` and `flush_offline_users`: the nodes with
the flag are unlinked and freed. -/
def flushNodes (s : DevLists) (flag : DevInfo → Bool) : Option DevLists :=
  (bucketLoop
    (fun h p => unlinkLoop (fun node => flag node.2) s.gCurUserNum h p none p)
    (List.finRange maxDevNodeHashSize) s.heap s.devHashTable).map
      (fun r => { s with
        heap := r.1
        devHashTable := r.2.1
        log := s.log ++ r.2.2.map (fun node => .flushed node.1) })

def cleanDevOnlineStatus (s : DevLists) (now : UInt32) : Option DevLists :=
  s.devForeach (DevInfo.cleanOnline now)

def checkDevExpire (s : DevLists) (now : UInt32) : Option DevLists :=
  s.devForeach (DevInfo.checkExpire now)

def flushDevExpireNode (s : DevLists) : Option DevLists := s.flushNodes (fun d => d.expire)

def flushOfflineUsers (s : DevLists) : Option DevLists := s.flushNodes (fun d => !d.online)

end DevLists

/-! ## Runs -/

/-- What is done to the table; `calloc` is what the allocator returns when a node
is added. -/
inductive DevAct where
  /-- `appfilter_nl_handler` -/
  | report (mac : CStr) (calloc : Option Nat) (now : UsageClock) (hour : Fin 24) (r : DevReport)
  /-- a line of `update_dev_hostname` -/
  | lease (mac ip hostname : CStr) (calloc : Option Nat) (now : UInt32)
  /-- a line of `update_dev_from_kernel` -/
  | client (l : DevClientLine) (calloc : Option Nat) (now : UInt32)
  /-- a line of `load_user_time_from_file` -/
  | userLine (mac : CStr) (am pm : UInt32) (calloc : Option Nat) (now : UInt32)
  /-- other fields of one node: nickname, visited app, selection -/
  | write (mac : CStr) (f : DevInfo → DevInfo)
  /-- other fields of all nodes: the same cleared, counters reset -/
  | writeAll (f : DevInfo → DevInfo)
  | cleanOnline (now : UInt32)
  | checkExpire (now : UInt32)
  | flushExpired
  | flushOffline

def devStep (s : DevLists) : DevAct → Option DevLists
  | .report mac calloc c hour r => s.reachNode mac calloc c.now id (DevInfo.report c hour r)
  | .lease mac ip hostname calloc now =>
      s.reachNode mac calloc now (DevInfo.leased now ip) (DevInfo.named hostname)
  | .client l calloc now =>
      if l.mac.length < 17 then some s else s.reachNode l.mac calloc now id (DevInfo.client l)
  | .userLine mac am pm calloc now => s.reachNode mac calloc now id (DevInfo.setMinutes am pm)
  | .write mac f => s.knownNode mac f
  | .writeAll f => s.devForeach f
  | .cleanOnline now => s.cleanDevOnlineStatus now
  | .checkExpire now => s.checkDevExpire now
  | .flushExpired => s.flushDevExpireNode
  | .flushOffline => s.flushOfflineUsers

end OpenAppFilter.Daemon
