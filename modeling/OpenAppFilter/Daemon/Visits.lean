import Mathlib.Logic.Function.Basic
import OpenAppFilter.Base.Run
import OpenAppFilter.Daemon.Split

/-!
# App usage of the devices (`appfilter_netlink.c`, `appfilter_user.c`)

What a report of the kernel says about apps, and what the daemon keeps of it: a
counter for each app in `stat`, and sessions in `visit_htable`, 64 lists by app
id. Sessions are marked as expired by one pass and taken out by another.

Conventions.

* `stat[32][512]` is memory from its first cell on; the cells from 32 * 512 on
  belong to other fields. The ids the handler accepts are positive, and so are
  the indices it computes.
* A list is kept from its head. `flush_expire_visit_info` unlinks what is marked
  and leaves the rest in its order.
* Times are `u_int32_t`. The clock does not go back.
* A device is found by the first `MAX_MAC_LEN` characters of its MAC.
-/

namespace OpenAppFilter.Daemon

open Base

def maxVisitHashSize : Nat := 64
def maxAppType : Nat := 32
def maxAppIdNum : Nat := 512
def reportIntervalSecs : UInt32 := 60

/-- `visit_info_t` -/
structure VisitInfo where
  appid : Int32
  firstTime : UInt32
  latestTime : UInt32
  action : Int32
  expire : Bool := false
  deriving DecidableEq

abbrev VisitTable := Fin maxVisitHashSize → List VisitInfo

/-- The fields of `dev_node_t` about apps, as `calloc` leaves them. -/
structure DevUsage where
  stat : Nat → UInt32 := fun _ => 0
  visitHtable : VisitTable := fun _ => []

/-- `hash_appid` -/
def hashAppid (appid : Int32) : Fin maxVisitHashSize :=
  ⟨(appid % 63).toInt.toNat % maxVisitHashSize, Nat.mod_lt _ (by decide)⟩

/-- One element of `visit_info`; a member that is missing reads as 0. -/
structure VisitReport where
  appid : Int32
  latestAction : Int32

/-- `get_app_name_by_id` -/
def getAppNameById (table : List (Int32 × CStr)) (id : Int32) : CStr :=
  ((table.find? (fun app => app.1 = id)).map Prod.snd).getD []

/-! ## The handler -/

/-- What the daemon knows when a report comes in. -/
structure UsageClock where
  now : UInt32
  gFeatureUpdateTime : UInt32 := 0
  appNameTable : List (Int32 × CStr) := []

/-- The element passes the two checks of the handler: soon after a feature update
the app has a name, and the id has a type and a number. -/
def UsageClock.accepts (c : UsageClock) (appid : Int32) : Bool :=
  !(decide (c.now - c.gFeatureUpdateTime < 300) &&
      decide (getAppNameById c.appNameTable appid = [])) &&
    decide (0 < appid / 1000) && decide (0 < appid % 1000)

/-- The cell `stat[appid / 1000 - 1][appid % 1000 - 1]`. -/
def statIndex (appid : Int32) : Nat :=
  ((appid / 1000).toInt.toNat - 1) * maxAppIdNum + ((appid % 1000).toInt.toNat - 1)

/-- `(p->appid == appid) && (cur_time - p->latest_time < 300)` -/
def VisitInfo.continues (now : UInt32) (appid : Int32) (p : VisitInfo) : Bool :=
  decide (p.appid = appid) && decide (now - p.latestTime < 300)

/-- The search for a session that goes on: its action and its latest time are
written. -/
def extendVisit (now : UInt32) (v : VisitReport) : List VisitInfo → Option (List VisitInfo)
  | [] => none
  | p :: rest =>
      if p.continues now v.appid then some ({ p with action := v.latestAction, latestTime := now } :: rest)
      else (extendVisit now v rest).map (p :: ·)

/-- The session `add_visit_info_node` puts at the head. -/
def newVisit (now : UInt32) (v : VisitReport) : VisitInfo :=
  { appid := v.appid, firstTime := now, latestTime := now, action := v.latestAction }

/-- The loop body of `appfilter_nl_handler` for one element. -/
def reportVisit (c : UsageClock) (u : DevUsage) (v : VisitReport) : DevUsage :=
  if c.accepts v.appid then
    let l := u.visitHtable (hashAppid v.appid)
    { stat := Function.update u.stat (statIndex v.appid) (u.stat (statIndex v.appid) + reportIntervalSecs)
      visitHtable := Function.update u.visitHtable (hashAppid v.appid)
        ((extendVisit c.now v l).getD (newVisit c.now v :: l)) }
  else u

/-- The end of `appfilter_nl_handler`: all elements of `visit_info`. -/
def reportVisits (c : UsageClock) (visits : List VisitReport) (u : DevUsage) : DevUsage :=
  visits.foldl (reportVisit c) u

/-! ## Reading the counters -/

/-- The row `stat[i]`, each cell with the app id the readers take it for,
`(i + 1) * 1000 + j + 1`. -/
def statRow (u : DevUsage) (i : Nat) : List (Int × UInt32) :=
  (List.range maxAppIdNum).map (fun j => (((i + 1) * 1000 + j + 1 : Nat), u.stat (i * maxAppIdNum + j)))

/-- `update_app_class_visit_time_list`: `visit_time[i]`. -/
def updateAppClassVisitTimeList (u : DevUsage) (i : Nat) : Int32 :=
  (statRow u i).foldl (fun time cell => if cell.2 = 0 then time else time + cell.2.toInt32) 0

def maxStatAppNum : Nat := 128

/-- What the loops of `update_top5_app` write to `app_visit_array`. -/
def appVisitCells (u : DevUsage) : List (Int × UInt32) :=
  ((List.range maxAppType).flatMap (statRow u)).filter (fun cell => cell.2 ≠ 0)

/-- `app_visit_array` before it is sorted, unless the loops write behind it. -/
def appVisitArray (u : DevUsage) : Option (List (Int × UInt32)) :=
  if (appVisitCells u).length ≤ maxStatAppNum then some (appVisitCells u) else none

/-! ## Marking and flushing -/

def maxRecordTime : Int32 := 86400
def recordRemainTime : Int32 := 3600
def invalidRecordTime : Int32 := 300

/-- The marks of `check_dev_visit_info_expire`. -/
def VisitInfo.checkExpire (now : UInt32) (p : VisitInfo) : VisitInfo :=
  let totalTime := (p.latestTime - p.firstTime).toInt32
  let intervalTime := (now - p.firstTime).toInt32
  if maxRecordTime < intervalTime ∨ intervalTime < 0 then { p with expire := true }
  else if recordRemainTime < intervalTime ∧ totalTime < invalidRecordTime then
    { p with expire := true }
  else p

/-- A loop over all sessions of a device. -/
def DevUsage.mapVisits (f : VisitInfo → VisitInfo) (u : DevUsage) : DevUsage :=
  { u with visitHtable := fun i => (u.visitHtable i).map f }

/-- `flush_expire_visit_info`, for one device. -/
def DevUsage.flushVisits (u : DevUsage) : DevUsage :=
  { u with visitHtable := fun i => (u.visitHtable i).filter (fun p => !p.expire) }

/-- The sessions of a device, list by list. -/
def DevUsage.sessions (u : DevUsage) : List VisitInfo :=
  (List.finRange maxVisitHashSize).flatMap u.visitHtable

/-! ## The daemon -/

abbrev UsageTable := HTable CStr DevUsage maxDevNodeHashSize devHashMac

structure UsageState extends UsageClock where
  devs : UsageTable := HTable.empty

/-- `check_dev_visit_info_expire` -/
def checkDevVisitInfoExpire (s : UsageState) : UsageState :=
  { s with devs := s.devs.mapVals (fun _ u => u.mapVisits (VisitInfo.checkExpire s.now)) }

/-- `flush_expire_visit_info` -/
def flushExpireVisitInfo (s : UsageState) : UsageState :=
  { s with devs := s.devs.mapVals (fun _ u => u.flushVisits) }

/-- An app that is not in the table any more. -/
def UsageClock.unnamed (c : UsageClock) (p : VisitInfo) : Bool :=
  decide (getAppNameById c.appNameTable p.appid = [])

/-- `clean_invalid_app_records`; it flushes when it has marked a session. -/
def cleanInvalidAppRecords (s : UsageState) : UsageState :=
  let marked := { s with
    devs := s.devs.mapVals (fun _ u => u.mapVisits (fun p =>
      if s.unnamed p then { p with expire := true } else p)) }
  if s.devs.entries.any (fun e => e.2.sessions.any s.unnamed) then flushExpireVisitInfo marked
  else marked

/-- `memset(node->stat, 0, sizeof(node->stat))` -/
def DevUsage.clearStat (u : DevUsage) : DevUsage :=
  { u with stat := fun cell => if cell < maxAppType * maxAppIdNum then 0 else u.stat cell }

/-- `clear_device_app_statistics` -/
def clearDeviceAppStatistics (s : UsageState) : UsageState :=
  { s with devs := s.devs.mapVals (fun _ u => u.clearStat) }

/-- The marks `check_dev_expire` leaves on the sessions of the devices it expires. -/
def markDevVisits (expired : CStr → Bool) (s : UsageState) : UsageState :=
  { s with
    devs := s.devs.mapVals (fun mac u =>
      if expired mac then u.mapVisits (fun p => { p with expire := true }) else u) }

/-- A report: the device is found or added, and its usage updated. -/
def reportUsage (s : UsageState) (mac : CStr) (visits : List VisitReport) : UsageState :=
  { s with
    devs := (s.devs.addNew (mac.take maxMacLen) {}).modify (mac.take maxMacLen)
      (reportVisits s.toUsageClock visits) }

inductive UsageAct where
  /-- the clock goes on to `t` -/
  | clock (t : UInt32)
  | report (mac : CStr) (visits : List VisitReport)
  | checkVisits
  | flushVisits
  | cleanInvalid
  /-- `init_app_name_table` -/
  | loadNames (table : List (Int32 × CStr))
  /-- `g_feature_update_time = get_timestamp()` -/
  | featureUpdated
  | clearStatistics
  | checkDevs (expired : CStr → Bool)
  /-- `flush_dev_expire_node`, `flush_offline_users` -/
  | flushDevs (gone : CStr → Bool)

def usageStep (s : UsageState) : UsageAct → UsageState
  | .clock t => if s.now ≤ t then { s with now := t } else s
  | .report mac visits => reportUsage s mac visits
  | .checkVisits => checkDevVisitInfoExpire s
  | .flushVisits => flushExpireVisitInfo s
  | .cleanInvalid => cleanInvalidAppRecords s
  | .loadNames table => { s with appNameTable := table }
  | .featureUpdated => { s with gFeatureUpdateTime := s.now }
  | .clearStatistics => clearDeviceAppStatistics s
  | .checkDevs expired => markDevVisits expired s
  | .flushDevs gone => { s with devs := s.devs.filter (fun mac _ => !gone mac) }

end OpenAppFilter.Daemon
