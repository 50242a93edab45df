import OpenAppFilter.Base.CText
import OpenAppFilter.Base.Rows

/-!
# The traffic collector (`traffic.uc`)

One run of `collect_traffic`: take the device list from `get_all_users`, turn
the counters into increments against the snapshot of the last run, add the
increments to the tables and replace the snapshot. The increment of the whole
network is computed from the sum of the counters of this run, those of the
devices one by one.

Runs are serial, so the lock is free. The database is kept as its tables.
Counters and times are whole numbers; `sprintf` and `sqlite3` pass them on
unchanged.
-/

namespace OpenAppFilter.Traffic

open Base

/-! ## Devices -/

/-- A pair of byte counters. -/
structure Flow where
  up : Nat := 0
  down : Nat := 0
  deriving DecidableEq, Repr

namespace Flow

def add (a b : Flow) : Flow := ⟨a.up + b.up, a.down + b.down⟩

def sum (fs : List Flow) : Flow := fs.foldr add {}

end Flow

/-- One element of `data.list`; a missing string is empty. -/
structure Device where
  ip : CStr := []
  ipv6 : CStr := []
  mac : CStr := []
  nickname : CStr := []
  hostname : CStr := []
  todayFlow : Flow := {}
  online : Int := 0

/-- A device that counts in this run. -/
structure Sample where
  ips : List CStr
  mac : CStr
  hostname : CStr
  flow : Flow

/-- An address that is set. -/
def validIp (ip unset : CStr) : Bool := ip ≠ [] && ip ≠ unset && ip ≠ "unknown".toList

/-- Step 2 for one device: devices without an address, and devices that are
offline and have no traffic, are skipped. -/
def sampleOf (d : Device) : Option Sample :=
  let ips := (if validIp d.ip "0.0.0.0".toList then [d.ip] else []) ++
    (if validIp d.ipv6 "::".toList then [d.ipv6] else [])
  match ips with
  | [] => none
  | ip :: _ =>
      if d.todayFlow.up = 0 ∧ d.todayFlow.down = 0 ∧ d.online = 0 then none
      else some
        { ips := ips
          mac := if d.mac = [] then "unknown_".toList ++ ip else d.mac
          hostname := if d.nickname ≠ [] then d.nickname else d.hostname
          flow := d.todayFlow }

/-! ## Database -/

/-- A key of `traffic_last_capture`: `'global'` or `'mac:' + mac`. -/
inductive CaptureKey where
  | global
  | mac (mac : CStr)
  deriving DecidableEq

/-- The columns of `traffic_ip_daily`. -/
structure IpRow where
  ipList : CStr
  hostname : CStr
  flow : Flow

/-- The tables; `traffic_minute` is keyed by date and time, `traffic_ip_daily` by
date and MAC. -/
structure TrafficDb where
  lastCapture : List (CaptureKey × Flow) := []
  daily : List (CStr × Flow) := []
  monthly : List (CStr × Flow) := []
  yearly : List (CStr × Flow) := []
  minute : List ((CStr × CStr) × Flow) := []
  ipDaily : List ((CStr × CStr) × IpRow) := []

/-- The captured counters of a key; 0 when there are none. -/
def TrafficDb.captured (db : TrafficDb) (k : CaptureKey) : Flow :=
  (rowOf k db.lastCapture).getD {}

/-! ## One run -/

/-- `compute_delta`: a counter that has fallen was reset at midnight. -/
def computeDelta (current last : Nat) : Nat :=
  if last = 0 then current
  else if current ≥ last then current - last
  else current

def Flow.delta (current last : Flow) : Flow :=
  ⟨computeDelta current.up last.up, computeDelta current.down last.down⟩

/-- What a run reads from outside: the date and time texts, and the device
list. -/
structure Collection where
  today : CStr
  month : CStr
  year : CStr
  time : CStr
  devices : List Device

/-- Comma-separated addresses. -/
def ipListText (ips : List CStr) : CStr := (ips.intersperse [',']).flatten

/-- The row of one device in `traffic_ip_daily`. -/
def addDeviceRow (db : TrafficDb) (today : CStr) (rows : List ((CStr × CStr) × IpRow)) (s : Sample) :
    List ((CStr × CStr) × IpRow) :=
  let delta := s.flow.delta (db.captured (.mac s.mac))
  upsert (today, s.mac) ⟨ipListText s.ips, s.hostname, delta⟩
    (fun row => ⟨ipListText s.ips, s.hostname, row.flow.add delta⟩) rows

/-- `collect_traffic`. -/
def collectTraffic (db : TrafficDb) (c : Collection) : TrafficDb :=
  if c.devices = [] then db
  else
    let samples := c.devices.filterMap sampleOf
    let total := Flow.sum (samples.map (·.flow))
    let delta := total.delta (db.captured .global)
    { lastCapture := samples.foldl (fun rows s => upsert (.mac s.mac) s.flow (fun _ => s.flow) rows)
        (upsert .global total (fun _ => total) db.lastCapture)
      daily := upsert c.today delta (·.add delta) db.daily
      monthly := upsert c.month delta (·.add delta) db.monthly
      yearly := upsert c.year delta (·.add delta) db.yearly
      minute := upsert (c.today, c.time) delta (·.add delta) db.minute
      ipDaily := samples.foldl (addDeviceRow db c.today) db.ipDaily }

end OpenAppFilter.Traffic
