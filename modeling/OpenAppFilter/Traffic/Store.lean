import Mathlib.Data.Char
import Mathlib.Data.List.Lex
import OpenAppFilter.Base.Run
import OpenAppFilter.Traffic.Collect

/-!
# The traffic store (`traffic.uc`)

The database lies in memory. `collect_traffic` adds to it and once a day deletes
old rows, `persist` saves it to flash, `restore` reads it back, a power cut loses
it, and `query_stats` shows a year, a month or a day: the rows of its parts and
the row of the whole.

Conventions.

* One command runs at a time, and each comes to its end; a power cut may spoil the
  backup that is being written.
* A date is asked for as the number of its year, month and day.
* The cutoffs of a deletion are the texts `sqlite3` computes for them.
* A database file without tables counts as one whose tables are empty.
-/

namespace OpenAppFilter.Traffic

open Base

/-! ## Dates -/

/-- `sprintf('%02d', n)` -/
def paddedNumber (n : Nat) : CStr :=
  if n < 10 then '0' :: Nat.toDigits 10 n else Nat.toDigits 10 n

def yearText (year : Nat) : CStr := Nat.toDigits 10 year

def monthText (year mon : Nat) : CStr := yearText year ++ '-' :: paddedNumber mon

def dateText (year mon mday : Nat) : CStr := monthText year mon ++ '-' :: paddedNumber mday

/-- What `localtime` gives: months and days are counted from 1. -/
structure LocalTime where
  year : Nat
  mon : Nat
  mday : Nat
  hour : Nat
  min : Nat
  mon_pos : 0 < mon
  mday_pos : 0 < mday

/-- `time_str` and `now_time` -/
def LocalTime.timeText (t : LocalTime) : CStr := paddedNumber t.hour ++ ':' :: paddedNumber t.min

/-- What a run of `collect_traffic` at a time reads. -/
def collectionAt (t : LocalTime) (devices : List Device) : Collection where
  today := dateText t.year t.mon t.mday
  month := monthText t.year t.mon
  year := yearText t.year
  time := t.timeText
  devices := devices

/-! ## Deleting -/

/-- `date('now', ...)` and `strftime(..., 'now', ...)` of a deletion. -/
structure Cutoffs where
  days : CStr
  minutes : CStr
  months : CStr
  years : CStr

/-- `DELETE FROM table WHERE key < cutoff`. -/
def deleteBefore {α : Type} (cutoff : CStr) (rows : List (CStr × α)) : List (CStr × α) :=
  deleteRows (fun key => decide (key < cutoff)) rows

/-- The same for a table whose key begins with the date. -/
def deleteDatesBefore {β α : Type} (cutoff : CStr) (rows : List ((CStr × β) × α)) :
    List ((CStr × β) × α) :=
  deleteRows (fun key => decide (key.1 < cutoff)) rows

/-- `cleanup` -/
def TrafficDb.cleanup (db : TrafficDb) (days minutes : CStr) : TrafficDb :=
  { db with
    daily := deleteBefore days db.daily
    ipDaily := deleteDatesBefore days db.ipDaily
    minute := deleteDatesBefore minutes db.minute }

/-- The deletions of `collect_traffic`. -/
def TrafficDb.autoCleanup (db : TrafficDb) (cut : Cutoffs) : TrafficDb :=
  { db.cleanup cut.days cut.minutes with
    monthly := deleteBefore cut.months db.monthly
    yearly := deleteBefore cut.years db.yearly }

/-! ## The store -/

/-- `/etc/oaf/traffic.db.bak`. -/
inductive Backup where
  | missing
  | damaged
  | saved (db : TrafficDb)

structure TrafficStore where
  /-- `/tmp/oaf/traffic.db`, when it is there. -/
  db : Option TrafficDb := none
  backup : Backup := .missing
  /-- `appfilter.traffic.last_cleanup`. -/
  lastCleanup : Int := 0

inductive TrafficAct where
  | collect (now : Int) (t : LocalTime) (devices : List Device) (cut : Cutoffs)
  | cleanup (days minutes : CStr)
  | persist
  | restore
  | clearBackup
  | powerCut (spoilsBackup : Bool)

/-- `init_db`, then `collect_traffic`; the deletions are due when the last are more than a day
past. -/
def TrafficStore.collect (s : TrafficStore) (now : Int) (t : LocalTime) (devices : List Device)
    (cut : Cutoffs) : TrafficStore :=
  let db := collectTraffic (s.db.getD {}) (collectionAt t devices)
  if devices ≠ [] ∧ now - s.lastCleanup > 86400 then
    { s with db := some (db.autoCleanup cut), lastCleanup := now }
  else { s with db := some db }

def TrafficStore.persist (s : TrafficStore) : TrafficStore :=
  match s.db with
  | none => s
  | some db => { s with backup := .saved db }

/-- `restore`: a backup that fails the integrity check is removed. -/
def TrafficStore.restore (s : TrafficStore) : TrafficStore :=
  match s.backup with
  | .missing => s
  | .damaged => { s with backup := .missing }
  | .saved db => { s with db := some db }

def trafficStep (s : TrafficStore) : TrafficAct → TrafficStore
  | .collect now t devices cut => s.collect now t devices cut
  | .cleanup days minutes => { s with db := some ((s.db.getD {}).cleanup days minutes) }
  | .persist => s.persist
  | .restore => s.restore
  | .clearBackup => { s with backup := .missing }
  | .powerCut spoilsBackup =>
      { s with db := none, backup := if spoilsBackup then .damaged else s.backup }

/-! ## Queries -/

/-- What `query_stats` shows of the network: the parts of the period in their order, and the
period itself. -/
structure Stats where
  parts : List (CStr × Flow)
  whole : List (CStr × Flow)

/-- `key LIKE "date-%"` -/
def within (date key : CStr) : Bool := (date ++ ['-']).isPrefixOf key

/-- `SELECT ... WHERE ... ORDER BY key` -/
def selectRows (p : CStr → Bool) (rows : List (CStr × Flow)) : List (CStr × Flow) :=
  (rows.filter (fun row => p row.1)).mergeSort (fun a b => decide (a.1 ≤ b.1))

def TrafficDb.queryYear (db : TrafficDb) (year : Nat) : Stats where
  parts := selectRows (within (yearText year)) db.monthly
  whole := db.yearly.filter (fun row => row.1 = yearText year)

def TrafficDb.queryMonth (db : TrafficDb) (year mon : Nat) : Stats where
  parts := selectRows (within (monthText year mon)) db.daily
  whole := db.monthly.filter (fun row => row.1 = monthText year mon)

/-- The minutes up to `now_time` are shown. -/
def TrafficDb.queryDay (db : TrafficDb) (year mon mday : Nat) (nowTime : CStr) : Stats where
  parts := selectRows (fun time => decide (time ≤ nowTime))
    ((db.minute.filter (fun row => row.1.1 = dateText year mon mday)).map (fun row => (row.1.2, row.2)))
  whole := db.daily.filter (fun row => row.1 = dateText year mon mday)

end OpenAppFilter.Traffic
