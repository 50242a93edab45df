import OpenAppFilter.Daemon.Visits

/-!
# The apps a device uses most (`appfilter_ubus.c`)

`update_app_visit_time_list` goes over the counters of a device once and keeps
eight entries, `update_top5_app` copies the counters that are not 0 to an array,
sorts it and takes the first five.

Conventions.

* `total_time` is an `int` in the list of eight. It is compared with a counter as
  an `unsigned int`, and with the `unsigned long long` of the search after sign
  extension.
* `qsort` is the C library's and stands as a parameter. The array has 128 places
  on the stack; entries behind it are written all the same, so then there is no
  result.
-/

namespace OpenAppFilter.Daemon

/-! ## The list of eight -/

def maxAppStatNum : Nat := 8

/-- `struct app_visit_info`, without the name of the app. -/
structure AppVisitEntry where
  appId : Int := 0
  totalTime : Int32 := 0
  deriving DecidableEq

abbrev VisitList := Fin maxAppStatNum → AppVisitEntry

def firstIndex : Fin maxAppStatNum := ⟨0, by decide⟩

/-- `struct app_visit_stat_info` -/
structure AppVisitStatInfo where
  num : Nat := 0
  visitList : VisitList := fun _ => {}

/-- An `int` where an `unsigned long long` is expected. -/
def asUnsignedLongLong (n : Int32) : UInt64 := n.toInt64.toUInt64

/-- The loop over `s`: it stops at the first entry below the first one. -/
def minIndex (visitList : VisitList) : Fin maxAppStatNum :=
  let min := asUnsignedLongLong (visitList firstIndex).totalTime
  ((List.finRange maxAppStatNum).find? (fun s =>
    asUnsignedLongLong (visitList s).totalTime < min)).getD firstIndex

/-- The body of the loops over `stat`. -/
def visitTimeStep (info : AppVisitStatInfo) (cell : Int × UInt32) : AppVisitStatInfo :=
  if cell.2 = 0 then info
  else
    let index : Fin maxAppStatNum :=
      if h : info.num < maxAppStatNum then ⟨info.num, h⟩ else minIndex info.visitList
    { num := info.num + 1
      visitList :=
        if (info.visitList index).totalTime.toUInt32 < cell.2 then
          Function.update info.visitList index ⟨cell.1, cell.2.toInt32⟩
        else info.visitList }

/-- `update_app_visit_time_list`; `node` is what `find_dev_node` finds. -/
def updateAppVisitTimeList (node : Option DevUsage) (visitInfo : AppVisitStatInfo) :
    AppVisitStatInfo :=
  match node with
  | none => visitInfo
  | some u =>
      let r := ((List.range maxAppType).flatMap (statRow u)).foldl visitTimeStep
        { visitInfo with num := 0 }
      { r with num := if r.num < maxAppStatNum then r.num else maxAppStatNum }

/-- The entries a caller reads. -/
def AppVisitStatInfo.shown (info : AppVisitStatInfo) : List AppVisitEntry :=
  (List.ofFn info.visitList).take info.num

/-! ## The first five -/

/-- `app_visit_time_info_t` -/
structure AppVisitTimeInfo where
  appId : Int := 0
  totalTime : UInt64 := 0
  deriving DecidableEq

/-- `visit_time_compare` -/
def visitTimeCompare (p1 p2 : AppVisitTimeInfo) : Int :=
  if p1.totalTime < p2.totalTime then 1 else -1

/-- The entry of a counter. -/
def visitTimeInfo (cell : Int × UInt32) : AppVisitTimeInfo := ⟨cell.1, cell.2.toUInt64⟩

/-- `qsort` of `app_visit_time_info_t`, with the comparator it is given. -/
abbrev Qsort := (AppVisitTimeInfo → AppVisitTimeInfo → Int) → List AppVisitTimeInfo →
  List AppVisitTimeInfo

/-- `update_top5_app`: `top5_app_list`, unless the loops write behind the array. -/
def updateTop5App (qsort : Qsort) (u : DevUsage) : Option (List AppVisitTimeInfo) :=
  (appVisitArray u).map (fun cells =>
    (qsort visitTimeCompare (cells.map visitTimeInfo) ++
      List.replicate (maxStatAppNum - cells.length) ({} : AppVisitTimeInfo)).take 5)

end OpenAppFilter.Daemon
