import OpenAppFilter.Base.Pages
import OpenAppFilter.Daemon.DevLists
import OpenAppFilter.Daemon.TopApps

/-!
# The list of the devices (`appfilter_ubus.c`)

`get_all_users` walks the table, makes an object of every device, sorts the objects
and answers with all of them, or with a page.

Conventions.

* The object of a device is a record; what needs a higher `flag` is `none` without
  it. A member that is added twice stands once.
* What `update_dev_nickname` and `update_dev_visiting_info` leave in a node, the names
  of the apps and their icons are inputs. `update_dev_whitelist_flag` writes to the
  table before it is read.
* `json_object_array_sort` stands as a parameter, like `qsort`.
* An index that does not fit in an `int` is `none`.
-/

namespace OpenAppFilter.Daemon

open Base

/-! ## Objects -/

/-- What the texts of an object come from. -/
structure UserSource where
  nickname : CStr → CStr
  visitingUrl : CStr → CStr
  visitingApp : CStr → Int32
  /-- `get_app_name_by_id` -/
  appName : Int → CStr
  /-- `check_app_icon_exist` -/
  hasIcon : Int → Bool

structure UserApp where
  id : Int
  icon : Bool
  name : CStr
  deriving DecidableEq

structure UserNames where
  hostname : CStr
  nickname : CStr
  isWhitelist : Bool
  isSelected : Bool
  deriving DecidableEq

structure UserUsage where
  applist : List UserApp
  url : CStr
  app : CStr
  upRate : Int32
  downRate : Int32
  todayUpFlow : Int64
  todayDownFlow : Int64
  deriving DecidableEq

/-- `user_obj`. -/
structure UserObj where
  mac : CStr
  online : Int32
  onlineTime : Int32
  offlineTime : Int32
  todayAmActiveTime : Int32
  todayPmActiveTime : Int32
  /-- `ip` and `ipv6` -/
  addresses : Option (CStr × CStr) := none
  names : Option UserNames := none
  usage : Option UserUsage := none
  deriving DecidableEq

/-- `online_status`: 2 for a device that is active, too. -/
def onlineStatus (d : DevInfo) : Int32 :=
  if d.active = 1 ∧ d.online = true then 2 else if d.online then 1 else 0

/-- The first five apps, up to one without a name. -/
def userApps (x : UserSource) (top5 : List AppVisitTimeInfo) : List UserApp :=
  (top5.takeWhile (fun e => decide (e.appId ≠ 0 ∧ x.appName e.appId ≠ []))).map
    (fun e => { id := e.appId, icon := x.hasIcon e.appId, name := x.appName e.appId })

/-- What `flag > 2` adds. -/
def userUsage (qsort : Qsort) (x : UserSource) (mac : CStr) (d : DevInfo) : Option UserUsage :=
  (updateTop5App qsort d.toDevUsage).map (fun top5 =>
    { applist := userApps x top5
      url := x.visitingUrl mac
      app :=
        if 0 < x.visitingApp mac ∧ x.appName (x.visitingApp mac).toInt ≠ [] then
          x.appName (x.visitingApp mac).toInt
        else []
      upRate := (d.upRate / 1024).toInt32
      downRate := (d.downRate / 1024).toInt32
      todayUpFlow := d.todayUpBytes.toInt64
      todayDownFlow := d.todayDownBytes.toInt64 })

/-- `all_users_callback` -/
def allUsersCallback (qsort : Qsort) (x : UserSource) (flag : Int32) (dev : CStr × DevInfo) :
    Option UserObj :=
  let mac := dev.1
  let d := dev.2
  let userObj : UserObj :=
    { mac := mac
      online := onlineStatus d
      onlineTime := d.onlineTime.toInt32
      offlineTime := d.offlineTime.toInt32
      todayAmActiveTime := d.todayAmActiveTime.toInt32
      todayPmActiveTime := d.todayPmActiveTime.toInt32
      addresses := if 0 < flag then some (d.ip, d.ipv6) else none
      names :=
        if 1 < flag then some ⟨d.hostname, x.nickname mac, d.isWhitelist, d.isSelected⟩ else none }
  if 2 < flag then (userUsage qsort x mac d).map (fun usage => { userObj with usage := some usage })
  else some userObj

/-! ## The list -/

/-- `compare_users`. Devices that are online are compared by the time they connected,
those that are active, too, by `offline_time` like those that are gone. -/
def compareUsers (a b : UserObj) : Int :=
  if a.online ≠ b.online then (b.online - a.online).toInt
  else if a.online = 1 ∧ b.online = 1 then (a.onlineTime - b.onlineTime).toInt
  else (a.offlineTime - b.offlineTime).toInt

/-- `dev_foreach` with a function that reads. -/
def DevLists.users (s : DevLists) : Option (List (CStr × DevInfo)) :=
  (bucketLoop (fun h p => (readLoop s.gCurUserNum h p).map (fun out => (h, p, out)))
    (List.finRange maxDevNodeHashSize) s.heap s.devHashTable).map (fun r => r.2.2)

/-- `json_object_array_sort` of the objects, with the comparator it is given. -/
abbrev UserSort := (UserObj → UserObj → Int) → List UserObj → List UserObj

/-- `users_array` when it has been sorted. -/
def DevLists.usersArray (s : DevLists) (qsort : Qsort) (sort : UserSort) (x : UserSource)
    (flag : Int32) : Option (List UserObj) :=
  s.users.bind (fun devs => (devs.mapM (allUsersCallback qsort x flag)).map (sort compareUsers))

/-! ## Pages -/

/-- A number that fits in an `int`. -/
def asInt (n : Int) : Option Int := if -2 ^ 31 ≤ n ∧ n < 2 ^ 31 then some n else none

/-- `paged_array` -/
def pagedArray (users : List UserObj) (page pageSize : Int32) : Option (List UserObj) :=
  if page ≤ 0 then some users
  else
    (asInt ((page.toInt - 1) * pageSize.toInt)).bind (fun startIdx =>
      (asInt (startIdx + pageSize.toInt)).map (fun endIdx => pageFrom users startIdx endIdx))

/-- `total_pages` -/
def totalPages (totalCount : Nat) (pageSize : Int32) : Option Int :=
  (asInt (totalCount + pageSize.toInt)).map (fun n => (n - 1) / pageSize.toInt)

/-- The members of a request; one that is missing is `none`. -/
structure UserRequest where
  flag : Option Int32 := none
  page : Option Int32 := none
  pageSize : Option Int32 := none

/-- `page_size`, 20 when the request has none or one that is not positive. -/
def UserRequest.size (req : UserRequest) : Int32 :=
  match req.pageSize with
  | none => 20
  | some pageSize => if pageSize ≤ 0 then 20 else pageSize

/-- `data_obj` -/
structure UserReply where
  list : List UserObj
  total : Nat
  page : Int32
  pageSize : Int32
  totalPages : Int
  deriving DecidableEq

def handleGetAllUsers (qsort : Qsort) (sort : UserSort) (x : UserSource) (req : UserRequest)
    (s : DevLists) : Option UserReply :=
  (s.usersArray qsort sort x (req.flag.getD 0)).bind (fun users =>
    (pagedArray users (req.page.getD 0) req.size).bind (fun list =>
      (totalPages users.length req.size).map (fun pages =>
        { list := list
          total := users.length
          page := req.page.getD 0
          pageSize := req.size
          totalPages := pages })))

end OpenAppFilter.Daemon
