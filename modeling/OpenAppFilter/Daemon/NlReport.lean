import OpenAppFilter.Base.Json
import OpenAppFilter.Daemon.DevLists

/-!
# Reports in the daemon (`appfilter_netlink.c`)

What `appfilter_nl_handler` makes of the bytes of a message: the header is checked,
the JSON text behind it read, the device of its MAC looked up or added, and the
members of the object written to the device.

Conventions.

* `parse` is `json_tokener_parse` of json-c, which is not part of the repository.
  Of two members with one name its object holds the later one.
* `mac` and `ip` are strings, the other members numbers or arrays of objects, as
  the kernel sends them. A number that is missing reads as 0, and one that does not
  fit is cut to the nearest that does.
* `data` is what lies in the receive buffer behind the header: the text and
  whatever the buffer held before.
-/

namespace OpenAppFilter.Daemon

open Base

/-! ## json-c -/

/-- `json_object_object_get` -/
def jsonObjectObjectGet (root : Json) (name : String) : Option Json :=
  match root with
  | .obj fields => (fields.reverse.find? (fun f => f.1 = name.toList)).map Prod.snd
  | _ => none

/-- The nearest number in a range. -/
def clamp (lo hi n : Int) : Int := max lo (min hi n)

/-- The number of a member; `json_object_get_int` and `json_object_get_int64` cut it. -/
def jsonInt : Json → Int
  | .num n => n
  | .bool b => if b then 1 else 0
  | _ => 0

/-- `json_object_get_int` -/
def jsonObjectGetInt (v : Json) : Int32 := Int32.ofInt (clamp (-2 ^ 31) (2 ^ 31 - 1) (jsonInt v))

/-- `(unsigned long long)json_object_get_int64` -/
def jsonObjectGetInt64 (v : Json) : UInt64 :=
  UInt64.ofInt (clamp (-2 ^ 63) (2 ^ 63 - 1) (jsonInt v))

/-- `json_object_get_string` of a string. -/
def jsonObjectGetString : Json → CStr
  | .str s => s
  | _ => []

/-- The elements of an array. -/
def jsonArrayItems : Json → List Json
  | .arr items => items
  | _ => []

/-! ## The message -/

/-- `struct af_msg_hdr` and what follows it. -/
structure AfMsg where
  magic : UInt32 := 0xa0b0c0d0
  len : Int
  data : CStr

/-- One element of `visit_info`. -/
def visitReportOf (v : Json) : VisitReport where
  appid := ((jsonObjectObjectGet v "appid").map jsonObjectGetInt).getD 0
  latestAction := ((jsonObjectObjectGet v "latest_action").map jsonObjectGetInt).getD 0

/-- The members of a report. -/
def devReportOf (root : Json) : DevReport where
  ip := (jsonObjectObjectGet root "ip").map jsonObjectGetString
  active := (jsonObjectObjectGet root "active").map jsonObjectGetInt
  upFlow := (jsonObjectObjectGet root "up_flow").map jsonObjectGetInt64
  downFlow := (jsonObjectObjectGet root "down_flow").map jsonObjectGetInt64
  visits := ((jsonObjectObjectGet root "visit_info").elim [] jsonArrayItems).map visitReportOf

def AfMsg.maxOafNetlinkMsgLen : Int := 1024

/-- The checks of `appfilter_nl_handler`: the MAC and the report of a message. -/
def readReport (parse : CStr → Option Json) (msg : AfMsg) : Option (CStr × DevReport) :=
  if msg.magic ≠ 0xa0b0c0d0 then none
  else if msg.len ≤ 0 ∨ AfMsg.maxOafNetlinkMsgLen ≤ msg.len then none
  else
    (parse msg.data).bind (fun root =>
      (jsonObjectObjectGet root "mac").map (fun mac => (jsonObjectGetString mac, devReportOf root)))

/-- What the handler meets besides the message: the allocator, the clocks, and the
bytes in the receive buffer behind the text. -/
structure Reception where
  calloc : Option Nat := none
  clock : UsageClock
  hour : Fin 24
  junk : CStr := []

/-- `appfilter_nl_handler`. -/
def handleReport (parse : CStr → Option Json) (recv : Reception) (msg : AfMsg) (s : DevLists) :
    Option DevLists :=
  match readReport parse msg with
  | none => some s
  | some (mac, r) => devStep s (.report mac recv.calloc recv.clock recv.hour r)

end OpenAppFilter.Daemon
