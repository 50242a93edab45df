import OpenAppFilter.Base.Sessions
import OpenAppFilter.Kernel.CJson
import OpenAppFilter.Kernel.System

/-!
# `/dev/appfilter` (`af_config.c`)

The device as its writers see it: `open` waits for the mutex and gives an empty
buffer, `write` appends, and closing parses the buffer and hands the message to
its handler. The handlers of `af_rule_config.c`, `af_user_config.c` and
`af_whitelist_config.c` work on the items of cJSON here; `Kernel.afConfigHandle`
is the same on parsed messages.

Conventions.

* `none` is a step that leaves the memory it may read: a string or a name that is
  a null pointer, or a text `cJSON_Parse` reads behind.
* The buffer is zero behind what was written: `vzalloc` clears whole pages, and
  the record does not end with one. `copy_from_user` copies what it is asked to.
* A write that is refused is the last one of its session.
* A message is handled without interruption.
-/

namespace OpenAppFilter.Kernel.Device

open Base Kernel.CJson

variable {env : Env}

/-! ## Handlers -/

/-- `af_change_app_status`. -/
def afChangeAppStatus (k : OafState env) (dataObj : Option CJson) (status : Bool) :
    Option (OafState env × Int) :=
  match dataObj with
  | none => some (k, -1)
  | some obj =>
      (cJsonGetObjectItem obj "apps".toList).map (fun appidArr =>
        match appidArr with
        | none => (k, -1)
        | some arr =>
            (arr.child.foldl (fun k appid => setAppStatus k appid.valueint.toInt status) k, 0))

def afConfigAddAppid (k : OafState env) (data : Option CJson) : Option (OafState env × Int) :=
  afChangeAppStatus k data true

def afConfigDelAppid (k : OafState env) (data : Option CJson) : Option (OafState env × Int) :=
  afChangeAppStatus k data false

def afConfigCleanAppid (k : OafState env) (_data : Option CJson) : Option (OafState env × Int) :=
  some (afInitAppStatus k, 0)

/-- The loop of `af_config_set_mac_list` and `af_config_set_whitelist_mac_list`. -/
def addMacs : List CJson → (Fin maxAfMacHashSize → List Mac) →
    Option (Fin maxAfMacHashSize → List Mac)
  | [], t => some t
  | macObj :: objs, t =>
      match macObj.valuestring with
      | none => none
      | some s =>
          match macToHex s with
          | none => addMacs objs t
          | some mac => addMacs objs (macListAdd t mac)

/-- Both functions up to the list they store: `none` inside is the error. -/
def readMacList (dataObj : Option CJson) : Option (Option (Fin maxAfMacHashSize → List Mac)) :=
  match dataObj with
  | none => some none
  | some obj =>
      (cJsonGetObjectItem obj "mac_list".toList).bind (fun macArr =>
        match macArr with
        | none => some none
        | some arr => (addMacs arr.child (fun _ => [])).map some)

def afConfigSetMacList (k : OafState env) (data : Option CJson) : Option (OafState env × Int) :=
  (readMacList data).map (fun table =>
    match table with
    | none => (k, -1)
    | some t => ({ k with afMacHtable := t }, 0))

def afConfigSetWhitelistMacList (k : OafState env) (data : Option CJson) :
    Option (OafState env × Int) :=
  (readMacList data).map (fun table =>
    match table with
    | none => (k, -1)
    | some t => ({ k with afWhitelistMacHtable := t }, 0))

/-- `af_find_handler`. -/
def afFindHandler (cmd : Int32) :
    Option (OafState env → Option CJson → Option (OafState env × Int)) :=
  if cmd = 1 then some afConfigAddAppid
  else if cmd = 2 then some afConfigDelAppid
  else if cmd = 3 then some afConfigCleanAppid
  else if cmd = 4 then some afConfigSetMacList
  else if cmd = 5 then some afConfigSetWhitelistMacList
  else none

variable (signedChar : Bool)

/-- `af_config_handle` behind the parser. -/
def handleItem (k : OafState env) (configObj : CJson) : Option (OafState env × Int) := do
  match ← cJsonGetObjectItem configObj "op".toList with
  | none => some (k, -1)
  | some cmdObj =>
      let dataObj ← cJsonGetObjectItem configObj "data".toList
      match afFindHandler cmdObj.valueint with
      | none => some (k, -1)
      | some handler => do
          let r ← handler k dataObj
          some ({ r.1 with gUpdateJiffies := BitVec.ofNat 32 k.jiffies }, r.2)

/-- `af_config_handle`. -/
def afConfigHandle (k : OafState env) (config : CStr) (len : Nat) : Option (OafState env × Int) :=
  if len = 0 then some (k, -1)
  else
    match cJsonParse signedChar config with
    | .error .fail => some (k, -1)
    | .error _ => none
    | .ok configObj => handleItem k configObj

/-! ## The file operations -/

/-- `sizeof(file->buf)`. -/
def bufSize : Nat := 256 * 1024

/-- `af_cdev_write` on the buffer written so far. -/
def afCdevWrite (buf chunk : List Char) : Option (List Char) :=
  if bufSize < buf.length + chunk.length then none else some (buf ++ chunk)

/-- `af_cdev_release`; nothing goes on in a kernel that has crashed. -/
def afCdevRelease (k : Option (OafState env)) (buf : List Char) : Option (OafState env) :=
  k.bind (fun k => (afConfigHandle signedChar k (cString buf) buf.length).map Prod.fst)

/-- The device. What else happens in the kernel happens between any two calls. -/
def afCdev : Resource (List Char) (List Char) (Option (OafState env)) Event where
  empty := []
  put := afCdevWrite
  carryOut := afCdevRelease signedChar
  event k e := k.map (fun k => step k e)

/-- The writers with their messages, before the first `open`. -/
def idle {ι : Type*} (k : OafState env) (scripts : ι → List (List (List Char))) :
    Sessions ι (List Char) (List Char) (Option (OafState env)) :=
  { state := some k, scripts := scripts }

end OpenAppFilter.Kernel.Device
