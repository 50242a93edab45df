import OpenAppFilter.Kernel.State

/-!
# Filter rules (`af_rule_config.c`, `af_user_config.c`, `af_whitelist_config.c`, `af_config.c`)

The set of filtered apps, the two device lists, the `/dev/appfilter` messages
that replace them, and the predicate the packet handlers evaluate
(`matchAppFilterRule`).
-/

namespace OpenAppFilter.Kernel

open Base

variable {env : Env}

/-! ## App table -/

/-- The cell `g_app_id_array[a / 1000][a % 1000]` as an offset from the first
cell; a row has 512 cells. -/
def appCell (appid : Int) : Int := 512 * appid.tdiv 1000 + appid.tmod 1000

/-- `af_get_app_status`. -/
def afGetAppStatus (k : OafState env) (appid : Int) : Bool := k.gAppIdArray (appCell appid)

/-- One iteration of the loop of `af_change_app_status`. -/
def setAppStatus (k : OafState env) (appid : Int) (status : Bool) : OafState env :=
  { k with gAppIdArray := fun i => if i = appCell appid then status else k.gAppIdArray i }

/-- `af_init_app_status`: clear the 32 rows of 512 cells. -/
def afInitAppStatus (k : OafState env) : OafState env :=
  { k with gAppIdArray := fun i => if 0 ≤ i ∧ i < 32 * 512 then false else k.gAppIdArray i }

/-! ## Device lists -/

/-- Six scanned numbers as an address; each is stored into a byte. -/
def Mac.ofNats : List Nat → Option Mac
  | [a, b, c, d, e, f] =>
      some ⟨UInt8.ofNat a, UInt8.ofNat b, UInt8.ofNat c, UInt8.ofNat d, UInt8.ofNat e,
        UInt8.ofNat f⟩
  | _ => none

/-- `mac_to_hex`. -/
def macToHex (s : CStr) : Option Mac := (scanColonHex (some 2) 6 s).bind Mac.ofNats

/-- `list_add` at the head of the address's bucket. -/
def macListAdd (t : Fin maxAfMacHashSize → List Mac) (mac : Mac) :
    Fin maxAfMacHashSize → List Mac :=
  fun i => if i = hashMac mac then mac :: t i else t i

/-- The loop of `af_config_set_mac_list` and `af_config_set_whitelist_mac_list`
over the flushed table: strings that are no address are skipped. -/
def macListOf (macs : List CStr) : Fin maxAfMacHashSize → List Mac :=
  macs.foldl (fun t s =>
    match macToHex s with
    | some mac => macListAdd t mac
    | none => t) (fun _ => [])

/-- The list built from texts holds the addresses they name. -/
theorem mem_macListOf (macs : List CStr) (mac : Mac) :
    mac ∈ macListOf macs (hashMac mac) ↔ ∃ s ∈ macs, macToHex s = some mac := by
  have hfold : ∀ (macs : List CStr) (t : Fin maxAfMacHashSize → List Mac),
      mac ∈ (macs.foldl (fun t s =>
        match macToHex s with
        | some mac => macListAdd t mac
        | none => t) t) (hashMac mac) ↔
        mac ∈ t (hashMac mac) ∨ ∃ s ∈ macs, macToHex s = some mac := by
    intro macs
    induction macs with
    | nil =>
        intro t
        simp
    | cons s macs ih =>
        intro t
        rw [List.foldl_cons, ih]
        cases hs : macToHex s with
        | none => simp [hs]
        | some m =>
            by_cases hm : m = mac
            · subst hm
              simp [macListAdd, hs]
            · have hother : mac ∈ macListAdd t m (hashMac mac) ↔ mac ∈ t (hashMac mac) := by
                unfold macListAdd
                split
                · simp [Ne.symm hm]
                · exact Iff.rfl
              simp [hother, hs, hm]
  unfold macListOf
  rw [hfold]
  simp

/-- `af_mac_find`. -/
def afMacFind (k : OafState env) (mac : Mac) : Bool :=
  (k.afMacHtable (hashMac mac)).any (fun m => decide (m = mac))

/-- `af_whitelist_mac_find`. -/
def afWhitelistMacFind (k : OafState env) (mac : Mac) : Bool :=
  (k.afWhitelistMacHtable (hashMac mac)).any (fun m => decide (m = mac))

/-! ## Configuration messages -/

/-- The parts of a parsed message's `data` object that the handlers read. -/
structure ConfigData where
  apps : Option (List Int) := none
  macList : Option (List CStr) := none

/-- A parsed `/dev/appfilter` message. -/
structure ConfigMsg where
  op : Option Int
  data : Option ConfigData

/-- `af_change_app_status`. -/
def afChangeAppStatus (k : OafState env) (data : Option ConfigData) (status : Bool) :
    OafState env × Int :=
  match data with
  | none => (k, -1)
  | some d =>
      match d.apps with
      | none => (k, -1)
      | some apps => (apps.foldl (fun k a => setAppStatus k a status) k, 0)

def afConfigAddAppid (k : OafState env) (data : Option ConfigData) : OafState env × Int :=
  afChangeAppStatus k data true

def afConfigDelAppid (k : OafState env) (data : Option ConfigData) : OafState env × Int :=
  afChangeAppStatus k data false

def afConfigCleanAppid (k : OafState env) (_data : Option ConfigData) : OafState env × Int :=
  (afInitAppStatus k, 0)

def afConfigSetMacList (k : OafState env) (data : Option ConfigData) : OafState env × Int :=
  match data with
  | none => (k, -1)
  | some d =>
      match d.macList with
      | none => (k, -1)
      | some macs => ({ k with afMacHtable := macListOf macs }, 0)

def afConfigSetWhitelistMacList (k : OafState env) (data : Option ConfigData) :
    OafState env × Int :=
  match data with
  | none => (k, -1)
  | some d =>
      match d.macList with
      | none => (k, -1)
      | some macs => ({ k with afWhitelistMacHtable := macListOf macs }, 0)

/-- `af_find_handler`: the table `af_config_interfaces`. -/
def afFindHandler (op : Int) :
    Option (OafState env → Option ConfigData → OafState env × Int) :=
  if op = 1 then some afConfigAddAppid
  else if op = 2 then some afConfigDelAppid
  else if op = 3 then some afConfigCleanAppid
  else if op = 4 then some afConfigSetMacList
  else if op = 5 then some afConfigSetWhitelistMacList
  else none

/-- `af_config_handle`; `none` is a message that does not parse. A message
with a known command stamps `g_update_jiffies`, also when its handler fails. -/
def afConfigHandle (k : OafState env) (config : Option ConfigMsg) : OafState env × Int :=
  match config with
  | none => (k, -1)
  | some msg =>
      match msg.op with
      | none => (k, -1)
      | some op =>
          match afFindHandler op with
          | none => (k, -1)
          | some handler =>
              let r := handler k msg.data
              ({ r.1 with gUpdateJiffies := BitVec.ofNat 32 k.jiffies }, r.2)

/-! ## The rule -/

/-- `match_app_filter_user`: in auto mode every device off the whitelist, in
manual mode every listed device. -/
def matchAppFilterUser (k : OafState env) (client : Mac) : Bool :=
  if k.gUserMode = 0 then !afWhitelistMacFind k client
  else afMacFind k client

/-- `match_app_filter_rule`. -/
def matchAppFilterRule (k : OafState env) (appid : Int) (client : Mac) : Bool :=
  if !matchAppFilterUser k client then false
  else if k.gAppFilterMode = 1 then true
  else afGetAppStatus k appid

/-- A rule only ever matches a device that `match_app_filter_user` selects. -/
theorem matchAppFilterRule_user {k : OafState env} {appid : Int} {client : Mac}
    (h : matchAppFilterRule k appid client = true) : matchAppFilterUser k client = true := by
  unfold matchAppFilterRule at h
  split at h
  · exact absurd h Bool.false_ne_true
  · rename_i hu
    simpa using hu

end OpenAppFilter.Kernel
