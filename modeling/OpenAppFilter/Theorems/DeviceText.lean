import OpenAppFilter.Kernel.Device
import OpenAppFilter.Theorems.JsonBreaks
import OpenAppFilter.Theorems.JsonPrinting

/-!
# Texts written to `/dev/appfilter`

What a JSON text does to the module is what its message does, however the text
is spelled and whatever stands behind it; members are found by their first
spelling up to case, numbers lose their sign. The exceptions are the texts that
lead to a null pointer, and these are exactly known (`HandledSafely`). A text
that breaks off is no message at all.
-/

namespace OpenAppFilter.Theorems

open Base Kernel Kernel.CJson

variable {env : Env} {signedChar : Bool}

/-! ## The message of a value -/

/-- The first member whose name agrees but for case. -/
def field (name : CStr) : Json → Option Json
  | .obj fields =>
      (fields.find? (fun f => f.1.map toLower = name.map toLower)).map Prod.snd
  | _ => none

def children : Json → List Json
  | .arr items => items
  | .obj fields => fields.map Prod.snd
  | _ => []

/-- `valueint` of the value's item. -/
def numberOf (v : Json) : Int := (itemOf v).valueint.toInt

/-- `valuestring` of the value's item. -/
def stringOf : Json → Option CStr
  | .str s => some s
  | _ => none

def messageData (data : Json) : ConfigData where
  apps := (field "apps".toList data).map (fun apps => (children apps).map numberOf)
  macList := (field "mac_list".toList data).map (fun macs => (children macs).filterMap stringOf)

/-- The message a value stands for. -/
def messageOf (v : Json) : ConfigMsg where
  op := (field "op".toList v).map numberOf
  data := (field "data".toList v).map messageData

/-- The children of the value's item have names. -/
def childrenNamed : Json → Bool
  | .arr items => items.isEmpty
  | _ => true

/-- All addresses of the list are strings. -/
def macsSafe (data : Json) : Bool :=
  childrenNamed data &&
    (field "mac_list".toList data).all (fun macs => ((children macs).map stringOf).all Option.isSome)

/-- What the handler of a command reads of `data` is there. -/
def dataSafe (op : Int) (data : Json) : Bool :=
  if op = 1 ∨ op = 2 then childrenNamed data
  else if op = 4 ∨ op = 5 then macsSafe data
  else true

/-- No null pointer is read for the value. -/
def handledSafely (v : Json) : Bool :=
  childrenNamed v &&
    (field "op".toList v).all (fun op => (field "data".toList v).all (dataSafe (numberOf op)))

/-! ## Looking up -/

/-- An item of a value, its name apart. -/
def IsItemOf (item : CJson) (v : Json) : Prop := ∃ k, item = (itemOf v).named k

theorem IsItemOf.child {item : CJson} {v : Json} (h : IsItemOf item v) :
    item.child = (itemOf v).child := by
  obtain ⟨k, rfl⟩ := h
  cases itemOf v
  rfl

theorem IsItemOf.valueint {item : CJson} {v : Json} (h : IsItemOf item v) :
    item.valueint = (itemOf v).valueint := by
  obtain ⟨k, rfl⟩ := h
  cases itemOf v
  rfl

theorem itemOf_string (v : Json) : (itemOf v).string = none := by
  cases v with
  | bool b => cases b <;> rfl
  | _ => rfl

theorem itemOf_valuestring (v : Json) : (itemOf v).valuestring = stringOf v := by
  cases v with
  | bool b => cases b <;> rfl
  | _ => rfl

theorem itemOf_child_valueint (v : Json) :
    (itemOf v).child.map (fun item => item.valueint.toInt) = (children v).map numberOf := by
  cases v with
  | arr items =>
      show (itemsWith _ items).map _ = items.map numberOf
      rw [itemsWith_eq_map, List.map_map]
      rfl
  | obj fields =>
      show (membersWith _ fields).map _ = (fields.map Prod.snd).map numberOf
      rw [membersWith_eq_map, List.map_map, List.map_map]
      apply List.map_congr_left
      intro f _
      exact congrArg Int32.toInt (IsItemOf.valueint ⟨f.1, rfl⟩)
  | bool b => cases b <;> rfl
  | _ => rfl

theorem itemOf_child_valuestring (v : Json) :
    (itemOf v).child.map CJson.valuestring = (children v).map stringOf := by
  cases v with
  | arr items =>
      show (itemsWith _ items).map _ = items.map stringOf
      rw [itemsWith_eq_map, List.map_map]
      exact List.map_congr_left (fun w _ => itemOf_valuestring w)
  | obj fields =>
      show (membersWith _ fields).map _ = (fields.map Prod.snd).map stringOf
      rw [membersWith_eq_map, List.map_map, List.map_map]
      apply List.map_congr_left
      intro f _
      show ((itemOf f.2).named f.1).valuestring = stringOf f.2
      rw [← itemOf_valuestring]
      cases itemOf f.2
      rfl
  | bool b => cases b <;> rfl
  | _ => rfl

theorem findItem_members (name : CStr) (fs : List (CStr × Json)) :
    findItem name (membersWith (fun n => Int32.ofNat n.natAbs) fs) =
      some ((fs.find? (fun f => f.1.map toLower = name.map toLower)).map
        (fun f => (itemOf f.2).named f.1)) := by
  induction fs with
  | nil => rfl
  | cons f fs ih =>
      rw [membersWith, findItem, named_string]
      dsimp only
      by_cases hk : f.1.map toLower = name.map toLower
      · rw [if_pos hk, List.find?_cons_of_pos (by simpa using hk)]
        rfl
      · rw [if_neg hk, List.find?_cons_of_neg (by simpa using hk), ih]

/-- In a nonempty array `cJSON_GetObjectItem` compares with a null pointer. -/
theorem getObjectItem_unnamed {v : Json} (h : childrenNamed v = false) (name : CStr) :
    cJsonGetObjectItem (itemOf v) name = none := by
  cases v with
  | arr items =>
      cases items with
      | nil => cases h
      | cons w ws =>
          show findItem name (itemsWith _ (w :: ws)) = none
          rw [itemsWith, findItem]
          have hnone := itemOf_string w
          unfold itemOf at hnone
          rw [hnone]
  | _ => cases h

/-- Otherwise it finds the item of the member. -/
theorem getObjectItem_named {v : Json} (h : childrenNamed v = true) (name : CStr) :
    ∃ item, cJsonGetObjectItem (itemOf v) name = some item ∧
      Option.Rel IsItemOf item (field name v) := by
  cases v with
  | arr items =>
      obtain rfl : items = [] := by simpa [childrenNamed] using h
      exact ⟨none, rfl, .none⟩
  | obj fs =>
      refine ⟨_, findItem_members name fs, ?_⟩
      unfold field
      dsimp only
      cases fs.find? (fun f => f.1.map toLower = name.map toLower) with
      | none => exact .none
      | some f => exact .some ⟨f.1, rfl⟩
  | bool b => cases b <;> exact ⟨none, rfl, .none⟩
  | null => exact ⟨none, rfl, .none⟩
  | num n => exact ⟨none, rfl, .none⟩
  | str s => exact ⟨none, rfl, .none⟩

/-! ## Handlers -/

/-- `data` as the handlers get it. -/
theorem afChangeAppStatus_item (k : OafState env) {item : Option CJson} {data : Option Json}
    (h : Option.Rel IsItemOf item data) (status : Bool) :
    Device.afChangeAppStatus k item status =
      if data.all childrenNamed then
        some (Kernel.afChangeAppStatus k (data.map messageData) status)
      else none := by
  cases h with
  | none => rfl
  | some h =>
      rename_i item data
      unfold Device.afChangeAppStatus
      have hget : ∀ name, cJsonGetObjectItem item name = cJsonGetObjectItem (itemOf data) name :=
        fun name => congrArg (findItem name) h.child
      dsimp only
      rw [hget]
      by_cases hnamed : childrenNamed data = true
      · obtain ⟨arr, harr, hrel⟩ := getObjectItem_named hnamed "apps".toList
        rw [harr, Option.all_some, if_pos hnamed]
        unfold Kernel.afChangeAppStatus
        simp only [Option.map_some, messageData]
        generalize field "apps".toList data = apps at hrel
        cases hrel with
        | none => rfl
        | some hrel =>
            rename_i arr apps
            simp only [Option.map_some]
            rw [hrel.child, ← itemOf_child_valueint, List.foldl_map]
      · have hfalse : childrenNamed data = false := by simpa using hnamed
        rw [getObjectItem_unnamed hfalse, Option.all_some, if_neg hnamed]
        rfl

theorem addMacs_eq (objs : List CJson) : ∀ t : Fin maxAfMacHashSize → List Mac,
    Device.addMacs objs t =
      if (objs.map CJson.valuestring).all Option.isSome then
        some (((objs.map CJson.valuestring).filterMap id).foldl (fun t s =>
          match macToHex s with
          | some mac => macListAdd t mac
          | none => t) t)
      else none := by
  induction objs with
  | nil =>
      intro t
      rfl
  | cons obj objs ih =>
      intro t
      rw [Device.addMacs]
      cases hs : obj.valuestring with
      | none => simp [hs]
      | some s =>
          simp only [List.map_cons, hs, List.all_cons, Option.isSome_some, Bool.true_and,
            List.filterMap_cons, id, List.foldl_cons]
          cases macToHex s with
          | none => exact ih t
          | some mac => exact ih (macListAdd t mac)

theorem readMacList_item {item : Option CJson} {data : Option Json}
    (h : Option.Rel IsItemOf item data) :
    Device.readMacList item =
      if data.all macsSafe then some (((data.map messageData).bind (·.macList)).map macListOf)
      else none := by
  cases h with
  | none => rfl
  | some h =>
      rename_i item data
      unfold Device.readMacList
      have hget : ∀ name, cJsonGetObjectItem item name = cJsonGetObjectItem (itemOf data) name :=
        fun name => congrArg (findItem name) h.child
      dsimp only
      rw [hget]
      unfold macsSafe
      by_cases hnamed : childrenNamed data = true
      · obtain ⟨arr, harr, hrel⟩ := getObjectItem_named hnamed "mac_list".toList
        simp only [harr, Option.all_some, hnamed, Bool.true_and, Option.bind_some, Option.map_some,
          messageData]
        generalize field "mac_list".toList data = macs at hrel
        cases hrel with
        | none => rfl
        | some hrel =>
            rename_i arr macs
            simp only [Option.all_some, Option.map_some]
            rw [addMacs_eq, hrel.child, itemOf_child_valuestring, List.filterMap_map]
            by_cases hall : ((children macs).map stringOf).all Option.isSome = true
            · rw [if_pos hall, if_pos hall]
              rfl
            · rw [if_neg hall, if_neg hall]
              rfl
      · have hfalse : childrenNamed data = false := by simpa using hnamed
        rw [getObjectItem_unnamed hfalse, Option.all_some, hfalse]
        rfl

theorem setMacList_item (k : OafState env) {item : Option CJson} {data : Option Json}
    (h : Option.Rel IsItemOf item data) :
    Device.afConfigSetMacList k item =
      if data.all macsSafe then some (Kernel.afConfigSetMacList k (data.map messageData))
      else none := by
  unfold Device.afConfigSetMacList
  rw [readMacList_item h]
  by_cases hall : data.all macsSafe = true
  · rw [if_pos hall, if_pos hall]
    unfold Kernel.afConfigSetMacList
    cases hdata : data.map messageData with
    | none => rfl
    | some d =>
        obtain ⟨apps, macs⟩ := d
        cases macs <;> rfl
  · rw [if_neg hall, if_neg hall]
    rfl

theorem setWhitelistMacList_item (k : OafState env) {item : Option CJson} {data : Option Json}
    (h : Option.Rel IsItemOf item data) :
    Device.afConfigSetWhitelistMacList k item =
      if data.all macsSafe then some (Kernel.afConfigSetWhitelistMacList k (data.map messageData))
      else none := by
  unfold Device.afConfigSetWhitelistMacList
  rw [readMacList_item h]
  by_cases hall : data.all macsSafe = true
  · rw [if_pos hall, if_pos hall]
    unfold Kernel.afConfigSetWhitelistMacList
    cases hdata : data.map messageData with
    | none => rfl
    | some d =>
        obtain ⟨apps, macs⟩ := d
        cases macs <;> rfl
  · rw [if_neg hall, if_neg hall]
    rfl

/-- The two tables of handlers agree, command by command. -/
theorem afFindHandler_item (k : OafState env) (cmd : Int32) {item : Option CJson}
    {data : Option Json} (h : Option.Rel IsItemOf item data) :
    (Device.afFindHandler cmd).map (fun handler => handler k item) =
      (Kernel.afFindHandler cmd.toInt).map (fun handler =>
        if data.all (dataSafe cmd.toInt) then some (handler k (data.map messageData)) else none) := by
  by_cases c1 : cmd = 1
  · subst c1
    exact congrArg some (afChangeAppStatus_item k h true)
  by_cases c2 : cmd = 2
  · subst c2
    exact congrArg some (afChangeAppStatus_item k h false)
  by_cases c3 : cmd = 3
  · subst c3
    have hall : data.all (dataSafe 3) = true := by
      cases data <;> rfl
    exact congrArg some (if_pos hall).symm
  by_cases c4 : cmd = 4
  · subst c4
    exact congrArg some (setMacList_item k h)
  by_cases c5 : cmd = 5
  · subst c5
    exact congrArg some (setWhitelistMacList_item k h)
  have hne : ∀ n : Int32, cmd ≠ n → cmd.toInt ≠ n.toInt := fun n hn heq =>
    hn (Int32.toInt_inj.mp heq)
  have n1 : cmd.toInt ≠ 1 := hne 1 c1
  have n2 : cmd.toInt ≠ 2 := hne 2 c2
  have n3 : cmd.toInt ≠ 3 := hne 3 c3
  have n4 : cmd.toInt ≠ 4 := hne 4 c4
  have n5 : cmd.toInt ≠ 5 := hne 5 c5
  unfold Device.afFindHandler Kernel.afFindHandler
  rw [if_neg c1, if_neg c2, if_neg c3, if_neg c4, if_neg c5, if_neg n1, if_neg n2, if_neg n3,
    if_neg n4, if_neg n5]
  rfl

/-- Nothing is read for an unknown command. -/
theorem dataSafe_unknown {op : Int} (h : @Kernel.afFindHandler env op = none)
    (data : Json) : dataSafe op data = true := by
  unfold Kernel.afFindHandler at h
  by_cases h1 : op = 1
  · simp [h1] at h
  by_cases h2 : op = 2
  · simp [h2] at h
  by_cases h4 : op = 4
  · simp [h4] at h
  by_cases h5 : op = 5
  · simp [h5] at h
  simp [dataSafe, h1, h2, h4, h5]

/-- What a parsed value does. -/
theorem handleItem_itemOf (k : OafState env) (v : Json) :
    Device.handleItem k (itemOf v) =
      if handledSafely v then some (Kernel.afConfigHandle k (some (messageOf v))) else none := by
  unfold Device.handleItem handledSafely
  by_cases hnamed : childrenNamed v = true
  · obtain ⟨op, hop, hoprel⟩ := getObjectItem_named hnamed "op".toList
    obtain ⟨data, hdata, hdatarel⟩ := getObjectItem_named hnamed "data".toList
    simp only [hop, hdata, bind, Option.bind_some, hnamed, Bool.true_and, messageOf]
    unfold Kernel.afConfigHandle
    generalize field "op".toList v = opField at hoprel
    cases hoprel with
    | none => rfl
    | some hoprel =>
        rename_i opItem op
        have hhandler := afFindHandler_item k opItem.valueint hdatarel
        have hnumber : opItem.valueint.toInt = numberOf op := congrArg Int32.toInt hoprel.valueint
        rw [hnumber] at hhandler
        simp only [Option.all_some, Option.map_some]
        cases hfind : Kernel.afFindHandler (numberOf op) with
        | none =>
            rw [hfind, Option.map_none, Option.map_eq_none_iff] at hhandler
            have hall : (field "data".toList v).all (dataSafe (numberOf op)) = true := by
              cases field "data".toList v with
              | none => rfl
              | some d => exact dataSafe_unknown hfind d
            simp only [hhandler, hall]
            rfl
        | some handler =>
            rw [hfind, Option.map_some] at hhandler
            obtain ⟨handler', hfind', hrun⟩ := Option.map_eq_some_iff.mp hhandler
            simp only [hfind', hrun]
            split
            · rfl
            · rfl
  · have hfalse : childrenNamed v = false := by simpa using hnamed
    rw [getObjectItem_unnamed hfalse, hfalse]
    rfl

/-! ## The device on a text -/

/-- A JSON text does what its message does. -/
theorem afConfigHandle_text {v : Json} {b t : CStr} (hb : Blank b) (h : IsText Blank v t)
    (hv : v.isContainer = true) (hread : Readable signedChar t) (rest : CStr) (k : OafState env)
    {len : Nat} (hlen : len ≠ 0) :
    Device.afConfigHandle signedChar k (b ++ (t ++ rest)) len =
      if handledSafely v then some (Kernel.afConfigHandle k (some (messageOf v))) else none := by
  unfold Device.afConfigHandle
  rw [if_neg hlen, cJsonParse_text hb h hv hread rest]
  exact handleItem_itemOf k v

/-- A text that breaks off does nothing, or leads the parser out of it. -/
theorem afConfigHandle_breaks {v : Json} {b t p z : CStr} (hb : Blank b) (h : IsText Blank v t)
    (hv : v.isContainer = true) (hread : Readable signedChar t) (hz : z ≠ []) (ht : t = p ++ z)
    (k : OafState env) (len : Nat) :
    Device.afConfigHandle signedChar k (b ++ p) len = some (k, -1) ∨
      Device.afConfigHandle signedChar k (b ++ p) len = none := by
  unfold Device.afConfigHandle
  by_cases hlen : len = 0
  · rw [if_pos hlen]
    exact Or.inl rfl
  · rw [if_neg hlen]
    cases hparse : cJsonParse signedChar (b ++ p) with
    | ok item => exact absurd hparse (cJsonParse_breaks hb h hv hread hz ht item)
    | error e =>
        cases e with
        | fail => exact Or.inl rfl
        | outside => exact Or.inr rfl
        | spent => exact Or.inr rfl

end OpenAppFilter.Theorems
