import OpenAppFilter.Daemon.NlReport
import OpenAppFilter.Theorems.JsonMinify
import OpenAppFilter.Theorems.LostReport

/-!
# A report is read as it was sent

The kernel prints a client record as JSON, minifies the text and puts a header
before it; the daemon parses the text and looks its members up. What arrives is
the record: its address, its flag, its two counters in kilobytes and every app
with its last action, in order.
-/

namespace OpenAppFilter.Theorems

open Base Kernel Daemon

/-! ## json-c -/

/-- What json-c is relied on for: it reads the compact text of an array or object
of plain strings and of numbers that fit `int`, nested in its 32 levels, and looks
at nothing behind it. -/
structure ReadsJson (parse : CStr → Option Json) : Prop where
  reads : ∀ (v : Json) (t rest : CStr), v.isContainer = true → v.nesting < 32 →
    v.Every PlainBytes (fun n => 0 ≤ n ∧ n < 2 ^ 31) → IsText NoGap v t → parse (t ++ rest) = some v

/-- The numbers of a record's report fit a non-negative `int`. -/
def FitsInt (c : AfClientNode) : Prop := ∀ n ∈ reportNumbers c, n.toNat < 2 ^ 31

theorem toInt_of_fits {n : BitVec 32} (h : n.toNat < 2 ^ 31) :
    (Int32.ofBitVec n).toInt = n.toNat := by
  show n.toInt = _
  rw [BitVec.toInt_eq_toNat_of_lt (by omega)]

theorem reportValue_fits {c : AfClientNode} (h : FitsInt c) (mac : Mac) :
    (reportValue mac c).Every PlainBytes (fun n => 0 ≤ n ∧ n < 2 ^ 31) := by
  apply reportValue_every mac (fun _ hs => hs)
  intro n hn
  have hlt := h n hn
  rw [toInt_of_fits hlt]
  omega

theorem reportValue_nesting (mac : Mac) (c : AfClientNode) : (reportValue mac c).nesting < 32 := by
  have hvisits : ∀ vs : List AppVisitInfo, Json.nestingItems (vs.map visitValue) ≤ 1 := by
    intro vs
    induction vs with
    | nil => simp [Json.nestingItems]
    | cons v vs ih =>
        have hvisit : (visitValue v).nesting = 1 := rfl
        rw [List.map_cons, Json.nestingItems, hvisit]
        omega
  have h := hvisits (recordedApps c.toAfClientInfo)
  simp only [reportValue, intValue, Json.nesting, Json.nestingMembers]
  omega

/-! ## Members -/

/-- What a record says to the daemon. -/
def recordReport (c : AfClientNode) : DevReport where
  ip := some (ipText c.ip)
  active := some (if c.active then 1 else 0)
  upFlow := some (UInt64.ofNat (kilobytes c.periodFlow.upBytes).toNat)
  downFlow := some (UInt64.ofNat (kilobytes c.periodFlow.downBytes).toNat)
  visits := (recordedApps c.toAfClientInfo).map (fun v =>
    { appid := Int32.ofBitVec v.appId, latestAction := if v.latestAction then 1 else 0 })

theorem jsonObjectGetInt_intValue (n : BitVec 32) :
    jsonObjectGetInt (intValue n) = Int32.ofBitVec n := by
  show Int32.ofInt (clamp _ _ (Int32.ofBitVec n).toInt) = _
  have hrange := intValue_int n
  have hkept : clamp (-2 ^ 31) (2 ^ 31 - 1) (Int32.ofBitVec n).toInt = (Int32.ofBitVec n).toInt := by
    unfold clamp
    omega
  rw [hkept]
  exact Int32.ofInt_toInt _

theorem jsonObjectGetInt64_intValue {n : BitVec 32} (h : n.toNat < 2 ^ 31) :
    jsonObjectGetInt64 (intValue n) = UInt64.ofNat n.toNat := by
  show UInt64.ofInt (clamp _ _ (Int32.ofBitVec n).toInt) = _
  rw [toInt_of_fits h]
  have hkept : clamp (-2 ^ 63) (2 ^ 63 - 1) (n.toNat : Int) = n.toNat := by
    unfold clamp
    omega
  rw [hkept]
  show UInt64.ofNat ((n.toNat : Int) % 2 ^ 64).toNat = _
  congr 1
  omega

/-- A member is found under its name where the names are distinct. -/
theorem jsonObjectObjectGet_of_mem {fields : List (CStr × Json)}
    (hnames : (fields.map Prod.fst).Nodup) {name : String} {v : Json}
    (hmem : (name.toList, v) ∈ fields) : jsonObjectObjectGet (.obj fields) name = some v := by
  have hnames' : (fields.reverse.map Prod.fst).Nodup := by
    rw [List.map_reverse]
    exact List.nodup_reverse.mpr hnames
  unfold jsonObjectObjectGet
  dsimp only
  rw [HTable.find?_key_of_mem hnames' (List.mem_reverse.mpr hmem), Option.map_some]

theorem visitReportOf_visitValue (v : AppVisitInfo) :
    visitReportOf (visitValue v) =
      { appid := Int32.ofBitVec v.appId, latestAction := if v.latestAction then 1 else 0 } := by
  have hnames : ["appid".toList, "latest_action".toList].Nodup := by decide
  have happid : jsonObjectObjectGet (visitValue v) "appid" = some (intValue v.appId) := by
    apply jsonObjectObjectGet_of_mem
    exacts [hnames, List.mem_of_getElem? (i := 0) rfl]
  have haction : jsonObjectObjectGet (visitValue v) "latest_action" =
      some (intValue (if v.latestAction then 1 else 0)) := by
    apply jsonObjectObjectGet_of_mem
    exacts [hnames, List.mem_of_getElem? (i := 1) rfl]
  unfold visitReportOf
  rw [happid, haction, Option.map_some, Option.map_some, jsonObjectGetInt_intValue,
    jsonObjectGetInt_intValue]
  cases v.latestAction <;> rfl

/-- The members are found under their names. -/
theorem reportValue_members (mac : Mac) (c : AfClientNode) :
    jsonObjectObjectGet (reportValue mac c) "mac" = some (.str (macText mac)) ∧
      jsonObjectObjectGet (reportValue mac c) "ip" = some (.str (ipText c.ip)) ∧
      jsonObjectObjectGet (reportValue mac c) "active" = some (intValue (if c.active then 1 else 0)) ∧
      jsonObjectObjectGet (reportValue mac c) "up_flow" =
        some (intValue (kilobytes c.periodFlow.upBytes)) ∧
      jsonObjectObjectGet (reportValue mac c) "down_flow" =
        some (intValue (kilobytes c.periodFlow.downBytes)) ∧
      jsonObjectObjectGet (reportValue mac c) "visit_info" =
        some (.arr ((recordedApps c.toAfClientInfo).map visitValue)) := by
  have hnames : ["mac".toList, "ip".toList, "app_num".toList, "up_flow".toList, "down_flow".toList,
      "active".toList, "visit_info".toList].Nodup := by decide
  refine ⟨?_, ?_, ?_, ?_, ?_, ?_⟩
  · apply jsonObjectObjectGet_of_mem
    exacts [hnames, List.mem_of_getElem? (i := 0) rfl]
  · apply jsonObjectObjectGet_of_mem
    exacts [hnames, List.mem_of_getElem? (i := 1) rfl]
  · apply jsonObjectObjectGet_of_mem
    exacts [hnames, List.mem_of_getElem? (i := 5) rfl]
  · apply jsonObjectObjectGet_of_mem
    exacts [hnames, List.mem_of_getElem? (i := 3) rfl]
  · apply jsonObjectObjectGet_of_mem
    exacts [hnames, List.mem_of_getElem? (i := 4) rfl]
  · apply jsonObjectObjectGet_of_mem
    exacts [hnames, List.mem_of_getElem? (i := 6) rfl]

theorem devReportOf_reportValue {c : AfClientNode} (h : FitsInt c) (mac : Mac) :
    devReportOf (reportValue mac c) = recordReport c := by
  obtain ⟨-, hip, hactive, hup, hdown, hvisits⟩ := reportValue_members mac c
  have hup' := jsonObjectGetInt64_intValue (h _ (show kilobytes c.periodFlow.upBytes ∈ _ by
    simp [reportNumbers]))
  have hdown' := jsonObjectGetInt64_intValue (h _ (show kilobytes c.periodFlow.downBytes ∈ _ by
    simp [reportNumbers]))
  have hflag : Int32.ofBitVec (if c.active then 1 else 0) = if c.active then 1 else 0 := by
    cases c.active <;> rfl
  have hlist : ((recordedApps c.toAfClientInfo).map visitValue).map visitReportOf =
      (recordedApps c.toAfClientInfo).map (fun v =>
        { appid := Int32.ofBitVec v.appId, latestAction := if v.latestAction then 1 else 0 }) := by
    rw [List.map_map]
    exact List.map_congr_left (fun v _ => visitReportOf_visitValue v)
  unfold devReportOf recordReport
  simp only [hip, hactive, hup, hdown, hvisits, Option.map_some, Option.elim_some,
    jsonObjectGetInt_intValue, hup', hdown', hflag]
  exact congrArg (DevReport.mk _ _ _ _) hlist

/-! ## The message -/

/-- The message of a text of the kernel, with what lies behind it in the buffer. -/
def reportMsg (text junk : CStr) : AfMsg := { len := text.length, data := text ++ junk }

theorem sum_length_le (n : Nat) (texts : List CStr) (h : ∀ s ∈ texts, s.length ≤ n) :
    (texts.map List.length).sum ≤ n * texts.length := by
  induction texts with
  | nil => exact Nat.le_refl 0
  | cons s texts ih =>
      rw [List.forall_mem_cons] at h
      have hrest := ih h.2
      have hfirst := h.1
      rw [List.map_cons, List.sum_cons, List.length_cons, Nat.mul_succ]
      omega

theorem reportText_le (mac : Mac) (c : AfClientNode) :
    (reportText mac c).length ≤ 200 + 40 * (recordedApps c.toAfClientInfo).length := by
  obtain ⟨rest, -, hhi, hlen⟩ := reportText_length mac c
  have hsum := sum_length_le 39 ((recordedApps c.toAfClientInfo).map visitText) (by
    intro s hs
    obtain ⟨v, -, rfl⟩ := List.mem_map.mp hs
    exact (visitText_length v).2)
  rw [List.length_map] at hsum
  rw [hlen, length_intercalate_comma, List.length_map]
  omega

theorem reportText_lt (mac : Mac) (c : AfClientNode) : (reportText mac c).length < 2 ^ 16 := by
  have hlen := reportText_le mac c
  have hslots : (recordedApps c.toAfClientInfo).length ≤ 64 := by
    unfold recordedApps
    refine (List.length_filter_le _ _).trans ?_
    rw [List.length_map, List.length_finRange]
    exact Nat.le_refl 64
  omega

/-- A text that was handed over is the whole report, and fits a message. -/
theorem handed_over {mac : Mac} {io : ReportIo} {c : AfClientNode} {text : CStr} {ret : Int}
    (h : (afVisitInfoReport mac io c).2 = some (ret, some text)) :
    text = reportText mac c ∧ (reportText mac c).length < 1024 := by
  have hsend := (delivered_iff mac io c).mp ⟨ret, text, h⟩
  have hwhole := reportText_lt mac c
  have hfits := hsend.fits
  have hmod : (reportText mac c).length % 2 ^ 16 = (reportText mac c).length :=
    Nat.mod_eq_of_lt hwhole
  rw [hmod] at hfits
  have hneg : ¬ io.unicast < 0 := Int.not_lt.mpr hsend.unicast
  simp only [afVisitInfoReport, afSendMsgToUser, hsend.createObject, hsend.print, hsend.msgBuf,
    hsend.nlmsgNew, hsend.nlmsgPut, hmod, if_neg (Nat.not_le.mpr hfits), if_neg hneg, Bool.not_true,
    Bool.false_eq_true, if_false, Option.some.injEq, Prod.mk.injEq, List.take_length] at h
  exact ⟨h.2.symm, hfits⟩

/-- The daemon reads the record's fields out of a message. -/
theorem readReport_reportText {parse : CStr → Option Json} (hparse : ReadsJson parse)
    {c : AfClientNode} (h : FitsInt c) (mac : Mac) (hlen : (reportText mac c).length < 1024)
    (junk : CStr) :
    readReport parse (reportMsg (reportText mac c) junk) = some (macText mac, recordReport c) := by
  have hroot := hparse.reads (reportValue mac c) (reportText mac c) junk rfl
    (reportValue_nesting mac c) (reportValue_fits h mac) (reportText_isText mac c)
  have hpos : 0 < (reportText mac c).length := by
    obtain ⟨rest, hrest, -, heq⟩ := reportText_length mac c
    omega
  unfold readReport reportMsg
  rw [if_neg (by simp), if_neg (by simp only [AfMsg.maxOafNetlinkMsgLen]; omega), hroot]
  obtain ⟨hmac, -⟩ := reportValue_members mac c
  rw [Option.bind_some, hmac, devReportOf_reportValue h mac]
  rfl

/-- A report that is handed over reaches the daemon as the record's fields: what
the handler does to its table is one event, whatever lies behind the text in the
buffer and whichever JSON library keeps to the texts. -/
theorem report_reaches_device {parse : CStr → Option Json} (hparse : ReadsJson parse) {mac : Mac}
    {io : ReportIo} {c : AfClientNode} (hfits : FitsInt c) {ret : Int} {text : CStr}
    (hsent : (afVisitInfoReport mac io c).2 = some (ret, some text)) (recv : Reception)
    (s : DevLists) :
    handleReport parse recv (reportMsg text recv.junk) s =
      devStep s (.report (macText mac) recv.calloc recv.clock recv.hour (recordReport c)) := by
  obtain ⟨rfl, hlen⟩ := handed_over hsent
  unfold handleReport
  rw [readReport_reportText hparse hfits mac hlen]

/-! ## A reader

The module's own reader, with its items turned into values. -/

mutual
/-- The value of an item. -/
def valueOf : CJson → Json
  | .mk .isNull _ _ _ _ => .null
  | .mk .isFalse _ _ _ _ => .bool false
  | .mk .isTrue _ _ _ _ => .bool true
  | .mk .number _ n _ _ => .num n.toInt
  | .mk .string s _ _ _ => .str (s.getD [])
  | .mk .array _ _ _ child => .arr (valuesOf child)
  | .mk .object _ _ _ child => .obj (membersOf child)
def valuesOf : List CJson → List Json
  | [] => []
  | item :: items => valueOf item :: valuesOf items
def membersOf : List CJson → List (CStr × Json)
  | [] => []
  | item :: items => (item.string.getD [], valueOf item) :: membersOf items
end

theorem valueOf_named (name : CStr) (item : CJson) : valueOf (item.named name) = valueOf item := by
  obtain ⟨t, s, n, k, cs⟩ := item
  cases t <;> rfl

theorem toInt_ofNat_natAbs {n : Int} (h : 0 ≤ n ∧ n < 2 ^ 31) :
    (Int32.ofNat n.natAbs).toInt = n := by
  have hofInt : Int32.ofNat n.natAbs = Int32.ofInt n := by
    rw [← Int32.ofInt_eq_ofNat, Int.natAbs_of_nonneg h.1]
  rw [hofInt, Int32.toInt_ofInt_of_le (by omega) (by omega)]

mutual
/-- The item of a value says which value it was. -/
theorem valueOf_itemOf : ∀ {onStr : CStr → Prop} (v : Json), v.Every onStr (fun n => 0 ≤ n ∧ n < 2 ^ 31) →
    valueOf (itemOf v) = v
  | _, .null, _ => rfl
  | _, .bool false, _ => rfl
  | _, .bool true, _ => rfl
  | _, .num n, h => by
      rw [Json.Every] at h
      exact congrArg Json.num (toInt_ofNat_natAbs h)
  | _, .str _, _ => rfl
  | _, .arr items, h => by
      rw [Json.Every] at h
      exact congrArg Json.arr (valuesOf_items items h)
  | _, .obj fields, h => by
      rw [Json.Every] at h
      exact congrArg Json.obj (membersOf_members fields h)
theorem valuesOf_items : ∀ {onStr : CStr → Prop} (vs : List Json),
    Json.EveryItem onStr (fun n => 0 ≤ n ∧ n < 2 ^ 31) vs →
    valuesOf (itemsWith (fun n => Int32.ofNat n.natAbs) vs) = vs
  | _, [], _ => rfl
  | _, v :: vs, h => by
      rw [Json.EveryItem] at h
      have hhead : valueOf (itemWith (fun n => Int32.ofNat n.natAbs) v) = v := valueOf_itemOf v h.1
      rw [itemsWith, valuesOf, hhead, valuesOf_items vs h.2]
theorem membersOf_members : ∀ {onStr : CStr → Prop} (fs : List (CStr × Json)),
    Json.EveryMember onStr (fun n => 0 ≤ n ∧ n < 2 ^ 31) fs →
    membersOf (membersWith (fun n => Int32.ofNat n.natAbs) fs) = fs
  | _, [], _ => rfl
  | _, (k, v) :: fs, h => by
      rw [Json.EveryMember] at h
      have hhead : valueOf (itemWith (fun n => Int32.ofNat n.natAbs) v) = v := valueOf_itemOf v h.2.1
      rw [membersWith, membersOf, CJson.named_string, valueOf_named, hhead, Option.getD_some,
        membersOf_members fs h.2.2]
end

/-- Reading with `cJSON_Parse`, where `char` is unsigned. -/
def ownReader (s : CStr) : Option Json := (CJson.cJsonParse false s).toOption.map valueOf

theorem ownReader_readsJson : ReadsJson ownReader where
  reads v t rest hv _ hevery ht := by
    have hread : Readable false t := fun h => absurd h Bool.false_ne_true
    have hparse := cJsonParse_text blank_nil ht.of_noGap hv hread rest
    rw [List.nil_append] at hparse
    have hvalue := valueOf_itemOf v hevery
    unfold ownReader
    rw [hparse]
    exact congrArg some hvalue

/-- A phone that plays a video. -/
def reportedPhone : AfClientNode where
  ip := 0xc0a80102
  active := true
  periodFlow := { upBytes := 4096, downBytes := 70000 }
  visitInfo := fun i => if i.val = 0 then { appId := 3001, totalNum := 9, latestAction := true } else {}

/-- Where the end of an older message lies behind the text. -/
def receivedAtNoon : Reception :=
  { calloc := some 1, clock := { now := 43200 }, hour := ⟨12, by decide⟩, junk := "tion\":1\x7d]\x7d".toList }

theorem report_reaches_device_phone :
    ∃ ret text, (afVisitInfoReport phoneMac {} reportedPhone).2 = some (ret, some text) ∧
      handleReport ownReader receivedAtNoon (reportMsg text receivedAtNoon.junk) {} =
        devStep {} (.report (macText phoneMac) receivedAtNoon.calloc receivedAtNoon.clock
          receivedAtNoon.hour (recordReport reportedPhone)) := by
  have hone : (recordedApps reportedPhone.toAfClientInfo).length = 1 := by decide +kernel
  have hnumbers : reportNumbers reportedPhone = [0, 4, 68, 1, 3001, 1] := by decide +kernel
  have hfits : FitsInt reportedPhone := by
    unfold FitsInt
    rw [hnumbers]
    intro n hn
    simp only [List.mem_cons, List.not_mem_nil, or_false] at hn
    rcases hn with rfl | rfl | rfl | rfl | rfl | rfl
    all_goals decide
  have hlen := reportText_le phoneMac reportedPhone
  have hcan : CanSend phoneMac {} reportedPhone :=
    ⟨rfl, rfl, by rw [maxOafNlMsgLen, Nat.mod_eq_of_lt] <;> omega, rfl, rfl, rfl, Int.le_refl 0⟩
  obtain ⟨ret, text, hsent⟩ := (delivered_iff phoneMac {} reportedPhone).mpr hcan
  exact ⟨ret, text, hsent, report_reaches_device ownReader_readsJson hfits hsent
    receivedAtNoon {}⟩

end OpenAppFilter.Theorems
