import OpenAppFilter.Base.Rows
import OpenAppFilter.Kernel.Report
import OpenAppFilter.Kernel.System

/-!
# The table of visited apps

What the slots of `visit_info` are for is a table with the app id as its key: a
visit overwrites the row of its app or appends one (`noteVisit`). The slots hold
the rows in their order, and no app in the slots behind them (`Shows`).
`af_get_visit_index` stops at the row of the app or at the first slot behind the
rows, so a visit without an app id writes to a slot that holds no app, and a new
app finds that slot next. With all 64 slots taken it would stop nowhere and fall
back to slot 0.
-/

namespace OpenAppFilter.Theorems

open Base Kernel

/-! ## Visits and what is listed -/

/-- The arguments of a call of `af_update_client_app_info`, and the time it finds. -/
structure VisitCall where
  now : Nat
  appId : BitVec 32
  drop : Bool

/-- The record after the calls. -/
def afterVisits (calls : List VisitCall) (c : AfClientNode) : AfClientNode :=
  { c with toAfClientInfo :=
      calls.foldl (fun c v => afUpdateClientAppInfo v.now v.appId v.drop c) c.toAfClientInfo }

/-- The app ids of the calls that have one, each once. -/
def visitedIds (calls : List VisitCall) : List (BitVec 32) :=
  ((calls.map (·.appId)).filter (· ≠ 0)).dedup

/-- The drop flag of the last call for an id. -/
def lastDrop (calls : List VisitCall) (id : BitVec 32) : Option Bool :=
  ((calls.filter (fun v => v.appId = id)).getLast?).map (·.drop)

/-- The apps listed are those that were visited, each once and with its last
action. -/
structure ListsVisits (calls : List VisitCall) (listed : List AppVisitInfo) : Prop where
  once : (listed.map (·.appId)).Nodup
  visited : ∀ id, id ∈ listed.map (·.appId) ↔ id ≠ 0 ∧ ∃ v ∈ calls, v.appId = id
  action : ∀ a ∈ listed, lastDrop calls a.appId = some a.latestAction

/-! ## The table of apps -/

abbrev VisitRows := List (BitVec 32 × Bool)

/-- What a visit does to the table of apps and last actions. -/
def noteVisit (rows : VisitRows) (v : VisitCall) : VisitRows :=
  if v.appId = 0 then rows else upsert v.appId v.drop (fun _ => v.drop) rows

def visitRows (calls : List VisitCall) : VisitRows := calls.foldl noteVisit []

theorem visitRows_concat (calls : List VisitCall) (v : VisitCall) :
    visitRows (calls ++ [v]) = noteVisit (visitRows calls) v := by
  rw [visitRows, List.foldl_append]
  rfl

theorem visitRows_nodup (calls : List VisitCall) : ((visitRows calls).map Prod.fst).Nodup := by
  induction calls using List.reverseRecOn with
  | nil => exact List.nodup_nil
  | append_singleton calls v ih =>
      rw [visitRows_concat]
      unfold noteVisit
      split
      · exact ih
      · exact nodup_keys_upsert ih

theorem mem_visitRows {calls : List VisitCall} {id : BitVec 32} :
    id ∈ (visitRows calls).map Prod.fst ↔ id ≠ 0 ∧ ∃ v ∈ calls, v.appId = id := by
  induction calls using List.reverseRecOn with
  | nil => simp [visitRows]
  | append_singleton calls v ih =>
      rw [visitRows_concat]
      unfold noteVisit
      by_cases hzero : v.appId = 0
      · rw [if_pos hzero, ih]
        refine and_congr_right (fun hid => ?_)
        have hv : v.appId ≠ id := fun heq => hid (heq.symm.trans hzero)
        simp [hv, or_and_right, exists_or]
      · rw [if_neg hzero, mem_keys_upsert, ih]
        constructor
        · rintro (⟨hid, v', hv', heq⟩ | rfl)
          · exact ⟨hid, v', List.mem_append_left _ hv', heq⟩
          · exact ⟨hzero, v, by simp, rfl⟩
        · rintro ⟨hid, v', hv', heq⟩
          rcases List.mem_append.mp hv' with hv' | hv'
          · exact .inl ⟨hid, v', hv', heq⟩
          · obtain rfl := List.mem_singleton.mp hv'
            exact .inr heq.symm

theorem visitRows_action (calls : List VisitCall) {id : BitVec 32} (hid : id ≠ 0) :
    rowOf id (visitRows calls) = lastDrop calls id := by
  induction calls using List.reverseRecOn with
  | nil => rfl
  | append_singleton calls v ih =>
      rw [visitRows_concat]
      unfold noteVisit lastDrop
      rw [List.filter_append, List.getLast?_append]
      by_cases hv : v.appId = id
      · rw [if_neg (by rw [hv]; exact hid), rowOf_upsert, if_pos hv.symm]
        cases hrow : rowOf v.appId (visitRows calls) with
        | none => simp [hv]
        | some a => simp [hv]
      · have hskip : rowOf id (noteVisit (visitRows calls) v) = rowOf id (visitRows calls) := by
          unfold noteVisit
          split
          · rfl
          · rw [rowOf_upsert, if_neg (Ne.symm hv)]
        unfold noteVisit at hskip
        rw [hskip, ih]
        simp [hv, lastDrop]

/-- The table has a row for each visited id. -/
theorem visitRows_length_le (calls : List VisitCall) :
    (visitRows calls).length ≤ (visitedIds calls).length := by
  have hkeys : ((visitRows calls).map Prod.fst).length = (visitRows calls).length := List.length_map _
  rw [← hkeys]
  refine (List.subperm_of_subset (visitRows_nodup calls) (fun id hid => ?_)).length_le
  obtain ⟨hne, v, hv, rfl⟩ := mem_visitRows.mp hid
  unfold visitedIds
  rw [List.mem_dedup, List.mem_filter, decide_eq_true_eq]
  exact ⟨List.mem_map_of_mem hv, hne⟩

/-! ## The slots show the table -/

/-- The slots hold the rows from the first slot on, and no app behind them. -/
def Shows (c : AfClientInfo) (rows : VisitRows) : Prop :=
  ∀ i : Fin maxRecordAppNum,
    match rows[i.val]? with
    | some row => (c.visitInfo i).appId = row.1 ∧ (c.visitInfo i).latestAction = row.2
    | none => (c.visitInfo i).appId = 0

/-- `af_get_visit_index` stops at the first slot with the app or without one. -/
theorem afGetVisitIndex_eq {c : AfClientInfo} {id : BitVec 32} {i : Fin maxRecordAppNum}
    (hi : (c.visitInfo i).appId = id ∨ (c.visitInfo i).appId = 0)
    (hbefore : ∀ j < i, (c.visitInfo j).appId ≠ id ∧ (c.visitInfo j).appId ≠ 0) :
    afGetVisitIndex c id = i := by
  have hfind : (List.finRange maxRecordAppNum).find? (fun i =>
      (c.visitInfo i).appId = id || (c.visitInfo i).appId = 0) = some i := by
    rw [List.find?_eq_some_iff_getElem]
    refine ⟨by simpa using hi, i.val, by simp, by simp, fun j hj => ?_⟩
    obtain ⟨hid, hzero⟩ := hbefore ⟨j, Nat.lt_trans hj i.isLt⟩ hj
    simpa [hid] using hzero
  unfold afGetVisitIndex
  rw [hfind]
  rfl

/-- The slot of a visit is the place of its row; a visit without an app goes behind
the rows. -/
theorem Shows.index {c : AfClientInfo} {rows : VisitRows} (h : Shows c rows)
    (hkeys : ∀ row ∈ rows, row.1 ≠ 0) (hroom : rows.length < maxRecordAppNum) (id : BitVec 32) :
    (afGetVisitIndex c id).val = rows.findIdx (fun row => row.1 = id) := by
  have hle : rows.findIdx (fun row => row.1 = id) ≤ rows.length := List.findIdx_le_length
  generalize hplace : rows.findIdx (fun row => row.1 = id) = place at hle
  have hindex : afGetVisitIndex c id = ⟨place, by omega⟩ := by
    refine afGetVisitIndex_eq ?_ (fun j hj => ?_)
    · have hslot := h ⟨place, by omega⟩
      cases hrow : rows[place]? with
      | none =>
          rw [hrow] at hslot
          exact .inr hslot
      | some row =>
          rw [hrow] at hslot
          obtain ⟨hlt, rfl⟩ := List.getElem?_eq_some_iff.mp hrow
          have hfound : rows.findIdx (fun row => row.1 = id) < rows.length := by rwa [hplace]
          have hkey := List.findIdx_getElem (w := hfound)
          simp only [hplace, decide_eq_true_eq] at hkey
          exact .inl (hslot.1.trans hkey)
    · -- a slot in front of the place shows a row of another app
      have hj' : j.val < place := hj
      have hlt : j.val < rows.length := by omega
      have hslot := h j
      rw [List.getElem?_eq_getElem hlt] at hslot
      have hearly : j.val < rows.findIdx (fun row => row.1 = id) := by rwa [hplace]
      rw [hslot.1]
      exact ⟨by simpa using List.not_of_lt_findIdx hearly, hkeys _ (List.getElem_mem hlt)⟩
  rw [hindex]

/-- A visit does to the slots what it does to the table. -/
theorem Shows.visit {c : AfClientInfo} {rows : VisitRows} (h : Shows c rows)
    (hkeys : ∀ row ∈ rows, row.1 ≠ 0) (hroom : rows.length < maxRecordAppNum) (v : VisitCall) :
    Shows (afUpdateClientAppInfo v.now v.appId v.drop c) (noteVisit rows v) := by
  have hindex := h.index hkeys hroom v.appId
  intro i
  have hslot := h i
  have hsame : i = afGetVisitIndex c v.appId ↔ i.val = rows.findIdx (fun row => row.1 = v.appId) := by
    rw [Fin.ext_iff, hindex]
  unfold noteVisit afUpdateClientAppInfo
  dsimp only
  by_cases hzero : v.appId = 0
  · -- the slot behind the rows: it held no app and holds none
    rw [if_pos hzero]
    by_cases hi : i = afGetVisitIndex c v.appId
    · have hend : rows.findIdx (fun row => row.1 = v.appId) = rows.length := by
        rw [List.findIdx_eq_length]
        intro row hrow
        rw [decide_eq_false_iff_not, hzero]
        exact hkeys row hrow
      rw [hsame.mp hi, hend, List.getElem?_eq_none (Nat.le_refl _), if_pos hi]
      exact hzero
    · rw [if_neg hi]
      exact hslot
  · rw [if_neg hzero, getElem?_upsert_put]
    by_cases hi : i = afGetVisitIndex c v.appId
    · rw [if_pos (hsame.mp hi), if_pos hi]
      exact ⟨rfl, rfl⟩
    · rw [if_neg (fun hplace => hi (hsame.mpr hplace)), if_neg hi]
      exact hslot

/-- The slots show the table after all calls, if there is room for every app. -/
theorem shows_afterVisits {c : AfClientNode} (hempty : ∀ i, (c.visitInfo i).appId = 0)
    (calls : List VisitCall) :
    (visitRows calls).length < maxRecordAppNum →
      Shows (afterVisits calls c).toAfClientInfo (visitRows calls) := by
  induction calls using List.reverseRecOn with
  | nil => exact fun _ i => hempty i
  | append_singleton calls v ih =>
      intro hroom
      have hgrow : (visitRows calls).length ≤ (visitRows (calls ++ [v])).length := by
        rw [visitRows_concat]
        unfold noteVisit
        split
        · exact Nat.le_refl _
        · exact length_le_upsert _ _ _ _
      have hprev : (visitRows calls).length < maxRecordAppNum := Nat.lt_of_le_of_lt hgrow hroom
      have hkeys : ∀ row ∈ visitRows calls, row.1 ≠ 0 :=
        fun row hrow => (mem_visitRows.mp (List.mem_map_of_mem hrow)).1
      have hstep := (ih hprev).visit hkeys hprev v
      rw [visitRows_concat]
      simpa only [afterVisits, List.foldl_append, List.foldl_cons, List.foldl_nil] using hstep

/-- What a report lists is the table the slots show. -/
theorem Shows.recordedApps_eq {c : AfClientInfo} {rows : VisitRows} (h : Shows c rows)
    (hkeys : ∀ row ∈ rows, row.1 ≠ 0) (hroom : rows.length ≤ maxRecordAppNum) :
    (recordedApps c).map (fun a => (a.appId, a.latestAction)) = rows := by
  have hlength : ((List.finRange maxRecordAppNum).map c.visitInfo).length = maxRecordAppNum := by simp
  have hslot : ∀ i (hi : i < rows.length), ∀ a, ((List.finRange maxRecordAppNum).map c.visitInfo)[i]? = some a →
      (a.appId, a.latestAction) = rows[i] := by
    intro i hi a ha
    have hi' : i < maxRecordAppNum := Nat.lt_of_lt_of_le hi hroom
    have hshow := h ⟨i, hi'⟩
    rw [List.getElem?_eq_getElem hi] at hshow
    obtain rfl : c.visitInfo ⟨i, hi'⟩ = a := by simpa [hi'] using ha
    exact Prod.ext hshow.1 hshow.2
  have htake : (((List.finRange maxRecordAppNum).map c.visitInfo).take rows.length).map
      (fun a => (a.appId, a.latestAction)) = rows := by
    refine List.ext_getElem (by simp [hroom]) (fun i hi hi' => ?_)
    rw [List.getElem_map, List.getElem_take]
    exact hslot i hi' _ (List.getElem?_eq_getElem _)
  have hhead : ((((List.finRange maxRecordAppNum).map c.visitInfo).take rows.length).filter
      (fun v => decide (v.appId ≠ 0))) = ((List.finRange maxRecordAppNum).map c.visitInfo).take rows.length := by
    rw [List.filter_eq_self]
    intro a ha
    have hrow : (a.appId, a.latestAction) ∈ rows := by
      rw [← htake]
      exact List.mem_map_of_mem ha
    exact decide_eq_true (hkeys _ hrow)
  have htail : (((List.finRange maxRecordAppNum).map c.visitInfo).drop rows.length).filter
      (fun v => decide (v.appId ≠ 0)) = [] := by
    rw [List.filter_eq_nil_iff]
    intro a ha
    obtain ⟨i, hi, rfl⟩ := List.mem_drop_iff_getElem.mp ha
    have hi' : rows.length + i < maxRecordAppNum := by omega
    have hshow := h ⟨rows.length + i, hi'⟩
    rw [List.getElem?_eq_none (Nat.le_add_right _ _)] at hshow
    simpa [hi', Nat.add_comm i] using hshow
  -- the slots of the rows stay, the slots behind them go
  unfold recordedApps
  rw [← List.take_append_drop rows.length ((List.finRange maxRecordAppNum).map c.visitInfo), List.filter_append,
    hhead, htail, List.append_nil, htake]

/-! ## Main result -/

/-- **Visited apps are reported once, with their last action.** From a record whose
slots hold no app, after every sequence of calls with at most 63 distinct app ids,
the next report lists the ids that occurred, each once and with the drop flag of
its last call, and no slot holds an app once the report has built its object. -/
theorem visits_reported_once (mac : Mac) (c : AfClientNode) (calls : List VisitCall)
    (hempty : ∀ i, (c.visitInfo i).appId = 0) (hids : (visitedIds calls).length ≤ 63) :
    ListsVisits calls (recordedApps (afterVisits calls c).toAfClientInfo) ∧
      ∀ io : ReportIo, io.createObject = true →
        ∀ i, ((afVisitInfoReport mac io (afterVisits calls c)).1.visitInfo i).appId = 0 := by
  have hroom : (visitRows calls).length < maxRecordAppNum :=
    Nat.lt_of_le_of_lt ((visitRows_length_le calls).trans hids) (by decide)
  have hkeys : ∀ row ∈ visitRows calls, row.1 ≠ 0 :=
    fun row hrow => (mem_visitRows.mp (List.mem_map_of_mem hrow)).1
  have hrows := (shows_afterVisits hempty calls hroom).recordedApps_eq hkeys (Nat.le_of_lt hroom)
  have hfst : (recordedApps (afterVisits calls c).toAfClientInfo).map (·.appId) =
      (visitRows calls).map Prod.fst := by
    rw [← hrows, List.map_map]
    rfl
  refine ⟨⟨?_, fun id => ?_, fun a ha => ?_⟩, fun io hio i => ?_⟩
  · rw [hfst]
    exact visitRows_nodup calls
  · rw [hfst, mem_visitRows]
  · have hrow : (a.appId, a.latestAction) ∈ visitRows calls := by
      rw [← hrows]
      exact List.mem_map_of_mem ha
    rw [← visitRows_action calls (hkeys _ hrow)]
    exact rowOf_of_mem (visitRows_nodup calls) hrow
  · unfold afVisitInfoReport
    rw [hio, if_neg (by decide)]
    have hdrained : (if ((afterVisits calls c).visitInfo i).appId = 0 then (afterVisits calls c).visitInfo i
        else {}).appId = 0 := by
      split
      · assumption
      · rfl
    split
    · exact hdrained
    · exact hdrained

/-- Two apps, one of them twice, and a packet without an app. -/
def browsing : List VisitCall :=
  [⟨10, 1001#32, true⟩, ⟨11, 0#32, true⟩, ⟨12, 1002#32, false⟩, ⟨13, 1001#32, false⟩]

theorem visits_reported_once_browsing :
    ListsVisits browsing (recordedApps
        (afterVisits browsing { createJiffies := 0, updateJiffies := 0 }).toAfClientInfo) ∧
      ∀ i, ((afVisitInfoReport phoneMac {}
        (afterVisits browsing { createJiffies := 0, updateJiffies := 0 })).1.visitInfo i).appId = 0 := by
  have hreport := visits_reported_once phoneMac { createJiffies := 0, updateJiffies := 0 } browsing
    (fun _ => rfl) (by decide)
  exact ⟨hreport.1, hreport.2 {} rfl⟩

end OpenAppFilter.Theorems
