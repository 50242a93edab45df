import OpenAppFilter.Daemon.Visits

/-!
# The time of each app

The handler splits an app id into a row and a column of `stat`, the readers put a
row and a column together to an app id. The array has 32 rows of 512 cells, the
handler takes every type from 1 on and every number from 1 to 999. Ids with a
number up to 512 and a type up to 32 (`HasCell`) have a cell of their own, which
is the cell the readers take for them. A number above 512 lands in the row of the
next type, and a type above 32 behind the array.

`update_top5_app` copies the cells that are not 0 to an array of 128, so it reads
the time of a device with up to 128 apps.
-/

namespace OpenAppFilter.Theorems

open Base Daemon

/-! ## What is shown -/

/-- The checks of the handler on the id itself. -/
def ValidId (a : Int32) : Prop := 0 < a / 1000 ∧ 0 < a % 1000

instance (a : Int32) : Decidable (ValidId a) := inferInstanceAs (Decidable (_ ∧ _))

/-- The id has a cell of its own. -/
def HasCell (a : Int32) : Prop :=
  (a / 1000).toInt.toNat ≤ maxAppType ∧ (a % 1000).toInt.toNat ≤ maxAppIdNum

instance (a : Int32) : Decidable (HasCell a) := inferInstanceAs (Decidable (_ ∧ _))

/-- The time an array has for an app. -/
def totalIn (array : List (Int × UInt32)) (a : Int32) : Nat :=
  ((array.find? (fun cell => cell.1 = a.toInt)).map (·.2.toNat)).getD 0

/-- The time `update_top5_app` reads for an app. -/
def readTotal (u : DevUsage) (a : Int32) : Option Nat := (appVisitArray u).map (totalIn · a)

/-- The usage of a device; a device that is not there has none. -/
def usageOf (s : UsageState) (name : CStr) : DevUsage := (s.devs.find? name).getD {}

/-- How often a report lists an app without being ignored. -/
def listed (c : UsageClock) (visits : List VisitReport) (a : Int32) : Nat :=
  visits.countP (fun v => decide (v.appid = a) && c.accepts v.appid)

/-- The state, and how often each app of each device was listed since its counters
were cleared. -/
structure UsageLedger where
  state : UsageState
  counted : CStr → Int32 → Nat := fun _ _ => 0

def UsageLedger.count (l : UsageLedger) : UsageAct → CStr → Int32 → Nat
  | .report mac visits, name, a =>
      if name = mac.take maxMacLen then l.counted name a + listed l.state.toUsageClock visits a
      else l.counted name a
  | .clearStatistics, _, _ => 0
  | .flushDevs gone, name, a => if gone name then 0 else l.counted name a
  | _, name, a => l.counted name a

def usageLedgerStep (l : UsageLedger) (e : UsageAct) : UsageLedger := ⟨usageStep l.state e, l.count e⟩

/-- The readers see 60 seconds for every time an app was listed. -/
def Attributed (l : UsageLedger) : Prop :=
  ∀ name a, ValidId a → readTotal (usageOf l.state name) a = some (60 * l.counted name a)

/-- The id the readers put together from a row and a column. -/
def idOfCell (i j : Nat) : Int32 := Int32.ofNat ((i + 1) * 1000 + j + 1)

/-- And so do their sums over the classes. -/
def ClassAttributed (l : UsageLedger) : Prop :=
  ∀ name i, i < maxAppType → updateAppClassVisitTimeList (usageOf l.state name) i =
    ((List.range maxAppIdNum).map (fun j => Int32.ofNat (60 * l.counted name (idOfCell i j)))).foldl
      (· + ·) 0

/-- A report changes no other total, and writes inside the array. -/
def Contained (l : UsageLedger) : UsageAct → Prop
  | .report mac visits =>
      (∀ name a, ValidId a → ¬ (name = mac.take maxMacLen ∧ 0 < listed l.state.toUsageClock visits a) →
        readTotal (usageOf (reportUsage l.state mac visits) name) a =
          readTotal (usageOf l.state name) a) ∧
      ∀ v ∈ visits, l.state.accepts v.appid = true → statIndex v.appid < maxAppType * maxAppIdNum
  | _ => True

/-- The number of apps that were listed. -/
def appsListed (counted : Int32 → Nat) : Nat :=
  ((List.range maxAppType).flatMap (fun i => (List.range maxAppIdNum).map (idOfCell i))).countP
    (fun a => 0 < counted a)

/-- The ids a report gets accepted have a cell of their own, which does not
overflow, and the device has no more apps than the array takes. -/
def InBounds (l : UsageLedger) : UsageAct → Prop
  | .report mac visits =>
      (∀ v ∈ visits, l.state.accepts v.appid = true →
        HasCell v.appid ∧ 60 * l.count (.report mac visits) (mac.take maxMacLen) v.appid < 2 ^ 32) ∧
      appsListed (l.count (.report mac visits) (mac.take maxMacLen)) ≤ maxStatAppNum
  | _ => True

/-! ## Ids and cells -/

/-- A valid id is a type and a number below 1000. -/
theorem ValidId.parts {a : Int32} (h : ValidId a) :
    ∃ type id : Nat, 0 < type ∧ 0 < id ∧ id < 1000 ∧ a.toInt = 1000 * type + id ∧
      (a / 1000).toInt.toNat = type ∧ (a % 1000).toInt.toNat = id := by
  obtain ⟨htype, hid⟩ := h
  have hdiv : (a / 1000).toInt = a.toInt.tdiv 1000 := Int32.toInt_div_of_ne_right a 1000 (by decide)
  have hmod : (a % 1000).toInt = a.toInt.tmod 1000 := Int32.toInt_mod a 1000
  rw [Int32.lt_iff_toInt_lt] at htype hid
  rw [hdiv] at htype ⊢
  rw [hmod] at hid ⊢
  have hzero : (0 : Int32).toInt = 0 := rfl
  rw [hzero] at htype hid
  have hpos : 0 ≤ a.toInt := by
    by_contra hneg
    have hflip : (-a.toInt).tdiv 1000 = -a.toInt.tdiv 1000 := Int.neg_tdiv _ _
    have hnonneg : 0 ≤ (-a.toInt).tdiv 1000 := Int.tdiv_nonneg (by omega) (by decide)
    omega
  rw [Int.tdiv_eq_ediv_of_nonneg hpos] at htype ⊢
  rw [Int.tmod_eq_emod_of_nonneg hpos] at hid ⊢
  refine ⟨(a.toInt / 1000).toNat, (a.toInt % 1000).toNat, ?_, ?_, ?_, ?_, rfl, rfl⟩ <;> omega

theorem ValidId.statIndex_eq {a : Int32} (h : ValidId a) :
    ∃ type id : Nat, 0 < type ∧ 0 < id ∧ id < 1000 ∧ a.toInt = 1000 * type + id ∧
      statIndex a = (type - 1) * maxAppIdNum + (id - 1) ∧
      (HasCell a ↔ type ≤ maxAppType ∧ id ≤ maxAppIdNum) := by
  obtain ⟨type, id, htype, hid, hlt, heq, hdiv, hmod⟩ := h.parts
  refine ⟨type, id, htype, hid, hlt, heq, ?_, ?_⟩
  · unfold statIndex
    rw [hdiv, hmod]
  · unfold HasCell
    rw [hdiv, hmod]

theorem validId_of_accepts {c : UsageClock} {a : Int32} (h : c.accepts a = true) : ValidId a := by
  unfold UsageClock.accepts at h
  rw [Bool.and_eq_true, Bool.and_eq_true, decide_eq_true_eq, decide_eq_true_eq] at h
  exact ⟨h.1.2, h.2⟩

/-- Two ids in range do not share a cell. -/
theorem statIndex_inj {a b : Int32} (ha : ValidId a) (hb : ValidId b) (hra : HasCell a)
    (hrb : HasCell b) (h : statIndex a = statIndex b) : a = b := by
  obtain ⟨type, id, htype, hid, -, heq, hidx, hr⟩ := ha.statIndex_eq
  obtain ⟨type', id', htype', hid', -, heq', hidx', hr'⟩ := hb.statIndex_eq
  have hra := hr.mp hra
  have hrb := hr'.mp hrb
  rw [hidx, hidx'] at h
  unfold maxAppIdNum at h hra hrb
  apply Int32.toInt_inj.mp
  omega

theorem statIndex_lt {a : Int32} (ha : ValidId a) (hr : HasCell a) :
    statIndex a < maxAppType * maxAppIdNum := by
  obtain ⟨type, id, htype, hid, -, -, hidx, hrange⟩ := ha.statIndex_eq
  obtain ⟨htype', hid'⟩ := hrange.mp hr
  rw [hidx]
  unfold maxAppType maxAppIdNum at *
  omega

/-- The cells the readers visit. -/
theorem mem_cells {u : DevUsage} {cell : Int × UInt32} :
    cell ∈ (List.range maxAppType).flatMap (statRow u) ↔
      ∃ i j, i < maxAppType ∧ j < maxAppIdNum ∧ cell.1 = ((i + 1) * 1000 + j + 1 : Nat) ∧
        cell.2 = u.stat (i * maxAppIdNum + j) := by
  simp only [List.mem_flatMap, List.mem_range, statRow, List.mem_map]
  constructor
  · rintro ⟨i, hi, j, hj, rfl⟩
    exact ⟨i, j, hi, hj, rfl, rfl⟩
  · rintro ⟨i, j, hi, hj, hkey, hval⟩
    exact ⟨i, hi, j, hj, Prod.ext hkey.symm hval.symm⟩

/-- A cell is read for an id exactly when the id is in range and the cell is its
own. -/
theorem cell_of_id {u : DevUsage} {cell : Int × UInt32} {a : Int32} (ha : ValidId a)
    (hmem : cell ∈ (List.range maxAppType).flatMap (statRow u)) (hkey : cell.1 = a.toInt) :
    HasCell a ∧ cell.2 = u.stat (statIndex a) := by
  obtain ⟨type, id, htype, hid, hlt, heq, hidx, hr⟩ := ha.statIndex_eq
  obtain ⟨i, j, hi, hj, hkey', hval⟩ := mem_cells.mp hmem
  unfold maxAppIdNum at hj
  have hparts : i + 1 = type ∧ j + 1 = id := by
    rw [hkey', heq] at hkey
    omega
  obtain ⟨rfl, rfl⟩ := hparts
  refine ⟨hr.mpr ⟨hi, hj⟩, ?_⟩
  rw [hval, hidx, Nat.add_sub_cancel, Nat.add_sub_cancel]

theorem own_cell {u : DevUsage} {a : Int32} (ha : ValidId a) (hr : HasCell a) :
    (a.toInt, u.stat (statIndex a)) ∈ (List.range maxAppType).flatMap (statRow u) := by
  obtain ⟨type, id, htype, hid, hlt, heq, hidx, hrange⟩ := ha.statIndex_eq
  obtain ⟨htype', hid'⟩ := hrange.mp hr
  refine mem_cells.mpr ⟨type - 1, id - 1, by omega, by omega, ?_, ?_⟩
  · show a.toInt = _
    rw [heq]
    omega
  · rw [hidx]

/-- The loops see the counter of an id in range, and nothing for another one. -/
theorem totalIn_cells {u : DevUsage} {a : Int32} (ha : ValidId a) :
    totalIn (appVisitCells u) a = if HasCell a then (u.stat (statIndex a)).toNat else 0 := by
  unfold totalIn appVisitCells
  cases hfind : (((List.range maxAppType).flatMap (statRow u)).filter (fun cell => cell.2 ≠ 0)).find?
      (fun cell => cell.1 = a.toInt) with
  | some cell =>
      have hmem := List.mem_of_mem_filter (List.mem_of_find?_eq_some hfind)
      have hkey : cell.1 = a.toInt := by simpa using List.find?_some hfind
      obtain ⟨hr, hval⟩ := cell_of_id ha hmem hkey
      rw [if_pos hr, ← hval]
      rfl
  | none =>
      show 0 = _
      split
      · rename_i hr
        have hnone := List.find?_eq_none.mp hfind (a.toInt, u.stat (statIndex a))
        by_contra hzero
        refine hnone (List.mem_filter.mpr ⟨own_cell ha hr, ?_⟩) (by simp)
        rw [decide_eq_true_eq]
        intro hval
        exact hzero (by simp [show u.stat (statIndex a) = 0 from hval])
      · rfl

/-- The id of a cell is valid, in range, and has this cell. -/
theorem idOfCell_spec {i j : Nat} (hi : i < maxAppType) (hj : j < maxAppIdNum) :
    ValidId (idOfCell i j) ∧ HasCell (idOfCell i j) ∧
      statIndex (idOfCell i j) = i * maxAppIdNum + j := by
  unfold maxAppType at hi
  unfold maxAppIdNum at hj
  have hvalue : (idOfCell i j).toInt = ((i + 1) * 1000 + j + 1 : Nat) :=
    Int32.toInt_ofNat_of_lt (by omega)
  have hdiv : (idOfCell i j / 1000).toInt = i + 1 := by
    rw [Int32.toInt_div_of_ne_right _ 1000 (by decide), hvalue]
    show (_ : Int).tdiv 1000 = _
    rw [Int.tdiv_eq_ediv_of_nonneg (Int.natCast_nonneg _)]
    omega
  have hmod : (idOfCell i j % 1000).toInt = j + 1 := by
    rw [Int32.toInt_mod, hvalue]
    show (_ : Int).tmod 1000 = _
    rw [Int.tmod_eq_emod_of_nonneg (Int.natCast_nonneg _)]
    omega
  refine ⟨⟨?_, ?_⟩, ⟨?_, ?_⟩, ?_⟩
  · rw [Int32.lt_iff_toInt_lt, hdiv]
    show (0 : Int) < _
    omega
  · rw [Int32.lt_iff_toInt_lt, hmod]
    show (0 : Int) < _
    omega
  · rw [hdiv]
    unfold maxAppType
    omega
  · rw [hmod]
    unfold maxAppIdNum
    omega
  · unfold statIndex
    rw [hdiv, hmod]
    rfl

/-- When the cells that are not 0 are those of the apps that were listed, the loops
write an entry for each of these apps. -/
theorem length_appVisitCells {u : DevUsage} {counted : Int32 → Nat}
    (h : ∀ a, ValidId a → HasCell a → (u.stat (statIndex a)).toNat = 60 * counted a) :
    (appVisitCells u).length = appsListed counted := by
  unfold appVisitCells appsListed
  rw [← List.countP_eq_length_filter, List.countP_flatMap, List.countP_flatMap]
  refine congrArg List.sum (List.map_congr_left (fun i hi => ?_))
  simp only [Function.comp_apply, statRow, List.countP_map]
  refine List.countP_congr (fun j hj => ?_)
  obtain ⟨ha, hr, hidx⟩ := idOfCell_spec (List.mem_range.mp hi) (List.mem_range.mp hj)
  have hcell := h (idOfCell i j) ha hr
  rw [hidx] at hcell
  simp only [Function.comp_apply, decide_eq_true_eq, ne_eq]
  rw [← UInt32.toNat_inj, hcell, UInt32.toNat_zero]
  omega

theorem readTotal_eq_some_iff {u : DevUsage} {a : Int32} {total : Nat} :
    readTotal u a = some total ↔
      (appVisitCells u).length ≤ maxStatAppNum ∧ totalIn (appVisitCells u) a = total := by
  unfold readTotal appVisitArray
  split
  · rename_i hroom
    rw [Option.map_some, Option.some_inj]
    exact ⟨fun h => ⟨hroom, h⟩, fun h => h.2⟩
  · rename_i hfull
    exact ⟨fun h => absurd h (by simp), fun h => absurd h.1 hfull⟩

/-! ## One report -/

theorem stat_reportVisit (c : UsageClock) (u : DevUsage) (v : VisitReport) (cell : Nat) :
    (reportVisit c u v).stat cell =
      if c.accepts v.appid = true ∧ cell = statIndex v.appid then u.stat cell + reportIntervalSecs
      else u.stat cell := by
  unfold reportVisit
  cases hv : c.accepts v.appid with
  | false => rfl
  | true =>
      by_cases hcell : cell = statIndex v.appid
      · subst hcell
        simp
      · simp [hcell]

/-- As long as what a report gets accepted is in range, an id in range gains a
minute for every time it is listed. -/
theorem stat_reportVisits {c : UsageClock} {a : Int32} (ha : ValidId a) (hr : HasCell a)
    (visits : List VisitReport)
    (hin : ∀ v ∈ visits, c.accepts v.appid = true → HasCell v.appid) :
    ∀ u : DevUsage, (reportVisits c visits u).stat (statIndex a) =
      u.stat (statIndex a) + UInt32.ofNat (60 * listed c visits a) := by
  induction visits with
  | nil =>
      intro u
      simp [reportVisits, listed]
  | cons v visits ih =>
      intro u
      have hrest := ih (fun v' hv' => hin v' (List.mem_cons_of_mem _ hv')) (reportVisit c u v)
      show (reportVisits c visits (reportVisit c u v)).stat (statIndex a) = _
      rw [hrest, stat_reportVisit]
      by_cases hv : c.accepts v.appid = true ∧ v.appid = a
      · have hcount : listed c (v :: visits) a = listed c visits a + 1 := by
          unfold listed
          rw [List.countP_cons_of_pos]
          rw [Bool.and_eq_true, decide_eq_true_eq]
          exact ⟨hv.2, hv.1⟩
        rw [if_pos ⟨hv.1, by rw [hv.2]⟩, hcount, Nat.mul_add, Nat.add_comm (60 * _),
          UInt32.ofNat_add, UInt32.add_assoc]
        rfl
      · have hcount : listed c (v :: visits) a = listed c visits a := by
          unfold listed
          rw [List.countP_cons_of_neg]
          rw [Bool.and_eq_true, decide_eq_true_eq]
          exact fun hboth => hv ⟨hboth.2, hboth.1⟩
        rw [if_neg, hcount]
        rintro ⟨hacc, hcell⟩
        refine hv ⟨hacc, (statIndex_inj ha (validId_of_accepts hacc) hr ?_ hcell).symm⟩
        exact hin v List.mem_cons_self hacc

/-- What a report leaves of the usage of a device. -/
theorem usageOf_report (s : UsageState) (mac : CStr) (visits : List VisitReport) (name : CStr) :
    usageOf (reportUsage s mac visits) name =
      if name = mac.take maxMacLen then reportVisits s.toUsageClock visits (usageOf s name)
      else usageOf s name := by
  unfold usageOf reportUsage
  rw [HTable.find?_modify, HTable.find?_addNew]
  by_cases hk : name = mac.take maxMacLen
  · subst hk
    rw [if_pos rfl, if_pos rfl, if_pos rfl]
    rfl
  · rw [if_neg hk, if_neg hk, if_neg hk]

/-! ## Runs -/

/-- Every id in range has 60 seconds in its cell for every time it was listed, and
the others were not listed. -/
structure Booked (l : UsageLedger) : Prop where
  cells : ∀ name a, ValidId a → HasCell a →
    ((usageOf l.state name).stat (statIndex a)).toNat = 60 * l.counted name a
  hasCell : ∀ name a, 0 < l.counted name a → HasCell a
  room : ∀ name, appsListed (l.counted name) ≤ maxStatAppNum

theorem Booked.attributed {l : UsageLedger} (h : Booked l) : Attributed l := by
  intro name a ha
  refine readTotal_eq_some_iff.mpr ⟨?_, ?_⟩
  · rw [length_appVisitCells (h.cells name)]
    exact h.room name
  rw [totalIn_cells ha]
  split
  · rename_i hr
    exact h.cells name a ha hr
  · rename_i hr
    have hzero : l.counted name a = 0 := Nat.eq_zero_of_not_pos (fun hpos => hr (h.hasCell name a hpos))
    rw [hzero]

/-- The sum over a class skips the cells that are 0. -/
theorem updateAppClassVisitTimeList_eq (u : DevUsage) (i : Nat) :
    updateAppClassVisitTimeList u i =
      ((List.range maxAppIdNum).map (fun j => (u.stat (i * maxAppIdNum + j)).toInt32)).foldl
        (· + ·) 0 := by
  unfold updateAppClassVisitTimeList statRow
  rw [List.foldl_map, List.foldl_map]
  congr 1
  funext time j
  dsimp only
  split
  · rename_i hzero
    rw [hzero]
    exact (Int32.add_zero time).symm
  · rfl

theorem Attributed.class {l : UsageLedger} (h : Attributed l) : ClassAttributed l := by
  intro name i hi
  have hcells : ∀ j ∈ List.range maxAppIdNum,
      ((usageOf l.state name).stat (i * maxAppIdNum + j)).toInt32 =
        Int32.ofNat (60 * l.counted name (idOfCell i j)) := by
    intro j hj
    obtain ⟨ha, hr, hidx⟩ := idOfCell_spec hi (List.mem_range.mp hj)
    have htotal := (readTotal_eq_some_iff.mp (h name (idOfCell i j) ha)).2
    rw [totalIn_cells ha, if_pos hr, hidx] at htotal
    rw [← htotal]
    apply Int32.toBitVec_inj.mp
    apply BitVec.eq_of_toNat_eq
    simp
  rw [updateAppClassVisitTimeList_eq, List.map_congr_left hcells]

theorem listed_pos {c : UsageClock} {visits : List VisitReport} {a : Int32}
    (h : 0 < listed c visits a) : ∃ v ∈ visits, v.appid = a ∧ c.accepts v.appid = true := by
  obtain ⟨v, hv, hboth⟩ := List.countP_pos_iff.mp h
  rw [Bool.and_eq_true, decide_eq_true_eq] at hboth
  exact ⟨v, hv, hboth⟩

/-- A report in bounds is booked. -/
theorem Booked.report {l : UsageLedger} (h : Booked l) {mac : CStr} {visits : List VisitReport}
    (hin : InBounds l (.report mac visits)) : Booked (usageLedgerStep l (.report mac visits)) := by
  constructor
  case cells =>
    intro name a ha hr
    have hold := h.cells name a ha hr
    show ((usageOf (reportUsage l.state mac visits) name).stat (statIndex a)).toNat =
      60 * l.count (.report mac visits) name a
    rw [usageOf_report]
    simp only [UsageLedger.count]
    by_cases hname : name = mac.take maxMacLen
    · rw [if_pos hname, if_pos hname, stat_reportVisits ha hr visits
        (fun v hv hacc => (hin.1 v hv hacc).1)]
      have hbound : 60 * (l.counted name a + listed l.state.toUsageClock visits a) < 2 ^ 32 := by
        by_cases hpos : 0 < listed l.state.toUsageClock visits a
        · obtain ⟨v, hv, rfl, hacc⟩ := listed_pos hpos
          have hlt := (hin.1 v hv hacc).2
          simp only [UsageLedger.count] at hlt
          rw [hname]
          exact hlt
        · have hcell := (usageOf l.state name).stat (statIndex a) |>.toNat_lt
          rw [hold] at hcell
          rw [Nat.eq_zero_of_not_pos hpos]
          exact hcell
      rw [UInt32.toNat_add, hold, UInt32.toNat_ofNat_of_lt'
        (show 60 * listed l.state.toUsageClock visits a < 2 ^ 32 by omega)]
      omega
    · rw [if_neg hname, if_neg hname]
      exact hold
  case hasCell =>
    intro name a hpos
    simp only [usageLedgerStep, UsageLedger.count] at hpos
    by_cases hname : name = mac.take maxMacLen
    · rw [if_pos hname] at hpos
      by_cases hlisted : 0 < listed l.state.toUsageClock visits a
      · obtain ⟨v, hv, rfl, hacc⟩ := listed_pos hlisted
        exact (hin.1 v hv hacc).1
      · exact h.hasCell name a (by omega)
    · rw [if_neg hname] at hpos
      exact h.hasCell name a hpos
  case room =>
    intro name
    by_cases hname : name = mac.take maxMacLen
    · subst hname
      exact hin.2
    · have hsame : l.count (.report mac visits) name = l.counted name := by
        funext a
        exact if_neg hname
      show appsListed (l.count (.report mac visits) name) ≤ _
      rw [hsame]
      exact h.room name

/-- A pass over the sessions leaves the counters. -/
theorem Booked.mapVals {l : UsageLedger} (h : Booked l) (f : CStr → DevUsage → DevUsage)
    (hf : ∀ name u, (f name u).stat = u.stat) :
    Booked ⟨{ l.state with devs := l.state.devs.mapVals f }, l.counted⟩ := by
  refine ⟨fun name a ha hr => ?_, h.hasCell, h.room⟩
  have hold := h.cells name a ha hr
  show ((((l.state.devs.mapVals f).find? name).getD {}).stat (statIndex a)).toNat = _
  rw [HTable.find?_mapVals]
  unfold usageOf at hold
  cases hfind : l.state.devs.find? name with
  | none =>
      rw [hfind] at hold
      exact hold
  | some u =>
      rw [hfind] at hold
      show ((f name u).stat (statIndex a)).toNat = _
      rw [hf]
      exact hold

theorem appsListed_zero : appsListed (fun _ => 0) ≤ maxStatAppNum := by
  unfold appsListed
  rw [List.countP_eq_zero.mpr (fun a _ => by simp)]
  exact Nat.zero_le _

theorem Booked.clear {l : UsageLedger} : Booked (usageLedgerStep l .clearStatistics) := by
  refine ⟨fun name a ha hr => ?_, fun _ _ hpos => absurd hpos (Nat.lt_irrefl 0), fun _ => appsListed_zero⟩
  show (((((clearDeviceAppStatistics l.state).devs.find? name).getD {}).stat) _).toNat = 60 * 0
  unfold clearDeviceAppStatistics
  rw [HTable.find?_mapVals]
  cases l.state.devs.find? name with
  | none => rfl
  | some u =>
      show (if statIndex a < maxAppType * maxAppIdNum then (0 : UInt32)
        else u.stat (statIndex a)).toNat = 0
      rw [if_pos (statIndex_lt ha hr)]
      rfl

theorem Booked.flushDevs {l : UsageLedger} (h : Booked l) (gone : CStr → Bool) :
    Booked (usageLedgerStep l (.flushDevs gone)) := by
  refine ⟨fun name a ha hr => ?_, fun name a hpos => ?_, fun name => ?_⟩
  · have hold := h.cells name a ha hr
    show ((((l.state.devs.filter (fun mac _ => !gone mac)).find? name).getD {}).stat _).toNat =
      60 * (if gone name then 0 else l.counted name a)
    rw [HTable.find?_filter]
    unfold usageOf at hold
    cases hfind : l.state.devs.find? name with
    | none =>
        rw [hfind] at hold
        have hzero : 60 * l.counted name a = 0 := hold.symm
        cases gone name with
        | true => rfl
        | false => exact hzero.symm
    | some u =>
        rw [hfind] at hold
        cases hgone : gone name with
        | true => simp
        | false =>
            simp only [Option.filter_some, Bool.not_false, if_true]
            exact hold
  · simp only [usageLedgerStep, UsageLedger.count] at hpos
    split at hpos
    · exact absurd hpos (Nat.lt_irrefl 0)
    · exact h.hasCell name a hpos
  · show appsListed (fun a => if gone name then 0 else l.counted name a) ≤ _
    cases gone name with
    | true => exact appsListed_zero
    | false => exact h.room name

theorem Booked.step {l : UsageLedger} (h : Booked l) {e : UsageAct} (hin : InBounds l e) :
    Booked (usageLedgerStep l e) := by
  cases e with
  | clock t =>
      show Booked ⟨if l.state.now ≤ t then { l.state with now := t } else l.state, l.counted⟩
      split
      · exact ⟨h.cells, h.hasCell, h.room⟩
      · exact h
  | report mac visits => exact h.report hin
  | checkVisits =>
      exact h.mapVals (fun _ u => u.mapVisits (VisitInfo.checkExpire l.state.now)) (fun _ _ => rfl)
  | flushVisits => exact h.mapVals (fun _ u => u.flushVisits) (fun _ _ => rfl)
  | cleanInvalid =>
      have hmarked := h.mapVals (fun _ u => u.mapVisits (fun p =>
        if l.state.unnamed p then { p with expire := true } else p)) (fun _ _ => rfl)
      show Booked ⟨cleanInvalidAppRecords l.state, l.counted⟩
      unfold cleanInvalidAppRecords
      dsimp only
      split
      · exact hmarked.mapVals (fun _ u => u.flushVisits) (fun _ _ => rfl)
      · exact hmarked
  | loadNames table => exact ⟨h.cells, h.hasCell, h.room⟩
  | featureUpdated => exact ⟨h.cells, h.hasCell, h.room⟩
  | clearStatistics => exact Booked.clear
  | checkDevs expired =>
      refine h.mapVals (fun mac u =>
        if expired mac then u.mapVisits (fun p => { p with expire := true }) else u) (fun name u => ?_)
      split <;> rfl
  | flushDevs gone => exact h.flushDevs gone

theorem booked_start (now : UInt32) : Booked { state := { now := now } } :=
  ⟨fun _ _ _ _ => rfl, fun _ _ hpos => absurd hpos (Nat.lt_irrefl 0), fun _ => appsListed_zero⟩

/-- A report in bounds touches no total but those of the ids it lists. -/
theorem Booked.contained {l : UsageLedger} (h : Booked l) {e : UsageAct} (hin : InBounds l e) :
    Contained l e := by
  cases e with
  | report mac visits =>
      refine ⟨fun name a ha hnot => ?_, fun v hv hacc => ?_⟩
      · have hbefore := h.attributed name a ha
        have hafter := (h.step hin).attributed name a ha
        have hcount : l.count (.report mac visits) name a = l.counted name a := by
          simp only [UsageLedger.count]
          split
          · rename_i hname
            rw [Nat.eq_zero_of_not_pos (fun hpos => hnot ⟨hname, hpos⟩), Nat.add_zero]
          · rfl
        rw [hbefore, ← hcount]
        exact hafter
      · exact statIndex_lt (validId_of_accepts hacc) (hin.1 v hv hacc).1
  | _ => trivial

/-- Where the totals are right, so are the cells. -/
theorem Attributed.cells {l : UsageLedger} (h : Attributed l) (name : CStr) {a : Int32} (ha : ValidId a)
    (hr : HasCell a) : ((usageOf l.state name).stat (statIndex a)).toNat = 60 * l.counted name a := by
  have htotal := (readTotal_eq_some_iff.mp (h name a ha)).2
  rw [totalIn_cells ha, if_pos hr] at htotal
  exact htotal

/-- Where the readers see the right totals after a report, it was in bounds. -/
theorem inBounds_of_attributed {l : UsageLedger} {e : UsageAct} (h : Attributed (usageLedgerStep l e)) :
    InBounds l e := by
  cases e with
  | report mac visits =>
      refine ⟨fun v hv hacc => ?_, ?_⟩
      · have ha := validId_of_accepts hacc
        have htotal := (readTotal_eq_some_iff.mp (h (mac.take maxMacLen) v.appid ha)).2
        have hpos : 0 < l.count (.report mac visits) (mac.take maxMacLen) v.appid := by
          have hlisted : 0 < listed l.state.toUsageClock visits v.appid :=
            List.countP_pos_iff.mpr ⟨v, hv, by simp [hacc]⟩
          simp only [UsageLedger.count]
          exact Nat.add_pos_right _ hlisted
        by_cases hr : HasCell v.appid
        · refine ⟨hr, ?_⟩
          show 60 * (usageLedgerStep l (.report mac visits)).counted _ _ < _
          rw [← h.cells _ ha hr]
          exact UInt32.toNat_lt _
        · rw [totalIn_cells ha, if_neg hr] at htotal
          have hzero : 0 = 60 * l.count (.report mac visits) (mac.take maxMacLen) v.appid := htotal
          omega
      · have hid : ValidId (idOfCell 0 0) := (idOfCell_spec (by decide) (by decide)).1
        have hroom := (readTotal_eq_some_iff.mp (h (mac.take maxMacLen) _ hid)).1
        rw [length_appVisitCells (fun a ha hr => h.cells _ ha hr)] at hroom
        exact hroom
  | _ => trivial

/-! ## Main result -/

/-- After the event the readers see the right totals, and the event has touched
nothing else. -/
def RightTotals (l : UsageLedger) (e : UsageAct) : Prop :=
  Attributed (usageLedgerStep l e) ∧ ClassAttributed (usageLedgerStep l e) ∧ Contained l e

/-- In a run of reports, checks, flushes and clears the readers always see 60
seconds for every time an app was listed since its counters were cleared, and no
report touches another total or memory outside the array, if and only if every id
a report gets accepted has a type up to 32, a number up to 512 and less than 2^32
seconds, and no device has more than 128 apps. -/
theorem app_time_attributed_iff (now : UInt32) (acts : List UsageAct) :
    EveryStep usageLedgerStep RightTotals { state := { now := now } } acts ↔
      EveryStep usageLedgerStep InBounds { state := { now := now } } acts := by
  constructor
  · intro h pre e post heq
    exact inBounds_of_attributed (h pre e post heq).1
  · intro h
    exact EveryStep.of_invariant (I := Booked) (fun _ _ hb hin => hb.step hin)
      (fun _ _ hb hin => ⟨(hb.step hin).attributed, (hb.step hin).attributed.class,
        hb.contained hin⟩) (booked_start now) h

def tabletName : CStr := "02:00:00:00:00:12".toList

/-- The usage after app 1513 is listed once. -/
def tabletUsage : DevUsage := reportVisits { now := 1000 } [⟨1513, 0⟩] {}

/-- App 1513 is listed once: the loops see nothing for it, and a minute for app
2001. -/
theorem number_above_512_misread :
    ¬ EveryStep usageLedgerStep RightTotals { state := { now := 1000 } } [.report tabletName [⟨1513, 0⟩]] ∧
      totalIn (appVisitCells tabletUsage) 1513 = 0 ∧ totalIn (appVisitCells tabletUsage) 2001 = 60 := by
  have h1513 : ValidId 1513 := by decide
  have h2001 : ValidId 2001 := by decide
  have hout : ¬ HasCell 1513 := by decide
  refine ⟨fun h => ?_, ?_, ?_⟩
  · have hin := inBounds_of_attributed (h [] _ [] rfl).1
    exact hout (hin.1 ⟨1513, 0⟩ List.mem_cons_self (by decide)).1
  · rw [totalIn_cells h1513, if_neg hout]
  · rw [totalIn_cells h2001, if_pos (by decide)]
    decide

end OpenAppFilter.Theorems
