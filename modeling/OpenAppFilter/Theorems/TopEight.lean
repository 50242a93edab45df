import OpenAppFilter.Base.Largest
import OpenAppFilter.Daemon.TopApps

/-!
# The list of eight apps

`update_app_visit_time_list` puts the first eight counters that are not 0 into
its list. Every later one takes the place of the entry the search names, when it
is greater. The search breaks at the first entry below the first one, so while it
lets an entry go there can be a smaller one behind it. Whether the list is right
in the end depends on what comes after: the smaller one must be named, too,
before the counters end.
-/

namespace OpenAppFilter.Theorems

open Base Daemon

/-! ## What the list should be -/

/-- The list a table of counters calls for. -/
structure ShowsTopEight (cells : List (Int × UInt32)) (info : AppVisitStatInfo) : Prop where
  num : info.num = min cells.length maxAppStatNum
  distinct : (info.shown.map (·.appId)).Nodup
  own : ∀ e ∈ info.shown, ∃ cell ∈ cells, e.appId = cell.1 ∧ e.totalTime.toInt = cell.2.toNat
  totals : (info.shown.map (·.totalTime.toInt)).Perm
    (largest maxAppStatNum (cells.map (fun cell => (cell.2.toNat : Int))))

/-- The total of an entry, read as it is compared. -/
def slotTotal (e : AppVisitEntry) : Nat := e.totalTime.toUInt32.toNat

/-- What the list takes over from a counter. -/
def entryOf (cell : Int × UInt32) : AppVisitEntry := ⟨cell.1, cell.2.toInt32⟩

/-- The list after its first entries. -/
def filled (cells : List (Int × UInt32)) : VisitList :=
  fun s => ((cells.map entryOf)[s.val]?).getD {}

theorem slotTotal_entryOf (cell : Int × UInt32) : slotTotal (entryOf cell) = cell.2.toNat := by
  unfold slotTotal entryOf
  rw [UInt32.toUInt32_toInt32]

theorem toInt_entryOf {cell : Int × UInt32} (h : cell.2.toNat < 2 ^ 31) :
    (entryOf cell).totalTime.toInt = cell.2.toNat := by
  show cell.2.toInt32.toInt = _
  have hint : cell.2.toInt32.toInt = cell.2.toBitVec.toInt := rfl
  rw [hint, BitVec.toInt_eq_toNat_of_lt (by show 2 * cell.2.toNat < 2 ^ 32; omega)]
  rfl

/-! ## The two parts of the loop -/

theorem filled_append {cells : List (Int × UInt32)} (h : cells.length < maxAppStatNum)
    (cell : Int × UInt32) :
    filled (cells ++ [cell]) = Function.update (filled cells) ⟨cells.length, h⟩ (entryOf cell) := by
  funext s
  unfold filled
  by_cases hs : s = ⟨cells.length, h⟩
  · subst hs
    simp
  · have hne : s.val ≠ cells.length := fun heq => hs (Fin.ext heq)
    rw [Function.update_of_ne hs, List.map_append, List.getElem?_append, List.length_map]
    split
    · rfl
    · rename_i hge
      rw [List.getElem?_eq_none (by simp; omega), List.getElem?_eq_none (by simp; omega)]

theorem ofFn_filled (cells : List (Int × UInt32)) (h : cells.length ≤ maxAppStatNum) :
    (List.ofFn (filled cells)).take cells.length = cells.map entryOf := by
  refine List.ext_getElem (by simp [h]) (fun i h₁ h₂ => ?_)
  rw [List.getElem_take, List.getElem_ofFn]
  show ((cells.map entryOf)[i]?).getD {} = _
  rw [List.getElem?_eq_getElem h₂, Option.getD_some]

/-- The first counters are all taken. -/
theorem fold_filled (cells : List (Int × UInt32)) (hpos : ∀ cell ∈ cells, cell.2 ≠ 0)
    (hlen : cells.length ≤ maxAppStatNum) :
    cells.foldl visitTimeStep {} = ⟨cells.length, filled cells⟩ := by
  induction cells using List.reverseRecOn with
  | nil => rfl
  | append_singleton cells cell ih =>
      rw [List.length_append, List.length_singleton] at hlen
      have hlt : cells.length < maxAppStatNum := hlen
      have hcell : cell.2 ≠ 0 := hpos cell (by simp)
      have hempty : filled cells ⟨cells.length, hlt⟩ = {} := by
        unfold filled
        rw [List.getElem?_eq_none (by simp), Option.getD_none]
      rw [List.foldl_append, ih (fun c hc => hpos c (List.mem_append_left _ hc)) (by omega),
        List.foldl_cons, List.foldl_nil]
      have htaken : (filled cells ⟨cells.length, hlt⟩).totalTime.toUInt32 < cell.2 := by
        rw [hempty]
        exact UInt32.pos_iff_ne_zero.mpr hcell
      unfold visitTimeStep
      rw [if_neg hcell]
      dsimp only
      rw [dif_pos hlt, if_pos htaken, filled_append hlt, List.length_append, List.length_singleton]
      rfl

/-- From the ninth counter on, each is offered to the entry the search names. -/
theorem fold_full (cells : List (Int × UInt32)) (hpos : ∀ cell ∈ cells, cell.2 ≠ 0) :
    ∀ info : AppVisitStatInfo, maxAppStatNum ≤ info.num →
      cells.foldl visitTimeStep info =
        ⟨info.num + cells.length,
          run (offerStep slotTotal minIndex) info.visitList (cells.map entryOf)⟩ := by
  induction cells with
  | nil => exact fun _ _ => rfl
  | cons cell cells ih =>
      intro info hfull
      have hcell : cell.2 ≠ 0 := hpos cell List.mem_cons_self
      have hstep : visitTimeStep info cell =
          ⟨info.num + 1, offerStep slotTotal minIndex info.visitList (entryOf cell)⟩ := by
        unfold visitTimeStep offerStep offer
        rw [if_neg hcell, slotTotal_entryOf]
        dsimp only
        rw [dif_neg (by omega)]
        rfl
      rw [List.foldl_cons, hstep,
        ih (fun c hc => hpos c (List.mem_cons_of_mem _ hc)) _ (Nat.le_succ_of_le hfull)]
      show (⟨info.num + 1 + cells.length, _⟩ : AppVisitStatInfo) = ⟨info.num + (cells.length + 1), _⟩
      rw [Nat.add_right_comm, Nat.add_assoc]
      rfl

theorem appVisitCells_pos {u : DevUsage} : ∀ cell ∈ appVisitCells u, cell.2 ≠ 0 := by
  intro cell h
  simpa using (List.mem_filter.mp h).2

/-- The loops skip the counters that are 0. -/
theorem fold_cells (u : DevUsage) (info : AppVisitStatInfo) :
    ((List.range maxAppType).flatMap (statRow u)).foldl visitTimeStep info =
      (appVisitCells u).foldl visitTimeStep info := by
  unfold appVisitCells
  rw [List.foldl_filter]
  congr 1
  funext info cell
  by_cases hcell : cell.2 = 0
  · simp [visitTimeStep, hcell]
  · simp [hcell]

/-! ## The whole loop -/

/-- The list when the counters end. -/
def finalSlots (cells : List (Int × UInt32)) : VisitList :=
  run (offerStep slotTotal minIndex) (filled (cells.take maxAppStatNum))
    ((cells.drop maxAppStatNum).map entryOf)

/-- What the list let go. -/
def letGo (cells : List (Int × UInt32)) : List AppVisitEntry :=
  refusals slotTotal minIndex (filled (cells.take maxAppStatNum))
    ((cells.drop maxAppStatNum).map entryOf)

/-- The entries a caller reads. -/
def shownEntries (cells : List (Int × UInt32)) : List AppVisitEntry :=
  (List.ofFn (finalSlots cells)).take (min cells.length maxAppStatNum)

/-- Up to eight counters fill the list in order. -/
theorem finalSlots_of_le {cells : List (Int × UInt32)} (h : cells.length ≤ maxAppStatNum) :
    finalSlots cells = filled cells ∧ letGo cells = [] := by
  unfold finalSlots letGo
  rw [List.take_of_length_le h, List.drop_eq_nil_of_le h]
  exact ⟨rfl, rfl⟩

theorem shownEntries_of_le {cells : List (Int × UInt32)} (h : cells.length ≤ maxAppStatNum) :
    shownEntries cells = cells.map entryOf := by
  unfold shownEntries
  rw [(finalSlots_of_le h).1, Nat.min_eq_left h, ofFn_filled cells h]

theorem shownEntries_of_ge {cells : List (Int × UInt32)} (h : maxAppStatNum ≤ cells.length) :
    shownEntries cells = List.ofFn (finalSlots cells) := by
  unfold shownEntries
  rw [Nat.min_eq_right h, List.take_of_length_le (Nat.le_of_eq List.length_ofFn)]

theorem fold_eq {cells : List (Int × UInt32)} (hpos : ∀ cell ∈ cells, cell.2 ≠ 0) :
    cells.foldl visitTimeStep {} = ⟨cells.length, finalSlots cells⟩ := by
  by_cases hlen : cells.length ≤ maxAppStatNum
  · rw [fold_filled cells hpos hlen, (finalSlots_of_le hlen).1]
  · have htake : (cells.take maxAppStatNum).length = maxAppStatNum :=
      List.length_take_of_le (by omega)
    have hfirst := fold_filled (cells.take maxAppStatNum)
      (fun c hc => hpos c (List.mem_of_mem_take hc)) (Nat.le_of_eq htake)
    have hrest := fold_full (cells.drop maxAppStatNum) (fun c hc => hpos c (List.mem_of_mem_drop hc))
      ⟨maxAppStatNum, filled (cells.take maxAppStatNum)⟩ (Nat.le_refl _)
    rw [htake] at hfirst
    rw [← List.take_append_drop maxAppStatNum cells, List.foldl_append, hfirst, hrest,
      List.take_append_drop, List.length_drop]
    congr 1
    show maxAppStatNum + _ = _
    omega

/-- The entries shown and those let go are the entries of all counters. -/
theorem shownEntries_perm (cells : List (Int × UInt32)) :
    (shownEntries cells ++ letGo cells).Perm (cells.map entryOf) := by
  by_cases hlen : cells.length ≤ maxAppStatNum
  · rw [shownEntries_of_le hlen, (finalSlots_of_le hlen).2, List.append_nil]
  · have htake : (cells.take maxAppStatNum).length = maxAppStatNum :=
      List.length_take_of_le (by omega)
    have hfirst := ofFn_filled (cells.take maxAppStatNum) (Nat.le_of_eq htake)
    have hstream := offers_perm slotTotal minIndex ((cells.drop maxAppStatNum).map entryOf)
      (filled (cells.take maxAppStatNum))
    rw [htake, List.take_of_length_le (Nat.le_of_eq List.length_ofFn)] at hfirst
    rw [hfirst, ← List.map_append, List.take_append_drop] at hstream
    rw [shownEntries_of_ge (by omega)]
    exact hstream

theorem length_shownEntries (cells : List (Int × UInt32)) :
    (shownEntries cells).length = min cells.length maxAppStatNum := by
  unfold shownEntries
  rw [List.length_take, List.length_ofFn]
  omega

/-- What the search must make up for: whenever an entry is let go while another
one holds less, the search names that one later, for an entry no smaller. -/
def SearchRepairs (cells : List (Int × UInt32)) : Prop :=
  Repaired slotTotal minIndex (filled (cells.take maxAppStatNum))
    ((cells.drop maxAppStatNum).map entryOf)

/-- Nothing let go is greater than what is shown iff the search repairs what it
does. -/
theorem letGo_le_shown_iff (cells : List (Int × UInt32)) :
    (∀ x ∈ letGo cells, ∀ y ∈ shownEntries cells, slotTotal x ≤ slotTotal y) ↔
      SearchRepairs cells := by
  unfold SearchRepairs
  by_cases hlen : cells.length ≤ maxAppStatNum
  · rw [(finalSlots_of_le hlen).2, List.drop_eq_nil_of_le hlen]
    exact ⟨fun _ => trivial, fun _ _ hx => absurd hx List.not_mem_nil⟩
  · rw [shownEntries_of_ge (by omega), ← refusals_le_iff_repaired]
    simp only [List.forall_mem_ofFn_iff]
    rfl

theorem updateAppVisitTimeList_eq (u : DevUsage) :
    updateAppVisitTimeList (some u) {} =
      ⟨min (appVisitCells u).length maxAppStatNum, finalSlots (appVisitCells u)⟩ := by
  have hfold := fold_eq (@appVisitCells_pos u)
  rw [← fold_cells] at hfold
  unfold updateAppVisitTimeList
  dsimp only
  rw [hfold]
  generalize appVisitCells u = cells
  have hnum : (if cells.length < maxAppStatNum then cells.length else maxAppStatNum) =
      min cells.length maxAppStatNum := by
    split <;> omega
  exact congrArg₂ AppVisitStatInfo.mk hnum rfl

/-! ## The list against the table -/

theorem mem_cells_of_shown {cells : List (Int × UInt32)} {e : AppVisitEntry}
    (h : e ∈ shownEntries cells) : ∃ cell ∈ cells, entryOf cell = e :=
  List.mem_map.mp ((shownEntries_perm cells).mem_iff.mp (List.mem_append_left _ h))

/-- As long as every total fits an `int`, an entry reads as what it is compared
as. -/
theorem toInt_eq_slotTotal {cells : List (Int × UInt32)}
    (hfit : ∀ cell ∈ cells, cell.2.toNat < 2 ^ 31) {e : AppVisitEntry}
    (h : e ∈ shownEntries cells ++ letGo cells) : e.totalTime.toInt = slotTotal e := by
  obtain ⟨cell, hcell, rfl⟩ := List.mem_map.mp ((shownEntries_perm cells).mem_iff.mp h)
  rw [toInt_entryOf (hfit cell hcell), slotTotal_entryOf]

theorem totals_perm {cells : List (Int × UInt32)} (hfit : ∀ cell ∈ cells, cell.2.toNat < 2 ^ 31) :
    (cells.map (fun cell => (cell.2.toNat : Int))).Perm
      ((shownEntries cells).map (·.totalTime.toInt) ++ (letGo cells).map (·.totalTime.toInt)) := by
  have hperm := (shownEntries_perm cells).map (·.totalTime.toInt)
  rw [List.map_append, List.map_map] at hperm
  have hsame : cells.map ((·.totalTime.toInt) ∘ entryOf) =
      cells.map (fun cell => (cell.2.toNat : Int)) :=
    List.map_congr_left (fun cell hcell => toInt_entryOf (hfit cell hcell))
  rw [hsame] at hperm
  exact hperm.symm

/-- Shown totals are the largest iff the search repairs what it does. -/
theorem totals_largest_iff {cells : List (Int × UInt32)}
    (hfit : ∀ cell ∈ cells, cell.2.toNat < 2 ^ 31) :
    ((shownEntries cells).map (·.totalTime.toInt)).Perm
        (largest maxAppStatNum (cells.map (fun cell => (cell.2.toNat : Int)))) ↔
      SearchRepairs cells := by
  have hlen : ((shownEntries cells).map (·.totalTime.toInt)).length =
      min maxAppStatNum (cells.map (fun cell => (cell.2.toNat : Int))).length := by
    rw [List.length_map, List.length_map, length_shownEntries, Nat.min_comm]
  have hiff := perm_largest_iff (totals_perm hfit)
  rw [hlen, largest_min] at hiff
  rw [hiff, ← letGo_le_shown_iff]
  simp only [List.forall_mem_map]
  refine forall₂_congr (fun x hx => forall₂_congr (fun y hy => ?_))
  rw [toInt_eq_slotTotal hfit (List.mem_append_right _ hx),
    toInt_eq_slotTotal hfit (List.mem_append_left _ hy)]
  exact Int.ofNat_le

theorem showsTopEight_iff {cells : List (Int × UInt32)} (hdistinct : (cells.map Prod.fst).Nodup) :
    ShowsTopEight cells ⟨min cells.length maxAppStatNum, finalSlots cells⟩ ↔
      (∀ cell ∈ cells, cell.2.toNat < 2 ^ 31) ∧ SearchRepairs cells := by
  constructor
  · intro h
    have hfit : ∀ cell ∈ cells, cell.2.toNat < 2 ^ 31 := by
      intro cell hcell
      -- the largest total is shown, as an `int`
      obtain ⟨y, hy, hle⟩ := exists_largest_ge (show 0 < maxAppStatNum by decide)
        (List.mem_map.mpr ⟨cell, hcell, rfl⟩ :
          (cell.2.toNat : Int) ∈ cells.map (fun cell => (cell.2.toNat : Int)))
      obtain ⟨e, -, rfl⟩ := List.mem_map.mp (h.totals.mem_iff.mpr hy)
      have hlt : e.totalTime.toInt < 2 ^ 31 := e.totalTime.toInt_lt
      omega
    exact ⟨hfit, (totals_largest_iff hfit).mp h.totals⟩
  · rintro ⟨hfit, hrepair⟩
    refine ⟨rfl, ?_, fun e he => ?_, (totals_largest_iff hfit).mpr hrepair⟩
    · have hids : (shownEntries cells ++ letGo cells).map (·.appId) |>.Nodup := by
        refine ((shownEntries_perm cells).map (·.appId)).nodup_iff.mpr ?_
        rw [List.map_map]
        exact hdistinct
      rw [List.map_append] at hids
      exact hids.of_append_left
    · obtain ⟨cell, hcell, rfl⟩ := mem_cells_of_shown he
      exact ⟨cell, hcell, rfl, toInt_entryOf (hfit cell hcell)⟩

/-! ## Ids -/

theorem map_fst_statRow (u : DevUsage) (i : Nat) : (statRow u i).map Prod.fst =
    (List.range maxAppIdNum).map (fun j => (((i + 1) * 1000 + j + 1 : Nat) : Int)) := by
  unfold statRow
  rw [List.map_map]
  rfl

/-- No two counters have the same id. -/
theorem nodup_appVisitCells (u : DevUsage) : ((appVisitCells u).map Prod.fst).Nodup := by
  have hall : (((List.range maxAppType).flatMap (statRow u)).map Prod.fst).Nodup := by
    rw [List.map_flatMap]
    refine List.nodup_flatMap.mpr ⟨fun i _ => ?_, ?_⟩
    · rw [map_fst_statRow]
      refine List.Nodup.map (fun j j' h => ?_) List.nodup_range
      have := Int.ofNat_inj.mp h
      omega
    · refine List.nodup_range.imp (fun {i i'} hne => ?_)
      show List.Disjoint ((statRow u i).map Prod.fst) ((statRow u i').map Prod.fst)
      rw [map_fst_statRow, map_fst_statRow]
      intro id hid hid'
      obtain ⟨j, hj, rfl⟩ := List.mem_map.mp hid
      obtain ⟨j', hj', heq⟩ := List.mem_map.mp hid'
      have heq' := Int.ofNat_inj.mp heq
      rw [List.mem_range] at hj hj'
      unfold maxAppIdNum at hj hj'
      omega
  exact hall.sublist (List.filter_sublist.map Prod.fst)

/-- A device with these totals in the first cells, and nothing else. -/
def usageOfTotals (totals : List UInt32) : DevUsage := { stat := fun i => totals.getD i 0 }

/-- The counter of total `j`. -/
def totalCell (totals : List UInt32) (j : Nat) : Int × UInt32 :=
  (((0 + 1) * 1000 + j + 1 : Nat), totals.getD j 0)

theorem totalCell_pos {totals : List UInt32} (hpos : ∀ t ∈ totals, t ≠ 0) {j : Nat}
    (hj : j < totals.length) : (totalCell totals j).2 ≠ 0 := by
  show totals.getD j 0 ≠ 0
  rw [List.getD_eq_getElem?_getD, List.getElem?_eq_getElem hj, Option.getD_some]
  exact hpos _ (List.getElem_mem hj)

theorem usageOfTotals_zero {totals : List UInt32} {j : Nat} (hj : totals.length ≤ j) :
    (usageOfTotals totals).stat j = 0 := by
  show totals.getD j 0 = 0
  rw [List.getD_eq_getElem?_getD, List.getElem?_eq_none hj, Option.getD_none]

/-- The counters of the first row. -/
theorem filter_first_row {totals : List UInt32} (hlen : totals.length ≤ maxAppIdNum)
    (hpos : ∀ t ∈ totals, t ≠ 0) :
    (statRow (usageOfTotals totals) 0).filter (fun cell => decide (cell.2 ≠ 0)) =
      (List.range totals.length).map (totalCell totals) := by
  have hcells : List.range maxAppIdNum = List.range totals.length ++
      (List.range (maxAppIdNum - totals.length)).map (totals.length + ·) := by
    rw [← List.range_add, Nat.add_sub_cancel' hlen]
  have hrow : statRow (usageOfTotals totals) 0 = (List.range maxAppIdNum).map (totalCell totals) := by
    unfold statRow
    refine List.map_congr_left (fun j _ => ?_)
    show (_, (usageOfTotals totals).stat (0 * maxAppIdNum + j)) = totalCell totals j
    rw [show 0 * maxAppIdNum + j = j by omega]
    rfl
  have hhere : ((List.range totals.length).map (totalCell totals)).filter
      (fun cell => decide (cell.2 ≠ 0)) = (List.range totals.length).map (totalCell totals) := by
    apply List.filter_eq_self.mpr
    intro cell hcell
    obtain ⟨j, hj, rfl⟩ := List.mem_map.mp hcell
    exact decide_eq_true (totalCell_pos hpos (List.mem_range.mp hj))
  have hbehind : (((List.range (maxAppIdNum - totals.length)).map (totals.length + ·)).map
      (totalCell totals)).filter (fun cell => decide (cell.2 ≠ 0)) = [] := by
    apply List.filter_eq_nil_iff.mpr
    intro cell hcell
    obtain ⟨j, hj, rfl⟩ := List.mem_map.mp hcell
    obtain ⟨j, -, rfl⟩ := List.mem_map.mp hj
    rw [decide_eq_true_eq, not_not]
    exact usageOfTotals_zero (Nat.le_add_right _ _)
  rw [hrow, hcells, List.map_append, List.filter_append, hhere, hbehind, List.append_nil]

theorem filter_later_rows {totals : List UInt32} (hlen : totals.length ≤ maxAppIdNum) (rows : Nat) :
    (((List.range rows).map Nat.succ).flatMap (statRow (usageOfTotals totals))).filter
      (fun cell => decide (cell.2 ≠ 0)) = [] := by
  apply List.filter_eq_nil_iff.mpr
  intro cell hcell
  obtain ⟨i, hi, hmem⟩ := List.mem_flatMap.mp hcell
  obtain ⟨i, -, rfl⟩ := List.mem_map.mp hi
  obtain ⟨j, -, rfl⟩ := List.mem_map.mp hmem
  have hout : totals.length ≤ Nat.succ i * maxAppIdNum + j := by
    unfold maxAppIdNum at *
    omega
  rw [decide_eq_true_eq, not_not]
  exact usageOfTotals_zero hout

theorem appVisitCells_usageOfTotals {totals : List UInt32} (hlen : totals.length ≤ maxAppIdNum)
    (hpos : ∀ t ∈ totals, t ≠ 0) :
    appVisitCells (usageOfTotals totals) = (List.range totals.length).map (totalCell totals) := by
  have hrows : List.range maxAppType = 0 :: (List.range 31).map Nat.succ := List.range_succ_eq_map
  unfold appVisitCells
  rw [hrows, List.flatMap_cons, List.filter_append, filter_first_row hlen hpos,
    filter_later_rows hlen, List.append_nil]

/-! ## Main result -/

/-- Nine apps, in minutes 5, 4, 3, five times 9, and 6. -/
def nineTotals : List UInt32 := [300, 240, 180, 540, 540, 540, 540, 540, 360]

end OpenAppFilter.Theorems
