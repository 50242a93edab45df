import OpenAppFilter.Theorems.TopEight

/-!
# The first five apps

`update_top5_app` copies the counters that are not 0 to an array of 128, sorts the
array and takes its first five entries. `visit_time_compare` answers −1 for two
equal totals, whichever comes first, so it contradicts itself on a table with two
equal totals; and the copying loops do not look at the size of the array.
-/

namespace OpenAppFilter.Theorems

open Base Daemon

/-! ## What the list should be -/

/-- The five entries a table of counters calls for. -/
structure ShowsTopFive (cells : List (Int × UInt32)) (top : List AppVisitTimeInfo) : Prop where
  totals : top.map (·.totalTime.toNat) =
    largest 5 (cells.map (·.2.toNat)) ++ List.replicate (5 - cells.length) 0
  own : ∀ e ∈ top.take cells.length, ∃ cell ∈ cells, e = visitTimeInfo cell
  distinct : ((top.take cells.length).map (·.appId)).Nodup
  padding : ∀ e ∈ top.drop cells.length, e = {}

/-- The entry of every counter lands in the array, the comparator is fit for
them, and the first five are right. -/
structure TopFiveRight (qsort : Qsort) (u : DevUsage) : Prop where
  inBounds : ∀ i < (appVisitCells u).length, i < maxStatAppNum
  consistent : ConsistentOn visitTimeCompare ((appVisitCells u).map visitTimeInfo)
  shows : ∃ top, updateTop5App qsort u = some top ∧ ShowsTopFive (appVisitCells u) top

/-! ## The comparator -/

theorem visitTimeCompare_pos_iff (a b : AppVisitTimeInfo) :
    0 < visitTimeCompare a b ↔ a.totalTime < b.totalTime := by
  unfold visitTimeCompare
  split
  · rename_i hlt
    exact ⟨fun _ => hlt, fun _ => by decide⟩
  · rename_i hle
    exact ⟨fun h => absurd h (by decide), fun h => absurd h hle⟩

theorem visitTimeCompare_neg_iff (a b : AppVisitTimeInfo) :
    visitTimeCompare a b < 0 ↔ ¬ a.totalTime < b.totalTime := by
  unfold visitTimeCompare
  split
  · rename_i hlt
    exact ⟨fun h => absurd h (by decide), fun h => absurd hlt h⟩
  · rename_i hle
    exact ⟨fun _ => hle, fun _ => by decide⟩

theorem visitTimeCompare_le_iff (a b : AppVisitTimeInfo) :
    visitTimeCompare a b ≤ 0 ↔ b.totalTime.toNat ≤ a.totalTime.toNat := by
  rw [← Int.not_lt, visitTimeCompare_pos_iff, UInt64.lt_iff_toNat_lt, Nat.not_lt]

theorem toNat_visitTimeInfo (cell : Int × UInt32) : (visitTimeInfo cell).totalTime.toNat = cell.2.toNat :=
  UInt32.toNat_toUInt64 cell.2

/-- The comparator is fit for a table iff no two of its totals are equal. -/
theorem consistentOn_iff {cells : List (Int × UInt32)} (hdistinct : (cells.map Prod.fst).Nodup) :
    ConsistentOn visitTimeCompare (cells.map visitTimeInfo) ↔ (cells.map Prod.snd).Nodup := by
  constructor
  · intro h
    refine List.pairwise_map.mpr ((List.pairwise_map.mp hdistinct).imp_of_mem ?_)
    intro c c' hc hc' hid heq
    have hne : visitTimeInfo c ≠ visitTimeInfo c' := fun h => hid (congrArg AppVisitTimeInfo.appId h)
    have hflip := h.flip _ (List.mem_map_of_mem hc) _ (List.mem_map_of_mem hc') hne
    rw [visitTimeCompare_pos_iff, visitTimeCompare_neg_iff, UInt64.lt_iff_toNat_lt,
      UInt64.lt_iff_toNat_lt, toNat_visitTimeInfo, toNat_visitTimeInfo, heq] at hflip
    exact absurd (hflip.mpr (Nat.lt_irrefl _)) (Nat.lt_irrefl _)
  · intro hnodup
    refine ⟨?_, ?_⟩
    · intro a ha b hb hne
      obtain ⟨c, hc, rfl⟩ := List.mem_map.mp ha
      obtain ⟨c', hc', rfl⟩ := List.mem_map.mp hb
      have htotal : c.2.toNat ≠ c'.2.toNat := fun h =>
        hne (congrArg visitTimeInfo (List.inj_on_of_nodup_map hnodup hc hc' (UInt32.toNat_inj.mp h)))
      rw [visitTimeCompare_pos_iff, visitTimeCompare_neg_iff, UInt64.lt_iff_toNat_lt,
        UInt64.lt_iff_toNat_lt, toNat_visitTimeInfo, toNat_visitTimeInfo]
      omega
    · intro a _ b _ c _ _ _ _ hab hbc
      rw [visitTimeCompare_le_iff] at hab hbc ⊢
      exact Nat.le_trans hbc hab

/-! ## The first entries -/

/-- What stands in the sorted array, and behind its entries. -/
theorem showsTopFive_of_sorted {cells : List (Int × UInt32)} (hdistinct : (cells.map Prod.fst).Nodup)
    (hlen : cells.length ≤ maxStatAppNum) {sorted : List AppVisitTimeInfo}
    (hperm : sorted.Perm (cells.map visitTimeInfo))
    (hsorted : sorted.Pairwise (fun a b => a ≠ b → visitTimeCompare a b ≤ 0)) :
    ShowsTopFive cells
      ((sorted ++ List.replicate (maxStatAppNum - cells.length) ({} : AppVisitTimeInfo)).take 5) := by
  have hlength : sorted.length = cells.length := by rw [hperm.length_eq, List.length_map]
  have htotals : (sorted.map (·.totalTime.toNat)).Perm (cells.map (·.2.toNat)) := by
    have hmap := hperm.map (·.totalTime.toNat)
    rw [List.map_map] at hmap
    exact hmap
  have horder : (sorted.map (·.totalTime.toNat)).Pairwise (fun a b => b ≤ a) := by
    refine List.pairwise_map.mpr (hsorted.imp (fun {a b} hle => ?_))
    by_cases heq : a = b
    · rw [heq]
    · exact (visitTimeCompare_le_iff a b).mp (hle heq)
  have htake : ((sorted ++ List.replicate (maxStatAppNum - cells.length)
      ({} : AppVisitTimeInfo)).take 5).take cells.length = sorted.take 5 := by
    rw [List.take_take, Nat.min_comm, ← List.take_take, ← hlength, List.take_left]
  have hids : (sorted.map (·.appId)).Nodup := by
    have hmap := hperm.map (·.appId)
    rw [List.map_map] at hmap
    exact hmap.nodup_iff.mpr hdistinct
  refine ⟨?_, ?_, ?_, ?_⟩
  · rw [largest_eq_take htotals horder, List.take_append, List.map_append, List.map_take, hlength,
      List.take_replicate, List.map_replicate]
    unfold maxStatAppNum at *
    congr 2
    omega
  · intro e he
    rw [htake] at he
    obtain ⟨cell, hcell, rfl⟩ := List.mem_map.mp (hperm.mem_iff.mp (List.mem_of_mem_take he))
    exact ⟨cell, hcell, rfl⟩
  · rw [htake]
    exact hids.sublist ((List.take_sublist 5 sorted).map _)
  · intro e he
    rw [List.drop_take, ← hlength, List.drop_left] at he
    exact List.eq_of_mem_replicate (List.mem_of_mem_take he)

/-! ## Main result -/

/-- **The first five apps.** With any `qsort` that sorts what its comparator is fit
for, the list is right iff at most 128 counters are not 0 and no two of them are
equal. -/
theorem top_five_iff (qsort : Qsort) (hqsort : SortsConsistent qsort) (u : DevUsage) :
    TopFiveRight qsort u ↔
      (appVisitCells u).length ≤ maxStatAppNum ∧ ((appVisitCells u).map Prod.snd).Nodup := by
  have hdistinct := nodup_appVisitCells u
  constructor
  · intro h
    refine ⟨?_, (consistentOn_iff hdistinct).mp h.consistent⟩
    by_contra hlong
    exact absurd (h.inBounds maxStatAppNum (Nat.lt_of_not_le hlong)) (Nat.lt_irrefl _)
  · rintro ⟨hlen, hnodup⟩
    have hconsistent := (consistentOn_iff hdistinct).mpr hnodup
    obtain ⟨hperm, hsorted⟩ := hqsort _ _ hconsistent
    refine ⟨fun i hi => Nat.lt_of_lt_of_le hi hlen, hconsistent, _, ?_,
      showsTopFive_of_sorted hdistinct hlen hperm hsorted⟩
    unfold updateTop5App appVisitArray
    rw [if_pos hlen, Option.map_some]

/-- Three apps with one, two and three minutes. -/
theorem top_five_three_apps :
    SortsConsistent (@sortBy AppVisitTimeInfo _) ∧
      TopFiveRight sortBy (usageOfTotals [60, 180, 120]) := by
  refine ⟨sortBy_sorts, (top_five_iff sortBy sortBy_sorts _).mpr ?_⟩
  rw [appVisitCells_usageOfTotals (by decide) (by simp)]
  exact ⟨by decide, by decide⟩

/-- 129 apps end behind the array; and two apps with a minute each are each behind
the other one. -/
theorem top_five_overrun :
    ¬ TopFiveRight sortBy (usageOfTotals (List.replicate 129 60)) ∧
      ¬ TopFiveRight sortBy (usageOfTotals [60, 60]) := by
  constructor
  · intro h
    have hbounds := h.inBounds 128
    have hpos : ∀ t ∈ List.replicate 129 (60 : UInt32), t ≠ 0 := by
      intro t ht
      rw [List.eq_of_mem_replicate ht]
      decide
    rw [appVisitCells_usageOfTotals (by rw [List.length_replicate]; decide) hpos, List.length_map,
      List.length_range, List.length_replicate] at hbounds
    exact absurd (hbounds (by decide)) (by decide)
  · intro h
    have htie := (consistentOn_iff (nodup_appVisitCells _)).mp h.consistent
    rw [appVisitCells_usageOfTotals (by decide) (by simp)] at htie
    exact absurd htie (by decide)

end OpenAppFilter.Theorems
