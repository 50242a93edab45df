import OpenAppFilter.Daemon.Devices
import OpenAppFilter.Theorems.SplitSync

/-!
# The usage file

What `save_user_time_to_file` writes, `load_user_time_from_file` reads back:
the same devices, each once, with the same minutes.
-/

namespace OpenAppFilter.Theorems

open Base Kernel Daemon

/-- The minutes of both halves of the day. -/
def halfDays (node : DevNode) : UInt32 × UInt32 := (node.todayAmActiveTime, node.todayPmActiveTime)

/-- The minutes under a name after one row was set. -/
theorem halfDays_setMinutes (devs : DevTable) (row : CStr × UInt32 × UInt32) (mac : CStr) :
    ((setMinutes devs row).find? mac).map halfDays =
      if mac = row.1 then some row.2 else (devs.find? mac).map halfDays := by
  unfold setMinutes
  rw [HTable.find?_modify, HTable.find?_addNew]
  by_cases hmac : mac = row.1
  · rw [if_pos hmac, if_pos hmac, if_pos hmac]
    rfl
  · rw [if_neg hmac, if_neg hmac, if_neg hmac]

/-- The rows of distinct names are what stands under these names after they were
set, and the other names are left. -/
theorem halfDays_setRows {rows : List (CStr × UInt32 × UInt32)}
    (hnodup : (rows.map Prod.fst).Nodup) (mac : CStr) : ∀ devs : DevTable,
    ((rows.foldl setMinutes devs).find? mac).map halfDays =
      ((rows.find? (fun row => decide (row.1 = mac))).map Prod.snd).or
        ((devs.find? mac).map halfDays) := by
  induction rows with
  | nil =>
      intro devs
      rfl
  | cons row rows ih =>
      intro devs
      rw [List.map_cons, List.nodup_cons] at hnodup
      rw [List.foldl_cons, ih hnodup.2, halfDays_setMinutes, List.find?_cons]
      by_cases hmac : mac = row.1
      · -- no later row has this name
        subst hmac
        have hnone : rows.find? (fun row' => decide (row'.1 = row.1)) = none := by
          rw [List.find?_eq_none]
          intro row' hrow' heq
          exact hnodup.1 (List.mem_map.mpr ⟨row', hrow', by simpa using heq⟩)
        simp [hnone]
      · simp [hmac, Ne.symm hmac]

/-- The saved rows under a name. -/
theorem find?_userRows (devs : DevTable) (mac : CStr) :
    ((userRows devs).find? (fun row => decide (row.1 = mac))).map Prod.snd =
      (devs.find? mac).map halfDays := by
  unfold userRows
  rw [List.find?_map]
  show ((devs.entries.find? (fun e => decide (e.1 = mac))).map _).map Prod.snd = _
  cases hfind : devs.find? mac with
  | none =>
      have hnone : devs.entries.find? (fun e => decide (e.1 = mac)) = none := by
        rw [List.find?_eq_none]
        intro e he heq
        have hmem : (mac, e.2) ∈ devs.entries := by
          have hkey : e.1 = mac := by simpa using heq
          rw [← hkey]
          exact he
        rw [HTable.find?_eq_some_iff.mpr hmem] at hfind
        cases hfind
      rw [hnone]
      rfl
  | some node =>
      have hsome := HTable.find?_key_of_mem (HTable.nodup_keys devs)
        (HTable.find?_eq_some_iff.mp hfind)
      rw [hsome]
      rfl

/-- **Minutes survive a restart.** A table that is saved and loaded into an empty
one gives the same devices, each once, with the same minutes. -/
theorem saved_minutes_survive (devs : DevTable) (hplain : ∀ e ∈ devs.entries, PlainName e.1) :
    let loaded := loadUserTimeFromFile (some (saveUserTimeToFile devs)) HTable.empty
    (∀ mac, (loaded.find? mac).map halfDays = (devs.find? mac).map halfDays) ∧
      (loaded.entries.map Prod.fst).Nodup ∧
      (loaded.entries.map Prod.fst).Perm (devs.entries.map Prod.fst) := by
  intro loaded
  have hview : ∀ mac, (loaded.find? mac).map halfDays = (devs.find? mac).map halfDays := by
    intro mac
    have hkeys : ((userRows devs).map Prod.fst).Nodup := by
      have hfst : (userRows devs).map Prod.fst = devs.entries.map Prod.fst := by
        simp [userRows, Function.comp_def]
      rw [hfst]
      exact HTable.nodup_keys devs
    show ((loadUserTimeFromFile (some (saveUserTimeToFile devs)) HTable.empty).find? mac).map
      halfDays = _
    rw [loadUserTimeFromFile_save hplain, halfDays_setRows hkeys, find?_userRows]
    simp
  refine ⟨hview, HTable.nodup_keys loaded, ?_⟩
  rw [List.perm_ext_iff_of_nodup (HTable.nodup_keys loaded) (HTable.nodup_keys devs)]
  intro mac
  have hkey : ∀ t : DevTable, mac ∈ t.entries.map Prod.fst ↔
      ((t.find? mac).map halfDays).isSome = true := by
    intro t
    rw [Option.isSome_map, Option.isSome_iff_exists, List.mem_map]
    constructor
    · rintro ⟨e, he, rfl⟩
      exact ⟨e.2, HTable.find?_eq_some_iff.mpr he⟩
    · rintro ⟨node, hnode⟩
      exact ⟨(mac, node), HTable.find?_eq_some_iff.mp hnode, rfl⟩
  rw [hkey loaded, hkey devs, hview]

/-- The phone's hour is still there after a restart. -/
theorem phone_minutes_survive :
    ((loadUserTimeFromFile (some (saveUserTimeToFile phoneDevs)) HTable.empty).find?
      phoneText).map halfDays = some (60, 0) := by
  have hplain : ∀ e ∈ phoneDevs.entries, PlainName e.1 := by
    intro e he
    rcases HTable.mem_entries_add.mp he with rfl | hnone
    · show PlainName phoneText
      decide
    · simp at hnone
  rw [(saved_minutes_survive phoneDevs hplain).1 phoneText]
  decide +kernel

end OpenAppFilter.Theorems
