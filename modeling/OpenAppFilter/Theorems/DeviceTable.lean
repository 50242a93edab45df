import OpenAppFilter.Daemon.DevLists

/-!
# The daemon's device table

The lists of the device table stand for a table with its invariant as a field
(`Stands`): a node of the lists is an entry of the table, with the address it has in
memory. Every operation on the lists is an operation on the table: a lookup is a
lookup (`Stands.find`), a new node a new entry (`Stands.add`), a write to a node or to
all nodes a rewriting of values (`Stands.write`, `Stands.foreach`), a flush a filter
(`Stands.flush`). So every run of operations succeeds and leaves lists that are in
order (`DevChains`).

The table of `Split` and `Devices` is a view of this one (`DevCells.devs`).
-/

namespace OpenAppFilter.Theorems

open Base Daemon

/-! ## What is shown -/

/-- The lists of the table: each node is in the list of its MAC's hash, and no two
nodes have the same MAC. -/
structure DevChains (s : DevLists)
    (chains : Fin maxDevNodeHashSize → List (Nat × CStr × DevInfo)) : Prop where
  lists : ChainTable s.heap s.devHashTable chains
  placed : ∀ i, ∀ e ∈ chains i, devHashMac e.2.1 = i
  once : (((List.finRange maxDevNodeHashSize).flatMap chains).map (fun e => e.2.1)).Nodup

/-- The MAC was added and not flushed since. -/
def macKnown (mac : CStr) (log : List DevLog) : Bool :=
  log.foldl (fun there e =>
    match e with
    | .added mac' => there || decide (mac' = mac)
    | .flushed mac' => there && decide (mac' ≠ mac)) false

/-- The operation takes the nodes with the flag out and leaves the others in their
order, as they are. -/
def RemovesExactly (chains : Fin maxDevNodeHashSize → List (Nat × CStr × DevInfo))
    (flag : DevInfo → Bool) (after : Option DevLists) : Prop :=
  ∃ s', after = some s' ∧ DevChains s' (fun i => (chains i).filter (fun e => !flag e.2.2))

/-! ## The log -/

theorem macKnown_added (mac mac' : CStr) (log : List DevLog) :
    macKnown mac (log ++ [.added mac']) = (macKnown mac log || decide (mac' = mac)) := by
  simp [macKnown]

/-- Flushes take away the MACs of the nodes they are about. -/
theorem macKnown_flushed (mac : CStr) (gone : List (CStr × DevInfo)) :
    ∀ log, macKnown mac (log ++ gone.map (fun node => .flushed node.1)) = true ↔
      macKnown mac log = true ∧ ∀ node ∈ gone, node.1 ≠ mac := by
  induction gone with
  | nil =>
      intro log
      simp
  | cons node gone ih =>
      intro log
      have hone : macKnown mac (log ++ [.flushed node.1]) = true ↔
          macKnown mac log = true ∧ node.1 ≠ mac := by simp [macKnown]
      rw [List.map_cons, List.append_cons, ih, hone,
        List.forall_mem_cons, and_assoc]

/-! ## The table the lists stand for -/

/-- The entries of the table, each with the address of its node. -/
abbrev DevCells := HTable CStr (Nat × DevInfo) maxDevNodeHashSize devHashMac

/-- The nodes of one list. -/
def nodesOf (t : DevCells) (i : Fin maxDevNodeHashSize) : List (Nat × CStr × DevInfo) :=
  (t.buckets i).map (fun e => (e.2.1, e.1, e.2.2))

structure Stands (s : DevLists) (t : DevCells) : Prop where
  lists : ChainTable s.heap s.devHashTable (nodesOf t)
  rounds : ∀ i, (t.buckets i).length ≤ s.gCurUserNum
  known : ∀ mac, (t.find? mac).isSome = macKnown mac s.log

theorem Stands.length_le {s : DevLists} {t : DevCells} (h : Stands s t) (i : Fin maxDevNodeHashSize) :
    (nodesOf t i).length ≤ s.gCurUserNum := by
  unfold nodesOf
  rw [List.length_map]
  exact h.rounds i

/-- Lists that stand for a table are in order. -/
theorem Stands.chains {s : DevLists} {t : DevCells} (h : Stands s t) : DevChains s (nodesOf t) := by
  constructor
  case lists => exact h.lists
  case placed =>
    intro i e he
    obtain ⟨e', he', rfl⟩ := List.mem_map.mp he
    exact t.placed i e' he'
  case once =>
    have hkeys := t.nodup_keys
    unfold HTable.entries at hkeys
    rw [List.map_flatMap] at hkeys ⊢
    unfold nodesOf
    simp only [List.map_map]
    exact hkeys

theorem stands_start : Stands {} HTable.empty := by
  constructor
  case lists =>
    constructor
    · exact fun i => rfl
    · exact fun i => List.nodup_nil
    · exact fun i j _ a ha => absurd ha List.not_mem_nil
  case rounds => exact fun i => Nat.le_refl 0
  case known => exact fun mac => rfl

/-! ## Lookup and insertion -/

theorem devHashMac_strncpy (mac : CStr) : devHashMac (strncpy maxMacLen mac) = devHashMac mac := by
  simp only [devHashMac, strncpy, List.take_take, Nat.min_self]

theorem Stands.find {s : DevLists} {t : DevCells} (h : Stands s t) (mac : CStr) :
    s.findDevNode mac = some ((t.find? (strncpy maxMacLen mac)).map Prod.fst) := by
  unfold DevLists.findDevNode
  rw [findLoop_spec _ (h.lists.chain (devHashMac mac)) (h.length_le _)]
  unfold HTable.find? nodesOf
  rw [devHashMac_strncpy, List.find?_map, Option.map_map, Option.map_map]
  rfl

theorem Stands.add {s : DevLists} {t : DevCells} (h : Stands s t) {mac : CStr}
    (hnone : t.find? (strncpy maxMacLen mac) = none) {calloc : Option Nat} {a : Nat}
    (hroom : calloc.filter (fun a => (s.heap a).isNone) = some a) (now : UInt32) :
    ∃ s', s.addDevNode mac calloc now = (s', some a) ∧
      Stands s' (t.addNew (strncpy maxMacLen mac) (a, { online := true, onlineTime := now })) := by
  have hfree : s.heap a = none := by
    simpa using (Option.filter_eq_some_iff.mp hroom).2
  refine ⟨_, by unfold DevLists.addDevNode; rw [hroom], ?_⟩
  rw [HTable.addNew_of_none hnone]
  constructor
  case lists =>
    convert h.lists.push hfree (devHashMac mac)
      (strncpy maxMacLen mac, { online := true, onlineTime := now }) using 1
    funext i
    show (if devHashMac (strncpy maxMacLen mac) = i then _ else _ : List _).map _ = _
    rw [devHashMac_strncpy]
    by_cases hi : devHashMac mac = i
    · subst hi
      rw [if_pos rfl, Function.update_self]
      rfl
    · rw [if_neg hi, Function.update_of_ne (Ne.symm hi)]
      rfl
  case rounds =>
    intro i
    have hi := h.rounds i
    unfold HTable.add
    dsimp only
    split
    · rw [List.length_cons]
      omega
    · omega
  case known =>
    intro mac'
    rw [HTable.find?_add, macKnown_added, ← h.known mac']
    by_cases hmac : mac' = strncpy maxMacLen mac
    · simp [hmac]
    · simp [hmac, Ne.symm hmac]

/-! ## Writing -/

/-- Lists with the same keys and new values. -/
theorem Stands.mapVals {s s' : DevLists} {t : DevCells} (h : Stands s t)
    {f : CStr → Nat × DevInfo → Nat × DevInfo}
    (hlists : ChainTable s'.heap s'.devHashTable (nodesOf (t.mapVals f)))
    (hnum : s'.gCurUserNum = s.gCurUserNum) (hlog : s'.log = s.log) : Stands s' (t.mapVals f) := by
  constructor
  case lists => exact hlists
  case rounds =>
    intro i
    rw [hnum]
    show ((t.buckets i).map _).length ≤ _
    rw [List.length_map]
    exact h.rounds i
  case known =>
    intro mac
    rw [HTable.find?_mapVals, Option.isSome_map, hlog]
    exact h.known mac

/-- Two entries at one address are one entry. -/
theorem Stands.key_of_address {s : DevLists} {t : DevCells} (h : Stands s t) {e e' : CStr × Nat × DevInfo}
    (he : e ∈ t.entries) (he' : e' ∈ t.entries) (haddr : e.2.1 = e'.2.1) : e.1 = e'.1 := by
  rw [HTable.mem_entries] at he he'
  have hnode : (e.2.1, e.1, e.2.2) ∈ nodesOf t (devHashMac e.1) := List.mem_map_of_mem he
  have hnode' : (e'.2.1, e'.1, e'.2.2) ∈ nodesOf t (devHashMac e'.1) := List.mem_map_of_mem he'
  by_cases hi : devHashMac e.1 = devHashMac e'.1
  · rw [← hi] at hnode'
    have hsame := List.inj_on_of_nodup_map (h.lists.distinct _) hnode hnode' haddr
    exact congrArg (fun node => node.2.1) hsame
  · refine absurd ?_ (h.lists.apart _ _ hi e.2.1 (List.mem_map_of_mem hnode))
    rw [haddr]
    exact List.mem_map_of_mem hnode'

/-- A write to the node of `mac`. -/
theorem Stands.write {s : DevLists} {t : DevCells} (h : Stands s t) {mac : CStr} {a : Nat} {d : DevInfo}
    (hfind : t.find? mac = some (a, d)) (f : DevInfo → DevInfo) :
    ∃ s', s.writeNode a f = some s' ∧ Stands s' (t.modify mac (fun e => (e.1, f e.2))) := by
  have hmem : (mac, a, d) ∈ t.entries := HTable.find?_eq_some_iff.mp hfind
  have hnode : a ∈ (nodesOf t (devHashMac mac)).map Prod.fst :=
    List.mem_map_of_mem (f := Prod.fst) (List.mem_map_of_mem (HTable.mem_entries.mp hmem))
  obtain ⟨c, hcell⟩ := Option.ne_none_iff_exists'.mp ((h.lists.chain _).allocated a hnode)
  -- the node at this address is the one with this MAC
  have haddr : t.modify mac (fun e => (e.1, f e.2)) =
      t.mapVals (fun _ e => if e.1 = a then (e.1, f e.2) else e) := by
    refine HTable.mapVals_congr (fun e he => ?_)
    have hiff : e.1 = mac ↔ e.2.1 = a := by
      constructor
      · rintro rfl
        rw [HTable.find?_eq_some_iff.mpr he] at hfind
        rw [Option.some.inj hfind]
      · exact fun heq => h.key_of_address he hmem heq
    by_cases heq : e.2.1 = a
    · rw [if_pos (hiff.mpr heq), if_pos heq]
    · rw [if_neg (fun hk => heq (hiff.mp hk)), if_neg heq]
  refine ⟨_, by unfold DevLists.writeNode; rw [hcell], ?_⟩
  rw [haddr]
  refine h.mapVals ?_ rfl rfl
  convert h.lists.write hcell (fun node => (node.1, f node.2)) using 1
  funext i
  show ((t.buckets i).map _).map _ = ((t.buckets i).map _).map _
  rw [List.map_map, List.map_map]
  refine List.map_congr_left (fun e _ => ?_)
  simp only [Function.comp_apply]
  split <;> rfl

/-- A write to all nodes. -/
theorem Stands.foreach {s : DevLists} {t : DevCells} (h : Stands s t) (f : DevInfo → DevInfo) :
    ∃ s', s.devForeach f = some s' ∧ Stands s' (t.mapVals (fun _ e => (e.1, f e.2))) := by
  obtain ⟨heap, heads, out, hrun, hlists⟩ := h.lists.map h.length_le (fun node => (node.1, f node.2))
  refine ⟨{ s with heap := heap, devHashTable := heads }, ?_, h.mapVals ?_ rfl rfl⟩
  · unfold DevLists.devForeach
    rw [hrun]
    rfl
  · convert hlists using 1
    funext i
    show ((t.buckets i).map _).map _ = ((t.buckets i).map _).map _
    rw [List.map_map, List.map_map]
    rfl

/-! ## Flushing -/

theorem nodesOf_filter (t : DevCells) (flag : DevInfo → Bool) (i : Fin maxDevNodeHashSize) :
    nodesOf (t.filter (fun _ e => !flag e.2)) i = (nodesOf t i).filter (fun e => !flag e.2.2) := by
  unfold nodesOf
  rw [List.filter_map]
  rfl

/-- The loop frees the nodes with the flag. -/
theorem mem_freed {t : DevCells} {flag : DevInfo → Bool} {node : CStr × DevInfo} :
    node ∈ (List.finRange maxDevNodeHashSize).flatMap
        (fun i => ((nodesOf t i).map Prod.snd).filter (fun node => flag node.2)) ↔
      ∃ a, t.find? node.1 = some (a, node.2) ∧ flag node.2 = true := by
  rw [List.mem_flatMap]
  constructor
  · rintro ⟨i, -, hmem⟩
    obtain ⟨hmem, hflag⟩ := List.mem_filter.mp hmem
    obtain ⟨_, hnode, rfl⟩ := List.mem_map.mp hmem
    obtain ⟨e, he, rfl⟩ := List.mem_map.mp hnode
    refine ⟨e.2.1, HTable.find?_eq_some_iff.mpr (HTable.mem_entries.mpr ?_), hflag⟩
    rw [t.placed i e he]
    exact he
  · rintro ⟨a, hfind, hflag⟩
    have hmem := HTable.mem_entries.mp (HTable.find?_eq_some_iff.mp hfind)
    refine ⟨devHashMac node.1, List.mem_finRange _, List.mem_filter.mpr ⟨?_, hflag⟩⟩
    exact List.mem_map_of_mem (f := Prod.snd) (List.mem_map_of_mem hmem)

theorem Stands.flush {s : DevLists} {t : DevCells} (h : Stands s t) (flag : DevInfo → Bool) :
    ∃ s', s.flushNodes flag = some s' ∧ Stands s' (t.filter (fun _ e => !flag e.2)) := by
  obtain ⟨heap, heads, hrun, hlists⟩ := h.lists.unlink h.length_le (fun node => flag node.2)
  refine ⟨_, by unfold DevLists.flushNodes; rw [hrun]; rfl, ?_⟩
  constructor
  case lists =>
    rw [funext (nodesOf_filter t flag)]
    exact hlists
  case rounds =>
    intro i
    exact (List.length_filter_le _ _).trans (h.rounds i)
  case known =>
    intro mac
    rw [Bool.eq_iff_iff, macKnown_flushed, ← h.known mac, HTable.find?_filter]
    cases hfind : t.find? mac with
    | none => simp
    | some e =>
        -- the entry stays iff its node is not among those freed
        have hstays : (∀ node ∈ (List.finRange maxDevNodeHashSize).flatMap
            (fun i => ((nodesOf t i).map Prod.snd).filter (fun node => flag node.2)), node.1 ≠ mac) ↔
            flag e.2 = false := by
          constructor
          · intro hall
            by_contra hflag
            exact hall (mac, e.2) (mem_freed.mpr ⟨e.1, hfind, by simpa using hflag⟩) rfl
          · rintro hflag node hnode rfl
            obtain ⟨a, hfind', hflag'⟩ := mem_freed.mp hnode
            obtain rfl : e = (a, node.2) := Option.some.inj (hfind.symm.trans hfind')
            exact absurd hflag' (by simp [hflag])
        rw [hstays]
        simp [Option.filter]

/-! ## Runs -/

/-- A producer finds the node of `mac` or adds it, and writes to it. -/
def reachEntry (t : DevCells) (mac : CStr) (room : Option Nat) (now : UInt32)
    (fresh f : DevInfo → DevInfo) : DevCells :=
  if (t.find? (strncpy maxMacLen mac)).isSome then
    t.modify (strncpy maxMacLen mac) (fun e => (e.1, f e.2))
  else
    match room with
    | none => t
    | some a =>
        (t.addNew (strncpy maxMacLen mac) (a, { online := true, onlineTime := now })).modify
          (strncpy maxMacLen mac) (fun e => (e.1, f (fresh e.2)))

theorem Stands.reach {s : DevLists} {t : DevCells} (h : Stands s t) (mac : CStr) (calloc : Option Nat)
    (now : UInt32) (fresh f : DevInfo → DevInfo) :
    ∃ s', s.reachNode mac calloc now fresh f = some s' ∧
      Stands s' (reachEntry t mac (calloc.filter (fun a => (s.heap a).isNone)) now fresh f) := by
  unfold DevLists.reachNode reachEntry
  rw [h.find mac]
  cases hfind : t.find? (strncpy maxMacLen mac) with
  | some e => exact h.write hfind f
  | none =>
      cases hroom : calloc.filter (fun a => (s.heap a).isNone) with
      | none =>
          have hnull : s.addDevNode mac calloc now = (s, none) := by
            unfold DevLists.addDevNode
            rw [hroom]
          dsimp only [Option.map_none]
          rw [hnull]
          exact ⟨s, rfl, h⟩
      | some a =>
          obtain ⟨s₁, hadd, h₁⟩ := h.add hfind hroom now
          have hnew : (t.addNew (strncpy maxMacLen mac) (a, { online := true, onlineTime := now })).find?
              (strncpy maxMacLen mac) = some (a, { online := true, onlineTime := now }) := by
            rw [HTable.find?_addNew, if_pos rfl, hfind]
            rfl
          obtain ⟨s₂, hwrite, h₂⟩ := h₁.write hnew (fun d => f (fresh d))
          dsimp only [Option.map_none]
          rw [hadd]
          exact ⟨s₂, hwrite, h₂⟩

theorem Stands.known_write {s : DevLists} {t : DevCells} (h : Stands s t) (mac : CStr)
    (f : DevInfo → DevInfo) :
    ∃ s', s.knownNode mac f = some s' ∧
      Stands s' (t.modify (strncpy maxMacLen mac) (fun e => (e.1, f e.2))) := by
  unfold DevLists.knownNode
  rw [h.find mac]
  cases hfind : t.find? (strncpy maxMacLen mac) with
  | some e => exact h.write hfind f
  | none =>
      refine ⟨s, rfl, ?_⟩
      -- nothing is written: no entry has this key
      have hsame : t.modify (strncpy maxMacLen mac) (fun e => (e.1, f e.2)) =
          t.mapVals (fun _ e => e) := by
        refine HTable.mapVals_congr (fun e he => if_neg ?_)
        rintro heq
        rw [← heq, HTable.find?_eq_some_iff.mpr he] at hfind
        exact absurd hfind (by simp)
      rw [hsame]
      refine h.mapVals ?_ rfl rfl
      have hid : nodesOf (t.mapVals (fun _ e => e)) = nodesOf t := by
        funext i
        show ((t.buckets i).map _).map _ = _
        rw [List.map_map]
        rfl
      rw [hid]
      exact h.lists

/-! ## The node of a device -/

/-- The node `find_dev_node` returns. -/
def deviceOf (s : DevLists) (mac : CStr) : Option DevInfo :=
  match s.findDevNode mac with
  | some (some a) => (s.heap a).map (fun node => node.val.2)
  | _ => none

theorem Stands.device {s : DevLists} {t : DevCells} (h : Stands s t) (mac : CStr) :
    deviceOf s mac = (t.find? (strncpy maxMacLen mac)).map Prod.snd := by
  unfold deviceOf
  rw [h.find mac]
  cases hfind : t.find? (strncpy maxMacLen mac) with
  | none => rfl
  | some e =>
      have hmem := HTable.mem_entries.mp (HTable.find?_eq_some_iff.mp hfind)
      have hnode : (e.1, strncpy maxMacLen mac, e.2) ∈
          nodesOf t (devHashMac (strncpy maxMacLen mac)) := List.mem_map_of_mem hmem
      obtain ⟨next, hcell⟩ := (h.lists.chain _).cell _ hnode
      show (s.heap e.1).map _ = _
      rw [hcell]
      rfl

theorem find?_reachEntry (t : DevCells) (mac : CStr) (room : Option Nat) (now : UInt32)
    (fresh f : DevInfo → DevInfo) (key : CStr) :
    (reachEntry t mac room now fresh f).find? key =
      if key = strncpy maxMacLen mac then
        match t.find? key with
        | some e => some (e.1, f e.2)
        | none => room.map (fun a => (a, f (fresh { online := true, onlineTime := now })))
      else t.find? key := by
  unfold reachEntry
  by_cases hkey : key = strncpy maxMacLen mac
  · subst hkey
    cases hfind : t.find? (strncpy maxMacLen mac) with
    | some e => simp [HTable.find?_modify, hfind]
    | none =>
        cases room with
        | none => simp [hfind]
        | some a => simp [HTable.find?_modify, HTable.find?_addNew, hfind]
  · rw [if_neg hkey]
    split
    · rw [HTable.find?_modify, if_neg hkey]
    · cases room with
      | none => rfl
      | some a => rw [HTable.find?_modify, if_neg hkey, HTable.find?_addNew, if_neg hkey]

/-- A producer takes no memory but what the allocator returned. -/
theorem Stands.reach_heap {s s' : DevLists} {t : DevCells} (h : Stands s t) {mac : CStr}
    {calloc : Option Nat} {now : UInt32} {fresh f : DevInfo → DevInfo}
    (hstep : s.reachNode mac calloc now fresh f = some s') {a : Nat} (hfree : s.heap a = none)
    (hother : calloc ≠ some a) : s'.heap a = none := by
  have hwrite : ∀ {s₁ s₂ : DevLists} {b : Nat} {f : DevInfo → DevInfo},
      s₁.writeNode b f = some s₂ → s₁.heap a = none → s₂.heap a = none := by
    intro s₁ s₂ b f hs hnone
    unfold DevLists.writeNode at hs
    split at hs
    · exact absurd hs (by simp)
    · rename_i node hnode
      obtain rfl := Option.some.inj hs
      have hne : a ≠ b := by
        rintro rfl
        rw [hnone] at hnode
        exact absurd hnode (by simp)
      exact (Function.update_of_ne hne _ _).trans hnone
  unfold DevLists.reachNode at hstep
  rw [h.find mac] at hstep
  split at hstep
  · exact absurd hstep (by simp)
  · exact hwrite hstep hfree
  · unfold DevLists.addDevNode at hstep
    split at hstep
    · rename_i hadd
      split at hadd
      · obtain ⟨rfl, -⟩ := Prod.mk.inj hadd
        obtain rfl := Option.some.inj hstep
        exact hfree
      · exact absurd (Prod.mk.inj hadd).2 (by simp)
    · rename_i hadd
      split at hadd
      · exact absurd (Prod.mk.inj hadd).2 (by simp)
      · rename_i b hroom
        obtain ⟨rfl, -⟩ := Prod.mk.inj hadd
        have hne : a ≠ b := by
          rintro rfl
          exact hother (Option.filter_eq_some_iff.mp hroom).1
        exact hwrite hstep ((Function.update_of_ne hne _ _).trans hfree)

/-- What an operation makes of the table. -/
def cellStep (s : DevLists) (t : DevCells) : DevAct → DevCells
  | .report mac calloc c hour r =>
      reachEntry t mac (calloc.filter (fun a => (s.heap a).isNone)) c.now id (DevInfo.report c hour r)
  | .lease mac ip hostname calloc now =>
      reachEntry t mac (calloc.filter (fun a => (s.heap a).isNone)) now (DevInfo.leased now ip)
        (DevInfo.named hostname)
  | .client l calloc now =>
      if l.mac.length < 17 then t
      else reachEntry t l.mac (calloc.filter (fun a => (s.heap a).isNone)) now id (DevInfo.client l)
  | .userLine mac am pm calloc now =>
      reachEntry t mac (calloc.filter (fun a => (s.heap a).isNone)) now id (DevInfo.setMinutes am pm)
  | .write mac f => t.modify (strncpy maxMacLen mac) (fun e => (e.1, f e.2))
  | .writeAll f => t.mapVals (fun _ e => (e.1, f e.2))
  | .cleanOnline now => t.mapVals (fun _ e => (e.1, e.2.cleanOnline now))
  | .checkExpire now => t.mapVals (fun _ e => (e.1, e.2.checkExpire now))
  | .flushExpired => t.filter (fun _ e => !e.2.expire)
  | .flushOffline => t.filter (fun _ e => !!e.2.online)

theorem Stands.step {s : DevLists} {t : DevCells} (h : Stands s t) (act : DevAct) :
    ∃ s', devStep s act = some s' ∧ Stands s' (cellStep s t act) := by
  cases act with
  | report mac calloc c hour r => exact h.reach mac calloc c.now id _
  | lease mac ip hostname calloc now => exact h.reach mac calloc now _ _
  | client l calloc now =>
      by_cases hshort : l.mac.length < 17
      · simp only [devStep, cellStep, if_pos hshort]
        exact ⟨s, rfl, h⟩
      · simp only [devStep, cellStep, if_neg hshort]
        exact h.reach l.mac calloc now id _
  | userLine mac am pm calloc now => exact h.reach mac calloc now id _
  | write mac f => exact h.known_write mac f
  | writeAll f => exact h.foreach f
  | cleanOnline now => exact h.foreach _
  | checkExpire now => exact h.foreach _
  | flushExpired => exact h.flush _
  | flushOffline => exact h.flush (fun d => !d.online)

/-- No operation of a run follows a dangling pointer or runs out of rounds. -/
theorem Stands.run (acts : List DevAct) : ∀ {s : DevLists} {t : DevCells}, Stands s t →
    ∃ s' t', acts.foldlM devStep s = some s' ∧ Stands s' t' := by
  induction acts with
  | nil => exact fun h => ⟨_, _, rfl, h⟩
  | cons act acts ih =>
      intro s t h
      obtain ⟨s₁, hstep, h₁⟩ := h.step act
      obtain ⟨s', t', hrun, h'⟩ := ih h₁
      refine ⟨s', t', ?_, h'⟩
      rw [List.foldlM_cons, hstep]
      exact hrun

/-! ## The views -/

/-- The table of `Split` and `Devices`. -/
def DevCells.devs (t : DevCells) : DevTable := t.mapTo (fun e => e.2.toDevNode)

/-- The table of `Visits`. -/
def DevCells.usage (t : DevCells) : UsageTable := t.mapTo (fun e => e.2.toDevUsage)

/-- A producer adds the device to every view and writes to it there, unless memory
runs out. -/
theorem mapTo_reachEntry {W : Type} (g : DevInfo → W) {fresh : DevInfo → DevInfo} (fresh' : W → W)
    (f : DevInfo → DevInfo) (f' : W → W)
    (hfresh : ∀ d, g (fresh d) = fresh' (g d)) (hf : ∀ d, g (f d) = f' (g d)) (t : DevCells)
    (mac : CStr) (a : Nat) (now : UInt32) :
    (reachEntry t mac (some a) now fresh f).mapTo (fun e => g e.2) =
      ((t.mapTo (fun e => g e.2)).addNew (strncpy maxMacLen mac)
        (fresh' (g { online := true, onlineTime := now }))).modify (strncpy maxMacLen mac) f' := by
  unfold reachEntry
  cases hfind : t.find? (strncpy maxMacLen mac) with
  | some e =>
      have hview : (t.mapTo (fun e => g e.2)).find? (strncpy maxMacLen mac) = some (g e.2) := by
        rw [HTable.find?_mapTo, hfind, Option.map_some]
      rw [HTable.addNew_of_some hview]
      exact HTable.mapTo_modify t _ _ (fun e => hf e.2)
  | none =>
      have hview : (t.mapTo (fun e => g e.2)).find? (strncpy maxMacLen mac) = none := by
        rw [HTable.find?_mapTo, hfind, Option.map_none]
      have hnew := HTable.mapTo_addNew (fun e : Nat × DevInfo => g e.2)
        (a, { online := true, onlineTime := now }) hfind
      rw [← HTable.modify_addNew hview, ← hnew]
      refine HTable.mapTo_modify _ _ _ (fun e => ?_)
      show g (f (fresh e.2)) = f' (fresh' (g e.2))
      rw [hf, hfresh]

theorem strncpy_devName (mac : DevName) : strncpy maxMacLen mac.val = mac.val :=
  List.take_of_length_le (Nat.le_of_lt mac.property.2.1)

theorem devs_report (t : DevCells) (mac : DevName) (a : Nat) (c : UsageClock) (hour : Fin 24)
    (r : DevReport) :
    (reachEntry t mac.val (some a) c.now id (DevInfo.report c hour r)).devs =
      appfilterNlHandler mac r.active hour t.devs := by
  have hreach := mapTo_reachEntry DevInfo.toDevNode id (DevInfo.report c hour r)
    (fun node => if isActive r.active then node.addMinute hour else node) (fun d => rfl) (fun d => rfl)
    t mac.val a c.now
  rw [strncpy_devName] at hreach
  exact hreach

theorem devs_lease (t : DevCells) (mac : DevName) (ip hostname : CStr) (a : Nat) (now : UInt32) :
    (reachEntry t mac.val (some a) now (DevInfo.leased now ip) (DevInfo.named hostname)).devs =
      updateDevHostname [mac] t.devs := by
  have hnamed : ∀ d : DevInfo, (d.named hostname).toDevNode = d.toDevNode := by
    intro d
    unfold DevInfo.named
    split <;> rfl
  have hleased : ∀ d : DevInfo, (d.leased now ip).toDevNode = { d.toDevNode with online := false } :=
    fun d => rfl
  have hreach := mapTo_reachEntry DevInfo.toDevNode (fun node => { node with online := false })
    (DevInfo.named hostname) (fun node => node) hleased hnamed t mac.val a now
  rw [strncpy_devName, HTable.modify_id] at hreach
  exact hreach

theorem devs_client (t : DevCells) (mac : DevName) (l : DevClientLine) (hmac : l.mac = mac.val) (a : Nat)
    (now : UInt32) :
    (reachEntry t l.mac (some a) now id (DevInfo.client l)).devs = updateDevFromKernel [mac] t.devs := by
  have hreach := mapTo_reachEntry DevInfo.toDevNode id (DevInfo.client l)
    (fun node => { node with online := true }) (fun d => rfl) (fun d => rfl) t mac.val a now
  rw [strncpy_devName] at hreach
  rw [hmac]
  exact hreach

theorem devs_userLine (t : DevCells) {mac : CStr} (hmac : mac.length ≤ maxMacLen) (am pm : UInt32)
    (a : Nat) (now : UInt32) :
    (reachEntry t mac (some a) now id (DevInfo.setMinutes am pm)).devs = setMinutes t.devs (mac, am, pm) := by
  have hkey : strncpy maxMacLen mac = mac := List.take_of_length_le hmac
  have hreach := mapTo_reachEntry DevInfo.toDevNode id (DevInfo.setMinutes am pm)
    (fun node => { node with todayAmActiveTime := am, todayPmActiveTime := pm })
    (fun d => rfl) (fun d => rfl) t mac a now
  rw [hkey] at hreach
  exact hreach

theorem usage_report (t : DevCells) (mac : CStr) (a : Nat) (s : UsageState) (hour : Fin 24)
    (r : DevReport) (hview : t.usage = s.devs) :
    (reachEntry t mac (some a) s.now id (DevInfo.report s.toUsageClock hour r)).usage =
      (reportUsage s mac r.visits).devs := by
  unfold reportUsage
  dsimp only
  rw [← hview]
  exact mapTo_reachEntry DevInfo.toDevUsage id (DevInfo.report s.toUsageClock hour r) _ (fun d => rfl)
    (fun d => rfl) t mac a s.now

theorem devs_cleanOnline (t : DevCells) (now : UInt32) :
    DevCells.devs (t.mapVals (fun _ e => (e.1, e.2.cleanOnline now))) = cleanDevOnlineStatus t.devs := by
  refine HTable.mapTo_mapVals t _ (fun mac e => ?_)
  show (e.2.cleanOnline now).toDevNode = { e.2.toDevNode with online := false }
  unfold DevInfo.cleanOnline
  split
  · rfl
  · rename_i honline
    simp only [Bool.not_eq_true] at honline
    rw [← honline]

theorem devs_flushOffline (t : DevCells) :
    DevCells.devs (t.filter (fun _ e => !!e.2.online)) = flushOfflineUsers t.devs :=
  HTable.mapTo_filter t _ (fun e _ => (Bool.not_not e.2.2.online).symm)

/-- The devices the check marks. -/
def DevCells.expired (t : DevCells) (now : UInt32) (mac : CStr) : Bool :=
  (t.find? mac).any (fun e => (e.2.checkExpire now).expire)

theorem devs_flushExpired {t : DevCells} (hclean : ∀ e ∈ t.entries, e.2.2.expire = false) (now : UInt32) :
    DevCells.devs (t.filter (fun _ e => !(e.2.checkExpire now).expire)) =
      flushDevExpireNode (t.expired now) t.devs := by
  refine HTable.mapTo_filter t _ (fun e he => ?_)
  show (e.2.2.online || !t.expired now e.1) = !(e.2.2.checkExpire now).expire
  unfold DevCells.expired
  rw [HTable.find?_eq_some_iff.mpr he, Option.any_some]
  cases honline : e.2.2.online with
  | false => rw [Bool.false_or]
  | true =>
      unfold DevInfo.checkExpire
      rw [if_pos honline, hclean e he]
      rfl

/-! ## The result -/

theorem Stands.removes {s : DevLists} {t : DevCells} (h : Stands s t) (flag : DevInfo → Bool) :
    RemovesExactly (nodesOf t) flag (s.flushNodes flag) := by
  obtain ⟨s', hflush, h'⟩ := h.flush flag
  refine ⟨s', hflush, ?_⟩
  have hchains := h'.chains
  rwa [funext (nodesOf_filter t flag)] at hchains

/-- The check only touches what it marks, and what was marked before. -/
theorem checkExpire_of_not_expired {now : UInt32} {d : DevInfo} (h : (d.checkExpire now).expire = false) :
    d.checkExpire now = d := by
  unfold DevInfo.checkExpire at h ⊢
  split
  · rfl
  · rename_i honline
    rw [if_neg honline] at h
    split at h
    · exact absurd h (by simp)
    · rename_i hweek
      rw [if_neg hweek]

/-- The check and then the flush. -/
theorem Stands.expires {s : DevLists} {t : DevCells} (h : Stands s t) (now : UInt32) :
    RemovesExactly (nodesOf t) (fun d => (d.checkExpire now).expire)
      ((s.checkDevExpire now).bind DevLists.flushDevExpireNode) := by
  obtain ⟨s₁, hcheck, h₁⟩ := h.step (.checkExpire now)
  obtain ⟨s₂, hflush, h₂⟩ := h₁.step .flushExpired
  refine ⟨s₂, Option.bind_eq_some_iff.mpr ⟨s₁, hcheck, hflush⟩, ?_⟩
  have hlists : nodesOf (cellStep s₁ (cellStep s t (.checkExpire now)) .flushExpired) =
      fun i => (nodesOf t i).filter (fun e => !(e.2.2.checkExpire now).expire) := by
    funext i
    show (((t.buckets i).map _).filter _).map _ = ((t.buckets i).map _).filter _
    rw [List.filter_map, List.filter_map, List.map_map]
    refine List.map_congr_left (fun e he => ?_)
    have hkept := (List.mem_filter.mp he).2
    simp only [Function.comp_apply, Bool.not_eq_true'] at hkept ⊢
    rw [checkExpire_of_not_expired hkept]
  rw [← hlists]
  exact h₂.chains

/-- After every run of reports, leases, client lines, lines of the usage file,
updates and flushes the lists are in order; a lookup returns the node of the MAC,
and there is one iff the MAC was added and not flushed since; and each flush
removes the nodes with its flag and no others. -/
theorem dev_table_kept (acts : List DevAct) :
    ∃ s chains, acts.foldlM devStep {} = some s ∧ DevChains s chains ∧
      (∀ mac, ∃ node, s.findDevNode mac = some node ∧
        (∀ a, node = some a ↔ ∃ d, (a, strncpy maxMacLen mac, d) ∈ chains (devHashMac mac)) ∧
        node.isSome = macKnown (strncpy maxMacLen mac) s.log) ∧
      (∀ now, RemovesExactly chains (fun d => (d.checkExpire now).expire)
        ((s.checkDevExpire now).bind DevLists.flushDevExpireNode)) ∧
      RemovesExactly chains (fun d => d.expire) s.flushDevExpireNode ∧
      RemovesExactly chains (fun d => !d.online) s.flushOfflineUsers := by
  obtain ⟨s, t, hrun, h⟩ := stands_start.run acts
  refine ⟨s, nodesOf t, hrun, h.chains, fun mac => ?_, h.expires, h.removes _, h.removes _⟩
  refine ⟨_, h.find mac, fun a => ?_, ?_⟩
  · have hnode : (∃ d, (a, strncpy maxMacLen mac, d) ∈ nodesOf t (devHashMac mac)) ↔
        ∃ d, t.find? (strncpy maxMacLen mac) = some (a, d) := by
      refine exists_congr (fun d => ?_)
      rw [HTable.find?_eq_some_iff, HTable.mem_entries, devHashMac_strncpy]
      constructor
      · intro hmem
        obtain ⟨e, he, heq⟩ := List.mem_map.mp hmem
        simp only [Prod.mk.injEq] at heq
        obtain ⟨rfl, hkey, rfl⟩ := heq
        rw [← hkey]
        exact he
      · exact fun hmem => List.mem_map_of_mem hmem
    rw [hnode, Option.map_eq_some_iff]
    constructor
    · rintro ⟨e, hfind, rfl⟩
      exact ⟨e.2, hfind⟩
    · rintro ⟨d, hfind⟩
      exact ⟨(a, d), hfind, rfl⟩
  · rw [Option.isSome_map]
    exact h.known _

end OpenAppFilter.Theorems
