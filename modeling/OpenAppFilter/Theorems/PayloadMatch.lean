import OpenAppFilter.Kernel.Scan
import OpenAppFilter.Kernel.System

/-!
# Payload signatures

`af_match_by_pos` compares the bytes at the positions of a node, the negative
ones counted from the end of the payload, and then looks for the search string.
A negative sum wraps behind every payload, and the last window of `k_memstr` ends
where the payload ends: what matches is what the signature says, and no byte
behind the payload is read (`payload_signature_exact`).

Only this function looks at the search string, and `af_match_one` calls it for
nodes with a position. A node that has a search string and no position matches
every flow its ports and its protocol match (`search_string_required_iff`).
-/

namespace OpenAppFilter.Theorems

open Base Kernel Prog

/-! ## What a signature asks for -/

/-- The bytes of the flow. -/
def payload (flow : FlowInfo) : List UInt8 := (List.range flow.l4Len.toNat).map flow.l4Data

/-- The string occurs in the payload. -/
def Contains (flow : FlowInfo) (str : CStr) : Prop :=
  str.map Char.toNat <:+: (payload flow).map UInt8.toNat

/-- The index an entry names: a negative position counts from the end. -/
def entryIndex (flow : FlowInfo) (p : AfPosInfo) : Int :=
  if p.pos ≥ 0 then p.pos else flow.l4Len + p.pos

/-- The payload has the entry's value at the entry's index. -/
def EntryIn (flow : FlowInfo) (p : AfPosInfo) : Prop :=
  0 ≤ entryIndex flow p ∧ entryIndex flow p < flow.l4Len ∧
    flow.l4Data (entryIndex flow p).toNat = p.value

/-- What a node with positions asks of a payload. -/
structure SignatureIn (flow : FlowInfo) (node : AfFeatureNode) : Prop where
  some_entry : 0 < node.posInfo.length
  entries : ∀ p ∈ node.posInfo, EntryIn flow p
  search : node.searchStr = [] ∨ Contains flow node.searchStr

instance (flow : FlowInfo) (str : CStr) : Decidable (Contains flow str) :=
  inferInstanceAs (Decidable (_ <:+: _))

/-- The values of an `int`. -/
def IsInt (x : Int) : Prop := -2 ^ 31 ≤ x ∧ x < 2 ^ 31

instance (x : Int) : Decidable (IsInt x) := inferInstanceAs (Decidable (_ ∧ _))

/-! ## The search string -/

theorem memEq_iff {data : Mem} : ∀ {s : CStr} {off : Nat},
    memEq data off s = true ↔ ∀ i (h : i < s.length), (data (off + i)).toNat = (s[i]).toNat := by
  intro s
  induction s with
  | nil => exact fun {_} => ⟨fun _ i h => absurd h (Nat.not_lt_zero i), fun _ => rfl⟩
  | cons c s ih =>
      intro off
      rw [memEq, Bool.and_eq_true, decide_eq_true_eq, ih]
      constructor
      · rintro ⟨hc, hrest⟩ i hi
        cases i with
        | zero => exact hc
        | succ i =>
            rw [← Nat.add_assoc, Nat.add_right_comm]
            exact hrest i (Nat.lt_of_succ_lt_succ hi)
      · intro h
        refine ⟨h 0 (Nat.succ_pos _), fun i hi => ?_⟩
        have hnext := h (i + 1) (Nat.succ_lt_succ hi)
        rwa [← Nat.add_assoc, Nat.add_right_comm] at hnext

/-- A window of the payload reads the string. -/
theorem memEq_payload {flow : FlowInfo} {str : CStr} {off : Nat}
    (hroom : off + str.length ≤ flow.l4Len.toNat) :
    memEq flow.l4Data off str = true ↔
      ∀ i (h : i < (str.map Char.toNat).length),
        ((payload flow).map UInt8.toNat)[i + off]? = some (str.map Char.toNat)[i] := by
  rw [memEq_iff]
  constructor
  · intro h i hi
    rw [List.length_map] at hi
    rw [List.getElem_map, ← h i hi, Nat.add_comm i off]
    simp [payload, List.getElem?_range (show off + i < flow.l4Len.toNat by omega)]
  · intro h i hi
    have hbyte := h i (by rwa [List.length_map])
    rw [List.getElem_map, Nat.add_comm i off] at hbyte
    simpa [payload, List.getElem?_range (show off + i < flow.l4Len.toNat by omega)] using hbyte

/-- `k_memstr` finds the string iff it occurs in the payload. -/
theorem kMemstr_iff {flow : FlowInfo} {str : CStr} (hstr : str ≠ []) :
    kMemstr flow.l4Data str flow.l4Len = true ↔ Contains flow str := by
  have hpos : 0 < str.length := List.length_pos_iff.mpr hstr
  unfold kMemstr Contains
  rw [List.any_eq_true, List.infix_iff_getElem?]
  constructor
  · rintro ⟨off, hoff, hsame⟩
    rw [List.mem_range] at hoff
    refine ⟨off, ?_, (memEq_payload (by omega)).mp hsame⟩
    simp only [List.length_map, payload, List.length_range]
    omega
  · rintro ⟨off, hroom, hsame⟩
    simp only [List.length_map, payload, List.length_range] at hroom
    exact ⟨off, List.mem_range.mpr (by omega), (memEq_payload (by omega)).mpr hsame⟩

/-- The windows end in the payload. -/
theorem memstrProg_stays {data : Mem} {str : CStr} {len : Nat} (hstr : str ≠ []) : ∀ n off,
    (0 < n → off + n + str.length ≤ len + 1) → (memstrProg str off n).Stays data len := by
  intro n
  induction n with
  | zero => exact fun _ _ => stays_pure _ _ _
  | succ n ih =>
      intro off hroom
      have hwindow := hroom (Nat.succ_pos n)
      rw [memstrProg, stays_bind]
      refine ⟨(memcmpProg_stays hstr).mpr (by omega), ?_⟩
      split
      · exact stays_pure _ _ _
      · exact ih (off + 1) (fun _ => by omega)

theorem kMemstrProg_stays {data : Mem} {str : CStr} {size : Int} (hstr : str ≠ []) :
    (kMemstrProg str size).Stays data size.toNat :=
  memstrProg_stays hstr _ 0 (fun _ => by omega)

/-! ## The positions -/

section

variable {flow : FlowInfo} (hlen : 0 ≤ flow.l4Len) (hint : flow.l4Len < 2 ^ 31)

include hlen hint

/-- The wrapped position is below the length iff the index of the entry is one of
the payload. -/
theorem entryPos_lt {p : AfPosInfo} (hp : IsInt p.pos) :
    entryPos flow.l4Len p.pos < flow.l4Len % 2 ^ 32 ↔
      0 ≤ entryIndex flow p ∧ entryIndex flow p < flow.l4Len := by
  unfold entryPos entryIndex
  unfold IsInt at hp
  rw [Int.emod_eq_of_lt hlen (by omega)]
  by_cases hneg : p.pos < 0
  · rw [if_pos hneg, if_neg (by omega)]
    by_cases hwrap : flow.l4Len + p.pos < 0
    · -- the sum wraps to 2 ^ 31 or more
      have hmod : (flow.l4Len + p.pos) % 2 ^ 32 = flow.l4Len + p.pos + 2 ^ 32 := by
        rw [← Int.add_emod_right, Int.emod_eq_of_lt (by omega) (by omega)]
      rw [hmod]
      omega
    · rw [Int.emod_eq_of_lt (by omega) (by omega)]
      omega
  · rw [if_neg hneg, if_pos (by omega), Int.emod_eq_of_lt (by omega) (by omega)]
    omega

theorem entryPos_eq {p : AfPosInfo} (hp : IsInt p.pos) (h : 0 ≤ entryIndex flow p) :
    entryPos flow.l4Len p.pos = entryIndex flow p := by
  unfold entryPos
  unfold entryIndex at h ⊢
  unfold IsInt at hp
  by_cases hneg : p.pos < 0
  · rw [if_neg (by omega)] at h
    rw [if_pos hneg, if_neg (by omega), Int.emod_eq_of_lt h (by omega)]
  · rw [if_neg hneg, if_pos (by omega), Int.emod_eq_of_lt (by omega) (by omega)]

theorem entryHit_iff {p : AfPosInfo} (hp : IsInt p.pos) : entryHit flow p = true ↔ EntryIn flow p := by
  unfold entryHit EntryIn
  rw [Bool.and_eq_true, decide_eq_true_eq, decide_eq_true_eq, entryPos_lt hlen hint hp, and_assoc]
  refine and_congr_right (fun hlow => and_congr_right (fun _ => ?_))
  rw [entryPos_eq hlen hint hp hlow]

theorem entriesProg_stays : ∀ {ps : List AfPosInfo}, (∀ p ∈ ps, IsInt p.pos) →
    (entriesProg flow.l4Len ps).Stays flow.l4Data flow.l4Len.toNat := by
  intro ps
  induction ps with
  | nil => exact fun _ => stays_pure _ _ _
  | cons p ps ih =>
      intro hps
      obtain ⟨hp, hps⟩ := List.forall_mem_cons.mp hps
      rw [entriesProg]
      split
      · exact stays_pure _ _ _
      · next hlt =>
          have hin := (entryPos_lt hlen hint hp).mp (Int.not_le.mp hlt)
          have heq := entryPos_eq hlen hint hp hin.1
          rw [stays_bind, stays_cell, heq]
          refine ⟨by omega, ?_⟩
          split
          · exact ih hps
          · exact stays_pure _ _ _

end

/-! ## The match -/

/-- **A payload signature matches exactly** what it says, and only bytes of the
payload are read: for every payload whose length is an `int` of zero or more, and
every node of at most sixteen positions and a search string that fits its
buffer. -/
theorem payload_signature_exact (flow : FlowInfo) (node : AfFeatureNode)
    (hlen : 0 ≤ flow.l4Len) (hint : IsInt flow.l4Len)
    (hpos : ∀ p ∈ node.posInfo, IsInt p.pos) (hnum : node.posInfo.length ≤ 16)
    (_hstr : node.searchStr.length ≤ 31) :
    (afMatchByPos flow node = true ↔ SignatureIn flow node) ∧
      (afMatchByPosProg flow node).run flow.l4Data = afMatchByPos flow node ∧
        (afMatchByPosProg flow node).Stays flow.l4Data flow.l4Len.toNat := by
  have htake : node.posInfo.take maxPosInfoPerFeature = node.posInfo := List.take_of_length_le hnum
  refine ⟨?_, afMatchByPosProg_run flow node, ?_⟩
  · have hentries : node.posInfo.all (entryHit flow) = true ↔ ∀ p ∈ node.posInfo, EntryIn flow p := by
      rw [List.all_eq_true]
      exact forall₂_congr (fun p hp => entryHit_iff hlen hint.2 (hpos p hp))
    rw [afMatchByPos_eq, htake]
    by_cases hnil : node.posInfo = []
    · rw [if_pos (List.isEmpty_iff.mpr hnil)]
      refine ⟨fun h => absurd h Bool.false_ne_true, fun h => absurd h.some_entry ?_⟩
      rw [hnil]
      exact Nat.lt_irrefl 0
    · rw [if_neg (by simpa using hnil)]
      have hsome : 0 < node.posInfo.length := List.length_pos_iff.mpr hnil
      by_cases hall : node.posInfo.all (entryHit flow) = true
      · rw [if_pos hall]
        by_cases hs : node.searchStr = []
        · rw [if_neg (not_not.mpr hs)]
          exact ⟨fun _ => ⟨hsome, hentries.mp hall, .inl hs⟩, fun _ => rfl⟩
        · rw [if_pos hs, kMemstr_iff hs]
          exact ⟨fun h => ⟨hsome, hentries.mp hall, .inr h⟩, fun h => h.search.resolve_left hs⟩
      · rw [if_neg hall]
        exact ⟨fun h => absurd h Bool.false_ne_true, fun h => absurd (hentries.mpr h.entries) hall⟩
  · unfold afMatchByPosProg
    split
    · exact stays_pure _ _ _
    · rw [htake, stays_bind]
      refine ⟨entriesProg_stays hlen hint.2 hpos, ?_⟩
      split
      · split
        · next hs => exact kMemstrProg_stays hs
        · exact stays_pure _ _ _
      · exact stays_pure _ _ _

/-- The flow of a TCP segment to port 80 with the payload "GET /ab". -/
def abFlow : FlowInfo :=
  { l4Protocol := ipprotoTcp, dport := 80, l4Len := 7
    l4Data := memOf [0x47, 0x45, 0x54, 0x20, 0x2f, 0x61, 0x62] }

/-- "G" in first place, "b" in last place, and " /a" somewhere. -/
def abNode : AfFeatureNode :=
  { appId := 1002#32, proto := 6, searchStr := " /a".toList, posInfo := [⟨0, 0x47⟩, ⟨-1, 0x62⟩] }

theorem payload_signature_ab :
    (afMatchByPos abFlow abNode = true ↔ SignatureIn abFlow abNode) ∧
      (afMatchByPosProg abFlow abNode).run abFlow.l4Data = afMatchByPos abFlow abNode ∧
        (afMatchByPosProg abFlow abNode).Stays abFlow.l4Data abFlow.l4Len.toNat :=
  payload_signature_exact abFlow abNode (by decide) (by decide) (by decide) (by decide) (by decide)

/-! ## A node without positions -/

/-- `af_match_one` rejects the flow before it looks at the text fields of the
node. -/
def Rejected (flow : FlowInfo) (node : AfFeatureNode) : Prop :=
  (node.proto > 0 ∧ flow.l4Protocol ≠ node.proto) ∨ flow.l4Len = 0 ∨
    (node.sport ≠ 0 ∧ flow.sport ≠ node.sport) ∨ afMatchPort node.dportInfo flow.dport = false

/-- The cascade of a node without URLs. -/
theorem afMatchOne_of_no_url {env : Env} {flow : FlowInfo} {node : AfFeatureNode}
    (hhost : node.hostUrl = []) (hrequest : node.requestUrl = []) :
    afMatchOne env flow node = true ↔
      ¬ Rejected flow node ∧ (node.posInfo = [] ∨ afMatchByPos flow node = true) := by
  unfold afMatchOne Rejected
  by_cases hproto : node.proto > 0 ∧ flow.l4Protocol ≠ node.proto
  · simp [hproto]
  by_cases hzero : flow.l4Len = 0
  · simp [hproto, hzero]
  by_cases hsport : node.sport ≠ 0 ∧ flow.sport ≠ node.sport
  · simp [hproto, hzero, hsport]
  rw [if_neg hproto, if_neg hzero, if_neg hsport]
  cases hport : afMatchPort node.dportInfo flow.dport with
  | false => simp
  | true =>
      rw [if_neg (by decide), if_neg (by simp [hhost, hrequest])]
      cases hpos : node.posInfo with
      | nil => simp [hproto, hzero, hsport]
      | cons p ps => simp [hproto, hzero, hsport]

/-- A match by position has found the search string. -/
theorem contains_of_afMatchByPos {flow : FlowInfo} {node : AfFeatureNode} (hsearch : node.searchStr ≠ [])
    (h : afMatchByPos flow node = true) : Contains flow node.searchStr := by
  rw [afMatchByPos_eq, if_pos hsearch] at h
  split at h
  · exact absurd h Bool.false_ne_true
  · split at h
    · exact (kMemstr_iff hsearch).mp h
    · exact absurd h Bool.false_ne_true

/-- **A match needs the search string** iff the node has a position as well, or
the flow is rejected by protocol, length or port, or its payload happens to
contain the string. -/
theorem search_string_required_iff (env : Env) (flow : FlowInfo) (node : AfFeatureNode)
    (hsearch : node.searchStr ≠ []) (hhost : node.hostUrl = []) (hrequest : node.requestUrl = []) :
    (afMatchOne env flow node = true → Contains flow node.searchStr) ↔
      node.posInfo ≠ [] ∨ Rejected flow node ∨ Contains flow node.searchStr := by
  rw [afMatchOne_of_no_url hhost hrequest]
  constructor
  · intro h
    by_cases hpos : node.posInfo = []
    · by_cases hrej : Rejected flow node
      · exact .inr (.inl hrej)
      · exact .inr (.inr (h ⟨hrej, .inl hpos⟩))
    · exact .inl hpos
  · -- only a node with positions gets as far as the search string
    rintro (hpos | hrej | hin) ⟨hpass, hmatch⟩
    · exact contains_of_afMatchByPos hsearch (hmatch.resolve_left hpos)
    · exact absurd hrej hpass
    · exact hin

theorem search_string_required_ab :
    (afMatchOne routerEnv abFlow abNode = true → Contains abFlow abNode.searchStr) ↔
      abNode.posInfo ≠ [] ∨ Rejected abFlow abNode ∨ Contains abFlow abNode.searchStr :=
  search_string_required_iff routerEnv abFlow abNode (by decide) rfl rfl

/-- The signature `tcp;;80;;;;BitTorrent;0`: a search string and an empty dict. -/
def torrentNode : AfFeatureNode :=
  { appId := 1003#32, proto := 6, dportInfo := [⟨false, 80, 80⟩], searchStr := "BitTorrent".toList }

/-- It matches a request for "/ab". -/
theorem search_string_ignored :
    torrentNode.searchStr ≠ [] ∧ torrentNode.hostUrl = [] ∧ torrentNode.requestUrl = [] ∧
      afMatchOne routerEnv abFlow torrentNode = true ∧ ¬ Contains abFlow torrentNode.searchStr := by
  decide

end OpenAppFilter.Theorems
