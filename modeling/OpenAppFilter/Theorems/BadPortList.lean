import OpenAppFilter.Theorems.PortList

/-!
# Bad port lists

An item that cannot be read is dropped, and a list without ranges matches every
port: a list of bad items alone widens its feature to all ports. A `|` in first
place makes the item behind it one of these. With a range that is kept, the
ports that match are those the list names, but for what a lost negated item
takes back.
-/

namespace OpenAppFilter.Theorems

open Base Kernel Copying

/-! ## What the list says -/

/-- The items of a list, between its `|`. -/
def portItems (s : CStr) : List CStr := pieces '|' (kTrim s)

/-- A well-formed item of the list stands for the range. -/
def Listed (s : CStr) (r : RangeValue) : Prop := ∃ t ∈ portItems s, ItemText t r

/-- An item names the port, or there are negated items and none of them names
it. -/
def Justified (s : CStr) (port : Nat) : Prop :=
  (∃ r, Listed s r ∧ r.isNot = false ∧ PortIn r port) ∨
    ((∃ r, Listed s r ∧ r.isNot = true) ∧ ∀ r, Listed s r → r.isNot = true → ¬ PortIn r port)

/-- The list is parsed within its buffers, every port it lets through is
justified, and without a well-formed item it lets none through. -/
structure PortListSound (s : CStr) : Prop where
  inside : (parsePortInfo s).Every (Copy.Fits Buf.size)
  justified : ∀ port : Nat, port < 65536 → afMatchPort (val (parsePortInfo s)) port = true → Justified s port
  refused : (∀ r, ¬ Listed s r) → ∀ port : Nat, port < 65536 → afMatchPort (val (parsePortInfo s)) port = false

/-! ## What the parser keeps -/

/-- A well-formed piece stands for the range. -/
def KeptRange (s : CStr) (r : RangeValue) : Prop := ∃ t ∈ portPieces s, ItemText t r

/-- The range of a well-formed item behind a `|` in first place. -/
def Lost (s : CStr) (r : RangeValue) : Prop :=
  ∃ rest t, kTrim s = '|' :: rest ∧ (pieces '|' rest).head? = some t ∧ ItemText t r

theorem itemText_unique {t : CStr} {r r' : RangeValue} (h : ItemText t r) (h' : ItemText t r') : r = r' :=
  Option.some.inj ((rangeIn_iff.mpr h).symm.trans (rangeIn_iff.mpr h'))

theorem Lost.unique {s : CStr} {r r' : RangeValue} (h : Lost s r) (h' : Lost s r') : r = r' := by
  obtain ⟨rest, t, hs, ht, hr⟩ := h
  obtain ⟨rest', t', hs', ht', hr'⟩ := h'
  obtain ⟨-, rfl⟩ := List.cons.inj (hs.symm.trans hs')
  obtain rfl := Option.some.inj (ht.symm.trans ht')
  exact itemText_unique hr hr'

/-- An item is kept or lost. -/
theorem listed_iff {s : CStr} {r : RangeValue} : Listed s r ↔ KeptRange s r ∨ Lost s r := by
  unfold Listed KeptRange portItems portPieces
  by_cases hhead : (kTrim s).head? = some '|'
  · obtain ⟨rest, hrest⟩ : ∃ rest, kTrim s = '|' :: rest := List.head?_eq_some_iff.mp hhead
    obtain ⟨first, others, hpieces⟩ := List.exists_cons_of_ne_nil (pieces_ne_nil '|' rest)
    have hempty : ¬ ItemText [] r := by
      rw [← rangeIn_iff]
      exact fun h => absurd h (by simp [rangeIn_eq, kTrim, rangeOf, strstr_singleton, sscanf, vsscanf])
    have hjoined : ¬ ItemText ('|' :: first) r := by
      intro h
      rcases h.chars '|' List.mem_cons_self with h | h | h | h
      all_goals exact absurd h (by decide)
    have hlost : Lost s r ↔ ItemText first r := by
      constructor
      · rintro ⟨rest', t, hs, ht, hr⟩
        obtain ⟨-, rfl⟩ := List.cons.inj (hrest.symm.trans hs)
        rw [hpieces, List.head?_cons] at ht
        obtain rfl := Option.some.inj ht
        exact hr
      · exact fun h => ⟨rest, first, hrest, by rw [hpieces]; rfl, h⟩
    rw [hrest, pieces_sep, loopPieces_sep, hpieces, List.modifyHead_cons, hlost]
    simp only [List.exists_mem_cons_iff, hempty, hjoined, false_or]
    exact or_comm
  · rw [loopPieces_eq hhead]
    refine (or_iff_left ?_).symm
    rintro ⟨rest, t, hs, -⟩
    rw [hs] at hhead
    exact hhead rfl

section

variable {s : CStr}

/-- A list of which nothing is kept lets every port through. -/
theorem match_of_empty (h : ∀ r, ¬ KeptRange s r) (port : Int) :
    afMatchPort (val (parsePortInfo s)) port = true := by
  refine afMatchPort_iff.mpr (Or.inl (List.eq_nil_iff_forall_not_mem.mpr (fun r hr => ?_)))
  exact h r (mem_parsePortInfo.mp hr)

theorem kept_ne_nil {r : RangeValue} (h : KeptRange s r) : val (parsePortInfo s) ≠ [] :=
  List.ne_nil_of_mem (mem_parsePortInfo.mpr h)

/-- With a negated range: all ports but those of the negated ones. -/
theorem match_negated_iff (h : ∃ r, KeptRange s r ∧ r.isNot = true) {port : Int} :
    afMatchPort (val (parsePortInfo s)) port = true ↔ ∀ r, KeptRange s r → r.isNot = true → ¬ PortIn r port := by
  obtain ⟨r, hr, hnot⟩ := h
  rw [afMatchPort_iff, or_iff_right (kept_ne_nil hr), if_pos ⟨r, mem_parsePortInfo.mpr hr, hnot⟩]
  exact forall_congr' (fun r' => imp_congr_left mem_parsePortInfo)

/-- Without one: the ports of the ranges. -/
theorem match_plain_iff (h : ∃ r, KeptRange s r) (hplain : ∀ r, KeptRange s r → r.isNot = false) {port : Int} :
    afMatchPort (val (parsePortInfo s)) port = true ↔ ∃ r, KeptRange s r ∧ PortIn r port := by
  obtain ⟨r, hr⟩ := h
  have hno : ¬ ∃ r' ∈ val (parsePortInfo s), r'.isNot = true := by
    rintro ⟨r', hr', hnot⟩
    rw [hplain r' (mem_parsePortInfo.mp hr')] at hnot
    exact Bool.false_ne_true hnot
  rw [afMatchPort_iff, or_iff_right (kept_ne_nil hr), if_neg hno]
  exact exists_congr (fun r' => and_congr_left' mem_parsePortInfo)

/-! ## When the list is kept -/

/-- The pieces fit, a piece is well formed, and a negated item that is lost takes
back no port that only it names; or nothing is kept, and the item that is lost
would let every port through as well. -/
structure PortListRead (s : CStr) : Prop where
  short : ∀ t ∈ portPieces s, t.length < 128
  room : TableRoom (portPieces s)
  kept : (∃ r, KeptRange s r) → ∀ r, Lost s r → r.isNot = true →
    (∀ r', KeptRange s r' → r'.isNot = false) ∨
      ∀ port : Nat, port < 65536 → PortIn r port → ∃ r', KeptRange s r' ∧ PortIn r' port
  empty : (∀ r, ¬ KeptRange s r) →
    ∃ r, Lost s r ∧ ∀ port : Nat, port < 65536 → (PortIn r port ↔ r.isNot = false)

/-- A port that is let through by ranges that are kept. -/
theorem justified_of_kept (hkept : ∃ r, KeptRange s r) (hlost : ∀ r, Lost s r → r.isNot = true →
      (∀ r', KeptRange s r' → r'.isNot = false) ∨
        ∀ port : Nat, port < 65536 → PortIn r port → ∃ r', KeptRange s r' ∧ PortIn r' port)
    {port : Nat} (hport : port < 65536) (hmatch : afMatchPort (val (parsePortInfo s)) port = true) :
    Justified s port := by
  by_cases hneg : ∃ r, KeptRange s r ∧ r.isNot = true
  · have hout := (match_negated_iff hneg).mp hmatch
    obtain ⟨r, hr, hnot⟩ := hneg
    by_cases htaken : ∃ r', Lost s r' ∧ r'.isNot = true ∧ PortIn r' port
    · obtain ⟨r', hr', hnot', hin'⟩ := htaken
      rcases hlost r' hr' hnot' with hplain | hnamed
      · rw [hplain r hr] at hnot
        exact absurd hnot Bool.false_ne_true
      · -- the port is named by a range that is not negated
        obtain ⟨q, hq, hin⟩ := hnamed port hport hin'
        refine Or.inl ⟨q, listed_iff.mpr (Or.inl hq), ?_, hin⟩
        exact Bool.eq_false_iff.mpr (fun hqnot => hout q hq hqnot hin)
    · refine Or.inr ⟨⟨r, listed_iff.mpr (Or.inl hr), hnot⟩, fun q hq hqnot hin => ?_⟩
      rcases listed_iff.mp hq with hq | hq
      · exact hout q hq hqnot hin
      · exact htaken ⟨q, hq, hqnot, hin⟩
  · have hplain : ∀ r, KeptRange s r → r.isNot = false :=
      fun r hr => Bool.eq_false_iff.mpr (fun hnot => hneg ⟨r, hr, hnot⟩)
    obtain ⟨r, hr, hin⟩ := (match_plain_iff hkept hplain).mp hmatch
    exact Or.inl ⟨r, listed_iff.mpr (Or.inl hr), hplain r hr, hin⟩

/-- **A bad port list does not widen a feature** iff its pieces fit, a piece is
well formed, and no item is lost that makes a difference. -/
theorem port_list_sound_iff (s : CStr) : PortListSound s ↔ PortListRead s := by
  constructor
  · intro h
    obtain ⟨hshort, hroom⟩ := parsePortInfo_fits.mp h.inside
    refine ⟨hshort, tableRoom_iff.mp hroom, fun _ r hr hnot => ?_, fun hempty => ?_⟩
    · by_cases hneg : ∃ r', KeptRange s r' ∧ r'.isNot = true
      · refine Or.inr (fun port hport hin => ?_)
        by_contra hnone
        have hmatch := (match_negated_iff hneg).mpr (fun q hq _ hqin => hnone ⟨q, hq, hqin⟩)
        rcases h.justified port hport hmatch with ⟨q, hq, hqnot, hqin⟩ | ⟨-, hout⟩
        · rcases listed_iff.mp hq with hq | hq
          · exact hnone ⟨q, hq, hqin⟩
          · obtain rfl := hq.unique hr
            rw [hnot] at hqnot
            exact Bool.false_ne_true hqnot.symm
        · exact hout r (listed_iff.mpr (Or.inr hr)) hnot hin
      · exact Or.inl (fun r' hr' => Bool.eq_false_iff.mpr (fun hnot' => hneg ⟨r', hr', hnot'⟩))
    · have hlisted : ∀ r, Listed s r → Lost s r :=
        fun r hr => (listed_iff.mp hr).resolve_left (hempty r)
      have hjust : ∀ port : Nat, port < 65536 → Justified s port :=
        fun port hport => h.justified port hport (match_of_empty hempty port)
      obtain ⟨r, hr⟩ : ∃ r, Lost s r := by
        rcases hjust 0 (by decide) with ⟨q, hq, -⟩ | ⟨⟨q, hq, -⟩, -⟩
        · exact ⟨q, hlisted q hq⟩
        · exact ⟨q, hlisted q hq⟩
      refine ⟨r, hr, fun port hport => ?_⟩
      rcases hjust port hport with ⟨q, hq, hqnot, hqin⟩ | ⟨⟨q, hq, hqnot⟩, hout⟩
      · obtain rfl := (hlisted q hq).unique hr
        exact iff_of_true hqin hqnot
      · have hnot := hout q hq hqnot
        obtain rfl := (hlisted q hq).unique hr
        exact iff_of_false hnot (by rw [hqnot]; exact Bool.false_ne_true.symm)
  · intro h
    refine ⟨parsePortInfo_fits.mpr ⟨h.short, tableRoom_iff.mpr h.room⟩, fun port hport hmatch => ?_,
      fun hnone => ?_⟩
    · by_cases hkept : ∃ r, KeptRange s r
      · exact justified_of_kept hkept (h.kept hkept) hport hmatch
      · obtain ⟨r, hr, hall⟩ := h.empty (not_exists.mp hkept)
        have hlisted := listed_iff.mpr (Or.inr hr)
        cases hnot : r.isNot with
        | false => exact Or.inl ⟨r, hlisted, hnot, (hall port hport).mpr hnot⟩
        | true =>
            refine Or.inr ⟨⟨r, hlisted, hnot⟩, fun q hq _ hin => ?_⟩
            obtain rfl := ((listed_iff.mp hq).resolve_left (not_exists.mp hkept q)).unique hr
            rw [(hall port hport).mp hin] at hnot
            exact Bool.false_ne_true hnot
    · -- without a well-formed item nothing is kept, and nothing is lost
      obtain ⟨r, hr, -⟩ := h.empty (fun r hr => hnone r (listed_iff.mpr (Or.inl hr)))
      exact absurd (listed_iff.mpr (Or.inr hr)) (hnone r)

end

/-- A list of one bad item. -/
theorem bad_item_matches_all :
    (∀ r, ¬ Listed "http".toList r) ∧ afMatchPort (val (parsePortInfo "http".toList)) 22 = true ∧
      ¬ PortListSound "http".toList := by
  have hmatch : afMatchPort (val (parsePortInfo "http".toList)) 22 = true := by decide
  have hnone : ∀ r, ¬ Listed "http".toList r := by
    rintro r ⟨t, ht, hr⟩
    have hpieces : portItems "http".toList = ["http".toList] := by decide
    rw [hpieces, List.mem_singleton] at ht
    subst ht
    have hbad := hr.chars 't' (by decide)
    exact absurd hbad (by unfold ItemChar; decide)
  refine ⟨hnone, hmatch, fun h => ?_⟩
  have hrefused : afMatchPort (val (parsePortInfo "http".toList)) 22 = false := h.refused hnone 22 (by decide)
  exact Bool.false_ne_true (hrefused.symm.trans hmatch)

end OpenAppFilter.Theorems
