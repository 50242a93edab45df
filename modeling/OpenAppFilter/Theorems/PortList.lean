import OpenAppFilter.Kernel.Dpi
import OpenAppFilter.Theorems.PortItem

/-!
# Port lists

The ranges `parse_port_info` stores are those of the well-formed items among the
pieces its loop cuts (`val_parsePortInfo`), and `af_match_port` asks for a range
that holds the port, or, when one of them is negated, for no negated one that
does. A rendered list comes back as it was (`port_list_round_trip`). The table
has room for five ranges and nothing looks how many there are
(`port_table_iff`).
-/

namespace OpenAppFilter.Theorems

open Base Kernel Copying

/-! ## The ranges of a list -/

/-- The port lies in the range. -/
def PortIn (r : RangeValue) (port : Int) : Prop := r.start ≤ port ∧ port ≤ r.stop

instance (r : RangeValue) (port : Int) : Decidable (PortIn r port) := inferInstanceAs (Decidable (_ ∧ _))

/-- The pieces `parse_port_info` cuts the list into: a `|` in first place is not
looked at and stays with the piece behind it. -/
def portPieces (s : CStr) : List CStr := loopPieces '|' (kTrim s)

theorem val_portLoop (ts : List CStr) : ∀ ranges : List RangeValue,
    val (portLoop ranges ts) = ranges ++ ts.filterMap rangeIn := by
  induction ts with
  | nil =>
      intro ranges
      simp [portLoop]
  | cons t ts ih =>
      intro ranges
      rw [portLoop, val_bind, val_bind, val_addRange, ih, List.append_assoc]
      congr 1
      cases hrange : rangeIn t with
      | none => rw [List.filterMap_cons_none hrange, Option.toList_none, List.nil_append]
      | some r => rw [List.filterMap_cons_some hrange, Option.toList_some, List.singleton_append]

/-- `parse_port_info` keeps the ranges of the pieces that can be read. -/
theorem val_parsePortInfo (s : CStr) : val (parsePortInfo s) = (portPieces s).filterMap rangeIn := by
  unfold parsePortInfo portPieces loopPieces
  dsimp only
  split
  · rename_i hnil
    rw [hnil]
    rfl
  · rw [val_bind, val_bind, val_addRange, val_portLoop, List.filterMap_append, List.nil_append]
    congr 1

theorem mem_parsePortInfo {s : CStr} {r : RangeValue} :
    r ∈ val (parsePortInfo s) ↔ ∃ t ∈ portPieces s, ItemText t r := by
  rw [val_parsePortInfo, List.mem_filterMap]
  exact exists_congr (fun t => and_congr_right (fun _ => rangeIn_iff))

/-- `af_match_port`. -/
theorem afMatchPort_iff {info : List RangeValue} {port : Int} :
    afMatchPort info port = true ↔
      info = [] ∨
        if ∃ r ∈ info, r.isNot = true then ∀ r ∈ info, r.isNot = true → ¬ PortIn r port
        else ∃ r ∈ info, PortIn r port := by
  have hnames : ∀ r : RangeValue, (decide (port ≥ r.start) && decide (port ≤ r.stop)) = true ↔ PortIn r port := by
    intro r
    rw [Bool.and_eq_true, decide_eq_true_eq, decide_eq_true_eq]
    exact Iff.rfl
  unfold afMatchPort
  cases info with
  | nil => simp
  | cons r info =>
      rw [List.isEmpty_cons, if_neg Bool.false_ne_true]
      by_cases hnot : ∃ r' ∈ r :: info, r'.isNot = true
      · rw [if_pos hnot, if_pos (List.any_eq_true.mpr hnot)]
        simp only [Bool.not_eq_true', List.any_eq_false, Bool.and_eq_true, hnames, not_and]
        exact (or_iff_right (List.cons_ne_nil _ _)).symm
      · rw [if_neg hnot, if_neg (fun h => hnot (List.any_eq_true.mp h))]
        simp only [List.any_eq_true, hnames]
        exact (or_iff_right (List.cons_ne_nil _ _)).symm

/-! ## Room in the table -/

/-- The item stands for a range. -/
def WellFormed (t : CStr) : Prop := ∃ r, ItemText t r

theorem wellFormed_iff {t : CStr} : WellFormed t ↔ (rangeIn t).isSome = true := by
  rw [Option.isSome_iff_exists]
  exact exists_congr (fun r => rangeIn_iff.symm)

instance (t : CStr) : Decidable (WellFormed t) := decidable_of_iff _ wellFormed_iff.symm

instance (t : CStr) : Decidable (∀ c ∈ t, ItemChar c) := decidable_of_iff _ validateRangeValue_iff

/-- Every piece of item characters has fewer than five well-formed ones in front
of it. -/
def TableRoom (ts : List CStr) : Prop :=
  ∀ pre t post, ts = pre ++ t :: post → (∀ c ∈ t, ItemChar c) → pre.countP (fun u => WellFormed u) < 5

theorem length_rangeIn (t : CStr) : (rangeIn t).toList.length = if WellFormed t then 1 else 0 := by
  by_cases hwell : WellFormed t
  · obtain ⟨r, hr⟩ := hwell
    rw [if_pos ⟨r, hr⟩, rangeIn_iff.mpr hr]
    rfl
  · have hnone : rangeIn t = none := by
      rw [← Option.not_isSome_iff_eq_none, ← wellFormed_iff]
      exact hwell
    rw [if_neg hwell, hnone]
    rfl

theorem rangesRoom_iff {ts : List CStr} : ∀ {n : Nat}, RangesRoom n ts ↔
    ∀ pre t post, ts = pre ++ t :: post → (∀ c ∈ t, ItemChar c) →
      n + pre.countP (fun u => WellFormed u) < 5 := by
  induction ts with
  | nil =>
      intro n
      simp [RangesRoom]
  | cons u ts ih =>
      intro n
      rw [RangesRoom, ih, length_rangeIn, validateRangeValue_iff]
      constructor
      · rintro ⟨hfirst, hrest⟩ pre t post heq hchars
        cases pre with
        | nil =>
            obtain ⟨rfl, rfl⟩ := List.cons.inj heq
            exact hfirst hchars
        | cons v pre =>
            obtain ⟨rfl, htail⟩ := List.cons.inj heq
            have hlt := hrest pre t post htail hchars
            rw [List.countP_cons]
            simp only [decide_eq_true_eq]
            omega
      · intro h
        refine ⟨fun hchars => h [] u ts rfl hchars, fun pre t post heq hchars => ?_⟩
        have hlt := h (u :: pre) t post (by rw [heq]; rfl) hchars
        rw [List.countP_cons] at hlt
        simp only [decide_eq_true_eq] at hlt
        omega

theorem tableRoom_iff {ts : List CStr} : RangesRoom 0 ts ↔ TableRoom ts := by
  rw [rangesRoom_iff]
  unfold TableRoom
  simp only [Nat.zero_add]

instance (ts : List CStr) : Decidable (TableRoom ts) := decidable_of_iff _ tableRoom_iff

/-- What is kept fits where every slot that is filled does. -/
theorem length_of_rangesRoom {ts : List CStr} : ∀ {n : Nat}, RangesRoom n ts → n ≤ 5 →
    n + (ts.filterMap rangeIn).length ≤ 5 := by
  induction ts with
  | nil => exact fun _ hn => hn
  | cons t ts ih =>
      intro n hroom hn
      obtain ⟨hfirst, hrest⟩ := hroom
      cases hrange : rangeIn t with
      | none =>
          rw [hrange] at hrest
          rw [List.filterMap_cons_none hrange]
          exact ih hrest hn
      | some r =>
          have hlt := hfirst (validateRangeValue_iff.mpr (rangeIn_iff.mp hrange).chars)
          rw [hrange] at hrest
          have hle := ih hrest (by rw [Option.toList_some, List.length_singleton]; omega)
          rw [Option.toList_some, List.length_singleton] at hle
          rw [List.filterMap_cons_some hrange, List.length_cons]
          omega

/-- The last piece of a list is copied and read. -/
theorem addLast_fits {ranges : List RangeValue} {last : CStr} :
    (copyLast .onePortBuf last >>= fun _ => addRange ranges last).Every (FitsIn (fun _ => True)) ↔
      last.length < 128 ∧ (validateRangeValue last = true → ranges.length < 5) := by
  rw [every_bind, every_copyLast_iff, imp_iff_right trivial]
  refine and_congr_right (fun hlast => ?_)
  rw [addRange_every hlast]
  exact imp_iff_right trivial

theorem portLoop_fits {last : CStr} {ts : List CStr} : ∀ {ranges : List RangeValue},
    (portLoop ranges ts >>= fun ranges => copyLast .onePortBuf last >>= fun _ =>
        addRange ranges last).Every (FitsIn (fun _ => True)) ↔
      (∀ t ∈ ts ++ [last], t.length < 128) ∧ RangesRoom ranges.length (ts ++ [last]) := by
  induction ts with
  | nil =>
      intro ranges
      rw [portLoop, every_bind, val_pure, addLast_fits, List.nil_append, List.forall_mem_singleton]
      simp [RangesRoom]
  | cons t ts ih =>
      intro ranges
      have hnext := @ih (ranges ++ (rangeIn t).toList)
      rw [List.length_append, every_bind] at hnext
      rw [portLoop, List.cons_append, List.forall_mem_cons, RangesRoom, every_bind, every_bind, every_bind, val_bind,
        val_bind, val_addRange, every_copyPiece_iff, imp_iff_right trivial, and_assoc, and_assoc, hnext, and_assoc]
      refine and_congr_right (fun ht => ?_)
      rw [addRange_every ht, imp_iff_right trivial]
      exact and_left_comm

/-- A port list of any length is copied within its buffers iff its pieces are
shorter than `one_port_buf` and there is room for its ranges. -/
theorem parsePortInfo_fits {s : CStr} :
    (parsePortInfo s).Every (Copy.Fits Buf.size) ↔
      (∀ t ∈ portPieces s, t.length < 128) ∧ RangesRoom 0 (portPieces s) := by
  rw [every_fits_iff]
  unfold parsePortInfo portPieces loopPieces
  dsimp only
  split
  · rename_i hnil
    rw [hnil]
    simp [cut, RangesRoom]
  · exact portLoop_fits

/-- Every slot that is filled, the number of ranges, and so the slots that
`af_match_port` looks at, are within `range_list`. -/
structure PortTableKept (s : CStr) : Prop where
  writes : (parsePortInfo s).Every (FitsIn (fun buf => buf = .rangeList))
  num : (val (parsePortInfo s)).length ≤ Buf.size .rangeList

/-- **A port list stays in its table** iff every piece of item characters has
fewer than five well-formed ones in front of it. -/
theorem port_table_iff (s : CStr) (hlen : s.length ≤ 15) : PortTableKept s ↔ TableRoom (portPieces s) := by
  have hwrites : (parsePortInfo s).Every (FitsIn (fun buf => buf = .rangeList)) ↔
      RangesRoom 0 (portPieces s) := by
    rw [parsePortInfo_every (Nat.lt_of_le_of_lt hlen (by decide))]
    exact imp_iff_right rfl
  rw [← tableRoom_iff]
  constructor
  · exact fun h => hwrites.mp h.writes
  · intro h
    refine ⟨hwrites.mpr h, ?_⟩
    have hle := length_of_rangesRoom h (Nat.zero_le 5)
    rw [Nat.zero_add, ← val_parsePortInfo] at hle
    exact hle

theorem port_table_two_ports : PortTableKept "80|443".toList :=
  (port_table_iff "80|443".toList (by decide)).mpr (by decide)

/-- Eight ports in fifteen characters. -/
theorem eight_ports_overrun :
    "1|2|3|4|5|6|7|8".toList.length = 15 ∧ (val (parsePortInfo "1|2|3|4|5|6|7|8".toList)).length = 8 ∧
      ¬ PortTableKept "1|2|3|4|5|6|7|8".toList := by
  have hnum : (val (parsePortInfo "1|2|3|4|5|6|7|8".toList)).length = 8 := by decide
  refine ⟨by decide, hnum, fun h => ?_⟩
  have hle := h.num
  rw [hnum] at hle
  exact absurd hle (by decide)

/-! ## A rendered list -/

/-- A range of ports as it is written, `[!]start[-end]`: the end may be left out
when it is the start. -/
structure PortRange where
  isNot : Bool
  start : Nat
  stop : Nat
  short : Bool
  ordered : start ≤ stop
  isPort : stop < 65536
  same : short = true → start = stop

namespace PortRange

variable (e : PortRange)

def text : CStr :=
  (if e.isNot then ['!'] else []) ++
    (Nat.toDigits 10 e.start ++ if e.short then [] else '-' :: Nat.toDigits 10 e.stop)

def value : RangeValue := ⟨e.isNot, e.start, e.stop⟩

end PortRange

/-- The items joined by `|`. -/
def portListText (es : List PortRange) : CStr := ['|'].intercalate (es.map PortRange.text)

theorem numeral_toDigits {n : Nat} : Numeral (Nat.toDigits 10 n) (Int32.ofInt n) := by
  have hdigits : ∀ c ∈ Nat.toDigits 10 n, c.isDigit = true :=
    fun c hc => Nat.isDigit_of_mem_toDigits (by decide) (by decide) hc
  have hvalue := @natPrefix_toDigits n [] trivial
  have hnum := Numeral.plain Nat.toDigits_ne_nil hdigits
  rw [List.append_nil] at hvalue
  rwa [hvalue] at hnum

namespace PortRange

variable (e : PortRange)

theorem mem_text {c : Char} (h : c ∈ e.text) : c = '!' ∨ c = '-' ∨ c.isDigit = true := by
  have hdigits : ∀ n, c ∈ Nat.toDigits 10 n → c.isDigit = true :=
    fun n hn => Nat.isDigit_of_mem_toDigits (by decide) (by decide) hn
  unfold text at h
  rcases List.mem_append.mp h with h | h
  · split at h
    · exact Or.inl (List.mem_singleton.mp h)
    · exact absurd h List.not_mem_nil
  · rcases List.mem_append.mp h with h | h
    · exact Or.inr (Or.inr (hdigits _ h))
    · split at h
      · exact absurd h List.not_mem_nil
      · rcases List.mem_cons.mp h with h | h
        · exact Or.inr (Or.inl h)
        · exact Or.inr (Or.inr (hdigits _ h))

theorem text_length : 0 < e.text.length ∧ e.text.length ≤ 12 := by
  have hport := e.isPort
  have hle := e.ordered
  have hdigits : ∀ n < 65536, 0 < (Nat.toDigits 10 n).length ∧ (Nat.toDigits 10 n).length ≤ 5 :=
    fun n hn => ⟨Nat.length_toDigits_pos, (Nat.length_toDigits_le_iff (by decide) (by decide)).mpr (by omega)⟩
  have hstart := hdigits e.start (by omega)
  have hstop := hdigits e.stop hport
  have hmark : (if e.isNot then ['!'] else [] : CStr).length ≤ 1 := by
    split
    · exact Nat.le_refl 1
    · exact Nat.zero_le 1
  have hend : (if e.short then [] else '-' :: Nat.toDigits 10 e.stop : CStr).length ≤ 6 := by
    split
    · exact Nat.zero_le 6
    · rw [List.length_cons]
      omega
  unfold text
  rw [List.length_append, List.length_append]
  omega

/-- The numbers of an item. -/
theorem bounds_text :
    Bounds (Nat.toDigits 10 e.start ++ if e.short then [] else '-' :: Nat.toDigits 10 e.stop)
      (Int32.ofInt e.start) (Int32.ofInt e.stop) := by
  cases hshort : e.short with
  | true =>
      have hone : Bounds (Nat.toDigits 10 e.start ++ []) (Int32.ofInt e.start) (Int32.ofInt e.start) := by
        refine .one numeral_toDigits trivial ?_
        rw [List.append_nil]
        exact fun h => absurd (Nat.isDigit_of_mem_toDigits (by decide) (by decide) h) (by decide)
      rw [if_pos rfl, ← e.same hshort]
      exact hone
  | false =>
      rw [if_neg Bool.false_ne_true]
      have htwo := @Bounds.two _ [] _ [] _ _ (@numeral_toDigits e.start) (fun c hc => absurd hc List.not_mem_nil)
        (@numeral_toDigits e.stop) trivial
      rwa [List.nil_append, List.append_nil] at htwo

theorem itemText : ItemText e.text e.value := by
  have hport := e.isPort
  have hle := e.ordered
  have hint : ∀ n : Nat, n < 65536 → (Int32.ofInt n).toInt = n :=
    fun n hn => Int32.toInt_ofInt_of_le (by omega) (by omega)
  refine ⟨fun c hc => Or.inr (e.mem_text hc), [], [], _, _, _, ?_, ?_, ?_, e.bounds_text,
    (hint _ (by omega)).symm, (hint _ hport).symm⟩
  · exact fun c hc => absurd hc List.not_mem_nil
  · exact fun c hc => absurd hc List.not_mem_nil
  · unfold text value
    cases e.isNot <;> rfl

end PortRange

/-- The pieces of a rendered list are its items. -/
theorem portPieces_text {es : List PortRange} (hne : es ≠ []) :
    portPieces (portListText es) = es.map PortRange.text := by
  have hclean : ∀ t ∈ es.map PortRange.text, t ≠ [] ∧ '|' ∉ t := by
    intro t ht
    obtain ⟨e, -, rfl⟩ := List.mem_map.mp ht
    refine ⟨List.ne_nil_of_length_pos e.text_length.1, fun hmem => ?_⟩
    rcases e.mem_text hmem with h | h | h
    · exact absurd h (by decide)
    · exact absurd h (by decide)
    · exact absurd h (by decide)
  have htrim : kTrim (portListText es) = portListText es := by
    refine kTrim_of_no_space (fun c hc => ?_)
    rcases mem_of_mem_intercalate hc with rfl | ⟨t, ht, hct⟩
    · rfl
    · obtain ⟨e, -, rfl⟩ := List.mem_map.mp ht
      rcases e.mem_text hct with rfl | rfl | hdigit
      · rfl
      · rfl
      · exact kIsSpace_of_isDigit hdigit
  unfold portPieces
  rw [htrim]
  exact loopPieces_intercalate hclean (fun h => hne (List.map_eq_nil_iff.mp h))

/-- **Port lists round-trip.** One to five ranges, rendered and parsed, come back
in order, every copy on the way fits, and the port that matches is one in no
negated range, if there is a negated one, or else in some range. -/
theorem port_list_round_trip (es : List PortRange) (hne : es ≠ []) (hlen : es.length ≤ 5) :
    val (parsePortInfo (portListText es)) = es.map PortRange.value ∧
      (parsePortInfo (portListText es)).Every (Copy.Fits Buf.size) ∧
      ∀ port : Int, afMatchPort (val (parsePortInfo (portListText es))) port = true ↔
        if ∃ e ∈ es, e.isNot = true then
          ∀ e ∈ es, e.isNot = true → ¬ (e.start ≤ port ∧ port ≤ e.stop)
        else ∃ e ∈ es, e.start ≤ port ∧ port ≤ e.stop := by
  have hpieces := portPieces_text hne
  have hranges : val (parsePortInfo (portListText es)) = es.map PortRange.value := by
    rw [val_parsePortInfo, hpieces, List.filterMap_map]
    refine List.filterMap_eq_map_iff_forall_eq_some.mpr (fun e _ => ?_)
    exact rangeIn_iff.mpr e.itemText
  refine ⟨hranges, ?_, fun port => ?_⟩
  · rw [parsePortInfo_fits, hpieces, rangesRoom_iff]
    refine ⟨fun t ht => ?_, fun pre t post heq _ => ?_⟩
    · obtain ⟨e, -, rfl⟩ := List.mem_map.mp ht
      exact Nat.lt_of_le_of_lt e.text_length.2 (by decide)
    · have hcount : pre.countP (fun u => WellFormed u) ≤ pre.length := List.countP_le_length
      have htotal := congrArg List.length heq
      rw [List.length_map, List.length_append, List.length_cons] at htotal
      omega
  · rw [hranges, afMatchPort_iff, or_iff_right (fun h => hne (List.map_eq_nil_iff.mp h))]
    simp only [List.mem_map, exists_exists_and_eq_and, forall_exists_index, and_imp, forall_apply_eq_imp_iff₂]
    rfl

/-- `!80-90|443`. -/
def mixedPorts : List PortRange :=
  [⟨true, 80, 90, false, by decide, by decide, by decide⟩, ⟨false, 443, 443, true, by decide, by decide, by decide⟩]

theorem port_list_round_trip_mixed :
    portListText mixedPorts = "!80-90|443".toList ∧
      val (parsePortInfo (portListText mixedPorts)) = [⟨true, 80, 90⟩, ⟨false, 443, 443⟩] :=
  ⟨by decide, (port_list_round_trip mixedPorts (by decide) (by decide)).1⟩

end OpenAppFilter.Theorems
