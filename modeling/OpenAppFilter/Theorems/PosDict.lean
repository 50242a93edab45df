import OpenAppFilter.Kernel.Feature

/-!
# The byte-position dictionary

`__add_app_feature` cuts the dictionary at its `|` and scans each entry in a
buffer of 64 bytes. The loop leaves at the fifteenth `|` with `begin` moved on
and `p` not, so the length of the last copy is -1; a single entry is copied by
`strcpy`. Below that, what is decoded is what is written, up to the range of an
`int`.
-/

namespace OpenAppFilter.Theorems

open Base Kernel Copying

/-! ## Copies to some of the buffers -/

/-- The copy fits, if it goes to one of these buffers. -/
def FitsIn (dsts : Buf → Prop) (c : Copy Buf) : Prop := dsts c.dst → c.Fits Buf.size

/-- All copies fit. -/
theorem every_fits_iff {α : Type} {x : Copying Buf α} :
    x.Every (Copy.Fits Buf.size) ↔ x.Every (FitsIn (fun _ => True)) :=
  forall₂_congr (fun _ _ => (imp_iff_right trivial).symm)

section

variable {dsts : Buf → Prop} {buf : Buf}

/-- Copies that end where their text ends, or at its NUL. -/
theorem fitsIn_mk {count : Int} {n : Nat} (hlo : 0 ≤ count) (hhi : count ≤ n + 1) :
    FitsIn dsts ⟨buf, count, n⟩ ↔ (dsts buf → n < buf.size) := by
  unfold FitsIn Copy.Fits
  refine imp_congr_right (fun _ => ?_)
  dsimp only
  omega

@[simp] theorem every_strcpy_iff {s : CStr} :
    (strcpy buf s).Every (FitsIn dsts) ↔ (dsts buf → s.length < buf.size) := by
  rw [every_strcpy, fitsIn_mk (by omega) (by omega)]

@[simp] theorem every_copyPiece_iff {s : CStr} :
    (copyPiece buf s).Every (FitsIn dsts) ↔ (dsts buf → s.length < buf.size) := by
  unfold copyPiece
  rw [every_strncpy, fitsIn_mk (by omega) (by omega)]

@[simp] theorem every_copyLast_iff {s : CStr} :
    (copyLast buf s).Every (FitsIn dsts) ↔ (dsts buf → s.length < buf.size) := by
  unfold copyLast
  rw [every_copy, fitsIn_mk (by omega) (by omega)]

@[simp] theorem every_fill_iff {i : Nat} :
    (fill buf i).Every (FitsIn dsts) ↔ (dsts buf → i < buf.size) := by
  unfold fill
  rw [every_copy, fitsIn_mk (by omega) (by omega)]

end

/-! ## Room for a dictionary -/

/-- At most fifteen entries, each shorter than 64 characters. -/
def DictRoom (dict : CStr) : Prop :=
  (cut '|' dict).1.length < 15 ∧ (∀ t ∈ (cut '|' dict).1, t.length < 64) ∧ (cut '|' dict).2.length < 64

instance (dict : CStr) : Decidable (DictRoom dict) := inferInstanceAs (Decidable (_ ∧ _))

theorem infos_read (st : PosScan) (t : CStr) : (st.read t).1.infos = st.infos := by
  unfold PosScan.read
  split <;> rfl

@[simp] theorem length_infos_store (st : PosScan) (t : CStr) :
    (st.read t).1.store.infos.length = st.infos.length + 1 := by
  unfold PosScan.store
  rw [List.length_append, infos_read, List.length_singleton]

/-- The loop leaves by its `break` at the fifteenth entry. -/
theorem dictLoop_broken {ps : List CStr} : ∀ {st : PosScan}, st.infos.length < 15 →
    ((val (dictLoop st ps)).2 = true ↔ 15 ≤ st.infos.length + ps.length) ∧
      (val (dictLoop st ps)).1.infos.length ≤ 15 := by
  induction ps with
  | nil =>
      intro st hst
      simp only [dictLoop, val_pure, Bool.false_eq_true, false_iff, List.length_nil]
      omega
  | cons t ps ih =>
      intro st hst
      unfold dictLoop maxPosInfoPerFeature
      simp only [val_bind, length_infos_store, List.length_cons]
      split
      · rw [val_pure, length_infos_store]
        exact ⟨⟨fun _ => by omega, fun _ => rfl⟩, by omega⟩
      · have hnext := @ih (st.read t).1.store (by rw [length_infos_store]; omega)
        rw [length_infos_store] at hnext
        refine ⟨hnext.1.trans ?_, hnext.2⟩
        omega

theorem length_infos_dictLoop {ps : List CStr} (h : ps.length < 15) :
    (val (dictLoop {} ps)).1.infos.length ≤ 15 ∧ (val (dictLoop {} ps)).2 = false := by
  have hbroken := @dictLoop_broken ps {} (by decide)
  refine ⟨hbroken.2, ?_⟩
  rw [Bool.eq_false_iff, ne_eq, hbroken.1]
  simp only [List.length_nil]
  omega

section

variable {dsts : Buf → Prop}

/-- Without the `break`, every entry is copied. -/
theorem dictLoop_every {ps : List CStr} : ∀ {st : PosScan}, st.infos.length + ps.length < 15 →
    ((dictLoop st ps).Every (FitsIn dsts) ↔ (dsts .pos → ∀ t ∈ ps, t.length < 64)) := by
  induction ps with
  | nil =>
      intro st _
      simp [dictLoop]
  | cons t ps ih =>
      intro st hst
      rw [List.length_cons] at hst
      have hfill : (fill .nodePosInfo st.infos.length).Every (FitsIn dsts) :=
        every_fill_iff.mpr (fun _ => show st.infos.length < 16 by omega)
      have hgo : ¬ maxPosInfoPerFeature - 1 ≤ (st.read t).1.store.infos.length := by
        rw [length_infos_store]
        unfold maxPosInfoPerFeature
        omega
      unfold dictLoop
      rw [every_bind, every_bind, every_copyPiece_iff, if_neg hgo,
        ih (by rw [length_infos_store]; omega), List.forall_mem_cons, and_iff_right hfill, ← forall_and]
      exact Iff.rfl

/-- The entries themselves are always in their table. -/
theorem dictLoop_table (hpos : ¬ dsts .pos) {ps : List CStr} : ∀ {st : PosScan}, st.infos.length < 15 →
    (dictLoop st ps).Every (FitsIn dsts) := by
  induction ps with
  | nil => exact fun _ => every_pure _ _
  | cons t ps ih =>
      intro st hst
      unfold dictLoop maxPosInfoPerFeature
      rw [every_bind, every_bind, every_copyPiece_iff, every_fill_iff]
      refine ⟨fun h => absurd h hpos, fun _ => show st.infos.length < 16 by omega, ?_⟩
      dsimp only
      split
      · exact every_pure _ _
      · rename_i hgo
        exact ih (by omega)

/-- A dictionary without a `|` that is seen is its last entry. -/
theorem cut_last_of_nil {sep : Char} {s : CStr} (h : (cut sep s).1 = []) : (cut sep s).2 = s := by
  have hjoin := joined_cut sep s
  rwa [h, joined_nil] at hjoin

/-- The last entry is copied by one function or the other. -/
theorem dictLast_every {dict : CStr} {st : PosScan} (hst : st.infos.length ≤ 15) :
    (dictLast dict st false).Every (FitsIn dsts) ↔ (dsts .pos → (cut '|' dict).2.length < 64) := by
  have hfill : (fill .nodePosInfo st.infos.length).Every (FitsIn dsts) :=
    every_fill_iff.mpr (fun _ => show st.infos.length < 16 by omega)
  have hcopy : (copyEntry dict).Every (FitsIn dsts) ↔ (dsts .pos → (cut '|' dict).2.length < 64) := by
    unfold copyEntry
    split
    · rename_i hnil
      rw [every_strcpy_iff, cut_last_of_nil hnil]
      exact Iff.rfl
    · exact every_copyLast_iff
  unfold dictLast
  rw [if_neg Bool.false_ne_true, every_bind, hcopy]
  refine and_iff_left ?_
  dsimp only
  split
  · rw [every_bind]
    exact ⟨hfill, every_pure _ _⟩
  · exact every_pure _ _

/-- **A dictionary is copied within its buffers** iff there is room for it. -/
theorem decodeDict_every (dict : CStr) :
    (decodeDict dict).Every (FitsIn dsts) ↔ (dsts .pos → DictRoom dict) := by
  unfold decodeDict DictRoom
  rw [every_bind, every_bind]
  simp only [every_pure, and_true]
  by_cases hroom : (cut '|' dict).1.length < 15
  · obtain ⟨hinfos, hstay⟩ := length_infos_dictLoop hroom
    rw [dictLoop_every (by simpa using hroom), hstay, dictLast_every hinfos, ← forall_and]
    exact imp_congr_right (fun _ => (and_iff_right hroom).symm)
  · have hleave : (val (dictLoop {} (cut '|' dict).1)).2 = true := by
      rw [(@dictLoop_broken (cut '|' dict).1 {} (by decide)).1]
      simp only [List.length_nil]
      omega
    have hlast : (dictLast dict (val (dictLoop {} (cut '|' dict).1)).1 true).Every (FitsIn dsts) ↔
        ¬ dsts .pos := by
      unfold dictLast
      rw [if_pos rfl, every_bind, every_copy]
      constructor
      · rintro ⟨hcopy, -⟩ hpos
        exact absurd (hcopy hpos).1 (by decide)
      · exact fun hpos => ⟨fun h => absurd h hpos, every_pure _ _⟩
    rw [hleave, hlast]
    constructor
    · rintro ⟨-, hpos⟩ h
      exact absurd h hpos
    · intro h
      have hpos : ¬ dsts .pos := fun hpos => hroom (h hpos).1
      exact ⟨dictLoop_table hpos (by decide), hpos⟩

end

/-! ## What is written -/

/-- An entry `p:v`: a decimal number, perhaps negative, and one or two hex
digits. -/
structure DictEntry where
  minus : Bool
  digits : CStr
  hex : CStr
  digits_ne : digits ≠ []
  digits_chars : ∀ c ∈ digits, c.isDigit = true
  hex_ne : hex ≠ []
  hex_short : hex.length ≤ 2
  hex_chars : ∀ c ∈ hex, isHex c = true

namespace DictEntry

def text (e : DictEntry) : CStr := (if e.minus then ['-'] else []) ++ e.digits ++ ':' :: e.hex

def pos (e : DictEntry) : Int := if e.minus then -(natPrefix e.digits : Int) else natPrefix e.digits

theorem text_ne (e : DictEntry) : e.text ≠ [] := by
  simp [text]

/-- What it says. -/
def info (e : DictEntry) : AfPosInfo := ⟨e.pos, UInt8.ofNat (hexPrefix e.hex)⟩

/-- What is stored: the position as an `int`. -/
def stored (e : DictEntry) : AfPosInfo := ⟨(Int32.ofInt e.pos).toInt, UInt8.ofNat (hexPrefix e.hex)⟩

/-- The position is an `int`. -/
def Ranged (e : DictEntry) : Prop := -2 ^ 31 ≤ e.pos ∧ e.pos < 2 ^ 31

theorem stored_eq_iff (e : DictEntry) : e.stored = e.info ↔ e.Ranged := by
  unfold stored info Ranged
  constructor
  · intro h
    have hpos : (Int32.ofInt e.pos).toInt = e.pos := congrArg AfPosInfo.pos h
    have hlo := (Int32.ofInt e.pos).minValue_le_toInt
    have hhi := (Int32.ofInt e.pos).toInt_le
    rw [hpos] at hlo hhi
    have hmin : Int32.minValue.toInt = -2147483648 := rfl
    have hmax : Int32.maxValue.toInt = 2147483647 := rfl
    omega
  · rintro ⟨hlo, hhi⟩
    rw [Int32.toInt_ofInt_of_le (by omega) (by omega)]

theorem hexVal_lt (c : Char) : (hexVal c).getD 0 < 16 := by
  unfold hexVal
  have hle : ∀ d : Char, c ≤ d → c.toNat ≤ d.toNat := fun d h => h
  split
  · rename_i h
    have hc := hle '9' h.2
    simp at hc ⊢
    omega
  · split
    · rename_i h
      have hc := hle 'f' h.2
      simp at hc ⊢
      omega
    · split
      · rename_i h
        have hc := hle 'F' h.2
        simp at hc ⊢
        omega
      · decide

/-- One or two hex digits are a byte. -/
theorem hexPrefix_lt (e : DictEntry) : hexPrefix e.hex < 256 := by
  have hne := e.hex_ne
  have hshort := e.hex_short
  unfold hexPrefix
  rw [List.takeWhile_eq_self_iff.mpr e.hex_chars]
  match e.hex, hne, hshort with
  | [h], _, _ =>
      have hh := hexVal_lt h
      simp
      omega
  | [h, l], _, _ =>
      have hh := hexVal_lt h
      have hl := hexVal_lt l
      simp
      omega

/-- The scan of an entry. -/
theorem scan_text (e : DictEntry) :
    kSscanf [.int, .lit ':', .hex] e.text = [Int32.ofInt e.pos, Int32.ofNat (hexPrefix e.hex)] := by
  have hstop : DigitStop (':' :: e.hex) := digitStop_cons (by decide) e.hex
  have hscan : scanNum isSpace e.text = some (Int32.ofInt e.pos, ':' :: e.hex) := by
    unfold text pos
    cases e.minus with
    | true =>
        rw [if_pos rfl, if_pos rfl, List.append_assoc]
        exact scanNum_minus rfl e.digits_ne e.digits_chars hstop
    | false =>
        rw [if_neg Bool.false_ne_true, if_neg Bool.false_ne_true, List.nil_append]
        exact scanNum_digits (fun c hc => (isSpace_of_isDigit hc).1) e.digits_ne e.digits_chars hstop
  obtain ⟨c, s, hs⟩ := List.exists_cons_of_ne_nil e.text_ne
  obtain ⟨h, hex, hhex⟩ := List.exists_cons_of_ne_nil e.hex_ne
  have hhexscan := scanHex_run e.hex_ne e.hex_chars
  rw [hhex] at hhexscan
  unfold kSscanf
  rw [hs] at hscan ⊢
  rw [vsscanf, hscan]
  dsimp only
  rw [vsscanf, if_pos rfl, hhex, vsscanf, hhexscan]
  rfl

/-- The entry is read in full and stored. -/
theorem read_text (e : DictEntry) (st : PosScan) :
    (st.read e.text).2 = 2 ∧ (st.read e.text).1.store.infos = st.infos ++ [e.stored] := by
  have hlt := e.hexPrefix_lt
  have hint : (Int32.ofNat (hexPrefix e.hex)).toInt = hexPrefix e.hex := by
    rw [← Int32.ofInt_eq_ofNat, Int32.toInt_ofInt_of_le (by omega) (by omega)]
  have hbyte : UInt8.ofInt (hexPrefix e.hex) = UInt8.ofNat (hexPrefix e.hex) := by
    unfold UInt8.ofInt
    congr 1
    omega
  unfold PosScan.read PosScan.store
  rw [e.scan_text]
  refine ⟨rfl, ?_⟩
  dsimp only
  rw [hint, hbyte]
  rfl

/-- No part of an entry is a separator. -/
theorem bar_not_mem_text (e : DictEntry) : '|' ∉ e.text := by
  have hdigits : '|' ∉ e.digits := fun h => absurd (e.digits_chars _ h) (by decide)
  have hhex : '|' ∉ e.hex := fun h => absurd (e.hex_chars _ h) (by decide)
  unfold text
  cases e.minus with
  | true => simp [hdigits, hhex]
  | false => simp [hdigits, hhex]

end DictEntry

/-- Entries with `|` between them. -/
def dictText (entries : List DictEntry) : CStr := ['|'].intercalate (entries.map DictEntry.text)

theorem cut_dictText (es : List DictEntry) (last : DictEntry) :
    cut '|' (dictText (es ++ [last])) = (es.map DictEntry.text, last.text) := by
  unfold dictText
  rw [List.map_append, List.map_singleton, intercalate_concat]
  refine cut_joined ?_ ?_ last.bar_not_mem_text
  · intro h
    obtain ⟨e, -, he⟩ := List.mem_map.mp (List.mem_of_head? h)
    exact e.text_ne he
  · intro t ht
    obtain ⟨e, -, rfl⟩ := List.mem_map.mp ht
    exact e.bar_not_mem_text

/-! ## Decoding -/

theorem dictLoop_entries {es : List DictEntry} : ∀ {st : PosScan}, st.infos.length + es.length < 15 →
    (val (dictLoop st (es.map DictEntry.text))).1.infos = st.infos ++ es.map DictEntry.stored := by
  induction es with
  | nil =>
      intro st _
      simp [dictLoop]
  | cons e es ih =>
      intro st hst
      rw [List.length_cons] at hst
      have hgo : ¬ maxPosInfoPerFeature - 1 ≤ (st.read e.text).1.store.infos.length := by
        rw [length_infos_store]
        unfold maxPosInfoPerFeature
        omega
      rw [List.map_cons, dictLoop, val_bind, val_bind]
      dsimp only
      rw [if_neg hgo, ih (by rw [length_infos_store]; omega), (e.read_text st).2, List.map_cons,
        List.append_assoc, List.singleton_append]

/-- **A dictionary of at most fifteen entries is decoded in full.** -/
theorem decodeDict_entries {entries : List DictEntry} (h : entries.length ≤ 15) :
    val (decodeDict (dictText entries)) = entries.map DictEntry.stored := by
  rcases List.eq_nil_or_concat entries with rfl | ⟨es, last, rfl⟩
  · rfl
  · rw [List.concat_eq_append] at h ⊢
    rw [List.length_append, List.length_singleton] at h
    have hloop := @dictLoop_entries es {} (by simp; omega)
    have hstay := (@length_infos_dictLoop (es.map DictEntry.text) (by rw [List.length_map]; omega)).2
    unfold decodeDict dictLast
    rw [cut_dictText, val_bind, hstay]
    dsimp only
    rw [if_neg Bool.false_ne_true, val_bind, val_bind, if_pos (last.read_text _).1, val_bind,
      val_pure, val_pure, (last.read_text _).2, hloop, List.map_append]
    rfl

/-- Room for a dictionary of entries. -/
theorem dictRoom_iff (entries : List DictEntry) :
    DictRoom (dictText entries) ↔ entries.length ≤ 15 ∧ ∀ e ∈ entries, e.text.length < 64 := by
  rcases List.eq_nil_or_concat entries with rfl | ⟨es, last, rfl⟩
  · exact iff_of_true (by decide) (by simp)
  · unfold DictRoom
    rw [List.concat_eq_append, cut_dictText, List.length_map, List.forall_mem_map, List.length_append,
      List.forall_mem_append, List.forall_mem_singleton, List.length_singleton]
    exact and_congr_left' (by omega)

/-! ## The node -/

/-- The node holds the first sixteen entries, and nothing is copied behind
`pos`. -/
def DictStored (r : Copying Buf (Option FeatureNode)) (entries : List DictEntry) : Prop :=
  (∃ node, val r = some node ∧ node.posInfo = (entries.map DictEntry.info).take 16) ∧
    r.Every (FitsIn (· = .pos))

section

variable (feature : CStr) (appid : Int32) (name : CStr) (proto : Nat) (srcPort : Int32)
  (dportInfo : List RangeValue) (hostUrl requestUrl searchStr : CStr) (ignore : Int32)

theorem addAppFeatureNode_posInfo (dict : CStr) : ∃ node,
    val (addAppFeatureNode true feature appid name proto srcPort dportInfo hostUrl requestUrl dict searchStr
      ignore) = some node ∧ node.posInfo = val (decodeDict dict) := ⟨_, rfl, rfl⟩

/-- What the node is filled with, and the dictionary. -/
theorem addAppFeatureNode_every {dsts : Buf → Prop} (dict : CStr) :
    (addAppFeatureNode true feature appid name proto srcPort dportInfo hostUrl requestUrl dict searchStr
        ignore).Every (FitsIn dsts) ↔
      ((dsts .nodeAppName → name.length < 64) ∧ (dsts .nodeHostUrl → hostUrl.length < 128) ∧
        (dsts .nodeRequestUrl → requestUrl.length < 128) ∧ (dsts .nodeSearchStr → searchStr.length < 32) ∧
        (dsts .nodeFeature → feature.length < 128)) ∧ (dsts .pos → DictRoom dict) := by
  unfold addAppFeatureNode
  rw [if_neg (by decide)]
  simp only [every_bind, every_pure, and_true, every_strcpy_iff, decodeDict_every, and_assoc]
  exact Iff.rfl

theorem addAppFeatureNode_every_pos (dict : CStr) :
    (addAppFeatureNode true feature appid name proto srcPort dportInfo hostUrl requestUrl dict searchStr
      ignore).Every (FitsIn (· = .pos)) ↔ DictRoom dict := by
  rw [addAppFeatureNode_every]
  simp

/-- **The dictionary is decoded completely** iff it has at most fifteen entries,
each shorter than `pos` and each with an `int` for its position. -/
theorem dict_decoded_iff (entries : List DictEntry) :
    DictStored (addAppFeatureNode true feature appid name proto srcPort dportInfo hostUrl requestUrl
        (dictText entries) searchStr ignore) entries ↔
      entries.length ≤ 15 ∧ (∀ e ∈ entries, e.text.length < 64) ∧ ∀ e ∈ entries, e.Ranged := by
  obtain ⟨node, hnode, hinfo⟩ := addAppFeatureNode_posInfo feature appid name proto srcPort dportInfo hostUrl
    requestUrl searchStr ignore (dictText entries)
  unfold DictStored
  rw [addAppFeatureNode_every_pos, dictRoom_iff, and_comm, and_assoc]
  refine and_congr_right (fun hcount => and_congr_right (fun _ => ?_))
  have htake : (entries.map DictEntry.info).take 16 = entries.map DictEntry.info :=
    List.take_of_length_le (by rw [List.length_map]; omega)
  have hiff : entries.map DictEntry.stored = entries.map DictEntry.info ↔ ∀ e ∈ entries, e.Ranged := by
    rw [List.map_inj_left]
    exact forall₂_congr (fun e _ => e.stored_eq_iff)
  rw [htake, ← hiff, ← decodeDict_entries hcount, ← hinfo]
  constructor
  · rintro ⟨node', hnode', hinfo'⟩
    obtain rfl := Option.some.inj (hnode.symm.trans hnode')
    exact hinfo'
  · exact fun h => ⟨node, hnode, h⟩

end

/-- The entry `0:1`. -/
def zeroOne : DictEntry where
  minus := false
  digits := ['0']
  hex := ['1']
  digits_ne := by decide
  digits_chars := List.forall_mem_singleton.mpr rfl
  hex_ne := by decide
  hex_short := by decide
  hex_chars := List.forall_mem_singleton.mpr rfl

/-- Sixteen entries, in 63 characters: the length of the last copy is -1. -/
theorem sixteen_entries_overrun :
    (dictText (List.replicate 16 zeroOne)).length = 63 ∧
      ⟨.pos, -1, 0⟩ ∈ copies (addAppFeatureNode true [] 1001 [] 6 0 [] [] []
        (dictText (List.replicate 16 zeroOne)) [] 0) ∧
      ¬ DictStored (addAppFeatureNode true [] 1001 [] 6 0 [] [] []
        (dictText (List.replicate 16 zeroOne)) [] 0) (List.replicate 16 zeroOne) := by
  have hcopy : ⟨.pos, -1, 0⟩ ∈ copies (addAppFeatureNode true [] 1001 [] 6 0 [] [] []
      (dictText (List.replicate 16 zeroOne)) [] 0) := by
    decide
  refine ⟨by decide, hcopy, fun h => ?_⟩
  have hfits := h.2 _ hcopy rfl
  exact absurd hfits (by decide)

end OpenAppFilter.Theorems
