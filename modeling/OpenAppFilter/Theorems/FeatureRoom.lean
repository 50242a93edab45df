import OpenAppFilter.Theorems.PosDict

/-!
# Room for a feature

What `add_app_feature` and the functions below it copy, as conditions on the
text of the feature: the fields that end at a `;` against the buffers they go
to, the ranges of the port list against their table, and the entries of the
dictionary.

The last field is looked at in two places only, so the fields that are used are
given by `paramsOf`.
-/

namespace OpenAppFilter.Theorems

open Base Kernel Copying

variable {dsts : Buf → Prop}

/-! ## Port lists -/

/-- The range a piece of a port list stands for. -/
def rangeIn (piece : CStr) : Option RangeValue := val (parseRangeValue 0 piece)

/-- The ranges that are filled are among the first five, with `n` of them read
already. A piece that holds no character but blanks, `!`, `-` and digits fills
one, and keeps it if it can be read. -/
def RangesRoom : Nat → List CStr → Prop
  | _, [] => True
  | n, t :: ts =>
      (validateRangeValue t = true → n < 5) ∧ RangesRoom (n + (rangeIn t).toList.length) ts

/-- Room for a port list. -/
def PortRoom (dport : CStr) : Prop :=
  RangesRoom 0 ((cut '|' (kTrim dport)).1 ++ [(cut '|' (kTrim dport)).2])

instance (n : Nat) (ts : List CStr) : Decidable (RangesRoom n ts) := by
  induction ts generalizing n with
  | nil => exact isTrue trivial
  | cons t ts ih => exact @instDecidableAnd _ _ _ (ih _)

instance (dport : CStr) : Decidable (PortRoom dport) := inferInstanceAs (Decidable (RangesRoom _ _))

theorem length_kTrim_le (s : CStr) : (kTrim s).length ≤ s.length :=
  (List.rdropWhile_prefix _ _).length_le.trans (List.dropWhile_suffix _).length_le

theorem val_parseRangeValue (n : Nat) (t : CStr) : val (parseRangeValue n t) = rangeIn t := by
  unfold rangeIn parseRangeValue
  split
  · rfl
  · rfl

@[simp] theorem val_addRange (ranges : List RangeValue) (t : CStr) :
    val (addRange ranges t) = ranges ++ (rangeIn t).toList := by
  unfold addRange
  rw [val_bind, val_pure, val_parseRangeValue]

theorem addRange_every {ranges : List RangeValue} {t : CStr} (ht : t.length < 128) :
    (addRange ranges t).Every (FitsIn dsts) ↔
      (dsts .rangeList → validateRangeValue t = true → ranges.length < 5) := by
  have htrim := length_kTrim_le t
  have htail := (List.tail_sublist (kTrim t)).length_le
  unfold addRange parseRangeValue
  rw [every_bind]
  simp only [every_pure, and_true]
  cases hvalid : validateRangeValue t with
  | false => simp
  | true =>
      rw [Bool.not_true, if_neg Bool.false_ne_true]
      simp only [every_bind, every_pure, and_true, every_fill_iff, every_strcpy_iff, forall_const]
      refine and_iff_left (fun _ => ?_)
      show _ < 128
      split
      · omega
      · omega

/-- The loop over the pieces and the last one. -/
theorem portLoop_every {last : CStr} (hlast : last.length < 128) {ts : List CStr} :
    ∀ {ranges : List RangeValue}, (∀ t ∈ ts, t.length < 128) →
      ((portLoop ranges ts >>= fun ranges => copyLast .onePortBuf last >>= fun _ =>
          addRange ranges last).Every (FitsIn dsts) ↔
        (dsts .rangeList → RangesRoom ranges.length (ts ++ [last]))) := by
  induction ts with
  | nil =>
      intro ranges _
      rw [portLoop, every_bind, every_bind, every_copyLast_iff, addRange_every hlast]
      simp only [every_pure, true_and, val_pure, List.nil_append, RangesRoom, and_true]
      exact and_iff_right (fun _ => hlast)
  | cons t ts ih =>
      intro ranges hts
      have ht := hts t List.mem_cons_self
      have hnext := @ih (ranges ++ (rangeIn t).toList) (fun u hu => hts u (List.mem_cons_of_mem _ hu))
      rw [List.length_append] at hnext
      rw [every_bind] at hnext ⊢
      rw [portLoop]
      simp only [every_bind, val_bind, every_copyPiece_iff, addRange_every ht, val_addRange] at hnext ⊢
      rw [and_assoc, and_assoc, hnext, List.cons_append, RangesRoom, ← forall_and]
      exact and_iff_right (fun _ => ht)

/-- **A port list is copied within its buffers** iff there is room for its
ranges. -/
theorem parsePortInfo_every {dport : CStr} (h : dport.length < 128) :
    (parsePortInfo dport).Every (FitsIn dsts) ↔ (dsts .rangeList → PortRoom dport) := by
  have htrim := length_kTrim_le dport
  have hlast := length_cut_last_le '|' (kTrim dport)
  unfold parsePortInfo PortRoom
  dsimp only
  split
  · rename_i hnil
    rw [hnil]
    simp [cut, RangesRoom]
  · exact portLoop_every (by omega) (fun t ht => by have hlt := length_lt_of_mem_cut ht; omega)

/-! ## Fields -/

/-- The field `i`, where it ends at a `;`. -/
def closedField (text : CStr) (i : Nat) : CStr := (cut ';' text).1.getD i []

theorem closedField_of_cut {text last : CStr} {ts : List CStr} (h : cut ';' text = (ts, last)) (i : Nat) :
    closedField text i = ts.getD i [] := by
  unfold closedField
  rw [h]

/-- What the buffers hold in the end: the last field is the dictionary when it is
the sixth, and `ignore` when it is the eighth. -/
def paramsOf (text : CStr) : Params where
  protoStr := closedField text 0
  srcPortStr := closedField text 1
  dstPortStr := closedField text 2
  hostUrl := closedField text 3
  requestUrl := closedField text 4
  dict := if (cut ';' text).1.length = 5 then (cut ';' text).2 else closedField text 5
  searchStr := closedField text 6
  ignore := kAtoi (if (cut ';' text).1.length = 7 then (cut ';' text).2 else closedField text 7)

/-- Fields behind the eighth are skipped. -/
theorem val_paramLoop_skip {pieces : List CStr} : ∀ {n : Nat} {ps : Params}, 8 ≤ n →
    val (paramLoop n ps pieces) = ps := by
  induction pieces with
  | nil => exact fun _ => rfl
  | cons t pieces ih =>
      intro n ps hn
      have hset : ps.set n t = ps := by
        unfold Params.set
        split
        all_goals first | omega | rfl
      rw [paramLoop, val_bind, hset, ih (by omega)]

/-- Each field goes to its buffer. -/
theorem val_paramLoop (pieces : List CStr) :
    val (paramLoop 0 {} pieces) =
      { protoStr := pieces.getD 0 []
        srcPortStr := pieces.getD 1 []
        dstPortStr := pieces.getD 2 []
        hostUrl := pieces.getD 3 []
        requestUrl := pieces.getD 4 []
        dict := pieces.getD 5 []
        searchStr := pieces.getD 6 []
        ignore := kAtoi (pieces.getD 7 []) } := by
  match pieces with
  | [] => rfl
  | [_] => rfl
  | [_, _] => rfl
  | [_, _, _] => rfl
  | [_, _, _, _] => rfl
  | [_, _, _, _, _] => rfl
  | [_, _, _, _, _, _] => rfl
  | [_, _, _, _, _, _, _] => rfl
  | _ :: _ :: _ :: _ :: _ :: _ :: _ :: _ :: pieces =>
      simp only [paramLoop, val_bind]
      rw [val_paramLoop_skip (Nat.le_refl 8)]
      rfl

theorem val_lastParam (text : CStr) :
    val (lastParam (cut ';' text).1.length (val (paramLoop 0 {} (cut ';' text).1)) (cut ';' text).2) =
      paramsOf text := by
  rw [val_paramLoop]
  unfold lastParam paramsOf closedField
  by_cases h5 : (cut ';' text).1.length = 5
  · have h7 : (cut ';' text).1.length ≠ 7 := by omega
    rw [if_pos h5, if_pos h5, if_neg h7]
    rfl
  · by_cases h7 : (cut ';' text).1.length = 7
    · rw [if_neg h5, if_pos h7, if_neg h5, if_pos h7]
      rfl
    · rw [if_neg h5, if_neg h7, if_neg h5, if_neg h7]
      rfl

/-- The fields that end at a `;` are shorter than their buffers. -/
def FieldsRoom (text : CStr) : Prop := ∀ i < 8, ∀ buf ∈ paramBuf i, (closedField text i).length < buf.size

instance (text : CStr) : Decidable (FieldsRoom text) := inferInstanceAs (Decidable (∀ i < 8, _))

theorem lt_of_paramBuf {i : Nat} {buf : Buf} (h : paramBuf i = some buf) : i < 8 ∧ 0 < buf.size := by
  unfold paramBuf at h
  split at h
  all_goals first
    | (obtain rfl := Option.some.inj h; decide)
    | exact absurd h (by simp)

/-- Field by field. -/
theorem fieldsRoom_of {text : CStr}
    (hshort : (closedField text 0).length < 16 ∧ (closedField text 1).length < 16 ∧
      (closedField text 2).length < 16 ∧ (closedField text 3).length < 32)
    (hlong : (closedField text 4).length < 128 ∧ (closedField text 5).length < 128 ∧
      (closedField text 6).length < 128 ∧ (closedField text 7).length < 128) : FieldsRoom text := by
  obtain ⟨h0, h1, h2, h3⟩ := hshort
  obtain ⟨h4, h5, h6, h7⟩ := hlong
  intro i hi buf hbuf
  match i, hi with
  | 0, _ =>
      obtain rfl := Option.some.inj hbuf
      exact h0
  | 1, _ =>
      obtain rfl := Option.some.inj hbuf
      exact h1
  | 2, _ =>
      obtain rfl := Option.some.inj hbuf
      exact h2
  | 3, _ =>
      obtain rfl := Option.some.inj hbuf
      exact h3
  | 4, _ =>
      obtain rfl := Option.some.inj hbuf
      exact h4
  | 5, _ =>
      obtain rfl := Option.some.inj hbuf
      exact h5
  | 6, _ =>
      obtain rfl := Option.some.inj hbuf
      exact h6
  | 7, _ =>
      obtain rfl := Option.some.inj hbuf
      exact h7

theorem fieldsRoom_iff (text : CStr) :
    FieldsRoom text ↔
      ∀ i t buf, (cut ';' text).1[i]? = some t → paramBuf i = some buf → t.length < buf.size := by
  constructor
  · intro h i t buf ht hbuf
    have hlt := h i (lt_of_paramBuf hbuf).1 buf hbuf
    unfold closedField at hlt
    rwa [List.getD_eq_getElem?_getD, ht, Option.getD_some] at hlt
  · intro h i _ buf hbuf
    unfold closedField
    rw [List.getD_eq_getElem?_getD]
    cases ht : (cut ';' text).1[i]? with
    | none => exact (lt_of_paramBuf hbuf).2
    | some t => exact h i t buf ht hbuf

theorem copyParam_every {i : Nat} {t : CStr} :
    (copyParam i t).Every (FitsIn dsts) ↔ ∀ buf, paramBuf i = some buf → dsts buf → t.length < buf.size := by
  unfold copyParam
  cases hbuf : paramBuf i with
  | none => simp
  | some buf => simp

theorem paramLoop_every {pieces : List CStr} : ∀ {n : Nat} {ps : Params},
    (paramLoop n ps pieces).Every (FitsIn dsts) ↔
      ∀ i t buf, pieces[i]? = some t → paramBuf (n + i) = some buf → dsts buf → t.length < buf.size := by
  induction pieces with
  | nil =>
      intro n ps
      simp [paramLoop]
  | cons t pieces ih =>
      intro n ps
      rw [paramLoop, every_bind, copyParam_every, ih]
      constructor
      · rintro ⟨hfirst, hrest⟩ i u buf hu hbuf
        cases i with
        | zero =>
            obtain rfl := Option.some.inj hu
            exact hfirst buf hbuf
        | succ i => exact hrest i u buf hu (by rwa [Nat.add_assoc, Nat.add_comm 1 i])
      · intro h
        refine ⟨fun buf hbuf => h 0 t buf rfl hbuf, fun i u buf hu hbuf => h (i + 1) u buf hu ?_⟩
        rwa [Nat.add_assoc, Nat.add_comm 1 i] at hbuf

theorem lastParam_every {n : Nat} {ps : Params} {last : CStr} (hdict : dsts .dict) (htmp : dsts .tmpBuf) :
    (lastParam n ps last).Every (FitsIn dsts) ↔ (n = 5 ∨ n = 7 → last.length < 128) := by
  unfold lastParam
  split
  · rename_i h5
    rw [every_bind, every_copyLast_iff]
    simp only [every_pure, and_true, hdict, h5, true_or, forall_const]
    exact Iff.rfl
  · rename_i h5
    split
    · rename_i h7
      rw [every_bind, every_copyLast_iff]
      simp only [every_pure, and_true, htmp, h7, or_true, forall_const]
      exact Iff.rfl
    · rename_i h7
      simp [h5, h7]

/-! ## A feature -/

/-- The protocol is one of the two that are supported. -/
def Supported (text : CStr) : Prop := (protoOf (closedField text 0)).isSome = true

/-- Room in the buffers for the fields, and in the node for the texts of a
feature that is added. -/
structure FeatureRoom (name text : CStr) : Prop where
  fields : FieldsRoom text
  last : (cut ';' text).1.length = 5 ∨ (cut ';' text).1.length = 7 → (cut ';' text).2.length < 128
  node : Supported text → name.length < 64 ∧ (closedField text 6).length < 32 ∧ text.length < 128

/-- Room for the port list and for the dictionary. -/
structure ListsRoom (text : CStr) : Prop where
  ports : PortRoom (closedField text 2)
  dict : DictRoom (paramsOf text).dict

instance (text : CStr) : Decidable (Supported text) := inferInstanceAs (Decidable (_ = _))

instance (name text : CStr) : Decidable (FeatureRoom name text) :=
  decidable_of_iff
    (FieldsRoom text ∧
      ((cut ';' text).1.length = 5 ∨ (cut ';' text).1.length = 7 → (cut ';' text).2.length < 128) ∧
      (Supported text → name.length < 64 ∧ (closedField text 6).length < 32 ∧ text.length < 128))
    ⟨fun h => ⟨h.1, h.2.1, h.2.2⟩, fun h => ⟨h.fields, h.last, h.node⟩⟩

instance (text : CStr) : Decidable (ListsRoom text) :=
  decidable_of_iff (PortRoom (closedField text 2) ∧ DictRoom (paramsOf text).dict)
    ⟨fun h => ⟨h.1, h.2⟩, fun h => ⟨h.ports, h.dict⟩⟩

/-- The destinations with a text that comes from the line in one piece. -/
def TextBuf (buf : Buf) : Prop :=
  buf ∈ [.feature, .protoStr, .srcPortStr, .dstPortStr, .hostUrl, .requestUrl, .dict, .searchStr, .tmpBuf,
    .nodeAppName, .nodeSearchStr, .nodeFeature]

instance (buf : Buf) : Decidable (TextBuf buf) := inferInstanceAs (Decidable (_ ∈ _))

theorem textBuf_of_paramBuf {i : Nat} {buf : Buf} (h : paramBuf i = some buf) : TextBuf buf := by
  unfold paramBuf at h
  split at h
  all_goals first
    | (obtain rfl := Option.some.inj h; decide)
    | exact absurd h (by simp)

section

variable {appid : Int32} {name text : CStr}

/-- The node is filled with texts that are in their buffers. -/
theorem addAppFeatureNode_params (hfields : FieldsRoom text) (htexts : ∀ buf, TextBuf buf → dsts buf)
    (proto : Nat) (dportInfo : List RangeValue) :
    (addAppFeatureNode true text appid name proto (srcPortOf (paramsOf text).srcPortStr) dportInfo
        (paramsOf text).hostUrl (paramsOf text).requestUrl (paramsOf text).dict (paramsOf text).searchStr
        (paramsOf text).ignore).Every (FitsIn dsts) ↔
      (name.length < 64 ∧ (closedField text 6).length < 32 ∧ text.length < 128) ∧
        (dsts .pos → DictRoom (paramsOf text).dict) := by
  have hhost : (paramsOf text).hostUrl.length < 32 := hfields 3 (by decide) .hostUrl rfl
  have hrequest : (paramsOf text).requestUrl.length < 128 :=
    hfields 4 (by decide) .requestUrl rfl
  have hname := htexts .nodeAppName (by decide)
  have hsearch := htexts .nodeSearchStr (by decide)
  have hfeature := htexts .nodeFeature (by decide)
  rw [addAppFeatureNode_every]
  refine and_congr_left' ?_
  constructor
  · rintro ⟨h1, -, -, h2, h3⟩
    exact ⟨h1 hname, h2 hsearch, h3 hfeature⟩
  · rintro ⟨h1, h2, h3⟩
    exact ⟨fun _ => h1, fun _ => by omega, fun _ => hrequest, fun _ => h2, fun _ => h3⟩

/-- **A feature is copied within its buffers** iff there is room for it. -/
theorem addAppFeature_every (htexts : ∀ buf, TextBuf buf → dsts buf) (hlen : 8 ≤ text.length) :
    (addAppFeature true appid name text).Every (FitsIn dsts) ↔
      FeatureRoom name text ∧
        (Supported text → (dsts .rangeList → PortRoom (closedField text 2)) ∧
          (dsts .pos → DictRoom (paramsOf text).dict)) := by
  have hparams : (paramLoop 0 {} (cut ';' text).1).Every (FitsIn dsts) ↔ FieldsRoom text := by
    rw [paramLoop_every, fieldsRoom_iff]
    constructor
    · exact fun h i t buf ht hbuf =>
        h i t buf ht (by rwa [Nat.zero_add]) (htexts buf (textBuf_of_paramBuf hbuf))
    · exact fun h i t buf ht hbuf _ => h i t buf ht (by rwa [Nat.zero_add] at hbuf)
  unfold addAppFeature minFeatureStrLen
  rw [if_neg (by omega)]
  dsimp only
  rw [every_bind, every_bind, hparams, val_lastParam,
    lastParam_every (htexts .dict (by decide)) (htexts .tmpBuf (by decide))]
  by_cases hfields : FieldsRoom text
  · have hdport : (closedField text 2).length < 128 :=
      Nat.lt_trans (hfields 2 (by decide) .dstPortStr rfl)
        (by decide : Buf.size .dstPortStr < 128)
    cases hproto : protoOf (paramsOf text).protoStr with
    | none =>
        have hno : ¬ Supported text := by
          unfold Supported
          rw [show protoOf (closedField text 0) = none from hproto]
          exact Bool.false_ne_true
        simp only [every_pure, and_true, hno, false_imp_iff]
        exact ⟨fun h => ⟨h.1, h.2, fun h => absurd h hno⟩, fun h => ⟨h.fields, h.last⟩⟩
    | some proto =>
        have hyes : Supported text := by
          unfold Supported
          rw [show protoOf (closedField text 0) = some proto from hproto]
          rfl
        dsimp only
        rw [every_bind, addAppFeatureNode_params hfields htexts]
        rw [show (paramsOf text).dstPortStr = closedField text 2 from rfl, parsePortInfo_every hdport]
        constructor
        · rintro ⟨-, hlast, hports, hnode, hdict⟩
          exact ⟨⟨hfields, hlast, fun _ => hnode⟩, fun _ => ⟨hports, hdict⟩⟩
        · rintro ⟨hroom, hlists⟩
          exact ⟨hfields, hroom.last, (hlists hyes).1, hroom.node hyes, (hlists hyes).2⟩
  · constructor
    · exact fun h => absurd h.1 hfields
    · exact fun h => absurd h.1.fields hfields

/-- Without memory for the node there are fewer copies. -/
theorem addAppFeature_every_memory {p : Copy Buf → Prop} (h : (addAppFeature true appid name text).Every p)
    (memory : Bool) : (addAppFeature memory appid name text).Every p := by
  cases memory with
  | true => exact h
  | false =>
      unfold addAppFeature at h ⊢
      split
      · exact every_pure _ _
      · rename_i hlen
        rw [if_neg hlen] at h
        dsimp only at h ⊢
        rw [every_bind, every_bind] at h ⊢
        refine ⟨h.1, h.2.1, ?_⟩
        have hrest := h.2.2
        split
        · exact every_pure _ _
        · rename_i proto hproto
          rw [hproto] at hrest
          dsimp only at hrest
          rw [every_bind] at hrest ⊢
          exact ⟨hrest.1, every_pure _ _⟩

end

end OpenAppFilter.Theorems
