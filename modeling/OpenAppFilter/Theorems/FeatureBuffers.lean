import OpenAppFilter.Theorems.FeatureLine
import OpenAppFilter.Theorems.FeatureRoom

/-!
# Feature parsing and its buffers

The fields of a feature are copied into local buffers of 16, 32 and 128 bytes
without a look at their length, the search text goes on into 32 bytes of the
node, and the one length check there is takes the number of bytes in front of a
comma for an index: a feature of 128 characters, or a last one of 127, has its
terminator behind the buffer.

`FeatureLineRoom` says of a line that no feature is reached that any of this happens
to. It is the exact condition.
-/

namespace OpenAppFilter.Theorems

open Base Kernel Copying

/-! ## Room for a line -/

/-- Room for the pieces between the commas: those that are too long for the
length check end the line, all others have room for their terminator, and for
what is done with them. -/
def PiecesRoom (room : CStr → Prop) : List CStr → CStr → Prop
  | [], last => last.length ≤ 127 → last.length < 127 ∧ room last
  | t :: ts, last => t.length ≤ 128 → (t.length < 128 ∧ room t) ∧ PiecesRoom room ts last

/-- Room for the features of a line. -/
def FeatureLineRoom (room : CStr → Prop) (line : CStr) : Prop :=
  '#' ∉ line → PiecesRoom room (cut ',' (featureText line)).1 (cut ',' (featureText line)).2

/-- Room for the texts of a feature, if it is long enough to be looked at. -/
def TextsRoom (t : CStr) : Prop := 8 ≤ t.length → FeatureRoom [] t

/-- Room for its port list and its dictionary as well. -/
def TextsAndListsRoom (t : CStr) : Prop := 8 ≤ t.length → FeatureRoom [] t ∧ (Supported t → ListsRoom t)

/-! ## The features of a line -/

section

variable {dsts : Buf → Prop} {room : CStr → Prop} {appid : Int32}

/-- The condition `room` is what `add_app_feature` needs for a feature that is in
its buffer. -/
def Covers (dsts : Buf → Prop) (room : CStr → Prop) : Prop :=
  ∀ appid t, t.length < 128 → ((addAppFeature true appid [] t).Every (FitsIn dsts) ↔ room t)

theorem callFeature_every {p : Copy Buf → Prop} {memory : Nat → Bool} {i : Nat} {name t : CStr} :
    (callFeature memory i appid name t).Every p ↔ (addAppFeature (memory i) appid name t).Every p := by
  unfold callFeature
  rw [every_bind]
  exact and_iff_left (every_pure _ _)

/-- A terminator at the index that is the length of the text. -/
theorem every_copyFeature_iff {t : CStr} (h : dsts .feature) :
    (copyPiece .feature t).Every (FitsIn dsts) ↔ t.length < 128 := by
  rw [every_copyPiece_iff]
  exact ⟨fun hlt => hlt h, fun hlt _ => hlt⟩

theorem lastFeature_every (hfeature : dsts .feature) (hroom : Covers dsts room) {i : Nat} {last : CStr} :
    (lastFeature (fun _ => true) i appid [] last).Every (FitsIn dsts) ↔
      (last.length ≤ 127 → last.length < 127 ∧ room last) := by
  unfold lastFeature maxFeatureStrLen
  by_cases hlen : last.length ≤ 127
  · have hcopy : (copy Buf.feature (last.length + 1) (last.length + 1)).Every (FitsIn dsts) ↔
        last.length < 127 := by
      rw [every_copy]
      constructor
      · intro h
        have hstop : ((last.length : Int) + 1) < (128 : Nat) := (h hfeature).2.2
        omega
      · intro h _
        refine ⟨?_, ?_, ?_⟩
        · show (0 : Int) ≤ last.length + 1
          omega
        · show (last.length : Int) + 1 ≤ (128 : Nat)
          omega
        · show (last.length : Int) + 1 < (128 : Nat)
          omega
    rw [if_neg (by omega), every_bind, every_bind, hcopy, callFeature_every, hroom appid last (by omega)]
    simp only [every_pure, and_true, hlen, forall_const]
  · rw [if_pos (by omega)]
    exact iff_of_true (every_pure _ _) (fun h => absurd h hlen)

/-- The comma splitter stays in its buffers iff there is room for the pieces. -/
theorem featureLoop_every (hfeature : dsts .feature) (hroom : Covers dsts room) {last : CStr} {ts : List CStr} :
    ∀ {i : Nat}, (featureLoop (fun _ => true) appid [] last i ts).Every (FitsIn dsts) ↔
      PiecesRoom room ts last := by
  induction ts with
  | nil => exact lastFeature_every hfeature hroom
  | cons t ts ih =>
      intro i
      unfold featureLoop PiecesRoom maxFeatureStrLen
      by_cases hlen : t.length ≤ 128
      · rw [if_neg (by omega), every_bind, every_bind, every_bind, every_copyFeature_iff hfeature,
          callFeature_every, ih]
        simp only [every_pure, and_true, hlen, forall_const]
        rw [← and_assoc]
        exact and_congr_left' (and_congr_right (fun h => hroom appid t h))
      · rw [if_pos (by omega)]
        exact iff_of_true (every_pure _ _) (fun h => absurd h hlen)

/-- Where `kzalloc` fails there are fewer copies. -/
theorem featureLoop_memory {p : Copy Buf → Prop} (memory : Nat → Bool) {name last : CStr} {ts : List CStr} :
    ∀ {i : Nat}, (featureLoop (fun _ => true) appid name last i ts).Every p →
      (featureLoop memory appid name last i ts).Every p := by
  induction ts with
  | nil =>
      intro i h
      unfold featureLoop lastFeature at h ⊢
      split
      · exact every_pure _ _
      · rename_i hlen
        rw [if_neg hlen, every_bind, every_bind, callFeature_every] at h
        rw [every_bind, every_bind, callFeature_every]
        exact ⟨h.1, addAppFeature_every_memory h.2.1 _, every_pure _ _⟩
  | cons t ts ih =>
      intro i h
      unfold featureLoop at h ⊢
      split
      · exact every_pure _ _
      · rename_i hlen
        rw [if_neg hlen, every_bind, every_bind, every_bind, callFeature_every] at h
        rw [every_bind, every_bind, every_bind, callFeature_every]
        exact ⟨h.1, addAppFeature_every_memory h.2.1 _, ih h.2.2.1, every_pure _ _⟩

/-- The whole line, whatever the allocations give. -/
theorem afInitFeature_every (hfeature : dsts .feature) (hroom : Covers dsts room) {line : CStr}
    (hline : line.length < 600) :
    (∀ buffer memory stale, (afInitFeature buffer memory stale line).Every (FitsIn dsts)) ↔
      FeatureLineRoom room line := by
  have hbuf : (copyFeatureBuf line).Every (FitsIn dsts) := fun c hc _ => copyFeatureBuf_fits hline c hc
  unfold FeatureLineRoom
  constructor
  · intro h hhash
    have hall := h true (fun _ => true) 0
    unfold afInitFeature at hall
    rw [strstr_singleton, decide_eq_false hhash, if_neg (by decide), if_neg Bool.false_ne_true,
      every_bind] at hall
    exact (featureLoop_every hfeature hroom).mp hall.2
  · intro h buffer memory stale
    unfold afInitFeature
    split
    · exact every_pure _ _
    · split
      · exact every_pure _ _
      · rename_i hhash
        rw [strstr_singleton, decide_eq_true_iff] at hhash
        rw [every_bind]
        exact ⟨hbuf, featureLoop_memory memory ((featureLoop_every hfeature hroom).mpr (h hhash))⟩

end

/-! ## The two readings -/

/-- What a feature needs, for buffers that include those of the texts. -/
theorem covers_of_texts {dsts : Buf → Prop} (htexts : ∀ buf, TextBuf buf → dsts buf) :
    Covers dsts (fun t => 8 ≤ t.length → FeatureRoom [] t ∧
      (Supported t → (dsts .rangeList → PortRoom (closedField t 2)) ∧
        (dsts .pos → DictRoom (paramsOf t).dict))) := by
  intro appid t _
  by_cases hlen : 8 ≤ t.length
  · rw [addAppFeature_every htexts hlen]
    exact (imp_iff_right hlen).symm
  · have hshort : (addAppFeature true appid [] t).Every (FitsIn dsts) := by
      unfold addAppFeature minFeatureStrLen
      rw [if_pos (by omega)]
      exact every_pure _ _
    exact iff_of_true hshort (fun h => absurd h hlen)

theorem covers_texts : Covers TextBuf TextsRoom := by
  intro appid t ht
  rw [covers_of_texts (fun _ h => h) appid t ht]
  refine imp_congr_right (fun _ => and_iff_left ?_)
  exact fun _ => ⟨fun h => absurd h (by decide), fun h => absurd h (by decide)⟩

theorem covers_all : Covers (fun _ => True) TextsAndListsRoom := by
  intro appid t ht
  rw [covers_of_texts (fun _ _ => trivial) appid t ht]
  refine imp_congr_right (fun _ => and_congr_right (fun _ => imp_congr_right (fun _ => ?_)))
  exact ⟨fun h => ⟨h.1 trivial, h.2 trivial⟩, fun h => ⟨fun _ => h.ports, fun _ => h.dict⟩⟩

/-- The handler passes on less than 600 bytes. -/
theorem length_lt_of_handle {data : List Char} {len : Int} {line : CStr}
    (h : afAddFeatureMsgHandle data len = some (.initFeature line)) : line.length < 600 := by
  unfold afAddFeatureMsgHandle maxFeatureLineLen at h
  split at h
  · exact absurd h (by simp)
  · rename_i hlen
    obtain rfl : cString (data.take len.toNat) = line := KernelCall.initFeature.inj (Option.some.inj h)
    have hle := cString_length_le (data.take len.toNat)
    rw [List.length_take] at hle
    omega

/-- **Feature parsing respects every buffer** on a line the handler accepts, iff
there is room for the texts of the features that are reached; and it does so with
its tables and its scratch buffers too, iff there is room for the port lists and
the dictionaries as well. -/
theorem feature_buffers_iff (data : List Char) (len : Int) (line : CStr)
    (h : afAddFeatureMsgHandle data len = some (.initFeature line)) :
    ((∀ buffer memory stale, (afInitFeature buffer memory stale line).Every (FitsIn TextBuf)) ↔
        FeatureLineRoom TextsRoom line) ∧
      ((∀ buffer memory stale, (afInitFeature buffer memory stale line).Every (Copy.Fits Buf.size)) ↔
        FeatureLineRoom TextsAndListsRoom line) := by
  have hline := length_lt_of_handle h
  refine ⟨afInitFeature_every (by decide) covers_texts hline, ?_⟩
  simp only [every_fits_iff]
  exact afInitFeature_every trivial covers_all hline

/-! ## Lines -/

instance (room : CStr → Prop) [DecidablePred room] (ts : List CStr) (last : CStr) :
    Decidable (PiecesRoom room ts last) := by
  induction ts with
  | nil => exact inferInstanceAs (Decidable (_ → _))
  | cons t ts ih => exact inferInstanceAs (Decidable (_ → (_ ∧ _) ∧ _))

instance (room : CStr → Prop) [DecidablePred room] (line : CStr) : Decidable (FeatureLineRoom room line) :=
  inferInstanceAs (Decidable (_ → _))

instance : DecidablePred TextsRoom := fun t => inferInstanceAs (Decidable (_ → FeatureRoom [] t))

instance : DecidablePred TextsAndListsRoom := fun t =>
  inferInstanceAs (Decidable (_ → FeatureRoom [] t ∧ (Supported t → ListsRoom t)))

def shortLine : CStr := "1001 QQ:[tcp;;443;qq.com;;0:16|-1:03,udp;;8000-8010;;;;abc;1]".toList

theorem feature_buffers_short_line :
    (∀ buffer memory stale, (afInitFeature buffer memory stale shortLine).Every (FitsIn TextBuf)) ∧
      ∀ buffer memory stale, (afInitFeature buffer memory stale shortLine).Every (Copy.Fits Buf.size) := by
  have hhandle : afAddFeatureMsgHandle shortLine 61 = some (.initFeature shortLine) := by decide
  have hiff := feature_buffers_iff shortLine 61 shortLine hhandle
  exact ⟨hiff.1.mpr (by decide +kernel), hiff.2.mpr (by decide +kernel)⟩

/-- A host name of 38 characters. -/
def longHostLine : CStr := "1001 QQ:[tcp;;443;abcdefghijklmnopqrstuvwxyz.example.com;;]".toList

/-- `strncpy` writes 38 bytes into the 32 of `host_url`. -/
theorem long_host_overflows :
    afAddFeatureMsgHandle longHostLine longHostLine.length = some (.initFeature longHostLine) ∧
      ⟨.hostUrl, 38, 38⟩ ∈ copies (afInitFeature true (fun _ => true) 0 longHostLine) ∧
      ¬ (afInitFeature true (fun _ => true) 0 longHostLine).Every (FitsIn TextBuf) := by
  have hcopy : ⟨.hostUrl, 38, 38⟩ ∈ copies (afInitFeature true (fun _ => true) 0 longHostLine) := by
    decide +kernel
  refine ⟨by decide, hcopy, fun h => ?_⟩
  have hfits := h _ hcopy (by decide)
  exact absurd hfits (by decide)

end OpenAppFilter.Theorems
