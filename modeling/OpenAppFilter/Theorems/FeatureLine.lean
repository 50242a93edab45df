import OpenAppFilter.Kernel.Feature

/-!
# A feature line yields its features

`af_init_feature` takes the text between the last `[` and the last `]` and cuts
it at its commas. Neither loop looks at the first character of its text, and the
second one ends one behind the NUL, so that its last piece counts for one more
than the others. With one pair of brackets and features of 1 to 126 characters
none of this shows.
-/

namespace OpenAppFilter.Theorems

open Base Kernel Copying

/-! ## The bracket finder -/

/-- None of the characters the finder looks for. -/
def NoBracket (s : CStr) : Prop := ∀ c ∈ s, c ≠ '[' ∧ c ≠ ']'

theorem bracketLoop_append {w : CStr} (hw : NoBracket w) (pos : Option CStr) (off len : Nat) (rest : CStr) :
    bracketLoop pos off len (w ++ rest) = bracketLoop pos (off + w.length) len rest := by
  induction w generalizing off with
  | nil => rfl
  | cons c w ih =>
      obtain ⟨hopen, hclose⟩ := hw c List.mem_cons_self
      rw [List.cons_append, bracketLoop, if_neg hopen, if_neg (fun h => hclose h.1),
        ih (fun d hd => hw d (List.mem_cons_of_mem _ hd)), List.length_cons]
      congr 1
      omega

/-- One pair of brackets, behind the first character. -/
theorem findBrackets_pair {c : Char} {a x b : CStr} (ha : NoBracket a) (hx : NoBracket x) (hb : NoBracket b) :
    findBrackets (c :: a ++ '[' :: (x ++ ']' :: b)) = (some (x ++ ']' :: b), x.length) := by
  unfold findBrackets
  rw [List.cons_append, List.tail_cons, bracketLoop_append ha, bracketLoop, if_pos rfl,
    bracketLoop_append hx, bracketLoop, if_neg (by decide), if_pos ⟨rfl, rfl⟩, Nat.zero_add]
  have hend := bracketLoop_append hb (some (x ++ ']' :: b)) (x.length + 1) x.length []
  rw [List.append_nil] at hend
  rw [hend, bracketLoop]

theorem featureText_pair {c : Char} {a x b : CStr} (ha : NoBracket a) (hx : NoBracket x) (hb : NoBracket b) :
    featureText (c :: a ++ '[' :: (x ++ ']' :: b)) = x := by
  unfold featureText
  rw [findBrackets_pair ha hx hb]
  exact List.take_left

/-- The length between the brackets is not more than what is behind the first
character. -/
theorem bracketLoop_le {s : CStr} {m : Nat} : ∀ {pos : Option CStr} {off len : Nat}, off + s.length ≤ m →
    len ≤ m → (bracketLoop pos off len s).2 ≤ m := by
  induction s with
  | nil => exact fun _ hlen => hlen
  | cons c s ih =>
      intro pos off len hoff hlen
      rw [List.length_cons] at hoff
      unfold bracketLoop
      split
      · exact ih (by omega) hlen
      · split
        · exact ih (by omega) (by omega)
        · exact ih (by omega) hlen

/-- `feature_buf` has room for what is between the brackets. -/
theorem copyFeatureBuf_fits {line : CStr} (h : line.length < 600) :
    (copyFeatureBuf line).Every (Copy.Fits Buf.size) := by
  have htail := (List.tail_sublist line).length_le
  have hlen : (findBrackets line).2 ≤ 599 := bracketLoop_le (by omega) (by omega)
  unfold copyFeatureBuf
  split
  · rename_i pos len hfind
    rw [hfind] at hlen
    dsimp only at hlen
    split
    · exact every_pure _ _
    · rw [every_copy]
      refine ⟨Int.natCast_nonneg _, ?_, ?_⟩
      · show (len : Int) ≤ (600 : Nat)
        omega
      · show min (len : Int) _ < (600 : Nat)
        omega
  · exact every_pure _ _

/-! ## The comma splitter -/

/-- What a call is made with. -/
def argsOf (calls : List FeatureCall) : List (Int32 × CStr) := calls.map (fun c => (c.appid, c.feature))

theorem lastFeature_args {memory : Nat → Bool} {i : Nat} {appid : Int32} {name last : CStr}
    (hlen : last.length ≤ 127) : argsOf (val (lastFeature memory i appid name last)) = [(appid, last)] := by
  unfold lastFeature maxFeatureStrLen
  rw [if_neg (by omega)]
  rfl

/-- Pieces that are not too long are all passed on, in order. -/
theorem featureLoop_args {memory : Nat → Bool} {appid : Int32} {name last : CStr} {ps : List CStr}
    (hps : ∀ t ∈ ps, t.length ≤ 128) (hlast : last.length ≤ 127) (i : Nat) :
    argsOf (val (featureLoop memory appid name last i ps)) = (ps ++ [last]).map (fun t => (appid, t)) := by
  induction ps generalizing i with
  | nil => exact lastFeature_args hlast
  | cons t ps ih =>
      have hnext := ih (fun u hu => hps u (List.mem_cons_of_mem _ hu)) (i + 1)
      have ht : ¬ maxFeatureStrLen < t.length := Nat.not_lt.mpr (hps t List.mem_cons_self)
      rw [featureLoop, if_neg ht, List.cons_append, List.map_cons, ← hnext]
      rfl

/-! ## The line -/

/-- `<id> <a>[f1,…,fn]<b>`. -/
def lineText (id a : CStr) (features : List CStr) (b : CStr) : CStr :=
  id ++ ' ' :: a ++ '[' :: ([','].intercalate features ++ ']' :: b)

/-- Free of brackets and of `#`. -/
def PlainText (s : CStr) : Prop := ∀ c ∈ s, c ≠ '[' ∧ c ≠ ']' ∧ c ≠ '#'

/-- A feature of the line: 1 to 126 characters, no comma. -/
structure LineFeature (f : CStr) : Prop where
  nonempty : f ≠ []
  short : f.length ≤ 126
  comma : ',' ∉ f
  plain : PlainText f

theorem PlainText.noBracket {s : CStr} (h : PlainText s) : NoBracket s := fun c hc => ⟨(h c hc).1, (h c hc).2.1⟩

theorem PlainText.no_hash {s : CStr} (h : PlainText s) : '#' ∉ s := fun hmem => (h '#' hmem).2.2 rfl

theorem PlainText.append {s t : CStr} (hs : PlainText s) (ht : PlainText t) : PlainText (s ++ t) :=
  List.forall_mem_append.mpr ⟨hs, ht⟩

theorem PlainText.cons {c : Char} {s : CStr} (hc : c ≠ '[' ∧ c ≠ ']' ∧ c ≠ '#') (hs : PlainText s) :
    PlainText (c :: s) :=
  List.forall_mem_cons.mpr ⟨hc, hs⟩

theorem plainText_of_digits {id : CStr} (hid : ∀ c ∈ id, c.isDigit = true) : PlainText id := by
  intro c hc
  have hdigit := hid c hc
  refine ⟨?_, ?_, ?_⟩
  · rintro rfl
    exact absurd hdigit (by decide)
  · rintro rfl
    exact absurd hdigit (by decide)
  · rintro rfl
    exact absurd hdigit (by decide)

/-- The text between the brackets. -/
theorem plainText_joined {ts : List CStr} {last : CStr} (hts : ∀ t ∈ ts, PlainText t) (hlast : PlainText last) :
    PlainText (joined ',' ts last) := by
  induction ts with
  | nil => exact hlast
  | cons t ts ih =>
      rw [joined_cons]
      have htail := ih (fun u hu => hts u (List.mem_cons_of_mem _ hu))
      exact (hts t List.mem_cons_self).append (htail.cons (by decide))

/-- The id is scanned up to the space behind it. -/
theorem appIdOf_line {stale : Int32} {id rest : CStr} (hne : id ≠ []) (hid : ∀ c ∈ id, c.isDigit = true) :
    appIdOf stale (id ++ ' ' :: rest) = Int32.ofInt (natPrefix id) := by
  have hscan : scanNum isSpace (id ++ ' ' :: rest) = some (Int32.ofInt (natPrefix id), ' ' :: rest) :=
    scanNum_digits (fun c hc => (isSpace_of_isDigit hc).1) hne hid (digitStop_cons (by decide) rest)
  obtain ⟨c, id, rfl⟩ := List.exists_cons_of_ne_nil hne
  unfold appIdOf kSscanf
  rw [List.cons_append] at hscan ⊢
  rw [vsscanf, hscan]
  rfl

/-- What the finder and the splitter make of the line. -/
theorem lineText_pieces {c : Char} {id a b : CStr} {ts : List CStr} {last : CStr}
    (hid : PlainText id) (ha : PlainText a) (hb : PlainText b) (hts : ∀ t ∈ ts, LineFeature t)
    (hlast : LineFeature last) :
    featureText (lineText (c :: id) a (ts ++ [last]) b) = joined ',' ts last ∧
      cut ',' (joined ',' ts last) = (ts, last) := by
  have hfront : NoBracket (id ++ ' ' :: a) := (hid.append (ha.cons (by decide))).noBracket
  have htext : NoBracket (joined ',' ts last) :=
    (plainText_joined (fun t ht => (hts t ht).plain) hlast.plain).noBracket
  have hline : lineText (c :: id) a (ts ++ [last]) b =
      c :: (id ++ ' ' :: a) ++ '[' :: (joined ',' ts last ++ ']' :: b) := by
    unfold lineText
    rw [intercalate_concat]
    rfl
  have hhead : ts.head? ≠ some [] := fun h => (hts [] (List.mem_of_head? h)).nonempty rfl
  rw [hline]
  exact ⟨featureText_pair hfront htext hb.noBracket,
    cut_joined hhead (fun t ht => (hts t ht).comma) hlast.comma⟩

theorem hash_not_mem_lineText {id a b : CStr} {ts : List CStr} {last : CStr} (hid : PlainText id)
    (ha : PlainText a) (hb : PlainText b) (hts : ∀ t ∈ ts, LineFeature t) (hlast : LineFeature last) :
    '#' ∉ lineText id a (ts ++ [last]) b := by
  have htext : PlainText (joined ',' ts last) := plainText_joined (fun t ht => (hts t ht).plain) hlast.plain
  unfold lineText
  rw [intercalate_concat]
  simp only [List.mem_append, List.mem_cons, not_or]
  exact ⟨⟨hid.no_hash, by decide, ha.no_hash⟩, by decide, htext.no_hash, by decide, hb.no_hash⟩

/-- **A feature line yields its features**: `feature_buf` has room for them, and
`add_app_feature` is called once for each, in order, with the id of the line. -/
theorem feature_line_calls (memory : Nat → Bool) (stale : Int32) (id a b : CStr) (features : List CStr)
    (hid : id ≠ [] ∧ (∀ c ∈ id, c.isDigit = true) ∧ natPrefix id < 2 ^ 31) (ha : PlainText a)
    (hb : PlainText b) (hne : features ≠ []) (hfeatures : ∀ f ∈ features, LineFeature f)
    (hlen : (lineText id a features b).length < 600) :
    (copyFeatureBuf (lineText id a features b)).Every (Copy.Fits Buf.size) ∧
      (val (afInitFeature true memory stale (lineText id a features b))).map
          (fun c => (c.appid.toInt, c.feature)) =
        features.map (fun f => ((natPrefix id : Int), f)) := by
  obtain ⟨hidne, hdigits, hint⟩ := hid
  obtain ⟨ts, last, rfl⟩ : ∃ ts last, features = ts ++ [last] :=
    ⟨_, _, (List.dropLast_append_getLast hne).symm⟩
  have hts : ∀ t ∈ ts, LineFeature t := fun t ht => hfeatures t (List.mem_append_left _ ht)
  have hlast : LineFeature last := hfeatures last (List.mem_append_right _ (List.mem_singleton_self _))
  obtain ⟨c, id, rfl⟩ := List.exists_cons_of_ne_nil hidne
  have hplain : PlainText (c :: id) := plainText_of_digits hdigits
  obtain ⟨htext, hcut⟩ := @lineText_pieces c id a b ts last
    (List.forall_mem_cons.mp hplain).2 ha hb hts hlast
  refine ⟨copyFeatureBuf_fits hlen, ?_⟩
  have hhash : strstr (lineText (c :: id) a (ts ++ [last]) b) ['#'] = false := by
    rw [strstr_singleton, decide_eq_false_iff_not]
    exact hash_not_mem_lineText hplain ha hb hts hlast
  have happid : appIdOf stale (lineText (c :: id) a (ts ++ [last]) b) = Int32.ofInt (natPrefix (c :: id)) := by
    unfold lineText
    rw [List.append_assoc]
    exact appIdOf_line hidne hdigits
  have hargs := @featureLoop_args memory (Int32.ofInt (natPrefix (c :: id))) [] last ts
    (fun t ht => Nat.le_trans (hts t ht).short (by decide)) (Nat.le_trans hlast.short (by decide)) 0
  have hcalls : val (afInitFeature true memory stale (lineText (c :: id) a (ts ++ [last]) b)) =
      val (featureLoop memory (Int32.ofInt (natPrefix (c :: id))) [] last 0 ts) := by
    unfold afInitFeature
    rw [hhash, happid, htext, hcut]
    rfl
  have hvalue : (Int32.ofInt (natPrefix (c :: id))).toInt = natPrefix (c :: id) :=
    Int32.toInt_ofInt_of_le (by omega) (by omega)
  have hmap := congrArg (List.map (fun (p : Int32 × CStr) => (p.1.toInt, p.2))) hargs
  rw [hcalls]
  unfold argsOf at hmap
  simp only [List.map_map, Function.comp_def, hvalue] at hmap
  exact hmap

/-- A line of the shipped kind. -/
theorem feature_line_calls_qq :
    (copyFeatureBuf (lineText "1001".toList "QQ:".toList
        ["tcp;;;qq.com;;".toList, "udp;;8000;;;0:02".toList] [])).Every (Copy.Fits Buf.size) ∧
      (val (afInitFeature true (fun _ => true) 0 (lineText "1001".toList "QQ:".toList
          ["tcp;;;qq.com;;".toList, "udp;;8000;;;0:02".toList] []))).map
          (fun c => (c.appid.toInt, c.feature)) =
        [(1001, "tcp;;;qq.com;;".toList), (1001, "udp;;8000;;;0:02".toList)] := by
  have hfeatures : ∀ f ∈ ["tcp;;;qq.com;;".toList, "udp;;8000;;;0:02".toList], LineFeature f := by
    rw [List.forall_mem_cons, List.forall_mem_singleton]
    constructor
    · exact ⟨by decide, by decide, by decide, by simp [PlainText]⟩
    · exact ⟨by decide, by decide, by decide, by simp [PlainText]⟩
  exact feature_line_calls (fun _ => true) 0 "1001".toList "QQ:".toList []
    ["tcp;;;qq.com;;".toList, "udp;;8000;;;0:02".toList] ⟨by decide, by simp, by decide⟩
    (by simp [PlainText]) (by simp [PlainText]) (by decide) hfeatures (by decide)

end OpenAppFilter.Theorems
