import OpenAppFilter.Theorems.FeatureRoom

/-!
# The fields of a feature

A field is stored when its `;` is met. The last one has none: it is stored when
it is the sixth, the dictionary of the old version, and when it is the eighth,
the `ignore` of the new one. A feature of seven fields ends in its search text,
and that one is lost.
-/

namespace OpenAppFilter.Theorems

open Base Kernel Copying

/-! ## What is given -/

/-- A feature `proto;sport;dport;host;request;dict[;search[;ignore]]` with every
field shorter than its buffer. -/
structure GivenFeature where
  proto : CStr
  sport : CStr
  dport : CStr
  host : CStr
  request : CStr
  dict : CStr
  extra : List CStr
  proto_supported : proto = "tcp".toList ∨ proto = "udp".toList
  extra_length : extra.length ≤ 2
  fields_free : ∀ f ∈ [proto, sport, dport, host, request, dict] ++ extra, ';' ∉ f
  sport_short : sport.length < 16
  dport_short : dport.length < 16
  host_short : host.length < 32
  request_short : request.length < 128
  dict_short : dict.length < 128
  extra_short : ∀ f ∈ extra, f.length < 128
  long : 8 ≤ ([';'].intercalate ([proto, sport, dport, host, request, dict] ++ extra)).length

namespace GivenFeature

variable (g : GivenFeature)

def text : CStr := [';'].intercalate ([g.proto, g.sport, g.dport, g.host, g.request, g.dict] ++ g.extra)

/-- The search text, empty when it is omitted. -/
def search : CStr := g.extra.getD 0 []

/-- The `ignore` field, empty when it is omitted. -/
def ignore : CStr := g.extra.getD 1 []

def protoNumber : Nat := if g.proto = "tcp".toList then ipprotoTcp else ipprotoUdp

/-- The search text the code stores. -/
def storedSearch : CStr := if g.extra.length = 1 then [] else g.search

end GivenFeature

/-- A decimal number that is an `int`; no digits at all are 0. -/
def NumberText (s : CStr) (n : Nat) : Prop :=
  (∀ c ∈ s, c.isDigit = true) ∧ natPrefix s = n ∧ n < 2 ^ 31

/-- The node holds what is given. -/
structure NodeAsGiven (g : GivenFeature) (node : FeatureNode) : Prop where
  proto : node.proto = g.protoNumber
  sport : ∀ n, NumberText g.sport n → node.sport = n
  host : node.hostUrl = g.host
  request : node.requestUrl = g.request
  ignore : ∀ n, NumberText g.ignore n → node.ignoreValue.toInt = n
  search : node.searchStr = g.search
  pos : ∀ entries, g.dict = dictText entries → node.posInfo = entries.map DictEntry.info

/-! ## Numbers -/

theorem srcPortOf_number {s : CStr} {n : Nat} (h : NumberText s n) : srcPortOf s = Int32.ofInt n := by
  obtain ⟨hdigits, rfl, -⟩ := h
  cases s with
  | nil => rfl
  | cons c s =>
      have hscan : scanNum kIsSpace (c :: s) = some (Int32.ofInt (natPrefix (c :: s)), []) := by
        have hrun := @scanNum_digits kIsSpace (fun _ hc => kIsSpace_of_isDigit hc) (c :: s) [] (by simp) hdigits
          trivial
        rwa [List.append_nil] at hrun
      unfold srcPortOf sscanf
      rw [vsscanf, hscan]
      rfl

theorem toNat_ofInt {n : Nat} (h : n < 2 ^ 31) : (Int32.ofInt n).toBitVec.toNat = n := by
  simp
  omega

theorem kAtoi_number {s : CStr} {n : Nat} (h : NumberText s n) : (kAtoi s).toInt = n := by
  obtain ⟨hdigits, rfl, hlt⟩ := h
  have hskip : s.dropWhile (fun c => c == ' ' || c == '\t') = s := by
    cases s with
    | nil => rfl
    | cons c s =>
        have hc := hdigits c List.mem_cons_self
        have hne : ∀ d : Char, d.isDigit = false → (c == d) = false := by
          intro d hd
          rw [beq_eq_false_iff_ne]
          rintro rfl
          rw [hd] at hc
          exact Bool.false_ne_true hc
        rw [List.dropWhile_cons_of_neg]
        simp [hne ' ' (by decide), hne '\t' (by decide)]
  unfold kAtoi
  rw [hskip, Int32.toInt_ofInt_of_le (by omega) (by omega)]

/-! ## What is stored -/

namespace GivenFeature

variable (g : GivenFeature)

theorem proto_ne : g.proto ≠ [] := by
  rcases g.proto_supported with h | h
  · rw [h]
    decide
  · rw [h]
    decide

/-- Every field ends at a `;`, but for the last one. -/
theorem cut_text {ts : List CStr} {last : CStr}
    (h : [g.proto, g.sport, g.dport, g.host, g.request, g.dict] ++ g.extra = ts ++ [last])
    (hts : ts.head? = some g.proto) : cut ';' g.text = (ts, last) := by
  have hfree := g.fields_free
  rw [h, List.forall_mem_append, List.forall_mem_singleton] at hfree
  unfold text
  rw [h, intercalate_concat]
  refine cut_joined ?_ hfree.1 hfree.2
  rw [hts]
  exact fun h => g.proto_ne (Option.some.inj h)

theorem text_long : 8 ≤ g.text.length := g.long

theorem proto_short : g.proto.length < 16 := by
  rcases g.proto_supported with h | h
  · rw [h]
    decide
  · rw [h]
    decide

/-- What `add_app_feature` has in its buffers in the end. -/
theorem paramsOf_text :
    paramsOf g.text =
        { protoStr := g.proto
          srcPortStr := g.sport
          dstPortStr := g.dport
          hostUrl := g.host
          requestUrl := g.request
          dict := g.dict
          searchStr := g.storedSearch
          ignore := kAtoi g.ignore } ∧
      FieldsRoom g.text ∧
      ((cut ';' g.text).1.length = 5 ∨ (cut ';' g.text).1.length = 7 → (cut ';' g.text).2.length < 128) := by
  have hshort := g.extra_short
  have hlen := g.extra_length
  have hextra : g.extra = [] ∨ (∃ s, g.extra = [s]) ∨ ∃ s i, g.extra = [s, i] := by
    match g.extra, hlen with
    | [], _ => exact Or.inl rfl
    | [s], _ => exact Or.inr (Or.inl ⟨s, rfl⟩)
    | [s, i], _ => exact Or.inr (Or.inr ⟨s, i, rfl⟩)
  unfold paramsOf storedSearch search ignore
  rcases hextra with hextra | ⟨s, hextra⟩ | ⟨s, i, hextra⟩
  · have hcut := @cut_text g [g.proto, g.sport, g.dport, g.host, g.request] g.dict (by rw [hextra]; rfl) rfl
    have hfield := closedField_of_cut hcut
    simp only [hfield, hcut, hextra]
    refine ⟨rfl, fieldsRoom_of ?_ ?_, fun _ => g.dict_short⟩
    · simp only [hfield]
      exact ⟨g.proto_short, g.sport_short, g.dport_short, g.host_short⟩
    · simp only [hfield]
      exact ⟨g.request_short, Nat.zero_lt_succ _, Nat.zero_lt_succ _, Nat.zero_lt_succ _⟩
  · have hcut := @cut_text g [g.proto, g.sport, g.dport, g.host, g.request, g.dict] s (by rw [hextra]) rfl
    have hfield := closedField_of_cut hcut
    simp only [hfield, hcut, hextra]
    refine ⟨rfl, fieldsRoom_of ?_ ?_, fun h => absurd h (by simp)⟩
    · simp only [hfield]
      exact ⟨g.proto_short, g.sport_short, g.dport_short, g.host_short⟩
    · simp only [hfield]
      exact ⟨g.request_short, g.dict_short, Nat.zero_lt_succ _, Nat.zero_lt_succ _⟩
  · rw [hextra, List.forall_mem_cons, List.forall_mem_singleton] at hshort
    have hcut := @cut_text g [g.proto, g.sport, g.dport, g.host, g.request, g.dict, s] i (by rw [hextra]; rfl)
      rfl
    have hfield := closedField_of_cut hcut
    simp only [hfield, hcut, hextra]
    refine ⟨rfl, fieldsRoom_of ?_ ?_, fun _ => hshort.2⟩
    · simp only [hfield]
      exact ⟨g.proto_short, g.sport_short, g.dport_short, g.host_short⟩
    · simp only [hfield]
      exact ⟨g.request_short, g.dict_short, hshort.1, Nat.zero_lt_succ _⟩

end GivenFeature

/-! ## The node -/

/-- The node that is added, for a feature that is looked at. -/
theorem val_addAppFeature {appid : Int32} {name text : CStr} (hlen : 8 ≤ text.length) {proto : Nat}
    (hproto : protoOf (paramsOf text).protoStr = some proto) :
    val (addAppFeature true appid name text) =
      val (addAppFeatureNode true text appid name proto (srcPortOf (paramsOf text).srcPortStr)
        (val (parsePortInfo (paramsOf text).dstPortStr)) (paramsOf text).hostUrl (paramsOf text).requestUrl
        (paramsOf text).dict (paramsOf text).searchStr (paramsOf text).ignore) := by
  unfold addAppFeature minFeatureStrLen
  rw [if_neg (by omega)]
  dsimp only
  rw [val_bind, val_bind, val_lastParam, hproto]
  rfl

/-- What the code needs to keep all fields. -/
structure KeptWhen (name : CStr) (g : GivenFeature) : Prop where
  /-- a feature of seven fields has no search text -/
  seven : g.extra.length = 1 → g.search = []
  name_short : name.length < 64
  text_short : g.text.length < 128
  search_short : g.search.length < 32
  ports : PortRoom g.dport
  dict : DictRoom g.dict
  ranged : ∀ entries, g.dict = dictText entries → ∀ e ∈ entries, e.Ranged

section

variable (appid : Int32) (name : CStr) (g : GivenFeature)

theorem protoOf_given : protoOf g.proto = some g.protoNumber := by
  unfold protoOf GivenFeature.protoNumber
  rcases g.proto_supported with h | h
  · rw [if_pos h, if_pos h]
  · have hne : g.proto ≠ "tcp".toList := by
      rw [h]
      decide
    rw [if_neg hne, if_pos h, if_neg hne]

/-- The feature is copied within its buffers. -/
theorem given_every :
    (addAppFeature true appid name g.text).Every (Copy.Fits Buf.size) ↔
      (name.length < 64 ∧ g.storedSearch.length < 32 ∧ g.text.length < 128) ∧ PortRoom g.dport ∧
        DictRoom g.dict := by
  obtain ⟨hparams, hfields, hlast⟩ := g.paramsOf_text
  have hproto : closedField g.text 0 = g.proto := congrArg Params.protoStr hparams
  have hsearch : closedField g.text 6 = g.storedSearch := congrArg Params.searchStr hparams
  have hdport : closedField g.text 2 = g.dport := congrArg Params.dstPortStr hparams
  have hyes : Supported g.text := by
    unfold Supported
    rw [hproto, protoOf_given]
    rfl
  rw [every_fits_iff, addAppFeature_every (fun _ _ => trivial) g.text_long, hdport, congrArg Params.dict hparams]
  constructor
  · rintro ⟨hroom, hlists⟩
    have hnode := hroom.node hyes
    rw [hsearch] at hnode
    exact ⟨hnode, (hlists hyes).1 trivial, (hlists hyes).2 trivial⟩
  · rintro ⟨hnode, hports, hdict⟩
    refine ⟨⟨hfields, hlast, fun _ => ?_⟩, fun _ => ⟨fun _ => hports, fun _ => hdict⟩⟩
    rw [hsearch]
    exact hnode

/-- What the node holds. -/
theorem given_node : ∃ node, val (addAppFeature true appid name g.text) = some node ∧
    node.proto = g.protoNumber ∧ node.sport = (srcPortOf g.sport).toBitVec.toNat ∧ node.hostUrl = g.host ∧
    node.requestUrl = g.request ∧ node.ignoreValue = kAtoi g.ignore ∧ node.searchStr = g.storedSearch ∧
    node.posInfo = val (decodeDict g.dict) := by
  have hparams := g.paramsOf_text.1
  have hproto : protoOf (paramsOf g.text).protoStr = some g.protoNumber := by
    rw [hparams]
    exact protoOf_given g
  rw [val_addAppFeature g.text_long hproto, hparams]
  exact ⟨_, rfl, rfl, rfl, rfl, rfl, rfl, rfl, rfl⟩

/-- The dictionary is decoded as given iff its positions are in range. -/
theorem given_dict (hroom : DictRoom g.dict) :
    (∀ entries, g.dict = dictText entries → val (decodeDict g.dict) = entries.map DictEntry.info) ↔
      ∀ entries, g.dict = dictText entries → ∀ e ∈ entries, e.Ranged := by
  refine forall₂_congr (fun entries hdict => ?_)
  rw [hdict, dictRoom_iff] at hroom
  rw [hdict, decodeDict_entries hroom.1, List.map_inj_left]
  exact forall₂_congr (fun e _ => e.stored_eq_iff)

/-- **No field of a feature is lost** iff a feature of seven fields has no search
text, and there is room for its parts. -/
theorem fields_kept_iff :
    ((addAppFeature true appid name g.text).Every (Copy.Fits Buf.size) ∧
        ∃ node, val (addAppFeature true appid name g.text) = some node ∧ NodeAsGiven g node) ↔
      KeptWhen name g := by
  obtain ⟨node, hnode, hproto, hsport, hhost, hrequest, hignore, hsearch, hpos⟩ := given_node appid name g
  rw [given_every]
  constructor
  · rintro ⟨⟨⟨hname, hshort, htext⟩, hports, hdict⟩, node', hnode', hgiven⟩
    obtain rfl := Option.some.inj (hnode.symm.trans hnode')
    have hsame : g.storedSearch = g.search := hsearch.symm.trans hgiven.search
    rw [hsame] at hshort
    refine ⟨fun hseven => ?_, hname, htext, hshort, hports, hdict, ?_⟩
    · unfold GivenFeature.storedSearch at hsame
      rw [if_pos hseven] at hsame
      exact hsame.symm
    · rw [← given_dict g hdict, ← hpos]
      exact hgiven.pos
  · intro h
    have hsame : g.storedSearch = g.search := by
      unfold GivenFeature.storedSearch
      split
      · rename_i hseven
        exact (h.seven hseven).symm
      · rfl
    refine ⟨⟨⟨h.name_short, by rw [hsame]; exact h.search_short, h.text_short⟩, h.ports, h.dict⟩, node, hnode,
      ?_⟩
    refine ⟨hproto, fun n hn => ?_, hhost, hrequest, fun n hn => ?_, hsearch.trans hsame, ?_⟩
    · rw [hsport, srcPortOf_number hn, toNat_ofInt hn.2.2]
    · rw [hignore, kAtoi_number hn]
    · rw [hpos]
      exact (given_dict g h.dict).mpr h.ranged

end

/-! ## Seven fields -/

/-- `tcp;;;;;;abc`. -/
def sevenFields : GivenFeature where
  proto := "tcp".toList
  sport := []
  dport := []
  host := []
  request := []
  dict := []
  extra := ["abc".toList]
  proto_supported := Or.inl rfl
  extra_length := by decide
  fields_free := by decide
  sport_short := by decide
  dport_short := by decide
  host_short := by decide
  request_short := by decide
  dict_short := by decide
  extra_short := by decide
  long := by decide

theorem seventh_field_lost :
    sevenFields.text = "tcp;;;;;;abc".toList ∧ sevenFields.search = "abc".toList ∧
      (val (addAppFeature true 1001 [] sevenFields.text)).map (fun node => node.searchStr) = some [] ∧
      ¬ ∃ node, val (addAppFeature true 1001 [] sevenFields.text) = some node ∧
        NodeAsGiven sevenFields node := by
  have hlost : (val (addAppFeature true 1001 [] sevenFields.text)).map (fun node => node.searchStr) = some [] := by
    decide
  refine ⟨by decide, rfl, hlost, ?_⟩
  rintro ⟨node, hnode, hgiven⟩
  rw [hnode, Option.map_some, Option.some.injEq, hgiven.search] at hlost
  exact absurd hlost (by decide)

end OpenAppFilter.Theorems
