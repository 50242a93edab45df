import OpenAppFilter.Daemon.Feature
import OpenAppFilter.Kernel.State

/-!
# A feature reload replaces the signature base

A line of `/tmp/feature.cfg` passes through the daemon's line buffer, its
message buffer, the header wrapper, the netlink receiver and the feature
handler, each with a limit of its own. A line below 599 bytes passes all of
them, and what comes out at the other end is the trimmed line: the limits fit
together.
-/

namespace OpenAppFilter.Theorems

open Base Kernel Daemon

/-! ## Trimming -/

/-- The end `str_trim` finds, when it starts above a character that stays. -/
theorem trimEnd_eq {s : CStr} {start : Nat} {c : Char} {t : CStr} (hs : s.drop start = c :: t)
    (hc : isSpace c = false) {e : Nat} (hlo : start < e) (hhi : e ≤ s.length) :
    trimEnd s start e = start + (((s.drop start).take (e - start)).rdropWhile isSpace).length := by
  induction e with
  | zero => omega
  | succ last ih =>
      have hsplit : (s.drop start).take (last + 1 - start) =
          (s.drop start).take (last - start) ++ [s.getD last '\x00'] := by
        have hidx : last - start < (s.drop start).length := by
          rw [List.length_drop]
          omega
        have hget : (s.drop start)[last - start] = s.getD last '\x00' := by
          have hadd : start + (last - start) = last := by omega
          rw [List.getElem_drop, List.getD_eq_getElem?_getD, List.getElem?_eq_getElem (by omega),
            Option.getD_some]
          simp only [hadd]
        have hsucc : last + 1 - start = last - start + 1 := by omega
        rw [hsucc, List.take_succ_eq_append_getElem hidx, hget]
      rw [trimEnd]
      by_cases hgo : last > start ∧ isSpace (s.getD last '\x00') = true
      · rw [if_pos hgo, ih hgo.1 (by omega), hsplit, List.rdropWhile_concat, if_pos hgo.2]
      · rw [if_neg hgo]
        -- the character at `last` stays
        have hstay : isSpace (s.getD last '\x00') = false := by
          by_cases hlast : last > start
          · cases hb : isSpace (s.getD last '\x00') with
            | false => rfl
            | true => exact absurd ⟨hlast, hb⟩ hgo
          · have heq : last = start := by omega
            have hfirst : s.getD start '\x00' = c := by
              have h0 := congrArg (fun l => l.getD 0 '\x00') hs
              simpa [List.getD_eq_getElem?_getD, List.getElem?_drop] using h0
            rw [heq, hfirst]
            exact hc
        rw [hsplit, List.rdropWhile_concat, if_neg (by rw [hstay]; exact Bool.false_ne_true),
          List.length_append, List.length_take, List.length_drop, List.length_singleton]
        omega

/-- `str_trim` removes the white space at both ends. -/
theorem strTrim_eq_trimmed (s : CStr) : strTrim s = trimmed s := by
  have hdrop : s.drop (s.takeWhile isSpace).length = s.dropWhile isSpace := by
    have happ := List.takeWhile_append_dropWhile (p := isSpace) (l := s)
    conv_lhs => rw [← happ]
    rw [List.drop_left']
    rw [happ]
  unfold strTrim
  dsimp only
  cases htail : s.dropWhile isSpace with
  | nil =>
      -- white space only: the end stays where it is and nothing is left
      have htrim : trimmed s = [] := by
        rw [trimmed, htail, List.rdropWhile_nil]
      rw [htrim]
      split
      · rw [hdrop, htail, List.take_nil]
      · rename_i hkeep
        have hzero : (s.takeWhile isSpace).length = 0 := by
          by_contra hne
          exact hkeep (Or.inl hne)
        rw [hzero, List.drop_zero] at hdrop
        rw [hdrop, htail]
  | cons c t =>
      have hc : isSpace c = false := by
        have hhead := List.head_dropWhile_not isSpace (l := s) (by rw [htail]; simp)
        simpa [htail] using hhead
      rw [htail] at hdrop
      have hlen : (s.takeWhile isSpace).length < s.length := by
        have h := congrArg List.length hdrop
        rw [List.length_drop, List.length_cons] at h
        omega
      have hend := trimEnd_eq hdrop hc hlen (le_refl _)
      have hall : (s.drop (s.takeWhile isSpace).length).take
          (s.length - (s.takeWhile isSpace).length) = c :: t := by
        rw [hdrop, List.take_of_length_le]
        have h := congrArg List.length hdrop
        rw [List.length_drop] at h
        omega
      rw [hall] at hend
      have hfront := List.rdropWhile_prefix isSpace (c :: t)
      have htake : (c :: t).take ((c :: t).rdropWhile isSpace).length =
          (c :: t).rdropWhile isSpace := (List.prefix_iff_eq_take.mp hfront).symm
      rw [trimmed, htail, hend]
      split
      · rw [hdrop, Nat.add_sub_cancel_left, htake]
      · rename_i hkeep
        -- no copy: nothing is trimmed on either side
        have hzero : (s.takeWhile isSpace).length = 0 := by
          by_contra hne
          exact hkeep (Or.inl hne)
        have hfull : ((c :: t).rdropWhile isSpace).length = s.length := by
          by_contra hne
          exact hkeep (Or.inr (by omega))
        rw [hzero, List.drop_zero] at hdrop
        rw [← htake, hfull, ← hdrop, List.take_length]

/-! ## Lines -/

/-- The lines a reload is to deliver: trimmed, of eight characters or more,
without `#`. A line is the text up to a NUL in it. -/
def featureLines (file : List Char) : List CStr :=
  ((fileLines file).map (fun l => trimmed (cString l))).filter
    (fun s => decide (8 ≤ s.length) && decide ('#' ∉ s))

/-- One line of `featureLines`. -/
def wantedLine (buf : List Char) : Option CStr :=
  if 8 ≤ (trimmed (cString buf)).length ∧ '#' ∉ trimmed (cString buf) then
    some (trimmed (cString buf))
  else none

theorem filterMap_wantedLine (file : List Char) :
    (fileLines file).filterMap wantedLine = featureLines file := by
  unfold featureLines
  induction fileLines file with
  | nil => rfl
  | cons l ls ih =>
      rw [List.filterMap_cons, List.map_cons, List.filter_cons, ih]
      unfold wantedLine
      by_cases h : 8 ≤ (trimmed (cString l)).length ∧ '#' ∉ trimmed (cString l)
      · rw [if_pos h, if_pos (by simpa using h)]
      · rw [if_neg h, if_neg (by simpa using h)]

/-- The newline makes no difference to what is forwarded. -/
theorem trimmed_cString_newline (l : List Char) :
    trimmed (cString (l ++ ['\n'])) = trimmed (cString l) := by
  by_cases hnul : '\x00' ∈ l
  · obtain ⟨s, t, rfl, hs⟩ := List.eq_append_cons_of_mem hnul
    rw [List.append_assoc, List.cons_append, cString_append_nul hs, cString_append_nul hs]
  · have hnul' : '\x00' ∉ l ++ ['\n'] := by simp [hnul]
    rw [cString_of_no_nul hnul, cString_of_no_nul hnul', trimmed_append_newline]

theorem wantedLine_newline (l : List Char) : wantedLine (l ++ ['\n']) = wantedLine l := by
  unfold wantedLine
  rw [trimmed_cString_newline]

/-- The checks of the loader are the wanted ones when its own limit is not
reached. -/
theorem featureLine_eq {buf : List Char}
    (hlen : (trimmed (cString buf)).length < maxFeatureLineLen - 1) :
    featureLine buf = wantedLine buf := by
  unfold featureLine wantedLine
  dsimp only
  rw [strTrim_eq_trimmed, strstr_singleton]
  by_cases hshort : (trimmed (cString buf)).length < 8
  · rw [if_pos hshort, if_neg (by omega)]
  · rw [if_neg hshort]
    by_cases hhash : '#' ∈ trimmed (cString buf)
    · rw [if_pos (by simpa using hhash), if_neg (fun h => h.2 hhash)]
    · rw [if_neg (by simpa using hhash), if_neg (by omega), if_pos ⟨by omega, hhash⟩]

/-- What the loader forwards of a file with short lines. -/
theorem loader_forwards {file : List Char}
    (hlines : ∀ l ∈ fileLines file, l.length < maxFeatureLineLen - 1) :
    (fgetsAll maxFeatureLineLen file).filterMap featureLine = featureLines file := by
  rw [fgetsAll_of_short hlines]
  have hcheck : ∀ piece ∈ withNewlines (fileLines file), featureLine piece = wantedLine piece := by
    intro piece hpiece
    obtain ⟨l, hl, hpiece⟩ := mem_withNewlines hpiece
    have hlen : (trimmed (cString l)).length < maxFeatureLineLen - 1 :=
      lt_of_le_of_lt ((length_trimmed_le _).trans (cString_length_le l)) (hlines l hl)
    rcases hpiece with rfl | rfl
    · exact featureLine_eq hlen
    · exact featureLine_eq (by rw [trimmed_cString_newline]; exact hlen)
  rw [List.filterMap_congr hcheck, filterMap_withNewlines (by decide) wantedLine_newline,
    filterMap_wantedLine]

/-! ## Messages -/

/-- A message that fits is received as it was sent; behind it the receiver sees
whatever the buffer held. -/
theorem oafMsgRcv_sendMsgToKernel (m : NlSender) (msg : List Char) (hpos : 0 < msg.length)
    (hfit : sizeofAfMsgHdr + msg.length ≤ maxNlMsgLen) :
    ∃ rest, (sendMsgToKernel m msg).bind (oafMsgRcv m.order) =
      oafUserMsgHandle m.order (msg ++ rest) msg.length := by
  have hnlh := m.nlh_length
  unfold sizeofAfMsgHdr maxNlMsgLen at hfit
  unfold nlmsgHdrLen maxNlMsgLen at hnlh
  have hhdr : (m.nlh.take nlmsgHdrLen).length = nlmsgHdrLen := by
    rw [List.length_take]
    unfold nlmsgHdrLen
    omega
  refine ⟨m.nlh.drop (nlmsgHdrLen + (intBytes m.order afMsgMagic ++
    intBytes m.order (BitVec.ofNat 32 msg.length) ++ msg).length), ?_⟩
  unfold sendMsgToKernel
  dsimp only
  rw [if_pos (by unfold sizeofAfMsgHdr maxNlMsgLen; omega), Option.bind_some]
  generalize hrest : m.nlh.drop (nlmsgHdrLen + (intBytes m.order afMsgMagic ++
    intBytes m.order (BitVec.ofNat 32 msg.length) ++ msg).length) = rest
  unfold oafMsgRcv
  dsimp only
  have humsg : (m.nlh.take nlmsgHdrLen ++ (intBytes m.order afMsgMagic ++
      intBytes m.order (BitVec.ofNat 32 msg.length) ++ msg) ++ rest).drop nlmsgHdrLen =
      intBytes m.order afMsgMagic ++
        (intBytes m.order (BitVec.ofNat 32 msg.length) ++ (msg ++ rest)) := by
    rw [List.append_assoc, List.drop_left' hhdr]
    simp only [List.append_assoc]
  have hlenword : (BitVec.ofNat 32 msg.length).toInt = msg.length := by
    have hword : (BitVec.ofNat 32 msg.length).toNat = msg.length := by
      rw [BitVec.toNat_ofNat]
      exact Nat.mod_eq_of_lt (by omega)
    rw [BitVec.toInt_eq_toNat_of_lt (by omega), hword]
  have hdrop4 : ∀ (w : BitVec 32) (l : List Char), (intBytes m.order w ++ l).drop 4 = l :=
    fun w l => List.drop_left' (intBytes_length m.order w)
  have hdrop8 : (intBytes m.order afMsgMagic ++ (intBytes m.order (BitVec.ofNat 32 msg.length) ++
      (msg ++ rest))).drop sizeofAfMsgHdr = msg ++ rest := by
    show List.drop (4 + 4) _ = _
    rw [← List.drop_drop, hdrop4, hdrop4]
  rw [if_pos, humsg, intAt_intBytes, if_neg (by simp), hdrop4, intAt_intBytes, hlenword, hdrop8,
    if_neg]
  · unfold maxOafNetlinkMsgLen
    omega
  · rw [List.length_append, List.length_append, hhdr]
    omega

/-- The clean message empties the kernel's list. -/
theorem clean_received (m : NlSender) :
    (afNlCleanFeature m).bind (oafMsgRcv m.order) = some .cleanFeatureList := by
  unfold afNlCleanFeature
  obtain ⟨rest, hrcv⟩ := oafMsgRcv_sendMsgToKernel m
    (intBytes m.order afMsgCleanFeature) (by simp) (by simp [sizeofAfMsgHdr, maxNlMsgLen])
  rw [hrcv]
  unfold oafUserMsgHandle
  rw [intBytes_length, if_neg (by unfold sizeofAfMsg; omega)]
  dsimp only
  rw [intAt_intBytes, if_neg (by decide), if_neg (by decide), if_pos rfl]

/-- A text below 599 bytes reaches `af_init_feature` byte for byte. -/
theorem add_received (m : NlSender) {feature : CStr} (hnul : '\x00' ∉ feature)
    (hlen : feature.length < maxFeatureLineLen - 1) :
    (afNlAddFeature m feature).bind (oafMsgRcv m.order) = some (.initFeature feature) := by
  unfold maxFeatureLineLen at hlen
  have hmsglen : (intBytes m.order afMsgAddFeature ++ feature ++ ['\x00']).length =
      feature.length + 5 := by
    simp
    omega
  unfold afNlAddFeature
  rw [if_pos (by unfold sizeofAfMsg maxNlMsgLen; omega)]
  obtain ⟨rest, hrcv⟩ := oafMsgRcv_sendMsgToKernel m
    (intBytes m.order afMsgAddFeature ++ feature ++ ['\x00'])
    (by rw [hmsglen]; omega) (by rw [hmsglen]; unfold sizeofAfMsgHdr maxNlMsgLen; omega)
  rw [hrcv, hmsglen]
  have hmsg : intBytes m.order afMsgAddFeature ++ feature ++ ['\x00'] ++ rest =
      intBytes m.order afMsgAddFeature ++ (feature ++ '\x00' :: rest) := by
    simp
  rw [hmsg]
  unfold oafUserMsgHandle
  rw [if_neg (by unfold sizeofAfMsg; omega)]
  dsimp only
  have hdrop : (intBytes m.order afMsgAddFeature ++ (feature ++ '\x00' :: rest)).drop sizeofAfMsg =
      feature ++ '\x00' :: rest := List.drop_left' (intBytes_length m.order afMsgAddFeature)
  rw [intAt_intBytes, if_neg (by decide), if_pos rfl, hdrop]
  unfold afAddFeatureMsgHandle
  have harg : ((feature.length + 5 : Nat) : Int) - (sizeofAfMsg : Int) =
      ((feature.length + 1 : Nat) : Int) := by
    unfold sizeofAfMsg
    omega
  rw [harg, if_neg (by unfold maxFeatureLineLen; omega), Int.toNat_natCast]
  -- the NUL is the last byte the length covers
  have htake : (feature ++ '\x00' :: rest).take (feature.length + 1) = feature ++ ['\x00'] := by
    rw [List.take_append]
    simp
  rw [htake, cString_append_nul hnul]

/-! ## The reload -/

/-- The effect of a call on the kernel's feature list, given what
`af_init_feature` makes of a line. -/
def onFeatures (afInitFeature : List AfFeatureNode → CStr → List AfFeatureNode)
    (features : List AfFeatureNode) : Option KernelCall → List AfFeatureNode
  | some (.initFeature feature) => afInitFeature features feature
  | some .cleanFeatureList => []
  | _ => features

/-- What the kernel does on the messages of a reload, in order. -/
def reloadCalls (m : NlSender) (fd : Int) (file : List Char) : List (Option KernelCall) :=
  (afLoadFeatureToKernel m fd (some file)).1.map (fun msg => msg.bind (oafMsgRcv m.order))

/-- **A reload replaces the signature base exactly.** With lines below 599
bytes, every message is sent and accepted; the kernel first empties its list
and then runs `af_init_feature` on the trimmed lines of eight characters or
more without `#`, in order and byte for byte, whatever its list was before. -/
theorem feature_reload_exact (m : NlSender) (fd : Int) (hfd : 0 ≤ fd) (file : List Char)
    (hlines : ∀ l ∈ fileLines file, l.length < 599) :
    reloadCalls m fd file =
      some .cleanFeatureList :: (featureLines file).map (fun s => some (.initFeature s)) ∧
    ∀ (afInitFeature : List AfFeatureNode → CStr → List AfFeatureNode)
      (before : List AfFeatureNode),
      (reloadCalls m fd file).foldl (onFeatures afInitFeature) before =
        (featureLines file).foldl afInitFeature [] := by
  have hcalls : reloadCalls m fd file =
      some .cleanFeatureList :: (featureLines file).map (fun s => some (.initFeature s)) := by
    unfold reloadCalls afLoadFeatureToKernel
    dsimp only
    rw [if_neg (by omega)]
    dsimp only
    rw [loader_forwards hlines, List.map_cons, clean_received, List.map_map]
    congr 1
    refine List.map_congr_left ?_
    intro s hs
    -- a forwarded line has no NUL and keeps below the limit
    obtain ⟨l, hl, rfl⟩ := List.mem_map.mp (List.mem_of_mem_filter hs)
    have hlen := (length_trimmed_le (cString l)).trans (cString_length_le l)
    exact add_received m (fun h => nul_not_mem_cString l (mem_of_mem_trimmed h))
      (lt_of_le_of_lt hlen (hlines l hl))
  refine ⟨hcalls, ?_⟩
  intro afInitFeature before
  rw [hcalls, List.foldl_cons, List.foldl_map]
  rfl

def shippedSender : NlSender where
  order := .big
  nlh := List.replicate (nlmsgHdrLen + maxNlMsgLen) 'x'
  nlh_length := List.length_replicate

/-- A comment, a signature with white space around it, a line that is too
short, and a signature without a newline. -/
def smallBase : List Char :=
  "#class chat\n  1001 QQ:[tcp;;;qq.com;;] \r\n1002 x\n1003 WeChat:[udp;;8080;;;]".toList

theorem feature_reload_small_base :
    (∀ l ∈ fileLines smallBase, l.length < 599) ∧
      reloadCalls shippedSender 3 smallBase =
        [some .cleanFeatureList, some (.initFeature "1001 QQ:[tcp;;;qq.com;;]".toList),
          some (.initFeature "1003 WeChat:[udp;;8080;;;]".toList)] := by
  have hlines : ∀ l ∈ fileLines smallBase, l.length < 599 := by decide +kernel
  have hwanted : featureLines smallBase =
      ["1001 QQ:[tcp;;;qq.com;;]".toList, "1003 WeChat:[udp;;8080;;;]".toList] := by
    decide +kernel
  refine ⟨hlines, ?_⟩
  rw [(feature_reload_exact shippedSender 3 (by omega) smallBase hlines).1, hwanted]
  rfl

end OpenAppFilter.Theorems
