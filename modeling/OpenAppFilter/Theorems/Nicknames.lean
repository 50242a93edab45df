import OpenAppFilter.Daemon.Nicknames
import Mathlib.Data.List.Nodup

/-!
# Setting a nickname

A nickname for a MAC that has a section is set or deleted there; one for a new
MAC goes into a new section at the end, which the address −1 finds. The address
−1 also finds a last section when none was added: deleting the nickname of a MAC
without a section deletes the last section, of another device.
-/

namespace OpenAppFilter.Theorems

open Base Daemon

/-! ## Sections with their own MAC -/

/-- A MAC as it stands in the configuration; 17 characters, of which only
matters that the buffer of the handler takes them. -/
abbrev NicknameMac := { s : CStr // s ≠ [] ∧ s.length < 128 }

/-- Each section has its own MAC. -/
structure OwnMacs (sections : List UserInfo) : Prop where
  macs : ∀ u ∈ sections, ∃ mac : NicknameMac, u.mac = some mac.val
  nodup : (sections.map (·.mac)).Nodup

/-- The section of `mac` has the nickname, or is gone when that is empty; all
others are unchanged. -/
structure NicknameSet (mac nickname : CStr) (before after : List UserInfo) : Prop where
  own : after.filter (fun u => u.mac = some mac) =
    if nickname = [] then [] else [{ mac := some mac, nickname := some nickname }]
  others : after.filter (fun u => u.mac ≠ some mac) = before.filter (fun u => u.mac ≠ some mac)

/-- The place of the section of a MAC, or −1. -/
def macPlace (mac : CStr) (sections : List UserInfo) : Int :=
  match sections.findIdx? (fun u => u.mac = some mac) with
  | some i => i
  | none => -1

/-- The section of a MAC, between the others. -/
theorem OwnMacs.split {sections : List UserInfo} (h : OwnMacs sections) {mac : CStr}
    (hmac : some mac ∈ sections.map (·.mac)) :
    ∃ pre u post, sections = pre ++ u :: post ∧ u.mac = some mac ∧
      (∀ v ∈ pre, v.mac ≠ some mac) ∧ ∀ v ∈ post, v.mac ≠ some mac := by
  obtain ⟨u, hu, hmac'⟩ := List.mem_map.mp hmac
  obtain ⟨pre, post, rfl⟩ := List.append_of_mem hu
  have hnodup := h.nodup
  rw [List.map_append, List.map_cons, List.nodup_append, List.nodup_cons] at hnodup
  obtain ⟨-, ⟨hpost, -⟩, hdisjoint⟩ := hnodup
  refine ⟨pre, u, post, rfl, hmac', fun v hv heq => ?_, fun v hv heq => ?_⟩
  · exact hdisjoint v.mac (List.mem_map_of_mem hv) u.mac List.mem_cons_self (heq.trans hmac'.symm)
  · exact hpost (List.mem_map.mpr ⟨v, hv, heq.trans hmac'.symm⟩)

/-- Without a section of the MAC, all sections are others. -/
theorem filter_absent {mac : CStr} {sections : List UserInfo} (h : ∀ v ∈ sections, v.mac ≠ some mac) :
    sections.filter (fun v => v.mac = some mac) = [] ∧
      sections.filter (fun v => v.mac ≠ some mac) = sections := by
  constructor
  · apply List.filter_eq_nil_iff.mpr
    intro v hv
    simpa using h v hv
  · apply List.filter_eq_self.mpr
    intro v hv
    simpa using h v hv

theorem filter_own {mac : CStr} {pre post : List UserInfo} {u : UserInfo} (hu : u.mac = some mac)
    (hpre : ∀ v ∈ pre, v.mac ≠ some mac) (hpost : ∀ v ∈ post, v.mac ≠ some mac) :
    (pre ++ u :: post).filter (fun v => v.mac = some mac) = [u] ∧
      (pre ++ u :: post).filter (fun v => v.mac ≠ some mac) = pre ++ post := by
  obtain ⟨hpreOwn, hpreOthers⟩ := filter_absent hpre
  obtain ⟨hpostOwn, hpostOthers⟩ := filter_absent hpost
  rw [List.filter_append, List.filter_append, List.filter_cons_of_pos (by simpa using hu),
    List.filter_cons_of_neg (by simpa using hu), hpreOwn, hpreOthers, hpostOwn, hpostOthers]
  exact ⟨rfl, rfl⟩

/-! ## The steps of the handler -/

/-- The loop finds the section of the MAC, whatever the buffer holds before. -/
theorem findUserInfo_eq {sections : List UserInfo} (mac : CStr)
    (h : ∀ u ∈ sections, ∃ own : NicknameMac, u.mac = some own.val) : ∀ (i : Nat) (macStr : CStr),
    findUserInfo mac i macStr sections =
      match sections.findIdx? (fun u => u.mac = some mac) with
      | some j => ((i + j : Nat) : Int)
      | none => -1 := by
  induction sections with
  | nil => exact fun _ _ => rfl
  | cons u users ih =>
      intro i macStr
      obtain ⟨own, hown⟩ := h u List.mem_cons_self
      have htake : own.val.take 127 = own.val := List.take_of_length_le (by have := own.property.2; omega)
      rw [List.findIdx?_cons]
      unfold findUserInfo
      rw [hown, Option.getD_some, htake]
      dsimp only
      rw [ih (fun v hv => h v (List.mem_cons_of_mem _ hv))]
      by_cases heq : own.val = mac
      · subst heq
        simp
      · rw [if_neg heq]
        have hne : ¬ some own.val = some mac := fun hsome => heq (Option.some.inj hsome)
        simp only [hne, decide_false, Bool.false_eq_true, if_false]
        cases users.findIdx? (fun u => decide (u.mac = some mac)) with
        | none => rfl
        | some j =>
            show ((i + 1 + j : Nat) : Int) = ((i + (j + 1) : Nat) : Int)
            omega

theorem findUserInfo_start {sections : List UserInfo} (h : OwnMacs sections) (mac : CStr) :
    findUserInfo mac 0 [] sections = macPlace mac sections := by
  rw [findUserInfo_eq mac h.macs]
  unfold macPlace
  simp only [Nat.zero_add]

theorem macPlace_of_split {mac : CStr} {pre post : List UserInfo} {u : UserInfo}
    (hu : u.mac = some mac) (hpre : ∀ v ∈ pre, v.mac ≠ some mac) :
    macPlace mac (pre ++ u :: post) = pre.length := by
  have hfind : (pre ++ u :: post).findIdx? (fun v => v.mac = some mac) = some pre.length := by
    induction pre with
    | nil => simp [List.findIdx?_cons, hu]
    | cons v pre ih =>
        have hv : v.mac ≠ some mac := hpre v List.mem_cons_self
        rw [List.cons_append, List.findIdx?_cons, ih (fun w hw => hpre w (List.mem_cons_of_mem _ hw))]
        simp [hv]
  unfold macPlace
  rw [hfind]

theorem macPlace_of_absent {mac : CStr} {sections : List UserInfo}
    (h : some mac ∉ sections.map (·.mac)) : macPlace mac sections = -1 := by
  have hfind : sections.findIdx? (fun v => v.mac = some mac) = none := by
    rw [List.findIdx?_eq_none_iff]
    intro v hv
    exact decide_eq_false (fun heq => h (List.mem_map.mpr ⟨v, hv, heq⟩))
  unfold macPlace
  rw [hfind]

theorem uciSectionIndex_place {num i : Nat} (h : i < num) : uciSectionIndex num i = some i := by
  unfold uciSectionIndex
  rw [if_neg (show ¬ (i : Int) < 0 by omega)]
  dsimp only
  rw [if_pos (by omega)]
  rfl

/-- `@user_info[-1]` is the last section. -/
theorem uciSectionIndex_last (num : Nat) : uciSectionIndex (num + 1) (-1) = some num := by
  unfold uciSectionIndex
  rw [if_pos (show (-1 : Int) < 0 by decide)]
  dsimp only
  rw [if_pos (by omega)]
  congr 1
  omega

theorem modify_place (pre post : List UserInfo) (u : UserInfo) (f : UserInfo → UserInfo) :
    (pre ++ u :: post).modify pre.length f = pre ++ f u :: post := by
  induction pre with
  | nil => rfl
  | cons v pre ih => exact congrArg (v :: ·) ih

/-- Setting an option of the section the address finds. -/
theorem afUciSetArrayValue_place {index : Int} {option value : CStr}
    {set : Option CStr → UserInfo → UserInfo} {pre post : List UserInfo} {u : UserInfo}
    (hplace : uciSectionIndex (pre ++ u :: post).length index = some pre.length) (hvalue : value ≠ []) :
    afUciSetArrayValue index option set value (pre ++ u :: post) =
      if fitsParam (userInfoKey index option) value then some (pre ++ set (some value) u :: post)
      else none := by
  unfold afUciSetArrayValue
  rw [hplace]
  dsimp only
  rw [modify_place, afUciSetValue, if_neg hvalue]

/-- The address of an option, and a MAC, fit the buffer. -/
theorem fitsParam_mac (index : Int) (mac : NicknameMac) :
    fitsParam (userInfoKey index "mac".toList) mac.val = true := by
  have hdigits := (decimal_length_int32 (Int32.ofInt index)).2
  have hmac := mac.property.2
  unfold fitsParam userInfoKey
  simp only [List.length_append, decide_eq_true_eq]
  show 21 + (_ + (2 + 3)) + 1 + _ < 2048
  omega

/-! ## The handler -/

/-- What the handler does with the section it has found or added. -/
theorem set_both {index : Int} {mac : NicknameMac} {nickname : CStr} (hnick : nickname ≠ [])
    {pre post : List UserInfo} {u : UserInfo}
    (hplace : uciSectionIndex (pre.length + (post.length + 1)) index = some pre.length) :
    (afUciSetArrayValue index "mac".toList (fun v u => { u with mac := v }) mac.val
        (pre ++ u :: post)).bind
      (fun sections =>
        (afUciSetArrayValue index "nickname".toList (fun v u => { u with nickname := v })
          nickname sections).map (·, (0 : Int))) =
      if fitsParam (userInfoKey index "nickname".toList) nickname then
        some (pre ++ { mac := some mac.val, nickname := some nickname } :: post, 0)
      else none := by
  have hlength : ∀ v : UserInfo, uciSectionIndex (pre ++ v :: post).length index = some pre.length := by
    intro v
    rw [List.length_append, List.length_cons]
    exact hplace
  rw [afUciSetArrayValue_place (hlength u) mac.property.1, if_pos (fitsParam_mac index mac),
    Option.bind_some, afUciSetArrayValue_place (hlength _) hnick]
  split <;> rfl

/-- A MAC that has a section. -/
theorem handleSetNickname_found {sections : List UserInfo} (h : OwnMacs sections) (mac : NicknameMac)
    (nickname : CStr) {pre post : List UserInfo} {u : UserInfo} (heq : sections = pre ++ u :: post)
    (hu : u.mac = some mac.val) (hpre : ∀ v ∈ pre, v.mac ≠ some mac.val) :
    handleSetNickname {} ⟨some mac.val, some nickname⟩ sections =
      if nickname = [] then some (pre ++ post, 0)
      else if fitsParam (userInfoKey (macPlace mac.val sections) "nickname".toList) nickname then
        some (pre ++ { mac := some mac.val, nickname := some nickname } :: post, 0)
      else none := by
  have hplace : macPlace mac.val sections = pre.length := by
    rw [heq]
    exact macPlace_of_split hu hpre
  have hindex : uciSectionIndex (pre.length + (post.length + 1)) pre.length = some pre.length :=
    uciSectionIndex_place (by omega)
  unfold handleSetNickname
  simp only [Bool.not_true, Bool.false_eq_true, if_false, findUserInfo_start h, hplace]
  by_cases hnick : nickname = []
  · rw [if_pos hnick, hnick, if_neg (by simp)]
    unfold afUciDelete
    rw [heq, List.length_append, List.length_cons, hindex]
    dsimp only
    rw [List.eraseIdx_append_of_length_le (Nat.le_refl _), Nat.sub_self, List.eraseIdx_cons_zero]
  · rw [if_neg hnick, if_pos (List.length_pos_iff.mpr hnick), if_neg (by omega), heq]
    exact set_both hnick hindex

/-- A MAC without a section: −1 is the address of the section that was added, or
of the last one there is. -/
theorem handleSetNickname_absent {sections : List UserInfo} (h : OwnMacs sections) (mac : NicknameMac)
    (nickname : CStr) (habsent : some mac.val ∉ sections.map (·.mac)) :
    handleSetNickname {} ⟨some mac.val, some nickname⟩ sections =
      if nickname = [] then some (sections.dropLast, 0)
      else if fitsParam (userInfoKey (macPlace mac.val sections) "nickname".toList) nickname then
        some (sections ++ [{ mac := some mac.val, nickname := some nickname }], 0)
      else none := by
  have hplace := macPlace_of_absent habsent
  unfold handleSetNickname
  simp only [Bool.not_true, Bool.false_eq_true, if_false, findUserInfo_start h, hplace]
  by_cases hnick : nickname = []
  · rw [if_pos hnick, hnick, if_neg (by simp)]
    unfold afUciDelete
    cases hlast : sections.length with
    | zero =>
        rw [List.length_eq_zero_iff.mp hlast]
        rfl
    | succ n =>
        rw [uciSectionIndex_last, List.dropLast_eq_eraseIdx hlast.symm]
  · rw [if_neg hnick, if_pos (List.length_pos_iff.mpr hnick), if_true]
    exact set_both hnick (uciSectionIndex_last sections.length)

/-! ## Main result -/

/-- Appending or replacing the section of the MAC. -/
theorem nicknameSet_section {mac nickname : CStr} (hnick : nickname ≠ []) {before pre post : List UserInfo}
    (hpre : ∀ v ∈ pre, v.mac ≠ some mac) (hpost : ∀ v ∈ post, v.mac ≠ some mac)
    (hbefore : before.filter (fun u => u.mac ≠ some mac) = pre ++ post) :
    NicknameSet mac nickname before
      (pre ++ { mac := some mac, nickname := some nickname } :: post) := by
  obtain ⟨hown, hothers⟩ := filter_own (u := { mac := some mac, nickname := some nickname }) rfl
    hpre hpost
  refine ⟨?_, ?_⟩
  · rw [hown, if_neg hnick]
  · rw [hothers, hbefore]

/-- A result that is there only when the nickname fits, and is right then. -/
theorem nickname_result_iff {fits : Bool} {P : List UserInfo → Prop} {after : List UserInfo}
    (hright : P after) :
    (∃ a, (if fits then some (after, (0 : Int)) else none) = some (a, 0) ∧ P a) ↔ fits = true := by
  cases fits with
  | true => exact ⟨fun _ => rfl, fun _ => ⟨after, rfl, hright⟩⟩
  | false =>
      constructor
      · rintro ⟨a, hrun, -⟩
        exact absurd hrun (by simp)
      · intro hfit
        exact absurd hfit (by decide)

/-- The section of the MAC is gone. -/
theorem nicknameSet_deleted {mac : CStr} {before after : List UserInfo}
    (hafter : ∀ v ∈ after, v.mac ≠ some mac)
    (hbefore : before.filter (fun u => u.mac ≠ some mac) = after) :
    NicknameSet mac [] before after := by
  obtain ⟨hown, hothers⟩ := filter_absent hafter
  refine ⟨?_, ?_⟩
  · rw [hown, if_pos rfl]
  · rw [hothers, hbefore]

/-- **Setting a nickname.** With a section of its own for each MAC: the handler
succeeds, sets or deletes the section of the MAC and leaves the others iff a
nickname that is not empty fits the buffer of libuci's key and value, and an empty
one is for a MAC that has a section, or there are no sections. -/
theorem set_nickname_iff (sections : List UserInfo) (h : OwnMacs sections) (mac : NicknameMac)
    (nickname : CStr) :
    (∃ after, handleSetNickname {} ⟨some mac.val, some nickname⟩ sections = some (after, 0) ∧
        NicknameSet mac.val nickname sections after) ↔
      if nickname = [] then some mac.val ∈ sections.map (·.mac) ∨ sections = []
      else fitsParam (userInfoKey (macPlace mac.val sections) "nickname".toList) nickname = true := by
  by_cases hmem : some mac.val ∈ sections.map (·.mac)
  · obtain ⟨pre, u, post, heq, hu, hpre, hpost⟩ := h.split hmem
    obtain ⟨-, hothers⟩ := filter_own hu hpre hpost
    have hbefore : sections.filter (fun u => u.mac ≠ some mac.val) = pre ++ post := by
      rw [heq]
      exact hothers
    rw [handleSetNickname_found h mac nickname heq hu hpre]
    by_cases hnick : nickname = []
    · subst hnick
      rw [if_pos rfl, if_pos rfl]
      have hafter : ∀ v ∈ pre ++ post, v.mac ≠ some mac.val := by
        intro v hv
        rcases List.mem_append.mp hv with hv | hv
        · exact hpre v hv
        · exact hpost v hv
      exact ⟨fun _ => Or.inl hmem, fun _ => ⟨_, rfl, nicknameSet_deleted hafter hbefore⟩⟩
    · rw [if_neg hnick, if_neg hnick]
      apply nickname_result_iff
      exact nicknameSet_section hnick hpre hpost hbefore
  · have hall : ∀ v ∈ sections, v.mac ≠ some mac.val :=
      fun v hv heq => hmem (List.mem_map.mpr ⟨v, hv, heq⟩)
    have hbefore := (filter_absent hall).2
    rw [handleSetNickname_absent h mac nickname hmem]
    by_cases hnick : nickname = []
    · rw [if_pos hnick, if_pos hnick]
      constructor
      · rintro ⟨after, hrun, hset⟩
        obtain ⟨rfl, -⟩ := Prod.mk.inj (Option.some.inj hrun)
        have hshort := (filter_absent (fun v hv => hall v (List.mem_of_mem_dropLast hv))).2
        have hothers := hset.others
        rw [hbefore, hshort] at hothers
        -- the last section is gone
        have hlength := congrArg List.length hothers
        rw [List.length_dropLast] at hlength
        exact Or.inr (List.length_eq_zero_iff.mp (by omega))
      · rintro (hin | hempty)
        · exact absurd hin hmem
        · subst hempty
          subst hnick
          exact ⟨[], rfl, nicknameSet_deleted hall rfl⟩
    · rw [if_neg hnick, if_neg hnick]
      apply nickname_result_iff
      apply nicknameSet_section hnick hall (fun v hv => absurd hv List.not_mem_nil)
      rw [hbefore, List.append_nil]

/-! ## A nickname that is not there -/

def phoneEntryMac : NicknameMac := ⟨"02:00:00:00:00:11".toList, by decide⟩
def tabletEntryMac : NicknameMac := ⟨"02:00:00:00:00:12".toList, by decide⟩

/-- The phone has a nickname. -/
def phoneSection : UserInfo := { mac := some phoneEntryMac.val, nickname := some "Phone".toList }

theorem ownMacs_phone : OwnMacs [phoneSection] := by
  refine ⟨fun u hu => ?_, List.nodup_singleton _⟩
  rw [List.mem_singleton.mp hu]
  exact ⟨phoneEntryMac, rfl⟩

/-- A nickname for the tablet goes into a new section. -/
theorem set_nickname_tablet :
    OwnMacs [phoneSection] ∧
      ∃ after, handleSetNickname {} ⟨some tabletEntryMac.val, some "Tablet".toList⟩ [phoneSection] =
          some (after, 0) ∧
        NicknameSet tabletEntryMac.val "Tablet".toList [phoneSection] after := by
  refine ⟨ownMacs_phone, (set_nickname_iff _ ownMacs_phone tabletEntryMac _).mpr ?_⟩
  rw [if_neg (by decide)]
  decide

/-- The tablet has no nickname; deleting it deletes that of the phone. -/
theorem empty_nickname_deletes_other :
    OwnMacs [phoneSection] ∧
      handleSetNickname {} ⟨some tabletEntryMac.val, some []⟩ [phoneSection] = some ([], 0) ∧
      ¬ NicknameSet tabletEntryMac.val [] [phoneSection] [] := by
  refine ⟨ownMacs_phone, by decide, fun h => ?_⟩
  exact absurd h.others (by decide)

end OpenAppFilter.Theorems
