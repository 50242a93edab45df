import OpenAppFilter.Daemon.Users
import OpenAppFilter.Theorems.TodayBudget
import Mathlib.Data.List.Count

/-!
# User lists as sets

`add_app_filter_user` and `add_whitelist_user` append a section for every MAC
of the request, also for one that has a section already; the `del` methods
remove the first section with the MAC and stop. So a list holds each MAC a
number of times, which an `add` raises and a `del` lowers by one.

The list behaves as the set of the MACs whose last call was an `add` iff no
`del` meets a MAC that is stored more than once.
-/

namespace OpenAppFilter.Theorems

open Base Kernel Daemon

variable {env : Env}

/-! ## The two lists -/

/-- The lists of devices a user keeps. -/
inductive UserList where
  | afUser
  | whitelist

/-- The texts an `add` request of the list can hold. -/
def UserList.key : UserList → CStr
  | .afUser => afUserKey
  | .whitelist => whitelistKey

/-- The sections of the list. -/
def UserList.stored : UserList → UserConfig → List (Option CStr)
  | .afUser, u => u.afUsers
  | .whitelist, u => u.whitelist

/-- The list `oaf_rule` sends to the kernel. -/
def UserList.pushed : UserList → UserConfig → List CStr
  | .afUser, u => u.macList
  | .whitelist, u => listMacs u.whitelist

/-- The list is sent as it is stored: `af_user` only counts in user mode 1. -/
def UserList.InForce : UserList → UserConfig → Prop
  | .afUser, u => u.userMode = some 1
  | .whitelist, _ => True

/-- A call of one of the two methods of a list. -/
inductive ListCall (l : UserList) where
  | add (macs : List (MacText l.key))
  | del (mac : CStr)

/-- The ubus method a call is made to. -/
def ListCall.act : {l : UserList} → ListCall l → UserAct
  | .afUser, .add macs => .addAppFilterUser (some macs)
  | .afUser, .del mac => .delAppFilterUser (some mac)
  | .whitelist, .add macs => .addWhitelistUser (some macs)
  | .whitelist, .del mac => .delWhitelistUser (some mac)

/-- The sections after a call. -/
def ListCall.apply {l : UserList} (users : List (Option CStr)) : ListCall l → List (Option CStr)
  | .add macs => addUsers users macs
  | .del mac => delUser mac users []

theorem stored_call {l : UserList} (s : UserState env) (c : ListCall l) :
    l.stored (userStep s c.act).uci = c.apply (l.stored s.uci) ∧
      (userStep s c.act).uci.userMode = s.uci.userMode := by
  cases l with
  | afUser => cases c <;> exact ⟨rfl, rfl⟩
  | whitelist => cases c <;> exact ⟨rfl, rfl⟩

/-- One method call after the other. -/
def callStep {l : UserList} (s : UserState env) (c : ListCall l) : UserState env :=
  userStep s c.act

/-- The calls leave the user mode. -/
theorem inForce_run_iff {l : UserList} (calls : List (ListCall l)) :
    ∀ s : UserState env, l.InForce (run callStep s calls).uci ↔ l.InForce s.uci := by
  induction calls with
  | nil => exact fun s => Iff.rfl
  | cons c calls ih =>
      intro s
      rw [run_cons, ih]
      cases l with
      | afUser =>
          show (callStep s c).uci.userMode = some 1 ↔ s.uci.userMode = some 1
          rw [callStep, (stored_call s c).2]
      | whitelist => exact Iff.rfl

/-! ## How often a MAC is stored -/

/-- A text that can be a MAC: it is read back whole into `char mac_str[128]`. -/
def IsMacText (mac : CStr) : Prop := mac ≠ [] ∧ mac.length < 127

/-- A list in force is sent with every MAC that is stored. -/
theorem mem_pushed {l : UserList} {u : UserConfig} (h : l.InForce u) {mac : CStr}
    (hmac : IsMacText mac) : mac ∈ l.pushed u ↔ 0 < (l.stored u).count (some mac) := by
  have hlist : ∀ users : List (Option CStr), mac ∈ listMacs users ↔ 0 < users.count (some mac) := by
    intro users
    unfold listMacs
    rw [List.mem_filter, List.mem_filterMap, List.count_pos_iff]
    simp [hmac.1]
  cases l with
  | afUser =>
      show mac ∈ u.macList ↔ _
      unfold UserConfig.macList
      rw [show u.userMode = some 1 from h, if_pos (by decide +kernel)]
      exact hlist u.afUsers
  | whitelist => exact hlist u.whitelist

theorem count_addUsers {key mac : CStr} (hmac : IsMacText mac) (users : List (Option CStr))
    (macs : List (MacText key)) :
    (addUsers users macs).count (some mac) =
      users.count (some mac) + (macs.map Subtype.val).count mac := by
  unfold addUsers
  rw [List.count_append]
  congr 1
  induction macs with
  | nil => rfl
  | cons m macs ih =>
      have hset : afUciSetValue m.val = some mac ↔ m.val = mac := by
        unfold afUciSetValue
        split
        · rename_i hnil
          rw [hnil]
          simp [hmac.1.symm]
        · simp
      simp only [List.map_cons, List.count_cons, ih, beq_iff_eq, hset]

/-- A `del` call lowers the count of the MAC it names by one. -/
theorem count_delUser_self {mac : CStr} (hmac : IsMacText mac) (users : List (Option CStr)) :
    ∀ macStr, macStr ≠ mac →
      (delUser mac users macStr).count (some mac) = users.count (some mac) - 1 := by
  induction users with
  | nil =>
      intro macStr _
      rfl
  | cons user users ih =>
      intro macStr hbuf
      unfold delUser
      dsimp only
      cases user with
      | none =>
          -- the section has no MAC and the buffer keeps another one
          have hstale : macStr.take 127 ≠ mac := by
            intro h
            have hlen := congrArg List.length h
            rw [List.length_take] at hlen
            have hshort := hmac.2
            have hwhole : macStr.take 127 = macStr := List.take_of_length_le (by omega)
            exact hbuf (hwhole ▸ h)
          rw [Option.getD_none, if_neg hstale, List.count_cons, List.count_cons, ih _ hstale]
          simp
      | some t =>
          rw [Option.getD_some]
          by_cases ht : t = mac
          · have htake : t.take 127 = mac := by
              rw [ht]
              exact List.take_of_length_le (Nat.le_of_lt hmac.2)
            rw [if_pos htake, ht, List.count_cons_self, Nat.add_sub_cancel]
          · have hother : t.take 127 ≠ mac := by
              intro h
              have hlen := congrArg List.length h
              rw [List.length_take] at hlen
              have hshort := hmac.2
              have hwhole : t.take 127 = t := List.take_of_length_le (by omega)
              exact ht (hwhole ▸ h)
            have hne : (some t == some mac) = false := by simp [ht]
            rw [if_neg hother, List.count_cons, List.count_cons, ih _ hother, hne]
            rfl

/-- It leaves every other count. -/
theorem count_delUser_other {mac m : CStr} (hmac : IsMacText mac) (hne : m ≠ mac)
    (users : List (Option CStr)) :
    ∀ macStr, (delUser m users macStr).count (some mac) = users.count (some mac) := by
  induction users with
  | nil =>
      intro macStr
      rfl
  | cons user users ih =>
      intro macStr
      unfold delUser
      dsimp only
      split
      · rename_i hhit
        have huser : user ≠ some mac := by
          rintro rfl
          rw [Option.getD_some, List.take_of_length_le (Nat.le_of_lt hmac.2)] at hhit
          exact hne hhit.symm
        rw [List.count_cons_of_ne huser]
      · rw [List.count_cons, List.count_cons, ih]

/-! ## The set law -/

/-- What a call says about a MAC: `true` for an `add`, `false` for a `del`. -/
def ListCall.mention {l : UserList} (mac : CStr) : ListCall l → Option Bool
  | .add macs => if mac ∈ macs.map Subtype.val then some true else none
  | .del m => if m = mac then some false else none

/-- What the last call that mentions the MAC said. -/
def lastCommand {l : UserList} (mac : CStr) (calls : List (ListCall l)) : Option Bool :=
  calls.foldl (fun last c => (c.mention mac).or last) none

/-- A `del` call that finds its MAC stored once at most. -/
def DeletesAll {l : UserList} (s : UserState env) : ListCall l → Prop
  | .add _ => True
  | .del mac => IsMacText mac → (l.stored s.uci).count (some mac) ≤ 1

/-- After the calls a MAC is in the list sent to the kernel iff the last call that
mentions it was an `add`. -/
def SetLaw (l : UserList) (s : UserState env) (calls : List (ListCall l)) : Prop :=
  ∀ mac, IsMacText mac →
    (mac ∈ l.pushed (run callStep s calls).uci ↔ lastCommand mac calls = some true)

theorem lastMention_append {l : UserList} (mac : CStr) (calls : List (ListCall l))
    (c : ListCall l) :
    lastCommand mac (calls ++ [c]) = (c.mention mac).or (lastCommand mac calls) := by
  simp [lastCommand, List.foldl_append]

/-- One call keeps the law for a MAC, if it removes the MAC altogether. -/
theorem stored_call_iff {l : UserList} {s : UserState env} {c : ListCall l} {mac : CStr}
    {last : Option Bool} (hmac : IsMacText mac)
    (h : 0 < (l.stored s.uci).count (some mac) ↔ last = some true) (hc : DeletesAll s c) :
    0 < (l.stored (callStep s c).uci).count (some mac) ↔ (c.mention mac).or last = some true := by
  unfold callStep
  rw [(stored_call s c).1]
  cases c with
  | add macs =>
      show 0 < (addUsers _ macs).count (some mac) ↔ _
      rw [count_addUsers hmac]
      dsimp only [ListCall.mention]
      by_cases hin : mac ∈ macs.map Subtype.val
      · have hpos := List.count_pos_iff.mpr hin
        rw [if_pos hin]
        simp only [Option.some_or, iff_true]
        omega
      · rw [if_neg hin, List.count_eq_zero.mpr hin, Nat.add_zero, Option.none_or]
        exact h
  | del m =>
      show 0 < (delUser m _ []).count (some mac) ↔ _
      dsimp only [ListCall.mention]
      by_cases hm : m = mac
      · subst hm
        have hone := hc hmac
        rw [count_delUser_self hmac _ _ (Ne.symm hmac.1), if_pos rfl]
        simp only [Option.some_or, Option.some.injEq, Bool.false_eq_true, iff_false]
        omega
      · rw [count_delUser_other hmac hm, if_neg hm, Option.none_or]
        exact h

/-- A list in force behaves as a set at every moment of the calls iff no `del`
call meets a MAC that is stored more than once. -/
theorem setLaw_iff (l : UserList) (s : UserState env) (calls : List (ListCall l))
    (hempty : l.stored s.uci = []) (hforce : l.InForce s.uci) :
    (∀ pre post, calls = pre ++ post → SetLaw l s pre) ↔
      EveryStep callStep DeletesAll s calls := by
  have hpushed : ∀ pre : List (ListCall l), ∀ mac, IsMacText mac →
      (mac ∈ l.pushed (run callStep s pre).uci ↔
        0 < (l.stored (run callStep s pre).uci).count (some mac)) :=
    fun pre mac hmac => mem_pushed ((inForce_run_iff pre s).mpr hforce) hmac
  constructor
  · intro hlaw pre c post heq
    cases c with
    | add macs => trivial
    | del mac =>
        intro hmac
        -- after the call its MAC must be gone
        have hgone := hlaw (pre ++ [.del mac]) post (by rw [heq]; simp) mac hmac
        rw [hpushed _ mac hmac, lastMention_append, run_append, run_cons, run_nil] at hgone
        have hcount : (l.stored (callStep (run callStep s pre)
            (ListCall.del mac : ListCall l)).uci).count (some mac) =
              (l.stored (run callStep s pre).uci).count (some mac) - 1 := by
          unfold callStep
          rw [(stored_call _ _).1]
          exact count_delUser_self hmac _ _ (Ne.symm hmac.1)
        rw [hcount] at hgone
        simp only [ListCall.mention, if_true, Option.some_or, Option.some.injEq, Bool.false_eq_true, iff_false]
          at hgone
        omega
  · intro hdel pre
    -- the law holds before the calls, and each call keeps it
    induction pre using List.reverseRecOn with
    | nil =>
        intro post _ mac hmac
        rw [hpushed [] mac hmac, run_nil, hempty]
        simp [lastCommand]
    | append_singleton pre c ih =>
        intro post heq mac hmac
        have hsplit : calls = pre ++ c :: post := by rw [heq]; simp
        have hbefore := ih (c :: post) hsplit mac hmac
        rw [hpushed pre mac hmac] at hbefore
        rw [hpushed _ mac hmac, lastMention_append, run_append]
        exact stored_call_iff hmac hbefore (hdel pre c post hsplit)

/-- Outside user mode 1 the list of `af_user` is sent empty. -/
theorem pushed_of_not_inForce {l : UserList} {u : UserConfig} (h : ¬ l.InForce u) : l.pushed u = [] := by
  cases l with
  | afUser =>
      show u.macList = []
      unfold UserConfig.macList
      refine if_neg (fun hone => h ?_)
      obtain ⟨mode, hmode, htext⟩ := Option.map_eq_some_iff.mp hone
      have hmode1 : mode = 1 := decimal_injective (htext.trans (by decide +kernel))
      show u.userMode = some 1
      rw [hmode, hmode1]
  | whitelist => exact absurd trivial h

/-- **The lists behave as sets** at every moment of a row of calls on an empty
list iff no `del` call meets a MAC that is stored more than once, as far as they
are sent: outside user mode 1 the kernel gets an empty list for `af_user`. -/
theorem user_list_set_iff (l : UserList) (s : UserState env) (calls : List (ListCall l))
    (hempty : l.stored s.uci = []) :
    (l.InForce s.uci →
      ((∀ pre post, calls = pre ++ post → SetLaw l s pre) ↔ EveryStep callStep DeletesAll s calls)) ∧
      (¬ l.InForce s.uci → l.pushed (run callStep s calls).uci = []) := by
  refine ⟨setLaw_iff l s calls hempty, ?_⟩
  intro hnot
  apply pushed_of_not_inForce
  rw [inForce_run_iff]
  exact hnot

/-! ## One MAC, added twice -/

def phoneEntry : MacText UserList.afUser.key := ⟨phoneText, by decide +kernel⟩

/-- The daemon and the kernel after their start in user mode 1, with empty lists. -/
def manualStart : UserState routerEnv := userStart { userMode := some 1 } hourConfig 0

theorem user_list_set_once :
    SetLaw .afUser manualStart [.add [phoneEntry], .del phoneText] := by
  refine ((user_list_set_iff .afUser manualStart [.add [phoneEntry], .del phoneText] rfl).1 rfl).mpr ?_
    _ [] (by simp)
  rw [everyStep_cons, everyStep_cons]
  refine ⟨trivial, ?_, everyStep_nil _⟩
  intro _
  decide +kernel

/-- The second `add` makes a second section, and `del` takes one of the two away. -/
theorem user_list_keeps_deleted :
    lastCommand phoneText [.add [phoneEntry], .add [phoneEntry], .del phoneText] = some false ∧
      phoneText ∈ UserList.afUser.pushed
        (run callStep manualStart [.add [phoneEntry], .add [phoneEntry], .del phoneText]).uci ∧
      ¬ SetLaw .afUser manualStart [.add [phoneEntry], .add [phoneEntry], .del phoneText] := by
  have hlast : lastCommand phoneText [.add [phoneEntry], .add [phoneEntry], .del phoneText] =
      some false := by
    decide +kernel
  have hthere : phoneText ∈ UserList.afUser.pushed
      (run callStep manualStart [.add [phoneEntry], .add [phoneEntry], .del phoneText]).uci := by
    decide +kernel
  refine ⟨hlast, hthere, ?_⟩
  intro hlaw
  have hadd := (hlaw phoneText ⟨by decide, by decide⟩).mp hthere
  rw [hlast] at hadd
  exact absurd hadd (by decide)

end OpenAppFilter.Theorems
