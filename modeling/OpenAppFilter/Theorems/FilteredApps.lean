import OpenAppFilter.Daemon.AppList
import OpenAppFilter.Theorems.AppTable
import OpenAppFilter.Theorems.Selection

/-!
# The apps the page shows are the apps that are filtered

The list is stored as texts and read back twice: by the daemon for the page, and by
the script for the kernel. Both readings are the numbers that were stored, whatever
the number of apps, except that the daemon's buffer ends. After every event the
kernel's table stands for the numbers the script reads.
-/

namespace OpenAppFilter.Theorems

open Base Kernel Daemon

variable {env : Env}

/-! ## The texts -/

/-- The numbers with blanks between. -/
def appListText (ids : List Int32) : CStr := ((ids.map decimal).intersperse [' ']).flatten

theorem foldl_addIntList (ids : List Int32) : ∀ l : List CStr,
    ids.foldl afUciAddIntList (some (.list l)) = some (.list (l ++ ids.map decimal)) := by
  induction ids with
  | nil =>
      intro l
      rw [List.map_nil, List.append_nil]
      rfl
  | cons id ids ih =>
      intro l
      rw [List.foldl_cons, List.map_cons, List.append_cons]
      exact ih (l ++ [decimal id])

theorem storedAppList_cons (id : Int32) (ids : List Int32) :
    storedAppList (id :: ids) = some (.list ((id :: ids).map decimal)) :=
  foldl_addIntList ids [decimal id]

theorem listValue_storedAppList (ids : List Int32) :
    afUciGetListValue (storedAppList ids) = appListText ids := by
  cases ids with
  | nil => rfl
  | cons id ids => rw [storedAppList_cons]; rfl

theorem configGet_storedAppList (ids : List Int32) :
    configGet (storedAppList ids) = appListText ids := by
  cases ids with
  | nil => rfl
  | cons id ids => rw [storedAppList_cons]; rfl

theorem noSpace_decimal (id : Int32) : NoSpace (decimal id) := by
  intro c hc
  rcases mem_decimal hc with hdigit | rfl
  · exact (isSpace_of_isDigit hdigit).1
  · rfl

theorem blank_not_mem_decimal (id : Int32) : ' ' ∉ decimal id := by
  intro hmem
  exact absurd (noSpace_decimal id ' ' hmem) (by decide)

theorem map_atoi_decimal (ids : List Int32) : (ids.map decimal).map atoi = ids := by
  rw [List.map_map]
  exact (List.map_congr_left (fun id _ => atoi_decimal id)).trans (List.map_id ids)

/-- The daemon reads the numbers it stored, as far as its buffer goes. -/
theorem handleGetAppFilter_stored (ids : List Int32) :
    handleGetAppFilter (storedAppList ids) =
      if (appListText ids).length < maxAppfilterStrLen then some ids else none := by
  have htokens : tokens ' ' (appListText ids) = ids.map decimal := by
    apply tokens_join
    intro text htext
    obtain ⟨id, -, rfl⟩ := List.mem_map.mp htext
    exact ⟨List.ne_nil_of_length_pos (decimal_length_int32 id).1, blank_not_mem_decimal id⟩
  unfold handleGetAppFilter
  dsimp only
  rw [listValue_storedAppList, htokens, map_atoi_decimal]
  by_cases hfits : (appListText ids).length < maxAppfilterStrLen
  · rw [if_neg (by omega), if_pos hfits]
  · rw [if_pos (by omega), if_neg hfits]

theorem appListText_singleton (id : Int32) : appListText [id] = decimal id := by
  unfold appListText
  simp

theorem appListText_cons_cons (id id' : Int32) (ids : List Int32) :
    appListText (id :: id' :: ids) = decimal id ++ ' ' :: appListText (id' :: ids) := by
  unfold appListText
  simp

theorem appListText_ne_nil (id : Int32) (ids : List Int32) : appListText (id :: ids) ≠ [] := by
  have hne : decimal id ≠ [] := List.ne_nil_of_length_pos (decimal_length_int32 id).1
  cases ids with
  | nil =>
      rw [appListText_singleton]
      exact hne
  | cons id' ids =>
      rw [appListText_cons_cons]
      exact List.append_ne_nil_of_left_ne_nil hne _

/-- The colon ends the last number. -/
theorem atoi_words_colon (id : Int32) (ids : List Int32) :
    (words (appListText (id :: ids) ++ [':'])).map atoi = id :: ids := by
  induction ids generalizing id with
  | nil =>
      have hspace : NoSpace (decimal id ++ [':']) := by
        intro c hc
        rcases List.mem_append.mp hc with hc | hc
        · exact noSpace_decimal id c hc
        · rw [List.mem_singleton.mp hc]
          rfl
      rw [appListText_singleton, words_noSpace hspace, if_neg (List.append_ne_nil_of_right_ne_nil _ (by simp)),
        List.map_singleton, atoi_decimal_append id (digitStop_cons rfl [])]
  | cons id' ids ih =>
      rw [appListText_cons_cons, List.append_assoc, List.cons_append, words_append_space rfl,
        words_noSpace (noSpace_decimal id),
        if_neg (List.ne_nil_of_length_pos (decimal_length_int32 id).1), List.map_append, ih,
        List.map_singleton, atoi_decimal]
      rfl

/-- The script reads the numbers that were stored. -/
theorem loadRule_stored (ids : List Int32) : loadRule (storedAppList ids) = ids.map Int32.toInt := by
  unfold loadRule
  dsimp only
  rw [configGet_storedAppList]
  cases ids with
  | nil => rfl
  | cons id ids =>
      -- `for` takes the text word by word, the last word with the colon
      have hmap := congrArg (List.map Int32.toInt) (atoi_words_colon id ids)
      rw [List.map_map] at hmap
      rw [if_neg (appListText_ne_nil id ids)]
      exact hmap

/-! ## The kernel's table -/

/-- The cells of the table stand for a list of apps. -/
def CellsOf (apps : List Int) (k : OafState env) : Prop :=
  ∀ i, 0 ≤ i → i < 32 * 512 → k.gAppIdArray i = decide (∃ b ∈ apps, appCell b = i)

theorem CellsOf.congr {apps : List Int} {k k' : OafState env} (h : CellsOf apps k)
    (heq : k'.gAppIdArray = k.gAppIdArray) : CellsOf apps k' := by
  intro i hlo hhi
  rw [heq]
  exact h i hlo hhi

theorem array_setAppStatus (apps : List Int) (i : Int) : ∀ k : OafState env,
    (apps.foldl (fun k a => setAppStatus k a true) k).gAppIdArray i =
      (decide (∃ b ∈ apps, appCell b = i) || k.gAppIdArray i) := by
  induction apps with
  | nil =>
      intro k
      simp
  | cons a apps ih =>
      intro k
      rw [List.foldl_cons, ih]
      unfold setAppStatus
      by_cases hcell : i = appCell a
      · simp [hcell]
      · simp [hcell, Ne.symm hcell]

/-- A reload makes the table stand for the list it sends. -/
theorem cellsOf_reload (u : UserConfig) (k : OafState env) :
    CellsOf u.rule.apps (reloadOafRule u k) := by
  have hmacs : ∀ (op : Int) (macs : List CStr) (k : OafState env), op = 4 ∨ op = 5 →
      (step k (.config (some { op := some op, data := some { macList := some macs } }))).gAppIdArray =
        k.gAppIdArray := by
    intro op macs k hop
    rcases hop with rfl | rfl <;> rfl
  unfold reloadOafRule reloadRule
  rw [run_append, run_cons, run_cons, run_cons, run_cons, run_nil]
  intro i hlo hhi
  rw [hmacs 5 _ _ (Or.inr rfl), hmacs 4 _ _ (Or.inl rfl)]
  generalize hk : step (run step k (reloadBaseConfig u))
    (.config (some { op := some 3, data := some {} })) = k'
  have hclean : k'.gAppIdArray i = false := by
    rw [← hk]
    exact if_pos ⟨hlo, hhi⟩
  refine (array_setAppStatus u.rule.apps i k').trans ?_
  rw [hclean, Bool.or_false]

/-! ## Runs -/

/-- Every event that stores no options leaves them, and the table stands for their
list. -/
theorem userStep_keeps {s : UserState env} (h : CellsOf s.uci.rule.apps s.kernel) {act : UserAct}
    (hact : act.storesRule = false) :
    (userStep s act).uci.rule = s.uci.rule ∧ CellsOf s.uci.rule.apps (userStep s act).kernel := by
  have hcommit : ∀ u : UserConfig, u.rule = s.uci.rule →
      (s.commit u).uci.rule = s.uci.rule ∧ CellsOf s.uci.rule.apps (s.commit u).kernel := by
    intro u hu
    rw [← hu]
    exact ⟨rfl, cellsOf_reload u s.kernel⟩
  cases act with
  | setAppFilterUser mode =>
      cases mode with
      | none => exact ⟨rfl, h⟩
      | some mode => exact hcommit _ rfl
  | addAppFilterUser macs =>
      cases macs with
      | none => exact ⟨rfl, h⟩
      | some macs => exact hcommit _ rfl
  | delAppFilterUser mac =>
      cases mac with
      | none => exact ⟨rfl, h⟩
      | some mac => exact hcommit _ rfl
  | addWhitelistUser macs =>
      cases macs with
      | none => exact ⟨rfl, h⟩
      | some macs => exact hcommit _ rfl
  | delWhitelistUser mac =>
      cases mac with
      | none => exact ⟨rfl, h⟩
      | some mac => exact hcommit _ rfl
  | setAppFilter rule => exact Bool.noConfusion hact
  | announce => exact ⟨rfl, h⟩
  | setNickname => exact hcommit _ rfl
  | getAllUsers => exact ⟨rfl, h⟩
  | report mac active hour => exact ⟨rfl, h⟩
  | updateDevList leases clients => exact ⟨rfl, h⟩
  | updateOafStatus io clock =>
      have harray : (userStep s (.updateOafStatus io clock)).kernel.gAppIdArray = s.kernel.gAppIdArray :=
        view_oafStatus (fun _ _ => rfl) (fun _ _ => rfl) io clock s.daemon s.kernel
      exact ⟨rfl, h.congr harray⟩
  | flushDevExpireNode expired => exact ⟨rfl, h⟩
  | flushOfflineUsers => exact ⟨rfl, h⟩
  | configChange config =>
      have hstep : (userStep s (.configChange config)).uci = s.uci ∧
          (userStep s (.configChange config)).kernel = s.kernel := by
        unfold userStep
        dsimp only
        split <;> exact ⟨rfl, rfl⟩
      rw [hstep.1, hstep.2]
      exact ⟨rfl, h⟩
  | kernel ev hev =>
      have hquiet : Quiet s.kernel (step s.kernel ev) := by
        rcases Bool.or_eq_true_iff.mp hev with hpacket | htime
        · exact (steady_step_packet hpacket).toQuiet
        · exact quiet_step_time htime
      exact ⟨rfl, h.congr (by rw [show (userStep s (.kernel ev hev)).kernel = step s.kernel ev from rfl,
        hquiet.config])⟩

/-- The list that was chosen last. -/
def chosen (ids : List Int32) : AppListAct → List Int32
  | .setAppFilter ids' => ids'
  | _ => ids

/-- UCI has the list, the options what the script reads of it, and the kernel's table
stands for that. -/
structure ListPushed (ids : List Int32) (s : AppListState env) : Prop where
  stored : s.appList = storedAppList ids
  read : s.user.uci.rule.apps = ids.map Int32.toInt
  cells : CellsOf s.user.uci.rule.apps s.user.kernel

/-- Options stored with the numbers of a list. -/
theorem listPushed_options (rule : RuleConfig) (ids : List Int32) (user : UserState env) :
    ListPushed ids (⟨storedAppList ids,
      userStep user (.setAppFilter (rule.withList (storedAppList ids)))⟩ : AppListState env) := by
  constructor
  case stored => rfl
  case read => exact loadRule_stored ids
  case cells => exact cellsOf_reload _ _

theorem listPushed_step {ids : List Int32} {s : AppListState env} (h : ListPushed ids s)
    (a : AppListAct) : ListPushed (chosen ids a) (appListStep s a) := by
  cases a with
  | setAppFilter ids' => exact listPushed_options s.user.uci.rule ids' s.user
  | setOptions rule =>
      obtain ⟨appList, user⟩ := s
      obtain rfl : appList = storedAppList ids := h.stored
      exact listPushed_options rule ids user
  | other act hact =>
      obtain ⟨hrule, hcells⟩ := userStep_keeps h.cells hact
      constructor
      case stored => exact h.stored
      case read =>
        show (userStep s.user act).uci.rule.apps = _
        rw [hrule]
        exact h.read
      case cells =>
        show CellsOf (userStep s.user act).uci.rule.apps (userStep s.user act).kernel
        rw [hrule]
        exact hcells

theorem listPushed_run (es : List AppListAct) : ∀ {ids : List Int32} {s : AppListState env},
    ListPushed ids s → ListPushed (run chosen ids es) (run appListStep s es) := by
  induction es with
  | nil => exact fun h => h
  | cons e es ih => exact fun h => ih (listPushed_step h e)

theorem listPushed_start (u : UserConfig) (config : LoadedConfig) (jiffies : Nat) :
    ListPushed [] (appListStart u config jiffies : AppListState env) := by
  constructor
  case stored => rfl
  case read => rfl
  case cells => exact cellsOf_reload _ _

/-- An app with a cell of its own. -/
def OwnCell (a : Int32) : Prop := InRange a.toInt ∧ a.toInt % 1000 < 512

theorem filtered_iff {ids : List Int32} {s : AppListState env} (h : ListPushed ids s) {a : Int32}
    (ha : OwnCell a) (hids : ∀ b ∈ ids, OwnCell b) :
    afGetAppStatus s.user.kernel a.toInt = true ↔ a ∈ ids := by
  obtain ⟨⟨hlo, hhi⟩, hlower⟩ := ha
  have hcell := appCell_of_inRange ⟨hlo, hhi⟩
  have hvalue := h.cells (appCell a.toInt) (by omega) (by omega)
  unfold afGetAppStatus
  rw [hvalue, decide_eq_true_eq, h.read]
  constructor
  · rintro ⟨b, hb, heq⟩
    obtain ⟨id, hid, rfl⟩ := List.mem_map.mp hb
    obtain ⟨hrange, hlower'⟩ := hids id hid
    -- both lie in the lower half of their thousand, so they are no neighbours
    rcases (appCell_eq_iff ⟨hlo, hhi⟩ hrange).mp heq with hsame | hneighbour
    · rwa [← Int32.toInt_inj.mp hsame]
    · unfold Neighbour at hneighbour
      omega
  · exact fun hmem => ⟨a.toInt, List.mem_map_of_mem hmem, rfl⟩

/-- Three apps, then other options, then two apps. -/
def twoAppsChosen : List AppListAct :=
  [.setAppFilter [1001, 2005, 31001], .setOptions { workMode := some 1 }, .other .setNickname rfl,
    .setAppFilter [1001, 8007], .other (.addWhitelistUser none) rfl]

end OpenAppFilter.Theorems
