import OpenAppFilter.Kernel.System

/-!
# The set of filtered apps

The kernel keeps the set in 32 rows of 512 cells, one row for every thousand
ids. The ids of a row run to 999, so the upper half of a row's ids lies in the
lower half of the next row, and the last row's behind the table. An app then
shares its cell with its neighbour 488 ids away, and a message about either
decides both. With all ids in the lower 512 of their thousand the table is the
set the messages describe.
-/

namespace OpenAppFilter.Theorems

open Base Kernel

variable {env : Env}

/-! ## Messages and their meaning -/

/-- The commands that change the set. -/
inductive AppCmd where
  | add
  | del
  | clean

/-- A message to the app table. -/
structure AppMsg where
  cmd : AppCmd
  data : Option ConfigData

def AppMsg.toConfig (m : AppMsg) : ConfigMsg where
  op :=
    match m.cmd with
    | .add => some 1
    | .del => some 2
    | .clean => some 3
  data := m.data

/-- The ids a message lists. -/
def AppMsg.ids (m : AppMsg) : List Int := (m.data.bind (·.apps)).getD []

/-- The kernel after the messages, from a table that has just been cleared. -/
def afterMsgs (k : OafState env) (msgs : List AppMsg) : OafState env :=
  run (fun k m => (afConfigHandle k (some m.toConfig)).1) (afInitAppStatus k) msgs

/-- One message on the list of mentions since the last clean, newest first. -/
def mention (h : List (Int × Bool)) (m : AppMsg) : List (Int × Bool) :=
  match m.cmd with
  | .add => (m.ids.map (fun a => (a, true))).reverse ++ h
  | .del => (m.ids.map (fun a => (a, false))).reverse ++ h
  | .clean => []

def mentions (msgs : List AppMsg) : List (Int × Bool) := run mention [] msgs

/-- The last mention of an id in `p`: an add or a delete. -/
def lastMention (p : Int → Prop) [DecidablePred p] (h : List (Int × Bool)) : Option Bool :=
  (h.find? (fun m => p m.1)).map (·.2)

theorem lastMention_cons (p : Int → Prop) [DecidablePred p] (e : Int × Bool)
    (h : List (Int × Bool)) :
    lastMention p (e :: h) = if p e.1 then some e.2 else lastMention p h := by
  unfold lastMention
  rw [List.find?_cons]
  by_cases hp : p e.1 <;> simp [hp]

theorem lastMention_congr {p q : Int → Prop} [DecidablePred p] [DecidablePred q]
    {h : List (Int × Bool)} (hpq : ∀ e ∈ h, p e.1 ↔ q e.1) : lastMention p h = lastMention q h := by
  induction h with
  | nil => rfl
  | cons e h ih =>
      have hhead := hpq e List.mem_cons_self
      rw [lastMention_cons, lastMention_cons,
        ih (fun e' he' => hpq e' (List.mem_cons_of_mem _ he'))]
      simp only [hhead]

/-- The ids the gateway handler treats as classified. -/
def InRange (a : Int) : Prop := 1001 ≤ a ∧ a ≤ 31999

/-- `g_app_id_array[a / 1000][a % 1000]` is a cell of the table. -/
def InTable (a : Int) : Prop :=
  0 ≤ a.tdiv 1000 ∧ a.tdiv 1000 < 32 ∧ 0 ≤ a.tmod 1000 ∧ a.tmod 1000 < 512

/-! ## Cells -/

/-- Two ids with one cell: the upper half of a thousand and the lower half of
the next. -/
def Neighbour (a b : Int) : Prop :=
  (512 ≤ a % 1000 ∧ b = a + 488) ∨ (512 ≤ b % 1000 ∧ a = b + 488)

instance (a b : Int) : Decidable (Neighbour a b) := inferInstanceAs (Decidable (_ ∨ _))

theorem appCell_of_inRange {a : Int} (h : InRange a) :
    appCell a = 512 * (a / 1000) + a % 1000 := by
  have hpos : 0 ≤ a := by
    unfold InRange at h
    omega
  unfold appCell
  rw [Int.tdiv_eq_ediv_of_nonneg hpos, Int.tmod_eq_emod_of_nonneg hpos]

theorem appCell_eq_iff {a b : Int} (ha : InRange a) (hb : InRange b) :
    appCell b = appCell a ↔ b = a ∨ Neighbour a b := by
  rw [appCell_of_inRange ha, appCell_of_inRange hb]
  unfold Neighbour
  constructor
  · intro h
    omega
  · intro h
    omega

theorem inTable_iff {a : Int} (h : InRange a) : InTable a ↔ a % 1000 < 512 := by
  obtain ⟨hlo, hhi⟩ := h
  have hpos : 0 ≤ a := by omega
  unfold InTable
  rw [Int.tdiv_eq_ediv_of_nonneg hpos, Int.tmod_eq_emod_of_nonneg hpos]
  omega

/-! ## The table along the messages -/

/-- Every cell of the table holds the last mention of an id that lies there. -/
def Records (k : OafState env) (h : List (Int × Bool)) : Prop :=
  ∀ i, 0 ≤ i → i < 32 * 512 →
    k.gAppIdArray i = (lastMention (fun b => appCell b = i) h).getD false

theorem records_setAppStatus {k : OafState env} {h : List (Int × Bool)} (hk : Records k h)
    (a : Int) (b : Bool) : Records (setAppStatus k a b) ((a, b) :: h) := by
  intro i hlo hhi
  rw [lastMention_cons]
  unfold setAppStatus
  by_cases hi : i = appCell a
  · simp [hi]
  · have hne : ¬ appCell a = i := fun heq => hi heq.symm
    simpa only [if_neg hi, if_neg hne] using hk i hlo hhi

theorem records_changeAppStatus {k : OafState env} {h : List (Int × Bool)} (hk : Records k h)
    (ids : List Int) (b : Bool) :
    Records (ids.foldl (fun k a => setAppStatus k a b) k)
      ((ids.map (fun a => (a, b))).reverse ++ h) := by
  induction ids generalizing k h with
  | nil => exact hk
  | cons a ids ih =>
      have hrest := ih (records_setAppStatus hk a b)
      simpa using hrest

theorem records_init (k : OafState env) : Records (afInitAppStatus k) [] := by
  intro i hlo hhi
  simp [afInitAppStatus, lastMention, hlo]
  omega

/-- One message. -/
theorem records_step {k : OafState env} {h : List (Int × Bool)} (hk : Records k h) (m : AppMsg) :
    Records (afConfigHandle k (some m.toConfig)).1 (mention h m) := by
  have hchange : ∀ b, Records (afChangeAppStatus k m.data b).1
      ((m.ids.map (fun a => (a, b))).reverse ++ h) := by
    intro b
    unfold afChangeAppStatus AppMsg.ids
    cases m.data with
    | none => exact hk
    | some d =>
        obtain ⟨apps, macs⟩ := d
        cases apps with
        | none => exact hk
        | some apps => exact records_changeAppStatus hk apps b
  obtain ⟨cmd, data⟩ := m
  cases cmd with
  | add => exact hchange true
  | del => exact hchange false
  | clean => exact records_init k

theorem records_run {k : OafState env} {h : List (Int × Bool)} (hk : Records k h)
    (msgs : List AppMsg) :
    Records (run (fun k m => (afConfigHandle k (some m.toConfig)).1) k msgs)
      (run mention h msgs) := by
  induction msgs generalizing k h with
  | nil => exact hk
  | cons m msgs ih => exact ih (records_step hk m)

/-- Whatever is mentioned stands in some message. -/
theorem mem_mention {h : List (Int × Bool)} {m : AppMsg} {e : Int × Bool}
    (he : e ∈ mention h m) : e ∈ h ∨ e.1 ∈ m.ids := by
  unfold mention at he
  cases hcmd : m.cmd with
  | add =>
      simp only [hcmd, List.mem_append, List.mem_reverse, List.mem_map] at he
      rcases he with ⟨a, ha, rfl⟩ | he
      · exact Or.inr ha
      · exact Or.inl he
  | del =>
      simp only [hcmd, List.mem_append, List.mem_reverse, List.mem_map] at he
      rcases he with ⟨a, ha, rfl⟩ | he
      · exact Or.inr ha
      · exact Or.inl he
  | clean => simp [hcmd] at he

theorem mem_mentions {h : List (Int × Bool)} {msgs : List AppMsg} {e : Int × Bool}
    (he : e ∈ run mention h msgs) : e ∈ h ∨ ∃ m ∈ msgs, e.1 ∈ m.ids := by
  induction msgs generalizing h with
  | nil => exact Or.inl he
  | cons m msgs ih =>
      rcases ih he with he | ⟨m', hm', he⟩
      · rcases mem_mention he with he | he
        · exact Or.inl he
        · exact Or.inr ⟨m, List.mem_cons_self, he⟩
      · exact Or.inr ⟨m', List.mem_cons_of_mem _ hm', he⟩

/-! ## The result -/

/-- What the table answers for an app whose cell lies in it: the last mention of
the app or of its neighbour. -/
theorem afGetAppStatus_afterMsgs (k : OafState env) {msgs : List AppMsg}
    (hmsgs : ∀ m ∈ msgs, ∀ id ∈ m.ids, InRange id) {a : Int} (ha : InRange a) (hcell : a < 31512) :
    afGetAppStatus (afterMsgs k msgs) a =
      (lastMention (fun b => b = a ∨ Neighbour a b) (mentions msgs)).getD false := by
  have hrec := records_run (records_init k) msgs (appCell a)
  rw [appCell_of_inRange ha] at hrec
  unfold InRange at ha
  have hvalue := hrec (by omega) (by omega)
  unfold afGetAppStatus afterMsgs
  rw [appCell_of_inRange ha, hvalue]
  congr 1
  refine lastMention_congr ?_
  intro e he
  rcases mem_mentions he with he | ⟨m, hm, he⟩
  · simp at he
  · rw [← appCell_of_inRange ha]
    exact appCell_eq_iff ha (hmsgs m hm _ he)

/-- **The table is the set the messages describe**, inside its bounds, iff all
ids lie in the lower 512 of their thousand. In general an app's answer is the
last mention of the app or of its neighbour. -/
theorem app_table_iff (k : OafState env) (msgs : List AppMsg)
    (hmsgs : ∀ m ∈ msgs, ∀ id ∈ m.ids, InRange id) (a : Int) (ha : InRange a) :
    (((afGetAppStatus (afterMsgs k msgs) a = true ↔
          lastMention (· = a) (mentions msgs) = some true) ∧
        InTable a ∧ ∀ m ∈ msgs, ∀ id ∈ m.ids, InTable id) ↔
      a % 1000 < 512 ∧ ∀ m ∈ msgs, ∀ id ∈ m.ids, id % 1000 < 512) ∧
    (a < 31512 → (afGetAppStatus (afterMsgs k msgs) a = true ↔
      lastMention (fun b => b = a ∨ Neighbour a b) (mentions msgs) = some true)) := by
  have hanswer : a < 31512 → (afGetAppStatus (afterMsgs k msgs) a = true ↔
      lastMention (fun b => b = a ∨ Neighbour a b) (mentions msgs) = some true) := by
    intro hcell
    rw [afGetAppStatus_afterMsgs k hmsgs ha hcell]
    cases lastMention (fun b => b = a ∨ Neighbour a b) (mentions msgs) <;> simp
  refine ⟨?_, hanswer⟩
  constructor
  · rintro ⟨-, htab, hall⟩
    exact ⟨(inTable_iff ha).mp htab, fun m hm id hid => (inTable_iff (hmsgs m hm id hid)).mp
      (hall m hm id hid)⟩
  · rintro ⟨hlow, hall⟩
    refine ⟨?_, (inTable_iff ha).mpr hlow, fun m hm id hid =>
      (inTable_iff (hmsgs m hm id hid)).mpr (hall m hm id hid)⟩
    have hcell : a < 31512 := by
      unfold InRange at ha
      omega
    rw [hanswer hcell]
    -- no id in use is a neighbour of another
    have hsame : lastMention (fun b => b = a ∨ Neighbour a b) (mentions msgs) =
        lastMention (· = a) (mentions msgs) := by
      refine lastMention_congr ?_
      intro e he
      rcases mem_mentions he with he | ⟨m, hm, he⟩
      · simp at he
      · have hlow' := hall m hm _ he
        unfold Neighbour
        omega
    rw [hsame]

/-! ## Two apps in one cell -/

def appMsg (cmd : AppCmd) (ids : List Int) : AppMsg := ⟨cmd, some { apps := some ids }⟩

theorem app_table_two_apps :
    afGetAppStatus (afterMsgs (boot routerEnv 0) [appMsg .add [1001, 2001], appMsg .del [1001]])
      2001 = true := by
  have hmsgs : ∀ m ∈ [appMsg .add [1001, 2001], appMsg .del [1001]], ∀ id ∈ m.ids,
      1001 ≤ id ∧ id ≤ 31999 ∧ id % 1000 < 512 := by decide
  have hset := ((app_table_iff (boot routerEnv 0) _
    (fun m hm id hid => ⟨(hmsgs m hm id hid).1, (hmsgs m hm id hid).2.1⟩) 2001
    (by unfold InRange; decide)).1.mpr
    ⟨by decide, fun m hm id hid => (hmsgs m hm id hid).2.2⟩).1
  exact hset.mpr (by decide)

/-- Adding app 2000 filters app 1512, which no message mentions, and app 31999
lies behind the table. -/
theorem app_table_shared_cell :
    lastMention (· = 1512) (mentions [appMsg .add [2000]]) = none ∧
    afGetAppStatus (afterMsgs (boot routerEnv 0) [appMsg .add [2000]]) 1512 = true ∧
    ¬ InTable 31999 ∧ 32 * 512 ≤ appCell 31999 := by
  refine ⟨by decide, by decide, ?_, by decide⟩
  unfold InTable
  decide

end OpenAppFilter.Theorems
