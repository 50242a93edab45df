import OpenAppFilter.Kernel.Frame

/-!
# The device lists of the kernel

`/dev/appfilter` replaces the two device lists as a whole. Whatever else
happens in the kernel, a list holds the addresses of the last message that set
it, and a message that is answered with -1 leaves both lists and the app table
as they were.
-/

namespace OpenAppFilter.Theorems

open Base Kernel

variable {env : Env}

/-! ## The two lists -/

/-- The commands `AF_CMD_SET_MAC_LIST` and `AF_CMD_SET_WHITELIST_MAC_LIST`. -/
inductive ListCmd where
  | macList
  | whitelistMacList

def ListCmd.op : ListCmd → Int
  | .macList => 4
  | .whitelistMacList => 5

def ListCmd.table (cmd : ListCmd) (k : OafState env) : Fin maxAfMacHashSize → List Mac :=
  match cmd with
  | .macList => k.afMacHtable
  | .whitelistMacList => k.afWhitelistMacHtable

/-- The list of an event that is answered with 0 and sets the table of `cmd`. -/
def setsList (cmd : ListCmd) (k : OafState env) : Event → Option (List CStr)
  | .config (some msg) =>
      if msg.op = some cmd.op ∧ (afConfigHandle k (some msg)).2 = 0 then
        msg.data.bind (·.macList)
      else none
  | _ => none

/-- The list of the last such event of a run. -/
def lastList (cmd : ListCmd) : OafState env → List Event → Option (List CStr)
  | _, [] => none
  | k, ev :: es => (lastList cmd (step k ev) es).or (setsList cmd k ev)

/-! ## One message -/

/-- A handler that needs a member of `data`: without it the answer is -1 and the
state is left, with it the answer is 0. -/
theorem afChangeAppStatus_eq (k : OafState env) (data : Option ConfigData) (status : Bool) :
    afChangeAppStatus k data status =
      match data.bind (·.apps) with
      | none => (k, -1)
      | some apps => (apps.foldl (fun k a => setAppStatus k a status) k, 0) := by
  cases data <;> rfl

theorem afConfigSetMacList_eq (k : OafState env) (data : Option ConfigData) :
    afConfigSetMacList k data =
      match data.bind (·.macList) with
      | none => (k, -1)
      | some macs => ({ k with afMacHtable := macListOf macs }, 0) := by
  cases data <;> rfl

theorem afConfigSetWhitelistMacList_eq (k : OafState env) (data : Option ConfigData) :
    afConfigSetWhitelistMacList k data =
      match data.bind (·.macList) with
      | none => (k, -1)
      | some macs => ({ k with afWhitelistMacHtable := macListOf macs }, 0) := by
  cases data <;> rfl

/-- The messages about apps leave the lists alone. -/
theorem table_afChangeAppStatus (cmd : ListCmd) (k : OafState env) (data : Option ConfigData)
    (status : Bool) : cmd.table (afChangeAppStatus k data status).1 = cmd.table k := by
  have hfold : ∀ (apps : List Int) (k : OafState env),
      cmd.table (apps.foldl (fun k a => setAppStatus k a status) k) = cmd.table k := by
    intro apps
    induction apps with
    | nil =>
        intro k
        rfl
    | cons a apps ih =>
        intro k
        rw [List.foldl_cons, ih]
        cases cmd <;> rfl
  rw [afChangeAppStatus_eq]
  cases data.bind (·.apps) with
  | none => rfl
  | some apps => exact hfold apps k

/-- A handler either fails and leaves the state, or answers 0. -/
theorem handler_cases {op : Int} {handler : OafState env → Option ConfigData → OafState env × Int}
    (hfind : afFindHandler op = some handler) (k : OafState env) (data : Option ConfigData) :
    handler k data = (k, -1) ∨ (handler k data).2 = 0 := by
  have happs : ∀ status, afChangeAppStatus k data status = (k, -1) ∨
      (afChangeAppStatus k data status).2 = 0 := by
    intro status
    rw [afChangeAppStatus_eq]
    cases data.bind (·.apps) with
    | none => exact Or.inl rfl
    | some apps => exact Or.inr rfl
  unfold afFindHandler at hfind
  split_ifs at hfind <;> obtain rfl := Option.some.inj hfind
  · exact happs true
  · exact happs false
  · exact Or.inr rfl
  · rw [afConfigSetMacList_eq]
    cases data.bind (·.macList) with
    | none => exact Or.inl rfl
    | some macs => exact Or.inr rfl
  · rw [afConfigSetWhitelistMacList_eq]
    cases data.bind (·.macList) with
    | none => exact Or.inl rfl
    | some macs => exact Or.inr rfl

/-- A message that names no handler is answered with -1, another one by its
handler. -/
theorem afConfigHandle_eq (k : OafState env) (msg : ConfigMsg) :
    afConfigHandle k (some msg) =
      match msg.op.bind afFindHandler with
      | none => (k, -1)
      | some handler =>
          ({ (handler k msg.data).1 with gUpdateJiffies := BitVec.ofNat 32 k.jiffies },
            (handler k msg.data).2) := by
  obtain ⟨op, data⟩ := msg
  cases op <;> rfl

/-- A message that is answered with -1 changes at most the stamp. -/
theorem afConfigHandle_failed {k : OafState env} {msg : Option ConfigMsg}
    (hret : (afConfigHandle k msg).2 = -1) :
    (afConfigHandle k msg).1 =
      { k with gUpdateJiffies := (afConfigHandle k msg).1.gUpdateJiffies } := by
  cases msg with
  | none => rfl
  | some m =>
      rw [afConfigHandle_eq] at hret ⊢
      cases hfind : m.op.bind (@afFindHandler env) with
      | none => rfl
      | some handler =>
          rw [hfind] at hret
          obtain ⟨op, -, hop⟩ := Option.bind_eq_some_iff.mp hfind
          rcases handler_cases hop k m.data with hfail | hok
          · simp only [hfail]
          · exact absurd (hret.symm.trans hok) (by decide)

/-- What the handler of a command does to the table of `cmd`. -/
theorem table_handler (cmd : ListCmd) {op : Int}
    {handler : OafState env → Option ConfigData → OafState env × Int}
    (hfind : afFindHandler op = some handler) (k : OafState env) (data : Option ConfigData) :
    cmd.table (handler k data).1 =
      if op = cmd.op ∧ (handler k data).2 = 0 then
        (data.bind (·.macList)).elim (cmd.table k) macListOf
      else cmd.table k := by
  unfold afFindHandler at hfind
  split_ifs at hfind with h1 h2 h3 h4 h5 <;> obtain rfl := Option.some.inj hfind
  · rw [if_neg (by subst h1; cases cmd <;> simp [ListCmd.op])]
    exact table_afChangeAppStatus cmd k data true
  · rw [if_neg (by subst h2; cases cmd <;> simp [ListCmd.op])]
    exact table_afChangeAppStatus cmd k data false
  · rw [if_neg (by subst h3; cases cmd <;> simp [ListCmd.op])]
    cases cmd <;> rfl
  · subst h4
    rw [afConfigSetMacList_eq]
    cases data.bind (·.macList) <;> cases cmd <;> rfl
  · subst h5
    rw [afConfigSetWhitelistMacList_eq]
    cases data.bind (·.macList) <;> cases cmd <;> rfl

/-- A message sets the table of `cmd` to its list, or leaves it. -/
theorem table_afConfigHandle (cmd : ListCmd) (k : OafState env) (msg : Option ConfigMsg) :
    cmd.table (afConfigHandle k msg).1 =
      (setsList cmd k (.config msg)).elim (cmd.table k) macListOf := by
  cases msg with
  | none => rfl
  | some m =>
      show _ = (if m.op = some cmd.op ∧ (afConfigHandle k (some m)).2 = 0 then
        m.data.bind (·.macList) else none).elim (cmd.table k) macListOf
      rw [afConfigHandle_eq]
      cases hfind : m.op.bind (@afFindHandler env) with
      | none =>
          rw [if_neg]
          · rfl
          · rintro ⟨-, hret⟩
            exact absurd (show (-1 : Int) = 0 from hret) (by decide)
      | some handler =>
          obtain ⟨op, hop, hhandler⟩ := Option.bind_eq_some_iff.mp hfind
          have htable := table_handler cmd hhandler k m.data
          have hstamp : ∀ (k : OafState env) (w : BitVec 32),
              cmd.table { k with gUpdateJiffies := w } = cmd.table k := by
            intro k w
            cases cmd <;> rfl
          dsimp only
          rw [hstamp, htable, hop]
          simp only [Option.some.injEq]
          split <;> rfl

/-! ## Runs -/

/-- Nothing but a message touches the lists. -/
theorem table_step (cmd : ListCmd) (k : OafState env) (ev : Event) :
    cmd.table (step k ev) = (setsList cmd k ev).elim (cmd.table k) macListOf := by
  have hquiet : ∀ k' : OafState env, Quiet k k' → cmd.table k' = cmd.table k := by
    intro k' h
    rw [h.config]
    cases cmd <;> rfl
  cases ev with
  | config msg => exact table_afConfigHandle cmd k msg
  | proc w => cases w <;> cases cmd <;> rfl
  | blockedMacs buffer =>
      show cmd.table (oafBlockedMacsHandler k buffer).1 = cmd.table k
      rw [oafBlockedMacsHandler_config]
      cases cmd <;> rfl
  | addFeature node => cases cmd <;> rfl
  | cleanFeature => cases cmd <;> rfl
  | pass ticks seconds => cases cmd <;> rfl
  | timer => exact hquiet _ (quiet_oafTimerFunc k)
  | ctMark ct mark => cases cmd <;> rfl
  | forward skb => exact hquiet _ (@steady_step_packet env k (.forward skb) rfl).toQuiet
  | preRouting skb => exact hquiet _ (@steady_step_packet env k (.preRouting skb) rfl).toQuiet

theorem table_run (cmd : ListCmd) (es : List Event) : ∀ k : OafState env,
    cmd.table (run step k es) = (lastList cmd k es).elim (cmd.table k) macListOf := by
  induction es with
  | nil =>
      intro k
      rfl
  | cons ev es ih =>
      intro k
      rw [run_cons, ih, table_step]
      show _ = ((lastList cmd (step k ev) es).or (setsList cmd k ev)).elim _ _
      cases lastList cmd (step k ev) es <;> rfl

/-- A device is in the list of `cmd`: `af_mac_find`, `af_whitelist_mac_find`. -/
def ListCmd.find (cmd : ListCmd) (k : OafState env) (mac : Mac) : Bool :=
  match cmd with
  | .macList => afMacFind k mac
  | .whitelistMacList => afWhitelistMacFind k mac

theorem find_iff_mem (cmd : ListCmd) (k : OafState env) (mac : Mac) :
    cmd.find k mac = true ↔ mac ∈ cmd.table k (hashMac mac) := by
  cases cmd <;> simp [ListCmd.find, ListCmd.table, afMacFind, afWhitelistMacFind]

/-- **The lists are replaced as a whole.** After every run of the kernel from its
start, with messages to `/dev/appfilter` at any place in it, a device is found
in a list iff the last message that set the list successfully has an element
that names it; and a message that is answered with -1 leaves both lists and the
app table as they were. -/
theorem mac_tables_follow_messages (jiffies : Nat) (es : List Event) :
    (∀ (cmd : ListCmd) (mac : Mac), cmd.find (run step (boot env jiffies) es) mac = true ↔
      ∃ macs, lastList cmd (boot env jiffies) es = some macs ∧
        ∃ s ∈ macs, macToHex s = some mac) ∧
    ∀ msg, (afConfigHandle (run step (boot env jiffies) es) msg).2 = -1 →
      (∀ cmd : ListCmd, cmd.table (step (run step (boot env jiffies) es) (.config msg)) =
        cmd.table (run step (boot env jiffies) es)) ∧
      (step (run step (boot env jiffies) es) (.config msg)).gAppIdArray =
        (run step (boot env jiffies) es).gAppIdArray := by
  refine ⟨?_, ?_⟩
  · intro cmd mac
    rw [find_iff_mem, table_run]
    cases hlast : lastList cmd (boot env jiffies) es with
    | none =>
        have hempty : cmd.table (boot env jiffies) (hashMac mac) = [] := by
          cases cmd <;> rfl
        simp [hempty]
    | some macs => simp [mem_macListOf]
  · intro msg hret
    have hsame := afConfigHandle_failed hret
    refine ⟨fun cmd => ?_, ?_⟩
    · show cmd.table (afConfigHandle _ msg).1 = _
      rw [hsame]
      cases cmd <;> rfl
    · show (afConfigHandle _ msg).1.gAppIdArray = _
      rw [hsame]

end OpenAppFilter.Theorems
