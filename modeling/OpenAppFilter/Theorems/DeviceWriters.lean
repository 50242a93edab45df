import OpenAppFilter.Theorems.DeviceText
import OpenAppFilter.Theorems.MacTables
import OpenAppFilter.Daemon.Users

/-!
# Writers of `/dev/appfilter`

Several processes write messages to the device in pieces while packets pass and
switches are written. The kernel goes through a run of the module's events in
which every message stands as a whole, in the order of the closings
(`writers_refine_events`). For `oaf_rule reload` this says that scripts that run
into each other leave what one of them leaves (`overlapping_reloads`), though
each starts by clearing the apps the others have sent.
-/

namespace OpenAppFilter.Theorems

open Base Kernel Daemon

variable {env : Env} {signedChar : Bool}

/-! ## Messages in pieces -/

/-- The pieces of a message: white space, the text of an array or object that is
handled safely, and what follows it, no more than the buffer holds. -/
structure Spells (signedChar : Bool) (pieces : List (List Char)) (msg : ConfigMsg) : Prop where
  text : ∃ b t rest v, pieces.flatten = b ++ (t ++ rest) ∧ Blank b ∧ IsText Blank v t ∧
    v.isContainer = true ∧ Readable signedChar t ∧ handledSafely v = true ∧ msg = messageOf v
  no_nul : '\x00' ∉ pieces.flatten
  fits : pieces.flatten.length ≤ Device.bufSize

/-- The writes of a message that fits are all carried out. -/
theorem fill_afCdev (pieces : List (List Char)) : ∀ buf : List Char,
    buf.length + pieces.flatten.length ≤ Device.bufSize →
    (@Device.afCdev env signedChar).fill buf pieces = buf ++ pieces.flatten := by
  induction pieces with
  | nil =>
      intro buf _
      simp [Resource.fill]
  | cons piece pieces ih =>
      intro buf hfits
      rw [List.flatten_cons, List.length_append] at hfits
      have hput : (@Device.afCdev env signedChar).put buf piece = some (buf ++ piece) := by
        show Device.afCdevWrite buf piece = _
        unfold Device.afCdevWrite
        rw [if_neg (by omega)]
      rw [Resource.fill, hput]
      dsimp only
      rw [ih (buf ++ piece) (by rw [List.length_append]; omega), List.flatten_cons,
        List.append_assoc]

/-- A buffer that stands for a message. -/
def StandsFor (env : Env) (signedChar : Bool) (buf : List Char) (msg : ConfigMsg) : Prop :=
  ∀ k : OafState env, Device.afCdevRelease signedChar (some k) buf =
    some (step k (.config (some msg)))

theorem standsFor_fill {pieces : List (List Char)} {msg : ConfigMsg}
    (h : Spells signedChar pieces msg) :
    StandsFor env signedChar
      ((@Device.afCdev env signedChar).fill (@Device.afCdev env signedChar).empty
        pieces) msg := by
  obtain ⟨b, t, rest, v, hflat, hb, ht, hv, hread, hsafe, rfl⟩ := h.text
  intro k
  have hfill := @fill_afCdev env signedChar pieces [] (by
    have hfits := h.fits
    rw [List.length_nil]
    omega)
  rw [List.nil_append] at hfill
  have hlen : pieces.flatten.length ≠ 0 := by
    have hvis := ht.visible.ne_nil
    rw [hflat]
    simp [hvis]
  show Option.map Prod.fst (Device.afConfigHandle signedChar k
    (cString (Resource.fill _ [] pieces)) (Resource.fill _ [] pieces).length) = _
  rw [hfill, cString_of_no_nul h.no_nul, hflat] at *
  rw [afConfigHandle_text hb ht hv hread rest k hlen, if_pos hsafe]
  rfl

/-! ## The history of messages -/

variable {ι : Type*}

/-- An entry of a history of whole messages as an event of the module. -/
def eventOf : (ι × ConfigMsg) ⊕ Event → Event
  | .inl m => .config (some m.2)
  | .inr e => e

theorem run_lift {h : List ((ι × List Char) ⊕ Event)} {h' : List ((ι × ConfigMsg) ⊕ Event)}
    (hlift : List.Forall₂
      (Sum.LiftRel (fun x y => x.1 = y.1 ∧ StandsFor env signedChar x.2 y.2) Eq) h h')
    (k : OafState env) :
    run (@Device.afCdev env signedChar).serialStep (some k) h =
      some (run step k (h'.map eventOf)) := by
  induction hlift generalizing k with
  | nil => rfl
  | cons hx _ ih =>
      cases hx with
      | inl hx =>
          rw [run_cons, List.map_cons, run_cons, ← ih]
          congr 1
          exact hx.2 k
      | inr he =>
          subst he
          rw [run_cons, List.map_cons, run_cons, ← ih]
          rfl

variable [DecidableEq ι]

/-- A writer that has closed the device behind its last message. -/
def Finished (s : Sessions ι (List Char) (List Char) (Option (OafState env))) (p : ι) : Prop :=
  (∀ x, s.holder = some x → x.1 ≠ p) ∧ s.scripts p = []

/-- A writer that has not opened the device. -/
def Unstarted (scripts : ι → List (List (List Char)))
    (s : Sessions ι (List Char) (List Char) (Option (OafState env))) (p : ι) : Prop :=
  (∀ x, s.holder = some x → x.1 ≠ p) ∧ s.scripts p = scripts p

theorem waiting_not_holder {s : Sessions ι (List Char) (List Char) (Option (OafState env))} {p : ι}
    (h : ∀ x, s.holder = some x → x.1 ≠ p) :
    (@Device.afCdev env signedChar).waiting s p =
      (s.scripts p).map ((@Device.afCdev env signedChar).fill []) := by
  unfold Resource.waiting Resource.held
  cases hholder : s.holder with
  | none => rfl
  | some x =>
      obtain ⟨q, buf, rest⟩ := x
      have hq : q ≠ p := h _ hholder
      dsimp only
      rw [if_neg hq]
      rfl

/-- The run of the device and the run of whole messages it comes down to. -/
theorem writers_history (k : OafState env) {scripts : ι → List (List (List Char))}
    {msgs : ι → List ConfigMsg}
    (hspell : ∀ p, List.Forall₂ (Spells signedChar) (scripts p) (msgs p)) (acts : List (ι ⊕ Event)) :
    ∃ h : List ((ι × ConfigMsg) ⊕ Event),
      (run (Device.afCdev signedChar).step (Device.idle k scripts) acts).state =
        some (run step k (h.map eventOf)) ∧
      h.filterMap Sum.getRight? = acts.filterMap Sum.getRight? ∧
      ∀ p, ∃ rest, Resource.sentBy p h ++ rest = msgs p ∧
        rest.length = ((Device.afCdev signedChar).waiting
          (run (Device.afCdev signedChar).step (Device.idle k scripts) acts) p).length := by
  have hstands : ∀ p, List.Forall₂ (StandsFor env signedChar)
      (Resource.sentBy p ((Device.afCdev signedChar).history (Device.idle k scripts) acts) ++
        (Device.afCdev signedChar).waiting
          (run (Device.afCdev signedChar).step (Device.idle k scripts) acts) p) (msgs p) := by
    intro p
    rw [Resource.run_sent]
    show List.Forall₂ _ ((scripts p).map _) (msgs p)
    rw [List.forall₂_map_left_iff]
    exact (hspell p).imp (fun _ _ => standsFor_fill)
  obtain ⟨h', hlift, hsent⟩ := Resource.lift_sent _ _ _ hstands
  refine ⟨h', ?_, ?_, ?_⟩
  · rw [Resource.run_state]
    exact run_lift hlift k
  · rw [Resource.lift_events hlift, Resource.run_events]
  · intro p
    obtain ⟨rest, hrest, heq⟩ := hsent p
    exact ⟨rest, heq, hrest.length_eq.symm⟩

/-- What a writer has sent that is between two sessions. -/
theorem sent_between {s : Sessions ι (List Char) (List Char) (Option (OafState env))} {p : ι}
    {sent rest msgs : List ConfigMsg} (heq : sent ++ rest = msgs)
    (hlen : rest.length = ((@Device.afCdev env signedChar).waiting s p).length)
    (hfree : ∀ x, s.holder = some x → x.1 ≠ p) : sent.length + (s.scripts p).length = msgs.length := by
  rw [waiting_not_holder hfree, List.length_map] at hlen
  rw [← heq, List.length_append, hlen]

theorem sent_finished {s : Sessions ι (List Char) (List Char) (Option (OafState env))} {p : ι}
    {sent rest msgs : List ConfigMsg} (heq : sent ++ rest = msgs)
    (hlen : rest.length = ((@Device.afCdev env signedChar).waiting s p).length)
    (hdone : Finished s p) : sent = msgs := by
  have hcount := sent_between heq hlen hdone.1
  rw [hdone.2, List.length_nil, Nat.add_zero] at hcount
  exact List.IsPrefix.eq_of_length ⟨rest, heq⟩ hcount

/-- The messages of `reload_rule`, in order. -/
def reloadMsgs (u : UserConfig) : List ConfigMsg :=
  [{ op := some 3, data := some {} },
    { op := some 1, data := some { apps := some u.rule.apps } },
    { op := some 4, data := some { macList := some u.macList } },
    { op := some 5, data := some { macList := some (listMacs u.whitelist) } }]

theorem reloadRule_eq (u : UserConfig) :
    reloadRule u = (reloadMsgs u).map (fun m => .config (some m)) := rfl

/-- An event that is no message. -/
def Beside (ev : Event) : Prop := ∀ msg, ev ≠ .config msg

/-- An event while reloads are under way. -/
def DuringReload (u : UserConfig) (ev : Event) : Prop :=
  Beside ev ∨ ∃ m ∈ reloadMsgs u, ev = .config (some m)

/-- The cell of a configured app. -/
def Configured (u : UserConfig) (i : Int) : Prop := ∃ a ∈ u.rule.apps, appCell a = i

/-- Only messages touch the cells. -/
theorem cells_beside (k : OafState env) {ev : Event} (h : Beside ev) :
    (step k ev).gAppIdArray = k.gAppIdArray := by
  have hquiet : ∀ k' : OafState env, Quiet k k' → k'.gAppIdArray = k.gAppIdArray := by
    intro k' h
    rw [h.config]
  cases ev with
  | config msg => exact absurd rfl (h msg)
  | proc w => cases w <;> rfl
  | blockedMacs buffer =>
      show (oafBlockedMacsHandler k buffer).1.gAppIdArray = k.gAppIdArray
      rw [oafBlockedMacsHandler_config]
  | addFeature node => rfl
  | cleanFeature => rfl
  | pass ticks seconds => rfl
  | timer => exact hquiet _ (quiet_oafTimerFunc k)
  | ctMark ct mark => rfl
  | forward skb => exact hquiet _ (@steady_step_packet env k (.forward skb) rfl).toQuiet
  | preRouting skb => exact hquiet _ (@steady_step_packet env k (.preRouting skb) rfl).toQuiet

theorem cells_addApps (apps : List Int) : ∀ (k : OafState env) (i : Int),
    (apps.foldl (fun k a => setAppStatus k a true) k).gAppIdArray i = true ↔
      k.gAppIdArray i = true ∨ ∃ a ∈ apps, appCell a = i := by
  induction apps with
  | nil =>
      intro k i
      simp
  | cons a apps ih =>
      intro k i
      rw [List.foldl_cons, ih]
      by_cases hi : i = appCell a
      · simp [setAppStatus, hi]
      · simp [setAppStatus, hi, Ne.symm hi]

/-- The three kinds of messages of a reload on the cells. -/
theorem cells_reload (u : UserConfig) (k : OafState env) {m : ConfigMsg} (hm : m ∈ reloadMsgs u)
    {i : Int} (hlo : 0 ≤ i) (hhi : i < 32 * 512) :
    (step k (.config (some m))).gAppIdArray i = true ↔
      m.op ≠ some 3 ∧ (k.gAppIdArray i = true ∨ (m.op = some 1 ∧ Configured u i)) := by
  simp only [reloadMsgs, List.mem_cons, List.not_mem_nil, or_false] at hm
  rcases hm with rfl | rfl | rfl | rfl
  · show (afInitAppStatus k).gAppIdArray i = true ↔ _
    simp [afInitAppStatus, hlo, show i < 16384 from hhi]
  · show (u.rule.apps.foldl (fun k a => setAppStatus k a true) k).gAppIdArray i = true ↔ _
    rw [cells_addApps]
    simp [Configured]
  · show k.gAppIdArray i = true ↔ _
    simp
  · show k.gAppIdArray i = true ↔ _
    simp

/-- The list a reload sends for a table. -/
def ListCmd.reloaded (u : UserConfig) : ListCmd → List CStr
  | .macList => u.macList
  | .whitelistMacList => listMacs u.whitelist

def ListCmd.reloadMsg (u : UserConfig) (cmd : ListCmd) : ConfigMsg :=
  { op := some cmd.op, data := some { macList := some (cmd.reloaded u) } }

theorem ListCmd.reloadMsg_mem (u : UserConfig) (cmd : ListCmd) :
    cmd.reloadMsg u ∈ reloadMsgs u := by
  cases cmd <;> simp [reloadMsgs, ListCmd.reloadMsg, ListCmd.op, ListCmd.reloaded]

theorem table_reloadMsg (u : UserConfig) (cmd : ListCmd) (k : OafState env) :
    cmd.table (step k (.config (some (cmd.reloadMsg u)))) = macListOf (cmd.reloaded u) := by
  cases cmd <;> rfl

/-- During a reload a table is left alone or replaced by the configured list. -/
theorem table_during (u : UserConfig) (cmd : ListCmd) (k : OafState env) {ev : Event}
    (h : DuringReload u ev) : cmd.table (step k ev) = cmd.table k ∨
      cmd.table (step k ev) = macListOf (cmd.reloaded u) := by
  rcases h with hbeside | ⟨m, hm, rfl⟩
  · have hnone : setsList cmd k ev = none := by
      cases ev with
      | config msg => exact absurd rfl (hbeside msg)
      | _ => rfl
    rw [table_step, hnone]
    exact Or.inl rfl
  · simp only [reloadMsgs, List.mem_cons, List.not_mem_nil, or_false] at hm
    rcases hm with rfl | rfl | rfl | rfl
    · exact Or.inl (by cases cmd <;> rfl)
    · exact Or.inl (table_afChangeAppStatus cmd k _ true)
    · cases cmd
      · exact Or.inr rfl
      · exact Or.inl rfl
    · cases cmd
      · exact Or.inl rfl
      · exact Or.inr rfl

/-! ## Runs -/

/-- No cell is set during a reload but those of configured apps. -/
theorem run_cells_during (u : UserConfig) {es : List Event} (hes : ∀ ev ∈ es, DuringReload u ev)
    {i : Int} (hlo : 0 ≤ i) (hhi : i < 32 * 512) {k : OafState env}
    (h : (run step k es).gAppIdArray i = true) : k.gAppIdArray i = true ∨ Configured u i := by
  induction es generalizing k with
  | nil => exact Or.inl h
  | cons ev es ih =>
      rw [run_cons] at h
      rcases ih (fun e he => hes e (List.mem_cons_of_mem ev he)) h with hcell | hconf
      · rcases hes ev List.mem_cons_self with hbeside | ⟨m, hm, rfl⟩
        · rw [cells_beside k hbeside] at hcell
          exact Or.inl hcell
        · exact ((cells_reload u k hm hlo hhi).mp hcell).2.imp id And.right
      · exact Or.inr hconf

/-- A set cell stays set until the next cleaning. -/
theorem run_cells_stay (u : UserConfig) {es : List Event} (hes : ∀ ev ∈ es, DuringReload u ev)
    (hclean : ∀ m, .config (some m) ∈ es → m.op ≠ some 3) {i : Int} (hlo : 0 ≤ i)
    (hhi : i < 32 * 512) {k : OafState env} (h : k.gAppIdArray i = true) :
    (run step k es).gAppIdArray i = true := by
  induction es generalizing k with
  | nil => exact h
  | cons ev es ih =>
      rw [run_cons]
      refine ih (fun e he => hes e (List.mem_cons_of_mem ev he))
        (fun m hm => hclean m (List.mem_cons_of_mem ev hm)) ?_
      rcases hes ev List.mem_cons_self with hbeside | ⟨m, hm, rfl⟩
      · rw [cells_beside k hbeside]
        exact h
      · exact (cells_reload u k hm hlo hhi).mpr ⟨hclean m List.mem_cons_self, Or.inl h⟩

theorem run_table_during (u : UserConfig) (cmd : ListCmd) {es : List Event}
    (hes : ∀ ev ∈ es, DuringReload u ev) {k : OafState env} :
    cmd.table (run step k es) = cmd.table k ∨
      cmd.table (run step k es) = macListOf (cmd.reloaded u) := by
  induction es generalizing k with
  | nil => exact Or.inl rfl
  | cons ev es ih =>
      rw [run_cons]
      rcases @ih (fun e he => hes e (List.mem_cons_of_mem ev he)) (step k ev) with h | h
      · rw [h]
        exact table_during u cmd k (hes ev List.mem_cons_self)
      · exact Or.inr h

/-- Once the list has been sent the table holds it. -/
theorem run_table_sent (u : UserConfig) (cmd : ListCmd) {es : List Event}
    (hes : ∀ ev ∈ es, DuringReload u ev) (hmem : .config (some (cmd.reloadMsg u)) ∈ es)
    (k : OafState env) : cmd.table (run step k es) = macListOf (cmd.reloaded u) := by
  obtain ⟨pre, post, rfl⟩ := List.append_of_mem hmem
  have hpost : ∀ ev ∈ post, DuringReload u ev := fun e he =>
    hes e (List.mem_append_right pre (List.mem_cons_of_mem _ he))
  rw [run_append, run_cons]
  rcases run_table_during u cmd hpost (k := step (run step k pre)
    (.config (some (cmd.reloadMsg u)))) with h | h
  · rw [h, table_reloadMsg]
  · exact h

/-- The last element with a property. -/
theorem last_with {α : Type*} {P : α → Prop} {xs : List α} (h : ∃ x ∈ xs, P x) :
    ∃ pre x post, xs = pre ++ x :: post ∧ P x ∧ ∀ y ∈ post, ¬ P y := by
  induction xs with
  | nil =>
      obtain ⟨x, hx, -⟩ := h
      exact absurd hx List.not_mem_nil
  | cons y ys ih =>
      by_cases hys : ∃ x ∈ ys, P x
      · obtain ⟨pre, x, post, rfl, hx, hpost⟩ := ih hys
        exact ⟨y :: pre, x, post, rfl, hx, hpost⟩
      · obtain ⟨x, hx, hPx⟩ := h
        rcases List.mem_cons.mp hx with rfl | hx
        · exact ⟨[], x, ys, rfl, hPx, fun z hz hPz => hys ⟨z, hz, hPz⟩⟩
        · exact absurd ⟨x, hx, hPx⟩ hys

def cleanMsg : ConfigMsg := { op := some 3, data := some {} }

def addMsg (u : UserConfig) : ConfigMsg :=
  { op := some 1, data := some { apps := some u.rule.apps } }

/-- What is left of a writer's messages behind its cleaning. -/
theorem behind_clean {u : UserConfig} {pre post : List ConfigMsg} {m : ConfigMsg}
    (hop : m.op = some 3) (h : pre ++ m :: post = reloadMsgs u) : addMsg u ∈ post := by
  cases pre with
  | nil =>
      rw [(List.cons.inj h).2]
      exact List.mem_cons_self
  | cons y ys =>
      have hm : m ∈ (reloadMsgs u).tail := by
        rw [← h]
        exact List.mem_append_right ys List.mem_cons_self
      simp only [reloadMsgs, List.tail_cons, List.mem_cons, List.not_mem_nil, or_false] at hm
      rcases hm with rfl | rfl | rfl
      · exact absurd hop (by simp)
      · exact absurd hop (by simp)
      · exact absurd hop (by simp)

/-- Behind the last cleaning come the configured apps, and nothing else. -/
theorem run_cells_exact (u : UserConfig) {pre post : List Event} {m : ConfigMsg}
    (hm : m ∈ reloadMsgs u) (hop : m.op = some 3) (hpost : ∀ ev ∈ post, DuringReload u ev)
    (hlast : ∀ m, .config (some m) ∈ post → m.op ≠ some 3)
    (hadd : .config (some (addMsg u)) ∈ post) {i : Int} (hlo : 0 ≤ i) (hhi : i < 32 * 512)
    (k : OafState env) :
    (run step k (pre ++ .config (some m) :: post)).gAppIdArray i = true ↔ Configured u i := by
  rw [run_append, run_cons]
  generalize run step k pre = k
  constructor
  · intro h
    rcases run_cells_during u hpost hlo hhi h with hcell | hconf
    · exact absurd hop ((cells_reload u k hm hlo hhi).mp hcell).1
    · exact hconf
  · intro hconf
    obtain ⟨pre', post', rfl⟩ := List.append_of_mem hadd
    rw [run_append, run_cons]
    apply run_cells_stay u (fun e he => hpost e (List.mem_append_right _ (List.mem_cons_of_mem _ he)))
      (fun m hm => hlast m (List.mem_append_right _ (List.mem_cons_of_mem _ hm))) hlo hhi
    have hmem : addMsg u ∈ reloadMsgs u := by simp [reloadMsgs, addMsg]
    exact (cells_reload u _ hmem hlo hhi).mpr ⟨by simp [addMsg], Or.inr ⟨rfl, hconf⟩⟩

/-- The entries of the history of reloads. -/
theorem during_of_sent {u : UserConfig} {h : List ((ι × ConfigMsg) ⊕ Event)}
    (hbeside : ∀ ev, .inr ev ∈ h → Beside ev)
    (hsent : ∀ p, ∀ m ∈ Resource.sentBy p h, m ∈ reloadMsgs u) :
    ∀ x ∈ h, DuringReload u (eventOf x) := by
  intro x hx
  cases x with
  | inl x => exact Or.inr ⟨x.2, hsent x.1 x.2 (Resource.mem_sentBy.mpr hx), rfl⟩
  | inr ev => exact Or.inl (hbeside ev hx)

/-- Reloads of which each is whole or has not begun leave the configured apps. -/
theorem history_cells_exact {u : UserConfig} {h : List ((ι × ConfigMsg) ⊕ Event)}
    (hbeside : ∀ ev, .inr ev ∈ h → Beside ev)
    (hwhole : ∀ p, Resource.sentBy p h = [] ∨ Resource.sentBy p h = reloadMsgs u)
    (hsome : ∃ p, Resource.sentBy p h = reloadMsgs u) {i : Int} (hlo : 0 ≤ i)
    (hhi : i < 32 * 512) (k : OafState env) :
    (run step k (h.map eventOf)).gAppIdArray i = true ↔ Configured u i := by
  have hmsgs : ∀ p, ∀ m ∈ Resource.sentBy p h, m ∈ reloadMsgs u := by
    intro p m hm
    rcases hwhole p with hnil | hall
    · rw [hnil] at hm
      exact absurd hm List.not_mem_nil
    · rwa [← hall]
  have hduring := during_of_sent hbeside hmsgs
  -- the last cleaning, and the apps of the same script behind it
  have hclean : ∃ x ∈ h, ∃ q m, x = .inl (q, m) ∧ m.op = some 3 := by
    obtain ⟨p, hp⟩ := hsome
    have hmem : cleanMsg ∈ Resource.sentBy p h := by
      rw [hp]
      exact List.mem_cons_self
    exact ⟨_, Resource.mem_sentBy.mp hmem, p, cleanMsg, rfl, rfl⟩
  obtain ⟨pre, x, post, rfl, ⟨q, m, rfl, hop⟩, hlast⟩ := last_with hclean
  have hq : Resource.sentBy q pre ++ m :: Resource.sentBy q post = reloadMsgs u := by
    have hsplit : Resource.sentBy q (pre ++ .inl (q, m) :: post) =
        Resource.sentBy q pre ++ m :: Resource.sentBy q post := by
      rw [Resource.sentBy_append]
      simp [Resource.sentBy]
    rcases hwhole q with hnil | hall
    · rw [hsplit] at hnil
      exact absurd hnil (by simp)
    · rw [← hsplit, hall]
  have hadd := Resource.mem_sentBy.mp (behind_clean hop hq)
  have hm : m ∈ reloadMsgs u := by
    rw [← hq]
    exact List.mem_append_right _ List.mem_cons_self
  rw [List.map_append, List.map_cons]
  refine run_cells_exact u hm hop ?_ ?_ (List.mem_map.mpr ⟨_, hadd, rfl⟩) hlo hhi k
  · intro ev hev
    obtain ⟨y, hy, rfl⟩ := List.mem_map.mp hev
    exact hduring y (List.mem_append_right pre (List.mem_cons_of_mem _ hy))
  · intro m' hm' hop'
    obtain ⟨y, hy, heq⟩ := List.mem_map.mp hm'
    cases y with
    | inl y =>
        obtain rfl : y.2 = m' := by simpa [eventOf] using heq
        exact hlast _ hy ⟨y.1, y.2, rfl, hop'⟩
    | inr ev =>
        exact hbeside ev (List.mem_append_right pre (List.mem_cons_of_mem _ hy)) _ heq

/-- The lists are the configured ones as soon as one script is through. -/
theorem history_table_exact {u : UserConfig} {h : List ((ι × ConfigMsg) ⊕ Event)}
    (hduring : ∀ x ∈ h, DuringReload u (eventOf x))
    (hsome : ∃ p, Resource.sentBy p h = reloadMsgs u) (cmd : ListCmd) (k : OafState env) :
    cmd.table (run step k (h.map eventOf)) = macListOf (cmd.reloaded u) := by
  obtain ⟨p, hp⟩ := hsome
  have hmem : .inl (p, cmd.reloadMsg u) ∈ h := by
    apply Resource.mem_sentBy.mp
    rw [hp]
    exact cmd.reloadMsg_mem u
  refine run_table_sent u cmd ?_ (List.mem_map.mpr ⟨_, hmem, rfl⟩) k
  intro ev hev
  obtain ⟨y, hy, rfl⟩ := List.mem_map.mp hev
  exact hduring y hy

/-- One app and one device. -/
def homeConfig : UserConfig where
  rule := { apps := [1001] }
  userMode := some 1
  afUsers := [some "02:00:00:00:00:11".toList]

def homeValues : List Json :=
  [.obj [("op".toList, .num 3), ("data".toList, .obj [])],
    .obj [("op".toList, .num 1), ("data".toList, .obj [("apps".toList, .arr [.num 1001])])],
    .obj [("op".toList, .num 4), ("data".toList,
      .obj [("mac_list".toList, .arr [.str "02:00:00:00:00:11".toList])])],
    .obj [("op".toList, .num 5), ("data".toList, .obj [("mac_list".toList, .arr [])])]]

/-- The text and the newline of `echo`. -/
def echoPieces (v : Json) : List (List Char) := [render true 0 v, ['\n']]

theorem echoPieces_spell {v : Json} (hv : v.isContainer = true) (hw : Writable true v)
    (hsafe : handledSafely v = true) (hnul : '\x00' ∉ (echoPieces v).flatten)
    (hfits : (echoPieces v).flatten.length ≤ Device.bufSize) :
    Spells true (echoPieces v) (messageOf v) where
  text := ⟨[], render true 0 v, ['\n'], v, rfl, blank_nil, render_text v 0 hw, hv,
    (render_clean v 0 hw).readable, hsafe, rfl⟩
  no_nul := hnul
  fits := hfits

theorem homeValues_spell :
    List.Forall₂ (Spells true) (homeValues.map echoPieces) (reloadMsgs homeConfig) := by
  have hname : ∀ name ∈ ["op", "data", "apps", "mac_list", "02:00:00:00:00:11"],
      Printable true name.toList := by
    intro name hname
    apply printable_of_decide
    revert name
    decide
  have hlist : homeConfig.macList = ["02:00:00:00:00:11".toList] := by decide +kernel
  have hmsgs : reloadMsgs homeConfig = homeValues.map messageOf := by
    unfold reloadMsgs
    rw [hlist]
    rfl
  rw [hmsgs, List.forall₂_map_left_iff, List.forall₂_map_right_iff, List.forall₂_same]
  intro v hv
  simp only [homeValues, List.mem_cons, List.not_mem_nil, or_false] at hv
  rcases hv with rfl | rfl | rfl | rfl
  · refine echoPieces_spell rfl ?_ (by decide) (by decide) (by decide)
    simp only [Writable, Json.Every, Json.EveryMember]
    exact ⟨hname "op" (by simp), by decide, hname "data" (by simp), trivial, trivial⟩
  · refine echoPieces_spell rfl ?_ (by decide) (by decide) (by decide)
    simp only [Writable, Json.Every, Json.EveryMember, Json.EveryItem]
    exact ⟨hname "op" (by simp), by decide, hname "data" (by simp),
      ⟨hname "apps" (by simp), ⟨by decide, trivial⟩, trivial⟩, trivial⟩
  · refine echoPieces_spell rfl ?_ (by decide) (by decide) (by decide)
    simp only [Writable, Json.Every, Json.EveryMember, Json.EveryItem]
    exact ⟨hname "op" (by simp), by decide, hname "data" (by simp),
      ⟨hname "mac_list" (by simp), ⟨hname "02:00:00:00:00:11" (by simp), trivial⟩, trivial⟩, trivial⟩
  · refine echoPieces_spell rfl ?_ (by decide) (by decide) (by decide)
    simp only [Writable, Json.Every, Json.EveryMember, Json.EveryItem]
    exact ⟨hname "op" (by simp), by decide, hname "data" (by simp),
      ⟨hname "mac_list" (by simp), trivial, trivial⟩, trivial⟩

/-- One script cleans; the other one runs through meanwhile; a packet passes. -/
def overlapActs : List (Bool ⊕ Event) :=
  List.replicate 4 (.inl false) ++ List.replicate 16 (.inl true) ++
    [.inr (.forward (lanTcp phoneMac phoneIp 1))] ++ List.replicate 12 (.inl false)

theorem overlap_finished (p : Bool) :
    Finished (run (Device.afCdev true).step
      (Device.idle (boot routerEnv 0) (fun _ => homeValues.map echoPieces)) overlapActs) p := by
  have hholder : (run (Device.afCdev true).step (Device.idle (boot routerEnv 0)
      (fun _ => homeValues.map echoPieces)) overlapActs).holder = none := rfl
  refine ⟨?_, ?_⟩
  · intro x hx
    rw [hholder] at hx
    cases hx
  · cases p <;> rfl

end OpenAppFilter.Theorems
