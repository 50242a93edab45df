import OpenAppFilter.Theorems.Stability

/-!
# The conntrack mark

The 32 bits of a mark belong to several owners. This module uses the low
sixteen for the app id and the top three for its flags; bits 16 to 28 are
other people's. `MarkKept` is what every handler guarantees for one mark: the
foreign bits stay, and an app id in 1001..31999, once there, stays too. It is
reflexive and transitive, so one lemma per write gives the step and the step
gives the run.
-/

namespace OpenAppFilter.Theorems

open Base Kernel

variable {env : Env}

/-! ## Bits -/

/-- Bits 16 to 28 of a mark. -/
def sharedBits (mark : BitVec 32) : BitVec 13 := mark.extractLsb' 16 13

theorem sharedBits_or (mark : BitVec 32) {w : BitVec 32} (hw : sharedBits w = 0#13) :
    sharedBits (mark ||| w) = sharedBits mark := by
  unfold sharedBits at *
  rw [BitVec.extractLsb'_or, hw]
  exact BitVec.or_zero

theorem sharedBits_and (mark : BitVec 32) {w : BitVec 32}
    (hw : sharedBits w = BitVec.allOnes 13) : sharedBits (mark &&& w) = sharedBits mark := by
  unfold sharedBits at *
  rw [BitVec.extractLsb'_and, hw]
  exact BitVec.and_allOnes

/-- A masked app id lies below the shared bits. -/
theorem sharedBits_appId (w : BitVec 32) : sharedBits (w &&& 0xffff#32) = 0#13 := by
  unfold sharedBits
  rw [BitVec.extractLsb'_and]
  have hmask : BitVec.extractLsb' 16 13 0xffff#32 = 0#13 := by decide
  rw [hmask]
  exact BitVec.and_zero

/-- Replacing the app id keeps the shared bits. -/
theorem sharedBits_setAppId (mark w : BitVec 32) :
    sharedBits (mark &&& 0xffff0000#32 ||| w &&& 0xffff#32) = sharedBits mark := by
  rw [sharedBits_or _ (sharedBits_appId w)]
  exact sharedBits_and mark (by decide)

theorem sharedBits_setMarkDrop (mark : BitVec 32) (drop : Bool) :
    sharedBits (setMarkDrop mark drop) = sharedBits mark := by
  unfold setMarkDrop
  cases drop with
  | true => exact sharedBits_or mark (by decide)
  | false => exact sharedBits_and mark (by decide)

theorem sharedBits_setMarkHello (mark : BitVec 32) (hello : Bool) :
    sharedBits (setMarkHello mark hello) = sharedBits mark := by
  unfold setMarkHello
  cases hello with
  | true => exact sharedBits_or mark (by decide)
  | false => exact sharedBits_and mark (by decide)

/-! ## What a handler may do to a mark -/

/-- The mark after a step, against the mark before it. -/
structure MarkKept (mark mark' : BitVec 32) : Prop where
  shared : sharedBits mark' = sharedBits mark
  sticky : Classified mark → markAppId mark' = markAppId mark

namespace MarkKept

theorem refl (mark : BitVec 32) : MarkKept mark mark := ⟨rfl, fun _ => rfl⟩

/-- Whether a mark is classified is a matter of its app id alone. -/
theorem classified {mark mark' : BitVec 32} (h : MarkKept mark mark') (hc : Classified mark) :
    Classified mark' := by
  unfold Classified at hc ⊢
  rw [h.sticky hc]
  exact hc

theorem trans {mark mark' mark'' : BitVec 32} (h : MarkKept mark mark')
    (h' : MarkKept mark' mark'') : MarkKept mark mark'' := by
  refine ⟨h'.shared.trans h.shared, ?_⟩
  intro hc
  rw [h'.sticky (h.classified hc), h.sticky hc]

theorem of_eq {mark mark' : BitVec 32} (h : mark' = mark) : MarkKept mark mark' := by
  rw [h]
  exact refl mark

/-- A write to a mark that carries no app id has only the shared bits to
respect. -/
theorem of_not_classified {mark mark' : BitVec 32} (hc : ¬ Classified mark)
    (hs : sharedBits mark' = sharedBits mark) : MarkKept mark mark' :=
  ⟨hs, fun h => absurd h hc⟩

end MarkKept

/-- A mark written for one connection, seen from any connection. -/
theorem markKept_setMark {k : OafState env} {ct : Nat} {mark : BitVec 32}
    (h : MarkKept (k.ctMark ct) mark) (i : Nat) :
    MarkKept (k.ctMark i) ((k.setMark ct mark).ctMark i) := by
  show MarkKept (k.ctMark i) (if i = ct then mark else k.ctMark i)
  by_cases hi : i = ct
  · rw [if_pos hi, hi]
    exact h
  · rw [if_neg hi]
    exact MarkKept.refl _

/-! ## The gateway handler -/

/-- The classified branch writes the drop bit only. -/
theorem markKept_gatewayClassified (k : OafState env) (mac : Mac) (ct i : Nat) :
    MarkKept (k.ctMark i) ((gatewayClassified k mac ct).1.ctMark i) := by
  unfold gatewayClassified
  dsimp only
  rw [recordVisit_ctMark]
  split
  · refine markKept_setMark ⟨sharedBits_setMarkDrop _ _, ?_⟩ i
    intro _
    exact markAppId_setMarkDrop _ _
  · exact MarkKept.refl _

/-- The mark `gatewayMatched` writes keeps the shared bits of the one it
meets. -/
theorem sharedBits_gatewayMatched (k : OafState env) (flow : FlowInfo) (mac : Mac) (ct : Nat)
    (splitSkip : Bool) :
    sharedBits ((gatewayMatched k flow mac ct splitSkip).1.ctMark ct) =
      sharedBits (k.ctMark ct) := by
  have hid := sharedBits_setAppId (k.ctMark ct) flow.appId
  have hignore : ∀ ignored : Bool, sharedBits
      (if ignored then (k.ctMark ct &&& 0xffff0000#32 ||| flow.appId &&& 0xffff#32) ||| nfIgnoreBit
        else k.ctMark ct &&& 0xffff0000#32 ||| flow.appId &&& 0xffff#32) =
      sharedBits (k.ctMark ct) := by
    intro ignored
    cases ignored with
    | true => exact (sharedBits_or _ (by decide)).trans hid
    | false => exact hid
  unfold gatewayMatched
  dsimp only
  split
  · rw [setMark_ctMark]
    exact hignore _
  · dsimp only
    rw [recordVisit_ctMark, setMark_ctMark]
    split
    · exact (sharedBits_or _ (by decide)).trans (hignore _)
    · exact hignore _

theorem gatewayMatched_other (k : OafState env) (flow : FlowInfo) (mac : Mac) {ct i : Nat}
    (splitSkip : Bool) (hi : i ≠ ct) :
    (gatewayMatched k flow mac ct splitSkip).1.ctMark i = k.ctMark i := by
  unfold gatewayMatched
  dsimp only
  split
  · exact if_neg hi
  · dsimp only
    rw [recordVisit_ctMark]
    exact if_neg hi

/-- The inspection is only entered for a mark without an app id. -/
theorem markKept_gatewayInspect (k : OafState env) (flow : FlowInfo) (mac : Mac) (ct : Nat)
    (splitSkip : Bool) (hc : ¬ Classified (k.ctMark ct)) (i : Nat) :
    MarkKept (k.ctMark i) ((gatewayInspect k flow mac ct splitSkip).1.ctMark i) := by
  have hhello := sharedBits_setMarkHello (k.ctMark ct) (dpiMain flow).clientHello
  unfold gatewayInspect
  dsimp only
  split
  · exact markKept_setMark (k := k.updateClient mac _)
      (MarkKept.of_not_classified hc hhello) i
  · by_cases hi : i = ct
    · rw [hi]
      refine MarkKept.of_not_classified hc ?_
      rw [sharedBits_gatewayMatched, setMark_ctMark]
      exact hhello
    · rw [gatewayMatched_other _ _ _ _ hi]
      exact MarkKept.of_eq (if_neg hi)

theorem markKept_gatewayDpi (k : OafState env) (skb : Skb) (flow : FlowInfo) (mac : Mac)
    (ct : CtRef) (splitSkip : Bool) (hc : ¬ Classified (k.ctMark ct.id)) (i : Nat) :
    MarkKept (k.ctMark i) ((gatewayDpi k skb flow mac ct splitSkip).1.ctMark i) := by
  unfold gatewayDpi
  cases ct.acct with
  | none => exact MarkKept.refl _
  | some totalPackets =>
      dsimp only
      split
      · exact MarkKept.refl _
      · split
        · -- quic: app id 10 and the drop bit
          refine markKept_setMark (MarkKept.of_not_classified hc ?_) i
          rw [sharedBits_or _ (by decide)]
          exact sharedBits_setAppId _ _
        · split
          · exact MarkKept.refl _
          · exact markKept_gatewayInspect _ _ _ _ _ hc i

theorem markKept_gatewayFlow (k : OafState env) (skb : Skb) (e : GatewayEntry)
    (splitSkip : Bool) (i : Nat) :
    MarkKept (k.ctMark i) ((gatewayFlow k skb e splitSkip).1.ctMark i) := by
  unfold gatewayFlow
  dsimp only
  split
  · rename_i hzero
    refine markKept_gatewayDpi _ _ _ _ _ _ ?_ i
    intro hc
    exact hc.ne_zero hzero
  · split
    · exact MarkKept.refl _
    · split
      · exact MarkKept.refl _
      · split
        · exact markKept_gatewayClassified _ _ _ i
        · rename_i hc
          exact markKept_gatewayDpi _ _ _ _ _ _ hc i

theorem markKept_gateway (k : OafState env) (skb : Skb) (i : Nat) :
    MarkKept (k.ctMark i) ((appFilterHookGatewayHandle k skb).1.ctMark i) := by
  unfold appFilterHookGatewayHandle
  cases gatewayEntry k skb with
  | none => exact MarkKept.refl _
  | some e =>
      dsimp only
      split
      · exact MarkKept.refl _
      · split
        · exact MarkKept.refl _
        · exact markKept_gatewayFlow (k.updateClient e.mac _) skb e _ i

/-! ## Every other event -/

theorem bypassInspect_ctMark (k : OafState env) (flow : FlowInfo) (mac : Mac) (t : ConnTuple)
    (conn : AfConn) : (bypassInspect k flow mac t conn).1.ctMark = k.ctMark := by
  unfold bypassInspect
  dsimp only
  split
  · rfl
  · unfold bypassMatched bypassFinish
    dsimp only
    rw [recordVisit_ctMark]
    rfl

theorem bypassFlow_ctMark (k : OafState env) (skb : Skb) (flow : FlowInfo) (t : ConnTuple)
    (conn : AfConn) : (bypassFlow k skb flow t conn).1.ctMark = k.ctMark := by
  unfold bypassFlow
  split
  · rfl
  · split
    · unfold bypassClassified
      split
      · rfl
      · exact recordVisit_ctMark _ _ _ _ _
    · unfold bypassDpi
      split
      · rfl
      · split
        · rfl
        · split
          · rfl
          · exact bypassInspect_ctMark _ _ _ _ _

/-- Bypass mode keeps its verdicts in its own table. -/
theorem bypass_ctMark (k : OafState env) (skb : Skb) :
    (appFilterHookBypassHandle k skb).1.ctMark = k.ctMark := by
  have hadd := findAndAddAfClient_ctMark k skb.hSource skb.alloc.client
  unfold appFilterHookBypassHandle
  cases bypassEntry k skb with
  | none => rfl
  | some flow =>
      dsimp only
      split
      · rename_i k' heq
        rw [heq] at hadd
        exact hadd
      · rename_i k' heq
        rw [heq] at hadd
        split
        · exact hadd
        · rename_i k'' conn hconn
          rw [bypassFlow_ctMark]
          show k''.ctMark = k.ctMark
          rw [(afConnFindAndAdd_some hconn).2]
          exact hadd

theorem markKept_forwardHooks (k : OafState env) (skb : Skb) (i : Nat) :
    MarkKept (k.ctMark i) ((forwardHooks k skb).1.ctMark i) := by
  have hhook : MarkKept (k.ctMark i) ((appFilterHook (afClientHook k skb) skb).1.ctMark i) := by
    rw [← afClientHook_ctMark k skb]
    unfold appFilterHook
    split
    · exact MarkKept.refl _
    · exact markKept_gateway _ skb i
  unfold forwardHooks
  split
  · rename_i k' heq
    rw [heq] at hhook
    exact hhook
  · rename_i k' heq
    rw [heq] at hhook
    dsimp only
    rw [afClientHook2_ctMark]
    exact hhook

/-! ## Steps and runs -/

/-- Somebody else writes the mark of connection `ct`. -/
def ForeignWrite (ct : Nat) : Event → Prop
  | .ctMark i _ => i = ct
  | _ => False

/-- One event, for the mark of one connection. -/
theorem markKept_step (k : OafState env) (ct : Nat) {ev : Event} (hev : ¬ ForeignWrite ct ev) :
    MarkKept (k.ctMark ct) ((step k ev).ctMark ct) := by
  cases ev with
  | config msg =>
      refine MarkKept.of_eq ?_
      show (afConfigHandle k msg).1.ctMark ct = k.ctMark ct
      rw [rulesOnly_afConfigHandle k msg]
  | proc w => cases w <;> exact MarkKept.refl _
  | blockedMacs buffer =>
      refine MarkKept.of_eq ?_
      show (oafBlockedMacsHandler k buffer).1.ctMark ct = k.ctMark ct
      rw [oafBlockedMacsHandler_config]
  | addFeature node => exact MarkKept.refl _
  | cleanFeature => exact MarkKept.refl _
  | pass ticks seconds => exact MarkKept.refl _
  | timer => exact MarkKept.of_eq (congrFun (oafTimerFunc_frame k).1 ct)
  | ctMark i mark =>
      refine MarkKept.of_eq ?_
      have hi : ct ≠ i := fun h => hev h.symm
      exact if_neg hi
  | forward skb => exact markKept_forwardHooks k skb ct
  | preRouting skb =>
      refine MarkKept.of_eq ?_
      show (appFilterByPassHook k skb).1.ctMark ct = k.ctMark ct
      unfold appFilterByPassHook
      split
      · rfl
      · rw [bypass_ctMark]

theorem markKept_run (ct : Nat) {es : List Event} (hes : ∀ ev ∈ es, ¬ ForeignWrite ct ev)
    (k : OafState env) : MarkKept (k.ctMark ct) ((run step k es).ctMark ct) := by
  induction es generalizing k with
  | nil => exact MarkKept.refl _
  | cons ev es ih =>
      have hhead := markKept_step k ct (hes ev List.mem_cons_self)
      exact hhead.trans (ih (fun e he => hes e (List.mem_cons_of_mem _ he)) (step k ev))

/-- **The mark is shared safely.** Whatever the mark was, and whatever packets,
messages and switches follow, bits 16 to 28 keep their values; and from the
moment the low bits hold an app id in 1001..31999 they hold that app id. -/
theorem mark_shared_and_sticky (k : OafState env) (ct : Nat) (es : List Event)
    (hes : ∀ ev ∈ es, ¬ ForeignWrite ct ev) :
    (∀ i, 16 ≤ i → i ≤ 28 →
      ((run step k es).ctMark ct).getLsbD i = (k.ctMark ct).getLsbD i) ∧
    ∀ pre post, es = pre ++ post → Classified ((run step k pre).ctMark ct) →
      markAppId ((run step k es).ctMark ct) = markAppId ((run step k pre).ctMark ct) := by
  refine ⟨?_, ?_⟩
  · intro i hlo hhi
    have hbits := congrArg (fun b => b.getLsbD (i - 16)) (markKept_run ct hes k).shared
    simp only [sharedBits, BitVec.getLsbD_extractLsb'] at hbits
    have hlt : i - 16 < 13 := by omega
    have hadd : 16 + (i - 16) = i := by omega
    simpa only [hlt, decide_true, Bool.true_and, hadd] using hbits
  · intro pre post heq hc
    have hpost : ∀ ev ∈ post, ¬ ForeignWrite ct ev := by
      intro ev hev
      exact hes ev (by rw [heq]; exact List.mem_append_right pre hev)
    rw [heq, run_append]
    exact (markKept_run ct hpost (run step k pre)).sticky hc

/-- A router whose connections carry app 1002 and a foreign mark of 0xa5. -/
def markedRouter : OafState routerEnv :=
  { boot routerEnv 0 with ctMark := fun _ => 0x00a503ea#32 }

/-- Filtering goes on, a packet passes, the app is added to the rules, and
another connection's mark is overwritten. -/
def markedRun : List Event :=
  [.proc (.enable 1), .forward (lanTcp phoneMac phoneIp 7), .config (some (addAppMsg 1002)),
    .ctMark 8 0#32, .forward (lanTcp phoneMac phoneIp 7)]

theorem mark_shared_and_sticky_marked :
    (∀ ev ∈ markedRun, ¬ ForeignWrite 7 ev) ∧
      ((run step markedRouter markedRun).ctMark 7).getLsbD 23 = true ∧
      markAppId ((run step markedRouter markedRun).ctMark 7) = 1002#32 := by
  have hes : ∀ ev ∈ markedRun, ¬ ForeignWrite 7 ev := by
    intro ev hev
    simp only [markedRun, List.mem_cons, List.not_mem_nil, or_false] at hev
    rcases hev with rfl | rfl | rfl | rfl | rfl <;> simp [ForeignWrite]
  obtain ⟨hshared, hsticky⟩ := mark_shared_and_sticky markedRouter 7 markedRun hes
  refine ⟨hes, ?_, ?_⟩
  · rw [hshared 23 (by omega) (by omega)]
    rfl
  · rw [hsticky [] markedRun rfl (by decide)]
    rfl

end OpenAppFilter.Theorems
