import OpenAppFilter.Kernel.Report
import OpenAppFilter.Kernel.System
import Mathlib.Algebra.Order.Ring.Nat

/-!
# Reports that do not arrive

`__af_visit_info_report` empties the record while it builds the report, and
does not look at what `af_send_msg_to_user` returned. A report that is not
handed over is gone, unless the record held nothing to begin with. One of the
reasons is in the record itself: it has room for 64 apps, and a message for
fewer than half of them.
-/

namespace OpenAppFilter.Theorems

open Base Kernel

/-- The report reached the daemon. -/
def Delivered (r : AfClientNode × Option (Int × Option CStr)) : Prop :=
  ∃ ret text, r.2 = some (ret, some text)

/-- The record still holds what the report was made of. -/
def Kept (c c' : AfClientNode) : Prop :=
  c'.visitInfo = c.visitInfo ∧ c'.periodFlow = c.periodFlow

/-- No slot holds an app. -/
def NoAppRecorded (c : AfClientNode) : Prop := ∀ i, (c.visitInfo i).appId = 0

/-- The text fits a message, and neither an allocation nor netlink fails. -/
structure CanSend (mac : Mac) (io : ReportIo) (c : AfClientNode) : Prop where
  createObject : io.createObject = true
  print : io.print = true
  fits : (reportText mac c).length % 2 ^ 16 < maxOafNlMsgLen
  msgBuf : io.msgBuf = true
  nlmsgNew : io.nlmsgNew = true
  nlmsgPut : io.nlmsgPut = true
  unicast : 0 ≤ io.unicast

/-! ## What the call leaves -/

/-- The slots are emptied, whatever becomes of the message. -/
theorem drained_eq_iff (c : AfClientNode) :
    (fun i => if (c.visitInfo i).appId = 0 then c.visitInfo i else {}) = c.visitInfo ↔
      NoAppRecorded c := by
  constructor
  · intro h i
    by_contra hne
    have hslot := congrFun h i
    rw [if_neg hne] at hslot
    exact hne (congrArg AppVisitInfo.appId hslot).symm
  · intro h
    funext i
    rw [if_pos (h i)]

/-- The record after the call: untouched when there was no object, emptied of its
apps when there was no text, and otherwise of its counters too. -/
theorem kept_iff (mac : Mac) (io : ReportIo) (c : AfClientNode) :
    Kept c (afVisitInfoReport mac io c).1 ↔
      io.createObject = false ∨
        (NoAppRecorded c ∧ (io.print = false ∨ c.periodFlow = {})) := by
  unfold afVisitInfoReport Kept
  rw [← drained_eq_iff]
  cases hobj : io.createObject with
  | false => simp only [Bool.not_false, if_true, and_self, true_or]
  | true =>
      cases hprint : io.print with
      | false =>
          simp only [Bool.not_true, Bool.not_false, Bool.false_eq_true, if_false, if_true,
            Bool.true_eq_false, false_or, true_or]
      | true =>
          simp only [Bool.not_true, Bool.false_eq_true, if_false, Bool.true_eq_false, false_or]
          exact and_congr_right' eq_comm

theorem delivered_iff (mac : Mac) (io : ReportIo) (c : AfClientNode) :
    Delivered (afVisitInfoReport mac io c) ↔ CanSend mac io c := by
  constructor
  · rintro ⟨ret, text, h⟩
    unfold afVisitInfoReport at h
    cases hobj : io.createObject with
    | false => simp [hobj] at h
    | true =>
        cases hprint : io.print with
        | false => simp [hobj, hprint] at h
        | true =>
            simp only [hobj, hprint, Bool.not_true, Bool.false_eq_true, if_false,
              Option.some.injEq] at h
            unfold afSendMsgToUser at h
            dsimp only at h
            split at h
            · simp at h
            split at h
            · simp at h
            split at h
            · simp at h
            split at h
            · simp at h
            rename_i hlen hbuf hnew hput
            by_cases hneg : io.unicast < 0
            · simp [hneg] at h
            · exact ⟨hobj, hprint, by omega, by simpa using hbuf, by simpa using hnew,
                by simpa using hput, by omega⟩
  · intro h
    refine ⟨io.unicast, (reportText mac c).take ((reportText mac c).length % 2 ^ 16), ?_⟩
    have hlen : ¬ (reportText mac c).length % 2 ^ 16 ≥ maxOafNlMsgLen := Nat.not_le.mpr h.fits
    have hneg : ¬ io.unicast < 0 := Int.not_lt.mpr h.unicast
    simp only [afVisitInfoReport, afSendMsgToUser, h.createObject, h.print, h.msgBuf, h.nlmsgNew,
      h.nlmsgPut, if_neg hlen, if_neg hneg, Bool.not_true, Bool.false_eq_true, if_false]

/-- **What a lost report leaves behind.** A report that is not handed to the
daemon leaves the record's apps and counters as they were iff there is no such
report (it can be sent), its object could not be made, or there was nothing to
keep: no app recorded, and no bytes in the period unless the text could not be
printed. -/
theorem undelivered_report_kept_iff (mac : Mac) (io : ReportIo) (c : AfClientNode) :
    (¬ Delivered (afVisitInfoReport mac io c) → Kept c (afVisitInfoReport mac io c).1) ↔
      CanSend mac io c ∨ io.createObject = false ∨
        (NoAppRecorded c ∧ (io.print = false ∨ c.periodFlow = {})) := by
  rw [delivered_iff, kept_iff]
  exact or_iff_not_imp_left.symm

/-! ## How many apps a message holds -/

theorem length_intercalate_comma (l : List CStr) :
    (List.intercalate [','] l).length = (l.map List.length).sum + (l.length - 1) := by
  induction l with
  | nil => rfl
  | cons x l ih =>
      cases l with
      | nil => simp
      | cons y l =>
          rw [List.intercalate_cons_cons]
          rw [List.length_append, List.length_append, List.length_singleton, ih]
          simp only [List.map_cons, List.sum_cons, List.length_cons]
          omega

theorem jsonBool_length (b : Bool) : (jsonBool b).length = 1 := by
  cases b <;> decide

/-- The text of one app. -/
theorem visitText_length (v : AppVisitInfo) :
    29 ≤ (visitText v).length ∧ (visitText v).length ≤ 39 := by
  have hid := decimal_length_int32 (Int32.ofBitVec v.appId)
  have haction := jsonBool_length v.latestAction
  have hlen : (visitText v).length =
      27 + (jsonNumber v.appId).length + (jsonBool v.latestAction).length := by
    simp [visitText, jsonObject, jsonString, List.intercalate_cons_cons]
    omega
  unfold jsonNumber at hlen
  omega

theorem ipText_length (ip : Ipv4) : 7 ≤ (ipText ip).length ∧ (ipText ip).length ≤ 15 := by
  have hbyte : ∀ i, 1 ≤ (Nat.toDigits 10 (ip.toNat / 256 ^ i % 256)).length ∧
      (Nat.toDigits 10 (ip.toNat / 256 ^ i % 256)).length ≤ 3 := by
    intro i
    exact ⟨Nat.length_toDigits_pos,
      (Nat.length_toDigits_le_iff (by decide) (by decide)).mpr (by omega)⟩
  have h0 := hbyte 0
  have h1 := hbyte 1
  have h2 := hbyte 2
  have h3 := hbyte 3
  unfold ipText
  simp only [List.length_append, List.length_cons]
  omega

/-- The report around the texts of the apps. -/
theorem reportText_length (mac : Mac) (c : AfClientNode) :
    ∃ rest, 107 ≤ rest ∧ rest ≤ 200 ∧
      (reportText mac c).length = rest +
        (List.intercalate [','] ((recordedApps c.toAfClientInfo).map visitText)).length := by
  have hip := ipText_length c.ip
  have hnum := decimal_length_int32 (Int32.ofBitVec c.visitAppNum)
  have hup := decimal_length_int32 (Int32.ofBitVec (kilobytes c.periodFlow.upBytes))
  have hdown := decimal_length_int32 (Int32.ofBitVec (kilobytes c.periodFlow.downBytes))
  have hactive := jsonBool_length c.active
  have hlen : (reportText mac c).length =
      96 + (ipText c.ip).length + (jsonNumber c.visitAppNum).length +
        (jsonNumber (kilobytes c.periodFlow.upBytes)).length +
        (jsonNumber (kilobytes c.periodFlow.downBytes)).length + (jsonBool c.active).length +
        (List.intercalate [','] ((recordedApps c.toAfClientInfo).map visitText)).length := by
    simp [reportText, jsonObject, jsonString, jsonArray, List.intercalate_cons_cons,
      macText_length]
    omega
  unfold jsonNumber at hlen
  exact ⟨_, by omega, by omega, hlen⟩

/-- Every report with more than thirty apps is longer than a message may be. -/
theorem report_too_long (mac : Mac) {c : AfClientNode}
    (h : 30 < (recordedApps c.toAfClientInfo).length) :
    maxOafNlMsgLen ≤ (reportText mac c).length ∧ (reportText mac c).length < 2 ^ 16 := by
  obtain ⟨rest, hlo, hhi, hlen⟩ := reportText_length mac c
  have hslots : (recordedApps c.toAfClientInfo).length ≤ 64 := by
    unfold recordedApps
    refine (List.length_filter_le _ _).trans ?_
    rw [List.length_map, List.length_finRange]
    exact Nat.le_refl 64
  have hsum : ∀ apps : List AppVisitInfo,
      29 * apps.length ≤ ((apps.map visitText).map List.length).sum ∧
        ((apps.map visitText).map List.length).sum ≤ 39 * apps.length := by
    intro apps
    induction apps with
    | nil => simp
    | cons v apps ih =>
        have hv := visitText_length v
        simp only [List.map_cons, List.sum_cons, List.length_cons]
        omega
  have hall := hsum (recordedApps c.toAfClientInfo)
  rw [length_intercalate_comma, List.length_map] at hlen
  unfold maxOafNlMsgLen
  omega

/-- A record with more than thirty apps is emptied and never reported, also when
nothing fails. -/
theorem many_apps_never_delivered (mac : Mac) (io : ReportIo) {c : AfClientNode}
    (h : 30 < (recordedApps c.toAfClientInfo).length) :
    ¬ Delivered (afVisitInfoReport mac io c) := by
  rw [delivered_iff]
  intro hsend
  have hfits := hsend.fits
  obtain ⟨hlo, hhi⟩ := report_too_long mac h
  rw [Nat.mod_eq_of_lt hhi] at hfits
  omega

/-- The phone after a minute with forty apps. -/
def busyPhone : AfClientNode where
  visitInfo := fun i =>
    if i.val < 40 then { appId := BitVec.ofNat 32 (1001 + i.val), totalNum := 1 } else {}

/-- Nothing fails, the report is not sent, and the apps are gone. -/
theorem busy_report_lost :
    ¬ ∀ (mac : Mac) (io : ReportIo) (c : AfClientNode),
      ¬ Delivered (afVisitInfoReport mac io c) → Kept c (afVisitInfoReport mac io c).1 := by
  intro h
  have hlost : ¬ Delivered (afVisitInfoReport phoneMac {} busyPhone) :=
    many_apps_never_delivered phoneMac {} (by decide +kernel)
  have hkept := (kept_iff phoneMac {} busyPhone).mp (h phoneMac {} busyPhone hlost)
  rcases hkept with hobj | ⟨hempty, -⟩
  · exact absurd hobj (by decide)
  · exact absurd (hempty ⟨0, by decide⟩) (by decide +kernel)

end OpenAppFilter.Theorems
