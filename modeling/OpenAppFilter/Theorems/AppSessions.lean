import Mathlib.Data.List.Pairwise
import OpenAppFilter.Daemon.Visits

/-!
# Sessions

Every list of sessions is kept newest first: a session begins at least 300
seconds after each session of its app behind it has ended (`SessionsKept`). A report
writes the only session of its app that has not been idle for 300 seconds, or
begins one when there is none, and this keeps the order. Marks change no times,
and a flush takes sessions out.

A session of an app is known by its first time. One that a report has written
is written by every accepted report of the app in the next 300 seconds, as long
as nothing is flushed (`Going`).
-/

namespace OpenAppFilter.Theorems

open Base Daemon

/-! ## What is shown -/

/-- Two sessions of one app are 300 seconds apart. -/
def Separated (p q : VisitInfo) : Prop :=
  p.appid = q.appid → p.latestTime.toNat + 300 ≤ q.firstTime.toNat ∨
    q.latestTime.toNat + 300 ≤ p.firstTime.toNat

/-- The sessions of a device are in order. -/
def SessionsInOrder (u : DevUsage) : Prop :=
  (∀ p ∈ u.sessions, p.firstTime ≤ p.latestTime) ∧ u.sessions.Pairwise Separated

/-- The session of app `a` that began at `first` has just been written. -/
def JustWritten (s : UsageState) (mac : CStr) (a : Int32) (first : UInt32) : Prop :=
  ∃ u, s.devs.find? (mac.take maxMacLen) = some u ∧
    ∃ p ∈ u.sessions, p.appid = a ∧ p.firstTime = first ∧ p.latestTime = s.now

/-- A report lists the app and the handler accepts it. -/
def AcceptsIn (s : UsageState) (visits : List VisitReport) (a : Int32) : Prop :=
  s.accepts a = true ∧ ∃ v ∈ visits, v.appid = a

/-- The events that take no session out. -/
def NoFlush : UsageAct → Prop
  | .flushVisits | .cleanInvalid | .flushDevs _ => False
  | _ => True

/-! ## One list -/

/-- `q` stands in front of `p`: it is a newer session, or one of another app. -/
def Newer (q p : VisitInfo) : Prop :=
  q.appid = p.appid → p.latestTime.toNat + 300 ≤ q.firstTime.toNat

structure SessionsKept (now : UInt32) (l : List VisitInfo) : Prop where
  order : l.Pairwise Newer
  times : ∀ p ∈ l, p.firstTime ≤ p.latestTime ∧ p.latestTime ≤ now

theorem sessionsKept_nil (now : UInt32) : SessionsKept now [] :=
  ⟨List.Pairwise.nil, fun _ hp => absurd hp List.not_mem_nil⟩

theorem SessionsKept.sublist {now : UInt32} {l l' : List VisitInfo} (h : SessionsKept now l)
    (hsub : l'.Sublist l) : SessionsKept now l' :=
  ⟨h.order.sublist hsub, fun p hp => h.times p (hsub.subset hp)⟩

theorem SessionsKept.later {now now' : UInt32} {l : List VisitInfo} (h : SessionsKept now l)
    (hle : now ≤ now') : SessionsKept now' l :=
  ⟨h.order, fun p hp => ⟨(h.times p hp).1, UInt32.le_trans (h.times p hp).2 hle⟩⟩

/-- The loops that mark sessions leave their app and their times. -/
def Marks (f : VisitInfo → VisitInfo) : Prop :=
  ∀ p, (f p).appid = p.appid ∧ (f p).firstTime = p.firstTime ∧ (f p).latestTime = p.latestTime

theorem SessionsKept.map {now : UInt32} {l : List VisitInfo} (h : SessionsKept now l)
    {f : VisitInfo → VisitInfo} (hf : Marks f) : SessionsKept now (l.map f) := by
  constructor
  · rw [List.pairwise_map]
    refine h.order.imp (fun {q p} hqp => ?_)
    unfold Newer
    rw [(hf q).1, (hf p).1, (hf p).2.2, (hf q).2.1]
    exact hqp
  · intro p hp
    obtain ⟨p₀, hp₀, rfl⟩ := List.mem_map.mp hp
    rw [(hf p₀).2.1, (hf p₀).2.2]
    exact h.times p₀ hp₀

/-- A session continues while it has been idle for less than 300 seconds. -/
theorem continues_iff {now : UInt32} {a : Int32} {p : VisitInfo} (hle : p.latestTime ≤ now) :
    p.continues now a = true ↔ p.appid = a ∧ now.toNat < p.latestTime.toNat + 300 := by
  unfold VisitInfo.continues
  rw [Bool.and_eq_true, decide_eq_true_eq, decide_eq_true_eq, UInt32.lt_iff_toNat_lt,
    UInt32.toNat_sub_of_le _ _ hle]
  have hle' : p.latestTime.toNat ≤ now.toNat := UInt32.le_iff_toNat_le.mp hle
  refine and_congr Iff.rfl ?_
  show now.toNat - p.latestTime.toNat < 300 ↔ _
  omega

/-- The search writes the first session that continues. -/
theorem extendVisit_some {now : UInt32} {v : VisitReport} {l l' : List VisitInfo}
    (h : extendVisit now v l = some l') :
    ∃ front p back, l = front ++ p :: back ∧ p.continues now v.appid = true ∧
      (∀ q ∈ front, q.continues now v.appid = false) ∧
      l' = front ++ { p with action := v.latestAction, latestTime := now } :: back := by
  induction l generalizing l' with
  | nil => exact nomatch h
  | cons p rest ih =>
      unfold extendVisit at h
      split at h
      · rename_i hp
        refine ⟨[], p, rest, rfl, hp, fun q hq => absurd hq List.not_mem_nil, ?_⟩
        exact (Option.some.inj h).symm
      · rename_i hp
        obtain ⟨rest', hrest, rfl⟩ := Option.map_eq_some_iff.mp h
        obtain ⟨front, q, back, rfl, hq, hfront, rfl⟩ := ih hrest
        refine ⟨p :: front, q, back, rfl, hq, ?_, rfl⟩
        exact List.forall_mem_cons.mpr ⟨Bool.of_not_eq_true hp, hfront⟩

theorem extendVisit_none {now : UInt32} {v : VisitReport} {l : List VisitInfo}
    (h : extendVisit now v l = none) : ∀ p ∈ l, p.continues now v.appid = false := by
  induction l with
  | nil => exact fun p hp => absurd hp List.not_mem_nil
  | cons p rest ih =>
      unfold extendVisit at h
      split at h
      · exact nomatch h
      · rename_i hp
        exact List.forall_mem_cons.mpr ⟨Bool.of_not_eq_true hp, ih (Option.map_eq_none_iff.mp h)⟩

/-- The list of an app after a report. -/
def reported (now : UInt32) (v : VisitReport) (l : List VisitInfo) : List VisitInfo :=
  (extendVisit now v l).getD (newVisit now v :: l)

/-- What a report does to a list that is kept: the one session of the app that
continues is written, and no session in front of it is of the app; or no session
of the app continues, and one begins. -/
theorem reported_cases {now : UInt32} {v : VisitReport} {l : List VisitInfo} (h : SessionsKept now l) :
    (∃ front p back, l = front ++ p :: back ∧ p.appid = v.appid ∧
        now.toNat < p.latestTime.toNat + 300 ∧ (∀ q ∈ front, q.appid ≠ v.appid) ∧
        reported now v l = front ++ { p with action := v.latestAction, latestTime := now } :: back) ∨
      ((∀ p ∈ l, p.appid = v.appid → p.latestTime.toNat + 300 ≤ now.toNat) ∧
        reported now v l = newVisit now v :: l) := by
  unfold reported
  cases hext : extendVisit now v l with
  | none =>
      refine Or.inr ⟨fun p hp happ => ?_, rfl⟩
      have hstop := extendVisit_none hext p hp
      by_contra hlate
      rw [(continues_iff (h.times p hp).2).mpr ⟨happ, by omega⟩] at hstop
      exact absurd hstop (by decide)
  | some l' =>
      obtain ⟨front, p, back, rfl, hp, hfront, rfl⟩ := extendVisit_some hext
      have hmem : p ∈ front ++ p :: back := List.mem_append_right _ List.mem_cons_self
      obtain ⟨happ, hlate⟩ := (continues_iff (h.times p hmem).2).mp hp
      refine Or.inl ⟨front, p, back, rfl, happ, hlate, fun q hq happq => ?_, rfl⟩
      -- a newer session of the app began 300 seconds after `p`, and continues too
      have hnewer : Newer q p := (List.pairwise_append.mp h.order).2.2 q hq p List.mem_cons_self
      have hgap := hnewer (happq.trans happ.symm)
      obtain ⟨hfirst, hle⟩ := h.times q (List.mem_append_left _ hq)
      have hfirst' := UInt32.le_iff_toNat_le.mp hfirst
      have hstop := hfront q hq
      rw [(continues_iff hle).mpr ⟨happq, by omega⟩] at hstop
      exact absurd hstop (by decide)

theorem SessionsKept.reported {now : UInt32} {v : VisitReport} {l : List VisitInfo}
    (h : SessionsKept now l) :
    SessionsKept now (reported now v l) := by
  rcases reported_cases (v := v) h with ⟨front, p, back, rfl, happ, -, hfront, heq⟩ | ⟨hold, heq⟩
  · rw [heq]
    have hp := h.times p (List.mem_append_right _ List.mem_cons_self)
    obtain ⟨hordFront, hordBack, hcross⟩ := List.pairwise_append.mp h.order
    obtain ⟨hpBack, hordRest⟩ := List.pairwise_cons.mp hordBack
    constructor
    · refine List.pairwise_append.mpr ⟨hordFront, List.pairwise_cons.mpr ⟨hpBack, hordRest⟩, ?_⟩
      intro q hq r hr
      rcases List.mem_cons.mp hr with rfl | hr
      · intro heq
        exact absurd (heq.trans happ) (hfront q hq)
      · exact hcross q hq r (List.mem_cons_of_mem _ hr)
    · intro q hq
      rcases List.mem_append.mp hq with hq | hq
      · exact h.times q (List.mem_append_left _ hq)
      · rcases List.mem_cons.mp hq with rfl | hq
        · exact ⟨UInt32.le_trans hp.1 hp.2, UInt32.le_refl now⟩
        · exact h.times q (List.mem_append_right _ (List.mem_cons_of_mem _ hq))
  · rw [heq]
    constructor
    · refine List.pairwise_cons.mpr ⟨fun p hp heq => ?_, h.order⟩
      exact hold p hp heq.symm
    · exact List.forall_mem_cons.mpr ⟨⟨UInt32.le_refl now, UInt32.le_refl now⟩, h.times⟩

/-! ## One device -/

structure UsageKept (now : UInt32) (u : DevUsage) : Prop where
  placed : ∀ i, ∀ p ∈ u.visitHtable i, hashAppid p.appid = i
  kept : ∀ i, SessionsKept now (u.visitHtable i)

theorem usageKept_empty (now : UInt32) : UsageKept now {} :=
  ⟨fun _ _ hp => absurd hp List.not_mem_nil, fun _ => sessionsKept_nil now⟩

theorem UsageKept.mapVisits {now : UInt32} {u : DevUsage} (h : UsageKept now u)
    {f : VisitInfo → VisitInfo} (hf : Marks f) : UsageKept now (u.mapVisits f) := by
  refine ⟨fun i p hp => ?_, fun i => (h.kept i).map hf⟩
  obtain ⟨p₀, hp₀, rfl⟩ := List.mem_map.mp hp
  rw [(hf p₀).1]
  exact h.placed i p₀ hp₀

theorem UsageKept.flushVisits {now : UInt32} {u : DevUsage} (h : UsageKept now u) :
    UsageKept now u.flushVisits :=
  ⟨fun i p hp => h.placed i p (List.mem_of_mem_filter hp),
    fun i => (h.kept i).sublist List.filter_sublist⟩

/-- The lists after one element of a report. -/
theorem reportVisit_table {c : UsageClock} {u : DevUsage} {v : VisitReport}
    (hv : c.accepts v.appid = true) (i : Fin maxVisitHashSize) :
    (reportVisit c u v).visitHtable i =
      if i = hashAppid v.appid then reported c.now v (u.visitHtable i) else u.visitHtable i := by
  unfold reportVisit
  rw [if_pos hv]
  by_cases hi : i = hashAppid v.appid
  · subst hi
    rw [if_pos rfl]
    exact Function.update_self ..
  · rw [if_neg hi]
    exact Function.update_of_ne hi ..

theorem reportVisit_ignored {c : UsageClock} {u : DevUsage} {v : VisitReport}
    (hv : c.accepts v.appid = false) : reportVisit c u v = u := by
  unfold reportVisit
  rw [hv]
  rfl

theorem UsageKept.reportVisit {c : UsageClock} {u : DevUsage} (h : UsageKept c.now u)
    (v : VisitReport) : UsageKept c.now (reportVisit c u v) := by
  cases hv : c.accepts v.appid with
  | false =>
      rw [reportVisit_ignored hv]
      exact h
  | true =>
      constructor
      · intro i p hp
        rw [reportVisit_table hv] at hp
        split at hp
        · rename_i hi
          -- the session written or begun is of the app, whose list this is
          rcases reported_cases (v := v) (h.kept i) with ⟨front, q, back, hl, happ, -, -, heq⟩ | ⟨-, heq⟩
          · rw [heq] at hp
            have hmem : ∀ r ∈ front ++ q :: back, hashAppid r.appid = i := by
              rw [← hl]
              exact h.placed i
            rcases List.mem_append.mp hp with hp | hp
            · exact hmem p (List.mem_append_left _ hp)
            · rcases List.mem_cons.mp hp with rfl | hp
              · exact hmem q (List.mem_append_right _ List.mem_cons_self)
              · exact hmem p (List.mem_append_right _ (List.mem_cons_of_mem _ hp))
          · rw [heq] at hp
            rcases List.mem_cons.mp hp with rfl | hp
            · exact hi.symm
            · exact h.placed i p hp
        · exact h.placed i p hp
      · intro i
        rw [reportVisit_table hv]
        split
        · exact (h.kept i).reported
        · exact h.kept i

theorem UsageKept.reportVisits {c : UsageClock} (visits : List VisitReport) :
    ∀ {u : DevUsage}, UsageKept c.now u → UsageKept c.now (reportVisits c visits u) := by
  induction visits with
  | nil => exact fun h => h
  | cons v visits ih => exact fun h => ih (h.reportVisit v)

theorem mem_sessions {now : UInt32} {u : DevUsage} (h : UsageKept now u) {p : VisitInfo} :
    p ∈ u.sessions ↔ p ∈ u.visitHtable (hashAppid p.appid) := by
  unfold DevUsage.sessions
  rw [List.mem_flatMap]
  constructor
  · rintro ⟨i, -, hp⟩
    rw [h.placed i p hp]
    exact hp
  · exact fun hp => ⟨_, List.mem_finRange _, hp⟩

/-- The sessions of all lists of a device are in order. -/
theorem UsageKept.inOrder {now : UInt32} {u : DevUsage} (h : UsageKept now u) :
    SessionsInOrder u := by
  constructor
  · intro p hp
    exact ((h.kept _).times p ((mem_sessions h).mp hp)).1
  · unfold DevUsage.sessions
    rw [List.pairwise_flatMap]
    refine ⟨fun i _ => ?_, ?_⟩
    · refine (h.kept i).order.imp (fun hqp heq => ?_)
      exact Or.inr (hqp heq)
    · refine (List.nodup_finRange _).imp (fun hij p hp q hq heq => ?_)
      refine absurd ?_ hij
      rw [← h.placed _ p hp, heq]
      exact h.placed _ q hq

/-! ## A session that goes on -/

/-- The session of app `a` that began at `first` was written at `t` or later. -/
def Going (u : DevUsage) (a : Int32) (first t : UInt32) : Prop :=
  ∃ p ∈ u.visitHtable (hashAppid a), p.appid = a ∧ p.firstTime = first ∧ t ≤ p.latestTime

theorem Going.mapVisits {u : DevUsage} {a : Int32} {first t : UInt32} (h : Going u a first t)
    {f : VisitInfo → VisitInfo} (hf : Marks f) : Going (u.mapVisits f) a first t := by
  obtain ⟨p, hp, happ, hfirst, hle⟩ := h
  obtain ⟨hfapp, hffirst, hflatest⟩ := hf p
  refine ⟨f p, List.mem_map_of_mem hp, ?_, ?_, ?_⟩
  · rw [hfapp, happ]
  · rw [hffirst, hfirst]
  · rw [hflatest]
    exact hle

/-- The only session of an app that is younger than 300 seconds is the one a report
of the app writes. -/
theorem Going.written {c : UsageClock} {u : DevUsage} (hu : UsageKept c.now u) {v : VisitReport}
    {first t : UInt32} (h : Going u v.appid first t) (ht : c.now.toNat < t.toNat + 300)
    (hv : c.accepts v.appid = true) : Going (reportVisit c u v) v.appid first c.now := by
  obtain ⟨p, hp, happ, hfirst, hle⟩ := h
  have hle' := UInt32.le_iff_toNat_le.mp hle
  unfold Going
  rw [reportVisit_table hv, if_pos rfl]
  have hkept := hu.kept (hashAppid v.appid)
  rcases reported_cases (v := v) hkept with ⟨front, q, back, hl, happq, hlate, hfront, heq⟩ | ⟨hold, -⟩
  · rw [heq]
    refine ⟨_, List.mem_append_right _ List.mem_cons_self, happq, ?_, UInt32.le_refl _⟩
    show q.firstTime = first
    rw [hl] at hp hkept
    rcases List.mem_append.mp hp with hp | hp
    · exact absurd happ (hfront p hp)
    · rcases List.mem_cons.mp hp with rfl | hp
      · exact hfirst
      · -- behind `q` the app's sessions are older than that
        have hgap := (List.pairwise_cons.mp (List.pairwise_append.mp hkept.order).2.1).1 p hp
          (happq.trans happ.symm)
        obtain ⟨hq, hqnow⟩ := hkept.times q (List.mem_append_right _ List.mem_cons_self)
        have hq' := UInt32.le_iff_toNat_le.mp hq
        have hqnow' := UInt32.le_iff_toNat_le.mp hqnow
        omega
  · have hgap := hold p hp happ
    omega

theorem Going.reportVisit {c : UsageClock} {u : DevUsage} (hu : UsageKept c.now u) {a : Int32}
    {first t : UInt32} (h : Going u a first t) (ht : c.now.toNat < t.toNat + 300) (htle : t ≤ c.now)
    (v : VisitReport) : Going (reportVisit c u v) a first t := by
  cases hv : c.accepts v.appid with
  | false =>
      rw [reportVisit_ignored hv]
      exact h
  | true =>
      by_cases happ : v.appid = a
      · subst happ
        obtain ⟨p, hp, happ, hfirst, hnow⟩ := h.written hu ht hv
        exact ⟨p, hp, happ, hfirst, UInt32.le_trans htle hnow⟩
      · obtain ⟨p, hp, hpa, hfirst, hle⟩ := h
        unfold Going
        rw [reportVisit_table hv]
        split
        · rcases reported_cases (v := v) (hu.kept (hashAppid a)) with
            ⟨front, q, back, hl, happq, -, -, heq⟩ | ⟨-, heq⟩
          · -- the session that is written is of another app
            rw [hl] at hp
            rw [heq]
            refine ⟨p, ?_, hpa, hfirst, hle⟩
            rcases List.mem_append.mp hp with hp | hp
            · exact List.mem_append_left _ hp
            · rcases List.mem_cons.mp hp with rfl | hp
              · exact absurd (happq.symm.trans hpa) happ
              · exact List.mem_append_right _ (List.mem_cons_of_mem _ hp)
          · rw [heq]
            exact ⟨p, List.mem_cons_of_mem _ hp, hpa, hfirst, hle⟩
        · exact ⟨p, hp, hpa, hfirst, hle⟩

/-- An accepted element of a report writes a session of its app. -/
theorem exists_going {c : UsageClock} {u : DevUsage} (hu : UsageKept c.now u) {v : VisitReport}
    (hv : c.accepts v.appid = true) : ∃ first, Going (reportVisit c u v) v.appid first c.now := by
  unfold Going
  rw [reportVisit_table hv, if_pos rfl]
  rcases reported_cases (v := v) (hu.kept (hashAppid v.appid)) with
    ⟨front, q, back, -, happq, -, -, heq⟩ | ⟨-, heq⟩
  · rw [heq]
    exact ⟨q.firstTime, _, List.mem_append_right _ List.mem_cons_self, happq, rfl, UInt32.le_refl _⟩
  · rw [heq]
    exact ⟨c.now, _, List.mem_cons_self, rfl, rfl, UInt32.le_refl _⟩

/-- A report leaves a session going. -/
theorem Going.reportVisits {c : UsageClock} {a : Int32} {first t : UInt32}
    (ht : c.now.toNat < t.toNat + 300) (htle : t ≤ c.now) (visits : List VisitReport) :
    ∀ {u : DevUsage}, UsageKept c.now u → Going u a first t →
      Going (reportVisits c visits u) a first t := by
  induction visits with
  | nil => exact fun _ h => h
  | cons v visits ih => exact fun hu h => ih (hu.reportVisit v) (h.reportVisit hu ht htle v)

theorem Going.reportVisits_now {c : UsageClock} {u : DevUsage} (hu : UsageKept c.now u) {a : Int32}
    {first : UInt32} (h : Going u a first c.now) (visits : List VisitReport) :
    Going (Daemon.reportVisits c visits u) a first c.now :=
  Going.reportVisits (Nat.lt_add_of_pos_right (by decide)) (UInt32.le_refl _) visits hu h

/-- An app that is not the first of a report is in the rest. -/
theorem listed_tail {a : Int32} {v : VisitReport} {visits : List VisitReport}
    (h : ∃ v' ∈ v :: visits, v'.appid = a) (hne : v.appid ≠ a) : ∃ v' ∈ visits, v'.appid = a := by
  obtain ⟨v', hv', happ⟩ := h
  rcases List.mem_cons.mp hv' with rfl | hv'
  · exact absurd happ hne
  · exact ⟨v', hv', happ⟩

/-- A session that goes on is written by a report that lists its app. -/
theorem Going.listed {c : UsageClock} {a : Int32} {first t : UInt32}
    (ht : c.now.toNat < t.toNat + 300) (htle : t ≤ c.now) (hacc : c.accepts a = true)
    (visits : List VisitReport) (hlist : ∃ v ∈ visits, v.appid = a) :
    ∀ {u : DevUsage}, UsageKept c.now u → Going u a first t →
      Going (Daemon.reportVisits c visits u) a first c.now := by
  induction visits with
  | nil =>
      obtain ⟨v, hv, -⟩ := hlist
      exact absurd hv List.not_mem_nil
  | cons v visits ih =>
      intro u hu h
      by_cases happ : v.appid = a
      · subst happ
        exact (h.written hu ht hacc).reportVisits_now (hu.reportVisit v) visits
      · exact ih (listed_tail hlist happ) (hu.reportVisit v) (h.reportVisit hu ht htle v)

/-- A report that lists an app and is accepted writes a session of it. -/
theorem exists_going_listed {c : UsageClock} {a : Int32} (hacc : c.accepts a = true)
    (visits : List VisitReport) (hlist : ∃ v ∈ visits, v.appid = a) :
    ∀ {u : DevUsage}, UsageKept c.now u →
      ∃ first, Going (Daemon.reportVisits c visits u) a first c.now := by
  induction visits with
  | nil =>
      obtain ⟨v, hv, -⟩ := hlist
      exact absurd hv List.not_mem_nil
  | cons v visits ih =>
      intro u hu
      by_cases happ : v.appid = a
      · subst happ
        obtain ⟨first, hgoing⟩ := exists_going hu hacc
        exact ⟨first, hgoing.reportVisits_now (hu.reportVisit v) visits⟩
      · exact ih (listed_tail hlist happ) (hu.reportVisit v)

/-- Two sessions of one app are not written at the same time. -/
theorem Going.unique {now : UInt32} {u : DevUsage} (hu : UsageKept now u) {a : Int32}
    {first first' : UInt32} (h : Going u a first now) (h' : Going u a first' now) :
    first = first' := by
  obtain ⟨p, hp, happ, rfl, hle⟩ := h
  obtain ⟨p', hp', happ', rfl, hle'⟩ := h'
  by_contra hne
  have hsep : (u.visitHtable (hashAppid a)).Pairwise (fun q r => Newer q r ∨ Newer r q) :=
    (hu.kept _).order.imp Or.inl
  have hsymm : Std.Symm (fun q r : VisitInfo => Newer q r ∨ Newer r q) := ⟨fun _ _ => Or.symm⟩
  have hgap := hsep.forall hp hp' (fun heq => hne (by rw [heq]))
  obtain ⟨hfirst, hnow⟩ := (hu.kept _).times p hp
  obtain ⟨hfirst', hnow'⟩ := (hu.kept _).times p' hp'
  rw [UInt32.le_iff_toNat_le] at hle hle' hfirst hfirst' hnow hnow'
  rcases hgap with hgap | hgap
  · have hbound := hgap (happ.trans happ'.symm)
    omega
  · have hbound := hgap (happ'.trans happ.symm)
    omega

/-! ## All devices -/

def AllKept (s : UsageState) : Prop :=
  ∀ mac u, s.devs.find? mac = some u → UsageKept s.now u

theorem marks_checkExpire (now : UInt32) : Marks (VisitInfo.checkExpire now) := by
  intro p
  unfold VisitInfo.checkExpire
  dsimp only
  split_ifs <;> exact ⟨rfl, rfl, rfl⟩

theorem marks_unnamed (c : UsageClock) :
    Marks (fun p => if c.unnamed p then { p with expire := true } else p) := by
  intro p
  dsimp only
  split <;> exact ⟨rfl, rfl, rfl⟩

theorem marks_all : Marks (fun p => { p with expire := true }) := fun _ => ⟨rfl, rfl, rfl⟩

theorem AllKept.mapVals {s : UsageState} (h : AllKept s) {f : CStr → DevUsage → DevUsage}
    (hf : ∀ mac u, UsageKept s.now u → UsageKept s.now (f mac u)) :
    AllKept { s with devs := s.devs.mapVals f } := by
  intro mac u hu
  rw [HTable.find?_mapVals] at hu
  obtain ⟨u₀, hu₀, rfl⟩ := Option.map_eq_some_iff.mp hu
  exact hf mac u₀ (h mac u₀ hu₀)

theorem reportUsage_find? (s : UsageState) (mac : CStr) (visits : List VisitReport) (k : CStr) :
    (reportUsage s mac visits).devs.find? k =
      if k = mac.take maxMacLen then
        some (reportVisits s.toUsageClock visits ((s.devs.find? k).getD {}))
      else s.devs.find? k := by
  unfold reportUsage
  rw [HTable.find?_modify, HTable.find?_addNew]
  by_cases hk : k = mac.take maxMacLen
  · subst hk
    rw [if_pos rfl, if_pos rfl, if_pos rfl]
    rfl
  · rw [if_neg hk, if_neg hk, if_neg hk]

theorem AllKept.device {s : UsageState} (h : AllKept s) (mac : CStr) :
    UsageKept s.now ((s.devs.find? mac).getD {}) := by
  cases hu : s.devs.find? mac with
  | none => exact usageKept_empty _
  | some u => exact h mac u hu

theorem AllKept.step {s : UsageState} (h : AllKept s) (e : UsageAct) : AllKept (usageStep s e) := by
  cases e with
  | clock t =>
      show AllKept (if s.now ≤ t then { s with now := t } else s)
      split
      · rename_i hle
        intro mac u hu
        exact ⟨(h mac u hu).placed, fun i => ((h mac u hu).kept i).later hle⟩
      · exact h
  | report mac visits =>
      intro k u hu
      rw [show usageStep s (.report mac visits) = reportUsage s mac visits from rfl,
        reportUsage_find?] at hu
      split at hu
      · obtain rfl := Option.some.inj hu
        exact UsageKept.reportVisits visits (h.device k)
      · exact h k u hu
  | checkVisits => exact h.mapVals (fun _ _ hu => hu.mapVisits (marks_checkExpire s.now))
  | flushVisits => exact h.mapVals (fun _ _ hu => hu.flushVisits)
  | cleanInvalid =>
      have hmarked := h.mapVals (fun _ _ hu => hu.mapVisits (marks_unnamed s.toUsageClock))
      show AllKept (cleanInvalidAppRecords s)
      unfold cleanInvalidAppRecords
      dsimp only
      split
      · exact hmarked.mapVals (fun _ _ hu => hu.flushVisits)
      · exact hmarked
  | loadNames table => exact h
  | featureUpdated => exact h
  | clearStatistics => exact h.mapVals (fun _ _ hu => ⟨hu.placed, hu.kept⟩)
  | checkDevs expired =>
      refine h.mapVals (fun mac u hu => ?_)
      split
      · exact hu.mapVisits marks_all
      · exact hu
  | flushDevs gone =>
      exact fun mac u hu =>
        h mac u (HTable.find?_of_filter (p := fun mac _ => !gone mac) hu)

theorem allKept_start (now : UInt32) : AllKept { now := now } := by
  intro mac u hu
  exact nomatch hu

theorem allKept_run (now : UInt32) (acts : List UsageAct) :
    AllKept (run usageStep { now := now } acts) :=
  run_invariant (C := fun _ _ => True) (fun _ e h _ => h.step e) (allKept_start now)
    (fun _ _ _ _ => trivial)

/-! ## Runs without a flush -/

def DeviceGoing (s : UsageState) (mac : CStr) (a : Int32) (first t : UInt32) : Prop :=
  ∃ u, s.devs.find? (mac.take maxMacLen) = some u ∧ Going u a first t

theorem DeviceGoing.mapVals {s : UsageState} {mac : CStr} {a : Int32} {first t : UInt32}
    (h : DeviceGoing s mac a first t) {f : CStr → DevUsage → DevUsage}
    (hf : ∀ k u, Going u a first t → Going (f k u) a first t) :
    DeviceGoing { s with devs := s.devs.mapVals f } mac a first t := by
  obtain ⟨u, hu, hgoing⟩ := h
  refine ⟨f (mac.take maxMacLen) u, ?_, hf _ u hgoing⟩
  rw [HTable.find?_mapVals, hu]
  rfl

/-- Nothing but a flush or 300 seconds end a session. -/
theorem DeviceGoing.step {s : UsageState} (hkept : AllKept s) {mac : CStr} {a : Int32}
    {first t : UInt32} (h : DeviceGoing s mac a first t) (htle : t ≤ s.now) {e : UsageAct}
    (hquiet : NoFlush e) (ht : (usageStep s e).now.toNat < t.toNat + 300) :
    DeviceGoing (usageStep s e) mac a first t := by
  cases e with
  | clock t' =>
      show DeviceGoing (if s.now ≤ t' then { s with now := t' } else s) mac a first t
      split <;> exact h
  | report mac' visits =>
      obtain ⟨u, hu, hgoing⟩ := h
      by_cases hmac : mac.take maxMacLen = mac'.take maxMacLen
      · refine ⟨reportVisits s.toUsageClock visits u, ?_, ?_⟩
        · show (reportUsage s mac' visits).devs.find? _ = _
          rw [reportUsage_find?, if_pos hmac, hu]
          rfl
        · exact Going.reportVisits ht htle visits (hkept _ u hu) hgoing
      · refine ⟨u, ?_, hgoing⟩
        show (reportUsage s mac' visits).devs.find? _ = _
        rw [reportUsage_find?, if_neg hmac, hu]
  | checkVisits => exact h.mapVals (fun _ _ hu => hu.mapVisits (marks_checkExpire s.now))
  | flushVisits => exact absurd hquiet id
  | cleanInvalid => exact absurd hquiet id
  | loadNames table => exact h
  | featureUpdated => exact h
  | clearStatistics => exact h.mapVals (fun _ _ hu => hu)
  | checkDevs expired =>
      refine h.mapVals (fun k u hu => ?_)
      split
      · exact hu.mapVisits marks_all
      · exact hu
  | flushDevs gone => exact absurd hquiet id

/-- The clock does not go back. -/
theorem now_le_step (s : UsageState) (e : UsageAct) : s.now ≤ (usageStep s e).now := by
  cases e with
  | clock t =>
      show s.now ≤ (if s.now ≤ t then { s with now := t } else s).now
      split
      · assumption
      · exact UInt32.le_refl _
  | cleanInvalid =>
      show s.now ≤ (cleanInvalidAppRecords s).now
      unfold cleanInvalidAppRecords
      dsimp only
      split <;> exact UInt32.le_refl _
  | _ => exact UInt32.le_refl _

theorem now_le_run (s : UsageState) (acts : List UsageAct) : s.now ≤ (run usageStep s acts).now :=
  run_invariant (I := fun s' => s.now ≤ s'.now) (C := fun _ _ => True)
    (fun s' e hle _ => UInt32.le_trans hle (now_le_step s' e)) (UInt32.le_refl _)
    (fun _ _ _ _ => trivial)

/-- Without a flush a session written at `t` goes on for 300 seconds. -/
theorem DeviceGoing.run {s : UsageState} (hkept : AllKept s) {mac : CStr} {a : Int32} {first : UInt32}
    (h : DeviceGoing s mac a first s.now) {acts : List UsageAct} (hquiet : ∀ e ∈ acts, NoFlush e)
    (ht : (run usageStep s acts).now.toNat < s.now.toNat + 300) :
    DeviceGoing (run usageStep s acts) mac a first s.now := by
  have hevery : EveryStep usageStep (fun _ e => NoFlush e) s acts := by
    intro pre e post heq
    exact hquiet e (by rw [heq]; exact List.mem_append_right _ List.mem_cons_self)
  have hstep : ∀ (s' : UsageState) (e : UsageAct),
      (AllKept s' ∧ s.now ≤ s'.now ∧
        (s'.now.toNat < s.now.toNat + 300 → DeviceGoing s' mac a first s.now)) → NoFlush e →
      AllKept (usageStep s' e) ∧ s.now ≤ (usageStep s' e).now ∧
        ((usageStep s' e).now.toNat < s.now.toNat + 300 →
          DeviceGoing (usageStep s' e) mac a first s.now) := by
    rintro s' e ⟨hkept', hle, hgoing⟩ hq
    have hmono := now_le_step s' e
    refine ⟨hkept'.step e, UInt32.le_trans hle hmono, fun hbound => ?_⟩
    have hbefore : s'.now.toNat < s.now.toNat + 300 :=
      Nat.lt_of_le_of_lt (UInt32.le_iff_toNat_le.mp hmono) hbound
    exact (hgoing hbefore).step hkept' hle hq hbound
  exact (run_invariant hstep ⟨hkept, UInt32.le_refl _, fun _ => h⟩ hevery).2.2 ht

/-! ## Main result -/

theorem justWritten_iff {s : UsageState} (hkept : AllKept s) {mac : CStr} {a : Int32}
    {first : UInt32} : JustWritten s mac a first ↔ DeviceGoing s mac a first s.now := by
  constructor
  · rintro ⟨u, hu, p, hp, rfl, hfirst, hlatest⟩
    exact ⟨u, hu, p, (mem_sessions (hkept _ u hu)).mp hp, rfl, hfirst, UInt32.le_of_eq hlatest.symm⟩
  · rintro ⟨u, hu, p, hp, rfl, hfirst, hle⟩
    have hkeptU := hkept _ u hu
    refine ⟨u, hu, p, (mem_sessions hkeptU).mpr hp, rfl, hfirst, ?_⟩
    exact UInt32.le_antisymm ((hkeptU.kept _).times p hp).2 hle

/-- The session a device has just written for an app is one. -/
theorem justWritten_unique {s : UsageState} (hkept : AllKept s) {mac : CStr} {a : Int32}
    {first first' : UInt32} (h : JustWritten s mac a first) (h' : JustWritten s mac a first') :
    first = first' := by
  obtain ⟨u, hu, hgoing⟩ := (justWritten_iff hkept).mp h
  obtain ⟨u', hu', hgoing'⟩ := (justWritten_iff hkept).mp h'
  obtain rfl : u = u' := Option.some.inj (hu.symm.trans hu')
  exact hgoing.unique (hkept _ u hu) hgoing'

/-- **Sessions are well formed.** In every run of reports, clock, checks and
flushes: the sessions of every device end no earlier than they begin, and two of
one app are 300 seconds apart; and two accepted reports of an app less than 300
seconds apart with no flush in between write one session, and no other. -/
theorem sessions_well_formed (now : UInt32) (acts : List UsageAct) :
    (∀ mac u, (run usageStep { now := now } acts).devs.find? mac = some u → SessionsInOrder u) ∧
    ∀ (mac : CStr) (a : Int32) (visits visits' : List VisitReport) (between : List UsageAct),
      let before := run usageStep { now := now } acts
      let first := usageStep before (.report mac visits)
      let later := run usageStep first between
      let second := usageStep later (.report mac visits')
      AcceptsIn before visits a → AcceptsIn later visits' a → (∀ e ∈ between, NoFlush e) →
      later.now.toNat < before.now.toNat + 300 →
      ∃ began, ∀ b, (JustWritten first mac a b ↔ b = began) ∧ (JustWritten second mac a b ↔ b = began) := by
  have hbefore := allKept_run now acts
  refine ⟨fun mac u hu => (hbefore mac u hu).inOrder, ?_⟩
  intro mac a visits visits' between before first later second hacc hacc' hquiet ht
  have hfirst : AllKept first := hbefore.step _
  have hlater : AllKept later :=
    run_invariant (C := fun _ _ => True) (fun _ e h _ => h.step e) hfirst (fun _ _ _ _ => trivial)
  have hsecond : AllKept second := hlater.step _
  -- the first report writes a session, which goes on until the second
  obtain ⟨began, hbegan⟩ := exists_going_listed hacc.1 visits hacc.2 (hbefore.device (mac.take maxMacLen))
  have hgoing : DeviceGoing first mac a began first.now := by
    refine ⟨_, ?_, hbegan⟩
    show (reportUsage before mac visits).devs.find? _ = _
    rw [reportUsage_find?, if_pos rfl]
  obtain ⟨u, hu, hgo⟩ := hgoing.run hfirst hquiet ht
  have hwritten : DeviceGoing second mac a began second.now := by
    refine ⟨reportVisits later.toUsageClock visits' u, ?_, ?_⟩
    · show (reportUsage later mac visits').devs.find? _ = _
      rw [reportUsage_find?, if_pos rfl, hu]
      rfl
    · exact hgo.listed ht (now_le_run first between) hacc'.1 visits' hacc'.2 (hlater _ u hu)
  refine ⟨began, fun b => ⟨⟨fun hb => ?_, ?_⟩, ⟨fun hb => ?_, ?_⟩⟩⟩
  · exact justWritten_unique hfirst hb ((justWritten_iff hfirst).mpr hgoing)
  · rintro rfl
    exact (justWritten_iff hfirst).mpr hgoing
  · exact justWritten_unique hsecond hb ((justWritten_iff hsecond).mpr hwritten)
  · rintro rfl
    exact (justWritten_iff hsecond).mpr hwritten

end OpenAppFilter.Theorems
