import Mathlib.Data.List.FinRange
import Mathlib.Data.List.Nodup
import Mathlib.Logic.Function.Basic

/-!
# Chained hash tables

A table of `n` buckets, each a list of key/value entries, with the two facts
every user of such a table relies on kept as fields: an entry stands in the
bucket of its key's hash, and no bucket holds a key twice. Together they make
`find?` a function of the table's entries (`find?_eq_some_iff`).

Scans over the whole table go bucket by bucket (`entries`); a new entry is
put at the head of its bucket (`add`). Loops over all entries are `mapVals`,
and `mapAccum` where the loop body also threads a state.
-/

namespace OpenAppFilter.Base

/-- A hash table with chaining. -/
structure HTable (K V : Type) (n : Nat) (hash : K → Fin n) where
  buckets : Fin n → List (K × V)
  placed : ∀ i, ∀ e ∈ buckets i, hash e.1 = i
  distinct : ∀ i, ((buckets i).map Prod.fst).Nodup

namespace HTable

variable {K V : Type} {n : Nat} {hash : K → Fin n}

/-- All entries in table order: bucket by bucket, each from its head. -/
def entries (t : HTable K V n hash) : List (K × V) :=
  (List.finRange n).flatMap t.buckets

/-- The table with no entry. -/
def empty : HTable K V n hash where
  buckets _ := []
  placed := by simp
  distinct := by simp

/-- New bucket contents whose keys are, bucket by bucket, a sublist of the
old keys make a table again. -/
def ofKeysSublist (t : HTable K V n hash) (b : Fin n → List (K × V))
    (h : ∀ i, ((b i).map Prod.fst).Sublist ((t.buckets i).map Prod.fst)) :
    HTable K V n hash where
  buckets := b
  placed := by
    intro i e he
    have hkey : e.1 ∈ (t.buckets i).map Prod.fst :=
      (h i).subset (List.mem_map_of_mem he)
    obtain ⟨e', he', hfst⟩ := List.mem_map.mp hkey
    rw [← hfst]
    exact t.placed i e' he'
  distinct := fun i => (h i).nodup (t.distinct i)

/-- Apply `f` to every value. -/
def mapVals (t : HTable K V n hash) (f : K → V → V) : HTable K V n hash :=
  t.ofKeysSublist (fun i => (t.buckets i).map (fun e => (e.1, f e.1 e.2)))
    (fun i => by simp [Function.comp_def])

/-- Keep the entries that satisfy `p`. -/
def filter (t : HTable K V n hash) (p : K → V → Bool) : HTable K V n hash :=
  t.ofKeysSublist (fun i => (t.buckets i).filter (fun e => p e.1 e.2))
    (fun _ => (List.filter_sublist).map Prod.fst)

/-- The table of the same keys with other values. -/
def mapTo {W : Type} (t : HTable K V n hash) (g : V → W) : HTable K W n hash where
  buckets i := (t.buckets i).map (fun e => (e.1, g e.2))
  placed := by
    intro i e he
    obtain ⟨e', he', rfl⟩ := List.mem_map.mp he
    exact t.placed i e' he'
  distinct := by
    intro i
    rw [List.map_map]
    exact t.distinct i

/-- The first entry, in table order, that satisfies `p`. -/
def first? (t : HTable K V n hash) (p : K → V → Bool) : Option (K × V) :=
  t.entries.find? (fun e => p e.1 e.2)

/-- One bucket of `mapAccum`: the loop body `f` rewrites the value it visits
and hands its state on. -/
def accumBucket {S : Type} (f : S → K → V → V × S) : S → List (K × V) → List (K × V) × S
  | s, [] => ([], s)
  | s, e :: rest =>
      let r := f s e.1 e.2
      let out := accumBucket f r.2 rest
      ((e.1, r.1) :: out.1, out.2)

theorem accumBucket_keys {S : Type} (f : S → K → V → V × S) (l : List (K × V)) :
    ∀ s, (accumBucket f s l).1.map Prod.fst = l.map Prod.fst := by
  induction l with
  | nil => intro s; rfl
  | cons e rest ih => intro s; simp [accumBucket, ih]

/-- The state the loop body meets at the head of bucket `i`. -/
def accumState {S : Type} (t : HTable K V n hash) (f : S → K → V → V × S) (s : S) (i : Fin n) :
    S :=
  ((List.finRange n).takeWhile (· ≠ i)).foldl (fun s j => (accumBucket f s (t.buckets j)).2) s

/-- A loop over all entries in table order that rewrites values and threads a
state; the second component is the state after the last entry. -/
def mapAccum {S : Type} (t : HTable K V n hash) (f : S → K → V → V × S) (s : S) :
    HTable K V n hash × S :=
  (t.ofKeysSublist (fun i => (accumBucket f (t.accumState f s i) (t.buckets i)).1)
      (fun i => by rw [accumBucket_keys]),
    (List.finRange n).foldl (fun s j => (accumBucket f s (t.buckets j)).2) s)

/-! ## Entries -/

theorem mem_entries {t : HTable K V n hash} {e : K × V} :
    e ∈ t.entries ↔ e ∈ t.buckets (hash e.1) := by
  unfold entries
  rw [List.mem_flatMap]
  constructor
  · rintro ⟨i, -, hi⟩
    rw [t.placed i e hi]
    exact hi
  · intro h
    exact ⟨hash e.1, List.mem_finRange _, h⟩

@[simp] theorem entries_empty : (empty : HTable K V n hash).entries = [] := by
  simp [entries, empty]

@[simp] theorem entries_mapVals (t : HTable K V n hash) (f : K → V → V) :
    (t.mapVals f).entries = t.entries.map (fun e => (e.1, f e.1 e.2)) := by
  simp [entries, mapVals, ofKeysSublist, List.map_flatMap]

/-- What the loop body leaves alone in every value, the loop leaves alone in
every entry. -/
theorem accumBucket_observe {S O : Type} {f : S → K → V → V × S} {g : V → O}
    (hg : ∀ s k v, g (f s k v).1 = g v) (l : List (K × V)) :
    ∀ s, (accumBucket f s l).1.map (fun e => (e.1, g e.2)) =
      l.map (fun e => (e.1, g e.2)) := by
  induction l with
  | nil => intro s; rfl
  | cons e rest ih => intro s; simp [accumBucket, hg, ih]

theorem entries_mapAccum_observe {S O : Type} (t : HTable K V n hash)
    {f : S → K → V → V × S} {g : V → O} (hg : ∀ s k v, g (f s k v).1 = g v) (s : S) :
    (t.mapAccum f s).1.entries.map (fun e => (e.1, g e.2)) =
      t.entries.map (fun e => (e.1, g e.2)) := by
  simp only [entries, mapAccum, ofKeysSublist, List.map_flatMap]
  congr 1
  funext i
  exact accumBucket_observe hg _ _

/-- Every value a loop bucket by bucket leaves is what the loop body made of one
that was there. -/
theorem mem_accumBucket {S : Type} {f : S → K → V → V × S} {e : K × V} (l : List (K × V)) :
    ∀ s, e ∈ (accumBucket f s l).1 → ∃ v s', (e.1, v) ∈ l ∧ e.2 = (f s' e.1 v).1 := by
  induction l with
  | nil =>
      intro s h
      exact absurd h List.not_mem_nil
  | cons e₀ rest ih =>
      intro s h
      rcases List.mem_cons.mp h with rfl | h
      · exact ⟨e₀.2, s, List.mem_cons_self, rfl⟩
      · obtain ⟨v, s', hv, he⟩ := ih _ h
        exact ⟨v, s', List.mem_cons_of_mem _ hv, he⟩

theorem mem_entries_mapAccum {S : Type} {t : HTable K V n hash} {f : S → K → V → V × S} {s : S}
    {e : K × V} (h : e ∈ (t.mapAccum f s).1.entries) :
    ∃ v s', (e.1, v) ∈ t.entries ∧ e.2 = (f s' e.1 v).1 := by
  obtain ⟨v, s', hv, he⟩ := mem_accumBucket _ _ (mem_entries.mp h)
  exact ⟨v, s', mem_entries.mpr hv, he⟩

theorem mem_of_mem_entries_filter {t : HTable K V n hash} {p : K → V → Bool} {e : K × V}
    (h : e ∈ (t.filter p).entries) : e ∈ t.entries := by
  rw [mem_entries] at h ⊢
  exact List.mem_of_mem_filter h

/-- Every key stands in the table once. -/
theorem nodup_keys (t : HTable K V n hash) : (t.entries.map Prod.fst).Nodup := by
  unfold entries
  rw [List.map_flatMap, List.nodup_flatMap]
  refine ⟨fun i _ => t.distinct i, ?_⟩
  refine (List.nodup_finRange n).imp ?_
  intro i j hij k hi hj
  obtain ⟨e, he, rfl⟩ := List.mem_map.mp hi
  obtain ⟨e', he', heq⟩ := List.mem_map.mp hj
  -- a key in both buckets has both hashes
  have hhash : hash e.1 = j := by
    rw [← heq]
    exact t.placed j e' he'
  exact hij ((t.placed i e he).symm.trans hhash)

/-! ## The first entry of a kind -/

/-- Two searches of a list end at the same element iff every element they disagree
about stands behind one that both take. -/
theorem list_find?_eq_find?_iff {α : Type} {p q : α → Bool} {l : List α} :
    l.find? p = l.find? q ↔
      ∀ pre a post, l = pre ++ a :: post → p a ≠ q a → ∃ b ∈ pre, p b = true ∧ q b = true := by
  induction l with
  | nil => exact iff_of_true rfl (fun pre a post h => absurd h (by simp))
  | cons x l ih =>
      by_cases hboth : p x = true ∧ q x = true
      · rw [List.find?_cons_of_pos hboth.1, List.find?_cons_of_pos hboth.2]
        refine iff_of_true rfl (fun pre a post h hne => ?_)
        cases pre with
        | nil =>
            obtain ⟨rfl, -⟩ := List.cons.inj h
            exact absurd (hboth.1.trans hboth.2.symm) hne
        | cons y pre =>
            obtain ⟨rfl, -⟩ := List.cons.inj h
            exact ⟨x, List.mem_cons_self, hboth⟩
      · by_cases hsame : p x = q x
        · -- neither takes the head
          have hp : ¬ p x = true := fun hp => hboth ⟨hp, hsame ▸ hp⟩
          have hq : ¬ q x = true := fun hq => hp (hsame.trans hq)
          rw [List.find?_cons_of_neg hp, List.find?_cons_of_neg hq, ih]
          constructor
          · intro h pre a post heq hne
            cases pre with
            | nil =>
                obtain ⟨rfl, -⟩ := List.cons.inj heq
                exact absurd hsame hne
            | cons y pre =>
                obtain ⟨b, hb, hbb⟩ := h pre a post (List.cons.inj heq).2 hne
                exact ⟨b, List.mem_cons_of_mem y hb, hbb⟩
          · intro h pre a post heq hne
            obtain ⟨b, hb, hbb⟩ := h (x :: pre) a post (by rw [heq]; rfl) hne
            rcases List.mem_cons.mp hb with rfl | hb
            · exact absurd hbb hboth
            · exact ⟨b, hb, hbb⟩
        · -- one of them takes it, the other goes on
          refine iff_of_false (fun heq => ?_) (fun h => ?_)
          · cases hp : p x with
            | true =>
                rw [List.find?_cons_of_pos hp] at heq
                exact hboth ⟨hp, List.find?_some heq.symm⟩
            | false =>
                have hq : q x = true := by rwa [hp, eq_comm, Bool.not_eq_false] at hsame
                rw [List.find?_cons_of_pos hq] at heq
                exact hboth ⟨List.find?_some heq, hq⟩
          · obtain ⟨b, hb, -⟩ := h [] x l rfl hsame
            exact absurd hb List.not_mem_nil

/-- The same for the first entries of a table. -/
theorem first?_eq_first?_iff {t : HTable K V n hash} {p q : K → V → Bool} :
    t.first? p = t.first? q ↔
      ∀ pre e post, t.entries = pre ++ e :: post → p e.1 e.2 ≠ q e.1 e.2 →
        ∃ e' ∈ pre, p e'.1 e'.2 = true ∧ q e'.1 e'.2 = true :=
  list_find?_eq_find?_iff

/-! ## Equal tables -/

theorem ext_buckets {t t' : HTable K V n hash} (h : ∀ i, t.buckets i = t'.buckets i) : t = t' := by
  cases t with
  | mk b _ _ =>
      cases t' with
      | mk b' _ _ =>
          obtain rfl : b = b' := funext h
          rfl

theorem mapVals_congr {t : HTable K V n hash} {f g : K → V → V}
    (h : ∀ e ∈ t.entries, f e.1 e.2 = g e.1 e.2) : t.mapVals f = t.mapVals g := by
  refine ext_buckets (fun i => List.map_congr_left (fun e he => ?_))
  rw [h e]
  rw [mem_entries, t.placed i e he]
  exact he

theorem mapTo_filter {W : Type} (t : HTable K V n hash) (g : V → W) {p : K → V → Bool}
    {q : K → W → Bool} (h : ∀ e ∈ t.entries, q e.1 (g e.2) = p e.1 e.2) :
    (t.filter p).mapTo g = (t.mapTo g).filter q := by
  refine ext_buckets (fun i => ?_)
  show ((t.buckets i).filter _).map _ = ((t.buckets i).map _).filter _
  rw [List.filter_map]
  congr 1
  refine List.filter_congr (fun e he => (h e ?_).symm)
  rw [mem_entries, t.placed i e he]
  exact he

theorem mapTo_mapVals {W : Type} (t : HTable K V n hash) (g : V → W) {f : K → V → V} {f' : K → W → W}
    (h : ∀ k v, g (f k v) = f' k (g v)) : (t.mapVals f).mapTo g = (t.mapTo g).mapVals f' := by
  refine ext_buckets (fun i => ?_)
  show ((t.buckets i).map _).map _ = ((t.buckets i).map _).map _
  rw [List.map_map, List.map_map]
  exact List.map_congr_left (fun e _ => by simp [h])

variable [DecidableEq K]

/-- The value stored under `k`: a scan of its bucket. -/
def find? (t : HTable K V n hash) (k : K) : Option V :=
  ((t.buckets (hash k)).find? (fun e => decide (e.1 = k))).map Prod.snd

/-- Apply `f` to the value stored under `k`. -/
def modify (t : HTable K V n hash) (k : K) (f : V → V) : HTable K V n hash :=
  t.mapVals (fun k' v => if k' = k then f v else v)

/-- Remove the entry of `k`. -/
def erase (t : HTable K V n hash) (k : K) : HTable K V n hash :=
  t.ofKeysSublist (fun i => (t.buckets i).filter (fun e => decide (e.1 ≠ k)))
    (fun _ => (List.filter_sublist).map Prod.fst)

/-- In a list without duplicate keys, `find?` by key returns the entry. -/
theorem find?_key_of_mem {l : List (K × V)} (hnd : (l.map Prod.fst).Nodup) {k : K} {v : V}
    (h : (k, v) ∈ l) : l.find? (fun e => decide (e.1 = k)) = some (k, v) := by
  induction l with
  | nil => exact absurd h List.not_mem_nil
  | cons e rest ih =>
      rw [List.map_cons, List.nodup_cons] at hnd
      rcases List.mem_cons.mp h with heq | hmem
      · subst heq
        simp
      · have hne : e.1 ≠ k := by
          intro he
          exact hnd.1 (he ▸ List.mem_map_of_mem (f := Prod.fst) hmem)
        rw [List.find?_cons_of_neg (by simpa using hne)]
        exact ih hnd.2 hmem

/-- `find?` returns exactly the entries of the table. -/
theorem find?_eq_some_iff {t : HTable K V n hash} {k : K} {v : V} :
    t.find? k = some v ↔ (k, v) ∈ t.entries := by
  rw [mem_entries]
  unfold find?
  constructor
  · intro h
    obtain ⟨e, he, rfl⟩ := Option.map_eq_some_iff.mp h
    have hk : e.1 = k := by simpa using List.find?_some he
    subst hk
    exact List.mem_of_find?_eq_some he
  · intro h
    rw [find?_key_of_mem (t.distinct _) h]
    rfl

theorem find?_eq_none_iff {t : HTable K V n hash} {k : K} :
    t.find? k = none ↔ k ∉ (t.buckets (hash k)).map Prod.fst := by
  unfold find?
  rw [Option.map_eq_none_iff, List.find?_eq_none]
  simp only [List.mem_map, not_exists, not_and, decide_eq_true_eq]

/-- Put a new entry at the head of its bucket; the key must be absent. -/
def add (t : HTable K V n hash) (k : K) (v : V) (h : t.find? k = none) :
    HTable K V n hash where
  buckets i := if hash k = i then (k, v) :: t.buckets i else t.buckets i
  placed := by
    intro i e he
    by_cases hi : hash k = i
    · rw [if_pos hi] at he
      rcases List.mem_cons.mp he with rfl | he
      · exact hi
      · exact t.placed i e he
    · rw [if_neg hi] at he
      exact t.placed i e he
  distinct := by
    intro i
    by_cases hi : hash k = i
    · rw [if_pos hi, List.map_cons, List.nodup_cons]
      subst hi
      exact ⟨find?_eq_none_iff.mp h, t.distinct _⟩
    · rw [if_neg hi]
      exact t.distinct i

/-- Put a new entry at the head of its bucket, unless the key is there
already. -/
def addNew (t : HTable K V n hash) (k : K) (v : V) : HTable K V n hash :=
  match h : t.find? k with
  | some _ => t
  | none => t.add k v h

theorem addNew_of_some {t : HTable K V n hash} {k : K} {v₀ : V} (h : t.find? k = some v₀) (v : V) :
    t.addNew k v = t := by
  unfold addNew
  split
  · rfl
  · rename_i hnone
    exact absurd (h.symm.trans hnone) (by simp)

theorem addNew_of_none {t : HTable K V n hash} {k : K} (h : t.find? k = none) (v : V) :
    t.addNew k v = t.add k v h := by
  unfold addNew
  split
  · rename_i hsome
    exact absurd (h.symm.trans hsome) (by simp)
  · rfl

/-! ## Entries after each operation -/

@[simp] theorem entries_erase (t : HTable K V n hash) (k : K) :
    (t.erase k).entries = t.entries.filter (fun e => decide (e.1 ≠ k)) := by
  simp [entries, erase, ofKeysSublist, List.filter_flatMap]

theorem mem_entries_add {t : HTable K V n hash} {k : K} {v : V} {h : t.find? k = none}
    {e : K × V} : e ∈ (t.add k v h).entries ↔ e = (k, v) ∨ e ∈ t.entries := by
  rw [mem_entries, mem_entries]
  by_cases he : hash k = hash e.1
  · simp [add, he]
  · have hne : e ≠ (k, v) := by
      intro heq
      exact he (by rw [heq])
    simp [add, he, hne]

theorem mem_entries_addNew {t : HTable K V n hash} {k : K} {v : V} {e : K × V}
    (h : e ∈ (t.addNew k v).entries) : e = (k, v) ∨ e ∈ t.entries := by
  unfold addNew at h
  split at h
  · exact Or.inr h
  · exact mem_entries_add.mp h

theorem mem_entries_modify {t : HTable K V n hash} {k : K} {f : V → V} {e : K × V} :
    e ∈ (t.modify k f).entries ↔
      ∃ v, (e.1, v) ∈ t.entries ∧ e.2 = if e.1 = k then f v else v := by
  unfold modify
  rw [entries_mapVals, List.mem_map]
  constructor
  · rintro ⟨e₀, he₀, rfl⟩
    exact ⟨e₀.2, he₀, rfl⟩
  · rintro ⟨v, hv, he⟩
    refine ⟨(e.1, v), hv, ?_⟩
    rw [← he]

/-- An entry that is erased was there. -/
theorem erase_ne_self {t : HTable K V n hash} {e : K × V} (h : e ∈ t.entries) : t.erase e.1 ≠ t := by
  intro heq
  rw [← heq, entries_erase] at h
  simp at h

/-- The erased key is the one that is missing. -/
theorem erase_key_inj {t : HTable K V n hash} {e : K × V} {k : K} (h : e ∈ t.entries)
    (heq : t.erase e.1 = t.erase k) : e.1 = k := by
  by_contra hne
  have hin : e ∈ (t.erase k).entries := by simp [h, hne]
  rw [← heq] at hin
  simp at hin

/-! ## Lookup after each operation -/

@[simp] theorem find?_empty (k : K) : (empty : HTable K V n hash).find? k = none := rfl

@[simp] theorem find?_mapVals (t : HTable K V n hash) (f : K → V → V) (k : K) :
    (t.mapVals f).find? k = (t.find? k).map (f k) := by
  ext v
  rw [find?_eq_some_iff, entries_mapVals, Option.map_eq_some_iff]
  constructor
  · intro h
    obtain ⟨e, he, heq⟩ := List.mem_map.mp h
    simp only [Prod.mk.injEq] at heq
    obtain ⟨rfl, rfl⟩ := heq
    exact ⟨e.2, find?_eq_some_iff.mpr he, rfl⟩
  · rintro ⟨v', hv', rfl⟩
    exact List.mem_map.mpr ⟨(k, v'), find?_eq_some_iff.mp hv', rfl⟩

theorem find?_modify (t : HTable K V n hash) (k k' : K) (f : V → V) :
    (t.modify k f).find? k' = if k' = k then (t.find? k').map f else t.find? k' := by
  unfold modify
  rw [find?_mapVals]
  by_cases h : k' = k
  · simp [h]
  · simp [h]

theorem find?_erase (t : HTable K V n hash) (k k' : K) :
    (t.erase k).find? k' = if k' = k then none else t.find? k' := by
  by_cases h : k' = k
  · subst h
    rw [if_pos rfl]
    cases hf : (t.erase k').find? k' with
    | none => rfl
    | some v =>
        have := find?_eq_some_iff.mp hf
        simp at this
  · rw [if_neg h]
    ext v
    rw [find?_eq_some_iff, find?_eq_some_iff, entries_erase]
    simp [h]

theorem find?_filter (t : HTable K V n hash) (p : K → V → Bool) (k : K) :
    (t.filter p).find? k = (t.find? k).filter (p k) := by
  ext v
  rw [find?_eq_some_iff, mem_entries, Option.filter_eq_some_iff, find?_eq_some_iff, mem_entries]
  show (k, v) ∈ (t.buckets (hash k)).filter (fun e => p e.1 e.2) ↔ _
  rw [List.mem_filter]

/-- What a filtered table still holds, the table held. -/
theorem find?_of_filter {t : HTable K V n hash} {p : K → V → Bool} {k : K} {v : V}
    (h : (t.filter p).find? k = some v) : t.find? k = some v := by
  rw [find?_eq_some_iff, mem_entries] at h ⊢
  exact List.mem_of_mem_filter h

theorem find?_mapTo {W : Type} (t : HTable K V n hash) (g : V → W) (k : K) :
    (t.mapTo g).find? k = (t.find? k).map g := by
  show (((t.buckets (hash k)).map _).find? _).map _ = _
  unfold find?
  rw [List.find?_map, Option.map_map, Option.map_map]
  rfl

theorem find?_add (t : HTable K V n hash) (k k' : K) (v : V) (h : t.find? k = none) :
    (t.add k v h).find? k' = if k' = k then some v else t.find? k' := by
  by_cases hk : k' = k
  · subst hk
    rw [if_pos rfl, find?_eq_some_iff, mem_entries_add]
    exact Or.inl rfl
  · rw [if_neg hk]
    ext v'
    rw [find?_eq_some_iff, find?_eq_some_iff, mem_entries_add]
    simp [hk]

theorem find?_addNew (t : HTable K V n hash) (k k' : K) (v : V) :
    (t.addNew k v).find? k' = if k' = k then some ((t.find? k).getD v) else t.find? k' := by
  unfold addNew
  split
  · rename_i v₀ hfind
    by_cases hk : k' = k
    · subst hk
      simp [hfind]
    · simp [hk]
  · rename_i hfind
    rw [find?_add, hfind]
    rfl

theorem mapTo_addNew {W : Type} {t : HTable K V n hash} (g : V → W) {k : K} (v : V)
    (h : t.find? k = none) : (t.addNew k v).mapTo g = (t.mapTo g).addNew k (g v) := by
  have hnone : (t.mapTo g).find? k = none := by rw [find?_mapTo, h, Option.map_none]
  rw [addNew_of_none h, addNew_of_none hnone]
  refine ext_buckets (fun i => ?_)
  show (if hash k = i then (k, v) :: t.buckets i else t.buckets i).map _ = if hash k = i then _ else _
  split <;> rfl

theorem modify_id (t : HTable K V n hash) (k : K) : t.modify k (fun v => v) = t := by
  refine ext_buckets (fun i => ?_)
  show (t.buckets i).map (fun e => (e.1, if e.1 = k then e.2 else e.2)) = t.buckets i
  simp only [ite_self, Prod.mk.eta, List.map_id']

theorem mapTo_modify {W : Type} (t : HTable K V n hash) (g : V → W) (k : K) {f : V → V} {f' : W → W}
    (h : ∀ v, g (f v) = f' (g v)) : (t.modify k f).mapTo g = (t.mapTo g).modify k f' := by
  refine mapTo_mapVals t g (fun k' v => ?_)
  split
  · exact h v
  · rfl

/-- A function on a new entry can be applied before it is put in. -/
theorem modify_addNew {t : HTable K V n hash} {k : K} (h : t.find? k = none) (v : V) (f g : V → V) :
    (t.addNew k v).modify k (fun v => f (g v)) = (t.addNew k (g v)).modify k f := by
  rw [addNew_of_none h, addNew_of_none h]
  refine ext_buckets (fun i => ?_)
  show (if hash k = i then (k, v) :: t.buckets i else t.buckets i).map _ =
    (if hash k = i then (k, g v) :: t.buckets i else t.buckets i).map _
  have hothers : ∀ e ∈ t.buckets i, e.1 ≠ k := by
    rintro e he rfl
    refine find?_eq_none_iff.mp h ?_
    rw [t.placed i e he]
    exact List.mem_map_of_mem he
  have hrest : (t.buckets i).map (fun e => (e.1, if e.1 = k then f (g e.2) else e.2)) =
      (t.buckets i).map (fun e => (e.1, if e.1 = k then f e.2 else e.2)) :=
    List.map_congr_left (fun e he => by rw [if_neg (hothers e he), if_neg (hothers e he)])
  split
  · rw [List.map_cons, List.map_cons, hrest]
    simp
  · exact hrest

/-! ## Scans over the whole table -/

/-- What a whole-table scan returns is stored under its key and passes the
test. -/
theorem first?_some {t : HTable K V n hash} {p : K → V → Bool} {k : K} {v : V}
    (h : t.first? p = some (k, v)) : t.find? k = some v ∧ p k v = true :=
  ⟨find?_eq_some_iff.mpr (List.mem_of_find?_eq_some h), by simpa using List.find?_some h⟩

/-- When the entry of `k` passes the test, a whole-table scan returns it iff no
entry in front of it passes too. -/
theorem first?_eq_key_iff {t : HTable K V n hash} {p : K → V → Bool} {k : K}
    (hp : ∀ v, t.find? k = some v → p k v = true) :
    (∃ v, t.first? p = some (k, v)) ↔
      (t.find? k).isSome = true ∧
        ∀ e ∈ t.entries.takeWhile (fun e => decide (e.1 ≠ k)), p e.1 e.2 = false := by
  unfold first?
  constructor
  · rintro ⟨v, hv⟩
    refine ⟨?_, ?_⟩
    · rw [find?_eq_some_iff.mpr (List.mem_of_find?_eq_some hv)]
      rfl
    · obtain ⟨-, front, back, hsplit, hfront⟩ := List.find?_eq_some_iff_append.mp hv
      intro e he
      rw [hsplit] at he
      -- the scan stops at the entry of `k` at the latest
      have hmem : e ∈ front := by
        rw [List.takeWhile_append] at he
        split at he
        · simpa using he
        · exact (List.takeWhile_sublist _).subset he
      simpa using hfront e hmem
  · rintro ⟨hsome, hfront⟩
    have hsplit := List.takeWhile_append_dropWhile (p := fun e => decide (e.1 ≠ k))
      (l := t.entries)
    have hnone : (t.entries.takeWhile (fun e => decide (e.1 ≠ k))).find?
        (fun e => p e.1 e.2) = none := by
      rw [List.find?_eq_none]
      intro e he
      simp [hfront e he]
    obtain ⟨v, hv⟩ := Option.isSome_iff_exists.mp hsome
    rw [← hsplit, List.find?_append, hnone, Option.none_or]
    cases hdrop : t.entries.dropWhile (fun e => decide (e.1 ≠ k)) with
    | nil =>
        have hmem := find?_eq_some_iff.mp hv
        rw [← hsplit, hdrop, List.append_nil] at hmem
        have hkey := List.all_eq_true.mp List.all_takeWhile _ hmem
        simp at hkey
    | cons e rest =>
        have hkey : e.1 = k := by
          have hhead := List.head?_dropWhile_not (fun e => decide (e.1 ≠ k)) t.entries
          rw [hdrop] at hhead
          simpa using hhead
        obtain ⟨k', v'⟩ := e
        subst hkey
        have hmem : (k', v') ∈ t.entries := by
          rw [← hsplit, hdrop]
          simp
        refine ⟨v', ?_⟩
        rw [List.find?_cons_of_pos]
        exact hp v' (find?_eq_some_iff.mpr hmem)

end HTable

end OpenAppFilter.Base
