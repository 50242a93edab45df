import OpenAppFilter.Base.Largest
import OpenAppFilter.Daemon.UserList
import OpenAppFilter.Theorems.DeviceTable

/-!
# The list of the devices and its pages

After any run of the daemon the walk over the table comes to its end and meets every
device once. The comparator fits together as long as the times fit in an `int`, so
the sorted list has every device once, and its pages put one behind the other are
the list that is sent without pages.
-/

namespace OpenAppFilter.Theorems

open Base Daemon

/-! ## The walk -/

/-- The devices in the order of the walk. -/
def DevCells.listed (t : DevCells) : List (CStr × DevInfo) := t.entries.map (fun e => (e.1, e.2.2))

theorem Stands.users {s : DevLists} {t : DevCells} (h : Stands s t) : s.users = some (DevCells.listed t) := by
  have hread := h.lists.read h.length_le (List.finRange maxDevNodeHashSize)
  unfold DevLists.users
  rw [hread]
  unfold DevCells.listed HTable.entries nodesOf
  rw [List.map_flatMap]
  refine congrArg some (congrArg (List.flatMap · _) (funext fun i => ?_))
  rw [List.map_map]
  rfl

theorem map_fst_listed (t : DevCells) : (DevCells.listed t).map Prod.fst = t.entries.map Prod.fst := by
  unfold DevCells.listed
  rw [List.map_map]
  rfl

theorem Stands.mem_listed {s : DevLists} {t : DevCells} (h : Stands s t) (mac : CStr) :
    mac ∈ (DevCells.listed t).map Prod.fst ↔ macKnown mac s.log = true := by
  rw [map_fst_listed, ← h.known mac, Option.isSome_iff_exists]
  constructor
  · intro hmem
    obtain ⟨e, he, rfl⟩ := List.mem_map.mp hmem
    exact ⟨e.2, HTable.find?_eq_some_iff.mpr he⟩
  · rintro ⟨v, hv⟩
    exact List.mem_map_of_mem (HTable.find?_eq_some_iff.mp hv)

/-! ## The objects -/

/-- An object for every device, in the same order. -/
theorem mapM_objects {α β : Type} {f : α → Option β} {l : List α} (h : ∀ a ∈ l, ∃ b, f a = some b) :
    ∃ objs, l.mapM f = some objs ∧ objs.length = l.length ∧ ∀ b ∈ objs, ∃ a ∈ l, f a = some b := by
  induction l with
  | nil => exact ⟨[], rfl, rfl, fun b hb => absurd hb List.not_mem_nil⟩
  | cons a l ih =>
      obtain ⟨b, hb⟩ := h a List.mem_cons_self
      obtain ⟨objs, hobjs, hlength, hof⟩ := ih (fun a' ha' => h a' (List.mem_cons_of_mem a ha'))
      refine ⟨b :: objs, ?_, congrArg (· + 1) hlength, fun b' hb' => ?_⟩
      · rw [List.mapM_cons, hb, hobjs]
        rfl
      · rcases List.mem_cons.mp hb' with rfl | htail
        · exact ⟨a, List.mem_cons_self, hb⟩
        · obtain ⟨a', ha', hf⟩ := hof b' htail
          exact ⟨a', List.mem_cons_of_mem a ha', hf⟩

variable {qsort : Qsort} {sort : UserSort} {x : UserSource} {flag : Int32}

theorem exists_object {dev : CStr × DevInfo}
    (h : 2 < flag → (appVisitCells dev.2.toDevUsage).length ≤ maxStatAppNum) :
    ∃ u, allUsersCallback qsort x flag dev = some u := by
  unfold allUsersCallback
  dsimp only
  split
  · rename_i hflag
    unfold userUsage updateTop5App appVisitArray
    rw [if_pos (h hflag)]
    exact ⟨_, rfl⟩
  · exact ⟨_, rfl⟩

/-- What the comparator reads of an object. -/
theorem object_fields {dev : CStr × DevInfo} {u : UserObj}
    (h : allUsersCallback qsort x flag dev = some u) :
    u.online = onlineStatus dev.2 ∧ u.onlineTime = dev.2.onlineTime.toInt32 ∧
      u.offlineTime = dev.2.offlineTime.toInt32 := by
  unfold allUsersCallback at h
  dsimp only at h
  split at h
  · obtain ⟨usage, -, rfl⟩ := Option.map_eq_some_iff.mp h
    exact ⟨rfl, rfl, rfl⟩
  · obtain rfl := Option.some.inj h
    exact ⟨rfl, rfl, rfl⟩

/-! ## The order -/

/-- No number the comparator reads is negative. -/
structure PlainTimes (u : UserObj) : Prop where
  online : 0 ≤ u.online.toInt
  onlineTime : 0 ≤ u.onlineTime.toInt
  offlineTime : 0 ≤ u.offlineTime.toInt

theorem toInt_nonneg_of_lt {n : UInt32} (h : n.toNat < 2 ^ 31) : 0 ≤ n.toInt32.toInt := by
  show 0 ≤ n.toBitVec.toInt
  rw [BitVec.toInt_eq_toNat_of_lt (by have : n.toBitVec.toNat = n.toNat := rfl; omega)]
  exact Int.natCast_nonneg _

theorem plainTimes_object {dev : CStr × DevInfo} {u : UserObj}
    (h : allUsersCallback qsort x flag dev = some u)
    (htimes : dev.2.onlineTime.toNat < 2 ^ 31 ∧ dev.2.offlineTime.toNat < 2 ^ 31) : PlainTimes u := by
  obtain ⟨honline, honlineTime, hofflineTime⟩ := object_fields h
  constructor
  case online =>
    rw [honline]
    unfold onlineStatus
    split
    · decide
    · split <;> decide
  case onlineTime =>
    rw [honlineTime]
    exact toInt_nonneg_of_lt htimes.1
  case offlineTime =>
    rw [hofflineTime]
    exact toInt_nonneg_of_lt htimes.2

/-- A difference of numbers that are not negative does not overflow. -/
theorem toInt_sub_of_nonneg {a b : Int32} (ha : 0 ≤ a.toInt) (hb : 0 ≤ b.toInt) :
    (a - b).toInt = a.toInt - b.toInt := by
  have halt := a.toInt_lt
  have hblt := b.toInt_lt
  rw [Int32.toInt_sub, Int.bmod_eq_of_le (by omega) (by omega)]

/-- The time an object is compared by. -/
def userTime (u : UserObj) : Int32 := if u.online = 1 then u.onlineTime else u.offlineTime

/-- The order of the list. -/
def StandsBefore (u v : UserObj) : Prop :=
  v.online.toInt < u.online.toInt ∨
    u.online.toInt = v.online.toInt ∧ (userTime u).toInt ≤ (userTime v).toInt

theorem compareUsers_eq {u v : UserObj} (hu : PlainTimes u) (hv : PlainTimes v) :
    compareUsers u v =
      if u.online.toInt = v.online.toInt then (userTime u).toInt - (userTime v).toInt
      else v.online.toInt - u.online.toInt := by
  unfold compareUsers userTime
  by_cases honline : u.online = v.online
  · rw [if_neg (not_not.mpr honline), if_pos (congrArg Int32.toInt honline), ← honline]
    simp only [and_self]
    split
    · exact toInt_sub_of_nonneg hu.onlineTime hv.onlineTime
    · exact toInt_sub_of_nonneg hu.offlineTime hv.offlineTime
  · rw [if_pos honline, if_neg (fun h => honline (Int32.toInt_inj.mp h))]
    exact toInt_sub_of_nonneg hv.online hu.online

theorem compareUsers_le_iff {u v : UserObj} (hu : PlainTimes u) (hv : PlainTimes v) :
    compareUsers u v ≤ 0 ↔ StandsBefore u v := by
  rw [compareUsers_eq hu hv]
  unfold StandsBefore
  split <;> omega

theorem compareUsers_flip {u v : UserObj} (hu : PlainTimes u) (hv : PlainTimes v) :
    compareUsers v u = -compareUsers u v := by
  rw [compareUsers_eq hu hv, compareUsers_eq hv hu]
  split <;> split <;> omega

theorem compareUsers_consistent {l : List UserObj} (h : ∀ u ∈ l, PlainTimes u) :
    ConsistentOn compareUsers l := by
  constructor
  case flip =>
    intro u hu v hv _
    rw [compareUsers_flip (h u hu) (h v hv)]
    omega
  case trans =>
    intro u hu v hv w hw _ _ _ huv hvw
    rw [compareUsers_le_iff (h _ ‹_›) (h _ ‹_›)] at huv hvw ⊢
    unfold StandsBefore at *
    omega

/-! ## Pages -/

theorem asInt_of_fits {n : Int} (hlo : 0 ≤ n) (hhi : n < 2 ^ 31) : asInt n = some n :=
  if_pos ⟨by omega, hhi⟩

/-- A page whose indices fit. -/
theorem pagedArray_eq (users : List UserObj) {size n : Nat} {pageSize : Int32}
    (hsize : pageSize.toInt = size) {i : Nat} (hpage : i + 1 < 2 ^ 31)
    (hfit : i * size + size < 2 ^ 31) (hn : n = i * size) :
    pagedArray users (Int32.ofNat (i + 1)) pageSize = some ((users.drop n).take size) := by
  have hi : (Int32.ofNat (i + 1)).toInt = (i + 1 : Nat) := Int32.toInt_ofNat_of_lt hpage
  have hpos : ¬ Int32.ofNat (i + 1) ≤ 0 := by
    rw [Int32.le_iff_toInt_le, hi]
    show ¬ ((i + 1 : Nat) : Int) ≤ 0
    omega
  have hstart : (((i + 1 : Nat) : Int) - 1) * (size : Int) = ((i * size : Nat) : Int) := by
    rw [Nat.cast_mul, Nat.cast_succ, add_sub_cancel_right]
  unfold pagedArray
  rw [if_neg hpos, hi, hsize, hstart, asInt_of_fits (by omega) (by omega), Option.bind_some,
    ← Nat.cast_add, asInt_of_fits (by omega) (by omega), Option.map_some, pageFrom_eq, hn]

theorem totalPages_eq (total : Nat) {size : Nat} {pageSize : Int32} (hsize : pageSize.toInt = size)
    (hpos : 0 < size) (hfit : total + size < 2 ^ 31) :
    totalPages total pageSize = some (((total + size - 1) / size : Nat) : Int) := by
  unfold totalPages
  rw [hsize, ← Nat.cast_add, asInt_of_fits (by omega) (by omega), Option.map_some,
    show ((total + size : Nat) : Int) - 1 = ((total + size - 1 : Nat) : Int) by omega]
  rfl

/-! ## Main result -/

/-- What a request for the list of these devices must meet: the apps fit in the array
of the callback, the times are before 2038, the indices fit in an `int`. -/
structure Listable (flag pageSize : Int32) (devs : List (CStr × DevInfo)) : Prop where
  apps : 2 < flag → ∀ dev ∈ devs, (appVisitCells dev.2.toDevUsage).length ≤ maxStatAppNum
  times : ∀ dev ∈ devs, dev.2.onlineTime.toNat < 2 ^ 31 ∧ dev.2.offlineTime.toNat < 2 ^ 31
  size_pos : 0 < pageSize.toInt
  fits : devs.length + pageSize.toInt < 2 ^ 31

/-- The answers hold an object of every device once, in order, and the pages make up
the whole. -/
def ServedInPages (qsort : Qsort) (sort : UserSort) (x : UserSource) (flag pageSize : Int32)
    (s : DevLists) (devs : List (CStr × DevInfo)) : Prop :=
  ∃ objs users, ∃ pages : List (List UserObj), devs.mapM (allUsersCallback qsort x flag) = some objs ∧
    users.Perm objs ∧ users.Pairwise StandsBefore ∧
    (∀ page : Int32, page ≤ 0 → handleGetAllUsers qsort sort x ⟨flag, page, pageSize⟩ s =
      some ⟨users, devs.length, page, pageSize, pages.length⟩) ∧
    (∀ i (hi : i < pages.length),
      handleGetAllUsers qsort sort x ⟨flag, Int32.ofNat (i + 1), pageSize⟩ s =
        some ⟨pages[i], devs.length, Int32.ofNat (i + 1), pageSize, pages.length⟩) ∧
    pages.flatten = users

variable (qsort x) in
/-- The array behind the sort. -/
theorem exists_usersArray (hsort : SortsConsistent sort) {s : DevLists} {devs : List (CStr × DevInfo)}
    (hdevs : s.users = some devs) {pageSize : Int32} (h : Listable flag pageSize devs) :
    ∃ objs users, devs.mapM (allUsersCallback qsort x flag) = some objs ∧ users.Perm objs ∧
      users.length = devs.length ∧ users.Pairwise StandsBefore ∧
      s.usersArray qsort sort x flag = some users := by
  have hobject : ∀ dev ∈ devs, ∃ u, allUsersCallback qsort x flag dev = some u :=
    fun dev hdev => exists_object (fun hflag => h.apps hflag dev hdev)
  obtain ⟨objs, hobjs, hlength, hof⟩ := mapM_objects hobject
  have hplain : ∀ u ∈ objs, PlainTimes u := by
    intro u hu
    obtain ⟨dev, hdev, hcallback⟩ := hof u hu
    exact plainTimes_object hcallback (h.times dev hdev)
  obtain ⟨hperm, hsorted⟩ := hsort compareUsers objs (compareUsers_consistent hplain)
  refine ⟨objs, sort compareUsers objs, hobjs, hperm, hperm.length_eq.trans hlength, ?_, ?_⟩
  · refine hsorted.imp_of_mem (fun {u v} hu hv hle => ?_)
    by_cases heq : u = v
    · exact Or.inr ⟨by rw [heq], by rw [heq]⟩
    · exact (compareUsers_le_iff (hplain u (hperm.mem_iff.mp hu)) (hplain v (hperm.mem_iff.mp hv))).mp
        (hle heq)
  · unfold DevLists.usersArray
    rw [hdevs, Option.bind_some, hobjs, Option.map_some]

theorem servedInPages (hsort : SortsConsistent sort) {s : DevLists} {devs : List (CStr × DevInfo)}
    (hdevs : s.users = some devs) {pageSize : Int32} (h : Listable flag pageSize devs) :
    ServedInPages qsort sort x flag pageSize s devs := by
  obtain ⟨objs, users, hobjs, hperm, hlength, hsorted, harray⟩ :=
    exists_usersArray qsort x hsort hdevs h
  obtain ⟨size, hsize⟩ := Int.eq_ofNat_of_zero_le (Int.le_of_lt h.size_pos)
  have hpos := h.size_pos
  have hfits := h.fits
  rw [hsize] at hpos hfits
  have hcount := totalPages_eq users.length hsize (by omega) (by omega)
  have hreqSize : ∀ page : Option Int32, UserRequest.size ⟨flag, page, pageSize⟩ = pageSize := by
    intro page
    refine if_neg ?_
    rw [Int32.le_iff_toInt_le, hsize]
    show ¬ (size : Int) ≤ 0
    omega
  -- every answer, from its page
  have hreply : ∀ page list, pagedArray users page pageSize = some list →
      handleGetAllUsers qsort sort x ⟨flag, page, pageSize⟩ s =
        some ⟨list, devs.length, page, pageSize, ((users.length + size - 1) / size : Nat)⟩ := by
    intro page list hlist
    unfold handleGetAllUsers
    dsimp only [Option.getD_some]
    rw [harray, Option.bind_some, hreqSize, hlist, Option.bind_some, hcount, Option.map_some, hlength]
  have hends : (users.length + size - 1) / size * size ≤ users.length + size - 1 :=
    Nat.div_mul_le_self _ _
  have hcovers : users.length ≤ (users.length + size - 1) / size * size := by
    have hlt := Nat.lt_mul_div_succ (users.length + size - 1) (b := size) (by omega)
    rw [Nat.mul_succ, Nat.mul_comm] at hlt
    omega
  refine ⟨objs, users, (List.range ((users.length + size - 1) / size)).map
    (fun i => (users.drop (i * size)).take size), hobjs, hperm, hsorted, ?_, ?_, ?_⟩
  · intro page hpage
    rw [List.length_map, List.length_range]
    exact hreply page users (if_pos hpage)
  · intro i hi
    rw [List.length_map, List.length_range] at hi ⊢
    rw [List.getElem_map, List.getElem_range]
    have hstop : i * size + size ≤ (users.length + size - 1) / size * size := by
      rw [← Nat.succ_mul]
      exact Nat.mul_le_mul_right size hi
    have hle : i ≤ i * size := Nat.le_mul_of_pos_right i (by omega)
    exact hreply _ _ (pagedArray_eq users hsize (by omega) (by omega) rfl)
  · rw [← List.flatMap_def, flatMap_pages, List.take_of_length_le hcovers]

/-- **The pages of the list make up the whole.** After every run of reports, leases,
client lines, updates and flushes the walk over the table finds each device once. The
answer without pages has an object of every one, in the order of the comparator,
and the pages from the first to the last are that answer cut into pieces. -/
theorem user_pages_make_the_list (qsort : Qsort) {sort : UserSort} (hsort : SortsConsistent sort)
    (x : UserSource) (acts : List DevAct) :
    ∃ s devs, acts.foldlM devStep {} = some s ∧ s.users = some devs ∧ (devs.map Prod.fst).Nodup ∧
      (∀ mac, mac ∈ devs.map Prod.fst ↔ macKnown mac s.log = true) ∧
      ∀ flag pageSize, Listable flag pageSize devs →
        ServedInPages qsort sort x flag pageSize s devs := by
  obtain ⟨s, t, hrun, h⟩ := stands_start.run acts
  refine ⟨s, DevCells.listed t, hrun, h.users, ?_, h.mem_listed, ?_⟩
  · rw [map_fst_listed]
    exact t.nodup_keys
  · exact fun flag pageSize hlistable => servedInPages hsort h.users hlistable

def namelessApps : UserSource where
  nickname _ := []
  visitingUrl _ := []
  visitingApp _ := 0
  appName _ := []
  hasIcon _ := false

/-- Two devices that go away, and a third one. -/
def threeDevices : List DevAct :=
  [.userLine "00:11:22:33:44:55".toList 1 2 (some 0) 1000,
    .userLine "00:11:22:33:44:66".toList 3 4 (some 1) 2000,
    .cleanOnline 3000,
    .userLine "00:11:22:33:44:77".toList 5 6 (some 2) 4000]

theorem threeDevices_listable :
    ∃ s devs, threeDevices.foldlM devStep {} = some s ∧ s.users = some devs ∧ devs.length = 3 ∧
      Listable 2 2 devs := by
  refine ⟨_, _, rfl, rfl, rfl, ?_⟩
  constructor
  case apps => exact fun hflag => absurd hflag (by decide)
  case times => decide +kernel
  case size_pos => decide
  case fits => decide +kernel

theorem user_pages_three_devices :
    ∃ s devs, threeDevices.foldlM devStep {} = some s ∧ s.users = some devs ∧ devs.length = 3 ∧
      ServedInPages sortBy sortBy namelessApps 2 2 s devs := by
  obtain ⟨s, devs, hrun, hdevs, -, -, hserved⟩ :=
    user_pages_make_the_list sortBy sortBy_sorts namelessApps threeDevices
  obtain ⟨s', devs', hrun', hdevs', hlength, hlistable⟩ := threeDevices_listable
  obtain rfl := Option.some.inj (hrun.symm.trans hrun')
  obtain rfl := Option.some.inj (hdevs.symm.trans hdevs')
  exact ⟨s, devs, hrun, hdevs, hlength, hserved 2 2 hlistable⟩

end OpenAppFilter.Theorems
