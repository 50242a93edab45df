import OpenAppFilter.Base.CText
import Mathlib.Data.List.DropRight

/-!
# C buffers and files

What C code sees of memory and of text files: the text in a buffer up to its
NUL, an `int` stored in a buffer, and the pieces that a loop over `fgets`
reads. A file whose lines fit the buffer is read line by line
(`fgetsAll_of_short`).
-/

namespace OpenAppFilter.Base

/-! ## Text in a buffer -/

/-- The C string at the start of a buffer. -/
def cString (buf : List Char) : CStr := buf.takeWhile (fun c => c ≠ '\x00')

theorem cString_of_no_nul {s : CStr} (h : '\x00' ∉ s) : cString s = s := by
  unfold cString
  rw [List.takeWhile_eq_self_iff]
  intro c hc
  have hne : c ≠ '\x00' := by
    rintro rfl
    exact h hc
  simp [hne]

theorem nul_not_mem_cString (buf : List Char) : '\x00' ∉ cString buf := by
  intro hmem
  have hne := List.mem_takeWhile_imp hmem
  simp at hne

theorem cString_length_le (buf : List Char) : (cString buf).length ≤ buf.length :=
  List.IsPrefix.length_le (List.takeWhile_prefix _)

/-- What follows the NUL does not count. -/
theorem cString_append_nul {s : CStr} (h : '\x00' ∉ s) (rest : List Char) :
    cString (s ++ '\x00' :: rest) = s := by
  unfold cString
  rw [List.takeWhile_append_of_pos]
  · simp
  · intro c hc
    have hne : c ≠ '\x00' := by
      rintro rfl
      exact h hc
    simp [hne]

/-! ## Words in a buffer -/

/-- The byte order of the machine. -/
inductive ByteOrder where
  | little
  | big
  deriving DecidableEq, Repr

/-- The four bytes of a number, lowest first. -/
def lowBytes (n : Nat) : List Char :=
  [Char.ofNat (n % 256), Char.ofNat (n / 256 % 256), Char.ofNat (n / 65536 % 256),
    Char.ofNat (n / 16777216 % 256)]

/-- An `int` in memory. -/
def intBytes (o : ByteOrder) (w : BitVec 32) : List Char :=
  match o with
  | .little => lowBytes w.toNat
  | .big => (lowBytes w.toNat).reverse

/-- The `int` at the start of a buffer. -/
def intAt (o : ByteOrder) (buf : List Char) : BitVec 32 :=
  let b : Nat → Nat := fun i => (buf.getD i '\x00').toNat
  match o with
  | .little => BitVec.ofNat 32 (b 0 + 256 * b 1 + 65536 * b 2 + 16777216 * b 3)
  | .big => BitVec.ofNat 32 (b 3 + 256 * b 2 + 65536 * b 1 + 16777216 * b 0)

@[simp] theorem intBytes_length (o : ByteOrder) (w : BitVec 32) : (intBytes o w).length = 4 := by
  cases o <;> rfl

theorem toNat_ofNat_byte {n : Nat} (h : n < 256) : (Char.ofNat n).toNat = n := by
  have hvalid : n.isValidChar := Or.inl (by omega)
  rw [Char.ofNat, dif_pos hvalid]
  rfl

/-- An `int` reads back as it was stored. -/
@[simp] theorem intAt_intBytes (o : ByteOrder) (w : BitVec 32) (rest : List Char) :
    intAt o (intBytes o w ++ rest) = w := by
  have hlt := w.isLt
  have hb : ∀ n, (Char.ofNat (n % 256)).toNat = n % 256 :=
    fun n => toNat_ofNat_byte (Nat.mod_lt n (by omega))
  have hsum : w.toNat % 256 + 256 * (w.toNat / 256 % 256) + 65536 * (w.toNat / 65536 % 256) +
      16777216 * (w.toNat / 16777216 % 256) = w.toNat := by
    omega
  cases o with
  | little =>
      show BitVec.ofNat 32 ((Char.ofNat _).toNat + 256 * (Char.ofNat _).toNat +
        65536 * (Char.ofNat _).toNat + 16777216 * (Char.ofNat _).toNat) = w
      rw [hb, hb, hb, hb, hsum]
      exact BitVec.eq_of_toNat_eq (by simp)
  | big =>
      show BitVec.ofNat 32 ((Char.ofNat _).toNat + 256 * (Char.ofNat _).toNat +
        65536 * (Char.ofNat _).toNat + 16777216 * (Char.ofNat _).toNat) = w
      rw [hb, hb, hb, hb, hsum]
      exact BitVec.eq_of_toNat_eq (by simp)

/-! ## Reading a file -/

/-- What successive calls of `fgets(buf, size, fp)` leave in the buffer: a piece
ends with its newline, or when the buffer is full; `cur` is the piece being
read. -/
def fgetsFrom (size : Nat) : List Char → List Char → List (List Char)
  | cur, [] => if cur = [] then [] else [cur]
  | cur, c :: file =>
      if c = '\n' ∨ (cur ++ [c]).length = size - 1 then
        (cur ++ [c]) :: fgetsFrom size [] file
      else fgetsFrom size (cur ++ [c]) file

def fgetsAll (size : Nat) (file : List Char) : List (List Char) := fgetsFrom size [] file

/-- The lines of a file, without their newlines. A newline at the end of the
file is followed by an empty line. -/
def fileLines (file : List Char) : List (List Char) := file.splitOn '\n'

/-- Lines with their newlines; the last one has none, and is not there when it
is empty. -/
def withNewlines : List (List Char) → List (List Char)
  | [] => []
  | [l] => if l = [] then [] else [l]
  | l :: l' :: ls => (l ++ ['\n']) :: withNewlines (l' :: ls)

theorem fgetsFrom_of_short {size : Nat} (file : List Char) (cur : List Char)
    (hshort : ∀ l ∈ (fileLines file).modifyHead (cur ++ ·), l.length < size - 1) :
    fgetsFrom size cur file = withNewlines ((fileLines file).modifyHead (cur ++ ·)) := by
  unfold fileLines at *
  induction file generalizing cur with
  | nil => simp [fgetsFrom, withNewlines]
  | cons c file ih =>
      rw [List.splitOn_cons_eq_if_modifyHead] at hshort ⊢
      obtain ⟨l, ls, hls⟩ := List.exists_cons_of_ne_nil (List.splitOn_ne_nil '\n' file)
      by_cases hc : c = '\n'
      · -- the piece ends with its line
        rw [if_pos (by simp [hc])] at hshort ⊢
        rw [fgetsFrom, if_pos (Or.inl hc)]
        have htail := ih []
        simp only [List.nil_append, hls, List.modifyHead_cons] at htail
        rw [hls, List.modifyHead_cons, List.append_nil] at hshort ⊢
        rw [hc, withNewlines, htail (fun l' hl' => hshort l' (List.mem_cons_of_mem _ hl'))]
      · rw [if_neg (by simp [hc])] at hshort ⊢
        have hshift : ((file.splitOn '\n').modifyHead (List.cons c)).modifyHead (cur ++ ·) =
            (file.splitOn '\n').modifyHead (cur ++ [c] ++ ·) := by
          rw [hls]
          simp
        rw [hshift] at hshort ⊢
        -- the buffer is not full in the middle of a line
        have hroom : (cur ++ [c]).length ≠ size - 1 := by
          have hlt := hshort (cur ++ [c] ++ l) (by rw [hls]; exact List.mem_cons_self)
          rw [List.length_append] at hlt
          omega
        rw [fgetsFrom, if_neg (not_or.mpr ⟨hc, hroom⟩)]
        exact ih (cur ++ [c]) hshort

/-- A file whose lines leave room for newline and NUL is read line by line. -/
theorem fgetsAll_of_short {size : Nat} {file : List Char}
    (hshort : ∀ l ∈ fileLines file, l.length < size - 1) :
    fgetsAll size file = withNewlines (fileLines file) := by
  have hid : (fileLines file).modifyHead ([] ++ ·) = fileLines file := by
    cases fileLines file <;> rfl
  have h := @fgetsFrom_of_short size file [] (by rw [hid]; exact hshort)
  rw [hid] at h
  exact h

theorem fgetsFrom_line {size : Nat} {l : List Char} (hnl : '\n' ∉ l) (rest : List Char) :
    ∀ cur, (cur ++ l).length < size - 1 →
      fgetsFrom size cur (l ++ '\n' :: rest) = (cur ++ l ++ ['\n']) :: fgetsFrom size [] rest := by
  induction l with
  | nil =>
      intro cur _
      simp [fgetsFrom]
  | cons c l ih =>
      intro cur hroom
      have hc : c ≠ '\n' := fun h => hnl (h ▸ List.mem_cons_self)
      have hfull : (cur ++ [c]).length ≠ size - 1 := by
        simp only [List.length_append, List.length_cons, List.length_nil] at hroom ⊢
        omega
      rw [List.cons_append, fgetsFrom, if_neg (not_or.mpr ⟨hc, hfull⟩),
        ih (fun h => hnl (List.mem_cons_of_mem _ h)) (cur ++ [c]) (by simpa using hroom)]
      simp

/-- A file written line by line is read line by line, when the lines fit. -/
theorem fgetsAll_lines {size : Nat} {ls : List (List Char)}
    (hls : ∀ l ∈ ls, '\n' ∉ l ∧ l.length < size - 1) :
    fgetsAll size (ls.flatMap (fun l => l ++ ['\n'])) = ls.map (fun l => l ++ ['\n']) := by
  unfold fgetsAll
  induction ls with
  | nil => simp [fgetsFrom]
  | cons l ls ih =>
      obtain ⟨hnl, hlen⟩ := hls l List.mem_cons_self
      have hline := fgetsFrom_line hnl (ls.flatMap (fun l => l ++ ['\n'])) [] hlen
      rw [List.flatMap_cons, List.append_assoc, List.singleton_append, hline,
        ih (fun l' hl' => hls l' (List.mem_cons_of_mem _ hl')), List.map_cons, List.nil_append]

theorem mem_withNewlines {ls : List (List Char)} {piece : List Char}
    (h : piece ∈ withNewlines ls) : ∃ l ∈ ls, piece = l ∨ piece = l ++ ['\n'] := by
  induction ls with
  | nil => simp [withNewlines] at h
  | cons l ls ih =>
      cases ls with
      | nil =>
          rw [withNewlines] at h
          split at h
          · simp at h
          · exact ⟨l, List.mem_cons_self, Or.inl (List.mem_singleton.mp h)⟩
      | cons l' ls =>
          rw [withNewlines] at h
          rcases List.mem_cons.mp h with rfl | h
          · exact ⟨l, List.mem_cons_self, Or.inr rfl⟩
          · obtain ⟨l₀, hl₀, hpiece⟩ := ih h
            exact ⟨l₀, List.mem_cons_of_mem _ hl₀, hpiece⟩

/-- A function that skips empty lines and does not care about newlines sees the
lines of a file. -/
theorem filterMap_withNewlines {β : Type*} {f : List Char → Option β} (hempty : f [] = none)
    (hnewline : ∀ l, f (l ++ ['\n']) = f l) (ls : List (List Char)) :
    (withNewlines ls).filterMap f = ls.filterMap f := by
  induction ls with
  | nil => rfl
  | cons l ls ih =>
      cases ls with
      | nil =>
          rw [withNewlines]
          by_cases hl : l = []
          · rw [if_pos hl, hl]
            simp [hempty]
          · rw [if_neg hl]
      | cons l' ls =>
          rw [withNewlines, List.filterMap_cons, List.filterMap_cons, hnewline, ih]

/-! ## Trimming -/

/-- Text without its leading and trailing white space. -/
def trimmed (s : CStr) : CStr := (s.dropWhile isSpace).rdropWhile isSpace

/-- A newline at the end is trimmed away. -/
theorem trimmed_append_newline (s : CStr) : trimmed (s ++ ['\n']) = trimmed s := by
  have hspace : isSpace '\n' = true := by decide
  unfold trimmed
  by_cases hs : s.dropWhile isSpace = []
  · have hall : ∀ c ∈ s, isSpace c = true := List.dropWhile_eq_nil_iff.mp hs
    have hall' : (s ++ ['\n']).dropWhile isSpace = [] := by
      rw [List.dropWhile_eq_nil_iff]
      intro c hc
      rcases List.mem_append.mp hc with hc | hc
      · exact hall c hc
      · rw [List.mem_singleton.mp hc]
        exact hspace
    rw [hs, hall']
  · rw [List.dropWhile_append, if_neg (by simpa using hs), List.rdropWhile_concat, if_pos hspace]

theorem length_trimmed_le (s : CStr) : (trimmed s).length ≤ s.length := by
  unfold trimmed
  have hright := (List.rdropWhile_prefix isSpace (s.dropWhile isSpace)).length_le
  have hleft := (List.dropWhile_suffix isSpace (l := s)).length_le
  omega

theorem mem_of_mem_trimmed {s : CStr} {c : Char} (h : c ∈ trimmed s) : c ∈ s := by
  unfold trimmed at h
  exact (List.dropWhile_suffix isSpace).subset ((List.rdropWhile_prefix isSpace _).subset h)

end OpenAppFilter.Base
