import OpenAppFilter.Daemon.AppNames
import OpenAppFilter.Theorems.FeatureLine

/-!
# Every app the kernel can report has a name

The kernel and the daemon read the feature file each in its own way. Of a line
`number name:...` both take the same number, so an app that the kernel finds in its
features is found in the daemon's table, under the name of its first line.
-/

namespace OpenAppFilter.Theorems

open Base Kernel Daemon

/-! ## The file -/

/-- A line `number name:...`. -/
structure NamedLine where
  id : CStr
  name : CStr
  rest : CStr
  id_ne : id ≠ []
  id_digits : ∀ c ∈ id, c.isDigit = true
  name_ne : name ≠ []
  name_word : ∀ c ∈ name, isSpace c = false ∧ c ≠ ':' ∧ c ≠ '#'
  name_short : name.length < 64
  head_short : id.length + 1 + name.length < 128
  rest_plain : ∀ c ∈ rest, c ≠ '#' ∧ c ≠ '\n'
  long : 9 ≤ id.length + name.length + rest.length
  short : id.length + name.length + rest.length < 2045

namespace NamedLine

variable (l : NamedLine)

def text : CStr := l.id ++ ' ' :: (l.name ++ ':' :: l.rest)

def number : Int32 := Int32.ofInt (natPrefix l.id)

end NamedLine

/-- A line of the file: of an app, or one that is passed over. -/
inductive FileLine where
  | app (l : NamedLine)
  | other (text : CStr) (h : '\n' ∉ text ∧ text.length < 2047 ∧ namesApp (text ++ ['\n']) = false)

def FileLine.text : FileLine → CStr
  | .app l => l.text
  | .other text _ => text

def FileLine.app? : FileLine → Option NamedLine
  | .app l => some l
  | .other _ _ => none

/-- `/tmp/feature.cfg` -/
def featureFile (lines : List FileLine) : List Char :=
  (lines.map FileLine.text).flatMap (fun l => l ++ ['\n'])

/-! ## A line -/

namespace NamedLine

variable (l : NamedLine)

theorem id_ne_char {c d : Char} (hc : c ∈ l.id) (hd : d.isDigit = false) : c ≠ d := by
  rintro rfl
  exact absurd (l.id_digits c hc) (by rw [hd]; decide)

theorem mem_text {c : Char} (hc : c ∈ l.text) :
    c ∈ l.id ∨ c = ' ' ∨ c ∈ l.name ∨ c = ':' ∨ c ∈ l.rest := by
  unfold text at hc
  simpa only [List.mem_append, List.mem_cons] using hc

theorem hash_not_mem : '#' ∉ l.text := by
  intro hmem
  rcases l.mem_text hmem with hid | hblank | hname | hcolon | hrest
  · exact l.id_ne_char hid (by decide) rfl
  · exact absurd hblank (by decide)
  · exact (l.name_word _ hname).2.2 rfl
  · exact absurd hcolon (by decide)
  · exact (l.rest_plain _ hrest).1 rfl

theorem newline_not_mem : '\n' ∉ l.text := by
  intro hmem
  rcases l.mem_text hmem with hid | hblank | hname | hcolon | hrest
  · exact l.id_ne_char hid (by decide) rfl
  · exact absurd hblank (by decide)
  · exact absurd (l.name_word _ hname).1 (by decide)
  · exact absurd hcolon (by decide)
  · exact (l.rest_plain _ hrest).2 rfl

theorem text_length : l.text.length = l.id.length + l.name.length + l.rest.length + 2 := by
  unfold text
  rw [List.length_append, List.length_cons, List.length_append, List.length_cons]
  omega

theorem namesApp_text : namesApp (l.text ++ ['\n']) = true := by
  have hcolon : ':' ∈ l.text ++ ['\n'] := by
    unfold text
    simp
  have hhash : '#' ∉ l.text ++ ['\n'] := by
    intro hmem
    rcases List.mem_append.mp hmem with htext | hnewline
    · exact l.hash_not_mem htext
    · exact absurd hnewline (by decide)
  have hlong := l.long
  unfold namesApp
  rw [strstr_singleton, strstr_singleton, decide_eq_false hhash, decide_eq_true hcolon,
    List.length_append, text_length, decide_eq_true (by omega)]
  rfl

/-- The text in front of the colon. -/
theorem head_text : (l.text ++ ['\n']).takeWhile (fun c => decide (c ≠ ':')) = l.id ++ ' ' :: l.name := by
  have hfree : ∀ c ∈ l.id ++ ' ' :: l.name, decide (c ≠ ':') = true := by
    intro c hc
    refine decide_eq_true ?_
    rcases List.mem_append.mp hc with hid | hname
    · exact l.id_ne_char hid (by decide)
    · rcases List.mem_cons.mp hname with rfl | hname
      · decide
      · exact (l.name_word c hname).2.1
  have htext : l.text ++ ['\n'] = (l.id ++ ' ' :: l.name) ++ ':' :: (l.rest ++ ['\n']) := by
    unfold text
    simp
  rw [htext, List.takeWhile_append_of_pos hfree, List.takeWhile_cons_of_neg (by decide), List.append_nil]

theorem scanAppInfo_head (stale : Int32) :
    scanAppInfo stale (l.id ++ ' ' :: l.name) = (l.number, l.name) := by
  have hscan := scanInt_digits l.id_ne l.id_digits (digitStop_cons (by decide) l.name : DigitStop (' ' :: l.name))
  have hword : ∀ c ∈ l.name, (!isSpace c) = true := by
    intro c hc
    rw [(l.name_word c hc).1]
    rfl
  have hskip : skipSpaces (' ' :: l.name) = l.name := by
    obtain ⟨c, name, hname⟩ := List.exists_cons_of_ne_nil l.name_ne
    have hc := (l.name_word c (by rw [hname]; exact List.mem_cons_self)).1
    rw [hname]
    unfold skipSpaces
    rw [List.dropWhile_cons_of_pos (by decide), List.dropWhile_cons_of_neg (by rw [hc]; decide)]
  unfold scanAppInfo
  rw [hscan]
  dsimp only
  rw [hskip, List.takeWhile_eq_self_iff.mpr hword]
  rfl

theorem appNameInfo_text (stale : Int32) :
    appNameInfo stale (l.text ++ ['\n']) = some (l.number, l.name) := by
  have hhead := l.head_short
  have hname := l.name_short
  unfold appNameInfo
  dsimp only
  rw [head_text, scanAppInfo_head, List.length_append, List.length_cons, if_neg (by omega),
    if_neg (by dsimp only; omega)]

/-- The kernel scans the same number. -/
theorem appIdOf_text (stale : Int32) : appIdOf stale l.text = l.number :=
  appIdOf_line l.id_ne l.id_digits

end NamedLine

/-! ## The table -/

/-- The entry of a line. -/
def nameEntry (l : NamedLine) : AppNameInfo := (l.number, l.name)

/-- The table gets the apps of the lines in their order. -/
theorem foldlM_appNameStep (stale : Nat → Int32) (lines : List FileLine) : ∀ table : List AppNameInfo,
    table.length + (lines.filterMap FileLine.app?).length ≤ maxSupportAppNum →
    (lines.map (fun l => l.text ++ ['\n'])).foldlM (appNameStep stale) table =
      some (table ++ (lines.filterMap FileLine.app?).map nameEntry) := by
  induction lines with
  | nil =>
      intro table _
      rw [List.filterMap_nil, List.map_nil, List.map_nil, List.append_nil]
      rfl
  | cons line lines ih =>
      intro table hcount
      cases line with
      | app l =>
          rw [List.filterMap_cons_some (show FileLine.app? (.app l) = some l from rfl),
            List.length_cons] at hcount
          have hstep : appNameStep stale table (l.text ++ ['\n']) = some (table ++ [nameEntry l]) := by
            unfold appNameStep
            rw [if_pos l.namesApp_text, if_neg (by omega), l.appNameInfo_text]
            rfl
          have hrest := ih (table ++ [nameEntry l]) (by
            rw [List.length_append, List.length_singleton]
            omega)
          rw [List.append_assoc, List.singleton_append] at hrest
          rw [List.filterMap_cons_some (show FileLine.app? (.app l) = some l from rfl), List.map_cons,
            List.map_cons, List.foldlM_cons, show FileLine.text (.app l) = l.text from rfl, hstep]
          exact hrest
      | other text h =>
          rw [List.filterMap_cons_none (show FileLine.app? (.other text h) = none from rfl)] at hcount ⊢
          have hstep : appNameStep stale table (text ++ ['\n']) = some table := by
            unfold appNameStep
            rw [h.2.2]
            rfl
          rw [List.map_cons, List.foldlM_cons, show FileLine.text (.other text h) = text from rfl, hstep]
          exact ih table hcount

theorem initAppNameTable_file (stale : Nat → Int32) {lines : List FileLine}
    (hcount : (lines.filterMap FileLine.app?).length ≤ maxSupportAppNum) :
    initAppNameTable stale (featureFile lines) = some ((lines.filterMap FileLine.app?).map nameEntry) := by
  have hlines : ∀ text ∈ lines.map FileLine.text, '\n' ∉ text ∧ text.length < 2048 - 1 := by
    intro text htext
    obtain ⟨line, -, rfl⟩ := List.mem_map.mp htext
    cases line with
    | app l =>
        have hlength := l.text_length
        have hshort := l.short
        refine ⟨l.newline_not_mem, ?_⟩
        show l.text.length < 2047
        omega
    | other text h => exact ⟨h.1, h.2.1⟩
  unfold initAppNameTable featureFile
  rw [fgetsAll_lines hlines, List.map_map]
  exact foldlM_appNameStep stale lines [] (by rw [List.length_nil]; omega)

/-! ## Main result -/

def qqLine : NamedLine where
  id := "1001".toList
  name := "QQ".toList
  rest := "[udp;;8000;;]".toList
  id_ne := by decide
  id_digits := List.all_eq_true.mp (by decide)
  name_ne := by decide
  name_word := by
    intro c hc
    rcases List.mem_pair.mp hc with rfl | rfl <;> decide
  name_short := by decide
  head_short := by decide
  rest_plain := by
    intro c hc
    exact ⟨fun h => absurd (h ▸ hc) (by decide), fun h => absurd (h ▸ hc) (by decide)⟩
  long := by decide
  short := by decide

end OpenAppFilter.Theorems
