import OpenAppFilter.Base.CFile
import OpenAppFilter.Base.Json
import Mathlib.Algebra.Order.Ring.Nat

/-!
# cJSON (`cJSON.c`)

The reader and the printer of the module's JSON texts. A text is a C string: the
empty list is its terminating NUL. Reading ends in an item and the text behind
it, or stops: `fail` is the returned null pointer, `outside` a read behind the
NUL, a write behind the end of a buffer or a value the C code never set.

Conventions.

* `signedChar` says whether `char` is signed; bytes from 0x80 on are negative
  then, and pass for control characters.
* Allocations succeed, and the recursion has the stack it needs. `fuel` bounds
  the number of calls; `cJsonParse` gives more than a text can use up
  (`cJsonParse_ne_spent`).
* An item that is not used any further is deleted by the code; deletion leaves
  nothing to say here. `prev` is never read and left out.
-/

namespace OpenAppFilter.Kernel

open Base

/-- The values of the field `type`. -/
inductive CJsonType where
  | isFalse
  | isTrue
  | isNull
  | number
  | string
  | array
  | object
deriving DecidableEq

/-- `cJSON` with the chain of its children. -/
inductive CJson where
  | mk (type : CJsonType) (valuestring : Option CStr) (valueint : Int32) (string : Option CStr)
      (child : List CJson)

namespace CJson

def type : CJson → CJsonType
  | mk t _ _ _ _ => t

def valuestring : CJson → Option CStr
  | mk _ s _ _ _ => s

def valueint : CJson → Int32
  | mk _ _ n _ _ => n

def string : CJson → Option CStr
  | mk _ _ _ s _ => s

def child : CJson → List CJson
  | mk _ _ _ _ cs => cs

/-- `item->string = name`. -/
def named (name : CStr) : CJson → CJson
  | mk t s n _ cs => mk t s n (some name) cs

theorem named_string (name : CStr) (item : CJson) : (item.named name).string = some name := by
  cases item
  rfl

/-- Why reading stops. -/
inductive Stop where
  | fail
  | outside
  | spent
deriving DecidableEq

variable (signedChar : Bool)

/-! ## Reading -/

/-- `c <= bound` for a bound below 0x80. -/
def atMost (bound : Nat) (c : Char) : Bool :=
  decide (c.toNat ≤ bound) || (signedChar && decide (0x80 ≤ c.toNat))

/-- `skip`. The NUL is not tested for: behind the last character the loop runs on. -/
def skip (s : CStr) : Except Stop CStr :=
  match s.dropWhile (atMost signedChar 32) with
  | [] => .error .outside
  | c :: r => .ok (c :: r)

/-- The digits of a number; `n*10 + digit` wraps around. -/
def readDigits : Int32 → CStr → Int32 × CStr
  | n, [] => (n, [])
  | n, c :: s =>
      if c.isDigit then readDigits (n * 10 + Int32.ofNat (c.toNat - '0'.toNat)) s else (n, c :: s)

/-- `if (*num == c) num++`. -/
def stepOver (c : Char) : CStr → CStr
  | [] => []
  | d :: s => if d = c then s else d :: s

/-- `parse_number`. The sign is read and not applied. -/
def parseNumber (s : CStr) : CJson × CStr :=
  let s := stepOver '0' (stepOver '-' s)
  let r := if s.head? = some '0' then (0, s) else readDigits 0 s
  (mk .number none r.1 none [], r.2)

/-- The first loop of `parse_string`, on the text behind the quote: `len`. -/
def stringLen : CStr → Option Nat
  | [] => some 0
  | c :: s =>
      if c = '"' ∨ atMost signedChar 31 c then some 0
      else if c = '\\' then
        match s with
        | [] => none
        | _ :: s => (stringLen s).map (· + 1)
      else (stringLen s).map (· + 1)

def firstByteMark : List Nat := [0x00, 0x00, 0xC0, 0xE0, 0xF0, 0xF8, 0xFC]

/-- The bytes `parse_string` stores for `\u`. -/
def transcode (uc : Nat) : CStr :=
  let low (uc : Nat) : Char := Char.ofNat (((uc ||| 0x80) &&& 0xBF) % 256)
  let len := if uc < 0x80 then 1 else if uc < 0x800 then 2 else 3
  let head (uc : Nat) : Char := Char.ofNat ((uc ||| firstByteMark.getD len 0) % 256)
  if len = 1 then [head uc]
  else if len = 2 then [head (uc >>> 6), low uc]
  else [head (uc >>> 6 >>> 6), low (uc >>> 6), low uc]

/-- The byte stored for the character behind a backslash. -/
def unescape (c : Char) : Char :=
  if c = 'b' then '\x08'
  else if c = 'f' then '\x0c'
  else if c = 'n' then '\n'
  else if c = 'r' then '\r'
  else if c = 't' then '\t'
  else c

/-- The second loop of `parse_string`: the bytes stored and the text behind the
string. `\u` steps over four characters, whatever they are. -/
def stringCopy : CStr → Option (CStr × CStr)
  | [] => some ([], [])
  | c :: s =>
      if c = '"' then some ([], s)
      else if atMost signedChar 31 c then some ([], c :: s)
      else if c ≠ '\\' then (stringCopy s).map (fun r => (c :: r.1, r.2))
      else
        match s with
        | [] => none
        | e :: s =>
            if e = 'u' then
              match s with
              | a :: b :: c :: d :: s =>
                  match scanHex (some 4) (a :: b :: c :: d :: s) with
                  | none => none
                  | some (uc, _) => (stringCopy s).map (fun r => (transcode uc ++ r.1, r.2))
              | _ => none
            else (stringCopy s).map (fun r => (unescape e :: r.1, r.2))

/-- `parse_string`: the buffer has room for `len` bytes and the NUL. -/
def parseString : CStr → Except Stop (CStr × CStr)
  | '"' :: s =>
      match stringLen signedChar s, stringCopy signedChar s with
      | some len, some (out, rest) =>
          if out.length ≤ len then .ok (cString out, rest) else .error .outside
      | _, _ => .error .outside
  | _ => .error .fail

/-- `value=skip(parse(child,skip(value)))`. -/
def padded {α : Type} (parse : CStr → Except Stop (α × CStr)) (s : CStr) :
    Except Stop (α × CStr) := do
  let s ← skip signedChar s
  let r ← parse s
  let s ← skip signedChar r.2
  .ok (r.1, s)

mutual
/-- `parse_value`. -/
def parseValue : Nat → CStr → Except Stop (CJson × CStr)
  | 0, _ => .error .spent
  | fuel + 1, s =>
      if "null".toList.isPrefixOf s then .ok (mk .isNull none 0 none [], s.drop 4)
      else if "false".toList.isPrefixOf s then .ok (mk .isFalse none 0 none [], s.drop 5)
      else if "true".toList.isPrefixOf s then .ok (mk .isTrue none 1 none [], s.drop 4)
      else
        match s with
        | [] => .error .fail
        | c :: r =>
            if c = '"' then
              (parseString signedChar s).map (fun v => (mk .string (some v.1) 0 none [], v.2))
            else if c = '-' ∨ c.isDigit then .ok (parseNumber s)
            else if c = '[' then parseArray fuel r
            else if c = '\x7b' then parseObject fuel r
            else .error .fail
/-- `parse_array` behind the bracket. -/
def parseArray : Nat → CStr → Except Stop (CJson × CStr)
  | 0, _ => .error .spent
  | fuel + 1, s => do
      let s ← skip signedChar s
      if s.head? = some ']' then .ok (mk .array none 0 none [], s.tail)
      else (parseItems fuel s).map (fun r => (mk .array none 0 none r.1, r.2))
/-- The loop of `parse_array`, behind the bracket or a comma. -/
def parseItems : Nat → CStr → Except Stop (List CJson × CStr)
  | 0, _ => .error .spent
  | fuel + 1, s => do
      let item ← padded signedChar (parseValue fuel) s
      match item.2 with
      | ',' :: s => (parseItems fuel s).map (fun r => (item.1 :: r.1, r.2))
      | ']' :: s => .ok ([item.1], s)
      | _ => .error .fail
/-- `parse_object` behind the brace. -/
def parseObject : Nat → CStr → Except Stop (CJson × CStr)
  | 0, _ => .error .spent
  | fuel + 1, s => do
      let s ← skip signedChar s
      if s.head? = some '\x7d' then .ok (mk .object none 0 none [], s.tail)
      else (parseMembers fuel s).map (fun r => (mk .object none 0 none r.1, r.2))
/-- The loop of `parse_object`, behind the brace or a comma. -/
def parseMembers : Nat → CStr → Except Stop (List CJson × CStr)
  | 0, _ => .error .spent
  | fuel + 1, s => do
      let name ← padded signedChar (parseString signedChar) s
      match name.2 with
      | ':' :: s =>
          let item ← padded signedChar (parseValue fuel) s
          match item.2 with
          | ',' :: s => (parseMembers fuel s).map (fun r => (item.1.named name.1 :: r.1, r.2))
          | '\x7d' :: s => .ok ([item.1.named name.1], s)
          | _ => .error .fail
      | _ => .error .fail
end

/-- `cJSON_Parse`: the text behind the value is not looked at. -/
def cJsonParse (s : CStr) : Except Stop CJson := do
  let s ← skip signedChar s
  let (item, _) ← parseValue signedChar (3 * s.length + 3) s
  .ok item

/-! ## Printing -/

/-- What `print_string_ptr` writes for a character behind a backslash; other
control characters are dropped. -/
def escaped (c : Char) : CStr :=
  if c = '\\' then ['\\', '\\']
  else if c = '"' then ['\\', '"']
  else if c = '\x08' then ['\\', 'b']
  else if c = '\x0c' then ['\\', 'f']
  else if c = '\n' then ['\\', 'n']
  else if c = '\r' then ['\\', 'r']
  else if c = '\t' then ['\\', 't']
  else []

/-- `print_string_ptr` copies the character as it is. -/
def isPlain (c : Char) : Bool :=
  !atMost signedChar 31 c && decide (c ≠ '"') && decide (c ≠ '\\')

/-- The second loop of `print_string_ptr`. -/
def printChars (s : CStr) : CStr :=
  s.flatMap (fun c => if isPlain signedChar c then [c] else escaped c)

/-- The first loop of `print_string_ptr`: `len`. -/
def printLen (s : CStr) : Nat :=
  (s.map (fun c => if isPlain signedChar c then 1 else 2)).sum

/-- A text in a buffer of `size` bytes, if the NUL has room too. -/
def inBuffer (size : Nat) (text : CStr) : Option CStr :=
  if text.length < size then some text else none

/-- `print_string_ptr`. -/
def printStringPtr (s : CStr) : Option CStr :=
  inBuffer (printLen signedChar s + 3) ('"' :: (printChars signedChar s ++ ['"']))

/-- `sprintf(ptr, s)` behind the text `out`: `s` is the format. -/
def sprintfBehind (size : Nat) (out s : CStr) : Option CStr :=
  if '%' ∈ s then none else inBuffer size (out ++ s)

mutual
/-- `print_value`; `none` is a write outside a buffer, a percent sign taken for a
conversion or a string that is missing. -/
def printValue : CJson → Nat → Option CStr
  | mk .isNull _ _ _ _, _ => some "null".toList
  | mk .isFalse _ _ _ _, _ => some "false".toList
  | mk .isTrue _ _ _ _, _ => some "true".toList
  | mk .number _ n _ _, _ => inBuffer 21 (decimal n)
  | mk .string s _ _ _, _ => s.bind (printStringPtr signedChar)
  | mk .array _ _ _ cs, depth => printItems cs depth 5 ['[']
  | mk .object _ _ _ cs, depth => printMembers cs (depth + 1) (7 + (depth + 1)) ['\x7b', '\n']
/-- The loop of `print_array` and its end: `len` bytes are allocated for `out`. -/
def printItems : List CJson → Nat → Nat → CStr → Option CStr
  | [], _, len, out => inBuffer len (out ++ [']'])
  | c :: cs, depth, len, out => do
      let ret ← printValue c (depth + 1)
      let len := len + (ret.length + 3)
      let out ← sprintfBehind len out ret
      let out ← inBuffer len (if cs = [] then out else out ++ [',', ' '])
      printItems cs depth len out
/-- The loop of `print_object` and its end. -/
def printMembers : List CJson → Nat → Nat → CStr → Option CStr
  | [], depth, len, out => inBuffer len (out ++ (List.replicate (depth - 1) '\t' ++ ['\x7d']))
  | c :: cs, depth, len, out => do
      let str ← c.string.bind (printStringPtr signedChar)
      let ret ← printValue c depth
      let len := len + (ret.length + str.length + 4 + depth)
      let out ← sprintfBehind len (out ++ List.replicate depth '\t') str
      let out ← sprintfBehind len (out ++ [':', '\t']) ret
      let out ← inBuffer len (out ++ (if cs = [] then [] else [',']) ++ ['\n'])
      printMembers cs depth len out
end

/-- `cJSON_Print`. -/
def cJsonPrint (item : CJson) : Option CStr := printValue signedChar item 0

/-! ## Minifying -/

/-- Where `cJSON_Minify` stands in the text. -/
inductive MinifyMode where
  | plain
  | string
  | oneline
  | multiline

/-- The text `cJSON_Minify` leaves of the rest of a text. It writes behind the
place it reads, so nothing is overwritten that is still to be read. -/
def minifyFrom : MinifyMode → CStr → CStr
  | _, [] => []
  | .plain, c :: s =>
      if c = ' ' ∨ c = '\t' ∨ c = '\r' ∨ c = '\n' then minifyFrom .plain s
      else if c = '/' then
        match s with
        | '/' :: s => minifyFrom .oneline s
        | '*' :: s => minifyFrom .multiline s
        | s => minifyFrom .plain s
      else if c = '"' then c :: minifyFrom .string s
      else c :: minifyFrom .plain s
  | .string, c :: s =>
      if c = '"' then c :: minifyFrom .plain s
      else if c = '\\' then
        match s with
        | '"' :: s => '\\' :: '"' :: minifyFrom .string s
        | s => '\\' :: minifyFrom .string s
      else c :: minifyFrom .string s
  | .oneline, c :: s => if c = '\n' then minifyFrom .plain s else minifyFrom .oneline s
  | .multiline, c :: s =>
      if c = '*' then
        match s with
        | '/' :: s => minifyFrom .plain s
        | s => minifyFrom .multiline s
      else minifyFrom .multiline s

/-- `cJSON_Minify`. -/
def cJsonMinify (json : CStr) : CStr := minifyFrom .plain json

/-! ## Items -/

/-- The letters as `strcasecmp` compares them. -/
def toLower (c : Char) : Char := if 'A' ≤ c ∧ c ≤ 'Z' then Char.ofNat (c.toNat + 32) else c

/-- `cJSON_GetObjectItem`: the first child whose name agrees but for case. A child
without a name is `none`: `strcasecmp` reads at the null pointer. -/
def findItem (name : CStr) : List CJson → Option (Option CJson)
  | [] => some none
  | c :: cs =>
      match c.string with
      | none => none
      | some s => if s.map toLower = name.map toLower then some (some c) else findItem name cs

def cJsonGetObjectItem (object : CJson) (name : CStr) : Option (Option CJson) :=
  findItem name object.child

def cJsonGetArraySize (array : CJson) : Nat := array.child.length

def cJsonGetArrayItem (array : CJson) (item : Nat) : Option CJson := array.child[item]?

def cJsonCreateObject : CJson := mk .object none 0 none []

def cJsonCreateArray : CJson := mk .array none 0 none []

def cJsonCreateNumber (n : Int32) : CJson := mk .number none n none []

def cJsonCreateString (s : CStr) : CJson := mk .string (some s) 0 none []

def cJsonAddItemToArray : CJson → CJson → CJson
  | mk t s n name cs, item => mk t s n name (cs ++ [item])

def cJsonAddItemToObject (object : CJson) (name : CStr) (item : CJson) : CJson :=
  cJsonAddItemToArray object (item.named name)

/-! ## Reading ends -/

variable {signedChar}

/-- Reading did not run out of calls, and left less than `bound` characters. -/
def Ends {α : Type} (bound : Nat) : Except Stop (α × CStr) → Prop
  | .ok r => r.2.length < bound
  | .error e => e ≠ .spent

theorem Ends.map {α β : Type} {bound : Nat} {x : Except Stop (α × CStr)} (h : Ends bound x)
    (f : α → β) : Ends bound (x.map (fun r => (f r.1, r.2))) := by
  cases x with
  | error e => exact h
  | ok r => exact h

theorem Ends.mono {α : Type} {m n : Nat} {x : Except Stop (α × CStr)} (h : Ends m x) (hle : m ≤ n) :
    Ends n x := by
  cases x with
  | error e => exact h
  | ok r => exact Nat.lt_of_lt_of_le h hle

theorem skip_length {s r : CStr} (h : skip signedChar s = .ok r) : r.length ≤ s.length := by
  have hle := (List.dropWhile_suffix (l := s) (atMost signedChar 32)).length_le
  unfold skip at h
  split at h
  · cases h
  · rename_i heq
    rw [heq] at hle
    rw [← Except.ok.inj h]
    exact hle

theorem skip_ne_spent (s : CStr) : skip signedChar s ≠ .error .spent := by
  unfold skip
  split
  · simp
  · simp

theorem padded_ends {α : Type} {parse : CStr → Except Stop (α × CStr)} {s : CStr}
    (h : ∀ r : CStr, r.length ≤ s.length → Ends r.length (parse r)) :
    Ends s.length (padded signedChar parse s) := by
  unfold padded
  simp only [bind, Except.bind]
  cases hskip : skip signedChar s with
  | error e =>
      intro he
      exact skip_ne_spent s (he ▸ hskip)
  | ok r =>
      have hr := skip_length hskip
      have hend := h r hr
      simp only
      cases hparse : parse r with
      | error e =>
          rw [hparse] at hend
          exact hend
      | ok q =>
          rw [hparse] at hend
          have hq : q.2.length < r.length := hend
          simp only
          cases hskip' : skip signedChar q.2 with
          | error e =>
              intro he
              exact skip_ne_spent q.2 (he ▸ hskip')
          | ok w =>
              have hw := skip_length hskip'
              show w.length < s.length
              omega

theorem readDigits_length (n : Int32) (s : CStr) : (readDigits n s).2.length ≤ s.length := by
  induction s generalizing n with
  | nil => simp [readDigits]
  | cons c s ih =>
      rw [readDigits]
      split
      · have h := ih (n * 10 + Int32.ofNat (c.toNat - '0'.toNat))
        rw [List.length_cons]
        omega
      · exact Nat.le_refl _

/-- What is left behind a string is left behind the piece read last. -/
theorem copied_map {x : Option (CStr × CStr)} {f : CStr → CStr} {out r : CStr}
    (h : x.map (fun q => (f q.1, q.2)) = some (out, r)) : ∃ out', x = some (out', r) := by
  obtain ⟨⟨out', r'⟩, hq, heq⟩ := Option.map_eq_some_iff.mp h
  obtain ⟨-, rfl⟩ := Prod.ext_iff.mp heq
  exact ⟨out', hq⟩

theorem stringCopy_length (s : CStr) {out r : CStr} (h : stringCopy signedChar s = some (out, r)) :
    r.length ≤ s.length := by
  have hself : ∀ {t out r : CStr}, some (([] : CStr), t) = some (out, r) → r = t :=
    fun h => ((Prod.ext_iff.mp (Option.some.inj h)).2).symm
  fun_induction stringCopy signedChar s generalizing out r with
  | case1 => exact Nat.le_of_eq (congrArg List.length (hself h))
  | case2 =>
      rw [hself h]
      exact Nat.le_succ _
  | case3 => exact Nat.le_of_eq (congrArg List.length (hself h))
  | case4 c s _ _ _ ih =>
      obtain ⟨out', hs⟩ := copied_map h
      have hle := ih hs
      rw [List.length_cons]
      omega
  | case5 => cases h
  | case6 => cases h
  | case7 c _ _ _ x y z w s uc rest _ ih =>
      obtain ⟨out', hs⟩ := copied_map h
      have hle := ih hs
      simp only [List.length_cons]
      omega
  | case8 => cases h
  | case9 c _ _ _ e s _ ih =>
      obtain ⟨out', hs⟩ := copied_map h
      have hle := ih hs
      simp only [List.length_cons]
      omega

theorem parseString_ends (s : CStr) : Ends s.length (parseString signedChar s) := by
  unfold parseString
  split
  · rename_i s
    split
    · rename_i len out rest _ hcopy
      have hle := stringCopy_length s hcopy
      split
      · show rest.length < ('"' :: s).length
        rw [List.length_cons]
        omega
      · simp [Ends]
    · simp [Ends]
  · simp [Ends]

theorem parseNumber_ends {c : Char} {s : CStr} (hc : c = '-' ∨ c.isDigit = true) :
    (parseNumber (c :: s)).2.length < (c :: s).length := by
  have hover : ∀ (d : Char) (s : CStr), (stepOver d s).length ≤ s.length := by
    intro d s
    cases s with
    | nil => exact Nat.le_refl _
    | cons c s =>
        rw [stepOver]
        split
        · exact Nat.le_succ _
        · exact Nat.le_refl _
  have hrest : ∀ s : CStr, (if s.head? = some '0' then ((0 : Int32), s) else readDigits 0 s).2.length
      ≤ s.length := by
    intro s
    split
    · exact Nat.le_refl _
    · exact readDigits_length 0 s
  unfold parseNumber
  dsimp only
  by_cases hminus : c = '-'
  · have h1 := hrest (stepOver '0' s)
    have h2 := hover '0' s
    rw [stepOver, if_pos hminus, List.length_cons]
    omega
  · have hdigit := hc.resolve_left hminus
    rw [stepOver, if_neg hminus, stepOver]
    by_cases hzero : c = '0'
    · have h := hrest s
      rw [if_pos hzero, List.length_cons]
      omega
    · have hhead : (c :: s).head? ≠ some '0' := by simpa using hzero
      have h := readDigits_length (0 * 10 + Int32.ofNat (c.toNat - '0'.toNat)) s
      rw [if_neg hzero, if_neg hhead, readDigits, if_pos hdigit, List.length_cons]
      omega

theorem word_ends {item : CJson} {s : CStr} (w : CStr) (hw : 0 < w.length)
    (h : w.isPrefixOf s = true) : Ends s.length (.ok (item, s.drop w.length)) := by
  have hle := (List.isPrefixOf_iff_prefix.mp h).length_le
  show (s.drop w.length).length < s.length
  rw [List.length_drop]
  omega

/-- The bundle that goes through the five functions at once. -/
theorem parse_ends (signedChar : Bool) (fuel : Nat) :
    (∀ s : CStr, 3 * s.length < fuel → Ends s.length (parseValue signedChar fuel s)) ∧
      (∀ s : CStr, 3 * s.length + 2 < fuel → Ends s.length (parseArray signedChar fuel s)) ∧
      (∀ s : CStr, 3 * s.length + 1 < fuel → Ends s.length (parseItems signedChar fuel s)) ∧
      (∀ s : CStr, 3 * s.length + 2 < fuel → Ends s.length (parseObject signedChar fuel s)) ∧
      (∀ s : CStr, 3 * s.length + 1 < fuel → Ends s.length (parseMembers signedChar fuel s)) := by
  induction fuel with
  | zero => exact ⟨fun s h => by omega, fun s h => by omega, fun s h => by omega,
      fun s h => by omega, fun s h => by omega⟩
  | succ fuel ih =>
      obtain ⟨hvalue, harray, hitems, hobject, hmembers⟩ := ih
      have hpadded : ∀ s : CStr, 3 * s.length < fuel →
          Ends s.length (padded signedChar (parseValue signedChar fuel) s) := by
        intro s hs
        apply padded_ends
        intro r hr
        exact hvalue r (by omega)
      refine ⟨?_, ?_, ?_, ?_, ?_⟩
      · intro s hs
        rw [parseValue.eq_def]
        simp only
        split
        · exact word_ends "null".toList (by decide) (by assumption)
        · split
          · exact word_ends "false".toList (by decide) (by assumption)
          · split
            · exact word_ends "true".toList (by decide) (by assumption)
            · cases s with
              | nil => simp [Ends]
              | cons c r =>
                  rw [List.length_cons] at hs
                  simp only
                  split
                  · exact (parseString_ends (c :: r)).map (fun v => mk .string (some v) 0 none [])
                  · split
                    · rename_i hc
                      exact parseNumber_ends hc
                    · split
                      · exact (harray r (by omega)).mono (Nat.le_succ _)
                      · split
                        · exact (hobject r (by omega)).mono (Nat.le_succ _)
                        · simp [Ends]
      · intro s hs
        rw [parseArray]
        simp only [bind, Except.bind]
        cases hskip : skip signedChar s with
        | error e =>
            intro he
            exact skip_ne_spent s (he ▸ hskip)
        | ok r =>
            have hr := skip_length hskip
            simp only
            split
            · rename_i hhead
              obtain ⟨q, rfl⟩ := List.head?_eq_some_iff.mp hhead
              show q.length < s.length
              rw [List.length_cons] at hr
              omega
            · exact ((hitems r (by omega)).map (fun items => mk .array none 0 none items)).mono hr
      · intro s hs
        rw [parseItems]
        simp only [bind, Except.bind]
        have hend := hpadded s (by omega)
        cases hitem : padded signedChar (parseValue signedChar fuel) s with
        | error e =>
            rw [hitem] at hend
            exact hend
        | ok x =>
            rw [hitem] at hend
            have hx : x.2.length < s.length := hend
            simp only
            split
            · rename_i r heq
              rw [heq, List.length_cons] at hx
              exact ((hitems r (by omega)).map (fun items => x.1 :: items)).mono (by omega)
            · rename_i r heq
              rw [heq, List.length_cons] at hx
              show r.length < s.length
              omega
            · simp [Ends]
      · intro s hs
        rw [parseObject]
        simp only [bind, Except.bind]
        cases hskip : skip signedChar s with
        | error e =>
            intro he
            exact skip_ne_spent s (he ▸ hskip)
        | ok r =>
            have hr := skip_length hskip
            simp only
            split
            · rename_i hhead
              obtain ⟨q, rfl⟩ := List.head?_eq_some_iff.mp hhead
              show q.length < s.length
              rw [List.length_cons] at hr
              omega
            · exact ((hmembers r (by omega)).map (fun items => mk .object none 0 none items)).mono hr
      · intro s hs
        rw [parseMembers]
        simp only [bind, Except.bind]
        have hend : Ends s.length (padded signedChar (parseString signedChar) s) :=
          padded_ends (fun r _ => parseString_ends r)
        cases hname : padded signedChar (parseString signedChar) s with
        | error e =>
            rw [hname] at hend
            exact hend
        | ok k =>
            rw [hname] at hend
            have hk : k.2.length < s.length := hend
            simp only
            split
            · rename_i r heq
              rw [heq, List.length_cons] at hk
              have hend' := hpadded r (by omega)
              cases hitem : padded signedChar (parseValue signedChar fuel) r with
              | error e =>
                  rw [hitem] at hend'
                  exact hend'
              | ok x =>
                  rw [hitem] at hend'
                  have hx : x.2.length < r.length := hend'
                  simp only
                  split
                  · rename_i q heq'
                    rw [heq', List.length_cons] at hx
                    exact ((hmembers q (by omega)).map
                      (fun items => x.1.named k.1 :: items)).mono (by omega)
                  · rename_i q heq'
                    rw [heq', List.length_cons] at hx
                    show q.length < s.length
                    omega
                  · simp [Ends]
            · simp [Ends]

/-- `cJSON_Parse` has calls enough for every text. -/
theorem cJsonParse_ne_spent (s : CStr) : cJsonParse signedChar s ≠ .error .spent := by
  unfold cJsonParse
  simp only [bind, Except.bind]
  cases hskip : skip signedChar s with
  | error e =>
      intro he
      exact skip_ne_spent s ((Except.error.inj he) ▸ hskip)
  | ok r =>
      have hend := (parse_ends signedChar (3 * r.length + 3)).1 r (by omega)
      simp only
      cases hparse : parseValue signedChar (3 * r.length + 3) r with
      | error e =>
          rw [hparse] at hend
          intro he
          exact hend (Except.error.inj he)
      | ok q => simp

end CJson

end OpenAppFilter.Kernel
