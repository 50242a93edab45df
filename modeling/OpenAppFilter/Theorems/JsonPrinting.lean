import OpenAppFilter.Theorems.JsonReading
import Mathlib.Algebra.Group.Int.Defs

/-!
# Printing JSON texts

`cJSON_Print` writes a JSON text of the item's value, all of it inside the
buffers it allocates, and `cJSON_Parse` reads the value back.
-/

namespace OpenAppFilter.Theorems

open Base Kernel Kernel.CJson

variable {signedChar : Bool}

/-! ## What can be printed -/

/-- A string whose characters all come through: no percent sign, and of the
control characters only those with an escape. -/
def Printable (signedChar : Bool) (s : CStr) : Prop :=
  ∀ c ∈ s, c ≠ '%' ∧ (isPlain signedChar c = true ∨ escaped c ≠ [])

/-- A value `cJSON_Print` can spell: the numbers are those of an `int`. -/
abbrev Writable (signedChar : Bool) (v : Json) : Prop :=
  v.Every (Printable signedChar) (fun n => -2 ^ 31 ≤ n ∧ n < 2 ^ 31)

abbrev WritableItems (signedChar : Bool) (vs : List Json) : Prop :=
  Json.EveryItem (Printable signedChar) (fun n => -2 ^ 31 ≤ n ∧ n < 2 ^ 31) vs

abbrev WritableMembers (signedChar : Bool) (fs : List (CStr × Json)) : Prop :=
  Json.EveryMember (Printable signedChar) (fun n => -2 ^ 31 ≤ n ∧ n < 2 ^ 31) fs

/-- Characters that are no conversion of a format and no negative `char`. -/
def Clean (signedChar : Bool) (t : CStr) : Prop :=
  ∀ c ∈ t, c ≠ '%' ∧ (signedChar = true → c.toNat < 0x80)

theorem Clean.readable {t : CStr} (h : Clean signedChar t) : Readable signedChar t :=
  fun hs c hc => (h c hc).2 hs

theorem Clean.no_percent {t : CStr} (h : Clean signedChar t) : '%' ∉ t :=
  fun hc => (h '%' hc).1 rfl

theorem clean_append {s t : CStr} (hs : Clean signedChar s) (ht : Clean signedChar t) :
    Clean signedChar (s ++ t) := by
  intro c hc
  rcases List.mem_append.mp hc with h | h
  · exact hs c h
  · exact ht c h

theorem clean_of_decide {t : CStr} (h : t.all (fun c => decide (c ≠ '%' ∧ c.toNat < 0x80)) = true) :
    Clean signedChar t := by
  intro c hc
  have hchar := List.all_eq_true.mp h c hc
  have hboth := of_decide_eq_true hchar
  exact ⟨hboth.1, fun _ => hboth.2⟩

theorem clean_blank {b : CStr} (hb : Blank b) : Clean signedChar b := by
  intro c hc
  have hle := toNat_of_isBlank (hb c hc)
  refine ⟨?_, fun _ => by omega⟩
  rintro rfl
  exact absurd hle (by decide)

def tabs (depth : Nat) : CStr := List.replicate depth '\t'

theorem blank_tabs (depth : Nat) : Blank (tabs depth) := by
  intro c hc
  rw [List.eq_of_mem_replicate hc]
  rfl

/-! ## Strings and numbers -/

/-- The escapes `print_string_ptr` writes are escapes of JSON. -/
theorem escaped_cases {c : Char} (h : escaped c ≠ []) :
    ∃ e, escaped c = ['\\', e] ∧ (e, c) ∈ escapes ∧ e.toNat < 0x80 ∧ e ≠ '%' := by
  have hnone : ¬ (c = '\\' ∨ c = '"' ∨ c = '\x08' ∨ c = '\x0c' ∨ c = '\n' ∨ c = '\r' ∨ c = '\t') →
      escaped c = [] := by
    intro hc
    simp only [not_or] at hc
    simp [escaped, hc]
  by_contra hcases
  refine h (hnone ?_)
  rintro (rfl | rfl | rfl | rfl | rfl | rfl | rfl)
  all_goals exact hcases ⟨_, rfl, by simp [escapes], by decide, by decide⟩

theorem isPlain_iff {c : Char} (h : isPlain signedChar c = true) :
    31 < c.toNat ∧ c ≠ '"' ∧ c ≠ '\\' ∧ (signedChar = true → c.toNat < 0x80) := by
  unfold isPlain at h
  simp only [Bool.and_eq_true, Bool.not_eq_true', decide_eq_true_eq, atMost,
    Bool.or_eq_false_iff, decide_eq_false_iff_not, Bool.and_eq_false_iff] at h
  obtain ⟨⟨⟨hlow, hhigh⟩, hquote⟩, hback⟩ := h
  refine ⟨by omega, hquote, hback, ?_⟩
  intro hs
  rcases hhigh with h | h
  · rw [hs] at h
    cases h
  · omega

theorem printChars_quoted {s : CStr} (h : Printable signedChar s) :
    Quoted s (printChars signedChar s) ∧ Clean signedChar (printChars signedChar s) ∧
      (printChars signedChar s).length = printLen signedChar s := by
  induction s with
  | nil => exact ⟨.nil, fun c hc => absurd hc List.not_mem_nil, rfl⟩
  | cons c s ih =>
      obtain ⟨hpercent, hc⟩ := h c List.mem_cons_self
      obtain ⟨hq, hclean, hlen⟩ := ih (fun d hd => h d (List.mem_cons_of_mem c hd))
      have hchars : printChars signedChar (c :: s) =
          (if isPlain signedChar c then [c] else escaped c) ++ printChars signedChar s := rfl
      have hcount : printLen signedChar (c :: s) =
          (if isPlain signedChar c then 1 else 2) + printLen signedChar s := rfl
      rw [hchars, hcount]
      by_cases hplain : isPlain signedChar c = true
      · obtain ⟨hlow, hquote, hback, hhigh⟩ := isPlain_iff hplain
        rw [if_pos hplain, if_pos hplain]
        refine ⟨.plain hlow hquote hback hq, clean_append ?_ hclean, ?_⟩
        · intro d hd
          rw [List.mem_singleton.mp hd]
          exact ⟨hpercent, hhigh⟩
        · rw [List.length_append, hlen]
          rfl
      · obtain ⟨e, he, hmem, hlow, hne⟩ := escaped_cases (hc.resolve_left hplain)
        rw [if_neg hplain, if_neg hplain, he]
        refine ⟨.escape hmem hq, clean_append ?_ hclean, ?_⟩
        · intro d hd
          rcases List.mem_pair.mp hd with rfl | rfl
          · exact ⟨by decide, fun _ => by decide⟩
          · exact ⟨hne, fun _ => hlow⟩
        · rw [List.length_append, hlen]
          rfl

/-- `%d` spells the numbers of an `int` as JSON does. -/
theorem decimal_ofInt {n : Int} (hlo : -2 ^ 31 ≤ n) (hhi : n < 2 ^ 31) :
    decimal (Int32.ofInt n) = numeral n := by
  have hval : (Int32.ofInt n).toInt = n := Int32.toInt_ofInt_of_le hlo hhi
  unfold decimal
  rw [hval]
  cases n with
  | ofNat m => rfl
  | negSucc m => rfl

theorem numeral_clean (n : Int) : Clean signedChar (numeral n) := by
  have hdigit : ∀ m, Clean signedChar (Nat.toDigits 10 m) := by
    intro m c hc
    have hd : c.isDigit = true := Nat.isDigit_of_mem_toDigits (by decide) (by decide) hc
    have hrange := toNat_of_isDigit hd
    refine ⟨?_, fun _ => by omega⟩
    rintro rfl
    exact absurd hd (by decide)
  cases n with
  | ofNat m => exact hdigit m
  | negSucc m =>
      have hminus : Clean signedChar ['-'] := clean_of_decide (by decide)
      exact clean_append hminus (hdigit (m + 1))

/-! ## Values -/

/-- The item `cJSON_Create…` builds for a value. -/
def builtOf (v : Json) : CJson := itemWith Int32.ofInt v

theorem sprintfBehind_clean {size : Nat} {out s : CStr} (hs : Clean signedChar s)
    (hroom : (out ++ s).length < size) : sprintfBehind size out s = some (out ++ s) := by
  unfold sprintfBehind inBuffer
  rw [if_neg hs.no_percent, if_pos hroom]

theorem inBuffer_room {size : Nat} {t : CStr} (hroom : t.length < size) :
    inBuffer size t = some t := if_pos hroom

theorem printValue_named (name : CStr) (item : CJson) (depth : Nat) :
    printValue signedChar (item.named name) depth = printValue signedChar item depth := by
  cases item with
  | mk type s n string child =>
      cases type
      all_goals rfl

/-- A string as `print_string_ptr` writes it. -/
def quoted (signedChar : Bool) (s : CStr) : CStr := '"' :: (printChars signedChar s ++ ['"'])

mutual
/-- The text `cJSON_Print` writes for a value. -/
def render (signedChar : Bool) (depth : Nat) : Json → CStr
  | .null => "null".toList
  | .bool b => if b then "true".toList else "false".toList
  | .num n => numeral n
  | .str s => quoted signedChar s
  | .arr items => '[' :: (renderItems signedChar (depth + 1) items ++ [']'])
  | .obj fields =>
      '\x7b' :: '\n' :: (renderMembers signedChar (depth + 1) fields ++ (tabs depth ++ ['\x7d']))
def renderItems (signedChar : Bool) (depth : Nat) : List Json → CStr
  | [] => []
  | v :: vs =>
      render signedChar depth v ++ ((if vs = [] then [] else [',', ' ']) ++
        renderItems signedChar depth vs)
def renderMembers (signedChar : Bool) (depth : Nat) : List (CStr × Json) → CStr
  | [] => []
  | (k, v) :: fs =>
      tabs depth ++ (quoted signedChar k ++ (':' :: '\t' :: (render signedChar depth v ++
        ((if fs = [] then ['\n'] else [',', '\n']) ++ renderMembers signedChar depth fs))))
end

theorem quoted_clean {s : CStr} (h : Printable signedChar s) :
    Clean signedChar (quoted signedChar s) := by
  have hquote : Clean signedChar ['"'] := clean_of_decide (by decide)
  exact clean_append hquote (clean_append (printChars_quoted h).2.1 hquote)

theorem quoted_isString {s : CStr} (h : Printable signedChar s) :
    IsString s (quoted signedChar s) := ⟨_, (printChars_quoted h).1, rfl⟩

theorem printStringPtr_quoted {s : CStr} (h : Printable signedChar s) :
    printStringPtr signedChar s = some (quoted signedChar s) := by
  have hlen := (printChars_quoted h).2.2
  unfold printStringPtr
  rw [inBuffer_room]
  · rfl
  · simp only [List.length_cons, List.length_append, List.length_nil]
    omega

/-! ### The text holds no percent sign -/

mutual
theorem render_clean : ∀ (v : Json) (depth : Nat), Writable signedChar v →
    Clean signedChar (render signedChar depth v)
  | .null, _, _ => by
      rw [render]
      exact clean_of_decide (by decide)
  | .bool true, _, _ => by
      rw [render]
      exact clean_of_decide (by decide)
  | .bool false, _, _ => by
      rw [render]
      exact clean_of_decide (by decide)
  | .num n, _, _ => numeral_clean n
  | .str s, _, h => by
      rw [Writable, Json.Every] at h
      exact quoted_clean h
  | .arr items, depth, h => by
      rw [Writable, Json.Every] at h
      have hopen : Clean signedChar ['['] := clean_of_decide (by decide)
      have hclose : Clean signedChar [']'] := clean_of_decide (by decide)
      rw [render]
      exact clean_append hopen (clean_append (renderItems_clean items (depth + 1) h) hclose)
  | .obj fields, depth, h => by
      rw [Writable, Json.Every] at h
      have hopen : Clean signedChar ['\x7b', '\n'] := clean_of_decide (by decide)
      have hclose : Clean signedChar ['\x7d'] := clean_of_decide (by decide)
      have htabs : Clean signedChar (tabs depth) := clean_blank (blank_tabs depth)
      rw [render]
      exact clean_append hopen (clean_append (renderMembers_clean fields (depth + 1) h)
        (clean_append htabs hclose))
theorem renderItems_clean : ∀ (vs : List Json) (depth : Nat), WritableItems signedChar vs →
    Clean signedChar (renderItems signedChar depth vs)
  | [], _, _ => clean_of_decide rfl
  | v :: vs, depth, h => by
      rw [WritableItems, Json.EveryItem] at h
      have hsep : Clean signedChar (if vs = [] then [] else [',', ' ']) := by
        split
        · exact clean_of_decide rfl
        · exact clean_of_decide (by decide)
      rw [renderItems]
      exact clean_append (render_clean v depth h.1)
        (clean_append hsep (renderItems_clean vs depth h.2))
theorem renderMembers_clean : ∀ (fs : List (CStr × Json)) (depth : Nat),
    WritableMembers signedChar fs → Clean signedChar (renderMembers signedChar depth fs)
  | [], _, _ => clean_of_decide rfl
  | (k, v) :: fs, depth, h => by
      rw [WritableMembers, Json.EveryMember] at h
      have hsep : Clean signedChar (if fs = [] then ['\n'] else [',', '\n']) := by
        split
        · exact clean_of_decide (by decide)
        · exact clean_of_decide (by decide)
      have hcolon : Clean signedChar [':', '\t'] := clean_of_decide (by decide)
      rw [renderMembers]
      exact clean_append (clean_blank (blank_tabs depth)) (clean_append (quoted_clean h.1)
        (clean_append hcolon (clean_append (render_clean v depth h.2.1)
          (clean_append hsep (renderMembers_clean fs depth h.2.2)))))
end

/-! ### The text fits the buffers -/

mutual
theorem printValue_built : ∀ (v : Json) (depth : Nat), Writable signedChar v →
    printValue signedChar (builtOf v) depth = some (render signedChar depth v)
  | .null, _, _ => rfl
  | .bool true, _, _ => rfl
  | .bool false, _, _ => rfl
  | .num n, _, h => by
      rw [Writable, Json.Every] at h
      show inBuffer 21 (decimal (Int32.ofInt n)) = some (numeral n)
      have hlen := (decimal_length_int32 (Int32.ofInt n)).2
      rw [inBuffer_room (by omega), decimal_ofInt h.1 h.2]
  | .str s, _, h => by
      rw [Writable, Json.Every] at h
      exact printStringPtr_quoted h
  | .arr items, depth, h => by
      rw [Writable, Json.Every] at h
      show printItems signedChar (itemsWith Int32.ofInt items) depth 5 ['['] = _
      rw [printItems_built items depth 5 ['['] h (by decide)]
      rfl
  | .obj fields, depth, h => by
      rw [Writable, Json.Every] at h
      show printMembers signedChar (membersWith Int32.ofInt fields) (depth + 1)
        (7 + (depth + 1)) ['\x7b', '\n'] = _
      rw [printMembers_built fields (depth + 1) (7 + (depth + 1)) ['\x7b', '\n'] h
        (by simp only [List.length_cons, List.length_nil]; omega)]
      rfl
/-- The loop of `print_array`: four bytes more than are written stay allocated. -/
theorem printItems_built : ∀ (vs : List Json) (depth len : Nat) (out : CStr),
    WritableItems signedChar vs → out.length + 4 ≤ len →
    printItems signedChar (itemsWith Int32.ofInt vs) depth len out =
      some (out ++ (renderItems signedChar (depth + 1) vs ++ [']']))
  | [], depth, len, out, _, hlen => by
      rw [itemsWith, printItems, inBuffer_room]
      · rfl
      · simp only [List.length_append, List.length_cons, List.length_nil]
        omega
  | v :: vs, depth, len, out, h, hlen => by
      rw [WritableItems, Json.EveryItem] at h
      have hret := printValue_built v (depth + 1) h.1
      have hclean := render_clean v (depth + 1) h.1
      have hempty : itemsWith Int32.ofInt vs = [] ↔ vs = [] := by
        rw [itemsWith_eq_map, List.map_eq_nil_iff]
      rw [itemsWith, printItems, renderItems]
      generalize render signedChar (depth + 1) v = ret at hret hclean
      simp only [bind, Option.bind]
      rw [show itemWith Int32.ofInt v = builtOf v from rfl, hret]
      simp only
      rw [sprintfBehind_clean hclean (by rw [List.length_append]; omega)]
      simp only [hempty]
      have hroom : (if vs = [] then out ++ ret else out ++ ret ++ [',', ' ']).length + 4 ≤
          len + (ret.length + 3) := by
        split
        · rw [List.length_append]
          omega
        · simp only [List.length_append, List.length_cons, List.length_nil]
          omega
      rw [inBuffer_room (by omega)]
      simp only
      rw [printItems_built vs depth _ _ h.2 hroom]
      split
      · simp
      · simp
/-- The loop of `print_object`. -/
theorem printMembers_built : ∀ (fs : List (CStr × Json)) (depth len : Nat) (out : CStr),
    WritableMembers signedChar fs → out.length + depth + 5 ≤ len →
    printMembers signedChar (membersWith Int32.ofInt fs) depth len out =
      some (out ++ (renderMembers signedChar depth fs ++ (tabs (depth - 1) ++ ['\x7d'])))
  | [], depth, len, out, _, hlen => by
      rw [membersWith, printMembers, inBuffer_room]
      · rfl
      · simp only [List.length_append, List.length_replicate, List.length_cons, List.length_nil]
        omega
  | (k, v) :: fs, depth, len, out, h, hlen => by
      rw [WritableMembers, Json.EveryMember] at h
      have hstr := printStringPtr_quoted h.1
      have hcleans := quoted_clean h.1
      have hret := printValue_built v depth h.2.1
      have hclean := render_clean v depth h.2.1
      have hempty : membersWith Int32.ofInt fs = [] ↔ fs = [] := by
        rw [membersWith_eq_map, List.map_eq_nil_iff]
      rw [membersWith, printMembers, renderMembers]
      generalize render signedChar depth v = ret at hret hclean
      generalize quoted signedChar k = str at hstr hcleans
      simp only [bind, Option.bind, named_string, printValue_named]
      rw [hstr]
      simp only
      rw [show itemWith Int32.ofInt v = builtOf v from rfl, hret]
      simp only
      rw [sprintfBehind_clean hcleans
        (by simp only [List.length_append, List.length_replicate]; omega)]
      simp only
      rw [sprintfBehind_clean hclean
        (by
          simp only [List.length_append, List.length_replicate, List.length_cons, List.length_nil]
          omega)]
      simp only [hempty]
      have hroom : (out ++ List.replicate depth '\t' ++ str ++ [':', '\t'] ++ ret ++
          (if fs = [] then [] else [',']) ++ ['\n']).length + depth + 5 ≤
          len + (ret.length + str.length + 4 + depth) := by
        split
        · simp only [List.length_append, List.length_replicate, List.length_cons, List.length_nil]
          omega
        · simp only [List.length_append, List.length_replicate, List.length_cons, List.length_nil]
          omega
      rw [inBuffer_room (by omega)]
      simp only
      rw [printMembers_built fs depth _ _ h.2.2 hroom]
      unfold tabs
      split
      · simp
      · simp
end

/-! ### The text is a JSON text -/

theorem blank_singleton {c : Char} (h : isBlank c = true) : Blank [c] := by
  intro d hd
  rw [List.mem_singleton.mp hd]
  exact h

mutual
theorem render_text : ∀ (v : Json) (depth : Nat), Writable signedChar v →
    IsText Blank v (render signedChar depth v)
  | .null, _, _ => rfl
  | .bool _, _, _ => rfl
  | .num _, _, _ => rfl
  | .str s, _, h => by
      rw [Writable, Json.Every] at h
      exact quoted_isString h
  | .arr items, depth, h => by
      rw [Writable, Json.Every] at h
      rw [IsText, render]
      refine ⟨_, rfl, ?_⟩
      by_cases hne : items = []
      · subst hne
        exact Or.inl ⟨rfl, blank_nil⟩
      · exact Or.inr ⟨hne, renderItems_text items (depth + 1) hne h⟩
  | .obj fields, depth, h => by
      rw [Writable, Json.Every] at h
      have hline : Blank ['\n'] := blank_singleton rfl
      rw [IsText, render]
      refine ⟨'\n' :: (renderMembers signedChar (depth + 1) fields ++ tabs depth), by simp, ?_⟩
      by_cases hne : fields = []
      · subst hne
        exact Or.inl ⟨rfl, blank_append hline (blank_tabs depth)⟩
      · have hmembers := renderMembers_text fields (depth + 1) (tabs depth) hne h
          (blank_tabs depth)
        exact Or.inr ⟨hne, hmembers.pad hline hne⟩
theorem renderItems_text : ∀ (vs : List Json) (depth : Nat), vs ≠ [] →
    WritableItems signedChar vs → IsItems Blank vs (',' :: renderItems signedChar depth vs)
  | [], _, hne, _ => absurd rfl hne
  | [v], depth, _, h => by
      rw [WritableItems, Json.EveryItem] at h
      rw [IsItems]
      exact ⟨[], render signedChar depth v, [], [], rfl, blank_nil, render_text v depth h.1,
        blank_nil, by rw [IsItems]⟩
  | v :: w :: vs, depth, _, h => by
      rw [WritableItems, Json.EveryItem] at h
      have hmore := renderItems_text (w :: vs) depth (List.cons_ne_nil w vs) h.2
      have hspace : Blank [' '] := blank_singleton rfl
      rw [IsItems]
      exact ⟨[], render signedChar depth v, [], _, rfl, blank_nil, render_text v depth h.1,
        blank_nil, hmore.pad hspace (List.cons_ne_nil w vs)⟩
theorem renderMembers_text : ∀ (fs : List (CStr × Json)) (depth : Nat) (z : CStr), fs ≠ [] →
    WritableMembers signedChar fs → Blank z →
    IsMembers Blank fs (',' :: (renderMembers signedChar depth fs ++ z))
  | [], _, _, hne, _, _ => absurd rfl hne
  | [(k, v)], depth, z, _, h, hz => by
      rw [WritableMembers, Json.EveryMember] at h
      have hgap : Blank ('\n' :: z) := blank_append (blank_singleton rfl) hz
      rw [IsMembers]
      exact ⟨tabs depth, quoted signedChar k, [], ['\t'], render signedChar depth v, '\n' :: z, [],
        by simp [renderMembers], blank_tabs depth, quoted_isString h.1, blank_nil,
        blank_singleton rfl, render_text v depth h.2.1, hgap, by rw [IsMembers]⟩
  | (k, v) :: f :: fs, depth, z, _, h, hz => by
      rw [WritableMembers, Json.EveryMember] at h
      have hmore := renderMembers_text (f :: fs) depth z (List.cons_ne_nil f fs) h.2.2 hz
      have hline : Blank ['\n'] := blank_singleton rfl
      rw [IsMembers]
      exact ⟨tabs depth, quoted signedChar k, [], ['\t'], render signedChar depth v, [], _,
        by simp [renderMembers], blank_tabs depth, quoted_isString h.1, blank_nil,
        blank_singleton rfl, render_text v depth h.2.1, blank_nil,
        hmore.pad hline (List.cons_ne_nil f fs)⟩
end

/-! ## There and back -/

mutual
theorem itemOf_eq_builtOf : ∀ v : Json, v.Every (fun _ => True) (fun n => 0 ≤ n) →
    itemOf v = builtOf v
  | .null, _ => rfl
  | .bool _, _ => rfl
  | .num n, h => by
      rw [Json.Every] at h
      obtain ⟨m, rfl⟩ := Int.eq_ofNat_of_zero_le h
      rfl
  | .str _, _ => rfl
  | .arr items, h => by
      rw [Json.Every] at h
      exact congrArg (CJson.mk .array none 0 none) (itemsOf_eq_builtOf items h)
  | .obj fields, h => by
      rw [Json.Every] at h
      exact congrArg (CJson.mk .object none 0 none) (membersOf_eq_builtOf fields h)
theorem itemsOf_eq_builtOf : ∀ vs : List Json,
    Json.EveryItem (fun _ => True) (fun n => 0 ≤ n) vs →
    itemsWith (fun n => Int32.ofNat n.natAbs) vs = itemsWith Int32.ofInt vs
  | [], _ => rfl
  | v :: vs, h => by
      rw [Json.EveryItem] at h
      exact congrArg₂ List.cons (itemOf_eq_builtOf v h.1) (itemsOf_eq_builtOf vs h.2)
theorem membersOf_eq_builtOf : ∀ fs : List (CStr × Json),
    Json.EveryMember (fun _ => True) (fun n => 0 ≤ n) fs →
    membersWith (fun n => Int32.ofNat n.natAbs) fs = membersWith Int32.ofInt fs
  | [], _ => rfl
  | (k, v) :: fs, h => by
      rw [Json.EveryMember] at h
      have hv := congrArg (CJson.named k) (itemOf_eq_builtOf v h.2.1)
      exact congrArg₂ List.cons hv (membersOf_eq_builtOf fs h.2.2)
end

/-- The message that adds two apps. -/
def addAppsMessage : Json :=
  .obj [("op".toList, .num 1),
    ("data".toList, .obj [("apps".toList, .arr [.num 1001, .num 2002])])]

theorem printable_of_decide {s : CStr}
    (h : s.all (fun c => decide (c ≠ '%') && isPlain signedChar c) = true) :
    Printable signedChar s := by
  intro c hc
  have hchar := List.all_eq_true.mp h c hc
  rw [Bool.and_eq_true, decide_eq_true_eq] at hchar
  exact ⟨hchar.1, Or.inl hchar.2⟩

theorem addAppsMessage_writable : Writable true addAppsMessage := by
  have hop : Printable true "op".toList := printable_of_decide (by decide)
  have hdata : Printable true "data".toList := printable_of_decide (by decide)
  have happs : Printable true "apps".toList := printable_of_decide (by decide)
  simp only [Writable, addAppsMessage, Json.Every, Json.EveryMember, Json.EveryItem]
  exact ⟨hop, by decide, hdata, ⟨happs, ⟨by decide, by decide, trivial⟩, trivial⟩, trivial⟩

end OpenAppFilter.Theorems
