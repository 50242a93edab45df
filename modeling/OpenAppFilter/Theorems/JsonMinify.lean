import OpenAppFilter.Kernel.Report
import OpenAppFilter.Theorems.JsonPrinting

/-!
# Minifying JSON texts

`cJSON_Minify` takes exactly the white space out of a JSON text, as long as no
string ends with a backslash. The report of a client is such a text: it is built,
printed and minified to the compact text the daemon gets.
-/

namespace OpenAppFilter.Theorems

open Base Kernel Kernel.CJson

variable {signedChar : Bool}

/-! ## Pieces of a text -/

/-- A string whose last character is no backslash. `minify_string` takes a
backslash before the closing quote for one that escapes the quote. -/
def EndsPlain (s : CStr) : Prop := s.getLast? ≠ some '\\'

theorem endsPlain_tail {c : Char} {s : CStr} (h : EndsPlain (c :: s)) : EndsPlain s := by
  cases s with
  | nil => simp [EndsPlain]
  | cons d s =>
      unfold EndsPlain at h ⊢
      rwa [List.getLast?_cons_cons] at h

theorem endsPlain_append {x s : CStr} (hs : s ≠ []) (h : EndsPlain (x ++ s)) : EndsPlain s := by
  unfold EndsPlain at h ⊢
  rwa [List.getLast?_append_of_ne_nil x hs] at h

theorem minify_blank {b : CStr} (hb : Blank b) (s : CStr) :
    minifyFrom .plain (b ++ s) = minifyFrom .plain s := by
  induction b with
  | nil => rfl
  | cons c b ih =>
      have hc := hb c List.mem_cons_self
      have hskip : c = ' ' ∨ c = '\t' ∨ c = '\r' ∨ c = '\n' := by
        simp only [isBlank, Bool.or_eq_true, decide_eq_true_eq] at hc
        rcases hc with ((h | h) | h) | h
        · exact Or.inl h
        · exact Or.inr (Or.inl h)
        · exact Or.inr (Or.inr (Or.inr h))
        · exact Or.inr (Or.inr (Or.inl h))
      rw [List.cons_append, minifyFrom.eq_def]
      simp only [hskip, if_true]
      exact ih (fun d hd => hb d (List.mem_cons_of_mem c hd))

theorem minify_one_blank {c : Char} (hc : isBlank c = true) (s : CStr) :
    minifyFrom .plain (c :: s) = minifyFrom .plain s := minify_blank (blank_singleton hc) s

/-- A character outside strings that is kept. -/
def KeptChar (c : Char) : Prop := isBlank c = false ∧ c ≠ '/' ∧ c ≠ '"'

theorem minify_kept {c : Char} (hc : KeptChar c) (s : CStr) :
    minifyFrom .plain (c :: s) = c :: minifyFrom .plain s := by
  obtain ⟨hblank, hslash, hquote⟩ := hc
  have hskip : ¬ (c = ' ' ∨ c = '\t' ∨ c = '\r' ∨ c = '\n') := by
    simp only [isBlank, Bool.or_eq_false_iff, decide_eq_false_iff_not] at hblank
    simp only [not_or]
    exact ⟨hblank.1.1.1, hblank.1.1.2, hblank.2, hblank.1.2⟩
  rw [minifyFrom.eq_def]
  simp only [hskip, hslash, hquote, if_false]

theorem minify_kept_append {w : CStr} (hw : ∀ c ∈ w, KeptChar c) (s : CStr) :
    minifyFrom .plain (w ++ s) = w ++ minifyFrom .plain s := by
  induction w with
  | nil => rfl
  | cons c w ih =>
      rw [List.cons_append, minify_kept (hw c List.mem_cons_self),
        ih (fun d hd => hw d (List.mem_cons_of_mem c hd)), List.cons_append]

/-- Inside a string every character but quote and backslash stands for itself. -/
theorem minify_inside {c : Char} (hquote : c ≠ '"') (hback : c ≠ '\\') (s : CStr) :
    minifyFrom .string (c :: s) = c :: minifyFrom .string s := by
  rw [minifyFrom.eq_def]
  simp only [hquote, hback, if_false]

/-- A backslash that no quote follows. -/
theorem minify_backslash {s : CStr} (hs : s.head? ≠ some '"') :
    minifyFrom .string ('\\' :: s) = '\\' :: minifyFrom .string s := by
  rw [minifyFrom.eq_def]
  simp only [Char.reduceEq, if_false, if_true]
  split
  · exact absurd rfl hs
  · rfl

/-- An escaped quote. -/
theorem minify_escaped_quote (s : CStr) :
    minifyFrom .string ('\\' :: '"' :: s) = '\\' :: '"' :: minifyFrom .string s := by
  rw [minifyFrom.eq_def]
  simp

theorem minify_close (s : CStr) : minifyFrom .string ('"' :: s) = '"' :: minifyFrom .plain s := by
  rw [minifyFrom.eq_def]
  simp

theorem minify_quoted {s u : CStr} (h : Quoted s u) (hs : EndsPlain s) (rest : CStr) :
    minifyFrom .string (u ++ '"' :: rest) = u ++ '"' :: minifyFrom .plain rest := by
  induction h with
  | nil => exact minify_close rest
  | plain hc hquote hback h ih =>
      rw [List.cons_append, minify_inside hquote hback, ih (endsPlain_tail hs), List.cons_append]
  | @escape e c s t he h ih =>
      have htail := ih (endsPlain_tail hs)
      rw [List.cons_append, List.cons_append, List.cons_append, List.cons_append]
      by_cases hquote : e = '"'
      · rw [hquote, minify_escaped_quote, htail]
      · have hhead : (e :: (t ++ '"' :: rest)).head? ≠ some '"' := by simpa using hquote
        rw [minify_backslash hhead]
        by_cases hback : e = '\\'
        · -- the string goes on behind the escaped backslash
          have hne : t ≠ [] := by
            rintro rfl
            cases h
            rw [hback] at he
            have hc : c = '\\' := by simpa [escapes] using he
            exact hs (by rw [hc]; rfl)
          have hnext : (t ++ '"' :: rest).head? ≠ some '"' := by
            rw [List.head?_append_of_ne_nil t hne]
            exact h.head_ne
          rw [hback, minify_backslash hnext, htail]
        · rw [minify_inside hquote hback, htail]
  | @unit d n s t hd hn h ih =>
      have htail : minifyFrom .string (t ++ '"' :: rest) = t ++ '"' :: minifyFrom .plain rest := by
        apply ih
        by_cases hne : s = []
        · rw [hne]
          simp [EndsPlain]
        · exact endsPlain_append hne hs
      have hhex : ∀ {c : Char} {x : Nat} {w : CStr}, hexVal c = some x →
          minifyFrom .string (c :: w) = c :: minifyFrom .string w := by
        intro c x w hc
        have hne := fun d hd => ne_of_isHex (isHex_of_hexVal hc) (d := d) hd
        exact minify_inside (hne '"' (by decide)) (hne '\\' (by decide)) w
      obtain ⟨x, y, z, w, _, _, _, _, rfl, hx, hy, hz, hw, -⟩ := hd
      simp only [List.cons_append, List.nil_append]
      rw [minify_backslash (by simp), minify_inside (by decide) (by decide), hhex hx, hhex hy,
        hhex hz, hhex hw, htail]

theorem minify_isString {s t : CStr} (h : IsString s t) (hs : EndsPlain s) (rest : CStr) :
    minifyFrom .plain (t ++ rest) = t ++ minifyFrom .plain rest := by
  obtain ⟨u, hu, rfl⟩ := h
  have hopen : ∀ w, minifyFrom .plain ('"' :: w) = '"' :: minifyFrom .string w := by
    intro w
    rw [minifyFrom.eq_def]
    simp
  rw [List.cons_append, hopen, List.append_assoc]
  have hbody := minify_quoted hu hs rest
  rw [List.singleton_append, hbody]
  simp

theorem numeral_kept (n : Int) : ∀ c ∈ numeral n, KeptChar c := by
  have hdigit : ∀ m, ∀ c ∈ Nat.toDigits 10 m, KeptChar c := by
    intro m c hc
    have hd : c.isDigit = true := Nat.isDigit_of_mem_toDigits (by decide) (by decide) hc
    have hrange := toNat_of_isDigit hd
    refine ⟨?_, ?_, ?_⟩
    · by_contra hblank
      have hle := toNat_of_isBlank (by simpa using hblank)
      omega
    · rintro rfl
      exact absurd hd (by decide)
    · rintro rfl
      exact absurd hd (by decide)
  cases n with
  | ofNat m => exact hdigit m
  | negSucc m =>
      intro c hc
      rcases List.mem_cons.mp hc with rfl | hc
      · exact ⟨rfl, by decide, by decide⟩
      · exact hdigit (m + 1) c hc

/-! ## Values -/

/-- No string and no name ends with a backslash. -/
abbrev MinifySafe (v : Json) : Prop := v.Every EndsPlain (fun _ => True)

theorem minify_behind_comma {u w : CStr}
    (h : ∀ rest, minifyFrom .plain (',' :: u ++ rest) = ',' :: w ++ minifyFrom .plain rest)
    (rest : CStr) : minifyFrom .plain (u ++ rest) = w ++ minifyFrom .plain rest := by
  have hcomma : KeptChar ',' := ⟨rfl, by decide, by decide⟩
  have hstep := h rest
  rw [List.cons_append, minify_kept hcomma] at hstep
  exact (List.cons.inj hstep).2

mutual
theorem minify_value : ∀ (v : Json) (t : CStr), IsText Blank v t → MinifySafe v →
    ∃ u, IsText NoGap v u ∧ ∀ rest, minifyFrom .plain (t ++ rest) = u ++ minifyFrom .plain rest
  | .null, t, h, _ => by
      rw [IsText] at h
      subst h
      refine ⟨_, rfl, minify_kept_append ?_⟩
      simp [KeptChar, isBlank]
  | .bool b, t, h, _ => by
      rw [IsText] at h
      subst h
      refine ⟨_, rfl, minify_kept_append ?_⟩
      cases b
      · simp [KeptChar, isBlank]
      · simp [KeptChar, isBlank]
  | .num n, t, h, _ => by
      rw [IsText] at h
      subst h
      exact ⟨_, rfl, minify_kept_append (numeral_kept n)⟩
  | .str s, t, h, hsafe => by
      rw [IsText] at h
      rw [MinifySafe, Json.Every] at hsafe
      exact ⟨t, h, minify_isString h hsafe⟩
  | .arr items, t, h, hsafe => by
      rw [IsText] at h
      rw [MinifySafe, Json.Every] at hsafe
      obtain ⟨u, rfl, h⟩ := h
      have hopen : KeptChar '[' := ⟨rfl, by decide, by decide⟩
      have hclose : KeptChar ']' := ⟨rfl, by decide, by decide⟩
      rcases h with ⟨rfl, hu⟩ | ⟨hne, hitems⟩
      · refine ⟨['[', ']'], ?_, ?_⟩
        · rw [IsText]
          exact ⟨[], rfl, Or.inl ⟨rfl, noGap_nil⟩⟩
        · intro rest
          rw [List.cons_append, minify_kept hopen, List.append_assoc, minify_blank hu,
            List.singleton_append, minify_kept hclose]
          rfl
      · obtain ⟨w, hw, hmin⟩ := minify_items items (',' :: u) hitems hsafe
        obtain ⟨-, w, rfl⟩ := hw.cases.resolve_left (fun h => hne h.1)
        have hbody := minify_behind_comma hmin
        refine ⟨'[' :: (w ++ [']']), ?_, ?_⟩
        · rw [IsText]
          exact ⟨w, rfl, Or.inr ⟨hne, hw⟩⟩
        · intro rest
          rw [List.cons_append, minify_kept hopen, List.append_assoc, hbody,
            List.singleton_append, minify_kept hclose]
          simp
  | .obj fields, t, h, hsafe => by
      rw [IsText] at h
      rw [MinifySafe, Json.Every] at hsafe
      obtain ⟨u, rfl, h⟩ := h
      have hopen : KeptChar '\x7b' := ⟨rfl, by decide, by decide⟩
      have hclose : KeptChar '\x7d' := ⟨rfl, by decide, by decide⟩
      rcases h with ⟨rfl, hu⟩ | ⟨hne, hmembers⟩
      · refine ⟨['\x7b', '\x7d'], ?_, ?_⟩
        · rw [IsText]
          exact ⟨[], rfl, Or.inl ⟨rfl, noGap_nil⟩⟩
        · intro rest
          rw [List.cons_append, minify_kept hopen, List.append_assoc, minify_blank hu,
            List.singleton_append, minify_kept hclose]
          rfl
      · obtain ⟨w, hw, hmin⟩ := minify_members fields (',' :: u) hmembers hsafe
        obtain ⟨-, w, rfl⟩ := hw.cases.resolve_left (fun h => hne h.1)
        have hbody := minify_behind_comma hmin
        refine ⟨'\x7b' :: (w ++ ['\x7d']), ?_, ?_⟩
        · rw [IsText]
          exact ⟨w, rfl, Or.inr ⟨hne, hw⟩⟩
        · intro rest
          rw [List.cons_append, minify_kept hopen, List.append_assoc, hbody,
            List.singleton_append, minify_kept hclose]
          simp
theorem minify_items : ∀ (vs : List Json) (t : CStr), IsItems Blank vs t →
    Json.EveryItem EndsPlain (fun _ => True) vs →
    ∃ u, IsItems NoGap vs u ∧ ∀ rest, minifyFrom .plain (t ++ rest) = u ++ minifyFrom .plain rest
  | [], t, h, _ => by
      rw [IsItems] at h
      subst h
      exact ⟨[], by rw [IsItems], fun rest => rfl⟩
  | v :: vs, t, h, hsafe => by
      rw [IsItems] at h
      rw [Json.EveryItem] at hsafe
      obtain ⟨a, w, b, r, rfl, ha, hw, hb, hr⟩ := h
      obtain ⟨u, hu, hmin⟩ := minify_value v w hw hsafe.1
      obtain ⟨q, hq, hmore⟩ := minify_items vs r hr hsafe.2
      have hcomma : KeptChar ',' := ⟨rfl, by decide, by decide⟩
      refine ⟨',' :: (u ++ q), ?_, ?_⟩
      · rw [IsItems]
        exact ⟨[], u, [], q, rfl, noGap_nil, hu, noGap_nil, hq⟩
      · intro rest
        simp only [List.cons_append, List.append_assoc]
        rw [minify_kept hcomma, minify_blank ha, hmin, minify_blank hb, hmore]
theorem minify_members : ∀ (fs : List (CStr × Json)) (t : CStr), IsMembers Blank fs t →
    Json.EveryMember EndsPlain (fun _ => True) fs →
    ∃ u, IsMembers NoGap fs u ∧ ∀ rest, minifyFrom .plain (t ++ rest) = u ++ minifyFrom .plain rest
  | [], t, h, _ => by
      rw [IsMembers] at h
      subst h
      exact ⟨[], by rw [IsMembers], fun rest => rfl⟩
  | (k, v) :: fs, t, h, hsafe => by
      rw [IsMembers] at h
      rw [Json.EveryMember] at hsafe
      obtain ⟨a, n, b, c, w, d, r, rfl, ha, hn, hb, hc, hw, hd, hr⟩ := h
      obtain ⟨u, hu, hmin⟩ := minify_value v w hw hsafe.2.1
      obtain ⟨q, hq, hmore⟩ := minify_members fs r hr hsafe.2.2
      have hcomma : KeptChar ',' := ⟨rfl, by decide, by decide⟩
      have hcolon : KeptChar ':' := ⟨rfl, by decide, by decide⟩
      refine ⟨',' :: (n ++ ':' :: (u ++ q)), ?_, ?_⟩
      · rw [IsMembers]
        exact ⟨[], n, [], [], u, [], q, rfl, noGap_nil, hn, noGap_nil, noGap_nil, hu, noGap_nil, hq⟩
      · intro rest
        simp only [List.cons_append, List.append_assoc]
        rw [minify_kept hcomma, minify_blank ha, minify_isString hn hsafe.1, minify_blank hb,
          minify_kept hcolon, minify_blank hc, hmin, minify_blank hd, hmore]
end

/-- Minifying takes out the gaps and leaves the value. -/
theorem minify_text {v : Json} {t : CStr} (h : IsText Blank v t)
    (hsafe : MinifySafe v) : IsText NoGap v (cJsonMinify t) := by
  obtain ⟨u, hu, hmin⟩ := minify_value v t h hsafe
  have hall := hmin []
  have hend : minifyFrom .plain [] = [] := by
    rw [minifyFrom]
  rw [List.append_nil, hend, List.append_nil] at hall
  unfold cJsonMinify
  rwa [hall]

/-- Minifying drops characters and adds none. -/
theorem minifyFrom_sublist (mode : MinifyMode) (s : CStr) : (minifyFrom mode s).Sublist s := by
  fun_induction minifyFrom mode s
  all_goals first
    | exact List.Sublist.refl _
    | (rename_i ih; exact ih.cons_cons _)
    | (rename_i ih; exact ih.cons _)
    | (rename_i ih; exact (ih.cons _).cons _)
    | (rename_i ih; exact (ih.cons_cons _).cons_cons _)

mutual
/-- The text of a value without gaps, its strings as `print_string_ptr` writes them. -/
def compact (signedChar : Bool) : Json → CStr
  | .null => "null".toList
  | .bool b => if b then "true".toList else "false".toList
  | .num n => numeral n
  | .str s => quoted signedChar s
  | .arr items => '[' :: (List.intercalate [','] (compactItems signedChar items) ++ [']'])
  | .obj fields =>
      '\x7b' :: (List.intercalate [','] (compactMembers signedChar fields) ++ ['\x7d'])
def compactItems (signedChar : Bool) : List Json → List CStr
  | [] => []
  | v :: vs => compact signedChar v :: compactItems signedChar vs
def compactMembers (signedChar : Bool) : List (CStr × Json) → List CStr
  | [] => []
  | (k, v) :: fs =>
      (quoted signedChar k ++ ':' :: compact signedChar v) :: compactMembers signedChar fs
end

theorem minify_quotedText {s : CStr} (h : Printable signedChar s) (hs : EndsPlain s)
    (rest : CStr) :
    minifyFrom .plain (quoted signedChar s ++ rest) =
      quoted signedChar s ++ minifyFrom .plain rest :=
  minify_isString (quoted_isString h) hs rest

mutual
theorem minify_render : ∀ (v : Json) (depth : Nat), Writable signedChar v → MinifySafe v →
    ∀ rest, minifyFrom .plain (render signedChar depth v ++ rest) =
      compact signedChar v ++ minifyFrom .plain rest
  | .null, _, _, _ => by
      rw [render, compact]
      refine minify_kept_append ?_
      simp [KeptChar, isBlank]
  | .bool b, _, _, _ => by
      rw [render, compact]
      refine minify_kept_append ?_
      cases b
      · simp [KeptChar, isBlank]
      · simp [KeptChar, isBlank]
  | .num n, _, _, _ => minify_kept_append (numeral_kept n)
  | .str s, _, h, hsafe => by
      rw [Writable, Json.Every] at h
      rw [MinifySafe, Json.Every] at hsafe
      exact minify_quotedText h hsafe
  | .arr items, depth, h, hsafe => by
      rw [Writable, Json.Every] at h
      rw [MinifySafe, Json.Every] at hsafe
      have hopen : KeptChar '[' := ⟨rfl, by decide, by decide⟩
      have hclose : KeptChar ']' := ⟨rfl, by decide, by decide⟩
      intro rest
      rw [render, compact, List.cons_append, minify_kept hopen, List.append_assoc,
        minify_renderItems items (depth + 1) h hsafe, List.singleton_append, minify_kept hclose]
      simp
  | .obj fields, depth, h, hsafe => by
      rw [Writable, Json.Every] at h
      rw [MinifySafe, Json.Every] at hsafe
      have hopen : KeptChar '\x7b' := ⟨rfl, by decide, by decide⟩
      have hclose : KeptChar '\x7d' := ⟨rfl, by decide, by decide⟩
      intro rest
      have hbody := minify_renderMembers fields (depth + 1) h hsafe
        (tabs depth ++ ['\x7d'] ++ rest)
      rw [render, compact, List.cons_append, minify_kept hopen, List.cons_append,
        minify_one_blank rfl, List.append_assoc, hbody, List.append_assoc,
        minify_blank (blank_tabs depth), List.singleton_append, minify_kept hclose]
      simp
theorem minify_renderItems : ∀ (vs : List Json) (depth : Nat), WritableItems signedChar vs →
    Json.EveryItem EndsPlain (fun _ => True) vs →
    ∀ rest, minifyFrom .plain (renderItems signedChar depth vs ++ rest) =
      List.intercalate [','] (compactItems signedChar vs) ++ minifyFrom .plain rest
  | [], _, _, _ => fun rest => rfl
  | v :: vs, depth, h, hsafe => by
      rw [WritableItems, Json.EveryItem] at h
      rw [Json.EveryItem] at hsafe
      intro rest
      have hvalue := minify_render v depth h.1 hsafe.1
      have hmore := minify_renderItems vs depth h.2 hsafe.2 rest
      have hcomma : KeptChar ',' := ⟨rfl, by decide, by decide⟩
      rw [renderItems, compactItems, List.append_assoc, List.append_assoc, hvalue]
      cases vs with
      | nil =>
          rw [compactItems, List.intercalate_singleton]
          rfl
      | cons w vs =>
          rw [compactItems, List.intercalate_cons_cons, ← compactItems, if_neg (List.cons_ne_nil w vs),
            List.cons_append, minify_kept hcomma, List.singleton_append, minify_one_blank rfl, hmore]
          simp
theorem minify_renderMembers : ∀ (fs : List (CStr × Json)) (depth : Nat),
    WritableMembers signedChar fs → Json.EveryMember EndsPlain (fun _ => True) fs →
    ∀ rest, minifyFrom .plain (renderMembers signedChar depth fs ++ rest) =
      List.intercalate [','] (compactMembers signedChar fs) ++ minifyFrom .plain rest
  | [], _, _, _ => fun rest => rfl
  | (k, v) :: fs, depth, h, hsafe => by
      rw [WritableMembers, Json.EveryMember] at h
      rw [Json.EveryMember] at hsafe
      intro rest
      have hvalue := minify_render v depth h.2.1 hsafe.2.1
      have hmore := minify_renderMembers fs depth h.2.2 hsafe.2.2 rest
      have hcomma : KeptChar ',' := ⟨rfl, by decide, by decide⟩
      have hcolon : KeptChar ':' := ⟨rfl, by decide, by decide⟩
      rw [renderMembers, compactMembers]
      simp only [List.append_assoc, List.cons_append]
      rw [minify_blank (blank_tabs depth), minify_quotedText h.1 hsafe.1, minify_kept hcolon,
        minify_one_blank rfl, hvalue]
      cases fs with
      | nil =>
          rw [compactMembers, List.intercalate_singleton, if_pos rfl, List.singleton_append,
            minify_one_blank rfl]
          simp [renderMembers]
      | cons f fs =>
          obtain ⟨k', v'⟩ := f
          rw [compactMembers, List.intercalate_cons_cons, ← compactMembers,
            if_neg (List.cons_ne_nil _ fs), List.cons_append, minify_kept hcomma,
            List.singleton_append, minify_one_blank rfl, hmore]
          simp
end

/-! ## The report of a client -/

/-- `visit_obj` of `__af_visit_info_report`. -/
def visitObject (v : AppVisitInfo) : CJson :=
  let obj := cJsonCreateObject
  let obj := cJsonAddItemToObject obj "appid".toList (cJsonCreateNumber (Int32.ofBitVec v.appId))
  cJsonAddItemToObject obj "latest_action".toList
    (cJsonCreateNumber (Int32.ofBitVec (if v.latestAction then 1 else 0)))

/-- `root_obj` of `__af_visit_info_report`. -/
def reportObject (mac : Mac) (c : AfClientNode) : CJson :=
  let number (n : BitVec 32) : CJson := cJsonCreateNumber (Int32.ofBitVec n)
  let root := cJsonCreateObject
  let root := cJsonAddItemToObject root "mac".toList (cJsonCreateString (macText mac))
  let root := cJsonAddItemToObject root "ip".toList (cJsonCreateString (ipText c.ip))
  let root := cJsonAddItemToObject root "app_num".toList (number c.visitAppNum)
  let root := cJsonAddItemToObject root "up_flow".toList (number (kilobytes c.periodFlow.upBytes))
  let root :=
    cJsonAddItemToObject root "down_flow".toList (number (kilobytes c.periodFlow.downBytes))
  let root := cJsonAddItemToObject root "active".toList (number (if c.active then 1 else 0))
  let visits := (recordedApps c.toAfClientInfo).foldl
    (fun visits v => cJsonAddItemToArray visits (visitObject v)) cJsonCreateArray
  cJsonAddItemToObject root "visit_info".toList visits

/-- The value of a number field. -/
def intValue (n : BitVec 32) : Json := .num (Int32.ofBitVec n).toInt

def visitValue (v : AppVisitInfo) : Json :=
  .obj [("appid".toList, intValue v.appId),
    ("latest_action".toList, intValue (if v.latestAction then 1 else 0))]

/-- What a report says. -/
def reportValue (mac : Mac) (c : AfClientNode) : Json :=
  .obj [("mac".toList, .str (macText mac)),
    ("ip".toList, .str (ipText c.ip)),
    ("app_num".toList, intValue c.visitAppNum),
    ("up_flow".toList, intValue (kilobytes c.periodFlow.upBytes)),
    ("down_flow".toList, intValue (kilobytes c.periodFlow.downBytes)),
    ("active".toList, intValue (if c.active then 1 else 0)),
    ("visit_info".toList, .arr ((recordedApps c.toAfClientInfo).map visitValue))]

theorem builtOf_intValue (n : BitVec 32) :
    builtOf (intValue n) = cJsonCreateNumber (Int32.ofBitVec n) := by
  have hback : Int32.ofInt (Int32.ofBitVec n).toInt = Int32.ofBitVec n := Int32.ofInt_toInt _
  show CJson.mk .number none _ none [] = CJson.mk .number none _ none []
  rw [hback]

theorem builtOf_visitValue (v : AppVisitInfo) : builtOf (visitValue v) = visitObject v := by
  have hfields := membersWith_eq_map Int32.ofInt [("appid".toList, intValue v.appId),
    ("latest_action".toList, intValue (if v.latestAction then 1 else 0))]
  have hnumber := fun n => builtOf_intValue n
  unfold builtOf at hnumber
  show CJson.mk .object none 0 none (membersWith Int32.ofInt _) = _
  rw [hfields]
  simp only [List.map_cons, List.map_nil, hnumber]
  rfl

/-- Items are added behind one another. -/
theorem foldl_addItem {α : Type} (f : α → CJson) (xs : List α) (cs : List CJson) :
    xs.foldl (fun a x => cJsonAddItemToArray a (f x)) (.mk .array none 0 none cs) =
      .mk .array none 0 none (cs ++ xs.map f) := by
  induction xs generalizing cs with
  | nil => rw [List.map_nil, List.append_nil]; rfl
  | cons x xs ih =>
      rw [List.foldl_cons, cJsonAddItemToArray, ih, List.map_cons, List.append_assoc]
      rfl

theorem builtOf_reportValue (mac : Mac) (c : AfClientNode) :
    builtOf (reportValue mac c) = reportObject mac c := by
  have hnumber := fun n => builtOf_intValue n
  have hvisit := fun v => builtOf_visitValue v
  unfold builtOf at hnumber hvisit
  have hvisits : itemWith Int32.ofInt
      (.arr ((recordedApps c.toAfClientInfo).map visitValue)) =
      (recordedApps c.toAfClientInfo).foldl
        (fun visits v => cJsonAddItemToArray visits (visitObject v)) cJsonCreateArray := by
    rw [cJsonCreateArray, foldl_addItem, itemWith, itemsWith_eq_map, List.map_map]
    congr 1
    apply List.map_congr_left
    intro v hv
    exact hvisit v
  show CJson.mk .object none 0 none (membersWith Int32.ofInt _) = _
  rw [membersWith_eq_map]
  simp only [List.map_cons, List.map_nil, hnumber, hvisits]
  rfl

/-- Letters, digits and the punctuation of addresses are printed as they are. -/
def PlainBytes (s : CStr) : Prop :=
  ∀ c ∈ s, 32 < c.toNat ∧ c.toNat < 0x80 ∧ c ≠ '%' ∧ c ≠ '"' ∧ c ≠ '\\'

theorem PlainBytes.isPlain {s : CStr} (h : PlainBytes s) {c : Char} (hc : c ∈ s) :
    CJson.isPlain signedChar c = true := by
  obtain ⟨hlow, hhigh, -, hquote, hback⟩ := h c hc
  simp only [CJson.isPlain, atMost, Bool.and_eq_true, Bool.not_eq_true', decide_eq_true_eq,
    Bool.or_eq_false_iff, decide_eq_false_iff_not, Bool.and_eq_false_iff]
  exact ⟨⟨⟨by omega, Or.inr (by omega)⟩, hquote⟩, hback⟩

theorem PlainBytes.printable {s : CStr} (h : PlainBytes s) : Printable signedChar s :=
  fun c hc => ⟨(h c hc).2.2.1, Or.inl (h.isPlain hc)⟩

theorem PlainBytes.endsPlain {s : CStr} (h : PlainBytes s) : EndsPlain s := by
  intro hlast
  exact (h '\\' (List.mem_of_getLast? hlast)).2.2.2.2 rfl

theorem PlainBytes.quoted {s : CStr} (h : PlainBytes s) : quoted signedChar s = jsonString s := by
  have hchars : printChars signedChar s = s := by
    unfold printChars
    induction s with
    | nil => rfl
    | cons c s ih =>
        have htail := ih (fun d hd => h d (List.mem_cons_of_mem c hd))
        rw [List.flatMap_cons, if_pos (h.isPlain List.mem_cons_self), htail]
        rfl
  unfold Theorems.quoted jsonString
  rw [hchars]

theorem plainBytes_of_decide {s : CStr}
    (h : s.all (fun c => decide (32 < c.toNat ∧ c.toNat < 0x80 ∧ c ≠ '%' ∧ c ≠ '"' ∧ c ≠ '\\')) =
      true) : PlainBytes s :=
  fun c hc => of_decide_eq_true (List.all_eq_true.mp h c hc)

theorem macText_plain (mac : Mac) : PlainBytes (macText mac) := by
  intro c hc
  rcases mem_macText hc with h | rfl
  · obtain ⟨x, hx⟩ := Option.isSome_iff_exists.mp h
    have hrange := toNat_of_hexVal hx
    have hne := fun d hd => ne_of_isHex h (d := d) hd
    exact ⟨by omega, by omega, hne '%' (by decide), hne '"' (by decide), hne '\\' (by decide)⟩
  · decide

theorem ipText_plain (ip : Ipv4) : PlainBytes (ipText ip) := by
  intro c hc
  have hdigit : ∀ n, c ∈ Nat.toDigits 10 n → c.isDigit = true :=
    fun n hn => Nat.isDigit_of_mem_toDigits (by decide) (by decide) hn
  have hcases : c.isDigit = true ∨ c = '.' := by
    unfold ipText at hc
    simp only [List.mem_append, List.mem_cons] at hc
    rcases hc with h | h | h | h | h | h | h
    all_goals first
      | exact Or.inl (hdigit _ h)
      | exact Or.inr h
  rcases hcases with h | rfl
  · have hrange := toNat_of_isDigit h
    refine ⟨by omega, by omega, ?_, ?_, ?_⟩
    all_goals
      rintro rfl
      exact absurd h (by decide)
  · decide

theorem intValue_compact (n : BitVec 32) : compact signedChar (intValue n) = jsonNumber n := rfl

theorem intValue_int (n : BitVec 32) :
    (-2 ^ 31 ≤ (Int32.ofBitVec n).toInt) ∧ (Int32.ofBitVec n).toInt < 2 ^ 31 :=
  ⟨(Int32.ofBitVec n).le_toInt, (Int32.ofBitVec n).toInt_lt⟩

theorem everyItem_map {α : Type} {onStr : CStr → Prop} {onNum : Int → Prop} {f : α → Json}
    {xs : List α} (h : ∀ x ∈ xs, (f x).Every onStr onNum) : Json.EveryItem onStr onNum (xs.map f) := by
  induction xs with
  | nil => trivial
  | cons x xs ih =>
      exact ⟨h x List.mem_cons_self, ih (fun y hy => h y (List.mem_cons_of_mem x hy))⟩

/-- The names of the fields. -/
theorem report_names_plain : ∀ name ∈ ["mac", "ip", "app_num", "up_flow", "down_flow", "active",
    "visit_info", "appid", "latest_action"], PlainBytes name.toList := by
  have hall : (["mac", "ip", "app_num", "up_flow", "down_flow", "active", "visit_info", "appid",
      "latest_action"].all (fun name => name.toList.all (fun c =>
        decide (32 < c.toNat ∧ c.toNat < 0x80 ∧ c ≠ '%' ∧ c ≠ '"' ∧ c ≠ '\\')))) = true := by
    decide
  intro name hname
  exact plainBytes_of_decide (List.all_eq_true.mp hall name hname)

/-- The number fields of a report, as they are before they become an `int`. -/
def reportNumbers (c : AfClientNode) : List (BitVec 32) :=
  [c.visitAppNum, kilobytes c.periodFlow.upBytes, kilobytes c.periodFlow.downBytes,
    if c.active then 1 else 0] ++
  (recordedApps c.toAfClientInfo).flatMap (fun v => [v.appId, if v.latestAction then 1 else 0])

/-- What holds of plain text and of the numbers of a record holds throughout its
report. -/
theorem reportValue_every {onStr : CStr → Prop} {onNum : Int → Prop} (mac : Mac)
    {c : AfClientNode} (hstr : ∀ s, PlainBytes s → onStr s)
    (hnum : ∀ n ∈ reportNumbers c, onNum (Int32.ofBitVec n).toInt) :
    (reportValue mac c).Every onStr onNum := by
  have hname := fun name h => hstr _ (report_names_plain name h)
  have hvisit : ∀ v ∈ recordedApps c.toAfClientInfo, (visitValue v).Every onStr onNum := by
    intro v hv
    have hmem : ∀ n ∈ [v.appId, if v.latestAction then 1 else 0], n ∈ reportNumbers c :=
      fun n hn => List.mem_append_right _ (List.mem_flatMap.mpr ⟨v, hv, hn⟩)
    simp only [visitValue, intValue, Json.Every, Json.EveryMember]
    exact ⟨hname "appid" (by simp), hnum _ (hmem _ (by simp)), hname "latest_action" (by simp),
      hnum _ (hmem _ (by simp)), trivial⟩
  simp only [reportValue, intValue, Json.Every, Json.EveryMember]
  exact ⟨hname "mac" (by simp), hstr _ (macText_plain mac), hname "ip" (by simp),
    hstr _ (ipText_plain c.ip), hname "app_num" (by simp), hnum _ (by simp [reportNumbers]),
    hname "up_flow" (by simp), hnum _ (by simp [reportNumbers]),
    hname "down_flow" (by simp), hnum _ (by simp [reportNumbers]),
    hname "active" (by simp), hnum _ (by simp [reportNumbers]),
    hname "visit_info" (by simp), everyItem_map hvisit, trivial⟩

theorem compactItems_eq_map (vs : List Json) :
    compactItems signedChar vs = vs.map (compact signedChar) := by
  induction vs with
  | nil => rfl
  | cons v vs ih => rw [compactItems, ih, List.map_cons]

/-- An object whose names are plain is spelled as `jsonObject` does. -/
theorem compact_obj {fields : List (String × Json)} (h : ∀ f ∈ fields, PlainBytes f.1.toList) :
    compact signedChar (.obj (fields.map (fun f => (f.1.toList, f.2)))) =
      jsonObject (fields.map (fun f => (f.1, compact signedChar f.2))) := by
  have hmembers : compactMembers signedChar (fields.map (fun f => (f.1.toList, f.2))) =
      fields.map (fun f => jsonString f.1.toList ++ ':' :: compact signedChar f.2) := by
    induction fields with
    | nil => rfl
    | cons f fields ih =>
        have hplain := h f List.mem_cons_self
        rw [List.map_cons, compactMembers, ih (fun g hg => h g (List.mem_cons_of_mem f hg)),
          hplain.quoted, List.map_cons]
  rw [compact, hmembers]
  unfold jsonObject
  rw [List.map_map]
  rfl

theorem visitValue_compact (v : AppVisitInfo) :
    compact signedChar (visitValue v) = visitText v := by
  have hplain : ∀ f ∈ [("appid", intValue v.appId),
      ("latest_action", intValue (if v.latestAction then 1 else 0))], PlainBytes f.1.toList := by
    intro f hf
    apply report_names_plain
    rcases List.mem_pair.mp hf with rfl | rfl
    · simp
    · simp
  exact compact_obj hplain

theorem reportValue_compact (mac : Mac) (c : AfClientNode) :
    compact signedChar (reportValue mac c) = reportText mac c := by
  have hplain : ∀ f ∈ [("mac", Json.str (macText mac)), ("ip", .str (ipText c.ip)),
      ("app_num", intValue c.visitAppNum), ("up_flow", intValue (kilobytes c.periodFlow.upBytes)),
      ("down_flow", intValue (kilobytes c.periodFlow.downBytes)),
      ("active", intValue (if c.active then 1 else 0)),
      ("visit_info", .arr ((recordedApps c.toAfClientInfo).map visitValue))],
      PlainBytes f.1.toList := by
    intro f hf
    apply report_names_plain
    simp only [List.mem_cons, List.not_mem_nil, or_false] at hf
    rcases hf with rfl | rfl | rfl | rfl | rfl | rfl | rfl
    all_goals simp
  have hvisits : compact signedChar (.arr ((recordedApps c.toAfClientInfo).map visitValue)) =
      jsonArray ((recordedApps c.toAfClientInfo).map visitText) := by
    have hmap : (recordedApps c.toAfClientInfo).map (compact signedChar ∘ visitValue) =
        (recordedApps c.toAfClientInfo).map visitText :=
      List.map_congr_left (fun v _ => visitValue_compact v)
    rw [compact, compactItems_eq_map, List.map_map, hmap]
    rfl
  have hmac : compact signedChar (.str (macText mac)) = jsonString (macText mac) :=
    (macText_plain mac).quoted
  have hip : compact signedChar (.str (ipText c.ip)) = jsonString (ipText c.ip) :=
    (ipText_plain c.ip).quoted
  have hobj : compact signedChar (.obj _) = _ := compact_obj hplain
  simp only [List.map_cons, List.map_nil, hvisits, hmac, hip, intValue_compact] at hobj
  exact hobj

theorem reportValue_writable (mac : Mac) (c : AfClientNode) :
    Writable signedChar (reportValue mac c) :=
  reportValue_every mac (fun _ hs => hs.printable) (fun n _ => intValue_int n)

theorem reportValue_minifySafe (mac : Mac) (c : AfClientNode) : MinifySafe (reportValue mac c) :=
  reportValue_every mac (fun _ hs => hs.endsPlain) (fun _ _ => trivial)

theorem minify_report (mac : Mac) (c : AfClientNode) :
    cJsonMinify (render signedChar 0 (reportValue mac c)) = reportText mac c := by
  have h := minify_render (reportValue mac c) 0 (@reportValue_writable signedChar mac c)
    (reportValue_minifySafe mac c) []
  have hend : minifyFrom .plain [] = [] := by rw [minifyFrom]
  rw [List.append_nil, hend, List.append_nil, reportValue_compact] at h
  exact h

/-- What is sent is a compact text of the record's fields. -/
theorem reportText_isText (mac : Mac) (c : AfClientNode) :
    IsText NoGap (reportValue mac c) (reportText mac c) := by
  have htext := minify_text
    (render_text (reportValue mac c) 0 (@reportValue_writable true mac c))
    (reportValue_minifySafe mac c)
  rwa [minify_report] at htext

/-- The report of a client is printed inside its buffers, and what minifying
leaves is the compact JSON text of the record's fields. -/
theorem report_is_compact_json (signedChar : Bool) (mac : Mac) (c : AfClientNode) :
    (cJsonPrint signedChar (reportObject mac c)).map cJsonMinify = some (reportText mac c) ∧
      IsText NoGap (reportValue mac c) (reportText mac c) := by
  have hprint : cJsonPrint signedChar (reportObject mac c) =
      some (render signedChar 0 (reportValue mac c)) := by
    rw [← builtOf_reportValue]
    exact printValue_built (reportValue mac c) 0 (reportValue_writable mac c)
  refine ⟨?_, reportText_isText mac c⟩
  rw [hprint]
  exact congrArg some (minify_report mac c)

end OpenAppFilter.Theorems
