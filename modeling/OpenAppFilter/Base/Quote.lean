import Mathlib.Data.List.Basic

/-!
# Quoted text, and who reads it

Two readers of quoted text. A POSIX shell reads a word character by character:
inside `'...'` every character stands for itself and only the next `'` ends the
part, outside a backslash lets the next character stand for itself. SQLite reads
a string literal between two `'`, and two of them inside stand for one; a
backslash is a character like any other.

`shellQuote` puts a text between `'` and writes each `'` in it as `'\''`. The
shell reads every text back from that. SQLite reads exactly the texts without
a `'` back.
-/

namespace OpenAppFilter.Base

/-! ## Writing -/

/-- All occurrences of a character replaced by a text. -/
def replaceChar (old : Char) (new : List Char) (s : List Char) : List Char :=
  s.flatMap (fun c => if c = old then new else [c])

/-- A word of a shell command. -/
def shellQuote (s : List Char) : List Char :=
  '\'' :: (replaceChar '\'' "'\\''".toList s ++ ['\''])

theorem replaceChar_cons_self (old : Char) (new s : List Char) :
    replaceChar old new (old :: s) = new ++ replaceChar old new s := by
  unfold replaceChar
  rw [List.flatMap_cons, if_pos rfl]

theorem replaceChar_cons_of_ne {old c : Char} (h : c ≠ old) (new s : List Char) :
    replaceChar old new (c :: s) = c :: replaceChar old new s := by
  unfold replaceChar
  rw [List.flatMap_cons, if_neg h, List.singleton_append]

/-! ## The shell -/

/-- Characters that end a word. -/
def endsWord (c : Char) : Bool := c ∈ [' ', '\t', '\n', '|', '&', ';', '<', '>', '(', ')']

/-- Characters outside quotes that the shell does more with than take them. -/
def isSpecial (c : Char) : Bool := c ∈ ['"', '$', Char.ofNat 96, '*', '?', '[', '#', '~']

/-- The word a shell reads, and what stands behind it; `quoted` says whether the
reader is between two `'`. Words with other expansions, and unfinished ones, give
nothing. -/
def readWord : Bool → List Char → Option (List Char × List Char)
  | true, [] => none
  | true, c :: rest =>
      if c = '\'' then readWord false rest
      else (readWord true rest).map (fun r => (c :: r.1, r.2))
  | false, [] => some ([], [])
  | false, ['\\'] => none
  | false, '\\' :: c :: rest =>
      -- a line break behind the backslash is taken away with it
      if c = '\n' then readWord false rest
      else (readWord false rest).map (fun r => (c :: r.1, r.2))
  | false, c :: rest =>
      if c = '\'' then readWord true rest
      else if endsWord c then some ([], c :: rest)
      else if isSpecial c then none
      else (readWord false rest).map (fun r => (c :: r.1, r.2))

/-- A text a word ends before. -/
def WordStop : List Char → Prop
  | [] => True
  | c :: _ => endsWord c = true

theorem readWord_stop {rest : List Char} (h : WordStop rest) : readWord false rest = some ([], rest) := by
  cases rest with
  | nil => rfl
  | cons c rest =>
      have hc : endsWord c = true := h
      have hquote : c ≠ '\'' := by
        rintro rfl
        exact absurd hc (by decide)
      have hslash : c ≠ '\\' := by
        rintro rfl
        exact absurd hc (by decide)
      rw [readWord.eq_def]
      simp [hquote, hslash, hc]

/-- **The shell reads every text back.** -/
theorem readWord_shellQuote (s : List Char) {rest : List Char} (h : WordStop rest) :
    readWord false (shellQuote s ++ rest) = some (s, rest) := by
  have hinside : ∀ s : List Char,
      readWord true (replaceChar '\'' "'\\''".toList s ++ '\'' :: rest) = some (s, rest) := by
    intro s
    induction s with
    | nil =>
        show readWord false rest = _
        exact readWord_stop h
    | cons c s ih =>
        by_cases hc : c = '\''
        · -- out of the quotes, an escaped quote, and in again
          subst hc
          rw [replaceChar_cons_self]
          show (readWord true (replaceChar '\'' "'\\''".toList s ++ '\'' :: rest)).map
            (fun r => ('\'' :: r.1, r.2)) = _
          rw [ih, Option.map_some]
        · rw [replaceChar_cons_of_ne hc, List.cons_append]
          unfold readWord
          rw [if_neg hc, ih, Option.map_some]
  have hopen := hinside s
  unfold shellQuote
  rw [List.cons_append, List.append_assoc]
  exact hopen

/-- Words in a row, each with a blank behind it. -/
def readWords : Nat → List Char → Option (List (List Char) × List Char)
  | 0, text => some ([], text)
  | n + 1, text =>
      match readWord false text with
      | some (word, ' ' :: rest) => (readWords n rest).map (fun r => (word :: r.1, r.2))
      | _ => none

theorem readWords_succ {text word rest : List Char}
    (h : readWord false text = some (word, ' ' :: rest)) (n : Nat) :
    readWords (n + 1) text = (readWords n rest).map (fun r => (word :: r.1, r.2)) := by
  rw [readWords, h]
  rfl

/-! ## SQLite -/

/-- The rest of a string literal: its value, and what stands behind it. -/
def readLiteralBody : List Char → Option (List Char × List Char)
  | [] => none
  | '\'' :: '\'' :: rest => (readLiteralBody rest).map (fun r => ('\'' :: r.1, r.2))
  | c :: rest =>
      if c = '\'' then some ([], rest)
      else (readLiteralBody rest).map (fun r => (c :: r.1, r.2))

/-- A string literal. -/
def readLiteral : List Char → Option (List Char × List Char)
  | '\'' :: rest => readLiteralBody rest
  | _ => none

/-- A text that does not go on with a quote. -/
def NoQuoteNext : List Char → Prop
  | [] => True
  | c :: _ => c ≠ '\''

theorem readLiteralBody_cons {c : Char} (h : c ≠ '\'') (rest : List Char) :
    readLiteralBody (c :: rest) = (readLiteralBody rest).map (fun r => (c :: r.1, r.2)) := by
  rw [readLiteralBody.eq_def]
  simp [h]

theorem readLiteralBody_quote {rest : List Char} (h : NoQuoteNext rest) :
    readLiteralBody ('\'' :: rest) = some ([], rest) := by
  cases rest with
  | nil => rfl
  | cons c rest =>
      have hc : c ≠ '\'' := h
      rw [readLiteralBody.eq_def]
      simp [hc]

theorem readLiteral_shellQuote {s : List Char} (hs : '\'' ∉ s) {rest : List Char}
    (h : NoQuoteNext rest) : readLiteral (shellQuote s ++ rest) = some (s, rest) := by
  have hbody : readLiteralBody (replaceChar '\'' "'\\''".toList s ++ '\'' :: rest) = some (s, rest) := by
    induction s with
    | nil => exact readLiteralBody_quote h
    | cons c s ih =>
        have hc : c ≠ '\'' := fun heq => hs (by rw [heq]; exact List.mem_cons_self)
        rw [replaceChar_cons_of_ne hc, List.cons_append, readLiteralBody_cons hc,
          ih (fun hmem => hs (List.mem_cons_of_mem _ hmem)), Option.map_some]
  unfold shellQuote
  rw [List.cons_append, List.append_assoc]
  exact hbody

/-- The first quote of a text ends the literal: the backslash that follows is no
quote. -/
theorem readLiteral_shellQuote_ne {s : List Char} (hs : '\'' ∈ s) (rest rest' : List Char) :
    readLiteral (shellQuote s ++ rest) ≠ some (s, rest') := by
  have hshort : ∃ value left,
      readLiteralBody (replaceChar '\'' "'\\''".toList s ++ '\'' :: rest) = some (value, left) ∧
        value.length < s.length := by
    induction s with
    | nil => exact absurd hs List.not_mem_nil
    | cons c s ih =>
        by_cases hc : c = '\''
        · subst hc
          rw [replaceChar_cons_self]
          exact ⟨[], _, readLiteralBody_quote (show '\\' ≠ '\'' by decide), Nat.succ_pos _⟩
        · have hmem : '\'' ∈ s := (List.mem_cons.mp hs).resolve_left (fun heq => hc heq.symm)
          obtain ⟨value, left, hread, hlt⟩ := ih hmem
          refine ⟨c :: value, left, ?_, Nat.succ_lt_succ hlt⟩
          rw [replaceChar_cons_of_ne hc, List.cons_append, readLiteralBody_cons hc, hread,
            Option.map_some]
  obtain ⟨value, left, hread, hlt⟩ := hshort
  unfold shellQuote
  rw [List.cons_append, List.append_assoc]
  show readLiteralBody (_ ++ '\'' :: rest) ≠ _
  rw [hread]
  intro heq
  obtain ⟨rfl, -⟩ := Prod.mk.inj (Option.some.inj heq)
  exact Nat.lt_irrefl _ hlt

/-! ## Statements -/

/-- A part of an SQL text: characters as they are, or a value to be quoted. -/
inductive SqlPiece where
  | text (t : List Char)
  | literal (value : List Char)

/-- The text, with `quote` around the values. -/
def renderSql (quote : List Char → List Char) : List SqlPiece → List Char
  | [] => []
  | .text t :: pieces => t ++ renderSql quote pieces
  | .literal value :: pieces => quote value ++ renderSql quote pieces

/-- SQLite reads the text as these pieces: it comes to each value at the start of
a literal and reads this value there. The texts between have their own quotes
in pairs. -/
def ReadAs : List SqlPiece → List Char → Prop
  | [], sql => sql = []
  | .text t :: pieces, sql => ∃ rest, sql = t ++ rest ∧ ReadAs pieces rest
  | .literal value :: pieces, sql => ∃ rest, readLiteral sql = some (value, rest) ∧ ReadAs pieces rest

/-- The pieces go on with a text that does not begin with a quote. -/
def TextNext : List SqlPiece → Prop
  | .text (c :: _) :: _ => c ≠ '\''
  | _ => False

/-- Every value is followed by a text. -/
def SqlSeparated : List SqlPiece → Prop
  | [] => True
  | .text _ :: pieces => SqlSeparated pieces
  | .literal _ :: pieces => TextNext pieces ∧ SqlSeparated pieces

theorem TextNext.noQuoteNext {quote : List Char → List Char} {pieces : List SqlPiece}
    (h : TextNext pieces) : NoQuoteNext (renderSql quote pieces) := by
  match pieces, h with
  | .text (_ :: _) :: _, h => exact h

theorem TextNext.append {pieces : List SqlPiece} (h : TextNext pieces) (pieces' : List SqlPiece) :
    TextNext (pieces ++ pieces') := by
  match pieces, h with
  | .text (_ :: _) :: _, h => exact h

theorem SqlSeparated.append {pieces pieces' : List SqlPiece} (h : SqlSeparated pieces)
    (h' : SqlSeparated pieces') : SqlSeparated (pieces ++ pieces') := by
  induction pieces with
  | nil => exact h'
  | cons piece pieces ih =>
      cases piece with
      | text t => exact ih h
      | literal value => exact ⟨h.1.append pieces', ih h.2⟩

theorem separated_flatMap {α : Type*} {f : α → List SqlPiece} {l : List α}
    (h : ∀ a ∈ l, SqlSeparated (f a)) : SqlSeparated (l.flatMap f) := by
  induction l with
  | nil => exact trivial
  | cons a l ih =>
      rw [List.flatMap_cons]
      exact (h a List.mem_cons_self).append (ih (fun b hb => h b (List.mem_cons_of_mem _ hb)))

/-- **When a text is read as it was meant.** -/
theorem readAs_shellQuote_iff (pieces : List SqlPiece) (h : SqlSeparated pieces) :
    ReadAs pieces (renderSql shellQuote pieces) ↔
      ∀ value, SqlPiece.literal value ∈ pieces → '\'' ∉ value := by
  induction pieces with
  | nil => exact ⟨fun _ _ hmem => absurd hmem List.not_mem_nil, fun _ => rfl⟩
  | cons piece pieces ih =>
      cases piece with
      | text t =>
          have hread : ReadAs (.text t :: pieces) (renderSql shellQuote (.text t :: pieces)) ↔
              ReadAs pieces (renderSql shellQuote pieces) := by
            constructor
            · rintro ⟨rest, heq, hrest⟩
              rw [List.append_cancel_left heq]
              exact hrest
            · intro hrest
              exact ⟨_, rfl, hrest⟩
          rw [hread, ih h]
          simp
      | literal value =>
          obtain ⟨hnext, hrest⟩ := h
          constructor
          · rintro ⟨rest, hread, htail⟩
            have hvalue : '\'' ∉ value := fun hmem => readLiteral_shellQuote_ne hmem _ _ hread
            have heq : renderSql shellQuote pieces = rest := by
              have hread' : readLiteral (shellQuote value ++ renderSql shellQuote pieces) =
                some (value, rest) := hread
              rw [readLiteral_shellQuote hvalue hnext.noQuoteNext] at hread'
              exact (Prod.mk.inj (Option.some.inj hread')).2
            rw [← heq] at htail
            intro value' hmem
            rcases List.mem_cons.mp hmem with hhead | hmem
            · rw [SqlPiece.literal.inj hhead]
              exact hvalue
            · exact (ih hrest).mp htail value' hmem
          · intro hall
            have hvalue := hall value List.mem_cons_self
            exact ⟨_, readLiteral_shellQuote hvalue hnext.noQuoteNext,
              (ih hrest).mpr (fun value' hmem => hall value' (List.mem_cons_of_mem _ hmem))⟩

end OpenAppFilter.Base
