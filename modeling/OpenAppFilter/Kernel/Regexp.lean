import OpenAppFilter.Base.CText

/-!
# The regular expression engine (`regexp.c`)

A pattern is compiled into a chain of nodes and matched by backtracking, either
shortest first or longest first.

Conventions.

* A compiled pattern is the list of its nodes. `kmalloc` does not clear memory,
  so a node starts with whatever its block held: `Stale` is what the blocks of
  one node hold before they are written.
* `ccl` is the C string behind the pointer; it is followed in class nodes only.
* A `char` is its unsigned code. Eleven bytes are asked for `\d` and twelve
  are used; `kmalloc` hands out sixteen.
* `compile` walks behind the end of the pattern after a final backslash and in
  a class that ends in a range; it writes outside the 256 bytes of a class
  buffer for a class that is too long or a range that runs backwards too far.
  All of these end in `Compiled.outside`.
-/

namespace OpenAppFilter.Kernel

open Base

/-! ## Nodes -/

/-- `TYPE`. -/
inductive ReType where
  | char
  | dot
  | begin
  | stop
  | star
  | plus
  | ques
  | list
  deriving DecidableEq, Repr

/-- What the blocks of one node hold before they are written: the word where
`ch` goes, and byte 10 of the class buffer. -/
structure Stale where
  ch : Int
  byte : Char

/-- `RE`, without `next`. -/
structure Re where
  type : ReType
  ch : Int
  ccl : CStr := []
  nccl : Bool := false
  deriving DecidableEq

/-- What `getmem` returns, node by node. -/
abbrev Heap := Nat → Stale

/-- The outcome of `compile`. -/
inductive Compiled where
  | nodes (res : List Re)
  | error
  | outside
  deriving DecidableEq

/-- Put a node in front. -/
def Compiled.cons (re : Re) : Compiled → Compiled
  | .nodes res => .nodes (re :: res)
  | .error => .error
  | .outside => .outside

/-! ## Compiling -/

/-- The node of a character that stands for itself. -/
def charNode (c : Char) : Re := { type := .char, ch := c.toNat }

/-- The node of `\d` or `\D`: `ccl[10]` is left as it was, the terminating NUL
goes to `ccl[11]`. -/
def digitNode (s : Stale) (nccl : Bool) : Re where
  type := .list
  ch := s.ch
  ccl := ("0123456789".toList ++ [s.byte]).takeWhile (· ≠ '\x00')
  nccl := nccl

/-- The node of `\` and a character. -/
def escapeNode (s : Stale) (c : Char) : Re :=
  if c = 'd' then digitNode s false
  else if c = 'D' then digitNode s true
  else charNode c

/-- The node of a character outside a class. -/
def plainNode (s : Stale) (c : Char) : Re :=
  if c = '.' then { type := .dot, ch := s.ch }
  else if c = '^' then { type := .begin, ch := '^'.toNat }
  else if c = '$' then { type := .stop, ch := '$'.toNat }
  else if c = '*' then { type := .star, ch := s.ch }
  else if c = '+' then { type := .plus, ch := s.ch }
  else if c = '?' then { type := .ques, ch := s.ch }
  else charNode c

/-- `creat_list` behind the class buffer: the characters from `start` to `stop`.
Its result is a `size_t`, so a range that runs backwards moves the end of the
buffer back; `none` when that is in front of its start. -/
def creatList (buf : CStr) (start stop : Nat) : Option CStr :=
  if start ≤ stop + 1 then
    some (buf ++ (List.range' start (stop + 1 - start)).map Char.ofNat)
  else if start - (stop + 1) ≤ buf.length then
    some (buf.take (buf.length - (start - (stop + 1))))
  else none

/-- Where `compile` is: between two nodes, or in a class with its sign, the
buffer written so far and the last character read. -/
inductive Place where
  | item
  | cls (nccl : Bool) (buf : CStr) (last : Char)

/-- The loop of `compile`, from the `i`-th node on. -/
def compileFrom (heap : Heap) : Nat → Place → CStr → Compiled
  | _, .item, [] => .nodes []
  | _, .item, '\\' :: [] => .outside
  | i, .item, '\\' :: c :: rest =>
      (compileFrom heap (i + 1) .item rest).cons (escapeNode (heap i) c)
  | i, .item, '[' :: '^' :: rest => compileFrom heap i (.cls true [] '^') rest
  | i, .item, '[' :: rest => compileFrom heap i (.cls false [] '[') rest
  | i, .item, c :: rest => (compileFrom heap (i + 1) .item rest).cons (plainNode (heap i) c)
  | _, .cls _ buf _, [] => if buf.length < 256 then .error else .outside
  | i, .cls nccl buf _, ']' :: rest =>
      if buf.length < 256 then
        (compileFrom heap (i + 1) .item rest).cons
          { type := .list, ch := (heap i).ch, ccl := buf, nccl := nccl }
      else .outside
  | i, .cls nccl buf last, '-' :: rest =>
      if buf = [] ∨ rest.head? = some ']' then if buf.length < 256 then .error else .outside
      else
        match rest with
        | [] => .outside
        | c :: rest =>
            match creatList buf (last.toNat + 1) c.toNat with
            | some buf => if buf.length ≤ 256 then compileFrom heap i (.cls nccl buf c) rest
                else .outside
            | none => .outside
  | i, .cls nccl buf _, c :: rest =>
      if buf.length < 256 then compileFrom heap i (.cls nccl (buf ++ [c]) c) rest else .outside

/-- `compile`. -/
def compile (heap : Heap) (regexp : CStr) : Compiled := compileFrom heap 0 .item regexp

/-! ## Matching -/

/-- `in_list`. -/
def inList (c : Char) (re : Re) : Bool :=
  if re.type ≠ .list then false else Bool.xor (decide (c ∈ re.ccl)) re.nccl

/-- `MATCH_ONE`. -/
def matchOne (re : Re) (c : Char) : Bool :=
  decide (re.type = .dot) || inList c re || decide ((c.toNat : Int) = re.ch)

/-- `MATCH_ONE_P`, without the step to the next character. -/
def matchOneP (re : Re) (c : Char) : Bool :=
  inList c re || decide ((c.toNat : Int) = re.ch) || decide (re.type = .dot)

/-- `matchstar`; `next` is `matchhere` on the nodes behind the quantifier. -/
def matchstar (cur : Re) (next : CStr → Bool) : CStr → Bool
  | [] => next []
  | c :: text => next (c :: text) || (matchOneP cur c && matchstar cur next text)

/-- `matchplus`. -/
def matchplus (cur : Re) (next : CStr → Bool) : CStr → Bool
  | [] => false
  | c :: text => matchOneP cur c && (next text || matchplus cur next text)

/-- How far the forward loop of the longest-first variants gets. -/
def runLength (cur : Re) (text : CStr) : Nat := (text.takeWhile (matchOne cur)).length

/-- The backward loop from offset `n` down to offset 0. -/
def backTo (next : CStr → Bool) (text : CStr) : Nat → Bool
  | 0 => next text
  | n + 1 => next (text.drop (n + 1)) || backTo next text n

/-- `matchstar_l`. -/
def matchstarL (cur : Re) (next : CStr → Bool) (text : CStr) : Bool :=
  backTo next text (runLength cur text)

/-- `matchplus_l`: the backward loop stops in front of offset 0. -/
def matchplusL (cur : Re) (next : CStr → Bool) (text : CStr) : Bool :=
  match runLength cur text with
  | 0 => false
  | n + 1 => backTo next (text.drop 1) n

/-- `matchques`. -/
def matchques (cur : Re) (next : CStr → Bool) : CStr → Bool
  | [] => next []
  | c :: text => backTo next (c :: text) (if matchOne cur c then 1 else 0)

/-- `matchfun`. -/
def matchfun (type : ReType) (longest : Bool) : Option (Re → (CStr → Bool) → CStr → Bool) :=
  match type with
  | .star => some (if longest then matchstarL else matchstar)
  | .plus => some (if longest then matchplusL else matchplus)
  | .ques => some matchques
  | _ => none

/-- The end of `matchhere`: one character, then the rest. -/
def matchNext (re : Re) (next : CStr → Bool) : CStr → Bool
  | [] => false
  | c :: text => matchOne re c && next text

/-- `matchhere`. -/
def matchhere (longest : Bool) : List Re → CStr → Bool
  | [], _ => true
  | [re], text =>
      if re.type = .stop then decide (text = []) else matchNext re (fun _ => true) text
  | re :: q :: res, text =>
      match matchfun q.type longest with
      | some f => f re (fun t => matchhere longest res t) text
      | none => matchNext re (fun t => matchhere longest (q :: res) t) text

/-- `regexp_match`; `none` when `compile` reads or writes outside its blocks. -/
def regexpMatch (heap : Heap) (longest : Bool) (reg text : CStr) : Option Int :=
  match compile heap reg with
  | .outside => none
  | .error => some (-1)
  | .nodes [] => some (-1)
  | .nodes (re :: res) =>
      let matched :=
        if re.type = .begin then matchhere longest res text
        else text.tails.any (matchhere longest (re :: res))
      some (if matched then 1 else 0)

end OpenAppFilter.Kernel
