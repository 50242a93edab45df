import OpenAppFilter.Kernel.Client
import OpenAppFilter.Kernel.Rules
import Mathlib.Data.List.DropRight

/-!
# `/proc/sys/oaf` (`af_log.c`)

The integer and string entries of `oaf_table`, and the `blocked_macs` entry,
whose write handler understands three commands: `clear`, `+MAC` and `-MAC`.
-/

namespace OpenAppFilter.Kernel

open Base

variable {env : Env}

/-- A write to one of the plain entries of `oaf_table` that the handlers read. -/
inductive ProcWrite where
  | enable (v : Int32)
  | recordEnable (v : Int32)
  | byPassAccl (v : Int32)
  | userMode (v : Int32)
  | workMode (v : Int32)
  | disableQuic (v : Int32)
  | appFilterMode (v : Int32)
  | splitTime (v : Int32)
  | lanIp (v : Ipv4)
  | lanMask (v : Ipv4)
  | lanIfname (v : CStr)

/-- The effect of a write to a plain entry. -/
def procWrite (k : OafState env) : ProcWrite → OafState env
  | .enable v => { k with gOafFilterEnable := v }
  | .recordEnable v => { k with gOafRecordEnable := v }
  | .byPassAccl v => { k with gByPassAccl := v }
  | .userMode v => { k with gUserMode := v }
  | .workMode v => { k with afWorkMode := v }
  | .disableQuic v => { k with gDisableQuic := v }
  | .appFilterMode v => { k with gAppFilterMode := v }
  | .splitTime v => { k with gSplitTime := v }
  | .lanIp v => { k with afLanIp := v }
  | .lanMask v => { k with afLanMask := v }
  | .lanIfname v => { k with gLanIfname := v }

def einval : Int := 22

/-- The `clear` command: every record's flag goes to 0. -/
def unblockAll (k : OafState env) : OafState env :=
  { k with clients := k.clients.mapVals (fun _ c => { c with periodBlocked := false }) }

/-- The `+` and `-` commands: the flag of the record of `mac`, if there is
one. -/
def setBlocked (k : OafState env) (mac : Mac) (blocked : Bool) : OafState env :=
  k.updateClient mac (fun c => { c with periodBlocked := blocked })

/-- The address of a `+` or `-` command: `sscanf` with
`%hhx:%hhx:%hhx:%hhx:%hhx:%hhx`. -/
def scanMac (s : CStr) : Option Mac := (scanColonHex none 6 s).bind Mac.ofNats

/-- `oaf_blocked_macs_handler` on a write of `buffer`. -/
def oafBlockedMacsHandler (k : OafState env) (buffer : List Char) : OafState env × Int :=
  if buffer.length ≥ 256 then (k, -einval)
  else
    -- trailing line ends are cut off, then the buffer is read as a C string
    let kbuf := buffer.rdropWhile (fun c => c = '\n' || c = '\r')
    let str := kbuf.takeWhile (fun c => c ≠ '\x00')
    if str = "clear".toList then (unblockAll k, 0)
    else if kbuf.length < 18 then (k, -einval)
    else
      match str with
      | [] => (k, -einval)
      | op :: rest =>
          if op ≠ '+' ∧ op ≠ '-' then (k, -einval)
          else
            match scanMac rest with
            | some mac => (setBlocked k mac (decide (op = '+')), 0)
            | none => (k, -einval)

/-! ## The flag of one record -/

/-- `period_blocked` of the record of `mac`; `none` when there is no record. -/
def clientBlocked (k : OafState env) (mac : Mac) : Option Bool :=
  (k.clients.find? mac).map (·.periodBlocked)

@[simp] theorem clientBlocked_unblockAll (k : OafState env) (mac : Mac) :
    clientBlocked (unblockAll k) mac = (clientBlocked k mac).map (fun _ => false) := by
  simp [clientBlocked, unblockAll, Function.comp_def]

theorem clientBlocked_setBlocked (k : OafState env) (mac mac' : Mac) (b : Bool) :
    clientBlocked (setBlocked k mac b) mac' =
      if mac' = mac then (clientBlocked k mac').map (fun _ => b) else clientBlocked k mac' := by
  simp only [clientBlocked, setBlocked, OafState.updateClient, HTable.find?_modify]
  by_cases h : mac' = mac
  · simp [h, Function.comp_def]
  · simp [h]

/-- All a write can do: nothing, clear every flag, or set the flag of one
address. -/
theorem oafBlockedMacsHandler_cases (k : OafState env) (buffer : List Char) :
    (oafBlockedMacsHandler k buffer).1 = k ∨
      (oafBlockedMacsHandler k buffer).1 = unblockAll k ∨
      ∃ mac b, (oafBlockedMacsHandler k buffer).1 = setBlocked k mac b := by
  unfold oafBlockedMacsHandler
  dsimp only
  split
  · exact Or.inl rfl
  · split
    · exact Or.inr (Or.inl rfl)
    · split
      · exact Or.inl rfl
      · split
        · exact Or.inl rfl
        · split
          · exact Or.inl rfl
          · split
            · exact Or.inr (Or.inr ⟨_, _, rfl⟩)
            · exact Or.inl rfl

/-- The handler writes nothing but the client table. -/
theorem oafBlockedMacsHandler_config (k : OafState env) (buffer : List Char) :
    (oafBlockedMacsHandler k buffer).1 =
      { k with clients := (oafBlockedMacsHandler k buffer).1.clients } := by
  rcases oafBlockedMacsHandler_cases k buffer with h | h | ⟨mac, b, h⟩
  · rw [h]
  · rw [h]
    rfl
  · rw [h]
    rfl

/-! ## Canonical commands -/

/-- The text of an address: six groups of two hex digits of either case. -/
def CanonicalMac (s : CStr) (mac : Mac) : Prop :=
  ∃ g₀ g₁ g₂ g₃ g₄ g₅, HexByte g₀ mac.b0 ∧ HexByte g₁ mac.b1 ∧ HexByte g₂ mac.b2 ∧
    HexByte g₃ mac.b3 ∧ HexByte g₄ mac.b4 ∧ HexByte g₅ mac.b5 ∧
    s = g₀ ++ ':' :: (g₁ ++ ':' :: (g₂ ++ ':' :: (g₃ ++ ':' :: (g₄ ++ ':' :: g₅))))

/-- `sscanf` reads a canonical text as the address it stands for. -/
theorem scanColonHex_canonical {s : CStr} {mac : Mac} (h : CanonicalMac s mac)
    {width : Option Nat} (hwidth : width = none ∨ width = some 2) :
    (scanColonHex width 6 s).bind Mac.ofNats = some mac := by
  obtain ⟨g₀, g₁, g₂, g₃, g₄, g₅, h₀, h₁, h₂, h₃, h₄, h₅, rfl⟩ := h
  have hcolon : ∀ rest, HexStop (':' :: rest) := fun _ => by
    show isHex ':' = false
    decide
  obtain ⟨n₀, hb₀, hs₀⟩ := scanHex_hexByte h₀
  obtain ⟨n₁, hb₁, hs₁⟩ := scanHex_hexByte h₁
  obtain ⟨n₂, hb₂, hs₂⟩ := scanHex_hexByte h₂
  obtain ⟨n₃, hb₃, hs₃⟩ := scanHex_hexByte h₃
  obtain ⟨n₄, hb₄, hs₄⟩ := scanHex_hexByte h₄
  obtain ⟨n₅, hb₅, hs₅⟩ := scanHex_hexByte h₅
  have hlast := hs₅ width hwidth [] trivial
  rw [List.append_nil] at hlast
  simp only [scanColonHex, hs₀ _ hwidth _ (hcolon _), hs₁ _ hwidth _ (hcolon _),
    hs₂ _ hwidth _ (hcolon _), hs₃ _ hwidth _ (hcolon _), hs₄ _ hwidth _ (hcolon _), hlast,
    Option.map_some, Option.bind_some, Mac.ofNats, hb₀, hb₁, hb₂, hb₃, hb₄, hb₅]

theorem scanMac_canonical {s : CStr} {mac : Mac} (h : CanonicalMac s mac) :
    scanMac s = some mac := scanColonHex_canonical h (Or.inl rfl)

theorem macToHex_canonical {s : CStr} {mac : Mac} (h : CanonicalMac s mac) :
    macToHex s = some mac := scanColonHex_canonical h (Or.inr rfl)

theorem CanonicalMac.length {s : CStr} {mac : Mac} (h : CanonicalMac s mac) : s.length = 17 := by
  obtain ⟨g₀, g₁, g₂, g₃, g₄, g₅, h₀, h₁, h₂, h₃, h₄, h₅, rfl⟩ := h
  simp [h₀.length, h₁.length, h₂.length, h₃.length, h₄.length, h₅.length]

/-- A canonical text holds no line end and no NUL. -/
theorem CanonicalMac.chars {s : CStr} {mac : Mac} (h : CanonicalMac s mac) :
    ∀ c ∈ s, isHex c = true ∨ c = ':' := by
  obtain ⟨g₀, g₁, g₂, g₃, g₄, g₅, h₀, h₁, h₂, h₃, h₄, h₅, rfl⟩ := h
  intro c hc
  simp only [List.mem_append, List.mem_cons] at hc
  rcases hc with hc | rfl | hc | rfl | hc | rfl | hc | rfl | hc | rfl | hc
  · exact Or.inl (h₀.isHex c hc)
  · exact Or.inr rfl
  · exact Or.inl (h₁.isHex c hc)
  · exact Or.inr rfl
  · exact Or.inl (h₂.isHex c hc)
  · exact Or.inr rfl
  · exact Or.inl (h₃.isHex c hc)
  · exact Or.inr rfl
  · exact Or.inl (h₄.isHex c hc)
  · exact Or.inr rfl
  · exact Or.inl (h₅.isHex c hc)

theorem CanonicalMac.ne_char {s : CStr} {mac : Mac} (h : CanonicalMac s mac) {d : Char}
    (hd : isHex d = false) (hd' : d ≠ ':') : ∀ c ∈ s, c ≠ d := by
  intro c hc
  rcases h.chars c hc with hhex | rfl
  · exact ne_of_isHex hhex hd
  · exact hd'.symm

theorem oafBlockedMacsHandler_clear (k : OafState env) :
    oafBlockedMacsHandler k "clear".toList = (unblockAll k, 0) := by
  have hcut : "clear".toList.rdropWhile (fun c => c = '\n' || c = '\r') = "clear".toList := by
    decide
  have hstr : "clear".toList.takeWhile (fun c => c ≠ '\x00') = "clear".toList := by decide
  unfold oafBlockedMacsHandler
  rw [if_neg (by decide), hcut]
  dsimp only
  rw [hstr, if_pos rfl]

/-- The address a text blocks, as the handler reads it: a `+` command with at
least 18 characters and six numbers. -/
def blockTarget (text : CStr) : Option Mac :=
  let kbuf := text.rdropWhile (fun c => c = '\n' || c = '\r')
  if text.length ≥ 256 ∨ kbuf.length < 18 then none
  else
    match kbuf.takeWhile (fun c => c ≠ '\x00') with
    | [] => none
    | op :: rest => if op = '+' then scanMac rest else none

/-- A text that starts with `+` does nothing or blocks its address. -/
theorem oafBlockedMacsHandler_plus (k : OafState env) (s : CStr) :
    (oafBlockedMacsHandler k ('+' :: s)).1 =
      match blockTarget ('+' :: s) with
      | some mac => setBlocked k mac true
      | none => k := by
  have hhead : ∀ op rest, (('+' :: s).rdropWhile (fun c => c = '\n' || c = '\r')).takeWhile
      (fun c => c ≠ '\x00') = op :: rest → op = '+' := by
    intro op rest heq
    have hpre := (List.takeWhile_prefix (l := ('+' :: s).rdropWhile
      (fun c => c = '\n' || c = '\r')) (fun c => c ≠ '\x00')).trans
      (List.rdropWhile_prefix (fun c => c = '\n' || c = '\r') ('+' :: s))
    rw [heq] at hpre
    exact (List.cons_prefix_cons.mp hpre).1
  unfold oafBlockedMacsHandler blockTarget
  by_cases hlong : ('+' :: s).length ≥ 256
  · rw [if_pos hlong]
    dsimp only
    rw [if_pos (Or.inl hlong)]
  rw [if_neg hlong]
  dsimp only
  generalize ('+' :: s).rdropWhile (fun c => c = '\n' || c = '\r') = kbuf at hhead ⊢
  cases hstr : kbuf.takeWhile (fun c => c ≠ '\x00') with
  | nil =>
      rw [if_neg (by decide)]
      split_ifs <;> rfl
  | cons op rest =>
      obtain rfl := hhead op rest hstr
      have hclear : '+' :: rest ≠ "clear".toList := by
        intro heq
        exact absurd (List.cons.inj heq).1 (by decide)
      rw [if_neg hclear]
      by_cases hshort : kbuf.length < 18
      · rw [if_pos hshort, if_pos (Or.inr hshort)]
      · rw [if_neg hshort, if_neg (not_or.mpr ⟨hlong, hshort⟩)]
        dsimp only
        rw [if_neg (by simp), if_pos rfl]
        cases scanMac rest with
        | none => rfl
        | some mac => simp

/-- A command with a canonical address is read as it was written: there is no
line end to cut off and no NUL to stop at. -/
theorem CanonicalMac.command_kept {s : CStr} {mac : Mac} (h : CanonicalMac s mac) {op : Char}
    (hop : op ≠ '\x00') :
    (op :: s).rdropWhile (fun c => c = '\n' || c = '\r') = op :: s ∧
      (op :: s).takeWhile (fun c => c ≠ '\x00') = op :: s := by
  refine ⟨?_, ?_⟩
  · rw [List.rdropWhile_eq_self_iff]
    intro hne
    have hs : s ≠ [] := by
      rintro rfl
      exact absurd h.length (by simp)
    rw [List.getLast_cons hs]
    have hlast := List.getLast_mem hs
    simp [h.ne_char (d := '\n') (by decide) (by decide) _ hlast,
      h.ne_char (d := '\r') (by decide) (by decide) _ hlast]
  · rw [List.takeWhile_eq_self_iff]
    intro c hc
    rcases List.mem_cons.mp hc with rfl | hc
    · exact decide_eq_true hop
    · simpa using h.ne_char (d := '\x00') (by decide) (by decide) c hc

/-- `+MAC` with a canonical address blocks that address. -/
theorem blockTarget_canonical {s : CStr} {mac : Mac} (h : CanonicalMac s mac) :
    blockTarget ('+' :: s) = some mac := by
  have hlen := h.length
  obtain ⟨hcut, hstr⟩ := h.command_kept (show '+' ≠ '\x00' by decide)
  unfold blockTarget
  rw [hcut]
  dsimp only
  rw [if_neg (by simp [hlen]), hstr]
  dsimp only
  rw [if_pos rfl, scanMac_canonical h]

/-- `-MAC` with a canonical address takes the block off that address. -/
theorem oafBlockedMacsHandler_minus {s : CStr} {mac : Mac} (h : CanonicalMac s mac)
    (k : OafState env) : (oafBlockedMacsHandler k ('-' :: s)).1 = setBlocked k mac false := by
  have hlen := h.length
  obtain ⟨hcut, hstr⟩ := h.command_kept (show '-' ≠ '\x00' by decide)
  have hclear : '-' :: s ≠ "clear".toList := by
    intro heq
    exact absurd (List.cons.inj heq).1 (by decide)
  unfold oafBlockedMacsHandler
  rw [if_neg (by simp [hlen]), hcut]
  dsimp only
  rw [hstr, if_neg hclear, if_neg (by simp [hlen])]
  dsimp only
  rw [if_neg (by simp), scanMac_canonical h]
  rfl

/-- What a text that starts with `+` does to the flag of `mac`. -/
theorem clientBlocked_plus (k : OafState env) (s : CStr) (mac : Mac) :
    clientBlocked (oafBlockedMacsHandler k ('+' :: s)).1 mac =
      if blockTarget ('+' :: s) = some mac then (clientBlocked k mac).map (fun _ => true)
      else clientBlocked k mac := by
  rw [oafBlockedMacsHandler_plus]
  cases htarget : blockTarget ('+' :: s) with
  | none => simp
  | some target =>
      dsimp only
      rw [clientBlocked_setBlocked]
      by_cases hmac : mac = target
      · rw [if_pos hmac, if_pos (by rw [hmac])]
      · rw [if_neg hmac, if_neg (fun h => hmac (Option.some.inj h).symm)]

end OpenAppFilter.Kernel
