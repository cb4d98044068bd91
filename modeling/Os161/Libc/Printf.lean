import Mathlib.Data.List.DropRight
import Os161.Lib.Numeral
import Os161.Libc.Strtok

/-!
# Formatted output

`__vprintf` of `lib/libc/__printf.c`, on a machine on which `int`, `long` and pointers have 32 bits.
The output goes to a client through its send function; `args` are the words of the argument list,
and `str` gives the string at an address, without its NUL.

The run of a format hands the client text in pieces and learns nothing from it. So one client, which
only collects the text, says what every other one receives (`pfFormat_map`).
-/
namespace Os161.Libc

open Lib

def chr (c : Char) : Byte := BitVec.ofNat 8 c.toNat

def bytes (s : String) : List Byte := s.toList.map chr

/-- The two assertions, and a digit stored in front of `buf`. -/
inductive PfPanic where
  | nulChar
  | badModifier
  | bufferOverrun
  deriving DecidableEq, Repr

inductive IntSize where
  | intsz
  | longsz
  deriving DecidableEq, Repr

/-- The state for printf. `ap` counts the arguments already taken. -/
structure PF (σ : Type) where
  clientdata : σ
  ap : Nat
  charcount : Word
  inPct : Bool
  size : IntSize
  num : Word
  sign : Bool
  spacing : Word
  rightspc : Bool
  fillchar : Byte
  base : Nat
  basePrefix : Bool
  altformat : Bool
  deriving DecidableEq

def numberBufSize : Nat := 4 * 8 / 3 + 2

def digits : List Byte :=
  ['0', '1', '2', '3', '4', '5', '6', '7', '8', '9', 'a', 'b', 'c', 'd', 'e', 'f'].map chr

/-- The characters between the `%` and the type. -/
def modifiers : List Byte := ['#', '-', 'q', 'l', '0', '1', '2', '3', '4', '5', '6', '7', '8', '9'].map chr

def intTypes : List Byte := ['d', 'o', 'u', 'p', 'x'].map chr

section Model

variable {σ : Type} (send : σ → List Byte → σ) (args : Nat → Word) (str : Word → List Byte)

def pfPrint (pf : PF σ) (txt : List Byte) : PF σ :=
  { pf with
    clientdata := send pf.clientdata txt
    charcount := pf.charcount + BitVec.ofNat 32 txt.length }

def pfEndfield (pf : PF σ) : PF σ :=
  { pf with
    inPct := false, size := .intsz, num := 0, sign := false, spacing := 0, rightspc := false, fillchar := chr ' ',
    base := 0, basePrefix := false, altformat := false }

def pfModifier (pf : PF σ) (ch : Byte) : Except PfPanic (PF σ) :=
  if ch = chr '#' then pure { pf with altformat := true }
  else if ch = chr '-' then pure { pf with rightspc := true }
  else if ch = chr 'l' then
    match pf.size with
    | .longsz => pure pf
    | .intsz => pure { pf with size := .longsz }
  else if ch = chr 'q' then pure { pf with size := .longsz }
  else if ch = chr '0' then
    if (0 : Word).slt pf.spacing then pure { pf with spacing := pf.spacing * 10 }
    else pure { pf with fillchar := chr '0' }
  else if chr '0' < ch ∧ ch ≤ chr '9' then
    pure { pf with spacing := pf.spacing * 10 + (ch - chr '0').setWidth 32 }
  else throw .badModifier

def PF.vaArg (pf : PF σ) : PF σ := { pf with ap := pf.ap + 1 }

/-- The sizes do not matter here, as every argument is one word. -/
def pfGetnum (pf : PF σ) (ch : Byte) : PF σ :=
  let arg := args pf.ap
  let pf := pf.vaArg
  if ch = chr 'p' then { pf with num := arg }
  else if ch = chr 'd' then
    if arg.toInt < 0 then { pf with sign := true, num := -arg } else { pf with num := arg }
  else { pf with num := arg }

def pfSetbase (pf : PF σ) (ch : Byte) : PF σ :=
  let base :=
    if ch = chr 'd' ∨ ch = chr 'u' then 10
    else if ch = chr 'x' ∨ ch = chr 'p' then 16
    else if ch = chr 'o' then 8
    else pf.base
  let pf := { pf with base }
  if pf.altformat || ch = chr 'p' then { pf with basePrefix := true } else pf

def pfFill (pf : PF σ) (spc : Word) : PF σ := (fun p => pfPrint send p [pf.fillchar])^[spc.toInt.toNat] pf

def pfPrintstuff (pf : PF σ) (pre pre2 stuff : List Byte) : PF σ :=
  let len := BitVec.ofNat 32 (pre.length + pre2.length + stuff.length)
  let spc := if len.slt pf.spacing then pf.spacing - len else 0
  let padded := (0 : Word).slt spc
  let pf := if padded && !pf.rightspc && pf.fillchar != chr '0' then pfFill send pf spc else pf
  let pf := pfPrint send (pfPrint send pf pre) pre2
  let pf := if padded && !pf.rightspc && pf.fillchar == chr '0' then pfFill send pf spc else pf
  let pf := pfPrint send pf stuff
  if padded && pf.rightspc then pfFill send pf spc else pf

/-- The `do` loop of `__pf_printnum`. `x` is the text from the slot last filled on; `slots` are left
in front of it. -/
def digitLoop (base : Nat) : Nat → Nat → List Byte → Except PfPanic (List Byte)
  | 0, _, _ => throw .bufferOverrun
  | slots + 1, xnum, x =>
    let x := digits.getD (xnum % base) 0 :: x
    if 0 < xnum / base then digitLoop base slots (xnum / base) x else pure x

def pfPrintnum (pf : PF σ) : Except PfPanic (PF σ) := do
  -- The last slot is for the NUL.
  let x ← digitLoop pf.base (numberBufSize - 1) pf.num.toNat []
  let bpre :=
    if pf.basePrefix && pf.base == 16 then bytes "0x"
    else if pf.basePrefix && pf.base == 8 then bytes "0"
    else []
  let spre := if pf.sign then bytes "-" else []
  pure (pfPrintstuff send pf spre bpre x)

/-! The branches of `__pf_send` that end a field. -/

def sendInt (pf : PF σ) (ch : Byte) : Except PfPanic (PF σ) := do
  let pf ← pfPrintnum send (pfSetbase (pfGetnum args pf ch) ch)
  pure (pfEndfield pf)

def sendStr (pf : PF σ) : PF σ :=
  let arg := args pf.ap
  let s := if arg = 0 then bytes "(null)" else str arg
  pfEndfield (pfPrintstuff send pf.vaArg [] [] s)

/-- The string `x` is empty when the character is a NUL. -/
def sendOther (pf : PF σ) (ch : Byte) : PF σ :=
  let c := if ch = chr 'c' then (args pf.ap).setWidth 8 else ch
  let x := if c = 0 then [] else [c]
  pfEndfield (pfPrintstuff send (if ch = chr 'c' then pf.vaArg else pf) [] [] x)

def pfSend (pf : PF σ) (ch : Byte) : Except PfPanic (PF σ) :=
  if ch = 0 then throw .nulChar
  else if !pf.inPct && ch != chr '%' then pure (pfPrint send pf [ch])
  else if !pf.inPct then pure { pf with inPct := true }
  else if strchr modifiers ch then pfModifier pf ch
  else if strchr intTypes ch then sendInt send args pf ch
  else if ch = chr 's' then pure (sendStr send args str pf)
  else pure (sendOther send args pf ch)

/-- The loop of `__vprintf`. -/
def pfFormat : List Byte → PF σ → Except PfPanic (PF σ)
  | [], pf => pure pf
  | ch :: format, pf => if ch = 0 then pure pf else do
    let pf ← pfSend send args str pf ch
    pfFormat format pf

def pfInit (clientdata : σ) : PF σ :=
  { clientdata, ap := 0, charcount := 0, inPct := false, size := .intsz, num := 0, sign := false, spacing := 0,
    rightspc := false, fillchar := chr ' ', base := 0, basePrefix := false, altformat := false }

/-- What the client has at the end, and the number of characters. -/
def vprintf (clientdata : σ) (format : List Byte) : Except PfPanic (σ × Int) := do
  let pf ← pfFormat send args str format (pfInit clientdata)
  pure (pf.clientdata, pf.charcount.toInt)

end Model

/-! ## The digits -/

def digitChar (d : Nat) : Byte := digits.getD d 0

theorem digitLoop_eq {base : Nat} (hb : 1 < base) {slots n : Nat} (hslots : 0 < slots) (hn : n < base ^ slots)
    (x : List Byte) : digitLoop base slots n x = .ok ((numeral base n).map digitChar ++ x) := by
  induction slots generalizing n x with
  | zero => exact absurd hslots (lt_irrefl 0)
  | succ slots ih =>
    rw [digitLoop]
    by_cases hmore : 0 < n / base
    · have hdiv : n / base < base ^ slots := by
        apply Nat.div_lt_of_lt_mul
        rwa [← Nat.pow_succ']
      have hleft : 0 < slots := by
        rcases Nat.eq_zero_or_pos slots with rfl | h
        · rw [Nat.pow_zero] at hdiv
          omega
        · exact h
      rw [if_pos hmore, ih hleft hdiv, numeral_of_le hb ((Nat.div_pos_iff.1 hmore).2)]
      simp [digitChar]
    · have hlt : n < base := by
        by_contra h
        exact hmore (Nat.div_pos (Nat.le_of_not_lt h) (by omega))
      rw [if_neg hmore, numeral_of_lt hlt, Nat.mod_eq_of_lt hlt]
      rfl

theorem digitLoop_number {base : Nat} (hb : 8 ≤ base) (num : Word) :
    digitLoop base (numberBufSize - 1) num.toNat [] = .ok ((numeral base num.toNat).map digitChar) := by
  have hroom : num.toNat < base ^ (numberBufSize - 1) :=
    calc num.toNat < 2 ^ 32 := num.isLt
      _ ≤ 8 ^ (numberBufSize - 1) := by decide
      _ ≤ base ^ (numberBufSize - 1) := Nat.pow_le_pow_left hb _
  rw [digitLoop_eq (by omega) (by decide) hroom, List.append_nil]

/-! ## Clients -/

section Clients

variable {σ τ : Type} {send : σ → List Byte → σ} {send' : τ → List Byte → τ} {args : Nat → Word}
  {str : Word → List Byte}

/-- Other data of a client, and another count, in the same state. -/
def PF.map (f : σ × Word → τ × Word) (pf : PF σ) : PF τ :=
  { pf with
    clientdata := (f (pf.clientdata, pf.charcount)).1
    charcount := (f (pf.clientdata, pf.charcount)).2 }

section Map

variable {f : σ × Word → τ × Word} (hf : ∀ s n txt, f (send s txt, n + BitVec.ofNat 32 txt.length) =
  (send' (f (s, n)).1 txt, (f (s, n)).2 + BitVec.ofNat 32 txt.length))
include hf

theorem pfPrint_map (pf : PF σ) (txt : List Byte) : pfPrint send' (pf.map f) txt = (pfPrint send pf txt).map f := by
  simp [pfPrint, PF.map, hf]

theorem pfFill_map (pf : PF σ) (spc : Word) : pfFill send' (pf.map f) spc = (pfFill send pf spc).map f := by
  have h : Function.Semiconj (PF.map f) (fun p => pfPrint send p [pf.fillchar])
      (fun p => pfPrint send' p [pf.fillchar]) := fun p => (pfPrint_map hf p _).symm
  exact (h.iterate_right _ pf).symm

theorem pfPrintstuff_map (pf : PF σ) (pre pre2 stuff : List Byte) :
    pfPrintstuff send' (pf.map f) pre pre2 stuff = (pfPrintstuff send pf pre pre2 stuff).map f := by
  have hfields : ∀ p : PF σ, (p.map f).rightspc = p.rightspc ∧ (p.map f).fillchar = p.fillchar := fun _ => ⟨rfl, rfl⟩
  have hspacing : (pf.map f).spacing = pf.spacing := rfl
  simp only [pfPrintstuff, pfPrint_map hf, pfFill_map hf, ← apply_ite (PF.map f), hfields, hspacing]

theorem pfPrintnum_map (pf : PF σ) : pfPrintnum send' (pf.map f) = (pfPrintnum send pf).map (PF.map f) := by
  unfold pfPrintnum
  change (digitLoop pf.base (numberBufSize - 1) pf.num.toNat [] >>= _) = _
  cases digitLoop pf.base (numberBufSize - 1) pf.num.toNat [] with
  | error e => rfl
  | ok x => exact congrArg Except.ok (pfPrintstuff_map hf pf _ _ x)

omit hf in
theorem pfModifier_map (pf : PF σ) (ch : Byte) : pfModifier (pf.map f) ch = (pfModifier pf ch).map (PF.map f) := by
  obtain ⟨_, _, _, _, size⟩ := pf
  cases size <;> simp only [pfModifier, apply_ite (Except.map (PF.map f))] <;> rfl

omit hf in
theorem pfGetnum_map (pf : PF σ) (ch : Byte) : pfGetnum args (pf.map f) ch = (pfGetnum args pf ch).map f := by
  simp only [pfGetnum, apply_ite (PF.map f)]
  rfl

omit hf in
theorem pfSetbase_map (pf : PF σ) (ch : Byte) : pfSetbase (pf.map f) ch = (pfSetbase pf ch).map f := by
  simp only [pfSetbase, apply_ite (PF.map f)]
  rfl

theorem sendInt_map (pf : PF σ) (ch : Byte) :
    sendInt send' args (pf.map f) ch = (sendInt send args pf ch).map (PF.map f) := by
  unfold sendInt
  rw [pfGetnum_map, pfSetbase_map, pfPrintnum_map hf]
  cases pfPrintnum send (pfSetbase (pfGetnum args pf ch) ch) <;> rfl

omit hf in
theorem pfEndfield_map (pf : PF σ) : pfEndfield (pf.map f) = (pfEndfield pf).map f := rfl

theorem sendStr_map (pf : PF σ) : sendStr send' args str (pf.map f) = (sendStr send args str pf).map f := by
  have hap : (pf.map f).ap = pf.ap := rfl
  have harg : (pf.map f).vaArg = pf.vaArg.map f := rfl
  simp only [sendStr, hap, harg, pfPrintstuff_map hf, pfEndfield_map]

theorem sendOther_map (pf : PF σ) (ch : Byte) : sendOther send' args (pf.map f) ch = (sendOther send args pf ch).map f := by
  have harg : (if ch = chr 'c' then (pf.map f).vaArg else pf.map f) = (if ch = chr 'c' then pf.vaArg else pf).map f :=
    (apply_ite (PF.map f) (ch = chr 'c') pf.vaArg pf).symm
  have hap : (pf.map f).ap = pf.ap := rfl
  simp only [sendOther, hap, harg, pfPrintstuff_map hf, pfEndfield_map]

theorem pfSend_map (pf : PF σ) (ch : Byte) :
    pfSend send' args str (pf.map f) ch = (pfSend send args str pf ch).map (PF.map f) := by
  have hpct : (pf.map f).inPct = pf.inPct := rfl
  unfold pfSend
  rw [pfPrint_map hf, pfModifier_map, sendInt_map hf, sendStr_map hf, sendOther_map hf, hpct]
  simp only [apply_ite (Except.map (PF.map f))]
  rfl

/-- Whatever follows each single piece of text from other data follows the whole run. -/
theorem pfFormat_map (format : List Byte) (pf : PF σ) :
    pfFormat send' args str format (pf.map f) = (pfFormat send args str format pf).map (PF.map f) := by
  induction format generalizing pf with
  | nil => rfl
  | cons ch format ih =>
    rw [pfFormat, pfFormat, pfSend_map hf]
    split
    · rfl
    · cases pfSend send args str pf ch with
      | error e => rfl
      | ok pf' => exact ih pf'

end Map

/-- The client that collects the text. -/
def record (text txt : List Byte) : List Byte := text ++ txt

theorem pfFormat_charcount {format : List Byte} {pf : PF (List Byte)}
    (h : pfFormat record args str format (pfInit []) = .ok pf) : pf.charcount = BitVec.ofNat 32 pf.clientdata.length := by
  let count : List Byte × Word → List Byte × Word := fun p => (p.1, BitVec.ofNat 32 p.1.length)
  have hcount : ∀ s n txt, count (record s txt, n + BitVec.ofNat 32 txt.length) =
      (record (count (s, n)).1 txt, (count (s, n)).2 + BitVec.ofNat 32 txt.length) := by
    simp [count, record, BitVec.ofNat_add]
  have hmap : pfFormat record args str format (pfInit []) = _ := pfFormat_map hcount format (pfInit [])
  rw [h] at hmap
  exact congrArg PF.charcount (Except.ok.inj hmap)

end Clients

/-! ## No panic -/

section NoPanic

variable {σ : Type} {send : σ → List Byte → σ} {args : Nat → Word} {str : Word → List Byte}

theorem strchr_modifiers {ch : Byte} (hch : ch ≠ 0) : strchr modifiers ch = true ↔ ch ∈ modifiers :=
  strchr_iff (by simp [modifiers, chr]) hch

theorem strchr_intTypes {ch : Byte} (hch : ch ≠ 0) : strchr intTypes ch = true ↔ ch ∈ intTypes :=
  strchr_iff (by simp [intTypes, chr]) hch

theorem pfModifier_ok {ch : Byte} (hch : ch ∈ modifiers) (pf : PF σ) : ∃ pf', pfModifier pf ch = .ok pf' := by
  have hdigit : ∀ c ∈ modifiers, c ≠ chr '#' → c ≠ chr '-' → c ≠ chr 'l' → c ≠ chr 'q' → c ≠ chr '0' →
      chr '0' < c ∧ c ≤ chr '9' := by simp [modifiers, chr]
  unfold pfModifier
  split_ifs with halt hright hlong hquad hzero hwide hin
  · exact ⟨_, rfl⟩
  · exact ⟨_, rfl⟩
  · cases pf.size <;> exact ⟨_, rfl⟩
  · exact ⟨_, rfl⟩
  · exact ⟨_, rfl⟩
  · exact ⟨_, rfl⟩
  · exact ⟨_, rfl⟩
  · exact absurd (hdigit ch hch halt hright hlong hquad hzero) hin

theorem pfSetbase_base {ch : Byte} (hch : ch ∈ intTypes) (pf : PF σ) : 8 ≤ (pfSetbase pf ch).base := by
  have htypes : ∀ c ∈ intTypes, ¬(c = chr 'd' ∨ c = chr 'u') → ¬(c = chr 'x' ∨ c = chr 'p') → c = chr 'o' := by
    simp [intTypes, chr]
  have hbase := htypes ch hch
  grind [pfSetbase]

theorem pfPrintnum_ok (send : σ → List Byte → σ) {pf : PF σ} (hb : 8 ≤ pf.base) : ∃ pf', pfPrintnum send pf = .ok pf' := by
  unfold pfPrintnum
  rw [digitLoop_number hb]
  exact ⟨_, rfl⟩

theorem pfSend_ok {ch : Byte} (hch : ch ≠ 0) (pf : PF σ) : ∃ pf', pfSend send args str pf ch = .ok pf' := by
  unfold pfSend
  rw [if_neg hch]
  split_ifs with htext hpct hmod hint hstr
  · exact ⟨_, rfl⟩
  · exact ⟨_, rfl⟩
  · exact pfModifier_ok ((strchr_modifiers hch).1 hmod) pf
  · obtain ⟨pf', h⟩ := pfPrintnum_ok send (pfSetbase_base ((strchr_intTypes hch).1 hint) (pfGetnum args pf ch))
    rw [sendInt, h]
    exact ⟨_, rfl⟩
  · exact ⟨_, rfl⟩
  · exact ⟨_, rfl⟩

theorem pfFormat_ok (format : List Byte) (pf : PF σ) : ∃ pf', pfFormat send args str format pf = .ok pf' := by
  induction format generalizing pf with
  | nil => exact ⟨pf, rfl⟩
  | cons ch format ih =>
    rw [pfFormat]
    split
    · exact ⟨pf, rfl⟩
    · next hch =>
      obtain ⟨pf', h⟩ := pfSend_ok hch pf
      rw [h]
      exact ih pf'

/-- The text of a format. -/
def printed (args : Nat → Word) (str : Word → List Byte) (format : List Byte) : List Byte :=
  match vprintf record args str [] format with
  | .ok (text, _) => text
  | .error _ => []

/-- A client that does not notice how its text is cut into pieces gets the text as a whole. -/
theorem vprintf_eq (hnil : ∀ s, send s [] = s) (happend : ∀ s t t', send (send s t) t' = send s (t ++ t')) (s : σ)
    (format : List Byte) : vprintf send args str s format =
      .ok (send s (printed args str format), (BitVec.ofNat 32 (printed args str format).length).toInt) := by
  obtain ⟨pf, hpf⟩ : ∃ pf, pfFormat record args str format (pfInit []) = .ok pf := pfFormat_ok format _
  let feed : List Byte × Word → σ × Word := fun p => (send s p.1, p.2)
  have hfeed : ∀ t n txt, feed (record t txt, n + BitVec.ofNat 32 txt.length) =
      (send (feed (t, n)).1 txt, (feed (t, n)).2 + BitVec.ofNat 32 txt.length) := by
    simp [feed, record, happend]
  have hinit : (pfInit []).map feed = pfInit s := by
    simp [PF.map, feed, pfInit, hnil]
  have hmap : pfFormat send args str format ((pfInit []).map feed) = _ := pfFormat_map hfeed format (pfInit [])
  rw [hinit, hpf] at hmap
  have hprinted : printed args str format = pf.clientdata := by
    rw [printed, vprintf, hpf]
    rfl
  rw [vprintf, hmap, hprinted]
  exact congrArg (fun n : Word => Except.ok (send s pf.clientdata, n.toInt)) (pfFormat_charcount hpf)

end NoPanic

end Os161.Libc
