import Os161.Libc.Printf

/-!
# Number fields

What `__vprintf` makes of one conversion of a number. The modifiers of a field can come in any
order; `modified` says which state they leave. The text of the field is the number with its sign and
base prefix, and padding in one of three places (`padded`). `readField` reads such a text back, and
the number survives the padding unless zeros were added behind it.
-/
namespace Os161.Libc

open Lib

/-! ## What a conversion asks for -/

def isDigit (c : Byte) : Bool := chr '0' ≤ c && c ≤ chr '9'

/-- The digits among the modifiers. -/
def widthDigits (mods : List Byte) : List Nat := (mods.filter isDigit).map fun c => (c - chr '0').toNat

def width (mods : List Byte) : Nat := ofNumeral 10 (widthDigits mods)

/-- A leading zero asks for padding with zeros. -/
def ZeroFill (mods : List Byte) : Prop := (widthDigits mods).head? = some 0

instance (mods : List Byte) : Decidable (ZeroFill mods) := inferInstanceAs (Decidable (_ = _))

def baseOf (conv : Byte) : Nat :=
  if conv = chr 'o' then 8 else if conv = chr 'x' ∨ conv = chr 'p' then 16 else 10

def argValue (conv : Byte) (arg : Word) : Int := if conv = chr 'd' then arg.toInt else arg.toNat

def signText (conv : Byte) (arg : Word) : List Byte := if argValue conv arg < 0 then [chr '-'] else []

def prefixText (mods : List Byte) (conv : Byte) : List Byte :=
  if chr '#' ∈ mods ∨ conv = chr 'p' then
    if baseOf conv = 16 then [chr '0', chr 'x'] else if baseOf conv = 8 then [chr '0'] else []
  else []

def numeralText (conv : Byte) (arg : Word) : List Byte :=
  (numeral (baseOf conv) (argValue conv arg).natAbs).map digitChar

def natural (mods : List Byte) (conv : Byte) (arg : Word) : List Byte :=
  signText conv arg ++ prefixText mods conv ++ numeralText conv arg

/-! ## Reading a field -/

def digitVal (c : Byte) : Nat := digits.idxOf c

def isSpace (c : Byte) : Bool := c = chr ' '

def trim (text : List Byte) : List Byte := (text.dropWhile isSpace).rdropWhile isSpace

def unsigned (text : List Byte) : List Byte := if text.head? = some (chr '-') then text.tail else text

/-- The prefix of octal numbers is a digit itself. -/
def unprefixed (base : Nat) (text : List Byte) : List Byte :=
  if base = 16 ∧ text.take 2 = [chr '0', chr 'x'] then text.drop 2 else text

/-- The value of a field, if what is left of it is a numeral. -/
def readField (base : Nat) (text : List Byte) : Option Nat :=
  let ds := unprefixed base (unsigned (trim text))
  if ds ≠ [] ∧ ∀ c ∈ ds, digitVal c < base then some (ofNumeral base (ds.map digitVal)) else none

/-! ## The modifiers -/

variable {ch : Byte} {n : Nat}

section Modifiers

variable {σ : Type} {send : σ → List Byte → σ} {args : Nat → Word} {str : Word → List Byte}

/-- Between two fields. -/
def PF.Idle (pf : PF σ) : Prop := pfEndfield pf = pf

/-- In a field, after these modifiers. -/
def modified (pf : PF σ) (mods : List Byte) : PF σ :=
  { pf with
    inPct := true
    size := if chr 'l' ∈ mods ∨ chr 'q' ∈ mods then .longsz else .intsz
    spacing := BitVec.ofNat 32 (width mods)
    rightspc := decide (chr '-' ∈ mods)
    fillchar := if ZeroFill mods then chr '0' else chr ' '
    altformat := decide (chr '#' ∈ mods) }

theorem widthDigits_append (mods : List Byte) (ch : Byte) :
    widthDigits (mods ++ [ch]) = widthDigits mods ++ if isDigit ch then [(ch - chr '0').toNat] else [] := by
  unfold widthDigits
  rw [List.filter_append, List.map_append]
  congr 1
  by_cases h : isDigit ch = true
  · simp [h]
  · simp [h]

theorem width_append (mods : List Byte) (ch : Byte) :
    width (mods ++ [ch]) = if isDigit ch then width mods * 10 + (ch - chr '0').toNat else width mods := by
  unfold width
  rw [widthDigits_append, ofNumeral_append]
  split
  · rw [ofNumeral_singleton, List.length_singleton, Nat.pow_one]
  · simp

/-- Only a first digit can ask for zeros. -/
theorem zeroFill_append (mods : List Byte) (hch : isDigit ch = true) :
    ZeroFill (mods ++ [ch]) ↔ ZeroFill mods ∨ widthDigits mods = [] ∧ (ch - chr '0').toNat = 0 := by
  unfold ZeroFill
  rw [widthDigits_append, if_pos hch]
  cases widthDigits mods with
  | nil | cons d ds => simp

/-- As long as the width is zero, all digits so far are. -/
theorem zeroFill_of_width {mods : List Byte} (hwidth : width mods = 0) : ZeroFill mods ∨ widthDigits mods = [] := by
  unfold width at hwidth
  unfold ZeroFill
  cases hds : widthDigits mods with
  | nil => exact .inr rfl
  | cons d ds =>
    rw [hds, ← List.singleton_append, ofNumeral_append, ofNumeral_singleton] at hwidth
    have hd : d * 10 ^ ds.length = 0 := by omega
    left
    simpa using hd

theorem toInt_ofNat (hn : n < 2 ^ 31) : (BitVec.ofNat 32 n).toInt = n := by
  have hmod : n % 2 ^ 32 = n := Nat.mod_eq_of_lt (by omega)
  rw [BitVec.toInt_eq_toNat_of_lt (by rw [BitVec.toNat_ofNat, hmod]; omega), BitVec.toNat_ofNat, hmod]

theorem slt_ofNat {m : Nat} (hm : m < 2 ^ 31) (hn : n < 2 ^ 31) :
    (BitVec.ofNat 32 m).slt (BitVec.ofNat 32 n) = decide (m < n) := by
  rw [BitVec.slt, toInt_ofNat hm, toInt_ofNat hn]
  simp

section

variable (pf : PF σ) (mods : List Byte)
include pf mods

theorem modified_of_not_isDigit (hch : isDigit ch = false) : modified pf (mods ++ [ch]) = { modified pf mods with
        size := if chr 'l' ∈ mods ++ [ch] ∨ chr 'q' ∈ mods ++ [ch] then .longsz else .intsz
        rightspc := decide (chr '-' ∈ mods ++ [ch])
        altformat := decide (chr '#' ∈ mods ++ [ch]) } := by
  have hdigits : widthDigits (mods ++ [ch]) = widthDigits mods := by simp [widthDigits_append, hch]
  have hwidth : width (mods ++ [ch]) = width mods := by rw [width, width, hdigits]
  have hzero : ZeroFill (mods ++ [ch]) ↔ ZeroFill mods := by rw [ZeroFill, ZeroFill, hdigits]
  simp only [modified, hwidth, hzero]

theorem modified_of_isDigit (hch : isDigit ch = true) : modified pf (mods ++ [ch]) = { modified pf mods with
        spacing := BitVec.ofNat 32 (width mods * 10 + (ch - chr '0').toNat)
        fillchar := if ZeroFill (mods ++ [ch]) then chr '0' else chr ' ' } := by
  have hother : ∀ c, isDigit c = false → (c ∈ mods ++ [ch] ↔ c ∈ mods) := by
    intro c hc
    have hne : c ≠ ch := by
      rintro rfl
      rw [hch] at hc
      cases hc
    simp [hne]
  simp only [modified, width_append, hch, hother (chr 'l') (by decide), hother (chr 'q') (by decide),
    hother (chr '-') (by decide), hother (chr '#') (by decide), if_true]

theorem pfModifier_flag (hch : ch ∈ modifiers) (hdigit : isDigit ch = false) :
    pfModifier (modified pf mods) ch = .ok (modified pf (mods ++ [ch])) := by
  have hflags : ∀ c ∈ modifiers, isDigit c = false → c = chr '#' ∨ c = chr '-' ∨ c = chr 'l' ∨ c = chr 'q' := by
    simp [modifiers, chr, isDigit]
  rw [modified_of_not_isDigit pf mods hdigit]
  obtain rfl | rfl | rfl | rfl := hflags ch hch hdigit
  · simp +decide [pfModifier, modified, Pure.pure, Except.pure]
  · simp +decide [pfModifier, modified, Pure.pure, Except.pure]
  · by_cases hsize : chr 'l' ∈ mods ∨ chr 'q' ∈ mods
    · simp +decide [pfModifier, modified, hsize, Pure.pure, Except.pure]
    · simp +decide [pfModifier, modified, hsize, Pure.pure, Except.pure]
  · simp +decide [pfModifier, modified, Pure.pure, Except.pure]

theorem pfModifier_digit (hdigit : isDigit ch = true)
    (hwidth : width (mods ++ [ch]) < 2 ^ 31) : pfModifier (modified pf mods) ch = .ok (modified pf (mods ++ [ch])) := by
  have hne : ∀ c, isDigit c = false → ch ≠ c := by
    rintro c hc rfl
    rw [hdigit] at hc
    cases hc
  rw [width_append, if_pos hdigit] at hwidth
  rw [modified_of_isDigit pf mods hdigit]
  unfold pfModifier
  rw [if_neg (hne (chr '#') (by decide)), if_neg (hne (chr '-') (by decide)), if_neg (hne (chr 'l') (by decide)),
    if_neg (hne (chr 'q') (by decide))]
  have hspacing : (0 : Word).slt (modified pf mods).spacing = decide (0 < width mods) :=
    slt_ofNat (by decide) (by omega)
  rw [hspacing]
  by_cases hzero : ch = chr '0'
  · have hval : (ch - chr '0').toNat = 0 := by rw [hzero]; decide
    rw [if_pos hzero]
    by_cases hw : 0 < width mods
    · have hsome : widthDigits mods ≠ [] := by
        intro h
        rw [width, h, ofNumeral_nil] at hw
        exact lt_irrefl 0 hw
      simp [hw, hval, zeroFill_append mods hdigit, hsome, modified, BitVec.ofNat_mul, Pure.pure, Except.pure]
    · have hwidth0 : width mods = 0 := by omega
      have hfill : ZeroFill (mods ++ [ch]) :=
        (zeroFill_append mods hdigit).2 ((zeroFill_of_width hwidth0).imp_right fun h => ⟨h, hval⟩)
      simp [hval, hfill, hwidth0, modified, Pure.pure, Except.pure]
  · have hrange : chr '0' < ch ∧ ch ≤ chr '9' := by
      simp only [isDigit, Bool.and_eq_true, decide_eq_true_eq] at hdigit
      exact ⟨by bv_omega, hdigit.2⟩
    have hval : (ch - chr '0').toNat ≠ 0 := by bv_omega
    have hfill : ZeroFill (mods ++ [ch]) ↔ ZeroFill mods := by
      rw [zeroFill_append mods hdigit, or_iff_left (fun h => hval h.2)]
    rw [if_neg hzero, if_pos hrange]
    simp only [hfill, modified, BitVec.ofNat_add, BitVec.ofNat_mul, BitVec.ofNat_toNat]
    rfl

end

theorem pfModifier_modified {pf : PF σ} {mods : List Byte} (hch : ch ∈ modifiers)
    (hwidth : width (mods ++ [ch]) < 2 ^ 31) : pfModifier (modified pf mods) ch = .ok (modified pf (mods ++ [ch])) := by
  cases hdigit : isDigit ch with
  | true => exact pfModifier_digit pf mods hdigit hwidth
  | false => exact pfModifier_flag pf mods hch hdigit

theorem width_le_append (mods mods' : List Byte) : width mods ≤ width (mods ++ mods') := by
  unfold width widthDigits
  rw [List.filter_append, List.map_append, ofNumeral_append]
  exact Nat.le_add_right_of_le (Nat.le_mul_of_pos_right _ (by positivity))

theorem pfSend_inPct {pf : PF σ} (hpct : pf.inPct = true) (hch : ch ≠ 0) :
    pfSend send args str pf ch = if ch ∈ modifiers then pfModifier pf ch
      else if ch ∈ intTypes then sendInt send args pf ch
      else if ch = chr 's' then .ok (sendStr send args str pf)
      else .ok (sendOther send args pf ch) := by
  simp only [pfSend, if_neg hch, hpct, strchr_modifiers hch, strchr_intTypes hch]
  rfl

theorem pfFormat_append {l : List Byte} (hl : ∀ c ∈ l, c ≠ 0) (l' : List Byte) (pf : PF σ) :
    pfFormat send args str (l ++ l') pf = pfFormat send args str l pf >>= pfFormat send args str l' := by
  induction l generalizing pf with
  | nil => rfl
  | cons ch l ih =>
    have hch : ch ≠ 0 := hl ch List.mem_cons_self
    rw [List.cons_append, pfFormat, pfFormat, if_neg hch, if_neg hch]
    cases pfSend send args str pf ch with
    | error e => rfl
    | ok q => exact ih (fun c hc => hl c (List.mem_cons_of_mem _ hc)) q

theorem pfFormat_modified (pf : PF σ) {mods : List Byte} (hmods : ∀ c ∈ mods, c ∈ modifiers) (done rest : List Byte)
    (hwidth : width (done ++ mods) < 2 ^ 31) :
    pfFormat send args str (mods ++ rest) (modified pf done) =
      pfFormat send args str rest (modified pf (done ++ mods)) := by
  induction mods generalizing done with
  | nil => rw [List.nil_append, List.append_nil]
  | cons ch mods ih =>
    have hch : ch ∈ modifiers := hmods ch List.mem_cons_self
    have hnul : ch ≠ 0 := by
      have hnot : 0 ∉ modifiers := by simp [modifiers, chr]
      rintro rfl
      exact hnot hch
    rw [List.append_cons] at hwidth ⊢
    have hsend : pfSend send args str (modified pf done) ch = .ok (modified pf (done ++ [ch])) := by
      rw [← pfModifier_modified hch ((width_le_append _ mods).trans_lt hwidth), pfSend_inPct rfl hnul, if_pos hch]
    rw [List.cons_append, pfFormat, if_neg hnul, hsend, ← ih (fun c hc => hmods c (List.mem_cons_of_mem _ hc)) _ hwidth]
    rfl

end Modifiers

/-! ## The text of a field -/

section Text

/-- The padding goes to the right, or between the prefixes and the rest if it consists of zeros, or
to the left. -/
def padded (width : Nat) (right : Bool) (fill : Byte) (pre pre2 stuff : List Byte) : List Byte :=
  let pad := List.replicate (width - (pre.length + pre2.length + stuff.length)) fill
  if right then pre ++ pre2 ++ stuff ++ pad
  else if fill = chr '0' then pre ++ pre2 ++ pad ++ stuff
  else pad ++ pre ++ pre2 ++ stuff

theorem iterate_pfPrint (c : Byte) (n : Nat) (pf : PF (List Byte)) :
    (fun p => pfPrint record p [c])^[n] pf =
      { pf with
        clientdata := pf.clientdata ++ List.replicate n c
        charcount := pf.charcount + BitVec.ofNat 32 n } := by
  induction n generalizing pf with
  | zero => simp
  | succ n ih =>
    rw [Function.iterate_succ_apply, ih]
    simp [pfPrint, record, List.replicate_succ, BitVec.ofNat_add, BitVec.add_assoc, BitVec.add_comm (BitVec.ofNat 32 n)]

theorem pfFill_record (pf : PF (List Byte)) (hn : n < 2 ^ 31) :
    pfFill record pf (BitVec.ofNat 32 n) =
      { pf with
        clientdata := pf.clientdata ++ List.replicate n pf.fillchar
        charcount := pf.charcount + BitVec.ofNat 32 n } := by
  rw [pfFill, toInt_ofNat hn, Int.toNat_natCast, iterate_pfPrint]

theorem pfPrintstuff_record (pf : PF (List Byte)) {w : Nat} (hw : w < 2 ^ 31) (hspacing : pf.spacing = BitVec.ofNat 32 w)
    (pre pre2 stuff : List Byte) (hlen : pre.length + pre2.length + stuff.length < 2 ^ 31) :
    (pfPrintstuff record pf pre pre2 stuff).clientdata =
      pf.clientdata ++ padded w pf.rightspc pf.fillchar pre pre2 stuff := by
  generalize hl : pre.length + pre2.length + stuff.length = len at hlen
  have hspc : (if (BitVec.ofNat 32 len).slt pf.spacing then pf.spacing - BitVec.ofNat 32 len else 0) =
      BitVec.ofNat 32 (w - len) := by
    rw [hspacing, slt_ofNat hlen hw]
    by_cases h : len < w
    · rw [decide_eq_true h, if_pos rfl, BitVec.ofNat_sub_ofNat_of_le _ _ (by omega) h.le]
    · rw [decide_eq_false h, Nat.sub_eq_zero_of_le (by omega)]
      rfl
  have hfill : ∀ p : PF (List Byte), pfFill record p (BitVec.ofNat 32 (w - len)) = _ :=
    fun p => pfFill_record p (by omega)
  have hpad : (0 : Word).slt (BitVec.ofNat 32 (w - len)) = decide (0 < w - len) := slt_ofNat (by decide) (by omega)
  unfold pfPrintstuff padded
  simp only [hl, hspc, hpad, hfill]
  by_cases hwide : 0 < w - len
  · cases hright : pf.rightspc with
    | true => simp [hwide, hright, pfPrint, record]
    | false =>
      by_cases hzero : pf.fillchar = chr '0'
      · simp [hwide, hright, hzero, pfPrint, record]
      · simp [hwide, hzero, pfPrint, record]
  · have hnone : w - len = 0 := by omega
    simp [hnone, pfPrint, record]

/-- The word that `__pf_getnum` takes from an argument. -/
def magnitude (conv : Byte) (arg : Word) : Word := if argValue conv arg < 0 then -arg else arg

theorem toNat_magnitude (conv : Byte) (arg : Word) : (magnitude conv arg).toNat = (argValue conv arg).natAbs := by
  have harg := arg.isLt
  unfold magnitude argValue
  by_cases hd : conv = chr 'd'
  · simp only [if_pos hd, BitVec.toInt_eq_toNat_cond]
    split
    · rw [if_neg (by omega)]
      omega
    · rw [if_pos (by omega), BitVec.toNat_neg, Nat.mod_eq_of_lt (by omega)]
      omega
  · simp only [if_neg hd]
    rw [if_neg (by omega), Int.natAbs_natCast]

theorem pfGetnum_eq {σ : Type} (args : Nat → Word) (pf : PF σ) (conv : Byte) :
    pfGetnum args pf conv =
      { pf.vaArg with
        num := magnitude conv (args pf.ap)
        sign := pf.sign || decide (argValue conv (args pf.ap) < 0) } := by
  unfold pfGetnum magnitude argValue
  by_cases hd : conv = chr 'd'
  · subst hd
    by_cases hneg : (args pf.ap).toInt < 0
    · simp +decide [hneg]
    · simp +decide [hneg, PF.vaArg]
  · have hpos : ¬((args pf.ap).toNat : Int) < 0 := by omega
    simp [hd, hpos, PF.vaArg]

theorem pfSetbase_eq {σ : Type} (pf : PF σ) {conv : Byte} (hconv : conv ∈ intTypes) :
    pfSetbase pf conv =
      { pf with
        base := baseOf conv
        basePrefix := pf.basePrefix || pf.altformat || decide (conv = chr 'p') } := by
  have hbase : (if conv = chr 'd' ∨ conv = chr 'u' then 10 else if conv = chr 'x' ∨ conv = chr 'p' then 16
      else if conv = chr 'o' then 8 else pf.base) = baseOf conv := by
    have hcases : conv = chr 'd' ∨ conv = chr 'o' ∨ conv = chr 'u' ∨ conv = chr 'p' ∨ conv = chr 'x' := by
      simpa [intTypes] using hconv
    obtain rfl | rfl | rfl | rfl | rfl := hcases <;> simp +decide [baseOf]
  unfold pfSetbase
  simp only [hbase]
  cases pf.altformat <;> by_cases hp : conv = chr 'p' <;> simp [hp]

theorem le_baseOf (conv : Byte) : 8 ≤ baseOf conv ∧ baseOf conv ≤ 16 := by
  unfold baseOf
  split_ifs <;> omega

theorem length_natural (mods : List Byte) (conv : Byte) (arg : Word) :
    (signText conv arg).length + (prefixText mods conv).length + (numeralText conv arg).length ≤ 14 := by
  have hsign : (signText conv arg).length ≤ 1 := by
    unfold signText
    split <;> simp
  have hpre : (prefixText mods conv).length ≤ 2 := by
    unfold prefixText
    split_ifs <;> simp
  have hroom : (argValue conv arg).natAbs < baseOf conv ^ 11 := by
    rw [← toNat_magnitude]
    calc (magnitude conv arg).toNat < 2 ^ 32 := (magnitude conv arg).isLt
      _ ≤ 8 ^ 11 := by decide
      _ ≤ baseOf conv ^ 11 := Nat.pow_le_pow_left (le_baseOf conv).1 _
  have hnumeral : (numeralText conv arg).length ≤ 11 := by
    rw [numeralText, List.length_map]
    exact length_numeral_le (by have := (le_baseOf conv).1; omega) (by decide) hroom
  omega

theorem pfPrintnum_record {pf : PF (List Byte)} {w : Nat} (hw : w < 2 ^ 31) (hspacing : pf.spacing = BitVec.ofNat 32 w)
    {mods : List Byte} {conv : Byte} {arg : Word} (hbase : pf.base = baseOf conv) (hnum : pf.num = magnitude conv arg)
    (hsign : pf.sign = decide (argValue conv arg < 0))
    (hpre : pf.basePrefix = (decide (chr '#' ∈ mods) || decide (conv = chr 'p'))) :
    ∃ pf', pfPrintnum record pf = .ok pf' ∧
      pf'.clientdata = pf.clientdata ++
        padded w pf.rightspc pf.fillchar (signText conv arg) (prefixText mods conv) (numeralText conv arg) := by
  have hdigits := digitLoop_number (le_baseOf conv).1 pf.num
  have hspre : (if pf.sign then bytes "-" else []) = signText conv arg := by
    simp only [hsign, signText, decide_eq_true_eq]
    rfl
  have hbpre : (if pf.basePrefix && pf.base == 16 then bytes "0x"
      else if pf.basePrefix && pf.base == 8 then bytes "0" else []) = prefixText mods conv := by
    simp only [hpre, hbase, prefixText, Bool.and_eq_true, Bool.or_eq_true, decide_eq_true_eq, beq_iff_eq]
    split_ifs <;> first | rfl | simp_all
  rw [← hbase] at hdigits
  rw [pfPrintnum, hdigits, hspre, hbpre, hnum, toNat_magnitude, hbase]
  refine ⟨_, rfl, ?_⟩
  exact pfPrintstuff_record pf hw hspacing _ _ _ ((length_natural mods conv arg).trans_lt (by decide))

theorem sendInt_record (args : Nat → Word) {pf : PF (List Byte)} (hidle : pf.Idle) {mods : List Byte} (hwidth : width mods < 2 ^ 31)
    {conv : Byte} (hconv : conv ∈ intTypes) :
    ∃ pf', sendInt record args (modified pf mods) conv = .ok pf' ∧ pf'.clientdata = pf.clientdata ++
        padded (width mods) (decide (chr '-' ∈ mods)) (if ZeroFill mods then chr '0' else chr ' ')
          (signText conv (args pf.ap)) (prefixText mods conv) (numeralText conv (args pf.ap)) := by
  have hsign : pf.sign = false := (congrArg PF.sign hidle).symm
  have hpre : pf.basePrefix = false := (congrArg PF.basePrefix hidle).symm
  have hg := pfGetnum_eq args (modified pf mods) conv
  have hq := pfSetbase_eq (pfGetnum args (modified pf mods) conv) hconv
  rw [sendInt]
  generalize pfGetnum args (modified pf mods) conv = g at hg hq
  generalize pfSetbase g conv = q at hq
  have hspacing : q.spacing = BitVec.ofNat 32 (width mods) := by rw [hq, hg]; rfl
  have hqsign : q.sign = decide (argValue conv (args pf.ap) < 0) := by
    rw [hq, hg]
    simp [modified, hsign]
  have hqpre : q.basePrefix = (decide (chr '#' ∈ mods) || decide (conv = chr 'p')) := by
    rw [hq, hg]
    simp [modified, PF.vaArg, hpre]
  obtain ⟨pf', h, htext⟩ := pfPrintnum_record hwidth hspacing (by rw [hq]) (by rw [hq, hg]; rfl) hqsign hqpre
  rw [h]
  refine ⟨pfEndfield pf', rfl, ?_⟩
  rw [show (pfEndfield pf').clientdata = pf'.clientdata from rfl, htext, hq, hg]
  rfl

end Text

/-! ## Between fields -/

section Tidy

variable {σ : Type} {send : σ → List Byte → σ} {args : Nat → Word} {str : Word → List Byte}

/-- Outside of a field, nothing is left of the last one. -/
def PF.Tidy (pf : PF σ) : Prop := pf.inPct = false → pf.Idle

theorem pfEndfield_tidy (pf : PF σ) : (pfEndfield pf).Tidy := fun _ => rfl

theorem pfModifier_inPct {pf pf' : PF σ} (h : pfModifier pf ch = .ok pf') : pf'.inPct = pf.inPct := by
  unfold pfModifier at h
  split_ifs at h
  case pos => cases h; rfl
  case pos => cases h; rfl
  case pos => cases hsize : pf.size <;> rw [hsize] at h <;> cases h <;> rfl
  all_goals
    cases h
    rfl

theorem pfSend_tidy {pf pf' : PF σ} (hpf : pf.Tidy) (h : pfSend send args str pf ch = .ok pf') :
    pf'.Tidy := by
  unfold pfSend at h
  split_ifs at h with hnul htext hpct hmod hint hstr
  · cases h
    intro hout
    exact congrArg (pfPrint send · [ch]) (hpf hout)
  · cases h
    intro hout
    cases hout
  · intro hout
    rw [pfModifier_inPct h] at hout
    simp [hout] at hpct
  · unfold sendInt at h
    cases hnum : pfPrintnum send (pfSetbase (pfGetnum args pf ch) ch) with
    | error e =>
      rw [hnum] at h
      cases h
    | ok q =>
      rw [hnum] at h
      cases h
      exact pfEndfield_tidy q
  · cases h
    exact pfEndfield_tidy _
  · cases h
    exact pfEndfield_tidy _

theorem pfFormat_tidy {format : List Byte} {pf pf' : PF σ} (hpf : pf.Tidy)
    (h : pfFormat send args str format pf = .ok pf') : pf'.Tidy := by
  induction format generalizing pf with
  | nil => rwa [← Except.ok.inj h]
  | cons ch format ih =>
    rw [pfFormat] at h
    split at h
    · rwa [← Except.ok.inj h]
    · cases hsend : pfSend send args str pf ch with
      | error e =>
        rw [hsend] at h
        cases h
      | ok q =>
        rw [hsend] at h
        exact ih (pfSend_tidy hpf hsend) h

end Tidy

/-! ## Reading it back -/

theorem digitVal_digitChar {d : Nat} (hd : d < 16) : digitVal (digitChar d) = d := by
  have hall : ∀ d < 16, digitVal (digitChar d) = d := by decide
  exact hall d hd

variable {base : Nat}

theorem map_digitVal_numeral (hlow : 1 < base) (hhigh : base ≤ 16) (n : Nat) :
    ((numeral base n).map digitChar).map digitVal = numeral base n := by
  rw [List.map_map]
  refine (List.map_congr_left fun d hd => ?_).trans (List.map_id _)
  exact digitVal_digitChar ((lt_of_mem_numeral hlow hd).trans_le hhigh)

theorem not_digit {c : Byte} (hc : c = chr ' ' ∨ c = chr '-' ∨ c = chr 'x') : digitVal c = 16 := by
  obtain rfl | rfl | rfl := hc <;> decide

variable {t : List Byte}

theorem dropWhile_isSpace (ht : ∀ c ∈ t, isSpace c = false) : t.dropWhile isSpace = t := by
  cases t with
  | nil => rfl
  | cons c t => rw [List.dropWhile_cons, ht c List.mem_cons_self]; rfl

theorem trim_spaces (hne : t ≠ []) (ht : ∀ c ∈ t, isSpace c = false) (i j : Nat) :
    trim (List.replicate i (chr ' ') ++ t ++ List.replicate j (chr ' ')) = t := by
  have hspaces : ∀ n, ∀ c ∈ List.replicate n (chr ' '), isSpace c = true := by
    intro n c hc
    rw [List.eq_of_mem_replicate hc]
    rfl
  have hfront : (t ++ List.replicate j (chr ' ')).dropWhile isSpace = t ++ List.replicate j (chr ' ') := by
    obtain ⟨c, t, rfl⟩ := List.exists_cons_of_ne_nil hne
    rw [List.cons_append, List.dropWhile_cons, ht c List.mem_cons_self]
    rfl
  have hback : t.reverse.dropWhile isSpace = t.reverse :=
    dropWhile_isSpace fun c hc => ht c (List.mem_reverse.1 hc)
  unfold trim
  rw [List.append_assoc, List.dropWhile_append_of_pos (hspaces i), hfront, List.rdropWhile, List.reverse_append,
    List.reverse_replicate, List.dropWhile_append_of_pos (hspaces j), hback, List.reverse_reverse]

theorem unsigned_eq {sgn : List Byte} (hsgn : sgn = [] ∨ sgn = [chr '-']) (ht : chr '-' ∉ t) :
    unsigned (sgn ++ t) = t := by
  obtain rfl | rfl := hsgn
  · have hhead : t.head? ≠ some (chr '-') := fun h => ht (List.mem_of_head? h)
    rw [List.nil_append, unsigned, if_neg hhead]
  · rfl

variable {ds : List Byte}

theorem unprefixed_eq {pfx : List Byte} (hpfx : pfx = [] ∨ base = 16 ∧ pfx = [chr '0', chr 'x'])
    (hds : chr 'x' ∉ ds) : unprefixed base (pfx ++ ds) = ds := by
  obtain rfl | ⟨rfl, rfl⟩ := hpfx
  · have htake : ds.take 2 ≠ [chr '0', chr 'x'] := by
      intro h
      apply hds
      apply List.mem_of_mem_take (i := 2)
      rw [h]
      exact List.mem_cons_of_mem _ List.mem_cons_self
    rw [List.nil_append, unprefixed, if_neg fun h => htake h.2]
  · rfl

theorem readField_eq (hbase : base ≤ 16) {sgn pfx : List Byte} (hsgn : sgn = [] ∨ sgn = [chr '-'])
    (hpfx : pfx = [] ∨ base = 16 ∧ pfx = [chr '0', chr 'x']) (hne : ds ≠ []) (hds : ∀ c ∈ ds, digitVal c < base)
    (i j : Nat) :
    readField base (List.replicate i (chr ' ') ++ (sgn ++ (pfx ++ ds)) ++ List.replicate j (chr ' ')) =
      some (ofNumeral base (ds.map digitVal)) := by
  have hnot : ∀ c, c = chr ' ' ∨ c = chr '-' ∨ c = chr 'x' → c ∉ ds := by
    intro c hc hmem
    have := hds c hmem
    rw [not_digit hc] at this
    omega
  have hspace : ∀ c ∈ sgn ++ (pfx ++ ds), isSpace c = false := by
    have hno : chr ' ' ∉ sgn ++ (pfx ++ ds) := by
      have := hnot (chr ' ') (.inl rfl)
      obtain rfl | rfl := hsgn <;> obtain rfl | ⟨-, rfl⟩ := hpfx <;> simp +decide [this]
    intro c hc
    exact decide_eq_false fun h => hno (h ▸ hc)
  have hminus : chr '-' ∉ pfx ++ ds := by
    have := hnot (chr '-') (.inr (.inl rfl))
    obtain rfl | ⟨-, rfl⟩ := hpfx <;> simp +decide [this]
  unfold readField
  rw [trim_spaces (by simp [hne]) hspace, unsigned_eq hsgn hminus, unprefixed_eq hpfx (hnot _ (.inr (.inr rfl)))]
  exact if_pos ⟨hne, hds⟩

section Field

variable (mods : List Byte) (conv : Byte) (arg : Word)

/-- Whatever the digits are, the sign and the prefix do not matter. -/
theorem readField_natural (hne : ds ≠ []) (hds : ∀ c ∈ ds, digitVal c < baseOf conv) (i j : Nat) :
    readField (baseOf conv) (List.replicate i (chr ' ') ++ (signText conv arg ++ (prefixText mods conv ++ ds)) ++
      List.replicate j (chr ' ')) = some (ofNumeral (baseOf conv) (ds.map digitVal)) := by
  have hbase := le_baseOf conv
  have hsgn : signText conv arg = [] ∨ signText conv arg = [chr '-'] := by
    unfold signText
    split
    · exact .inr rfl
    · exact .inl rfl
  unfold prefixText
  split_ifs with halt h16 h8
  · exact readField_eq hbase.2 hsgn (.inr ⟨h16, rfl⟩) hne hds i j
  · -- An octal prefix is one more digit.
    have hzero : digitVal (chr '0') = 0 := digitVal_digitChar (d := 0) (by decide)
    have hvalue : ofNumeral (baseOf conv) ((chr '0' :: ds).map digitVal) = ofNumeral (baseOf conv) (ds.map digitVal) := by
      rw [List.map_cons, hzero, ← List.singleton_append, ofNumeral_append, ofNumeral_singleton, Nat.zero_mul, Nat.zero_add]
    rw [← hvalue]
    refine readField_eq hbase.2 hsgn (.inl rfl) (List.cons_ne_nil _ _) ?_ i j
    intro c hc
    obtain rfl | hc := List.mem_cons.1 hc
    · omega
    · exact hds c hc
  · exact readField_eq hbase.2 hsgn (.inl rfl) hne hds i j
  · exact readField_eq hbase.2 hsgn (.inl rfl) hne hds i j

theorem map_digitVal_numeralText :
    (numeralText conv arg).map digitVal = numeral (baseOf conv) (argValue conv arg).natAbs := by
  have hbase := le_baseOf conv
  exact map_digitVal_numeral (by omega) hbase.2 _

theorem digitVal_lt_of_mem_numeralText {c : Byte} (hc : c ∈ numeralText conv arg) : digitVal c < baseOf conv := by
  have hbase := le_baseOf conv
  have hmem : digitVal c ∈ numeral (baseOf conv) (argValue conv arg).natAbs := by
    rw [← map_digitVal_numeralText]
    exact List.mem_map_of_mem hc
  exact lt_of_mem_numeral (by omega) hmem

theorem length_padded (w : Nat) (right : Bool) (fill : Byte) (pre pre2 stuff : List Byte) :
    (padded w right fill pre pre2 stuff).length = max w (pre ++ pre2 ++ stuff).length := by
  unfold padded
  split_ifs <;> simp only [List.length_append, List.length_replicate] <;> omega

/-- Zeros count behind a numeral, not in front of it. -/
theorem readField_zeros (i k : Nat) :
    readField (baseOf conv) (signText conv arg ++ (prefixText mods conv ++
      (List.replicate i (chr '0') ++ (numeralText conv arg ++ List.replicate k (chr '0'))))) =
      some ((argValue conv arg).natAbs * baseOf conv ^ k) := by
  have hbase := le_baseOf conv
  have hzero : digitVal (chr '0') = 0 := digitVal_digitChar (d := 0) (by decide)
  have hzeros : ∀ n, ∀ c ∈ List.replicate n (chr '0'), digitVal c < baseOf conv := by
    intro n c hc
    rw [List.eq_of_mem_replicate hc]
    omega
  have hds : ∀ c ∈ List.replicate i (chr '0') ++ (numeralText conv arg ++ List.replicate k (chr '0')),
      digitVal c < baseOf conv := by
    intro c hc
    rw [List.mem_append, List.mem_append] at hc
    obtain hc | hc | hc := hc
    · exact hzeros i c hc
    · exact digitVal_lt_of_mem_numeralText conv arg hc
    · exact hzeros k c hc
  have hne : List.replicate i (chr '0') ++ (numeralText conv arg ++ List.replicate k (chr '0')) ≠ [] := by
    simp [numeralText, numeral_ne_nil]
  have hread := readField_natural mods conv arg hne hds 0 0
  simp only [List.map_append, List.map_replicate, hzero, map_digitVal_numeralText, ofNumeral_append,
    ofNumeral_replicate_zero, ofNumeral_numeral, List.length_replicate, Nat.zero_mul, Nat.zero_add, Nat.add_zero] at hread
  simpa using hread

theorem readField_spaces (i j : Nat) : readField (baseOf conv) (List.replicate i (chr ' ') ++
      (signText conv arg ++ (prefixText mods conv ++ numeralText conv arg)) ++ List.replicate j (chr ' ')) =
      some (argValue conv arg).natAbs := by
  have hne : numeralText conv arg ≠ [] := by simp [numeralText, numeral_ne_nil]
  rw [readField_natural mods conv arg hne (fun c hc => digitVal_lt_of_mem_numeralText conv arg hc) i j,
    map_digitVal_numeralText, ofNumeral_numeral]

theorem readField_padded (w : Nat) (right : Bool) :
    readField (baseOf conv) (padded w right (if ZeroFill mods then chr '0' else chr ' ') (signText conv arg)
      (prefixText mods conv) (numeralText conv arg)) = some (argValue conv arg).natAbs ↔
      ¬(right = true ∧ ZeroFill mods ∧ (natural mods conv arg).length < w ∧ argValue conv arg ≠ 0) := by
  have hlen : (natural mods conv arg).length =
      (signText conv arg).length + (prefixText mods conv).length + (numeralText conv arg).length := by
    simp [natural, Nat.add_assoc]
  have hbase := le_baseOf conv
  rw [← Int.natAbs_ne_zero, hlen]
  unfold padded
  generalize (signText conv arg).length + (prefixText mods conv).length + (numeralText conv arg).length = len
  by_cases hzero : ZeroFill mods
  · cases right with
    | true =>
      have hread := readField_zeros mods conv arg 0 (w - len)
      have hpow : baseOf conv ^ (w - len) = 1 ↔ w ≤ len := by
        rw [Nat.pow_eq_one, Nat.sub_eq_zero_iff_le]
        exact or_iff_right (by omega)
      by_cases hn : (argValue conv arg).natAbs = 0
      · simp_all
      · simp_all [Nat.mul_eq_left hn]
    | false =>
      have hread := readField_zeros mods conv arg (w - len) 0
      simpa [hzero] using hread
  · have hspace : chr ' ' ≠ chr '0' := by decide
    cases right with
    | true =>
      have hread := readField_spaces mods conv arg 0 (w - len)
      simpa [hzero, hspace] using hread
    | false =>
      have hread := readField_spaces mods conv arg (w - len) 0
      simpa [hzero, hspace] using hread

end Field

/-- A field is as wide as it has to be, and unless zeros are put behind a number other than zero, it
shows the value of the argument. -/
theorem vprintf_field_iff (args : Nat → Word) (str : Word → List Byte) {before mods : List Byte} {conv : Byte}
    (hbefore : ∀ c ∈ before, c ≠ 0) (hmods : ∀ c ∈ mods, c ∈ modifiers) (hconv : conv ∈ intTypes)
    (hwidth : width mods < 2 ^ 31) {pf : PF (List Byte)}
    (hrun : pfFormat record args str before (pfInit []) = .ok pf) (hout : pf.inPct = false) :
    ∃ pf' field, pfFormat record args str (before ++ chr '%' :: mods ++ [conv]) (pfInit []) = .ok pf' ∧
      pf'.clientdata = pf.clientdata ++ field ∧
      field.length = max (width mods) (natural mods conv (args pf.ap)).length ∧
      (readField (baseOf conv) field = some (argValue conv (args pf.ap)).natAbs ↔
        ¬(chr '-' ∈ mods ∧ ZeroFill mods ∧ (natural mods conv (args pf.ap)).length < width mods ∧
          argValue conv (args pf.ap) ≠ 0)) := by
  have hinit : (pfInit ([] : List Byte)).Tidy := fun _ => rfl
  have hidle : pf.Idle := pfFormat_tidy hinit hrun hout
  have hstart : pfSend record args str pf (chr '%') = .ok (modified pf []) := by
    rw [← hidle]
    simp +decide [pfSend, pfEndfield, modified, width, widthDigits]
    rfl
  have hconvNul : conv ≠ 0 := by
    have hnot : 0 ∉ intTypes := by simp [intTypes, chr]
    rintro rfl
    exact hnot hconv
  have hconvMod : conv ∉ modifiers := by
    have hnot : ∀ c ∈ intTypes, c ∉ modifiers := by simp [intTypes, modifiers, chr]
    exact hnot conv hconv
  obtain ⟨pf', hsend, htext⟩ := sendInt_record args hidle hwidth hconv
  refine ⟨pf', _, ?_, htext, length_padded .., ?_⟩
  · rw [List.append_assoc, pfFormat_append hbefore, hrun]
    change pfFormat record args str (chr '%' :: (mods ++ [conv])) pf = _
    rw [pfFormat, if_neg (by decide), hstart]
    change pfFormat record args str (mods ++ [conv]) (modified pf []) = _
    rw [pfFormat_modified pf hmods [] [conv] hwidth, List.nil_append, pfFormat, if_neg hconvNul,
      pfSend_inPct rfl hconvNul, if_neg hconvMod, if_pos hconv, hsend]
    rfl
  · rw [readField_padded, decide_eq_true_iff]

/-- `%#06x` of 255, after some text. -/
theorem vprintf_field_hex : ∃ pf' field,
      pfFormat record (fun _ => 255) (fun _ => []) (bytes "n=" ++ chr '%' :: bytes "#06" ++ [chr 'x']) (pfInit []) =
        .ok pf' ∧
      pf'.clientdata = bytes "n=" ++ field ∧ field.length = 6 ∧ readField 16 field = some 255 := by
  obtain ⟨pf', field, hrun, htext, hlen, hread⟩ :=
    @vprintf_field_iff (fun _ => 255) (fun _ => []) (bytes "n=") (bytes "#06") (chr 'x') (by decide) (by decide)
      (by decide) (by decide) _ rfl rfl
  exact ⟨pf', field, hrun, htext, hlen.trans (by decide), (hread.2 (by decide)).trans (by decide)⟩

/-- `%-05d` of 42 shows 42000. -/
theorem vprintf_zeros_behind :
    printed (fun _ => 42) (fun _ => []) (bytes "%-05d") = bytes "42000" ∧
      readField 10 (bytes "42000") = some 42000 := by decide

end Os161.Libc
