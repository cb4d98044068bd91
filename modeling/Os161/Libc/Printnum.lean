import Os161.Libc.Field

/-!
# The number buffer

`__pf_printnum` stores the digits of a number from right to left in a buffer of `NUMBER_BUF_SIZE`
characters. `digitLoop` keeps the text that it stores and the number of slots in front of it; here
is the loop with the buffer and the pointer. The size is the one for a word of `w` bits, for every
`w`.
-/
namespace Os161.Libc

open Lib

/-- The `do` loop with its buffer. The pointer is `buf + x`, and one slot in front of the buffer
when there are no more slots; the result is the pointer after the last `x++`. -/
def storeLoop (base : Nat) : Nat → Nat → List Byte → Except PfPanic (List Byte × Nat)
  | 0, _, _ => throw .bufferOverrun
  | x + 1, xnum, buf =>
    let buf := buf.set x (digits.getD (xnum % base) 0)
    if 0 < xnum / base then storeLoop base x (xnum / base) buf else pure (buf, x)

/-- The conversion of `num` in a buffer with any contents. -/
def printnumBuf (base num : Nat) (buf : List Byte) : Except PfPanic (List Byte × Nat) :=
  let x := buf.length - 1
  storeLoop base x num (buf.set x 0)

/-- A text of digits of the base, without a zero in front of others, that has the value `n`. -/
structure IsNumeral (base n : Nat) (text : List Byte) : Prop where
  nonempty : text ≠ []
  digit : ∀ c ∈ text, digitVal c < base
  lead : ∀ rest, text = chr '0' :: rest → rest = []
  value : ofNumeral base (text.map digitVal) = n

/-! ## The buffer and the text -/

/-- The loop stores the text that `digitLoop` makes in front of what is behind the pointer, and
nothing else. -/
theorem storeLoop_eq {base x n : Nat} {buf text text' rest : List Byte} (h : digitLoop base x n text = .ok text')
    (hx : x ≤ buf.length) (hbuf : buf.drop x = text ++ rest) : ∃ buf' x', storeLoop base x n buf = .ok (buf', x') ∧
      buf'.length = buf.length ∧ x' ≤ x ∧ buf'.take x' = buf.take x' ∧ buf'.drop x' = text' ++ rest := by
  induction x generalizing n buf text with
  | zero => exact nomatch h
  | succ x ih =>
    rw [digitLoop] at h
    rw [storeLoop]
    generalize digits.getD (n % base) 0 = c at h ⊢
    have hdrop : (buf.set x c).drop x = c :: text ++ rest := by
      rw [List.drop_eq_getElem_cons (by rw [List.length_set]; exact hx), List.getElem_set_self,
        List.drop_set_of_lt (Nat.lt_succ_self x), hbuf]
      rfl
    have htake (x' : Nat) (hx' : x' ≤ x) : (buf.set x c).take x' = buf.take x' := List.take_set_of_le hx'
    split at h
    · next hmore =>
      rw [if_pos hmore]
      obtain ⟨buf', x', hrun, hlen, hle, htk, hdr⟩ := ih h (by rw [List.length_set]; omega) hdrop
      exact ⟨buf', x', hrun, hlen.trans List.length_set, by omega, htk.trans (htake x' hle), hdr⟩
    · next hmore =>
      rw [if_neg hmore]
      obtain rfl : c :: text = text' := Except.ok.inj h
      exact ⟨_, x, rfl, List.length_set, Nat.le_succ x, htake x le_rfl, hdrop⟩

/-! ## The text -/

theorem isNumeral_numeral {base : Nat} (hlow : 1 < base) (hhigh : base ≤ 16) (n : Nat) :
    IsNumeral base n ((numeral base n).map digitChar) := by
  have hval := map_digitVal_numeral hlow hhigh n
  constructor
  · intro hnil
    exact numeral_ne_nil base n (List.map_eq_nil_iff.1 hnil)
  · intro c hc
    have hmem : digitVal c ∈ numeral base n := by
      rw [← hval]
      exact List.mem_map_of_mem hc
    exact lt_of_mem_numeral hlow hmem
  · intro rest hrest
    have hzero : digitVal (chr '0') = 0 := digitVal_digitChar (d := 0) (by decide)
    rw [hrest, List.map_cons, hzero] at hval
    exact List.map_eq_nil_iff.1 (eq_nil_of_numeral_eq_zero_cons hval.symm)
  · rw [hval, ofNumeral_numeral]

/-- The size of the buffer leaves room for every number of `w` bits. -/
theorem lt_pow_slots {w n base : Nat} (hn : n < 2 ^ w) (hbase : 8 ≤ base) : n < base ^ (w / 3 + 1) := by
  calc n < 2 ^ w := hn
    _ ≤ 2 ^ (3 * (w / 3 + 1)) := Nat.pow_le_pow_right (by decide) (by omega)
    _ = 8 ^ (w / 3 + 1) := Nat.pow_mul 2 3 _
    _ ≤ base ^ (w / 3 + 1) := Nat.pow_le_pow_left hbase _

/-- The negation of the most negative number is the word itself, and that is its magnitude. -/
theorem sendInt_intMin (args : Nat → Word) {pf : PF (List Byte)} (hidle : pf.Idle)
    (harg : args pf.ap = BitVec.intMin 32) :
    ∃ pf', sendInt record args (modified pf []) (chr 'd') = .ok pf' ∧
      pf'.clientdata = pf.clientdata ++ (bytes "-" ++ bytes "2147483648") := by
  have hwidth : width [] < 2 ^ 31 := by decide
  have hconv : chr 'd' ∈ intTypes := by decide
  have hten : 8 ≤ 10 := by decide
  obtain ⟨pf', hrun, htext⟩ := sendInt_record args hidle hwidth hconv
  have hdigits := digitLoop_number hten (BitVec.intMin 32)
  have hnum : numeralText (chr 'd') (BitVec.intMin 32) = bytes "2147483648" := Except.ok.inj (hdigits.symm.trans (by decide))
  refine ⟨pf', hrun, ?_⟩
  rw [htext, harg, hnum]
  rfl

/-- A number of `w` bits fits into the buffer with its NUL, in each base. What is in front of the
text is as before. The most negative `int` is no exception, although its negation wraps. -/
theorem printnum_faithful {w n base : Nat} (hn : n < 2 ^ w) (hbase : base ∈ [8, 10, 16]) {buf : List Byte}
    (hbuf : buf.length = w / 3 + 2) :
    (∃ buf' x text, printnumBuf base n buf = .ok (buf', x) ∧ buf'.length = buf.length ∧
      buf'.take x = buf.take x ∧ buf'.drop x = text ++ [0] ∧ IsNumeral base n text ∧
      digitLoop base (buf.length - 1) n [] = .ok text) ∧
    ∀ (args : Nat → Word) (pf : PF (List Byte)), pf.Idle → args pf.ap = BitVec.intMin 32 →
      ((pfGetnum args pf (chr 'd')).sign ∧ (pfGetnum args pf (chr 'd')).num.toNat = 2 ^ 31) ∧
      ∃ pf', sendInt record args (modified pf []) (chr 'd') = .ok pf' ∧
        pf'.clientdata = pf.clientdata ++ (bytes "-" ++ bytes "2147483648") := by
  constructor
  · have hrange : 8 ≤ base ∧ base ≤ 16 := by
      simp only [List.mem_cons, List.not_mem_nil, or_false] at hbase
      omega
    have hslots : buf.length - 1 = w / 3 + 1 := by omega
    have htext := digitLoop_eq (by omega) (Nat.succ_pos (w / 3)) (lt_pow_slots hn hrange.1) []
    rw [List.append_nil, ← Nat.add_one, ← hslots] at htext
    have hnul : (buf.set (buf.length - 1) 0).drop (buf.length - 1) = [] ++ [0] := by
      rw [List.drop_eq_getElem_cons (by rw [List.length_set]; omega), List.getElem_set_self,
        List.drop_of_length_le (by rw [List.length_set]; omega)]
      rfl
    obtain ⟨buf', x, hrun, hlen, hx, htake, hdrop⟩ := storeLoop_eq htext (by rw [List.length_set]; omega) hnul
    refine ⟨buf', x, _, hrun, hlen.trans List.length_set, htake.trans (List.take_set_of_le hx), hdrop, ?_, htext⟩
    exact isNumeral_numeral (by omega) hrange.2 n
  · intro args pf hidle harg
    have hnum : (magnitude (chr 'd') (BitVec.intMin 32)).toNat = 2 ^ 31 := by decide
    rw [pfGetnum_eq, harg]
    refine ⟨⟨?_, hnum⟩, sendInt_intMin args hidle harg⟩
    exact (Bool.or_eq_true _ _).mpr (.inr (by decide))

/-- The largest word in octal takes all of the buffer. -/
theorem printnum_faithful_octal : numberBufSize = 32 / 3 + 2 ∧ 2 ^ 32 - 1 < 2 ^ 32 ∧
    ∃ buf' x text, printnumBuf 8 (2 ^ 32 - 1) (List.replicate 12 0) = .ok (buf', x) ∧ buf'.length = 12 ∧
      buf'.take x = (List.replicate 12 0).take x ∧ buf'.drop x = text ++ [0] ∧ IsNumeral 8 (2 ^ 32 - 1) text ∧
      digitLoop 8 11 (2 ^ 32 - 1) [] = .ok text := by
  have hn : 2 ^ 32 - 1 < 2 ^ 32 := by decide
  have hbuf : (List.replicate 12 (0 : Byte)).length = 32 / 3 + 2 := rfl
  exact ⟨rfl, hn, (printnum_faithful hn (by decide) hbuf).1⟩

end Os161.Libc
