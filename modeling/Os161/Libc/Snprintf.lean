import Os161.Lib.Memory
import Os161.Libc.Printf

/-!
# Printing to a buffer

`vsnprintf` of `lib/libc/snprintf.c`. Its send function stores characters as long as there is room
and drops the others, so how the output is cut into pieces does not matter to it
(`snprintfSend_append`) and the buffer ends up with the front of the text.
-/
namespace Os161.Libc

open Lib

/-- The context, with the memory that `buf` points into. -/
structure SNP where
  mem : Word → Byte
  buf : Word
  buflen : Word
  bufpos : Word

def snprintfChar (snp : SNP) (c : Byte) : SNP :=
  if snp.bufpos < snp.buflen then
    { snp with mem := storeCells snp.mem (snp.buf + snp.bufpos) [c], bufpos := snp.bufpos + 1 }
  else snp

def snprintfSend (snp : SNP) (data : List Byte) : SNP := data.foldl snprintfChar snp

section Model

variable (args : Nat → Word) (str : Word → List Byte)

/-- The memory afterwards, and the number of characters. -/
def vsnprintf (mem : Word → Byte) (buf len : Word) (fmt : List Byte) : Except PfPanic ((Word → Byte) × Int) := do
  let buflen := if len = 0 then 0 else len - 1
  let (snp, chars) ← vprintf snprintfSend args str { mem, buf, buflen, bufpos := 0 } fmt
  let mem := if 0 < len then storeCells snp.mem (buf + snp.bufpos) [0] else snp.mem
  pure (mem, chars)

end Model

theorem snprintfSend_append (snp : SNP) (t t' : List Byte) :
    snprintfSend (snprintfSend snp t) t' = snprintfSend snp (t ++ t') := (List.foldl_append).symm

/-- Characters are stored up to the limit. -/
theorem snprintfSend_eq (mem : Word → Byte) (buf buflen : Word) (t : List Byte) :
    snprintfSend { mem, buf, buflen, bufpos := 0 } t =
      { mem := storeCells mem buf (t.take buflen.toNat), buf, buflen,
        bufpos := BitVec.ofNat 32 (t.take buflen.toNat).length } := by
  induction t using List.reverseRecOn with
  | nil => simp [snprintfSend]
  | append_singleton t c ih =>
    have hlen : buflen.toNat < 2 ^ 32 := buflen.isLt
    rw [← snprintfSend_append, ih]
    change snprintfChar _ c = _
    unfold snprintfChar
    by_cases hroom : t.length < buflen.toNat
    · -- All of the text is stored so far.
      have htake : t.take buflen.toNat = t := List.take_of_length_le hroom.le
      have htake' : (t ++ [c]).take buflen.toNat = t ++ [c] := List.take_of_length_le (by simpa using hroom)
      have hpos : BitVec.ofNat 32 t.length < buflen := by
        rw [BitVec.lt_def, BitVec.toNat_ofNat, Nat.mod_eq_of_lt (hroom.trans hlen)]
        exact hroom
      rw [htake, htake', if_pos hpos, storeCells_append _ _ _ _ (by simp only [List.length_singleton]; omega)]
      simp [BitVec.ofNat_add]
    · have htake : (t ++ [c]).take buflen.toNat = t.take buflen.toNat := List.take_append_of_le_length (by omega)
      have hpos : ¬BitVec.ofNat 32 (t.take buflen.toNat).length < buflen := by
        rw [List.length_take, Nat.min_eq_left (by omega), BitVec.ofNat_toNat, BitVec.setWidth_eq]
        exact BitVec.lt_irrefl buflen
      rw [htake, if_neg hpos]

/-- The client that only adds up the lengths. -/
def count (n : Nat) (txt : List Byte) : Nat := n + txt.length

section Results

variable (args : Nat → Word) (str : Word → List Byte)

theorem vprintf_count (fmt : List Byte) : vprintf count args str 0 fmt =
      .ok ((printed args str fmt).length, (BitVec.ofNat 32 (printed args str fmt).length).toInt) := by
  have happend : ∀ n t t', count (count n t) t' = count n (t ++ t') := by simp [count, Nat.add_assoc]
  rw [vprintf_eq (fun _ => rfl) happend, count, Nat.zero_add]

theorem vsnprintf_eq (mem : Word → Byte) (buf len : Word) (fmt : List Byte) :
    vsnprintf args str mem buf len fmt =
      .ok (if len = 0 then mem else storeCells mem buf ((printed args str fmt).take (len.toNat - 1) ++ [0]),
        (BitVec.ofNat 32 (printed args str fmt).length).toInt) := by
  unfold vsnprintf
  dsimp only
  rw [vprintf_eq (fun _ => rfl) snprintfSend_append, snprintfSend_eq]
  by_cases hlen : len = 0
  · subst hlen
    simp
  · have hnat : len.toNat ≠ 0 := fun h => hlen (BitVec.eq_of_toNat_eq h)
    have hpos : 0 < len := BitVec.lt_def.2 (Nat.pos_of_ne_zero hnat)
    have hbuflen : (len - 1).toNat = len.toNat - 1 := by bv_omega
    have hstore : ((printed args str fmt).take (len.toNat - 1)).length + [(0 : Byte)].length ≤ 2 ^ 32 := by
      have := len.isLt
      rw [List.length_take, List.length_singleton]
      omega
    simp only [if_neg hlen, if_pos hpos, hbuflen]
    rw [← storeCells_append _ _ _ _ hstore]
    rfl

end Results

/-- Printing to a buffer is printing, cut off. -/
theorem vsnprintf_truncates (args : Nat → Word) (str : Word → List Byte) (fmt : List Byte)
    (hfits : (printed args str fmt).length < 2 ^ 31) (mem : Word → Byte) (buf len : Word) :
    vprintf record args str [] fmt = .ok (printed args str fmt, (printed args str fmt).length) ∧
    vprintf count args str 0 fmt = .ok ((printed args str fmt).length, (printed args str fmt).length) ∧
    ∃ mem' : Word → Byte,
      vsnprintf args str mem buf len fmt = .ok (mem', (printed args str fmt).length) ∧
      (len = 0 → mem' = mem) ∧
      (len ≠ 0 → mem' = storeCells mem buf ((printed args str fmt).take (len.toNat - 1) ++ [0])) ∧
      ∀ b, len.toNat ≤ (b - buf).toNat → mem' b = mem b := by
  have htotal : (BitVec.ofNat 32 (printed args str fmt).length).toInt = (printed args str fmt).length := by
    have hmod : (printed args str fmt).length % 2 ^ 32 = (printed args str fmt).length := Nat.mod_eq_of_lt (by omega)
    rw [BitVec.toInt_eq_toNat_of_lt (by rw [BitVec.toNat_ofNat, hmod]; omega), BitVec.toNat_ofNat, hmod]
  have hrecord : vprintf record args str [] fmt = _ := vprintf_eq List.append_nil List.append_assoc [] fmt
  refine ⟨by rw [hrecord, htotal]; rfl, by rw [vprintf_count, htotal], _, by rw [vsnprintf_eq, htotal],
    fun h => if_pos h, fun h => if_neg h, ?_⟩
  intro b hb
  split
  · rfl
  · next hlen =>
    have hpos : len.toNat ≠ 0 := fun h => hlen (BitVec.eq_of_toNat_eq h)
    apply storeCells_of_le
    rw [List.length_append, List.length_take, List.length_singleton]
    omega

/-- `snprintf(buf, 4, "%4d%%", 7)` makes five characters and stores three. -/
theorem vsnprintf_cuts_percent :
    vsnprintf (fun _ => 7) (fun _ => []) (fun _ => 255) 4096 4 (bytes "%4d%%") =
      .ok (storeCells (fun _ => 255) 4096 (bytes "   " ++ [0]), 5) := by
  have hprinted : printed (fun _ => 7) (fun _ => []) (bytes "%4d%%") = bytes "   7%" := by decide
  obtain ⟨-, -, mem', h, -, hmem, -⟩ :=
    vsnprintf_truncates (fun _ => 7) (fun _ => []) (bytes "%4d%%") (by rw [hprinted]; decide) (fun _ => 255) 4096 4
  rw [h, hmem (by decide), hprinted]
  rfl

end Os161.Libc
