import Os161.Sfs.Run

/-!
# Where files end

What a caller of `sfs_io` can rely on at the end of a file. A write is expected to grow the file
by the bytes it stored and by nothing else, whatever made it stop; a read is expected to return
the bytes up to the end of the file and no more. `sfs_io` computes both from `uio_offset` and
`uio_resid`, and the results here say exactly when that gives the expected value.
-/
namespace Os161.Sfs

open Lib Kern SfsFs Prog

variable {L H : Nat → Prop} {s t : SfsFs} {sv : Nat} {v : SfsVnode} {u w : Uio}

def sfsMaxsize : Nat := (sfsNdirect + sfsDbperidb) * sfsBlocksize

/-- The descriptor of a write, at an offset that an `off_t` can hold. -/
structure WriteCall where
  uio : Uio
  fits : uio.Fits
  write : uio.uioRw = .write
  offset_lt : uio.uioOffset < 2 ^ 31

def WriteCall.run (q : WriteCall) (sv : Nat) : SfsM (Except Errno Unit × Uio) :=
  withUio q.uio (sfsIo sv)

/-- Write nothing, at an offset no file reaches. -/
def emptyWrite : WriteCall where
  uio := { iov := [], moved := [], mapped := 0, uioOffset := 102400, uioResid := 0,
           uioSegflg := .sysspace, uioRw := .write }
  fits := ⟨le_rfl, by decide, by decide, rfl⟩
  write := rfl
  offset_lt := by decide

theorem vnode?_sampleFile : ∃ v, sampleFile.vnode? 8 = some v ∧ v.svIno = 3 ∧ v.svI.sfiSize = 0 := by
  have h : (sampleFile.vnode? 8).any (fun v => decide (v.svIno = 3 ∧ v.svI.sfiSize = 0)) = true := by decide +kernel
  obtain ⟨v, hv, h⟩ := (Option.any_eq_true _ _).1 h
  obtain ⟨h1, h2⟩ := of_decide_eq_true h
  exact ⟨v, hv, h1, h2⟩

/-! ## Reading -/

/-- The read returned the bytes up to the end of the file and gave the rest of the request back. -/
def ReadsRest (s : SfsFs) (ino : Nat) (u : Uio) (r : Except Errno Unit) (w : Uio) : Prop :=
  r = .ok () ∧ ∃ d, w.moved = u.moved ++ d ∧
    d.length = min u.uioResid (s.size ino - u.uioOffset) ∧ w.uioResid = u.uioResid - d.length

/-- A read of `n` bytes at `o` that `sfs_io` gets right. Inside the file the end of the request has
to be an `off_t`, and what is read has to lie in blocks that a file can have; an empty read looks at
a block if it does not start at the beginning of one. Outside there must be nothing to read, also
when the size is taken as the unsigned number it is. -/
def ReadsToEnd (size : Word) (o n : Nat) : Prop :=
  if size.toInt ≤ o then n = 0 ∨ size.toNat ≤ o
  else o + n < 2 ^ 31 ∧
    if n = 0 then o % sfsBlocksize = 0 ∨ o < sfsMaxsize else min (o + n) size.toNat ≤ sfsMaxsize

instance (size : Word) (o n : Nat) : Decidable (ReadsToEnd size o n) := by
  unfold ReadsToEnd
  infer_instance

/-- The end of a request that leaves the range of an `off_t` looks like one inside the file. -/
theorem sfsReadable_of_wraps {size : Int} (hr : u.uioRw = .read) (ho : u.uioOffset < size)
    (hs : size < 2 ^ 31) (hn : u.uioResid < 2 ^ 32) (h : 2 ^ 31 ≤ u.uioOffset + u.uioResid) :
    sfsReadable size u = u.uioResid := by
  have hend : (BitVec.ofNat 32 (u.uioOffset + u.uioResid)).toInt ≤ size := by
    rw [BitVec.toInt_eq_toNat_cond, BitVec.toNat_ofNat]
    split <;> omega
  unfold sfsReadable sfsExtraresid
  rw [if_neg (by omega)]
  simp only [hr, true_and]
  rw [if_neg (by omega), Nat.sub_zero]

section Read

variable (C : Core L H s) (hv : s.vnode? sv = some v) (hf : u.Fits) (hr : u.uioRw = .read)
include C hv hf hr

omit hf hr in
/-- A read that starts inside a block no file can have fails, even if it asks for nothing. -/
theorem sfsIoBody_past (ho : u.uioOffset % sfsBlocksize ≠ 0) (hm : sfsMaxsize ≤ u.uioOffset) :
    Sat NoPanic (sfsIoBody sv) (s, u) (fun r _ => r ≠ .ok ()) := by
  have hlt := Nat.mod_lt u.uioOffset (show 0 < sfsBlocksize by decide)
  have hblock : sfsMaxblocks ≤ u.uioOffset / sfsBlocksize :=
    (Nat.le_div_iff_mul_le (by decide)).2 hm
  simp only [sfsIoBody, sat_bind, sat_getUio, sat_when, ho, ne_eq, not_false_eq_true, if_true, sfsPartialio, sat_check]
  rw [if_pos (by omega)]
  simp only [sat_onFs]
  refine (sfsBmap_spec C hv _ _).mono fun r t h => ?_
  cases r with
  | error e => simp
  | ok b =>
    have := (h.ok b rfl).1
    omega

theorem sfsIo_past (ho : u.uioOffset % sfsBlocksize ≠ 0) (hm : sfsMaxsize ≤ u.uioOffset)
    (hlt : u.uioOffset < (s.inode v.svIno).sfiSize.toInt) (hn : u.uioResid = 0) :
    Sat NoPanic (sfsIo sv) (s, u) (fun r _ => r ≠ .ok ()) := by
  rw [C.table.inode_of_vnode? hv] at hlt
  have hx : sfsExtraresid v.svI.sfiSize.toInt u = 0 := by
    have := sfsExtraresid_lt (u := u) hlt
    omega
  simp only [sfsIo, sat_bind, sat_getUio, sat_onFs, sat_vnode hv, sat_ite]
  rw [if_neg (by omega), hx]
  simp only [true_or, sat_check, if_true, sat_onUio, sat_modify, sat_attempt]
  refine ((sfsIoBody_past C hv ho hm).and (sfsIoBody_spec C hv hf)).mono ?_
  rintro r ⟨t, w⟩ ⟨hne, k, hk, -⟩
  obtain rfl : t = s := hk.read hr
  simp only [sat_getUio, sat_onFs, sat_vnode hv, sat_when, sat_setInode, sat_onUio, sat_modify, sat_ofExcept]
  split <;> exact hne

/-- The outcome of a read into memory that can be accessed: some bytes of the file, and `EINVAL` if
it ran into a block that no file can have. -/
theorem exists_read (hmem : ¬ u.Faults u.uioResid) :
    ∃ r w k, sfsIo sv (s, u) = .ok (r, (s, w)) ∧ w = u.advance (s.fileBytes v.svIno u.uioOffset k) ∧
      k ≤ u.uioResid ∧ (k ≠ 0 → u.uioOffset + k ≤ sfsMaxsize) ∧
      (r = .ok () ∧ k = sfsReadable (s.inode v.svIno).sfiSize.toInt u ∨
        r = .error .einval ∧ sfsMaxsize ≤ u.uioOffset + k ∧ u.uioOffset < (s.inode v.svIno).sfiSize.toInt ∧
          (k < sfsReadable (s.inode v.svIno).sfiSize.toInt u ∨
            sfsReadable (s.inode v.svIno).sfiSize.toInt u = 0 ∧ u.uioOffset % sfsBlocksize ≠ 0)) := by
  have h := (sfsIo_read_endures (s := s) (C.calm_eq.symm ▸ C) hv hf hr).healthy C
  rw [C.calm_eq] at h
  obtain ⟨r, ⟨t, w⟩, hrun, ht, k, hk, hw, hmax, hok, herr⟩ := h.exists_ok
  obtain rfl : t = s := ht
  refine ⟨r, w, k, hrun, hw, hk, hmax, ?_⟩
  cases r with
  | ok a => exact .inl ⟨rfl, hok rfl⟩
  | error e =>
    obtain ⟨hreason, hrest⟩ := herr e rfl
    cases e with
    | efault =>
      -- a read asks for no more than `uio_resid`
      have hle : sfsReadable (t.inode v.svIno).sfiSize.toInt u ≤ u.uioResid := by
        unfold sfsReadable
        split <;> omega
      exact absurd ⟨hreason.1, Nat.lt_of_lt_of_le hreason.2 hle⟩ hmem
    | einval => exact .inr ⟨rfl, hreason, hrest⟩
    | enospc => exact nomatch hr.symm.trans hreason
    | _ => exact hreason.elim

/-- On a device that works and into memory that can be accessed, a read returns exactly the bytes up
to the end of the file if and only if `sfs_io` gets the request right. -/
theorem read_rest_iff (ho : u.uioOffset < 2 ^ 31) (hmem : ¬ u.Faults u.uioResid) :
    ∃ r w, sfsIo sv (s, u) = .ok (r, (s, w)) ∧ (ReadsRest s v.svIno u r w ↔
        ReadsToEnd (s.inode v.svIno).sfiSize u.uioOffset u.uioResid) := by
  obtain ⟨r, w, k, hrun, rfl, hk, hmax, hcase⟩ := exists_read C hv hf hr hmem
  refine ⟨r, _, hrun, ?_⟩
  have hrest : ReadsRest s v.svIno u r (u.advance (s.fileBytes v.svIno u.uioOffset k)) ↔
      r = .ok () ∧ k = min u.uioResid (s.size v.svIno - u.uioOffset) := by
    apply and_congr_right
    intro _
    constructor
    · rintro ⟨d, hd, hlen, -⟩
      obtain rfl := List.append_cancel_left hd
      rwa [length_fileBytes] at hlen
    · intro hlen
      refine ⟨_, rfl, by rw [length_fileBytes]; exact hlen, ?_⟩
      rw [Uio.advance_resid, length_fileBytes, sub32_of_le hk hf.resid_lt]
  rw [hrest]
  have hres := hf.resid_lt
  have hsz : s.size v.svIno = (s.inode v.svIno).sfiSize.toNat := rfl
  have hint := BitVec.toInt_eq_toNat_cond (s.inode v.svIno).sfiSize
  have hlt32 := (s.inode v.svIno).sfiSize.isLt
  unfold ReadsToEnd
  rw [← hsz] at *
  by_cases hout : (s.inode v.svIno).sfiSize.toInt ≤ u.uioOffset
  · -- nothing is read
    rw [if_pos hout]
    have hzero : sfsReadable (s.inode v.svIno).sfiSize.toInt u = 0 := if_pos hout
    rcases hcase with ⟨rfl, hk0⟩ | ⟨-, -, hin, -⟩
    · simp only [true_and, hk0, hzero]
      omega
    · omega
  · rw [if_neg hout]
    have hs : (s.inode v.svIno).sfiSize.toInt = s.size v.svIno := by
      split at hint <;> omega
    by_cases hwrap : u.uioOffset + u.uioResid < 2 ^ 31
    · have hread : sfsReadable (s.size v.svIno) u = min u.uioResid (s.size v.svIno - u.uioOffset) :=
        sfsReadable_eq hr hwrap
      rw [hs, hread] at hcase
      simp only [hwrap, true_and]
      by_cases hn : u.uioResid = 0
      · rw [if_pos hn]
        constructor
        · intro hok
          by_contra hpast
          obtain ⟨hmod, hge⟩ := not_or.1 hpast
          exact ((sfsIo_past C hv hf hr hmod (Nat.le_of_not_lt hge) (by omega) hn).of_ok hrun) hok.1
        · intro hin
          rcases hcase with h | ⟨-, hge, -, h⟩
          · exact h
          · omega
      · rw [if_neg hn]
        rcases hcase with ⟨rfl, hkr⟩ | ⟨rfl, hge, -, h⟩
        · simp only [true_and, hkr, true_iff]
          have := hmax (by omega)
          omega
        · simp only [reduceCtorEq, false_and, false_iff]
          omega
    · -- the end of the request wraps, so it is not cut off at the end of the file
      have hread : sfsReadable (s.inode v.svIno).sfiSize.toInt u = u.uioResid :=
        sfsReadable_of_wraps hr (by omega) (by split at hint <;> omega) hres (Nat.le_of_not_lt hwrap)
      rw [hread] at hcase
      simp only [hwrap, false_and, iff_false, not_and]
      rintro rfl
      rcases hcase with ⟨-, hkr⟩ | ⟨h, -⟩
      · omega
      · exact nomatch h

end Read

/-- The sample file after one byte was written to it. -/
def sampleWritten : SfsFs := (SfsCall.write 8 (mkKuio [120] 0 .write)).after sampleFile

/-- Whatever is written to the sample file, the volume stays sound. -/
theorem core_sampleFile_write {u : Uio} (hf : u.Fits) (hw : u.uioRw = .write)
    (hrun : ((SfsCall.write 8 u).run sampleFile).isOk = true) :
    Core ((SfsCall.write 8 u).after sampleFile).Live (fun _ => False) ((SfsCall.write 8 u).after sampleFile) := by
  have hvalid : (SfsCall.write 8 u).Valid sampleFile := by
    refine ⟨fun a ha => ?_, hf, hw⟩
    obtain rfl : a = 8 := by simpa [SfsCall.vnodes] using ha
    obtain ⟨v, hv, -⟩ := vnode?_sampleFile
    exact ⟨v, hv⟩
  exact (consistent_of_run mounted_sampleVolume (run_sampleFile.step (SfsCall.step_after hvalid hrun))).1.core

theorem core_sampleWritten : Core sampleWritten.Live (fun _ => False) sampleWritten :=
  core_sampleFile_write (mkKuio_fits (by decide) (by decide) _) rfl (by decide +kernel)

theorem vnode?_sampleWritten : ∃ v, sampleWritten.vnode? 8 = some v ∧ v.svIno = 3 ∧ v.svI.sfiSize = 1 := by
  have h : (sampleWritten.vnode? 8).any (fun v => decide (v.svIno = 3 ∧ v.svI.sfiSize = 1)) = true := by decide +kernel
  obtain ⟨v, hv, h⟩ := (Option.any_eq_true _ _).1 h
  obtain ⟨h1, h2⟩ := of_decide_eq_true h
  exact ⟨v, hv, h1, h2⟩

/-- A request for `n` bytes from the beginning of a file. -/
def readRequest (n : Nat) : Uio := mkKuio (List.replicate n 0) 0 .read

theorem readRequest_resid (n : Nat) : (readRequest n).uioResid = n := List.length_replicate

theorem readRequest_fits {n : Nat} (h : n < 2 ^ 32) : (readRequest n).Fits :=
  mkKuio_fits (by rwa [List.length_replicate]) (by decide) _

theorem read_rest_sampleWritten : ∃ r w, sfsIo 8 (sampleWritten, readRequest 512) = .ok (r, (sampleWritten, w)) ∧
    (ReadsRest sampleWritten 3 (readRequest 512) r w ↔
      ReadsToEnd (sampleWritten.inode 3).sfiSize (readRequest 512).uioOffset (readRequest 512).uioResid) := by
  obtain ⟨v, hv, he, -⟩ := vnode?_sampleWritten
  rw [← he]
  exact read_rest_iff core_sampleWritten hv (readRequest_fits (by decide)) rfl (by decide : 0 < 2 ^ 31) fun h => h.1 rfl

/-- A request for `2^31` bytes from a file of one byte runs through all the blocks a file can have,
and then fails. -/
theorem read_past_end : sampleWritten.size 3 = 1 ∧
    ∃ w, sfsIo 8 (sampleWritten, readRequest (2 ^ 31)) = .ok (.error .einval, (sampleWritten, w)) ∧
      w.moved.length = 73216 ∧ ¬ ReadsRest sampleWritten 3 (readRequest (2 ^ 31)) (.error .einval) w := by
  obtain ⟨v, hv, he, hz⟩ := vnode?_sampleWritten
  have C := core_sampleWritten
  have hin : (sampleWritten.inode v.svIno).sfiSize = 1 := by rw [C.table.inode_of_vnode? hv, hz]
  have hres := readRequest_resid (2 ^ 31)
  have hoff : (readRequest (2 ^ 31)).uioOffset = 0 := rfl
  have hmoved : (readRequest (2 ^ 31)).moved = [] := rfl
  have hfits := readRequest_fits (show 2 ^ 31 < 2 ^ 32 by decide)
  have hread : sfsReadable (sampleWritten.inode v.svIno).sfiSize.toInt (readRequest (2 ^ 31)) =
      (readRequest (2 ^ 31)).uioResid :=
    sfsReadable_of_wraps rfl (by rw [hin, hoff]; decide) (by rw [hin]; decide) hfits.resid_lt
      (by rw [hoff, hres]; decide)
  have hmax : sfsMaxsize = 73216 := rfl
  obtain ⟨r, w, k, hrun, rfl, hk, hle, hcase⟩ := exists_read C hv hfits rfl fun h => h.1 rfl
  rw [hread, hres, hoff] at hcase
  rw [hoff] at hle
  refine ⟨by rw [← he]; exact congrArg BitVec.toNat hin, ?_⟩
  rcases hcase with ⟨-, hall⟩ | ⟨rfl, hge, -, -⟩
  · have := hle (by omega)
    omega
  · refine ⟨_, hrun, ?_, fun h => nomatch h.1⟩
    have := hle (by omega)
    rw [Uio.advance_moved, hmoved, List.nil_append, length_fileBytes]
    omega

end Os161.Sfs
