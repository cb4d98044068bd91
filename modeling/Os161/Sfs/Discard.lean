import Os161.Sfs.Extent

/-!
# What truncation gives up

`sfs_truncate` is expected to give back the blocks past the new end of a file, all of them and no
others, and to make the bytes there unreadable for good. The two loops over the pointers compare
with different operators, the indirect block is not looked at when the file keeps nearly all its
blocks, and the bytes of the last block past the new end are left as they were. The results here say
for which files the expectations are met.
-/
namespace Os161.Sfs

open Lib Kern SfsFs

variable {L H : Nat → Prop} {s t : SfsFs} {sv ino : Nat} {v : SfsVnode} {len : Word}

def blocksFor (n : Nat) : Nat := (n + sfsBlocksize - 1) / sfsBlocksize

theorem le_blocksFor (n : Nat) : n ≤ blocksFor n * sfsBlocksize := by
  unfold blocksFor sfsBlocksize
  omega

variable {p : Nat}

theorem block_lt_iff {n : Nat} : p / sfsBlocksize < n ↔ p < n * sfsBlocksize :=
  Nat.div_lt_iff_lt_mul (by decide)

theorem block_add {n i : Nat} (hi : i < sfsBlocksize) : (n * sfsBlocksize + i) / sfsBlocksize = n := by
  unfold sfsBlocksize at *
  omega

theorem truncBlocklen_eq (h : len.toNat + sfsBlocksize ≤ 2 ^ 31) : truncBlocklen len = blocksFor len.toNat := by
  have hsize : sfsBlocksize = 512 := rfl
  have hsum : (len + 512 - 1).toNat = len.toNat + 511 := by
    rw [hsize] at h
    bv_omega
  have hpos : (len + 512 - 1).msb = false := by
    rw [BitVec.msb_eq_decide, hsum]
    simp only [decide_eq_false_iff_not]
    omega
  unfold truncBlocklen blocksFor
  rw [BitVec.sdiv_eq, hpos]
  change ((len + 512 - 1).udiv 512).toNat = _
  rw [BitVec.udiv_eq, BitVec.toNat_udiv, hsum, hsize]
  rfl

/-- Near the top of its range the rounding of the length wraps around, and no block is past it. -/
theorem truncBlocklen_ge (h : 2 ^ 31 < len.toNat + sfsBlocksize) (hlen : len.toNat < 2 ^ 31) :
    sfsMaxblocks ≤ truncBlocklen len := by
  have hsize : sfsBlocksize = 512 := rfl
  have hmax : sfsMaxblocks = 143 := rfl
  have hsum : (len + 512 - 1).toNat = len.toNat + 511 := by bv_omega
  have hneg : (len + 512 - 1).msb = true := by
    rw [BitVec.msb_eq_decide, hsum]
    simp only [decide_eq_true_eq]
    omega
  unfold truncBlocklen
  rw [BitVec.sdiv_eq, hneg]
  change _ ≤ (-((-(len + 512 - 1)).udiv 512)).toNat
  rw [BitVec.udiv_eq, BitVec.toNat_neg, BitVec.toNat_udiv, BitVec.toNat_neg, hsum, hmax]
  change 143 ≤ (2 ^ 32 - (2 ^ 32 - (len.toNat + 511)) % 2 ^ 32 / 512) % 2 ^ 32
  omega

theorem exists_truncated (len : Word) (C : Core L H s) (hv : s.vnode? sv = some v) :
    ∃ t, sfsTruncate sv len s = .ok (.ok (), t) ∧ Truncated L H v.svIno len s t ∧
      Drops L (Lost s.ptr v.svIno (truncBlocklen len)) s.ptr t.ptr := by
  obtain ⟨r, t, hrun, rfl, h⟩ := (sfsTruncate_drops len C hv).exists_ok
  exact ⟨t, hrun, h⟩

/-! ## Blocks -/

/-- The blocks from the new end on are unmapped and free, those before it stay, the indirect block
is free exactly if it has no entry left, and the size is the new length. -/
structure Discards (s t : SfsFs) (ino : Nat) (len : Word) : Prop where
  past : ∀ k, blocksFor len.toNat ≤ k → t.ptr (.data ino k) = 0 ∧
    (s.ptr (.data ino k) ≠ 0 → ¬ t.used (s.ptr (.data ino k)))
  before : ∀ k, k < blocksFor len.toNat → t.ptr (.data ino k) = s.ptr (.data ino k)
  indirect : s.ptr (.indirect ino) ≠ 0 →
    (t.ptr (.indirect ino) = 0 ∧ ¬ t.used (s.ptr (.indirect ino)) ↔
      ∀ k, sfsNdirect ≤ k → t.ptr (.data ino k) = 0)
  size : (t.inode ino).sfiSize = len

/-- The first block past the new end is not one that the loop over the indirect block overlooks, and
an indirect block that is not looked at has an entry. -/
structure Separable (s : SfsFs) (ino blocklen : Nat) : Prop where
  boundary : sfsNdirect ≤ blocklen → s.ptr (.data ino blocklen) = 0
  last : sfsNdirect + sfsDbperidb - 1 ≤ blocklen → s.ptr (.indirect ino) ≠ 0 →
    ∃ k, sfsNdirect ≤ k ∧ s.ptr (.data ino k) ≠ 0

section Discard

variable (C : Core L H s) (hl : L ino) (h : Truncated L H ino len s t)
  (hd : Drops L (Lost s.ptr ino (truncBlocklen len)) s.ptr t.ptr)
include C hl h hd

/-- A block of the file is in use after the truncation exactly if it is still mapped. -/
theorem used_after_iff {p : Ptr} (hp : p.ino = ino) (h0 : s.ptr p ≠ 0) : t.used (s.ptr p) ↔ t.ptr p ≠ 0 := by
  have hn : t.nblocks = s.nblocks := congrArg (·.spNblocks.toNat) h.step.static.super
  have ho := h.core.owned
  rw [hn] at ho
  exact hd.used_iff C.owned ho (hp ▸ hl) h0

theorem discards_iff (hlen : len.toNat ≤ sfsMaxsize) :
    Discards s t ino len ↔ Separable s ino (blocksFor len.toNat) := by
  have hused {p : Ptr} := used_after_iff C hl h hd (p := p)
  have hmax : sfsMaxsize + sfsBlocksize ≤ 2 ^ 31 := by decide
  rw [truncBlocklen_eq (by omega)] at hd
  have gone {k : Nat} (hk : Cut (blocksFor len.toNat) k) : t.ptr (.data ino k) = 0 :=
    hd.gone (.data ino k) hl ⟨rfl, hk⟩
  have kept {k : Nat} (hk : ¬ Cut (blocksFor len.toNat) k) :
      t.ptr (.data ino k) = s.ptr (.data ino k) := hd.kept (.data ino k) hl fun hc => hk hc.2
  have not_cut {k : Nat} (hk : sfsNdirect ≤ k) (hle : k ≤ blocksFor len.toNat) : ¬ Cut (blocksFor len.toNat) k := by
    unfold Cut
    rw [if_neg (by omega)]
    omega
  constructor
  · intro D
    refine ⟨fun hn => ?_, fun hn h0 => ?_⟩
    · rw [← kept (not_cut hn le_rfl)]
      exact (D.past _ le_rfl).1
    · by_contra hnone
      have hall (k : Nat) (hk : sfsNdirect ≤ k) : s.ptr (.data ino k) = 0 := by
        by_contra hk0
        exact hnone ⟨k, hk, hk0⟩
      have hgone : t.ptr (.indirect ino) = 0 := by
        refine ((D.indirect h0).2 fun k hk => ?_).1
        by_cases hc : Cut (blocksFor len.toNat) k
        · exact gone hc
        · exact (kept hc).trans (hall k hk)
      apply h0
      rw [← hgone]
      exact (hd.kept (.indirect ino) hl fun hp => by have := hp.2.1; omega).symm
  · intro S
    have past (k : Nat) (hk : blocksFor len.toNat ≤ k) : t.ptr (.data ino k) = 0 := by
      by_cases hc : Cut (blocksFor len.toNat) k
      · exact gone hc
      · -- only the first block past the end can be overlooked
        obtain ⟨hge, rfl⟩ : sfsNdirect ≤ k ∧ k = blocksFor len.toNat := by
          unfold Cut at hc
          split at hc <;> omega
        exact (kept hc).trans (S.boundary hge)
    refine ⟨fun k hk => ⟨past k hk, fun h0 hu => (hused rfl h0).1 hu (past k hk)⟩,
      fun k hk => kept ?_, fun h0 => ?_, h.size⟩
    · unfold Cut
      split <;> omega
    · rw [hused rfl h0, not_not, and_self]
      refine ⟨fun hz k hk => ptr_data_none hk hz, fun hz => ?_⟩
      by_contra hne
      -- an entry that stays would be in the indirect block now
      have hno {k : Nat} (hk : sfsNdirect ≤ k) (hle : k ≤ blocksFor len.toNat) :
          s.ptr (.data ino k) = 0 := (kept (not_cut hk hle)).symm.trans (hz k hk)
      by_cases hn : blocksFor len.toNat < sfsNdirect + sfsDbperidb - 1
      · refine hne (hd.gone (.indirect ino) hl ⟨rfl, hn, fun k hk hk0 => ?_⟩)
        by_contra hle
        exact hk0 (hno hk (by omega))
      · obtain ⟨k, hk, hk0⟩ := S.last (by omega) h0
        have hm : k < sfsMaxblocks := by
          by_contra hm
          exact hk0 (ptr_data_of_le (by omega))
        unfold sfsMaxblocks at hm
        exact hk0 (hno hk (by omega))

end Discard

/-- With block ownership and a device that works, `sfs_truncate` gives up exactly the blocks past
the new end if and only if the file has no block at the boundary that the loops overlook. -/
theorem truncate_discards_iff (C : Core L H s) (hv : s.vnode? sv = some v) (hlen : len.toNat ≤ sfsMaxsize) :
    ∃ t, sfsTruncate sv len s = .ok (.ok (), t) ∧
      (Discards s t v.svIno len ↔ Separable s v.svIno (blocksFor len.toNat)) := by
  obtain ⟨t, hrun, h, hd⟩ := exists_truncated len C hv
  exact ⟨t, hrun, discards_iff C (C.live_of_vnode? hv) h hd hlen⟩

/-- The sample file with one byte in the first block that the indirect block lists. -/
def sampleListed : SfsFs := (SfsCall.write 8 (mkKuio [120] 7680 .write)).after sampleFile

theorem core_sampleListed : Core sampleListed.Live (fun _ => False) sampleListed :=
  core_sampleFile_write (mkKuio_fits (by decide) (by decide) _) rfl (by decide +kernel)

theorem vnode?_sampleListed : ∃ v, sampleListed.vnode? 8 = some v ∧ v.svIno = 3 := by
  have h : (sampleListed.vnode? 8).any (fun v => decide (v.svIno = 3)) = true := by decide +kernel
  obtain ⟨v, hv, h⟩ := (Option.any_eq_true _ _).1 h
  exact ⟨v, hv, of_decide_eq_true h⟩

theorem truncate_sampleListed :
    ∃ t, sfsTruncate 8 100 sampleListed = .ok (.ok (), t) ∧ Discards sampleListed t 3 100 := by
  obtain ⟨v, hv, he⟩ := vnode?_sampleListed
  rw [← he]
  have hlen : (100 : Word).toNat ≤ sfsMaxsize := by decide
  obtain ⟨t, hrun, h⟩ := truncate_discards_iff core_sampleListed hv hlen
  exact ⟨t, hrun, h.2 ⟨fun hn => absurd hn (by decide), fun hn => absurd hn (by decide)⟩⟩

/-- Block 15 is past the end of a file of 15 blocks, and truncation leaves it mapped and in use. -/
theorem truncate_keeps_listed : blocksFor 7680 = 15 ∧
    ∃ t, sfsTruncate 8 7680 sampleListed = .ok (.ok (), t) ∧ t.ptr (.data 3 15) ≠ 0 ∧
      t.used (t.ptr (.data 3 15)) ∧ ¬ Discards sampleListed t 3 7680 := by
  refine ⟨rfl, ?_⟩
  obtain ⟨v, hv, he⟩ := vnode?_sampleListed
  have C := core_sampleListed
  have h0 : sampleListed.ptr (.data 3 15) ≠ 0 := by decide +kernel
  obtain ⟨t, hrun, h, hd⟩ := exists_truncated 7680 C hv
  have hl := C.live_of_vnode? hv
  rw [he] at h hd hl
  have hkept : t.ptr (.data 3 15) = sampleListed.ptr (.data 3 15) :=
    hd.kept (.data 3 15) hl fun hc => absurd hc.2 (by decide)
  have hu := used_after_iff C hl h hd (p := .data 3 15) rfl h0
  rw [← hkept] at h0 hu
  exact ⟨t, hrun, h0, hu.2 h0, fun D => h0 (D.past 15 le_rfl).1⟩

/-! ## Bytes -/

def readAt (p : Nat) : Uio := mkKuio [0] p .read

/-- A read of one byte at `p` returns the byte `b`. -/
def Sees (sv : Nat) (s : SfsFs) (p : Nat) (b : Byte) : Prop :=
  ∃ r t w, sfsIo sv (s, readAt p) = .ok (r, (t, w)) ∧ w.moved = [b]

theorem sees_iff (C : Core L H s) (hv : s.vnode? sv = some v) (p : Nat) (b : Byte) : Sees sv s p b ↔
    p < (s.inode v.svIno).sfiSize.toInt ∧ p < sfsMaxsize ∧ b = s.byte v.svIno p := by
  have hoff : (readAt p).uioOffset = p := rfl
  have hres : (readAt p).uioResid = 1 := rfl
  have hmax : sfsMaxsize < 2 ^ 31 - 1 := by decide
  by_cases hp : p < 2 ^ 32
  case neg =>
    -- no file is as long as that
    have hsize := BitVec.toInt_lt (x := (s.inode v.svIno).sfiSize)
    rw [C.table.inode_of_vnode? hv] at hsize ⊢
    have hrun : Prog.Sat NoPanic (sfsIo sv) (s, readAt p) fun _ q => q.2 = readAt p := by
      simp only [sfsIo, Prog.sat_bind, sat_getUio, sat_onFs, sat_vnode hv, Prog.sat_ite, hoff]
      rw [if_pos ⟨rfl, by omega⟩]
      exact rfl
    refine iff_of_false ?_ fun h => by omega
    rintro ⟨r, t, w, h, hw⟩
    rw [show w = _ from hrun.of_ok h] at hw
    cases hw
  obtain ⟨r, w, k, hrun, rfl, hk, hle, hcase⟩ :=
    exists_read (u := readAt p) C hv (mkKuio_fits (by decide) hp _) rfl fun h => h.1 rfl
  have hmoved : ((readAt p).advance (s.fileBytes v.svIno (readAt p).uioOffset k)).moved = s.fileBytes v.svIno p k := by
    rw [Uio.advance_moved, hoff]
    rfl
  rw [hoff] at hcase hle
  -- one byte comes back if there is one in a block that a file can have
  have hone : k = if p < (s.inode v.svIno).sfiSize.toInt ∧ p < sfsMaxsize then 1 else 0 := by
    split
    · next hin =>
      have hread : sfsReadable (s.inode v.svIno).sfiSize.toInt (readAt p) = 1 := by
        obtain ⟨size, hsize⟩ := Int.eq_ofNat_of_zero_le (a := (s.inode v.svIno).sfiSize.toInt) (by omega)
        rw [hsize] at hin ⊢
        exact (sfsReadable_eq (u := readAt p) rfl (by rw [hoff, hres]; omega)).trans (by rw [hoff, hres]; omega)
      rw [hread] at hcase
      omega
    · next hout =>
      have hread (h : (s.inode v.svIno).sfiSize.toInt ≤ p) :
          sfsReadable (s.inode v.svIno).sfiSize.toInt (readAt p) = 0 := if_pos h
      omega
  constructor
  · rintro ⟨r', t', w', hrun', hb⟩
    have he := hrun.symm.trans hrun'
    simp only [Except.ok.injEq, Prod.mk.injEq] at he
    obtain ⟨-, -, rfl⟩ := he
    rw [hmoved] at hb
    have hk1 : k = 1 := by
      have := congrArg List.length hb
      rwa [length_fileBytes] at this
    subst hk1
    split at hone
    · next hin => exact ⟨hin.1, hin.2, by simpa [fileBytes] using hb.symm⟩
    · cases hone
  · rintro ⟨h1, h2, rfl⟩
    rw [if_pos ⟨h1, h2⟩] at hone
    subst hone
    exact ⟨r, s, _, hrun, hmoved.trans (by simp [fileBytes])⟩

theorem byte_past (hp : sfsMaxsize ≤ p) : s.byte ino p = 0 := by
  have hk : sfsMaxblocks ≤ p / sfsBlocksize := (Nat.le_div_iff_mul_le (by decide)).2 hp
  simp [SfsFs.byte, block, ptr_data_of_le hk]

/-- The write puts a byte at `p`. -/
def WriteCall.Covers (q : WriteCall) (p : Nat) : Prop :=
  q.uio.uioOffset ≤ p ∧ p < q.uio.uioOffset + q.uio.uioResid

instance (q : WriteCall) (p : Nat) : Decidable (q.Covers p) := by
  unfold WriteCall.Covers
  infer_instance

/-- A write at `m` or after it that succeeds. -/
def LaterWrite (sv m : Nat) (s : SfsFs) (q : WriteCall) (t : SfsFs) : Prop :=
  m ≤ q.uio.uioOffset ∧ ∃ w, q.run sv s = .ok (.ok (.ok (), w), t)

variable {m : Nat} {q : WriteCall}

theorem LaterWrite.wrote (h : LaterWrite sv m s q t) (C : Core L H s)
    (hv : s.vnode? sv = some v) : ∃ w, Wrote L H v.svIno s q.uio q.uio.uioResid t w := by
  obtain ⟨w, hrun⟩ := h.2
  obtain ⟨r, ⟨t', w'⟩, hio, k, hw, hok, -⟩ := (sfsIo_write_spec C hv q.fits q.write).exists_ok
  unfold WriteCall.run withUio at hrun
  rw [hio] at hrun
  simp only [Except.ok.injEq, Prod.mk.injEq] at hrun
  obtain ⟨⟨rfl, rfl⟩, rfl⟩ := hrun
  obtain rfl := hok rfl
  exact ⟨_, hw⟩

/-- A write never makes a file larger than an `off_t` can say. -/
theorem Wrote.size_lt {k : Nat} {w : Uio} (h : Wrote L H ino s q.uio k t w)
    (hs : s.size ino < 2 ^ 31) : t.size ino < 2 ^ 31 := by
  have hmax : sfsMaxblocks * sfsBlocksize < 2 ^ 31 := by decide
  have hend : q.uio.uioOffset + k < 2 ^ 31 := by
    by_cases hk : k = 0
    · have := q.offset_lt
      omega
    · exact Nat.lt_of_le_of_lt (h.fits_file hk) hmax
  unfold SfsFs.size at hs ⊢
  rw [h.size]
  split
  · rw [BitVec.toNat_ofNat]
    omega
  · exact hs

/-- After later writes the bytes are as they were, except where one of the writes put something. -/
theorem later_writes (C : Core L H s) (hv : s.vnode? sv = some v) (hs : s.size v.svIno < 2 ^ 31)
    {tr : List WriteCall} (hrun : Run (LaterWrite sv m) s tr t) :
    Core L H t ∧ (∃ v', t.vnode? sv = some v' ∧ v'.svIno = v.svIno) ∧ t.size v.svIno < 2 ^ 31 ∧
      ∀ p, (∀ q ∈ tr, ¬ q.Covers p) → t.byte v.svIno p = s.byte v.svIno p := by
  induction hrun with
  | start => exact ⟨C, ⟨v, hv, rfl⟩, hs, fun _ _ => rfl⟩
  | step _ hstep ih =>
    obtain ⟨D, ⟨v', hv', he⟩, hlt, hbyte⟩ := ih
    obtain ⟨w, hw⟩ := hstep.wrote D hv'
    rw [he] at hw
    obtain ⟨i, d, hv''⟩ := hw.step.vnode? hv'
    refine ⟨hw.core, ⟨_, hv'', he⟩, hw.size_lt hlt, fun p hp => ?_⟩
    rw [hw.byte]
    exact (if_neg (hp _ List.mem_cons_self)).trans (hbyte p fun q hq => hp q (List.mem_cons_of_mem _ hq))

/-- Nothing that was past `m` can be read again: after any writes at `m` or later that succeed, a
position past `m` that none of them wrote reads as zero. -/
def Erased (sv ino m : Nat) (s : SfsFs) : Prop :=
  ∀ tr t, Run (LaterWrite sv m) s tr t → ∀ p, m ≤ p → p < t.size ino → (∀ q ∈ tr, ¬ q.Covers p) →
    ∀ b, Sees sv t p b ↔ p < sfsMaxsize ∧ b = 0

theorem toInt_size (h : s.size ino < 2 ^ 31) : (s.inode ino).sfiSize.toInt = s.size ino := by
  unfold SfsFs.size at h ⊢
  rw [BitVec.toInt_eq_toNat_cond, if_pos (by omega)]

/-- An empty write at the beginning of a block succeeds wherever the block is. -/
theorem exists_emptyWrite (C : Core L H s) (hv : s.vnode? sv = some v) (hm : m ≤ 102400) :
    ∃ t, LaterWrite sv m s emptyWrite t := by
  obtain ⟨r, ⟨t, w⟩, hio, k, hw, -, herr⟩ :=
    (sfsIo_write_spec C hv emptyWrite.fits emptyWrite.write).exists_ok
  refine ⟨t, hm, w, ?_⟩
  unfold WriteCall.run withUio
  rw [hio]
  cases r with
  | ok a => rfl
  | error e =>
    rcases (herr e rfl).short with hk | ⟨-, hoff⟩
    · exact absurd hk (Nat.not_lt_zero k)
    · exact absurd rfl hoff

theorem erased_iff (C : Core L H s) (hv : s.vnode? sv = some v) (hs : s.size v.svIno < 2 ^ 31) :
    Erased sv v.svIno (s.size v.svIno) s ↔ ∀ p, s.size v.svIno ≤ p → s.byte v.svIno p = 0 := by
  constructor
  · intro h p hp
    by_cases hmax : sfsMaxsize ≤ p
    · exact byte_past hmax
    -- an empty write far behind brings the position back into the file
    have hfar : sfsMaxsize ≤ 102400 := by decide
    obtain ⟨t, hstep⟩ := exists_emptyWrite C hv (m := s.size v.svIno) (by omega)
    obtain ⟨w, hw⟩ := hstep.wrote C hv
    obtain ⟨i, d, hv'⟩ := hw.step.vnode? hv
    have hsize : t.size v.svIno = 102400 := by
      unfold SfsFs.size
      rw [hw.size, toInt_size hs, if_pos (by change (s.size v.svIno : Int) < (102400 : Nat); omega)]
      rfl
    have hsame : t.byte v.svIno p = s.byte v.svIno p := by
      rw [hw.byte]
      exact if_neg fun hc => absurd hc.2 (Nat.not_lt.2 hc.1)
    have hsees := h [emptyWrite] t (.step .start hstep) p hp (by omega) (fun q hq hc => by
        obtain rfl := List.mem_singleton.1 hq
        exact absurd hc.2 (Nat.not_lt.2 hc.1)) (t.byte v.svIno p)
    rw [← hsame]
    refine (hsees.1 ((sees_iff hw.core hv' p _).2 ⟨?_, by omega, rfl⟩)).2
    change (p : Int) < (t.inode v.svIno).sfiSize.toInt
    rw [toInt_size (by omega)]
    omega
  · intro hz tr t hrun p hp hlt hun b
    obtain ⟨D, ⟨v', hv', he⟩, hlt', hbyte⟩ := later_writes C hv hs hrun
    rw [sees_iff D hv', he, hbyte p hun, hz p hp, toInt_size hlt']
    constructor
    · exact And.right
    · exact fun h => ⟨by omega, h⟩

/-- The rest of the last block is zero already, and so is the block after it if the loop over the
indirect block overlooks it. -/
structure NothingLeft (s : SfsFs) (ino m : Nat) : Prop where
  tail : ∀ p, m ≤ p → p < blocksFor m * sfsBlocksize → s.byte ino p = 0
  boundary : sfsNdirect ≤ blocksFor m →
    ∀ i < sfsBlocksize, s.byte ino (blocksFor m * sfsBlocksize + i) = 0

theorem Truncated.zero_iff (h : Truncated L H ino len s t) :
    (∀ p, len.toNat ≤ p → t.byte ino p = 0) ↔ NothingLeft s ino len.toNat := by
  have hround := le_blocksFor len.toNat
  by_cases hmax : sfsMaxsize ≤ len.toNat
  · -- no file has bytes there
    have hzero {p : Nat} (hp : len.toNat ≤ p) : s.byte ino p = 0 := byte_past (by omega)
    refine ⟨fun _ => ⟨fun p hp _ => hzero hp, fun _ i _ => hzero (by omega)⟩, fun _ p hp => ?_⟩
    rw [h.byte, hzero hp, ite_self]
  · have hlt : sfsMaxsize + sfsBlocksize ≤ 2 ^ 31 := by decide
    have hbyte (p : Nat) := h.byte p
    rw [truncBlocklen_eq (by omega)] at hbyte
    constructor
    · intro hz
      have hkept {p : Nat} (hp : len.toNat ≤ p) (hc : ¬ Cut (blocksFor len.toNat) (p / sfsBlocksize)) :
          s.byte ino p = 0 := by
        rw [← hz p hp, hbyte, if_neg hc]
      refine ⟨fun p hp hlt => hkept hp ?_, fun hn i hi => hkept (by omega) ?_⟩
      · have := block_lt_iff.2 hlt
        unfold Cut
        split <;> omega
      · rw [block_add hi]
        unfold Cut
        rw [if_neg (by omega)]
        exact Nat.lt_irrefl _
    · intro N p hp
      rw [hbyte]
      split
      · rfl
      · next hc =>
        by_cases hin : p < blocksFor len.toNat * sfsBlocksize
        · exact N.tail p hp hin
        · -- the block is the one at the boundary
          have hge := mt block_lt_iff.1 hin
          obtain ⟨hn, hk⟩ : sfsNdirect ≤ blocksFor len.toNat ∧ p / sfsBlocksize = blocksFor len.toNat := by
            unfold Cut at hc
            split at hc <;> omega
          rw [← Nat.div_add_mod' p sfsBlocksize, hk]
          exact N.boundary hn _ (Nat.mod_lt _ (by decide))

/-! ### Two files -/

/-- The two files have the same size and the same bytes. -/
structure Alike (s : SfsFs) (ino : Nat) (s' : SfsFs) (ino' : Nat) : Prop where
  size : (s.inode ino).sfiSize = (s'.inode ino').sfiSize
  byte : ∀ p, s.byte ino p = s'.byte ino' p

/-- No position reads differently in the two files, after any writes that succeed on both. -/
def SameReads (sv : Nat) (s : SfsFs) (sv' : Nat) (s' : SfsFs) : Prop :=
  ∀ tr t t', Run (LaterWrite sv 0) s tr t → Run (LaterWrite sv' 0) s' tr t' →
    ∀ p b, Sees sv t p b ↔ Sees sv' t' p b

section Alike

variable {L' H' : Nat → Prop} {s' t' : SfsFs} {sv' : Nat} {v' : SfsVnode} (C : Core L H s)
  (hv : s.vnode? sv = some v) (C' : Core L' H' s') (hv' : s'.vnode? sv' = some v')
include C hv C' hv'

theorem Alike.write (h : Alike s v.svIno s' v'.svIno)
    (hq : LaterWrite sv m s q t) (hq' : LaterWrite sv' m s' q t') : Alike t v.svIno t' v'.svIno := by
  obtain ⟨w, hw⟩ := hq.wrote C hv
  obtain ⟨w', hw'⟩ := hq'.wrote C' hv'
  constructor
  · rw [hw.size, hw'.size, h.size]
  · intro p
    rw [hw.byte, hw'.byte, h.byte]

theorem Alike.writes {tr : List WriteCall} (h : Alike s v.svIno s' v'.svIno)
    (hrun : Run (LaterWrite sv m) s tr t) (hrun' : Run (LaterWrite sv' m) s' tr t') :
    (Core L H t ∧ ∃ u, t.vnode? sv = some u ∧ u.svIno = v.svIno) ∧
      (Core L' H' t' ∧ ∃ u, t'.vnode? sv' = some u ∧ u.svIno = v'.svIno) ∧ Alike t v.svIno t' v'.svIno := by
  induction hrun generalizing t' with
  | start =>
    cases hrun'
    exact ⟨⟨C, v, hv, rfl⟩, ⟨C', v', hv', rfl⟩, h⟩
  | step _ hstep ih =>
    cases hrun' with
    | step hrun' hstep' =>
      obtain ⟨⟨D, u, hu, he⟩, ⟨D', u', hu', he'⟩, ha⟩ := ih hrun'
      rw [← he, ← he'] at ha ⊢
      have ha' := ha.write D hu D' hu' hstep hstep'
      obtain ⟨w, hw⟩ := hstep.wrote D hu
      obtain ⟨w', hw'⟩ := hstep'.wrote D' hu'
      obtain ⟨i, d, hi⟩ := hw.step.vnode? hu
      obtain ⟨i', d', hi'⟩ := hw'.step.vnode? hu'
      exact ⟨⟨hw.core, _, hi, rfl⟩, ⟨hw'.core, _, hi', rfl⟩, ha'⟩

theorem Alike.sameReads (h : Alike s v.svIno s' v'.svIno) : SameReads sv s sv' s' := by
  intro tr t t' hrun hrun' p b
  obtain ⟨⟨D, u, hu, he⟩, ⟨D', u', hu', he'⟩, ha⟩ := h.writes C hv C' hv' hrun hrun'
  rw [sees_iff D hu, sees_iff D' hu', he, he', ha.size, ha.byte]

end Alike

/-- Bytes before the new end survive a truncation. -/
theorem Truncated.byte_before (h : Truncated L H ino len s t) (hlen : len.toNat < 2 ^ 31)
    (hp : p < len.toNat) : t.byte ino p = s.byte ino p := by
  by_cases hmax : sfsMaxsize ≤ p
  · rw [byte_past hmax, byte_past hmax]
  have hblock : p / sfsBlocksize < truncBlocklen len := by
    by_cases hwrap : len.toNat + sfsBlocksize ≤ 2 ^ 31
    · rw [truncBlocklen_eq hwrap, block_lt_iff]
      exact Nat.lt_of_lt_of_le hp (le_blocksFor _)
    · refine Nat.lt_of_lt_of_le ?_ (truncBlocklen_ge (by omega) hlen)
      exact block_lt_iff.2 (Nat.lt_of_not_le hmax)
  rw [h.byte, if_neg]
  unfold Cut
  split <;> omega

/-- On a device that works, what was past the new end of a truncated file stays unreadable exactly
if the kept bytes past that end were zero already. Two such files with the same bytes before the end
cannot be told apart. -/
theorem truncated_erased_iff (C : Core L H s) (hv : s.vnode? sv = some v) (hlen : len.toNat < 2 ^ 31) :
    ∃ t, sfsTruncate sv len s = .ok (.ok (), t) ∧ (Erased sv v.svIno len.toNat t ↔ NothingLeft s v.svIno len.toNat) ∧
      (NothingLeft s v.svIno len.toNat → ∀ L' H' s' sv' v', Core L' H' s' → s'.vnode? sv' = some v' →
        NothingLeft s' v'.svIno len.toNat → (∀ p < len.toNat, s.byte v.svIno p = s'.byte v'.svIno p) →
        ∀ t', sfsTruncate sv' len s' = .ok (.ok (), t') → SameReads sv t sv' t') := by
  obtain ⟨t, hrun, h, -⟩ := exists_truncated len C hv
  obtain ⟨i, d, hvt⟩ := h.step.vnode? hv
  have hsize : t.size v.svIno = len.toNat := congrArg BitVec.toNat h.size
  refine ⟨t, hrun, ?_, fun N L' H' s' sv' v' C' hv' N' hbefore t' hrun' => ?_⟩
  · have he := erased_iff h.core hvt (lt_of_eq_of_lt hsize hlen)
    rw [← h.zero_iff, ← hsize]
    exact he
  · obtain ⟨t'', hrun'', h', -⟩ := exists_truncated len C' hv'
    obtain rfl : t' = t'' := by simpa using hrun'.symm.trans hrun''
    obtain ⟨i', d', hvt'⟩ := h'.step.vnode? hv'
    refine Alike.sameReads h.core hvt h'.core hvt' ⟨h.size.trans h'.size.symm, fun p => ?_⟩
    change t.byte v.svIno p = t'.byte v'.svIno p
    by_cases hp : len.toNat ≤ p
    · rw [h.zero_iff.2 N p hp, h'.zero_iff.2 N' p hp]
    · rw [h.byte_before hlen (by omega), h'.byte_before hlen (by omega)]
      exact hbefore p (by omega)

theorem truncated_erased_sampleListed : ∃ t, sfsTruncate 8 512 sampleListed = .ok (.ok (), t) ∧ Erased 8 3 512 t := by
  obtain ⟨v, hv, he⟩ := vnode?_sampleListed
  rw [← he]
  have hlen : (512 : Word).toNat < 2 ^ 31 := by decide
  obtain ⟨t, hrun, h, -⟩ := truncated_erased_iff core_sampleListed hv hlen
  refine ⟨t, hrun, h.2 ⟨fun p hp hlt => ?_, fun hn => absurd hn (by decide)⟩⟩
  exact absurd hp (Nat.not_le.2 hlt)

/-- Write one byte, leaving a gap of one byte behind a file of one byte. -/
def gapWrite : WriteCall where
  uio := mkKuio [99] 2 .write
  fits := mkKuio_fits (by decide) (by decide) _
  write := rfl
  offset_lt := by decide

/-- A file of two bytes is truncated to one, and a third byte is written: the second one is back. -/
theorem truncated_byte_returns : sampleTwo.size 3 = 2 ∧
    ∃ t t', sfsTruncate 8 1 sampleTwo = .ok (.ok (), t) ∧ LaterWrite 8 1 t gapWrite t' ∧
      ¬ gapWrite.Covers 1 ∧ t'.size 3 = 3 ∧ Sees 8 t' 1 98 ∧ ¬ Erased 8 3 1 t := by
  refine ⟨by decide +kernel, ?_⟩
  have h : ((sfsTruncate 8 1).value? sampleTwo).any (fun p => ((gapWrite.run 8).value? p.2).any fun q =>
      q.1.1.isOk && decide (q.2.size 3 = 3) &&
        ((sfsIo 8).value? (q.2, readAt 1)).any fun x => decide (x.2.2.moved = [98])) = true := by decide +kernel
  obtain ⟨⟨_, t⟩, ht, h⟩ := (Option.any_eq_true _ _).1 h
  obtain ⟨⟨⟨_ | _, w⟩, t'⟩, hwrite, h⟩ := (Option.any_eq_true _ _).1 h
  · cases h
  obtain ⟨hsize, h⟩ := Bool.and_eq_true_iff.1 h
  obtain ⟨⟨r, u, w'⟩, hread, h⟩ := (Option.any_eq_true _ _).1 h
  have hlater : LaterWrite 8 1 t gapWrite t' := ⟨by decide, w, Prog.value?_eq_some.1 hwrite⟩
  have hcov : ¬ gapWrite.Covers 1 := by decide
  have hsees : Sees 8 t' 1 98 := ⟨_, u, w', Prog.value?_eq_some.1 hread, of_decide_eq_true h⟩
  have hsize : t'.size 3 = 3 := of_decide_eq_true hsize
  refine ⟨t, t', Prog.value?_eq_some.1 ht, hlater, hcov, hsize, hsees, fun he => ?_⟩
  have := he [gapWrite] t' (.step .start hlater) 1 le_rfl (by omega)
    (fun q hq => List.mem_singleton.1 hq ▸ hcov) 98
  exact absurd (this.1 hsees).2 (by decide)

end Os161.Sfs
