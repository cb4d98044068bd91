import Mathlib.Data.List.GetD
import Mathlib.Data.Nat.Count
import Os161.Sfs.Io
import Os161.Sfs.Vnode

/-!
# The root directory

SFS has one directory, the root. Its slots are read off its contents; `DirOk` says that they
form a directory: whole entries, names of legal length, no name twice. Specifications of
`sfs_readdir`, `sfs_writedir`, `sfs_dir_findname`, `sfs_dir_link` and `sfs_dir_unlink` in
terms of slots follow.
-/
namespace Os161.Sfs

open Lib Kern SfsFs Prog

variable {L H : Nat → Prop} {s t u : SfsFs}

namespace SfsFs

def slots (s : SfsFs) : Nat := s.size sfsRootLocation / sizeofSfsDir

def slot (s : SfsFs) (i : Nat) : SfsDir :=
  SfsDir.decode (s.fileBytes sfsRootLocation (i * sizeofSfsDir) sizeofSfsDir)

def slotIno (s : SfsFs) (i : Nat) : Nat := (s.slot i).sfdIno.toNat

def links (s : SfsFs) (ino : Nat) : Nat := Nat.count (fun i => s.slotIno i = ino) s.slots

end SfsFs

/-- An entry as `sfs_dir_link` makes it: a name that ends in its NUL before the last byte. -/
def SfsDir.Proper (sd : SfsDir) : Prop :=
  ∃ name : CString, name.bytes.length < sfsNamelen ∧ sd = SfsDir.named sd.sfdIno name.bytes

structure DirOk (s : SfsFs) : Prop where
  whole : s.size sfsRootLocation % sizeofSfsDir = 0
  bound : s.size sfsRootLocation ≤ sfsMaxblocks * sfsBlocksize
  proper : ∀ i < s.slots, s.slotIno i ≠ 0 → (s.slot i).Proper
  distinct : ∀ i < s.slots, ∀ j < s.slots, s.slotIno i ≠ 0 → s.slotIno j ≠ 0 →
    (s.slot i).name = (s.slot j).name → i = j

/-- The directory did not change. -/
structure DirSame (s t : SfsFs) : Prop where
  size : t.size sfsRootLocation = s.size sfsRootLocation
  slot : ∀ i < s.slots, t.slot i = s.slot i

/-- Slot `i`, which is the first one after the end when it is new, was given the entry `sd`. -/
structure DirPut (s t : SfsFs) (i : Nat) (sd : SfsDir) : Prop where
  le : i ≤ s.slots
  size : t.size sfsRootLocation = max (s.size sfsRootLocation) ((i + 1) * sizeofSfsDir)
  bound : (i + 1) * sizeofSfsDir ≤ sfsMaxblocks * sfsBlocksize
  put : t.slot i = sd
  kept : ∀ j < s.slots, j ≠ i → t.slot j = s.slot j

/-! ## Counting slots -/

theorem count_congr {p q : Nat → Prop} [DecidablePred p] [DecidablePred q] {n : Nat}
    (h : ∀ k < n, p k ↔ q k) : Nat.count p n = Nat.count q n :=
  le_antisymm (Nat.count_mono_left fun k hk => (h k hk).1)
    (Nat.count_mono_left fun k hk => (h k hk).2)

/-- Changing a predicate at one place changes the count by what happens there. -/
theorem count_exchange {p q : Nat → Prop} [DecidablePred p] [DecidablePred q] {n i : Nat}
    (hi : i < n) (h : ∀ k < n, k ≠ i → (p k ↔ q k)) :
    Nat.count p n + (if q i then 1 else 0) = Nat.count q n + (if p i then 1 else 0) := by
  induction n with
  | zero => omega
  | succ n ih =>
    rw [Nat.count_succ, Nat.count_succ]
    rcases Nat.eq_or_lt_of_le (Nat.le_of_lt_succ hi) with rfl | hlt
    · rw [count_congr fun k hk => h k (by omega) (by omega)]
      omega
    · have := ih hlt fun k hk => h k (by omega)
      have hn := h n (by omega) (by omega)
      simp only [hn] at this ⊢
      omega

/-! ## Changes of the directory -/

theorem SfsDir.name_named (ino : Word) (name : CString) (h : name.bytes.length < sfsNamelen) :
    (SfsDir.named ino name.bytes).name = name.bytes := by
  have hset : (name.bytes ++ List.replicate (sfsNamelen - name.bytes.length) (0 : Byte)).set
      (sfsNamelen - 1) 0 = name.bytes ++ List.replicate (sfsNamelen - name.bytes.length) 0 := by
    rw [List.set_append_right _ _ (by omega), List.set_replicate_self]
  unfold SfsDir.name SfsDir.named
  rw [hset]
  exact cstr_append_zeros name _

namespace DirOk

theorem size_eq (D : DirOk s) : s.size sfsRootLocation = s.slots * sizeofSfsDir :=
  (Nat.div_mul_cancel (Nat.dvd_of_mod_eq_zero D.whole)).symm

theorem same (D : DirOk s) (h : DirSame s t) : DirOk t := by
  have hn : t.slots = s.slots := by unfold slots; rw [h.size]
  refine ⟨h.size ▸ D.whole, h.size ▸ D.bound, fun i hi => ?_, fun i hi j hj => ?_⟩
  · rw [hn] at hi
    simpa only [slotIno, h.slot i hi] using D.proper i hi
  · rw [hn] at hi hj
    simpa only [slotIno, h.slot i hi, h.slot j hj] using D.distinct i hi j hj

end DirOk

namespace DirSame

theorem slots_eq (h : DirSame s t) : t.slots = s.slots := by
  unfold slots
  rw [h.size]

theorem refl (s : SfsFs) : DirSame s s := ⟨rfl, fun _ _ => rfl⟩

theorem trans (h : DirSame s t) (h' : DirSame t u) : DirSame s u :=
  ⟨h'.size.trans h.size, fun i hi => (h'.slot i (h.slots_eq.symm ▸ hi)).trans (h.slot i hi)⟩

theorem links (h : DirSame s t) (ino : Nat) : t.links ino = s.links ino := by
  unfold SfsFs.links
  rw [h.slots_eq]
  exact count_congr fun i hi => by rw [slotIno, h.slot i hi, slotIno]

theorem of_content (hs : (t.inode sfsRootLocation).sfiSize = (s.inode sfsRootLocation).sfiSize)
    (hb : ∀ i, t.byte sfsRootLocation i = s.byte sfsRootLocation i) : DirSame s t where
  size := congrArg BitVec.toNat hs
  slot _ _ := congrArg SfsDir.decode (fileBytes_congr fun j _ _ => hb j)

end DirSame

namespace DirPut

variable {i : Nat} {sd : SfsDir}

theorem slots_eq (h : DirPut s t i sd) (D : DirOk s) : t.slots = max s.slots (i + 1) := by
  have hs := D.size_eq
  have ht := h.size
  unfold slots sizeofSfsDir at *
  omega

theorem dirOk (h : DirPut s t i sd) (D : DirOk s) (hp : sd.sfdIno ≠ 0 → sd.Proper)
    (hd : sd.sfdIno ≠ 0 → ∀ j < s.slots, j ≠ i → s.slotIno j ≠ 0 → (s.slot j).name ≠ sd.name) : DirOk t := by
  have hn := h.slots_eq D
  have hle := h.le
  have hino : t.slotIno i ≠ 0 → sd.sfdIno ≠ 0 := by
    intro h0 he
    exact h0 (by rw [slotIno, h.put, he]; rfl)
  have keep {j : Nat} (hj : j < t.slots) (hji : j ≠ i) : j < s.slots ∧ t.slot j = s.slot j := by
    have hj : j < s.slots := by omega
    exact ⟨hj, h.kept j hj hji⟩
  refine ⟨?_, ?_, fun j hj h0 => ?_, fun j hj k hk hj0 hk0 he => ?_⟩
  · have := D.whole
    have := h.size
    unfold sizeofSfsDir at *
    omega
  · rw [h.size]
    exact Nat.max_le.2 ⟨D.bound, h.bound⟩
  · by_cases hji : j = i
    · subst hji
      rw [h.put]
      exact hp (hino h0)
    · obtain ⟨hj, he⟩ := keep hj hji
      rw [he]
      exact D.proper j hj (by rwa [slotIno, he] at h0)
  · by_cases hji : j = i <;> by_cases hki : k = i
    · omega
    · subst hji
      obtain ⟨hk, hke⟩ := keep hk hki
      rw [h.put, hke] at he
      rw [slotIno, hke] at hk0
      exact absurd he.symm (hd (hino hj0) k hk hki hk0)
    · subst hki
      obtain ⟨hj, hje⟩ := keep hj hji
      rw [h.put, hje] at he
      rw [slotIno, hje] at hj0
      exact absurd he (hd (hino hk0) j hj hji hj0)
    · obtain ⟨hj, hje⟩ := keep hj hji
      obtain ⟨hk, hke⟩ := keep hk hki
      rw [hje, hke] at he
      rw [slotIno, hje] at hj0
      rw [slotIno, hke] at hk0
      exact D.distinct j hj k hk hj0 hk0 he

/-- The number of names of an inode changes by what was in the slot and what is there now. -/
theorem links (h : DirPut s t i sd) (D : DirOk s) (ino : Nat) :
    t.links ino + (if i < s.slots ∧ s.slotIno i = ino then 1 else 0) =
      s.links ino + (if sd.sfdIno.toNat = ino then 1 else 0) := by
  have hn := h.slots_eq D
  have hle := h.le
  have hput : t.slotIno i = sd.sfdIno.toNat := by rw [slotIno, h.put]
  have hkept : ∀ k < s.slots, k ≠ i → (t.slotIno k = ino ↔ s.slotIno k = ino) := by
    intro k hk hki
    rw [slotIno, h.kept k hk hki, slotIno]
  unfold SfsFs.links
  rcases Nat.eq_or_lt_of_le hle with rfl | hlt
  · rw [hn, Nat.max_eq_right (Nat.le_succ _), Nat.count_succ, hput, count_congr fun k hk => hkept k hk (by omega)]
    simp
  · rw [hn, Nat.max_eq_left hlt]
    have := count_exchange (p := fun k => t.slotIno k = ino) (q := fun k => s.slotIno k = ino) hlt hkept
    simp only [hput] at this
    simpa [hlt] using this

end DirPut

/-! ## Reading and writing slots -/

theorem toInt_eq_of_le {w : Word} (h : w.toNat ≤ sfsMaxblocks * sfsBlocksize) : w.toInt = w.toNat := by
  have hmax : sfsMaxblocks * sfsBlocksize < 2 ^ 31 := by decide
  rw [BitVec.toInt_eq_toNat_cond]
  split <;> omega

/-- What a failed write to slot `i` leaves behind: the contents of the directory are as they were,
but a new slot may have been added at the end. -/
structure DirTorn (s t : SfsFs) (i : Nat) : Prop where
  byte : ∀ j, t.byte sfsRootLocation j = s.byte sfsRootLocation j
  size : t.size sfsRootLocation = s.size sfsRootLocation ∨
    i = s.slots ∧ t.size sfsRootLocation = (i + 1) * sizeofSfsDir ∧
      (i + 1) * sizeofSfsDir ≤ sfsMaxblocks * sfsBlocksize

theorem DirTorn.slot {i : Nat} (h : DirTorn s t i) (j : Nat) : t.slot j = s.slot j :=
  congrArg SfsDir.decode (fileBytes_congr fun x _ _ => h.byte x)

/-- A slot that is there already is not torn. -/
theorem DirTorn.same {i : Nat} (h : DirTorn s t i) (hi : i < s.slots) : DirSame s t :=
  ⟨h.size.resolve_right fun hs => by omega, fun j _ => h.slot j⟩

section Slots

variable {c : SfsFs} {sv : Nat} {v : SfsVnode} (C : Core L H c) (hv : c.vnode? sv = some v)
  (hroot : v.svIno = sfsRootLocation) (D : DirOk c) (hs : s.calm = c)
include C hv hroot D hs

theorem sfsReaddir_endures {i : Nat} (hi : i < c.slots) :
    Endures NoPanic (sfsReaddir sv i) s (fun r t => r = .ok (c.slot i) ∧ t = c) (· = c) := by
  subst hs
  have hsz := D.size_eq
  have hbound := D.bound
  have hmul : (i + 1) * sizeofSfsDir ≤ s.calm.slots * sizeofSfsDir := Nat.mul_le_mul_right _ hi
  rw [Nat.succ_mul] at hmul
  simp only [Endures, sfsReaddir, sat_bind, sat_withUio, sat_ofExcept, sat_check, sat_pure]
  have hres : (mkKuio (List.replicate sizeofSfsDir 0) (i * sizeofSfsDir) .read).uioResid =
      sizeofSfsDir := by simp [mkKuio]
  have hoff : (mkKuio (List.replicate sizeofSfsDir 0) (i * sizeofSfsDir) .read).uioOffset = i * sizeofSfsDir := rfl
  have hmax : sfsMaxblocks * sfsBlocksize < 2 ^ 31 := by decide
  have hread : sfsReadable (s.calm.inode v.svIno).sfiSize.toInt
      (mkKuio (List.replicate sizeofSfsDir 0) (i * sizeofSfsDir) .read) = sizeofSfsDir := by
    rw [hroot, toInt_eq_of_le (by exact hbound), sfsReadable_eq rfl (by omega)]
    change min _ (s.calm.size sfsRootLocation - _) = _
    omega
  refine (sfsIo_read_endures C hv (mkKuio_fits (by simp [sizeofSfsDir]) (by omega) _) rfl).seq ?_ ?_ ?_
  · rintro ⟨⟩ t w hf ⟨ht, k, -, hw, -, hok, -⟩
    rw [hread] at hok
    obtain rfl := hok rfl
    have hzero : w.uioResid = 0 := by
      rw [show w = _ from hw, Uio.advance_resid, length_fileBytes, hres]
      decide
    have hmoved : w.moved = s.calm.fileBytes sfsRootLocation (i * sizeofSfsDir) sizeofSfsDir := by
      rw [show w = _ from hw, hroot]
      rfl
    simp only [hzero, if_true, hmoved]
    exact ⟨hf.value _, .inl ⟨rfl, ht⟩⟩
  · rintro e t w - ⟨-, k, hk, -, -, -, herr⟩
    -- a directory lies in blocks that a file can have
    obtain ⟨hreason, -, hshort⟩ := herr e rfl
    rw [hread] at hreason hshort
    rw [hoff] at hshort
    cases e with
    | efault => exact absurd rfl hreason.1
    | einval =>
      have : sfsMaxblocks * sfsBlocksize ≤ i * sizeofSfsDir + k := hreason
      have : sizeofSfsDir ≠ 0 := by decide
      omega
    | enospc => cases hreason
    | _ => exact hreason.elim
  · rintro t w hf ht
    exact ⟨hf.error, .inr ⟨rfl, ht⟩⟩

/-- Writing an entry puts it in its slot, leaves the directory as it was or, when the device fails,
may leave a new slot at the end. -/
theorem sfsWritedir_endures {i : Nat} (hi : i ≤ c.slots) {sd : SfsDir}
    (hsd : sd.encode.length = sizeofSfsDir) :
    Endures NoPanic (sfsWritedir sv sd i) s (fun r t => Core L H t ∧
      FileStep L sfsRootLocation c t ∧ match r with
      | .ok _ => DirPut c t i sd
      | .error _ => DirSame c t)
      (fun t => (∃ H', Core L H' t) ∧ FileStep L sfsRootLocation c t ∧ DirTorn c t i) := by
  subst hs
  have hsz := D.size_eq
  have hbound := D.bound
  have hmul : i * sizeofSfsDir ≤ s.calm.slots * sizeofSfsDir := Nat.mul_le_mul_right _ hi
  have h64 : sizeofSfsDir < 2 ^ 32 := by decide
  have hmax : sfsMaxblocks * sfsBlocksize < 2 ^ 32 := by decide
  simp only [Endures, sfsWritedir, sat_bind, sat_withUio, sat_ofExcept, sat_check]
  have hres : (mkKuio sd.encode (i * sizeofSfsDir) .write).uioResid = sizeofSfsDir := hsd
  have hoff : (mkKuio sd.encode (i * sizeofSfsDir) .write).uioOffset = i * sizeofSfsDir := rfl
  -- the size of the directory after `m` bytes of the entry were taken
  have hgrown {t : SfsFs} {m : Nat} (h : (t.inode v.svIno).sfiSize =
      if (s.calm.inode v.svIno).sfiSize.toInt < (i * sizeofSfsDir + m : Nat)
      then BitVec.ofNat 32 (i * sizeofSfsDir + m) else (s.calm.inode v.svIno).sfiSize)
      (hm : m ≠ 0 → i * sizeofSfsDir + m ≤ sfsMaxblocks * sfsBlocksize) :
      t.size sfsRootLocation = max (s.calm.size sfsRootLocation) (i * sizeofSfsDir + m) := by
    rw [hroot, toInt_eq_of_le (by exact hbound)] at h
    have hcond : ((s.calm.inode sfsRootLocation).sfiSize.toNat : Int) < (i * sizeofSfsDir + m : Nat) ↔
        s.calm.size sfsRootLocation < i * sizeofSfsDir + m := by
      rw [Int.ofNat_lt]
      rfl
    simp only [hcond] at h
    have hsize : t.size sfsRootLocation = _ := congrArg BitVec.toNat h
    rw [hsize]
    split
    · rw [BitVec.toNat_ofNat, Nat.mod_eq_of_lt (by omega)]
      omega
    · change s.calm.size sfsRootLocation = _
      omega
  refine (sfsIo_write_endures C hv (mkKuio_fits (hsd ▸ h64) (by omega) _) rfl).seq ?_ ?_ ?_
  · rintro ⟨⟩ t w hf ⟨k, hw, hok, -⟩
    have hbyte := hw.byte
    have hstep := hw.step
    rw [hoff] at hbyte
    rw [hroot] at hbyte hstep
    obtain rfl : k = sizeofSfsDir := (hok rfl).trans hres
    have hfit : i * sizeofSfsDir + sizeofSfsDir ≤ sfsMaxblocks * sfsBlocksize :=
      hw.fits_file (by decide)
    have hzero : w.uioResid = 0 := by
      rw [show w = _ from hw.uio, Uio.advance_resid, hres]
      have : (List.take sizeofSfsDir (mkKuio sd.encode (i * sizeofSfsDir) .write).iov).length =
          sizeofSfsDir := List.length_take_of_le (Nat.le_of_eq hsd.symm)
      rw [this]
      decide
    rw [if_pos (by exact hzero)]
    refine ⟨hf, .inl ⟨hw.core, hstep, hi, ?_, by rwa [Nat.succ_mul], ?_, fun j _ hji => ?_⟩⟩
    · rw [Nat.succ_mul]
      exact hgrown hw.size fun _ => hfit
    · have : t.fileBytes sfsRootLocation (i * sizeofSfsDir) sizeofSfsDir = sd.encode := by
        refine List.ext_getElem (by simp [hsd]) fun j h1 h2 => ?_
        have hj : j < sizeofSfsDir := by simpa using h1
        simp only [fileBytes, List.getElem_map, List.getElem_range]
        refine (hbyte _).trans ?_
        rw [if_pos (by omega), Nat.add_sub_cancel_left]
        exact List.getD_eq_getElem _ _ h2
      change t.slot i = sd
      rw [slot, this, SfsDir.decode_encode]
    · refine congrArg SfsDir.decode (fileBytes_congr fun x h1 h2 => ?_)
      rw [hbyte, if_neg]
      unfold sizeofSfsDir at *
      omega
  · rintro e t w hf ⟨k, hw, -, herr⟩
    have hbyte := hw.byte
    have hstep := hw.step
    rw [hoff] at hbyte
    rw [hroot] at hbyte hstep
    -- the entry lies inside one block, so a failed write has stored nothing
    have hk : k = 0 := by
      have hst := (herr e rfl).1
      have h1 := hst.short
      have h2 := hst.write rfl
      rw [hres] at h1
      rw [hoff] at h1 h2
      unfold sizeofSfsDir sfsBlocksize at *
      omega
    subst hk
    refine ⟨hf, .inl ⟨hw.core, hstep, ⟨?_, fun j _ => ?_⟩⟩⟩
    · rw [hgrown hw.size (absurd rfl)]
      omega
    · exact congrArg SfsDir.decode (fileBytes_congr fun x _ _ => (hbyte x).trans (if_neg (by omega)))
  · rintro t w hf ⟨k, m, hw⟩
    have hbyte := hw.byte
    have hstep := hw.step
    rw [hoff] at hbyte
    rw [hroot] at hbyte hstep
    -- for the same reason all of it was taken out of the descriptor, or nothing
    obtain ⟨rfl, hm⟩ : k = 0 ∧ (m = 0 ∨ m = sizeofSfsDir) := by
      have h1 := hw.short
      have h2 := hw.aligned
      have h3 := hw.chunk
      have h4 := hw.stored
      have h5 := hw.le
      rw [hres] at h1 h3 h5
      rw [hoff] at h1 h2 h3
      unfold sizeofSfsDir sfsBlocksize at *
      omega
    obtain ⟨H', -, E⟩ := hw.core
    have hfit := hw.fits_file
    rw [hoff] at hfit
    have hsize := hgrown hw.size hfit
    refine ⟨hf, .inr ⟨rfl, ⟨H', E⟩, hstep, fun j => (hbyte j).trans (if_neg (by omega)), ?_⟩⟩
    rcases hm with rfl | rfl
    · exact .inl (hsize.trans (by omega))
    · have hfit := hfit (by decide)
      rw [Nat.succ_mul]
      rcases Nat.eq_or_lt_of_le hi with rfl | hlt
      · exact .inr ⟨rfl, hsize.trans (by omega), hfit⟩
      · have := Nat.mul_le_mul_right sizeofSfsDir hlt
        rw [Nat.succ_mul] at this
        exact .inl (hsize.trans (by omega))

theorem sfsDirNentries_returns : Sat NoPanic (sfsDirNentries sv) s (fun r t => r = .ok c.slots ∧ t = s) := by
  subst hs
  have hi := C.table.inode_of_vnode? hv
  have ht : v.svI.sfiType = sfsTypeDir := by
    have := C.type _ C.root
    rwa [if_pos rfl, ← hroot, hi] at this
  have hsize : v.svI.sfiSize.toNat = s.calm.size sfsRootLocation := by
    rw [size, ← hroot, hi]
  have hvs : s.vnode? sv = some v := hv
  simp [sfsDirNentries, sat_vnode hvs, ht, hsize, D.whole, slots]

/-- What the search of the directory knows after the first `n` slots. -/
structure FoundOk (s : SfsFs) (name : CString) (n : Nat) (f : Found) : Prop where
  found : ∀ ino i, f.entry = some (ino, i) →
    i < n ∧ s.slotIno i = ino ∧ ino ≠ 0 ∧ (s.slot i).name = name.bytes
  missing : f.entry = none → ∀ i < n, s.slotIno i ≠ 0 → (s.slot i).name ≠ name.bytes
  free : ∀ i, f.emptyslot = some i → i < n ∧ s.slotIno i = 0

theorem sfsDirFindLoop_endures (name : CString) (i n : Nat) (hn : i + n = c.slots) {f : Found}
    (hf : FoundOk c name i f) :
    Endures NoPanic (sfsDirFindLoop sv name i f n) s (fun r t => match r with
      | .ok f => FoundOk c name c.slots f ∧ t = c
      | .error _ => False) (· = c) := by
  induction n generalizing i f s with
  | zero =>
    obtain rfl : i = c.slots := hn
    exact ⟨.still rfl rfl, .inl ⟨hf, hs⟩⟩
  | succ n ih =>
    simp only [sfsDirFindLoop, Endures, sat_bind]
    refine (sfsReaddir_endures C hv hroot D hs (by omega)).seq ?_ ?_ ?_
    · rintro _ t hft ⟨⟨⟩, ht⟩
      simp only [sat_ite]
      split
      · next h0 =>
        have h0 : c.slotIno i = 0 := congrArg BitVec.toNat h0
        refine (ih ht (i + 1) (by omega) ⟨fun ino j hj => ?_, fun hm j hj hj0 => ?_, fun j hj => ?_⟩).after hft
        · obtain ⟨h1, h2⟩ := hf.found ino j hj
          exact ⟨by omega, h2⟩
        · exact hf.missing hm j (by grind) hj0
        · obtain rfl : i = j := by simpa using hj
          exact ⟨by omega, h0⟩
      · next h0 =>
        have h0 : c.slotIno i ≠ 0 := fun h => h0 (BitVec.eq_of_toNat_eq h)
        split
        · next hname =>
          have hnone : f.entry = none := by
            cases he : f.entry with
            | none => rfl
            | some p =>
              obtain ⟨h1, h2, h3, h4⟩ := hf.found p.1 p.2 he
              have := D.distinct p.2 (by omega) i (by omega) (h2 ▸ h3) h0 (h4.trans hname.symm)
              omega
          simp only [sat_bind, sat_check, hnone, if_true]
          refine (ih ht (i + 1) (by omega) ⟨fun ino j hj => ?_, fun hm => ?_, fun j hj => ?_⟩).after hft
          · obtain ⟨rfl, rfl⟩ : c.slotIno i = ino ∧ i = j := by simpa [slotIno] using hj
            exact ⟨by omega, rfl, h0, hname⟩
          · cases hm
          · obtain ⟨h1, h2⟩ := hf.free j hj
            exact ⟨by omega, h2⟩
        · next hname =>
          refine (ih ht (i + 1) (by omega) ⟨fun ino j hj => ?_, fun hm j hj hj0 => ?_, fun j hj => ?_⟩).after hft
          · obtain ⟨h1, h2⟩ := hf.found ino j hj
            exact ⟨by omega, h2⟩
          · by_cases hji : j = i
            · exact hji ▸ hname
            · exact hf.missing hm j (by omega) hj0
          · obtain ⟨h1, h2⟩ := hf.free j hj
            exact ⟨by omega, h2⟩
    · rintro e t - ⟨⟨⟩, -⟩
    · rintro t hft ht
      exact ⟨hft.error, .inr ⟨rfl, ht⟩⟩

theorem sfsDirFindname_endures (name : CString) :
    Endures NoPanic (sfsDirFindname sv name) s (fun r t => match r with
      | .ok f => FoundOk c name c.slots f ∧ t = c
      | .error _ => False) (· = c) := by
  simp only [sfsDirFindname, Endures, sat_bind]
  refine (sfsDirNentries_returns C hv hroot D hs).mono ?_
  rintro _ t ⟨rfl, rfl⟩
  refine sfsDirFindLoop_endures C hv hroot D hs name 0 c.slots (Nat.zero_add _) ⟨?_, ?_, ?_⟩
  · exact fun _ _ h => nomatch h
  · exact fun _ i hi => absurd hi (Nat.not_lt_zero i)
  · exact fun _ h => nomatch h

/-- A name is entered in a slot that was free, or the directory stays as it was. -/
def Entered (L H : Nat → Prop) (name : CString) (ino : Nat) (s : SfsFs) (r : Except Errno Nat)
    (t : SfsFs) : Prop :=
  Core L H t ∧ FileStep L sfsRootLocation s t ∧ match r with
    | .ok i => DirPut s t i (SfsDir.named (BitVec.ofNat 32 ino) name.bytes) ∧
        name.bytes.length < sfsNamelen ∧ (i < s.slots → s.slotIno i = 0) ∧
        ∀ j < s.slots, s.slotIno j ≠ 0 → (s.slot j).name ≠ name.bytes
    | .error _ => DirSame s t

/-- On a device that fails the name is not entered, but the slot for it may be there. -/
theorem sfsDirLink_endures (name : CString) (ino : Nat) :
    Endures NoPanic (sfsDirLink sv name ino) s (Entered L H name ino c) (fun t =>
      (∃ H', Core L H' t) ∧ FileStep L sfsRootLocation c t ∧ ∃ i, DirTorn c t i) := by
  have quiet : FileStep L sfsRootLocation c c := (Quiet.refl C.table).toFileStep
  simp only [sfsDirLink, Endures, sat_bind]
  refine (sfsDirFindname_endures C hv hroot D hs name).seq ?_ ?_ ?_
  · rintro f t hft ⟨hf, ht⟩
    simp only [sat_ite, sat_raise]
    -- the calls that fail before they write
    have refuse {e : Errno} (he : e ≠ .eio) : Fares s (.error e : Except Errno Nat) t ∧
        (Entered L H name ino c (.error e) t.calm ∨ .error e = (.error .eio : Except Errno Nat) ∧
          (∃ H', Core L H' t.calm) ∧ FileStep L sfsRootLocation c t.calm ∧ ∃ i, DirTorn c t.calm i) := by
      rw [ht]
      exact ⟨⟨hft.mem, fun hs => ⟨(hft.io hs).1, fun h => he (Except.error.inj h)⟩⟩, .inl ⟨C, quiet, .refl _⟩⟩
    split
    · exact refuse (by simp)
    · next hnone =>
      have hmiss := hf.missing (by simpa using hnone)
      split
      · exact refuse (by simp)
      · next hlen =>
        have hlen : name.bytes.length < sfsNamelen := by omega
        -- the slot is a free one or the first one past the end
        have write (i : Nat) (hi : i ≤ c.slots) (hfree : i < c.slots → c.slotIno i = 0) : Sat NoPanic (do
              sfsWritedir sv (SfsDir.named (BitVec.ofNat 32 ino) name.bytes) i
              pure i) t (fun r u => Fares s r u ∧ (Entered L H name ino c r u.calm ∨
                r = .error .eio ∧ (∃ H', Core L H' u.calm) ∧ FileStep L sfsRootLocation c u.calm ∧
                  ∃ i, DirTorn c u.calm i)) := by
          simp only [sat_bind]
          refine (sfsWritedir_endures C hv hroot D ht hi
            (SfsDir.length_encode_named _ (Nat.le_of_lt hlen))).seq ?_ ?_ ?_
          · rintro a u hfu ⟨E, st, hu⟩
            exact ⟨(hft.trans hfu).value i, .inl ⟨E, st, hu, hlen, hfree, hmiss⟩⟩
          · rintro e u hfu ⟨E, st, hu⟩
            exact ⟨(hft.trans hfu).error, .inl ⟨E, st, hu⟩⟩
          · rintro u hfu ⟨E, st, hu⟩
            exact ⟨(hft.trans hfu).error, .inr ⟨rfl, E, st, i, hu⟩⟩
        cases hfree : f.emptyslot with
        | some i =>
          obtain ⟨h1, h2⟩ := hf.free i hfree
          exact write i (Nat.le_of_lt h1) fun _ => h2
        | none =>
          refine (sat_bind _).2 ?_
          refine (sfsDirNentries_returns C hv hroot D ht).mono ?_
          rintro _ u ⟨rfl, rfl⟩
          exact write c.slots le_rfl fun h => absurd h (Nat.lt_irrefl _)
  · rintro e t - ⟨⟩
  · rintro t hft ht
    refine ⟨hft.error, .inr ⟨rfl, ⟨H, ht ▸ C⟩, ht ▸ quiet, 0, ?_⟩⟩
    rw [ht]
    exact ⟨fun _ => rfl, .inl rfl⟩

theorem sfsDirUnlink_endures {i : Nat} (hi : i < c.slots) :
    Endures NoPanic (sfsDirUnlink sv i) s (fun r t => Core L H t ∧
      FileStep L sfsRootLocation c t ∧ match r with
      | .ok _ => DirPut c t i (SfsDir.named sfsNoino [])
      | .error _ => DirSame c t)
      (fun t => (∃ H', Core L H' t) ∧ FileStep L sfsRootLocation c t ∧ DirSame c t) := by
  refine (sfsWritedir_endures C hv hroot D hs (Nat.le_of_lt hi) (SfsDir.length_encode_named _ (by decide))).seq ?_ ?_ ?_
  · exact fun a t hf h => ⟨hf, .inl h⟩
  · exact fun e t hf h => ⟨hf, .inl h⟩
  · exact fun t hf h => ⟨hf, .inr ⟨rfl, h.1, h.2.1, h.2.2.same hi⟩⟩

end Slots

/-! ### Devices that work -/

section Healthy

variable {sv : Nat} {v : SfsVnode} (C : Core L H s) (hv : s.vnode? sv = some v)
  (hroot : v.svIno = sfsRootLocation) (D : DirOk s)
include C hv hroot D

theorem sfsDirFindname_spec (name : CString) :
    Sat NoPanic (sfsDirFindname sv name) s (fun r t => match r with
      | .ok f => FoundOk s name s.slots f ∧ t = s
      | .error _ => False) :=
  (sfsDirFindname_endures C hv hroot D C.calm_eq name).healthy C

theorem sfsDirLink_spec (name : CString) (ino : Nat) :
    Sat NoPanic (sfsDirLink sv name ino) s (Entered L H name ino s) :=
  (sfsDirLink_endures C hv hroot D C.calm_eq name ino).healthy C

theorem sfsDirUnlink_spec {i : Nat} (hi : i < s.slots) :
    Sat NoPanic (sfsDirUnlink sv i) s (fun r t => Core L H t ∧
      FileStep L sfsRootLocation s t ∧ match r with
      | .ok _ => DirPut s t i (SfsDir.named sfsNoino [])
      | .error _ => DirSame s t) :=
  (sfsDirUnlink_endures C hv hroot D C.calm_eq hi).healthy C

omit D in
/-- A name can always be taken away: the block it is in is there. -/
theorem sfsDirUnlink_ok {i : Nat} (h0 : s.slotIno i ≠ 0) :
    Sat (fun _ => True) (sfsDirUnlink sv i) s (fun r _ => r = .ok ()) := by
  have hlen : (SfsDir.named sfsNoino []).encode.length = sizeofSfsDir :=
    SfsDir.length_encode_named _ (by decide)
  have hres : (mkKuio (SfsDir.named sfsNoino []).encode (i * sizeofSfsDir) .write).uioResid = sizeofSfsDir := hlen
  have hmap : s.ptr (.data v.svIno (i * sizeofSfsDir / sfsBlocksize)) ≠ 0 := by
    intro hz
    -- an entry in a missing block reads as zeros
    refine h0 ?_
    rw [hroot] at hz
    have hzero : s.fileBytes sfsRootLocation (i * sizeofSfsDir) sizeofSfsDir = List.replicate sizeofSfsDir 0 := by
      refine List.eq_replicate_iff.2 ⟨length_fileBytes .., fun b hb => ?_⟩
      obtain ⟨j, hj, rfl⟩ := List.mem_map.1 hb
      have hdiv : (i * sizeofSfsDir + j) / sfsBlocksize = i * sizeofSfsDir / sfsBlocksize := by
        have := List.mem_range.1 hj
        unfold sizeofSfsDir sfsBlocksize at *
        omega
      rw [byte, hdiv, block, if_pos hz]
      exact Block.get_zero _
    rw [slotIno, slot, hzero]
    decide
  simp only [sfsDirUnlink, sfsWritedir, sat_bind, sat_withUio, sat_ofExcept, sat_check]
  have h64 : sizeofSfsDir < 2 ^ 32 := by decide
  have hlt : i * sizeofSfsDir / sfsBlocksize < sfsMaxblocks := Nat.lt_of_not_le fun hle => hmap (ptr_data_of_le hle)
  have hpos : i * sizeofSfsDir < 2 ^ 32 := by
    have hmax := Nat.lt_mul_of_div_lt hlt (by decide)
    exact Nat.lt_trans hmax (by decide)
  have hf : (mkKuio (SfsDir.named sfsNoino []).encode (i * sizeofSfsDir) .write).Fits :=
    mkKuio_fits (hlen ▸ h64) hpos _
  refine (sfsIo_mapped C hv hf rfl rfl hmap ?_ ?_ ?_).mono ?_
  · rw [hres]
    change i * sizeofSfsDir % sfsBlocksize + sizeofSfsDir ≤ sfsBlocksize
    unfold sizeofSfsDir sfsBlocksize
    omega
  · rw [hres]
    decide
  · rw [hres]
    decide
  · rintro _ ⟨t, w⟩ rfl
    by_cases hz : w.uioResid = 0 <;> simp [hz]

end Healthy

end Os161.Sfs
