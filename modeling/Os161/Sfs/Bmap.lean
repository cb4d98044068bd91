import Os161.Sfs.Invariant
import Os161.Sfs.File

/-!
# Block allocation and block mapping

Specifications of `sfs_balloc`, `sfs_bfree` and `sfs_bmap`. None of them stops the machine;
`sfs_bmap` changes no contents, since a block is cleared before it is entered in a file, and it
leaves every block with exactly one owner even when space runs out between the indirect block
and the data block. When a transfer fails, a block that was just allocated may stay marked in
the free map without an owner, and nothing else is lost.
-/
namespace Os161.Sfs

open Lib Kern SfsFs Prog

abbrev NoPanic : SfsPanic → Prop := fun _ => False

variable {Q : Except Errno Unit → SfsFs → Prop}

section Primitives

variable {K : SfsPanic → Prop} {s : SfsFs}

theorem sat_vnode {sv : Nat} {v : SfsVnode} (hv : s.vnode? sv = some v) {Q : Except Errno SfsVnode → SfsFs → Prop} :
    Sat K (vnode sv) s Q ↔ Q (.ok v) s := by
  simp [vnode, hv]

@[simp] theorem sat_modifyVnode (sv : Nat) (f : SfsVnode → SfsVnode) :
    Sat K (modifyVnode sv f) s Q ↔ Q (.ok ()) (s.updateVnode sv f) := Iff.rfl

@[simp] theorem sat_setInode (sv : Nat) (f : SfsInode → SfsInode) :
    Sat K (setInode sv f) s Q ↔ Q (.ok ()) (s.updateVnode sv (SfsVnode.setInode f)) := Iff.rfl

section

variable {b : Nat} (hf : s.ioFaults = []) (hb : b < s.sfsDevice.dBlocks)
include hf hb

theorem sat_deviceIo : Sat K (deviceIo b) s Q ↔ Q (.ok ()) s := by
  have : { s with ioFaults := [] } = s := by rw [← hf]
  simp [deviceIo, hb, hf, nextFault, this]

theorem sat_sfsRblock {Q : Except Errno Block → SfsFs → Prop} : Sat K (sfsRblock b) s Q ↔ Q (.ok (s.sector b)) s := by
  simp [sfsRblock, sat_deviceIo hf hb, sector]

theorem sat_sfsWblock (d : Block) : Sat K (sfsWblock d b) s Q ↔ Q (.ok ()) (s.writeSector b d) := by
  simp [sfsWblock, sat_deviceIo hf hb]

end

/-- A write on a device that may fail. One failure is used up either way. -/
theorem sat_sfsWblock_faulty {b : Nat} (hb : b < s.sfsDevice.dBlocks) (d : Block)
    : Sat K (sfsWblock d b) s Q ↔ if (nextFault s.ioFaults).1 = true then
        Q (.error .eio) { s with ioFaults := (nextFault s.ioFaults).2 }
      else Q (.ok ()) ({ s with ioFaults := (nextFault s.ioFaults).2 }.writeSector b d) := by
  by_cases hf : (nextFault s.ioFaults).1 = true
  · simp [sfsWblock, deviceIo, hb, hf]
  · simp [sfsWblock, deviceIo, hb, hf]

theorem sat_sfsBfree {b : Nat} (hn : b < s.sfsFreemap.nbits) (hu : s.used b) :
    Sat K (sfsBfree b) s Q ↔ Q (.ok ()) (s.unmark b) := by
  have hu' : bitTest s.sfsFreemap.v b = true := hu
  simp [sfsBfree, freemap, bitmapUnmark, hn, hu', SfsFs.unmark]

theorem sat_sfsBused {b : Nat} (hb : b < s.nblocks) {Q : Except Errno Bool → SfsFs → Prop} :
    Sat K (sfsBused b) s Q ↔ Q (.ok (bitmapIsset s.sfsFreemap b)) s := by
  simp [sfsBused, hb]

theorem sat_checkUsed {b : Nat} (hb : b ≠ 0 → b < s.nblocks ∧ s.used b) :
    Sat K (checkUsed b) s Q ↔ Q (.ok ()) s := by
  by_cases h0 : b = 0
  · simp [checkUsed, h0]
  · obtain ⟨hlt, hu⟩ := hb h0
    have hu' : bitmapIsset s.sfsFreemap b = true := hu
    simp [checkUsed, h0, sat_sfsBused hlt, hu']

end Primitives

/-! ## Calls on a device that may fail -/

/-- The call ends as `P` says or, after a failed transfer, with `EIO` as `R` says. Both speak of
the states without the failures ahead. -/
def Endures {α : Type} (K : SfsPanic → Prop) (m : SfsM α) (s : SfsFs)
    (P : Except Errno α → SfsFs → Prop) (R : SfsFs → Prop) : Prop :=
  Prog.Sat K m s fun r t => Fares s r t ∧ (P r t.calm ∨ r = .error .eio ∧ R t.calm)

namespace Endures

variable {α : Type} {K : SfsPanic → Prop} {m : SfsM α} {s : SfsFs}
  {P : Except Errno α → SfsFs → Prop} {R : SfsFs → Prop}

/-- What follows the call deals with its three kinds of outcome. -/
theorem seq (h : Endures K m s P R) {Q : Except Errno α → SfsFs → Prop}
    (ok : ∀ a t, Fares s (.ok a : Except Errno α) t → P (.ok a) t.calm → Q (.ok a) t)
    (err : ∀ e t, Fares s (.error e : Except Errno α) t → P (.error e) t.calm → Q (.error e) t)
    (bad : ∀ t, Fares s (.error .eio : Except Errno α) t → R t.calm → Q (.error .eio) t) : Sat K m s Q := by
  refine h.mono fun r t hr => ?_
  obtain ⟨hf, hp | ⟨rfl, hb⟩⟩ := hr
  · cases r with
    | ok a => exact ok a t hf hp
    | error e => exact err e t hf hp
  · exact bad t hf hb

theorem after {β : Type} {t : SfsFs} {b : β} (h : Endures K m t P R) (hf : Fares s (.ok b : Except Errno β) t) :
    Sat K m t fun r u => Fares s r u ∧ (P r u.calm ∨ r = .error .eio ∧ R u.calm) :=
  h.mono fun _ _ hr => ⟨hf.trans hr.1, hr.2⟩

/-- On a device that does not fail only the first outcome is left. -/
theorem of_no_faults (h : Endures K m s P R) (hio : s.ioFaults = []) (hmem : s.memFaults = []) : Sat K m s P := by
  refine Sat.mono h fun r t hr => ?_
  obtain ⟨hio', he⟩ := hr.1.io hio
  rw [calm_of_no_faults hio' (hr.1.mem.trans hmem)] at hr
  exact hr.2.resolve_right fun hb => he hb.1

theorem healthy {L H : Nat → Prop} (h : Endures K m s P R) (C : Core L H s) : Sat K m s P :=
  h.of_no_faults C.ioFaults C.memFaults

end Endures

section Transfer

variable {s : SfsFs} {b : Nat} (hb : b < s.sfsDevice.dBlocks)
include hb

theorem deviceIo_spec : Endures NoPanic (deviceIo b) s (fun r t => r = .ok () ∧ t = s.calm) (· = s.calm) := by
  have hlt : b < s.sfsDevice.dBlocks := hb
  simp only [Endures, deviceIo, sat_bind, sat_get, sat_check, if_pos hlt, sat_modify, sat_ite, sat_raise, sat_pure]
  cases hf : s.ioFaults with
  | nil => exact ⟨⟨rfl, fun _ => ⟨rfl, by simp⟩⟩, .inl ⟨trivial, rfl⟩⟩
  | cons fault rest =>
    have hne : s.ioFaults = [] → False := by simp [hf]
    cases fault with
    | false => exact ⟨⟨rfl, fun h => (hne h).elim⟩, .inl ⟨trivial, rfl⟩⟩
    | true => exact ⟨⟨rfl, fun h => (hne h).elim⟩, .inr ⟨trivial, rfl⟩⟩

theorem sfsRblock_spec :
    Endures NoPanic (sfsRblock b) s (fun r t => r = .ok (s.sector b) ∧ t = s.calm) (· = s.calm) := by
  simp only [Endures, sfsRblock, sat_bind, sat_get, sat_pure]
  refine (deviceIo_spec hb).seq (fun _ t hf h => ?_) (fun e t _ h => by cases h.1)
    fun t hf h => ⟨hf.error, .inr ⟨rfl, h⟩⟩
  have hd : t.sfsDevice = s.sfsDevice := congrArg (·.sfsDevice) h.2
  refine ⟨hf.trans (.still rfl rfl), .inl ⟨?_, h.2⟩⟩
  rw [hd]
  rfl

theorem sfsWblock_spec (d : Block) :
    Endures NoPanic (sfsWblock d b) s (fun r t => r = .ok () ∧ t = s.calm.writeSector b d) (· = s.calm) := by
  simp only [Endures, sfsWblock, sat_bind, sat_modify]
  refine (deviceIo_spec hb).seq (fun _ t hf h => ?_) (fun e t _ h => by cases h.1) fun t hf h => ⟨hf, .inr ⟨rfl, h⟩⟩
  exact ⟨hf.trans (.still rfl rfl), .inl ⟨trivial, congrArg (·.writeSector b d) h.2⟩⟩

end Transfer

variable {L H : Nat → Prop} {s : SfsFs}

theorem nblocks_le_bitmapsize (n : Nat) : n ≤ sfsBitmapsize n := by
  unfold sfsBitmapsize sfsRoundup sfsBlockbits sfsBlocksize
  omega

theorem Core.nblocks_le (C : Core L H s) : s.nblocks ≤ s.sfsFreemap.nbits :=
  C.nbits ▸ nblocks_le_bitmapsize _

theorem Core.padded (C : Core L H s) : s.sfsFreemap.Padded := by
  intro i hn hw
  have h := C.nbits
  unfold Bitmap.words divroundup bitsPerWord at hw
  unfold sfsBitmapsize sfsRoundup sfsBlockbits sfsBlocksize at h
  omega

def BallocPost (s : SfsFs) (r : Except Errno Nat) (t : SfsFs) : Prop :=
  match r with
  | .ok b => ¬ s.used b ∧ b < s.nblocks ∧ t = s.allocated b
  | .error e => e = .enospc ∧ t = s

/-- A block that cannot be cleared stays marked. -/
theorem sfsBalloc_endures (C : Core L H s.calm) : Endures NoPanic sfsBalloc s (BallocPost s.calm)
    (fun t => ∃ b, ¬ s.used b ∧ b < s.nblocks ∧ t = s.calm.mark b) := by
  unfold Endures sfsBalloc freemap
  simp only [sat_bind, sat_focus]
  refine (bitmapAlloc_spec s.sfsFreemap C.padded).mono ?_ |>.weaken fun _ h => h
  rintro (e | b) m h
  · obtain ⟨rfl, rfl, -⟩ := h
    exact ⟨.still rfl rfl, .inl ⟨rfl, rfl⟩⟩
  · obtain ⟨hlt, hfree, -, rfl⟩ := h
    have hu : ¬ s.used b := by simp [used, hfree]
    have hb : b < s.nblocks := by
      by_contra hge
      exact hu (C.padding b (Nat.le_of_not_lt hge) hlt)
    simp only [sat_modify, sat_get, sat_check]
    rw [if_pos (by exact hb)]
    have hdev : b < (s.mark b).sfsDevice.dBlocks := C.dBlocks ▸ hb
    refine (sfsWblock_spec (s := s.mark b) hdev Block.zero).seq (fun _ t hf h => ?_)
      (fun e t _ h => by cases h.1) fun t hf h => ?_
    · exact ⟨⟨hf.mem, fun hs => ⟨(hf.io hs).1, by simp⟩⟩, .inl ⟨hu, hb, h.2⟩⟩
    · exact ⟨⟨hf.mem, fun hs => absurd rfl (hf.io hs).2⟩, .inr ⟨rfl, b, hu, hb, h⟩⟩

theorem sfsBalloc_spec (C : Core L H s) :
    Sat NoPanic sfsBalloc s (fun r t => match r with
      | .ok b => ¬ s.used b ∧ b < s.nblocks ∧ t = s.allocated b
      | .error e => e = .enospc ∧ t = s) := by
  have h := (sfsBalloc_endures (s := s) (C.calm_eq.symm ▸ C)).healthy C
  rw [C.calm_eq] at h
  exact h

/-! ## Entering a block in a file -/

variable {k : Nat}

/-- Entering a cleared block where there was none changes no contents. -/
theorem byte_attach {s t : SfsFs} {ino b : Nat} (hs : ∀ j, s.ptr (.data ino j) ≠ 0 →
      t.sector (s.ptr (.data ino j)) = s.sector (s.ptr (.data ino j)))
    (h0 : s.ptr (.data ino k) = 0) (hz : t.sector b = Block.zero)
    (hp : ∀ j, t.ptr (.data ino j) = if j = k then b else s.ptr (.data ino j)) (i : Nat) :
    t.byte ino i = s.byte ino i := by
  by_cases hi : i / sfsBlocksize = k
  · simp [byte, block, hp, hi, h0, hz]
  · refine byte_congr ?_ (hs _)
    rw [hp, if_neg hi]

theorem toNat_ofNat_of_lt_nblocks {b : Nat} (hb : b < s.nblocks) : (BitVec.ofNat 32 b).toNat = b := by
  have : s.nblocks < 2 ^ 32 := s.sfsSuper.spNblocks.isLt
  rw [BitVec.toNat_ofNat, Nat.mod_eq_of_lt (by omega)]

/-- The held set after the block taken last is entered somewhere. -/
theorem held_but {b : Nat} (hb : ¬ H b) (c : Nat) : H c ↔ (H c ∨ c = b) ∧ c ≠ b := by
  grind

section Install

variable {sv b : Nat} {v : SfsVnode} (C : Core L (fun c => H c ∨ c = b) s) (hH : ¬ H b)
  (hv : s.vnode? sv = some v) (hz : s.sector b = Block.zero)
include C hH hv hz

theorem Core.installDirect (hk : k < sfsNdirect) (h0 : s.ptr (.data v.svIno k) = 0) {t : SfsFs}
    (ht : t = s.updateVnode sv (SfsVnode.setInode (·.setDirect k (BitVec.ofNat 32 b)))) :
    Core L H t ∧ Quiet L v.svIno s t ∧ t.ptr (.data v.svIno k) = b := by
  subst ht
  have hl := (C.vnode v (C.table.vnode?_iff.1 hv).1).live
  have hp (q : Ptr) := C.table.ptr_setDirect hv hk (BitVec.ofNat 32 b) q
  simp only [toNat_ofNat_of_lt_nblocks (C.owned.held_used (.inr rfl)).1] at hp
  have ho := C.owned.attach (p := .data v.svIno k) hl h0 (.inr rfl) fun q _ => hp q
  refine ⟨(C.setInode hv rfl ho).held_congr (held_but hH), ?_, by simp [hp]⟩
  refine ⟨C.fileStep_setInode hv rfl rfl, ?_, ?_⟩
  · exact byte_attach (fun _ _ => rfl) h0 hz fun j => by simp [hp]
  · rw [C.table.inode_setInode hv, if_pos rfl, C.table.inode_of_vnode? hv]
    rfl

theorem Core.installIndirect (h0 : s.ptr (.indirect v.svIno) = 0) {t : SfsFs} (ht : t = s.updateVnode sv
    (SfsVnode.setInode fun i => { i with sfiIndirect := BitVec.ofNat 32 b })) :
    Core L H t ∧ Quiet L v.svIno s t ∧ t.ptr (.indirect v.svIno) = b := by
  subst ht
  have hl := (C.vnode v (C.table.vnode?_iff.1 hv).1).live
  have hset (q : Ptr) := C.table.ptr_setIndirect hv (BitVec.ofNat 32 b) q
  simp only [toNat_ofNat_of_lt_nblocks (C.owned.held_used (.inr rfl)).1] at hset
  have hp : ∀ q, (s.updateVnode sv (SfsVnode.setInode fun i => { i with sfiIndirect := BitVec.ofNat 32 b })).ptr q =
        if q = .indirect v.svIno then b else s.ptr q := by
    intro q
    rw [hset]
    cases q with
    | indirect ino => simp
    | data ino k =>
      -- there was no indirect block, and the new one lists no blocks
      by_cases hk : ino = v.svIno ∧ sfsNdirect ≤ k
      · obtain ⟨rfl, hk⟩ := hk
        simp [ptr_data_none hk h0, hz, hk]
      · simp [hk]
  have ho := C.owned.attach (p := .indirect v.svIno) hl h0 (.inr rfl) fun q _ => hp q
  refine ⟨(C.setInode hv rfl ho).held_congr (held_but hH), ?_, by simp [hp]⟩
  refine ⟨C.fileStep_setInode hv rfl rfl, fun i => ?_, ?_⟩
  · exact byte_congr (by simp [hp]) fun _ => rfl
  · rw [C.table.inode_setInode hv, if_pos rfl, C.table.inode_of_vnode? hv]

theorem Core.installEntry {j : Nat} (hj : j < sfsDbperidb) (hid : s.ptr (.indirect v.svIno) ≠ 0)
    (h0 : s.ptr (.data v.svIno (sfsNdirect + j)) = 0) {t : SfsFs}
    (ht : t = s.writeSector (s.ptr (.indirect v.svIno)) (Block.ofWords
      (Function.update (s.sector (s.ptr (.indirect v.svIno))).word j (BitVec.ofNat 32 b)))) :
    Core L H t ∧ Quiet L v.svIno s t ∧ t.ptr (.data v.svIno (sfsNdirect + j)) = b := by
  have hl := (C.vnode v (C.table.vnode?_iff.1 hv).1).live
  have hbn := toNat_ofNat_of_lt_nblocks (C.owned.held_used (.inr rfl)).1
  have hp : ∀ q, L q.ino → t.ptr q = if q = .data v.svIno (sfsNdirect + j) then b else s.ptr q := by
    intro q hq
    cases q with
    | indirect ino =>
      rw [ht, C.indirect_writeIndirect hl hid _ (j := ino) hq]
      simp
    | data ino k =>
      rw [ht, C.data_writeIndirect hl hid _ (j := ino) hq]
      by_cases hk : ino = v.svIno ∧ sfsNdirect ≤ k ∧ k < sfsMaxblocks
      · obtain ⟨rfl, hk, hm⟩ := hk
        have hkj : k - sfsNdirect = j ↔ k = sfsNdirect + j := by omega
        simp only [hk, hm, true_and, if_true, Function.update_apply, hkj, Ptr.data.injEq]
        split
        · exact hbn
        · rw [ptr_data_entry hk hm hid]
      · rw [if_neg hk, if_neg]
        intro he
        obtain ⟨rfl, rfl⟩ := Ptr.data.inj he
        refine hk ⟨rfl, Nat.le_add_right _ _, ?_⟩
        unfold sfsMaxblocks
        omega
  have ho := C.owned.attach (p := .data v.svIno (sfsNdirect + j)) hl h0 (.inr rfl) hp
  refine ⟨?_, ⟨?_, ?_, ?_⟩, by simp [hp (.data v.svIno _) hl]⟩
  · subst ht
    exact (C.writeIndirect hl hid _ ho).held_congr (held_but hH)
  · exact ht ▸ C.fileStep_writeIndirect hl hid _
  · refine byte_attach (b := b) (fun i hi => ?_) h0 ?_ fun i => by simp [hp (.data v.svIno i) hl]
    · exact ht ▸ C.sector_writeIndirect hl _ (q := .data v.svIno i) hl (by simp) hi
    · rw [ht, sector_writeSector, if_neg, hz]
      exact (C.owned.pointer_ne_held (p := .indirect v.svIno) hl (.inr rfl)).symm
  · rw [ht, C.inode_writeIndirect hl hid _ hl]

end Install

/-! ## Block mapping -/

structure BmapPost (L H : Nat → Prop) (s : SfsFs) (ino k : Nat) (doalloc : Bool)
    (r : Except Errno Nat) (t : SfsFs) : Prop where
  core : Core L H t
  quiet : Quiet L ino s t
  ok : ∀ b, r = .ok b → k < sfsMaxblocks ∧ b = t.ptr (.data ino k) ∧
    (doalloc = true → b ≠ 0) ∧ (doalloc = false → t = s)
  error : ∀ e, r = .error e →
    (e = .einval ∧ sfsMaxblocks ≤ k ∧ t = s) ∨
      (e = .enospc ∧ doalloc = true ∧ s.ptr (.data ino k) = 0)

theorem Core.live_of_vnode? {sv : Nat} {v : SfsVnode} (C : Core L H s) (hv : s.vnode? sv = some v) :
    L v.svIno := (C.vnode v (C.table.vnode?_iff.1 hv).1).live

/-- A transfer failed under `sfs_bmap`: blocks of which no file knows may be marked as used, and the
file `ino` reads as before. -/
structure Leaked (L H : Nat → Prop) (s : SfsFs) (ino : Nat) (t : SfsFs) : Prop where
  core : ∃ H', (∀ b, H b → H' b) ∧ Core L H' t
  quiet : Quiet L ino s t

namespace Leaked

variable {t u : SfsFs} {ino b : Nat}

theorem refl (C : Core L H s) : Leaked L H s ino s := ⟨⟨H, fun _ h => h, C⟩, .refl C.table⟩

theorem after (h : Leaked L H t ino u) (q : Quiet L ino s t) : Leaked L H s ino u :=
  ⟨h.core, q.trans h.quiet⟩

theorem mark (C : Core L H s) (hl : L ino) (hb : ¬ s.used b) (hn : b < s.nblocks) : Leaked L H s ino (s.mark b) :=
  ⟨⟨_, fun _ => .inl, C.mark hb hn⟩,
    .of_views C.table ⟨rfl, rfl, rfl, rfl, rfl, rfl⟩ rfl hl (fun _ _ => rfl) fun _ _ _ => rfl⟩

theorem allocated (C : Core L H s) (hl : L ino) (hb : ¬ s.used b) (hn : b < s.nblocks) :
    Leaked L H s ino (s.allocated b) :=
  ⟨⟨_, fun _ => .inl, C.allocated hb hn⟩, C.quiet_allocated hb hl⟩

end Leaked

section Faults

variable {sv : Nat} {v : SfsVnode} (C : Core L H s.calm) (hv : s.vnode? sv = some v)
include C hv

theorem sfsBmapDirect_endures (hk : k < sfsNdirect) (doalloc : Bool) :
    Endures NoPanic (sfsBmapDirect sv k doalloc) s (BmapPost L H s.calm v.svIno k doalloc)
      (fun t => doalloc = true ∧ Leaked L H s.calm v.svIno t) := by
  have hl := C.live_of_vnode? hv
  have hkm : k < sfsMaxblocks := Nat.lt_add_right _ hk
  have hptr : (v.svI.direct k).toNat = s.calm.ptr (.data v.svIno k) := by
    rw [ptr_data_direct hk, C.table.inode_of_vnode? hv]
  simp only [Endures, sfsBmapDirect, sat_bind, sat_vnode hv, hptr, sat_ite, sat_pure, sat_setInode]
  by_cases ha : s.calm.ptr (.data v.svIno k) = 0 ∧ doalloc = true
  · rw [if_pos ha]
    obtain ⟨h0, hd⟩ := ha
    refine (sfsBalloc_endures C).seq (fun b t hf h => ?_) (fun e t hf h => ?_) fun t hf h => ?_
    · obtain ⟨hb, hn, ht⟩ := h
      have C' := C.allocated hb hn
      have hH : ¬ H b := fun h => hb (C.owned.held_used h).2
      have hvt : t.vnode? sv = some v := (congrArg (·.vnode? sv) ht).trans hv
      rw [← ht] at C'
      obtain ⟨D, q, hp⟩ := C'.installDirect hH hvt (by rw [ht]; simp [sector_allocated]) hk
        (by rw [ht, C.ptr_allocated hb (.data _ _) hl, h0]) rfl
      refine (sat_checkUsed fun _ => ?_).2 ?_
      · have := D.owned.pointer_used (p := .data v.svIno k) hl (by
          rw [hp]
          exact C'.owned.held_ne_zero (.inr rfl))
        rwa [hp] at this
      · refine ⟨hf.trans (.still rfl rfl), .inl ⟨D, ?_, ?_, fun _ h => by cases h⟩⟩
        · exact (ht ▸ C.quiet_allocated hb hl).trans q
        · rintro _ ⟨⟩
          exact ⟨hkm, hp.symm, fun _ => C'.owned.held_ne_zero (.inr rfl), fun h => by simp_all⟩
    · obtain ⟨rfl, ht⟩ := h
      rw [ht]
      refine ⟨hf, .inl ⟨C, .refl C.table, by simp, fun e he => .inr ⟨?_, hd, h0⟩⟩⟩
      simpa using he.symm
    · obtain ⟨b, hb, hn, ht⟩ := h
      exact ⟨hf, .inr ⟨rfl, hd, ht ▸ .mark C hl hb hn⟩⟩
  · rw [if_neg ha]
    refine (sat_checkUsed (s := s) fun h0 => C.owned.pointer_used (p := .data v.svIno k) hl h0).2 ?_
    refine ⟨.still rfl rfl, .inl ⟨C, .refl C.table, ?_, by simp⟩⟩
    rintro _ ⟨⟩
    exact ⟨hkm, rfl, fun hd h0 => ha ⟨h0, hd⟩, fun _ => rfl⟩

def IdblockPost (L H : Nat → Prop) (s : SfsFs) (sv ino : Nat) (r : Except Errno (Nat × (Nat → Word)))
    (t : SfsFs) : Prop :=
  match r with
  | .ok (idb, buf) => Core L H t ∧ Quiet L ino s t ∧ idb = t.ptr (.indirect ino) ∧
      idb ≠ 0 ∧ buf = (t.sector idb).word ∧ (s.ptr (.indirect ino) ≠ 0 → t = s) ∧
      ∃ w, t.vnode? sv = some w ∧ w.svIno = ino
  | .error e => e = .enospc ∧ t = s ∧ s.ptr (.indirect ino) = 0

theorem sfsIdblock_endures : Endures NoPanic (sfsIdblock sv (s.calm.ptr (.indirect v.svIno))) s
    (IdblockPost L H s.calm sv v.svIno)
    (fun t => t = s.calm ∨ s.calm.ptr (.indirect v.svIno) = 0 ∧ Leaked L H s.calm v.svIno t) := by
  have hl := C.live_of_vnode? hv
  simp only [Endures, sfsIdblock, sat_ite, sat_bind, sat_setInode, sat_pure]
  by_cases h0 : s.calm.ptr (.indirect v.svIno) = 0
  · rw [if_pos h0]
    refine (sfsBalloc_endures C).seq (fun b t hf h => ?_) (fun e t hf h => ?_) fun t hf h => ?_
    · obtain ⟨hb, hn, ht⟩ := h
      have C' := C.allocated hb hn
      have hz : (s.calm.allocated b).sector b = Block.zero := by simp [sector_allocated]
      have hH : ¬ H b := fun h => hb (C.owned.held_used h).2
      have hvt : t.vnode? sv = some v := (congrArg (·.vnode? sv) ht).trans hv
      rw [← ht] at C' hz
      obtain ⟨D, q, hp⟩ := C'.installIndirect hH hvt hz (by rw [ht, C.ptr_allocated hb (.indirect _) hl, h0]) rfl
      have q' := (ht ▸ C.quiet_allocated hb hl : Quiet L v.svIno s.calm t.calm).trans q
      obtain ⟨i, d, hw⟩ := q'.vnode? hv
      refine ⟨hf.trans (.still rfl rfl), .inl ⟨D, q', hp.symm,
        C'.owned.held_ne_zero (.inr rfl), ?_, fun h => absurd h0 h, _, hw, rfl⟩⟩
      funext j
      exact (by simp [hz] : 0 = (t.calm.sector b).word j)
    · exact ⟨hf.error, .inl ⟨h.1, h.2, h0⟩⟩
    · obtain ⟨b, hb, hn, ht⟩ := h
      exact ⟨hf.error, .inr ⟨rfl, .inr ⟨h0, ht ▸ .mark C hl hb hn⟩⟩⟩
  · rw [if_neg h0]
    have hlt := (C.owned.pointer_used (p := .indirect v.svIno) hl h0).1
    refine (sfsRblock_spec (s := s) (C.dBlocks ▸ hlt)).seq (fun b t hf h => ?_)
      (fun e t _ h => by cases h.1) fun t hf h => ⟨hf.error, .inr ⟨rfl, .inl h⟩⟩
    obtain ⟨rfl, ht⟩ : b = s.sector _ ∧ t.calm = s.calm := ⟨by simpa using h.1, h.2⟩
    refine ⟨hf.trans (.still rfl rfl), .inl ?_⟩
    rw [ht]
    exact ⟨C, .refl C.table, rfl, h0, rfl, fun _ => rfl, v, hv, rfl⟩

theorem sfsBmapIndirect_endures {j : Nat} (hj : j < sfsDbperidb) (doalloc : Bool) :
    Endures NoPanic (sfsBmapIndirect sv j doalloc) s (BmapPost L H s.calm v.svIno (sfsNdirect + j) doalloc)
      (fun t => t = s.calm ∨ doalloc = true ∧ Leaked L H s.calm v.svIno t) := by
  have hl := C.live_of_vnode? hv
  have hkm : sfsNdirect + j < sfsMaxblocks := Nat.add_lt_add_left hj _
  have hptr : v.svI.sfiIndirect.toNat = s.calm.ptr (.indirect v.svIno) := by
    simp only [ptr, C.table.inode_of_vnode? hv]
  simp only [Endures, sfsBmapIndirect, sat_bind, sat_vnode hv, hptr, sat_ite, sat_pure]
  by_cases ha : s.calm.ptr (.indirect v.svIno) = 0 ∧ doalloc = false
  · rw [if_pos ha]
    refine ⟨.still rfl rfl, .inl ⟨C, .refl C.table, ?_, nofun⟩⟩
    rintro _ ⟨⟩
    refine ⟨hkm, (ptr_data_none (Nat.le_add_right _ _) ha.1).symm, ?_, fun _ => rfl⟩
    simp [ha.2]
  · rw [if_neg ha]
    refine (sfsIdblock_endures C hv).seq (fun p t hf h => ?_) (fun e t hf h => ?_) fun t hf h => ?_
    · obtain ⟨idb, buf⟩ := p
      obtain ⟨D, q, rfl, hid, rfl, hsame, w, hw, hwi⟩ := h
      have hent : ((t.calm.sector (t.calm.ptr (.indirect v.svIno))).word j).toNat =
          t.calm.ptr (.data v.svIno (sfsNdirect + j)) := by
        rw [ptr_data_entry (Nat.le_add_right _ _) hkm hid, Nat.add_sub_cancel_left]
      simp only [hent]
      by_cases hb : t.calm.ptr (.data v.svIno (sfsNdirect + j)) = 0 ∧ doalloc = true
      · rw [if_pos hb]
        obtain ⟨h0, hd⟩ := hb
        refine (sfsBalloc_endures D).seq (fun b u hf' h => ?_) (fun e u hf' h => ?_) fun u hf' h => ?_
        · obtain ⟨hb, hn, hu⟩ := h
          have D' := D.allocated hb hn
          have hz : (t.calm.allocated b).sector b = Block.zero := by simp [sector_allocated]
          have hH : ¬ H b := fun h => hb (D.owned.held_used h).2
          have hpi := D.ptr_allocated hb (.indirect v.svIno) hl
          have hib : t.calm.ptr (.indirect v.svIno) ≠ b := by
            rintro rfl
            exact hb (D.owned.pointer_used (p := .indirect v.svIno) hl hid).2
          have hse : (t.calm.allocated b).sector (t.calm.ptr (.indirect v.svIno)) =
              t.calm.sector (t.calm.ptr (.indirect v.svIno)) := by
            rw [sector_allocated, if_neg hib]
          have hlt := (D.owned.pointer_used (p := .indirect v.svIno) hl hid).1
          have hdev : t.calm.ptr (.indirect v.svIno) < u.sfsDevice.dBlocks := by
            have : u.sfsDevice.dBlocks = t.calm.sfsDevice.dBlocks := congrArg (·.sfsDevice.dBlocks) hu
            rw [this]
            exact D.dBlocks ▸ hlt
          have hleak : Leaked L H s.calm v.svIno (t.calm.allocated b) :=
            (Leaked.allocated D hl hb hn).after q
          refine (sfsWblock_spec hdev _).seq (fun _ x hf'' h => ?_) (fun e x _ h => nomatch h.1)
            fun x hf'' h => ⟨(hf.trans (hf'.trans hf'')).error, .inr ⟨rfl, .inr ⟨hd, ?_⟩⟩⟩
          · obtain ⟨-, hx⟩ := h
            rw [hu] at hx
            rw [← hwi] at hid h0 hpi hl hse hx ⊢
            obtain ⟨E, q', hp⟩ := D'.installEntry hH (v := w) hw hz hj (hpi ▸ hid)
              (by rw [D.ptr_allocated hb (.data _ _) hl, h0]) rfl
            rw [hpi, hse, ← hx] at E q' hp
            refine (sat_checkUsed fun _ => ?_).2 ?_
            · have := E.owned.pointer_used (p := .data w.svIno _) hl (by
                rw [hp]
                exact D'.owned.held_ne_zero (.inr rfl))
              rwa [hp] at this
            · refine ⟨(hf.trans (hf'.trans hf'')).trans (.still rfl rfl), .inl ⟨E, ?_, ?_, nofun⟩⟩
              · rw [hwi] at q' hl ⊢
                exact (q.trans (D.quiet_allocated hb hl)).trans q'
              · rintro _ ⟨⟩
                exact ⟨hkm, hp.symm, fun _ => D'.owned.held_ne_zero (.inr rfl), fun h => by simp_all⟩
          · rw [h, hu]
            exact hleak
        · obtain ⟨rfl, hu⟩ := h
          refine ⟨hf.trans hf', .inl ⟨hu ▸ D, hu ▸ q, nofun, fun e he => .inr ⟨by simpa using he.symm, hd, ?_⟩⟩⟩
          by_cases hind : s.calm.ptr (.indirect v.svIno) = 0
          · exact ptr_data_none (Nat.le_add_right _ _) hind
          · exact hsame hind ▸ h0
        · obtain ⟨b, hb, hn, hu⟩ := h
          refine ⟨hf.trans hf', .inr ⟨rfl, .inr ⟨hd, ?_⟩⟩⟩
          rw [hu]
          exact (Leaked.mark D hl hb hn).after q
      · rw [if_neg hb]
        refine (sat_checkUsed (s := t) fun h0 => D.owned.pointer_used (p := .data v.svIno _) hl h0).2 ?_
        refine ⟨hf.trans (.still rfl rfl), .inl ⟨D, q, ?_, nofun⟩⟩
        rintro _ ⟨⟩
        exact ⟨hkm, rfl, fun hd h0 => hb ⟨h0, hd⟩, fun hd => hsame fun h0 => ha ⟨h0, hd⟩⟩
    · obtain ⟨rfl, ht, h0⟩ := h
      rw [ht]
      refine ⟨hf.error, .inl ⟨C, .refl C.table, nofun, fun e he => .inr ⟨by simpa using he.symm, ?_,
        ptr_data_none (Nat.le_add_right _ _) h0⟩⟩⟩
      simpa [h0] using ha
    · refine ⟨hf.error, .inr ⟨rfl, h.imp_right fun h => ⟨?_, h.2⟩⟩⟩
      simpa [h.1] using ha

/-- `sfs_bmap` on a device that may fail. Without allocation it changes nothing. -/
theorem sfsBmap_endures (k : Nat) (doalloc : Bool) :
    Endures NoPanic (sfsBmap sv k doalloc) s (BmapPost L H s.calm v.svIno k doalloc)
      (fun t => t = s.calm ∨ doalloc = true ∧ Leaked L H s.calm v.svIno t) := by
  unfold Endures sfsBmap
  split
  · next hk =>
    exact (sfsBmapDirect_endures C hv hk doalloc).mono fun r t h =>
      ⟨h.1, h.2.imp_right fun h => ⟨h.1, .inr h.2⟩⟩
  · next hk =>
    simp only [sat_ite, sat_raise]
    by_cases hm : sfsMaxblocks ≤ k
    · rw [if_pos (by unfold sfsMaxblocks sfsNdirect sfsDbperidb at *; omega)]
      refine ⟨.still rfl rfl, .inl ⟨C, .refl C.table, by simp, fun e he => .inl ⟨?_, hm, rfl⟩⟩⟩
      simpa using he.symm
    · have hlt : k - sfsNdirect < sfsDbperidb := by unfold sfsMaxblocks at hm; omega
      rw [if_neg (by rw [Nat.div_eq_of_lt hlt]; omega), Nat.mod_eq_of_lt hlt]
      have := sfsBmapIndirect_endures C hv hlt doalloc
      rwa [Nat.add_sub_cancel' (Nat.le_of_not_lt hk)] at this

end Faults

theorem sfsBmap_spec {sv : Nat} {v : SfsVnode} (C : Core L H s) (hv : s.vnode? sv = some v) (k : Nat) (doalloc : Bool) :
    Sat NoPanic (sfsBmap sv k doalloc) s (BmapPost L H s v.svIno k doalloc) := by
  have h := (sfsBmap_endures (s := s) (C.calm_eq.symm ▸ C) hv k doalloc).healthy C
  rwa [C.calm_eq] at h

end Os161.Sfs
