import Os161.Sfs.Table

/-!
# Consistency of the volume

What holds between two calls: the core invariant, a proper directory, and link counts that
agree with the names. Inside a call the count of an inode may be off by the names already
entered or removed; `d` says by how much. The lemmas follow a call step by step: loading and
dropping vnodes, working on a file, changing a slot, changing a link count.
-/
namespace Os161.Sfs

open Lib Kern SfsFs

variable {L : Nat → Prop} {d : Nat → Int} {s t u : SfsFs} {sv : Nat} {v : SfsVnode}

structure Consistent (L : Nat → Prop) (d : Nat → Int) (s : SfsFs) : Prop where
  core : Core L (fun _ => False) s
  dir : DirOk s
  named : ∀ i < s.slots, s.slotIno i ≠ 0 → L (s.slotIno i)
  links : ∀ ino, L ino → ((s.inode ino).sfiLinkcount.toNat : Int) = s.links ino + d ino
  live : ∀ ino, L ino → ino = sfsRootLocation ∨ s.Loaded ino ∨ 0 < s.links ino

/-- The inodes in use: the root, those in memory, and those that a slot names. -/
def SfsFs.Live (s : SfsFs) (ino : Nat) : Prop :=
  ino = sfsRootLocation ∨ s.Loaded ino ∨ ino ≠ 0 ∧ 0 < s.links ino

/-- Between calls the root has one link more than names. -/
def rootLink (ino : Nat) : Int := if ino = sfsRootLocation then 1 else 0

/-- Adjust the offset of one inode. -/
def shift (d : Nat → Int) (ino : Nat) (n : Int) (j : Nat) : Int := if j = ino then d j + n else d j

/-- Size and contents of the files in `A` are what they were. -/
structure SameData (A : Nat → Prop) (s t : SfsFs) : Prop where
  size : ∀ j, A j → (t.inode j).sfiSize = (s.inode j).sfiSize
  byte : ∀ j, A j → ∀ i, t.byte j i = s.byte j i

variable {ino : Nat}

namespace SameData

variable {A B : Nat → Prop}

theorem refl (A : Nat → Prop) (s : SfsFs) : SameData A s s := ⟨fun _ _ => rfl, fun _ _ _ => rfl⟩

theorem trans (h : SameData A s t) (h' : SameData A t u) : SameData A s u :=
  ⟨fun j hj => (h'.size j hj).trans (h.size j hj),
    fun j hj i => (h'.byte j hj i).trans (h.byte j hj i)⟩

theorem mono (h : SameData A s t) (hB : ∀ j, B j → A j) : SameData B s t :=
  ⟨fun j hj => h.size j (hB j hj), fun j hj => h.byte j (hB j hj)⟩

theorem of_sameFiles (h : SameFiles A s t) : SameData A s t :=
  ⟨fun j hj => by rw [h.inode j hj], h.byte⟩

theorem of_fileStep (h : FileStep A ino s t) : SameData (fun j => A j ∧ j ≠ ino) s t :=
  of_sameFiles h.sameFiles

end SameData

theorem FileStep.linkcount_eq {j : Nat} (h : FileStep L ino s t) (hj : L j) :
    (t.inode j).sfiLinkcount = (s.inode j).sfiLinkcount := by
  by_cases hji : j = ino
  · rw [hji, h.linkcount]
  · rw [h.inode j hj hji]

theorem links_pos_iff : 0 < s.links ino ↔ ∃ i < s.slots, s.slotIno i = ino := by
  rw [Nat.pos_iff_ne_zero]
  exact Nat.count_ne_iff_exists

/-- Setting the link count of a loaded inode leaves all contents alone. -/
theorem Core.setLinkcount {H : Nat → Prop} (C : Core L H s) (hv : s.vnode? sv = some v) (f : Half → Half) :
    let t := s.updateVnode sv (SfsVnode.setInode fun i => { i with sfiLinkcount := f i.sfiLinkcount })
    Core L H t ∧ SameData (fun _ => True) s t ∧ ∀ j, (t.inode j).sfiLinkcount =
      if j = v.svIno then f v.svI.sfiLinkcount else (s.inode j).sfiLinkcount := by
  intro t
  have hself := C.table.inode_of_vnode? hv
  have hin := C.table.inode_setInode hv fun i => { i with sfiLinkcount := f i.sfiLinkcount }
  have hsize (j : Nat) : (t.inode j).sfiSize = (s.inode j).sfiSize := by
    rw [hin]
    split
    · next h => rw [h, hself]
    · rfl
  have hp (p : Ptr) : t.ptr p = s.ptr p := by
    by_cases hq : p.ino = v.svIno
    · have hin' := hin p.ino
      rw [if_pos hq] at hin'
      rw [← hq] at hself
      cases p <;> simp_all [ptr, Ptr.ino, SfsInode.direct, t]
    · exact C.table.ptr_setInode_ne hv _ hq
  refine ⟨C.setInode hv rfl (C.owned.congr (fun p _ => hp p) fun _ _ => Iff.rfl),
    ⟨fun j _ => hsize j, fun j _ i => byte_congr (hp _) fun _ => rfl⟩, fun j => ?_⟩
  rw [hin]
  split <;> rfl

variable {i : Nat}

namespace Consistent

section

variable (K : Consistent L d s)
include K

theorem slots_le : s.slots ≤ 1144 := by
  have h1 := K.dir.size_eq
  have h2 := K.dir.bound
  rw [h1] at h2
  have : sfsMaxblocks * sfsBlocksize = 1144 * sizeofSfsDir := by decide
  rw [this] at h2
  exact Nat.le_of_mul_le_mul_right h2 (by decide)

theorem links_le (ino : Nat) : s.links ino ≤ 1144 :=
  Nat.le_trans (Nat.count_le _) K.slots_le

/-- Only the offsets of live inodes count. -/
theorem offset {d' : Nat → Int} (h : ∀ j, L j → d' j = d j) : Consistent L d' s :=
  ⟨K.core, K.dir, K.named, fun j hj => by rw [h j hj]; exact K.links j hj, K.live⟩

section

variable (C : Core L (fun _ => False) t)
include C

/-- Steps that keep the directory and the link counts. -/
theorem congr (hd : DirSame s t) (hc : ∀ j, L j → (t.inode j).sfiLinkcount = (s.inode j).sfiLinkcount)
    (hl : ∀ j, s.Loaded j → t.Loaded j) : Consistent L d t := by
  refine ⟨C, K.dir.same hd, fun i hi => ?_, fun j hj => ?_, fun j hj => ?_⟩
  · rw [hd.slots_eq] at hi
    simpa only [slotIno, hd.slot i hi] using K.named i hi
  · rw [hd.links, hc j hj]
    exact K.links j hj
  · rw [hd.links]
    exact (K.live j hj).imp_right (Or.imp_left (hl j))

theorem same (h : SameFiles L s t) (hl : ∀ j, s.Loaded j → t.Loaded j) : Consistent L d t :=
  K.congr C (h.dirSame K.core.root) (fun _ hj => by rw [h.inode _ hj]) hl

theorem fileStep (h : FileStep L ino s t) (hr : ino ≠ sfsRootLocation) : Consistent L d t := by
  have hd : DirSame s t :=
    .of_content (by rw [h.inode _ K.core.root hr.symm]) (h.byte _ K.core.root hr.symm)
  exact K.congr C hd (fun _ hj => h.linkcount_eq hj) fun j => (h.loaded j).2

/-- A failed change of the directory. -/
theorem dirSame (h : FileStep L sfsRootLocation s t) (hd : DirSame s t) : Consistent L d t :=
  K.congr C hd (fun _ hj => h.linkcount_eq hj) fun j => (h.loaded j).2

/-- A slot was given a new entry. The inode whose name it loses is the root or in memory. -/
theorem dirPut (h : FileStep L sfsRootLocation s t) {sd : SfsDir} (hp : DirPut s t i sd)
    (hok : sd.sfdIno ≠ 0 → sd.Proper ∧ L sd.sfdIno.toNat ∧
      ∀ j < s.slots, j ≠ i → s.slotIno j ≠ 0 → (s.slot j).name ≠ sd.name)
    (hold : i < s.slots → s.slotIno i ≠ 0 → s.slotIno i = sfsRootLocation ∨ s.Loaded (s.slotIno i)) :
    Consistent L (fun j => d j + (if i < s.slots ∧ s.slotIno i = j then 1 else 0) -
      (if sd.sfdIno.toNat = j then 1 else 0)) t := by
  have hn := hp.slots_eq K.dir
  have hle := hp.le
  refine ⟨C, hp.dirOk K.dir (fun h0 => (hok h0).1) fun h0 => (hok h0).2.2, fun j hj h0 => ?_,
    fun j hj => ?_, fun j hj => ?_⟩
  · by_cases hji : j = i
    · subst hji
      rw [slotIno, hp.put] at h0 ⊢
      exact (hok fun hz => h0 (by rw [hz]; rfl)).2.1
    · have hjs : j < s.slots := by omega
      rw [slotIno, hp.kept j hjs hji] at h0 ⊢
      exact K.named j hjs h0
  · have hl := hp.links K.dir j
    have := K.links j hj
    rw [h.linkcount_eq hj, this]
    split_ifs at hl ⊢ <;> omega
  · rw [h.loaded]
    have hj0 : j ≠ 0 := K.core.owned.inode_ne_zero hj
    by_cases hgone : i < s.slots ∧ s.slotIno i = j
    · obtain ⟨hi, rfl⟩ := hgone
      exact (hold hi hj0).imp_right .inl
    · refine (K.live j hj).imp_right (Or.imp_right fun hpos => ?_)
      have hl := hp.links K.dir j
      rw [if_neg hgone] at hl
      omega

end

theorem setLinkcount (hv : s.vnode? sv = some v) (f : Half → Half) {δ : Int}
    (hn : ((f v.svI.sfiLinkcount).toNat : Int) = v.svI.sfiLinkcount.toNat + δ) :
    let t := s.updateVnode sv (SfsVnode.setInode fun i => { i with sfiLinkcount := f i.sfiLinkcount })
    Consistent L (shift d v.svIno δ) t ∧ SameData L s t := by
  intro t
  obtain ⟨C, hdata, hcount⟩ := K.core.setLinkcount hv f
  have hd : DirSame s t := .of_content (hdata.size _ trivial) (hdata.byte _ trivial)
  refine ⟨⟨C, K.dir.same hd, fun i hi => ?_, fun j hj => ?_, fun j hj => ?_⟩, hdata.mono fun _ _ => trivial⟩
  · rw [hd.slots_eq] at hi
    simpa only [slotIno, hd.slot i hi] using K.named i hi
  · rw [hd.links, hcount, shift]
    have hl := K.links j hj
    by_cases hji : j = v.svIno
    · rw [hji, K.core.table.inode_of_vnode? hv] at hl
      rw [if_pos hji, if_pos hji, hji]
      omega
    · rw [if_neg hji, if_neg hji]
      exact hl
  · rw [hd.links, loaded_map (s := s) (t := t) rfl (fun w => by split <;> rfl)]
    exact K.live j hj

end

/-- Counting a name that was just entered. The count does not wrap: a directory has room for
1144 names. -/
theorem countUp (K : Consistent L (shift rootLink v.svIno (-1)) s) (hv : s.vnode? sv = some v) :
    let t := s.updateVnode sv (SfsVnode.setInode fun i => { i with sfiLinkcount := i.sfiLinkcount + 1 })
    Consistent L rootLink t ∧ SameData L s t := by
  have hl := K.links _ (K.core.live_of_vnode? hv)
  have hle := K.links_le v.svIno
  have hr : rootLink v.svIno ≤ 1 := by unfold rootLink; split <;> decide
  rw [K.core.table.inode_of_vnode? hv, shift, if_pos rfl] at hl
  have hn : ((v.svI.sfiLinkcount + 1).toNat : Int) = v.svI.sfiLinkcount.toNat + 1 := by
    rw [BitVec.toNat_add, show (1 : Half).toNat = 1 from rfl, Nat.mod_eq_of_lt (by omega)]
    rfl
  obtain ⟨h, hd⟩ := K.setLinkcount hv (· + 1) hn
  exact ⟨h.offset fun j _ => by unfold shift; split <;> omega, hd⟩

/-- Uncounting a name that was just removed. -/
theorem countDown (K : Consistent L (shift rootLink v.svIno 1) s) (hv : s.vnode? sv = some v) :
    let t := s.updateVnode sv (SfsVnode.setInode fun i => { i with sfiLinkcount := i.sfiLinkcount - 1 })
    v.svI.sfiLinkcount ≠ 0 ∧ Consistent L rootLink t ∧ SameData L s t := by
  have hl := K.links _ (K.core.live_of_vnode? hv)
  have hr : 0 ≤ rootLink v.svIno := by unfold rootLink; split <;> decide
  rw [K.core.table.inode_of_vnode? hv, shift, if_pos rfl] at hl
  have hn : ((v.svI.sfiLinkcount - 1).toNat : Int) = v.svI.sfiLinkcount.toNat + (-1) := by
    rw [BitVec.toNat_sub_of_le (by rw [BitVec.le_def]; exact (by omega : 1 ≤ v.svI.sfiLinkcount.toNat))]
    have : (1 : Half).toNat = 1 := rfl
    omega
  obtain ⟨h, hd⟩ := K.setLinkcount hv (· - 1) hn
  refine ⟨fun h0 => ?_, h.offset fun j _ => by unfold shift; split <;> omega, hd⟩
  rw [h0] at hl
  have : (BitVec.toNat (0 : Half) : Int) = 0 := rfl
  omega

theorem live_iff (K : Consistent L d s) (ino : Nat) : L ino ↔ s.Live ino := by
  constructor
  · intro h
    have h0 := K.core.owned.inode_ne_zero h
    exact (K.live ino h).imp_right (Or.imp_right fun hpos => ⟨h0, hpos⟩)
  · rintro (rfl | ⟨v, hv, rfl⟩ | ⟨h0, hpos⟩)
    · exact K.core.root
    · exact (K.core.vnode v hv).live
    · obtain ⟨i, hi, rfl⟩ := links_pos_iff.1 hpos
      exact K.named i hi h0

/-- A vnode whose inode has lost its last link is not the root's, and no slot names it. -/
theorem unlinked (K : Consistent L rootLink s) (hv : s.vnode? sv = some v)
    (h0 : v.svI.sfiLinkcount = 0) : v.svIno ≠ sfsRootLocation ∧ s.links v.svIno = 0 := by
  have hl := K.links _ (K.core.live_of_vnode? hv)
  rw [K.core.table.inode_of_vnode? hv, h0, rootLink] at hl
  have hz : (BitVec.toNat (0 : Half) : Int) = 0 := rfl
  rw [hz] at hl
  split at hl
  · omega
  · next hr => exact ⟨hr, by omega⟩

theorem drop (K : Consistent L rootLink s) (hv : s.vnode? sv = some v)
    (h : Dropped L (fun _ => False) v s t) : Consistent (LiveAfter L v) rootLink t := by
  have hroot : LiveAfter L v sfsRootLocation :=
    ⟨K.core.root, fun hd => (K.unlinked hv hd.1.2).1 hd.2.symm⟩
  have hd := h.same.dirSame hroot
  refine ⟨h.core, K.dir.same hd, fun i hi h0 => ?_, fun j hj => ?_, fun j hj => ?_⟩
  · rw [hd.slots_eq] at hi
    rw [slotIno, hd.slot i hi] at h0 ⊢
    refine ⟨K.named i hi h0, ?_⟩
    rintro ⟨hdies, he⟩
    have hpos := links_pos_iff.2 ⟨i, hi, he⟩
    have := (K.unlinked hv hdies.2).2
    omega
  · rw [h.same.inode j hj, hd.links]
    exact K.links j hj.1
  · rw [hd.links]
    rcases K.live j hj.1 with hr | hl | hpos
    · exact .inl hr
    · by_cases hgone : v.vnRefcount = 1 ∧ j = v.svIno
      · -- no longer in memory, but then it has links
        obtain ⟨h1, rfl⟩ := hgone
        have hlc : v.svI.sfiLinkcount ≠ 0 := fun h0 => hj.2 ⟨⟨h1, h0⟩, rfl⟩
        have hn := K.links _ hj.1
        rw [K.core.table.inode_of_vnode? hv, rootLink] at hn
        have : v.svI.sfiLinkcount.toNat ≠ 0 := fun h0 => hlc (BitVec.eq_of_toNat_eq h0)
        split at hn
        · next hr => exact .inl hr
        · exact .inr (.inr (by omega))
      · exact .inr (.inl ((h.loaded j).2 ⟨hl, hgone⟩))
    · exact .inr (.inr hpos)

theorem make (K : Consistent L rootLink s) (h : MakePost L (fun _ => False) ino s sv t) :
    Consistent (fun j => L j ∨ j = ino) rootLink t := by
  have hd := h.same.dirSame K.core.root
  have h0 : ino ≠ 0 := h.core.owned.inode_ne_zero (.inr rfl)
  have hroot : ino ≠ sfsRootLocation := fun he => h.fresh (he ▸ K.core.root)
  have hlinks : s.links ino = 0 := by
    by_contra hne
    obtain ⟨i, hi, rfl⟩ := links_pos_iff.1 (Nat.pos_of_ne_zero hne)
    exact h.fresh (K.named i hi h0)
  refine ⟨h.core, K.dir.same hd, fun i hi h0 => ?_, fun j hj => ?_, fun j hj => ?_⟩
  · rw [hd.slots_eq] at hi
    rw [slotIno, hd.slot i hi] at h0 ⊢
    exact .inl (K.named i hi h0)
  · rw [hd.links]
    rcases hj with hj | rfl
    · rw [h.same.inode j hj]
      exact K.links j hj
    · rw [h.inode, hlinks, rootLink, if_neg hroot]
      rfl
  · rw [hd.links]
    rcases hj with hj | rfl
    · exact (K.live j hj).imp_right (Or.imp_left fun hl => (h.loaded j).2 (.inl hl))
    · exact .inr (.inl ((h.loaded j).2 (.inr rfl)))

/-- A name was entered for a live inode, whose link count does not say so yet. -/
theorem enter (K : Consistent L d s) {name : CString} (hl : L ino)
    (h : Entered L (fun _ => False) name ino s (.ok i) t) :
    Consistent L (shift d ino (-1)) t ∧ i < t.slots ∧ t.slotIno i = ino ∧
      (∀ j < s.slots, s.slotIno j ≠ 0 → j < t.slots ∧ j ≠ i ∧ t.slotIno j = s.slotIno j) := by
  obtain ⟨C, step, hp, hlen, hfree, hmiss⟩ := h
  have hn := hp.slots_eq K.dir
  have hino : (BitVec.ofNat 32 ino).toNat = ino :=
    toNat_ofNat_of_lt_nblocks (K.core.owned.inode_used hl).1
  have hname := SfsDir.name_named (BitVec.ofNat 32 ino) name hlen
  refine ⟨?_, by omega, by rw [slotIno, hp.put]; exact hino, fun j hj h0 => ?_⟩
  · refine (K.dirPut C step hp (fun _ => ⟨⟨name, hlen, rfl⟩, ?_, ?_⟩) fun hi h0 => absurd (hfree hi) h0).offset
      fun j hj => ?_
    · exact hino.symm ▸ hl
    · exact fun j hj _ h0 => hname.symm ▸ hmiss j hj h0
    · have h0 := K.core.owned.inode_ne_zero hj
      have hne : ¬ (i < s.slots ∧ s.slotIno i = j) := fun h => h0 (h.2 ▸ hfree h.1)
      have hsd : (SfsDir.named (BitVec.ofNat 32 ino) name.bytes).sfdIno.toNat = ino := hino
      rw [if_neg hne, hsd, shift]
      by_cases hji : j = ino
      · rw [if_pos hji, if_pos hji.symm]
        omega
      · rw [if_neg hji, if_neg (Ne.symm hji)]
        omega
  · have hji : j ≠ i := fun he => h0 (he ▸ hfree (he ▸ hj))
    exact ⟨by omega, hji, by rw [slotIno, hp.kept j hj hji, slotIno]⟩

/-- The name of an inode in memory was removed, and its link count does not say so yet. -/
theorem leave (K : Consistent L d s) (hi : i < s.slots)
    (hl : s.Loaded (s.slotIno i)) (C : Core L (fun _ => False) t)
    (step : FileStep L sfsRootLocation s t) (hp : DirPut s t i (SfsDir.named sfsNoino [])) :
    Consistent L (shift d (s.slotIno i) 1) t := by
  refine (K.dirPut C step hp (fun h => absurd rfl h) fun _ _ => .inr hl).offset fun j hj => ?_
  have hj0 : (SfsDir.named sfsNoino []).sfdIno.toNat ≠ j := fun he =>
    K.core.owned.inode_ne_zero hj (he ▸ rfl)
  rw [if_neg hj0, shift]
  by_cases hji : j = s.slotIno i
  · rw [if_pos hji, if_pos ⟨hi, hji.symm⟩]
    omega
  · rw [if_neg hji, if_neg fun h => hji h.2.symm]
    omega

end Consistent

end Os161.Sfs
