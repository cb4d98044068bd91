import Os161.Sfs.Truncate
import Os161.Sfs.Dir

/-!
# Loading and reclaiming vnodes

Specifications of `sfs_loadvnode`, `sfs_sync_inode`, `sfs_reclaim` and the reference counts.
Moving an inode between disk and memory changes no file (`SameFiles`); reclaiming the last
reference to a file without links gives all its blocks back.
-/
namespace Os161.Sfs

open Lib Kern SfsFs Prog

variable {L H : Nat → Prop} {s t u : SfsFs} {sv : Nat} {v : SfsVnode}

def SfsFs.Loaded (s : SfsFs) (ino : Nat) : Prop := ∃ v ∈ s.sfsVnodes, v.svIno = ino

structure SameFiles (L : Nat → Prop) (s t : SfsFs) : Prop where
  super : t.sfsSuper = s.sfsSuper
  inode : ∀ j, L j → t.inode j = s.inode j
  byte : ∀ j, L j → ∀ i, t.byte j i = s.byte j i

namespace SameFiles

theorem refl (L : Nat → Prop) (s : SfsFs) : SameFiles L s s := ⟨rfl, fun _ _ => rfl, fun _ _ _ => rfl⟩

theorem trans (h : SameFiles L s t) (h' : SameFiles L t u) : SameFiles L s u :=
  ⟨h'.super.trans h.super, fun j hj => (h'.inode j hj).trans (h.inode j hj),
    fun j hj i => (h'.byte j hj i).trans (h.byte j hj i)⟩

theorem mono {L' : Nat → Prop} (h : SameFiles L s t) (hL : ∀ j, L' j → L j) : SameFiles L' s t :=
  ⟨h.super, fun j hj => h.inode j (hL j hj), fun j hj => h.byte j (hL j hj)⟩

theorem dirSame (h : SameFiles L s t) (hr : L sfsRootLocation) : DirSame s t :=
  .of_content (by rw [h.inode _ hr]) (h.byte _ hr)

theorem of_inode (hsup : t.sfsSuper = s.sfsSuper) (hi : ∀ j, L j → t.inode j = s.inode j)
    (hs : ∀ b, t.sector b = s.sector b) : SameFiles L s t :=
  ⟨hsup, hi, fun j hj _ => byte_congr (ptr_congr (p := .data j _) (hi j hj) fun _ => hs _)
    fun _ => hs _⟩

end SameFiles

/-- Every pointer to a vnode still points to a vnode of the same inode. -/
def Keeps (s t : SfsFs) : Prop :=
  ∀ a v, s.vnode? a = some v → ∃ w, t.vnode? a = some w ∧ w.svIno = v.svIno ∧ w.vnOps = v.vnOps

theorem Keeps.trans (h : Keeps s t) (h' : Keeps t u) : Keeps s u := fun a v hv => by
  obtain ⟨w, hw, h1, h2⟩ := h a v hv
  obtain ⟨x, hx, h3, h4⟩ := h' a w hw
  exact ⟨x, hx, h3.trans h1, h4.trans h2⟩

theorem FileStep.keeps {ino : Nat} (h : FileStep L ino s t) : Keeps s t := fun a v hv => by
  obtain ⟨i, d, hw⟩ := h.vnode? hv
  exact ⟨_, hw, rfl, rfl⟩

theorem loaded_map {f : SfsVnode → SfsVnode} (ht : t.sfsVnodes = s.sfsVnodes.map f)
    (hf : ∀ w, (f w).svIno = w.svIno) (j : Nat) : t.Loaded j ↔ s.Loaded j := by
  unfold SfsFs.Loaded
  rw [ht]
  constructor
  · rintro ⟨w, hw, rfl⟩
    obtain ⟨v, hv, rfl⟩ := List.mem_map.1 hw
    exact ⟨v, hv, (hf v).symm⟩
  · rintro ⟨v, hv, rfl⟩
    exact ⟨_, List.mem_map_of_mem hv, hf v⟩

theorem FileStep.loaded {ino : Nat} (h : FileStep L ino s t) (j : Nat) : t.Loaded j ↔ s.Loaded j := by
  obtain ⟨i, d, ht⟩ := h.table
  exact loaded_map ht (fun w => by split <;> rfl) j

/-! ## Reference counts -/

/-- References to the vnode at an address; there are none where there is no vnode. -/
def SfsFs.refs (s : SfsFs) (a : Nat) : Nat := ((s.vnode? a).map (·.vnRefcount)).getD 0

def SfsFs.opens (s : SfsFs) (a : Nat) : Nat := ((s.vnode? a).map (·.vnOpencount)).getD 0

/-- An address is not used again for the vnode of another inode. -/
structure Addrs (s t : SfsFs) : Prop where
  next : s.nextAddr ≤ t.nextAddr
  kept : ∀ a < s.nextAddr, ∀ w, t.vnode? a = some w → ∃ v, s.vnode? a = some v ∧ w.svIno = v.svIno

theorem Addrs.refl (s : SfsFs) : Addrs s s := ⟨le_rfl, fun _ _ w hw => ⟨w, hw, rfl⟩⟩

theorem Addrs.trans (h : Addrs s t) (h' : Addrs t u) : Addrs s u := by
  refine ⟨h.next.trans h'.next, fun a ha w hw => ?_⟩
  obtain ⟨x, hx, hi⟩ := h'.kept a (Nat.lt_of_lt_of_le ha h.next) w hw
  obtain ⟨v, hv, hi'⟩ := h.kept a ha x hx
  exact ⟨v, hv, hi.trans hi'⟩

/-- The counts of `t` are those of `s`, with a reference to `g` gained and one to `d` dropped. -/
structure Counts (g d : Option Nat) (s t : SfsFs) : Prop extends Addrs s t where
  refs : ∀ a, t.refs a + (if d = some a then 1 else 0) = s.refs a + if g = some a then 1 else 0
  opens : ∀ a, t.opens a = s.opens a

theorem refs_of_vnode? (hv : s.vnode? sv = some v) : s.refs sv = v.vnRefcount := by
  simp [SfsFs.refs, hv]

theorem opens_of_vnode? (hv : s.vnode? sv = some v) : s.opens sv = v.vnOpencount := by
  simp [SfsFs.opens, hv]

theorem Core.vnode?_of_refs (C : Core L H s) {a : Nat} : 0 < s.refs a ↔ ∃ v, s.vnode? a = some v := by
  cases hv : s.vnode? a with
  | none => simp [SfsFs.refs, hv]
  | some v => simp [SfsFs.refs, hv, (C.vnode v (C.table.vnode?_iff.1 hv).1).refcount_pos]

theorem Core.opens_of_refs (C : Core L H s) {a : Nat} (h : s.refs a = 0) : s.opens a = 0 := by
  cases hv : s.vnode? a with
  | none => simp [SfsFs.opens, hv]
  | some v =>
    have := C.vnode?_of_refs.2 ⟨v, hv⟩
    omega

namespace Counts

variable {g d : Option Nat} {a : Nat}

theorem refl (s : SfsFs) : Counts none none s s :=
  ⟨.refl s, fun _ => rfl, fun _ => rfl⟩

/-- References dropped first can be accounted for later. -/
theorem comp {g' d' g'' d'' : Option Nat} (h : Counts g d s t) (h' : Counts g' d' t u)
    (hgd : ∀ a, (if d = some a then 1 else 0) + (if d' = some a then 1 else 0) + (if g'' = some a then 1 else 0) =
      (if g = some a then 1 else 0) + (if g' = some a then 1 else 0) +
        if d'' = some a then 1 else 0) : Counts g'' d'' s u := by
  refine ⟨h.toAddrs.trans h'.toAddrs, fun a => ?_, fun a => (h'.opens a).trans (h.opens a)⟩
  have h1 := h.refs a
  have h2 := h'.refs a
  have h3 := hgd a
  omega

theorem trans (h : Counts none none s t) (h' : Counts g d t u) : Counts g d s u :=
  h.comp h' fun a => by simp only [reduceCtorEq, if_false]; omega

theorem trans_none (h : Counts g d s t) (h' : Counts none none t u) : Counts g d s u :=
  h.comp h' fun a => by simp only [reduceCtorEq, if_false]; omega

theorem cancel (h : Counts (some a) none s t) (h' : Counts none (some a) t u) : Counts none none s u :=
  h.comp h' fun a => by simp only [reduceCtorEq, if_false]; omega

theorem of_map {f : SfsVnode → SfsVnode} (ht : t.sfsVnodes = s.sfsVnodes.map f) (hn : t.nextAddr = s.nextAddr)
    (hf : ∀ w, (f w).svAddr = w.svAddr ∧ (f w).vnRefcount = w.vnRefcount ∧
      (f w).vnOpencount = w.vnOpencount ∧ (f w).svIno = w.svIno) : Counts none none s t := by
  have hv (a : Nat) : t.vnode? a = (s.vnode? a).map f := vnode?_map ht (fun w _ => (hf w).1) a
  refine ⟨⟨hn.ge, fun a _ w hw => ?_⟩, fun a => ?_, fun a => ?_⟩
  · rw [hv] at hw
    obtain ⟨v, hv', rfl⟩ := Option.map_eq_some_iff.1 hw
    exact ⟨v, hv', (hf v).2.2.2⟩
  · unfold SfsFs.refs
    rw [hv]
    cases s.vnode? a <;> simp [hf]
  · unfold SfsFs.opens
    rw [hv]
    cases s.vnode? a <;> simp [hf]

/-- A vnode whose only reference was just taken is not open. -/
theorem closed (h : Counts (some a) none s t) (C : Core L H s) (hv : t.vnode? a = some v)
    (h1 : v.vnRefcount = 1) : v.vnOpencount = 0 := by
  have hr := h.refs a
  rw [refs_of_vnode? hv, if_pos rfl, if_neg nofun] at hr
  rw [← opens_of_vnode? hv, h.opens]
  exact C.opens_of_refs (by omega)

end Counts

theorem FileStep.counts {ino : Nat} (h : FileStep L ino s t) : Counts none none s t := by
  obtain ⟨i, d, ht⟩ := h.table
  exact .of_map ht h.static.nextAddr fun w => by split <;> exact ⟨rfl, rfl, rfl, rfl⟩

def SfsVnode.recount (n m : Nat → Nat) (v : SfsVnode) : SfsVnode :=
  { v with vnRefcount := n v.vnRefcount, vnOpencount := m v.vnOpencount }

theorem Core.counts_recount (C : Core L H s) (hv : s.vnode? sv = some v) (n m : Nat → Nat) :
    let t := s.updateVnode sv (SfsVnode.recount n m)
    Addrs s t ∧ (∀ a, t.refs a = if a = sv then n v.vnRefcount else s.refs a) ∧
      ∀ a, t.opens a = if a = sv then m v.vnOpencount else s.opens a := by
  intro t
  have ht (a : Nat) : t.vnode? a = (s.vnode? a).map fun w => if w.svAddr = sv then w.recount n m else w :=
    vnode?_map (s := s) (u := t) rfl (fun w _ => by split <;> rfl) a
  refine ⟨⟨le_rfl, fun a _ w hw => ?_⟩, fun a => ?_, fun a => ?_⟩
  · rw [ht] at hw
    obtain ⟨v, hv', rfl⟩ := Option.map_eq_some_iff.1 hw
    exact ⟨v, hv', by split <;> rfl⟩
  all_goals
    simp only [SfsFs.refs, SfsFs.opens, ht]
    cases hw : s.vnode? a with
    | none => grind
    | some w =>
      have hwa := (C.table.vnode?_iff.1 hw).2
      grind [SfsVnode.recount]

theorem Core.counts_incref (C : Core L H s) (hv : s.vnode? sv = some v) :
    Counts (some sv) none s (s.updateVnode sv (SfsVnode.recount (· + 1) id)) := by
  obtain ⟨ha, hr, ho⟩ := C.counts_recount hv (· + 1) id
  have h1 := refs_of_vnode? hv
  have h2 := opens_of_vnode? hv
  exact ⟨ha, fun a => by grind, fun a => by grind⟩

theorem Core.counts_decref (C : Core L H s) (hv : s.vnode? sv = some v) :
    Counts none (some sv) s (s.updateVnode sv (SfsVnode.recount (· - 1) id)) := by
  obtain ⟨ha, hr, ho⟩ := C.counts_recount hv (· - 1) id
  have h1 := refs_of_vnode? hv
  have h2 := opens_of_vnode? hv
  have h3 := (C.vnode v (C.table.vnode?_iff.1 hv).1).refcount_pos
  exact ⟨ha, fun a => by grind, fun a => by grind⟩

theorem updateCount (C : Core L H s) (sv : Nat) (n m : Nat → Nat)
    (hn : ∀ w ∈ s.sfsVnodes, w.svAddr = sv → 0 < n w.vnRefcount) : let t := s.updateVnode sv (SfsVnode.recount n m)
    Core L H t ∧ SameFiles L s t ∧ Keeps s t ∧ ∀ j, t.Loaded j ↔ s.Loaded j := by
  intro t
  have hl (j : Nat) : t.loaded? j = (s.loaded? j).map fun v => if v.svAddr = sv then v.recount n m else v :=
    loaded?_map rfl (fun w _ => by split <;> rfl) j
  have hi (j : Nat) : t.inode j = s.inode j := by
    unfold inode
    rw [hl]
    cases s.loaded? j with
    | none => rfl
    | some w =>
      simp only [Option.map_some]
      split <;> rfl
  have hp (p : Ptr) : t.ptr p = s.ptr p := ptr_congr (hi _) fun _ => rfl
  refine ⟨?_, .of_inode rfl (fun j _ => hi j) fun _ => rfl, fun a v hv => ?_, fun j => ?_⟩
  · refine C.step ⟨rfl, rfl, rfl, rfl, rfl, rfl⟩ rfl (fun w _ => by split <;> exact ⟨rfl, rfl⟩)
      (fun w hw => ?_) (fun _ _ => Iff.rfl) (fun j _ => by rw [hi])
      (C.owned.congr (fun p _ => hp p) fun _ _ => Iff.rfl) (C.saved.vnodes _ _)
    have V := C.vnode w hw
    split
    · next ha => exact ⟨V.live, V.addr_lt, hn w hw ha, V.ops, V.clean⟩
    · exact ⟨V.live, V.addr_lt, V.refcount_pos, V.ops, V.clean⟩
  · refine ⟨if v.svAddr = sv then v.recount n m else v, ?_, ?_⟩
    · rw [vnode?_map (s := s) (u := t) rfl (fun w _ => by split <;> rfl), hv]
      rfl
    · split <;> exact ⟨rfl, rfl⟩
  · exact loaded_map (s := s) (t := t) rfl (fun w => by split <;> rfl) j

/-! ## Loading -/

def SfsFs.addVnode (s : SfsFs) (v : SfsVnode) (n : Nat) : SfsFs :=
  { s with nextAddr := n, sfsVnodes := s.sfsVnodes ++ [v] }

section AddVnode

variable {n : Nat}

theorem loaded_addVnode (j : Nat) : (s.addVnode v n).Loaded j ↔ s.Loaded j ∨ j = v.svIno := by
  constructor
  · rintro ⟨w, hw, rfl⟩
    rcases List.mem_append.1 hw with hw | hw
    · exact .inl ⟨w, hw, rfl⟩
    · exact .inr (by rw [List.mem_singleton.1 hw])
  · rintro (⟨w, hw, rfl⟩ | rfl)
    · exact ⟨w, List.mem_append_left _ hw, rfl⟩
    · exact ⟨v, by simp [SfsFs.addVnode], rfl⟩

theorem keeps_addVnode (t : (s.addVnode v n).Table) (t' : s.Table) : Keeps s (s.addVnode v n) := by
  intro a w hw
  obtain ⟨hmem, rfl⟩ := t'.vnode?_iff.1 hw
  exact ⟨w, t.vnode?_iff.2 ⟨List.mem_append_left _ hmem, rfl⟩, rfl, rfl⟩

theorem Core.counts_addVnode (C : Core L H s) (h1 : v.vnRefcount = 1) (h0 : v.vnOpencount = 0)
    (ha : s.nextAddr ≤ v.svAddr) (hn : s.nextAddr ≤ n) : Counts (some v.svAddr) none s (s.addVnode v n) := by
  have hnone : s.vnode? v.svAddr = none := find?_key_none.2 fun w hw he => by
    have := (C.vnode w hw).addr_lt
    omega
  have hadd (b : Nat) : (s.addVnode v n).vnode? b = (s.vnode? b).or (if v.svAddr = b then some v else none) := by
    simp only [SfsFs.vnode?, SfsFs.addVnode, List.find?_append, List.find?_singleton, decide_eq_true_eq]
  refine ⟨⟨hn, fun b hb w hw => ⟨w, ?_, rfl⟩⟩, fun b => ?_, fun b => ?_⟩
  · rwa [hadd, if_neg (by omega), Option.or_none] at hw
  · simp only [SfsFs.refs, hadd]
    by_cases hb : v.svAddr = b
    · simp [← hb, hnone, h1]
    · simp [hb]
  · simp only [SfsFs.opens, hadd]
    by_cases hb : v.svAddr = b
    · simp [← hb, hnone, h0]
    · simp [hb]

variable (hfresh : ¬ s.Loaded v.svIno)
include hfresh

theorem inode_addVnode (j : Nat) : (s.addVnode v n).inode j = if j = v.svIno then v.svI else s.inode j := by
  have hl : (s.addVnode v n).loaded? j = (s.loaded? j).or (if v.svIno = j then some v else none) := by
    simp only [loaded?, addVnode, List.find?_append, List.find?_singleton, decide_eq_true_eq]
  unfold inode
  rw [hl]
  by_cases hj : j = v.svIno
  · subst hj
    have : s.loaded? v.svIno = none := find?_key_none.2 fun w hw he => hfresh ⟨w, hw, he⟩
    simp [this]
  · rw [if_neg hj, if_neg (Ne.symm hj), Option.or_none]
    rfl

theorem Core.addVnode (C : Core L H s) {L' H' : Nat → Prop} (ha : s.nextAddr ≤ v.svAddr)
    (hn : v.svAddr < n) (V : VnodeOk L' (s.addVnode v n) v) (hL : ∀ j, L j → L' j)
    (hL' : ∀ j, L' j → j ≠ v.svIno → L j)
    (ht : v.svI.sfiType = if v.svIno = sfsRootLocation then sfsTypeDir else sfsTypeFile)
    (ho : Owned L' H' s.nblocks (s.addVnode v n).ptr s.used) : Core L' H' (s.addVnode v n) where
  ioFaults := C.ioFaults
  memFaults := C.memFaults
  dBlocks := C.dBlocks
  nbits := C.nbits
  padding := C.padding
  table := by
    refine ⟨?_, ?_⟩ <;> simp only [SfsFs.addVnode, List.map_append, List.map_singleton]
    · refine List.nodup_append.2 ⟨C.table.addr_nodup, by simp, ?_⟩
      rintro a ha' _ hb rfl
      obtain ⟨w, hw, rfl⟩ := List.mem_map.1 ha'
      have := (C.vnode w hw).addr_lt
      have : w.svAddr = v.svAddr := by simpa using hb
      omega
    · refine List.nodup_append.2 ⟨C.table.ino_nodup, by simp, ?_⟩
      rintro a ha' _ hb rfl
      obtain ⟨w, hw, rfl⟩ := List.mem_map.1 ha'
      exact hfresh ⟨w, hw, by simpa using hb⟩
  vnode w hw := by
    rcases List.mem_append.1 hw with hw | hw
    · have W := C.vnode w hw
      exact ⟨hL _ W.live, Nat.lt_trans W.addr_lt (by omega : s.nextAddr < n), W.refcount_pos, W.ops, W.clean⟩
    · rw [List.mem_singleton.1 hw]
      exact V
  root := hL _ C.root
  type j hj := by
    rw [inode_addVnode hfresh]
    split
    · next h => rw [ht, h]
    · next h => exact C.type j (hL' j hj h)
  owned := ho
  saved := C.saved.vnodes _ _

end AddVnode

theorem loadvnodeSearch_spec (ino : Nat) (l : List SfsVnode) (hl : ∀ v ∈ l, v.svIno < s.nblocks ∧ s.used v.svIno) :
    Sat NoPanic (loadvnodeSearch ino l) s (fun r t => r = .ok ((l.find? (·.svIno = ino)).map (·.svAddr)) ∧ t = s) := by
  induction l with
  | nil => exact ⟨rfl, rfl⟩
  | cons v l ih =>
    obtain ⟨hlt, hu⟩ := hl v (by simp)
    have hu' : bitmapIsset s.sfsFreemap v.svIno = true := hu
    simp only [loadvnodeSearch, sat_bind, sat_sfsBused hlt, sat_check, hu', if_true, sat_ite]
    split
    · next h => simp [h]
    · next h =>
      rw [List.find?_cons_of_neg (by simpa using h)]
      exact ih fun w hw => hl w (by simp [hw])

/-- What `sfs_loadvnode` guarantees: a vnode for the inode, and no file changed. -/
structure LoadPost (L H : Nat → Prop) (ino : Nat) (s : SfsFs) (sv : Nat) (t : SfsFs) : Prop where
  core : Core L H t
  same : SameFiles L s t
  keeps : Keeps s t
  loaded : ∀ j, t.Loaded j ↔ s.Loaded j ∨ j = ino
  vnode : ∃ v, t.vnode? sv = some v ∧ v.svIno = ino
  counts : Counts (some sv) none s t

theorem sat_kmalloc {K : SfsPanic → Prop} (hm : s.memFaults = []) {Q : Except Errno Nat → SfsFs → Prop} :
    Sat K kmalloc s Q ↔ Q (.ok s.nextAddr) { s with nextAddr := s.nextAddr + 1 } := by
  have : { s with nextAddr := s.nextAddr + 1, memFaults := [] } = { s with nextAddr := s.nextAddr + 1 } := by rw [← hm]
  simp [kmalloc, hm, nextFault, this]

/-- The kind of an inode by its number: the root is the one directory. -/
def typeOf (ino : Nat) : Half := if ino = sfsRootLocation then sfsTypeDir else sfsTypeFile

def opsOf (ino : Nat) : VnodeOps := if ino = sfsRootLocation then .dirops else .fileops

theorem sat_vnodeOps {K : SfsPanic → Prop} (ino : Nat) {Q : Except Errno VnodeOps → SfsFs → Prop} :
    Sat K (vnodeOps (typeOf ino)) s Q ↔ Q (.ok (opsOf ino)) s := by
  unfold vnodeOps typeOf opsOf
  by_cases hi : ino = sfsRootLocation
  · simp [hi, sfsTypeDir, sfsTypeFile]
  · simp [hi]

def freshVnode (s : SfsFs) (ino : Nat) (i : SfsInode) (dirty : Bool) : SfsVnode where
  svAddr := s.nextAddr
  vnRefcount := 1
  vnOpencount := 0
  vnOps := opsOf ino
  svI := i
  svIno := ino
  svDirty := dirty

section Fresh

variable {ino : Nat} {forcetype : Half} {i : SfsInode} (hio : s.ioFaults = []) (hmem : s.memFaults = [])
  (hdev : s.nblocks = s.sfsDevice.dBlocks) (hlt : ino < s.nblocks) (hu : s.used ino)
  (hforce : forcetype = sfsTypeInval ∨ (SfsInode.decode (s.sector ino)).sfiType = sfsTypeInval)
  (hi : i = if forcetype = sfsTypeInval then SfsInode.decode (s.sector ino)
    else { SfsInode.decode (s.sector ino) with sfiType := forcetype })
  (ht : i.sfiType = typeOf ino)
include hmem hdev hlt hu hforce hi ht

/-- When the inode cannot be read, only an address is lost. -/
theorem loadvnodeFresh_endures : Endures NoPanic (loadvnodeFresh ino forcetype) s (fun r t => r = .ok s.nextAddr ∧
    t = s.calm.addVnode (freshVnode s ino i (forcetype ≠ sfsTypeInval)) (s.nextAddr + 3))
    (· = { s.calm with nextAddr := s.nextAddr + 1 }) := by
  have hu' : bitmapIsset s.sfsFreemap ino = true := hu
  simp only [loadvnodeFresh, Endures, sat_bind]
  refine (sat_kmalloc hmem).2 ?_
  refine (sat_sfsBused (s := { s with nextAddr := s.nextAddr + 1 }) hlt).2 ?_
  simp only [hu', sat_check, if_true]
  have hread := sfsRblock_spec (s := { s with nextAddr := s.nextAddr + 1 }) (hdev ▸ hlt)
  have hfares {α : Type} {r : Except Errno α} {t : SfsFs}
      (h : Fares { s with nextAddr := s.nextAddr + 1 } r t) : Fares s r t := ⟨h.mem, h.io⟩
  refine hread.seq ?_ ?_ ?_
  · rintro _ t hft ⟨⟨⟩, hc⟩
    have hsec : SfsFs.sector { s with nextAddr := s.nextAddr + 1 } ino = s.sector ino := rfl
    have hmem' : t.memFaults = [] := hft.mem.trans hmem
    simp only [hsec, hforce, if_true, ← hi, ht, sat_vnodeOps]
    refine (sat_kmalloc hmem').2 ?_
    refine (sat_kmalloc (s := { t with nextAddr := t.nextAddr + 1 }) hmem').2 ?_
    simp only [sat_modify, sat_pure]
    refine ⟨⟨hft.mem, fun h => ⟨(hft.io h).1, by simp⟩⟩, .inl ⟨trivial, ?_⟩⟩
    simp only [SfsFs.addVnode, SfsFs.calm, SfsFs.mk.injEq] at hc ⊢
    simp [hc, freshVnode]
  · rintro e t - ⟨⟨⟩, -⟩
  · rintro t hft hc
    exact ⟨(hfares hft).error, .inr ⟨rfl, hc⟩⟩

include hio in
theorem loadvnodeFresh_spec : Sat NoPanic (loadvnodeFresh ino forcetype) s (fun r t => r = .ok s.nextAddr ∧
    t = s.addVnode (freshVnode s ino i (forcetype ≠ sfsTypeInval)) (s.nextAddr + 3)) := by
  have h := (loadvnodeFresh_endures hmem hdev hlt hu hforce hi ht).of_no_faults hio hmem
  rwa [calm_of_no_faults hio hmem] at h

end Fresh

theorem Core.loadFresh (C : Core L H s) {ino : Nat} (hl : L ino) (hfresh : ¬ s.Loaded ino) {w : SfsVnode}
    (hw : freshVnode s ino (s.inode ino) (sfsTypeInval ≠ sfsTypeInval) = w)
    (ht : t = s.addVnode w (s.nextAddr + 3)) : LoadPost L H ino s s.nextAddr t := by
  have hi : s.inode ino = SfsInode.decode (s.sector ino) := by
    have hnone : s.loaded? ino = none := find?_key_none.2 fun v hv he => hfresh ⟨v, hv, he⟩
    unfold inode
    rw [hnone]
  have hwi : w.svIno = ino := by rw [← hw]; rfl
  have hwa : w.svAddr = s.nextAddr := by rw [← hw]; rfl
  have hws : w.svI = s.inode ino := by rw [← hw]; rfl
  have hfresh' : ¬ s.Loaded w.svIno := hwi ▸ hfresh
  have hin (j : Nat) : t.inode j = s.inode j := by
    rw [ht, inode_addVnode hfresh']
    split
    · next h => rw [hws, h, hwi]
    · rfl
  have hp (p : Ptr) : t.ptr p = s.ptr p := ptr_congr (hin _) fun _ => by rw [ht]; rfl
  have V : VnodeOk L (s.addVnode w (s.nextAddr + 3)) w := by
    rw [← hw]
    exact ⟨hl, Nat.lt_add_of_pos_right (by decide), Nat.one_pos, rfl, fun _ => hi.symm⟩
  have D : Core L H t := by
    rw [ht]
    refine C.addVnode hfresh' (Nat.le_of_eq hwa.symm) (by omega) V (fun _ h => h) (fun _ h _ => h) ?_ ?_
    · rw [hws, C.type ino hl, hwi]
    · exact C.owned.congr (fun p _ => ht ▸ hp p) fun _ _ => Iff.rfl
  refine ⟨D, .of_inode (by rw [ht]; rfl) (fun j _ => hin j) fun b => by rw [ht]; rfl, ?_, fun j => ?_, ⟨w, ?_, hwi⟩, ?_⟩
  · subst ht
    exact keeps_addVnode D.table C.table
  · rw [ht, loaded_addVnode, hwi]
  · refine D.table.vnode?_iff.2 ⟨?_, hwa⟩
    rw [ht]
    simp [SfsFs.addVnode]
  · rw [ht, ← hwa]
    exact C.counts_addVnode (by rw [← hw]; rfl) (by rw [← hw]; rfl) (Nat.le_of_eq hwa.symm) (by omega)

/-- When the device fails nothing is loaded. -/
theorem sfsLoadvnode_endures {c : SfsFs} (C : Core L H c) (hs : s.calm = c) (hmem : s.memFaults = [])
    {ino : Nat} (hl : L ino) :
    Endures NoPanic (sfsLoadvnode ino sfsTypeInval) s (fun r t => match r with
      | .ok sv => LoadPost L H ino c sv t
      | .error _ => False) (fun t => t = { c with nextAddr := c.nextAddr + 1 }) := by
  subst hs
  have hused : ∀ v ∈ s.sfsVnodes, v.svIno < s.nblocks ∧ s.used v.svIno := fun v hv =>
    C.owned.inode_used (C.vnode v hv).live
  simp only [sfsLoadvnode, Endures, sat_bind, sat_get]
  refine (loadvnodeSearch_spec ino s.sfsVnodes hused).mono ?_
  rintro _ t ⟨rfl, rfl⟩
  cases hf : t.sfsVnodes.find? (·.svIno = ino) with
  | some v =>
    obtain ⟨hv, rfl⟩ := C.table.loaded?_iff.1 hf
    have hv? := C.table.vnode?_iff.2 ⟨hv, rfl⟩
    simp only [Option.map_some, sat_bind, sat_check, if_true, vnodeIncref, sat_modifyVnode, sat_pure]
    obtain ⟨D, same, keeps, loaded⟩ := updateCount C v.svAddr (· + 1) id fun _ _ _ => Nat.succ_pos _
    refine ⟨.still rfl rfl, .inl ⟨D, same, keeps, fun j => (loaded j).trans ⟨.inl, ?_⟩, ?_, C.counts_incref hv?⟩⟩
    · rintro (h | rfl)
      · exact h
      · exact ⟨v, hv, rfl⟩
    · obtain ⟨w, hw, hwi, -⟩ := keeps _ _ hv?
      exact ⟨w, hw, hwi⟩
  | none =>
    have hfresh : ¬ t.calm.Loaded ino := by
      rintro ⟨v, hv, he⟩
      exact find?_key_none.1 hf v hv he
    have hi : t.calm.inode ino = SfsInode.decode (t.sector ino) := by
      unfold inode
      rw [show t.calm.loaded? ino = none from hf]
      rfl
    have hty : (SfsInode.decode (t.sector ino)).sfiType = typeOf ino := hi ▸ C.type ino hl
    obtain ⟨hlt, hu⟩ := C.owned.inode_used hl
    refine (loadvnodeFresh_endures hmem C.dBlocks hlt hu (.inl rfl) (i := t.calm.inode ino)
      (by simp [hi]) (by rw [hi, hty])).seq ?_ ?_ ?_
    · rintro _ u hfu ⟨⟨⟩, hu'⟩
      exact ⟨hfu, .inl (C.loadFresh hl hfresh rfl hu')⟩
    · rintro e u - ⟨⟨⟩, -⟩
    · rintro u hfu hu'
      exact ⟨hfu, .inr ⟨rfl, hu'⟩⟩

theorem sfsLoadvnode_spec (C : Core L H s) {ino : Nat} (hl : L ino) :
    Sat NoPanic (sfsLoadvnode ino sfsTypeInval) s (fun r t => match r with
      | .ok sv => LoadPost L H ino s sv t
      | .error _ => False) :=
  (sfsLoadvnode_endures C C.calm_eq C.memFaults hl).healthy C

/-- What `sfs_makeobj` guarantees: an empty file without links, loaded once. -/
structure MakePost (L H : Nat → Prop) (ino : Nat) (s : SfsFs) (sv : Nat) (t : SfsFs) : Prop where
  fresh : ¬ L ino
  core : Core (fun j => L j ∨ j = ino) H t
  same : SameFiles L s t
  keeps : Keeps s t
  loaded : ∀ j, t.Loaded j ↔ s.Loaded j ∨ j = ino
  vnode : ∃ v, t.vnode? sv = some v ∧ v.svIno = ino ∧ v.vnRefcount = 1
  inode : t.inode ino = { SfsInode.blank with sfiType := sfsTypeFile }
  byte : ∀ i, t.byte ino i = 0
  counts : Counts (some sv) none s t

theorem sfsMakeobj_spec (C : Core L H s) :
    Sat NoPanic (sfsMakeobj sfsTypeFile) s (fun r t => match r with
      | .ok sv => ∃ ino, MakePost L H ino s sv t
      | .error e => e = .enospc ∧ t = s) := by
  simp only [sfsMakeobj, sat_bind]
  refine (sfsBalloc_spec C).mono ?_
  rintro (e | b) t h
  · exact h
  · obtain ⟨hb, hn, rfl⟩ := h
    have C' := C.allocated hb hn
    have hnl : ¬ L b := C'.owned.not_live_of_held (.inr rfl)
    have hH : ¬ H b := fun h => hb (C.owned.held_used h).2
    have hsec : (s.allocated b).sector b = Block.zero := by simp [sector_allocated]
    have hfresh : ¬ (s.allocated b).Loaded b := by
      rintro ⟨v, hv, rfl⟩
      exact hnl (C'.vnode v hv).live
    have hroot : b ≠ sfsRootLocation := by
      rintro rfl
      exact hnl C.root
    have hused : ∀ v ∈ (s.allocated b).sfsVnodes, v.svIno < s.nblocks ∧ (s.allocated b).used v.svIno := fun v hv =>
      C'.owned.inode_used (C'.vnode v hv).live
    simp only [sfsLoadvnode, sat_bind, sat_get]
    refine (loadvnodeSearch_spec b _ hused).mono ?_
    rintro _ t ⟨rfl, ht⟩
    have hnone : (s.allocated b).sfsVnodes.find? (·.svIno = b) = none :=
      find?_key_none.2 fun w hw he => hfresh ⟨w, hw, he⟩
    rw [ht, hnone]
    have htype : typeOf b = sfsTypeFile := if_neg hroot
    have hdec : SfsInode.decode ((s.allocated b).sector b) = SfsInode.blank := by
      rw [hsec, SfsInode.decode_zero]
    refine (loadvnodeFresh_spec (s := s.allocated b) C'.ioFaults C'.memFaults C'.dBlocks hn
      (by simp) (.inr (by rw [hdec]; rfl)) (i := { SfsInode.blank with sfiType := sfsTypeFile })
      (by rw [hdec, if_neg (by decide)]) htype.symm).mono ?_
    rintro _ u ⟨rfl, hu⟩
    generalize hw : freshVnode (s.allocated b) b { SfsInode.blank with sfiType := sfsTypeFile }
      (sfsTypeFile ≠ sfsTypeInval) = w at hu
    have hwi : w.svIno = b := by rw [← hw]; rfl
    have hwa : w.svAddr = (s.allocated b).nextAddr := by rw [← hw]; rfl
    have hws : w.svI = { SfsInode.blank with sfiType := sfsTypeFile } := by rw [← hw]; rfl
    have hfresh' : ¬ (s.allocated b).Loaded w.svIno := hwi ▸ hfresh
    have hne {j : Nat} (hj : L j) : j ≠ b := by
      rintro rfl
      exact hnl hj
    have hin (j : Nat) : u.inode j = if j = b then w.svI else (s.allocated b).inode j := by
      rw [hu, inode_addVnode hfresh', hwi]
    have hinL {j : Nat} (hj : L j) : u.inode j = (s.allocated b).inode j := by
      rw [hin, if_neg (hne hj)]
    have hp (p : Ptr) (hp : L p.ino) : u.ptr p = (s.allocated b).ptr p :=
      ptr_congr (hinL hp) fun _ => by rw [hu]; rfl
    have hp0 (p : Ptr) (hpb : p.ino = b) : u.ptr p = 0 := by
      have hi : u.inode p.ino = { SfsInode.blank with sfiType := sfsTypeFile } := by
        rw [hin, if_pos hpb, hws]
      cases p with
      | indirect ino => exact congrArg (·.sfiIndirect.toNat) hi
      | data ino k =>
        have hind : u.ptr (.indirect ino) = 0 := congrArg (·.sfiIndirect.toNat) hi
        by_cases hk : k < sfsNdirect
        · rw [ptr_data_direct hk, show u.inode ino = _ from hi]
          unfold SfsInode.direct at0 SfsInode.blank
          split <;> rfl
        · exact ptr_data_none (Nat.le_of_not_lt hk) hind
    have ho : Owned (fun j => L j ∨ j = b) H s.nblocks u.ptr (s.allocated b).used := by
      have := C'.owned.adopt (show H b ∨ b = b from .inr rfl) hp hp0
      have hH' : (fun c => (H c ∨ c = b) ∧ c ≠ b) = H :=
        funext fun c => propext (held_but hH c).symm
      rwa [hH'] at this
    have V : VnodeOk (fun j => L j ∨ j = b) u w := by
      rw [hu, ← hw]
      exact ⟨.inr rfl, Nat.lt_add_of_pos_right (by decide), Nat.one_pos, rfl, fun h => by
        simp [freshVnode, sfsTypeFile, sfsTypeInval] at h⟩
    have D : Core (fun j => L j ∨ j = b) H u := by
      rw [hu] at ho V ⊢
      refine C'.addVnode hfresh' (Nat.le_of_eq hwa.symm) (by omega) V (fun _ => .inl) ?_ ?_ ho
      · intro j hj hjw
        exact hj.resolve_right fun h => hjw (h.trans hwi.symm)
      · rw [hws, hwi, if_neg hroot]
    have q := C.quiet_allocated hb C.root
    refine ⟨b, hnl, D, ⟨by rw [hu]; rfl, fun j hj => ?_, fun j hj i => ?_⟩, ?_, fun j => ?_, ?_, ?_, ?_, ?_⟩
    · rw [hinL hj, C.inode_allocated hb hj]
    · have h1 : u.byte j i = (s.allocated b).byte j i :=
        byte_congr (hp (.data j _) hj) fun _ => by rw [hu]; rfl
      by_cases hj' : j = sfsRootLocation
      · exact h1.trans (hj' ▸ q.content i)
      · exact h1.trans (q.byte j hj hj' i)
    · have : Keeps (s.allocated b) u := by
        subst hu
        exact keeps_addVnode D.table C'.table
      exact q.toFileStep.keeps.trans this
    · rw [hu, loaded_addVnode, hwi]
      exact Iff.rfl
    · refine ⟨w, D.table.vnode?_iff.2 ⟨?_, hwa⟩, hwi, by rw [← hw]; rfl⟩
      rw [hu]
      simp [SfsFs.addVnode]
    · rw [hin, if_pos rfl, hws]
    · intro i
      simp [byte, block, hp0 (.data b _) rfl]
    · refine q.toFileStep.counts.trans ?_
      rw [hu, ← hwa]
      exact C'.counts_addVnode (by rw [← hw]; rfl) (by rw [← hw]; rfl) (Nat.le_of_eq hwa.symm) (by omega)

/-! ## Writing an inode back -/

section Sync

variable (C : Core L H s) (hv : s.vnode? sv = some v)
include C hv

/-- Writing the inode in memory to its block leaves every file as it was. -/
theorem Core.sync {t : SfsFs} (ht : t = (s.writeSector v.svIno v.svI.encode).updateVnode sv
    fun v => { v with svDirty := false }) :
    Core L H t ∧ Quiet L v.svIno s t ∧ SameFiles L s t ∧ (∀ p, L p.ino → t.ptr p = s.ptr p) ∧
      t.vnode? sv = some { v with svDirty := false } ∧ t.sfsFreemap = s.sfsFreemap := by
  obtain ⟨hmem, hsv⟩ := C.table.vnode?_iff.1 hv
  have hl := (C.vnode v hmem).live
  have hsec (b : Nat) : t.sector b = if b = v.svIno then v.svI.encode else s.sector b := by
    rw [ht, sector_updateVnode, sector_writeSector]
  have hload (j : Nat) : t.loaded? j = (s.loaded? j).map
      fun w => if w.svAddr = sv then { w with svDirty := false } else w := by
    rw [ht]
    exact loaded?_map (s := s.writeSector v.svIno v.svI.encode) rfl (fun w _ => by split <;> rfl) j
  have hin (j : Nat) : t.inode j = s.inode j := by
    unfold inode
    rw [hload, hsec]
    cases hj : s.loaded? j with
    | some w =>
      simp only [Option.map_some]
      split <;> rfl
    | none =>
      have hne : j ≠ v.svIno := fun he => find?_key_none.1 hj v hmem he.symm
      simp [hne]
  have hdata (p : Ptr) (hp : L p.ino) (h0 : s.ptr p ≠ 0) : t.sector (s.ptr p) = s.sector (s.ptr p) := by
    rw [hsec, if_neg (C.owned.pointer_ne_inode hp h0 hl)]
  have hp (p : Ptr) (hp : L p.ino) : t.ptr p = s.ptr p :=
    ptr_congr (hin _) (hdata (.indirect p.ino) hp)
  have hvn (a : Nat) : t.vnode? a = (s.vnode? a).map
      fun w => if w.svAddr = sv then { w with svDirty := false } else w := by
    rw [ht]
    exact vnode?_map (s := s.writeSector v.svIno v.svI.encode) rfl (fun w _ => by split <;> rfl) a
  have hstat : Static s t := by rw [ht]; exact ⟨rfl, rfl, rfl, rfl, rfl, rfl⟩
  have htab : t.sfsVnodes = s.sfsVnodes.map
      fun w => if w.svAddr = sv then { w with svDirty := false } else w := by rw [ht]; rfl
  have hby (j : Nat) (hj : L j) (i : Nat) : t.byte j i = s.byte j i :=
    byte_congr (hp (.data j _) hj) (hdata (.data j _) hj)
  have hsaved : Saved t := by
    rw [ht]
    exact (C.saved.writeSector (fun hr => (C.owned.reserved hr).2.1 _ hl rfl) _).vnodes _ _
  refine ⟨?_, ⟨⟨hstat, ⟨v.svI, false, ?_⟩, fun j _ _ => hin j, fun j hj _ => hby j hj, by rw [hin],
    by rw [hin]⟩, hby _ hl, by rw [hin]⟩, ⟨hstat.super, fun j _ => hin j, hby⟩, hp, ?_, by rw [ht]; rfl⟩
  · refine C.step hstat htab (fun w _ => by split <;> exact ⟨rfl, rfl⟩) (fun w hw => ?_)
      (fun _ _ => by rw [ht]; exact Iff.rfl) (fun j _ => by rw [hin])
      (C.owned.congr hp fun _ _ => by rw [ht]; exact Iff.rfl) hsaved
    have W := C.vnode w hw
    have hclean : w.svIno ≠ v.svIno → t.sector w.svIno = s.sector w.svIno := fun h => by
      rw [hsec, if_neg h]
    split
    · next ha =>
      obtain rfl : w = v := List.inj_on_of_nodup_map C.table.addr_nodup hw hmem (ha.trans hsv.symm)
      refine ⟨W.live, hstat.nextAddr ▸ W.addr_lt, W.refcount_pos, W.ops, fun _ => ?_⟩
      rw [hsec, if_pos rfl, SfsInode.decode_encode]
    · next ha =>
      refine ⟨W.live, hstat.nextAddr ▸ W.addr_lt, W.refcount_pos, W.ops, fun hd => ?_⟩
      rw [hclean, W.clean hd]
      intro he
      exact ha (by rw [List.inj_on_of_nodup_map C.table.ino_nodup hw hmem he, hsv])
  · rw [htab]
    refine List.map_congr_left fun w hw => ?_
    by_cases hwv : w = v
    · subst hwv
      simp [hsv]
    · have ha : w.svAddr ≠ sv := fun he =>
        hwv (List.inj_on_of_nodup_map C.table.addr_nodup hw hmem (he.trans hsv.symm))
      have hi : w.svIno ≠ v.svIno := fun he =>
        hwv (List.inj_on_of_nodup_map C.table.ino_nodup hw hmem he)
      simp [ha, hi]
  · rw [hvn, hv]
    simp [hsv]

/-- When the device fails the inode stays dirty. -/
theorem sfsSyncInode_endures {u : SfsFs} (hu : u.calm = s) :
    Endures NoPanic (sfsSyncInode sv) u (fun r t => r = .ok () ∧ Core L H t ∧
      Quiet L v.svIno s t ∧ SameFiles L s t ∧ (∀ p, L p.ino → t.ptr p = s.ptr p) ∧
      t.vnode? sv = some { v with svDirty := false } ∧ t.sfsFreemap = s.sfsFreemap) (· = s) := by
  subst hu
  have hvu : u.vnode? sv = some v := hv
  have hlt := (C.owned.inode_used (C.live_of_vnode? hv)).1
  simp only [sfsSyncInode, Endures, sat_bind, sat_vnode hvu, sat_when]
  by_cases hd : v.svDirty = true
  · rw [if_pos hd]
    refine (sfsWblock_spec (s := u) (show v.svIno < u.sfsDevice.dBlocks from C.dBlocks ▸ hlt) v.svI.encode).seq ?_ ?_ ?_
    · rintro _ t hf ⟨⟨⟩, ht⟩
      refine ⟨⟨hf.mem, fun h => ⟨(hf.io h).1, nofun⟩⟩, .inl ⟨rfl, C.sync hv ?_⟩⟩
      rw [← ht]
      rfl
    · rintro e t - ⟨⟨⟩, -⟩
    · rintro t hf ht
      exact ⟨hf.error, .inr ⟨rfl, ht⟩⟩
  · rw [if_neg hd]
    refine ⟨.still rfl rfl, .inl ⟨trivial, C, .refl C.table, .refl L _, fun _ _ => trivial, ?_, trivial⟩⟩
    have : v.svDirty = false := by simpa using hd
    rw [hv, ← this]

theorem sfsSyncInode_spec : Sat NoPanic (sfsSyncInode sv) s (fun r t => r = .ok () ∧ Core L H t ∧
    Quiet L v.svIno s t ∧ SameFiles L s t ∧ (∀ p, L p.ino → t.ptr p = s.ptr p) ∧
    t.vnode? sv = some { v with svDirty := false } ∧ t.sfsFreemap = s.sfsFreemap) :=
  (sfsSyncInode_endures C hv C.calm_eq).healthy C

/-! ## Reclaiming -/

/-- A clean vnode can go: what it says is on disk. -/
theorem Core.dropVnode (hclean : v.svDirty = false) :
    Core L H (s.dropVnode sv) ∧ (∀ j, (s.dropVnode sv).inode j = s.inode j) ∧
      ∀ j, (s.dropVnode sv).Loaded j ↔ s.Loaded j ∧ j ≠ v.svIno := by
  obtain ⟨hmem, hsv⟩ := C.table.vnode?_iff.1 hv
  have hin (w : SfsVnode) : w ∈ (s.dropVnode sv).sfsVnodes ↔ w ∈ s.sfsVnodes ∧ w.svAddr ≠ sv :=
    mem_eraseP_key (f := SfsVnode.svAddr) C.table.addr_nodup
  have hsub : (s.dropVnode sv).sfsVnodes.Sublist s.sfsVnodes := List.eraseP_sublist
  have T : (s.dropVnode sv).Table :=
    ⟨C.table.addr_nodup.sublist (hsub.map _), C.table.ino_nodup.sublist (hsub.map _)⟩
  have hino (w : SfsVnode) (hw : w ∈ s.sfsVnodes) : w.svAddr = sv ↔ w.svIno = v.svIno := by
    constructor
    · intro ha
      rw [List.inj_on_of_nodup_map C.table.addr_nodup hw hmem (ha.trans hsv.symm)]
    · intro hi
      rw [List.inj_on_of_nodup_map C.table.ino_nodup hw hmem hi, hsv]
  have hi (j : Nat) : (s.dropVnode sv).inode j = s.inode j := by
    by_cases hj : j = v.svIno
    · have hnone : (s.dropVnode sv).loaded? j = none := find?_key_none.2 fun w hw he =>
        ((hin w).1 hw).2 ((hino w ((hin w).1 hw).1).2 (he.trans hj))
      rw [hj, C.table.inode_of_vnode? hv, ← (C.vnode v hmem).clean hclean]
      rw [hj] at hnone
      unfold inode
      rw [hnone]
      rfl
    · refine inode_congr ?_ rfl
      cases hl : s.loaded? j with
      | none => exact find?_key_none.2 fun w hw => find?_key_none.1 hl w ((hin w).1 hw).1
      | some w =>
        obtain ⟨hw, rfl⟩ := C.table.loaded?_iff.1 hl
        exact T.loaded?_iff.2 ⟨(hin w).2 ⟨hw, fun ha => hj ((hino w hw).1 ha)⟩, rfl⟩
  have hp (p : Ptr) : (s.dropVnode sv).ptr p = s.ptr p := ptr_congr (hi _) fun _ => rfl
  refine ⟨?_, hi, fun j => ?_⟩
  · refine ⟨C.ioFaults, C.memFaults, C.dBlocks, C.nbits, C.padding, T, fun w hw => ?_, C.root,
      fun j hj => by rw [hi]; exact C.type j hj, C.owned.congr (fun p _ => hp p) fun _ _ => Iff.rfl,
      C.saved.vnodes _ _⟩
    have W := C.vnode w ((hin w).1 hw).1
    exact ⟨W.live, W.addr_lt, W.refcount_pos, W.ops, W.clean⟩
  · constructor
    · rintro ⟨w, hw, rfl⟩
      obtain ⟨hw, ha⟩ := (hin w).1 hw
      exact ⟨⟨w, hw, rfl⟩, fun h => ha ((hino w hw).2 h)⟩
    · rintro ⟨⟨w, hw, rfl⟩, hne⟩
      exact ⟨w, (hin w).2 ⟨hw, fun ha => hne ((hino w hw).1 ha)⟩, rfl⟩

theorem Core.counts_dropVnode (h1 : v.vnRefcount = 1) (h0 : v.vnOpencount = 0) :
    Counts none (some sv) s (s.dropVnode sv) := by
  have hin (w : SfsVnode) : w ∈ (s.dropVnode sv).sfsVnodes ↔ w ∈ s.sfsVnodes ∧ w.svAddr ≠ sv :=
    mem_eraseP_key (f := SfsVnode.svAddr) C.table.addr_nodup
  have hnodup : ((s.dropVnode sv).sfsVnodes.map (·.svAddr)).Nodup :=
    C.table.addr_nodup.sublist (List.eraseP_sublist.map _)
  have hdrop (b : Nat) : (s.dropVnode sv).vnode? b = if b = sv then none else s.vnode? b := by
    refine Option.ext fun w => ?_
    unfold SfsFs.vnode?
    rw [find?_key_iff (f := SfsVnode.svAddr) hnodup, hin]
    have hb : s.vnode? b = some w ↔ w ∈ s.sfsVnodes ∧ w.svAddr = b := C.table.vnode?_iff
    unfold SfsFs.vnode? at hb
    grind
  refine ⟨⟨le_rfl, fun b _ w hw => ⟨w, ?_, rfl⟩⟩, fun b => ?_, fun b => ?_⟩
  · rw [hdrop] at hw
    split at hw
    · exact nomatch hw
    · exact hw
  · simp only [SfsFs.refs, hdrop]
    by_cases hb : b = sv
    · simp [hb, hv, h1]
    · simp [hb, Ne.symm hb]
  · simp only [SfsFs.opens, hdrop]
    by_cases hb : b = sv
    · simp [hb, hv, h0]
    · simp [hb]

end Sync

/-- The inode of a file that is not in memory and has no blocks goes back to the pool. -/
theorem Core.freeInode (C : Core L H s) {ino : Nat} (hl : L ino) (hr : ino ≠ sfsRootLocation)
    (hnl : ¬ s.Loaded ino) (h0 : ∀ p : Ptr, p.ino = ino → s.ptr p = 0) :
    Core (fun j => L j ∧ j ≠ ino) H (s.unmark ino) := by
  have hH : ¬ H ino := fun h => C.owned.not_live_of_held h hl
  have ho := (C.owned.abandon hl h0).discard (T := (· = ino)) (fun c hc => .inr hc) fun c _ => s.used_unmark ino c
  have hH' : (fun c => (H c ∨ c = ino) ∧ ¬ c = ino) = H :=
    funext fun c => propext (held_but hH c).symm
  rw [hH'] at ho
  refine ⟨C.ioFaults, C.memFaults, C.dBlocks, C.nbits, fun b hb hn => ?_,
    ⟨C.table.addr_nodup, C.table.ino_nodup⟩, fun w hw => ?_, ⟨C.root, hr.symm⟩, fun j hj => C.type j hj.1, ho,
    C.saved.freemap nofun⟩
  · refine (s.used_unmark ino b).2 ⟨C.padding b hb hn, ?_⟩
    have := (C.owned.inode_used hl).1
    have : s.nblocks ≤ b := hb
    omega
  · have W := C.vnode w hw
    exact ⟨⟨W.live, fun he => hnl ⟨w, hw, he⟩⟩, W.addr_lt, W.refcount_pos, W.ops, W.clean⟩

def SfsVnode.Dies (v : SfsVnode) : Prop := v.vnRefcount = 1 ∧ v.svI.sfiLinkcount = 0

def LiveAfter (L : Nat → Prop) (v : SfsVnode) (j : Nat) : Prop := L j ∧ ¬ (v.Dies ∧ j = v.svIno)

structure Dropped (L H : Nat → Prop) (v : SfsVnode) (s t : SfsFs) : Prop where
  core : Core (LiveAfter L v) H t
  same : SameFiles (LiveAfter L v) s t
  loaded : ∀ j, t.Loaded j ↔ s.Loaded j ∧ ¬ (v.vnRefcount = 1 ∧ j = v.svIno)
  counts : Counts none (some v.svAddr) s t
  keeps : v.vnRefcount ≠ 1 → Keeps s t

theorem liveAfter_eq (h : ¬ v.Dies) : LiveAfter L v = L :=
  funext fun _ => propext (and_iff_left fun hd => h hd.1)

theorem FileStep.sameFiles {ino : Nat} (h : FileStep L ino s t) : SameFiles (fun j => L j ∧ j ≠ ino) s t :=
  ⟨h.static.super, fun j hj => h.inode j hj.1 hj.2, fun j hj => h.byte j hj.1 hj.2⟩

theorem sat_vnodeKill {K : SfsPanic → Prop} (h1 : v.vnRefcount = 1) (ho : v.vnOpencount = 0)
    {Q : Except Errno Unit → SfsFs → Prop} : Sat K (vnodeKill v) s Q ↔ Q (.ok ()) s := by
  simp [vnodeKill, h1, ho]

theorem any_of_vnode? (hv : s.vnode? sv = some v) : (s.sfsVnodes.any fun w => decide (w.svAddr = sv)) = true := by
  have hp := List.find?_some hv
  exact List.any_eq_true.2 ⟨v, List.mem_of_find?_eq_some hv, hp⟩

section Reclaim

variable (C : Core L H s) (hv : s.vnode? sv = some v) (h1 : v.vnRefcount = 1)
  (ho : v.vnOpencount = 0)
include C hv h1 ho

/-- The last reference to a file with links: the inode goes to disk, or the vnode stays. -/
theorem sfsReclaim_linked_endures (hlc : v.svI.sfiLinkcount ≠ 0) {u : SfsFs} (hu : u.calm = s) :
    Endures NoPanic (sfsReclaim sv) u (fun r t => r = .ok () ∧ Dropped L H v s t) (· = s) := by
  have hL : LiveAfter L v = L := liveAfter_eq fun h => hlc h.2
  have ha := (C.table.vnode?_iff.1 hv).2
  have hvu : u.vnode? sv = some v := by rwa [← hu] at hv
  simp only [sfsReclaim, Endures, sat_bind, sat_vnode hvu, sat_ite]
  rw [if_neg (by simp [h1])]
  simp only [sat_when, hlc, if_false]
  refine (sfsSyncInode_endures C hv hu).seq ?_ ?_ ?_
  · rintro _ t hf ⟨-, D, q, same, -, hw, -⟩
    obtain ⟨E, hin, hload⟩ := D.dropVnode hw rfl
    have hwt : t.vnode? sv = some { v with svDirty := false } := hw
    simp only [sat_vnode hwt, hlc, if_false, sat_get, any_of_vnode? hwt, sat_check, if_true,
      sat_modify, sat_vnodeKill (v := { v with svDirty := false }) h1 ho]
    refine ⟨⟨hf.mem, fun h => ⟨(hf.io h).1, by simp⟩⟩, .inl ⟨trivial, ?_, ?_, fun j => (hload j).trans ?_, ?_,
      fun hne => absurd h1 hne⟩⟩
    · rw [hL]
      exact E
    · rw [hL]
      exact same.trans (.of_inode rfl (fun j _ => hin j) fun _ => rfl)
    · rw [q.loaded]
      simp [h1]
    · rw [ha]
      exact q.counts.trans (D.counts_dropVnode hw h1 ho)
  · rintro e t - ⟨⟨⟩, -⟩
  · rintro t hf ht
    exact ⟨hf, .inr ⟨rfl, ht⟩⟩

theorem sfsReclaim_linked_spec (hlc : v.svI.sfiLinkcount ≠ 0) :
    Sat NoPanic (sfsReclaim sv) s (fun r t => r = .ok () ∧ Dropped L H v s t) :=
  (sfsReclaim_linked_endures C hv h1 ho hlc C.calm_eq).healthy C

/-- The last reference to a file without links: its blocks go back to the pool. -/
theorem sfsReclaim_unlinked_spec (hlc : v.svI.sfiLinkcount = 0) (hr : v.svIno ≠ sfsRootLocation) :
    Sat NoPanic (sfsReclaim sv) s (fun r t => r = .ok () ∧ Dropped L H v s t) := by
  have hl := C.live_of_vnode? hv
  have V := C.vnode v (C.table.vnode?_iff.1 hv).1
  have hL : LiveAfter L v = fun j => L j ∧ j ≠ v.svIno := by
    funext j
    simp [LiveAfter, SfsVnode.Dies, h1, hlc]
  have hops : v.vnOps = .fileops := V.ops.trans (if_neg hr)
  simp only [sfsReclaim, sat_bind, sat_vnode hv, sat_ite]
  rw [if_neg (by simp [h1])]
  simp only [sat_when, hlc, if_true, vopTruncate, sat_bind, sat_vnode hv, hops]
  refine (sfsTruncate_spec 0 C hv).mono ?_
  rintro _ t ⟨rfl, T⟩
  obtain ⟨i, d, hw⟩ := T.step.vnode? hv
  have hi : i.sfiLinkcount = 0 := by
    have := congrArg (·.sfiLinkcount) (T.core.table.inode_of_vnode? hw)
    exact this.symm.trans (T.step.linkcount.trans ((congrArg (·.sfiLinkcount) (C.table.inode_of_vnode? hv)).trans hlc))
  refine (sfsSyncInode_spec T.core hw).mono ?_
  rintro _ u ⟨rfl, D, q, same, hp, hw', -⟩
  have hu := D.owned.inode_used hl
  simp only [sat_vnode hw', hi, if_true]
  refine (sat_sfsBfree (Nat.lt_of_lt_of_le hu.1 D.nblocks_le) hu.2).2 ?_
  have hw'' : (u.unmark v.svIno).vnode? sv = some { v with svI := i, svDirty := false } := hw'
  simp only [sat_get, any_of_vnode? hw'', sat_check, if_true, sat_modify,
    sat_vnodeKill (v := { v with svI := i, svDirty := false }) h1 ho]
  obtain ⟨E, hin, hload⟩ := D.dropVnode hw' rfl
  have hptr (p : Ptr) (hpi : p.ino = v.svIno) : (u.dropVnode sv).ptr p = 0 := by
    rw [ptr_congr (hin _) fun _ => rfl, hp p (hpi ▸ hl), T.none rfl p hpi]
  have F := E.freeInode hl hr (fun h => ((hload _).1 h).2 rfl) hptr
  refine ⟨trivial, by rw [hL]; exact F, ?_, fun j => (hload j).trans ?_, ?_, fun hne => absurd h1 hne⟩
  · rw [hL]
    exact (T.step.sameFiles.trans (same.mono fun _ h => h.1)).trans (.of_inode rfl (fun j _ => hin j) fun _ => rfl)
  · rw [q.loaded, T.step.loaded]
    simp [h1]
  · have hdrop := (T.step.counts.trans q.counts).trans (D.counts_dropVnode hw' h1 ho)
    rw [(C.table.vnode?_iff.1 hv).2]
    exact ⟨⟨hdrop.next, hdrop.kept⟩, hdrop.refs, hdrop.opens⟩

end Reclaim

theorem Core.decref (C : Core L H s) (hv : s.vnode? sv = some v) (h : 1 < v.vnRefcount) :
    Dropped L H v s (s.updateVnode sv (SfsVnode.recount (· - 1) id)) := by
  obtain ⟨hmem, hsv⟩ := C.table.vnode?_iff.1 hv
  obtain ⟨D, same, keeps, loaded⟩ := updateCount C sv (· - 1) id fun w hw ha => by
    rw [List.inj_on_of_nodup_map C.table.addr_nodup hw hmem (ha.trans hsv.symm)]
    omega
  have hL : LiveAfter L v = L := liveAfter_eq fun hd => by have := hd.1; omega
  refine ⟨by rwa [hL], by rwa [hL], fun j => (loaded j).trans (and_iff_left ?_).symm, ?_, fun _ => keeps⟩
  · omega
  · rw [hsv]
    exact C.counts_decref hv

/-- `VOP_DECREF`. The root never loses its last link, so it is never freed. -/
theorem vnodeDecref_spec (C : Core L H s) (hv : s.vnode? sv = some v) (ho : v.vnRefcount = 1 → v.vnOpencount = 0)
    (hr : v.svI.sfiLinkcount = 0 → v.svIno ≠ sfsRootLocation) :
    Sat NoPanic (vnodeDecref sv) s (fun r t => r = .ok () ∧ Dropped L H v s t) := by
  have V := C.vnode v (C.table.vnode?_iff.1 hv).1
  simp only [vnodeDecref, sat_bind, sat_vnode hv, sat_check, V.refcount_pos, if_true,
    sat_ite, sat_attempt, sat_pure, sat_modifyVnode]
  split
  · next h => exact ⟨trivial, C.decref hv h⟩
  · next h =>
    have h1 : v.vnRefcount = 1 := by have := V.refcount_pos; omega
    have hrec : Sat NoPanic (sfsReclaim sv) s (fun r t => r = .ok () ∧ Dropped L H v s t) := by
      by_cases hlc : v.svI.sfiLinkcount = 0
      · exact sfsReclaim_unlinked_spec C hv h1 (ho h1) hlc (hr hlc)
      · exact sfsReclaim_linked_spec C hv h1 (ho h1) hlc
    refine hrec.mono ?_
    rintro _ t ⟨rfl, hd⟩
    exact ⟨trivial, hd⟩

end Os161.Sfs
