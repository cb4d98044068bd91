import Os161.Sfs.Consistent

/-!
# The operations of the file system

Every call takes a consistent volume to a consistent volume. The files that exist before and
after the call keep their contents, except for the file that a write or a truncation is
about; new files are empty. `NameSpec` tells what becomes of the names. Of the panics only those
of `sfs_rename` are left.
-/
namespace Os161.Sfs

open Lib Kern SfsFs Prog

variable {L L' L'' : Nat → Prop} {s t u : SfsFs} {sv : Nat} {v : SfsVnode}

/-- The outcome of a call that writes no file: `L` were the live inodes and `L'` are now. -/
structure Settled (L L' : Nat → Prop) (s t : SfsFs) : Prop where
  root : L sfsRootLocation
  consistent : Consistent L' rootLink t
  data : SameData (fun j => L j ∧ L' j ∧ j ≠ sfsRootLocation) s t
  fresh : ∀ j, L' j → ¬ L j → (t.inode j).sfiSize = 0 ∧ ∀ i, t.byte j i = 0

namespace Settled

theorem of_data (K : Consistent L rootLink t)
    (h : SameData (fun j => L j ∧ j ≠ sfsRootLocation) s t) : Settled L L s t :=
  ⟨K.core.root, K, h.mono fun _ hj => hj.2, fun _ hj hn => absurd hj hn⟩

theorem refl (K : Consistent L rootLink s) : Settled L L s s := of_data K (.refl _ _)

theorem trans (h : Settled L L' s t) (h' : Settled L' L'' t u) (hL : ∀ j, L j → L'' j → L' j) : Settled L L'' s u := by
  refine ⟨h.root, h'.consistent, ?_, fun j hj hn => ?_⟩
  · exact (h.data.mono fun j hj => ⟨hj.1, hL j hj.1 hj.2.1, hj.2.2⟩).trans
      (h'.data.mono fun j hj => ⟨hL j hj.1 hj.2.1, hj.2⟩)
  · by_cases hj' : L' j
    · have hr : j ≠ sfsRootLocation := fun he => hn (he ▸ h.root)
      obtain ⟨hs, hb⟩ := h.fresh j hj' hn
      exact ⟨(h'.data.size j ⟨hj', hj, hr⟩).trans hs, fun i => (h'.data.byte j ⟨hj', hj, hr⟩ i).trans (hb i)⟩
    · exact h'.fresh j hj hj'

theorem load (K : Consistent L rootLink s) {ino : Nat} (h : LoadPost L (fun _ => False) ino s sv t) : Settled L L s t :=
  of_data (K.same h.core h.same fun j hj => (h.loaded j).2 (.inl hj))
    ((SameData.of_sameFiles h.same).mono fun _ hj => hj.1)

theorem make (K : Consistent L rootLink s) {ino : Nat}
    (h : MakePost L (fun _ => False) ino s sv t) : Settled L (fun j => L j ∨ j = ino) s t := by
  refine ⟨K.core.root, K.make h, (SameData.of_sameFiles h.same).mono fun _ hj => hj.1, fun j hj hn => ?_⟩
  obtain rfl := hj.resolve_left hn
  exact ⟨by rw [h.inode]; rfl, h.byte⟩

theorem drop (K : Consistent L rootLink s) (hv : s.vnode? sv = some v)
    (h : Dropped L (fun _ => False) v s t) : Settled L (LiveAfter L v) s t :=
  ⟨K.core.root, K.drop hv h, (SameData.of_sameFiles h.same).mono fun _ hj => hj.2.1,
    fun _ hj hn => absurd hj.1 hn⟩

end Settled

/-- The panics left: a name of a directory, directories of two volumes, and a rename that
could neither be finished nor undone. -/
def RenamePanic (p : SfsPanic) : Prop :=
  p = .renameDirs ∨ p = .renameNotFile ∨ p = .renameCannotRecover

/-! ## Looking up names -/

def SfsFs.Names (s : SfsFs) (name : CString) (ino : Nat) : Prop :=
  ∃ i < s.slots, s.slotIno i = ino ∧ ino ≠ 0 ∧ (s.slot i).name = name.bytes

/-- The entry in slot `i` is the name for the inode. -/
def SfsFs.Shows (s : SfsFs) (i : Nat) (name : CString) (ino : Nat) : Prop :=
  s.slotIno i = ino ∧ ino ≠ 0 ∧ (s.slot i).name = name.bytes

theorem Consistent.names_unique {d : Nat → Int} (K : Consistent L d s) {name : CString} {i j : Nat}
    (hi : s.Names name i) (hj : s.Names name j) : i = j := by
  obtain ⟨a, ha, rfl, ha0, han⟩ := hi
  obtain ⟨b, hb, rfl, hb0, hbn⟩ := hj
  rw [K.dir.distinct a ha b hb ha0 hb0 (han.trans hbn.symm)]

theorem DirSame.names (h : DirSame s t) (name : CString) (ino : Nat) : t.Names name ino ↔ s.Names name ino := by
  unfold SfsFs.Names
  rw [h.slots_eq]
  refine exists_congr fun i => and_congr_right fun hi => ?_
  rw [slotIno, slotIno, h.slot i hi]

section Names

variable {H : Nat → Prop} {i ino : Nat} {n1 n2 name : CString}

/-- What the slots show after one of them was given an entry. -/
theorem DirPut.names {sd : SfsDir} (h : DirPut s t i sd) (D : DirOk s) (name : CString) (ino : Nat) :
    t.Names name ino ↔ (∃ j < s.slots, j ≠ i ∧ s.Shows j name ino) ∨
      sd.sfdIno.toNat = ino ∧ ino ≠ 0 ∧ sd.name = name.bytes := by
  have hn := h.slots_eq D
  have hle := h.le
  have hput : t.Shows i name ino ↔ sd.sfdIno.toNat = ino ∧ ino ≠ 0 ∧ sd.name = name.bytes := by
    unfold SfsFs.Shows
    rw [slotIno, h.put]
  have hkept {j : Nat} (hj : j < s.slots) (hji : j ≠ i) : t.Shows j name ino ↔ s.Shows j name ino := by
    unfold SfsFs.Shows
    rw [slotIno, h.kept j hj hji, slotIno]
  constructor
  · rintro ⟨j, hj, hsh⟩
    by_cases hji : j = i
    · subst hji
      exact .inr (hput.1 hsh)
    · have hjs : j < s.slots := by omega
      exact .inl ⟨j, hjs, hji, (hkept hjs hji).1 hsh⟩
  · intro hor
    rcases hor with ⟨j, hj, hji, hsh⟩ | hsh
    · exact ⟨j, by omega, (hkept hj hji).2 hsh⟩
    · exact ⟨i, by omega, hput.2 hsh⟩

/-- A name that was entered is there, and the others are as before. -/
theorem Entered.names (h : Entered L H n2 ino s (.ok i) t) (D : DirOk s)
    (hino : (BitVec.ofNat 32 ino).toNat = ino) (h0 : ino ≠ 0) (name : CString) (j : Nat) :
    t.Names name j ↔ s.Names name j ∨ name = n2 ∧ j = ino := by
  obtain ⟨-, -, hp, hlen, hfree, -⟩ := h
  have hname := SfsDir.name_named (BitVec.ofNat 32 ino) n2 hlen
  rw [hp.names D]
  apply or_congr
  · constructor
    · intro ⟨k, hk, _, hsh⟩
      exact ⟨k, hk, hsh⟩
    · intro ⟨k, hk, hsh⟩
      refine ⟨k, hk, fun hki => ?_, hsh⟩
      subst hki
      exact hsh.2.1 (hsh.1.symm.trans (hfree hk))
  · rw [hname]
    change (BitVec.ofNat 32 ino).toNat = j ∧ _ ↔ _
    rw [hino]
    constructor
    · intro ⟨hj, _, hb⟩
      exact ⟨CString.ext hb.symm, hj.symm⟩
    · intro ⟨hn, hj⟩
      subst hn hj
      exact ⟨rfl, h0, rfl⟩

/-- The entry of a slot that was cleared is gone, and the others are as before. -/
theorem DirPut.names_cleared (h : DirPut s t i (SfsDir.named sfsNoino [])) (D : DirOk s)
    (hi : i < s.slots) (hsh : s.Shows i n1 ino) (name : CString) (j : Nat) :
    t.Names name j ↔ s.Names name j ∧ ¬ (name = n1 ∧ j = ino) := by
  have hfree : ¬ ((SfsDir.named sfsNoino []).sfdIno.toNat = j ∧ j ≠ 0 ∧
      (SfsDir.named sfsNoino []).name = name.bytes) := fun hf => hf.2.1 hf.1.symm
  rw [h.names D, or_iff_left hfree]
  constructor
  · intro ⟨k, hk, hki, hshk⟩
    refine ⟨⟨k, hk, hshk⟩, fun ⟨hn, hj⟩ => hki ?_⟩
    subst hn hj
    -- no name stands in two slots
    exact D.distinct k hk i hi (hshk.1 ▸ hshk.2.1) (hsh.1 ▸ hsh.2.1) (hshk.2.2.trans hsh.2.2.symm)
  · intro ⟨⟨k, hk, hshk⟩, hne⟩
    refine ⟨k, hk, fun hki => hne ?_, hshk⟩
    subst hki
    exact ⟨CString.ext (hshk.2.2.symm.trans hsh.2.2), hshk.1.symm.trans hsh.1⟩

/-- The entries of the directory: which names stand for which files. -/
def SfsFs.entries (s : SfsFs) : Set (CString × Nat) := {e | s.Names e.1 e.2}

theorem DirSame.entries (h : DirSame s t) : t.entries = s.entries :=
  Set.ext fun e => h.names e.1 e.2

theorem SameData.entries (h : SameData L s t) (hr : L sfsRootLocation) : t.entries = s.entries :=
  (DirSame.of_content (h.size _ hr) (h.byte _ hr)).entries

theorem Consistent.entries_enter {d : Nat → Int} (K : Consistent L d s) (hl : L ino)
    (h : Entered L (fun _ => False) name ino s (.ok i) t) :
    t.entries = insert (name, ino) s.entries ∧ ∀ j, (name, j) ∉ s.entries := by
  constructor
  · ext ⟨n, j⟩
    rw [Set.mem_insert_iff, Prod.mk.injEq, or_comm]
    exact h.names K.dir (toNat_ofNat_of_lt_nblocks (K.core.owned.inode_used hl).1)
      (K.core.owned.inode_ne_zero hl) n j
  · rintro j ⟨k, hk, rfl, h0, hn⟩
    exact h.2.2.2.2.2 k hk h0 hn

theorem DirPut.entries_cleared (h : DirPut s t i (SfsDir.named sfsNoino [])) (D : DirOk s)
    (hi : i < s.slots) (hsh : s.Shows i name ino) : t.entries = s.entries \ {(name, ino)} := by
  ext ⟨n, j⟩
  rw [Set.mem_sdiff, Set.mem_singleton_iff, Prod.mk.injEq]
  exact h.names_cleared D hi hsh n j

end Names

/-- The file of a vnode. -/
def SfsFs.fileOf (s : SfsFs) (g : Nat) : Option Nat := (s.vnode? g).map (·.svIno)

/-- What the calls do to the entries `E`, where `file` is the file of a vnode after the call. In the
directory a name is looked up or removed in vain only if it is not there. -/
def NameSpec (file : Nat → Option Nat) (E E' : Set (CString × Nat)) : SfsCall → Except Errno SfsReply → Prop
  | .lookup _ name, .ok (.vnode g) => E' = E ∧ ∃ ino, file g = some ino ∧ (name, ino) ∈ E
  | .lookup d name, .error _ | .remove d name, .error _ =>
      E' = E ∧ (file d = some sfsRootLocation → ∀ ino, (name, ino) ∉ E)
  | .creat _ name excl, .ok (.vnode g) => ∃ ino, file g = some ino ∧ E' = insert (name, ino) E ∧
      ∀ j, (name, j) ∈ E → excl = false ∧ j = ino
  | .link _ name f, .ok _ => ∃ ino, file f = some ino ∧ E' = insert (name, ino) E ∧ ∀ j, (name, j) ∉ E
  | .remove _ name, .ok _ => ∃ ino, (name, ino) ∈ E ∧ E' = E \ {(name, ino)}
  | .rename _ n1 _ n2, .ok _ => ∃ ino, (n1, ino) ∈ E ∧ (∀ j, (n2, j) ∉ E) ∧
      E' = insert (n2, ino) E \ {(n1, ino)}
  | _, _ => E' = E

/-- The name was found in slot `i`, and `g` is its vnode. -/
structure Looked (L : Nat → Prop) (s : SfsFs) (name : CString) (g i : Nat) (t : SfsFs) : Prop where
  settled : Settled L L s t
  keeps : Keeps s t
  counts : Counts (some g) none s t
  slot_lt : i < t.slots
  slotIno_ne : t.slotIno i ≠ 0
  names : s.Names name (t.slotIno i)
  vnode : ∃ v, t.vnode? g = some v ∧ v.svIno = t.slotIno i

theorem vnode?_setInode (hv : s.vnode? sv = some v) (f : SfsInode → SfsInode) :
    (s.updateVnode sv (SfsVnode.setInode f)).vnode? sv = some (v.setInode f) := by
  have ha : v.svAddr = sv := by simpa using List.find?_some hv
  rw [vnode?_map (s := s) (u := s.updateVnode sv (SfsVnode.setInode f)) rfl (fun w _ => by split <;> rfl), hv]
  simp [ha]

theorem keeps_setInode (s : SfsFs) (a : Nat) (f : SfsInode → SfsInode) :
    Keeps s (s.updateVnode a (SfsVnode.setInode f)) := by
  intro b v hv
  refine ⟨if v.svAddr = a then v.setInode f else v, ?_, ?_⟩
  · rw [vnode?_map (s := s) (u := s.updateVnode a (SfsVnode.setInode f)) rfl (fun w _ => by split <;> rfl), hv]
    rfl
  · split <;> exact ⟨rfl, rfl⟩

theorem counts_setInode (s : SfsFs) (a : Nat) (f : SfsInode → SfsInode) :
    Counts none none s (s.updateVnode a (SfsVnode.setInode f)) :=
  .of_map (s := s) rfl rfl fun w => by split <;> exact ⟨rfl, rfl, rfl, rfl⟩

theorem dropAfter {P : SfsPanic → Prop} {m : SfsM Unit} (Q : Except Errno Unit → Set (CString × Nat) → Prop)
    {g : Nat} (K : Consistent L rootLink s) (S : Settled L L s t) (hc : Counts (some g) none s t)
    (hv : t.vnode? g = some v)
    (hm : Sat P m t (fun r u => (Settled L L t u ∧ Keeps t u ∧ Counts none none t u) ∧ Q r u.entries)) :
    Sat P (do
      let result ← Prog.attempt m
      vnodeDecref g
      Prog.ofExcept result) t (fun r u => ((∃ L', Settled L L' s u) ∧ Counts none none s u) ∧ Q r u.entries) := by
  simp only [sat_bind, sat_attempt, sat_ofExcept]
  refine hm.mono ?_
  rintro r u ⟨⟨S', keeps, hc'⟩, hQ⟩
  have hcu := hc.trans_none hc'
  obtain ⟨w, hw, -, -⟩ := keeps _ _ hv
  refine ((vnodeDecref_spec S'.consistent.core hw (hcu.closed K.core hw)
    fun h0 => (S'.consistent.unlinked hw h0).1).weaken fun _ h => h.elim).mono ?_
  rintro _ x ⟨rfl, hx⟩
  have hwa := (S'.consistent.core.table.vnode?_iff.1 hw).2
  refine ⟨⟨⟨_, (S.trans S' fun _ hj _ => hj).trans (.drop S'.consistent hw hx) fun _ hj _ => hj⟩, ?_⟩, ?_⟩
  · exact hcu.cancel (hwa ▸ hx.counts)
  · exact (hx.same.dirSame hx.core.root).entries ▸ hQ

theorem sfsGetroot_spec (K : Consistent L rootLink s) : Sat NoPanic sfsGetroot s (fun r t => ∃ g, r = .ok g ∧
    LoadPost L (fun _ => False) sfsRootLocation s g t) := by
  simp only [sfsGetroot, sat_bind, sat_attempt]
  refine (sfsLoadvnode_spec K.core K.core.root).mono ?_
  rintro (e | g) t h
  · exact h.elim
  · exact ⟨g, rfl, h⟩

/-- When the device fails while a name is looked up, at most an address is lost. -/
theorem sfsLookonce_endures {c : SfsFs} (K : Consistent L rootLink c) (hv : c.vnode? sv = some v)
    (hroot : v.svIno = sfsRootLocation) (hs : s.calm = c) (hmem : s.memFaults = []) (name : CString) :
    Endures NoPanic (sfsLookonce sv name) s (fun r t => match r with
      | .ok (g, i) => Looked L c name g i t ∧ SameFiles L c t ∧ t.Shows i name (t.slotIno i)
      | .error _ => t = c ∧ ∀ ino, ¬ c.Names name ino)
      (fun t => t = c ∨ t = { c with nextAddr := c.nextAddr + 1 }) := by
  simp only [sfsLookonce, Endures, sat_bind]
  refine (sfsDirFindname_endures K.core hv hroot K.dir hs name).seq ?_ ?_ ?_
  · rintro f t hft ⟨hf, ht⟩
    dsimp only
    cases he : f.entry with
    | none =>
      refine (sat_raise _).2 ⟨⟨hft.mem, fun h => ⟨(hft.io h).1, by simp⟩⟩, .inl ⟨ht, ?_⟩⟩
      rintro _ ⟨i, hi, rfl, h0, hname⟩
      exact hf.missing he i hi h0 hname
    | some p =>
      obtain ⟨ino, i⟩ := p
      obtain ⟨hi, rfl, h0, hname⟩ := hf.found ino i he
      refine (sat_bind _).2 ?_
      refine (sfsLoadvnode_endures K.core ht (hft.mem.trans hmem) (K.named i hi h0)).seq ?_ ?_ ?_
      · rintro g u hfu h
        obtain ⟨w, hw, hwi⟩ := h.vnode
        have hd := h.same.dirSame K.core.root
        have hslot : u.calm.slotIno i = c.slotIno i := by rw [slotIno, hd.slot i hi, slotIno]
        have S := Settled.load K h
        have hlc : w.svI.sfiLinkcount ≠ 0 := fun hz => by
          have hl := (S.consistent.unlinked hw hz).2
          have hpos : 0 < u.calm.links w.svIno :=
            links_pos_iff.2 ⟨i, hd.slots_eq.symm ▸ hi, hslot.trans hwi.symm⟩
          omega
        have hwu : u.vnode? g = some w := hw
        simp only [sat_bind, sat_vnode hwu, sat_check, hlc, ne_eq, not_false_eq_true, if_true, sat_pure]
        have hlooked : Looked L c name g i u.calm := ⟨S, h.keeps, h.counts, hd.slots_eq.symm ▸ hi,
          hslot.symm ▸ h0, ⟨i, hi, hslot.symm, hslot.symm ▸ h0, hname⟩, w, hw, hwi.trans hslot.symm⟩
        refine ⟨(hft.trans hfu).value _, .inl ⟨hlooked, h.same, rfl, hslot.symm ▸ h0, ?_⟩⟩
        rw [hd.slot i hi, hname]
      · rintro e u - ⟨⟩
      · rintro u hfu hu
        exact ⟨(hft.trans hfu).error, .inr ⟨rfl, .inr hu⟩⟩
  · rintro e t - ⟨⟩
  · rintro t hft ht
    exact ⟨hft.error, .inr ⟨rfl, .inl ht⟩⟩

section Directory

variable (K : Consistent L rootLink s) (hv : s.vnode? sv = some v)
  (hroot : v.svIno = sfsRootLocation)
include K hv hroot

theorem sfsLookonce_spec (name : CString) :
    Sat NoPanic (sfsLookonce sv name) s (fun r t => match r with
      | .ok (g, i) => Looked L s name g i t ∧ SameFiles L s t ∧ t.Shows i name (t.slotIno i)
      | .error _ => t = s ∧ ∀ ino, ¬ s.Names name ino) :=
  (sfsLookonce_endures K hv hroot K.core.calm_eq K.core.memFaults name).healthy K.core

theorem sfsLookup_spec (name : CString) : Sat NoPanic (sfsLookup sv name) s
    (fun r t => (Settled L L s t ∧ Counts r.toOption none s t) ∧
      NameSpec t.fileOf s.entries t.entries (.lookup sv name) (r.map .vnode)) := by
  have hty := K.core.type _ (K.core.live_of_vnode? hv)
  rw [K.core.table.inode_of_vnode? hv, if_pos hroot] at hty
  simp only [sfsLookup, sat_bind, sat_vnode hv, hty, ne_eq, not_true_eq_false, if_false]
  refine (sfsLookonce_spec K hv hroot name).mono ?_
  rintro (e | ⟨g, i⟩) t h
  · obtain ⟨rfl, hmiss⟩ := h
    exact ⟨⟨.refl K, .refl t⟩, rfl, fun _ => hmiss⟩
  · obtain ⟨h, same, -⟩ := h
    obtain ⟨w, hw, hwi⟩ := h.vnode
    refine ⟨⟨h.settled, h.counts⟩, (same.dirSame K.core.root).entries, w.svIno, congrArg _ hw, ?_⟩
    exact hwi ▸ h.names

theorem sfsLink_spec (name : CString) {file : Nat} {f : SfsVnode} (hf : s.vnode? file = some f) :
    Sat NoPanic (sfsLink sv name file) s (fun r t => (Settled L L s t ∧ Counts none none s t) ∧
      NameSpec t.fileOf s.entries t.entries (.link sv name file) (r.map fun _ => .done)) := by
  simp only [sfsLink, sat_bind, sat_vnode hf, sat_setInode]
  refine (sfsDirLink_spec K.core hv hroot K.dir name f.svIno).mono ?_
  rintro (e | i) t h
  · exact ⟨⟨.of_data (K.dirSame h.1 h.2.1 h.2.2) (.of_fileStep h.2.1), h.2.1.counts⟩, h.2.2.entries⟩
  · have hl := K.core.live_of_vnode? hf
    obtain ⟨K', -⟩ := K.enter hl h
    obtain ⟨hE, hnew⟩ := K.entries_enter hl h
    obtain ⟨j, d, hf'⟩ := h.2.1.vnode? hf
    obtain ⟨K'', hd⟩ := K'.countUp (v := { f with svI := j, svDirty := d }) hf'
    exact ⟨⟨.of_data K'' ((SameData.of_fileStep h.2.1).trans (hd.mono fun _ hj => hj.1)),
      h.2.1.counts.trans (counts_setInode _ _ _)⟩,
      f.svIno, congrArg _ (vnode?_setInode hf' _), (hd.entries K.core.root).trans hE, hnew⟩

theorem sfsCreat_spec (name : CString) (excl : Bool) : Sat NoPanic (sfsCreat sv name excl) s
    (fun r t => ((∃ L', Settled L L' s t) ∧ Counts r.toOption none s t) ∧
      NameSpec t.fileOf s.entries t.entries (.creat sv name excl) (r.map .vnode) ∧
      ∀ g, r = .ok g → ∃ ino, t.fileOf g = some ino ∧ (L ino ↔ ∃ j, (name, j) ∈ s.entries)) := by
  simp only [sfsCreat, sat_bind]
  refine (sfsDirFindname_spec K.core hv hroot K.dir name).mono ?_
  rintro (e | f) t h
  · exact h.elim
  · obtain ⟨hf, ht⟩ := h
    simp only [ht]
    cases he : f.entry with
    | some p =>
      obtain ⟨ino, i⟩ := p
      obtain ⟨hi, rfl, h0, hname⟩ := hf.found ino i he
      have hmem : (name, s.slotIno i) ∈ s.entries := ⟨i, hi, rfl, h0, hname⟩
      simp only [sat_ite, sat_raise]
      split
      · exact ⟨⟨⟨L, .refl K⟩, .refl s⟩, rfl, by simp⟩
      · next hexcl =>
        refine (sfsLoadvnode_spec K.core (K.named i hi h0)).mono ?_
        rintro (e | g) t h
        · exact h.elim
        · obtain ⟨w, hw, hwi⟩ := h.vnode
          have hfile : t.fileOf g = some (s.slotIno i) := hwi ▸ congrArg _ hw
          refine ⟨⟨⟨L, .load K h⟩, h.counts⟩, ⟨s.slotIno i, hfile, ?_, fun j hj => ?_⟩, ?_⟩
          · rw [Set.insert_eq_of_mem hmem]
            exact (h.same.dirSame K.core.root).entries
          · exact ⟨Bool.eq_false_iff.2 hexcl, K.names_unique hj hmem⟩
          · rintro _ ⟨⟩
            exact ⟨_, hfile, iff_of_true (K.named i hi h0) ⟨_, hmem⟩⟩
    | none =>
      simp only [sat_bind]
      refine (sfsMakeobj_spec K.core).mono ?_
      rintro (e | g) t h
      · obtain ⟨-, rfl⟩ := h
        exact ⟨⟨⟨L, .refl K⟩, .refl t⟩, rfl, by simp⟩
      · obtain ⟨ino, h⟩ := h
        have S := Settled.make K h
        have K' := S.consistent
        have hE := (h.same.dirSame K.core.root).entries
        obtain ⟨w, hw, rfl, h1⟩ := h.vnode
        obtain ⟨v', hv', hroot', -⟩ := h.keeps _ _ hv
        simp only [sat_vnode hw, sat_attempt]
        refine (sfsDirLink_spec K'.core hv' (hroot'.trans hroot) K'.dir name w.svIno).mono ?_
        rintro (e | i) u hu <;> obtain ⟨j, d, hw'⟩ := hu.2.1.vnode? hw
        · -- no room for the name: the new file goes with its only reference
          have S' : Settled _ _ t u :=
            .of_data (K'.dirSame hu.1 hu.2.1 hu.2.2) (.of_fileStep hu.2.1)
          simp only [sat_bind, sat_raise]
          have hc := h.counts.trans_none hu.2.1.counts
          refine (vnodeDecref_spec S'.consistent.core hw' (hc.closed K.core hw')
            fun h0 => (S'.consistent.unlinked hw' h0).1).mono ?_
          rintro _ x ⟨rfl, hx⟩
          have S'' := (S.trans S' fun j hj _ => .inl hj).trans (.drop S'.consistent hw' hx) fun j hj _ => .inl hj
          have hwa : w.svAddr = g := (K'.core.table.vnode?_iff.1 hw).2
          exact ⟨⟨⟨_, S''⟩, hc.cancel (hwa ▸ hx.counts)⟩,
            (hx.same.dirSame hx.core.root).entries.trans (hu.2.2.entries.trans hE), by simp⟩
        · have hl := K'.core.live_of_vnode? hw
          obtain ⟨K2, -⟩ := K'.enter hl hu
          obtain ⟨hE', hnew⟩ := K'.entries_enter hl hu
          rw [hE] at hE' hnew
          obtain ⟨K3, hd⟩ := K2.countUp (v := { w with svI := j, svDirty := d }) hw'
          simp only [sat_bind, sat_setInode, sat_pure]
          have S' : Settled _ _ t _ :=
            .of_data K3 ((SameData.of_fileStep hu.2.1).trans (hd.mono fun _ hj => hj.1))
          have hfile := congrArg (Option.map (·.svIno)) (vnode?_setInode hw'
            fun i => { i with sfiLinkcount := i.sfiLinkcount + 1 })
          refine ⟨⟨⟨_, S.trans S' fun j hj _ => .inl hj⟩,
            (h.counts.trans_none hu.2.1.counts).trans_none (counts_setInode _ _ _)⟩,
            ⟨w.svIno, hfile, (hd.entries K'.core.root).trans hE', fun j hj => absurd hj (hnew j)⟩, ?_⟩
          rintro _ ⟨⟩
          exact ⟨_, hfile, iff_of_false h.fresh (not_exists.2 hnew)⟩

section Unlink

variable {g i : Nat} {w : SfsVnode} (hw : s.vnode? g = some w) (hi : i < s.slots) {name : CString}
  (hsh : s.Shows i name w.svIno)
include hw hi hsh

/-- Taking the name in slot `i` away from its vnode `g` does not fail: the block it is in is there.
-/
theorem sfsDirUnlink_named : Sat NoPanic (sfsDirUnlink sv i) s (fun r t => r = .ok () ∧
    FileStep L sfsRootLocation s t ∧ Consistent L (shift rootLink w.svIno 1) t ∧
      t.entries = s.entries \ {(name, w.svIno)}) := by
  refine ((sfsDirUnlink_spec K.core hv hroot K.dir hi).and
    (sfsDirUnlink_ok K.core hv hroot (hsh.1 ▸ hsh.2.1))).mono ?_
  rintro _ t ⟨⟨C, step, h⟩, rfl⟩
  have K' := K.leave hi ⟨w, (K.core.table.vnode?_iff.1 hw).1, hsh.1.symm⟩ C step h
  exact ⟨rfl, step, hsh.1 ▸ K', h.entries_cleared K.dir hi hsh⟩

/-- Removing the name in slot `i` and uncounting it. -/
theorem removeName (p : SfsPanic) :
    Sat NoPanic (do
      sfsDirUnlink sv i
      let v ← vnode g
      Prog.check (v.svI.sfiLinkcount ≠ 0) p
      setInode g fun i => { i with sfiLinkcount := i.sfiLinkcount - 1 }) s
      (fun r t => (Settled L L s t ∧ Keeps s t ∧ Counts none none s t) ∧
        r = .ok () ∧ t.entries = s.entries \ {(name, w.svIno)}) := by
  simp only [sat_bind]
  refine (sfsDirUnlink_named K hv hroot hw hi hsh).mono ?_
  rintro _ t ⟨rfl, step, h, hE⟩
  obtain ⟨j, d, hw'⟩ := step.vnode? hw
  obtain ⟨hlc, K', hd⟩ := h.countDown (v := { w with svI := j, svDirty := d }) hw'
  simp only [sat_vnode hw', sat_check, hlc, ne_eq, not_false_eq_true, if_true, sat_setInode]
  exact ⟨⟨.of_data K' ((SameData.of_fileStep step).trans (hd.mono fun _ hj => hj.1)),
    step.keeps.trans (keeps_setInode _ _ _), step.counts.trans (counts_setInode _ _ _)⟩,
    trivial, (hd.entries K.core.root).trans hE⟩

/-- Only a directory cannot be renamed. Taking the old name away does not fail, so there is never
anything to undo. -/
theorem renameBody_spec (n2 : CString) :
    Sat (fun p => p = .renameNotFile ∧ w.svIno = sfsRootLocation) (renameBody sv n2 g i) s
      (fun r t => (w.svIno ≠ sfsRootLocation ∧ Settled L L s t ∧ Keeps s t ∧ Counts none none s t) ∧ match r with
        | .ok _ => (∀ j, (n2, j) ∉ s.entries) ∧ t.entries = insert (n2, w.svIno) s.entries \ {(name, w.svIno)}
        | .error _ => t.entries = s.entries) := by
  have hself := K.core.table.inode_of_vnode? hw
  have hty := K.core.type _ (K.core.live_of_vnode? hw)
  rw [hself] at hty
  simp only [renameBody, sat_bind, sat_vnode hw, sat_check, hty]
  by_cases hne : w.svIno = sfsRootLocation
  · rw [if_pos hne, if_neg (by decide)]
    exact ⟨trivial, hne⟩
  rw [if_neg hne, if_pos rfl]
  refine ((sfsDirLink_spec K.core hv hroot K.dir n2 w.svIno).weaken fun _ h => h.elim).mono ?_
  rintro (e | slot2) t h
  · exact ⟨⟨hne, .of_data (K.dirSame h.1 h.2.1 h.2.2) (.of_fileStep h.2.1), h.2.1.keeps, h.2.1.counts⟩,
      h.2.2.entries⟩
  have hl := K.core.live_of_vnode? hw
  obtain ⟨K1, -, -, hkept⟩ := K.enter hl h
  obtain ⟨hE, hnew⟩ := K.entries_enter hl h
  obtain ⟨hi1, hi2, -⟩ := hkept i hi (hsh.1 ▸ hsh.2.1)
  have hw1 := h.2.1.vnode?_ne hw hne
  obtain ⟨K2, hd2⟩ := K1.countUp hw1
  have keeps2 := h.2.1.keeps.trans (keeps_setInode t g fun i => { i with sfiLinkcount := i.sfiLinkcount + 1 })
  have counts2 := h.2.1.counts.trans (counts_setInode t g fun i => { i with sfiLinkcount := i.sfiLinkcount + 1 })
  have data2 := (SameData.of_fileStep h.2.1).trans (hd2.mono fun _ hj => hj.1)
  have hdir : DirSame t _ := .of_content (hd2.size _ K.core.root) (hd2.byte _ K.core.root)
  have hw2 := vnode?_setInode hw1 fun i => { i with sfiLinkcount := i.sfiLinkcount + 1 }
  simp only [sat_setInode, sat_attempt]
  generalize t.updateVnode g (SfsVnode.setInode fun i => { i with sfiLinkcount := i.sfiLinkcount + 1 }) = t2 at *
  obtain ⟨v2, hv2, hroot2, -⟩ := keeps2 _ _ hv
  have hsh2 : t2.Shows i name w.svIno := by
    unfold SfsFs.Shows slotIno
    rw [hdir.slot _ hi1, h.2.2.1.kept i hi hi2]
    exact hsh
  refine ((sfsDirUnlink_named K2 hv2 (hroot2.trans hroot) hw2 (hdir.slots_eq.symm ▸ hi1) hsh2).weaken
    fun _ h => h.elim).mono ?_
  rintro _ t3 ⟨rfl, step3, h3, hE3⟩
  have hw3 := step3.vnode?_ne hw2 hne
  obtain ⟨hlc, K4, hd4⟩ := h3.countDown hw3
  simp only [sat_bind, sat_vnode hw3, sat_check, hlc, ne_eq, not_false_eq_true, if_true, sat_setInode]
  refine ⟨⟨hne, .of_data K4 ((data2.trans (.of_fileStep step3)).trans (hd4.mono fun _ hj => hj.1)),
    (keeps2.trans step3.keeps).trans (keeps_setInode _ _ _),
    (counts2.trans step3.counts).trans (counts_setInode _ _ _)⟩, hnew, ?_⟩
  rw [hd4.entries K.core.root, hE3, hdir.entries, hE]
  rfl

end Unlink

theorem sfsRemove_spec (name : CString) : Sat NoPanic (sfsRemove sv name) s
    (fun r t => ((∃ L', Settled L L' s t) ∧ Counts none none s t) ∧
      NameSpec t.fileOf s.entries t.entries (.remove sv name) (r.map fun _ => .done)) := by
  unfold sfsRemove
  refine (sat_bind _).2 ((sfsLookonce_spec K hv hroot name).mono ?_)
  rintro (e | ⟨g, i⟩) t h
  · obtain ⟨rfl, hmiss⟩ := h
    exact ⟨⟨⟨L, .refl K⟩, .refl t⟩, rfl, fun _ => hmiss⟩
  · obtain ⟨h, same, hsh⟩ := h
    obtain ⟨w, hw, hwi⟩ := h.vnode
    obtain ⟨v', hv', hroot', -⟩ := h.keeps _ _ hv
    refine (dropAfter (fun r E => r = .ok () ∧ E = t.entries \ {(name, w.svIno)}) K h.settled h.counts hw
      (removeName h.settled.consistent hv' (hroot'.trans hroot) hw h.slot_lt (hwi ▸ hsh) _)).mono ?_
    rintro _ u ⟨hu, rfl, hE⟩
    rw [(same.dirSame K.core.root).entries] at hE
    exact ⟨hu, w.svIno, hwi ▸ h.names, hE⟩

/-- A rename stops the machine when the old name is one of the root directory, and in no other case
with one directory. -/
theorem sfsRename_spec (n1 : CString) (d2 : Nat) (n2 : CString) :
    Sat (fun p => p = .renameDirs ∧ sv ≠ d2 ∨ p = .renameNotFile ∧ s.Names n1 sfsRootLocation)
      (sfsRename sv n1 d2 n2) s (fun r t => (¬ s.Names n1 sfsRootLocation ∧
        (∃ L', Settled L L' s t) ∧ Counts none none s t) ∧
          NameSpec t.fileOf s.entries t.entries (.rename sv n1 d2 n2) (r.map fun _ => .done)) := by
  unfold sfsRename
  refine (sat_bind _).2 ((sat_check _ _).2 ?_)
  split
  swap
  · next hne => exact .inl ⟨rfl, hne⟩
  refine (sat_bind _).2 ((sat_vnode hv).2 ((sat_bind _).2 ((sat_check _ _).2 ?_)))
  rw [if_pos hroot]
  refine (sat_bind _).2 (((sfsLookonce_spec K hv hroot n1).weaken fun _ h => h.elim).mono ?_)
  rintro (e | ⟨g, i⟩) t h
  · obtain ⟨rfl, hmiss⟩ := h
    exact ⟨⟨hmiss _, ⟨L, .refl K⟩, .refl t⟩, rfl⟩
  · obtain ⟨h, same, hsh⟩ := h
    obtain ⟨w, hw, hwi⟩ := h.vnode
    obtain ⟨v', hv', hroot', -⟩ := h.keeps _ _ hv
    have hbody := renameBody_spec h.settled.consistent hv' (hroot'.trans hroot) hw h.slot_lt (hwi ▸ hsh) n2
    have hnames : s.Names n1 w.svIno := hwi ▸ h.names
    rw [(same.dirSame K.core.root).entries] at hbody
    by_cases hne : w.svIno = sfsRootLocation
    · simp only [sat_bind, sat_attempt]
      refine (hbody.weaken fun p hp => .inr ⟨hp.1, hp.2 ▸ hnames⟩).mono ?_
      exact fun _ _ h => absurd hne h.1.1
    · refine (dropAfter (fun r E => NameSpec t.fileOf s.entries E (.rename sv n1 d2 n2) (r.map fun _ => .done))
        K h.settled h.counts hw ((hbody.weaken fun p hp => absurd hp.2 hne).mono ?_)).mono ?_
      · rintro (e | a) u ⟨hu, hE⟩
        · exact ⟨hu.2, hE⟩
        · exact ⟨hu.2, w.svIno, hnames, hE⟩
      · rintro (e | a) u h <;> exact ⟨⟨fun hn => hne (K.names_unique hnames hn), h.1⟩, h.2⟩

end Directory

end Os161.Sfs
