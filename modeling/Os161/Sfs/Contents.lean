import Os161.Sfs.Run

/-!
# Files as byte lists

The purpose of the file system, stated without blocks: a volume is a set of files, each a list
of bytes. A write replaces a stretch of one list, a read returns a stretch of it, truncation
to nothing empties it, creating a file adds an empty list, and a list is dropped with the last
name or the last reference of its file. All other calls leave the lists alone. Every run within
the limits of the format refines this.
-/
namespace Os161.Sfs

open Lib Kern SfsFs

/-! ## The abstract file system -/

/-- The file with an inode number, if there is one. -/
abbrev Files := Nat → Option (List Byte)

/-- Replace the bytes from `o` on by `d`; a gap between the old end and `o` is filled with
zeros. -/
def overwrite (l : List Byte) (o : Nat) (d : List Byte) : List Byte :=
  (List.range (max l.length (o + d.length))).map fun i =>
    if o ≤ i ∧ i < o + d.length then d.getD (i - o) 0 else l.getD i 0

inductive FilesOp where
  | write (ino o : Nat) (d : List Byte)
  | read (ino o n : Nat) (d : List Byte)
  | clear (ino : Nat)
  | create (ino : Nat)
  | drop (ino : Nat)
  | idle

inductive FilesStep : Files → FilesOp → Files → Prop
  | write {F : Files} {ino : Nat} {l : List Byte} (o : Nat) (d : List Byte) :
      F ino = some l →
      FilesStep F (.write ino o d) (Function.update F ino (some (overwrite l o d)))
  | read {F : Files} {ino : Nat} {l : List Byte} (o n : Nat) :
      F ino = some l → FilesStep F (.read ino o n ((l.drop o).take n)) F
  | clear {F : Files} {ino : Nat} {l : List Byte} :
      F ino = some l → FilesStep F (.clear ino) (Function.update F ino (some []))
  | create {F : Files} {ino : Nat} :
      F ino = none → FilesStep F (.create ino) (Function.update F ino (some []))
  | drop {F : Files} {ino : Nat} {l : List Byte} :
      F ino = some l → FilesStep F (.drop ino) (Function.update F ino none)
  | idle {F : Files} : FilesStep F .idle F

/-! ## The files on a volume -/

/-- The contents of a file: byte `i` is in the block behind `i / 512`, or `0` if there is none. -/
def SfsFs.contents (s : SfsFs) (ino : Nat) : List Byte := s.fileBytes ino 0 (s.size ino)

open Classical in
noncomputable def SfsFs.files (s : SfsFs) : Files := fun ino =>
  if s.Live ino ∧ ino ≠ sfsRootLocation then some (s.contents ino) else none

/-- The file is in the directory under this name only, and no vnode is in memory for it. -/
def SfsFs.LastName (s : SfsFs) (name : CString) (ino : Nat) : Prop :=
  ino ≠ sfsRootLocation ∧ ¬ s.Loaded ino ∧ ∀ n, (n, ino) ∈ s.entries → n = name

/-- The file has no name, and this vnode has one reference. -/
def SfsFs.LastRef (s : SfsFs) (file ino : Nat) : Prop :=
  ino ≠ sfsRootLocation ∧ s.refs file = 1 ∧ ∀ n, (n, ino) ∉ s.entries

open Classical in
/-- What a call that takes the volume from `s` to `t` looks like from above. A removed file is kept
while it has another name or a vnode, and then goes with the last reference to it. -/
def Observed (s t : SfsFs) : SfsEvent → FilesOp → Prop
  | (.write file u, _), op => ∃ v, s.vnode? file = some v ∧
      op = .write v.svIno u.uioOffset (u.iov.take u.uioResid)
  | (.read file u, .ok (.uio (.ok ()) w)), op => ∃ v d, s.vnode? file = some v ∧
      op = .read v.svIno u.uioOffset u.uioResid d ∧ w.moved = u.moved ++ d ∧
      w.uioResid = u.uioResid - d.length
  | (.truncate file _, .ok _), op => ∃ v, s.vnode? file = some v ∧ op = .clear v.svIno
  | (.creat _ name _, .ok (.vnode g)), op => ∃ ino, t.fileOf g = some ino ∧
      op = if (name, ino) ∈ s.entries then .idle else .create ino
  | (.remove _ name, .ok _), op => ∃ ino, (name, ino) ∈ s.entries ∧
      op = if s.LastName name ino then .drop ino else .idle
  | (.decref file, _), op => ∃ v, s.vnode? file = some v ∧
      op = if s.LastRef file v.svIno then .drop v.svIno else .idle
  | _, op => op = .idle

/-- The calls within the limits of the format: writes that succeed and end in the largest file
there can be, reads that end in the range of an `off_t`, and truncation to nothing. -/
def SfsEvent.InRange : SfsEvent → Prop
  | (.write _ u, r) => 1 ≤ u.uioResid ∧
      u.uioOffset + u.uioResid ≤ (sfsNdirect + sfsDbperidb) * sfsBlocksize ∧
      ∃ w, r = .ok (.uio (.ok ()) w)
  | (.read _ u, _) => u.uioOffset + u.uioResid < 2 ^ 31
  | (.truncate _ len, _) => len = 0
  | _ => True

/-! ## Beyond the end of a file -/

/-- Past its end a file holds only zeros, so that growing it shows nothing old. -/
structure Zeroed (s : SfsFs) : Prop where
  size : ∀ j, s.Live j → j ≠ sfsRootLocation → s.size j ≤ sfsMaxblocks * sfsBlocksize
  zero : ∀ j, s.Live j → j ≠ sfsRootLocation → ∀ i, s.size j ≤ i → s.byte j i = 0

variable {s t : SfsFs} {sv : Nat} {v : SfsVnode}

theorem getD_contents (s : SfsFs) (ino i : Nat) :
    (s.contents ino).getD i 0 = if i < s.size ino then s.byte ino i else 0 := by
  unfold contents fileBytes
  by_cases hi : i < s.size ino <;> simp [hi]

theorem contents_congr {j : Nat} (hs : (t.inode j).sfiSize = (s.inode j).sfiSize)
    (hb : ∀ i, t.byte j i = s.byte j i) : t.contents j = s.contents j := by
  unfold contents
  rw [show t.size j = s.size j from congrArg BitVec.toNat hs]
  exact fileBytes_congr fun i _ _ => hb i

theorem contents_nil {j : Nat} (h : (s.inode j).sfiSize = 0) : s.contents j = [] := by
  unfold contents SfsFs.size fileBytes
  rw [h]
  rfl

/-- A read of `n` bytes at `o` that stops at the end of the file. -/
theorem fileBytes_min (s : SfsFs) (ino o n : Nat) :
    s.fileBytes ino o (min n (s.size ino - o)) = ((s.contents ino).drop o).take n := by
  refine List.ext_getElem ?_ fun i h1 h2 => ?_
  · simp [contents]
  · simp [contents, fileBytes]

theorem files_of_live {j : Nat} (hl : s.Live j) (hr : j ≠ sfsRootLocation) :
    s.files j = some (s.contents j) := if_pos ⟨hl, hr⟩

theorem files_eq_none {j : Nat} (h : ¬ (s.Live j ∧ j ≠ sfsRootLocation)) : s.files j = none := if_neg h

theorem live_eq {L : Nat → Prop} {d : Nat → Int} (K : Consistent L d s) : s.Live = L :=
  funext fun ino => propext (K.live_iff ino).symm

theorem FileStep.files {ino : Nat} (h : FileStep s.Live ino s t) (hlive : t.Live = s.Live)
    (hl : s.Live ino) (hr : ino ≠ sfsRootLocation) : t.files = Function.update s.files ino (some (t.contents ino)) := by
  funext j
  by_cases hj : j = ino
  · subst hj
    rw [Function.update_self, files_of_live (hlive ▸ hl) hr]
  · rw [Function.update_of_ne hj]
    by_cases hlj : s.Live j ∧ j ≠ sfsRootLocation
    · rw [files_of_live (hlive ▸ hlj.1) hlj.2, files_of_live hlj.1 hlj.2,
        contents_congr (by rw [h.inode j hlj.1 hj]) (h.byte j hlj.1 hj)]
    · rw [files_eq_none hlj, files_eq_none (by rwa [hlive])]

theorem Zeroed.fileStep (Z : Zeroed s) {ino : Nat} (h : FileStep s.Live ino s t)
    (hlive : t.Live = s.Live) (hs : t.size ino ≤ sfsMaxblocks * sfsBlocksize)
    (hz : ∀ i, t.size ino ≤ i → t.byte ino i = 0) : Zeroed t := by
  have same (j : Nat) (hl : s.Live j) (hj : j ≠ ino) : t.size j = s.size j := by
    unfold SfsFs.size
    rw [h.inode j hl hj]
  constructor
  · intro j hl hr
    rw [hlive] at hl
    by_cases hj : j = ino
    · exact hj ▸ hs
    · exact same j hl hj ▸ Z.size j hl hr
  · intro j hl hr i hi
    rw [hlive] at hl
    by_cases hj : j = ino
    · subst hj
      exact hz i hi
    · rw [h.byte j hl hj]
      exact Z.zero j hl hr i (same j hl hj ▸ hi)

/-! ## The files that come and go -/

section Managed

variable {L' : Nat → Prop} {c : SfsCall} {r : Except Errno SfsReply} {ino : Nat}

theorem Settled.files_kept (S : Settled s.Live L' s t) {j : Nat} (h : t.Live j ↔ s.Live j) :
    t.files j = s.files j := by
  obtain rfl := live_eq S.consistent
  by_cases hl : s.Live j ∧ j ≠ sfsRootLocation
  · have hd : s.Live j ∧ t.Live j ∧ j ≠ sfsRootLocation := ⟨hl.1, h.2 hl.1, hl.2⟩
    rw [files_of_live (h.2 hl.1) hl.2, files_of_live hl.1 hl.2,
      contents_congr (S.data.size j hd) (S.data.byte j hd)]
  · rw [files_eq_none hl, files_eq_none (by rwa [h])]

theorem Settled.idle (S : Settled s.Live L' s t) (h : ∀ j, t.Live j ↔ s.Live j) :
    FilesStep s.files .idle t.files := by
  have heq : t.files = s.files := funext fun j => S.files_kept (h j)
  rw [heq]
  exact .idle

theorem Settled.create (S : Settled s.Live L' s t) (hnew : ¬ s.Live ino)
    (h : ∀ j, t.Live j ↔ s.Live j ∨ j = ino) : FilesStep s.files (.create ino) t.files := by
  have hr : ino ≠ sfsRootLocation := fun he => hnew (he ▸ S.root)
  have hl : t.Live ino := (h ino).2 (.inr rfl)
  have heq : t.files = Function.update s.files ino (some []) := by
    funext j
    by_cases hj : j = ino
    · subst hj
      rw [Function.update_self, files_of_live hl hr,
        contents_nil (S.fresh j (live_eq S.consistent ▸ hl) hnew).1]
    · rw [Function.update_of_ne hj, S.files_kept ((h j).trans (or_iff_left hj))]
  rw [heq]
  exact .create (files_eq_none fun hs => hnew hs.1)

theorem Settled.drop_file (S : Settled s.Live L' s t) (hold : s.Live ino)
    (hr : ino ≠ sfsRootLocation) (h : ∀ j, t.Live j ↔ s.Live j ∧ j ≠ ino) :
    FilesStep s.files (.drop ino) t.files := by
  have heq : t.files = Function.update s.files ino none := by
    funext j
    by_cases hj : j = ino
    · subst hj
      rw [Function.update_self, files_eq_none fun hl => ((h j).1 hl.1).2 rfl]
    · rw [Function.update_of_ne hj, S.files_kept ((h j).trans (and_iff_left hj))]
  rw [heq]
  exact .drop (files_of_live hold hr)

/-- An inode is in use when it is the root, has a vnode, or has a name. -/
theorem Consistent.live_iff_entries {L : Nat → Prop} {d : Nat → Int} (K : Consistent L d s) :
    s.Live ino ↔ ino = sfsRootLocation ∨ s.Loaded ino ∨ ∃ n, (n, ino) ∈ s.entries := by
  refine or_congr_right (or_congr_right ?_)
  rw [links_pos_iff]
  constructor
  · rintro ⟨h0, i, hi, rfl⟩
    obtain ⟨n, hlen, hn⟩ := K.dir.proper i hi h0
    exact ⟨n, i, hi, rfl, h0, by rw [hn, SfsDir.name_named _ _ hlen]⟩
  · rintro ⟨n, i, hi, he, h0, -⟩
    exact ⟨h0, i, hi, he⟩

theorem Core.loaded_iff {L H : Nat → Prop} (C : Core L H s) :
    s.Loaded ino ↔ ∃ a, s.fileOf a = some ino := by
  constructor
  · rintro ⟨v, hv, rfl⟩
    exact ⟨v.svAddr, congrArg _ (C.table.vnode?_iff.2 ⟨hv, rfl⟩)⟩
  · rintro ⟨a, ha⟩
    obtain ⟨v, hv, rfl⟩ := Option.map_eq_some_iff.1 ha
    exact ⟨v, (C.table.vnode?_iff.1 hv).1, rfl⟩

theorem Core.fileOf_inj {L H : Nat → Prop} (C : Core L H s) {a b : Nat} (ha : s.fileOf a = some ino)
    (hb : s.fileOf b = some ino) : a = b := by
  obtain ⟨v, hv, hi⟩ := Option.map_eq_some_iff.1 ha
  obtain ⟨w, hw, hj⟩ := Option.map_eq_some_iff.1 hb
  obtain ⟨hmv, rfl⟩ := C.table.vnode?_iff.1 hv
  obtain ⟨hmw, rfl⟩ := C.table.vnode?_iff.1 hw
  exact congrArg _ (List.inj_on_of_nodup_map C.table.ino_nodup hmv hmw (hi.trans hj.symm))

theorem Core.fileOf_of_refs {L H : Nat → Prop} (C : Core L H s) {a : Nat} :
    0 < s.refs a ↔ ∃ ino, s.fileOf a = some ino := by
  rw [C.vnode?_of_refs]
  simp [SfsFs.fileOf, Option.map_eq_some_iff]

section

variable {L H L₁ H₁ : Nat → Prop} {g d : Option Nat} (C : Core L H s) (D : Core L₁ H₁ t)
  (h : Counts g d s t)
include C D h

theorem Counts.fileOf {a : Nat} (hs : 0 < s.refs a) (ht : 0 < t.refs a) :
    t.fileOf a = s.fileOf a := by
  obtain ⟨v, hv⟩ := C.vnode?_of_refs.1 hs
  obtain ⟨w, hw⟩ := D.vnode?_of_refs.1 ht
  obtain ⟨hmem, ha⟩ := C.table.vnode?_iff.1 hv
  obtain ⟨v', hv', hi⟩ := h.kept a (ha ▸ (C.vnode v hmem).addr_lt) w hw
  obtain rfl := Option.some.inj (hv.symm.trans hv')
  simp [SfsFs.fileOf, hv, hw, hi]

/-- The inodes in memory: those that were, the one whose vnode was handed out, and not the one
whose last reference was dropped. -/
theorem Counts.loaded (j : Nat) :
    t.Loaded j ↔ (s.Loaded j ∧ ∀ a, d = some a → s.fileOf a = some j → s.refs a ≠ 1) ∨
      ∃ a, g = some a ∧ t.fileOf a = some j := by
  rw [C.loaded_iff, D.loaded_iff]
  constructor
  · rintro ⟨a, ha⟩
    have ht := D.fileOf_of_refs.2 ⟨j, ha⟩
    have hrefs := h.refs a
    by_cases hg : g = some a
    · exact .inr ⟨a, hg, ha⟩
    · rw [if_neg hg] at hrefs
      have hs : s.fileOf a = some j := (h.fileOf C D (by omega) ht).symm.trans ha
      refine .inl ⟨⟨a, hs⟩, fun b hb hj => ?_⟩
      obtain rfl := C.fileOf_inj hs hj
      rw [if_pos hb] at hrefs
      omega
  · rintro (⟨⟨a, ha⟩, hd⟩ | ⟨a, -, ha⟩)
    · have hs := C.fileOf_of_refs.2 ⟨j, ha⟩
      have hrefs := h.refs a
      refine ⟨a, (h.fileOf C D hs ?_).trans ha⟩
      by_cases hda : d = some a
      · have := hd a hda ha
        rw [if_pos hda] at hrefs
        omega
      · rw [if_neg hda] at hrefs
        omega
    · exact ⟨a, ha⟩

end

section

variable (K : Consistent s.Live rootLink s) (M : Managed s.Live s c r t)
  (N : NameSpec t.fileOf s.entries t.entries c r)
include K M

/-- The inodes in use after a call, from the names and the counts it leaves. -/
theorem Managed.live_iff (j : Nat) : t.Live j ↔ j = sfsRootLocation ∨
    ((s.Loaded j ∧ ∀ a, c.drops = some a → s.fileOf a = some j → s.refs a ≠ 1) ∨
      ∃ a, c.gains r = some a ∧ t.fileOf a = some j) ∨ ∃ n, (n, j) ∈ t.entries := by
  obtain ⟨L', S⟩ := M.settled
  rw [S.consistent.live_iff_entries, M.counts.loaded K.core S.consistent.core]

/-- A call that drops no reference, hands out and names only what is in use, and takes no name but
of what keeps another or has a vnode. -/
theorem Managed.idle (hd : c.drops = none)
    (hg : ∀ a j, c.gains r = some a → t.fileOf a = some j → s.Live j)
    (hE : ∀ n j, (n, j) ∈ t.entries → s.Live j)
    (hE' : ∀ n j, (n, j) ∈ s.entries → j ≠ sfsRootLocation → ¬ s.Loaded j →
      ∃ m, (m, j) ∈ t.entries) : FilesStep s.files .idle t.files := by
  obtain ⟨L', S⟩ := M.settled
  refine S.idle fun j => ⟨fun h => ?_, fun h => ?_⟩
  · rcases (M.live_iff K j).1 h with rfl | (⟨hl, -⟩ | ⟨a, ha, hj⟩) | ⟨n, hn⟩
    · exact S.root
    · exact K.live_iff_entries.2 (.inr (.inl hl))
    · exact hg a j ha hj
    · exact hE n j hn
  · rw [M.live_iff K]
    by_cases hr : j = sfsRootLocation
    · exact .inl hr
    by_cases hl : s.Loaded j
    · exact .inr (.inl (.inl ⟨hl, by simp [hd]⟩))
    · obtain ⟨n, hn⟩ := ((K.live_iff_entries.1 h).resolve_left hr).resolve_left hl
      exact .inr (.inr (hE' n j hn hr hl))

/-- A call that keeps the names. -/
theorem Managed.idle_names (hd : c.drops = none)
    (hg : ∀ a j, c.gains r = some a → t.fileOf a = some j → s.Live j)
    (hE : t.entries = s.entries) : FilesStep s.files .idle t.files :=
  M.idle K hd hg (fun _ _ hn => K.live_of_mem (hE ▸ hn)) fun n _ hn _ _ => ⟨n, hE ▸ hn⟩

/-- A vnode that was in memory before the call is of a file that was there. -/
theorem Managed.live_of_vnode {file : Nat} (hv : s.vnode? file = some v)
    (hino : t.fileOf file = some ino) : s.Live ino := by
  obtain ⟨L', S⟩ := M.settled
  have hs := K.core.vnode?_of_refs.2 ⟨v, hv⟩
  have ht := S.consistent.core.fileOf_of_refs.2 ⟨ino, hino⟩
  have hf := M.counts.fileOf K.core S.consistent.core hs ht
  obtain rfl : v.svIno = ino := by
    simpa [SfsFs.fileOf, hv] using hf.symm.trans hino
  exact K.core.live_of_vnode? hv

/-- What a call that makes no file hands out was in use. -/
theorem Managed.gains_live (hm : ¬ c.Makes s) (hvn : ∀ a ∈ c.vnodes, ∃ v, s.vnode? a = some v)
    (a j : Nat) (ha : c.gains r = some a) (hj : t.fileOf a = some j) : s.Live j := by
  have handed {g : Nat} (hr : r = .ok (.vnode g)) (hg : g = a) : s.Live j := by
    obtain ⟨ino, hino, hl⟩ := M.handed g hr
    exact Option.some.inj ((hg ▸ hino).symm.trans hj) ▸ hl.2 hm
  unfold SfsCall.gains at ha
  split at ha
  · obtain rfl := Option.some.inj ha
    obtain ⟨v, hv⟩ := hvn _ (List.mem_singleton.2 rfl)
    exact M.live_of_vnode K hv hj
  · exact handed rfl (Option.some.inj ha)
  · exact handed rfl (Option.some.inj ha)
  · exact handed rfl (Option.some.inj ha)
  · cases ha

include N

theorem Managed.creat {dir g : Nat} {name : CString} {excl : Bool} (hc : c = .creat dir name excl)
    (hr : r = .ok (.vnode g)) : ∃ op, Observed s t (c, r) op ∧ FilesStep s.files op t.files := by
  subst hc hr
  obtain ⟨ino, hg, hE, huniq⟩ := N
  obtain ⟨ino', hg', hlive⟩ := M.handed g rfl
  obtain rfl := Option.some.inj (hg.symm.trans hg')
  refine ⟨_, ⟨ino, hg, rfl⟩, ?_⟩
  have hgain (a j : Nat) (ha : SfsCall.gains (.creat dir name excl) (.ok (.vnode g)) = some a)
      (hj : t.fileOf a = some j) : j = ino := by
    obtain rfl := Option.some.inj ha
    exact Option.some.inj (hj.symm.trans hg)
  by_cases hmem : (name, ino) ∈ s.entries
  · rw [if_pos hmem]
    have hl := K.live_of_mem hmem
    refine M.idle_names K rfl (fun a j ha hj => hgain a j ha hj ▸ hl) ?_
    rw [hE, Set.insert_eq_of_mem hmem]
  · rw [if_neg hmem]
    have hnew : ¬ s.Live ino := by
      rw [hlive, not_not]
      exact fun j hj => hmem ((huniq j hj).2 ▸ hj)
    obtain ⟨L', S⟩ := M.settled
    refine S.create hnew fun j => ?_
    rw [M.live_iff K, K.live_iff_entries, hE]
    constructor
    · rintro (h | (⟨hl, -⟩ | ⟨a, ha, hj⟩) | ⟨n, hn⟩)
      · exact .inl (.inl h)
      · exact .inl (.inr (.inl hl))
      · exact .inr (hgain a j ha hj)
      · rcases hn with he | hn
        · exact .inr (Prod.mk.inj he).2
        · exact .inl (.inr (.inr ⟨n, hn⟩))
    · rintro ((h | hl | ⟨n, hn⟩) | rfl)
      · exact .inl h
      · exact .inr (.inl (.inl ⟨hl, by simp [SfsCall.drops]⟩))
      · exact .inr (.inr ⟨n, .inr hn⟩)
      · exact .inr (.inr ⟨name, .inl rfl⟩)

theorem Managed.remove {dir : Nat} {name : CString} {x : SfsReply} (hc : c = .remove dir name)
    (hr : r = .ok x) : ∃ op, Observed s t (c, r) op ∧ FilesStep s.files op t.files := by
  subst hc hr
  obtain ⟨ino, hmem, hE⟩ := N
  refine ⟨_, ⟨ino, hmem, rfl⟩, ?_⟩
  by_cases hlast : s.LastName name ino
  · rw [if_pos hlast]
    obtain ⟨hroot, hload, honly⟩ := hlast
    obtain ⟨L', S⟩ := M.settled
    refine S.drop_file (K.live_of_mem hmem) hroot fun j => ?_
    rw [M.live_iff K, K.live_iff_entries, hE]
    constructor
    · rintro (rfl | (⟨hl, -⟩ | ⟨a, ha, -⟩) | ⟨n, hn, hne⟩)
      · exact ⟨.inl rfl, hroot.symm⟩
      · exact ⟨.inr (.inl hl), fun he => hload (he ▸ hl)⟩
      · cases ha
      · refine ⟨.inr (.inr ⟨n, hn⟩), fun he => hne ?_⟩
        subst he
        exact congrArg (·, j) (honly n hn)
    · rintro ⟨h | hl | ⟨n, hn⟩, hne⟩
      · exact .inl h
      · exact .inr (.inl (.inl ⟨hl, by simp [SfsCall.drops]⟩))
      · exact .inr (.inr ⟨n, hn, fun he => hne (Prod.mk.inj he).2⟩)
  · rw [if_neg hlast]
    refine M.idle K rfl (by rintro _ _ ⟨⟩)
      (fun n j hn => K.live_of_mem (hE ▸ hn).1) fun n j hn hroot hload => ?_
    by_cases hj : (n, j) = (name, ino)
    · obtain ⟨rfl, rfl⟩ := Prod.mk.inj hj
      obtain ⟨m, hm, hne⟩ : ∃ m, (m, j) ∈ s.entries ∧ m ≠ n := by
        by_contra hno
        exact hlast ⟨hroot, hload, fun m hm => by_contra fun hne => hno ⟨m, hm, hne⟩⟩
      exact ⟨m, hE ▸ ⟨hm, fun he => hne (Prod.mk.inj he).1⟩⟩
    · exact ⟨n, hE ▸ ⟨hn, hj⟩⟩

theorem Managed.decref {file : Nat} (hc : c = .decref file) (hv : s.vnode? file = some v) :
    ∃ op, Observed s t (c, r) op ∧ FilesStep s.files op t.files := by
  subst hc
  have hE : t.entries = s.entries := N
  refine ⟨_, ⟨v, hv, rfl⟩, ?_⟩
  have hfile : s.fileOf file = some v.svIno := congrArg _ hv
  -- the vnode goes with this reference if it is the last one
  have hafter (j : Nat) : t.Live j ↔ j = sfsRootLocation ∨
      (s.Loaded j ∧ ¬ (j = v.svIno ∧ s.refs file = 1)) ∨ ∃ n, (n, j) ∈ s.entries := by
    rw [M.live_iff K, hE]
    refine or_congr_right (or_congr_left ?_)
    rw [or_iff_left (by rintro ⟨a, ⟨⟩, -⟩)]
    refine and_congr_right fun _ => ?_
    constructor
    · rintro h ⟨rfl, h1⟩
      exact h file rfl hfile h1
    · rintro h _ ⟨⟩ hj h1
      exact h ⟨Option.some.inj (hj.symm.trans hfile), h1⟩
  obtain ⟨L', S⟩ := M.settled
  by_cases hlast : s.LastRef file v.svIno
  · rw [if_pos hlast]
    obtain ⟨hroot, h1, hnone⟩ := hlast
    refine S.drop_file (K.core.live_of_vnode? hv) hroot fun j => ?_
    rw [hafter, K.live_iff_entries]
    constructor
    · rintro (rfl | ⟨hl, hne⟩ | ⟨n, hn⟩)
      · exact ⟨.inl rfl, hroot.symm⟩
      · exact ⟨.inr (.inl hl), fun he => hne ⟨he, h1⟩⟩
      · exact ⟨.inr (.inr ⟨n, hn⟩), fun he => hnone n (he ▸ hn)⟩
    · rintro ⟨h | hl | hn, hne⟩
      · exact .inl h
      · exact .inr (.inl ⟨hl, fun he => hne he.1⟩)
      · exact .inr (.inr hn)
  · rw [if_neg hlast]
    refine S.idle fun j => ?_
    rw [hafter, K.live_iff_entries]
    constructor
    · rintro (h | ⟨hl, -⟩ | hn)
      · exact .inl h
      · exact .inr (.inl hl)
      · exact .inr (.inr hn)
    · rintro (h | hl | hn)
      · exact .inl h
      · by_cases hne : j = v.svIno ∧ s.refs file = 1
        · -- a file that keeps a name, or the root
          obtain ⟨rfl, h1⟩ := hne
          by_cases hroot : v.svIno = sfsRootLocation
          · exact .inl hroot
          · refine .inr (.inr (by_contra fun hno => hlast ⟨hroot, h1, fun n hn => hno ⟨n, hn⟩⟩))
        · exact .inr (.inl ⟨hl, hne⟩)
      · exact .inr (.inr hn)

end

end Managed

/-! ## The steps -/

section Step

variable (K : Consistent s.Live rootLink s) (Z : Zeroed s)
include K Z

omit K in
theorem Settled.zeroed {L' : Nat → Prop} (S : Settled s.Live L' s t) : Zeroed t := by
  obtain rfl := live_eq S.consistent
  have size (j : Nat) (hs : s.Live j) (hl : t.Live j) (hr : j ≠ sfsRootLocation) :
      t.size j = s.size j := congrArg BitVec.toNat (S.data.size j ⟨hs, hl, hr⟩)
  refine ⟨fun j hl hr => ?_, fun j hl hr i hi => ?_⟩
  · by_cases hs : s.Live j
    · exact size j hs hl hr ▸ Z.size j hs hr
    · unfold SfsFs.size
      rw [(S.fresh j hl hs).1]
      exact Nat.zero_le _
  · by_cases hs : s.Live j
    · rw [S.data.byte j ⟨hs, hl, hr⟩]
      exact Z.zero j hs hr i (size j hs hl hr ▸ hi)
    · exact (S.fresh j hl hs).2 i

/-- A write that stores all of its `n` bytes at the offset. -/
theorem Wrote.refines (hv : s.vnode? sv = some v) (hr : v.svIno ≠ sfsRootLocation) {u w : Uio}
    (hf : u.Fits) (hn : 1 ≤ u.uioResid) (h : Wrote s.Live (fun _ => False) v.svIno s u u.uioResid t w) :
    Zeroed t ∧ FilesStep s.files (.write v.svIno u.uioOffset (u.iov.take u.uioResid)) t.files := by
  have hl := K.core.live_of_vnode? hv
  have hlive : t.Live = s.Live := live_eq (K.fileStep h.core h.step hr)
  have hfit := h.fits_file (by omega)
  have hold := Z.size _ hl hr
  have hmax : sfsMaxblocks * sfsBlocksize < 2 ^ 32 := by decide
  have hsize : t.size v.svIno = max (s.size v.svIno) (u.uioOffset + u.uioResid) := by
    unfold SfsFs.size at hold ⊢
    rw [h.size, toInt_eq_of_le hold]
    split
    · rw [BitVec.toNat_ofNat, Nat.mod_eq_of_lt (by omega)]
      omega
    · omega
  have hlen : (u.iov.take u.uioResid).length = u.uioResid := by
    rw [List.length_take, Nat.min_eq_left hf.resid_le]
  have hcont : t.contents v.svIno = overwrite (s.contents v.svIno) u.uioOffset (u.iov.take u.uioResid) := by
    unfold overwrite contents fileBytes
    rw [hsize, hlen]
    simp only [List.length_map, List.length_range]
    refine List.map_congr_left fun i hi => ?_
    rw [Nat.zero_add, h.byte]
    have hget := getD_contents s v.svIno i
    unfold contents fileBytes at hget
    split
    · rw [List.getD_eq_getElem?_getD, List.getD_eq_getElem?_getD, List.getElem?_take_of_lt (by omega)]
    · rw [hget]
      split
      · rfl
      · exact Z.zero _ hl hr i (by omega)
  refine ⟨Z.fileStep h.step hlive (by rw [hsize]; omega) fun i hi => ?_, ?_⟩
  · rw [h.byte, if_neg (by omega)]
    exact Z.zero _ hl hr i (by omega)
  · rw [h.step.files hlive hl hr, hcont]
    exact .write _ _ (files_of_live hl hr)

theorem Truncated.refines (hv : s.vnode? sv = some v) (hr : v.svIno ≠ sfsRootLocation)
    (h : Truncated s.Live (fun _ => False) v.svIno 0 s t) : Zeroed t ∧ FilesStep s.files (.clear v.svIno) t.files := by
  have hl := K.core.live_of_vnode? hv
  have hlive : t.Live = s.Live := live_eq (K.fileStep h.core h.step hr)
  have hsize : t.size v.svIno = 0 := by
    unfold SfsFs.size
    rw [h.size]
    rfl
  refine ⟨Z.fileStep h.step hlive (by omega) fun i _ => ?_, ?_⟩
  · have hp : t.ptr (.data v.svIno (i / sfsBlocksize)) = 0 := h.none rfl _ rfl
    unfold SfsFs.byte SfsFs.block
    rw [if_pos hp, Block.get_zero]
  · rw [h.step.files hlive hl hr, contents_nil h.size]
    exact .clear (files_of_live hl hr)

/-- One call within the limits is one step on the byte lists. -/
theorem SfsStep.refines {e : SfsEvent} (h : SfsStep s e t) (hopen : s.Unopened) (hin : e.InRange) :
    Zeroed t ∧ ∃ op, Observed s t e op ∧ FilesStep s.files op t.files := by
  obtain ⟨c, r⟩ := e
  obtain ⟨hc, hrun⟩ := h
  obtain ⟨out, names⟩ := (SfsCall.run_names K (fun _ _ => hopen _) hc).of_ok hrun
  have idle (h : t = s) : Zeroed t ∧ ∃ op, op = .idle ∧ FilesStep s.files op t.files := by
    subst h
    exact ⟨Z, .idle, rfl, .idle⟩
  have zeroed (M : Managed s.Live s c r t) : Zeroed t := by
    obtain ⟨L', S⟩ := M.settled
    exact S.zeroed Z
  cases c with
  | getroot =>
    exact ⟨zeroed out, _, rfl, out.idle_names K rfl (out.gains_live K id hc.vnodes) names⟩
  | fsync file =>
    exact ⟨zeroed out, _, rfl, out.idle_names K rfl (out.gains_live K id hc.vnodes) names⟩
  | incref file =>
    exact ⟨zeroed out, _, rfl, out.idle_names K rfl (out.gains_live K id hc.vnodes) names⟩
  | lookup dir path =>
    refine ⟨zeroed out, _, rfl, out.idle_names K rfl (out.gains_live K id hc.vnodes) ?_⟩
    rcases r with e | _ | _ | _
    · exact names.1
    · exact names.1
    · exact names
    · exact names
  | creat dir name excl =>
    refine ⟨zeroed out, ?_⟩
    rcases r with e | g | _ | _
    · exact ⟨_, rfl, out.idle_names K rfl (by rintro _ _ ⟨⟩) names⟩
    · exact out.creat K names rfl rfl
    · exact ⟨_, rfl, out.idle_names K rfl (by rintro _ _ ⟨⟩) names⟩
    · exact ⟨_, rfl, out.idle_names K rfl (by rintro _ _ ⟨⟩) names⟩
  | link dir name file =>
    obtain ⟨v, hv⟩ := hc.vnodes file (by simp [SfsCall.vnodes])
    refine ⟨zeroed out, _, rfl, ?_⟩
    rcases r with e | x
    · exact out.idle_names K rfl (by rintro _ _ ⟨⟩) names
    · obtain ⟨ino, hino, hE, -⟩ := names
      refine out.idle K rfl (by rintro _ _ ⟨⟩) (fun n j hn => ?_)
        fun n j hn _ _ => ⟨n, hE ▸ .inr hn⟩
      rw [hE] at hn
      rcases hn with he | hn
      · exact (Prod.mk.inj he).2 ▸ out.live_of_vnode K hv hino
      · exact K.live_of_mem hn
  | remove dir name =>
    refine ⟨zeroed out, ?_⟩
    rcases r with e | x
    · exact ⟨_, rfl, out.idle_names K rfl (by rintro _ _ ⟨⟩) names.1⟩
    · exact out.remove K names rfl rfl
  | rename d1 n1 d2 n2 =>
    refine ⟨zeroed out, _, rfl, ?_⟩
    rcases r with e | x
    · exact out.idle_names K rfl (by rintro _ _ ⟨⟩) names
    · obtain ⟨ino, hmem, hfree, hE⟩ := names
      refine out.idle K rfl (by rintro _ _ ⟨⟩) (fun n j hn => ?_) fun n j hn _ _ => ?_
      · rw [hE] at hn
        rcases hn.1 with he | hn
        · exact (Prod.mk.inj he).2 ▸ K.live_of_mem hmem
        · exact K.live_of_mem hn
      · by_cases hj : (n, j) = (n1, ino)
        · -- the file of the old name has the new one
          obtain ⟨rfl, rfl⟩ := Prod.mk.inj hj
          exact ⟨n2, hE ▸ ⟨.inl rfl, fun he => hfree j ((Prod.mk.inj he).1 ▸ hmem)⟩⟩
        · exact ⟨n, hE ▸ ⟨.inr hn, hj⟩⟩
  | decref file =>
    obtain ⟨v, hv⟩ := hc.vnodes file (by simp [SfsCall.vnodes])
    exact ⟨zeroed out, out.decref K names rfl hv⟩
  | write file u =>
    obtain ⟨v, hv⟩ := hc.vnodes file (by simp [SfsCall.vnodes])
    obtain ⟨hn, -, w, rfl⟩ := hin
    have out := out v hv
    split at out
    · cases out.1
    · next hr =>
      obtain ⟨k, w', r', he, hw, hk⟩ := out
      cases he
      obtain rfl := hk rfl
      obtain ⟨Z', step⟩ := hw.refines K Z hv hr hc.uio.1 hn
      exact ⟨Z', _, ⟨v, hv, rfl⟩, step⟩
  | read file u =>
    obtain ⟨v, hv⟩ := hc.vnodes file (by simp [SfsCall.vnodes])
    obtain ⟨rfl, out⟩ := out
    have out := out v hv
    split at out
    · subst out
      exact idle rfl
    · next hr =>
      have hl := K.core.live_of_vnode? hv
      have hle := Z.size _ hl hr
      obtain ⟨k, hk, r', rfl, hok, -⟩ := out
      cases r' with
      | error e => exact idle rfl
      | ok a =>
        have hk' : k = min u.uioResid (t.size v.svIno - u.uioOffset) := by
          rw [hok rfl, toInt_eq_of_le hle]
          exact sfsReadable_eq hc.uio.2 hin
        refine ⟨Z, _, ⟨v, _, hv, rfl, rfl, ?_⟩, ?_⟩
        · show sub32 _ _ = _
          rw [length_fileBytes]
          exact sub32_of_le hk hc.uio.1.resid_lt
        · rw [hk', fileBytes_min]
          exact .read _ _ (files_of_live hl hr)
  | truncate file len =>
    obtain ⟨v, hv⟩ := hc.vnodes file (by simp [SfsCall.vnodes])
    obtain rfl : len = 0 := hin
    have out := out v hv
    split at out
    · obtain ⟨rfl, rfl⟩ := out
      exact idle rfl
    · next hr =>
      obtain ⟨rfl, h⟩ := out
      obtain ⟨Z', step⟩ := h.refines K Z hv hr
      exact ⟨Z', _, ⟨v, hv, rfl⟩, step⟩

end Step

/-- Without allocating, `sfs_bmap` returns the block behind a file block and changes nothing. -/
theorem sfsBmap_lookup {L H : Nat → Prop} (C : Core L H s) (hv : s.vnode? sv = some v) {k : Nat}
    (hk : k < sfsMaxblocks) : sfsBmap sv k false s = .ok (.ok (s.ptr (.data v.svIno k)), s) := by
  have h := sfsBmap_spec C hv k false
  cases hm : sfsBmap sv k false s with
  | error p => exact (h.of_error hm).elim
  | ok a =>
    obtain ⟨r, t⟩ := a
    have post := h.of_ok hm
    cases r with
    | error e =>
      rcases post.error e rfl with ⟨-, hle, -⟩ | ⟨-, hd, -⟩
      · omega
      · exact nomatch hd
    | ok b =>
      obtain ⟨-, rfl, -, ht⟩ := post.ok b rfl
      rw [ht rfl]

/-! ## Runs -/

theorem zeroed_of_run {s₀ : SfsFs} {tr : List SfsEvent} (h₀ : Mounted s₀)
    (h : Run SfsStep s₀ tr s) (hin : ∀ e ∈ tr, SfsEvent.InRange e) : Zeroed s := by
  induction h with
  | start =>
    have hlive := h₀.consistent.live_iff
    exact ⟨fun j hl hr => absurd ((hlive j).2 hl) hr, fun j hl hr => absurd ((hlive j).2 hl) hr⟩
  | step h hs ih =>
    have Z := ih fun e he => hin e (List.mem_cons_of_mem _ he)
    obtain ⟨K, hopen⟩ := consistent_of_run h₀ h
    exact (hs.refines K Z hopen (hin _ List.mem_cons_self)).1

/-- Runs within the limits of the format refine the byte lists. The lists are what `sfs_bmap`
and the disk say, every call is a step on them, and a read into kernel memory succeeds. -/
theorem contents_refine {s₀ s : SfsFs} {tr : List SfsEvent} (h₀ : Mounted s₀)
    (h : Run SfsStep s₀ tr s) (hin : ∀ e ∈ tr, SfsEvent.InRange e) :
    (∀ file v, s.vnode? file = some v → v.svIno ≠ sfsRootLocation →
      (s.contents v.svIno).length = (s.inode v.svIno).sfiSize.toNat ∧ ∀ i < (s.inode v.svIno).sfiSize.toNat,
        ∃ b, sfsBmap file (i / sfsBlocksize) false s = .ok (.ok b, s) ∧ (s.contents v.svIno).getD i 0 =
            if b = 0 then 0 else (s.sector b).get (i % sfsBlocksize)) ∧ (∀ e t, SfsStep s e t → SfsEvent.InRange e →
      ∃ op, Observed s t e op ∧ FilesStep s.files op t.files) ∧
    ∀ file u r t v, SfsStep s (.read file u, r) t → SfsEvent.InRange (.read file u, r) →
      s.vnode? file = some v → v.svIno ≠ sfsRootLocation → u.uioSegflg = .sysspace →
      ∃ w, r = .ok (.uio (.ok ()) w) := by
  obtain ⟨K, hopen⟩ := consistent_of_run h₀ h
  have Z := zeroed_of_run h₀ h hin
  refine ⟨fun file v hv hr => ⟨length_fileBytes _ _ _ _, fun i hi => ?_⟩,
    fun e t hs he => (hs.refines K Z hopen he).2, ?_⟩
  · have hle := Z.size _ (K.core.live_of_vnode? hv) hr
    have hk : i / sfsBlocksize < sfsMaxblocks := by
      refine Nat.div_lt_of_lt_mul ?_
      rw [Nat.mul_comm]
      exact Nat.lt_of_lt_of_le hi hle
    refine ⟨_, sfsBmap_lookup K.core hv hk, ?_⟩
    rw [getD_contents, if_pos (show i < s.size v.svIno from hi)]
    unfold SfsFs.byte SfsFs.block
    split <;> simp
  · rintro file u r t v ⟨hc, hrun⟩ hrange hv hr hseg
    have hle := Z.size _ (K.core.live_of_vnode? hv) hr
    have out := ((SfsCall.run_spec K (fun _ _ => hopen _) hc).of_ok hrun).2 v hv
    rw [if_neg hr] at out
    obtain ⟨k, hk, r', rfl, -, herr⟩ := out
    cases r' with
    | ok a => exact ⟨_, rfl⟩
    | error e =>
      obtain ⟨hmax, hlt, hshort⟩ := herr e rfl hseg
      rw [toInt_eq_of_le hle] at hlt hshort
      rw [sfsReadable_eq hc.uio.2 hrange] at hshort
      unfold SfsFs.size at hle
      omega

def transferred : Except Errno SfsReply → Bool
  | .ok (.uio (.ok ()) _) => true
  | _ => false

/-- The sample run writes two bytes and reads them back. -/
theorem contents_refine_sampleLinked : (∀ e ∈ sampleTrace, SfsEvent.InRange e) ∧
    (∀ file v, sampleLinked.vnode? file = some v → v.svIno ≠ sfsRootLocation →
      (sampleLinked.contents v.svIno).length = (sampleLinked.inode v.svIno).sfiSize.toNat ∧
      ∀ i < (sampleLinked.inode v.svIno).sfiSize.toNat,
        ∃ b, sfsBmap file (i / sfsBlocksize) false sampleLinked = .ok (.ok b, sampleLinked) ∧
          (sampleLinked.contents v.svIno).getD i 0 =
            if b = 0 then 0 else (sampleLinked.sector b).get (i % sfsBlocksize)) ∧
    (∀ e t, SfsStep sampleLinked e t → SfsEvent.InRange e →
      ∃ op, Observed sampleLinked t e op ∧ FilesStep sampleLinked.files op t.files) ∧
    ∀ file u r t v, SfsStep sampleLinked (.read file u, r) t →
      SfsEvent.InRange (.read file u, r) → sampleLinked.vnode? file = some v →
      v.svIno ≠ sfsRootLocation → u.uioSegflg = .sysspace → ∃ w, r = .ok (.uio (.ok ()) w) := by
  have hin : ∀ e ∈ sampleTrace, SfsEvent.InRange e := by
    simp only [sampleTrace, List.forall_mem_cons, List.not_mem_nil, false_implies, implies_true,
      and_true]
    refine ⟨trivial, show 0 + 3 < 2 ^ 31 by decide, ⟨by decide, by decide, ?_⟩, trivial, trivial⟩
    have hok : transferred (sampleWrite.reply sampleFile) = true := by decide +kernel
    unfold transferred at hok
    split at hok
    · next w hw => exact ⟨w, hw⟩
    · cases hok
  exact ⟨hin, contents_refine mounted_sampleVolume run_sampleLinked hin⟩

end Os161.Sfs
