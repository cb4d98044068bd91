import Os161.Sfs.Ops
import Os161.Sfs.Mount

/-!
# Runs of a mounted volume

The calls of the VFS layer, made one at a time, as a transition system: a call may be made
when the vnodes it names are in memory and its descriptor is in order. Starting from a volume
that `mksfs` made, every state reached is consistent.
-/
namespace Os161.Sfs

open Lib Kern SfsFs Prog

variable {L L' : Nat → Prop} {s t : SfsFs} {sv : Nat} {v : SfsVnode} {c : SfsCall}
  {r : Except Errno SfsReply}

def SfsCall.UioOk : SfsCall → Prop
  | .read _ u => u.Fits ∧ u.uioRw = .read
  | .write _ u => u.Fits ∧ u.uioRw = .write
  | _ => True

/-- What the callers of the file system promise. -/
structure SfsCall.Valid (s : SfsFs) (c : SfsCall) : Prop where
  vnodes : ∀ a ∈ c.vnodes, ∃ v, s.vnode? a = some v
  uio : c.UioOk

abbrev SfsEvent := SfsCall × Except Errno SfsReply

def SfsStep (s : SfsFs) (e : SfsEvent) (t : SfsFs) : Prop :=
  e.1.Valid s ∧ e.1.run s = .ok (e.2, t)

/-! ## The calls -/

/-- No vnode is open: the calls here are made without the VFS layer's `vfs_open`. -/
def SfsFs.Unopened (s : SfsFs) : Prop := ∀ a, s.opens a = 0

theorem unopened_of_vnodes (h : s.sfsVnodes = []) : s.Unopened := fun a => by
  simp [SfsFs.opens, SfsFs.vnode?, h]

section Reply

variable {K : SfsPanic → Prop} {Q : Except Errno SfsReply → SfsFs → Prop}

theorem sat_replyVnode {m : SfsM Nat} : Sat K m.replyVnode s Q ↔ Sat K m s (fun r t => Q (r.map .vnode) t) := by
  simp only [SfsM.replyVnode, sat_bind, sat_pure]
  constructor <;> intro h <;> refine h.mono ?_ <;> rintro (e | a) t h <;> exact h

theorem sat_replyDone {m : SfsM Unit} : Sat K m.replyDone s Q ↔ Sat K m s (fun r t => Q (r.map fun _ => .done) t) := by
  simp only [SfsM.replyDone, sat_bind, sat_pure]
  constructor <;> intro h <;> refine h.mono ?_ <;> rintro (e | a) t h <;> exact h

theorem sat_replyUio {m : SfsM (Except Errno Unit × Uio)} : Sat K m.replyUio s Q ↔
    Sat K m s (fun r t => Q (r.map fun p => .uio p.1 p.2) t) := by
  simp only [SfsM.replyUio, sat_bind, sat_pure]
  constructor <;> intro h <;> refine h.mono ?_ <;> rintro (e | a) t h <;> exact h

theorem sat_dispatch {α : Type} {f g : SfsM α} {Q : Except Errno α → SfsFs → Prop}
    (C : Core L (fun _ => False) s) (hv : s.vnode? sv = some v) (hfile : v.svIno ≠ sfsRootLocation → Sat K f s Q)
    (hdir : v.svIno = sfsRootLocation → Sat K g s Q) : Sat K (dispatch sv f g) s Q := by
  have hops := (C.vnode v (C.table.vnode?_iff.1 hv).1).ops
  simp only [dispatch, sat_bind, sat_vnode hv, hops]
  by_cases hr : v.svIno = sfsRootLocation
  · simp only [hr, if_true]
    exact hdir hr
  · simp only [hr, if_false]
    exact hfile hr

end Reply

/-- The vnode that a call leaves with one more reference. -/
def SfsCall.gains : SfsCall → Except Errno SfsReply → Option Nat
  | .incref file, _ => some file
  | .getroot, .ok (.vnode g) | .lookup _ _, .ok (.vnode g) | .creat _ _ _, .ok (.vnode g) => some g
  | _, _ => none

/-- The vnode that a call takes a reference from. -/
def SfsCall.drops : SfsCall → Option Nat
  | .decref file => some file
  | _ => none

/-- The call makes a file: it creates one under a name that is not taken. -/
def SfsCall.Makes (s : SfsFs) : SfsCall → Prop
  | .creat _ name _ => ∀ j, (name, j) ∉ s.entries
  | _ => False

/-- What a call does that neither reads nor writes a file. A vnode it returns is of a file that was
there before, unless the call made one. -/
structure Managed (L : Nat → Prop) (s : SfsFs) (c : SfsCall) (r : Except Errno SfsReply)
    (t : SfsFs) : Prop where
  settled : ∃ L', Settled L L' s t
  counts : Counts (c.gains r) c.drops s t
  handed : ∀ g, r = .ok (.vnode g) → ∃ ino, t.fileOf g = some ino ∧ (L ino ↔ ¬ c.Makes s)

theorem Managed.refused (K : Consistent L rootLink s) {e : Errno} (hg : c.gains (.error e) = none)
    (hd : c.drops = none) : Managed L s c (.error e) s :=
  ⟨⟨L, .refl K⟩, by rw [hg, hd]; exact .refl s, by simp⟩

/-- A call that returns no vnode. -/
theorem Managed.of_done {r : Except Errno Unit} (S : ∃ L', Settled L L' s t)
    (h : Counts (c.gains (r.map fun _ => .done)) c.drops s t) :
    Managed L s c (r.map fun _ => .done) t :=
  ⟨S, h, fun g hg => by cases r <;> cases hg⟩

/-- What a call does to a consistent volume. A read leaves it as it is; a write or a truncation
changes one file; of the other calls `Managed` tells what they may change. The root directory
can be neither read nor written. -/
def Outcome (L : Nat → Prop) (s : SfsFs) : SfsCall → Except Errno SfsReply → SfsFs → Prop
  | .read file u, r, t => t = s ∧ ∀ v, s.vnode? file = some v →
      if v.svIno = sfsRootLocation then r = .error .eisdir
      else ∃ k ≤ u.uioResid, ∃ r',
        r = .ok (.uio r' (u.advance (s.fileBytes v.svIno u.uioOffset k))) ∧
        (r' = .ok () → k = sfsReadable (s.inode v.svIno).sfiSize.toInt u) ∧
        ∀ e, r' = .error e → u.uioSegflg = .sysspace →
          sfsMaxblocks * sfsBlocksize ≤ u.uioOffset + k ∧
          u.uioOffset < (s.inode v.svIno).sfiSize.toInt ∧
          (sfsReadable (s.inode v.svIno).sfiSize.toInt u ≠ 0 →
            k < sfsReadable (s.inode v.svIno).sfiSize.toInt u)
  | .write file u, r, t => ∀ v, s.vnode? file = some v →
      if v.svIno = sfsRootLocation then r = .error .eisdir ∧ t = s
      else ∃ k w r', r = .ok (.uio r' w) ∧ Wrote L (fun _ => False) v.svIno s u k t w ∧
        (r' = .ok () → k = u.uioResid)
  | .truncate file len, r, t => ∀ v, s.vnode? file = some v →
      if v.svIno = sfsRootLocation then r = .error .eisdir ∧ t = s
      else r = .ok .done ∧ Truncated L (fun _ => False) v.svIno len s t
  | c, r, t => Managed L s c r t

def SfsCall.IsRename : SfsCall → Prop
  | .rename _ _ _ _ => True
  | _ => False

theorem fileOf_ne (hv : s.vnode? sv = some v) (hr : v.svIno ≠ sfsRootLocation) :
    s.fileOf sv ≠ some sfsRootLocation := by
  simpa [SfsFs.fileOf, hv] using hr

section

variable (K : Consistent L rootLink s)
include K

theorem Consistent.live_of_mem {name : CString} {ino : Nat} (h : (name, ino) ∈ s.entries) : L ino := by
  obtain ⟨i, hi, rfl, h0, -⟩ := h
  exact K.named i hi h0

theorem Consistent.entries_fileStep {ino : Nat} (h : FileStep L ino s t)
    (hr : ino ≠ sfsRootLocation) : t.entries = s.entries :=
  (h.sameFiles.dirSame ⟨K.core.root, hr.symm⟩).entries

theorem SfsCall.run_names (hopen : ∀ file, c = .decref file → s.opens file = 0) (hc : c.Valid s) :
    Sat (fun p => c.IsRename ∧ RenamePanic p) c.run s (fun r t => Outcome L s c r t ∧
      NameSpec t.fileOf s.entries t.entries c r) := by
  obtain ⟨hvn, hu⟩ := hc
  have none {σ α : Type} {m : Prog SfsPanic Errno σ α} {Q : Except Errno α → σ → Prop} {s : σ}
      {K : SfsPanic → Prop} (h : Sat NoPanic m s Q) : Sat K m s Q := h.weaken fun _ h => h.elim
  cases c with
  | getroot =>
    refine sat_replyVnode.2 (none ((sfsGetroot_spec K).mono ?_))
    rintro _ t ⟨g, rfl, h⟩
    refine ⟨⟨⟨L, .load K h⟩, h.counts, ?_⟩, (h.same.dirSame K.core.root).entries⟩
    rintro _ ⟨⟩
    obtain ⟨w, hw, hwi⟩ := h.vnode
    exact ⟨_, hwi ▸ congrArg _ hw, iff_of_true K.core.root id⟩
  | lookup dir path =>
    obtain ⟨v, hv⟩ := hvn dir (by simp [SfsCall.vnodes])
    refine sat_replyVnode.2 (sat_dispatch K.core hv (fun hr => ⟨.refused K rfl rfl, rfl,
      fun he => absurd he (fileOf_ne hv hr)⟩) fun hroot => ?_)
    refine none ((sfsLookup_spec K hv hroot path).mono ?_)
    rintro (e | g) t ⟨⟨S, hcounts⟩, hE⟩
    · exact ⟨⟨⟨L, S⟩, hcounts, by simp [Except.map]⟩, hE⟩
    · refine ⟨⟨⟨L, S⟩, hcounts, ?_⟩, hE⟩
      rintro _ ⟨⟩
      obtain ⟨-, ino, hg, hmem⟩ := hE
      exact ⟨ino, hg, iff_of_true (K.live_of_mem hmem) id⟩
  | creat dir name excl =>
    obtain ⟨v, hv⟩ := hvn dir (by simp [SfsCall.vnodes])
    refine sat_replyVnode.2 (sat_dispatch K.core hv
      (fun _ => ⟨.refused K rfl rfl, rfl⟩) fun hroot => ?_)
    refine none ((sfsCreat_spec K hv hroot name excl).mono ?_)
    rintro (e | g) t ⟨⟨S, hcounts⟩, hE, hnew⟩
    · exact ⟨⟨S, hcounts, by simp [Except.map]⟩, hE⟩
    · refine ⟨⟨S, hcounts, ?_⟩, hE⟩
      rintro _ ⟨⟩
      simpa [SfsCall.Makes] using hnew g rfl
  | link dir name file =>
    obtain ⟨v, hv⟩ := hvn dir (by simp [SfsCall.vnodes])
    obtain ⟨f, hf⟩ := hvn file (by simp [SfsCall.vnodes])
    refine sat_replyDone.2 (sat_dispatch K.core hv
      (fun _ => ⟨.refused K rfl rfl, rfl⟩) fun hroot => ?_)
    exact none ((sfsLink_spec K hv hroot name hf).mono
      fun r t h => ⟨.of_done ⟨L, h.1.1⟩ h.1.2, h.2⟩)
  | remove dir name =>
    obtain ⟨v, hv⟩ := hvn dir (by simp [SfsCall.vnodes])
    refine sat_replyDone.2 (sat_dispatch K.core hv (fun hr => ⟨.refused K rfl rfl, rfl,
      fun he => absurd he (fileOf_ne hv hr)⟩) fun hroot => ?_)
    exact none ((sfsRemove_spec K hv hroot name).mono
      fun r t h => ⟨.of_done h.1.1 h.1.2, h.2⟩)
  | rename d1 n1 d2 n2 =>
    obtain ⟨v, hv⟩ := hvn d1 (by simp [SfsCall.vnodes])
    refine sat_replyDone.2 (sat_dispatch K.core hv
      (fun _ => ⟨.refused K rfl rfl, rfl⟩) fun hroot => ?_)
    refine ((sfsRename_spec K hv hroot n1 d2 n2).weaken ?_).mono
      fun r t h => ⟨.of_done h.1.2.1 h.1.2.2, h.2⟩
    rintro p (⟨rfl, -⟩ | ⟨rfl, -⟩)
    · exact ⟨trivial, .inl rfl⟩
    · exact ⟨trivial, .inr (.inl rfl)⟩
  | read file u =>
    obtain ⟨v, hv⟩ := hvn file (by simp [SfsCall.vnodes])
    refine sat_replyUio.2 (sat_dispatch K.core hv (fun hr => ?_) fun hr => ?_)
    · simp only [sfsRead, sat_bind, sat_check, hu.2, if_true, sat_withUio]
      refine none ((sfsIo_read_spec K.core hv hu.1 hu.2).mono ?_)
      rintro r ⟨t, w⟩ ⟨ht, k, hk, hw, hok, herr⟩
      refine ⟨⟨ht, fun v' hv' => ?_⟩, congrArg SfsFs.entries ht⟩
      obtain rfl := Option.some.inj (hv.symm.trans hv')
      rw [if_neg hr]
      exact ⟨k, hk, r, congrArg (fun w => Except.ok (SfsReply.uio r w)) hw, hok, herr⟩
    · refine ⟨⟨rfl, fun v' hv' => ?_⟩, rfl⟩
      rw [if_pos (Option.some.inj (hv.symm.trans hv') ▸ hr)]
      rfl
  | write file u =>
    obtain ⟨v, hv⟩ := hvn file (by simp [SfsCall.vnodes])
    refine sat_replyUio.2 (sat_dispatch K.core hv (fun hr => ?_) fun hr => ⟨fun v' hv' => ?_, rfl⟩)
    · simp only [sfsWrite, sat_bind, sat_check, hu.2, if_true, sat_withUio]
      refine none ((sfsIo_write_spec K.core hv hu.1 hu.2).mono ?_)
      rintro r ⟨t, w⟩ ⟨k, hw, hok, -⟩
      refine ⟨fun v' hv' => ?_, K.entries_fileStep hw.step hr⟩
      obtain rfl := Option.some.inj (hv.symm.trans hv')
      rw [if_neg hr]
      exact ⟨k, w, r, rfl, hw, hok⟩
    · rw [if_pos (Option.some.inj (hv.symm.trans hv') ▸ hr)]
      exact ⟨rfl, rfl⟩
  | truncate file len =>
    obtain ⟨v, hv⟩ := hvn file (by simp [SfsCall.vnodes])
    refine sat_replyDone.2 (sat_dispatch (f := sfsTruncate file len) (g := Prog.raise .eisdir)
      K.core hv (fun hr => ?_) fun hr => ⟨fun v' hv' => ?_, rfl⟩)
    · refine none ((sfsTruncate_spec len K.core hv).mono ?_)
      rintro _ t ⟨rfl, h⟩
      refine ⟨fun v' hv' => ?_, K.entries_fileStep h.step hr⟩
      obtain rfl := Option.some.inj (hv.symm.trans hv')
      rw [if_neg hr]
      exact ⟨rfl, h⟩
    · rw [if_pos (Option.some.inj (hv.symm.trans hv') ▸ hr)]
      exact ⟨rfl, rfl⟩
  | fsync file =>
    obtain ⟨v, hv⟩ := hvn file (by simp [SfsCall.vnodes])
    refine sat_replyDone.2 (none ((sfsSyncInode_spec K.core hv).mono ?_))
    rintro _ t ⟨rfl, C, step, same, -, -⟩
    exact ⟨.of_done (r := .ok ()) ⟨L, .of_data (K.same C same fun j => (step.loaded j).2)
      ((SameData.of_sameFiles same).mono fun _ h => h.1)⟩ step.counts,
      (same.dirSame K.core.root).entries⟩
  | incref file =>
    obtain ⟨v, hv⟩ := hvn file (by simp [SfsCall.vnodes])
    refine sat_replyDone.2 ((sat_modifyVnode _ _).2 ?_)
    obtain ⟨C, same, -, loaded⟩ := updateCount K.core file (· + 1) id fun _ _ _ => Nat.succ_pos _
    exact ⟨.of_done (r := .ok ()) ⟨L, .of_data (K.same C same fun j => (loaded j).2)
      ((SameData.of_sameFiles same).mono fun _ h => h.1)⟩ (K.core.counts_incref hv),
      (same.dirSame K.core.root).entries⟩
  | decref file =>
    obtain ⟨v, hv⟩ := hvn file (by simp [SfsCall.vnodes])
    have ho : v.vnOpencount = 0 := (opens_of_vnode? hv).symm.trans (hopen file rfl)
    refine sat_replyDone.2 (none ((vnodeDecref_spec K.core hv (fun _ => ho)
      fun h0 => (K.unlinked hv h0).1).mono ?_))
    rintro _ t ⟨rfl, h⟩
    have ha : v.svAddr = file := (K.core.table.vnode?_iff.1 hv).2
    exact ⟨.of_done (r := .ok ()) ⟨_, .drop K hv h⟩ (ha ▸ h.counts),
      (h.same.dirSame h.core.root).entries⟩

theorem SfsCall.run_spec (hopen : ∀ file, c = .decref file → s.opens file = 0) (hc : c.Valid s) :
    Sat (fun p => c.IsRename ∧ RenamePanic p) c.run s (Outcome L s c) :=
  (SfsCall.run_names K hopen hc).mono fun _ _ h => h.1

theorem Outcome.consistent (hc : c.Valid s)
    (h : Outcome L s c r t) : (∃ L', Consistent L' rootLink t) ∧ ∀ a, t.opens a = s.opens a := by
  have managed (h : Managed L s c r t) :
      (∃ L', Consistent L' rootLink t) ∧ ∀ a, t.opens a = s.opens a :=
    ⟨h.settled.imp fun _ S => S.consistent, h.counts.opens⟩
  cases c with
  | read file u => exact ⟨⟨L, h.1 ▸ K⟩, fun _ => by rw [h.1]⟩
  | write file u =>
    obtain ⟨v, hv⟩ := hc.vnodes file (by simp [SfsCall.vnodes])
    have h := h v hv
    split at h
    · exact ⟨⟨L, h.2 ▸ K⟩, fun _ => by rw [h.2]⟩
    · next hr =>
      obtain ⟨k, w, r', -, hw, -⟩ := h
      exact ⟨⟨L, K.fileStep hw.core hw.step hr⟩, hw.step.counts.opens⟩
  | truncate file len =>
    obtain ⟨v, hv⟩ := hc.vnodes file (by simp [SfsCall.vnodes])
    have h := h v hv
    split at h
    · exact ⟨⟨L, h.2 ▸ K⟩, fun _ => by rw [h.2]⟩
    · next hr => exact ⟨⟨L, K.fileStep h.2.core h.2.step hr⟩, h.2.step.counts.opens⟩
  | _ => exact managed h

end

theorem consistent_of_run {s₀ : SfsFs} {tr : List SfsEvent} (h₀ : Mounted s₀)
    (h : Run SfsStep s₀ tr s) : Consistent s.Live rootLink s ∧ s.Unopened := by
  obtain ⟨⟨L, K⟩, hopen⟩ := h.invariant (I := fun s => (∃ L, Consistent L rootLink s) ∧ s.Unopened)
      ⟨⟨_, h₀.consistent⟩, unopened_of_vnodes h₀.vnodes⟩ <| by
    rintro t ⟨c, r⟩ u ⟨⟨L, K⟩, hopen⟩ ⟨hc, hrun⟩
    obtain ⟨K', ho⟩ := ((SfsCall.run_spec K (fun _ _ => hopen _) hc).of_ok hrun).consistent K hc
    exact ⟨K', fun a => (ho a).trans (hopen a)⟩
  exact ⟨(funext fun ino => propext (K.live_iff ino)) ▸ K, hopen⟩

/-! ## A small run -/

def SfsCall.reply (c : SfsCall) (s : SfsFs) : Except Errno SfsReply :=
  match c.run s with
  | .ok (r, _) => r
  | .error _ => .ok .done

def SfsCall.after (c : SfsCall) (s : SfsFs) : SfsFs :=
  match c.run s with
  | .ok (_, t) => t
  | .error _ => s

theorem SfsCall.step_after (hc : c.Valid s) (h : (c.run s).isOk = true) : SfsStep s (c, c.reply s) (c.after s) := by
  refine ⟨hc, ?_⟩
  unfold SfsCall.reply SfsCall.after
  cases hr : c.run s with
  | error p => rw [hr] at h; exact nomatch h
  | ok a => rfl

theorem SfsCall.Valid.of_all (h : (c.vnodes.all fun a => (s.vnode? a).isSome) = true)
    (hu : c.UioOk) : c.Valid s :=
  ⟨fun a ha => Option.isSome_iff_exists.1 (List.all_eq_true.1 h a ha), hu⟩

/-- Get the root directory of the sample volume, and create a file in it. -/
def sampleRoot : SfsFs := SfsCall.getroot.after sampleVolume
def sampleCreat : SfsCall := .creat 5 sampleName true
def sampleFile : SfsFs := sampleCreat.after sampleRoot

/-- Write two bytes to the file, read them back, and give the file a second name. -/
def sampleWrite : SfsCall := .write 8 (mkKuio [97, 98] 0 .write)
def sampleTwo : SfsFs := sampleWrite.after sampleFile
def sampleRead : SfsCall := .read 8 (mkKuio [0, 0, 0] 0 .read)
def sampleSeen : SfsFs := sampleRead.after sampleTwo
def secondName : CString := ⟨[98], by decide⟩
def sampleSecond : SfsCall := .link 5 secondName 8
def sampleLinked : SfsFs := sampleSecond.after sampleSeen

def sampleTrace : List SfsEvent :=
  [(sampleSecond, sampleSecond.reply sampleSeen), (sampleRead, sampleRead.reply sampleTwo),
    (sampleWrite, sampleWrite.reply sampleFile), (sampleCreat, sampleCreat.reply sampleRoot),
    (.getroot, SfsCall.getroot.reply sampleVolume)]

theorem run_sampleRoot :
    Run SfsStep sampleVolume [(.getroot, SfsCall.getroot.reply sampleVolume)] sampleRoot :=
  .step .start (SfsCall.step_after (.of_all rfl trivial) (by decide +kernel))

theorem step_sampleCreat :
    SfsStep sampleRoot (sampleCreat, sampleCreat.reply sampleRoot) sampleFile :=
  SfsCall.step_after (.of_all (by decide +kernel) trivial) (by decide +kernel)

theorem run_sampleFile : Run SfsStep sampleVolume
    [(sampleCreat, sampleCreat.reply sampleRoot), (.getroot, SfsCall.getroot.reply sampleVolume)]
    sampleFile :=
  run_sampleRoot.step step_sampleCreat

theorem run_sampleLinked : Run SfsStep sampleVolume sampleTrace sampleLinked := by
  have hwrite := SfsCall.step_after (c := sampleWrite) (s := sampleFile)
    (.of_all (by decide +kernel) ⟨mkKuio_fits (by decide) (by decide) _, rfl⟩) (by decide +kernel)
  have hread := SfsCall.step_after (c := sampleRead) (s := sampleTwo)
    (.of_all (by decide +kernel) ⟨mkKuio_fits (by decide) (by decide) _, rfl⟩) (by decide +kernel)
  have hlink := SfsCall.step_after (c := sampleSecond) (s := sampleSeen)
    (.of_all (by decide +kernel) trivial) (by decide +kernel)
  exact ((run_sampleFile.step hwrite).step hread).step hlink

/-! ## What holds in every state of a run -/

/-- The places that refer to a block: the superblock, the free map, the inodes in use, and the
block pointers of their files. -/
def SfsFs.Refers (s : SfsFs) : Place → Nat → Prop :=
  Sfs.Refers s.Live (fun _ => False) s.nblocks s.ptr

/-- Blocks are owned exclusively: what is referred to is on the volume, marked in use and
referred to from one place only, and what is marked in use is referred to. So no call stops in
an assertion or a panic about the free map; only `sfs_rename` has panics of its own. -/
theorem block_ownership {s₀ s : SfsFs} {tr : List SfsEvent} (h₀ : Mounted s₀) (h : Run SfsStep s₀ tr s) :
    (∀ p b, s.Refers p b → b < s.nblocks ∧ s.used b ∧ ∀ q, s.Refers q b → q = p) ∧
    (∀ b < s.nblocks, s.used b → ∃ p, s.Refers p b) ∧
    ∀ c : SfsCall, c.Valid s → ∀ p, c.run s = .error p → RenamePanic p := by
  obtain ⟨K, hopen⟩ := consistent_of_run h₀ h
  have own := K.core.owned
  refine ⟨fun p b hp => ?_, fun b hb hu => own.complete ⟨hb, hu⟩, fun c hc p hp => ?_⟩
  · have hu := own.sound hp
    exact ⟨hu.1, hu.2, fun q hq => own.unique hq hp⟩
  · exact ((SfsCall.run_spec K (fun _ _ => hopen _) hc).of_error hp).2

theorem block_ownership_sampleLinked : (∀ p b, sampleLinked.Refers p b →
      b < sampleLinked.nblocks ∧ sampleLinked.used b ∧ ∀ q, sampleLinked.Refers q b → q = p) ∧
    (∀ b < sampleLinked.nblocks, sampleLinked.used b → ∃ p, sampleLinked.Refers p b) ∧
    ∀ c : SfsCall, c.Valid sampleLinked → ∀ p, c.run sampleLinked = .error p → RenamePanic p :=
  block_ownership mounted_sampleVolume run_sampleLinked

/-- The directory holds whole entries with distinct, properly terminated names, link counts
are the numbers of names and far from wrapping, and no inode is in memory twice. So the panics
and assertions about names and link counts are never met. -/
theorem directory_consistency {s₀ s : SfsFs} {tr : List SfsEvent} (h₀ : Mounted s₀) (h : Run SfsStep s₀ tr s) :
    s.size sfsRootLocation % sizeofSfsDir = 0 ∧ (∀ i < s.slots, s.slotIno i ≠ 0 → (s.slot i).Proper) ∧
    (∀ i < s.slots, ∀ j < s.slots, s.slotIno i ≠ 0 → s.slotIno j ≠ 0 → (s.slot i).name = (s.slot j).name → i = j) ∧
    (∀ ino, s.Live ino → ino ≠ sfsRootLocation → (s.inode ino).sfiLinkcount.toNat = s.links ino ∧ s.links ino ≤ 1144) ∧
    (s.sfsVnodes.map (·.svIno)).Nodup ∧ ∀ c : SfsCall, c.Valid s → ∀ p, c.run s = .error p → RenamePanic p := by
  obtain ⟨K, hopen⟩ := consistent_of_run h₀ h
  refine ⟨K.dir.whole, K.dir.proper, K.dir.distinct, fun ino hl hr => ⟨?_, K.links_le ino⟩,
    K.core.table.ino_nodup, fun c hc p hp => ((SfsCall.run_spec K (fun _ _ => hopen _) hc).of_error hp).2⟩
  have hn := K.links ino hl
  rw [rootLink, if_neg hr] at hn
  omega

theorem directory_consistency_sampleLinked : sampleLinked.size sfsRootLocation % sizeofSfsDir = 0 ∧
    (∀ i < sampleLinked.slots, sampleLinked.slotIno i ≠ 0 → (sampleLinked.slot i).Proper) ∧
    (∀ i < sampleLinked.slots, ∀ j < sampleLinked.slots, sampleLinked.slotIno i ≠ 0 →
      sampleLinked.slotIno j ≠ 0 → (sampleLinked.slot i).name = (sampleLinked.slot j).name → i = j) ∧
    (∀ ino, sampleLinked.Live ino → ino ≠ sfsRootLocation →
      (sampleLinked.inode ino).sfiLinkcount.toNat = sampleLinked.links ino ∧ sampleLinked.links ino ≤ 1144) ∧
    (sampleLinked.sfsVnodes.map (·.svIno)).Nodup ∧
    ∀ c : SfsCall, c.Valid sampleLinked → ∀ p, c.run sampleLinked = .error p → RenamePanic p :=
  directory_consistency mounted_sampleVolume run_sampleLinked

end Os161.Sfs
