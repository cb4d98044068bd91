import Os161.Sfs.Run
import Os161.Vfs.Path

/-!
# What stops the machine

Every reference to a vnode is accounted for: the calls in progress hold some, and there is one for
each open file, one for the current directory and one for the boot file system. So a vnode that is
in use stays in memory, the last reference to an open file is never dropped, and the two directories
of a rename are one vnode. Of all assertions and panics one is left: a rename whose old name is a
name of the root directory, which `vfs_link` can give it.
-/
namespace Os161.Vfs

open Lib Kern Sfs SfsFs Prog

variable {L : Nat → Prop} {x y z : VfsState} {s t : SfsFs} {temp files : List Nat} {a b : Nat}

/-! ## References -/

def IsRoot (s : SfsFs) (a : Nat) : Prop := ∃ v, s.vnode? a = some v ∧ v.svIno = sfsRootLocation

/-- The calls in progress hold `temp`. -/
structure Ready (temp files : List Nat) (x : VfsState) : Prop where
  consistent : ∃ L, Consistent L rootLink x.fs
  refs : ∀ a, x.fs.refs a =
    temp.count a + files.count a + x.tCwd.toList.count a + x.bootfsVnode.toList.count a
  opens : ∀ a, x.fs.opens a = files.count a
  cwd : ∀ a, x.tCwd = some a → IsRoot x.fs a
  bootfs : ∀ a, x.bootfsVnode = some a → IsRoot x.fs a

theorem IsRoot.kept (h : IsRoot s a) (K : Consistent L rootLink s) {L' : Nat → Prop}
    (K' : Consistent L' rootLink t) (ha : Addrs s t) (hr : 0 < t.refs a) : IsRoot t a := by
  obtain ⟨v, hv, hroot⟩ := h
  obtain ⟨w, hw⟩ := K'.core.vnode?_of_refs.1 hr
  have hlt : a < s.nextAddr := by
    obtain ⟨hmem, rfl⟩ := K.core.table.vnode?_iff.1 hv
    exact (K.core.vnode v hmem).addr_lt
  obtain ⟨v', hv', hi⟩ := ha.kept a hlt w hw
  obtain rfl := Option.some.inj (hv.symm.trans hv')
  exact ⟨w, hw, hi.trans hroot⟩

theorem IsRoot.unique (K : Consistent L rootLink s) (ha : IsRoot s a) (hb : IsRoot s b) : a = b := by
  obtain ⟨v, hv, hvr⟩ := ha
  obtain ⟨w, hw, hwr⟩ := hb
  obtain ⟨hvm, rfl⟩ := K.core.table.vnode?_iff.1 hv
  obtain ⟨hwm, rfl⟩ := K.core.table.vnode?_iff.1 hw
  rw [List.inj_on_of_nodup_map K.core.table.ino_nodup hvm hwm (hvr.trans hwr.symm)]

/-- The names stay as they are, and so does where paths start. -/
structure Looks (x y : VfsState) : Prop where
  rest : y = { x with fs := y.fs }
  super : y.fs.sfsSuper = x.fs.sfsSuper
  dir : DirSame x.fs y.fs
  addrs : Addrs x.fs y.fs

theorem Looks.refl (x : VfsState) : Looks x x := ⟨rfl, rfl, .refl _, .refl _⟩

theorem Looks.trans (h : Looks x y) (h' : Looks y z) : Looks x z := by
  refine ⟨?_, h'.super.trans h.super, h.dir.trans h'.dir, h.addrs.trans h'.addrs⟩
  rw [h'.rest, h.rest]

variable {temp' : List Nat}

namespace Ready

theorem vnode (R : Ready temp files x) (h : a ∈ temp ∨ a ∈ files) : ∃ v, x.fs.vnode? a = some v := by
  obtain ⟨L, K⟩ := R.consistent
  refine K.core.vnode?_of_refs.1 ?_
  rw [R.refs]
  rcases h with h | h
  · have := List.count_pos_iff.2 h
    omega
  · have := List.count_pos_iff.2 h
    omega

/-- A step of the file system with its references accounted for. -/
theorem step (R : Ready temp files x) {files' : List Nat} (K' : ∃ L, Consistent L rootLink t) (ha : Addrs x.fs t)
    (hr : ∀ a, t.refs a + temp.count a + files.count a = x.fs.refs a + temp'.count a + files'.count a)
    (ho : ∀ a, t.opens a = files'.count a) : Ready temp' files' { x with fs := t } := by
  obtain ⟨L, K⟩ := R.consistent
  obtain ⟨L', K'⟩ := K'
  have refs (a : Nat) : t.refs a =
      temp'.count a + files'.count a + x.tCwd.toList.count a + x.bootfsVnode.toList.count a := by
    have h1 := R.refs a
    have h2 := hr a
    omega
  refine ⟨⟨L', K'⟩, refs, ho, fun a hc => ?_, fun a hb => ?_⟩
  · have h1 : x.tCwd.toList.count a = 1 := by rw [show x.tCwd = some a from hc]; simp
    have hpos : 0 < t.refs a := by
      rw [refs]
      omega
    exact (R.cwd a hc).kept K K' ha hpos
  · have h1 : x.bootfsVnode.toList.count a = 1 := by rw [show x.bootfsVnode = some a from hb]; simp
    have hpos : 0 < t.refs a := by
      rw [refs]
      omega
    exact (R.bootfs a hb).kept K K' ha hpos

theorem counts (R : Ready temp files x) (K' : ∃ L, Consistent L rootLink t) {g : Option Nat}
    (h : Counts g none x.fs t) : Ready (g.toList ++ temp) files { x with fs := t } := by
  refine R.step K' h.toAddrs (fun a => ?_) fun a => (h.opens a).trans (R.opens a)
  have := h.refs a
  cases g with
  | none => simpa using this
  | some b =>
    simp only [Option.toList_some, List.singleton_append, List.count_cons, beq_iff_eq] at *
    grind

end Ready

theorem Ready.perm (R : Ready temp files x) (h : temp.Perm temp') : Ready temp' files x :=
  ⟨R.consistent, fun a => by rw [R.refs, h.count_eq], R.opens, R.cwd, R.bootfs⟩

/-- The root directory's vnode stays what it is as long as someone has a reference to it. -/
theorem Looks.isRoot (look : Looks x y) (R : Ready temp files x)
    (R' : Ready temp' files y) (h : IsRoot x.fs a) (ha : a ∈ temp') : IsRoot y.fs a := by
  obtain ⟨L, K⟩ := R.consistent
  obtain ⟨L', K'⟩ := R'.consistent
  exact h.kept K K' look.addrs (K'.core.vnode?_of_refs.2 (R'.vnode (.inl ha)))

variable {α : Type} {K : SfsPanic → Prop}

theorem sat_onSfs {m : SfsM α} {Q : Except Errno α → VfsState → Prop} :
    Sat K (onSfs m) x Q ↔ Sat K m x.fs (fun r t => Q r { x with fs := t }) :=
  sat_focus ..

/-! ## Taking and dropping references -/

section References

variable (R : Ready temp files x)
include R

theorem getroot_ready : Sat NoPanic (onSfs sfsGetroot) x (fun r y =>
    ∃ g, r = .ok g ∧ Ready (g :: temp) files y ∧ IsRoot y.fs g ∧ Looks x y) := by
  obtain ⟨L, K⟩ := R.consistent
  refine sat_onSfs.2 ((sfsGetroot_spec K).mono ?_)
  rintro _ t ⟨g, rfl, h⟩
  refine ⟨g, rfl, R.counts ⟨L, (Settled.load K h).consistent⟩ h.counts, h.vnode, rfl, h.same.super, ?_, h.counts.toAddrs⟩
  exact h.same.dirSame K.core.root

theorem incref_ready (ha : 0 < x.fs.refs a) : Sat NoPanic (onSfs (vnodeIncref a)) x (fun r y =>
    r = .ok () ∧ Ready (a :: temp) files y ∧ Looks x y) := by
  obtain ⟨L, K⟩ := R.consistent
  obtain ⟨v, hv⟩ := K.core.vnode?_of_refs.1 ha
  refine sat_onSfs.2 ((sat_modifyVnode _ _).2 ?_)
  obtain ⟨C, same, -, loaded⟩ := updateCount K.core a (· + 1) id fun _ _ _ => Nat.succ_pos _
  have hc := K.core.counts_incref hv
  exact ⟨rfl, R.counts ⟨L, K.same C same fun j => (loaded j).2⟩ hc, rfl, same.super,
    same.dirSame K.core.root, hc.toAddrs⟩

omit R in
theorem decref_ready (R : Ready (a :: temp) files x) : Sat NoPanic (onSfs (vnodeDecref a)) x (fun r y =>
    r = .ok () ∧ Ready temp files y ∧ Looks x y) := by
  obtain ⟨L, K⟩ := R.consistent
  obtain ⟨v, hv⟩ := R.vnode (.inl List.mem_cons_self)
  have hva := (K.core.table.vnode?_iff.1 hv).2
  have hrefs := R.refs a
  rw [refs_of_vnode? hv, List.count_cons_self] at hrefs
  refine sat_onSfs.2 ((vnodeDecref_spec K.core hv (fun h1 => ?_) fun h0 => (K.unlinked hv h0).1).mono ?_)
  · rw [← opens_of_vnode? hv, R.opens]
    omega
  · rintro _ t ⟨rfl, h⟩
    have hroot : LiveAfter L v sfsRootLocation :=
      ⟨K.core.root, fun hd => (K.unlinked hv hd.1.2).1 hd.2.symm⟩
    refine ⟨rfl, R.step ⟨_, K.drop hv h⟩ h.counts.toAddrs (fun b => ?_) fun b => (h.counts.opens b).trans (R.opens b),
      rfl, h.same.super, h.same.dirSame hroot, h.counts.toAddrs⟩
    have := h.counts.refs b
    rw [hva] at this
    simp only [List.count_cons, beq_iff_eq] at *
    grind

omit R in
/-- Whatever a call returns, a reference is dropped after it. -/
theorem dropAfter_ready {m : VfsM α} (files : List Nat)
    (P : Except Errno α → List Nat) {Q : Except Errno α → VfsState → Prop}
    (hm : Sat K m x (fun r y => Ready (a :: P r) files y ∧ ∀ z, Looks y z → Ready (P r) files z → Q r z)) :
    Sat K (do
      let result ← Prog.attempt m
      onSfs (vnodeDecref a)
      Prog.ofExcept result) x Q := by
  simp only [sat_bind, sat_attempt, sat_ofExcept]
  refine hm.mono ?_
  rintro r y ⟨R', hQ⟩
  refine ((decref_ready R').weaken fun _ h => h.elim).mono ?_
  rintro _ z ⟨rfl, Rz, look⟩
  exact hQ z look Rz

end References

/-! ## Translating paths -/

def VfsState.Starts (x : VfsState) : PathStart → Prop
  | .curdir | .curfs => x.tCwd ≠ none
  | .device name => x.Named name
  | .bootfs => x.bootfsVnode ≠ none

/-- The path leads to an entry of the root directory, whose name is `name`. -/
def VfsState.Parent (x : VfsState) (path name : CString) : Prop :=
  x.Starts (splitPath path).1 ∧ name = (splitPath path).2 ∧ name.bytes ≠ [] ∧ name.bytes.length ≤ nameMax

theorem Looks.starts (h : Looks x y) (start : PathStart) : y.Starts start ↔ x.Starts start := by
  rw [h.rest]
  cases start <;> simp only [VfsState.Starts, VfsState.Named, h.super]

theorem Looks.parent (h : Looks x y) (path name : CString) : y.Parent path name ↔ x.Parent path name :=
  and_congr_left' (h.starts _)

section Paths

variable (R : Ready temp files x)
include R

theorem vfsGetcurdir_spec : Sat NoPanic vfsGetcurdir x (fun r y => Looks x y ∧ match r with
    | .ok g => x.tCwd ≠ none ∧ Ready (g :: temp) files y ∧ IsRoot y.fs g
    | .error _ => x.tCwd = none ∧ y = x) := by
  obtain ⟨L, K⟩ := R.consistent
  simp only [vfsGetcurdir, sat_bind, sat_get]
  cases hc : x.tCwd with
  | none => exact ⟨.refl x, rfl, rfl⟩
  | some a =>
    obtain ⟨v, hv, hroot⟩ := R.cwd a hc
    simp only [sat_bind]
    refine (incref_ready R (K.core.vnode?_of_refs.2 ⟨v, hv⟩)).mono ?_
    rintro _ y ⟨rfl, Ry, look⟩
    exact ⟨look, by simp, Ry, look.isRoot R Ry (R.cwd a hc) List.mem_cons_self⟩

theorem startVnode_spec (start : PathStart) :
    Sat NoPanic (startVnode start) x (fun r y => Looks x y ∧ match r with
      | .ok g => x.Starts start ∧ Ready (g :: temp) files y ∧ IsRoot y.fs g
      | .error _ => ¬ x.Starts start ∧ Ready temp files y) := by
  obtain ⟨L, K⟩ := R.consistent
  cases start with
  | curdir =>
    refine (vfsGetcurdir_spec R).mono ?_
    rintro (e | g) y ⟨look, h⟩
    · obtain ⟨hc, rfl⟩ := h
      exact ⟨look, not_not_intro hc, R⟩
    · exact ⟨look, h⟩
  | device name =>
    simp only [startVnode, vfsGetroot, sat_bind, sat_get, sat_ite, sat_raise]
    split
    · next hn =>
      refine (getroot_ready R).mono ?_
      rintro _ y ⟨g, rfl, Ry, hroot, look⟩
      exact ⟨look, hn, Ry, hroot⟩
    · next hn => exact ⟨.refl x, hn, R⟩
  | bootfs =>
    simp only [startVnode, sat_bind, sat_get]
    cases hb : x.bootfsVnode with
    | none => exact ⟨.refl x, not_not_intro hb, R⟩
    | some a =>
      obtain ⟨v, hv, hroot⟩ := R.bootfs a hb
      simp only [sat_bind]
      refine (incref_ready R (K.core.vnode?_of_refs.2 ⟨v, hv⟩)).mono ?_
      rintro _ y ⟨rfl, Ry, look⟩
      refine ⟨look, ?_, Ry, look.isRoot R Ry (R.bootfs a hb) List.mem_cons_self⟩
      simp [VfsState.Starts, hb]
  | curfs =>
    simp only [startVnode, sat_bind]
    refine (vfsGetcurdir_spec R).mono ?_
    rintro (e | a) y ⟨look, h⟩
    · obtain ⟨hc, rfl⟩ := h
      exact ⟨look, not_not_intro hc, R⟩
    · obtain ⟨hc, Ry, -⟩ := h
      refine (getroot_ready Ry).mono ?_
      rintro _ z ⟨g, rfl, Rz, hroot, look'⟩
      refine (decref_ready (Rz.perm (.swap a g temp))).mono ?_
      rintro _ w ⟨rfl, Rw, look''⟩
      exact ⟨(look.trans look').trans look'', hc, Rw, look''.isRoot Rz Rw hroot List.mem_cons_self⟩

/-- A call on the root directory goes to the operations for directories. -/
theorem dispatch_root {f g : SfsM α} {Q : Except Errno α → SfsFs → Prop}
    (h : IsRoot x.fs a) (hg : Sat K g x.fs Q) : Sat K (dispatch a f g) x.fs Q := by
  obtain ⟨L, C⟩ := R.consistent
  obtain ⟨v, hv, hroot⟩ := h
  exact sat_dispatch C.core hv (fun hne => absurd hroot hne) fun _ => hg

theorem sfsLookparent_ready (h : IsRoot x.fs a) (path : CString) :
    Sat NoPanic (onSfs (dispatch a (Prog.raise .enotdir) (sfsLookparent a path (nameMax + 1)))) x
      (fun r y => Looks x y ∧ match r with
        | .ok (d, n) => d = a ∧ n = path ∧ path.bytes.length ≤ nameMax ∧ Ready (a :: temp) files y
        | .error _ => nameMax < path.bytes.length ∧ y = x) := by
  obtain ⟨L, K⟩ := R.consistent
  refine sat_onSfs.2 (dispatch_root R h ?_)
  obtain ⟨v, hv, hroot⟩ := h
  have hty : v.svI.sfiType = sfsTypeDir := by
    rw [← K.core.table.inode_of_vnode? hv, K.core.type _ (K.core.live_of_vnode? hv), if_pos hroot]
  simp only [sfsLookparent, sat_bind, sat_vnode hv, hty, ne_eq, not_true_eq_false, if_false, sat_ite, sat_raise]
  split
  · next hlen => exact ⟨.refl x, by omega, trivial⟩
  · next hlen =>
    refine (sat_onSfs.1 (incref_ready R (K.core.vnode?_of_refs.2 ⟨v, hv⟩))).mono ?_
    rintro _ t ⟨rfl, Ry, look⟩
    exact ⟨look, rfl, rfl, by omega, Ry⟩

theorem vfsLookparent_spec (path : CString) :
    Sat NoPanic (vfsLookparent path) x (fun r y => Looks x y ∧ match r with
      | .ok (d, n) => x.Parent path n ∧ Ready (d :: temp) files y ∧ IsRoot y.fs d
      | .error _ => (∀ n, ¬ x.Parent path n) ∧ Ready temp files y) := by
  simp only [vfsLookparent, getdevice]
  refine (sat_bind _).2 ((sat_bind _).2 ((startVnode_spec R _).mono ?_))
  rintro (e | g) y ⟨look, h⟩
  · exact ⟨look, fun n hn => h.1 hn.1, h.2⟩
  · obtain ⟨hstart, Ry, hroot⟩ := h
    refine dropAfter_ready files (fun r => match r with
      | .ok _ => g :: temp
      | .error _ => temp) ?_
    simp only [sat_ite, sat_raise]
    split
    · next hempty =>
      refine ⟨Ry, fun z look' Rz => ⟨look.trans look', fun n hn => ?_, Rz⟩⟩
      exact hn.2.2.1 (hn.2.1 ▸ hempty)
    · next hne =>
      refine (sfsLookparent_ready Ry hroot _).mono ?_
      rintro (e | ⟨d, n⟩) w ⟨look', h⟩
      · obtain ⟨hlen, rfl⟩ := h
        refine ⟨Ry, fun z look'' Rz => ⟨look.trans look'', fun n hn => ?_, Rz⟩⟩
        have := hn.2.2.2
        rw [hn.2.1] at this
        omega
      · obtain ⟨rfl, rfl, hlen, Rw⟩ := h
        refine ⟨Rw, fun z look'' Rz => ⟨(look.trans look').trans look'', ⟨hstart, rfl, hne, hlen⟩, Rz, ?_⟩⟩
        exact (look'.trans look'').isRoot Ry Rz hroot List.mem_cons_self

omit R in
/-- An operation on the root directory, called with a reference to the directory. -/
theorem onRoot_spec {f m : SfsM α} (g : Except Errno α → Option Nat)
    (R : Ready (a :: temp) files x) (hroot : IsRoot x.fs a)
    (hm : ∀ {L v}, Consistent L rootLink x.fs → x.fs.vnode? a = some v → v.svIno = sfsRootLocation →
      Sat K m x.fs (fun r t => (∃ L', Settled L L' x.fs t) ∧ Counts (g r) none x.fs t)) :
    Sat K (onSfs (dispatch a f m)) x (fun r y => Ready (a :: ((g r).toList ++ temp)) files y) := by
  refine sat_onSfs.2 (dispatch_root R hroot ?_)
  obtain ⟨L, C⟩ := R.consistent
  obtain ⟨v, hv, hvr⟩ := hroot
  refine (hm C hv hvr).mono ?_
  rintro r t ⟨⟨L', S⟩, hc⟩
  exact (R.counts ⟨L', S.consistent⟩ hc).perm List.perm_middle

theorem vfsLookup_spec (path : CString) :
    Sat NoPanic (vfsLookup path) x (fun r y => Ready (r.toOption.toList ++ temp) files y) := by
  simp only [vfsLookup, getdevice]
  refine (sat_bind _).2 ((sat_bind _).2 ((startVnode_spec R _).mono ?_))
  rintro (e | g) y ⟨look, h⟩
  · exact h.2
  · obtain ⟨-, Ry, hroot⟩ := h
    simp only [sat_pure, sat_ite]
    split
    · exact Ry
    · refine dropAfter_ready files (fun r => r.toOption.toList ++ temp)
        ((onRoot_spec Except.toOption Ry hroot fun K hv hvr => ?_).mono fun r w Rw => ⟨Rw, fun z _ Rz => Rz⟩)
      exact (sfsLookup_spec K hv hvr _).mono fun r t h => ⟨⟨_, h.1.1⟩, h.1.2⟩

end Paths

/-! ## The operations on names -/

section Names

variable (R : Ready temp files x)
include R

theorem vfsRemove_spec (path : CString) : Sat NoPanic (vfsRemove path) x (fun _ y => Ready temp files y) := by
  refine (sat_bind _).2 ((vfsLookparent_spec R path).mono ?_)
  rintro (e | ⟨d, n⟩) y ⟨-, h⟩
  · exact h.2
  · obtain ⟨-, Ry, hroot⟩ := h
    refine dropAfter_ready files (fun _ => temp)
      ((onRoot_spec (fun _ => none) Ry hroot fun K hv hvr => ?_).mono fun r w Rw => ⟨Rw, fun z _ Rz => Rz⟩)
    exact (sfsRemove_spec K hv hvr n).mono fun _ _ h => h.1

omit R in
theorem dropBoth_ready {m : VfsM α} {P : Except Errno α → Prop}
    (hm : Sat K m x (fun r y => P r ∧ Ready (b :: a :: temp) files y)) :
    Sat K (do
      let result ← Prog.attempt m
      onSfs (vnodeDecref b)
      onSfs (vnodeDecref a)
      Prog.ofExcept result) x (fun r y => P r ∧ Ready temp files y) := by
  simp only [sat_bind, sat_attempt, sat_ofExcept]
  refine hm.mono ?_
  rintro r y ⟨hP, Ry⟩
  refine ((decref_ready Ry).weaken fun _ h => h.elim).mono ?_
  rintro _ z ⟨rfl, Rz, -⟩
  refine ((decref_ready Rz).weaken fun _ h => h.elim).mono ?_
  rintro _ w ⟨rfl, Rw, -⟩
  exact ⟨hP, Rw⟩

theorem vfsLink_spec (oldpath newpath : CString) :
    Sat NoPanic (vfsLink oldpath newpath) x (fun _ y => Ready temp files y) := by
  refine (sat_bind _).2 ((vfsLookup_spec R oldpath).mono ?_)
  rintro (e | f) y Ry
  · exact Ry
  · refine (sat_bind _).2 (sat_attempt.2 ((vfsLookparent_spec Ry newpath).mono ?_))
    rintro (e | ⟨d, n⟩) z ⟨-, h⟩
    · simp only [sat_bind, sat_raise]
      refine (decref_ready h.2).mono ?_
      rintro _ w ⟨rfl, Rw, -⟩
      exact Rw
    · obtain ⟨-, Rz, hroot⟩ := h
      obtain ⟨w, hw⟩ := Rz.vnode (.inl (List.mem_cons_of_mem d List.mem_cons_self))
      refine (dropBoth_ready (P := fun _ => True) ((onRoot_spec (fun _ => none) Rz hroot
        fun K hv hvr => ?_).mono fun r w Rw => ⟨trivial, Rw⟩)).mono fun _ _ h => h.2
      exact (sfsLink_spec K hv hvr n hw).mono fun _ _ h => ⟨⟨_, h.1.1⟩, h.1.2⟩

/-- The old name is one of the root directory, and both paths lead somewhere. -/
def VfsState.RenamesRoot (x : VfsState) (oldpath newpath : CString) : Prop :=
  ∃ oldname newname, x.Parent oldpath oldname ∧ x.Parent newpath newname ∧
    x.fs.Names oldname sfsRootLocation

theorem vfsRename_spec (oldpath newpath : CString) :
    Sat (fun p => p = .renameNotFile ∧ x.RenamesRoot oldpath newpath) (vfsRename oldpath newpath) x
      (fun _ y => ¬ x.RenamesRoot oldpath newpath ∧ Ready temp files y) := by
  have weak {α : Type} {m : VfsM α} {s : VfsState} {K : SfsPanic → Prop}
      {Q : Except Errno α → VfsState → Prop} (h : Sat NoPanic m s Q) : Sat K m s Q :=
    h.weaken fun _ h => h.elim
  refine (sat_bind _).2 ((weak (vfsLookparent_spec R oldpath)).mono ?_)
  rintro (e | ⟨d1, n1⟩) y ⟨look, h⟩
  · refine ⟨?_, h.2⟩
    rintro ⟨n, _, hn, -⟩
    exact h.1 n hn
  · obtain ⟨hp1, Ry, hroot1⟩ := h
    refine (sat_bind _).2 (sat_attempt.2 ((weak (vfsLookparent_spec Ry newpath)).mono ?_))
    rintro (e | ⟨d2, n2⟩) z ⟨look', h⟩
    · simp only [sat_bind, sat_raise]
      refine (weak (decref_ready h.2)).mono ?_
      rintro _ w ⟨rfl, Rw, -⟩
      refine ⟨?_, Rw⟩
      rintro ⟨_, n, _, hn, -⟩
      exact h.1 n ((look.parent _ _).2 hn)
    · obtain ⟨hp2, Rz, hroot2⟩ := h
      have hroot1 := look'.isRoot Ry Rz hroot1 (List.mem_cons_of_mem d2 List.mem_cons_self)
      obtain ⟨L, K⟩ := Rz.consistent
      obtain rfl : d1 = d2 := hroot1.unique K hroot2
      have hnames : z.fs.Names n1 sfsRootLocation ↔ x.RenamesRoot oldpath newpath := by
        rw [(look.trans look').dir.names]
        constructor
        · exact fun h => ⟨n1, n2, hp1, (look.parent _ _).1 hp2, h⟩
        · rintro ⟨n, _, hn, -, h⟩
          rwa [hp1.2.1, ← hn.2.1]
      refine dropBoth_ready (sat_onSfs.2 (dispatch_root Rz hroot1 ?_))
      obtain ⟨v, hv, hvr⟩ := hroot1
      refine ((sfsRename_spec K hv hvr n1 d1 n2).weaken ?_).mono ?_
      · rintro p (⟨-, hne⟩ | ⟨hp, hn⟩)
        · exact absurd rfl hne
        · exact ⟨hp, hnames.1 hn⟩
      · rintro r t ⟨⟨hn, ⟨L', S⟩, hc⟩, -⟩
        exact ⟨fun h => hn (hnames.2 h), Rz.counts ⟨L', S.consistent⟩ hc⟩

end Names

/-! ## Opening and closing -/

/-- The calls that read or change one file. -/
def OnFile : SfsCall → Prop
  | .read _ _ | .write _ _ | .truncate _ _ => True
  | _ => False

section Open

variable (R : Ready temp files x)
include R

omit R in
/-- The caller's reference becomes that of an open file. -/
theorem vnodeIncopen_spec (R : Ready (a :: temp) files x) :
    Sat NoPanic (onSfs (vnodeIncopen a)) x (fun r y => r = .ok () ∧ Ready temp (a :: files) y) := by
  obtain ⟨L, K⟩ := R.consistent
  obtain ⟨v, hv⟩ := R.vnode (.inl List.mem_cons_self)
  refine sat_onSfs.2 ((sat_modifyVnode _ _).2 ?_)
  obtain ⟨C, same, -, loaded⟩ := updateCount K.core a id (· + 1) fun w hw _ => (K.core.vnode w hw).refcount_pos
  obtain ⟨ha, hr, ho⟩ := K.core.counts_recount hv id (· + 1)
  have h1 := refs_of_vnode? hv
  have h2 := opens_of_vnode? hv
  refine ⟨rfl, R.step ⟨L, K.same C same fun j => (loaded j).2⟩ ha (fun b => ?_) fun b => ?_⟩
  · refine Eq.trans (congrArg (· + _ + _) (hr b)) ?_
    simp only [List.count_cons, beq_iff_eq]
    grind
  · refine (ho b).trans ?_
    have := R.opens b
    simp only [List.count_cons, beq_iff_eq]
    grind

theorem sync_ready (hv : ∃ v, x.fs.vnode? a = some v) :
    Sat NoPanic (onSfs (sfsSyncInode a)) x (fun r y => r = .ok () ∧ Ready temp files y) := by
  obtain ⟨L, K⟩ := R.consistent
  obtain ⟨v, hv⟩ := hv
  refine sat_onSfs.2 ((sfsSyncInode_spec K.core hv).mono ?_)
  rintro _ t ⟨rfl, C, q, same, -⟩
  exact ⟨rfl, R.counts ⟨L, K.same C same fun j => (q.loaded j).2⟩ q.counts⟩

theorem vnodeDecopen_spec (ha : a ∈ files) : Sat NoPanic (onSfs (vnodeDecopen a)) x
    (fun r y => r = .ok () ∧ Ready (a :: temp) (files.erase a) y) := by
  obtain ⟨L, K⟩ := R.consistent
  obtain ⟨v, hv⟩ := R.vnode (.inr ha)
  have h1 := refs_of_vnode? hv
  have h2 := opens_of_vnode? hv
  have hpos : 0 < v.vnOpencount := by
    rw [← h2, R.opens]
    exact List.count_pos_iff.2 ha
  obtain ⟨C, same, keeps, loaded⟩ := updateCount K.core a id (· - 1) fun w hw _ => (K.core.vnode w hw).refcount_pos
  obtain ⟨had, hr, ho⟩ := K.core.counts_recount hv id (· - 1)
  have hcount (b : Nat) : files.count b = (files.erase a).count b + if b = a then 1 else 0 := by
    have := List.count_pos_iff.2 ha
    by_cases hb : b = a
    · rw [hb, List.count_erase_self, if_pos rfl]
      omega
    · rw [List.count_erase_of_ne hb, if_neg hb, Nat.add_zero]
  have Rt : Ready (a :: temp) (files.erase a) { x with fs := x.fs.updateVnode a (SfsVnode.recount id (· - 1)) } := by
    refine R.step ⟨L, K.same C same fun j => (loaded j).2⟩ had (fun b => ?_) fun b => ?_
    · have := hcount b
      refine Eq.trans (congrArg (· + _ + _) (hr b)) ?_
      simp only [List.count_cons, beq_iff_eq]
      grind
    · have h3 := hcount b
      have h4 := R.opens b
      refine (ho b).trans ?_
      grind
  refine sat_onSfs.2 ?_
  simp only [vnodeDecopen, sat_bind, sat_vnode hv, sat_check, hpos, if_true, sat_modifyVnode,
    sat_when, sat_attempt, sat_pure]
  split
  · obtain ⟨w, hw, -⟩ := keeps a v hv
    refine (sat_onSfs.1 (sync_ready Rt ⟨w, hw⟩)).mono ?_
    rintro _ t ⟨rfl, Ry⟩
    exact ⟨trivial, Ry⟩
  · exact ⟨trivial, Rt⟩

theorem vfsClose_spec (ha : a ∈ files) :
    Sat NoPanic (vfsClose a) x (fun r y => r = .ok () ∧ Ready temp (files.erase a) y) := by
  refine (sat_bind _).2 ((vnodeDecopen_spec R ha).mono ?_)
  rintro _ y ⟨rfl, Ry⟩
  refine (decref_ready Ry).mono ?_
  rintro _ z ⟨rfl, Rz, -⟩
  exact ⟨rfl, Rz⟩

/-- Reading, writing and truncating an open file. -/
theorem fileCall_ready {c : SfsCall} (hc : c.Valid x.fs) (hio : OnFile c) :
    Sat NoPanic (onSfs c.run) x (fun _ y => Ready temp files y) := by
  obtain ⟨L, K⟩ := R.consistent
  have hspec := SfsCall.run_spec K (fun file he => by subst he; exact hio.elim) hc
  refine sat_onSfs.2 ((hspec.weaken fun p hp => ?_).mono fun r t h => ?_)
  · cases c <;> first | exact hp.1.elim | exact hio.elim
  · have step {ino : Nat} (C : Core L (fun _ => False) t) (h : FileStep L ino x.fs t)
        (hr : ino ≠ sfsRootLocation) : Ready temp files { x with fs := t } :=
      R.counts ⟨L, K.fileStep C h hr⟩ h.counts
    have same (h : t = x.fs) : Ready temp files { x with fs := t } := h ▸ R
    cases c with
    | read file u => exact same h.1
    | write file u =>
      obtain ⟨v, hv⟩ := hc.vnodes file (by simp [SfsCall.vnodes])
      have h := h v hv
      split at h
      · exact same h.2
      · next hr =>
        obtain ⟨k, w, r', -, hw, -⟩ := h
        exact step hw.core hw.step hr
    | truncate file len =>
      obtain ⟨v, hv⟩ := hc.vnodes file (by simp [SfsCall.vnodes])
      have h := h v hv
      split at h
      · exact same h.2
      · next hr => exact step h.2.core h.2.step hr
    | _ => exact hio.elim

theorem openVnode_spec (path : CString) (openflags : Word) : Sat NoPanic (openVnode path openflags) x
    (fun r y => Ready (r.toOption.toList ++ temp) files y) := by
  simp only [openVnode, sat_ite]
  split
  · refine (sat_bind _).2 ((vfsLookparent_spec R path).mono ?_)
    rintro (e | ⟨d, n⟩) y ⟨-, h⟩
    · exact h.2
    · obtain ⟨-, Ry, hroot⟩ := h
      refine dropAfter_ready files (fun r => r.toOption.toList ++ temp)
        ((onRoot_spec Except.toOption Ry hroot fun K hv hvr => ?_).mono fun r w Rw => ⟨Rw, fun z _ Rz => Rz⟩)
      exact (sfsCreat_spec K hv hvr n _).mono fun _ _ h => h.1
  · exact vfsLookup_spec R path

theorem openTrunc_spec (ha : a ∈ files) (how : Word) :
    Sat NoPanic (openTrunc a how) x (fun r y => match r with
      | .ok _ => Ready temp files y
      | .error _ => Ready temp (files.erase a) y) := by
  have hvalid : SfsCall.Valid x.fs (.truncate a 0) := by
    refine ⟨fun b hb => ?_, trivial⟩
    obtain rfl : b = a := by simpa [SfsCall.vnodes] using hb
    exact R.vnode (.inr ha)
  have htrunc : Sat NoPanic (if how = oRdonly then Prog.raise .einval else onSfs (vopTruncate a 0)) x
      (fun _ y => Ready temp files y) := by
    simp only [sat_ite, sat_raise]
    split
    · exact R
    · exact sat_onSfs.2 (sat_replyDone.1 (sat_onSfs.1 (fileCall_ready R hvalid trivial)))
  refine (sat_bind _).2 (sat_attempt.2 (htrunc.mono ?_))
  rintro (e | _) y Ry
  · simp only [sat_bind, sat_raise]
    refine (vfsClose_spec Ry ha).mono ?_
    rintro _ z ⟨rfl, Rz⟩
    exact Rz
  · exact Ry

theorem vfsOpen_spec (path : CString) (openflags : Word) : Sat NoPanic (vfsOpen path openflags) x
    (fun r y => Ready temp (r.toOption.toList ++ files) y) := by
  simp only [vfsOpen, sat_ite, sat_raise]
  split
  · exact R
  refine (sat_bind _).2 ((openVnode_spec R path openflags).mono ?_)
  rintro (e | vn) y Ry
  · exact Ry
  have hopen : Sat NoPanic (onSfs (dispatch vn (sfsOpen openflags) (sfsOpendir openflags))) y (fun _ z => z = y) := by
    obtain ⟨L, K⟩ := Ry.consistent
    obtain ⟨v, hv⟩ := Ry.vnode (.inl List.mem_cons_self)
    refine sat_onSfs.2 (sat_dispatch K.core hv (fun _ => ?_) fun _ => ?_)
    · simp [sfsOpen]
    · simp [sfsOpendir]
  refine (sat_bind _).2 (sat_attempt.2 (hopen.mono ?_))
  rintro (e | _) z rfl
  · simp only [sat_bind, sat_raise]
    refine (decref_ready Ry).mono ?_
    rintro _ w ⟨rfl, Rw, -⟩
    exact Rw
  · refine (sat_bind _).2 ((vnodeIncopen_spec Ry).mono ?_)
    rintro _ w ⟨rfl, Rw⟩
    simp only [sat_bind, sat_when, sat_pure]
    split
    · refine (openTrunc_spec Rw List.mem_cons_self _).mono ?_
      rintro (e | _) u Ru
      · rwa [List.erase_cons_head] at Ru
      · exact Ru
    · exact Rw

end Open

/-! ## The current directory and the boot file system -/

variable {o : Option Nat}

section Directories

variable (R : Ready temp files x)
include R

omit R in
theorem Ready.setCwd (R : Ready (o.toList ++ temp) files x) (hroot : ∀ a, o = some a → IsRoot x.fs a) :
    Ready (x.tCwd.toList ++ temp) files { x with tCwd := o } := by
  refine ⟨R.consistent, fun a => ?_, R.opens, hroot, R.bootfs⟩
  have := R.refs a
  simp only [List.count_append] at *
  omega

omit R in
theorem Ready.setBootfs (R : Ready (o.toList ++ temp) files x)
    (hroot : ∀ a, o = some a → IsRoot x.fs a) :
    Ready (x.bootfsVnode.toList ++ temp) files { x with bootfsVnode := o } := by
  refine ⟨R.consistent, fun a => ?_, R.opens, R.cwd, hroot⟩
  have := R.refs a
  simp only [List.count_append] at *
  omega

omit R in
theorem decrefOld_spec (R : Ready (o.toList ++ temp) files x) :
    Sat NoPanic (decrefOld o) x (fun r y => r = .ok () ∧ Ready temp files y) := by
  cases o with
  | none => exact ⟨rfl, R⟩
  | some a =>
    refine (decref_ready R).mono ?_
    rintro _ y ⟨rfl, Ry, -⟩
    exact ⟨rfl, Ry⟩

omit R in
theorem sfsGettype_spec (R : Ready (a :: temp) files x) : Sat NoPanic (onSfs (sfsGettype a)) x (fun r y => y = x ∧
    (r = .ok true ∧ IsRoot x.fs a ∨ r = .ok false)) := by
  obtain ⟨L, K⟩ := R.consistent
  obtain ⟨v, hv⟩ := R.vnode (.inl List.mem_cons_self)
  have hty := K.core.type _ (K.core.live_of_vnode? hv)
  rw [K.core.table.inode_of_vnode? hv] at hty
  refine sat_onSfs.2 ?_
  simp only [sfsGettype, sat_bind, sat_vnode hv, hty]
  by_cases hr : v.svIno = sfsRootLocation
  · rw [if_pos hr, if_neg (by decide), if_pos rfl]
    exact ⟨rfl, .inl ⟨rfl, v, hv, hr⟩⟩
  · rw [if_neg hr, if_pos rfl]
    exact ⟨rfl, .inr rfl⟩

omit R in
theorem vfsSetcurdir_spec (R : Ready (a :: temp) files x) :
    Sat NoPanic (vfsSetcurdir a) x (fun r y => match r with
      | .ok _ => Ready temp files y
      | .error _ => y = x) := by
  refine (sat_bind _).2 ((sfsGettype_spec R).mono ?_)
  rintro _ y ⟨rfl, ⟨rfl, hroot⟩ | rfl⟩
  · simp only [Bool.true_eq_false, if_false, sat_bind, sat_get, sat_modify]
    have Ry : Ready (y.tCwd.toList ++ temp) files { y with tCwd := some a } :=
      R.setCwd fun b hb => Option.some.inj hb ▸ hroot
    refine (decrefOld_spec Ry).mono ?_
    rintro _ z ⟨rfl, Rz⟩
    exact Rz
  · simp

theorem vfsClearcurdir_spec : Sat NoPanic vfsClearcurdir x (fun _ y => Ready temp files y) := by
  simp only [vfsClearcurdir, sat_bind, sat_get, sat_modify]
  have Ry : Ready (x.tCwd.toList ++ temp) files { x with tCwd := none } := Ready.setCwd R (by simp)
  exact (decrefOld_spec Ry).mono fun _ _ h => h.2

theorem vfsChdir_spec (path : CString) : Sat NoPanic (vfsChdir path) x (fun _ y => Ready temp files y) := by
  refine (sat_bind _).2 ((vfsLookup_spec R path).mono ?_)
  rintro (e | vn) y Ry
  · exact Ry
  · refine (sat_bind _).2 (sat_attempt.2 ((vfsSetcurdir_spec Ry).mono ?_))
    rintro (e | _) z Rz
    · obtain rfl : z = y := Rz
      simp only [sat_bind, sat_raise]
      refine (decref_ready Ry).mono ?_
      rintro _ w ⟨rfl, Rw, -⟩
      exact Rw
    · exact Rz

omit R in
theorem changeBootfs_spec (R : Ready (o.toList ++ temp) files x)
    (hroot : ∀ a, o = some a → IsRoot x.fs a) : Sat NoPanic (changeBootfs o) x (fun _ y => Ready temp files y) := by
  simp only [changeBootfs, sat_bind, sat_get, sat_modify]
  exact (decrefOld_spec (R.setBootfs hroot)).mono fun _ _ h => h.2

theorem vfsSetbootfs_spec (fsname : CString) : Sat NoPanic (vfsSetbootfs fsname) x (fun _ y => Ready temp files y) := by
  simp only [vfsSetbootfs, sat_ite, sat_raise]
  split
  · exact R
  · refine (sat_bind _).2 ((vfsChdir_spec R _).mono ?_)
    rintro (e | _) y Ry
    · exact Ry
    · refine (sat_bind _).2 ((vfsGetcurdir_spec Ry).mono ?_)
      rintro (e | g) z ⟨-, h⟩
      · exact h.2 ▸ Ry
      · obtain ⟨-, Rz, hroot⟩ := h
        exact changeBootfs_spec (o := some g) Rz fun b hb => Option.some.inj hb ▸ hroot

end Directories

/-! ## Whole runs -/

def VfsCall.RenamesRoot (x : VfsState) : VfsCall → Prop
  | .rename oldpath newpath => x.RenamesRoot oldpath newpath
  | _ => False

section Calls

variable {c : VfsCall}

theorem sat_replyDone {m : VfsM Unit} {P : VfsState → Prop}
    (h : Sat K m x (fun _ y => P y)) : Sat K m.replyDone x (fun _ y => P y) := by
  refine (sat_bind _).2 (h.mono ?_)
  rintro (e | _) y hy <;> exact hy

theorem openFile_ready (R : Ready temp files x) {c : SfsCall} (ha : a ∈ files) (hvn : c.vnodes = [a])
    (hu : c.UioOk) (hio : OnFile c) : Sat NoPanic (onSfs c.run) x (fun _ y => Ready temp files y) := by
  refine fileCall_ready R ⟨fun b hb => ?_, hu⟩ hio
  obtain rfl : b = a := by simpa [hvn] using hb
  exact R.vnode (.inr ha)

theorem VfsCall.run_spec (R : Ready [] files x) (hc : c.Valid files) :
    Sat (fun p => p = .renameNotFile ∧ c.RenamesRoot x) c.run x
      (fun r y => ¬ c.RenamesRoot x ∧ Ready [] (filesAfter files (c, r)) y) := by
  have quiet {m : VfsM SfsReply} {Q : Except Errno SfsReply → VfsState → Prop} {K : SfsPanic → Prop}
      (h : Sat NoPanic m x Q) : Sat K m x (fun r y => ¬ False ∧ Q r y) :=
    (h.weaken fun _ h => h.elim).mono fun _ _ h => ⟨not_false, h⟩
  cases c with
  | «open» path openflags =>
    refine quiet ((sat_bind _).2 ((vfsOpen_spec R path openflags).mono ?_))
    rintro (e | vn) y Ry <;> exact Ry
  | close vn => exact quiet (sat_replyDone ((vfsClose_spec R hc).mono fun _ _ h => h.2))
  | link oldpath newpath => exact quiet (sat_replyDone (vfsLink_spec R oldpath newpath))
  | remove path => exact quiet (sat_replyDone (vfsRemove_spec R path))
  | rename oldpath newpath => exact sat_replyDone (vfsRename_spec R oldpath newpath)
  | read vn u | write vn u => exact quiet (openFile_ready R hc.1 rfl hc.2 trivial)
  | truncate vn len => exact quiet (openFile_ready R hc rfl trivial trivial)
  | chdir path => exact quiet (sat_replyDone (vfsChdir_spec R path))
  | clearcurdir => exact quiet (sat_replyDone (vfsClearcurdir_spec R))
  | setbootfs fsname => exact quiet (sat_replyDone (vfsSetbootfs_spec R fsname))
  | clearbootfs => exact quiet (sat_replyDone (changeBootfs_spec (o := none) R nofun))

end Calls

/-- Nothing has been opened yet on a volume that has just been mounted. -/
structure Session.Fresh (x : Session) : Prop where
  mounted : Mounted x.vfs.fs
  files : x.files = []
  cwd : x.vfs.tCwd = none
  bootfs : x.vfs.bootfsVnode = none

theorem Session.Fresh.ready {x : Session} (h : x.Fresh) : Ready [] x.files x.vfs := by
  have hv (a : Nat) : x.vfs.fs.vnode? a = none := by simp [SfsFs.vnode?, h.mounted.vnodes]
  refine ⟨⟨_, h.mounted.consistent⟩, fun a => ?_, fun a => ?_, ?_, ?_⟩
  · simp [SfsFs.refs, hv, h.files, h.cwd, h.bootfs]
  · simp [SfsFs.opens, hv, h.files]
  · simp [h.cwd]
  · simp [h.bootfs]

theorem ready_of_run {x₀ x : Session} {tr : List VfsEvent} (h₀ : x₀.Fresh) (h : Run VfsStep x₀ tr x) :
    Ready [] x.files x.vfs := by
  refine h.invariant (I := fun x => Ready [] x.files x.vfs) h₀.ready ?_
  intro y e z R step
  obtain ⟨hc, hrun, hfiles⟩ := step
  rw [hfiles]
  exact ((VfsCall.run_spec R hc).of_ok hrun).2

/-- One call stops the machine: a rename whose old name is a name of the root directory. -/
theorem stops_iff_renamesRoot {x₀ x : Session} {tr : List VfsEvent} (h₀ : x₀.Fresh)
    (h : Run VfsStep x₀ tr x) (c : VfsCall) (hc : c.Valid x.files) (p : SfsPanic) :
    c.run x.vfs = .error p ↔ p = .renameNotFile ∧ c.RenamesRoot x.vfs := by
  have hspec := VfsCall.run_spec (ready_of_run h₀ h) hc
  constructor
  · exact hspec.of_error
  · rintro ⟨rfl, hroot⟩
    cases hrun : c.run x.vfs with
    | ok a => exact absurd hroot (hspec.of_ok hrun).1
    | error q => rw [(hspec.of_error hrun).1]

/-! ## A name for the root directory -/

/-- The sample volume, whose name is `sfs`, before the first call. -/
def sampleSession : Session := ⟨⟨sampleVolume, sampleName, none, none⟩, []⟩

theorem fresh_sampleSession : sampleSession.Fresh := ⟨mounted_sampleVolume, rfl, rfl, rfl⟩

/-- `sfs:`, `sfs:a` and `sfs:b`. -/
def sampleRootPath : CString := ⟨[115, 102, 115, 58], by decide⟩
def samplePathA : CString := ⟨[115, 102, 115, 58, 97], by decide⟩
def samplePathB : CString := ⟨[115, 102, 115, 58, 98], by decide⟩

def VfsCall.reply (c : VfsCall) (x : Session) : Except Errno SfsReply :=
  match c.run x.vfs with
  | .ok (r, _) => r
  | .error _ => .ok .done

def VfsCall.after (c : VfsCall) (x : Session) : Session :=
  match c.run x.vfs with
  | .ok (r, y) => ⟨y, filesAfter x.files (c, r)⟩
  | .error _ => x

theorem VfsCall.step_after {c : VfsCall} {x : Session} (hc : c.Valid x.files)
    (h : (c.run x.vfs).isOk = true) : VfsStep x (c, c.reply x) (c.after x) := by
  refine ⟨hc, ?_⟩
  unfold VfsCall.reply VfsCall.after
  cases hr : c.run x.vfs with
  | error p => rw [hr] at h; exact nomatch h
  | ok a => exact ⟨rfl, rfl⟩

def sampleLink : VfsCall := .link sampleRootPath samplePathA
def sampleRename : VfsCall := .rename samplePathA samplePathB
def sampleLinked : Session := sampleLink.after sampleSession

theorem run_sampleLinked : Run VfsStep sampleSession [(sampleLink, sampleLink.reply sampleSession)] sampleLinked :=
  .step .start (VfsCall.step_after trivial (by decide +kernel))

theorem eq_done_of_match {r : Except Errno SfsReply}
    (h : (match r with | .ok .done => true | _ => false) = true) : r = .ok .done := by
  split at h
  · rfl
  · exact nomatch h

theorem eq_error_of_match {r : Except SfsPanic α} {p : SfsPanic}
    (h : (match r with | .error q => decide (q = p) | .ok _ => false) = true) : r = .error p := by
  cases r with
  | error q => rw [of_decide_eq_true h]
  | ok a => exact nomatch h

/-- The first link succeeds, and the rename after it stops the machine. -/
theorem rename_root_stops : Run VfsStep sampleSession [(sampleLink, .ok .done)] sampleLinked ∧
    sampleRename.run sampleLinked.vfs = .error .renameNotFile := by
  have hreply : sampleLink.reply sampleSession = .ok .done := eq_done_of_match (by decide +kernel)
  exact ⟨hreply ▸ run_sampleLinked, eq_error_of_match (by decide +kernel)⟩

theorem stops_iff_sampleLinked : sampleSession.Fresh ∧ VfsCall.Valid sampleLinked.files sampleRename ∧ ∀ p,
    (sampleRename.run sampleLinked.vfs = .error p ↔ p = .renameNotFile ∧ sampleRename.RenamesRoot sampleLinked.vfs) :=
  ⟨fresh_sampleSession, trivial,
    stops_iff_renamesRoot fresh_sampleSession run_sampleLinked sampleRename trivial⟩

end Os161.Vfs
