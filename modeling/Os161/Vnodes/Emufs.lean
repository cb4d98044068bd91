import Os161.Kern.Errno
import Os161.Lib.Run
import Os161.Vnodes.Pool

/-!
# Reference counts of emufs

The emulator's file system keeps its vnodes in `ef_vnodes`. A lookup searches the table and counts
its reference in one section of `e_lock`; `emufs_reclaim` looks at the count, closes the hardware
handle and removes the vnode in another. Between `vnode_decref`'s decision and `emufs_reclaim`'s
section a lookup may find the vnode: then `emufs_reclaim` returns `EBUSY` and leaves the count as it
is, with the reference that nobody holds any more.
-/
namespace Os161.Vnodes

open Lib Kern

/-! ## The hardware -/

inductive EmuPanic where
  | vnode (p : VnodePanic)
  | fatalResult
  | reclaimNotInPool
  deriving DecidableEq, Repr

/-- What the result codes of the hardware mean: `none` is success. -/
def translateErr : Nat → Except EmuPanic (Option Errno)
  | 1 => .ok none
  | 2 | 3 | 5 => .error .fatalResult
  | 4 => .ok (some .enoent)
  | 6 => .ok (some .eexist)
  | 7 => .ok (some .eisdir)
  | 8 => .ok (some .eio)
  | 9 => .ok (some .enfile)
  | 10 => .ok (some .enospc)
  | 11 => .ok (some .enotdir)
  | 12 => .ok (some .eio)
  | 13 => .ok (some .eunimp)
  | _ => .ok (some .eagain)

/-- The loop of `emu_close`; `hw` are the results of the attempts. -/
def emuCloseLoop (hw : Nat → Nat) (retries : Nat) : Nat → Except EmuPanic (Option Errno)
  | 0 => translateErr (hw retries)
  | left + 1 =>
    match translateErr (hw retries) with
    | .ok (some .eio) => emuCloseLoop hw (retries + 1) left
    | result => result

def emuClose (hw : Nat → Nat) : Except EmuPanic (Option Errno) := emuCloseLoop hw 0 10

theorem translateErr_error {code : Nat} {p : EmuPanic} (h : translateErr code = .error p) : p = .fatalResult := by
  unfold translateErr at h
  split at h <;> first | exact (Except.error.inj h).symm | exact nomatch h

theorem emuCloseLoop_error {hw : Nat → Nat} {retries left : Nat} {p : EmuPanic}
    (h : emuCloseLoop hw retries left = .error p) : p = .fatalResult := by
  induction left generalizing retries with
  | zero => exact translateErr_error h
  | succ left ih =>
    unfold emuCloseLoop at h
    split at h
    · exact ih h
    · exact translateErr_error h

/-! ## The threads -/

structure EmufsVnode where
  evHandle : Nat

/-- Where a thread is: outside, or in `vnode_decref` before a section of `VOP_RECLAIM`. -/
inductive EmuPc where
  | idle
  | reclaim (v : Nat)
  | kill (v : Nat)
  | free (v : Nat)
  deriving DecidableEq, Repr

def EmuPc.owes : EmuPc → Option Nat
  | .reclaim v | .kill v => some v
  | _ => none

/-- `closed` are the vnodes whose hardware handle has been closed. -/
structure EmufsFs where
  pool : Pool EmufsVnode EmuPc
  closed : List Nat

inductive EmuEvent where
  | load (i handle : Nat) (kmalloc : Bool)
  | decref (i v : Nat)
  | run (i : Nat) (hw : Nat → Nat)

/-- The vnode and the error that a `VOP_RECLAIM` returned with. -/
abbrev EmuReport := Option (Nat × Errno)

/-- `emufs_loadvnode`. When an allocation fails there is an error and no vnode. -/
def emufsLoadvnode (s : EmufsFs) (handle : Nat) (kmalloc : Bool) : Except EmuPanic (EmuReport × EmufsFs) :=
  match s.pool.vnodes.find? fun v => (s.pool.mem v).any fun vn => vn.vnData.evHandle = handle with
  | some v =>
    match s.pool.mem v with
    | none => .error (.vnode .badPointer)
    | some vn => .ok (none, { s with pool := (s.pool.write v (vnodeIncref vn)).take v })
  | none =>
    if kmalloc then .ok (none, { s with pool := s.pool.add (vnodeInit ⟨handle⟩) }) else .ok (none, s)

/-- The section of `emufs_reclaim`, from the count to the removal. -/
def emufsReclaim (s : EmufsFs) (i v : Nat) (hw : Nat → Nat) : Except EmuPanic (EmuReport × EmufsFs) :=
  match s.pool.mem v with
  | none => .error (.vnode .badPointer)
  | some vn =>
    if vn.vnRefcount ≠ 1 then .ok (some (v, .ebusy), { s with pool := s.pool.goto i .idle })
    else
      match emuClose hw with
      | .error p => .error p
      | .ok (some e) => .ok (some (v, e), { s with pool := s.pool.goto i .idle })
      | .ok none =>
        match s.pool.vnodes.idxOf? v with
        | none => .error .reclaimNotInPool
        | some ix => .ok (none, ⟨(s.pool.remove ix).goto i (.kill v), v :: s.closed⟩)

/-- The rest of `emufs_reclaim`, which holds no lock. -/
def emufsKill (s : EmufsFs) (i v : Nat) : Except EmuPanic (EmuReport × EmufsFs) :=
  match s.pool.mem v with
  | none => .error (.vnode .badPointer)
  | some vn =>
    match vnodeKill vn with
    | .error p => .error (.vnode p)
    | .ok vn' => .ok (none, { s with pool := (s.pool.write v vn').goto i (.free v) })

/-- A thread's step, if it is in a place to make it. -/
def EmufsFs.next (s : EmufsFs) : EmuEvent → Option (Except EmuPanic (EmuReport × EmufsFs))
  | .load i handle kmalloc =>
    match s.pool.threads[i]? with
    | some .idle => some (emufsLoadvnode s handle kmalloc)
    | _ => none
  | .decref i v =>
    match s.pool.threads[i]? with
    | some .idle =>
      if v ∈ s.pool.held then
        match s.pool.decref i v (.reclaim v) with
        | .error p => some (.error (.vnode p))
        | .ok p => some (.ok (none, { s with pool := p }))
      else none
    | _ => none
  | .run i hw =>
    match s.pool.threads[i]? with
    | some (.reclaim v) => some (emufsReclaim s i v hw)
    | some (.kill v) => some (emufsKill s i v)
    | some (.free v) => some (.ok (none, { s with pool := (s.pool.free v).goto i .idle }))
    | _ => none

def EmuStep (s : EmufsFs) (l : EmuEvent × EmuReport) (t : EmufsFs) : Prop :=
  s.next l.1 = some (.ok (l.2, t))

structure EmufsFs.Initial (s : EmufsFs) : Prop where
  mem : ∀ v, s.pool.mem v = none
  next : s.pool.next = 0
  vnodes : s.pool.vnodes = []
  held : s.pool.held = []
  threads : ∀ k ∈ s.pool.threads, k = .idle
  closed : s.closed = []

/-- No thread is inside `vnode_decref`. -/
def EmufsFs.Quiet (s : EmufsFs) : Prop := ∀ k ∈ s.pool.threads, k = .idle

/-- The event is a section of `emufs_reclaim` for `v` that finds the count other than one, or in
which the handle cannot be closed. -/
def EmufsFs.Refuses (s : EmufsFs) (v : Nat) : EmuEvent → Prop
  | .run i hw => s.pool.threads[i]? = some (.reclaim v) ∧
    (s.pool.refcount v ≠ 1 ∨ emuClose hw ≠ .ok none)
  | _ => False

/-- A step that refuses no reclaim of `v`. -/
def SparingStep (v : Nat) (s : EmufsFs) (l : EmuEvent × EmuReport) (t : EmufsFs) : Prop :=
  EmuStep s l t ∧ ¬s.Refuses v l.1

/-- The vnodes of the reclaims that returned an error. -/
def failed (tr : List (EmuEvent × EmuReport)) : List Nat := tr.filterMap fun l => l.2.map Prod.fst

/-! ## The invariant -/

namespace EmufsFs

variable {s t : EmufsFs} {tr : List (EmuEvent × EmuReport)} {i v w : Nat} {k k' : EmuPc}

def Ok (s : EmufsFs) : EmuPc → Prop
  | .idle => True
  | .reclaim v => v ∈ s.pool.vnodes
  | .kill v => v ∈ s.closed ∧ s.pool.refcount v = 1
  | .free v => v ∈ s.closed ∧ s.pool.refcount v = 0

structure Inv (tr : List (EmuEvent × EmuReport)) (s : EmufsFs) : Prop where
  sound : s.pool.Sound EmuPc.owes fun v => (failed tr).count v
  threads : ∀ (j : Nat) (k : EmuPc), s.pool.threads[j]? = some k → s.Ok k
  closed : ∀ v, v ∈ s.closed ↔ v < s.pool.next ∧ v ∉ s.pool.vnodes
  held : ∀ v ∈ s.pool.held, v ∈ s.pool.vnodes
  lost : ∀ v ∈ failed tr, v ∈ s.pool.vnodes

theorem Initial.inv (h : s.Initial) : EmufsFs.Inv [] s := by
  have hcount (v : Nat) : s.pool.refcount v = 0 := by simp [Pool.refcount, h.mem]
  have howed (v : Nat) : owed EmuPc.owes s.pool.threads v = 0 := by
    refine List.countP_eq_zero.2 fun k hk => ?_
    simp [h.threads k hk, EmuPc.owes]
  refine ⟨⟨fun v => ?_, fun v => ?_, fun v _ => h.mem v, ?_, ?_, ?_⟩, fun j k hk => ?_, fun v => ?_, ?_,
    fun v h => by cases h⟩
  · simp [hcount, howed, h.held, failed]
  · simp [howed]
  · simp [h.vnodes]
  · simp [h.vnodes]
  · simp [h.mem]
  · simp [h.threads k (List.mem_of_getElem? hk), Ok]
  · simp [h.closed, h.next]
  · simp [h.held]

theorem ok_set (hthreads : t.pool.threads = s.pool.threads.set i k') (hk' : t.Ok k')
    (h : ∀ (j : Nat) (k : EmuPc), j ≠ i → s.pool.threads[j]? = some k → t.Ok k) :
    ∀ (j : Nat) (k : EmuPc), t.pool.threads[j]? = some k → t.Ok k := by
  intro j k hj
  rw [hthreads] at hj
  by_cases hij : j = i
  · subst hij
    rw [List.getElem?_set_self'] at hj
    obtain ⟨-, -, rfl⟩ := Option.map_eq_some_iff.1 hj
    exact hk'
  · rw [List.getElem?_set_ne (Ne.symm hij)] at hj
    exact h j k hij hj

/-- What a thread relies on survives when the table keeps its vnodes and the counts of those that
are no longer in it stay. -/
theorem Ok.mono (h : s.Ok k) (hv : ∀ v, k = .reclaim v → v ∈ s.pool.vnodes → v ∈ t.pool.vnodes)
    (hclosed : ∀ v ∈ s.closed, v ∈ t.closed)
    (hcount : ∀ v ∈ s.closed, k = .kill v ∨ k = .free v → t.pool.refcount v = s.pool.refcount v) : t.Ok k := by
  cases k with
  | idle => trivial
  | reclaim v => exact hv v rfl h
  | kill v => exact ⟨hclosed v h.1, (hcount v h.1 (.inl rfl)).trans h.2⟩
  | free v => exact ⟨hclosed v h.1, (hcount v h.1 (.inr rfl)).trans h.2⟩

section Steps

variable (I : Inv tr s)
include I

theorem Inv.cons_none (e : EmuEvent) : Inv ((e, none) :: tr) s :=
  ⟨I.sound, I.threads, I.closed, I.held, I.lost⟩

theorem Inv.loadvnode (handle : Nat) (kmalloc : Bool) :
    ∃ t, emufsLoadvnode s handle kmalloc = .ok (none, t) ∧ Inv tr t := by
  unfold emufsLoadvnode
  split
  · next v hfind =>
    have hv : v ∈ s.pool.vnodes := List.mem_of_find?_eq_some hfind
    obtain ⟨vn, hvn⟩ := Pool.exists_mem_of_pos (I.sound.table v hv)
    simp only [hvn]
    refine ⟨_, rfl, I.sound.incref hvn, fun j k hj => ?_, I.closed, ?_, I.lost⟩
    · refine (I.threads j k hj).mono (fun _ _ h => h) (fun _ h => h) fun w hw _ => ?_
      have := ((I.closed w).1 hw).2
      grind
    · intro w hw
      have := I.held w
      grind
  · cases kmalloc with
    | false => exact ⟨s, rfl, I⟩
    | true =>
      refine ⟨_, rfl, I.sound.add _, fun j k hj => ?_, fun w => ?_, ?_, ?_⟩
      · refine (I.threads j k hj).mono (fun _ _ h => List.mem_append_left _ h) (fun _ h => h) fun w hw _ => ?_
        have := ((I.closed w).1 hw).1
        grind
      · have := I.closed w
        have := I.sound.lt_next (v := w)
        have hnext : (s.pool.add (vnodeInit ⟨handle⟩)).next = s.pool.next + 1 := rfl
        grind
      · intro w hw
        have := I.held w
        grind
      · intro w hw
        exact List.mem_append_left _ (I.lost w hw)

theorem Inv.decref (hi : s.pool.threads[i]? = some .idle) (hv : v ∈ s.pool.held) :
    ∃ p, s.pool.decref i v (.reclaim v) = .ok p ∧ Inv tr { s with pool := p } := by
  obtain ⟨p, hp, S, hnext, hvnodes, hheld, hcount, hthreads⟩ :=
    I.sound.decref hi rfl (show EmuPc.owes (.reclaim v) = some v from rfl) hv
  have hothers (j : Nat) (k : EmuPc) (hj : s.pool.threads[j]? = some k) : ({ s with pool := p } : EmufsFs).Ok k := by
    refine (I.threads j k hj).mono (fun _ _ h => hvnodes ▸ h) (fun _ h => h) fun w hw _ => hcount w ?_
    rintro rfl
    exact ((I.closed w).1 hw).2 (I.held w hv)
  refine ⟨p, hp, S, ?_, fun w => by rw [hnext, hvnodes]; exact I.closed w, fun w hw => ?_,
    fun w hw => hvnodes ▸ I.lost w hw⟩
  · cases hthreads with
    | inl h => exact fun j k hj => hothers j k (h ▸ hj)
    | inr h => exact ok_set h (show v ∈ p.vnodes from hvnodes ▸ I.held v hv) fun j k _ hj => hothers j k hj
  · exact hvnodes ▸ I.held w (List.mem_of_mem_erase (hheld ▸ hw))

/-- A reclaim that returns an error leaves its reference counted. -/
theorem Inv.fail {e : EmuEvent} {err : Errno} (hi : s.pool.threads[i]? = some (.reclaim v)) :
    Inv ((e, some (v, err)) :: tr) { s with pool := s.pool.goto i .idle } := by
  refine ⟨I.sound.lose hi rfl rfl fun a => ?_, ?_, I.closed, I.held, fun w hw => ?_⟩
  · have : failed ((e, some (v, err)) :: tr) = v :: failed tr := rfl
    grind
  · exact ok_set rfl trivial fun j k _ hj =>
      (I.threads j k hj).mono (fun _ _ h => h) (fun _ h => h) fun _ _ _ => rfl
  · obtain rfl | hw := List.mem_cons.1 hw
    · exact I.threads i _ hi
    · exact I.lost w hw

theorem Inv.remove (hi : s.pool.threads[i]? = some (.reclaim v)) (h1 : s.pool.refcount v = 1) :
    ∃ ix, s.pool.vnodes.idxOf? v = some ix ∧ Inv tr ⟨(s.pool.remove ix).goto i (.kill v), v :: s.closed⟩ := by
  have hv : v ∈ s.pool.vnodes := I.threads i _ hi
  obtain ⟨ix, hix⟩ := Option.isSome_iff_exists.1 (List.isSome_idxOf?.2 hv)
  have herase : s.pool.vnodes.eraseIdx ix = s.pool.vnodes.erase v := by
    rw [List.erase_eq_eraseIdx, hix]
  have hmem (w : Nat) : w ∈ s.pool.vnodes.eraseIdx ix ↔ w ≠ v ∧ w ∈ s.pool.vnodes := by
    rw [herase]
    exact I.sound.nodup.mem_erase_iff
  obtain ⟨hheld, hlost⟩ := I.sound.alone hi rfl h1
  refine ⟨ix, hix, (I.sound.remove ix).goto hi rfl, ?_, fun w => ?_, fun w hw => ?_, fun w hw => ?_⟩
  · refine ok_set rfl ⟨List.mem_cons_self, h1⟩ fun j k hj hk => ?_
    refine (I.threads j k hk).mono (fun w hkw hw => ?_) (fun _ h => List.mem_cons_of_mem _ h) fun _ _ _ => rfl
    -- no other thread reclaims this vnode
    refine (hmem w).2 ⟨fun hwv => hj ?_, hw⟩
    subst hkw hwv
    exact eq_of_owed_le_one (I.sound.single w) hk hi rfl rfl
  · have := I.closed w
    have := I.sound.lt_next hv
    rw [List.mem_cons]
    show _ ↔ w < s.pool.next ∧ w ∉ s.pool.vnodes.eraseIdx ix
    grind
  · have hw : w ∈ s.pool.held := hw
    exact (hmem w).2 ⟨by grind, I.held w hw⟩
  · exact (hmem w).2 ⟨by grind, I.lost w hw⟩

theorem Inv.kill (hi : s.pool.threads[i]? = some (.kill v)) : ∃ t, emufsKill s i v = .ok (none, t) ∧ Inv tr t := by
  obtain ⟨hclosed, h1⟩ := I.threads i _ hi
  obtain ⟨vn, hvn⟩ := Pool.exists_mem_of_pos (h1 ▸ Nat.one_pos : 0 < s.pool.refcount v)
  have hcount := Pool.refcount_of_mem hvn
  have hkill : vnodeKill vn = .ok { vn with vnRefcount := 0, vnOpencount := 0 } := by
    simp [vnodeKill, I.sound.opencount v vn hvn, ← hcount, h1]
  have howes : EmuPc.owes (.free v) = none := rfl
  have S := I.sound.kill hi rfl howes hvn ((I.closed v).1 hclosed).2 hkill
  simp only [emufsKill, hvn, hkill]
  refine ⟨_, rfl, S, ?_, I.closed, I.held, I.lost⟩
  refine ok_set rfl ⟨hclosed, by simp⟩ fun j k hj hk => ?_
  refine (I.threads j k hk).mono (fun _ _ h => h) (fun _ h => h) fun w hw hkw => ?_
  have hne : w ≠ v := by
    rintro rfl
    cases hkw with
    | inl hkw => exact hj (eq_of_owed_le_one (I.sound.single w) hk hi (hkw ▸ rfl) rfl)
    | inr hkw =>
      have : s.pool.refcount w = 0 := by
        have := I.threads j k hk
        rw [hkw] at this
        exact this.2
      omega
  simp [hne]

theorem Inv.free (hi : s.pool.threads[i]? = some (.free v)) :
    Inv tr { s with pool := (s.pool.free v).goto i .idle } := by
  obtain ⟨hclosed, h0⟩ := I.threads i _ hi
  have S := I.sound.free h0 ((I.closed v).1 hclosed).2
  refine ⟨S.goto hi rfl, ?_, I.closed, I.held, I.lost⟩
  refine ok_set rfl trivial fun j k hj hk => ?_
  refine (I.threads j k hk).mono (fun _ _ h => h) (fun _ h => h) fun w hw hkw => ?_
  grind

theorem Inv.reclaim {e : EmuEvent} {hw : Nat → Nat} (hi : s.pool.threads[i]? = some (.reclaim v)) :
    emufsReclaim s i v hw = .error .fatalResult ∨ ∃ l t, emufsReclaim s i v hw = .ok (l, t) ∧ Inv ((e, l) :: tr) t := by
  obtain ⟨vn, hvn⟩ := I.sound.mem_of_owes hi rfl
  unfold emufsReclaim
  simp only [hvn]
  split
  · exact .inr ⟨_, _, rfl, I.fail hi⟩
  next h1 =>
  split
  · next p hp => exact .inl (congrArg _ (emuCloseLoop_error hp))
  · exact .inr ⟨_, _, rfl, I.fail hi⟩
  · obtain ⟨ix, hix, I'⟩ := I.remove hi ((Pool.refcount_of_mem hvn).trans (not_not.1 h1))
    simp only [hix]
    exact .inr ⟨_, _, rfl, I'.cons_none e⟩

/-- The hardware may report a fatal error; nothing else stops the machine. -/
theorem Inv.next {e : EmuEvent} {r : Except EmuPanic (EmuReport × EmufsFs)} (h : s.next e = some r) :
    r = .error .fatalResult ∨ ∃ l t, r = .ok (l, t) ∧ Inv ((e, l) :: tr) t := by
  cases e with
  | load i handle kmalloc =>
    simp only [EmufsFs.next] at h
    split at h
    · obtain ⟨t, ht, I'⟩ := I.loadvnode handle kmalloc
      rw [ht] at h
      exact .inr ⟨_, t, (Option.some.inj h).symm, I'.cons_none _⟩
    · exact nomatch h
  | decref i v =>
    simp only [EmufsFs.next] at h
    split at h
    · next hi =>
      split at h
      · next hv =>
        obtain ⟨p, hp, I'⟩ := I.decref hi hv
        rw [hp] at h
        exact .inr ⟨_, _, (Option.some.inj h).symm, I'.cons_none _⟩
      · exact nomatch h
    · exact nomatch h
  | run i hw =>
    simp only [EmufsFs.next] at h
    split at h
    · next hi => exact Option.some.inj h ▸ I.reclaim hi
    · next hi =>
      obtain ⟨t, ht, I'⟩ := I.kill hi
      rw [ht] at h
      exact .inr ⟨_, t, (Option.some.inj h).symm, I'.cons_none _⟩
    · next hi => exact .inr ⟨_, _, (Option.some.inj h).symm, (I.free hi).cons_none _⟩
    · exact nomatch h

end Steps

theorem inv_of_run {s₀ : EmufsFs} (h₀ : s₀.Initial) (h : Run EmuStep s₀ tr s) : Inv tr s := by
  refine h.history (I := Inv) h₀.inv ?_
  intro tr t l u I step
  obtain hr | ⟨l', t', hr, I'⟩ := I.next step
  · exact nomatch hr
  · simp only [Except.ok.injEq, Prod.mk.injEq] at hr
    obtain ⟨rfl, rfl⟩ := hr
    exact I'

/-! ## When the counts are exact -/

section Exact

variable (I : Inv tr s)
include I

theorem Inv.count_eq (quiet : s.Quiet) (v : Nat) :
    s.pool.refcount v = s.pool.held.count v + (Vnodes.failed tr).count v := by
  have howed : owed EmuPc.owes s.pool.threads v = 0 := by
    refine List.countP_eq_zero.2 fun k hk => ?_
    simp [quiet k hk, EmuPc.owes]
  have := I.sound.balanced v
  omega

/-- The next step of a thread that reclaims a vnode with no other references removes it. -/
theorem Inv.removes (hi : s.pool.threads[i]? = some (.reclaim v)) (h1 : s.pool.refcount v = 1)
    {hw : Nat → Nat} (hclose : emuClose hw = .ok none) :
    ∃ t, EmuStep s (.run i hw, none) t ∧ v ∉ t.pool.vnodes ∧ v ∈ t.closed := by
  obtain ⟨vn, hvn⟩ := I.sound.mem_of_owes hi rfl
  obtain ⟨ix, hix, I'⟩ := I.remove hi h1
  refine ⟨_, ?_, ((I'.closed v).1 List.mem_cons_self).2, List.mem_cons_self⟩
  have hcount : vn.vnRefcount = 1 := (Pool.refcount_of_mem hvn).symm.trans h1
  simp only [EmuStep, EmufsFs.next, hi, emufsReclaim, hvn, hcount, ne_eq, not_true_eq_false, if_false, hclose, hix]

end Exact

/-- The steps that return an error are the refused reclaims. -/
theorem reports_iff {l : EmuEvent × EmuReport} (h : EmuStep s l t) :
    (∃ e, l.2 = some (v, e)) ↔ s.Refuses v l.1 := by
  obtain ⟨event, report⟩ := l
  cases event with
  | load i handle kmalloc =>
    simp only [EmuStep, EmufsFs.next, emufsLoadvnode] at h
    grind [EmufsFs.Refuses]
  | decref i w =>
    simp only [EmuStep, EmufsFs.next] at h
    grind [EmufsFs.Refuses]
  | run i hw =>
    simp only [EmuStep, EmufsFs.next, emufsReclaim, emufsKill] at h
    grind [EmufsFs.Refuses, Pool.refcount]

theorem run_sparing_iff {s₀ : EmufsFs} (h : Run EmuStep s₀ tr s) :
    Run (SparingStep v) s₀ tr s ↔ v ∉ failed tr := by
  have hcons (l : EmuEvent × EmuReport) (tr : List (EmuEvent × EmuReport)) :
      v ∉ failed (l :: tr) ↔ (¬∃ e, l.2 = some (v, e)) ∧ v ∉ failed tr := by
    obtain ⟨event, _ | ⟨w, e⟩⟩ := l <;> grind [failed]
  constructor
  · intro hrun
    induction hrun with
    | start => simp [failed]
    | step run hstep ih =>
      exact (hcons _ _).2 ⟨fun he => hstep.2 ((reports_iff hstep.1).1 he), ih (run.mono And.left)⟩
  · intro hv
    induction h with
    | start => exact .start
    | step run hstep ih =>
      obtain ⟨hl, htr⟩ := (hcons _ _).1 hv
      exact (ih htr).step ⟨hstep, fun hr => hl ((reports_iff hstep).2 hr)⟩

/-- The count of a vnode is the number of references to it, whenever no thread is inside
`vnode_decref`, exactly if no reclaim of this vnode was refused. Then the vnode goes with its last
reference: without references it is gone and its handle closed, or a thread is about to do that. -/
theorem refcount_exact_iff {s₀ : EmufsFs} (h₀ : s₀.Initial) (h : Run EmuStep s₀ tr s) :
    (s.Quiet → ∀ v ∈ s.pool.vnodes, ∃ vn, s.pool.mem v = some vn ∧
      (vn.vnRefcount = s.pool.held.count v ↔ Run (SparingStep v) s₀ tr s)) ∧
    ∀ v < s.pool.next, s.pool.held.count v = 0 →
      (Run (SparingStep v) s₀ tr s ↔ (v ∉ s.pool.vnodes ∧ v ∈ s.closed) ∨
        ∃ i : Nat, s.pool.threads[i]? = some (.reclaim v) ∧ ∀ hw, emuClose hw = .ok none →
          ∃ t, EmuStep s (.run i hw, none) t ∧ v ∉ t.pool.vnodes ∧ v ∈ t.closed) := by
  have I := inv_of_run h₀ h
  have hfailed (v : Nat) : Run (SparingStep v) s₀ tr s ↔ (failed tr).count v = 0 :=
    (run_sparing_iff h).trans List.count_eq_zero.symm
  refine ⟨fun quiet v hv => ?_, fun v hlt hheld => ?_⟩
  · obtain ⟨vn, hvn⟩ := Pool.exists_mem_of_pos (I.sound.table v hv)
    refine ⟨vn, hvn, ?_⟩
    rw [hfailed, ← Pool.refcount_of_mem hvn, I.count_eq quiet]
    omega
  have hbal := I.sound.balanced v
  constructor
  · intro hf
    by_cases hv : v ∈ s.pool.vnodes
    · right
      have hpos := I.sound.table v hv
      have hzero := (hfailed v).1 hf
      obtain ⟨i, k, hi, hk⟩ := exists_of_owed_pos (by omega : 0 < owed EmuPc.owes s.pool.threads v)
      have hone := I.sound.single v
      have hok := I.threads i k hi
      cases k with
      | idle | free w => exact nomatch hk
      | kill w =>
        obtain rfl : w = v := Option.some.inj hk
        exact absurd hv ((I.closed w).1 hok.1).2
      | reclaim w =>
        obtain rfl : w = v := Option.some.inj hk
        exact ⟨i, hi, fun hw hclose => I.removes hi (by omega) hclose⟩
    · exact .inl ⟨hv, (I.closed v).2 ⟨hlt, hv⟩⟩
  · intro hgone
    rw [run_sparing_iff h]
    intro hf
    rcases hgone with ⟨hv, -⟩ | ⟨i, hi, hnext⟩
    · exact hv (I.lost v hf)
    · -- a lost reference keeps the count above one
      obtain ⟨t, hstep, hnot, -⟩ := hnext (fun _ => 1) rfl
      have h1 : s.pool.refcount v ≠ 1 := by
        have : 0 < owed EmuPc.owes s.pool.threads v := owed_pos hi rfl
        have := List.count_pos_iff.2 hf
        omega
      obtain ⟨vn, hvn⟩ := I.sound.mem_of_owes hi rfl
      rw [Pool.refcount_of_mem hvn] at h1
      simp [EmuStep, EmufsFs.next, hi, emufsReclaim, hvn, h1] at hstep

end EmufsFs

/-! ## A lookup between the decision and the reclaim -/

def sampleEmufs : EmufsFs := ⟨⟨fun _ => none, 0, [], [], [.idle, .idle]⟩, []⟩

theorem initial_sampleEmufs : sampleEmufs.Initial :=
  ⟨fun _ => rfl, rfl, rfl, rfl, by decide, rfl⟩

def EmufsFs.replay (s : EmufsFs) (e : EmuEvent) : Option ((EmuEvent × EmuReport) × EmufsFs) :=
  match s.next e with
  | some (.ok (l, t)) => some ((e, l), t)
  | _ => none

theorem EmufsFs.replay_sound {s : EmufsFs} {e : EmuEvent} {l : EmuEvent × EmuReport} {t : EmufsFs}
    (h : s.replay e = some (l, t)) : EmuStep s l t := by
  unfold EmufsFs.replay at h
  split at h
  · next hnext =>
    simp only [Option.some.injEq, Prod.mk.injEq] at h
    obtain ⟨rfl, rfl⟩ := h
    exact hnext
  · exact nomatch h

/-- The first thread loads a vnode and drops it; before it reclaims it the second one looks it up,
and drops it later. Nobody refers to the vnode, no thread is inside `vnode_decref`, and the vnode
stays with a count of one. -/
theorem emufsReclaim_busy : ∃ tr s, Run EmuStep sampleEmufs tr s ∧
    tr.map Prod.snd = [none, some (0, .ebusy), none, none, none] ∧ s.Quiet ∧ s.pool.held = [] ∧
    s.pool.vnodes = [0] ∧ s.pool.refcount 0 = 1 ∧ s.closed = [] := by
  have hreplay : replays EmufsFs.replay
      [.load 0 7 true, .decref 0 0, .load 1 7 true, .run 0 fun _ => 1, .decref 1 0] sampleEmufs
      (fun tr s => tr.map Prod.snd = [none, some (0, .ebusy), none, none, none] ∧ s.pool.held = [] ∧
        s.pool.threads = [.idle, .idle] ∧
        s.pool.vnodes = [0] ∧ s.pool.refcount 0 = 1 ∧ s.closed = []) = true := by decide
  obtain ⟨tr, s, hrun, htest⟩ := Run.of_replays @EmufsFs.replay_sound hreplay
  obtain ⟨htr, hheld, hthreads, hrest⟩ := of_decide_eq_true htest
  refine ⟨tr, s, hrun, htr, ?_, hheld, hrest⟩
  simp [EmufsFs.Quiet, hthreads]

/-- Without the lookup the vnode is removed and its handle closed. -/
theorem refcount_exact_iff_sample : ∃ tr s, Run EmuStep sampleEmufs tr s ∧ s.pool.next = 1 ∧ s.closed = [0] ∧
    ((s.Quiet → ∀ v ∈ s.pool.vnodes, ∃ vn, s.pool.mem v = some vn ∧
      (vn.vnRefcount = s.pool.held.count v ↔ Run (SparingStep v) sampleEmufs tr s)) ∧
    ∀ v < s.pool.next, s.pool.held.count v = 0 →
      (Run (SparingStep v) sampleEmufs tr s ↔ (v ∉ s.pool.vnodes ∧ v ∈ s.closed) ∨
        ∃ i : Nat, s.pool.threads[i]? = some (.reclaim v) ∧ ∀ hw, emuClose hw = .ok none →
          ∃ t, EmuStep s (.run i hw, none) t ∧ v ∉ t.pool.vnodes ∧ v ∈ t.closed)) := by
  have hreplay : replays EmufsFs.replay
      [.load 0 7 true, .decref 0 0, .run 0 fun _ => 1, .run 0 fun _ => 1, .run 0 fun _ => 1] sampleEmufs
      (fun _ s => s.pool.next = 1 ∧ s.closed = [0]) = true := by decide
  obtain ⟨tr, s, hrun, htest⟩ := Run.of_replays @EmufsFs.replay_sound hreplay
  obtain ⟨hnext, hclosed⟩ := of_decide_eq_true htest
  exact ⟨tr, s, hrun, hnext, hclosed, EmufsFs.refcount_exact_iff initial_sampleEmufs hrun⟩

end Os161.Vnodes
