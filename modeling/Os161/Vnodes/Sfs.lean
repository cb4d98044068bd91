import Os161.Sfs.Fs
import Os161.Vnodes.Pool

/-!
# Lookups and reclaims of SFS vnodes

`sfs_loadvnode` and `vnode_decref` as several threads run them. Only the reference count has a lock:
a thread may lose the processor between any two accesses to the table, and while it waits for the
disk. `sfs_reclaim` looks at the count first and takes the vnode out of the table after disk
transfers; in the meantime a lookup may find the vnode.
-/
namespace Os161.Vnodes

open Lib Kern Sfs

/-! ## The threads -/

structure SfsNode where
  vnOps : VnodeOps
  svIno : Nat
  sfiLinkcount : Half
  svDirty : Bool

/-- Where a thread is: outside, in `sfs_loadvnode`, or in `vnode_decref` and the `sfs_reclaim` it
calls. -/
inductive SfsPc where
  | idle
  | scan (ino : Nat) (forcetype : Half) (j num : Nat)
  | found (v : Nat)
  | load (ino : Nat) (forcetype : Half)
  | reclaim (v : Nat)
  | truncate (v : Nat)
  | sync (v : Nat)
  | discard (v : Nat)
  | seek (v j num : Nat)
  | remove (v ix : Nat)
  | kill (v : Nat)
  | free (v : Nat)
  deriving DecidableEq

structure SfsTable where
  pool : Pool SfsNode SfsPc
  sfsFreemap : Bitmap
  spNblocks : Nat

/-- What the disk answers (with an error, or the type and link count of the inode that is read), and
whether there is memory. -/
structure SfsAnswer where
  io : Except Errno (Half × Half)
  kmalloc : Bool

def SfsTable.goto (s : SfsTable) (i : Nat) (k : SfsPc) : SfsTable := { s with pool := s.pool.goto i k }

def SfsTable.sfsBused (s : SfsTable) (diskblock : Nat) : Except SfsPanic Bool :=
  if diskblock < s.spNblocks then .ok (bitmapIsset s.sfsFreemap diskblock) else .error .busedRange

def SfsPanic.ofVnode : VnodePanic → SfsPanic
  | .decrefRefcount => .decrefRefcount
  | .killRefcount => .killRefcount
  | .killOpencount => .killOpencount
  | .badPointer => .badPointer

namespace SfsTable

variable (s : SfsTable) (i : Nat) (a : SfsAnswer)

/-- The vnode at an address, if its memory has not been freed. -/
def vnode (v : Nat) (f : Vnode SfsNode → Except SfsPanic SfsTable) : Except SfsPanic SfsTable :=
  match s.pool.mem v with
  | none => .error .badPointer
  | some vn => f vn

/-! ### `sfs_loadvnode` -/

/-- One round of the search. -/
def loadvnodeScan (ino : Nat) (forcetype : Half) (j num : Nat) : Except SfsPanic SfsTable :=
  if j < num then
    match s.pool.vnodes[j]? with
    | none => .error .arrayIndex
    | some v => s.vnode v fun vn =>
      match s.sfsBused vn.vnData.svIno with
      | .error p => .error p
      | .ok false => .error .inodeUnallocated
      | .ok true =>
        if vn.vnData.svIno = ino then
          if forcetype = sfsTypeInval then .ok (s.goto i (.found v)) else .error .loadForcetype
        else .ok (s.goto i (.scan ino forcetype (j + 1) num))
  else if a.kmalloc then
    match s.sfsBused ino with
    | .error p => .error p
    | .ok false => .error .loadUnallocated
    | .ok true => .ok (s.goto i (.load ino forcetype))
  else .ok (s.goto i .idle)

/-- `VOP_INCREF`, after which the vnode is returned. -/
def loadvnodeIncref (v : Nat) : Except SfsPanic SfsTable :=
  s.vnode v fun vn => .ok { s with pool := ((s.pool.write v (vnodeIncref vn)).take v).goto i .idle }

def ops (type : Half) : Except SfsPanic VnodeOps :=
  if type = sfsTypeFile then .ok .fileops
  else if type = sfsTypeDir then .ok .dirops
  else .error .loadInvalidType

/-- The inode has been read. -/
def loadvnodeFresh (ino : Nat) (forcetype : Half) : Except SfsPanic SfsTable :=
  match a.io with
  | .error _ => .ok (s.goto i .idle)
  | .ok (type, linkcount) =>
    if forcetype ≠ sfsTypeInval ∧ type ≠ sfsTypeInval then .error .loadTypeSet
    else
      match ops (if forcetype = sfsTypeInval then type else forcetype) with
      | .error p => .error p
      | .ok vnOps =>
        if a.kmalloc then
          let vn := vnodeInit ⟨vnOps, ino, linkcount, forcetype ≠ sfsTypeInval⟩
          .ok { s with pool := (s.pool.add vn).goto i .idle }
        else .ok (s.goto i .idle)

/-! ### `sfs_reclaim` -/

/-- The section that looks at the count. -/
def reclaimCheck (v : Nat) : Except SfsPanic SfsTable :=
  s.vnode v fun vn =>
    if vn.vnRefcount ≠ 1 then
      if 1 < vn.vnRefcount then
        -- consume the reference VOP_DECREF gave us
        let vn' := { vn with vnRefcount := vn.vnRefcount - 1 }
        .ok { s with pool := (s.pool.write v vn').goto i .idle }
      else .error .reclaimRefcount
    else .ok (s.goto i (if vn.vnData.sfiLinkcount = 0 then .truncate v else .sync v))

/-- `VOP_TRUNCATE`; what it does to the blocks of the file is left out. -/
def reclaimTruncate (v : Nat) : Except SfsPanic SfsTable :=
  s.vnode v fun vn =>
    match vn.vnData.vnOps, a.io with
    | .fileops, .ok _ =>
      let vn' := { vn with vnData := { vn.vnData with svDirty := true } }
      .ok { s with pool := (s.pool.write v vn').goto i (.sync v) }
    | _, _ => .ok (s.goto i .idle)

/-- `sfs_sync_inode`. -/
def reclaimSync (v : Nat) : Except SfsPanic SfsTable :=
  s.vnode v fun vn =>
    if vn.vnData.svDirty then
      match a.io with
      | .error _ => .ok (s.goto i .idle)
      | .ok _ =>
        let vn' := { vn with vnData := { vn.vnData with svDirty := false } }
        .ok { s with pool := (s.pool.write v vn').goto i (.discard v) }
    else .ok (s.goto i (.discard v))

/-- Free the inode's block if nothing on the disk refers to it, and start the search of the table.
-/
def reclaimBfree (v : Nat) : Except SfsPanic SfsTable :=
  s.vnode v fun vn =>
    let k := SfsPc.seek v 0 s.pool.vnodes.length
    if vn.vnData.sfiLinkcount = 0 then
      match bitmapUnmark vn.vnData.svIno s.sfsFreemap with
      | .error p => .error (.bitmap p)
      | .ok (_, freemap) => .ok { s.goto i k with sfsFreemap := freemap }
    else .ok (s.goto i k)

def reclaimSearch (v j num : Nat) : Except SfsPanic SfsTable :=
  if j < num then
    match s.pool.vnodes[j]? with
    | none => .error .arrayIndex
    | some w => .ok (s.goto i (if w = v then .remove v j else .seek v (j + 1) num))
  else .error .reclaimNotInPool

/-- `array_remove`. -/
def reclaimRemove (v ix : Nat) : Except SfsPanic SfsTable :=
  if ix < s.pool.vnodes.length then .ok { s with pool := (s.pool.remove ix).goto i (.kill v) }
  else .error .arrayIndex

def reclaimKill (v : Nat) : Except SfsPanic SfsTable :=
  s.vnode v fun vn =>
    match vnodeKill vn with
    | .error p => .error (SfsPanic.ofVnode p)
    | .ok vn' => .ok { s with pool := (s.pool.write v vn').goto i (.free v) }

def reclaimFree (v : Nat) : SfsTable := { s with pool := (s.pool.free v).goto i .idle }

end SfsTable

/-! ## Interleavings -/

/-- A thread outside looks up an inode or drops a reference, and a thread inside goes on. While a
vnode is held, its link count may change. -/
inductive SfsAction where
  | lookup (i ino : Nat) (forcetype : Half)
  | decref (i v : Nat)
  | touch (v : Nat) (linkcount : Half)
  | run (i : Nat) (a : SfsAnswer)

namespace SfsTable

def resume (s : SfsTable) (i : Nat) (a : SfsAnswer) : SfsPc → Option (Except SfsPanic SfsTable)
  | .idle => none
  | .scan ino forcetype j num => some (s.loadvnodeScan i a ino forcetype j num)
  | .found v => some (s.loadvnodeIncref i v)
  | .load ino forcetype => some (s.loadvnodeFresh i a ino forcetype)
  | .reclaim v => some (s.reclaimCheck i v)
  | .truncate v => some (s.reclaimTruncate i a v)
  | .sync v => some (s.reclaimSync i a v)
  | .discard v => some (s.reclaimBfree i v)
  | .seek v j num => some (s.reclaimSearch i v j num)
  | .remove v ix => some (s.reclaimRemove i v ix)
  | .kill v => some (s.reclaimKill i v)
  | .free v => some (.ok (s.reclaimFree i v))

def next (s : SfsTable) : SfsAction → Option (Except SfsPanic SfsTable)
  | .lookup i ino forcetype =>
    if s.pool.threads[i]? = some .idle then
      some (.ok (s.goto i (.scan ino forcetype 0 s.pool.vnodes.length)))
    else none
  | .decref i v =>
    if s.pool.threads[i]? = some .idle ∧ v ∈ s.pool.held then
      match s.pool.decref i v (.reclaim v) with
      | .error p => some (.error (SfsPanic.ofVnode p))
      | .ok p => some (.ok { s with pool := p })
    else none
  | .touch v linkcount =>
    if v ∈ s.pool.held then
      some (s.vnode v fun vn =>
        let vn' := { vn with vnData := { vn.vnData with sfiLinkcount := linkcount, svDirty := true } }
        .ok { s with pool := s.pool.write v vn' })
    else none
  | .run i a => (s.pool.threads[i]?).bind (s.resume i a)

end SfsTable

def ReclaimStep (s : SfsTable) (e : SfsAction) (t : SfsTable) : Prop := s.next e = some (.ok t)

/-! ## Overlaps -/

namespace SfsPc

/-- The vnode whose last reference a thread has been given. -/
def owes : SfsPc → Option Nat
  | .reclaim v | .truncate v | .sync v | .discard v | .seek v _ _ | .remove v _ | .kill v => some v
  | _ => none

/-- The vnode that a thread reclaims after it has looked at the count and before it has taken it out
of the table. -/
def erases : SfsPc → Option Nat
  | .truncate v | .sync v | .discard v | .seek v _ _ | .remove v _ => some v
  | _ => none

/-- The vnode that a thread reclaims after it has looked at the count. -/
def reclaims : SfsPc → Option Nat
  | .kill v | .free v => some v
  | k => k.erases

end SfsPc

/-- The vnode that a round of the search finds. -/
def SfsTable.finds (s : SfsTable) (ino j num : Nat) : Option Nat :=
  if j < num then
    (s.pool.vnodes[j]?).filter fun v => (s.pool.mem v).any fun vn => vn.vnData.svIno = ino
  else none

/-- The next step of a thread makes no lookup and reclaim of one vnode overlap: no lookup finds a
vnode that is being erased, no reclaim starts to erase a vnode that a lookup has found and not
counted yet, and the entry that a reclaim removes from the table is still its own. -/
def SfsTable.ApartPc (s : SfsTable) : SfsPc → Prop
  | .scan ino _ j num => ∀ v ∈ s.finds ino j num, ∀ k ∈ s.pool.threads, k.erases ≠ some v
  | .reclaim v => s.pool.refcount v = 1 → .found v ∉ s.pool.threads
  | .remove v ix => s.pool.vnodes[ix]? = some v
  | _ => True

def SfsTable.Apart (s : SfsTable) : SfsAction → Prop
  | .run i _ => ∀ k ∈ s.pool.threads[i]?, s.ApartPc k
  | _ => True

instance (s : SfsTable) : DecidablePred s.ApartPc
  | .scan ino _ j num =>
    inferInstanceAs (Decidable (∀ v ∈ s.finds ino j num, ∀ k ∈ s.pool.threads, k.erases ≠ some v))
  | .reclaim v => inferInstanceAs (Decidable (s.pool.refcount v = 1 → .found v ∉ s.pool.threads))
  | .remove v ix => inferInstanceAs (Decidable (s.pool.vnodes[ix]? = some v))
  | .idle | .found _ | .load _ _ | .truncate _ | .sync _ | .discard _ | .seek _ _ _ | .kill _ | .free _ =>
    isTrue trivial

instance (s : SfsTable) : DecidablePred s.Apart
  | .run i _ => inferInstanceAs (Decidable (∀ k ∈ s.pool.threads[i]?, s.ApartPc k))
  | .lookup _ _ _ | .decref _ _ | .touch _ _ => isTrue trivial

def ApartStep (s : SfsTable) (e : SfsAction) (t : SfsTable) : Prop := s.Apart e ∧ ReclaimStep s e t

/-! ## The invariant -/

variable {p : SfsPanic} {apart : Prop}

namespace SfsTable

variable {s t : SfsTable} {i v w : Nat} {k k' : SfsPc} {a : SfsAnswer}

def Ok (s : SfsTable) (k : SfsPc) : Prop :=
  (∀ v, k = .found v → v ∈ s.pool.vnodes) ∧
  (∀ v, k.erases = some v → s.pool.refcount v = 1 ∧ .found v ∉ s.pool.threads) ∧
  (∀ v, k = .kill v → s.pool.refcount v = 1 ∧ v ∉ s.pool.vnodes) ∧
  ∀ v, k = .free v → s.pool.refcount v = 0 ∧ v ∉ s.pool.vnodes ∧ v < s.pool.next

structure Inv (s : SfsTable) : Prop where
  sound : ∃ lost, s.pool.Sound SfsPc.owes lost
  threads : ∀ (j : Nat) (k : SfsPc), s.pool.threads[j]? = some k → s.Ok k

/-- The errors of the counts, and of accesses to vnodes that have been freed. -/
def OfCounts (p : SfsPanic) : Prop :=
  p = .killRefcount ∨ p = .killOpencount ∨ p = .decrefRefcount ∨ p = .reclaimRefcount ∨ p = .badPointer

/-- A step is fine if it keeps the invariant when it makes nothing overlap, and if it stops for
other reasons than the counts. -/
def Fine (apart : Prop) : Except SfsPanic SfsTable → Prop
  | .error p => ¬ OfCounts p
  | .ok t => apart → t.Inv

theorem erases_reclaims (h : k.erases = some v) : k.reclaims = some v := by
  cases k <;> first | exact h | exact nomatch h

theorem erases_owes (h : k.erases = some v) : k.owes = some v := by
  cases k <;> first | exact h | exact nomatch h

section Steps

variable (I : s.Inv)
include I

theorem Inv.vnodes_of_found (h : .found v ∈ s.pool.threads) : v ∈ s.pool.vnodes := by
  obtain ⟨j, hj⟩ := List.getElem?_of_mem h
  exact (I.threads j _ hj).1 v rfl

/-- A vnode that a thread reclaims has the thread's own reference only. -/
theorem Inv.unused (hi : s.pool.threads[i]? = some k) (h : k.reclaims = some v) :
    s.pool.held.count v = 0 ∧ .found v ∉ s.pool.threads ∧ v < s.pool.next ∧ s.pool.refcount v ≤ 1 := by
  obtain ⟨lost, S⟩ := I.sound
  have hlt (h : 0 < s.pool.refcount v) : v < s.pool.next := by
    obtain ⟨vn, hvn⟩ := Pool.exists_mem_of_pos h
    by_contra hge
    simp [S.beyond v (by omega)] at hvn
  obtain ⟨-, herase, hkill, hfree⟩ := I.threads i k hi
  cases k with
  | kill w =>
    obtain rfl : w = v := Option.some.inj h
    obtain ⟨h1, hv⟩ := hkill w rfl
    exact ⟨(S.alone hi rfl h1).1, fun hf => hv (I.vnodes_of_found hf), hlt (by omega), h1.le⟩
  | free w =>
    obtain rfl : w = v := Option.some.inj h
    obtain ⟨h0, hv, hw⟩ := hfree w rfl
    have := S.balanced w
    exact ⟨by omega, fun hf => hv (I.vnodes_of_found hf), hw, by omega⟩
  | truncate w | sync w | discard w | seek w | remove w =>
    obtain ⟨h1, hv⟩ := herase v h
    exact ⟨(S.alone hi (erases_owes h) h1).1, hv, hlt (by omega), h1.le⟩
  | _ => exact nomatch h

/-- One thread moves. The others keep what they rely on when the counts of the vnodes they reclaim
stay and those they have found are still in the table. -/
theorem Inv.move (hthreads : t.pool.threads = s.pool.threads.set i k')
    (sound : ∃ lost, t.pool.Sound SfsPc.owes lost) (hok : t.Ok k') (hnext : s.pool.next ≤ t.pool.next)
    (hnew : ∀ v, k' = .found v → ∀ k ∈ s.pool.threads, k.erases ≠ some v)
    (hfound : ∀ (j : Nat) (v : Nat), j ≠ i → s.pool.threads[j]? = some (.found v) → v ∈ t.pool.vnodes)
    (hvnodes : ∀ v ∈ t.pool.vnodes, v ∈ s.pool.vnodes ∨ s.pool.next ≤ v)
    (hcount : ∀ (j : Nat) (k : SfsPc) (v : Nat), j ≠ i → s.pool.threads[j]? = some k →
      k.reclaims = some v → t.pool.refcount v = s.pool.refcount v) : t.Inv := by
  refine ⟨sound, fun j k hj => ?_⟩
  rw [hthreads] at hj
  by_cases hij : j = i
  · subst hij
    rw [List.getElem?_set_self'] at hj
    obtain ⟨-, -, rfl⟩ := Option.map_eq_some_iff.1 hj
    exact hok
  rw [List.getElem?_set_ne (Ne.symm hij)] at hj
  obtain ⟨-, herase, hkill, hfree⟩ := I.threads j k hj
  have hgone (v : Nat) (hk : k.reclaims = some v) (hv : v ∉ s.pool.vnodes) : v ∉ t.pool.vnodes := by
    intro hv'
    have := (I.unused hj hk).2.2.1
    obtain h | h := hvnodes v hv'
    · exact hv h
    · omega
  refine ⟨fun v hk => hfound j v hij (hk ▸ hj), fun v hk => ?_, fun v hk => ?_, fun v hk => ?_⟩
  · obtain ⟨h1, hf⟩ := herase v hk
    refine ⟨(hcount j k v hij hj (erases_reclaims hk)).trans h1, fun hf' => ?_⟩
    rw [hthreads] at hf'
    obtain hf' | hf' := List.mem_or_eq_of_mem_set hf'
    · exact hf hf'
    · exact hnew v hf'.symm k (List.mem_of_getElem? hj) hk
  · obtain ⟨h1, hv⟩ := hkill v hk
    have hr : k.reclaims = some v := by rw [hk]; rfl
    exact ⟨(hcount j k v hij hj hr).trans h1, hgone v hr hv⟩
  · obtain ⟨h0, hv, hlt⟩ := hfree v hk
    have hr : k.reclaims = some v := by rw [hk]; rfl
    exact ⟨(hcount j k v hij hj hr).trans h0, hgone v hr hv, by omega⟩

theorem Inv.goto (sound : ∃ lost, (s.pool.goto i k').Sound SfsPc.owes lost)
    (hok : (s.goto i k').Ok k') (hnew : ∀ v, k' = .found v → ∀ k ∈ s.pool.threads, k.erases ≠ some v) :
    (s.goto i k').Inv :=
  I.move rfl sound hok (Nat.le_refl _) hnew
    (fun j v _ hj => (I.threads j _ hj).1 v rfl) (fun _ h => .inl h) fun _ _ _ _ _ _ => rfl

/-- A thread that owes nothing returns, or one that owes a decrement returns with an error. -/
theorem Inv.return (hi : s.pool.threads[i]? = some k) : (s.goto i .idle).Inv := by
  obtain ⟨lost, S⟩ := I.sound
  refine I.goto ?_ (by simp [Ok, SfsPc.erases]) nofun
  cases hd : k.owes with
  | none => exact ⟨lost, S.goto hi hd.symm⟩
  | some v => exact ⟨_, S.lose hi hd rfl fun a => rfl⟩

theorem Inv.proceed {p : Pool SfsNode SfsPc} {freemap : Bitmap} (hi : s.pool.threads[i]? = some k)
    (hk : k.erases = some v) (hk' : k'.erases = some v)
    (hsound : ∀ lost, s.pool.Sound SfsPc.owes lost → p.Sound SfsPc.owes lost)
    (hcount : ∀ w, p.refcount w = s.pool.refcount w) (hvnodes : p.vnodes = s.pool.vnodes)
    (hthreads : p.threads = s.pool.threads) (hnext : p.next = s.pool.next) :
    ({ s with pool := p.goto i k', sfsFreemap := freemap } : SfsTable).Inv := by
  obtain ⟨lost, S⟩ := I.sound
  obtain ⟨h1, hf⟩ := (I.threads i k hi).2.1 v hk
  have hset : (p.goto i k').threads = s.pool.threads.set i k' := by rw [← hthreads]; rfl
  have hne (w : Nat) : k' ≠ .found w := fun h => by simp [h, SfsPc.erases] at hk'
  refine I.move hset ⟨lost, (hsound lost S).goto (hthreads ▸ hi) ?_⟩ ⟨fun w h => absurd h (hne w),
    fun w hw => ?_, fun w h => by simp [h, SfsPc.erases] at hk', fun w h => by simp [h, SfsPc.erases] at hk'⟩
    hnext.ge (fun w h => absurd h (hne w)) (fun j w _ hj => ?_) (fun w hw => .inl (hvnodes ▸ hw))
    fun _ _ w _ _ _ => hcount w
  · rw [erases_owes hk, erases_owes hk']
  · obtain rfl : v = w := Option.some.inj (hk'.symm.trans hw)
    refine ⟨(hcount v).trans h1, fun hmem => ?_⟩
    rw [hset] at hmem
    obtain hmem | hmem := List.mem_or_eq_of_mem_set hmem
    · exact hf hmem
    · exact hne v hmem.symm
  · exact hvnodes ▸ (I.threads j _ hj).1 w rfl

omit I in
theorem fine_vnode {f : Vnode SfsNode → Except SfsPanic SfsTable}
    (h : ∃ vn, s.pool.mem v = some vn) (hf : ∀ vn, s.pool.mem v = some vn → Fine apart (f vn)) :
    Fine apart (s.vnode v f) := by
  obtain ⟨vn, hvn⟩ := h
  simp only [vnode, hvn]
  exact hf vn hvn

omit I in
theorem sfsBused_error {b : Nat} (h : s.sfsBused b = .error p) : ¬ OfCounts p := by
  unfold sfsBused at h
  split at h
  · exact nomatch h
  · cases h
    simp [OfCounts]

omit I in
theorem ops_error {type : Half} (h : ops type = .error p) : ¬ OfCounts p := by
  unfold ops at h
  split at h
  · exact nomatch h
  split at h
  · exact nomatch h
  · cases h
    simp [OfCounts]

/-! ### `sfs_loadvnode` -/

theorem Inv.lookup (hi : s.pool.threads[i]? = some .idle) (ino : Nat) (forcetype : Half) (num : Nat) :
    (s.goto i (.scan ino forcetype 0 num)).Inv := by
  obtain ⟨lost, S⟩ := I.sound
  exact I.goto ⟨lost, S.goto hi rfl⟩ (by simp [Ok, SfsPc.erases]) nofun

theorem Inv.scan {ino j num : Nat} {forcetype : Half} (hi : s.pool.threads[i]? = some (.scan ino forcetype j num)) :
    Fine (s.Apart (.run i a)) (s.loadvnodeScan i a ino forcetype j num) := by
  obtain ⟨lost, S⟩ := I.sound
  unfold loadvnodeScan
  split
  · next hj =>
    split
    · simp [Fine, OfCounts]
    next v hv =>
    have hmem : v ∈ s.pool.vnodes := List.mem_of_getElem? hv
    refine fine_vnode (Pool.exists_mem_of_pos (S.table v hmem)) fun vn hvn => ?_
    split
    · next hp => exact sfsBused_error hp
    · simp [Fine, OfCounts]
    split
    · next hino =>
      split
      · intro apart
        have hfinds : v ∈ s.finds ino j num := by simp [finds, hj, hv, hvn, hino]
        refine I.goto ⟨lost, S.goto hi rfl⟩ ?_ ?_
        · simp only [Ok, SfsPc.erases, SfsPc.found.injEq, reduceCtorEq, false_implies, implies_true, and_true]
          exact fun w hw => hw ▸ hmem
        · intro w hw
          obtain rfl : v = w := SfsPc.found.inj hw
          exact apart _ hi v hfinds
      · simp [Fine, OfCounts]
    · exact fun _ => I.goto ⟨lost, S.goto hi rfl⟩ (by simp [Ok, SfsPc.erases]) nofun
  · split
    · split
      · next hp => exact sfsBused_error hp
      · simp [Fine, OfCounts]
      · exact fun _ => I.goto ⟨lost, S.goto hi rfl⟩ (by simp [Ok, SfsPc.erases]) nofun
    · exact fun _ => I.return hi

theorem Inv.incref (hi : s.pool.threads[i]? = some (.found v)) : Fine apart (s.loadvnodeIncref i v) := by
  obtain ⟨lost, S⟩ := I.sound
  have hv : v ∈ s.pool.vnodes := (I.threads i _ hi).1 v rfl
  refine fine_vnode (Pool.exists_mem_of_pos (S.table v hv)) fun vn hvn _ => ?_
  have S' := S.incref hvn
  refine I.move rfl ⟨lost, S'.goto hi rfl⟩ (by simp [Ok, SfsPc.erases]) (Nat.le_refl _) nofun
    (fun j w _ hj => (I.threads j _ hj).1 w rfl) (fun _ h => .inl h) fun j k w _ hj hk => ?_
  -- a vnode that is being reclaimed has not been found
  have hne : w ≠ v := by
    rintro rfl
    exact (I.unused hj hk).2.1 (List.mem_of_getElem? hi)
  simp [hne]

theorem Inv.fresh {ino : Nat} {forcetype : Half} (hi : s.pool.threads[i]? = some (.load ino forcetype)) :
    Fine apart (s.loadvnodeFresh i a ino forcetype) := by
  obtain ⟨lost, S⟩ := I.sound
  unfold loadvnodeFresh
  split
  · exact fun _ => I.return hi
  split
  · simp [Fine, OfCounts]
  split
  · next hp => exact ops_error hp
  split
  · intro _
    refine I.move rfl ⟨lost, (S.add _).goto hi rfl⟩ (by simp [Ok, SfsPc.erases]) (Nat.le_succ _) nofun
      (fun j w _ hj => List.mem_append_left _ ((I.threads j _ hj).1 w rfl)) (fun w hw => ?_)
      fun j k w _ hj hk => ?_
    · obtain hw | hw := List.mem_append.1 hw
      · exact .inl hw
      · exact .inr (List.mem_singleton.1 hw).ge
    · have := (I.unused hj hk).2.2.1
      simp [show w ≠ s.pool.next by omega]
  · exact fun _ => I.return hi

/-! ### `sfs_reclaim` -/

theorem Inv.check (hi : s.pool.threads[i]? = some (.reclaim v)) : Fine (s.Apart (.run i a)) (s.reclaimCheck i v) := by
  obtain ⟨lost, S⟩ := I.sound
  refine fine_vnode (S.mem_of_owes hi rfl) fun vn hvn => ?_
  have hcount := Pool.refcount_of_mem hvn
  split
  · split
    · next h1 =>
      intro _
      refine I.move rfl ⟨lost, S.consume hi rfl rfl hvn h1⟩ (by simp [Ok, SfsPc.erases]) (Nat.le_refl _) nofun
        (fun j w _ hj => (I.threads j _ hj).1 w rfl) (fun _ h => .inl h) fun j k w _ hj hk => ?_
      have := (I.unused hj hk).2.2.2
      simp [show w ≠ v by rintro rfl; omega]
    · have : 0 < owed SfsPc.owes s.pool.threads v := owed_pos hi rfl
      have := S.balanced v
      omega
  · next h1 =>
    intro apart
    have h1 : s.pool.refcount v = 1 := hcount.trans (not_not.1 h1)
    obtain ⟨k', hk', herases, howes⟩ : ∃ k', (if vn.vnData.sfiLinkcount = 0 then SfsPc.truncate v else .sync v) = k' ∧
        k'.erases = some v ∧ k'.owes = some v := by
      split <;> exact ⟨_, rfl, rfl, rfl⟩
    rw [hk']
    have hne (w : Nat) : k' ≠ .found w := fun h => by simp [h, SfsPc.erases] at herases
    refine I.goto ⟨lost, S.goto hi howes⟩ ⟨fun w h => absurd h (hne w), fun w hw => ?_,
      fun w h => by simp [h, SfsPc.erases] at herases, fun w h => by simp [h, SfsPc.erases] at herases⟩
      fun w h => absurd h (hne w)
    obtain rfl : v = w := Option.some.inj (herases.symm.trans hw)
    refine ⟨h1, fun hmem => ?_⟩
    obtain hmem | hmem := List.mem_or_eq_of_mem_set hmem
    · exact apart _ hi h1 hmem
    · exact hne v hmem.symm

theorem Inv.truncate (hi : s.pool.threads[i]? = some (.truncate v)) :
    Fine apart (s.reclaimTruncate i a v) := by
  obtain ⟨lost, S⟩ := I.sound
  refine fine_vnode (S.mem_of_owes hi rfl) fun vn hvn => ?_
  have hcount := Pool.refcount_of_mem hvn
  split
  · exact fun _ => I.proceed hi rfl rfl (fun _ S => S.write hvn rfl rfl) (fun w => by grind) rfl rfl rfl
  · exact fun _ => I.return hi

theorem Inv.sync (hi : s.pool.threads[i]? = some (.sync v)) : Fine apart (s.reclaimSync i a v) := by
  obtain ⟨lost, S⟩ := I.sound
  refine fine_vnode (S.mem_of_owes hi rfl) fun vn hvn => ?_
  have hcount := Pool.refcount_of_mem hvn
  split
  · split
    · exact fun _ => I.return hi
    · exact fun _ => I.proceed hi rfl rfl (fun _ S => S.write hvn rfl rfl) (fun w => by grind) rfl rfl rfl
  · exact fun _ => I.proceed hi rfl rfl (fun _ S => S) (fun _ => rfl) rfl rfl rfl

theorem Inv.bfree (hi : s.pool.threads[i]? = some (.discard v)) : Fine apart (s.reclaimBfree i v) := by
  obtain ⟨lost, S⟩ := I.sound
  refine fine_vnode (S.mem_of_owes hi rfl) fun vn hvn => ?_
  dsimp only
  split
  · split
    · simp [Fine, OfCounts]
    · exact fun _ => I.proceed hi rfl rfl (fun _ S => S) (fun _ => rfl) rfl rfl rfl
  · exact fun _ => I.proceed hi rfl rfl (fun _ S => S) (fun _ => rfl) rfl rfl rfl

theorem Inv.search {j num : Nat} (hi : s.pool.threads[i]? = some (.seek v j num)) :
    Fine apart (s.reclaimSearch i v j num) := by
  unfold reclaimSearch
  split
  · split
    · simp [Fine, OfCounts]
    · intro _
      split
      · exact I.proceed hi rfl rfl (fun _ S => S) (fun _ => rfl) rfl rfl rfl
      · exact I.proceed hi rfl rfl (fun _ S => S) (fun _ => rfl) rfl rfl rfl
  · simp [Fine, OfCounts]

theorem Inv.remove {ix : Nat} (hi : s.pool.threads[i]? = some (.remove v ix)) :
    Fine (s.Apart (.run i a)) (s.reclaimRemove i v ix) := by
  obtain ⟨lost, S⟩ := I.sound
  obtain ⟨h1, hf⟩ := (I.threads i _ hi).2.1 v rfl
  unfold reclaimRemove
  split
  · intro apart
    obtain ⟨hix, hv⟩ := List.getElem?_eq_some_iff.1 (apart _ hi)
    have hmem (w : Nat) : w ∈ s.pool.vnodes.eraseIdx ix ↔ w ≠ v ∧ w ∈ s.pool.vnodes := by
      rw [← S.nodup.erase_getElem ix hix, hv]
      exact S.nodup.mem_erase_iff
    refine I.move rfl ⟨lost, (S.remove ix).goto hi rfl⟩ ⟨nofun, nofun, fun w hw => ?_, nofun⟩ (Nat.le_refl _)
      nofun (fun j w _ hj => (hmem w).2 ⟨?_, (I.threads j _ hj).1 w rfl⟩)
      (fun w hw => .inl ((hmem w).1 hw).2) fun _ _ _ _ _ _ => rfl
    · obtain rfl : v = w := SfsPc.kill.inj hw
      exact ⟨h1, fun h => ((hmem v).1 h).1 rfl⟩
    · rintro rfl
      exact hf (List.mem_of_getElem? hj)
  · simp [Fine, OfCounts]

theorem Inv.kill (hi : s.pool.threads[i]? = some (.kill v)) : Fine apart (s.reclaimKill i v) := by
  obtain ⟨lost, S⟩ := I.sound
  obtain ⟨h1, hv⟩ := (I.threads i _ hi).2.2.1 v rfl
  refine fine_vnode (S.mem_of_owes hi rfl) fun vn hvn => ?_
  have hcount := Pool.refcount_of_mem hvn
  have hkill : vnodeKill vn = .ok { vn with vnRefcount := 0, vnOpencount := 0 } := by
    simp [vnodeKill, S.opencount v vn hvn, ← hcount, h1]
  simp only [hkill]
  intro _
  have howes : SfsPc.owes (.free v) = none := rfl
  refine I.move rfl ⟨lost, S.kill hi rfl howes hvn hv hkill⟩ ⟨nofun, nofun, nofun, fun w hw => ?_⟩
    (Nat.le_refl _) nofun (fun j w _ hj => (I.threads j _ hj).1 w rfl) (fun _ h => .inl h)
    fun j k w hj hk hw => ?_
  · obtain rfl : v = w := SfsPc.free.inj hw
    exact ⟨by simp, hv, (I.unused hi rfl).2.2.1⟩
  · have hne : w ≠ v := by
      rintro rfl
      cases k with
      | free u =>
        obtain rfl : u = w := Option.some.inj hw
        have := ((I.threads j _ hk).2.2.2 u rfl).1
        omega
      | kill u | truncate u | sync u | discard u | seek u | remove u =>
        exact hj (eq_of_owed_le_one (S.single w) hk hi hw rfl)
      | _ => exact nomatch hw
    simp [hne]

theorem Inv.free (hi : s.pool.threads[i]? = some (.free v)) : (s.reclaimFree i v).Inv := by
  obtain ⟨lost, S⟩ := I.sound
  obtain ⟨h0, hv, -⟩ := (I.threads i _ hi).2.2.2 v rfl
  refine I.move rfl ⟨lost, (S.free h0 hv).goto hi rfl⟩ (by simp [Ok, SfsPc.erases]) (Nat.le_refl _) nofun
    (fun j w _ hj => (I.threads j _ hj).1 w rfl) (fun _ h => .inl h) fun j k w _ hj hk => ?_
  simp only [reclaimFree, Pool.refcount_goto, Pool.refcount_free]
  grind

/-! ### Other steps -/

theorem Inv.decref (hi : s.pool.threads[i]? = some .idle) (hv : v ∈ s.pool.held) :
    ∃ p, s.pool.decref i v (.reclaim v) = .ok p ∧ ({ s with pool := p } : SfsTable).Inv := by
  obtain ⟨lost, S⟩ := I.sound
  obtain ⟨p, hp, S', hnext, hvnodes, hheld, hcount, hthreads⟩ :=
    S.decref hi rfl (show SfsPc.owes (.reclaim v) = some v from rfl) hv
  obtain ⟨k', hk', hok⟩ : ∃ k', p.threads = s.pool.threads.set i k' ∧ (k' = .idle ∨ k' = .reclaim v) := by
    obtain h | h := hthreads
    · obtain ⟨hlt, hidle⟩ := List.getElem?_eq_some_iff.1 hi
      exact ⟨.idle, by rw [h, ← hidle, List.set_getElem_self], .inl rfl⟩
    · exact ⟨_, h, .inr rfl⟩
  refine ⟨p, hp, I.move hk' ⟨lost, S'⟩ ?_ hnext.ge ?_ (fun j w _ hj => hvnodes ▸ (I.threads j _ hj).1 w rfl)
    (fun w hw => .inl (hvnodes ▸ hw)) fun j k w _ hj hk => hcount w ?_⟩
  · obtain rfl | rfl := hok <;> simp [Ok, SfsPc.erases]
  · obtain rfl | rfl := hok <;> nofun
  · rintro rfl
    exact List.count_eq_zero.1 (I.unused hj hk).1 hv

theorem Inv.touch (hv : v ∈ s.pool.held) (f : SfsNode → SfsNode) :
    Fine apart (s.vnode v fun vn => .ok { s with pool := s.pool.write v { vn with vnData := f vn.vnData } }) := by
  obtain ⟨lost, S⟩ := I.sound
  refine fine_vnode (S.mem_of_held hv) fun vn hvn _ => ?_
  have hcount := Pool.refcount_of_mem hvn
  refine ⟨⟨lost, S.write hvn rfl rfl⟩, fun j k hj => ?_⟩
  have hsame (w : Nat) : (s.pool.write v { vn with vnData := f vn.vnData }).refcount w = s.pool.refcount w := by
    grind
  obtain ⟨hf, he, hk, hfree⟩ := I.threads j k hj
  exact ⟨hf, fun w hw => ⟨(hsame w).trans (he w hw).1, (he w hw).2⟩,
    fun w hw => ⟨(hsame w).trans (hk w hw).1, (hk w hw).2⟩,
    fun w hw => ⟨(hsame w).trans (hfree w hw).1, (hfree w hw).2⟩⟩

theorem Inv.next {e : SfsAction} {r : Except SfsPanic SfsTable} (h : s.next e = some r) : Fine (s.Apart e) r := by
  cases e with
  | lookup i ino forcetype =>
    simp only [SfsTable.next] at h
    split at h
    · next hi => exact Option.some.inj h ▸ fun _ => I.lookup hi ino forcetype _
    · exact nomatch h
  | decref i v =>
    simp only [SfsTable.next] at h
    split at h
    · next hi =>
      obtain ⟨p, hp, I'⟩ := I.decref hi.1 hi.2
      simp only [hp] at h
      exact Option.some.inj h ▸ fun _ => I'
    · exact nomatch h
  | touch v linkcount =>
    simp only [SfsTable.next] at h
    split at h
    · next hv =>
      exact Option.some.inj h ▸ I.touch hv fun d => { d with sfiLinkcount := linkcount, svDirty := true }
    · exact nomatch h
  | run i a =>
    obtain ⟨k, hi, hk⟩ := Option.bind_eq_some_iff.1 h
    cases k with
    | idle => exact nomatch hk
    | scan ino forcetype j num => exact Option.some.inj hk ▸ I.scan hi
    | found v => exact Option.some.inj hk ▸ I.incref hi
    | load ino forcetype => exact Option.some.inj hk ▸ I.fresh hi
    | reclaim v => exact Option.some.inj hk ▸ I.check hi
    | truncate v => exact Option.some.inj hk ▸ I.truncate hi
    | sync v => exact Option.some.inj hk ▸ I.sync hi
    | discard v => exact Option.some.inj hk ▸ I.bfree hi
    | seek v j num => exact Option.some.inj hk ▸ I.search hi
    | remove v ix => exact Option.some.inj hk ▸ I.remove hi
    | kill v => exact Option.some.inj hk ▸ I.kill hi
    | free v => exact Option.some.inj hk ▸ fun _ => I.free hi

end Steps

structure Initial (s : SfsTable) : Prop where
  mem : ∀ v, s.pool.mem v = none
  vnodes : s.pool.vnodes = []
  held : s.pool.held = []
  threads : ∀ k ∈ s.pool.threads, k = .idle

theorem Initial.inv (h : s.Initial) : s.Inv := by
  have hcount (v : Nat) : s.pool.refcount v = 0 := by simp [Pool.refcount, h.mem]
  have howed (v : Nat) : owed SfsPc.owes s.pool.threads v = 0 := by
    refine List.countP_eq_zero.2 fun k hk => ?_
    simp [h.threads k hk, SfsPc.owes]
  refine ⟨⟨fun _ => 0, fun v => ?_, fun v => ?_, fun v _ => h.mem v, ?_, ?_, ?_⟩, fun j k hk => ?_⟩
  · simp [hcount, howed, h.held]
  · simp [howed]
  · simp [h.vnodes]
  · simp [h.vnodes]
  · simp [h.mem]
  · simp [h.threads k (List.mem_of_getElem? hk), Ok, SfsPc.erases]

theorem inv_of_run {s₀ : SfsTable} {tr : List SfsAction} (h₀ : s₀.Initial) (h : Run ApartStep s₀ tr s) : s.Inv := by
  refine h.invariant (I := Inv) h₀.inv ?_
  intro t e u I step
  exact I.next step.2 step.1

/-- A vnode in use is not reclaimed, in every run whose steps keep lookups and reclaims of one vnode
apart: a thread that reclaims a vnode after it has looked at the count, until the memory is freed,
does so while nobody holds a reference; no assertion about the counts fails and no freed vnode is
accessed; and whatever is held is in memory. -/
theorem reclaim_unused {s₀ s : SfsTable} {tr : List SfsAction} (h₀ : s₀.Initial) (h : Run ApartStep s₀ tr s) :
    (∀ k ∈ s.pool.threads, ∀ v, k.reclaims = some v → v ∉ s.pool.held) ∧
    (∀ e p, s.next e = some (.error p) → p ≠ .killRefcount ∧ p ≠ .badPointer) ∧
    ∀ v ∈ s.pool.held, ∃ vn, s.pool.mem v = some vn := by
  have I := inv_of_run h₀ h
  obtain ⟨lost, S⟩ := I.sound
  refine ⟨fun k hk v hv => ?_, fun e p hp => ?_, fun v hv => S.mem_of_held hv⟩
  · obtain ⟨j, hj⟩ := List.getElem?_of_mem hk
    exact List.count_eq_zero.1 (I.unused hj hv).1
  · have : ¬ OfCounts p := I.next hp
    unfold OfCounts at this
    grind

end SfsTable

/-! ## A lookup during a reclaim -/

/-- Two threads and a volume of eight blocks, all in use. -/
def sampleTable : SfsTable :=
  ⟨⟨fun _ => none, 0, [], [], [.idle, .idle]⟩, ⟨8, fun _ => 255⟩, 8⟩

theorem initial_sampleTable : sampleTable.Initial := ⟨fun _ => rfl, rfl, rfl, by decide⟩

/-- A step of a thread. The disk holds a file with one link, and nothing fails. -/
def goes (i : Nat) : SfsAction := .run i ⟨.ok (sfsTypeFile, 1), true⟩

def SfsTable.replay (s : SfsTable) (e : SfsAction) : Option (SfsAction × SfsTable) :=
  match s.next e with
  | some (.ok t) => some (e, t)
  | _ => none

theorem SfsTable.replay_sound {s : SfsTable} {e l : SfsAction} {t : SfsTable}
    (h : s.replay e = some (l, t)) : ReclaimStep s l t := by
  unfold SfsTable.replay at h
  split at h
  · next hnext =>
    simp only [Option.some.injEq, Prod.mk.injEq] at h
    obtain ⟨rfl, rfl⟩ := h
    exact hnext
  · exact nomatch h

def SfsTable.stops (s : SfsTable) (e : SfsAction) : Option SfsPanic :=
  match s.next e with
  | some (.error p) => some p
  | _ => none

theorem SfsTable.next_of_stops {s : SfsTable} {e : SfsAction} (h : s.stops e = some p) :
    s.next e = some (.error p) := by
  unfold SfsTable.stops at h
  split at h
  · next hnext => rw [hnext, Option.some.inj h]
  · exact nomatch h

/-- The first thread loads a file, changes it and drops it. It looks at the count and waits for the
disk; the second thread looks the file up and gets the vnode, which the first one then takes out of
the table to kill it. -/
def duringReclaim : List SfsAction :=
  [.lookup 0 5 sfsTypeInval, goes 0, goes 0, .touch 0 1, .decref 0 0,
    goes 0, .lookup 1 5 sfsTypeInval, goes 1, goes 1,
    goes 0, goes 0, goes 0, goes 0]

/-- The second thread has found the vnode and not counted its reference when the first one drops the
last reference and frees the vnode. -/
def beforeIncref : List SfsAction :=
  [.lookup 0 5 sfsTypeInval, goes 0, goes 0, .lookup 1 5 sfsTypeInval,
    goes 1, .decref 0 0, goes 0, goes 0, goes 0,
    goes 0, goes 0, goes 0, goes 0]

theorem reclaim_in_use : (∃ tr s, Run ReclaimStep sampleTable tr s ∧ .kill 0 ∈ s.pool.threads ∧ 0 ∈ s.pool.held ∧
      s.next (goes 0) = some (.error .killRefcount)) ∧
    ∃ tr s, Run ReclaimStep sampleTable tr s ∧ .found 0 ∈ s.pool.threads ∧
      s.next (goes 1) = some (.error .badPointer) := by
  have h1 : replays SfsTable.replay duringReclaim sampleTable (fun _ s =>
      .kill 0 ∈ s.pool.threads ∧ 0 ∈ s.pool.held ∧
        s.stops (goes 0) = some .killRefcount) = true := by decide
  have h2 : replays SfsTable.replay beforeIncref sampleTable (fun _ s =>
      .found 0 ∈ s.pool.threads ∧ s.stops (goes 1) = some .badPointer) = true := by decide
  constructor
  · obtain ⟨tr, s, hrun, htest⟩ := Run.of_replays @SfsTable.replay_sound h1
    obtain ⟨hkill, hheld, hstop⟩ := of_decide_eq_true htest
    exact ⟨tr, s, hrun, hkill, hheld, SfsTable.next_of_stops hstop⟩
  · obtain ⟨tr, s, hrun, htest⟩ := Run.of_replays @SfsTable.replay_sound h2
    obtain ⟨hfound, hstop⟩ := of_decide_eq_true htest
    exact ⟨tr, s, hrun, hfound, SfsTable.next_of_stops hstop⟩

/-- The first thread loads a file and drops it; while it waits for the disk the second one loads
another file. -/
def lookupElsewhere : List SfsAction :=
  [.lookup 0 5 sfsTypeInval, goes 0, goes 0, .touch 0 1, .decref 0 0,
    goes 0, .lookup 1 6 sfsTypeInval, goes 1, goes 1,
    goes 1, goes 0, goes 0, goes 0,
    goes 0]

theorem reclaim_unused_sample : ∃ tr s, Run ApartStep sampleTable tr s ∧ .kill 0 ∈ s.pool.threads ∧ s.pool.held = [1] ∧
    ((∀ k ∈ s.pool.threads, ∀ v, k.reclaims = some v → v ∉ s.pool.held) ∧
    (∀ e p, s.next e = some (.error p) → p ≠ .killRefcount ∧ p ≠ .badPointer) ∧
    ∀ v ∈ s.pool.held, ∃ vn, s.pool.mem v = some vn) := by
  have hreplay : replays (nextIf SfsTable.replay fun s e _ => decide (s.Apart e)) lookupElsewhere sampleTable
      (fun _ s => .kill 0 ∈ s.pool.threads ∧ s.pool.held = [1]) = true := by decide
  obtain ⟨tr, s, hrun, htest⟩ := Run.of_replays (nextIf_sound @SfsTable.replay_sound) hreplay
  obtain ⟨hkill, hheld⟩ := of_decide_eq_true htest
  have hrun : Run ApartStep sampleTable tr s := hrun.mono fun h => ⟨of_decide_eq_true h.2, h.1⟩
  exact ⟨tr, s, hrun, hkill, hheld, SfsTable.reclaim_unused initial_sampleTable hrun⟩

end Os161.Vnodes
