import Os161.Lib.Refcount
import Mathlib.Logic.Function.Basic

/-!
# Vnodes that threads share

The reference count of a vnode (`vnode.c`), and the vnodes of one file system as the threads see
them: the structures in memory, the table that lookups search, and the references. The file systems
differ in what a thread does between the sections that hold a lock, so where a thread is, is a
parameter here.
-/
namespace Os161.Vnodes

open Lib

/-! ## The counts of one vnode -/

structure Vnode (δ : Type) where
  vnRefcount : Nat
  vnOpencount : Nat
  vnData : δ

/-- The assertions of `vnode.c`, and an access to memory that has been freed. -/
inductive VnodePanic where
  | decrefRefcount | killRefcount | killOpencount | badPointer
  deriving DecidableEq, Repr

variable {δ κ : Type}

def vnodeInit (fsdata : δ) : Vnode δ := ⟨1, 0, fsdata⟩

def vnodeIncref (vn : Vnode δ) : Vnode δ := { vn with vnRefcount := vn.vnRefcount + 1 }

/-- What `vnode_decref` does under `vn_countlock`. The flag is `actually_do_it`. -/
def vnodeDecref (vn : Vnode δ) : Except VnodePanic (Bool × Vnode δ) :=
  if vn.vnRefcount = 0 then .error .decrefRefcount
  else if 1 < vn.vnRefcount then .ok (false, { vn with vnRefcount := vn.vnRefcount - 1 })
  else .ok (true, vn)

def vnodeKill (vn : Vnode δ) : Except VnodePanic (Vnode δ) :=
  if vn.vnRefcount ≠ 1 then .error .killRefcount
  else if vn.vnOpencount ≠ 0 then .error .killOpencount
  else .ok { vn with vnRefcount := 0, vnOpencount := 0 }

/-! ## The vnodes of a file system -/

/-- `mem` are the vnode structures by address, of which `kmalloc` has returned those below `next`;
`vnodes` is the table. `held` are the references that threads hold, and `threads` says where in its
code each thread is. -/
structure Pool (δ κ : Type) where
  mem : Nat → Option (Vnode δ)
  next : Nat
  vnodes : List Nat
  held : List Nat
  threads : List κ

namespace Pool

variable {p : Pool δ κ} {v w i : Nat} {vn vn' : Vnode δ} {k k' : κ}

def refcount (p : Pool δ κ) (v : Nat) : Nat := ((p.mem v).map Vnode.vnRefcount).getD 0

def write (p : Pool δ κ) (v : Nat) (vn : Vnode δ) : Pool δ κ :=
  { p with mem := Function.update p.mem v (some vn) }

def free (p : Pool δ κ) (v : Nat) : Pool δ κ := { p with mem := Function.update p.mem v none }

/-- The caller gets a reference, or gives one up. -/
def take (p : Pool δ κ) (v : Nat) : Pool δ κ := { p with held := v :: p.held }
def give (p : Pool δ κ) (v : Nat) : Pool δ κ := { p with held := p.held.erase v }

def goto (p : Pool δ κ) (i : Nat) (k : κ) : Pool δ κ := { p with threads := p.threads.set i k }

def add (p : Pool δ κ) (vn : Vnode δ) : Pool δ κ :=
  { p.write p.next vn with next := p.next + 1, vnodes := p.vnodes ++ [p.next], held := p.next :: p.held }

def remove (p : Pool δ κ) (ix : Nat) : Pool δ κ := { p with vnodes := p.vnodes.eraseIdx ix }

/-- `vnode_decref` up to the end of its section: with the last reference the thread goes on to
`VOP_RECLAIM`. -/
def decref (p : Pool δ κ) (i v : Nat) (reclaim : κ) : Except VnodePanic (Pool δ κ) :=
  match p.mem v with
  | none => .error .badPointer
  | some vn =>
    match vnodeDecref vn with
    | .error e => .error e
    | .ok (true, _) => .ok ((p.give v).goto i reclaim)
    | .ok (false, vn') => .ok ((p.write v vn').give v)

theorem refcount_of_mem (h : p.mem v = some vn) : p.refcount v = vn.vnRefcount := by
  simp [refcount, h]

theorem exists_mem_of_pos (h : 0 < p.refcount v) : ∃ vn, p.mem v = some vn := by
  cases hm : p.mem v with
  | none => simp [refcount, hm] at h
  | some vn => exact ⟨vn, rfl⟩

@[simp, grind =] theorem refcount_write : (p.write v vn).refcount w = if w = v then vn.vnRefcount else p.refcount w := by
  by_cases h : w = v <;> simp [refcount, write, h]

@[simp, grind =] theorem refcount_free : (p.free v).refcount w = if w = v then 0 else p.refcount w := by
  by_cases h : w = v <;> simp [refcount, free, h]

@[simp, grind =] theorem refcount_take : (p.take v).refcount w = p.refcount w := rfl
@[simp, grind =] theorem refcount_give : (p.give v).refcount w = p.refcount w := rfl
@[simp, grind =] theorem refcount_goto : (p.goto i k).refcount w = p.refcount w := rfl
@[simp, grind =] theorem refcount_add : (p.add vn).refcount w = if w = p.next then vn.vnRefcount else p.refcount w :=
  refcount_write

@[simp, grind =] theorem held_write : (p.write v vn).held = p.held := rfl
@[simp, grind =] theorem held_free : (p.free v).held = p.held := rfl
@[simp, grind =] theorem held_take : (p.take v).held = v :: p.held := rfl
@[simp, grind =] theorem held_give : (p.give v).held = p.held.erase v := rfl
@[simp, grind =] theorem held_goto : (p.goto i k).held = p.held := rfl
@[simp, grind =] theorem held_add : (p.add vn).held = p.next :: p.held := rfl

@[simp, grind =] theorem vnodes_write : (p.write v vn).vnodes = p.vnodes := rfl
@[simp, grind =] theorem vnodes_take : (p.take v).vnodes = p.vnodes := rfl
@[simp, grind =] theorem vnodes_add : (p.add vn).vnodes = p.vnodes ++ [p.next] := rfl

/-! ## Counts that are right -/

/-- The counts are right, no two threads drop the last reference to a vnode, and the table has
vnodes in memory only, each once. -/
structure Sound (owes : κ → Option Nat) (lost : Nat → Nat) (p : Pool δ κ) : Prop where
  balanced : Balanced owes p.refcount p.held p.threads lost
  single : ∀ v, owed owes p.threads v ≤ 1
  beyond : ∀ v, p.next ≤ v → p.mem v = none
  table : ∀ v ∈ p.vnodes, 0 < p.refcount v
  nodup : p.vnodes.Nodup
  opencount : ∀ v vn, p.mem v = some vn → vn.vnOpencount = 0

namespace Sound

variable {owes : κ → Option Nat} {lost : Nat → Nat} (S : Sound owes lost p)
include S

theorem mem_of_held (h : v ∈ p.held) : ∃ vn, p.mem v = some vn := by
  have := S.balanced v
  have := List.count_pos_iff.2 h
  exact exists_mem_of_pos (by omega)

theorem mem_of_owes (hk : p.threads[i]? = some k) (h : owes k = some v) : ∃ vn, p.mem v = some vn := by
  have := S.balanced v
  have := owed_pos hk h
  exact exists_mem_of_pos (by omega)

/-- A count of one is the reference of the thread that owes its decrement. -/
theorem alone (hk : p.threads[i]? = some k) (h : owes k = some v) (h1 : p.refcount v = 1) :
    p.held.count v = 0 ∧ lost v = 0 := by
  have := S.balanced v
  have := owed_pos hk h
  omega

theorem lt_next (h : v ∈ p.vnodes) : v < p.next := by
  by_contra hge
  have := S.table v h
  simp [refcount, S.beyond v (by omega)] at this

end Sound

/-! ## The steps -/

section Steps

variable {owes : κ → Option Nat} {lost lost' : Nat → Nat} (S : Sound owes lost p)
include S

/-- A step that leaves the table as it is: `d` is the debt it pays and `e` the one it makes. -/
theorem Sound.step {p' : Pool δ κ} {d e : Option Nat}
    (howed : ∀ a, owed owes p'.threads a + (if d = some a then 1 else 0) =
      owed owes p.threads a + if e = some a then 1 else 0)
    (hcount : ∀ a, p'.refcount a + p.held.count a + lost a + (if d = some a then 1 else 0) =
      p.refcount a + p'.held.count a + lost' a + if e = some a then 1 else 0)
    (hsingle : ∀ a, e = some a → d = some a ∨ owed owes p.threads a = 0)
    (hnext : p'.next = p.next) (hvnodes : p'.vnodes = p.vnodes)
    (hmem : ∀ v vn', p'.mem v = some vn' → ∃ vn, p.mem v = some vn ∧ (vn.vnOpencount = 0 → vn'.vnOpencount = 0))
    (htable : ∀ v ∈ p.vnodes, 0 < p'.refcount v) : Sound owes lost' p' := by
  refine ⟨S.balanced.step howed hcount, fun a => ?_, fun v hv => ?_, ?_, ?_, fun v vn' hv => ?_⟩
  · have := howed a
    have := S.single a
    have := hsingle a
    grind
  · cases hm : p'.mem v with
    | none => rfl
    | some vn' =>
      obtain ⟨vn, hvn, -⟩ := hmem v vn' hm
      simp [S.beyond v (hnext ▸ hv)] at hvn
  · exact hvnodes ▸ htable
  · exact hvnodes ▸ S.nodup
  · obtain ⟨vn, hvn, ho⟩ := hmem v vn' hv
    exact ho (S.opencount v vn hvn)

omit S in
theorem owed_goto (hk : p.threads[i]? = some k) (k' : κ) (a : Nat) :
    owed owes (p.goto i k').threads a + (if owes k = some a then 1 else 0) =
      owed owes p.threads a + if owes k' = some a then 1 else 0 :=
  owed_set hk k' a

omit S in
theorem mem_write (h : p.mem v = some vn) (hvn : vn.vnOpencount = 0 → vn'.vnOpencount = 0) (w : Nat)
    (u : Vnode δ) (hw : (p.write v vn').mem w = some u) :
    ∃ u', p.mem w = some u' ∧ (u'.vnOpencount = 0 → u.vnOpencount = 0) := by
  by_cases hwv : w = v
  · subst hwv
    simp only [write, Function.update_self, Option.some.injEq] at hw
    exact ⟨vn, h, hw ▸ hvn⟩
  · simp only [write, Function.update_of_ne hwv] at hw
    exact ⟨u, hw, id⟩

theorem Sound.goto (hk : p.threads[i]? = some k) (h : owes k' = owes k) : Sound owes lost (p.goto i k') := by
  refine S.step (owed_goto hk k') (fun a => ?_) ?_ rfl rfl (fun v vn' hv => ⟨vn', hv, id⟩) S.table
  · rw [h]
    rfl
  · grind

theorem Sound.write (hv : p.mem v = some vn) (hr : vn'.vnRefcount = vn.vnRefcount)
    (ho : vn'.vnOpencount = vn.vnOpencount) : Sound owes lost (p.write v vn') := by
  have hcount := refcount_of_mem hv
  refine S.step (d := none) (e := none) (fun _ => rfl) (fun a => ?_) nofun rfl rfl
    (mem_write hv fun h => ho.trans h) fun w hw => ?_
  · grind
  · have := S.table w hw
    grind

theorem Sound.incref (hv : p.mem v = some vn) : Sound owes lost ((p.write v (vnodeIncref vn)).take v) := by
  have hcount := refcount_of_mem hv
  refine S.step (d := none) (e := none) (fun _ => rfl) (fun a => ?_) nofun rfl rfl (mem_write hv id) fun w hw => ?_
  · grind [vnodeIncref]
  · have := S.table w hw
    grind [vnodeIncref]

section

variable (hk : p.threads[i]? = some k) (hd : owes k = some v) (hd' : owes k' = none)
include hk hd hd'

theorem Sound.consume (hv : p.mem v = some vn) (h1 : 1 < vn.vnRefcount) :
    Sound owes lost ((p.write v { vn with vnRefcount := vn.vnRefcount - 1 }).goto i k') := by
  have hcount := refcount_of_mem hv
  refine S.step (owed_goto hk k') (fun a => ?_) (by simp [hd']) rfl rfl (mem_write hv id) fun w hw => ?_
  · grind
  · have := S.table w hw
    grind

/-- The thread returns without paying its debt. -/
theorem Sound.lose (hlost : ∀ a, lost' a = lost a + if a = v then 1 else 0) : Sound owes lost' (p.goto i k') := by
  refine S.step (owed_goto hk k') (fun a => ?_) (by simp [hd']) rfl rfl (fun v vn' hv => ⟨vn', hv, id⟩) S.table
  have := hlost a
  grind

/-- The last reference goes with the vnode. -/
theorem Sound.kill (hv : p.mem v = some vn) (htab : v ∉ p.vnodes) (h : vnodeKill vn = .ok vn') :
    Sound owes lost ((p.write v vn').goto i k') := by
  have hcount := refcount_of_mem hv
  unfold vnodeKill at h
  split at h
  · exact nomatch h
  next h1 =>
  split at h
  · exact nomatch h
  cases h
  refine S.step (owed_goto hk k') (fun a => ?_) (by simp [hd']) rfl rfl (mem_write hv fun _ => rfl) fun w hw => ?_
  · grind
  · have := S.table w hw
    grind

end

theorem Sound.free (h0 : p.refcount v = 0) (htab : v ∉ p.vnodes) : Sound owes lost (p.free v) := by
  refine S.step (d := none) (e := none) (fun _ => rfl) (fun a => ?_) nofun rfl rfl (fun w vn' hw => ?_) fun w hw => ?_
  · grind
  · by_cases hwv : w = v
    · simp [hwv, Pool.free] at hw
    · simp only [Pool.free, Function.update_of_ne hwv] at hw
      exact ⟨vn', hw, id⟩
  · have := S.table w hw
    grind

theorem Sound.remove (ix : Nat) : Sound owes lost (p.remove ix) :=
  ⟨S.balanced, S.single, S.beyond, fun v hv => S.table v (List.eraseIdx_subset hv),
    S.nodup.sublist (List.eraseIdx_sublist ..), S.opencount⟩

theorem Sound.add (d : δ) : Sound owes lost (p.add (vnodeInit d)) := by
  have hnext : p.mem p.next = none := S.beyond _ (Nat.le_refl _)
  have h0 : p.refcount p.next = 0 := by simp [refcount, hnext]
  have hnot : p.next ∉ p.vnodes := fun h => absurd (S.lt_next h) (by omega)
  refine ⟨fun a => ?_, S.single, fun v hv => ?_, fun v hv => ?_, ?_, fun v vn hv => ?_⟩
  · have := S.balanced a
    have hthreads : (p.add (vnodeInit d)).threads = p.threads := rfl
    grind [vnodeInit]
  · have hlt : p.next < v := hv
    simp only [Pool.add, Pool.write, Function.update_of_ne (by omega : v ≠ p.next)]
    exact S.beyond v (Nat.le_of_lt hlt)
  · simp only [Pool.add, List.mem_append, List.mem_singleton] at hv
    have := S.table v
    grind [vnodeInit]
  · exact List.nodup_append.2 ⟨S.nodup, by simp, fun a ha b hb => by grind⟩
  · by_cases hvn : v = p.next
    · simp only [Pool.add, Pool.write, hvn, Function.update_self, Option.some.injEq] at hv
      rw [← hv]
      rfl
    · simp only [Pool.add, Pool.write, Function.update_of_ne hvn] at hv
      exact S.opencount v vn hv

/-- What dropping a reference that is held does: the count falls and stays positive, or it was the
last one and the thread goes on to reclaim the vnode. -/
theorem Sound.decref {reclaim : κ} (hk : p.threads[i]? = some k) (hd : owes k = none)
    (hr : owes reclaim = some v) (hv : v ∈ p.held) :
    ∃ p', p.decref i v reclaim = .ok p' ∧ Sound owes lost p' ∧ p'.next = p.next ∧ p'.vnodes = p.vnodes ∧
      p'.held = p.held.erase v ∧ (∀ w ≠ v, p'.refcount w = p.refcount w) ∧
      (p'.threads = p.threads ∨ p'.threads = p.threads.set i reclaim) := by
  obtain ⟨vn, hvn⟩ := S.mem_of_held hv
  have hcount := refcount_of_mem hvn
  have hheld := List.count_pos_iff.2 hv
  have hbal := S.balanced v
  have herase (a : Nat) : p.held.count a = (p.held.erase v).count a + if a = v then 1 else 0 := by
    by_cases ha : a = v
    · rw [ha, List.count_erase_self, if_pos rfl]
      omega
    · rw [List.count_erase_of_ne ha, if_neg ha, Nat.add_zero]
  by_cases h1 : 1 < vn.vnRefcount
  · refine ⟨(p.write v { vn with vnRefcount := vn.vnRefcount - 1 }).give v, ?_, ?_, rfl, rfl, rfl, ?_, .inl rfl⟩
    · simp only [Pool.decref, hvn, vnodeDecref, h1, if_true, if_neg (by omega : vn.vnRefcount ≠ 0)]
    · refine S.step (d := none) (e := none) (fun _ => rfl) (fun a => ?_) nofun rfl rfl (mem_write hvn id) fun w hw => ?_
      · have := herase a
        grind
      · have := S.table w hw
        grind
    · intro w hw
      simp [hw]
  · have h0 : vn.vnRefcount ≠ 0 := by omega
    refine ⟨(p.give v).goto i reclaim, ?_, ?_, rfl, rfl, rfl, fun w hw => rfl, .inr rfl⟩
    · simp only [Pool.decref, hvn, vnodeDecref, h0, h1, if_false]
    · refine S.step (owed_goto hk reclaim) (fun a => ?_) (fun a ha => ?_) rfl rfl
        (fun v vn' hv => ⟨vn', hv, id⟩) S.table
      · have := herase a
        grind
      · right
        grind

end Steps

end Pool

end Os161.Vnodes
