import Os161.Libc.Memmove
import Os161.Vm.Usermem

/-!
# The copy of an address space

`as_copy` of `kern/arch/mips/mips/dumbvm.c`, with the `memmove` of `lib/libc` that moves the pages.
The new address space has the layout of the old one, so an address is in the same part of both, and
the parts are copied as a whole.
-/
namespace Os161.Vm

open Lib Kern Prog
open Kheap (pageSize)
open Libc (memmove memmove_eq)

/-! ## The function -/

/-- The call of `memmove` for one part of an address space. -/
def movePages (dst src npages : Nat) : (Word → Byte) → Word → Byte :=
  memmove (kvaddr dst) (kvaddr src) (BitVec.ofNat 32 (npages * pageSize))

/-- `pages` is the state of the page allocator, `mem` is the memory, and `old` and `new` are the two
structures. -/
structure AscopyState (G : Type) where
  pages : G
  mem : Word → Byte
  old : Addrspace
  new : Addrspace

section Model

variable {G : Type} (getppages : G → Nat → Nat × G)

def AscopyState.setPrepared (p : G × Addrspace) (s : AscopyState G) : AscopyState G := { s with pages := p.1, new := p.2 }

def AscopyState.move (dst src npages : Nat) (s : AscopyState G) : AscopyState G :=
  { s with mem := movePages dst src npages s.mem }

theorem AscopyState.move_mem (dst src npages : Nat) (s : AscopyState G) :
    (s.move dst src npages).mem = movePages dst src npages s.mem := by
  rw [AscopyState.move]

/-- `kmallocOk` says that `as_create` gets its memory. The result is the new address space. -/
def asCopy (kmallocOk : Bool) : Prog VmPanic Errno (AscopyState G) Addrspace := do
  Prog.when (kmallocOk = false) (Prog.raise .enomem)
  Prog.modify fun s => { s with
    new := { asCreate with
      vbase1 := s.old.vbase1, npages1 := s.old.npages1, vbase2 := s.old.vbase2, npages2 := s.old.npages2 } }
  let r ← Prog.attempt (Prog.focus (fun s => (s.pages, s.new)) AscopyState.setPrepared id (asPrepareLoadWith getppages))
  match r with
  | .error _ => Prog.raise .enomem
  | .ok _ => do
    let s ← Prog.get
    checkAll [(s.new.pbase1 ≠ 0, .pbase1), (s.new.pbase2 ≠ 0, .pbase2), (s.new.stackpbase ≠ 0, .stackpbase)]
    Prog.modify (.move s.new.pbase1 s.old.pbase1 s.old.npages1)
    Prog.modify (.move s.new.pbase2 s.old.pbase2 s.old.npages2)
    Prog.modify (.move s.new.stackpbase s.old.stackpbase dumbvmStackpages)
    pure s.new

end Model

/-! ## What is copied -/

section Moves

variable {old new : Addrspace} {m : Word → Byte} {pa i : Nat} {k : Part}

instance (as : Addrspace) (k : Part) : Decidable (pa ∈ as.block k) := inferInstanceAs (Decidable (_ ∧ _))

theorem physByte_movePages {dst src npages : Nat} (hdst : dst + npages * pageSize ≤ kseg0Size)
    (hsrc : src + npages * pageSize ≤ kseg0Size) (hpa : pa < 2 ^ 31) : physByte (movePages dst src npages m) pa =
      if dst ≤ pa ∧ pa < dst + npages * pageSize then physByte m (src + (pa - dst)) else physByte m pa := by
  simp only [kseg0Size] at hdst hsrc
  have hlen : (BitVec.ofNat 32 (npages * pageSize)).toNat = npages * pageSize := by
    rw [BitVec.toNat_ofNat, Nat.mod_eq_of_lt (by omega)]
  have hd : (kvaddr dst).toNat = dst + 2 ^ 31 := toNat_kvaddr (by omega)
  have hs : (kvaddr src).toNat = src + 2 ^ 31 := toNat_kvaddr (by omega)
  unfold movePages physByte
  rw [memmove_eq (by rw [hd, hlen]; omega) (by rw [hs, hlen]; omega), hlen]
  split
  · next hin =>
    obtain ⟨i, rfl⟩ := Nat.exists_eq_add_of_le hin.1
    have hi : i < (loadCells m (kvaddr src) (npages * pageSize)).length := by
      rw [length_loadCells]
      omega
    rw [kvaddr_add, storeCells_apply m (kvaddr dst) hi (by rw [length_loadCells]; omega), Nat.add_sub_cancel_left,
      kvaddr_add]
    simp [loadCells]
  · next hout =>
    refine storeCells_of_le ?_
    rw [length_loadCells, BitVec.toNat_sub, hd, toNat_kvaddr hpa]
    omega

/-- The parts are moved one after the other. -/
def moveParts (old new : Addrspace) (ks : List Part) (m : Word → Byte) : Word → Byte :=
  ks.foldl (fun m k => movePages (new.pbaseOf k) (old.pbaseOf k) (old.npagesOf k) m) m

theorem moveParts_nil : moveParts old new [] m = m := rfl

theorem moveParts_cons (ks : List Part) : moveParts old new (k :: ks) m =
    moveParts old new ks (movePages (new.pbaseOf k) (old.pbaseOf k) (old.npagesOf k) m) := List.foldl_cons ..

theorem moveParts_three (old new : Addrspace) (m : Word → Byte) : moveParts old new [.region1, .region2, .stack] m =
    movePages new.stackpbase old.stackpbase dumbvmStackpages
      (movePages new.pbase2 old.pbase2 old.npages2 (movePages new.pbase1 old.pbase1 old.npages1 m)) := by
  rw [moveParts_cons, moveParts_cons, moveParts_cons, moveParts_nil]
  rfl

/-- Two address spaces with one layout, where the memory of the second one is its own. -/
structure Separate (old new : Addrspace) : Prop where
  layout : old.SameLayout new
  old_limit : ∀ k, old.pbaseOf k + old.npagesOf k * pageSize ≤ kseg0Size
  new_limit : ∀ k, new.pbaseOf k + new.npagesOf k * pageSize ≤ kseg0Size
  apart : ∀ k k', k ≠ k' → Disjoint (new.block k) (new.block k')
  disjoint : ∀ k k', Disjoint (new.block k) (old.block k')

namespace Separate

variable (h : Separate old new)
include h

theorem physByte_move (hpa : pa < 2 ^ 31) : physByte (movePages (new.pbaseOf k) (old.pbaseOf k) (old.npagesOf k) m) pa =
    if pa ∈ new.block k then physByte m (old.pbaseOf k + (pa - new.pbaseOf k)) else physByte m pa := by
  have hlimit := h.new_limit k
  simp only [Addrspace.block, Set.mem_Ico]
  rw [h.layout.npagesOf_eq] at hlimit ⊢
  exact physByte_movePages hlimit (h.old_limit k) hpa

theorem frame (ks : List Part) (hpa : pa < 2 ^ 31) (hout : ∀ k ∈ ks, pa ∉ new.block k) :
    physByte (moveParts old new ks m) pa = physByte m pa := by
  induction ks generalizing m with
  | nil => rfl
  | cons k ks ih =>
    obtain ⟨hk, hks⟩ := List.forall_mem_cons.1 hout
    rw [moveParts_cons, ih hks, h.physByte_move hpa, if_neg hk]

/-- A part is copied, and what is moved later overwrites neither the copy nor what is still to be
copied. -/
theorem copied (ks : List Part) (hk : k ∈ ks) (hi : i < old.npagesOf k * pageSize) :
    physByte (moveParts old new ks m) (new.pbaseOf k + i) = physByte m (old.pbaseOf k + i) := by
  have hold : old.pbaseOf k + i ∈ old.block k := ⟨Nat.le_add_right _ _, by omega⟩
  have hnew : new.pbaseOf k + i ∈ new.block k := by
    refine ⟨Nat.le_add_right _ _, ?_⟩
    rw [h.layout.npagesOf_eq]
    omega
  have hold_lt : old.pbaseOf k + i < 2 ^ 31 := (Nat.add_lt_add_left hi _).trans ((h.old_limit k).trans_lt kseg0Size_lt)
  have hnew_lt : new.pbaseOf k + i < 2 ^ 31 := hnew.2.trans ((h.new_limit k).trans_lt kseg0Size_lt)
  induction ks generalizing m with
  | nil => exact nomatch hk
  | cons k' ks ih =>
    by_cases hks : k ∈ ks
    · have hin : old.pbaseOf k + i ∉ new.block k' := fun hin => Set.disjoint_left.1 (h.disjoint k' k) hin hold
      rw [moveParts_cons, ih hks, h.physByte_move hold_lt, if_neg hin]
    · obtain rfl : k = k' := (List.mem_cons.1 hk).resolve_right hks
      have hout : ∀ k' ∈ ks, new.pbaseOf k + i ∉ new.block k' := by
        intro k' hk'
        have hne : k ≠ k' := fun heq => hks (heq ▸ hk')
        exact Set.disjoint_left.1 (h.apart k k' hne) hnew
      rw [moveParts_cons, h.frame ks hnew_lt hout, h.physByte_move hnew_lt, if_pos hnew, Nat.add_sub_cancel_left]

end Separate

end Moves

/-! ## Stores through two address spaces -/

section Stores

def storeAll (spaces : Bool → Addrspace) : List (Bool × Nat × Byte) → (Word → Byte) → Word → Byte
  | [], m => m
  | (c, a, b) :: ws, m => storeAll spaces ws ((spaces c).userStore a b m)

variable {as : Addrspace} {U : Set Nat} {m m' : Word → Byte} {a pa : Nat} {b : Byte}

theorem Holds.physByte_userStore (h : Holds U as) (hpa : pa < 2 ^ 31) (hout : pa ∉ as.frames) :
    physByte (as.userStore a b m) pa = physByte m pa := by
  unfold Addrspace.userStore
  split
  · rfl
  · next pa' ht =>
    have hmem := h.translate_mem ht
    refine physByte_update_of_ne fun heq => hout ?_
    rw [(kvaddr_inj hpa (h.lt hmem)).1 heq]
    exact hmem

/-- A store into two memories that agree on the frames. -/
theorem userStore_congr (heq : ∀ pa ∈ as.frames, physByte m' pa = physByte m pa) :
    ∀ pa ∈ as.frames, physByte (as.userStore a b m') pa = physByte (as.userStore a b m) pa := by
  intro pa hpa
  unfold Addrspace.userStore
  split
  · exact heq pa hpa
  · next pa' ht =>
    simp only [physByte, Function.update_apply]
    split
    · rfl
    · exact heq pa hpa

/-- What an address space sees depends on the stores through it only. -/
theorem storeAll_filter {spaces : Bool → Addrspace} {c : Bool} (h : ∀ c, Holds U (spaces c))
    (hdis : Disjoint (spaces c).frames (spaces !c).frames) (ws : List (Bool × Nat × Byte))
    (heq : ∀ pa ∈ (spaces c).frames, physByte m' pa = physByte m pa) : ∀ pa ∈ (spaces c).frames,
      physByte (storeAll spaces (ws.filter (·.1 = c)) m') pa = physByte (storeAll spaces ws m) pa := by
  induction ws generalizing m m' with
  | nil => exact heq
  | cons w ws ih =>
    obtain ⟨d, a, b⟩ := w
    by_cases hd : d = c
    · subst hd
      rw [List.filter_cons_of_pos (by simp)]
      exact ih (userStore_congr heq)
    · rw [List.filter_cons_of_neg (by simpa using hd)]
      refine ih fun pa hpa => ?_
      have hother : d = !c := by cases c <;> cases d <;> simp at hd ⊢
      rw [hother, (h (!c)).physByte_userStore ((h c).lt hpa) (Set.disjoint_left.1 hdis hpa)]
      exact heq pa hpa

end Stores

/-! ## The result -/

/-- `new` is an equal copy of `s.old`, and independent of it. -/
structure IndependentCopy {G : Type} (used : G → Set Nat) (s t : AscopyState G) (new : Addrspace) : Prop where
  layout : s.old.SameLayout new
  equal : ∀ a, new.userByte t.mem a = s.old.userByte s.mem a
  disjoint_old : Disjoint new.frames s.old.frames
  disjoint : ∀ as : Addrspace, as.frames ⊆ used s.pages → Disjoint new.frames as.frames
  old_eq : t.old = s.old
  old_kept : ∀ a, s.old.userByte t.mem a = s.old.userByte s.mem a
  independent : ∀ (ws : List (Bool × Nat × Byte)) c a,
    let spaces : Bool → Addrspace := fun c => if c then new else s.old
    (spaces c).userByte (storeAll spaces (ws.filter (·.1 = c)) t.mem) a =
      (spaces c).userByte (storeAll spaces ws t.mem) a

section Result

variable {G : Type} {getppages : G → Nat → Nat × G} {used : G → Set Nat} {s : AscopyState G} {g' : G} {new : Addrspace}

/-- The structure before `as_prepare_load`. -/
def Addrspace.emptied (old : Addrspace) : Addrspace :=
  { asCreate with vbase1 := old.vbase1, npages1 := old.npages1, vbase2 := old.vbase2, npages2 := old.npages2 }

theorem Prepared.separate (hp : Prepared used s.pages s.old.emptied g' new) (ho : Holds (used s.pages) s.old) :
    Separate s.old new where
  layout := ⟨hp.layout.vbase1, hp.layout.npages1, hp.layout.vbase2, hp.layout.npages2⟩
  old_limit := ho.limit
  new_limit := hp.limit
  apart := hp.apart
  disjoint k k' := (hp.fresh k).mono_right fun _ hpa => ho.inUse ⟨k', hpa⟩

theorem Prepared.frames_disjoint (hp : Prepared used s.pages s.old.emptied g' new) {as : Addrspace}
    (has : as.frames ⊆ used s.pages) : Disjoint new.frames as.frames := by
  refine Set.disjoint_left.2 ?_
  rintro pa ⟨k, hk⟩ hpa
  exact Set.disjoint_left.1 (hp.fresh k) hk (has hpa)

/-- An address is in the same part of both, at the same place. -/
theorem Separate.userByte_eq {U U' : Set Nat} {old : Addrspace} {m : Word → Byte} (h : Separate old new)
    (ho : Holds U old) (hn : Holds U' new) {ks : List Part} (hks : ∀ k, k ∈ ks) (a : Nat) :
    new.userByte (moveParts old new ks m) a = old.userByte m a := by
  unfold Addrspace.userByte
  rw [hn.translate_eq, ho.translate_eq, h.layout.partOf_eq, Option.map_map, Option.map_map]
  cases hk : old.partOf (pageFrame a) with
  | none => rfl
  | some k =>
    have hoff := ho.laid.offset hk
    refine congrArg some ?_
    simp only [Function.comp_apply, h.layout.vbaseOf_eq]
    exact h.copied ks (hks k) (by omega)

theorem Prepared.independentCopy (hp : Prepared used s.pages s.old.emptied g' new) (ho : Holds (used s.pages) s.old)
    {t : AscopyState G} (hold : t.old = s.old)
    (hmem : t.mem = moveParts s.old new [.region1, .region2, .stack] s.mem) : IndependentCopy used s t new := by
  have hsep := hp.separate ho
  have hl : s.old.emptied.Laid := laid_of
    ⟨ho.laid.aligned .region1, ho.laid.vbase_lt .region1, ho.laid.npages_lt .region1⟩
    ⟨ho.laid.aligned .region2, ho.laid.vbase_lt .region2, ho.laid.npages_lt .region2⟩
  have hn : Holds (used g') new := hp.holds hl
  have hdis := hp.frames_disjoint ho.inUse
  have hkept : ∀ pa ∈ s.old.frames, physByte t.mem pa = physByte s.mem pa := by
    intro pa hpa
    rw [hmem]
    exact hsep.frame _ (ho.lt hpa) fun k _ hk => Set.disjoint_left.1 hdis ⟨k, hk⟩ hpa
  refine ⟨hsep.layout, fun a => ?_, hdis, fun as => hp.frames_disjoint, hold, fun a => ho.userByte_congr hkept, ?_⟩
  · rw [hmem]
    refine hsep.userByte_eq ho hn (fun k => ?_) a
    cases k <;> simp
  · intro ws c a spaces
    have hspaces : ∀ c, Holds Set.univ (spaces c) := by
      intro c
      cases c with
      | true => exact { hn with inUse := Set.subset_univ _ }
      | false => exact { ho with inUse := Set.subset_univ _ }
    refine (hspaces c).userByte_congr (storeAll_filter hspaces ?_ ws fun _ _ => rfl)
    cases c with
    | true => exact hdis
    | false => exact hdis.symm

/-- For every address space that was set up, all contents of memory and every `getppages` that hands
out memory which is not in use: if `as_copy` returns 0 then it made an equal and independent copy,
and otherwise it returns `ENOMEM` and has changed no memory. -/
theorem asCopy_independent (kmallocOk : Bool) (hold : Established getppages used s.pages s.old)
    (hh : ∀ n ∈ s.old.sizes, ∀ g, Honest getppages used g n) :
    Prog.Sat (fun _ => False) (asCopy getppages kmallocOk) s fun r t =>
      match r with
      | .ok new => IndependentCopy used s t new
      | .error e => e = .enomem ∧ t.old = s.old ∧ t.mem = s.mem := by
  cases kmallocOk with
  | false => exact ⟨rfl, rfl, rfl⟩
  | true =>
    have ho := hold.holds hh
    have hzero : s.old.emptied.pbase1 = 0 ∧ s.old.emptied.pbase2 = 0 ∧ s.old.emptied.stackpbase = 0 := ⟨rfl, rfl, rfl⟩
    have hprep := asPrepareLoadWith_spec (g := s.pages) hzero hh
    simp only [asCopy, sat_bind, sat_when, sat_modify, sat_attempt, sat_focus]
    refine hprep.mono ?_
    rintro r ⟨g', new⟩ (⟨rfl, hp⟩ | rfl)
    · have hasserts : ∀ c ∈ ([(new.pbase1 ≠ 0, .pbase1), (new.pbase2 ≠ 0, .pbase2), (new.stackpbase ≠ 0, .stackpbase)] :
          List (Bool × VmPanic)), c.1 = true := by
        simp only [List.forall_mem_cons, decide_eq_true_eq]
        exact ⟨hp.pbase_ne .region1, hp.pbase_ne .region2, hp.pbase_ne .stack, by simp⟩
      simp only [sat_bind, sat_get, sat_modify, sat_pure, AscopyState.setPrepared]
      rw [sat_checkAll hasserts]
      refine hp.independentCopy ho rfl ?_
      rw [moveParts_three, AscopyState.move_mem, AscopyState.move_mem, AscopyState.move_mem]
    · exact ⟨rfl, rfl, rfl⟩

end Result

/-! An address space of two regions in the first pages of `sampleRam`. -/

def dataPages : DefineCall := ⟨0x10000000, 0x2000, by decide, by decide⟩

def sampleSpace : Addrspace := ⟨0x400000, 0x20000, 1, 0x10000000, 0x21000, 2, 0x23000⟩

/-- What is left of `sampleRam`. -/
def sampleRest : Ram := ⟨0x2f000, 0x400000, by decide, by decide, sampleRam.limit⟩

theorem sampleSpace_established : Established Ram.getppages Ram.used sampleRest sampleSpace := by
  let as₁ : Addrspace := { asCreate with vbase1 := 0x400000, npages1 := 1 }
  let as₂ : Addrspace := { as₁ with vbase2 := 0x10000000, npages2 := 2 }
  have hfirst : defineNext asCreate textPage = some as₁ := by decide
  have hsecond : defineNext as₁ dataPages = some as₂ := by decide
  have hprep : (asPrepareLoadWith Ram.getppages).value? (sampleRam, as₂) =
      some ((), sampleRest, sampleSpace) := by decide +kernel
  exact ⟨_, as₂, sampleRam, sampleRest, .step (.step .start hfirst) hsecond,
    Prog.value?_eq_some.1 hprep, Set.Subset.rfl⟩

def sampleCopy : AscopyState Ram := ⟨sampleRest, fun _ => 0, sampleSpace, asCreate⟩

/-- There is memory for the copy. -/
theorem asCopy_independent_sample : Established Ram.getppages Ram.used sampleCopy.pages sampleCopy.old ∧
    ∃ new t, asCopy Ram.getppages true sampleCopy = .ok (.ok new, t) ∧ IndependentCopy Ram.used sampleCopy t new := by
  have hsome : ((asCopy Ram.getppages true).value? sampleCopy).isSome = true := by decide +kernel
  obtain ⟨⟨new, t⟩, hvalue⟩ := Option.isSome_iff_exists.1 hsome
  have hrun := Prog.value?_eq_some.1 hvalue
  have hhonest : ∀ n ∈ sampleCopy.old.sizes, ∀ g, Honest Ram.getppages Ram.used g n := by
    intro n hn
    refine Ram.honest ?_
    simp only [sampleCopy, Addrspace.sizes, List.mem_cons, List.not_mem_nil, or_false] at hn
    obtain rfl | rfl | rfl := hn
    all_goals decide
  exact ⟨sampleSpace_established, new, t, hrun,
    (asCopy_independent true sampleSpace_established hhonest).of_ok hrun⟩

end Os161.Vm
