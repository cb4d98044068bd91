import Os161.Kern.Copyinout
import Os161.Kern.Uio
import Os161.Vm.Tlb
import Os161.Vm.Usermem

/-!
# Loading an executable

`load_elf` and `load_segment` of `kern/userprog/loadelf.c`, with the transfer of bytes to user
memory down to the faults: `uiomove`, `copyout` and its check of the addresses, and for every byte a
store through the TLB that may call `vm_fault`.

The file system is left open: `VOP_READ` returns, and before that it calls `uiomove` with bytes of
its choice. So an offset may be negative.
The thread that loads may lose the processor before any access to user memory, after which it finds
the TLB empty.
-/
namespace Os161.Vm

open Lib Kern
open Kheap (pageSize)

/-- What a load depends on. For `n` bytes at an offset, `VOP_READ` moves the `pieces`, each by a
call of `uiomove`, and returns `result`. `preempt` says before which accesses the thread loses the
processor, and `vmspace` is the address of its address space. -/
structure LoadEnv where
  pieces : Nat → Nat → List (List Byte)
  result : Nat → Nat → Except Errno Unit
  preempt : Nat → Bool
  vmspace : Nat
  ne_nil : ∀ offset n, ∀ p ∈ pieces offset n, p ≠ []
  le : ∀ offset n, (pieces offset n).flatten.length ≤ n

inductive LoadPanic where
  | vm (p : VmPanic)
  | uio (p : UioPanic)
  deriving DecidableEq, Repr

/-- `clock` counts the accesses to user memory, and `written` are the user addresses that were
stored to. -/
structure LoadState where
  as : Addrspace
  ram : Ram
  tlb : Tlb
  clock : Nat
  mem : Word → Byte
  written : List Nat

abbrev LoadM (α : Type) := Prog LoadPanic Errno LoadState α

/-- The physical address of a user address, through the TLB. -/
def Tlb.translate (tlb : Tlb) (va : Nat) : Option Nat :=
  ((List.finRange numTlb).find? fun i => (tlb i).Valid ∧ (tlb i).vpage = pageFrame va).map fun i =>
    (tlb i).ppage + va % pageSize

namespace LoadState

def setTlb (tlb : Tlb) (s : LoadState) : LoadState := { s with tlb := tlb }

def setAs (as : Addrspace) (s : LoadState) : LoadState := { s with as := as }

def setRamAs (p : Ram × Addrspace) (s : LoadState) : LoadState := { s with ram := p.1, as := p.2 }

/-- The thread may lose the processor and empty the TLB when it gets it back. -/
def tick (E : LoadEnv) (s : LoadState) : LoadState :=
  { s with tlb := if E.preempt s.clock then fun i => tlbInvalid i else s.tlb, clock := s.clock + 1 }

/-- A store that hits the TLB. -/
def store (va : Nat) (b : Byte) (s : LoadState) : LoadState :=
  match s.tlb.translate va with
  | none => s
  | some pa => { s with mem := Function.update s.mem (kvaddr pa) b, written := va :: s.written }

end LoadState

/-- Call a function on the TLB. -/
def onTlb {α : Type} (m : Prog VmPanic Errno Tlb α) : LoadM α :=
  Prog.focus LoadState.tlb LoadState.setTlb .vm m

def onAs {α : Type} (m : Prog VmPanic Errno Addrspace α) : LoadM α :=
  Prog.focus LoadState.as LoadState.setAs .vm m

/-! ## Stores to user memory -/

/-- The access of a store at `va`. A fault that `vm_fault` does not handle ends in `copyfail`. -/
def touch (E : LoadEnv) (va : Nat) : LoadM Unit := do
  Prog.modify (LoadState.tick E)
  let s ← Prog.get
  match s.tlb.access va true with
  | none => pure ()
  | some ft =>
    let r ← Prog.attempt (onTlb (vmFault (some s.as) ft va))
    match r with
    | .ok _ => pure ()
    | .error _ => Prog.raise .efault

def storeByte (E : LoadEnv) (va : Nat) (b : Byte) : LoadM Unit := do
  touch E va
  Prog.modify (LoadState.store va b)

/-- The stores of `memcpy`. -/
def storeBytes (E : LoadEnv) : Nat → List Byte → Nat → LoadM Unit
  | _, _, 0 => pure ()
  | va, src, n + 1 => do
    storeByte E va (src.headD 0)
    storeBytes E (va + 1) src.tail n

def copyout (E : LoadEnv) (src : List Byte) (userdest len : Nat) : LoadM Unit := do
  let stoplen ← Prog.ofExcept (Copyinout.copycheck (.ofNat 32 userdest) (.ofNat 32 len))
  if stoplen ≠ .ofNat 32 len then Prog.raise .efault
  else storeBytes E userdest src len

/-! ## Transfers -/

/-- A `struct uio` for reading. In user space `iovUbase` is where the bytes go to. -/
structure LoadUio extends Uio where
  iovUbase : Nat
  reads : uioRw = .read

namespace LoadUio

def InKernel (u : LoadUio) : Prop := u.uioSegflg = .sysspace

instance (u : LoadUio) : Decidable u.InKernel := inferInstanceAs (Decidable (_ = _))

/-- After the bytes `d` have been moved. -/
def advance (u : LoadUio) (d : List Byte) : LoadUio :=
  ⟨u.toUio.advance d, if u.InKernel then u.iovUbase else wrap (u.iovUbase + d.length), u.reads⟩

/-- `uio_resid += n` -/
def more (u : LoadUio) (n : Nat) : LoadUio :=
  ⟨{ u.toUio with uioResid := wrap (u.uioResid + n) }, u.iovUbase, u.reads⟩

end LoadUio

/-- The loop of `uiomove`. Every round moves at least one byte, so `n` rounds are enough. -/
def loadUiomoveLoop (E : LoadEnv) : Nat → List Byte → Nat → LoadUio → LoadM LoadUio
  | 0, _, _, u => pure u
  | rounds + 1, ptr, n, u =>
    if 0 < n ∧ 0 < u.uioResid then do
      let size := min u.iov.length n
      Prog.check (size ≠ 0) (.uio .sizeReachedZero)
      Prog.when (¬u.InKernel) (copyout E ptr u.iovUbase size)
      loadUiomoveLoop E rounds (ptr.drop size) (n - size) (u.advance (ptr.take size))
    else pure u

def loadUiomove (E : LoadEnv) (ptr : List Byte) (n : Nat) (u : LoadUio) : LoadM LoadUio := do
  Prog.check u.SpaceOk (.uio .space)
  loadUiomoveLoop E n ptr n u

def loadUiomovezerosLoop (E : LoadEnv) : Nat → Nat → LoadUio → LoadM LoadUio
  | 0, _, u => pure u
  | rounds + 1, n, u =>
    if 0 < n then do
      let amt := min zerosSize n
      let u ← loadUiomove E (List.replicate zerosSize 0) amt u
      loadUiomovezerosLoop E rounds (n - amt) u
    else pure u

def loadUiomovezeros (E : LoadEnv) (n : Nat) (u : LoadUio) : LoadM LoadUio := do
  Prog.check (u.uioRw = .read) (.uio .zerosNotRead)
  loadUiomovezerosLoop E n n u

/-- One call of `uiomove` for every piece. -/
def movePieces (E : LoadEnv) : List (List Byte) → LoadUio → LoadM LoadUio
  | [], u => pure u
  | p :: rest, u => do
    let u ← loadUiomove E p p.length u
    movePieces E rest u

def vopRead (E : LoadEnv) (u : LoadUio) : LoadM LoadUio := do
  let u' ← movePieces E (E.pieces u.uioOffset u.uioResid) u
  Prog.ofExcept (E.result u.uioOffset u.uioResid)
  pure u'

/-! ## Headers -/

def be16 (bs : List Byte) (i : Nat) : Nat :=
  (bs.getD i 0).toNat * 2 ^ 8 + (bs.getD (i + 1) 0).toNat

def be32 (bs : List Byte) (i : Nat) : Nat := be16 bs i * 2 ^ 16 + be16 bs (i + 2)

theorem be16_lt (bs : List Byte) (i : Nat) : be16 bs i < 2 ^ 16 := by
  have h1 := (bs.getD i 0).isLt
  have h2 := (bs.getD (i + 1) 0).isLt
  simp only [be16]
  omega

theorem be32_lt {bs : List Byte} {i : Nat} : be32 bs i < 2 ^ 32 := by
  have h1 := be16_lt bs i
  have h2 := be16_lt bs (i + 2)
  simp only [be32]
  omega

/-- The fields of `Elf_Ehdr` that `load_elf` looks at. -/
structure Ehdr where
  ident : List Byte
  type : Nat
  machine : Nat
  version : Nat
  entry : Nat
  phoff : Nat
  phentsize : Nat
  phnum : Nat
  deriving DecidableEq, Repr

def ehdrSize : Nat := 52

def Ehdr.parse (bs : List Byte) : Ehdr :=
  ⟨bs.take 7, be16 bs 16, be16 bs 18, be32 bs 20, be32 bs 24, be32 bs 28, be16 bs 42, be16 bs 44⟩

/-- A 32-bit executable of version 1 for the processor. -/
def Ehdr.Matches (eh : Ehdr) : Prop :=
  eh.ident = [0x7f, 0x45, 0x4c, 0x46, 1, 2, 1] ∧ eh.version = 1 ∧ eh.type = 2 ∧ eh.machine = 8

instance (eh : Ehdr) : Decidable eh.Matches := inferInstanceAs (Decidable (_ ∧ _ ∧ _ ∧ _))

/-- The fields of `Elf_Phdr` that `load_elf` looks at. -/
structure Phdr where
  type : Nat
  offset : Nat
  vaddr : Nat
  filesz : Nat
  memsz : Nat
  flags : Nat
  vaddr_lt : vaddr < 2 ^ 32
  memsz_lt : memsz < 2 ^ 32
  deriving DecidableEq

def phdrSize : Nat := 32

def Phdr.parse (bs : List Byte) : Phdr :=
  ⟨be32 bs 0, be32 bs 4, be32 bs 8, be32 bs 16, be32 bs 20, be32 bs 24, be32_lt, be32_lt⟩

def ptLoad : Nat := 1

/-- `PT_NULL`, `PT_PHDR` and `PT_MIPS_REGINFO`. -/
def Phdr.Skipped (ph : Phdr) : Prop := ph.type = 0 ∨ ph.type = 6 ∨ ph.type = 0x70000000

instance (ph : Phdr) : Decidable ph.Skipped := inferInstanceAs (Decidable (_ ∨ _ ∨ _))

def pfX : Nat := 1

/-- A descriptor of `mk_kuio` for reading. -/
def loadMkKuio (len pos : Nat) : LoadUio := ⟨mkKuio (List.replicate len 0) pos .read, 0, rfl⟩

/-- Read a header of `len` bytes. -/
def readHeader (E : LoadEnv) (len pos : Nat) : LoadM (List Byte) := do
  let ku ← vopRead E (loadMkKuio len pos)
  if ku.uioResid ≠ 0 then Prog.raise .enoexec else pure ku.moved

def phdrOffset (eh : Ehdr) (i : Nat) : Nat := wrap (eh.phoff + i * eh.phentsize)

def readPhdr (E : LoadEnv) (eh : Ehdr) (i : Nat) : LoadM Phdr := do
  let bs ← readHeader E phdrSize (phdrOffset eh i)
  pure (Phdr.parse bs)

/-- The body of the two loops over the segments: `f` is called for those of type `PT_LOAD`. -/
def forSegments (E : LoadEnv) (eh : Ehdr) (f : Phdr → LoadM Unit) : List Nat → LoadM Unit
  | [] => pure ()
  | i :: rest => do
    let ph ← readPhdr E eh i
    if ph.Skipped then forSegments E eh f rest
    else if ph.type = ptLoad then do
      f ph
      forSegments E eh f rest
    else Prog.raise .enoexec

/-! ## The loader -/

/-- The descriptor of `load_segment`. The buffer has `memsize` bytes, whatever they are. -/
def segmentUio (E : LoadEnv) (offset vaddr memsize filesize : Nat) (isExecutable : Bool) : LoadUio :=
  ⟨{ iov := List.replicate memsize 0, moved := [], mapped := memsize, uioOffset := offset,
     uioResid := filesize, uioSegflg := if isExecutable then .userispace else .userspace,
     uioRw := .read, uioSpace := some E.vmspace, tVmspace := some E.vmspace }, vaddr, rfl⟩

def loadSegment (E : LoadEnv) (offset vaddr memsize filesize : Nat) (isExecutable : Bool) :
    LoadM Unit := do
  let filesize := if filesize > memsize then memsize else filesize
  let u ← vopRead E (segmentUio E offset vaddr memsize filesize isExecutable)
  if u.uioResid ≠ 0 then Prog.raise .enoexec
  else
    let fillamt := memsize - filesize
    if fillamt > 0 then do
      let _ ← loadUiomovezeros E fillamt (u.more fillamt)
      pure ()
    else pure ()

/-- The call for a segment in the second loop. -/
def loadPhdr (E : LoadEnv) (ph : Phdr) : LoadM Unit :=
  loadSegment E ph.offset ph.vaddr ph.memsz ph.filesz (ph.flags &&& pfX ≠ 0)

/-- The first half of `load_elf`, up to the address space that has all of its memory. -/
def mapElf (E : LoadEnv) : LoadM Ehdr := do
  let bs ← readHeader E ehdrSize 0
  let eh := Ehdr.parse bs
  if eh.Matches then do
    forSegments E eh (fun ph => onAs (asDefineRegion ph.vaddr ph.memsz)) (List.range eh.phnum)
    Prog.focus (fun s => (s.ram, s.as)) LoadState.setRamAs .vm asPrepareLoad
    pure eh
  else Prog.raise .enoexec

/-- The result is the entry point. -/
def loadElf (E : LoadEnv) : LoadM Nat := do
  let eh ← mapElf E
  forSegments E eh (loadPhdr E) (List.range eh.phnum)
  pure eh.entry

/-- `runprogram` once it has a new address space: the results are the entry point and the stack
pointer. -/
def runprogram (E : LoadEnv) : LoadM (Nat × Nat) := do
  onTlb asActivate
  let entrypoint ← loadElf E
  let stackptr ← onAs asDefineStack
  pure (entrypoint, stackptr)

/-! ## The bytes that are served -/

namespace LoadEnv

/-- The bytes that `VOP_READ` moves in all. -/
def served (E : LoadEnv) (offset n : Nat) : List Byte := (E.pieces offset n).flatten

/-- All of the `n` bytes are moved, without an error. -/
def Whole (E : LoadEnv) (offset n : Nat) : Prop :=
  E.result offset n = .ok () ∧ (E.served offset n).length = n

def ehdr (E : LoadEnv) : Ehdr := Ehdr.parse (E.served 0 ehdrSize)

def phdr (E : LoadEnv) (eh : Ehdr) (i : Nat) : Phdr :=
  Phdr.parse (E.served (phdrOffset eh i) phdrSize)

/-- The segments of type `PT_LOAD` among the program headers `is`. -/
def loads (E : LoadEnv) (eh : Ehdr) (is : List Nat) : List Phdr :=
  (is.map (E.phdr eh)).filter fun ph => ph.type = ptLoad

def segments (E : LoadEnv) : List Phdr := E.loads E.ehdr (List.range E.ehdr.phnum)

end LoadEnv

section

variable {E : LoadEnv} {s : LoadState} {u : LoadUio} {K : LoadPanic → Prop} {n rounds : Nat}
  {ptr : List Byte}

theorem loadUiomoveLoop_zero : loadUiomoveLoop E rounds ptr 0 u = pure u := by
  cases rounds <;> simp [loadUiomoveLoop]

/-- A copy stops only in `vm_fault`. -/
theorem copyout_stops_in {src : List Byte} {userdest len : Nat} :
    Prog.Sat (fun p => ∃ q, p = .vm q) (copyout E src userdest len) s fun _ _ => True := by
  have htouch (va : Nat) (s : LoadState) :
      Prog.Sat (fun p => ∃ q, p = .vm q) (touch E va) s fun _ _ => True := by
    simp only [touch, Prog.sat_bind, Prog.sat_modify, Prog.sat_get]
    split
    · trivial
    · simp only [Prog.sat_bind, Prog.sat_attempt, onTlb, Prog.sat_focus]
      unfold Prog.Sat
      split
      · exact ⟨_, rfl⟩
      · next r t _ => cases r <;> trivial
  have hstore (n va : Nat) (src : List Byte) (s : LoadState) :
      Prog.Sat (fun p => ∃ q, p = .vm q) (storeBytes E va src n) s fun _ _ => True := by
    induction n generalizing va src s with
    | zero => trivial
    | succ n ih =>
      refine ((htouch va s).bind (fun _ t _ => ?_) fun _ _ _ => trivial).bind
        (Q := fun _ _ => True) (fun _ t _ => ih _ _ t) fun _ _ _ => trivial
      trivial
  simp only [copyout, Prog.sat_bind, Prog.sat_ofExcept]
  split
  · rw [Prog.sat_ite]
    split
    · trivial
    · exact hstore _ _ _ _
  · trivial

/-- One round of the loop of `Kern.uiomove` for reading. -/
theorem uiomoveLoop_round {v : Uio} (hr : v.uioRw = .read) (hpos : 0 < n ∧ 0 < v.uioResid)
    (hsize : min v.iov.length n ≠ 0) (hfaults : ¬v.Faults (min v.iov.length n)) :
    uiomoveLoop (rounds + 1) ptr n v = (do
      let rest ← uiomoveLoop rounds (ptr.drop (min v.iov.length n)) (n - min v.iov.length n)
      pure (ptr.take (min v.iov.length n) ++ rest))
        (v.advance (ptr.take (min v.iov.length n))) := by
  simp only [uiomoveLoop, Prog.bind_apply, Prog.get, if_pos hpos, Prog.check, if_pos hsize,
    if_neg hfaults, hr]
  rfl

theorem loadUiomoveLoop_refines (hm : u.mapped = u.iov.length) :
    Prog.Sat (fun p => ∀ q, p = .uio q → uiomoveLoop rounds ptr n u.toUio = .error q)
      (loadUiomoveLoop E rounds ptr n u) s fun r _ =>
        ∀ u', r = .ok u' → ∃ d, uiomoveLoop rounds ptr n u.toUio = .ok (.ok d, u'.toUio) := by
  induction rounds generalizing ptr n u s with
  | zero =>
    intro u' hr
    exact ⟨[], by rw [← Except.ok.inj hr]; rfl⟩
  | succ rounds ih =>
    simp only [loadUiomoveLoop, Prog.sat_ite]
    split
    · next hpos =>
      simp only [Prog.sat_bind, Prog.sat_check]
      split
      · next hsize =>
        have hfaults : ¬u.toUio.Faults (min u.iov.length n) := fun hf =>
          Nat.not_lt.2 (by omega) hf.2
        have hround : uiomoveLoop (rounds + 1) ptr n u.toUio = _ :=
          uiomoveLoop_round u.reads hpos hsize hfaults
        generalize min u.iov.length n = k at hround ⊢
        have hadv : (u.advance (ptr.take k)).mapped = (u.advance (ptr.take k)).iov.length := by
          simp only [LoadUio.advance, Uio.advance, List.length_drop, hm]
        have hrest (t : LoadState) : Prog.Sat
            (fun p => ∀ q, p = .uio q → uiomoveLoop (rounds + 1) ptr n u.toUio = .error q)
            (loadUiomoveLoop E rounds (ptr.drop k) (n - k) (u.advance (ptr.take k))) t fun r _ =>
              ∀ u', r = .ok u' →
                ∃ d, uiomoveLoop (rounds + 1) ptr n u.toUio = .ok (.ok d, u'.toUio) := by
          rw [hround]
          refine ((ih hadv).weaken fun p hp q hq => ?_).mono fun r _ hr u' hu' => ?_
          · have hstop : uiomoveLoop rounds (ptr.drop k) (n - k) (u.toUio.advance (ptr.take k)) =
                .error q := hp q hq
            rw [Prog.bind_apply, hstop]
          · obtain ⟨d, hd⟩ := hr u' hu'
            have hdone : uiomoveLoop rounds (ptr.drop k) (n - k) (u.toUio.advance (ptr.take k)) =
                .ok (.ok d, u'.toUio) := hd
            exact ⟨ptr.take k ++ d, by rw [Prog.bind_apply, hdone]; rfl⟩
        rw [Prog.sat_when]
        split
        · refine (copyout_stops_in.weaken ?_).mono fun r t _ => ?_
          · rintro _ ⟨q, rfl⟩ _ ⟨⟩
          · cases r with
            | error e => exact fun _ hr => by cases hr
            | ok _ => exact hrest t
        · exact hrest s
      · next hsize =>
        rintro _ ⟨⟩
        simp only [uiomoveLoop, Prog.bind_apply, Prog.get, if_pos hpos, Prog.check, if_neg hsize]
        rfl
    · next hpos =>
      intro u' hr
      refine ⟨[], ?_⟩
      rw [← Except.ok.inj hr]
      simp only [uiomoveLoop, Prog.bind_apply, Prog.get, if_neg hpos]
      rfl

/-- Where it returns, this `uiomove` has moved what `Kern.uiomove` moves, and an assertion of
`uiomove` that it stops in is one that `Kern.uiomove` stops in. Of the copies `Kern.uiomove`
knows only whether they fault. -/
theorem loadUiomove_refines (hm : u.mapped = u.iov.length) :
    Prog.Sat (fun p => ∀ q, p = .uio q → uiomove ptr n u.toUio = .error q)
      (loadUiomove E ptr n u) s fun r _ =>
        ∀ u', r = .ok u' → ∃ d, uiomove ptr n u.toUio = .ok (.ok d, u'.toUio) := by
  simp only [loadUiomove, uiomove, Prog.sat_bind, Prog.sat_check, Prog.bind_apply, Prog.get]
  split
  · next hspace =>
    simp only [Prog.check, hspace, if_true]
    exact loadUiomoveLoop_refines hm
  · next hspace =>
    rintro q ⟨⟩
    simp only [Prog.check, hspace, if_false]
    rfl

end

end Os161.Vm
