import Os161.Vm.Loadelf

/-!
# Which executables stop the machine

`vm_fault` asserts that the address space has two regions with pages, not at address 0. `load_elf`
does not see to it: an executable with fewer such segments gets an address space that does not pass.
The first access to user memory then stops the machine.
-/
namespace Os161.Vm

open Lib Kern Prog
open Kheap (pageSize)

/-- The machine runs on. -/
def NoStop : LoadPanic → Prop := fun _ => False

/-- No fault of a program with this address space stops the machine. -/
def Addrspace.Faultless (as : Addrspace) : Prop :=
  ∀ ft va tlb, ft = .read ∨ ft = .write → va < usertop →
    ∃ out, vmFault (some as) ft va tlb = .ok out

/-- Neither `runprogram` nor the program that it has loaded stops the machine. -/
def LoadSafe (E : LoadEnv) (s : LoadState) : Prop :=
  Prog.Sat NoStop (runprogram E) s fun r t => match r with
    | .ok _ => t.as.Faultless
    | .error _ => True

/-! ## The condition -/

def Phdr.region (ph : Phdr) : DefineCall := ⟨ph.vaddr, ph.memsz, ph.vaddr_lt, ph.memsz_lt⟩

def Phdr.InPageZero (ph : Phdr) : Prop := pageFrame ph.vaddr = 0

instance (ph : Phdr) : Decidable ph.InPageZero := inferInstanceAs (Decidable (_ = _))

/-- The segment that stays in a slot of the address space if these are entered one after the other.
A segment in page 0 is overwritten by the next one. -/
def slot (L : List Phdr) : Option Phdr := (L.find? fun ph => ¬ph.InPageZero).or L.getLast?

/-- The segments that are left for the next slot. -/
def afterSlot (L : List Phdr) : List Phdr := (L.dropWhile fun ph => ph.InPageZero).tail

def slotPages (o : Option Phdr) : Nat := o.elim 0 fun ph => ph.region.npages

/-- The slot has a region with pages that is not in page 0. -/
def Occupied (o : Option Phdr) : Prop := ∃ ph, o = some ph ∧ ¬ph.InPageZero ∧ ph.region.npages ≠ 0

/-- The test of `ram_stealmem` for one number of pages after the other, from the first free address
on. -/
def Grants (last : Nat) : Nat → List Nat → Prop
  | _, [] => True
  | first, n :: ns => first ≠ 0 ∧ wrap (first + wrap (n * pageSize)) ≤ last ∧
      Grants last (wrap (first + wrap (n * pageSize))) ns

namespace LoadEnv

/-- The program header is there, and its type is known. -/
def Known (E : LoadEnv) (eh : Ehdr) (i : Nat) : Prop :=
  E.Whole (phdrOffset eh i) phdrSize ∧ ((E.phdr eh i).Skipped ∨ (E.phdr eh i).type = ptLoad)

/-- The headers are in order, there is no segment for a third region, and there is memory for the
two regions and the stack. -/
structure Maps (E : LoadEnv) (ram : Ram) : Prop where
  whole : E.Whole 0 ehdrSize
  elf : E.ehdr.Matches
  known : ∀ i ∈ List.range E.ehdr.phnum, E.Known E.ehdr i
  noThird : afterSlot (afterSlot E.segments) = []
  memory : Grants ram.lastpaddr ram.firstpaddr
    [slotPages (slot E.segments), slotPages (slot (afterSlot E.segments)), dumbvmStackpages]

def TwoRegions (E : LoadEnv) : Prop :=
  Occupied (slot E.segments) ∧ Occupied (slot (afterSlot E.segments))

end LoadEnv

/-- There is nothing to copy, and `VOP_READ` of nothing is no error. -/
def Phdr.Idle (E : LoadEnv) (ph : Phdr) : Prop := ph.memsz = 0 ∧ E.result ph.offset 0 = .ok ()

/-- The segment is refused before memory is touched: nothing of it can be read, or the first copy
does not end below `USERTOP`. -/
def Phdr.Refused (E : LoadEnv) (ph : Phdr) : Prop :=
  match E.pieces ph.offset (min ph.filesz ph.memsz) with
  | p :: _ => usertop < ph.vaddr + p.length
  | [] => E.result ph.offset (min ph.filesz ph.memsz) ≠ .ok () ∨ min ph.filesz ph.memsz ≠ 0 ∨
      usertop < ph.vaddr + min zerosSize ph.memsz

/-- The first segment that is not idle is refused. -/
def LoadEnv.Escapes (E : LoadEnv) (L : List Phdr) : Prop :=
  ∃ before ph after, L = before ++ ph :: after ∧ (∀ q ∈ before, q.Idle E) ∧ ¬ph.Idle E ∧ ph.Refused E

/-- The headers are refused, or there are two regions, or the first segment is refused. -/
def Loadable (E : LoadEnv) (ram : Ram) : Prop :=
  E.Maps ram → E.TwoRegions ∨ E.Escapes E.segments

def LoadState.start (ram : Ram) (mem : Word → Byte) : LoadState :=
  ⟨asCreate, ram, fun i => tlbInvalid i, 0, mem, []⟩

variable {n rounds len vaddr va offset memsize filesize : Nat} {K : LoadPanic → Prop} {ram : Ram}
  {mem : Word → Byte} {isExecutable : Bool} {E : LoadEnv} {s t : LoadState} {u : LoadUio}
  {eh : Ehdr} {i : Nat} {is : List Nat} {ph : Phdr} {L : List Phdr} {ptr : List Byte}

/-! ## Headers -/

section Kernel

/-- A descriptor of `mk_kuio`, some of which may have been used. -/
structure LoadUio.Kernel (u : LoadUio) : Prop where
  seg : u.uioSegflg = .sysspace
  space : u.SpaceOk
  len : u.iov.length = u.uioResid
  lt : u.uioResid < 2 ^ 32

theorem LoadUio.Kernel.uiomove (U : u.Kernel) (hn : n ≤ u.uioResid) (hpos : 0 < n) :
    loadUiomove E ptr n u = pure (u.advance (ptr.take n)) := by
  obtain ⟨n, rfl⟩ := Nat.exists_eq_succ_of_ne_zero (Nat.ne_of_gt hpos)
  have hresid : 0 < u.uioResid := by omega
  have hsize : min u.iov.length (n + 1) = n + 1 := by
    have := U.len
    omega
  have hkernel : u.InKernel := U.seg
  simp [loadUiomove, U.space, hkernel, loadUiomoveLoop, hresid, hsize, Prog.check, Prog.when,
    loadUiomoveLoop_zero, Prog.pure_bind]

theorem LoadUio.Kernel.advance (U : u.Kernel) {d : List Byte} (hn : d.length ≤ u.uioResid) :
    (u.advance d).Kernel ∧ (u.advance d).uioResid = u.uioResid - d.length := by
  have hsub : sub32 u.uioResid d.length = u.uioResid - d.length := sub32_of_le hn U.lt
  have hlen := U.len
  have hlt := U.lt
  refine ⟨⟨U.seg, U.space, ?_, ?_⟩, hsub⟩
  · simp only [LoadUio.advance, Uio.advance, hsub, List.length_drop]
    omega
  · simp only [LoadUio.advance, Uio.advance, hsub]
    omega

/-- The pieces that are moved to a kernel buffer are what is in it. -/
theorem LoadUio.Kernel.movePieces {ps : List (List Byte)} (U : u.Kernel)
    (hne : ∀ p ∈ ps, p ≠ []) (hle : ps.flatten.length ≤ u.uioResid) :
    ∃ u', Vm.movePieces E ps u = pure u' ∧ u'.moved = u.moved ++ ps.flatten ∧
      u'.uioResid = u.uioResid - ps.flatten.length := by
  induction ps generalizing u with
  | nil => exact ⟨u, rfl, by simp, by simp⟩
  | cons p ps ih =>
    obtain ⟨hp, hne⟩ := List.forall_mem_cons.1 hne
    rw [List.flatten_cons, List.length_append] at hle
    obtain ⟨U', hresid⟩ := U.advance (d := p) (by omega)
    obtain ⟨u', hrun, hmoved, hresid'⟩ := ih U' hne (by omega)
    refine ⟨u', ?_, ?_, ?_⟩
    · rw [Vm.movePieces, U.uiomove (by omega) (List.length_pos_iff.2 hp), List.take_length,
        Prog.pure_bind, hrun]
    · rw [hmoved, List.flatten_cons, ← List.append_assoc]
      rfl
    · rw [hresid', hresid, List.flatten_cons, List.length_append, Nat.sub_sub]

/-- What reading a header gives. -/
def LoadEnv.header (E : LoadEnv) (len pos : Nat) : Except Errno (List Byte) :=
  match E.result pos len with
  | .error e => .error e
  | .ok _ => if (E.served pos len).length = len then .ok (E.served pos len) else .error .enoexec

theorem LoadEnv.header_of_whole {pos : Nat} (h : E.Whole pos len) :
    E.header len pos = .ok (E.served pos len) := by
  simp only [LoadEnv.header, h.1, h.2, if_true]

theorem LoadEnv.header_of_not_whole {pos : Nat} (h : ¬E.Whole pos len) :
    ∃ e, E.header len pos = .error e := by
  unfold LoadEnv.header
  split
  · exact ⟨_, rfl⟩
  · next hr => exact ⟨_, if_neg fun hl => h ⟨hr, hl⟩⟩

theorem readHeader_eq {pos : Nat} (hlen : len < 2 ^ 32) :
    readHeader E len pos = Prog.ofExcept (E.header len pos) := by
  have U : (loadMkKuio len pos).Kernel := ⟨rfl, rfl, by simp [loadMkKuio, mkKuio], by simpa
    [loadMkKuio, mkKuio] using hlen⟩
  have hresid : (loadMkKuio len pos).uioResid = len := by simp [loadMkKuio, mkKuio]
  obtain ⟨u', hrun, hmoved, hrest⟩ := U.movePieces (E := E) (E.ne_nil pos len)
    (hresid.symm ▸ E.le pos len)
  have hle := E.le pos len
  rw [hresid] at hrest
  unfold readHeader vopRead
  rw [hresid, show (loadMkKuio len pos).uioOffset = pos from rfl, hrun, Prog.pure_bind]
  unfold LoadEnv.header LoadEnv.served
  cases E.result pos len with
  | error e => rfl
  | ok a =>
    change (if u'.uioResid ≠ 0 then Prog.raise Errno.enoexec else pure u'.moved) = _
    by_cases hfull : (E.pieces pos len).flatten.length = len
    · rw [if_neg (by omega), if_pos hfull, hmoved]
      rfl
    · rw [if_pos (by omega), if_neg hfull]
      rfl

theorem readPhdr_eq : readPhdr E eh i =
    Prog.ofExcept ((E.header phdrSize (phdrOffset eh i)).map Phdr.parse) := by
  have hsize : phdrSize < 2 ^ 32 := by decide
  rw [readPhdr, readHeader_eq hsize]
  cases E.header phdrSize (phdrOffset eh i) <;> rfl

end Kernel

theorem Phdr.Skipped.not_load (h : ph.Skipped) : ph.type ≠ ptLoad := by
  simp only [Phdr.Skipped, ptLoad] at h ⊢
  omega

theorem forM_segments_cons {f : Phdr → LoadM Unit} :
    (ph :: L).forM f = (do f ph; L.forM f) := rfl

/-- If all program headers are known, then the function is called for the segments one after the
other. -/
theorem forSegments_known {f : Phdr → LoadM Unit} (h : ∀ i ∈ is, E.Known eh i) :
    forSegments E eh f is = (E.loads eh is).forM f := by
  induction is with
  | nil => rfl
  | cons i is ih =>
    obtain ⟨hi, his⟩ := List.forall_mem_cons.1 h
    have hphdr : readPhdr E eh i = pure (E.phdr eh i) := by
      rw [readPhdr_eq, LoadEnv.header_of_whole hi.1]
      rfl
    rw [forSegments, hphdr, Prog.pure_bind, ih his]
    by_cases hskip : (E.phdr eh i).Skipped
    · have hloads : E.loads eh (i :: is) = E.loads eh is :=
        List.filter_cons_of_neg (by simpa using hskip.not_load)
      rw [if_pos hskip, hloads]
    · have hload := hi.2.resolve_left hskip
      have hloads : E.loads eh (i :: is) = E.phdr eh i :: E.loads eh is :=
        List.filter_cons_of_pos (by simpa using hload)
      rw [if_neg hskip, if_pos hload, hloads, forM_segments_cons]

/-- Otherwise it is called for some of them, and an error is returned. -/
theorem forSegments_unknown {f : Phdr → LoadM Unit} (h : ¬∀ i ∈ is, E.Known eh i) :
    ∃ (L : List Phdr) (e : Errno), forSegments E eh f is = (do L.forM f; Prog.raise e) := by
  induction is with
  | nil => exact absurd (by simp) h
  | cons i is ih =>
    rw [forSegments, readPhdr_eq]
    by_cases hwhole : E.Whole (phdrOffset eh i) phdrSize
    · rw [LoadEnv.header_of_whole hwhole]
      change ∃ (L : List Phdr) (e : Errno), (if (E.phdr eh i).Skipped then forSegments E eh f is
        else if (E.phdr eh i).type = ptLoad then do
          f (E.phdr eh i)
          forSegments E eh f is
        else Prog.raise .enoexec) = (do L.forM f; Prog.raise e)
      have hrest (hi : (E.phdr eh i).Skipped ∨ (E.phdr eh i).type = ptLoad) :
          ∃ (L : List Phdr) (e : Errno), forSegments E eh f is = (do L.forM f; Prog.raise e) :=
        ih fun his => h (List.forall_mem_cons.2 ⟨⟨hwhole, hi⟩, his⟩)
      split
      · next hskip => exact hrest (.inl hskip)
      · split
        · next hload =>
          obtain ⟨L, e, hL⟩ := hrest (.inr hload)
          refine ⟨E.phdr eh i :: L, e, ?_⟩
          rw [hL, forM_segments_cons, Prog.bind_assoc]
        · exact ⟨[], _, rfl⟩
    · obtain ⟨e, he⟩ := LoadEnv.header_of_not_whole hwhole
      rw [he]
      exact ⟨[], e, rfl⟩

/-- An invariant that the calls for the segments keep. -/
theorem forM_sat {I : LoadState → Prop} {f : Phdr → LoadM Unit}
    (hf : ∀ ph t, I t → Sat K (f ph) t fun _ t' => I t') (hs : I s) :
    Sat K (L.forM f) s fun _ t => I t := by
  induction L generalizing s with
  | nil => exact hs
  | cons ph L ih =>
    rw [forM_segments_cons]
    exact (hf ph s hs).bind (fun _ t ht => ih ht) fun _ _ ht => ht

/-! ## The regions -/

section Slots

theorem slot_cons_of_ne (h : ¬ph.InPageZero) : slot (ph :: L) = some ph := by
  simp [slot, h]

theorem slot_cons_of_zero (h : ph.InPageZero) : slot (ph :: L) = (slot L).or (some ph) := by
  cases L with
  | nil => simp [slot, h]
  | cons q L =>
    unfold slot
    rw [List.find?_cons_of_neg (by simpa using h), List.getLast?_cons_cons]
    cases hf : (q :: L).find? fun ph => decide ¬ph.InPageZero with
    | some r => rfl
    | none =>
      rw [Option.none_or, Option.or_of_isSome (by simp)]

theorem afterSlot_cons_of_ne (h : ¬ph.InPageZero) : afterSlot (ph :: L) = L := by
  simp [afterSlot, h]

theorem afterSlot_cons_of_zero (h : ph.InPageZero) : afterSlot (ph :: L) = afterSlot L := by
  simp [afterSlot, h]

/-- A slot behind which segments are left is in use. -/
theorem slot_of_afterSlot (h : afterSlot L ≠ []) : ∃ ph, slot L = some ph ∧ ¬ph.InPageZero := by
  induction L with
  | nil => exact absurd rfl h
  | cons ph L ih =>
    by_cases hz : ph.InPageZero
    · rw [afterSlot_cons_of_zero hz] at h
      obtain ⟨q, hq, hne⟩ := ih h
      exact ⟨q, by rw [slot_cons_of_zero hz, hq]; rfl, hne⟩
    · exact ⟨ph, slot_cons_of_ne hz, hz⟩

/-- The call for a segment in the first loop. -/
def definePhdr (ph : Phdr) : LoadM Unit := onAs (asDefineRegion ph.vaddr ph.memsz)

/-- The segments are entered into a free slot until one stays there. -/
theorem define_slot (put : DefineCall → Addrspace → Addrspace) (Free : Addrspace → Prop)
    (hput : ∀ as c, Free as → asDefineRegion c.vaddr c.sz as = .ok (.ok (), put c as))
    (hfree : ∀ as c, Free as → pageFrame c.vaddr = 0 → Free (put c as))
    (hover : ∀ as c d, put d (put c as) = put d as) (h : Free s.as) :
    L.forM definePhdr s = (afterSlot L).forM definePhdr
      (s.setAs ((slot L).elim s.as fun ph => put ph.region s.as)) := by
  induction L generalizing s with
  | nil => rfl
  | cons ph L ih =>
    have hcall : definePhdr ph s = .ok (.ok (), s.setAs (put ph.region s.as)) := by
      unfold definePhdr onAs Prog.focus
      rw [show asDefineRegion ph.vaddr ph.memsz s.as = _ from hput s.as ph.region h]
    rw [forM_segments_cons, Prog.bind_apply, hcall]
    by_cases hz : ph.InPageZero
    · rw [slot_cons_of_zero hz, afterSlot_cons_of_zero hz]
      refine (ih (s := s.setAs (put ph.region s.as)) (hfree _ _ h hz)).trans ?_
      cases slot L with
      | none => rfl
      | some q =>
        exact congrArg (fun as => (afterSlot L).forM definePhdr (s.setAs as)) (hover s.as ph.region q.region)
    · rw [slot_cons_of_ne hz, afterSlot_cons_of_ne hz]
      rfl

def Addrspace.putFirst (c : DefineCall) (as : Addrspace) : Addrspace :=
  { as with vbase1 := pageFrame c.vaddr, npages1 := c.npages }

def Addrspace.putSecond (c : DefineCall) (as : Addrspace) : Addrspace :=
  { as with vbase2 := pageFrame c.vaddr, npages2 := c.npages }

/-- The address space after the first loop. -/
def mapped (L : List Phdr) : Addrspace :=
  (slot (afterSlot L)).elim ((slot L).elim asCreate fun ph => asCreate.putFirst ph.region) fun q =>
    ((slot L).elim asCreate fun ph => asCreate.putFirst ph.region).putSecond q.region

theorem define_two (h : s.as = asCreate) : L.forM definePhdr s =
    (afterSlot (afterSlot L)).forM definePhdr (s.setAs (mapped L)) := by
  have hfirst := define_slot (L := L) (s := s) Addrspace.putFirst
    (fun as => as.vbase1 = 0) (fun _ _ h => asDefineRegion_slot1 h) (fun _ _ _ hz => hz)
    (fun _ _ _ => rfl) (by rw [h]; rfl)
  rw [hfirst, h]
  by_cases hnil : afterSlot L = []
  · unfold mapped
    rw [hnil]
    rfl
  · obtain ⟨ph, hph, hne⟩ := slot_of_afterSlot hnil
    refine (define_slot Addrspace.putSecond
      (fun as => as.vbase1 ≠ 0 ∧ as.vbase2 = 0) (fun _ _ h => asDefineRegion_slot2 h.1 h.2)
      (fun _ _ h hz => ⟨h.1, hz⟩) (fun _ _ _ => rfl) ?_).trans ?_
    · rw [hph]
      exact ⟨hne, rfl⟩
    · rfl

/-- The first loop enters the segments, or finds one too many. -/
theorem define_sat (h : s.as = asCreate) :
    Sat NoStop (L.forM definePhdr) s fun r t => t.tlb = s.tlb ∧ t.ram = s.ram ∧
      (r = .ok () ∧ afterSlot (afterSlot L) = [] ∧ t.as = mapped L ∨
        r = .error .eunimp ∧ afterSlot (afterSlot L) ≠ []) := by
  unfold Sat
  rw [define_two h]
  cases hrest : afterSlot (afterSlot L) with
  | nil => exact ⟨rfl, rfl, .inl ⟨rfl, rfl, rfl⟩⟩
  | cons q rest =>
    have hne : afterSlot (afterSlot L) ≠ [] := by simp [hrest]
    have hnil : afterSlot L ≠ [] := fun hnil => hne (by rw [hnil]; rfl)
    obtain ⟨ph, hph, hz⟩ := slot_of_afterSlot hnil
    obtain ⟨ph', hph', hz'⟩ := slot_of_afterSlot hne
    have hfull : (mapped L).Full := by
      unfold mapped
      rw [hph, hph']
      exact ⟨hz, hz'⟩
    have hcall : definePhdr q (s.setAs (mapped L)) = .ok (.error .eunimp, s.setAs (mapped L)) := by
      unfold definePhdr onAs Prog.focus
      rw [show asDefineRegion q.vaddr q.memsz (s.setAs (mapped L)).as = _ from
        asDefineRegion_full (c := q.region) hfull]
      rfl
    rw [forM_segments_cons, Prog.bind_apply, hcall]
    exact ⟨rfl, rfl, .inr ⟨rfl, by simp⟩⟩

def Addrspace.TwoRegions (as : Addrspace) : Prop :=
  as.vbase1 ≠ 0 ∧ as.npages1 ≠ 0 ∧ as.vbase2 ≠ 0 ∧ as.npages2 ≠ 0

theorem mapped_twoRegions : (mapped L).TwoRegions ↔
    Occupied (slot L) ∧ Occupied (slot (afterSlot L)) := by
  unfold Addrspace.TwoRegions mapped Occupied Phdr.InPageZero
  cases slot L <;> cases slot (afterSlot L) <;>
    simp [asCreate, Addrspace.putFirst, Addrspace.putSecond, Phdr.region, and_assoc]

theorem mapped_npages : (mapped L).npages1 = slotPages (slot L) ∧
    (mapped L).npages2 = slotPages (slot (afterSlot L)) := by
  unfold mapped slotPages
  cases slot L <;> cases slot (afterSlot L) <;> exact ⟨rfl, rfl⟩

/-- The address space has no memory yet. -/
structure Addrspace.Fresh (as : Addrspace) : Prop where
  pbase1 : as.pbase1 = 0
  pbase2 : as.pbase2 = 0
  stackpbase : as.stackpbase = 0
  vbase1 : pageSize ∣ as.vbase1
  vbase2 : pageSize ∣ as.vbase2

theorem mapped_fresh : (mapped L).Fresh := by
  unfold mapped
  cases slot L <;> cases slot (afterSlot L) <;>
    first
    | exact ⟨rfl, rfl, rfl, Nat.dvd_zero _, Nat.dvd_zero _⟩
    | exact ⟨rfl, rfl, rfl, Nat.dvd_zero _, pageSize_dvd_pageFrame⟩
    | exact ⟨rfl, rfl, rfl, pageSize_dvd_pageFrame, Nat.dvd_zero _⟩
    | exact ⟨rfl, rfl, rfl, pageSize_dvd_pageFrame, pageSize_dvd_pageFrame⟩

end Slots

/-! ## The memory -/

theorem preparePages_sat {p : Ram × Addrspace} {set : Nat → Addrspace → Addrspace} :
    Sat (fun _ => False) (preparePages n set) p fun r p' =>
      r = .ok () ∧ p'.2 = set p.1.firstpaddr p.2 ∧ p'.1.lastpaddr = p.1.lastpaddr ∧
        p'.1.firstpaddr = wrap (p.1.firstpaddr + wrap (n * pageSize)) ∧ p.1.firstpaddr ≠ 0 ∧
        wrap (p.1.firstpaddr + wrap (n * pageSize)) ≤ p.1.lastpaddr ∨
      r = .error .enomem ∧ ¬(p.1.firstpaddr ≠ 0 ∧
        wrap (p.1.firstpaddr + wrap (n * pageSize)) ≤ p.1.lastpaddr) := by
  simp only [preparePages, sat_bind, sat_get, sat_modify, Ram.getppages, Ram.ramStealmem]
  by_cases hlt : wrap (p.1.firstpaddr + wrap (n * pageSize)) > p.1.lastpaddr
  · simp only [hlt, dif_pos, if_true]
    exact .inr ⟨rfl, fun h => Nat.not_lt.2 h.2 hlt⟩
  · simp only [hlt, dif_neg, not_false_eq_true]
    split
    · next hzero => exact .inr ⟨rfl, fun h => h.1 hzero⟩
    · next hpos => exact .inl ⟨rfl, rfl, rfl, rfl, hpos, Nat.not_lt.1 hlt⟩

/-- The address space has memory, and `vm_fault` asks for no more than two regions. -/
structure Addrspace.Backed (as : Addrspace) : Prop where
  pbase1 : as.pbase1 ≠ 0 ∧ pageSize ∣ as.pbase1
  pbase2 : as.pbase2 ≠ 0 ∧ pageSize ∣ as.pbase2
  stackpbase : as.stackpbase ≠ 0 ∧ pageSize ∣ as.stackpbase
  vbase1 : pageSize ∣ as.vbase1
  vbase2 : pageSize ∣ as.vbase2

theorem Addrspace.Backed.setUp_iff {as : Addrspace} (h : as.Backed) : as.SetUp ↔ as.TwoRegions := by
  simp [Addrspace.SetUp, Addrspace.asserts, Addrspace.TwoRegions, pageFrame_eq_self, h.pbase1,
    h.pbase2, h.stackpbase, h.vbase1, h.vbase2]

theorem asPrepareLoad_sat {as : Addrspace} (h : as.Fresh) :
    Sat (fun _ => False) asPrepareLoad (ram, as) fun r p =>
      r = .ok () ∧ p.2.Backed ∧ (p.2.TwoRegions ↔ as.TwoRegions) ∧
        Grants ram.lastpaddr ram.firstpaddr [as.npages1, as.npages2, dumbvmStackpages] ∨
      r = .error .enomem ∧
        ¬Grants ram.lastpaddr ram.firstpaddr [as.npages1, as.npages2, dumbvmStackpages] := by
  have hchecks : ∀ c ∈ [(decide (as.pbase1 = 0), VmPanic.loadPbase1),
      (decide (as.pbase2 = 0), .loadPbase2), (decide (as.stackpbase = 0), .loadStackpbase)],
      c.1 = true := by
    simp [h.pbase1, h.pbase2, h.stackpbase]
  rw [asPrepareLoad, sat_bind, sat_get]
  dsimp only
  rw [sat_bind, sat_checkAll hchecks]
  dsimp only
  -- how many pages the stack has plays no role
  generalize dumbvmStackpages = n
  simp only [Grants]
  refine preparePages_sat.bind ?_ ?_
  swap
  · rintro e p (⟨hr, -⟩ | ⟨hr, hno⟩)
    · cases hr
    · exact .inr ⟨hr, fun hg => hno ⟨hg.1, hg.2.1⟩⟩
  rintro _ p1 (⟨-, has1, hlast1, hfirst1, hpos1, hle1⟩ | ⟨hr, -⟩)
  swap
  · cases hr
  refine preparePages_sat.bind ?_ ?_
  swap
  · rintro e p (⟨hr, -⟩ | ⟨hr, hno⟩)
    · cases hr
    · refine .inr ⟨hr, fun hg => hno ?_⟩
      rw [hfirst1, hlast1]
      exact ⟨hg.2.2.1, hg.2.2.2.1⟩
  rintro _ p2 (⟨-, has2, hlast2, hfirst2, hpos2, hle2⟩ | ⟨hr, -⟩)
  swap
  · cases hr
  refine preparePages_sat.mono ?_
  rintro r p3 (⟨hr, has3, -, -, hpos3, hle3⟩ | ⟨hr, hno⟩)
  · rw [hfirst1] at hfirst2 hpos2 hle2
    rw [hlast1] at hlast2 hle2
    rw [hfirst2, hlast2] at hle3
    have hpos3' := hpos3
    rw [hfirst2] at hpos3'
    refine .inl ⟨hr, ?_, ?_, hpos1, hle1, hpos2, hle2, hpos3', hle3, trivial⟩
    · rw [has3, has2, has1]
      exact ⟨⟨hpos1, ram.aligned⟩, ⟨hfirst1 ▸ hpos2, p1.1.aligned⟩, ⟨hpos3, p2.1.aligned⟩, h.vbase1,
        h.vbase2⟩
    · rw [has3, has2, has1]
      exact Iff.rfl
  · refine .inr ⟨hr, fun hg => hno ?_⟩
    rw [hfirst2, hlast2, hfirst1, hlast1]
    exact ⟨hg.2.2.2.2.1, hg.2.2.2.2.2.1⟩

/-- The first half of `load_elf` returns without an error just where the condition on the headers
and the memory holds. -/
theorem mapElf_sat (E : LoadEnv) (ram : Ram) (mem : Word → Byte) : Sat NoStop (mapElf E) (LoadState.start ram mem) fun r t =>
    t.tlb = (LoadState.start ram mem).tlb ∧
      (r = .ok E.ehdr ∧ E.Maps ram ∧ t.as.Backed ∧ (t.as.TwoRegions ↔ E.TwoRegions) ∨
        (∃ e, r = .error e) ∧ ¬E.Maps ram) := by
  have hsize : ehdrSize < 2 ^ 32 := by decide
  rw [mapElf, readHeader_eq hsize, sat_bind, sat_ofExcept]
  by_cases hwhole : E.Whole 0 ehdrSize
  swap
  · obtain ⟨e, he⟩ := LoadEnv.header_of_not_whole hwhole
    rw [he]
    exact ⟨rfl, .inr ⟨⟨e, rfl⟩, fun h => hwhole h.whole⟩⟩
  rw [LoadEnv.header_of_whole hwhole]
  dsimp only
  rw [show Ehdr.parse (E.served 0 ehdrSize) = E.ehdr from rfl, sat_ite]
  by_cases helf : E.ehdr.Matches
  swap
  · rw [if_neg helf]
    exact ⟨rfl, .inr ⟨⟨_, rfl⟩, fun h => helf h.elf⟩⟩
  rw [if_pos helf, sat_bind]
  by_cases hknown : ∀ i ∈ List.range E.ehdr.phnum, E.Known E.ehdr i
  swap
  · obtain ⟨L, e, hL⟩ := forSegments_unknown (f := definePhdr) hknown
    refine Sat.mono (Q := fun r t => t.tlb = (LoadState.start ram mem).tlb ∧ ∃ e, r = .error e) ?_ ?_
    · change Sat NoStop (forSegments E E.ehdr definePhdr (List.range E.ehdr.phnum)) _ _
      rw [hL]
      refine (define_sat rfl).bind (fun _ t ht => ⟨ht.1, e, rfl⟩) fun e t ht => ⟨ht.1, e, rfl⟩
    · rintro r t ⟨htlb, e, rfl⟩
      exact ⟨htlb, .inr ⟨⟨e, rfl⟩, fun h => hknown h.known⟩⟩
  change Sat NoStop (forSegments E E.ehdr definePhdr (List.range E.ehdr.phnum)) _ _
  rw [forSegments_known hknown]
  refine (define_sat rfl).mono ?_
  rintro r t ⟨htlb, hram, ⟨rfl, hthird, has⟩ | ⟨rfl, hthird⟩⟩
  · simp only [sat_bind, sat_focus, has, hram]
    refine (asPrepareLoad_sat mapped_fresh).mono ?_
    rw [mapped_npages.1, mapped_npages.2]
    rintro r p (⟨rfl, hbacked, htwo, hgrants⟩ | ⟨rfl, hgrants⟩)
    · exact ⟨htlb, .inl ⟨rfl, ⟨hwhole, helf, hknown, hthird, hgrants⟩, hbacked,
        htwo.trans mapped_twoRegions⟩⟩
    · exact ⟨htlb, .inr ⟨⟨_, rfl⟩, fun h => hgrants h.memory⟩⟩
  · exact ⟨htlb, .inr ⟨⟨_, rfl⟩, fun h => hthird h.noThird⟩⟩

/-! ## Stores -/

/-- The entries of the TLB may be written to, and there are none as long as the address space is not
set up. -/
def LoadState.Inv (s : LoadState) : Prop := ∀ i, (s.tlb i).Valid → (s.tlb i).Dirty ∧ s.as.SetUp

theorem LoadState.Inv.tick (h : s.Inv) : (s.tick E).Inv := by
  intro i hi
  by_cases hswitch : E.preempt s.clock = true
  · simp only [LoadState.tick, hswitch, if_true] at hi
    exact absurd hi (tlbInvalid_not_valid i)
  · simp only [LoadState.tick, hswitch] at hi ⊢
    exact h i hi

theorem LoadState.store_tlb {b : Byte} : (s.store va b).tlb = s.tlb ∧ (s.store va b).as = s.as := by
  unfold LoadState.store
  split <;> exact ⟨rfl, rfl⟩

theorem LoadState.Inv.store {b : Byte} (h : s.Inv) : (s.store va b).Inv := by
  unfold LoadState.Inv
  rw [LoadState.store_tlb.1, LoadState.store_tlb.2]
  exact h

theorem LoadState.Inv.access {ft : FaultType} (h : s.Inv) (hft : s.tlb.access va true = some ft) :
    ft = .read ∨ ft = .write := by
  simp only [Tlb.access] at hft
  split at hft
  · simp_all
  · next i hsome =>
    have hhit := List.find?_some hsome
    simp only [decide_eq_true_eq] at hhit
    simp [(h i hhit.1).1] at hft

theorem LoadState.Inv.access_ne_none (h : s.Inv) (hset : ¬s.as.SetUp) :
    s.tlb.access va true ≠ none := by
  have hnone : (List.finRange numTlb).find? (fun i =>
      (s.tlb i).Valid ∧ (s.tlb i).vpage = pageFrame va) = none := by
    refine List.find?_eq_none.2 fun i _ => ?_
    simp only [decide_eq_true_eq]
    exact fun hi => hset (h i hi.1).2
  simp only [Tlb.access, hnone]
  simp

/-- Without two regions the first access stops the machine. -/
theorem touch_stops (h : s.Inv) (hset : ¬s.as.SetUp) :
    Sat (fun _ => True) (touch E va) s fun _ _ => False := by
  have htick : (s.tick E).Inv := h.tick
  have hmiss : (s.tick E).tlb.access va true ≠ none := htick.access_ne_none hset
  obtain ⟨ft, hft⟩ := Option.ne_none_iff_exists'.1 hmiss
  have hstop : ∃ panic, enterPage (some s.as) (pageFrame va) (s.tick E).tlb = .error panic :=
    enterPage_stops hset
  obtain ⟨panic, hstop⟩ := hstop
  simp only [touch, sat_bind, sat_modify, sat_get, hft, sat_attempt, onTlb, sat_focus,
    vmFault_eq_enterPage (htick.access hft)]
  unfold Sat
  rw [show (s.tick E).as = s.as from rfl, hstop]
  trivial

theorem enterPage_sat {as : Addrspace} {tlb : Tlb} {p : Nat} (hset : as.SetUp) (hp : pageSize ∣ p)
    (h : ∀ i, (tlb i).Valid → (tlb i).Dirty) : Sat (fun _ => False) (enterPage (some as) p) tlb
      fun _ tlb' => ∀ i, (tlb' i).Valid → (tlb' i).Dirty := by
  unfold Sat
  rw [enterPage_of_setUp hset hp]
  cases as.paddr p with
  | none => exact h
  | some pa =>
    cases tlb.firstInvalid with
    | none => exact h
    | some j =>
      intro i hi
      by_cases hij : i = j
      · subst hij
        rw [Function.update_self]
        exact tlbEntry_dirty
      · rw [Function.update_of_ne hij] at hi ⊢
        exact h i hi

theorem touch_sat (h : s.Inv) (hset : s.as.SetUp) :
    Sat NoStop (touch E va) s fun _ t => t.Inv ∧ t.as = s.as := by
  have htick : (s.tick E).Inv := h.tick
  simp only [touch, sat_bind, sat_modify, sat_get]
  cases hft : (s.tick E).tlb.access va true with
  | none => exact ⟨htick, rfl⟩
  | some ft =>
    simp only [sat_bind, sat_attempt, onTlb, sat_focus, vmFault_eq_enterPage (htick.access hft)]
    refine (enterPage_sat hset pageSize_dvd_pageFrame fun i hi => (htick i hi).1).mono
      fun r tlb' htlb => ?_
    have hinv : ((s.tick E).setTlb tlb').Inv := fun i hi => ⟨htlb i hi, hset⟩
    cases r with
    | error e | ok _ => exact ⟨hinv, rfl⟩

theorem storeBytes_sat (h : s.Inv) (hset : s.as.SetUp) :
    Sat NoStop (storeBytes E va ptr n) s fun _ t => t.Inv ∧ t.as = s.as := by
  induction n generalizing va ptr s with
  | zero => exact ⟨h, rfl⟩
  | succ n ih =>
    simp only [storeBytes, storeByte, sat_bind, sat_modify]
    refine (touch_sat h hset).mono fun r t ht => ?_
    cases r with
    | error e => exact ht
    | ok _ =>
      have has : (t.store va (ptr.headD 0)).as = s.as := LoadState.store_tlb.2.trans ht.2
      refine (ih ht.1.store (has ▸ hset)).mono fun r t' ht' => ⟨ht'.1, ht'.2.trans has⟩

/-! ## Copies -/

section Copy

variable {dest : Nat}

theorem toNat_ofNat_of_lt (h : n < 2 ^ 32) : (BitVec.ofNat 32 n).toNat = n := by
  rw [BitVec.toNat_ofNat, Nat.mod_eq_of_lt h]

theorem copyout_of_le (hlen : 0 < len) (hle : dest + len ≤ usertop) :
    copyout E ptr dest len = storeBytes E dest ptr len := by
  have htop : usertop = 2 ^ 31 := by decide
  have hd := toNat_ofNat_of_lt (n := dest) (by omega)
  have hl := toNat_ofNat_of_lt (n := len) (by omega)
  have hut : Copyinout.usertop.toNat = 2 ^ 31 := rfl
  have hne : BitVec.ofNat 32 len ≠ 0 := fun he => by
    rw [he] at hl
    simp at hl
    omega
  unfold copyout
  obtain ⟨hout, -⟩ | ⟨-, -, stoplen, hcheck, hstop⟩ :=
    Copyinout.copycheck_cases (u := BitVec.ofNat 32 dest) hne
  · rw [hd, hl, hut] at hout
    omega
  · have heq : stoplen = BitVec.ofNat 32 len := by
      apply BitVec.eq_of_toNat_eq
      rw [hstop, hd, hl, hut]
      omega
    rw [hcheck, heq]
    change (if BitVec.ofNat 32 len ≠ BitVec.ofNat 32 len then _ else _) = _
    rw [if_neg (not_not.2 rfl)]

theorem copyout_of_lt (hlen : 0 < len) (hword : len < 2 ^ 32) (hdest : dest < 2 ^ 32)
    (hlt : usertop < dest + len) : copyout E ptr dest len = Prog.raise .efault := by
  have htop : usertop = 2 ^ 31 := by decide
  have hd := toNat_ofNat_of_lt hdest
  have hl := toNat_ofNat_of_lt hword
  have hut : Copyinout.usertop.toNat = 2 ^ 31 := rfl
  have hne : BitVec.ofNat 32 len ≠ 0 := fun he => by
    rw [he] at hl
    simp at hl
    omega
  unfold copyout
  obtain ⟨-, hcheck⟩ | ⟨hlow, -, stoplen, hcheck, hstop⟩ :=
    Copyinout.copycheck_cases (u := BitVec.ofNat 32 dest) hne
  · rw [hcheck]
    rfl
  · have hshort : stoplen ≠ BitVec.ofNat 32 len := fun heq => by
      rw [heq, hd, hl, hut] at hstop
      omega
    rw [hcheck]
    change (if stoplen ≠ BitVec.ofNat 32 len then _ else _) = _
    rw [if_pos hshort]

theorem copyout_sat (h : s.Inv) (hset : s.as.SetUp) (hlen : 0 < len) (hword : len < 2 ^ 32)
    (hdest : dest < 2 ^ 32) :
    Sat NoStop (copyout E ptr dest len) s fun _ t => t.Inv ∧ t.as = s.as := by
  by_cases hle : dest + len ≤ usertop
  · rw [copyout_of_le hlen hle]
    exact storeBytes_sat h hset
  · rw [copyout_of_lt hlen hword hdest (Nat.lt_of_not_le hle)]
    exact ⟨h, rfl⟩

/-- Without two regions a copy is refused or stops the machine. -/
theorem copyout_stops (h : s.Inv) (hset : ¬s.as.SetUp) (hlen : 0 < len) (hword : len < 2 ^ 32)
    (hdest : dest < 2 ^ 32) : Sat (fun _ => dest + len ≤ usertop) (copyout E ptr dest len) s fun r _ =>
      usertop < dest + len ∧ r = .error .efault := by
  by_cases hle : dest + len ≤ usertop
  · rw [copyout_of_le hlen hle]
    obtain ⟨n, rfl⟩ := Nat.exists_eq_succ_of_ne_zero (Nat.ne_of_gt hlen)
    simp only [storeBytes, storeByte, sat_bind]
    exact ((touch_stops h hset).weaken fun _ _ => hle).mono fun _ _ hf => hf.elim
  · rw [copyout_of_lt hlen hword hdest (Nat.lt_of_not_le hle)]
    exact ⟨Nat.lt_of_not_le hle, rfl⟩

end Copy

/-! ## Transfers to user memory -/

/-- A descriptor of `load_segment`. -/
structure LoadUio.User (u : LoadUio) : Prop where
  seg : u.uioSegflg ≠ .sysspace
  space : u.SpaceOk
  le : u.uioResid ≤ u.iov.length
  lt : u.iov.length < 2 ^ 32
  base : u.iovUbase < 2 ^ 32

namespace LoadUio.User

theorem uiomove (U : u.User) (hn : n ≤ u.uioResid) (hpos : 0 < n) :
    loadUiomove E ptr n u = (do
      copyout E ptr u.iovUbase n
      pure (u.advance (ptr.take n))) := by
  obtain ⟨n, rfl⟩ := Nat.exists_eq_succ_of_ne_zero (Nat.ne_of_gt hpos)
  have hresid : 0 < u.uioResid := by omega
  have hsize : min u.iov.length (n + 1) = n + 1 := by
    have := U.le
    omega
  have huser : ¬u.InKernel := U.seg
  simp [loadUiomove, U.space, huser, loadUiomoveLoop, hresid, hsize, Prog.check, Prog.when,
    loadUiomoveLoop_zero, Prog.pure_bind]

theorem advance {d : List Byte} (U : u.User) (hn : d.length ≤ u.uioResid) :
    (u.advance d).User ∧ (u.advance d).uioResid = u.uioResid - d.length ∧
      (u.advance d).iov.length = u.iov.length - d.length := by
  have hle := U.le
  have hlt := U.lt
  have huser : ¬u.InKernel := U.seg
  have hsub : sub32 u.uioResid d.length = u.uioResid - d.length := sub32_of_le hn (by omega)
  have hlen : (u.advance d).iov.length = u.iov.length - d.length := List.length_drop
  refine ⟨⟨U.seg, U.space, ?_, ?_, ?_⟩, hsub, hlen⟩
  · rw [hlen]
    exact hsub.trans_le (by omega)
  · omega
  · simp only [LoadUio.advance, huser, if_false]
    exact Nat.mod_lt _ (by decide)

theorem uiomove_sat (U : u.User) (hn : n ≤ u.uioResid) (hpos : 0 < n) (h : s.Inv)
    (hset : s.as.SetUp) : Sat NoStop (loadUiomove E ptr n u) s fun r t =>
      (t.Inv ∧ t.as = s.as) ∧ ∀ u', r = .ok u' → u' = u.advance (ptr.take n) := by
  have hle := U.le
  have hlt := U.lt
  rw [U.uiomove hn hpos]
  refine (copyout_sat h hset hpos (by omega) U.base).bind ?_ ?_
  · exact fun _ t ht => ⟨ht, fun u' hr => (Except.ok.inj hr).symm⟩
  · exact fun _ t ht => ⟨ht, fun _ hr => by cases hr⟩

theorem movePieces_sat {ps : List (List Byte)} (U : u.User) (hne : ∀ p ∈ ps, p ≠ [])
    (hle : ps.flatten.length ≤ u.uioResid) (h : s.Inv) (hset : s.as.SetUp) :
    Sat NoStop (movePieces E ps u) s fun r t => (t.Inv ∧ t.as = s.as) ∧
        ∀ u', r = .ok u' → u'.User ∧ u'.iov.length + u.uioResid = u.iov.length + u'.uioResid := by
  induction ps generalizing u s with
  | nil => exact ⟨⟨h, rfl⟩, fun u' hr => Except.ok.inj hr ▸ ⟨U, rfl⟩⟩
  | cons p ps ih =>
    obtain ⟨hp, hne⟩ := List.forall_mem_cons.1 hne
    rw [List.flatten_cons, List.length_append] at hle
    refine (U.uiomove_sat (by omega) (List.length_pos_iff.2 hp) h hset).bind ?_ ?_
    · intro u₁ t ht
      obtain rfl := ht.2 u₁ rfl
      rw [List.take_length]
      obtain ⟨U₁, hresid₁, hlen₁⟩ := U.advance (d := p) (by omega)
      refine (ih U₁ hne (by omega) ht.1.1 (ht.1.2 ▸ hset)).mono fun r t' ht' =>
        ⟨⟨ht'.1.1, ht'.1.2.trans ht.1.2⟩, fun u' hr => ?_⟩
      obtain ⟨U', hsum⟩ := ht'.2 u' hr
      have hlen := U.le
      exact ⟨U', by omega⟩
    · exact fun _ _ ht => ⟨ht.1, fun _ hr => by cases hr⟩

theorem vopRead_sat (U : u.User) (h : s.Inv) (hset : s.as.SetUp) :
    Sat NoStop (vopRead E u) s fun r t => (t.Inv ∧ t.as = s.as) ∧
        ∀ u', r = .ok u' → u'.User ∧ u'.iov.length + u.uioResid = u.iov.length + u'.uioResid := by
  refine (U.movePieces_sat (E.ne_nil _ _) (E.le _ _) h hset).bind ?_ ?_
  · intro u' t ht
    rw [sat_bind, sat_ofExcept]
    cases E.result u.uioOffset u.uioResid with
    | error e => exact ⟨ht.1, fun _ hr => by cases hr⟩
    | ok a => exact ⟨ht.1, fun _ hr => Except.ok.inj hr ▸ ht.2 u' rfl⟩
  · exact fun _ _ ht => ⟨ht.1, fun _ hr => by cases hr⟩

theorem zerosLoop_sat (U : u.User) (hn : n ≤ u.uioResid) (h : s.Inv) (hset : s.as.SetUp) :
    Sat NoStop (loadUiomovezerosLoop E rounds n u) s fun _ t => t.Inv ∧ t.as = s.as := by
  induction rounds generalizing u n s with
  | zero => exact ⟨h, rfl⟩
  | succ rounds ih =>
    simp only [loadUiomovezerosLoop]
    split
    · next hpos =>
      have hamt : 0 < min zerosSize n := by
        simp only [zerosSize]
        omega
      refine (U.uiomove_sat (by omega) hamt h hset).bind ?_ fun _ _ ht => ht.1
      intro u₁ t ht
      obtain rfl := ht.2 u₁ rfl
      have htake : ((List.replicate zerosSize (0 : Byte)).take (min zerosSize n)).length =
          min zerosSize n := by simp
      obtain ⟨U₁, hresid₁, -⟩ := U.advance (htake.trans_le (by omega))
      refine (ih U₁ (by omega) ht.1.1 (ht.1.2 ▸ hset)).mono fun r t' ht' => ?_
      exact ⟨ht'.1, ht'.2.trans ht.1.2⟩
    · exact ⟨h, rfl⟩

theorem uiomove_stops (U : u.User) (ptr : List Byte) (hn : n ≤ u.uioResid) (hpos : 0 < n)
    (h : s.Inv) (hset : ¬s.as.SetUp) : Sat (fun _ => u.iovUbase + n ≤ usertop) (loadUiomove E ptr n u) s fun r _ =>
      usertop < u.iovUbase + n ∧ r = .error .efault := by
  have hle := U.le
  have hlt := U.lt
  rw [U.uiomove hn hpos]
  refine (copyout_stops h hset hpos (by omega) U.base).bind ?_ ?_
  · exact fun _ _ ht => by cases ht.2
  · intro e t ht
    cases ht.2
    exact ⟨ht.1, rfl⟩

/-- With `uio_resid` set for the zeros behind what was read. -/
theorem more (fill : Nat) (U : u.User) (hresid : u.uioResid = 0) (hfill : fill ≤ u.iov.length) :
    (u.more fill).User ∧ (u.more fill).uioResid = fill := by
  have hlt := U.lt
  have hwrap : wrap (u.uioResid + fill) = fill := by
    simp only [wrap, hresid]
    omega
  exact ⟨⟨U.seg, U.space, hwrap.trans_le hfill, U.lt, U.base⟩, hwrap⟩

theorem zeros_stops (U : u.User) (hn : n ≤ u.uioResid) (hpos : 0 < n) (h : s.Inv)
    (hset : ¬s.as.SetUp) : Sat (fun _ => u.iovUbase + min zerosSize n ≤ usertop)
      (loadUiomovezeros E n u) s fun r _ =>
        usertop < u.iovUbase + min zerosSize n ∧ ∃ e, r = .error e := by
  have hlt := U.lt
  have hamt : 0 < min zerosSize n := by
    simp only [zerosSize]
    omega
  obtain ⟨rounds, rfl⟩ := Nat.exists_eq_succ_of_ne_zero (Nat.ne_of_gt hpos)
  simp only [loadUiomovezeros, sat_bind, sat_check, u.reads, if_true, loadUiomovezerosLoop, hpos]
  have hfirst := U.uiomove_stops (E := E) (List.replicate zerosSize 0)
    (n := min zerosSize (rounds + 1)) (by omega) hamt h hset
  refine hfirst.mono fun r t ht => ?_
  obtain ⟨hrefused, rfl⟩ := ht
  exact ⟨hrefused, _, rfl⟩

end LoadUio.User

/-! ## Segments -/

theorem segmentUio_user (hle : filesize ≤ memsize) (hlt : memsize < 2 ^ 32) (hv : vaddr < 2 ^ 32) :
    (segmentUio E offset vaddr memsize filesize isExecutable).User := by
  have hlen : (segmentUio E offset vaddr memsize filesize isExecutable).iov.length = memsize :=
    List.length_replicate
  have hseg : (segmentUio E offset vaddr memsize filesize isExecutable).uioSegflg ≠ .sysspace := by
    cases isExecutable <;> simp [segmentUio]
  refine ⟨hseg, ?_, hlen.symm ▸ hle, hlen.symm ▸ hlt, hv⟩
  unfold Uio.SpaceOk
  rw [if_neg hseg]
  rfl

/-- The descriptor for a segment. -/
def Phdr.uio (E : LoadEnv) (ph : Phdr) : LoadUio :=
  segmentUio E ph.offset ph.vaddr ph.memsz (min ph.filesz ph.memsz) (ph.flags &&& pfX ≠ 0)

theorem Phdr.uio_user : (ph.uio E).User :=
  segmentUio_user (Nat.min_le_right _ _) ph.memsz_lt ph.vaddr_lt

theorem loadPhdr_eq : loadPhdr E ph = (do
    let u ← vopRead E (ph.uio E)
    if u.uioResid ≠ 0 then Prog.raise .enoexec
    else if ph.memsz - min ph.filesz ph.memsz > 0 then do
      let _ ← loadUiomovezeros E (ph.memsz - min ph.filesz ph.memsz)
        (u.more (ph.memsz - min ph.filesz ph.memsz))
      pure ()
    else pure ()) := by
  have hmin : (if ph.filesz > ph.memsz then ph.memsz else ph.filesz) = min ph.filesz ph.memsz := by
    split <;> omega
  simp only [loadPhdr, loadSegment, hmin, Phdr.uio]

theorem loadPhdr_sat (h : s.Inv) (hset : s.as.SetUp) :
    Sat NoStop (loadPhdr E ph) s fun _ t => t.Inv ∧ t.as = s.as := by
  rw [loadPhdr_eq]
  generalize hfill : ph.memsz - min ph.filesz ph.memsz = fill
  refine ((Phdr.uio_user (E := E)).vopRead_sat h hset).bind ?_ fun _ _ ht => ht.1
  intro u t ht
  obtain ⟨U, hsum⟩ := ht.2 u rfl
  have hlen : (ph.uio E).iov.length = ph.memsz := List.length_replicate
  have hresid : (ph.uio E).uioResid = min ph.filesz ph.memsz := rfl
  rw [sat_ite, sat_ite]
  split
  · exact ht.1
  · next hzero =>
    split
    · obtain ⟨Uz, hmore⟩ := U.more fill (not_not.1 hzero) (by omega)
      simp only [loadUiomovezeros, sat_bind, sat_check, (u.more fill).reads, if_true]
      refine (Uz.zerosLoop_sat (Nat.le_of_eq hmore.symm) ht.1.1 (ht.1.2 ▸ hset)).mono ?_
      rintro (e | u') t' ht' <;> exact ⟨ht'.1, ht'.2.trans ht.1.2⟩
    · exact ht.1

theorem LoadEnv.pieces_zero : E.pieces offset 0 = [] := by
  have hle := E.le offset 0
  have hne := E.ne_nil offset 0
  cases hp : E.pieces offset 0 with
  | nil => rfl
  | cons p ps =>
    rw [hp] at hle hne
    have := List.length_pos_iff.2 (hne p List.mem_cons_self)
    rw [List.flatten_cons, List.length_append] at hle
    omega

theorem sat_vopRead_none {Q : Except Errno LoadUio → LoadState → Prop}
    (h : E.pieces u.uioOffset u.uioResid = []) : Sat K (vopRead E u) s Q ↔
      Q ((E.result u.uioOffset u.uioResid).map fun _ => u) s := by
  unfold vopRead
  rw [h, movePieces, Prog.pure_bind, sat_bind, sat_ofExcept]
  cases E.result u.uioOffset u.uioResid <;> rfl

theorem sat_loadPhdr_idle {Q : Except Errno Unit → LoadState → Prop} (h : ph.Idle E) :
    Sat K (loadPhdr E ph) s Q ↔ Q (.ok ()) s := by
  obtain ⟨hmem, hres⟩ := h
  have hresid : (ph.uio E).uioResid = 0 := by simp [Phdr.uio, segmentUio, hmem]
  have hnone : E.pieces (ph.uio E).uioOffset (ph.uio E).uioResid = [] := by
    rw [hresid]
    exact LoadEnv.pieces_zero
  have hok : E.result (ph.uio E).uioOffset (ph.uio E).uioResid = .ok () := by
    rw [hresid]
    exact hres
  rw [loadPhdr_eq, sat_bind, sat_vopRead_none hnone, hok]
  simp [Except.map, hresid, hmem]

/-- Without two regions the first segment that is not idle is refused or stops the machine. -/
theorem loadPhdr_stops (hidle : ¬ph.Idle E) (h : s.Inv) (hset : ¬s.as.SetUp) :
    Sat (fun _ => ¬ph.Refused E) (loadPhdr E ph) s fun r _ => ph.Refused E ∧ ∃ e, r = .error e := by
  have U : (ph.uio E).User := Phdr.uio_user
  have hle := U.le
  have hlt := U.lt
  have hlen : (ph.uio E).iov.length = ph.memsz := List.length_replicate
  rw [loadPhdr_eq]
  cases hp : E.pieces ph.offset (min ph.filesz ph.memsz) with
  | cons p ps =>
    have hpne := E.ne_nil ph.offset (min ph.filesz ph.memsz) p (by rw [hp]; exact List.mem_cons_self)
    have hple := E.le ph.offset (min ph.filesz ph.memsz)
    rw [hp, List.flatten_cons, List.length_append] at hple
    have hrefused : ph.Refused E ↔ usertop < ph.vaddr + p.length := by
      simp only [Phdr.Refused, hp]
    have hfirst := U.uiomove_stops (E := E) p (n := p.length)
      (show p.length ≤ min ph.filesz ph.memsz by omega) (List.length_pos_iff.2 hpne) h hset
    rw [sat_bind, vopRead,
      show E.pieces (ph.uio E).uioOffset (ph.uio E).uioResid = p :: ps from hp, movePieces, sat_bind,
      sat_bind, hrefused, Nat.not_lt]
    refine hfirst.mono fun r t ht => ?_
    obtain ⟨hlt, rfl⟩ := ht
    exact ⟨hlt, _, rfl⟩
  | nil =>
    have hrefused : ph.Refused E ↔ E.result ph.offset (min ph.filesz ph.memsz) ≠ .ok () ∨
        min ph.filesz ph.memsz ≠ 0 ∨ usertop < ph.vaddr + min zerosSize ph.memsz := by
      simp only [Phdr.Refused, hp]
    have hoffset : (ph.uio E).uioOffset = ph.offset := rfl
    have hresid : (ph.uio E).uioResid = min ph.filesz ph.memsz := rfl
    rw [sat_bind, sat_vopRead_none (hoffset ▸ hresid ▸ hp), hoffset, hresid]
    cases hres : E.result ph.offset (min ph.filesz ph.memsz) with
    | error e => exact ⟨hrefused.2 (.inl (by simp [hres])), e, rfl⟩
    | ok a =>
      change Sat _ (if (ph.uio E).uioResid ≠ 0 then _ else _) s _
      rw [hresid]
      by_cases hfile : min ph.filesz ph.memsz = 0
      · -- only zeros are copied
        have hmem : ph.memsz ≠ 0 := fun hz => hidle ⟨hz, by rw [hfile] at hres; exact hres⟩
        have hzeros : ph.Refused E ↔ usertop < ph.vaddr + min zerosSize ph.memsz := by
          rw [hrefused]
          exact ⟨fun h => (h.resolve_left (not_not.2 hres)).resolve_left (not_not.2 hfile),
            fun h => .inr (.inr h)⟩
        rw [hfile, if_neg (not_not.2 rfl), Nat.sub_zero, if_pos (by omega), hzeros, Nat.not_lt]
        obtain ⟨Uz, hmore⟩ := U.more ph.memsz (hresid.trans hfile) (Nat.le_of_eq hlen.symm)
        have hstops := Uz.zeros_stops (E := E) (Nat.le_of_eq hmore.symm) (by omega) h hset
        exact hstops.bind (fun _ _ ht => by cases ht.2.choose_spec) fun e _ ht => ⟨ht.1, e, rfl⟩
      · rw [if_pos hfile]
        exact ⟨hrefused.2 (.inr (.inl hfile)), _, rfl⟩

theorem LoadEnv.escapes_nil : ¬E.Escapes [] := by
  rintro ⟨before, ph, after, h, -⟩
  simp at h

theorem LoadEnv.escapes_cons_of_idle (h : ph.Idle E) : E.Escapes (ph :: L) ↔ E.Escapes L := by
  constructor
  · rintro ⟨_ | ⟨q, before⟩, p, after, heq, hall, hp, hr⟩
    · obtain ⟨rfl, -⟩ := List.cons.inj heq
      exact absurd h hp
    · exact ⟨before, p, after, (List.cons.inj heq).2, (List.forall_mem_cons.1 hall).2, hp, hr⟩
  · rintro ⟨before, p, after, rfl, hall, hp, hr⟩
    exact ⟨ph :: before, p, after, rfl, List.forall_mem_cons.2 ⟨h, hall⟩, hp, hr⟩

theorem LoadEnv.escapes_cons_of_not (h : ¬ph.Idle E) : E.Escapes (ph :: L) ↔ ph.Refused E := by
  constructor
  · rintro ⟨_ | ⟨q, before⟩, p, after, heq, hall, hp, hr⟩
    · obtain ⟨rfl, -⟩ := List.cons.inj heq
      exact hr
    · obtain ⟨rfl, -⟩ := List.cons.inj heq
      exact absurd (hall _ List.mem_cons_self) h
  · exact fun hr => ⟨[], ph, L, rfl, by simp, h, hr⟩

/-- Without two regions the second loop copies nothing at all, is refused at its first copy, or
stops the machine there. -/
theorem loadPass_stops (h : s.Inv) (hset : ¬s.as.SetUp) :
    Sat (fun _ => ¬E.Escapes L) (L.forM (loadPhdr E)) s fun r t =>
      (r = .ok () → ¬E.Escapes L ∧ t.as = s.as) ∧ ∀ e, r = .error e → E.Escapes L := by
  induction L generalizing s with
  | nil => exact ⟨fun _ => ⟨LoadEnv.escapes_nil, rfl⟩, fun _ hr => by cases hr⟩
  | cons ph L ih =>
    rw [forM_segments_cons, sat_bind]
    by_cases hidle : ph.Idle E
    · rw [sat_loadPhdr_idle hidle, LoadEnv.escapes_cons_of_idle hidle]
      exact ih h hset
    · rw [LoadEnv.escapes_cons_of_not hidle]
      refine (loadPhdr_stops hidle h hset).mono ?_
      rintro r t ⟨hrefused, e, rfl⟩
      exact ⟨by simp, fun _ _ => hrefused⟩

theorem loadPass_sat (h : s.Inv) (hset : s.as.SetUp) :
    Sat NoStop (L.forM (loadPhdr E)) s fun _ t => t.as = s.as := by
  refine (forM_sat (I := fun t => t.Inv ∧ t.as = s.as) ?_ ⟨h, rfl⟩).mono fun r t ht => ht.2
  intro ph t ht
  exact (loadPhdr_sat ht.1 (ht.2 ▸ hset)).mono fun r t' ht' => ⟨ht'.1, ht'.2.trans ht.2⟩

/-! ## Programs -/

theorem Addrspace.faultless_iff {as : Addrspace} : as.Faultless ↔ as.SetUp := by
  constructor
  · intro h
    by_contra hset
    obtain ⟨out, hout⟩ := h .read 0 (fun i => tlbInvalid i) (.inl rfl) (by decide)
    rw [vmFault_eq_enterPage (.inl rfl)] at hout
    obtain ⟨panic, hstop⟩ : ∃ panic,
        enterPage (some as) (pageFrame 0) (fun i => tlbInvalid i) = .error panic :=
      enterPage_stops hset
    cases hstop.symm.trans hout
  · intro hset ft va tlb hft hva
    rw [vmFault_eq_enterPage hft, enterPage_of_setUp hset pageSize_dvd_pageFrame]
    split <;> exact ⟨_, rfl⟩

theorem sat_asDefineStack {Q : Except Errno Nat → LoadState → Prop} (h : s.as.Backed) :
    Sat NoStop (onAs asDefineStack) s Q ↔ Q (.ok userstack) s := by
  simp only [onAs, sat_focus, asDefineStack, sat_bind, sat_get, sat_check, h.stackpbase,
    ne_eq, not_false_eq_true, if_true, sat_pure]
  rfl

/-- What is left of `runprogram` once the address space has its memory. -/
def runRest (E : LoadEnv) (eh : Ehdr) : LoadM (Nat × Nat) := do
  forSegments E eh (loadPhdr E) (List.range eh.phnum)
  let stackptr ← onAs asDefineStack
  pure (eh.entry, stackptr)

theorem runRest_safe_iff (h : s.Inv) (hbacked : s.as.Backed)
    (hknown : ∀ i ∈ List.range E.ehdr.phnum, E.Known E.ehdr i) :
    (Sat NoStop (runRest E E.ehdr) s fun r t => match r with
      | .ok _ => t.as.Faultless
      | .error _ => True) ↔ s.as.TwoRegions ∨ E.Escapes E.segments := by
  rw [← hbacked.setUp_iff, runRest, sat_bind, forSegments_known hknown]
  change Sat NoStop (E.segments.forM (loadPhdr E)) s _ ↔ _
  by_cases hset : s.as.SetUp
  · refine ⟨fun _ => .inl hset, fun _ => (loadPass_sat h hset).mono fun r t ht => ?_⟩
    cases r with
    | error e => trivial
    | ok _ =>
      dsimp only
      rw [sat_bind, sat_asDefineStack (ht ▸ hbacked)]
      dsimp only
      rw [sat_pure, ht, Addrspace.faultless_iff]
      exact hset
  · have hstops := loadPass_stops (E := E) (L := E.segments) h hset
    constructor
    · intro hsafe
      -- the machine runs on, so that either the copy is refused or there is a program that faults
      obtain ⟨r, t, hrun, hr⟩ := hsafe.exists_ok
      obtain ⟨hok, herr⟩ := hstops.of_ok hrun
      cases r with
      | error e => exact .inr (herr e rfl)
      | ok _ =>
        obtain ⟨-, has⟩ := hok rfl
        dsimp only at hr
        rw [sat_bind, sat_asDefineStack (has ▸ hbacked)] at hr
        dsimp only at hr
        rw [sat_pure, has, Addrspace.faultless_iff] at hr
        exact .inl hr
    · intro hesc
      have hesc := hesc.resolve_left hset
      refine (hstops.weaken fun _ hno => hno hesc).mono fun r t ht => ?_
      cases r with
      | error e => trivial
      | ok _ => exact absurd hesc (ht.1 rfl).1

/-- `as_activate` empties the TLB. -/
theorem sat_runprogram {tlb : Tlb} {Q : Except Errno (Nat × Nat) → LoadState → Prop} :
    Sat NoStop (runprogram E) ⟨asCreate, ram, tlb, 0, mem, []⟩ Q ↔
      Sat NoStop (mapElf E >>= runRest E) (LoadState.start ram mem) Q := by
  have heq : runprogram E = (do onTlb asActivate; mapElf E >>= runRest E) := by
    simp only [runprogram, loadElf, Prog.bind_assoc, Prog.pure_bind]
    rfl
  rw [heq, sat_bind, onTlb, sat_focus, asActivate, sat_modify]
  rfl

/-- A program stops the machine, when it is loaded or when it runs, unless its headers are refused,
it gets two regions or it is refused before anything is copied. -/
theorem loadSafe_iff_loadable (E : LoadEnv) (ram : Ram) (tlb : Tlb) (mem : Word → Byte) :
    LoadSafe E ⟨asCreate, ram, tlb, 0, mem, []⟩ ↔ Loadable E ram := by
  rw [LoadSafe, sat_runprogram, sat_bind, Loadable]
  obtain ⟨r, t, hrun, htlb, ⟨rfl, hmaps, hbacked, htwo⟩ | ⟨⟨e, rfl⟩, hmaps⟩⟩ :=
    (mapElf_sat E ram mem).exists_ok
  · rw [sat_of_ok hrun]
    have hinv : t.Inv := by
      intro i hi
      rw [htlb] at hi
      exact absurd hi (tlbInvalid_not_valid i)
    dsimp only
    rw [runRest_safe_iff hinv hbacked hmaps.known, htwo]
    exact ⟨fun h _ => h, fun h => h hmaps⟩
  · rw [sat_of_ok hrun]
    exact ⟨fun _ h => absurd h hmaps, fun _ => trivial⟩

/-! ## Small executables -/

def halfBytes (n : Nat) : List Byte := [.ofNat 8 (n / 2 ^ 8), .ofNat 8 n]

def wordBytes (n : Nat) : List Byte := halfBytes (n / 2 ^ 16) ++ halfBytes n

def sampleEhdr (phnum : Nat) : List Byte :=
  [0x7f, 0x45, 0x4c, 0x46, 1, 2, 1] ++ List.replicate 9 0 ++ [2, 8].flatMap halfBytes ++
    [1, 0, ehdrSize, 0, 0].flatMap wordBytes ++
      [ehdrSize, phdrSize, phnum, 0, 0, 0].flatMap halfBytes

/-- Four bytes at `vaddr`. -/
def samplePhdr (vaddr : Nat) : List Byte := [ptLoad, 0, vaddr, 0, 4, 4, pfX, 0].flatMap wordBytes

/-- The bytes of a file, of which `VOP_READ` moves as many as there are. -/
def LoadEnv.ofFile (bytes : List Byte) : LoadEnv where
  pieces offset n := [((bytes.take (2 ^ 31 - 1)).drop offset).take n].filter fun p => p ≠ []
  result _ _ := .ok ()
  preempt _ := false
  vmspace := 0
  ne_nil offset n p hp := by simpa using (List.mem_filter.1 hp).2
  le offset n := by
    rw [List.filter_singleton, Bool.cond_eq_ite]
    split <;> simp

def sampleElf (vaddrs : List Nat) : LoadEnv :=
  .ofFile (sampleEhdr vaddrs.length ++ vaddrs.flatMap samplePhdr)

theorem LoadSafe.isOk (h : LoadSafe E s) : (runprogram E s).isOk = true := by
  obtain ⟨r, t, hrun, -⟩ := h.exists_ok
  rw [hrun]
  rfl

/-- A program with a single segment stops the machine when it is loaded. -/
theorem runprogram_stops :
    ¬LoadSafe (sampleElf [0x400000]) ⟨asCreate, sampleRam, fun i => tlbInvalid i, 0, fun _ => 0, []⟩ := by
  have hstop : (runprogram (sampleElf [0x400000])
      ⟨asCreate, sampleRam, fun i => tlbInvalid i, 0, fun _ => 0, []⟩).isOk = false := by
    decide +kernel
  generalize sampleElf [0x400000] = E at hstop ⊢
  intro hsafe
  exact Bool.false_ne_true (hstop.symm.trans hsafe.isOk)

def Phdr.occupies (ph : Phdr) : Bool := ¬ph.InPageZero ∧ ph.region.npages ≠ 0

theorem occupied_of_any {o : Option Phdr} (h : o.any Phdr.occupies = true) : Occupied o := by
  obtain ⟨ph, hph, hne⟩ := (Option.any_eq_true _ _).1 h
  exact ⟨ph, hph, of_decide_eq_true hne⟩

theorem loadSafe_iff_two_segments : LoadSafe (sampleElf [0x400000, 0x10000000])
    ⟨asCreate, sampleRam, fun i => tlbInvalid i, 0, fun _ => 0, []⟩ := by
  have hfirst : (slot (sampleElf [0x400000, 0x10000000]).segments).any Phdr.occupies = true := by
    decide +kernel
  have hsecond : (slot (afterSlot (sampleElf [0x400000, 0x10000000]).segments)).any Phdr.occupies =
      true := by
    decide +kernel
  generalize sampleElf [0x400000, 0x10000000] = E at hfirst hsecond ⊢
  exact (loadSafe_iff_loadable E _ _ _).2
    fun _ => .inl ⟨occupied_of_any hfirst, occupied_of_any hsecond⟩

end Os161.Vm
