import Os161.Lib.Outcome
import Os161.Vm.LoadSafety

/-!
# The memory image of an executable

What `load_elf` has stored when it returns. A store goes through the entry of the TLB that the
access hits or that `vm_fault` has installed for it.

Two segments may share a page. Their regions then both have the page, and every access to it goes to
the first region. So what is stored at an address depends on the address alone, and two addresses
never share a byte of memory.
-/
namespace Os161.Vm

open Lib Kern Prog
open Kheap (pageSize)

/-! ## One store -/

/-- The entries of the TLB translate as the address space does. -/
def Tlb.Follows (tlb : Tlb) (as : Addrspace) : Prop :=
  ∀ i, (tlb i).Valid → as.paddr (tlb i).vpage = some (tlb i).ppage

variable {l l' : LoadState}

section Store

variable {E : LoadEnv} {as : Addrspace} {tlb tlb' : Tlb} {va p : Nat}

theorem Tlb.Follows.hit (h : tlb.Follows as) (hit : ∃ i, (tlb i).Valid ∧ (tlb i).vpage = pageFrame va) :
    ∃ pa, as.translate va = some pa ∧ tlb.translate va = some pa := by
  unfold Tlb.translate
  cases hfind : (List.finRange numTlb).find? fun i => (tlb i).Valid ∧ (tlb i).vpage = pageFrame va with
  | none =>
    obtain ⟨i, hi⟩ := hit
    have hmiss := List.find?_eq_none.1 hfind i (List.mem_finRange i)
    exact absurd (decide_eq_true hi) hmiss
  | some i =>
    have hi := List.find?_some hfind
    simp only [decide_eq_true_eq] at hi
    refine ⟨(tlb i).ppage + va % pageSize, ?_, rfl⟩
    unfold Addrspace.translate
    rw [← hi.2, h i hi.1]
    rfl

theorem Tlb.hit_of_access {write : Bool} (h : tlb.access va write = none) :
    ∃ i, (tlb i).Valid ∧ (tlb i).vpage = pageFrame va := by
  unfold Tlb.access at h
  split at h
  · exact nomatch h
  · next i hfind =>
    have hi := List.find?_some hfind
    simp only [decide_eq_true_eq] at hi
    exact ⟨i, hi⟩

/-- `vm_fault` has returned, so it has found the page and entered it. -/
theorem enterPage_yields (hf : tlb.Follows as) (hp : pageSize ∣ p)
    (h : (enterPage (some as) p).Yields tlb () tlb') : tlb'.Follows as ∧ ∃ i, (tlb' i).Valid ∧ (tlb' i).vpage = p := by
  by_cases hset : as.SetUp
  · unfold Yields at h
    rw [enterPage_of_setUp hset hp] at h
    split at h
    · next pa j hpa hfree =>
      cases h
      have hentry : (tlbEntry p pa).vpage = p := tlbEntry_vpage hp
      constructor
      · intro i hi
        by_cases hij : i = j
        · subst hij
          rw [Function.update_self, hentry, tlbEntry_ppage (hset.dvd_paddr hp hpa)]
          exact hpa
        · rw [Function.update_of_ne hij] at hi ⊢
          exact hf i hi
      · refine ⟨j, ?_⟩
        rw [Function.update_self]
        exact ⟨tlbEntry_valid, hentry⟩
    · cases h
  · obtain ⟨panic, hstop⟩ : ∃ panic, enterPage (some as) p tlb = .error panic := enterPage_stops hset
    exact nomatch h.symm.trans hstop

theorem vmFault_yields {ft : FaultType} (hf : tlb.Follows as) (h : (vmFault (some as) ft va).Yields tlb () tlb') :
    tlb'.Follows as ∧ ∃ i, (tlb' i).Valid ∧ (tlb' i).vpage = pageFrame va := by
  cases ft with
  | readonly | other => cases h
  | read | write => exact enterPage_yields hf pageSize_dvd_pageFrame h

theorem Tlb.Follows.tick (h : l.tlb.Follows as) : (l.tick E).tlb.Follows as := by
  unfold LoadState.tick
  split
  · intro i hi
    exact absurd hi (tlbInvalid_not_valid i)
  · exact h

theorem touch_yields (hf : l.tlb.Follows l.as) (h : (touch E va).Yields l () l') :
    l'.as = l.as ∧ l'.mem = l.mem ∧ l'.written = l.written ∧ l'.tlb.Follows l.as ∧
      ∃ pa, l.as.translate va = some pa ∧ l'.tlb.translate va = some pa := by
  have htick : (l.tick E).tlb.Follows l.as := hf.tick
  simp only [touch, yields_bind, yields_modify, yields_get] at h
  obtain ⟨-, -, rfl, l₁, -, ⟨rfl, rfl⟩, h⟩ := h
  cases hacc : (l.tick E).tlb.access va true with
  | none =>
    simp only [hacc, yields_pure] at h
    obtain ⟨-, rfl⟩ := h
    exact ⟨rfl, rfl, rfl, htick, htick.hit (Tlb.hit_of_access hacc)⟩
  | some ft =>
    simp only [hacc, yields_bind, yields_attempt] at h
    obtain ⟨r, l₂, hfault, h⟩ := h
    cases r with
    | error e => exact absurd h yields_raise
    | ok a =>
      obtain ⟨-, rfl⟩ := yields_pure.1 h
      obtain ⟨tlb₂, hvm, rfl⟩ := yields_focus.1 hfault
      obtain ⟨hfollows, hhit⟩ := vmFault_yields htick hvm
      exact ⟨rfl, rfl, rfl, hfollows, hfollows.hit hhit⟩

end Store

/-! ## Runs of stores -/

/-- No two addresses share a byte of memory. -/
def Addrspace.OneToOne (as : Addrspace) : Prop :=
  ∀ a b pa pb, as.translate a = some pa → as.translate b = some pb → kvaddr pa = kvaddr pb → a = b

/-- The bytes `bs` have been stored at `va`, and nothing else. -/
structure Wrote (as : Addrspace) (s t : LoadState) (va : Nat) (bs : List Byte) : Prop where
  as_eq : t.as = as
  follows : t.tlb.Follows as
  written : ∀ a ∈ t.written, a ∈ s.written ∨ va ≤ a ∧ a < va + bs.length
  bytes : as.OneToOne → ∀ a, as.userByte t.mem a =
    if va ≤ a ∧ a < va + bs.length then bs[a - va]? else as.userByte s.mem a

section Wrote

variable {E : LoadEnv} {as : Addrspace} {s t t' : LoadState} {va n : Nat} {b : Byte} {bs bs' src : List Byte}

theorem Wrote.nil (has : s.as = as) (hf : s.tlb.Follows as) : Wrote as s s va [] := by
  refine ⟨has, hf, fun a ha => .inl ha, fun _ a => ?_⟩
  rw [if_neg]
  simp only [List.length_nil]
  omega

theorem Wrote.append (h : Wrote as s t va bs) (h' : Wrote as t t' (va + bs.length) bs') :
    Wrote as s t' va (bs ++ bs') := by
  refine ⟨h'.as_eq, h'.follows, fun a ha => ?_, fun hone a => ?_⟩
  · rw [List.length_append]
    obtain ha | ha := h'.written a ha
    · obtain ha | ha := h.written a ha
      · exact .inl ha
      · exact .inr ⟨ha.1, by omega⟩
    · exact .inr ⟨by omega, by omega⟩
  · rw [h'.bytes hone, h.bytes hone, List.length_append, List.getElem?_append]
    grind

section

variable (has : s.as = as) (hf : s.tlb.Follows as)
include has hf

theorem storeByte_yields (h : (storeByte E va b).Yields s () t) : Wrote as s t va [b] := by
  subst has
  simp only [storeByte, yields_bind, yields_modify] at h
  obtain ⟨_, l, htouch, rfl⟩ := h
  obtain ⟨has, hmem, hwritten, hfollows, pa, hpa, htlb⟩ := touch_yields hf htouch
  have hstore : l.store va b =
      { l with mem := Function.update s.mem (kvaddr pa) b, written := va :: s.written } := by
    unfold LoadState.store
    rw [htlb, hmem, hwritten]
  rw [hstore]
  refine ⟨has, hfollows, ?_, ?_⟩
  · intro a ha
    obtain rfl | ha := List.mem_cons.1 ha
    · exact .inr ⟨Nat.le_refl _, Nat.lt_succ_self _⟩
    · exact .inl ha
  · intro hone a
    unfold Addrspace.userByte
    by_cases ha : a = va
    · subst ha
      rw [hpa, if_pos (by simp), Nat.sub_self, Option.map_some, physByte_update_self, List.getElem?_cons_zero]
    · rw [if_neg (by simp only [List.length_singleton]; omega)]
      cases hta : s.as.translate a with
      | none => rw [Option.map_none, Option.map_none]
      | some pa' =>
        have hne : kvaddr pa' ≠ kvaddr pa := fun heq => ha (hone a va pa' pa hta hpa heq)
        rw [Option.map_some, Option.map_some, physByte_update_of_ne hne]

theorem storeBytes_yields (hn : n ≤ src.length)
    (h : (storeBytes E va src n).Yields s () t) : Wrote as s t va (src.take n) := by
  induction n generalizing s va src with
  | zero =>
    obtain ⟨-, rfl⟩ := yields_pure.1 h
    rw [List.take_zero]
    exact .nil has hf
  | succ n ih =>
    cases src with
    | nil => exact absurd hn (Nat.not_succ_le_zero _)
    | cons b src =>
      simp only [storeBytes, yields_bind] at h
      obtain ⟨_, s₁, hb, h⟩ := h
      have hfirst := storeByte_yields has hf hb
      exact hfirst.append (ih hfirst.as_eq hfirst.follows (Nat.le_of_succ_le_succ hn) h)

/-- `copyout` has returned, so the bytes are below `USERTOP`. -/
theorem copyout_yields (hpos : 0 < n) (hn : n ≤ src.length)
    (hword : n < 2 ^ 32) (hva : va < 2 ^ 32) (h : (copyout E src va n).Yields s () t) :
    va + n ≤ usertop ∧ Wrote as s t va (src.take n) := by
  by_cases hle : va + n ≤ usertop
  · rw [copyout_of_le hpos hle] at h
    exact ⟨hle, storeBytes_yields has hf hn h⟩
  · rw [copyout_of_lt hpos hword hva (Nat.lt_of_not_le hle)] at h
    exact absurd h yields_raise

end

end Wrote

/-! ## Transfers -/

/-- The bytes `bs` have been moved through the descriptor `u`, which is `u'` now. -/
structure Advanced (as : Addrspace) (s t : LoadState) (u u' : LoadUio) (bs : List Byte) : Prop where
  user : u'.User
  le : bs.length ≤ u.uioResid
  resid : u'.uioResid = u.uioResid - bs.length
  base : u'.iovUbase = u.iovUbase + bs.length
  len : u'.iov.length = u.iov.length - bs.length
  below : bs ≠ [] → u.iovUbase + bs.length ≤ usertop
  wrote : Wrote as s t u.iovUbase bs

section Transfer

variable {E : LoadEnv} {as : Addrspace} {s t t' : LoadState} {u u' u'' : LoadUio} {n rounds : Nat}
  {bs bs' ptr : List Byte}

theorem Advanced.nil (U : u.User) (has : s.as = as) (hf : s.tlb.Follows as) : Advanced as s s u u [] :=
  ⟨U, Nat.zero_le _, rfl, rfl, rfl, fun h => absurd rfl h, .nil has hf⟩

theorem Advanced.append (h : Advanced as s t u u' bs) (h' : Advanced as t t' u' u'' bs') :
    Advanced as s t' u u'' (bs ++ bs') := by
  have hwrote := h'.wrote
  rw [h.base] at hwrote
  have hle := h.le
  have hle' := h'.le
  have hresid := h.resid
  have hbelow : bs ++ bs' ≠ [] → u.iovUbase + (bs ++ bs').length ≤ usertop := by
    intro hne
    rw [List.length_append]
    by_cases hnil : bs' = []
    · subst hnil
      rw [List.append_nil] at hne
      exact h.below hne
    · have hbelow' := h'.below hnil
      rw [h.base] at hbelow'
      omega
  refine ⟨h'.user, ?_, ?_, ?_, ?_, hbelow, h.wrote.append hwrote⟩
  · rw [List.length_append]
    omega
  · rw [List.length_append, h'.resid, h.resid, Nat.sub_sub]
  · rw [List.length_append, h'.base, h.base, Nat.add_assoc]
  · rw [List.length_append, h'.len, h.len, Nat.sub_sub]

section

variable (U : u.User) (has : s.as = as) (hf : s.tlb.Follows as)
include U has hf

theorem loadUiomove_yields (hpos : 0 < n) (hn : n ≤ u.uioResid) (hptr : n ≤ ptr.length)
    (h : (loadUiomove E ptr n u).Yields s u' t) : Advanced as s t u u' (ptr.take n) := by
  have hle := U.le
  have hlt := U.lt
  have huser : ¬u.InKernel := U.seg
  simp only [U.uiomove hn hpos, yields_bind, yields_pure] at h
  obtain ⟨_, _, hcopy, rfl, rfl⟩ := h
  obtain ⟨hbelow, hwrote⟩ := copyout_yields has hf hpos hptr (by omega) U.base hcopy
  have htake : (ptr.take n).length = n := List.length_take_of_le hptr
  obtain ⟨U', hresid, hlen⟩ := U.advance (htake.trans_le hn)
  have hbase : wrap (u.iovUbase + n) = u.iovUbase + n := by
    simp only [wrap, usertop, mipsKseg0] at hbelow ⊢
    omega
  refine ⟨U', htake.trans_le hn, hresid, ?_, hlen, fun _ => htake.symm ▸ hbelow, hwrote⟩
  simp only [LoadUio.advance, huser, if_false, htake, hbase]

theorem movePieces_yields {ps : List (List Byte)} (hne : ∀ p ∈ ps, p ≠ [])
    (hle : ps.flatten.length ≤ u.uioResid) (h : (movePieces E ps u).Yields s u' t) :
    Advanced as s t u u' ps.flatten := by
  induction ps generalizing u s with
  | nil =>
    obtain ⟨rfl, rfl⟩ := yields_pure.1 h
    exact .nil U has hf
  | cons p ps ih =>
    obtain ⟨hp, hne⟩ := List.forall_mem_cons.1 hne
    rw [List.flatten_cons, List.length_append] at hle
    rw [movePieces, yields_bind] at h
    obtain ⟨u₁, s₁, hmove, h⟩ := h
    have hfirst := loadUiomove_yields U has hf (List.length_pos_iff.2 hp) (by omega)
      (Nat.le_refl _) hmove
    rw [List.take_length] at hfirst
    have hresid := hfirst.resid
    exact hfirst.append (ih hfirst.user hfirst.wrote.as_eq hfirst.wrote.follows hne (by omega) h)

theorem vopRead_yields (h : (vopRead E u).Yields s u' t) :
    Advanced as s t u u' (E.served u.uioOffset u.uioResid) := by
  simp only [vopRead, yields_bind, yields_ofExcept, yields_pure] at h
  obtain ⟨_, _, hmove, _, _, ⟨-, rfl⟩, rfl, rfl⟩ := h
  exact movePieces_yields U has hf (E.ne_nil _ _) (E.le _ _) hmove

theorem zerosLoop_yields (hn : n ≤ u.uioResid) (hrounds : n ≤ rounds)
    (h : (loadUiomovezerosLoop E rounds n u).Yields s u' t) :
    Advanced as s t u u' (List.replicate n 0) := by
  induction rounds generalizing u s n with
  | zero =>
    obtain rfl : n = 0 := Nat.le_zero.1 hrounds
    obtain ⟨rfl, rfl⟩ := yields_pure.1 h
    exact .nil U has hf
  | succ rounds ih =>
    simp only [loadUiomovezerosLoop, yields_ite] at h
    split at h
    · next hpos =>
      rw [yields_bind] at h
      obtain ⟨u₁, s₁, hmove, h⟩ := h
      generalize hamt : min zerosSize n = amt at hmove h
      have hzeros : 0 < zerosSize := by decide
      have hfirst := loadUiomove_yields U has hf (by omega) (by omega)
        (by rw [List.length_replicate]; omega) hmove
      rw [List.take_replicate, Nat.min_eq_left (by omega)] at hfirst
      have hresid := hfirst.resid
      rw [List.length_replicate] at hresid
      have hrest := ih hfirst.user hfirst.wrote.as_eq hfirst.wrote.follows (by omega) (by omega) h
      have hall := hfirst.append hrest
      rwa [List.replicate_append_replicate, Nat.add_sub_cancel' (by omega)] at hall
    · next hzero =>
      obtain rfl : n = 0 := by omega
      obtain ⟨rfl, rfl⟩ := yields_pure.1 h
      exact .nil U has hf

end

end Transfer

/-! ## Segments -/

namespace Phdr

def Has (ph : Phdr) (a : Nat) : Prop := ph.vaddr ≤ a ∧ a < ph.vaddr + ph.memsz

def content (E : LoadEnv) (ph : Phdr) : List Byte :=
  E.served ph.offset (min ph.filesz ph.memsz) ++
    List.replicate (ph.memsz - min ph.filesz ph.memsz) 0

end Phdr

section Segments

variable {E : LoadEnv} {as : Addrspace} {s t : LoadState}

/-- All that is to be read is read, and the segment ends below `USERTOP`. -/
structure Phdr.Loads (E : LoadEnv) (ph : Phdr) : Prop where
  whole : (E.served ph.offset (min ph.filesz ph.memsz)).length = min ph.filesz ph.memsz
  below : ph.memsz ≠ 0 → ph.vaddr + ph.memsz ≤ usertop

theorem Phdr.Loads.length_content {ph : Phdr} (h : ph.Loads E) : (ph.content E).length = ph.memsz := by
  have hwhole := h.whole
  simp only [Phdr.content, List.length_append, List.length_replicate]
  omega

theorem loadPhdr_yields {ph : Phdr} (has : s.as = as) (hf : s.tlb.Follows as)
    (h : (loadPhdr E ph).Yields s () t) : ph.Loads E ∧ Wrote as s t ph.vaddr (ph.content E) := by
  simp only [loadPhdr_eq, yields_bind, yields_ite] at h
  obtain ⟨u, s₁, hread, h⟩ := h
  have hadv := vopRead_yields Phdr.uio_user has hf hread
  have huio : (ph.uio E).uioOffset = ph.offset ∧
      (ph.uio E).uioResid = min ph.filesz ph.memsz ∧ (ph.uio E).iovUbase = ph.vaddr ∧
      (ph.uio E).iov.length = ph.memsz := ⟨rfl, rfl, rfl, List.length_replicate⟩
  rw [huio.1, huio.2.1] at hadv
  have hresid := hadv.resid
  have hle := hadv.le
  have hlen := hadv.len
  have hbase := hadv.base
  have hbelow := hadv.below
  have hwrote := hadv.wrote
  rw [huio.2.1] at hresid hle
  rw [huio.2.2.2] at hlen
  rw [huio.2.2.1] at hbase hbelow hwrote
  generalize hfile : min ph.filesz ph.memsz = filesize at *
  split at h
  · exact absurd h yields_raise
  · next hzero =>
    have hwhole : (E.served ph.offset filesize).length = filesize := by omega
    rw [hwhole] at hlen hbase hbelow
    split at h
    · next hfill =>
      simp only [yields_bind, yields_pure, loadUiomovezeros, yields_check] at h
      obtain ⟨u', s₂, ⟨_, _, ⟨-, rfl⟩, hzeros⟩, -, rfl⟩ := h
      obtain ⟨Uz, hmore⟩ := hadv.user.more (ph.memsz - filesize) (not_not.1 hzero) (by omega)
      have hrest := zerosLoop_yields Uz hwrote.as_eq hwrote.follows (Nat.le_of_eq hmore.symm)
        (Nat.le_refl _) hzeros
      have hbelow' := hrest.below (by simpa using Nat.not_le.2 hfill)
      have hwrote' := hrest.wrote
      have hbase' : (u.more (ph.memsz - filesize)).iovUbase = ph.vaddr + filesize := hbase
      rw [hbase', List.length_replicate] at hbelow'
      rw [hbase'] at hwrote'
      refine ⟨⟨hfile.symm ▸ hwhole, fun _ => by omega⟩, ?_⟩
      rw [Phdr.content, hfile]
      refine hwrote.append ?_
      rwa [hwhole]
    · next hfill =>
      obtain ⟨-, rfl⟩ := yields_pure.1 h
      have hsize : filesize = ph.memsz := by omega
      refine ⟨⟨hfile.symm ▸ hwhole, fun hne => ?_⟩, ?_⟩
      · rw [hsize] at hbelow hwhole
        exact hbelow fun hnil => hne (by rw [← hwhole, hnil]; rfl)
      · rw [Phdr.content, hfile, hsize, Nat.sub_self, List.replicate_zero, List.append_nil, ← hsize]
        exact hwrote

def Phdr.Apart (p q : Phdr) : Prop := ∀ a, p.Has a → ¬q.Has a

/-- The segments `L` have been loaded. -/
structure Imaged (E : LoadEnv) (as : Addrspace) (s t : LoadState) (L : List Phdr) : Prop where
  as_eq : t.as = as
  follows : t.tlb.Follows as
  loads : ∀ ph ∈ L, ph.Loads E
  written : ∀ a ∈ t.written, a ∈ s.written ∨ ∃ ph ∈ L, ph.Has a
  frame : as.OneToOne → ∀ a, (∀ ph ∈ L, ¬ph.Has a) → as.userByte t.mem a = as.userByte s.mem a
  bytes : as.OneToOne → L.Pairwise Phdr.Apart →
    ∀ ph ∈ L, ∀ i < ph.memsz, as.userByte t.mem (ph.vaddr + i) = (ph.content E)[i]?

theorem Imaged.nil (has : s.as = as) (hf : s.tlb.Follows as) : Imaged E as s s [] :=
  ⟨has, hf, nofun, fun _ ha => .inl ha, fun _ _ _ => rfl, fun _ _ => nofun⟩

theorem Imaged.cons {t' : LoadState} {ph : Phdr} {L : List Phdr} (hl : ph.Loads E)
    (h : Wrote as s t ph.vaddr (ph.content E)) (h' : Imaged E as t t' L) : Imaged E as s t' (ph :: L) := by
  have hlen := hl.length_content
  have hwritten := h.written
  have hbytes := h.bytes
  rw [hlen] at hwritten hbytes
  refine ⟨h'.as_eq, h'.follows, List.forall_mem_cons.2 ⟨hl, h'.loads⟩, fun a ha => ?_, fun hone a ha => ?_, ?_⟩
  · obtain ha | ⟨q, hq, ha⟩ := h'.written a ha
    · obtain ha | ha := hwritten a ha
      · exact .inl ha
      · exact .inr ⟨ph, List.mem_cons_self, ha⟩
    · exact .inr ⟨q, List.mem_cons_of_mem _ hq, ha⟩
  · obtain ⟨hph, hL⟩ := List.forall_mem_cons.1 ha
    rw [h'.frame hone a hL, hbytes hone]
    exact if_neg hph
  · intro hone hapart
    obtain ⟨hph, hL⟩ := List.pairwise_cons.1 hapart
    refine List.forall_mem_cons.2 ⟨fun i hi => ?_, h'.bytes hone hL⟩
    have hin : ph.Has (ph.vaddr + i) := ⟨Nat.le_add_right _ _, by omega⟩
    rw [h'.frame hone _ fun q hq => hph q hq _ hin, hbytes hone, Nat.add_sub_cancel_left]
    exact if_pos hin

theorem loadPass_yields {L : List Phdr} (has : s.as = as) (hf : s.tlb.Follows as)
    (h : (L.forM (loadPhdr E)).Yields s () t) : Imaged E as s t L := by
  induction L generalizing s with
  | nil =>
    obtain ⟨-, rfl⟩ := yields_pure.1 h
    exact .nil has hf
  | cons ph L ih =>
    rw [forM_segments_cons, yields_bind] at h
    obtain ⟨_, s₁, hsegment, h⟩ := h
    obtain ⟨hl, hwrote⟩ := loadPhdr_yields has hf hsegment
    exact .cons hl hwrote (ih hwrote.as_eq hwrote.follows h)

/-- A loop over the segments has returned, so that it has been through all of them. -/
theorem forSegments_yields {f : Phdr → LoadM Unit} (h : (forSegments E eh f is).Yields s () t) :
    ((E.loads eh is).forM f).Yields s () t := by
  by_cases hknown : ∀ i ∈ is, E.Known eh i
  · rwa [forSegments_known hknown] at h
  · obtain ⟨L, e, hL⟩ := forSegments_unknown (f := f) hknown
    rw [hL, yields_bind] at h
    obtain ⟨_, _, -, h⟩ := h
    exact absurd h yields_raise

/-! ## The address space -/

theorem asDefineRegion_yields {c : DefineCall} {as as' : Addrspace} (h : (asDefineRegion c.vaddr c.sz).Yields as () as') :
    DefineStep as c as' := by
  unfold DefineStep defineNext
  rw [show asDefineRegion c.vaddr c.sz as = _ from h]

theorem definePass_yields {L : List Phdr} {as₀ : Addrspace} {calls : List DefineCall}
    (hrun : Run DefineStep as₀ calls l.as) (h : (L.forM definePhdr).Yields l () l') :
    l'.tlb = l.tlb ∧ l'.ram = l.ram ∧ l'.written = l.written ∧
      ∃ calls', Run DefineStep as₀ calls' l'.as ∧
        ∀ c ∈ calls', c ∈ calls ∨ ∃ ph ∈ L, c = ph.region := by
  induction L generalizing l calls with
  | nil =>
    obtain ⟨-, rfl⟩ := yields_pure.1 h
    exact ⟨rfl, rfl, rfl, calls, hrun, fun c hc => .inl hc⟩
  | cons ph L ih =>
    simp only [forM_segments_cons, definePhdr, onAs, yields_bind, yields_focus] at h
    obtain ⟨_, _, ⟨as', hdefine, rfl⟩, h⟩ := h
    have hstep : DefineStep l.as ph.region as' := asDefineRegion_yields hdefine
    obtain ⟨htlb, hram, hwritten, calls', hrun', hcalls'⟩ := ih (.step hrun hstep) h
    refine ⟨htlb, hram, hwritten, calls', hrun', fun d hd => ?_⟩
    obtain hd | ⟨q, hq, hd⟩ := hcalls' d hd
    · obtain rfl | hd := List.mem_cons.1 hd
      · exact .inr ⟨_, List.mem_cons_self, rfl⟩
      · exact .inl hd
    · exact .inr ⟨q, List.mem_cons_of_mem _ hq, hd⟩

/-- What `load_elf` has done before it loads the first segment. -/
structure MappedElf (E : LoadEnv) (ram : Ram) (mem : Word → Byte) (eh : Ehdr) (l : LoadState) :
    Prop where
  ehdr : eh = E.ehdr
  tlb : l.tlb = (LoadState.start ram mem).tlb
  written : l.written = []
  defined : ∃ calls as₀, Run DefineStep asCreate calls as₀ ∧
    (∀ c ∈ calls, ∃ ph ∈ E.loads eh (List.range eh.phnum), c = ph.region) ∧
    asPrepareLoad.Yields (ram, as₀) () (l.ram, l.as)

theorem mapElf_yields {ram : Ram} {mem : Word → Byte}
    (h : (mapElf E).Yields (LoadState.start ram mem) eh l) : MappedElf E ram mem eh l := by
  have hsize : ehdrSize < 2 ^ 32 := by decide
  simp only [mapElf, readHeader_eq hsize, yields_bind, yields_ofExcept, yields_ite, yields_focus,
    yields_pure] at h
  obtain ⟨bs, l₁, ⟨hheader, rfl⟩, h⟩ := h
  obtain rfl : E.served 0 ehdrSize = bs := by
    by_cases hwhole : E.Whole 0 ehdrSize
    · rw [LoadEnv.header_of_whole hwhole] at hheader
      exact Except.ok.inj hheader
    · obtain ⟨e, he⟩ := LoadEnv.header_of_not_whole hwhole
      cases he.symm.trans hheader
  split at h
  · obtain ⟨_, l₂, hdefine, _, _, ⟨⟨ram', as'⟩, hprep, rfl⟩, rfl, rfl⟩ := h
    obtain ⟨htlb, hram, hwritten, calls, hrun, hcalls⟩ :=
      definePass_yields .start (forSegments_yields hdefine)
    rw [hram] at hprep
    exact ⟨rfl, htlb, hwritten, calls, _, hrun,
      fun c hc => (hcalls c hc).resolve_left (by simp), hprep⟩
  · exact absurd h yields_raise

end Segments

section OneToOne

variable {E : LoadEnv} {as : Addrspace} {U : Set Nat} {c : DefineCall} {calls : List DefineCall}

theorem Holds.oneToOne (h : Holds U as) : as.OneToOne := by
  intro a b pa pb ha hb heq
  have hpa := h.translate_mem ha
  have hpb := h.translate_mem hb
  obtain rfl := (kvaddr_inj (h.lt hpa) (h.lt hpb)).1 heq
  rw [h.translate_eq, Option.map_eq_some_iff] at ha hb
  obtain ⟨k, hk, rfl⟩ := ha
  obtain ⟨k', hk', hsame⟩ := hb
  have hoff := h.laid.offset hk
  have hoff' := h.laid.offset hk'
  by_cases hkk : k = k'
  · subst hkk
    omega
  · have hin : as.pbaseOf k + (a - as.vbaseOf k) ∈ as.block k := ⟨Nat.le_add_right _ _, by omega⟩
    have hin' : as.pbaseOf k + (a - as.vbaseOf k) ∈ as.block k' := by
      rw [← hsame]
      exact ⟨Nat.le_add_right _ _, by omega⟩
    exact absurd hin' (Set.disjoint_left.1 (h.apart k k' hkk) hin)

/-- A range below `USERTOP` has no more pages than there are below it. -/
theorem DefineCall.npages_le (h : c.sz ≠ 0 → c.vaddr + c.sz ≤ usertop) : c.npages ≤ 2 ^ 19 := by
  have hv := c.vaddr_lt
  simp only [DefineCall.npages, wrap, pageFrame, pageSize, usertop, mipsKseg0] at *
  omega

theorem npages_of_run (h : Run DefineStep asCreate calls as) :
    (as.npages1 = 0 ∨ ∃ c ∈ calls, as.npages1 = c.npages) ∧ (as.npages2 = 0 ∨ ∃ c ∈ calls, as.npages2 = c.npages) := by
  refine h.history (I := fun calls as => (as.npages1 = 0 ∨ ∃ c ∈ calls, as.npages1 = c.npages) ∧
    (as.npages2 = 0 ∨ ∃ c ∈ calls, as.npages2 = c.npages)) ⟨.inl rfl, .inl rfl⟩ ?_
  intro calls as c as' hI hstep
  have hmore {n : Nat} (hn : n = 0 ∨ ∃ c ∈ calls, n = c.npages) : n = 0 ∨ ∃ d ∈ c :: calls, n = d.npages :=
    hn.imp_right fun ⟨d, hd, hn⟩ => ⟨d, List.mem_cons_of_mem _ hd, hn⟩
  obtain ⟨-, rfl⟩ | ⟨-, -, rfl⟩ | ⟨-, rfl⟩ := hstep.cases
  · exact ⟨.inr ⟨c, List.mem_cons_self, rfl⟩, hmore hI.2⟩
  · exact ⟨hmore hI.1, .inr ⟨c, List.mem_cons_self, rfl⟩⟩
  · exact ⟨hmore hI.1, hmore hI.2⟩

/-- If every segment can be loaded then no two addresses share a byte. The sizes are small enough
for `ram_stealmem`. -/
theorem MappedElf.oneToOne {ram : Ram} {mem : Word → Byte} (h : MappedElf E ram mem eh l)
    (hloads : ∀ ph ∈ E.loads eh (List.range eh.phnum), ph.Loads E) : l.as.OneToOne := by
  obtain ⟨calls, as₀, hrun, hcalls, hprep⟩ := h.defined
  have hsmall : ∀ c ∈ calls, c.npages ≤ 2 ^ 19 := by
    intro c hc
    obtain ⟨ph, hph, rfl⟩ := hcalls c hc
    exact ph.region.npages_le (hloads ph hph).below
  have hsize {n : Nat} (hn : n = 0 ∨ ∃ c ∈ calls, n = c.npages) : n ≤ 2 ^ 19 := by
    obtain rfl | ⟨c, hc, rfl⟩ := hn
    · exact Nat.zero_le _
    · exact hsmall c hc
  have hhonest : ∀ n ∈ as₀.sizes, ∀ m, Honest Ram.getppages Ram.used m n := by
    intro n hn
    simp only [Addrspace.sizes, List.mem_cons, List.not_mem_nil, or_false] at hn
    obtain rfl | rfl | rfl := hn
    · exact Ram.honest (hsize (npages_of_run hrun).1)
    · exact Ram.honest (hsize (npages_of_run hrun).2)
    · exact Ram.honest (by decide)
  have hspec := asPrepareLoadWith_spec (g := ram) (pbases_of_run hrun) hhonest
  rw [asPrepareLoadWith_ram] at hspec
  obtain ⟨-, hp⟩ | hr := hspec.of_yields hprep
  · exact (hp.holds (laid_of_run hrun)).oneToOne
  · cases hr

end OneToOne

/-! ## The image -/

/-- `VOP_READ` moves the bytes of the file, and is short at its end. -/
def LoadEnv.Serves (E : LoadEnv) (bytes : List Byte) : Prop :=
  ∀ offset n, E.served offset n = ((bytes.take (2 ^ 31 - 1)).drop offset).take n

/-- The byte of the image at offset `i` of a segment is one of the file, or 0. -/
def Phdr.ImageByte (bytes : List Byte) (ph : Phdr) (i : Nat) (b : Byte) : Prop :=
  if i < min ph.filesz ph.memsz then bytes[ph.offset + i]? = some b else b = 0

theorem Phdr.Loads.imageByte {E : LoadEnv} {bytes : List Byte} {ph : Phdr} {i : Nat} (h : ph.Loads E)
    (hserves : E.Serves bytes) (hi : i < ph.memsz) :
    ∃ b, (ph.content E)[i]? = some b ∧ ph.ImageByte bytes i b := by
  have hlen : i < (ph.content E).length := by rwa [h.length_content]
  have hget := List.getElem?_eq_getElem hlen
  refine ⟨_, hget, ?_⟩
  generalize (ph.content E)[i] = b at hget
  have hwhole := h.whole
  unfold Phdr.content at hget
  unfold Phdr.ImageByte
  split
  · next hfile =>
    rw [List.getElem?_append_left (hwhole.symm ▸ hfile), hserves, List.getElem?_take_of_lt hfile,
      List.getElem?_drop, List.getElem?_take] at hget
    split at hget
    · exact hget
    · cases hget
  · next hfile =>
    rw [List.getElem?_append_right (hwhole.symm ▸ Nat.le_of_not_lt hfile),
      List.getElem?_replicate] at hget
    split at hget
    · exact (Option.some.inj hget).symm
    · cases hget

/-- `load_elf` has returned 0. Then all segments are in memory as the file describes them, provided
that they do not overlap, and nothing was stored outside of user memory. -/
theorem loadElf_builds {E : LoadEnv} {bytes : List Byte} {ram : Ram} {mem : Word → Byte}
    {entrypoint : Nat} {t : LoadState} (hserves : E.Serves bytes)
    (h : (loadElf E).Yields (LoadState.start ram mem) entrypoint t)
    (hapart : E.segments.Pairwise Phdr.Apart) :
    entrypoint = E.ehdr.entry ∧ (∀ a ∈ t.written, a < usertop) ∧
      ∀ ph ∈ E.segments, ∀ i < ph.memsz, ∃ b,
        t.as.userByte t.mem (ph.vaddr + i) = some b ∧ ph.ImageByte bytes i b := by
  simp only [loadElf, yields_bind, yields_pure] at h
  obtain ⟨eh, l, hmap, _, s₁, hsegments, rfl, rfl⟩ := h
  have hmapped := mapElf_yields hmap
  obtain rfl := hmapped.ehdr
  have hempty : l.tlb.Follows l.as := by
    intro i hi
    rw [hmapped.tlb] at hi
    exact absurd hi (tlbInvalid_not_valid i)
  have himaged : Imaged E l.as l s₁ E.segments :=
    loadPass_yields rfl hempty (forSegments_yields hsegments)
  have hone := hmapped.oneToOne himaged.loads
  refine ⟨rfl, fun a ha => ?_, fun ph hph i hi => ?_⟩
  · obtain hnone | ⟨ph, hph, hin⟩ := himaged.written a ha
    · rw [hmapped.written] at hnone
      cases hnone
    · have hne : ph.memsz ≠ 0 := by
        obtain ⟨hlo, hhi⟩ := hin
        omega
      exact hin.2.trans_le ((himaged.loads ph hph).below hne)
  · obtain ⟨b, hb, himage⟩ := (himaged.loads ph hph).imageByte hserves hi
    refine ⟨b, ?_, himage⟩
    rw [himaged.as_eq, himaged.bytes hone hapart ph hph i hi]
    exact hb

theorem LoadEnv.ofFile_serves (bytes : List Byte) : (LoadEnv.ofFile bytes).Serves bytes := by
  intro offset n
  unfold LoadEnv.served LoadEnv.ofFile
  dsimp only
  rw [List.filter_singleton, Bool.cond_eq_ite]
  split
  · exact List.flatten_singleton
  · next hnil =>
    rw [decide_eq_true_eq, not_not] at hnil
    rw [hnil]
    rfl

/-- Two segments in one page. -/
theorem loadElf_builds_shared : ∃ bytes entrypoint t, (sampleElf [0x400000, 0x400004]).Serves bytes ∧
    (loadElf (sampleElf [0x400000, 0x400004])).Yields (LoadState.start sampleRam fun _ => 0)
      entrypoint t ∧
    entrypoint = (sampleElf [0x400000, 0x400004]).ehdr.entry ∧ (∀ a ∈ t.written, a < usertop) ∧
      ∀ ph ∈ (sampleElf [0x400000, 0x400004]).segments, ∀ i < ph.memsz, ∃ b,
        t.as.userByte t.mem (ph.vaddr + i) = some b ∧ ph.ImageByte bytes i b := by
  have hserves : (sampleElf [0x400000, 0x400004]).Serves _ := LoadEnv.ofFile_serves _
  have hreturned : (loadElf (sampleElf [0x400000, 0x400004])).hasReturned
      (LoadState.start sampleRam fun _ => 0) = true := by decide +kernel
  have horder : (sampleElf [0x400000, 0x400004]).segments.Pairwise
      fun p q => p.vaddr + p.memsz ≤ q.vaddr := by
    decide +kernel
  generalize sampleElf [0x400000, 0x400004] = E at hserves hreturned horder ⊢
  obtain ⟨entrypoint, t, h⟩ := Prog.exists_yields hreturned
  refine ⟨_, entrypoint, t, hserves, h, loadElf_builds hserves h (horder.imp fun hle a hp hq => ?_)⟩
  have hlt := hp.2
  have hge := hq.1
  omega

end Os161.Vm
