import Os161.Kheap.Invariant

/-!
# Allocation of blocks

One specification for each function on the way to `subpage_kmalloc`. None of them stops: the
assertions of `kheap.c` hold whenever the invariant does, and the loops over the lists end.
-/
namespace Os161.Kheap

open Lib Heap Prog

def NoPanic (_ : KheapPanic) : Prop := False

variable {h : Heap} {live : Live} {all : List Nat} {sized : Nat → List Nat} {pr t a : Nat}
  {free : List Nat}

theorem add32_of_lt {b : Nat} (hlt : a + b < 2 ^ 32) : add32 a b = a + b := Nat.mod_eq_of_lt hlt

theorem sub32_of_le {b : Nat} (hle : b ≤ a) : sub32 a b = a - b := if_pos hle

variable {x : Nat}

theorem Heap.Page.offset (hp : h.Page live pr free) (hx : h.Block pr x) :
    sub32 x (h.pageaddr pr) = x - h.pageaddr pr ∧ x - h.pageaddr pr < pageSize ∧ x ≠ 0 ∧
      add32 (h.pageaddr pr) (x - h.pageaddr pr) = x ∧ x < 2 ^ 32 := by
  obtain ⟨-, hpos, hbelow⟩ := hp.isPage
  obtain ⟨hge, hlt, -⟩ := hx
  rw [sub32_of_le hge, add32_of_lt (by omega)]
  omega

theorem Heap.Page.length_le (hp : h.Page live pr free) : free.length ≤ pageSize / h.size pr :=
  (forall_mem_iff_length hp.blktype hp.chain.nodup fun x hx => ((hp.mem_free x).1 hx).1).1

theorem Heap.Page.length_le_pageSize (hp : h.Page live pr free) : free.length ≤ pageSize :=
  Nat.le_trans hp.length_le (Nat.div_le_self _ _)

variable {rest : List Nat}

theorem Heap.Page.first (hp : h.Page live pr free)
    (hf : free = x :: rest) : (h.pagerefs pr).freelistOffset = x - h.pageaddr pr := by
  have hfirst := (hf ▸ hp.chain).1
  unfold firstFree at hfirst
  split at hfirst
  · exact nomatch hfirst
  · have := Option.some.inj hfirst
    omega

theorem Heap.Page.invalid_of_nil (hp : h.Page live pr []) : (h.pagerefs pr).freelistOffset = invalidOffset := by
  have hfirst := hp.chain
  rw [Chain.nil_iff, firstFree] at hfirst
  by_contra e
  simp [e] at hfirst

theorem Heap.Page.refStep {h' : Heap} {live' : Live} {l : List Nat} (hp : h.Page live pr free)
    (hs : RefStep h h' pr) (hchain : Chain h'.nextFree (h'.firstFree pr) l)
    (hmem : ∀ x, x ∈ l ↔ h.Block pr x ∧ live' x = none)
    (hn : (h'.pagerefs pr).nfree = l.length) : h'.Page live' pr l where
  isPage := pageaddr_congr (hs.pab pr) ▸ hp.isPage
  blktype := blktype_congr (hs.pab pr) ▸ hp.blktype
  chain := hchain
  mem_free x := by rw [hmem, block_congr (hs.pab pr)]
  nfree := hn

theorem firstFree_setFree (offset nfree : Nat) : (h.setFree pr offset nfree).firstFree pr =
    if offset = invalidOffset then none else some (h.pageaddr pr + offset) := by
  have hs := refStep_setFree h pr offset nfree
  rw [firstFree, pageaddr_congr (hs.pab pr)]
  simp only [setFree, pagerefs_modifyRef]

theorem Heap.Page.take {live' : Live} {offset : Nat}
    (hp : h.Page live pr (x :: rest)) (hx : live' x ≠ none) (hlive : ∀ y, y ≠ x → live' y = live y)
    (hoff : h.nextFree x = if offset = invalidOffset then none else some (h.pageaddr pr + offset)) :
    (h.setFree pr offset rest.length).Page live' pr rest := by
  refine hp.refStep (refStep_setFree h pr offset rest.length) ?_ (fun y => ?_) ?_
  · rw [firstFree_setFree, ← hoff]
    exact hp.chain.2
  · have hxr : x ∉ rest := (List.nodup_cons.1 hp.chain.nodup).1
    have hy := hp.mem_free y
    by_cases e : y = x
    · subst e
      exact iff_of_false hxr fun h => hx h.2
    · rwa [List.mem_cons, or_iff_right e, ← hlive y e] at hy
  · simp only [setFree, pagerefs_modifyRef]

@[simp] theorem returns_modifyRef {K : KheapPanic → Prop} (f : Pageref → Pageref)
    {P : Unit → Heap → Prop} : Returns K (modifyRef pr f) h P ↔ P () (h.modifyRef pr f) :=
  ⟨id, id⟩

theorem doalloc_spec (hp : h.Page live pr (x :: rest)) :
    Returns NoPanic (doalloc pr) h fun r h' => r = x ∧ h'.mem = h.mem ∧ RefStep h h' pr ∧
      ∀ live', (live' x ≠ none) → (∀ y, y ≠ x → live' y = live y) → h'.Page live' pr rest := by
  have hx := ((hp.mem_free x).1 List.mem_cons_self).1
  obtain ⟨-, hoff, -, hadd, -⟩ := hp.offset hx
  have hfirst := hp.first rfl
  have hnfree : dec16 (h.pagerefs pr).nfree = rest.length := by
    rw [hp.nfree, List.length_cons]
    exact if_neg (Nat.succ_ne_zero _)
  have hpage : (h.pagerefs pr).pageaddr = h.pageaddr pr := rfl
  simp only [doalloc, returns_bind, returns_get, returns_check, returns_modifyRef,
    returns_ite, returns_pure, modifyRef_modifyRef, hfirst, hnfree, hpage, hadd, if_pos hoff]
  have done (o : Nat) (ho : h.nextFree x = if o = invalidOffset then none
      else some (h.pageaddr pr + o)) : (h.setFree pr o rest.length).mem = h.mem ∧
        RefStep h (h.setFree pr o rest.length) pr ∧
        ∀ live', (live' x ≠ none) → (∀ y, y ≠ x → live' y = live y) →
          (h.setFree pr o rest.length).Page live' pr rest :=
    ⟨rfl, refStep_setFree _ _ _ _, fun _ hx hlive => hp.take hx hlive ho⟩
  have hchain := hp.chain.2
  cases rest with
  | nil =>
    have hend : h.mem x = 0 := by
      rw [Chain.nil_iff, nextFree] at hchain
      by_contra e
      simp [e] at hchain
    rw [if_neg (by simp [hend]), if_pos List.length_nil]
    exact ⟨trivial, done invalidOffset (by simp [nextFree, hend])⟩
  | cons y rest =>
    have hy := ((hp.mem_free y).1 (by simp)).1
    obtain ⟨hsub, hlt, hne, -, -⟩ := hp.offset hy
    have hnext : h.mem x = y := by
      have := hchain.1
      rw [nextFree] at this
      split at this
      · cases this
      · exact Option.some.inj this
    rw [if_pos (by rwa [hnext]), if_pos (by simp), hnext, hsub, if_pos hlt]
    have hsmall : u16 (y - h.pageaddr pr) = y - h.pageaddr pr :=
      Nat.mod_eq_of_lt (by unfold pageSize at hlt; omega)
    rw [hsmall]
    refine ⟨trivial, done _ ?_⟩
    have hval : y - h.pageaddr pr ≠ invalidOffset := by
      unfold pageSize at hlt
      unfold invalidOffset
      omega
    have := hy.ge
    rw [hchain.1, if_neg hval, Nat.add_sub_cancel' this]

/-! ## A fresh page -/

@[simp] theorem store_mem (x v : Nat) : (h.store x v).mem x = v := Function.update_self _ _ _

theorem store_mem_ne {y : Nat} (v : Nat) (hy : y ≠ x) : (h.store x v).mem y = h.mem y :=
  Function.update_of_ne hy _ _

@[simp] theorem returns_store {K : KheapPanic → Prop} (x v : Nat) {P : Unit → Heap → Prop} :
    Returns K (store x v) h P ↔ P () (h.store x v) := ⟨id, id⟩

variable {s : Nat}

theorem mul_sizes_lt {i : Nat} (hs : 0 < s) (hi : i < pageSize / s) : i * s < pageSize :=
  calc i * s < (i + 1) * s := Nat.mul_lt_mul_of_pos_right (Nat.lt_succ_self i) hs
    _ ≤ pageSize / s * s := Nat.mul_le_mul_right s hi
    _ ≤ pageSize := Nat.div_mul_le_self _ _

theorem linkBlocks_spec (ha : IsPage a) (hs : 0 < s) (n i : Nat) (hn : i + 1 + n ≤ pageSize / s)
    (hc : Chain h.nextFree (some (a + i * s)) (blocksDown a s (i + 1))) :
    Returns NoPanic (linkBlocks a s n (i + 1) (a + i * s)) h fun r h' =>
      r = a + (i + n) * s ∧ Chain h'.nextFree (some r) (blocksDown a s (i + 1 + n)) ∧ h' = { h with mem := h'.mem } ∧
      ∀ y, y < a ∨ a + pageSize ≤ y → h'.mem y = h.mem y := by
  induction n generalizing i h with
  | zero => exact ⟨rfl, hc, rfl, fun _ _ => rfl⟩
  | succ n ih =>
    have hin := mul_sizes_lt hs (show i + 1 < pageSize / s by omega)
    have hstep : (i + 1) * s = i * s + s := Nat.succ_mul i s
    have hbelow := ha.below
    simp only [linkBlocks, returns_bind, returns_store, returns_check, Nat.add_sub_cancel]
    rw [add32_of_lt (a := a) (b := (i + 1) * s) (by omega), add32_of_lt (b := i * s) (by omega), if_pos (by omega)]
    have fresh : a + (i + 1) * s ∉ blocksDown a s (i + 1) := by
      intro hmem
      obtain ⟨k, hk, e⟩ := (mem_blocksDown _).1 hmem
      have := Nat.mul_le_mul_right s (Nat.le_of_lt_succ hk)
      omega
    -- the new block is linked in front of those below it
    have hc' : Chain (h.store (a + (i + 1) * s) (a + i * s)).nextFree (some (a + (i + 1) * s))
        (blocksDown a s (i + 1 + 1)) := by
      refine ⟨rfl, ?_⟩
      have next : (h.store (a + (i + 1) * s) (a + i * s)).nextFree (a + (i + 1) * s) = some (a + i * s) := by
        have hpos := ha.pos
        rw [nextFree, store_mem]
        exact if_neg (by omega)
      rw [next]
      refine hc.congr fun y hy => ?_
      have : y ≠ a + (i + 1) * s := fun e => fresh (e ▸ hy)
      rw [nextFree, nextFree, store_mem_ne _ this]
    have hi : i + 1 + 1 + n = i + 1 + (n + 1) := by omega
    refine (ih (i + 1) (hi ▸ hn) hc').mono ?_
    rintro r h' ⟨hr, hch, hh, hmem⟩
    refine ⟨by rw [hr, Nat.add_right_comm, Nat.add_assoc], hi ▸ hch, hh, fun y hy => ?_⟩
    rw [hmem y hy]
    exact store_mem_ne _ (by omega)

/-- What `setupPage` makes of the heap. -/
structure Heap.Added (h h' : Heap) (pr page t : Nat) : Prop where
  pab : (h'.pagerefs pr).pageaddrAndBlocktype = mkpab page t
  nextAll : h'.nextAll = Function.update h.nextAll pr h.allbase
  nextSamesize : h'.nextSamesize = Function.update h.nextSamesize pr (h.sizebases t)
  sizebases : h'.sizebases = Function.update h.sizebases t (some pr)
  allbase : h'.allbase = some pr
  inuse : h'.pagerefsInuse = h.pagerefsInuse
  kpages : h'.kpages = h.kpages
  other : ∀ qr, qr ≠ pr → SamePage h h' qr
  mem : ∀ y, y < page ∨ page + pageSize ≤ y → h'.mem y = h.mem y

/-- The blocks of a page below the first free one, which is the last. -/
theorem blocks_eq_cons (ht : t < nsizes) : ∃ n, pageSize / sizes t = n + 1 ∧ n < 2 ^ 8 ∧ n * sizes t < pageSize := by
  unfold pageSize
  rcases sizes_cases ht with e | e | e | e | e | e | e | e <;> rw [e] <;> exact ⟨_, rfl, by omega⟩

variable {page : Nat}

theorem setupPage_spec (ha : IsPage page) (ht : t < nsizes) :
    Returns NoPanic (setupPage pr page t) h fun _ h' => h.Added h' pr page t ∧
      (∀ live : Live, (∀ x, IsBlock page (sizes t) x → live x = none) → h'.Page live pr (blocks page (sizes t))) := by
  obtain ⟨n, hn, hsmall, hmul⟩ := blocks_eq_cons ht
  have hpos := ha.pos
  have hbelow := ha.below
  simp only [setupPage, returns_bind, returns_modifyRef, returns_store, returns_check,
    returns_modify, hn, Nat.add_sub_cancel]
  generalize hh1 : h.modifyRef pr _ = h1
  have hc : Chain (h1.store page 0).nextFree (some (page + 0 * sizes t)) (blocksDown page (sizes t) (0 + 1)) := by
    simp [blocksDown, nextFree, Heap.store]
  have link := linkBlocks_spec (i := 0) ha (sizes_pos ht) n (by omega) hc
  simp only [Nat.zero_mul, Nat.add_zero, Nat.zero_add] at link
  refine link.mono ?_
  rintro r h2 ⟨rfl, hch, hh2, hmem⟩
  have hoff : u16 (sub32 (page + n * sizes t) page) = n * sizes t := by
    rw [sub32_of_le (by omega), Nat.add_sub_cancel_left]
    exact Nat.mod_eq_of_lt (by unfold pageSize at hmul; omega)
  rw [hoff, if_pos rfl]
  obtain ⟨mem, rfl⟩ : ∃ mem, h2 = { h1 with mem := mem } := ⟨h2.mem, hh2⟩
  subst hh1
  generalize hg : Heap.enter _ pr t = g
  have hu : u16 (n + 1) = n + 1 := Nat.mod_eq_of_lt (by omega)
  have hself : g.pagerefs pr = ⟨h.sizebases t, h.allbase, mkpab page t, n * sizes t, n + 1⟩ := by
    subst hg
    simp [Heap.enter, Heap.modifyRef, hu]
  have hother : ∀ qr, qr ≠ pr → g.pagerefs qr = h.pagerefs qr := by
    intro qr hq
    subst hg
    simp [Heap.enter, Heap.modifyRef, hq]
  have hgmem : g.mem = mem := by subst hg; rfl
  have haddr : g.pageaddr pr = page := pageaddr_mkpab (t := t) ha (by rw [hself])
  have htype : g.blktype pr = t := blktype_mkpab (a := page) ht (by rw [hself])
  refine ⟨⟨by rw [hself], ?_, ?_, by subst hg; rfl, by subst hg; rfl, by subst hg; rfl,
    by subst hg; rfl, fun qr hq => ?_, fun y hy => ?_⟩, fun live hlive => ⟨?_, ?_, ?_, fun x => ?_, ?_⟩⟩
  · funext qr
    by_cases e : qr = pr
    · subst e
      rw [Heap.nextAll, hself, Function.update_self]
    · rw [Heap.nextAll, hother qr e, Function.update_of_ne e, Heap.nextAll]
  · funext qr
    by_cases e : qr = pr
    · subst e
      rw [Heap.nextSamesize, hself, Function.update_self]
    · rw [Heap.nextSamesize, hother qr e, Function.update_of_ne e, Heap.nextSamesize]
  · constructor <;> rw [hother qr hq]
  · rw [hgmem]
    refine (hmem y hy).trans (Function.update_of_ne ?_ _ _)
    unfold pageSize at hy
    omega
  · rwa [haddr]
  · rwa [htype]
  · have hval : n * sizes t ≠ invalidOffset := by
      unfold pageSize at hmul
      unfold invalidOffset
      omega
    rw [firstFree, hself, haddr, if_neg hval, blocks, hn, Nat.add_comm n 1]
    refine hch.congr fun x _ => ?_
    rw [nextFree, nextFree, hgmem]
  · rw [mem_blocks ht, Heap.Block, haddr, Heap.size, htype]
    exact ⟨fun hx => ⟨hx, hlive x hx⟩, fun hx => hx.1⟩
  · rw [hself, length_blocks, hn]

/-- A pageref and a page are taken, and not yet entered anywhere. -/
def Heap.reserve (h : Heap) (pr page : Nat) : Heap :=
  { h with pagerefsInuse := bitSet h.pagerefsInuse pr, kpages := page :: h.kpages }

theorem Heap.Added.blktype_ne {h' : Heap} (hadd : h.Added h' pr page t) {qr : Nat}
    (hq : qr ≠ pr) : h'.blktype qr = h.blktype qr := blktype_congr (hadd.other qr hq).pab

theorem Heap.Lists.added {h' : Heap} (hl : h.Lists all sized) (hpr : pr ∉ all)
    (hlt : pr < nPagerefs) (ht : t < nsizes) (hadd : (h.reserve pr page).Added h' pr page t) :
    h'.Lists (pr :: all) (Function.update sized t (pr :: sized t)) where
  all_chain := by
    rw [hadd.nextAll, hadd.allbase]
    exact hl.all_chain.push hpr
  size_chain u hu := by
    rw [hadd.nextSamesize, hadd.sizebases]
    by_cases e : u = t
    · subst e
      rw [Function.update_self, Function.update_self]
      exact (hl.size_chain u hu).push fun h => hpr ((hl.mem_sized u hu pr).1 h).1
    · rw [Function.update_of_ne e, Function.update_of_ne e]
      refine (hl.size_chain u hu).congr fun qr hqr => Function.update_of_ne ?_ _ _
      rintro rfl
      exact hpr ((hl.mem_sized u hu qr).1 hqr).1
  mem_sized u hu qr := by
    have hty : h'.blktype pr = t := blktype_mkpab ht hadd.pab
    have hm := hl.mem_sized u hu qr
    by_cases e : qr = pr
    · subst e
      by_cases eu : u = t
      · subst eu
        simp [hty]
      · rw [Function.update_of_ne eu, hm]
        simp [hpr, hty, Ne.symm eu]
    · have same : h'.blktype qr = h.blktype qr := hadd.blktype_ne e
      by_cases eu : u = t
      · subst eu
        rw [Function.update_self, List.mem_cons, List.mem_cons, hm, same]
        simp [e]
      · rw [Function.update_of_ne eu, List.mem_cons, hm, same]
        simp [e]
  inuse qr := by
    rw [hadd.inuse, Heap.reserve, bitTest_bitSet (by decide), Bool.or_eq_true, decide_eq_true_iff,
      hl.inuse, List.mem_cons]
  bound qr hqr := by
    obtain rfl | h := List.mem_cons.1 hqr
    · exact hlt
    · exact hl.bound qr h

theorem Heap.Pages.dead_of_fresh (hp : h.Pages live all) (ha : IsPage page)
    (hfresh : page ∉ h.kpages) (hx : IsBlock page s x) : live x = none := by
  cases hlive : live x with
  | none => rfl
  | some sz =>
    obtain ⟨qr, hqr, hblock, -⟩ := hp.live x sz hlive
    obtain ⟨_, hq⟩ := hp.page qr hqr
    have := hblock.page_eq hq.isPage
    rw [hx.page_eq ha] at this
    exact absurd ((hp.mem_kpages page).2 ⟨qr, hqr, this.symm⟩) hfresh

theorem Heap.Pages.added {h' : Heap} (hp : h.Pages live all) (ha : IsPage page)
    (hpr : pr ∉ all) (hfresh : page ∉ h.kpages)
    (hadd : (h.reserve pr page).Added h' pr page t) (hpage : ∃ free, h'.Page live pr free) :
    h'.Pages live (pr :: all) := by
  have haddr : h'.pageaddr pr = page := pageaddr_mkpab ha hadd.pab
  have hne : ∀ qr ∈ all, qr ≠ pr := by
    rintro qr hqr rfl
    exact hpr hqr
  have same : ∀ qr ∈ all, h'.pageaddr qr = h.pageaddr qr := fun qr hqr =>
    pageaddr_congr (hadd.other qr (hne qr hqr)).pab
  have apart : ∀ qr ∈ all, h.pageaddr qr ≠ page := by
    rintro qr hqr rfl
    exact hfresh ((hp.mem_kpages _).2 ⟨qr, hqr, rfl⟩)
  constructor
  · intro qr hqr
    obtain rfl | hqr := List.mem_cons.1 hqr
    · exact hpage
    · obtain ⟨free, hq⟩ := hp.page qr hqr
      refine ⟨free, hq.congr ⟨(hadd.other qr (hne qr hqr)).pab, (hadd.other qr (hne qr hqr)).offset,
        (hadd.other qr (hne qr hqr)).nfree⟩ (fun y hy => hadd.mem y ?_) fun _ _ => Iff.rfl⟩
      -- a free block of an older page does not lie on the new one
      obtain ⟨hge, hlt, -⟩ := ((hq.mem_free y).1 hy).1
      have h1 := hq.isPage.aligned
      have h2 := ha.aligned
      have h3 := apart qr hqr
      unfold pageSize at *
      omega
  · intro qr hqr rr hrr e
    obtain hq | hq := List.mem_cons.1 hqr <;> obtain hr | hr := List.mem_cons.1 hrr
    · rw [hq, hr]
    · rw [hq, haddr, same rr hr] at e
      exact absurd e.symm (apart rr hr)
    · rw [hr, haddr, same qr hq] at e
      exact absurd e (apart qr hq)
    · rw [same qr hq, same rr hr] at e
      exact hp.inj qr hq rr hr e
  · intro b
    rw [hadd.kpages, Heap.reserve, List.mem_cons, hp.mem_kpages]
    constructor
    · rintro (rfl | ⟨qr, hqr, rfl⟩)
      · exact ⟨pr, List.mem_cons_self, haddr⟩
      · exact ⟨qr, List.mem_cons_of_mem _ hqr, same qr hqr⟩
    · rintro ⟨qr, hqr, rfl⟩
      obtain rfl | hqr := List.mem_cons.1 hqr
      · exact .inl haddr
      · exact .inr ⟨qr, hqr, (same qr hqr).symm⟩
  · rw [hadd.kpages]
    exact List.nodup_cons.2 ⟨hfresh, hp.nodup_kpages⟩
  · intro x sz hx
    obtain ⟨qr, hqr, hblock, htype⟩ := hp.live x sz hx
    have hpab := (hadd.other qr (hne qr hqr)).pab
    refine ⟨qr, List.mem_cons_of_mem _ hqr, (block_congr hpab).2 hblock, ?_⟩
    rw [htype]
    exact congrArg some (blktype_congr hpab).symm

/-! ## Allocation -/

/-- The heap between calls. -/
structure Heap.Ok (h : Heap) (live : Live) (all : List Nat) (sized : Nat → List Nat) : Prop where
  lists : h.Lists all sized
  pages : h.Pages live all
  busy : ∀ pr ∈ all, h.Busy live pr

/-- What `alloc_kpages` may return: nothing, or a page that is not handed out. -/
def PageReply (h : Heap) (page : Nat) : Prop := page = 0 ∨ (IsPage page ∧ page ∉ h.kpages)

theorem searchSize_spec {l : List Nat} {p : Option Nat} (hc : Chain h.nextSamesize p l)
    (htype : ∀ pr ∈ l, h.blktype pr = t) (n : Nat) (hn : l.length < n) :
    Returns NoPanic (searchSize t n p) h fun r h' => h' = h ∧
      ∀ pr, r = some pr → pr ∈ l ∧ 0 < (h.pagerefs pr).nfree := by
  induction n generalizing p l with
  | zero => exact absurd hn (Nat.not_lt_zero _)
  | succ n ih =>
    cases l with
    | nil =>
      rw [Chain.nil_iff] at hc
      subst hc
      exact ⟨rfl, fun pr h => nomatch h⟩
    | cons pr l =>
      obtain ⟨rfl, hc⟩ := hc
      simp only [searchSize, returns_bind, returns_get, returns_check, returns_ite, returns_pure]
      have hty : (h.pagerefs pr).blktype = t := htype pr List.mem_cons_self
      rw [if_pos hty]
      split
      · next hfree =>
        refine ⟨trivial, fun qr h => ?_⟩
        obtain rfl := Option.some.inj h
        exact ⟨List.mem_cons_self, hfree⟩
      · refine (ih hc (fun qr h => htype qr (List.mem_cons_of_mem _ h)) (by simpa using hn)).mono ?_
        rintro r h' ⟨rfl, hr⟩
        exact ⟨rfl, fun qr e => ⟨List.mem_cons_of_mem _ (hr qr e).1, (hr qr e).2⟩⟩

theorem doalloc_pages (sz : Nat) (hl : h.Lists all sized) (hp : h.Pages live all)
    (hbusy : ∀ qr ∈ all, qr ≠ pr → h.Busy live qr) (hpr : pr ∈ all)
    (hfree : 0 < (h.pagerefs pr).nfree) (hsz : blocktype? sz = some (h.blktype pr)) :
    Returns NoPanic (doalloc pr) h fun x h' => x ≠ 0 ∧ live x = none ∧
      h'.Ok (Function.update live x (some sz)) all sized ∧ h'.kpages = h.kpages := by
  obtain ⟨free, hpage⟩ := hp.page pr hpr
  obtain ⟨x, rest, rfl⟩ : ∃ x rest, free = x :: rest := by
    rw [hpage.nfree] at hfree
    exact List.exists_cons_of_length_pos hfree
  obtain ⟨hblock, hdead⟩ := (hpage.mem_free x).1 List.mem_cons_self
  refine (doalloc_spec hpage).mono ?_
  rintro r h' ⟨rfl, hmem, hs, hpage'⟩
  have hlive (y : Nat) (hy : y ≠ r) : Function.update live r (some sz) y = live y :=
    Function.update_of_ne hy _ _
  have hnew := hpage' (Function.update live r (some sz)) (by simp) hlive
  refine ⟨(hpage.offset hblock).2.2.1, hdead, ⟨hl.refStep hs, ?_, fun qr hqr => ?_⟩, hs.kpages⟩
  · refine hp.refStep hs hpr hblock (fun y _ => congrFun hmem y) hnew hlive fun sz' h => ?_
    rw [Function.update_self] at h
    rw [← hsz, Option.some.inj h]
  · by_cases e : qr = pr
    · exact ⟨r, e ▸ (block_congr (hs.pab pr)).2 hblock, by simp⟩
    · obtain ⟨y, hy, hly⟩ := hbusy qr hqr e
      refine ⟨y, (block_congr (hs.pab qr)).2 hy, ?_⟩
      rwa [hlive y fun h => hly (h ▸ hdead)]

theorem allocpageref_spec (hl : h.Lists all sized) :
    Returns NoPanic allocpageref h fun r h' => match r with
      | none => h' = h
      | some pr => pr < nPagerefs ∧ pr ∉ all ∧
          h' = { h with pagerefsInuse := bitSet h.pagerefsInuse pr } := by
  have scan := scanWords_spec (by decide) h.pagerefsInuse 0 inuseWords
  simp only [allocpageref, returns_bind, returns_get]
  cases hs : scanWords h.pagerefsInuse 0 inuseWords with
  | full => rfl
  | stuck => rw [hs] at scan; exact scan.elim
  | found i j =>
    rw [hs] at scan
    obtain ⟨-, hi, hj, hclear, -⟩ := scan
    refine ⟨?_, fun hmem => ?_, rfl⟩
    · unfold inuseWords nPagerefs at hi
      unfold nPagerefs
      omega
    · rw [(hl.inuse _).2 hmem] at hclear
      cases hclear

theorem freepageref_spec (hpr : pr < nPagerefs) (hset : bitTest h.pagerefsInuse pr = true) :
    Returns NoPanic (freepageref pr) h fun _ h' => h' = { h with pagerefsInuse := bitClear h.pagerefsInuse pr } := by
  simp [freepageref, hpr, hset]

/-- The outcome of an allocation of `sz` bytes: nothing happened, or `x` became live. -/
def Allocated (h : Heap) (live : Live) (page sz x : Nat) (h' : Heap) : Prop :=
  (x = 0 ∧ h' = h) ∨
  (x ≠ 0 ∧ live x = none ∧ (∃ all sized, h'.Ok (Function.update live x (some sz)) all sized) ∧
    (h'.kpages = h.kpages ∨ h'.kpages = page :: h.kpages))

variable {sz : Nat}

theorem newPage_spec (hok : h.Ok live all sized) (hpage : PageReply h page)
    (ht : t < nsizes) (hsz : blocktype? sz = some t) :
    Returns NoPanic (newPage page t) h (Allocated h live page sz) := by
  simp only [newPage, returns_bind]
  refine (allocpageref_spec hok.lists).mono ?_
  rintro (_ | pr) h1 hr
  · subst hr
    exact .inl ⟨rfl, rfl⟩
  · obtain ⟨hlt, hpr, rfl⟩ := hr
    have hdead : bitTest h.pagerefsInuse pr = false := by
      cases e : bitTest h.pagerefsInuse pr with
      | false => rfl
      | true => exact absurd ((hok.lists.inuse pr).1 e) hpr
    simp only [allocKpages, returns_bind, returns_when, returns_modify, returns_pure, returns_ite]
    obtain rfl | ⟨ha, hfresh⟩ := hpage
    · rw [if_neg (by simp), if_pos rfl]
      refine (freepageref_spec hlt (by simp)).mono ?_
      rintro _ h2 rfl
      exact .inl ⟨rfl, by rw [bitClear_bitSet (by decide) _ hdead]⟩
    · have hne : page ≠ 0 := Nat.ne_of_gt ha.pos
      rw [if_pos hne, if_neg hne]
      refine (setupPage_spec (h := h.reserve pr page) ha ht).mono ?_
      rintro _ h2 ⟨hadd, hnew⟩
      have hdead' : ∀ x, IsBlock page (sizes t) x → live x = none :=
        fun x hx => hok.pages.dead_of_fresh ha hfresh hx
      have hlists := hok.lists.added hpr hlt ht hadd
      have hpages := hok.pages.added ha hpr hfresh hadd ⟨_, hnew live hdead'⟩
      have hty : h2.blktype pr = t := blktype_mkpab ht hadd.pab
      obtain ⟨n, hn, -⟩ := blocks_eq_cons ht
      refine (doalloc_pages sz hlists hpages ?_ List.mem_cons_self ?_ (hty ▸ hsz)).mono ?_
      · intro qr hqr hq
        obtain ⟨x, hx, hlive⟩ := hok.busy qr ((List.mem_cons.1 hqr).resolve_left hq)
        exact ⟨x, (block_congr (hadd.other qr hq).pab).2 hx, hlive⟩
      · rw [(hnew live hdead').nfree, length_blocks, hn]
        omega
      · rintro x h3 ⟨hx, hl, hok', hk⟩
        exact .inr ⟨hx, hl, ⟨_, _, hok'⟩, .inr (hk.trans hadd.kpages)⟩

theorem blocktype?_spec (hsz : sz < largestSubpageSize) :
    ∃ t < nsizes, blocktype? sz = some t ∧ sz ≤ sizes t := by
  have some_of : (blocktype? sz).isSome := by
    rw [blocktype?, List.find?_isSome]
    refine ⟨7, by decide, ?_⟩
    unfold largestSubpageSize at hsz
    simp [sizes]
    omega
  obtain ⟨t, ht⟩ := Option.isSome_iff_exists.1 some_of
  refine ⟨t, ?_, ht, ?_⟩
  · exact List.mem_range.1 (List.mem_of_find?_eq_some ht)
  · simpa using List.find?_some ht

theorem subpageKmalloc_spec (hok : h.Ok live all sized) (hpage : PageReply h page)
    (hsz : sz < largestSubpageSize) : Returns NoPanic (subpageKmalloc page sz) h (Allocated h live page sz) := by
  obtain ⟨t, ht, htype, -⟩ := blocktype?_spec hsz
  simp only [subpageKmalloc, blocktype, htype, returns_bind, returns_pure, returns_get]
  have hlen := hok.lists.length_sized ht
  refine (searchSize_spec (hok.lists.size_chain t ht)
    (fun pr h => ((hok.lists.mem_sized t ht pr).1 h).2) (nPagerefs + 1) (by omega)).mono ?_
  rintro (_ | pr) h' ⟨rfl, hr⟩
  · exact newPage_spec hok hpage ht htype
  · obtain ⟨hmem, hfree⟩ := hr pr rfl
    obtain ⟨hpr, hty⟩ := (hok.lists.mem_sized t ht pr).1 hmem
    refine (doalloc_pages sz hok.lists hok.pages (fun qr h _ => hok.busy qr h) hpr hfree (hty ▸ htype)).mono ?_
    rintro x h3 ⟨hx, hl, hok', hk⟩
    exact .inr ⟨hx, hl, ⟨_, _, hok'⟩, .inl hk⟩

end Os161.Kheap
