import Os161.Kheap.Ops

/-!
# Release of blocks

The functions on the way to `kfree`. A block that is freed goes in front of the free list of its
page; the page itself goes back when that list has become complete.
-/
namespace Os161.Kheap

open Lib Heap Prog

variable {h : Heap} {live : Live} {all : List Nat} {sized : Nat → List Nat} {pr t a : Nat}
  {free : List Nat}

theorem searchPage_spec {l : List Nat} {p : Option Nat} {x : Nat} (hc : Chain h.nextAll p l)
    (hl : ∀ pr ∈ l, h.blktype pr < nsizes ∧ IsPage (h.pageaddr pr)) (n : Nat) (hn : l.length < n) :
    Returns NoPanic (searchPage x n p) h fun r h' => h' = h ∧ match r with
      | some pr => pr ∈ l ∧ h.pageaddr pr ≤ x ∧ x < h.pageaddr pr + pageSize
      | none => ∀ pr ∈ l, ¬ (h.pageaddr pr ≤ x ∧ x < h.pageaddr pr + pageSize) := by
  induction n generalizing p l with
  | zero => exact absurd hn (Nat.not_lt_zero _)
  | succ n ih =>
    cases l with
    | nil =>
      rw [Chain.nil_iff] at hc
      subst hc
      exact ⟨rfl, fun pr h => nomatch h⟩
    | cons pr l =>
      obtain ⟨rfl, hc⟩ := hc
      obtain ⟨htype, hpage⟩ := hl pr List.mem_cons_self
      have haddr : (h.pagerefs pr).pageaddr = h.pageaddr pr := rfl
      have hty : (h.pagerefs pr).blktype < nsizes := htype
      simp only [searchPage, returns_bind, returns_get, returns_check,
        returns_ite, returns_pure, haddr, add32_of_lt hpage.below, if_pos hty]
      split
      · next hin => exact ⟨trivial, List.mem_cons_self, hin⟩
      · next hout =>
        refine (ih hc (fun qr h => hl qr (List.mem_cons_of_mem _ h)) (by simpa using hn)).mono ?_
        rintro (_ | qr) h' ⟨rfl, hr⟩
        · refine ⟨rfl, fun qr hqr => ?_⟩
          obtain rfl | hqr := List.mem_cons.1 hqr
          · exact hout
          · exact hr qr hqr
        · exact ⟨rfl, List.mem_cons_of_mem _ hr.1, hr.2⟩

theorem fillDeadbeef_outside {x y : Nat} (mem : Nat → Nat) (i n : Nat)
    (hlt : x + 4 * (i + n) < 2 ^ 32) (hy : y < x ∨ x + 4 * (i + n) ≤ y) : fillDeadbeef x mem i n y = mem y := by
  induction n generalizing mem i with
  | zero => rfl
  | succ n ih =>
    rw [fillDeadbeef, ih _ (i + 1) (by omega) (by omega)]
    refine Function.update_of_ne ?_ _ _
    rw [add32_of_lt (by omega)]
    omega

theorem Heap.Page.apart {x y : Nat} (hp : h.Page live pr free) (hx : h.Block pr x) (hlive : live x ≠ none)
    (hy : y ∈ free) : y + h.size pr ≤ x ∨ x + h.size pr ≤ y := by
  obtain ⟨hblock, hdead⟩ := (hp.mem_free y).1 hy
  have hne : y ≠ x := fun e => hlive (e ▸ hdead)
  obtain hlt | hlt := Nat.lt_or_gt_of_ne hne
  · exact .inl (hblock.separate hp.blktype hx hlt)
  · exact .inr (hx.separate hp.blktype hblock hlt)

theorem Heap.Page.fill {x : Nat} (hp : h.Page live pr free) (hx : h.Block pr x) (hlive : live x ≠ none)
    {mem : Nat → Nat} (hmem : ∀ y, y < x ∨ x + h.size pr ≤ y → mem y = h.mem y) :
    ({ h with mem := mem } : Heap).Page live pr free := by
  have hpos := sizes_pos hp.blktype
  refine hp.congr ⟨rfl, rfl, rfl⟩ (fun y hy => hmem y ?_) fun _ _ => Iff.rfl
  have := hp.apart hx hlive hy
  rw [Heap.size] at *
  omega

theorem Heap.Page.put {x v : Nat} (hp : h.Page live pr free) (hx : h.Block pr x) (hlive : live x ≠ none)
    (hv : (if v = 0 then none else some v) = h.firstFree pr) :
    ((h.store x v).setFree pr (x - h.pageaddr pr) (free.length + 1)).Page
      (Function.update live x none) pr (x :: free) := by
  obtain ⟨-, hoff, -, -, -⟩ := hp.offset hx
  have hge := hx.ge
  have hxfree : x ∉ free := fun hmem => hlive ((hp.mem_free x).1 hmem).2
  refine hp.refStep ((refStep_mem h _ pr).trans (refStep_setFree (h.store x v) pr _ _)) ?_ (fun y => ?_) ?_
  · have hval : x - h.pageaddr pr ≠ invalidOffset := by
      unfold pageSize at hoff
      unfold invalidOffset
      omega
    have haddr : (h.store x v).pageaddr pr = h.pageaddr pr := rfl
    rw [firstFree_setFree, if_neg hval, haddr, Nat.add_sub_cancel' hge]
    have next : ((h.store x v).setFree pr (x - h.pageaddr pr) (free.length + 1)).nextFree x = h.firstFree pr := by
      rw [← hv, nextFree, setFree_mem, store_mem]
    refine ⟨rfl, ?_⟩
    rw [next]
    refine hp.chain.congr fun y hy => ?_
    have : y ≠ x := fun e => hxfree (e ▸ hy)
    rw [nextFree, nextFree, setFree_mem, store_mem_ne v this]
  · by_cases e : y = x
    · subst e
      simp [hx]
    · rw [List.mem_cons, or_iff_right e, hp.mem_free, Function.update_of_ne e]
  · simp [setFree]

theorem pushFree_spec {x : Nat} (hp : h.Page live pr free) (hx : h.Block pr x) (hlive : live x ≠ none) :
    Returns NoPanic (pushFree pr x) h fun _ h' => RefStep h h' pr ∧ (∀ y, y ≠ x → h'.mem y = h.mem y) ∧
      h'.Page (Function.update live x none) pr (x :: free) := by
  obtain ⟨hsub, hoff, -, hadd, -⟩ := hp.offset hx
  have haddr : (h.pagerefs pr).pageaddr = h.pageaddr pr := rfl
  have hlen := hp.length_le_pageSize
  have hu : u16 (x - h.pageaddr pr) = x - h.pageaddr pr :=
    Nat.mod_eq_of_lt (by unfold pageSize at hoff; omega)
  have hn : u16 (free.length + 1) = free.length + 1 :=
    Nat.mod_eq_of_lt (by unfold pageSize at hlen; omega)
  have step (v : Nat) (hv : (if v = 0 then none else some v) = h.firstFree pr) : Returns NoPanic (do
        store x v
        modifyRef pr fun p => { p with freelistOffset := x - h.pageaddr pr, nfree := u16 (p.nfree + 1) })
        h fun _ h' => RefStep h h' pr ∧ (∀ y, y ≠ x → h'.mem y = h.mem y) ∧
          h'.Page (Function.update live x none) pr (x :: free) := by
    simp only [returns_bind, returns_store, returns_modifyRef]
    have hset : ((h.store x v).modifyRef pr fun p =>
        { p with freelistOffset := x - h.pageaddr pr, nfree := u16 (p.nfree + 1) }) =
        (h.store x v).setFree pr (x - h.pageaddr pr) (free.length + 1) := by
      have : ((h.store x v).pagerefs pr).nfree = free.length := hp.nfree
      rw [setFree, Heap.modifyRef, Heap.modifyRef, this, hn]
    rw [hset]
    exact ⟨(refStep_mem h _ pr).trans (refStep_setFree (h.store x v) pr _ _),
      fun y hy => Function.update_of_ne hy _ _, hp.put hx hlive hv⟩
  simp only [pushFree, returns_bind, returns_get, haddr, hsub, hadd, hu] at step ⊢
  cases free with
  | nil =>
    have hinv := hp.invalid_of_nil
    rw [if_pos hinv]
    exact step 0 (by rw [firstFree, if_pos hinv]; rfl)
  | cons y rest =>
    obtain ⟨hblock, -⟩ := (hp.mem_free y).1 List.mem_cons_self
    obtain ⟨-, hyoff, hyne, hyadd, -⟩ := hp.offset hblock
    have hfirst := hp.first rfl
    have hval : (h.pagerefs pr).freelistOffset ≠ invalidOffset := by
      rw [hfirst]
      unfold pageSize at hyoff
      unfold invalidOffset
      omega
    rw [if_neg hval, hfirst, hyadd]
    exact step y (by rw [if_neg hyne, hp.chain.1])

/-! ## Giving a page back -/

/-- A pageref left both lists; nothing else changed. -/
structure Heap.Removed (h h' : Heap) (pr t : Nat) (all : List Nat) (sized : Nat → List Nat) : Prop where
  all_chain : Chain h'.nextAll h'.allbase (all.erase pr)
  size_chain : ∀ u < nsizes, Chain h'.nextSamesize (h'.sizebases u)
    (Function.update sized t ((sized t).erase pr) u)
  inuse : h'.pagerefsInuse = h.pagerefsInuse
  kpages : h'.kpages = h.kpages
  mem : h'.mem = h.mem
  same : ∀ qr, SamePage h h' qr

theorem removeSamesize_spec (hl : h.Lists all sized) (ht : t < nsizes) :
    Returns NoPanic (removeSamesize pr t) h fun _ h' => h'.nextAll = h.nextAll ∧ h'.allbase = h.allbase ∧
      (∀ u < nsizes, Chain h'.nextSamesize (h'.sizebases u) (Function.update sized t ((sized t).erase pr) u)) ∧
      h'.pagerefsInuse = h.pagerefsInuse ∧ h'.kpages = h.kpages ∧ h'.mem = h.mem ∧ ∀ qr, SamePage h h' qr := by
  obtain ⟨base, next, hu, hc, hout⟩ :=
    unlink_spec (a := pr) (hl.size_chain t ht) (hl.length_sized ht)
  simp only [removeSamesize, returns_bind, returns_get, hu, returns_modify]
  refine ⟨rfl, trivial, fun u hu => ?_, trivial, trivial, trivial, fun qr => ⟨rfl, rfl, rfl⟩⟩
  by_cases e : u = t
  · subst e
    rw [Function.update_self, Function.update_self]
    exact hc
  · rw [Function.update_of_ne e, Function.update_of_ne e]
    refine (hl.size_chain u hu).congr fun qr hqr => hout qr fun hmem => e ?_
    rw [← ((hl.mem_sized u hu qr).1 hqr).2, ((hl.mem_sized t ht qr).1 hmem).2]

theorem removeLists_spec (hl : h.Lists all sized) (ht : t < nsizes) :
    Returns NoPanic (removeLists pr t) h fun _ h' => h.Removed h' pr t all sized := by
  simp only [removeLists, returns_bind, returns_check, if_pos ht]
  refine (removeSamesize_spec hl ht).mono ?_
  rintro _ h1 ⟨hnext, hbase, hsize, hinuse, hk, hmem, hsame⟩
  have hc : Chain h1.nextAll h1.allbase all := by rw [hnext, hbase]; exact hl.all_chain
  obtain ⟨base, next, hu, hc', -⟩ := unlink_spec (a := pr) hc hl.length_all
  simp only [removeAll, returns_bind, returns_get, hu, returns_modify]
  exact ⟨hc', hsize, hinuse, hk, hmem, fun qr => ⟨(hsame qr).pab, (hsame qr).offset, (hsame qr).nfree⟩⟩

/-- The heap after `remove_lists`, `free_kpages` and `freepageref`. -/
def Heap.dropped (h : Heap) (pr a : Nat) : Heap :=
  { h with kpages := h.kpages.erase a, pagerefsInuse := bitClear h.pagerefsInuse pr }

theorem Heap.Lists.removed {h' : Heap} (hl : h.Lists all sized)
    (hty : h.blktype pr = t) (hr : h.Removed h' pr t all sized) :
    (h'.dropped pr a).Lists (all.erase pr) (Function.update sized t ((sized t).erase pr)) where
  all_chain := hr.all_chain
  size_chain := hr.size_chain
  mem_sized u hu qr := by
    have hblk : (h'.dropped pr a).blktype qr = h.blktype qr := blktype_congr (hr.same qr).pab
    have hm := hl.mem_sized u hu qr
    rw [hblk, hl.all_chain.nodup.mem_erase_iff]
    by_cases e : u = t
    · subst e
      rw [Function.update_self, (hl.size_chain u hu).nodup.mem_erase_iff, hm, and_assoc]
    · rw [Function.update_of_ne e, hm]
      constructor
      · rintro ⟨hqr, rfl⟩
        exact ⟨⟨fun eq => e (eq ▸ hty), hqr⟩, rfl⟩
      · rintro ⟨⟨-, hqr⟩, rfl⟩
        exact ⟨hqr, rfl⟩
  inuse qr := by
    rw [Heap.dropped, hr.inuse, bitTest_bitClear (by decide), hl.all_chain.nodup.mem_erase_iff]
    simp [hl.inuse]
  bound qr hqr := hl.bound qr (List.mem_of_mem_erase hqr)

theorem Heap.Pages.removed {h' : Heap} (hp : h.Pages live all) (hn : all.Nodup) (hpr : pr ∈ all)
    (hidle : ¬ h.Busy live pr) (hr : h.Removed h' pr t all sized) :
    (h'.dropped pr (h.pageaddr pr)).Pages live (all.erase pr) := by
  have haddr (qr : Nat) : (h'.dropped pr (h.pageaddr pr)).pageaddr qr = h.pageaddr qr :=
    pageaddr_congr (hr.same qr).pab
  have hmem (qr : Nat) : qr ∈ all.erase pr ↔ qr ≠ pr ∧ qr ∈ all := hn.mem_erase_iff
  constructor
  · intro qr hqr
    obtain ⟨free, hq⟩ := hp.page qr ((hmem qr).1 hqr).2
    exact ⟨free, hq.congr ⟨(hr.same qr).pab, (hr.same qr).offset, (hr.same qr).nfree⟩
      (fun y _ => congrFun hr.mem y) fun _ _ => Iff.rfl⟩
  · intro qr hqr rr hrr e
    rw [haddr, haddr] at e
    exact hp.inj qr ((hmem qr).1 hqr).2 rr ((hmem rr).1 hrr).2 e
  · intro b
    rw [Heap.dropped, hr.kpages, hp.nodup_kpages.mem_erase_iff, hp.mem_kpages]
    simp only [hmem]
    constructor
    · rintro ⟨hb, qr, hqr, rfl⟩
      exact ⟨qr, ⟨fun e => hb (e ▸ rfl), hqr⟩, haddr qr⟩
    · rintro ⟨qr, ⟨hq, hqr⟩, rfl⟩
      refine ⟨fun e => hq (hp.inj qr hqr pr hpr ?_), qr, hqr, (haddr qr).symm⟩
      rw [← e]
      exact (haddr qr).symm
  · rw [Heap.dropped, hr.kpages]
    exact hp.nodup_kpages.erase _
  · intro x sz hx
    obtain ⟨qr, hqr, hblock, htype⟩ := hp.live x sz hx
    refine ⟨qr, (hmem qr).2 ⟨?_, hqr⟩, (block_congr (hr.same qr).pab).2 hblock, ?_⟩
    · rintro rfl
      exact hidle ⟨x, hblock, by simp [hx]⟩
    · rw [htype]
      exact congrArg some (blktype_congr (hr.same qr).pab).symm

theorem Heap.Page.idle_iff (hp : h.Page live pr free) : free.length = pageSize / h.size pr ↔ ¬ h.Busy live pr := by
  have hmem := (forall_mem_iff_length hp.blktype hp.chain.nodup fun x hx => ((hp.mem_free x).1 hx).1).2
  rw [Heap.size, hmem]
  constructor
  · rintro hall ⟨x, hx, hlive⟩
    exact hlive ((hp.mem_free x).1 (hall x hx)).2
  · intro hidle x hx
    refine (hp.mem_free x).2 ⟨hx, ?_⟩
    by_contra hlive
    exact hidle ⟨x, hx, hlive⟩

/-- The page is given back exactly when none of its blocks is live any more. -/
structure Heap.Released (h : Heap) (live : Live) (pr : Nat) (h' : Heap) : Prop where
  ok : ∃ all sized, h'.Ok live all sized
  kept : h.Busy live pr → h'.kpages = h.kpages
  given : ¬ h.Busy live pr → h'.kpages = h.kpages.erase (h.pageaddr pr)

theorem releasePage_spec (hl : h.Lists all sized) (hp : h.Pages live all) (hpr : pr ∈ all)
    (hbusy : ∀ qr ∈ all, qr ≠ pr → h.Busy live qr) :
    Returns NoPanic (releasePage pr) h fun _ h' => h.Released live pr h' := by
  obtain ⟨free, hpage⟩ := hp.page pr hpr
  have hblk : (h.pagerefs pr).blktype = h.blktype pr := rfl
  have hsize : sizes (h.blktype pr) = h.size pr := rfl
  have haddr : (h.pagerefs pr).pageaddr = h.pageaddr pr := rfl
  simp only [releasePage, returns_bind, returns_get, returns_check,
    returns_when, hpage.nfree, hblk, hsize, haddr, if_pos hpage.length_le]
  split
  · next hfull =>
    have hidle := hpage.idle_iff.1 hfull
    refine (removeLists_spec hl hpage.blktype).mono ?_
    rintro _ h1 hr
    simp only [freeKpages, returns_modify]
    have hset : bitTest h1.pagerefsInuse pr = true := by rw [hr.inuse, hl.inuse]; exact hpr
    refine (freepageref_spec (h := { h1 with kpages := h1.kpages.erase (h.pageaddr pr) })
      (hl.bound pr hpr) hset).mono ?_
    rintro _ h2 rfl
    refine ⟨⟨_, _, hl.removed rfl hr, hp.removed hl.all_chain.nodup hpr hidle hr, fun qr hqr => ?_⟩,
      fun hb => absurd hb hidle, fun _ => by rw [hr.kpages]⟩
    obtain ⟨hq, hqr⟩ := (hl.all_chain.nodup.mem_erase_iff).1 hqr
    obtain ⟨x, hx, hlive⟩ := hbusy qr hqr hq
    exact ⟨x, (block_congr (hr.same qr).pab).2 hx, hlive⟩
  · next hnot =>
    have hb : h.Busy live pr := by
      by_contra hidle
      exact hnot (hpage.idle_iff.2 hidle)
    refine ⟨⟨all, sized, hl, hp, fun qr hqr => ?_⟩, fun _ => rfl, fun hidle => absurd hb hidle⟩
    by_cases e : qr = pr
    · exact e ▸ hb
    · exact hbusy qr hqr e

/-- What a release of the live block `x` makes of the heap: the block is live no more, and its page
goes back exactly when no other block of it is live. -/
structure Freed (h : Heap) (live : Live) (x : Nat) (h' : Heap) : Prop where
  ok : ∃ all sized, h'.Ok (Function.update live x none) all sized
  kept : (∃ y, y ≠ x ∧ live y ≠ none ∧ y - y % pageSize = x - x % pageSize) → h'.kpages = h.kpages
  given : (¬ ∃ y, y ≠ x ∧ live y ≠ none ∧ y - y % pageSize = x - x % pageSize) →
    h'.kpages = h.kpages.erase (x - x % pageSize)

theorem Heap.Pages.busy_iff (hp : h.Pages live all) (hpr : pr ∈ all) :
    h.Busy live pr ↔ ∃ y, live y ≠ none ∧ y - y % pageSize = h.pageaddr pr := by
  obtain ⟨_, hpage⟩ := hp.page pr hpr
  constructor
  · rintro ⟨y, hy, hlive⟩
    exact ⟨y, hlive, hy.page_eq hpage.isPage⟩
  · rintro ⟨y, hlive, hy⟩
    obtain ⟨sz, hsz⟩ := Option.ne_none_iff_exists'.1 hlive
    obtain ⟨qr, hqr, hblock, -⟩ := hp.live y sz hsz
    obtain ⟨_, hq⟩ := hp.page qr hqr
    have : qr = pr := hp.inj qr hqr pr hpr ((hblock.page_eq hq.isPage).symm.trans hy)
    exact ⟨y, this ▸ hblock, hlive⟩

theorem subpageKfree_spec {x sz : Nat} (hok : h.Ok live all sized) (hx : live x = some sz) :
    Returns NoPanic (subpageKfree x) h fun r h' => r = true ∧ Freed h live x h' := by
  obtain ⟨hl, hp, hbusy⟩ := hok
  obtain ⟨pr, hpr, hblock, -⟩ := hp.live x sz hx
  obtain ⟨free, hpage⟩ := hp.page pr hpr
  have hlive : live x ≠ none := by simp [hx]
  have hlen := hl.length_all
  have heach : ∀ qr ∈ all, h.blktype qr < nsizes ∧ IsPage (h.pageaddr qr) := by
    intro qr hqr
    obtain ⟨_, hq⟩ := hp.page qr hqr
    exact ⟨hq.blktype, hq.isPage⟩
  simp only [subpageKfree, returns_bind, returns_get]
  refine (searchPage_spec (x := x) hl.all_chain heach (nPagerefs + 1) (by omega)).mono ?_
  rintro (_ | qr) h' ⟨rfl, hr⟩
  · exact absurd ⟨hblock.ge, hblock.lt⟩ (hr pr hpr)
  · -- the search stops at the page of the block
    obtain ⟨hqr, hge, hlt⟩ := hr
    have : qr = pr := by
      by_contra e
      have hne : h'.pageaddr qr ≠ h'.pageaddr pr := fun ha => e (hp.inj qr hqr pr hpr ha)
      exact Block.ne_of_page (heach qr hqr).2 hpage.isPage hne hge hlt hblock rfl
    subst this
    have hblk : (h'.pagerefs qr).blktype = h'.blktype qr := rfl
    have hsize : sizes (h'.blktype qr) = h'.size qr := rfl
    have haddr : (h'.pagerefs qr).pageaddr = h'.pageaddr qr := rfl
    obtain ⟨hsub, hoff, -, -, -⟩ := hpage.offset hblock
    simp only [returns_bind, returns_check, returns_modify, returns_pure, hblk, hsize, haddr, hsub]
    rw [if_pos (by rw [not_or]; exact ⟨Nat.not_le.2 hoff, fun e => e hblock.aligned⟩)]
    have hend := hblock.end_le hpage.blktype
    have hbelow := hpage.isPage.below
    have hfill : ∀ y, y < x ∨ x + h'.size qr ≤ y → fillDeadbeef x h'.mem 0 (h'.size qr / 4) y = h'.mem y := by
      intro y hy
      rw [hsize] at hend
      exact fillDeadbeef_outside _ _ _ (by omega) (by omega)
    have hpage1 := hpage.fill hblock hlive hfill
    refine (pushFree_spec hpage1 hblock hlive).mono ?_
    rintro _ h2 ⟨hs2, hmem2, hpage2⟩
    have hs := (refStep_mem h' _ qr).trans hs2
    have hlive' (y : Nat) (hy : y ≠ x) : Function.update live x none y = live y :=
      Function.update_of_ne hy _ _
    have hpages2 : h2.Pages (Function.update live x none) all := by
      refine hp.refStep hs hpr hblock (fun y hy => ?_) hpage2 hlive' fun sz h => ?_
      · have := hblock.ge
        have := hblock.lt
        rw [hsize] at hend
        rw [hmem2 y (by omega)]
        exact hfill y (by omega)
      · rw [Function.update_self] at h
        cases h
    have hothers : ∀ rr ∈ all, rr ≠ qr → h2.Busy (Function.update live x none) rr := by
      intro rr hrr hne
      obtain ⟨y, hy, hly⟩ := hbusy rr hrr
      have hxy : x ≠ y := Block.ne_of_page hpage.isPage (heach rr hrr).2
        (fun ha => hne (hp.inj qr hpr rr hrr ha).symm) hge hlt hy
      exact ⟨y, (block_congr (hs.pab rr)).2 hy, by rwa [hlive' y hxy.symm]⟩
    refine (releasePage_spec (hl.refStep hs) hpages2 hpr hothers).mono ?_
    rintro _ h3 ⟨hok3, hkept, hgiven⟩
    have hpg : h2.pageaddr qr = x - x % pageSize :=
      (pageaddr_congr (hs.pab qr)).trans (hblock.page_eq hpage.isPage).symm
    have hiff : h2.Busy (Function.update live x none) qr ↔
        ∃ y, y ≠ x ∧ live y ≠ none ∧ y - y % pageSize = x - x % pageSize := by
      rw [hpages2.busy_iff hpr, hpg]
      constructor
      · rintro ⟨y, hy, hyp⟩
        have hyx : y ≠ x := by
          rintro rfl
          simp at hy
        exact ⟨y, hyx, hlive' y hyx ▸ hy, hyp⟩
      · rintro ⟨y, hyx, hy, hyp⟩
        exact ⟨y, (hlive' y hyx).symm ▸ hy, hyp⟩
    refine ⟨trivial, hok3, fun h => (hkept (hiff.2 h)).trans hs.kpages, fun h => ?_⟩
    rw [hgiven (fun hb => h (hiff.1 hb)), hs.kpages, hpg]

theorem kfree_spec {x sz : Nat} (hok : h.Ok live all sized) (hx : live x = some sz) :
    Returns NoPanic (kfree x) h fun _ h' => Freed h live x h' := by
  obtain ⟨pr, hpr, hblock, -⟩ := hok.pages.live x sz hx
  obtain ⟨_, hpage⟩ := hok.pages.page pr hpr
  rw [kfree, if_neg (hpage.offset hblock).2.2.1]
  simp only [returns_bind]
  refine (subpageKfree_spec hok hx).mono ?_
  rintro r h' ⟨rfl, hfreed⟩
  simpa using hfreed

end Os161.Kheap
