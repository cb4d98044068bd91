import Os161.Kheap.Pages

/-!
# The invariant of the heap

`Lists` is about the pagerefs: those on the list of all pages, those on the list of each size, and
those marked in use are the same ones. `Pages` is about the pages behind them: no two pagerefs
share one, they are the pages that `alloc_kpages` handed out, and every live block is a block of
one of them. Between calls every page also has a live block.
-/
namespace Os161.Kheap

open Lib

namespace Heap

variable {h h' h'' : Heap} {live : Live} {all : List Nat} {sized : Nat → List Nat} {pr qr t : Nat}

structure Lists (h : Heap) (all : List Nat) (sized : Nat → List Nat) : Prop where
  all_chain : Chain h.nextAll h.allbase all
  size_chain : ∀ t < nsizes, Chain h.nextSamesize (h.sizebases t) (sized t)
  mem_sized : ∀ t < nsizes, ∀ pr, pr ∈ sized t ↔ pr ∈ all ∧ h.blktype pr = t
  inuse : ∀ pr, bitTest h.pagerefsInuse pr = true ↔ pr ∈ all
  bound : ∀ pr ∈ all, pr < nPagerefs

structure Pages (h : Heap) (live : Live) (all : List Nat) : Prop where
  page : ∀ pr ∈ all, ∃ free, h.Page live pr free
  inj : ∀ pr ∈ all, ∀ qr ∈ all, h.pageaddr pr = h.pageaddr qr → pr = qr
  mem_kpages : ∀ a, a ∈ h.kpages ↔ ∃ pr ∈ all, h.pageaddr pr = a
  nodup_kpages : h.kpages.Nodup
  live : ∀ x sz, live x = some sz →
    ∃ pr ∈ all, h.Block pr x ∧ blocktype? sz = some (h.blktype pr)

def Busy (h : Heap) (live : Live) (pr : Nat) : Prop := ∃ x, h.Block pr x ∧ live x ≠ none

theorem length_le_of_bound {l : List Nat} (hn : l.Nodup) (hl : ∀ pr ∈ l, pr < nPagerefs) : l.length ≤ nPagerefs := by
  have sub : l ⊆ List.range nPagerefs := fun pr hpr => List.mem_range.2 (hl pr hpr)
  simpa using (hn.subperm sub).length_le

theorem Lists.length_all (hl : h.Lists all sized) : all.length ≤ nPagerefs :=
  length_le_of_bound hl.all_chain.nodup hl.bound

theorem Lists.length_sized (hl : h.Lists all sized) (ht : t < nsizes) : (sized t).length ≤ nPagerefs :=
  length_le_of_bound (hl.size_chain t ht).nodup
    fun pr hpr => hl.bound pr ((hl.mem_sized t ht pr).1 hpr).1

/-! ## Changes to one pageref -/

/-- Only the free list of one page, and perhaps memory, changed. -/
structure RefStep (h h' : Heap) (pr : Nat) : Prop where
  nextAll : h'.nextAll = h.nextAll
  nextSamesize : h'.nextSamesize = h.nextSamesize
  sizebases : h'.sizebases = h.sizebases
  allbase : h'.allbase = h.allbase
  inuse : h'.pagerefsInuse = h.pagerefsInuse
  kpages : h'.kpages = h.kpages
  pab : ∀ qr, (h'.pagerefs qr).pageaddrAndBlocktype = (h.pagerefs qr).pageaddrAndBlocktype
  other : ∀ qr, qr ≠ pr → SamePage h h' qr

theorem RefStep.trans (a : RefStep h h' pr) (b : RefStep h' h'' pr) : RefStep h h'' pr where
  nextAll := b.nextAll.trans a.nextAll
  nextSamesize := b.nextSamesize.trans a.nextSamesize
  sizebases := b.sizebases.trans a.sizebases
  allbase := b.allbase.trans a.allbase
  inuse := b.inuse.trans a.inuse
  kpages := b.kpages.trans a.kpages
  pab qr := (b.pab qr).trans (a.pab qr)
  other qr hq :=
    ⟨(b.pab qr).trans (a.pab qr), (b.other qr hq).offset.trans (a.other qr hq).offset,
      (b.other qr hq).nfree.trans (a.other qr hq).nfree⟩

/-- A pageref with another free list. -/
def setFree (h : Heap) (pr offset nfree : Nat) : Heap :=
  h.modifyRef pr fun p => { p with freelistOffset := offset, nfree := nfree }

@[simp] theorem pagerefs_modifyRef (f : Pageref → Pageref) :
    (h.modifyRef pr f).pagerefs pr = f (h.pagerefs pr) := Function.update_self _ _ _

theorem pagerefs_modifyRef_ne (f : Pageref → Pageref) (hq : qr ≠ pr) :
    (h.modifyRef pr f).pagerefs qr = h.pagerefs qr := Function.update_of_ne hq _ _

@[simp] theorem modifyRef_modifyRef (f g : Pageref → Pageref) :
    (h.modifyRef pr f).modifyRef pr g = h.modifyRef pr fun p => g (f p) := by
  simp [modifyRef]

@[simp] theorem setFree_mem (offset nfree : Nat) : (h.setFree pr offset nfree).mem = h.mem := rfl

theorem refStep_setFree (h : Heap) (pr offset nfree : Nat) :
    RefStep h (h.setFree pr offset nfree) pr where
  nextAll := by
    funext qr
    by_cases e : qr = pr
    · subst e
      simp [Heap.nextAll, setFree]
    · simp [Heap.nextAll, setFree, pagerefs_modifyRef_ne _ e]
  nextSamesize := by
    funext qr
    by_cases e : qr = pr
    · subst e
      simp [Heap.nextSamesize, setFree]
    · simp [Heap.nextSamesize, setFree, pagerefs_modifyRef_ne _ e]
  sizebases := rfl
  allbase := rfl
  inuse := rfl
  kpages := rfl
  pab qr := by
    by_cases e : qr = pr
    · subst e
      simp [setFree]
    · simp [setFree, pagerefs_modifyRef_ne _ e]
  other qr hq := by constructor <;> simp [setFree, pagerefs_modifyRef_ne _ hq]

theorem refStep_mem (h : Heap) (mem : Nat → Nat) (pr : Nat) : RefStep h { h with mem := mem } pr :=
  ⟨rfl, rfl, rfl, rfl, rfl, rfl, fun _ => rfl, fun _ _ => ⟨rfl, rfl, rfl⟩⟩

theorem Lists.refStep (hl : h.Lists all sized) (hs : RefStep h h' pr) : h'.Lists all sized where
  all_chain := by rw [hs.nextAll, hs.allbase]; exact hl.all_chain
  size_chain := by rw [hs.nextSamesize, hs.sizebases]; exact hl.size_chain
  mem_sized t ht qr := by rw [blktype_congr (hs.pab qr)]; exact hl.mem_sized t ht qr
  inuse := by rw [hs.inuse]; exact hl.inuse
  bound := hl.bound

/-- The block `x` of the page `pr` changed between live and free; the words of the other pages'
free blocks are untouched. -/
theorem Pages.refStep {live' : Live} {free : List Nat} {x : Nat} (hp : h.Pages live all)
    (hs : RefStep h h' pr) (hpr : pr ∈ all) (hx : h.Block pr x)
    (hmem : ∀ y, y < h.pageaddr pr ∨ h.pageaddr pr + pageSize ≤ y → h'.mem y = h.mem y)
    (hpage : h'.Page live' pr free) (hlive : ∀ y, y ≠ x → live' y = live y)
    (hx' : ∀ sz, live' x = some sz → blocktype? sz = some (h.blktype pr)) :
    h'.Pages live' all where
  page qr hqr := by
    by_cases e : qr = pr
    · exact ⟨free, e ▸ hpage⟩
    · obtain ⟨free', hq⟩ := hp.page qr hqr
      obtain ⟨_, hpp⟩ := hp.page pr hpr
      have hne : h.pageaddr pr ≠ h.pageaddr qr := fun ha => e (hp.inj pr hpr qr hqr ha).symm
      refine ⟨free', hq.congr (hs.other qr e) (fun y hy => hmem y ?_) fun y hy => ?_⟩
      · have hin := ((hq.mem_free y).1 hy).1
        by_contra hout
        exact Block.ne_of_page hpp.isPage hq.isPage hne (x := y) (by omega) (by omega) hin rfl
      · have : x ≠ y := Block.ne_of_page hpp.isPage hq.isPage hne hx.ge hx.lt hy
        rw [hlive y this.symm]
  inj qr hqr rr hrr := by
    rw [pageaddr_congr (hs.pab qr), pageaddr_congr (hs.pab rr)]
    exact hp.inj qr hqr rr hrr
  mem_kpages a := by
    simp only [hs.kpages, pageaddr_congr (hs.pab _)]
    exact hp.mem_kpages a
  nodup_kpages := hs.kpages ▸ hp.nodup_kpages
  live y sz hy := by
    simp only [block_congr (hs.pab _), blktype_congr (hs.pab _)]
    by_cases e : y = x
    · subst e
      exact ⟨pr, hpr, hx, hx' sz hy⟩
    · exact hp.live y sz (hlive y e ▸ hy)

end Heap

end Os161.Kheap
