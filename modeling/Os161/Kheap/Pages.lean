import Os161.Kheap.Alloc
import Mathlib.Data.List.Perm.Subperm

/-!
# Pages and their blocks

What one page of the heap looks like between calls: its free list visits exactly those of its
blocks that are not live, and `nfree` counts them. `Live` maps the address of a live block to the
size that was asked for.
-/
namespace Os161.Kheap

open Lib

abbrev Live := Nat → Option Nat

/-! ## Blocks -/

/-- A page of kernel memory. `alloc_kpages` returns addresses of `kseg0`, whose pages all end
below the end of the address space. -/
structure IsPage (a : Nat) : Prop where
  aligned : a % pageSize = 0
  pos : 0 < a
  below : a + pageSize < 2 ^ 32

/-- The address `x` is that of a block of the page at `a`. -/
structure IsBlock (a size x : Nat) : Prop where
  ge : a ≤ x
  lt : x < a + pageSize
  aligned : (x - a) % size = 0

variable {a b s t x y : Nat}

theorem sizes_cases (ht : t < nsizes) : sizes t = 16 ∨ sizes t = 32 ∨ sizes t = 64 ∨
    sizes t = 128 ∨ sizes t = 256 ∨ sizes t = 512 ∨ sizes t = 1024 ∨ sizes t = 2048 := by
  have all : ∀ t < nsizes, sizes t = 16 ∨ sizes t = 32 ∨ sizes t = 64 ∨ sizes t = 128 ∨
      sizes t = 256 ∨ sizes t = 512 ∨ sizes t = 1024 ∨ sizes t = 2048 := by decide
  exact all t ht

theorem IsBlock.end_le (ht : t < nsizes) (hx : IsBlock a (sizes t) x) : x + sizes t ≤ a + pageSize := by
  obtain ⟨h1, h2, h3⟩ := hx
  unfold pageSize at *
  rcases sizes_cases ht with h | h | h | h | h | h | h | h <;> rw [h] at h3 ⊢ <;> omega

theorem IsBlock.separate (ht : t < nsizes) (hx : IsBlock a (sizes t) x)
    (hy : IsBlock a (sizes t) y) (h : x < y) : x + sizes t ≤ y := by
  obtain ⟨h1, -, h3⟩ := hx
  obtain ⟨h4, -, h6⟩ := hy
  rcases sizes_cases ht with e | e | e | e | e | e | e | e <;> rw [e] at h3 h6 ⊢ <;> omega

theorem IsBlock.page_eq {r : Nat} (ha : IsPage a) (hx : IsBlock a r x) : x - x % pageSize = a := by
  obtain ⟨h1, -, -⟩ := ha
  obtain ⟨h4, h5, -⟩ := hx
  unfold pageSize at *
  omega

/-- The addresses of the first `n` blocks of a page, the last one first. -/
def blocksDown (a size : Nat) : Nat → List Nat
  | 0 => []
  | n + 1 => (a + n * size) :: blocksDown a size n

def blocks (a size : Nat) : List Nat := blocksDown a size (pageSize / size)

theorem mem_blocksDown (n : Nat) : x ∈ blocksDown a s n ↔ ∃ k < n, x = a + k * s := by
  induction n with
  | zero => simp [blocksDown]
  | succ n ih =>
    rw [blocksDown, List.mem_cons, ih]
    constructor
    · rintro (rfl | ⟨k, hk, rfl⟩)
      · exact ⟨n, by omega, rfl⟩
      · exact ⟨k, by omega, rfl⟩
    · rintro ⟨k, hk, rfl⟩
      obtain rfl | hk := Nat.eq_or_lt_of_le (Nat.le_of_lt_succ hk)
      · exact .inl rfl
      · exact .inr ⟨k, hk, rfl⟩

theorem mem_blocks (ht : t < nsizes) : x ∈ blocks a (sizes t) ↔ IsBlock a (sizes t) x := by
  rw [blocks, mem_blocksDown]
  constructor
  · rintro ⟨k, hk, rfl⟩
    unfold pageSize at hk
    constructor
    · omega
    · unfold pageSize
      rcases sizes_cases ht with e | e | e | e | e | e | e | e <;> rw [e] at hk ⊢ <;> omega
    · rw [Nat.add_sub_cancel_left, Nat.mul_mod_left]
  · rintro ⟨h1, h2, h3⟩
    refine ⟨(x - a) / sizes t, ?_, ?_⟩
    · unfold pageSize at *
      rcases sizes_cases ht with e | e | e | e | e | e | e | e <;> rw [e] at h3 ⊢ <;> omega
    · rw [Nat.div_mul_cancel (Nat.dvd_of_mod_eq_zero h3)]
      omega

@[simp] theorem length_blocksDown (a s n : Nat) : (blocksDown a s n).length = n := by
  induction n with
  | zero => rfl
  | succ n ih => rw [blocksDown, List.length_cons, ih]

theorem nodup_blocksDown (hs : 0 < s) (n : Nat) : (blocksDown a s n).Nodup := by
  induction n with
  | zero => exact List.nodup_nil
  | succ n ih =>
    refine List.nodup_cons.2 ⟨fun h => ?_, ih⟩
    obtain ⟨k, hk, h⟩ := (mem_blocksDown n).1 h
    have := Nat.mul_lt_mul_of_pos_right hk hs
    omega

theorem sizes_pos (ht : t < nsizes) : 0 < sizes t := by
  rcases sizes_cases ht with e | e | e | e | e | e | e | e <;> omega

theorem length_blocks (a s : Nat) : (blocks a s).length = pageSize / s := length_blocksDown _ _ _

/-- A list of blocks of a page without repetitions holds all of them when it is as long. -/
theorem forall_mem_iff_length {free : List Nat} (ht : t < nsizes) (hn : free.Nodup)
    (hf : ∀ x ∈ free, IsBlock a (sizes t) x) : free.length ≤ pageSize / sizes t ∧
      (free.length = pageSize / sizes t ↔ ∀ x, IsBlock a (sizes t) x → x ∈ free) := by
  have sub : free ⊆ blocks a (sizes t) := fun x hx => (mem_blocks ht).2 (hf x hx)
  have hsub := hn.subperm sub
  refine ⟨length_blocks a (sizes t) ▸ hsub.length_le, fun h x hx => ?_, fun h => ?_⟩
  · have hperm := hsub.perm_of_length_le (by rw [length_blocks, h])
    exact hperm.mem_iff.2 ((mem_blocks ht).2 hx)
  · have sub' : blocks a (sizes t) ⊆ free := fun x hx => h x ((mem_blocks ht).1 hx)
    have hsub' : (blocks a (sizes t)).Subperm free :=
      (nodup_blocksDown (sizes_pos ht) _).subperm sub'
    have hle := hsub.length_le
    have hge := hsub'.length_le
    rw [length_blocks] at hle hge
    omega

/-! ## The page address and the block type in one word -/

theorem and_or_and_not (v w f : Word) : (v &&& f ||| w &&& ~~~ f) &&& f = v &&& f := by
  apply BitVec.eq_of_getLsbD_eq
  intro i hi
  simp only [BitVec.getLsbD_and, BitVec.getLsbD_or, BitVec.getLsbD_not, hi, decide_true]
  cases f.getLsbD i <;> simp

theorem and_or_and_not' (v w f : Word) : (v &&& f ||| w &&& ~~~ f) &&& ~~~ f = w &&& ~~~ f := by
  simpa [BitVec.or_comm] using and_or_and_not w v (~~~ f)

theorem toNat_and_not_pageFrame (v : Word) : (v &&& ~~~ pageFrame).toNat = v.toNat % pageSize := by
  have hmask : (~~~ pageFrame).toNat = 2 ^ 12 - 1 := by decide
  rw [BitVec.toNat_and, hmask, Nat.and_two_pow_sub_one_eq_mod]
  rfl

theorem toNat_and_pageFrame (v : Word) (h : v.toNat % pageSize = 0) : (v &&& pageFrame).toNat = v.toNat := by
  have low : v &&& ~~~ pageFrame = 0#32 :=
    BitVec.eq_of_toNat_eq (by rw [toNat_and_not_pageFrame, h, BitVec.toNat_ofNat])
  congr 1
  apply BitVec.eq_of_getLsbD_eq
  intro i hi
  have bit := congrArg (·.getLsbD i) low
  simp only [BitVec.getLsbD_and, BitVec.getLsbD_not, hi, decide_true, Bool.true_and, BitVec.getLsbD_zero] at bit ⊢
  grind

theorem pageaddr_mkpab {pr : Pageref} (ha : IsPage a) (hp : pr.pageaddrAndBlocktype = mkpab a t) : pr.pageaddr = a := by
  have hlt : a % 2 ^ 32 = a := Nat.mod_eq_of_lt (by have := ha.below; omega)
  rw [Pageref.pageaddr, hp, mkpab, and_or_and_not, toNat_and_pageFrame] <;>
    rw [BitVec.toNat_ofNat, hlt]
  exact ha.aligned

theorem blktype_mkpab {pr : Pageref} (ht : t < nsizes) (hp : pr.pageaddrAndBlocktype = mkpab a t) : pr.blktype = t := by
  rw [Pageref.blktype, hp, mkpab, and_or_and_not', toNat_and_not_pageFrame, BitVec.toNat_ofNat]
  unfold nsizes at ht
  unfold pageSize
  omega

/-! ## A page -/

namespace Heap

variable (h : Heap)

def pageaddr (pr : Nat) : Nat := (h.pagerefs pr).pageaddr
def blktype (pr : Nat) : Nat := (h.pagerefs pr).blktype
def size (pr : Nat) : Nat := sizes (h.blktype pr)

def nextFree (x : Nat) : Option Nat := if h.mem x = 0 then none else some (h.mem x)

def firstFree (pr : Nat) : Option Nat :=
  if (h.pagerefs pr).freelistOffset = invalidOffset then none
  else some (h.pageaddr pr + (h.pagerefs pr).freelistOffset)

def Block (pr x : Nat) : Prop := IsBlock (h.pageaddr pr) (h.size pr) x

/-- The page of a pageref, with the addresses on its free list. -/
structure Page (live : Live) (pr : Nat) (free : List Nat) : Prop where
  isPage : IsPage (h.pageaddr pr)
  blktype : h.blktype pr < nsizes
  chain : Chain h.nextFree (h.firstFree pr) free
  mem_free : ∀ x, x ∈ free ↔ h.Block pr x ∧ live x = none
  nfree : (h.pagerefs pr).nfree = free.length

variable {h} {h' : Heap} {live live' : Live} {pr qr : Nat} {free : List Nat}

/-- The fields of a pageref that describe its page. -/
structure SamePage (h h' : Heap) (pr : Nat) : Prop where
  pab : (h'.pagerefs pr).pageaddrAndBlocktype = (h.pagerefs pr).pageaddrAndBlocktype
  offset : (h'.pagerefs pr).freelistOffset = (h.pagerefs pr).freelistOffset
  nfree : (h'.pagerefs pr).nfree = (h.pagerefs pr).nfree

section

variable (e : (h'.pagerefs pr).pageaddrAndBlocktype = (h.pagerefs pr).pageaddrAndBlocktype)
include e

theorem pageaddr_congr : h'.pageaddr pr = h.pageaddr pr := by
  rw [pageaddr, pageaddr, Pageref.pageaddr, e, ← Pageref.pageaddr]

theorem blktype_congr : h'.blktype pr = h.blktype pr := by
  rw [Heap.blktype, Heap.blktype, Pageref.blktype, e, ← Pageref.blktype]

theorem block_congr {x : Nat} : h'.Block pr x ↔ h.Block pr x := by
  rw [Block, Block, size, size, pageaddr_congr e, blktype_congr e]

end

/-- A page depends on its pageref, on the links in its free blocks and on which of its blocks
are live. -/
theorem Page.congr (hp : h.Page live pr free) (same : SamePage h h' pr)
    (hmem : ∀ x ∈ free, h'.mem x = h.mem x)
    (hlive : ∀ x, h.Block pr x → (live' x = none ↔ live x = none)) : h'.Page live' pr free where
  isPage := pageaddr_congr same.pab ▸ hp.isPage
  blktype := blktype_congr same.pab ▸ hp.blktype
  chain := by
    have first : h'.firstFree pr = h.firstFree pr := by
      rw [firstFree, firstFree, pageaddr_congr same.pab, same.offset]
    rw [first]
    exact hp.chain.congr fun x hx => by rw [nextFree, nextFree, hmem x hx]
  mem_free x := by
    rw [hp.mem_free, block_congr same.pab]
    exact and_congr_right fun hx => (hlive x hx).symm
  nfree := same.nfree.trans hp.nfree

/-- Pages at different addresses share no word. -/
theorem Block.ne_of_page (hp : IsPage (h.pageaddr pr)) (hq : IsPage (h.pageaddr qr))
    (hne : h.pageaddr pr ≠ h.pageaddr qr) {x : Nat} (hx : h.pageaddr pr ≤ x)
    (hx' : x < h.pageaddr pr + pageSize) {y : Nat} (hy : h.Block qr y) : x ≠ y := by
  obtain ⟨h1, -, -⟩ := hp
  obtain ⟨h2, -, -⟩ := hq
  obtain ⟨h3, h4, -⟩ := hy
  unfold pageSize at *
  omega

end Heap

end Os161.Kheap
