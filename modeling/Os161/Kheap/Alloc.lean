import Os161.Lib.Chain
import Os161.Lib.Prog
import Os161.Lib.Words

/-!
# The kernel heap

`kern/lib/kheap.c`: a page holds blocks of one size. Its free blocks are linked through
their first words, and its `struct pageref` keeps the offset of the first one and their number.
All pagerefs live in one static array with a bit array of those in use; they are linked into the
list of all pages and into one list for each block size.

Addresses are natural numbers below `2 ^ 32`, with `add32` and `sub32` for the arithmetic on
`vaddr_t`; `mem` is kernel memory by word address. A pointer to a pageref is its index. Loops over
linked lists carry a bound, and a list that does not end within it is the stop `endless`. The
argument `page` of an allocation is what `alloc_kpages` returns if it is called; `kpages` are the
addresses that `alloc_kpages` returned and `free_kpages` has not got back.
-/
namespace Os161.Kheap

open Lib

def add32 (a b : Nat) : Nat := (a + b) % 2 ^ 32
def sub32 (a b : Nat) : Nat := if b ≤ a then a - b else 2 ^ 32 - (b - a)

def u16 (n : Nat) : Nat := n % 2 ^ 16
def dec16 (n : Nat) : Nat := if n = 0 then 2 ^ 16 - 1 else n - 1

def pageSize : Nat := 4096
def pageFrame : Word := 0xfffff000

def nsizes : Nat := 8
def sizes (blktype : Nat) : Nat := [16, 32, 64, 128, 256, 512, 1024, 2048].getD blktype 0
def largestSubpageSize : Nat := 2048

def invalidOffset : Nat := 0xffff

structure Pageref where
  nextSamesize : Option Nat
  nextAll : Option Nat
  pageaddrAndBlocktype : Word
  freelistOffset : Nat
  nfree : Nat

def Pageref.pageaddr (pr : Pageref) : Nat := (pr.pageaddrAndBlocktype &&& pageFrame).toNat
def Pageref.blktype (pr : Pageref) : Nat := (pr.pageaddrAndBlocktype &&& ~~~ pageFrame).toNat

def mkpab (pa blk : Nat) : Word :=
  (BitVec.ofNat 32 pa &&& pageFrame) ||| (BitVec.ofNat 32 blk &&& ~~~ pageFrame)

def nPagerefs : Nat := 256
def inuseWords : Nat := nPagerefs / 32

structure Heap where
  pagerefs : Nat → Pageref
  pagerefsInuse : Nat → Word
  sizebases : Nat → Option Nat
  allbase : Option Nat
  mem : Nat → Nat
  kpages : List Nat

/-- The assertions and panics of `kheap.c`. -/
inductive KheapPanic where
  | allocpageref | freepagerefRange | freepagerefFree | removeLists | blocktype
  | samesizeType | freelistOffset | nfreeNonzero | nextOffPage | nfreeZero
  | selfLink | builtOffset | allType | invalidAddr | nfreeBound | unaligned
  | endless
  deriving DecidableEq, Repr

abbrev KheapM := Prog KheapPanic Empty Heap

/-! ## Pagerefs -/

def Heap.modifyRef (h : Heap) (pr : Nat) (f : Pageref → Pageref) : Heap :=
  { h with pagerefs := Function.update h.pagerefs pr (f (h.pagerefs pr)) }

def modifyRef (pr : Nat) (f : Pageref → Pageref) : KheapM Unit := Prog.modify (·.modifyRef pr f)

def allocpageref : KheapM (Option Nat) := do
  let h ← Prog.get
  match scanWords h.pagerefsInuse 0 inuseWords with
  | .full => pure none
  | .stuck => Prog.stop .allocpageref
  | .found i j =>
    Prog.modify fun h => { h with pagerefsInuse := bitSet h.pagerefsInuse (i * 32 + j) }
    pure (some (i * 32 + j))

def freepageref (p : Nat) : KheapM Unit := do
  Prog.check (p < nPagerefs) .freepagerefRange
  let h ← Prog.get
  Prog.check (bitTest h.pagerefsInuse p) .freepagerefFree
  Prog.modify fun h => { h with pagerefsInuse := bitClear h.pagerefsInuse p }

def Heap.nextSamesize (h : Heap) (pr : Nat) : Option Nat := (h.pagerefs pr).nextSamesize
def Heap.nextAll (h : Heap) (pr : Nat) : Option Nat := (h.pagerefs pr).nextAll

def removeSamesize (pr blktype : Nat) : KheapM Unit := do
  let h ← Prog.get
  match unlink h.nextSamesize pr nPagerefs (h.sizebases blktype) with
  | none => Prog.stop .endless
  | some (base, next) => Prog.modify fun h =>
    { h with
      sizebases := Function.update h.sizebases blktype base
      pagerefs := fun i => { h.pagerefs i with nextSamesize := next i } }

def removeAll (pr : Nat) : KheapM Unit := do
  let h ← Prog.get
  match unlink h.nextAll pr nPagerefs h.allbase with
  | none => Prog.stop .endless
  | some (base, next) => Prog.modify fun h =>
    { h with
      allbase := base
      pagerefs := fun i => { h.pagerefs i with nextAll := next i } }

def removeLists (pr blktype : Nat) : KheapM Unit := do
  Prog.check (blktype < nsizes) .removeLists
  removeSamesize pr blktype
  removeAll pr

/-! ## Allocation -/

/-- The smallest block type that a size fits in. -/
def blocktype? (sz : Nat) : Option Nat := (List.range nsizes).find? fun i => sz ≤ sizes i

def blocktype (sz : Nat) : KheapM Nat :=
  match blocktype? sz with
  | some i => pure i
  | none => Prog.stop .blocktype

def allocKpages (page : Nat) : KheapM Nat := do
  Prog.when (page ≠ 0) (Prog.modify fun h => { h with kpages := page :: h.kpages })
  pure page

def freeKpages (addr : Nat) : KheapM Unit :=
  Prog.modify fun h => { h with kpages := h.kpages.erase addr }

def Heap.store (h : Heap) (addr value : Nat) : Heap :=
  { h with mem := Function.update h.mem addr value }

def store (addr value : Nat) : KheapM Unit := Prog.modify (·.store addr value)

/-- From `doalloc`: take the first free block of a page. -/
def doalloc (pr : Nat) : KheapM Nat := do
  let h ← Prog.get
  let prpage := (h.pagerefs pr).pageaddr
  Prog.check ((h.pagerefs pr).freelistOffset < pageSize) .freelistOffset
  let fla := add32 prpage (h.pagerefs pr).freelistOffset
  let fl := h.mem fla
  let nfree := dec16 (h.pagerefs pr).nfree
  modifyRef pr fun p => { p with nfree := nfree }
  if fl ≠ 0 then
    Prog.check (0 < nfree) .nfreeNonzero
    Prog.check (sub32 fl prpage < pageSize) .nextOffPage
    modifyRef pr fun p => { p with freelistOffset := u16 (sub32 fl prpage) }
  else
    Prog.check (nfree = 0) .nfreeZero
    modifyRef pr fun p => { p with freelistOffset := invalidOffset }
  pure fla

/-- The search loop: the first page of a size that has a free block. -/
def searchSize (blktype : Nat) : Nat → Option Nat → KheapM (Option Nat)
  | 0, _ => Prog.stop .endless
  | _ + 1, none => pure none
  | n + 1, some pr => do
    let h ← Prog.get
    Prog.check ((h.pagerefs pr).blktype = blktype) .samesizeType
    if 0 < (h.pagerefs pr).nfree then pure (some pr)
    else searchSize blktype n (h.nextSamesize pr)

/-- Link the blocks `i, i + 1, …` of a page to their predecessors; the result is the last one. -/
def linkBlocks (fla size : Nat) : Nat → Nat → Nat → KheapM Nat
  | 0, _, fl => pure fl
  | n + 1, i, _ => do
    store (add32 fla (i * size)) (add32 fla ((i - 1) * size))
    Prog.check (add32 fla (i * size) ≠ add32 fla ((i - 1) * size)) .selfLink
    linkBlocks fla size n (i + 1) (add32 fla (i * size))

/-- Put a pageref in front of the list of its size and of the list of all pages. -/
def Heap.enter (h : Heap) (pr blktype : Nat) : Heap :=
  { h.modifyRef pr fun p => { p with nextSamesize := h.sizebases blktype, nextAll := h.allbase } with
    sizebases := Function.update h.sizebases blktype (some pr)
    allbase := some pr }

/-- Set up a fresh page and enter it into the lists. -/
def setupPage (pr prpage blktype : Nat) : KheapM Unit := do
  let nfree := pageSize / sizes blktype
  modifyRef pr fun p => { p with pageaddrAndBlocktype := mkpab prpage blktype, nfree := u16 nfree }
  store prpage 0
  let fl ← linkBlocks prpage (sizes blktype) (nfree - 1) 1 prpage
  modifyRef pr fun p => { p with freelistOffset := u16 (sub32 fl prpage) }
  Prog.check (u16 (sub32 fl prpage) = (nfree - 1) * sizes blktype) .builtOffset
  Prog.modify (·.enter pr blktype)

/-- The second half of `subpage_kmalloc`, when no page of the size has a free block. The
result is 0 when there is no pageref or no page. -/
def newPage (page blktype : Nat) : KheapM Nat := do
  let pr? ← allocpageref
  match pr? with
  | none => pure 0
  | some pr =>
    let prpage ← allocKpages page
    if prpage = 0 then
      freepageref pr
      pure 0
    else
      setupPage pr prpage blktype
      doalloc pr

def subpageKmalloc (page sz : Nat) : KheapM Nat := do
  let blktype ← blocktype sz
  let h ← Prog.get
  let pr? ← searchSize blktype (nPagerefs + 1) (h.sizebases blktype)
  match pr? with
  | some pr => doalloc pr
  | none => newPage page blktype

def kmalloc (page sz : Nat) : KheapM Nat :=
  if largestSubpageSize ≤ sz then allocKpages page else subpageKmalloc page sz

/-! ## Release -/

/-- The word stores of `fill_deadbeef`, from word `i` on. -/
def fillDeadbeef (ptr : Nat) (mem : Nat → Nat) (i : Nat) : Nat → Nat → Nat
  | 0 => mem
  | n + 1 => fillDeadbeef ptr (Function.update mem (add32 ptr (4 * i)) 0xdeadbeef) (i + 1) n

/-- The search loop: the page that an address lies on. -/
def searchPage (ptraddr : Nat) : Nat → Option Nat → KheapM (Option Nat)
  | 0, _ => Prog.stop .endless
  | _ + 1, none => pure none
  | n + 1, some pr => do
    let h ← Prog.get
    let prpage := (h.pagerefs pr).pageaddr
    Prog.check ((h.pagerefs pr).blktype < nsizes) .allType
    if prpage ≤ ptraddr ∧ ptraddr < add32 prpage pageSize then pure (some pr)
    else searchPage ptraddr n (h.nextAll pr)

/-- Put a block of a page on its free list. -/
def pushFree (pr ptr : Nat) : KheapM Unit := do
  let h ← Prog.get
  let prpage := (h.pagerefs pr).pageaddr
  let offset := sub32 ptr prpage
  let fla := add32 prpage offset
  if (h.pagerefs pr).freelistOffset = invalidOffset then store fla 0
  else store fla (add32 prpage (h.pagerefs pr).freelistOffset)
  modifyRef pr fun p =>
    { p with freelistOffset := u16 offset, nfree := u16 (p.nfree + 1) }

/-- Give a page back when all its blocks are free. -/
def releasePage (pr : Nat) : KheapM Unit := do
  let h ← Prog.get
  let blktype := (h.pagerefs pr).blktype
  Prog.check ((h.pagerefs pr).nfree ≤ pageSize / sizes blktype) .nfreeBound
  Prog.when ((h.pagerefs pr).nfree = pageSize / sizes blktype) do
    removeLists pr blktype
    freeKpages (h.pagerefs pr).pageaddr
    freepageref pr

/-- Whether the address is one of ours; if so, the block is freed. -/
def subpageKfree (ptr : Nat) : KheapM Bool := do
  let h ← Prog.get
  let pr? ← searchPage ptr (nPagerefs + 1) h.allbase
  match pr? with
  | none => pure false
  | some pr =>
    let offset := sub32 ptr (h.pagerefs pr).pageaddr
    let size := sizes (h.pagerefs pr).blktype
    Prog.check (¬ (pageSize ≤ offset ∨ offset % size ≠ 0)) .invalidAddr
    Prog.modify fun h => { h with mem := fillDeadbeef ptr h.mem 0 (size / 4) }
    pushFree pr ptr
    releasePage pr
    pure true

def kfree (ptr : Nat) : KheapM Unit :=
  if ptr = 0 then pure ()
  else do
    let ours ← subpageKfree ptr
    Prog.when (ours = false) do
      Prog.check (ptr % pageSize = 0) .unaligned
      freeKpages ptr

def Heap.boot (mem : Nat → Nat) : Heap where
  pagerefs := fun _ => ⟨none, none, 0, 0, 0⟩
  pagerefsInuse := fun _ => 0
  sizebases := fun _ => none
  allbase := none
  mem := mem
  kpages := []

end Os161.Kheap
