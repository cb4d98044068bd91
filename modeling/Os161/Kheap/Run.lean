import Os161.Kheap.Free
import Os161.Lib.Run

/-!
# Runs of the kernel heap

Clients of the heap allocate, free what they hold, and write to it. The run keeps what the clients
hold in `live`. A write may go to any word of a live block, whether or not it was asked for.
-/
namespace Os161.Kheap

open Lib Heap

structure HeapSys where
  heap : Heap
  live : Live

inductive HeapEvent where
  | kmalloc (sz page result : Nat)
  | kfree (ptr : Nat)
  | write (ptr word : Nat) (value : Word)

def blockSize (sz : Nat) : Nat := sizes ((blocktype? sz).getD 0)

inductive HeapStep : HeapSys → HeapEvent → HeapSys → Prop
  | kmalloc {σ : HeapSys} {h' : Heap} {sz page r : Nat} (hsz : sz < largestSubpageSize)
      (hpage : PageReply σ.heap page) (hcall : kmalloc page sz σ.heap = .ok (.ok r, h')) :
      HeapStep σ (.kmalloc sz page r)
        ⟨h', if r = 0 then σ.live else Function.update σ.live r (some sz)⟩
  | kfree {σ : HeapSys} {h' : Heap} {x : Nat} (hx : σ.live x ≠ none)
      (hcall : kfree x σ.heap = .ok (.ok (), h')) :
      HeapStep σ (.kfree x) ⟨h', Function.update σ.live x none⟩
  | write {σ : HeapSys} {x sz i : Nat} {v : Word} (hx : σ.live x = some sz)
      (hi : i < blockSize sz / 4) :
      HeapStep σ (.write x i v) ⟨σ.heap.store (x + 4 * i) v.toNat, σ.live⟩

def HeapSys.boot (mem : Nat → Nat) : HeapSys := ⟨Heap.boot mem, fun _ => none⟩

/-- The invariant of the heap, and what it means for the clients. -/
structure Integrity (σ : HeapSys) : Prop where
  ok : ∃ all sized, σ.heap.Ok σ.live all sized
  fits : ∀ x sz, σ.live x = some sz → sz ≤ blockSize sz ∧ x % blockSize sz = 0 ∧
    x % pageSize + blockSize sz ≤ pageSize ∧ x - x % pageSize ∈ σ.heap.kpages
  disjoint : ∀ x y sz sz', σ.live x = some sz → σ.live y = some sz' → x ≠ y →
    x + blockSize sz ≤ y ∨ y + blockSize sz' ≤ x
  held : ∀ a, a ∈ σ.heap.kpages ↔ ∃ x, σ.live x ≠ none ∧ x - x % pageSize = a

variable {σ τ : HeapSys} {h : Heap} {live : Live} {all : List Nat} {sized : Nat → List Nat}

theorem ok_boot (mem : Nat → Nat) : (Heap.boot mem).Ok (fun _ => none) [] (fun _ => []) where
  lists := by
    refine ⟨rfl, fun _ _ => rfl, fun t _ pr => by simp, fun pr => ?_, fun pr h => by cases h⟩
    simp [Heap.boot, bitTest]
  pages := by
    refine ⟨fun pr h => (by cases h), fun pr h => (by cases h), fun a => ?_, List.nodup_nil, fun x sz h => by cases h⟩
    simp [Heap.boot]
  busy := fun pr h => by cases h

theorem Heap.Pages.block (hp : h.Pages live all) {x sz : Nat} (hx : live x = some sz) :
    ∃ pr ∈ all, IsPage (h.pageaddr pr) ∧ h.blktype pr < nsizes ∧ h.blktype pr = (blocktype? sz).getD 0 ∧
      sz ≤ blockSize sz ∧ IsBlock (h.pageaddr pr) (blockSize sz) x := by
  obtain ⟨pr, hpr, hblock, hty⟩ := hp.live x sz hx
  obtain ⟨_, hpage⟩ := hp.page pr hpr
  have hsize : blockSize sz = h.size pr := by rw [blockSize, hty, Option.getD_some, Heap.size]
  refine ⟨pr, hpr, hpage.isPage, hpage.blktype, by rw [hty, Option.getD_some], ?_, hsize ▸ hblock⟩
  rw [hsize, Heap.size]
  simpa using List.find?_some hty

theorem Heap.Ok.integrity (hok : h.Ok live all sized) : Integrity ⟨h, live⟩ where
  ok := ⟨all, sized, hok⟩
  fits x sz hx := by
    obtain ⟨pr, hpr, hpage, hlt, hty, hle, hblock⟩ := hok.pages.block hx
    have hpg := hblock.page_eq hpage
    have hend := hblock.end_le (hty ▸ hlt)
    obtain ⟨hal, -, -⟩ := hpage
    obtain ⟨hge, hltp, hmod⟩ := hblock
    refine ⟨hle, ?_, ?_, ?_⟩
    · rw [blockSize] at hmod ⊢
      unfold pageSize at *
      rcases sizes_cases (hty ▸ hlt) with e | e | e | e | e | e | e | e <;>
        rw [e] at hmod ⊢ <;> omega
    · rw [blockSize]
      unfold pageSize at *
      omega
    · rw [hpg]
      exact (hok.pages.mem_kpages _).2 ⟨pr, hpr, rfl⟩
  disjoint x y sz sz' hx hy hne := by
    obtain ⟨pr, hpr, hpage, hlt, hty, -, hblock⟩ := hok.pages.block hx
    obtain ⟨qr, hqr, hpage', hlt', hty', -, hblock'⟩ := hok.pages.block hy
    have hend := hblock.end_le (hty ▸ hlt)
    have hend' := hblock'.end_le (hty' ▸ hlt')
    by_cases e : pr = qr
    · -- two blocks of one page, which has one block size
      subst e
      have hsame : blockSize sz' = blockSize sz := by rw [blockSize, blockSize, ← hty, ← hty']
      rw [hsame] at hblock' ⊢
      obtain hxy | hxy := Nat.lt_or_gt_of_ne hne
      · exact .inl (hblock.separate (hty ▸ hlt) hblock' hxy)
      · exact .inr (hblock'.separate (hty ▸ hlt) hblock hxy)
    · have hapart : h.pageaddr pr ≠ h.pageaddr qr := fun ha => e (hok.pages.inj pr hpr qr hqr ha)
      rw [← blockSize] at hend hend'
      obtain ⟨h1, -, -⟩ := hpage
      obtain ⟨h2, -, -⟩ := hpage'
      obtain ⟨h3, h4, -⟩ := hblock
      obtain ⟨h5, h6, -⟩ := hblock'
      unfold pageSize at *
      omega
  held a := by
    rw [hok.pages.mem_kpages]
    constructor
    · rintro ⟨pr, hpr, rfl⟩
      exact (hok.pages.busy_iff hpr).1 (hok.busy pr hpr)
    · rintro ⟨x, hx, rfl⟩
      obtain ⟨sz, hsz⟩ := Option.ne_none_iff_exists'.1 hx
      obtain ⟨pr, hpr, hpage, -, -, -, hblock⟩ := hok.pages.block hsz
      exact ⟨pr, hpr, (hblock.page_eq hpage).symm⟩

/-- A client's write is seen by nobody else. -/
theorem Heap.Ok.write {x sz i : Nat} (hok : h.Ok live all sized) (hx : live x = some sz)
    (hi : i < blockSize sz / 4) (v : Nat) : (h.store (x + 4 * i) v).Ok live all sized := by
  obtain ⟨pr, hpr, hblock, hty⟩ := hok.pages.live x sz hx
  obtain ⟨free, hpage⟩ := hok.pages.page pr hpr
  have hsize : blockSize sz = h.size pr := by rw [blockSize, hty, Option.getD_some, Heap.size]
  have hs := refStep_mem h (Function.update h.mem (x + 4 * i) v) pr
  have hend := hblock.end_le hpage.blktype
  have hge := hblock.ge
  rw [hsize] at hi
  rw [← Heap.size] at hend
  have hmem (y : Nat) (hy : y < x ∨ x + h.size pr ≤ y) :
      Function.update h.mem (x + 4 * i) v y = h.mem y := Function.update_of_ne (by omega) _ _
  have hpage' := hpage.fill hblock (by simp [hx]) hmem
  refine ⟨hok.lists.refStep hs, ?_, fun qr hqr => ?_⟩
  · refine hok.pages.refStep hs hpr hblock (fun y hy => hmem y (by omega)) hpage' (fun _ _ => rfl) ?_
    intro sz' h'
    rw [hx] at h'
    rw [← Option.some.inj h', hty]
  · obtain ⟨y, hy, hly⟩ := hok.busy qr hqr
    exact ⟨y, hy, hly⟩

theorem kmalloc_spec {page sz : Nat} (hok : h.Ok live all sized) (hpage : PageReply h page)
    (hsz : sz < largestSubpageSize) : Prog.Returns NoPanic (kmalloc page sz) h (Allocated h live page sz) := by
  rw [kmalloc, if_neg (Nat.not_le.2 hsz)]
  exact subpageKmalloc_spec hok hpage hsz

theorem HeapStep.ok {e : HeapEvent} (hok : ∃ all sized, σ.heap.Ok σ.live all sized)
    (step : HeapStep σ e τ) : ∃ all sized, τ.heap.Ok τ.live all sized := by
  obtain ⟨all, sized, hok⟩ := hok
  cases step with
  | kmalloc hsz hpage hcall =>
    obtain ⟨rfl, rfl⟩ | ⟨hr, -, hok', -⟩ := (kmalloc_spec hok hpage hsz).of_ok hcall
    · exact ⟨all, sized, hok⟩
    · simpa only [if_neg hr] using hok'
  | kfree hx hcall =>
    obtain ⟨sz, hsz⟩ := Option.ne_none_iff_exists'.1 hx
    exact ((kfree_spec hok hsz).of_ok hcall).ok
  | write hx hi => exact ⟨all, sized, hok.write hx hi _⟩

theorem ok_of_run {mem : Nat → Nat} {tr : List HeapEvent} (run : Run HeapStep (HeapSys.boot mem) tr σ) :
    ∃ all sized, σ.heap.Ok σ.live all sized :=
  run.invariant (I := fun σ => ∃ all sized, σ.heap.Ok σ.live all sized) ⟨_, _, ok_boot mem⟩
    fun hok step => step.ok hok

/-- Every state that the heap and its clients reach is sound. From it no request stops the machine,
a request that fails changes nothing, a block that is handed out was not in use, and a page goes
back exactly when the last of its blocks does. -/
theorem kheap_integrity {mem : Nat → Nat} {tr : List HeapEvent} (run : Run HeapStep (HeapSys.boot mem) tr σ) :
    Integrity σ ∧ (∀ sz page, sz < largestSubpageSize → PageReply σ.heap page →
      Prog.Returns NoPanic (kmalloc page sz) σ.heap fun r h' => (r = 0 → h' = σ.heap) ∧
        (r ≠ 0 → σ.live r = none ∧ Integrity ⟨h', Function.update σ.live r (some sz)⟩ ∧
          (h'.kpages = σ.heap.kpages ∨ h'.kpages = page :: σ.heap.kpages))) ∧ (∀ x, σ.live x ≠ none →
      Prog.Returns NoPanic (kfree x) σ.heap fun _ h' => Integrity ⟨h', Function.update σ.live x none⟩ ∧
        ((∃ y, y ≠ x ∧ σ.live y ≠ none ∧ y - y % pageSize = x - x % pageSize) → h'.kpages = σ.heap.kpages) ∧
        ((¬ ∃ y, y ≠ x ∧ σ.live y ≠ none ∧ y - y % pageSize = x - x % pageSize) →
          h'.kpages = σ.heap.kpages.erase (x - x % pageSize))) := by
  obtain ⟨all, sized, hok⟩ := ok_of_run run
  refine ⟨hok.integrity, fun sz page hsz hpage => ?_, fun x hx => ?_⟩
  · refine (kmalloc_spec hok hpage hsz).mono ?_
    rintro r h' (⟨rfl, rfl⟩ | ⟨hr, hdead, ⟨_, _, hok'⟩, hk⟩)
    · exact ⟨fun _ => rfl, fun h => absurd rfl h⟩
    · exact ⟨fun h => absurd h hr, fun _ => ⟨hdead, hok'.integrity, hk⟩⟩
  · obtain ⟨sz, hsz⟩ := Option.ne_none_iff_exists'.1 hx
    refine (kfree_spec hok hsz).mono ?_
    rintro _ h' ⟨⟨_, _, hok'⟩, hkept, hgiven⟩
    exact ⟨hok'.integrity, hkept, hgiven⟩

/-- The page that the first allocation gets in the example run. -/
def samplePage : Nat := 0x80001000

theorem kmalloc_samplePage :
    (match kmalloc samplePage 10 (Heap.boot fun _ => 0) with
      | .ok (.ok r, _) => decide (r = samplePage + 255 * 16)
      | _ => false) = true := by
  decide +kernel

theorem kheap_integrity_samplePage : ∃ σ, Run HeapStep (HeapSys.boot fun _ => 0)
      [.kmalloc 10 samplePage (samplePage + 255 * 16)] σ ∧
    σ.live (samplePage + 255 * 16) = some 10 ∧ Integrity σ := by
  have hreply : PageReply (Heap.boot fun _ => 0) samplePage :=
    .inr ⟨⟨by decide, by decide, by decide⟩, by simp [Heap.boot]⟩
  have hret := kmalloc_samplePage
  split at hret
  · next r h' hcall =>
    have hr : r = samplePage + 255 * 16 := of_decide_eq_true hret
    have step := HeapStep.kmalloc (σ := HeapSys.boot fun _ => 0) (by decide) hreply (hr ▸ hcall)
    exact ⟨_, .step .start step, by simp [samplePage], (kheap_integrity (.step .start step)).1⟩
  · exact nomatch hret

end Os161.Kheap
