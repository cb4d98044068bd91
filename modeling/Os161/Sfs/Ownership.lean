import Os161.Lib.Exclusive
import Os161.Sfs.Layout

/-!
# Who owns a block

The abstract side of space allocation. A block of a volume is referred to from a place: it
is the superblock, a block of the free map, the inode of a live file, or what a pointer of a
live file points to. A call that has allocated a block and not yet entered it anywhere holds
it. `Owned` says that the used blocks of a volume are owned exclusively.

`L` is the set of live inodes, `H` the set of held blocks, `n` the number of blocks of the
volume and `P` what the pointers of the files hold, `0` standing for no block.
-/
namespace Os161.Sfs

open Lib

/-- A block pointer of a file: the one to its indirect block, or the one behind block `k` of
its contents, which is in the inode or in the indirect block. -/
inductive Ptr where
  | indirect (ino : Nat)
  | data (ino k : Nat)
  deriving DecidableEq

def Ptr.ino : Ptr → Nat
  | .indirect ino => ino
  | .data ino _ => ino

inductive Place where
  | super
  | freemap (j : Nat)
  | inode (ino : Nat)
  | pointer (p : Ptr)
  | held (b : Nat)
  deriving DecidableEq

def Refers (L H : Nat → Prop) (n : Nat) (P : Ptr → Nat) : Place → Nat → Prop
  | .super, b => b = sfsSbLocation
  | .freemap j, b => j < sfsBitblocks n ∧ b = sfsMapLocation + j
  | .inode ino, b => L ino ∧ b = ino
  | .pointer p, b => L p.ino ∧ P p = b ∧ b ≠ 0
  | .held c, b => H b ∧ c = b

def Owned (L H : Nat → Prop) (n : Nat) (P : Ptr → Nat) (used : Nat → Prop) : Prop :=
  Exclusive (Refers L H n P) (fun b => b < n ∧ used b)

variable {L H : Nat → Prop} {n : Nat} {P P' : Ptr → Nat} {used : Nat → Prop}

/-- The superblock and the blocks of the free map. -/
def Reserved (n b : Nat) : Prop :=
  b = sfsSbLocation ∨ ∃ j, j < sfsBitblocks n ∧ b = sfsMapLocation + j

def Pointed (L : Nat → Prop) (P : Ptr → Nat) (S : Ptr → Prop) (b : Nat) : Prop :=
  ∃ p, S p ∧ L p.ino ∧ P p = b ∧ b ≠ 0

variable {ino b : Nat} {p : Ptr} {used' : Nat → Prop}

namespace Owned

variable (h : Owned L H n P used)
include h

theorem inode_used (hi : L ino) : ino < n ∧ used ino :=
  h.sound (p := .inode ino) ⟨hi, rfl⟩

theorem pointer_used (hp : L p.ino) (h0 : P p ≠ 0) : P p < n ∧ used (P p) :=
  h.sound (p := .pointer p) ⟨hp, rfl, h0⟩

theorem held_used (hb : H b) : b < n ∧ used b := h.sound (p := .held b) ⟨hb, rfl⟩

/-- A reserved block is used, and referred to from nowhere else. -/
theorem reserved (hb : Reserved n b) :
    used b ∧ (∀ ino, L ino → ino ≠ b) ∧ ∀ p : Ptr, L p.ino → P p ≠ 0 → P p ≠ b := by
  have key {p : Place} (hp : Refers L H n P p b) (hi : ∀ ino, p ≠ .inode ino) (hq : ∀ q, p ≠ .pointer q) :
      used b ∧ (∀ ino, L ino → ino ≠ b) ∧ ∀ p : Ptr, L p.ino → P p ≠ 0 → P p ≠ b := by
    refine ⟨(h.sound hp).2, fun ino hl he => ?_, fun q hl h0 he => ?_⟩
    · exact hi ino (h.unique hp (q := .inode ino) ⟨hl, he.symm⟩)
    · exact hq q (h.unique hp (q := .pointer q) ⟨hl, he, he ▸ h0⟩)
  obtain hb | ⟨j, hj, hb⟩ := hb
  · exact key (p := .super) hb nofun nofun
  · exact key (p := .freemap j) ⟨hj, hb⟩ nofun nofun

theorem inode_ne_zero (hi : L ino) : ino ≠ 0 := by
  rintro rfl
  exact Place.noConfusion (h.unique (p := .inode 0) (q := .super) ⟨hi, rfl⟩ rfl)

theorem held_ne_zero (hb : H b) : b ≠ 0 := by
  rintro rfl
  exact Place.noConfusion (h.unique (p := .held 0) (q := .super) ⟨hb, rfl⟩ rfl)

theorem not_live_of_held (hb : H b) : ¬ L b := fun hl =>
  Place.noConfusion (h.unique (p := .held b) (q := .inode b) ⟨hb, rfl⟩ ⟨hl, rfl⟩)

theorem pointer_inj {q : Ptr} (hp : L p.ino) (hq : L q.ino) (h0 : P p ≠ 0) (he : P p = P q) : p = q := by
  have := h.unique (p := .pointer p) (q := .pointer q) ⟨hp, rfl, h0⟩ ⟨hq, he.symm, h0⟩
  simpa using this

theorem pointer_ne_inode (hp : L p.ino) (h0 : P p ≠ 0) (hi : L ino) : P p ≠ ino := fun he =>
  Place.noConfusion (h.unique (p := .pointer p) (q := .inode ino) ⟨hp, rfl, h0⟩ ⟨hi, he⟩)

theorem pointer_ne_held (hp : L p.ino) (hb : H b) : P p ≠ b := fun he =>
  Place.noConfusion (h.unique (p := .pointer p) (q := .held b)
    ⟨hp, rfl, he ▸ h.held_ne_zero hb⟩ ⟨he ▸ hb, he.symm⟩)

theorem congr (hP : ∀ p, L p.ino → P' p = P p)
    (hu : ∀ b < n, used' b ↔ used b) : Owned L H n P' used' := by
  refine Exclusive.congr h (fun p b => ?_) (fun b => and_congr_right fun hb => hu b hb)
  cases p with
  | pointer p => exact and_congr_right fun hl => by rw [hP p hl]
  | _ => exact Iff.rfl

theorem hold (hb : ¬ used b) (hn : b < n)
    (hu : ∀ c, used' c ↔ used c ∨ c = b) : Owned L (fun c => H c ∨ c = b) n P used' := by
  refine Exclusive.claim (p := .held b) h (fun hu => hb hu.2) (fun q c => ?_) (fun c => ?_)
  · cases q <;> simp only [Refers] <;> grind
  · grind

theorem discard {T : Nat → Prop} (hT : ∀ b, T b → H b)
    (hu : ∀ c < n, used' c ↔ used c ∧ ¬ T c) : Owned L (fun c => H c ∧ ¬ T c) n P used' := by
  refine Exclusive.release h T (fun q c => ?_) (fun c => ?_)
  · have away (hq : Refers L H n P q c) (hne : q ≠ .held c) : ¬ T c := fun ht =>
      hne (h.unique hq (q := .held c) ⟨hT c ht, rfl⟩)
    cases q with
    | held b => simp only [Refers]; tauto
    | _ => exact ⟨fun hq => ⟨hq, away hq (by simp)⟩, And.left⟩
  · constructor
    · rintro ⟨hc, hu'⟩
      exact ⟨⟨hc, ((hu c hc).1 hu').1⟩, ((hu c hc).1 hu').2⟩
    · rintro ⟨⟨hc, hu'⟩, ht⟩
      exact ⟨hc, (hu c hc).2 ⟨hu', ht⟩⟩

/-- A held block is entered at a free pointer. -/
theorem attach (hp : L p.ino) (h0 : P p = 0) (hb : H b)
    (hP : ∀ q, L q.ino → P' q = if q = p then b else P q) : Owned L (fun c => H c ∧ c ≠ b) n P' used := by
  have hb0 := h.held_ne_zero hb
  refine Exclusive.moveOne (p := .held b) (q := .pointer p) h ⟨hb, rfl⟩ (fun c hc => hc.2.symm) fun r c => ?_
  cases r with
  | pointer q =>
    simp only [Refers]
    by_cases hl : L q.ino
    · rw [hP q hl]
      grind
    · grind
  | _ => simp only [Refers]; grind

/-- The blocks behind the pointers in `S` are taken out of the file. -/
theorem detach {S : Ptr → Prop} [DecidablePred S] (hP : ∀ q, L q.ino → P' q = if S q then 0 else P q) :
    Owned L (fun c => H c ∨ Pointed L P S c) n P' used := by
  refine Exclusive.moveTo h (fun r => ∃ p, r = .pointer p ∧ S p) .held fun r c => ?_
  have hS : (∃ r, (∃ p, r = .pointer p ∧ S p) ∧ Refers L H n P r c) ↔ Pointed L P S c := by
    constructor
    · rintro ⟨_, ⟨p, rfl, hS⟩, hp⟩
      exact ⟨p, hS, hp⟩
    · rintro ⟨p, hS, hp⟩
      exact ⟨.pointer p, ⟨p, rfl, hS⟩, hp⟩
  rw [hS]
  cases r with
  | pointer q =>
    have hP := hP q
    simp only [Refers]
    grind
  | _ => simp only [Refers]; grind

/-- A held block becomes the inode of a file without blocks. -/
theorem adopt (hi : H ino) (hP : ∀ p, L p.ino → P' p = P p) (h0 : ∀ p, p.ino = ino → P' p = 0) :
    Owned (fun i => L i ∨ i = ino) (fun c => H c ∧ c ≠ ino) n P' used := by
  refine Exclusive.moveOne (p := .held ino) (q := .inode ino) h ⟨hi, rfl⟩ (fun c hc => hc.2.symm) fun r c => ?_
  cases r with
  | pointer p =>
    have hP := hP p
    have h0 := h0 p
    simp only [Refers]
    grind
  | _ => simp only [Refers]; grind

/-- The inode of a file without blocks is taken out of use. -/
theorem abandon (hi : L ino) (h0 : ∀ p, p.ino = ino → P p = 0) :
    Owned (fun i => L i ∧ i ≠ ino) (fun c => H c ∨ c = ino) n P used := by
  refine Exclusive.moveOne (p := .inode ino) (q := .held ino) h ⟨hi, rfl⟩ (fun c hc => hc.2) fun r c => ?_
  cases r with
  | pointer p =>
    have h0 := h0 p
    simp only [Refers]
    grind
  | _ => simp only [Refers]; grind

end Owned

/-- From `P` to `P'` the pointers in `S` were cleared and the others stayed. -/
structure Drops (L : Nat → Prop) (S : Ptr → Prop) (P P' : Ptr → Nat) : Prop where
  gone : ∀ p : Ptr, L p.ino → S p → P' p = 0
  kept : ∀ p : Ptr, L p.ino → ¬ S p → P' p = P p

namespace Drops

variable {S S' : Ptr → Prop} {P'' : Ptr → Nat}

theorem of_ite [DecidablePred S] (h : ∀ p : Ptr, L p.ino → P' p = if S p then 0 else P p) :
    Drops L S P P' where
  gone p hl hp := (h p hl).trans (if_pos hp)
  kept p hl hp := (h p hl).trans (if_neg hp)

theorem refl (L : Nat → Prop) (P : Ptr → Nat) : Drops L (fun _ => False) P P where
  gone _ _ h := h.elim
  kept _ _ _ := rfl

theorem trans (h : Drops L S P P') (h' : Drops L S' P' P'') :
    Drops L (fun p => S p ∨ S' p) P P'' where
  gone p hl hp := by
    by_cases hp' : S' p
    · exact h'.gone p hl hp'
    · exact (h'.kept p hl hp').trans (h.gone p hl (hp.resolve_right hp'))
  kept p hl hp := by
    obtain ⟨hp, hp'⟩ := not_or.1 hp
    exact (h'.kept p hl hp').trans (h.kept p hl hp)

/-- It does not matter on which side pointers to nothing are counted. -/
theorem adjust (h : Drops L S P P') (hS : ∀ p : Ptr, L p.ino → P p ≠ 0 → (S' p ↔ S p)) :
    Drops L S' P P' where
  gone p hl hp := by
    by_cases h0 : P p = 0
    · by_cases hp' : S p
      · exact h.gone p hl hp'
      · exact (h.kept p hl hp').trans h0
    · exact h.gone p hl ((hS p hl h0).1 hp)
  kept p hl hp := by
    by_cases h0 : P p = 0
    · by_cases hp' : S p
      · exact (h.gone p hl hp').trans h0.symm
      · exact h.kept p hl hp'
    · exact h.kept p hl fun hp' => hp ((hS p hl h0).2 hp')

/-- When the free map was right before and is right again, a block is in use after its pointer
was cleared or kept exactly if the pointer was kept. -/
theorem used_iff (h : Drops L S P P') (ho : Owned L H n P used)
    (ho' : Owned L H n P' used') (hp : L p.ino) (h0 : P p ≠ 0) : used' (P p) ↔ P' p ≠ 0 := by
  have same {q : Ptr} (hq : L q.ino) (hq0 : P' q ≠ 0) : P' q = P q := by
    by_contra hne
    by_cases hS : S q
    · exact hq0 (h.gone q hq hS)
    · exact hne (h.kept q hq hS)
  constructor
  · intro hu
    obtain ⟨q, hq⟩ := ho'.complete ⟨(ho.pointer_used hp h0).1, hu⟩
    -- whatever refers to the block now did so before, and then it is `p`
    have hq' : Refers L H n P q (P p) := by
      cases q with
      | pointer q =>
        obtain ⟨hl, he, hq0⟩ := hq
        exact ⟨hl, by rw [← same hl (he ▸ hq0), he], hq0⟩
      | _ => exact hq
    obtain rfl := ho.unique hq' (q := .pointer p) ⟨hp, rfl, h0⟩
    exact hq.2.1.symm ▸ h0
  · intro hp'
    rw [← same hp hp']
    exact (ho'.pointer_used hp hp').2

end Drops

end Os161.Sfs
