import Mathlib.Algebra.Group.Pi.Basic
import Os161.Asst1.Catlock

/-!
# Which runs of the cats and mice with locks are safe

As soon as an animal calls a condition variable function the kernel stops, because nobody holds the
lock that goes with the variable. Until then a run is safe as long as only one bowl is taken: the
first animal is alone in the kitchen, a mouse does not leave it, and a cat that leaves keeps
`cats_wait_mutex`. A mouse that comes after such a cat takes the second bowl.
-/
namespace Os161.Catlock

open Lib
open Catsem (Species)

/-! ## Calm steps -/

def Code.AtCv : Code → Bool
  | .wait _ _ _ => true
  | .signal _ _ _ => true
  | .broadcast _ _ _ => true
  | _ => false

/-- A calm step is no call of a condition variable function, and it does not take the last bowl. -/
def Code.Calm (s : Kitchen) : Code → Prop
  | .take _ => s.bowlCount = nFoodbowls
  | code => code.AtCv = false

def Calm (c : Crew Kitchen Animal) : CrewLabel Animal Unit Empty → Prop
  | .thread i _ => ∀ a ∈ c.threads[i]?, a.code.Calm c.shared
  | _ => True

def CalmStep (c : Crew Kitchen Animal) (l : CrewLabel Animal Unit Empty) (c' : Crew Kitchen Animal) : Prop :=
  kitchenSys.Step c l c' ∧ Calm c l

structure Safe (c : Crew Kitchen Animal) : Prop where
  panicked : c.shared.panicked = none
  bowls : c.shared.bowlCount + c.threads.countP Animal.eating = nFoodbowls
  kind : ∀ a ∈ c.threads, ∀ b ∈ c.threads, a.eating = true → b.eating = true → a.me = b.me

def SafeStep (c : Crew Kitchen Animal) (l : CrewLabel Animal Unit Empty) (c' : Crew Kitchen Animal) : Prop :=
  kitchenSys.Step c l c' ∧ Safe c'

/-- What an animal in the kitchen finds: `moved` says that `cats_waiting` is no longer null, and
`second` that a cat has left the kitchen with a bowl. -/
structure Spot where
  eating : Bool
  moved : Bool
  second : Bool
  deriving DecidableEq, Repr

def Spot.bowlsLeft : Spot → Nat
  | ⟨false, _, false⟩ => 2
  | _ => 1

/-- The code of `me`, with the locks `H` held, is safe in calm runs. The first cat in the kitchen
leaves it with `cats_wait_mutex` held, which stops the next cat, and the turn never goes to the
mice. -/
def Code.Ok (me : Species) : Code → List LockName → Option Spot → Bool
  | .acquire .kitchen next, H, m => decide (H = []) && decide (m = none) &&
    next.Ok me [.kitchen] (some ⟨false, false, false⟩) && next.Ok me [.kitchen] (some ⟨false, true, true⟩)
  | .acquire .catsWait _, H, some ⟨_, _, true⟩ => decide (.catsWait ∉ H)
  | .acquire l next, H, m => decide (l ∉ H) && next.Ok me (l :: H) m
  | .release .kitchen next, H, m => decide (me = .cat) && decide (.catsWait ∈ H) &&
    decide (m = some ⟨true, true, false⟩) && next.AtCv && next.Ok me (H.erase .kitchen) none
  | .release l next, H, m => decide (l ∈ H) && next.Ok me (H.erase l) m
  | .wait _ l _, H, _ => decide (l ∉ H)
  | .sleep _ _ _, _, _ => false
  | .asleep _ _ _ _, _, _ => false
  | .signal _ l _, H, _ => decide (l ∉ H)
  | .broadcast _ l _, H, _ => decide (l ∉ H)
  | .set .catsWaitingInc _, _, _ => false
  | .set .catsWaitingDec next, H, some ⟨eating, false, second⟩ => next.Ok me H (some ⟨eating, true, second⟩)
  | .set .catsWaitingDec _, _, _ => false
  | .set .miceWaitingInc next, H, m => next.Ok me H m
  | .set .miceWaitingDec next, H, m => next.Ok me H m
  | .set (.turn t) next, H, m => decide (t ≠ .mices) && next.Ok me H m
  | .take next, H, some ⟨false, moved, false⟩ => next.Ok me H (some ⟨true, moved, false⟩)
  | .take _, _, some ⟨false, _, true⟩ => decide (me = .mouse)
  | .take _, _, _ => false
  | .clocksleep _, _, _ => false
  | .test (.bowls n) yes no, H, some spot =>
    if n = spot.bowlsLeft then yes.Ok me H (some spot) else no.Ok me H (some spot)
  | .test (.bowls n) yes no, H, none => (decide (n = 0) || yes.Ok me H none) && no.Ok me H none
  | .test (.turn .mices) _ no, H, m => no.Ok me H m
  | .test .catsWaiting yes _, H, some ⟨eating, true, second⟩ => yes.Ok me H (some ⟨eating, true, second⟩)
  | .test _ yes no, H, m => yes.Ok me H m && no.Ok me H m
  | .panic _, _, _ => false
  | .ret, _, _ => true

attribute [local simp] Code.Ok

theorem start_ok (me : Species) : (start me).Ok me [] none = true := by
  cases me <;> decide

section

variable {me : Species} {l : LockName} {next : Code} {H : List LockName} {m : Option Spot} (hl : l ≠ .kitchen)
include hl

theorem Code.ok_acquire (hm : l = .catsWait → ∀ spot ∈ m, spot.second = false) :
    (Code.acquire l next).Ok me H m = (decide (l ∉ H) && next.Ok me (l :: H) m) := by
  obtain - | ⟨e, moved, - | -⟩ := m
  all_goals cases l <;> first | rfl | exact absurd rfl hl | exact nomatch hm rfl _ rfl

theorem Code.ok_release : (Code.release l next).Ok me H m = (decide (l ∈ H) && next.Ok me (H.erase l) m) := by
  cases l <;> first | rfl | exact absurd rfl hl

end

variable {yes no : Code}

theorem Code.ok_ite {me : Species} {H : List LockName} {m : Option Spot} {x : Bool}
    (h : yes.Ok me H m = true ∧ no.Ok me H m = true) : (if x then yes else no).Ok me H m = true := by
  cases x
  · exact h.2
  · exact h.1

/-! ## The invariant -/

/-- `left` counts the animals that eat outside the kitchen, and `busy` the others that hold
`cats_wait_mutex`. -/
inductive Tally where
  | holds (l : LockName)
  | inside (eating : Bool)
  | left | busy
  deriving DecidableEq, Repr

def Animal.tally (a : Animal) : Tally → Nat
  | .holds l => if l ∈ a.holds then 1 else 0
  | .inside e => if .kitchen ∈ a.holds ∧ a.eating = e then 1 else 0
  | .left => if a.eating = true ∧ .kitchen ∉ a.holds then 1 else 0
  | .busy => if .catsWait ∈ a.holds ∧ ¬(a.eating = true ∧ .kitchen ∉ a.holds) then 1 else 0

def Animal.spot (s : Kitchen) (a : Animal) : Option Spot :=
  if .kitchen ∈ a.holds then
    some ⟨a.eating, s.test .catsWaiting, decide (s.bowlCount + a.eating.toNat ≠ nFoodbowls)⟩
  else none

structure Animal.Ok (s : Kitchen) (a : Animal) : Prop where
  nodup : a.holds.Nodup
  left : .kitchen ∉ a.holds → a.eating = true → a.me = .cat ∧ .catsWait ∈ a.holds ∧ a.code.AtCv = true
  code : a.code.Ok a.me a.holds (a.spot s) = true

structure Balanced (n : Tally → Nat) : Prop where
  kitchen : n (.holds .kitchen) = n (.inside false) + n (.inside true)
  catsWait : n (.holds .catsWait) = n .left + n .busy

structure Kitchen.Inv (s : Kitchen) (n : Tally → Nat) : Prop where
  panicked : s.panicked = none
  turn : s.currentTurn ≠ .mices
  held : ∀ l, (s.isHeld l).toNat = n (.holds l)
  balanced : Balanced n
  bowls : s.bowlCount + n (.inside true) + n .left = nFoodbowls
  notEmpty : 1 ≤ s.bowlCount
  free : n (.holds .kitchen) = 0 → n .left = 0 → s.catsWaiting = 0
  moved : n .left ≠ 0 → s.catsWaiting ≠ 0

variable {x : Test} {p : Nat}

section Invariant

variable {s t : Kitchen} {a b : Animal} {m m' r : Tally → Nat}

theorem Balanced.frame (h : Balanced (m + r)) (hm : Balanced m) (hm' : Balanced m') : Balanced (m' + r) := by
  obtain ⟨hk, hw⟩ := h
  obtain ⟨hk₁, hw₁⟩ := hm
  obtain ⟨hk₂, hw₂⟩ := hm'
  constructor <;> simp only [Pi.add_apply] at * <;> omega

theorem Animal.Ok.balanced (A : a.Ok s) : Balanced a.tally := by
  constructor
  · by_cases hk : .kitchen ∈ a.holds <;> cases he : a.eating <;> simp [Animal.tally, hk, he]
  · by_cases hleft : a.eating = true ∧ .kitchen ∉ a.holds
    · simp [Animal.tally, hleft, (A.left hleft.2 hleft.1).2.1]
    · simp [Animal.tally, hleft]

/-- Only an animal at a call of a condition variable function eats outside the kitchen. -/
theorem Animal.Ok.inside (A : a.Ok s) (hcv : a.code.AtCv = false) (he : a.eating = true) : .kitchen ∈ a.holds := by
  by_contra hk
  simpa [hcv] using (A.left hk he).2.2

theorem Animal.spot_of_mem (h : .kitchen ∈ a.holds) : a.spot s =
    some ⟨a.eating, s.test .catsWaiting, decide (s.bowlCount + a.eating.toNat ≠ nFoodbowls)⟩ := if_pos h

theorem Animal.spot_of_notMem (h : .kitchen ∉ a.holds) : a.spot s = none := if_neg h

theorem Animal.spot_congr (hholds : b.holds = a.holds) (heat : b.eating = a.eating)
    (hcats : t.catsWaiting = s.catsWaiting) (hbowls : t.bowlCount = s.bowlCount) : b.spot t = a.spot s := by
  simp [Animal.spot, Kitchen.test, hholds, heat, hcats, hbowls]

/-- An animal in the kitchen is alone there, and at most one other animal has left with a bowl. -/
theorem Kitchen.Inv.alone (I : s.Inv (a.tally + r)) (h : .kitchen ∈ a.holds) :
    r (.holds .kitchen) = 0 ∧ s.bowlCount + a.eating.toNat + r .left = nFoodbowls := by
  have hheld := I.held .kitchen
  have hk := I.balanced.kitchen
  have hb := I.bowls
  have hle := Bool.toNat_le (s.isHeld .kitchen)
  simp only [Pi.add_apply, Animal.tally, h, true_and, if_true, not_true_eq_false, and_false, if_false] at hheld hk hb
  cases he : a.eating <;> simp [he, nFoodbowls] at hk hb ⊢ <;> omega

theorem Kitchen.Inv.left_le {n : Tally → Nat} (I : s.Inv n) : n .left ≤ (s.isHeld .catsWait).toNat := by
  have hheld := I.held .catsWait
  have hw := I.balanced.catsWait
  omega

/-- What an animal does elsewhere is not seen in the kitchen. -/
theorem Animal.Ok.of_same (A : a.Ok s)
    (h : t.catsWaiting = s.catsWaiting ∧ t.bowlCount = s.bowlCount ∨ .kitchen ∉ a.holds) : a.Ok t := by
  have hspot : a.spot t = a.spot s := by
    obtain ⟨hcats, hbowls⟩ | hk := h
    · exact Animal.spot_congr rfl rfl hcats hbowls
    · rw [Animal.spot_of_notMem hk, Animal.spot_of_notMem hk]
  exact ⟨A.nodup, A.left, hspot ▸ A.code⟩

theorem Animal.tally_congr (hholds : b.holds = a.holds) (heat : b.eating = a.eating) : b.tally = a.tally := by
  funext x
  cases x <;> simp [Animal.tally, hholds, heat]

theorem Kitchen.Inv.same (I : s.Inv (a.tally + r)) (hpan : t.panicked = s.panicked)
    (hturn : t.currentTurn ≠ .mices) (hheld : t.isHeld = s.isHeld) (hb : t.bowlCount = s.bowlCount)
    (hcats : t.catsWaiting = s.catsWaiting) (hholds : b.holds = a.holds) (heat : b.eating = a.eating) :
    t.Inv (b.tally + r) := by
  rw [Animal.tally_congr hholds heat]
  exact ⟨hpan.trans I.panicked, hturn, fun l => hheld ▸ I.held l, I.balanced, hb ▸ I.bowls, hb ▸ I.notEmpty,
    hcats ▸ I.free, hcats ▸ I.moved⟩

section SetHeld

variable {l : LockName} {busy : Bool} (I : s.Inv (a.tally + r))
  (hmine : (s.isHeld l).toNat + (if l ∈ b.holds then 1 else 0) = busy.toNat + if l ∈ a.holds then 1 else 0)
  (hholds : ∀ x, x ≠ l → (x ∈ b.holds ↔ x ∈ a.holds))
include I hmine hholds

theorem Kitchen.Inv.held_setHeld (x : LockName) : ((s.setHeld l busy).isHeld x).toNat = (b.tally + r) (.holds x) := by
  have hx := I.held x
  by_cases hxl : x = l
  · subst hxl
    simp only [Pi.add_apply, Animal.tally, Kitchen.setHeld, Function.update_self] at hx ⊢
    omega
  · simpa [Animal.tally, Kitchen.setHeld, hxl, hholds x hxl] using hx

theorem Kitchen.Inv.setHeld (A : a.Ok s) (B : b.Ok t) (hl : l ≠ .kitchen) (heat : b.eating = a.eating) :
    (s.setHeld l busy).Inv (b.tally + r) := by
  have hkitchen : .kitchen ∈ b.holds ↔ .kitchen ∈ a.holds := hholds _ (Ne.symm hl)
  have hinside : b.tally (.inside true) = a.tally (.inside true) := by simp [Animal.tally, hkitchen, heat]
  have hleft : b.tally .left = a.tally .left := by simp [Animal.tally, hkitchen, heat]
  have hkept : b.tally (.holds .kitchen) = a.tally (.holds .kitchen) := by simp [Animal.tally, hkitchen]
  refine ⟨I.panicked, I.turn, I.held_setHeld hmine hholds, I.balanced.frame A.balanced B.balanced, ?_, I.notEmpty, ?_, ?_⟩
  · simpa [hinside, hleft, Kitchen.setHeld] using I.bowls
  · simpa [hkept, hleft, Kitchen.setHeld] using I.free
  · simpa [hleft, Kitchen.setHeld] using I.moved

end SetHeld

theorem Animal.spot_setHeld {l : LockName} {busy : Bool} : a.spot (s.setHeld l busy) = a.spot s := rfl

/-- The outcome of a step of `a`: what it changes in the kitchen, it changes while it is there. -/
structure Kitchen.Next (s : Kitchen) (a : Animal) (r : Tally → Nat) (t : Kitchen) (b : Animal) : Prop where
  inv : t.Inv (b.tally + r)
  ok : b.Ok t
  frame : t.catsWaiting = s.catsWaiting ∧ t.bowlCount = s.bowlCount ∨ .kitchen ∈ a.holds

def Kitchen.Steps (s : Kitchen) (r : Tally → Nat) (a : Animal) : Prop :=
  s.Inv (a.tally + r) → a.Ok s → ∀ t b, a.step s = some (t, b) → s.Next a r t b

section Steps

variable {me : Species} {H : List LockName} {e : Bool} {next : Code}

theorem Kitchen.Steps.acquireKitchen : s.Steps r ⟨me, H, e, .acquire .kitchen next⟩ := by
  intro I A t b h
  have hcode := A.code
  simp only [Code.Ok, Bool.and_eq_true, decide_eq_true_eq] at hcode
  obtain ⟨⟨⟨rfl, -⟩, hfirst⟩, hsecond⟩ := hcode
  obtain rfl : e = false := by
    cases e with
    | false => rfl
    | true => exact nomatch A.inside rfl rfl
  simp only [Animal.step, List.not_mem_nil, if_false] at h
  split at h
  · exact nomatch h
  · next hheld =>
    cases h
    have hle := I.left_le
    have hle' := Bool.toNat_le (s.isHeld .catsWait)
    have hone := I.held .kitchen
    have hkitchen := I.balanced.kitchen
    have hbowls := I.bowls
    have hfree := I.free
    have hmoved := I.moved
    simp only [Pi.add_apply, Animal.tally, List.not_mem_nil, if_false, false_and, and_false, Bool.false_eq_true,
      zero_add, hheld, Bool.toNat_false] at hle hone hkitchen hbowls hfree hmoved
    have B : Animal.Ok (s.setHeld .kitchen true) ⟨me, [.kitchen], false, next⟩ := by
      refine ⟨by simp, by simp, ?_⟩
      rw [Animal.spot_setHeld, Animal.spot_of_mem (by simp)]
      -- the first one finds both bowls, the second one finds the bowl that the first one has left
      by_cases hleft : r .left = 0
      · have hcats : s.catsWaiting = 0 := hfree (by omega) hleft
        have htwo : s.bowlCount = nFoodbowls := by omega
        simpa [Kitchen.test, hcats, htwo] using hfirst
      · have hcats : s.catsWaiting ≠ 0 := hmoved hleft
        have hbowl : s.bowlCount ≠ nFoodbowls := by omega
        simpa [Kitchen.test, hcats, hbowl] using hsecond
    refine ⟨⟨I.panicked, I.turn, I.held_setHeld (by simp [hheld]) fun x hx => by simp [hx],
      I.balanced.frame A.balanced B.balanced, ?_, I.notEmpty, ?_, ?_⟩, B, .inl ⟨rfl, rfl⟩⟩
    · simpa [Animal.tally, Kitchen.setHeld] using hbowls
    · simp [Animal.tally]
    · simpa [Animal.tally, Kitchen.setHeld] using hmoved

theorem Kitchen.Inv.catsWait_isHeld (I : s.Inv (a.tally + r)) (hk : .kitchen ∈ a.holds)
    (hsecond : s.bowlCount + a.eating.toNat ≠ nFoodbowls) : s.isHeld .catsWait = true := by
  have hbowls := (I.alone hk).2
  have hle := I.left_le
  cases hheld : s.isHeld .catsWait with
  | true => rfl
  | false =>
    simp only [hheld, Pi.add_apply, Bool.toNat_false] at hle
    omega

theorem Kitchen.Steps.acquire {l : LockName} (hl : l ≠ .kitchen) : s.Steps r ⟨me, H, e, .acquire l next⟩ := by
  intro I A t b h
  have hcode := A.code
  by_cases hstop : l = .catsWait ∧ .kitchen ∈ H ∧ s.bowlCount + e.toNat ≠ nFoodbowls
  · obtain ⟨rfl, hk, hsecond⟩ := hstop
    have hheld : s.isHeld .catsWait = true := I.catsWait_isHeld hk hsecond
    rw [Animal.spot_of_mem hk] at hcode
    simp only [hsecond, ne_eq, not_false_eq_true, decide_true, Code.Ok, decide_eq_true_eq] at hcode
    simp [Animal.step, hcode, hheld] at h
  · rw [Code.ok_acquire hl ?_] at hcode
    · simp only [Bool.and_eq_true, decide_eq_true_eq] at hcode
      simp only [Animal.step, hcode.1, if_false] at h
      split at h
      · exact nomatch h
      · next hheld =>
        cases h
        have hin := A.inside rfl
        have B : Animal.Ok (s.setHeld l true) ⟨me, l :: H, e, next⟩ := by
          refine ⟨List.nodup_cons.2 ⟨hcode.1, A.nodup⟩, ?_, ?_⟩
          · intro hk he
            exact absurd (List.mem_cons_of_mem l (hin he)) hk
          · rw [Animal.spot_setHeld]
            simpa [Animal.spot, Ne.symm hl] using hcode.2
        refine ⟨I.setHeld ?_ ?_ A B hl rfl, B, .inl ⟨rfl, rfl⟩⟩
        · simp [hcode.1, hheld]
        · intro x hx
          simp [hx]
    · intro hwait spot hspot
      by_cases hk : .kitchen ∈ H
      · rw [Animal.spot_of_mem hk] at hspot
        cases hspot
        simpa [hwait, hk] using hstop
      · rw [Animal.spot_of_notMem hk] at hspot
        exact nomatch hspot

theorem Kitchen.Inv.isHeld_of_mem {l : LockName} (I : s.Inv (a.tally + r)) (h : l ∈ a.holds) : s.isHeld l = true := by
  have hone := I.held l
  simp only [Animal.tally, Pi.add_apply, h, if_true] at hone
  cases hheld : s.isHeld l with
  | true => rfl
  | false =>
    simp only [hheld, Bool.toNat_false] at hone
    omega

theorem Kitchen.Steps.release {l : LockName} (hl : l ≠ .kitchen) : s.Steps r ⟨me, H, e, .release l next⟩ := by
  intro I A t b h
  have hcode := A.code
  simp only [Code.ok_release hl, Bool.and_eq_true, decide_eq_true_eq] at hcode
  simp only [Animal.step, hcode.1, if_true] at h
  cases h
  have hin := A.inside rfl
  have hnodup : H.Nodup := A.nodup
  have hheld : s.isHeld l = true := I.isHeld_of_mem hcode.1
  have B : Animal.Ok (s.setHeld l false) ⟨me, H.erase l, e, next⟩ := by
    refine ⟨hnodup.erase l, ?_, ?_⟩
    · intro hk he
      exact absurd (hnodup.mem_erase_iff.2 ⟨Ne.symm hl, hin he⟩) hk
    · rw [Animal.spot_setHeld]
      simpa [Animal.spot, hnodup.mem_erase_iff, Ne.symm hl] using hcode.2
  refine ⟨I.setHeld ?_ ?_ A B hl rfl, B, .inl ⟨rfl, rfl⟩⟩
  · simp [hnodup.mem_erase_iff, hcode.1, hheld]
  · intro x hx
    simp [hnodup.mem_erase_iff, hx]

/-- A cat leaves the kitchen with its bowl, and with `cats_wait_mutex`. -/
theorem Kitchen.Steps.releaseKitchen : s.Steps r ⟨me, H, e, .release .kitchen next⟩ := by
  intro I A t b h
  have hcode := A.code
  have hnodup : H.Nodup := A.nodup
  simp only [Code.Ok, Bool.and_eq_true, decide_eq_true_eq] at hcode
  obtain ⟨⟨⟨⟨rfl, hwait⟩, hspot⟩, hcv⟩, hnext⟩ := hcode
  by_cases hk : .kitchen ∈ H
  · rw [Animal.spot_of_mem hk] at hspot
    simp only [Option.some.injEq, Spot.mk.injEq] at hspot
    obtain ⟨rfl, hmoved, hfirst⟩ := hspot
    simp only [Kitchen.test, decide_eq_true_eq] at hmoved
    simp only [Animal.step, hk, if_true] at h
    cases h
    have hgone : .kitchen ∉ H.erase .kitchen := by simp [hnodup.mem_erase_iff]
    have B : Animal.Ok (s.setHeld .kitchen false) ⟨.cat, H.erase .kitchen, true, next⟩ := by
      refine ⟨hnodup.erase _, fun _ _ => ⟨rfl, ?_, hcv⟩, ?_⟩
      · exact hnodup.mem_erase_iff.2 ⟨by decide, hwait⟩
      · rwa [Animal.spot_of_notMem hgone]
    have hrest := I.alone hk
    have hbowls := I.bowls
    have hbalance := I.balanced.kitchen
    simp only [Pi.add_apply, Animal.tally, hk, and_self, if_true, not_true_eq_false, and_false, if_false] at hbowls hbalance
    refine ⟨⟨I.panicked, I.turn, I.held_setHeld (by simp [hgone, hk, I.isHeld_of_mem hk])
      fun x hx => by simp [hnodup.mem_erase_iff, hx], I.balanced.frame A.balanced B.balanced, ?_, I.notEmpty, ?_, ?_⟩, B,
      .inr hk⟩
    · simp only [Pi.add_apply, Animal.tally, hgone, false_and, if_false, Kitchen.setHeld]
      simp
      omega
    · simp [Animal.tally, hgone]
    · exact fun _ => hmoved
  · rw [Animal.spot_of_notMem hk] at hspot
    exact nomatch hspot

theorem Kitchen.Steps.take (htwo : s.bowlCount = nFoodbowls) : s.Steps r ⟨me, H, e, .take next⟩ := by
  intro I A t b h
  have hcode := A.code
  have hk : .kitchen ∈ H := by
    by_contra hk
    rw [Animal.spot_of_notMem hk] at hcode
    simp at hcode
  have halone := I.alone hk
  obtain rfl : e = false := by
    cases e with
    | false => rfl
    | true =>
      simp only [Bool.toNat_true] at halone
      omega
  have hfirst : decide (s.bowlCount + (false.toNat : Nat) ≠ nFoodbowls) = false := by simp [htwo]
  rw [Animal.spot_of_mem hk, hfirst] at hcode
  simp only [Code.Ok] at hcode
  cases h
  have B : Animal.Ok { s with bowlCount := s.bowlCount - 1 } ⟨me, H, true, next⟩ := by
    refine ⟨A.nodup, fun h => absurd hk h, ?_⟩
    have hfirst : decide (s.bowlCount - 1 + (true.toNat : Nat) ≠ nFoodbowls) = false := by simp [htwo]
    rw [Animal.spot_of_mem hk, hfirst]
    exact hcode
  have hbowls := I.bowls
  refine ⟨⟨I.panicked, I.turn, I.held, I.balanced.frame A.balanced B.balanced, ?_, ?_, ?_, ?_⟩, B, .inr hk⟩
  · simp [Animal.tally, hk] at hbowls ⊢
    omega
  · simp [htwo, nFoodbowls]
  · simp [Animal.tally, hk]
  · simpa [Animal.tally, hk] using I.moved

theorem Code.ok_test_turn {tn : Turn} {m : Option Spot} (hturn : s.currentTurn ≠ .mices)
    (h : (Code.test (.turn tn) yes no).Ok me H m = true) :
    (if s.test (.turn tn) then yes else no).Ok me H m = true := by
  cases tn with
  | mices =>
    have hno : s.test (.turn .mices) = false := by simpa [Kitchen.test] using hturn
    simpa [hno] using h
  | any | cats => exact Code.ok_ite (by simpa using h)

theorem Code.ok_test_inside {spot : Spot} (hturn : s.currentTurn ≠ .mices)
    (hbowls : s.bowlCount = spot.bowlsLeft) (hmoved : s.test .catsWaiting = spot.moved)
    (h : (Code.test x yes no).Ok me H (some spot) = true) :
    (if s.test x then yes else no).Ok me H (some spot) = true := by
  cases x with
  | bowls n =>
    have hfound : s.test (.bowls n) = decide (n = spot.bowlsLeft) := by
      simp only [Kitchen.test, hbowls, decide_eq_decide]
      omega
    simp only [Code.Ok] at h
    by_cases hn : n = spot.bowlsLeft
    · rw [if_pos hn] at h
      rw [hfound, if_pos (decide_eq_true hn)]
      exact h
    · rw [if_neg hn] at h
      rw [hfound, if_neg (by simpa using hn)]
      exact h
  | turn tn => exact Code.ok_test_turn hturn h
  | miceWaiting => exact Code.ok_ite (by simpa using h)
  | catsWaiting =>
    obtain ⟨eating, - | -, second⟩ := spot
    · simp only [Code.Ok, Bool.and_eq_true] at h
      exact Code.ok_ite h
    · simpa [hmoved] using h

theorem Code.ok_test_outside (hturn : s.currentTurn ≠ .mices)
    (hbowls : 1 ≤ s.bowlCount) (h : (Code.test x yes no).Ok me H none = true) :
    (if s.test x then yes else no).Ok me H none = true := by
  cases x with
  | bowls n =>
    simp only [Code.Ok, Bool.and_eq_true, Bool.or_eq_true, decide_eq_true_eq] at h
    by_cases hn : s.test (.bowls n) = true
    · have hpos : n ≠ 0 := by
        rintro rfl
        simp only [Kitchen.test, decide_eq_true_eq] at hn
        omega
      simpa [hn] using h.1.resolve_left hpos
    · simpa [hn] using h.2
  | turn tn => exact Code.ok_test_turn hturn h
  | miceWaiting | catsWaiting => exact Code.ok_ite (by simpa using h)

theorem Kitchen.Inv.bowlCount_eq (I : s.Inv (a.tally + r)) (hk : .kitchen ∈ a.holds) : s.bowlCount = (Spot.bowlsLeft
    ⟨a.eating, s.test .catsWaiting, decide (s.bowlCount + a.eating.toNat ≠ nFoodbowls)⟩ : Nat) := by
  have hbowls := (I.alone hk).2
  have hpos := I.notEmpty
  simp only [nFoodbowls] at hbowls ⊢
  cases he : a.eating with
  | false =>
    by_cases htwo : s.bowlCount = 2
    · simp [htwo, Spot.bowlsLeft]
    · simp only [he, Bool.toNat_false] at hbowls
      simp [htwo, Spot.bowlsLeft]
      omega
  | true =>
    simp only [he, Bool.toNat_true] at hbowls
    simp [Spot.bowlsLeft]
    omega

theorem Kitchen.Steps.test : s.Steps r ⟨me, H, e, .test x yes no⟩ := by
  intro I A t b h
  cases h
  have hcode := A.code
  refine ⟨I.same rfl I.turn rfl rfl rfl rfl rfl, ⟨A.nodup, fun hk he => absurd (A.inside rfl he) hk, ?_⟩,
    .inl ⟨rfl, rfl⟩⟩
  by_cases hk : .kitchen ∈ H
  · rw [Animal.spot_of_mem hk] at hcode ⊢
    exact Code.ok_test_inside I.turn (I.bowlCount_eq hk) rfl hcode
  · rw [Animal.spot_of_notMem hk] at hcode ⊢
    exact Code.ok_test_outside I.turn I.notEmpty hcode

theorem Kitchen.Inv.setCatsWaiting (I : s.Inv (a.tally + r)) (hk : .kitchen ∈ a.holds) (hp : p ≠ 0)
    (hholds : b.holds = a.holds) (heat : b.eating = a.eating) : (s.setCatsWaiting p).Inv (b.tally + r) := by
  rw [Animal.tally_congr hholds heat]
  refine ⟨I.panicked, I.turn, I.held, I.balanced, I.bowls, I.notEmpty, ?_, fun _ => hp⟩
  simp [Animal.tally, hk]

theorem Animal.spot_setCatsWaiting (hk : .kitchen ∈ a.holds) (hp : p ≠ 0) : a.spot (s.setCatsWaiting p) =
    some ⟨a.eating, true, decide (s.bowlCount + a.eating.toNat ≠ nFoodbowls)⟩ := by
  have hmoved : (s.setCatsWaiting p).test .catsWaiting = true := decide_eq_true hp
  rw [Animal.spot_of_mem hk, hmoved]
  rfl

@[simp] theorem setMiceWaiting_catsWaiting : (s.setMiceWaiting p).catsWaiting = s.catsWaiting := rfl

@[simp] theorem setMiceWaiting_bowlCount : (s.setMiceWaiting p).bowlCount = s.bowlCount := rfl

theorem Kitchen.Inv.setMiceWaiting (I : s.Inv (a.tally + r)) (hholds : b.holds = a.holds)
    (heat : b.eating = a.eating) : (s.setMiceWaiting p).Inv (b.tally + r) :=
  I.same rfl I.turn rfl rfl rfl hholds heat

theorem Animal.Ok.setMiceWaiting (A : a.Ok s) : a.Ok (s.setMiceWaiting p) := A.of_same (.inl ⟨rfl, rfl⟩)

theorem Kitchen.Steps.set {u : Update} : s.Steps r ⟨me, H, e, .set u next⟩ := by
  intro I A t b h
  have hcode := A.code
  have hleft : .kitchen ∉ H → e = true → me = .cat ∧ .catsWait ∈ H ∧ next.AtCv = true :=
    fun hk he => absurd (A.inside rfl he) hk
  cases h
  cases u with
  | catsWaitingInc => simp at hcode
  | catsWaitingDec =>
    by_cases hk : .kitchen ∈ H
    · rw [Animal.spot_of_mem hk] at hcode
      cases hw : s.test .catsWaiting with
      | true => simp [hw] at hcode
      | false =>
        have hnull : s.catsWaiting = 0 := by simpa [Kitchen.test] using hw
        have hmoved : ptrDec s.catsWaiting ≠ 0 := by
          rw [hnull]
          decide
        simp only [hw, Code.Ok] at hcode
        refine ⟨I.setCatsWaiting hk hmoved rfl rfl, ⟨A.nodup, hleft, ?_⟩, .inr hk⟩
        rw [Kitchen.update, Animal.spot_setCatsWaiting hk hmoved]
        exact hcode
    · rw [Animal.spot_of_notMem hk] at hcode
      simp at hcode
  | miceWaitingInc | miceWaitingDec =>
    have B : Animal.Ok s ⟨me, H, e, next⟩ := ⟨A.nodup, hleft, hcode⟩
    exact ⟨I.setMiceWaiting rfl rfl, B.setMiceWaiting, .inl ⟨setMiceWaiting_catsWaiting, setMiceWaiting_bowlCount⟩⟩
  | turn tn =>
    simp only [Code.Ok, Bool.and_eq_true, decide_eq_true_eq] at hcode
    exact ⟨I.same rfl hcode.1 rfl rfl rfl rfl rfl, ⟨A.nodup, hleft, hcode.2⟩, .inl ⟨rfl, rfl⟩⟩

theorem Kitchen.Steps.of_calm (hcalm : a.code.Calm s) : s.Steps r a := by
  obtain ⟨me, H, e, code⟩ := a
  cases code with
  | acquire l next =>
    by_cases hl : l = .kitchen
    · subst hl
      exact .acquireKitchen
    · exact .acquire hl
  | release l next =>
    by_cases hl : l = .kitchen
    · subst hl
      exact .releaseKitchen
    · exact .release hl
  | take next => exact .take hcalm
  | test x yes no => exact .test
  | set u next => exact .set
  | wait v l next | signal v l next | broadcast v l next => exact nomatch hcalm
  | sleep v l next | asleep v since l next | clocksleep next | panic p => exact fun _ A => absurd A.code (by simp)
  | ret => exact fun _ _ _ _ h => nomatch h

end Steps

end Invariant

/-! ## Runs -/

abbrev Sound (c : Crew Kitchen Animal) : Prop := c.Sound Animal.tally Kitchen.Inv Animal.Ok

section Runs

variable {c c' : Crew Kitchen Animal} {l : CrewLabel Animal Unit Empty} {tr : List (CrewLabel Animal Unit Empty)}

theorem sound_lockInit : Sound lockInit :=
  ⟨⟨rfl, nofun, fun _ => rfl, ⟨rfl, rfl⟩, rfl, by decide, fun _ _ => rfl, fun h => absurd rfl h⟩, nofun⟩

theorem sound_next (S : Sound c) (h : kitchenSys.Step c l c') (hcalm : Calm c l) : Sound c' := by
  cases l with
  | env e => exact e.elim
  | enter k =>
    obtain ⟨s, hs, rfl⟩ := CrewSys.step_enter h
    simp only [kitchenSys, animalEnter, Option.ite_none_right_eq_some] at hs
    obtain ⟨hk, hs⟩ := hs
    cases hs
    have hzero : k.tally = 0 := by
      rw [hk]
      funext x
      cases x <;> simp [Animal.tally]
    refine S.enter (by simpa [hzero] using S.sum) ?_ (fun _ _ _ K => K)
    rw [hk]
    exact ⟨List.nodup_nil, fun _ he => absurd he Bool.false_ne_true, start_ok k.me⟩
  | thread i u =>
    obtain ⟨a, s, b, ha, hact, rfl⟩ := CrewSys.step_thread h
    have hnext {r : Tally → Nat} (I : c.shared.Inv (a.tally + r)) (A : a.Ok c.shared) : c.shared.Next a r s b :=
      Kitchen.Steps.of_calm (hcalm a ha) I A s b hact
    refine S.thread ha (fun r _ I A => (hnext I A).inv) (fun r I A => (hnext I A).ok) ?_
    intro r k r' I A hr K
    refine K.of_same ((hnext I A).frame.imp_right fun hmine hk => ?_)
    -- two animals would hold the kitchen
    have hrest := (I.alone hmine).1
    simp [hr, Animal.tally, hk] at hrest

theorem Animal.tally_eating {a : Animal} (h : a.eating = true) : a.tally (.inside true) + a.tally .left = 1 := by
  by_cases hk : .kitchen ∈ a.holds <;> simp [Animal.tally, hk, h]

theorem countP_eating {threads : List Animal} :
    threads.countP Animal.eating = total Animal.tally threads (.inside true) + total Animal.tally threads .left := by
  induction threads with
  | nil => rfl
  | cons a threads ih =>
    simp only [total, List.map_cons, List.sum_cons, Pi.add_apply] at ih ⊢
    rw [List.countP_cons, ih]
    by_cases hk : .kitchen ∈ a.holds <;> cases he : a.eating <;> simp [Animal.tally, hk, he] <;> omega

theorem Sound.safe (S : Sound c) : Safe c := by
  have hbowls := S.sum.bowls
  have hpos := S.sum.notEmpty
  have hone : c.threads.countP Animal.eating ≤ 1 := by
    rw [countP_eating]
    simp only [nFoodbowls] at hbowls
    omega
  refine ⟨S.sum.panicked, ?_, ?_⟩
  · rw [countP_eating]
    omega
  · intro a ha b hb hea heb
    obtain ⟨i, hi⟩ := List.getElem?_of_mem ha
    obtain ⟨j, hj⟩ := List.getElem?_of_mem hb
    by_cases hij : i = j
    · subst hij
      obtain rfl : a = b := Option.some.inj (hi.symm.trans hj)
      rfl
    · obtain ⟨r, hr⟩ := exists_rest_eq (w := Animal.tally) hij hj
      have htotal : total Animal.tally c.threads = a.tally + (b.tally + r) := hr ▸ total_eq_rest hi
      have hta := Animal.tally_eating hea
      have htb := Animal.tally_eating heb
      rw [countP_eating, htotal] at hone
      simp only [Pi.add_apply] at hone
      omega

/-- Nobody holds the lock that goes with a condition variable. -/
theorem Animal.Ok.step_panics {s t : Kitchen} {a b : Animal} (A : a.Ok s) (hcv : a.code.AtCv = true)
    (h : a.step s = some (t, b)) : t.panicked ≠ none := by
  obtain ⟨me, H, e, code⟩ := a
  have hcode := A.code
  cases code with
  | wait v l next | signal v l next | broadcast v l next =>
    simp only [Code.Ok, decide_eq_true_eq] at hcode
    simp only [Animal.step, hcode, if_false] at h
    cases h
    exact nofun
  | _ => exact nomatch hcv

theorem Animal.Ok.take_last {s : Kitchen} {me : Species} {H : List LockName} {e : Bool} {next : Code}
    (A : Animal.Ok s ⟨me, H, e, .take next⟩) (h : s.bowlCount ≠ nFoodbowls) :
    .kitchen ∈ H ∧ e = false ∧ me = .mouse := by
  have hcode := A.code
  by_cases hk : .kitchen ∈ H
  · rw [Animal.spot_of_mem hk] at hcode
    cases e with
    | false =>
      have hsecond : decide (s.bowlCount + (false.toNat : Nat) ≠ nFoodbowls) = true := by simpa using h
      rw [hsecond] at hcode
      simp only [Code.Ok, decide_eq_true_eq] at hcode
      exact ⟨hk, rfl, hcode⟩
    | true => simp at hcode
  · rw [Animal.spot_of_notMem hk] at hcode
    simp at hcode

theorem calm_of_safe (S : Sound c) (h : kitchenSys.Step c l c') (hsafe : Safe c') : Calm c l := by
  cases l with
  | env e => exact e.elim
  | enter k => trivial
  | thread i u =>
    obtain ⟨a, s, b, ha, hact, rfl⟩ := CrewSys.step_thread h
    intro a' ha'
    obtain rfl : a = a' := Option.some.inj (ha.symm.trans ha')
    have A := S.each a (List.mem_of_getElem? ha)
    have hcv : a.code.AtCv = false := by
      by_contra hcv
      exact A.step_panics (by simpa using hcv) hact hsafe.panicked
    obtain ⟨me, H, e, code⟩ := a
    cases code with
    | take next =>
      by_contra hlast
      have I : c.shared.Inv (Animal.tally ⟨me, H, e, .take next⟩ + rest Animal.tally c.threads i) :=
        total_eq_rest (w := Animal.tally) ha ▸ S.sum
      obtain ⟨hk, rfl, rfl⟩ := A.take_last hlast
      have hleft : rest Animal.tally c.threads i .left ≠ 0 := by
        intro hzero
        have hbowls := (I.alone hk).2
        simp only [hzero, Bool.toNat_false] at hbowls
        exact hlast (show c.shared.bowlCount = nFoodbowls by omega)
      obtain ⟨j, cat, hji, hj, hcat⟩ := exists_of_rest_ne_zero hleft
      have hcat : cat.eating = true ∧ .kitchen ∉ cat.holds := by simpa [Animal.tally] using hcat
      have hme := ((S.each cat (List.mem_of_getElem? hj)).left hcat.2 hcat.1).1
      -- the mouse and the cat that has left eat at the same time
      cases hact
      have hj' : (c.threads.set i ⟨.mouse, H, true, next⟩)[j]? = some cat := by
        simpa [List.getElem?_set, Ne.symm hji] using hj
      have hi := (List.getElem?_eq_some_iff.1 ha).1
      have hmouse : ⟨.mouse, H, true, next⟩ ∈ c.threads.set i ⟨.mouse, H, true, next⟩ := List.mem_set hi _
      have hkind := hsafe.kind _ (List.mem_of_getElem? hj') _ hmouse hcat.1 rfl
      exact nomatch hme.symm.trans hkind
    | _ => exact hcv

theorem run_safe_iff_calm : Run SafeStep lockInit tr c ↔ Run CalmStep lockInit tr c := by
  refine Run.iff_of_invariant (I := Sound) sound_lockInit (fun S h => sound_next S h.1 h.2) ?_
  intro c l c' S
  constructor
  · intro h
    exact ⟨h.1, calm_of_safe S h.1 h.2⟩
  · intro h
    exact ⟨h.1, (sound_next S h.1 h.2).safe⟩

end Runs

instance (s : Kitchen) : (code : Code) → Decidable (code.Calm s)
  | .take _ => inferInstanceAs (Decidable (_ = _))
  | .acquire _ _ | .release _ _ | .wait _ _ _ | .sleep _ _ _ | .asleep _ _ _ _ | .signal _ _ _
  | .broadcast _ _ _ | .set _ _ | .clocksleep _ | .test _ _ _ | .panic _ | .ret => inferInstanceAs (Decidable (_ = false))

instance (c : Crew Kitchen Animal) : (l : CrewLabel Animal Unit Empty) → Decidable (Calm c l)
  | .thread _ _ => inferInstanceAs (Decidable (∀ _, _))
  | .env e => e.elim
  | .enter _ => inferInstanceAs (Decidable True)

/-- A cat eats and has left the kitchen, and a mouse is in there. -/
theorem run_safe_mouse_waits : ∃ tr c, Run SafeStep lockInit tr c ∧
    c.threads.countP Animal.eating = 1 ∧ ∃ a ∈ c.threads, a.me = .mouse ∧ .kitchen ∈ a.holds := by
  obtain ⟨tr, c, hrun, hc⟩ := kitchenSys.exists_run Calm
    (fun c => c.threads.countP Animal.eating = 1 ∧ ∃ a ∈ c.threads, a.me = .mouse ∧ .kitchen ∈ a.holds) lockInit
    (.enter ⟨.cat, [], false, catlock⟩ :: .enter ⟨.mouse, [], false, mouselock⟩ ::
      (turns 2 1 ++ turns 18 0 ++ turns 3 1))
    (by decide +kernel)
  exact ⟨tr, c, run_safe_iff_calm.2 hrun, hc⟩

end Os161.Catlock
