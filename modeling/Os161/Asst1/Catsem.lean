import Mathlib.Algebra.Group.Pi.Basic
import Os161.Lib.Crew

/-!
# Cats and mice with semaphores

`catsem` and `mousesem` of `kern/asst1/catsem.c`. Every `P` and `V` is a step of its own, and so is
what stands between them in a section of `mutex` or `dish_sem`. A semaphore is its count.

An animal that finds all dishes available admits itself and then one more of its kind. When an
animal leaves it hands its place on: to the other kind if somebody of it waits, else to its own
kind, else it makes all dishes available. Both animals of a pair do this, at any time after their
own meal.

`no_cat_eat`, `no_mouse_eat` and what the driver waits for (`cats_done_eating`, `mice_done_eating`
and `all_done`) are left out: the animals never read them. Their sections of `mutex` are steps
nevertheless.
-/
namespace Os161.Catsem

open Lib

inductive Species where
  | cat | mouse
  deriving DecidableEq, Repr

def Species.other : Species → Species
  | .cat => .mouse
  | .mouse => .cat

inductive Dish where
  | one | two
  deriving DecidableEq, Repr

/-- What admission and the dishes depend on; `sem` are `cat_sem` and `mouse_sem`. -/
structure Floor where
  sem : Species → Nat
  allDishesAvailable : Bool
  dish1Busy : Bool
  dish2Busy : Bool
  panicked : Bool

/-- `waitCount` are `cats_wait_count` and `mice_wait_count`. -/
structure Kitchen where
  mutex : Nat
  dishSem : Nat
  done : Nat
  waitCount : Species → Int
  floor : Floor

/-- Where an animal is. The variables `first_cat_eating` and `another_cat_eating`, or those of a
mouse, and `my_dish` are carried along as long as they are needed. -/
inductive Pc where
  | start
  | arrive
  /-- the first animal, before `V` on the semaphore of its kind -/
  | letIn
  | count (first : Bool)
  | countV (first : Bool)
  /-- before `P` on the semaphore of its kind -/
  | enter (first : Bool)
  | pause (first : Bool)
  | pauseV (first : Bool)
  /-- the first animal, before it looks whether another one waits -/
  | look
  | invite
  | inviteV
  | lookV (another : Bool)
  | dish (first another : Bool)
  | take (first another : Bool)
  | takeV (first another : Bool) (d : Dish)
  | eat (first another : Bool) (d : Dish)
  | put (first another : Bool) (d : Dish)
  | putV (first another : Bool)
  | uncount (first another : Bool)
  | uncounted (first another : Bool)
  | uncountV (first another : Bool)
  /-- before `P(done)` or `V(done)` -/
  | leave (first another : Bool)
  /-- the section that sets `no_cat_eat` or `no_mouse_eat` -/
  | quiet
  | quietV
  /-- the section that hands on -/
  | pass
  | choose
  | give (sp : Species)
  | openAll
  | passV
  /-- the section that tells the driver -/
  | sign
  | signV
  | gone
  deriving DecidableEq, Repr

structure Animal where
  me : Species
  pc : Pc
  deriving DecidableEq, Repr

def pMutex (s : Kitchen) : Option Kitchen :=
  if 0 < s.mutex then some { s with mutex := s.mutex - 1 } else none

def vMutex (s : Kitchen) : Kitchen := { s with mutex := s.mutex + 1 }

def pDish (s : Kitchen) : Option Kitchen :=
  if 0 < s.dishSem then some { s with dishSem := s.dishSem - 1 } else none

def vDish (s : Kitchen) : Kitchen := { s with dishSem := s.dishSem + 1 }

def Floor.vSem (f : Floor) (sp : Species) : Floor := { f with sem := Function.update f.sem sp (f.sem sp + 1) }

def Floor.pSem (f : Floor) (sp : Species) : Floor := { f with sem := Function.update f.sem sp (f.sem sp - 1) }

def Floor.setDish (f : Floor) (d : Dish) (busy : Bool) : Floor :=
  match d with
  | .one => { f with dish1Busy := busy }
  | .two => { f with dish2Busy := busy }

/-- The dish that an animal takes. With both busy, a cat panics and a mouse fails its assertion. -/
def Floor.freeDish (f : Floor) : Option Dish :=
  if f.dish1Busy = false then some .one
  else if f.dish2Busy then none
  else some .two

def addWaitCount (s : Kitchen) (sp : Species) (n : Int) : Kitchen :=
  { s with waitCount := Function.update s.waitCount sp (s.waitCount sp + n) }

/-- Where an animal goes from the test of the section that hands on. -/
def choose (s : Kitchen) (me : Species) : Pc :=
  if 0 < s.waitCount me.other then .give me.other
  else if 0 < s.waitCount me then .give me
  else .openAll

/-- `catsem` and `mousesem` are the same up to the names of their variables. -/
def animal (me : Species) (s : Kitchen) : Pc → Option (Kitchen × Pc)
  | .start => (pMutex s).map (·, .arrive)
  | .arrive =>
    if s.floor.allDishesAvailable then
      some ({ s with floor := { s.floor with allDishesAvailable := false } }, .letIn)
    else some (s, .count false)
  | .letIn => some ({ s with floor := s.floor.vSem me }, .count true)
  | .count first => some (addWaitCount s me 1, .countV first)
  | .countV first => some (vMutex s, .enter first)
  | .enter first =>
    if 0 < s.floor.sem me then some ({ s with floor := s.floor.pSem me }, .pause first) else none
  | .pause first => (pMutex s).map (·, .pauseV first)
  | .pauseV first => some (vMutex s, if first then .look else .dish false false)
  | .look => (pMutex s).map (·, .invite)
  | .invite => some (s, if 0 < s.waitCount me then .inviteV else .lookV false)
  | .inviteV => some ({ s with floor := s.floor.vSem me }, .lookV true)
  | .lookV another => some (vMutex s, .dish true another)
  | .dish first another => (pDish s).map (·, .take first another)
  | .take first another =>
    match s.floor.freeDish with
    | none => some ({ s with floor := { s.floor with panicked := true } }, .gone)
    | some d => some ({ s with floor := s.floor.setDish d true }, .takeV first another d)
  | .takeV first another d => some (vDish s, .eat first another d)
  | .eat first another d => (pDish s).map (·, .put first another d)
  | .put first another d => some ({ s with floor := s.floor.setDish d false }, .putV first another)
  | .putV first another => some (vDish s, .uncount first another)
  | .uncount first another => (pMutex s).map (·, .uncounted first another)
  | .uncounted first another => some (addWaitCount s me (-1), .uncountV first another)
  | .uncountV first another => some (vMutex s, .leave first another)
  | .leave true true => if 0 < s.done then some ({ s with done := s.done - 1 }, .quiet) else none
  | .leave true false => some (s, .quiet)
  | .leave false _ => some ({ s with done := s.done + 1 }, .quiet)
  | .quiet => (pMutex s).map (·, .quietV)
  | .quietV => some (vMutex s, .pass)
  | .pass => (pMutex s).map (·, .choose)
  | .choose => some (s, choose s me)
  | .give sp => some ({ s with floor := s.floor.vSem sp }, .passV)
  | .openAll => some ({ s with floor := { s.floor with allDishesAvailable := true } }, .passV)
  | .passV => some (vMutex s, .sign)
  | .sign => (pMutex s).map (·, .signV)
  | .signV => some (vMutex s, .gone)
  | .gone => none

def catsem : Kitchen → Pc → Option (Kitchen × Pc) := animal .cat
def mousesem : Kitchen → Pc → Option (Kitchen × Pc) := animal .mouse

def animalAct (s : Kitchen) (a : Animal) (_ : Unit) : Option (Kitchen × Animal) :=
  match a.me with
  | .cat => (catsem s a.pc).map fun p => (p.1, ⟨.cat, p.2⟩)
  | .mouse => (mousesem s a.pc).map fun p => (p.1, ⟨.mouse, p.2⟩)

def animalEnter (s : Kitchen) (a : Animal) : Option Kitchen := if a.pc = .start then some s else none

def kitchenSys : CrewSys Kitchen Animal Unit Empty := ⟨animalAct, fun _ e => e.elim, animalEnter⟩

def initCatmousesem : Crew Kitchen Animal := ⟨⟨1, 1, 0, fun _ => 0, ⟨fun _ => 0, true, false, false, false⟩⟩, []⟩

/-! ## Admission -/

/-- What the place of an animal means for admission: whether it may still admit another animal,
whether it is admitted (or about to admit itself) without a dish, and its dish. -/
structure Place where
  inviting : Nat
  admitted : Nat
  dish : Option Dish
  deriving DecidableEq, Repr

def Pc.place : Pc → Place
  | .letIn => ⟨1, 1, none⟩
  | .count first => ⟨first.toNat, 0, none⟩
  | .countV first => ⟨first.toNat, 0, none⟩
  | .enter first => ⟨first.toNat, 0, none⟩
  | .pause first => ⟨first.toNat, 1, none⟩
  | .pauseV first => ⟨first.toNat, 1, none⟩
  | .look => ⟨1, 1, none⟩
  | .invite => ⟨1, 1, none⟩
  | .inviteV => ⟨1, 1, none⟩
  | .lookV _ => ⟨0, 1, none⟩
  | .dish _ _ => ⟨0, 1, none⟩
  | .take _ _ => ⟨0, 1, none⟩
  | .takeV _ _ d => ⟨0, 0, some d⟩
  | .eat _ _ d => ⟨0, 0, some d⟩
  | .put _ _ d => ⟨0, 0, some d⟩
  | _ => ⟨0, 0, none⟩

/-- The last step of the section that hands on. -/
inductive Handover where
  | give (sp : Species)
  | openAll
  deriving DecidableEq, Repr

def Pc.handover : Pc → Option Handover
  | .give sp => some (.give sp)
  | .openAll => some .openAll
  | _ => none

/-- What the steps of an animal do to admission and the dishes. -/
inductive FloorStep (me : Species) (f : Floor) : Option Handover → Place → Floor → Place → Prop
  | same {p : Place} : FloorStep me f none p f p
  | arrive (h : f.allDishesAvailable = true) :
      FloorStep me f none ⟨0, 0, none⟩ { f with allDishesAvailable := false } ⟨1, 1, none⟩
  | letIn : FloorStep me f none ⟨1, 1, none⟩ (f.vSem me) ⟨1, 0, none⟩
  | enter {n : Nat} (h : 0 < f.sem me) : FloorStep me f none ⟨n, 0, none⟩ (f.pSem me) ⟨n, 1, none⟩
  | alone : FloorStep me f none ⟨1, 1, none⟩ f ⟨0, 1, none⟩
  | invite : FloorStep me f none ⟨1, 1, none⟩ (f.vSem me) ⟨0, 1, none⟩
  | bothBusy (h : f.freeDish = none) : FloorStep me f none ⟨0, 1, none⟩ { f with panicked := true } ⟨0, 0, none⟩
  | take {d : Dish} (h : f.freeDish = some d) :
      FloorStep me f none ⟨0, 1, none⟩ (f.setDish d true) ⟨0, 0, some d⟩
  | put {d : Dish} : FloorStep me f none ⟨0, 0, some d⟩ (f.setDish d false) ⟨0, 0, none⟩
  | give {sp : Species} : FloorStep me f (some (.give sp)) ⟨0, 0, none⟩ (f.vSem sp) ⟨0, 0, none⟩
  | openAll : FloorStep me f (some .openAll) ⟨0, 0, none⟩ { f with allDishesAvailable := true } ⟨0, 0, none⟩

section Steps

variable {me : Species} {s t : Kitchen} {pc pc' : Pc}

theorem pMutex_map {q : Pc} (h : (pMutex s).map (·, q) = some (t, pc')) :
    0 < s.mutex ∧ t = { s with mutex := s.mutex - 1 } ∧ pc' = q := by
  unfold pMutex at h
  split at h
  · next hpos =>
    cases h
    exact ⟨hpos, rfl, rfl⟩
  · exact nomatch h

theorem pDish_map {q : Pc} (h : (pDish s).map (·, q) = some (t, pc')) :
    0 < s.dishSem ∧ t = { s with dishSem := s.dishSem - 1 } ∧ pc' = q := by
  unfold pDish at h
  split at h
  · next hpos =>
    cases h
    exact ⟨hpos, rfl, rfl⟩
  · exact nomatch h

theorem choose_place : (choose s me).place = ⟨0, 0, none⟩ := by
  unfold choose
  split
  · rfl
  · split <;> rfl

theorem animal_floor (h : animal me s pc = some (t, pc')) :
    FloorStep me s.floor pc.handover pc.place t.floor pc'.place := by
  cases pc with
  | start | pause | look | uncount | quiet | pass | sign =>
    obtain ⟨-, rfl, rfl⟩ := pMutex_map h
    exact .same
  | arrive =>
    simp only [animal] at h
    split at h
    · next havail =>
      cases h
      exact .arrive havail
    · cases h
      exact .same
  | letIn =>
    cases h
    exact .letIn
  | count | countV | lookV | takeV | putV | uncounted | uncountV | quietV | passV | signV =>
    cases h
    exact .same
  | enter =>
    simp only [animal] at h
    split at h
    · next hpos =>
      cases h
      exact .enter hpos
    · exact nomatch h
  | pauseV first =>
    cases h
    cases first <;> exact .same
  | invite =>
    cases h
    split
    · exact .same
    · exact .alone
  | inviteV =>
    cases h
    exact .invite
  | dish | eat =>
    obtain ⟨-, rfl, rfl⟩ := pDish_map h
    exact .same
  | take =>
    simp only [animal] at h
    split at h
    · next hfree =>
      cases h
      exact .bothBusy hfree
    · next hfree =>
      cases h
      exact .take hfree
  | put =>
    cases h
    exact .put
  | leave first another =>
    cases first with
    | false =>
      cases h
      exact .same
    | true =>
      cases another with
      | false =>
        cases h
        exact .same
      | true =>
        simp only [animal] at h
        split at h
        · cases h
          exact .same
        · exact nomatch h
  | choose =>
    cases h
    have hplace : (choose s me).place = ⟨0, 0, none⟩ := choose_place
    exact hplace ▸ .same
  | give =>
    cases h
    exact .give
  | openAll =>
    cases h
    exact .openAll
  | gone => exact nomatch h

end Steps

end Os161.Catsem
