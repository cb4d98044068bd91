import Os161.Asst1.Catsem

/-!
# Safety of the cats and mice with semaphores

A place is a count of `cat_sem` or `mouse_sem` or an animal that has taken one and not given back
its dish. As long as an animal only hands on when there is room, at most two places are taken, all
by one kind, and every dish is with one animal. This needs no more of the sections of `mutex` than
that the wait counts are right: who hands on to somebody has seen somebody who waits, so all dishes
are not available.
-/
namespace Os161.Catsem

open Lib

/-! ## Places -/

inductive Tally where
  | inviting
  | admitted (sp : Species)
  | eats (sp : Species) (d : Dish)
  deriving DecidableEq, Repr

def tally (me : Species) (p : Place) : Tally → Nat
  | .inviting => p.inviting
  | .admitted sp => if me = sp then p.admitted else 0
  | .eats sp d => if me = sp ∧ p.dish = some d then 1 else 0

def Animal.tally (a : Animal) : Tally → Nat := Catsem.tally a.me a.pc.place

def Floor.places (f : Floor) (n : Tally → Nat) (sp : Species) : Nat :=
  f.sem sp + n (.admitted sp) + n (.eats sp .one) + n (.eats sp .two)

def Floor.allPlaces (f : Floor) (n : Tally → Nat) : Nat := f.places n .cat + f.places n .mouse + n .inviting

structure Floor.Inv (f : Floor) (n : Tally → Nat) : Prop where
  panicked : f.panicked = false
  two : f.allPlaces n ≤ 2
  kind : f.places n .cat = 0 ∨ f.places n .mouse = 0
  free : f.allDishesAvailable = true → f.allPlaces n = 0
  dish1 : f.dish1Busy.toNat = n (.eats .cat .one) + n (.eats .mouse .one)
  dish2 : f.dish2Busy.toNat = n (.eats .cat .two) + n (.eats .mouse .two)

/-- There is a place to hand on: nobody of the other kind has one, and at most one place is taken;
all dishes are made available when no place is taken. -/
def Floor.Room (f : Floor) (n : Tally → Nat) : Handover → Prop
  | .give sp => f.places n sp.other = 0 ∧ f.allPlaces n ≤ 1
  | .openAll => f.allPlaces n = 0

section Places

variable {me sp : Species} {f f' : Floor} {n r : Tally → Nat} {p p' : Place} {d : Dish}

@[simp] theorem Species.self_ne_other : (me = me.other) = False := by cases me <;> simp [Species.other]
@[simp] theorem Species.other_ne_self : (me.other = me) = False := by cases me <;> simp [Species.other]
@[simp] theorem Species.other_other : me.other.other = me := by cases me <;> rfl

theorem Species.eq_or_eq_other (me sp : Species) : sp = me ∨ sp = me.other := by
  cases me <;> cases sp <;> simp [Species.other]

@[simp] theorem tally_inviting : tally me p .inviting = p.inviting := rfl
@[simp] theorem tally_admitted : tally me p (.admitted me) = p.admitted := by simp [tally]
@[simp] theorem tally_admitted_other : tally me p (.admitted me.other) = 0 := by simp [tally]
@[simp] theorem tally_eats : tally me p (.eats me d) = if p.dish = some d then 1 else 0 := by simp [tally]
@[simp] theorem tally_eats_other : tally me p (.eats me.other d) = 0 := by simp [tally]

@[simp] theorem Floor.vSem_sem : (f.vSem me).sem me = f.sem me + 1 := by simp [Floor.vSem]
@[simp] theorem Floor.vSem_sem_other : (f.vSem me).sem me.other = f.sem me.other := by simp [Floor.vSem]
@[simp] theorem Floor.vSem_other_sem : (f.vSem me.other).sem me = f.sem me := by simp [Floor.vSem]
@[simp] theorem Floor.pSem_sem : (f.pSem me).sem me = f.sem me - 1 := by simp [Floor.pSem]
@[simp] theorem Floor.pSem_sem_other : (f.pSem me).sem me.other = f.sem me.other := by simp [Floor.pSem]
@[simp] theorem Floor.vSem_dish1Busy : (f.vSem sp).dish1Busy = f.dish1Busy := rfl
@[simp] theorem Floor.vSem_dish2Busy : (f.vSem sp).dish2Busy = f.dish2Busy := rfl
@[simp] theorem Floor.pSem_dish1Busy : (f.pSem sp).dish1Busy = f.dish1Busy := rfl
@[simp] theorem Floor.pSem_dish2Busy : (f.pSem sp).dish2Busy = f.dish2Busy := rfl
@[simp] theorem Floor.setDish_allDishesAvailable {b : Bool} :
    (f.setDish d b).allDishesAvailable = f.allDishesAvailable := by cases d <;> rfl
@[simp] theorem Floor.setDish_panicked {b : Bool} : (f.setDish d b).panicked = f.panicked := by
  cases d <;> rfl
@[simp] theorem Floor.setDish_sem {b : Bool} : (f.setDish d b).sem = f.sem := by cases d <;> rfl

theorem Floor.inv_iff (me : Species) : f.Inv n ↔ f.panicked = false ∧
    f.places n me + f.places n me.other + n .inviting ≤ 2 ∧ (f.places n me = 0 ∨ f.places n me.other = 0) ∧
    (f.allDishesAvailable = true → f.places n me + f.places n me.other + n .inviting = 0) ∧
    f.dish1Busy.toNat = n (.eats me .one) + n (.eats me.other .one) ∧
    f.dish2Busy.toNat = n (.eats me .two) + n (.eats me.other .two) := by
  cases me with
  | cat =>
    exact ⟨fun I => ⟨I.panicked, I.two, I.kind, I.free, I.dish1, I.dish2⟩,
      fun ⟨hpan, htwo, hkind, hfree, h1, h2⟩ => ⟨hpan, htwo, hkind, hfree, h1, h2⟩⟩
  | mouse =>
    have hall : f.places n .mouse + f.places n .cat + n .inviting = f.allPlaces n := by
      simp only [Floor.allPlaces]
      omega
    simp only [Species.other, hall, Nat.add_comm (n (.eats .mouse _))]
    exact ⟨fun I => ⟨I.panicked, I.two, I.kind.symm, I.free, I.dish1, I.dish2⟩,
      fun ⟨hpan, htwo, hkind, hfree, h1, h2⟩ => ⟨hpan, htwo, hkind.symm, hfree, h1, h2⟩⟩

theorem Floor.room_give_iff (me : Species) : f.Room n (.give sp) ↔
    f.places n sp.other = 0 ∧ f.places n me + f.places n me.other + n .inviting ≤ 1 := by
  cases me with
  | cat => exact Iff.rfl
  | mouse =>
    simp only [Floor.Room, Floor.allPlaces, Species.other]
    omega

theorem Floor.room_openAll_iff (me : Species) : f.Room n .openAll ↔
    f.places n me + f.places n me.other + n .inviting = 0 := by
  cases me with
  | cat => exact Iff.rfl
  | mouse =>
    simp only [Floor.Room, Floor.allPlaces, Species.other]
    omega

theorem Floor.freeDish_eq_none (h : f.freeDish = none) : f.dish1Busy = true ∧ f.dish2Busy = true := by
  grind [Floor.freeDish]

theorem Floor.freeDish_eq_some (h : f.freeDish = some d) :
    d = .one ∧ f.dish1Busy = false ∨ d = .two ∧ f.dish2Busy = false := by
  grind [Floor.freeDish]

/-- A step that takes no new place keeps the invariant, when it keeps the dishes right. -/
theorem Floor.Inv.of_le {n' : Tally → Nat} (I : f.Inv n) (me : Species) (hpan : f'.panicked = false)
    (havail : f'.allDishesAvailable = true → f.allDishesAvailable = true)
    (hme : f'.places n' me ≤ f.places n me ∨ 0 < f.places n me) (hother : f'.places n' me.other = f.places n me.other)
    (hsum : f'.places n' me + n' .inviting ≤ f.places n me + n .inviting)
    (h1 : f'.dish1Busy.toNat = n' (.eats me .one) + n' (.eats me.other .one))
    (h2 : f'.dish2Busy.toNat = n' (.eats me .two) + n' (.eats me.other .two)) : f'.Inv n' := by
  obtain ⟨-, htwo, hkind, hfree, -, -⟩ := (Floor.inv_iff me).1 I
  refine (Floor.inv_iff me).2 ⟨hpan, by omega, by omega, fun h => ?_, h1, h2⟩
  have h0 := hfree (havail h)
  omega

theorem Floor.Inv.step {h : Option Handover} (I : f.Inv (tally me p + r))
    (hroom : ∀ a, h = some a → f.Room (tally me p + r) a)
    (hfull : ∀ sp, h = some (.give sp) → f.allDishesAvailable = false) (hstep : FloorStep me f h p f' p') :
    f'.Inv (tally me p' + r) := by
  obtain ⟨hpan, htwo, hkind, hfree, h1, h2⟩ := (Floor.inv_iff me).1 I
  cases hstep with
  | same => exact I
  | arrive havail =>
    have h0 := hfree havail
    simp [Floor.places] at h0 h1 h2
    refine (Floor.inv_iff me).2 ⟨hpan, ?_, ?_, (fun h => nomatch h), by simpa using h1, by simpa using h2⟩
    all_goals simp [Floor.places]
    all_goals omega
  | letIn | enter hpos | invite =>
    refine I.of_le me hpan id ?_ ?_ ?_ (by simpa using h1) (by simpa using h2)
    all_goals simp [Floor.places]
    all_goals omega
  | alone =>
    refine I.of_le me hpan id ?_ ?_ ?_ (by simpa using h1) (by simpa using h2)
    all_goals simp [Floor.places]
  | bothBusy hnone =>
    -- the dishes are with two animals that have a place, apart from this one
    have hbusy := Floor.freeDish_eq_none hnone
    simp [hbusy, Floor.places] at htwo h1 h2
    omega
  | take hsome =>
    cases Floor.freeDish_eq_some hsome with
    | inl hd =>
      obtain ⟨rfl, hfree1⟩ := hd
      simp [hfree1] at h1 h2
      refine I.of_le me hpan id ?_ ?_ ?_ ?_ ?_
      all_goals simp [Floor.places, Floor.setDish]
      all_goals omega
    | inr hd =>
      obtain ⟨rfl, hfree2⟩ := hd
      simp [hfree2] at h1 h2
      refine I.of_le me hpan id ?_ ?_ ?_ ?_ ?_
      all_goals simp [Floor.places, Floor.setDish]
      all_goals omega
  | @put d =>
    have hle1 := Bool.toNat_le f.dish1Busy
    have hle2 := Bool.toNat_le f.dish2Busy
    cases d with
    | one | two =>
      simp at h1 h2
      refine I.of_le me hpan id ?_ ?_ ?_ ?_ ?_
      all_goals simp [Floor.places, Floor.setDish]
      all_goals omega
  | @give sp =>
    have hgive := (Floor.room_give_iff me).1 (hroom _ rfl)
    have havail : (f.vSem sp).allDishesAvailable = false := hfull sp rfl
    suffices (f.vSem sp).places (tally me ⟨0, 0, none⟩ + r) me +
        (f.vSem sp).places (tally me ⟨0, 0, none⟩ + r) me.other + (tally me ⟨0, 0, none⟩ + r) .inviting ≤ 2 ∧
        ((f.vSem sp).places (tally me ⟨0, 0, none⟩ + r) me = 0 ∨
          (f.vSem sp).places (tally me ⟨0, 0, none⟩ + r) me.other = 0) from
      (Floor.inv_iff me).2 ⟨hpan, this.1, this.2, fun h => by simp [havail] at h, h1, h2⟩
    cases Species.eq_or_eq_other me sp with
    | inl h | inr h =>
      subst h
      simp [Floor.places] at hgive ⊢
      omega
  | openAll =>
    have h0 := (Floor.room_openAll_iff me).1 (hroom _ rfl)
    exact (Floor.inv_iff me).2 ⟨hpan, htwo, hkind, fun _ => h0, h1, h2⟩

end Places

/-! ## The sections of `mutex` -/

/-- What an animal is doing in a section of `mutex`. -/
inductive Section where
  /-- it has looked at `all_dishes_available` and is not counted yet -/
  | arriving
  /-- it is about to hand on -/
  | handing (h : Handover)
  | other
  deriving DecidableEq, Repr

def Pc.section : Pc → Option Section
  | .letIn => some .arriving
  | .count _ => some .arriving
  | .give sp => some (.handing (.give sp))
  | .openAll => some (.handing .openAll)
  | .arrive => some .other
  | .countV _ => some .other
  | .pauseV _ => some .other
  | .invite => some .other
  | .inviteV => some .other
  | .lookV _ => some .other
  | .uncounted _ _ => some .other
  | .uncountV _ _ => some .other
  | .quietV => some .other
  | .choose => some .other
  | .passV => some .other
  | .signV => some .other
  | _ => none

/-- Does `cats_wait_count` or `mice_wait_count` count the animal? -/
def Pc.counted : Pc → Nat
  | .countV _ => 1
  | .enter _ => 1
  | .pause _ => 1
  | .pauseV _ => 1
  | .look => 1
  | .invite => 1
  | .inviteV => 1
  | .lookV _ => 1
  | .dish _ _ => 1
  | .take _ _ => 1
  | .takeV _ _ _ => 1
  | .eat _ _ _ => 1
  | .put _ _ _ => 1
  | .putV _ _ => 1
  | .uncount _ _ => 1
  | .uncounted _ _ => 1
  | _ => 0

inductive Entry where
  | section (x : Section)
  | counted (sp : Species)
  deriving DecidableEq, Repr

def Animal.entry (a : Animal) : Entry → Nat
  | .section x => if a.pc.section = some x then 1 else 0
  | .counted sp => if a.me = sp then a.pc.counted else 0

def inSections (n : Entry → Nat) : Nat :=
  n (.section .arriving) + n (.section (.handing (.give .cat))) + n (.section (.handing (.give .mouse))) +
    n (.section (.handing .openAll)) + n (.section .other)

/-- The sections exclude each other, the wait counts are right, and what an animal has read in its
section stays true in it. -/
structure Kitchen.Books (s : Kitchen) (n : Entry → Nat) : Prop where
  one : s.mutex + inSections n = 1
  counts : ∀ sp, s.waitCount sp = n (.counted sp)
  free : s.floor.allDishesAvailable = true → n (.section .arriving) = 0 ∧ ∀ sp, n (.counted sp) = 0
  give : ∀ sp, 0 < n (.section (.handing (.give sp))) → 0 < s.waitCount sp
  openAll : 0 < n (.section (.handing .openAll)) → ∀ sp, s.waitCount sp ≤ 0

section Sections

variable {me sp : Species} {s t : Kitchen} {pc pc' : Pc} {r : Entry → Nat}

theorem inSections_add {n : Entry → Nat} : inSections (n + r) = inSections n + inSections r := by
  simp only [inSections, Pi.add_apply]
  omega

theorem inSections_entry : inSections (Animal.entry ⟨me, pc⟩) = if pc.section = none then 0 else 1 := by
  simp only [inSections, Animal.entry]
  cases pc.section with
  | none => rfl
  | some x =>
    cases x with
    | handing h => cases h with
      | give sp => cases sp <;> simp
      | openAll => simp
    | _ => simp

section

variable (B : s.Books (Animal.entry ⟨me, pc⟩ + r))
include B

theorem Kitchen.Books.alone (h : pc.section ≠ none) : s.mutex = 0 ∧ ∀ x, r (.section x) = 0 := by
  have hone := B.one
  simp only [inSections_add, inSections_entry, h, if_false] at hone
  refine ⟨by omega, fun x => ?_⟩
  simp only [inSections] at hone
  cases x with
  | handing a => cases a with
    | give sp => cases sp <;> omega
    | openAll => omega
  | _ => omega

theorem Kitchen.Books.quiet
    (hmutex : t.mutex + (if pc'.section = none then 0 else 1) = s.mutex + if pc.section = none then 0 else 1)
    (hwait : t.waitCount = s.waitCount)
    (havail : t.floor.allDishesAvailable = s.floor.allDishesAvailable) (hcount : pc'.counted = pc.counted)
    (hsec : pc'.section = none ∨ pc'.section = some .other) : t.Books (Animal.entry ⟨me, pc'⟩ + r) := by
  have hone := B.one
  simp only [inSections_add, inSections_entry] at hone
  have hcounted : ∀ sp, Animal.entry ⟨me, pc'⟩ (.counted sp) = Animal.entry ⟨me, pc⟩ (.counted sp) := by
    simp [Animal.entry, hcount]
  have hsec' : ∀ x, x ≠ .other → Animal.entry ⟨me, pc'⟩ (.section x) = 0 := by
    intro x hx
    cases hsec with
    | inl h => simp [Animal.entry, h]
    | inr h => simp [Animal.entry, h, hx.symm]
  have hpos : ∀ x, x ≠ .other → 0 < (Animal.entry ⟨me, pc'⟩ + r) (.section x) →
      0 < (Animal.entry ⟨me, pc⟩ + r) (.section x) := by
    intro x hx h
    simp only [Pi.add_apply, hsec' x hx] at h ⊢
    omega
  refine ⟨?_, ?_, ?_, ?_, ?_⟩
  · simp only [inSections_add, inSections_entry]
    omega
  · intro sp
    simpa [hwait, hcounted] using B.counts sp
  · intro h
    obtain ⟨harr, hc⟩ := B.free (havail ▸ h)
    simp only [Pi.add_apply] at harr
    exact ⟨by simp only [Pi.add_apply, hsec' _ (by simp : Section.arriving ≠ .other)]; omega,
      fun sp => by simpa [hcounted] using hc sp⟩
  · intro sp h
    exact hwait ▸ B.give sp (hpos _ (by simp) h)
  · intro h
    exact hwait ▸ B.openAll (hpos _ (by simp) h)

/-- A step inside a section, of which it remains to say what the animal knows. -/
theorem Kitchen.Books.inside (h : pc.section ≠ none) (h' : pc'.section ≠ none) (hmutex : t.mutex = s.mutex)
    (hcounts : ∀ sp, t.waitCount sp = (Animal.entry ⟨me, pc'⟩ + r) (.counted sp))
    (hfree : t.floor.allDishesAvailable = true → pc'.section ≠ some .arriving ∧
      ∀ sp, (Animal.entry ⟨me, pc'⟩ + r) (.counted sp) = 0)
    (hgive : ∀ sp, pc'.section = some (.handing (.give sp)) → 0 < t.waitCount sp)
    (hopen : pc'.section = some (.handing .openAll) → ∀ sp, t.waitCount sp ≤ 0) :
    t.Books (Animal.entry ⟨me, pc'⟩ + r) := by
  obtain ⟨-, hr⟩ := B.alone h
  have hone := B.one
  simp only [inSections_add, inSections_entry, h, if_false] at hone
  have hmine : ∀ x, 0 < (Animal.entry ⟨me, pc'⟩ + r) (.section x) → pc'.section = some x := by
    intro x hx
    by_contra hne
    simp [Animal.entry, hne, hr x] at hx
  refine ⟨?_, hcounts, ?_, ?_, ?_⟩
  · simp only [inSections_add, inSections_entry, h', if_false, hmutex]
    omega
  · intro hav
    obtain ⟨harr, hc⟩ := hfree hav
    exact ⟨by simp [Animal.entry, harr, hr], hc⟩
  · intro sp hx
    exact hgive sp (hmine _ hx)
  · intro hx
    exact hopen (hmine _ hx)

theorem pMutex_books {q : Pc}
    (h : (pMutex s).map (·, q) = some (t, pc')) (hp : pc.section = none) (hq : q.section = some .other)
    (hc : q.counted = pc.counted) : t.Books (Animal.entry ⟨me, pc'⟩ + r) := by
  obtain ⟨hpos, rfl, rfl⟩ := pMutex_map h
  refine B.quiet ?_ rfl rfl hc (.inr hq)
  simp only [hp, hq]
  simp
  omega

theorem pDish_books {q : Pc}
    (h : (pDish s).map (·, q) = some (t, pc')) (hp : pc.section = none) (hq : q.section = none)
    (hc : q.counted = pc.counted) : t.Books (Animal.entry ⟨me, pc'⟩ + r) := by
  obtain ⟨-, rfl, rfl⟩ := pDish_map h
  exact B.quiet (by rw [hp, hq]) rfl rfl hc (.inl hq)

/-- An animal that is arriving has found or made `all_dishes_available` false. -/
theorem Kitchen.Books.full (h : pc.section = some .arriving) : s.floor.allDishesAvailable = false := by
  by_contra hav
  have harr := (B.free (Bool.of_not_eq_false hav)).1
  simp [Animal.entry, h] at harr

theorem Kitchen.Books.step (h : animal me s pc = some (t, pc'))
    (hpan : t.floor.panicked = false) : t.Books (Animal.entry ⟨me, pc'⟩ + r) := by
  have hcounts := B.counts
  cases pc with
  | start | pause | look | uncount | quiet | pass | sign => exact pMutex_books B h rfl rfl rfl
  | arrive =>
    simp only [animal] at h
    split at h
    · cases h
      exact B.inside (by simp [Pc.section]) (by simp [Pc.section]) rfl hcounts (fun hav => by cases hav)
        (by simp [Pc.section]) (by simp [Pc.section])
    · next hfull =>
      cases h
      exact B.inside (by simp [Pc.section]) (by simp [Pc.section]) rfl hcounts (fun hav => absurd hav hfull)
        (by simp [Pc.section]) (by simp [Pc.section])
  | letIn =>
    have hfull := B.full rfl
    cases h
    exact B.inside (by simp [Pc.section]) (by simp [Pc.section]) rfl hcounts
      (fun hav => absurd hav (by simp [Floor.vSem, hfull])) (by simp [Pc.section]) (by simp [Pc.section])
  | count first =>
    have hfull := B.full rfl
    cases h
    refine B.inside (by simp [Pc.section]) (by simp [Pc.section]) rfl (fun sp => ?_)
      (fun hav => absurd hav (by simp [addWaitCount, hfull])) (by simp [Pc.section]) (by simp [Pc.section])
    have hsp := hcounts sp
    by_cases hme : me = sp
    · subst hme
      simp [Animal.entry, Pc.counted, addWaitCount] at hsp ⊢
      omega
    · simpa [Animal.entry, Pc.counted, addWaitCount, hme, Ne.symm hme] using hsp
  | countV | lookV | takeV | putV | uncountV | quietV | passV | signV =>
    cases h
    exact B.quiet rfl rfl rfl rfl (.inl rfl)
  | enter =>
    simp only [animal] at h
    split at h
    · cases h
      exact B.quiet rfl rfl rfl rfl (.inl rfl)
    · cases h
  | pauseV first =>
    cases h
    cases first <;> exact B.quiet rfl rfl rfl rfl (.inl rfl)
  | invite =>
    cases h
    split <;> exact B.quiet rfl rfl rfl rfl (.inr rfl)
  | inviteV | give =>
    cases h
    exact B.quiet rfl rfl rfl rfl (.inr rfl)
  | dish | eat => exact pDish_books B h rfl rfl rfl
  | take =>
    simp only [animal] at h
    split at h
    · cases h
      cases hpan
    · cases h
      exact B.quiet rfl rfl Floor.setDish_allDishesAvailable rfl (.inl rfl)
  | put =>
    cases h
    exact B.quiet rfl rfl Floor.setDish_allDishesAvailable rfl (.inl rfl)
  | uncounted first another =>
    cases h
    refine B.inside (by simp [Pc.section]) (by simp [Pc.section]) rfl (fun sp => ?_) (fun hav => ?_)
      (by simp [Pc.section]) (by simp [Pc.section])
    · have hsp := hcounts sp
      by_cases hme : me = sp
      · subst hme
        simp [Animal.entry, Pc.counted, addWaitCount] at hsp ⊢
        omega
      · simpa [Animal.entry, Pc.counted, addWaitCount, hme, Ne.symm hme] using hsp
    · -- the animal itself is counted
      have hzero := (B.free hav).2 me
      simp [Animal.entry, Pc.counted] at hzero
  | leave first another =>
    cases first with
    | false =>
      cases h
      exact B.quiet rfl rfl rfl rfl (.inl rfl)
    | true =>
      cases another with
      | false =>
        cases h
        exact B.quiet rfl rfl rfl rfl (.inl rfl)
      | true =>
        simp only [animal] at h
        split at h
        · cases h
          exact B.quiet rfl rfl rfl rfl (.inl rfl)
        · cases h
  | choose =>
    cases h
    have hsec : (choose s me).section ≠ some .arriving ∧ (choose s me).section ≠ none ∧ (choose s me).counted = 0 := by
      unfold choose
      split
      · simp [Pc.section, Pc.counted]
      · split <;> simp [Pc.section, Pc.counted]
    have hentry : ∀ sp, Animal.entry ⟨me, choose s me⟩ (.counted sp) = Animal.entry ⟨me, .choose⟩ (.counted sp) := by
      simp [Animal.entry, hsec.2.2, show Pc.choose.counted = 0 from rfl]
    refine B.inside (by simp [Pc.section]) hsec.2.1 rfl (fun sp => ?_) (fun hav => ⟨hsec.1, fun sp => ?_⟩) ?_ ?_
    · simpa [hentry] using hcounts sp
    · simpa [hentry] using (B.free hav).2 sp
    · intro sp hsp
      grind [choose, Pc.section]
    · intro hopen sp
      cases Species.eq_or_eq_other me sp with
      | inl hsp | inr hsp => grind [choose, Pc.section]
  | openAll =>
    have hzero := B.openAll (by simp only [Pi.add_apply, Animal.entry, Pc.section, if_true]; omega)
    cases h
    refine B.inside (by simp [Pc.section]) (by simp [Pc.section]) rfl hcounts
      (fun _ => ⟨by simp [Pc.section], fun sp => ?_⟩) (by simp [Pc.section]) (by simp [Pc.section])
    have hsp := hcounts sp
    have hle := hzero sp
    simp [Animal.entry, Pc.counted] at hsp ⊢
    omega
  | gone => cases h

end

end Sections

/-! ## Runs -/

theorem animalAct_eq {s t : Kitchen} {a a' : Animal} (h : animalAct s a () = some (t, a')) :
    animal a.me s a.pc = some (t, a'.pc) ∧ a'.me = a.me := by
  obtain ⟨me, pc⟩ := a
  cases me with
  | cat | mouse =>
    obtain ⟨p, hp, heq⟩ := Option.map_eq_some_iff.1 h
    cases heq
    exact ⟨hp, rfl⟩

/-- An animal hands on only when there is room. -/
def Room (c : Crew Kitchen Animal) : CrewLabel Animal Unit Empty → Prop
  | .thread i _ => ∀ a ∈ c.threads[i]?, ∀ h ∈ a.pc.handover, c.shared.floor.Room (total Animal.tally c.threads) h
  | _ => True

def RoomStep (c : Crew Kitchen Animal) (l : CrewLabel Animal Unit Empty) (c' : Crew Kitchen Animal) : Prop :=
  kitchenSys.Step c l c' ∧ Room c l

abbrev FloorSound (c : Crew Kitchen Animal) : Prop :=
  c.Sound Animal.tally (fun s n => s.floor.Inv n) fun _ _ => True

abbrev BooksSound (c : Crew Kitchen Animal) : Prop :=
  c.Sound Animal.entry Kitchen.Books fun _ _ => True

theorem Kitchen.Books.full_of_give {me sp : Species} {s : Kitchen} {pc : Pc} {r : Entry → Nat}
    (B : s.Books (Animal.entry ⟨me, pc⟩ + r)) (h : pc.handover = some (.give sp)) :
    s.floor.allDishesAvailable = false := by
  cases pc with
  | give sp' =>
    obtain rfl : sp' = sp := by simpa [Pc.handover] using h
    have hpos := B.give sp' (by simp only [Pi.add_apply, Animal.entry, Pc.section, if_true]; omega)
    by_contra hav
    have hzero := (B.free (Bool.of_not_eq_false hav)).2 sp'
    have hcount := B.counts sp'
    omega
  | _ => exact nomatch h

theorem sound_next {c c' : Crew Kitchen Animal} {l : CrewLabel Animal Unit Empty}
    (S : FloorSound c ∧ BooksSound c) (h : RoomStep c l c') : FloorSound c' ∧ BooksSound c' := by
  obtain ⟨F, B⟩ := S
  obtain ⟨hstep, hroom⟩ := h
  cases l with
  | thread i _ =>
    obtain ⟨⟨me, pc⟩, s, ⟨me', pc'⟩, hk, hact, rfl⟩ := CrewSys.step_thread hstep
    obtain ⟨hanimal, rfl⟩ := animalAct_eq hact
    -- whoever hands on has seen somebody who waits, so not all dishes are available
    obtain ⟨r₀, hB, -⟩ := B.mem (List.mem_of_getElem? hk)
    have F' : FloorSound ⟨s, c.threads.set i ⟨me', pc'⟩⟩ := by
      refine F.thread hk (fun r hr I _ => ?_) (fun _ _ _ => trivial) fun _ _ _ _ _ _ _ => trivial
      exact I.step (fun a ha => hr ▸ hroom _ hk a ha) (fun sp hsp => hB.full_of_give hsp) (animal_floor hanimal)
    exact ⟨F', B.thread hk (fun r _ hB _ => hB.step hanimal F'.sum.panicked) (fun _ _ _ => trivial)
      fun _ _ _ _ _ _ _ => trivial⟩
  | env e => exact e.elim
  | enter a =>
    obtain ⟨s, henter, rfl⟩ := CrewSys.step_enter hstep
    obtain ⟨me, pc⟩ := a
    simp only [kitchenSys, animalEnter] at henter
    split at henter
    · next hpc =>
      cases henter
      obtain rfl : pc = .start := hpc
      have htally : Animal.tally ⟨me, .start⟩ = 0 := by
        funext x
        cases x <;> simp [Animal.tally, tally, Pc.place]
      have hentry : Animal.entry ⟨me, .start⟩ = 0 := by
        funext x
        cases x <;> simp [Animal.entry, Pc.section, Pc.counted]
      exact ⟨F.enter (by simpa [htally] using F.sum) trivial fun _ _ _ _ => trivial,
        B.enter (by simpa [hentry] using B.sum) trivial fun _ _ _ _ => trivial⟩
    · exact nomatch henter

theorem sound_init : FloorSound initCatmousesem ∧ BooksSound initCatmousesem := by
  have hfloor : FloorSound initCatmousesem :=
    ⟨⟨rfl, Nat.zero_le 2, .inl rfl, fun _ => rfl, rfl, rfl⟩, fun _ h => nomatch h⟩
  have hbooks : BooksSound initCatmousesem :=
    ⟨⟨rfl, fun _ => rfl, fun _ => ⟨rfl, fun _ => rfl⟩, (fun _ h => nomatch h), (fun h => nomatch h)⟩,
      fun _ h => nomatch h⟩
  exact ⟨hfloor, hbooks⟩

/-- The dish that an animal has taken and not released. -/
def Animal.dish (a : Animal) : Option Dish := a.pc.place.dish

def eaters (n : Tally → Nat) : Nat :=
  n (.eats .cat .one) + n (.eats .mouse .one) + n (.eats .cat .two) + n (.eats .mouse .two)

theorem countP_dish (threads : List Animal) :
    threads.countP (fun a => a.dish.isSome) = eaters (total Animal.tally threads) := by
  induction threads with
  | nil => rfl
  | cons a threads ih =>
    have hone : (if a.dish.isSome then 1 else 0) = eaters a.tally := by
      obtain ⟨me, pc⟩ := a
      simp only [Animal.dish, eaters, Animal.tally, tally]
      cases Option.eq_none_or_eq_some pc.place.dish with
      | inl hd => simp [hd]
      | inr hd =>
        obtain ⟨d, hd⟩ := hd
        cases d <;> cases me <;> simp [hd]
    simp only [eaters, total, List.map_cons, List.sum_cons, Pi.add_apply] at ih hone ⊢
    simp only [List.countP_cons, ih, hone]
    omega

theorem tally_of_dish {a : Animal} {d : Dish} (h : a.dish = some d) : a.tally (.eats a.me d) = 1 := by
  simp only [Animal.dish] at h
  simp [Animal.tally, h]

theorem tally_cat_add_mouse {a : Animal} {d : Dish} (h : a.dish = some d) :
    a.tally (.eats .cat d) + a.tally (.eats .mouse d) = 1 := by
  simp only [Animal.dish] at h
  simp only [Animal.tally, tally, h, and_true]
  cases a.me <;> rfl

theorem FloorSound.places_pos {c : Crew Kitchen Animal} {a : Animal} (ha : a ∈ c.threads) (h : a.dish ≠ none) :
    0 < c.shared.floor.places (total Animal.tally c.threads) a.me := by
  obtain ⟨d, hd⟩ := Option.ne_none_iff_exists'.1 h
  obtain ⟨r, hr⟩ := exists_total_eq (w := Animal.tally) ha
  have hone := tally_of_dish hd
  simp only [hr, Floor.places, Pi.add_apply]
  cases d with
  | one | two => omega

theorem kitchen_safe {tr : List (CrewLabel Animal Unit Empty)} {c : Crew Kitchen Animal}
    (h : Run RoomStep initCatmousesem tr c) : c.shared.floor.panicked = false ∧
    (∀ a ∈ c.threads, ∀ b ∈ c.threads, a.dish ≠ none → b.dish ≠ none → a.me = b.me) ∧
    c.threads.countP (fun a => a.dish.isSome) ≤ 2 ∧
    ∀ (i j : Nat) (a b : Animal) (d : Dish), c.threads[i]? = some a → c.threads[j]? = some b →
      a.dish = some d → b.dish = some d → i = j := by
  have F : FloorSound c := (h.invariant sound_init sound_next).1
  have I := F.sum
  refine ⟨I.panicked, ?_, ?_, ?_⟩
  · intro a ha b hb hda hdb
    have hpa := FloorSound.places_pos ha hda
    have hpb := FloorSound.places_pos hb hdb
    have hkind := I.kind
    cases hma : a.me <;> cases hmb : b.me <;> simp only [hma, hmb] at hpa hpb ⊢ <;> omega
  · have h1 := I.dish1
    have h2 := I.dish2
    have hle1 := Bool.toNat_le c.shared.floor.dish1Busy
    have hle2 := Bool.toNat_le c.shared.floor.dish2Busy
    simp only [countP_dish, eaters]
    omega
  · intro i j a b d hi hj hda hdb
    by_contra hij
    obtain ⟨r, hr⟩ := exists_rest_eq (w := Animal.tally) hij hj
    have htotal : total Animal.tally c.threads = a.tally + (b.tally + r) := hr ▸ total_eq_rest hi
    have hta := tally_cat_add_mouse hda
    have htb := tally_cat_add_mouse hdb
    cases d with
    | one =>
      have h1 := I.dish1
      have hle := Bool.toNat_le c.shared.floor.dish1Busy
      simp only [htotal, Pi.add_apply] at h1
      omega
    | two =>
      have h2 := I.dish2
      have hle := Bool.toNat_le c.shared.floor.dish2Busy
      simp only [htotal, Pi.add_apply] at h2
      omega

instance (f : Floor) (n : Tally → Nat) : (h : Handover) → Decidable (f.Room n h)
  | .give _ => inferInstanceAs (Decidable (_ ∧ _))
  | .openAll => inferInstanceAs (Decidable (_ = _))

instance (c : Crew Kitchen Animal) : (l : CrewLabel Animal Unit Empty) → Decidable (Room c l)
  | .thread _ _ => inferInstanceAs (Decidable (∀ _, _))
  | .env e => e.elim
  | .enter _ => inferInstanceAs (Decidable True)

def twoCatsAndMouse : List (CrewLabel Animal Unit Empty) :=
  [.enter ⟨.cat, .start⟩, .enter ⟨.cat, .start⟩, .enter ⟨.mouse, .start⟩]

/-- Two cats eat together and make all dishes available; then a mouse eats. -/
def pairThenMouse : List (CrewLabel Animal Unit Empty) :=
  twoCatsAndMouse ++ turns 12 0 ++ turns 10 1 ++ turns 9 0 ++ turns 13 1 ++ turns 15 2

theorem kitchen_safe_sample : ∃ tr c, Run RoomStep initCatmousesem tr c ∧
    ⟨.mouse, .eat true true .one⟩ ∈ c.threads ∧ c.shared.floor.panicked = false ∧
    c.threads.countP (fun a => a.dish.isSome) ≤ 2 := by
  obtain ⟨tr, c, hrun, hc⟩ := kitchenSys.exists_run Room
    (fun c => ⟨.mouse, .eat true true .one⟩ ∈ c.threads) initCatmousesem pairThenMouse (by decide +kernel)
  have hsafe := kitchen_safe hrun
  exact ⟨tr, c, hrun, hc, hsafe.1, hsafe.2.2.1⟩

/-- The first cat goes to the dishes and stops there, the second one eats and hands on to a mouse
that waits. The mouse and the first cat eat at the same time. -/
def secondHandsOn : List (CrewLabel Animal Unit Empty) :=
  twoCatsAndMouse ++ turns 12 0 ++ turns 19 1 ++ turns 4 2 ++ turns 4 1 ++ turns 6 2 ++ turns 3 0

theorem cat_and_mouse_eat : ∃ tr c, Run kitchenSys.Step initCatmousesem tr c ∧
    ∃ a ∈ c.threads, ∃ b ∈ c.threads, a.me = .cat ∧ b.me = .mouse ∧ a.dish = some .two ∧ b.dish = some .one := by
  obtain ⟨tr, c, hrun, hc⟩ := kitchenSys.exists_run (fun _ _ => True)
    (fun c => ⟨.cat, .eat true true .two⟩ ∈ c.threads ∧ ⟨.mouse, .eat false false .one⟩ ∈ c.threads)
    initCatmousesem secondHandsOn (by decide +kernel)
  exact ⟨tr, c, hrun.mono And.left, _, hc.1, _, hc.2, rfl, rfl, rfl, rfl⟩

end Os161.Catsem
