import Os161.Kern.Errno
import Os161.Lib.Buffer
import Os161.Lib.Run

/-!
# Resizable arrays

`kern/lib/array.c`: `num` pointers in a block with room for `max`. Growing moves to a larger
block; an array that is set to size zero gives back its block if it had more than 16 slots. An
element is removed by moving those above it down one slot, with a `memmove` that copies forwards.

As in `queue.c`, leaving the range of `int` and accessing memory outside the block, or through a
null pointer, are stops; the state has the answers of `kmalloc` to come.
-/
namespace Os161.Kern

open Lib Prog

structure CArray (α : Type) where
  num : Nat
  max : Nat
  v : Option (Buffer α)

inductive ArrayPanic where
  | num | index | setsizeNull
  | null | overrun | overflow | endless
  deriving DecidableEq, Repr

variable {α : Type}

abbrev ArrayM (α : Type) := Prog ArrayPanic Errno (CArray α × Supply α)

def modifyArray (f : CArray α → CArray α) : ArrayM α Unit := Prog.modify fun s => (f s.1, s.2)

def arrayCreate (m : Supply α) : Option (CArray α) × Supply α :=
  ((m 0).map fun _ => ⟨0, 0, none⟩, m.rest)

def loadAt (v : Option (Buffer α)) (i : Nat) : ArrayM α α :=
  match v with
  | none => Prog.stop .null
  | some b => do
    Prog.check (i < b.room) .overrun
    pure (b.cell i)

def storeAt (i : Nat) (ptr : α) : ArrayM α Unit := do
  let s ← Prog.get
  match s.1.v with
  | none => Prog.stop .null
  | some b =>
    Prog.check (i < b.room) .overrun
    modifyArray fun a => { a with v := some (b.store i ptr) }

def arrayGetguy (index : Nat) : ArrayM α α := do
  let s ← Prog.get
  Prog.check (s.1.num ≤ s.1.max) .num
  Prog.check (index < s.1.num) .index
  loadAt s.1.v index

def copyTo (v : Option (Buffer α)) : Nat → Nat → Buffer α → ArrayM α (Buffer α)
  | 0, _, newv => pure newv
  | n + 1, i, newv => do
    let ptr ← loadAt v i
    Prog.check (i < newv.room) .overrun
    copyTo v n (i + 1) (newv.store i ptr)

def arrayPreallocate (nguys : Int) : ArrayM α Unit := do
  let s ← Prog.get
  Prog.check (s.1.num ≤ s.1.max) .num
  let newmax ← growLoop (fun n => (n + 1) * 2) .overflow .endless nguys.toNat 32 s.1.max
  let newv? ← alloc newmax
  match newv? with
  | none => Prog.raise .enomem
  | some newv =>
    let newv ← copyTo s.1.v s.1.num 0 newv
    modifyArray fun a => { a with max := newmax, v := some newv }

def arraySetsize (nguys : Nat) : ArrayM α Unit := do
  let s ← Prog.get
  Prog.check (s.1.num ≤ s.1.max) .num
  if s.1.max < nguys then arrayPreallocate nguys
  else Prog.when (nguys = 0 ∧ 16 < s.1.max) do
    Prog.check (s.1.v.isSome) .setsizeNull
    modifyArray fun a => { a with v := none, max := 0 }
  modifyArray fun a => { a with num := nguys }

def arraySetguy (index : Nat) (ptr : α) : ArrayM α Unit := do
  let s ← Prog.get
  Prog.check (s.1.num ≤ s.1.max) .num
  Prog.check (index < s.1.num) .index
  storeAt index ptr

def arrayAdd (guy : α) : ArrayM α Unit := do
  let s ← Prog.get
  Prog.check (s.1.num + 1 < 2 ^ 31) .overflow
  arraySetsize (s.1.num + 1)
  storeAt s.1.num guy

/-- The forward copy of `memmove` from slot `i + 1` to slot `i`, and so on for `n` slots. -/
def moveDown : Nat → Nat → ArrayM α Unit
  | 0, _ => pure ()
  | n + 1, i => do
    let s ← Prog.get
    let ptr ← loadAt s.1.v (i + 1)
    storeAt i ptr
    moveDown n (i + 1)

def arrayRemove (index : Nat) : ArrayM α Unit := do
  let s ← Prog.get
  Prog.check (s.1.num ≤ s.1.max) .num
  Prog.check (index < s.1.num) .index
  moveDown (s.1.num - (index + 1)) index
  modifyArray fun a => { a with num := a.num - 1 }

/-! ## The list behind an array -/

def CArray.elems (a : CArray α) : List α :=
  match a.v with
  | none => []
  | some b => (List.range a.num).map b.cell

structure CArray.Valid (a : CArray α) : Prop where
  num_le : a.num ≤ a.max
  room : ∀ b, a.v = some b → b.room = a.max
  null : a.v = none → a.max = 0
  fits : 4 * a.max < 2 ^ 32

def grownMax (nguys max : Nat) : Nat := growTo (fun n => (n + 1) * 2) nguys 31 max

/-- That capacity in bytes fits a word. -/
def CArray.Fits (a : CArray α) (nguys : Nat) : Prop := 4 * grownMax nguys a.max < 2 ^ 32

instance (a : CArray α) (n : Nat) : Decidable (a.Fits n) := inferInstanceAs (Decidable (_ < _))

def NoFault (_ : ArrayPanic) : Prop := False

variable {a : CArray α} {s : CArray α × Supply α} {x : α} {n i : Nat} {b : Buffer α}

namespace CArray

theorem elems_some (hv : a.v = some b) : a.elems = (List.range a.num).map b.cell := by
  rw [elems, hv]

theorem elems_none (hv : a.v = none) : a.elems = [] := by
  rw [elems, hv]

theorem Valid.length_elems (h : a.Valid) : a.elems.length = a.num := by
  cases hv : a.v with
  | none =>
    have := h.null hv
    have := h.num_le
    rw [elems_none hv, List.length_nil]
    omega
  | some b => rw [elems_some hv, List.length_map, List.length_range]

theorem Valid.exists_block (h : a.Valid) (hi : i < a.max) : ∃ b, a.v = some b ∧ b.room = a.max := by
  cases hv : a.v with
  | none =>
    have := h.null hv
    omega
  | some b => exact ⟨b, rfl, h.room b hv⟩

theorem getElem?_elems (hv : a.v = some b) (hi : i < a.num) : a.elems[i]? = some (b.cell i) := by
  rw [elems_some hv, List.getElem?_map, List.getElem?_range hi]
  rfl

end CArray

theorem le_grownMax : a.max ≤ grownMax n a.max := le_growTo (fun k _ => by omega) 31

theorem grownMax_le {n m : Nat} : grownMax n m ≤ max m (2 * n) := by
  have := growTo_le (g := fun n => (n + 1) * 2) (t := n) (n := m)
    (fun _ _ h => Nat.mul_le_mul_right 2 (Nat.succ_le_succ h)) 31
  unfold grownMax
  by_cases h : n = 0
  · subst h
    have e : growTo (fun n => (n + 1) * 2) 0 31 m = m := by rw [growTo, if_neg (Nat.not_lt_zero m)]
    omega
  · omega

theorem target_le_grownMax {n m : Nat} (h : 4 * grownMax n m < 2 ^ 32) : n ≤ grownMax n m := by
  have e : growTo (fun n => (n + 1) * 2) n 31 m =
      if m < n then growTo (fun n => (n + 1) * 2) n 30 ((m + 1) * 2) else m := rfl
  unfold grownMax at h ⊢
  rw [e] at h ⊢
  split at h
  · next hlt =>
    rw [if_pos hlt]
    obtain h' | h' := growTo_cases (g := fun n => (n + 1) * 2) (t := n) (n := (m + 1) * 2) (fun k _ => by omega) 30
    · exact h'
    · omega
  · next hge =>
    rw [if_neg hge]
    omega

theorem growLoop_grownMax {m : Nat} : Sat (fun _ => ¬ 4 * grownMax n m < 2 ^ 32)
    (growLoop (fun n => (n + 1) * 2) .overflow .endless n 32 m : ArrayM α Nat) s
    fun r s' => r = .ok (grownMax n m) ∧ n ≤ grownMax n m ∧ s' = s := by
  refine (growLoop_spec (fun k _ => by omega) 31).weaken fun p hp hfit => ?_
  have htarget := target_le_grownMax hfit
  unfold grownMax at *
  omega

/-! ## The operations on the list -/

theorem loadAt_spec (hv : a.v = some b) (hi : i < b.room) :
    Sat NoFault (loadAt a.v i) s fun r s' => r = .ok (b.cell i) ∧ s' = s := by
  simp [hv, loadAt, hi]

theorem storeAt_spec (hv : s.1.v = some b) (hi : i < b.room) : Sat NoFault (storeAt i x) s fun r s' =>
    r = .ok () ∧ s' = ({ s.1 with v := some (b.store i x) }, s.2) := by
  simp [storeAt, modifyArray, hv, hi]

theorem arrayGetguy_spec (h : s.1.Valid) (hi : i < s.1.num) : Sat NoFault (arrayGetguy i) s fun r s' =>
    ∃ ptr, r = .ok ptr ∧ s.1.elems[i]? = some ptr ∧ s' = s := by
  have hle := h.num_le
  obtain ⟨b, hv, hroom⟩ := h.exists_block (i := i) (by omega)
  simp only [arrayGetguy, sat_bind, sat_get, sat_check, if_pos h.num_le, if_pos hi]
  refine (loadAt_spec hv (by omega)).mono ?_
  rintro r s' ⟨rfl, hs⟩
  exact ⟨b.cell i, rfl, CArray.getElem?_elems hv hi, hs⟩

/-- The copy has the elements that the block has between `i` and `i + n`, if there is room for them.
-/
theorem copyTo_spec {c : Buffer α} (hv : a.v = some b) (hi : i + n ≤ b.room) :
    Sat (fun _ => c.room < i + n) (copyTo a.v n i c) s fun r s' => ∃ v', r = .ok v' ∧ s' = s ∧ v'.room = c.room ∧
      ∀ k, v'.cell k = if i ≤ k ∧ k < i + n then b.cell k else c.cell k := by
  induction n generalizing i c with
  | zero => exact ⟨c, rfl, rfl, rfl, fun k => by rw [if_neg (by omega)]⟩
  | succ n ih =>
    unfold copyTo
    simp only [sat_bind]
    refine ((loadAt_spec hv (by omega)).weaken fun _ => False.elim).mono ?_
    rintro r s' ⟨rfl, rfl⟩
    simp only [sat_check]
    split
    · refine ((ih (i := i + 1) (c := c.store i (b.cell i)) (by omega)).weaken ?_).mono ?_
      · intro p hp
        simp only [Buffer.store_room] at hp
        omega
      · rintro r s' ⟨v', rfl, hs, hroom, hcell⟩
        refine ⟨v', rfl, hs, hroom, fun k => ?_⟩
        rw [hcell k]
        by_cases hk : k = i
        · subst hk
          rw [if_neg (by omega), if_pos (by omega), Buffer.store_cell]
        · rw [Buffer.store_cell_ne _ _ hk]
          exact if_congr (by omega) rfl rfl
    · omega

theorem copyTo_elems {newv : Buffer α} (h : a.Valid) :
    Sat (fun _ => newv.room < a.num) (copyTo a.v a.num 0 newv) s fun r s' => ∃ v', r = .ok v' ∧
      s' = s ∧ v'.room = newv.room ∧ (List.range a.num).map v'.cell = a.elems := by
  cases hv : a.v with
  | none =>
    have hmax := h.null hv
    have hnum : a.num = 0 := by
      have := h.num_le
      omega
    rw [hnum, CArray.elems_none hv]
    exact ⟨newv, rfl, rfl, rfl, rfl⟩
  | some b =>
    have hroom := h.room b hv
    have hle := h.num_le
    rw [← hv]
    refine ((copyTo_spec hv (by omega)).weaken fun p hp => by omega).mono ?_
    rintro r s' ⟨v', rfl, hs, hr, hcell⟩
    refine ⟨v', rfl, hs, hr, ?_⟩
    rw [CArray.elems_some hv]
    refine List.map_congr_left fun k hk => ?_
    rw [hcell k, if_pos (by simpa using hk)]

/-- Preallocation keeps the elements, or leaves the array alone when there is no memory. Only a
capacity whose length in bytes wraps around can end in a stop. -/
theorem arrayPreallocate_cases (h : s.1.Valid) (nguys : Int) :
    Sat (fun _ => ¬ s.1.Fits nguys.toNat) (arrayPreallocate nguys) s fun r s' =>
      (r = .error .enomem ∧ s'.1 = s.1 ∧ s.2 0 = none) ∨ (r = .ok () ∧ s'.1.elems = s.1.elems ∧ s'.1.num = s.1.num ∧
        s'.1.max = grownMax nguys.toNat s.1.max ∧ (s.1.Fits nguys.toNat → s'.1.Valid)) := by
  have hle := le_grownMax (a := s.1) (n := nguys.toNat)
  have hnum := h.num_le
  simp only [arrayPreallocate, sat_bind, sat_get, sat_check, if_pos h.num_le]
  refine growLoop_grownMax.mono ?_
  rintro r s' ⟨rfl, -, hs'⟩
  simp only [hs', sat_alloc]
  cases hm : s.2 0 with
  | none => exact .inl ⟨rfl, rfl, rfl⟩
  | some cell =>
    simp only [Option.map_some, sat_bind]
    refine ((copyTo_elems h).weaken ?_).mono ?_
    · intro p hp hfit
      simp only [roomFor_of_lt hfit] at hp
      omega
    · rintro r s'' ⟨v', rfl, rfl, hr, helems⟩
      simp only [modifyArray, sat_modify]
      refine .inr ⟨trivial, ?_, trivial, trivial, fun hfit => ⟨by simp only; omega, ?_, by simp, hfit⟩⟩
      · rw [CArray.elems_some rfl]
        exact helems
      · rintro b' ⟨rfl⟩
        simpa [roomFor_of_lt hfit] using hr

theorem arrayPreallocate_spec (h : s.1.Valid) (nguys : Int) (hfit : s.1.Fits nguys.toNat) :
    Sat NoFault (arrayPreallocate nguys) s fun r s' => (r = .error .enomem ∧ s'.1 = s.1 ∧ s.2 0 = none) ∨
      (r = .ok () ∧ s'.1.Valid ∧ s'.1.elems = s.1.elems ∧ s'.1.num = s.1.num ∧
        s'.1.max = grownMax nguys.toNat s.1.max) := by
  refine ((arrayPreallocate_cases h nguys).weaken fun _ hp => hp hfit).mono ?_
  rintro r s' (⟨rfl, hs, hm⟩ | ⟨rfl, helems, hnum, hmax, hv⟩)
  · exact .inl ⟨rfl, hs, hm⟩
  · exact .inr ⟨rfl, hv hfit, helems, hnum, hmax⟩

theorem CArray.Valid.resize (h : a.Valid) (hn : n ≤ a.max) : { a with num := n }.Valid ∧
      (n ≤ a.num → { a with num := n }.elems = a.elems.take n) ∧
      (a.num ≤ n → ∃ ext, { a with num := n }.elems = a.elems ++ ext) := by
  refine ⟨⟨hn, h.room, h.null, h.fits⟩, fun hle => ?_, fun hle => ?_⟩
  · cases hv : a.v with
    | none => simp only [elems, hv, List.take_nil]
    | some b => simp only [elems, hv, ← List.map_take, List.take_range, Nat.min_eq_left hle]
  · cases hv : a.v with
    | none => exact ⟨[], by simp only [elems, hv, List.append_nil]⟩
    | some b =>
      obtain ⟨d, rfl⟩ := Nat.exists_eq_add_of_le hle
      exact ⟨_, by simp only [elems, hv, List.range_add, List.map_append]; rfl⟩

/-- What the elements are after `array_setsize` returned. -/
def SizedTo (l : List α) (n : Nat) (l' : List α) : Prop :=
  (n ≤ l.length ∧ l' = l.take n) ∨ (∃ ext, l' = l ++ ext ∧ l'.length = n)

theorem CArray.Valid.sizedTo (h : a.Valid) (hn : n ≤ a.max) : SizedTo a.elems n { a with num := n }.elems := by
  obtain ⟨hv, htake, hext⟩ := h.resize hn
  obtain hle | hle := Nat.le_total n a.num
  · exact .inl ⟨h.length_elems ▸ hle, htake hle⟩
  · obtain ⟨ext, e⟩ := hext hle
    exact .inr ⟨ext, e, hv.length_elems⟩

theorem arraySetsize_spec (h : s.1.Valid) (hfit : s.1.Fits n) : Sat NoFault (arraySetsize n) s fun r s' =>
    (r = .error .enomem ∧ s'.1 = s.1 ∧ s.1.max < n ∧ s.2 0 = none) ∨
    (r = .ok () ∧ s'.1.Valid ∧ SizedTo s.1.elems n s'.1.elems ∧ s'.1.num = n ∧
      (s.1.max < n → s'.1.max = grownMax n s.1.max) ∧ (n = 0 → s'.1.max = if 16 < s.1.max then 0 else s.1.max) ∧
      (0 < n → n ≤ s.1.max → s'.1.max = s.1.max ∧ s'.2 = s.2)) := by
  simp only [arraySetsize, sat_bind, sat_get, sat_check, if_pos h.num_le, sat_ite, sat_when, modifyArray, sat_modify]
  split
  · next hlt =>
    -- the block is too small
    refine (arrayPreallocate_spec h n hfit).mono ?_
    rintro r s' (⟨rfl, hs, hm⟩ | ⟨rfl, hv, helems, -, hmax⟩)
    · exact .inl ⟨rfl, hs, hlt, hm⟩
    · have hn : n ≤ s'.1.max := hmax ▸ target_le_grownMax hfit
      exact .inr ⟨trivial, (hv.resize hn).1, helems ▸ hv.sizedTo hn, trivial, fun _ => hmax, by omega, by omega⟩
  · next hge =>
    split
    · next hzero =>
      -- the block is given back
      obtain ⟨b, hb, -⟩ := h.exists_block (i := 0) (by omega)
      rw [if_pos (by rw [hb]; rfl)]
      obtain ⟨rfl, hlarge⟩ := hzero
      refine .inr ⟨trivial, ⟨Nat.le_refl 0, by simp, fun _ => rfl, by simp⟩, ?_, trivial, by omega,
        fun _ => (if_pos hlarge).symm, by omega⟩
      exact .inl ⟨Nat.zero_le _, rfl⟩
    · next hkeep =>
      have hn : n ≤ s.1.max := by omega
      exact .inr ⟨trivial, (h.resize hn).1, h.sizedTo hn, trivial, by omega,
        fun hzero => (if_neg fun hlarge => hkeep ⟨hzero, hlarge⟩).symm,
        fun _ _ => ⟨trivial, trivial⟩⟩

/-- Storing at a place of the array sets that element of the list. -/
theorem CArray.Valid.store (h : a.Valid) (hv : a.v = some b) (hi : i < a.num) :
    { a with v := some (b.store i x) }.Valid ∧ { a with v := some (b.store i x) }.elems = a.elems.set i x := by
  constructor
  · refine ⟨h.num_le, ?_, nofun, h.fits⟩
    rintro b' ⟨rfl⟩
    exact h.room b hv
  · rw [elems_some rfl, elems_some hv]
    refine List.ext_getElem? fun k => ?_
    by_cases hk : k = i
    · subst hk
      simp [hi]
    · simp only [List.getElem?_map, List.getElem?_set_ne (Ne.symm hk)]
      by_cases hkn : k < a.num
      · simp [hkn, Buffer.store_cell_ne _ _ hk]
      · simp [hkn]

theorem arraySetguy_spec (h : s.1.Valid) (hi : i < s.1.num) : Sat NoFault (arraySetguy i x) s fun r s' =>
    r = .ok () ∧ s'.1.Valid ∧ s'.1.elems = s.1.elems.set i x ∧ s'.1.num = s.1.num ∧
      s'.1.max = s.1.max ∧ s'.2 = s.2 := by
  have hle := h.num_le
  obtain ⟨b, hv, hroom⟩ := h.exists_block (i := i) (by omega)
  simp only [arraySetguy, sat_bind, sat_get, sat_check, if_pos h.num_le, if_pos hi]
  refine (storeAt_spec hv (by omega)).mono ?_
  rintro r s' ⟨rfl, rfl⟩
  obtain ⟨hvalid, helems⟩ := h.store (x := x) hv hi
  exact ⟨rfl, hvalid, helems, rfl, rfl, rfl⟩

theorem SizedTo.set_last {l l' : List α} (h : SizedTo l (l.length + 1) l') : l'.set l.length x = l ++ [x] := by
  obtain ⟨hlt, -⟩ | ⟨ext, rfl, hlen⟩ := h
  · omega
  · rw [List.length_append, Nat.add_left_cancel_iff] at hlen
    obtain ⟨y, rfl⟩ := List.length_eq_one_iff.1 hlen
    simp

theorem arrayAdd_spec (h : s.1.Valid) (hfit : s.1.Fits (s.1.num + 1)) : Sat NoFault (arrayAdd x) s fun r s' =>
    (r = .error .enomem ∧ s'.1 = s.1 ∧ s.1.num = s.1.max ∧ s.2 0 = none) ∨
    (r = .ok () ∧ s'.1.Valid ∧ s'.1.elems = s.1.elems ++ [x] ∧ s'.1.num = s.1.num + 1 ∧
      (s.1.max ≤ s.1.num → s'.1.max = grownMax (s.1.num + 1) s.1.max) ∧
      (s.1.num < s.1.max → s'.1.max = s.1.max ∧ s'.2 = s.2)) := by
  have hle := h.num_le
  have hint : s.1.num + 1 < 2 ^ 31 := by
    have := h.fits
    omega
  simp only [arrayAdd, sat_bind, sat_get, sat_check, if_pos hint]
  refine (arraySetsize_spec h hfit).mono ?_
  rintro r s' (⟨rfl, hs, hlt, hm⟩ | ⟨rfl, hv, hsized, hnum, hgrow, -, hkeep⟩)
  · exact .inl ⟨rfl, hs, by omega, hm⟩
  · have hle' := hv.num_le
    obtain ⟨b, hb, hroom⟩ := hv.exists_block (i := s.1.num) (by omega)
    refine (storeAt_spec hb (by omega)).mono ?_
    rintro r s'' ⟨rfl, rfl⟩
    obtain ⟨hvalid, helems⟩ := hv.store (x := x) hb (i := s.1.num) (by omega)
    refine .inr ⟨rfl, hvalid, ?_, hnum, fun hfull => hgrow (by omega), fun hroom' =>
      hkeep (by omega) (by omega)⟩
    rw [helems, ← h.length_elems]
    exact (h.length_elems.symm ▸ hsized).set_last

/-- The copy moves the `n` elements above place `i` down one place. -/
theorem moveDown_spec (hv : s.1.v = some b) (hn : i + n < b.room) :
    Sat NoFault (moveDown n i) s fun r s' => ∃ b', r = .ok () ∧
      s' = ({ s.1 with v := some b' }, s.2) ∧ b'.room = b.room ∧
      ∀ k, b'.cell k = if i ≤ k ∧ k < i + n then b.cell (k + 1) else b.cell k := by
  induction n generalizing i s b with
  | zero =>
    refine ⟨b, rfl, ?_, rfl, fun k => by rw [if_neg (by omega)]⟩
    rw [← hv]
  | succ n ih =>
    unfold moveDown
    simp only [sat_bind, sat_get]
    refine (loadAt_spec hv (by omega)).mono ?_
    rintro r s' ⟨rfl, rfl⟩
    refine (storeAt_spec hv (by omega)).mono ?_
    rintro r s'' ⟨rfl, rfl⟩
    refine (ih (i := i + 1) (b := b.store i (b.cell (i + 1))) rfl (by simp; omega)).mono ?_
    rintro r s'' ⟨b', rfl, rfl, hroom, hcell⟩
    refine ⟨b', rfl, rfl, hroom, fun k => ?_⟩
    rw [hcell k]
    by_cases hk : k = i
    · subst hk
      rw [if_neg (by omega), if_pos (by omega), Buffer.store_cell]
    · rw [Buffer.store_cell_ne _ _ hk]
      by_cases hlow : k < i
      · rw [if_neg (by omega), if_neg (by omega)]
      · rw [Buffer.store_cell_ne _ _ (by omega)]
        exact if_congr (by omega) rfl rfl

theorem arrayRemove_spec (h : s.1.Valid) (hi : i < s.1.num) : Sat NoFault (arrayRemove i) s fun r s' =>
    r = .ok () ∧ s'.1.Valid ∧ s'.1.elems = s.1.elems.eraseIdx i ∧ s'.1.num = s.1.num - 1 ∧
      s'.1.max = s.1.max ∧ s'.2 = s.2 := by
  have hle := h.num_le
  obtain ⟨b, hv, hroom⟩ := h.exists_block (i := i) (by omega)
  simp only [arrayRemove, sat_bind, sat_get, sat_check, if_pos h.num_le, if_pos hi]
  refine (moveDown_spec hv (by omega)).mono ?_
  rintro r s' ⟨b', rfl, rfl, hroom', hcell⟩
  simp only [modifyArray, sat_modify]
  refine ⟨trivial, ⟨by simp only; omega, ?_, by simp, h.fits⟩, ?_, trivial, trivial, trivial⟩
  · rintro c ⟨rfl⟩
    exact hroom'.trans hroom
  · rw [CArray.elems_some rfl, CArray.elems_some hv]
    refine List.ext_getElem? fun k => ?_
    simp only [List.getElem?_map, List.getElem?_eraseIdx]
    grind

/-! ## Runs -/

inductive ArrayOp (α : Type) where
  | preallocate (nguys : Int)
  | setsize (nguys : Nat)
  | setguy (index : Nat) (ptr : α)
  | getguy (index : Nat)
  | add (guy : α)
  | remove (index : Nat)

/-- A call, with the pointer that `array_getguy` returns. -/
def ArrayOp.call : ArrayOp α → ArrayM α (Option α)
  | .preallocate nguys => do arrayPreallocate nguys; pure none
  | .setsize nguys => do arraySetsize nguys; pure none
  | .setguy index ptr => do arraySetguy index ptr; pure none
  | .getguy index => do let ptr ← arrayGetguy index; pure (some ptr)
  | .add guy => do arrayAdd guy; pure none
  | .remove index => do arrayRemove index; pure none

/-- Indices are in range, and sizes such that the capacity in bytes fits a word. -/
def ArrayOp.Allowed (a : CArray α) : ArrayOp α → Prop
  | .preallocate nguys => a.Fits nguys.toNat
  | .setsize nguys => a.Fits nguys
  | .setguy index _ => index < a.num
  | .getguy index => index < a.num
  | .add _ => a.Fits (a.num + 1)
  | .remove index => index < a.num

instance (a : CArray α) : DecidablePred (ArrayOp.Allowed a)
  | .preallocate nguys => inferInstanceAs (Decidable (a.Fits nguys.toNat))
  | .setsize nguys => inferInstanceAs (Decidable (a.Fits nguys))
  | .setguy index _ => inferInstanceAs (Decidable (index < a.num))
  | .getguy index => inferInstanceAs (Decidable (index < a.num))
  | .add _ => inferInstanceAs (Decidable (a.Fits (a.num + 1)))
  | .remove index => inferInstanceAs (Decidable (index < a.num))

/-- What a call that returned without error did to the list. -/
def ArrayOp.Done (l : List α) : ArrayOp α → Option α → List α → Prop
  | .preallocate _, _, l' => l' = l
  | .setsize nguys, _, l' => SizedTo l nguys l'
  | .setguy index ptr, _, l' => l' = l.set index ptr
  | .getguy index, ptr?, l' => l' = l ∧ l[index]? = ptr? ∧ ptr?.isSome
  | .add guy, _, l' => l' = l ++ [guy]
  | .remove index, _, l' => l' = l.eraseIdx index

/-- The calls that may ask `kmalloc` for a block. -/
def ArrayOp.Allocates : ArrayOp α → Prop
  | .preallocate _ | .setsize _ | .add _ => True
  | .setguy _ _ | .getguy _ | .remove _ => False

/-- The call needs a new block: `array_preallocate` always takes one, the others when the capacity
is too small. -/
def ArrayOp.Grows (a : CArray α) : ArrayOp α → Prop
  | .preallocate _ => True
  | .setsize nguys => a.max < nguys
  | .add _ => a.num = a.max
  | .setguy _ _ | .getguy _ | .remove _ => False

/-- The list after a call. Only a call that allocates can fail, and it leaves the list alone. -/
inductive ListStep : List α → ArrayOp α × Except Errno (Option α) → List α → Prop
  | done {l l' : List α} {op : ArrayOp α} {ptr? : Option α} (h : op.Done l ptr? l') :
      ListStep l (op, .ok ptr?) l'
  | enomem {l : List α} {op : ArrayOp α} (h : op.Allocates) : ListStep l (op, .error .enomem) l

def ArrayStep (s : CArray α × Supply α) (e : ArrayOp α × Except Errno (Option α))
    (s' : CArray α × Supply α) : Prop :=
  e.1.Allowed s.1 ∧ e.1.call s = .ok (e.2, s')

/-- The call returns and does what the list does. It returns an error only when it needs a block
that `kmalloc` refuses, and then changes nothing. -/
def ArrayOp.Refines (s : CArray α × Supply α) (op : ArrayOp α) : Prop :=
  Prog.Sat NoFault op.call s fun r s' =>
    s'.1.Valid ∧ ListStep s.1.elems (op, r) s'.1.elems ∧
      ∀ e, r = .error e → s'.1 = s.1 ∧ op.Grows s.1 ∧ s.2 0 = none

theorem ArrayOp.refines (op : ArrayOp α) (h : s.1.Valid) (hop : op.Allowed s.1) : op.Refines s := by
  have failed {r : Except Errno (Option α)} {s' : CArray α × Supply α} (hr : r = .error .enomem)
      (hs : s'.1 = s.1) (ha : op.Allocates) (hg : op.Grows s.1) (hm : s.2 0 = none) :
      s'.1.Valid ∧ ListStep s.1.elems (op, r) s'.1.elems ∧
        ∀ e, r = .error e → s'.1 = s.1 ∧ op.Grows s.1 ∧ s.2 0 = none := by
    subst hr
    rw [hs]
    exact ⟨h, .enomem ha, fun _ _ => ⟨rfl, hg, hm⟩⟩
  unfold ArrayOp.Refines
  cases op with
  | preallocate nguys =>
    simp only [call, sat_bind]
    refine (arrayPreallocate_spec h nguys hop).mono ?_
    rintro r s' (⟨rfl, hs, hm⟩ | ⟨rfl, hv, helems, -⟩)
    · exact failed rfl hs trivial trivial hm
    · exact ⟨hv, .done helems, by simp⟩
  | setsize nguys =>
    simp only [call, sat_bind]
    refine (arraySetsize_spec h hop).mono ?_
    rintro r s' (⟨rfl, hs, hmax, hm⟩ | ⟨rfl, hv, hsized, -⟩)
    · exact failed rfl hs trivial hmax hm
    · exact ⟨hv, .done hsized, by simp⟩
  | setguy index ptr =>
    simp only [call, sat_bind]
    refine (arraySetguy_spec h hop).mono ?_
    rintro r s' ⟨rfl, hv, helems, -⟩
    exact ⟨hv, .done helems, by simp⟩
  | getguy index =>
    simp only [call, sat_bind]
    refine (arrayGetguy_spec h hop).mono ?_
    rintro r s' ⟨ptr, rfl, hget, rfl⟩
    exact ⟨h, .done ⟨rfl, hget, rfl⟩, by simp⟩
  | add guy =>
    simp only [call, sat_bind]
    refine (arrayAdd_spec h hop).mono ?_
    rintro r s' (⟨rfl, hs, hnum, hm⟩ | ⟨rfl, hv, helems, -⟩)
    · exact failed rfl hs trivial hnum hm
    · exact ⟨hv, .done helems, by simp⟩
  | remove index =>
    simp only [call, sat_bind]
    refine (arrayRemove_spec h hop).mono ?_
    rintro r s' ⟨rfl, hv, helems, -⟩
    exact ⟨hv, .done helems, by simp⟩

theorem arrayCreate_valid {m m' : Supply α} (h : arrayCreate m = (some a, m')) : a.Valid ∧ a.elems = [] := by
  obtain ⟨_, _, rfl⟩ := Option.map_eq_some_iff.1 (congrArg Prod.fst h)
  exact ⟨⟨Nat.le_refl 0, nofun, fun _ => rfl, by simp⟩, rfl⟩

/-- Whatever the calls and the answers of `kmalloc`: the array keeps the list that the calls
make, in a block with room for its capacity; and the next call finds what it needs, so that no
assertion fails and no memory outside the block is touched. -/
theorem array_refines_list {m m' : Supply α} (hcreate : arrayCreate m = (some a, m'))
    {tr : List (ArrayOp α × Except Errno (Option α))} (run : Run ArrayStep (a, m') tr s) :
    s.1.Valid ∧ s.1.elems.length = s.1.num ∧ Run ListStep [] tr s.1.elems ∧
      ∀ op : ArrayOp α, op.Allowed s.1 → op.Refines s := by
  obtain ⟨hv, hnil⟩ := arrayCreate_valid hcreate
  have key : s.1.Valid ∧ Run ListStep [] tr s.1.elems := by
    refine run.history (I := fun tr s => s.1.Valid ∧ Run ListStep [] tr s.1.elems) ⟨hv, hnil ▸ .start⟩ ?_
    intro tr t e u ⟨hvalid, hrun⟩ ⟨hop, hcall⟩
    obtain ⟨hvalid', hstep, -⟩ := (e.1.refines hvalid hop).of_ok hcall
    exact ⟨hvalid', .step hrun hstep⟩
  exact ⟨key.1, key.1.length_elems, key.2, fun op hop => op.refines key.1 hop⟩

/-- A new array, with memory for everything. -/
def sampleArray : CArray Nat := ⟨0, 0, none⟩

theorem array_refines_list_sampleArray : ∃ s, Run ArrayStep (sampleArray, fun _ => some fun _ => 0)
      [(.remove 0, .ok none), (.add 6, .ok none), (.add 5, .ok none)] s ∧ s.1.elems = [6] ∧
    Run ListStep [] [(.remove 0, .ok none), (.add 6, .ok none), (.add 5, .ok none)] s.1.elems := by
  have run : Run ArrayStep (sampleArray, fun _ => some fun _ => 0)
      [(.remove 0, .ok none), (.add 6, .ok none), (.add 5, .ok none)] _ :=
    .step (.step (.step .start ⟨by decide, rfl⟩) ⟨by decide, rfl⟩) ⟨by decide, rfl⟩
  exact ⟨_, run, rfl, (array_refines_list (m := fun _ => some fun _ => 0) rfl run).2.2.1⟩

end Os161.Kern
