import Mathlib.Data.Nat.Basic
import Mathlib.Tactic.Common
import Mathlib.Tactic.Ring

/-!
# Cells at consecutive addresses

A memory is a function on addresses of some width, and addresses wrap around. `loadCells` and
`storeCells` read and write a list at consecutive addresses. A copy that goes through the cells in
order is a store of what was loaded so far (`storeCells_append` with `loadCells_add`).

`copyUp` and `copyDown` copy within one memory, block by block. Each of them is a load of the whole
range and then a store of it, provided that it does not overwrite blocks that are still to be
copied.
-/
namespace Os161.Lib

variable {w : Nat} {α : Type} {m : BitVec w → α} {a : BitVec w} {l : List α}

def loadCells (m : BitVec w → α) (a : BitVec w) (n : Nat) : List α :=
  (List.range n).map fun i => m (a + BitVec.ofNat w i)

def storeCells (m : BitVec w → α) (a : BitVec w) (l : List α) : BitVec w → α := fun b =>
  l[(b - a).toNat]?.getD (m b)

@[simp] theorem length_loadCells (m : BitVec w → α) (a : BitVec w) (n : Nat) :
    (loadCells m a n).length = n := by simp [loadCells]

@[simp] theorem loadCells_zero (m : BitVec w → α) (a : BitVec w) : loadCells m a 0 = [] := rfl

@[simp] theorem storeCells_nil (m : BitVec w → α) (a : BitVec w) : storeCells m a [] = m := by
  funext b
  simp [storeCells]

theorem add_ofNat_add (a : BitVec w) (i j : Nat) :
    a + BitVec.ofNat w i + BitVec.ofNat w j = a + BitVec.ofNat w (i + j) := by
  rw [BitVec.ofNat_add, BitVec.add_assoc]

theorem loadCells_add (m : BitVec w → α) (a : BitVec w) (n k : Nat) :
    loadCells m a (n + k) = loadCells m a n ++ loadCells m (a + BitVec.ofNat w n) k := by
  rw [loadCells, List.range_add, List.map_append, List.map_map]
  refine congrArg (_ ++ ·) (List.map_congr_left fun i _ => ?_)
  simp only [Function.comp_apply, add_ofNat_add]

variable {n : Nat}

/-- Distances from an address further on. -/
theorem toNat_sub_add_ofNat (b a : BitVec w) (hn : n < 2 ^ w) : (b - (a + BitVec.ofNat w n)).toNat =
    if n ≤ (b - a).toNat then (b - a).toNat - n else (b - a).toNat + 2 ^ w - n := by
  have hb := (b - a).isLt
  have hsub : b - (a + BitVec.ofNat w n) = b - a - BitVec.ofNat w n := by
    rw [BitVec.sub_sub]
  rw [hsub, BitVec.toNat_sub, BitVec.toNat_ofNat, Nat.mod_eq_of_lt hn]
  split
  · rw [Nat.mod_eq_sub_mod (by omega), Nat.mod_eq_of_lt (by omega)]
    omega
  · rw [Nat.mod_eq_of_lt (by omega)]
    omega

theorem storeCells_append (m : BitVec w → α) (a : BitVec w) (l l' : List α) (h : l.length + l'.length ≤ 2 ^ w) :
    storeCells (storeCells m a l) (a + BitVec.ofNat w l.length) l' = storeCells m a (l ++ l') := by
  cases l' with
  | nil => simp
  | cons x l' =>
    funext b
    rw [List.length_cons] at h
    have hlt : l.length < 2 ^ w := by omega
    simp only [storeCells, toNat_sub_add_ofNat b a hlt]
    have hb := (b - a).isLt
    split
    · next hle =>
      rw [List.getElem?_append_right hle, List.getElem?_eq_none hle]
      rfl
    · next hgt =>
      rw [List.getElem?_append_left (by omega), List.getElem?_eq_none (by rw [List.length_cons]; omega)]
      rfl

variable {i : Nat}

theorem storeCells_apply (m : BitVec w → α) (a : BitVec w) (hi : i < l.length)
    (hl : l.length ≤ 2 ^ w) : storeCells m a l (a + BitVec.ofNat w i) = l[i] := by
  have hsub : (a + BitVec.ofNat w i - a).toNat = i := by
    rw [BitVec.add_comm, BitVec.add_sub_cancel, BitVec.toNat_ofNat, Nat.mod_eq_of_lt (by omega)]
  rw [storeCells, hsub, List.getElem?_eq_getElem hi]
  rfl

theorem storeCells_of_le {b : BitVec w} (hb : l.length ≤ (b - a).toNat) : storeCells m a l b = m b := by
  rw [storeCells, List.getElem?_eq_none hb]
  rfl

theorem storeCells_offset (m : BitVec w → α) (a : BitVec w) (l : List α) (hn : n < 2 ^ w)
    (hl : n + l.length ≤ 2 ^ w) (hi : i < 2 ^ w) : storeCells m (a + BitVec.ofNat w n) l (a + BitVec.ofNat w i) =
      if n ≤ i then l[i - n]?.getD (m (a + BitVec.ofNat w i)) else m (a + BitVec.ofNat w i) := by
  have hsub : (a + BitVec.ofNat w i - a).toNat = i := by
    rw [BitVec.add_comm, BitVec.add_sub_cancel, BitVec.toNat_ofNat, Nat.mod_eq_of_lt hi]
  rw [storeCells, toNat_sub_add_ofNat _ a hn, hsub]
  split
  · rfl
  · rw [List.getElem?_eq_none (by omega)]
    rfl

/-- Stores at two places that follow each other, the second one first. -/
theorem storeCells_append_comm (m : BitVec w → α) (a : BitVec w) (l l' : List α) (h : l.length + l'.length ≤ 2 ^ w) :
    storeCells (storeCells m (a + BitVec.ofNat w l.length) l') a l = storeCells m a (l ++ l') := by
  rw [← storeCells_append m a l l' h]
  cases l' with
  | nil => simp
  | cons x l' =>
    funext b
    rw [List.length_cons] at h
    have hlt : l.length < 2 ^ w := by omega
    simp only [storeCells, toNat_sub_add_ofNat b a hlt]
    split
    · next hle =>
      rw [List.getElem?_eq_none hle]
      rfl
    · next hgt =>
      rw [List.getElem?_eq_getElem (Nat.not_le.1 hgt), List.getElem?_eq_none (by rw [List.length_cons]; omega)]
      rfl

/-- Cells that a store does not reach. -/
theorem loadCells_storeCells {b : BitVec w} (h : ∀ j < n, l.length ≤ (b + BitVec.ofNat w j - a).toNat) :
    loadCells (storeCells m a l) b n = loadCells m b n := by
  refine List.map_congr_left fun j hj => ?_
  exact storeCells_of_le (h j (List.mem_range.1 hj))

/-! ## Copies within a memory -/

variable (size : Nat) (dst src : BitVec w)

/-- Copy the `n` blocks from block `i` on, the lowest one first. -/
def copyUp : Nat → Nat → (BitVec w → α) → BitVec w → α
  | 0, _, m => m
  | n + 1, i, m => copyUp n (i + 1)
      (storeCells m (dst + BitVec.ofNat w (size * i)) (loadCells m (src + BitVec.ofNat w (size * i)) size))

/-- Copy the first blocks, the highest one first. -/
def copyDown : Nat → (BitVec w → α) → BitVec w → α
  | 0, m => m
  | i + 1, m => copyDown i
      (storeCells m (dst + BitVec.ofNat w (size * i)) (loadCells m (src + BitVec.ofNat w (size * i)) size))

variable {size dst src}

theorem toNat_add_ofNat (a : BitVec w) (h : a.toNat + i < 2 ^ w) :
    (a + BitVec.ofNat w i).toNat = a.toNat + i := by
  rw [BitVec.toNat_add, BitVec.toNat_ofNat, Nat.mod_eq_of_lt (a := i) (by omega), Nat.mod_eq_of_lt h]

/-- Going up, what has been stored ends before what is loaded next. -/
theorem copyUp_from (hle : dst.toNat ≤ src.toNat) (n i : Nat) (h : src.toNat + size * (i + n) ≤ 2 ^ w) :
    copyUp size dst src n i (storeCells m dst (loadCells m src (size * i))) =
      storeCells m dst (loadCells m src (size * (i + n))) := by
  induction n generalizing i with
  | zero => rfl
  | succ n ih =>
    have hsize : size * (i + (n + 1)) = size * i + size + size * n := by ring
    have hload : loadCells (storeCells m dst (loadCells m src (size * i))) (src + BitVec.ofNat w (size * i)) size =
        loadCells m (src + BitVec.ofNat w (size * i)) size := by
      apply loadCells_storeCells
      intro j hj
      rw [length_loadCells, add_ofNat_add, BitVec.toNat_sub_of_le] <;>
        simp only [BitVec.le_def, toNat_add_ofNat src (i := size * i + j) (by omega)] <;> omega
    have hstore := storeCells_append m dst (loadCells m src (size * i))
      (loadCells m (src + BitVec.ofNat w (size * i)) size) (by simp only [length_loadCells]; omega)
    rw [length_loadCells] at hstore
    unfold copyUp
    rw [hload, hstore, ← loadCells_add, ← Nat.mul_succ, ih (i + 1) (by rw [Nat.add_right_comm]; exact h)]
    rw [Nat.add_right_comm]
    rfl

theorem copyUp_eq (hle : dst.toNat ≤ src.toNat) (h : src.toNat + size * n ≤ 2 ^ w) :
    copyUp size dst src n 0 m = storeCells m dst (loadCells m src (size * n)) := by
  have hfrom := copyUp_from (m := m) hle n 0 (by rwa [Nat.zero_add])
  rwa [Nat.mul_zero, loadCells_zero, storeCells_nil, Nat.zero_add] at hfrom

/-- Going down, what has been stored begins behind what is loaded next. -/
theorem copyDown_from (hle : src.toNat ≤ dst.toNat) (i k : Nat) (h : dst.toNat + size * (i + k) ≤ 2 ^ w) :
    copyDown size dst src i (storeCells m (dst + BitVec.ofNat w (size * i))
        (loadCells m (src + BitVec.ofNat w (size * i)) (size * k))) =
      storeCells m dst (loadCells m src (size * (i + k))) := by
  induction i generalizing k with
  | zero => simp [copyDown]
  | succ i ih =>
    have hsize : size * (i + 1 + k) = size * i + size + size * k := by ring
    have hsucc : size * (i + 1) = size * i + size := Nat.mul_succ size i
    have hload : loadCells (storeCells m (dst + BitVec.ofNat w (size * (i + 1)))
        (loadCells m (src + BitVec.ofNat w (size * (i + 1))) (size * k))) (src + BitVec.ofNat w (size * i)) size =
        loadCells m (src + BitVec.ofNat w (size * i)) size := by
      apply loadCells_storeCells
      intro j hj
      rw [length_loadCells, add_ofNat_add]
      by_cases hk : size * k = 0
      · omega
      · rw [BitVec.toNat_sub, toNat_add_ofNat src (i := size * i + j) (by omega),
          toNat_add_ofNat dst (i := size * (i + 1)) (by omega), Nat.mod_eq_of_lt (by omega)]
        omega
    have hstore := storeCells_append_comm m (dst + BitVec.ofNat w (size * i))
      (loadCells m (src + BitVec.ofNat w (size * i)) size)
      (loadCells m (src + BitVec.ofNat w (size * (i + 1))) (size * k)) (by simp only [length_loadCells]; omega)
    rw [length_loadCells, add_ofNat_add, ← hsucc] at hstore
    unfold copyDown
    have hnext : i + (k + 1) = i + 1 + k := by omega
    rw [hload, hstore, hsucc, ← add_ofNat_add src (size * i) size, ← loadCells_add, Nat.add_comm size, ← Nat.mul_succ,
      ih (k + 1) (hnext ▸ h), hnext]

theorem copyDown_eq (hle : src.toNat ≤ dst.toNat) (h : dst.toNat + size * n ≤ 2 ^ w) :
    copyDown size dst src n m = storeCells m dst (loadCells m src (size * n)) := by
  have hfrom := copyDown_from (m := m) hle n 0 (by rwa [Nat.add_zero])
  rwa [Nat.mul_zero, loadCells_zero, storeCells_nil, Nat.add_zero] at hfrom

/-! ## Filling -/

variable (size a) in
/-- Fill the `n` blocks from block `i` on with a value. -/
def fillUp (x : α) : Nat → Nat → (BitVec w → α) → BitVec w → α
  | 0, _, m => m
  | n + 1, i, m => fillUp x n (i + 1) (storeCells m (a + BitVec.ofNat w (size * i)) (List.replicate size x))

theorem fillUp_from (x : α) (n i : Nat) (h : size * (i + n) ≤ 2 ^ w) :
    fillUp a size x n i (storeCells m a (List.replicate (size * i) x)) =
      storeCells m a (List.replicate (size * (i + n)) x) := by
  induction n generalizing i with
  | zero => rfl
  | succ n ih =>
    have hsize : size * (i + (n + 1)) = size * i + size + size * n := by ring
    have hstore := storeCells_append m a (List.replicate (size * i) x) (List.replicate size x)
      (by simp only [List.length_replicate]; omega)
    rw [List.length_replicate, List.replicate_append_replicate, ← Nat.mul_succ] at hstore
    unfold fillUp
    rw [hstore, ih (i + 1) (by rw [Nat.add_right_comm]; exact h), Nat.add_right_comm]
    rfl

theorem fillUp_eq (x : α) (h : size * n ≤ 2 ^ w) :
    fillUp a size x n 0 m = storeCells m a (List.replicate (size * n) x) := by
  have hfrom := fillUp_from (m := m) (a := a) x n 0 (by rwa [Nat.zero_add])
  rwa [Nat.mul_zero, List.replicate_zero, storeCells_nil, Nat.zero_add] at hfrom

end Os161.Lib
