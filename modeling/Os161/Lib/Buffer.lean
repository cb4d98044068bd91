import Mathlib.Algebra.GroupWithZero.Nat
import Mathlib.Logic.Function.Basic
import Mathlib.Tactic.Common
import Os161.Lib.Prog

/-!
# Blocks of memory, growth and rings

A `Buffer` is a block of memory with room for a number of pointer-sized elements. Blocks come from
an allocator that may refuse any request, and that says nothing about what a new block holds: a
`Supply` lists its answers to the requests to come. On a machine with 32-bit addresses the length
of a request in bytes is computed modulo `2 ^ 32`.

A structure that outgrows its block makes a larger size, by one step after another, until there is
room. A ring keeps a list in a buffer, from a start position on and around the end.
-/
namespace Os161.Lib

variable {α : Type}

structure Buffer (α : Type) where
  room : Nat
  cell : Nat → α

def Buffer.store (b : Buffer α) (i : Nat) (x : α) : Buffer α :=
  { b with cell := Function.update b.cell i x }

@[simp] theorem Buffer.store_room (b : Buffer α) (i : Nat) (x : α) : (b.store i x).room = b.room := rfl

@[simp] theorem Buffer.store_cell (b : Buffer α) (i : Nat) (x : α) : (b.store i x).cell i = x :=
  Function.update_self _ _ _

theorem Buffer.store_cell_ne (b : Buffer α) {i j : Nat} (x : α) (h : j ≠ i) :
    (b.store i x).cell j = b.cell j := Function.update_of_ne h _ _

/-- The answers of an allocator: nothing, or a block with what it happens to hold. -/
abbrev Supply (α : Type) := Nat → Option (Nat → α)

def Supply.rest (m : Supply α) : Supply α := fun n => m (n + 1)

/-- The number of pointers that fit into a block allocated for `n` of them. -/
def roomFor (n : Nat) : Nat := n * 4 % 2 ^ 32 / 4

theorem roomFor_of_lt {n : Nat} (h : 4 * n < 2 ^ 32) : roomFor n = n := by
  unfold roomFor
  omega

/-- Request a block for `n` pointers from the supply that stands beside the state. -/
def alloc {π ε σ : Type} (n : Nat) : Prog π ε (σ × Supply α) (Option (Buffer α)) := fun s =>
  .ok (.ok ((s.2 0).map fun cell => ⟨roomFor n, cell⟩), (s.1, s.2.rest))

@[simp] theorem sat_alloc {π ε σ : Type} {K : π → Prop} (n : Nat) {s : σ × Supply α}
    {Q : Except ε (Option (Buffer α)) → σ × Supply α → Prop} : Prog.Sat K (alloc n) s Q ↔
      Q (.ok ((s.2 0).map fun cell => ⟨roomFor n, cell⟩)) (s.1, s.2.rest) := ⟨id, id⟩

/-! ## Growth -/

section Growth

variable {g : Nat → Nat} {t n : Nat}

/-- The size reached from `n` in at most `f` steps of `g` towards the target. -/
def growTo (g : Nat → Nat) (target : Nat) : Nat → Nat → Nat
  | 0, n => n
  | f + 1, n => if n < target then growTo g target f (g n) else n

/-- The loop that computes it in an `int`. -/
def growLoop {π ε σ : Type} (g : Nat → Nat) (overflow endless : π) (target : Nat) :
    Nat → Nat → Prog π ε σ Nat
  | 0, _ => Prog.stop endless
  | f + 1, n =>
    if n < target then do
      Prog.check (0 < g n ∧ g n < 2 ^ 31) overflow
      growLoop g overflow endless target f (g n)
    else pure n

theorem le_growTo (hg : ∀ k, n ≤ k → k < g k) (f : Nat) : n ≤ growTo g t f n := by
  induction f generalizing n with
  | zero => exact Nat.le_refl n
  | succ f ih =>
    have hn := hg n (Nat.le_refl n)
    unfold growTo
    split
    · have := ih (n := g n) fun k hk => hg k (by omega)
      omega
    · exact Nat.le_refl n

theorem growTo_le (hg : ∀ a b, a ≤ b → g a ≤ g b) (f : Nat) : growTo g t f n ≤ max n (g (t - 1)) := by
  induction f generalizing n with
  | zero => exact Nat.le_max_left _ _
  | succ f ih =>
    unfold growTo
    split
    · have hlast := ih (n := g n)
      have hstep := hg n (t - 1) (by omega)
      omega
    · omega

/-- Steps that double reach the target, unless all of them were made. -/
theorem growTo_cases (hg : ∀ k, n ≤ k → 2 * k ≤ g k) (f : Nat) : t ≤ growTo g t f n ∨ n * 2 ^ f ≤ growTo g t f n := by
  induction f generalizing n with
  | zero => exact .inr (by simp [growTo])
  | succ f ih =>
    have hn := hg n (Nat.le_refl n)
    unfold growTo
    split
    · obtain h | h := ih (n := g n) fun k hk => hg k (by omega)
      · exact .inl h
      · refine .inr (Nat.le_trans ?_ h)
        calc n * 2 ^ (f + 1) = 2 * n * 2 ^ f := by rw [Nat.pow_succ]; grind
          _ ≤ g n * 2 ^ f := Nat.mul_le_mul_right _ hn
    · exact .inl (by omega)

/-- If the loop ends it ends with the size, and it ends if that reaches the target within an `int`.
-/
theorem growLoop_spec {π ε σ : Type} {overflow endless : π} {s : σ} (hg : ∀ k, n ≤ k → k < g k) (f : Nat) :
    Prog.Sat (fun _ => growTo g t f n < t ∨ 2 ^ 31 ≤ growTo g t f n)
      (growLoop g overflow endless t (f + 1) n : Prog π ε σ Nat) s fun r s' =>
        r = .ok (growTo g t f n) ∧ t ≤ growTo g t f n ∧ s' = s := by
  induction f generalizing n with
  | zero =>
    unfold growLoop
    by_cases hlt : n < t
    · rw [if_pos hlt]
      simp only [Prog.sat_bind, Prog.sat_check]
      split
      · exact .inl hlt
      · exact .inl hlt
    · rw [if_neg hlt]
      exact ⟨rfl, Nat.le_of_not_lt hlt, rfl⟩
  | succ f ih =>
    unfold growLoop
    by_cases hlt : n < t
    · have hn := hg n (Nat.le_refl n)
      have hg' : ∀ k, g n ≤ k → k < g k := fun k hk => hg k (by omega)
      have e : growTo g t (f + 1) n = growTo g t f (g n) := by rw [growTo, if_pos hlt]
      have hle := le_growTo (t := t) hg' f
      rw [e, if_pos hlt]
      simp only [Prog.sat_bind, Prog.sat_check]
      split
      · exact ih hg'
      · exact .inr (by omega)
    · have e : growTo g t (f + 1) n = n := by rw [growTo, if_neg hlt]
      rw [e, if_neg hlt]
      exact ⟨rfl, Nat.le_of_not_lt hlt, rfl⟩

end Growth

/-! ## Rings -/

section Ring

variable {cell : Nat → α} {n start i j : Nat} {x : α} {l : List α}

/-- The cells from `start` on, taken around `n`, hold the list. -/
def RingHolds (cell : Nat → α) (n start : Nat) (l : List α) : Prop :=
  ∀ k, k < l.length → l[k]? = some (cell ((start + k) % n))

theorem ring_index (hs : start < n) (hk : i ≤ n) :
    (start + i) % n = if start + i < n then start + i else start + i - n := by
  split
  · next h => exact Nat.mod_eq_of_lt h
  · next h =>
    rw [Nat.mod_eq_sub_mod (by omega)]
    exact Nat.mod_eq_of_lt (by omega)

theorem ring_index_inj (hs : start < n) (hi : i < n) (hj : j < n) : (start + i) % n = (start + j) % n ↔ i = j := by
  rw [ring_index hs (Nat.le_of_lt hi), ring_index hs (Nat.le_of_lt hj)]
  split <;> split <;> omega

/-- A ring of `n` cells with fewer than `n` elements is full exactly when one cell is left. -/
theorem ring_full_iff (hs : start < n) (hl : i < n) : (start + i + 1) % n = start ↔ i + 1 = n := by
  rw [Nat.add_assoc, ring_index hs (by omega)]
  split <;> omega

theorem ringHolds_nil : RingHolds cell n start [] := fun _ h => nomatch h

theorem RingHolds.push (h : RingHolds cell n start l) (hs : start < n) (hl : l.length < n) :
    RingHolds (Function.update cell ((start + l.length) % n) x) n start (l ++ [x]) := by
  intro k hk
  rw [List.length_append, List.length_singleton] at hk
  obtain hk | rfl := Nat.lt_succ_iff_lt_or_eq.1 hk
  · have hne : (start + k) % n ≠ (start + l.length) % n := by
      rw [ne_eq, ring_index_inj hs (by omega) hl]
      omega
    rw [List.getElem?_append_left hk, Function.update_of_ne hne, h k hk]
  · rw [List.getElem?_concat_length, Function.update_self]

theorem RingHolds.pop (h : RingHolds cell n start (x :: l)) (hs : start < n) :
    cell start = x ∧ RingHolds cell n ((start + 1) % n) l := by
  constructor
  · have h0 := h 0 (by simp)
    rw [Nat.add_zero, Nat.mod_eq_of_lt hs] at h0
    exact (Option.some.inj h0).symm
  · intro k hk
    have hk' := h (k + 1) (by simpa using hk)
    rwa [List.getElem?_cons_succ, ← Nat.add_assoc, Nat.add_right_comm, ← Nat.mod_add_mod] at hk'

end Ring

end Os161.Lib
