import Mathlib.Data.List.Count
import Mathlib.Tactic.Common

/-!
# Reference counts and threads

Threads share objects that count their references. A reference is held by someone, or it has been
given up and one thread owes the count its decrement, or it is lost: the count will not be
decremented for it any more. A count is right when it is the number of these references.
-/
namespace Os161.Lib

variable {α κ : Type} [DecidableEq α] {owes : κ → Option α} {threads : List κ} {i : Nat} {k k' : κ}
  {a : α}

def owed (owes : κ → Option α) (threads : List κ) (a : α) : Nat :=
  threads.countP fun k => owes k = some a

theorem owed_pos (hk : threads[i]? = some k) (h : owes k = some a) : 0 < owed owes threads a :=
  List.countP_pos_iff.2 ⟨k, List.mem_of_getElem? hk, by simpa using h⟩

theorem exists_of_owed_pos (h : 0 < owed owes threads a) :
    ∃ (i : Nat) (k : κ), threads[i]? = some k ∧ owes k = some a := by
  obtain ⟨k, hk, h⟩ := List.countP_pos_iff.1 h
  obtain ⟨i, hi⟩ := List.getElem?_of_mem hk
  exact ⟨i, k, hi, by simpa using h⟩

theorem owed_set (hk : threads[i]? = some k) (k' : κ) (a : α) :
    owed owes (threads.set i k') a + (if owes k = some a then 1 else 0) =
      owed owes threads a + if owes k' = some a then 1 else 0 := by
  have hpos (h : owes k = some a) : 0 < owed owes threads a := owed_pos hk h
  obtain ⟨hi, rfl⟩ := List.getElem?_eq_some_iff.1 hk
  have hset : owed owes (threads.set i k') a = owed owes threads a - (if owes threads[i] = some a then 1 else 0) +
        if owes k' = some a then 1 else 0 := by
    simpa [owed] using List.countP_set (p := fun k => decide (owes k = some a)) (a := k') hi
  grind

/-- Two threads that owe to one object make two decrements. -/
theorem one_lt_owed {j : Nat} (hij : i < j) (hi : threads[i]? = some k) (hj : threads[j]? = some k')
    (hk : owes k = some a) (hk' : owes k' = some a) : 1 < owed owes threads a := by
  have happ : owed owes threads a = owed owes (threads.take j) a + owed owes (threads.drop j) a := by
    rw [owed, owed, owed, ← List.countP_append, List.take_append_drop]
  have h1 : 0 < owed owes (threads.take j) a :=
    owed_pos (i := i) (by rwa [List.getElem?_take_of_lt hij]) hk
  have h2 : 0 < owed owes (threads.drop j) a := owed_pos (i := 0) (by simpa using hj) hk'
  omega

theorem eq_of_owed_le_one {j : Nat} (h : owed owes threads a ≤ 1) (hi : threads[i]? = some k)
    (hj : threads[j]? = some k') (hk : owes k = some a) (hk' : owes k' = some a) : i = j := by
  by_contra hne
  cases Nat.lt_or_gt_of_ne hne with
  | inl hlt => exact absurd (one_lt_owed hlt hi hj hk hk') (by omega)
  | inr hlt => exact absurd (one_lt_owed hlt hj hi hk' hk) (by omega)

def Balanced (owes : κ → Option α) (count : α → Nat) (held : List α) (threads : List κ)
    (lost : α → Nat) : Prop :=
  ∀ a, count a = held.count a + owed owes threads a + lost a

/-- What a step adds to the counts, to what is held, owed and lost has to agree: `d` is the debt
that is gone after it and `e` is the new one. -/
theorem Balanced.step {count count' : α → Nat} {held held' : List α} {threads' : List κ}
    {lost lost' : α → Nat} {d e : Option α} (B : Balanced owes count held threads lost)
    (howed : ∀ a, owed owes threads' a + (if d = some a then 1 else 0) =
      owed owes threads a + if e = some a then 1 else 0)
    (h : ∀ a, count' a + held.count a + lost a + (if d = some a then 1 else 0) =
      count a + held'.count a + lost' a + if e = some a then 1 else 0) : Balanced owes count' held' threads' lost' := by
  intro a
  have := B a
  have := h a
  have := howed a
  omega

end Os161.Lib
