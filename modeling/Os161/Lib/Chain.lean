import Mathlib.Tactic.Common
import Mathlib.Data.List.Nodup
import Mathlib.Logic.Function.Basic

/-!
# Linked lists in a store

`next` is the content of the link fields of a store, and `Chain next p l` says that following
the links from the pointer `p` visits exactly the cells of `l` and then ends. A pointer that
leads to an end determines what it visits, so that a chain has no cycle. `unlink` is the usual
removal through a pointer to the link that leads to the cell.
-/
namespace Os161.Lib

variable {α : Type}

def Chain (next : α → Option α) : Option α → List α → Prop
  | p, [] => p = none
  | p, a :: l => p = some a ∧ Chain next (next a) l

namespace Chain

variable {next next' : α → Option α} {p : Option α} {a b : α} {l m : List α}

@[simp] theorem nil_iff : Chain next p [] ↔ p = none := Iff.rfl

@[simp] theorem cons_iff : Chain next p (a :: l) ↔ p = some a ∧ Chain next (next a) l := Iff.rfl

theorem unique (h : Chain next p l) (h' : Chain next p m) : l = m := by
  induction l generalizing p m with
  | nil =>
    cases m with
    | nil => rfl
    | cons b m => exact absurd (h.symm.trans h'.1) (by simp)
  | cons a l ih =>
    cases m with
    | nil => exact absurd (h'.symm.trans h.1) (by simp)
    | cons b m =>
      obtain rfl : a = b := Option.some.inj (h.1.symm.trans h'.1)
      rw [ih h.2 h'.2]

/-- Every cell of a chain starts a chain of its own. -/
theorem drop (h : Chain next p (l ++ a :: m)) : Chain next (some a) (a :: m) := by
  induction l generalizing p with
  | nil => exact ⟨rfl, h.2⟩
  | cons b l ih => exact ih h.2

theorem nodup (h : Chain next p l) : l.Nodup := by
  induction l generalizing p with
  | nil => exact List.nodup_nil
  | cons a l ih =>
    refine List.nodup_cons.2 ⟨fun ha => ?_, ih h.2⟩
    obtain ⟨xs, ys, rfl⟩ := List.append_of_mem ha
    have whole : Chain next (some a) (a :: (xs ++ a :: ys)) := ⟨rfl, h.2⟩
    have hlen := congrArg List.length ((drop h.2).unique whole)
    simp at hlen
    omega

/-- A chain depends on the links of its own cells only. -/
theorem congr (h : Chain next p l) (same : ∀ a ∈ l, next' a = next a) : Chain next' p l := by
  induction l generalizing p with
  | nil => exact h
  | cons a l ih =>
    refine ⟨h.1, ?_⟩
    rw [same a List.mem_cons_self]
    exact ih h.2 fun b hb => same b (List.mem_cons_of_mem _ hb)

section Update

variable [DecidableEq α]

theorem push (h : Chain next p l) (ha : a ∉ l) : Chain (Function.update next a p) (some a) (a :: l) := by
  refine ⟨rfl, ?_⟩
  rw [Function.update_self]
  refine h.congr fun b hb => Function.update_of_ne ?_ _ _
  rintro rfl
  exact ha hb

end Update

end Chain

/-! ## Removal -/

section Unlink

variable [DecidableEq α]

/-- Starting at the link of `b`, redirect the link that leads to `a` past it. The fuel bounds
the number of links that are looked at. -/
def unlinkAfter (next : α → Option α) (a : α) : Nat → α → Option (α → Option α)
  | 0, _ => none
  | n + 1, b =>
    match next b with
    | none => some next
    | some c => if c = a then some (Function.update next b (next a)) else unlinkAfter next a n c

/-- Remove `a` from the list at `base`: the new base and the new links. -/
def unlink (next : α → Option α) (a : α) (n : Nat) : Option α → Option (Option α × (α → Option α))
  | none => some (none, next)
  | some b => if b = a then some (next a, next) else (unlinkAfter next a n b).map (some b, ·)

variable {next next' : α → Option α} {p p' : Option α} {a b : α} {l : List α} {n : Nat}

theorem unlinkAfter_spec (h : Chain next (next b) l) (hb : b ∉ l) (hn : l.length < n) :
    ∃ next', unlinkAfter next a n b = some next' ∧ Chain next' (next' b) (l.erase a) ∧
      ∀ c, c ∉ b :: l → next' c = next c := by
  induction l generalizing b n with
  | nil =>
    obtain ⟨n, rfl⟩ : ∃ k, n = k + 1 := ⟨n - 1, by simp at hn; omega⟩
    rw [Chain.nil_iff] at h
    exact ⟨next, by simp only [unlinkAfter, h], by simpa using h, fun _ _ => rfl⟩
  | cons c l ih =>
    obtain ⟨n, rfl⟩ : ∃ k, n = k + 1 := ⟨n - 1, by simp at hn; omega⟩
    obtain ⟨hbc, hc⟩ := h
    have hcl : c ∉ l := (List.nodup_cons.1 (Chain.nodup (p := some c) ⟨rfl, hc⟩)).1
    simp only [unlinkAfter, hbc]
    by_cases e : c = a
    · subst e
      refine ⟨Function.update next b (next c), by simp, ?_, fun d hd => ?_⟩
      · rw [List.erase_cons_head, Function.update_self]
        refine hc.congr fun d hd => Function.update_of_ne ?_ _ _
        rintro rfl
        exact hb (List.mem_cons_of_mem _ hd)
      · refine Function.update_of_ne ?_ _ _
        rintro rfl
        exact hd List.mem_cons_self
    · obtain ⟨next', hu, hch, hsame⟩ := ih hc hcl (by simpa using hn)
      refine ⟨next', by simp [e, hu], ?_, fun d hd => hsame d fun h => hd ?_⟩
      · rw [List.erase_cons_tail (by simpa using e)]
        exact ⟨(hsame b hb).trans hbc, hch⟩
      · exact List.mem_cons_of_mem _ h

/-- Unlinking erases the cell from the list and touches no link outside it. -/
theorem unlink_spec (h : Chain next p l) (hn : l.length ≤ n) :
    ∃ p' next', unlink next a n p = some (p', next') ∧ Chain next' p' (l.erase a) ∧ ∀ c, c ∉ l → next' c = next c := by
  cases l with
  | nil =>
    rw [Chain.nil_iff] at h
    exact ⟨none, next, by rw [h, unlink], rfl, fun _ _ => rfl⟩
  | cons b l =>
    have hbl : b ∉ l := (List.nodup_cons.1 h.nodup).1
    obtain ⟨rfl, hch⟩ := h
    by_cases e : b = a
    · subst e
      exact ⟨next b, next, by simp [unlink], by simpa using hch, fun _ _ => rfl⟩
    · obtain ⟨next', hu, hch', hsame⟩ := unlinkAfter_spec (a := a) hch hbl hn
      refine ⟨some b, next', by simp [unlink, e, hu], ?_, hsame⟩
      rw [List.erase_cons_tail (by simpa using e)]
      exact ⟨rfl, hch'⟩

end Unlink

end Os161.Lib
