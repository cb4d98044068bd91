import Mathlib.Tactic.Common

/-!
# Exclusive ownership of resources

A relation `R p b` between places and resources, and a set `U` of resources in use. The
relation is exclusive when a resource is in use exactly when some place holds it, and no two
places hold the same one. An allocator keeps it exclusive through three kinds of steps:
a place takes a fresh resource (`claim`), resources change places (`move`), and resources go
back to the pool (`release`).
-/
namespace Os161.Lib

variable {P B : Type}

structure Exclusive (R : P → B → Prop) (U : B → Prop) : Prop where
  sound : ∀ {p b}, R p b → U b
  unique : ∀ {p q b}, R p b → R q b → p = q
  complete : ∀ {b}, U b → ∃ p, R p b

namespace Exclusive

variable {R R' : P → B → Prop} {U U' : B → Prop}

section

variable (h : Exclusive R U)
include h

theorem congr (hR : ∀ p b, R' p b ↔ R p b) (hU : ∀ b, U' b ↔ U b) : Exclusive R' U' := by
  obtain rfl : R' = R := funext fun p => funext fun b => propext (hR p b)
  obtain rfl : U' = U := funext fun b => propext (hU b)
  exact h

/-- A resource out of use is held nowhere. -/
theorem not_held {b : B} (hb : ¬ U b) (p : P) : ¬ R p b :=
  fun hp => hb (h.sound hp)

theorem claim {p : P} {b : B} (hb : ¬ U b)
    (hR : ∀ q c, R' q c ↔ R q c ∨ (q = p ∧ c = b)) (hU : ∀ c, U' c ↔ U c ∨ c = b) :
    Exclusive R' U' where
  sound {q c} hq := by
    rcases (hR q c).1 hq with hq | ⟨-, rfl⟩
    · exact (hU c).2 (.inl (h.sound hq))
    · exact (hU c).2 (.inr rfl)
  unique {q r c} hq hr := by
    rcases (hR q c).1 hq with hq | ⟨hqp, hc⟩ <;> rcases (hR r c).1 hr with hr | ⟨hrp, hc'⟩
    · exact h.unique hq hr
    · exact absurd (hc' ▸ hq) (h.not_held hb q)
    · exact absurd (hc ▸ hr) (h.not_held hb r)
    · exact hqp.trans hrp.symm
  complete {c} hc := by
    rcases (hU c).1 hc with hc | rfl
    · obtain ⟨q, hq⟩ := h.complete hc
      exact ⟨q, (hR q c).2 (.inl hq)⟩
    · exact ⟨p, (hR p c).2 (.inr ⟨rfl, rfl⟩)⟩

/-- Every resource `c` that was at `p` is at `f p c` now. -/
theorem move (f : P → B → P) (hR : ∀ q c, R' q c ↔ ∃ p, R p c ∧ f p c = q) : Exclusive R' U where
  sound {q c} hq := by
    obtain ⟨p, hp, -⟩ := (hR q c).1 hq
    exact h.sound hp
  unique {q r c} hq hr := by
    obtain ⟨p, hp, rfl⟩ := (hR q c).1 hq
    obtain ⟨p', hp', rfl⟩ := (hR r c).1 hr
    rw [h.unique hp hp']
  complete {c} hc := by
    obtain ⟨p, hp⟩ := h.complete hc
    exact ⟨f p c, (hR _ c).2 ⟨p, hp, rfl⟩⟩

/-- The resources of the places in `S` go to the places that `f` gives them. -/
theorem moveTo (S : P → Prop) (f : B → P)
    (hR : ∀ r c, R' r c ↔ (R r c ∧ ¬ S r) ∨ (r = f c ∧ ∃ p, S p ∧ R p c)) : Exclusive R' U := by
  classical
  refine h.move (fun r c => if S r then f c else r) fun r c => (hR r c).trans ⟨?_, ?_⟩
  · rintro (⟨hr, hS⟩ | ⟨rfl, p, hS, hp⟩)
    · exact ⟨r, hr, if_neg hS⟩
    · exact ⟨p, hp, if_pos hS⟩
  · rintro ⟨p, hp, he⟩
    split at he
    · next hS => exact .inr ⟨he.symm, p, hS, hp⟩
    · next hS => exact .inl ⟨he ▸ hp, he ▸ hS⟩

/-- One resource `b` goes from the place `p` to the place `q`. -/
theorem moveOne {p q : P} {b : B} (hp : R p b) (hb : ∀ c, R p c → c = b)
    (hR : ∀ r c, R' r c ↔ (R r c ∧ r ≠ p) ∨ (r = q ∧ c = b)) : Exclusive R' U := by
  refine h.moveTo (· = p) (fun _ => q) fun r c => (hR r c).trans ?_
  have : (∃ p', p' = p ∧ R p' c) ↔ c = b := by
    rw [exists_eq_left]
    exact ⟨hb c, fun hc => hc ▸ hp⟩
  rw [this]

theorem release (T : B → Prop) (hR : ∀ q c, R' q c ↔ R q c ∧ ¬ T c)
    (hU : ∀ c, U' c ↔ U c ∧ ¬ T c) : Exclusive R' U' where
  sound {q c} hq := (hU c).2 ⟨h.sound ((hR q c).1 hq).1, ((hR q c).1 hq).2⟩
  unique {q r c} hq hr := h.unique ((hR q c).1 hq).1 ((hR r c).1 hr).1
  complete {c} hc := by
    obtain ⟨q, hq⟩ := h.complete ((hU c).1 hc).1
    exact ⟨q, (hR q c).2 ⟨hq, ((hU c).1 hc).2⟩⟩

end

end Exclusive

end Os161.Lib
