import Mathlib.Algebra.BigOperators.Group.List.Basic
import Mathlib.Algebra.Group.Pi.Basic
import Mathlib.Tactic.Common
import Os161.Lib.Run

/-!
# Threads at program points

A crew is a number of threads that share a state. Of a thread only its program point is kept, with
the values of its variables. What the threads hold together is a sum over their program points, in
any commutative monoid. A step of one thread changes the sum by what this thread holds before and
after it; the rest of the crew is a frame. So an invariant of the shared state and the sum is
checked for one thread and an arbitrary rest.
-/
namespace Os161.Lib

variable {σ κ ι ε M : Type}

structure Crew (σ κ : Type) where
  shared : σ
  threads : List κ

/-- What a step of a crew is: thread `i` does one of its steps, the environment does one, or a
thread comes in at the program point `k`. -/
inductive CrewLabel (κ ι ε : Type) where
  | thread (i : Nat) (l : ι)
  | env (e : ε)
  | enter (k : κ)

/-- Thread `i` takes `n` steps in a row. -/
def turns {κ ε : Type} (n i : Nat) : List (CrewLabel κ Unit ε) := List.replicate n (.thread i ())

/-- The steps of one thread, of the environment, and what a thread that comes in does. -/
structure CrewSys (σ κ ι ε : Type) where
  act : σ → κ → ι → Option (σ × κ)
  env : σ → ε → Option σ
  enter : σ → κ → Option σ

def CrewSys.next (m : CrewSys σ κ ι ε) (c : Crew σ κ) : CrewLabel κ ι ε → Option (Crew σ κ)
  | .thread i l =>
    match c.threads[i]? with
    | none => none
    | some k => (m.act c.shared k l).map fun p => ⟨p.1, c.threads.set i p.2⟩
  | .env e => (m.env c.shared e).map fun s => ⟨s, c.threads⟩
  | .enter k => (m.enter c.shared k).map fun s => ⟨s, c.threads ++ [k]⟩

def CrewSys.Step (m : CrewSys σ κ ι ε) (c : Crew σ κ) (l : CrewLabel κ ι ε) (c' : Crew σ κ) : Prop :=
  m.next c l = some c'

def CrewSys.play (m : CrewSys σ κ ι ε) (c : Crew σ κ) (l : CrewLabel κ ι ε) :
    Option (CrewLabel κ ι ε × Crew σ κ) :=
  (m.next c l).map (l, ·)

section Step

variable {m : CrewSys σ κ ι ε} {c c' : Crew σ κ} {l : CrewLabel κ ι ε}

theorem CrewSys.play_sound {c : Crew σ κ} {k l : CrewLabel κ ι ε} {c' : Crew σ κ}
    (h : m.play c k = some (l, c')) : m.Step c l c' := by
  obtain ⟨d, hd, heq⟩ := Option.map_eq_some_iff.1 h
  cases heq
  exact hd

theorem CrewSys.step_thread {i : Nat} {a : ι} (h : m.Step c (.thread i a) c') :
    ∃ k s k', c.threads[i]? = some k ∧ m.act c.shared k a = some (s, k') ∧ c' = ⟨s, c.threads.set i k'⟩ := by
  simp only [Step, next] at h
  cases hk : c.threads[i]? with
  | none => simp [hk] at h
  | some k =>
    simp only [hk] at h
    obtain ⟨p, hp, rfl⟩ := Option.map_eq_some_iff.1 h
    exact ⟨k, p.1, p.2, rfl, hp, rfl⟩

theorem CrewSys.step_env {e : ε} (h : m.Step c (.env e) c') : ∃ s, m.env c.shared e = some s ∧ c' = ⟨s, c.threads⟩ := by
  obtain ⟨s, hs, rfl⟩ := Option.map_eq_some_iff.1 h
  exact ⟨s, hs, rfl⟩

theorem CrewSys.step_enter {k : κ} (h : m.Step c (.enter k) c') :
    ∃ s, m.enter c.shared k = some s ∧ c' = ⟨s, c.threads ++ [k]⟩ := by
  obtain ⟨s, hs, rfl⟩ := Option.map_eq_some_iff.1 h
  exact ⟨s, hs, rfl⟩

/-- A run that is computed from its labels, which pass a test `C`. -/
theorem CrewSys.exists_run (m : CrewSys σ κ ι ε) (C : Crew σ κ → CrewLabel κ ι ε → Prop)
    [∀ c l, Decidable (C c l)] (P : Crew σ κ → Prop) [DecidablePred P] (c : Crew σ κ) (ks : List (CrewLabel κ ι ε))
    (h : replays (nextIf m.play fun c l _ => C c l) ks c fun _ c => P c) :
    ∃ tr c', Run (fun c l c' => m.Step c l c' ∧ C c l) c tr c' ∧ P c' := by
  obtain ⟨tr, c', hrun, hP⟩ := Run.of_replays (nextIf_sound CrewSys.play_sound) h
  exact ⟨tr, c', hrun.mono fun h => ⟨h.1, of_decide_eq_true h.2⟩, of_decide_eq_true hP⟩

end Step

/-! ## Sums over the threads -/

variable [AddCommMonoid M] {w : κ → M} {threads : List κ} {i j : Nat} {k k' : κ}

def total (w : κ → M) (threads : List κ) : M := (threads.map w).sum

@[simp] theorem total_append_singleton : total w (threads ++ [k]) = w k + total w threads := by
  simp [total, add_comm]

/-- The sum over the threads apart from thread `i`. -/
def rest (w : κ → M) (threads : List κ) (i : Nat) : M := total w (threads.eraseIdx i)

theorem total_eq_rest (hk : threads[i]? = some k) : total w threads = w k + rest w threads i := by
  obtain ⟨hi, rfl⟩ := List.getElem?_eq_some_iff.1 hk
  simpa [total, rest] using ((List.getElem_cons_eraseIdx_perm hi).map w).sum_eq.symm

theorem total_set (hk : threads[i]? = some k) (k' : κ) : total w (threads.set i k') = w k' + rest w threads i := by
  obtain ⟨hi, -⟩ := List.getElem?_eq_some_iff.1 hk
  simpa [total, rest] using ((List.set_perm_cons_eraseIdx hi k').map w).sum_eq

/-- Every other thread is in the rest. -/
theorem exists_rest_eq (hij : i ≠ j) (hj : threads[j]? = some k') : ∃ r, rest w threads i = w k' + r := by
  have hmem : k' ∈ threads.eraseIdx i := by
    obtain ⟨hlt, hk⟩ := List.getElem?_eq_some_iff.1 hj
    exact List.mem_eraseIdx_iff_getElem.2 ⟨j, hlt, hij.symm, hk⟩
  obtain ⟨n, hn⟩ := List.getElem?_of_mem hmem
  exact ⟨_, total_eq_rest hn⟩

/-- What the threads hold together is held by some thread. -/
theorem exists_of_total_ne_zero (h : total w threads ≠ 0) : ∃ k ∈ threads, w k ≠ 0 := by
  by_contra hnone
  refine h (List.sum_eq_zero fun y hy => ?_)
  obtain ⟨k, hk, rfl⟩ := List.mem_map.1 hy
  by_contra hv
  exact hnone ⟨k, hk, hv⟩

theorem exists_total_eq (hk : k ∈ threads) : ∃ r, total w threads = w k + r := by
  obtain ⟨n, hn⟩ := List.getElem?_of_mem hk
  exact ⟨_, total_eq_rest hn⟩

section Apply

variable {α : Type} {v : κ → α → M} {x : α}

theorem total_apply : total v threads x = total (v · x) threads := by
  induction threads with
  | nil => rfl
  | cons k threads ih =>
    simp only [total, List.map_cons, List.sum_cons, Pi.add_apply] at ih ⊢
    rw [ih]

/-- What the rest holds is held by some other thread. -/
theorem exists_of_rest_ne_zero (h : rest v threads i x ≠ 0) : ∃ j k, j ≠ i ∧ threads[j]? = some k ∧ v k x ≠ 0 := by
  rw [rest, total_apply] at h
  obtain ⟨k, hk, hv⟩ := exists_of_total_ne_zero h
  obtain ⟨j, hne, hj⟩ := List.mem_eraseIdx_iff_getElem?.1 hk
  exact ⟨j, k, hne, hj, hv⟩

end Apply

/-! ## Invariants -/

/-- `G` is an invariant of the shared state and the sum, and `L` is one of each thread. -/
structure Crew.Sound (w : κ → M) (G : σ → M → Prop) (L : σ → κ → Prop) (c : Crew σ κ) : Prop where
  sum : G c.shared (total w c.threads)
  each : ∀ k ∈ c.threads, L c.shared k

namespace Crew.Sound

variable {G : σ → M → Prop} {L : σ → κ → Prop} {c : Crew σ κ} {s : σ}

theorem mem (S : c.Sound w G L) (hk : k ∈ c.threads) : ∃ r, G c.shared (w k + r) ∧ L c.shared k := by
  obtain ⟨r, hr⟩ := exists_total_eq (w := w) hk
  exact ⟨r, hr ▸ S.sum, S.each k hk⟩

theorem thread (S : c.Sound w G L) (hk : c.threads[i]? = some k)
    (hG : ∀ r, total w c.threads = w k + r → G c.shared (w k + r) → L c.shared k → G s (w k' + r))
    (hL : ∀ r, G c.shared (w k + r) → L c.shared k → L s k')
    (hO : ∀ r k₂ r₂, G c.shared (w k + r) → L c.shared k → r = w k₂ + r₂ → L c.shared k₂ → L s k₂) :
    Crew.Sound w G L ⟨s, c.threads.set i k'⟩ := by
  have hLk : L c.shared k := S.each k (List.mem_of_getElem? hk)
  have hGk : G c.shared (w k + rest w c.threads i) := total_eq_rest (w := w) hk ▸ S.sum
  refine ⟨total_set (w := w) hk k' ▸ hG _ (total_eq_rest hk) hGk hLk, fun k₂ hk₂ => ?_⟩
  obtain ⟨j, hj⟩ := List.getElem?_of_mem hk₂
  by_cases hij : i = j
  · subst hij
    obtain rfl : k' = k₂ := by
      have hi : i < c.threads.length := (List.getElem?_eq_some_iff.1 hk).1
      simpa [hi] using hj
    exact hL _ hGk hLk
  · have hj' : c.threads[j]? = some k₂ := by simpa [List.getElem?_set, hij] using hj
    obtain ⟨r₂, hr⟩ := exists_rest_eq (w := w) hij hj'
    exact hO _ k₂ r₂ hGk hLk hr (S.each k₂ (List.mem_of_getElem? hj'))

theorem env (S : c.Sound w G L) (hG : G s (total w c.threads))
    (hL : ∀ k r, G c.shared (w k + r) → L c.shared k → L s k) : Crew.Sound w G L ⟨s, c.threads⟩ := by
  refine ⟨hG, fun k hk => ?_⟩
  obtain ⟨r, hGk, hLk⟩ := S.mem hk
  exact hL k r hGk hLk

theorem enter (S : c.Sound w G L) (hG : G s (w k + total w c.threads)) (hk : L s k)
    (hL : ∀ k r, G c.shared (w k + r) → L c.shared k → L s k) : Crew.Sound w G L ⟨s, c.threads ++ [k]⟩ := by
  refine ⟨by simpa using hG, fun k₂ hk₂ => ?_⟩
  cases List.mem_append.1 hk₂ with
  | inl h =>
    obtain ⟨r, hGk, hLk⟩ := S.mem h
    exact hL k₂ r hGk hLk
  | inr h => exact List.mem_singleton.1 h ▸ hk

end Crew.Sound

end Os161.Lib
