import Mathlib.Tactic.Common

/-!
# Runs of a labelled transition system

`step s l t` says that the system may go from `s` to `t` with label `l`. A run carries the
labels of its steps, the last one first, so that a property of a run can speak of its
history. An invariant that every step keeps holds at the end of every run.
-/
namespace Os161.Lib

variable {σ ι : Type} {step : σ → ι → σ → Prop} {s t : σ} {tr : List ι}

inductive Run (step : σ → ι → σ → Prop) (s : σ) : List ι → σ → Prop
  | start : Run step s [] s
  | step {tr : List ι} {t u : σ} {l : ι} : Run step s tr t → step t l u → Run step s (l :: tr) u

namespace Run

/-- An invariant that relates the state to the history. -/
theorem history {I : List ι → σ → Prop} (h : Run step s tr t) (start : I [] s)
    (next : ∀ {tr t l u}, I tr t → step t l u → I (l :: tr) u) : I tr t := by
  induction h with
  | start => exact start
  | step _ hstep ih => exact next ih hstep

theorem invariant {I : σ → Prop} (h : Run step s tr t) (start : I s) (next : ∀ {t l u}, I t → step t l u → I u) : I t :=
  h.history (I := fun _ => I) start next

theorem head {l : ι} {u : σ} (h : Run step t tr u) (hs : step s l t) : Run step s (tr ++ [l]) u := by
  induction h with
  | start => exact .step .start hs
  | step _ hstep ih => exact .step ih hstep

/-- Where some step makes a measure smaller and keeps an invariant, a run brings it down to zero. -/
theorem exists_zero {I : σ → Prop} (μ : σ → Nat) (start : I s)
    (next : ∀ {t}, I t → μ t ≠ 0 → ∃ l u, step t l u ∧ I u ∧ μ u < μ t) :
    ∃ tr t, Run step s tr t ∧ I t ∧ μ t = 0 := by
  induction hn : μ s using Nat.strongRecOn generalizing s with
  | ind n ih =>
    subst hn
    by_cases h : μ s = 0
    · exact ⟨[], s, .start, start, h⟩
    · obtain ⟨l, t, hstep, ht, hlt⟩ := next start h
      obtain ⟨tr, u, hrun, hu⟩ := ih _ hlt ht rfl
      exact ⟨_, u, hrun.head hstep, hu⟩

/-- The steps of a run may be taken from a larger system, with other labels. -/
theorem map {κ : Type} {step' : σ → κ → σ → Prop} (h : Run step s tr t) (f : ι → κ)
    (sub : ∀ {t l u}, step t l u → step' t (f l) u) : Run step' s (tr.map f) t := by
  induction h with
  | start => exact .start
  | step _ hstep ih => exact .step ih (sub hstep)

theorem mono {step' : σ → ι → σ → Prop} (h : Run step s tr t)
    (sub : ∀ {t l u}, step t l u → step' t l u) : Run step' s tr t :=
  List.map_id tr ▸ h.map id sub

/-- Two systems have the same runs if they have the same steps where an invariant holds. -/
theorem iff_of_invariant {step' : σ → ι → σ → Prop} {I : σ → Prop} (start : I s)
    (next : ∀ {t l u}, I t → step' t l u → I u) (same : ∀ {t l u}, I t → (step t l u ↔ step' t l u)) :
    Run step s tr t ↔ Run step' s tr t := by
  constructor
  · intro h
    induction h with
    | start => exact .start
    | step _ hstep ih => exact .step ih ((same (ih.invariant start next)).1 hstep)
  · intro h
    induction h with
    | start => exact .start
    | step hrun hstep ih => exact .step ih ((same (hrun.invariant start next)).2 hstep)

end Run

/-! ## Runs that are computed -/

section Replay

variable {κ : Type} {next : σ → κ → Option (ι × σ)}

/-- The history and the state after some inputs, if each of them has its step. -/
def replay (next : σ → κ → Option (ι × σ)) : List κ → List ι → σ → Option (List ι × σ)
  | [], tr, s => some (tr, s)
  | k :: ks, tr, s =>
    match next s k with
    | none => none
    | some (l, t) => replay next ks (l :: tr) t

/-- A test of the history and the state that are computed. -/
def replays (next : σ → κ → Option (ι × σ)) (ks : List κ) (s : σ) (P : List ι → σ → Bool) : Bool :=
  match replay next ks [] s with
  | none => false
  | some (tr, t) => P tr t

theorem Run.of_replay {s₀ : σ} {tr' : List ι} {ks : List κ}
    (sound : ∀ {s k l t}, next s k = some (l, t) → step s l t) (h : Run step s₀ tr s)
    (hr : replay next ks tr s = some (tr', t)) : Run step s₀ tr' t := by
  induction ks generalizing s tr with
  | nil =>
    simp only [replay, Option.some.injEq, Prod.mk.injEq] at hr
    exact hr.1 ▸ hr.2 ▸ h
  | cons k ks ih =>
    unfold replay at hr
    split at hr
    · exact nomatch hr
    · next hk => exact ih (.step h (sound hk)) hr

theorem Run.of_replays {ks : List κ} {P : List ι → σ → Bool}
    (sound : ∀ {s k l t}, next s k = some (l, t) → step s l t) (h : replays next ks s P = true) :
    ∃ tr t, Run step s tr t ∧ P tr t = true := by
  unfold replays at h
  split at h
  · exact nomatch h
  · next tr t hr => exact ⟨tr, t, .of_replay sound .start hr, h⟩

/-- The steps that also pass a test. -/
def nextIf (next : σ → κ → Option (ι × σ)) (C : σ → ι → σ → Bool) (s : σ) (k : κ) :
    Option (ι × σ) :=
  match next s k with
  | none => none
  | some (l, t) => if C s l t then some (l, t) else none

theorem nextIf_sound {C : σ → ι → σ → Bool} (sound : ∀ {s k l t}, next s k = some (l, t) → step s l t) {k : κ} {l : ι}
    (h : nextIf next C s k = some (l, t)) : step s l t ∧ C s l t = true := by
  unfold nextIf at h
  split at h
  · exact nomatch h
  · next hnext =>
    split at h
    · next hC =>
      simp only [Option.some.injEq, Prod.mk.injEq] at h
      obtain ⟨rfl, rfl⟩ := h
      exact ⟨sound hnext, hC⟩
    · exact nomatch h

end Replay

/-! ## Sequences of calls -/

section Along

variable {κ : Type} {next : σ → κ → Option σ} {P Q : σ → κ → Prop}

/-- Every call of a sequence meets `P` in the state in which it is made. A call after which there is
no state is the last one that is made. -/
def Along (next : σ → κ → Option σ) (P : σ → κ → Prop) : σ → List κ → Prop
  | _, [] => True
  | s, k :: ks => P s k ∧ ∀ t, next s k = some t → Along next P t ks

theorem along_and {ks : List κ} :
    Along next (fun s k => P s k ∧ Q s k) s ks ↔ Along next P s ks ∧ Along next Q s ks := by
  induction ks generalizing s with
  | nil => simp [Along]
  | cons k ks ih =>
    simp only [Along, ih]
    grind

/-- Two conditions on calls that agree where an invariant holds, one of which keeps it, are met by
the same sequences of calls. -/
theorem along_iff {I : σ → Prop} (start : I s) (keep : ∀ {s k t}, I s → Q s k → next s k = some t → I t)
    (same : ∀ {s k}, I s → (P s k ↔ Q s k)) (ks : List κ) : Along next P s ks ↔ Along next Q s ks := by
  induction ks generalizing s with
  | nil => exact Iff.rfl
  | cons k ks ih =>
    unfold Along
    rw [same start]
    apply and_congr_right
    intro hQ
    apply forall_congr'
    intro t
    apply imp_congr_right
    intro ht
    exact ih (keep start hQ ht)

end Along

end Os161.Lib
