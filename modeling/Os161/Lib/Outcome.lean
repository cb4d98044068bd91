import Os161.Lib.Prog

/-!
# What a call that has returned has done

`m.Yields s a t` says that from `s` the call returned `a` and left `t`. A sequence of calls has
returned only if each of them has, so a proof goes through the calls with `yields_bind`.
-/
namespace Os161.Lib.Prog

variable {π ε σ τ α β : Type} {m : Prog π ε σ α} {s t : σ} {a b : α}

def Yields (m : Prog π ε σ α) (s : σ) (a : α) (t : σ) : Prop := m s = .ok (.ok a, t)

theorem Sat.of_yields {K : π → Prop} {Q : Except ε α → σ → Prop} (h : Sat K m s Q) (hy : m.Yields s a t) :
    Q (.ok a) t := h.of_ok hy

@[simp] theorem yields_pure : (pure a : Prog π ε σ α).Yields s b t ↔ a = b ∧ s = t := by
  unfold Yields
  constructor
  · intro h
    cases h
    exact ⟨rfl, rfl⟩
  · rintro ⟨rfl, rfl⟩
    rfl

@[simp] theorem yields_bind {f : α → Prog π ε σ β} {b : β} :
    (m >>= f).Yields s b t ↔ ∃ a u, m.Yields s a u ∧ (f a).Yields u b t := by
  unfold Yields
  rw [bind_apply]
  rcases m s with p | ⟨e | a, u⟩
  · simp
  · simp
  · simp

@[simp] theorem yields_get {u : σ} : (get : Prog π ε σ σ).Yields s u t ↔ s = u ∧ s = t := yields_pure

@[simp] theorem yields_modify {f : σ → σ} {a : Unit} : (modify f : Prog π ε σ Unit).Yields s a t ↔ f s = t :=
  ⟨fun h => (yields_pure.1 h).2, fun h => yields_pure.2 ⟨rfl, h⟩⟩

@[simp] theorem yields_raise {e : ε} : ¬(raise e : Prog π ε σ α).Yields s a t := by
  intro h
  cases h

variable {p : π}

@[simp] theorem yields_stop : ¬(stop p : Prog π ε σ α).Yields s a t := by
  intro h
  cases h

variable {c : Prop}

@[simp] theorem yields_ite [Decidable c] {n : Prog π ε σ α} :
    (if c then m else n).Yields s a t ↔ if c then m.Yields s a t else n.Yields s a t := by
  split <;> rfl

@[simp] theorem yields_check [Decidable c] {a : Unit} :
    (check c p : Prog π ε σ Unit).Yields s a t ↔ c ∧ s = t := by
  unfold check
  split <;> simp [*]

@[simp] theorem yields_ofExcept {r : Except ε α} : (ofExcept r : Prog π ε σ α).Yields s a t ↔ r = .ok a ∧ s = t := by
  cases r with
  | error e | ok b => simp [ofExcept]

@[simp] theorem yields_focus {ρ : Type} {g : σ → τ} {p : τ → σ → σ} {j : ρ → π} {m : Prog ρ ε τ α} :
    (focus g p j m).Yields s a t ↔ ∃ u, m.Yields (g s) a u ∧ p u s = t := by
  unfold Yields focus
  rcases m (g s) with q | ⟨e | b, u⟩
  · simp
  · simp
  · simp only [Except.ok.injEq, Prod.mk.injEq]
    grind

@[simp] theorem yields_attempt {r : Except ε α} : (attempt m).Yields s r t ↔ m s = .ok (r, t) := by
  unfold Yields attempt
  rcases m s with p | ⟨r', u⟩
  · simp
  · simp

def hasReturned (m : Prog π ε σ α) (s : σ) : Bool :=
  match m s with
  | .ok (.ok _, _) => true
  | _ => false

theorem exists_yields (h : m.hasReturned s = true) : ∃ a t, m.Yields s a t := by
  unfold hasReturned at h
  split at h
  · next a t hm => exact ⟨a, t, hm⟩
  · exact nomatch h

end Os161.Lib.Prog
