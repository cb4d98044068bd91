import Mathlib.Tactic.Common

/-!
# Calls that return, fail or stop the machine

A kernel function runs on a state, and either returns a value, returns an error
number, or stops the machine through an assertion or an explicit panic. An error
leaves the state as the call had changed it so far; only a stop loses the state.

`Prog.Sat` is the one proof rule the developments use: it names the final states of
a call and the stops that are tolerated.
-/
namespace Os161.Lib

variable {π ε σ α β : Type}

/-- A call on states `σ` with results `α`, error numbers `ε` and stops `π`. -/
def Prog (π ε σ α : Type) : Type := σ → Except π (Except ε α × σ)

namespace Prog

/-- An error ends the calling function too, as `if (result) return result;` does. -/
instance : Monad (Prog π ε σ) where
  pure a := fun s => .ok (.ok a, s)
  bind m f := fun s => match m s with
    | .error p => .error p
    | .ok (.error e, t) => .ok (.error e, t)
    | .ok (.ok a, t) => f a t

def get : Prog π ε σ σ := fun s => .ok (.ok s, s)
def modify (f : σ → σ) : Prog π ε σ Unit := fun s => .ok (.ok (), f s)
def raise (e : ε) : Prog π ε σ α := fun s => .ok (.error e, s)
def stop (p : π) : Prog π ε σ α := fun _ => .error p
def check (c : Prop) [Decidable c] (p : π) : Prog π ε σ Unit := if c then pure () else stop p

def when (c : Prop) [Decidable c] (m : Prog π ε σ Unit) : Prog π ε σ Unit :=
  if c then m else pure ()

/-- Return what an earlier `attempt` returned. -/
def ofExcept : Except ε α → Prog π ε σ α
  | .ok a => pure a
  | .error e => raise e

/-- Hand the error number of a call to the caller, who decides what to do with it. -/
def attempt (m : Prog π ε σ α) : Prog π ε σ (Except ε α) := fun s =>
  match m s with
  | .error p => .error p
  | .ok (r, t) => .ok (.ok r, t)

/-- What a call returns and the state it leaves, if it returns no error. -/
def value? (m : Prog π ε σ α) (s : σ) : Option (α × σ) :=
  match m s with
  | .ok (.ok a, t) => some (a, t)
  | _ => none

theorem value?_eq_some {m : Prog π ε σ α} {s t : σ} {a : α} : m.value? s = some (a, t) ↔ m s = .ok (.ok a, t) := by
  unfold value?
  rcases m s with p | ⟨e | b, u⟩ <;> simp

/-- Run a call on one component of a larger state; its stops are renamed by `j`. -/
def focus {ρ τ : Type} (g : σ → τ) (p : τ → σ → σ) (j : ρ → π) (m : Prog ρ ε τ α) :
    Prog π ε σ α := fun s =>
  match m (g s) with
  | .error r => .error (j r)
  | .ok (r, t) => .ok (r, p t s)

/-- From `s` the call ends in a result and state in `Q`, or in a stop that `K` allows. -/
def Sat (K : π → Prop) (m : Prog π ε σ α) (s : σ) (Q : Except ε α → σ → Prop) : Prop :=
  match m s with
  | .error p => K p
  | .ok (r, t) => Q r t

theorem bind_apply (m : Prog π ε σ α) (f : α → Prog π ε σ β) (s : σ) :
    (m >>= f) s = match m s with
      | .error p => .error p
      | .ok (.error e, t) => .ok (.error e, t)
      | .ok (.ok a, t) => f a t := rfl

theorem pure_bind (a : α) (f : α → Prog π ε σ β) : (pure a >>= f : Prog π ε σ β) = f a := rfl

theorem bind_assoc {γ : Type} (m : Prog π ε σ α) (f : α → Prog π ε σ β) (g : β → Prog π ε σ γ) :
    (m >>= f) >>= g = m >>= fun a => f a >>= g := by
  funext s
  simp only [bind_apply]
  rcases m s with p | ⟨e | a, t⟩ <;> rfl

variable {K : π → Prop} {m : Prog π ε σ α} {s : σ} {Q R : Except ε α → σ → Prop}

theorem Sat.mono (h : Sat K m s Q) (hQ : ∀ r t, Q r t → R r t) : Sat K m s R := by
  unfold Sat at h ⊢
  cases hm : m s with
  | error p => simpa [hm] using h
  | ok a => exact hQ _ _ (by simpa [hm] using h)

theorem Sat.weaken {K' : π → Prop} (h : Sat K m s Q) (hK : ∀ p, K p → K' p) : Sat K' m s Q := by
  unfold Sat at h ⊢
  cases hm : m s with
  | error p => exact hK p (by simpa [hm] using h)
  | ok a => simpa [hm] using h

theorem Sat.and {K' : π → Prop} (h : Sat K m s Q) (h' : Sat K' m s R) : Sat K m s fun r t => Q r t ∧ R r t := by
  unfold Sat at h h' ⊢
  cases hm : m s with
  | error p => simpa [hm] using h
  | ok a =>
    rw [hm] at h h'
    exact ⟨h, h'⟩

/-- What a specification says about one particular way the call returned. -/
theorem Sat.of_ok (h : Sat K m s Q) {r : Except ε α} {t : σ} (he : m s = .ok (r, t)) : Q r t := by
  simpa [Sat, he] using h

theorem sat_of_ok {r : Except ε α} {t : σ} (he : m s = .ok (r, t)) : Sat K m s Q ↔ Q r t := by
  simp only [Sat, he]

theorem Sat.of_error (h : Sat K m s Q) {p : π} (he : m s = .error p) : K p := by
  simpa [Sat, he] using h

/-- A call that stops nowhere has an outcome. -/
theorem Sat.exists_ok (h : Sat (fun _ => False) m s Q) : ∃ r t, m s = .ok (r, t) ∧ Q r t := by
  unfold Sat at h
  match hm : m s, h with
  | .ok (r, t), h => exact ⟨r, t, rfl, h⟩

/-- Every end that the call may have decides the postcondition the same way. -/
theorem Sat.iff_of_forall {P : Except ε α → σ → Prop} {c : Prop} (h : Sat (fun _ => False) m s P)
    (hc : ∀ r t, P r t → (Q r t ↔ c)) : Sat K m s Q ↔ c := by
  obtain ⟨r, t, hm, hp⟩ := h.exists_ok
  exact (sat_of_ok hm).trans (hc r t hp)

@[simp] theorem sat_pure (a : α) : Sat K (pure a : Prog π ε σ α) s Q ↔ Q (.ok a) s := ⟨id, id⟩

@[simp] theorem sat_bind (f : α → Prog π ε σ β) {Q : Except ε β → σ → Prop} :
    Sat K (m >>= f) s Q ↔
      Sat K m s (fun r t => match r with
        | .ok a => Sat K (f a) t Q
        | .error e => Q (.error e) t) := by
  simp only [Sat, bind_apply]
  rcases m s with p | ⟨e | a, t⟩ <;> rfl

/-- The specification of the first call names the states in which the second one starts. -/
theorem Sat.bind {f : α → Prog π ε σ β} {Q' : Except ε β → σ → Prop} (h : Sat K m s Q)
    (hok : ∀ a t, Q (.ok a) t → Sat K (f a) t Q') (herr : ∀ e t, Q (.error e) t → Q' (.error e) t) :
    Sat K (m >>= f) s Q' := by
  refine (sat_bind f).2 (h.mono fun r t hr => ?_)
  cases r with
  | error e => exact herr e t hr
  | ok a => exact hok a t hr

@[simp] theorem sat_get {Q : Except ε σ → σ → Prop} : Sat K (get : Prog π ε σ σ) s Q ↔ Q (.ok s) s := ⟨id, id⟩

@[simp] theorem sat_modify (f : σ → σ) {Q : Except ε Unit → σ → Prop} :
    Sat K (modify f : Prog π ε σ Unit) s Q ↔ Q (.ok ()) (f s) := ⟨id, id⟩

@[simp] theorem sat_raise (e : ε) : Sat K (raise e : Prog π ε σ α) s Q ↔ Q (.error e) s :=
  ⟨id, id⟩

@[simp] theorem sat_stop (p : π) : Sat K (stop p : Prog π ε σ α) s Q ↔ K p := ⟨id, id⟩

@[simp] theorem sat_attempt {Q : Except ε (Except ε α) → σ → Prop} :
    Sat K (attempt m) s Q ↔ Sat K m s (fun r t => Q (.ok r) t) := by
  unfold Sat attempt
  rcases hm : m s with p | ⟨r, t⟩ <;> simp

@[simp] theorem sat_focus {ρ τ : Type} (g : σ → τ) (p : τ → σ → σ) (j : ρ → π) (m : Prog ρ ε τ α) :
    Sat K (focus g p j m) s Q ↔ Sat (fun r => K (j r)) m (g s) (fun r t => Q r (p t s)) := by
  unfold Sat focus
  rcases m (g s) with r | ⟨r, t⟩ <;> rfl

@[simp] theorem sat_check (c : Prop) [Decidable c] (p : π) {Q : Except ε Unit → σ → Prop} :
    Sat K (check c p : Prog π ε σ Unit) s Q ↔ if c then Q (.ok ()) s else K p := by
  unfold check
  split <;> simp

@[simp] theorem sat_when (c : Prop) [Decidable c] (m : Prog π ε σ Unit) {Q : Except ε Unit → σ → Prop} :
    Sat K (when c m) s Q ↔ if c then Sat K m s Q else Q (.ok ()) s := by
  unfold when
  split <;> simp

@[simp] theorem sat_ofExcept (r : Except ε α) : Sat K (ofExcept r : Prog π ε σ α) s Q ↔ Q r s := by
  cases r <;> rfl

@[simp] theorem sat_ite (c : Prop) [Decidable c] (m n : Prog π ε σ α) :
    Sat K (if c then m else n) s Q ↔ if c then Sat K m s Q else Sat K n s Q := by
  split <;> rfl

/-! ### Calls that have no error to return -/

/-- From `s` the call returns a value, which with the final state is in `Q`. -/
def Returns (K : π → Prop) (m : Prog π ε σ α) (s : σ) (Q : α → σ → Prop) : Prop :=
  Sat K m s fun r t => match r with
    | .ok a => Q a t
    | .error _ => False

section Returns

variable {P S : α → σ → Prop}

theorem Returns.mono (h : Returns K m s P) (hP : ∀ a t, P a t → S a t) : Returns K m s S := by
  refine Sat.mono h ?_
  rintro (e | a) t ht
  · exact ht
  · exact hP a t ht

theorem Returns.of_ok (h : Returns K m s P) {a : α} {t : σ} (he : m s = .ok (.ok a, t)) : P a t :=
  Sat.of_ok h he

theorem Returns.sat (h : Returns K m s P) (hQ : ∀ a t, P a t → Q (.ok a) t) : Sat K m s Q := by
  refine Sat.mono h ?_
  intro r t hr
  cases r with
  | error e => exact hr.elim
  | ok a => exact hQ a t hr

theorem Returns.bind {f : α → Prog π ε σ β} {Q : Except ε β → σ → Prop} (h : Returns K m s P)
    (hf : ∀ a t, P a t → Sat K (f a) t Q) : Sat K (m >>= f) s Q :=
  (sat_bind f).2 (h.sat hf)

@[simp] theorem returns_pure (a : α) : Returns K (pure a : Prog π ε σ α) s P ↔ P a s := ⟨id, id⟩

@[simp] theorem returns_bind (f : α → Prog π ε σ β) {P : β → σ → Prop} :
    Returns K (m >>= f) s P ↔ Returns K m s fun a t => Returns K (f a) t P := by
  simp only [Returns, Sat, bind_apply]
  rcases m s with p | ⟨e | a, t⟩ <;> rfl

@[simp] theorem returns_get {P : σ → σ → Prop} : Returns K (get : Prog π ε σ σ) s P ↔ P s s := ⟨id, id⟩

@[simp] theorem returns_modify (f : σ → σ) {P : Unit → σ → Prop} :
    Returns K (modify f : Prog π ε σ Unit) s P ↔ P () (f s) := ⟨id, id⟩

@[simp] theorem returns_check (c : Prop) [Decidable c] (p : π) {P : Unit → σ → Prop} :
    Returns K (check c p : Prog π ε σ Unit) s P ↔ if c then P () s else K p := by
  unfold check
  split <;> rfl

@[simp] theorem returns_when (c : Prop) [Decidable c] (m : Prog π ε σ Unit) {P : Unit → σ → Prop} :
    Returns K (when c m) s P ↔ if c then Returns K m s P else P () s := by
  unfold when
  split <;> rfl

@[simp] theorem returns_ite (c : Prop) [Decidable c] (m n : Prog π ε σ α) :
    Returns K (if c then m else n) s P ↔ if c then Returns K m s P else Returns K n s P := by
  split <;> rfl

end Returns

end Prog

end Os161.Lib
