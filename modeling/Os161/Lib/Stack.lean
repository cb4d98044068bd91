import Mathlib.Tactic.Common

/-!
# Stacks of calls

A stack of frames, the running one first. What a frame needs of its surroundings is a property of
the frame and a context `C`, so that it suffices to know, for every two frames that lie on each
other, that the upper one returns in a context in which the lower one can go on. Calls, returns and
the steps of the running frame keep that, whatever lies further down.
-/
namespace Os161.Lib

/-- How frames of type `F` behave in contexts of type `C`. -/
structure Discipline (F C : Type) where
  /-- the frame may be the running one -/
  Runs : F → C → Prop
  /-- the frame may return with this context -/
  Leaves : F → C → Prop
  /-- the second frame is a call of the first -/
  Calls : F → F → Prop
  /-- the frame may be the first of a stack -/
  Bottom : F → Prop
  /-- nothing need run -/
  Empty : C → Prop

namespace Discipline

variable {F C : Type} (D : Discipline F C)

def Over (g : F) : List F → Prop
  | [] => D.Bottom g ∧ ∀ c, D.Leaves g c → D.Empty c
  | f :: _ => D.Calls f g ∧ ∀ c, D.Leaves g c → D.Runs f c

def Linked : List F → Prop
  | [] => True
  | f :: rest => D.Over f rest ∧ Linked rest

/-- The stack may run in the context. -/
def Sound (c : C) : List F → Prop
  | [] => D.Empty c
  | f :: rest => D.Runs f c ∧ D.Linked (f :: rest)

/-- The same call, further on. -/
structure Stays (f f' : F) : Prop where
  leaves : ∀ c, D.Leaves f' c → D.Leaves f c
  calls : ∀ r, D.Calls r f → D.Calls r f'
  bottom : D.Bottom f → D.Bottom f'

variable {D} {c c' : C} {f f' g : F} {rest : List F}

theorem Over.stays (h : D.Over f rest) (hs : D.Stays f f') : D.Over f' rest := by
  cases rest with
  | nil => exact ⟨hs.bottom h.1, fun c hc => h.2 c (hs.leaves c hc)⟩
  | cons r _ => exact ⟨hs.calls r h.1, fun c hc => h.2 c (hs.leaves c hc)⟩

theorem Sound.runs (h : D.Sound c (f :: rest)) : D.Runs f c := h.1

theorem Sound.goOn (h : D.Sound c (f :: rest)) (hs : D.Stays f f') (hruns : D.Runs f' c') : D.Sound c' (f' :: rest) :=
  ⟨hruns, h.2.1.stays hs, h.2.2⟩

theorem Sound.call (h : D.Sound c (f :: rest)) (hs : D.Stays f f') (hcalls : D.Calls f' g)
    (hret : ∀ c, D.Leaves g c → D.Runs f' c) (hruns : D.Runs g c') : D.Sound c' (g :: f' :: rest) :=
  ⟨hruns, ⟨hcalls, hret⟩, h.2.1.stays hs, h.2.2⟩

theorem Sound.ret (h : D.Sound c (g :: rest)) (hleaves : D.Leaves g c') : D.Sound c' rest := by
  cases rest with
  | nil => exact h.2.1.2 c' hleaves
  | cons f rest => exact ⟨h.2.1.2 c' hleaves, h.2.2⟩

end Discipline

end Os161.Lib
