import Mathlib.Data.List.Nodup

/-!
# Tables with keys

A table is a list in which no two entries have the same key. A search by key finds the entry
with that key, whatever the order, and updates that leave the keys alone commute with it.
-/
namespace Os161.Lib

variable {α κ : Type} {f : α → κ} {l : List α}

theorem map_key_map {g : α → α} (hg : ∀ v ∈ l, f (g v) = f v) : (l.map g).map f = l.map f := by
  rw [List.map_map]
  exact List.map_congr_left hg

variable [DecidableEq κ]

theorem find?_key (h : (l.map f).Nodup) {v : α} (hv : v ∈ l) : l.find? (f · = f v) = some v := by
  induction l with
  | nil => simp at hv
  | cons w l ih =>
    rw [List.map_cons, List.nodup_cons] at h
    obtain ⟨hw, hl⟩ := h
    rcases List.mem_cons.1 hv with rfl | hv
    · simp
    · have hne : f w ≠ f v := fun he => hw (he ▸ List.mem_map_of_mem hv)
      rw [List.find?_cons_of_neg (by simpa using hne)]
      exact ih hl hv

theorem find?_key_iff (h : (l.map f).Nodup) {k : κ} {v : α} : l.find? (f · = k) = some v ↔ v ∈ l ∧ f v = k := by
  constructor
  · intro hf
    exact ⟨List.mem_of_find?_eq_some hf, by simpa using List.find?_some hf⟩
  · rintro ⟨hv, rfl⟩
    exact find?_key h hv

theorem find?_key_none {k : κ} : l.find? (f · = k) = none ↔ ∀ v ∈ l, f v ≠ k := by
  simp [List.find?_eq_none]

theorem find?_key_map {g : α → α} (hg : ∀ v ∈ l, f (g v) = f v) (k : κ) :
    (l.map g).find? (f · = k) = (l.find? (f · = k)).map g := by
  induction l with
  | nil => rfl
  | cons w l ih =>
    have hw : f (g w) = f w := hg w (by simp)
    have ih := ih fun v hv => hg v (by simp [hv])
    by_cases hk : f w = k
    · rw [List.map_cons, List.find?_cons_of_pos (by simpa [hw] using hk), List.find?_cons_of_pos (by simpa using hk)]
      rfl
    · rw [List.map_cons, List.find?_cons_of_neg (by simpa [hw] using hk),
        List.find?_cons_of_neg (by simpa using hk), ih]

omit [DecidableEq κ] in
theorem key_ne_of_nodup {v w : α} {l' : List α} (h : ((l ++ v :: l').map f).Nodup) (hw : w ∈ l ++ l') : f w ≠ f v := by
  have hperm : ((v :: (l ++ l')).map f).Nodup := (List.perm_middle.map f).nodup_iff.1 h
  rw [List.map_cons, List.nodup_cons] at hperm
  intro he
  exact hperm.1 (he ▸ List.mem_map_of_mem hw)

/-- An update by key changes one entry. -/
theorem map_key_update {v : α} {l' : List α} (h : ((l ++ v :: l').map f).Nodup) (g : α → α) :
    (l ++ v :: l').map (fun w => if f w = f v then g w else w) = l ++ g v :: l' := by
  have kept {k : List α} (hk : ∀ w ∈ k, w ∈ l ++ l') : k.map (fun w => if f w = f v then g w else w) = k :=
    (List.map_congr_left fun w hw => if_neg (key_ne_of_nodup h (hk w hw))).trans (List.map_id k)
  rw [List.map_append, List.map_cons, if_pos rfl, kept fun w hw => List.mem_append_left _ hw,
    kept fun w hw => List.mem_append_right _ hw]

theorem mem_eraseP_key (h : (l.map f).Nodup) {k : κ} {v : α} : v ∈ l.eraseP (f · = k) ↔ v ∈ l ∧ f v ≠ k := by
  induction l with
  | nil => simp
  | cons w l ih =>
    rw [List.map_cons, List.nodup_cons] at h
    obtain ⟨hw, hl⟩ := h
    by_cases hk : f w = k
    · rw [List.eraseP_cons_of_pos (by simpa using hk)]
      have hout (hv : v ∈ l) : f v ≠ k := by
        rintro rfl
        exact hw (hk ▸ List.mem_map_of_mem hv)
      grind
    · rw [List.eraseP_cons_of_neg (by simpa using hk)]
      grind

/-! ## Searches with one answer -/

/-- At most one entry answers, so the order of the entries does not matter. -/
theorem findSome?_perm {β : Type} {f : α → Option β} {l' : List α}
    (h : l.Pairwise fun a b => f a = none ∨ f b = none) (p : l.Perm l') : l.findSome? f = l'.findSome? f := by
  induction p with
  | nil => rfl
  | cons a _ ih => rw [List.findSome?_cons, List.findSome?_cons, ih (List.pairwise_cons.1 h).2]
  | swap a b l =>
    have hab := (List.pairwise_cons.1 h).1 a List.mem_cons_self
    simp only [List.findSome?_cons]
    grind
  | trans p _ ih ih' => exact (ih h).trans (ih' ((p.pairwise_iff fun hab => hab.symm).1 h))

end Os161.Lib
