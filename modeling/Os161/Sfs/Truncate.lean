import Os161.Sfs.Io

/-!
# Truncation

Specification of `sfs_truncate`. The blocks it gives back are those `Cut` names: among the
direct blocks those from `blocklen` on, among the others those after `blocklen`, since the
loop over the indirect block compares with `<`. The free map and the pointers agree again at
the end: a block is cleared in the map exactly when the pointer to it is gone.
-/
namespace Os161.Sfs

open Lib Kern SfsFs Prog

variable {L H : Nat → Prop} {s : SfsFs} {sv : Nat} {v : SfsVnode}

/-- `sfs_truncate` to `blocklen` blocks gives block `k` back. -/
def Cut (blocklen k : Nat) : Prop := if k < sfsNdirect then blocklen ≤ k else blocklen < k

instance (blocklen k : Nat) : Decidable (Cut blocklen k) := by unfold Cut; infer_instance

/-- The pointers of the file `ino` lost the blocks in `cut`, and nothing else happened to it. -/
structure Cuts (L H : Nat → Prop) (ino : Nat) (cut : Nat → Prop) (s t : SfsFs) : Prop where
  core : Core L H t
  step : FileStep L ino s t
  size : (t.inode ino).sfiSize = (s.inode ino).sfiSize
  ptr_cut : ∀ k, cut k → t.ptr (.data ino k) = 0
  ptr_kept : ∀ k, ¬ cut k → t.ptr (.data ino k) = s.ptr (.data ino k)
  sector : ∀ k, ¬ cut k → s.ptr (.data ino k) ≠ 0 →
    t.sector (s.ptr (.data ino k)) = s.sector (s.ptr (.data ino k))

namespace Cuts

variable {ino : Nat} {cut cut' : Nat → Prop} {t u : SfsFs}

theorem trans (h : Cuts L H ino cut s t) (h' : Cuts L H ino cut' t u) :
    Cuts L H ino (fun k => cut k ∨ cut' k) s u where
  core := h'.core
  step := h.step.trans h'.step
  size := h'.size.trans h.size
  ptr_cut k hk := by
    by_cases hc : cut' k
    · exact h'.ptr_cut k hc
    · rw [h'.ptr_kept k hc]
      exact h.ptr_cut k (hk.resolve_right hc)
  ptr_kept k hk := by
    rw [h'.ptr_kept k fun hc => hk (.inr hc), h.ptr_kept k fun hc => hk (.inl hc)]
  sector k hk h0 := by
    have hp := h.ptr_kept k fun hc => hk (.inl hc)
    have := h'.sector k (fun hc => hk (.inr hc)) (by rwa [hp])
    rw [hp] at this
    exact this.trans (h.sector k (fun hc => hk (.inl hc)) h0)

/-- It does not matter on which side blocks that are not there are counted. -/
theorem adjust (h : Cuts L H ino cut s t)
    (hc : ∀ k, s.ptr (.data ino k) ≠ 0 → (cut' k ↔ cut k)) : Cuts L H ino cut' s t where
  core := h.core
  step := h.step
  size := h.size
  ptr_cut k hk := by
    by_cases hk' : cut k
    · exact h.ptr_cut k hk'
    · rw [h.ptr_kept k hk']
      by_contra h0
      exact hk' ((hc k h0).1 hk)
  ptr_kept k hk := by
    by_cases hk' : cut k
    · rw [h.ptr_cut k hk']
      by_contra h0
      exact hk ((hc k (Ne.symm h0)).2 hk')
    · exact h.ptr_kept k hk'
  sector k hk h0 := h.sector k (fun hk' => hk ((hc k h0).2 hk')) h0

theorem refl (C : Core L H s) (ino : Nat) : Cuts L H ino (fun _ => False) s s where
  core := C
  step := (Quiet.refl C.table).toFileStep
  size := rfl
  ptr_cut _ h := h.elim
  ptr_kept _ _ := rfl
  sector _ _ _ := rfl

/-- The contents after some blocks are gone: zeros there, the old bytes elsewhere. -/
theorem byte (h : Cuts L H ino cut s t) [DecidablePred cut] (i : Nat) :
    t.byte ino i = if cut (i / sfsBlocksize) then 0 else s.byte ino i := by
  split
  · next hc => simp [SfsFs.byte, block, h.ptr_cut _ hc]
  · next hc => exact byte_congr (h.ptr_kept _ hc) (h.sector _ hc)

end Cuts

/-! ## Direct blocks -/

theorem Core.cutDirect (C : Core L H s) (hv : s.vnode? sv = some v) {k : Nat}
    (hk : k < sfsNdirect) (h0 : s.ptr (.data v.svIno k) ≠ 0) :
    Cuts L H v.svIno (· = k) s ((s.unmark (s.ptr (.data v.svIno k))).updateVnode sv
      (SfsVnode.setInode (·.setDirect k 0))) ∧
    Drops L (· = .data v.svIno k) s.ptr ((s.unmark (s.ptr (.data v.svIno k))).updateVnode sv
      (SfsVnode.setInode (·.setDirect k 0))).ptr := by
  have hl := C.live_of_vnode? hv
  have hp (q : Ptr) := C.table.ptr_setDirect hv hk 0 q
  have ho := C.owned.detach (S := (· = .data v.svIno k)) fun q _ => (hp q).trans (by simp)
  have D := C.setInode hv (f := (·.setDirect k 0)) rfl ho
  have D' := D.unmark (b := s.ptr (.data v.svIno k)) (.inr ⟨_, rfl, hl, rfl, h0⟩)
  have hH (c : Nat) : H c ↔ (H c ∨ Pointed L s.ptr (· = .data v.svIno k) c) ∧ c ≠ s.ptr (.data v.svIno k) := by
    constructor
    · intro hc
      exact ⟨.inl hc, (C.owned.pointer_ne_held (p := .data v.svIno k) hl hc).symm⟩
    · rintro ⟨hc | ⟨_, rfl, -, rfl, -⟩, hne⟩
      · exact hc
      · exact absurd rfl hne
  have hstep := C.fileStep_setInode hv (f := (·.setDirect k 0)) rfl rfl
  refine ⟨⟨D'.held_congr hH, hstep.freemap true rfl, ?_, ?_, ?_, fun _ _ _ => rfl⟩,
    .of_ite fun q _ => (hp q).trans (by simp)⟩
  · rw [C.table.inode_of_vnode? hv]
    have hin := congrArg SfsInode.sfiSize ((C.table.inode_setInode hv (·.setDirect k 0) v.svIno).trans (if_pos rfl))
    exact hin
  · rintro _ rfl
    exact (hp _).trans (if_pos rfl)
  · intro j hj
    exact (hp _).trans (if_neg fun h => hj (Ptr.data.inj h).2)

theorem truncDirect_spec (blocklen i n : Nat) (hn : i + n ≤ sfsNdirect) (C : Core L H s) (hv : s.vnode? sv = some v) :
    Sat NoPanic (truncDirect sv blocklen i n) s (fun r t => r = .ok () ∧
      Cuts L H v.svIno (fun k => i ≤ k ∧ k < i + n ∧ blocklen ≤ k) s t ∧
      Drops L (fun p => ∃ k, p = .data v.svIno k ∧ i ≤ k ∧ k < i + n ∧ blocklen ≤ k) s.ptr t.ptr) := by
  induction n generalizing i s v with
  | zero =>
    refine ⟨rfl, (Cuts.refl C _).adjust fun k _ => by simp only [iff_false]; omega,
      (Drops.refl L s.ptr).adjust fun p _ _ => ?_⟩
    simp only [iff_false]
    rintro ⟨k, -, h1, h2, -⟩
    omega
  | succ n ih =>
    have hl := C.live_of_vnode? hv
    have hptr : (v.svI.direct i).toNat = s.ptr (.data v.svIno i) := by
      rw [ptr_data_direct (by omega), C.table.inode_of_vnode? hv]
    simp only [truncDirect, sat_bind, sat_vnode hv, sat_when, hptr]
    by_cases hc : blocklen ≤ i ∧ s.ptr (.data v.svIno i) ≠ 0
    · rw [if_pos hc]
      have hu := C.owned.pointer_used (p := .data v.svIno i) hl hc.2
      refine (sat_sfsBfree (Nat.lt_of_lt_of_le hu.1 C.nblocks_le) hu.2).2 ?_
      simp only [sat_setInode]
      obtain ⟨h1, d1⟩ := C.cutDirect hv (by omega) hc.2
      obtain ⟨j, d, hv'⟩ := h1.step.vnode? hv
      refine (ih (i + 1) (by omega) h1.core hv').mono ?_
      rintro r t ⟨rfl, h2, d2⟩
      refine ⟨rfl, (h1.trans h2).adjust fun k _ => by omega, (d1.trans d2).adjust fun p _ _ => ?_⟩
      constructor
      · rintro ⟨k, rfl, hk, hn, hb⟩
        rcases Nat.eq_or_lt_of_le hk with rfl | hk
        · exact .inl rfl
        · exact .inr ⟨k, rfl, hk, by omega, hb⟩
      · rintro (rfl | ⟨k, rfl, hk, hn, hb⟩)
        · exact ⟨i, rfl, le_rfl, by omega, hc.1⟩
        · exact ⟨k, rfl, by omega, by omega, hb⟩
    · rw [if_neg hc]
      refine (ih (i + 1) (by omega) C hv).mono ?_
      rintro r t ⟨rfl, h2, d2⟩
      have hi {k : Nat} (h0 : s.ptr (.data v.svIno k) ≠ 0) (hb : blocklen ≤ k) : k ≠ i := by
        rintro rfl
        exact hc ⟨hb, h0⟩
      refine ⟨rfl, h2.adjust fun k h0 => ?_, d2.adjust fun p _ h0 => ?_⟩
      · have := hi h0
        omega
      · constructor
        · rintro ⟨k, rfl, hk, hn, hb⟩
          have := hi h0 hb
          exact ⟨k, rfl, by omega, by omega, hb⟩
        · rintro ⟨k, rfl, hk, hn, hb⟩
          exact ⟨k, rfl, by omega, by omega, hb⟩

/-! ## The indirect block -/

theorem exists_range_succ {p : Nat → Prop} {j n : Nat} :
    (∃ i, j ≤ i ∧ i < j + (n + 1) ∧ p i) ↔ p j ∨ ∃ i, j + 1 ≤ i ∧ i < j + 1 + n ∧ p i := by
  constructor
  · rintro ⟨i, h1, h2, h3⟩
    rcases Nat.eq_or_lt_of_le h1 with rfl | h1
    · exact .inl h3
    · exact .inr ⟨i, h1, by omega, h3⟩
  · rintro (h3 | ⟨i, h1, h2, h3⟩)
    · exact ⟨j, le_rfl, by omega, h3⟩
    · exact ⟨i, by omega, by omega, h3⟩

/-- The blocks that entries `j, …, j + n - 1` list and truncation gives back. -/
def Freed (blocklen : Nat) (w : Nat → Word) (j n c : Nat) : Prop :=
  ∃ i, j ≤ i ∧ i < j + n ∧ blocklen < sfsNdirect + i ∧ w i ≠ 0 ∧ c = (w i).toNat

/-- What the loop over the entries needs: the blocks it gives back are distinct and in use. -/
structure Freeable (s : SfsFs) (blocklen : Nat) (w : Nat → Word) (j n : Nat) : Prop where
  used : ∀ c, Freed blocklen w j n c → c < s.sfsFreemap.nbits ∧ s.used c
  inj : ∀ i i', j ≤ i → i < i' → i' < j + n → w i ≠ 0 → w i ≠ w i'

/-- The result of the loop: the free map is the only part of the state it changes. -/
structure Scanned (s : SfsFs) (blocklen : Nat) (j n : Nat) (r r' : IdScan) (t : SfsFs) : Prop where
  state : ∃ m d, t = { s with sfsFreemap := m, sfsFreemapdirty := d } ∧
    m.nbits = s.sfsFreemap.nbits ∧ Flagged s m d
  used : ∀ c, t.used c ↔ s.used c ∧ ¬ Freed blocklen r.idbuf j n c
  idbuf : ∀ i, r'.idbuf i =
    if j ≤ i ∧ i < j + n ∧ blocklen < sfsNdirect + i then 0 else r.idbuf i
  hasnonzero : r'.hasnonzero = true ↔ r.hasnonzero = true ∨
    ∃ i, j ≤ i ∧ i < j + n ∧ ¬ blocklen < sfsNdirect + i ∧ r.idbuf i ≠ 0
  iddirty : r'.iddirty = true ↔ r.iddirty = true ∨ ∃ c, Freed blocklen r.idbuf j n c

theorem truncEntries_spec (blocklen j n : Nat) (r : IdScan)
    (hf : Freeable s blocklen r.idbuf j n) :
    Sat NoPanic (truncEntries blocklen j r n) s (fun r' t => match r' with
      | .ok r' => Scanned s blocklen j n r r' t
      | .error _ => False) := by
  induction n generalizing j r s with
  | zero =>
    refine ⟨⟨s.sfsFreemap, s.sfsFreemapdirty, rfl, rfl, fun h => ⟨h, rfl⟩⟩, fun c => ?_, fun i => ?_, ?_, ?_⟩
    · refine (and_iff_left ?_).symm
      rintro ⟨i, h1, h2, -⟩
      omega
    · rw [if_neg (by omega)]
    · refine (or_iff_left ?_).symm
      rintro ⟨i, h1, h2, -⟩
      omega
    · refine (or_iff_left ?_).symm
      rintro ⟨c, i, h1, h2, -⟩
      omega
  | succ n ih =>
    have cons (w : Nat → Word) (c : Nat) : Freed blocklen w j (n + 1) c ↔
        (blocklen < sfsNdirect + j ∧ w j ≠ 0 ∧ c = (w j).toNat) ∨
          Freed blocklen w (j + 1) n c := exists_range_succ
    unfold truncEntries
    by_cases hc : blocklen < sfsNdirect + j ∧ r.idbuf j ≠ 0
    · rw [if_pos hc]
      have hu := hf.used (r.idbuf j).toNat ((cons _ _).2 (.inl ⟨hc.1, hc.2, rfl⟩))
      simp only [sat_bind]
      refine (sat_sfsBfree hu.1 hu.2).2 ?_
      -- clearing entry `j` does not touch the later ones
      have hlater (c : Nat) : Freed blocklen (Function.update r.idbuf j 0) (j + 1) n c ↔
          Freed blocklen r.idbuf (j + 1) n c := by
        constructor <;>
        · rintro ⟨i, h1, h2, h3⟩
          have : i ≠ j := by omega
          exact ⟨i, h1, h2, by simpa [this] using h3⟩
      have hne (c : Nat) (hfr : Freed blocklen r.idbuf (j + 1) n c) : c ≠ (r.idbuf j).toNat := by
        obtain ⟨i, h1, h2, h3, h4, rfl⟩ := hfr
        intro he
        exact hf.inj j i le_rfl (by omega) (by omega) hc.2 (BitVec.eq_of_toNat_eq he.symm)
      refine (ih (s := s.unmark (r.idbuf j).toNat) (j + 1)
        { r with idbuf := Function.update r.idbuf j 0, iddirty := true } ⟨?_, ?_⟩).mono ?_
      · intro c hfr
        have hfr' := (hlater c).1 hfr
        have := hf.used c ((cons _ _).2 (.inr hfr'))
        exact ⟨this.1, (s.used_unmark _ _).2 ⟨this.2, hne c hfr'⟩⟩
      · intro i i' h1 h2 h3 h4
        have h5 : i ≠ j := by omega
        have h6 : i' ≠ j := by omega
        simp only [Function.update_of_ne h5, Function.update_of_ne h6] at h4 ⊢
        exact hf.inj i i' (by omega) h2 (by omega) h4
      · rintro (e | r') t h
        · exact h
        · obtain ⟨m, d, rfl, hm, hd⟩ := h.state
          refine ⟨⟨m, d, rfl, hm, fun h => by cases (hd h).1⟩, fun c => ?_, fun i => ?_, ?_, ?_⟩
          · rw [h.used, used_unmark, hlater, cons]
            tauto
          · rw [h.idbuf]
            by_cases hij : i = j
            · subst hij
              simp [hc.1]
            · simp only [Function.update_of_ne hij]
              refine if_congr ?_ rfl rfl
              omega
          · rw [h.hasnonzero]
            refine or_congr Iff.rfl ⟨?_, ?_⟩
            · rintro ⟨i, h1, h2, h3, h4⟩
              have : i ≠ j := by omega
              exact ⟨i, by omega, by omega, h3, by simpa [this] using h4⟩
            · rintro ⟨i, h1, h2, h3, h4⟩
              have : i ≠ j := by rintro rfl; exact h3 hc.1
              exact ⟨i, by omega, by omega, h3, by simpa [this] using h4⟩
          · rw [h.iddirty]
            simp only [true_or, true_iff]
            exact .inr ⟨_, (cons _ _).2 (.inl ⟨hc.1, hc.2, rfl⟩)⟩
    · rw [if_neg hc]
      have hsame (c : Nat) : Freed blocklen r.idbuf j (n + 1) c ↔ Freed blocklen r.idbuf (j + 1) n c := by
        rw [cons]
        tauto
      refine (ih (j + 1) { r with hasnonzero := r.hasnonzero || r.idbuf j != 0 } ⟨?_, ?_⟩).mono ?_
      · exact fun c hfr => hf.used c ((hsame c).2 hfr)
      · exact fun i i' h1 h2 h3 => hf.inj i i' (by omega) h2 (by omega)
      · rintro (e | r') t h
        · exact h
        · refine ⟨h.state, fun c => ?_, fun i => ?_, ?_, ?_⟩
          · rw [h.used, hsame]
          · rw [h.idbuf]
            by_cases hij : i = j
            · subst hij
              by_cases hb : blocklen < sfsNdirect + i
              · have : r.idbuf i = 0 := by
                  by_contra h0
                  exact hc ⟨hb, h0⟩
                simp [this]
              · simp [hb]
            · refine if_congr ?_ rfl rfl
              omega
          · rw [h.hasnonzero, exists_range_succ]
            have hj : r.idbuf j ≠ 0 ↔ ¬ blocklen < sfsNdirect + j ∧ r.idbuf j ≠ 0 :=
              ⟨fun h0 => ⟨fun hb => hc ⟨hb, h0⟩, h0⟩, And.right⟩
            simp only [Bool.or_eq_true, bne_iff_ne]
            rw [← hj, or_assoc]
          · rw [h.iddirty]
            exact or_congr Iff.rfl (exists_congr fun c => (hsame c).symm)

theorem entry_eq {ino i : Nat} (hid : s.ptr (.indirect ino) ≠ 0) (hi : i < sfsDbperidb) :
    ((s.sector (s.ptr (.indirect ino))).word i).toNat = s.ptr (.data ino (sfsNdirect + i)) := by
  rw [ptr_data_entry (Nat.le_add_right _ _) (Nat.add_lt_add_left hi _) hid, Nat.add_sub_cancel_left]

/-- What is held stays held when the blocks taken out of files are given back. -/
theorem held_of_pointed (C : Core L H s) {S : Ptr → Prop} (c : Nat) :
    H c ↔ (H c ∨ Pointed L s.ptr S c) ∧ ¬ Pointed L s.ptr S c := by
  constructor
  · intro hc
    refine ⟨.inl hc, ?_⟩
    rintro ⟨p, -, hpl, hpc, -⟩
    exact C.owned.pointer_ne_held hpl hc hpc
  · rintro ⟨hc | hc, hne⟩
    · exact hc
    · exact absurd hc hne

variable {blocklen : Nat}

section Indirect

variable (C : Core L H s) (hv : s.vnode? sv = some v)
include C hv

/-- The pointers that are lost when the indirect block goes. -/
def PastDirect (ino : Nat) : Ptr → Prop
  | .indirect i => i = ino
  | .data i k => i = ino ∧ sfsNdirect ≤ k

instance (ino : Nat) : DecidablePred (PastDirect ino) := fun p => by
  cases p <;> unfold PastDirect <;> infer_instance

/-- The indirect block is given back with everything it lists. -/
theorem Core.cutIndirect {m : Bitmap} {d : Bool} (hn : m.nbits = s.sfsFreemap.nbits) (hd : Flagged s m d)
    (hu : ∀ c, bitmapIsset m c = true ↔ s.used c ∧ ¬ Pointed L s.ptr (PastDirect v.svIno) c) :
    Cuts L H v.svIno (sfsNdirect ≤ ·) s ({ s with sfsFreemap := m, sfsFreemapdirty := d }.updateVnode sv
        (SfsVnode.setInode fun i => { i with sfiIndirect := 0 })) ∧ Drops L (PastDirect v.svIno) s.ptr
      ({ s with sfsFreemap := m, sfsFreemapdirty := d }.updateVnode sv
        (SfsVnode.setInode fun i => { i with sfiIndirect := 0 })).ptr := by
  have hl := C.live_of_vnode? hv
  have hp : ∀ q, (s.updateVnode sv (SfsVnode.setInode fun i => { i with sfiIndirect := 0 })).ptr q =
      if PastDirect v.svIno q then 0 else s.ptr q := by
    intro q
    rw [C.table.ptr_setIndirect hv]
    cases q with
    | indirect ino | data ino k => simp [PastDirect]
  have D := C.setInode hv (f := fun i => { i with sfiIndirect := 0 }) rfl (C.owned.detach fun q _ => hp q)
  have D' := D.discard (T := Pointed L s.ptr (PastDirect v.svIno)) (fun _ h => .inr h) d hn hd hu
  have hstep := C.fileStep_setInode hv (f := fun i => { i with sfiIndirect := 0 }) rfl rfl
  refine ⟨⟨D'.held_congr (held_of_pointed C), hstep.freemap d hn, ?_, fun k hk => ?_, fun k hk => ?_,
    fun _ _ _ => rfl⟩, .of_ite fun q _ => hp q⟩
  · rw [C.table.inode_of_vnode? hv]
    have hin := congrArg SfsInode.sfiSize
      ((C.table.inode_setInode hv (fun i => { i with sfiIndirect := 0 }) v.svIno).trans (if_pos rfl))
    exact hin
  · exact (hp (.data v.svIno k)).trans (if_pos ⟨rfl, hk⟩)
  · exact (hp (.data v.svIno k)).trans (if_neg fun h => hk h.2)

variable (hid : s.ptr (.indirect v.svIno) ≠ 0)
include hid

theorem Core.freeable (blocklen : Nat) :
    Freeable s blocklen (s.sector (s.ptr (.indirect v.svIno))).word 0 sfsDbperidb := by
  have hl := C.live_of_vnode? hv
  refine ⟨?_, fun i i' _ h2 h3 h4 he => ?_⟩
  · rintro c ⟨i, -, h2, -, h4, rfl⟩
    have he := entry_eq hid (i := i) (by omega)
    rw [he]
    have h0 : s.ptr (.data v.svIno (sfsNdirect + i)) ≠ 0 := by
      rw [← he]
      exact fun h => h4 (BitVec.eq_of_toNat_eq (by simpa using h))
    have := C.owned.pointer_used (p := .data v.svIno _) hl h0
    exact ⟨Nat.lt_of_lt_of_le this.1 C.nblocks_le, this.2⟩
  · have e1 := entry_eq hid (i := i) (by omega)
    have e2 := entry_eq hid (i := i') (by omega)
    have h0 : s.ptr (.data v.svIno (sfsNdirect + i)) ≠ 0 := by
      rw [← e1]
      exact fun h => h4 (BitVec.eq_of_toNat_eq (by simpa using h))
    have := C.owned.pointer_inj (p := .data v.svIno (sfsNdirect + i))
      (q := .data v.svIno (sfsNdirect + i')) hl hl h0 (by rw [← e1, ← e2, he])
    have := (Ptr.data.inj this).2
    omega

/-- The pointers that the loop over the entries removes. -/
def ListedPast (ino blocklen : Nat) : Ptr → Prop
  | .indirect _ => False
  | .data i k => i = ino ∧ sfsNdirect ≤ k ∧ blocklen < k

omit C hv hid in
instance (ino blocklen : Nat) : DecidablePred (ListedPast ino blocklen) := fun p => by
  cases p <;> unfold ListedPast <;> infer_instance

theorem Core.freed_iff (blocklen c : Nat) : Freed blocklen (s.sector (s.ptr (.indirect v.svIno))).word 0 sfsDbperidb c ↔
    Pointed L s.ptr (ListedPast v.svIno blocklen) c := by
  have hl := C.live_of_vnode? hv
  constructor
  · rintro ⟨i, -, h2, h3, h4, rfl⟩
    have he := entry_eq hid (i := i) (by omega)
    refine ⟨.data v.svIno (sfsNdirect + i), ⟨rfl, Nat.le_add_right _ _, h3⟩, hl, he.symm, ?_⟩
    exact fun h => h4 (BitVec.eq_of_toNat_eq (by simpa using h))
  · rintro ⟨p, hS, -, rfl, h0⟩
    cases p with
    | indirect => exact hS.elim
    | data ino k =>
      obtain ⟨rfl, hk, hb⟩ := hS
      have hm : k < sfsMaxblocks := by
        by_contra hm
        exact h0 (ptr_data_of_le (Nat.le_of_not_lt hm))
      have hi : k - sfsNdirect < sfsDbperidb := by unfold sfsMaxblocks at hm; omega
      have he := entry_eq hid hi
      rw [Nat.add_sub_cancel' hk] at he
      refine ⟨k - sfsNdirect, Nat.zero_le _, by omega, by omega, fun h => h0 ?_, he.symm⟩
      rw [← he, h]
      rfl

/-- Some listed blocks are given back and the indirect block is written again. -/
theorem Core.cutEntries {m : Bitmap} {d : Bool} {w : Nat → Word}
    (hn : m.nbits = s.sfsFreemap.nbits) (hd : Flagged s m d) (hu : ∀ c, bitmapIsset m c = true ↔
      s.used c ∧ ¬ Pointed L s.ptr (ListedPast v.svIno blocklen) c)
    (hw : ∀ i < sfsDbperidb, w i = if blocklen < sfsNdirect + i then 0
      else (s.sector (s.ptr (.indirect v.svIno))).word i) : Cuts L H v.svIno (fun k => sfsNdirect ≤ k ∧ blocklen < k) s
      ({ s with sfsFreemap := m, sfsFreemapdirty := d }.writeSector (s.ptr (.indirect v.svIno)) (Block.ofWords w)) ∧
    Drops L (ListedPast v.svIno blocklen) s.ptr
      ({ s with sfsFreemap := m, sfsFreemapdirty := d }.writeSector (s.ptr (.indirect v.svIno))
        (Block.ofWords w)).ptr := by
  have hl := C.live_of_vnode? hv
  have hp : ∀ q, L q.ino → (s.writeSector (s.ptr (.indirect v.svIno)) (Block.ofWords w)).ptr q =
        if ListedPast v.svIno blocklen q then 0 else s.ptr q := by
    intro q hq
    cases q with
    | indirect ino => exact (C.indirect_writeIndirect hl hid _ (j := ino) hq).trans (by simp [ListedPast])
    | data ino k =>
      rw [C.data_writeIndirect hl hid w (j := ino) hq]
      by_cases hk : ino = v.svIno ∧ sfsNdirect ≤ k ∧ k < sfsMaxblocks
      · obtain ⟨rfl, hk, hm⟩ := hk
        have hi : k - sfsNdirect < sfsDbperidb := by unfold sfsMaxblocks at hm; omega
        simp only [hk, hm, true_and, if_true, ListedPast, hw _ hi, Nat.add_sub_cancel' hk]
        split
        · rfl
        · rw [entry_eq hid hi, Nat.add_sub_cancel' hk]
      · rw [if_neg hk]
        split
        · next hS =>
          refine ptr_data_of_le (Nat.le_of_not_lt fun hm => hk ?_)
          exact ⟨hS.1, hS.2.1, hm⟩
        · rfl
  have D := C.writeIndirect hl hid w (C.owned.detach hp)
  have D' := D.discard (T := Pointed L s.ptr (ListedPast v.svIno blocklen)) (fun _ h => .inr h) d hn hd hu
  have hstep := C.fileStep_writeIndirect hl hid w
  refine ⟨⟨D'.held_congr (held_of_pointed C), hstep.freemap d hn, ?_, fun k hk => ?_, fun k hk => ?_,
    fun k hk h0 => ?_⟩, .of_ite hp⟩
  · exact congrArg SfsInode.sfiSize (C.inode_writeIndirect hl hid (Block.ofWords w) hl)
  · exact (hp (.data v.svIno k) hl).trans (if_pos ⟨rfl, hk⟩)
  · exact (hp (.data v.svIno k) hl).trans (if_neg fun h => hk h.2)
  · exact C.sector_writeIndirect hl (Block.ofWords w) (q := .data v.svIno k) hl (by simp) h0

omit hid in
theorem Core.pointed_pastDirect (hid : s.ptr (.indirect v.svIno) ≠ 0)
    (hall : ∀ k, sfsNdirect ≤ k → s.ptr (.data v.svIno k) ≠ 0 → blocklen < k) (c : Nat) :
    Pointed L s.ptr (PastDirect v.svIno) c ↔
      c = s.ptr (.indirect v.svIno) ∨ Pointed L s.ptr (ListedPast v.svIno blocklen) c := by
  constructor
  · rintro ⟨p, hS, hp, rfl, h0⟩
    cases p with
    | indirect ino =>
      obtain rfl : ino = v.svIno := hS
      exact .inl rfl
    | data ino k =>
      obtain ⟨rfl, hk⟩ := hS
      exact .inr ⟨.data v.svIno k, ⟨rfl, hk, hall k hk h0⟩, hp, rfl, h0⟩
  · rintro (rfl | ⟨p, hS, hp, rfl, h0⟩)
    · exact ⟨.indirect v.svIno, rfl, C.live_of_vnode? hv, rfl, hid⟩
    · cases p with
      | indirect => exact hS.elim
      | data ino k => exact ⟨.data ino k, ⟨hS.1, hS.2.1⟩, hp, rfl, h0⟩

omit C hv in
/-- When the loop saw no entry that stays, every listed block is past the new length. -/
theorem listed_past_of_scanned {r : IdScan} {t : SfsFs} (h : Scanned s blocklen 0 sfsDbperidb
      ⟨(s.sector (s.ptr (.indirect v.svIno))).word, false, false⟩ r t)
    (hz : r.hasnonzero = false) (k : Nat) (hk : sfsNdirect ≤ k) (h0 : s.ptr (.data v.svIno k) ≠ 0) : blocklen < k := by
  by_contra hb
  have hm : k < sfsMaxblocks := by
    by_contra hm
    exact h0 (ptr_data_of_le (Nat.le_of_not_lt hm))
  have hi : k - sfsNdirect < sfsDbperidb := by unfold sfsMaxblocks at hm; omega
  have he := entry_eq hid hi
  rw [Nat.add_sub_cancel' hk] at he
  have hnz : r.hasnonzero = true := by
    refine h.hasnonzero.2 (.inr ⟨k - sfsNdirect, Nat.zero_le _, by omega, by omega, ?_⟩)
    exact fun hw0 => h0 (he.symm.trans (congrArg BitVec.toNat hw0))
  simp [hz] at hnz

omit C hv in
/-- When it saw one, there is a listed block that is not. -/
theorem exists_listed_of_scanned {r : IdScan} {t : SfsFs} (h : Scanned s blocklen 0 sfsDbperidb
      ⟨(s.sector (s.ptr (.indirect v.svIno))).word, false, false⟩ r t) (hz : r.hasnonzero = true) :
    ∃ k, sfsNdirect ≤ k ∧ s.ptr (.data v.svIno k) ≠ 0 ∧ ¬ blocklen < k := by
  rcases h.hasnonzero.1 hz with h0 | ⟨i, -, h2, h3, h4⟩
  · exact nomatch h0
  · refine ⟨sfsNdirect + i, Nat.le_add_right _ _, ?_, h3⟩
    rw [← entry_eq hid (by omega)]
    exact fun h => h4 (BitVec.eq_of_toNat_eq (by simpa using h))

/-- The pointers that go with the indirect part: those of the blocks past `blocklen`, and the one to
the indirect block if it lists no other. -/
def LostPast (P : Ptr → Nat) (ino blocklen : Nat) : Ptr → Prop
  | .indirect i => i = ino ∧ ∀ k, sfsNdirect ≤ k → P (.data ino k) ≠ 0 → blocklen < k
  | .data i k => i = ino ∧ sfsNdirect ≤ k ∧ blocklen < k

theorem truncIndirect_spec (blocklen : Nat) :
    Sat NoPanic (truncIndirect sv blocklen (s.ptr (.indirect v.svIno))) s (fun r t =>
      r = .ok () ∧ Cuts L H v.svIno (fun k => sfsNdirect ≤ k ∧ blocklen < k) s t ∧
      Drops L (LostPast s.ptr v.svIno blocklen) s.ptr t.ptr) := by
  have hl := C.live_of_vnode? hv
  have hiu := C.owned.pointer_used (p := .indirect v.svIno) hl hid
  simp only [truncIndirect, sat_bind]
  refine (sat_sfsRblock C.ioFaults (C.dBlocks ▸ hiu.1)).2 ?_
  refine (truncEntries_spec blocklen 0 sfsDbperidb _ (C.freeable hv hid blocklen)).mono ?_
  rintro (e | r) t h
  · exact h.elim
  · obtain ⟨m, d, rfl, hn, hflag⟩ := h.state
    have hu (c : Nat) : bitmapIsset m c = true ↔ s.used c ∧ ¬ Pointed L s.ptr (ListedPast v.svIno blocklen) c := by
      rw [← C.freed_iff hv hid]
      exact h.used c
    have hw (i : Nat) (hi : i < sfsDbperidb) : r.idbuf i = if blocklen < sfsNdirect + i then 0
        else (s.sector (s.ptr (.indirect v.svIno))).word i := by
      rw [h.idbuf]
      exact if_congr (by omega) rfl rfl
    simp only [sat_ite, sat_bind, sat_when, sat_setInode]
    by_cases hz : r.hasnonzero = false
    · rw [if_pos hz]
      have hall := listed_past_of_scanned hid h hz
      have hfree : bitmapIsset m (s.ptr (.indirect v.svIno)) = true := by
        refine (hu _).2 ⟨hiu.2, ?_⟩
        rintro ⟨p, hS, hp, he, h0⟩
        obtain rfl := C.owned.pointer_inj (q := .indirect v.svIno) hp hl (he ▸ h0) he
        exact hS
      refine (sat_sfsBfree (s := { s with sfsFreemap := m, sfsFreemapdirty := d })
        (hn ▸ Nat.lt_of_lt_of_le hiu.1 C.nblocks_le) hfree).2 ?_
      obtain ⟨hcut, hdrop⟩ := C.cutIndirect hv
        (m := { m with v := bitClear m.v (s.ptr (.indirect v.svIno)) }) (d := true) hn (fun h => by cases h) fun c => by
          rw [bitmapIsset_clear, C.pointed_pastDirect hv hid hall]
          simp only [Bool.and_eq_true, Bool.not_eq_true', decide_eq_false_iff_not, hu]
          tauto
      refine ⟨trivial, hcut.adjust fun k h0 => ⟨And.left, fun hk => ⟨hk, hall k hk h0⟩⟩, hdrop.adjust fun p _ h0 => ?_⟩
      cases p with
      | indirect ino => exact and_iff_left hall
      | data ino k =>
        refine and_congr_right fun hi => and_iff_left_of_imp fun hk => ?_
        subst hi
        exact hall k hk h0
    · rw [if_neg hz]
      obtain ⟨k, hk, hk0, hb⟩ := exists_listed_of_scanned hid h (by simpa using hz)
      have hlost (p : Ptr) : LostPast s.ptr v.svIno blocklen p ↔ ListedPast v.svIno blocklen p := by
        cases p with
        | indirect ino => exact iff_false_intro fun hp => hb (hp.2 k hk hk0)
        | data ino k => exact Iff.rfl
      by_cases hd : r.iddirty = true
      · rw [if_pos hd]
        refine (sat_sfsWblock (s := { s with sfsFreemap := m, sfsFreemapdirty := d }) C.ioFaults
          (show _ < s.sfsDevice.dBlocks from C.dBlocks ▸ hiu.1) _).2 ?_
        obtain ⟨hcut, hdrop⟩ := C.cutEntries hv hid hn hflag hu hw
        exact ⟨rfl, hcut, hdrop.adjust fun p _ _ => hlost p⟩
      · rw [if_neg hd]
        have hnone (c : Nat) : ¬ Pointed L s.ptr (ListedPast v.svIno blocklen) c := fun hc =>
          hd (h.iddirty.2 (.inr ⟨c, (C.freed_iff hv hid blocklen c).2 hc⟩))
        have D := C.discard (T := Pointed L s.ptr (ListedPast v.svIno blocklen))
          (fun c hc => absurd hc (hnone c)) d hn hflag hu
        refine ⟨trivial, ⟨D.held_congr fun c => (and_iff_left (hnone c)).symm,
          (Quiet.refl C.table).toFileStep.freemap d hn, rfl, fun k hk => ?_, fun _ _ => rfl,
          fun _ _ _ => rfl⟩, (Drops.refl L s.ptr).adjust fun p hp h0 => ?_⟩
        · by_contra h0
          exact hnone _ ⟨.data v.svIno k, ⟨rfl, hk⟩, hl, rfl, h0⟩
        · exact iff_false_intro fun hS => hnone _ ⟨p, (hlost p).1 hS, hp, rfl, h0⟩

end Indirect

/-! ## The operation -/

/-- `sfs_truncate` of a file: the blocks past the new length are gone, the rest stays. -/
structure Truncated (L H : Nat → Prop) (ino : Nat) (len : Word) (s t : SfsFs) : Prop where
  core : Core L H t
  step : FileStep L ino s t
  size : (t.inode ino).sfiSize = len
  byte : ∀ i, t.byte ino i =
    if Cut (truncBlocklen len) (i / sfsBlocksize) then 0 else s.byte ino i
  none : len = 0 → ∀ p : Ptr, p.ino = ino → t.ptr p = 0

/-- The pointers that `sfs_truncate` to `blocklen` blocks clears. The one to the indirect block is
looked at only if `blocklen` is below the last block that a file can have. -/
def Lost (P : Ptr → Nat) (ino blocklen : Nat) : Ptr → Prop
  | .indirect i => i = ino ∧ blocklen < sfsNdirect + sfsDbperidb - 1 ∧
      ∀ k, sfsNdirect ≤ k → P (.data ino k) ≠ 0 → blocklen < k
  | .data i k => i = ino ∧ Cut blocklen k

theorem sfsTruncate_drops (len : Word) (C : Core L H s) (hv : s.vnode? sv = some v) :
    Sat NoPanic (sfsTruncate sv len) s (fun r t => r = .ok () ∧ Truncated L H v.svIno len s t ∧
      Drops L (Lost s.ptr v.svIno (truncBlocklen len)) s.ptr t.ptr) := by
  have hl := C.live_of_vnode? hv
  simp only [sfsTruncate, sat_bind]
  generalize hbl : truncBlocklen len = blocklen
  refine (truncDirect_spec blocklen 0 sfsNdirect (by omega) C hv).mono ?_
  rintro _ t ⟨rfl, h1, d1⟩
  obtain ⟨i, d, hv'⟩ := h1.step.vnode? hv
  have hind : i.sfiIndirect.toNat = t.ptr (.indirect v.svIno) :=
    (congrArg (·.sfiIndirect.toNat) (h1.core.table.inode_of_vnode? hv')).symm
  simp only [sat_vnode hv', hind, sat_when]
  -- the loop over the direct pointers leaves the others alone
  have hpast {k : Nat} (hk : sfsNdirect ≤ k) : t.ptr (.data v.svIno k) = s.ptr (.data v.svIno k) :=
    h1.ptr_kept k fun h => by omega
  -- the rest sets the size of a file that has lost its blocks already
  have finish {u : SfsFs} (h2 : Cuts L H v.svIno (fun k => sfsNdirect ≤ k ∧ blocklen < k) t u)
      (d2 : Drops L (fun p => LostPast s.ptr v.svIno blocklen p ∧
        (p = .indirect v.svIno → blocklen < sfsNdirect + sfsDbperidb - 1)) t.ptr u.ptr) :
      Truncated L H v.svIno len s
        (u.updateVnode sv (SfsVnode.setInode fun i => { i with sfiSize := len })) ∧
      Drops L (Lost s.ptr v.svIno blocklen) s.ptr
        (u.updateVnode sv (SfsVnode.setInode fun i => { i with sfiSize := len })).ptr := by
    have h3 : Cuts L H v.svIno (Cut blocklen) s u := (h1.trans h2).adjust fun k _ => by
      unfold Cut
      split <;> omega
    have d3 : Drops L (Lost s.ptr v.svIno blocklen) s.ptr u.ptr := (d1.trans d2).adjust fun p _ _ => by
      cases p with
      | indirect ino =>
        simp only [Lost, LostPast, reduceCtorEq, false_and, exists_false, false_or, Ptr.indirect.injEq]
        tauto
      | data ino k =>
        simp only [Lost, LostPast, Cut, Ptr.data.injEq, reduceCtorEq, false_imp_iff, and_true]
        constructor
        · rintro ⟨rfl, hk⟩
          split at hk
          · exact .inl ⟨k, ⟨rfl, rfl⟩, by omega, by omega, hk⟩
          · exact .inr ⟨rfl, by omega, hk⟩
        · rintro (⟨k, ⟨rfl, rfl⟩, -, hn, hb⟩ | ⟨rfl, hk, hb⟩)
          · exact ⟨rfl, by rwa [if_pos (by omega)]⟩
          · exact ⟨rfl, by rwa [if_neg (by omega)]⟩
    obtain ⟨j, d', hu⟩ := h2.step.vnode? hv'
    obtain ⟨D, st, hsz, hby, hp⟩ := h2.core.setSize hu len
    refine ⟨⟨D, h3.step.trans st, hsz, fun i => (hby i).trans (hbl ▸ h3.byte i), fun hlen p hpi => ?_⟩, ?_⟩
    · have hb0 : blocklen = 0 := by
        subst hlen
        exact hbl.symm
      have hcut (k : Nat) (hk : sfsNdirect ≤ k) : 0 < k := Nat.lt_of_lt_of_le (by decide) hk
      rw [hp]
      refine d3.gone p (hpi ▸ hl) ?_
      subst hb0
      cases p with
      | indirect ino => exact ⟨hpi, by decide, fun k hk _ => hcut k hk⟩
      | data ino k =>
        refine ⟨hpi, ?_⟩
        unfold Cut
        split
        · exact Nat.zero_le k
        · exact hcut k (by omega)
    · exact ⟨fun p hl hp' => (hp p).trans (d3.gone p hl hp'), fun p hl hp' => (hp p).trans (d3.kept p hl hp')⟩
  by_cases hid : blocklen < sfsNdirect + sfsDbperidb - 1 ∧ t.ptr (.indirect v.svIno) ≠ 0
  · rw [if_pos hid]
    refine (truncIndirect_spec h1.core hv' hid.2 blocklen).mono ?_
    rintro _ u ⟨rfl, h2, d2⟩
    refine ⟨rfl, finish h2 (d2.adjust fun p _ _ => ?_)⟩
    cases p with
    | indirect ino =>
      simp only [LostPast, hid.1, implies_true, and_true]
      exact and_congr_right fun _ => forall₂_congr fun k hk => by rw [hpast hk]
    | data ino k => simp [LostPast]
  · rw [if_neg hid]
    have hlast {p : Ptr} (hp : LostPast s.ptr v.svIno blocklen p) (h0 : t.ptr p ≠ 0) :
        ¬ blocklen < sfsNdirect + sfsDbperidb - 1 := by
      intro hb
      refine hid ⟨hb, ?_⟩
      cases p with
      | indirect ino => exact hp.1 ▸ h0
      | data ino k =>
        obtain ⟨rfl, hk, -⟩ := hp
        exact fun hz => h0 (ptr_data_none hk hz)
    have hnone {k : Nat} (hk : sfsNdirect ≤ k ∧ blocklen < k) : t.ptr (.data v.svIno k) = 0 := by
      by_contra h0
      have hm : k < sfsMaxblocks := by
        by_contra hm
        exact h0 (ptr_data_of_le (Nat.le_of_not_lt hm))
      have := hlast (p := .data v.svIno k) ⟨rfl, hk⟩ h0
      unfold sfsMaxblocks at hm
      omega
    refine ⟨rfl, finish ((Cuts.refl h1.core _).adjust fun k h0 => ?_) ((Drops.refl L t.ptr).adjust fun p _ h0 => ?_)⟩
    · exact iff_false_intro fun hk => h0 (hnone hk)
    · refine iff_false_intro fun hp => ?_
      cases p with
      | indirect ino => exact hlast hp.1 h0 (hp.2 (hp.1.1 ▸ rfl))
      | data ino k =>
        obtain ⟨⟨rfl, hk⟩, -⟩ := hp
        exact h0 (hnone hk)

theorem sfsTruncate_spec (len : Word) (C : Core L H s) (hv : s.vnode? sv = some v) :
    Sat NoPanic (sfsTruncate sv len) s (fun r t => r = .ok () ∧ Truncated L H v.svIno len s t) :=
  (sfsTruncate_drops len C hv).mono fun _ _ h => ⟨h.1, h.2.1⟩

end Os161.Sfs
