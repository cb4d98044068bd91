import Os161.Kern.Errno
import Os161.Lib.Buffer
import Os161.Lib.Run

/-!
# Queues

`kern/lib/queue.c`: a first-in first-out queue in a ring of `size` cells, one of which always
stays unused. A queue that is full grows: `q_grow` gets a larger block and enters the old elements
again, through the same `q_addtail` that called it.

The `int` fields are natural numbers; a computation that would leave the range of `int` is a stop,
as is an access outside the block behind the queue. The state has the queue and the answers of
`kmalloc` to come. The calls between `q_grow` and `q_addtail` carry a depth, and a `q_grow` entered
below the last one allowed is the stop `recursion`.
-/
namespace Os161.Kern

open Lib Prog

structure Queue (α : Type) where
  size : Nat
  nextwrite : Nat
  nextread : Nat
  data : Buffer α

inductive QueuePanic where
  | size | overflow | growFailed | remheadEmpty
  | overrun | recursion | endless
  deriving DecidableEq, Repr

variable {α : Type}

abbrev QueueM (α : Type) := Prog QueuePanic Errno (Queue α × Supply α)

def modifyQueue (f : Queue α → Queue α) : QueueM α Unit := Prog.modify fun s => (f s.1, s.2)

/-- The queue with its two blocks, if `kmalloc` has both. -/
def qCreate (size : Nat) (m : Supply α) : Option (Queue α) × Supply α :=
  match m 0, m 1 with
  | none, _ => (none, m.rest)
  | some _, none => (none, m.rest.rest)
  | some _, some cell => (some ⟨size, 0, 0, ⟨roomFor size, cell⟩⟩, m.rest.rest)

def qEmpty (q : Queue α) : Bool := q.nextwrite = q.nextread

/-- Store at the end of a queue that has room. -/
def putTail (ptr : α) : QueueM α Unit := do
  let s ← Prog.get
  Prog.check (s.1.nextwrite < s.1.data.room) .overrun
  modifyQueue fun q =>
    { q with data := q.data.store q.nextwrite ptr, nextwrite := (q.nextwrite + 1) % q.size }

/-- `q_addtail`, with the function that grows a full queue. -/
def addtailWith (grow : Nat → QueueM α Unit) (ptr : α) : QueueM α Unit := do
  let s ← Prog.get
  Prog.check (0 < s.1.size) .size
  Prog.when ((s.1.nextwrite + 1) % s.1.size = s.1.nextread) do
    Prog.check (s.1.size + 1 < 2 ^ 31) .overflow
    grow (s.1.size + 1)
  putTail ptr

/-- Double a size until it reaches the target. -/
def doubleTo (targetsize : Nat) : Nat → Nat → QueueM α Nat :=
  growLoop (2 * ·) .overflow .endless targetsize

/-- Enter the old elements from position `i` on again. -/
def refill (addtail : α → QueueM α Unit) (olddata : Buffer α) (osize onw : Nat) :
    Nat → Nat → QueueM α Unit
  | 0, _ => Prog.stop .endless
  | n + 1, i =>
    if i = onw then pure ()
    else do
      Prog.check (i < olddata.room) .overrun
      let result ← Prog.attempt (addtail (olddata.cell i))
      match result with
      | .ok _ => refill addtail olddata osize onw n ((i + 1) % osize)
      | .error _ => Prog.stop .growFailed

def qGrow : Nat → Nat → QueueM α Unit
  | 0, _ => Prog.stop .recursion
  | depth + 1, targetsize => do
    let s ← Prog.get
    let nsize ← doubleTo targetsize 32 s.1.size
    let ndata? ← alloc nsize
    match ndata? with
    | none => Prog.raise .enomem
    | some ndata =>
      modifyQueue fun _ => ⟨nsize, 0, 0, ndata⟩
      refill (addtailWith (qGrow depth)) s.1.data s.1.size s.1.nextwrite (s.1.size + 1) s.1.nextread

def qAddtail (ptr : α) : QueueM α Unit := addtailWith (qGrow 1) ptr

def qPreallocate (size : Int) : QueueM α Unit := do
  let s ← Prog.get
  Prog.check (0 < s.1.size) .size
  Prog.when ((s.1.size : Int) < size) (qGrow 1 size.toNat)

def qRemhead : QueueM α α := do
  let s ← Prog.get
  Prog.check (0 < s.1.size) .size
  Prog.check (¬ qEmpty s.1) .remheadEmpty
  Prog.check (s.1.nextread < s.1.data.room) .overrun
  modifyQueue fun q => { q with nextread := (q.nextread + 1) % q.size }
  pure (s.1.data.cell s.1.nextread)

/-! ## The list behind a queue -/

/-- The ring has the list, whatever room the block behind it has. -/
structure Queue.Rings (q : Queue α) (l : List α) : Prop where
  read_lt : q.nextread < q.size
  length_lt : l.length < q.size
  write_eq : q.nextwrite = (q.nextread + l.length) % q.size
  holds : RingHolds q.data.cell q.size q.nextread l

/-- The queue keeps the list in its ring, and the block has room for the ring. -/
structure Queue.Valid (q : Queue α) (l : List α) : Prop extends q.Rings l where
  fits : 4 * q.size < 2 ^ 32
  room : q.data.room = q.size

def Queue.elems (q : Queue α) : List α :=
  (List.range ((q.nextwrite + (q.size - q.nextread)) % q.size)).map fun k =>
    q.data.cell ((q.nextread + k) % q.size)

def grownSize (targetsize size : Nat) : Nat := growTo (2 * ·) targetsize 31 size

/-- Doubling the size that `q_grow` computes fits an `int`. -/
def Queue.Doubles (q : Queue α) (targetsize : Nat) : Prop :=
  2 * grownSize targetsize q.size < 2 ^ 31

/-- No cell but the unused one is left. -/
def Queue.Full (q : Queue α) : Prop := (q.nextwrite + 1) % q.size = q.nextread

instance (q : Queue α) (t : Nat) : Decidable (q.Doubles t) := inferInstanceAs (Decidable (_ < _))
instance (q : Queue α) : Decidable q.Full := inferInstanceAs (Decidable (_ = _))

variable {q : Queue α} {l : List α} {s : Queue α × Supply α} {x : α} {n t : Nat}

def NoStop (_ : QueuePanic) : Prop := False

namespace Queue.Rings

theorem pos (h : q.Rings l) : 0 < q.size := by
  have := h.read_lt
  omega

theorem write_lt (h : q.Rings l) : q.nextwrite < q.size :=
  h.write_eq ▸ Nat.mod_lt _ h.pos

theorem full_iff (h : q.Rings l) : q.Full ↔ l.length + 1 = q.size := by
  rw [Queue.Full, h.write_eq, Nat.mod_add_mod, ring_full_iff h.read_lt h.length_lt]

/-- The list is what stands between the two positions. -/
theorem elems_eq (h : q.Rings l) : q.elems = l := by
  have hread := h.read_lt
  have hlen := h.length_lt
  have hcount : (q.nextwrite + (q.size - q.nextread)) % q.size = l.length := by
    have hsum : q.nextread + l.length + (q.size - q.nextread) = l.length + q.size := by omega
    rw [h.write_eq, Nat.mod_add_mod, hsum, Nat.add_mod_right, Nat.mod_eq_of_lt hlen]
  rw [Queue.elems, hcount]
  refine List.ext_getElem? fun k => ?_
  by_cases hk : k < l.length
  · rw [List.getElem?_map, List.getElem?_range hk, h.holds k hk]
    rfl
  · rw [List.getElem?_eq_none (by simpa using hk), List.getElem?_eq_none (Nat.le_of_not_lt hk)]

theorem empty_iff (h : q.Rings l) : qEmpty q = true ↔ l = [] := by
  have hinj := ring_index_inj h.read_lt h.length_lt h.pos
  rw [Nat.add_zero, Nat.mod_eq_of_lt h.read_lt] at hinj
  rw [qEmpty, decide_eq_true_iff, h.write_eq, hinj, List.length_eq_zero_iff]

end Queue.Rings

theorem le_grownSize (hn : 0 < n) : n ≤ grownSize t n := le_growTo (fun k hk => by omega) 31

theorem grownSize_le : grownSize t n ≤ max n (2 * (t - 1)) :=
  growTo_le (fun _ _ h => Nat.mul_le_mul_left 2 h) 31

theorem target_le_of_fits (hn : 0 < n) (h : 2 * grownSize t n < 2 ^ 31) : t ≤ grownSize t n := by
  obtain h' | h' := growTo_cases (g := (2 * ·)) (t := t) (fun k _ => Nat.le_refl _) (n := n) 31
  · exact h'
  · rw [← grownSize] at h'
    omega

theorem doubleTo_spec (hn : 0 < n) : Sat (fun _ => ¬ 2 * grownSize t n < 2 ^ 31) (doubleTo t 32 n) s fun r s' =>
    r = .ok (grownSize t n) ∧ t ≤ grownSize t n ∧ s' = s := by
  refine (growLoop_spec (fun k hk => by omega) 31).weaken fun p hp hfit => ?_
  have htarget := target_le_of_fits hn hfit
  unfold grownSize at *
  omega

/-! ## The operations on the list

Every access is to a cell of the block, unless the block has less room than the ring. -/

/-- The block has less room than the ring. -/
def Queue.Short (q : Queue α) : Prop := q.data.room < q.size

theorem putTail_spec (h : s.1.Rings l) (hroom : l.length + 1 < s.1.size) :
    Sat (fun _ => s.1.Short) (putTail x) s fun r s' => r = .ok () ∧ s'.1.Rings (l ++ [x]) ∧
      s'.1.size = s.1.size ∧ s'.1.data.room = s.1.data.room ∧ s'.2 = s.2 := by
  simp only [putTail, modifyQueue, sat_bind, sat_get, sat_check, sat_modify]
  split
  · refine ⟨trivial, ⟨h.read_lt, by simpa using hroom, ?_, ?_⟩, trivial, rfl, trivial⟩
    · simp [h.write_eq, Nat.add_assoc]
    · rw [h.write_eq]
      exact h.holds.push h.read_lt (by omega)
  · next hw => exact Nat.lt_of_le_of_lt (Nat.le_of_not_lt hw) h.write_lt

theorem addtailWith_spec {grow : Nat → QueueM α Unit} (h : s.1.Rings l) (hroom : l.length + 1 < s.1.size) :
    Sat (fun _ => s.1.Short) (addtailWith grow x) s fun r s' => r = .ok () ∧
      s'.1.Rings (l ++ [x]) ∧ s'.1.size = s.1.size ∧ s'.1.data.room = s.1.data.room ∧ s'.2 = s.2 := by
  have hfull : ¬ (s.1.nextwrite + 1) % s.1.size = s.1.nextread := by
    intro e
    have := h.full_iff.1 e
    omega
  simp only [addtailWith, sat_bind, sat_get, sat_check, sat_when, if_pos h.pos, if_neg hfull]
  exact putTail_spec h hroom

/-- The loop of `q_grow`: the elements of `rest` are still to be entered. -/
theorem refill_spec (grow : Nat → QueueM α Unit) (done rest : List α) (h : q.Rings (done ++ rest))
    (hs : s.1.Rings done) (hsize : q.size ≤ s.1.size) (n : Nat) (hn : rest.length < n) :
    Sat (fun _ => q.Short ∨ s.1.Short) (refill (addtailWith grow) q.data q.size q.nextwrite n
          ((q.nextread + done.length) % q.size)) s fun r s' => r = .ok () ∧
      s'.1.Rings (done ++ rest) ∧ s'.1.size = s.1.size ∧ s'.1.data.room = s.1.data.room := by
  induction n generalizing done rest s with
  | zero => exact absurd hn (Nat.not_lt_zero _)
  | succ n ih =>
    have hlen := h.length_lt
    rw [List.length_append] at hlen
    have hend : (q.nextread + done.length) % q.size = q.nextwrite ↔ rest.length = 0 := by
      rw [h.write_eq, ring_index_inj h.read_lt (by omega) h.length_lt, List.length_append]
      omega
    unfold refill
    cases rest with
    | nil =>
      rw [if_pos (hend.2 rfl)]
      exact ⟨rfl, by simpa using hs, rfl, rfl⟩
    | cons y rest =>
      simp only [List.length_cons] at hlen hn hend
      rw [if_neg fun e => by have := hend.1 e; omega]
      have hget := h.holds done.length (by simp)
      rw [List.getElem?_append_right (Nat.le_refl _), Nat.sub_self, List.getElem?_cons_zero] at hget
      simp only [sat_bind, sat_check, sat_attempt, ← Option.some.inj hget]
      split
      · refine ((addtailWith_spec (x := y) hs (by omega)).weaken fun _ => .inr).mono ?_
        rintro r s' ⟨rfl, hv, hsz, hroom, -⟩
        have happ : done ++ y :: rest = (done ++ [y]) ++ rest := by simp
        have hnext : ((q.nextread + done.length) % q.size + 1) % q.size =
            (q.nextread + (done ++ [y]).length) % q.size := by
          rw [Nat.mod_add_mod, List.length_append, List.length_singleton, Nat.add_assoc]
        have hshort : s'.1.Short ↔ s.1.Short := by rw [Queue.Short, Queue.Short, hroom, hsz]
        simp only [hnext]
        rw [happ] at h ⊢
        refine ((ih (done ++ [y]) rest h hv (by omega) (by omega)).weaken ?_).mono ?_
        · exact fun p hp => hp.imp_right hshort.1
        · rintro r s'' ⟨rfl, hv', hsz', hroom'⟩
          exact ⟨rfl, hv', hsz'.trans hsz, hroom'.trans hroom⟩
      · next hin => exact .inl (Nat.lt_of_le_of_lt (Nat.le_of_not_lt hin) (Nat.mod_lt _ h.pos))

/-- Growing keeps the list, or leaves the queue alone when there is no memory. -/
theorem qGrow_spec (h : s.1.Rings l) (d t : Nat) :
    Sat (fun _ => s.1.Short ∨ ¬ s.1.Doubles t) (qGrow (d + 1) t) s fun r s' =>
      (r = .error .enomem ∧ s'.1 = s.1 ∧ s.2 0 = none) ∨
      (r = .ok () ∧ s'.1.Rings l ∧ s'.1.size = grownSize t s.1.size ∧ t ≤ s'.1.size ∧
        s'.1.data.room = roomFor s'.1.size) := by
  have hle := le_grownSize (t := t) h.pos
  have hlen := h.length_lt
  unfold qGrow
  simp only [sat_bind, sat_get]
  refine ((doubleTo_spec h.pos).weaken fun _ => .inr).mono ?_
  rintro _ s' ⟨rfl, htarget, hs'⟩
  simp only [hs', sat_alloc]
  cases hm : s.2 0 with
  | none => exact .inl ⟨rfl, rfl, rfl⟩
  | some cell =>
    simp only [Option.map_some, modifyQueue, sat_bind, sat_modify]
    have hempty : (⟨grownSize t s.1.size, 0, 0, ⟨roomFor (grownSize t s.1.size), cell⟩⟩ : Queue α).Rings [] := by
      have hpos := h.pos
      exact ⟨by simp only; omega, by simp only [List.length_nil]; omega, by simp, ringHolds_nil⟩
    have loop := refill_spec (qGrow d) [] l
      (s := (⟨grownSize t s.1.size, 0, 0, ⟨roomFor (grownSize t s.1.size), cell⟩⟩, s.2.rest))
      h hempty hle (s.1.size + 1) (by omega)
    simp only [List.length_nil, Nat.add_zero, Nat.mod_eq_of_lt h.read_lt] at loop
    refine (loop.weaken ?_).mono ?_
    · intro p hp
      refine hp.imp_right fun hshort hfit => ?_
      have hfits : 4 * grownSize t s.1.size < 2 ^ 32 := by
        unfold Queue.Doubles at hfit
        omega
      simp only [Queue.Short, roomFor_of_lt hfits] at hshort
      omega
    · rintro r s' ⟨rfl, hv, hsz, hroom⟩
      exact .inr ⟨rfl, hv, hsz, by rw [hsz]; exact htarget, by rw [hroom, hsz]⟩

/-- A queue that is not full takes an element as it is; a full one grows, or fails for want of
memory. -/
theorem qAddtail_cases (h : s.1.Rings l) :
    Sat (fun _ => s.1.Short ∨ l.length + 1 = s.1.size ∧ ¬ s.1.Doubles (s.1.size + 1)) (qAddtail x) s fun r s' =>
      (r = .error .enomem ∧ s'.1 = s.1 ∧ l.length + 1 = s.1.size) ∨ (r = .ok () ∧ s'.1.Rings (l ++ [x]) ∧
        (l.length + 1 < s.1.size ∧ s'.1.size = s.1.size ∧ s'.1.data.room = s.1.data.room ∧ s'.2 = s.2 ∨
          l.length + 1 = s.1.size ∧ s'.1.size = grownSize (s.1.size + 1) s.1.size ∧
            s'.1.data.room = roomFor s'.1.size)) := by
  by_cases hfull : l.length + 1 = s.1.size
  · unfold qAddtail addtailWith
    have hfull' : (s.1.nextwrite + 1) % s.1.size = s.1.nextread := h.full_iff.2 hfull
    have hle := le_grownSize (t := s.1.size + 1) h.pos
    simp only [sat_bind, sat_get, sat_check, sat_when, if_pos h.pos, if_pos hfull']
    split
    · refine ((qGrow_spec h 0 _).weaken fun p hp => hp.imp_right fun hd => ⟨hfull, hd⟩).mono ?_
      rintro r s' (⟨rfl, hs, -⟩ | ⟨rfl, hv, hsz, htarget, hroom⟩)
      · exact .inl ⟨rfl, hs, hfull⟩
      · refine ((putTail_spec hv (by omega)).weaken ?_).mono ?_
        · refine fun p hp => .inr ⟨hfull, fun hd => ?_⟩
          unfold Queue.Doubles at hd
          rw [Queue.Short, hroom, roomFor_of_lt (by omega)] at hp
          omega
        · rintro r s'' ⟨rfl, hv', hsz', hroom', -⟩
          exact .inr ⟨rfl, hv', .inr ⟨hfull, hsz'.trans hsz, by rw [hroom', hsz', hroom]⟩⟩
    · refine .inr ⟨hfull, fun hd => ?_⟩
      unfold Queue.Doubles at hd
      omega
  · have := h.length_lt
    refine ((addtailWith_spec h (by omega)).weaken fun _ => .inl).mono ?_
    rintro r s' ⟨rfl, hv, hsz, hroom, hsup⟩
    exact .inr ⟨rfl, hv, .inl ⟨by omega, hsz, hroom, hsup⟩⟩

theorem Queue.Valid.not_short (h : q.Valid l) : ¬ q.Short := by
  have := h.room
  unfold Queue.Short
  omega

/-- A queue grows to less than twice the elements it has then. -/
theorem qAddtail_spec (h : s.1.Valid l) (hfit : s.1.Full → s.1.Doubles (s.1.size + 1)) :
    Sat NoStop (qAddtail x) s fun r s' => (r = .error .enomem ∧ s'.1 = s.1 ∧ l.length + 1 = s.1.size) ∨
      (r = .ok () ∧ s'.1.Valid (l ++ [x]) ∧ s.1.size ≤ s'.1.size ∧ s'.1.size ≤ max s.1.size (2 * (l.length + 1)) ∧
        (l.length + 1 < s.1.size → s'.1.size = s.1.size ∧ s'.2 = s.2)) := by
  have hge := le_grownSize (t := s.1.size + 1) h.pos
  have hle := grownSize_le (n := s.1.size) (t := s.1.size + 1)
  refine ((qAddtail_cases h.toRings).weaken ?_).mono ?_
  · rintro p (hshort | ⟨hfull, hd⟩)
    · exact h.not_short hshort
    · exact hd (hfit (h.full_iff.2 hfull))
  · rintro r s' (⟨rfl, hs, hfull⟩ | ⟨rfl, hv, ⟨hlt, hsz, hroom, hsup⟩ | ⟨hfull, hsz, hroom⟩⟩)
    · exact .inl ⟨rfl, hs, hfull⟩
    · have hroom' : s'.1.data.room = s'.1.size := by rw [hroom, hsz, h.room]
      exact .inr ⟨rfl, ⟨hv, hsz ▸ h.fits, hroom'⟩, by omega, by omega, fun _ => ⟨hsz, hsup⟩⟩
    · have hd := hfit (h.full_iff.2 hfull)
      unfold Queue.Doubles at hd
      have hfits : 4 * s'.1.size < 2 ^ 32 := by omega
      exact .inr ⟨rfl, ⟨hv, hfits, hroom.trans (roomFor_of_lt hfits)⟩, by omega, by omega, by omega⟩

/-- What `q_preallocate` leaves, however large the size is. -/
theorem qPreallocate_cases (h : s.1.Rings l) (size : Int) :
    Sat (fun _ => s.1.Short ∨ (s.1.size : Int) < size ∧ ¬ s.1.Doubles size.toNat) (qPreallocate size) s fun r s' =>
      (r = .error .enomem ∧ s'.1 = s.1) ∨ (r = .ok () ∧ s'.1.Rings l ∧ size ≤ s'.1.size ∧
        (s'.1 = s.1 ∨ (s.1.size : Int) < size ∧ s'.1.size = grownSize size.toNat s.1.size ∧
          s'.1.data.room = roomFor s'.1.size)) := by
  simp only [qPreallocate, sat_bind, sat_get, sat_check, sat_when, if_pos h.pos]
  split
  · next hlt =>
    refine ((qGrow_spec h 0 _).weaken fun p hp => hp.imp_right fun hd => ⟨hlt, hd⟩).mono ?_
    rintro r s' (⟨rfl, hs, -⟩ | ⟨rfl, hv, hsz, htarget, hroom⟩)
    · exact .inl ⟨rfl, hs⟩
    · exact .inr ⟨rfl, hv, by omega, .inr ⟨hlt, hsz, hroom⟩⟩
  · exact .inr ⟨trivial, h, by omega, .inl trivial⟩

theorem qPreallocate_spec (h : s.1.Valid l) (size : Int) (hfit : (s.1.size : Int) < size → s.1.Doubles size.toNat) :
    Sat NoStop (qPreallocate size) s fun r s' => (r = .error .enomem ∧ s'.1 = s.1) ∨
      (r = .ok () ∧ s'.1.Valid l ∧ size ≤ s'.1.size ∧ s.1.size ≤ s'.1.size ∧
        s'.1.size ≤ max s.1.size (2 * size.toNat)) := by
  have hge := le_grownSize (t := size.toNat) h.pos
  have hle := grownSize_le (n := s.1.size) (t := size.toNat)
  refine ((qPreallocate_cases h.toRings size).weaken ?_).mono ?_
  · rintro p (hshort | ⟨hlt, hd⟩)
    · exact h.not_short hshort
    · exact hd (hfit hlt)
  · rintro r s' (⟨rfl, hs⟩ | ⟨rfl, hv, hsize, hs | ⟨hlt, hsz, hroom⟩⟩)
    · exact .inl ⟨rfl, hs⟩
    · rw [hs] at hsize ⊢
      exact .inr ⟨rfl, h, hsize, Nat.le_refl _, Nat.le_max_left _ _⟩
    · have hd := hfit hlt
      unfold Queue.Doubles at hd
      have hfits : 4 * s'.1.size < 2 ^ 32 := by omega
      exact .inr ⟨rfl, ⟨hv, hfits, hroom.trans (roomFor_of_lt hfits)⟩, hsize, by omega, by omega⟩

theorem qRemhead_spec (h : s.1.Valid (x :: l)) : Sat NoStop qRemhead s fun r s' =>
    r = .ok x ∧ s'.1.Valid l ∧ s'.1.size = s.1.size ∧ s'.2 = s.2 := by
  have hne : ¬ qEmpty s.1 = true := by simp [h.empty_iff]
  have hin : s.1.nextread < s.1.data.room := h.room ▸ h.read_lt
  obtain ⟨hx, hl⟩ := h.holds.pop h.read_lt
  have hlen := h.length_lt
  rw [List.length_cons] at hlen
  simp only [qRemhead, modifyQueue, sat_bind, sat_get, sat_check, sat_modify,
    sat_pure, if_pos h.pos, if_pos hne, if_pos hin, hx]
  refine ⟨trivial, ⟨⟨Nat.mod_lt _ h.pos, Nat.lt_of_succ_lt hlen, ?_, hl⟩, h.fits, h.room⟩, trivial,
    trivial⟩
  rw [h.write_eq, List.length_cons, Nat.mod_add_mod, Nat.add_assoc, Nat.add_comm 1]

/-! ## Runs -/

inductive QueueEvent (α : Type) where
  | addtail (ptr : α) (result : Except Errno Unit)
  | remhead (ptr : α)
  | preallocate (size : Int) (result : Except Errno Unit)
  | empty (result : Bool)

/-- Calls on a queue, as long as doubling its size fits an `int` when it grows. -/
inductive QueueStep : Queue α × Supply α → QueueEvent α → Queue α × Supply α → Prop
  | addtail {s s' : Queue α × Supply α} {ptr : α} {r : Except Errno Unit}
      (hfit : s.1.Full → s.1.Doubles (s.1.size + 1)) (hcall : qAddtail ptr s = .ok (r, s')) :
      QueueStep s (.addtail ptr r) s'
  | remhead {s s' : Queue α × Supply α} {ptr : α} (hne : qEmpty s.1 = false)
      (hcall : qRemhead s = .ok (.ok ptr, s')) : QueueStep s (.remhead ptr) s'
  | preallocate {s s' : Queue α × Supply α} {size : Int} {r : Except Errno Unit}
      (hfit : s.1.size < size → s.1.Doubles size.toNat) (hcall : qPreallocate size s = .ok (r, s')) :
      QueueStep s (.preallocate size r) s'
  | empty {s : Queue α × Supply α} : QueueStep s (.empty (qEmpty s.1)) s

/-- The first-in first-out list after a history, whose last event comes first. -/
def fifo : List (QueueEvent α) → List α
  | [] => []
  | .addtail ptr (.ok _) :: tr => fifo tr ++ [ptr]
  | .addtail _ (.error _) :: tr => fifo tr
  | .remhead _ :: tr => (fifo tr).tail
  | .preallocate _ _ :: tr => fifo tr
  | .empty _ :: tr => fifo tr

/-- What the calls on a queue with the list `l` do. -/
structure Queue.Serves (s : Queue α × Supply α) (l : List α) : Prop where
  empty : qEmpty s.1 = true ↔ l = []
  addtail : ∀ ptr, (s.1.Full → s.1.Doubles (s.1.size + 1)) →
    Prog.Sat NoStop (qAddtail ptr) s fun r s' => (r = .ok () ∧ s'.1.Valid (l ++ [ptr])) ∨ (r = .error .enomem ∧ s'.1 = s.1)
  remhead : ∀ ptr rest, l = ptr :: rest → Prog.Sat NoStop qRemhead s fun r s' =>
    r = .ok ptr ∧ s'.1.Valid rest
  preallocate : ∀ size : Int, (s.1.size < size → s.1.Doubles size.toNat) →
    Prog.Sat NoStop (qPreallocate size) s fun r s' =>
      (r = .ok () ∧ s'.1.Valid l) ∨ (r = .error .enomem ∧ s'.1 = s.1)

theorem Queue.Valid.serves (h : s.1.Valid l) : Queue.Serves s l where
  empty := h.empty_iff
  addtail ptr hfit := by
    refine (qAddtail_spec h hfit).mono ?_
    rintro r s' (⟨rfl, hs, -⟩ | ⟨rfl, hv, -⟩)
    · exact .inr ⟨rfl, hs⟩
    · exact .inl ⟨rfl, hv⟩
  remhead ptr rest hl := by
    refine (qRemhead_spec (hl ▸ h)).mono ?_
    rintro r s' ⟨rfl, hv, -⟩
    exact ⟨rfl, hv⟩
  preallocate size hfit := by
    refine (qPreallocate_spec h size hfit).mono ?_
    rintro r s' (⟨rfl, hs⟩ | ⟨rfl, hv, -⟩)
    · exact .inr ⟨rfl, hs⟩
    · exact .inl ⟨rfl, hv⟩

/-- A call takes the list of the queue to the list after one more event. -/
theorem QueueStep.valid {s' : Queue α × Supply α} {e : QueueEvent α} {tr : List (QueueEvent α)}
    (h : s.1.Valid (fifo tr)) (step : QueueStep s e s') : s'.1.Valid (fifo (e :: tr)) := by
  cases step with
  | addtail hfit hcall =>
    obtain ⟨rfl, hv⟩ | ⟨rfl, hs⟩ := (h.serves.addtail _ hfit).of_ok hcall
    · exact hv
    · rw [hs]
      exact h
  | remhead hne hcall =>
    have hl : fifo tr ≠ [] := fun e => by simp [h.empty_iff.2 e] at hne
    obtain ⟨y, rest, hl⟩ := List.exists_cons_of_ne_nil hl
    have hv := ((h.serves.remhead y rest hl).of_ok hcall).2
    simpa only [fifo, hl, List.tail_cons] using hv
  | preallocate hfit hcall =>
    obtain ⟨rfl, hv⟩ | ⟨rfl, hs⟩ := (h.serves.preallocate _ hfit).of_ok hcall
    · exact hv
    · rw [hs]
      exact h
  | empty => exact h

theorem qCreate_eq {m m' : Supply α} (hq : qCreate n m = (some q, m')) : ∃ cell, q = ⟨n, 0, 0, ⟨roomFor n, cell⟩⟩ := by
  unfold qCreate at hq
  split at hq
  · exact nomatch hq
  · exact nomatch hq
  · next cell _ _ =>
    simp only [Prod.mk.injEq, Option.some.injEq] at hq
    exact ⟨cell, hq.1.symm⟩

theorem qCreate_valid {m m' : Supply α} (hn : 0 < n) (hfit : 2 * n < 2 ^ 31)
    (hq : qCreate n m = (some q, m')) : q.Valid [] := by
  have hfits : 4 * n < 2 ^ 32 := by omega
  obtain ⟨cell, rfl⟩ := qCreate_eq hq
  exact ⟨⟨hn, hn, by simp, ringHolds_nil⟩, hfits, roomFor_of_lt hfits⟩

/-- A queue refines the list of its history: its ring holds that list, and every call does to the
queue what it does to the list, or fails for want of memory and does nothing. With a depth of one
`q_grow`, no call ever needs a second. -/
theorem queue_refines_fifo {m m' : Supply α} {tr : List (QueueEvent α)} (hn : 0 < n)
    (hfit : 2 * n < 2 ^ 31) (hq : qCreate n m = (some q, m')) (run : Run QueueStep (q, m') tr s) :
    s.1.Valid (fifo tr) ∧ s.1.nextread < s.1.size ∧ s.1.nextwrite < s.1.size ∧ Queue.Serves s (fifo tr) := by
  have h : s.1.Valid (fifo tr) :=
    run.history (I := fun tr s => s.1.Valid (fifo tr)) (qCreate_valid hn hfit hq)
      fun h step => step.valid h
  exact ⟨h, h.read_lt, h.write_lt, h.serves⟩

/-- A queue of one cell, with memory for everything. -/
def sampleQueue : Queue Nat := ⟨1, 0, 0, ⟨roomFor 1, fun _ => 0⟩⟩

theorem queue_refines_fifo_sampleQueue : ∃ s, Run QueueStep (sampleQueue, fun _ => some fun _ => 0)
    [.remhead 5, .addtail 6 (.ok ()), .addtail 5 (.ok ())] s ∧ s.1.Valid [6] := by
  have run : Run QueueStep (sampleQueue, fun _ => some fun _ => 0)
      [.remhead 5, .addtail 6 (.ok ()), .addtail 5 (.ok ())] _ :=
    .step (.step (.step .start (.addtail (by decide) rfl)) (.addtail (by decide) rfl))
      (.remhead (by decide) rfl)
  exact ⟨_, run, (queue_refines_fifo (m := fun _ => some fun _ => 0) (n := 1) (by decide) (by decide)
    rfl run).1⟩

end Os161.Kern
