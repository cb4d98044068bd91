import Os161.Lib.Memory
import Os161.Lib.Prog
import Os161.Lib.Words
import Os161.Kern.Errno

/-!
# Copies to and from user space

`kern/lib/copyinout.c` with the `memcpy` that it calls. The two sides of a copy are two memories, so
that what is done through the user's pointer can be told from what is done to the kernel's buffer.
An access on the user's side may fault. The fault handler then looks at `pcb_badfaultfunc`: where it
is set, `copyfail` jumps back to the `setjmp` of the function that set it; otherwise the machine
stops.
-/
namespace Os161.Copyinout

open Lib Kern Prog

def usertop : Word := 0x80000000

inductive Access where
  | read | write
  deriving DecidableEq, Repr

inductive Ptr where
  | user (addr : Word)
  | kern (addr : Word)

def Ptr.addr : Ptr → Word
  | .user a => a
  | .kern a => a

def Ptr.add : Ptr → Nat → Ptr
  | .user a, i => .user (a + BitVec.ofNat 32 i)
  | .kern a, i => .kern (a + BitVec.ofNat 32 i)

structure CopyState where
  user : Word → Byte
  kern : Word → Byte
  /-- Is it `copyfail`? -/
  pcbBadfaultfunc : Bool
  /-- What the caller's pointer for the length is at. -/
  actual : Word
  /-- All addresses that were used on the user's side. -/
  touched : List Word

inductive CopyPanic where
  | fatalFault
  deriving DecidableEq, Repr

/-- Inside a copy the only error is the jump of `copyfail`. -/
abbrev BodyM := Prog CopyPanic Unit CopyState

abbrev CopyM := Prog CopyPanic Errno CopyState

def addrs (a : Word) (n : Nat) : List Word := loadCells id a n

variable (faults : Access → Word → Bool)

/-- Use `n` addresses on the user's side at once. -/
def access (acc : Access) (a : Word) (n : Nat) : BodyM Unit := do
  Prog.modify fun s => { s with touched := addrs a n ++ s.touched }
  let s ← Prog.get
  if ∃ b ∈ addrs a n, faults acc b = true then
    if s.pcbBadfaultfunc then Prog.raise () else Prog.stop .fatalFault
  else pure ()

def loadAt (n : Nat) : Ptr → BodyM (List Byte)
  | .user a => do
    access faults .read a n
    let s ← Prog.get
    pure (loadCells s.user a n)
  | .kern a => do
    let s ← Prog.get
    pure (loadCells s.kern a n)

def storeAt : Ptr → List Byte → BodyM Unit
  | .user a, l => do
    access faults .write a l.length
    Prog.modify fun s => { s with user := storeCells s.user a l }
  | .kern a, l => Prog.modify fun s => { s with kern := storeCells s.kern a l }

/-- `d[i] = s[i]` for elements of `size` bytes, from index `i` on for `n` of them. -/
def copyElems (size : Nat) (dst src : Ptr) : Nat → Nat → BodyM Unit
  | 0, _ => pure ()
  | n + 1, i => do
    let c ← loadAt faults size (src.add (size * i))
    storeAt faults (dst.add (size * i)) c
    copyElems size dst src n (i + 1)

def sizeofLong : Nat := 4

def memcpy (dst src : Ptr) (len : Word) : BodyM Unit :=
  if dst.addr.toNat % sizeofLong = 0 ∧ src.addr.toNat % sizeofLong = 0 ∧ len.toNat % sizeofLong = 0 then
    copyElems faults sizeofLong dst src (len.toNat / sizeofLong) 0
  else copyElems faults 1 dst src len.toNat 0

/-- The length that can be copied. -/
def copycheck (userptr len : Word) : Except Errno Word :=
  let bot := userptr
  let top := bot + len - 1
  if top < bot then .error .efault
  else if usertop ≤ bot then .error .efault
  else if usertop ≤ top then .ok (usertop - bot)
  else .ok len

/-- Set `pcb_badfaultfunc` to `copyfail`, run a copy after `setjmp`, and reset it. -/
def guarded {α : Type} (body : BodyM α) : CopyM α := fun s =>
  match body { s with pcbBadfaultfunc := true } with
  | .error p => .error p
  | .ok (.error _, t) => .ok (.error .efault, { t with pcbBadfaultfunc := false })
  | .ok (.ok a, t) => .ok (.ok a, { t with pcbBadfaultfunc := false })

def copyin (usersrc dest len : Word) : CopyM Unit := do
  let stoplen ← Prog.ofExcept (copycheck usersrc len)
  Prog.when (stoplen ≠ len) (Prog.raise .efault)
  guarded (memcpy faults (.kern dest) (.user usersrc) len)

def copyout (src userdest len : Word) : CopyM Unit := do
  let stoplen ← Prog.ofExcept (copycheck userdest len)
  Prog.when (stoplen ≠ len) (Prog.raise .efault)
  guarded (memcpy faults (.user userdest) (.kern src) len)

/-- The loop of `copystr` from index `i` on for at most `n` rounds. Was there a null byte? -/
def copystrLoop (dest src : Ptr) (gotlen : Bool) : Nat → Nat → BodyM Bool
  | 0, _ => pure false
  | n + 1, i => do
    let c ← loadAt faults 1 (src.add i)
    storeAt faults (dest.add i) c
    let c ← loadAt faults 1 (src.add i)
    if c = [0] then do
      Prog.when gotlen (Prog.modify fun s => { s with actual := BitVec.ofNat 32 (i + 1) })
      pure true
    else copystrLoop dest src gotlen n (i + 1)

/-- `gotlen` says whether the caller wants the length. -/
def copystr (dest src : Ptr) (maxlen stoplen : Word) (gotlen : Bool) : BodyM (Except Errno Unit) := do
  let found ← copystrLoop faults dest src gotlen (min maxlen.toNat stoplen.toNat) 0
  if found then pure (.ok ())
  else if stoplen < maxlen then pure (.error .efault)
  else pure (.error .enametoolong)

def copyinstr (usersrc dest len : Word) (actual : Bool) : CopyM Unit := do
  let stoplen ← Prog.ofExcept (copycheck usersrc len)
  let result ← guarded (copystr faults (.kern dest) (.user usersrc) len stoplen actual)
  Prog.ofExcept result

def copyoutstr (src userdest len : Word) (actual : Bool) : CopyM Unit := do
  let stoplen ← Prog.ofExcept (copycheck userdest len)
  let result ← guarded (copystr faults (.user userdest) (.kern src) len stoplen actual)
  Prog.ofExcept result

/-! ## The check -/

theorem copycheck_cases {u len : Word} (hlen : len ≠ 0) :
    (usertop.toNat ≤ u.toNat ∨ 2 ^ 32 ≤ u.toNat + len.toNat - 1) ∧ copycheck u len = .error .efault ∨
    u.toNat < usertop.toNat ∧ u.toNat + len.toNat - 1 < 2 ^ 32 ∧ ∃ stoplen, copycheck u len = .ok stoplen ∧
      stoplen.toNat = min len.toNat (usertop.toNat - u.toNat) := by
  have hpos : 0 < len.toNat := Nat.pos_of_ne_zero fun h => hlen (BitVec.eq_of_toNat_eq h)
  have hu := u.isLt
  have hl := len.isLt
  have htop : (u + len - 1).toNat = (u.toNat + len.toNat - 1) % 2 ^ 32 := by bv_omega
  have hut : usertop.toNat = 2 ^ 31 := rfl
  by_cases hout : usertop.toNat ≤ u.toNat ∨ 2 ^ 32 ≤ u.toNat + len.toNat - 1
  · refine .inl ⟨hout, ?_⟩
    simp only [copycheck, BitVec.lt_def, BitVec.le_def, htop]
    split
    · rfl
    · rw [if_pos (by omega)]
  · refine .inr ⟨by omega, by omega, ?_⟩
    simp only [copycheck, BitVec.lt_def, BitVec.le_def, htop]
    rw [if_neg (by omega), if_neg (by omega)]
    split
    · exact ⟨usertop - u, rfl, by rw [BitVec.toNat_sub_of_le (BitVec.le_def.2 (by omega))]; omega⟩
    · exact ⟨len, rfl, by omega⟩

/-! ## Directions -/

/-- A copy into the kernel or out of it. -/
inductive Dir where
  | inward | outward
  deriving DecidableEq, Repr

namespace Dir

def src (u k : Word) : Dir → Ptr
  | inward => .user u
  | outward => .kern k

def dst (u k : Word) : Dir → Ptr
  | inward => .kern k
  | outward => .user u

def acc : Dir → Access
  | inward => .read
  | outward => .write

def srcMem (s : CopyState) : Dir → Word → Byte
  | inward => s.user
  | outward => s.kern

def dstMem (s : CopyState) : Dir → Word → Byte
  | inward => s.kern
  | outward => s.user

end Dir

variable {faults} {d : Dir} {u k : Word} {s t t' : CopyState} {lim j n i : Nat}

/-- From `s` to `t` the first `j` bytes were copied, and no address past the first `lim` was used.
-/
structure Copied (d : Dir) (u k : Word) (lim : Nat) (s t : CopyState) (j : Nat) : Prop where
  dst : d.dstMem t = storeCells (d.dstMem s) (d.dst u k).addr (loadCells (d.srcMem s) (d.src u k).addr j)
  src : d.srcMem t = d.srcMem s
  pcbBadfaultfunc : t.pcbBadfaultfunc = s.pcbBadfaultfunc
  actual : t.actual = s.actual
  touched : ∀ b ∈ t.touched, b ∈ s.touched ∨ b ∈ addrs u lim

theorem copied_zero (d : Dir) (u k : Word) (lim : Nat) (s : CopyState) : Copied d u k lim s s 0 :=
  ⟨by simp, rfl, rfl, rfl, fun _ => .inl⟩

theorem Copied.memories {b : Bool} (h : Copied d u k lim { s with pcbBadfaultfunc := b } t j)
    (hu : t'.user = t.user) (hk : t'.kern = t.kern) : d.srcMem t' = d.srcMem s ∧ d.dstMem t' =
      storeCells (d.dstMem s) (d.dst u k).addr (loadCells (d.srcMem s) (d.src u k).addr j) := by
  cases d with
  | inward => exact ⟨hu.trans h.src, hk.trans h.dst⟩
  | outward => exact ⟨hk.trans h.src, hu.trans h.dst⟩

theorem mem_addrs {a b : Word} : b ∈ addrs a n ↔ ∃ l < n, b = a + BitVec.ofNat 32 l := by
  simp [addrs, loadCells, eq_comm]

theorem addrs_subset {b : Word} (h : i + n ≤ lim) (hb : b ∈ addrs (u + BitVec.ofNat 32 i) n) : b ∈ addrs u lim := by
  obtain ⟨l, hl, rfl⟩ := mem_addrs.1 hb
  exact mem_addrs.2 ⟨i + l, by omega, add_ofNat_add u i l⟩

def Faulty (faults : Access → Word → Bool) (acc : Access) (l : List Word) : Prop :=
  ∃ b ∈ l, faults acc b = true

variable {acc : Access}

theorem faulty_addrs_add {m : Nat} : Faulty faults acc (addrs u (m + n)) ↔
    Faulty faults acc (addrs u m) ∨ Faulty faults acc (addrs (u + BitVec.ofNat 32 m) n) := by
  simp only [Faulty, addrs, loadCells_add, List.mem_append, or_and_right, exists_or]

theorem copyElem_spec (h : Copied d u k lim s t j) (hb : s.pcbBadfaultfunc = true) (hn : j + n ≤ lim)
    (hlim : lim ≤ 2 ^ 32) :
    Sat (fun _ => False) (do
        let c ← loadAt faults n ((d.src u k).add j)
        storeAt faults ((d.dst u k).add j) c) t fun r t' =>
      (Faulty faults d.acc (addrs (u + BitVec.ofNat 32 j) n) ∧ r = .error () ∧ Copied d u k lim s t' j) ∨
      (¬ Faulty faults d.acc (addrs (u + BitVec.ofNat 32 j) n) ∧ r = .ok () ∧
        Copied d u k lim s t' (j + n)) := by
  have htouch (b : Word) (hb : b ∈ addrs (u + BitVec.ofNat 32 j) n ++ t.touched) : b ∈ s.touched ∨ b ∈ addrs u lim :=
    (List.mem_append.1 hb).elim (fun hb => .inr (addrs_subset hn hb)) (h.touched b)
  have hstore (m m' : Word → Byte) (a a' : Word) :
      storeCells (storeCells m a (loadCells m' a' j)) (a + BitVec.ofNat 32 j)
          (loadCells m' (a' + BitVec.ofNat 32 j) n) =
        storeCells m a (loadCells m' a' (j + n)) := by
    have := storeCells_append m a (loadCells m' a' j) (loadCells m' (a' + BitVec.ofNat 32 j) n)
      (by simp only [length_loadCells]; omega)
    rw [length_loadCells] at this
    rw [this, loadCells_add]
  have hpcb : t.pcbBadfaultfunc = true := h.pcbBadfaultfunc.trans hb
  -- Both directions are alike: a fault comes before the store, and without one the store is `hstore`.
  cases d
  all_goals
    have hdst := h.dst
    have hsrc := h.src
    simp only [Dir.dstMem, Dir.srcMem] at hdst hsrc
    simp only [Dir.src, Dir.dst, Ptr.add, loadAt, storeAt, access, sat_bind, sat_modify,
      sat_get, sat_ite, sat_raise, sat_pure, hpcb, if_true, length_loadCells]
    split
    · next hf => exact .inl ⟨hf, trivial, h.dst, h.src, hb.symm, h.actual, htouch⟩
    · next hf =>
      refine .inr ⟨hf, trivial, ?_, h.src, hb.symm, h.actual, htouch⟩
      simp only [Dir.dstMem, Dir.srcMem, hdst, hsrc]
      exact hstore _ _ _ _

/-! ## Blocks -/

theorem copyElems_spec {size : Nat} (hb : s.pcbBadfaultfunc = true) (hlim : size * (i + n) = lim)
    (hlim' : lim ≤ 2 ^ 32) (h : Copied d u k lim s t (size * i)) (hclear : ¬ Faulty faults d.acc (addrs u (size * i))) :
    Sat (fun _ => False) (copyElems faults size (d.dst u k) (d.src u k) n i) t fun r t' =>
      (Faulty faults d.acc (addrs u lim) ∧ r = .error () ∧ ∃ j, Copied d u k lim s t' j) ∨
      (¬ Faulty faults d.acc (addrs u lim) ∧ r = .ok () ∧ Copied d u k lim s t' lim) := by
  induction n generalizing t i with
  | zero => exact .inr ⟨hlim ▸ hclear, rfl, hlim ▸ h⟩
  | succ n ih =>
    have hsize : size * i + size = size * (i + 1) := rfl
    have hrest : size * (i + 1) ≤ lim := hlim ▸ Nat.mul_le_mul_left _ (by omega)
    have hstep : copyElems faults size (d.dst u k) (d.src u k) (n + 1) i = (do
        let c ← loadAt faults size ((d.src u k).add (size * i))
        storeAt faults ((d.dst u k).add (size * i)) c) >>= fun _ =>
          copyElems faults size (d.dst u k) (d.src u k) n (i + 1) := by
      rw [Prog.bind_assoc]
      rfl
    rw [hstep, sat_bind]
    refine (copyElem_spec h hb (hsize ▸ hrest) hlim').mono ?_
    rintro r t' (⟨hf, rfl, h'⟩ | ⟨hf, rfl, h'⟩)
    · refine .inl ⟨?_, rfl, _, h'⟩
      obtain ⟨b, hb, hfb⟩ := hf
      exact ⟨b, addrs_subset (hsize ▸ hrest) hb, hfb⟩
    · refine ih (by rw [← hlim]; congr 1; omega) h' ?_
      rw [← hsize, faulty_addrs_add]
      exact not_or.2 ⟨hclear, hf⟩

theorem memcpy_spec {len : Word} (hb : s.pcbBadfaultfunc = true) :
    Sat (fun _ => False) (memcpy faults (d.dst u k) (d.src u k) len) s fun r t =>
      (Faulty faults d.acc (addrs u len.toNat) ∧ r = .error () ∧ ∃ j, Copied d u k len.toNat s t j) ∨
      (¬ Faulty faults d.acc (addrs u len.toNat) ∧ r = .ok () ∧ Copied d u k len.toNat s t len.toNat) := by
  have hnone (acc : Access) : ¬ Faulty faults acc (addrs u 0) := fun ⟨b, hb, _⟩ => by simp [addrs] at hb
  have hlen : len.toNat ≤ 2 ^ 32 := Nat.le_of_lt len.isLt
  unfold memcpy
  split
  · next hal =>
    have := hal.2.2
    refine copyElems_spec hb ?_ hlen (copied_zero ..) (hnone _)
    unfold sizeofLong at *
    omega
  · exact copyElems_spec hb (by omega) hlen (copied_zero ..) (hnone _)

/-- `pcb_badfaultfunc` is set during the copy only. -/
theorem guarded_spec {α : Type} {K : CopyPanic → Prop} {body : BodyM α}
    {R : Except Unit α → CopyState → Prop} {Q : Except Errno α → CopyState → Prop}
    (h : Sat K body { s with pcbBadfaultfunc := true } R)
    (hok : ∀ a t, R (.ok a) t → Q (.ok a) { t with pcbBadfaultfunc := false })
    (hfault : ∀ t, R (.error ()) t → Q (.error .efault) { t with pcbBadfaultfunc := false }) :
    Sat K (guarded body) s Q := by
  unfold Sat guarded
  unfold Sat at h
  cases hbody : body { s with pcbBadfaultfunc := true } with
  | error p =>
    rw [hbody] at h
    exact h
  | ok rt =>
    rw [hbody] at h
    match rt, h with
    | (.error (), t), h => exact hfault t h
    | (.ok a, t), h => exact hok a t h

structure BlockSpec (faults : Access → Word → Bool) (d : Dir) (u k len : Word) (s : CopyState)
    (r : Except Errno Unit) (t : CopyState) : Prop where
  /-- It succeeds just if the block is in user space and nothing faults. -/
  ok_iff : r = .ok () ↔
    u.toNat + len.toNat ≤ usertop.toNat ∧ ∀ i < len.toNat, faults d.acc (u + BitVec.ofNat 32 i) = false
  efault : r ≠ .ok () → r = .error .efault
  /-- Then it copies the block, and changes nothing else. -/
  copies : r = .ok () → d.srcMem t = d.srcMem s ∧ t.actual = s.actual ∧
    d.dstMem t = storeCells (d.dstMem s) (d.dst u k).addr
      (loadCells (d.srcMem s) (d.src u k).addr len.toNat)
  below : ∀ b ∈ t.touched, b ∈ s.touched ∨ b < usertop
  badfaultfunc : t.pcbBadfaultfunc = false

theorem lt_usertop_of_mem {b : Word} (hn : u.toNat + n ≤ usertop.toNat) (hb : b ∈ addrs u n) : b < usertop := by
  obtain ⟨l, hl, rfl⟩ := mem_addrs.1 hb
  have hut : usertop.toNat = 2 ^ 31 := rfl
  rw [BitVec.lt_def, BitVec.toNat_add, BitVec.toNat_ofNat, Nat.mod_eq_of_lt (a := l) (by omega),
    Nat.mod_eq_of_lt (by omega)]
  omega

theorem not_faulty_iff : ¬ Faulty faults acc (addrs u n) ↔
    ∀ i < n, faults acc (u + BitVec.ofNat 32 i) = false := by
  constructor
  · intro h i hi
    exact Bool.eq_false_iff.2 fun hf => h ⟨_, mem_addrs.2 ⟨i, hi, rfl⟩, hf⟩
  · rintro h ⟨b, hb, hf⟩
    obtain ⟨i, hi, rfl⟩ := mem_addrs.1 hb
    exact Bool.false_ne_true ((h i hi).symm.trans hf)

/-- The common part of `copyin` and `copyout`. -/
theorem copyBlock_spec {len : Word} (hlen : len ≠ 0) (hb : s.pcbBadfaultfunc = false) :
    Sat (fun _ => False) (do
        let stoplen ← Prog.ofExcept (copycheck u len)
        Prog.when (stoplen ≠ len) (Prog.raise .efault)
        guarded (memcpy faults (d.dst u k) (d.src u k) len)) s (BlockSpec faults d u k len s) := by
  have hpos : 0 < len.toNat := Nat.pos_of_ne_zero fun h => hlen (BitVec.eq_of_toNat_eq h)
  have refused (hout : ¬ u.toNat + len.toNat ≤ usertop.toNat) : BlockSpec faults d u k len s (.error .efault) s :=
    ⟨iff_of_false (by simp) fun h => hout h.1, fun _ => rfl, by simp, fun _ => .inl, hb⟩
  simp only [sat_bind, sat_ofExcept]
  obtain ⟨hout, hcheck⟩ | ⟨hu, hwrap, stoplen, hcheck, hstop⟩ := copycheck_cases (u := u) hlen
  · rw [hcheck]
    have hut : usertop.toNat = 2 ^ 31 := rfl
    exact refused (by omega)
  · rw [hcheck]
    simp only [sat_when, sat_raise]
    split
    · next hne =>
      refine refused fun hin => hne (BitVec.eq_of_toNat_eq ?_)
      omega
    · next heq =>
      have hin : u.toNat + len.toNat ≤ usertop.toNat := by
        rw [not_not.1 heq] at hstop
        omega
      have below {t : CopyState} {j : Nat} (hc : Copied d u k len.toNat { s with pcbBadfaultfunc := true } t j) :
          ∀ b ∈ t.touched, b ∈ s.touched ∨ b < usertop :=
        fun b hb => (hc.touched b hb).imp_right (lt_usertop_of_mem hin)
      refine guarded_spec (memcpy_spec rfl) ?_ ?_
      · rintro _ t (⟨-, h, -⟩ | ⟨hf, -, hc⟩)
        · cases h
        · exact ⟨iff_of_true rfl ⟨hin, not_faulty_iff.1 hf⟩, fun h => absurd rfl h,
            fun _ => ⟨(hc.memories rfl rfl).1, hc.actual, (hc.memories rfl rfl).2⟩, below (t := t) hc, rfl⟩
      · rintro t (⟨hf, -, j, hc⟩ | ⟨-, h, -⟩)
        · exact ⟨iff_of_false (by simp) fun h => not_faulty_iff.2 h.2 hf, fun _ => rfl, by simp, below (t := t) hc, rfl⟩
        · cases h

/-! ## Strings -/

def Dir.char (d : Dir) (u k : Word) (s : CopyState) (i : Nat) : Byte :=
  d.srcMem s ((d.src u k).addr + BitVec.ofNat 32 i)

/-- The first `i` bytes can be reached, and none of them is null. -/
def Clear (faults : Access → Word → Bool) (d : Dir) (u k : Word) (s : CopyState) (i : Nat) : Prop :=
  ∀ l < i, d.char u k s l ≠ 0 ∧ faults d.acc (u + BitVec.ofNat 32 l) = false

theorem Clear.succ (h : Clear faults d u k s i) (hc : d.char u k s i ≠ 0)
    (hf : faults d.acc (u + BitVec.ofNat 32 i) = false) : Clear faults d u k s (i + 1) := by
  intro l hl
  by_cases hli : l = i
  · exact hli ▸ ⟨hc, hf⟩
  · exact h l (by omega)

theorem faulty_one :
    Faulty faults acc (addrs (u + BitVec.ofNat 32 i) 1) ↔ faults acc (u + BitVec.ofNat 32 i) = true := by
  simp [Faulty, addrs, loadCells]

theorem reload_spec (h : Copied d u k lim s t (i + 1)) (hi : i < lim)
    (hf : faults d.acc (u + BitVec.ofNat 32 i) = false) :
    Sat (fun _ => False) (loadAt faults 1 ((d.src u k).add i)) t fun r t' =>
      r = .ok [d.char u k s i] ∧ Copied d u k lim s t' (i + 1) := by
  have hone (m : Word → Byte) (a : Word) : loadCells m a 1 = [m a] := by simp [loadCells]
  cases d with
  | inward =>
    have hsrc : t.user = s.user := h.src
    have hno : ¬ ∃ b ∈ addrs (u + BitVec.ofNat 32 i) 1, faults .read b = true :=
      fun hb => Bool.false_ne_true (hf.symm.trans (faulty_one.1 hb))
    simp only [Dir.src, Ptr.add, loadAt, access, sat_bind, sat_modify, sat_get, if_neg hno, sat_pure, hone, hsrc]
    refine ⟨rfl, h.dst, rfl, h.pcbBadfaultfunc, h.actual, fun b hb => ?_⟩
    exact (List.mem_append.1 hb).elim (fun hb => .inr (addrs_subset (by omega) hb)) (h.touched b)
  | outward =>
    have hsrc : t.kern = s.kern := h.src
    simp only [Dir.src, Ptr.add, loadAt, sat_bind, sat_get, sat_pure, hone, hsrc]
    exact ⟨rfl, h⟩

/-- The length is stored if it is wanted. -/
def report (gotlen : Bool) (n : Nat) (t : CopyState) : CopyState :=
  if gotlen then { t with actual := BitVec.ofNat 32 n } else t

variable {gotlen : Bool}

/-- The loop ends at the first fault or null byte, or after all rounds. -/
theorem copystrLoop_spec (hb : s.pcbBadfaultfunc = true) (hlim : i + n = lim)
    (hlim' : lim ≤ 2 ^ 32) (h : Copied d u k lim s t i) (hclear : Clear faults d u k s i) :
    Sat (fun _ => False) (copystrLoop faults (d.dst u k) (d.src u k) gotlen n i) t fun r t' =>
      (r = .error () ∧ (∃ l < lim, Clear faults d u k s l ∧ faults d.acc (u + BitVec.ofNat 32 l) = true) ∧
        ∃ j, Copied d u k lim s t' j) ∨
      (r = .ok true ∧ ∃ l < lim, Clear faults d u k s l ∧ faults d.acc (u + BitVec.ofNat 32 l) = false ∧
        d.char u k s l = 0 ∧ ∃ t₁, Copied d u k lim s t₁ (l + 1) ∧ t' = report gotlen (l + 1) t₁) ∨
      (r = .ok false ∧ Clear faults d u k s lim ∧ Copied d u k lim s t' lim) := by
  induction n generalizing t i with
  | zero => exact .inr (.inr ⟨rfl, hlim ▸ hclear, hlim ▸ h⟩)
  | succ n ih =>
    have hstep : copystrLoop faults (d.dst u k) (d.src u k) gotlen (n + 1) i = (do
        let c ← loadAt faults 1 ((d.src u k).add i)
        storeAt faults ((d.dst u k).add i) c) >>= fun _ => (do
          let c ← loadAt faults 1 ((d.src u k).add i)
          if c = [0] then do
            Prog.when gotlen (Prog.modify fun s => { s with actual := BitVec.ofNat 32 (i + 1) })
            pure true
          else copystrLoop faults (d.dst u k) (d.src u k) gotlen n (i + 1)) := by
      rw [Prog.bind_assoc]
      rfl
    rw [hstep, sat_bind]
    refine (copyElem_spec h hb (n := 1) (by omega) hlim').mono ?_
    rintro r t₁ (⟨hf, rfl, h₁⟩ | ⟨hf, rfl, h₁⟩)
    · exact .inl ⟨rfl, ⟨i, by omega, hclear, faulty_one.1 hf⟩, _, h₁⟩
    · have hnf : faults d.acc (u + BitVec.ofNat 32 i) = false :=
        Bool.eq_false_iff.2 fun hb => hf (faulty_one.2 hb)
      simp only [sat_bind]
      refine (reload_spec h₁ (by omega) hnf).mono ?_
      rintro r t₂ ⟨rfl, h₂⟩
      simp only [sat_ite, sat_bind, sat_when, sat_modify, sat_pure]
      split
      · next hnul =>
        have hchar : d.char u k s i = 0 := List.head_eq_of_cons_eq hnul
        cases gotlen with
        | false | true => exact .inr (.inl ⟨trivial, i, by omega, hclear, hnf, hchar, t₂, h₂, rfl⟩)
      · next hnul =>
        exact ih (by omega) h₂ (hclear.succ (fun hc => hnul (by rw [hc])) hnf)

/-- A null byte at index `i` can be reached. -/
def NulAt (faults : Access → Word → Bool) (d : Dir) (u k len : Word) (s : CopyState) (i : Nat) : Prop :=
  i < len.toNat ∧ u.toNat + i < usertop.toNat ∧ d.char u k s i = 0 ∧
    faults d.acc (u + BitVec.ofNat 32 i) = false ∧ Clear faults d u k s i

/-- At index `i`, and not before, there is a fault or the end of user space. -/
def BadAt (faults : Access → Word → Bool) (d : Dir) (u k len : Word) (s : CopyState) (i : Nat) : Prop :=
  i < len.toNat ∧ Clear faults d u k s i ∧ (u.toNat + i = usertop.toNat ∨
    u.toNat + i < usertop.toNat ∧ faults d.acc (u + BitVec.ofNat 32 i) = true)

/-- All bytes can be reached, and none is null. -/
def NoNul (faults : Access → Word → Bool) (d : Dir) (u k len : Word) (s : CopyState) : Prop :=
  u.toNat + len.toNat ≤ usertop.toNat ∧ Clear faults d u k s len.toNat

structure StrSpec (faults : Access → Word → Bool) (d : Dir) (u k len : Word) (gotlen : Bool)
    (s : CopyState) (r : Except Errno Unit) (t : CopyState) : Prop where
  outside : usertop.toNat ≤ u.toNat ∨ 2 ^ 32 ≤ u.toNat + len.toNat - 1 → r = .error .efault ∧ t = s
  inside : u.toNat < usertop.toNat → u.toNat + len.toNat - 1 < 2 ^ 32 →
    (r = .ok () ↔ ∃ i, NulAt faults d u k len s i) ∧
    (r = .error .efault ↔ ∃ i, BadAt faults d u k len s i) ∧
    (r = .error .enametoolong ↔ NoNul faults d u k len s)
  /-- The bytes up to the null byte are copied and counted, and nothing else is changed. -/
  copies : ∀ i, r = .ok () → NulAt faults d u k len s i → d.srcMem t = d.srcMem s ∧
    d.dstMem t = storeCells (d.dstMem s) (d.dst u k).addr (loadCells (d.srcMem s) (d.src u k).addr (i + 1)) ∧
    t.actual = if gotlen then BitVec.ofNat 32 (i + 1) else s.actual
  copiesAll : r = .error .enametoolong → d.dstMem t =
    storeCells (d.dstMem s) (d.dst u k).addr (loadCells (d.srcMem s) (d.src u k).addr len.toNat)
  below : ∀ b ∈ t.touched, b ∈ s.touched ∨ b < usertop
  badfaultfunc : t.pcbBadfaultfunc = false

section Outcomes

variable {len : Word}

theorem NulAt.unique {i' : Nat} (h : NulAt faults d u k len s i) (h' : NulAt faults d u k len s i') : i = i' := by
  obtain ⟨-, -, hc, -, hclear⟩ := h
  obtain ⟨-, -, hc', -, hclear'⟩ := h'
  by_contra hne
  cases Nat.lt_or_gt_of_ne hne with
  | inl hlt => exact (hclear' i hlt).1 hc
  | inr hlt => exact (hclear i' hlt).1 hc'

theorem NulAt.not_badAt {i' : Nat} (h : NulAt faults d u k len s i) : ¬ BadAt faults d u k len s i' := by
  rintro ⟨-, hclear', hbad⟩
  obtain ⟨-, hlt, hc, hf, hclear⟩ := h
  by_cases hlt' : i < i'
  · exact (hclear' i hlt').1 hc
  obtain hend | ⟨-, hfault⟩ := hbad
  · omega
  · by_cases hii : i' = i
    · exact Bool.false_ne_true (hf.symm.trans (hii ▸ hfault))
    · exact Bool.false_ne_true ((hclear i' (by omega)).2.symm.trans hfault)

theorem NoNul.not_nulAt (h : NoNul faults d u k len s) : ¬ NulAt faults d u k len s i :=
  fun ⟨hi, _, hc, _⟩ => (h.2 i hi).1 hc

theorem NoNul.not_badAt (h : NoNul faults d u k len s) : ¬ BadAt faults d u k len s i := by
  rintro ⟨hi, -, hend | ⟨-, hfault⟩⟩
  · have := h.1
    omega
  · exact Bool.false_ne_true ((h.2 i hi).2.symm.trans hfault)

end Outcomes

theorem copystr_spec {len stoplen : Word} (hb : s.pcbBadfaultfunc = true)
    (hu : u.toNat < usertop.toNat) (hstop : stoplen.toNat = min len.toNat (usertop.toNat - u.toNat)) :
    Sat (fun _ => False) (copystr faults (d.dst u k) (d.src u k) len stoplen gotlen) s fun r t =>
      (r = .error () ∧ (∃ i, BadAt faults d u k len s i) ∧ ∃ j, Copied d u k stoplen.toNat s t j) ∨
      (r = .ok (.ok ()) ∧ ∃ i, NulAt faults d u k len s i ∧
        ∃ t₁, Copied d u k stoplen.toNat s t₁ (i + 1) ∧ t = report gotlen (i + 1) t₁) ∨
      (r = .ok (.error .efault) ∧ (∃ i, BadAt faults d u k len s i) ∧ Copied d u k stoplen.toNat s t stoplen.toNat) ∨
      (r = .ok (.error .enametoolong) ∧ NoNul faults d u k len s ∧ Copied d u k stoplen.toNat s t len.toNat) := by
  have hmin : 0 + min len.toNat stoplen.toNat = stoplen.toNat := by omega
  simp only [copystr, sat_bind]
  refine (copystrLoop_spec hb hmin (Nat.le_of_lt stoplen.isLt) (copied_zero ..) fun j h => by cases h).mono ?_
  rintro r t (⟨rfl, ⟨l, hl, hclear, hf⟩, hc⟩ | ⟨rfl, l, hl, hclear, hf, hchar, ht⟩ | ⟨rfl, hclear, hc⟩)
  · exact .inl ⟨trivial, ⟨l, by omega, hclear, .inr ⟨by omega, hf⟩⟩, hc⟩
  · exact .inr (.inl ⟨rfl, l, ⟨by omega, by omega, hchar, hf, hclear⟩, ht⟩)
  · simp only [Bool.false_eq_true, if_false, sat_ite, sat_pure, BitVec.lt_def]
    split
    · exact .inr (.inr (.inl ⟨trivial, ⟨stoplen.toNat, by omega, hclear, .inl (by omega)⟩, hc⟩))
    · have heq : stoplen.toNat = len.toNat := by omega
      exact .inr (.inr (.inr ⟨trivial, ⟨by omega, heq ▸ hclear⟩, heq ▸ hc⟩))

section Unguarded

variable {b : Bool} {len : Word}

theorem char_guarded : d.char u k { s with pcbBadfaultfunc := b } = d.char u k s := by
  cases d <;> rfl

theorem clear_guarded : Clear faults d u k { s with pcbBadfaultfunc := b } i ↔ Clear faults d u k s i := by
  simp only [Clear, char_guarded]

theorem nulAt_guarded : NulAt faults d u k len { s with pcbBadfaultfunc := b } i ↔ NulAt faults d u k len s i := by
  simp only [NulAt, char_guarded, clear_guarded]

theorem badAt_guarded : BadAt faults d u k len { s with pcbBadfaultfunc := b } i ↔ BadAt faults d u k len s i := by
  simp only [BadAt, clear_guarded]

theorem noNul_guarded : NoNul faults d u k len { s with pcbBadfaultfunc := b } ↔ NoNul faults d u k len s := by
  simp only [NoNul, clear_guarded]

end Unguarded

/-- The common part of `copyinstr` and `copyoutstr`. -/
theorem copyString_spec {len : Word} (hlen : len ≠ 0) (hb : s.pcbBadfaultfunc = false) :
    Sat (fun _ => False) (do
        let stoplen ← Prog.ofExcept (copycheck u len)
        let result ← guarded (copystr faults (d.dst u k) (d.src u k) len stoplen gotlen)
        Prog.ofExcept result) s (StrSpec faults d u k len gotlen s) := by
  simp only [sat_bind, sat_ofExcept]
  obtain ⟨hout, hcheck⟩ | ⟨hu, hwrap, stoplen, hcheck, hstop⟩ := copycheck_cases (u := u) hlen
  · rw [hcheck]
    exact ⟨fun _ => ⟨rfl, rfl⟩, fun hu hw => by omega, by simp, by simp, fun _ => .inl, hb⟩
  · rw [hcheck]
    have hout : ¬ (usertop.toNat ≤ u.toNat ∨ 2 ^ 32 ≤ u.toNat + len.toNat - 1) := by omega
    have below {t : CopyState} {j : Nat} (hc : Copied d u k stoplen.toNat { s with pcbBadfaultfunc := true } t j) :
        ∀ b ∈ t.touched, b ∈ s.touched ∨ b < usertop :=
      fun b hb => (hc.touched b hb).imp_right (lt_usertop_of_mem (by omega))
    have spoiled {t : CopyState} {i : Nat} (hbad : BadAt faults d u k len s i)
        (hbelow : ∀ b ∈ t.touched, b ∈ s.touched ∨ b < usertop) :
        StrSpec faults d u k len gotlen s (.error .efault) { t with pcbBadfaultfunc := false } :=
      ⟨fun h => absurd h hout, fun _ _ => ⟨iff_of_false (by simp) fun h => h.elim fun j hj => hj.not_badAt hbad,
        iff_of_true rfl ⟨i, hbad⟩, iff_of_false (by simp) fun h => h.not_badAt hbad⟩, by simp, by simp, hbelow, rfl⟩
    refine guarded_spec (copystr_spec rfl hu hstop) ?_ ?_
    · rintro r t (⟨h, -⟩ | ⟨h, i, hnul, t₁, hc, rfl⟩ | ⟨h, ⟨i, hbad⟩, hc⟩ | ⟨h, hno, hc⟩)
      · cases h
      · cases h
        rw [nulAt_guarded] at hnul
        refine ⟨fun h => absurd h hout, fun _ _ => ⟨iff_of_true rfl ⟨i, hnul⟩,
          iff_of_false (by simp) fun h => h.elim fun j hj => hnul.not_badAt hj, iff_of_false (by simp) fun h => h.not_nulAt hnul⟩,
          fun j _ hj => ?_, by simp, ?_, rfl⟩
        · obtain rfl := hnul.unique hj
          unfold report
          split
          · exact ⟨(hc.memories rfl rfl).1, (hc.memories rfl rfl).2, rfl⟩
          · exact ⟨(hc.memories rfl rfl).1, (hc.memories rfl rfl).2, hc.actual⟩
        · unfold report
          split
          · exact below (t := t₁) hc
          · exact below (t := t₁) hc
      · cases h
        exact spoiled (badAt_guarded.1 hbad) (below (t := t) hc)
      · cases h
        rw [noNul_guarded] at hno
        exact ⟨fun h => absurd h hout, fun _ _ => ⟨iff_of_false (by simp) fun h => h.elim fun j hj => hno.not_nulAt hj,
          iff_of_false (by simp) fun h => h.elim fun j hj => hno.not_badAt hj, iff_of_true rfl hno⟩, by simp,
          fun _ => (hc.memories rfl rfl).2, below (t := t) hc, rfl⟩
    · rintro t (⟨-, ⟨i, hbad⟩, j, hc⟩ | ⟨h, -⟩ | ⟨h, -⟩ | ⟨h, -⟩)
      · exact spoiled (badAt_guarded.1 hbad) (below (t := t) hc)
      all_goals cases h

/-- The four functions, for every user address and every length but zero. -/
theorem copies_classified (faults : Access → Word → Bool) (u k len : Word) (actual : Bool) (s : CopyState)
    (hlen : len ≠ 0) (hb : s.pcbBadfaultfunc = false) :
    Prog.Sat (fun _ => False) (copyin faults u k len) s (BlockSpec faults .inward u k len s) ∧
    Prog.Sat (fun _ => False) (copyout faults k u len) s (BlockSpec faults .outward u k len s) ∧
    Prog.Sat (fun _ => False) (copyinstr faults u k len actual) s (StrSpec faults .inward u k len actual s) ∧
    Prog.Sat (fun _ => False) (copyoutstr faults k u len actual) s (StrSpec faults .outward u k len actual s) :=
  ⟨copyBlock_spec (d := .inward) hlen hb, copyBlock_spec (d := .outward) hlen hb,
    copyString_spec (d := .inward) hlen hb, copyString_spec (d := .outward) hlen hb⟩

/-- No string ends in user space. -/
def sampleUnended : CopyState where
  user := fun _ => 65
  kern := fun _ => 0
  pcbBadfaultfunc := false
  actual := 0
  touched := []

theorem copies_classified_sampleUnended : BadAt (fun _ _ => false) .inward (usertop - 2) 0 5 sampleUnended 2 ∧
    Prog.Sat (fun _ => False) (copyin (fun _ _ => false) (usertop - 2) 0 5) sampleUnended
      (BlockSpec (fun _ _ => false) .inward (usertop - 2) 0 5 sampleUnended) ∧
    Prog.Sat (fun _ => False) (copyout (fun _ _ => false) 0 (usertop - 2) 5) sampleUnended
      (BlockSpec (fun _ _ => false) .outward (usertop - 2) 0 5 sampleUnended) ∧
    Prog.Sat (fun _ => False) (copyinstr (fun _ _ => false) (usertop - 2) 0 5 true) sampleUnended
      (StrSpec (fun _ _ => false) .inward (usertop - 2) 0 5 true sampleUnended) ∧
    Prog.Sat (fun _ => False) (copyoutstr (fun _ _ => false) 0 (usertop - 2) 5 true) sampleUnended
      (StrSpec (fun _ _ => false) .outward (usertop - 2) 0 5 true sampleUnended) := by
  have hchar : (65 : Byte) ≠ 0 := by decide
  refine ⟨⟨by decide, fun _ _ => ⟨hchar, rfl⟩, .inl (by decide)⟩, ?_⟩
  exact copies_classified (fun _ _ => false) (usertop - 2) 0 5 true sampleUnended (by decide) rfl

end Os161.Copyinout
