import Os161.Dev.Lhd
import Os161.Lib.Crew

/-!
# The disk driver with many threads

`lhd_io` and `lhd_irq` of `kern/dev/lamebus/lhd.c`, with the semaphores that the sequential model
leaves out. A thread that has `lh_clear` uses the registers and the on-card buffer, and waits on
`lh_done` for the interrupt. The device completes each operation that was started once, at any later
time; a failed operation leaves anything in its buffer or its sector. Copying to and from a user may
fail, after part of the data was moved.

The operations are numbered, and the device keeps those that it has not completed in a list, so that
it is a theorem that there is at most one. A thread remembers the operation it started, and the
device the last one it completed; no step of the driver reads this.
-/
namespace Os161.Dev.Shared

open Lib Kern

variable {β : Type}

structure Op where
  number : Nat
  rw : UioRw
  sector : Nat
  deriving DecidableEq, Repr

/-- The result codes of the device. -/
inductive Code where
  | ok | invsect | media
  deriving DecidableEq, Repr

def lhdWorking : Nat := 1
def lhdIswrite : Nat := 2
def lhdStatemask : Nat := 0x1d

def withRw (val : Nat) : UioRw → Nat
  | .read => val
  | .write => val ||| lhdIswrite

def Code.val : Code → Nat
  | .ok => 4
  | .invsect => 12
  | .media => 20

/-- `sect` and `stat` are the registers `LHD_REG_SECT` and `LHD_REG_STAT`. -/
structure Card (β : Type) where
  lhClear : Nat
  lhDone : Nat
  lhResult : Except Errno Unit
  dBlocks : Nat
  sect : Nat
  stat : Nat
  lhBuf : β
  sector : Nat → β
  ops : List Op
  started : Nat
  completed : Op × Code

/-- The part of a transfer that is still to be done. -/
structure Transfer where
  rw : UioRw
  sector : Nat
  left : Nat
  deriving DecidableEq, Repr

inductive LhdPc where
  | start (rw : UioRw) (uioOffset uioResid : Nat)
  /-- at the head of the loop, before `P(lh_clear)` -/
  | loop (t : Transfer)
  /-- before it moves the data of a write to the card -/
  | moveOut (t : Transfer)
  /-- before `V(lh_clear)` after that failed -/
  | moveFailed (e : Errno)
  | writeSect (t : Transfer)
  | writeStat (t : Transfer)
  /-- before `P(lh_done)` -/
  | wait (t : Transfer) (op : Op)
  /-- before it reads `lh_result` -/
  | result (t : Transfer) (op : Op)
  /-- before it moves the data of a read from the card -/
  | moveIn (t : Transfer) (op : Op)
  /-- before `V(lh_clear)` -/
  | clear (t : Transfer) (result : Except Errno Unit)
  | done (result : Except Errno Unit)
  deriving DecidableEq

/-- How a copy ends, when a step makes one: with the data that is in the buffer then. -/
inductive Copy (β : Type) where
  | ok (b : β)
  | failed (e : Errno) (b : β)

def startOp (s : Card β) (rw : UioRw) : Op := ⟨s.started, rw, s.sect⟩

/-- Writing `statval` to `LHD_REG_STAT` starts an operation. -/
def writeStat (s : Card β) (rw : UioRw) : Card β :=
  { s with
    stat := withRw lhdWorking rw
    ops := s.ops ++ [startOp s rw]
    started := s.started + 1 }

def lhdIo (s : Card β) : LhdPc → Copy β → Option (Card β × LhdPc)
  | .start rw uioOffset uioResid, _ =>
    let sector := uioOffset / lhdSectsize
    let len := uioResid / lhdSectsize
    if uioOffset % lhdSectsize ≠ 0 ∨ uioResid % lhdSectsize ≠ 0 then some (s, .done (.error .einval))
    else if s.dBlocks < sector + len then some (s, .done (.error .einval))
    else some (s, .loop ⟨rw, sector, len⟩)
  | .loop t, _ =>
    if t.left = 0 then some (s, .done (.ok ()))
    else if 0 < s.lhClear then
      some ({ s with lhClear := s.lhClear - 1 }, if t.rw = .write then .moveOut t else .writeSect t)
    else none
  | .moveOut t, .ok b => some ({ s with lhBuf := b }, .writeSect t)
  | .moveOut _, .failed e b => some ({ s with lhBuf := b }, .moveFailed e)
  | .moveFailed e, _ => some ({ s with lhClear := s.lhClear + 1 }, .done (.error e))
  | .writeSect t, _ => some ({ s with sect := t.sector }, .writeStat t)
  | .writeStat t, _ => some (writeStat s t.rw, .wait t (startOp s t.rw))
  | .wait t op, _ => if 0 < s.lhDone then some ({ s with lhDone := s.lhDone - 1 }, .result t op) else none
  | .result t op, _ =>
    if s.lhResult = .ok () ∧ t.rw = .read then some (s, .moveIn t op) else some (s, .clear t s.lhResult)
  | .moveIn t _, .ok _ => some (s, .clear t (.ok ()))
  | .moveIn t _, .failed e _ => some (s, .clear t (.error e))
  | .clear t (.ok _), _ =>
    some ({ s with lhClear := s.lhClear + 1 }, .loop { t with sector := t.sector + 1, left := t.left - 1 })
  | .clear _ (.error e), _ => some ({ s with lhClear := s.lhClear + 1 }, .done (.error e))
  | .done _, _ => none

inductive CardEvent (β : Type) where
  /-- the device completes the operation at index `n` of those it has -/
  | complete (n : Nat) (code : Code) (b : β)
  | irq

/-- What an operation does to the buffer and the sectors. -/
def transfer (s : Card β) (op : Op) (code : Code) (b : β) : Card β :=
  match op.rw, code with
  | .read, .ok => { s with lhBuf := s.sector op.sector }
  | .write, .ok => { s with sector := Function.update s.sector op.sector s.lhBuf }
  | .read, _ => { s with lhBuf := b }
  | .write, _ => { s with sector := Function.update s.sector op.sector b }

def complete (s : Card β) (n : Nat) (op : Op) (code : Code) (b : β) : Card β :=
  { transfer s op code b with
    ops := s.ops.eraseIdx n, stat := withRw code.val op.rw, completed := (op, code) }

def lhdIodone (s : Card β) (err : Except Errno Unit) : Card β :=
  { s with lhResult := err, lhDone := s.lhDone + 1 }

def lhdIrq (s : Card β) : Card β :=
  match s.stat &&& lhdStatemask with
  | 4 | 12 | 20 => lhdIodone { s with stat := 0 } (lhdCodeToErrno s.stat)
  | _ => s

def cardEvent (s : Card β) : CardEvent β → Option (Card β)
  | .complete n code b => (s.ops[n]?).map fun op => complete s n op code b
  | .irq => some (lhdIrq s)

def lhdEnter (s : Card β) : LhdPc → Option (Card β)
  | .start _ _ _ => some s
  | _ => none

def cardSys (β : Type) : CrewSys (Card β) LhdPc (Copy β) (CardEvent β) := ⟨lhdIo, cardEvent, lhdEnter⟩

structure Card.Config (s : Card β) : Prop where
  lhClear : s.lhClear = 1
  lhDone : s.lhDone = 0
  stat : s.stat = 0
  ops : s.ops = []

/-! ## The operation of a thread -/

/-- Is the thread between `P(lh_clear)` and `V(lh_clear)`? -/
def LhdPc.holds : LhdPc → Nat
  | .start _ _ _ => 0
  | .loop _ => 0
  | .done _ => 0
  | _ => 1

/-- No operation is outstanding and no completion is waiting. -/
structure Card.Quiet (s : Card β) : Prop where
  ops : s.ops = []
  stat : s.stat = 0
  lhDone : s.lhDone = 0

/-- The operation `op` has been completed, and what it moved is in its place. -/
structure Card.Completed (s : Card β) (op : Op) : Prop where
  last : s.completed.1 = op
  data : s.completed.2 = .ok → s.lhBuf = s.sector op.sector

/-- The device and its interrupt are busy with `op`: it is working on it, or has completed it, or
the interrupt handler has posted the result. -/
inductive Card.Busy (s : Card β) (op : Op) : Prop
  | working (ops : s.ops = [op]) (stat : s.stat = withRw lhdWorking op.rw) (lhDone : s.lhDone = 0)
  | finished (ops : s.ops = []) (stat : s.stat = withRw s.completed.2.val op.rw) (lhDone : s.lhDone = 0)
      (completed : s.Completed op)
  | posted (ops : s.ops = []) (stat : s.stat = 0) (lhDone : s.lhDone = 1)
      (lhResult : s.lhResult = lhdCodeToErrno (withRw s.completed.2.val op.rw)) (completed : s.Completed op)

/-- The result that the thread is about to use is the one of `op`. -/
structure Card.Answers (s : Card β) (t : Transfer) (op : Op) : Prop where
  rw : op.rw = t.rw
  sector : op.sector = t.sector
  lhResult : s.lhResult = lhdCodeToErrno (withRw s.completed.2.val op.rw)
  completed : s.Completed op

/-- What is known at the place of a thread. -/
def Card.At (s : Card β) : LhdPc → Prop
  | .start _ _ _ => True
  | .loop _ => True
  | .done _ => True
  | .moveOut _ => s.Quiet
  | .moveFailed _ => s.Quiet
  | .writeSect _ => s.Quiet
  | .writeStat t => s.Quiet ∧ s.sect = t.sector
  | .wait t op => s.Busy op ∧ op.rw = t.rw ∧ op.sector = t.sector
  | .result t op => s.Quiet ∧ s.Answers t op
  | .moveIn t op => s.Quiet ∧ s.Answers t op ∧ s.lhResult = .ok () ∧ t.rw = .read
  | .clear _ _ => s.Quiet

structure Card.Inv (s : Card β) (n : Nat) : Prop where
  one : s.lhClear + n = 1
  quiet : n = 0 → s.Quiet
  busy : s.Quiet ∨ ∃ op, s.Busy op

variable {code : Code} {rw : UioRw}

section Lemmas

variable {s t : Card β} {op : Op} {k k' : LhdPc} {n r : Nat} {e : CardEvent β} {cp : Copy β}

theorem lhdCodeToErrno_val : lhdCodeToErrno (withRw code.val rw) = .ok () ↔ code = .ok := by
  cases code <;> cases rw <;> decide

theorem lhdIrq_idle (h : s.stat = 0) : lhdIrq s = s := by simp [lhdIrq, h]

theorem lhdIrq_working (h : s.stat = withRw lhdWorking rw) : lhdIrq s = s := by
  cases rw <;> simp [lhdIrq, h, withRw, lhdWorking, lhdIswrite, lhdStatemask]

theorem lhdIrq_finished (h : s.stat = withRw code.val rw) :
    lhdIrq s = lhdIodone { s with stat := 0 } (lhdCodeToErrno (withRw code.val rw)) := by
  cases code <;> cases rw <;> simp [lhdIrq, h, withRw, Code.val, lhdIswrite, lhdStatemask]

/-! ### Steps of the device and its handler -/

/-- A device that is quiet does nothing, and a spurious interrupt does nothing to it. -/
theorem Card.Quiet.event (Q : s.Quiet) (h : cardEvent s e = some t) : t = s := by
  cases e with
  | complete n code b => simp [cardEvent, Q.ops] at h
  | irq =>
    simp only [cardEvent, lhdIrq_idle Q.stat, Option.some.injEq] at h
    exact h.symm

theorem transfer_data (s : Card β) (op : Op) (b : β) :
    (transfer s op .ok b).lhBuf = (transfer s op .ok b).sector op.sector := by
  unfold transfer
  cases op.rw <;> simp

theorem complete_lhDone {b : β} : (complete s n op code b).lhDone = s.lhDone := by
  unfold complete transfer
  cases op.rw <;> cases code <;> rfl

theorem complete_lhClear {b : β} : (complete s n op code b).lhClear = s.lhClear := by
  unfold complete transfer
  cases op.rw <;> cases code <;> rfl

theorem Card.Busy.event (B : s.Busy op) (h : cardEvent s e = some t) : t.Busy op := by
  cases e with
  | complete n code b =>
    cases B with
    | working hops hstat hdone =>
      simp only [cardEvent, hops] at h
      cases n with
      | zero =>
        obtain rfl : complete s 0 op code b = t := by simpa using h
        refine .finished (by simp [complete, hops]) rfl (complete_lhDone.trans hdone) ⟨rfl, ?_⟩
        rintro rfl
        exact transfer_data s op b
      | succ n => simp at h
    | finished hops | posted hops => simp [cardEvent, hops] at h
  | irq =>
    obtain rfl : lhdIrq s = t := by simpa [cardEvent] using h
    cases B with
    | working hops hstat hdone =>
      rw [lhdIrq_working hstat]
      exact .working hops hstat hdone
    | finished hops hstat hdone hc =>
      rw [lhdIrq_finished hstat]
      exact .posted hops rfl (by simp [lhdIodone, hdone]) rfl ⟨hc.last, hc.data⟩
    | posted hops hstat hdone hres hc =>
      rw [lhdIrq_idle hstat]
      exact .posted hops hstat hdone hres hc

theorem cardEvent_lhClear (h : cardEvent s e = some t) : t.lhClear = s.lhClear := by
  cases e with
  | complete n code b =>
    obtain ⟨op, -, rfl⟩ := Option.map_eq_some_iff.1 h
    exact complete_lhClear
  | irq =>
    obtain rfl : lhdIrq s = t := by simpa [cardEvent] using h
    unfold lhdIrq
    split <;> rfl

theorem Card.At.event (A : s.At k) (h : cardEvent s e = some t) : t.At k := by
  cases k with
  | start | loop | done => trivial
  | moveOut | moveFailed | writeSect | clear => exact A.event h ▸ A
  | writeStat | result | moveIn => exact A.1.event h ▸ A
  | wait => exact ⟨A.1.event h, A.2⟩

theorem Card.Inv.event (I : s.Inv n) (h : cardEvent s e = some t) : t.Inv n := by
  refine ⟨cardEvent_lhClear h ▸ I.one, fun hn => (I.quiet hn).event h ▸ I.quiet hn, ?_⟩
  cases I.busy with
  | inl Q => exact .inl (Q.event h ▸ Q)
  | inr B =>
    obtain ⟨op, B⟩ := B
    exact .inr ⟨op, B.event h⟩

/-! ### Steps of a thread -/

theorem Card.At.of_holds (h : k.holds = 0) : s.At k := by
  cases k <;> trivial

/-- A step that changes the card is one of the only thread that holds it. -/
theorem lhdIo_alone (I : s.Inv (k.holds + r)) (h : lhdIo s k cp = some (t, k')) : t = s ∨ r = 0 := by
  have hone := I.one
  cases k with
  | start rw off resid => grind [lhdIo]
  | loop tr =>
    simp only [LhdPc.holds] at hone
    simp only [lhdIo] at h
    grind
  | done => exact nomatch h
  | _ => exact .inr (by simp only [LhdPc.holds] at hone; omega)

theorem Card.Inv.of_quiet (hone : s.lhClear + n = 1) (Q : s.Quiet) : s.Inv n :=
  ⟨hone, fun _ => Q, .inl Q⟩

/-- `P(lh_done)` takes the completion of the operation that the thread started. -/
theorem Card.Busy.posted_of_lhDone (B : s.Busy op) (h : 0 < s.lhDone) :
    ({ s with lhDone := s.lhDone - 1 } : Card β).Quiet ∧
      s.lhResult = lhdCodeToErrno (withRw s.completed.2.val op.rw) ∧ s.Completed op := by
  cases B with
  | working hops hstat hdone | finished hops hstat hdone => omega
  | posted hops hstat hdone hres hc => exact ⟨⟨hops, hstat, by simp [hdone]⟩, hres, hc⟩

theorem Card.Inv.lhdIo (I : s.Inv (k.holds + r)) (A : s.At k) (h : lhdIo s k cp = some (t, k')) :
    t.Inv (k'.holds + r) ∧ t.At k' := by
  have hone := I.one
  cases k with
  | start rw off resid =>
    simp only [Shared.lhdIo] at h
    split at h
    · cases h
      exact ⟨I, trivial⟩
    · split at h
      · cases h
        exact ⟨I, trivial⟩
      · cases h
        exact ⟨I, trivial⟩
  | loop tr =>
    simp only [Shared.lhdIo] at h
    split at h
    · cases h
      exact ⟨I, trivial⟩
    · split at h
      · next hpos =>
        simp only [LhdPc.holds] at hone
        obtain ⟨hops, hstat, hdone⟩ := I.quiet (by simp only [LhdPc.holds]; omega)
        have hholds : (if tr.rw = .write then LhdPc.moveOut tr else .writeSect tr).holds = 1 := by
          split <;> rfl
        cases h
        refine ⟨.of_quiet ?_ ⟨hops, hstat, hdone⟩, ?_⟩
        · simp only [hholds]
          omega
        · split <;> exact ⟨hops, hstat, hdone⟩
      · exact nomatch h
  | moveOut tr =>
    cases cp with
    | ok b | failed e b =>
      cases h
      exact ⟨.of_quiet hone ⟨A.ops, A.stat, A.lhDone⟩, ⟨A.ops, A.stat, A.lhDone⟩⟩
  | moveFailed e =>
    cases h
    simp only [LhdPc.holds] at hone
    exact ⟨.of_quiet (by simp only [LhdPc.holds]; omega) ⟨A.ops, A.stat, A.lhDone⟩, trivial⟩
  | writeSect tr =>
    cases h
    exact ⟨.of_quiet hone ⟨A.ops, A.stat, A.lhDone⟩, ⟨A.ops, A.stat, A.lhDone⟩, rfl⟩
  | writeStat tr =>
    obtain ⟨Q, hsect⟩ := A
    cases h
    have B : (writeStat s tr.rw).Busy (startOp s tr.rw) := .working (by simp [writeStat, Q.ops]) rfl Q.lhDone
    exact ⟨⟨hone, fun hn => by simp only [LhdPc.holds] at hn; omega, .inr ⟨_, B⟩⟩, B, rfl, hsect⟩
  | wait tr op =>
    obtain ⟨B, hrw, hsector⟩ := A
    simp only [Shared.lhdIo] at h
    split at h
    · next hpos =>
      obtain ⟨Q, hres, hc⟩ := B.posted_of_lhDone hpos
      cases h
      exact ⟨.of_quiet hone Q, Q, hrw, hsector, hres, hc.last, hc.data⟩
    · exact nomatch h
  | result tr op =>
    simp only [Shared.lhdIo] at h
    split at h
    · next hres =>
      cases h
      exact ⟨.of_quiet hone A.1, A.1, A.2, hres⟩
    · cases h
      exact ⟨.of_quiet hone A.1, A.1⟩
  | moveIn tr op =>
    cases cp with
    | ok b | failed e b =>
      cases h
      exact ⟨.of_quiet hone A.1, A.1⟩
  | clear tr result =>
    simp only [LhdPc.holds] at hone
    cases result with
    | ok u | error e =>
      cases h
      exact ⟨.of_quiet (by simp only [LhdPc.holds]; omega) ⟨A.ops, A.stat, A.lhDone⟩, trivial⟩
  | done => exact nomatch h

end Lemmas

abbrev Card.Sound (c : Crew (Card β) LhdPc) : Prop := c.Sound LhdPc.holds Card.Inv Card.At

theorem Card.Sound.next {c c' : Crew (Card β) LhdPc} {l : CrewLabel LhdPc (Copy β) (CardEvent β)}
    (S : Card.Sound c) (h : (cardSys β).Step c l c') : Card.Sound c' := by
  cases l with
  | thread i cp =>
    obtain ⟨k, s, k', hk, hact, rfl⟩ := CrewSys.step_thread h
    refine S.thread hk (fun r _ I A => (I.lhdIo A hact).1) (fun r I A => (I.lhdIo A hact).2) ?_
    intro r k₂ r₂ I A hr A₂
    cases lhdIo_alone I hact with
    | inl hs => exact hs ▸ A₂
    | inr h0 => exact .of_holds (by omega)
  | env e =>
    obtain ⟨s, henv, rfl⟩ := CrewSys.step_env h
    exact S.env (S.sum.event henv) fun k r _ A => A.event henv
  | enter k =>
    obtain ⟨s, henter, rfl⟩ := CrewSys.step_enter h
    cases k with
    | start rw off resid =>
      cases henter
      exact S.enter (by simpa [LhdPc.holds] using S.sum) trivial fun _ _ _ A => A
    | _ => exact nomatch henter

theorem Card.Config.sound {s : Card β} (C : s.Config) : Card.Sound ⟨s, []⟩ :=
  ⟨.of_quiet C.lhClear ⟨C.ops, C.stat, C.lhDone⟩, fun _ h => nomatch h⟩

/-- The places where a thread is about to write to the buffer, to `LHD_REG_SECT` or to
`LHD_REG_STAT`. -/
def LhdPc.Writes : LhdPc → Prop
  | .moveOut _ => True
  | .writeSect _ => True
  | .writeStat _ => True
  | _ => False

theorem Card.At.quiet_of_writes {s : Card β} {k : LhdPc} (A : s.At k) (h : k.Writes) : s.Quiet := by
  cases k with
  | moveOut | writeSect => exact A
  | writeStat => exact A.1
  | _ => exact h.elim

theorem Card.Busy.irq_writes {s : Card β} {op : Op} (B : s.Busy op) (h : lhdIrq s ≠ s) : s.ops = [] := by
  cases B with
  | working hops hstat hdone => exact absurd (lhdIrq_working hstat) h
  | finished hops | posted hops => exact hops

/-- The driver starts one operation at a time, writes to the card only when none is outstanding (the
handler included), and hands to each thread the result and the data of its own operation. -/
theorem requests_match {s : Card β} (C : s.Config) {tr : List (CrewLabel LhdPc (Copy β) (CardEvent β))}
    {c : Crew (Card β) LhdPc} (h : Run (cardSys β).Step ⟨s, []⟩ tr c) : c.shared.ops.length ≤ 1 ∧
    (∀ k ∈ c.threads, k.Writes → c.shared.ops = []) ∧
    (lhdIrq c.shared ≠ c.shared → c.shared.ops = []) ∧
    c.shared.lhClear + total LhdPc.holds c.threads = 1 ∧ c.shared.lhDone ≤ 1 ∧
    (0 < c.shared.lhClear → c.shared.lhDone = 0) ∧
    (∀ t op, .wait t op ∈ c.threads → 0 < c.shared.lhDone → c.shared.completed.1 = op) ∧
    (∀ t op, .result t op ∈ c.threads → c.shared.Answers t op) ∧ ∀ t op, .moveIn t op ∈ c.threads →
      c.shared.Answers t op ∧ c.shared.lhBuf = c.shared.sector t.sector := by
  have S : Card.Sound c := h.invariant C.sound Card.Sound.next
  refine ⟨?_, fun k hk hw => ((S.each k hk).quiet_of_writes hw).ops, ?_, S.sum.one, ?_, ?_, ?_, ?_, ?_⟩
  · cases S.sum.busy with
    | inl Q => simp [Q.ops]
    | inr B =>
      obtain ⟨op, B⟩ := B
      cases B with
      | working hops | finished hops | posted hops => simp [hops]
  · intro hirq
    cases S.sum.busy with
    | inl Q => exact Q.ops
    | inr B =>
      obtain ⟨op, B⟩ := B
      exact B.irq_writes hirq
  · cases S.sum.busy with
    | inl Q => simp [Q.lhDone]
    | inr B =>
      obtain ⟨op, B⟩ := B
      cases B with
      | working _ _ hdone | finished _ _ hdone | posted _ _ hdone => simp [hdone]
  · intro hclear
    have hone := S.sum.one
    exact (S.sum.quiet (by omega)).lhDone
  · intro t op hk hdone
    exact ((S.each _ hk).1.posted_of_lhDone hdone).2.2.last
  · intro t op hk
    exact (S.each _ hk).2
  · intro t op hk
    obtain ⟨-, A, hok, -⟩ := S.each _ hk
    exact ⟨A, A.sector ▸ A.completed.data (lhdCodeToErrno_val.1 (A.lhResult ▸ hok))⟩

def sampleCard : Card Nat := ⟨1, 0, .ok (), 8, 0, 0, 0, fun n => 100 + n, [], 0, (⟨0, .read, 0⟩, .ok)⟩

/-- One thread reads sector 1 while another waits to write sector 2. -/
theorem requests_match_sample : ∃ tr c, Run (cardSys Nat).Step ⟨sampleCard, []⟩ tr c ∧
    c.shared.sector 1 = 101 ∧ c.shared.lhBuf = c.shared.sector 1 ∧
    c.shared.lhClear + total LhdPc.holds c.threads = 1 := by
  obtain ⟨tr, c, hrun, hc⟩ := (cardSys Nat).exists_run (fun _ _ => True)
    (fun c => c.shared.sector 1 = 101 ∧ .moveIn ⟨.read, 1, 1⟩ ⟨0, .read, 1⟩ ∈ c.threads) ⟨sampleCard, []⟩
    [.enter (.start .read 512 512), .enter (.start .write 1024 512), .thread 0 (.ok 0), .thread 1 (.ok 0),
      .thread 0 (.ok 0), .thread 0 (.ok 0), .thread 0 (.ok 0), .env .irq, .env (.complete 0 .ok 0), .env .irq,
      .thread 0 (.ok 0), .thread 0 (.ok 0)] (by decide)
  have hrun := hrun.mono And.left
  obtain ⟨-, -, -, hone, -, -, -, -, hmove⟩ := requests_match ⟨rfl, rfl, rfl, rfl⟩ hrun
  exact ⟨tr, c, hrun, hc.1, (hmove _ _ hc.2).2, hone⟩

end Os161.Dev.Shared
