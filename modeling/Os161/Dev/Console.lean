import Mathlib.Algebra.Group.Prod
import Mathlib.Algebra.Order.Group.Multiset
import Os161.Lib.Crew

/-!
# The console

`kern/dev/generic/console.c` on top of `kern/dev/lamebus/lser.c`. Threads call `getch` and `putch`;
the serial device interrupts when a character has come in and when one has been sent. A semaphore is
its count: `P` is a step that waits for the count to be positive. Handlers and code with interrupts
off run without any other thread, so only the device goes on beside them.

The characters are of any type, so that two keystrokes or two calls can be told apart. What has been
received and returned, and what has been passed to `putch` and sent, is recorded; no step reads it.
-/
namespace Os161.Console

open Lib

variable {α : Type}

/-! ## Input -/

inductive GetchPc (α : Type) where
  /-- before `P(cs_rsem)` -/
  | wait
  /-- between `P(cs_rsem)` and reading `cs_gotchar` -/
  | got
  | done (ch : α)
  deriving DecidableEq, Repr

structure Input (α : Type) where
  csRsem : Nat
  csGotchar : α
  received : List α
  returned : List α

/-- `con_input`. The assertion in `V` ends the run when the count overflows. -/
def conInput (s : Input α) (ch : α) : Option (Input α) :=
  if s.csRsem + 1 < 2 ^ 31 then
    some { s with csGotchar := ch, csRsem := s.csRsem + 1, received := s.received ++ [ch] }
  else none

def getchIntr (s : Input α) : GetchPc α → Unit → Option (Input α × GetchPc α)
  | .wait, _ => if 0 < s.csRsem then some ({ s with csRsem := s.csRsem - 1 }, .got) else none
  | .got, _ => some ({ s with returned := s.returned ++ [s.csGotchar] }, .done s.csGotchar)
  | .done _, _ => none

def getchEnter (s : Input α) : GetchPc α → Option (Input α)
  | .wait => some s
  | _ => none

def inputSys (α : Type) : CrewSys (Input α) (GetchPc α) Unit α := ⟨getchIntr, conInput, getchEnter⟩

/-- The console after `config_con`; `cs_gotchar` is whatever is in the memory. -/
def Input.config (ch : α) : Crew (Input α) (GetchPc α) := ⟨⟨0, ch, [], []⟩, []⟩

def GetchPc.between : GetchPc α → Nat
  | .got => 1
  | _ => 0

/-- A character comes in when the one before it has been read. -/
def Prompt (c : Crew (Input α) (GetchPc α)) : CrewLabel (GetchPc α) Unit α → Prop
  | .env _ => c.shared.csRsem = 0 ∧ total GetchPc.between c.threads = 0
  | _ => True

instance (c : Crew (Input α) (GetchPc α)) : (l : CrewLabel (GetchPc α) Unit α) → Decidable (Prompt c l)
  | .env _ => inferInstanceAs (Decidable (_ ∧ _))
  | .thread _ _ => inferInstanceAs (Decidable True)
  | .enter _ => inferInstanceAs (Decidable True)

def PromptStep (c : Crew (Input α) (GetchPc α)) (l : CrewLabel (GetchPc α) Unit α)
    (c' : Crew (Input α) (GetchPc α)) : Prop :=
  (inputSys α).Step c l c' ∧ Prompt c l

/-- At most one character waits to be read, and nothing was returned that comes after it. -/
structure Input.Fresh (s : Input α) (n : Nat) : Prop where
  one : s.csRsem + n ≤ 1
  returned : s.returned.Sublist s.received
  next : s.csRsem + n = 1 → (s.returned ++ [s.csGotchar]).Sublist s.received

theorem Input.Fresh.conInput {s t : Input α} {ch : α} {n : Nat} (F : s.Fresh n) (h0 : s.csRsem = 0)
    (hn : n = 0) (h : conInput s ch = some t) : t.Fresh n := by
  unfold Console.conInput at h
  split at h
  · cases h
    exact ⟨by simp [h0, hn], F.returned.trans (List.sublist_append_left _ _),
      fun _ => F.returned.append (List.Sublist.refl _)⟩
  · exact nomatch h

theorem Input.Fresh.getchIntr {s t : Input α} {k k' : GetchPc α} {r : Nat}
    (h : getchIntr s k () = some (t, k')) (F : s.Fresh (k.between + r)) : t.Fresh (k'.between + r) := by
  cases k with
  | wait =>
    simp only [Console.getchIntr] at h
    split at h
    · next hpos =>
      cases h
      have hone := F.one
      simp only [GetchPc.between] at hone ⊢
      exact ⟨by simp only; omega, F.returned, fun _ => F.next (by simp only [GetchPc.between]; omega)⟩
    · exact nomatch h
  | got =>
    cases h
    have hone := F.one
    simp only [GetchPc.between] at hone ⊢
    exact ⟨by simp only; omega, F.next (by simp only [GetchPc.between]; omega), fun h => by simp only at h; omega⟩
  | done ch => exact nomatch h

abbrev Input.Sound (c : Crew (Input α) (GetchPc α)) : Prop :=
  c.Sound GetchPc.between Input.Fresh fun _ _ => True

theorem Input.Sound.next {c c' : Crew (Input α) (GetchPc α)} {l : CrewLabel (GetchPc α) Unit α}
    (S : Input.Sound c) (h : PromptStep c l c') : Input.Sound c' := by
  obtain ⟨hstep, hprompt⟩ := h
  cases l with
  | thread i _ =>
    obtain ⟨k, s, k', hk, hact, rfl⟩ := CrewSys.step_thread hstep
    exact S.thread hk (fun r _ F _ => F.getchIntr hact) (fun _ _ _ => trivial) fun _ _ _ _ _ _ _ => trivial
  | env ch =>
    obtain ⟨s, henv, rfl⟩ := CrewSys.step_env hstep
    exact S.env (S.sum.conInput hprompt.1 hprompt.2 henv) fun _ _ _ _ => trivial
  | enter k =>
    obtain ⟨s, henter, rfl⟩ := CrewSys.step_enter hstep
    cases k with
    | wait =>
      cases henter
      exact S.enter (by simpa [GetchPc.between] using S.sum) trivial fun _ _ _ _ => trivial
    | got | done ch => exact nomatch henter

theorem Input.Sound.config (ch : α) : Input.Sound (Input.config ch) :=
  ⟨⟨Nat.zero_le 1, List.Sublist.refl _, fun h => nomatch h⟩, fun _ h => nomatch h⟩

/-- What is returned is a part of what is received, in the order in which the calls read it, when
every character has been read before the next one comes in. -/
theorem returned_sublist {ch : α} {tr : List (CrewLabel (GetchPc α) Unit α)}
    {c : Crew (Input α) (GetchPc α)} (h : Run PromptStep (Input.config ch) tr c) :
    c.shared.returned.Sublist c.shared.received :=
  (h.invariant (Input.Sound.config ch) Input.Sound.next).sum.returned

theorem returned_sublist_typed : ∃ tr c, Run PromptStep (Input.config 0) tr c ∧
    c.shared.received = [97, 98] ∧ c.shared.returned = [97, 98] ∧ c.shared.returned.Sublist c.shared.received := by
  obtain ⟨tr, c, hrun, hc⟩ := (inputSys Nat).exists_run Prompt
    (fun c => c.shared.received = [97, 98] ∧ c.shared.returned = [97, 98]) (Input.config 0)
    [.env 97, .enter .wait, .thread 0 (), .thread 0 (), .env 98, .enter .wait, .thread 1 (), .thread 1 ()]
    (by decide)
  exact ⟨tr, c, hrun, hc.1, hc.2, returned_sublist hrun⟩

/-- Two characters that come in before the first `getch` are two counts of the semaphore and one
character: both calls return the second one. -/
theorem getch_repeats : ∃ tr c, Run (inputSys Nat).Step (Input.config 0) tr c ∧
    c.shared.received = [97, 98] ∧ c.shared.returned = [98, 98] ∧ ¬ c.shared.returned.Sublist c.shared.received := by
  obtain ⟨tr, c, hrun, hc⟩ := (inputSys Nat).exists_run (fun _ _ => True)
    (fun c => c.shared.received = [97, 98] ∧ c.shared.returned = [98, 98]) (Input.config 0)
    [.env 97, .env 98, .enter .wait, .thread 0 (), .thread 0 (), .enter .wait, .thread 1 (), .thread 1 ()]
    (by decide)
  refine ⟨tr, c, hrun.mono And.left, hc.1, hc.2, ?_⟩
  rw [hc.1, hc.2]
  intro h
  have h97 : 2 ≤ [97, 98].count 98 := h.count_le 98
  exact absurd h97 (by decide)

/-! ## Output -/

/-- Where a thread is in `putch` with interrupts on. -/
inductive PutchPc (α : Type) where
  /-- before `P(cs_wsem)` -/
  | wait (ch : α)
  /-- between `P(cs_wsem)` and `lser_write` -/
  | got (ch : α)
  | done
  deriving DecidableEq, Repr

/-- Where `lser_writepolled` is. -/
inductive PollPc where
  /-- before the test of `ls_wbusy` -/
  | test
  /-- in the first `lser_spin_until_write` -/
  | spinBusy
  /-- before it clears the ready condition of the character that was on its way -/
  | clearBusy
  | send
  /-- in the second `lser_spin_until_write` -/
  | spinSent
  /-- before the test of `irqpending` -/
  | finish
  deriving DecidableEq, Repr

/-- What runs on the processor: threads with interrupts on, `lser_irq` between its test of the write
interrupt and `con_start`, or a call of `lser_writepolled`. -/
inductive Cpu (α : Type) where
  | threads
  | irq
  | polled (ch : α) (irqpending : Bool) (pc : PollPc)
  deriving DecidableEq, Repr

/-- `busy` and `active` are the device: it is sending a character, and `LSER_IRQ_ACTIVE` is set in
its write interrupt register. `overrun` tells that a character was written while it was sending. -/
structure Output (α : Type) where
  csWsem : Nat
  lsWbusy : Bool
  busy : Bool
  active : Bool
  cpu : Cpu α
  panicked : Bool
  overrun : Bool
  calls : List α
  written : List α

inductive OutputEvent (α : Type) where
  /-- the device has sent its character -/
  | sent
  /-- `lser_irq` is called, and goes on to `con_start` -/
  | irq
  | start
  /-- `putch` is called by a handler or with interrupts off, and goes on -/
  | putchPolled (ch : α)
  | poll
  deriving DecidableEq, Repr

def writeChar (s : Output α) (ch : α) : Output α :=
  { s with busy := true, overrun := s.overrun || s.busy, written := s.written ++ [ch] }

/-- It runs with interrupts off. -/
def lserWrite (s : Output α) (ch : α) : Output α :=
  if s.lsWbusy then { s with panicked := true } else writeChar { s with lsWbusy := true } ch

def lserIrq (s : Output α) : Output α :=
  if s.active then { s with lsWbusy := false, active := false, cpu := .irq } else s

def conStart (s : Output α) : Output α := { s with csWsem := s.csWsem + 1, cpu := .threads }

def lserWritepolled (s : Output α) (ch : α) (irqpending : Bool) : PollPc → Output α
  | .test => if s.lsWbusy then { s with cpu := .polled ch true .spinBusy }
    else { s with cpu := .polled ch irqpending .send }
  | .spinBusy => if s.active then { s with cpu := .polled ch irqpending .clearBusy } else s
  | .clearBusy => { s with active := false, cpu := .polled ch irqpending .send }
  | .send => { writeChar s ch with cpu := .polled ch irqpending .spinSent }
  | .spinSent => if s.active then { s with cpu := .polled ch irqpending .finish } else s
  | .finish => if irqpending then { s with cpu := .threads } else { s with active := false, cpu := .threads }

def putchIntr (s : Output α) : PutchPc α → Unit → Option (Output α × PutchPc α)
  | .wait ch, _ =>
    match s.cpu with
    | .threads => if 0 < s.csWsem then some ({ s with csWsem := s.csWsem - 1 }, .got ch) else none
    | _ => none
  | .got ch, _ =>
    match s.cpu with
    | .threads => some (lserWrite s ch, .done)
    | _ => none
  | .done, _ => none

def putchEnter (s : Output α) : PutchPc α → Option (Output α)
  | .wait ch =>
    match s.cpu with
    | .threads => some { s with calls := s.calls ++ [ch] }
    | _ => none
  | _ => none

def outputEvent (s : Output α) : OutputEvent α → Option (Output α)
  | .sent => if s.busy then some { s with busy := false, active := true } else none
  | .irq =>
    match s.cpu with
    | .threads => some (lserIrq s)
    | _ => none
  | .start =>
    match s.cpu with
    | .irq => some (conStart s)
    | _ => none
  | .putchPolled ch =>
    match s.cpu with
    | .threads => some { s with calls := s.calls ++ [ch], cpu := .polled ch false .test }
    | _ => none
  | .poll =>
    match s.cpu with
    | .polled ch irqpending pc => some (lserWritepolled s ch irqpending pc)
    | _ => none

def outputSys (α : Type) : CrewSys (Output α) (PutchPc α) Unit (OutputEvent α) :=
  ⟨putchIntr, outputEvent, putchEnter⟩

/-- The console after `config_lser` and `config_con`. -/
def Output.config : Crew (Output α) (PutchPc α) :=
  ⟨⟨1, false, false, false, .threads, false, false, [], []⟩, []⟩

def PutchPc.between : PutchPc α → Nat
  | .got _ => 1
  | _ => 0

def PutchPc.unsent : PutchPc α → Multiset α
  | .wait ch => {ch}
  | .got ch => {ch}
  | .done => 0

def Cpu.unsent : Cpu α → Multiset α
  | .polled ch _ .test => {ch}
  | .polled ch _ .spinBusy => {ch}
  | .polled ch _ .clearBusy => {ch}
  | .polled ch _ .send => {ch}
  | _ => 0

/-- The count is on its way from `lser_irq` to the semaphore. -/
def Cpu.starting : Cpu α → Nat
  | .irq => 1
  | _ => 0

/-- What the device is doing, at each place where the processor may be. -/
def Output.Device (s : Output α) : Prop :=
  match s.cpu with
  | .threads => s.lsWbusy = (s.busy || s.active) ∧ ¬ (s.busy ∧ s.active)
  | .irq => s.lsWbusy = false ∧ s.busy = false ∧ s.active = false
  | .polled _ p .test => p = false ∧ s.lsWbusy = (s.busy || s.active) ∧ ¬ (s.busy ∧ s.active)
  | .polled _ p .spinBusy => p = true ∧ s.lsWbusy = true ∧ s.busy = !s.active
  | .polled _ p .clearBusy => p = true ∧ s.lsWbusy = true ∧ s.busy = false ∧ s.active = true
  | .polled _ p .send => p = s.lsWbusy ∧ s.busy = false ∧ s.active = false
  | .polled _ p .spinSent => p = s.lsWbusy ∧ s.busy = !s.active
  | .polled _ p .finish => p = s.lsWbusy ∧ s.busy = false ∧ s.active = true

structure Output.Inv (s : Output α) (n : Nat × Multiset α) : Prop where
  panicked : s.panicked = false
  overrun : s.overrun = false
  one : s.csWsem + s.lsWbusy.toNat + n.1 + s.cpu.starting = 1
  device : s.Device
  once : (s.calls : Multiset α) = s.written + (n.2 + s.cpu.unsent)

section Invariant

variable {s t : Output α} {n : Nat × Multiset α} {ch : α}

@[simp] theorem coe_concat (l : List α) (ch : α) : ((l ++ [ch] : List α) : Multiset α) = l + {ch} := rfl

/-- The processor goes on from `k` to `k'`, and may clear the ready condition. -/
theorem Output.Inv.goto {k k' : Cpu α} {a : Bool} (I : s.Inv n) (h : s.cpu = k)
    (hs : k'.starting = k.starting) (hu : k'.unsent = k.unsent)
    (hd : ({ s with active := a, cpu := k' } : Output α).Device) :
    ({ s with active := a, cpu := k' } : Output α).Inv n :=
  ⟨I.panicked, I.overrun, by simpa [hs, h] using I.one, hd, by simpa [hu, h] using I.once⟩

theorem Output.Inv.sent (I : s.Inv n) (h : s.busy = true) :
    ({ s with busy := false, active := true } : Output α).Inv n := by
  refine ⟨I.panicked, I.overrun, I.one, ?_, I.once⟩
  have hd := I.device
  unfold Output.Device at hd ⊢
  grind

theorem Output.Inv.lserIrq (I : s.Inv n) (h : s.cpu = .threads) : (lserIrq s).Inv n := by
  unfold Console.lserIrq
  split
  · next hact =>
    have hd := I.device
    have hone := I.one
    have honce := I.once
    simp only [Output.Device, h, hact, Bool.or_true, and_true] at hd
    simp only [h, hd.1, Cpu.starting, Bool.toNat_true] at hone
    simp only [h] at honce
    exact ⟨I.panicked, I.overrun, by simp only [Cpu.starting, Bool.toNat_false]; omega,
      ⟨rfl, Bool.eq_false_iff.2 hd.2, rfl⟩, honce⟩
  · exact I

theorem Output.Inv.conStart (I : s.Inv n) (h : s.cpu = .irq) : (conStart s).Inv n := by
  have hd := I.device
  have hone := I.one
  have honce := I.once
  simp only [Output.Device, h, Cpu.starting] at hd hone honce
  exact ⟨I.panicked, I.overrun, by simp only [Console.conStart, Cpu.starting]; omega,
    by simp [Console.conStart, Output.Device, hd], honce⟩

theorem Output.Inv.putchPolled (I : s.Inv n) (h : s.cpu = .threads) :
    ({ s with calls := s.calls ++ [ch], cpu := .polled ch false .test } : Output α).Inv n := by
  have hd := I.device
  have hone := I.one
  have honce := I.once
  simp only [Output.Device, h, Cpu.starting, Cpu.unsent, add_zero] at hd hone honce
  exact ⟨I.panicked, I.overrun, hone, ⟨rfl, hd⟩, by simp [honce, Cpu.unsent, add_assoc]⟩

theorem Output.Inv.lserWritepolled {p : Bool} {pc : PollPc} (I : s.Inv n) (h : s.cpu = .polled ch p pc) :
    (lserWritepolled s ch p pc).Inv n := by
  have hd := I.device
  cases pc with
  | test | finish =>
    simp only [Console.lserWritepolled]
    split
    · exact I.goto h rfl rfl (by grind [Output.Device])
    · exact I.goto h rfl rfl (by grind [Output.Device])
  | spinBusy | spinSent =>
    simp only [Console.lserWritepolled]
    split
    · exact I.goto h rfl rfl (by grind [Output.Device])
    · exact I
  | clearBusy => exact I.goto h rfl rfl (by grind [Output.Device])
  | send =>
    -- the device is idle, and the character goes from what is unsent to what is written
    have honce := I.once
    have hone := I.one
    simp only [Output.Device, h, Cpu.unsent, Cpu.starting] at hd honce hone
    refine ⟨I.panicked, by simp [Console.lserWritepolled, writeChar, I.overrun, hd.2.1], hone, ?_, ?_⟩
    · simp [Console.lserWritepolled, writeChar, Output.Device, hd]
    · simp [Console.lserWritepolled, writeChar, Cpu.unsent, honce, add_assoc, add_comm n.2]

theorem Output.Inv.outputEvent {e : OutputEvent α} (I : s.Inv n) (h : outputEvent s e = some t) : t.Inv n := by
  cases e with
  | sent =>
    simp only [Console.outputEvent] at h
    split at h
    · next hbusy =>
      cases h
      exact I.sent hbusy
    · exact nomatch h
  | irq =>
    simp only [Console.outputEvent] at h
    split at h
    · next hcpu =>
      cases h
      exact I.lserIrq hcpu
    · exact nomatch h
  | start =>
    simp only [Console.outputEvent] at h
    split at h
    · next hcpu =>
      cases h
      exact I.conStart hcpu
    · exact nomatch h
  | putchPolled ch =>
    simp only [Console.outputEvent] at h
    split at h
    · next hcpu =>
      cases h
      exact I.putchPolled hcpu
    · exact nomatch h
  | poll =>
    simp only [Console.outputEvent] at h
    split at h
    · next hcpu =>
      cases h
      exact I.lserWritepolled hcpu
    · exact nomatch h

/-- What a thread holds: whether it is between `P` and `lser_write`, and its character. -/
def PutchPc.held (k : PutchPc α) : Nat × Multiset α := (k.between, k.unsent)

theorem Output.Inv.putchEnter {k : PutchPc α} (I : s.Inv n) (h : putchEnter s k = some t) : t.Inv (k.held + n) := by
  cases k with
  | wait ch =>
    simp only [Console.putchEnter] at h
    split at h
    · next hcpu =>
      cases h
      refine ⟨I.panicked, I.overrun, by simpa [PutchPc.held, PutchPc.between] using I.one, I.device, ?_⟩
      simp [PutchPc.held, PutchPc.unsent, I.once, hcpu, Cpu.unsent, add_assoc, add_comm n.2]
    · exact nomatch h
  | got ch | done => exact nomatch h

/-- Between `P` and `lser_write` the one count is with this thread, so that the device is idle. -/
theorem Output.Inv.putchIntr {k k' : PutchPc α} (I : s.Inv (k.held + n))
    (h : putchIntr s k () = some (t, k')) : t.Inv (k'.held + n) := by
  have hone := I.one
  have honce := I.once
  have hd := I.device
  cases k with
  | wait ch =>
    simp only [Console.putchIntr] at h
    split at h
    · split at h
      · next hpos =>
        cases h
        simp only [PutchPc.held, PutchPc.between, Prod.fst_add] at hone
        refine ⟨I.panicked, I.overrun, ?_, hd, honce⟩
        simp only [PutchPc.held, PutchPc.between, Prod.fst_add]
        omega
      · exact nomatch h
    · exact nomatch h
  | got ch =>
    simp only [Console.putchIntr] at h
    split at h
    · next hcpu =>
      cases h
      simp only [PutchPc.held, PutchPc.between, Prod.fst_add, hcpu, Cpu.starting] at hone
      have hbusy : s.lsWbusy = false := by
        cases hb : s.lsWbusy with
        | false => rfl
        | true =>
          simp only [hb, Bool.toNat_true] at hone
          omega
      simp only [Output.Device, hcpu, hbusy] at hd
      simp only [PutchPc.held, PutchPc.unsent, Prod.snd_add] at honce
      refine ⟨?_, ?_, ?_, ?_, ?_⟩
      · simpa [lserWrite, hbusy, writeChar] using I.panicked
      · grind [lserWrite, writeChar, I.overrun]
      · simp [lserWrite, hbusy, writeChar, PutchPc.held, PutchPc.between, hcpu, Cpu.starting] at hone ⊢
        omega
      · grind [lserWrite, writeChar, Output.Device]
      · simp [lserWrite, hbusy, writeChar, PutchPc.held, PutchPc.unsent, honce, add_assoc]
    · exact nomatch h
  | done => exact nomatch h

abbrev Output.Sound (c : Crew (Output α) (PutchPc α)) : Prop :=
  c.Sound PutchPc.held Output.Inv fun _ _ => True

theorem Output.Sound.next {c c' : Crew (Output α) (PutchPc α)}
    {l : CrewLabel (PutchPc α) Unit (OutputEvent α)} (S : Output.Sound c)
    (h : (outputSys α).Step c l c') : Output.Sound c' := by
  cases l with
  | thread i _ =>
    obtain ⟨k, s, k', hk, hact, rfl⟩ := CrewSys.step_thread h
    exact S.thread hk (fun r _ I _ => I.putchIntr hact) (fun _ _ _ => trivial) fun _ _ _ _ _ _ _ => trivial
  | env e =>
    obtain ⟨s, henv, rfl⟩ := CrewSys.step_env h
    exact S.env (S.sum.outputEvent henv) fun _ _ _ _ => trivial
  | enter k =>
    obtain ⟨s, henter, rfl⟩ := CrewSys.step_enter h
    exact S.enter (S.sum.putchEnter henter) trivial fun _ _ _ _ => trivial

theorem Output.Sound.config : Output.Sound (Output.config (α := α)) :=
  ⟨⟨rfl, rfl, rfl, ⟨rfl, fun h => nomatch h.1⟩, rfl⟩, fun _ h => nomatch h⟩

end Invariant

theorem total_held (threads : List (PutchPc α)) :
    total PutchPc.held threads = (total PutchPc.between threads, total PutchPc.unsent threads) := by
  induction threads with
  | nil => rfl
  | cons k ks ih =>
    simp only [total, List.map_cons, List.sum_cons] at ih ⊢
    simp [ih, PutchPc.held]

/-- The characters passed to `putch` that have not been written yet. -/
def unsent (c : Crew (Output α) (PutchPc α)) : Multiset α :=
  total PutchPc.unsent c.threads + c.shared.cpu.unsent

/-! ## Progress -/

/-- The steps from here to the end of `putch`. -/
def PutchPc.effort : PutchPc α → Nat
  | .wait _ => 2
  | .got _ => 1
  | .done => 0

/-- More than the steps of the device, `lser_irq` and `lser_writepolled` until the semaphore has its
count, when no thread takes it. -/
def Output.effort (s : Output α) : Nat :=
  match s.cpu with
  | .threads => 2 * (s.busy.toNat + s.lsWbusy.toNat)
  | .irq => 1
  | .polled _ _ .test => 14
  | .polled _ _ .spinBusy => 12 + s.busy.toNat
  | .polled _ _ .clearBusy => 11
  | .polled _ _ .send => 10
  | .polled _ _ .spinSent => 8 + s.busy.toNat
  | .polled _ _ .finish => 7

/-- After a thread has written, the device needs up to four steps. -/
def stepsLeft (c : Crew (Output α) (PutchPc α)) : Nat :=
  5 * total PutchPc.effort c.threads + c.shared.effort

section Progress

variable {s : Output α} {n : Nat × Multiset α} {c : Crew (Output α) (PutchPc α)}

/-- While the device is busy or a handler prints, the next step is theirs. -/
theorem Output.Inv.advance (I : s.Inv n) (h : s.effort ≠ 0) :
    ∃ e t, Console.outputEvent s e = some t ∧ t.calls = s.calls ∧ t.effort < s.effort := by
  have hd := I.device
  cases hcpu : s.cpu with
  | threads =>
    cases hb : s.busy with
    | true => exact ⟨.sent, _, if_pos hb, rfl, by simp [Output.effort, hcpu, hb]⟩
    | false =>
      have hact : s.active = true := by grind [Output.effort, Output.Device]
      refine ⟨.irq, Console.lserIrq s, by simp only [Console.outputEvent, hcpu], ?_, ?_⟩
      · simp [Console.lserIrq, hact]
      · simp only [Output.Device, hcpu, hb, hact] at hd
        simp [Console.lserIrq, hact, Output.effort, hcpu, hb, hd]
  | irq =>
    refine ⟨.start, Console.conStart s, by simp only [Console.outputEvent, hcpu], rfl, ?_⟩
    simp only [Output.Device, hcpu] at hd
    simp [Console.conStart, Output.effort, hcpu, hd]
  | polled ch p pc =>
    have step : Console.outputEvent s .poll = some (Console.lserWritepolled s ch p pc) := by
      simp only [Console.outputEvent, hcpu]
    cases pc with
    | spinBusy | spinSent =>
      cases hb : s.busy with
      | true => exact ⟨.sent, _, if_pos hb, rfl, by simp [Output.effort, hcpu, hb]⟩
      | false =>
        simp only [Output.Device, hcpu, hb, Bool.false_eq, Bool.not_eq_false'] at hd
        refine ⟨.poll, _, step, ?_, ?_⟩ <;> simp [Console.lserWritepolled, Output.effort, hcpu, hb, hd]
    | test | clearBusy | send | finish =>
      refine ⟨.poll, _, step, ?_, ?_⟩ <;>
        grind [Console.lserWritepolled, Output.effort, Output.Device, writeChar]

/-- When the device is idle, a thread between `P` and `lser_write` goes on, and if there is none the
semaphore has its count. -/
theorem Output.Inv.resume {k : PutchPc α} (I : s.Inv n) (h : s.effort = 0) (hk : k.effort ≠ 0)
    (hgot : k.between = 0 → n.1 = 0) :
    ∃ t k', Console.putchIntr s k () = some (t, k') ∧ t.calls = s.calls ∧
      5 * k'.effort + t.effort < 5 * k.effort := by
  have hone := I.one
  have hcpu : s.cpu = .threads := by grind [Output.effort]
  simp only [Output.effort, hcpu, Nat.mul_eq_zero, Nat.add_eq_zero_iff, Bool.toNat_eq_zero] at h
  obtain ⟨hbusy, hw⟩ := h.resolve_left (by decide)
  simp only [hcpu, hw, Cpu.starting, Bool.toNat_false] at hone
  cases k with
  | wait ch =>
    have hn := hgot rfl
    have hpos : 0 < s.csWsem := by omega
    refine ⟨{ s with csWsem := s.csWsem - 1 }, .got ch, ?_, rfl, ?_⟩
    · simp [Console.putchIntr, hcpu, hpos]
    · simp [Output.effort, hcpu, hbusy, hw, PutchPc.effort]
  | got ch =>
    refine ⟨lserWrite s ch, .done, ?_, ?_, ?_⟩
    · simp [Console.putchIntr, hcpu]
    · simp [lserWrite, hw, writeChar]
    · simp [lserWrite, hw, writeChar, Output.effort, hcpu, PutchPc.effort]
  | done => exact absurd rfl hk

theorem Output.Sound.advance (S : Output.Sound c) (h : stepsLeft c ≠ 0) :
    ∃ l c', (outputSys α).Step c l c' ∧ c'.shared.calls = c.shared.calls ∧ stepsLeft c' < stepsLeft c := by
  unfold stepsLeft at h ⊢
  by_cases hs : c.shared.effort = 0
  · -- the thread that has the count, if there is one, and else any thread that waits
    obtain ⟨k, hk, hne, hgot⟩ : ∃ k ∈ c.threads, k.effort ≠ 0 ∧
        (k.between = 0 → (total PutchPc.held c.threads).1 = 0) := by
      rw [total_held]
      by_cases hb : total PutchPc.between c.threads = 0
      · obtain ⟨k, hk, hne⟩ := exists_of_total_ne_zero (w := PutchPc.effort)
          (show total _ c.threads ≠ 0 by omega)
        exact ⟨k, hk, hne, fun _ => hb⟩
      · obtain ⟨k, hk, hne⟩ := exists_of_total_ne_zero hb
        refine ⟨k, hk, ?_, fun h0 => absurd h0 hne⟩
        cases k <;> simp_all [PutchPc.between, PutchPc.effort]
    obtain ⟨i, hi⟩ := List.getElem?_of_mem hk
    obtain ⟨t, k', hact, hcalls, hlt⟩ := S.sum.resume hs hne hgot
    refine ⟨.thread i (), ⟨t, c.threads.set i k'⟩, ?_, hcalls, ?_⟩
    · simp [CrewSys.Step, CrewSys.next, hi, outputSys, hact]
    · rw [total_eq_rest hi, total_set hi]
      simp only
      omega
  · obtain ⟨e, t, hev, hcalls, hlt⟩ := S.sum.advance hs
    refine ⟨.env e, ⟨t, c.threads⟩, ?_, hcalls, ?_⟩
    · simp [CrewSys.Step, CrewSys.next, outputSys, hev]
    · simp only
      omega

theorem unsent_of_stepsLeft (h : stepsLeft c = 0) : unsent c = 0 := by
  unfold stepsLeft at h
  have hcpu : c.shared.cpu.unsent = 0 := by
    have : c.shared.effort = 0 := by omega
    unfold Output.effort at this
    unfold Cpu.unsent
    grind
  have hthreads : total PutchPc.unsent c.threads = 0 := by
    by_contra hne
    obtain ⟨k, hk, hk0⟩ := exists_of_total_ne_zero hne
    obtain ⟨r, hr⟩ := exists_total_eq (w := PutchPc.effort) hk
    cases k with
    | wait ch | got ch => simp only [PutchPc.effort] at hr; omega
    | done => exact hk0 rfl
  rw [unsent, hcpu, hthreads, add_zero]

/-- When no new calls are made, some run comes to the end of all calls there are. -/
theorem Output.Sound.drains (S : Output.Sound c) :
    ∃ tr c', Run (outputSys α).Step c tr c' ∧ c'.shared.calls = c.shared.calls ∧
      (c'.shared.written : Multiset α) = c.shared.calls ∧ unsent c' = 0 := by
  obtain ⟨tr, c', hrun, ⟨S', hcalls⟩, hzero⟩ := Run.exists_zero
    (I := fun c' => Output.Sound c' ∧ c'.shared.calls = c.shared.calls) stepsLeft ⟨S, rfl⟩ (by
      intro d hd h
      obtain ⟨l, d', hstep, hcalls, hlt⟩ := hd.1.advance h
      exact ⟨l, d', hstep, ⟨hd.1.next hstep, hcalls.trans hd.2⟩, hlt⟩)
  have hu := unsent_of_stepsLeft hzero
  have honce := S'.sum.once
  simp only [total_held] at honce
  rw [show total PutchPc.unsent c'.threads + c'.shared.cpu.unsent = 0 from hu, add_zero, hcalls] at honce
  exact ⟨tr, c', hrun, hcalls, honce.symm, hu⟩

end Progress

/-- In every run: no panic, no overrun, every character is either written or still to be written,
and the count is in one place. When no further calls are made, some run writes all of them. -/
theorem putch_protocol {tr : List (CrewLabel (PutchPc α) Unit (OutputEvent α))}
    {c : Crew (Output α) (PutchPc α)} (h : Run (outputSys α).Step Output.config tr c) :
    c.shared.panicked = false ∧ c.shared.overrun = false ∧ (c.shared.calls : Multiset α) = c.shared.written + unsent c ∧
    (c.shared.cpu ≠ .irq → c.shared.csWsem + c.shared.lsWbusy.toNat + total PutchPc.between c.threads = 1) ∧
    ∃ tr' c', Run (outputSys α).Step c tr' c' ∧ c'.shared.calls = c.shared.calls ∧
      (c'.shared.written : Multiset α) = c.shared.calls ∧ unsent c' = 0 := by
  have S := h.invariant Output.Sound.config Output.Sound.next
  have I := S.sum
  simp only [total_held] at I
  refine ⟨I.panicked, I.overrun, I.once, fun hcpu => ?_, S.drains⟩
  have hone := I.one
  cases hc : c.shared.cpu with
  | irq => exact absurd hc hcpu
  | threads | polled ch p pc => simpa [hc, Cpu.starting] using hone

/-- A thread writes a character, a handler prints another one while the first is on its way, and a
second thread goes on after the interrupt. -/
theorem putch_protocol_sample : ∃ tr c, Run (outputSys Nat).Step Output.config tr c ∧
    c.shared.written = [97, 98, 99] ∧ c.shared.overrun = false ∧
    c.shared.csWsem + c.shared.lsWbusy.toNat + total PutchPc.between c.threads = 1 := by
  obtain ⟨tr, c, hrun, hc⟩ := (outputSys Nat).exists_run (fun _ _ => True)
    (fun c => c.shared.written = [97, 98, 99] ∧ c.shared.cpu ≠ .irq) Output.config
    [.enter (.wait 97), .enter (.wait 99), .thread 0 (), .thread 0 (), .env (.putchPolled 98), .env .poll,
      .env .poll, .env .sent, .env .poll, .env .poll, .env .poll, .env .sent, .env .poll, .env .poll,
      .env .irq, .env .start, .thread 1 (), .thread 1 ()] (by decide)
  have hrun := hrun.mono And.left
  have hput := putch_protocol hrun
  exact ⟨tr, c, hrun, hc.1, hput.2.1, hput.2.2.2.1 hc.2⟩

end Os161.Console
