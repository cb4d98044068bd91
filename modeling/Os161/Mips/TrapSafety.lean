import Os161.Lib.Stack
import Os161.Mips.Trap

/-!
# Interrupt state belongs to threads

`curspl` and `in_interrupt` are single variables, but each thread finds them as it left them. Every
frame of a stack says what they are while it runs and what they are when it returns. A thread that
gives up the processor does so in `mi_switch`, at `SPL_HIGH` and with `in_interrupt` in its pcb, so
that its stack stays sound whatever other threads do.
-/
namespace Os161.Mips

open Lib

variable {A : Type}

/-! ## What frames rely on -/

/-- The interrupt enable flag is as `curspl` says. -/
def Ctx.Steady (c : Ctx) : Prop := c.iec = decide (c.curspl = .spl0)

def Ctx.Off (c : Ctx) : Prop := c.curspl = .splHigh ∧ c.iec = false

namespace Frame

/-- `in_interrupt` while the frame runs. -/
def inHandler (f : Frame A) : Nat :=
  match f.fn with
  | .mipsInterrupt _ => 1
  | _ => f.entry.inInterrupt

/-- In `thread_exit` other code runs at `loop`, and nothing returns to `done`. -/
def CallLevel (f : Frame A) (call : Call A) (pc : Pc) (c : Ctx) : Prop :=
  match pc with
  | .start => c.curspl = f.entry.curspl ∧ c.Steady
  | .saving => c.Off
  | .body => f.spl = f.entry.curspl ∧ c.Off
  | .loop => match call with
    | .threadExit => c.Steady
    | _ => f.spl = f.entry.curspl ∧ c.Off
  | .leave => f.spl = f.entry.curspl ∧ c.Off
  | .done => match call with
    | .threadExit => c.Steady
    | _ => c.curspl = f.entry.curspl ∧ c.Steady
  | _ => False

/-- What the level is while the frame runs. -/
def Level (f : Frame A) (c : Ctx) : Prop :=
  match f.fn, f.pc with
  | .code, .start => c.Steady
  | .user, .start => c.curspl = .spl0 ∧ c.iec = true
  | .miThreadstart, .start => c.Off
  | .miThreadstart, .body => c.Steady
  | .miThreadstart, .done => c.Steady
  | .splx _, .start => c.curspl = f.entry.curspl ∧ c.Steady
  | .splx newspl, .set => c.curspl = f.entry.curspl ∧ c.iec = decide (newspl = .spl0)
  | .call call, pc => f.CallLevel call pc c
  | .miSwitch _, .start => c.curspl = f.entry.curspl ∧ c.Steady
  | .miSwitch _, .sched => f.entry.curspl = .splHigh ∧ c.Off
  | .miSwitch _, .idle => f.entry.curspl = .splHigh ∧ c.curspl = .splHigh ∧ c.iec = true
  | .miSwitch _, .done => f.entry.curspl = .splHigh ∧ c.Off
  | .mipsTrap _ savespl _, .start => savespl = f.entry.curspl ∧ c.Off
  | .mipsTrap _ savespl _, .body => savespl = f.entry.curspl ∧ c.Steady
  | .mipsTrap _ savespl _, .done => savespl = f.entry.curspl ∧ c.Steady
  | .mipsTrap _ savespl _, .restore => savespl = f.entry.curspl ∧ c.Off
  | .mipsInterrupt oldIn, .start => oldIn = f.entry.inInterrupt ∧ c.Off
  | .mipsInterrupt oldIn, .done => oldIn = f.entry.inInterrupt ∧ c.Steady
  | _, _ => False

/-- What the level is when the function returns. -/
def Returns (f : Frame A) (c : Ctx) : Prop :=
  match f.fn with
  | .code => c.Steady
  | .user => False
  | .miThreadstart => False
  | .splx newspl => c.curspl = newspl ∧ c.Steady
  | .call _ => c.curspl = f.entry.curspl ∧ c.Steady
  | .miSwitch _ => c.curspl = f.entry.curspl ∧ c.Steady
  | .mipsTrap _ savespl iep => c.curspl = savespl ∧ c.iec = iep
  | .mipsInterrupt _ => c.Steady

end Frame

/-- A frame that is `saving` waits for the result of `splhigh`, which is the level it was called
with. -/
def disc : Discipline (Frame A) Ctx where
  Runs f c := c.inInterrupt = f.inHandler ∧ f.Level c
  Leaves f c := c.inInterrupt = f.entry.inInterrupt ∧ f.Returns c
  Calls f g := g.entry.inInterrupt = f.inHandler ∧
    (f.pc = .saving → g.fn = .splx .splHigh ∧ g.entry.curspl = f.entry.curspl)
  Bottom f := f.entry.inInterrupt = 0
  Empty c := c.inInterrupt = 0

structure Inv (s : Cpu A) : Prop where
  curthread : ∀ c, s.curthread = some c → c = s.onCpu
  running : disc.Sound s.toCtx (s.stack s.onCpu)
  parked : ∀ t, t ≠ s.onCpu → disc.Sound ⟨.splHigh, false, s.pcb t⟩ (s.stack t)
  blocked : s.panicked = some .mayNotBlock → s.inInterrupt ≠ 0

/-! ## Interrupt handlers -/

theorem inHandler_cons {f : Frame A} {rest : List (Frame A)} :
    InHandler (f :: rest) ↔ f.fn.IsInterrupt ∨ InHandler rest := by
  simp [InHandler]

theorem inHandler_of_isInterrupt {f : Frame A} (h : f.fn.IsInterrupt) : f.inHandler = 1 := by
  obtain ⟨fn, pc, spl, entry⟩ := f
  cases fn <;> first | rfl | exact h.elim

theorem inHandler_of_not {f : Frame A} (h : ¬f.fn.IsInterrupt) : f.inHandler = f.entry.inInterrupt := by
  obtain ⟨fn, pc, spl, entry⟩ := f
  cases fn <;> first | rfl | exact absurd trivial h

/-- The value that the running frame finds is right for the whole stack. -/
theorem Linked.inHandler_iff {f : Frame A} {rest : List (Frame A)} (h : disc.Linked (f :: rest)) :
    f.inHandler ≠ 0 ↔ InHandler (f :: rest) := by
  induction rest generalizing f with
  | nil =>
    by_cases hf : f.fn.IsInterrupt
    · simp [inHandler_of_isInterrupt hf, inHandler_cons, hf]
    · have hbottom : f.entry.inInterrupt = 0 := h.1.1
      simp [inHandler_of_not hf, hbottom, InHandler, hf]
  | cons r rest ih =>
    by_cases hf : f.fn.IsInterrupt
    · simp [inHandler_of_isInterrupt hf, inHandler_cons, hf]
    · have hentry : f.entry.inInterrupt = r.inHandler := h.1.1.1
      rw [inHandler_of_not hf, hentry, ih h.2, inHandler_cons (f := f)]
      exact (or_iff_right hf).symm

theorem Sound.inInterrupt_iff {c : Ctx} {st : List (Frame A)} (h : disc.Sound c st) :
    c.inInterrupt ≠ 0 ↔ InHandler st := by
  cases st with
  | nil =>
    have hzero : c.inInterrupt = 0 := h
    simp [hzero, InHandler]
  | cons f rest =>
    rw [h.1.1]
    exact Linked.inHandler_iff h.2

/-! ## Steps of the running thread -/

theorem Frame.stays {f : Frame A} {pc : Pc} {spl : Spl} : disc.Stays f { f with pc := pc, spl := spl } :=
  ⟨fun _ h => h, fun _ h => h, fun h => h⟩

section

variable {s s' t : Cpu A} {pc : Pc} {spl : Spl} {entry : Ctx} {rest : List (Frame A)} {fn : Fn A}
  {f : Frame A}

def Fn.Callable : Fn A → Prop
  | .code => True
  | .splx _ => True
  | .call _ => True
  | .miSwitch _ => True
  | _ => False

theorem Frame.runs_start (hfn : fn.Callable) {c : Ctx} (hc : c.Steady) :
    disc.Runs (⟨fn, .start, .spl0, c⟩ : Frame A) c := by
  cases fn with
  | code => exact ⟨rfl, hc⟩
  | splx | call | miSwitch => exact ⟨rfl, rfl, hc⟩
  | _ => exact hfn.elim

/-- The threads are as before but for the stack of the running one. -/
structure SameThreads (s s' : Cpu A) : Prop where
  onCpu : s'.onCpu = s.onCpu
  stack : s'.stack = s.stack
  pcb : s'.pcb = s.pcb
  panicked : s'.panicked = s.panicked
  curthread : ∀ c, s'.curthread = some c → s.curthread = some c

theorem Inv.setStack {st : List (Frame A)} (h : Inv s) (hnone : s.panicked = none) (hsame : SameThreads s s')
    (hst : disc.Sound s'.toCtx st) : Inv (s'.setStack st) where
  curthread := fun c hc => (h.curthread c (hsame.curthread c hc)).trans hsame.onCpu.symm
  running := by
    simpa [Cpu.setStack] using hst
  parked := by
    intro t ht
    have ht : t ≠ s'.onCpu := ht
    simp only [Cpu.setStack, Function.update_of_ne ht, hsame.stack, hsame.pcb]
    exact h.parked t (hsame.onCpu ▸ ht)
  blocked := by
    intro hp
    simp [Cpu.setStack, hsame.panicked, hnone] at hp

theorem Inv.panic {p : TrapPanic} (h : Inv s) (hp : p = .mayNotBlock → s.inInterrupt ≠ 0) : Inv (s.panic p) :=
  ⟨h.curthread, h.running, h.parked, fun hpanic => hp (Option.some.inj hpanic)⟩

/-- The processor runs the frame `f`. -/
structure Running (s : Cpu A) (f : Frame A) (rest : List (Frame A)) : Prop extends Inv s where
  alive : s.panicked = none
  top : s.stack s.onCpu = f :: rest

section

variable (h : Running s f rest)
include h

theorem Running.sound : disc.Sound s.toCtx (f :: rest) := h.top ▸ h.running

/-- The frame `f` goes on as `f'` once the function has returned. -/
theorem Running.enter {f' : Frame A} (hsame : SameThreads s s') (hctx : s'.toCtx = s.toCtx) (hstays : disc.Stays f f')
    (hin : f'.inHandler = f.inHandler) (hfn : fn.Callable) (hsteady : s.toCtx.Steady)
    (hret : ∀ c, disc.Leaves (⟨fn, .start, .spl0, s.toCtx⟩ : Frame A) c → disc.Runs f' c)
    (hsaving : f'.pc = .saving → fn = .splx .splHigh ∧ s.curspl = f'.entry.curspl) : Inv (s'.enter fn f' rest) := by
  refine h.setStack h.alive hsame ?_
  rw [hctx]
  exact h.sound.call hstays ⟨hin ▸ h.sound.runs.1, hsaving⟩ hret (Frame.runs_start hfn hsteady)

/-- The running frame calls a function, and goes on at `pc` once it has returned. -/
theorem Running.calls (hfn : fn.Callable) (hsteady : s.toCtx.Steady) (hpc : pc ≠ .saving)
    (hret : ∀ c, disc.Leaves (⟨fn, .start, .spl0, s.toCtx⟩ : Frame A) c → Frame.Level { f with pc := pc } c) :
    Inv (s.enter fn { f with pc := pc } rest) := by
  refine h.enter ⟨rfl, rfl, rfl, rfl, fun _ hc => hc⟩ rfl Frame.stays rfl hfn hsteady ?_ fun hs => absurd hs hpc
  exact fun c hc => ⟨hc.1.trans h.sound.runs.1, hret c hc⟩

theorem Running.goesOn
    (hsame : SameThreads s s') (hin : s'.inInterrupt = s.inInterrupt) (hlevel : Frame.Level { f with pc := pc } s'.toCtx) :
    Inv (s'.setStack ({ f with pc := pc } :: rest)) :=
  h.setStack h.alive hsame (h.sound.goOn Frame.stays ⟨hin.trans h.sound.runs.1, hlevel⟩)

theorem Running.returns (hsame : SameThreads s s') (hleaves : disc.Leaves f s'.toCtx) :
    Inv (s'.setStack rest) := h.setStack h.alive hsame (h.sound.ret hleaves)

end

theorem Running.goSplx {newspl : Spl} (h : Running s ⟨.splx newspl, pc, spl, entry⟩ rest)
    (hgo : goSplx s ⟨.splx newspl, pc, spl, entry⟩ rest newspl = some t) : Inv t := by
  have hsound := h.sound
  have hruns := hsound.runs
  cases pc with
  | start =>
    cases hgo
    exact h.goesOn ⟨rfl, rfl, rfl, rfl, fun _ hc => hc⟩ rfl ⟨hruns.2.1, rfl⟩
  | set =>
    cases hgo
    refine h.setStack h.alive ⟨rfl, rfl, rfl, rfl, fun _ hc => hc⟩ ?_
    have hleaves : disc.Leaves (⟨.splx newspl, .set, spl, entry⟩ : Frame A) (s.setCurspl newspl).toCtx :=
      ⟨hruns.1, rfl, hruns.2.2⟩
    have hret := hsound.ret hleaves
    cases rest with
    | nil => exact hret
    | cons f rest =>
      by_cases hsaving : f.pc = .saving
      · obtain ⟨hsplx, hentry⟩ := hsound.2.1.1.2 hsaving
        cases hsplx
        obtain ⟨fn, _, spl', entry'⟩ := f
        cases hsaving
        refine hret.goOn Frame.stays ⟨hret.runs.1, ?_⟩
        cases fn with
        | call c => exact ⟨hruns.2.1.trans hentry, hret.runs.2⟩
        | _ => exact hret.runs.2.elim
      · simpa only [resumeTop, Frame.resume, if_neg hsaving] using hret
  | _ => exact nomatch hgo

theorem Ctx.Off.steady {c : Ctx} (h : c.Off) : c.Steady := by
  simp [Ctx.Steady, h.1, h.2]

theorem Ctx.Off.of_steady {c c' : Ctx} (h : c.Off) (hspl : c'.curspl = c.curspl) (hsteady : c'.Steady) : c'.Off := by
  have hhigh : c'.curspl = .splHigh := hspl.trans h.1
  refine ⟨hhigh, ?_⟩
  simpa [Ctx.Steady, hhigh] using hsteady

section Calls

variable {c : Call A}

theorem Inv.newThread {u : Nat} (h : Inv s) (hne : u ≠ s.onCpu) : Inv (s.newThread u) where
  curthread := h.curthread
  running := by
    simpa only [Cpu.newThread, Function.update_of_ne hne.symm] using h.running
  parked := by
    intro t ht
    by_cases htu : t = u
    · subst htu
      simp only [Cpu.newThread, Function.update_self]
      exact ⟨⟨rfl, rfl, rfl⟩, ⟨rfl, fun _ hc => hc.2.elim⟩, trivial⟩
    · simpa only [Cpu.newThread, Function.update_of_ne htu] using h.parked t ht
  blocked := h.blocked

theorem Running.callStart (h : Running s ⟨.call c, .start, spl, entry⟩ rest) :
    Inv (callStart s ⟨.call c, .start, spl, entry⟩ rest c) := by
  obtain ⟨hin, hspl, hsteady⟩ := h.sound.runs
  -- `splhigh` comes back at `SPL_HIGH`
  have hsplhigh : Inv (s.enter (.splx .splHigh) ⟨.call c, .saving, spl, entry⟩ rest) := by
    refine h.enter ⟨rfl, rfl, rfl, rfl, fun _ hc => hc⟩ rfl Frame.stays rfl trivial hsteady ?_ fun _ => ⟨rfl, hspl⟩
    intro c' hc'
    refine ⟨hc'.1.trans hin, hc'.2.1, ?_⟩
    simpa [Ctx.Steady, hc'.2.1] using hc'.2.2
  cases c with
  | threadSleep addr =>
    simp only [Mips.callStart]
    split
    · next hblock => exact h.panic fun _ => hblock
    · split
      · exact h.panic nofun
      · refine h.enter ⟨rfl, rfl, rfl, rfl, fun _ hc => hc⟩ rfl Frame.stays rfl trivial hsteady ?_ nofun
        intro c' hc'
        exact ⟨hc'.1.trans hin, hc'.2.1.trans hspl, hc'.2.2⟩
  | p sem =>
    simp only [Mips.callStart]
    split
    · next hblock => exact h.panic fun _ => hblock
    · exact hsplhigh
  | _ => exact hsplhigh

theorem Running.callBody [DecidableEq A] (h : Running s ⟨.call c, .body, spl, entry⟩ rest)
    (hgo : callBody s ⟨.call c, .body, spl, entry⟩ rest c = some t) : Inv t := by
  have hsound := h.sound
  obtain ⟨hin, hspl, hoff⟩ := hsound.runs
  have hleave {s' : Cpu A} (hsame : SameThreads s s') (hctx : s'.toCtx = s.toCtx) :
      Inv (s'.setStack (⟨.call c, .leave, spl, entry⟩ :: rest)) :=
    h.goesOn hsame (congrArg Ctx.inInterrupt hctx) ⟨hspl, hctx ▸ hoff⟩
  cases c with
  | threadYield =>
    cases hgo
    exact h.calls trivial hoff.steady nofun fun c' hc' => ⟨hspl, hoff.of_steady hc'.2.1 hc'.2.2⟩
  | threadSleep addr => exact nomatch hgo
  | p sem =>
    simp only [Mips.callBody] at hgo
    split at hgo
    · cases hgo
      exact h.calls trivial hoff.steady nofun fun c' hc' => ⟨hspl, hoff.of_steady hc'.2.1 hc'.2.2⟩
    · cases hgo
      exact hleave ⟨rfl, rfl, rfl, rfl, fun _ hc => hc⟩ rfl
  | v sem | lockRelease lock =>
    simp only [Mips.callBody] at hgo
    split at hgo
    · cases hgo
      exact h.panic nofun
    · cases hgo
      exact hleave ⟨rfl, rfl, rfl, rfl, fun _ hc => hc⟩ rfl
  | lockAcquire lock =>
    simp only [Mips.callBody] at hgo
    split at hgo
    · cases hgo
      exact h.panic nofun
    · cases hgo
      exact h.goesOn ⟨rfl, rfl, rfl, rfl, fun _ hc => hc⟩ rfl ⟨hspl, hoff⟩
  | threadFork u =>
    simp only [Mips.callBody] at hgo
    split at hgo
    · cases hgo
      exact hleave ⟨rfl, rfl, rfl, rfl, fun _ hc => hc⟩ rfl
    · next hfree =>
      cases hgo
      have hne : u ≠ s.onCpu := fun heq => hfree (.inl heq)
      exact (h.newThread hne).setStack h.alive ⟨rfl, rfl, rfl, rfl, fun _ hc => hc⟩ (hsound.goOn Frame.stays ⟨hin, hspl, hoff⟩)
  | threadExit =>
    cases hgo
    exact h.calls trivial hoff.steady nofun fun c' hc' => hc'.2

theorem Running.callLoop [DecidableEq A] (h : Running s ⟨.call c, .loop, spl, entry⟩ rest)
    (hgo : callLoop s ⟨.call c, .loop, spl, entry⟩ rest c = some t) : Inv t := by
  obtain ⟨-, hlevel⟩ := h.sound.runs
  cases c with
  | lockAcquire lock =>
    obtain ⟨hspl, hoff⟩ := hlevel
    simp only [Mips.callLoop] at hgo
    split at hgo
    · cases hgo
      exact h.calls trivial hoff.steady nofun fun c' hc' => ⟨hspl, hoff.of_steady hc'.2.1 hc'.2.2⟩
    · cases hgo
      exact h.goesOn ⟨rfl, rfl, rfl, rfl, fun _ hc => hc⟩ rfl ⟨hspl, hoff⟩
  | threadExit =>
    cases hgo
    exact h.calls trivial hlevel nofun fun c' hc' => hc'.2.2
  | _ => exact nomatch hgo

theorem Running.callDone (h : Running s ⟨.call c, .done, spl, entry⟩ rest) : Inv (callDone s rest c) := by
  obtain ⟨hin, hlevel⟩ := h.sound.runs
  cases c with
  | threadExit => exact h.panic nofun
  | threadSleep addr =>
    simp only [Mips.callDone]
    split
    · exact h.panic nofun
    · exact h.returns ⟨rfl, rfl, rfl, rfl, fun _ hc => hc⟩ ⟨hin, hlevel⟩
  | _ => exact h.returns ⟨rfl, rfl, rfl, rfl, fun _ hc => hc⟩ ⟨hin, hlevel⟩

theorem Running.goCall [DecidableEq A] (h : Running s ⟨.call c, pc, spl, entry⟩ rest)
    (hgo : goCall s ⟨.call c, pc, spl, entry⟩ rest c = some t) : Inv t := by
  cases pc with
  | start =>
    cases hgo
    exact h.callStart
  | body => exact h.callBody hgo
  | loop => exact h.callLoop hgo
  | leave =>
    cases hgo
    obtain ⟨-, hspl, hoff⟩ := h.sound.runs
    refine h.calls trivial hoff.steady nofun ?_
    intro c' hc'
    cases c with
    | threadExit => exact hc'.2.2
    | _ => exact ⟨hc'.2.1.trans hspl, hc'.2.2⟩
  | done =>
    cases hgo
    exact h.callDone
  | _ => exact nomatch hgo

end Calls

/-! ## Context switches -/

/-- The thread that leaves has the level and the value of `in_interrupt` that it will find again. -/
theorem Inv.mdSwitch {next : Nat} (h : Inv s) (hnone : s.panicked = none) (hoff : s.toCtx.Off) :
    Inv ({ s with curthread := some next }.mdSwitch next) := by
  simp only [Cpu.mdSwitch]
  split
  · next heq => exact ⟨fun _ hc => (Option.some.inj hc).symm.trans heq, h.running, h.parked, h.blocked⟩
  · next hne =>
    obtain ⟨hspl, hiec⟩ := hoff
    refine ⟨fun _ hc => (Option.some.inj hc).symm, ?_, ?_, fun hp => nomatch hnone.symm.trans hp⟩
    · have hnext := h.parked next hne
      rwa [← hspl, ← hiec] at hnext
    · intro t ht
      by_cases hold : t = s.onCpu
      · subst hold
        simp only [Function.update_self, ← hspl, ← hiec]
        exact h.running
      · simp only [Function.update_of_ne hold]
        exact h.parked t hold

theorem Running.goMiSwitch {nextstate : ThreadState} (h : Running s ⟨.miSwitch nextstate, pc, spl, entry⟩ rest)
    (hgo : goMiSwitch s ⟨.miSwitch nextstate, pc, spl, entry⟩ rest nextstate = some t) : Inv t := by
  obtain ⟨hin, hlevel⟩ := h.sound.runs
  cases pc with
  | start =>
    simp only [Mips.goMiSwitch] at hgo
    split at hgo
    · cases hgo
      exact h.panic nofun
    · next hhigh =>
      have hoff : s.toCtx.Off := by
        have hspl : s.curspl = .splHigh := by
          cases hs : s.curspl with
          | spl0 => exact absurd hs hhigh
          | splHigh => rfl
        refine ⟨hspl, ?_⟩
        simpa [Ctx.Steady, hspl] using hlevel.2
      split at hgo
      · cases hgo
        exact h.returns ⟨rfl, rfl, rfl, rfl, fun _ hc => hc⟩ ⟨hin, hlevel⟩
      · cases hgo
        have hentry : entry.curspl = .splHigh := hlevel.1.symm.trans hoff.1
        cases nextstate with
        | ready | sleep | zomb => exact h.goesOn ⟨rfl, rfl, rfl, rfl, nofun⟩ rfl ⟨hentry, hoff⟩
  | sched =>
    obtain ⟨hentry, hoff⟩ := hlevel
    simp only [Mips.goMiSwitch] at hgo
    split at hgo
    · cases hgo
      exact h.goesOn ⟨rfl, rfl, rfl, rfl, fun _ hc => hc⟩ rfl ⟨hentry, hoff.1, rfl⟩
    · next queue hqueue =>
      cases hgo
      have hdone : Inv ({ s with runqueue := queue }.setStack (⟨.miSwitch nextstate, .done, spl, entry⟩ :: rest)) :=
        h.goesOn ⟨rfl, rfl, rfl, rfl, fun _ hc => hc⟩ rfl ⟨hentry, hoff⟩
      exact hdone.mdSwitch h.alive hoff
  | idle =>
    cases hgo
    exact h.goesOn ⟨rfl, rfl, rfl, rfl, fun _ hc => hc⟩ rfl ⟨hlevel.1, hlevel.2.1, rfl⟩
  | done =>
    cases hgo
    obtain ⟨hentry, hoff⟩ := hlevel
    exact h.returns ⟨rfl, rfl, rfl, rfl, fun _ hc => hc⟩ ⟨hin, hoff.1.trans hentry.symm, hoff.steady⟩
  | _ => exact nomatch hgo

/-! ## Traps -/

theorem Running.goMipsTrap {cause : Cause} {savespl : Spl} {iep : Bool}
    (h : Running s ⟨.mipsTrap cause savespl iep, pc, spl, entry⟩ rest)
    (hgo : goMipsTrap s ⟨.mipsTrap cause savespl iep, pc, spl, entry⟩ rest cause savespl iep = some t) : Inv t := by
  have hsound := h.sound
  obtain ⟨hin, hlevel⟩ := hsound.runs
  cases pc with
  | start =>
    obtain ⟨hsave, hoff⟩ := hlevel
    simp only [Mips.goMipsTrap] at hgo
    split at hgo
    · cases hgo
      refine h.setStack h.alive ⟨rfl, rfl, rfl, rfl, fun _ hc => hc⟩ (hsound.call Frame.stays ⟨hin, nofun⟩ ?_ ⟨rfl, rfl, hoff⟩)
      exact fun c' hc' => ⟨hc'.1.trans hin, hsave, hc'.2⟩
    · cases hgo
      exact h.calls trivial hoff.steady nofun fun c' hc' => ⟨hsave, hc'.2.2⟩
  | body =>
    obtain ⟨hsave, hsteady⟩ := hlevel
    simp only [Mips.goMipsTrap] at hgo
    split at hgo
    · cases hgo
      exact h.panic nofun
    · cases hgo
      exact h.calls trivial hsteady nofun fun c' hc' => ⟨hsave, hc'.2⟩
  | done =>
    cases hgo
    obtain ⟨hsave, hsteady⟩ := hlevel
    refine h.calls trivial hsteady nofun fun c' hc' => ⟨hsave, hc'.2.1, ?_⟩
    simpa [Ctx.Steady, hc'.2.1] using hc'.2.2
  | restore =>
    cases hgo
    exact h.returns ⟨rfl, rfl, rfl, rfl, fun _ hc => hc⟩ ⟨hin, rfl, rfl⟩
  | _ => exact nomatch hgo

theorem Running.goMipsInterrupt {oldIn : Nat} (h : Running s ⟨.mipsInterrupt oldIn, pc, spl, entry⟩ rest)
    (hgo : goMipsInterrupt s ⟨.mipsInterrupt oldIn, pc, spl, entry⟩ rest oldIn = some t) : Inv t := by
  obtain ⟨-, hlevel⟩ := h.sound.runs
  cases pc with
  | start =>
    simp only [Mips.goMipsInterrupt] at hgo
    split at hgo
    · cases hgo
      exact h.panic nofun
    · cases hgo
      exact h.calls trivial hlevel.2.steady nofun fun c' hc' => ⟨hlevel.1, hc'.2⟩
  | done =>
    cases hgo
    exact h.returns ⟨rfl, rfl, rfl, rfl, fun _ hc => hc⟩ ⟨hlevel.1, hlevel.2⟩
  | _ => exact nomatch hgo

theorem Running.goMiThreadstart (h : Running s ⟨.miThreadstart, pc, spl, entry⟩ rest)
    (hgo : goMiThreadstart s ⟨.miThreadstart, pc, spl, entry⟩ rest = some t) : Inv t := by
  obtain ⟨-, hlevel⟩ := h.sound.runs
  cases pc with
  | start =>
    cases hgo
    exact h.calls trivial hlevel.steady nofun fun c' hc' => hc'.2.2
  | body =>
    cases hgo
    exact h.calls trivial hlevel nofun fun c' hc' => hc'.2
  | done =>
    cases hgo
    exact h.calls trivial hlevel nofun fun c' hc' => hc'.2.2
  | _ => exact nomatch hgo

theorem Running.trap {cause : Cause} (h : Running s f rest) (hpc : f.pc ≠ .saving) : Inv (trap s f rest cause) := by
  have hsound := h.sound
  refine h.setStack h.alive ⟨rfl, rfl, rfl, rfl, fun _ hc => hc⟩ ?_
  refine hsound.call ⟨fun _ hc => hc, fun _ hc => hc, fun hc => hc⟩ ⟨hsound.runs.1, fun hs => absurd hs hpc⟩ ?_ ?_
  · -- the context that comes back is the one that was interrupted
    intro c' hc'
    obtain rfl : c' = s.toCtx := Ctx.ext hc'.2.1 hc'.2.2 hc'.1
    exact hsound.runs
  · exact ⟨rfl, rfl, rfl, rfl⟩

/-! ## Runs -/

theorem Running.codeStep [DecidableEq A] {e : Event A} (h : Running s ⟨.code, .start, spl, entry⟩ rest)
    (hstep : codeStep s ⟨.code, .start, spl, entry⟩ rest e = some t) : Inv t := by
  have hsound := h.sound
  obtain ⟨hin, hsteady⟩ := hsound.runs
  cases e with
  | call c | splx newspl =>
    cases hstep
    exact h.calls trivial hsteady nofun fun c' hc' => hc'.2.2
  | threadWakeup addr =>
    simp only [Mips.codeStep] at hstep
    split at hstep
    · cases hstep
      exact h.panic nofun
    · cases hstep
      exact ⟨h.curthread, h.running, h.parked, h.blocked⟩
  | fault =>
    cases hstep
    exact h.trap nofun
  | ret =>
    simp only [Mips.codeStep] at hstep
    split at hstep
    · exact nomatch hstep
    · cases hstep
      exact h.returns ⟨rfl, rfl, rfl, rfl, fun _ hc => hc⟩ ⟨hin, hsteady⟩
  | usermode =>
    simp only [Mips.codeStep] at hstep
    split at hstep
    · exact nomatch hstep
    · next hout =>
      cases hstep
      have hzero : s.inInterrupt = 0 := by
        by_contra hne
        exact hout ((Sound.inInterrupt_iff hsound).1 hne)
      refine h.setStack h.alive ⟨rfl, rfl, rfl, rfl, fun _ hc => hc⟩ ?_
      exact ⟨⟨hzero, rfl, rfl⟩, ⟨rfl, fun _ hc => hc.2.elim⟩, trivial⟩
  | _ => exact nomatch hstep

/-- An interrupt does not come to a frame that waits. -/
theorem Frame.Level.pc_ne_saving {c : Ctx} (h : f.Level c) (hiec : c.iec = true) : f.pc ≠ .saving := by
  obtain ⟨fn, pc, spl, entry⟩ := f
  intro hpc
  cases hpc
  cases fn with
  | call call => exact Bool.false_ne_true (h.2.symm.trans hiec)
  | _ => exact h

theorem Frame.Level.of_iec {c : Ctx} (h : f.Level c) (hiec : c.iec = true) :
    c.curspl = .spl0 ∨ (∃ newspl, f.fn = .splx newspl ∧ f.pc = .set) ∨
      ∃ nextstate, f.fn = .miSwitch nextstate ∧ f.pc = .idle := by
  have hsteady (hc : c.Steady) : c.curspl = .spl0 := of_decide_eq_true (hc.symm.trans hiec)
  have hoff (hc : c.Off) : False := Bool.false_ne_true (hc.2.symm.trans hiec)
  obtain ⟨fn, pc, spl, entry⟩ := f
  cases fn with
  | call call =>
    cases pc with
    | start => exact .inl (hsteady h.2)
    | saving => exact (hoff h).elim
    | body | leave => exact (hoff h.2).elim
    | loop =>
      cases call with
      | threadExit => exact .inl (hsteady h)
      | _ => exact (hoff h.2).elim
    | done =>
      cases call with
      | threadExit => exact .inl (hsteady h)
      | _ => exact .inl (hsteady h.2)
    | _ => exact h.elim
  | splx newspl =>
    cases pc with
    | set => exact .inr (.inl ⟨newspl, rfl, rfl⟩)
    | _ => grind [Frame.Level]
  | miSwitch nextstate =>
    cases pc with
    | idle => exact .inr (.inr ⟨nextstate, rfl, rfl⟩)
    | _ => grind [Frame.Level]
  | _ => cases pc <;> grind [Frame.Level]

theorem Running.go [DecidableEq A] (h : Running s f rest) (hgo : go s f rest = some t) : Inv t := by
  obtain ⟨fn, pc, spl, entry⟩ := f
  cases fn with
  | code | user => exact nomatch hgo
  | miThreadstart => exact h.goMiThreadstart hgo
  | splx newspl => exact h.goSplx hgo
  | call c => exact h.goCall hgo
  | miSwitch nextstate => exact h.goMiSwitch hgo
  | mipsTrap cause savespl iep => exact h.goMipsTrap hgo
  | mipsInterrupt oldIn => exact h.goMipsInterrupt hgo

theorem frameStep_cases [DecidableEq A] {e : Event A} (h : frameStep s f rest e = some t) :
    (s.iec = true ∧ t = trap s f rest .irq) ∨ go s f rest = some t ∨ (f.fn = .code ∧ codeStep s f rest e = some t) ∨
      (f.fn = .user ∧ ∃ cause, t = trap s f rest cause) := by
  cases e with
  | interrupt =>
    simp only [frameStep] at h
    split at h
    · next hiec => exact .inl ⟨hiec, (Option.some.inj h).symm⟩
    · exact nomatch h
  | go => exact .inr (.inl h)
  | _ =>
    simp only [frameStep] at h
    split at h
    · next hfn => exact .inr (.inr (.inl ⟨hfn, h⟩))
    · next hfn =>
      refine .inr (.inr (.inr ⟨hfn, ?_⟩))
      first | exact ⟨_, (Option.some.inj h).symm⟩ | exact nomatch h
    · exact nomatch h

theorem Running.frameStep [DecidableEq A] {e : Event A} (h : Running s f rest)
    (hstep : frameStep s f rest e = some t) : Inv t := by
  obtain ⟨-, hlevel⟩ := h.sound.runs
  obtain ⟨hiec, rfl⟩ | hgo | ⟨hfn, hcode⟩ | ⟨hfn, cause, rfl⟩ := frameStep_cases hstep
  · exact h.trap (hlevel.pc_ne_saving hiec)
  · exact h.go hgo
  · obtain ⟨fn, pc, spl, entry⟩ := f
    cases hfn
    cases pc with
    | start => exact h.codeStep hcode
    | _ => exact hlevel.elim
  · obtain ⟨fn, pc, spl, entry⟩ := f
    cases hfn
    cases pc with
    | start => exact h.trap nofun
    | _ => exact hlevel.elim

theorem Cpu.step_eq_some [DecidableEq A] {e : Event A} (h : s.step e = some t) :
    s.panicked = none ∧ ∃ f rest, s.stack s.onCpu = f :: rest ∧ Mips.frameStep s f rest e = some t := by
  unfold Cpu.step at h
  split at h
  · next f rest hnone hst => exact ⟨hnone, f, rest, hst, h⟩
  · exact nomatch h

theorem Inv.step [DecidableEq A] {e : Event A} (h : Inv s) (hstep : CpuStep s e t) : Inv t := by
  obtain ⟨hnone, f, rest, hst, hframe⟩ := Cpu.step_eq_some hstep
  exact Running.frameStep ⟨h, hnone, hst⟩ hframe

theorem Inv.boot : Inv (Cpu.boot : Cpu A) where
  curthread := fun _ hc => (Option.some.inj hc).symm
  running := ⟨⟨rfl, rfl⟩, ⟨rfl, fun _ hc => hc.1⟩, trivial⟩
  parked := by
    intro t ht
    have hstack : (Cpu.boot : Cpu A).stack t = [] := if_neg ht
    rw [hstack]
    exact rfl
  blocked := nofun

/-! ## Returns -/

/-- The functions that promise to leave `curspl` as it was. -/
def Fn.Balanced : Fn A → Prop
  | .call .threadExit => False
  | .call _ => True
  | .mipsTrap _ _ _ => True
  | _ => False

/-- The running thread returns from the function of the frame `f`. -/
def Returned (s : Cpu A) (f : Frame A) (t : Cpu A) : Prop :=
  ∃ rest, s.stack s.onCpu = f :: rest ∧ t.onCpu = s.onCpu ∧ t.stack t.onCpu = rest

/-- The step does not return from the running frame, under which `rest` lies. -/
def Keeps (s t : Cpu A) (rest : List (Frame A)) : Prop := rest.length < (t.stack s.onCpu).length

theorem keeps_setStack {g : Frame A} {st : List (Frame A)} (hcpu : s'.onCpu = s.onCpu)
    (hle : rest.length ≤ st.length) : Keeps s (s'.setStack (g :: st)) rest := by
  simp only [Keeps, Cpu.setStack, hcpu, Function.update_self, List.length_cons]
  omega

theorem keeps_panic {p : TrapPanic} (hst : s.stack s.onCpu = f :: rest) : Keeps s (s.panic p) rest := by
  simp only [Keeps, Cpu.panic, hst, List.length_cons]
  omega

theorem keeps_enter (hcpu : s'.onCpu = s.onCpu) : Keeps s (s'.enter fn f rest) rest :=
  keeps_setStack hcpu (Nat.le_succ _)

theorem keeps_callStart {c : Call A} (hst : s.stack s.onCpu = f :: rest) :
    Keeps s (callStart s f rest c) rest := by
  cases c with
  | threadSleep addr =>
    simp only [callStart]
    split
    · exact keeps_panic hst
    · split
      · exact keeps_panic hst
      · exact keeps_enter rfl
  | p sem =>
    simp only [callStart]
    split
    · exact keeps_panic hst
    · exact keeps_enter rfl
  | _ => exact keeps_enter rfl

theorem keeps_callBody [DecidableEq A] {c : Call A} (hst : s.stack s.onCpu = f :: rest)
    (hgo : callBody s f rest c = some t) : Keeps s t rest := by
  cases c with
  | threadYield | threadExit =>
    cases hgo
    exact keeps_enter rfl
  | threadSleep addr => exact nomatch hgo
  | p sem =>
    simp only [callBody] at hgo
    split at hgo
    · cases hgo
      exact keeps_enter rfl
    · cases hgo
      exact keeps_setStack rfl (Nat.le_refl _)
  | threadFork u =>
    simp only [callBody] at hgo
    split at hgo
    · cases hgo
      exact keeps_setStack rfl (Nat.le_refl _)
    · cases hgo
      exact keeps_setStack rfl (Nat.le_refl _)
  | _ =>
    simp only [callBody] at hgo
    split at hgo
    · cases hgo
      exact keeps_panic hst
    · cases hgo
      exact keeps_setStack rfl (Nat.le_refl _)

theorem keeps_callLoop [DecidableEq A] {c : Call A} (hgo : callLoop s f rest c = some t) :
    Keeps s t rest := by
  cases c with
  | lockAcquire lock =>
    simp only [callLoop] at hgo
    split at hgo
    · cases hgo
      exact keeps_enter rfl
    · cases hgo
      exact keeps_setStack rfl (Nat.le_refl _)
  | threadExit =>
    cases hgo
    exact keeps_enter rfl
  | _ => exact nomatch hgo

/-- Only at its end does a call leave the stack. -/
theorem keeps_goCall [DecidableEq A] {c : Call A} (hst : s.stack s.onCpu = f :: rest)
    (hgo : goCall s f rest c = some t) (hpc : f.pc ≠ .done) : Keeps s t rest := by
  simp only [goCall] at hgo
  split at hgo
  · cases hgo
    exact keeps_callStart hst
  · exact keeps_callBody hst hgo
  · exact keeps_callLoop hgo
  · cases hgo
    exact keeps_enter rfl
  · next hdone => exact absurd hdone hpc
  · exact nomatch hgo

theorem keeps_goMipsTrap {cause : Cause} {savespl : Spl} {iep : Bool}
    (hst : s.stack s.onCpu = f :: rest) (hgo : goMipsTrap s f rest cause savespl iep = some t)
    (hpc : f.pc ≠ .restore) : Keeps s t rest := by
  simp only [goMipsTrap] at hgo
  split at hgo
  · split at hgo
    · cases hgo
      exact keeps_setStack rfl (Nat.le_succ _)
    · cases hgo
      exact keeps_enter rfl
  · split at hgo
    · cases hgo
      exact keeps_panic hst
    · cases hgo
      exact keeps_enter rfl
  · cases hgo
    exact keeps_enter rfl
  · next hrestore => exact absurd hrestore hpc
  · exact nomatch hgo

theorem curspl_callDone {c : Call A} : (callDone s rest c).curspl = s.curspl := by
  cases c with
  | threadSleep addr =>
    simp only [callDone]
    split <;> rfl
  | _ => rfl

theorem curspl_of_returned [DecidableEq A] {e : Event A} (h : Inv s) (hstep : CpuStep s e t)
    (hret : Returned s f t) (hf : f.fn.Balanced) : t.curspl = f.entry.curspl := by
  obtain ⟨rest, hst, hcpu, hrest⟩ := hret
  obtain ⟨hnone, f', rest', hst', hframe⟩ := Cpu.step_eq_some hstep
  cases hst.symm.trans hst'
  obtain ⟨-, hlevel⟩ := (Running.sound ⟨h, hnone, hst⟩).runs
  have hleft : ¬Keeps s t rest := by
    rw [Keeps, ← hcpu, hrest]
    exact Nat.lt_irrefl _
  obtain ⟨-, rfl⟩ | hgo | ⟨hfn, -⟩ | ⟨hfn, -⟩ := frameStep_cases hframe
  · -- an interrupt returns from nothing
    exact absurd (keeps_setStack rfl (Nat.le_succ _)) hleft
  · obtain ⟨fn, pc, spl, entry⟩ := f
    cases fn with
    | call c =>
      have hpc : pc = .done := by
        by_contra hpc
        exact hleft (keeps_goCall hst hgo hpc)
      subst hpc
      cases hgo
      rw [curspl_callDone]
      cases c with
      | threadExit => exact hf.elim
      | _ => exact hlevel.1
    | mipsTrap cause savespl iep =>
      have hpc : pc = .restore := by
        by_contra hpc
        exact hleft (keeps_goMipsTrap hst hgo hpc)
      subst hpc
      cases hgo
      exact hlevel.1
    | _ => exact hf.elim
  · rw [hfn] at hf
    exact hf.elim
  · rw [hfn] at hf
    exact hf.elim

end

section

variable [DecidableEq A] {tr : List (Event A)} {s : Cpu A}

theorem Inv.of_run (h : Run CpuStep Cpu.boot tr s) : Inv s := h.invariant .boot fun hs hstep => hs.step hstep

/-- The current thread, if there is one, is that on whose stack the processor is, and interrupts are
on at level 0, in the idle loop under `mi_switch` and inside `splx` only. -/
theorem interrupts_on_cases {f : Frame A} {rest : List (Frame A)} (h : Run CpuStep Cpu.boot tr s)
    (hst : s.stack s.onCpu = f :: rest) : (∀ c, s.curthread = some c → c = s.onCpu) ∧
      (s.iec = true → s.curspl = .spl0 ∨ (∃ newspl, f.fn = .splx newspl ∧ f.pc = .set) ∨
        ∃ nextstate, f.fn = .miSwitch nextstate ∧ f.pc = .idle) := by
  have hinv := Inv.of_run h
  have hsound := hinv.running
  rw [hst] at hsound
  exact ⟨hinv.curthread, hsound.runs.2.of_iec⟩

/-- In every state `in_interrupt` says whether the thread that runs is in `mips_interrupt`, so that
no other thread is refused by `P` or `thread_sleep`, and a call that returns leaves `curspl` as it
was. -/
theorem interrupt_state_per_thread (h : Run CpuStep Cpu.boot tr s) : (s.inInterrupt ≠ 0 ↔ InHandler (s.stack s.onCpu)) ∧
    (s.panicked = some .mayNotBlock → InHandler (s.stack s.onCpu)) ∧
    ∀ e t f, CpuStep s e t → Returned s f t → f.fn.Balanced → t.curspl = f.entry.curspl := by
  have hinv := Inv.of_run h
  have hiff := Sound.inInterrupt_iff hinv.running
  exact ⟨hiff, fun hp => hiff.1 (hinv.blocked hp), fun e t f hstep hret hf => curspl_of_returned hinv hstep hret hf⟩

end

/-! ## A thread that is preempted in a handler -/

def Cpu.play [DecidableEq A] (s : Cpu A) (e : Event A) : Option (Event A × Cpu A) := (s.step e).map fun t => (e, t)

theorem Cpu.play_sound [DecidableEq A] {s : Cpu A} {e l : Event A} {t : Cpu A} (h : s.play e = some (l, t)) :
    CpuStep s l t := by
  obtain ⟨u, hu, hl⟩ := Option.map_eq_some_iff.1 h
  cases hl
  exact hu

theorem interrupts_on_splx : ∃ (tr : List (Event Nat)) (s : Cpu Nat) (f : Frame Nat) (rest : List (Frame Nat)),
    Run CpuStep Cpu.boot tr s ∧ s.stack s.onCpu = f :: rest ∧ s.iec = true ∧
      (s.curspl = .spl0 ∨ (∃ newspl, f.fn = .splx newspl ∧ f.pc = .set) ∨
        ∃ nextstate, f.fn = .miSwitch nextstate ∧ f.pc = .idle) := by
  have hplay : replays Cpu.play [.splx .spl0, .go, .go] (Cpu.boot : Cpu Nat)
      fun _ s => s.iec = true ∧ s.stack s.onCpu ≠ [] := by decide +kernel
  obtain ⟨tr, s, hrun, hs⟩ := Run.of_replays (@Cpu.play_sound Nat _) hplay
  obtain ⟨hiec, hne⟩ := of_decide_eq_true hs
  obtain ⟨f, rest, hst⟩ := List.exists_cons_of_ne_nil hne
  exact ⟨tr, s, f, rest, hrun, hst, hiec, (interrupts_on_cases hrun hst).2 hiec⟩

/-- The next step is the return of `thread_yield`. -/
def Cpu.yieldReturns [DecidableEq A] (s : Cpu A) : Bool :=
  match s.stack s.onCpu, s.step .go with
  | f :: rest, some t => f.fn = .call .threadYield ∧ t.onCpu = s.onCpu ∧ t.stack t.onCpu = rest
  | _, _ => false

theorem Cpu.returned_of_yieldReturns [DecidableEq A] {s : Cpu A} (h : s.yieldReturns = true) :
    ∃ f t, CpuStep s .go t ∧ Returned s f t ∧ f.fn = .call .threadYield := by
  unfold Cpu.yieldReturns at h
  split at h
  · next f rest t hst hstep =>
    obtain ⟨hfn, hcpu, hrest⟩ := of_decide_eq_true h
    exact ⟨f, t, hstep, ⟨rest, hst, hcpu, hrest⟩, hfn⟩
  · exact nomatch h

/-- Thread 0 starts thread 1 and turns interrupts on. The timer makes it yield in a handler to
thread 1, which sleeps in `P`. -/
def preemption : List (Event Nat) :=
  let goes (n : Nat) : List (Event Nat) := List.replicate n .go
  List.flatten [[.call (.threadFork 1)], goes 8, [.splx .spl0], goes 2, [.interrupt], goes 2, [.call .threadYield],
    goes 10, [.call (.p 7)], goes 11]

/-- Thread 0 returns from `thread_yield` in the handler. -/
theorem interrupt_state_of_preempted : ∃ (tr : List (Event Nat)) (s t : Cpu Nat) (f : Frame Nat),
    Run CpuStep Cpu.boot tr s ∧ InHandler (s.stack s.onCpu) ∧ CpuStep s .go t ∧ Returned s f t ∧
      f.fn = .call .threadYield ∧ t.curspl = f.entry.curspl := by
  have hplay : replays Cpu.play preemption Cpu.boot fun _ s => s.inInterrupt ≠ 0 ∧ s.yieldReturns = true := by
    decide +kernel
  obtain ⟨tr, s, hrun, hs⟩ := Run.of_replays (@Cpu.play_sound Nat _) hplay
  obtain ⟨hin, hyield⟩ := of_decide_eq_true hs
  obtain ⟨f, t, hstep, hret, hfn⟩ := Cpu.returned_of_yieldReturns hyield
  obtain ⟨hiff, -, hlevel⟩ := interrupt_state_per_thread hrun
  have hbalanced : f.fn.Balanced := by
    rw [hfn]
    trivial
  exact ⟨tr, s, t, f, hrun, hiff.1 hin, hstep, hret, hfn, hlevel .go t f hstep hret hbalanced⟩

end Os161.Mips
