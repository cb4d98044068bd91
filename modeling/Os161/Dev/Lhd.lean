import Os161.Sfs.Bmap

/-!
# The disk driver and the block I/O of the file system

`kern/dev/lamebus/lhd.c` and `kern/fs/sfs/sfs_io.c`. The disk is a row of sectors behind an
on-card buffer. It answers every operation that is started, either performing it or reporting
a media error; `answers` are the answers to come. The semaphores of the driver only keep other
threads out and wait for the interrupt, and are left out. Offsets on the disk are values of the
signed 32-bit `off_t`.

The file system retries an operation that failed with `EIO`. A write has then already moved
its data out of the descriptor, so that the second attempt is one of length zero.
-/
namespace Os161.Dev

open Lib Kern Sfs Prog

/-! ## The device -/

def lhdSectsize : Nat := 512

inductive LhdAnswer where
  | ok | media
  deriving DecidableEq, Repr

structure Lhd where
  dBlocks : Nat
  addressable : dBlocks ≤ 2 ^ 22
  sector : Nat → Block
  lhBuf : Block
  answers : Nat → LhdAnswer

inductive LhdPanic where
  | uio (p : UioPanic)
  | dioEinval
  deriving DecidableEq, Repr

abbrev LhdM := Prog LhdPanic Errno (Lhd × Uio)

/-- The status register after an operation; bit 1 tells that it was a write. -/
def LhdAnswer.status : LhdAnswer → UioRw → Nat
  | .ok, .read => 4
  | .ok, .write => 4 ||| 2
  | .media, .read => 20
  | .media, .write => 20 ||| 2

/-- The error number for a status, with the write bit masked out. -/
def lhdCodeToErrno (code : Nat) : Except Errno Unit :=
  match code &&& 0x1d with
  | 4 => .ok ()
  | 12 => .error .einval
  | 20 => .error .eio
  | _ => .error .eagain

/-- Start an operation on a sector and wait for the answer. -/
def Lhd.operate (l : Lhd) (rw : UioRw) (sect : Nat) : Lhd :=
  let l' := { l with answers := fun n => l.answers (n + 1) }
  match l.answers 0, rw with
  | .ok, .write => { l' with sector := Function.update l.sector sect l.lhBuf }
  | .ok, .read => { l' with lhBuf := l.sector sect }
  | .media, _ => l'

def onUio {α : Type} (m : Prog UioPanic Errno Uio α) : LhdM α :=
  Prog.focus Prod.snd (fun u p => (p.1, u)) .uio m

/-- Between the on-card buffer and the descriptor. -/
def moveOut : LhdM Unit := do
  let d ← onUio (uiomove (List.replicate lhdSectsize 0) lhdSectsize)
  Prog.modify fun p => ({ p.1 with lhBuf := Block.ofFn fun k => d.getD k 0 }, p.2)

def moveIn : LhdM Unit := do
  let p ← Prog.get
  let _ ← onUio (uiomove (p.1.lhBuf.slice 0 lhdSectsize) lhdSectsize)

/-- The loop of `lhd_io` over the sectors of a transfer. -/
def lhdIoLoop (sect : Nat) : Nat → LhdM Unit
  | 0 => pure ()
  | len + 1 => do
    let p ← Prog.get
    Prog.when (p.2.uioRw = .write) moveOut
    Prog.modify fun q => (q.1.operate p.2.uioRw sect, q.2)
    Prog.ofExcept (lhdCodeToErrno ((p.1.answers 0).status p.2.uioRw))
    Prog.when (p.2.uioRw = .read) moveIn
    lhdIoLoop (sect + 1) len

def lhdIo : LhdM Unit := do
  let p ← Prog.get
  let sector := p.2.uioOffset / lhdSectsize
  let len := p.2.uioResid / lhdSectsize
  if p.2.uioOffset % lhdSectsize ≠ 0 ∨ p.2.uioResid % lhdSectsize ≠ 0 then Prog.raise .einval
  else if p.1.dBlocks < sector + len then Prog.raise .einval
  else lhdIoLoop sector len

/-! ## Block I/O of the file system -/

/-- One attempt of `sfs_rwblock`, and what it does after an `EIO`. -/
def rwblockTry (again : LhdM Unit) : LhdM Unit := do
  let result ← Prog.attempt lhdIo
  match result with
  | .error .einval => Prog.stop .dioEinval
  | .error .eio => again
  | .error e => Prog.raise e
  | .ok _ => pure ()

/-- `sfs_rwblock` with the number of retries that are left. -/
def rwblock : Nat → LhdM Unit
  | 0 => rwblockTry (Prog.raise .eio)
  | retries + 1 => rwblockTry (rwblock retries)

def sfsRwblock : LhdM Unit := rwblock 10

/-- Run block I/O with a descriptor for a buffer of one block. -/
def withBlock (buf : List Byte) (block : Nat) (rw : UioRw) (l : Lhd) :
    Except LhdPanic (Except Errno Unit × Lhd × Uio) :=
  sfsRwblock (l, mkKuio buf (block * sfsBlocksize) rw)

def sfsRblock (block : Nat) : Prog LhdPanic Errno Lhd Block := fun l =>
  match withBlock (List.replicate sfsBlocksize 0) block .read l with
  | .ok (.ok _, l', u) => .ok (.ok (Block.ofFn fun k => u.moved.getD k 0), l')
  | .ok (.error e, l', _) => .ok (.error e, l')
  | .error p => .error p

def sfsWblock (data : Block) (block : Nat) : Prog LhdPanic Errno Lhd Unit := fun l =>
  match withBlock (data.slice 0 sfsBlocksize) block .write l with
  | .ok (r, l', _) => .ok (r, l')
  | .error p => .error p

/-! ## What an operation does -/

def NoPanic (_ : LhdPanic) : Prop := False

variable {l : Lhd} {u : Uio} {b : Nat}

theorem lhdCodeToErrno_status (a : LhdAnswer) (rw : UioRw) :
    lhdCodeToErrno (a.status rw) = if a = .ok then .ok () else .error .eio := by
  cases a <;> cases rw <;> rfl

theorem sat_onUio {α : Type} {K : LhdPanic → Prop} {m : Prog UioPanic Errno Uio α}
    {p : Lhd × Uio} {Q : Except Errno α → Lhd × Uio → Prop} : Sat K (onUio m) p Q ↔
      Sat (fun q => K (.uio q)) m p.2 (fun r u => Q r (p.1, u)) := by
  simp only [onUio, sat_focus]

theorem sat_lhdIo {K : LhdPanic → Prop} {Q : Except Errno Unit → Lhd × Uio → Prop} {n : Nat}
    (hb : b + n ≤ l.dBlocks) (ho : u.uioOffset = b * lhdSectsize) (hr : u.uioResid = n * lhdSectsize) :
    Sat K lhdIo (l, u) Q ↔ Sat K (lhdIoLoop b n) (l, u) Q := by
  have hpos : 0 < lhdSectsize := by decide
  simp only [lhdIo, sat_bind, sat_get, ho, hr, Nat.mul_mod_left, Nat.mul_div_cancel _ hpos,
    ne_eq, not_true_eq_false, or_self, if_false, sat_ite]
  rw [if_neg (by omega)]

-- the specifications are about transfers of 512 bytes, which nothing should try to run
attribute [local irreducible] uiomove Block.slice List.replicate

/-- The descriptor of `sfs_wblock` before its data is moved. -/
def writeUio (data : Block) (b : Nat) : Uio :=
  mkKuio (data.slice 0 sfsBlocksize) (b * sfsBlocksize) .write

def readUio (b : Nat) : Uio := mkKuio (List.replicate sfsBlocksize 0) (b * sfsBlocksize) .read

theorem ofFn_slice (data : Block) : (Block.ofFn fun k => (data.slice 0 sfsBlocksize).getD k 0) = data := by
  refine Block.ext fun k hk => ?_
  rw [Block.get_ofFn _ hk, Block.getD_slice _ (show k < sfsBlocksize from hk), Nat.zero_add]

@[simp] theorem writeUio_resid (data : Block) (b : Nat) : (writeUio data b).uioResid = lhdSectsize := by
  rw [writeUio, mkKuio, Block.length_slice]
  rfl

theorem writeUio_iov (data : Block) (b : Nat) : (writeUio data b).iov = data.slice 0 sfsBlocksize := by
  rw [writeUio, mkKuio]

@[simp] theorem writeUio_rw (data : Block) (b : Nat) : (writeUio data b).uioRw = .write := rfl

@[simp] theorem readUio_resid (b : Nat) : (readUio b).uioResid = lhdSectsize := by
  rw [readUio, mkKuio, List.length_replicate]
  rfl

@[simp] theorem readUio_rw (b : Nat) : (readUio b).uioRw = .read := rfl

/-- The descriptor of a write after an attempt: nothing is left in it. -/
def spentUio (data : Block) (b : Nat) : Uio := (writeUio data b).advance (data.slice 0 sfsBlocksize)

theorem lhdSectsize_eq : lhdSectsize = sfsBlocksize := rfl

theorem take_slice (buf : Block) : (buf.slice 0 sfsBlocksize).take sfsBlocksize = buf.slice 0 sfsBlocksize := by
  rw [List.take_of_length_le]
  rw [Block.length_slice]

theorem transfer_writeUio (data : Block) (b : Nat) (ptr : List Byte) :
    transfer (writeUio data b) ptr lhdSectsize = data.slice 0 sfsBlocksize := by
  simp only [transfer, writeUio_rw, writeUio_iov, lhdSectsize_eq, take_slice]

theorem transfer_readUio (b : Nat) (buf : Block) :
    transfer (readUio b) (buf.slice 0 lhdSectsize) lhdSectsize = buf.slice 0 sfsBlocksize := by
  simp only [transfer, readUio_rw, lhdSectsize_eq, take_slice]

theorem moveOut_spec (data : Block) (b : Nat) : Sat NoPanic moveOut (l, writeUio data b) (fun r p =>
    r = .ok () ∧ p = ({ l with lhBuf := data }, spentUio data b)) := by
  simp only [moveOut, sat_bind, sat_onUio, sat_modify]
  have hiov : lhdSectsize ≤ (writeUio data b).iov.length := by rw [writeUio_iov, Block.length_slice]; rfl
  have hres : lhdSectsize ≤ (writeUio data b).uioResid := by rw [writeUio_resid]
  have move := uiomove_once (writeUio data b) rfl (List.replicate lhdSectsize 0) (by decide) hiov hres
  refine Sat.weaken (move.mono ?_) fun _ h => h
  rintro (e | d) v h
  · exact absurd rfl h.2.2.1
  · obtain ⟨hd, hv⟩ := h
    rw [transfer_writeUio] at hd
    simp only [hv, hd, ofFn_slice]
    exact ⟨trivial, rfl⟩

theorem moveIn_spec (b : Nat) : Sat NoPanic moveIn (l, readUio b) (fun r p =>
    r = .ok () ∧ p = (l, (readUio b).advance (l.lhBuf.slice 0 sfsBlocksize))) := by
  simp only [moveIn, sat_bind, sat_get, sat_onUio, sat_pure]
  have hiov : lhdSectsize ≤ (readUio b).iov.length := by rw [readUio, mkKuio, List.length_replicate]; rfl
  have hres : lhdSectsize ≤ (readUio b).uioResid := by rw [readUio_resid]
  have move := uiomove_once (readUio b) rfl (l.lhBuf.slice 0 lhdSectsize) (by decide) hiov hres
  refine Sat.weaken (move.mono ?_) fun _ h => h
  rintro (e | d) v h
  · exact absurd rfl h.2.2.1
  · obtain ⟨hd, hv⟩ := h
    rw [transfer_readUio] at hd
    simp only [hv, hd]
    exact ⟨trivial, trivial⟩

/-- The first attempt of a write moves the data to the card, whatever the disk answers. -/
theorem lhdIo_write_spec (data : Block) (hb : b < l.dBlocks) : Sat NoPanic lhdIo (l, writeUio data b) (fun r p =>
    p.1.dBlocks = l.dBlocks ∧ p.2 = spentUio data b ∧
    (l.answers 0 = .ok → r = .ok () ∧ p.1.sector = Function.update l.sector b data) ∧
    (l.answers 0 = .media → r = .error .eio ∧ p.1.sector = l.sector)) := by
  refine (sat_lhdIo (n := 1) hb rfl (by simp)).2 ?_
  simp only [lhdIoLoop, sat_bind, sat_get, sat_when]
  rw [if_pos (writeUio_rw data b)]
  refine (moveOut_spec data b).mono ?_
  rintro _ _ ⟨rfl, rfl⟩
  simp only [sat_modify, sat_ofExcept, lhdCodeToErrno_status, writeUio_rw]
  cases ha : l.answers 0 with
  | ok =>
    simp only [if_true, reduceCtorEq, if_false, sat_pure, Lhd.operate, ha]
    exact ⟨trivial, trivial, fun _ => ⟨trivial, trivial⟩, fun h => by cases h⟩
  | media =>
    simp only [reduceCtorEq, if_false, Lhd.operate, ha]
    exact ⟨trivial, trivial, fun h => (by cases h), fun _ => ⟨trivial, trivial⟩⟩

/-- An attempt to write with a spent descriptor does nothing, and succeeds. -/
theorem lhdIo_spent_spec (data : Block) (hb : b < l.dBlocks) :
    Sat NoPanic lhdIo (l, spentUio data b) (fun r p => r = .ok () ∧ p = (l, spentUio data b)) := by
  have hlen : (data.slice 0 sfsBlocksize).length = sfsBlocksize := Block.length_slice _ _ _
  have ho : (spentUio data b).uioOffset = (b + 1) % 2 ^ 23 * lhdSectsize := by
    rw [spentUio, Uio.advance_offset, hlen]
    change (b * 512 + 512) % 2 ^ 32 = (b + 1) % 2 ^ 23 * 512
    omega
  have hr : (spentUio data b).uioResid = 0 * lhdSectsize := by
    rw [spentUio, Uio.advance_resid, hlen, writeUio_resid]
    rfl
  refine (sat_lhdIo (n := 0) (by omega) ho hr).2 ?_
  exact ⟨rfl, rfl⟩

theorem lhdIo_read_spec (hb : b < l.dBlocks) : Sat NoPanic lhdIo (l, readUio b) (fun r p =>
    p.1.dBlocks = l.dBlocks ∧ p.1.sector = l.sector ∧ (l.answers 0 = .ok → r = .ok () ∧
      p.2 = (readUio b).advance ((l.sector b).slice 0 sfsBlocksize)) ∧
    (l.answers 0 = .media → r = .error .eio ∧ p.2 = readUio b)) := by
  refine (sat_lhdIo (n := 1) hb rfl (by simp)).2 ?_
  simp only [lhdIoLoop, sat_bind, sat_get, sat_when, readUio_rw, reduceCtorEq,
    if_false, if_true, sat_modify, sat_ofExcept, lhdCodeToErrno_status]
  cases ha : l.answers 0 with
  | ok =>
    simp only [if_true, Lhd.operate, ha]
    refine (moveIn_spec b).mono ?_
    rintro _ _ ⟨rfl, rfl⟩
    exact ⟨rfl, rfl, fun _ => ⟨rfl, rfl⟩, fun h => by cases h⟩
  | media =>
    simp only [reduceCtorEq, if_false, Lhd.operate, ha]
    exact ⟨trivial, trivial, fun h => (by cases h), fun _ => ⟨trivial, trivial⟩⟩

/-! ## Block I/O -/

theorem sat_rwblockTry {again : LhdM Unit} {p : Lhd × Uio} {Q : Except Errno Unit → Lhd × Uio → Prop}
    (h : Sat NoPanic lhdIo p (fun r q => (r = .ok () ∧ Q r q) ∨ (r = .error .eio ∧ Sat NoPanic again q Q))) :
    Sat NoPanic (rwblockTry again) p Q := by
  simp only [rwblockTry, sat_bind, sat_attempt]
  refine h.mono ?_
  rintro r q (⟨rfl, hq⟩ | ⟨rfl, hq⟩)
  · exact hq
  · exact hq

/-- A write takes the first answer of the disk. After a media error the retry reports success
without having written anything. -/
theorem rwblock_write_spec (data : Block) (n : Nat) (hb : b < l.dBlocks) :
    Sat NoPanic (rwblock (n + 1)) (l, writeUio data b) (fun r p => r = .ok () ∧ p.1.dBlocks = l.dBlocks ∧
      p.1.sector = if l.answers 0 = .ok then Function.update l.sector b data else l.sector) := by
  refine sat_rwblockTry ((lhdIo_write_spec data hb).mono ?_)
  rintro r ⟨l', u⟩ ⟨hn, rfl, hok, hmedia⟩
  cases ha : l.answers 0 with
  | ok =>
    obtain ⟨rfl, hs⟩ := hok ha
    exact .inl ⟨rfl, rfl, hn, hs⟩
  | media =>
    obtain ⟨rfl, hs⟩ := hmedia ha
    have again := lhdIo_spent_spec (l := l') data (hn ▸ hb)
    have done : Sat NoPanic (rwblock n) (l', spentUio data b) (fun r p => r = .ok () ∧ p.1 = l') := by
      cases n <;> exact sat_rwblockTry (again.mono fun r p h => .inl ⟨h.1, h.1, by rw [h.2]⟩)
    refine .inr ⟨rfl, done.mono fun r p h => ⟨h.1, ?_⟩⟩
    rw [if_neg (by decide), h.2]
    exact ⟨hn, hs⟩

/-- What a read leaves behind: the sectors as they were, and on success the sector's bytes. -/
structure ReadDone (l : Lhd) (b : Nat) (r : Except Errno Unit) (p : Lhd × Uio) : Prop where
  dBlocks : p.1.dBlocks = l.dBlocks
  sector : p.1.sector = l.sector
  uio : r = .ok () → p.2 = (readUio b).advance ((l.sector b).slice 0 sfsBlocksize)

/-- A failed attempt to read leaves the descriptor as it was, so the next one is like the first. -/
theorem rwblockTry_read_spec {again : LhdM Unit} (hb : b < l.dBlocks)
    (hagain : ∀ l' : Lhd, l'.dBlocks = l.dBlocks → l'.sector = l.sector →
      Sat NoPanic again (l', readUio b) (ReadDone l b)) :
    Sat NoPanic (rwblockTry again) (l, readUio b) (fun r p => ReadDone l b r p ∧ (l.answers 0 = .ok → r = .ok ())) := by
  refine sat_rwblockTry ((lhdIo_read_spec hb).mono ?_)
  rintro r ⟨l', u⟩ ⟨hn, hs, hok, hmedia⟩
  cases ha : l.answers 0 with
  | ok =>
    obtain ⟨rfl, hu⟩ := hok ha
    exact .inl ⟨rfl, ⟨hn, hs, fun _ => hu⟩, fun _ => rfl⟩
  | media =>
    obtain ⟨rfl, rfl⟩ := hmedia ha
    exact .inr ⟨rfl, (hagain l' hn hs).mono fun r p h => ⟨h, fun h => nomatch h⟩⟩

theorem rwblock_read_spec (n : Nat) (hb : b < l.dBlocks) :
    Sat NoPanic (rwblock n) (l, readUio b) (fun r p => ReadDone l b r p ∧ (l.answers 0 = .ok → r = .ok ())) := by
  induction n generalizing l with
  | zero => exact rwblockTry_read_spec hb fun l' hn hs => ⟨hn, hs, fun h => nomatch h⟩
  | succ n ih =>
    refine rwblockTry_read_spec hb fun l' hn hs => (ih (l := l') (hn ▸ hb)).mono ?_
    rintro r p ⟨hd, -⟩
    exact ⟨hd.dBlocks.trans hn, hd.sector.trans hs, fun h => hs ▸ hd.uio h⟩

theorem sat_sfsWblock {data : Block} {Q : Except Errno Unit → Lhd → Prop} : Sat NoPanic (sfsWblock data b) l Q ↔
    Sat NoPanic (rwblock 10) (l, writeUio data b) (fun r p => Q r p.1) := by
  simp only [Sat, sfsWblock, withBlock, sfsRwblock, ← writeUio.eq_1]
  rcases rwblock 10 (l, writeUio data b) with p | ⟨r, l', u⟩ <;> rfl

theorem sat_sfsRblock {Q : Except Errno Block → Lhd → Prop} : Sat NoPanic (sfsRblock b) l Q ↔
    Sat NoPanic (rwblock 10) (l, readUio b) (fun r p =>
      Q (r.map fun _ => Block.ofFn fun k => p.2.moved.getD k 0) p.1) := by
  simp only [Sat, sfsRblock, withBlock, sfsRwblock, ← readUio.eq_1]
  rcases rwblock 10 (l, readUio b) with p | ⟨e | a, l', u⟩ <;> rfl

/-- `sfs_wblock` always reports success, and has written if the first answer was `LHD_OK`. -/
theorem sfsWblock_spec (data : Block) (hb : b < l.dBlocks) :
    Sat NoPanic (sfsWblock data b) l (fun r l' => r = .ok () ∧ l'.dBlocks = l.dBlocks ∧
      l'.sector = if l.answers 0 = .ok then Function.update l.sector b data else l.sector) :=
  sat_sfsWblock.2 (rwblock_write_spec data 9 hb)

theorem sfsRblock_spec (hb : b < l.dBlocks) :
    Sat NoPanic (sfsRblock b) l (fun r l' => l'.dBlocks = l.dBlocks ∧ l'.sector = l.sector ∧
      (∀ buf, r = .ok buf → buf = l.sector b) ∧ (l.answers 0 = .ok → r = .ok (l.sector b))) := by
  refine sat_sfsRblock.2 ((rwblock_read_spec 10 hb).mono ?_)
  rintro r ⟨l', u⟩ ⟨hd, hok⟩
  have moved (h : r = .ok ()) : (Block.ofFn fun k => u.moved.getD k 0) = l.sector b := by
    have hu : u = _ := hd.uio h
    have hm : u.moved = (l.sector b).slice 0 sfsBlocksize := by
      rw [hu, Uio.advance_moved, readUio, mkKuio, List.nil_append]
    rw [hm, ofFn_slice]
  refine ⟨hd.dBlocks, hd.sector, fun buf h => ?_, fun h => ?_⟩
  · cases r with
    | error e => exact nomatch h
    | ok a => exact (Except.ok.inj h).symm.trans (moved rfl)
  · obtain rfl := hok h
    exact congrArg Except.ok (moved rfl)

/-! ## Honesty -/

/-- `sfs_wblock` returns, and its result tells what became of the sectors. -/
def WriteHonest (l : Lhd) (data : Block) (b : Nat) : Prop :=
  Prog.Sat NoPanic (sfsWblock data b) l fun r l' => match r with
    | .ok _ => l'.sector b = data ∧ ∀ c, c ≠ b → l'.sector c = l.sector c
    | .error _ => l'.sector = l.sector

/-- `sfs_rblock` returns, and its result tells what is in the buffer. -/
def ReadHonest (l : Lhd) (b : Nat) : Prop :=
  Prog.Sat NoPanic (sfsRblock b) l fun r l' => l'.sector = l.sector ∧ match r with
    | .ok buf => buf = l.sector b
    | .error _ => True

theorem readHonest (hb : b < l.dBlocks) : ReadHonest l b := by
  refine (sfsRblock_spec hb).mono ?_
  rintro (e | buf) l' ⟨-, hs, hbuf, -⟩
  · exact ⟨hs, trivial⟩
  · exact ⟨hs, hbuf buf rfl⟩

theorem writeHonest_iff (data : Block) (hb : b < l.dBlocks) :
    WriteHonest l data b ↔ l.answers 0 = .ok ∨ l.sector b = data := by
  have spec := sfsWblock_spec data hb
  unfold WriteHonest Sat
  cases hcall : sfsWblock data b l with
  | error p => exact (spec.of_error hcall).elim
  | ok out =>
    obtain ⟨r, l'⟩ := out
    obtain ⟨rfl, -, hs⟩ := spec.of_ok hcall
    cases ha : l.answers 0 with
    | ok =>
      rw [if_pos ha] at hs
      simp +contextual [hs]
    | media =>
      rw [if_neg (by simp [ha])] at hs
      simp [hs]

/-- Block I/O is honest exactly when the disk does not refuse the first attempt of a write that
would have changed the sector. -/
theorem blockIo_honest_iff (l : Lhd) (data : Block) (b : Nat) (hb : b < l.dBlocks) :
    (WriteHonest l data b ∧ ReadHonest l b) ↔ (l.answers 0 = .ok ∨ l.sector b = data) := by
  rw [writeHonest_iff data hb]
  exact and_iff_left (readHonest hb)

def blankLhd (first : LhdAnswer) : Lhd where
  dBlocks := 1
  addressable := by decide
  sector := fun _ => Block.zero
  lhBuf := Block.zero
  answers := fun n => if n = 0 then first else .ok

def ones : Block := Block.ofFn fun _ => 1

theorem blockIo_honest_blankLhd :
    0 < (blankLhd .ok).dBlocks ∧ WriteHonest (blankLhd .ok) ones 0 ∧ ReadHonest (blankLhd .ok) 0 :=
  ⟨by decide, (blockIo_honest_iff (blankLhd .ok) ones 0 (by decide)).2 (.inl rfl)⟩

/-- One media error, and `sfs_wblock` returns 0 over a sector that was never written. -/
theorem sfsWblock_blankLhd_media : 0 < (blankLhd .media).dBlocks ∧ ¬ WriteHonest (blankLhd .media) ones 0 := by
  refine ⟨by decide, fun h => ?_⟩
  obtain h | h := (writeHonest_iff ones (by decide)).1 h
  · exact nomatch h
  · have hget := congrArg (Block.get · 0) h
    simp [blankLhd, ones] at hget

/-! ## The file system's view of the disk -/

/-- The volume is on this disk, and its block transfers do not fail. -/
structure Backs (l : Lhd) (s : SfsFs) : Prop where
  dBlocks : s.sfsDevice.dBlocks = l.dBlocks
  sector : s.sfsDevice.sector = l.sector
  ioFaults : s.ioFaults = []

variable {s : SfsFs}

/-- A write whose first attempt is answered with `LHD_OK` is the block write of the file system. -/
theorem Backs.sfsWblock (h : Backs l s) (hb : b < l.dBlocks) (data : Block) (ha : l.answers 0 = .ok) :
    Sat NoPanic (sfsWblock data b) l (fun r l' =>
      Sat (fun _ => False) (Sfs.sfsWblock data b) s (fun r' s' => r' = r ∧ Backs l' s')) := by
  refine (sfsWblock_spec data hb).mono ?_
  rintro r l' ⟨rfl, hn, hs⟩
  rw [if_pos ha] at hs
  refine (Sfs.sat_sfsWblock h.ioFaults (h.dBlocks ▸ hb) data).2 ⟨rfl, ?_, ?_, h.ioFaults⟩
  · exact h.dBlocks.trans hn.symm
  · simp only [SfsFs.writeSector, hs, h.sector]

theorem Backs.sfsRblock (h : Backs l s) (hb : b < l.dBlocks) (ha : l.answers 0 = .ok) :
    Sat NoPanic (sfsRblock b) l (fun r l' =>
      Sat (fun _ => False) (Sfs.sfsRblock b) s (fun r' s' => r' = r ∧ Backs l' s')) := by
  refine (sfsRblock_spec hb).mono ?_
  rintro r l' ⟨hn, hs, -, hok⟩
  obtain rfl := hok ha
  refine (Sfs.sat_sfsRblock h.ioFaults (h.dBlocks ▸ hb)).2 ⟨?_, ?_, ?_, h.ioFaults⟩
  · rw [SfsFs.sector, h.sector]
  · exact h.dBlocks.trans hn.symm
  · exact h.sector.trans hs.symm

end Os161.Dev
