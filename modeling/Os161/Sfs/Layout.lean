import Os161.Kern.Bitmap

/-!
# The SFS disk layout

`kern/include/kern/sfs.h`: the constants, and the on-disk superblock, inode and directory
entry with their big-endian images. A block is 512 bytes, or 128 words; the kernel and
`mksfs` both read and write the structures as block images, so every structure comes
with an encoder, a decoder and the equation that decoding undoes encoding.
-/
namespace Os161.Sfs

open Lib

def sfsMagic : Word := 0xabadf001
def sfsBlocksize : Nat := 512
def sfsVolnameSize : Nat := 32
def sfsNdirect : Nat := 15
def sfsDbperidb : Nat := 128
def sfsNamelen : Nat := 60
def sfsSbLocation : Nat := 0
def sfsRootLocation : Nat := 1
def sfsMapLocation : Nat := 2
def sfsNoino : Word := 0

def sfsBlockbits : Nat := sfsBlocksize * 8
def sfsRoundup (a b : Nat) : Nat := (a + b - 1) / b * b
/-- Size of the free map in bits, and in blocks. -/
def sfsBitmapsize (nblocks : Nat) : Nat := sfsRoundup nblocks sfsBlockbits
def sfsBitblocks (nblocks : Nat) : Nat := sfsBitmapsize nblocks / sfsBlockbits

def sfsTypeInval : Half := 0
def sfsTypeFile : Half := 1
def sfsTypeDir : Half := 2

/-! ## Blocks -/

def Block : Type := Fin 512 → Byte

namespace Block

def get (b : Block) (k : Nat) : Byte := if h : k < 512 then b ⟨k, h⟩ else 0
def ofFn (f : Nat → Byte) : Block := fun k => f k
def zero : Block := fun _ => 0

@[simp] theorem get_ofFn (f : Nat → Byte) {k : Nat} (h : k < 512) : (ofFn f).get k = f k := by
  simp [get, ofFn, h]

@[simp] theorem get_zero (k : Nat) : zero.get k = 0 := by
  unfold get zero
  split <;> rfl

theorem ext {a b : Block} (h : ∀ k < 512, a.get k = b.get k) : a = b := by
  funext k
  simpa [get, k.isLt] using h k k.isLt

def word (b : Block) (j : Nat) : Word :=
  beWord (b.get (4 * j)) (b.get (4 * j + 1)) (b.get (4 * j + 2)) (b.get (4 * j + 3))
def ofWords (w : Nat → Word) : Block := ofFn fun k => beByte (w (k / 4)) (k % 4)

@[simp] theorem word_ofWords (w : Nat → Word) {j : Nat} (h : j < 128) : (ofWords w).word j = w j := by
  have at_ (i : Nat) (hi : i < 4) : (ofWords w).get (4 * j + i) = beByte (w j) i := by
    rw [ofWords, get_ofFn _ (by omega), Nat.mul_add_div (by decide), Nat.mul_add_mod,
      Nat.div_eq_of_lt hi, Nat.mod_eq_of_lt hi, Nat.add_zero]
  rw [word, show 4 * j = 4 * j + 0 from rfl, at_ 0 (by decide), at_ 1 (by decide),
    at_ 2 (by decide), at_ 3 (by decide), beWord_beByte]

@[simp] theorem word_zero (j : Nat) : zero.word j = 0 := by
  simp only [word, get_zero]
  exact beWord_zero

def slice (b : Block) (k n : Nat) : List Byte := (List.range n).map fun i => b.get (k + i)

/-- Overwrite the bytes of a block from byte `k` on with `d`. -/
def splice (b : Block) (k : Nat) (d : List Byte) : Block :=
  ofFn fun i => if k ≤ i ∧ i < k + d.length then d.getD (i - k) 0 else b.get i

@[simp] theorem length_slice (b : Block) (k n : Nat) : (b.slice k n).length = n := by
  simp [slice]

theorem getD_slice (b : Block) {k n i : Nat} (h : i < n) : (b.slice k n).getD i 0 = b.get (k + i) := by
  simp [slice, h]

theorem get_splice (b : Block) (d : List Byte) {k i : Nat} (h : i < 512) :
    (b.splice k d).get i = if k ≤ i ∧ i < k + d.length then d.getD (i - k) 0 else b.get i :=
  get_ofFn _ h

end Block

/-! ## The structures -/

structure SfsSuper where
  spMagic : Word
  spNblocks : Word
  spVolname : Fin 32 → Byte
  reserved : Fin 118 → Word

structure SfsInode where
  sfiSize : Word
  sfiType : Half
  sfiLinkcount : Half
  sfiDirect : Fin 15 → Word
  sfiIndirect : Word
  sfiWaste : Fin 110 → Word

structure SfsDir where
  sfdIno : Word
  sfdName : List Byte

/-- Index a C array held as a function on `Fin n`; the code stays in range. -/
def at0 {n : Nat} (f : Fin n → Word) (k : Nat) : Word := if h : k < n then f ⟨k, h⟩ else 0

namespace SfsInode

def direct (i : SfsInode) (k : Nat) : Word := at0 i.sfiDirect k
def setDirect (i : SfsInode) (k : Nat) (b : Word) : SfsInode :=
  { i with sfiDirect := fun j => if j.val = k then b else i.sfiDirect j }

@[simp] theorem direct_setDirect (i : SfsInode) (k j : Nat) (b : Word) (h : j < 15) :
    (i.setDirect k b).direct j = if j = k then b else i.direct j := by
  simp [direct, setDirect, at0, h]

@[simp] theorem setDirect_sfiIndirect (i : SfsInode) (k : Nat) (b : Word) :
    (i.setDirect k b).sfiIndirect = i.sfiIndirect := rfl

/-- The image of an inode: size, type and link count, direct blocks, indirect block, waste. -/
def encode (i : SfsInode) : Block := Block.ofWords fun j =>
  if j = 0 then i.sfiSize
  else if j = 1 then halves i.sfiType i.sfiLinkcount
  else if j < 17 then i.direct (j - 2)
  else if j = 17 then i.sfiIndirect
  else at0 i.sfiWaste (j - 18)

def decode (b : Block) : SfsInode where
  sfiSize := b.word 0
  sfiType := highHalf (b.word 1)
  sfiLinkcount := lowHalf (b.word 1)
  sfiDirect k := b.word (k + 2)
  sfiIndirect := b.word 17
  sfiWaste k := b.word (k + 18)

@[simp] theorem decode_encode (i : SfsInode) : decode i.encode = i := by
  obtain ⟨size, type, count, dir, ind, waste⟩ := i
  simp only [decode, encode, SfsInode.mk.injEq]
  refine ⟨by simp, by simp, by simp, ?_, by simp, ?_⟩
  · funext k
    have := k.isLt
    rw [Block.word_ofWords _ (by omega), if_neg (by omega), if_neg (by omega), if_pos (by omega)]
    simp [direct, at0]
  · funext k
    have := k.isLt
    rw [Block.word_ofWords _ (by omega), if_neg (by omega), if_neg (by omega), if_neg (by omega), if_neg (by omega)]
    simp [at0]

/-- The inode a cleared block holds. -/
def blank : SfsInode where
  sfiSize := 0
  sfiType := sfsTypeInval
  sfiLinkcount := 0
  sfiDirect _ := 0
  sfiIndirect := 0
  sfiWaste _ := 0

@[simp] theorem decode_zero : decode Block.zero = blank := by
  simp [decode, blank, sfsTypeInval, highHalf, lowHalf]

end SfsInode

namespace SfsSuper

def encode (sp : SfsSuper) : Block := Block.ofFn fun k =>
  if k < 4 then beByte sp.spMagic k
  else if k < 8 then beByte sp.spNblocks (k - 4)
  else if h : k - 8 < 32 then sp.spVolname ⟨k - 8, h⟩
  else beByte (at0 sp.reserved ((k - 40) / 4)) (k % 4)

def decode (b : Block) : SfsSuper where
  spMagic := b.word 0
  spNblocks := b.word 1
  spVolname k := b.get (k + 8)
  reserved k := b.word (k + 10)

@[simp] theorem decode_encode (sp : SfsSuper) : decode sp.encode = sp := by
  obtain ⟨magic, nblocks, volname, reserved⟩ := sp
  simp only [decode, encode, SfsSuper.mk.injEq]
  refine ⟨by simp [Block.word], by simp [Block.word], ?_, ?_⟩
  · funext k
    have := k.isLt
    rw [Block.get_ofFn _ (by omega), if_neg (by omega), if_neg (by omega), dif_pos (show k.val + 8 - 8 < 32 by omega)]
    simp
  · funext k
    have := k.isLt
    have byte (i : Nat) (hi : i < 4) :
        (4 * (k.val + 10) + i - 40) / 4 = k.val ∧ (4 * (k.val + 10) + i) % 4 = i := by omega
    have cell (i : Nat) (hi : i < 4) : (Block.ofFn fun k =>
        if k < 4 then beByte magic k
        else if k < 8 then beByte nblocks (k - 4)
        else if h : k - 8 < 32 then volname ⟨k - 8, h⟩
        else beByte (at0 reserved ((k - 40) / 4)) (k % 4)).get (4 * (k.val + 10) + i) =
          beByte (reserved k) i := by
      rw [Block.get_ofFn _ (by omega), if_neg (by omega), if_neg (by omega), dif_neg (by omega),
        (byte i hi).1, (byte i hi).2]
      simp [at0]
    rw [Block.word, show 4 * (k.val + 10) = 4 * (k.val + 10) + 0 from rfl, cell 0 (by decide),
      cell 1 (by decide), cell 2 (by decide), cell 3 (by decide), beWord_beByte]

end SfsSuper

/-! ## Names and directory entries -/

/-- A C string: the bytes before the terminating NUL. -/
@[ext]
structure CString where
  bytes : List Byte
  noNul : ∀ b ∈ bytes, b ≠ 0
  deriving DecidableEq

def CString.take (c : CString) (n : Nat) : CString :=
  ⟨c.bytes.take n, fun b hb => c.noNul b (List.mem_of_mem_take hb)⟩

def CString.drop (c : CString) (n : Nat) : CString :=
  ⟨c.bytes.drop n, fun b hb => c.noNul b (List.mem_of_mem_drop hb)⟩

/-- `sizeof(struct sfs_dir)`. -/
def sizeofSfsDir : Nat := 64

/-- The C string at the start of a buffer. -/
def cstr (l : List Byte) : List Byte := l.takeWhile (· ≠ 0)

namespace SfsDir

def encode (sd : SfsDir) : List Byte :=
  [beByte sd.sfdIno 0, beByte sd.sfdIno 1, beByte sd.sfdIno 2, beByte sd.sfdIno 3] ++ sd.sfdName

def decode (l : List Byte) : SfsDir where
  sfdIno := beWord (l.getD 0 0) (l.getD 1 0) (l.getD 2 0) (l.getD 3 0)
  sfdName := l.drop 4

@[simp] theorem decode_encode (sd : SfsDir) : decode sd.encode = sd := by
  simp [decode, encode]

/-- A cleared entry with the given inode number and name, as `strcpy` after `bzero` leaves it. -/
def named (ino : Word) (name : List Byte) : SfsDir :=
  ⟨ino, name ++ List.replicate (sfsNamelen - name.length) 0⟩

@[simp] theorem length_encode_named (ino : Word) {name : List Byte} (h : name.length ≤ sfsNamelen) :
    (named ino name).encode.length = sizeofSfsDir := by
  simp only [sfsNamelen] at h
  simp [named, encode, sizeofSfsDir, sfsNamelen]
  omega

/-- The name in an entry, with the last byte forced to NUL as `sfs_dir_findname` does. -/
def name (sd : SfsDir) : List Byte := cstr (sd.sfdName.set (sfsNamelen - 1) 0)

end SfsDir

theorem cstr_append_zeros (s : CString) (n : Nat) : cstr (s.bytes ++ List.replicate n 0) = s.bytes := by
  have hs := s.noNul
  generalize s.bytes = l at hs ⊢
  induction l with
  | nil => cases n <;> simp [cstr, List.replicate_succ]
  | cons b l ih =>
    have hb : b ≠ 0 := hs b (by simp)
    have ih := ih fun c hc => hs c (by simp [hc])
    rw [cstr, List.cons_append, List.takeWhile_cons_of_pos (by simpa using hb)]
    exact congrArg _ ih

/-- Force the volume name to end in a NUL. -/
def SfsSuper.terminated (sp : SfsSuper) : SfsSuper :=
  { sp with spVolname := fun k => if k.val = sfsVolnameSize - 1 then 0 else sp.spVolname k }

end Os161.Sfs
