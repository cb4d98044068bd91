import Os161.Libc.Strtok
import Os161.Vfs.Knowndevs

/-!
# Where the translation of a path starts

`getdevice` of `vfslookup.c` as it works on the characters in memory: it looks for the first colon
or slash, cuts off the name of a device by storing a NUL over the colon, and skips slashes. All
accesses are checked against a range of addresses, as in `strtok_r`. For a path in memory the
outcome is that of `splitPath` on the string (`getdevice_splitPath`), whatever devices, current
directory and boot file system there are.
-/
namespace Os161.Getdevice

open Lib Kern Sfs Knowndevs
open Vfs (colon slash PathStart splitPath skipSlashes)
open Libc (StrtokFault Range StrAt load storeNul scan)

/-- A vnode to start from: one that was there, or what `FSOP_GETROOT` returns. -/
inductive StartVn where
  | vnode (vn : Nat)
  | root (fs : Fs)
  deriving DecidableEq

def ofRoot : Root → StartVn
  | .root fs => .root fs
  | .device vnode => .vnode vnode

/-- The current directory, with `vn_fs`. -/
structure Cwd where
  vn : Nat
  vnFs : Option Fs

structure State where
  knowndevs : List Knowndev
  tCwd : Option Cwd
  bootfsVnode : Option Nat

/-- An access outside of the range, or an assertion of `vfs_getroot` or of `getdevice`. -/
inductive Fault where
  | wild (f : StrtokFault)
  | getroot (p : DevPanic)
  | noStart | noColon | noFs
  deriving DecidableEq

def checked {α : Type} : Except StrtokFault α → Except Fault α := Except.mapError .wild

def vfsGetcurdir (x : State) : Except Errno Cwd :=
  match x.tCwd with
  | none => .error .enoent
  | some cwd => .ok cwd

section Model

variable (W : Range)

def specialChar (c : Byte) : Bool := c = 0 || c = colon || c = slash

/-- The string at an address, as its readers see it. -/
def stringAt (m : Nat → Byte) (p : Nat) : Except StrtokFault CString := do
  let e ← scan W m (· = 0) (W.hi - p + 1) p
  pure ⟨cstr ((List.range (e - p)).map fun i => m (p + i)), fun b hb => by simpa using List.mem_takeWhile_imp hb⟩

/-- Both loops that skip slashes. -/
def skipFrom (m : Nat → Byte) (p : Nat) : Except StrtokFault Nat := scan W m (· ≠ slash) (W.hi - p + 1) p

/-- The reply, with the subpath and the vnode, and the memory. -/
abbrev Reply := Except Fault (Except Errno (Nat × StartVn) × (Nat → Byte))

/-- `device:path`. -/
def devicePath (x : State) (m : Nat → Byte) (path colonAt : Nat) : Reply := do
  let m ← checked (storeNul W m (path + colonAt))
  let subpath ← checked (skipFrom W m (path + colonAt + 1))
  let devname ← checked (stringAt W m path)
  let result ← (vfsGetroot devname x.knowndevs).mapError .getroot
  pure (result.map fun r => (subpath, ofRoot r), m)

/-- `/path` or `:path`. -/
def rootPath (x : State) (m : Nat → Byte) (path : Nat) : Reply := do
  let first ← checked (load W m path)
  if first = slash then
    match x.bootfsVnode with
    | none => pure (.error .enoent, m)
    | some vn => do
      let subpath ← checked (skipFrom W m (path + 1))
      pure (.ok (subpath, .vnode vn), m)
  else if first = colon then
    match vfsGetcurdir x with
    | .error e => pure (.error e, m)
    | .ok vn =>
      match vn.vnFs with
      | none => throw .noFs
      | some fs => do
        let subpath ← checked (skipFrom W m (path + 1))
        pure (.ok (subpath, .root fs), m)
  else throw .noColon

def getdevice (x : State) (m : Nat → Byte) (path : Nat) : Reply := do
  let i ← checked (scan W m specialChar (W.hi - path + 1) path)
  let c ← checked (load W m i)
  let colonAt := if c = colon then some (i - path) else none
  let slashAt := if c = slash then some (i - path) else none
  if colonAt = none ∧ slashAt ≠ some 0 then
    pure ((vfsGetcurdir x).map fun cwd => (path, .vnode cwd.vn), m)
  else
    match colonAt with
    | some (k + 1) => devicePath W x m path (k + 1)
    | _ => if colonAt = some 0 ∨ slashAt = some 0 then rootPath W x m path else throw .noStart

end Model

/-- What `getdevice` is for: the vnode that a path starts from. -/
def startOf (x : State) : PathStart → Except Fault (Except Errno StartVn)
  | .curdir => .ok ((vfsGetcurdir x).map fun cwd => .vnode cwd.vn)
  | .device name => do
    let result ← (vfsGetroot name x.knowndevs).mapError .getroot
    pure (result.map ofRoot)
  | .bootfs => .ok (match x.bootfsVnode with
    | none => .error .enoent
    | some vn => .ok (.vnode vn))
  | .curfs =>
    match x.tCwd with
    | none => .ok (.error .enoent)
    | some cwd =>
      match cwd.vnFs with
      | none => .error .noFs
      | some fs => .ok (.ok (.root fs))

/-- The reply of `getdevice` for a vnode to start from. -/
def reply (start : Except Fault (Except Errno StartVn)) (subpath : Nat) (m : Nat → Byte) : Reply :=
  start.map fun r => (r.map fun vn => (subpath, vn), m)

@[simp] theorem checked_ok {α : Type} (v : α) : checked (.ok v) = .ok v := rfl

/-! ## The scans -/

theorem specialChar_iff {c : Byte} (hc : c ≠ 0) : specialChar c = true ↔ c = colon ∨ c = slash := by
  rw [specialChar, decide_eq_false hc]
  simp

/-- The first special character of a string. -/
structure Cut (l a b : List Byte) : Prop where
  eq : l = a ++ b
  plain : ∀ c ∈ a, specialChar c = false
  special : ∀ c, b.head? = some c → c = colon ∨ c = slash

theorem exists_cut {l : List Byte} (hl : ∀ c ∈ l, c ≠ 0) : ∃ a b, Cut l a b := by
  refine ⟨l.takeWhile fun c => !specialChar c, l.dropWhile fun c => !specialChar c, ?_, ?_, ?_⟩
  · exact (List.takeWhile_append_dropWhile).symm
  · intro c hc
    simpa using List.mem_takeWhile_imp hc
  · intro c hc
    have hspecial := List.head?_dropWhile_not (fun c => !specialChar c) l
    have hne : c ≠ 0 := hl c ((List.dropWhile_suffix _).subset (List.mem_of_head? hc))
    rw [hc] at hspecial
    exact (specialChar_iff hne).1 (by simpa using hspecial)

section Scans

variable {W : Range} {m : Nat → Byte} {p : Nat} {l a b : List Byte}

/-- The scan ends at the first special character, or at the NUL. -/
theorem scan_specialChar (h : StrAt m p l) (hW : W.Holds p l) (hcut : Cut l a b) :
    scan W m specialChar (W.hi - p + 1) p = .ok (p + a.length) ∧ load W m (p + a.length) = .ok (b.head?.getD 0) := by
  obtain ⟨hlo, hhi⟩ := hW
  have hlen : a.length ≤ l.length := by rw [hcut.eq, List.length_append]; omega
  have hnone : b.takeWhile (fun c => !specialChar c) = [] := by
    cases b with
    | nil => rfl
    | cons c b =>
      have hne : c ≠ 0 := h.ne_zero c (by simp [hcut.eq])
      rw [List.takeWhile_cons, (specialChar_iff hne).2 (hcut.special c rfl)]
      rfl
  have htake : l.takeWhile (fun c => !specialChar c) = a := by
    rw [hcut.eq, List.takeWhile_append_of_pos (by simpa using hcut.plain), hnone, List.append_nil]
  have hscan : scan W m specialChar (W.hi - p + 1) p = _ :=
    Libc.scan_eq (f := fun c => !specialChar c) h ⟨hlo, hhi⟩ rfl (by simp) (by omega)
  have hdrop := (h.drop hlen).head
  rw [hcut.eq, List.drop_left] at hdrop
  rw [htake] at hscan
  refine ⟨hscan, ?_⟩
  rw [Libc.load_eq ⟨by omega, by omega⟩, hdrop]

theorem skipFrom_eq {s : List Byte} (h : StrAt m p s) (hW : W.Holds p s) :
    skipFrom W m p = .ok (p + (s.takeWhile (· = slash)).length) ∧
      StrAt m (p + (s.takeWhile (· = slash)).length) (s.dropWhile (· = slash)) := by
  obtain ⟨hlo, hhi⟩ := hW
  constructor
  · exact Libc.scan_eq h ⟨hlo, hhi⟩ (by decide) (by simp) (by omega)
  · rw [← Libc.drop_length_takeWhile]
    exact h.drop (List.takeWhile_prefix _).length_le

theorem map_range_strAt (h : StrAt m p l) : ((List.range l.length).map fun i => m (p + i)) = l := by
  induction l generalizing p with
  | nil => rfl
  | cons c l ih =>
    rw [List.length_cons, List.range_succ_eq_map, List.map_cons, List.map_map]
    refine congrArg₂ List.cons h.1 (Eq.trans (List.map_congr_left fun i _ => ?_) (ih h.2.2))
    rw [Function.comp_apply, Nat.succ_eq_add_one, Nat.add_comm i, Nat.add_assoc]

theorem stringAt_eq (h : StrAt m p l) (hW : W.Holds p l) : stringAt W m p = .ok ⟨l, h.ne_zero⟩ := by
  obtain ⟨hlo, hhi⟩ := hW
  have hall : l.takeWhile (· ≠ 0) = l := by
    rw [List.takeWhile_eq_self_iff]
    simpa using h.ne_zero
  have hscan : scan W m (· = 0) (W.hi - p + 1) p = .ok (p + (l.takeWhile (· ≠ 0)).length) :=
    Libc.scan_eq h ⟨hlo, hhi⟩ rfl (by simp) (by omega)
  rw [hall] at hscan
  simp only [stringAt, hscan, bind, Except.bind, pure, Except.pure, Nat.add_sub_cancel_left, map_range_strAt h, cstr]
  congr

end Scans

/-! ## The four kinds of paths -/

section Kinds

variable (x : State) {m : Nat → Byte} {p : Nat} {s : List Byte}

theorem reply_curdir (p : Nat) (m : Nat → Byte) :
    reply (startOf x .curdir) p m = .ok ((vfsGetcurdir x).map fun cwd => (p, .vnode cwd.vn), m) := by
  unfold startOf
  cases vfsGetcurdir x <;> rfl

/-- Where `getdevice` goes on, once it has found the first special character. -/
theorem getdevice_eq {l a b : List Byte} (h : StrAt m p l) (hcut : Cut l a b) :
    getdevice (Libc.strRange p l) x m p =
      match b.head? with
      | none => reply (startOf x .curdir) p m
      | some c =>
        if c = colon then
          if a = [] then rootPath (Libc.strRange p l) x m p else devicePath (Libc.strRange p l) x m p a.length
        else if a = [] then rootPath (Libc.strRange p l) x m p
        else reply (startOf x .curdir) p m := by
  obtain ⟨hscan, hload⟩ := scan_specialChar h (Libc.strRange_holds p l) hcut
  generalize Libc.strRange p l = W at hscan hload
  simp only [getdevice, hscan, hload, checked_ok, bind, Except.bind, Nat.add_sub_cancel_left, reply_curdir]
  cases b with
  | nil => rfl
  | cons c b =>
    have hchars : slash ≠ colon := by decide
    obtain rfl | rfl := hcut.special c rfl
    · cases a <;> simp
    · cases a <;> simp [hchars, pure, Except.pure]

theorem devicePath_eq {a s : List Byte} (h : StrAt m p (a ++ colon :: s)) :
    ∃ name subpath m', name.bytes = a ∧ StrAt m' subpath (s.dropWhile (· = slash)) ∧
      devicePath (Libc.strRange p (a ++ colon :: s)) x m p a.length = reply (startOf x (.device name)) subpath m' := by
  have hW := Libc.strRange_holds p (a ++ colon :: s)
  generalize Libc.strRange p (a ++ colon :: s) = W at hW
  obtain ⟨hlo, hhi⟩ := hW
  rw [List.length_append, List.length_cons] at hhi
  have hname : StrAt (Function.update m (p + a.length) 0) p a := by
    have hcut := h.cut (k := a.length) (by simp) (Function.update_self (p + a.length) 0 m)
      fun q _ hq => Function.update_of_ne (by omega) 0 m
    rwa [List.take_left] at hcut
  have hrest : StrAt (Function.update m (p + a.length) 0) (p + a.length + 1) s := by
    have hdrop := h.drop (k := a.length + 1) (by simp)
    have hs : (a ++ colon :: s).drop (a.length + 1) = s := by simp
    rw [hs] at hdrop
    exact hdrop.congr fun q hq _ => Function.update_of_ne (by omega) 0 m
  have hstore : storeNul W m (p + a.length) = .ok (Function.update m (p + a.length) 0) := if_pos ⟨by omega, by omega⟩
  obtain ⟨hskip, hsub⟩ := skipFrom_eq (W := W) hrest ⟨by omega, by omega⟩
  have hstring := stringAt_eq (W := W) hname ⟨hlo, by omega⟩
  refine ⟨⟨a, hname.ne_zero⟩, _, _, rfl, hsub, ?_⟩
  simp only [devicePath, hstore, hskip, hstring, checked_ok, bind, Except.bind, startOf]
  cases vfsGetroot ⟨a, hname.ne_zero⟩ x.knowndevs with
  | error e => rfl
  | ok r => cases r <;> rfl

/-- The first character of the path and the subpath behind it. -/
theorem rootPath_reads {c : Byte} (h : StrAt m p (c :: s)) : ∃ subpath, StrAt m subpath (s.dropWhile (· = slash)) ∧
    load (Libc.strRange p (c :: s)) m p = .ok c ∧ skipFrom (Libc.strRange p (c :: s)) m (p + 1) = .ok subpath := by
  have hW := Libc.strRange_holds p (c :: s)
  generalize Libc.strRange p (c :: s) = W at hW
  obtain ⟨hlo, hhi⟩ := hW
  rw [List.length_cons] at hhi
  obtain ⟨hskip, hsub⟩ := skipFrom_eq (W := W) h.2.2 ⟨by omega, by omega⟩
  exact ⟨_, hsub, by rw [Libc.load_eq ⟨by omega, by omega⟩, h.1], hskip⟩

theorem rootPath_curfs (h : StrAt m p (colon :: s)) : ∃ subpath, StrAt m subpath (s.dropWhile (· = slash)) ∧
    rootPath (Libc.strRange p (colon :: s)) x m p = reply (startOf x .curfs) subpath m := by
  obtain ⟨subpath, hsub, hfirst, hskip⟩ := rootPath_reads h
  refine ⟨_, hsub, ?_⟩
  have hchars : colon ≠ slash := by decide
  simp only [rootPath, hfirst, hskip, checked_ok, bind, Except.bind, if_neg hchars, if_true, startOf, vfsGetcurdir]
  cases hcwd : x.tCwd with
  | none => rfl
  | some cwd =>
    cases hfs : cwd.vnFs with
    | none | some fs => simp [hfs, reply]; rfl

theorem rootPath_bootfs (h : StrAt m p (slash :: s)) : ∃ subpath, StrAt m subpath (s.dropWhile (· = slash)) ∧
    rootPath (Libc.strRange p (slash :: s)) x m p = reply (startOf x .bootfs) subpath m := by
  obtain ⟨subpath, hsub, hfirst, hskip⟩ := rootPath_reads h
  refine ⟨_, hsub, ?_⟩
  simp only [rootPath, hfirst, hskip, checked_ok, bind, Except.bind, if_true, startOf]
  cases x.bootfsVnode <;> rfl

end Kinds

/-! ## Agreement with the string function -/

section Split

variable {path : CString} {a b : List Byte}

theorem splitPath_eq (h : Cut path.bytes a b) :
    splitPath path =
      match b.head? with
      | none => (.curdir, path)
      | some c =>
        if c = colon then
          if a = [] then (.curfs, skipSlashes (path.drop 1))
          else (.device (path.take a.length), skipSlashes (path.drop (a.length + 1)))
        else if a = [] then (.bootfs, skipSlashes (path.drop 1))
        else (.curdir, path) := by
  have hnone : ¬∃ c ∈ a, decide (c = colon ∨ c = slash) = true := by
    rintro ⟨c, hc, hspecial⟩
    have := h.plain c hc
    simp_all [specialChar]
  have hidx : b.findIdx (fun c => decide (c = colon ∨ c = slash)) = 0 := by
    cases b with
    | nil => rfl
    | cons c b => rw [List.findIdx_cons, decide_eq_true (h.special c rfl)]; rfl
  have hfind : path.bytes.findIdx (fun c => decide (c = colon ∨ c = slash)) = a.length := by
    rw [h.eq, List.findIdx_append, if_neg (mt List.findIdx_lt_length.1 hnone), hidx, Nat.zero_add]
  have hget : path.bytes[a.length]? = b.head? := by
    rw [h.eq, List.getElem?_append_right (Nat.le_refl _), Nat.sub_self, List.head?_eq_getElem?]
  unfold splitPath
  simp only [hfind, hget]
  cases b.head? with
  | none => rfl
  | some c => cases a <;> simp

variable {d r : CString}

theorem dropWhile_slashes (hr : r.bytes.head? ≠ some slash) (k : Nat) :
    (List.replicate k slash ++ r.bytes).dropWhile (· = slash) = r.bytes := by
  rw [List.dropWhile_append_of_pos fun c hc => decide_eq_true (List.eq_of_mem_replicate hc)]
  cases hb : r.bytes with
  | nil => rfl
  | cons c s =>
    have hc : c ≠ slash := by
      intro hc
      rw [hb, hc] at hr
      exact hr rfl
    rw [List.dropWhile_cons, decide_eq_false hc]
    rfl

theorem skipSlashes_drop (hr : r.bytes.head? ≠ some slash) {c : Byte} {k n : Nat}
    (hpath : path.bytes = a ++ c :: (List.replicate k slash ++ r.bytes)) (hn : n = a.length + 1) :
    skipSlashes (path.drop n) = r := by
  apply CString.ext
  have hdrop : (path.drop n).bytes = List.replicate k slash ++ r.bytes := by simp [CString.drop, hpath, hn]
  exact (congrArg (List.dropWhile (· = slash)) hdrop).trans (dropWhile_slashes hr k)

theorem splitPath_device (hd : d.bytes ≠ []) (hcolon : colon ∉ d.bytes) (hslash : slash ∉ d.bytes)
    (hr : r.bytes.head? ≠ some slash) {k : Nat}
    (hpath : path.bytes = d.bytes ++ colon :: (List.replicate k slash ++ r.bytes)) :
    splitPath path = (.device d, r) := by
  have hcut : Cut path.bytes d.bytes (colon :: (List.replicate k slash ++ r.bytes)) := by
    refine ⟨hpath, fun c hc => ?_, fun c hc => .inl (Option.some_inj.1 hc).symm⟩
    rw [← Bool.not_eq_true, specialChar_iff (d.noNul c hc)]
    rintro (rfl | rfl)
    · exact hcolon hc
    · exact hslash hc
  have hname : path.take d.bytes.length = d := CString.ext (by simp [CString.take, hpath])
  simp only [splitPath_eq hcut, List.head?_cons, if_true, if_neg hd, hname, skipSlashes_drop hr hpath rfl]

theorem splitPath_curfs (hr : r.bytes.head? ≠ some slash) {k : Nat}
    (hpath : path.bytes = colon :: (List.replicate k slash ++ r.bytes)) : splitPath path = (.curfs, r) := by
  have hcut : Cut path.bytes [] (colon :: (List.replicate k slash ++ r.bytes)) :=
    ⟨hpath, by simp, fun c hc => .inl (Option.some_inj.1 hc).symm⟩
  have hskip : skipSlashes (path.drop 1) = r := skipSlashes_drop (a := []) hr hpath rfl
  simp only [splitPath_eq hcut, List.head?_cons, if_true, hskip]

theorem splitPath_bootfs (hr : r.bytes.head? ≠ some slash) {k : Nat}
    (hpath : path.bytes = slash :: (List.replicate k slash ++ r.bytes)) : splitPath path = (.bootfs, r) := by
  have hcut : Cut path.bytes [] (slash :: (List.replicate k slash ++ r.bytes)) :=
    ⟨hpath, by simp, fun c hc => .inr (Option.some_inj.1 hc).symm⟩
  have hchars : slash ≠ colon := by decide
  have hskip : skipSlashes (path.drop 1) = r := skipSlashes_drop (a := []) hr hpath rfl
  simp only [splitPath_eq hcut, List.head?_cons, if_true, if_neg hchars, hskip]

/-- The first character is no slash, and every colon has a slash in front of it. -/
theorem splitPath_curdir (hfirst : path.bytes.head? ≠ some slash)
    (hcolon : ∀ l l', path.bytes = l ++ colon :: l' → slash ∈ l) : splitPath path = (.curdir, path) := by
  obtain ⟨a, b, hcut⟩ := exists_cut path.noNul
  rw [splitPath_eq hcut]
  cases b with
  | nil => rfl
  | cons c s =>
    have hc : c ≠ colon := by
      rintro rfl
      have := hcut.plain slash (hcolon a s hcut.eq)
      revert this
      decide
    have ha : a ≠ [] := by
      rintro rfl
      rw [hcut.eq, (hcut.special c rfl).resolve_left hc] at hfirst
      exact hfirst rfl
    simp only [List.head?_cons, if_neg hc, if_neg ha]

end Split

/-- On a path in memory, `getdevice` does what `splitPath` does with the string. It stays within the
string and its NUL. -/
theorem getdevice_splitPath (x : State) {m : Nat → Byte} {p : Nat} {path : CString} (h : StrAt m p path.bytes) :
    ∃ subpath m', StrAt m' subpath (splitPath path).2.bytes ∧ ((splitPath path).1 = .curdir → subpath = p) ∧
      getdevice (Libc.strRange p path.bytes) x m p = reply (startOf x (splitPath path).1) subpath m' := by
  obtain ⟨a, b, hcut⟩ := exists_cut path.noNul
  rw [getdevice_eq x h hcut, splitPath_eq hcut]
  cases b with
  | nil => exact ⟨p, m, h, fun _ => rfl, rfl⟩
  | cons c s =>
    have hdrop : ∀ n, n = a.length + 1 → (skipSlashes (path.drop n)).bytes = s.dropWhile (· = slash) := by
      rintro _ rfl
      simp [skipSlashes, CString.drop, hcut.eq]
    have hchars : slash ≠ colon := by decide
    have heq := hcut.eq
    by_cases ha : a = []
    · rw [ha, List.nil_append] at heq
      rw [heq] at h ⊢
      obtain rfl | rfl := hcut.special c rfl
      · obtain ⟨subpath, hsub, hroot⟩ := rootPath_curfs x h
        simp only [List.head?_cons, if_true, if_pos ha]
        exact ⟨subpath, m, by rwa [hdrop 1 (by rw [ha]; rfl)], by simp, hroot⟩
      · obtain ⟨subpath, hsub, hroot⟩ := rootPath_bootfs x h
        simp only [List.head?_cons, if_neg hchars, if_pos ha]
        exact ⟨subpath, m, by rwa [hdrop 1 (by rw [ha]; rfl)], by simp, hroot⟩
    · obtain rfl | rfl := hcut.special c rfl
      · simp only [List.head?_cons, if_true, if_neg ha]
        rw [heq] at h ⊢
        obtain ⟨name, subpath, m', hname, hsub, hdev⟩ := devicePath_eq x h
        have htake : path.take a.length = name := CString.ext (by simp [CString.take, heq, hname])
        exact ⟨subpath, m', by rwa [hdrop _ rfl], by simp, by rwa [htake]⟩
      · simp only [List.head?_cons, if_neg hchars, if_neg ha]
        exact ⟨p, m, h, fun _ => rfl, rfl⟩

theorem reply_not_wild (x : State) (start : PathStart) (subpath : Nat) (m : Nat → Byte) (f : StrtokFault) :
    reply (startOf x start) subpath m ≠ .error (.wild f) := by
  intro h
  cases start with
  | curdir | bootfs => cases h
  | device name => cases hroot : vfsGetroot name x.knowndevs <;> rw [startOf, hroot] at h <;> cases h
  | curfs =>
    cases hcwd : x.tCwd with
    | none =>
      simp only [startOf, hcwd] at h
      cases h
    | some cwd => cases hfs : cwd.vnFs <;> simp only [startOf, hcwd, hfs] at h <;> cases h

/-- However many slashes follow the device name, the colon or the leading slash, they do not matter.
All other paths are passed on as they are, and no path is read beyond its NUL. -/
theorem getdevice_normalises (x : State) (path : CString) {m : Nat → Byte} {p : Nat} (h : StrAt m p path.bytes) :
    (∀ (d r : CString) (k : Nat), d.bytes ≠ [] → colon ∉ d.bytes → slash ∉ d.bytes → r.bytes.head? ≠ some slash →
      path.bytes = d.bytes ++ colon :: (List.replicate k slash ++ r.bytes) →
      ∃ subpath m', StrAt m' subpath r.bytes ∧
        getdevice (Libc.strRange p path.bytes) x m p = (do
          let result ← (vfsGetroot d x.knowndevs).mapError .getroot
          pure (result.map fun v => (subpath, ofRoot v), m'))) ∧
    (∀ (r : CString) (k vn : Nat) (fs : Fs), r.bytes.head? ≠ some slash →
      path.bytes = colon :: (List.replicate k slash ++ r.bytes) → x.tCwd = some ⟨vn, some fs⟩ →
      ∃ subpath m', StrAt m' subpath r.bytes ∧
        getdevice (Libc.strRange p path.bytes) x m p = .ok (.ok (subpath, .root fs), m')) ∧
    (∀ (r : CString) (k : Nat), r.bytes.head? ≠ some slash →
      path.bytes = List.replicate (k + 1) slash ++ r.bytes →
      ∃ subpath m', StrAt m' subpath r.bytes ∧
        getdevice (Libc.strRange p path.bytes) x m p = .ok ((match x.bootfsVnode with
          | none => .error .enoent
          | some vn => .ok (subpath, .vnode vn)), m')) ∧
    (path.bytes.head? ≠ some slash → (∀ l l', path.bytes = l ++ colon :: l' → slash ∈ l) →
      ∃ m', StrAt m' p path.bytes ∧
        getdevice (Libc.strRange p path.bytes) x m p =
          .ok ((vfsGetcurdir x).map fun cwd => (p, .vnode cwd.vn), m')) ∧
    ∀ f, getdevice (Libc.strRange p path.bytes) x m p ≠ .error (.wild f) := by
  obtain ⟨subpath, m', hsub, hwhole, hget⟩ := getdevice_splitPath x h
  refine ⟨?_, ?_, ?_, ?_, ?_⟩
  · intro d r k hd hcolon hslash hr hpath
    rw [splitPath_device hd hcolon hslash hr hpath] at hsub hget
    refine ⟨subpath, m', hsub, hget.trans ?_⟩
    simp only [startOf]
    cases vfsGetroot d x.knowndevs with
    | error e => rfl
    | ok result => cases result <;> rfl
  · intro r k vn fs hr hpath hcwd
    rw [splitPath_curfs hr hpath] at hsub hget
    refine ⟨subpath, m', hsub, hget.trans ?_⟩
    simp only [startOf, hcwd]
    rfl
  · intro r k hr hpath
    rw [splitPath_bootfs hr hpath] at hsub hget
    refine ⟨subpath, m', hsub, hget.trans ?_⟩
    simp only [startOf]
    cases x.bootfsVnode <;> rfl
  · intro hfirst hcolon
    rw [splitPath_curdir hfirst hcolon] at hsub hwhole hget
    rw [hwhole rfl] at hsub hget
    exact ⟨m', hsub, hget.trans (reply_curdir x p m')⟩
  · intro f
    rw [hget]
    exact reply_not_wild x _ subpath m' f

/-- The device `a` without a file system, and no current directory. -/
def sampleState : State := ⟨[⟨nameA, none, some 0, 10, none⟩], none, some 7⟩

/-- `a://b` in memory, from address 0 on. -/
def samplePath : CString := ⟨[97, 58, 47, 47, 98], by decide⟩

theorem getdevice_samplePath : ∃ subpath m', StrAt m' subpath [98] ∧
    getdevice (Libc.strRange 0 samplePath.bytes) sampleState (fun i => samplePath.bytes.getD i 0) 0 =
      .ok (.ok (subpath, .vnode 10), m') :=
  (getdevice_normalises sampleState samplePath (m := fun i => samplePath.bytes.getD i 0) (p := 0)
    (by simp [StrAt, samplePath])).1 nameA ⟨[98], by decide⟩ 2 (by decide) (by decide) (by decide) (by decide) rfl

end Os161.Getdevice
