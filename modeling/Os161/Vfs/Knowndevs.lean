import Os161.Vfs.Path

/-!
# The table of known devices

`vfslist.c`: devices and file systems by name. A device has a name, and a raw name if a file system
can be mounted on it; a file system has the name of its volume. Adding a device compares its names
with all names in the table, but mounting a file system does not look at the name of its volume. As
long as no volume comes with a name of another entry, the names are unambiguous.
-/
namespace Os161.Knowndevs

open Lib Kern Sfs Prog

/-! ## The functions -/

/-- A file system, and what `FSOP_GETVOLNAME` says of it. -/
structure Fs where
  addr : Nat
  volname : Option CString
  deriving DecidableEq

structure Knowndev where
  kdName : CString
  kdRawname : Option CString
  kdDevice : Option Nat
  kdVnode : Nat
  kdFs : Option Fs

inductive DevPanic where
  | getrootFs | getrootRawname | getrootDevice
  | mountDevice | unmountDevice
  deriving DecidableEq, Repr

abbrev DevM := Prog DevPanic Errno (List Knowndev)

/-- What `vfs_getroot` hands back: the root of a file system, or a device. -/
inductive Root where
  | root (fs : Fs)
  | device (vnode : Nat)
  deriving DecidableEq

/-- The tests that `vfs_getroot` makes on one entry. -/
def Knowndev.getroot (kd : Knowndev) (devname : CString) : Option (Except DevPanic (Except Errno Root)) :=
  let device : Except DevPanic (Except Errno Root) :=
    if kd.kdDevice = none then .error .getrootDevice else .ok (.ok (.device kd.kdVnode))
  let rest : Option (Except DevPanic (Except Errno Root)) :=
    if kd.kdName = devname then
      if kd.kdFs ≠ none then some (.error .getrootFs)
      else if kd.kdRawname ≠ none then some (.error .getrootRawname)
      else some device
    else if kd.kdRawname = some devname then some device
    else none
  match kd.kdFs with
  | some fs => if kd.kdName = devname ∨ fs.volname = some devname then some (.ok (.ok (.root fs))) else rest
  | none => if kd.kdRawname ≠ none ∧ kd.kdName = devname then some (.ok (.error .enxio)) else rest

def vfsGetroot (devname : CString) (knowndevs : List Knowndev) : Except DevPanic (Except Errno Root) :=
  (knowndevs.findSome? (·.getroot devname)).getD (.ok (.error .enodev))

def mkrawname (name : CString) : CString :=
  ⟨name.bytes ++ [114, 97, 119], fun b hb => by
    rcases List.mem_append.1 hb with hb | hb
    · exact name.noNul b hb
    · rintro rfl
      simp at hb⟩

def samestring : Option CString → Option CString → Bool
  | some a, some b => a = b
  | _, _ => false

def samestring3 (a b c d : Option CString) : Bool := samestring a b || samestring a c || samestring a d

def badnames (n1 n2 n3 : Option CString) (knowndevs : List Knowndev) : Bool :=
  knowndevs.any fun kd =>
    (match kd.kdFs with
      | some fs => samestring3 fs.volname n1 n2 n3
      | none => false) ||
    (samestring3 kd.kdRawname n1 n2 n3 || samestring3 (some kd.kdName) n1 n2 n3)

/-- `vnode` is the new vnode for the device, if there is memory for all that comes before the table.
-/
def vfsDoadd (dname : CString) (mountable : Bool) (dev : Option Nat) (fs : Option Fs)
    (vnode : Option Nat) (arrayAdd : Bool) : DevM Unit :=
  match vnode with
  | none => Prog.raise .enomem
  | some vnode => do
    let rawname := if mountable then some (mkrawname dname) else none
    let knowndevs ← Prog.get
    if badnames (some dname) rawname (fs.bind Fs.volname) knowndevs then Prog.raise .eexist
    else if arrayAdd then Prog.modify (· ++ [⟨dname, rawname, dev, vnode, fs⟩])
    else Prog.raise .enomem

def vfsAdddev (devname : CString) (dev : Nat) (mountable : Bool) : Option Nat → Bool → DevM Unit :=
  vfsDoadd devname mountable (some dev) none

def vfsAddfs (devname : CString) (fs : Fs) : Option Nat → Bool → DevM Unit :=
  vfsDoadd devname false none (some fs)

/-- The first mountable device with the name. -/
def findmount (devname : CString) (knowndevs : List Knowndev) : Option Nat :=
  knowndevs.findIdx? fun kd => kd.kdRawname.isSome && decide (kd.kdName = devname)

/-- Continue with the mountable device of the name. -/
def withMount (devname : CString) (f : Nat → Knowndev → DevM Unit) : DevM Unit := do
  let knowndevs ← Prog.get
  match findmount devname knowndevs with
  | none => Prog.raise .enodev
  | some i =>
    match knowndevs[i]? with
    | none => Prog.raise .enodev
    | some kd => f i kd

def setFs (i : Nat) (fs : Option Fs) (knowndevs : List Knowndev) : List Knowndev :=
  knowndevs.modify i fun kd => { kd with kdFs := fs }

def vfsMount (devname : CString) (mountfunc : Nat → Except Errno Fs) : DevM Unit :=
  withMount devname fun i kd =>
    if kd.kdFs ≠ none then Prog.raise .ebusy
    else
      match kd.kdDevice with
      | none => Prog.stop .mountDevice
      | some device =>
        match mountfunc device with
        | .error e => Prog.raise e
        | .ok fs => Prog.modify (setFs i (some fs))

/-- `sync` and `unmount` are what `FSOP_SYNC` and `FSOP_UNMOUNT` return. -/
def vfsUnmount (devname : CString) (sync unmount : Option Errno) : DevM Unit :=
  withMount devname fun i kd =>
    if kd.kdFs = none then Prog.raise .einval
    else if kd.kdDevice = none then Prog.stop .unmountDevice
    else
      match sync, unmount with
      | some e, _ => Prog.raise e
      | none, some e => Prog.raise e
      | none, none => Prog.modify (setFs i none)

/-- What the file system of a device returns to `vfs_unmountall`: to `FSOP_SYNC`, to the second
`FSOP_SYNC` if there is one, and to `FSOP_UNMOUNT`. -/
structure UnmountReply where
  sync : Option Errno
  again : Option Errno
  unmount : Option Errno

def Knowndev.unmountall (kd : Knowndev) (r : UnmountReply) : Knowndev :=
  if kd.kdRawname = none then kd
  else if kd.kdFs = none then kd
  else if r.sync ≠ none ∧ r.again ≠ none then kd
  else if r.unmount ≠ none then kd
  else { kd with kdFs := none }

def vfsUnmountall (replies : Nat → UnmountReply) : DevM Unit :=
  Prog.modify fun knowndevs => knowndevs.mapIdx fun i kd => kd.unmountall (replies i)

/-! ## Names -/

def Knowndev.names (kd : Knowndev) : List CString :=
  kd.kdName :: (kd.kdRawname.toList ++ (kd.kdFs.bind Fs.volname).toList)

/-- No string is a name of two entries. -/
def Unambiguous (l : List Knowndev) : Prop :=
  ∀ (i j : Nat) (a b : Knowndev) (n : CString), l[i]? = some a → l[j]? = some b →
    n ∈ a.names → n ∈ b.names → i = j

inductive DevCall where
  | adddev (devname : CString) (dev : Nat) (mountable : Bool) (vnode : Option Nat) (arrayAdd : Bool)
  | addfs (devname : CString) (fs : Fs) (vnode : Option Nat) (arrayAdd : Bool)
  | mount (devname : CString) (mountfunc : Nat → Except Errno Fs)
  | unmount (devname : CString) (synced unmounted : Option Errno)
  | unmountall (replies : Nat → UnmountReply)

def DevCall.run : DevCall → DevM Unit
  | .adddev devname dev mountable vnode arrayAdd => vfsAdddev devname dev mountable vnode arrayAdd
  | .addfs devname fs vnode arrayAdd => vfsAddfs devname fs vnode arrayAdd
  | .mount devname mountfunc => vfsMount devname mountfunc
  | .unmount devname synced unmounted => vfsUnmount devname synced unmounted
  | .unmountall replies => vfsUnmountall replies

def DevStep (l : List Knowndev) (e : DevCall × Except Errno Unit) (l' : List Knowndev) : Prop :=
  e.1.run l = .ok (e.2, l')

/-- The entry at index `i` gets a file system whose volume has the name `n`. -/
def DevCall.Names (l : List Knowndev) (i : Nat) (n : CString) : DevCall → Prop
  | .mount devname mountfunc => ∃ kd device fs, findmount devname l = some i ∧ l[i]? = some kd ∧
      kd.kdFs = none ∧ kd.kdDevice = some device ∧ mountfunc device = .ok fs ∧ fs.volname = some n
  | _ => False

/-- A volume that is mounted has no name of another entry. -/
def DevCall.Clear (l : List Knowndev) (c : DevCall) : Prop :=
  ∀ i n, c.Names l i n → ∀ (j : Nat) (kd : Knowndev), l[j]? = some kd → n ∈ kd.names → j = i

/-! ## What the functions do to the names -/

variable {kd : Knowndev}

section Names

variable {l l' : List Knowndev} {n : CString} {c : DevCall} {r : Except Errno Unit}

theorem samestring_iff {a b : Option CString} : samestring a b = true ↔ ∃ n, a = some n ∧ b = some n := by
  cases a <;> cases b <;> simp [samestring, eq_comm]

theorem samestring3_iff {a b c d : Option CString} :
    samestring3 a b c d = true ↔ ∃ n, a = some n ∧ (b = some n ∨ c = some n ∨ d = some n) := by
  simp only [samestring3, Bool.or_eq_true, samestring_iff]
  grind

theorem Knowndev.mem_names :
    n ∈ kd.names ↔ n = kd.kdName ∨ kd.kdRawname = some n ∨ ∃ fs, kd.kdFs = some fs ∧ fs.volname = some n := by
  simp [names, Option.bind_eq_some_iff]

theorem badnames_iff {n1 n2 n3 : Option CString} : badnames n1 n2 n3 l = true ↔
    ∃ kd ∈ l, ∃ n ∈ kd.names, n1 = some n ∨ n2 = some n ∨ n3 = some n := by
  simp only [badnames, List.any_eq_true, Bool.or_eq_true, samestring3_iff, Knowndev.mem_names]
  constructor
  · rintro ⟨kd, hkd, h⟩
    cases hfs : kd.kdFs <;> grind [samestring3_iff]
  · rintro ⟨kd, hkd, n, hn, h⟩
    cases hfs : kd.kdFs <;> grind [samestring3_iff]

theorem Unambiguous.of_subset (h : Unambiguous l)
    (hsub : ∀ (i : Nat) (b : Knowndev), l'[i]? = some b → ∃ a, l[i]? = some a ∧ ∀ n ∈ b.names, n ∈ a.names) :
    Unambiguous l' := by
  intro i j a b n hi hj ha hb
  obtain ⟨a', hi', ha'⟩ := hsub i a hi
  obtain ⟨b', hj', hb'⟩ := hsub j b hj
  exact h i j a' b' n hi' hj' (ha' n ha) (hb' n hb)

theorem Unambiguous.append (h : Unambiguous l)
    (hnew : ∀ a ∈ l, ∀ n ∈ a.names, n ∉ kd.names) : Unambiguous (l ++ [kd]) := by
  intro i j a b n hi hj ha hb
  rw [List.getElem?_append] at hi hj
  grind [Unambiguous]

theorem vfsDoadd_spec (h : Unambiguous l) (dname : CString) (mountable : Bool) (dev : Option Nat)
    (fs : Option Fs) (vnode : Option Nat) (arrayAdd : Bool) :
    Sat (fun _ => True) (vfsDoadd dname mountable dev fs vnode arrayAdd) l (fun _ l' => Unambiguous l') := by
  cases vnode with
  | none => exact h
  | some vnode =>
    simp only [vfsDoadd, sat_bind, sat_get, sat_ite, sat_raise, sat_modify]
    generalize (if mountable = true then some (mkrawname dname) else none) = rawname
    split
    · exact h
    next hbad =>
    split
    · refine h.append fun a ha n hn hnew => hbad (badnames_iff.2 ⟨a, ha, n, hn, ?_⟩)
      rw [Knowndev.mem_names] at hnew
      grind
    · exact h

/-- The call goes on with a mountable device of the name, or there is none. -/
theorem sat_withMount {devname : CString} {f : Nat → Knowndev → DevM Unit} {K : DevPanic → Prop}
    {Q : Except Errno Unit → List Knowndev → Prop} (hnone : findmount devname l = none → Q (.error .enodev) l)
    (hsome : ∀ i kd, findmount devname l = some i → l[i]? = some kd → Sat K (f i kd) l Q) :
    Sat K (withMount devname f) l Q := by
  simp only [withMount, sat_bind, sat_get]
  split
  · next hf => exact hnone hf
  next i hf =>
  have hlt : i < l.length := (List.findIdx?_eq_some_iff_getElem.1 hf).1
  rw [List.getElem?_eq_getElem hlt]
  exact hsome i _ hf (List.getElem?_eq_getElem hlt)

theorem getElem?_setFs (i j : Nat) (fs : Option Fs) :
    (setFs i fs l)[j]? = (l[j]?).map fun kd => if i = j then { kd with kdFs := fs } else kd := by
  simp [setFs, List.getElem?_modify]

theorem vfsUnmount_spec (h : Unambiguous l) (devname : CString) (synced unmounted : Option Errno) :
    Sat (fun _ => True) (vfsUnmount devname synced unmounted) l (fun _ l' => Unambiguous l') := by
  refine sat_withMount (fun _ => h) fun i kd _ _ => ?_
  split
  · exact h
  split
  · trivial
  split
  · exact h
  · exact h
  · refine h.of_subset fun j b hj => ?_
    rw [getElem?_setFs] at hj
    obtain ⟨a, ha, rfl⟩ := Option.map_eq_some_iff.1 hj
    refine ⟨a, ha, fun n hn => ?_⟩
    rw [Knowndev.mem_names] at hn ⊢
    grind

theorem Knowndev.names_unmountall {u : UnmountReply} (h : n ∈ (kd.unmountall u).names) :
    n ∈ kd.names := by
  rw [Knowndev.mem_names] at h ⊢
  grind [Knowndev.unmountall]

theorem vfsUnmountall_spec (h : Unambiguous l) (replies : Nat → UnmountReply) :
    Sat (fun _ => True) (vfsUnmountall replies) l (fun _ l' => Unambiguous l') := by
  refine h.of_subset fun j b hj => ?_
  rw [List.getElem?_mapIdx] at hj
  obtain ⟨a, ha, rfl⟩ := Option.map_eq_some_iff.1 hj
  exact ⟨a, ha, fun n hn => Knowndev.names_unmountall hn⟩

/-- A file system is mounted: its volume name is a name of the device's entry from now on. -/
theorem unambiguous_setFs (h : Unambiguous l) {i : Nat} {fs : Fs} (hi : l[i]? = some kd)
    (hfree : kd.kdFs = none) : Unambiguous (setFs i (some fs) l) ↔ ∀ n, fs.volname = some n →
      ∀ (j : Nat) (b : Knowndev), l[j]? = some b → n ∈ b.names → j = i := by
  have hnames (n : CString) : n ∈ ({ kd with kdFs := some fs } : Knowndev).names ↔
      n ∈ kd.names ∨ fs.volname = some n := by
    simp only [Knowndev.mem_names, hfree]
    grind
  have hself : (setFs i (some fs) l)[i]? = some { kd with kdFs := some fs } := by
    simp [getElem?_setFs, hi]
  have hother (j : Nat) (hj : j ≠ i) : (setFs i (some fs) l)[j]? = l[j]? := by
    rw [getElem?_setFs]
    simp [Ne.symm hj]
  constructor
  · intro h' n hn j b hj hb
    by_contra hne
    exact hne (h' j i b _ n ((hother j hne).trans hj) hself hb ((hnames n).2 (.inr hn)))
  · intro hclear j k a b n hj hk ha hb
    by_cases hji : j = i
    · subst hji
      by_cases hkj : k = j
      · exact hkj.symm
      rw [hself] at hj
      obtain rfl := Option.some.inj hj
      rw [hother k hkj] at hk
      obtain ha | ha := (hnames n).1 ha
      · exact h j k kd b n hi hk ha hb
      · exact (hclear n ha k b hk hb).symm
    · rw [hother j hji] at hj
      by_cases hki : k = i
      · subst hki
        rw [hself] at hk
        obtain rfl := Option.some.inj hk
        obtain hb | hb := (hnames n).1 hb
        · exact h j k a kd n hj hi ha hb
        · exact hclear n hb j a hj ha
      · rw [hother k hki] at hk
        exact h j k a b n hj hk ha hb

theorem vfsMount_spec (h : Unambiguous l) (devname : CString) (mountfunc : Nat → Except Errno Fs) :
    Sat (fun _ => True) (vfsMount devname mountfunc) l
      (fun _ l' => Unambiguous l' ↔ (DevCall.mount devname mountfunc).Clear l) := by
  -- a call that mounts nothing is clear
  have hclear (hno : ∀ i n, ¬ (DevCall.mount devname mountfunc).Names l i n) :
      Unambiguous l ↔ (DevCall.mount devname mountfunc).Clear l :=
    ⟨fun _ i n hn => (hno i n hn).elim, fun _ => h⟩
  refine sat_withMount (fun hf => hclear ?_) fun i kd hf hi => ?_
  · rintro i n ⟨kd, device, fs, hf', -⟩
    simp [hf] at hf'
  split
  · next hfs =>
    refine hclear ?_
    rintro j n ⟨kd', device, fs, hf', hj, hfree, -⟩
    grind
  next hfs =>
  split
  · trivial
  next device hdev =>
  split
  · next hm =>
    refine hclear ?_
    rintro j n ⟨kd', device', fs, hf', hj, -, hdev', hm', -⟩
    grind
  · next fs hm =>
    refine (unambiguous_setFs h hi (not_not.1 hfs)).trans ⟨?_, ?_⟩
    · rintro hc j n ⟨kd', device', fs', hf', hj, -, hdev', hm', hn⟩
      grind
    · intro hc n hn
      exact hc i n ⟨kd, device, fs, hf, hi, not_not.1 hfs, hdev, hm, hn⟩

/-- From unambiguous names a call leads to unambiguous names exactly if it is clear. -/
theorem DevCall.unambiguous_iff (h : Unambiguous l) (hrun : c.run l = .ok (r, l')) : Unambiguous l' ↔ c.Clear l := by
  have quiet (h' : Unambiguous l') (hno : ∀ i n, ¬ c.Names l i n) : Unambiguous l' ↔ c.Clear l :=
    ⟨fun _ i n hn => (hno i n hn).elim, fun _ => h'⟩
  cases c with
  | adddev devname dev mountable vnode arrayAdd =>
    exact quiet ((vfsDoadd_spec h devname mountable (some dev) none vnode arrayAdd).of_ok hrun) fun _ _ => id
  | addfs devname fs vnode arrayAdd =>
    exact quiet ((vfsDoadd_spec h devname false none (some fs) vnode arrayAdd).of_ok hrun) fun _ _ => id
  | mount devname mountfunc => exact (vfsMount_spec h devname mountfunc).of_ok hrun
  | unmount devname synced unmounted =>
    exact quiet ((vfsUnmount_spec h devname synced unmounted).of_ok hrun) fun _ _ => id
  | unmountall replies => exact quiet ((vfsUnmountall_spec h replies).of_ok hrun) fun _ _ => id

/-! ## The order of the devices -/

theorem Knowndev.getroot_eq_none (h : n ∉ kd.names) : kd.getroot n = none := by
  rw [Knowndev.mem_names] at h
  cases hfs : kd.kdFs <;> grind [Knowndev.getroot]

theorem vfsGetroot_perm (h : Unambiguous l) (devname : CString) (p : l'.Perm l) :
    vfsGetroot devname l' = vfsGetroot devname l := by
  have hone : l.Pairwise fun a b => a.getroot devname = none ∨ b.getroot devname = none := by
    rw [List.pairwise_iff_getElem]
    intro i j hi hj hij
    by_contra hne
    have hname (kd : Knowndev) (hkd : kd.getroot devname ≠ none) : devname ∈ kd.names := by
      by_contra hn
      exact hkd (kd.getroot_eq_none hn)
    have := h i j _ _ devname (List.getElem?_eq_getElem hi) (List.getElem?_eq_getElem hj)
      (hname _ fun h => hne (.inl h)) (hname _ fun h => hne (.inr h))
    omega
  rw [vfsGetroot, vfsGetroot, findSome?_perm hone p.symm]

/-- The volume of the path functions is the one entry of the table: the names that lead to its root
directory there are the names of the device and of the volume. -/
theorem vfsGetroot_volume (x : Vfs.VfsState) (devname rawname volname : CString) (dev vnode addr : Nat)
    (hvol : volname.bytes = cstr (List.ofFn x.fs.sfsSuper.spVolname)) :
    vfsGetroot devname [⟨x.kdName, some rawname, some dev, vnode, some ⟨addr, some volname⟩⟩] =
      .ok (.ok (.root ⟨addr, some volname⟩)) ↔ x.Named devname := by
  have hnamed : x.Named devname ↔ x.kdName = devname ∨ volname = devname := by
    rw [Vfs.VfsState.Named, ← hvol, CString.ext_iff, CString.ext_iff]
  rw [hnamed]
  by_cases h : x.kdName = devname ∨ volname = devname
  · simp [vfsGetroot, Knowndev.getroot, h]
  · have hne := not_or.1 h
    by_cases hraw : rawname = devname <;> simp [vfsGetroot, Knowndev.getroot, hne.1, hne.2, hraw]

end Names

/-! ## Whole runs -/

/-- A step that mounts no volume with a name of another entry. -/
def ClearStep (l : List Knowndev) (e : DevCall × Except Errno Unit) (l' : List Knowndev) : Prop :=
  e.1.Clear l ∧ DevStep l e l'

/-- As long as no volume is mounted that has a name of another entry, no string is a name of two
entries, and `vfs_getroot` does not depend on the order of the entries. The first volume that has
such a name makes the names ambiguous. -/
theorem names_unambiguous {l : List Knowndev} {tr : List (DevCall × Except Errno Unit)} (h : Run ClearStep [] tr l) :
    Unambiguous l ∧ (∀ devname l', l'.Perm l → vfsGetroot devname l' = vfsGetroot devname l) ∧
    ∀ e l', DevStep l e l' → (Unambiguous l' ↔ e.1.Clear l) := by
  have hl : Unambiguous l := by
    refine h.invariant (I := Unambiguous) (by simp [Unambiguous]) ?_
    intro l e l' h step
    exact (DevCall.unambiguous_iff h step.2).2 step.1
  exact ⟨hl, fun devname l' p => vfsGetroot_perm hl devname p, fun e l' step => DevCall.unambiguous_iff hl step⟩

/-! ## A volume with the name of a device -/

theorem nameA_noNul : ∀ b ∈ ([97] : List Byte), b ≠ 0 := by decide
theorem nameB_noNul : ∀ b ∈ ([98] : List Byte), b ≠ 0 := by decide

/-- The devices `a` and `b`, both mountable. -/
def nameA : CString := ⟨[97], nameA_noNul⟩
def nameB : CString := ⟨[98], nameB_noNul⟩
def nameV : CString := ⟨[118], by decide⟩
def deviceA : Knowndev := ⟨nameA, some (mkrawname nameA), some 0, 10, none⟩
def deviceB : Knowndev := ⟨nameB, some (mkrawname nameB), some 1, 11, none⟩

theorem run_sampleDevices : Run ClearStep [] [(.adddev nameB 1 true (some 11) true, .ok ()),
    (.adddev nameA 0 true (some 10) true, .ok ())] [deviceA, deviceB] :=
  .step (.step .start ⟨fun _ _ h => h.elim, rfl⟩) ⟨fun _ _ h => h.elim, rfl⟩

/-- The volume on device `a` is called `b`: the name is that of two entries, and what `vfs_getroot`
makes of it depends on their order. -/
theorem mount_ambiguous : ∃ tr l, Run DevStep [] tr l ∧ ¬ Unambiguous l ∧
    vfsGetroot nameB l = .ok (.ok (.root ⟨7, some nameB⟩)) ∧ vfsGetroot nameB l.reverse = .ok (.error .enxio) := by
  have hrun : Run DevStep [] _ [deviceA, deviceB] := run_sampleDevices.mono fun h => h.2
  have hmount : DevStep [deviceA, deviceB] (.mount nameA fun _ => .ok ⟨7, some nameB⟩, .ok ())
      [{ deviceA with kdFs := some ⟨7, some nameB⟩ }, deviceB] := rfl
  refine ⟨_, _, .step hrun hmount, fun h => ?_, rfl, rfl⟩
  exact absurd (h 0 1 _ _ nameB rfl rfl (by decide) (by decide)) (by decide)

/-- A volume with a name of its own. -/
theorem names_unambiguous_sample : Run ClearStep [] [(.mount nameA fun _ => .ok ⟨7, some nameV⟩, .ok ()),
    (.adddev nameB 1 true (some 11) true, .ok ()), (.adddev nameA 0 true (some 10) true, .ok ())]
    [{ deviceA with kdFs := some ⟨7, some nameV⟩ }, deviceB] ∧
    Unambiguous [{ deviceA with kdFs := some ⟨7, some nameV⟩ }, deviceB] := by
  have hclear : DevCall.Clear [deviceA, deviceB] (.mount nameA fun _ => .ok ⟨7, some nameV⟩) := by
    rintro i n ⟨kd, device, fs, -, -, -, -, hfs, hn⟩ j kd' hj hmem
    obtain rfl := Except.ok.inj hfs
    obtain rfl := Option.some.inj hn
    have hkd' : kd' = deviceA ∨ kd' = deviceB := by simpa using List.mem_of_getElem? hj
    exact absurd hmem (by obtain rfl | rfl := hkd' <;> decide)
  have hmount : DevStep [deviceA, deviceB] (.mount nameA fun _ => .ok ⟨7, some nameV⟩, .ok ())
      [{ deviceA with kdFs := some ⟨7, some nameV⟩ }, deviceB] := rfl
  have hrun := run_sampleDevices.step ⟨hclear, hmount⟩
  exact ⟨hrun, (names_unambiguous hrun).1⟩

end Os161.Knowndevs
