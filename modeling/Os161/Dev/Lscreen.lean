import Mathlib.Data.List.Induction
import Os161.Libc.Memmove

/-!
# The full-screen console

`lscreen_newline`, `lscreen_char` and `lscreen_write` of `kern/dev/lamebus/lscreen.c`. The screen is
a block of bytes, row after row. A row that is full is left only when the next character is written,
and at the last row the screen is moved up by one.

What a text looks like is said without the driver: lines end at newlines, a line is broken into rows
of the width of the screen, and the last rows are shown.
-/
namespace Os161.Dev.Lscreen

open Lib Libc

/-- The screen is `width * height` bytes at `lsScreen`. The last field is the device's cursor
register. -/
structure Softc where
  lsWidth : Nat
  lsHeight : Nat
  lsCx : Nat
  lsCy : Nat
  lsScreen : Word
  mem : Word → Byte
  posn : Word
  width_pos : 0 < lsWidth
  width_lt : lsWidth < 2 ^ 32
  height_pos : 0 < lsHeight
  height_lt : lsHeight < 2 ^ 32
  fits : lsScreen.toNat + lsWidth * lsHeight ≤ 2 ^ 32

inductive LscreenFault where
  | wildStore
  deriving DecidableEq, Repr

def Softc.cell (sc : Softc) (i : Nat) : Byte := sc.mem (sc.lsScreen + BitVec.ofNat 32 i)

/-- Something that stores the `n` bytes from index `i` of the screen on. -/
def Softc.store (sc : Softc) (i n : Nat) (f : (Word → Byte) → Word → Byte) : Except LscreenFault Softc :=
  if i + n ≤ sc.lsWidth * sc.lsHeight then .ok { sc with mem := f sc.mem } else .error .wildStore

def lscreenNewline (sc : Softc) : Except LscreenFault Softc :=
  if sc.lsHeight - 1 ≤ sc.lsCy then do
    let rest := sc.lsWidth * (sc.lsHeight - 1)
    let sc ← sc.store 0 rest
      (memmove sc.lsScreen (sc.lsScreen + BitVec.ofNat 32 sc.lsWidth) (BitVec.ofNat 32 rest))
    let sc ← sc.store rest sc.lsWidth (bzero (sc.lsScreen + BitVec.ofNat 32 rest) (BitVec.ofNat 32 sc.lsWidth))
    pure { sc with lsCx := 0 }
  else pure { sc with lsCy := sc.lsCy + 1, lsCx := 0 }

def placeChar (sc : Softc) (ch : Word) : Except LscreenFault Softc := do
  let i := sc.lsCy * sc.lsWidth + sc.lsCx
  let sc ← sc.store i 1 fun m => storeCells m (sc.lsScreen + BitVec.ofNat 32 i) [ch.setWidth 8]
  pure { sc with lsCx := sc.lsCx + 1 }

def lscreenChar (sc : Softc) (ch : Word) : Except LscreenFault Softc :=
  if sc.lsWidth ≤ sc.lsCx then do
    let sc ← lscreenNewline sc
    placeChar sc ch
  else placeChar sc ch

def newline : Word := 10

def mergexy (x y : Word) : Word := (x <<< 16) ||| y

/-- The cursor is shown within the screen. -/
def setPosn (sc : Softc) : Softc :=
  let ccx := if sc.lsCx = sc.lsWidth then sc.lsCx - 1 else sc.lsCx
  { sc with posn := mergexy (BitVec.ofNat 32 ccx) (BitVec.ofNat 32 sc.lsCy) }

def lscreenWrite (sc : Softc) (ch : Word) : Except LscreenFault Softc := do
  let sc ← if ch = newline then lscreenNewline sc else lscreenChar sc ch
  pure (setPosn sc)

def lscreenWrites (sc : Softc) (text : List Word) : Except LscreenFault Softc := text.foldlM lscreenWrite sc

/-! ## What a text looks like -/

variable {l : List Byte} {text : List Word} {y : Nat}

section Text

variable {w h : Nat}

/-- The rows of a line of characters before the last one: each of them is full. -/
def fullRows (w : Nat) (l : List Byte) : List (List Byte) :=
  (List.range ((l.length - 1) / w)).map fun r => (l.drop (r * w)).take w

/-- The last row of a line. It is empty only in an empty line. -/
def lastRow (w : Nat) (l : List Byte) : List Byte := l.drop ((l.length - 1) / w * w)

def breakLine (w : Nat) (l : List Byte) : List (List Byte) := fullRows w l ++ [lastRow w l]

def lines (text : List Word) : List (List Byte) := (text.splitOn newline).map fun l => l.map (·.setWidth 8)

def rows (w : Nat) (text : List Word) : List (List Byte) := (lines text).flatMap (breakLine w)

/-- The last `h` of some rows, from the top of the screen on, with zeros where there is nothing. -/
def shown (h : Nat) (rows : List (List Byte)) (y x : Nat) : Byte :=
  (((rows.drop (rows.length - h))[y]?).getD [])[x]?.getD 0

theorem shown_eq (h : Nat) (rows : List (List Byte)) (y x : Nat) :
    shown h rows y x = ((rows[rows.length - h + y]?).getD [])[x]?.getD 0 := by
  rw [shown, List.getElem?_drop]

/-! ### One more character -/

theorem exists_splitOn_concat {α : Type} [BEq α] (sep : α) (l : List α) : ∃ L k, l.splitOn sep = L ++ [k] :=
  ⟨_, _, (List.dropLast_concat_getLast (List.splitOn_ne_nil sep l)).symm⟩

theorem splitOn_concat {α : Type} [BEq α] [LawfulBEq α] {sep a : α} (ha : a ≠ sep) {l k : List α} {L : List (List α)}
    (hl : l.splitOn sep = L ++ [k]) : (l ++ [a]).splitOn sep = L ++ [k ++ [a]] := by
  have hne : (a == sep) = false := beq_false_of_ne ha
  induction l generalizing L k with
  | nil =>
    obtain ⟨rfl, rfl⟩ : L = [] ∧ k = [] := by cases L <;> simp_all
    simp [List.splitOn_cons_eq_if_modifyHead, hne]
  | cons b l ih =>
    obtain ⟨M, j, hM⟩ := exists_splitOn_concat sep l
    rw [List.splitOn_cons_eq_if_modifyHead, hM] at hl
    rw [List.cons_append, List.splitOn_cons_eq_if_modifyHead, ih hM]
    split
    · next hb =>
      rw [if_pos hb, ← List.cons_append] at hl
      obtain ⟨rfl, hk⟩ := List.append_inj' hl rfl
      obtain rfl := List.singleton_inj.1 hk
      rfl
    · next hb =>
      rw [if_neg hb] at hl
      cases M with
      | nil =>
        have hone : [] ++ [b :: j] = L ++ [k] := hl
        obtain ⟨rfl, hk⟩ := List.append_inj' hone rfl
        obtain rfl := List.singleton_inj.1 hk
        rfl
      | cons m M =>
        have hmany : ((b :: m) :: M) ++ [j] = L ++ [k] := hl
        obtain ⟨rfl, hk⟩ := List.append_inj' hmany rfl
        obtain rfl := List.singleton_inj.1 hk
        rfl

theorem lines_newline (text : List Word) : lines (text ++ [newline]) = lines text ++ [[]] := by
  rw [lines, List.splitOn_append_cons_self, List.splitOn_nil, List.map_append]
  rfl

theorem lines_char {c : Word} {L : List (List Byte)} (hc : c ≠ newline)
    (hl : lines text = L ++ [l]) : lines (text ++ [c]) = L ++ [l ++ [c.setWidth 8]] := by
  obtain ⟨M, k, hM⟩ := exists_splitOn_concat newline text
  rw [lines, hM, List.map_append] at hl
  obtain ⟨rfl, hk⟩ := List.append_inj' hl rfl
  rw [lines, splitOn_concat hc hM, List.map_append]
  simpa using hk

theorem length_lastRow (hl : l ≠ []) : (lastRow w l).length = (l.length - 1) % w + 1 := by
  have hpos := List.length_pos_iff.2 hl
  have hdiv := Nat.div_add_mod' (l.length - 1) w
  rw [lastRow, List.length_drop]
  omega

theorem length_lastRow_le (hw : 0 < w) (l : List Byte) : (lastRow w l).length ≤ w := by
  by_cases hl : l = []
  · simp [hl, lastRow]
  · rw [length_lastRow hl]
    exact Nat.mod_lt _ hw

theorem fullRow_append {k : List Byte} {r : Nat} (hr : r * w + w ≤ l.length) :
    ((l ++ k).drop (r * w)).take w = (l.drop (r * w)).take w := by
  rw [List.drop_append_of_le_length (by omega), List.take_append_of_le_length (by rw [List.length_drop]; omega)]

/-- The rows that a line of some length fills are not changed by what follows. -/
theorem map_fullRow_append {k : List Byte} {n : Nat} (hn : n * w ≤ l.length) :
    (List.range n).map (fun r => ((l ++ k).drop (r * w)).take w) =
      (List.range n).map fun r => (l.drop (r * w)).take w := by
  apply List.map_congr_left
  intro r hr
  have hle : (r + 1) * w ≤ n * w := Nat.mul_le_mul_right w (List.mem_range.1 hr)
  exact fullRow_append (by rw [Nat.succ_mul] at hle; omega)

/-- A character after a full row begins another one. -/
theorem breakLine_full (hw : 0 < w) (hfull : w ≤ (lastRow w l).length) (c : Byte) :
    breakLine w (l ++ [c]) = breakLine w l ++ [[c]] := by
  have hl : l ≠ [] := by
    rintro rfl
    simp [lastRow] at hfull
    omega
  have hpos := List.length_pos_iff.2 hl
  have hdiv := Nat.div_add_mod' (l.length - 1) w
  have hmod := Nat.mod_lt (l.length - 1) hw
  rw [length_lastRow hl] at hfull
  have hlen : l.length = ((l.length - 1) / w + 1) * w := by rw [Nat.succ_mul]; omega
  have hq : l.length / w = (l.length - 1) / w + 1 := by
    conv_lhs => rw [hlen]
    exact Nat.mul_div_cancel _ hw
  have hrow : lastRow w (l ++ [c]) = [c] := by
    rw [lastRow, List.length_append, List.length_singleton, Nat.add_sub_cancel, hq, ← hlen]
    simp
  have hfulls : fullRows w (l ++ [c]) = breakLine w l := by
    rw [fullRows, List.length_append, List.length_singleton, Nat.add_sub_cancel, hq,
      map_fullRow_append (by omega), List.range_succ, List.map_append, breakLine, fullRows, lastRow]
    congr 1
    simp only [List.map_cons, List.map_nil]
    rw [List.take_of_length_le (by rw [List.length_drop]; omega)]
  rw [breakLine, hfulls, hrow]

theorem breakLine_char (hw : 0 < w) (hlt : (lastRow w l).length < w) (c : Byte) :
    breakLine w (l ++ [c]) = fullRows w l ++ [lastRow w l ++ [c]] := by
  have hdiv := Nat.div_add_mod' (l.length - 1) w
  have hq : l.length / w = (l.length - 1) / w := by
    by_cases hl : l = []
    · simp [hl]
    · have hpos := List.length_pos_iff.2 hl
      rw [length_lastRow hl] at hlt
      have hlen : l.length = (l.length - 1) % w + 1 + (l.length - 1) / w * w := by omega
      conv_lhs => rw [hlen]
      rw [Nat.add_mul_div_right _ _ hw, Nat.div_eq_of_lt hlt, Nat.zero_add]
  have hle : (l.length - 1) / w * w ≤ l.length := by omega
  rw [breakLine, fullRows, lastRow, List.length_append, List.length_singleton, Nat.add_sub_cancel, hq,
    map_fullRow_append hle, List.drop_append_of_le_length hle]
  rfl

theorem rows_newline (w : Nat) (text : List Word) : rows w (text ++ [newline]) = rows w text ++ [[]] := by
  rw [rows, lines_newline, List.flatMap_append]
  simp [rows, breakLine, fullRows, lastRow]

/-- The rows of a text end with the row of the cursor, which is the last row of the last line. -/
theorem exists_rows (w : Nat) (text : List Word) :
    ∃ L l, lines text = L ++ [l] ∧ rows w text = L.flatMap (breakLine w) ++ fullRows w l ++ [lastRow w l] := by
  obtain ⟨M, k, hM⟩ := exists_splitOn_concat newline text
  have hlines : lines text = M.map (fun l => l.map (·.setWidth 8)) ++ [k.map (·.setWidth 8)] := by
    rw [lines, hM, List.map_append, List.map_singleton]
  refine ⟨_, _, hlines, ?_⟩
  rw [rows, hlines, List.flatMap_append, List.flatMap_singleton, breakLine, List.append_assoc]

theorem rows_char {c : Word} {above : List (List Byte)} {row : List Byte} (hw : 0 < w)
    (hc : c ≠ newline) (hr : rows w text = above ++ [row]) : rows w (text ++ [c]) =
      if w ≤ row.length then above ++ [row] ++ [[c.setWidth 8]] else above ++ [row ++ [c.setWidth 8]] := by
  obtain ⟨L, l, hlines, hrows⟩ := exists_rows w text
  rw [hrows] at hr
  obtain ⟨rfl, hrow⟩ := List.append_inj' hr rfl
  obtain rfl := List.singleton_inj.1 hrow
  rw [rows, lines_char hc hlines, List.flatMap_append, List.flatMap_singleton]
  split
  · next hfull => rw [breakLine_full hw hfull, breakLine, List.append_assoc, List.append_assoc, List.append_assoc]
  · next hlt => rw [breakLine_char hw (Nat.not_le.1 hlt), List.append_assoc]

theorem row_le {above : List (List Byte)} {row : List Byte} (hw : 0 < w)
    (hr : rows w text = above ++ [row]) : row.length ≤ w := by
  obtain ⟨L, l, -, hrows⟩ := exists_rows w text
  rw [hrows] at hr
  obtain ⟨-, hrow⟩ := List.append_inj' hr rfl
  obtain rfl := List.singleton_inj.1 hrow
  exact length_lastRow_le hw l

theorem shown_cursor (hh : 0 < h) (above : List (List Byte)) (row : List Byte) (x : Nat) :
    shown h (above ++ [row]) (min above.length (h - 1)) x = row[x]?.getD 0 := by
  have hk : (above ++ [row]).length - h + min above.length (h - 1) = above.length := by
    rw [List.length_append, List.length_singleton]
    omega
  rw [shown_eq, hk]
  simp

theorem shown_other (above : List (List Byte)) (hne : y ≠ min above.length (h - 1))
    (row row' : List Byte) (x : Nat) : shown h (above ++ [row]) y x = shown h (above ++ [row']) y x := by
  rw [shown_eq, shown_eq, List.length_append, List.length_append, List.length_singleton, List.length_singleton]
  by_cases hk : above.length + 1 - h + y < above.length
  · rw [List.getElem?_append_left hk, List.getElem?_append_left hk]
  · have hnone (r : List Byte) : (above ++ [r])[above.length + 1 - h + y]? = none := by
      apply List.getElem?_eq_none
      rw [List.length_append, List.length_singleton]
      omega
    rw [hnone, hnone]

/-- While there is room, another row changes nothing. -/
theorem shown_concat_nil {R : List (List Byte)} (hR : R.length < h) (y x : Nat) :
    shown h (R ++ [[]]) y x = shown h R y x := by
  have hzero : (R ++ [[]]).length - h = 0 ∧ R.length - h = 0 := by
    rw [List.length_append, List.length_singleton]
    omega
  rw [shown_eq, shown_eq, hzero.1, hzero.2, Nat.zero_add]
  by_cases hy : y < R.length
  · rw [List.getElem?_append_left hy]
  · rw [List.getElem?_append_right (Nat.not_lt.1 hy), List.getElem?_eq_none (Nat.not_lt.1 hy)]
    cases hs : y - R.length <;> simp

/-- Where there is no room, the rows above it go up by one. -/
theorem shown_concat_up {R : List (List Byte)} (hR : h ≤ R.length) (hy : y + 1 < h) (row : List Byte)
    (x : Nat) : shown h (R ++ [row]) y x = shown h R (y + 1) x := by
  have hk : (R ++ [row]).length - h + y = R.length - h + (y + 1) := by
    rw [List.length_append, List.length_singleton]
    omega
  rw [shown_eq, shown_eq, hk, List.getElem?_append_left (by omega)]

end Text

/-! ## The driver shows it -/

variable {sc t : Softc} {w h : Nat} {above : List (List Byte)} {row : List Byte}

/-- The screen shows the rows above the cursor and the row of the cursor, as far as there is room.
-/
structure Shows (w h : Nat) (sc : Softc) (above : List (List Byte)) (row : List Byte) : Prop where
  width : sc.lsWidth = w
  height : sc.lsHeight = h
  cy : sc.lsCy = min above.length (h - 1)
  cx : sc.lsCx = row.length
  cells : ∀ y < h, ∀ x < w, sc.cell (y * w + x) = shown h (above ++ [row]) y x

/-- Nothing but the screen has changed. -/
structure Frame (sc t : Softc) : Prop where
  width : t.lsWidth = sc.lsWidth
  height : t.lsHeight = sc.lsHeight
  screen : t.lsScreen = sc.lsScreen
  outside : ∀ a, sc.lsWidth * sc.lsHeight ≤ (a - sc.lsScreen).toNat → t.mem a = sc.mem a

theorem Frame.refl (sc : Softc) : Frame sc sc := ⟨rfl, rfl, rfl, fun _ _ => rfl⟩

theorem Frame.trans {u : Softc} (h : Frame sc t) (h' : Frame t u) : Frame sc u where
  width := h'.width.trans h.width
  height := h'.height.trans h.height
  screen := h'.screen.trans h.screen
  outside a ha := by
    refine (h'.outside a ?_).trans (h.outside a ha)
    rwa [h.width, h.height, h.screen]

theorem index_lt {x : Nat} (hy : y < h) (hx : x < w) : y * w + x < w * h := by
  have hle : (y + 1) * w ≤ h * w := Nat.mul_le_mul_right w hy
  rw [Nat.succ_mul] at hle
  rw [Nat.mul_comm w h]
  omega

theorem index_inj {x x' y' : Nat} (hx : x < w) (hx' : x' < w) : y * w + x = y' * w + x' ↔ y = y' ∧ x = x' := by
  constructor
  · intro he
    have hw : 0 < w := by omega
    have hdiv := congrArg (· / w) he
    have hmod := congrArg (· % w) he
    simp only [Nat.mul_comm _ w, Nat.mul_add_div hw, Nat.div_eq_of_lt hx, Nat.div_eq_of_lt hx', Nat.add_zero,
      Nat.mul_add_mod, Nat.mod_eq_of_lt hx, Nat.mod_eq_of_lt hx'] at hdiv hmod
    exact ⟨hdiv, hmod⟩
  · rintro ⟨rfl, rfl⟩
    rfl

/-- Scrolling: the rows go up by one, and the last one is cleared. -/
theorem scroll_cells (sc : Softc) {m : Word → Byte}
    (hm : m = bzero (sc.lsScreen + BitVec.ofNat 32 (sc.lsWidth * (sc.lsHeight - 1))) (BitVec.ofNat 32 sc.lsWidth)
      (memmove sc.lsScreen (sc.lsScreen + BitVec.ofNat 32 sc.lsWidth)
        (BitVec.ofNat 32 (sc.lsWidth * (sc.lsHeight - 1))) sc.mem)) :
    (∀ i < sc.lsWidth * sc.lsHeight, m (sc.lsScreen + BitVec.ofNat 32 i) =
      if i < sc.lsWidth * (sc.lsHeight - 1) then sc.cell (sc.lsWidth + i) else 0) ∧
    ∀ a, sc.lsWidth * sc.lsHeight ≤ (a - sc.lsScreen).toNat → m a = sc.mem a := by
  have hw := sc.width_pos
  have hfits := sc.fits
  have hrest : sc.lsWidth * (sc.lsHeight - 1) + sc.lsWidth = sc.lsWidth * sc.lsHeight := by
    rw [← Nat.mul_succ, Nat.succ_eq_add_one, Nat.sub_add_cancel sc.height_pos]
  unfold Softc.cell
  generalize sc.lsWidth * (sc.lsHeight - 1) = rest at *
  have hwidth : (BitVec.ofNat 32 sc.lsWidth).toNat = sc.lsWidth := by
    rw [BitVec.toNat_ofNat, Nat.mod_eq_of_lt sc.width_lt]
  have hlen : (BitVec.ofNat 32 rest).toNat = rest := by
    rw [BitVec.toNat_ofNat, Nat.mod_eq_of_lt (by omega)]
  have hsrc : (sc.lsScreen + BitVec.ofNat 32 sc.lsWidth).toNat + rest ≤ 2 ^ 32 := by
    by_cases h0 : rest = 0
    · have := (sc.lsScreen + BitVec.ofNat 32 sc.lsWidth).isLt
      omega
    · rw [toNat_add_ofNat _ (by omega)]
      omega
  have hmoved : memmove sc.lsScreen (sc.lsScreen + BitVec.ofNat 32 sc.lsWidth) (BitVec.ofNat 32 rest) sc.mem =
      storeCells sc.mem (sc.lsScreen + BitVec.ofNat 32 0)
        (loadCells sc.mem (sc.lsScreen + BitVec.ofNat 32 sc.lsWidth) rest) := by
    rw [memmove_eq (by omega) (by rwa [hlen]), hlen, BitVec.add_zero]
  rw [hm, bzero_eq, hwidth, hmoved]
  refine ⟨fun i hi => ?_, fun a ha => ?_⟩
  · rw [storeCells_offset _ _ _ (by omega) (by rw [List.length_replicate]; omega) (by omega)]
    by_cases hlt : i < rest
    · rw [if_neg (by omega), if_pos hlt,
        storeCells_offset _ _ _ (by omega) (by rw [length_loadCells]; omega) (by omega), if_pos (Nat.zero_le i)]
      simp [loadCells, hlt, add_ofNat_add]
    · rw [if_pos (by omega), if_neg hlt, List.getElem?_replicate, if_pos (by omega)]
      rfl
  · have hcleared : sc.lsWidth ≤ (a - (sc.lsScreen + BitVec.ofNat 32 rest)).toNat := by
      rw [toNat_sub_add_ofNat _ _ (by omega), if_pos (by omega)]
      omega
    rw [storeCells_of_le (by rwa [List.length_replicate]), BitVec.add_zero, storeCells_of_le]
    rw [length_loadCells]
    omega

theorem place_cells (sc : Softc) (c : Byte) {i : Nat} (hi : i < sc.lsWidth * sc.lsHeight) {m : Word → Byte}
    (hm : m = storeCells sc.mem (sc.lsScreen + BitVec.ofNat 32 i) [c]) :
    (∀ j < sc.lsWidth * sc.lsHeight, m (sc.lsScreen + BitVec.ofNat 32 j) = if j = i then c else sc.cell j) ∧
    ∀ a, sc.lsWidth * sc.lsHeight ≤ (a - sc.lsScreen).toNat → m a = sc.mem a := by
  have hfits := sc.fits
  refine ⟨fun j hj => ?_, fun a ha => ?_⟩
  · rw [hm, storeCells_offset _ _ _ (by omega) (by rw [List.length_singleton]; omega) (by omega)]
    unfold Softc.cell
    by_cases he : j = i
    · simp [he]
    · rw [if_neg he]
      split
      · rw [List.getElem?_eq_none (by rw [List.length_singleton]; omega)]
        rfl
      · rfl
  · rw [hm, storeCells_of_le]
    rw [toNat_sub_add_ofNat _ _ (by omega), if_pos (by omega), List.length_singleton]
    omega

section

variable (S : Shows w h sc above row)
include S

theorem Shows.nextRow : ∃ t, lscreenNewline sc = .ok t ∧ Frame sc t ∧ Shows w h t (above ++ [row]) [] := by
  obtain ⟨rfl, rfl, hcy, hcx, hcells⟩ := S
  have hw := sc.width_pos
  have hh := sc.height_pos
  have hrest : sc.lsWidth * (sc.lsHeight - 1) + sc.lsWidth = sc.lsWidth * sc.lsHeight := by
    rw [← Nat.mul_succ, Nat.succ_eq_add_one, Nat.sub_add_cancel hh]
  have hlen : (above ++ [row]).length = above.length + 1 := by simp
  unfold lscreenNewline
  by_cases hlast : sc.lsHeight - 1 ≤ sc.lsCy
  · rw [if_pos hlast]
    have hmove : 0 + sc.lsWidth * (sc.lsHeight - 1) ≤ sc.lsWidth * sc.lsHeight := by omega
    simp only [Softc.store, if_pos hmove, if_pos hrest.le, bind, Except.bind, pure, Except.pure]
    obtain ⟨hscrolled, hframe⟩ := scroll_cells sc rfl
    refine ⟨_, rfl, ⟨rfl, rfl, rfl, hframe⟩, rfl, rfl, ?_, rfl, fun y hy x hx => ?_⟩
    · change sc.lsCy = _
      omega
    · refine (hscrolled _ (index_lt hy hx)).trans ?_
      by_cases hup : y + 1 < sc.lsHeight
      · have hi : y * sc.lsWidth + x < sc.lsWidth * (sc.lsHeight - 1) := index_lt (by omega) hx
        rw [if_pos hi, shown_concat_up (by omega) hup, ← hcells (y + 1) hup x hx]
        congr 1
        rw [Nat.succ_mul]
        omega
      · have hi : ¬ y * sc.lsWidth + x < sc.lsWidth * (sc.lsHeight - 1) := by
          have hyh : y = sc.lsHeight - 1 := by omega
          rw [hyh, Nat.mul_comm]
          omega
        have hcursor : y = min (above ++ [row]).length (sc.lsHeight - 1) := by omega
        rw [if_neg hi, hcursor, shown_cursor hh]
        rfl
  · rw [if_neg hlast]
    refine ⟨_, rfl, ⟨rfl, rfl, rfl, fun _ _ => rfl⟩, rfl, rfl, ?_, rfl, fun y hy x hx => ?_⟩
    · change sc.lsCy + 1 = _
      omega
    · rw [shown_concat_nil (by omega)]
      exact hcells y hy x hx

theorem Shows.place (hlt : row.length < w) (ch : Word) :
    ∃ t, placeChar sc ch = .ok t ∧ Frame sc t ∧ Shows w h t above (row ++ [ch.setWidth 8]) := by
  obtain ⟨rfl, rfl, hcy, hcx, hcells⟩ := S
  have hh := sc.height_pos
  have hcyh : sc.lsCy < sc.lsHeight := by omega
  have hcxw : sc.lsCx < sc.lsWidth := by omega
  have hi := index_lt hcyh hcxw
  have hin : sc.lsCy * sc.lsWidth + sc.lsCx + 1 ≤ sc.lsWidth * sc.lsHeight := hi
  unfold placeChar
  simp only [Softc.store, if_pos hin, bind, Except.bind, pure, Except.pure]
  obtain ⟨hplaced, hframe⟩ := place_cells sc (ch.setWidth 8) hi rfl
  refine ⟨_, rfl, ⟨rfl, rfl, rfl, hframe⟩, rfl, rfl, hcy, by simp [hcx], fun y hy x hx => ?_⟩
  refine (hplaced _ (index_lt hy hx)).trans ?_
  rw [hcells y hy x hx]
  simp only [index_inj hx hcxw]
  by_cases hyc : y = sc.lsCy
  · have hcursor : y = min above.length (sc.lsHeight - 1) := hyc.trans hcy
    rw [hcursor, shown_cursor hh, shown_cursor hh, ← hcy, hcx]
    by_cases hxc : x = row.length
    · simp [hxc]
    · rw [if_neg (by tauto)]
      by_cases hxr : x < row.length
      · rw [List.getElem?_append_left hxr]
      · rw [List.getElem?_eq_none (by omega), List.getElem?_eq_none (by simp; omega)]
  · rw [if_neg (by tauto)]
    exact shown_other above (hcy ▸ hyc) ..

theorem Shows.char (hw : 0 < w) (ch : Word) : ∃ t, lscreenChar sc ch = .ok t ∧ Frame sc t ∧
    if w ≤ row.length then Shows w h t (above ++ [row]) [ch.setWidth 8]
    else Shows w h t above (row ++ [ch.setWidth 8]) := by
  have hcx := S.cx
  unfold lscreenChar
  rw [S.width]
  by_cases hfull : w ≤ row.length
  · obtain ⟨t, ht, hframe, T⟩ := S.nextRow
    obtain ⟨u, hu, hframe', U⟩ := T.place hw ch
    simp only [if_pos hfull]
    rw [if_pos (by omega), ht]
    exact ⟨u, hu, hframe.trans hframe', U⟩
  · simp only [if_neg hfull]
    rw [if_neg (by omega)]
    exact S.place (Nat.not_le.1 hfull) ch

theorem Shows.setPosn : Shows w h (setPosn sc) above row :=
  ⟨S.width, S.height, S.cy, S.cx, S.cells⟩

end

theorem Shows.write (hw : 0 < w) (hr : rows w text = above ++ [row]) (S : Shows w h sc above row)
    (ch : Word) : ∃ t, lscreenWrite sc ch = .ok t ∧ Frame sc t ∧
      ∃ above' row', rows w (text ++ [ch]) = above' ++ [row'] ∧ Shows w h t above' row' := by
  unfold lscreenWrite
  by_cases hnl : ch = newline
  · obtain ⟨t, ht, hframe, T⟩ := S.nextRow
    rw [if_pos hnl, ht, hnl, rows_newline, hr]
    exact ⟨_, rfl, ⟨hframe.width, hframe.height, hframe.screen, hframe.outside⟩, _, _, rfl, T.setPosn⟩
  · obtain ⟨t, ht, hframe, T⟩ := S.char hw ch
    rw [if_neg hnl, ht, rows_char hw hnl hr]
    refine ⟨_, rfl, ⟨hframe.width, hframe.height, hframe.screen, hframe.outside⟩, ?_⟩
    split
    · next hfull =>
      rw [if_pos hfull] at T
      exact ⟨_, _, rfl, T.setPosn⟩
    · next hlt =>
      rw [if_neg hlt] at T
      exact ⟨_, _, rfl, T.setPosn⟩

/-- An empty screen with the cursor in its first cell. -/
structure Blank (sc : Softc) : Prop where
  cx : sc.lsCx = 0
  cy : sc.lsCy = 0
  cells : ∀ i < sc.lsWidth * sc.lsHeight, sc.cell i = 0

theorem Blank.shows (B : Blank sc) : Shows sc.lsWidth sc.lsHeight sc [] [] := by
  refine ⟨rfl, rfl, by simp [B.cy], B.cx, fun y hy x hx => ?_⟩
  have hempty (k : Nat) : ([[]] : List (List Byte))[k]?.getD [] = [] := by cases k <;> simp
  rw [B.cells _ (index_lt hy hx), shown_eq, List.nil_append, hempty]
  rfl

/-- The whole text, by induction from its end: what each character adds. -/
theorem Blank.writes (B : Blank sc) (text : List Word) : ∃ t, lscreenWrites sc text = .ok t ∧ Frame sc t ∧
    ∃ above row, rows sc.lsWidth text = above ++ [row] ∧ Shows sc.lsWidth sc.lsHeight t above row := by
  induction text using List.reverseRecOn with
  | nil => exact ⟨sc, rfl, .refl sc, [], [], by simp [rows, lines, breakLine, fullRows, lastRow], B.shows⟩
  | append_singleton text ch ih =>
    obtain ⟨t, ht, hframe, above, row, hr, T⟩ := ih
    obtain ⟨u, hu, hframe', hrows⟩ := T.write sc.width_pos hr ch
    refine ⟨u, ?_, hframe.trans hframe', hrows⟩
    unfold lscreenWrites at ht ⊢
    rw [List.foldlM_append, ht]
    simp [bind, Except.bind, pure, Except.pure, hu]

/-- Whatever is written on an empty screen, no store is outside of it, the cursor stays within it,
and it shows the last rows of the text. -/
theorem lscreenWrites_shows (B : Blank sc) (text : List Word) : ∃ t, lscreenWrites sc text = .ok t ∧ Frame sc t ∧
    t.lsCy < sc.lsHeight ∧ t.lsCx ≤ sc.lsWidth ∧ ∀ y < sc.lsHeight, ∀ x < sc.lsWidth,
      t.cell (y * sc.lsWidth + x) = shown sc.lsHeight (rows sc.lsWidth text) y x := by
  obtain ⟨t, ht, hframe, above, row, hr, T⟩ := B.writes text
  have hh := sc.height_pos
  have hcy := T.cy
  refine ⟨t, ht, hframe, by omega, ?_, ?_⟩
  · rw [T.cx]
    exact row_le sc.width_pos hr
  · rw [hr]
    exact T.cells

/-- Three columns and two rows, all zero. -/
def sampleScreen : Softc where
  lsWidth := 3
  lsHeight := 2
  lsCx := 0
  lsCy := 0
  lsScreen := 0
  mem := fun _ => 0
  posn := 0
  width_pos := by decide
  width_lt := by decide
  height_pos := by decide
  height_lt := by decide
  fits := by decide

/-- A full row, a newline after it, and a row that is broken. -/
theorem lscreenWrites_sampleScreen :
    ∃ t, lscreenWrites sampleScreen [97, 98, 99, 10, 100, 101, 102, 103] = .ok t ∧ Frame sampleScreen t ∧
      t.lsCy < 2 ∧ t.lsCx ≤ 3 ∧ ∀ y < 2, ∀ x < 3,
        t.cell (y * 3 + x) = shown 2 (rows 3 [97, 98, 99, 10, 100, 101, 102, 103]) y x :=
  lscreenWrites_shows ⟨rfl, rfl, fun _ _ => rfl⟩ _

end Os161.Dev.Lscreen
