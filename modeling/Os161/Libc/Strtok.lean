import Mathlib.Data.List.TakeWhile
import Mathlib.Logic.Function.Basic
import Os161.Lib.Words

/-!
# Splitting strings

`strtok_r` of `lib/libc/strtok_r.c`, with `strchr`. Each call gets a range of addresses and stops
with a fault when it reads or writes outside of it, so a call that succeeds within the bytes of a
string and its NUL has read nothing past them. Whatever a call does, it depends on its range only;
that is why two sequences of calls on disjoint strings do not notice each other, in whichever order
their calls are made.
-/
namespace Os161.Libc

open Lib

inductive StrtokFault where
  | wildRead
  | wildWrite
  deriving DecidableEq, Repr

/-- The addresses from `lo` up to, not including, `hi`. -/
structure Range where
  lo : Nat
  hi : Nat

def Range.Has (W : Range) (p : Nat) : Prop := W.lo ≤ p ∧ p < W.hi

instance (W : Range) (p : Nat) : Decidable (W.Has p) := inferInstanceAs (Decidable (_ ∧ _))

/-- Whether `strchr` finds a character. `s` is what is in memory from the string on. -/
def strchr : List Byte → Byte → Bool
  | [], ch => ch = 0
  | c :: s, ch => if c = 0 then ch = 0 else if c = ch then true else strchr s ch

/-- The characters of a string other than its NUL. -/
theorem strchr_iff {s : List Byte} (hs : ∀ c ∈ s, c ≠ 0) {ch : Byte} (hch : ch ≠ 0) : strchr s ch = true ↔ ch ∈ s := by
  induction s with
  | nil => simpa [strchr] using hch
  | cons c s ih =>
    have hc : c ≠ 0 := hs c List.mem_cons_self
    have ih := ih fun d hd => hs d (List.mem_cons_of_mem _ hd)
    simp only [strchr, if_neg hc, List.mem_cons]
    by_cases he : c = ch
    · simp [he]
    · rw [if_neg he, ih, or_iff_right (Ne.symm he)]

/-- The memory, and the pointer that `context` points to. -/
structure Strtok where
  mem : Nat → Byte
  context : Option Nat

section Model

variable (W : Range) (m : Nat → Byte)

def load (p : Nat) : Except StrtokFault Byte := if W.Has p then .ok (m p) else .error .wildRead

def storeNul (p : Nat) : Except StrtokFault (Nat → Byte) :=
  if W.Has p then .ok (Function.update m p 0) else .error .wildWrite

/-- A loop that goes on until it reads a character at which it stops. It leaves the range before `n`
is used up. -/
def scan (stop : Byte → Bool) : Nat → Nat → Except StrtokFault Nat
  | 0, _ => .error .wildRead
  | n + 1, p => do
    let c ← load W m p
    if stop c then pure p else scan stop n (p + 1)

def endOfSeps (seps : List Byte) (c : Byte) : Bool := c = 0 || !strchr seps c

def endOfWord (seps : List Byte) (c : Byte) : Bool := c = 0 || strchr seps c

/-- The pointer at which a call starts. -/
def start (string : Option Nat) (st : Strtok) : Option Nat := string.or st.context

def strtokR (string : Option Nat) (seps : List Byte) (st : Strtok) : Except StrtokFault (Option Nat × Strtok) :=
  match start string st with
  | none => pure (none, { st with context := none })
  | some p => do
    let head ← scan W st.mem (endOfSeps seps) (W.hi - p + 1) p
    let c ← load W st.mem head
    if c = 0 then pure (none, { st with context := none })
    else do
      let tail ← scan W st.mem (endOfWord seps) (W.hi - head + 1) head
      let c ← load W st.mem tail
      if c = 0 then pure (some head, { st with context := none })
      else do
        let mem ← storeNul W st.mem tail
        pure (some head, ⟨mem, some (tail + 1)⟩)

end Model

/-! ## Strings in memory -/

/-- A string and its NUL. -/
def StrAt (m : Nat → Byte) (p : Nat) : List Byte → Prop
  | [] => m p = 0
  | c :: l => m p = c ∧ c ≠ 0 ∧ StrAt m (p + 1) l

variable {W : Range} {m n : Nat → Byte} {p k : Nat} {l : List Byte}

theorem StrAt.drop (h : StrAt m p l) (hk : k ≤ l.length) : StrAt m (p + k) (l.drop k) := by
  induction k generalizing p l with
  | zero => exact h
  | succ k ih =>
    cases l with
    | nil => simp at hk
    | cons c l =>
      have hdrop := ih h.2.2 (Nat.le_of_succ_le_succ hk)
      rwa [Nat.add_assoc, Nat.add_comm 1] at hdrop

theorem StrAt.congr (h : StrAt m p l) (hm : ∀ q, p ≤ q → q ≤ p + l.length → n q = m q) : StrAt n p l := by
  induction l generalizing p with
  | nil => exact (hm p (Nat.le_refl p) (Nat.le_refl _)).trans h
  | cons c l ih =>
    obtain ⟨hc, h0, hl⟩ := h
    rw [List.length_cons] at hm
    refine ⟨(hm p (Nat.le_refl p) (by omega)).trans hc, h0, ih hl fun q hq hle => hm q (by omega) (by omega)⟩

theorem StrAt.ne_zero (h : StrAt m p l) : ∀ c ∈ l, c ≠ 0 := by
  induction l generalizing p with
  | nil => simp
  | cons c l ih =>
    intro d hd
    rcases List.mem_cons.1 hd with rfl | hd
    · exact h.2.1
    · exact ih h.2.2 d hd

theorem StrAt.head (h : StrAt m p l) : m p = l.head?.getD 0 := by
  cases l with
  | nil => exact h
  | cons c l => exact h.1

/-- A range that holds a string and its NUL. -/
def Range.Holds (W : Range) (p : Nat) (l : List Byte) : Prop := W.lo ≤ p ∧ p + l.length < W.hi

theorem load_eq (hp : W.Has p) : load W m p = .ok (m p) := if_pos hp

theorem scan_eq (h : StrAt m p l) (hW : W.Holds p l) {stop f : Byte → Bool} (h0 : stop 0 = true)
    (hf : ∀ c ∈ l, stop c = !f c) {i : Nat} (hi : l.length < i) :
    scan W m stop i p = .ok (p + (l.takeWhile f).length) := by
  induction l generalizing p i with
  | nil =>
    obtain ⟨i, rfl⟩ : ∃ j, i = j + 1 := ⟨i - 1, by omega⟩
    have hp : W.Has p := ⟨hW.1, by simpa using hW.2⟩
    have hm : m p = 0 := h
    simp only [scan, load_eq hp, hm, h0, bind, Except.bind, pure, Except.pure, if_true]
    rfl
  | cons c l ih =>
    obtain ⟨i, rfl⟩ : ∃ j, i = j + 1 := ⟨i - 1, by omega⟩
    obtain ⟨hlo, hhi⟩ := hW
    rw [List.length_cons] at hhi hi
    have hp : W.Has p := ⟨hlo, by omega⟩
    have hm : m p = c := h.1
    have hstop := hf c List.mem_cons_self
    have hrest := ih (i := i) h.2.2 ⟨by omega, by omega⟩ (fun d hd => hf d (List.mem_cons_of_mem _ hd)) (by omega)
    by_cases hc : f c = true
    · simp only [scan, load_eq hp, hm, hstop, hc, bind, Except.bind, List.takeWhile_cons, Bool.not_true,
        Bool.false_eq_true, if_false, if_true, List.length_cons, hrest]
      rw [Nat.add_assoc, Nat.add_comm 1]
    · simp [scan, load_eq hp, hm, hstop, hc, bind, Except.bind, pure, Except.pure]

/-! ## One call -/

section Call

variable (seps : List Byte)

/-- The number of separators at the start of a string. -/
def skipped (l : List Byte) : Nat := (l.takeWhile (strchr seps)).length

/-- The word after them. -/
def word (l : List Byte) : List Byte := (l.dropWhile (strchr seps)).takeWhile fun c => !strchr seps c

/-- The index of the first character after the word. -/
def wordEnd (l : List Byte) : Nat := skipped seps l + (word seps l).length

variable {seps}

theorem drop_length_takeWhile (f : Byte → Bool) (l : List Byte) : l.drop (l.takeWhile f).length = l.dropWhile f := by
  induction l with
  | nil => rfl
  | cons c l ih => by_cases hc : f c = true <;> simp [hc, ih]

theorem drop_skipped (seps l : List Byte) : l.drop (skipped seps l) = l.dropWhile (strchr seps) :=
  drop_length_takeWhile _ l

theorem wordEnd_le (seps l : List Byte) : wordEnd seps l ≤ l.length := by
  have htake : (word seps l).length ≤ (l.dropWhile (strchr seps)).length := (List.takeWhile_prefix _).length_le
  have hlen := congrArg List.length (drop_skipped seps l)
  rw [List.length_drop] at hlen
  have hskip : skipped seps l ≤ l.length := (List.takeWhile_prefix _).length_le
  unfold wordEnd
  omega

theorem drop_wordEnd (seps l : List Byte) :
    l.drop (wordEnd seps l) = (l.dropWhile (strchr seps)).dropWhile fun c => !strchr seps c := by
  rw [wordEnd, ← List.drop_drop, drop_skipped, word, drop_length_takeWhile]

theorem word_eq_nil_iff (l : List Byte) : word seps l = [] ↔ l.dropWhile (strchr seps) = [] := by
  have hhead := List.head?_dropWhile_not (strchr seps) l
  unfold word
  cases hb : l.dropWhile (strchr seps) with
  | nil => simp
  | cons c b =>
    rw [hb] at hhead
    simp only [List.head?_cons] at hhead
    simp [hhead]

/-- A word is followed by a separator. -/
theorem sep_of_drop_wordEnd {c : Byte} (hc : (l.drop (wordEnd seps l)).head? = some c) : strchr seps c = true := by
  have hhead := List.head?_dropWhile_not (fun c => !strchr seps c) (l.dropWhile (strchr seps))
  rw [drop_wordEnd] at hc
  rw [hc] at hhead
  simpa using hhead

/-- What a call does with a string: nothing is left, a last word is left, or a word is cut off. -/
theorem strtokR_eq {string : Option Nat} {st : Strtok} (hp : start string st = some p) (h : StrAt st.mem p l)
    (hW : W.Holds p l) : strtokR W string seps st = .ok ( if word seps l = [] then (none, ⟨st.mem, none⟩)
      else if wordEnd seps l = l.length then (some (p + skipped seps l), ⟨st.mem, none⟩)
      else (some (p + skipped seps l),
        ⟨Function.update st.mem (p + wordEnd seps l) 0, some (p + wordEnd seps l + 1)⟩)) := by
  have hne := h.ne_zero
  have hskip : skipped seps l ≤ l.length := (List.takeWhile_prefix _).length_le
  have hend := wordEnd_le seps l
  obtain ⟨hlo, hhi⟩ := hW
  have hhead : scan W st.mem (endOfSeps seps) (W.hi - p + 1) p = .ok (p + skipped seps l) := by
    refine scan_eq h ⟨hlo, hhi⟩ rfl (fun c hc => ?_) (by omega)
    rw [endOfSeps, decide_eq_false (hne c hc), Bool.false_or]
  have hbody : StrAt st.mem (p + skipped seps l) (l.dropWhile (strchr seps)) := drop_skipped seps l ▸ h.drop hskip
  have hlen : (l.dropWhile (strchr seps)).length = l.length - skipped seps l := by
    rw [← drop_skipped, List.length_drop]
  have htail : scan W st.mem (endOfWord seps) (W.hi - (p + skipped seps l) + 1) (p + skipped seps l) =
      .ok (p + wordEnd seps l) := by
    rw [wordEnd, ← Nat.add_assoc]
    refine scan_eq hbody ⟨by omega, by omega⟩ rfl (fun c hc => ?_) (by omega)
    rw [endOfWord, decide_eq_false (hbody.ne_zero c hc), Bool.false_or, Bool.not_not]
  have hatend := (h.drop hend).head
  unfold strtokR
  simp only [hp, hhead, bind, Except.bind, load_eq (show W.Has (p + skipped seps l) from ⟨by omega, by omega⟩)]
  by_cases hword : word seps l = []
  · have hnil := (word_eq_nil_iff l).1 hword
    have hzero : st.mem (p + skipped seps l) = 0 := by
      rw [hnil] at hbody
      exact hbody
    simp [hzero, hword, pure, Except.pure]
  · have hnonzero : st.mem (p + skipped seps l) ≠ 0 := by
      cases hb : l.dropWhile (strchr seps) with
      | nil => exact absurd ((word_eq_nil_iff l).2 hb) hword
      | cons c b =>
        rw [hb] at hbody
        exact hbody.1 ▸ hbody.2.1
    simp only [if_neg hnonzero, if_neg hword, htail, load_eq (show W.Has (p + wordEnd seps l) from ⟨by omega, by omega⟩)]
    by_cases hlast : wordEnd seps l = l.length
    · have hzero : st.mem (p + wordEnd seps l) = 0 := by
        rw [hatend, hlast, List.drop_length]
        rfl
      simp only [if_pos hzero, if_pos hlast, pure, Except.pure]
    · obtain ⟨c, b, hb⟩ := List.exists_cons_of_ne_nil (mt List.drop_eq_nil_iff.1 (show ¬ l.length ≤ wordEnd seps l by omega))
      have hnul : st.mem (p + wordEnd seps l) ≠ 0 := by
        rw [hatend, hb]
        exact hne c (List.mem_of_mem_drop (hb ▸ List.mem_cons_self))
      simp only [if_neg hnul, if_neg hlast, storeNul, pure, Except.pure,
        if_pos (show W.Has (p + wordEnd seps l) from ⟨by omega, by omega⟩)]

/-- What is left for the next call is a string again. -/
theorem StrAt.rest (h : StrAt m p l) (hlast : wordEnd seps l ≠ l.length) :
    StrAt (Function.update m (p + wordEnd seps l) 0) (p + wordEnd seps l + 1) (l.drop (wordEnd seps l + 1)) := by
  have hend := wordEnd_le seps l
  rw [Nat.add_assoc]
  refine (h.drop (by omega)).congr fun q hq _ => ?_
  exact Function.update_of_ne (by omega) 0 m

end Call

/-! ## The words of a string -/

/-- `rs` are, in order, the places and lengths of the longest nonempty runs of characters that are
no separators. -/
structure IsRuns (sep : Byte → Bool) (l : List Byte) (rs : List (Nat × Nat)) : Prop where
  nonempty : ∀ r ∈ rs, 0 < r.2
  inside : ∀ r ∈ rs, r.1 + r.2 ≤ l.length
  chars : ∀ r ∈ rs, ∀ i, r.1 ≤ i → i < r.1 + r.2 → ∀ c, l[i]? = some c → sep c = false
  before : ∀ r ∈ rs, ∀ i c, i + 1 = r.1 → l[i]? = some c → sep c = true
  after : ∀ r ∈ rs, ∀ c, l[r.1 + r.2]? = some c → sep c = true
  sorted : rs.Pairwise fun r r' => r.1 + r.2 < r'.1
  all : ∀ i c, l[i]? = some c → sep c = false → ∃ r ∈ rs, r.1 ≤ i ∧ i < r.1 + r.2

/-- The runs of a string that follows `k` characters. -/
def shift (k : Nat) (rs : List (Nat × Nat)) : List (Nat × Nat) := rs.map fun r => (k + r.1, r.2)

section Runs

variable {seps : List Byte} {rs : List (Nat × Nat)}

theorem getElem?_takeWhile {f : Byte → Bool} {i : Nat} (hi : i < (l.takeWhile f).length) {c : Byte}
    (hc : l[i]? = some c) : f c = true := by
  rw [← List.takeWhile_append_dropWhile (p := f) (l := l), List.getElem?_append_left hi] at hc
  exact List.mem_takeWhile_imp (List.mem_of_getElem? hc)

theorem getElem?_word {i : Nat} (hi : skipped seps l ≤ i) (hi' : i < wordEnd seps l) {c : Byte} (hc : l[i]? = some c) :
    strchr seps c = false := by
  obtain ⟨j, rfl⟩ : ∃ j, i = skipped seps l + j := ⟨i - skipped seps l, by omega⟩
  rw [← List.getElem?_drop, drop_skipped] at hc
  have hj : j < (word seps l).length := by unfold wordEnd at hi'; omega
  simpa using getElem?_takeWhile hj hc

theorem getElem?_wordEnd {c : Byte} (hc : l[wordEnd seps l]? = some c) : strchr seps c = true := by
  apply sep_of_drop_wordEnd (l := l)
  rw [List.head?_drop]
  exact hc

theorem isRuns_nil (h : word seps l = []) : IsRuns (strchr seps) l [] := by
  refine ⟨by simp, by simp, by simp, by simp, by simp, .nil, fun i c hc hsep => ?_⟩
  have hall : skipped seps l = l.length := by
    have hlen := congrArg List.length (drop_skipped seps l)
    rw [(word_eq_nil_iff l).1 h, List.length_drop, List.length_nil] at hlen
    have hskip : skipped seps l ≤ l.length := (List.takeWhile_prefix _).length_le
    omega
  have hi : i < skipped seps l := hall ▸ (List.getElem?_eq_some_iff.1 hc).1
  rw [getElem?_takeWhile hi hc] at hsep
  exact nomatch hsep

/-- The first word of a string, and the words after the separator that follows it. -/
theorem IsRuns.cons (hword : word seps l ≠ []) (h : IsRuns (strchr seps) (l.drop (wordEnd seps l + 1)) rs) :
    IsRuns (strchr seps) l ((skipped seps l, (word seps l).length) :: shift (wordEnd seps l + 1) rs) := by
  have hend := wordEnd_le seps l
  have hsum : skipped seps l + (word seps l).length = wordEnd seps l := rfl
  have hdrop (j : Nat) : (l.drop (wordEnd seps l + 1))[j]? = l[wordEnd seps l + 1 + j]? := List.getElem?_drop ..
  -- the first run is dealt with by itself, the others by what is known about the rest of the string
  have hcases {P : Nat × Nat → Prop} (hfirst : P (skipped seps l, (word seps l).length))
      (hrest : ∀ r ∈ rs, P (wordEnd seps l + 1 + r.1, r.2)) :
      ∀ r ∈ (skipped seps l, (word seps l).length) :: shift (wordEnd seps l + 1) rs, P r := by
    intro r hr
    rcases List.mem_cons.1 hr with rfl | hr
    · exact hfirst
    · obtain ⟨r', hr', rfl⟩ := List.mem_map.1 hr
      exact hrest r' hr'
  refine ⟨hcases (List.length_pos_iff.2 hword) h.nonempty, hcases hend ?_, hcases ?_ ?_, hcases ?_ ?_, hcases ?_ ?_,
    List.pairwise_cons.2 ⟨?_, List.pairwise_map.2 (h.sorted.imp ?_)⟩, ?_⟩
  · intro r hr
    have hin := h.inside r hr
    have hpos := h.nonempty r hr
    rw [List.length_drop] at hin
    omega
  · intro i hi hi' c hc
    exact getElem?_word hi (by omega) hc
  · intro r hr i hi hi' c hc
    obtain ⟨j, rfl⟩ : ∃ j, i = wordEnd seps l + 1 + j := ⟨i - (wordEnd seps l + 1), by omega⟩
    exact h.chars r hr j (by omega) (by omega) c ((hdrop j).trans hc)
  · intro i c hi hc
    exact getElem?_takeWhile (show i < skipped seps l by omega) hc
  · intro r hr i c hi hc
    by_cases h0 : i = wordEnd seps l
    · exact getElem?_wordEnd (h0 ▸ hc)
    · obtain ⟨j, rfl⟩ : ∃ j, i = wordEnd seps l + 1 + j := ⟨i - (wordEnd seps l + 1), by omega⟩
      exact h.before r hr j c (by omega) ((hdrop j).trans hc)
  · intro c hc
    exact getElem?_wordEnd hc
  · intro r hr c hc
    refine h.after r hr c ((hdrop _).trans ?_)
    rwa [Nat.add_assoc] at hc
  · intro r hr
    obtain ⟨r', -, rfl⟩ := List.mem_map.1 hr
    omega
  · intro r r' hrr
    omega
  · intro i c hc hsep
    have hskip (hi : i < skipped seps l) : False := by
      rw [getElem?_takeWhile hi hc] at hsep
      exact nomatch hsep
    have hne : i ≠ wordEnd seps l := by
      rintro rfl
      rw [getElem?_wordEnd hc] at hsep
      exact nomatch hsep
    by_cases hi : i < wordEnd seps l
    · exact ⟨_, List.mem_cons_self, Nat.not_lt.1 hskip, hi⟩
    · obtain ⟨j, rfl⟩ : ∃ j, i = wordEnd seps l + 1 + j := ⟨i - (wordEnd seps l + 1), by omega⟩
      obtain ⟨r, hr, hlo, hhi⟩ := h.all j c ((hdrop j).trans hc) hsep
      exact ⟨_, List.mem_cons_of_mem _ (List.mem_map_of_mem hr), by omega, by omega⟩

end Runs

/-! ## A sequence of calls -/

/-- `j` calls, of which the first one gets `string` and the others get NULL. -/
def calls (W : Range) (seps : List Byte) : Nat → Option Nat → Strtok → Except StrtokFault (List (Option Nat) × Strtok)
  | 0, _, st => pure ([], st)
  | j + 1, string, st => do
    let (r, st) ← strtokR W string seps st
    let (rs, st) ← calls W seps j none st
    pure (r :: rs, st)

/-- Pointers to the runs in their order, and then NULL for ever. -/
def answers (p : Nat) (rs : List (Nat × Nat)) (j : Nat) : List (Option Nat) :=
  (List.range j).map fun i => rs[i]?.map fun r => p + r.1

/-- What `j` calls have made of the string: the words that were returned end in a NUL, and nothing
but separators of the string was overwritten, by NULs. -/
structure Split (seps : List Byte) (p : Nat) (l : List Byte) (rs : List (Nat × Nat)) (m n : Nat → Byte) : Prop where
  words : ∀ r ∈ rs, StrAt n (p + r.1) ((l.drop r.1).take r.2)
  writes : ∀ q, n q = m q ∨ n q = 0 ∧ ∃ i c, q = p + i ∧ l[i]? = some c ∧ strchr seps c = true

section Calls

variable {seps : List Byte} {rs : List (Nat × Nat)}

theorem answers_cons (p : Nat) (r : Nat × Nat) (rs : List (Nat × Nat)) (j : Nat) :
    answers p (r :: rs) (j + 1) = some (p + r.1) :: answers p rs j := by
  simp [answers, List.range_succ_eq_map, Function.comp_def]

theorem answers_shift (p k : Nat) (rs : List (Nat × Nat)) (j : Nat) :
    answers p (shift k rs) j = answers (p + k) rs j := by
  simp [answers, shift, Function.comp_def, Nat.add_assoc]

theorem answers_nil (p j : Nat) : answers p [] j = List.replicate j none := by
  simp [answers, List.map_const']

theorem calls_null (m : Nat → Byte) (j : Nat) :
    calls W seps j none ⟨m, none⟩ = .ok (List.replicate j none, ⟨m, none⟩) := by
  induction j with
  | zero => rfl
  | succ j ih => simp [calls, strtokR, start, ih, bind, Except.bind, pure, Except.pure, List.replicate_succ]

theorem StrAt.cut (h : StrAt m p l) (hk : k ≤ l.length) (h0 : n (p + k) = 0) (hn : ∀ q, p ≤ q → q < p + k → n q = m q) :
    StrAt n p (l.take k) := by
  induction k generalizing p l with
  | zero => exact h0
  | succ k ih =>
    cases l with
    | nil => simp at hk
    | cons c l =>
      obtain ⟨hc, hne, hl⟩ := h
      refine ⟨(hn p (Nat.le_refl p) (by omega)).trans hc, hne, ih hl (Nat.le_of_succ_le_succ hk) ?_ ?_⟩
      · rwa [Nat.add_assoc, Nat.add_comm 1]
      · exact fun q hq hlt => hn q (by omega) (by omega)

/-- The calls return the words of the string, in order. The induction is on the length of the
string, since each call that cuts off a word leaves the string behind it to the next one. -/
theorem calls_split {string : Option Nat} {st : Strtok} (hp : start string st = some p) (h : StrAt st.mem p l)
    (hW : W.Holds p l) : ∃ rs, IsRuns (strchr seps) l rs ∧ ∀ j, ∃ st',
      calls W seps j string st = .ok (answers p rs j, st') ∧ Split seps p l (rs.take j) st.mem st'.mem := by
  induction hlen : l.length using Nat.strong_induction_on generalizing p l string st with
  | _ len ih =>
  subst hlen
  have hcall : strtokR W string seps st = _ := strtokR_eq hp h hW
  by_cases hword : word seps l = []
  · rw [if_pos hword] at hcall
    refine ⟨[], isRuns_nil hword, fun j => ?_⟩
    cases j with
    | zero => exact ⟨st, by simp [calls, answers, pure, Except.pure], by simp, fun q => .inl rfl⟩
    | succ j =>
      refine ⟨⟨st.mem, none⟩, ?_, by simp, fun q => .inl rfl⟩
      simp [calls, hcall, calls_null, answers_nil, bind, Except.bind, pure, Except.pure, List.replicate_succ]
  rw [if_neg hword] at hcall
  have hend := wordEnd_le seps l
  have hsum : skipped seps l + (word seps l).length = wordEnd seps l := rfl
  -- the word that this call returns, in any memory in which it is as it was and ends in a NUL
  have hfirst {n : Nat → Byte} (h0 : n (p + wordEnd seps l) = 0) (hn : ∀ q, q < p + wordEnd seps l → n q = st.mem q) :
      StrAt n (p + skipped seps l) ((l.drop (skipped seps l)).take (word seps l).length) := by
    refine (h.drop (by omega)).cut (by rw [List.length_drop]; omega) ?_ fun q _ hq => hn q (by omega)
    rwa [Nat.add_assoc, hsum]
  by_cases hlast : wordEnd seps l = l.length
  · rw [if_pos hlast] at hcall
    have hrest : IsRuns (strchr seps) (l.drop (wordEnd seps l + 1)) [] := by
      rw [List.drop_eq_nil_of_le (by omega)]
      exact isRuns_nil rfl
    refine ⟨_, hrest.cons hword, fun j => ?_⟩
    cases j with
    | zero => exact ⟨st, by simp [calls, answers, pure, Except.pure], by simp, fun q => .inl rfl⟩
    | succ j =>
      refine ⟨⟨st.mem, none⟩, ?_, fun r hr => ?_, fun q => .inl rfl⟩
      · rw [answers_cons, answers_shift, answers_nil]
        simp [calls, hcall, calls_null, bind, Except.bind, pure, Except.pure]
      · obtain rfl : r = (skipped seps l, (word seps l).length) := by simpa [shift] using hr
        refine hfirst ?_ fun _ _ => rfl
        have hnul := (h.drop hend).head
        rw [hlast, List.drop_length] at hnul
        rw [hlast]
        exact hnul
  · rw [if_neg hlast] at hcall
    have hlt : wordEnd seps l < l.length := by omega
    have hlen : (l.drop (wordEnd seps l + 1)).length = l.length - (wordEnd seps l + 1) := List.length_drop
    obtain ⟨hlo, hhi⟩ := hW
    have hstart : start none ⟨Function.update st.mem (p + wordEnd seps l) 0, some (p + wordEnd seps l + 1)⟩ =
        some (p + wordEnd seps l + 1) := rfl
    obtain ⟨rs, hruns, hcalls⟩ := ih _ (by omega) hstart (h.rest hlast) ⟨by omega, by omega⟩ rfl
    refine ⟨_, hruns.cons hword, fun j => ?_⟩
    cases j with
    | zero => exact ⟨st, by simp [calls, answers, pure, Except.pure], by simp, fun q => .inl rfl⟩
    | succ j =>
      obtain ⟨st', hst', hsplit⟩ := hcalls j
      have hkeep (q : Nat) (hq : q ≤ p + wordEnd seps l) :
          st'.mem q = Function.update st.mem (p + wordEnd seps l) 0 q := by
        rcases hsplit.writes q with hq' | ⟨-, i, c, rfl, -⟩
        · exact hq'
        · omega
      refine ⟨st', ?_, fun r hr => ?_, fun q => ?_⟩
      · rw [answers_cons, answers_shift, ← Nat.add_assoc]
        simp only [calls, hcall, hst', bind, Except.bind, pure, Except.pure]
      · rw [List.take_succ_cons, List.mem_cons] at hr
        rcases hr with rfl | hr
        · refine hfirst ?_ fun q hq => ?_
          · rw [hkeep _ (Nat.le_refl _), Function.update_self]
          · rw [hkeep q (by omega), Function.update_of_ne (by omega)]
        · rw [shift, ← List.map_take] at hr
          obtain ⟨r', hr', rfl⟩ := List.mem_map.1 hr
          have hw := hsplit.words r' hr'
          rw [List.drop_drop, Nat.add_assoc p, Nat.add_assoc p] at hw
          exact hw
      · rcases hsplit.writes q with hq | ⟨hq, i, c, rfl, hc, hsep⟩
        · by_cases he : q = p + wordEnd seps l
          · obtain ⟨c, hc⟩ : ∃ c, l[wordEnd seps l]? = some c := ⟨_, List.getElem?_eq_getElem hlt⟩
            refine .inr ⟨?_, wordEnd seps l, c, he, hc, getElem?_wordEnd hc⟩
            rw [hkeep q he.le, he, Function.update_self]
          · exact .inl (hq.trans (Function.update_of_ne he 0 st.mem))
        · refine .inr ⟨hq, wordEnd seps l + 1 + i, c, by omega, ?_, hsep⟩
          rwa [← List.getElem?_drop]

end Calls

/-! ## Two sequences of calls -/

section Local

variable {seps : List Byte} {string : Option Nat} {c : Option Nat} (hag : ∀ q, W.Has q → n q = m q)
include hag

theorem load_congr (p : Nat) : load W n p = load W m p := by
  unfold load
  split
  · next hp => rw [hag p hp]
  · rfl

theorem scan_congr (stop : Byte → Bool) (i p : Nat) : scan W n stop i p = scan W m stop i p := by
  induction i generalizing p with
  | zero => rfl
  | succ i ih => simp only [scan, load_congr hag, ih]

/-- A call knows its range only. -/
theorem strtokR_local {r : Option Nat} {st : Strtok} (h : strtokR W string seps ⟨m, c⟩ = .ok (r, st)) :
    ∃ n', strtokR W string seps ⟨n, c⟩ = .ok (r, ⟨n', st.context⟩) ∧ (∀ q, W.Has q → n' q = st.mem q) ∧
      ∀ q, ¬ W.Has q → n' q = n q := by
  unfold strtokR at h ⊢
  have hstart : start string ⟨n, c⟩ = start string ⟨m, c⟩ := rfl
  simp only [hstart, scan_congr hag, load_congr hag]
  cases hs : start string ⟨m, c⟩ with
  | none =>
    rw [hs] at h
    obtain ⟨rfl, rfl⟩ := Prod.mk.inj (Except.ok.inj h)
    exact ⟨n, rfl, hag, fun _ _ => rfl⟩
  | some p =>
    simp only [hs, bind, Except.bind, pure, Except.pure] at h ⊢
    cases hhead : scan W m (endOfSeps seps) (W.hi - p + 1) p with
    | error e => simp [hhead] at h
    | ok head =>
    simp only [hhead] at h ⊢
    cases hfirst : load W m head with
    | error e => simp [hfirst] at h
    | ok b =>
    simp only [hfirst] at h ⊢
    by_cases hb : b = 0
    · rw [if_pos hb] at h ⊢
      obtain ⟨rfl, rfl⟩ := Prod.mk.inj (Except.ok.inj h)
      exact ⟨n, rfl, hag, fun _ _ => rfl⟩
    rw [if_neg hb] at h ⊢
    cases htail : scan W m (endOfWord seps) (W.hi - head + 1) head with
    | error e => simp [htail] at h
    | ok tail =>
    simp only [htail] at h ⊢
    cases hlast : load W m tail with
    | error e => simp [hlast] at h
    | ok b =>
    simp only [hlast] at h ⊢
    by_cases hb : b = 0
    · rw [if_pos hb] at h ⊢
      obtain ⟨rfl, rfl⟩ := Prod.mk.inj (Except.ok.inj h)
      exact ⟨n, rfl, hag, fun _ _ => rfl⟩
    rw [if_neg hb] at h ⊢
    by_cases ht : W.Has tail
    · simp only [storeNul, if_pos ht] at h ⊢
      obtain ⟨rfl, rfl⟩ := Prod.mk.inj (Except.ok.inj h)
      refine ⟨_, rfl, fun q hq => ?_, fun q hq => ?_⟩
      · dsimp only
        by_cases he : q = tail
        · rw [he, Function.update_self, Function.update_self]
        · rw [Function.update_of_ne he, Function.update_of_ne he, hag q hq]
      · have hne : q ≠ tail := by
          rintro rfl
          exact hq ht
        exact Function.update_of_ne hne 0 n
    · simp [storeNul, ht] at h

end Local

/-- Two callers with a memory in common. `string` is what each of them passes to its next call. -/
structure Session where
  mem : Nat → Byte
  string : Bool → Option Nat
  context : Bool → Option Nat

/-- Calls in some order: each entry says who makes the next one. -/
def interleave (W : Bool → Range) (seps : Bool → List Byte) :
    List Bool → Session → Except StrtokFault (List (Bool × Option Nat) × Session)
  | [], s => pure ([], s)
  | b :: bs, s => do
    let (r, st) ← strtokR (W b) (s.string b) (seps b) ⟨s.mem, s.context b⟩
    let (rs, s) ← interleave W seps bs
      ⟨st.mem, Function.update s.string b none, Function.update s.context b st.context⟩
    pure ((b, r) :: rs, s)

/-- The answers that one of them gets. -/
def answersOf (b : Bool) (rs : List (Bool × Option Nat)) : List (Option Nat) :=
  (rs.filter fun r => r.1 = b).map (·.2)

theorem calls_succ_ok {seps : List Byte} {j : Nat} {string : Option Nat} {st st' : Strtok} {rs : List (Option Nat)}
    (h : calls W seps (j + 1) string st = .ok (rs, st')) : ∃ r st₁ rs', strtokR W string seps st = .ok (r, st₁) ∧
      calls W seps j none st₁ = .ok (rs', st') ∧ rs = r :: rs' := by
  simp only [calls, bind, Except.bind, pure, Except.pure] at h
  cases h₁ : strtokR W string seps st with
  | error e => simp [h₁] at h
  | ok a =>
    obtain ⟨r, st₁⟩ := a
    simp only [h₁] at h
    cases h₂ : calls W seps j none st₁ with
    | error e => simp [h₂] at h
    | ok a =>
      simp only [h₂] at h
      obtain ⟨rfl, rfl⟩ := Prod.mk.inj (Except.ok.inj h)
      exact ⟨r, st₁, a.1, rfl, h₂, rfl⟩

section Interleave

variable {V : Bool → Range} {seps : Bool → List Byte}

/-- Whatever each caller sees when it is alone, it sees in any order of the calls, as long as the
ranges are disjoint. -/
theorem interleave_eq (hdisj : ∀ b b' q, (V b).Has q → (V b').Has q → b = b') (bs : List Bool) (s : Session)
    (alone : Bool → Nat → Byte) (rs : Bool → List (Option Nat)) {st : Bool → Strtok}
    (hag : ∀ b q, (V b).Has q → s.mem q = alone b q)
    (hcalls : ∀ b, calls (V b) (seps b) (bs.count b) (s.string b) ⟨alone b, s.context b⟩ = .ok (rs b, st b)) :
    ∃ res s', interleave V seps bs s = .ok (res, s') ∧ (∀ b, answersOf b res = rs b) ∧
      (∀ b q, (V b).Has q → s'.mem q = (st b).mem q) ∧ ∀ q, (∀ b, ¬ (V b).Has q) → s'.mem q = s.mem q := by
  induction bs generalizing s alone rs with
  | nil =>
    have hnone (b : Bool) : [] = rs b ∧ ⟨alone b, s.context b⟩ = st b := Prod.mk.inj (Except.ok.inj (hcalls b))
    refine ⟨[], s, rfl, fun b => (hnone b).1, fun b q hq => ?_, fun _ _ => rfl⟩
    rw [← (hnone b).2]
    exact hag b q hq
  | cons b bs ih =>
    have hb := hcalls b
    rw [List.count_cons_self] at hb
    obtain ⟨r, st₁, rs', hcall, hrest, hrs⟩ := calls_succ_ok hb
    obtain ⟨n', hcall', hin, hout⟩ := strtokR_local (hag b) hcall
    have hag' (b' : Bool) (q : Nat) (hq : (V b').Has q) : n' q = Function.update alone b st₁.mem b' q := by
      by_cases he : b' = b
      · subst he
        rw [Function.update_self]
        exact hin q hq
      · rw [Function.update_of_ne he, ← hag b' q hq]
        exact hout q fun hq' => he (hdisj b' b q hq hq')
    have hcalls' (b' : Bool) : calls (V b') (seps b') (bs.count b') (Function.update s.string b none b')
        ⟨Function.update alone b st₁.mem b', Function.update s.context b st₁.context b'⟩ =
        .ok (Function.update rs b rs' b', st b') := by
      by_cases he : b' = b
      · subst he
        simpa only [Function.update_self] using hrest
      · have hother := hcalls b'
        rw [List.count_cons_of_ne (Ne.symm he)] at hother
        simpa only [Function.update_of_ne he] using hother
    obtain ⟨res, s', hs', hres, hmem, hframe⟩ :=
      ih ⟨n', Function.update s.string b none, Function.update s.context b st₁.context⟩ _ _ hag' hcalls'
    refine ⟨(b, r) :: res, s', ?_, fun b' => ?_, hmem, fun q hq => (hframe q hq).trans (hout q (hq b))⟩
    · simp only [interleave, hcall', hs', bind, Except.bind, pure, Except.pure]
    · have hres' := hres b'
      by_cases he : b' = b
      · subst he
        rw [Function.update_self] at hres'
        rw [hrs, ← hres']
        simp [answersOf]
      · rw [Function.update_of_ne he] at hres'
        rw [← hres']
        simp [answersOf, Ne.symm he]

end Interleave

/-! ## `strtok_r` splits strings -/

/-- The addresses of a string and its NUL. -/
def strRange (p : Nat) (l : List Byte) : Range := ⟨p, p + l.length + 1⟩

theorem strRange_holds (p : Nat) (l : List Byte) : (strRange p l).Holds p l := ⟨Nat.le_refl p, Nat.lt_succ_self _⟩

/-- A word that was cut off and what is left of the string are strings apart from each other. -/
theorem strtokR_apart {seps : List Byte} {string : Option Nat} {st st' : Strtok} {q : Nat}
    (hp : start string st = some p) (h : StrAt st.mem p l)
    (hcall : strtokR (strRange p l) string seps st = .ok (some q, st')) :
    ∃ w, StrAt st'.mem q w ∧ ∀ c, st'.context = some c →
      ∃ l', StrAt st'.mem c l' ∧ ∀ a, (strRange q w).Has a → ¬ (strRange c l').Has a := by
  have hend := wordEnd_le seps l
  have hsum : skipped seps l + (word seps l).length = wordEnd seps l := rfl
  rw [strtokR_eq hp h (strRange_holds p l)] at hcall
  split at hcall
  · exact nomatch hcall
  · split at hcall
    · next hlast =>
      obtain ⟨hq, rfl⟩ := Prod.mk.inj (Except.ok.inj hcall)
      obtain rfl := Option.some.inj hq
      exact ⟨_, h.drop (by omega), fun c hc => nomatch hc⟩
    · next hlast =>
      obtain ⟨hq, rfl⟩ := Prod.mk.inj (Except.ok.inj hcall)
      obtain rfl := Option.some.inj hq
      refine ⟨(l.drop (skipped seps l)).take (word seps l).length, ?_, fun c hc => ?_⟩
      · refine (h.drop (by omega)).cut (by rw [List.length_drop]; omega) ?_ fun q _ hq => ?_
        · dsimp only
          rw [Nat.add_assoc, hsum]
          exact Function.update_self ..
        · exact Function.update_of_ne (by omega) 0 st.mem
      · obtain rfl : p + wordEnd seps l + 1 = c := Option.some.inj hc
        refine ⟨_, h.rest hlast, fun a ha ha' => ?_⟩
        have hlo : p + wordEnd seps l + 1 ≤ a := ha'.1
        have hhi : a < p + skipped seps l + ((l.drop (skipped seps l)).take (word seps l).length).length + 1 := ha.2
        rw [List.length_take, List.length_drop] at hhi
        omega

/-- Alone, a sequence of calls returns the words of the string and then NULL; it stays within the
string and its NUL, and overwrites separators only. Two sequences on strings apart from each other
go on like that in any order of their calls. So do two of which one splits a word that the other has
cut off, as the menu does. -/
theorem strtokR_splits : (∀ (seps : List Byte) (string : Option Nat) (st : Strtok) (p : Nat) (l : List Byte),
      start string st = some p → StrAt st.mem p l → ∃ rs, IsRuns (strchr seps) l rs ∧ ∀ j, ∃ st',
        calls (strRange p l) seps j string st = .ok (answers p rs j, st') ∧ Split seps p l (rs.take j) st.mem st'.mem) ∧
    (∀ (seps : Bool → List Byte) (s : Session) (p : Bool → Nat) (l : Bool → List Byte),
      (∀ b, start (s.string b) ⟨s.mem, s.context b⟩ = some (p b)) → (∀ b, StrAt s.mem (p b) (l b)) →
      (∀ b b' q, (strRange (p b) (l b)).Has q → (strRange (p b') (l b')).Has q → b = b') →
      ∃ rs : Bool → List (Nat × Nat), (∀ b, IsRuns (strchr (seps b)) (l b) (rs b)) ∧ ∀ bs, ∃ res s',
        interleave (fun b => strRange (p b) (l b)) seps bs s = .ok (res, s') ∧
        (∀ b, answersOf b res = answers (p b) (rs b) (bs.count b)) ∧
        (∀ b, ∀ r ∈ (rs b).take (bs.count b), StrAt s'.mem (p b + r.1) (((l b).drop r.1).take r.2)) ∧
        ∀ q, s'.mem q = s.mem q ∨ s'.mem q = 0 ∧ ∃ b i c, q = p b + i ∧ (l b)[i]? = some c ∧ strchr (seps b) c = true) ∧
    (∀ (seps : List Byte) (string : Option Nat) (st st' : Strtok) (p q : Nat) (l : List Byte),
      start string st = some p → StrAt st.mem p l → strtokR (strRange p l) string seps st = .ok (some q, st') →
      ∃ w, StrAt st'.mem q w ∧ ∀ c, st'.context = some c →
        ∃ l', StrAt st'.mem c l' ∧ ∀ a, (strRange q w).Has a → ¬ (strRange c l').Has a) := by
  refine ⟨fun seps string st p l hp h => calls_split hp h (strRange_holds p l), ?_,
    fun seps string st st' p q l hp h hcall => strtokR_apart hp h hcall⟩
  intro seps s p l hstart hstr hdisj
  have halone (b : Bool) : ∃ rs, IsRuns (strchr (seps b)) (l b) rs ∧ ∀ j, ∃ st',
      calls (strRange (p b) (l b)) (seps b) j (s.string b) ⟨s.mem, s.context b⟩ = .ok (answers (p b) rs j, st') ∧
        Split (seps b) (p b) (l b) (rs.take j) s.mem st'.mem :=
    calls_split (hstart b) (hstr b) (strRange_holds (p b) (l b))
  choose rs hruns hcalls using halone
  refine ⟨rs, hruns, fun bs => ?_⟩
  choose st hst hsplit using fun b => hcalls b (bs.count b)
  obtain ⟨res, s', hs', hres, hmem, hframe⟩ := interleave_eq hdisj bs s _ _ (fun _ _ _ => rfl) hst
  refine ⟨res, s', hs', hres, fun b r hr => ?_, fun q => ?_⟩
  · have hin := (hruns b).inside r (List.mem_of_mem_take hr)
    refine ((hsplit b).words r hr).congr fun q hq hle => hmem b q ⟨show p b ≤ q by omega, ?_⟩
    have hlen : (((l b).drop r.1).take r.2).length ≤ r.2 := List.length_take_le ..
    change q < p b + (l b).length + 1
    omega
  · by_cases hq : ∃ b, (strRange (p b) (l b)).Has q
    · obtain ⟨b, hq⟩ := hq
      rw [hmem b q hq]
      rcases (hsplit b).writes q with hkeep | ⟨h0, i, c, hi, hc, hsep⟩
      · exact .inl hkeep
      · exact .inr ⟨h0, b, i, c, hi, hc, hsep⟩
    · exact .inl (hframe q fun b hb => hq ⟨b, hb⟩)

/-- "a;b" at address 1 and " c" at address 10. -/
def sampleStrings : Nat → Byte
  | 1 => 97
  | 2 => 59
  | 3 => 98
  | 10 => 32
  | 11 => 99
  | _ => 0

def sampleAddr (b : Bool) : Nat := if b then 1 else 10
def sampleText (b : Bool) : List Byte := if b then [97, 59, 98] else [32, 99]
def sampleSeps (b : Bool) : List Byte := if b then [59] else [32, 9]
def sampleSession : Session := ⟨sampleStrings, fun b => some (sampleAddr b), fun _ => none⟩

theorem strtokR_splits_sampleSession : (∃ rs, IsRuns (strchr [59]) [97, 59, 98] rs ∧ ∀ j, ∃ st',
      calls (strRange 1 [97, 59, 98]) [59] j (some 1) ⟨sampleStrings, none⟩ = .ok (answers 1 rs j, st') ∧
        Split [59] 1 [97, 59, 98] (rs.take j) sampleStrings st'.mem) ∧
    ∃ rs : Bool → List (Nat × Nat), (∀ b, IsRuns (strchr (sampleSeps b)) (sampleText b) (rs b)) ∧ ∀ bs, ∃ res s',
      interleave (fun b => strRange (sampleAddr b) (sampleText b)) sampleSeps bs sampleSession = .ok (res, s') ∧
      (∀ b, answersOf b res = answers (sampleAddr b) (rs b) (bs.count b)) ∧ (∀ b, ∀ r ∈ (rs b).take (bs.count b),
        StrAt s'.mem (sampleAddr b + r.1) (((sampleText b).drop r.1).take r.2)) ∧
      ∀ q, s'.mem q = sampleSession.mem q ∨ s'.mem q = 0 ∧
        ∃ b i c, q = sampleAddr b + i ∧ (sampleText b)[i]? = some c ∧ strchr (sampleSeps b) c = true := by
  have hstr (b : Bool) : StrAt sampleStrings (sampleAddr b) (sampleText b) := by
    cases b <;> simp [StrAt, sampleStrings, sampleAddr, sampleText]
  refine ⟨strtokR_splits.1 [59] (some 1) ⟨sampleStrings, none⟩ 1 [97, 59, 98] rfl (hstr true),
    strtokR_splits.2.1 sampleSeps sampleSession sampleAddr sampleText (fun _ => rfl) hstr ?_⟩
  intro b b' q hq hq'
  have hlt := hq.1
  have hgt := hq.2
  have hlt' := hq'.1
  have hgt' := hq'.2
  cases b <;> cases b' <;> simp [strRange, sampleAddr, sampleText] at * <;> omega

end Os161.Libc
