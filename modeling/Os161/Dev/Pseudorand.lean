import Os161.Lib.Schrage
import Os161.Lib.Words

/-!
# The pseudorandom generator

`pseudorand_random` and `pseudorand_randmax` of `kern/dev/generic/pseudorand.c`. The seed is a
`u_int32_t`; `hi`, `lo` and `tmp` are `int32_t`, and an operation on them whose result is not an
`int32_t` has no result here.

For seeds from `1` through `MODULUS - 1` every operation has a result, and a call multiplies the
seed by `MULTIPLIER` modulo `MODULUS`. So a generator that was attached can be called for ever.
-/
namespace Os161.Dev.Pseudorand

open Lib

def multiplier : Int := 16807
def modulus : Int := 0x7fffffff
def k1 : Word := 127773
def k2 : Int := 2836

inductive Fault where
  | overflow
  deriving DecidableEq, Repr

/-- The result of an operation on `int32_t`. -/
def int32 (z : Int) : Except Fault Int := if -2 ^ 31 ≤ z ∧ z < 2 ^ 31 then pure z else throw .overflow

structure PseudorandSoftc where
  psSeed : Word
  deriving DecidableEq, Repr

def pseudorandRandom (ps : PseudorandSoftc) : Except Fault (Word × PseudorandSoftc) := do
  let hi := (ps.psSeed / k1).toInt
  let lo := (ps.psSeed % k1).toInt
  let tmp ← int32 ((← int32 (multiplier * lo)) - (← int32 (k2 * hi)))
  let tmp ← if tmp ≤ 0 then int32 (tmp + modulus) else pure tmp
  let ps := { ps with psSeed := BitVec.ofInt 32 tmp }
  pure (ps.psSeed - 1, ps)

def pseudorandRandmax (_ps : PseudorandSoftc) : Word := BitVec.ofInt 32 (modulus - 2)

/-- `mem` is what `kmalloc` returns; its contents are arbitrary. -/
def pseudoattachPseudorand (mem : Option PseudorandSoftc) : Option PseudorandSoftc :=
  mem.map fun ps => { ps with psSeed := 305824 }

/-- The values of `n` calls. -/
def draws : Nat → PseudorandSoftc → Except Fault (List Word × PseudorandSoftc)
  | 0, ps => pure ([], ps)
  | n + 1, ps => do
    let (v, ps) ← pseudorandRandom ps
    let (vs, ps) ← draws n ps
    pure (v :: vs, ps)

/-- The seeds from `1` through `MODULUS - 1`. -/
def PseudorandSoftc.Seeded (ps : PseudorandSoftc) : Prop := 1 ≤ ps.psSeed.toNat ∧ ps.psSeed.toNat ≤ 2 ^ 31 - 2

theorem int32_eq {z : Int} (hlow : -modulus ≤ z) (hhigh : z ≤ modulus) : int32 z = .ok z := by
  unfold modulus at hlow hhigh
  exact if_pos (by omega)

theorem toInt_div (s : Word) : (s / k1).toInt = s.toNat / (modulus / multiplier) := by
  have hdiv : (s / k1).toNat = s.toNat / 127773 := BitVec.toNat_udiv
  have hs := s.isLt
  rw [BitVec.toInt_eq_toNat_of_lt (by omega), hdiv]
  rfl

theorem toInt_mod (s : Word) : (s % k1).toInt = s.toNat % (modulus / multiplier) := by
  have hmod : (s % k1).toNat = s.toNat % 127773 := BitVec.toNat_umod
  rw [BitVec.toInt_eq_toNat_of_lt (by omega), hmod]
  rfl

/-- The computation of the new seed: no operation overflows. -/
theorem pseudorandRandom_residue (ps : PseudorandSoftc) {s : Int} (hs : s = ps.psSeed.toNat) (hpos : 0 < s)
    (hlt : s < modulus) : 0 < multiplier * s % modulus ∧ pseudorandRandom ps =
      .ok (BitVec.ofInt 32 (multiplier * s % modulus) - 1, ⟨BitVec.ofInt 32 (multiplier * s % modulus)⟩) := by
  have ha : 0 < multiplier := by decide
  have ham : multiplier ≤ modulus := by decide
  have hr : modulus % multiplier ≤ modulus / multiplier := by decide
  have hk2 : k2 = modulus % multiplier := by decide
  obtain ⟨hlow, hlow'⟩ := schrage_low ha ham s
  obtain ⟨hhigh, hhigh'⟩ := schrage_high ha ham hr hpos.le
  obtain ⟨hres, heq⟩ := schrage_residue ha ham hr hpos.le (by decide) hpos hlt
  have hres' : multiplier * s % modulus < modulus := Int.emod_lt_of_pos _ (by decide)
  have hlo : int32 (multiplier * (s % (modulus / multiplier))) = .ok _ := int32_eq (by omega) (by omega)
  have hhi : int32 (modulus % multiplier * (s / (modulus / multiplier))) = .ok _ := int32_eq (by omega) (by omega)
  have hsub : int32 (schrage multiplier modulus s) = .ok _ :=
    int32_eq (by unfold schrage; omega) (by unfold schrage; omega)
  have hfix : (if schrage multiplier modulus s ≤ 0 then int32 (schrage multiplier modulus s + modulus)
      else pure (schrage multiplier modulus s)) = .ok (multiplier * s % modulus) := by
    split
    · next hneg =>
      rw [if_pos hneg] at heq
      rw [heq]
      exact int32_eq (by omega) hres'.le
    · next hneg =>
      rw [if_neg hneg] at heq
      rw [heq]
      rfl
  refine ⟨hres, ?_⟩
  simp only [pseudorandRandom, toInt_div, toInt_mod, ← hs, hk2, hlo, hhi]
  change (int32 (schrage multiplier modulus s) >>= _) = _
  rw [hsub]
  change ite _ (int32 _ >>= _) (pure _ >>= _) = _
  split at hfix
  · next hneg =>
    rw [if_pos hneg, hfix]
    rfl
  · next hneg =>
    rw [if_neg hneg, hfix]
    rfl

variable {ps : PseudorandSoftc}

/-- One call multiplies the seed modulo `MODULUS`, and can be followed by another one. -/
theorem pseudorandRandom_eq (h : ps.Seeded) : ∃ ps' : PseudorandSoftc,
    pseudorandRandom ps = .ok (ps'.psSeed - 1, ps') ∧
      ps'.psSeed.toNat = 16807 * ps.psSeed.toNat % (2 ^ 31 - 1) ∧ ps'.Seeded := by
  obtain ⟨hpos, hle⟩ := h
  obtain ⟨hres, hrun⟩ := pseudorandRandom_residue ps rfl (by omega) (by unfold modulus; omega)
  have hint : multiplier * ps.psSeed.toNat % modulus = (16807 * ps.psSeed.toNat % (2 ^ 31 - 1) : Nat) := rfl
  rw [hint] at hres hrun
  generalize hr : 16807 * ps.psSeed.toNat % (2 ^ 31 - 1) = r at hres hrun
  have hlt : r < 2 ^ 31 - 1 := hr ▸ Nat.mod_lt _ (by decide)
  have hseed : (BitVec.ofInt 32 r).toNat = r := by
    rw [BitVec.ofInt_natCast, BitVec.toNat_ofNat, Nat.mod_eq_of_lt (by omega)]
  refine ⟨⟨BitVec.ofInt 32 r⟩, hrun, hseed, ?_⟩
  change 1 ≤ (BitVec.ofInt 32 r).toNat ∧ (BitVec.ofInt 32 r).toNat ≤ 2 ^ 31 - 2
  omega

/-- A value that is drawn is at most `RAND_MAX`. -/
theorem sub_one_le_randmax (h : ps.Seeded) : ps.psSeed - 1 ≤ pseudorandRandmax ps := by
  obtain ⟨hpos, hle⟩ := h
  have hmax : (pseudorandRandmax ps).toNat = 2 ^ 31 - 3 := rfl
  have hone : (1 : Word) ≤ ps.psSeed := BitVec.le_def.2 hpos
  rw [BitVec.le_def, BitVec.toNat_sub_of_le hone, hmax]
  change ps.psSeed.toNat - 1 ≤ _
  omega

theorem draws_eq (n : Nat) (h : ps.Seeded) : ∃ vs ps', draws n ps = .ok (vs, ps') ∧
    vs.length = n ∧ (∀ v ∈ vs, v ≤ pseudorandRandmax ps) ∧
    ps'.psSeed.toNat = 16807 ^ n * ps.psSeed.toNat % (2 ^ 31 - 1) ∧ ps'.Seeded := by
  induction n generalizing ps with
  | zero =>
    refine ⟨[], ps, rfl, rfl, by simp, ?_, h⟩
    obtain ⟨-, hle⟩ := h
    rw [Nat.pow_zero, Nat.one_mul, Nat.mod_eq_of_lt (by omega)]
  | succ n ih =>
    obtain ⟨ps₁, hrun, hseed, h₁⟩ := pseudorandRandom_eq h
    obtain ⟨vs, ps₂, hdraws, hlen, hmax, hseed₂, h₂⟩ := ih h₁
    refine ⟨(ps₁.psSeed - 1) :: vs, ps₂, ?_, congrArg Nat.succ hlen, ?_, ?_, h₂⟩
    · rw [draws, hrun]
      change (draws n ps₁ >>= _) = _
      rw [hdraws]
      rfl
    · intro v hv
      rcases List.mem_cons.1 hv with rfl | hv
      · exact sub_one_le_randmax h₁
      · exact hmax v hv
    · rw [hseed₂, hseed, Nat.mul_mod_mod, ← Nat.mul_assoc, ← Nat.pow_succ]

theorem seeded_pseudoattach {mem : Option PseudorandSoftc}
    (h : pseudoattachPseudorand mem = some ps) : ps.Seeded := by
  obtain ⟨ps₀, -, rfl⟩ := Option.map_eq_some_iff.1 h
  exact ⟨by decide, by decide⟩

/-- From every seed in range one call is exact, and any number of calls return values up to
`RAND_MAX` and leave a seed in range. A generator that was attached has such a seed. -/
theorem pseudorand_exact {ps : PseudorandSoftc} (h : ps.Seeded) :
    (∃ ps' : PseudorandSoftc, pseudorandRandom ps = .ok (ps'.psSeed - 1, ps') ∧
      ps'.psSeed.toNat = 16807 * ps.psSeed.toNat % (2 ^ 31 - 1) ∧ ps'.Seeded) ∧
    (∀ n, ∃ vs ps', draws n ps = .ok (vs, ps') ∧ vs.length = n ∧ (∀ v ∈ vs, v ≤ pseudorandRandmax ps) ∧
      ps'.psSeed.toNat = 16807 ^ n * ps.psSeed.toNat % (2 ^ 31 - 1) ∧ ps'.Seeded ∧ ps'.psSeed ≠ 0) ∧
    ∀ mem ps, pseudoattachPseudorand mem = some ps → ps.Seeded := by
  refine ⟨pseudorandRandom_eq h, fun n => ?_, fun _ _ => seeded_pseudoattach⟩
  obtain ⟨vs, ps', hrun, hlen, hmax, hseed, hps'⟩ := draws_eq n h
  refine ⟨vs, ps', hrun, hlen, hmax, hseed, hps', fun h0 => ?_⟩
  rw [PseudorandSoftc.Seeded, h0] at hps'
  exact absurd hps'.1 (by decide)

/-- The largest seed. -/
theorem pseudorand_exact_last : (⟨2 ^ 31 - 2⟩ : PseudorandSoftc).Seeded ∧
    (∃ ps' : PseudorandSoftc, pseudorandRandom ⟨2 ^ 31 - 2⟩ = .ok (ps'.psSeed - 1, ps') ∧
      ps'.psSeed.toNat = 16807 * (2 ^ 31 - 2 : Word).toNat % (2 ^ 31 - 1) ∧ ps'.Seeded) ∧
    (∀ n, ∃ vs ps', draws n ⟨2 ^ 31 - 2⟩ = .ok (vs, ps') ∧ vs.length = n ∧
      (∀ v ∈ vs, v ≤ pseudorandRandmax ⟨2 ^ 31 - 2⟩) ∧
      ps'.psSeed.toNat = 16807 ^ n * (2 ^ 31 - 2 : Word).toNat % (2 ^ 31 - 1) ∧ ps'.Seeded ∧ ps'.psSeed ≠ 0) ∧
    ∀ mem ps, pseudoattachPseudorand mem = some ps → ps.Seeded :=
  have h : (⟨2 ^ 31 - 2⟩ : PseudorandSoftc).Seeded := ⟨by decide, by decide⟩
  ⟨h, pseudorand_exact h⟩

end Os161.Dev.Pseudorand
