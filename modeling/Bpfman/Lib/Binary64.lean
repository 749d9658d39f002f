import Mathlib.Data.Nat.Log
import Mathlib.Tactic.Ring
import Mathlib.Tactic.Linarith

/-!
# Finite doubles and their shortest decimals

Magnitudes are `m * 2 ^ e`. A ratio of naturals is rounded to the nearest double, ties to even
(`round`), and a double is printed as the shortest decimal that rounds back to it (`shortest`).

Main results: `round_eq_round_iff`, an integer below `2 ^ 53` shares its double with no other
integer, and `shortest_of_lt`, its shortest decimal is the integer itself.
-/

namespace Binary64

/-! ## Rounding -/

/-- The integer nearest to `n / d`, ties to even. -/
def nearestDiv (n d : Nat) : Nat :=
  if 2 * (n % d) < d ∨ (2 * (n % d) = d ∧ n / d % 2 = 0) then n / d else n / d + 1

/-- `n * 2 ^ e` for a nonnegative `e`, and `n` otherwise. -/
def shl (n : Nat) (e : Int) : Nat := n * 2 ^ e.toNat

/-- The floor of the binary logarithm of `n / d`. -/
def ilog2 (n d : Nat) : Int :=
  let k : Int := n.log2 - d.log2
  if shl d k ≤ shl n (-k) then k else k - 1

/-- The magnitude `m * 2 ^ e`. -/
structure Mag where
  m : Nat
  e : Int
  deriving DecidableEq, Repr

variable {n : Nat} {v : Mag}

/-- The normal form of a significand of at most 53 bits. -/
def Mag.normal (m : Nat) (e : Int) : Mag :=
  if m = 0 then ⟨0, 0⟩ else if m = 2 ^ 53 then ⟨2 ^ 52, e + 1⟩ else ⟨m, e⟩

/-- The double nearest to `n / d`, or nothing when it is out of range. -/
def round (n d : Nat) : Option Mag :=
  if n = 0 then some ⟨0, 0⟩
  else
    let e := max (ilog2 n d - 52) (-1074)
    let r := Mag.normal (nearestDiv (shl n (-e)) (shl d e)) e
    if 971 < r.e then none else some r

/-- A finite double. -/
structure Double where
  neg : Bool
  mag : Mag
  deriving DecidableEq, Repr

namespace Double

def negate (x : Double) : Double := { x with neg := !x.neg }

def isZero (x : Double) : Bool := x.mag.m == 0

def den (x : Double) : Nat := 2 ^ (-x.mag.e).toNat

def num (x : Double) : Int :=
  if x.neg then -(shl x.mag.m x.mag.e : Int) else shl x.mag.m x.mag.e

/-- The double nearest to `n / d`; a zero has the sign `zneg`. -/
def ofRatio (zneg : Bool) (n : Int) (d : Nat) : Option Double :=
  (round n.natAbs d).map fun r => ⟨if n = 0 then zneg else n < 0, r⟩

def add (x y : Double) : Option Double :=
  ofRatio (x.neg && y.neg) (x.num * y.den + y.num * x.den) (x.den * y.den)

def sub (x y : Double) : Option Double := x.add y.negate

def mul (x y : Double) : Option Double :=
  ofRatio (x.neg != y.neg) (x.num * y.num) (x.den * y.den)

/-- The quotient by a double that is not zero. -/
def div (x y : Double) : Option Double :=
  ofRatio (x.neg != y.neg) (x.num * y.den * y.num.sign) (x.den * y.num.natAbs)

/-- The remainder of the truncated quotient by a double that is not zero, with the sign of `x`. -/
def mod (x y : Double) : Option Double :=
  ofRatio x.neg ((x.num * y.den).tmod (y.num * x.den)) (x.den * y.den)

def lt (x y : Double) : Bool := x.num * y.den < y.num * x.den

end Double

/-! ## Shortest decimals -/

/-- The multiple of `10 ^ p` nearest to `v` among the two around it that round to `v`, in units of
`10 ^ p`. -/
def candidate (v : Mag) (p : Int) : Option Nat :=
  -- `v / 10 ^ p` as a ratio
  let n := shl v.m v.e * 10 ^ (-p).toNat
  let d := 2 ^ (-v.e).toNat * 10 ^ p.toNat
  let back (c : Nat) : Bool := round (c * 10 ^ p.toNat) (10 ^ (-p).toNat) = some v
  let lo := n / d
  if back lo then
    if back (lo + 1) ∧ d < 2 * (n % d) then some (lo + 1) else some lo
  else if back (lo + 1) then some (lo + 1) else none

/-- The decimal exponents that are tried, largest first. -/
def exponents : List Int := (List.range 709).map fun i : Nat => (308 : Int) - i

/-- The shortest decimal `c * 10 ^ p` that rounds to `v`, as the pair of `c` and `p`. -/
@[irreducible] def shortest (v : Mag) : Option (Nat × Int) :=
  exponents.findSome? fun p => (candidate v p).map fun c => (c, p)

/-- The decimal text of `c * 10 ^ p`. -/
def decimalText (c : Nat) (p : Int) : List Char :=
  if 0 ≤ p then Nat.toDigits 10 (c * 10 ^ p.toNat)
  else
    let k := (-p).toNat
    let frac := Nat.toDigits 10 (c % 10 ^ k)
    Nat.toDigits 10 (c / 10 ^ k) ++ '.' :: (List.replicate (k - frac.length) '0' ++ frac)

/-- The shortest decimal text of a magnitude, without an exponent. -/
def Mag.format (v : Mag) : List Char := (shortest v).elim [] fun x => decimalText x.1 x.2

def Double.format (x : Double) : List Char :=
  if x.neg then '-' :: x.mag.format else x.mag.format

/-! ## Integers -/

theorem nearestDiv_one (n : Nat) : nearestDiv n 1 = n := by
  simp [nearestDiv, Nat.mod_one]

@[simp] theorem shl_of_nonpos {e : Int} (h : e ≤ 0) : shl n e = n := by
  simp [shl, Int.toNat_of_nonpos h]

theorem ilog2_one (hn : n ≠ 0) : ilog2 n 1 = n.log2 := by
  have hone : Nat.log2 1 = 0 := by decide
  have hle : 2 ^ n.log2 ≤ n := Nat.log2_self_le hn
  simp [ilog2, hone, shl, hle]

theorem round_int (hn : n ≠ 0) :
    round n 1 =
      let e : Int := n.log2 - 52
      let r := Mag.normal (nearestDiv (shl n (-e)) (shl 1 e)) e
      if 971 < r.e then none else some r := by
  have hmax : max ((n.log2 : Int) - 52) (-1074) = n.log2 - 52 := by omega
  simp [round, hn, ilog2_one hn, hmax]

theorem log2_lt_of_lt (hn : n ≠ 0) (h : n < 2 ^ 53) : n.log2 < 53 :=
  (Nat.log2_lt hn).2 h

/-- A positive integer below `2 ^ 53` is its own double, at the exponent that makes its significand
53 bits long. -/
theorem round_of_lt (hn : n ≠ 0) (h : n < 2 ^ 53) :
    round n 1 = some ⟨n * 2 ^ (52 - n.log2), n.log2 - 52⟩ := by
  have hlog : n.log2 < 53 := log2_lt_of_lt hn h
  have hshift : (-((n.log2 : Int) - 52)).toNat = 52 - n.log2 := by omega
  have hm : shl n (-((n.log2 : Int) - 52)) = n * 2 ^ (52 - n.log2) := by rw [shl, hshift]
  have hlt : n * 2 ^ (52 - n.log2) < 2 ^ 53 := by
    calc n * 2 ^ (52 - n.log2) < 2 ^ (n.log2 + 1) * 2 ^ (52 - n.log2) :=
          Nat.mul_lt_mul_of_pos_right Nat.lt_log2_self (Nat.two_pow_pos _)
      _ = 2 ^ 53 := by rw [← Nat.pow_add]; congr 1; omega
  have hpos : n * 2 ^ (52 - n.log2) ≠ 0 := Nat.mul_ne_zero hn (Nat.two_pow_pos _).ne'
  have hnormal : Mag.normal (n * 2 ^ (52 - n.log2)) (n.log2 - 52) =
      ⟨n * 2 ^ (52 - n.log2), n.log2 - 52⟩ := by
    rw [Mag.normal, if_neg hpos, if_neg hlt.ne]
  have hrange : ¬ (971 : Int) < n.log2 - 52 := by omega
  rw [round_int hn]
  simp only [hm, shl_of_nonpos (show (n.log2 : Int) - 52 ≤ 0 by omega), nearestDiv_one, hnormal,
    if_neg hrange]

/-- An integer from `2 ^ 53` on is rounded at a positive exponent. -/
theorem e_pos_of_round (hle : 2 ^ 53 ≤ n) (hv : round n 1 = some v) : 0 < v.e := by
  have hn : n ≠ 0 := by omega
  have hlog : 53 ≤ n.log2 := (Nat.le_log2 hn).2 hle
  rw [round_int hn] at hv
  simp only [Option.ite_none_left_eq_some, Option.some.injEq] at hv
  obtain ⟨-, hv⟩ := hv
  have hq : nearestDiv (shl n (-((n.log2 : Int) - 52))) (shl 1 (n.log2 - 52)) ≠ 0 := by
    -- the quotient by `2 ^ (log2 n - 52)` is at least `2 ^ 52`
    have hshift : ((n.log2 : Int) - 52).toNat = n.log2 - 52 := by omega
    have hpow : 2 ^ (n.log2 - 52) ≤ n :=
      (Nat.pow_le_pow_right (by decide) (by omega)).trans (Nat.log2_self_le hn)
    have hdiv : 0 < n / 2 ^ (n.log2 - 52) := Nat.div_pos hpow (Nat.two_pow_pos _)
    rw [shl_of_nonpos (by omega), shl, hshift, one_mul, nearestDiv]
    split <;> omega
  rw [← hv, Mag.normal, if_neg hq]
  split
  · show 0 < (n.log2 : Int) - 52 + 1
    omega
  · show 0 < (n.log2 : Int) - 52
    omega

/-- **An integer below `2 ^ 53` shares its double with no other integer.** -/
theorem round_eq_round_iff {k : Nat} (h : n < 2 ^ 53) : round k 1 = round n 1 ↔ k = n := by
  constructor
  · intro heq
    rcases Nat.eq_zero_or_pos n with rfl | hn
    · -- zero is the only integer whose significand is zero
      by_contra hk
      rcases Nat.lt_or_ge k (2 ^ 53) with hlt | hge
      · rw [round_of_lt hk hlt] at heq
        have hm : k * 2 ^ (52 - k.log2) = 0 := by simpa [round] using congrArg (·.map Mag.m) heq
        exact Nat.mul_ne_zero hk (Nat.two_pow_pos _).ne' hm
      · have hpos := e_pos_of_round hge (heq.trans (show round 0 1 = some ⟨0, 0⟩ from rfl))
        exact absurd hpos (by decide)
    · have hround := round_of_lt hn.ne' h
      have hlog := log2_lt_of_lt hn.ne' h
      rcases Nat.lt_or_ge k (2 ^ 53) with hlt | hge
      · by_cases hk : k = 0
        · subst hk
          have hm : n * 2 ^ (52 - n.log2) = 0 := by
            simpa [round] using (congrArg (·.map Mag.m) (heq.trans hround)).symm
          exact absurd hm (Nat.mul_ne_zero hn.ne' (Nat.two_pow_pos _).ne')
        · rw [round_of_lt hk hlt, hround, Option.some.injEq, Mag.mk.injEq] at heq
          have hlogs : k.log2 = n.log2 := by omega
          rw [hlogs] at heq
          exact Nat.eq_of_mul_eq_mul_right (Nat.two_pow_pos _) heq.1
      · have hpos : 0 < (n.log2 : Int) - 52 := e_pos_of_round hge (heq.trans hround)
        omega
  · rintro rfl
    rfl

/-! ## The shortest decimal of an integer -/

/-- The ratio of an integer's double is the integer. -/
theorem ratio_of_round (h : n < 2 ^ 53) (hv : round n 1 = some v) :
    shl v.m v.e = n * 2 ^ (-v.e).toNat := by
  rcases Nat.eq_zero_or_pos n with rfl | hn
  · cases hv
    rfl
  · have hlog := log2_lt_of_lt hn.ne' h
    rw [round_of_lt hn.ne' h, Option.some.injEq] at hv
    subst hv
    have hshift : (-((n.log2 : Int) - 52)).toNat = 52 - n.log2 := by omega
    rw [shl_of_nonpos (show (n.log2 : Int) - 52 ≤ 0 by omega), hshift]

/-- A candidate at a nonnegative exponent for an integer below `2 ^ 53` is that integer. -/
theorem candidate_eq_some {c : Nat} {p : Int} (h : n < 2 ^ 53)
    (hv : round n 1 = some v) (hp : 0 ≤ p) (hc : candidate v p = some c) :
    c * 10 ^ p.toNat = n := by
  have hone : (10 : Nat) ^ (-p).toNat = 1 := by rw [Int.toNat_of_nonpos (by omega), pow_zero]
  have hback : round (c * 10 ^ p.toNat) 1 = some v := by
    simp only [candidate, hone, decide_eq_true_eq] at hc
    split at hc
    · split at hc
      · cases hc
        simp_all
      · cases hc
        assumption
    · split at hc
      · cases hc
        assumption
      · cases hc
  exact (round_eq_round_iff h).1 (hback.trans hv.symm)

theorem candidate_zero (h : n < 2 ^ 53) (hv : round n 1 = some v) : candidate v 0 = some n := by
  have hdiv : shl v.m v.e / 2 ^ (-v.e).toNat = n := by
    rw [ratio_of_round h hv, Nat.mul_div_cancel _ (Nat.two_pow_pos _)]
  have hmod : shl v.m v.e % 2 ^ (-v.e).toNat = 0 := by
    rw [ratio_of_round h hv, Nat.mul_mod_left]
  simp [candidate, hdiv, hmod, hv]

/-- **The shortest decimal of an integer below `2 ^ 53` is the integer.** -/
theorem shortest_of_lt (h : n < 2 ^ 53) (hv : round n 1 = some v) :
    ∃ c p, shortest v = some (c, p) ∧ 0 ≤ p ∧ c * 10 ^ p.toNat = n := by
  -- the exponents down to zero come first, and at zero the integer itself is found
  have hsplit : exponents =
      ((List.range 309).map fun i : Nat => (308 : Int) - i) ++
        (List.range 400).map fun i : Nat => (-1 : Int) - i := by decide +kernel
  have hsome : ((List.range 309).map fun i : Nat => (308 : Int) - i).findSome?
      (fun p => (candidate v p).map fun c => (c, p)) ≠ none := by
    intro hnone
    have hzero := List.findSome?_eq_none_iff.1 hnone 0 (by decide +kernel)
    simp [candidate_zero h hv] at hzero
  obtain ⟨⟨c, p⟩, hfind⟩ := Option.ne_none_iff_exists'.1 hsome
  obtain ⟨q, hq, hcand⟩ := List.exists_of_findSome?_eq_some hfind
  obtain ⟨i, hi, rfl⟩ := List.mem_map.1 hq
  rw [Option.map_eq_some_iff] at hcand
  obtain ⟨c', hc', heq⟩ := hcand
  cases heq
  have hp : (0 : Int) ≤ 308 - i := by
    have := List.mem_range.1 hi
    omega
  refine ⟨c, 308 - i, ?_, hp, candidate_eq_some h hv hp hc'⟩
  unfold shortest
  rw [hsplit, List.findSome?_append, hfind, Option.some_or]

/-- **A double that is an integer below `2 ^ 53` prints as that integer.** -/
theorem Mag.format_of_lt (h : n < 2 ^ 53) (hv : round n 1 = some v) :
    v.format = Nat.toDigits 10 n := by
  obtain ⟨c, p, hs, hp, hcp⟩ := shortest_of_lt h hv
  have hdigits : decimalText c p = Nat.toDigits 10 n := by
    unfold decimalText
    rw [if_pos hp, hcp]
  unfold Mag.format
  rw [hs, Option.elim_some, hdigits]

end Binary64
