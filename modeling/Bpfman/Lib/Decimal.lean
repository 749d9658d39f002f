import Mathlib.Data.List.Induction
import Mathlib.Tactic.Common

/-!
# Decimal numerals

A numeral is the text `Nat.toDigits 10` writes: digits, the first of several not a zero. Numerals
and numbers are in bijection (`Numeral.toDigits`, `numeral_toDigits`).
-/

namespace Decimal

/-- Digits, and no zero before others. -/
structure Numeral (ds : List Char) : Prop where
  ne_nil : ds ≠ []
  isDigit : ∀ c ∈ ds, c.isDigit = true
  lead : ∀ cs, ds = '0' :: cs → cs = []

theorem digitChar_of_isDigit {c : Char} (h : c.isDigit) :
    c.toNat - '0'.toNat < 10 ∧ (c.toNat - '0'.toNat).digitChar = c := by
  have hlo : 48 ≤ c.toNat := by
    have := (Char.isDigit_iff_toNat.1 h).1
    simpa using this
  have hhi : c.toNat ≤ 57 := by
    have := (Char.isDigit_iff_toNat.1 h).2
    simpa using this
  have hlt : c.toNat - '0'.toNat < 10 := by
    have h0 : '0'.toNat = 48 := rfl
    omega
  rw [← Char.toNat_inj, Nat.toNat_digitChar_of_lt_ten hlt]
  have h0 : '0'.toNat = 48 := rfl
  omega

theorem Numeral.toDigits {ds : List Char} (h : Numeral ds) :
    Nat.toDigits 10 (Nat.ofDigitChars 10 ds 0) = ds := by
  induction ds using List.reverseRecOn with
  | nil => exact absurd rfl h.ne_nil
  | append_singleton ds c ih =>
    obtain ⟨hlt, hchar⟩ := digitChar_of_isDigit (h.isDigit c (by simp))
    cases ds with
    | nil =>
      have hval : Nat.ofDigitChars 10 [c] 0 = c.toNat - '0'.toNat := by simp [Nat.ofDigitChars]
      rw [List.nil_append, hval, Nat.toDigits_of_lt_base hlt, hchar]
    | cons d ds =>
      -- the digits before the last one start with the same nonzero digit
      have hd0 : d ≠ '0' := by
        rintro rfl
        simpa using h.lead _ rfl
      have hnum : Numeral (d :: ds) := by
        refine ⟨by simp, fun x hx => h.isDigit x (List.mem_append_left _ hx), ?_⟩
        intro cs hcs
        exact absurd (List.cons.inj hcs).1 hd0
      have hval : Nat.ofDigitChars 10 (d :: ds ++ [c]) 0 =
          10 * Nat.ofDigitChars 10 (d :: ds) 0 + (c.toNat - '0'.toNat) := by
        simp [Nat.ofDigitChars]
      have hpos : 0 < Nat.ofDigitChars 10 (d :: ds) 0 := by
        rcases Nat.eq_zero_or_pos (Nat.ofDigitChars 10 (d :: ds) 0) with h0 | hpos
        · have := ih hnum
          rw [h0, Nat.toDigits_zero] at this
          exact absurd (List.cons.inj this).1.symm hd0
        · exact hpos
      rw [hval, ← Nat.toDigits_append_toDigits (by decide) hpos hlt, ih hnum,
        Nat.toDigits_of_lt_base hlt, hchar]

theorem isDigit_of_mem {n : Nat} {c : Char} (h : c ∈ Nat.toDigits 10 n) : c.isDigit = true :=
  Nat.isDigit_of_mem_toDigits (by decide) (by decide) h

theorem numeral_toDigits (n : Nat) : Numeral (Nat.toDigits 10 n) := by
  refine ⟨Nat.toDigits_ne_nil, fun c => isDigit_of_mem, ?_⟩
  induction n using Nat.strongRecOn with
  | ind n ih =>
    intro cs hcs
    by_cases hn : n < 10
    · rw [Nat.toDigits_of_lt_base hn] at hcs
      exact (List.cons.inj hcs).2.symm
    · rw [Nat.toDigits_eq_if (by decide), if_neg hn] at hcs
      cases hds : Nat.toDigits 10 (n / 10) with
      | nil => exact absurd hds Nat.toDigits_ne_nil
      | cons d ds =>
        -- a text of one zero is the number zero
        rw [hds] at hcs
        obtain rfl := (List.cons.inj hcs).1
        obtain rfl := ih (n / 10) (by omega) ds hds
        have hval := Nat.ofDigitChars_ten_toDigits (n := n / 10)
        rw [hds] at hval
        have h0 : Nat.ofDigitChars 10 ['0'] 0 = 0 := by decide
        omega

end Decimal
