import Bpfman.Lib.Decimal
import Mathlib.Algebra.Group.Int.Defs
import Mathlib.Data.List.Basic

/-!
# Arrays of 32-bit integers as JSON text

The compact form: decimal numbers between brackets, separated by commas. The reader wants numbers
as JSON writes them and in the range of an `int32`.

Main result: `decode_encode`, a text that was written reads back.
-/

namespace JsonInts

/-- Digits as JSON writes them: at least one, and no zero before others. -/
def digits (ds : List Char) : Option Nat :=
  if ds = [] ∨ ds.all Char.isDigit = false ∨ (ds.head? = some '0' ∧ 1 < ds.length) then none
  else some (Nat.ofDigitChars 10 ds 0)

/-- Whether a number is an `int32`. -/
def inRange (i : Int) : Bool := -2 ^ 31 ≤ i && i < 2 ^ 31

def number (cs : List Char) : Option Int :=
  let value : Option Int := match cs with
    | '-' :: ds => (digits ds).map fun n : Nat => -(n : Int)
    | ds => (digits ds).map fun n : Nat => (n : Int)
  value.filter inRange

def render (i : Int) : List Char :=
  if i < 0 then '-' :: Nat.toDigits 10 i.natAbs else Nat.toDigits 10 i.natAbs

def encode (is : List Int) : String :=
  String.ofList ('[' :: ([','].intercalate (is.map render) ++ [']']))

/-- What stands between the brackets. -/
def inner : List Char → Option (List Char)
  | '[' :: cs => if cs.getLast? = some ']' then some cs.dropLast else none
  | _ => none

def decode (text : String) : Option (List Int) := do
  let cs ← inner text.toList
  if cs = [] then some [] else (cs.splitOn ',').mapM number

/-! ## Numbers -/

theorem digits_toDigits (n : Nat) : digits (Nat.toDigits 10 n) = some n := by
  have hnum := Decimal.numeral_toDigits n
  unfold digits
  rw [if_neg, Nat.ofDigitChars_ten_toDigits]
  rintro (h | h | ⟨h0, hlen⟩)
  · exact hnum.ne_nil h
  · rw [List.all_eq_true.2 hnum.isDigit] at h
    cases h
  · obtain ⟨cs, hcs⟩ := List.head?_eq_some_iff.1 h0
    rw [hcs, hnum.lead cs hcs] at hlen
    exact absurd hlen (by decide)

theorem number_render {i : Int} (h : inRange i = true) : number (render i) = some i := by
  unfold number render
  by_cases hi : i < 0
  · have : -((i.natAbs : Nat) : Int) = i := by omega
    rw [if_pos hi]
    show ((digits (Nat.toDigits 10 i.natAbs)).map fun n : Nat => -(n : Int)).filter inRange = some i
    rw [digits_toDigits, Option.map_some, this, Option.filter_some, if_pos h]
  · have hi' : ((i.natAbs : Nat) : Int) = i := by omega
    cases hds : Nat.toDigits 10 i.natAbs with
    | nil => exact absurd hds Nat.toDigits_ne_nil
    | cons d ds =>
      have hd : d ≠ '-' := by
        rintro rfl
        have := Decimal.isDigit_of_mem (n := i.natAbs) (hds ▸ List.mem_cons_self)
        cases this
      have hval := digits_toDigits i.natAbs
      rw [hds] at hval
      simp only [hi, if_false]
      split
      · next h' =>
        rw [List.cons.injEq] at h'
        exact absurd h'.1 hd
      · simp [hval, hi', h]

/-! ## Arrays -/

theorem comma_not_mem_render (i : Int) : ',' ∉ render i := by
  have hdigits : ',' ∉ Nat.toDigits 10 i.natAbs := fun h => by
    have := Decimal.isDigit_of_mem h
    cases this
  unfold render
  split
  · simpa using hdigits
  · exact hdigits

theorem mapM_number {is : List Int} (h : ∀ i ∈ is, inRange i = true) :
    (is.map render).mapM number = some is := by
  induction is with
  | nil => rfl
  | cons i is ih =>
    rw [List.map_cons, List.mapM_cons, number_render (h i List.mem_cons_self),
      ih fun j hj => h j (List.mem_cons_of_mem _ hj)]
    rfl

theorem inner_encode (cs : List Char) : inner ('[' :: (cs ++ [']'])) = some cs := by
  simp [inner]

theorem render_ne_nil (i : Int) : render i ≠ [] := by
  unfold render
  split
  · simp
  · exact Nat.toDigits_ne_nil

/-- **A text that was written reads back.** -/
theorem decode_encode {is : List Int} (h : ∀ i ∈ is, inRange i = true) :
    decode (encode is) = some is := by
  unfold decode encode
  rw [String.toList_ofList, inner_encode]
  cases is with
  | nil => rfl
  | cons i is =>
    have hne : [','].intercalate ((i :: is).map render) ≠ [] := by
      cases is with
      | nil => simpa using render_ne_nil i
      | cons j is => simp [List.intercalate_cons_cons]
    have hsplit :
        ([','].intercalate ((i :: is).map render)).splitOn ',' = (i :: is).map render := by
      refine List.splitOn_intercalate _ ?_ (by simp)
      intro cs hcs
      obtain ⟨j, -, rfl⟩ := List.mem_map.1 hcs
      exact comma_not_mem_render j
    simp only [Option.bind_eq_bind, Option.bind_some, hne, if_false, hsplit]
    exact mapM_number h

end JsonInts
