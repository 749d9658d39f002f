import Bpfman.Lib.Decimal
import Bpfman.Shell.Eval
import Mathlib.Data.List.TakeWhile

/-!
# Integers of any length

Integer-shaped texts and the integers they stand for.

* `parseShellNumber_of_isInteger`: the binary operators read an integer-shaped text exactly.
* `negateText_exact_iff`: unary minus goes through a double, so it is exact precisely for the
  magnitudes whose double prints as themselves (`NegExact`), among them all below `2 ^ 53`.
-/

namespace Bpfman.Shell

open Binary64 Partiality Comp List

variable {c : Char} {cs : List Char} {t : String} {ds : List Char}

/-! ## Digit texts -/

/-- A nonempty run of digits with no leading zero. -/
def Canonical (ds : List Char) : Prop := intPart ds = some []

theorem Canonical.ne_nil (h : Canonical ds) : ds ≠ [] := by
  rintro rfl
  cases h

theorem canonical_cons :
    Canonical (c :: cs) ↔ c.isDigit ∧ (∀ x ∈ cs, x.isDigit) ∧ (c = '0' → cs = []) := by
  by_cases h0 : c = '0'
  · subst h0
    constructor
    · intro h
      have hcs : cs = [] := by simpa [Canonical, intPart] using h
      subst hcs
      exact ⟨rfl, by simp, fun _ => rfl⟩
    · rintro ⟨-, -, h⟩
      rw [h rfl]
      rfl
  · have hb : (c == '0') = false := by simpa using h0
    by_cases hd : c.isDigit
    · simp [Canonical, intPart, hb, hd, h0, dropWhile_eq_nil_iff]
    · simp [Canonical, intPart, hb, hd]

theorem Canonical.isDigit (h : Canonical ds) : ∀ c ∈ ds, c.isDigit := by
  cases ds with
  | nil => simp
  | cons c cs =>
    obtain ⟨hc, hcs, -⟩ := canonical_cons.1 h
    simpa [hc] using hcs

theorem Canonical.digitsPart (h : Canonical ds) : digitsPart ds = some [] := by
  cases ds with
  | nil => cases h
  | cons c cs =>
    obtain ⟨hc, hcs, -⟩ := canonical_cons.1 h
    simpa [Shell.digitsPart, hc, dropWhile_eq_nil_iff] using hcs

theorem canonical_iff : Canonical ds ↔ Decimal.Numeral ds := by
  cases ds with
  | nil => exact ⟨fun h => absurd rfl h.ne_nil, fun h => absurd rfl h.ne_nil⟩
  | cons c cs =>
    rw [canonical_cons]
    constructor
    · rintro ⟨hc, hcs, hzero⟩
      refine ⟨by simp, by simpa [hc] using hcs, ?_⟩
      rintro cs' ⟨⟩
      exact hzero rfl
    · intro h
      refine ⟨h.isDigit c (by simp), fun x hx => h.isDigit x (by simp [hx]), ?_⟩
      rintro rfl
      exact h.lead cs rfl

theorem Canonical.toDigits (h : Canonical ds) :
    Nat.toDigits 10 (ofDigits ds) = ds := (canonical_iff.1 h).toDigits

theorem ofDigits_toDigits (n : Nat) : ofDigits (Nat.toDigits 10 n) = n :=
  Nat.ofDigitChars_ten_toDigits

theorem canonical_toDigits (n : Nat) : Canonical (Nat.toDigits 10 n) :=
  canonical_iff.2 (Decimal.numeral_toDigits n)

/-! ## Integer-shaped texts -/

/-- An optional minus before a digit text. -/
def signed (neg : Bool) (ds : List Char) : List Char := if neg then '-' :: ds else ds

/-- The integer with the given sign and magnitude. -/
def signedInt (neg : Bool) (n : Nat) : Int := if neg then -n else n

/-- The text of an integer of any length. -/
def isInteger (t : String) : Bool := intPart (dropMinus t.toList) == some []

/-- The integer an integer-shaped text stands for. -/
def intValue (t : String) : Int :=
  signedInt (t.toList.head? == some '-') (ofDigits (dropMinus t.toList))

theorem Canonical.head_ne (h : Canonical ds) (hc : ¬ c.isDigit) : ds.head? ≠ some c := by
  intro hhead
  cases ds with
  | nil => cases hhead
  | cons d ds =>
    cases hhead
    exact hc (h.isDigit c (by simp))

theorem exists_signed (h : isInteger t) :
    ∃ neg ds, Canonical ds ∧ t = String.ofList (signed neg ds) := by
  have hcan : Canonical (dropMinus t.toList) := by simpa [isInteger, Canonical] using h
  by_cases hneg : t.toList.head? = some '-'
  · refine ⟨true, dropMinus t.toList, hcan, ?_⟩
    cases ht : t.toList with
    | nil => simp [ht] at hneg
    | cons c cs =>
      rw [ht] at hneg
      cases hneg
      rw [← String.ofList_toList (s := t), ht]
      rfl
  · refine ⟨false, dropMinus t.toList, hcan, ?_⟩
    have hdrop : dropMinus t.toList = t.toList := by
      unfold dropMinus
      split <;> simp_all
    rw [hdrop]
    exact String.ofList_toList.symm

theorem dropWhile_space (h : ∀ c ∈ cs, c = '-' ∨ c.isDigit) : cs.dropWhile isJSONSpace = cs := by
  cases cs with
  | nil => rfl
  | cons c cs =>
    have hc : isJSONSpace c = false := by
      rcases h c (by simp) with rfl | hd
      · rfl
      · have hne : ∀ x : Char, ¬ x.isDigit → c ≠ x := fun x hx heq => hx (heq ▸ hd)
        simp [isJSONSpace, hne ' ' (by decide), hne '\t' (by decide), hne '\n' (by decide),
          hne '\r' (by decide)]
    simp [hc]

section Signed

variable {neg : Bool} {ds : List Char} (h : Canonical ds)
include h

theorem dropMinus_signed : dropMinus (signed neg ds) = ds := by
  cases neg with
  | true => rfl
  | false =>
    have hhead := h.head_ne (c := '-') (by decide)
    unfold signed dropMinus
    split
    · simp_all
    · rfl

theorem dropSign_signed : dropSign (signed neg ds) = ds := by
  cases neg with
  | true => rfl
  | false =>
    have hminus := h.head_ne (c := '-') (by decide)
    have hplus := h.head_ne (c := '+') (by decide)
    unfold signed dropSign
    split <;> simp_all

theorem head_signed : ((signed neg ds).head? = some '-') ↔ neg = true := by
  cases neg with
  | true => simp [signed]
  | false => simpa [signed] using h.head_ne (c := '-') (by decide)

theorem isInteger_signed : isInteger (String.ofList (signed neg ds)) := by
  simpa [isInteger, dropMinus_signed h, Canonical] using h

theorem intValue_signed :
    intValue (String.ofList (signed neg ds)) = signedInt neg (ofDigits ds) := by
  have hhead : ((signed neg ds).head? == some '-') = neg := by
    rw [Bool.eq_iff_iff, beq_iff_eq]
    exact head_signed h
  simp [intValue, dropMinus_signed h, hhead]

theorem setString_signed :
    setString (String.ofList (signed neg ds)) = some (signedInt neg (ofDigits ds)) := by
  simp [setString, dropSign_signed h, h.digitsPart, head_signed h, signedInt]

theorem mem_signed (hc : c ∈ signed neg ds) : c = '-' ∨ c.isDigit := by
  cases neg with
  | true => simpa [signed] using (mem_cons.1 hc).imp id (h.isDigit c)
  | false => exact .inr (h.isDigit c hc)

theorem isIntegral_signed : isIntegralJSONNumber (String.ofList (signed neg ds)) := by
  simp only [isIntegralJSONNumber, String.toList_ofList, all_eq_true]
  intro c hc
  rcases mem_signed h hc with rfl | hd
  · rfl
  · have hne : ∀ x : Char, ¬ x.isDigit → c ≠ x := fun x hx heq => hx (heq ▸ hd)
    simp [hne '.' (by decide), hne 'e' (by decide), hne 'E' (by decide)]

theorem jsonNumber_signed : jsonNumber (signed neg ds) := by
  have hint : intPart ds = some [] := h
  simp [jsonNumber, dropMinus_signed h, hint, fracPart, expPart]

theorem isJSONNumber_signed : isJSONNumber (String.ofList (signed neg ds)) := by
  have hmem : ∀ c ∈ signed neg ds, c = '-' ∨ c.isDigit := fun c hc => mem_signed h hc
  have hmem' : ∀ c ∈ (signed neg ds).reverse, c = '-' ∨ c.isDigit := fun c hc =>
    mem_signed h (mem_reverse.1 hc)
  simp [isJSONNumber, isIntegral_signed h, dropWhile_space hmem, dropWhile_space hmem',
    jsonNumber_signed h]

theorem filter_signed : (signed neg ds).filter (· ≠ '_') = signed neg ds := by
  refine filter_eq_self.2 fun c hc => decide_eq_true ?_
  rintro rfl
  rcases mem_signed h hc with hm | hd
  · cases hm
  · cases hd

theorem hexBody_signed : hexBody (signed neg ds) = none := by
  have hdigit := h.isDigit
  unfold hexBody
  rw [dropSign_signed h]
  split
  · rename_i x rest
    have hx : x.isDigit := hdigit x (by simp)
    have hne : ∀ y : Char, ¬ y.isDigit → x ≠ y := fun y hy heq => hy (heq ▸ hx)
    simp [hne 'x' (by decide), hne 'X' (by decide)]
  · rfl

theorem parseFloat_signed :
    parseFloat (String.ofList (signed neg ds)) =
      (round (ofDigits ds) 1).map fun v => .finite ⟨neg, v⟩ := by
  have htake : ds.takeWhile Char.isDigit = ds := takeWhile_eq_self_iff.2 h.isDigit
  have hdrop : ds.dropWhile Char.isDigit = [] := dropWhile_eq_nil_iff.2 h.isDigit
  have hneg : decide ((signed neg ds).head? = some '-') = neg := by
    rw [Bool.eq_iff_iff, decide_eq_true_eq]
    exact head_signed h
  have hplain : '_' ∉ signed neg ds := fun hmem => by
    rw [← filter_signed h] at hmem
    simp at hmem
  have hread : readFloat (signed neg ds) = some ⟨neg, ofDigits ds, 10, 0⟩ := by
    rw [readFloat, if_neg fun hu => hplain hu.1]
    simp only [filter_signed h, hexBody_signed h]
    simp [mantissa, dropSign_signed h, htake, hdrop, h.ne_nil, hneg]
  simp [parseFloat, hread]

end Signed

/-- **The binary operators read an integer-shaped text as its integer.** -/
theorem parseShellNumber_of_isInteger (h : isInteger t) (side : Side) :
    parseShellNumber t side = .ok (.int (intValue t)) := by
  obtain ⟨neg, ds, hds, rfl⟩ := exists_signed h
  simp [parseShellNumber, isJSONNumber_signed hds, isIntegral_signed hds, setString_signed hds,
    intValue_signed hds]

theorem intText_eq_signed (i : Int) :
    intText i = String.ofList (signed (i < 0) (Nat.toDigits 10 i.natAbs)) := by
  simp [intText, signed]

theorem isInteger_intText (i : Int) : isInteger (intText i) := by
  rw [intText_eq_signed]
  exact isInteger_signed (canonical_toDigits _)

theorem intValue_intText (i : Int) : intValue (intText i) = i := by
  rw [intText_eq_signed, intValue_signed (canonical_toDigits _), ofDigits_toDigits, signedInt]
  by_cases h : i < 0
  · simp only [h, decide_true, if_true]
    omega
  · simp only [h, decide_false, Bool.false_eq_true, if_false]
    omega

/-! ## Unary minus -/

/-- The double nearest to `n` exists and prints as `n`. -/
def NegExact (n : Nat) : Prop := ∃ v, round n 1 = some v ∧ v.format = Nat.toDigits 10 n

theorem negExact_of_lt {n : Nat} (h : n < 2 ^ 53) : NegExact n := by
  rcases Nat.eq_zero_or_pos n with rfl | hn
  · exact ⟨⟨0, 0⟩, rfl, Mag.format_of_lt (by decide) rfl⟩
  · have hround := round_of_lt hn.ne' h
    exact ⟨_, hround, Mag.format_of_lt h hround⟩

theorem head_format (v : Mag) : v.format.head? ≠ some '-' := by
  have hdigits : ∀ n l, (Nat.toDigits 10 n ++ l).head? ≠ some '-' := by
    intro n l
    have hcan := canonical_toDigits n
    cases hds : Nat.toDigits 10 n with
    | nil => exact absurd hds Nat.toDigits_ne_nil
    | cons c cs =>
      rw [hds] at hcan
      simpa using hcan.head_ne (c := '-') (by decide)
  unfold Mag.format
  cases shortest v with
  | none => simp
  | some x =>
    rw [Option.elim_some, decimalText]
    split
    · simpa using hdigits _ []
    · exact hdigits _ _

theorem negateText_signed {neg : Bool} (h : Canonical ds) :
    negateText (String.ofList (signed neg ds)) =
      match round (ofDigits ds) 1 with
      | some v => .ok (String.ofList (signed (!neg) v.format))
      | none => .error (.negateOperand (String.ofList (signed neg ds))) := by
  rw [negateText, parseFloat_signed h]
  cases round (ofDigits ds) 1 with
  | none => rfl
  | some v => rfl

/-- A sign before a text without one is an integer-shaped text only if the text is digits. -/
theorem canonical_of_isInteger {neg : Bool} (hhead : cs.head? ≠ some '-')
    (h : isInteger (String.ofList (signed neg cs))) : Canonical cs := by
  have hcan : Canonical (dropMinus (signed neg cs)) := by simpa [isInteger, Canonical] using h
  have hdrop : dropMinus (signed neg cs) = cs := by
    cases neg with
    | true => rfl
    | false =>
      unfold signed dropMinus
      split <;> simp_all
  rwa [hdrop] at hcan

theorem signedInt_not {neg : Bool} {n k : Nat} : signedInt (!neg) k = -signedInt neg n ↔ k = n := by
  cases neg <;> simp [signedInt]

theorem natAbs_signedInt (neg : Bool) (n : Nat) : (signedInt neg n).natAbs = n := by
  cases neg <;> simp [signedInt]

/-- **Unary minus of an integer-shaped text is exact precisely where the double prints as the
integer.** -/
theorem negateText_exact_iff (h : isInteger t) :
    (∃ r, negateText t = .ok r ∧ isInteger r ∧ intValue r = -intValue t) ↔
      NegExact (intValue t).natAbs := by
  obtain ⟨neg, ds, hds, rfl⟩ := exists_signed h
  rw [intValue_signed hds, natAbs_signedInt, negateText_signed hds]
  constructor
  · rintro ⟨r, hr, hint, hval⟩
    cases hround : round (ofDigits ds) 1 with
    | none =>
      rw [hround] at hr
      cases hr
    | some v =>
      rw [hround] at hr
      cases hr
      have hcan := canonical_of_isInteger (head_format v) hint
      rw [intValue_signed hcan, signedInt_not] at hval
      exact ⟨v, hround, by rw [← hval, hcan.toDigits]⟩
  · rintro ⟨v, hround, hformat⟩
    have hcan : Canonical v.format := hformat ▸ canonical_toDigits _
    refine ⟨String.ofList (signed (!neg) v.format), by rw [hround], isInteger_signed hcan, ?_⟩
    rw [intValue_signed hcan, signedInt_not, hformat, ofDigits_toDigits]

/-! ## Binary operators -/

/-- The integer operation of an arithmetic operator, where it stays within the integers. -/
def ArithOp.int : ArithOp → Option (Int → Int → Int)
  | .add => some (· + ·)
  | .sub => some (· - ·)
  | .mul => some (· * ·)
  | .div => none
  | .mod => none

/-- The relation of a comparison operator on integers. -/
def CmpOp.holds : CmpOp → Int → Int → Prop
  | .eq, i, j => i = j
  | .ne, i, j => i ≠ j
  | .lt, i, j => i < j
  | .le, i, j => i ≤ j
  | .gt, i, j => j < i
  | .ge, i, j => j ≤ i

theorem evalArithmetic_int {op : ArithOp} {f : Int → Int → Int} (hop : op.int = some f)
    {l r : String} (hl : isInteger l) (hr : isInteger r) :
    evalArithmetic op l r = .ok (intText (f (intValue l) (intValue r))) := by
  unfold evalArithmetic
  rw [parseShellNumber_of_isInteger hl, parseShellNumber_of_isInteger hr]
  cases op with
  | add => cases hop; rfl
  | sub => cases hop; rfl
  | mul => cases hop; rfl
  | div => cases hop
  | mod => cases hop

theorem pass_compare (op : CmpOp) (i j : Int) : op.pass (compare i j) = true ↔ op.holds i j := by
  cases op with
  | eq => simp [CmpOp.pass, CmpOp.holds]
  | ne => simp [CmpOp.pass, CmpOp.holds]
  | lt => simp [CmpOp.pass, CmpOp.holds, compare_lt_iff_lt]
  | le => simp [CmpOp.pass, CmpOp.holds, compare_gt_iff_gt]
  | gt => simp [CmpOp.pass, CmpOp.holds, compare_gt_iff_gt]
  | ge => simp [CmpOp.pass, CmpOp.holds, compare_lt_iff_lt]

theorem evalNumericComparison_int (op : CmpOp) {l r : String} (hl : isInteger l)
    (hr : isInteger r) :
    ∃ b, evalNumericComparison op l r = .ok b ∧
      (b = true ↔ op.holds (intValue l) (intValue r)) := by
  refine ⟨_, ?_, pass_compare op _ _⟩
  unfold evalNumericComparison
  rw [parseShellNumber_of_isInteger hl, parseShellNumber_of_isInteger hr]
  rfl

/-! ## Expression trees -/

/-- The operators that stay within the integers. -/
inductive IntOp
  | add
  | sub
  | mul

def IntOp.arith : IntOp → ArithOp
  | add => .add
  | sub => .sub
  | mul => .mul

def IntOp.eval : IntOp → Int → Int → Int
  | add => (· + ·)
  | sub => (· - ·)
  | mul => (· * ·)

/-- Expressions built from integer-shaped literals. -/
inductive IntTree where
  | lit (text : String) (h : isInteger text)
  | op (o : IntOp) (l r : IntTree)
  | neg (x : IntTree)

namespace IntTree

/-- The tree as an expression of the shell. -/
def expr : IntTree → Expr
  | lit text _ => .literal text false
  | op o l r => .binary (.arith o.arith) l.expr r.expr
  | neg x => .negate x.expr

/-- The value of the tree in the integers. -/
def val : IntTree → Int
  | lit text _ => intValue text
  | op o l r => o.eval l.val r.val
  | neg x => -x.val

/-- The tree and its subtrees. -/
def parts : IntTree → List IntTree
  | lit text h => [lit text h]
  | op o l r => op o l r :: (l.parts ++ r.parts)
  | neg x => neg x :: x.parts

/-- Every operand of a unary minus has a magnitude that doubles print exactly. -/
def NegExact : IntTree → Prop
  | lit _ _ => True
  | op _ l r => l.NegExact ∧ r.NegExact
  | neg x => x.NegExact ∧ Shell.NegExact x.val.natAbs

theorem self_mem_parts (t : IntTree) : t ∈ t.parts := by
  cases t <;> simp [parts]

end IntTree

theorem literalValue_of_isInteger (h : isInteger t) : literalValue t false = .ok (.number t) := by
  -- none of the words of the language is an integer
  have hword : ∀ s : String, isInteger s = false → t ≠ s := by
    rintro s hs rfl
    rw [hs] at h
    cases h
  have hnum : isJSONNumber t := by
    obtain ⟨neg, ds, hds, rfl⟩ := exists_signed h
    exact isJSONNumber_signed hds
  rw [literalValue, if_neg (by decide), if_neg (hword "true" (by decide)),
    if_neg (hword "false" (by decide)), if_neg (hword "null" (by decide)), if_pos hnum]

section Trees

variable {W : Type} (host : Host W) (dispatch : List Arg → Eval W BindResult) (env : Env W)

/-- The shell evaluates the tree to a text of its integer. -/
def Agrees (t : IntTree) : Prop :=
  ∃ r, evalExpr host dispatch t.expr env = .ok (.number r) env ∧ isInteger r ∧ intValue r = t.val

variable {host dispatch env}

theorem agrees_lit {text : String} (h : isInteger text) :
    Agrees host dispatch env (.lit text h) := by
  refine ⟨text, ?_, h, rfl⟩
  simp [IntTree.expr, evalExpr, lift, literalValue_of_isInteger h]

theorem agrees_op {o : IntOp} {l r : IntTree} (hl : Agrees host dispatch env l)
    (hr : Agrees host dispatch env r) : Agrees host dispatch env (.op o l r) := by
  obtain ⟨tl, hel, hil, hvl⟩ := hl
  obtain ⟨tr, her, hir, hvr⟩ := hr
  have hop : o.arith.int = some o.eval := by cases o <;> rfl
  have hval := evalArithmetic_int hop hil hir
  refine ⟨intText (o.eval (intValue tl) (intValue tr)), ?_, isInteger_intText _, ?_⟩
  · rw [IntTree.expr, evalExpr, bind_of_ok hel, bind_of_ok her]
    simp [evalBinary, Value.scalar, Value.number, Value.isNull, scalarError, numberError, hval,
      lift, bind, Except.bind]
  · rw [intValue_intText, hvl, hvr, IntTree.val]

theorem agrees_neg_iff {x : IntTree} (hx : Agrees host dispatch env x) :
    Agrees host dispatch env (.neg x) ↔ NegExact x.val.natAbs := by
  obtain ⟨t, he, hi, hv⟩ := hx
  have heval : evalExpr host dispatch (IntTree.neg x).expr env =
      match negateText t with
      | .ok r => .ok (.number r) env
      | .error e => .err (.number e) env := by
    rw [IntTree.expr, evalExpr, bind_of_ok he]
    cases hneg : negateText t <;>
      simp [evalNegate, Value.scalar, Value.number, Value.isNull, scalarError, numberError, hneg,
        lift, bind, Except.bind]
  rw [← hv, ← negateText_exact_iff hi]
  constructor
  · rintro ⟨r, hr, hir, hvr⟩
    rw [heval] at hr
    cases hneg : negateText t with
    | error e =>
      rw [hneg] at hr
      cases hr
    | ok r' =>
      rw [hneg] at hr
      have hrr : r' = r := by simpa [Value.number] using hr
      subst hrr
      exact ⟨r', rfl, hir, by rw [hvr, IntTree.val, hv]⟩
  · rintro ⟨r, hr, hir, hvr⟩
    refine ⟨r, ?_, hir, by rw [hvr, IntTree.val, hv]⟩
    rw [heval, hr]

/-- Every part of a tree agrees with the integers precisely when its minus signs are exact. -/
theorem agrees_parts_iff (t : IntTree) :
    (∀ s ∈ t.parts, Agrees host dispatch env s) ↔ t.NegExact := by
  induction t with
  | lit text h => simpa [IntTree.parts, IntTree.NegExact] using agrees_lit h
  | op o l r ihl ihr =>
    rw [IntTree.NegExact, ← ihl, ← ihr]
    constructor
    · intro h
      exact ⟨fun s hs => h s (by simp [IntTree.parts, hs]),
        fun s hs => h s (by simp [IntTree.parts, hs])⟩
    · rintro ⟨hl, hr⟩ s hs
      simp only [IntTree.parts, mem_cons, mem_append] at hs
      rcases hs with rfl | hs | hs
      · exact agrees_op (hl l l.self_mem_parts) (hr r r.self_mem_parts)
      · exact hl s hs
      · exact hr s hs
  | neg x ih =>
    rw [IntTree.NegExact, ← ih]
    constructor
    · intro h
      have hx : ∀ s ∈ x.parts, Agrees host dispatch env s := fun s hs =>
        h s (by simp [IntTree.parts, hs])
      exact ⟨hx, (agrees_neg_iff (hx x x.self_mem_parts)).1 (h _ (by simp [IntTree.parts]))⟩
    · rintro ⟨hx, hexact⟩ s hs
      rcases mem_cons.1 hs with rfl | hs
      · exact (agrees_neg_iff (hx x x.self_mem_parts)).2 hexact
      · exact hx s hs

theorem evalExpr_compare {op : CmpOp} {l r : IntTree} (hl : Agrees host dispatch env l)
    (hr : Agrees host dispatch env r) :
    ∃ b, evalExpr host dispatch (.binary (.cmp op) l.expr r.expr) env = .ok (.bool b) env ∧
      (b = true ↔ op.holds l.val r.val) := by
  obtain ⟨tl, hel, hil, hvl⟩ := hl
  obtain ⟨tr, her, hir, hvr⟩ := hr
  obtain ⟨b, hb, hholds⟩ := evalNumericComparison_int op hil hir
  refine ⟨b, ?_, by rw [hholds, hvl, hvr]⟩
  rw [evalExpr, bind_of_ok hel, bind_of_ok her]
  simp [evalBinary, evalCompare, compareKind, Value.scalar, Value.number, Value.isNull,
    scalarError, numberError, hb, lift, bind, Except.bind]

/-- **Arithmetic and comparisons on integers of any length are exact precisely up to unary minus.**
Every part of a tree evaluates to its integer if and only if each unary minus meets a magnitude
that its double prints exactly, which all below `2 ^ 53` are; and comparisons of such trees have the
truth value of the integers. -/
theorem integer_arithmetic_exact_iff (host : Host W) (dispatch : List Arg → Eval W BindResult)
    (env : Env W) :
    (∀ t : IntTree, (∀ s ∈ t.parts, Agrees host dispatch env s) ↔ t.NegExact) ∧
    (∀ (op : CmpOp) (l r : IntTree), l.NegExact → r.NegExact →
      ∃ b, evalExpr host dispatch (.binary (.cmp op) l.expr r.expr) env = .ok (.bool b) env ∧
        (b = true ↔ op.holds l.val r.val)) ∧
    ∀ n, n < 2 ^ 53 → NegExact n := by
  refine ⟨agrees_parts_iff, ?_, fun n => negExact_of_lt⟩
  intro op l r hl hr
  exact evalExpr_compare (agrees_parts_iff l |>.2 hl l l.self_mem_parts)
    (agrees_parts_iff r |>.2 hr r r.self_mem_parts)

end Trees

/-- Twice minus a number of 16 digits. -/
theorem integer_arithmetic_exact_iff_sample :
    let x : IntTree := .neg (.neg (.lit "9007199254740991" (by decide)))
    x.NegExact ∧ Agrees Host.idle (fun _ => stop .fuel) { frames := [[]], world := () } x := by
  have hexact : NegExact 9007199254740991 := negExact_of_lt (by decide)
  intro x
  have hx : x.NegExact := ⟨⟨trivial, hexact⟩, hexact⟩
  exact ⟨hx, (integer_arithmetic_exact_iff Host.idle _ _).1 x |>.2 hx x x.self_mem_parts⟩

/-- Minus `2 ^ 53 + 1` evaluates to a text of `-2 ^ 53`. -/
theorem unary_minus_loses_a_digit :
    evalExpr Host.idle (fun _ => stop .fuel) (.negate (.literal "9007199254740993" false))
        { frames := [[]], world := () } =
      .ok (.number "-9007199254740992") { frames := [[]], world := () } ∧
    intValue "-9007199254740992" ≠ 0 - intValue "9007199254740993" := by
  have hlit : literalValue "9007199254740993" false = .ok (.number "9007199254740993") :=
    literalValue_of_isInteger (by decide)
  have hneg : negateText "9007199254740993" = .ok "-9007199254740992" := by decide +kernel
  refine ⟨?_, by decide⟩
  simp [evalExpr, hlit, evalNegate, Value.scalar, Value.number, Value.isNull,
    scalarError, numberError, hneg, lift, bind, Except.bind]

end Bpfman.Shell
