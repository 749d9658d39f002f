import Bpfman.Types
import Bpfman.Lib.JsonInts
import Bpfman.Lib.Proc
import Mathlib.Data.Nat.Bitwise

/-!
# Proceed-on masks

`dispatcher.go`: the dispatcher program holds one bitmask a slot, and a link record holds the
action codes. `proceedOnMask` encodes codes, `proceedOnActions` decodes a mask. TC masks are shifted
by one because a TC action code can be `-1`.

Main results:
* `proceedOnMask_actions`: a mask that decodes is the encoding of what it decodes to, so a member's
  mask survives being stored as codes and read back.
* `proceedOn_roundtrip`: what encoding accepts, what decoding gives back, and the stored text.
-/

namespace Bpfman

open List Fallible.Proc

variable (dt : DispatcherType) {code : Int} {m : Nat} {as codes : List Int}

def maxPrograms : Nat := 10

def proceedOnOffset : DispatcherType → Int
  | .xdp => 0
  | .tcIngress | .tcEgress => 1

/-- Whether `XDPActionFromInt32` or `TCActionFromInt32` knows the code. -/
def validCode : DispatcherType → Int → Bool
  | .xdp, code => (0 ≤ code && code ≤ 4) || code == 31
  | .tcIngress, code | .tcEgress, code => (-1 ≤ code && code ≤ 8) || code == 30

def validateProceedOnCode (code : Int) : Except Err Unit :=
  if validCode dt code then .ok ()
  else match dt with
    | .xdp => .error (.msg s!"unknown XDP action code {code}")
    | .tcIngress | .tcEgress => .error (.msg s!"unknown TC action code {code}")

/-- One round of the loop of `ProceedOnMask`. -/
def addProceedOnCode (mask : Nat) (code : Int) : Except Err Nat := do
  validateProceedOnCode dt code
  let bit := code + proceedOnOffset dt
  if bit < 0 || bit ≥ 32 then
    .error (.msg s!"proceed-on action code {code} maps to invalid bit {bit}")
  else
    .ok (mask ||| 1 <<< bit.toNat)

def proceedOnMask (codes : List Int) : Except Err Nat :=
  codes.foldlM (addProceedOnCode dt) 0

/-- One round of the loop of `ProceedOnActions`. -/
def addProceedOnBit (mask : Nat) (actions : List Int) (bit : Nat) : Except Err (List Int) :=
  if mask.testBit bit then do
    validateProceedOnCode dt ((bit : Int) - proceedOnOffset dt)
    .ok (actions ++ [(bit : Int) - proceedOnOffset dt])
  else .ok actions

def proceedOnActions (mask : Nat) : Except Err (List Int) :=
  (range 32).foldlM (addProceedOnBit dt mask) []

/-! ## The two loops in closed form -/

variable {dt}

theorem validateProceedOnCode_eq_ok {u : Unit} :
    validateProceedOnCode dt code = .ok u ↔ validCode dt code = true := by
  unfold validateProceedOnCode
  by_cases h : validCode dt code = true
  · simp [h]
  · cases dt <;> simp [h]

/-- The bit of a valid code is in range, so the range check of `ProceedOnMask` never fires. -/
theorem validCode_bit (h : validCode dt code = true) :
    0 ≤ code + proceedOnOffset dt ∧ code + proceedOnOffset dt < 32 := by
  cases dt <;> simp [validCode, proceedOnOffset] at h ⊢ <;> omega

/-- The bit a code stands for. -/
def codeBit (dt : DispatcherType) (code : Int) : Nat := (code + proceedOnOffset dt).toNat

theorem codeBit_sub (h : validCode dt code = true) :
    ((codeBit dt code : Nat) : Int) - proceedOnOffset dt = code := by
  have := validCode_bit h
  unfold codeBit
  omega

theorem addProceedOnCode_eq_ok {m' : Nat} :
    addProceedOnCode dt m code = .ok m' ↔
      validCode dt code = true ∧ m' = m ||| 1 <<< codeBit dt code := by
  unfold addProceedOnCode
  rw [except_bind_eq_ok]
  simp only [validateProceedOnCode_eq_ok, exists_const]
  refine and_congr_right fun h => ?_
  have hb := validCode_bit h
  have hr : ¬ ((decide (code + proceedOnOffset dt < 0) ||
      decide (code + proceedOnOffset dt ≥ 32)) = true) := by
    simp only [Bool.or_eq_true, decide_eq_true_eq]
    omega
  rw [if_neg hr, Except.ok.injEq]
  exact eq_comm

theorem proceedOnMask_go {m' : Nat} :
    codes.foldlM (addProceedOnCode dt) m = .ok m' ↔
      (∀ c ∈ codes, validCode dt c = true) ∧
        m' = codes.foldl (fun a c => a ||| 1 <<< codeBit dt c) m :=
  foldlM_eq_ok fun m c m' => @addProceedOnCode_eq_ok dt c m m'

theorem addProceedOnBit_eq_ok {b : Nat} {as' : List Int} :
    addProceedOnBit dt m as b = .ok as' ↔
      (m.testBit b = true → validCode dt (b - proceedOnOffset dt) = true) ∧
        as' = as ++ if m.testBit b then [(b : Int) - proceedOnOffset dt] else [] := by
  unfold addProceedOnBit
  by_cases hb : m.testBit b = true
  · simp only [hb, if_true, forall_const]
    rw [except_bind_eq_ok]
    simp only [validateProceedOnCode_eq_ok, exists_const, Except.ok.injEq]
    exact and_congr_right fun _ => eq_comm
  · simp only [hb, Bool.false_eq_true, if_false, false_imp_iff, true_and, append_nil,
      Except.ok.injEq]
    exact eq_comm

/-- The codes of the bits of `m` among `bits`. -/
def bitCodes (dt : DispatcherType) (m : Nat) (bits : List Nat) : List Int :=
  (bits.filter fun b => m.testBit b).map fun (b : Nat) => (b : Int) - proceedOnOffset dt

theorem proceedOnActions_go {bits : List Nat} {as' : List Int} :
    bits.foldlM (addProceedOnBit dt m) as = .ok as' ↔
      (∀ b ∈ bits, m.testBit b = true → validCode dt (b - proceedOnOffset dt) = true) ∧
        as' = as ++ bitCodes dt m bits := by
  rw [foldlM_eq_ok fun as b as' => @addProceedOnBit_eq_ok dt m as b as']
  refine and_congr_right' (Eq.congr_right ?_)
  induction bits generalizing as with
  | nil => simp [bitCodes]
  | cons b bits ih =>
    rw [foldl_cons, ih]
    by_cases hm : m.testBit b = true <;> simp [bitCodes, hm]

/-! ## Round trip -/

theorem testBit_foldl_or {α : Type} (f : α → Nat) (b : Nat) : ∀ (l : List α) (m : Nat),
    (l.foldl (fun a x => a ||| 1 <<< f x) m).testBit b = true ↔
      m.testBit b = true ∨ ∃ x ∈ l, f x = b
  | [], m => by simp
  | x :: l, m => by
    rw [foldl_cons, testBit_foldl_or f b l]
    simp only [Nat.testBit_or, Nat.one_shiftLeft, Nat.testBit_two_pow, Bool.or_eq_true,
      decide_eq_true_eq, mem_cons, exists_eq_or_imp]
    tauto

theorem proceedOnMask_testBit (h : proceedOnMask dt codes = .ok m) (b : Nat) :
    m.testBit b = true ↔ ∃ c ∈ codes, codeBit dt c = b := by
  obtain ⟨-, rfl⟩ := proceedOnMask_go.1 h
  rw [testBit_foldl_or]
  simp

/-- Every mask fits in 32 bits. -/
theorem proceedOnMask_bit_lt {b : Nat}
    (h : proceedOnMask dt codes = .ok m) (hb : m.testBit b = true) : b < 32 := by
  obtain ⟨c, hc, rfl⟩ := (proceedOnMask_testBit h b).1 hb
  have hv := validCode_bit ((proceedOnMask_go.1 h).1 c hc)
  unfold codeBit
  omega

/-- **A decoded mask encodes back to itself.** -/
theorem proceedOnMask_actions
    (hm : ∀ b, m.testBit b = true → b < 32) (h : proceedOnActions dt m = .ok as) :
    proceedOnMask dt as = .ok m := by
  obtain ⟨hv, rfl⟩ := proceedOnActions_go.1 h
  refine proceedOnMask_go.2 ⟨?_, ?_⟩
  · intro c hc
    simp only [nil_append, bitCodes, mem_map, mem_filter] at hc
    obtain ⟨b, ⟨hb, hmb⟩, rfl⟩ := hc
    exact hv b hb hmb
  · refine Nat.eq_of_testBit_eq fun b => ?_
    rw [Bool.eq_iff_iff, testBit_foldl_or]
    simp only [Nat.zero_testBit, Bool.false_eq_true, false_or, nil_append, bitCodes,
      mem_map, mem_filter, mem_range]
    constructor
    · intro hb
      refine ⟨_, ⟨b, ⟨hm b hb, hb⟩, rfl⟩, ?_⟩
      simp [codeBit]
    · rintro ⟨c, ⟨b', ⟨-, hb'⟩, rfl⟩, hc⟩
      simp only [codeBit, Int.sub_add_cancel, Int.toNat_natCast] at hc
      exact hc ▸ hb'

/-- A mask made from valid codes decodes. -/
theorem proceedOnActions_isOk
    (h : proceedOnMask dt codes = .ok m) : ∃ as, proceedOnActions dt m = .ok as := by
  refine ⟨_, proceedOnActions_go.2 ⟨fun b _ hb => ?_, rfl⟩⟩
  obtain ⟨c, hc, rfl⟩ := (proceedOnMask_testBit h b).1 hb
  have hv := (proceedOnMask_go.1 h).1 c hc
  rwa [codeBit_sub hv]

theorem bitCodes_sorted (dt : DispatcherType) (m : Nat) (n : Nat) :
    (bitCodes dt m (range n)).Pairwise (· < ·) := by
  refine List.Pairwise.map _ ?_ (List.Pairwise.filter _ pairwise_lt_range)
  omega

theorem mem_proceedOnActions
    (h : proceedOnMask dt codes = .ok m) (ha : proceedOnActions dt m = .ok as) (c : Int) :
    c ∈ as ↔ c ∈ codes := by
  have hvalid := (proceedOnMask_go.1 h).1
  obtain ⟨-, rfl⟩ := proceedOnActions_go.1 ha
  simp only [nil_append, bitCodes, mem_map, mem_filter, mem_range]
  constructor
  · rintro ⟨b, ⟨-, hb⟩, rfl⟩
    obtain ⟨c, hc, rfl⟩ := (proceedOnMask_testBit h b).1 hb
    rwa [codeBit_sub (hvalid c hc)]
  · intro hc
    have hb := (proceedOnMask_testBit h (codeBit dt c)).2 ⟨c, hc, rfl⟩
    exact ⟨codeBit dt c, ⟨proceedOnMask_bit_lt h hb, hb⟩, codeBit_sub (hvalid c hc)⟩

/-! ## The stored text -/

def proceedOnToJSON (dt : DispatcherType) (mask : Nat) : Except Err String := do
  let actions ← proceedOnActions dt mask
  if actions.length = 0 then .ok "[]" else .ok (JsonInts.encode actions)

/-- The mask of a stored text, as `GetDispatcherSnapshot` reads it. -/
def proceedOnFromJSON (dt : DispatcherType) (text : String) : Except Err Nat :=
  match JsonInts.decode text with
  | none => .error (.msg "unmarshal proceed_on")
  | some actions => proceedOnMask dt actions

theorem inRange_of_validCode (h : validCode dt code = true) : JsonInts.inRange code = true := by
  have hbit := validCode_bit h
  have hoff : 0 ≤ proceedOnOffset dt ∧ proceedOnOffset dt ≤ 1 := by
    cases dt <;> simp [proceedOnOffset]
  simp only [JsonInts.inRange, Bool.and_eq_true, decide_eq_true_eq]
  omega

theorem proceedOnFromJSON_toJSON {text : String} (hm : m < 2 ^ 32)
    (h : proceedOnToJSON dt m = .ok text) : proceedOnFromJSON dt text = .ok m := by
  have hbits : ∀ b, m.testBit b = true → b < 32 := fun b hb => by
    by_contra hlt
    exact absurd hb (by simp [Nat.testBit_lt_two_pow (hm.trans_le
      (Nat.pow_le_pow_right (by decide) (Nat.le_of_not_lt hlt)))])
  unfold proceedOnToJSON at h
  cases ha : proceedOnActions dt m with
  | error e =>
    rw [ha] at h
    cases h
  | ok as =>
    rw [ha] at h
    have hmask := proceedOnMask_actions hbits ha
    have hdecode : JsonInts.decode text = some as := by
      cases as with
      | nil =>
        cases h
        rfl
      | cons a as =>
        cases h
        exact JsonInts.decode_encode fun c hc =>
          inRange_of_validCode ((proceedOnMask_go.1 hmask).1 c hc)
    unfold proceedOnFromJSON
    rw [hdecode]
    exact hmask

theorem proceedOnMask_lt (h : proceedOnMask dt codes = .ok m) : m < 2 ^ 32 := by
  refine Nat.lt_pow_two_of_testBit m fun b hb => ?_
  by_contra hbit
  have := proceedOnMask_bit_lt h (by simpa using hbit)
  omega

/-- **Proceed-on masks.** Encoding accepts exactly the codes of the type; decoding the mask gives
those codes in increasing order, each once; and the stored text of a mask reads back as the mask,
which every accepted mask has. -/
theorem proceedOn_roundtrip (dt : DispatcherType) :
    (∀ codes : List Int,
      ((∃ m, proceedOnMask dt codes = .ok m) ↔ ∀ c ∈ codes, validCode dt c = true) ∧
      ∀ m, proceedOnMask dt codes = .ok m →
        (∃ as, proceedOnActions dt m = .ok as ∧ as.Pairwise (· < ·) ∧ ∀ c, c ∈ as ↔ c ∈ codes) ∧
        ∃ text, proceedOnToJSON dt m = .ok text ∧ proceedOnFromJSON dt text = .ok m) ∧
    ∀ m text, m < 2 ^ 32 → proceedOnToJSON dt m = .ok text → proceedOnFromJSON dt text = .ok m := by
  refine ⟨fun codes => ⟨⟨?_, ?_⟩, fun m h => ?_⟩, fun m text hm h => proceedOnFromJSON_toJSON hm h⟩
  · rintro ⟨m, h⟩
    exact (proceedOnMask_go.1 h).1
  · intro h
    exact ⟨_, proceedOnMask_go.2 ⟨h, rfl⟩⟩
  · obtain ⟨as, ha⟩ := proceedOnActions_isOk h
    refine ⟨⟨as, ha, ?_, mem_proceedOnActions h ha⟩, ?_⟩
    · obtain ⟨-, rfl⟩ := proceedOnActions_go.1 ha
      exact bitCodes_sorted dt m 32
    · have htext : ∃ text, proceedOnToJSON dt m = .ok text := by
        unfold proceedOnToJSON
        rw [ha]
        by_cases hnil : as.length = 0
        · exact ⟨_, if_pos hnil⟩
        · exact ⟨_, if_neg hnil⟩
      obtain ⟨text, htext⟩ := htext
      exact ⟨text, htext, proceedOnFromJSON_toJSON (proceedOnMask_lt h) htext⟩

example : proceedOnMask .xdp [2, 31] = .ok 2147483652 := by rfl
example : proceedOnActions .tcIngress 2147483664 = .ok [3, 30] := by rfl

end Bpfman
