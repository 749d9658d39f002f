import Bpfman.Lib.Decimal
import Bpfman.Types
import Mathlib.Data.List.Forall2

/-!
# Names on bpffs

The base names of dispatcher revision directories and dispatcher link pins: how
`fs/bpffs_layout.go` writes them, how `fs/scanner.go` reads them, and what the removal functions of
`fs/bpffs_ops.go` take for one.

* `readParts_agree_iff` — two readers of one layout that differ in the widths of its numbers;
* `dispatcher_names_iff` — the names on which removal and scanner agree.
-/

namespace Bpfman

open Decimal List

variable {bits ns : List Nat}

/-! ## Reading and writing -/

/-- `strconv.ParseUint(s, 10, bits)`. -/
def parseUint (bits : Nat) (s : List Char) : Option Nat :=
  if s ≠ [] ∧ s.all Char.isDigit = true ∧ Nat.ofDigitChars 10 s 0 < 2 ^ bits then
    some (Nat.ofDigitChars 10 s 0)
  else none

/-- One number for each width. -/
def readParts : List Nat → List (List Char) → Option (List Nat)
  | [], [] => some []
  | b :: bits, p :: parts => (parseUint b p).bind fun n => (readParts bits parts).map (n :: ·)
  | _, _ => none

/-- What stands between the underscores behind `dispatcher_`. -/
def revDirParts (name : String) : Option (List (List Char)) :=
  if "dispatcher_".toList.isPrefixOf name.toList then some ((name.toList.drop 11).splitOn '_')
  else none

def trimSuffix (suffix s : List Char) : List Char :=
  if suffix.isSuffixOf s then s.take (s.length - suffix.length) else s

/-- What stands between the underscores of `dispatcher_…_link`. -/
def linkPinParts (name : String) : Option (List (List Char)) :=
  if "dispatcher_".toList.isPrefixOf name.toList ∧ "_link".toList.isSuffixOf name.toList then
    some ((trimSuffix "_link".toList (name.toList.drop 11)).splitOn '_')
  else none

/-- `parseDispatcherDirName`: namespace, interface and revision. -/
def parseDispatcherDirName (name : String) : Option (List Nat) :=
  (revDirParts name).bind (readParts [64, 32, 32])

/-- `parseDispatcherLinkName`: namespace and interface. -/
def parseDispatcherLinkName (name : String) : Option (List Nat) :=
  (linkPinParts name).bind (readParts [64, 32])

/-- The name check of `validateDispatcherRevDirPath`. -/
def validDispatcherRevDirName (name : String) : Bool :=
  ((revDirParts name).bind (readParts [64, 64, 64])).isSome

/-- The name check of `RemoveDispatcherLinkPin`. -/
def validDispatcherLinkName (name : String) : Bool :=
  ((linkPinParts name).bind (readParts [64, 64])).isSome

/-- The base name of `DispatcherRevisionDir`. -/
def dispatcherDirName (nsid ifindex revision : Nat) : String :=
  s!"dispatcher_{nsid}_{ifindex}_{revision}"

/-- The base name of `DispatcherLinkPath`. -/
def dispatcherLinkName (nsid ifindex : Nat) : String := s!"dispatcher_{nsid}_{ifindex}_link"

/-! ## Numbers -/

theorem parseUint_eq_some {bits n : Nat} {s : List Char} : parseUint bits s = some n ↔
    (s ≠ [] ∧ ∀ c ∈ s, c.isDigit = true) ∧ Nat.ofDigitChars 10 s 0 = n ∧ n < 2 ^ bits := by
  unfold parseUint
  rw [Option.ite_none_right_eq_some, Option.some.injEq, all_eq_true]
  constructor
  · rintro ⟨⟨hne, hall, hlt⟩, rfl⟩
    exact ⟨⟨hne, hall⟩, rfl, hlt⟩
  · rintro ⟨⟨hne, hall⟩, rfl, hlt⟩
    exact ⟨⟨hne, hall, hlt⟩, rfl⟩

theorem parseUint_toDigits {bits n : Nat} (h : n < 2 ^ bits) :
    parseUint bits (Nat.toDigits 10 n) = some n :=
  have hnum := numeral_toDigits n
  parseUint_eq_some.2 ⟨⟨hnum.ne_nil, hnum.isDigit⟩, Nat.ofDigitChars_ten_toDigits, h⟩

/-- A number that fits, written as it is printed. -/
def Regular (bits : Nat) (p : List Char) : Prop := Numeral p ∧ Nat.ofDigitChars 10 p 0 < 2 ^ bits

theorem readParts_toDigits (h : Forall₂ (fun b n => n < 2 ^ b) bits ns) :
    readParts bits (ns.map (Nat.toDigits 10)) = some ns := by
  induction h with
  | nil => rfl
  | cons hn _ ih => simp [readParts, parseUint_toDigits hn, ih]

theorem exists_readParts {parts : List (List Char)}
    (h : Forall₂ Regular bits parts) : ∃ ns, readParts bits parts = some ns := by
  induction h with
  | nil => exact ⟨[], rfl⟩
  | @cons b p bits parts hp _ ih =>
    obtain ⟨ns, hns⟩ := ih
    have hread := parseUint_eq_some.2 ⟨⟨hp.1.ne_nil, hp.1.isDigit⟩, rfl, hp.2⟩
    exact ⟨Nat.ofDigitChars 10 p 0 :: ns, by simp [readParts, hread, hns]⟩

/-- What is read is read with wider numbers too, and prints back exactly when it is regular. -/
theorem readParts_eq_some (hbits : ∀ b ∈ bits, b ≤ 64) {parts : List (List Char)}
    (h : readParts bits parts = some ns) :
    readParts (bits.map fun _ => 64) parts = some ns ∧
      (ns.map (Nat.toDigits 10) = parts ↔ Forall₂ Regular bits parts) := by
  fun_induction readParts bits parts generalizing ns with
  | case1 =>
    cases h
    exact ⟨rfl, by simp⟩
  | case2 b bits p parts ih =>
    obtain ⟨n, hn, h⟩ := Option.bind_eq_some_iff.1 h
    obtain ⟨ns, hns, rfl⟩ := Option.map_eq_some_iff.1 h
    obtain ⟨hwide, hiff⟩ := ih (fun c hc => hbits c (mem_cons_of_mem _ hc)) hns
    obtain ⟨hdigits, rfl, hlt⟩ := parseUint_eq_some.1 hn
    have hlt' := hlt.trans_le (Nat.pow_le_pow_right (by decide) (hbits b mem_cons_self))
    constructor
    · simp only [map_cons, readParts, hwide, parseUint_eq_some.2 ⟨hdigits, rfl, hlt'⟩]
      rfl
    · rw [map_cons, cons.injEq, hiff, forall₂_cons]
      exact and_congr_left fun _ =>
        ⟨fun heq => ⟨heq ▸ numeral_toDigits _, hlt⟩, fun hr => hr.1.toDigits⟩
  | case3 => cases h

/-- **Two readers that differ in their widths** agree on a list of parts, and the narrow one reads
it as it is printed, exactly when the parts the wide one takes are regular. -/
theorem readParts_agree_iff (hbits : ∀ b ∈ bits, b ≤ 64) {parts : List (List Char)} :
    ((readParts (bits.map fun _ => 64) parts).isSome = (readParts bits parts).isSome ∧
        ∀ ns, readParts bits parts = some ns → ns.map (Nat.toDigits 10) = parts) ↔
      ((readParts (bits.map fun _ => 64) parts).isSome → Forall₂ Regular bits parts) := by
  constructor
  · rintro ⟨hsame, hprint⟩ hwide
    obtain ⟨ns, hns⟩ := Option.isSome_iff_exists.1 (hsame ▸ hwide)
    exact (readParts_eq_some hbits hns).2.1 (hprint ns hns)
  · intro h
    have hwide : ∀ {ns}, readParts bits parts = some ns →
        (readParts (bits.map fun _ => 64) parts).isSome = true := by
      intro ns hns
      rw [(readParts_eq_some hbits hns).1]
      rfl
    refine ⟨Bool.eq_iff_iff.2 ⟨fun hw => ?_, fun hn => ?_⟩, fun ns hns => ?_⟩
    · obtain ⟨ns, hns⟩ := exists_readParts (h hw)
      rw [hns]
      rfl
    · obtain ⟨ns, hns⟩ := Option.isSome_iff_exists.1 hn
      exact hwide hns
    · exact (readParts_eq_some hbits hns).2.2 (h (hwide hns))

/-! ## Names -/

theorem toList_dispatcherDirName (n i r : Nat) : (dispatcherDirName n i r).toList =
    "dispatcher_".toList ++ ['_'].intercalate ([n, i, r].map (Nat.toDigits 10)) := by
  simp [dispatcherDirName, intercalate]
  rfl

theorem toList_dispatcherLinkName (n i : Nat) : (dispatcherLinkName n i).toList =
    "dispatcher_".toList ++
    (['_'].intercalate ([n, i].map (Nat.toDigits 10)) ++ "_link".toList) := by
  simp [dispatcherLinkName, intercalate]
  rfl

theorem splitOn_numbers (h : ns ≠ []) :
    (['_'].intercalate (ns.map (Nat.toDigits 10))).splitOn '_' = ns.map (Nat.toDigits 10) := by
  refine splitOn_intercalate '_' (fun p hp => ?_) (by simpa using h)
  obtain ⟨n, -, rfl⟩ := mem_map.1 hp
  exact Nat.underscore_not_in_toDigits

theorem trimSuffix_append (suffix s : List Char) : trimSuffix suffix (s ++ suffix) = s := by
  simp [trimSuffix]

theorem drop_dispatcher (t : List Char) : ("dispatcher_".toList ++ t).drop 11 = t := rfl

theorem revDirParts_dirName (n i r : Nat) :
    revDirParts (dispatcherDirName n i r) = some ([n, i, r].map (Nat.toDigits 10)) := by
  unfold revDirParts
  rw [toList_dispatcherDirName, if_pos ( isPrefixOf_iff_prefix.2 (prefix_append ..)),
    drop_dispatcher, splitOn_numbers (by simp)]

theorem linkPinParts_linkName (n i : Nat) :
    linkPinParts (dispatcherLinkName n i) = some ([n, i].map (Nat.toDigits 10)) := by
  unfold linkPinParts
  rw [toList_dispatcherLinkName, if_pos, drop_dispatcher, trimSuffix_append,
    splitOn_numbers (by simp)]
  refine ⟨ isPrefixOf_iff_prefix.2 (prefix_append ..), ?_⟩
  rw [← append_assoc]
  exact isSuffixOf_iff_suffix.2 (suffix_append ..)

theorem toList_of_revDirParts {name : String} {ps : List (List Char)}
    (h : revDirParts name = some ps) :
    name.toList = "dispatcher_".toList ++ ['_'].intercalate ps := by
  unfold revDirParts at h
  rw [Option.ite_none_right_eq_some] at h
  obtain ⟨hpre, h⟩ := h
  cases h
  obtain ⟨t, ht⟩ := isPrefixOf_iff_prefix.1 hpre
  rw [← ht, drop_dispatcher, intercalate_splitOn]

/-- The two ends of a link name overlap only in `dispatcher_link`, which has one part. -/
theorem toList_of_linkPinParts {name : String} {p q : List Char}
    (h : linkPinParts name = some [p, q]) :
    name.toList = "dispatcher_".toList ++ (['_'].intercalate [p, q] ++ "_link".toList) := by
  unfold linkPinParts at h
  rw [Option.ite_none_right_eq_some] at h
  obtain ⟨⟨hpre, hsuf⟩, h⟩ := h
  obtain ⟨t, ht⟩ := isPrefixOf_iff_prefix.1 hpre
  have hsuf := isSuffixOf_iff_suffix.1 hsuf
  rw [← ht] at hsuf h ⊢
  rw [drop_dispatcher, Option.some.injEq] at h
  by_cases hlen : "_link".toList.length ≤ t.length
  · obtain ⟨u, rfl⟩ := suffix_of_suffix_length_le hsuf (suffix_append ..) hlen
    rw [trimSuffix_append] at h
    rw [← h, intercalate_splitOn]
  · -- what is left of the name is shorter than `_link` and ends it
    have htail : t <:+ ['l', 'i', 'n', 'k'] := by
      have ht' : t <:+ "_link".toList :=
        suffix_of_suffix_length_le (suffix_append ..) hsuf (by omega)
      rcases suffix_cons_iff.1 ht' with rfl | ht'
      · exact absurd le_rfl hlen
      · exact ht'
    have hnot : '_' ∉ trimSuffix "_link".toList t := by
      rw [trimSuffix, if_neg fun hs => hlen (isSuffixOf_iff_suffix.1 hs).length_le]
      intro hmem
      exact absurd (htail.mem hmem) (by decide)
    rw [splitOn_eq_singleton hnot] at h
    simp at h

/-! ## Removal and scanner -/

/-- A name is taken for a revision directory by the removal exactly when the scanner reads it as
one, and what the scanner reads prints as the name. -/
def RevDirAgrees (name : String) : Prop :=
  validDispatcherRevDirName name = (parseDispatcherDirName name).isSome ∧
    ∀ n i r, parseDispatcherDirName name = some [n, i, r] → dispatcherDirName n i r = name

def LinkPinAgrees (name : String) : Prop :=
  validDispatcherLinkName name = (parseDispatcherLinkName name).isSome ∧
    ∀ n i, parseDispatcherLinkName name = some [n, i] → dispatcherLinkName n i = name

theorem length_readParts {parts : List (List Char)} (h : readParts bits parts = some ns) :
    parts.length = bits.length ∧ ns.length = bits.length := by
  fun_induction readParts bits parts generalizing ns with
  | case1 =>
    cases h
    exact ⟨rfl, rfl⟩
  | case2 b bits p parts ih =>
    obtain ⟨n, -, h⟩ := Option.bind_eq_some_iff.1 h
    obtain ⟨ns, hns, rfl⟩ := Option.map_eq_some_iff.1 h
    simpa using ih hns
  | case3 => cases h

theorem revDirAgrees_iff (name : String) : RevDirAgrees name ↔
    ∀ ps, revDirParts name = some ps → validDispatcherRevDirName name →
      Forall₂ Regular [64, 32, 32] ps := by
  unfold RevDirAgrees validDispatcherRevDirName parseDispatcherDirName
  cases hps : revDirParts name with
  | none => simp
  | some ps =>
    simp only [Option.bind_some, Option.some.injEq, forall_eq']
    refine Iff.trans (and_congr_right fun _ => ?_)
      (@readParts_agree_iff [64, 32, 32] (by decide) ps)
    constructor
    · intro h ns hns
      obtain ⟨n, i, r, rfl⟩ := length_eq_three.1 (length_readParts hns).2
      have hname := h n i r hns
      rw [← hname, revDirParts_dirName] at hps
      exact Option.some.inj hps
    · intro h n i r hns
      rw [← String.toList_inj, toList_dispatcherDirName, h _ hns, toList_of_revDirParts hps]

theorem linkPinAgrees_iff (name : String) : LinkPinAgrees name ↔
    ∀ ps, linkPinParts name = some ps → validDispatcherLinkName name →
      Forall₂ Regular [64, 32] ps := by
  unfold LinkPinAgrees validDispatcherLinkName parseDispatcherLinkName
  cases hps : linkPinParts name with
  | none => simp
  | some ps =>
    simp only [Option.bind_some, Option.some.injEq, forall_eq']
    refine Iff.trans (and_congr_right fun _ => ?_) (@readParts_agree_iff [64, 32] (by decide) ps)
    constructor
    · intro h ns hns
      obtain ⟨n, i, rfl⟩ := length_eq_two.1 (length_readParts hns).2
      have hname := h n i hns
      rw [← hname, linkPinParts_linkName] at hps
      exact Option.some.inj hps
    · intro h n i hns
      obtain ⟨p, q, rfl⟩ := length_eq_two.1 (length_readParts hns).1
      rw [← String.toList_inj, toList_dispatcherLinkName, h _ hns, toList_of_linkPinParts hps]

theorem parse_dispatcherDirName {n i r : Nat} (hn : n < 2 ^ 64) (hi : i < 2 ^ 32)
    (hr : r < 2 ^ 32) : parseDispatcherDirName (dispatcherDirName n i r) = some [n, i, r] := by
  rw [parseDispatcherDirName, revDirParts_dirName, Option.bind_some]
  exact readParts_toDigits (.cons hn (.cons hi (.cons hr .nil)))

/-- The numbers of a name that the removal takes fit the widths of the scanner and have no leading
zeros. -/
def RegularName (name : String) : Prop :=
  (∀ ps, revDirParts name = some ps → validDispatcherRevDirName name →
    List.Forall₂ Regular [64, 32, 32] ps) ∧
  ∀ ps, linkPinParts name = some ps → validDispatcherLinkName name →
    List.Forall₂ Regular [64, 32] ps

/-- **Removal and scanner agree on a name exactly when its numbers are regular.** The names the
layout writes are read back. -/
theorem dispatcher_names_iff (name : String) :
    (∀ n i r, n < 2 ^ 64 → i < 2 ^ 32 → r < 2 ^ 32 →
      parseDispatcherDirName (dispatcherDirName n i r) = some [n, i, r] ∧
        parseDispatcherLinkName (dispatcherLinkName n i) = some [n, i]) ∧
    (RevDirAgrees name ∧ LinkPinAgrees name ↔ RegularName name) := by
  refine ⟨fun n i r hn hi hr => ⟨parse_dispatcherDirName hn hi hr, ?_⟩,
    and_congr (revDirAgrees_iff name) (linkPinAgrees_iff name)⟩
  rw [parseDispatcherLinkName, linkPinParts_linkName, Option.bind_some]
  exact readParts_toDigits (.cons hn (.cons hi .nil))

/-- A directory with an interface of 33 bits may be removed and is not listed; one with a leading
zero is listed under another name. -/
theorem removable_name_not_scanned :
    validDispatcherRevDirName "dispatcher_1_4294967296_1" = true ∧
      parseDispatcherDirName "dispatcher_1_4294967296_1" = none ∧
      parseDispatcherDirName "dispatcher_1_02_3" = some [1, 2, 3] ∧
      dispatcherDirName 1 2 3 ≠ "dispatcher_1_02_3" := by
  decide

end Bpfman
