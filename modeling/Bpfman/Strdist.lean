import Bpfman.Lib.EditDistance
import Mathlib.Data.Prod.Lex

/-!
# Nearest candidates

`internal/strdist`: the edit distance of two strings by a table of which two rows are kept, and the
candidates nearest to a string. Nothing is assumed of strings but their conversion to runes and
their order.

* `levenshtein_eq_dist` — the table holds the distances of the prefixes;
* `nearest_in_order` — the distance is the least number of edits, and `nearest` takes the first
  candidates within the cap.
-/

namespace Bpfman.Strdist

open EditDistance List

variable {Text Rune : Type} [DecidableEq Rune] (runes : Text → List Rune) {x : Rune}
  {a b ds : List Rune} {prev curr : List ℕ} {k : ℕ}

/-- One round of the inner loop. -/
def fillCell (x : Rune) (b : List Rune) (prev curr : List ℕ) (j : ℕ) : List ℕ :=
  let cost := if some x = b[j - 1]? then 0 else 1
  curr.set j (min (prev.getD j 0 + 1) (min (curr.getD (j - 1) 0 + 1) (prev.getD (j - 1) 0 + cost)))

/-- The outer loop from row `i` on; the two rows change places after each round. -/
def fillRows (b : List Rune) : List Rune → ℕ → List ℕ → List ℕ → List ℕ
  | [], _, prev, _ => prev
  | x :: a, i, prev, curr =>
    fillRows b a (i + 1) ((range' 1 b.length).foldl (fillCell x b prev) (curr.set 0 i)) prev

def levenshtein (a b : Text) : ℕ :=
  let n := (runes b).length
  if (runes a).length = 0 then n
  else if n = 0 then (runes a).length
  else (fillRows (runes b) (runes a) 1 (range (n + 1)) (replicate (n + 1) 0)).getD n 0

/-- The row of the prefix read so far, `ds` in reverse, is filled in up to column `k`. -/
def Filled (ds b : List Rune) (k : ℕ) (row : List ℕ) : Prop :=
  row.length = b.length + 1 ∧ ∀ j ≤ k, row.getD j 0 = dist ds (b.take j).reverse

theorem Filled.cell (hp : Filled ds b b.length prev) (hk : k < b.length)
    (h : Filled (x :: ds) b k curr) :
    Filled (x :: ds) b (k + 1) (fillCell x b prev curr (k + 1)) := by
  obtain ⟨hlen, hrow⟩ := h
  refine ⟨by simpa [fillCell] using hlen, fun j hj => ?_⟩
  rcases Nat.le_succ_iff.1 hj with hj | rfl
  · rw [← hrow j hj, fillCell, getD_eq_getElem?_getD, getElem?_set_ne (by omega),
      ← getD_eq_getElem?_getD]
  · have htake : (b.take (k + 1)).reverse = b[k] :: (b.take k).reverse := by
      rw [take_succ_eq_append_getElem hk, reverse_concat]
    rw [fillCell, getD_eq_getElem?_getD, getElem?_set_self (by omega), Option.getD_some, htake,
      dist_cons, ← htake, ← hp.2 (k + 1) hk, Nat.add_sub_cancel, hrow k le_rfl, ← hp.2 k hk.le]
    simp [hk]

theorem Filled.row (hp : Filled ds b b.length prev) (hc : curr.length = b.length + 1) :
    ∀ k ≤ b.length, Filled (x :: ds) b k
      ((range' 1 k).foldl (fillCell x b prev) (curr.set 0 (ds.length + 1)))
  | 0, _ => by
    refine ⟨by simpa using hc, fun j hj => ?_⟩
    obtain rfl := Nat.le_zero.1 hj
    simp [dist_nil_right, hc]
  | k + 1, hk => by
    rw [range'_1_concat, foldl_append, Nat.add_comm 1 k]
    exact hp.cell hk (Filled.row hp hc k (Nat.le_of_succ_le hk))

theorem fillRows_filled : ∀ {a ds : List Rune} {prev curr : List ℕ}, Filled ds b b.length prev →
    curr.length = b.length + 1 →
    Filled (a.reverse ++ ds) b b.length (fillRows b a (ds.length + 1) prev curr)
  | [], ds, prev, curr, hp, _ => hp
  | x :: a, ds, prev, curr, hp, hc => by
    rw [reverse_cons, append_assoc]
    exact fillRows_filled (hp.row hc b.length le_rfl) hp.1

/-- **The table holds the distances of the prefixes.** -/
theorem levenshtein_eq_dist (a b : Text) :
    levenshtein runes a b = dist (runes a).reverse (runes b).reverse := by
  unfold levenshtein
  generalize runes a = a, runes b = b
  dsimp only
  split_ifs with ha hb
  · rw [length_eq_zero_iff.1 ha, reverse_nil, dist_nil_left, length_reverse]
  · rw [length_eq_zero_iff.1 hb, reverse_nil, dist_nil_right, length_reverse]
  · have hfirst : Filled [] b b.length (range (b.length + 1)) := by
      refine ⟨length_range, fun j hj => ?_⟩
      simp [dist_nil_left, getD_eq_getElem?_getD, Nat.lt_succ_of_le hj, hj]
    have h := (fillRows_filled (a := a) hfirst (length_replicate (a := 0))).2 b.length le_rfl
    rwa [append_nil, take_length] at h

theorem isLeast_levenshtein (a b : Text) :
    IsLeast {n | Edits n (runes a) (runes b)} (levenshtein runes a b) := by
  have h := isLeast_dist (runes a).reverse (runes b).reverse
  rw [levenshtein_eq_dist]
  exact ⟨by simpa using h.1.reverse, fun n hn => h.2 (Edits.reverse hn)⟩

example : levenshtein String.toList "kitten" "sitting" = 3 := by decide

/-! ## The candidates in order -/

/-- A candidate with its distance to the target, in the order of the comparison. -/
def scored (target c : Text) : ℕ ×ₗ Text := toLex (levenshtein runes target c, c)

/-- The loop over the sorted scores. -/
def collect (limit : Int) (maxDist : ℕ) : List (ℕ ×ₗ Text) → List Text → List Text
  | [], out => out
  | s :: scores, out =>
    if (out.length : Int) ≥ limit then out
    else if (ofLex s).1 > maxDist then out
    else collect limit maxDist scores (out ++ [(ofLex s).2])

theorem collect_scored {target : Text} {limit : Int} {maxDist : ℕ} : ∀ {sorted out : List Text},
    sorted.Pairwise (levenshtein runes target · ≤ levenshtein runes target ·) →
    collect limit maxDist (sorted.map (scored runes target)) out = out ++ sorted.take
      (min (limit.toNat - out.length) (sorted.countP (levenshtein runes target · ≤ maxDist)))
  | [], out, _ => by simp [collect]
  | c :: sorted, out, h => by
    obtain ⟨hc, h⟩ := pairwise_cons.1 h
    rw [map_cons, collect]
    split_ifs with hl hd
    · simp [Nat.sub_eq_zero_of_le (show limit.toNat ≤ out.length by omega)]
    · have hnone : (c :: sorted).countP (levenshtein runes target · ≤ maxDist) = 0 := by
        refine countP_eq_zero.2 fun d hmem => ?_
        rw [decide_eq_true_eq, not_le]
        exact lt_of_lt_of_le hd ((mem_cons.1 hmem).elim (· ▸ le_rfl) (hc d))
      rw [hnone, Nat.min_zero, take_zero, append_nil]
    · have hlim : limit.toNat - out.length = limit.toNat - (out ++ [c]).length + 1 := by
        rw [length_append, length_singleton]
        omega
      rw [show (ofLex (scored runes target c)).2 = c from rfl, collect_scored h, hlim,
        countP_cons_of_pos (by exact decide_eq_true (not_lt.1 hd)), Nat.add_min_add_right,
        take_succ_cons, append_assoc, singleton_append]

/-- The best candidate comes first. -/
theorem head_sorted {target : Text} {candidates sorted : List Text} (hperm : sorted ~ candidates)
    (h : sorted.Pairwise (levenshtein runes target · ≤ levenshtein runes target ·)) :
    (sorted.map (scored runes target)).head?.elim 0 (fun s => (ofLex s).1) =
      (candidates.map (levenshtein runes target)).min?.getD 0 := by
  cases sorted with
  | nil => simp [hperm.symm.eq_nil]
  | cons best rest =>
    have hmin : (candidates.map (levenshtein runes target)).min? =
        some (levenshtein runes target best) := by
      refine min?_eq_some_iff.2 ⟨mem_map_of_mem (hperm.mem_iff.1 mem_cons_self), fun d hd => ?_⟩
      obtain ⟨c, hc, rfl⟩ := mem_map.1 hd
      rcases mem_cons.1 (hperm.mem_iff.2 hc) with rfl | hr
      · exact le_rfl
      · exact (pairwise_cons.1 h).1 c hr
    rw [hmin]
    rfl

/-- The distance from which on candidates are dropped, by the length of the target. -/
def absoluteCap (targetLen : ℕ) : ℕ := if targetLen ≤ 3 then 1 else max (targetLen / 2) 3

variable [LinearOrder Text] (target : Text) (candidates : List Text)

def nearest (limit : Int) : List Text :=
  if limit ≤ 0 ∨ candidates.length = 0 then []
  else
    let scores := (candidates.map (scored runes target)).mergeSort
    let maxDist := absoluteCap (runes target).length
    let tight := 2 * scores.head?.elim 0 fun s => (ofLex s).1
    collect limit (if tight < maxDist then tight else maxDist) scores []

/-- The cap: twice the distance of the best candidate, or the one for the length of the target. -/
def distanceCap : ℕ :=
  min (2 * (candidates.map (levenshtein runes target)).min?.getD 0)
    (absoluteCap (runes target).length)

/-- Sorting the scores sorts the candidates. -/
theorem sorted_scores : ∃ sorted, sorted ~ candidates ∧
    sorted.Pairwise (scored runes target · ≤ scored runes target ·) ∧
    (candidates.map (scored runes target)).mergeSort = sorted.map (scored runes target) := by
  refine ⟨candidates.mergeSort (scored runes target · ≤ scored runes target ·),
    mergeSort_perm .., ?_, (map_mergeSort fun _ _ _ _ => by rfl).symm⟩
  refine (pairwise_mergeSort (fun a b c => ?_) (fun a b => ?_) _).imp of_decide_eq_true
  · simpa only [decide_eq_true_eq] using le_trans
  · simpa only [Bool.or_eq_true, decide_eq_true_eq] using le_total _ _

/-- **The distance is the least number of edits, and `nearest` takes the candidates in order**, as
many as the limit allows and as are within the cap. -/
theorem nearest_in_order :
    (∀ a b : Text, IsLeast {n | Edits n (runes a) (runes b)} (levenshtein runes a b)) ∧
    (∀ a b, levenshtein runes a b = levenshtein runes b a) ∧
    (∀ a b c, levenshtein runes a c ≤ levenshtein runes a b + levenshtein runes b c) ∧
    ∀ target candidates limit, ∃ sorted, sorted ~ candidates ∧
      sorted.Pairwise (scored runes target · ≤ scored runes target ·) ∧
      nearest runes target candidates limit = sorted.take (min limit.toNat
        (candidates.countP
          (levenshtein runes target · ≤ distanceCap runes target candidates))) := by
  have hleast := isLeast_levenshtein runes
  have hle : ∀ a b, levenshtein runes a b ≤ levenshtein runes b a := fun a b =>
    (hleast a b).2 (hleast b a).1.symm
  refine ⟨hleast, fun a b => (hle a b).antisymm (hle b a), fun a b c =>
    (hleast a c).2 ((hleast a b).1.trans (hleast b c).1), fun target candidates limit => ?_⟩
  obtain ⟨sorted, hperm, hsorted, hscores⟩ := sorted_scores runes target candidates
  refine ⟨sorted, hperm, hsorted, ?_⟩
  unfold nearest
  split_ifs with h
  · rcases h with h | h
    · simp [Int.toNat_of_nonpos h]
    · simp [length_eq_zero_iff.1 h]
  · have hfirst := hsorted.imp (Prod.Lex.monotone_fst _ _ ·)
    dsimp only
    rw [hscores, head_sorted runes hperm hfirst, ← min_def_lt, collect_scored runes hfirst,
      hperm.countP_eq]
    rfl

end Bpfman.Strdist
