import Mathlib.Data.Prod.Lex
import Bpfman.Lib.Anchor
import Bpfman.StoreLinks

/-!
# The store: the links of a TCX hook

The links of a TCX hook in the order the store lists them, by priority and then by id:

* `tcxLinks_addLink`, `tcxLinks_deleteLinks` — the list after a new link and without a link;
* `listTCXLinksByInterface_eq`, `tcxPosition_getElem` — the list is what the store answers, and the
  position of a link is its place in it.
-/

namespace Bpfman

open List

namespace Store

variable {s : Store} {hook : TCXHook} {l : LinkRow} {r : TCXRow} {id : LinkID} {t : LinkRow ×
  TCXRow}

/-- The order of the links of a hook. -/
def tcxLinkBefore (a b : LinkRow × TCXRow) : Prop := tcxBefore (a.1.id, a.2) (b.1.id, b.2)

instance : DecidableRel tcxLinkBefore := fun a b =>
  inferInstanceAs (Decidable (tcxBefore (a.1.id, a.2) (b.1.id, b.2)))

/-- The columns a link is sorted by. -/
def tcxKey (t : LinkRow × TCXRow) : Int ×ₗ Nat := toLex (t.2.priority, t.1.id)

theorem tcxLinkBefore_iff {a b : LinkRow × TCXRow} : tcxLinkBefore a b ↔ tcxKey a < tcxKey b := by
  unfold tcxKey
  rw [Prod.Lex.toLex_lt_toLex]
  exact Iff.rfl

instance : IsTrans (LinkRow × TCXRow) tcxLinkBefore := ⟨fun _ _ _ h h' =>
  tcxLinkBefore_iff.2 ((tcxLinkBefore_iff.1 h).trans (tcxLinkBefore_iff.1 h'))⟩

instance : Std.Irrefl tcxLinkBefore := ⟨fun _ h => lt_irrefl _ (tcxLinkBefore_iff.1 h)⟩

instance : Std.Antisymm tcxLinkBefore :=
  ⟨fun a _ h h' => absurd (trans_of tcxLinkBefore h h') (Std.Irrefl.irrefl a)⟩

theorem tcxLinkBefore_of_ne {a b : LinkRow × TCXRow} (h : a.1.id ≠ b.1.id) :
    tcxLinkBefore a b ∨ tcxLinkBefore b a := by
  have hne : tcxKey a ≠ tcxKey b := fun hk => h (congrArg (fun k => (ofLex k).2) hk)
  exact (lt_or_gt_of_ne hne).imp tcxLinkBefore_iff.2 tcxLinkBefore_iff.2

/-! ## The list -/

/-- The join of a link with its TCX row, if it is on the hook. -/
def tcxJoin (hook : TCXHook) (l : LinkRow) : Option (LinkRow × TCXRow) :=
  match l.standalone with
  | some (.tcx r) => if r.hook = hook then some (l, r) else none
  | _ => none

theorem tcxJoin_eq_some :
    tcxJoin hook l = some t ↔ t.1 = l ∧ l.standalone = some (.tcx t.2) ∧ t.2.hook = hook := by
  unfold tcxJoin
  split
  · rename_i r h
    by_cases hh : r.hook = hook
    · rw [if_pos hh, h]
      constructor
      · rintro ⟨⟩
        exact ⟨rfl, rfl, hh⟩
      · rintro ⟨rfl, ht, -⟩
        cases ht
        rfl
    · rw [if_neg hh, h]
      refine iff_of_false (by simp) ?_
      rintro ⟨-, ht, hhook⟩
      cases ht
      exact hh hhook
  · rename_i hne
    exact iff_of_false (by simp) fun h => hne t.2 h.2.1

theorem tcxLinks_perm (s : Store) (hook : TCXHook) :
    (s.tcxLinks hook).Perm (s.links.filterMap (tcxJoin hook)) := perm_insertionSort _ _

theorem mem_tcxLinks : t ∈ s.tcxLinks hook ↔
    t.1 ∈ s.links ∧ t.1.standalone = some (.tcx t.2) ∧ t.2.hook = hook := by
  rw [(tcxLinks_perm s hook).mem_iff, mem_filterMap]
  constructor
  · rintro ⟨l, hl, ht⟩
    obtain ⟨rfl, hrest⟩ := tcxJoin_eq_some.1 ht
    exact ⟨hl, hrest⟩
  · rintro ⟨hl, hrest⟩
    exact ⟨t.1, hl, tcxJoin_eq_some.2 ⟨rfl, hrest⟩⟩

theorem pairwise_tcxLinks (h : (s.links.map (·.id)).Nodup) :
    (s.tcxLinks hook).Pairwise tcxLinkBefore := by
  refine Anchor.pairwise_insertionSort (r := tcxLinkBefore) ?_
  refine pairwise_filterMap.2 ((pairwise_map.1 h).imp ?_)
  intro a b hne t ht u hu
  obtain ⟨rfl, -⟩ := tcxJoin_eq_some.1 ht
  obtain ⟨rfl, -⟩ := tcxJoin_eq_some.1 hu
  exact tcxLinkBefore_of_ne hne

/-- A list in the order of the hook that has its links is the list of the hook. -/
theorem eq_tcxLinks {ts : List (LinkRow × TCXRow)} (h : (s.links.map (·.id)).Nodup)
    (hts : ts.Pairwise tcxLinkBefore) (hmem : ∀ t, t ∈ ts ↔ t ∈ s.tcxLinks hook) :
    s.tcxLinks hook = ts :=
  ((hts.eq_of_mem_iff (pairwise_tcxLinks h) hmem)).symm

/-- **A new link goes before the first one with a higher priority.** -/
theorem tcxLinks_addLink (h : (s.links.map (·.id)).Nodup) (hnew : ∀ x ∈ s.links, x.id < l.id)
    (hl : l.standalone = some (.tcx r)) :
    (s.addLink l).tcxLinks r.hook =
      Anchor.insertBefore (fun t => decide (r.priority < t.2.priority)) (l, r)
        (s.tcxLinks r.hook) := by
  refine eq_tcxLinks ?_ ?_ fun t => ?_
  · exact Table.nodup_concat h fun x hx => (hnew x hx).ne
  · refine Anchor.pairwise_insertBefore (pairwise_tcxLinks h) (fun t _ hp => ?_) fun t ht hp => ?_
    · exact .inl (of_decide_eq_true hp)
    · have hid : t.1.id < l.id := hnew _ (mem_tcxLinks.1 ht).1
      have hle : t.2.priority ≤ r.priority := not_lt.1 (of_decide_eq_false hp)
      exact hle.lt_or_eq.imp id fun heq => ⟨heq, hid⟩
  · rw [Anchor.mem_insertBefore, mem_tcxLinks, mem_tcxLinks, addLink, mem_append, mem_singleton]
    constructor
    · rintro (rfl | ⟨hm, hrest⟩)
      · exact ⟨.inr rfl, hl, rfl⟩
      · exact ⟨.inl hm, hrest⟩
    · rintro ⟨hm | hm, ht, hh⟩
      · exact .inr ⟨hm, ht, hh⟩
      · rw [hm, hl, Option.some.injEq, StandaloneRow.tcx.injEq] at ht
        exact .inl (Prod.ext hm ht.symm)

/-- The other hooks keep their links. -/
theorem tcxLinks_addLink_of_none (hl : tcxJoin hook l = none) :
    (s.addLink l).tcxLinks hook = s.tcxLinks hook := by
  change insertionSort _ ((s.links ++ [l]).filterMap (tcxJoin hook)) = _
  rw [filterMap_append, filterMap_cons_none hl, filterMap_nil, append_nil]
  rfl

theorem tcxLinks_deleteLinks (h : (s.links.map (·.id)).Nodup) :
    (s.deleteLinks [id]).tcxLinks hook =
      (s.tcxLinks hook).filter fun t => decide (t.1.id ≠ id) := by
  refine eq_tcxLinks ?_ ((pairwise_tcxLinks h).filter _) fun t => ?_
  · exact h.sublist (filter_sublist.map _)
  · rw [mem_filter, mem_tcxLinks, mem_tcxLinks]
    simp only [deleteLinks, mem_filter, mem_singleton, decide_eq_true_eq]
    exact and_right_comm

/-! ## What the store answers -/

/-- The answer for a row whose columns scan. -/
def tcxInfo (t : LinkRow × TCXRow) : TCXLinkInfo :=
  ⟨t.1.id, t.1.kernelLinkID.getD 0, t.1.programID, t.2.priority⟩

theorem tcxLinkInfo_eq (hk : t.1.kernelLinkID.isSome = true)
    (hp : int32Scans t.2.priority = true) : tcxLinkInfo t.1 t.2 = .ok (tcxInfo t) := by
  obtain ⟨k, hk⟩ := Option.isSome_iff_exists.1 hk
  simp [tcxLinkInfo, tcxInfo, hk, hp]

theorem listTCXLinksByInterface_eq (h : ∀ t ∈ s.tcxLinks hook,
    t.1.kernelLinkID.isSome = true ∧ int32Scans t.2.priority = true) :
    s.listTCXLinksByInterface hook = .ok ((s.tcxLinks hook).map tcxInfo) := by
  unfold listTCXLinksByInterface
  generalize s.tcxLinks hook = ts at h
  induction ts with
  | nil => rfl
  | cons t ts ih =>
    obtain ⟨⟨hk, hp⟩, hts⟩ := forall_mem_cons.1 h
    rw [mapM_cons, tcxLinkInfo_eq hk hp, ih hts]
    rfl

/-- **The position of a link** is its place in the list. -/
theorem tcxPosition_getElem (h : (s.links.map (·.id)).Nodup) {i : Nat}
    (hi : i < (s.tcxLinks hook).length) :
    s.tcxPosition ((s.tcxLinks hook)[i].1.id, (s.tcxLinks hook)[i].2) = i := by
  generalize ht : (s.tcxLinks hook)[i] = t
  have hhook : t.2.hook = hook := (mem_tcxLinks.1 (ht ▸ getElem_mem hi)).2.2
  calc s.tcxPosition (t.1.id, t.2)
      = (s.links.filterMap (tcxJoin hook)).countP (fun u => decide (tcxLinkBefore u t)) := by
        unfold tcxPosition tcxRows
        rw [countP_filterMap, countP_filterMap]
        refine countP_congr fun x _ => ?_
        unfold tcxJoin
        cases x.standalone with
        | none => simp
        | some row =>
          cases row with
          | probe details => simp
          | tcx r =>
            by_cases hh : r.hook = hook
            · simp only [hh, hhook, if_true, Option.map_some, Option.getD_some, true_and,
                decide_eq_true_eq]
              exact Iff.rfl
            · simp [hh, hhook]
    _ = (s.tcxLinks hook).countP (fun u => decide (tcxLinkBefore u t)) :=
        ((tcxLinks_perm s hook).countP_eq _).symm
    _ = i := ht ▸ Anchor.countP_getElem (pairwise_tcxLinks h) hi

end Store

end Bpfman
