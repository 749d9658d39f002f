import Mathlib.Logic.Relation
import Mathlib.Data.Finset.Card
import Mathlib.Data.Finset.Dedup

/-!
# Ranks of finite acyclic relations

A relation given by a finite list of pairs that has no cycle strictly decreases a rank, bounded by
the number of pairs: the rank of `a` is the number of pairs that are reachable from `a`.
-/

namespace Rank

variable {α : Type} {E : List (α × α)} {a b : α}

/-- The relation of a list of pairs. -/
def Edge (E : List (α × α)) (a b : α) : Prop := (a, b) ∈ E

open Classical in
/-- The pairs that are reachable from `a`. -/
noncomputable def below (E : List (α × α)) (a : α) : Finset (α × α) :=
  E.toFinset.filter fun x => Relation.ReflTransGen (Edge E) a x.1

theorem mem_below {x : α × α} : x ∈ below E a ↔ x ∈ E ∧ Relation.ReflTransGen (Edge E) a x.1 := by
  simp [below]

theorem card_below_le (E : List (α × α)) (a : α) : (below E a).card ≤ E.length := by
  classical
  exact (Finset.card_filter_le _ _).trans (List.toFinset_card_le E)

theorem card_below_lt (hacyclic : ∀ a, ¬ Relation.TransGen (Edge E) a a) (h : Edge E a b) :
    (below E b).card < (below E a).card := by
  refine Finset.card_lt_card (Finset.ssubset_iff_of_subset ?_ |>.2 ⟨(a, b), ?_, ?_⟩)
  · intro x hx
    obtain ⟨hxE, hreach⟩ := mem_below.1 hx
    exact mem_below.2 ⟨hxE, .head h hreach⟩
  · exact mem_below.2 ⟨h, .refl⟩
  · -- a way back from `b` to `a` would close a cycle
    intro hx
    exact hacyclic a (Relation.TransGen.head' h (mem_below.1 hx).2)

/-- **A finite acyclic relation has a bounded rank.** -/
theorem exists_rank (hacyclic : ∀ a, ¬ Relation.TransGen (Edge E) a a) :
    ∃ rank : α → Nat, (∀ a b, Edge E a b → rank b < rank a) ∧ ∀ a, rank a ≤ E.length :=
  ⟨fun a => (below E a).card, fun _ _ h => card_below_lt hacyclic h, card_below_le E⟩

end Rank
