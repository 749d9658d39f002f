import Bpfman.Reap
import Bpfman.Lib.Peel

/-!
# The plan of a reap

`planReap` counts the programs that name each program as map owner and sweeps over the dead ones
until a sweep emits nothing. With the counts replaced by what they count, that is the peeling of the
relation "names as its owner" (`planReap_eq_sweeps`), so the plan is what can be peeled.

* `Counted`: the counts are those of the dependents that are not planned.
* `planReap_exact`: what is planned, in which order, and that nothing else decides it.
* `planReap_settles`: a plan leaves nothing to plan.
-/

namespace Bpfman

open List

variable {progs : List ProgramRecord} {live : ProgramID → Bool} {id : ProgramID}

/-- The programs that name `o` as their map owner. -/
def dependentsOf (progs : List ProgramRecord) (o : ProgramID) : List ProgramID :=
  (progs.filter fun r => r.mapOwnerID = some o).map (·.programID)

/-- The dead programs, sorted. -/
def deadIDs (progs : List ProgramRecord) (live : ProgramID → Bool) : List ProgramID :=
  ((progs.map (·.programID)).filter (!live ·)).insertionSort (· ≤ ·)

/-- The state of the plan after at most `n` sweeps. -/
def reapState (progs : List ProgramRecord) (live : ProgramID → Bool) (n : Nat) :
    List ProgramID × List ProgramID :=
  reapPasses (ownerIn progs) (deadIDs progs live) n ([], progs.filterMap (·.mapOwnerID))

theorem mem_deadIDs : id ∈ deadIDs progs live ↔ (∃ r ∈ progs, r.programID = id) ∧
    live id = false := by
  simp [deadIDs, mem_insertionSort]

/-! ## The counts -/

/-- The count of a program is the number of its dependents that are not planned. -/
def Counted (progs : List ProgramRecord) (st : List ProgramID × List ProgramID) : Prop :=
  ∀ o, st.2.count o = (dependentsLeft progs st.1 o).length

theorem counted_start (progs : List ProgramRecord) :
    Counted progs ([], progs.filterMap (·.mapOwnerID)) := by
  intro o
  rw [count_filterMap, countP_eq_length_filter]
  refine congrArg length (filter_congr fun r _ => ?_)
  by_cases h : r.mapOwnerID = some o <;> simp [h]

/-- A program is blocked as long as a dependent is not planned. -/
theorem Counted.mem_iff {plan deps : List ProgramID} (h : Counted progs (plan, deps)) :
    id ∈ deps ↔ ¬ ∀ d ∈ dependentsOf progs id, d ∈ plan := by
  have hlen := h id
  rw [← one_le_count_iff, hlen, Nat.one_le_iff_ne_zero, Ne, length_eq_zero_iff, not_iff_not,
    eq_nil_iff_forall_not_mem]
  simp only [mem_dependentsLeft, dependentsOf, mem_map, mem_filter, decide_eq_true_eq]
  constructor
  · rintro hnone d ⟨r, ⟨hr, ho⟩, rfl⟩
    by_contra hd
    exact hnone r ⟨hr, ho, hd⟩
  · rintro hall r ⟨hr, ho, hd⟩
    exact hd (hall _ ⟨r, ⟨hr, ho⟩, rfl⟩)

section

variable (hkeys : (progs.map (·.programID)).Nodup)

include hkeys

theorem length_filter_id {r : ProgramRecord} {l : List ProgramRecord} (hl : l.Sublist progs)
    (hr : r ∈ l) : (l.filter (·.programID ≠ r.programID)).length + 1 = l.length := by
  have hnodup : (l.map (·.programID)).Nodup := hkeys.sublist (hl.map _)
  have hsplit := l.length_eq_length_filter_add fun x => decide (x.programID = r.programID)
  rw [Table.filter_of_mem hnodup hr, length_singleton] at hsplit
  simp only [ne_eq, decide_not]
  omega

theorem ownerIn_eq {r : ProgramRecord} (hr : r ∈ progs) :
    ownerIn progs r.programID = r.mapOwnerID := by
  unfold ownerIn
  rw [Table.find_of_mem hkeys hr rfl]
  rfl

theorem Counted.plan {plan deps : List ProgramID} (h : Counted progs (plan, deps))
    (hrow : ∃ r ∈ progs, r.programID = id) (hid : id ∉ plan) :
    Counted progs (plan ++ [id], (ownerIn progs id).elim deps deps.erase) := by
  obtain ⟨r, hr, rfl⟩ := hrow
  intro o
  have hcount : deps.count o = (dependentsLeft progs plan o).length := h o
  rw [ownerIn_eq hkeys hr, dependentsLeft_append]
  by_cases ho : r.mapOwnerID = some o
  · -- the program itself is one of the dependents of its owner
    have hleft : r ∈ dependentsLeft progs plan o := mem_dependentsLeft.2 ⟨hr, ho, hid⟩
    have hsub : (dependentsLeft progs plan o).Sublist progs := filter_sublist
    have hlen := length_filter_id hkeys hsub hleft
    rw [ho, Option.elim_some, count_erase_self, hcount]
    omega
  · have hsame : (dependentsLeft progs plan o).filter (·.programID ≠ r.programID) =
        dependentsLeft progs plan o := by
      refine filter_eq_self.2 fun x hx => ?_
      obtain ⟨hxp, hxo, -⟩ := mem_dependentsLeft.1 hx
      refine decide_eq_true fun heq => ho ?_
      rw [← Table.eq_of_key hkeys hxp hr heq]
      exact hxo
    rw [hsame, ← hcount]
    cases hown : r.mapOwnerID with
    | none => rfl
    | some o' =>
      have hne : o ≠ o' := fun heq => ho (heq ▸ hown)
      exact count_erase_of_ne hne

/-! ## The sweeps -/

theorem reapPass_eq {dead : List ProgramID} (hdead : ∀ d ∈ dead, ∃ r ∈ progs, r.programID = d)
    {st : List ProgramID × List ProgramID} (h : Counted progs st) :
    (reapPass (ownerIn progs) dead st).1 = Peel.sweep (dependentsOf progs) dead st.1 ∧
      Counted progs (reapPass (ownerIn progs) dead st) := by
  induction dead generalizing st with
  | nil => exact ⟨rfl, h⟩
  | cons d dead ih =>
    have ih := @ih fun x hx => hdead x (mem_cons_of_mem d hx)
    unfold reapPass Peel.sweep
    simp only [← h.mem_iff]
    split
    · exact ih h
    · next hn =>
      rw [not_or] at hn
      exact ih (h.plan hkeys (hdead d mem_cons_self) hn.1)

theorem reapPasses_eq {dead : List ProgramID} (hdead : ∀ d ∈ dead, ∃ r ∈ progs, r.programID = d)
    {st : List ProgramID × List ProgramID} (h : Counted progs st) (n : Nat) :
    (reapPasses (ownerIn progs) dead n st).1 = Peel.sweeps (dependentsOf progs) dead n st.1 ∧
      Counted progs (reapPasses (ownerIn progs) dead n st) := by
  induction n generalizing st with
  | zero => exact ⟨rfl, h⟩
  | succ n ih =>
    obtain ⟨hpass, hcounted⟩ := reapPass_eq hkeys hdead h
    unfold reapPasses Peel.sweeps
    simp only [hpass]
    split
    · exact ⟨rfl, h⟩
    · rw [← hpass]
      exact ih hcounted

theorem reapState_eq (live : ProgramID → Bool) (n : Nat) :
    (reapState progs live n).1 = Peel.sweeps (dependentsOf progs) (deadIDs progs live) n [] ∧
      Counted progs (reapState progs live n) :=
  reapPasses_eq hkeys (fun _ hd => (mem_deadIDs.1 hd).1) (counted_start progs) n

/-- The plan is the peeling of the dead programs. -/
theorem planReap_eq_sweeps (live : ProgramID → Bool) :
    planReap progs live =
      Peel.sweeps (dependentsOf progs) (deadIDs progs live) (deadIDs progs live).length [] :=
  (reapState_eq hkeys live _).1

end

/-! ## What is planned -/

/-- `d` names `o` as its map owner. -/
def Names (progs : List ProgramRecord) (d o : ProgramID) : Prop :=
  ∃ r ∈ progs, r.programID = d ∧ r.mapOwnerID = some o

theorem mem_dependentsOf {d o : ProgramID} : d ∈ dependentsOf progs o ↔ Names progs d o := by
  simp only [dependentsOf, Names, mem_map, mem_filter, decide_eq_true_eq]
  constructor
  · rintro ⟨r, ⟨hr, ho⟩, hd⟩
    exact ⟨r, hr, hd, ho⟩
  · rintro ⟨r, hr, hd, ho⟩
    exact ⟨r, ⟨hr, ho⟩, hd⟩

theorem before_dependentsOf : Peel.Before (dependentsOf progs) = Names progs := by
  funext d o
  exact propext mem_dependentsOf

/-- A program of the store that the kernel does not hold. -/
def Dead (progs : List ProgramRecord) (live : ProgramID → Bool) (id : ProgramID) : Prop :=
  (∃ r ∈ progs, r.programID = id) ∧ live id = false

theorem planReap_perm {progs' : List ProgramRecord} (hkeys : (progs.map (·.programID)).Nodup)
    (h : progs'.Perm progs) : planReap progs' live = planReap progs live := by
  have hkeys' : (progs'.map (·.programID)).Nodup := (h.map _).nodup_iff.2 hkeys
  have hdead : deadIDs progs' live = deadIDs progs live := by
    refine List.Perm.eq_of_pairwise' (r := (· ≤ ·)) (pairwise_insertionSort _ _)
      (pairwise_insertionSort _ _) ?_
    exact (perm_insertionSort _ _).trans (((h.map _).filter _).trans (perm_insertionSort _ _).symm)
  rw [planReap_eq_sweeps hkeys, planReap_eq_sweeps hkeys', hdead]
  refine Peel.sweeps_congr (fun o d => ?_) _ _ _
  simp only [mem_dependentsOf, Names, h.mem_iff]

/-- **What a reap plans.** The sweeps come to an end: some sweep emits nothing more, and the plan is
what was emitted before it. Planned are the dead programs all of whose direct and indirect
dependents are dead and on no cycle, each once and after the programs that name it, and in the same
order for every order of the records. -/
theorem planReap_exact (live : ProgramID → Bool) (hkeys : (progs.map (·.programID)).Nodup) :
    (∃ n, planReap progs live = (reapState progs live n).1 ∧
      (reapPass (ownerIn progs) (deadIDs progs live) (reapState progs live n)).1 =
        (reapState progs live n).1) ∧
    (∀ id, id ∈ planReap progs live ↔ Dead progs live id ∧
      ∀ d, Relation.TransGen (Names progs) d id →
        Dead progs live d ∧ ¬ Relation.TransGen (Names progs) d d) ∧
    (planReap progs live).Nodup ∧
    (∀ xs id ys, planReap progs live = xs ++ id :: ys → ∀ d, Names progs d id → d ∈ xs) ∧
    ∀ progs', progs'.Perm progs → planReap progs' live = planReap progs live := by
  have hordered : Peel.Ordered (dependentsOf progs) (planReap progs live) := by
    rw [planReap_eq_sweeps hkeys]
    exact Peel.ordered_nil.sweeps
  refine ⟨⟨(deadIDs progs live).length, rfl, ?_⟩, fun id => ?_, hordered.nodup, ?_,
    fun progs' h => planReap_perm hkeys h⟩
  · obtain ⟨hstate, hcounted⟩ := reapState_eq hkeys live (deadIDs progs live).length
    rw [(reapPass_eq hkeys (fun _ hd => (mem_deadIDs.1 hd).1) hcounted).1, hstate]
    exact Peel.sweeps_stable Peel.ordered_nil (nil_subset _) (by simp)
  · rw [planReap_eq_sweeps hkeys, Peel.mem_sweeps, Peel.takeable_iff, before_dependentsOf]
    simp only [mem_deadIDs, Dead]
  · intro xs id ys heq d hd
    exact hordered.after xs id ys heq d (mem_dependentsOf.2 hd)

/-- Two programs that name each other and a chain of two, all dead: the chain goes, its end
first. -/
theorem planReap_exact_chain :
    let row (id : ProgramID) (owner : Option ProgramID) : ProgramRecord :=
      { programID := id, name := "p", programType := .xdp, pinPath := .prog id
        mapsDir := .mapDir id, mapOwnerID := owner }
    let progs := [row 1 (some 2), row 2 (some 1), row 5 none, row 6 (some 5)]
    planReap progs (fun _ => false) = [6, 5] ∧ ∀ d, Names progs d 5 → d ∈ [6] := by
  intro row progs
  have hplan : planReap progs (fun _ => false) = [6, 5] := by decide
  exact ⟨hplan, (planReap_exact (fun _ => false) (by decide)).2.2.2.1 [6] 5 [] hplan⟩

/-- **One reap is enough**: on the records a plan leaves there is nothing to plan, since a program
that could be peeled from the rest could have been peeled before. -/
theorem planReap_settles (live : ProgramID → Bool) (hkeys : (progs.map (·.programID)).Nodup) :
    planReap (progs.filter (·.programID ∉ planReap progs live)) live = [] := by
  have hleft : ∀ r, r ∈ progs.filter (·.programID ∉ planReap progs live) ↔
      r ∈ progs ∧ r.programID ∉ planReap progs live := by simp
  refine eq_nil_iff_forall_not_mem.2 fun id hid => ?_
  rw [planReap_eq_sweeps (hkeys.sublist (filter_sublist.map _)), Peel.mem_sweeps] at hid
  obtain ⟨⟨r, hr, rfl⟩, -⟩ := mem_deadIDs.1 hid.mem
  refine ((hleft r).1 hr).2 ?_
  rw [planReap_eq_sweeps hkeys, Peel.mem_sweeps]
  generalize r.programID = id at hid
  -- a dependent is planned already, or it is left and the induction gives that it could be peeled
  induction hid with
  | mk hdead _ ih =>
    obtain ⟨⟨r, hr, rfl⟩, hlive⟩ := mem_deadIDs.1 hdead
    refine .mk (mem_deadIDs.2 ⟨⟨r, ((hleft r).1 hr).1, rfl⟩, hlive⟩) fun d hd => ?_
    obtain ⟨q, hq, rfl, ho⟩ := mem_dependentsOf.1 hd
    by_cases hplan : q.programID ∈ planReap progs live
    · rwa [planReap_eq_sweeps hkeys, Peel.mem_sweeps] at hplan
    · exact ih _ (mem_dependentsOf.2 ⟨q, (hleft q).2 ⟨hq, hplan⟩, rfl, ho⟩)

/-- A chain of two dead programs, and a dead program whose dependent lives: the chain goes, and then
there is nothing to plan. -/
theorem planReap_settles_sample :
    let row (id : ProgramID) (owner : Option ProgramID) : ProgramRecord :=
      { programID := id, name := "p", programType := .xdp, pinPath := .prog id
        mapsDir := .mapDir id, mapOwnerID := owner }
    let progs := [row 1 (some 2), row 2 none, row 5 none, row 6 (some 5)]
    planReap progs (· = 1) = [6, 5] ∧
      planReap (progs.filter (·.programID ∉ planReap progs (· = 1))) (· = 1) = [] := by
  intro row progs
  exact ⟨by decide, planReap_settles _ (by decide)⟩

end Bpfman
