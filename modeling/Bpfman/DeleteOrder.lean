import Bpfman.Delete

/-!
# The order of deletions

`orderProgramDeletes` is a depth-first search restricted to the selected programs, which lists a
program after its dependents. Along a relation that decreases a rank, every selected program is
listed, once and after its selected dependents.

The search is described by `Search`, the invariant of its state, and by the programs whose visit
has begun and not ended (`Open`): a visit descends from these only, so it never meets one.
-/

namespace Bpfman

open List

variable {deps : Dependents} {selected ids : List ProgramID} {rank : ProgramID → Nat}
  {seen ordered : List ProgramID} {id x : ProgramID}

/-- Every selected dependent of a listed program is listed before it. -/
def DependentsFirst (deps : Dependents) (selected l : List ProgramID) : Prop :=
  ∀ pre o suf, l = pre ++ o :: suf → ∀ d ∈ deps.of o, d ∈ selected → d ∈ pre

theorem dependentsFirst_concat (h : DependentsFirst deps selected ordered)
    (hid : ∀ d ∈ deps.of id, d ∈ selected → d ∈ ordered) :
    DependentsFirst deps selected (ordered ++ [id]) := by
  intro pre o suf heq d hd hsel
  rcases eq_nil_or_concat suf with rfl | ⟨suf, last, rfl⟩
  · obtain ⟨rfl, hlast⟩ := append_inj' heq rfl
    obtain rfl : id = o := singleton_inj.1 hlast
    exact hid d hd hsel
  · rw [concat_eq_append, ← cons_append, ← append_assoc] at heq
    exact h pre o suf (append_inj' heq rfl).1 d hd hsel

/-- The invariant of the search. -/
structure Search (deps : Dependents) (selected seen ordered : List ProgramID) : Prop where
  once : ordered.Nodup
  visited : ∀ x ∈ ordered, x ∈ seen
  chosen : ∀ x ∈ seen, x ∈ selected
  first : DependentsFirst deps selected ordered

/-- The programs whose visit has begun and not ended. -/
def Open (st : List ProgramID × List ProgramID) (x : ProgramID) : Prop := x ∈ st.1 ∧ x ∉ st.2

/-- The number of selected programs still to be seen. -/
def unseen (selected seen : List ProgramID) : Nat := (selected.filter (· ∉ seen)).length

theorem unseen_mono {seen' : List ProgramID} (h : ∀ x ∈ seen, x ∈ seen') :
    unseen selected seen' ≤ unseen selected seen := by
  refine (monotone_filter_right selected fun x hx => ?_).length_le
  simp only [decide_eq_true_eq] at hx ⊢
  exact fun hmem => hx (h x hmem)

theorem unseen_cons_lt (hsel : id ∈ selected) (hnew : id ∉ seen) :
    unseen selected (id :: seen) < unseen selected seen := by
  unfold unseen
  induction selected with
  | nil => cases hsel
  | cons y ys ih =>
    have hmono : unseen ys (id :: seen) ≤ unseen ys seen :=
      unseen_mono fun x hx => mem_cons_of_mem _ hx
    unfold unseen at hmono
    by_cases hy : y = id
    · subst hy
      simp only [filter_cons, mem_cons_self, hnew, not_true_eq_false, not_false_eq_true,
        decide_true, decide_false, if_true, Bool.false_eq_true, if_false, length_cons]
      omega
    · have := ih ((mem_cons.1 hsel).resolve_left (Ne.symm hy))
      by_cases hs : y ∈ seen <;> simp [hs, hy] <;> simp at this <;> omega

/-- What a part of the search does: it keeps the invariant, sees more and leaves no visit open. -/
structure Searched (deps : Dependents) (selected : List ProgramID)
    (st st' : List ProgramID × List ProgramID) : Prop where
  search : Search deps selected st'.1 st'.2
  grows : ∀ x ∈ st.1, x ∈ st'.1
  opens : ∀ x, Open st' x ↔ Open st x

namespace Searched

variable {st st1 st2 : List ProgramID × List ProgramID}

theorem trans (h1 : Searched deps selected st st1) (h2 : Searched deps selected st1 st2) :
    Searched deps selected st st2 where
  search := h2.search
  grows x hx := h2.grows x (h1.grows x hx)
  opens x := (h2.opens x).trans (h1.opens x)

/-- The end of a visit closes it: its dependents have been listed by then. -/
theorem close (hst : Searched deps selected (id :: seen, ordered) st1) (hnew : id ∉ seen)
    (hord : Search deps selected seen ordered)
    (hdeps : ∀ d ∈ deps.of id, d ∈ selected → d ∈ st1.2) :
    Searched deps selected (seen, ordered) (st1.1, st1.2 ++ [id]) := by
  have hopen : Open st1 id := (hst.opens id).2 ⟨mem_cons_self .., fun h => hnew (hord.visited _ h)⟩
  refine ⟨⟨?_, ?_, hst.search.chosen, dependentsFirst_concat hst.search.first hdeps⟩,
    fun x hx => hst.grows x (mem_cons_of_mem _ hx), fun x => ?_⟩
  · exact nodup_append.2 ⟨hst.search.once, nodup_singleton id, fun a ha b hb heq =>
      hopen.2 (mem_singleton.1 hb ▸ heq ▸ ha)⟩
  · intro x hx
    rcases mem_append.1 hx with hx | hx
    · exact hst.search.visited x hx
    · exact mem_singleton.1 hx ▸ hopen.1
  · have h := hst.opens x
    simp only [Open, mem_append, mem_cons, not_mem_nil, or_false, not_or] at h ⊢
    constructor
    · rintro ⟨h1, h2, hne⟩
      obtain ⟨hor, hnot⟩ := h.1 ⟨h1, h2⟩
      exact ⟨hor.resolve_left hne, hnot⟩
    · rintro ⟨hx, hnot⟩
      obtain ⟨h1, h2⟩ := h.2 ⟨Or.inr hx, hnot⟩
      exact ⟨h1, h2, fun heq => hnew (heq ▸ hx)⟩

end Searched

/-- The search from a list of programs, given that a visit of one of them is right. -/
theorem searched_foldl (rank : ProgramID → Nat) (seen : List ProgramID) (below : ProgramID → Prop)
    {visit : ProgramID → List ProgramID × List ProgramID → List ProgramID × List ProgramID}
    (hvisit : ∀ id st, id ∈ selected → below id → Search deps selected st.1 st.2 →
      (∀ x ∈ seen, x ∈ st.1) → (∀ x, Open st x → ∀ y, below y → rank y < rank x) →
      Searched deps selected st (visit id st) ∧ id ∈ (visit id st).1) :
    ∀ (l : List ProgramID) (st : List ProgramID × List ProgramID),
      (∀ id ∈ l, id ∈ selected ∧ below id) → Search deps selected st.1 st.2 →
      (∀ x ∈ seen, x ∈ st.1) → (∀ x, Open st x → ∀ y, below y → rank y < rank x) →
      Searched deps selected st (l.foldl (fun st id => visit id st) st) ∧
        ∀ id ∈ l, id ∈ (l.foldl (fun st id => visit id st) st).1
  | [], st, _, hord, _, _ => ⟨⟨hord, fun _ h => h, fun _ => Iff.rfl⟩, nofun⟩
  | id :: l, st, hl, hord, hseen, hopen => by
    obtain ⟨hsel, hbelow⟩ := hl id (mem_cons_self ..)
    obtain ⟨h1, hmem⟩ := hvisit id st hsel hbelow hord hseen hopen
    obtain ⟨h2, hrest⟩ := searched_foldl rank seen below hvisit l (visit id st)
      (fun y hy => hl y (mem_cons_of_mem _ hy)) h1.search
      (fun x hx => h1.grows x (hseen x hx)) (fun x hx => hopen x ((h1.opens x).1 hx))
    refine ⟨h1.trans h2, fun y hy => ?_⟩
    rcases mem_cons.1 hy with rfl | hy
    · exact h2.grows _ hmem
    · exact hrest y hy

/-- **The visit of a program** of smaller rank than every open one lists it after its dependents.
The induction is on the fuel, of which there is more than there are unseen programs. -/
theorem searched_visit (hrank : ∀ o, ∀ d ∈ deps.of o, rank d < rank o) :
    ∀ (fuel : Nat) (id : ProgramID) (st : List ProgramID × List ProgramID), id ∈ selected →
      unseen selected st.1 < fuel → Search deps selected st.1 st.2 →
      (∀ x, Open st x → rank id < rank x) →
      Searched deps selected st (visit deps selected fuel id st) ∧
        id ∈ (visit deps selected fuel id st).1
  | fuel + 1, id, (seen, ordered), hsel, hfuel, hord, hopen => by
    rw [visit]
    dsimp only at hfuel hord
    by_cases hin : id ∈ seen
    · rw [if_pos hin]
      exact ⟨⟨hord, fun _ h => h, fun _ => Iff.rfl⟩, hin⟩
    · rw [if_neg hin]
      have hlt := unseen_cons_lt hsel hin
      obtain ⟨h, hdeps⟩ := searched_foldl rank (id :: seen) (fun d => rank d < rank id)
        (fun d st hd hbelow hord' hseen hopen' => searched_visit hrank fuel d st hd
          ((unseen_mono hseen).trans_lt (by omega)) hord'
          (fun x hx => hopen' x hx d hbelow))
        ((deps.of id).filter (· ∈ selected)) (id :: seen, ordered)
        (fun d hd => by
          obtain ⟨hd, hdsel⟩ := mem_filter.1 hd
          exact ⟨of_decide_eq_true hdsel, hrank id d hd⟩)
        ⟨hord.once, fun x hx => mem_cons_of_mem _ (hord.visited x hx), fun x hx => by
          rcases mem_cons.1 hx with rfl | hx
          · exact hsel
          · exact hord.chosen x hx, hord.first⟩
        (fun _ hx => hx)
        (fun x hx y hy => by
          rcases mem_cons.1 hx.1 with rfl | hmem
          · exact hy
          · exact hy.trans (hopen x ⟨hmem, hx.2⟩))
      refine ⟨h.close hin hord fun d hd hdsel => ?_, h.grows id (mem_cons_self ..)⟩
      -- a dependent has been seen, and the open programs have a larger rank
      have hmem := hdeps d (mem_filter.2 ⟨hd, decide_eq_true hdsel⟩)
      by_contra hnot
      obtain ⟨hx, hno⟩ := (h.opens d).1 ⟨hmem, hnot⟩
      have hlower := hrank id d hd
      rcases mem_cons.1 hx with rfl | hx
      · exact lt_irrefl _ hlower
      · exact lt_asymm hlower (hopen d ⟨hx, hno⟩)

/-- **The order of deletions** lists the selected programs, each after its selected dependents, and
once if any program is a dependent. -/
theorem orderProgramDeletes_spec (ids : List ProgramID)
    (hrank : ∀ o, ∀ d ∈ deps.of o, rank d < rank o) :
    (∀ x, x ∈ orderProgramDeletes ids deps ↔ x ∈ ids) ∧
      DependentsFirst deps ids (orderProgramDeletes ids deps) ∧
      (deps ≠ [] → (orderProgramDeletes ids deps).Nodup) := by
  unfold orderProgramDeletes
  by_cases hplain : (decide (ids.length ≤ 1) || deps.isEmpty) = true
  · rw [if_pos hplain]
    refine ⟨fun _ => Iff.rfl, fun pre o suf heq d hd hsel => ?_, fun hsome => ?_⟩
    all_goals rcases Bool.or_eq_true_iff.1 hplain with hlen | hnone
    · -- the only program of the list is no dependent of itself
      have hlen := of_decide_eq_true hlen
      rw [heq, length_append, length_cons] at hlen
      obtain rfl : pre = [] := length_eq_zero_iff.1 (by omega)
      obtain rfl : suf = [] := length_eq_zero_iff.1 (by omega)
      rw [heq, nil_append, mem_singleton] at hsel
      exact absurd (hrank o d hd) (hsel ▸ lt_irrefl _)
    · rw [isEmpty_iff.1 hnone] at hd
      cases hd
    · match ids, of_decide_eq_true hlen with
      | [], _ => exact nodup_nil
      | [x], _ => exact nodup_singleton x
    · exact absurd (isEmpty_iff.1 hnone) hsome
  · rw [if_neg hplain]
    obtain ⟨h, hall⟩ := searched_foldl rank [] (fun _ => True)
      (fun id st hsel _ hord _ hopen => searched_visit hrank (ids.length + 1) id st hsel
        (Nat.lt_succ_of_le (length_filter_le _ _)) hord (fun x hx => hopen x hx id trivial))
      ids ([], []) (fun id hid => ⟨hid, trivial⟩)
      ⟨nodup_nil, nofun, nofun, fun pre o suf heq => by simp at heq⟩ nofun
      (fun x hx => by cases hx.1)
    refine ⟨fun x => ⟨fun hx => h.search.chosen x (h.search.visited x hx), fun hx => ?_⟩,
      h.search.first, fun _ => h.search.once⟩
    by_contra hnot
    cases ((h.opens x).1 ⟨hall x hx, hnot⟩).1

end Bpfman
