import Bpfman.StoreRead

/-!
# The store: links without a dispatcher

What the writes of a link without a dispatcher do to the tables:

* `createLink_eq_ok`, `createPendingLink_eq_ok`, `finaliseLink_eq_ok` — the rows after each of them;
* `Consistent.createLink` — a new link keeps the store consistent.
-/

namespace Bpfman

namespace Store

variable {s s' : Store} {now : Nat} {spec : LinkSpec} {l : LinkRow} {id : LinkID}

/-- The store with a new link. -/
def addLink (s : Store) (l : LinkRow) : Store := { s with links := s.links ++ [l], linkSeq := l.id }

/-- What a link has to meet to be recorded. -/
structure Creates (s : Store) (now : Nat) (spec : LinkSpec) : Prop where
  kind : ¬ (spec.kind = .xdp ∨ spec.kind = .tc)
  row : linkRowOK s (newLinkRow now s spec) = true
  details : insertable spec.details = true

theorem createLink_eq_ok : s.createLink now spec = .ok (s', l) ↔
    s.Creates now spec ∧ l = newLinkRow now s spec ∧ s' = s.addLink l := by
  unfold createLink
  by_cases hk : spec.kind = .xdp ∨ spec.kind = .tc
  · simp only [hk, if_true, reduceCtorEq, false_iff]
    exact fun h => h.1.kind hk
  · by_cases hr : linkRowOK s (newLinkRow now s spec) = true
    · by_cases hd : insertable spec.details = true
      · simp only [hk, hr, hd, if_false, Bool.not_true, Bool.false_eq_true, Except.ok.injEq,
          Prod.mk.injEq]
        constructor
        · rintro ⟨rfl, rfl⟩
          exact ⟨⟨hk, hr, hd⟩, rfl, rfl⟩
        · rintro ⟨-, rfl, rfl⟩
          exact ⟨rfl, rfl⟩
      · simp only [hk, hr, hd, if_false, Bool.not_true, Bool.false_eq_true, Bool.not_false, if_true,
          reduceCtorEq, false_iff]
        exact fun h => hd h.1.details
    · simp only [hk, hr, if_false, Bool.not_false, if_true, reduceCtorEq, false_iff]
      exact fun h => hr h.1.row

/-- The row of a link that is recorded before its attach. -/
def pendingRow (now : Nat) (s : Store) (spec : LinkSpec) : LinkRow :=
  { newLinkRow now s (pendingSpec spec) with pinPath := some (.link (s.linkSeq + 1)) }

theorem map_update_append {f : LinkRow → LinkRow} (h : ∀ r ∈ s.links, r.id ≠ l.id) :
    ((s.links ++ [l]).map fun r => if r.id = l.id then f r else r) = s.links ++ [f l] := by
  have hold : (s.links.map fun r => if r.id = l.id then f r else r) = s.links :=
    (List.map_congr_left fun r hr => if_neg (h r hr)).trans (List.map_id _)
  rw [List.map_append, List.map_cons, List.map_nil, if_pos rfl, hold]

/-- The pin path of a link that was just added can be set if no other link has it. -/
theorem setLinkPinPath_addLink (h : ∀ r ∈ s.links, r.id ≠ l.id) (pin : LinkPath) :
    (s.addLink l).setLinkPinPath l.id pin =
      if ∀ r ∈ s.links, r.pinPath ≠ some pin then .ok (s.addLink { l with pinPath := some pin })
      else .error (.msg "failed to set link pin path") := by
  have hfree : (s.addLink l).pinPathFree l.id pin = true ↔ ∀ r ∈ s.links, r.pinPath ≠ some pin := by
    simp only [pinPathFree, addLink, List.all_append, Bool.and_eq_true, List.all_eq_true,
      Bool.or_eq_true, decide_eq_true_eq, List.all_cons, List.all_nil]
    refine ⟨fun hall r hr => (hall.1 r hr).resolve_left (h r hr), fun hall =>
      ⟨fun r hr => Or.inr (hall r hr), Or.inl trivial, trivial⟩⟩
  unfold setLinkPinPath
  by_cases hf : ∀ r ∈ s.links, r.pinPath ≠ some pin
  · rw [if_pos (hfree.2 hf), if_pos hf]
    unfold addLink
    rw [map_update_append h]
  · rw [if_neg fun hc => hf (hfree.1 hc), if_neg hf]

/-- **A link that is recorded before its attach** has the next id and the pin path that names it. -/
theorem createPendingLink_eq_ok : s.createPendingLink now spec = .ok (s', l) ↔
    s.Creates now (pendingSpec spec) ∧ (∀ r ∈ s.links, r.pinPath ≠ some (.link (s.linkSeq + 1))) ∧
      l = pendingRow now s spec ∧ s' = s.addLink l := by
  unfold createPendingLink
  cases h1 : s.createLink now (pendingSpec spec) with
  | error err =>
    simp only [bind, Except.bind, reduceCtorEq, false_iff]
    rintro ⟨hc, -⟩
    cases h1.symm.trans (createLink_eq_ok.2 ⟨hc, rfl, rfl⟩)
  | ok r =>
    obtain ⟨s1, l1⟩ := r
    obtain ⟨hc, rfl, rfl⟩ := createLink_eq_ok.1 h1
    simp only [bind, Except.bind,
      setLinkPinPath_addLink fun r hr => ((linkRowOK_iff.1 hc.row).1 r hr).1]
    by_cases hf : ∀ r ∈ s.links, r.pinPath ≠ some (.link (newLinkRow now s (pendingSpec spec)).id)
    · rw [if_pos hf]
      constructor
      · intro h
        obtain ⟨rfl, rfl⟩ := Prod.mk.inj (Except.ok.inj h)
        exact ⟨hc, hf, rfl, rfl⟩
      · rintro ⟨-, -, rfl, rfl⟩
        rfl
    · rw [if_neg hf]
      exact ⟨fun h => (by cases h), fun h => absurd h.2.1 hf⟩

theorem finaliseLink_eq_ok {k : KernelLinkID} (h : s.finaliseLink id k = .ok (s', l)) :
    s' = { s with links := s.links.map fun r =>
      if r.id = id then { r with kernelLinkID := some k } else r } := by
  unfold finaliseLink at h
  split at h
  · cases h
  · split at h
    · exact (Prod.mk.inj (Except.ok.inj h)).1.symm
    · cases h

theorem finaliseLink_addLink {l' : LinkRow} {k : KernelLinkID} (hfresh : ∀ r ∈ s.links, r.id ≠ l.id)
    (h : (s.addLink l).finaliseLink l.id k = .ok (s', l')) :
    l' = { l with kernelLinkID := some k } ∧ s'.links = s.links ++ [l'] := by
  have hfind : (s.addLink l).links.find? (fun r => decide (r.id = l.id)) = some l := by
    have hold : s.links.find? (fun r => decide (r.id = l.id)) = none :=
      List.find?_eq_none.2 fun r hr => by simpa using hfresh r hr
    rw [addLink, List.find?_append, hold]
    simp
  unfold finaliseLink at h
  simp only [hfind] at h
  split at h
  · obtain ⟨rfl, rfl⟩ := Prod.mk.inj (Except.ok.inj h)
    exact ⟨rfl, map_update_append hfresh⟩
  · cases h

/-- A recorded link is finalised if no other link has its kernel link. -/
theorem finaliseLink_isOk {k : KernelLinkID} (hl : ∃ l ∈ s.links, l.id = id) :
    (∃ r, s.finaliseLink id k = .ok r) ↔ s.kernelLinkFree id k = true := by
  unfold finaliseLink
  cases hf : s.links.find? (fun l => decide (l.id = id)) with
  | none =>
    obtain ⟨l, hlm, hid⟩ := hl
    exact absurd hid (by simpa using List.find?_eq_none.1 hf l hlm)
  | some l =>
    by_cases hfree : s.kernelLinkFree id k = true <;> simp [hfree]

/-- **A new link keeps the store consistent**, if its detail row is of its kind. -/
theorem Consistent.addLink (h : s.Consistent) (hrow : linkRowOK s l = true) (hd : l.Detailed)
    (hk : ¬ (l.kind = .xdp ∨ l.kind = .tc)) : (s.addLink l).Consistent := by
  obtain ⟨hids, hprog⟩ := linkRowOK_iff.1 hrow
  refine { h with
    linkIDs := Table.nodup_concat h.linkIDs fun r hr => (hids r hr).1
    linkProgram := fun r hr => ?_
    linkDetail := fun r hr hkind => ?_
    detailLink := fun d hdm => ?_
    detailed := fun r hr => ?_ }
  · rcases List.mem_append.1 hr with hr | hr
    · exact h.linkProgram r hr
    · exact List.mem_singleton.1 hr ▸ hprog
  · rcases List.mem_append.1 hr with hr | hr
    · exact h.linkDetail r hr hkind
    · exact absurd (List.mem_singleton.1 hr ▸ hkind) hk
  · obtain ⟨r, hr, hrest⟩ := h.detailLink d hdm
    exact ⟨r, List.mem_append_left _ hr, hrest⟩
  · rcases List.mem_append.1 hr with hr | hr
    · exact h.detailed r hr
    · exact List.mem_singleton.1 hr ▸ hd

end Store

end Bpfman
