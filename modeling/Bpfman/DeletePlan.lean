import Bpfman.Lib.Rank
import Bpfman.DeleteOrder
import Bpfman.Catalogue

/-!
# What a call removes, and in which order

A deletion of `o` drags `d` along if `d` joined the maps of `o` and is selected. Every program is
selected with `Recursive` or `All`, else the programs of the list are. `removalOrder` is the list of
the programs that a call of `DeletePrograms` sets out to remove, a function of the state, the list
and the options. If the programs that share maps form no cycle, these are the requested ones, each
once and after its selected dependents (`removalOrder_spec`).
-/

namespace Bpfman

open List Store Relation

variable {s : Store} {p q d o : ProgramID} {sel : Set ProgramID} {deps : Dependents}
  {opts : DeleteProgramsOpts} {ids done : List ProgramID} {expand : Bool}

/-! ## What a deletion drags along -/

def Store.Manages (s : Store) (p : ProgramID) : Prop := ∃ x ∈ s.programs, x.programID = p

instance (s : Store) (p : ProgramID) : Decidable (s.Manages p) :=
  inferInstanceAs (Decidable (∃ x ∈ s.programs, _))

/-- The program `d` joined the maps of `o`. -/
def Store.Owns (s : Store) (o d : ProgramID) : Prop :=
  ∃ x ∈ s.programs, x.programID = d ∧ x.mapSetID = o ∧ o ≠ d

/-- Deleting `o` deletes `d` first. -/
def Drags (s : Store) (sel : Set ProgramID) (o d : ProgramID) : Prop := s.Owns o d ∧ d ∈ sel

/-- The managed programs that a deletion of `p` deletes. -/
def Reached (s : Store) (sel : Set ProgramID) (p q : ProgramID) : Prop :=
  s.Manages q ∧ ReflTransGen (Drags s sel) p q

theorem Store.Owns.manages (h : s.Owns o d) : s.Manages d := by
  obtain ⟨x, hx, hid, -⟩ := h
  exact ⟨x, hx, hid⟩

theorem reached_iff : Reached s sel p q ↔
    (q = p ∧ s.Manages p) ∨ ∃ d, Drags s sel p d ∧ Reached s sel d q := by
  constructor
  · rintro ⟨hq, hpath⟩
    rcases ReflTransGen.cases_head hpath with rfl | ⟨d, hd, hrest⟩
    · exact .inl ⟨rfl, hq⟩
    · exact .inr ⟨d, hd, hq, hrest⟩
  · rintro (⟨rfl, hq⟩ | ⟨d, hd, hq, hrest⟩)
    · exact ⟨hq, .refl⟩
    · exact ⟨hq, .head hd hrest⟩

/-! ## The dependents -/

/-- The dependents that a listing of the programs gives. -/
def Store.dependents (s : Store) : Dependents :=
  (s.listPrograms.insertionSort fun a b => a.programID ≤ b.programID).filterMap
    fun r => r.mapOwnerID.map (·, r.programID)

theorem Store.mem_dependents (hsets : s.SetsRecorded) : (o, d) ∈ s.dependents ↔ s.Owns o d := by
  unfold dependents listPrograms
  simp only [mem_filterMap, (perm_insertionSort _ _).mem_iff, Option.map_eq_some_iff, Prod.mk.injEq]
  constructor
  · rintro ⟨r, ⟨x, hx, hr⟩, o', howner, rfl, rfl⟩
    obtain ⟨ms, -, -, rfl⟩ := programRecord_eq_some hr
    split_ifs at howner with hown
    exact ⟨x, hx, rfl, Option.some.inj howner, fun heq => hown ((Option.some.inj howner).trans heq)⟩
  · rintro ⟨x, hx, rfl, rfl, hne⟩
    obtain ⟨r, hr⟩ := exists_programRecord (hsets x hx)
    refine ⟨r, ⟨x, hx, hr⟩, x.mapSetID, ?_, rfl, ?_⟩
    all_goals obtain ⟨ms, -, -, rfl⟩ := programRecord_eq_some hr
    · exact if_neg hne
    · rfl

/-- The dependents that a call reads: none for one program without recursion. -/
def Store.knownDependents (s : Store) (opts : DeleteProgramsOpts) (ids : List ProgramID) :
    Dependents :=
  if opts.recursive || opts.all || ids.length > 1 then s.dependents else []

theorem mem_of : d ∈ deps.of o ↔ (o, d) ∈ deps := by
  simp [Dependents.of]

variable (opts ids) in
theorem owns_of_known (hsets : s.SetsRecorded) (hd : d ∈ (s.knownDependents opts ids).of o) :
    s.Owns o d := by
  unfold knownDependents at hd
  split_ifs at hd
  · exact (mem_dependents hsets).1 (mem_of.1 hd)
  · cases hd

theorem known_of_expand (hsets : s.SetsRecorded) (hx : (opts.recursive || opts.all) = true) :
    d ∈ (s.knownDependents opts ids).of o ↔ s.Owns o d := by
  rw [knownDependents, hx, Bool.true_or, if_pos rfl, mem_of, mem_dependents hsets]

/-- The pairs of a listing decrease a rank that they bound. -/
theorem exists_rank_of_acyclic (hown : ∀ o, ∀ d ∈ deps.of o, s.Owns o d)
    (hacyclic : ∀ p, ¬ TransGen s.Owns p p) :
    ∃ rank : ProgramID → Nat, (∀ o, ∀ d ∈ deps.of o, rank d < rank o) ∧
      ∀ p, rank p ≤ deps.length := by
  obtain ⟨rank, hrank, hbound⟩ := Rank.exists_rank (E := deps) fun p hp =>
    hacyclic p (TransGen.mono (fun o d h => hown o d (mem_of.2 h)) _ _ hp)
  exact ⟨rank, fun o d hd => hrank o d (mem_of.1 hd), hbound⟩

/-! ## The removals -/

/-- The programs removed once `id` is deleted, given those removed before, the latest first. -/
def removals (s : Store) (deps : Dependents) (recursive : Bool) :
    Nat → ProgramID → List ProgramID → List ProgramID
  | 0, _, done => done
  | fuel + 1, id, done =>
    if id ∈ done then done
    else
      let before :=
        if recursive then
          (deps.of id).foldl (fun done d => removals s deps recursive fuel d done) done
        else done
      if s.Manages id then id :: before else before

/-- The programs that a call removes if each of its deletions succeeds, the latest first. -/
def removalOrder (s : Store) (opts : DeleteProgramsOpts) (ids : List ProgramID) : List ProgramID :=
  let deps := s.knownDependents opts ids
  (orderProgramDeletes ids deps).foldl
    (fun done id => removals s deps (opts.recursive || opts.all) (deps.length + 1) id done) []

section Equations

variable {fuel : Nat}

theorem removals_of_mem (hp : p ∈ done) : removals s deps expand (fuel + 1) p done = done :=
  if_pos hp

theorem removals_true (hp : p ∉ done) :
    removals s deps true (fuel + 1) p done =
      if s.Manages p then
        p :: (deps.of p).foldl (fun done d => removals s deps true fuel d done) done
      else (deps.of p).foldl (fun done d => removals s deps true fuel d done) done :=
  if_neg hp

theorem removals_false (hp : p ∉ done) :
    removals s deps false (fuel + 1) p done = if s.Manages p then p :: done else done :=
  if_neg hp

end Equations

theorem suffix_foldl {step : ProgramID → List ProgramID → List ProgramID}
    (hstep : ∀ d done, done <:+ step d done) :
    ∀ (ds done : List ProgramID), done <:+ ds.foldl (fun done d => step d done) done
  | [], _ => suffix_rfl
  | d :: ds, done => (hstep d done).trans (suffix_foldl hstep ds (step d done))

theorem suffix_removals : ∀ (fuel : Nat) (p : ProgramID) (done : List ProgramID),
    done <:+ removals s deps expand fuel p done
  | 0, _, _ => suffix_rfl
  | fuel + 1, p, done => by
    have hdeps := suffix_foldl (suffix_removals fuel) (deps.of p) done
    by_cases hp : p ∈ done
    · rw [removals_of_mem hp]
    · cases expand with
      | true =>
        rw [removals_true hp]
        split_ifs
        · exact hdeps.trans (suffix_cons ..)
        · exact hdeps
      | false =>
        rw [removals_false hp]
        split_ifs
        · exact suffix_cons ..
        · exact suffix_rfl

/-! ## What is removed -/

/-- Managed programs, the latest first: each once and after those it drags along. -/
structure Planned (s : Store) (sel : Set ProgramID) (done : List ProgramID) : Prop where
  managed : ∀ p ∈ done, s.Manages p
  once : done.Nodup
  first : ∀ pre o suf, done = pre ++ o :: suf → ∀ d, Drags s sel o d → d ∈ suf

namespace Planned

theorem nil : Planned s sel [] := ⟨nofun, nodup_nil, fun pre o suf h => by simp at h⟩

theorem drags (h : Planned s sel done) (ho : o ∈ done) (hd : Drags s sel o d) : d ∈ done := by
  obtain ⟨pre, suf, heq⟩ := append_of_mem ho
  rw [heq]
  exact mem_append_right _ (mem_cons_of_mem _ (h.first pre o suf heq d hd))

theorem closed (h : Planned s sel done) (hp : p ∈ done)
    (hreach : ReflTransGen (Drags s sel) p q) : q ∈ done := by
  induction hreach with
  | refl => exact hp
  | tail _ hd ih => exact h.drags ih hd

theorem cons (h : Planned s sel done) (hp : s.Manages p) (hnew : p ∉ done)
    (hdeps : ∀ d, Drags s sel p d → d ∈ done) : Planned s sel (p :: done) where
  managed q hq := by
    rcases mem_cons.1 hq with rfl | hq
    · exact hp
    · exact h.managed q hq
  once := nodup_cons.2 ⟨hnew, h.once⟩
  first pre o suf heq d hd := by
    rcases cons_eq_append_iff.1 heq with ⟨rfl, hcons⟩ | ⟨pre', rfl, hrest⟩
    · obtain ⟨rfl, rfl⟩ := cons.inj hcons
      exact hdeps d hd
    · exact h.first pre' o suf hrest d hd

end Planned

/-- Adding to the removals `done` those of a deletion of `p` gives `done'`. -/
def Adds (s : Store) (sel : Set ProgramID) (P : ProgramID → Prop) (done done' : List ProgramID) :
    Prop :=
  Planned s sel done' ∧ ∀ q, q ∈ done' ↔ q ∈ done ∨ P q

theorem adds_removed (h : Planned s sel done) (hp : p ∈ done) :
    Adds s sel (Reached s sel p) done done :=
  ⟨h, fun _ => ⟨.inl, fun hq => hq.elim id fun hq => h.closed hp hq.2⟩⟩

/-- **The step**: what a program drags along is removed before it. -/
theorem adds_target (h : Planned s sel done) (hp : p ∉ done)
    (hdeps : ∀ d, Drags s sel p d → d ∈ done) :
    Adds s sel (Reached s sel p) done (if s.Manages p then p :: done else done) := by
  have hreach : ∀ q, Reached s sel p q → (q = p ∧ s.Manages p) ∨ q ∈ done := by
    intro q hreach
    rcases reached_iff.1 hreach with hself | ⟨d, hd, -, hpath⟩
    · exact .inl hself
    · exact .inr (h.closed (hdeps d hd) hpath)
  by_cases hman : s.Manages p
  · rw [if_pos hman]
    refine ⟨h.cons hman hp hdeps, fun q => ⟨fun hmem => ?_, ?_⟩⟩
    · rcases mem_cons.1 hmem with rfl | hmem
      · exact .inr ⟨hman, .refl⟩
      · exact .inl hmem
    · rintro (hmem | hmem)
      · exact mem_cons_of_mem _ hmem
      · rcases hreach q hmem with ⟨rfl, -⟩ | hmem
        · exact mem_cons_self ..
        · exact mem_cons_of_mem _ hmem
  · rw [if_neg hman]
    refine ⟨h, fun q => ⟨.inl, fun hmem => hmem.elim id fun hmem => ?_⟩⟩
    exact (hreach q hmem).resolve_left fun hself => hman hself.2

/-- What a program drags along is removed before its turn, or by its own deletion. -/
def Prepared (s : Store) (sel : Set ProgramID) (expand : Bool) (done ids : List ProgramID) : Prop :=
  expand = true ∨ ∀ pre o suf, ids = pre ++ o :: suf →
    ∀ d, Drags s sel o d → d ∈ pre ∨ d ∈ done

theorem Prepared.head (h : Prepared s sel expand done (p :: ids)) (hx : expand = false)
    (hd : Drags s sel p d) : d ∈ done :=
  (h.resolve_left (by simp [hx]) [] p ids rfl d hd).resolve_left not_mem_nil

theorem Prepared.tail {done' : List ProgramID} (h : Prepared s sel expand done (p :: ids))
    (hadd : Adds s sel (Reached s sel p) done done') : Prepared s sel expand done' ids := by
  refine h.imp id fun h pre o suf heq d hd => ?_
  rcases h (p :: pre) o suf (congrArg (p :: ·) heq) d hd with hpre | hmem
  · rcases mem_cons.1 hpre with rfl | hpre
    · exact .inr ((hadd.2 d).2 (.inr ⟨hd.1.manages, .refl⟩))
    · exact .inl hpre
  · exact .inr ((hadd.2 d).2 (.inl hmem))

/-- **The loop**, over the list of a call or over the dependents of a program. -/
theorem adds_foldl {step : ProgramID → List ProgramID → List ProgramID} :
    ∀ (ids done : List ProgramID),
      (∀ p ∈ ids, ∀ done rest, Prepared s sel expand done (p :: rest) → Planned s sel done →
        Adds s sel (Reached s sel p) done (step p done)) →
      Prepared s sel expand done ids → Planned s sel done →
      Adds s sel (fun q => ∃ p ∈ ids, Reached s sel p q) done
        (ids.foldl (fun done p => step p done) done)
  | [], done, _, _, h => ⟨h, fun q => by simp⟩
  | p :: ids, done, hstep, hprep, h => by
    have hadd := hstep p (mem_cons_self ..) done ids hprep h
    obtain ⟨hplan, hmem⟩ := adds_foldl ids (step p done)
      (fun q hq => hstep q (mem_cons_of_mem _ hq)) (hprep.tail hadd) hadd.1
    refine ⟨hplan, fun q => (hmem q).trans ?_⟩
    rw [hadd.2, or_assoc]
    simp only [mem_cons, exists_eq_or_imp]

/-- A rank that the dependents decrease is decreased along every path of theirs. -/
theorem rank_le_of_path {rank : ProgramID → Nat} (hrank : ∀ o, ∀ d ∈ deps.of o, rank d < rank o)
    (hpath : ReflTransGen (Rank.Edge deps) p q) : rank q ≤ rank p := by
  induction hpath with
  | refl => exact le_rfl
  | tail _ hstep ih => exact (hrank _ _ (mem_of.2 hstep)).le.trans ih

/-- **The recursion** adds everything that depends on the program. The induction is on the fuel, of
which there is more than the rank of the program. -/
theorem adds_removals {rank : ProgramID → Nat} (hdeps : ∀ o d, d ∈ deps.of o ↔ s.Owns o d)
    (hrank : ∀ o, ∀ d ∈ deps.of o, rank d < rank o) :
    ∀ (fuel : Nat) (p : ProgramID) (done : List ProgramID), rank p < fuel →
      Planned s Set.univ done →
      Adds s Set.univ (Reached s Set.univ p) done (removals s deps true fuel p done)
  | fuel + 1, p, done, hfuel, h => by
    have hdrag : ∀ o d, Drags s Set.univ o d ↔ d ∈ deps.of o := fun o d =>
      (and_iff_left (Set.mem_univ d)).trans (hdeps o d).symm
    by_cases hin : p ∈ done
    · rw [removals_of_mem hin]
      exact adds_removed h hin
    · rw [removals_true hin]
      obtain ⟨hplan, hmem⟩ := adds_foldl (deps.of p) done
        (fun d hd done _ _ h => adds_removals hdeps hrank fuel d done
          ((hrank p d hd).trans_le (Nat.le_of_lt_succ hfuel)) h) (.inl (Eq.refl true)) h
      -- no dependent reaches the program itself
      have hp : p ∉ (deps.of p).foldl (fun done d => removals s deps true fuel d done) done := by
        intro hp
        rcases (hmem p).1 hp with hp | ⟨d, hd, -, hpath⟩
        · exact hin hp
        · have hpath' := ReflTransGen.mono (fun o d h => mem_of.1 ((hdrag o d).1 h)) _ _ hpath
          exact absurd (hrank p d hd) (not_lt.2 (rank_le_of_path hrank hpath'))
      obtain ⟨hplan', hmem'⟩ := adds_target hplan hp fun d hd =>
        (hmem d).2 (.inr ⟨d, (hdrag p d).1 hd, hd.1.manages, .refl⟩)
      refine ⟨hplan', fun q => (hmem' q).trans ?_⟩
      rw [hmem]
      constructor
      · rintro ((hq | ⟨d, hd, hq⟩) | hq)
        · exact .inl hq
        · exact .inr (reached_iff.2 (.inr ⟨d, (hdrag p d).2 hd, hq⟩))
        · exact .inr hq
      · exact Or.imp_left .inl

/-! ## The whole call -/

/-- The programs a call may delete. -/
def selection (opts : DeleteProgramsOpts) (ids : List ProgramID) : Set ProgramID :=
  {p | (opts.recursive || opts.all) = true ∨ p ∈ ids}

/-- The programs a call is to delete: the managed ones of the list and, with `Recursive` or `All`,
every program that depends on one of the list. -/
def Requested (s : Store) (opts : DeleteProgramsOpts) (ids : List ProgramID) (q : ProgramID) :
    Prop :=
  s.Manages q ∧ (q ∈ ids ∨
    (opts.recursive || opts.all) = true ∧ ∃ i ∈ ids, TransGen s.Owns i q)

theorem selection_univ (h : (opts.recursive || opts.all) = true) : selection opts ids = Set.univ :=
  Set.eq_univ_of_forall fun _ => .inl h

theorem exists_reached_iff :
    (∃ i ∈ ids, Reached s (selection opts ids) i q) ↔ Requested s opts ids q := by
  constructor
  · rintro ⟨i, hi, hq, hpath⟩
    refine ⟨hq, ?_⟩
    by_cases hx : (opts.recursive || opts.all) = true
    · rcases reflTransGen_iff_eq_or_transGen.1 hpath with rfl | hpath
      · exact .inl hi
      · exact .inr ⟨hx, i, hi, TransGen.mono (fun _ _ h => h.1) _ _ hpath⟩
    · -- what is dragged along is in the list itself
      left
      rcases ReflTransGen.cases_tail hpath with rfl | ⟨o, -, -, hsel⟩
      · exact hi
      · exact hsel.resolve_left hx
  · rintro ⟨hq, hi | ⟨hx, i, hi, hpath⟩⟩
    · exact ⟨q, hi, hq, .refl⟩
    · exact ⟨i, hi, hq, TransGen.to_reflTransGen
        (TransGen.mono (fun _ _ h => ⟨h, .inl hx⟩) _ _ hpath)⟩

section Call

variable (opts ids) (hsets : s.SetsRecorded) (hacyclic : ∀ p, ¬ TransGen s.Owns p p)
include hsets hacyclic

/-- The order of a call lists its programs. If any is a dependent, each is listed once and after its
selected dependents. -/
theorem order_spec : (∀ x, x ∈ orderProgramDeletes ids (s.knownDependents opts ids) ↔ x ∈ ids) ∧
    DependentsFirst (s.knownDependents opts ids) ids
      (orderProgramDeletes ids (s.knownDependents opts ids)) ∧
    (s.knownDependents opts ids ≠ [] →
      (orderProgramDeletes ids (s.knownDependents opts ids)).Nodup) := by
  obtain ⟨rank, hrank, -⟩ := exists_rank_of_acyclic
    (fun o d hd => owns_of_known opts ids hsets hd) hacyclic
  exact orderProgramDeletes_spec ids hrank

/-- The order of a call prepares each of its deletions. -/
theorem prepared_order : Prepared s (selection opts ids) (opts.recursive || opts.all) []
    (orderProgramDeletes ids (s.knownDependents opts ids)) := by
  by_cases hx : (opts.recursive || opts.all) = true
  · exact .inl hx
  · obtain ⟨-, hfirst, -⟩ := order_spec opts ids hsets hacyclic
    refine .inr fun pre o suf heq d hd => .inl ?_
    have hmem : d ∈ ids := hd.2.resolve_left hx
    by_cases hmany : ids.length > 1
    · refine hfirst pre o suf heq d ?_ hmem
      rw [knownDependents, decide_eq_true hmany, Bool.or_true, if_pos rfl, mem_of]
      exact (mem_dependents hsets).2 hd.1
    · -- the only program of the list does not depend on itself
      have hplain : orderProgramDeletes ids (s.knownDependents opts ids) = ids := by
        rw [orderProgramDeletes, decide_eq_true (not_lt.1 hmany), Bool.true_or, if_pos rfl]
      obtain ⟨⟨x, -, -, -, hne⟩, -⟩ := hd
      have hlen := not_lt.1 hmany
      rw [hplain] at heq
      rw [heq, length_append, length_cons] at hlen
      obtain rfl : pre = [] := length_eq_zero_iff.1 (by omega)
      obtain rfl : suf = [] := length_eq_zero_iff.1 (by omega)
      rw [heq, nil_append, mem_singleton] at hmem
      exact absurd hmem.symm hne

/-- **The removals of a call** are the requested programs, each once and after its dependents. -/
theorem removalOrder_spec : Planned s (selection opts ids) (removalOrder s opts ids) ∧
    ∀ q, q ∈ removalOrder s opts ids ↔ Requested s opts ids q := by
  obtain ⟨rank, hrank, hbound⟩ := exists_rank_of_acyclic
    (fun o d hd => owns_of_known opts ids hsets hd) hacyclic
  have hadd : Adds s (selection opts ids) _ [] (removalOrder s opts ids) :=
    adds_foldl _ [] ?_ (prepared_order opts ids hsets hacyclic) .nil
  · refine ⟨hadd.1, fun q => (hadd.2 q).trans ?_⟩
    rw [← exists_reached_iff]
    simp [(order_spec opts ids hsets hacyclic).1]
  · intro p _ done rest hprep h
    by_cases hx : (opts.recursive || opts.all) = true
    · rw [selection_univ hx] at h ⊢
      rw [hx]
      exact adds_removals (fun o d => known_of_expand hsets hx) hrank _ p done
        (Nat.lt_succ_of_le (hbound p)) h
    · rw [Bool.not_eq_true] at hx
      have hdrag := fun d hd => hprep.head (d := d) hx hd
      rw [hx]
      by_cases hin : p ∈ done
      · rw [removals_of_mem hin]
        exact adds_removed h hin
      · rw [removals_false hin]
        exact adds_target h hin hdrag

end Call

end Bpfman
