import Bpfman.MapDir

/-!
# The reaper

Before its batch a load reaps the records of programs the kernel no longer holds.

* `keeps_executeReap` — reaping a program touches what is its own, and the store;
* `Shrinks` — rows of programs and references to shared maps only go, map sets stay;
* `mem_planReap` — only dead programs of the store are reaped;
* `planned_dependent` — and those only after the programs that joined their maps.
-/

namespace Bpfman

open Fallible Proc List

variable {e : Env} {w w' : World} {id : ProgramID} {sc : Scope}

variable {dead : List ProgramID} {st : List ProgramID × List ProgramID}

section Relation

variable {R : World → World → Prop} [Std.Refl R] [IsTrans World R]

/-- `executeReapDeadProgramRecord` after the map pins are removed. -/
def reapRecord (e : Env) (id : ProgramID) : M Unit := do
  ignore (cleanupSharedMapPins e id)
  match ← attempt (deleteProgramRecord e id) with
  | .ok () => ignore (removeProgramBytecodeDir e id)
  | .error _ => pure ()

theorem executeReap_eq (e : Env) (id : ProgramID) (w : World) :
    executeReapDeadProgramRecord e id w =
      reapRecord e id (removeProgramMapsPins e (.mapDir id) w).state := rfl

/-- Reaping a record touches what is not maps, and the store. -/
theorem keeps_reapRecord (hT : ∀ w w', Touched (.wide id fun _ => False) w w' → R w w')
    (hS : e.fails (.deleteProgram id) = false → ∀ w s, w.store.deleteProgram id = .ok s →
      R w { w with store := s }) : Keeps R (reapRecord e id) := by
  refine ((touched_cleanupSharedMapPins trivial).mono hT).ignore.bind fun _ =>
    Keeps.bind ?_ fun r => ?_
  · refine .attempt (keeps_primErr (fun w c => hT _ _ (touched_fail w c)) fun w _ w' h => ?_)
    obtain ⟨s', hd, rfl⟩ := deleteProgramRecord_eq_ok h
    exact hS (primErr_eq_ok.1 h).1 w s' hd
  · cases r with
    | ok u => exact (touched_removeProgramBytecodeDir.mono hT).ignore
    | error er => exact Keeps.pure ()

theorem keeps_executeReap (hT : ∀ w w', Touched (.wide id (· = id)) w w' → R w w')
    (hS : e.fails (.deleteProgram id) = false → ∀ w s, w.store.deleteProgram id = .ok s →
      R w { w with store := s }) :
    Keeps R (executeReapDeadProgramRecord e id) :=
  ((touched_removeProgramMapsPins (D := (· = id)) rfl).mono hT).ignore.bind fun _ =>
    keeps_reapRecord (fun w w' h => hT w w'
      (h.mono (fun _ hf => hf.elim) (fun _ h => h) fun h => h)) hS

end Relation

theorem executeReap_isOk (e : Env) (id : ProgramID) (w : World) :
    ∃ w', executeReapDeadProgramRecord e id w = .ok () w' := by
  rw [executeReap_eq]
  unfold reapRecord
  rw [ignore_bind, bind_apply]
  cases h : attempt (deleteProgramRecord e id) _ with
  | err er w' =>
    unfold attempt at h
    split at h <;> cases h
  | ok r w' => cases r <;> exact ⟨_, rfl⟩

/-- The rows of programs and references to shared maps only go, and those of map sets stay. -/
structure Shrinks (w w' : World) : Prop where
  programs : w'.store.programs ⊆ w.store.programs
  mapSets : w'.store.mapSets = w.store.mapSets
  refs : w'.store.sharedMapPins ⊆ w.store.sharedMapPins

instance : Std.Refl Shrinks := ⟨fun _ => ⟨List.Subset.refl _, rfl, List.Subset.refl _⟩⟩

instance : IsTrans World Shrinks := ⟨fun _ _ _ h h' =>
  ⟨List.Subset.trans h'.programs h.programs, h'.mapSets.trans h.mapSets,
    List.Subset.trans h'.refs h.refs⟩⟩

theorem shrinks_of_store_eq (h : w'.store = w.store) : Shrinks w w' := by
  refine ⟨?_, ?_, ?_⟩ <;> rw [h] <;> exact List.Subset.refl _

theorem Touched.shrinks (h : Touched sc w w') : Shrinks w w' := by
  obtain ⟨refs, hsub, heq⟩ := h.refs
  constructor <;> rw [heq]
  exacts [List.Subset.refl _, hsub]

theorem shrinks_executeReap : Keeps Shrinks (executeReapDeadProgramRecord e id) := by
  refine keeps_executeReap (fun _ _ ht => ht.shrinks) fun _ w s hs => ?_
  obtain ⟨-, rfl⟩ := Store.deleteProgram_eq_ok hs
  exact ⟨filter_subset_self _, rfl, filter_subset_self _⟩

theorem shrinks_reap (e : Env) (w : World) : Shrinks w (reapDeadProgramRecords e w).state :=
  keeps_reap (fun _ _ => shrinks_of_store_eq rfl) fun _ _ => shrinks_executeReap

/-! ## The plan -/

/-- The owner of a program, as the plan of a reap looks it up. -/
def ownerIn (progs : List ProgramRecord) (id : ProgramID) : Option ProgramID :=
  (progs.find? (·.programID = id)).bind (·.mapOwnerID)

/-- The programs that joined the maps of `o` and are not planned. -/
def dependentsLeft (progs : List ProgramRecord) (plan : List ProgramID) (o : ProgramID) :
    List ProgramRecord :=
  progs.filter fun r => decide (r.mapOwnerID = some o) && decide (r.programID ∉ plan)

/-- What a state of the plan keeps: only candidates are planned, a program that is planned has no
dependents left, and `deps` has the owner of every program that is not planned. -/
structure PlanOK (progs : List ProgramRecord) (all : List ProgramID)
    (st : List ProgramID × List ProgramID) : Prop where
  planned : st.1 ⊆ all
  closed : ∀ id ∈ st.1, dependentsLeft progs st.1 id = []
  counted : ∀ o, (dependentsLeft progs st.1 o).length ≤ st.2.count o

variable {progs : List ProgramRecord} {all : List ProgramID}

theorem mem_dependentsLeft {plan : List ProgramID} {o : ProgramID} {r : ProgramRecord} :
    r ∈ dependentsLeft progs plan o ↔
      r ∈ progs ∧ r.mapOwnerID = some o ∧ r.programID ∉ plan := by
  simp [dependentsLeft]

theorem dependentsLeft_append (plan : List ProgramID) (id o : ProgramID) :
    dependentsLeft progs (plan ++ [id]) o =
      (dependentsLeft progs plan o).filter (·.programID ≠ id) := by
  unfold dependentsLeft
  rw [filter_filter]
  simp only [mem_append, mem_singleton, not_or, Bool.decide_and, ne_eq]
  ac_rfl

theorem PlanOK.plan {plan deps : List ProgramID} (h : PlanOK progs all (plan, deps))
    (hall : id ∈ all) (hid : id ∉ plan) (hdeps : id ∉ deps) :
    PlanOK progs all (plan ++ [id], (ownerIn progs id).elim deps deps.erase) where
  planned x hx := (mem_append.1 hx).elim (@h.planned x) fun hx => mem_singleton.1 hx ▸ hall
  closed x hx := by
    have hnil : dependentsLeft progs plan x = [] := by
      rcases mem_append.1 hx with hx | hx
      · exact h.closed x hx
      · obtain rfl := mem_singleton.1 hx
        have := h.counted x
        rw [count_eq_zero_of_not_mem hdeps] at this
        exact length_eq_zero_iff.1 (Nat.le_zero.1 this)
    rw [dependentsLeft_append, hnil]
    rfl
  counted o := by
    have hle : (dependentsLeft progs plan o).length ≤ deps.count o := h.counted o
    rw [dependentsLeft_append]
    by_cases ho : ownerIn progs id = some o
    · -- the program itself is one of the dependents of its owner
      obtain ⟨r, hr, hro⟩ := Option.bind_eq_some_iff.1 ho
      obtain ⟨hmem, hrid⟩ := Table.mem_of_find hr
      have hleft : r ∈ dependentsLeft progs plan o := mem_dependentsLeft.2 ⟨hmem, hro, hrid ▸ hid⟩
      have hlt : ((dependentsLeft progs plan o).filter (·.programID ≠ id)).length <
          (dependentsLeft progs plan o).length :=
        length_filter_lt_length_iff_exists.2 ⟨r, hleft, by simp [hrid]⟩
      rw [ho, Option.elim_some, count_erase_self]
      omega
    · have hsame : (ownerIn progs id).elim deps deps.erase = deps ∨
          ∃ o' ≠ o, (ownerIn progs id).elim deps deps.erase = deps.erase o' := by
        cases hown : ownerIn progs id with
        | none => exact .inl rfl
        | some o' => exact .inr ⟨o', fun heq => ho (heq ▸ hown), rfl⟩
      have hcount : ((ownerIn progs id).elim deps deps.erase).count o = deps.count o := by
        rcases hsame with heq | ⟨o', hne, heq⟩
        · rw [heq]
        · rw [heq, count_erase_of_ne hne.symm]
      rw [hcount]
      exact (length_filter_le _ _).trans hle

theorem PlanOK.pass (h : PlanOK progs all st) (hsub : dead ⊆ all) :
    PlanOK progs all (reapPass (ownerIn progs) dead st) := by
  induction dead generalizing st with
  | nil => exact h
  | cons d dead ih =>
    obtain ⟨hd, hsub⟩ := cons_subset.1 hsub
    unfold reapPass
    split
    · exact ih h hsub
    · rename_i hnot
      exact ih (h.plan hd (fun hd => hnot (.inl hd)) fun hd => hnot (.inr hd)) hsub

theorem PlanOK.passes {fuel : Nat} (h : PlanOK progs all st) (hsub : dead ⊆ all) :
    PlanOK progs all (reapPasses (ownerIn progs) dead fuel st) := by
  induction fuel generalizing st with
  | zero => exact h
  | succ fuel ih =>
    unfold reapPasses
    dsimp only
    split
    · exact h
    · exact ih (h.pass hsub)

theorem planOK_planReap (progs : List ProgramRecord) (live : ProgramID → Bool) :
    ∃ st, PlanOK progs ((progs.map (·.programID)).filter (!live ·)) st ∧
      planReap progs live = st.1 := by
  have hsort : ((progs.map (·.programID)).filter (!live ·)).insertionSort (· ≤ ·) ⊆
      (progs.map (·.programID)).filter (!live ·) := fun _ h => (mem_insertionSort _).1 h
  refine ⟨_, PlanOK.passes ⟨nil_subset _, fun x hx => absurd hx not_mem_nil, fun o => ?_⟩
    hsort, rfl⟩
  rw [count_filterMap, countP_eq_length_filter]
  refine le_of_eq (congrArg length (filter_congr fun r _ => ?_))
  by_cases h : r.mapOwnerID = some o <;> simp [h]

theorem mem_planReap {live : ProgramID → Bool} (h : id ∈ planReap progs live) :
    (∃ r ∈ progs, r.programID = id) ∧ live id = false := by
  obtain ⟨st, hst, hplan⟩ := planOK_planReap progs live
  obtain ⟨hrow, hlive⟩ := mem_filter.1 (hst.planned (hplan ▸ h))
  exact ⟨mem_map.1 hrow, by simpa using hlive⟩

/-- **A program is reaped after its dependents**: those of a planned program are all planned. -/
theorem planned_dependent {live : ProgramID → Bool} (hid : id ∈ planReap progs live)
    {r : ProgramRecord} (hr : r ∈ progs) (ho : r.mapOwnerID = some id) :
    r.programID ∈ planReap progs live := by
  obtain ⟨st, hst, hplan⟩ := planOK_planReap progs live
  rw [hplan] at hid ⊢
  by_contra hnot
  have hmem : r ∈ dependentsLeft progs st.1 id := mem_dependentsLeft.2 ⟨hr, ho, hnot⟩
  rw [hst.closed id hid] at hmem
  cases hmem

theorem recorded_of_reaped {s : Store} (h : id ∈ reaped e s) :
    ∃ p ∈ s.programs, p.programID = id := by
  unfold reaped at h
  split at h
  · cases h
  · obtain ⟨⟨r, hr, rfl⟩, -⟩ := mem_planReap h
    obtain ⟨p, hp, hrec⟩ := mem_filterMap.1 hr
    obtain ⟨ms, -, rfl⟩ := Option.map_eq_some_iff.1 hrec
    exact ⟨p, hp, rfl⟩

/-! ## The programs left -/

/-- The rows of programs and map sets are the same. -/
def SameRows (w w' : World) : Prop :=
  w'.store.programs = w.store.programs ∧ w'.store.mapSets = w.store.mapSets

instance : Std.Refl SameRows := ⟨fun _ => ⟨rfl, rfl⟩⟩

instance : IsTrans World SameRows := ⟨fun _ _ _ h h' => ⟨h'.1.trans h.1, h'.2.trans h.2⟩⟩

theorem Touched.sameRows {sc : Scope} (h : Touched sc w w') : SameRows w w' := by
  obtain ⟨refs, -, heq⟩ := h.refs
  constructor <;> rw [heq]

theorem executeReap_programs (e : Env) (id : ProgramID) (w : World) :
    (executeReapDeadProgramRecord e id w).state.store.programs =
      if e.fails (.deleteProgram id) then w.store.programs
      else w.store.programs.filter (·.programID ≠ id) := by
  obtain ⟨w1, hw1⟩ : ∃ w1, (cleanupSharedMapPins e id
    (removeProgramMapsPins e (.mapDir id) w).state).state = w1 := ⟨_, rfl⟩
  have hrows : w1.store.programs = w.store.programs := by
    rw [← hw1]
    exact ((touched_cleanupSharedMapPins (D := (· = id)) (S := fun _ => True) (U := True) trivial
      _).sameRows.1).trans (@touched_removeProgramMapsPins _ id (· = id) (fun _ => True) True
        _ rfl w).sameRows.1
  rw [executeReap_eq, reapRecord, ignore_bind, hw1, bind_apply, attempt, ← hrows]
  cases h : deleteProgramRecord e id w1 with
  | ok u w2 =>
    obtain ⟨s', hs, rfl⟩ := deleteProgramRecord_eq_ok h
    obtain ⟨-, rfl⟩ := Store.deleteProgram_eq_ok hs
    have hbytecode := (@touched_removeProgramBytecodeDir e id (fun _ => False)
      (fun _ => True) True).ignore.mono (fun _ _ ht => ht.sameRows)
    rw [(primErr_eq_ok.1 h).1]
    exact (hbytecode _).1
  | err er w2 =>
    rw [primErr_eq_err h]
    change w1.store.programs = _
    split
    · rfl
    · -- the call works, so there was no row to delete
      rename_i hf
      rw [eq_comm, filter_eq_self]
      intro p hp
      by_contra hid
      have hany : w1.store.programs.any (fun p => decide (p.programID = id)) = true :=
        any_eq_true.2 ⟨p, hp, by simpa using hid⟩
      simp [deleteProgramRecord, primErr, Store.deleteProgram, hany, hf, Except.map] at h

theorem reap_programs (e : Env) (w : World) :
    (reapDeadProgramRecords e w).state.store.programs = w.store.programs.filter fun p =>
      decide (p.programID ∉ reaped e w.store) || e.fails (.deleteProgram p.programID) := by
  obtain ⟨w0, hw0, heq⟩ := reap_state e w
  have hrows : w0.store.programs = w.store.programs := by
    rcases hw0 with rfl | ⟨c, rfl⟩ <;> rfl
  rw [heq, ← hrows]
  generalize reaped e w.store = plan
  clear heq hw0 hrows
  induction plan generalizing w0 with
  | nil => simp
  | cons id plan ih =>
    obtain ⟨w1, h1⟩ := executeReap_isOk e id w0
    have hone := executeReap_programs e id w0
    rw [h1, Outcome.state_ok] at hone
    rw [forEach_cons, bind_of_ok h1, ih, hone]
    cases hf : e.fails (.deleteProgram id) with
    | true =>
      refine filter_congr fun p _ => ?_
      by_cases hp : p.programID = id <;> simp [hp, hf]
    | false =>
      rw [if_neg Bool.false_ne_true, filter_filter]
      refine filter_congr fun p _ => ?_
      by_cases hp : p.programID = id <;> simp [hp, hf]

end Bpfman
