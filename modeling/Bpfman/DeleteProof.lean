import Bpfman.Delete

/-!
# Deleting programs and links: what a batch keeps

`DeletePrograms` is made of listings and of single deletions, `detachAndUnload`; `DeleteLinks` also
of single detaches. A relation between worlds that these keep is kept by the whole batch, whatever
its single deletions return (`keeps_deletePrograms`, `keeps_deleteLinks`).
-/

namespace Bpfman

open Fallible Proc

variable {e : Env} {R : World → World → Prop}

theorem deleteTarget_of_ok {id : ProgramID} {w w' : World} (batch : DeleteBatch)
    (h : detachAndUnload e id w = .ok () w') : ∃ links,
    (∃ w1, listLinksByProgram e id w = .ok links w1) ∧
      deleteTarget e id batch w =
        .ok (⟨id :: batch.removedPrograms, links.map (·.id) ++ batch.removedLinks⟩, none) w' := by
  obtain ⟨links, w1, h1, h2⟩ := bind_eq_ok.1 h
  obtain ⟨_, w2, h3, h4⟩ := bind_eq_ok.1 h2
  refine ⟨links, ⟨w1, mapErr_eq_ok.1 h1⟩, ?_⟩
  simp only [deleteTarget, deleteUnlinked, attempt, bind_apply, pure_apply, h1, h4,
    forEachDone_of_ok h3]

theorem deleteTarget_of_err {id : ProgramID} {w w' : World} {err : Err} (batch : DeleteBatch)
    (h : detachAndUnload e id w = .err err w') : ∃ done,
    deleteTarget e id batch w =
      .ok ({ batch with removedLinks := done ++ batch.removedLinks }, some err) w' := by
  rcases bind_eq_err.1 h with h1 | ⟨links, w1, h1, h2⟩
  · exact ⟨[], by simp only [deleteTarget, attempt, bind_apply, pure_apply, h1, List.nil_append]⟩
  · rcases bind_eq_err.1 h2 with h3 | ⟨_, w2, h3, h4⟩
    · obtain ⟨done, hdone⟩ := forEachDone_of_err h3
      exact ⟨done.map (·.id), by
        simp only [deleteTarget, attempt, bind_apply, pure_apply, h1, hdone]⟩
    · exact ⟨links.map (·.id), by
        simp only [deleteTarget, deleteUnlinked, attempt, bind_apply, pure_apply, h1,
          h4, forEachDone_of_ok h3]⟩

variable [Std.Refl R] [IsTrans World R]

theorem keeps_deleteDependents {delete : ProgramID → DeleteBatch → M (DeleteBatch × Option Err)}
    (hdel : ∀ id batch, Keeps R (delete id batch)) :
    ∀ ids batch, Keeps R (deleteDependents delete ids batch)
  | [], _ => .pure _
  | id :: ids, batch => by
    unfold deleteDependents
    refine .ite (keeps_deleteDependents hdel ids batch) ((hdel id batch).bind fun r => ?_)
    obtain ⟨batch', _ | err⟩ := r
    · exact keeps_deleteDependents hdel ids batch'
    · exact .pure _

theorem keeps_listPrograms (hquery : ∀ {α : Type} {c : Call} {f : Store → Except Err α},
    Keeps R (query e c f)) : Keeps R (listPrograms e) :=
  .mapErr (hquery.bind fun _ => hquery.bind fun _ => hquery.bind fun _ => .pure _)

variable (hR : ∀ id, Keeps R (detachAndUnload e id))
include hR

omit [Std.Refl R] [IsTrans World R] in
theorem keeps_deleteTarget (id : ProgramID) (batch : DeleteBatch) :
    Keeps R (deleteTarget e id batch) := by
  intro w
  cases h : detachAndUnload e id w with
  | ok u w' =>
    obtain ⟨links, -, hdel⟩ := deleteTarget_of_ok batch h
    rw [hdel]
    exact (hR id).ok h
  | err err w' =>
    obtain ⟨done, hdel⟩ := deleteTarget_of_err batch h
    rw [hdel]
    exact (hR id).err h

theorem keeps_deleteProgram (deps : Dependents) (recursive : Bool) :
    ∀ fuel id batch, Keeps R (deleteProgram e deps recursive fuel id batch)
  | 0, _, _ => .pure _
  | fuel + 1, id, batch => by
    unfold deleteProgram
    refine (Keeps.pure _).ite (Keeps.ite ?_ (keeps_deleteTarget hR id batch))
    refine (keeps_deleteDependents (keeps_deleteProgram deps recursive fuel) _ _).bind fun r => ?_
    obtain ⟨batch', _ | err⟩ := r
    · exact keeps_deleteTarget hR id batch'
    · exact .pure _

theorem keeps_deleteEach (deps : Dependents) (expand : Bool) :
    ∀ ids batch, Keeps R (deleteEach e deps expand ids batch)
  | [], _ => .pure _
  | id :: ids, batch => by
    unfold deleteEach
    refine .ite ((keeps_deleteEach deps expand ids batch).bind fun _ =>
      .pure _) ((keeps_deleteProgram hR deps expand _ id batch).bind fun r => ?_)
    exact (keeps_deleteEach deps expand ids r.1).bind fun _ => .pure _

/-- A relation that deleting one program keeps is kept by `DeletePrograms`. -/
theorem keeps_deletePrograms (hlist : Keeps R (listPrograms e)) (ids : List ProgramID)
    (opts : DeleteProgramsOpts) : Keeps R (deletePrograms e ids opts) := by
  refine .bind (.bind (.attempt (.ite ?_ (.pure _))) fun r => ?_) fun _ => .pure _
  · exact hlist.mapErr.bind fun _ => .pure _
  · cases r with
    | error err => exact .pure _
    | ok deps => exact keeps_deleteEach hR deps _ _ _

/-! ## Links -/

variable (hlist : ∀ id, Keeps R (listLinksByProgram e id))
include hlist

theorem keeps_deleteIfOrphaned (deps : Dependents) (recursive : Bool) (id : ProgramID)
    (batch : DeleteBatch) : Keeps R (deleteIfOrphaned e deps recursive id batch) := by
  refine (hlist id).mapErr.attempt.bind fun r => ?_
  cases r with
  | error err => exact .pure _
  | ok links =>
    exact .ite ((keeps_deleteProgram hR deps recursive _ id batch).bind fun _ =>
      .pure _) (.pure _)

variable (hdetach : ∀ id, Keeps R (detach e id))
include hdetach

theorem keeps_deleteFoundLink (deps : Dependents) (recursive : Bool) (id : LinkID)
    (batch : DeleteBatch) (link : LinkRecord) :
    Keeps R (deleteFoundLink e deps recursive id batch link) := by
  refine (hdetach id).mapErr.attempt.bind fun r => ?_
  cases r with
  | error err => exact .pure _
  | ok u => exact keeps_deleteIfOrphaned hR hlist deps recursive _ _

variable (hget : ∀ id, Keeps R (getLink e id))
include hget

theorem keeps_deleteBatchLink (deps : Dependents) (recursive : Bool) (id : LinkID)
    (batch : DeleteBatch) : Keeps R (deleteBatchLink e deps recursive id batch) := by
  refine (Keeps.pure _).ite ((hget id).mapErr.attempt.bind fun r => ?_)
  cases r with
  | error err => exact .pure _
  | ok link => exact keeps_deleteFoundLink hR hlist hdetach deps recursive id batch link

theorem keeps_deleteEachLink (deps : Dependents) (recursive : Bool) :
    ∀ ids batch, Keeps R (deleteEachLink e deps recursive ids batch)
  | [], _ => .pure _
  | id :: ids, batch => by
    unfold deleteEachLink
    refine .ite ((keeps_deleteEachLink deps recursive ids batch).bind fun _ =>
      .pure _) ?_
    refine (keeps_deleteBatchLink hR hlist hdetach hget deps recursive id batch).bind fun r => ?_
    exact (keeps_deleteEachLink deps recursive ids r.1).bind fun _ => .pure _

/-- A relation that detaching a link and deleting a program keep is kept by `DeleteLinks`. -/
theorem keeps_deleteLinks (hprogs : Keeps R (listPrograms e)) (ids : List LinkID)
    (opts : DeleteLinksOpts) : Keeps R (deleteLinks e ids opts) := by
  refine .bind (.bind (.attempt (.ite ?_ (.pure _))) fun r => ?_) fun _ => .pure _
  · exact hprogs.mapErr.bind fun _ => .pure _
  · cases r with
    | error err => exact .pure _
    | ok deps => exact keeps_deleteEachLink hR hlist hdetach hget deps _ ids {}

end Bpfman
