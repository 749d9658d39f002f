import Mathlib.Data.List.Permutation
import Bpfman.DeletePlan
import Bpfman.DeleteLinks

/-!
# Deleting programs

`DeletePrograms` when no primitive fails and the programs that share maps form no cycle. In every
order of the list the call does what it is for, exactly if in each of these orders every program can
be taken down in its turn (`deletePrograms_exact_iff`): if two links of it are on one dispatcher
whose recorded namespace is gone, a program removed before it has a link there too.

The run is compared with `removalOrder`. A deletion follows it (`Follows`), or stops at a program
that cannot be taken down and leaves it behind (`Stuck`). `deleteTarget_ends` is the step,
`deleteProgram_ends` the recursion over dependents, `deleteEach_ends` the run.
-/

namespace Bpfman

open Fallible Proc List Store Relation

variable {e : Env} {w w' : World} {s s₀ : Store} {p q d o : ProgramID} {sel : Set ProgramID}
  {batch batch' : DeleteBatch} {deps : Dependents} {ids done plan : List ProgramID}
  {opts : DeleteProgramsOpts} {expand : Bool} {err : Option Err}

/-! ## Taking programs down in their turn -/

/-- The links of `p` can be detached one by one once the programs of `done` are removed: if two of
them are on one dispatcher whose recorded namespace is gone, a program of `done` has a link there
too, and took the dispatcher down. -/
def Removable (e : Env) (s : Store) (done : List ProgramID) (p : ProgramID) : Prop :=
  ∀ n ∈ s.linkSet, ∀ m ∈ s.linkSet, n.programID = p → m.programID = p → n.gone e → n.key = m.key →
    n.id ≠ m.id → ∃ k ∈ s.linkSet, k.key = n.key ∧ k.programID ∈ done

/-- Every program of the removals, the latest first, can be taken down in its turn. -/
def InOrder (e : Env) (s : Store) : List ProgramID → Prop
  | [] => True
  | p :: done => Removable e s done p ∧ InOrder e s done

theorem InOrder.of_suffix (h : InOrder e s plan) (hsuf : done <:+ plan) : InOrder e s done := by
  obtain ⟨pre, rfl⟩ := hsuf
  induction pre with
  | nil => exact h
  | cons p pre ih => exact ih h.2

theorem inOrder_of_live (h : ∀ n : LinkData, ¬ n.gone e) : ∀ plan, InOrder e s plan
  | [] => trivial
  | _ :: plan => ⟨fun n _ _ _ _ _ hgone => absurd hgone (h n), inOrder_of_live h plan⟩

/-- What is left of the store `s₀` once the programs of `done` were removed in that order. -/
structure Deleted (e : Env) (s₀ : Store) (done : List ProgramID) (s : Store) : Prop where
  consistent : s.Consistent
  recorded : s.SetsRecorded
  catalogue : s.catalogue = s₀.catalogue.delete e done
  inOrder : InOrder e s₀ done

namespace Deleted

theorem start (hs : s.Consistent) (hsets : s.SetsRecorded) : Deleted e s [] s :=
  ⟨hs, hsets, (Catalogue.delete_nil _).symm, trivial⟩

theorem manages_iff (h : Deleted e s₀ done s) : s.Manages p ↔ s₀.Manages p ∧ p ∉ done := by
  have hprogs : s.programs = s₀.programs.filter (·.programID ∉ done) :=
    congrArg Catalogue.programs h.catalogue
  unfold Manages
  simp only [hprogs, mem_filter, decide_eq_true_eq]
  constructor
  · rintro ⟨x, ⟨hx, hnot⟩, rfl⟩
    exact ⟨⟨x, hx, rfl⟩, hnot⟩
  · rintro ⟨⟨x, hx, rfl⟩, hnot⟩
    exact ⟨x, ⟨hx, hnot⟩, rfl⟩

/-- The condition on the rows that are left is one on the links of the start. -/
theorem onePerGone_iff (h : Deleted e s₀ done s) (hp : p ∉ done) :
    OnePerGoneDispatcher e s p ↔ Removable e s₀ done p := by
  have hs := h.consistent
  have hlinks : s.linkSet = sweep e done s₀.linkSet := congrArg Catalogue.links h.catalogue
  constructor
  · intro hone n hn m hm hpn hpm hgone hkey hne
    by_contra hno
    -- neither link was swept away, so both have their member rows
    have hleft : ∀ x ∈ s₀.linkSet, x.programID = p → x.key = n.key → x ∈ s.linkSet := by
      intro x hx hpx hk
      rw [hlinks]
      refine ⟨hx, hpx ▸ hp, ?_⟩
      rintro ⟨-, k, hkm, hkd, hkk⟩
      exact hno ⟨k, hkm, hkk.trans hk, hkd⟩
    obtain ⟨l, hl, hln⟩ := hleft n hn hpn rfl
    obtain ⟨l', hl', hlm⟩ := hleft m hm hpm hkey.symm
    obtain ⟨a, ha, hns⟩ := hgone
    obtain ⟨a', ha', hak⟩ : ∃ a', m.attachment = some a' ∧ a'.key = a.key := by
      rw [LinkData.key, LinkData.key, ha] at hkey
      exact Option.map_eq_some_iff.1 hkey.symm
    obtain ⟨x, hx, rfl, rfl⟩ := exists_member_of_attachment hs hl (hln ▸ ha)
    obtain ⟨y, hy, rfl, rfl⟩ := exists_member_of_attachment hs hl' (hlm ▸ ha')
    refine hne ?_
    rw [← hln] at hpn ⊢
    rw [← hlm] at hpm ⊢
    exact hone x.detail.key x ((mem_memberRows hs).2 ⟨hx, rfl⟩) y
      ((mem_memberRows hs).2 ⟨hy, hak⟩) hpn hpm hns
  · intro hclear key x hx y hy hpx hpy hgone
    by_contra hne
    obtain ⟨hxr, rfl⟩ := (mem_memberRows hs).1 hx
    obtain ⟨hyr, hkey⟩ := (mem_memberRows hs).1 hy
    have hn := mem_linkSet hxr.link
    have hm := mem_linkSet hyr.link
    rw [hlinks, linkData_member hs hxr] at hn
    rw [hlinks, linkData_member hs hyr] at hm
    have hk : x.detail.attachment.key = y.detail.attachment.key := hkey.symm
    obtain ⟨k, hk, hkn, hdone⟩ := hclear _ hn.1 _ hm.1 hpx hpy ⟨_, rfl, hgone⟩
      (congrArg some hk) hne
    -- the program of `k` is removed, so its dispatcher is gone with the links on it
    exact hn.2.2 ⟨⟨_, rfl, hgone⟩, k, hk, hdone, hkn⟩

end Deleted

/-! ## One program -/

theorem detachAndUnload_unmanaged (hs : w.store.Consistent) (hno : ¬ w.store.Manages p)
    (hq : Quiet (detachAndUnload e p) w) : ∃ err, detachAndUnload e p w = .err err w := by
  obtain ⟨links, hlist, heq, hq1⟩ := detachAndUnload_listed hq
  have hnil : links = [] := by
    rw [listLinksByProgram_eq_ok hlist, map_eq_nil_iff, filter_eq_nil_iff]
    intro l hl hlp
    obtain ⟨x, hx, hid⟩ := hs.linkProgram l hl
    exact hno ⟨x, hx, hid.trans (of_decide_eq_true hlp)⟩
  subst hnil
  have hq2 := (hq1.bind (logs_detachEach []) (logs_unloadProgram p).mapErr
    (rfl : detachEach e [] w = .ok () w)).2.of_mapErr
  have hget := (hq2.left (logs_getProgram p).mapErr fun record =>
    (logs_listLinksByProgram p).mapErr.bind fun links => logs_unload record links true)
  rcases quiet_query hget.of_mapErr.of_mapErr with ⟨record, hok, -⟩ | ⟨err, -, -, herr⟩
  · obtain ⟨x, hx, hid, -⟩ := getProgram_rows hok
    exact absurd ⟨x, hx, hid⟩ hno
  · have hrun : unloadProgram e p w = _ :=
      bind_of_err (mapErr_eq_err.2 ⟨_, mapErr_eq_err.2 ⟨_, herr, rfl⟩, rfl⟩)
    exact ⟨_, heq.trans (mapErr_eq_err.2 ⟨_, hrun, rfl⟩)⟩

/-- The deletion of `p` removes the programs of the plan, and reports success if `p` is managed. -/
def Follows (e : Env) (s₀ : Store) (plan : List ProgramID) (p : ProgramID)
    (out : Outcome World Err (DeleteBatch × Option Err)) : Prop :=
  ∃ batch err w', out = .ok (batch, err) w' ∧ batch.removedPrograms = plan ∧
    Deleted e s₀ plan w'.store ∧ (s₀.Manages p → err = none)

/-- The deletion of `p` fails and leaves `p` behind, or a dependent of an unmanaged `p`: the plan
asks for a program that cannot be taken down in its turn. -/
def Stuck (e : Env) (s₀ : Store) (expand : Bool) (plan : List ProgramID) (p : ProgramID)
    (out : Outcome World Err (DeleteBatch × Option Err)) : Prop :=
  ¬ InOrder e s₀ plan ∧ ∃ batch err w', out = .ok (batch, some err) w' ∧
    ∃ q, q ∉ batch.removedPrograms ∧
      (s₀.Manages p ∧ q = p ∨ ¬ s₀.Manages p ∧ expand = true ∧ s₀.Owns p q)

/-- From every state that removals in order leave, a deletion of `p` follows the plan of its step or
is stuck in it. -/
def Ends (e : Env) (s₀ : Store) (expand : Bool) (step : List ProgramID → List ProgramID)
    (p : ProgramID) (delete : DeleteBatch → M (DeleteBatch × Option Err)) : Prop :=
  ∀ batch w, Deleted e s₀ batch.removedPrograms w.store → Quiet (delete batch) w →
    Follows e s₀ (step batch.removedPrograms) p (delete batch w) ∨
      Stuck e s₀ expand (step batch.removedPrograms) p (delete batch w)

/-- **The step**: a managed program is deleted if it can be taken down, and nothing happens for
another. -/
theorem deleteTarget_ends (h : Deleted e s₀ batch.removedPrograms w.store)
    (hp : p ∉ batch.removedPrograms) (hq : Quiet (deleteTarget e p batch) w)
    (hplan : plan = if s₀.Manages p then p :: batch.removedPrograms else batch.removedPrograms) :
    Follows e s₀ plan p (deleteTarget e p batch w) ∨
      Stuck e s₀ expand plan p (deleteTarget e p batch w) := by
  have hquiet := quiet_detachAndUnload hq
  by_cases hman : s₀.Manages p
  · rw [if_pos hman] at hplan
    subst hplan
    obtain ⟨x, hx, rfl⟩ := h.manages_iff.2 ⟨hman, hp⟩
    by_cases hone : OnePerGoneDispatcher e w.store x.programID
    · obtain ⟨w', hrun, hs', hsets, hcat⟩ := detachAndUnload_catalogue h.consistent h.recorded hx
        hone hquiet
      obtain ⟨links, -, hdel⟩ := deleteTarget_of_ok batch hrun
      refine .inl ⟨_, none, w', hdel, rfl, ⟨hs', hsets, ?_, ?_, h.inOrder⟩, fun _ => rfl⟩
      · rw [hcat, h.catalogue, Catalogue.delete_delete, singleton_append]
      · exact (h.onePerGone_iff hp).1 hone
    · cases hrun : detachAndUnload e x.programID w with
      | ok u w' => exact absurd (onePerGone_of_detachAndUnload h.consistent hrun) hone
      | err err w' =>
        obtain ⟨links, hdel⟩ := deleteTarget_of_err batch hrun
        exact .inr ⟨fun hord => hone ((h.onePerGone_iff hp).2 hord.1), _, err, w', hdel, _, hp,
          .inl ⟨hman, rfl⟩⟩
  · rw [if_neg hman] at hplan
    subst hplan
    obtain ⟨err, hrun⟩ := detachAndUnload_unmanaged h.consistent
      (fun hm => hman (h.manages_iff.1 hm).1) hquiet
    obtain ⟨links, hdel⟩ := deleteTarget_of_err batch hrun
    exact .inl ⟨_, some err, w, hdel, rfl, h, fun hm => absurd hm hman⟩

/-! ## Nothing but dependents is removed -/

theorem deleteTarget_within (h : deleteTarget e p batch w = .ok (batch', err) w')
    (hq : q ∈ batch'.removedPrograms) : q ∈ batch.removedPrograms ∨ q = p := by
  cases hrun : detachAndUnload e p w with
  | ok u w1 =>
    obtain ⟨links, -, hdel⟩ := deleteTarget_of_ok batch hrun
    cases h.symm.trans hdel
    exact (mem_cons.1 hq).symm
  | err err w1 =>
    obtain ⟨links, hdel⟩ := deleteTarget_of_err batch hrun
    cases h.symm.trans hdel
    exact .inl hq

/-- A deletion of `p` removes programs of `P p` only. -/
def Within (P : ProgramID → ProgramID → Prop)
    (delete : ProgramID → DeleteBatch → M (DeleteBatch × Option Err)) : Prop :=
  ∀ p batch w batch' err w', delete p batch w = .ok (batch', err) w' →
    ∀ q ∈ batch'.removedPrograms, q ∈ batch.removedPrograms ∨ P p q

theorem Within.deleteDependents {P : ProgramID → ProgramID → Prop}
    {delete : ProgramID → DeleteBatch → M (DeleteBatch × Option Err)} (hdel : Within P delete) :
    ∀ (ds : List ProgramID) (batch : DeleteBatch) (w : World),
      deleteDependents delete ds batch w = .ok (batch', err) w' →
      q ∈ batch'.removedPrograms → q ∈ batch.removedPrograms ∨ ∃ d ∈ ds, P d q
  | [], batch, w, h, hq => by
    cases h
    exact .inl hq
  | d :: ds, batch, w, h, hq => by
    unfold Bpfman.deleteDependents at h
    split_ifs at h
    · exact (hdel.deleteDependents ds batch w h hq).imp_right <|
        .imp fun _ => .imp_left (mem_cons_of_mem _)
    · obtain ⟨⟨batch1, err1⟩, w1, h1, h2⟩ := bind_eq_ok.1 h
      have hfirst := hdel d batch w batch1 err1 w1 h1
      cases err1 with
      | none =>
        rcases hdel.deleteDependents ds batch1 w1 h2 hq with hq | ⟨d, hd, hP⟩
        · exact (hfirst q hq).imp id fun hP => ⟨d, mem_cons_self .., hP⟩
        · exact .inr ⟨d, mem_cons_of_mem _ hd, hP⟩
      | some err1 =>
        cases h2
        exact (hfirst q hq).imp id fun hP => ⟨d, mem_cons_self .., hP⟩

theorem within_deleteProgram : ∀ fuel : Nat,
    Within (ReflTransGen (Rank.Edge deps)) (deleteProgram e deps expand fuel)
  | 0, p, batch, w, batch', err, w', h, q, hq => by
    cases h
    exact .inl hq
  | fuel + 1, p, batch, w, batch', err, w', h, q, hq => by
    have htarget : ∀ {w1 : World} {batch1 : DeleteBatch},
        deleteTarget e p batch1 w1 = .ok (batch', err) w' → q ∈ batch1.removedPrograms ∨
          ReflTransGen (Rank.Edge deps) p q := fun h1 =>
      (deleteTarget_within h1 hq).imp id fun heq : q = p => heq ▸ .refl
    unfold deleteProgram at h
    split_ifs at h
    · cases h
      exact .inl hq
    · obtain ⟨⟨batch1, err1⟩, w1, h1, h2⟩ := bind_eq_ok.1 h
      have hdeps := @Within.deleteDependents w1 q batch1 err1 _ _ (within_deleteProgram fuel)
        (deps.of p) batch w h1
      have hback : q ∈ batch1.removedPrograms → q ∈ batch.removedPrograms ∨
          ReflTransGen (Rank.Edge deps) p q := fun hq => (hdeps hq).imp_right <| by
        rintro ⟨d, hd, hpath⟩
        exact .head (mem_of.1 hd) hpath
      cases err1 with
      | none => exact (htarget h2).elim hback .inr
      | some err1 =>
        cases h2
        exact hback hq
    · exact htarget h

theorem deleteEach_within : ∀ (ids : List ProgramID) (batch : DeleteBatch) (w : World)
    {results : List DeleteProgramResult},
    deleteEach e deps expand ids batch w = .ok (results, batch') w' → q ∈ batch'.removedPrograms →
      q ∈ batch.removedPrograms ∨ ∃ p ∈ ids, ReflTransGen (Rank.Edge deps) p q
  | [], batch, w, _, h, hq => by
    cases h
    exact .inl hq
  | p :: ids, batch, w, _, h, hq => by
    unfold deleteEach at h
    split_ifs at h
    · obtain ⟨⟨results1, batch1⟩, w1, h1, h2⟩ := bind_eq_ok.1 h
      cases h2
      exact (deleteEach_within ids batch w h1 hq).imp_right <|
        .imp fun _ => .imp_left (mem_cons_of_mem _)
    · obtain ⟨⟨batch1, err1⟩, w1, h1, h2⟩ := bind_eq_ok.1 h
      obtain ⟨⟨results2, batch2⟩, w2, h3, h4⟩ := bind_eq_ok.1 h2
      cases h4
      rcases deleteEach_within ids batch1 w1 h3 hq with hq | ⟨p, hp, hpath⟩
      · exact (within_deleteProgram _ _ _ _ _ _ _ h1 q hq).imp id fun hpath =>
          ⟨p, mem_cons_self .., hpath⟩
      · exact .inr ⟨p, mem_cons_of_mem _ hp, hpath⟩

/-! ## Dependents -/

/-- The deletions of dependents follow their plan, or one of these is left behind. -/
theorem deleteDependents_ends {delete : ProgramID → DeleteBatch → M (DeleteBatch × Option Err)}
    {step : ProgramID → List ProgramID → List ProgramID}
    (hlogs : ∀ id batch, Keeps Logs (delete id batch)) (hsuf : ∀ d done, done <:+ step d done) :
    ∀ (ds : List ProgramID) (batch : DeleteBatch) (w : World),
      (∀ d ∈ ds, s₀.Manages d ∧ (∀ done, d ∈ done → step d done = done) ∧
        Ends e s₀ expand (step d) d (delete d)) →
      Deleted e s₀ batch.removedPrograms w.store → Quiet (deleteDependents delete ds batch) w →
      (∃ batch' w', deleteDependents delete ds batch w = .ok (batch', none) w' ∧
        batch'.removedPrograms = ds.foldl (fun done d => step d done) batch.removedPrograms ∧
        Deleted e s₀ batch'.removedPrograms w'.store) ∨
      (¬ InOrder e s₀ (ds.foldl (fun done d => step d done) batch.removedPrograms) ∧
        ∃ batch' err w', deleteDependents delete ds batch w = .ok (batch', some err) w' ∧
          ∃ d ∈ ds, d ∉ batch'.removedPrograms)
  | [], batch, w, _, h, _ => .inl ⟨batch, w, rfl, rfl, h⟩
  | d :: ds, batch, w, hds, h, hq => by
    obtain ⟨hman, hskip, hdel⟩ := hds d (mem_cons_self ..)
    have hds' := fun d hd => hds d (mem_cons_of_mem _ hd)
    unfold deleteDependents at hq ⊢
    rw [foldl_cons]
    by_cases hin : d ∈ batch.removedPrograms
    · rw [if_pos hin] at hq ⊢
      rw [hskip _ hin]
      refine (deleteDependents_ends hlogs hsuf ds batch w hds' h hq).imp id ?_
      rintro ⟨hno, batch', err, w', hrun, d', hd', hleft⟩
      exact ⟨hno, batch', err, w', hrun, d', mem_cons_of_mem _ hd', hleft⟩
    · rw [if_neg hin] at hq ⊢
      obtain ⟨hfirst, hnext⟩ := hq.split (hlogs d batch) (by
        rintro ⟨batch, _ | err⟩
        · exact keeps_deleteDependents hlogs ds batch
        · exact .pure _)
      rcases hdel batch w h hfirst with ⟨batch1, err, w1, h1, hplan, hd1, herr⟩ |
        ⟨hno, batch1, err, w1, h1, q, hleft, hq⟩
      · obtain rfl := herr hman
        rw [← hplan] at hd1 ⊢
        have hrest := deleteDependents_ends hlogs hsuf ds batch1 w1 hds' hd1 (hnext h1)
        rw [bind_of_ok h1]
        refine hrest.imp id ?_
        rintro ⟨hno, batch', err, w', hrun, d', hd', hleft⟩
        exact ⟨hno, batch', err, w', hrun, d', mem_cons_of_mem _ hd', hleft⟩
      · obtain rfl : q = d := (hq.resolve_right fun hno => hno.1 hman).2
        refine .inr ⟨fun hord => hno (hord.of_suffix (suffix_foldl hsuf ds _)), batch1, _, w1,
          bind_of_ok h1, q, mem_cons_self .., hleft⟩

section Recursion

variable (hown : ∀ o, ∀ d ∈ deps.of o, s₀.Owns o d) {rank : ProgramID → Nat}
  (hrank : ∀ o, ∀ d ∈ deps.of o, rank d < rank o)
include hown hrank

/-- **The recursion**: the deletion of a program follows the plan of its dependents and its own. The
induction is on the fuel, of which there is more than the rank of the program. -/
theorem deleteProgram_ends :
    ∀ (fuel : Nat) (p : ProgramID), rank p < fuel →
      Ends e s₀ expand (removals s₀ deps expand fuel p) p (deleteProgram e deps expand fuel p)
  | fuel + 1, p, hfuel, batch, w, h, hq => by
    have hrec := fun d hd => deleteProgram_ends fuel d
      ((hrank p d hd).trans_le (Nat.le_of_lt_succ hfuel))
    have hpos : ∀ d ∈ deps.of p, ∃ n, fuel = n + 1 := fun d hd =>
      Nat.exists_eq_add_one.2 ((Nat.zero_le _).trans_lt
        ((hrank p d hd).trans_le (Nat.le_of_lt_succ hfuel)))
    have hlogs := keeps_deleteProgram (e := e) logs_detachAndUnload deps expand fuel
    by_cases hin : p ∈ batch.removedPrograms
    · rw [removals_of_mem hin, deleteProgram, if_pos hin]
      exact .inl ⟨batch, none, w, rfl, rfl, h, fun _ => rfl⟩
    unfold deleteProgram at hq ⊢
    rw [if_neg hin] at hq ⊢
    cases expand with
    | false =>
      rw [if_neg Bool.false_ne_true] at hq ⊢
      exact deleteTarget_ends h hin hq (removals_false hin)
    | true =>
      rw [if_pos rfl] at hq ⊢
      obtain ⟨hfirst, hnext⟩ := hq.split (keeps_deleteDependents hlogs (deps.of p) batch) (by
        rintro ⟨batch, _ | err⟩
        · exact keeps_deleteTarget (e := e) logs_detachAndUnload p batch
        · exact .pure _)
      -- a dependent does not reach the program itself
      have hself : ∀ {batch1 : DeleteBatch} {err : Option Err} {w1 : World},
          deleteDependents (deleteProgram e deps true fuel) (deps.of p) batch w =
            .ok (batch1, err) w1 → p ∉ batch1.removedPrograms := by
        intro batch1 err w1 h1 hmem
        rcases (within_deleteProgram fuel).deleteDependents (deps.of p) batch w h1 hmem with
          hmem | ⟨d, hd, hpath⟩
        · exact hin hmem
        · exact absurd (hrank p d hd) (not_lt.2 (rank_le_of_path hrank hpath))
      rcases deleteDependents_ends hlogs (suffix_removals fuel) (deps.of p) batch w
        (fun d hd => ⟨(hown p d hd).manages, fun done hmem => by
          obtain ⟨n, rfl⟩ := hpos d hd
          exact removals_of_mem hmem, hrec d hd⟩) h hfirst with
        ⟨batch1, w1, h1, hplan, hd1⟩ | ⟨hno, batch1, err, w1, h1, d, hd, hleft⟩
      · rw [bind_of_ok h1]
        refine deleteTarget_ends hd1 (hself h1) (hnext h1) ?_
        rw [hplan, removals_true hin]
      · refine .inr ⟨fun hord => hno (hord.of_suffix ?_), batch1, err, w1, bind_of_ok h1, ?_⟩
        · rw [removals_true hin]
          split_ifs
          · exact suffix_cons ..
          · exact suffix_rfl
        · by_cases hman : s₀.Manages p
          · exact ⟨p, hself h1, .inl ⟨hman, rfl⟩⟩
          · exact ⟨d, hleft, .inr ⟨hman, rfl, hown p d hd⟩⟩

end Recursion

/-! ## The loop -/

/-- No program of the list after an unmanaged one reaches a dependent of that one. -/
def Final (s₀ : Store) (deps : Dependents) (ids : List ProgramID) : Prop :=
  ∀ pre o suf, ids = pre ++ o :: suf → ¬ s₀.Manages o → ∀ d, s₀.Owns o d →
    ∀ q ∈ suf, ¬ ReflTransGen (Rank.Edge deps) q d

theorem Final.tail (h : Final s₀ deps (p :: ids)) : Final s₀ deps ids :=
  fun pre o suf heq => h (p :: pre) o suf (congrArg (p :: ·) heq)

/-- The deletions of a list remove the programs of the plan, and report success for the managed
programs of the list. -/
def FollowsAll (e : Env) (s₀ : Store) (plan ids : List ProgramID)
    (out : Outcome World Err (List DeleteProgramResult × DeleteBatch)) : Prop :=
  ∃ results batch w', out = .ok (results, batch) w' ∧ results.map (·.programID) = ids ∧
    (∀ r ∈ results, s₀.Manages r.programID → r.err = none) ∧ batch.removedPrograms = plan ∧
    Deleted e s₀ plan w'.store

/-- The deletions of a list report a failure for a managed program of it, or leave a dependent of
another behind. -/
def StuckAll (e : Env) (s₀ : Store) (expand : Bool) (plan ids : List ProgramID)
    (out : Outcome World Err (List DeleteProgramResult × DeleteBatch)) : Prop :=
  ¬ InOrder e s₀ plan ∧ ∀ results batch w', out = .ok (results, batch) w' →
    (∃ r ∈ results, s₀.Manages r.programID ∧ r.err ≠ none) ∨
      expand = true ∧ ∃ p ∈ ids, ∃ d, s₀.Owns p d ∧ d ∉ batch.removedPrograms

theorem FollowsAll.cons {m : M (List DeleteProgramResult × DeleteBatch)}
    (h : FollowsAll e s₀ plan ids (m w)) (herr : s₀.Manages p → err = none) :
    FollowsAll e s₀ plan (p :: ids) ((m >>= fun r => pure (⟨p, err⟩ :: r.1, r.2)) w) := by
  obtain ⟨results, batch, w', hrun, hids, hok, hplan, hd⟩ := h
  refine ⟨_, batch, w', bind_of_ok hrun, congrArg (p :: ·) hids, ?_, hplan, hd⟩
  intro r hr
  rcases mem_cons.1 hr with rfl | hr
  · exact herr
  · exact hok r hr

theorem StuckAll.cons {m : M (List DeleteProgramResult × DeleteBatch)}
    (h : StuckAll e s₀ expand plan ids (m w)) :
    StuckAll e s₀ expand plan (p :: ids) ((m >>= fun r => pure (⟨p, err⟩ :: r.1, r.2)) w) := by
  refine ⟨h.1, fun results batch w' hrun => ?_⟩
  obtain ⟨⟨results1, batch1⟩, w1, h1, h2⟩ := bind_eq_ok.1 hrun
  cases h2
  rcases h.2 results1 _ _ h1 with ⟨r, hr, hfail⟩ | ⟨hx, p', hp, hleft⟩
  · exact .inl ⟨r, mem_cons_of_mem _ hr, hfail⟩
  · exact .inr ⟨hx, p', mem_cons_of_mem _ hp, hleft⟩

/-- **The run**: the programs of the list are deleted one by one, given the deletion of each. -/
theorem deleteEach_ends {step : ProgramID → List ProgramID → List ProgramID}
    (hsuf : ∀ p done, done <:+ step p done) (hskip : ∀ p done, p ∈ done → step p done = done)
    (hdel : ∀ p, Ends e s₀ expand (step p) p (deleteProgram e deps expand (deps.length + 1) p)) :
    ∀ (ids : List ProgramID) (batch : DeleteBatch) (w : World), Final s₀ deps ids →
      Deleted e s₀ batch.removedPrograms w.store → Quiet (deleteEach e deps expand ids batch) w →
      FollowsAll e s₀ (ids.foldl (fun done p => step p done) batch.removedPrograms) ids
          (deleteEach e deps expand ids batch w) ∨
        StuckAll e s₀ expand (ids.foldl (fun done p => step p done) batch.removedPrograms) ids
          (deleteEach e deps expand ids batch w)
  | [], batch, w, _, h, _ => .inl ⟨[], batch, w, rfl, rfl, nofun, rfl, h⟩
  | p :: ids, batch, w, hfin, h, hq => by
    have hlogs := fun batch => keeps_deleteEach (e := e) logs_detachAndUnload deps expand ids batch
    unfold deleteEach at hq ⊢
    rw [foldl_cons]
    by_cases hin : p ∈ batch.removedPrograms
    · rw [if_pos hin] at hq ⊢
      rw [hskip p _ hin]
      exact (deleteEach_ends hsuf hskip hdel ids batch w hfin.tail h
        (hq.left (hlogs batch) fun _ => .pure _)).imp (.cons · fun _ => rfl) .cons
    · rw [if_neg hin] at hq ⊢
      have hstep := keeps_deleteProgram (e := e) logs_detachAndUnload deps expand
        (deps.length + 1) p batch
      obtain ⟨hfirst, hnext⟩ := hq.split hstep fun r => (hlogs r.1).bind fun _ => .pure _
      rcases hdel p batch w h hfirst with
        ⟨batch1, err, w1, h1, hplan, hd1, herr⟩ | ⟨hno, batch1, err, w1, h1, d, hleft, hd⟩
      · rw [bind_of_ok h1]
        rw [← hplan] at hd1 ⊢
        exact (deleteEach_ends hsuf hskip hdel ids batch1 w1 hfin.tail hd1
          ((hnext h1).left (hlogs batch1) fun _ => .pure _)).imp (.cons · herr) .cons
      · rw [bind_of_ok h1]
        refine .inr ⟨fun hord => hno (hord.of_suffix (suffix_foldl hsuf ids _)), ?_⟩
        intro results batch' w' hrun
        obtain ⟨⟨results1, batch2⟩, w2, h2, h3⟩ := bind_eq_ok.1 hrun
        cases h3
        rcases hd with ⟨hman, -⟩ | ⟨hman, hx, howns⟩
        · exact .inl ⟨_, mem_cons_self .., hman, Option.some_ne_none _⟩
        · -- the dependent that is left behind is out of reach of the rest of the list
          refine .inr ⟨hx, p, mem_cons_self .., d, howns, fun hmem => ?_⟩
          rcases deleteEach_within ids batch1 w1 h2 hmem with hmem | ⟨q, hq, hpath⟩
          · exact hleft hmem
          · exact hfin [] p ids rfl hman d howns q hq hpath

/-! ## The whole call -/

theorem programDependentsByOwner_of_quiet (hq : Quiet (programDependentsByOwner e true) w) :
    programDependentsByOwner e true w = .ok w.store.dependents w := by
  have hlogs : Keeps Logs (listPrograms e) := keeps_listPrograms logs_query
  have hlist := (Quiet.left hq hlogs.mapErr fun _ => .pure _).of_mapErr.of_mapErr
  -- the three reads of the snapshot succeed
  obtain ⟨hq1, hnext1⟩ := hlist.split logs_query fun _ => logs_query.bind fun _ =>
    logs_query.bind fun _ => .pure _
  obtain ⟨records, hrec, h1⟩ := query_of_quiet hq1 nofun
  cases hrec
  obtain ⟨hq2, hnext2⟩ := (hnext1 h1).split logs_query fun _ => logs_query.bind fun _ => .pure _
  obtain ⟨links, -, h2⟩ := query_of_quiet hq2 fun _ => isNotFound_populateLinkDetails
  obtain ⟨rows, -, h3⟩ := query_of_quiet ((hnext2 h2).left logs_query fun _ => .pure _) nofun
  have hread : listPrograms e w = .ok (w.store.listPrograms.insertionSort
      fun a b => a.programID ≤ b.programID) w :=
    mapErr_eq_ok.2 ((bind_of_ok h1).trans ((bind_of_ok h2).trans (bind_of_ok h3)))
  exact bind_of_ok (mapErr_eq_ok.2 hread)

theorem knownDependents_read (hq : Quiet (programDependentsByOwner e
      (opts.recursive || opts.all || decide (ids.length > 1))) w) :
    programDependentsByOwner e (opts.recursive || opts.all || decide (ids.length > 1)) w =
      .ok (w.store.knownDependents opts ids) w := by
  unfold knownDependents
  by_cases hknown : (opts.recursive || opts.all || decide (ids.length > 1)) = true
  · rw [hknown] at hq ⊢
    exact programDependentsByOwner_of_quiet hq
  · rw [if_neg hknown, Bool.not_eq_true _ |>.mp hknown]
    rfl

/-- What an unmanaged program drags along is not reached later in the order of a call: a program has
one owner, and nobody owns an unmanaged one. -/
theorem final_order (hs : s.Consistent) (hsets : s.SetsRecorded)
    (hacyclic : ∀ p, ¬ TransGen s.Owns p p) :
    Final s (s.knownDependents opts ids)
      (orderProgramDeletes ids (s.knownDependents opts ids)) := by
  obtain ⟨hmem, hfirst, honce⟩ := order_spec opts ids hsets hacyclic
  intro pre o suf heq hno d howns q hq hpath
  by_cases hd : d ∈ (s.knownDependents opts ids).of o
  · have hnodup := honce fun hnil => by
      rw [hnil] at hd
      cases hd
    rw [heq, nodup_append, nodup_cons] at hnodup
    obtain ⟨-, ⟨ho, -⟩, hdisj⟩ := hnodup
    rcases ReflTransGen.cases_tail hpath with rfl | ⟨o', hpath', hlast⟩
    · have hids : d ∈ ids := (hmem d).1 (heq ▸ mem_append_right _ (mem_cons_of_mem _ hq))
      exact hdisj d (hfirst pre o suf heq d hd hids) d (mem_cons_of_mem _ hq) rfl
    · obtain ⟨x, hx, hxd, rfl, -⟩ := owns_of_known opts ids hsets (mem_of.2 hlast)
      obtain ⟨y, hy, hyd, rfl, -⟩ := howns
      obtain rfl := Table.eq_of_key hs.programIDs hx hy (hxd.trans hyd.symm)
      rcases ReflTransGen.cases_tail hpath' with heq | ⟨o', -, hlast⟩
      · exact ho (heq ▸ hq)
      · exact hno (owns_of_known opts ids hsets (mem_of.2 hlast)).manages
  · -- a list of one program
    have hlen : ids.length ≤ 1 := by
      by_contra hmany
      refine hd ?_
      rw [knownDependents, decide_eq_true (not_le.1 hmany), Bool.or_true, if_pos rfl, mem_of]
      exact (mem_dependents hsets).2 howns
    rw [orderProgramDeletes, decide_eq_true hlen, Bool.true_or, if_pos rfl] at heq
    rw [heq, length_append, length_cons] at hlen
    obtain rfl : suf = [] := length_eq_zero_iff.1 (by omega)
    cases hq

/-- **A call follows its removal order, or is stuck.** -/
theorem deleteProgramsBatch_ends (hs : w.store.Consistent) (hsets : w.store.SetsRecorded)
    (hacyclic : ∀ p, ¬ TransGen w.store.Owns p p) (hq : Quiet (deleteProgramsBatch e ids opts) w) :
    let order := orderProgramDeletes ids (w.store.knownDependents opts ids)
    FollowsAll e w.store (removalOrder w.store opts ids) order (deleteProgramsBatch e ids opts w) ∨
      StuckAll e w.store (opts.recursive || opts.all) (removalOrder w.store opts ids) order
        (deleteProgramsBatch e ids opts w) := by
  have hlogs : Keeps Logs (programDependentsByOwner e
      (opts.recursive || opts.all || decide (ids.length > 1))) :=
    .ite ((keeps_listPrograms logs_query).mapErr.bind fun _ => .pure _) (.pure _)
  obtain ⟨hq1, hnext⟩ := Quiet.attempt_bind hq hlogs fun r => by
    cases r with
    | error err => exact .pure _
    | ok deps => exact keeps_deleteEach logs_detachAndUnload deps _ _ {}
  obtain ⟨hq2, hrun⟩ := hnext _ w (knownDependents_read hq1)
  have hown := fun o d => owns_of_known opts ids (o := o) (d := d) hsets
  obtain ⟨rank, hrank, hbound⟩ := exists_rank_of_acyclic hown hacyclic
  rw [show deleteProgramsBatch e ids opts w = _ from hrun]
  exact deleteEach_ends (suffix_removals _) (fun _ _ => removals_of_mem)
    (fun p => deleteProgram_ends hown hrank _ p (Nat.lt_succ_of_le (hbound p)))
    _ {} w (final_order hs hsets hacyclic) (Deleted.start hs hsets) hq2

/-- What a call leaves behind: it reports success for every managed program of the list, removed
what was requested, each program once and after its dependents. -/
structure DeletesExactly (e : Env) (opts : DeleteProgramsOpts) (ids : List ProgramID) (s : Store)
    (results : List DeleteProgramResult) (batch : DeleteBatch) (s' : Store) : Prop where
  reported : ∀ i, i ∈ ids ↔ ∃ r ∈ results, r.programID = i
  success : ∀ r ∈ results, s.Manages r.programID → r.err = none
  removed : ∀ q, q ∈ batch.removedPrograms ↔ Requested s opts ids q
  once : batch.removedPrograms.Nodup
  /-- The batch lists the latest removal first. -/
  dependentsFirst : ∀ pre o suf, batch.removedPrograms = pre ++ o :: suf →
    ∀ d, s.Owns o d → Requested s opts ids d → d ∈ suf
  catalogue : s'.catalogue = s.catalogue.delete e batch.removedPrograms

/-- One order of the list. -/
theorem deletesExactly_iff (hs : w.store.Consistent) (hsets : w.store.SetsRecorded)
    (hacyclic : ∀ p, ¬ TransGen w.store.Owns p p) (hq : Quiet (deleteProgramsBatch e ids opts) w) :
    (∃ results batch w', deleteProgramsBatch e ids opts w = .ok (results, batch) w' ∧
      DeletesExactly e opts ids w.store results batch w'.store) ↔
    InOrder e w.store (removalOrder w.store opts ids) := by
  obtain ⟨hmem, -, -⟩ := order_spec opts ids hsets hacyclic
  obtain ⟨hplan, hreq⟩ := removalOrder_spec opts ids hsets hacyclic
  rcases deleteProgramsBatch_ends hs hsets hacyclic hq with
    ⟨results, batch, w', hrun, hids, hok, hrem, hdel⟩ | ⟨hno, hstuck⟩
  · refine iff_of_true ⟨results, batch, w', hrun, ?_, hok, ?_, ?_, ?_, ?_⟩ hdel.inOrder
    · intro i
      rw [← hmem, ← hids, mem_map]
    · rw [hrem]
      exact hreq
    · rw [hrem]
      exact hplan.once
    · intro pre o suf heq d hown hd
      refine hplan.first pre o suf (hrem ▸ heq) d ⟨hown, ?_⟩
      by_cases hx : (opts.recursive || opts.all) = true
      · exact .inl hx
      · exact .inr (hd.2.resolve_right fun h => hx h.1)
    · rw [hrem]
      exact hdel.catalogue
  · refine iff_of_false ?_ hno
    rintro ⟨results, batch, w', hrun, h⟩
    rcases hstuck results batch w' hrun with ⟨r, hr, hman, hfail⟩ | ⟨hx, p, hp, d, hown, hleft⟩
    · exact hfail (h.success r hr hman)
    · exact hleft ((h.removed d).2 ⟨hown.manages, .inr ⟨hx, p, (hmem p).1 hp, .single hown⟩⟩)

theorem DeletesExactly.perm {ids' : List ProgramID} {results : List DeleteProgramResult}
    {s' : Store} (h : DeletesExactly e opts ids s results batch s') (hperm : ids.Perm ids') :
    DeletesExactly e opts ids' s results batch s' := by
  have hreq : ∀ q, Requested s opts ids q ↔ Requested s opts ids' q := fun q => by
    simp only [Requested, hperm.mem_iff]
  exact ⟨fun i => hperm.mem_iff.symm.trans (h.reported i), h.success,
    fun q => (h.removed q).trans (hreq q), h.once,
    fun pre o suf heq d hown hd => h.dependentsFirst pre o suf heq d hown ((hreq d).2 hd),
    h.catalogue⟩

/-- **Deleting programs when no primitive fails**: in every order of the list the call reports
success for every managed program, removes what was requested and ends in one catalogue, exactly if
in every order each program that is to be removed can be taken down in its turn. -/
theorem deletePrograms_exact_iff (hs : w.store.Consistent) (hsets : w.store.SetsRecorded)
    (hacyclic : ∀ p, ¬ TransGen w.store.Owns p p)
    (hq : ∀ ids', ids'.Perm ids → Quiet (deleteProgramsBatch e ids' opts) w) :
    (∃ final : Catalogue, ∀ ids', ids'.Perm ids → ∃ results batch w',
      deleteProgramsBatch e ids' opts w = .ok (results, batch) w' ∧
        DeletesExactly e opts ids w.store results batch w'.store ∧ w'.store.catalogue = final) ↔
    ∀ ids', ids'.Perm ids → InOrder e w.store (removalOrder w.store opts ids') := by
  constructor
  · rintro ⟨final, hfinal⟩ ids' hperm
    obtain ⟨results, batch, w', hrun, h, -⟩ := hfinal ids' hperm
    exact (deletesExactly_iff hs hsets hacyclic (hq ids' hperm)).1
      ⟨results, batch, w', hrun, h.perm hperm.symm⟩
  · intro hord
    refine ⟨w.store.catalogue.delete e (removalOrder w.store opts ids), fun ids' hperm => ?_⟩
    obtain ⟨results, batch, w', hrun, h⟩ :=
      (deletesExactly_iff hs hsets hacyclic (hq ids' hperm)).2 (hord ids' hperm)
    have hsame := fun q => ((h.perm hperm).removed q).trans
      ((removalOrder_spec opts ids hsets hacyclic).2 q).symm
    exact ⟨results, batch, w', hrun, h.perm hperm,
      h.catalogue.trans (Catalogue.delete_congr hsame _)⟩

namespace Sample

theorem joined_consistent : joined.store.Consistent := by
  have hlinks : joined.store.links = [] := by decide +kernel
  have hdetails : joined.store.details = [] := by decide +kernel
  have hdispatchers : joined.store.dispatchers = [] := by decide +kernel
  refine ⟨by decide +kernel, ?_, ?_, ?_, ?_, ?_, ?_, ?_, ?_, ?_, ?_, ?_, ?_⟩
  all_goals simp [hlinks, hdetails, hdispatchers]

theorem joined_owns (h : joined.store.Owns o d) : o = 100 ∧ d = 200 := by
  have hall : ∀ x ∈ joined.store.programs, x.mapSetID ≠ x.programID →
      x.mapSetID = 100 ∧ x.programID = 200 := by decide +kernel
  obtain ⟨x, hx, rfl, rfl, hne⟩ := h
  exact hall x hx hne

/-- Two links of program 2 and one of program 1 on one interface of another namespace. -/
@[irreducible] def crowded : World :=
  attached [.xdp ⟨2, "eth0", "/run/netns/a", 50, [], []⟩,
    .xdp ⟨2, "eth0", "/run/netns/a", 50, [], []⟩, .xdp ⟨1, "eth0", "/run/netns/a", 50, [], []⟩]

theorem crowded_consistent : crowded.store.Consistent := by
  unfold crowded
  exact (inv_run fresh.inv (run_attachAll (by decide +kernel))).store

end Sample

open Sample

/-- Program 200 joined the maps of 100: both go, in either order of the list. -/
theorem deletePrograms_exact_iff_sample :
    let e := env 9 []
    let w := joined
    ∃ final : Catalogue, ∀ ids', ids'.Perm [100, 200] → ∃ results batch w',
      deleteProgramsBatch e ids' {} w = .ok (results, batch) w' ∧
        DeletesExactly e {} [100, 200] w.store results batch w'.store ∧
        w'.store.catalogue = final := by
  have hsets := setsRecorded_of_run setsInv_empty run_joined
  refine (deletePrograms_exact_iff joined_consistent hsets ?_ ?_).2 ?_
  · intro p hcycle
    obtain ⟨d, hfirst, -⟩ := TransGen.head'_iff.1 hcycle
    obtain ⟨o, -, hlast⟩ := TransGen.tail'_iff.1 hcycle
    have heq := (joined_owns hfirst).1.symm.trans (joined_owns hlast).2
    cases heq
  · have hall : ∀ ids' ∈ [100, 200].permutations',
        Quiet (deleteProgramsBatch (env 9 []) ids' {}) joined := by decide +kernel
    exact fun ids' hperm => hall ids' (mem_permutations'.2 hperm)
  · exact fun ids' _ => inOrder_of_live not_gone _

/-- Once that namespace is gone no primitive fails. Deleting program 1 first takes the dispatcher
down with all its links, and both deletions succeed. Deleting program 2 first takes it down with its
first link, and the second one is not found: the deletion of the managed program 2 fails. -/
theorem delete_order_matters :
    let e := envGone
    let w := crowded
    w.store.Consistent ∧ w.store.Manages 1 ∧ w.store.Manages 2 ∧
      Quiet (deletePrograms e [1, 2] {}) w ∧ Quiet (deletePrograms e [2, 1] {}) w ∧
      ((deletePrograms e [1, 2] {} w).value?.map fun results =>
        results.map fun r => (r.programID, r.err.isNone)) = some [(1, true), (2, true)] ∧
      ((deletePrograms e [2, 1] {} w).value?.map fun results =>
        results.map fun r => (r.programID, r.err.isNone)) = some [(2, false), (1, true)] ∧
      ¬ (deletePrograms e [1, 2] {} w).state.store.Manages 2 ∧
      (deletePrograms e [2, 1] {} w).state.store.Manages 2 := by
  exact ⟨crowded_consistent, by decide +kernel⟩

end Bpfman
