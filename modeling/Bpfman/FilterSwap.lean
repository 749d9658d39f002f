import Bpfman.Survivors
import Mathlib.Data.Finset.Card

/-!
# The TC filter after a rebuild

A TC rebuild adds the filter of the new dispatcher before it removes the old one, and it returns
success whether or not the removal worked. So an attach point that had one filter has one filter
after a successful rebuild exactly when the removal of the old filter did not fail
(`oneFilter_iff`); if it failed, the old dispatcher keeps running beside the new one.
-/

namespace Bpfman

open Fallible Store

variable {e : Env} {w w' : World} {key : Key} {r : Nat}

/-- The filters the kernel holds for an attach point. -/
def World.filtersAt (w : World) (key : Key) : Finset Filter := w.filters.filter (·.key = key)

theorem mem_filtersAt {f : Filter} : f ∈ w.filtersAt key ↔ f ∈ w.filters ∧ f.key = key :=
  Finset.mem_filter

/-- The dispatcher row records the filter. -/
def Records (row : DispatcherRow) (f : Filter) : Prop :=
  row.priority = some f.priority ∧ row.filterHandle = some f.handle

/-- The kernel holds exactly one filter for the attach point, the one the store records. -/
def OneFilter (w : World) (key : Key) : Prop :=
  ∃ row ∈ w.store.dispatchers, row.key = key ∧ ∃ f ∈ w.filters, w.filtersAt key = {f} ∧
    Records row f

instance (row : DispatcherRow) (f : Filter) : Decidable (Records row f) := by
  unfold Records
  infer_instance

instance (w : World) (key : Key) : Decidable (OneFilter w key) := by
  unfold OneFilter
  infer_instance

/-! ## The filters after a swap -/

/-- The filters after a TC swap that had an old filter to remove. -/
theorem tcSwap_filters {netns text : String} {o p x : Nat} {f : ProgramID → ProgramID → ProgramID}
    {id : ProgramID} {rt : DispatcherRuntime} (hx : x ≠ 0)
    (h : (tcSwap e key r netns text (some (o, p, x)) f).swap id w = .ok rt w') :
    ∃ new : Filter, new.key = key ∧ rt.filterPriority = some new.priority ∧
      rt.filterHandle = some new.handle ∧
      (∀ y ∈ w.filtersAt key, y.priority = new.priority → y.handle ≠ new.handle) ∧
      ((e.fails (.delFilter key p x) = false ∧
          w'.filtersAt key = (insert new (w.filtersAt key)).filter
            fun y => ¬ (y.priority = p ∧ y.handle = x)) ∨
        (e.fails (.delFilter key p x) = true ∧
          w'.filtersAt key = insert new (w.filtersAt key))) := by
  obtain ⟨disp, hnet, -, hno, -, rfl, hdrop⟩ := tcSwap_eq_ok h
  have hins : (w.addFilter (newFilter e key r disp)).filtersAt key =
      insert (newFilter e key r disp) (w.filtersAt key) :=
    (Finset.filter_insert _ _ _).trans (if_pos rfl)
  refine ⟨newFilter e key r disp, rfl, rfl, rfl, fun y hy hp => ?_, ?_⟩
  · obtain ⟨hy, hk⟩ := mem_filtersAt.1 hy
    exact hno y hy hk hp
  · rcases dropOldFilter_eq_ok hnet hdrop with ⟨-, hz⟩ | ⟨o', p', x', hold, -, hrest⟩
    · exact absurd (hz o p x rfl) hx
    · simp only [Option.some.injEq, Prod.mk.injEq] at hold
      obtain ⟨-, rfl, rfl⟩ := hold
      rcases hrest with ⟨hf, rfl⟩ | ⟨hf, rfl⟩
      · refine .inl ⟨hf, ?_⟩
        rw [← hins]
        ext y
        simp only [World.filtersAt, World.deleteFilter, Finset.mem_filter]
        constructor
        · rintro ⟨⟨hy, hn⟩, hk⟩
          exact ⟨⟨hy, hk⟩, fun hpx => hn ⟨hk, hpx⟩⟩
        · rintro ⟨⟨hy, hk⟩, hn⟩
          exact ⟨⟨hy, fun hkpx => hn hkpx.2⟩, hk⟩
      · exact .inr ⟨hf, hins⟩

/-- A swap from one filter to another leaves one filter exactly when the old one was removed. -/
theorem filtersAt_singleton_iff {F F' : Finset Filter} {old new : Filter} {fails : Bool}
    (hF : F = {old}) (hno : ∀ y ∈ F, y.priority = new.priority → y.handle ≠ new.handle)
    (h : (fails = false ∧ F' = (insert new F).filter
        fun y => ¬ (y.priority = old.priority ∧ y.handle = old.handle)) ∨
      (fails = true ∧ F' = insert new F)) :
    (∃ f, F' = {f} ∧ f.priority = new.priority ∧ f.handle = new.handle) ↔ fails = false := by
  subst hF
  have hne : ¬ (new.priority = old.priority ∧ new.handle = old.handle) := fun hn =>
    hno old (Finset.mem_singleton_self _) hn.1.symm hn.2.symm
  rcases h with ⟨rfl, rfl⟩ | ⟨rfl, rfl⟩
  · refine iff_of_true ⟨new, ?_, rfl, rfl⟩ rfl
    ext y
    simp only [Finset.mem_filter, Finset.mem_insert, Finset.mem_singleton]
    constructor
    · rintro ⟨rfl | rfl, hn⟩
      · rfl
      · exact absurd ⟨rfl, rfl⟩ hn
    · rintro rfl
      exact ⟨.inl rfl, hne⟩
  · refine iff_of_false ?_ (by simp)
    rintro ⟨f, hf, -⟩
    have h1 : new = f := Finset.mem_singleton.1 (hf ▸ Finset.mem_insert_self _ _)
    have h2 : old = f := Finset.mem_singleton.1
      (hf ▸ Finset.mem_insert_of_mem (Finset.mem_singleton_self _))
    rw [← h2] at h1
    exact hne ⟨congrArg Filter.priority h1, congrArg Filter.handle h1⟩

/-! ## Rebuilds of a TC dispatcher -/

theorem Recorded.row {p : RebuildPlan} {rt : DispatcherRuntime} {s s' : Store}
    (h : Recorded e p rt s s') : dispatcherRow (p.spec e rt) ∈ s'.dispatchers := by
  obtain ⟨completed, hrep⟩ := h
  obtain ⟨-, -, -, -, -, hdisp, -⟩ := replace_spec hrep
  exact hdisp ▸ List.mem_append_right _ (List.mem_singleton_self _)

/-- A successful TC attach to a dispatcher that exists, or a successful detach of a member that
leaves others behind. -/
inductive TCRebuild (e : Env) (key : Key) (w w' : World) : Prop
  | attach {spec : AttachSpec} {link : LinkRecord} (hp : attachPoint e spec = some key)
      (h : attach e spec w = .ok link w')
  | detach {m other : MemberRow} (hm : m ∈ w.store.memberRows key)
      (ho : other ∈ w.store.memberRows key) (hne : other.link.id ≠ m.link.id)
      (hns : ∀ row ∈ w.store.dispatchers, row.key = key → netnsGone e row.netns = false)
      (h : detach e m.link.id w = .ok () w')

theorem TCRebuild.swap (hi : Inv w) (htc : isTCDispatcherType key.type = true)
    {row : DispatcherRow} (hrow : row ∈ w.store.dispatchers) (hk : row.key = key)
    (h : TCRebuild e key w w') :
    ∃ r netns text f id o w1 w2 rt row', row' ∈ w'.store.dispatchers ∧ row'.key = key ∧
      row'.priority = rt.filterPriority ∧ row'.filterHandle = rt.filterHandle ∧
      w1.filters = w.filters ∧ w'.filters = w2.filters ∧
      (tcSwap e key r netns text (some (o, oldFilter (dispatcherRuntime row))) f).swap id w1 =
        .ok rt w2 := by
  have hrt : ∀ {snap : DispatcherSnapshot},
      w.store.getDispatcherSnapshot e.rowOrder key = .ok snap →
      snap.runtime = dispatcherRuntime row := by
    intro snap hget
    obtain ⟨r, hr, hrk, -, -, hrt, -⟩ := getDispatcherSnapshot_eq_ok hget
    rw [hrt, Table.eq_of_key hi.store.dispatcherKeys hr hrow (hrk.trans hk.symm)]
  cases h with
  | @attach spec link hp h =>
    obtain ⟨k, snap, a, cfg, ps, rt, hrun⟩ := attachRun_of_ok hi h
    obtain rfl : k = key := Option.some.inj (hrun.point.symm.trans hp)
    obtain ⟨s, rfl, hget⟩ : ∃ s, snap = some s ∧
        w.store.getDispatcherSnapshot e.rowOrder k = .ok s :=
      hrun.snapshot.resolve_right fun hno => hno.2 row hrow hk
    obtain ⟨w2, hsw, hfil⟩ := hrun.rebuilt.swap
    cases spec with
    | xdp sp =>
      have : k.type = .xdp := attachPoint_type hp
      simp [this, isTCDispatcherType] at htc
    | tc d sp =>
      rw [← hrt hget]
      exact ⟨_, sp.netns, "create TC filter", fun loaded _ => loaded, _, s.revision,
        RebuildPlan.filled e _ w ps, w2, rt, _, hrun.rebuilt.store.row, rfl, rfl, rfl, rfl,
        hfil, hsw⟩
  | @detach m other hm ho hne hns h =>
    have hmr := (mem_memberRows hi.store).1 hm
    cases detachRun_of_ok hi h with
    | plain l hl hid hkind _ _ _ _ =>
      obtain ⟨l', hl', hld, hkd, -⟩ := hi.store.detailLink _ hmr.1.detail
      have : l = l' := Table.eq_of_key hi.store.linkIDs hl hl'
        (hid.trans (hmr.1.link_id.trans hld.symm))
      exact absurd (hkd ▸ linkKind_dispatcher _) (this ▸ hkind)
    | removed m' snap hm' hid hsnap hrem _ _ =>
      obtain rfl : m' = m := eq_of_link_id hi.store ((mem_memberRows hi.store).1 hm').1 hmr.1 hid
      rw [hmr.2] at hsnap
      have hgone : netnsGone e snap.runtime.netnsPath = false := by
        rw [hrt hsnap]
        exact hns row hrow hk
      rw [removesDispatcher_eq_false hsnap ho hne hgone] at hrem
      cases hrem
    | rebuilt m' snap cfg ps rt w1 hm' hid hsnap hrem hstore hfilters hprog config hreb frame =>
      obtain rfl : m' = m := eq_of_link_id hi.store ((mem_memberRows hi.store).1 hm').1 hmr.1 hid
      rw [hmr.2] at hsnap hreb
      obtain ⟨-, -, -, hsk, -⟩ := getDispatcherSnapshot_eq_ok hsnap
      obtain ⟨w2, hsw, hfil⟩ := hreb.swap
      have hnew := hreb.store.row
      have hkind : detachKind e key = tcDetach e := by
        refine if_neg fun hx => ?_
        simp [hx, isTCDispatcherType] at htc
      rw [hkind] at hsw hnew
      obtain rfl := hsk
      rw [← hrt hsnap]
      exact ⟨_, snap.runtime.netnsPath, "create TC filter for detach rebuild",
        fun _ created => created, _, snap.revision, RebuildPlan.filled e _ w1 ps, w2, rt, _, hnew,
        rfl, rfl, rfl, hfilters, hfil, hsw⟩

/-- **A successful TC rebuild leaves one filter, the recorded one, exactly when** the call that
deletes the old filter does not fail. -/
theorem oneFilter_iff (hi : Inv w) (htc : isTCDispatcherType key.type = true)
    {row : DispatcherRow} (hrow : row ∈ w.store.dispatchers) (hk : row.key = key)
    (hone : OneFilter w key) (h : TCRebuild e key w w') :
    OneFilter w' key ↔
      e.fails (.delFilter key (row.priority.getD 0) (row.filterHandle.getD 0)) = false := by
  -- the one filter is the one the outer attachment of the row runs
  obtain ⟨P, cfg, hP⟩ := (hi.dispatchers row hrow).program
  obtain ⟨-, hruns⟩ := hP.runs
  rw [hk, if_pos htc] at hruns
  obtain ⟨hprio, x, hx, hhandle, hmem⟩ := hruns
  obtain ⟨row1, hrow1, hk1, old, -, hF, hrec⟩ := hone
  obtain rfl := Table.eq_of_key hi.store.dispatcherKeys hrow1 hrow (hk1.trans hk.symm)
  have hold : oldFilter (dispatcherRuntime row1) = (old.priority, old.handle) := by
    simp [oldFilter, dispatcherRuntime, hrec.1, hrec.2]
  have hne : old.handle ≠ 0 := by
    have : some old.handle = some x := hrec.2.symm.trans hhandle
    rwa [Option.some.inj this]
  obtain ⟨r, netns, text, f, id, o, w1, w2, rt, row', hrow', hk', hp', hh', hfil1, hfil', hsw⟩ :=
    h.swap hi htc hrow hk
  rw [hold] at hsw
  obtain ⟨new, hnk, hnp, hnh, hno, hres⟩ := tcSwap_filters hne hsw
  have hat1 : w1.filtersAt key = w.filtersAt key := by unfold World.filtersAt; rw [hfil1]
  have hat' : w'.filtersAt key = w2.filtersAt key := by unfold World.filtersAt; rw [hfil']
  rw [hat1] at hno hres
  rw [hrec.1, hrec.2, Option.getD_some, Option.getD_some,
    ← filtersAt_singleton_iff hF hno hres, ← hat']
  have hi' : Inv w' := by
    cases h with
    | attach _ h => exact inv_attach hi h
    | detach _ _ _ _ h => exact inv_detach hi h
  constructor
  · rintro ⟨row2, hrow2, hk2, g, -, hg, hgr⟩
    obtain rfl := Table.eq_of_key hi'.store.dispatcherKeys hrow2 hrow' (hk2.trans hk'.symm)
    refine ⟨g, hg, ?_, ?_⟩
    · exact Option.some.inj (hgr.1.symm.trans (hp'.trans hnp))
    · exact Option.some.inj (hgr.2.symm.trans (hh'.trans hnh))
  · rintro ⟨g, hg, hgp, hgh⟩
    have hgm : g ∈ w'.filtersAt key := hg ▸ Finset.mem_singleton_self _
    exact ⟨row', hrow', hk', g, (mem_filtersAt.1 hgm).1, hg, by rw [hp', hnp, hgp],
      by rw [hh', hnh, hgh]⟩

open Sample

def Sample.tcRow : DispatcherRow :=
  ⟨tcKey, 1, 1101, none, some tcDispatcherPriority, some 1, ""⟩

/-- A second attach to a TC dispatcher. -/
theorem oneFilter_iff_sample :
    let w := attached [tc 4]
    let w' := (attach (env 2 []) (tc 5) w).state
    OneFilter w tcKey ∧ (OneFilter w' tcKey ↔
      (env 2 []).fails (.delFilter tcKey (tcRow.priority.getD 0)
        (tcRow.filterHandle.getD 0)) = false) := by
  intro w w'
  obtain ⟨link, hok⟩ := Outcome.eq_ok_of_isOk
    (show (attach (env 2 []) (tc 5) w).isOk = true by decide +kernel)
  have hone : OneFilter w tcKey := by decide +kernel
  refine ⟨hone, oneFilter_iff (inv_run fresh.inv (run_attachAll ?_)) rfl ?_ rfl hone
    (.attach (by decide) hok)⟩
  · decide +kernel
  · decide +kernel

/-- If the old filter cannot be deleted, the attach succeeds and two filters run. -/
theorem attach_leaves_two_filters :
    let w := attached [tc 4]
    let o := attach (env 2 [.delFilter tcKey tcDispatcherPriority 1])
      (tc 5) w
    OneFilter w tcKey ∧ o.isOk = true ∧ ¬ OneFilter o.state tcKey ∧
      (o.state.filtersAt tcKey).card = 2 := by
  decide +kernel

end Bpfman
