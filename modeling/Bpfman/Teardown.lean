import Bpfman.Release
import Bpfman.DeleteProof
import Mathlib.Data.List.Pairwise

/-!
# Taking a program down

When no primitive fails, one `Unload` or one `DeletePrograms` of a managed program succeeds and
leaves nothing of it in the store, exactly if no two of its links are on one dispatcher whose
recorded namespace is gone (`teardown_iff`). On such a dispatcher the first detach deletes the rows
of all members, and the second finds neither the dispatcher nor its own link.
-/

namespace Bpfman

open Fallible Proc List

variable {e : Env} {w w' : World} {s s' : Store} {p : ProgramID} {record : ProgramRecord}
  {links : List LinkRecord}

/-- No two links of the program are on one dispatcher whose recorded namespace is gone. -/
def OnePerGoneDispatcher (e : Env) (s : Store) (p : ProgramID) : Prop :=
  ∀ key, ∀ x ∈ s.memberRows key, ∀ y ∈ s.memberRows key, x.link.programID = p →
    y.link.programID = p → netnsGone e x.detail.netns = true → x.link.id = y.link.id

/-- The condition on the list of links is one on the rows of the program. -/
theorem separate_iff (hs : s.Consistent) (h : s.listLinksByProgram p = .ok links) :
    Separate e s links ↔ OnePerGoneDispatcher e s p := by
  have hpend := pending_of_list hs h
  have hlist := listLinksByProgram_eq_ok h
  have hmem : ∀ x, s.IsMemberRow x → x.link.programID = p → s.listRecord x.link ∈ links := by
    intro x hx hp
    rw [hlist]
    exact mem_map_of_mem (mem_filter.2 ⟨hx.link, decide_eq_true hp⟩)
  have hrow : ∀ link ∈ links, ∀ key, extractDispatcherKey link.details = some key →
      ∃ x ∈ s.memberRows key, x.link.id = link.id ∧ x.link.programID = p := by
    intro link hl key hk
    obtain ⟨-, x, hx, hid⟩ := hpend.member link hl key hk
    rw [hlist] at hl
    obtain ⟨l, hlm, rfl⟩ := mem_map.1 hl
    obtain ⟨hlm, hp⟩ := mem_filter.1 hlm
    refine ⟨x, hx, hid, ?_⟩
    rw [Table.eq_of_key hs.linkIDs ((Store.mem_memberRows hs).1 hx).1.link hlm hid]
    exact of_decide_eq_true hp
  constructor
  · intro hsep key x hx y hy hpx hpy hgone
    by_contra hne
    obtain ⟨hxr, hxk⟩ := (Store.mem_memberRows hs).1 hx
    obtain ⟨hyr, hyk⟩ := (Store.mem_memberRows hs).1 hy
    have : Std.Symm fun a b : LinkRecord => ∀ key,
        extractDispatcherKey a.details = some key → extractDispatcherKey b.details = some key →
        ¬ Gone e s key := ⟨fun a b hab key ha hb => hab key hb ha⟩
    have hrec : s.listRecord x.link ≠ s.listRecord y.link := fun heq =>
      hne (congrArg LinkRecord.id heq)
    exact Pairwise.forall hsep (hmem x hxr hpx) (hmem y hyr hpy) hrec key
      (hxk ▸ extractDispatcherKey_listRecord hs hxr) (hyk ▸ extractDispatcherKey_listRecord hs hyr)
      ((gone_iff_member hs hx).2 hgone)
  · intro hone
    refine (Nodup.of_map _ hpend.ids).pairwise_of_forall_ne fun a ha b hb hne key hka hkb hg => ?_
    obtain ⟨x, hx, hidx, hpx⟩ := hrow a ha key hka
    obtain ⟨y, hy, hidy, hpy⟩ := hrow b hb key hkb
    have hid := hone key x hx y hy hpx hpy ((gone_iff_member hs hx).1 hg)
    exact hne (inj_on_of_nodup_map hpend.ids ha hb (hidx.symm.trans (hid.trans hidy)))

/-! ## Unload -/

/-- **With no failing primitive** an unload of a listed program succeeds exactly if its links are
separate, and then nothing of it is left. -/
theorem unload_iff (hs : w.store.Consistent) (hlist : w.store.listLinksByProgram p = .ok links)
    (hid : record.programID = p) (hq : Quiet (unload e record links true) w) :
    (∃ w', unload e record links true w = .ok () w' ∧ w'.store.Forgot p) ↔
      Separate e w.store links := by
  have hpend := pending_of_list hs hlist
  have hloop := (logs_detachAllLinks (e := e) links).mapErr
    (g := .wrap s!"detach links for program {record.programID}")
  have hrest := fun keys => @journaled_unloadRest e record links keys true
  constructor
  · rintro ⟨w', h, -⟩
    obtain ⟨keys, w1, h1, -⟩ := bind_eq_ok.1 h
    exact (unlinkedAll_of_detachAllLinks (fun l hl key hk => (hpend.member l hl key hk).1)
      (mapErr_eq_ok.1 h1)).separate hs hpend
  · intro hsep
    obtain ⟨hq1, hnext⟩ := hq.split hloop fun keys => (hrest keys).extend
    obtain ⟨keys, w1, h1⟩ := detachAllLinks_isOk hs hpend hsep hq1.of_mapErr
    have h1' := (mapErr_eq_ok (g := .wrap s!"detach links for program {record.programID}")).2 h1
    obtain ⟨_, w', h2, -⟩ := (hrest keys).isOk (hnext h1')
    exact ⟨w', (bind_of_ok h1').trans h2, hid ▸ unloadRest_gone h2⟩

theorem logs_unload (record : ProgramRecord) (links : List LinkRecord) (persisted : Bool) :
    Keeps Logs (unload e record links persisted) :=
  (logs_detachAllLinks links).mapErr.bind fun keys => (journaled_unloadRest keys persisted).extend

theorem logs_getProgram (id : ProgramID) : Keeps Logs (getProgram e id) := logs_query.mapErr

theorem logs_listLinksByProgram (id : ProgramID) : Keeps Logs (listLinksByProgram e id) :=
  logs_query

theorem isNotFound_populateLinkDetails {rows : List LinkRow} {err : Err}
    (h : s.populateLinkDetails rows = .error err) : isNotFound err = false := by
  unfold Store.populateLinkDetails at h
  split at h
  · cases h
  · split at h
    · cases h
    · cases h
      rfl

theorem unloadProgram_eq_of_quiet (hp : w.store.getProgram p = .ok record)
    (hq : Quiet (unloadProgram e p) w) : ∃ links, w.store.listLinksByProgram p = .ok links ∧
      unloadProgram e p w = unload e record links true w := by
  have hget := (logs_getProgram (e := e) p).mapErr (g := unmanagedErr e p)
  have hlist : ∀ r : ProgramRecord, Keeps Logs (do
      let links ← mapErr (.wrap s!"list links for program {p}") (listLinksByProgram e p)
      unload e r links true) := fun r =>
    (logs_listLinksByProgram p).mapErr.bind fun links => logs_unload r links true
  obtain ⟨hq0, hnext⟩ := hq.split hget hlist
  obtain ⟨a, ha, hok⟩ := query_of_quiet hq0.of_mapErr.of_mapErr fun err herr => nomatch
    herr.symm.trans hp
  obtain rfl := Except.ok.inj (ha.symm.trans hp)
  have h1 : mapErr (unmanagedErr e p) (getProgram e p) w = .ok a w :=
    mapErr_eq_ok.2 (mapErr_eq_ok.2 hok)
  obtain ⟨links, hl, hread, -⟩ := query_bind_of_quiet (hnext h1) (logs_unload a · true) fun _ =>
    isNotFound_populateLinkDetails
  exact ⟨links, hl, (bind_of_ok h1).trans hread⟩

theorem unloadProgram_iff (hs : w.store.Consistent) (hp : w.store.getProgram p = .ok record)
    (hq : Quiet (unloadProgram e p) w) :
    (∃ w', unloadProgram e p w = .ok () w' ∧ w'.store.Forgot p) ↔
      OnePerGoneDispatcher e w.store p := by
  obtain ⟨links, hlist, heq⟩ := unloadProgram_eq_of_quiet hp hq
  obtain ⟨x, -, -, hid, -⟩ := Store.getProgram_eq_ok hp
  have hq' : Quiet (unload e record links true) w := by
    unfold Quiet Proc.Quiet at hq ⊢
    rwa [heq] at hq
  rw [heq, ← separate_iff hs hlist]
  exact unload_iff hs hlist hid hq'

/-! ## Delete -/

theorem deletePrograms_single (e : Env) (p : ProgramID) (w : World) :
    deletePrograms e [p] {} w = match detachAndUnload e p w with
      | .ok () w' => .ok [⟨p, none⟩] w'
      | .err err w' => .ok [⟨p, some err⟩] w' := by
  have hbatch : deletePrograms e [p] {} w = (deleteTarget e p {} >>= fun r =>
      deleteEach e [] false [] r.1 >>= fun s => pure (⟨p, r.2⟩ :: s.1)) w := by
    change (deleteEach e [] false [p] {} >>= fun r => pure r.1) w = _
    simp only [deleteEach, deleteProgram, not_mem_nil, if_false, Bool.false_eq_true, bind_apply]
    cases deleteTarget e p {} w <;> rfl
  rw [hbatch]
  cases h : detachAndUnload e p w with
  | ok u w' =>
    obtain ⟨links, -, hdel⟩ := deleteTarget_of_ok {} h
    rw [bind_of_ok hdel]
    rfl
  | err err w' =>
    obtain ⟨done, hdel⟩ := deleteTarget_of_err {} h
    rw [bind_of_ok hdel]
    rfl

/-- A deletion is quiet with its effect. -/
theorem quiet_detachAndUnload {batch : DeleteBatch} (hq : Quiet (deleteTarget e p batch) w) :
    Quiet (detachAndUnload e p) w := by
  unfold Quiet Proc.Quiet at hq ⊢
  cases h : detachAndUnload e p w with
  | ok u w' =>
    obtain ⟨links, -, hdel⟩ := deleteTarget_of_ok batch h
    rw [hdel] at hq
    exact hq
  | err err w' =>
    obtain ⟨links, hdel⟩ := deleteTarget_of_err batch h
    rw [hdel] at hq
    exact hq

theorem logs_unloadProgram (id : ProgramID) : Keeps Logs (unloadProgram e id) :=
  (logs_getProgram id).mapErr.bind fun record => (logs_listLinksByProgram id).mapErr.bind
    fun links => logs_unload record links true

/-- The record of a program does not depend on the links. -/
theorem getProgram_congr (hp : s'.programs = s.programs) (hm : s'.mapSets = s.mapSets) :
    s'.getProgram p = s.getProgram p := by
  unfold Store.getProgram Store.programRecord
  rw [hp, hm]

theorem logs_detachAndUnload (id : ProgramID) : Keeps Logs (detachAndUnload e id) :=
  (logs_listLinksByProgram id).mapErr.bind fun links => (logs_detachEach links).bind fun _ =>
    (logs_unloadProgram id).mapErr

theorem listLinksByProgram_of_quiet (hq : Quiet (listLinksByProgram e p) w) :
    listLinksByProgram e p w =
      .ok ((w.store.links.filter (·.programID = p)).map w.store.listRecord) w := by
  obtain ⟨links, hl, hok⟩ := query_of_quiet hq fun _ => isNotFound_populateLinkDetails
  rw [← listLinksByProgram_eq_ok hl]
  exact hok

theorem detachAndUnload_listed (hq : Quiet (detachAndUnload e p) w) :
    ∃ links, w.store.listLinksByProgram p = .ok links ∧
      detachAndUnload e p w =
        (detachEach e links >>= fun _ => mapErr (.wrap "unload") (unloadProgram e p)) w ∧
      Quiet (detachEach e links >>= fun _ => mapErr (.wrap "unload") (unloadProgram e p)) w := by
  have hrest : ∀ links, Keeps Logs
      (detachEach e links >>= fun _ => mapErr (.wrap "unload") (unloadProgram e p)) :=
    fun links => (logs_detachEach links).bind fun _ => (logs_unloadProgram p).mapErr
  exact query_bind_of_quiet hq hrest fun _ => isNotFound_populateLinkDetails

theorem onePerGone_of_detachAndUnload (hs : w.store.Consistent)
    (h : detachAndUnload e p w = .ok () w') : OnePerGoneDispatcher e w.store p := by
  obtain ⟨links, w1, h1, g1⟩ := bind_eq_ok.1 h
  obtain ⟨-, hlist, rfl⟩ := query_eq_ok.1 (mapErr_eq_ok.1 h1)
  obtain ⟨_, w2, h2, -⟩ := bind_eq_ok.1 g1
  rw [← separate_iff hs hlist]
  exact (unlinkedAll_of_detachEach hs (agrees_of_list hs hlist) h2).separate hs
    (pending_of_list hs hlist)

/-- **With no failing primitive** a delete succeeds exactly if the links are separate. -/
theorem detachAndUnload_iff (hs : w.store.Consistent) (hp : w.store.getProgram p = .ok record)
    (hq : Quiet (detachAndUnload e p) w) :
    (∃ w', detachAndUnload e p w = .ok () w' ∧ w'.store.Forgot p) ↔
      OnePerGoneDispatcher e w.store p := by
  constructor
  · rintro ⟨w', h, -⟩
    exact onePerGone_of_detachAndUnload hs h
  · intro hone
    obtain ⟨links, hlist, heq, hq1⟩ := detachAndUnload_listed hq
    have hpend := pending_of_list hs hlist
    have hagr := agrees_of_list hs hlist
    have hsep := (separate_iff hs hlist).2 hone
    rw [heq]
    obtain ⟨hq2, hnext⟩ := hq1.split (logs_detachEach links) fun _ => (logs_unloadProgram p).mapErr
    obtain ⟨w1, h1⟩ := detachEach_isOk hs hpend hagr hsep hq2
    have hall := unlinkedAll_of_detachEach hs hagr h1
    have hs1 := hall.consistent hs
    -- no link of the program is left for the unload
    have hnone : ∀ l ∈ w1.store.links, l.programID ≠ p := by
      intro l hl hlp
      obtain ⟨l0, hl0, hid, hp0⟩ := hall.link_of hs hl
      refine hall.ne_id hs hagr hl (w.store.listRecord l0) ?_ hid.symm
      rw [listLinksByProgram_eq_ok hlist]
      exact mem_map_of_mem (mem_filter.2 ⟨hl0, decide_eq_true (hp0.trans hlp)⟩)
    have hone : OnePerGoneDispatcher e w1.store p := by
      intro key x hx _ _ hxp
      exact absurd hxp (hnone _ ((Store.mem_memberRows hs1).1 hx).1.link)
    obtain ⟨w', h2, hforgot⟩ := (unloadProgram_iff hs1
      ((getProgram_congr hall.programs hall.tables.2).trans hp) (hnext h1).of_mapErr).2 hone
    exact ⟨w', (bind_of_ok h1).trans (mapErr_eq_ok.2 h2), hforgot⟩

/-- **Unloading a managed program when no primitive fails**, through `Unload` or `DeletePrograms`,
succeeds and leaves neither its record nor a link of it, exactly if no two of its links are on one
dispatcher whose recorded namespace is gone. -/
theorem teardown_iff (hs : w.store.Consistent) (hp : w.store.getProgram p = .ok record) :
    (Quiet (unloadProgram e p) w →
      ((∃ w', unloadProgram e p w = .ok () w' ∧ w'.store.Forgot p) ↔
        OnePerGoneDispatcher e w.store p)) ∧
    (Quiet (deletePrograms e [p] {}) w →
      ((∃ w', deletePrograms e [p] {} w = .ok [⟨p, none⟩] w' ∧ w'.store.Forgot p) ↔
        OnePerGoneDispatcher e w.store p)) := by
  refine ⟨unloadProgram_iff hs hp, fun hq => ?_⟩
  have heq := deletePrograms_single e p w
  have hq' : Quiet (detachAndUnload e p) w := by
    unfold Quiet Proc.Quiet at hq ⊢
    rw [heq] at hq
    cases h : detachAndUnload e p w <;> rw [h] at hq <;> exact hq
  rw [← detachAndUnload_iff hs hp hq', heq]
  cases h : detachAndUnload e p w with
  | ok u w' => simp
  | err err w' => simp

namespace Sample

/-- One program attached twice to an interface of another namespace. -/
@[irreducible] def twiceAttached : World :=
  attached [.xdp ⟨1, "eth0", "/run/netns/a", 50, [], []⟩,
    .xdp ⟨1, "eth0", "/run/netns/a", 50, [], []⟩]

theorem twiceAttached_consistent : twiceAttached.store.Consistent := by
  unfold twiceAttached
  exact (inv_run fresh.inv (run_attachAll (by decide +kernel))).store

/-- The machine once that namespace is gone. -/
def envGone : Env := { env 9 [] with netnsExists := fun _ => false }

end Sample

open Sample

/-- In a namespace that is there, both links come down. -/
theorem teardown_iff_sample :
    let e := env 9 []
    let w := twiceAttached
    (∃ w', unloadProgram e 1 w = .ok () w' ∧ w'.store.Forgot 1) ∧
      ∃ w', deletePrograms e [1] {} w = .ok [⟨1, none⟩] w' ∧ w'.store.Forgot 1 := by
  have hmanaged : (twiceAttached.store.getProgram 1).isOk = true := by decide +kernel
  obtain ⟨record, hp⟩ : ∃ record, twiceAttached.store.getProgram 1 = .ok record := by
    cases h : twiceAttached.store.getProgram 1 with
    | ok record => exact ⟨record, rfl⟩
    | error err => simp [h, Except.isOk, Except.toBool] at hmanaged
  have hone : OnePerGoneDispatcher (env 9 []) twiceAttached.store 1 := by
    intro key x _ y _ _ _ hgone
    simp [netnsGone, env] at hgone
  have hq : Quiet (unloadProgram (env 9 []) 1) twiceAttached := by decide +kernel
  have hq' : Quiet (deletePrograms (env 9 []) [1] {}) twiceAttached := by decide +kernel
  have h := teardown_iff (e := env 9 []) twiceAttached_consistent hp
  exact ⟨(h.1 hq).2 hone, (h.2 hq').2 hone⟩

/-- Once the namespace is gone no primitive fails, yet neither call succeeds: the second link of the
program finds no dispatcher. -/
theorem unload_fails_on_gone_namespace :
    let e := envGone
    let w := twiceAttached
    w.store.Consistent ∧ (w.store.getProgram 1).isOk = true ∧
      Quiet (unloadProgram e 1) w ∧ (unloadProgram e 1 w).isOk = false ∧
      Quiet (deletePrograms e [1] {}) w ∧
      ((deletePrograms e [1] {} w).value?.map fun results => results.map (·.err.isNone)) =
        some [false] := by
  exact ⟨twiceAttached_consistent, by decide +kernel⟩

end Bpfman
