import Bpfman.Delete
import Bpfman.Unlinked

/-!
# Unload and delete: the loops and what follows them

The two loops over the links of a program in terms of `UnlinkedAll`, and the rest of an unload.

* `detachAllLinks_isOk`, `detachEach_isOk` — the loops reach their end when no primitive fails and
  no two links are on one dispatcher whose namespace is gone;
* `unlinkedAll_of_detachAllLinks`, `unlinkedAll_of_detachEach` — what they did to the store.
-/

namespace Bpfman

open Fallible Proc Store List

variable {e : Env} {w w' : World} {key : Key} {s s' : Store} {link : LinkRecord}
  {links : List LinkRecord} {b : Bool}

/-! ## The loop of an unload -/

theorem detachAllLinks_skip (hp : link.pinPath = none) :
    detachAllLinks e (link :: links) = detachAllLinks e links := by
  simp only [detachAllLinks, hp]

theorem detachAllLinks_plain {pin : LinkPath} (hp : link.pinPath = some pin)
    (hk : extractDispatcherKey link.details = none) :
    detachAllLinks e (link :: links) = (do
      mapErr (.wrap s!"detach link {link.id}") (detachLink e pin)
      detachAllLinks e links) := by
  simp only [detachAllLinks, hp, hk]

theorem detachAllLinks_member {pin : LinkPath} (hp : link.pinPath = some pin)
    (hk : extractDispatcherKey link.details = some key) :
    detachAllLinks e (link :: links) = (do
      mapErr (.wrap s!"detach link {link.id}") (detachLink e pin)
      mapErr (.wrap s!"rebuild dispatcher after detaching link {link.id}")
        (rebuildDispatcherForDetach e key link.id)
      let keys ← detachAllLinks e links
      pure (key :: keys)) := by
  simp only [detachAllLinks, hp, hk]

theorem logs_detachAllLinks : ∀ links : List LinkRecord,
    Keeps Logs (detachAllLinks e links)
  | [] => .pure _
  | link :: links => by
    cases hp : link.pinPath with
    | none =>
      rw [detachAllLinks_skip hp]
      exact logs_detachAllLinks links
    | some pin =>
      cases hk : extractDispatcherKey link.details with
      | none =>
        rw [detachAllLinks_plain hp hk]
        exact (adapts_detachLink _).logs.mapErr.bind fun _ => logs_detachAllLinks links
      | some key =>
        rw [detachAllLinks_member hp hk]
        exact (adapts_detachLink _).logs.mapErr.bind fun _ =>
          (logs_rebuildDispatcherForDetach _ _).mapErr.bind fun _ =>
            (logs_detachAllLinks links).bind fun _ => .pure _

theorem unlinkedAll_of_detachAllLinks :
    ∀ {links : List LinkRecord} {keys : List Key} {w w' : World},
    (∀ link ∈ links, ∀ key, extractDispatcherKey link.details = some key → link.pinPath.isSome) →
    detachAllLinks e links w = .ok keys w' → UnlinkedAll e false links w.store w'.store
  | [], _, _, _, _, h => by
    cases h
    exact .nil
  | link :: links, keys, w, w', hpin, h => by
    have hpin' := fun l hl => hpin l (mem_cons_of_mem _ hl)
    cases hk : extractDispatcherKey link.details with
    | none =>
      cases hp : link.pinPath with
      | none =>
        rw [detachAllLinks_skip hp] at h
        exact .cons (.kept rfl hk rfl) (unlinkedAll_of_detachAllLinks hpin' h)
      | some pin =>
        rw [detachAllLinks_plain hp hk] at h
        obtain ⟨_, w1, h1, g1⟩ := bind_eq_ok.1 h
        have hst : w1.store = w.store := (adapts_detachLink pin).store.mapErr.ok h1
        exact .cons (.kept rfl hk hst) (unlinkedAll_of_detachAllLinks hpin' g1)
    | some key =>
      obtain ⟨pin, hp⟩ := Option.isSome_iff_exists.1 (hpin link (mem_cons_self ..) key hk)
      rw [detachAllLinks_member hp hk] at h
      obtain ⟨_, w1, h1, g1⟩ := bind_eq_ok.1 h
      have hst : w1.store = w.store := (adapts_detachLink pin).store.mapErr.ok h1
      obtain ⟨_, w2, h2, g2⟩ := bind_eq_ok.1 g1
      have hdet := detached_of_ok (mapErr_eq_ok.1 h2)
      rw [hst] at hdet
      obtain ⟨keys', w3, h3, g3⟩ := bind_eq_ok.1 g2
      cases g3
      exact .cons (.detached key hk hdet) (unlinkedAll_of_detachAllLinks hpin' h3)

/-- **With no failing primitive** the loop of an unload reaches its end, if no two links are on one
dispatcher whose namespace is gone. -/
theorem detachAllLinks_isOk : ∀ {links : List LinkRecord} {w : World}, w.store.Consistent →
    Pending w.store links → Separate e w.store links → Quiet (detachAllLinks e links) w →
    ∃ keys w', detachAllLinks e links w = .ok keys w'
  | [], w, _, _, _, _ => ⟨[], w, rfl⟩
  | link :: links, w, hs, hp, hsep, hq => by
    have hfirst := (pairwise_cons.1 hsep).1
    have hlogs := logs_detachAllLinks (e := e) links
    cases hk : extractDispatcherKey link.details with
    | none =>
      have hstep : Unlinked e false link w.store w.store := .kept rfl hk rfl
      cases hpin : link.pinPath with
      | none =>
        rw [detachAllLinks_skip hpin] at hq ⊢
        exact detachAllLinks_isOk hs (hp.unlinked hs hfirst hstep) (hsep.unlinked hstep) hq
      | some pin =>
        rw [detachAllLinks_plain hpin hk] at hq ⊢
        have hj := (adapts_detachLink (e := e) pin).journaled.mapErr
          (g := .wrap s!"detach link {link.id}")
        obtain ⟨u, w1, h1, hq1⟩ := hj.step hq fun _ => hlogs
        have hst : w1.store = w.store := (adapts_detachLink pin).store.mapErr.ok h1
        obtain ⟨keys, w', hw'⟩ := detachAllLinks_isOk (w := w1) (hst ▸ hs)
          (hst ▸ hp.unlinked hs hfirst hstep) (hst ▸ hsep.unlinked hstep) hq1
        exact ⟨keys, w', (bind_of_ok h1).trans hw'⟩
    | some key =>
      obtain ⟨hpin, y, hy, -⟩ := hp.member link (mem_cons_self ..) key hk
      obtain ⟨pin, hpin⟩ := Option.isSome_iff_exists.1 hpin
      rw [detachAllLinks_member hpin hk] at hq ⊢
      have hj := (adapts_detachLink (e := e) pin).journaled.mapErr
        (g := .wrap s!"detach link {link.id}")
      have hr := (logs_rebuildDispatcherForDetach (e := e) key link.id).mapErr
        (g := .wrap s!"rebuild dispatcher after detaching link {link.id}")
      have hrest := hlogs.bind fun keys => .pure (ε := Err) (R := Logs) (key :: keys)
      obtain ⟨u, w1, h1, hq1⟩ := hj.step hq fun _ => hr.bind fun _ => hrest
      obtain ⟨hq2, hnext⟩ := hq1.split hr fun _ => hrest
      have hst : w1.store = w.store := (adapts_detachLink pin).store.mapErr.ok h1
      -- the dispatcher row of a pending member is there
      have hrow : ∃ r ∈ w1.store.dispatchers, r.key = key := by
        obtain ⟨hym, hyk⟩ := (mem_memberRows hs).1 hy
        obtain ⟨r, hr, hrk, -⟩ := hs.detailDispatcher _ hym.detail
        exact ⟨r, hst ▸ hr, hrk.trans hyk⟩
      obtain ⟨w2, h2⟩ := rebuildDispatcherForDetach_isOk (hst ▸ hs) hrow hq2.of_mapErr
      have h2' := (mapErr_eq_ok (g := .wrap
        s!"rebuild dispatcher after detaching link {link.id}")).2 h2
      have hdet := detached_of_ok h2
      rw [hst] at hdet
      have hstep : Unlinked e false link w.store w2.store := .detached key hk hdet
      obtain ⟨keys, w', hw'⟩ := detachAllLinks_isOk (w := w2) (hstep.consistent hs)
        (hp.unlinked hs hfirst hstep) (hsep.unlinked hstep)
        ((hnext h2').left hlogs fun _ => .pure _)
      refine ⟨key :: keys, w', (bind_of_ok h1).trans ((bind_of_ok h2').trans ?_)⟩
      exact bind_of_ok hw'

/-! ## The loop of a delete -/

/-- The records of the list agree with the rows of the store, where these are still there. -/
structure Agrees (s : Store) (links : List LinkRecord) : Prop where
  detail : ∀ link ∈ links, ∀ d ∈ s.details, d.id = link.id →
    extractDispatcherKey link.details = some d.key
  plain : ∀ link ∈ links, ∀ l ∈ s.links, l.id = link.id → ¬ (l.kind = .xdp ∨ l.kind = .tc) →
    extractDispatcherKey link.details = none

theorem agrees_of_rows (hs : s.Consistent) {rows : List LinkRow} (hrows : rows.Sublist s.links) :
    Agrees s (rows.map s.listRecord) := by
  refine ⟨fun link hlink d hd hid => ?_, fun link hlink l hl hid hkind => ?_⟩
  · obtain ⟨l, hl, rfl⟩ := mem_map.1 hlink
    obtain ⟨y, hy, rfl⟩ := exists_memberRow hs hd
    obtain rfl : y.link = l :=
      Table.eq_of_key hs.linkIDs hy.link (hrows.subset hl) (hy.link_id.trans hid)
    exact extractDispatcherKey_listRecord hs hy
  · obtain ⟨l', hl', rfl⟩ := mem_map.1 hlink
    obtain rfl : l = l' := Table.eq_of_key hs.linkIDs hl (hrows.subset hl') hid
    exact listRecord_plain hs hl hkind

theorem agrees_of_list (hs : s.Consistent) {p : ProgramID}
    (h : s.listLinksByProgram p = .ok links) : Agrees s links := by
  obtain rfl := listLinksByProgram_eq_ok h
  exact agrees_of_rows hs filter_sublist

theorem Unlinked.detail_of (h : Unlinked e b link s s') (hs : s.Consistent) {d : DetailRow}
    (hd : d ∈ s'.details) : ∃ d0 ∈ s.details, d0.id = d.id ∧ d0.key = d.key := by
  cases h with
  | kept _ _ h => exact ⟨d, h ▸ hd, rfl, rfl⟩
  | deleted _ _ l hl hid hkind h =>
    rw [h] at hd
    exact ⟨d, (mem_deleteLinks_details.1 hd).1, rfl, rfl⟩
  | detached key hk h => exact h.detail_of hs hd

/-- No step adds a link without a dispatcher. -/
theorem Unlinked.plain_of (h : Unlinked e b link s s') {l : LinkRow} (hl : l ∈ s'.links)
    (hkind : ¬ (l.kind = .xdp ∨ l.kind = .tc)) : l ∈ s.links := by
  cases h with
  | kept _ _ h => exact h ▸ hl
  | deleted _ _ l' hl' hid hkind' h =>
    rw [h] at hl
    exact (mem_deleteLinks_links.1 hl).1
  | detached key hk h =>
    rcases h.links hl with ⟨hl, -⟩ | ⟨y, -, -, -, -, hk⟩
    · exact hl
    · exact absurd hk hkind

theorem Agrees.unlinked (ha : Agrees s (link :: links)) (hs : s.Consistent)
    (h : Unlinked e b link s s') : Agrees s' links := by
  refine ⟨fun link' hl' d hd hid => ?_, fun link' hl' l hl hid hkind => ?_⟩
  · obtain ⟨d0, hd0, hid0, hk0⟩ := h.detail_of hs hd
    rw [← hk0]
    exact ha.detail link' (mem_cons_of_mem _ hl') d0 hd0 (hid0.trans hid)
  · exact ha.plain link' (mem_cons_of_mem _ hl') l (h.plain_of hl hkind) hid hkind

theorem unlinked_of_detach (hs : w.store.Consistent) (ha : Agrees w.store (link :: links))
    (h : detach e link.id w = .ok () w') : Unlinked e true link w.store w'.store := by
  obtain ⟨record, w1, hget, hpin, hact⟩ := detach_eq_ok h
  have hst : w1.store = w.store := (adapts_detachPin record).store.ok hpin
  rcases getLink_cases hs hget with ⟨l, hl, hid, hkind, ⟨details, rfl⟩, hk⟩ |
    ⟨m, hm, hid, hrid, -, hk⟩
  · rw [hk] at hact
    have hdel : w'.store = w.store.deleteLinks [link.id] := by
      rw [deleteLink_eq_ok hact, hst, ← hid]
      rfl
    exact .deleted rfl (ha.plain link (mem_cons_self ..) l hl hid hkind) l hl hid hkind hdel
  · rw [hk, hrid] at hact
    have hdet := detached_of_ok hact
    rw [hst] at hdet
    have hrow := ((mem_memberRows hs).1 hm).1
    exact .detached _ (ha.detail link (mem_cons_self ..) _ hrow.detail
      (hrow.link_id.symm.trans hid)) hdet

theorem journaled_deleteLink (id : LinkID) : Journaled (deleteLink e id) :=
  journaled_write fun _ _ => rfl

theorem logs_detachStoreAction (id : LinkID) : ∀ key : Option Key,
    Keeps Logs (detachStoreAction e id key)
  | none => (journaled_deleteLink _).extend
  | some _ => logs_rebuildDispatcherForDetach _ _

theorem logs_detach (id : LinkID) : Keeps Logs (detach e id) := by
  rw [detach_eq]
  exact logs_query.mapErr.bind fun record => (adapts_detachPin record).logs.bind fun _ =>
    logs_detachStoreAction _ _

theorem detachEach_cons : detachEach e (link :: links) = (do
    mapErr (.wrap s!"detach link {link.id}") (detach e link.id)
    detachEach e links) := rfl

theorem logs_detachEach (links : List LinkRecord) : Keeps Logs (detachEach e links) :=
  .forEach fun link _ => (logs_detach link.id).mapErr

theorem unlinkedAll_of_detachEach : ∀ {links : List LinkRecord} {w w' : World},
    w.store.Consistent → Agrees w.store links → detachEach e links w = .ok () w' →
    UnlinkedAll e true links w.store w'.store
  | [], _, _, _, _, h => by
    cases h
    exact .nil
  | link :: links, w, w', hs, ha, h => by
    rw [detachEach_cons] at h
    obtain ⟨_, w1, h1, g1⟩ := bind_eq_ok.1 h
    have hstep := unlinked_of_detach hs ha (mapErr_eq_ok.1 h1)
    exact .cons hstep (unlinkedAll_of_detachEach (hstep.consistent hs) (ha.unlinked hs hstep) g1)

/-- **With no failing primitive** the detach of a pending link succeeds. -/
theorem detach_isOk (hs : w.store.Consistent) (hp : Pending w.store (link :: links))
    (hq : Quiet (detach e link.id) w) : ∃ w', detach e link.id w = .ok () w' := by
  -- the link still has its row
  obtain ⟨l, hl, hlid⟩ : ∃ l ∈ w.store.links, l.id = link.id := by
    cases hk : extractDispatcherKey link.details with
    | none =>
      obtain ⟨l, hl, hid, -⟩ := hp.plain link (mem_cons_self ..) hk
      exact ⟨l, hl, hid⟩
    | some key =>
      obtain ⟨-, y, hy, hid⟩ := hp.member link (mem_cons_self ..) key hk
      exact ⟨y.link, ((mem_memberRows hs).1 hy).1.link, hid⟩
  rw [detach_eq] at hq ⊢
  have hlogs := fun record : LinkRecord =>
    logs_detachStoreAction (e := e) record.id (dispatcherKey record)
  have hrest := fun record => (adapts_detachPin (e := e) record).logs.bind fun _ =>
    hlogs record
  obtain ⟨record, hget, hread, hq1⟩ := query_bind_of_quiet hq hrest fun err herr =>
    isNotFound_getLink hs hl (hlid ▸ herr)
  have hj := (adapts_detachPin (e := e) record).journaled
  obtain ⟨_, w1, h1, hq2⟩ := hj.step hq1 fun _ => hlogs record
  have hst : w1.store = w.store := (adapts_detachPin record).store.ok h1
  have hlast : ∃ w', detachStoreAction e record.id (dispatcherKey record) w1 = .ok () w' := by
    rcases getLink_cases hs hget with ⟨l, -, -, -, -, hk⟩ | ⟨m, hm, -, -, -, hk⟩
    · rw [hk] at hq2 ⊢
      obtain ⟨_, w', hw', -⟩ := (journaled_deleteLink _).isOk hq2
      exact ⟨w', hw'⟩
    · rw [hk] at hq2 ⊢
      obtain ⟨r, hr, hrk, -⟩ := hs.detailDispatcher _ ((mem_memberRows hs).1 hm).1.detail
      exact rebuildDispatcherForDetach_isOk (hst ▸ hs) ⟨r, hst ▸ hr, hrk⟩ hq2
  obtain ⟨w', hw'⟩ := hlast
  exact ⟨w', hread.trans ((bind_of_ok h1).trans hw')⟩

/-- **With no failing primitive** the loop of a delete reaches its end, if no two links are on one
dispatcher whose namespace is gone. -/
theorem detachEach_isOk : ∀ {links : List LinkRecord} {w : World}, w.store.Consistent →
    Pending w.store links → Agrees w.store links → Separate e w.store links →
    Quiet (detachEach e links) w → ∃ w', detachEach e links w = .ok () w'
  | [], w, _, _, _, _, _ => ⟨w, rfl⟩
  | link :: links, w, hs, hp, ha, hsep, hq => by
    rw [detachEach_cons] at hq ⊢
    have hl := (logs_detach (e := e) link.id).mapErr (g := .wrap s!"detach link {link.id}")
    have hlogs := logs_detachEach (e := e) links
    obtain ⟨hq1, hnext⟩ := hq.split hl fun _ => hlogs
    obtain ⟨w1, h1⟩ := detach_isOk hs hp hq1.of_mapErr
    have h1' := (mapErr_eq_ok (g := .wrap s!"detach link {link.id}")).2 h1
    have hstep := unlinked_of_detach hs ha h1
    obtain ⟨w', hw'⟩ := detachEach_isOk (hstep.consistent hs)
      (hp.unlinked hs (pairwise_cons.1 hsep).1 hstep) (ha.unlinked hs hstep)
      (hsep.unlinked hstep) (hnext h1')
    exact ⟨w', (bind_of_ok h1').trans hw'⟩

theorem Unlinked.ne_id (h : Unlinked e true link s s') (hs : s.Consistent)
    (ha : Agrees s (link :: links)) {l : LinkRow} (hl : l ∈ s'.links) : l.id ≠ link.id := by
  cases h with
  | kept hb => cases hb
  | deleted _ _ l' hl' hid hkind h =>
    rw [h] at hl
    simpa using (mem_deleteLinks_links.1 hl).2
  | detached key hk h =>
    rcases h.links hl with ⟨hl, hnot⟩ | ⟨y, -, hne, hid, -⟩
    · intro hid
      refine hnot (mem_attachPointLinks.2 ?_)
      by_cases hkind : l.kind = .xdp ∨ l.kind = .tc
      · obtain ⟨d, hd, hdl⟩ := hs.linkDetail l hl hkind
        have := ha.detail link (mem_cons_self ..) d hd (hdl.trans hid)
        exact ⟨d, hd, Option.some.inj (this.symm.trans hk), hdl⟩
      · have := ha.plain link (mem_cons_self ..) l hl hid hkind
        exact absurd (this.symm.trans hk) (by simp)
    · rw [hid]
      exact hne

theorem UnlinkedAll.ne_id (h : UnlinkedAll e true links s s') (hs : s.Consistent)
    (ha : Agrees s links) {l : LinkRow} (hl : l ∈ s'.links) : ∀ link ∈ links, l.id ≠ link.id := by
  induction h with
  | nil => simp
  | cons h hrest ih =>
    intro link' hl'
    have hs1 := h.consistent hs
    rcases mem_cons.1 hl' with rfl | hl'
    · obtain ⟨l1, hl1, hid, -⟩ := hrest.link_of hs1 hl
      rw [← hid]
      exact h.ne_id hs ha hl1
    · exact ih hs1 (ha.unlinked hs h) hl link' hl'

end Bpfman
