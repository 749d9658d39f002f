import Bpfman.AttachFailure
import Bpfman.Relog

/-!
# Failed detaches and their retry

A detach unlinks the member's extension before it rebuilds the dispatcher, so a failed rebuild
leaves a state that no successful operation produces. The cleanup of a detach removes the whole
directory of the new revision, except where the new dispatcher could not be pinned in it.

* `detach_failedAt` — the step at which a detach failed;
* `leftByDetach_of_failed` — the world it leaves;
* `detach_retry` — a retry does what the first attempt would have done;
* `detach_restored_iff` — when a failed detach leaves the world fit for a retry;
* `noPins_of_run` — a run that can remove old revisions leaves no pins for the next one.
-/

namespace Bpfman

open Fallible Proc Store World List

variable {e : Env} {w w' : World} {err : Err} {key : Key} {r : Nat} {c : Call} {m : MemberRow}

variable {q : LinkPath} {id : LinkID} {d : Dir} {cfg : Config} {v : World} {D : Finset Dir}
  {snap : DispatcherSnapshot} {ord : RowOrder}

/-! ## The member and its pin -/

theorem memberRecord (hs : w.store.Consistent) (hm : m ∈ w.store.memberRows key)
    {record : LinkRecord} (h : w.store.getLink m.link.id = .ok record) :
    record.id = m.link.id ∧ record.pinPath = m.link.pinPath ∧ dispatcherKey record = some key := by
  obtain ⟨hrow, hk⟩ := (Store.mem_memberRows hs).1 hm
  rcases getLink_cases hs h with ⟨l, hl, hid, hno, -⟩ | ⟨m', hm', hid, hrid, hpin, hkey⟩
  · exact absurd (hrow.link_id.symm.trans hid.symm) (detail_ne_of_plain hs hl hno _ hrow.detail)
  · obtain ⟨hrow', -⟩ := (Store.mem_memberRows hs).1 hm'
    have hlink : m'.link = m.link := Table.eq_of_key hs.linkIDs hrow'.link hrow.link hid
    have hdetail : m'.detail = m.detail := Table.eq_of_key hs.detailIDs hrow'.detail hrow.detail
      (hrow'.link_id.symm.trans (hid.trans hrow.link_id))
    exact ⟨hrid, hpin.trans (by rw [hlink]), hkey.trans (by rw [hdetail, hk])⟩

/-- The world a detach rebuilds in: the member's extension is unlinked. -/
def World.withoutMember (w : World) (key : Key) (revision : Nat) (m : MemberRow) : World :=
  w.eraseLink (.extension key revision m.detail.position)

/-- The pin of a member is its extension link, beside the dispatcher of the recorded revision. -/
theorem Inv.memberPinned (hi : Inv w) (hm : m ∈ w.store.memberRows key)
    (hs : w.store.getDispatcherSnapshot ord key = .ok snap) :
    m.link.pinPath = some (.extension key snap.revision m.detail.position) ∧
      (w.withoutMember key snap.revision m).dirEmpty (.revision key snap.revision) = false := by
  obtain ⟨row, hrow, hk, -, hrev, -⟩ := getDispatcherSnapshot_eq_ok hs
  obtain ⟨P, cfg, hP⟩ := (hi.dispatchers row hrow).program
  rw [hrev, ← hk]
  refine ⟨(hP.slots m (hk.symm ▸ hm)).pinPath, ?_⟩
  exact dirEmpty_of_prog (p := .dispatcher row.key row.revision) rfl
    (Option.isSome_of_eq_some hP.pinned)

/-! ## Where a detach fails -/

theorem rebuildDispatcherForDetach_eq_err
    (hs : w.store.getDispatcherSnapshot e.rowOrder key = .ok snap)
    (hrem : removesDispatcher e (snap.without id) = false)
    (h : rebuildDispatcherForDetach e key id w = .err err w') :
    w' = w ∨ (∃ c, c.residue = .nothing ∧ w' = w.fail c) ∨
      ∃ cfg err', rebuildDispatcher e (detachRebuild e key snap id cfg) w = .err err' w' := by
  rw [rebuildDispatcherForDetach_eq] at h
  rcases bind_eq_err.1 h with h1 | ⟨s, w1, h1, h2⟩
  · have hq : Harmless (getDispatcherSnapshot e key) := harmless_query rfl
    exact (hq.mapErr.err h1).imp_right .inl
  · obtain ⟨-, hs', rfl⟩ := query_eq_ok.1 (mapErr_eq_ok.1 h1)
    obtain rfl : snap = s := Except.ok.inj (hs.symm.trans hs')
    rw [detachFrom, hrem, if_neg (by simp)] at h2
    rcases bind_eq_err.1 h2 with h3 | ⟨cfg, w2, h3, h4⟩
    · exact ((harmless_lift _).mapErr.err h3).imp_right .inl
    · obtain ⟨-, rfl⟩ := lift_eq_ok.1 (mapErr_eq_ok.1 h3)
      rcases bind_eq_err.1 h4 with h5 | ⟨res, w3, -, h6⟩
      · exact .inr (.inr ⟨cfg, err, h5⟩)
      · cases h6

/-- **The step at which a detach failed**: a read or the unlink before the rebuild, or the rebuild,
which starts without the member's extension. -/
theorem detach_failedAt (hi : Inv w) (hm : m ∈ w.store.memberRows key)
    (hs : w.store.getDispatcherSnapshot e.rowOrder key = .ok snap)
    (hrem : removesDispatcher e (snap.without m.link.id) = false)
    (h : detach e m.link.id w = .err err w') (hlog : w'.failed = c :: w.failed) :
    (c.residue = .nothing ∧
        (w' = w.fail c ∨ w' = (w.withoutMember key snap.revision m).fail c)) ∨
      ∃ cfg, RebuildFailed e (detachRebuild e key snap m.link.id cfg)
        (w.withoutMember key snap.revision m) w' := by
  obtain ⟨hpin, hempty⟩ := hi.memberPinned hm hs
  rw [detach_eq] at h
  rcases bind_eq_err.1 h with h1 | ⟨record, w1, h1, h2⟩
  · have hq : Harmless (getLink e m.link.id) := (harmless_query rfl).mapErr
    rcases hq.err h1 with rfl | ⟨c', hc', rfl⟩
    · exact absurd hlog.symm (cons_ne_self _ _)
    · obtain rfl := (cons.inj hlog).1
      exact .inl ⟨hc', .inl rfl⟩
  · obtain ⟨hget, rfl⟩ := getLink_eq_ok h1
    obtain ⟨hid, hrp, hkey⟩ := memberRecord hi.store hm hget
    rw [detachPin, hrp, hpin, hkey, hid] at h2
    rcases bind_eq_err.1 h2 with h3 | ⟨_, w2, h3, h4⟩
    · obtain ⟨-, rfl⟩ := detachLink_eq_err h3
      obtain rfl := (cons.inj hlog).1
      exact .inl ⟨rfl, .inl rfl⟩
    · rcases detachLink_kept hempty h3 with rfl | rfl
      · rcases rebuildDispatcherForDetach_eq_err (by exact hs) hrem h4 with
          rfl | ⟨c', hc', rfl⟩ | ⟨cfg, err', h5⟩
        · exact absurd hlog.symm (cons_ne_self _ _)
        · obtain rfl := (cons.inj hlog).1
          exact .inl ⟨hc', .inr rfl⟩
        · exact .inr ⟨cfg, rebuildDispatcher_eq_err h5⟩
      · -- the failed call is the attempt to remove the directory: the rebuild logged nothing
        obtain ⟨rfl, hquiet⟩ := @Extends.eq_of_cons _ _ _ w1 _ _ _ _ rfl
          ((logs_rebuildDispatcherForDetach _ _).err h4) hlog
        rcases rebuildDispatcherForDetach_eq_err (by exact hs) hrem h4 with
          rfl | ⟨c', hc', rfl⟩ | ⟨cfg, err', h5⟩
        · exact .inl ⟨rfl, .inr rfl⟩
        · exact absurd hquiet (cons_ne_self _ _)
        · exact absurd hquiet
            ((journaled_rebuildDispatcher (local_detachPlan key _ _ _ cfg)).record _ _ _ h5)

/-! ## What a failed detach leaves -/

/-- Nothing is pinned in the directory. -/
def World.NoPins (w : World) (d : Dir) : Prop :=
  (∀ x ∈ w.progPins, x.1.parent ≠ d) ∧ ∀ x ∈ w.linkPins, x.1.parent ≠ d

def World.withDirs (w : World) (D : Finset Dir) : World := { w with dirs := D }

section Cleaned

variable {p : RebuildPlan}

/-- The cleanup of a detach removes the new dispatcher together with its directory. -/
theorem removeAll_loaded (hp : w.NoPins (.revision p.key p.revision)) :
    (p.loaded e w).removeAll (.revision p.key p.revision) =
      w.withDirs ((w.dirs ∪ (Dir.revision p.key p.revision).chain.toFinset).erase
        (.revision p.key p.revision)) := by
  have hprog : ((ProgPinPath.dispatcher p.key p.revision, p.disp e) :: w.progPins).filter
      (fun x => decide (x.1.parent ≠ .revision p.key p.revision)) = w.progPins := by
    rw [filter_cons_of_neg (by simp [ProgPinPath.parent])]
    exact filter_eq_self.2 fun x hx => decide_eq_true (hp.1 x hx)
  have hlink : w.linkPins.filter (fun x => decide (x.1.parent ≠ .revision p.key p.revision)) =
      w.linkPins := filter_eq_self.2 fun x hx => decide_eq_true (hp.2 x hx)
  have hmap : w.mapPins.filter (fun x => decide (x.1.parent ≠ .revision p.key p.revision)) =
      w.mapPins := by
    refine filter_eq_self.2 fun x _ => decide_eq_true ?_
    cases x.1 <;> simp [MapPinPath.parent]
  unfold World.removeAll RebuildPlan.loaded World.addProg World.mkdirAll World.withDirs
  simp only [hprog, hlink, hmap]

/-- Unlinking a pin of a directory before removing the directory makes no difference. -/
theorem removeAll_eraseLink (hq : q.parent = d) : (w.eraseLink q).removeAll d = w.removeAll d := by
  have : (w.linkPins.filter fun x => decide (x.1 ≠ q)).filter (fun x => decide (x.1.parent ≠ d)) =
      w.linkPins.filter fun x => decide (x.1.parent ≠ d) := by
    rw [filter_filter]
    refine filter_congr fun x _ => ?_
    by_cases hx : x.1 = q
    · simp [hx, hq]
    · simp [hx]
  unfold World.removeAll World.eraseLink
  simp only [this]

theorem removeAll_quiet (hq : Quiet (removeAll e d) w) :
    (removeAll e d w).state = w.removeAll d := by
  obtain ⟨_, w', h, -⟩ := (adapts_removeAll d).journaled.isOk hq
  rw [h]
  exact removeAll_eq_ok h

end Cleaned

/-- The world a detach that failed at `c` leaves: `W` is the world without the member's extension,
`d` the directory of the revision it tried to create. -/
def LeftByDetach (w W : World) (d : Dir) (c : Call) (w' : World) : Prop :=
  match c.residue with
  | .nothing => w' = w.fail c ∨ w' = W.fail c
  | .directory => w' = (W.mkdirAll d).fail c
  | .dispatcher | .extension _ => w' = (W.withDirs ((W.dirs ∪ d.chain.toFinset).erase d)).fail c
  | .filter => ∃ f, f ∉ w.filters ∧ f ∈ w'.filters

theorem cleanedUp_detach {W w1 : World} (h : (detachRebuild e key snap id cfg).CleanedUp W w1 w') :
    w' = w1.removeAll (.revision snap.key (nextRevision snap.revision)) := by
  rw [h.state]
  exact removeAll_quiet h.quiet

theorem leftByDetach_of_left {W : World} (hk : snap.key = key) (hfilters : W.filters = w.filters)
    (hp : W.NoPins (.revision key (nextRevision snap.revision)))
    (h : (detachRebuild e key snap id cfg).Left e W c w') :
    LeftByDetach w W (.revision key (nextRevision snap.revision)) c w' := by
  subst hk
  have hloaded : ((detachRebuild e snap.key snap id cfg).loaded e W).removeAll
      (.revision snap.key (nextRevision snap.revision)) = _ :=
    removeAll_loaded (e := e) (p := detachRebuild e snap.key snap id cfg) hp
  unfold RebuildPlan.Left at h
  unfold LeftByDetach
  generalize c.residue = res at h ⊢
  cases res with
  | nothing => exact .inr h
  | directory =>
    exact h
  | dispatcher =>
    rw [cleanedUp_detach h]
    exact congrArg (World.fail · c) hloaded
  | extension path =>
    rw [cleanedUp_detach h.2]
    exact congrArg (World.fail · c) ((removeAll_eraseLink h.1).trans hloaded)
  | filter =>
    obtain ⟨f, hf, h⟩ := h
    refine ⟨f, hfilters ▸ hf, ?_⟩
    rw [cleanedUp_detach h]
    exact Finset.mem_insert_self _ _

theorem World.NoPins.withoutMember (h : w.NoPins d) : (w.withoutMember key r m).NoPins d :=
  ⟨h.1, fun x hx => h.2 x (mem_filter.1 hx).1⟩

theorem RunsRevision.withoutMember {o : Nat} {rt : DispatcherRuntime}
    (h : RunsRevision w key o rt) : RunsRevision (w.withoutMember key r m) key o rt := by
  obtain ⟨Q, hQ, hpin⟩ := h
  refine ⟨Q, hQ.frame ?_ fun f _ hf => hf, hpin⟩
  exact (link?_eraseLink _ _).trans (if_neg (by simp))

/-- **A failed detach** leaves what the failed call decides. -/
theorem leftByDetach_of_failed (hi : Inv w) (hw : w.WF) (hm : m ∈ w.store.memberRows key)
    (hs : w.store.getDispatcherSnapshot e.rowOrder key = .ok snap)
    (hrem : removesDispatcher e (snap.without m.link.id) = false)
    (hp : w.NoPins (.revision key (nextRevision snap.revision)))
    (h : detach e m.link.id w = .err err w') (hlog : w'.failed = c :: w.failed) :
    LeftByDetach w (w.withoutMember key snap.revision m)
      (.revision key (nextRevision snap.revision)) c w' := by
  rcases detach_failedAt hi hm hs hrem h hlog with ⟨hres, hst⟩ | ⟨cfg, hfail⟩
  · unfold LeftByDetach
    simp only [hres]
    exact hst
  · obtain ⟨row, -, -, hsk, -⟩ := getDispatcherSnapshot_eq_ok hs
    have hruns := (hi.runsRevision hs).withoutMember (r := snap.revision) (m := m)
    have hwf : (w.withoutMember key snap.revision m).WF :=
      ⟨Table.nodup_filter hw.linkPins _, hw.filters⟩
    refine leftByDetach_of_left hsk rfl hp.withoutMember
      (left_of_failed (local_detachPlan ..) (fun ps hfree => ?_) hfail hlog)
    subst hsk
    exact @reversible_detach _ _ _ (snap.without m.link.id) _ _ _ hwf hruns hfree

/-! ## Retry -/

/-- A dispatcher that could be loaded and pinned can be loaded and pinned in any world in which its
path is free as well. -/
theorem loadAndPinDispatcher_frame {q : ProgPinPath} {id : ProgramID}
    (h : loadAndPinDispatcher e cfg q w = .ok id w') (hv : v.prog? q = w.prog? q) :
    loadAndPinDispatcher e cfg q v =
      .ok id ((v.mkdirAll q.parent).addProg q ⟨e.dispatcherID q, some cfg⟩) := by
  obtain ⟨-, -, hfree, -⟩ := loadAndPinDispatcher_eq_ok h
  obtain ⟨_, w1, h1, g1⟩ := bind_eq_ok.1 h
  obtain ⟨_, w2, h2, g2⟩ := bind_eq_ok.1 g1
  cases g2
  obtain ⟨_, w3, h3, g3⟩ := bind_eq_ok.1 h2
  obtain ⟨hf1, hst⟩ := prim_eq_ok.1 h1
  obtain ⟨hf2, hst⟩ := prim_eq_ok.1 h3
  obtain ⟨hf3, -⟩ := prim_eq_ok.1 g3
  have hpin : pinProg e q ⟨e.dispatcherID q, some cfg⟩ v =
      .ok () ((v.mkdirAll q.parent).addProg q ⟨e.dispatcherID q, some cfg⟩) := by
    refine (bind_of_ok (prim_eq_ok.2 ⟨hf2, rfl⟩)).trans (prim_eq_ok.2 ⟨hf3, ?_⟩)
    have : (v.mkdirAll q.parent).prog? q = none := hv.trans hfree
    rw [this]
    rfl
  refine (bind_of_ok (prim_eq_ok.2 ⟨hf1, rfl⟩)).trans ?_
  exact bind_of_ok hpin

/-- A rebuild that succeeded without a failure succeeds in the same way from a world with another
log, and without the directory it makes: the two runs meet once the directory is made. -/
theorem rebuildDispatcher_retry {p : RebuildPlan} (hp : p.Local) (l : List Call)
    (hD : D ∪ (Dir.revision p.key p.revision).chain.toFinset =
      w.dirs ∪ (Dir.revision p.key p.revision).chain.toFinset)
    {res : DispatcherSnapshot × List AttachedExt} (h : rebuildDispatcher e p w = .ok res w')
    (hq : w'.failed = w.failed) :
    rebuildDispatcher e p ((w.withDirs D).withLog l) = .ok res (w'.withLog l) := by
  obtain ⟨id, w1, h1, g1⟩ := bind_eq_ok.1 h
  have h1 := mapErr_eq_ok.1 h1
  have hload := loadAndPinDispatcher_frame (v := (w.withDirs D).withLog l) h1 rfl
  obtain ⟨-, -, -, rfl⟩ := loadAndPinDispatcher_eq_ok h1
  have hmeet : ((w.withDirs D).withLog l).mkdirAll (.revision p.key p.revision) =
      (w.mkdirAll (.revision p.key p.revision)).withLog l := by
    unfold World.mkdirAll World.withLog World.withDirs
    simp only [hD]
  rw [show (ProgPinPath.dispatcher p.key p.revision).parent = .revision p.key p.revision from rfl,
    hmeet] at hload
  refine (bind_of_ok (mapErr_eq_ok.2 hload)).trans ?_
  exact ok_withLog (fun t => RebuildPlan.commutes_rest hp id) g1 hq l

theorem rebuildDispatcherForDetach_retry (l : List Call)
    (hs : w.store.getDispatcherSnapshot e.rowOrder key = .ok snap)
    (hrem : removesDispatcher e (snap.without id) = false)
    (hD : D ∪ (Dir.revision key (nextRevision snap.revision)).chain.toFinset =
      w.dirs ∪ (Dir.revision key (nextRevision snap.revision)).chain.toFinset)
    (h : rebuildDispatcherForDetach e key id w = .ok () w') (hq : w'.failed = w.failed) :
    rebuildDispatcherForDetach e key id ((w.withDirs D).withLog l) = .ok () (w'.withLog l) := by
  obtain ⟨row, -, -, rfl, -⟩ := getDispatcherSnapshot_eq_ok hs
  rw [rebuildDispatcherForDetach_eq] at h ⊢
  obtain ⟨s, w1, h1, g1⟩ := bind_eq_ok.1 h
  obtain ⟨hf, hs', rfl⟩ := query_eq_ok.1 (mapErr_eq_ok.1 h1)
  obtain rfl : snap = s := Except.ok.inj (hs.symm.trans hs')
  rw [detachFrom, hrem, if_neg (by simp)] at g1
  obtain ⟨cfg, w2, h2, g2⟩ := bind_eq_ok.1 g1
  obtain ⟨hcfg, rfl⟩ := lift_eq_ok.1 (mapErr_eq_ok.1 h2)
  obtain ⟨res, w3, h3, g3⟩ := bind_eq_ok.1 g2
  obtain ⟨hq1, hq2⟩ := Extends.eq_of_eq
    ((journaled_rebuildDispatcher (local_detachPlan ..)).extend.ok h3)
    ((journaled_dropRevision _ _).extend.ok g3) hq
  refine (bind_of_ok (mapErr_eq_ok.2 (query_eq_ok.2 ⟨hf, hs, rfl⟩))).trans ?_
  rw [detachFrom, hrem, if_neg (by simp)]
  refine (bind_of_ok (mapErr_eq_ok.2 (lift_eq_ok.2 ⟨hcfg, rfl⟩))).trans ?_
  have hreb := rebuildDispatcher_retry (local_detachPlan _ (snap.without id) _ _ cfg) l hD h3 hq1
  refine (bind_of_ok hreb).trans ?_
  exact ok_withLog (adapts_removeAll _).ignore.unread g3 hq2 l

/-- The worlds a failed detach can be retried from: the world before, or the world without the
member's extension, in which the directory of the new revision may have gone. -/
inductive RetryFrom (w : World) (key : Key) (revision : Nat) (m : MemberRow) : World → Prop
  | before (l : List Call) : RetryFrom w key revision m (w.withLog l)
  | unlinked {D : Finset Dir} (l : List Call)
      (hD : D ∪ (Dir.revision key (nextRevision revision)).chain.toFinset =
        w.dirs ∪ (Dir.revision key (nextRevision revision)).chain.toFinset) :
      RetryFrom w key revision m (((w.withoutMember key revision m).withDirs D).withLog l)

theorem eraseLink_eraseLink (q : LinkPath) : (w.eraseLink q).eraseLink q = w.eraseLink q := by
  unfold eraseLink
  simp only [filter_filter, Bool.and_self]

/-- Unlinking the member's extension again is a no-op. -/
theorem detachLink_retry {l : List Call} (h : detachLink e q w = .ok () (w.eraseLink q))
    (hv : v = w.withLog l ∧ D = w.dirs ∨ v = ((w.eraseLink q).withDirs D).withLog l) :
    detachLink e q v = .ok () (((w.eraseLink q).withDirs D).withLog l) := by
  rcases hv with ⟨rfl, rfl⟩ | rfl
  · exact ok_withLog (adapts_detachLink q).unread h rfl l
  · obtain ⟨b, w1, h1, -⟩ := bind_eq_ok.1 h
    obtain ⟨hf, -⟩ := prim_eq_ok.1 h1
    have hnone : (((w.eraseLink q).withDirs D).withLog l).link? q = none :=
      (link?_eraseLink q q).trans (if_pos rfl)
    have herase : (((w.eraseLink q).withDirs D).withLog l).eraseLink q =
        ((w.eraseLink q).withDirs D).withLog l :=
      congrArg (fun v => (withDirs v D).withLog l) (eraseLink_eraseLink q)
    have hremove : removeLinkPin e q (((w.eraseLink q).withDirs D).withLog l) =
        .ok false (((w.eraseLink q).withDirs D).withLog l) := by
      refine prim_eq_ok.2 ⟨hf, ?_⟩
      rw [hnone, herase]
      rfl
    exact bind_of_ok hremove

/-- **A retry does what the first attempt would have done**, had it not failed. -/
theorem detach_retry (hi : Inv w) (hm : m ∈ w.store.memberRows key)
    (hs : w.store.getDispatcherSnapshot e.rowOrder key = .ok snap)
    (hrem : removesDispatcher e (snap.without m.link.id) = false)
    (h : detach e m.link.id w = .ok () w') (hq : w'.failed = w.failed)
    (hv : RetryFrom w key snap.revision m v) :
    detach e m.link.id v = .ok () (w'.withLog v.failed) := by
  obtain ⟨hpin, hempty⟩ := hi.memberPinned hm hs
  rw [detach_eq] at h ⊢
  obtain ⟨record, w1, h1, g1⟩ := bind_eq_ok.1 h
  obtain ⟨hf, hget, rfl⟩ := query_eq_ok.1 (mapErr_eq_ok.1 h1)
  obtain ⟨hid, hrp, hkey⟩ := memberRecord hi.store hm hget
  have hstore : v.store = w1.store := by cases hv <;> rfl
  refine (bind_of_ok (mapErr_eq_ok.2 (query_eq_ok.2 ⟨hf, hstore ▸ hget, rfl⟩))).trans ?_
  rw [detachPin, hrp, hpin, hkey, hid] at g1 ⊢
  obtain ⟨_, w2, h2, g2⟩ := bind_eq_ok.1 g1
  have hlog := Extends.eq_of_eq ((adapts_detachLink _).logs.ok h2)
    ((logs_rebuildDispatcherForDetach _ _).ok g2) hq
  obtain rfl : w2 = w1.withoutMember key snap.revision m :=
    (detachLink_kept hempty h2).resolve_right fun hw2 => by
      have := hlog.1
      rw [hw2] at this
      exact cons_ne_self _ _ this
  obtain ⟨D, hD, hcase⟩ : ∃ D, D ∪ (Dir.revision key (nextRevision snap.revision)).chain.toFinset =
      w1.dirs ∪ (Dir.revision key (nextRevision snap.revision)).chain.toFinset ∧
      (v = w1.withLog v.failed ∧ D = w1.dirs ∨
        v = ((w1.withoutMember key snap.revision m).withDirs D).withLog v.failed) := by
    cases hv with
    | before l => exact ⟨w1.dirs, rfl, .inl ⟨rfl, rfl⟩⟩
    | @unlinked D l hD => exact ⟨D, hD, .inr rfl⟩
  refine (bind_of_ok (detachLink_retry h2 hcase)).trans ?_
  exact rebuildDispatcherForDetach_retry v.failed (by exact hs) hrem hD g2 hlog.2

/-! ## When a failed detach can be retried -/

/-- A failed detach left the store as it was, the outer attachment on the old revision's dispatcher,
nothing of the revision it tried to create, and a world from which a detach without failures ends as
it would have the first time. -/
structure DetachRestored (e : Env) (id : LinkID) (row : DispatcherRow) (w w' : World) : Prop where
  store : w'.store = w.store
  runs : RunsRevision w' row.key row.revision (Store.dispatcherRuntime row)
  outer : w'.link? (.dispatcherLink row.key) = w.link? (.dispatcherLink row.key)
  filters : w'.filters = w.filters
  dir : Dir.revision row.key (nextRevision row.revision) ∉ w'.dirs
  pins : w'.NoPins (.revision row.key (nextRevision row.revision))
  retry : ∀ (e' : Env) (w₁ : World), e'.netnsExists = e.netnsExists → detach e' id w = .ok () w₁ →
    w₁.failed = w.failed → detach e' id w' = .ok () (w₁.withLog w'.failed)

/-- The failures a detach can take back: not those that leave the new directory behind, or the new
filter; and those before the directory is made, if it was not there. -/
def Recoverable (row : DispatcherRow) (w : World) (c : Call) : Prop :=
  match c.residue with
  | .nothing => Dir.revision row.key (nextRevision row.revision) ∉ w.dirs
  | .directory | .filter => False
  | .dispatcher | .extension _ => True

section Restored

variable {row : DispatcherRow} {other : MemberRow}

theorem snapshot_row (hs : w.store.Consistent)
    (hsnap : w.store.getDispatcherSnapshot ord key = .ok snap) (hrow : row ∈ w.store.dispatchers)
    (hk : row.key = key) : snap.revision = row.revision ∧ snap.runtime = dispatcherRuntime row := by
  obtain ⟨row', hrow', hk', -, hrev, hrt, -⟩ := getDispatcherSnapshot_eq_ok hsnap
  obtain rfl := Table.eq_of_key hs.dispatcherKeys hrow' hrow (hk'.trans hk.symm)
  exact ⟨hrev, hrt⟩

theorem exists_snapshot (hs : w.store.Consistent) (hrow : row ∈ w.store.dispatchers)
    (ord : RowOrder) : ∃ snap, w.store.getDispatcherSnapshot ord row.key = .ok snap ∧
      snap.revision = row.revision ∧ snap.runtime = dispatcherRuntime row := by
  obtain ⟨snap, hsnap⟩ := getDispatcherSnapshot_isOk hs ord ⟨row, hrow, rfl⟩
  exact ⟨snap, hsnap, snapshot_row hs hsnap hrow rfl⟩

theorem detachRestored_of_retryFrom (hi : Inv w) (hrow : row ∈ w.store.dispatchers)
    (hm : m ∈ w.store.memberRows row.key) (ho : other ∈ w.store.memberRows row.key)
    (hne : other.link.id ≠ m.link.id) (hns : netnsGone e row.netns = false)
    (hp : w.NoPins (.revision row.key (nextRevision row.revision)))
    (hv : RetryFrom w row.key row.revision m w')
    (hdir : Dir.revision row.key (nextRevision row.revision) ∉ w'.dirs) :
    DetachRestored e m.link.id row w w' := by
  obtain ⟨snap, hsnap, hrev, hrt⟩ := exists_snapshot hi.store hrow e.rowOrder
  have hruns : RunsRevision w row.key row.revision (dispatcherRuntime row) :=
    hrev ▸ hrt ▸ hi.runsRevision hsnap
  have hretry : ∀ (e' : Env) (w1 : World), e'.netnsExists = e.netnsExists →
      detach e' m.link.id w = .ok () w1 → w1.failed = w.failed →
      detach e' m.link.id w' = .ok () (w1.withLog w'.failed) := by
    intro e' w1 hnet h1 hq
    obtain ⟨snap', hsnap', hrev', hrt'⟩ := exists_snapshot hi.store hrow e'.rowOrder
    have hgone : netnsGone e' snap'.runtime.netnsPath = false := by
      rw [hrt']
      unfold netnsGone at hns ⊢
      rw [hnet]
      exact hns
    exact detach_retry hi hm hsnap' (removesDispatcher_eq_false hsnap' ho hne hgone) h1 hq
      (hrev'.symm ▸ hv)
  cases hv with
  | before l => exact ⟨rfl, hruns, rfl, rfl, hdir, hp, hretry⟩
  | unlinked l hD =>
    exact ⟨rfl, hruns.withoutMember, (link?_eraseLink _ _).trans (if_neg (by simp)), rfl, hdir,
      hp.withoutMember, hretry⟩

/-- **A failed detach leaves the world fit for a retry exactly when** the failed call is one it can
take back. -/
theorem detach_restored_iff (hi : Inv w) (hw : w.WF) (hrow : row ∈ w.store.dispatchers)
    (hm : m ∈ w.store.memberRows row.key) (ho : other ∈ w.store.memberRows row.key)
    (hne : other.link.id ≠ m.link.id) (hns : netnsGone e row.netns = false)
    (hp : w.NoPins (.revision row.key (nextRevision row.revision)))
    (h : detach e m.link.id w = .err err w') (hlog : w'.failed = c :: w.failed) :
    DetachRestored e m.link.id row w w' ↔ Recoverable row w c := by
  obtain ⟨snap, hsnap, hrev, hrt⟩ := exists_snapshot hi.store hrow e.rowOrder
  have hrem := removesDispatcher_eq_false hsnap ho hne (by rw [hrt]; exact hns)
  have hleft := leftByDetach_of_failed hi hw hm hsnap hrem (hrev.symm ▸ hp) h hlog
  rw [hrev] at hleft
  have hmk : ∀ {v}, RetryFrom w row.key row.revision m v →
      Dir.revision row.key (nextRevision row.revision) ∉ v.dirs →
      DetachRestored e m.link.id row w v := fun hv hd =>
    detachRestored_of_retryFrom hi hrow hm ho hne hns hp hv hd
  unfold LeftByDetach at hleft
  unfold Recoverable
  generalize c.residue = res at hleft ⊢
  cases res with
  | nothing =>
    constructor
    · intro hr
      rcases hleft with rfl | rfl <;> exact hr.dir
    · intro hd
      rcases hleft with rfl | rfl
      · exact hmk (.before (c :: w.failed)) hd
      · exact hmk (.unlinked (c :: w.failed) rfl) hd
  | directory =>
    refine iff_false_intro fun hr => hr.dir ?_
    rw [hleft]
    exact chain_subset_mkdirAll _ (by simp [Dir.chain])
  | dispatcher | extension path =>
    refine iff_true_intro ?_
    rw [hleft]
    refine hmk (.unlinked (c :: w.failed) ?_) (Finset.notMem_erase _ _)
    ext d
    simp only [Finset.mem_union, Finset.mem_erase]
    by_cases hd : d = .revision row.key (nextRevision row.revision)
    · simp [hd, Dir.chain]
    · simp only [ne_eq, hd, not_false_eq_true, true_and]
      exact ⟨fun h => h.elim id .inr, fun h => .inl h⟩
  | filter =>
    obtain ⟨f, hf, hf'⟩ := hleft
    exact iff_false_intro fun hr => hf (hr.filters ▸ hf')

/-! ## Runs that leave no pins behind -/

/-- Of each attach point only the recorded revision is pinned. -/
def Tidy (w : World) : Prop :=
  ∀ key r, w.Unpinned key r ∨ ∃ row ∈ w.store.dispatchers, row.key = key ∧ row.revision = r

/-- A successful attach or detach that can remove directories. -/
inductive TidyStep (w w' : World) : Prop
  | attach {e : Env} {spec : AttachSpec} {link : LinkRecord}
      (hf : ∀ d, e.fails (.removeAll d) = false) (h : attach e spec w = .ok link w')
  | detach {e : Env} {id : LinkID} (hf : ∀ d, e.fails (.removeAll d) = false)
      (h : detach e id w = .ok () w')

theorem TidyStep.step : TidyStep w w' → Step w w'
  | .attach _ h => .attach h
  | .detach _ h => .detach h

theorem Tidy.rebuilt {p : RebuildPlan} {ps : List Prog} {rt : DispatcherRuntime} (ht : Tidy w)
    (hst : v.store = w.store) (hpins : ∀ k n, w.Unpinned k n → v.Unpinned k n)
    (h : Rebuilt e p v w' ps rt)
    (hdrop : ∀ row ∈ w.store.dispatchers, row.key = p.key → w'.Unpinned p.key row.revision) :
    Tidy w' := by
  obtain ⟨completed, hrep⟩ := h.store
  obtain ⟨-, -, -, -, -, hdisp, -⟩ := replace_spec hrep
  rw [hst] at hdisp
  intro k n
  by_cases hnew : k = p.key ∧ n = p.revision
  · obtain ⟨rfl, rfl⟩ := hnew
    exact .inr ⟨_, hdisp ▸ mem_append_right _ (mem_singleton_self _), rfl, rfl⟩
  · rcases ht k n with hu | ⟨row, hrow, rfl, rfl⟩
    · exact .inl (h.others k n hnew (hpins k n hu))
    · by_cases hk : row.key = p.key
      · exact .inl (hk ▸ hdrop row hrow hk)
      · refine .inr ⟨row, ?_, rfl, rfl⟩
        rw [hdisp]
        exact mem_append_left _ (mem_filter.2 ⟨hrow, decide_eq_true hk⟩)

theorem Tidy.step (hi : Inv w) (ht : Tidy w) (h : TidyStep w w') : Tidy w' := by
  cases h with
  | attach hf h =>
    obtain ⟨key, snap, a, cfg, ps, rt, hrun⟩ := attachRun_of_ok hi h
    refine ht.rebuilt rfl (fun _ _ h => h) hrun.rebuilt fun row hrow hk => ?_
    rcases hrun.snapshot with ⟨s, hs, hget⟩ | ⟨-, hno⟩
    · exact (snapshot_row hi.store hget hrow hk).1 ▸ hrun.dropped s hs (hf _)
    · exact absurd hk (hno row hrow)
  | detach hf h =>
    cases detachRun_of_ok hi h with
    | plain l hl hid hkind hstore hprog _ hlink =>
      intro k n
      rw [hstore]
      exact (ht k n).imp_left fun hu => ⟨by rw [prog?, hprog]; exact hu.1,
        fun i => (hlink k _ (.inr ⟨n, i, rfl⟩)).trans (hu.2 i)⟩
    | removed m snap hm hid hsnap hrem hstore frame hpins hdrop =>
      have hdisp := congrArg dispatchers (Store.deleteDispatcherSnapshot_eq_ok hstore)
      intro k n
      rcases ht k n with hu | ⟨row, hrow, rfl, rfl⟩
      · exact .inl (hpins k n hu)
      · by_cases hk : row.key = m.detail.key
        · exact .inl (hk ▸ (snapshot_row hi.store hsnap hrow hk).1 ▸ hdrop (hf _))
        · exact .inr ⟨row, hdisp ▸ mem_filter.2 ⟨hrow, decide_eq_true hk⟩, rfl, rfl⟩
    | rebuilt m snap cfg ps rt w₁ hm hid hsnap hrem hst hfil hprog hcfg hreb frame hpins hdrop =>
      obtain ⟨_, -, -, hsk, -⟩ := getDispatcherSnapshot_eq_ok hsnap
      refine ht.rebuilt hst hpins hreb fun row hrow hk => ?_
      have hk : row.key = snap.key := hk
      exact (snapshot_row hi.store hsnap hrow (hk.trans hsk)).1 ▸ hsk ▸ hdrop (hf _)

theorem World.Unpinned.noPins {n : Nat} (h : w.Unpinned key n) : w.NoPins (.revision key n) := by
  constructor <;> rintro ⟨q, x⟩ hx hq <;> cases q <;> cases hq
  · exact Table.lookup_eq_none.1 h.1 _ hx rfl
  · exact Table.lookup_eq_none.1 (h.2 _) _ hx rfl

theorem tidy_run (hi : Inv w) (ht : Tidy w) (h : Relation.ReflTransGen TidyStep w w') :
    Inv w' ∧ Tidy w' := by
  induction h with
  | refl => exact ⟨hi, ht⟩
  | tail _ hstep ih => exact ⟨inv_step ih.1 hstep.step, ih.2.step ih.1 hstep⟩

/-- **Nothing is pinned for the next revision** of a dispatcher, after a run that could remove what
it replaced. -/
theorem noPins_of_run (hi : Inv w) (ht : Tidy w) (h : Relation.ReflTransGen TidyStep w w')
    (hrow : row ∈ w'.store.dispatchers) :
    w'.NoPins (.revision row.key (nextRevision row.revision)) := by
  obtain ⟨hi', ht'⟩ := tidy_run hi ht h
  rcases ht' row.key (nextRevision row.revision) with hu | ⟨row', hrow', hk, hrev⟩
  · exact hu.noPins
  · rw [Table.eq_of_key hi'.store.dispatcherKeys hrow' hrow hk] at hrev
    exact absurd hrev.symm (nextRevision_ne _)

end Restored

namespace Sample

/-- Two XDP programs attached to one interface; the dispatcher is at revision 2. -/
@[irreducible] def twoMembers : World := attached [xdp 1 [], xdp 2 []]

theorem twoMembers_run : Run world twoMembers := by
  unfold twoMembers
  exact run_attachAll (by decide +kernel)

theorem twoMembers_inv : Inv twoMembers := inv_run fresh.inv twoMembers_run

/-- The attach and the load step of the detach rebuild that fail. -/
def reattachFault : Call := .freplace (.extension xdpKey 3 0)

def loadFault : Call := .pinProg (.dispatcher xdpKey 3)

end Sample

open Sample

/-- A detach that fails to attach the remaining program again can be retried. -/
theorem detach_restored_iff_sample :
    let w := twoMembers
    let o := detach (env 3 [reattachFault]) 1 w
    o.isOk = false ∧ o.state.failed = reattachFault :: w.failed ∧
      ∃ row ∈ w.store.dispatchers, row.revision = 2 ∧
        DetachRestored (env 3 [reattachFault]) 1 row w o.state := by
  have hok : (detach (env 3 [reattachFault]) 1 twoMembers).isOk = false := by
    decide +kernel
  have hlog : (detach (env 3 [reattachFault]) 1 twoMembers).state.failed =
      reattachFault :: twoMembers.failed := by decide +kernel
  have hrows : ∃ row ∈ twoMembers.store.dispatchers, row.revision = 2 ∧
      netnsGone (env 3 [reattachFault]) row.netns = false ∧
      (∀ x ∈ twoMembers.progPins, x.1.parent ≠ .revision row.key (nextRevision row.revision)) ∧
      (∀ x ∈ twoMembers.linkPins, x.1.parent ≠ .revision row.key (nextRevision row.revision)) ∧
      ∃ m ∈ twoMembers.store.memberRows row.key, m.link.id = 1 ∧
        ∃ other ∈ twoMembers.store.memberRows row.key, other.link.id ≠ 1 := by
    decide +kernel
  obtain ⟨row, hrow, hrev, hns, hp1, hp2, m, hm, hid, other, ho, hne⟩ := hrows
  refine ⟨hok, hlog, row, hrow, hrev, ?_⟩
  cases h : detach (env 3 [reattachFault]) 1 twoMembers with
  | ok a w' => simp [h] at hok
  | err er w' =>
    rw [h] at hlog
    have hwf : twoMembers.WF := ⟨by decide +kernel, by decide +kernel⟩
    rw [← hid] at h ⊢
    exact (detach_restored_iff twoMembers_inv hwf hrow hm ho (hid ▸ hne) hns ⟨hp1, hp2⟩ h
      hlog).2 trivial

/-- A detach that cannot pin the new dispatcher leaves the directory it made for it. -/
theorem detach_leaves_directory :
    let w := twoMembers
    let o := detach (env 3 [loadFault]) 1 w
    Inv w ∧ o.isOk = false ∧ o.state.failed = loadFault :: w.failed ∧
      Dir.revision xdpKey 3 ∉ w.dirs ∧ Dir.revision xdpKey 3 ∈ o.state.dirs ∧
      ∃ row ∈ w.store.dispatchers, row.revision = 2 ∧
        ¬ DetachRestored (env 3 [loadFault]) 1 row w o.state := by
  have hdir : Dir.revision xdpKey 3 ∈
      (detach (env 3 [loadFault]) 1 twoMembers).state.dirs := by decide +kernel
  have hrow : ∃ row ∈ twoMembers.store.dispatchers, row.revision = 2 ∧
      Dir.revision row.key (nextRevision row.revision) = .revision xdpKey 3 := by
    decide +kernel
  obtain ⟨row, hrow, hrev, hnext⟩ := hrow
  refine ⟨twoMembers_inv, by decide +kernel, by decide +kernel, by decide +kernel, hdir, row,
    hrow, hrev, fun h => ?_⟩
  have := h.dir
  rw [hnext] at this
  exact this hdir

end Bpfman
