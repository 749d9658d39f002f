import Bpfman.Release
import Bpfman.TCXRun

/-!
# Removing the last member of a dispatcher

`removeEmptyDispatcher` detaches the outer attachment and then cleans up. The detach is meant to be
the point of no return: an error before it leaves everything as it was, and after it only a row that
could not be deleted is reported, with the dispatcher offline.

The detach of an XDP link has two stages of its own, the kernel's detach and the removal of the pin.
`Staged` adds to the world which pinned links the kernel has detached already; without that it is
the run of the world (`removeEmptyDispatcherStaged_eq`).

* `detachOuter_cases` — the two outcomes of the detach;
* `removal_contract_iff` — the contract over every choice of failing primitives, and what a second
  run leaves of whatever the first one left: it fails for the error of a pin that could not be
  removed once the kernel had detached its link.
-/

namespace Bpfman

open Fallible Proc

variable {e : Env} {w w' : World} {s s' : Store} {key : Key} {snap : DispatcherSnapshot}

/-! ## The outer attachment -/

/-- Packets at the attach point reach the dispatcher: its outer link is there or, in a namespace
that is there, the filter recorded for it. The kernel gives no filter the handle 0. -/
def PacketsReach (e : Env) (w : World) (snap : DispatcherSnapshot) : Prop :=
  if isTCDispatcherType snap.key.type then
    netnsPresent e snap.runtime.netnsPath = true ∧ ∃ f ∈ w.filters, f.handle ≠ 0 ∧
      f.key = snap.key ∧ snap.runtime.filterHandle = some f.handle ∧
      f.priority = snap.runtime.filterPriority.getD 0
  else (w.link? (.dispatcherLink snap.key)).isSome = true

instance : Decidable (PacketsReach e w snap) := inferInstanceAs (Decidable (ite _ _ _))

/-- What reaches a dispatcher does not grow when links and filters only go. -/
theorem PacketsReach.mono (h : PacketsReach e w' snap)
    (hlink : w.link? (.dispatcherLink snap.key) = none → w'.link? (.dispatcherLink snap.key) = none)
    (hfilters : w'.filters ⊆ w.filters) : PacketsReach e w snap := by
  unfold PacketsReach at h ⊢
  by_cases htc : isTCDispatcherType snap.key.type = true
  · rw [if_pos htc] at h ⊢
    obtain ⟨hns, f, hf, hrest⟩ := h
    exact ⟨hns, f, hfilters hf, hrest⟩
  · rw [if_neg htc] at h ⊢
    by_contra hnone
    rw [hlink (Option.not_isSome_iff_eq_none.1 hnone)] at h
    cases h

theorem detachTCDispatcherFilter_cases (htc : isTCDispatcherType snap.key.type = true) (w : World) :
    (∃ err c, e.fails c = true ∧ detachTCDispatcherFilter e snap w = .err err (w.fail c)) ∨
      ∃ w', detachTCDispatcherFilter e snap w = .ok () w' ∧ w'.store = w.store ∧
        ¬ PacketsReach e w' snap := by
  unfold detachTCDispatcherFilter PacketsReach
  simp only [htc, if_true]
  cases hh : snap.runtime.filterHandle with
  | none => exact .inr ⟨w, rfl, rfl, by simp⟩
  | some handle =>
    by_cases hz : handle = 0
    · subst hz
      refine .inr ⟨w, rfl, rfl, ?_⟩
      rintro ⟨-, f, -, hne, -, hf, -⟩
      exact hne (Option.some.inj hf).symm
    · simp only [ne_eq, hz, not_false_eq_true, if_true]
      by_cases hns : netnsPresent e snap.runtime.netnsPath = true
      · rw [detachTCFilter, if_pos hns, prim]
        by_cases hfails : e.fails (.delFilter snap.key (snap.runtime.filterPriority.getD 0) handle)
        · exact .inl ⟨_, _, hfails, if_pos hfails⟩
        · refine .inr ⟨_, if_neg hfails, rfl, ?_⟩
          rintro ⟨-, f, hf, -, hkey, hhandle, hprio⟩
          obtain ⟨-, hnot⟩ := Finset.mem_filter.1 hf
          exact hnot ⟨hkey, hprio, (Option.some.inj hhandle).symm⟩
      · rw [detachTCFilter, if_neg hns]
        exact .inr ⟨w, rfl, rfl, fun h => hns h.1⟩

theorem detachLink_of_fails {p : LinkPath} (h : e.fails (.removeLink p) = true) (w : World) :
    detachLink e p w = .err (.call (.removeLink p)) (w.fail (.removeLink p)) := by
  refine bind_of_err ?_
  rw [removeLinkPin, prim, if_pos h]

theorem detachLink_of_not_fails {p : LinkPath} (h : e.fails (.removeLink p) = false) (w : World) :
    ∃ w', detachLink e p w = .ok () w' ∧ w'.store = w.store ∧ w'.link? p = none := by
  obtain ⟨hok, hnone⟩ := detachLink_link? h w
  obtain ⟨u, hdet⟩ := Outcome.eq_ok_of_isOk hok
  exact ⟨_, hdet, (adapts_detachLink p).store.ok hdet, hnone⟩

/-- **The detach** changes nothing and reports an error, or takes the dispatcher offline. -/
theorem detachOuter_cases (snap : DispatcherSnapshot) (w : World) :
    (∃ err c, e.fails c = true ∧ detachOuter e snap w = .err err (w.fail c)) ∨
      ∃ w', detachOuter e snap w = .ok () w' ∧ w'.store = w.store ∧ ¬ PacketsReach e w' snap := by
  unfold detachOuter
  by_cases htc : isTCDispatcherType snap.key.type = true
  · rw [if_pos htc]
    rcases detachTCDispatcherFilter_cases (e := e) htc w with ⟨err, c, hc, h⟩ | ⟨w', h, hrest⟩
    · exact .inl ⟨_, c, hc, mapErr_eq_err.2 ⟨err, h, rfl⟩⟩
    · exact .inr ⟨w', mapErr_eq_ok.2 h, hrest⟩
  · rw [if_neg htc]
    by_cases hf : e.fails (.removeLink (.dispatcherLink snap.key)) = true
    · exact .inl ⟨_, _, hf, mapErr_eq_err.2 ⟨_, detachLink_of_fails hf w, rfl⟩⟩
    · obtain ⟨w', h, hst, hnone⟩ := detachLink_of_not_fails (Bool.not_eq_true _ ▸ hf) w
      refine .inr ⟨w', mapErr_eq_ok.2 h, hst, ?_⟩
      rw [PacketsReach, if_neg htc, hnone]
      exact Bool.false_ne_true

/-! ## The cleanup -/

/-- The world after the program pin and the revision directory are removed, whatever that
returns. -/
def cleanedUp (e : Env) (snap : DispatcherSnapshot) (w : World) : World :=
  (removeAll e (.revision snap.key snap.revision)
    (removePin e (.dispatcher snap.key snap.revision) w).state).state

theorem removeEmptyDispatcher_of_detached (h : detachOuter e snap w = .ok () w') :
    removeEmptyDispatcher e snap w = mapErr (.wrap "delete dispatcher snapshot")
      (deleteDispatcherSnapshot e snap.key) (cleanedUp e snap w') := by
  rw [removeEmptyDispatcher_eq, bind_of_ok h, ignore_bind, ignore_bind]
  rfl

theorem cleanedUp_frame (e : Env) (snap : DispatcherSnapshot) (w : World) :
    (cleanedUp e snap w).store = w.store ∧
      (PacketsReach e (cleanedUp e snap w) snap → PacketsReach e w snap) := by
  have hpin : (removePin e (.dispatcher snap.key snap.revision) w).state.store = w.store ∧
      (removePin e (.dispatcher snap.key snap.revision) w).state.linkPins = w.linkPins ∧
      (removePin e (.dispatcher snap.key snap.revision) w).state.filters = w.filters := by
    unfold removePin prim
    split <;> exact ⟨rfl, rfl, rfl⟩
  have hdir : ∀ w : World, (removeAll e (.revision snap.key snap.revision) w).state.store =
      w.store ∧ (w.link? (.dispatcherLink snap.key) = none →
        (removeAll e (.revision snap.key snap.revision) w).state.link?
          (.dispatcherLink snap.key) = none) ∧
      (removeAll e (.revision snap.key snap.revision) w).state.filters = w.filters := by
    intro w
    unfold removeAll prim
    split
    · exact ⟨rfl, id, rfl⟩
    · refine ⟨rfl, fun hnone => ?_, rfl⟩
      exact (World.link?_removeAll ..).trans ((if_neg (by simp [LinkPath.parent])).trans hnone)
  obtain ⟨hst, hlink, hfil⟩ := hdir (removePin e (.dispatcher snap.key snap.revision) w).state
  refine ⟨hst.trans hpin.1, fun h => h.mono (fun hnone => hlink ?_) ?_⟩
  · unfold World.link? at hnone ⊢
    rw [hpin.2.1]
    exact hnone
  · rw [cleanedUp, hfil, hpin.2.2]

/-- With no failing primitive the revision directory is gone, with the pins in it. -/
theorem cleanedUp_removed (h : e.fails (.removeAll (.revision snap.key snap.revision)) = false)
    (w : World) :
    Dir.revision snap.key snap.revision ∉ (cleanedUp e snap w).dirs ∧
      (∀ x ∈ (cleanedUp e snap w).progPins, x.1.parent ≠ .revision snap.key snap.revision) ∧
      ∀ x ∈ (cleanedUp e snap w).linkPins, x.1.parent ≠ .revision snap.key snap.revision := by
  unfold cleanedUp
  rw [removeAll, prim, h]
  simp [World.removeAll]

/-! ## The row -/

theorem deleteDispatcherSnapshot_isOk (hs : s.Consistent)
    (hrow : ∃ r ∈ s.dispatchers, r.key = key) : ∃ s', s.deleteDispatcherSnapshot key = .ok s' := by
  have href : (s.deleteLinks (s.attachPointLinks key)).dispatcherReferenced key = false := by
    by_contra h
    rw [Bool.not_eq_false, Store.dispatcherReferenced, List.any_eq_true] at h
    obtain ⟨r, hr, h⟩ := h
    obtain ⟨hrk, h⟩ := Bool.and_eq_true_iff.1 h
    obtain ⟨d, hd, hid⟩ := List.any_eq_true.1 h
    -- a row that references the dispatcher is one of its attach point
    obtain ⟨hd, hne⟩ := (Store.mem_deleteAttachPoint_details hs).1 hd
    obtain ⟨r', hr', hrk', hid', -⟩ := hs.detailDispatcher d hd
    obtain rfl := Table.eq_of_key hs.dispatcherIDs hr' hr (hid'.trans (of_decide_eq_true hid))
    exact hne (hrk'.symm.trans (of_decide_eq_true hrk))
  have hany : s.dispatchers.any (fun r => decide (r.key = key)) = true := by
    simpa [List.any_eq_true] using hrow
  unfold Store.deleteDispatcherSnapshot
  simp only [href, Bool.false_eq_true, if_false, hany, if_true]
  exact ⟨_, rfl⟩

/-- The attach point has no row and no member. -/
def Store.Clear (s : Store) (key : Key) : Prop :=
  (∀ r ∈ s.dispatchers, r.key ≠ key) ∧ ∀ d ∈ s.details, d.key ≠ key

theorem clear_of_deleted (hs : s.Consistent) (h : s.deleteDispatcherSnapshot key = .ok s') :
    s'.Clear key := by
  rw [Store.deleteDispatcherSnapshot_eq_ok h]
  refine ⟨fun r hr => ?_, fun d hd => ((Store.mem_deleteAttachPoint_details hs).1 hd).2⟩
  simpa using (List.mem_filter.1 hr).2

theorem deleteDispatcherSnapshot_frame (e : Env) (key : Key) (w : World) :
    (deleteDispatcherSnapshot e key w).state.dirs = w.dirs ∧
      (deleteDispatcherSnapshot e key w).state.linkPins = w.linkPins ∧
      (deleteDispatcherSnapshot e key w).state.filters = w.filters :=
  keeps_write (R := fun w w' => w'.dirs = w.dirs ∧ w'.linkPins = w.linkPins ∧
    w'.filters = w.filters) (fun _ _ => ⟨rfl, rfl, rfl⟩) (fun _ _ _ => ⟨rfl, rfl, rfl⟩) w

theorem deleteDispatcherSnapshot_clear (hs : w.store.Consistent)
    (hfails : e.fails (.deleteDispatcherSnapshot key) = false) :
    (deleteDispatcherSnapshot e key w).state.store.Clear key := by
  by_cases hrow : ∃ r ∈ w.store.dispatchers, r.key = key
  · obtain ⟨s', hdel⟩ := deleteDispatcherSnapshot_isOk hs hrow
    have hok : deleteDispatcherSnapshot e key w = .ok () { w with store := s' } :=
      primErr_eq_ok.2 ⟨hfails, by rw [hdel]; rfl⟩
    rw [hok]
    exact clear_of_deleted hs hdel
  · -- no row, so no member references one, and there is nothing to delete
    have hclear : w.store.Clear key := by
      refine ⟨fun r hr hk => hrow ⟨r, hr, hk⟩, fun d hd hk => ?_⟩
      obtain ⟨r, hr, hrk, -⟩ := hs.detailDispatcher d hd
      exact hrow ⟨r, hr, hrk.trans hk⟩
    refine keeps_write (R := fun w w' => w.store.Consistent → w.store.Clear key →
      w'.store.Clear key) (fun _ _ _ h => h) (fun w s' hdel hs _ => ?_) w hs hclear
    exact clear_of_deleted hs hdel

/-- A dispatcher that is offline before the row is deleted is so afterwards. -/
theorem not_packetsReach_delete (h : ¬ PacketsReach e w snap) :
    ¬ PacketsReach e (deleteDispatcherSnapshot e snap.key w).state snap := by
  obtain ⟨-, hlinks, hfilters⟩ := deleteDispatcherSnapshot_frame e snap.key w
  refine fun hreach => h (hreach.mono (fun hnone => ?_) (by rw [hfilters]))
  unfold World.link? at hnone ⊢
  rw [hlinks]
  exact hnone

/-- Once the detach is through, the dispatcher is offline at the end of the run. -/
theorem removeEmptyDispatcher_offline (h : detachOuter e snap w = .ok () w')
    (hoff : ¬ PacketsReach e w' snap) :
    ¬ PacketsReach e (removeEmptyDispatcher e snap w).state snap := by
  rw [removeEmptyDispatcher_of_detached h, mapErr_state]
  exact not_packetsReach_delete fun hreach => hoff ((cleanedUp_frame e snap w').2 hreach)

/-- After a run with no failing primitive the attach point is clear, the revision directory gone and
the dispatcher offline. -/
structure Cleared (e : Env) (w : World) (snap : DispatcherSnapshot) : Prop where
  clear : w.store.Clear snap.key
  directory : Dir.revision snap.key snap.revision ∉ w.dirs
  pin : ∀ x ∈ w.linkPins, x.1.parent ≠ .revision snap.key snap.revision
  offline : ¬ PacketsReach e w snap

theorem removeEmptyDispatcher_gone (hs : w.store.Consistent) (hfails : ∀ c, e.fails c = false)
    (snap : DispatcherSnapshot) : Cleared e (removeEmptyDispatcher e snap w).state snap := by
  rcases detachOuter_cases (e := e) snap w with ⟨err, c, hc, -⟩ | ⟨w1, h, hst, hoff⟩
  · rw [hfails c] at hc
    cases hc
  · obtain ⟨hstore, -⟩ := cleanedUp_frame e snap w1
    obtain ⟨hdir, -, hpin⟩ := cleanedUp_removed (hfails _) w1
    obtain ⟨hdirs, hlinks, -⟩ := deleteDispatcherSnapshot_frame e snap.key (cleanedUp e snap w1)
    have hoff' := removeEmptyDispatcher_offline h hoff
    rw [removeEmptyDispatcher_of_detached h, mapErr_state] at hoff' ⊢
    refine ⟨deleteDispatcherSnapshot_clear ?_ (hfails _), ?_, ?_, hoff'⟩
    · rw [hstore, hst]
      exact hs
    · rw [hdirs]
      exact hdir
    · rw [hlinks]
      exact hpin

/-! ## The stages of a detach -/

/-- The world, with the pinned links that the kernel has detached. -/
structure Staged where
  world : World
  offline : Finset LinkPath := ∅
  deriving DecidableEq

/-- An outcome in the world, beside what is offline. -/
def Staged.beside {α : Type} (offline : Finset LinkPath) :
    Outcome World Err α → Outcome Staged Err α
  | .ok a w => .ok a ⟨w, offline⟩
  | .err err w => .err err ⟨w, offline⟩

/-- A step that concerns the world only. -/
def onWorld {α : Type} (m : M α) : Proc Staged Err α := fun s => Staged.beside s.offline (m s.world)

/-- The first stage of `DetachLink`: open the pinned link and ask the kernel to detach it. Where
either is refused there is a warning only. -/
def kernelDetach (refused : LinkPath → Bool) (p : LinkPath) : Proc Staged Err Unit :=
  modify fun s =>
    if (s.world.link? p).isSome ∧ refused p = false then { s with offline := insert p s.offline }
    else s

/-- `DetachLink`, stage by stage: the kernel's detach, then the pin and its directory. -/
def detachLinkStaged (e : Env) (refused : LinkPath → Bool) (p : LinkPath) :
    Proc Staged Err Unit := do
  kernelDetach refused p
  onWorld (detachLink e p)
  modify fun s => { s with offline := s.offline.erase p }

/-- `removeEmptyDispatcher`, with the stages of its detach. -/
def removeEmptyDispatcherStaged (e : Env) (refused : LinkPath → Bool) (snap : DispatcherSnapshot) :
    Proc Staged Err Unit := do
  if isTCDispatcherType snap.key.type then
    onWorld (mapErr (.wrap "detach TC dispatcher filter") (detachTCDispatcherFilter e snap))
  else
    mapErr (.wrap "detach XDP outer link") (detachLinkStaged e refused (.dispatcherLink snap.key))
  onWorld (ignore (removePin e (.dispatcher snap.key snap.revision)))
  onWorld (ignore (removeAll e (.revision snap.key snap.revision)))
  onWorld (mapErr (.wrap "delete dispatcher snapshot") (deleteDispatcherSnapshot e snap.key))

/-- Packets reach the dispatcher: as `PacketsReach`, but not over a link the kernel has detached. -/
def Staged.PacketsReach (e : Env) (s : Staged) (snap : DispatcherSnapshot) : Prop :=
  Bpfman.PacketsReach e s.world snap ∧
    (isTCDispatcherType snap.key.type = false → .dispatcherLink snap.key ∉ s.offline)

instance (st : Staged) : Decidable (st.PacketsReach e snap) :=
  inferInstanceAs (Decidable (_ ∧ (_ → _)))

section Stages

variable {st : Staged} {refused : LinkPath → Bool} {p : LinkPath} {α β : Type}

@[simp] theorem Staged.state_beside (offline : Finset LinkPath) (o : Outcome World Err α) :
    (Staged.beside offline o).state = ⟨o.state, offline⟩ := by
  cases o <;> rfl

/-- Steps of the world after one that ends as a step of the world does. -/
theorem Staged.beside_bind {m : Proc Staged Err α} {m' : M α} {offline : Finset LinkPath}
    (h : m st = Staged.beside offline (m' st.world)) (f : α → M β) :
    (m >>= fun a => onWorld (f a)) st = Staged.beside offline ((m' >>= f) st.world) := by
  rw [bind_apply, bind_apply, h]
  cases m' st.world <;> rfl

theorem onWorld_bind (m : M α) (f : α → M β) :
    (onWorld m >>= fun a => onWorld (f a)) = onWorld (m >>= f) :=
  funext fun _ => Staged.beside_bind rfl f

/-- What is offline after the kernel was asked to detach the link. -/
def Staged.detached (refused : LinkPath → Bool) (p : LinkPath) (st : Staged) : Finset LinkPath :=
  if (st.world.link? p).isSome ∧ refused p = false then insert p st.offline else st.offline

theorem kernelDetach_apply :
    kernelDetach refused p st = .ok () ⟨st.world, st.detached refused p⟩ := by
  unfold kernelDetach Staged.detached
  rw [modify_apply]
  split <;> rfl

/-- A detach ends as in the world, with the link offline where its pin could not be removed. -/
theorem detachLinkStaged_eq :
    detachLinkStaged e refused p st = Staged.beside
      (if e.fails (.removeLink p) then st.detached refused p else (st.detached refused p).erase p)
      (detachLink e p st.world) := by
  refine (bind_of_ok kernelDetach_apply).trans ?_
  rw [bind_apply, onWorld]
  by_cases hf : e.fails (.removeLink p) = true
  · rw [if_pos hf, detachLink_of_fails hf]
    rfl
  · rw [if_neg hf]
    obtain ⟨w', h, -⟩ := detachLink_of_not_fails (Bool.not_eq_true _ ▸ hf) st.world
    rw [h]
    rfl

/-- What is offline when a dispatcher's outer attachment has been dealt with. -/
def offlineAfter (e : Env) (refused : LinkPath → Bool) (snap : DispatcherSnapshot) (st : Staged) :
    Finset LinkPath :=
  let p := LinkPath.dispatcherLink snap.key
  if isTCDispatcherType snap.key.type then st.offline
  else if e.fails (.removeLink p) then st.detached refused p
  else (st.detached refused p).erase p

/-- **The stages refine the removal**: forgetting which links are offline, a staged run is the run
of the world. -/
theorem removeEmptyDispatcherStaged_eq (e : Env) (refused : LinkPath → Bool)
    (snap : DispatcherSnapshot) (st : Staged) :
    removeEmptyDispatcherStaged e refused snap st =
      Staged.beside (offlineAfter e refused snap st) (removeEmptyDispatcher e snap st.world) := by
  unfold removeEmptyDispatcherStaged
  rw [removeEmptyDispatcher_eq, onWorld_bind, onWorld_bind]
  by_cases htc : isTCDispatcherType snap.key.type = true
  · have houter : detachOuter e snap =
        mapErr (.wrap "detach TC dispatcher filter") (detachTCDispatcherFilter e snap) :=
      if_pos htc
    simp only [htc, if_true, houter, offlineAfter]
    exact Staged.beside_bind rfl _
  · have houter : detachOuter e snap =
        mapErr (.wrap "detach XDP outer link") (detachLink e (.dispatcherLink snap.key)) :=
      if_neg htc
    simp only [htc, if_false, houter, offlineAfter, Bool.false_eq_true]
    refine Staged.beside_bind ?_ _
    unfold mapErr
    rw [detachLinkStaged_eq]
    cases detachLink e (.dispatcherLink snap.key) st.world <;> rfl

/-! ## The contract -/

/-- The kernel detach completes: the filter is deleted or, for an outer link, the kernel detaches it
or the removal of its pin drops it. -/
def KernelDetached (e : Env) (refused : LinkPath → Bool) (snap : DispatcherSnapshot) (st : Staged) :
    Prop :=
  if isTCDispatcherType snap.key.type then (detachTCDispatcherFilter e snap st.world).isOk = true
  else ((st.world.link? (.dispatcherLink snap.key)).isSome = true ∧
      refused (.dispatcherLink snap.key) = false) ∨
    e.fails (.removeLink (.dispatcherLink snap.key)) = false

/-- The contract of removing a dispatcher. -/
structure RemovalContract (e : Env) (refused : LinkPath → Bool) (snap : DispatcherSnapshot)
    (st : Staged) : Prop where
  untouched : ∀ {err st'}, removeEmptyDispatcherStaged e refused snap st = .err err st' →
    ¬ KernelDetached e refused snap st → OnlyLogs st.world st'.world ∧ st'.offline = st.offline
  reported : ∀ {err st'}, removeEmptyDispatcherStaged e refused snap st = .err err st' →
    KernelDetached e refused snap st → ∃ cause, err = .wrap "delete dispatcher snapshot" cause
  offline : KernelDetached e refused snap st →
    ¬ (removeEmptyDispatcherStaged e refused snap st).state.PacketsReach e snap
  retry : ∀ (e' : Env) (refused' : LinkPath → Bool), (∀ c, e'.fails c = false) →
    Cleared e' (removeEmptyDispatcherStaged e' refused' snap
      (removeEmptyDispatcherStaged e refused snap st).state).state.world snap

theorem removeEmptyDispatcher_err {err : Err} (h : detachOuter e snap w = .ok () w')
    {w₁ : World} (herr : removeEmptyDispatcher e snap w = .err err w₁) :
    ∃ cause, err = .wrap "delete dispatcher snapshot" cause := by
  rw [removeEmptyDispatcher_of_detached h] at herr
  obtain ⟨cause, -, rfl⟩ := mapErr_eq_err.1 herr
  exact ⟨cause, rfl⟩

theorem Staged.beside_eq_err {o : Outcome World Err α} {offline : Finset LinkPath} {err : Err}
    {st' : Staged} (h : Staged.beside offline o = .err err st') :
    o = .err err st'.world ∧ st'.offline = offline := by
  cases o with
  | ok a w => cases h
  | err x w =>
    cases h
    exact ⟨rfl, rfl⟩

/-- A second run clears whatever the first one left. -/
theorem retry_gone (hs : st.world.store.Consistent) {e' : Env} (refused' : LinkPath → Bool)
    (hfails : ∀ c, e'.fails c = false) :
    Cleared e' (removeEmptyDispatcherStaged e' refused' snap
      (removeEmptyDispatcherStaged e refused snap st).state).state.world snap := by
  rw [removeEmptyDispatcherStaged_eq, Staged.state_beside, removeEmptyDispatcherStaged_eq,
    Staged.state_beside]
  refine removeEmptyDispatcher_gone ?_ hfails snap
  rcases removeEmptyDispatcher_store (e := e) snap st.world with h | h
  · rw [h]
    exact hs
  · exact Store.consistent_deleteSnapshot hs h

theorem kernelDetached_of_ok (h : detachOuter e snap st.world = .ok () w) :
    KernelDetached e refused snap st := by
  unfold detachOuter at h
  unfold KernelDetached
  by_cases htc : isTCDispatcherType snap.key.type = true
  · rw [if_pos htc] at h ⊢
    rw [mapErr_eq_ok.1 h]
    rfl
  · rw [if_neg htc] at h ⊢
    refine .inr (Bool.eq_false_iff.2 fun hf => ?_)
    have hdet := mapErr_eq_ok.1 h
    rw [detachLink_of_fails hf] at hdet
    cases hdet

/-- Where the outer link's pin can be removed, or the kernel did not detach the link, a failed
detach is one the kernel did not complete. -/
theorem not_kernelDetached_of_err {err : Err} (hcond : isTCDispatcherType snap.key.type = true ∨
      e.fails (.removeLink (.dispatcherLink snap.key)) = false ∨
      st.world.link? (.dispatcherLink snap.key) = none ∨
      refused (.dispatcherLink snap.key) = true)
    (h : detachOuter e snap st.world = .err err w) : ¬ KernelDetached e refused snap st := by
  unfold detachOuter at h
  unfold KernelDetached
  by_cases htc : isTCDispatcherType snap.key.type = true
  · rw [if_pos htc] at h ⊢
    obtain ⟨cause, hdet, -⟩ := mapErr_eq_err.1 h
    rw [hdet]
    exact Bool.false_ne_true
  · rw [if_neg htc] at h ⊢
    have hf : e.fails (.removeLink (.dispatcherLink snap.key)) = true := by
      by_contra hf
      obtain ⟨w', hdet, -⟩ := detachLink_of_not_fails (Bool.not_eq_true _ ▸ hf) st.world
      rw [mapErr_eq_ok.2 hdet] at h
      cases h
    rintro (⟨hpin, href⟩ | hf')
    · rcases hcond with h1 | h1 | h1 | h1
      · exact htc h1
      · rw [hf] at h1
        cases h1
      · rw [h1] at hpin
        cases hpin
      · rw [href] at h1
        cases h1
    · rw [hf] at hf'
      cases hf'

/-- A detach that the kernel did not complete leaves the links that are offline. -/
theorem offlineAfter_of_not_detached (h : ¬ KernelDetached e refused snap st) :
    offlineAfter e refused snap st = st.offline := by
  unfold KernelDetached at h
  unfold offlineAfter
  by_cases htc : isTCDispatcherType snap.key.type = true
  · exact if_pos htc
  · rw [if_neg htc, not_or, Bool.not_eq_false] at h
    simp only [htc, h.2, if_true, Staged.detached]
    exact if_neg h.1

/-- **The contract of removing a dispatcher** holds over every choice of failing primitives, except
for an outer link that the kernel detaches and whose pin then cannot be removed: that is reported as
a failed detach, with the dispatcher offline already. -/
theorem removal_contract_iff (hs : st.world.store.Consistent) :
    RemovalContract e refused snap st ↔
      (isTCDispatcherType snap.key.type = true ∨
        e.fails (.removeLink (.dispatcherLink snap.key)) = false ∨
        st.world.link? (.dispatcherLink snap.key) = none ∨
        refused (.dispatcherLink snap.key) = true) := by
  constructor
  · intro h
    by_contra hcond
    simp only [not_or, Bool.not_eq_true, Bool.not_eq_false] at hcond
    obtain ⟨htc, hf, hpin, href⟩ := hcond
    have hdet : KernelDetached e refused snap st := by
      rw [KernelDetached, if_neg (Bool.eq_false_iff.1 htc)]
      exact .inl ⟨Option.isSome_iff_ne_none.2 hpin, href⟩
    have houter : detachOuter e snap st.world = .err (.wrap "detach XDP outer link"
        (.call (.removeLink (.dispatcherLink snap.key))))
        (st.world.fail (.removeLink (.dispatcherLink snap.key))) := by
      rw [detachOuter, if_neg (Bool.eq_false_iff.1 htc)]
      exact mapErr_eq_err.2 ⟨_, detachLink_of_fails hf st.world, rfl⟩
    have hrun := removeEmptyDispatcherStaged_eq e refused snap st
    rw [removeEmptyDispatcher_eq, bind_of_err houter] at hrun
    obtain ⟨cause, heq⟩ := h.reported hrun hdet
    simp at heq
  · intro hcond
    have hrun := removeEmptyDispatcherStaged_eq e refused snap st
    rcases detachOuter_cases (e := e) snap st.world with ⟨err, c, -, h⟩ | ⟨w', h, -, hoff⟩
    · -- the detach failed: nothing was done, and that is what is reported
      have hnot := not_kernelDetached_of_err hcond h
      refine ⟨fun herr _ => ?_, fun _ hdet => absurd hdet hnot, fun hdet => absurd hdet hnot,
        fun _ refused' hfails => retry_gone hs refused' hfails⟩
      rw [hrun] at herr
      obtain ⟨hout, hoffline⟩ := Staged.beside_eq_err herr
      rw [removeEmptyDispatcher_eq, bind_of_err h] at hout
      rw [← (Outcome.err.inj hout).2]
      exact ⟨onlyLogs_fail _ _, hoffline.trans (offlineAfter_of_not_detached hnot)⟩
    · -- the dispatcher is offline, and what remains is cleanup
      refine ⟨fun _ hnot => absurd (kernelDetached_of_ok h) hnot, fun herr _ => ?_, fun _ => ?_,
        fun _ refused' hfails => retry_gone hs refused' hfails⟩
      · rw [hrun] at herr
        exact removeEmptyDispatcher_err h (Staged.beside_eq_err herr).1
      · rw [hrun, Staged.state_beside]
        exact fun hreach => removeEmptyDispatcher_offline h hoff hreach.1

open Sample

/-- An XDP dispatcher with one member, which is to be removed. -/
@[irreducible] def Sample.single : Staged := ⟨attached [xdp 1 []], ∅⟩

def Sample.emptied : DispatcherSnapshot := ⟨xdpKey, 1, ⟨1001, some 5000, none, none, ""⟩, []⟩

/-- The kernel refuses the detach, the program pin stays, and the row cannot be deleted: only that
is reported, and a second run clears the attach point. -/
theorem removal_contract_sample :
    let e := env 2 [.removeProg (.dispatcher xdpKey 1),
      .deleteDispatcherSnapshot xdpKey]
    single.PacketsReach e emptied ∧
      (removeEmptyDispatcherStaged e (fun _ => true) emptied single).isOk = false ∧
      RemovalContract e (fun _ => true) emptied single := by
  refine ⟨by decide +kernel, by decide +kernel, (removal_contract_iff ?_).2 (.inr (.inl rfl))⟩
  unfold single
  exact (inv_run fresh.inv (run_attachAll (by decide +kernel))).store

/-- The kernel detaches the outer link and its pin cannot be removed: a failed detach is reported,
of a dispatcher that no packet reaches. -/
theorem pin_failure_is_reported :
    let pin := LinkPath.dispatcherLink xdpKey
    let e := env 2 [.removeLink pin]
    let out := removeEmptyDispatcherStaged e (fun _ => false) emptied single
    (match out with
      | .err (.wrap text _) _ => some text
      | _ => none) = some "detach XDP outer link" ∧
      single.PacketsReach e emptied ∧ ¬ out.state.PacketsReach e emptied ∧
      out.state.offline = {pin} ∧ out.state.world.store.dispatchers.map (·.key) = [xdpKey] := by
  decide +kernel

end Stages

end Bpfman
