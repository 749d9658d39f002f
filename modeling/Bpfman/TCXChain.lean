import Bpfman.AttachTCX
import Bpfman.ManagerProof
import Bpfman.TCXOrder

/-!
# The chain of a TCX hook

`TCXInv` relates the chains the kernel keeps to the links the store records, and every attach and
detach of a TCX program keeps it:

* `TCXInv.placed` — the anchor an attach sends puts the program where the store lists its link;
* `TCXInv.exceptLink` — an attach that fails and takes its link down again changes no chain;
* `TCXInv.detached` — a detach takes one program out of its chain.
-/

namespace Bpfman

open Fallible Proc List Store World

variable {e : Env} {w w' : World} {hook : TCXHook} {p : LinkPath} {id : ProgramID}

/-! ## Chains -/

/-- The row of a TCX link as an attach records it. -/
structure TCXRecorded (l : LinkRow) (r : TCXRow) : Prop where
  kind : l.kind = .tcx
  program : l.programID ≠ 0
  kernelLink : l.kernelLinkID.isSome = true
  scans : Store.int32Scans r.priority = true
  pinPath : l.pinPath = some (tcxLinkPath r.hook l.programID)

/-- The kernel chains are the recorded links in their order. -/
structure TCXInv (w : World) : Prop where
  linkIDs : (w.store.links.map (·.id)).Nodup
  ids_le : ∀ l ∈ w.store.links, l.id ≤ w.store.linkSeq
  rows : ∀ l ∈ w.store.links, ∀ r, l.standalone = some (.tcx r) → TCXRecorded l r
  pins : ∀ p k h x, w.link? p = some (.tcx k h x) → p = tcxLinkPath h x.id
  order : w.tcxOrder.Nodup
  programs : ∀ row ∈ w.store.programs, ∀ x, w.prog? row.pinPath = some x → x.id = row.programID
  chain : ∀ hook, w.tcxChain hook = (w.store.tcxLinks hook).map (·.1.programID)

theorem tcxLinkPath_inj {hook hook' : TCXHook} {id id' : ProgramID} :
    tcxLinkPath hook id = tcxLinkPath hook' id' ↔ hook = hook' ∧ id = id' := by
  cases hook
  cases hook'
  simp [tcxLinkPath, and_assoc]

theorem runsAt_eq_some : w.runsAt hook p = some id ↔
    ∃ k x, w.link? p = some (.tcx k hook x) ∧ x.id = id := by
  unfold runsAt
  split
  · rename_i k h x hx
    by_cases hh : h = hook
    · subst hh
      simp [hx]
    · simp [hx, hh]
  · rename_i hne
    exact iff_of_false (by simp) fun ⟨k, x, hx, _⟩ => hne k hook x hx

theorem runsAt_congr (h : w'.link? p = w.link? p) : w'.runsAt hook p = w.runsAt hook p := by
  unfold runsAt
  rw [h]

theorem runsAt_of_none (h : w.link? p = none) : w.runsAt hook p = none := by
  unfold runsAt
  rw [h]

/-- Only the path that names a program and its hook runs it there. -/
theorem TCXInv.runsAt (h : TCXInv w) (hr : w.runsAt hook p = some id) :
    p = tcxLinkPath hook id := by
  obtain ⟨k, x, hx, rfl⟩ := runsAt_eq_some.1 hr
  exact h.pins p k hook x hx

theorem mem_tcxChain : id ∈ w.tcxChain hook ↔ ∃ p ∈ w.tcxOrder, w.runsAt hook p = some id :=
  mem_filterMap

/-- A path that runs nothing can be left out of the order. -/
theorem filterMap_filter_ne {f : LinkPath → Option ProgramID} {ps : List LinkPath}
    (h : p ∈ ps → f p = none) : (ps.filter (· ≠ p)).filterMap f = ps.filterMap f := by
  rw [filterMap_filter]
  refine filterMap_congr fun q hq => ?_
  by_cases hqp : q = p
  · subst hqp
    simp [h hq]
  · simp [hqp]

theorem TCXInv.chain_nodup (h : TCXInv w) (hook : TCXHook) : (w.tcxChain hook).Nodup := by
  refine List.Nodup.filterMap (fun p q id hp hq => ?_) h.order
  rw [h.runsAt hp, h.runsAt hq]

theorem TCXInv.programID_inj (h : TCXInv w) {t u : LinkRow × TCXRow}
    (ht : t ∈ w.store.tcxLinks hook) (hu : u ∈ w.store.tcxLinks hook)
    (heq : t.1.programID = u.1.programID) : t = u :=
  inj_on_of_nodup_map (h.chain hook ▸ h.chain_nodup hook) ht hu heq

/-- A program that no link of the hook records runs nowhere at its path. -/
theorem TCXInv.idle (h : TCXInv w) (hid : id ∉ w.tcxChain hook) (hook' : TCXHook)
    (hmem : tcxLinkPath hook id ∈ w.tcxOrder) : w.runsAt hook' (tcxLinkPath hook id) = none := by
  cases hr : w.runsAt hook' (tcxLinkPath hook id) with
  | none => rfl
  | some y =>
    obtain ⟨rfl, rfl⟩ := tcxLinkPath_inj.1 (h.runsAt hr)
    exact absurd (mem_tcxChain.2 ⟨_, hmem, hr⟩) hid

/-! ## What an attach may touch before it is recorded -/

/-- Nothing but the link at `p` and its place in a chain differs. -/
structure ExceptLink (p : LinkPath) (w w' : World) : Prop where
  store : w'.store = w.store
  progPins : w'.progPins = w.progPins
  others : ∀ q, q ≠ p → w'.link? q = w.link? q
  order : w'.tcxOrder.filter (· ≠ p) = w.tcxOrder.filter (· ≠ p)
  nodup : w.tcxOrder.Nodup → w'.tcxOrder.Nodup

instance : Std.Refl (ExceptLink p) := ⟨fun _ => ⟨rfl, rfl, fun _ _ => rfl, rfl, fun h => h⟩⟩

instance : IsTrans World (ExceptLink p) := ⟨fun _ _ _ h h' =>
  ⟨h'.store.trans h.store, h'.progPins.trans h.progPins,
    fun q hq => (h'.others q hq).trans (h.others q hq), h'.order.trans h.order,
    fun hn => h'.nodup (h.nodup hn)⟩⟩

theorem ExceptLink.of_eq (hs : w'.store = w.store) (hp : w'.progPins = w.progPins)
    (hl : w'.linkPins = w.linkPins) (ho : w'.tcxOrder = w.tcxOrder) : ExceptLink p w w' :=
  ⟨hs, hp, fun q _ => by rw [link?, hl, link?], by rw [ho], fun h => ho ▸ h⟩

theorem exceptLink_fail (w : World) (c : Call) : ExceptLink p w (w.fail c) := .of_eq rfl rfl rfl rfl

theorem exceptLink_eraseLink (w : World) : ExceptLink p w (w.eraseLink p) :=
  ⟨rfl, rfl, fun _ hq => (link?_eraseLink ..).trans (if_neg hq), rfl, fun h => h⟩

theorem exceptLink_addLink (w : World) (x : Link) : ExceptLink p w (w.addLink p x) :=
  ⟨rfl, rfl, fun _ hq => (link?_addLink ..).trans (if_neg hq), rfl, fun h => h⟩

theorem ExceptLink.chain (h : ExceptLink p w w') (hook : TCXHook) :
    (w'.tcxOrder.filter (· ≠ p)).filterMap (w'.runsAt hook) =
      (w.tcxOrder.filter (· ≠ p)).filterMap (w.runsAt hook) := by
  rw [h.order]
  refine filterMap_congr fun q hq => runsAt_congr (h.others q ?_)
  simpa using (mem_filter.1 hq).2

theorem ExceptLink.tcxPins (h : ExceptLink p w w') (hi : TCXInv w) (hnone : w'.link? p = none) :
    ∀ q k h x, w'.link? q = some (.tcx k h x) → q = tcxLinkPath h x.id := by
  intro q k hk x hx
  by_cases hq : q = p
  · rw [hq, hnone] at hx
    cases hx
  · exact hi.pins q k hk x (h.others q hq ▸ hx)

/-- **An attach that takes its link down again changes no chain.** -/
theorem TCXInv.exceptLink (hi : TCXInv w) (hid : id ∉ w.tcxChain hook)
    (h : ExceptLink (tcxLinkPath hook id) w w') (hnone : w'.link? (tcxLinkPath hook id) = none) :
    TCXInv w' := by
  refine ⟨h.store ▸ hi.linkIDs, h.store ▸ hi.ids_le, h.store ▸ hi.rows, h.tcxPins hi hnone,
    h.nodup hi.order, ?_, fun hook' => ?_⟩
  · rw [h.store]
    intro row hrow x hx
    rw [prog?, h.progPins] at hx
    exact hi.programs row hrow x hx
  · calc w'.tcxChain hook'
        = (w'.tcxOrder.filter (· ≠ tcxLinkPath hook id)).filterMap (w'.runsAt hook') :=
          (filterMap_filter_ne fun _ => runsAt_of_none hnone).symm
      _ = (w.tcxOrder.filter (· ≠ tcxLinkPath hook id)).filterMap (w.runsAt hook') := h.chain hook'
      _ = w.tcxChain hook' := filterMap_filter_ne (hi.idle hid hook')
      _ = _ := by rw [hi.chain hook', h.store]

/-! ## Where the kernel puts a program -/

/-- The order after a link is put at an anchor. -/
def World.placedOrder (w : World) (hook : TCXHook) (p : LinkPath) : TCXAnchor → List LinkPath
  | .head => p :: w.tcxOrder.filter (· ≠ p)
  | .before x => Anchor.insertBefore (w.runsAt hook · = some x) p (w.tcxOrder.filter (· ≠ p))
  | .after x => Anchor.insertAfter (w.runsAt hook · = some x) p (w.tcxOrder.filter (· ≠ p))

/-- The chain after a program is put at an anchor. -/
def TCXAnchor.place (id : ProgramID) (chain : List ProgramID) : TCXAnchor → List ProgramID
  | .head => id :: chain
  | .before x => Anchor.insertBefore (· = x) id chain
  | .after x => Anchor.insertAfter (· = x) id chain

theorem placeTCX_eq_some {a : TCXAnchor} (h : w.placeTCX hook id p a = some w') :
    w' = { w with tcxOrder := w.placedOrder hook p a } := by
  unfold placeTCX at h
  split at h
  · cases h
  · split at h
    · exact (Option.some.inj h).symm
    · split at h
      · exact (Option.some.inj h).symm
      · cases h
    · split at h
      · exact (Option.some.inj h).symm
      · cases h

theorem placedOrder_perm (w : World) (hook : TCXHook) (p : LinkPath) (a : TCXAnchor) :
    (w.placedOrder hook p a).Perm (p :: w.tcxOrder.filter (· ≠ p)) := by
  cases a with
  | head => exact List.Perm.refl _
  | before x => exact Anchor.perm_insertBefore _ _ _
  | after x => exact Anchor.perm_insertAfter _ _ _

/-- The order keeps the other links as they are. -/
theorem placedOrder_filter (w : World) (hook : TCXHook) (p : LinkPath) (a : TCXAnchor) :
    (w.placedOrder hook p a).filter (· ≠ p) = w.tcxOrder.filter (· ≠ p) := by
  have hnone : Option.guard (fun q => decide (q ≠ p)) p = none := by simp [Option.guard]
  have hkey : (w.placedOrder hook p a).filterMap (Option.guard (fun q => decide (q ≠ p))) =
      (w.tcxOrder.filter (· ≠ p)).filterMap (Option.guard (fun q => decide (q ≠ p))) := by
    cases a with
    | head => exact filterMap_cons_none hnone
    | before x => exact Anchor.filterMap_insertBefore_of_none hnone
    | after x => exact Anchor.filterMap_insertAfter_of_none hnone
  simpa using hkey

theorem exceptLink_placed (w : World) (hook : TCXHook) (p : LinkPath) (a : TCXAnchor) :
    ExceptLink p w { w with tcxOrder := w.placedOrder hook p a } := by
  refine ⟨rfl, rfl, fun _ _ => rfl, placedOrder_filter w hook p a, fun hn => ?_⟩
  refine (placedOrder_perm w hook p a).nodup_iff.2 (nodup_cons.2 ⟨?_, hn.filter _⟩)
  simp

/-- **The kernel puts a new program at its anchor**, in the chain of its hook only. -/
theorem chain_placed {a : TCXAnchor} {k : KernelLinkID} {x : Prog} (hnone : w.link? p = none)
    (horder : w'.tcxOrder = w.placedOrder hook p a) (hp : w'.link? p = some (.tcx k hook x))
    (hothers : ∀ q, q ≠ p → w'.link? q = w.link? q) :
    w'.tcxChain hook = a.place x.id (w.tcxChain hook) ∧
      ∀ hook', hook' ≠ hook → w'.tcxChain hook' = w.tcxChain hook' := by
  have hrun : w'.runsAt hook p = some x.id := runsAt_eq_some.2 ⟨k, x, hp, rfl⟩
  have hsame : ∀ hook', ∀ q ∈ w.tcxOrder.filter (· ≠ p), w'.runsAt hook' q = w.runsAt hook' q :=
    fun hook' q hq => runsAt_congr (hothers q (by simpa using (mem_filter.1 hq).2))
  have hrest : ∀ hook', (w.tcxOrder.filter (· ≠ p)).filterMap (w'.runsAt hook') =
      w.tcxChain hook' := fun hook' =>
    (filterMap_congr (hsame hook')).trans (filterMap_filter_ne fun _ => runsAt_of_none hnone)
  have hany : ∀ y, ∀ q ∈ w.tcxOrder.filter (· ≠ p),
      decide (w.runsAt hook q = some y) = (w'.runsAt hook q).any (fun z => decide (z = y)) := by
    intro y q hq
    rw [hsame hook q hq]
    cases w.runsAt hook q <;> simp
  constructor
  · unfold tcxChain at hrest ⊢
    rw [horder, ← hrest hook]
    cases a with
    | head => exact filterMap_cons_some hrun
    | before y => exact Anchor.filterMap_insertBefore hrun (hany y)
    | after y => exact Anchor.filterMap_insertAfter hrun (hany y)
  · intro hook' hne
    have hother : w'.runsAt hook' p = none := by
      simp [runsAt, hp, Ne.symm hne]
    unfold tcxChain at hrest ⊢
    rw [horder, ← hrest hook']
    cases a with
    | head => exact filterMap_cons_none hother
    | before y => exact Anchor.filterMap_insertBefore_of_none hother
    | after y => exact Anchor.filterMap_insertAfter_of_none hother

/-! ## The anchor of an attach -/

/-- **The anchor puts the program where the store lists its link.** -/
theorem place_computeTCXAttachOrder {ts : List (LinkRow × TCXRow)} {l : LinkRow} {r : TCXRow}
    (hnd : (ts.map (·.1.programID)).Nodup) (hne : ∀ t ∈ ts, t.1.programID ≠ 0) :
    (computeTCXAttachOrder (ts.map tcxInfo) r.priority).anchor.place l.programID
        (ts.map (·.1.programID)) =
      (Anchor.insertBefore (fun t => decide (r.priority < t.2.priority)) (l, r) ts).map
        (·.1.programID) := by
  rcases eq_nil_or_concat' ts with rfl | ⟨ts', last, hts⟩
  · rfl
  · have hlast : (ts.map tcxInfo).getLast? = some (tcxInfo last) := by
      rw [hts, map_append, map_singleton, getLast?_concat]
    have hfind : (ts.map tcxInfo).find? (fun i => decide (r.priority < i.priority)) =
        (ts.find? fun t => decide (r.priority < t.2.priority)).map tcxInfo :=
      find?_map ..
    unfold computeTCXAttachOrder
    rw [hlast, hfind]
    cases hf : ts.find? (fun t => decide (r.priority < t.2.priority)) with
    | some t =>
      have ht : t ∈ ts := mem_of_find?_eq_some hf
      -- the first link with the id of `t` is `t`
      have hfirst : ts.find? (fun u => decide (u.1.programID = t.1.programID)) = some t :=
        Table.find_of_mem hnd ht rfl
      have hanchor : ({ beforeProgID := t.1.programID } : TCXAttachOrder).anchor =
          .before t.1.programID := by
        simp [TCXAttachOrder.anchor, hne t ht]
      change ({ beforeProgID := t.1.programID } : TCXAttachOrder).anchor.place _ _ = _
      rw [hanchor, ← Anchor.insertBefore_congr (hfirst.trans hf.symm)]
      exact (Anchor.map_insertBefore (f := fun u : LinkRow × TCXRow => u.1.programID)
        (r := fun y => decide (y = t.1.programID)) (x := (l, r))).symm
    | none =>
      have hmem : last ∈ ts := hts.symm ▸ mem_append_right _ (mem_singleton_self last)
      have hanchor : ({ afterProgID := last.1.programID } : TCXAttachOrder).anchor =
          .after last.1.programID := by
        simp [TCXAttachOrder.anchor, hne last hmem]
      change ({ afterProgID := last.1.programID } : TCXAttachOrder).anchor.place _ _ = _
      rw [hanchor, Anchor.insertBefore_of_none hf, map_append, hts, map_append]
      refine Anchor.insertAfter_concat (fun y hy => ?_) (by simp)
      rw [hts, map_append, nodup_append] at hnd
      exact decide_eq_false (hnd.2.2 y hy _ (by simp))

/-! ## The steps of an attach -/

theorem exceptLink_removeLinkPin : Keeps (ExceptLink p) (removeLinkPin e p) :=
  keeps_prim exceptLink_fail fun w => .some (exceptLink_eraseLink w)

theorem exceptLink_detachLink : Keeps (ExceptLink p) (detachLink e p) := by
  refine exceptLink_removeLinkPin.bind fun removed => ?_
  refine .ite (.ignore (keeps_prim exceptLink_fail fun w => .some ?_)) (.pure ())
  obtain ⟨D, hD⟩ := w.rmdir_eq p.parent
  rw [hD]
  exact .of_eq rfl rfl rfl rfl

theorem exceptLink_pinLink (x : Link) : Keeps (ExceptLink p) (pinLink e p x) :=
  .bind (keeps_prim exceptLink_fail fun _ => .some (.of_eq rfl rfl rfl rfl)) fun _ =>
    keeps_prim exceptLink_fail fun w => .ite .none (.some (exceptLink_addLink w x))

theorem exceptLink_finishPinnedAttach (x : Link) :
    Keeps (ExceptLink p) (finishPinnedAttach e p x) :=
  .onErr ((exceptLink_pinLink x).bind fun _ => .bind
    (keeps_prim exceptLink_fail fun w => .some (refl_of _ w)) fun _ =>
    .pure _) exceptLink_removeLinkPin

theorem removeLinkPin_link? (hrem : e.fails (.removeLink p) = false) (w : World) :
    (removeLinkPin e p w).state.link? p = none := by
  have hrun : removeLinkPin e p w = .ok (w.link? p).isSome (w.eraseLink p) :=
    prim_eq_ok.2 ⟨hrem, rfl⟩
  rw [hrun]
  exact (link?_eraseLink ..).trans (if_pos rfl)

theorem detachLink_link? (hrem : e.fails (.removeLink p) = false) (w : World) :
    (detachLink e p w).isOk = true ∧ (detachLink e p w).state.link? p = none := by
  cases h : detachLink e p w with
  | ok u w' =>
    refine ⟨rfl, ?_⟩
    rw [Outcome.state_ok, detachLink_eq_ok h]
    exact (link?_eraseLink ..).trans (if_pos rfl)
  | err err w' =>
    rw [(detachLink_eq_err h).1] at hrem
    cases hrem

/-- With every program alive no link is left out. -/
theorem filterLiveTCXLinks_eq {ls : List TCXLinkInfo} {checked : List (ProgramID × Bool)}
    (hlive : ∀ l ∈ ls, e.live l.kernelProgramID = true) (hc : ∀ x ∈ checked, x.2 = true)
    (w : World) : ∃ log, filterLiveTCXLinks e ls checked w = .ok ls { w with failed := log } := by
  induction ls generalizing checked w with
  | nil => exact ⟨w.failed, rfl⟩
  | cons l ls ih =>
    obtain ⟨hl, hls⟩ := forall_mem_cons.1 hlive
    have hrest : ∀ w1, ∃ log, (do
        let rest ← filterLiveTCXLinks e ls ((l.kernelProgramID, true) :: checked)
        pure (if true then l :: rest else rest) : M (List TCXLinkInfo)) w1 =
          .ok (l :: ls) { w1 with failed := log } := by
      intro w1
      obtain ⟨log, hlog⟩ := @ih ((l.kernelProgramID, true) :: checked) hls
        (forall_mem_cons.2 ⟨rfl, hc⟩) w1
      exact ⟨log, bind_eq_ok.2 ⟨ls, _, hlog, rfl⟩⟩
    rw [filterLiveTCXLinks]
    cases hlook : checked.lookup l.kernelProgramID with
    | some ok =>
      obtain rfl : ok = true := hc _ (Table.mem_of_lookup hlook)
      exact hrest w
    | none =>
      cases hf : e.fails (.getProgramByID l.kernelProgramID) with
      | true =>
        obtain ⟨log, hlog⟩ := hrest (w.fail (.getProgramByID l.kernelProgramID))
        refine ⟨log, bind_eq_ok.2 ⟨true, _, ?_, hlog⟩⟩
        simp only [isLive, hf, if_true]
      | false =>
        obtain ⟨log, hlog⟩ := hrest w
        refine ⟨log, bind_eq_ok.2 ⟨true, _, ?_, hlog⟩⟩
        simp only [isLive, hf, hl, Bool.false_eq_true, if_false]

theorem exceptLink_kernelAttachTCX (hook : TCXHook) (prog : ProgPinPath) (netns : String)
    (order : TCXAttachOrder) :
    Keeps (ExceptLink p) (kernelAttachTCX e hook prog p netns order) := by
  refine .bind (keeps_prim exceptLink_fail fun w _ _ h => ?_) exceptLink_finishPinnedAttach
  obtain ⟨-, x, -, h⟩ := guarded_eq_some.1 h
  obtain ⟨w2, hplace, heq⟩ := Option.bind_eq_some_iff.1 h
  cases heq
  rw [placeTCX_eq_some hplace]
  exact exceptLink_placed w hook p _

theorem kernelAttachTCX_eq_ok {prog : ProgPinPath} {netns : String} {order : TCXAttachOrder}
    {k : KernelLinkID} (h : kernelAttachTCX e hook prog p netns order w = .ok k w') :
    ∃ x, w.prog? prog = some x ∧ k = e.linkID p ∧
      w' = (({ w with tcxOrder := w.placedOrder hook p order.anchor } : World).mkdirAll
        p.parent).addLink p (.tcx (e.linkID p) hook x) := by
  obtain ⟨lnk, w1, h1, h2⟩ := bind_eq_ok.1 h
  obtain ⟨-, x, hx, hf⟩ := guarded_eq_some.1 (prim_eq_ok.1 h1).2
  obtain ⟨w2, hplace, heq⟩ := Option.bind_eq_some_iff.1 hf
  cases heq
  obtain rfl := placeTCX_eq_some hplace
  obtain ⟨hk, -, hw'⟩ := finishPinnedAttach_eq_ok h2
  exact ⟨x, hx, hk, hw'⟩

/-- A kernel attach that fails leaves no link at the pin. -/
theorem kernelAttachTCX_eq_err {prog : ProgPinPath} {netns : String} {order : TCXAttachOrder}
    {err : Err} (hrem : e.fails (.removeLink p) = false) (hnone : w.link? p = none)
    (h : kernelAttachTCX e hook prog p netns order w = .err err w') :
    ExceptLink p w w' ∧ w'.link? p = none := by
  refine ⟨(exceptLink_kernelAttachTCX _ _ _ _).err h, ?_⟩
  rcases bind_eq_err.1 h with g | ⟨lnk, w1, -, g1⟩
  · obtain ⟨-, -, rfl⟩ := prim_eq_err.1 g
    exact hnone
  · obtain ⟨w3, -, rfl⟩ := onErr_eq_err.1 g1
    exact removeLinkPin_link? hrem w3

end Bpfman
