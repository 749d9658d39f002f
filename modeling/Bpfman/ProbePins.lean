import Bpfman.AttachSimple
import Bpfman.Invariant
import Bpfman.StoreLinks

/-!
# The pins of probe links

A probe link is recorded before the kernel attaches it, so that its pin has a row at every point of
the attach.

* `LinksNamed` — every link pinned under `{bpffs}/links` has a row with that pin path;
* `linksNamed_iff` — every state of an attach has it unless the attach leaves a pin behind: the
  kernel cannot read the link back after it is pinned, or the unlink of the rollback fails.
-/

namespace Bpfman

open Fallible Proc List Store

variable {e : Env} {w w' : World} {scope : Bool} {spec : ProbeAttachSpec} {id : LinkID}

variable {target : ProbeTarget} {p : LinkPath} {err : Err} {details : ProbeDetails} {l : LinkRow}

/-- Every link pinned under `{bpffs}/links` has a row with that pin path. -/
def LinksNamed (w : World) : Prop :=
  ∀ id, (w.link? (.link id)).isSome → ∃ l ∈ w.store.links, l.pinPath = some (.link id)

/-- The link rows and the link pins are the same. -/
def SameLinks (w w' : World) : Prop :=
  w'.store.links = w.store.links ∧ w'.linkPins = w.linkPins

instance : Std.Refl SameLinks := ⟨fun _ => ⟨rfl, rfl⟩⟩

instance : IsTrans World SameLinks := ⟨fun _ _ _ h h' => ⟨h'.1.trans h.1, h'.2.trans h.2⟩⟩

theorem sameLinks_fail (w : World) (c : Call) : SameLinks w (w.fail c) := ⟨rfl, rfl⟩

theorem SameLinks.link? (h : SameLinks w w') (p : LinkPath) : w'.link? p = w.link? p := by
  rw [World.link?, h.2, World.link?]

theorem SameLinks.named (h : SameLinks w w') (hw : LinksNamed w) : LinksNamed w' := by
  intro id hid
  rw [h.1]
  rw [h.link?] at hid
  exact hw id hid

/-! ## The nodes -/

/-- Only the attach of a uprobe reads the link back before it is pinned. -/
def ProbeTarget.infoFirst : ProbeTarget → Bool
  | .uprobe .. => true
  | _ => false

def ProbeTarget.isTracepoint : ProbeTarget → Bool
  | .tracepoint .. => true
  | _ => false

/-- `prepare` succeeds with `details`. -/
structure Prepares (e : Env) (scope : Bool) (spec : ProbeAttachSpec) (w : World)
    (details : ProbeDetails) : Prop where
  getProgram : e.fails (.getProgram spec.programID) = false
  tracepoints : spec.target.isTracepoint = true → e.fails .listTracepoints = false
  details : ∃ prog, w.store.getProgram spec.programID = .ok prog ∧
    probeDetails scope e.tracepoints prog spec.target = .ok details

theorem listTracepoints_eq_ok {tps : List String} :
    listTracepoints e target w = .ok tps w' ↔
      (target.isTracepoint = true → e.fails .listTracepoints = false) ∧
        tps = (if target.isTracepoint then e.tracepoints else []) ∧ w' = w := by
  cases target with
  | tracepoint group name =>
    unfold listTracepoints
    rw [mapErr_eq_ok, prim_eq_ok]
    constructor
    · rintro ⟨hf, h⟩
      cases h
      exact ⟨fun _ => hf, rfl, rfl⟩
    · rintro ⟨hf, rfl, rfl⟩
      exact ⟨hf rfl, rfl⟩
  | kprobe | uprobe | fentry | fexit =>
    constructor
    · intro h
      cases h
      exact ⟨fun h => (by cases h), rfl, rfl⟩
    · rintro ⟨-, rfl, rfl⟩
      rfl

/-- Only the details of a tracepoint depend on the tracepoints that are listed. -/
theorem probeDetails_tracepoints {tps : List String} {prog : ProgramRecord} :
    probeDetails scope (if target.isTracepoint then tps else []) prog target =
      probeDetails scope tps prog target := by
  cases target <;> rfl

theorem prepareNode_eq_ok {b : SimpleBindings} :
    (prepareNode e scope spec).exec {} w = .ok b w' ↔
      ∃ details, Prepares e scope spec w details ∧ b = { details := some details } ∧ w' = w := by
  unfold prepareNode
  constructor
  · intro h
    obtain ⟨prog, w1, h1, g1⟩ := bind_eq_ok.1 h
    obtain ⟨hf, hget, rfl⟩ := query_eq_ok.1 (mapErr_eq_ok.1 h1)
    obtain ⟨tps, w2, h2, g2⟩ := bind_eq_ok.1 g1
    obtain ⟨htp, rfl, rfl⟩ := listTracepoints_eq_ok.1 h2
    obtain ⟨details, w3, h3, g3⟩ := bind_eq_ok.1 g2
    obtain ⟨hd, rfl⟩ := lift_eq_ok.1 h3
    cases g3
    exact ⟨details, ⟨hf, htp, prog, hget, probeDetails_tracepoints ▸ hd⟩, rfl, rfl⟩
  · rintro ⟨details, ⟨hf, htp, prog, hget, hd⟩, rfl, rfl⟩
    refine bind_eq_ok.2 ⟨prog, _, mapErr_eq_ok.2 (query_eq_ok.2 ⟨hf, hget, rfl⟩), ?_⟩
    refine bind_eq_ok.2 ⟨_, _, listTracepoints_eq_ok.2 ⟨htp, rfl, rfl⟩, ?_⟩
    exact bind_eq_ok.2 ⟨details, _, lift_eq_ok.2 ⟨probeDetails_tracepoints.trans hd, rfl⟩, rfl⟩

theorem sameLinks_prepareNode (b : SimpleBindings) :
    Keeps SameLinks ((prepareNode e scope spec).exec b) := by
  refine .bind (keeps_query sameLinks_fail).mapErr fun prog => ?_
  refine .bind ?_ fun tps => (Keeps.lift _).bind fun details => Keeps.pure _
  cases spec.target with
  | tracepoint group name =>
    exact (keeps_prim sameLinks_fail fun w => .some ⟨rfl, rfl⟩).mapErr
  | kprobe | uprobe | fentry | fexit => exact .pure _

/-- The kernel attach gets as far as the pin at `p`. -/
structure PinsAt (e : Env) (spec : ProbeAttachSpec) (w : World) (p : LinkPath) : Prop where
  attach : e.fails (.attachProbe p) = false
  program : (w.prog? (.prog spec.programID)).isSome = true
  info : spec.target.infoFirst = true → e.fails (.linkInfo p) = false
  mkdir : e.fails (.mkdirAll p.parent) = false
  pin : e.fails (.pinLink p) = false
  free : w.link? p = none

/-- The world with the probe link pinned at `p`. -/
def World.pinned (w : World) (e : Env) (p : LinkPath) : World :=
  (w.mkdirAll p.parent).addLink p (.standalone (e.linkID p))

theorem openProbe_eq_ok {prog : ProgPinPath} :
    openProbe e prog p w = .ok () w' ↔
      e.fails (.attachProbe p) = false ∧ (w.prog? prog).isSome = true ∧ w' = w := by
  unfold openProbe
  rw [prim_eq_ok, Option.map_eq_some_iff]
  refine and_congr_right fun _ => ?_
  constructor
  · rintro ⟨x, hx, heq⟩
    cases heq
    exact ⟨by rw [hx]; rfl, rfl⟩
  · rintro ⟨hx, rfl⟩
    obtain ⟨x, hx⟩ := Option.isSome_iff_exists.1 hx
    exact ⟨x, hx, rfl⟩

theorem probeInfo_eq_ok : probeInfo e p w = .ok () w' ↔ e.fails (.linkInfo p) = false ∧ w' = w := by
  unfold probeInfo
  rw [prim_eq_ok]
  refine and_congr_right fun _ => ⟨fun h => ?_, fun h => h ▸ rfl⟩
  cases h
  rfl

/-- The steps of a pin. -/
theorem pinLink_eq_ok_iff {x : Link} :
    pinLink e p x w = .ok () w' ↔ e.fails (.mkdirAll p.parent) = false ∧
      e.fails (.pinLink p) = false ∧ w.link? p = none ∧
      w' = (w.mkdirAll p.parent).addLink p x := by
  constructor
  · intro h
    obtain ⟨_, w1, h1, h2⟩ := bind_eq_ok.1 h
    exact ⟨(prim_eq_ok.1 h1).1, (prim_eq_ok.1 h2).1, pinLink_eq_ok h⟩
  · rintro ⟨hm, hp, hfree, rfl⟩
    refine bind_eq_ok.2 ⟨(), w.mkdirAll p.parent, prim_eq_ok.2 ⟨hm, rfl⟩, ?_⟩
    refine prim_eq_ok.2 ⟨hp, ?_⟩
    rw [show (w.mkdirAll p.parent).link? p = none from hfree]
    rfl

/-- The link is read back if `b` says so. -/
def infoIf (e : Env) (p : LinkPath) (b : Bool) : M Unit := if b then probeInfo e p else pure ()

/-- The kernel attach up to the pin. -/
def ProbeTarget.pin (target : ProbeTarget) (e : Env) (prog : ProgPinPath) (p : LinkPath) :
    M Unit := do
  openProbe e prog p
  infoIf e p target.infoFirst
  pinLink e p (.standalone (e.linkID p))

theorem ProbeTarget.attach_eq (target : ProbeTarget) (prog : ProgPinPath) :
    target.attach e prog p = (do
    target.pin e prog p
    infoIf e p !target.infoFirst
    pure (e.linkID p)) := by
  unfold pin
  simp only [bind_assoc]
  cases target <;> rfl

theorem pin_eq_ok : spec.target.pin e (.prog spec.programID) p w = .ok () w' ↔
    PinsAt e spec w p ∧ w' = w.pinned e p := by
  constructor
  · intro h
    obtain ⟨_, w1, h1, g1⟩ := bind_eq_ok.1 h
    obtain ⟨hopen, hprog, rfl⟩ := openProbe_eq_ok.1 h1
    obtain ⟨_, w2, h2, g2⟩ := bind_eq_ok.1 g1
    obtain ⟨hmk, hpin, hfree, rfl⟩ := pinLink_eq_ok_iff.1 g2
    unfold infoIf at h2
    split at h2
    · obtain ⟨hinfo, rfl⟩ := probeInfo_eq_ok.1 h2
      exact ⟨⟨hopen, hprog, fun _ => hinfo, hmk, hpin, hfree⟩, rfl⟩
    · cases h2
      exact ⟨⟨hopen, hprog, fun h => absurd h ‹_›, hmk, hpin, hfree⟩, rfl⟩
  · rintro ⟨⟨hopen, hprog, hinfo, hmk, hpin, hfree⟩, rfl⟩
    refine bind_eq_ok.2 ⟨(), w, openProbe_eq_ok.2 ⟨hopen, hprog, rfl⟩, bind_eq_ok.2 ⟨(), w, ?_, ?_⟩⟩
    · unfold infoIf
      split
      · exact probeInfo_eq_ok.2 ⟨hinfo ‹_›, rfl⟩
      · rfl
    · exact pinLink_eq_ok_iff.2 ⟨hmk, hpin, hfree, rfl⟩

theorem pin_eq_err (h : spec.target.pin e (.prog spec.programID) p w = .err err w') :
    SameLinks w w' := by
  rcases bind_eq_err.1 h with g | ⟨_, w1, h1, g1⟩
  · rw [(prim_eq_err.1 g).2.2]
    exact sameLinks_fail _ _
  · obtain ⟨-, -, rfl⟩ := openProbe_eq_ok.1 h1
    rcases bind_eq_err.1 g1 with g | ⟨_, w2, h2, g2⟩
    · unfold infoIf at g
      split at g
      · rw [(prim_eq_err.1 g).2.2]
        exact sameLinks_fail _ _
      · cases g
    · have hw : w2 = w1 := by
        unfold infoIf at h2
        split at h2
        · exact (probeInfo_eq_ok.1 h2).2
        · cases h2
          rfl
      subst hw
      rcases pinLink_eq_err g2 with ⟨-, rfl⟩ | rfl <;> exact ⟨rfl, rfl⟩

/-- **What the kernel attach of a probe does**: it leaves the links alone, or it pins the link and
reads it back, or it pins the link and fails to read it back. -/
theorem attach_cases (e : Env) (spec : ProbeAttachSpec) (w : World) (p : LinkPath) :
    (¬ PinsAt e spec w p ∧ ∃ err w', spec.target.attach e (.prog spec.programID) p w = .err err w' ∧
        SameLinks w w') ∨
      (PinsAt e spec w p ∧ spec.target.infoFirst = false ∧ e.fails (.linkInfo p) = true ∧
        ∃ err w', spec.target.attach e (.prog spec.programID) p w = .err err w' ∧
          SameLinks (w.pinned e p) w') ∨
      (PinsAt e spec w p ∧ e.fails (.linkInfo p) = false ∧
        spec.target.attach e (.prog spec.programID) p w = .ok (e.linkID p) (w.pinned e p)) := by
  rw [ProbeTarget.attach_eq]
  cases h : spec.target.pin e (.prog spec.programID) p w with
  | err err w' =>
    refine .inl ⟨fun hp => ?_, err, w', bind_of_err h, pin_eq_err h⟩
    cases h.symm.trans (pin_eq_ok.2 ⟨hp, rfl⟩)
  | ok u w' =>
    obtain ⟨hp, rfl⟩ := pin_eq_ok.1 h
    rw [bind_of_ok h]
    cases hfirst : spec.target.infoFirst with
    | true => exact .inr (.inr ⟨hp, hp.info hfirst, rfl⟩)
    | false =>
      cases hinfo : e.fails (.linkInfo p) with
      | true =>
        have hrun : probeInfo e p (w.pinned e p) = .err (.call (.linkInfo p))
            ((w.pinned e p).fail (.linkInfo p)) := prim_eq_err.2 ⟨.inl hinfo, rfl, rfl⟩
        exact .inr (.inl ⟨hp, rfl, rfl, _, _, bind_of_err hrun, sameLinks_fail _ _⟩)
      | false => exact .inr (.inr ⟨hp, rfl, bind_of_ok (probeInfo_eq_ok.2 ⟨hinfo, rfl⟩)⟩)

/-- The pending row of the link is accepted. -/
structure RecordsProbe (e : Env) (spec : ProbeAttachSpec) (w : World) (details : ProbeDetails) :
    Prop where
  call : e.fails (.createPendingLink spec.programID) = false
  creates : w.store.Creates e.now (Store.pendingSpec (spec.linkSpec details))
  pinPath : ∀ r ∈ w.store.links, r.pinPath ≠ some (.link (w.store.linkSeq + 1))

/-- The row an attach records. -/
def pendingProbe (e : Env) (spec : ProbeAttachSpec) (w : World) (details : ProbeDetails) :
    LinkRow :=
  Store.pendingRow e.now w.store (spec.linkSpec details)

/-- The world with that row. -/
def World.recorded (w : World) (l : LinkRow) : World := { w with store := w.store.addLink l }

theorem createPendingLink_eq_ok {link : LinkSpec} :
    createPendingLink e link w = .ok l w' ↔ e.fails (.createPendingLink link.programID) = false ∧
      w.store.createPendingLink e.now link = .ok (w'.store, l) ∧
      w' = { w with store := w'.store } :=
  rowWrite_eq_ok (·.createPendingLink e.now link)

theorem pendingNode_eq_ok {b : SimpleBindings} :
    (pendingNode e spec).exec { details := some details } w = .ok b w' ↔
      RecordsProbe e spec w details ∧
        b = { details := some details, pending := some (pendingProbe e spec w details) } ∧
        w' = w.recorded (pendingProbe e spec w details) := by
  constructor
  · intro h
    obtain ⟨_, _, hb, h⟩ := bind_eq_ok.1 h
    cases hb
    obtain ⟨l, w1, h1, g1⟩ := bind_eq_ok.1 h
    obtain ⟨hf, hc, hw⟩ := createPendingLink_eq_ok.1 h1
    obtain ⟨hcr, hpin, rfl, hs⟩ := Store.createPendingLink_eq_ok.1 hc
    cases g1
    exact ⟨⟨hf, hcr, hpin⟩, rfl, by rw [hw, hs]; rfl⟩
  · rintro ⟨⟨hf, hcr, hpin⟩, rfl, rfl⟩
    refine bind_eq_ok.2 ⟨details, w, rfl, bind_eq_ok.2 ⟨_, _, ?_, rfl⟩⟩
    exact createPendingLink_eq_ok.2 ⟨hf, Store.createPendingLink_eq_ok.2 ⟨hcr, hpin, rfl, rfl⟩, rfl⟩

theorem pendingNode_eq_err
    (h : (pendingNode e spec).exec { details := some details } w = .err err w') :
    SameLinks w w' := by
  rcases bind_eq_err.1 h with hb | ⟨_, _, hb, h⟩
  · cases hb
  · cases hb
    rcases bind_eq_err.1 h with g | ⟨l, w1, -, g1⟩
    · rw [primErr_eq_err g]
      exact sameLinks_fail _ _
    · cases g1

/-! ## One link more -/

/-- The world `w'` has the links of `w` and the new link `l`, whose row names its pin. -/
structure OneMore (w : World) (l : LinkRow) (w' : World) : Prop where
  links : w'.store.links = w.store.links ++ [l]
  pins : ∀ id, id ≠ l.id → w'.link? (.link id) = w.link? (.link id)
  pinPath : l.pinPath = some (.link l.id)
  kind : ¬ (l.kind = .xdp ∨ l.kind = .tc)
  fresh : ∀ r ∈ w.store.links, r.id ≠ l.id ∧ r.pinPath ≠ some (.link l.id)

namespace OneMore

variable {l : LinkRow} {w2 : World}

theorem sameLinks (h : OneMore w l w') (hs : SameLinks w' w2) : OneMore w l w2 :=
  ⟨hs.1.trans h.links, fun id hid => (hs.link? _).trans (h.pins id hid), h.pinPath, h.kind, h.fresh⟩

theorem named (h : OneMore w l w') (hw : LinksNamed w) : LinksNamed w' := by
  intro id hid
  rw [h.links]
  by_cases hl : id = l.id
  · exact ⟨l, mem_append_right _ (mem_singleton_self l), hl ▸ h.pinPath⟩
  · obtain ⟨r, hr, hpin⟩ := hw id (h.pins id hl ▸ hid)
    exact ⟨r, mem_append_left _ hr, hpin⟩

/-- **Deleting the row of the new link** keeps the pins named unless the link is pinned. -/
theorem named_deleteLink (h : OneMore w l w') (hw : LinksNamed w) :
    LinksNamed (deleteLink e l.id w').state ↔
      w'.link? (.link l.id) = none ∨ e.fails (.deleteLink l.id) = true := by
  cases hf : e.fails (.deleteLink l.id) with
  | true =>
    have hdel : deleteLink e l.id w' =
        .err (.call (.deleteLink l.id)) (w'.fail (.deleteLink l.id)) := by
      simp only [deleteLink, primErr, hf, if_true]
    rw [hdel]
    exact iff_of_true ((sameLinks_fail w' _).named (h.named hw)) (.inr rfl)
  | false =>
    have hfind : w'.store.links.find? (·.id = l.id) = some l := by
      have hold : w.store.links.find? (·.id = l.id) = none :=
        find?_eq_none.2 fun r hr => by simpa using (h.fresh r hr).1
      rw [h.links, find?_append, hold]
      simp
    have hdel : deleteLink e l.id w' = .ok () { w' with store := w'.store.deleteLinks [l.id] } := by
      refine primErr_eq_ok.2 ⟨hf, ?_⟩
      simp only [Store.deleteLink, hfind, if_neg h.kind]
      rfl
    rw [hdel]
    have hrows : (w'.store.deleteLinks [l.id]).links = w.store.links := by
      simp only [Store.deleteLinks, h.links, filter_append]
      rw [filter_eq_self.2 fun r hr => by simpa using (h.fresh r hr).1]
      simp
    constructor
    · -- a pin of the new link is named by no row that is left
      intro hn
      refine .inl (Option.not_isSome_iff_eq_none.1 fun hpin => ?_)
      obtain ⟨r, hr, hrp⟩ := hn l.id hpin
      exact (h.fresh r (hrows ▸ hr)).2 hrp
    · rintro (hnone | hc)
      · intro id hid
        change (w'.link? (.link id)).isSome at hid
        have hne : id ≠ l.id := by
          rintro rfl
          rw [hnone] at hid
          cases hid
        rw [h.pins id hne] at hid
        change ∃ r ∈ (w'.store.deleteLinks [l.id]).links, _
        rw [hrows]
        exact hw id hid
      · cases hc

theorem pinned (h : OneMore w l w') : OneMore w l (w'.pinned e (.link l.id)) := by
  refine ⟨h.links, fun id hid => ?_, h.pinPath, h.kind, h.fresh⟩
  have hne : LinkPath.link id ≠ .link l.id := fun hc => hid (LinkPath.link.inj hc)
  exact (World.link?_addLink ..).trans ((if_neg hne).trans (h.pins id hid))

theorem detached (h : OneMore w l w') : OneMore w l (detachLink e (.link l.id) w').state := by
  cases hd : detachLink e (.link l.id) w' with
  | ok u w2 =>
    refine ⟨?_, fun id hid => ?_, h.pinPath, h.kind, h.fresh⟩
    · rw [Outcome.state_ok, detachLink_eq_ok hd]
      exact h.links
    · rw [Outcome.state_ok, detachLink_eq_ok hd]
      have hne : LinkPath.link id ≠ .link l.id := fun hc => hid (LinkPath.link.inj hc)
      exact (World.link?_eraseLink ..).trans ((if_neg hne).trans (h.pins id hid))
  | err err w2 =>
    rw [Outcome.state_err, (detachLink_eq_err hd).2]
    exact h.sameLinks (sameLinks_fail _ _)

end OneMore

/-- A pin survives `DetachLink` if the unlink fails. -/
theorem link?_detachLink (h : (w.link? p).isSome = true) :
    (detachLink e p w).state.link? p = none ↔ e.fails (.removeLink p) = false := by
  cases hd : detachLink e p w with
  | ok u w' =>
    obtain ⟨_, w1, h1, -⟩ := bind_eq_ok.1 hd
    refine iff_of_true ?_ (prim_eq_ok.1 h1).1
    rw [Outcome.state_ok, detachLink_eq_ok hd]
    exact (World.link?_eraseLink ..).trans (if_pos rfl)
  | err err w' =>
    obtain ⟨hf, rfl⟩ := detachLink_eq_err hd
    refine iff_of_false (fun hc => ?_) (by simp [hf])
    rw [show w.link? p = none from hc] at h
    cases h

/-! ## The states of an attach -/

/-- Recording the kernel link fails. -/
def FinaliseFails (e : Env) (w : World) (id : LinkID) : Prop :=
  e.fails (.finaliseLink id) = true ∨
    ∃ r ∈ w.store.links, r.kernelLinkID = some (e.linkID (.link id))

theorem OneMore.kernelLinkFree (h : OneMore w l w') {k : KernelLinkID} :
    w'.store.kernelLinkFree l.id k = true ↔ ¬ ∃ r ∈ w.store.links, r.kernelLinkID = some k := by
  simp only [Store.kernelLinkFree, h.links, all_append, Bool.and_eq_true, all_eq_true,
    Bool.or_eq_true, decide_eq_true_eq, mem_singleton]
  constructor
  · rintro ⟨hall, -⟩ ⟨r, hr, hk⟩
    exact (hall r hr).elim (h.fresh r hr).1 fun hne => hne hk
  · intro hno
    exact ⟨fun r hr => .inr fun hk => hno ⟨r, hr, hk⟩, fun r hr => .inl (congrArg _ hr)⟩

/-- The bindings once the link is attached. -/
def attachedBindings (e : Env) (details : ProbeDetails) (l : LinkRow) : SimpleBindings :=
  { details := some details, pending := some l, out := some (e.linkID (.link l.id)) }

theorem finaliseNode_cases (details : ProbeDetails) (h : OneMore w l w') :
    (FinaliseFails e w l.id ∧ ∃ err w2,
        (finaliseNode e).exec (attachedBindings e details l) w' = .err err w2 ∧ SameLinks w' w2) ∨
      (¬ FinaliseFails e w l.id ∧ ∃ b w2,
        (finaliseNode e).exec (attachedBindings e details l) w' = .ok b w2 ∧
          (LinksNamed w' → LinksNamed w2)) := by
  have hmem : ∃ r ∈ w'.store.links, r.id = l.id :=
    ⟨l, h.links ▸ mem_append_right _ (mem_singleton_self l), rfl⟩
  cases hx : finaliseLink e l.id (e.linkID (.link l.id)) w' with
  | err err w2 =>
    refine .inl ⟨?_, .wrap "save link metadata" err, w2, ?_, ?_⟩
    · by_contra hno
      obtain ⟨hf, hfree⟩ := not_or.1 hno
      obtain ⟨r, hr⟩ := (finaliseLink_isOk hmem).2 (h.kernelLinkFree.2 hfree)
      have hok : finaliseLink e l.id (e.linkID (.link l.id)) w' =
          .ok r.2 { w' with store := r.1 } := by
        refine primErr_eq_ok.2 ⟨by simpa using hf, ?_⟩
        rw [hr]
        rfl
      rw [hok] at hx
      cases hx
    · refine bind_eq_err.2 (.inr ⟨details, w', rfl, ?_⟩)
      refine bind_eq_err.2 (.inr ⟨l, w', rfl, ?_⟩)
      refine bind_eq_err.2 (.inr ⟨e.linkID (.link l.id), w', rfl, ?_⟩)
      exact bind_eq_err.2 (.inl (mapErr_eq_err.2 ⟨err, hx, rfl⟩))
    · rw [primErr_eq_err hx]
      exact sameLinks_fail _ _
  | ok l' w2 =>
    obtain ⟨hf, r, hfin, ⟨⟩⟩ := write_eq_ok.1 hx
    · have hfree := (finaliseLink_isOk hmem).1 ⟨r, hfin⟩
      refine .inr ⟨not_or.2 ⟨by simp [hf], h.kernelLinkFree.1 hfree⟩,
        { attachedBindings e details l with
          link := some (linkRecord r.2 (some (.probe details))) },
        { w' with store := r.1 }, ?_, fun hn => ?_⟩
      · refine bind_eq_ok.2 ⟨details, w', rfl, bind_eq_ok.2 ⟨l, w', rfl, ?_⟩⟩
        refine bind_eq_ok.2 ⟨e.linkID (.link l.id), w', rfl, ?_⟩
        exact bind_eq_ok.2 ⟨_, _, mapErr_eq_ok.2 hx, rfl⟩
      · intro id hid
        obtain ⟨x, hx, hpin⟩ := hn id hid
        rw [finaliseLink_eq_ok hfin]
        refine ⟨_, mem_map_of_mem hx, ?_⟩
        split <;> exact hpin

theorem states_finalise (details : ProbeDetails) (hw : LinksNamed w)
    (h : OneMore w l w') (hpin : (w'.link? (.link l.id)).isSome = true) :
    (∀ w2 ∈ statesFrom [finaliseNode e] (attachedBindings e details l)
        [[deleteLink e l.id], [detachLink e (.link l.id)]] w', LinksNamed w2) ↔
      ¬ (FinaliseFails e w l.id ∧ e.fails (.removeLink (.link l.id)) = true ∧
        e.fails (.deleteLink l.id) = false) := by
  rcases finaliseNode_cases details h with ⟨hf, err, w2, hx, hs⟩ | ⟨hf, b, w2, hx, hn⟩
  · rw [statesFrom_cons (by simp [finaliseNode]), hx]
    have h2 := h.sameLinks hs
    have h3 := h2.detached (e := e)
    have hpin2 : (w2.link? (.link l.id)).isSome = true := hs.link? _ ▸ hpin
    have hlast := h3.named_deleteLink (e := e) hw
    rw [link?_detachLink hpin2] at hlast
    constructor
    · rintro hall ⟨-, hrem, hdel⟩
      have := hlast.1 (hall _ (by simp [undoStates]))
      simp [hrem, hdel] at this
    · intro hno w3 hw3
      simp only [undoStates, reverse_cons, reverse_nil, nil_append, cons_append,
        flatten_cons, flatten_nil, append_nil, mem_cons, not_mem_nil,
        or_false] at hw3
      rcases hw3 with rfl | rfl | rfl
      · exact h2.named hw
      · exact h3.named hw
      · refine hlast.2 ?_
        cases hrem : e.fails (.removeLink (.link l.id)) with
        | false => exact .inl rfl
        | true => exact .inr (by_contra fun hdel => hno ⟨hf, hrem, by simpa using hdel⟩)
  · rw [statesFrom_cons (by simp [finaliseNode]), hx]
    refine iff_of_true (fun w3 hw3 => ?_) fun hc => hf hc.1
    obtain rfl : w3 = w2 := by simpa [statesFrom] using hw3
    exact hn (h.named hw)

theorem RecordsProbe.oneMore (h : RecordsProbe e spec w details) :
    OneMore w (pendingProbe e spec w details) (w.recorded (pendingProbe e spec w details)) :=
  ⟨rfl, fun _ _ => rfl, rfl, h.creates.kind, fun r hr =>
    ⟨((linkRowOK_iff.1 h.creates.row).1 r hr).1, h.pinPath r hr⟩⟩

/-- The attach pins the link and then its row goes: the link cannot be read back, or it cannot be
finalised and its pin cannot be unlinked. -/
structure PinOutlives (e : Env) (spec : ProbeAttachSpec) (w : World) (id : LinkID) : Prop where
  pins : PinsAt e spec w (.link id)
  fails : e.fails (.linkInfo (.link id)) = true ∨
    FinaliseFails e w id ∧ e.fails (.removeLink (.link id)) = true
  deletes : e.fails (.deleteLink id) = false

theorem states_attach (details : ProbeDetails) (hw : LinksNamed w)
    (h : OneMore w l (w.recorded l)) :
    (∀ w2 ∈ statesFrom [attachNode e spec, finaliseNode e]
        { details := some details, pending := some l } [[deleteLink e l.id]] (w.recorded l),
        LinksNamed w2) ↔ ¬ PinOutlives e spec w l.id := by
  have hpins : PinsAt e spec (w.recorded l) (.link l.id) ↔ PinsAt e spec w (.link l.id) :=
    ⟨fun h => ⟨h.1, h.2, h.3, h.4, h.5, h.6⟩, fun h => ⟨h.1, h.2, h.3, h.4, h.5, h.6⟩⟩
  have hexec : (attachNode e spec).exec { details := some details, pending := some l }
      (w.recorded l) = ((spec.target.attach e (.prog spec.programID) (.link l.id)) >>= fun out =>
        pure { details := some details, pending := some l, out := some out }) (w.recorded l) := by
    change (bound l.pinPath >>= _) (w.recorded l) = _
    rw [h.pinPath]
    rfl
  -- a node that fails is followed by the deletion of the row
  have herr : ∀ err w2, (attachNode e spec).exec { details := some details, pending := some l }
      (w.recorded l) = .err err w2 → OneMore w l w2 →
      ((∀ w3 ∈ statesFrom [attachNode e spec, finaliseNode e]
        { details := some details, pending := some l } [[deleteLink e l.id]] (w.recorded l),
        LinksNamed w3) ↔ w2.link? (.link l.id) = none ∨ e.fails (.deleteLink l.id) = true) := by
    intro err w2 hx h2
    rw [statesFrom_cons (by simp [attachNode]), hx, ← h2.named_deleteLink hw]
    refine ⟨fun hall => hall _ (by simp [undoStates]), fun hn w3 hw3 => ?_⟩
    simp only [undoStates, reverse_cons, reverse_nil, nil_append, flatten_cons,
      flatten_nil, append_nil, mem_cons, not_mem_nil, or_false] at hw3
    rcases hw3 with rfl | rfl
    · exact h2.named hw
    · exact hn
  have hpinned : ((w.recorded l).pinned e (.link l.id)).link? (.link l.id) =
      some (.standalone (e.linkID (.link l.id))) := (World.link?_addLink ..).trans (if_pos rfl)
  rcases attach_cases e spec (w.recorded l) (.link l.id) with
    ⟨hp, err, w2, ha, hs⟩ | ⟨hp, -, hinfo, err, w2, ha, hs⟩ | ⟨hp, hinfo, ha⟩
  · rw [herr err w2 (hexec.trans (bind_of_err ha)) (h.sameLinks hs)]
    refine iff_of_true (.inl ?_) fun hc => hp (hpins.2 hc.pins)
    -- a pin at the path of the new link would have a row
    rw [hs.link?]
    refine Option.not_isSome_iff_eq_none.1 fun hsome => ?_
    obtain ⟨r, hr, hrp⟩ := hw l.id hsome
    exact (h.fresh r hr).2 hrp
  · rw [herr err w2 (hexec.trans (bind_of_err ha)) (h.pinned.sameLinks hs), hs.link?, hpinned]
    constructor
    · rintro (hc | hdel) hout
      · cases hc
      · rw [hout.deletes] at hdel
        cases hdel
    · intro hno
      exact .inr (by_contra fun hdel => hno ⟨hpins.1 hp, .inl hinfo, by simpa using hdel⟩)
  · rw [statesFrom_cons (by simp [attachNode]), hexec.trans (bind_of_ok ha)]
    have hun : appendUndos [[deleteLink e l.id]] (attachNode e spec)
        (attachedBindings e details l) = [[deleteLink e l.id], [detachLink e (.link l.id)]] := by
      simp [appendUndos, attachNode, attachedBindings, h.pinPath]
    have hfin := states_finalise (e := e) details hw (h.pinned (e := e)) (by rw [hpinned]; rfl)
    rw [← hun] at hfin
    refine forall_mem_cons.trans ((and_iff_right (h.pinned.named hw)).trans
      (hfin.trans (not_congr ?_)))
    constructor
    · rintro ⟨hf, hrem, hdel⟩
      exact ⟨hpins.1 hp, .inr ⟨hf, hrem⟩, hdel⟩
    · rintro ⟨-, hf | ⟨hf, hrem⟩, hdel⟩
      · rw [hinfo] at hf
        cases hf
      · exact ⟨hf, hrem, hdel⟩

/-- An attach leaves a pin behind that no row names. -/
def LeavesPin (e : Env) (scope : Bool) (spec : ProbeAttachSpec) (w : World) : Prop :=
  ∃ details, Prepares e scope spec w details ∧ RecordsProbe e spec w details ∧
    PinOutlives e spec w (w.store.linkSeq + 1)

theorem Prepares.unique {d d' : ProbeDetails} (h : Prepares e scope spec w d)
    (h' : Prepares e scope spec w d') : d = d' := by
  obtain ⟨prog, hget, hd⟩ := h.details
  obtain ⟨prog', hget', hd'⟩ := h'.details
  cases hget.symm.trans hget'
  exact Except.ok.inj (hd.symm.trans hd')

/-- **Every pin is named by a row in every state of a probe attach**, and of its rollback, exactly
if the attach does not leave a pin behind. -/
theorem linksNamed_iff (hw : LinksNamed w) :
    (∀ w' ∈ planStates (simpleAttachPlan e scope spec) {} w, LinksNamed w') ↔
      ¬ LeavesPin e scope spec w := by
  unfold planStates simpleAttachPlan
  cases hprep : (prepareNode e scope spec).exec {} w with
  | err err w1 =>
    have hs : SameLinks w ((prepareNode e scope spec).exec {} w).state := sameLinks_prepareNode {} w
    rw [hprep] at hs
    rw [statesFrom_cons (by simp [prepareNode]), hprep]
    refine iff_of_true (fun w' hw' => ?_) ?_
    · obtain rfl : w' = w1 := by simpa [undoStates] using hw'
      exact hs.named hw
    · rintro ⟨details, hp, -⟩
      cases hprep.symm.trans (prepareNode_eq_ok.2 ⟨details, hp, rfl, rfl⟩)
  | ok b w1 =>
    obtain ⟨details, hp, rfl, rfl⟩ := prepareNode_eq_ok.1 hprep
    rw [statesFrom_cons (by simp [prepareNode]), hprep, forall_mem_cons, and_iff_right hw]
    change (∀ w' ∈ statesFrom _ _ [] _, LinksNamed w') ↔ _
    cases hpend : (pendingNode e spec).exec { details := some details } w1 with
    | err err w2 =>
      rw [statesFrom_cons (by simp [pendingNode]), hpend]
      refine iff_of_true (fun w' hw' => ?_) ?_
      · obtain rfl : w' = w2 := by simpa [undoStates] using hw'
        exact (pendingNode_eq_err hpend).named hw
      · rintro ⟨details', hp', hr, -⟩
        cases hp.unique hp'
        cases hpend.symm.trans (pendingNode_eq_ok.2 ⟨hr, rfl, rfl⟩)
    | ok b w2 =>
      obtain ⟨hr, rfl, rfl⟩ := pendingNode_eq_ok.1 hpend
      rw [statesFrom_cons (by simp [pendingNode]), hpend, forall_mem_cons,
        and_iff_right (hr.oneMore.named hw)]
      refine (states_attach details hw hr.oneMore).trans (not_congr ?_)
      constructor
      · intro hout
        exact ⟨details, hp, hr, hout⟩
      · rintro ⟨-, -, -, hout⟩
        exact hout

namespace Sample

/-- A loaded kprobe program. -/
def probed : World where
  store := { programs := [programRow 7 "k" .kprobe], mapSets := [⟨7, .mapDir 7⟩] }
  progPins := [(.prog 7, ⟨7, none⟩)]

theorem probed_named : LinksNamed probed := by
  intro id hid
  cases hid

def kprobe : ProbeAttachSpec := ⟨7, .kprobe "do_exit" 0, []⟩

/-- A state with the pin of link 1 and without its row. -/
theorem not_linksNamed {w : World} (h : (w.link? (.link 1)).isSome && w.store.links.isEmpty) :
    ¬ LinksNamed w := by
  intro hn
  obtain ⟨hpin, hrows⟩ := Bool.and_eq_true_iff.1 h
  obtain ⟨l, hl, -⟩ := hn 1 hpin
  rw [isEmpty_iff.1 hrows] at hl
  cases hl

end Sample

open Sample

/-- A link that cannot be finalised is unlinked before its row is deleted. -/
theorem linksNamed_iff_sample :
    let e := env 1 [.finaliseLink 1]
    let plan := simpleAttachPlan e true kprobe
    (runPlan plan {} probed).isOk = false ∧
      ∀ w' ∈ planStates plan {} probed, LinksNamed w' := by
  refine ⟨by decide +kernel, (linksNamed_iff probed_named).2 ?_⟩
  rintro ⟨-, -, -, -, hinfo | ⟨-, hrem⟩, -⟩
  · exact absurd hinfo (by decide)
  · exact absurd hrem (by decide)

/-- The pin stays without a row if the link cannot be read back, and if it can neither be finalised
nor unlinked. -/
theorem probe_attach_leaves_pin :
    LinksNamed probed ∧
      ∀ faults ∈ [[Call.linkInfo (.link 1)], [.finaliseLink 1, .removeLink (.link 1)]],
        let plan := simpleAttachPlan (env 1 faults) true kprobe
        ∃ w' ∈ planStates plan {} probed, ¬ LinksNamed w' := by
  have hrun : ∀ faults ∈ [[Call.linkInfo (.link 1)], [.finaliseLink 1, .removeLink (.link 1)]],
      (planStates (simpleAttachPlan (env 1 faults) true kprobe) {} probed).any
        (fun w => (w.link? (.link 1)).isSome && w.store.links.isEmpty) = true := by
    decide +kernel
  refine ⟨probed_named, fun faults hf => ?_⟩
  obtain ⟨w', hmem, hw'⟩ := any_eq_true.1 (hrun faults hf)
  exact ⟨w', hmem, not_linksNamed hw'⟩

end Bpfman
