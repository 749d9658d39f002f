import Bpfman.ManagerProof

/-!
# What a successful rebuild leaves

A successful attach, or detach with members left, replaces the dispatcher of one attach point.
`Rebuilt` collects what holds of the world after it: the program the outer attachment runs, the
extension in every slot, the rows in the store. `rebuilt_of_ok` reads it off a successful call.
-/

namespace Bpfman

open Fallible Proc List Store World

variable {e : Env} {w w' : World} {key : Key} {r : Nat} {slots : List RebuildSlot}

/-! ## The member written for a slot -/

/-- The member spec a rebuild writes for slot `i`. -/
def memberSpec (e : Env) (key : Key) (r i : Nat) (slot : RebuildSlot) : DispatcherMemberSpec where
  existingLinkID := slot.existingLinkID
  programID := slot.programID
  programName := slot.programName
  progPinPath := slot.progPinPath
  kernelLinkID := some (e.linkID (.extension key r i))
  linkPinPath := some (.extension key r i)
  position := i
  priority := slot.priority
  proceedOn := slot.proceedOn
  ifname := slot.ifname
  metadata := slot.metadata

theorem getElem?_dispatcherMembers (slots : List RebuildSlot) (i : Nat) :
    (dispatcherMembers slots (attachedFrom e key r 0 slots.length))[i]? =
      (slots[i]?).map (memberSpec e key r i) := by
  unfold dispatcherMembers
  rw [getElem?_map, getElem?_zipIdx]
  cases hs : slots[i]? with
  | none =>
    have hlen := getElem?_eq_none_iff.1 hs
    have hz : (slots.zip (attachedFrom e key r 0 slots.length))[i]? = none := by
      refine getElem?_eq_none_iff.2 ?_
      rw [length_zip]
      omega
    rw [hz]
    rfl
  | some slot =>
    have hlt : i < slots.length := (List.getElem?_eq_some_iff.1 hs).1
    have ha : (attachedFrom e key r 0 slots.length)[i]? = some (attachedAt e key r i) := by
      rw [attachedFrom, getElem?_map, getElem?_range' hlt]
      simp
    have hz : (slots.zip (attachedFrom e key r 0 slots.length))[i]? =
        some (slot, attachedAt e key r i) := getElem?_zip_eq_some.2 ⟨hs, ha⟩
    rw [hz]
    simp [memberSpec, attachedAt]

/-! ## The outer attachment -/

/-- The outer attachment recorded by `rt` runs `P`: the outer XDP link, or the TC filter with the
recorded priority and handle. -/
def Runs (w : World) (key : Key) (rt : DispatcherRuntime) (P : Prog) : Prop :=
  rt.programID = P.id ∧
    if isTCDispatcherType key.type then
      rt.filterPriority = some tcDispatcherPriority ∧ ∃ h, h ≠ 0 ∧ rt.filterHandle = some h ∧
        (⟨key, tcDispatcherPriority, h, P⟩ : Filter) ∈ w.filters
    else ∃ id, w.link? (.dispatcherLink key) = some (.outer id key P)

/-- The outer attachment depends on the outer link and the filters of its attach point. -/
theorem Runs.frame {rt : DispatcherRuntime} {P : Prog} (h : Runs w key rt P)
    (hlink : w'.link? (.dispatcherLink key) = w.link? (.dispatcherLink key))
    (hfilters : ∀ f : Filter, f.key = key → f ∈ w.filters → f ∈ w'.filters) : Runs w' key rt P := by
  refine ⟨h.1, ?_⟩
  have hr := h.2
  by_cases htc : isTCDispatcherType key.type = true
  · rw [if_pos htc] at hr ⊢
    obtain ⟨hp, x, hx, hh, hm⟩ := hr
    exact ⟨hp, x, hx, hh, hfilters _ rfl hm⟩
  · rw [if_neg htc] at hr ⊢
    rwa [hlink]

/-- A swap pointed the outer attachment at `P` and changed nothing else of interest. -/
structure SwapDone (key : Key) (rt : DispatcherRuntime) (P : Prog) (w w' : World) : Prop where
  store : w'.store = w.store
  progPins : w'.progPins = w.progPins
  link : ∀ q, q ≠ .dispatcherLink key → w'.link? q = w.link? q
  runs : Runs w' key rt P

section Swaps

variable {netns : String} {P : Prog} {rt : DispatcherRuntime}

theorem swapDone_xdpCreate (hk : key.type = .xdp) (hP : w.prog? (.dispatcher key r) = some P)
    (h : (xdpCreateSwap e key r netns).swap P.id w = .ok rt w') : SwapDone key rt P w w' := by
  obtain ⟨disp, hd, -, rfl, rfl⟩ := xdpCreateSwap_eq_ok h
  obtain rfl : P = disp := Option.some.inj (hP.symm.trans hd)
  refine ⟨rfl, rfl, fun q hq => ?_, rfl, ?_⟩
  · rw [link?_addLink, if_neg hq]
    rfl
  · rw [hk, isTCDispatcherType, if_neg (by simp)]
    exact ⟨_, by rw [link?_addLink, if_pos rfl]⟩

theorem swapDone_xdpUpdate {old : Nat} {linkID : Option KernelLinkID} (hk : key.type = .xdp)
    (hP : w.prog? (.dispatcher key r) = some P)
    (ho : ∃ id Q, w.link? (.dispatcherLink key) = some (.outer id key Q))
    (h : (xdpUpdateSwap e key r old linkID netns).swap P.id w = .ok rt w') :
    SwapDone key rt P w w' := by
  obtain ⟨disp, i, k, prev, hd, hl, rfl, rfl⟩ := xdpUpdateSwap_eq_ok h
  obtain rfl : P = disp := Option.some.inj (hP.symm.trans hd)
  obtain ⟨id, Q, ho⟩ := ho
  rw [ho] at hl
  cases hl
  refine ⟨rfl, rfl, fun q hq => ?_, rfl, ?_⟩
  · rw [link?_setLink, if_neg hq]
  · rw [hk, isTCDispatcherType, if_neg (by simp)]
    exact ⟨i, by rw [link?_setLink, if_pos rfl, ho]; rfl⟩

/-- The old filter a swap deletes is in the kernel, so it is not the new one. -/
theorem swapDone_tc {text : String} {old : Option (Nat × Nat × Nat)}
    {f : ProgramID → ProgramID → ProgramID} (hf : ∀ i, f i i = i)
    (hk : isTCDispatcherType key.type = true) (hP : w.prog? (.dispatcher key r) = some P)
    (ho : ∀ o p x, old = some (o, p, x) →
      ∃ y ∈ w.filters, y.key = key ∧ y.priority = p ∧ y.handle = x)
    (h : (tcSwap e key r netns text old f).swap P.id w = .ok rt w') : SwapDone key rt P w w' := by
  obtain ⟨disp, hnet, hd, hno, hz, rfl, hdrop⟩ := tcSwap_eq_ok h
  obtain rfl : P = disp := Option.some.inj (hP.symm.trans hd)
  have hmem : newFilter e key r P ∈ (w.addFilter (newFilter e key r P)).filters :=
    Finset.mem_insert_self _ _
  have hruns : ∀ w', newFilter e key r P ∈ w'.filters →
      Runs w' key ⟨f P.id P.id, none, some tcDispatcherPriority,
        some (newFilter e key r P).handle, netns⟩ P := by
    intro w' hm
    refine ⟨hf _, ?_⟩
    rw [if_pos hk]
    exact ⟨rfl, _, hz, rfl, hm⟩
  rcases dropOldFilter_eq_ok hnet hdrop with ⟨rfl, -⟩ | ⟨o, p, x, rfl, -, hrest⟩
  · exact ⟨rfl, rfl, fun _ _ => rfl, hruns _ hmem⟩
  · rcases hrest with ⟨-, rfl⟩ | ⟨-, rfl⟩
    · refine ⟨rfl, rfl, fun _ _ => rfl, hruns _ (Finset.mem_filter.2 ⟨hmem, ?_⟩)⟩
      rintro ⟨-, hp, hx⟩
      obtain ⟨y, hy, hyk, hyp, hyx⟩ := ho o p x rfl
      exact hno y hy hyk (hyp.trans hp.symm) (hyx.trans hx.symm)
    · exact ⟨rfl, rfl, fun _ _ => rfl, hruns _ hmem⟩

/-- The filter a TC snapshot records is the one its outer attachment runs. -/
theorem Runs.oldFilter {Q : Prog} (h : Runs w key rt Q) (hk : isTCDispatcherType key.type = true) :
    ∃ y ∈ w.filters, y.key = key ∧ y.priority = (Bpfman.oldFilter rt).1 ∧
      y.handle = (Bpfman.oldFilter rt).2 := by
  obtain ⟨-, h⟩ := h
  rw [if_pos hk] at h
  obtain ⟨hp, x, -, hx, hm⟩ := h
  exact ⟨_, hm, rfl, by simp [Bpfman.oldFilter, hp], by simp [Bpfman.oldFilter, hp, hx]⟩

theorem Runs.outer {Q : Prog} (h : Runs w key rt Q) (hk : key.type = .xdp) :
    ∃ id Q, w.link? (.dispatcherLink key) = some (.outer id key Q) := by
  obtain ⟨-, h⟩ := h
  rw [hk, isTCDispatcherType, if_neg (by simp)] at h
  obtain ⟨id, h⟩ := h
  exact ⟨id, Q, h⟩

theorem swapDone_attach {spec : AttachSpec} {snap : Option DispatcherSnapshot}
    {cfg : Config} (hk : key.type = spec.dispatcherType)
    (hP : w.prog? (.dispatcher key (attachRevision snap)) = some P)
    (ho : ∀ s, snap = some s → ∃ Q, Runs w key s.runtime Q)
    (h : ((spec.kind e).plan e key snap slots cfg).swap.swap P.id w = .ok rt w') :
    SwapDone key rt P w w' := by
  cases spec with
  | xdp sp =>
    cases snap with
    | none => exact swapDone_xdpCreate hk hP h
    | some s =>
      obtain ⟨Q, hQ⟩ := ho s rfl
      exact swapDone_xdpUpdate hk hP (hQ.outer hk) h
  | tc d sp =>
    have htc : isTCDispatcherType key.type = true := by
      rw [hk]
      cases d <;> rfl
    refine swapDone_tc (f := fun loaded _ => loaded) (fun _ => rfl) htc hP (fun o p x hold => ?_) h
    cases snap with
    | none => simp at hold
    | some s =>
      obtain ⟨Q, hQ⟩ := ho s rfl
      simp only [Option.map_some, Option.some.injEq, Prod.mk.injEq] at hold
      obtain ⟨-, hold⟩ := hold
      have := hQ.oldFilter htc
      rwa [hold] at this

theorem swapDone_detach {snap : DispatcherSnapshot} {cfg : Config}
    (hP : w.prog? (.dispatcher snap.key r) = some P) (ho : ∃ Q, Runs w snap.key snap.runtime Q)
    (h : ((detachKind e snap.key).plan e snap slots r cfg).swap.swap P.id w = .ok rt w') :
    SwapDone snap.key rt P w w' := by
  obtain ⟨Q, hQ⟩ := ho
  unfold detachKind at h
  split at h
  · rename_i hk
    exact swapDone_xdpUpdate hk hP (hQ.outer hk) h
  · rename_i hk
    have htc : isTCDispatcherType snap.key.type = true := by
      cases ht : snap.key.type with
      | xdp => exact absurd ht hk
      | tcIngress | tcEgress => rfl
    refine swapDone_tc (f := fun _ created => created) (fun _ => rfl) htc hP
      (fun o p x hold => ?_) h
    simp only [Option.some.injEq, Prod.mk.injEq] at hold
    obtain ⟨-, hold⟩ := hold
    have := hQ.oldFilter htc
    rwa [hold] at this

end Swaps

/-! ## The world after a rebuild -/

/-- Nothing is pinned for the revision of the attach point. -/
def World.Unpinned (w : World) (key : Key) (r : Nat) : Prop :=
  w.prog? (.dispatcher key r) = none ∧ ∀ i, w.link? (.extension key r i) = none

/-- The snapshot of a rebuild was written: `s'` is the store with it. -/
def Recorded (e : Env) (p : RebuildPlan) (rt : DispatcherRuntime) (s s' : Store) : Prop :=
  ∃ completed, s.replaceDispatcherSnapshot e.now (p.spec e rt) = .ok (s', completed)

/-- The world after the dispatcher of `p` replaced the old one: `ps` fill its slots, `rt` is the
recorded outer attachment. -/
structure Rebuilt (e : Env) (p : RebuildPlan) (w w' : World) (ps : List Prog)
    (rt : DispatcherRuntime) : Prop where
  free : p.Free e w p.slots.length
  opens : Opens (p.loaded e w) p.slots ps
  runs : Runs w' p.key rt (p.disp e)
  pinned : w'.prog? (.dispatcher p.key p.revision) = some (p.disp e)
  extension : ∀ i q, ps[i]? = some q → w'.link? (.extension p.key p.revision i) =
    some (.extension (e.linkID (.extension p.key p.revision i)) (p.disp e) i q)
  others : ∀ k n, ¬ (k = p.key ∧ n = p.revision) → w.Unpinned k n → w'.Unpinned k n
  swap : ∃ w₂, p.swap.swap (p.disp e).id (p.filled e w ps) = .ok rt w₂ ∧ w'.filters = w₂.filters
  store : Recorded e p rt w.store w'.store

/-- The directory of the old revision was removed, or its removal failed. -/
def Dropped (key : Key) (old : Option Nat) (w w' : World) : Prop :=
  match old with
  | none => w' = w
  | some o => w' = w.removeAll (.revision key o) ∨ w' = w.fail (.removeAll (.revision key o))

section Dropped

variable {old : Option Nat}

theorem Dropped.store (h : Dropped key old w w') : w'.store = w.store := by
  cases old with
  | none => rw [h]
  | some o => rcases h with rfl | rfl <;> rfl

theorem Dropped.filters (h : Dropped key old w w') : w'.filters = w.filters := by
  cases old with
  | none => rw [h]
  | some o => rcases h with rfl | rfl <;> rfl

theorem World.Unpinned.removeAll {k : Key} {n : Nat} (h : w.Unpinned k n) (d : Dir) :
    (w.removeAll d).Unpinned k n :=
  ⟨by rw [prog?_removeAll, h.1, ite_self], fun i => by rw [link?_removeAll, h.2, ite_self]⟩

theorem Dropped.unpinned (h : Dropped key old w w') {k : Key} {n : Nat} (hw : w.Unpinned k n) :
    w'.Unpinned k n := by
  cases old with
  | none => rwa [h]
  | some o =>
    rcases h with rfl | rfl
    exacts [hw.removeAll _, hw]

theorem Dropped.prog? (h : Dropped key old w w') {q : ProgPinPath}
    (hq : ∀ o, old = some o → q.parent ≠ .revision key o) : w'.prog? q = w.prog? q := by
  cases old with
  | none => rw [h]
  | some o =>
    rcases h with rfl | rfl
    · rw [prog?_removeAll, if_neg (hq o rfl)]
    · rfl

theorem Dropped.link? (h : Dropped key old w w') {q : LinkPath}
    (hq : ∀ o, old = some o → q.parent ≠ .revision key o) : w'.link? q = w.link? q := by
  cases old with
  | none => rw [h]
  | some o =>
    rcases h with rfl | rfl
    · rw [link?_removeAll, if_neg (hq o rfl)]
    · rfl

theorem Dropped.runs {rt : DispatcherRuntime} {P : Prog} (h : Dropped key old w w')
    (hr : Runs w key rt P) : Runs w' key rt P :=
  hr.frame (h.link? fun o _ => by simp [LinkPath.parent]) fun f _ hf => h.filters ▸ hf

section Unpinned

variable {k : Key} {n : Nat} {snap : DispatcherSnapshot}

theorem unpinned_of_dropRevision (hf : e.fails (.removeAll (.revision k n)) = false)
    (h : dropRevision e k n w = .ok () w') : w'.Unpinned k n := by
  rcases ignore_eq_ok.1 h with ⟨_, hr⟩ | ⟨_, hr⟩
  · rw [removeAll_eq_ok hr]
    exact ⟨(prog?_removeAll ..).trans (if_pos rfl),
      fun _ => (link?_removeAll ..).trans (if_pos rfl)⟩
  · simpa [hf] using (prim_eq_err.1 hr).1

theorem World.Unpinned.detachLink {q : LinkPath} (hw : w.Unpinned k n)
    (h : detachLink e q w = .ok () w') : w'.Unpinned k n := by
  rw [detachLink_eq_ok h]
  exact ⟨hw.1, fun i => (link?_eraseLink ..).trans (by rw [hw.2 i, ite_self])⟩

theorem World.Unpinned.detachOuter (hw : w.Unpinned k n) (h : detachOuter e snap w = .ok () w') :
    w'.Unpinned k n := by
  unfold Bpfman.detachOuter at h
  split at h
  · have h := mapErr_eq_ok.1 h
    unfold detachTCDispatcherFilter at h
    cases hh : snap.runtime.filterHandle with
    | none =>
      rw [hh] at h
      cases h
      exact hw
    | some handle =>
      simp only [hh, detachTCFilter] at h
      split_ifs at h
      · obtain ⟨-, ⟨⟩⟩ := prim_eq_ok.1 h
        exact hw
      all_goals cases h; exact hw
  · exact hw.detachLink (mapErr_eq_ok.1 h)

/-- The removal of a dispatcher pins nothing, and unpins its revision if the directory goes. -/
theorem removeEmptyDispatcher_unpinned (h : removeEmptyDispatcher e snap w = .ok () w') :
    (∀ k n, w.Unpinned k n → w'.Unpinned k n) ∧
      (e.fails (.removeAll (.revision snap.key snap.revision)) = false →
        w'.Unpinned snap.key snap.revision) := by
  rw [removeEmptyDispatcher_eq] at h
  obtain ⟨_, w1, h1, g1⟩ := bind_eq_ok.1 h
  obtain ⟨_, w2, h2, g2⟩ := bind_eq_ok.1 g1
  obtain ⟨_, w3, h3, g3⟩ := bind_eq_ok.1 g2
  obtain ⟨s', -, rfl⟩ := deleteDispatcherSnapshot_eq_ok (mapErr_eq_ok.1 g3)
  have hdrop : Dropped snap.key (some snap.revision) w2 w3 := dropRevision_eq_ok h3
  refine ⟨fun k n hw => ?_, fun hf => show w3.Unpinned _ _ from unpinned_of_dropRevision hf h3⟩
  have hw1 := hw.detachOuter h1
  suffices h : w2.Unpinned k n from hdrop.unpinned h
  rcases ignore_eq_ok.1 h2 with ⟨_, h2⟩ | ⟨_, h2⟩
  · rw [removePin_eq_ok h2]
    exact ⟨by rw [prog?_eraseProg, hw1.1, ite_self], hw1.2⟩
  · rw [(prim_eq_err.1 h2).2.2]
    exact hw1

end Unpinned

/-- **A successful rebuild leaves** the new dispatcher attached, pinned, filled and recorded. -/
theorem rebuilt_of_ok {p : RebuildPlan} {completed : DispatcherSnapshot}
    {attached : List AttachedExt} {w1 : World} (hold : ∀ o, old = some o → p.revision ≠ o)
    (hswap : ∀ ps rt w2, p.swap.swap (p.disp e).id (p.filled e w ps) = .ok rt w2 →
      SwapDone p.key rt (p.disp e) (p.filled e w ps) w2)
    (h : rebuildDispatcher e p w = .ok (completed, attached) w1) (hd : Dropped p.key old w1 w') :
    ∃ ps rt, Rebuilt e p w w' ps rt := by
  obtain ⟨ps, rt, w2, s', hfree, hopens, -, hsw, hst, rfl⟩ := rebuildDispatcher_eq_ok h
  have hdone := hswap ps rt w2 hsw
  have hdir : ∀ o, old = some o → Dir.revision p.key p.revision ≠ .revision p.key o := by
    intro o ho heq
    exact hold o ho (Dir.revision.inj heq).2
  have hprog : ∀ q, w2.prog? q = (p.filled e w ps).prog? q := fun q => by
    unfold prog?
    rw [hdone.progPins]
  refine ⟨ps, rt, hfree, hopens, hd.runs hdone.runs, ?_, ?_, ?_, ⟨w2, hsw, hd.filters⟩, completed,
    ?_⟩
  · rw [hd.prog? (q := .dispatcher p.key p.revision) hdir]
    exact (hprog _).trans (mem_filled_disp w ps)
  · intro i q hq
    rw [hd.link? (q := .extension p.key p.revision i) hdir]
    have hlt : i < ps.length := (List.getElem?_eq_some_iff.1 hq).1
    have : w2.link? (.extension p.key p.revision i) =
        (p.filled e w ps).link? (.extension p.key p.revision i) := hdone.link _ (by simp)
    refine this.trans ?_
    rw [RebuildPlan.filled, link?_addExts]
    dsimp only
    rw [if_pos ⟨rfl, rfl, by omega, by omega⟩, Nat.sub_zero, hq]
    rfl
  · refine fun k n hne hw => hd.unpinned ⟨(hprog _).trans ?_, fun i => ?_⟩
    · rw [RebuildPlan.filled, addExts_prog?, loaded_prog?, if_neg (by simpa using hne)]
      exact hw.1
    · refine (hdone.link _ (by simp)).trans ?_
      rw [RebuildPlan.filled, link?_addExts]
      exact (if_neg fun h => hne ⟨h.1, h.2.1⟩).trans (hw.2 i)
  · rw [hd.store]
    rw [hdone.store] at hst
    exact hst

end Dropped

/-! ## The rows after a rebuild -/

section Rows

variable {p : RebuildPlan} {rt : DispatcherRuntime} {s s' : Store}

/-- The rows of the member written for slot `i`. -/
structure Written (e : Env) (p : RebuildPlan) (rt : DispatcherRuntime) (i : Nat)
    (slot : RebuildSlot) (m : MemberRow) : Prop where
  at_slot : p.slots[i]? = some slot
  id : ∀ id, slot.existingLinkID = some id → m.detail.id = id
  codes : proceedOnActions p.key.type slot.proceedOn = .ok m.detail.proceedOn
  detail : m.detail = Store.memberDetailRow p.key rt m.detail.id m.detail.proceedOn
    (memberSpec e p.key p.revision i slot)
  link : m.link = Store.memberLinkRow e.now p.key m.detail.id (memberSpec e p.key p.revision i slot)

/-- The slots of a rebuild carry masks of 32 bits. -/
def MasksFit (slots : List RebuildSlot) : Prop :=
  ∀ s ∈ slots, ∀ b, s.proceedOn.testBit b = true → b < 32

theorem specOK_dispatcherMembers (hb : MasksFit slots) {m : DispatcherMemberSpec}
    (hm : m ∈ dispatcherMembers slots (attachedFrom e key r 0 slots.length)) : SpecOK m := by
  obtain ⟨i, hi⟩ := mem_iff_getElem?.1 hm
  rw [getElem?_dispatcherMembers] at hi
  obtain ⟨slot, hslot, rfl⟩ := Option.map_eq_some_iff.1 hi
  exact ⟨rfl, hb slot (mem_of_getElem? hslot)⟩

theorem Recorded.consistent (h : Recorded e p rt s s') (hs : s.Consistent)
    (hb : MasksFit p.slots) : s'.Consistent := by
  obtain ⟨completed, hst⟩ := h
  exact consistent_replace hs (fun m hm => specOK_dispatcherMembers hb hm) hst

theorem Recorded.details (h : Recorded e p rt s s') :
    ∃ ns : List NewMember, (∀ i, (ns[i]?).map (·.spec) =
        (p.slots[i]?).map (memberSpec e p.key p.revision i)) ∧
      (∀ n ∈ ns, proceedOnActions p.key.type n.spec.proceedOn = .ok n.codes ∧
        ∀ id, n.spec.existingLinkID = some id → n.id = id) ∧
      s'.details.filter (·.key = p.key) = ns.map (·.detail p.key rt) ∧
      ∀ n ∈ ns, n.link e.now p.key ∈ s'.links := by
  obtain ⟨completed, hst⟩ := h
  obtain ⟨ns, hns, hok, hl, hd, -⟩ := replace_spec hst
  refine ⟨ns, fun i => ?_, hok, ?_, fun n hn => ?_⟩
  · rw [← getElem?_map, hns]
    exact getElem?_dispatcherMembers p.slots i
  · rw [hd]
    exact filter_replaced s p.key rt ns
  · rw [hl]
    exact mem_append_right _ (mem_map_of_mem hn)

/-- **Every member row after a rebuild** is the one written for a slot. -/
theorem Recorded.written (h : Recorded e p rt s s') (hs' : s'.Consistent) {m : MemberRow}
    (hm : m ∈ s'.memberRows p.key) : ∃ i slot, Written e p rt i slot m := by
  obtain ⟨hrow, hk⟩ := (mem_memberRows hs').1 hm
  obtain ⟨ns, hns, hok, hd, hl⟩ := h.details
  have hmem : m.detail ∈ s'.details.filter (·.key = p.key) :=
    mem_filter.2 ⟨hrow.detail, by simpa using hk⟩
  rw [hd] at hmem
  obtain ⟨n, hn, hnd⟩ := mem_map.1 hmem
  obtain ⟨i, hi⟩ := mem_iff_getElem?.1 hn
  have hspec := hns i
  rw [hi, Option.map_some] at hspec
  obtain ⟨slot, hslot, hmap⟩ := Option.map_eq_some_iff.1 hspec.symm
  have hlink : m.link = n.link e.now p.key :=
    Table.eq_of_key hs'.linkIDs hrow.link (hl n hn) (hrow.link_id.trans (by rw [← hnd]; rfl))
  have hcodes := (hok n hn).1
  rw [← hmap] at hcodes
  refine ⟨i, slot, hslot, fun id hid => ?_, ?_, ?_, ?_⟩
  · rw [← hnd]
    exact (hok n hn).2 id (by rw [← hmap]; exact hid)
  · rw [← hnd]
    exact hcodes
  · rw [hmap, ← hnd]
    rfl
  · rw [hmap, ← hnd]
    exact hlink

theorem Recorded.exists_written (h : Recorded e p rt s s') (hs' : s'.Consistent) {i : Nat}
    {slot : RebuildSlot} (hslot : p.slots[i]? = some slot) :
    ∃ m ∈ s'.memberRows p.key, Written e p rt i slot m := by
  obtain ⟨ns, hns, -, hd, -⟩ := h.details
  have hspec := hns i
  rw [hslot, Option.map_some] at hspec
  obtain ⟨n, hn, hnspec⟩ := Option.map_eq_some_iff.1 hspec
  have hmem : n.detail p.key rt ∈ s'.details.filter (·.key = p.key) := by
    rw [hd]
    exact mem_map_of_mem (mem_of_getElem? hn)
  obtain ⟨hdm, -⟩ := mem_filter.1 hmem
  obtain ⟨m, hrow, hmd⟩ := exists_memberRow hs' hdm
  have hm : m ∈ s'.memberRows p.key := (mem_memberRows hs').2 ⟨hrow, by rw [hmd]; rfl⟩
  obtain ⟨j, slot', hw⟩ := h.written hs' hm
  -- the position of a written row is its slot
  have hj : m.detail.position = j := by rw [hw.detail]; rfl
  have hi : m.detail.position = i := by rw [hmd, NewMember.detail, hnspec]; rfl
  obtain rfl : j = i := hj.symm.trans hi
  obtain rfl : slot' = slot := Option.some.inj (hw.at_slot.symm.trans hslot)
  exact ⟨m, hm, hw⟩

end Rows

theorem nextRevision_ne (o : Nat) : nextRevision o ≠ o := by
  unfold nextRevision
  omega

end Bpfman
