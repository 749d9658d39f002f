import Bpfman.Executor
import Bpfman.RebuildProof
import Bpfman.StoreRead

/-!
# The executor: what a dispatcher action did

Success and failure of the swaps and of the attach and detach rebuilds. Every action of an attach
point stays at that attach point (`At`), extends the log and fails only by a primitive.

* `rebuildForAttach_eq_ok`, `rebuildDispatcherForDetach_cases` — what a successful action ran;
* `keeps_at_rebuildDispatcherForDetach` — nothing else changed.
-/

namespace Bpfman

open Fallible Proc

variable {e : Env} {w w' : World} {key : Key} {r : Nat} {netns : String}

variable {old : Option (Nat × Nat × Nat)} {id : ProgramID} {rt : DispatcherRuntime}
  {text : String} {f : ProgramID → ProgramID → ProgramID}

/-! ## Swaps -/

theorem adapts_xdpCreateSwap : (xdpCreateSwap e key r netns).Adapts where
  swap _ := (adapts_createXDPLink _ _ _).mapErr.bind fun _ => .pure _
  restore _ := (adapts_detachLink _).ignore

theorem adapts_xdpUpdateSwap {old : Nat} {linkID : Option KernelLinkID} :
    (xdpUpdateSwap e key r old linkID netns).Adapts where
  swap _ := (adapts_updateXDPDispatcherLink _ _).mapErr.bind fun _ => .pure _
  restore _ := (adapts_updateXDPDispatcherLink _ _).ignore

theorem adapts_dropOldFilter (old : Option (Nat × Nat × Nat)) :
    Adapts (dropOldFilter e key netns old) := by
  cases old with
  | none => exact .pure ()
  | some o => exact (adapts_detachTCFilter _ _ _).ignore.ite (.pure ())

theorem adapts_restoreOldFilter (old : Option (Nat × Nat × Nat)) :
    Adapts (restoreOldFilter e key netns old) := by
  cases old with
  | none => exact .pure ()
  | some o => exact (adapts_createTCFilter _ _ _).ignore.ite (.pure ())

theorem adapts_tcSwap : (tcSwap e key r netns text old f).Adapts where
  swap _ := (adapts_createTCFilter _ _ _).mapErr.bind fun _ =>
    (adapts_dropOldFilter old).bind fun _ => .pure _
  restore _ := (adapts_detachTCFilter _ _ _).ignore.bind fun _ => adapts_restoreOldFilter old

theorem local_xdpCreateSwap : (xdpCreateSwap e key r netns).Local key where
  adapts := adapts_xdpCreateSwap
  swap _ := (keeps_at_createXDPLink _ _).mapErr.bind fun _ => .pure _
  restore _ := (keeps_at_detachLink (.inl rfl)).ignore

theorem local_xdpUpdateSwap {old : Nat} {linkID : Option KernelLinkID} :
    (xdpUpdateSwap e key r old linkID netns).Local key where
  adapts := adapts_xdpUpdateSwap
  swap _ := (keeps_at_updateXDPDispatcherLink _).mapErr.bind fun _ => .pure _
  restore _ := (keeps_at_updateXDPDispatcherLink _).ignore

theorem keeps_at_dropOldFilter (old : Option (Nat × Nat × Nat)) :
    Keeps (At key) (dropOldFilter e key netns old) := by
  cases old with
  | none => exact .pure ()
  | some o => exact (keeps_at_detachTCFilter _ _ _).ignore.ite (.pure ())

theorem keeps_at_restoreOldFilter (old : Option (Nat × Nat × Nat)) :
    Keeps (At key) (restoreOldFilter e key netns old) := by
  cases old with
  | none => exact .pure ()
  | some o => exact (keeps_at_createTCFilter _ _ _).ignore.ite (.pure ())

theorem local_tcSwap : (tcSwap e key r netns text old f).Local key where
  adapts := adapts_tcSwap
  swap _ := (keeps_at_createTCFilter _ _ _).mapErr.bind fun _ =>
    (keeps_at_dropOldFilter old).bind fun _ => .pure _
  restore _ := (keeps_at_detachTCFilter _ _ _).ignore.bind fun _ => keeps_at_restoreOldFilter old

theorem xdpCreateSwap_eq_ok (h : (xdpCreateSwap e key r netns).swap id w = .ok rt w') :
    ∃ disp, w.prog? (.dispatcher key r) = some disp ∧ w.link? (.dispatcherLink key) = none ∧
      rt = xdpRuntime id (some (e.linkID (.dispatcherLink key))) netns ∧
      w' = (w.mkdirAll (.typeDir key.type)).addLink (.dispatcherLink key)
        (.outer (e.linkID (.dispatcherLink key)) key disp) := by
  obtain ⟨lid, w1, h1, h2⟩ := bind_eq_ok.1 h
  obtain ⟨disp, hd, rfl, hn, rfl⟩ := createXDPLink_eq_ok (mapErr_eq_ok.1 h1)
  cases h2
  exact ⟨disp, hd, hn, rfl, rfl⟩

theorem xdpUpdateSwap_eq_ok {old : Nat} {linkID : Option KernelLinkID}
    (h : (xdpUpdateSwap e key r old linkID netns).swap id w = .ok rt w') :
    ∃ disp i k prev, w.prog? (.dispatcher key r) = some disp ∧
      w.link? (.dispatcherLink key) = some (.outer i k prev) ∧ rt = xdpRuntime id linkID netns ∧
      w' = w.setLink (.dispatcherLink key) (.outer i k disp) := by
  obtain ⟨_, w1, h1, h2⟩ := bind_eq_ok.1 h
  obtain ⟨disp, i, k, prev, hd, hl, rfl⟩ := updateXDPDispatcherLink_eq_ok (mapErr_eq_ok.1 h1)
  cases h2
  exact ⟨disp, i, k, prev, hd, hl, rfl, rfl⟩

/-- The filter a TC swap adds. -/
def newFilter (e : Env) (key : Key) (r : Nat) (disp : Prog) : Filter :=
  ⟨key, tcDispatcherPriority, newFilterHandle e (.dispatcher key r) 0, disp⟩

theorem tcSwap_eq_ok (h : (tcSwap e key r netns text old f).swap id w = .ok rt w') :
    ∃ disp, netnsPresent e netns = true ∧ w.prog? (.dispatcher key r) = some disp ∧
      (∀ x ∈ w.filters, x.key = key → x.priority = tcDispatcherPriority →
        x.handle ≠ (newFilter e key r disp).handle) ∧
      (newFilter e key r disp).handle ≠ 0 ∧
      rt = { programID := f id disp.id, kernelLinkID := none
             filterPriority := some tcDispatcherPriority
             filterHandle := some (newFilter e key r disp).handle, netnsPath := netns } ∧
      dropOldFilter e key netns old (w.addFilter (newFilter e key r disp)) = .ok () w' := by
  obtain ⟨res, w1, h1, h2⟩ := bind_eq_ok.1 h
  obtain ⟨disp, hnet, hd, hno, hz, rfl, rfl⟩ := createTCFilter_eq_ok (mapErr_eq_ok.1 h1)
  obtain ⟨_, w2, h3, h4⟩ := bind_eq_ok.1 h2
  cases h4
  exact ⟨disp, hnet, hd, hno, hz, rfl, h3⟩

theorem dropOldFilter_eq_ok (hn : netnsPresent e netns = true)
    (h : dropOldFilter e key netns old w = .ok () w') :
    (w' = w ∧ ∀ o p x, old = some (o, p, x) → x = 0) ∨
      ∃ o p x, old = some (o, p, x) ∧ x ≠ 0 ∧
        ((e.fails (.delFilter key p x) = false ∧ w' = w.deleteFilter key p x) ∨
          (e.fails (.delFilter key p x) = true ∧ w' = w.fail (.delFilter key p x))) := by
  rcases old with - | ⟨o, p, x⟩
  · cases h
    exact .inl ⟨rfl, by simp⟩
  · unfold dropOldFilter at h
    by_cases hx : x = 0
    · simp only [hx, ne_eq, not_true_eq_false, if_false] at h
      cases h
      exact .inl ⟨rfl, by simp [hx]⟩
    · simp only [ne_eq, hx, not_false_eq_true, if_true] at h
      refine .inr ⟨o, p, x, rfl, hx, ?_⟩
      rcases ignore_eq_ok.1 h with ⟨a, hd⟩ | ⟨er, hd⟩
      · exact .inl (detachTCFilter_eq_ok hn hd)
      · exact .inr (detachTCFilter_eq_err hd)

/-! ## Attach -/

/-- The snapshot an attach starts from: the one in the store, or none if there is none. -/
theorem existingSnapshot_eq_ok {snap : Option DispatcherSnapshot}
    (h : existingSnapshot e key w = .ok snap w') :
    w' = w ∧ ((∃ s, snap = some s ∧ w.store.getDispatcherSnapshot e.rowOrder key = .ok s) ∨
      (snap = none ∧ ∃ er, w.store.getDispatcherSnapshot e.rowOrder key = .error er)) := by
  obtain ⟨res, w1, h1, h2⟩ := bind_eq_ok.1 h
  rcases attempt_eq_ok.1 h1 with ⟨s, rfl, h3⟩ | ⟨er, rfl, h3⟩
  · obtain ⟨-, hs, rfl⟩ := query_eq_ok.1 h3
    cases h2
    exact ⟨rfl, .inl ⟨s, rfl, hs⟩⟩
  · rcases query_eq_err h3 with ⟨rfl, hn⟩ | ⟨rfl, hs, hn⟩
    · simp only [hn] at h2
      cases h2
    · simp only [hn, if_true] at h2
      cases h2
      exact ⟨rfl, .inr ⟨rfl, er, hs⟩⟩

section Attach

variable {k : AttachKind} {a : RebuildArgs} {snap : Option DispatcherSnapshot}

def RebuildArgs.slots (a : RebuildArgs) (snap : Option DispatcherSnapshot) : List RebuildSlot :=
  sortRebuildSlots (a.allSlots snap)

theorem reportExtension_eq_ok {codes : List Int} {position : Nat} {attached : List AttachedExt}
    {completed : DispatcherSnapshot} {res : ExtensionResult}
    (h : reportExtension a key r codes position attached completed w = .ok res w') :
    res.key = key ∧ w' = w ∧ ∃ ext m, attached[position]? = some ext ∧
      completed.members[position]? = some m ∧
      res.link = newExtRecord a key r codes position ext m completed.runtime := by
  unfold reportExtension at h
  cases h1 : attached[position]? <;> cases h2 : completed.members[position]? <;>
    rw [h1, h2] at h <;> cases h
  exact ⟨rfl, rfl, _, _, rfl, rfl, rfl⟩

theorem eq_attachedAt {i n : Nat} {ext : AttachedExt}
    (h : (attachedFrom e key r 0 n)[i]? = some ext) : ext = attachedAt e key r i := by
  rw [attachedFrom, List.getElem?_map] at h
  obtain ⟨j, hj, rfl⟩ := Option.map_eq_some_iff.1 h
  obtain ⟨hlt, rfl⟩ := List.getElem?_eq_some_iff.1 hj
  rw [List.getElem_range', Nat.one_mul, Nat.zero_add]

/-- **A successful attach rebuild**: the snapshot it read, the rebuild it ran on the members and the
new slot, the removal of the old revision, and the link it reports. -/
theorem rebuildForAttach_eq_ok {res : ExtensionResult} (h : rebuildForAttach e k a w = .ok res w') :
    ∃ nsid snap cfg completed w1, e.nsid a.netnsPath = some nsid ∧
      res.key = ⟨k.type, nsid, a.ifindex⟩ ∧ existingSnapshot e res.key w = .ok snap w ∧
      (a.allSlots snap).length ≤ maxPrograms ∧ k.config (a.slots snap) = .ok cfg ∧
      rebuildDispatcher e (k.plan e res.key snap (a.slots snap) cfg) w =
        .ok (completed, attachedFrom e res.key (attachRevision snap) 0 (a.slots snap).length) w1 ∧
      dropOldRevision e res.key snap w1 = .ok () w' ∧
      ∃ codes m, proceedOnActions k.type a.proceedOn = .ok codes ∧
        completed.members[newSlotPosition (a.slots snap)]? = some m ∧
        res.link = newExtRecord a res.key (attachRevision snap) codes
          (newSlotPosition (a.slots snap))
          (attachedAt e res.key (attachRevision snap) (newSlotPosition (a.slots snap))) m
          completed.runtime := by
  obtain ⟨nsid, w1, h1, g1⟩ := bind_eq_ok.1 h
  obtain ⟨hns, rfl⟩ := lookup_eq_ok (mapErr_eq_ok.1 h1)
  obtain ⟨snap, w2, h2, g2⟩ := bind_eq_ok.1 g1
  obtain ⟨rfl, -⟩ := existingSnapshot_eq_ok h2
  split at g2
  · cases g2
  · rename_i hlen
    obtain ⟨cfg, w3, h3, g3⟩ := bind_eq_ok.1 g2
    obtain ⟨hcfg, rfl⟩ := lift_eq_ok.1 (mapErr_eq_ok.1 h3)
    obtain ⟨⟨completed, attached⟩, w4, h4, g4⟩ := bind_eq_ok.1 g3
    obtain ⟨_, w5, h5, g5⟩ := bind_eq_ok.1 g4
    obtain ⟨codes, w6, h6, g6⟩ := bind_eq_ok.1 g5
    obtain ⟨hcodes, rfl⟩ := lift_eq_ok.1 (mapErr_eq_ok.1 h6)
    have hatt : attached = attachedFrom e ⟨k.type, nsid, a.ifindex⟩ (attachRevision snap) 0
        (a.slots snap).length := by
      obtain ⟨ps, rt, w2, s', -, -, hatt, -⟩ := rebuildDispatcher_eq_ok h4
      exact hatt
    subst hatt
    obtain ⟨hkey, rfl, ext, m, hext, hm, hlink⟩ := reportExtension_eq_ok g6
    rw [eq_attachedAt hext] at hlink
    rw [hkey]
    exact ⟨nsid, snap, cfg, completed, w4, hns, rfl, h2, by omega, hcfg, h4, h5, codes, m, hcodes,
      hm, hlink⟩

end Attach

/-! ## Detach -/

theorem dropRevision_eq_ok {r : Nat} (h : dropRevision e key r w = .ok () w') :
    w' = w.removeAll (.revision key r) ∨ w' = w.fail (.removeAll (.revision key r)) := by
  rcases ignore_eq_ok.1 h with ⟨a, hr⟩ | ⟨er, hr⟩
  · exact .inl (removeAll_eq_ok hr)
  · exact .inr (prim_eq_err.1 hr).2.2

theorem journaled_dropRevision (key : Key) (r : Nat) : Journaled (dropRevision e key r) :=
  .ignore (adapts_removeAll _).logs

theorem keeps_at_dropRevision (r : Nat) : Keeps (At key) (dropRevision e key r) :=
  (keeps_at_removeAll r).ignore

/-- The detach rebuild of an attach point. -/
def detachKind (e : Env) (key : Key) : DetachKind :=
  if key.type = .xdp then xdpDetach e else tcDetach e

section Detach

variable {k : DetachKind} {snap : DispatcherSnapshot}

theorem rebuildForDetach_eq_ok {slots : List RebuildSlot}
    (h : rebuildForDetach e k snap slots r w = .ok () w') :
    ∃ cfg completed w1, k.config slots = .ok cfg ∧
      rebuildDispatcher e (k.plan e snap slots r cfg) w =
        .ok (completed, attachedFrom e snap.key r 0 slots.length) w1 ∧
      dropRevision e snap.key snap.revision w1 = .ok () w' := by
  obtain ⟨cfg, w1, h1, g1⟩ := bind_eq_ok.1 h
  obtain ⟨hcfg, rfl⟩ := lift_eq_ok.1 (mapErr_eq_ok.1 h1)
  obtain ⟨⟨completed, attached⟩, w2, h2, g2⟩ := bind_eq_ok.1 g1
  have hatt : attached = attachedFrom e snap.key r 0 slots.length := by
    obtain ⟨ps, rt, w2, s', -, -, hatt, -⟩ := rebuildDispatcher_eq_ok h2
    exact hatt
  subst hatt
  exact ⟨cfg, completed, w2, hcfg, h2, g2⟩

/-- The snapshot of a detach rebuild: the one in the store without the detached member. -/
def DispatcherSnapshot.without (snap : DispatcherSnapshot) (id : LinkID) : DispatcherSnapshot :=
  { snap with members := remainingMembers snap id }

def DispatcherSnapshot.slots (snap : DispatcherSnapshot) : List RebuildSlot :=
  sortRebuildSlots (snap.members.map detachSlot)

/-- Whether a detach removes the dispatcher: no member is left, or its namespace is gone. -/
def removesDispatcher (e : Env) (snap : DispatcherSnapshot) : Bool :=
  snap.members.length = 0 || netnsGone e snap.runtime.netnsPath

theorem removesDispatcher_eq_false {s : Store} {ord : RowOrder} {snap : DispatcherSnapshot}
    {id : LinkID} (hget : s.getDispatcherSnapshot ord key = .ok snap) {other : MemberRow}
    (ho : other ∈ s.memberRows key) (hne : other.link.id ≠ id)
    (hns : netnsGone e snap.runtime.netnsPath = false) :
    removesDispatcher e (snap.without id) = false := by
  obtain ⟨m, hm, hdec⟩ := Store.exists_member_of_row hget ho
  have hmem : m ∈ (snap.without id).members := by
    refine List.mem_filter.2 ⟨hm, ?_⟩
    rw [hdec.linkID]
    simpa using hne
  have hlen : (snap.without id).members.length ≠ 0 := by
    rw [Ne, List.length_eq_zero_iff]
    exact List.ne_nil_of_mem hmem
  have hns' : netnsGone e (snap.without id).runtime.netnsPath = false := hns
  simp [removesDispatcher, hlen, hns']

/-- The rebuild a detach runs when members are left. -/
def detachRebuild (e : Env) (key : Key) (snap : DispatcherSnapshot) (id : LinkID) (cfg : Config) :
    RebuildPlan :=
  (detachKind e key).plan e (snap.without id) (snap.without id).slots
    (nextRevision snap.revision) cfg

/-- What a rebuild for a detach does with the snapshot it read. -/
abbrev detachFrom (e : Env) (key : Key) (id : LinkID) (snap : DispatcherSnapshot) : M Unit :=
  if removesDispatcher e (snap.without id) then removeEmptyDispatcher e (snap.without id)
  else
    rebuildForDetach e (detachKind e key) (snap.without id) (snap.without id).slots
      (nextRevision snap.revision)

theorem rebuildDispatcherForDetach_eq (e : Env) (key : Key) (id : LinkID) :
    rebuildDispatcherForDetach e key id =
      mapErr (.wrap "get dispatcher snapshot") (getDispatcherSnapshot e key) >>=
        detachFrom e key id := by
  unfold rebuildDispatcherForDetach
  congr 1
  funext snap
  simp only [detachFrom, removesDispatcher, Bool.or_eq_true, decide_eq_true_eq]
  by_cases h1 : (remainingMembers snap id).length = 0
  · simp [h1, DispatcherSnapshot.without]
  · by_cases h2 : netnsGone e snap.runtime.netnsPath = true
    · simp [h1, h2, DispatcherSnapshot.without]
    · by_cases h3 : key.type = .xdp
      · simp [h1, h2, h3, DispatcherSnapshot.without, DispatcherSnapshot.slots, detachKind,
          rebuildXDPForDetach]
      · simp [h1, h2, h3, DispatcherSnapshot.without, DispatcherSnapshot.slots, detachKind,
          rebuildTCForDetach]

end Detach

/-! ## Removing a dispatcher -/

section Remove

variable {snap : DispatcherSnapshot}

theorem sameStore_prim {α : Type} {c : Call} {f : World → Option (α × World)}
    (hf : ∀ w, Yields SameStore w (f w)) : Keeps SameStore (prim e c f) :=
  keeps_prim (fun _ _ => rfl) hf

/-- Detach the outer attachment of a dispatcher. -/
def detachOuter (e : Env) (snap : DispatcherSnapshot) : M Unit :=
  if isTCDispatcherType snap.key.type then
    mapErr (.wrap "detach TC dispatcher filter") (detachTCDispatcherFilter e snap)
  else mapErr (.wrap "detach XDP outer link") (detachLink e (.dispatcherLink snap.key))

theorem removeEmptyDispatcher_eq :
    removeEmptyDispatcher e snap = (do
      detachOuter e snap
      ignore (removePin e (.dispatcher snap.key snap.revision))
      ignore (removeAll e (.revision snap.key snap.revision))
      mapErr (.wrap "delete dispatcher snapshot") (deleteDispatcherSnapshot e snap.key)) := by
  unfold removeEmptyDispatcher detachOuter
  split <;> rfl

theorem adapts_detachOuter : Adapts (detachOuter e snap) := by
  refine .ite (.mapErr ?_) (adapts_detachLink _).mapErr
  unfold detachTCDispatcherFilter
  cases snap.runtime.filterHandle with
  | none => exact .pure ()
  | some handle => exact (adapts_detachTCFilter _ _ _).ite (.pure ())

theorem keeps_at_detachOuter : Keeps (At snap.key) (detachOuter e snap) := by
  refine .ite (.mapErr ?_) (keeps_at_detachLink (.inl rfl)).mapErr
  unfold detachTCDispatcherFilter
  cases snap.runtime.filterHandle with
  | none => exact .pure ()
  | some handle => exact (keeps_at_detachTCFilter _ _ _).ite (.pure ())

theorem deleteDispatcherSnapshot_eq_ok (h : deleteDispatcherSnapshot e key w = .ok () w') :
    ∃ s', w.store.deleteDispatcherSnapshot key = .ok s' ∧ w' = { w with store := s' } := by
  obtain ⟨-, s', hd, ⟨⟩⟩ := write_eq_ok.1 h
  exact ⟨s', hd, rfl⟩

theorem journaled_deleteDispatcherSnapshot (key : Key) :
    Journaled (deleteDispatcherSnapshot e key) :=
  journaled_write fun _ _ => rfl

theorem keeps_at_deleteDispatcherSnapshot : Keeps (At key) (deleteDispatcherSnapshot e key) := by
  refine keeps_write at_fail fun w s' hd => ?_
  obtain rfl := Store.deleteDispatcherSnapshot_eq_ok hd
  exact { refl_of (At key) w with programs := rfl }

theorem journaled_removeEmptyDispatcher : Journaled (removeEmptyDispatcher e snap) := by
  rw [removeEmptyDispatcher_eq]
  exact adapts_detachOuter.journaled.bind fun _ =>
    (adapts_removePin _).ignore.journaled.bind fun _ =>
      (adapts_removeAll _).ignore.journaled.bind fun _ =>
        (journaled_deleteDispatcherSnapshot _).mapErr

theorem keeps_at_removeEmptyDispatcher : Keeps (At snap.key) (removeEmptyDispatcher e snap) := by
  rw [removeEmptyDispatcher_eq]
  exact keeps_at_detachOuter.bind fun _ => (keeps_at_removePin _).ignore.bind fun _ =>
    (keeps_at_removeAll _).ignore.bind fun _ => keeps_at_deleteDispatcherSnapshot.mapErr

theorem removeEmptyDispatcher_eq_ok (h : removeEmptyDispatcher e snap w = .ok () w') :
    w.store.deleteDispatcherSnapshot snap.key = .ok w'.store := by
  rw [removeEmptyDispatcher_eq] at h
  obtain ⟨_, w1, h1, g1⟩ := bind_eq_ok.1 h
  obtain ⟨_, w2, h2, g2⟩ := bind_eq_ok.1 g1
  obtain ⟨_, w3, h3, g3⟩ := bind_eq_ok.1 g2
  obtain ⟨s', hs, rfl⟩ := deleteDispatcherSnapshot_eq_ok (mapErr_eq_ok.1 g3)
  have hsame : SameStore w w1 := adapts_detachOuter.store.ok h1
  have hsame2 : SameStore w1 w2 := (adapts_removePin _).store.ignore.ok h2
  have hsame3 : SameStore w2 w3 := (adapts_removeAll _).store.ignore.ok h3
  rwa [hsame3, hsame2, hsame] at hs

end Remove

/-! ## Every action stays at its attach point -/

theorem local_attachPlan_xdp (key : Key) (snap : Option DispatcherSnapshot)
    (slots : List RebuildSlot) (cfg : Config) :
    ((xdpAttach e netns).plan e key snap slots cfg).Local where
  swap := by
    cases snap with
    | none => exact local_xdpCreateSwap
    | some s => exact local_xdpUpdateSwap
  adapts := adapts_removePin _
  cleanup := keeps_at_removePin _

theorem local_attachPlan_tc (direction : TCDirection) (key : Key)
    (snap : Option DispatcherSnapshot) (slots : List RebuildSlot) (cfg : Config) :
    ((tcAttach e direction netns).plan e key snap slots cfg).Local where
  swap := by
    dsimp only [AttachKind.plan, tcAttach]
    exact local_tcSwap
  adapts := adapts_removePin _
  cleanup := keeps_at_removePin _

theorem local_detachPlan (key : Key) (snap : DispatcherSnapshot) (slots : List RebuildSlot)
    (r : Nat) (cfg : Config) : ((detachKind e key).plan e snap slots r cfg).Local where
  swap := by
    unfold detachKind
    split
    · exact local_xdpUpdateSwap
    · dsimp only [DetachKind.plan, tcDetach]
      exact local_tcSwap
  adapts := adapts_removeAll _
  cleanup := keeps_at_removeAll _

theorem keeps_at_rebuildForDetach (key : Key) (snap : DispatcherSnapshot)
    (slots : List RebuildSlot) (r : Nat) :
    Keeps (At snap.key) (rebuildForDetach e (detachKind e key) snap slots r) :=
  (Keeps.lift _).mapErr.bind fun cfg =>
    (keeps_at_rebuildDispatcher (local_detachPlan key snap slots r cfg)).bind fun _ =>
      keeps_at_dropRevision _

theorem keeps_at_rebuildDispatcherForDetach (key : Key) (id : LinkID) :
    Keeps (At key) (rebuildDispatcherForDetach e key id) := by
  rw [rebuildDispatcherForDetach_eq]
  refine .bind_of (P := fun snap => snap.key = key) (keeps_query at_fail).mapErr ?_ ?_
  · intro w snap w' h
    obtain ⟨-, hs, -⟩ := query_eq_ok.1 (mapErr_eq_ok.1 h)
    obtain ⟨r, -, -, hk, -⟩ := Store.getDispatcherSnapshot_eq_ok hs
    exact hk
  · rintro snap rfl
    exact keeps_at_removeEmptyDispatcher.ite
      (keeps_at_rebuildForDetach snap.key (snap.without id) _ _)

theorem logs_detachFrom {id : LinkID} (snap : DispatcherSnapshot) :
    Keeps Logs (detachFrom e key id snap) :=
  journaled_removeEmptyDispatcher.extend.ite ((Keeps.lift _).mapErr.bind fun cfg =>
    (journaled_rebuildDispatcher (local_detachPlan key _ _ _ cfg)).extend.bind fun _ =>
      (journaled_dropRevision _ _).extend)

theorem logs_rebuildDispatcherForDetach (key : Key) (id : LinkID) :
    Keeps Logs (rebuildDispatcherForDetach e key id) := by
  rw [rebuildDispatcherForDetach_eq]
  exact logs_query.mapErr.bind logs_detachFrom

theorem rebuildDispatcherForDetach_cases {id : LinkID}
    (h : rebuildDispatcherForDetach e key id w = .ok () w') :
    ∃ snap, w.store.getDispatcherSnapshot e.rowOrder key = .ok snap ∧
      (removesDispatcher e (snap.without id) = true ∧
          w.store.deleteDispatcherSnapshot key = .ok w'.store ∧
          removeEmptyDispatcher e (snap.without id) w = .ok () w' ∨
        removesDispatcher e (snap.without id) = false ∧
          rebuildForDetach e (detachKind e key) (snap.without id) (snap.without id).slots
            (nextRevision snap.revision) w = .ok () w') := by
  rw [rebuildDispatcherForDetach_eq] at h
  obtain ⟨snap, w1, h1, hrest⟩ := bind_eq_ok.1 h
  obtain ⟨-, hget, rfl⟩ := query_eq_ok.1 (mapErr_eq_ok.1 h1)
  obtain ⟨row, -, -, rfl, -⟩ := Store.getDispatcherSnapshot_eq_ok hget
  refine ⟨snap, hget, ?_⟩
  unfold detachFrom at hrest
  split at hrest
  · rename_i hrem
    exact .inl ⟨hrem, removeEmptyDispatcher_eq_ok hrest, hrest⟩
  · rename_i hrem
    exact .inr ⟨by simpa using hrem, hrest⟩

end Bpfman
