import Bpfman.RebuildFailure

/-!
# Failed attaches

An attach that fails at one step, with the compensating calls succeeding, takes the store, the outer
attachment and the pins back. It does not take back the directory of the new revision: the cleanup
of an attach unlinks the dispatcher pin and leaves the directory it was made in.

* `attach_failed` — the world a failed attach leaves;
* `attach_restores_iff` — the worlds and steps for which that is the world before.
-/

namespace Bpfman

open Fallible Proc World

variable {e : Env} {w w' : World} {spec : AttachSpec} {c : Call}

/-! ## Where an attach fails -/

/-- The revision the next attach creates at an attach point. -/
def Store.nextAttachRevision (s : Store) (key : Key) : Nat :=
  match s.dispatchers.find? (·.key = key) with
  | some row => nextRevision row.revision
  | none => 1

theorem harmless_existingSnapshot (key : Key) : Harmless (existingSnapshot e key) := by
  refine ⟨fun h => (existingSnapshot_eq_ok h).1, fun {w err w'} h => ?_⟩
  rcases bind_eq_err.1 h with h | ⟨res, w1, h1, h2⟩
  · unfold attempt at h
    split at h <;> cases h
  · rcases attempt_eq_ok.1 h1 with ⟨s, rfl, h3⟩ | ⟨er, rfl, h3⟩
    · cases h2
    · have hw : w' = w1 := by
        dsimp only at h2
        split at h2
        · cases h2
        · cases h2
          rfl
      rw [hw]
      exact (harmless_query rfl).err h3

theorem harmless_netnsNSID (netns : String) : Harmless (netnsNSID e netns) :=
  harmless_prim rfl fun _ => .map fun _ => rfl

theorem harmless_interfaceByName (ifname netns : String) :
    Harmless (interfaceByName e ifname netns) :=
  harmless_prim rfl fun _ => .map fun _ => rfl

theorem harmless_getProgramFromStore (id : ProgramID) : Harmless (getProgramFromStore e id) :=
  harmless_query rfl

theorem harmless_getProgram (id : ProgramID) : Harmless (getProgram e id) :=
  (harmless_getProgramFromStore id).mapErr

theorem harmless_encodeProceedOn : Harmless (encodeProceedOn spec) := by
  cases spec with
  | xdp s => exact harmless_lift _
  | tc d s => exact (harmless_lift _).mapErr

/-- What follows a successful rebuild can only fail to remove the old revision. -/
theorem tolerates_dropOldRevision (key : Key) (snap : Option DispatcherSnapshot) :
    Keeps Tolerates (dropOldRevision e key snap) := by
  cases snap with
  | none => exact Keeps.pure ()
  | some s => exact fun w => @tolerates_dropRevision e _ _ key s.revision rfl

theorem tolerates_reportExtension {a : RebuildArgs} {key : Key} {r : Nat} {codes : List Int}
    {position : Nat} {attached : List AttachedExt} {completed : DispatcherSnapshot} :
    Keeps Tolerates (reportExtension a key r codes position attached completed) := by
  unfold reportExtension
  split
  · exact Keeps.pure _
  · exact Keeps.fail _

/-- **The step at which an attach rebuild failed**: a read before it, or the rebuild itself. -/
theorem rebuildForAttach_failed {k : AttachKind} {a : RebuildArgs}
    (hswap : ∀ {key snap r id F rt w1}, (k.swap key snap r).swap id F = .ok rt w1 → Tolerates F w1)
    (hlog : (rebuildForAttach e k a w).state.failed = c :: w.failed) (hc : c.bestEffort = false) :
    (rebuildForAttach e k a w).isOk = false ∧
      ((c.residue = .nothing ∧ (rebuildForAttach e k a w).state = w.fail c) ∨
        ∃ nsid snap cfg, e.nsid a.netnsPath = some nsid ∧
          existingSnapshot e ⟨k.type, nsid, a.ifindex⟩ w = .ok snap w ∧
          RebuildFailed e (k.plan e ⟨k.type, nsid, a.ifindex⟩ snap (a.slots snap) cfg) w
            (rebuildForAttach e k a w).state) := by
  unfold rebuildForAttach at hlog ⊢
  rcases (harmless_netnsNSID a.netnsPath).mapErr.bind_failed hlog with
    ⟨hres, hok, hst⟩ | ⟨nsid, h1, heq1⟩
  · exact ⟨hok, .inl ⟨hres, hst⟩⟩
  rw [heq1] at hlog ⊢
  obtain ⟨hns, -⟩ := lookup_eq_ok (mapErr_eq_ok.1 h1)
  rcases (harmless_existingSnapshot _).bind_failed hlog with ⟨hres, hok, hst⟩ | ⟨snap, h2, heq2⟩
  · exact ⟨hok, .inl ⟨hres, hst⟩⟩
  rw [heq2] at hlog ⊢
  dsimp only at hlog ⊢
  split at hlog
  · exact absurd hlog.symm (List.cons_ne_self _ _)
  · rename_i hlen
    rw [if_neg hlen]
    rcases (harmless_lift _).mapErr.bind_failed hlog with ⟨hres, hok, hst⟩ | ⟨cfg, h3, heq3⟩
    · exact ⟨hok, .inl ⟨hres, hst⟩⟩
    rw [heq3] at hlog ⊢
    cases hreb : rebuildDispatcher e (k.plan e ⟨k.type, nsid, a.ifindex⟩ snap
        (sortRebuildSlots (a.allSlots snap)) cfg) w with
    | err er w1 =>
      rw [bind_of_err hreb]
      exact ⟨rfl, .inr ⟨nsid, snap, cfg, hns, h2, rebuildDispatcher_eq_err hreb⟩⟩
    | ok res w1 =>
      -- after the rebuild only tolerated calls fail
      rw [bind_of_ok hreb] at hlog
      refine absurd ((trans_of Tolerates (tolerates_rebuildDispatcher hswap hreb) ?_).bestEffort
        hlog) (by simp [hc])
      exact Keeps.bind (tolerates_dropOldRevision _ snap) (fun _ =>
        (Keeps.lift _).mapErr.bind fun _ => tolerates_reportExtension) w1

theorem AttachSpec.tolerates_swap {key : Key} {snap : Option DispatcherSnapshot} {r : Nat}
    {id : ProgramID} {F w1 : World} {rt : DispatcherRuntime}
    (h : ((spec.kind e).swap key snap r).swap id F = .ok rt w1) : Tolerates F w1 := by
  cases spec with
  | xdp s =>
    cases snap with
    | none =>
      obtain ⟨disp, -, -, -, rfl⟩ := xdpCreateSwap_eq_ok h
      exact .of_eq rfl
    | some s =>
      obtain ⟨disp, i, k, prev, -, -, -, rfl⟩ := xdpUpdateSwap_eq_ok h
      exact .of_eq rfl
  | tc d s =>
    exact tolerates_tcSwap (f := fun loaded _ => loaded) h

/-- **The step at which an attach failed.** -/
theorem attach_failedAt (hlog : (attach e spec w).state.failed = c :: w.failed)
    (hc : c.bestEffort = false) :
    (attach e spec w).isOk = false ∧
      ((c.residue = .nothing ∧ (attach e spec w).state = w.fail c) ∨
        ∃ key snap a cfg, attachPoint e spec = some key ∧ existingSnapshot e key w = .ok snap w ∧
          RebuildFailed e ((spec.kind e).plan e key snap (RebuildArgs.slots a snap) cfg) w
            (attach e spec w).state) := by
  unfold attach at hlog ⊢
  rcases (harmless_getProgram _).bind_failed hlog with ⟨hres, hok, hst⟩ | ⟨prog, h1, heq1⟩
  · exact ⟨hok, .inl ⟨hres, hst⟩⟩
  rw [heq1] at hlog ⊢
  rcases (harmless_lift _).bind_failed hlog with ⟨hres, hok, hst⟩ | ⟨_, h2, heq2⟩
  · exact ⟨hok, .inl ⟨hres, hst⟩⟩
  rw [heq2] at hlog ⊢
  unfold attachDispatcher at hlog ⊢
  rcases (harmless_interfaceByName _ _).bind_failed hlog with ⟨hres, hok, hst⟩ | ⟨ifindex, h3, heq3⟩
  · exact ⟨hok, .inl ⟨hres, hst⟩⟩
  rw [heq3] at hlog ⊢
  rcases harmless_encodeProceedOn.bind_failed hlog with ⟨hres, hok, hst⟩ | ⟨mask, h4, heq4⟩
  · exact ⟨hok, .inl ⟨hres, hst⟩⟩
  rw [heq4, dispatcherAttach_eq] at hlog ⊢
  rcases (harmless_getProgramFromStore _).bind_failed hlog with
    ⟨hres, hok, hst⟩ | ⟨prog', h5, heq5⟩
  · exact ⟨hok, .inl ⟨hres, hst⟩⟩
  rw [heq5, rebuildAction_eq] at hlog ⊢
  have hstate : ∀ x : M ExtensionResult, ((x >>= fun r => pure r.link) w).state = (x w).state ∧
      ((x >>= fun r => pure r.link) w).isOk = (x w).isOk := by
    intro x
    cases hx : x w with
    | ok r w1 => rw [bind_of_ok hx]; exact ⟨rfl, rfl⟩
    | err er w1 => rw [bind_of_err hx]; exact ⟨rfl, rfl⟩
  rw [(hstate _).1] at hlog ⊢
  rw [(hstate _).2]
  obtain ⟨hok, hrest⟩ := rebuildForAttach_failed AttachSpec.tolerates_swap hlog hc
  refine ⟨hok, hrest.imp_right ?_⟩
  rintro ⟨nsid, snap, cfg, hns, hsnap, hfail⟩
  obtain ⟨hif, -⟩ := lookup_eq_ok h3
  have hns : e.nsid spec.spec.netns = some nsid := hns
  refine ⟨_, snap, _, cfg, ?_, hsnap, hfail⟩
  simp only [attachPoint, hns, hif, Option.bind_eq_bind, Option.bind_some, spec.kind_type]
  rfl

/-! ## What a failed attach leaves -/

section Left

variable {key : Key} {snap : Option DispatcherSnapshot} {slots : List RebuildSlot} {cfg : Config}

/-- The cleanup of an attach unlinks the new dispatcher and leaves its directory. -/
theorem eraseProg_loaded {p : RebuildPlan} (h : w.prog? (.dispatcher p.key p.revision) = none) :
    (p.loaded e w).eraseProg (.dispatcher p.key p.revision) =
      w.mkdirAll (.revision p.key p.revision) :=
  eraseProg_addProg (w := w.mkdirAll _) h

theorem cleanedUp_attach {w1 : World}
    (h : ((spec.kind e).plan e key snap slots cfg).CleanedUp w w1 w') :
    w' = w1.eraseProg (.dispatcher key (attachRevision snap)) := by
  obtain ⟨_, w2, h2, -⟩ := (adapts_removePin _).journaled.isOk h.quiet
  rw [h.state]
  exact (congrArg Outcome.state h2).trans (removePin_eq_ok h2)

/-- The world an attach that failed at `c` leaves, where `d` is the directory of the revision it
tried to create. -/
def LeftByAttach (w : World) (d : Dir) (c : Call) (w' : World) : Prop :=
  match c.residue with
  | .nothing => w' = w.fail c
  | .directory | .dispatcher => w' = (w.mkdirAll d).fail c
  | .extension path => w' = ((w.mkdirAll d).eraseLink path).fail c
  | .filter => ∃ f, f ∉ w.filters ∧ w' = ((w.mkdirAll d).addFilter f).fail c

theorem leftByAttach_of_left (h : ((spec.kind e).plan e key snap slots cfg).Left e w c w') :
    LeftByAttach w (.revision key (attachRevision snap)) c w' := by
  unfold RebuildPlan.Left at h
  unfold LeftByAttach
  generalize c.residue = res at h ⊢
  cases res with
  | nothing => exact h
  | directory =>
    exact h
  | dispatcher =>
    rw [cleanedUp_attach h]
    exact congrArg (World.fail · c) (eraseProg_loaded h.free)
  | extension path =>
    rw [cleanedUp_attach h.2]
    exact congrArg (fun v => (eraseLink v path).fail c) (eraseProg_loaded h.2.free)
  | filter =>
    obtain ⟨f, hf, h⟩ := h
    refine ⟨f, hf, ?_⟩
    rw [cleanedUp_attach h]
    exact congrArg (fun v => (addFilter v f).fail c) (eraseProg_loaded h.free)

end Left

theorem attachRevision_eq (hi : Inv w) {key : Key} {snap : Option DispatcherSnapshot}
    (h : existingSnapshot e key w = .ok snap w) :
    attachRevision snap = w.store.nextAttachRevision key ∧
      ∀ s, snap = some s → w.store.getDispatcherSnapshot e.rowOrder key = .ok s := by
  unfold Store.nextAttachRevision
  rcases (existingSnapshot_eq_ok h).2 with ⟨s, rfl, hs⟩ | ⟨rfl, er, her⟩
  · obtain ⟨row, hrow, hk, -, hrev, -⟩ := Store.getDispatcherSnapshot_eq_ok hs
    rw [Table.find_of_mem hi.store.dispatcherKeys hrow hk]
    exact ⟨by rw [attachRevision, hrev], by rintro s' ⟨⟩; exact hs⟩
  · have hnone : w.store.dispatchers.find? (·.key = key) = none := by
      refine List.find?_eq_none.2 fun row hrow hk => ?_
      obtain ⟨s, hs⟩ := Store.getDispatcherSnapshot_isOk hi.store e.rowOrder
        ⟨row, hrow, of_decide_eq_true hk⟩
      rw [hs] at her
      cases her
    rw [hnone]
    exact ⟨rfl, nofun⟩

/-- **A failed attach**: it returns an error and leaves what the failed call decides. -/
theorem attach_failed (hi : Inv w) (hw : w.WF)
    (hlog : (attach e spec w).state.failed = c :: w.failed) (hc : c.bestEffort = false) :
    (attach e spec w).isOk = false ∧
      ((c.residue = .nothing ∧ (attach e spec w).state = w.fail c) ∨
        ∃ key, attachPoint e spec = some key ∧
          LeftByAttach w (.revision key (w.store.nextAttachRevision key)) c
            (attach e spec w).state) := by
  obtain ⟨hok, hrest⟩ := attach_failedAt hlog hc
  refine ⟨hok, hrest.imp_right ?_⟩
  rintro ⟨key, snap, a, cfg, hpoint, hsnap, hfail⟩
  obtain ⟨hrev, hget⟩ := attachRevision_eq hi hsnap
  refine ⟨key, hpoint, ?_⟩
  rw [← hrev]
  refine leftByAttach_of_left (left_of_failed (local_attachPlan ..) (fun ps hfree => ?_) hfail hlog)
  exact reversible_attach hw (attachPoint_type hpoint)
    (fun s hs => hi.runsRevision (hget s hs)) hfree

/-! ## When that is the world before -/

theorem mkdirAll_eq_self {d : Dir} : w.mkdirAll d = w ↔ d.chain.toFinset ⊆ w.dirs := by
  refine ⟨fun h => ?_, mkdirAll_of_subset⟩
  rw [← h]
  exact chain_subset_mkdirAll d

theorem fail_inj {v : World} (h : v.fail c = w.fail c) (hlog : v.failed = w.failed) : v = w := by
  have hv : v = { v.fail c with failed := v.failed } := rfl
  rw [hv, h, hlog]
  rfl

/-- The attach returns an error and leaves the world it started from. -/
def Restores (e : Env) (spec : AttachSpec) (w : World) (c : Call) : Prop :=
  (attach e spec w).isOk = false ∧ (attach e spec w).state = w.fail c

/-- The directory an attach makes for the new revision is there already, with those above it. -/
def RevisionDirPresent (e : Env) (spec : AttachSpec) (w : World) : Prop :=
  ∃ key, attachPoint e spec = some key ∧
    (Dir.revision key (w.store.nextAttachRevision key)).chain.toFinset ⊆ w.dirs

/-- The failures an attach can take back: those before the directory of the new revision is made,
and, where that directory was there already, all but a filter that cannot be read back and a pin
that fails because another link is pinned at its path. -/
def Restorable (e : Env) (spec : AttachSpec) (w : World) (c : Call) : Prop :=
  match c.residue with
  | .nothing => True
  | .directory | .dispatcher => RevisionDirPresent e spec w
  | .extension path => RevisionDirPresent e spec w ∧ w.link? path = none
  | .filter => False

theorem leftByAttach_eq_iff {d : Dir} (h : LeftByAttach w d c w') :
    w' = w.fail c ↔ match c.residue with
      | .nothing => True
      | .directory | .dispatcher => d.chain.toFinset ⊆ w.dirs
      | .extension path => d.chain.toFinset ⊆ w.dirs ∧ w.link? path = none
      | .filter => False := by
  unfold LeftByAttach at h
  generalize c.residue = res at h ⊢
  cases res with
  | nothing =>
    simp [h]
  | directory | dispatcher =>
    subst h
    rw [← mkdirAll_eq_self]
    exact ⟨fun h => fail_inj h rfl, fun h => by rw [h]⟩
  | extension path =>
    subst h
    constructor
    · intro h
      have heq := fail_inj h rfl
      have hdirs : ((w.mkdirAll d).eraseLink path).dirs = w.dirs := congrArg dirs heq
      refine ⟨hdirs ▸ chain_subset_mkdirAll d, ?_⟩
      rw [← heq, link?_eraseLink, if_pos rfl]
    · rintro ⟨hd, hp⟩
      rw [mkdirAll_of_subset hd]
      have : w.eraseLink path = w := by
        unfold eraseLink
        rw [Table.filter_of_lookup_none hp]
      rw [this]
  | filter =>
    obtain ⟨f, hf, rfl⟩ := h
    refine iff_false_intro fun h => hf ?_
    have := congrArg filters h
    rw [show w.filters = (w.fail c).filters from rfl, ← this]
    exact Finset.mem_insert_self _ _

/-- **A failed attach restores the world exactly when** the failed call is one it can take back. -/
theorem attach_restores_iff (hi : Inv w) (hw : w.WF)
    (hlog : (attach e spec w).state.failed = c :: w.failed) (hc : c.bestEffort = false) :
    Restores e spec w c ↔ Restorable e spec w c := by
  obtain ⟨hok, ⟨hres, hst⟩ | ⟨key, hpoint, hleft⟩⟩ := attach_failed hi hw hlog hc
  · simp [Restores, Restorable, hres, hok, hst]
  · have hdir : RevisionDirPresent e spec w ↔
        (Dir.revision key (w.store.nextAttachRevision key)).chain.toFinset ⊆ w.dirs := by
      unfold RevisionDirPresent
      rw [hpoint]
      simp
    unfold Restores Restorable
    rw [hdir, and_iff_right hok]
    exact leftByAttach_eq_iff hleft

open Sample

/-- The freplace of the first program fails. -/
def Sample.freplaceFault : Call := .freplace (.extension xdpKey 1 0)

/-- With the directory of the first revision in place, a failed freplace is taken back. -/
theorem attach_restores_iff_sample :
    let w := world.mkdirAll (.revision xdpKey 1)
    Restorable (env 1 [freplaceFault]) (xdp 1 []) w freplaceFault ∧
      Restores (env 1 [freplaceFault]) (xdp 1 []) w freplaceFault := by
  have hcond : Restorable (env 1 [freplaceFault]) (xdp 1 [])
      (world.mkdirAll (.revision xdpKey 1)) freplaceFault :=
    ⟨xdpKey, rfl, chain_subset_mkdirAll _⟩
  refine ⟨hcond, (attach_restores_iff ?_ ?_ ?_ rfl).2 hcond⟩
  · exact Fresh.inv { fresh with }
  · exact ⟨List.nodup_nil, by simp [World.mkdirAll, world]⟩
  · decide +kernel

/-- The first attach of a fresh machine fails at the freplace: the directory of the revision it
tried to create stays. -/
theorem attach_leaves_directory :
    let w := world
    let o := attach (env 1 [freplaceFault]) (xdp 1 []) w
    Inv w ∧ w.WF ∧ o.state.failed = freplaceFault :: w.failed ∧
      Dir.revision xdpKey 1 ∉ w.dirs ∧ Dir.revision xdpKey 1 ∈ o.state.dirs ∧
      ¬ Restores (env 1 [freplaceFault]) (xdp 1 []) w freplaceFault := by
  refine ⟨fresh.inv, ⟨List.nodup_nil, by simp [world]⟩, by decide +kernel,
    by decide +kernel, by decide +kernel, fun h => ?_⟩
  have := congrArg dirs h.2
  revert this
  decide +kernel

end Bpfman
