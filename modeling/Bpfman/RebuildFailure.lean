import Bpfman.Survivors

/-!
# What a failed rebuild leaves

Every failure point of a rebuild has its own cleanup. `left_of_failed` follows each of them, for a
run in which one primitive fails and the compensating calls succeed, to the world that the last
cleanup step, the removal of the new dispatcher, starts from. What is left by then depends on the
failed call alone (`Call.residue`).
-/

namespace Bpfman

open Fallible Proc World List

variable {e : Env} {w w' : World} {err : Err} {key : Key} {r : Nat} {c : Call}

variable {n : Nat} {q : LinkPath} {w₁ : World} {f : Filter}

/-! ## Well-formed worlds -/

/-- A path is pinned once, and the kernel tells filters of an attach point apart by priority and
handle. -/
structure World.WF (w : World) : Prop where
  linkPins : (w.linkPins.map Prod.fst).Nodup
  filters : ∀ f ∈ w.filters, ∀ g ∈ w.filters, f.key = g.key → f.priority = g.priority →
    f.handle = g.handle → f = g

/-! ## Cleanup -/

/-- The extension paths of the first `n` slots of a revision. -/
def extPaths (key : Key) (r n : Nat) : List LinkPath := (List.range n).map (.extension key r)

theorem map_pinPath_attachedFrom (n : Nat) :
    (attachedFrom e key r 0 n).map (·.pinPath) = extPaths key r n := by
  simp [attachedFrom, extPaths, attachedAt, range_eq_range', Function.comp_def]

theorem mem_extPaths : q ∈ extPaths key r n ↔ ∃ j, j < n ∧ q = .extension key r j := by
  simp [extPaths, eq_comm]

/-- The pins without those of the first `n` slots. -/
def World.dropExts (w : World) (key : Key) (r n : Nat) : World :=
  { w with linkPins := w.linkPins.filter fun x => decide (x.1 ∉ extPaths key r n) }

/-- Dropping the pins of slots that were free takes the attach loop back. -/
theorem dropExts_linkPins {disp : Prog} {ps : List Prog} {l : List (LinkPath × Link)}
    (hfree : ∀ j, j < ps.length → l.lookup (.extension key r j) = none) :
    (extPins e key r disp ps 0 ++ l).filter (fun x => decide (x.1 ∉ extPaths key r ps.length)) =
      l := by
  rw [filter_append]
  have hpins : (extPins e key r disp ps 0).filter
      (fun x => decide (x.1 ∉ extPaths key r ps.length)) = [] := by
    rw [filter_eq_nil_iff]
    intro x hx
    obtain ⟨j, -, hj, hxj⟩ := mem_extPins hx
    have : x.1 ∈ extPaths key r ps.length := mem_extPaths.2 ⟨j, by omega, hxj⟩
    simp [this]
  have hrest : l.filter (fun x => decide (x.1 ∉ extPaths key r ps.length)) = l := by
    refine filter_eq_self.2 fun x hx => ?_
    have : x.1 ∉ extPaths key r ps.length := by
      rw [mem_extPaths]
      rintro ⟨j, hj, hxj⟩
      exact Table.lookup_eq_none.1 (hfree j hj) x hx hxj
    simpa using this
  rw [hpins, hrest, nil_append]

section Cleanup

variable {p : RebuildPlan} {ps : List Prog}

theorem dropExts_filled (h : p.Free e w ps.length) :
    (p.filled e w ps).dropExts p.key p.revision ps.length = p.loaded e w := by
  unfold dropExts RebuildPlan.filled addExts
  have := @dropExts_linkPins e _ _ (p.disp e) _ (p.loaded e w).linkPins h.ext
  simp only [this]

theorem dropExts_eraseLink (q : LinkPath) (n : Nat) :
    (w.eraseLink q).dropExts key r n = (w.dropExts key r n).eraseLink q := by
  unfold dropExts eraseLink
  simp only [filter_filter, Bool.and_comm]

theorem dropExts_addFilter (f : Filter) (n : Nat) :
    (w.addFilter f).dropExts key r n = (w.dropExts key r n).addFilter f := rfl

/-- The cleanup after the first `n` slots are attached. -/
abbrev RebuildPlan.cleanupFirst (e : Env) (p : RebuildPlan) (n : Nat) : M Unit :=
  p.cleanup e (attachedFrom e p.key p.revision 0 n)

theorem cleanup_quiet (hp : p.Local)
    (hd : (w.prog? (.dispatcher p.key p.revision)).isSome) (hq : Quiet (p.cleanupFirst e n) w) :
    (p.cleanupFirst e n w).state = (p.cleanupNew (w.dropExts p.key p.revision n)).state ∧
      Quiet p.cleanupNew (w.dropExts p.key p.revision n) := by
  have hlog : Keeps Logs (cleanupExtensions e (attachedFrom e p.key p.revision 0 n)) :=
    (adapts_cleanupExtensions _).logs
  have hparent : ∀ x ∈ attachedFrom e p.key p.revision 0 n,
      x.pinPath.parent = .revision p.key p.revision := by
    intro x hx
    obtain ⟨j, -, rfl⟩ := mem_map.1 hx
    rfl
  have h1 := cleanupExtensions_quiet hd hparent (hq.left hlog fun _ => hp.adapts.logs.ignore)
  rw [map_pinPath_attachedFrom] at h1
  refine ⟨?_, (hq.bind hlog hp.adapts.logs.ignore h1).2⟩
  unfold RebuildPlan.cleanupFirst RebuildPlan.cleanup
  rw [bind_of_ok h1]
  rfl

end Cleanup

/-! ## The failed call decides what is left -/

/-- What a failed rebuild still has to remove, or can no longer take back, once its extensions are
cleaned up. -/
inductive Residue where
  /-- The rebuild stopped before it changed anything. -/
  | nothing
  /-- The directory of the new revision, for which there is no cleanup. -/
  | directory
  /-- The new dispatcher in its directory, left to the last cleanup step. -/
  | dispatcher
  /-- As `dispatcher`, and whatever was pinned at `path` before is unlinked. -/
  | extension (path : LinkPath)
  /-- As `dispatcher`, and the new filter stays. -/
  | filter

/-- The residue of the calls of a rebuild. -/
def Call.residue : Call → Residue
  | .pinProg _ => .directory
  | .pinLink (.extension k r i) => .extension (.extension k r i)
  | .filterInfo _ => .filter
  | .freplace _ | .linkInfo _ | .attachXDP _ | .mkdirAll (.typeDir _) | .pinLink _ | .updateLink ..
  | .addFilter _ | .replaceDispatcherSnapshot .. => .dispatcher
  | _ => .nothing

/-- A rebuild from `w` came to its last cleanup step in `w₁`, and the step took `w₁` to `w'` without
a failure. -/
structure RebuildPlan.CleanedUp (p : RebuildPlan) (w w₁ w' : World) : Prop where
  free : w.prog? (.dispatcher p.key p.revision) = none
  state : w' = (p.cleanupNew w₁).state
  quiet : Quiet p.cleanupNew w₁

/-- The world a rebuild that failed at `c` leaves. -/
def RebuildPlan.Left (e : Env) (p : RebuildPlan) (w : World) (c : Call) (w' : World) : Prop :=
  match c.residue with
  | .nothing => w' = w.fail c
  | .directory => w' = (w.mkdirAll (.revision p.key p.revision)).fail c
  | .dispatcher => p.CleanedUp w ((p.loaded e w).fail c) w'
  | .extension path => path.parent = .revision p.key p.revision ∧
      p.CleanedUp w (((p.loaded e w).eraseLink path).fail c) w'
  | .filter => ∃ f, f ∉ w.filters ∧ p.CleanedUp w (((p.loaded e w).addFilter f).fail c) w'

/-- From the world `F`, a failed swap changed nothing but for a filter it could not read back, and
the restore takes a swap back. -/
structure Swap.Reversible (s : Swap) (id : ProgramID) (F : World) : Prop where
  fails : ∀ {err : Err} {w₁ : World}, s.swap id F = .err err w₁ →
    (∃ c, c.residue = .dispatcher ∧ w₁ = F.fail c) ∨
      ∃ c f, c.residue = .filter ∧ f ∉ F.filters ∧ w₁ = (F.addFilter f).fail c
  undo : ∀ {rt : DispatcherRuntime} {w₁ : World} {c : Call}, s.swap id F = .ok rt w₁ →
    w₁.failed = F.failed → Quiet (s.restore rt) (w₁.fail c) →
    s.restore rt (w₁.fail c) = .ok () (F.fail c)

section Failed

variable {p : RebuildPlan} {ps : List Prog}

theorem filled_dirs (w : World) (ps : List Prog) :
    (Dir.revision p.key p.revision).chain.toFinset ⊆ (p.filled e w ps).dirs :=
  loaded_dirs (e := e) w

/-- How attaching one slot can fail. -/
theorem attachSlot_eq_err (hdir : (Dir.revision key r).chain.toFinset ⊆ w.dirs)
    (hmk : e.fails (.mkdirAll (.revision key r)) = false) {slot : RebuildSlot} {i : Nat}
    (h : attachExtension e (extensionSpec key r slot i) w = .err err w') :
    w' = w.fail (.freplace (.extension key r i)) ∨
      ∃ w₁, w' = (removeLinkPin e (.extension key r i) w₁).state ∧
        (w₁ = w.fail (.pinLink (.extension key r i)) ∨
          (w.link? (.extension key r i) = none ∧ ∃ x, w₁ =
            (w.addLink (.extension key r i) x).fail (.linkInfo (.extension key r i)))) := by
  have hmkdir : w.mkdirAll (extensionSpec key r slot i).linkPinPath.parent = w :=
    mkdirAll_of_subset hdir
  refine (attachExtension_eq_err h).imp_right ?_
  rintro ⟨w₁, hw', ⟨hf, -⟩ | rfl | ⟨hn, x, rfl⟩⟩
  · exact absurd (hmk.symm.trans hf) (by simp)
  · exact ⟨_, hw', .inl (by rw [hmkdir]; rfl)⟩
  · exact ⟨_, hw', .inr ⟨hn, x, by rw [hmkdir]; rfl⟩⟩

theorem removeLinkPin_quiet (hq : Quiet (removeLinkPin e q) w) :
    (removeLinkPin e q w).state = w.eraseLink q := by
  obtain ⟨b, w', h, -⟩ := (adapts_removeLinkPin q).journaled.isOk hq
  rw [h]
  exact (removeLinkPin_eq_ok h).2

theorem eraseLink_addLink {x : Link} (h : w.link? q = none) : (w.addLink q x).eraseLink q = w := by
  unfold eraseLink addLink
  rw [Table.filter_cons_of_lookup_none h]

theorem eraseProg_addProg {q : ProgPinPath} {x : Prog} (h : w.prog? q = none) :
    (w.addProg q x).eraseProg q = w := by
  unfold eraseProg addProg
  rw [Table.filter_cons_of_lookup_none h]

theorem eraseLink_fail (q : LinkPath) : (w.fail c).eraseLink q = (w.eraseLink q).fail c := rfl

theorem filled_disp (e : Env) (w : World) (ps : List Prog) :
    ((p.filled e w ps).prog? (.dispatcher p.key p.revision)).isSome := by
  rw [mem_filled_disp]
  rfl

/-- The cleanup after a step that failed at `c`. -/
theorem cleanup_failed (hp : p.Local) (hfree : p.Free e w n) {c' : Call}
    (hlog : (p.cleanupFirst e n (w₁.fail c')).state.failed = c :: w.failed)
    (hw1 : w₁.failed = w.failed) (hd : (w₁.prog? (.dispatcher p.key p.revision)).isSome) :
    c' = c ∧ p.CleanedUp w ((w₁.dropExts p.key p.revision n).fail c')
      (p.cleanupFirst e n (w₁.fail c')).state := by
  have hfail : (w₁.fail c').failed = c' :: w.failed := congrArg (c' :: ·) hw1
  obtain ⟨rfl, hq⟩ := Extends.eq_of_cons hfail ((hp.adapts_cleanup _).logs _) hlog
  obtain ⟨hstate, hquiet⟩ := cleanup_quiet (w := w₁.fail c') hp hd hq
  exact ⟨rfl, hfree.disp, hstate, hquiet⟩

theorem left_of_attach (hp : p.Local) {slot : RebuildSlot} (hfree : p.Free e w ps.length)
    (h : attachExtension e (extensionSpec p.key p.revision slot ps.length) (p.filled e w ps) =
      .err err w₁) (hlog : (p.cleanupFirst e ps.length w₁).state.failed = c :: w.failed) :
    p.Left e w c (p.cleanupFirst e ps.length w₁).state := by
  rcases attachSlot_eq_err (filled_dirs w ps) hfree.mkdir h with rfl | ⟨w2, rfl, hw2⟩
  · obtain ⟨rfl, hclean⟩ := cleanup_failed hp hfree hlog rfl (filled_disp e w ps)
    rwa [dropExts_filled hfree] at hclean
  · have hext := (hp.adapts_cleanup (e := e) (attachedFrom e p.key p.revision 0 ps.length)).logs
    have hrm := (adapts_removeLinkPin (e := e) (.extension p.key p.revision ps.length)).logs w2
    -- the unlink after a failed pin is a compensating call: it is quiet
    have hquiet : ∀ c', w2.failed = c' :: w.failed → c' = c ∧
        (removeLinkPin e (.extension p.key p.revision ps.length) w2).state =
          w2.eraseLink (.extension p.key p.revision ps.length) := by
      intro c' hc'
      obtain ⟨hcc, hlog2⟩ := Extends.eq_of_cons hc' (trans_of Logs hrm (hext _)) hlog
      exact ⟨hcc, removeLinkPin_quiet (Extends.eq_of_eq hrm (hext _) hlog2).1⟩
    rcases hw2 with rfl | ⟨hn, x, rfl⟩
    · obtain ⟨rfl, hst⟩ := hquiet _ rfl
      rw [hst, eraseLink_fail] at hlog ⊢
      have hclean := (cleanup_failed hp hfree hlog rfl (filled_disp e w ps)).2
      rw [dropExts_eraseLink, dropExts_filled hfree] at hclean
      exact ⟨rfl, hclean⟩
    · obtain ⟨rfl, hst⟩ := hquiet _ rfl
      rw [hst, eraseLink_fail, eraseLink_addLink hn] at hlog ⊢
      have hclean := (cleanup_failed hp hfree hlog rfl (filled_disp e w ps)).2
      rwa [dropExts_filled hfree] at hclean

theorem left_of_swap (hp : p.Local) (hfree : p.Free e w ps.length)
    (hrev : p.swap.Reversible (p.disp e).id (p.filled e w ps))
    (h : p.swap.swap (p.disp e).id (p.filled e w ps) = .err err w₁)
    (hlog : (p.cleanupFirst e ps.length w₁).state.failed = c :: w.failed) :
    p.Left e w c (p.cleanupFirst e ps.length w₁).state := by
  unfold RebuildPlan.Left
  rcases hrev.fails h with ⟨c', hc', rfl⟩ | ⟨c', f, hc', hf, rfl⟩
  · obtain ⟨rfl, hclean⟩ := cleanup_failed hp hfree hlog rfl (filled_disp e w ps)
    rw [dropExts_filled hfree] at hclean
    simpa only [hc'] using hclean
  · obtain ⟨rfl, hclean⟩ := cleanup_failed hp hfree hlog rfl (filled_disp e w ps)
    rw [dropExts_addFilter, dropExts_filled hfree] at hclean
    simpa only [hc'] using ⟨f, hf, hclean⟩

theorem left_of_persist (hp : p.Local) {rt : DispatcherRuntime}
    (hfree : p.Free e w ps.length) (hrev : p.swap.Reversible (p.disp e).id (p.filled e w ps))
    (h : p.swap.swap (p.disp e).id (p.filled e w ps) = .ok rt w₁)
    (hlog : ((do p.swap.restore rt; p.cleanupFirst e ps.length : M Unit)
      (w₁.fail (.replaceDispatcherSnapshot p.key p.revision))).state.failed = c :: w.failed) :
    p.Left e w c ((do p.swap.restore rt; p.cleanupFirst e ps.length : M Unit)
      (w₁.fail (.replaceDispatcherSnapshot p.key p.revision))).state := by
  have hcl := (hp.adapts_cleanup (e := e) (attachedFrom e p.key p.revision 0 ps.length)).logs
  have hrs := (hp.swap.adapts.restore rt).logs.bind fun _ => hcl
  obtain ⟨hw1, rfl, hq⟩ := @Extends.single _ _ _ (p.filled e w ps) w₁ _ _ _ _
    ((hp.swap.adapts.swap _).logs.ok h) rfl (hrs _) hlog
  have hundo := hrev.undo h hw1 (Quiet.left hq (hp.swap.adapts.restore rt).logs fun _ => hcl)
  rw [bind_of_ok hundo] at hlog ⊢
  have hclean := (cleanup_failed hp hfree hlog rfl (filled_disp e w ps)).2
  rwa [dropExts_filled hfree] at hclean

/-- **A rebuild that failed at one call** `c` leaves what `c` decides. -/
theorem left_of_failed (hp : p.Local)
    (hrev : ∀ ps, p.Free e w ps.length → p.swap.Reversible (p.disp e).id (p.filled e w ps))
    (h : RebuildFailed e p w w') (hlog : w'.failed = c :: w.failed) : p.Left e w c w' := by
  cases h with
  | load h =>
    rcases loadAndPinDispatcher_eq_err h with rfl | rfl | ⟨-, rfl⟩
    all_goals
      obtain rfl := (cons.inj hlog).1
      rfl
  | attach hfree h => exact left_of_attach hp hfree h hlog
  | swap hfree h => exact left_of_swap hp hfree (hrev _ hfree) h hlog
  | persist hfree h => exact left_of_persist hp hfree (hrev _ hfree) h hlog

end Failed

/-! ## The swaps can be taken back -/

section Swaps

variable {netns : String} {id : ProgramID}

theorem dirEmpty_of_dir {d d' : Dir} (hd : d' ∈ w.dirs) (hp : d'.parent = some d) :
    w.dirEmpty d = false := by
  have : decide (∀ x ∈ w.dirs, x.parent ≠ some d) = false := decide_eq_false fun h => h d' hd hp
  simp [dirEmpty, this]

/-- The new outer link is unlinked again; the directory of the revision keeps its parent. -/
theorem reversible_xdpCreate (hdir : (Dir.revision key r).chain.toFinset ⊆ w.dirs) :
    (xdpCreateSwap e key r netns).Reversible id w := by
  have htype : w.mkdirAll (.typeDir key.type) = w := by
    refine mkdirAll_of_subset (subset_trans ?_ hdir)
    simp [Dir.chain, Finset.insert_subset_iff]
  refine ⟨fun h => .inl ?_, fun h _ hq => ?_⟩
  · rcases bind_eq_err.1 h with h | ⟨_, w₁, -, h⟩
    · obtain ⟨er, h, -⟩ := mapErr_eq_err.1 h
      rcases createXDPLink_eq_err h with rfl | rfl | rfl
      · exact ⟨_, rfl, rfl⟩
      · exact ⟨_, rfl, rfl⟩
      · refine ⟨.pinLink (.dispatcherLink key), rfl, ?_⟩
        rw [show (LinkPath.dispatcherLink key).parent = .typeDir key.type from rfl, htype]
    · cases h
  · obtain ⟨disp, -, hn, rfl, rfl⟩ := xdpCreateSwap_eq_ok h
    rw [htype] at hq ⊢
    have hrev : Dir.revision key r ∈ w.dirs := hdir (by simp [Dir.chain])
    have hdet := detachLink_quiet (p := .dispatcherLink key) hq
      (@dirEmpty_of_dir _ _ (.revision key r) hrev rfl)
    rw [eraseLink_fail, eraseLink_addLink hn] at hdet
    show ignore (detachLink e (.dispatcherLink key)) _ = _
    rw [ignore_apply, hdet]
    rfl

theorem reversible_xdpUpdate {old : Nat} {linkID : Option KernelLinkID}
    (hw : (w.linkPins.map Prod.fst).Nodup)
    (hold : ∃ i Q, w.link? (.dispatcherLink key) = some (.outer i key Q) ∧
      w.prog? (.dispatcher key old) = some Q) :
    (xdpUpdateSwap e key r old linkID netns).Reversible id w := by
  obtain ⟨i0, Q, hl0, hQ⟩ := hold
  refine ⟨fun h => .inl ?_, fun {rt w₁ c} h _ hq => ?_⟩
  · rcases bind_eq_err.1 h with h | ⟨_, w₁, -, h⟩
    · obtain ⟨er, h, -⟩ := mapErr_eq_err.1 h
      exact ⟨_, rfl, updateXDPDispatcherLink_eq_err h⟩
    · cases h
  · obtain ⟨disp, i, k, prev, -, hl, rfl, rfl⟩ := xdpUpdateSwap_eq_ok h
    obtain ⟨rfl, rfl, rfl⟩ := Link.outer.inj (Option.some.inj (hl0.symm.trans hl))
    obtain ⟨_, w2, h2, -⟩ := (adapts_updateXDPDispatcherLink _ _).journaled.isOk hq
    obtain ⟨disp', i', k', prev', hd', hl', rfl⟩ := updateXDPDispatcherLink_eq_ok h2
    obtain rfl : Q = disp' := Option.some.inj (hQ.symm.trans hd')
    have hset : (w.setLink (.dispatcherLink key) (.outer i0 key disp)).link? (.dispatcherLink key) =
        some (.outer i0 key disp) := by
      rw [link?_setLink, if_pos rfl, hl0]
      rfl
    obtain ⟨rfl, rfl, -⟩ := Link.outer.inj (Option.some.inj (hset.symm.trans hl'))
    show ignore (updateXDPDispatcherLink e (.dispatcherLink key) (.dispatcher key old)) _ = _
    rw [ignore_apply, h2, Outcome.state_ok]
    refine congrArg (Outcome.ok ()) ?_
    simp only [World.fail, World.setLink, Table.set_set_of_lookup hw hl0]

/-- Deleting by priority and handle undoes adding a filter whose priority and handle were free. -/
theorem deleteFilter_addFilter
    (hf : ∀ x ∈ w.filters, x.key = f.key → x.priority = f.priority → x.handle ≠ f.handle) :
    (w.addFilter f).deleteFilter f.key f.priority f.handle = w := by
  have : (insert f w.filters).filter (fun x =>
      ¬ (x.key = f.key ∧ x.priority = f.priority ∧ x.handle = f.handle)) = w.filters := by
    ext x
    rw [Finset.mem_filter, Finset.mem_insert]
    constructor
    · rintro ⟨rfl | hx, hne⟩
      · exact absurd ⟨rfl, rfl, rfl⟩ hne
      · exact hx
    · exact fun hx => ⟨.inr hx, fun ⟨h1, h2, h3⟩ => hf x hx h1 h2 h3⟩
  unfold deleteFilter addFilter
  simp only [this]

/-- Adding a filter undoes deleting it by its priority and handle. -/
theorem addFilter_deleteFilter (hw : w.WF) (hf : f ∈ w.filters) :
    (w.deleteFilter f.key f.priority f.handle).addFilter f = w := by
  have : insert f (w.filters.filter fun x =>
      ¬ (x.key = f.key ∧ x.priority = f.priority ∧ x.handle = f.handle)) = w.filters := by
    ext x
    rw [Finset.mem_insert, Finset.mem_filter]
    constructor
    · rintro (rfl | ⟨hx, -⟩)
      · exact hf
      · exact hx
    · intro hx
      by_cases hne : x.key = f.key ∧ x.priority = f.priority ∧ x.handle = f.handle
      · exact .inl (hw.filters x hx f hf hne.1 hne.2.1 hne.2.2)
      · exact .inr ⟨hx, hne⟩
  unfold deleteFilter addFilter
  simp only [this]

theorem deleteFilter_comm (k k' : Key) (p p' h h' : Nat) :
    (w.deleteFilter k p h).deleteFilter k' p' h' =
      (w.deleteFilter k' p' h').deleteFilter k p h := by
  unfold deleteFilter
  simp only [Finset.filter_filter, and_comm]

/-- The filter a TC swap replaces: the recorded one, which runs the old revision's dispatcher. -/
def OldFilterRuns (w : World) (key : Key) (old : Option (Nat × Nat × Nat)) : Prop :=
  ∀ o p x, old = some (o, p, x) → p = tcDispatcherPriority ∧ x ≠ 0 ∧
    ∃ Q, w.prog? (.dispatcher key o) = some Q ∧ (⟨key, p, x, Q⟩ : Filter) ∈ w.filters

/-- The world without the filter a TC swap replaces. -/
def World.dropOld (w : World) (key : Key) : Option (Nat × Nat × Nat) → World
  | some (_, p, x) => w.deleteFilter key p x
  | none => w

variable {old : Option (Nat × Nat × Nat)}

theorem dropOldFilter_ne_err : dropOldFilter e key netns old w ≠ .err err w' := by
  rcases old with - | ⟨o, p, x⟩
  · nofun
  · by_cases hx : x = 0 <;> simp [dropOldFilter, hx]

theorem dropOldFilter_quiet (hn : netnsPresent e netns = true) (hold : OldFilterRuns w' key old)
    (h : dropOldFilter e key netns old w = .ok () w₁) (hq : w₁.failed = w.failed) :
    w₁ = w.dropOld key old := by
  rcases dropOldFilter_eq_ok hn h with ⟨rfl, hz⟩ | ⟨o, p, x, rfl, -, hrest⟩
  · rcases old with - | ⟨o, p, x⟩
    · rfl
    · exact absurd (hz o p x rfl) (hold o p x rfl).2.1
  · rcases hrest with ⟨-, rfl⟩ | ⟨-, rfl⟩
    · rfl
    · exact absurd hq (cons_ne_self _ _)

theorem restoreOldFilter_quiet (hw : w.WF) (hold : OldFilterRuns w key old)
    (hq : Quiet (restoreOldFilter e key netns old) ((w.dropOld key old).fail c)) :
    restoreOldFilter e key netns old ((w.dropOld key old).fail c) = .ok () (w.fail c) := by
  rcases old with - | ⟨o, p, x⟩
  · rfl
  · obtain ⟨rfl, hx, Q, hQ, hmem⟩ := hold o p x rfl
    unfold restoreOldFilter at hq ⊢
    simp only [ne_eq, hx, not_false_eq_true, if_true] at hq ⊢
    obtain ⟨res, w₁, h1, -⟩ := (adapts_createTCFilter (.dispatcher key o) netns x).journaled.isOk hq
    rw [ignore_apply, h1, Outcome.state_ok]
    obtain ⟨disp, -, hd, -, -, -, rfl⟩ := createTCFilter_eq_ok h1
    obtain rfl : Q = disp := Option.some.inj (hQ.symm.trans hd)
    have hh : newFilterHandle e (.dispatcher key o) x = x := if_pos hx
    rw [hh]
    exact congrArg (fun v => Outcome.ok () (World.fail v c)) (addFilter_deleteFilter hw hmem)

theorem detachTCFilter_quiet {priority handle : Nat} (hn : netnsPresent e netns = true)
    (hq : Quiet (detachTCFilter e key priority handle netns) w) :
    (detachTCFilter e key priority handle netns w).state = w.deleteFilter key priority handle := by
  obtain ⟨_, w', h, -⟩ := (adapts_detachTCFilter priority handle netns).journaled.isOk hq
  rw [h]
  exact (detachTCFilter_eq_ok hn h).2

/-- Deleting the new filter after a swap leaves the world without the old one. -/
theorem deleteFilter_dropOld
    (hf : ∀ x ∈ w.filters, x.key = f.key → x.priority = f.priority → x.handle ≠ f.handle) :
    ((w.addFilter f).dropOld key old).deleteFilter f.key f.priority f.handle =
      w.dropOld key old := by
  rcases old with - | ⟨o, p, x⟩
  · exact deleteFilter_addFilter hf
  · unfold dropOld
    rw [deleteFilter_comm, deleteFilter_addFilter hf]

theorem reversible_tc {text : String} {f : ProgramID → ProgramID → ProgramID} (hw : w.WF)
    (hold : OldFilterRuns w key old) : (tcSwap e key r netns text old f).Reversible id w := by
  refine ⟨fun h => ?_, fun {rt w₁ c} h hlog hq => ?_⟩
  · rcases bind_eq_err.1 h with h | ⟨_, w₁, -, h⟩
    · obtain ⟨er, h, -⟩ := mapErr_eq_err.1 h
      rcases createTCFilter_eq_err h with rfl | ⟨disp, -, hno, rfl⟩
      · exact .inl ⟨_, rfl, rfl⟩
      · exact .inr ⟨_, _, rfl, fun hm => hno _ hm rfl rfl rfl, rfl⟩
    · rcases bind_eq_err.1 h with h | ⟨_, w2, -, h⟩
      · exact absurd h dropOldFilter_ne_err
      · cases h
  · obtain ⟨disp, hnet, -, hno, -, rfl, hdrop⟩ := tcSwap_eq_ok h
    obtain rfl := dropOldFilter_quiet hnet hold hdrop hlog
    have hlog1 : Keeps Logs (ignore (detachTCFilter e key tcDispatcherPriority
        (newFilter e key r disp).handle netns)) := (adapts_detachTCFilter _ _ _).logs.ignore
    have hlog2 : Keeps Logs (restoreOldFilter e key netns old) := (adapts_restoreOldFilter old).logs
    have hquiet := Quiet.left hq hlog1 fun _ => hlog2
    have hstep : (detachTCFilter e key tcDispatcherPriority (newFilter e key r disp).handle netns
        (((w.addFilter (newFilter e key r disp)).dropOld key old).fail c)).state =
        (w.dropOld key old).fail c :=
      (detachTCFilter_quiet hnet hquiet).trans
        (congrArg (World.fail · c) (deleteFilter_dropOld hno))
    have hq2 : Quiet (restoreOldFilter e key netns old) ((w.dropOld key old).fail c) :=
      hstep ▸ (Quiet.bind hq hlog1 hlog2 rfl).2
    refine Eq.trans ?_ (restoreOldFilter_quiet hw hold hq2)
    exact congrArg (restoreOldFilter e key netns old) hstep

/-- The outer attachment runs the dispatcher pinned at the recorded revision. -/
def RunsRevision (w : World) (key : Key) (revision : Nat) (rt : DispatcherRuntime) : Prop :=
  ∃ Q, Runs w key rt Q ∧ w.prog? (.dispatcher key revision) = some Q

theorem Inv.runsRevision (hi : Inv w) {ord : RowOrder} {snap : DispatcherSnapshot}
    (hs : w.store.getDispatcherSnapshot ord key = .ok snap) :
    RunsRevision w key snap.revision snap.runtime := by
  obtain ⟨row, hrow, rfl, -, hrev, hrt, -⟩ := Store.getDispatcherSnapshot_eq_ok hs
  obtain ⟨P, cfg, hP⟩ := (hi.dispatchers row hrow).program
  exact ⟨P, hrt ▸ hP.runs, hrev ▸ hP.pinned⟩

section Filled

variable {p : RebuildPlan} {ps : List Prog} {rt : DispatcherRuntime} {o : Nat}

theorem RunsRevision.filled (h : RunsRevision w p.key o rt) (hne : p.revision ≠ o) :
    RunsRevision (p.filled e w ps) p.key o rt := by
  obtain ⟨Q, hQ, hpin⟩ := h
  refine ⟨Q, runs_filled hQ ps, ?_⟩
  rw [RebuildPlan.filled, addExts_prog?, loaded_prog?, if_neg (by simpa using hne.symm)]
  exact hpin

theorem RunsRevision.outer (h : RunsRevision w key o rt) (hk : key.type = .xdp) :
    ∃ i Q, w.link? (.dispatcherLink key) = some (.outer i key Q) ∧
      w.prog? (.dispatcher key o) = some Q := by
  obtain ⟨Q, ⟨-, hruns⟩, hpin⟩ := h
  rw [hk, isTCDispatcherType, if_neg (by simp)] at hruns
  obtain ⟨i, hi⟩ := hruns
  exact ⟨i, Q, hi, hpin⟩

theorem RunsRevision.oldFilterRuns (h : RunsRevision w key o rt)
    (hk : isTCDispatcherType key.type = true) : OldFilterRuns w key (some (o, oldFilter rt)) := by
  obtain ⟨Q, ⟨-, hruns⟩, hpin⟩ := h
  rw [if_pos hk] at hruns
  obtain ⟨hp, x, hx, hh, hmem⟩ := hruns
  rintro o' p' x' heq
  simp only [oldFilter, hp, hh, Option.some.injEq, Prod.mk.injEq, Option.getD_some] at heq
  obtain ⟨rfl, rfl, rfl⟩ := heq
  exact ⟨rfl, hx, Q, hpin, hmem⟩

theorem World.WF.addLink (hw : w.WF) {x : Link} (hq : w.link? q = none) : (w.addLink q x).WF := by
  refine ⟨nodup_cons.2 ⟨fun hm => ?_, hw.linkPins⟩, hw.filters⟩
  obtain ⟨y, hy, hyq⟩ := mem_map.1 hm
  exact Table.lookup_eq_none.1 hq y hy hyq

theorem World.WF.addExts {disp : Prog} : ∀ {ps : List Prog} {i : Nat} {w : World}, w.WF →
    (∀ j, i ≤ j → j < i + ps.length → w.link? (.extension key r j) = none) →
    (w.addExts e key r disp ps i).WF
  | [], _, _, hw, _ => hw
  | q :: ps, i, w, hw, hfree => by
    rw [addExts_cons]
    refine WF.addExts (hw.addLink (hfree i le_rfl (by simp))) fun j h1 h2 => ?_
    rw [link?_addLink, if_neg (by simp only [LinkPath.extension.injEq]; omega)]
    exact hfree j (by omega) (by simp only [length_cons]; omega)

theorem World.WF.filled (hw : w.WF) (hfree : p.Free e w ps.length) : (p.filled e w ps).WF :=
  WF.addExts (w := p.loaded e w) ⟨hw.linkPins, hw.filters⟩ fun j _ h2 =>
    hfree.ext j (by omega)

end Filled

theorem reversible_attach {spec : AttachSpec} {snap : Option DispatcherSnapshot}
    {slots : List RebuildSlot} {cfg : Config} {ps : List Prog} (hw : w.WF)
    (hk : key.type = spec.dispatcherType)
    (hold : ∀ s, snap = some s → RunsRevision w key s.revision s.runtime)
    (hfree : ((spec.kind e).plan e key snap slots cfg).Free e w ps.length) :
    ((spec.kind e).plan e key snap slots cfg).swap.Reversible id
      (((spec.kind e).plan e key snap slots cfg).filled e w ps) := by
  have hfilled := fun s hs => @RunsRevision.filled e _
    ((spec.kind e).plan e key snap slots cfg) ps _ _ (hold s hs)
    (attachRevision_ne (by rw [hs]; rfl))
  have hwf := hw.filled hfree
  have hdir := filled_dirs (e := e) (p := (spec.kind e).plan e key snap slots cfg) w ps
  cases spec with
  | xdp sp =>
    cases snap with
    | none => exact reversible_xdpCreate hdir
    | some s => exact reversible_xdpUpdate hwf.linkPins ((hfilled s rfl).outer hk)
  | tc d sp =>
    have htc : isTCDispatcherType key.type = true := by
      rw [hk]
      cases d <;> rfl
    dsimp only [AttachKind.plan, AttachSpec.kind, tcAttach] at hwf ⊢
    refine reversible_tc hwf ?_
    cases snap with
    | none => nofun
    | some s => exact (hfilled s rfl).oldFilterRuns htc

theorem reversible_detach {snap : DispatcherSnapshot} {slots : List RebuildSlot} {cfg : Config}
    {ps : List Prog} (hw : w.WF) (hold : RunsRevision w snap.key snap.revision snap.runtime)
    (hfree : ((detachKind e snap.key).plan e snap slots (nextRevision snap.revision) cfg).Free e w
      ps.length) :
    ((detachKind e snap.key).plan e snap slots (nextRevision snap.revision) cfg).swap.Reversible id
      (((detachKind e snap.key).plan e snap slots (nextRevision snap.revision) cfg).filled e w
        ps) := by
  have hfilled := @RunsRevision.filled e _
    ((detachKind e snap.key).plan e snap slots (nextRevision snap.revision) cfg) ps _ _ hold
    (nextRevision_ne _)
  have hwf := hw.filled hfree
  by_cases hk : snap.key.type = .xdp
  · have hxdp : detachKind e snap.key = xdpDetach e := if_pos hk
    rw [hxdp] at hfilled hwf ⊢
    exact reversible_xdpUpdate hwf.linkPins (hfilled.outer hk)
  · have htc : isTCDispatcherType snap.key.type = true := by
      cases ht : snap.key.type with
      | xdp => exact absurd ht hk
      | tcIngress | tcEgress => rfl
    have hkind : detachKind e snap.key = tcDetach e := if_neg hk
    rw [hkind] at hfilled hwf ⊢
    dsimp only [DetachKind.plan, tcDetach] at hwf ⊢
    exact reversible_tc hwf (hfilled.oldFilterRuns htc)

end Swaps

/-! ## The steps around a rebuild -/

section Around

variable {α β : Type}

/-- A step that changes nothing, whether it succeeds or fails. -/
structure Harmless (m : M α) : Prop where
  ok : ∀ {w a w'}, m w = .ok a w' → w' = w
  err : ∀ {w err w'}, m w = .err err w' → w' = w ∨ ∃ c, c.residue = .nothing ∧ w' = w.fail c

theorem harmless_lift (x : Except Err α) : Harmless (lift x) :=
  ⟨fun h => (lift_eq_ok.1 h).2.symm, fun h => .inl (lift_eq_err.1 h).2.symm⟩

theorem harmless_query {f : Store → Except Err α} (hc : c.residue = .nothing) :
    Harmless (query e c f) := by
  refine ⟨fun h => (query_eq_ok.1 h).2.2, fun h => ?_⟩
  rcases query_eq_err h with ⟨rfl, -⟩ | ⟨rfl, -, -⟩
  · exact .inr ⟨c, hc, rfl⟩
  · exact .inl rfl

theorem harmless_prim {f : World → Option (α × World)} (hc : c.residue = .nothing)
    (hf : ∀ w, Yields (fun w w' => w' = w) w (f w)) : Harmless (prim e c f) :=
  ⟨fun h => hf _ _ _ (prim_eq_ok.1 h).2, fun h => .inr ⟨c, hc, (prim_eq_err.1 h).2.2⟩⟩

theorem Harmless.mapErr {g : Err → Err} {m : M α} (hm : Harmless m) : Harmless (mapErr g m) := by
  refine ⟨fun h => hm.ok (mapErr_eq_ok.1 h), fun h => ?_⟩
  obtain ⟨er, h, -⟩ := mapErr_eq_err.1 h
  exact hm.err h

/-- A sequence in which one call failed either stopped at its harmless first step, or its second
step ran from the same world. -/
theorem Harmless.bind_failed {m : M α} {f : α → M β} (hm : Harmless m)
    (hlog : ((m >>= f) w).state.failed = c :: w.failed) :
    (c.residue = .nothing ∧ ((m >>= f) w).isOk = false ∧ ((m >>= f) w).state = w.fail c) ∨
      ∃ a, m w = .ok a w ∧ (m >>= f) w = f a w := by
  cases h : m w with
  | ok a w₁ =>
    obtain rfl := hm.ok h
    exact .inr ⟨a, rfl, bind_of_ok h⟩
  | err er w₁ =>
    rw [bind_of_err h] at hlog ⊢
    rcases hm.err h with rfl | ⟨c', hc', rfl⟩
    · exact absurd hlog.symm (cons_ne_self _ _)
    · obtain rfl := (cons.inj hlog).1
      exact .inl ⟨hc', rfl, rfl⟩

/-- The calls whose failure an operation only logs. -/
def Call.bestEffort : Call → Bool
  | .delFilter .. | .removeAll _ => true
  | _ => false

/-- Only calls whose failure is tolerated failed between two worlds. -/
def Tolerates (w w' : World) : Prop :=
  ∃ l, w'.failed = l ++ w.failed ∧ ∀ c ∈ l, c.bestEffort = true

instance : Std.Refl Tolerates := ⟨fun _ => ⟨[], rfl, by simp⟩⟩

instance : IsTrans World Tolerates where
  trans := by
    rintro w₁ w₂ w₃ ⟨l, hl, hb⟩ ⟨l', hl', hb'⟩
    refine ⟨l' ++ l, by rw [hl', hl, List.append_assoc], fun c hc => ?_⟩
    rcases List.mem_append.1 hc with hc | hc
    · exact hb' c hc
    · exact hb c hc

theorem Tolerates.of_eq (h : w'.failed = w.failed) : Tolerates w w' := ⟨[], h, by simp⟩

theorem Tolerates.fail (hc : c.bestEffort = true) : Tolerates w (w.fail c) :=
  ⟨[c], rfl, by simpa using hc⟩

theorem Tolerates.bestEffort (h : Tolerates w w') (hlog : w'.failed = c :: w.failed) :
    c.bestEffort = true := by
  obtain ⟨l, hl, hb⟩ := h
  have : l = [c] := append_cancel_right (hl.symm.trans hlog)
  exact hb c (by simp [this])

theorem tolerates_dropRevision (h : dropRevision e key r w = .ok () w') : Tolerates w w' := by
  rcases dropRevision_eq_ok h with rfl | rfl
  · exact .of_eq rfl
  · exact .fail rfl

theorem tolerates_dropOldFilter {netns : String} {old : Option (Nat × Nat × Nat)}
    (hn : netnsPresent e netns = true) (h : dropOldFilter e key netns old w = .ok () w') :
    Tolerates w w' := by
  rcases dropOldFilter_eq_ok hn h with ⟨rfl, -⟩ | ⟨o, p, x, -, -, ⟨-, rfl⟩ | ⟨-, rfl⟩⟩
  · exact refl_of Tolerates _
  · exact .of_eq rfl
  · exact .fail rfl

theorem tolerates_tcSwap {netns text : String} {old : Option (Nat × Nat × Nat)}
    {f : ProgramID → ProgramID → ProgramID} {id : ProgramID} {rt : DispatcherRuntime}
    (h : (tcSwap e key r netns text old f).swap id w = .ok rt w') : Tolerates w w' := by
  obtain ⟨disp, hnet, -, -, -, -, hdrop⟩ := tcSwap_eq_ok h
  exact trans_of Tolerates (.of_eq rfl) (tolerates_dropOldFilter hnet hdrop)

/-- A successful rebuild tolerates what its swap tolerates. -/
theorem tolerates_rebuildDispatcher {p : RebuildPlan} {completed : DispatcherSnapshot}
    {attached : List AttachedExt}
    (hswap : ∀ {id F rt w₁}, p.swap.swap id F = .ok rt w₁ → Tolerates F w₁)
    (h : rebuildDispatcher e p w = .ok (completed, attached) w') : Tolerates w w' := by
  obtain ⟨ps, rt, w2, s', -, -, -, hsw, -, rfl⟩ := rebuildDispatcher_eq_ok h
  exact trans_of Tolerates (trans_of Tolerates (.of_eq rfl) (hswap hsw)) (.of_eq rfl)

end Around

end Bpfman
