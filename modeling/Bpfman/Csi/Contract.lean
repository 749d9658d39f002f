import Bpfman.Csi.NodeProof

/-!
# Publishing and unpublishing over a history of calls

What is expected of the two calls: a publish that repeats one in effect succeeds and leaves the
mounts as they are; one that asks for something else at the same target fails and leaves them; a
publish that fails leaves them; an unpublish that repeats one succeeds (`Contract`).

The driver meets this along every history of calls, with any steps failing, as long as
(`Call.Meets`; the first three keep the mounts in order, `Call.Fits`)
* target and pod paths are given the way the mount table has them, and no target is a pod path;
* the unmounts of a rollback work;
* a volume is not published while its per-pod bpffs is mounted and the target is not: one target at
  a time, and nothing left over by an unpublish that could not unmount it;
* a publish at a target in use that differs from the one in effect differs in its maps or its
  read-only flag, which is all the driver compares, and the observations of a repeated publish work.

Without the first, a publish repeated word for word mounts a second time over the first
(`publish_twice_stacks`).
-/

namespace Bpfman.Csi

open Fallible Outcome Proc List Function

/-- A node together with what the calls so far have established: the publish in effect at a target,
and the unpublish a target was left with. -/
structure Traced where
  node : Node
  published : String → Option PublishRequest
  unpublished : String → Option UnpublishRequest

namespace Traced

def start (n : Node) : Traced := ⟨n, fun _ => none, fun _ => none⟩

end Traced

variable {m : Mount} {r : PublishRequest} {pod target : String} {pm tm : List Mount} {n' : Node}
  {x : Traced}

inductive Call where
  | publish (env : CallEnv) (req : PublishRequest)
  | unpublish (env : CallEnv) (req : UnpublishRequest)

section

variable (host : Host)

/-- A publish that succeeds is in effect until its target is unmounted. -/
def Call.run (x : Traced) : Call → Traced
  | .publish env req =>
    let o := nodePublishVolume host env req x.node
    ⟨o.state, if o.isOk then Function.update x.published req.targetPath (some req) else x.published,
      Function.update x.unpublished req.targetPath none⟩
  | .unpublish env req =>
    let o := nodeUnpublishVolume host env req x.node
    ⟨o.state,
      if o.state.mounts (host.resolve req.targetPath) = [] then
        Function.update x.published req.targetPath none
      else x.published,
      Function.update x.unpublished req.targetPath (if o.isOk then some req else none)⟩

def runCalls (x : Traced) (calls : List Call) : Traced := calls.foldl (Call.run host) x

def Call.Contract (x : Traced) : Call → Prop
  | .publish env req =>
    let o := nodePublishVolume host env req x.node
    (x.published req.targetPath = some req → o.isOk = true ∧ o.state.mounts = x.node.mounts) ∧
    (∀ r, x.published req.targetPath = some r → r ≠ req →
      o.isOk = false ∧ o.state.mounts = x.node.mounts) ∧
    (o.isOk = false → o.state.mounts = x.node.mounts)
  | .unpublish env req =>
    x.unpublished req.targetPath = some req →
      (nodeUnpublishVolume host env req x.node).isOk = true

/-- A target path in the form the mount table has, which is no pod's path. -/
structure Apart (target : String) : Prop where
  resolved : host.resolve target = target
  notPod : ∀ volumeID, host.podBpffs volumeID ≠ target

/-- The steps by which the driver looks at a published target work. -/
def CallEnv.Observes (env : CallEnv) : Prop :=
  env.fails .readMountinfo = false ∧ env.fails .statfsTarget = false ∧
    env.fails .readTarget = false

/-- What the driver can tell apart. -/
def Differs (r req : PublishRequest) : Prop :=
  r.readonly ≠ req.readonly ∨ ¬ (parseMapNames r.maps).Perm (parseMapNames req.maps)

/-- The paths of a publish are resolved, a rollback works and no per-pod mount is left over. -/
structure PublishFits (x : Traced) (env : CallEnv) (req : PublishRequest) : Prop where
  apart : Apart host req.targetPath
  pod : host.resolve (host.podBpffs req.volumeID) = host.podBpffs req.volumeID
  undoTarget : env.fails .undoTarget = false
  undoPod : env.fails .undoPod = false
  noStale : x.node.mounts req.targetPath = [] → x.node.mounts (host.podBpffs req.volumeID) = []

/-- The condition on a publish and the state before it. -/
structure PublishMeets (x : Traced) (env : CallEnv) (req : PublishRequest) : Prop extends
    PublishFits host x env req where
  same : x.published req.targetPath = some req → env.Observes
  other : ∀ r, x.published req.targetPath = some r → r ≠ req → Differs r req

/-- The part of the condition that keeps the mounts in order. -/
def Call.Fits (x : Traced) : Call → Prop
  | .publish env req => PublishFits host x env req
  | .unpublish _ req => Apart host req.targetPath ∧
      host.resolve (host.podBpffs req.volumeID) = host.podBpffs req.volumeID

def Call.Meets (x : Traced) : Call → Prop
  | .publish env req => PublishMeets host x env req
  | .unpublish _ req => Apart host req.targetPath ∧
      host.resolve (host.podBpffs req.volumeID) = host.podBpffs req.volumeID

/-! ## What is kept -/

/-- A request is published at its target. -/
structure Shows (n : Node) (req : PublishRequest) (m : Mount) : Prop where
  checked : checkPublish req = .ok (parseMapNames req.maps)
  mounted : n.mounts req.targetPath = [m]
  fsType : m.fsType = "bpf"
  readonly : m.readonly = req.readonly
  maps : (BpfFs.visible host (n.fs m.fs)).Perm (parseMapNames req.maps)

/-- A target is left as a successful unpublish leaves it. -/
structure Cleared (n : Node) (req : UnpublishRequest) : Prop where
  volumeID : checkVolumeID req.volumeID = .ok ()
  targetPath : checkTargetPath req.targetPath = .ok ()
  unmounted : n.mounts req.targetPath = []
  removed : n.dirs req.targetPath = false

/-- There is at most one mount on a path, and the node is as the calls so far have established. -/
structure Kept (x : Traced) : Prop where
  depth : ∀ p, (x.node.mounts p).length ≤ 1
  bound : ∀ p, ∀ m ∈ x.node.mounts p, m.fs < x.node.nextFs
  published : ∀ t r, x.published t = some r → r.targetPath = t ∧ Apart host t ∧
    ∃ m, Shows host x.node r m
  unpublished : ∀ t u, x.unpublished t = some u → u.targetPath = t ∧ Apart host t ∧
    Cleared x.node u

end

section

variable {host : Host} {env : CallEnv} {req : PublishRequest} {n : Node}

theorem staged_self (n : Node) (pod target : String) :
    Staged n pod target (n.mounts pod) (n.mounts target) n := by
  refine ⟨?_, fun _ _ _ => rfl, fun _ _ => rfl, Nat.le_refl _⟩
  rw [update_eq_self, update_eq_self]

/-! ## A target that is mounted -/

theorem publishMatches_apply (maps : List String)
    (hres : host.resolve req.targetPath = req.targetPath) (hm : n.mounts req.targetPath = [m]) :
    publishMatches host env req maps n =
      if env.fails .statfsTarget then
        .err ⟨.internal, s!"compare published volume at {req.targetPath.quote}"⟩ n
      else if m.readonly ≠ req.readonly then .ok false n
      else if env.fails .readTarget then
        .err ⟨.internal, s!"compare published volume at {req.targetPath.quote}"⟩ n
      else .ok (equalStringSets (BpfFs.visible host (n.fs m.fs)) maps) n := by
  unfold publishMatches step
  by_cases hs : env.fails .statfsTarget = true
  · simp only [hs, if_true]
    rfl
  · simp only [hs, Bool.false_eq_true, if_false, pure_bind, read_bind, hres, hm]
    by_cases hro : m.readonly = req.readonly
    · by_cases hr : env.fails .readTarget = true
      · simp only [head?_cons, hro, ne_eq, not_true, if_false, hr, if_true]
        rfl
      · simp only [head?_cons, hro, ne_eq, not_true, if_false, hr, Bool.false_eq_true, pure_bind]
        rfl
    · simp only [head?_cons, ne_eq, hro, not_false_eq_true, if_true]
      rfl

theorem nodePublishVolume_apply (maps : List String) (hc : checkPublish req = .ok maps)
    (hr : env.fails .readMountinfo = false) {fsType : String}
    (hf : mountpointFsType n req.targetPath = some fsType) :
    nodePublishVolume host env req n = answerMounted host env req maps fsType n := by
  unfold nodePublishVolume step
  simp only [hc, hr, Bool.false_eq_true, if_false, bind_apply, lift_ok, pure_bind, read_apply, hf]

/-- At a mounted target nothing changes, and the answer is positive only for the maps and the
read-only flag that are there. -/
theorem publish_of_mounted (hres : host.resolve req.targetPath = req.targetPath)
    (hm : n.mounts req.targetPath = [m]) :
    (nodePublishVolume host env req n).state = n ∧
      ((nodePublishVolume host env req n).isOk = true → Shows host n req m) := by
  cases hc : checkPublish req with
  | error e =>
    unfold nodePublishVolume
    rw [hc]
    exact ⟨rfl, fun h => by cases h⟩
  | ok maps =>
    cases hr : env.fails .readMountinfo with
    | true =>
      unfold nodePublishVolume step
      simp only [hc, hr, if_true]
      exact ⟨rfl, fun h => by cases h⟩
    | false =>
      have hmaps := checkPublish_eq_ok hc
      subst hmaps
      rw [nodePublishVolume_apply _ hc hr (by rw [mountpointFsType, hm]; rfl)]
      unfold answerMounted
      by_cases hf : m.fsType = "bpf"
      · simp only [hf, ne_eq, not_true, if_false, bind_apply, publishMatches_apply _ hres hm]
        by_cases hs : env.fails .statfsTarget = true
        · simp [hs]
        · by_cases hro : m.readonly = req.readonly
          · by_cases hrt : env.fails .readTarget = true
            · simp [hs, hro, hrt]
            · cases he : equalStringSets (BpfFs.visible host (n.fs m.fs))
                  (parseMapNames req.maps) with
              | false => simp [hs, hro, hrt]
              | true =>
                simp only [hs, hro, hrt, not_true, if_false, if_true, Bool.false_eq_true]
                exact ⟨rfl, fun _ => ⟨hc, hm, hf, hro, equalStringSets_iff.mp he⟩⟩
          · simp [hs, hro]
      · simp [hf]

/-- A publish that repeats the one in effect finds it. -/
theorem publish_of_shows (hres : host.resolve req.targetPath = req.targetPath)
    (hs : Shows host n req m) (ho : env.Observes) :
    (nodePublishVolume host env req n).isOk = true := by
  obtain ⟨hr, hst, hrt⟩ := ho
  rw [nodePublishVolume_apply _ hs.checked hr (by rw [mountpointFsType, hs.mounted]; rfl)]
  unfold answerMounted
  simp [bind_apply, publishMatches_apply _ hres hs.mounted, hst, hrt, hs.fsType, hs.readonly,
    equalStringSets_iff.mpr hs.maps]

theorem Shows.not_differs {m' : Mount} (h : Shows host n r m)
    (h' : Shows host n req m') (ht : r.targetPath = req.targetPath) : ¬ Differs r req := by
  have hm : m = m' := singleton_inj.mp (h.mounted.symm.trans (ht ▸ h'.mounted))
  subst hm
  rintro (hro | hperm)
  · exact hro (h.readonly.symm.trans h'.readonly)
  · exact hperm (h.maps.symm.trans h'.maps)

/-! ## A target that is not mounted -/

theorem ready_self (n : Node) (hp : n.mounts pod = [])
    (ht : n.mounts target = []) : Ready n pod target n := by
  have h := staged_self n pod target
  rw [hp, ht] at h
  exact ⟨h, rfl⟩

theorem checkPublish_of_publish (h : (nodePublishVolume host env req n).isOk = true) :
    checkPublish req = .ok (parseMapNames req.maps) := by
  cases hc : checkPublish req with
  | ok maps => rw [checkPublish_eq_ok hc]
  | error e =>
    unfold nodePublishVolume at h
    rw [hc] at h
    cases h

/-- A publish at a target that is not mounted ends with the maps there, or leaves the mounts. -/
theorem publish_of_unmounted (hp : Apart host req.targetPath)
    (hpod : host.resolve (host.podBpffs req.volumeID) = host.podBpffs req.volumeID)
    (hut : env.fails .undoTarget = false) (hup : env.fails .undoPod = false)
    (hm : n.mounts req.targetPath = []) (hpm : n.mounts (host.podBpffs req.volumeID) = []) :
    Triple (· = n) (nodePublishVolume host env req)
      (fun _ => Published n (host.podBpffs req.volumeID) req.targetPath req.readonly
        (parseMapNames req.maps))
      (Staged n (host.podBpffs req.volumeID) req.targetPath [] []) := by
  have hne := hp.notPod req.volumeID
  unfold nodePublishVolume
  generalize host.podBpffs req.volumeID = pod at hpod hpm hne ⊢
  have hself := ready_self n hpm hm
  cases hc : checkPublish req with
  | error e => exact .fail fun _ h => h ▸ hself.1
  | ok maps =>
    have hmaps := checkPublish_eq_ok hc
    subst hmaps
    have hstep : Triple (· = n) (step env .readMountinfo "check target path mount state")
        (fun _ => (· = n)) (Staged n pod req.targetPath [] []) :=
      (step_spec _ _).mono_err fun _ h => h ▸ hself.1
    refine hstep.bind fun _ => .read_bind fun found => ?_
    cases found with
    | some fsType =>
      intro n' ⟨hn', hf⟩
      simp [hn', mountpointFsType, hm] at hf
    | none =>
      refine .conseq (P := (· = n)) ?_ (fun _ h => h.1) (fun _ _ h => h) (fun _ h => h)
      refine .ite (fun _ => .fail fun _ h => h ▸ hself.1) fun _ => ?_
      have hmount : ∀ mapsDir, Triple (· = n)
          ((mountVolume host env req (parseMapNames req.maps) mapsDir pod).onErr
            (rollback host env req.targetPath pod))
          (fun _ => Published n pod req.targetPath req.readonly (parseMapNames req.maps))
          (Staged n pod req.targetPath [] []) := by
        intro mapsDir
        refine .onErr (E := Undoable n pod req.targetPath) ?_
          (rollback_spec hne hpod hp.resolved hut hup)
        exact (mountVolume_spec hne hpod hp.resolved).conseq (fun _ h => h ▸ hself)
          (fun _ _ h => h) fun _ h => h
      cases env.find req.program with
      | notFound => exact .fail fun _ h => h ▸ hself.1
      | failed => exact .fail fun _ h => h ▸ hself.1
      | found mapsDir => exact .ite (fun _ => .fail fun _ h => h ▸ hself.1) fun _ => hmount mapsDir

/-! ## Unpublishing -/

/-- The target's directory stays removed while the pod's path is cleaned up. -/
theorem cleanupMount_pod_spec {n0 : Node} {unmount remove : Step} (hne : pod ≠ target)
    (hpod : host.resolve pod = pod) (hpm : pm.tail = []) :
    Triple (fun n => Staged n0 pod target pm tm n ∧ n.dirs target = false)
      (cleanupMount host env unmount remove pod).ignore
      (fun _ n => (∃ pm', pm' <:+ pm ∧ Staged n0 pod target pm' tm n) ∧ n.dirs target = false)
      (fun _ => False) := by
  refine .ignore (.bind
    (Q := fun _ n => Staged n0 pod target [] tm n ∧ n.dirs target = false) ?_ fun _ => ?_)
  · refine (unmountIfMounted_spec hpod fun n h => ⟨?_, h.2⟩).mono_err fun _ h =>
      ⟨⟨pm, suffix_rfl, h.2.1⟩, h.2.2⟩
    rw [h.1.at_pod hne, hpm]
    exact h.1.set_pod hne []
  · refine (removeAll_spec hpod (fun n h => h.1.at_pod hne) fun n h =>
      ⟨h.1.set_dirs false (.inl rfl), ?_⟩).conseq (fun _ h => h)
        (fun _ _ h => ⟨⟨[], nil_suffix, h.1.1⟩, h.1.2⟩) fun _ h => ⟨⟨[], nil_suffix, h.1⟩, h.2⟩
    exact (update_of_ne hne.symm _ _).trans h.2

/-- An unpublish takes mounts away from its two paths and touches nothing else. If it succeeds, the
target is not mounted and its directory is gone. -/
theorem unpublish_spec (env : CallEnv) {req : UnpublishRequest} (hp : Apart host req.targetPath)
    (hpod : host.resolve (host.podBpffs req.volumeID) = host.podBpffs req.volumeID)
    (hd : ∀ p, (n.mounts p).length ≤ 1) :
    Triple (· = n) (nodeUnpublishVolume host env req)
      (fun _ n' => Cleared n' req ∧ ∃ pm, pm <:+ n.mounts (host.podBpffs req.volumeID) ∧
        Staged n (host.podBpffs req.volumeID) req.targetPath pm [] n')
      (fun n' => ∃ tm, tm <:+ n.mounts req.targetPath ∧
        Staged n (host.podBpffs req.volumeID) req.targetPath
          (n.mounts (host.podBpffs req.volumeID)) tm n') := by
  have hne := hp.notPod req.volumeID
  have htail : ∀ p, (n.mounts p).tail = [] := fun p =>
    length_eq_zero_iff.mp (by rw [length_tail]; have := hd p; omega)
  unfold nodeUnpublishVolume
  generalize host.podBpffs req.volumeID = pod at hpod hne ⊢
  have hself := staged_self n pod req.targetPath
  cases hv : checkVolumeID req.volumeID with
  | error e => exact .fail fun m h => h.symm ▸ ⟨_, suffix_rfl, hself⟩
  | ok u =>
    cases ht : checkTargetPath req.targetPath with
    | error e => exact .fail fun m h => h.symm ▸ ⟨_, suffix_rfl, hself⟩
    | ok u' =>
      have htarget : Triple (· = n)
          (cleanupMount host env .unmountTarget .removeTarget req.targetPath)
          (fun _ n' => Staged n pod req.targetPath (n.mounts pod) [] n' ∧
            n'.dirs req.targetPath = false)
          (fun n' => ∃ tm, tm <:+ n.mounts req.targetPath ∧
            Staged n pod req.targetPath (n.mounts pod) tm n') := by
        refine .bind (Q := fun _ => Staged n pod req.targetPath (n.mounts pod) []) ?_ fun _ => ?_
        · refine (unmount_target_spec hp.resolved).conseq (fun _ h => h ▸ hself)
            (fun _ _ h => ?_) fun _ h => ⟨_, suffix_rfl, h.2⟩
          rwa [htail] at h
        · exact (removeAll_spec hp.resolved (fun _ h => h.at_target) fun _ h =>
            h.set_dirs false (.inr rfl)).mono_err fun _ h => ⟨[], nil_suffix, h⟩
      refine .bind (Q := fun _ => (· = n)) (.pure fun _ h => h) fun _ => ?_
      refine .bind (Q := fun _ => (· = n)) (.pure fun _ h => h) fun _ => ?_
      refine .bind htarget.mapErr fun _ => ?_
      refine (cleanupMount_pod_spec hne hpod (htail pod)).conseq (fun _ h => h) ?_ fun _ h => h.elim
      rintro _ n' ⟨⟨pm, hsuf, hst⟩, hdirs⟩
      exact ⟨⟨hv, ht, hst.at_target, hdirs⟩, pm, hsuf, hst⟩

/-- After a successful unpublish, the same call succeeds, whatever steps fail. -/
theorem unpublish_of_cleared {req : UnpublishRequest} (hp : Apart host req.targetPath)
    (h : Cleared n req) : (nodeUnpublishVolume host env req n).isOk = true := by
  have hclean : cleanupMount host env .unmountTarget .removeTarget req.targetPath n = .ok () n := by
    have hu : unmountIfMounted host env .unmountTarget req.targetPath n = .ok () n := by
      unfold unmountIfMounted
      rw [hp.resolved, h.unmounted]
    unfold cleanupMount
    rw [bind_of_ok hu]
    unfold removeAll
    rw [hp.resolved, h.unmounted]
    exact if_pos h.removed
  unfold nodeUnpublishVolume
  rw [h.volumeID, h.targetPath]
  simp [bind_apply, mapErr, hclean]

/-! ## One call -/

/-- A request that is published stays so under a call that works on other paths. -/
theorem Shows.of_staged (h : Shows host n r m) (hs : Staged n pod target pm tm n')
    (hpod : r.targetPath ≠ pod) (htarget : r.targetPath ≠ target) (hfs : m.fs < n.nextFs) :
    Shows host n' r m := by
  refine ⟨h.checked, ?_, h.fsType, h.readonly, ?_⟩
  · rw [hs.mounts, update_of_ne htarget, update_of_ne hpod]
    exact h.mounted
  · rw [hs.fs m.fs hfs]
    exact h.maps

theorem Cleared.of_staged
    {u : UnpublishRequest} (h : Cleared n u) (hs : Staged n pod target pm tm n')
    (hpod : u.targetPath ≠ pod) (htarget : u.targetPath ≠ target) : Cleared n' u := by
  refine ⟨h.volumeID, h.targetPath, ?_, ?_⟩
  · rw [hs.mounts, update_of_ne htarget, update_of_ne hpod]
    exact h.unmounted
  · rw [hs.dirs _ hpod htarget]
    exact h.removed

/-- The node after a call on a pod's path and a target: at most one mount on each of them, the rest
as before. -/
structure Moved (n : Node) (pod target : String) (n' : Node) : Prop where
  depth : ∀ p, (n'.mounts p).length ≤ 1
  bound : ∀ p, ∀ m ∈ n'.mounts p, m.fs < n'.nextFs
  staged : ∃ pm tm, Staged n pod target pm tm n'

theorem Moved.of_staged (hk : Kept host x) (hs : Staged x.node pod target pm tm n')
    (hp : pm.length ≤ 1 ∧ ∀ m ∈ pm, m.fs < n'.nextFs)
    (ht : tm.length ≤ 1 ∧ ∀ m ∈ tm, m.fs < n'.nextFs) : Moved x.node pod target n' := by
  have hall : ∀ p, (n'.mounts p).length ≤ 1 ∧ ∀ m ∈ n'.mounts p, m.fs < n'.nextFs := by
    intro p
    rw [hs.mounts]
    by_cases h1 : p = target
    · rwa [h1, update_self]
    · rw [update_of_ne h1]
      by_cases h2 : p = pod
      · rwa [h2, update_self]
      · rw [update_of_ne h2]
        exact ⟨hk.depth p, fun m hm => Nat.lt_of_lt_of_le (hk.bound p m hm) hs.nextFs⟩
  exact ⟨fun p => (hall p).1, fun p => (hall p).2, pm, tm, hs⟩

theorem Moved.refl (hk : Kept host x) (pod target : String) : Moved x.node pod target x.node :=
  ⟨hk.depth, hk.bound, _, _, staged_self x.node pod target⟩

theorem publish_outcome (hk : Kept host x) (hm : PublishFits host x env req) :
    let o := nodePublishVolume host env req x.node
    (o.isOk = true → ∃ m, Shows host o.state req m) ∧
    (o.isOk = false → o.state.mounts = x.node.mounts) ∧
    (x.node.mounts req.targetPath ≠ [] → o.state = x.node) ∧
    Moved x.node (host.podBpffs req.volumeID) req.targetPath o.state := by
  intro o
  have hdepth := hk.depth req.targetPath
  cases ht : x.node.mounts req.targetPath with
  | cons m rest =>
    have hrest : rest = [] := by
      rw [ht] at hdepth
      exact length_eq_zero_iff.mp (by simpa using hdepth)
    subst hrest
    have hmounted : o.state = x.node ∧ (o.isOk = true → Shows host x.node req m) :=
      publish_of_mounted hm.apart.resolved ht
    obtain ⟨hstate, hok⟩ := hmounted
    rw [hstate]
    exact ⟨fun h => ⟨m, hok h⟩, fun _ => rfl, fun _ => rfl, Moved.refl hk _ _⟩
  | nil =>
    have hpm := hm.noStale ht
    have hspec := publish_of_unmounted hm.apart hm.pod hm.undoTarget hm.undoPod ht hpm
    cases ho : o with
    | ok u n' =>
      have hp := hspec.ok rfl ho
      have hm' : o.isOk = true := by rw [ho]; rfl
      refine ⟨fun _ => ⟨⟨"bpf", x.node.nextFs, req.readonly⟩, checkPublish_of_publish hm', ?_, rfl,
        rfl, ?_⟩, fun h => (by cases h), fun h => absurd rfl h, ?_⟩
      · exact hp.staged.at_target
      · rw [show (ok u n' : Outcome Node Status Unit).state = n' from rfl,
          visible_of_names hp.names hp.dots]
      · exact Moved.of_staged hk hp.staged ⟨Nat.le_refl 1, forall_mem_singleton.2 hp.lt⟩
          ⟨Nat.le_refl 1, forall_mem_singleton.2 hp.lt⟩
    | err e n' =>
      have hs := hspec.err rfl ho
      refine ⟨fun h => (by cases h), fun _ => ?_, fun h => absurd rfl h, ?_⟩
      · show n'.mounts = x.node.mounts
        exact hs.mounts.trans (ready_self x.node hpm ht).1.mounts.symm
      · exact Moved.of_staged hk hs ⟨Nat.zero_le 1, nofun⟩ ⟨Nat.zero_le 1, nofun⟩

theorem publish_contract (hk : Kept host x) (hm : PublishMeets host x env req) :
    Call.Contract host x (.publish env req) := by
  obtain ⟨hok, herr, hsame, -⟩ := publish_outcome hk hm.toPublishFits
  -- a target with a publish in effect is mounted, so nothing changes there
  have hstate : ∀ r, x.published req.targetPath = some r →
      (nodePublishVolume host env req x.node).state = x.node := by
    intro r hr
    obtain ⟨ht, -, m, hs⟩ := hk.published _ r hr
    apply hsame
    rw [← ht, hs.mounted]
    exact cons_ne_nil _ _
  refine ⟨fun hp => ?_, fun r hr hne => ?_, herr⟩
  · obtain ⟨-, -, m, hs⟩ := hk.published _ _ hp
    exact ⟨publish_of_shows hm.apart.resolved hs (hm.same hp), by rw [hstate req hp]⟩
  · obtain ⟨ht, -, m, hs⟩ := hk.published _ r hr
    refine ⟨?_, by rw [hstate r hr]⟩
    rw [← Bool.not_eq_true]
    intro hcon
    obtain ⟨m', hs'⟩ := hok hcon
    rw [hstate r hr] at hs'
    exact hs.not_differs hs' ht (hm.other r hr hne)

/-- What the calls have established at other targets stays so. -/
theorem Kept.moved (hk : Kept host x) {volumeID : String} {pub : String → Option PublishRequest}
    {unpub : String → Option UnpublishRequest}
    (hmv : Moved x.node (host.podBpffs volumeID) target n')
    (hpub : ∀ t r, pub t = some r → t ≠ target → x.published t = some r)
    (hunpub : ∀ t u, unpub t = some u → t ≠ target → x.unpublished t = some u)
    (hp : ∀ r, pub target = some r → r.targetPath = target ∧ Apart host target ∧
      ∃ m, Shows host n' r m)
    (hu : ∀ u, unpub target = some u → u.targetPath = target ∧ Apart host target ∧ Cleared n' u) :
    Kept host ⟨n', pub, unpub⟩ := by
  obtain ⟨pm, tm, hst⟩ := hmv.staged
  refine ⟨hmv.depth, hmv.bound, fun t r hr => ?_, fun t u h => ?_⟩
  · by_cases ht : t = target
    · subst ht
      exact hp r hr
    · obtain ⟨rfl, hap, m, hs⟩ := hk.published t r (hpub t r hr ht)
      have hfs := hk.bound r.targetPath m (by rw [hs.mounted]; exact mem_singleton_self m)
      exact ⟨rfl, hap, m, hs.of_staged hst (hap.notPod volumeID).symm ht hfs⟩
  · by_cases ht : t = target
    · subst ht
      exact hu u h
    · obtain ⟨rfl, hap, hc⟩ := hk.unpublished t u (hunpub t u h ht)
      exact ⟨rfl, hap, hc.of_staged hst (hap.notPod volumeID).symm ht⟩

theorem Kept.publish (hk : Kept host x) (hm : PublishFits host x env req) :
    Kept host (Call.run host x (.publish env req)) := by
  obtain ⟨hok, herr, hsame, hmv⟩ := publish_outcome hk hm
  refine hk.moved hmv (fun t r hr ht => ?_) (fun t u hu ht => by simpa [ht] using hu)
    (fun r hr => ?_) fun u hu => by simp at hu
  · split_ifs at hr
    · rwa [update_of_ne ht] at hr
    · exact hr
  · split_ifs at hr with hb
    · obtain rfl : req = r := by simpa using hr
      exact ⟨rfl, hm.apart, hok hb⟩
    · -- a publish that failed at a target in use has changed nothing
      obtain ⟨ht, hap, m, hs⟩ := hk.published _ r hr
      have hstate := hsame (by rw [← ht, hs.mounted]; exact cons_ne_nil _ _)
      exact ⟨ht, hap, m, by rwa [hstate]⟩

theorem Kept.unpublish {req : UnpublishRequest} (hk : Kept host x) (hap : Apart host req.targetPath)
    (hpod : host.resolve (host.podBpffs req.volumeID) = host.podBpffs req.volumeID) :
    Kept host (Call.run host x (.unpublish env req)) := by
  have hspec := unpublish_spec env hap hpod hk.depth
  generalize ho : nodeUnpublishVolume host env req x.node = o at hspec
  obtain ⟨pm, tm, hpm, htm, hst, hc⟩ : ∃ pm tm, pm <:+ x.node.mounts (host.podBpffs req.volumeID) ∧
      tm <:+ x.node.mounts req.targetPath ∧
      Staged x.node (host.podBpffs req.volumeID) req.targetPath pm tm o.state ∧
      (o.isOk = true → Cleared o.state req) := by
    cases o with
    | ok a n' =>
      obtain ⟨hc, pm, hpm, hst⟩ := hspec.ok rfl ho
      exact ⟨pm, [], hpm, nil_suffix, hst, fun _ => hc⟩
    | err e n' =>
      obtain ⟨tm, htm, hst⟩ := hspec.err rfl ho
      exact ⟨_, tm, suffix_rfl, htm, hst, nofun⟩
  have hsub : ∀ {p : String} {l : List Mount}, l <:+ x.node.mounts p →
      l.length ≤ 1 ∧ ∀ m ∈ l, m.fs < o.state.nextFs := fun hl =>
    ⟨hl.length_le.trans (hk.depth _), fun m hm =>
      Nat.lt_of_lt_of_le (hk.bound _ m (hl.subset hm)) hst.nextFs⟩
  have hmv := Moved.of_staged hk hst (hsub hpm) (hsub htm)
  simp only [Call.run, ho, hap.resolved]
  refine hk.moved hmv (fun t r hr ht => ?_) (fun t u hu ht => by simpa [ht] using hu)
    (fun r hr => ?_) fun u hu => ?_
  · split_ifs at hr
    · rwa [update_of_ne ht] at hr
    · exact hr
  · split_ifs at hr with hm
    · simp at hr
    · -- the unmount failed: the publish is still in effect
      obtain ⟨ht, hap, m, hs⟩ := hk.published _ r hr
      have htm' : tm = [m] := by
        rw [hst.at_target] at hm
        rw [← ht, hs.mounted] at htm
        rcases suffix_cons_iff.mp htm with h | h
        · exact h
        · exact absurd (suffix_nil.mp h) hm
      have hfs := hk.bound r.targetPath m (by rw [hs.mounted]; exact mem_singleton_self m)
      refine ⟨ht, hap, m, hs.checked, ?_, hs.fsType, hs.readonly, ?_⟩
      · rw [ht, hst.at_target, htm']
      · rw [hst.fs m.fs hfs]
        exact hs.maps
  · rw [update_self] at hu
    split_ifs at hu with hok
    cases hu
    exact ⟨rfl, hap, hc hok⟩

theorem kept_start {n : Node} (hdepth : ∀ p, (n.mounts p).length ≤ 1)
    (hbound : ∀ p, ∀ m ∈ n.mounts p, m.fs < n.nextFs) : Kept host (Traced.start n) :=
  ⟨hdepth, hbound, fun _ _ h => (by cases h), fun _ _ h => (by cases h)⟩

theorem Call.Meets.fits {c : Call} (hm : c.Meets host x) : c.Fits host x := by
  cases c with
  | publish env req => exact hm.toPublishFits
  | unpublish env req => exact hm

theorem Kept.run {c : Call} (hk : Kept host x) (hm : c.Fits host x) : Kept host (c.run host x) := by
  cases c with
  | publish env req => exact hk.publish hm
  | unpublish env req => exact hk.unpublish hm.1 hm.2

theorem contract_of_meets {c : Call} (hk : Kept host x) (hm : c.Meets host x) :
    c.Contract host x := by
  cases c with
  | publish env req => exact publish_contract hk hm
  | unpublish env req =>
    intro hu
    exact unpublish_of_cleared hm.1 (hk.unpublished _ _ hu).2.2

theorem kept_runCalls {calls : List Call} (hk : Kept host x)
    (hm : ∀ pre c post, calls = pre ++ c :: post → c.Fits host (runCalls host x pre)) :
    Kept host (runCalls host x calls) := by
  induction calls generalizing x with
  | nil => exact hk
  | cons c calls ih =>
    apply ih (hk.run (hm [] c calls rfl))
    intro pre c' post heq
    exact hm (c :: pre) c' post (by rw [heq]; rfl)

/-- **Every published volume shows what was asked for**, and no mount hides another. -/
theorem shown_of_run {n : Node} (hdepth : ∀ p, (n.mounts p).length ≤ 1)
    (hbound : ∀ p, ∀ m ∈ n.mounts p, m.fs < n.nextFs) {calls : List Call}
    (hm : ∀ pre c post, calls = pre ++ c :: post → c.Fits host (runCalls host (.start n) pre)) :
    let x := runCalls host (.start n) calls
    (∀ p, (x.node.mounts p).length ≤ 1) ∧
      ∀ t r, x.published t = some r → ∃ m, Shows host x.node r m := by
  have hk := kept_runCalls (kept_start hdepth hbound) hm
  exact ⟨hk.depth, fun t r h => (hk.published t r h).2.2⟩

end

/-- In every history of publish and unpublish calls, with any of their steps failing, whose calls
all meet the condition, every call does what is expected of it. -/
theorem contract_of_run (host : Host) (n : Node) (hdepth : ∀ p, (n.mounts p).length ≤ 1)
    (hbound : ∀ p, ∀ m ∈ n.mounts p, m.fs < n.nextFs) (calls : List Call)
    (hm : ∀ pre c post, calls = pre ++ c :: post →
      c.Meets host (runCalls host (Traced.start n) pre)) :
    ∀ pre c post, calls = pre ++ c :: post →
      c.Contract host (runCalls host (Traced.start n) pre) := by
  intro pre c post heq
  refine contract_of_meets (kept_runCalls (kept_start hdepth hbound) ?_) (hm pre c post heq)
  intro pre' c' post' heq'
  exact (hm pre' c' (post' ++ c :: post) (by rw [heq, heq']; simp)).fits

/-- A publish made twice meets the condition, where its paths are free at first and it is in effect
after the first time. -/
theorem meets_twice {host : Host} {n : Node} {env : CallEnv} {req : PublishRequest}
    (hap : Apart host req.targetPath)
    (hpod : host.resolve (host.podBpffs req.volumeID) = host.podBpffs req.volumeID)
    (hut : env.fails .undoTarget = false) (hup : env.fails .undoPod = false) (hobs : env.Observes)
    (hfree : n.mounts (host.podBpffs req.volumeID) = [])
    (hpub : (runCalls host (.start n) [.publish env req]).published req.targetPath = some req)
    (hmounted : (runCalls host (.start n) [.publish env req]).node.mounts req.targetPath ≠ []) :
    ∀ pre c post, [Call.publish env req, .publish env req] = pre ++ c :: post →
      c.Meets host (runCalls host (.start n) pre) := by
  intro pre c post heq
  match pre, heq with
  | [], heq =>
    cases heq
    exact ⟨⟨hap, hpod, hut, hup, fun _ => hfree⟩, fun _ => hobs, fun r h => (by cases h)⟩
  | [_], heq =>
    cases heq
    refine ⟨⟨hap, hpod, hut, hup, fun h => absurd h hmounted⟩, fun _ => hobs, fun r h hne => ?_⟩
    exact absurd (Option.some.inj (h.symm.trans hpub)) hne
  | _ :: _ :: pre, heq => simp at heq

/-- A publish that repeats the one in effect and changes the mounts is not what is expected. -/
theorem not_contract_of_mounts {host : Host} {env : CallEnv} {req : PublishRequest}
    (hpub : x.published req.targetPath = some req) {p : String}
    (hp : ((Call.publish env req).run host x).node.mounts p ≠ x.node.mounts p) :
    ¬ (Call.publish env req).Contract host x :=
  fun h => hp (congrFun (h.1 hpub).2 p)

namespace Sample

/-- A host without symbolic links. -/
def host : Host := ⟨"/run/csi", Path.clean, true⟩

/-- Nothing is mounted. -/
def node : Node := ⟨fun _ => [], fun _ => ⟨[], none⟩, 0, fun _ => false⟩

/-- Programs have their maps pinned, and no step fails. -/
def calm : CallEnv := ⟨true, fun _ => .found "/run/maps", fun _ => true, fun _ => false⟩

def request (target : String) : PublishRequest :=
  ⟨"vol", target, "counter", "stats, hits", true, some ⟨.mount ⟨"", [], "1000"⟩, .singleNodeWriter⟩⟩

end Sample

open Csi.Sample

theorem sample_apart : Apart host (request "/pods/v").targetPath := by
  refine ⟨by decide +kernel, fun volumeID h => ?_⟩
  have h' := congrArg (fun s => s.toList.take 2) h
  simp [host, request, Host.podBpffs] at h'

theorem contract_of_run_sample :
    (Call.publish calm (request "/pods/v")).Contract host
      (runCalls host (.start node) [.publish calm (request "/pods/v")]) :=
  contract_of_run host node (fun _ => Nat.zero_le 1) (fun _ _ hm => absurd hm not_mem_nil) _
    (meets_twice sample_apart (by decide +kernel) rfl rfl ⟨rfl, rfl, rfl⟩ rfl (by decide +kernel)
      (by decide +kernel))
    [.publish calm (request "/pods/v")] _ [] rfl

theorem shown_of_run_sample : let req := request "/pods/v"
    ∃ m, Shows host
      (runCalls host (.start node) [.publish calm req, .publish calm req]).node req m :=
  (shown_of_run (n := node) (fun _ => Nat.zero_le 1) (fun _ _ hm => absurd hm not_mem_nil)
    fun pre c post h => (meets_twice sample_apart (by decide +kernel) rfl rfl ⟨rfl, rfl, rfl⟩ rfl
      (by decide +kernel) (by decide +kernel) pre c post h).fits).2 "/pods/v" _ (by decide +kernel)

/-- A target path with a doubled slash: the publish that repeats the first one word for word does
not find it in the mount table, succeeds, and leaves a second mount on top of the first. -/
theorem publish_twice_stacks :
    (runCalls host (.start node) [.publish calm (request "/pods//v")]).published "/pods//v" =
      some (request "/pods//v") ∧
    (nodePublishVolume host calm (request "/pods//v")
      (runCalls host (.start node) [.publish calm (request "/pods//v")]).node).isOk = true ∧
    ¬ (Call.publish calm (request "/pods//v")).Contract host
      (runCalls host (.start node) [.publish calm (request "/pods//v")]) :=
  ⟨by decide +kernel, by decide +kernel,
    not_contract_of_mounts (by decide +kernel) (p := "/pods/v") (by decide +kernel)⟩

end Bpfman.Csi
