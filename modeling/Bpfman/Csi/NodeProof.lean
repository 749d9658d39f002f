import Bpfman.Csi.Node
import Bpfman.Lib.Triple

/-!
# What a publish does to the mounts

`Staged` follows the part of a publish that changes the host: which mounts there are on the pod's
path and on the target, everything else being as at the start. From it: a publish that succeeds
leaves one mount on the target, with the requested maps (`mountVolume_spec`), and the rollback of
one that fails takes away what it had mounted (`rollback_spec`).
-/

namespace Bpfman.Csi

open Fallible Outcome Proc Function List

variable {done maps : List String} {s : Step}

/-- The names a re-publish compares. -/
def BpfFs.visible (host : Host) (fs : BpfFs) : List String :=
  (BpfFs.names host fs).filter fun name => name ∉ ["maps.debug", "progs.debug"]

theorem visible_of_names {host : Host} {fs : BpfFs}
    (hn : fs.pins.map (·.name) = maps) (hdot : ∀ name ∈ maps, '.' ∉ name.toList) :
    BpfFs.visible host fs = maps := by
  have hown : (fs.pins.map (·.name)).filter (fun name => name ∉ ["maps.debug", "progs.debug"]) =
      fs.pins.map (·.name) := by
    rw [filter_eq_self]
    intro name hname
    have hd := hdot name (hn ▸ hname)
    simp only [mem_cons, not_mem_nil, or_false, not_or, decide_eq_true_eq]
    constructor
    · rintro rfl
      exact hd (by decide)
    · rintro rfl
      exact hd (by decide)
  unfold BpfFs.visible BpfFs.names
  rw [filter_append, hown, hn]
  cases host.debugFiles <;> simp

/-- A node in the middle of a publish that began in `n₀`: the mounts on the pod's path and on the
target are these; the other paths, and the file systems that existed, are as they were. -/
structure Staged (n₀ : Node) (pod target : String) (podMounts targetMounts : List Mount)
    (n : Node) : Prop where
  mounts : n.mounts = Function.update (Function.update n₀.mounts pod podMounts) target targetMounts
  dirs : ∀ p, p ≠ pod → p ≠ target → n.dirs p = n₀.dirs p
  fs : ∀ k, k < n₀.nextFs → n.fs k = n₀.fs k
  nextFs : n₀.nextFs ≤ n.nextFs

/-- The mount of the bpffs that a publish makes. -/
def ownMount (n₀ : Node) : Mount := ⟨"bpf", n₀.nextFs, false⟩

/-- The pod's bpffs is mounted, and holds the maps `done`. -/
structure Pinned (n₀ : Node) (pod target : String) (done : List String) (n : Node) : Prop where
  staged : Staged n₀ pod target [ownMount n₀] [] n
  names : (n.fs n₀.nextFs).pins.map (·.name) = done
  dots : ∀ name ∈ done, '.' ∉ name.toList
  lt : n₀.nextFs < n.nextFs

/-- What a rollback finds: at most one mount on each of the two paths. -/
def Undoable (n₀ : Node) (pod target : String) (n : Node) : Prop :=
  ∃ podMounts targetMounts, podMounts.length ≤ 1 ∧ targetMounts.length ≤ 1 ∧
    Staged n₀ pod target podMounts targetMounts n

theorem Staged.undoable {n₀ n : Node} {pod target : String} {pm tm : List Mount}
    (h : Staged n₀ pod target pm tm n) (hp : pm.length ≤ 1) (ht : tm.length ≤ 1) :
    Undoable n₀ pod target n :=
  ⟨pm, tm, hp, ht, h⟩

theorem Pinned.undoable {n₀ n : Node} {pod target : String}
    (h : Pinned n₀ pod target done n) : Undoable n₀ pod target n :=
  h.staged.undoable (Nat.le_refl 1) (Nat.zero_le 1)

section

variable {host : Host} {env : CallEnv} {n₀ n : Node} {pod target : String} {pm tm : List Mount}

namespace Staged

variable (h : Staged n₀ pod target pm tm n)
include h

theorem at_pod (hne : pod ≠ target) : n.mounts pod = pm := by
  rw [h.mounts, update_of_ne hne, update_self]

theorem at_target : n.mounts target = tm := by
  rw [h.mounts, update_self]

theorem set_pod (hne : pod ≠ target) (pm' : List Mount) :
    Staged n₀ pod target pm' tm { n with mounts := update n.mounts pod pm' } := by
  refine ⟨?_, h.dirs, h.fs, h.nextFs⟩
  rw [h.mounts, update_comm hne, update_idem, update_comm hne]

theorem set_target (tm' : List Mount) :
    Staged n₀ pod target pm tm' { n with mounts := update n.mounts target tm' } := by
  refine ⟨?_, h.dirs, h.fs, h.nextFs⟩
  rw [h.mounts, update_idem]

theorem set_dirs {p : String} (b : Bool) (hp : p = pod ∨ p = target) :
    Staged n₀ pod target pm tm { n with dirs := update n.dirs p b } := by
  refine ⟨h.mounts, fun q hq ht => ?_, h.fs, h.nextFs⟩
  have hne : q ≠ p := by
    rcases hp with rfl | rfl
    · exact hq
    · exact ht
  show update n.dirs p b q = n₀.dirs q
  rw [update_of_ne hne]
  exact h.dirs q hq ht

theorem set_fs (fs : BpfFs) :
    Staged n₀ pod target pm tm { n with fs := update n.fs n₀.nextFs fs } := by
  refine ⟨h.mounts, h.dirs, fun k hk => ?_, h.nextFs⟩
  show update n.fs n₀.nextFs fs k = n₀.fs k
  rw [update_of_ne (Nat.ne_of_lt hk)]
  exact h.fs k hk

end Staged

/-! ## The steps -/

theorem step_spec {P : Node → Prop} (s : Step) (message : String) :
    Triple P (step env s message) (fun _ => P) P := by
  exact .ite (fun _ => .fail fun _ h => h) fun _ => .pure fun _ h => h

theorem mkdirAll_spec {P : Node → Prop} {path message : String} (s : Step)
    (hP : ∀ n, P n → P { n with dirs := update n.dirs (host.resolve path) true }) :
    Triple P (mkdirAll host env s path message) (fun _ => P) P := by
  exact (step_spec s message).bind fun _ => .modify hP

section

variable {P Q : Node → Prop} {path : String} (hres : host.resolve path = path)

include hres

theorem unmountIfMounted_spec
    (hQ : ∀ n, P n → Q { n with mounts := update n.mounts path (n.mounts path).tail }) :
    Triple P (unmountIfMounted host env s path) (fun _ => Q)
      (fun n => env.fails s = true ∧ P n) := by
  intro n h
  have hq := hQ n h
  unfold unmountIfMounted
  rw [hres]
  cases hm : n.mounts path with
  | nil =>
    rw [hm, tail_nil, ← hm, update_eq_self] at hq
    exact Triple.of_ok rfl hq
  | cons m rest =>
    rw [hm] at hq
    by_cases hf : env.fails s
    · exact Triple.of_err (if_pos hf) ⟨hf, h⟩
    · exact Triple.of_ok (if_neg hf) hq

theorem removeAll_spec (hm : ∀ n, P n → n.mounts path = [])
    (hP : ∀ n, P n → P { n with dirs := update n.dirs path false }) :
    Triple P (removeAll host env s path) (fun _ n => P n ∧ n.dirs path = false) P := by
  intro n h
  unfold removeAll
  rw [hres, hm n h]
  by_cases hd : n.dirs path = false
  · exact Triple.of_ok (if_pos hd) ⟨h, hd⟩
  · by_cases hf : env.fails s
    · exact Triple.of_err ((if_neg hd).trans (if_pos hf)) h
    · exact Triple.of_ok ((if_neg hd).trans (if_neg hf)) ⟨hP n h, update_self ..⟩

end

theorem unmount_pod_spec (hne : pod ≠ target) (hres : host.resolve pod = pod) :
    Triple (Staged n₀ pod target pm tm) (unmountIfMounted host env s pod)
      (fun _ => Staged n₀ pod target pm.tail tm)
      (fun n => env.fails s = true ∧ Staged n₀ pod target pm tm n) :=
  unmountIfMounted_spec hres fun _ h => h.at_pod hne ▸ h.set_pod hne _

theorem unmount_target_spec (hres : host.resolve target = target) :
    Triple (Staged n₀ pod target pm tm) (unmountIfMounted host env s target)
      (fun _ => Staged n₀ pod target pm tm.tail)
      (fun n => env.fails s = true ∧ Staged n₀ pod target pm tm n) :=
  unmountIfMounted_spec hres fun _ h => h.at_target ▸ h.set_target _

theorem removeAll_pod_spec (hne : pod ≠ target) (hres : host.resolve pod = pod) :
    Triple (Staged n₀ pod target [] tm) (removeAll host env s pod)
      (fun _ => Staged n₀ pod target [] tm) (Staged n₀ pod target [] tm) :=
  (removeAll_spec hres (fun _ h => h.at_pod hne) fun _ h => h.set_dirs false (.inl rfl)).conseq
    (fun _ h => h) (fun _ _ h => h.1) fun _ h => h

theorem rollback_spec (hne : pod ≠ target) (hpod : host.resolve pod = pod)
    (htarget : host.resolve target = target) (hut : env.fails .undoTarget = false)
    (hup : env.fails .undoPod = false) :
    Triple (Undoable n₀ pod target) (rollback host env target pod)
      (fun _ => Staged n₀ pod target [] []) (Staged n₀ pod target [] []) := by
  intro n ⟨pm, tm, hpm, htm, h⟩
  have htm' : tm.tail = [] := length_eq_zero_iff.mp (by rw [length_tail]; omega)
  have hpm' : pm.tail = [] := length_eq_zero_iff.mp (by rw [length_tail]; omega)
  have h1 : Triple (Staged n₀ pod target pm tm)
      (unmountIfMounted host env .undoTarget target).ignore
      (fun _ => Staged n₀ pod target pm []) (Staged n₀ pod target [] []) :=
    .ignore ((unmount_target_spec htarget).conseq (fun _ h => h)
      (fun _ _ h => htm' ▸ h) (fun _ h => absurd h.1 (by rw [hut]; exact Bool.false_ne_true)))
  have h2 : Triple (Staged n₀ pod target pm [])
      (cleanupMount host env .undoPod .undoPodDir pod).ignore
      (fun _ => Staged n₀ pod target [] []) (Staged n₀ pod target [] []) := by
    refine .ignore (.bind ?_ fun _ => removeAll_pod_spec hne hpod)
    exact (unmount_pod_spec hne hpod).conseq (fun _ h => h) (fun _ _ h => hpm' ▸ h)
      (fun _ h => absurd h.1 (by rw [hup]; exact Bool.false_ne_true))
  exact (h1.bind fun _ => h2) n h

/-- Nothing is mounted on the two paths yet, nor anywhere since the start. -/
def Ready (n₀ : Node) (pod target : String) (n : Node) : Prop :=
  Staged n₀ pod target [] [] n ∧ n.nextFs = n₀.nextFs

theorem Ready.undoable (h : Ready n₀ pod target n) : Undoable n₀ pod target n :=
  h.1.undoable (Nat.zero_le 1) (Nat.zero_le 1)

theorem cleanStale_spec (hne : pod ≠ target) :
    Triple (Ready n₀ pod target) (cleanStale host env pod)
      (fun _ => Ready n₀ pod target) (Ready n₀ pod target) := by
  refine (step_spec _ _).bind fun _ => .read_bind fun found => ?_
  cases found with
  | none => exact .pure fun _ h => h.1
  | some fsType =>
    intro n ⟨h, hf⟩
    simp [mountpointFsType, h.1.at_pod hne] at hf

theorem Staged.mountNew (h : Staged n₀ pod target [] [] n) (hne : pod ≠ target)
    (hn : n.nextFs = n₀.nextFs) : Pinned n₀ pod target [] (n.mountNew pod) := by
  have hm : (n.mountNew pod).mounts = update n.mounts pod [ownMount n₀] := by
    show update n.mounts pod (⟨"bpf", n.nextFs, false⟩ :: n.mounts pod) = _
    rw [h.at_pod hne, hn]
    rfl
  have hf : (n.mountNew pod).fs = update n.fs n₀.nextFs ⟨[], none⟩ := by
    rw [← hn]
    rfl
  have hs := (h.set_pod hne [ownMount n₀]).set_fs ⟨[], none⟩
  have hnext : (n.mountNew pod).nextFs = n₀.nextFs + 1 := congrArg (· + 1) hn
  refine ⟨⟨hm ▸ hs.mounts, h.dirs, hf ▸ hs.fs, by omega⟩, ?_,
    fun _ hname => absurd hname not_mem_nil, by omega⟩
  rw [hf, update_self]
  rfl

theorem mountBpffs_spec (hne : pod ≠ target) (hpod : host.resolve pod = pod) :
    Triple (Ready n₀ pod target) (mountBpffs host env pod) (fun _ => Pinned n₀ pod target [])
      (Undoable n₀ pod target) := by
  refine .bind ((step_spec _ _).mono_err fun _ h => h.undoable) fun _ => ?_
  refine .bind (Q := fun _ => Pinned n₀ pod target [])
    (.modify fun n h => by rw [hpod]; exact h.1.mountNew hne h.2) fun _ => ?_
  -- a mount that cannot be looked at is unmounted again, or left to the rollback
  refine (step_spec _ _).onErr ((unmountIfMounted_spec hpod fun n h => ?_).mono_err fun _ h =>
    h.2.undoable)
  rw [h.staged.at_pod hne]
  exact (h.staged.set_pod hne []).undoable (Nat.zero_le 1) (Nat.zero_le 1)

/-- Changing the pod's bpffs without touching the names in it. -/
theorem modifyFs_spec (hne : pod ≠ target) (hpod : host.resolve pod = pod)
    {f : BpfFs → BpfFs} {done' : List String}
    (hf : ∀ fs : BpfFs, fs.pins.map (·.name) = done → (f fs).pins.map (·.name) = done')
    (hdots : ∀ name ∈ done', '.' ∉ name.toList) :
    Triple (Pinned n₀ pod target done) (modifyFs host pod f)
      (fun _ => Pinned n₀ pod target done') (Undoable n₀ pod target) := by
  refine .modify fun n h => ?_
  rw [hpod, h.staged.at_pod hne]
  refine ⟨h.staged.set_fs _, ?_, hdots, h.lt⟩
  simpa [ownMount] using hf (n.fs n₀.nextFs) h.names

theorem pinned_step (s : Step) (message : String) :
    Triple (Pinned n₀ pod target done) (step env s message) (fun _ => Pinned n₀ pod target done)
      (Undoable n₀ pod target) :=
  (step_spec s message).mono_err fun _ h => h.undoable

theorem publishMap_spec (hne : pod ≠ target) (hpod : host.resolve pod = pod)
    (programName mapsDir : String) (gid : Int) (done : List String) (name : String) :
    Triple (Pinned n₀ pod target done) (publishMap host env programName mapsDir pod gid name)
      (fun _ => Pinned n₀ pod target (done ++ [name])) (Undoable n₀ pod target) := by
  refine (pinned_step _ _).bind fun _ => .ite (fun _ => ?_) fun _ => .fail fun _ h => h.undoable
  have hpin : Triple (Pinned n₀ pod target done)
      (repinMap host env pod name (mapsDir ++ "/" ++ name))
      (fun _ => Pinned n₀ pod target (done ++ [name])) (Undoable n₀ pod target) := by
    refine (pinned_step _ _).bind fun _ => .read_bind fun names => .ite ?_ fun hc => ?_
    · exact fun _ => .fail fun _ h => h.1.undoable
    · intro n ⟨h, _⟩
      refine modifyFs_spec hne hpod (fun fs hfs => ?_) (fun x hx => ?_) n h
      · simp [hfs]
      · rcases mem_append.mp hx with hx | hx
        · exact h.dots x hx
        · rw [mem_singleton.mp hx]
          exact fun hd => hc (.inl hd)
  refine hpin.bind fun _ => .ite (fun _ => ?_) fun _ => .pure fun _ h => h
  refine (pinned_step _ _).bind fun _ => .bind ?_ fun _ => pinned_step _ _
  intro n h
  refine modifyFs_spec hne hpod (fun fs hfs => ?_) h.dots n h
  rw [← hfs, map_map]
  refine map_congr_left fun p _ => ?_
  simp only [comp, Pin.chown]
  split_ifs <;> rfl

/-- The bpffs of the pod, with the maps `maps`, is mounted on the target. -/
structure Published (n₀ : Node) (pod target : String) (readonly : Bool) (maps : List String)
    (n : Node) : Prop where
  staged : Staged n₀ pod target [ownMount n₀] [⟨"bpf", n₀.nextFs, readonly⟩] n
  names : (n.fs n₀.nextFs).pins.map (·.name) = maps
  dots : ∀ name ∈ maps, '.' ∉ name.toList
  lt : n₀.nextFs < n.nextFs

theorem Published.undoable {readonly : Bool}
    (h : Published n₀ pod target readonly maps n) : Undoable n₀ pod target n :=
  h.staged.undoable (Nat.le_refl 1) (Nat.le_refl 1)

theorem bindMount_spec (hne : pod ≠ target) (hpod : host.resolve pod = pod)
    (htarget : host.resolve target = target) :
    Triple (Pinned n₀ pod target maps) (bindMount host env pod target)
      (fun _ => Published n₀ pod target false maps) (Undoable n₀ pod target) := by
  refine (pinned_step _ _).bind fun _ => .modify fun n h => ?_
  rw [hpod, h.staged.at_pod hne, htarget, h.staged.at_target]
  exact ⟨h.staged.set_target _, h.names, h.dots, h.lt⟩

theorem remountReadOnly_spec (htarget : host.resolve target = target) :
    Triple (Published n₀ pod target false maps) (remountReadOnly host env target)
      (fun _ => Published n₀ pod target true maps) (Undoable n₀ pod target) := by
  refine .bind ((step_spec _ _).mono_err fun _ h => h.undoable) fun _ =>
    .modify fun n h => ?_
  rw [htarget, h.staged.at_target]
  exact ⟨h.staged.set_target _, h.names, h.dots, h.lt⟩

/-- The part of a publish that changes the host: it ends with the requested maps on the target, or
in a state that the rollback can undo. -/
theorem mountVolume_spec {req : PublishRequest} {mapsDir : String}
    (hne : pod ≠ req.targetPath) (hpod : host.resolve pod = pod)
    (htarget : host.resolve req.targetPath = req.targetPath) :
    Triple (Ready n₀ pod req.targetPath) (mountVolume host env req maps mapsDir pod)
      (fun _ => Published n₀ pod req.targetPath req.readonly maps)
      (Undoable n₀ pod req.targetPath) := by
  refine .bind ((cleanStale_spec hne).mono_err fun _ h => h.undoable) fun _ => ?_
  refine .bind ((mkdirAll_spec _ fun n h =>
    ⟨h.1.set_dirs true (.inl hpod), h.2⟩).mono_err fun _ h => Ready.undoable h) fun _ => ?_
  refine (mountBpffs_spec hne hpod).bind fun _ => ?_
  refine .bind (Q := fun _ => Pinned n₀ pod req.targetPath []) ?_ fun _ => ?_
  · unfold chownPod
    refine .ite (fun _ => (pinned_step _ _).bind fun _ => ?_) fun _ => .pure fun _ h => h
    exact modifyFs_spec hne hpod (fun fs hfs => hfs) fun _ hname => absurd hname not_mem_nil
  refine .bind (.forEach (publishMap_spec hne hpod _ _ _) maps []) fun _ => ?_
  refine .bind ((mkdirAll_spec _ fun n h =>
    ⟨h.staged.set_dirs true (.inr htarget), h.names, h.dots, h.lt⟩).mono_err
      fun _ h => Pinned.undoable h) fun _ => ?_
  refine (bindMount_spec hne hpod htarget).bind fun _ => ?_
  cases req.readonly with
  | true => exact remountReadOnly_spec htarget
  | false => exact .pure fun _ h => h

end

end Bpfman.Csi
