import Bpfman.Adapter
import Bpfman.WorldProof

/-!
# The kernel adapter: what each call did

For each adapter call: what a successful run did (`_eq_ok`), the steps it can fail at (`_eq_err`),
and that it only extends the log. `At key` says that nothing outside an attach point changed; every
call a rebuild makes at an attach point keeps it.
-/

namespace Bpfman

open Fallible Proc World

variable {e : Env} {w w' : World} {err : Err} {key : Key}

variable {d : Dir} {p : LinkPath} {x : Link} {id : KernelLinkID} {s : ExtensionAttachSpec}
  {prog : ProgPinPath} {netns : String}

/-! ## Nothing outside an attach point changes -/

/-- The directories a rebuild at `key` neither makes nor removes. -/
def Dir.foreign (key : Key) : Dir → Prop
  | .bpffs => False
  | .typeDir _ => False
  | .revision k _ => k ≠ key
  | .maps => True
  | .mapDir _ => True
  | .links => True
  | .tcx _ => True
  | .shared => True

/-- From `w` to `w'` nothing changed but the pins, directories, filters and link rows of one attach
point. -/
structure At (key : Key) (w w' : World) : Prop where
  programs : w'.store.programs = w.store.programs
  mapSets : w'.store.mapSets = w.store.mapSets
  sharedMapPins : w'.store.sharedMapPins = w.store.sharedMapPins
  mapPins : w'.mapPins = w.mapPins
  bytecode : w'.bytecode = w.bytecode
  prog : ∀ p, (∀ r, p ≠ .dispatcher key r) → w'.prog? p = w.prog? p
  link : ∀ p, p ≠ .dispatcherLink key → (∀ r i, p ≠ .extension key r i) → w'.link? p = w.link? p
  filters : ∀ f : Filter, f.key ≠ key → (f ∈ w'.filters ↔ f ∈ w.filters)
  dirs : ∀ d : Dir, d.foreign key → (d ∈ w'.dirs ↔ d ∈ w.dirs)

instance : Std.Refl (At key) :=
  ⟨fun _ => ⟨rfl, rfl, rfl, rfl, rfl, fun _ _ => rfl, fun _ _ _ => rfl, fun _ _ => Iff.rfl,
    fun _ _ => Iff.rfl⟩⟩

instance : IsTrans World (At key) :=
  ⟨fun _ _ _ h h' => ⟨h'.programs.trans h.programs, h'.mapSets.trans h.mapSets,
    h'.sharedMapPins.trans h.sharedMapPins, h'.mapPins.trans h.mapPins,
    h'.bytecode.trans h.bytecode, fun p hp => (h'.prog p hp).trans (h.prog p hp),
    fun p hp hp' => (h'.link p hp hp').trans (h.link p hp hp'),
    fun f hf => (h'.filters f hf).trans (h.filters f hf),
    fun d hd => (h'.dirs d hd).trans (h.dirs d hd)⟩⟩

theorem at_fail (w : World) (c : Call) : At key w (w.fail c) :=
  { refl_of (At key) w with programs := rfl }

/-- The directories `MkdirAll` makes for the attach point. -/
def Dir.native (key : Key) (d : Dir) : Prop := ∀ x ∈ d.chain, ¬ x.foreign key

theorem native_revision (r : Nat) : (Dir.revision key r).native key := by
  simp [Dir.native, Dir.chain, Dir.foreign]

theorem native_typeDir : (Dir.typeDir key.type).native key := by
  simp [Dir.native, Dir.chain, Dir.foreign]

theorem at_mkdirAll (hd : d.native key) (w : World) : At key w (w.mkdirAll d) := by
  refine { refl_of (At key) w with dirs := fun x hx => ?_ }
  simp only [World.mkdirAll, Finset.mem_union, List.mem_toFinset, or_iff_left_iff_imp]
  exact fun hm => absurd hx (hd x hm)

theorem at_rmdir (hd : ¬ d.foreign key) (w : World) : At key w (w.rmdir d) := by
  unfold World.rmdir
  split
  · refine { refl_of (At key) w with dirs := fun x hx => ?_ }
    have hne : x ≠ d := fun h => hd (h ▸ hx)
    simp [hne]
  · exact refl_of (At key) w

theorem at_removeAll (r : Nat) (w : World) : At key w (w.removeAll (.revision key r)) := by
  refine ⟨rfl, rfl, rfl, ?_, rfl, ?_, ?_, fun _ _ => Iff.rfl, ?_⟩
  · refine List.filter_eq_self.2 fun x _ => ?_
    cases x.1 <;> simp [MapPinPath.parent]
  · intro p hp
    rw [prog?_removeAll, if_neg]
    cases p with
    | prog id => simp [ProgPinPath.parent]
    | dispatcher k r' =>
      simp only [ProgPinPath.parent, Dir.revision.injEq, not_and]
      rintro rfl
      exact absurd rfl (hp r')
  · intro p _ hp
    rw [link?_removeAll, if_neg]
    cases p with
    | dispatcherLink k => simp [LinkPath.parent]
    | extension k r' i =>
      simp only [LinkPath.parent, Dir.revision.injEq, not_and]
      rintro rfl
      exact absurd rfl (hp r' i)
    | link id => simp [LinkPath.parent]
    | tcx d n i p => simp [LinkPath.parent]
  · intro x hx
    have hne : x ≠ .revision key r := by
      rintro rfl
      exact hx rfl
    simp [World.removeAll, hne]

/-- The link pins of an attach point. -/
def LinkPath.of (key : Key) (p : LinkPath) : Prop :=
  p = .dispatcherLink key ∨ ∃ r i, p = .extension key r i

theorem LinkPath.of.ne {q : LinkPath} (hp : p.of key) (hq : q ≠ .dispatcherLink key)
    (hq' : ∀ r i, q ≠ .extension key r i) : q ≠ p := by
  rintro rfl
  rcases hp with rfl | ⟨r, i, rfl⟩
  · exact hq rfl
  · exact hq' r i rfl

theorem at_addLink (hp : p.of key) (x : Link) (w : World) : At key w (w.addLink p x) := by
  refine { refl_of (At key) w with link := fun q hq hq' => ?_ }
  rw [link?_addLink, if_neg (hp.ne hq hq')]

theorem at_eraseLink (hp : p.of key) (w : World) : At key w (w.eraseLink p) := by
  refine { refl_of (At key) w with link := fun q hq hq' => ?_ }
  rw [link?_eraseLink, if_neg (hp.ne hq hq')]

theorem at_setLink (x : Link) (w : World) : At key w (w.setLink (.dispatcherLink key) x) := by
  refine { refl_of (At key) w with link := fun q hq _ => ?_ }
  rw [link?_setLink, if_neg hq]

theorem at_addProg (r : Nat) (x : Prog) (w : World) :
    At key w (w.addProg (.dispatcher key r) x) := by
  refine { refl_of (At key) w with prog := fun q hq => ?_ }
  rw [prog?_addProg, if_neg (hq r)]

theorem at_eraseProg (r : Nat) (w : World) : At key w (w.eraseProg (.dispatcher key r)) := by
  refine { refl_of (At key) w with prog := fun q hq => ?_ }
  rw [prog?_eraseProg, if_neg (hq r)]

theorem at_filters {F : Finset Filter} (hF : ∀ f : Filter, f.key ≠ key → (f ∈ F ↔ f ∈ w.filters)) :
    At key w { w with filters := F } :=
  { refl_of (At key) w with filters := hF }

/-! ## Directories -/

theorem mkdirAll_eq_ok (h : mkdirAll e d w = .ok () w') : w' = w.mkdirAll d := by
  simpa [eq_comm] using (prim_eq_ok.1 h).2

theorem mkdirAll_eq_err (h : mkdirAll e d w = .err err w') :
    e.fails (.mkdirAll d) = true ∧ w' = w.fail (.mkdirAll d) := by
  obtain ⟨hf, -, rfl⟩ := prim_eq_err.1 h
  exact ⟨by simpa using hf, rfl⟩

theorem adapts_mkdirAll (d : Dir) : Adapts (mkdirAll e d) := .prim fun _ _ _ => rfl

theorem keeps_at_mkdirAll (hd : d.native key) : Keeps (At key) (mkdirAll e d) :=
  keeps_prim at_fail fun w => .some (at_mkdirAll hd w)

theorem adapts_rmdir (d : Dir) : Adapts (rmdir e d) := by
  refine .ignore (.prim fun w s l => ?_)
  simp only [World.rmdir, show (w.beside s l).dirEmpty d = w.dirEmpty d from rfl]
  split <;> rfl

theorem keeps_at_rmdir (hd : ¬ d.foreign key) : Keeps (At key) (rmdir e d) :=
  (keeps_prim at_fail fun w => .some (at_rmdir hd w)).ignore

theorem removeAll_eq_ok (h : removeAll e d w = .ok () w') : w' = w.removeAll d := by
  simpa [eq_comm] using (prim_eq_ok.1 h).2

theorem adapts_removeAll (d : Dir) : Adapts (removeAll e d) := .prim fun _ _ _ => rfl

theorem keeps_at_removeAll (r : Nat) : Keeps (At key) (removeAll e (.revision key r)) :=
  keeps_prim at_fail fun w => .some (at_removeAll r w)

/-! ## Pins -/

theorem pinProg_eq_ok {p : ProgPinPath} {x : Prog} (h : pinProg e p x w = .ok () w') :
    e.fails (.mkdirAll p.parent) = false ∧ w.prog? p = none ∧
      w' = (w.mkdirAll p.parent).addProg p x := by
  obtain ⟨_, w1, h1, h2⟩ := bind_eq_ok.1 h
  have hf := (prim_eq_ok.1 h1).1
  obtain rfl := mkdirAll_eq_ok h1
  obtain ⟨hp, ⟨⟩⟩ := Option.ite_none_left_eq_some.1 (prim_eq_ok.1 h2).2
  exact ⟨hf, Option.not_isSome_iff_eq_none.1 hp, rfl⟩

/-- A pin that failed may have made the directory. -/
theorem pinProg_eq_err {p : ProgPinPath} {x : Prog} (h : pinProg e p x w = .err err w') :
    w' = w.fail (.mkdirAll p.parent) ∨
      (e.fails (.mkdirAll p.parent) = false ∧ w' = (w.mkdirAll p.parent).fail (.pinProg p)) := by
  rcases bind_eq_err.1 h with h | ⟨_, w1, h1, h2⟩
  · exact .inl (mkdirAll_eq_err h).2
  · refine .inr ⟨(prim_eq_ok.1 h1).1, ?_⟩
    obtain rfl := mkdirAll_eq_ok h1
    exact (prim_eq_err.1 h2).2.2

theorem adapts_pinProg (p : ProgPinPath) (x : Prog) : Adapts (pinProg e p x) :=
  (adapts_mkdirAll _).bind fun _ => .prim (.ite (fun _ _ _ => .rfl) .none fun _ _ _ => rfl)

theorem pinLink_eq_ok (h : pinLink e p x w = .ok () w') :
    w.link? p = none ∧ w' = (w.mkdirAll p.parent).addLink p x := by
  obtain ⟨_, w1, h1, h2⟩ := bind_eq_ok.1 h
  obtain rfl := mkdirAll_eq_ok h1
  obtain ⟨hp, ⟨⟩⟩ := Option.ite_none_left_eq_some.1 (prim_eq_ok.1 h2).2
  exact ⟨Option.not_isSome_iff_eq_none.1 hp, rfl⟩

theorem pinLink_eq_err (h : pinLink e p x w = .err err w') :
    (e.fails (.mkdirAll p.parent) = true ∧ w' = w.fail (.mkdirAll p.parent)) ∨
      w' = (w.mkdirAll p.parent).fail (.pinLink p) := by
  rcases bind_eq_err.1 h with h | ⟨_, w1, h1, h2⟩
  · exact .inl (mkdirAll_eq_err h)
  · obtain rfl := mkdirAll_eq_ok h1
    exact .inr (prim_eq_err.1 h2).2.2

theorem adapts_pinLink (p : LinkPath) (x : Link) : Adapts (pinLink e p x) :=
  (adapts_mkdirAll _).bind fun _ => .prim (.ite (fun _ _ _ => .rfl) .none fun _ _ _ => rfl)

theorem native_parent (hp : p.of key) : p.parent.native key := by
  rcases hp with rfl | ⟨r, i, rfl⟩
  · exact native_typeDir
  · exact native_revision r

theorem keeps_at_pinLink (hp : p.of key) (x : Link) : Keeps (At key) (pinLink e p x) :=
  (keeps_at_mkdirAll (native_parent hp)).bind fun _ =>
    keeps_prim at_fail fun w => .ite .none (.some (at_addLink hp x w))

theorem adapts_removePin (p : ProgPinPath) : Adapts (removePin e p) := .prim fun _ _ _ => rfl

theorem removePin_eq_ok {p : ProgPinPath} (h : removePin e p w = .ok () w') :
    w' = w.eraseProg p := by
  simpa [eq_comm] using (prim_eq_ok.1 h).2

theorem keeps_at_removePin (r : Nat) : Keeps (At key) (removePin e (.dispatcher key r)) :=
  keeps_prim at_fail fun w => .some (at_eraseProg r w)

theorem removeLinkPin_eq_ok {b : Bool} (h : removeLinkPin e p w = .ok b w') :
    b = (w.link? p).isSome ∧ w' = w.eraseLink p := by
  have := (prim_eq_ok.1 h).2
  cases this
  exact ⟨rfl, rfl⟩

theorem adapts_removeLinkPin (p : LinkPath) : Adapts (removeLinkPin e p) := .prim fun _ _ _ => rfl

theorem keeps_at_removeLinkPin (hp : p.of key) : Keeps (At key) (removeLinkPin e p) :=
  keeps_prim at_fail fun w => .some (at_eraseLink hp w)

theorem adapts_detachLink (p : LinkPath) : Adapts (detachLink e p) :=
  (adapts_removeLinkPin p).bind fun _ => (adapts_rmdir _).ite (.pure ())

theorem not_foreign_parent (hp : p.of key) : ¬ p.parent.foreign key := by
  rcases hp with rfl | ⟨r, i, rfl⟩ <;> simp [LinkPath.parent, Dir.foreign]

theorem keeps_at_detachLink (hp : p.of key) : Keeps (At key) (detachLink e p) :=
  (keeps_at_removeLinkPin hp).bind fun _ =>
    (keeps_at_rmdir (not_foreign_parent hp)).ite (.pure ())

/-- The directory went, or the failed removal was logged. -/
theorem rmdir_eq_ok (h : rmdir e d w = .ok () w') : w' = w.rmdir d ∨ w' = w.fail (.rmdir d) := by
  rcases ignore_eq_ok.1 h with ⟨a, hp⟩ | ⟨er, hp⟩
  · cases (prim_eq_ok.1 hp).2
    exact .inl rfl
  · exact .inr (prim_eq_err.1 hp).2.2

/-- `DetachLink` unlinks the pin; it may remove the directory the pin was in. -/
theorem detachLink_eq_ok (h : detachLink e p w = .ok () w') :
    w' = { w.eraseLink p with dirs := w'.dirs, failed := w'.failed } := by
  obtain ⟨b, w1, h1, h2⟩ := bind_eq_ok.1 h
  obtain ⟨-, rfl⟩ := removeLinkPin_eq_ok h1
  split at h2
  · obtain ⟨D, hD⟩ := (w.eraseLink p).rmdir_eq p.parent
    rcases rmdir_eq_ok h2 with rfl | rfl
    · rw [hD]
    · rfl
  · cases h2
    rfl

/-- `DetachLink` in a directory that keeps other entries: the pin is unlinked, and at most the
attempt to remove the directory failed. -/
theorem detachLink_kept (hd : (w.eraseLink p).dirEmpty p.parent = false)
    (h : detachLink e p w = .ok () w') :
    w' = w.eraseLink p ∨ w' = (w.eraseLink p).fail (.rmdir p.parent) := by
  obtain ⟨b, w1, h1, h2⟩ := bind_eq_ok.1 h
  obtain ⟨-, rfl⟩ := removeLinkPin_eq_ok h1
  split at h2
  · exact (rmdir_eq_ok h2).imp_left fun hw => hw.trans (rmdir_of_not_empty hd)
  · cases h2
    exact .inl rfl

theorem detachLink_eq_err (h : detachLink e p w = .err err w') :
    e.fails (.removeLink p) = true ∧ w' = w.fail (.removeLink p) := by
  rcases bind_eq_err.1 h with h | ⟨b, w1, h1, h2⟩
  · obtain ⟨hf, -, hw⟩ := prim_eq_err.1 h
    exact ⟨hf.resolve_right (by simp), hw⟩
  · split at h2 <;> cases h2

/-- A quiet `DetachLink` in a directory that keeps other entries only unlinks the pin. -/
theorem detachLink_quiet (hq : Quiet (detachLink e p) w)
    (hd : (w.eraseLink p).dirEmpty p.parent = false) :
    detachLink e p w = .ok () (w.eraseLink p) := by
  obtain ⟨_, w', h, hlog⟩ := (adapts_detachLink p).journaled.isOk hq
  rcases detachLink_kept hd h with rfl | rfl
  · exact h
  · exact absurd hlog ne_of_cons

/-! ## Dispatchers and extensions -/

theorem loadAndPinDispatcher_eq_ok {cfg : Config} {p : ProgPinPath} {id : ProgramID}
    (h : loadAndPinDispatcher e cfg p w = .ok id w') :
    id = e.dispatcherID p ∧ e.fails (.mkdirAll p.parent) = false ∧ w.prog? p = none ∧
      w' = (w.mkdirAll p.parent).addProg p ⟨e.dispatcherID p, some cfg⟩ := by
  obtain ⟨_, w1, h1, h2⟩ := bind_eq_ok.1 h
  cases (prim_eq_ok.1 h1).2
  obtain ⟨_, w2, h2, h3⟩ := bind_eq_ok.1 h2
  cases h3
  exact ⟨rfl, pinProg_eq_ok h2⟩

theorem loadAndPinDispatcher_eq_err {cfg : Config} {p : ProgPinPath}
    (h : loadAndPinDispatcher e cfg p w = .err err w') :
    w' = w.fail (.loadDispatcher p) ∨ w' = w.fail (.mkdirAll p.parent) ∨
      (e.fails (.mkdirAll p.parent) = false ∧ w' = (w.mkdirAll p.parent).fail (.pinProg p)) := by
  rcases bind_eq_err.1 h with h | ⟨_, w1, h1, h2⟩
  · exact .inl (prim_eq_err.1 h).2.2
  · cases (prim_eq_ok.1 h1).2
    rcases bind_eq_err.1 h2 with h | ⟨_, w2, -, h3⟩
    · exact .inr (pinProg_eq_err h)
    · cases h3

theorem adapts_loadAndPinDispatcher (cfg : Config) (p : ProgPinPath) :
    Adapts (loadAndPinDispatcher e cfg p) :=
  .bind (.prim fun _ _ _ => rfl) fun _ => (adapts_pinProg _ _).bind fun _ => .pure _

theorem keeps_at_loadAndPinDispatcher (cfg : Config) (r : Nat) :
    Keeps (At key) (loadAndPinDispatcher e cfg (.dispatcher key r)) :=
  .bind (keeps_prim at_fail fun w => .some (refl_of _ w)) fun _ =>
    .bind ((keeps_at_mkdirAll (native_revision r)).bind fun _ =>
      keeps_prim at_fail fun w => .ite .none (.some (at_addProg r _ w))) fun _ => .pure _

theorem finishPinnedAttach_eq_ok (h : finishPinnedAttach e p x w = .ok id w') :
    id = e.linkID p ∧ w.link? p = none ∧ w' = (w.mkdirAll p.parent).addLink p x := by
  obtain ⟨_, w1, h1, h2⟩ := bind_eq_ok.1 (onErr_eq_ok.1 h)
  obtain ⟨_, w2, h2, h3⟩ := bind_eq_ok.1 h2
  cases (prim_eq_ok.1 h2).2
  cases h3
  exact ⟨rfl, pinLink_eq_ok h1⟩

theorem adapts_finishPinnedAttach (p : LinkPath) (x : Link) : Adapts (finishPinnedAttach e p x) :=
  .onErr ((adapts_pinLink p x).bind fun _ => .bind (.prim fun _ _ _ => rfl) fun _ => .pure _)
    (adapts_removeLinkPin p)

theorem attachExtension_eq_ok (h : attachExtension e s w = .ok id w') :
    ∃ disp ext, w.prog? s.dispatcherPinPath = some disp ∧ w.prog? s.progPinPath = some ext ∧
      id = e.linkID s.linkPinPath ∧ w.link? s.linkPinPath = none ∧
      w' = (w.mkdirAll s.linkPinPath.parent).addLink s.linkPinPath
        (.extension (e.linkID s.linkPinPath) disp s.position ext) := by
  obtain ⟨lnk, w1, h1, h2⟩ := bind_eq_ok.1 h
  obtain ⟨-, disp, hd, hext⟩ := guarded_eq_some.1 (prim_eq_ok.1 h1).2
  obtain ⟨ext, he, hl⟩ := Option.bind_eq_some_iff.1 hext
  cases hl
  exact ⟨disp, ext, hd, he, finishPinnedAttach_eq_ok h2⟩

/-- How an extension attach can fail, with the unlink of the pin path that follows the last three
failures. -/
theorem attachExtension_eq_err (h : attachExtension e s w = .err err w') :
    w' = w.fail (.freplace s.linkPinPath) ∨
      ∃ w1, w' = (removeLinkPin e s.linkPinPath w1).state ∧
        ((e.fails (.mkdirAll s.linkPinPath.parent) = true ∧
            w1 = w.fail (.mkdirAll s.linkPinPath.parent)) ∨
          w1 = (w.mkdirAll s.linkPinPath.parent).fail (.pinLink s.linkPinPath) ∨
          (w.link? s.linkPinPath = none ∧ ∃ x, w1 =
            ((w.mkdirAll s.linkPinPath.parent).addLink s.linkPinPath x).fail
              (.linkInfo s.linkPinPath))) := by
  rcases bind_eq_err.1 h with h | ⟨lnk, w1, h1, h2⟩
  · exact .inl (prim_eq_err.1 h).2.2
  · obtain ⟨-, disp, -, hext⟩ := guarded_eq_some.1 (prim_eq_ok.1 h1).2
    obtain ⟨ext, -, hl⟩ := Option.bind_eq_some_iff.1 hext
    cases hl
    obtain ⟨w2, h4, rfl⟩ := onErr_eq_err.1 h2
    refine .inr ⟨w2, rfl, ?_⟩
    rcases bind_eq_err.1 h4 with h5 | ⟨_, w3, h5, h6⟩
    · exact (pinLink_eq_err h5).imp_right .inl
    · obtain ⟨hn, rfl⟩ := pinLink_eq_ok h5
      rcases bind_eq_err.1 h6 with h7 | ⟨_, w4, -, h8⟩
      · exact .inr (.inr ⟨hn, _, (prim_eq_err.1 h7).2.2⟩)
      · cases h8

theorem adapts_attachExtension (s : ExtensionAttachSpec) : Adapts (attachExtension e s) :=
  .bind (.prim (.bind (fun _ _ _ => rfl) fun _ => .bind (fun _ _ _ => rfl) fun _ =>
    .bind (fun _ _ _ => rfl) fun _ => fun _ _ _ => rfl)) fun _ => adapts_finishPinnedAttach _ _

theorem keeps_at_attachExtension (hs : s.linkPinPath.of key) :
    Keeps (At key) (attachExtension e s) :=
  .bind (keeps_prim at_fail fun w => .bind fun _ => .bind fun _ => .bind fun _ =>
    .some (refl_of _ w)) fun x =>
    .onErr ((keeps_at_pinLink hs x).bind fun _ =>
      .bind (keeps_prim at_fail fun w => .some (refl_of _ w)) fun _ => .pure _)
      (keeps_at_removeLinkPin hs)

/-! ## The outer XDP link -/

theorem createXDPLink_eq_ok (h : createXDPLink e prog key p netns w = .ok id w') :
    ∃ disp, w.prog? prog = some disp ∧ id = e.linkID p ∧ w.link? p = none ∧
      w' = (w.mkdirAll p.parent).addLink p (.outer (e.linkID p) key disp) := by
  obtain ⟨lnk, w1, h1, h2⟩ := bind_eq_ok.1 h
  obtain ⟨-, disp, hd, hl⟩ := guarded_eq_some.1 (prim_eq_ok.1 h1).2
  cases hl
  obtain ⟨_, w2, h2, h3⟩ := bind_eq_ok.1 h2
  cases h3
  exact ⟨disp, hd, rfl, pinLink_eq_ok h2⟩

theorem createXDPLink_eq_err (h : createXDPLink e prog key p netns w = .err err w') :
    w' = w.fail (.attachXDP p) ∨ w' = w.fail (.mkdirAll p.parent) ∨
      w' = (w.mkdirAll p.parent).fail (.pinLink p) := by
  rcases bind_eq_err.1 h with h | ⟨lnk, w1, h1, h2⟩
  · exact .inl (prim_eq_err.1 h).2.2
  · obtain ⟨-, disp, hd, hl⟩ := guarded_eq_some.1 (prim_eq_ok.1 h1).2
    cases hl
    rcases bind_eq_err.1 h2 with h4 | ⟨_, w2, -, h5⟩
    · exact .inr ((pinLink_eq_err h4).imp_left And.right)
    · cases h5

theorem adapts_createXDPLink (prog : ProgPinPath) (p : LinkPath) (netns : String) :
    Adapts (createXDPLink e prog key p netns) :=
  .bind (.prim (.bind (fun _ _ _ => rfl) fun _ => .bind (fun _ _ _ => rfl) fun _ =>
    fun _ _ _ => rfl)) fun _ => (adapts_pinLink _ _).bind fun _ => .pure _

theorem keeps_at_createXDPLink (prog : ProgPinPath) (netns : String) :
    Keeps (At key) (createXDPLink e prog key (.dispatcherLink key) netns) :=
  .bind (keeps_prim at_fail fun w => .bind fun _ => .bind fun _ => .some (refl_of _ w)) fun x =>
    (keeps_at_pinLink (.inl rfl) x).bind fun _ => .pure _

/-- The body of an update of the outer link. -/
theorem updateXDPDispatcherLink_eq_ok (h : updateXDPDispatcherLink e p prog w = .ok () w') :
    ∃ disp id k old, w.prog? prog = some disp ∧ w.link? p = some (.outer id k old) ∧
      w' = w.setLink p (.outer id k disp) := by
  have h1 := (prim_eq_ok.1 h).2
  simp only [Option.bind_eq_bind, Option.bind_eq_some_iff] at h1
  obtain ⟨disp, hd, h2⟩ := h1
  split at h2
  · rename_i id k old hl
    cases h2
    exact ⟨disp, id, k, old, hd, hl, rfl⟩
  · cases h2

theorem updateXDPDispatcherLink_eq_err
    (h : updateXDPDispatcherLink e p prog w = .err err w') : w' = w.fail (.updateLink p prog) :=
  (prim_eq_err.1 h).2.2

theorem adapts_updateXDPDispatcherLink (p : LinkPath) (prog : ProgPinPath) :
    Adapts (updateXDPDispatcherLink e p prog) := by
  refine .prim (.bind (fun _ _ _ => rfl) fun disp w s l => ?_)
  rw [show (w.beside s l).link? p = w.link? p from rfl]
  split <;> rfl

theorem keeps_at_updateXDPDispatcherLink (prog : ProgPinPath) :
    Keeps (At key) (updateXDPDispatcherLink e (.dispatcherLink key) prog) := by
  refine keeps_prim at_fail fun w => .bind fun disp => ?_
  split
  · exact .some (at_setLink _ w)
  · exact .none

/-! ## TC filters -/

theorem createTCFilter_eq_ok {desired : Nat}
    {r : TCFilterResult} (h : createTCFilter e prog key netns desired w = .ok r w') :
    ∃ disp, netnsPresent e netns = true ∧ w.prog? prog = some disp ∧
      (∀ f ∈ w.filters, f.key = key → f.priority = tcDispatcherPriority →
        f.handle ≠ newFilterHandle e prog desired) ∧
      newFilterHandle e prog desired ≠ 0 ∧
      r = ⟨disp.id, newFilterHandle e prog desired, tcDispatcherPriority⟩ ∧
      w' = w.addFilter ⟨key, tcDispatcherPriority, newFilterHandle e prog desired, disp⟩ := by
  obtain ⟨disp, w1, h1, h2⟩ := bind_eq_ok.1 h
  obtain ⟨hnet, disp', hd, hl⟩ := guarded_eq_some.1 (prim_eq_ok.1 h1).2
  obtain ⟨hno, ⟨⟩⟩ := Option.ite_none_left_eq_some.1 hl
  obtain ⟨_, w2, h4, h5⟩ := bind_eq_ok.1 h2
  obtain ⟨hz, ⟨⟩⟩ := Option.ite_none_left_eq_some.1 (prim_eq_ok.1 h4).2
  cases h5
  exact ⟨disp, hnet, hd, fun f hf hk hp hh => hno ⟨f, hf, hk, hp, hh⟩, hz, rfl, rfl⟩

/-- A filter that cannot be read back stays in place. -/
theorem createTCFilter_eq_err {desired : Nat}
    (h : createTCFilter e prog key netns desired w = .err err w') :
    w' = w.fail (.addFilter prog) ∨
      ∃ disp, w.prog? prog = some disp ∧
        (∀ f ∈ w.filters, f.key = key → f.priority = tcDispatcherPriority →
          f.handle ≠ newFilterHandle e prog desired) ∧
        w' = (w.addFilter ⟨key, tcDispatcherPriority, newFilterHandle e prog desired, disp⟩).fail
          (.filterInfo prog) := by
  rcases bind_eq_err.1 h with h | ⟨disp, w1, h1, h2⟩
  · exact .inl (prim_eq_err.1 h).2.2
  · obtain ⟨-, disp', hd, hl⟩ := guarded_eq_some.1 (prim_eq_ok.1 h1).2
    obtain ⟨hno, ⟨⟩⟩ := Option.ite_none_left_eq_some.1 hl
    rcases bind_eq_err.1 h2 with h4 | ⟨_, w2, -, h5⟩
    · exact .inr ⟨disp, hd, fun f hf hk hp hh => hno ⟨f, hf, hk, hp, hh⟩, (prim_eq_err.1 h4).2.2⟩
    · cases h5

theorem adapts_createTCFilter (prog : ProgPinPath) (netns : String) (desired : Nat) :
    Adapts (createTCFilter e prog key netns desired) :=
  .bind (.prim (.bind (fun _ _ _ => rfl) fun _ => .bind (fun _ _ _ => rfl) fun _ =>
    .ite (fun _ _ _ => .rfl) .none fun _ _ _ => rfl)) fun _ =>
    .bind (.prim (.ite (fun _ _ _ => .rfl) .none fun _ _ _ => rfl)) fun _ => .pure _

theorem keeps_at_createTCFilter (prog : ProgPinPath) (netns : String) (desired : Nat) :
    Keeps (At key) (createTCFilter e prog key netns desired) := by
  refine .bind (keeps_prim at_fail fun w => .bind fun _ => .bind fun _ => .ite .none ?_) fun _ =>
    .bind (keeps_prim at_fail fun w => .ite .none (.some (refl_of _ w))) fun _ => .pure _
  refine .some (at_filters fun f hf => ?_)
  rw [Finset.mem_insert]
  exact or_iff_right fun hfe => hf (hfe ▸ rfl)

theorem detachTCFilter_eq_ok {priority handle : Nat} (hn : netnsPresent e netns = true)
    (h : detachTCFilter e key priority handle netns w = .ok () w') :
    e.fails (.delFilter key priority handle) = false ∧
      w' = w.deleteFilter key priority handle := by
  unfold detachTCFilter at h
  rw [if_pos hn] at h
  obtain ⟨hf, h⟩ := prim_eq_ok.1 h
  cases h
  exact ⟨hf, rfl⟩

theorem detachTCFilter_eq_err {priority handle : Nat}
    (h : detachTCFilter e key priority handle netns w = .err err w') :
    e.fails (.delFilter key priority handle) = true ∧
      w' = w.fail (.delFilter key priority handle) := by
  unfold detachTCFilter at h
  split at h
  · obtain ⟨hf, -, rfl⟩ := prim_eq_err.1 h
    exact ⟨by simpa using hf, rfl⟩
  · cases h

theorem adapts_detachTCFilter (priority handle : Nat) (netns : String) :
    Adapts (detachTCFilter e key priority handle netns) :=
  .ite (.prim fun _ _ _ => rfl) (.pure ())

theorem keeps_at_detachTCFilter (priority handle : Nat) (netns : String) :
    Keeps (At key) (detachTCFilter e key priority handle netns) := by
  refine .ite (keeps_prim at_fail fun w => .some (at_filters fun f hf => ?_)) (.pure ())
  rw [Finset.mem_filter]
  exact and_iff_left fun hk => hf hk.1

end Bpfman
