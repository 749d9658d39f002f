import Bpfman.AdapterProof
import Bpfman.Rebuild
import Bpfman.StoreProof
import Mathlib.Data.Prod.Lex
import Mathlib.Order.BooleanAlgebra.Basic
import Mathlib.Data.Bool.Basic

/-!
# Dispatcher rebuild: what a rebuild did

* `keyLt_slotLess` — the slots are sorted by priority, then new before attached, then name;
* `attachExtensions_eq_ok`, `attachExtensions_eq_err` — the attach loop, slot by slot;
* `rebuildDispatcher_eq_ok` — the world after a successful rebuild;
* `rebuildDispatcher_eq_err` — the step at which a rebuild failed, and the cleanup that followed.
-/

namespace Bpfman

open Fallible Proc List World

variable {e : Env} {w w' : World} {err : Err} {key : Key} {r : Nat}

variable {slots : List RebuildSlot} {attached : List AttachedExt}

/-! ## The order of the slots -/

/-- What `sortRebuildSlots` compares. -/
def slotKey (s : RebuildSlot) : Nat ×ₗ Bool ×ₗ String :=
  toLex (s.priority, toLex (s.existingLinkID.isSome, s.programName))

theorem keyLt_slotLess : SwapSort.KeyLt slotLess slotKey := by
  intro a b
  simp only [slotLess, slotKey, Prod.Lex.toLex_lt_toLex, Bool.or_eq_true, Bool.and_eq_true,
    decide_eq_true_eq, Bool.not_eq_true', Bool.lt_iff]
  tauto

theorem sortRebuildSlots_perm (slots : List RebuildSlot) : (sortRebuildSlots slots).Perm slots :=
  SwapSort.sort_perm _ _

@[simp] theorem length_sortRebuildSlots (slots : List RebuildSlot) :
    (sortRebuildSlots slots).length = slots.length := (sortRebuildSlots_perm slots).length_eq

theorem mem_sortRebuildSlots {s : RebuildSlot} :
    s ∈ sortRebuildSlots slots ↔ s ∈ slots := (sortRebuildSlots_perm slots).mem_iff

theorem sortRebuildSlots_sorted (slots : List RebuildSlot) :
    (sortRebuildSlots slots).Pairwise fun a b => slotKey a ≤ slotKey b :=
  SwapSort.sort_sorted keyLt_slotLess slots

theorem priority_le_of_slotKey {a b : RebuildSlot} (h : slotKey a ≤ slotKey b) :
    a.priority ≤ b.priority := by
  rcases Prod.Lex.toLex_le_toLex.1 h with h | h
  · exact h.le
  · exact h.1.le

/-- Two attached slots compare by priority and name. -/
theorem slotKey_lt_of_attached {a b : RebuildSlot} (ha : a.existingLinkID.isSome)
    (hb : b.existingLinkID.isSome)
    (h : a.priority < b.priority ∨ (a.priority = b.priority ∧ a.programName < b.programName)) :
    slotKey a < slotKey b := by
  unfold slotKey
  rw [Prod.Lex.toLex_lt_toLex, Prod.Lex.toLex_lt_toLex, ha, hb]
  rcases h with h | ⟨h, hn⟩
  · exact .inl h
  · exact .inr ⟨h, .inr ⟨rfl, hn⟩⟩

/-! ## Configs -/

/-- The config enables as many slots as there are members and holds the mask of slot `i` at `i`. -/
structure ConfigFor (cfg : Config) (slots : List RebuildSlot) : Prop where
  pos : 1 ≤ slots.length
  le_max : slots.length ≤ maxPrograms
  enabled : cfg.numProgsEnabled = slots.length
  actions : ∀ (i : Nat) (s : RebuildSlot), slots[i]? = some s →
    cfg.chainCallActions[i]? = some s.proceedOn

theorem getElem?_fillActions : ∀ {slots : List RebuildSlot} {actions : List Nat} {i : Nat}
    {s : RebuildSlot}, slots.length ≤ actions.length → slots[i]? = some s →
    (fillActions slots actions)[i]? = some s.proceedOn
  | [], _, i, s, _, h => by simp at h
  | slot :: slots, [], _, _, hl, _ => by simp at hl
  | slot :: slots, a :: actions, 0, s, _, h => by
    simp only [getElem?_cons_zero, Option.some.injEq] at h
    simp [fillActions, h]
  | slot :: slots, a :: actions, i + 1, s, hl, h => by
    rw [getElem?_cons_succ] at h
    rw [fillActions, getElem?_cons_succ]
    exact getElem?_fillActions (by simpa using hl) h

theorem configFor_of {cfg : Config} (h : (xdpConfig slots).map Config.xdp = .ok cfg ∨
    (tcConfig slots).map Config.tc = .ok cfg) : ConfigFor cfg slots := by
  unfold xdpConfig newXDPConfig tcConfig newTCConfig at h
  by_cases hn : (decide (slots.length < 1) || decide (slots.length > maxPrograms)) = true
  · rw [if_pos hn, if_pos hn] at h
    rcases h with h | h <;> cases h
  · rw [if_neg hn, if_neg hn] at h
    simp only [Except.map, bind, Except.bind, Except.ok.injEq] at h
    simp only [Bool.or_eq_true, decide_eq_true_eq, not_or, not_lt] at hn
    rcases h with rfl | rfl
    all_goals
      exact ⟨hn.1, by omega, rfl, fun i s hs => getElem?_fillActions (by simpa using hn.2) hs⟩

/-! ## The attach loop -/

/-- What `attachExtensions` records for slot `i`. -/
def attachedAt (e : Env) (key : Key) (r i : Nat) : AttachedExt :=
  ⟨e.linkID (.extension key r i), i, .extension key r i⟩

/-- The records of the slots `i`, …, `i + n - 1`. -/
def attachedFrom (e : Env) (key : Key) (r i n : Nat) : List AttachedExt :=
  (range' i n).map (attachedAt e key r)

/-- The pins the loop adds for programs that fill the slots from `i` on, latest first. -/
def extPins (e : Env) (key : Key) (r : Nat) (disp : Prog) : List Prog → Nat →
    List (LinkPath × Link)
  | [], _ => []
  | p :: ps, i => extPins e key r disp ps (i + 1) ++
      [(.extension key r i, .extension (e.linkID (.extension key r i)) disp i p)]

/-- The world after the loop filled the slots from `i` on. -/
def World.addExts (w : World) (e : Env) (key : Key) (r : Nat) (disp : Prog) (ps : List Prog)
    (i : Nat) : World :=
  { w with linkPins := extPins e key r disp ps i ++ w.linkPins }

theorem addExts_cons (w : World) (disp p : Prog) (ps : List Prog) (i : Nat) :
    w.addExts e key r disp (p :: ps) i =
      (w.addLink (.extension key r i)
        (.extension (e.linkID (.extension key r i)) disp i p)).addExts e key r disp ps (i + 1) := by
  simp [addExts, addLink, extPins]

theorem mem_extPins {disp : Prog} {x : LinkPath × Link} : ∀ {ps : List Prog} {i : Nat},
    x ∈ extPins e key r disp ps i → ∃ j, i ≤ j ∧ j < i + ps.length ∧ x.1 = .extension key r j
  | [], _, h => by simp [extPins] at h
  | p :: ps, i, h => by
    rcases mem_append.1 h with h | h
    · obtain ⟨j, h1, h2, h3⟩ := mem_extPins h
      exact ⟨j, by omega, by simp only [length_cons]; omega, h3⟩
    · rw [mem_singleton.1 h]
      exact ⟨i, le_rfl, by simp, rfl⟩

theorem link?_addExts {disp : Prog} : ∀ {ps : List Prog} {i : Nat} {w : World} (q : LinkPath),
    (w.addExts e key r disp ps i).link? q =
      match q with
      | .extension k r' j =>
        if k = key ∧ r' = r ∧ i ≤ j ∧ j < i + ps.length then
          (ps[j - i]?).map fun p => .extension (e.linkID (.extension key r j)) disp j p
        else w.link? q
      | _ => w.link? q
  | [], i, w, q => by
    cases q with
    | extension k r' j =>
      dsimp only
      rw [if_neg (by simp only [length_nil]; omega)]
      rfl
    | _ => rfl
  | p :: ps, i, w, q => by
    rw [addExts_cons, link?_addExts]
    cases q with
    | extension k r' j =>
      dsimp only
      rw [link?_addLink, length_cons]
      by_cases hk : k = key ∧ r' = r
      · obtain ⟨rfl, rfl⟩ := hk
        by_cases hj : j = i
        · subst hj
          rw [if_neg (by omega), if_pos rfl, if_pos ⟨rfl, rfl, by omega, by omega⟩]
          simp
        · by_cases hlt : i + 1 ≤ j ∧ j < i + 1 + ps.length
          · have hji : j - i = (j - (i + 1)) + 1 := by omega
            rw [if_pos ⟨rfl, rfl, hlt⟩, if_pos ⟨rfl, rfl, by omega, by omega⟩, hji,
              getElem?_cons_succ]
          · rw [if_neg (by tauto), if_neg (by simpa using hj), if_neg (by omega)]
      · rw [if_neg (by tauto), if_neg (by simp; tauto), if_neg (by tauto)]
    | _ => simp [link?_addLink]

@[simp] theorem addExts_prog? (disp : Prog) (ps : List Prog) (i : Nat) (p : ProgPinPath) :
    (w.addExts e key r disp ps i).prog? p = w.prog? p := rfl

section Loop

variable {text : String} {cleanup : List AttachedExt → M Unit} {disp : Prog}

/-- The spec the loop attaches slot `i` with. -/
def extensionSpec (key : Key) (r : Nat) (slot : RebuildSlot) (i : Nat) : ExtensionAttachSpec :=
  { dispatcherPinPath := .dispatcher key r, progPinPath := slot.progPinPath
    programName := slot.programName, position := i, linkPinPath := .extension key r i }

/-- The programs pinned at the paths of the slots. -/
def Opens (w : World) (slots : List RebuildSlot) (ps : List Prog) : Prop :=
  List.Forall₂ (fun s p => w.prog? s.progPinPath = some p) slots ps

theorem attachExtensions_cons (slot : RebuildSlot) (slots : List RebuildSlot) (i : Nat)
    (attached : List AttachedExt) :
    attachExtensions e key r text cleanup (slot :: slots) i attached = (do
      let id ← onErr
        (mapErr (.wrap s!"{text} {slot.programName} at position {i}")
          (attachExtension e (extensionSpec key r slot i)))
        (cleanup attached)
      attachExtensions e key r text cleanup slots (i + 1)
        (attached ++ [⟨id, i, .extension key r i⟩])) := rfl

theorem attachSlot_eq_ok (hdisp : w.prog? (.dispatcher key r) = some disp)
    (hdir : (Dir.revision key r).chain.toFinset ⊆ w.dirs) {slot : RebuildSlot} {i : Nat}
    {id : KernelLinkID} (h : attachExtension e (extensionSpec key r slot i) w = .ok id w') :
    id = e.linkID (.extension key r i) ∧ w.link? (.extension key r i) = none ∧
      ∃ p, w.prog? slot.progPinPath = some p ∧
        w' = w.addLink (.extension key r i)
          (.extension (e.linkID (.extension key r i)) disp i p) := by
  obtain ⟨disp', p, hd, hp, hid, hn, rfl⟩ := attachExtension_eq_ok h
  obtain rfl : disp' = disp := Option.some.inj (hd.symm.trans hdisp)
  refine ⟨hid, hn, p, hp, ?_⟩
  rw [show (extensionSpec key r slot i).linkPinPath.parent = .revision key r from rfl,
    mkdirAll_of_subset hdir]
  rfl

theorem attachedFrom_succ (i n : Nat) :
    attachedFrom e key r i (n + 1) = attachedAt e key r i :: attachedFrom e key r (i + 1) n := by
  simp [attachedFrom, range'_succ]

/-- The pins of the slots are free if that of the first is and the others are after it is taken. -/
theorem extFree_cons {n i : Nat} {x : Link} (hn : w.link? (.extension key r i) = none)
    (hfree : ∀ j, i + 1 ≤ j → j < i + 1 + n →
      (w.addLink (.extension key r i) x).link? (.extension key r j) = none) :
    ∀ j, i ≤ j → j < i + (n + 1) → w.link? (.extension key r j) = none := by
  intro j h1 h2
  by_cases hj : j = i
  · exact hj ▸ hn
  · have := hfree j (by omega) (by omega)
    rwa [link?_addLink, if_neg (by simpa using hj)] at this

/-- **The attach loop**: every slot's program is attached to its slot of the new dispatcher, and the
links are pinned one after the other. -/
theorem attachExtensions_eq_ok : ∀ {slots : List RebuildSlot} {i : Nat}
    {attached out : List AttachedExt} {w : World}, w.prog? (.dispatcher key r) = some disp →
    (Dir.revision key r).chain.toFinset ⊆ w.dirs →
    attachExtensions e key r text cleanup slots i attached w = .ok out w' →
    ∃ ps, Opens w slots ps ∧
      (∀ j, i ≤ j → j < i + slots.length → w.link? (.extension key r j) = none) ∧
      out = attached ++ attachedFrom e key r i slots.length ∧
      w' = w.addExts e key r disp ps i
  | [], i, attached, out, w, _, _, h => by
    cases h
    refine ⟨[], List.Forall₂.nil, fun j h1 h2 => ?_, by simp [attachedFrom], rfl⟩
    simp only [length_nil] at h2
    omega
  | slot :: slots, i, attached, out, w, hdisp, hdir, h => by
    rw [attachExtensions_cons] at h
    obtain ⟨id, w1, h1, h2⟩ := bind_eq_ok.1 h
    obtain ⟨rfl, hn, p, hp, rfl⟩ := attachSlot_eq_ok hdisp hdir (mapErr_eq_ok.1 (onErr_eq_ok.1 h1))
    obtain ⟨ps, hps, hfree, rfl, rfl⟩ := attachExtensions_eq_ok (w := w.addLink _ _) hdisp hdir h2
    refine ⟨p :: ps, List.Forall₂.cons hp hps, ?_, ?_, (addExts_cons w disp p ps i).symm⟩
    · exact extFree_cons hn hfree
    · rw [length_cons, attachedFrom_succ, append_assoc]
      rfl

/-- **A failed attach loop**: the slots before the failed one are attached, and the cleanup runs on
them. -/
theorem attachExtensions_eq_err : ∀ {slots : List RebuildSlot} {i : Nat}
    {attached : List AttachedExt} {w : World}, w.prog? (.dispatcher key r) = some disp →
    (Dir.revision key r).chain.toFinset ⊆ w.dirs →
    attachExtensions e key r text cleanup slots i attached w = .err err w' →
    ∃ ps slot err' w1, ps.length < slots.length ∧
      (∀ j, i ≤ j → j < i + ps.length → w.link? (.extension key r j) = none) ∧
      attachExtension e (extensionSpec key r slot (i + ps.length))
        (w.addExts e key r disp ps i) = .err err' w1 ∧
      w' = (cleanup (attached ++ attachedFrom e key r i ps.length) w1).state
  | [], i, attached, w, _, _, h => by cases h
  | slot :: slots, i, attached, w, hdisp, hdir, h => by
    rw [attachExtensions_cons] at h
    rcases bind_eq_err.1 h with h | ⟨id, w1, h1, h2⟩
    · obtain ⟨w1, h1, rfl⟩ := onErr_eq_err.1 h
      obtain ⟨err', h2, -⟩ := mapErr_eq_err.1 h1
      refine ⟨[], slot, err', w1, by simp, fun j h3 h4 => ?_, h2, by simp [attachedFrom]⟩
      simp only [length_nil] at h4
      omega
    · obtain ⟨rfl, hn, p, hp, rfl⟩ :=
        attachSlot_eq_ok hdisp hdir (mapErr_eq_ok.1 (onErr_eq_ok.1 h1))
      obtain ⟨ps, slot', err', w2, hlen, hfree, h3, rfl⟩ :=
        attachExtensions_eq_err (w := w.addLink _ _) hdisp hdir h2
      refine ⟨p :: ps, slot', err', w2, by simpa using hlen, ?_, ?_, ?_⟩
      · exact extFree_cons hn hfree
      · rw [addExts_cons, length_cons, show i + (ps.length + 1) = i + 1 + ps.length by omega]
        exact h3
      · rw [length_cons, attachedFrom_succ, append_assoc]
        rfl

theorem adapts_attachExtensions (hc : ∀ a, Adapts (cleanup a)) :
    ∀ (slots : List RebuildSlot) (i : Nat) (attached : List AttachedExt),
      Adapts (attachExtensions e key r text cleanup slots i attached)
  | [], _, _ => .pure _
  | _ :: slots, i, attached => ((adapts_attachExtension _).mapErr.onErr (hc attached)).bind fun _ =>
      adapts_attachExtensions hc slots (i + 1) _

theorem keeps_at_attachExtensions (hc : ∀ a, (∀ x ∈ a, x.pinPath.of key) →
      Keeps (At key) (cleanup a)) :
    ∀ (slots : List RebuildSlot) (i : Nat) {attached : List AttachedExt},
      (∀ x ∈ attached, x.pinPath.of key) →
      Keeps (At key) (attachExtensions e key r text cleanup slots i attached)
  | [], _, _, _ => .pure _
  | slot :: slots, i, attached, ha => by
    have hp : (LinkPath.extension key r i).of key := .inr ⟨r, i, rfl⟩
    refine .bind ((keeps_at_attachExtension hp).mapErr.onErr (hc attached ha)) fun id =>
      keeps_at_attachExtensions hc slots (i + 1) fun x hx => ?_
    rcases mem_append.1 hx with hx | hx
    · exact ha x hx
    · rw [mem_singleton.1 hx]
      exact hp

theorem pinPath_attachExtensions : ∀ {slots : List RebuildSlot} {i : Nat}
    {attached out : List AttachedExt} {w w' : World}, (∀ x ∈ attached, x.pinPath.of key) →
    attachExtensions e key r text cleanup slots i attached w = .ok out w' →
    ∀ x ∈ out, x.pinPath.of key
  | [], _, _, _, _, _, ha, h => by
    cases h
    exact ha
  | slot :: slots, i, attached, out, w, w', ha, h => by
    rw [attachExtensions_cons] at h
    obtain ⟨id, w1, -, h2⟩ := bind_eq_ok.1 h
    refine pinPath_attachExtensions (fun x hx => ?_) h2
    rcases mem_append.1 hx with hx | hx
    · exact ha x hx
    · rw [mem_singleton.1 hx]
      exact .inr ⟨r, i, rfl⟩

end Loop

/-! ## Cleanup -/

theorem adapts_cleanupExtensions (attached : List AttachedExt) :
    Adapts (cleanupExtensions e attached) :=
  .forEach (fun _ => (adapts_detachLink _).ignore) attached

theorem keeps_at_cleanupExtensions (ha : ∀ x ∈ attached, x.pinPath.of key) :
    Keeps (At key) (cleanupExtensions e attached) :=
  .forEach fun x hx => (keeps_at_detachLink (ha x hx)).ignore

theorem filter_not_mem_cons {p : LinkPath} {ps : List LinkPath} (l : List (LinkPath × Link)) :
    (l.filter fun x => decide (x.1 ≠ p)).filter (fun x => decide (x.1 ∉ ps)) =
      l.filter fun x => decide (x.1 ∉ p :: ps) := by
  rw [filter_filter]
  simp only [mem_cons, not_or, Bool.decide_and, Bool.and_comm]

/-- A quiet cleanup unlinks the extension pins; the revision directory stays, because the dispatcher
is still pinned in it. -/
theorem cleanupExtensions_quiet : ∀ {attached : List AttachedExt} {w : World},
    (w.prog? (.dispatcher key r)).isSome → (∀ x ∈ attached, x.pinPath.parent = .revision key r) →
    Quiet (cleanupExtensions e attached) w →
    cleanupExtensions e attached w =
      .ok () { w with
        linkPins := w.linkPins.filter fun x => decide (x.1 ∉ attached.map (·.pinPath)) }
  | [], w, _, _, _ => by simp [cleanupExtensions]
  | x :: xs, w, hd, hp, hq => by
    have hx : x.pinPath.parent = .revision key r := hp x (mem_cons_self ..)
    have hlog : Keeps Logs (cleanupExtensions e xs) := (adapts_cleanupExtensions xs).logs
    have hstep := hq.bind (adapts_detachLink x.pinPath).logs.ignore hlog rfl
    have hq1 : Quiet (detachLink e x.pinPath) w := hstep.1
    have hempty : (w.eraseLink x.pinPath).dirEmpty x.pinPath.parent = false := by
      rw [hx]
      exact dirEmpty_of_prog (p := .dispatcher key r) rfl hd
    have h1 := detachLink_quiet hq1 hempty
    have hq2 : Quiet (cleanupExtensions e xs) (w.eraseLink x.pinPath) := by
      have := hstep.2
      rwa [h1] at this
    have h2 := cleanupExtensions_quiet (w := w.eraseLink x.pinPath) hd
      (fun y hy => hp y (mem_cons_of_mem _ hy)) hq2
    have hfold : cleanupExtensions e (x :: xs) w =
        cleanupExtensions e xs (detachLink e x.pinPath w).state := rfl
    rw [hfold, h1, Outcome.state_ok, h2]
    simp only [eraseLink, map_cons, filter_not_mem_cons]

/-! ## The rebuild -/

/-- The new dispatcher program of a rebuild. -/
def RebuildPlan.disp (e : Env) (p : RebuildPlan) : Prog :=
  ⟨e.dispatcherID (.dispatcher p.key p.revision), some p.config⟩

/-- The world once the new dispatcher is loaded and pinned. -/
def RebuildPlan.loaded (e : Env) (p : RebuildPlan) (w : World) : World :=
  (w.mkdirAll (.revision p.key p.revision)).addProg (.dispatcher p.key p.revision) (p.disp e)

/-- The world once `ps` fill the first slots of the new dispatcher. -/
def RebuildPlan.filled (e : Env) (p : RebuildPlan) (w : World) (ps : List Prog) : World :=
  (p.loaded e w).addExts e p.key p.revision (p.disp e) ps 0

/-- What a rebuild that came to attach slot `n` found: the new directory could be made, and the path
of the new dispatcher and the extension paths below `n` were free. -/
structure RebuildPlan.Free (e : Env) (p : RebuildPlan) (w : World) (n : Nat) : Prop where
  mkdir : e.fails (.mkdirAll (.revision p.key p.revision)) = false
  disp : w.prog? (.dispatcher p.key p.revision) = none
  ext : ∀ j, j < n → w.link? (.extension p.key p.revision j) = none

section Rebuild

variable {p : RebuildPlan}

theorem loaded_prog? (w : World) (q : ProgPinPath) :
    (p.loaded e w).prog? q =
      if q = .dispatcher p.key p.revision then some (p.disp e) else w.prog? q :=
  prog?_addProg _ _ _

theorem loaded_dirs (w : World) :
    (Dir.revision p.key p.revision).chain.toFinset ⊆ (p.loaded e w).dirs :=
  chain_subset_mkdirAll _

theorem mem_filled_disp (w : World) (ps : List Prog) :
    (p.filled e w ps).prog? (.dispatcher p.key p.revision) = some (p.disp e) := by
  rw [RebuildPlan.filled, addExts_prog?, loaded_prog?, if_pos rfl]

/-- The snapshot a rebuild asks the store to write. -/
def RebuildPlan.spec (e : Env) (p : RebuildPlan) (rt : DispatcherRuntime) :
    DispatcherSnapshotSpec :=
  ⟨p.key, p.revision, rt,
    dispatcherMembers p.slots (attachedFrom e p.key p.revision 0 p.slots.length)⟩

/-- **A successful rebuild**: the new dispatcher is pinned with all slots filled, the outer
attachment is swapped, the snapshot is written. -/
theorem rebuildDispatcher_eq_ok {completed : DispatcherSnapshot}
    (h : rebuildDispatcher e p w = .ok (completed, attached) w') :
    ∃ ps rt w2 s', p.Free e w p.slots.length ∧ Opens (p.loaded e w) p.slots ps ∧
      attached = attachedFrom e p.key p.revision 0 p.slots.length ∧
      p.swap.swap (p.disp e).id (p.filled e w ps) = .ok rt w2 ∧
      w2.store.replaceDispatcherSnapshot e.now (p.spec e rt) = .ok (s', completed) ∧
      w' = { w2 with store := s' } := by
  obtain ⟨id, w1, h1, h2⟩ := bind_eq_ok.1 h
  obtain ⟨rfl, hmk, hn, rfl⟩ := loadAndPinDispatcher_eq_ok (mapErr_eq_ok.1 h1)
  obtain ⟨out, w3, h3, h4⟩ := bind_eq_ok.1 h2
  obtain ⟨ps, hps, hfree, rfl, rfl⟩ := attachExtensions_eq_ok (w := p.loaded e w)
    (by rw [loaded_prog?, if_pos rfl]) (loaded_dirs w) h3
  obtain ⟨rt, w4, h5, h6⟩ := bind_eq_ok.1 h4
  obtain ⟨snap, w5, h7, h8⟩ := bind_eq_ok.1 h6
  cases h8
  obtain ⟨-, ⟨s', snap'⟩, hr, ⟨⟩⟩ := write_eq_ok.1 (onErr_eq_ok.1 h7)
  rw [nil_append] at hr
  exact ⟨ps, rt, w4, s', ⟨hmk, hn, fun j hj => hfree j (by omega) (by omega)⟩, hps,
    nil_append _, onErr_eq_ok.1 h5, hr, rfl⟩

/-- The steps at which a rebuild fails, each with the world it leaves. -/
inductive RebuildFailed (e : Env) (p : RebuildPlan) (w : World) : World → Prop
  | load {err : Err} {w' : World}
      (h : loadAndPinDispatcher e p.config (.dispatcher p.key p.revision) w = .err err w') :
      RebuildFailed e p w w'
  | attach {ps : List Prog} {slot : RebuildSlot} {err : Err} {w₁ : World}
      (hfree : p.Free e w ps.length)
      (h : attachExtension e (extensionSpec p.key p.revision slot ps.length) (p.filled e w ps) =
        .err err w₁) :
      RebuildFailed e p w (p.cleanup e (attachedFrom e p.key p.revision 0 ps.length) w₁).state
  | swap {ps : List Prog} {err : Err} {w₁ : World} (hfree : p.Free e w ps.length)
      (h : p.swap.swap (p.disp e).id (p.filled e w ps) = .err err w₁) :
      RebuildFailed e p w (p.cleanup e (attachedFrom e p.key p.revision 0 ps.length) w₁).state
  | persist {ps : List Prog} {rt : DispatcherRuntime} {w₁ : World} (hfree : p.Free e w ps.length)
      (h : p.swap.swap (p.disp e).id (p.filled e w ps) = .ok rt w₁) :
      RebuildFailed e p w
        ((do p.swap.restore rt
             p.cleanup e (attachedFrom e p.key p.revision 0 ps.length) : M Unit)
          (w₁.fail (.replaceDispatcherSnapshot p.key p.revision))).state

theorem rebuildDispatcher_eq_err (h : rebuildDispatcher e p w = .err err w') :
    RebuildFailed e p w w' := by
  rcases bind_eq_err.1 h with h | ⟨id, w1, h1, h2⟩
  · obtain ⟨err', h, -⟩ := mapErr_eq_err.1 h
    exact RebuildFailed.load h
  · obtain ⟨rfl, hmk, hn, rfl⟩ := loadAndPinDispatcher_eq_ok (mapErr_eq_ok.1 h1)
    have hdisp : (p.loaded e w).prog? (.dispatcher p.key p.revision) = some (p.disp e) := by
      rw [loaded_prog?, if_pos rfl]
    rcases bind_eq_err.1 h2 with h3 | ⟨out, w3, h3, h4⟩
    · obtain ⟨ps, slot, err', w4, -, hfree, h4, rfl⟩ :=
        attachExtensions_eq_err (w := p.loaded e w) hdisp (loaded_dirs w) h3
      rw [Nat.zero_add] at h4
      exact RebuildFailed.attach ⟨hmk, hn, fun j hj => hfree j (by omega) (by omega)⟩ h4
    · obtain ⟨ps, hps, hfree, rfl, rfl⟩ :=
        attachExtensions_eq_ok (w := p.loaded e w) hdisp (loaded_dirs w) h3
      have hlen : p.slots.length = ps.length := hps.length_eq
      rw [hlen, nil_append] at h4
      have hf : p.Free e w ps.length := ⟨hmk, hn, fun j hj => hfree j (by omega) (by omega)⟩
      rcases bind_eq_err.1 h4 with h5 | ⟨rt, w4, h5, h6⟩
      · obtain ⟨w5, h6, rfl⟩ := onErr_eq_err.1 h5
        exact RebuildFailed.swap hf h6
      · rcases bind_eq_err.1 h6 with h7 | ⟨snap, w5, -, h8⟩
        · obtain ⟨w5, h8, rfl⟩ := onErr_eq_err.1 h7
          rw [primErr_eq_err h8]
          exact RebuildFailed.persist hf (onErr_eq_ok.1 h5)
        · cases h8

/-! ## Rebuilds stay at their attach point -/

/-- A swap that leaves the store alone, also when it is taken back. -/
structure Swap.Adapts (s : Swap) : Prop where
  swap : ∀ id, Bpfman.Adapts (s.swap id)
  restore : ∀ rt, Bpfman.Adapts (s.restore rt)

/-- A swap that touches only its attach point and fails only by a primitive. -/
structure Swap.Local (key : Key) (s : Swap) : Prop where
  adapts : s.Adapts
  swap : ∀ id, Keeps (At key) (s.swap id)
  restore : ∀ rt, Keeps (At key) (s.restore rt)

/-- A plan whose swap and cleanup touch only its attach point. -/
structure RebuildPlan.Local (p : RebuildPlan) : Prop where
  swap : p.swap.Local p.key
  adapts : Adapts p.cleanupNew
  cleanup : Keeps (At p.key) p.cleanupNew

theorem RebuildPlan.Local.adapts_cleanup (hp : p.Local) (attached : List AttachedExt) :
    Adapts (p.cleanup e attached) :=
  (adapts_cleanupExtensions attached).bind fun _ => hp.adapts.ignore

theorem RebuildPlan.Local.at_cleanup (hp : p.Local)
    (ha : ∀ x ∈ attached, x.pinPath.of p.key) : Keeps (At p.key) (p.cleanup e attached) :=
  (keeps_at_cleanupExtensions ha).bind fun _ => hp.cleanup.ignore

theorem journaled_replaceDispatcherSnapshot (spec : DispatcherSnapshotSpec) :
    Journaled (replaceDispatcherSnapshot e spec) :=
  journaled_write fun _ _ => rfl

theorem keeps_at_replaceDispatcherSnapshot (spec : DispatcherSnapshotSpec) :
    Keeps (At spec.key) (replaceDispatcherSnapshot e spec) := by
  refine keeps_write at_fail fun w res hr => ?_
  obtain ⟨ns, -, -, -, -, -, hp, hm, hsm, -, -⟩ := Store.replace_spec hr
  exact { refl_of (At spec.key) w with programs := hp, mapSets := hm, sharedMapPins := hsm }

theorem journaled_rebuildDispatcher (hp : p.Local) : Journaled (rebuildDispatcher e p) :=
  (adapts_loadAndPinDispatcher _ _).journaled.mapErr.bind fun id =>
    (adapts_attachExtensions hp.adapts_cleanup p.slots 0 []).journaled.bind fun attached =>
      ((hp.swap.adapts.swap id).onErr (hp.adapts_cleanup attached)).journaled.bind fun rt =>
        ((journaled_replaceDispatcherSnapshot _).onErr
          ((hp.swap.adapts.restore rt).bind fun _ => hp.adapts_cleanup attached).logs).bind fun _ =>
            Journaled.pure _

theorem keeps_at_rebuildDispatcher (hp : p.Local) : Keeps (At p.key) (rebuildDispatcher e p) := by
  refine (keeps_at_loadAndPinDispatcher _ _).mapErr.bind fun id => ?_
  refine (keeps_at_attachExtensions (fun _ => hp.at_cleanup) p.slots 0 (by simp)).bind_of
    (fun s a s' h => pinPath_attachExtensions (by simp) h) fun attached ha => ?_
  refine ((hp.swap.swap id).onErr (hp.at_cleanup ha)).bind fun rt => ?_
  exact ((keeps_at_replaceDispatcherSnapshot
    ⟨p.key, p.revision, rt, dispatcherMembers p.slots attached⟩).onErr
      ((hp.swap.restore rt).bind fun _ => hp.at_cleanup ha)).bind fun _ => .pure _

end Rebuild

end Bpfman
