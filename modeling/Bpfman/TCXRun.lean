import Bpfman.AttachFailure
import Bpfman.TCXChain

/-!
# Runs of TCX attaches and detaches

* `tcx_order_of_run` — after any run the kernel chain of every hook is the list the store gives for
  it, ordered by priority and then by link id, and the position of a link is its place in the chain.
-/

namespace Bpfman

open Fallible Proc List Store World

variable {e : Env} {w w' : World} {hook : TCXHook} {spec : TCXAttachSpec} {prog : ProgramRecord}

variable {l : LinkRow} {s : Store} {id : LinkID}
  {record : LinkRecord}

/-! ## The outcome of an attach -/

theorem createLink_eq_ok {link : LinkSpec} {p : LinkPath} :
    createLink e p link w = .ok l w' ↔ e.fails (.createLink p) = false ∧
      w.store.createLink e.now link = .ok (w'.store, l) ∧ w' = { w with store := w'.store } :=
  rowWrite_eq_ok (·.createLink e.now link)

/-- The bindings of a TCX attach that ran. -/
def tcxBindings (spec : TCXAttachSpec) (hook : TCXHook) (out : KernelLinkID) (l : LinkRow) :
    TCXBindings :=
  { out := some out, link := some (tcxRecord l (spec.row hook)) }

theorem runPlan_attachTCXPlan (e : Env) (spec : TCXAttachSpec) (hook : TCXHook) (pin : LinkPath)
    (prog : ProgPinPath) (order : TCXAttachOrder) :
    runPlan (attachTCXPlan e spec hook pin prog order) {} = (do
      let out ← kernelAttachTCX e hook prog pin spec.netns order
      onErr
        (do
          let l ← mapErr (.wrap "save link metadata")
            (createLink e pin (spec.linkSpec hook pin out))
          pure (tcxBindings spec hook out l))
        (ignore (detachLink e pin))) := by
  unfold attachTCXPlan
  rw [runPlan_cons _ _ (by simp)]
  funext w
  simp only [bind_apply]
  cases kernelAttachTCX e hook prog pin spec.netns order w with
  | err err w' => rfl
  | ok out w' =>
    simp only [pure_apply]
    rw [runPlan_single _ (by simp)]
    rfl

/-- The path of the link that an attach pins. -/
abbrev TCXAttachSpec.pin (spec : TCXAttachSpec) (hook : TCXHook) : LinkPath :=
  tcxLinkPath hook spec.programID

/-- What a TCX attach that succeeds has done: the kernel has put the program at the anchor, and the
link is recorded. -/
structure TCXPlaced (e : Env) (spec : TCXAttachSpec) (hook : TCXHook) (x : Prog) (w : World)
    (l : LinkRow) (w' : World) : Prop where
  absent : spec.programID ∉ w.tcxChain hook
  creates : w.store.Creates e.now (spec.linkSpec hook (spec.pin hook) (e.linkID (spec.pin hook)))
  row : l = Store.newLinkRow e.now w.store (spec.linkSpec hook (spec.pin hook)
    (e.linkID (spec.pin hook)))
  store : w'.store = w.store.addLink l
  progPins : w'.progPins = w.progPins
  link : w'.link? (spec.pin hook) =
    some (.tcx (e.linkID (spec.pin hook)) hook x)
  others : ∀ q, q ≠ spec.pin hook → w'.link? q = w.link? q
  order : ∃ w₁, ExceptLink (spec.pin hook) w w₁ ∧
    w₁.link? (spec.pin hook) = none ∧
    w'.tcxOrder = w₁.placedOrder hook (spec.pin hook)
      (computeTCXAttachOrder ((w.store.tcxLinks hook).map Store.tcxInfo)
        (toInt32 spec.priority)).anchor

/-- The programs of the recorded links are alive. -/
def TCXLive (e : Env) (w : World) : Prop :=
  ∀ l ∈ w.store.links, ∀ r, l.standalone = some (.tcx r) → e.live l.programID = true

section Outcome

variable {err : Err}

/-- The part of an attach before the plan: the pin is free. -/
theorem attachTCXAt_prepared (prog : ProgramRecord) {existing : List TCXLinkInfo}
    (hrem : e.fails (.removeLink (spec.pin hook)) = false)
    (hlive : ∀ l ∈ existing, e.live l.kernelProgramID = true)
    (hdup : existing.find? (·.kernelProgramID = spec.programID) = none) (w : World) :
    ∃ w1, ExceptLink (spec.pin hook) w w1 ∧
      w1.link? (spec.pin hook) = none ∧
      attachTCXAt e spec prog hook existing w = (do
        let b ← runPlan (attachTCXPlan e spec hook (spec.pin hook) prog.pinPath
          (computeTCXAttachOrder existing (toInt32 spec.priority))) {}
        bound b.link) w1 := by
  obtain ⟨hok, hnone⟩ := detachLink_link? hrem w
  obtain ⟨u, hdet⟩ := Outcome.eq_ok_of_isOk hok
  have hnil : ∀ x ∈ ([] : List (ProgramID × Bool)), x.2 = true := forall_mem_nil _
  obtain ⟨log, hfilter⟩ := filterLiveTCXLinks_eq hlive hnil
    (detachLink e (spec.pin hook) w).state
  refine ⟨{ (detachLink e (spec.pin hook) w).state with failed := log }, ?_, hnone, ?_⟩
  · refine trans_of (ExceptLink _) (exceptLink_detachLink (e := e) w) ?_
    exact .of_eq rfl rfl rfl rfl
  · unfold attachTCXAt
    rw [hdup]
    refine (bind_of_ok (mapErr_eq_ok.2 hdet)).trans ?_
    exact bind_of_ok hfilter

/-- A program that the list has no link of is not in the chain. -/
theorem TCXInv.absent (hi : TCXInv w) (h : ((w.store.tcxLinks hook).map tcxInfo).find?
      (·.kernelProgramID = spec.programID) = none) : spec.programID ∉ w.tcxChain hook := by
  rw [hi.chain hook]
  intro hmem
  obtain ⟨t, ht, hid⟩ := mem_map.1 hmem
  have := find?_eq_none.1 h _ (mem_map_of_mem ht)
  exact this (decide_eq_true hid)

theorem TCXLive.infos (h : TCXLive e w) :
    ∀ l ∈ (w.store.tcxLinks hook).map tcxInfo, e.live l.kernelProgramID = true := by
  intro l hl
  obtain ⟨t, ht, rfl⟩ := mem_map.1 hl
  obtain ⟨hlink, hrow, -⟩ := mem_tcxLinks.1 ht
  exact h t.1 hlink t.2 hrow

/-- An attach that fails changes no chain. -/
theorem attachTCXAt_eq_err (hi : TCXInv w) (hlive : TCXLive e w)
    (hrem : e.fails (.removeLink (spec.pin hook)) = false)
    (h : attachTCXAt e spec prog hook ((w.store.tcxLinks hook).map tcxInfo) w = .err err w') :
    TCXInv w' ∧ w'.store = w.store := by
  cases hdup : ((w.store.tcxLinks hook).map tcxInfo).find? (·.kernelProgramID = spec.programID) with
  | some l =>
    simp only [attachTCXAt, hdup] at h
    cases h
    exact ⟨hi, rfl⟩
  | none =>
    obtain ⟨w1, hb, hnone, heq⟩ := attachTCXAt_prepared prog hrem hlive.infos hdup w
    rw [heq, runPlan_attachTCXPlan] at h
    suffices ExceptLink (spec.pin hook) w1 w' ∧
        w'.link? (spec.pin hook) = none from
      ⟨hi.exceptLink (hi.absent hdup) (trans_of (ExceptLink _) hb this.1) this.2,
        this.1.store.trans hb.store⟩
    rcases bind_eq_err.1 h with h | ⟨b, w2, h1, h2⟩
    · rcases bind_eq_err.1 h with h | ⟨out, w2, h1, h2⟩
      · exact kernelAttachTCX_eq_err hrem hnone h
      · -- the link could not be recorded and is taken down
        have hattach := (exceptLink_kernelAttachTCX _ _ _ _).ok h1
        obtain ⟨w3, h3, rfl⟩ := onErr_eq_err.1 h2
        refine ⟨?_, (detachLink_link? hrem w3).2⟩
        rcases bind_eq_err.1 h3 with h3 | ⟨l, w4, -, h4⟩
        · obtain ⟨err', h3, -⟩ := mapErr_eq_err.1 h3
          have hfail : ExceptLink (spec.pin hook) w2 w3 := by
            rw [primErr_eq_err h3]
            exact exceptLink_fail _ _
          exact trans_of (ExceptLink _) hattach
            (trans_of (ExceptLink _) hfail (exceptLink_detachLink w3))
        · cases h4
    · obtain ⟨out, w3, -, h4⟩ := bind_eq_ok.1 h1
      obtain ⟨l, w4, -, h5⟩ := bind_eq_ok.1 (onErr_eq_ok.1 h4)
      cases h5
      cases h2

theorem attachTCXAt_eq_ok (hi : TCXInv w) (hlive : TCXLive e w)
    (hrem : e.fails (.removeLink (spec.pin hook)) = false)
    (h : attachTCXAt e spec prog hook ((w.store.tcxLinks hook).map Store.tcxInfo) w =
      .ok record w') :
    ∃ x l, w.prog? prog.pinPath = some x ∧ TCXPlaced e spec hook x w l w' ∧ record.id = l.id := by
  cases hdup : ((w.store.tcxLinks hook).map Store.tcxInfo).find?
      (·.kernelProgramID = spec.programID) with
  | some l =>
    simp only [attachTCXAt, hdup] at h
    cases h
  | none =>
    obtain ⟨w1, hb, hnone, heq⟩ := attachTCXAt_prepared prog hrem hlive.infos hdup w
    rw [heq, runPlan_attachTCXPlan] at h
    obtain ⟨b, w2, h1, h2⟩ := bind_eq_ok.1 h
    obtain ⟨out, w3, h3, h4⟩ := bind_eq_ok.1 h1
    obtain ⟨x, hx, rfl, rfl⟩ := kernelAttachTCX_eq_ok h3
    obtain ⟨l, w4, h5, h6⟩ := bind_eq_ok.1 (onErr_eq_ok.1 h4)
    cases h6
    cases h2
    obtain ⟨-, hc, hw4⟩ := createLink_eq_ok.1 (mapErr_eq_ok.1 h5)
    obtain ⟨hcr, hl, hs⟩ := Store.createLink_eq_ok.1 hc
    have hstore : w1.store = w.store := hb.store
    refine ⟨x, l, ?_, ⟨hi.absent hdup, ?_, ?_, ?_, ?_, ?_, fun q hq => ?_, w1, hb, hnone, ?_⟩, rfl⟩
    · rw [← hx, prog?, prog?, hb.progPins]
    · rw [← hstore]
      exact hcr
    · rw [← hstore]
      exact hl
    · rw [hs, ← hstore]
      rfl
    · rw [hw4]
      exact hb.progPins
    · rw [hw4]
      exact (link?_addLink ..).trans (if_pos rfl)
    · rw [hw4]
      exact (link?_addLink ..).trans ((if_neg hq).trans (hb.others q hq))
    · rw [hw4]
      rfl

end Outcome

theorem toInt32_of_lt {n : Nat} (h : n < 2 ^ 31) : toInt32 n = n := by
  unfold toInt32
  omega

/-- **An attach keeps the chains in the order of the store.** -/
theorem TCXInv.placed (hi : TCXInv w) {x : Prog} (hprio : spec.priority < 2 ^ 31)
    (hx : x.id = spec.programID) (h : TCXPlaced e spec hook x w l w') : TCXInv w' := by
  have hid : ∀ y ∈ w.store.links, y.id < l.id := fun y hy => by
    rw [h.row]
    exact Nat.lt_succ_of_le (hi.ids_le y hy)
  have hstandalone : l.standalone = some (.tcx (spec.row hook)) := by rw [h.row]; rfl
  have hprog : l.programID = spec.programID := by rw [h.row]; rfl
  obtain ⟨w1, hb, hnone, horder⟩ := h.order
  have hi1 : TCXInv w1 := hi.exceptLink h.absent hb hnone
  have hothers : ∀ q, q ≠ spec.pin hook → w'.link? q = w1.link? q :=
    fun q hq => (h.others q hq).trans (hb.others q hq).symm
  obtain ⟨hchain, hrest⟩ := chain_placed hnone horder h.link hothers
  refine ⟨?_, ?_, ?_, ?_, ?_, ?_, ?_⟩
  · rw [h.store]
    exact Table.nodup_concat hi.linkIDs fun y hy => (hid y hy).ne
  · rw [h.store]
    intro y hy
    rcases mem_append.1 hy with hy | hy
    · exact (hid y hy).le
    · exact (congrArg LinkRow.id (mem_singleton.1 hy)).le
  · rw [h.store]
    intro y hy r hr
    rcases mem_append.1 hy with hy | hy
    · exact hi.rows y hy r hr
    · obtain rfl := mem_singleton.1 hy
      rw [hstandalone] at hr
      cases hr
      refine ⟨by rw [h.row]; rfl, hprog ▸ spec.programID_ne, by rw [h.row]; rfl, ?_, ?_⟩
      · simp only [TCXAttachSpec.row, toInt32_of_lt hprio, int32Scans, Bool.and_eq_true,
          decide_eq_true_eq]
        omega
      · rw [h.row]
        rfl
  · intro q k hk y hy
    by_cases hq : q = spec.pin hook
    · rw [hq, h.link] at hy
      cases hy
      rw [hq, hx]
    · exact hi.pins q k hk y (h.others q hq ▸ hy)
  · rw [horder]
    exact (exceptLink_placed w1 hook _ _).nodup hi1.order
  · rw [h.store]
    intro row hrow y hy
    rw [prog?, h.progPins] at hy
    exact hi.programs row hrow y hy
  · intro hook'
    rw [h.store]
    by_cases hh : hook' = hook
    · subst hh
      have hts := tcxLinks_addLink hi.linkIDs hid hstandalone
      have hp : (spec.row hook').priority = toInt32 spec.priority := rfl
      have hne : ∀ t ∈ w.store.tcxLinks hook', t.1.programID ≠ 0 := fun t ht => by
        obtain ⟨hlink, hrow, -⟩ := mem_tcxLinks.1 ht
        exact (hi.rows t.1 hlink t.2 hrow).program
      rw [hchain, hi1.chain, hb.store, hx, ← hprog, ← hp]
      rw [show (spec.row hook').hook = hook' from rfl] at hts
      rw [hts]
      exact place_computeTCXAttachOrder (hi.chain hook' ▸ hi.chain_nodup hook') hne
    · have hjoin : tcxJoin hook' l = none := by
        cases hj : tcxJoin hook' l with
        | none => rfl
        | some t =>
          obtain ⟨-, hrow, hhook⟩ := tcxJoin_eq_some.1 hj
          rw [hstandalone] at hrow
          obtain ⟨t1, t2⟩ := t
          cases hrow
          exact absurd hhook.symm hh
      rw [hrest hook' hh, hi1.chain, hb.store, tcxLinks_addLink_of_none hjoin]

/-! ## The outcome of a detach -/

/-- Taking the pin of a link away takes its program out of the chain. -/
theorem TCXInv.filterMap_erased (hi : TCXInv w) (hook' : TCXHook) (id : ProgramID) :
    (w.eraseLink (tcxLinkPath hook id)).tcxChain hook' =
      if hook' = hook then (w.tcxChain hook').filter (· ≠ id) else w.tcxChain hook' := by
  have hrun : ∀ q, (w.eraseLink (tcxLinkPath hook id)).runsAt hook' q =
      if q = tcxLinkPath hook id then none else w.runsAt hook' q := by
    intro q
    by_cases hq : q = tcxLinkPath hook id
    · rw [if_pos hq]
      exact runsAt_of_none ((link?_eraseLink ..).trans (if_pos hq))
    · rw [if_neg hq]
      exact runsAt_congr ((link?_eraseLink ..).trans (if_neg hq))
  unfold tcxChain
  by_cases hh : hook' = hook
  · subst hh
    rw [if_pos rfl, filter_filterMap]
    refine filterMap_congr fun q _ => ?_
    rw [hrun]
    cases hr : w.runsAt hook' q with
    | none => simp
    | some y =>
      have hq := hi.runsAt hr
      by_cases hy : y = id
      · simp [hq, hy, Option.filter]
      · simp [hq, hy, tcxLinkPath_inj, Option.filter]
  · rw [if_neg hh]
    refine filterMap_congr fun q _ => ?_
    rw [hrun]
    split
    · rename_i hq
      cases hr : w.runsAt hook' q with
      | none => rfl
      | some y => exact absurd (tcxLinkPath_inj.1 (hq.symm.trans (hi.runsAt hr))).1.symm hh
    · rfl

theorem TCXInv.of_eq (hi : TCXInv w) (hs : w'.store = w.store) (hp : w'.progPins = w.progPins)
    (hl : w'.linkPins = w.linkPins) (ho : w'.tcxOrder = w.tcxOrder) : TCXInv w' := by
  have hlink : ∀ q, w'.link? q = w.link? q := fun q => by rw [link?, hl, link?]
  refine ⟨hs ▸ hi.linkIDs, hs ▸ hi.ids_le, hs ▸ hi.rows, fun q k h x hx => ?_, ho ▸ hi.order, ?_,
    fun hook => ?_⟩
  · exact hi.pins q k h x (hlink q ▸ hx)
  · rw [hs]
    intro row hrow x hx
    rw [prog?, hp] at hx
    exact hi.programs row hrow x hx
  · rw [hs, ← hi.chain hook, tcxChain, ho, tcxChain]
    exact filterMap_congr fun q _ => runsAt_congr (hlink q)

/-- **A detach takes its program out of the chain.** -/
theorem TCXInv.detached (hi : TCXInv w) {r : TCXRow} (hl : l ∈ w.store.links)
    (hr : l.standalone = some (.tcx r)) :
    TCXInv { w.eraseLink (tcxLinkPath r.hook l.programID) with
      store := w.store.deleteLinks [l.id] } := by
  have hsub : ∀ y ∈ (w.store.deleteLinks [l.id]).links, y ∈ w.store.links :=
    fun y hy => (mem_filter.1 hy).1
  refine ⟨?_, fun y hy => hi.ids_le y (hsub y hy), fun y hy => hi.rows y (hsub y hy), ?_, hi.order,
    hi.programs, fun hook => ?_⟩
  · exact hi.linkIDs.sublist (filter_sublist.map _)
  · intro q k h x hx
    have hx' : (w.eraseLink (tcxLinkPath r.hook l.programID)).link? q = some (.tcx k h x) := hx
    rw [link?_eraseLink] at hx'
    split at hx'
    · cases hx'
    · exact hi.pins q k h x hx'
  · change (w.eraseLink (tcxLinkPath r.hook l.programID)).tcxChain hook = _
    rw [hi.filterMap_erased, hi.chain hook]
    refine Eq.trans ?_ (congrArg (map _) (tcxLinks_deleteLinks hi.linkIDs).symm)
    by_cases hh : hook = r.hook
    · subst hh
      rw [if_pos rfl, filter_map]
      refine congrArg (map _) (filter_congr fun t ht => ?_)
      have hlt : (l, r) ∈ w.store.tcxLinks r.hook := mem_tcxLinks.2 ⟨hl, hr, rfl⟩
      -- on one hook the program tells the links apart as well as the id does
      refine decide_eq_decide.2 (not_congr ⟨fun hp => ?_, fun hid => ?_⟩)
      · rw [hi.programID_inj ht hlt hp]
      · exact congrArg LinkRow.programID (Table.eq_of_key hi.linkIDs (mem_tcxLinks.1 ht).1 hl hid)
    · rw [if_neg hh]
      refine congrArg (map _) (filter_eq_self.2 fun t ht => ?_).symm
      obtain ⟨hlink, hrow, hhook⟩ := mem_tcxLinks.1 ht
      refine decide_eq_true fun hid => hh ?_
      rw [Table.eq_of_key hi.linkIDs hlink hl hid, hr] at hrow
      cases hrow
      exact hhook.symm

theorem StandaloneRow.probe_serves_tcx (d : ProbeDetails) :
    ¬ (StandaloneRow.probe d).serves .tcx = true := by
  cases d with
  | tracepoint | fentry | fexit =>
    simp [StandaloneRow.serves, StandaloneRow.kind, ProbeDetails.kind, LinkKind.detailLabel]
  | kprobe fnName offset retprobe =>
    cases retprobe <;>
      simp [StandaloneRow.serves, StandaloneRow.kind, ProbeDetails.kind, LinkKind.detailLabel]
  | uprobe target fnName offset pid containerPid retprobe =>
    cases retprobe <;>
      simp [StandaloneRow.serves, StandaloneRow.kind, ProbeDetails.kind, LinkKind.detailLabel]

theorem getLink_tcx {record : LinkRecord} (h : s.getLink id = .ok record)
    (hkind : ∀ l ∈ s.links, l.id = id → l.kind = .tcx) :
    ∃ l r details, s.links.find? (fun l => decide (l.id = id)) = some l ∧ l.kind = .tcx ∧
      l.standalone = some (.tcx r) ∧ record = Store.linkRecord l (some details) := by
  cases hf : s.links.find? (fun l => decide (l.id = id)) with
  | none => simp [Store.getLink, hf] at h
  | some l =>
    obtain ⟨hl, hid⟩ := Table.mem_of_find hf
    have hk := hkind l hl hid
    rw [Store.getLink_of_find hf] at h
    obtain ⟨details, hd, h⟩ := except_bind_eq_ok.1 h
    cases h
    rw [Store.readDetails, hk, if_neg (by decide)] at hd
    rcases Store.getStandaloneDetails_eq_ok.1 hd with ⟨d, -, hs, -⟩ | ⟨r, hr, -⟩
    · rw [hk] at hs
      exact absurd hs (StandaloneRow.probe_serves_tcx d)
    · exact ⟨l, r, details, rfl, hk, hr, rfl⟩

theorem TCXInv.detach (hi : TCXInv w) (hdel : e.fails (.deleteLink id) = false)
    (hkind : ∀ l ∈ w.store.links, l.id = id → l.kind = .tcx) :
    TCXInv (Bpfman.detach e id w).state ∧
      (Bpfman.detach e id w).state.store.linkSeq = w.store.linkSeq ∧
      (Bpfman.detach e id w).state.store.links ⊆ w.store.links := by
  have hfail : ∀ c, TCXInv (w.fail c) := fun c => hi.of_eq rfl rfl rfl rfl
  unfold Bpfman.detach
  rw [bind_apply]
  cases hget : getLink e id w with
  | err err w1 =>
    obtain ⟨err', hq, -⟩ := mapErr_eq_err.1 hget
    rcases query_eq_err hq with ⟨rfl, -⟩ | ⟨rfl, -⟩
    · exact ⟨hfail _, rfl, List.Subset.refl _⟩
    · exact ⟨hi, rfl, List.Subset.refl _⟩
  | ok record w1 =>
    obtain ⟨hrec, rfl⟩ := getLink_eq_ok hget
    obtain ⟨l, r, details, hf, hk, hr, rfl⟩ := getLink_tcx hrec hkind
    obtain ⟨hl, rfl⟩ := Table.mem_of_find hf
    have hpin := (hi.rows l hl r hr).pinPath
    have hplan : runPlan (detachPlan e (Store.linkRecord l (some details))
        (dispatcherKey (Store.linkRecord l (some details)))) () = (do
          detachLink e (tcxLinkPath r.hook l.programID)
          deleteLink e l.id) := by
      rw [runPlan_detachPlan]
      simp only [Store.linkRecord, dispatcherKey, hk, hpin, reduceCtorEq, or_self, if_false]
      rfl
    dsimp only
    rw [hplan, bind_apply]
    cases hdet : detachLink e (tcxLinkPath r.hook l.programID) w1 with
    | err err w2 =>
      rw [(detachLink_eq_err hdet).2]
      exact ⟨hfail _, rfl, List.Subset.refl _⟩
    | ok u w2 =>
      have hw2 := detachLink_eq_ok hdet
      have hs : w2.store = w1.store := by rw [hw2]; rfl
      have hrun : deleteLink e l.id w2 =
          .ok () { w2 with store := w2.store.deleteLinks [l.id] } := by
        refine primErr_eq_ok.2 ⟨hdel, ?_⟩
        simp only [Store.deleteLink, hs, hf, hk, reduceCtorEq, or_self, if_false]
        rfl
      dsimp only
      rw [hrun]
      have hp : w2.progPins = w1.progPins := by rw [hw2]; rfl
      have hq : w2.linkPins = (w1.eraseLink (tcxLinkPath r.hook l.programID)).linkPins := by
        rw [hw2]
      have ho : w2.tcxOrder = w1.tcxOrder := by rw [hw2]; rfl
      have hseq : w2.store.linkSeq = w1.store.linkSeq := congrArg Store.linkSeq hs
      refine ⟨(hi.detached hl hr).of_eq ?_ hp hq ho, hseq, fun y hy => ?_⟩
      · exact congrArg (fun s : Store => s.deleteLinks [l.id]) hs
      · exact hs ▸ (mem_filter.1 hy).1

/-! ## Runs -/

/-- A state without TCX links. -/
structure TCXFresh (w : World) : Prop where
  linkIDs : (w.store.links.map (·.id)).Nodup
  ids_le : ∀ l ∈ w.store.links, l.id ≤ w.store.linkSeq
  rows : ∀ l ∈ w.store.links, ∀ r, l.standalone ≠ some (.tcx r)
  pins : ∀ p k h x, w.link? p ≠ some (.tcx k h x)
  order : w.tcxOrder = []
  programs : ∀ row ∈ w.store.programs, ∀ x, w.prog? row.pinPath = some x → x.id = row.programID

theorem TCXFresh.inv (h : TCXFresh w) : TCXInv w := by
  refine ⟨h.linkIDs, h.ids_le, fun l hl r hr => absurd hr (h.rows l hl r),
    fun p k hk x hx => absurd hx (h.pins p k hk x), h.order ▸ nodup_nil, h.programs,
    fun hook => ?_⟩
  have hnil : w.store.tcxLinks hook = [] := by
    refine eq_nil_iff_forall_not_mem.2 fun t ht => ?_
    obtain ⟨hl, hr, -⟩ := mem_tcxLinks.1 ht
    exact h.rows t.1 hl t.2 hr
  rw [tcxChain, h.order, hnil]
  rfl

/-- The conditions on an attach: the priority is an `int32`, the programs of the recorded links are
alive, and an attach that fails can take its link down again. -/
structure TCXAttach (e : Env) (spec : TCXAttachSpec) (w : World) : Prop where
  priority : spec.priority < 2 ^ 31
  live : TCXLive e w
  unlink : ∀ hook, e.fails (.removeLink (tcxLinkPath hook spec.programID)) = false

/-- A run of TCX attaches and detaches, with the ids of the links it attached, in order. -/
inductive TCXRun (w : World) : List LinkID → World → Prop
  | start : TCXRun w [] w
  | attach {ids : List LinkID} {w₁ w₂ : World} {e : Env} {scope : Bool} {spec : TCXAttachSpec}
      {record : LinkRecord} : TCXRun w ids w₁ → TCXAttach e spec w₁ →
      attachAny e scope (.tcx spec) w₁ = .ok record w₂ → TCXRun w (ids ++ [record.id]) w₂
  | refused {ids : List LinkID} {w₁ w₂ : World} {e : Env} {scope : Bool} {spec : TCXAttachSpec}
      {err : Err} : TCXRun w ids w₁ → TCXAttach e spec w₁ →
      attachAny e scope (.tcx spec) w₁ = .err err w₂ → TCXRun w ids w₂
  | detach {ids : List LinkID} {w₁ : World} {e : Env} {id : LinkID} : TCXRun w ids w₁ →
      (∀ l ∈ w₁.store.links, l.id = id → l.kind = .tcx) → e.fails (.deleteLink id) = false →
      TCXRun w ids (Bpfman.detach e id w₁).state

/-- What the calls before an attach may do: nothing but log a failure. -/
def OnlyLogs (w w' : World) : Prop := ∃ log, w' = { w with failed := log }

theorem onlyLogs_refl (w : World) : OnlyLogs w w := ⟨w.failed, rfl⟩

theorem onlyLogs_fail (w : World) (c : Call) : OnlyLogs w (w.fail c) := ⟨_, rfl⟩

/-- The call has only logged a failure, or its outcome is as said. -/
def RefusedOr {α : Type} (w : World) (P : Outcome World Err α → Prop) (o : Outcome World Err α) :
    Prop :=
  (∃ err w', o = .err err w' ∧ OnlyLogs w w') ∨ P o

theorem Harmless.refusedOr {α β : Type} {m : M α} {k : α → M β} {P : Outcome World Err β → Prop}
    (hm : Harmless m) (h : ∀ a, m w = .ok a w → RefusedOr w P (k a w)) :
    RefusedOr w P ((m >>= k) w) := by
  cases hw : m w with
  | ok a w1 =>
    obtain rfl := hm.ok hw
    rw [bind_of_ok hw]
    exact h a hw
  | err er w1 =>
    refine .inl ⟨er, w1, bind_of_err hw, ?_⟩
    rcases hm.err hw with rfl | ⟨c, -, rfl⟩
    · exact onlyLogs_refl _
    · exact onlyLogs_fail w c

theorem TCXInv.list (hi : TCXInv w) (hook : TCXHook) : w.store.listTCXLinksByInterface hook =
    .ok ((w.store.tcxLinks hook).map tcxInfo) := by
  refine listTCXLinksByInterface_eq fun t ht => ?_
  obtain ⟨hl, hr, -⟩ := mem_tcxLinks.1 ht
  have hrow := hi.rows t.1 hl t.2 hr
  exact ⟨hrow.kernelLink, hrow.scans⟩

/-- The outcome is that of the attach at a hook. -/
def AtHook (e : Env) (spec : TCXAttachSpec) (w : World) (o : Outcome World Err LinkRecord) : Prop :=
  ∃ prog hook, w.store.getProgram spec.programID = .ok prog ∧
    o = attachTCXAt e spec prog hook ((w.store.tcxLinks hook).map tcxInfo) w

theorem attachTCX_cases (hi : TCXInv w) (e : Env) (spec : TCXAttachSpec) :
    RefusedOr w (AtHook e spec w) (attachTCX e spec w) := by
  refine (harmless_interfaceByName _ _).refusedOr fun ifindex _ => ?_
  refine (harmless_getProgram _).refusedOr fun prog hprog => ?_
  refine (harmless_netnsNSID _).mapErr.refusedOr fun nsid _ => ?_
  refine (harmless_query rfl).mapErr.refusedOr fun infos hinfos => ?_
  obtain ⟨-, hlist, -⟩ := query_eq_ok.1 (mapErr_eq_ok.1 hinfos)
  obtain rfl := Except.ok.inj ((hi.list _).symm.trans hlist)
  exact .inr ⟨prog, _, (getProgram_eq_ok hprog).1, rfl⟩

theorem TCXInv.onlyLogs (hi : TCXInv w) (h : OnlyLogs w w') : TCXInv w' := by
  obtain ⟨log, rfl⟩ := h
  exact hi.of_eq rfl rfl rfl rfl

/-- `Attach` of a TCX spec, once the program type is checked. -/
theorem attachAny_tcx_cases (hi : TCXInv w) (e : Env) (scope : Bool) (spec : TCXAttachSpec) :
    RefusedOr w (AtHook e spec w) (attachAny e scope (.tcx spec) w) :=
  (harmless_getProgram _).refusedOr fun _ _ => (harmless_lift _).refusedOr fun _ _ =>
    attachTCX_cases hi e spec

theorem TCXInv.refused (hi : TCXInv w) {scope : Bool} {err : Err} (hc : TCXAttach e spec w)
    (h : attachAny e scope (.tcx spec) w = .err err w') : TCXInv w' ∧ w'.store = w.store := by
  rcases attachAny_tcx_cases hi e scope spec with ⟨err', w1, h', hlog⟩ | ⟨prog, hook, -, h'⟩
  · rw [h'] at h
    cases h
    refine ⟨hi.onlyLogs hlog, ?_⟩
    obtain ⟨log, rfl⟩ := hlog
    rfl
  · rw [h'] at h
    exact attachTCXAt_eq_err hi hc.live (hc.unlink hook) h

/-- An attach that succeeds records its link with a new id. -/
theorem TCXInv.attached (hi : TCXInv w) {scope : Bool} (hc : TCXAttach e spec w)
    (h : attachAny e scope (.tcx spec) w = .ok record w') :
    TCXInv w' ∧ record.id = w.store.linkSeq + 1 ∧ w'.store.linkSeq = record.id ∧
      ∀ l ∈ w'.store.links, l ∈ w.store.links ∨ l.id = record.id := by
  rcases attachAny_tcx_cases hi e scope spec with ⟨err', w1, h', -⟩ | ⟨prog, hook, hprog, h'⟩
  · rw [h'] at h
    cases h
  · rw [h'] at h
    obtain ⟨x, l, hx, hplaced, hid⟩ := attachTCXAt_eq_ok hi hc.live (hc.unlink hook) h
    obtain ⟨row, hrow, hrid, -, -, hpin⟩ := Store.getProgram_eq_ok hprog
    have hxid : x.id = spec.programID := (hi.programs row hrow x (hpin ▸ hx)).trans hrid
    refine ⟨hi.placed hc.priority hxid hplaced, ?_, ?_, fun y hy => ?_⟩
    · rw [hid, hplaced.row]
      rfl
    · rw [hplaced.store, hid]
      rfl
    · rw [hplaced.store] at hy
      refine (mem_append.1 hy).imp_right fun hy => ?_
      rw [hid, mem_singleton.1 hy]

/-- What a run has kept: the chains are in order, and the links are those it attached, in the order
of their ids. -/
structure TCXKept (w : World) (ids : List LinkID) (w' : World) : Prop where
  inv : TCXInv w'
  bound : ∀ id ∈ ids, id ≤ w'.store.linkSeq
  ordered : ids.Pairwise (· < ·)
  attached : ∀ l ∈ w'.store.links, ∀ r, l.standalone = some (.tcx r) → l.id ∈ ids

theorem TCXRun.kept {ids : List LinkID} (hw : TCXFresh w) (h : TCXRun w ids w') :
    TCXKept w ids w' := by
  induction h with
  | start =>
    exact ⟨hw.inv, fun id hid => (by cases hid), List.Pairwise.nil,
      fun l hl r hr => absurd hr (hw.rows l hl r)⟩
  | @attach ids w1 w2 e scope spec record _ hc hrun ih =>
    obtain ⟨hi, hid, hseq, hlinks⟩ := ih.inv.attached hc hrun
    have hnew : w1.store.linkSeq < record.id := hid ▸ Nat.lt_succ_self _
    refine ⟨hi, fun id hmem => ?_, ?_, fun l hl r hr => ?_⟩
    · rcases mem_append.1 hmem with hmem | hmem
      · exact hseq ▸ (ih.bound id hmem).trans hnew.le
      · obtain rfl := mem_singleton.1 hmem
        exact hseq.ge
    · refine pairwise_append.2 ⟨ih.ordered, pairwise_singleton _ _, fun a ha b hb => ?_⟩
      obtain rfl := mem_singleton.1 hb
      exact lt_of_le_of_lt (ih.bound a ha) hnew
    · rcases hlinks l hl with hl | hl
      · exact mem_append_left _ (ih.attached l hl r hr)
      · exact mem_append_right _ (mem_singleton.2 hl)
  | refused _ hc hrun ih =>
    obtain ⟨hi, hstore⟩ := ih.inv.refused hc hrun
    exact ⟨hi, hstore ▸ ih.bound, ih.ordered, hstore ▸ ih.attached⟩
  | detach _ hkind hdel ih =>
    obtain ⟨hi, hseq, hlinks⟩ := ih.inv.detach hdel hkind
    exact ⟨hi, hseq ▸ ih.bound, ih.ordered, fun l hl => ih.attached l (hlinks hl)⟩

/-- In an ordered list the smaller element comes first. -/
theorem idxOf_lt_idxOf {ids : List LinkID} (h : ids.Pairwise (· < ·)) {a b : LinkID}
    (ha : a ∈ ids) (hb : b ∈ ids) (hab : a < b) : ids.idxOf a < ids.idxOf b := by
  by_contra hle
  have hia := idxOf_lt_length_of_mem ha
  have hib := idxOf_lt_length_of_mem hb
  rcases (not_lt.1 hle).lt_or_eq with hlt | heq
  · have hba := pairwise_iff_getElem.1 h _ _ hib hia hlt
    rw [getElem_idxOf, getElem_idxOf] at hba
    exact lt_asymm hab hba
  · exact hab.ne ((idxOf_inj ha).1 heq.symm)

/-- A listed link is read back with its place in the list. -/
theorem TCXInv.getLink_position (hi : TCXInv w) {i : Nat}
    (hlt : i < (w.store.tcxLinks hook).length) : ∃ record d,
      w.store.getLink ((w.store.tcxLinks hook)[i].1.id) = .ok record ∧
        record.details = some (.tcx d) ∧ d.position = i := by
  obtain ⟨hl, hr, -⟩ := Store.mem_tcxLinks.1 (getElem_mem hlt)
  have hrow := hi.rows _ hl _ hr
  have hpos := Store.tcxPosition_getElem hi.linkIDs hlt
  generalize (w.store.tcxLinks hook)[i] = t at hl hr hrow hpos ⊢
  have hf := Table.find_of_mem hi.linkIDs hl rfl
  have hd : w.store.getStandaloneDetails t.1 = .ok (.tcx (w.store.tcxDetails t.1.id t.2)) :=
    Store.getStandaloneDetails_eq_ok.2 (.inr ⟨t.2, hr, by rw [hrow.kind]; rfl, hrow.scans, rfl⟩)
  refine ⟨Store.linkRecord t.1 (some (.tcx (w.store.tcxDetails t.1.id t.2))), _, ?_, rfl, hpos⟩
  simp only [Store.getLink, hf, hrow.kind, reduceCtorEq, or_self, if_false, hd]
  rfl

/-- **The kernel chain of every hook is the list the store gives for it**: after every run of TCX
attaches and detaches the programs are in the order of priority, then of attach, and the position
the store reports for a link is its place in the chain. -/
theorem tcx_order_of_run {ids : List LinkID} (hw : TCXFresh w) (h : TCXRun w ids w')
    (hook : TCXHook) : ∃ infos, w'.store.listTCXLinksByInterface hook = .ok infos ∧
      w'.tcxChain hook = infos.map (·.kernelProgramID) ∧
      (∀ a ∈ infos, a.linkID ∈ ids) ∧
      infos.Pairwise (fun a b => a.priority < b.priority ∨
        a.priority = b.priority ∧ ids.idxOf a.linkID < ids.idxOf b.linkID) ∧
      ∀ i (hi : i < infos.length), ∃ record d, w'.store.getLink infos[i].linkID = .ok record ∧
        record.details = some (.tcx d) ∧ d.position = i := by
  have hk := h.kept hw
  have hids : ∀ t ∈ w'.store.tcxLinks hook, t.1.id ∈ ids := fun t ht => by
    obtain ⟨hl, hr, -⟩ := Store.mem_tcxLinks.1 ht
    exact hk.attached t.1 hl t.2 hr
  refine ⟨(w'.store.tcxLinks hook).map Store.tcxInfo, hk.inv.list hook, ?_, ?_, ?_, ?_⟩
  · rw [hk.inv.chain hook, map_map]
    rfl
  · intro a ha
    obtain ⟨t, ht, rfl⟩ := mem_map.1 ha
    exact hids t ht
  · refine pairwise_map.2 ((Store.pairwise_tcxLinks hk.inv.linkIDs).imp_of_mem ?_)
    intro t u ht hu hlt
    exact hlt.imp id fun ⟨heq, hid⟩ =>
      ⟨heq, idxOf_lt_idxOf hk.ordered (hids t ht) (hids u hu) hid⟩
  · intro i hi
    have hlt : i < (w'.store.tcxLinks hook).length := by simpa using hi
    rw [getElem_map]
    exact hk.inv.getLink_position hlt

namespace Sample

/-- Two loaded TCX programs. -/
def tcxLoaded : World where
  store :=
    { programs := [programRow 11 "a" .tcx, programRow 12 "b" .tcx]
      mapSets := [⟨11, .mapDir 11⟩, ⟨12, .mapDir 12⟩] }
  progPins := [(.prog 11, ⟨11, none⟩), (.prog 12, ⟨12, none⟩)]

theorem tcxLoaded_fresh : TCXFresh tcxLoaded := by
  refine ⟨by decide, by decide, fun l hl => (by cases hl), fun p k h x hx => (by cases hx), rfl, ?_⟩
  intro row hrow x hx
  rcases mem_cons.1 hrow with rfl | hrow
  · cases hx
    rfl
  · obtain rfl := mem_singleton.1 hrow
    cases hx
    rfl

def tcxFirst : TCXAttachSpec :=
  { programID := 11, ifname := "eth0", direction := .ingress, priority := 50
    programID_ne := by decide, ifname_ne := by decide }

def tcxSecond : TCXAttachSpec :=
  { programID := 12, ifname := "eth0", direction := .ingress, priority := 10
    programID_ne := by decide, ifname_ne := by decide }

def tcxHook : TCXHook := ⟨.ingress, 1, 3⟩

/-- The first program attached at priority 50, then the second one at priority 10. -/
def tcxOnce : World := (attachAny (env 1 []) true (.tcx tcxFirst) tcxLoaded).state

def tcxTwice : World := (attachAny (env 2 []) true (.tcx tcxSecond) tcxOnce).state

theorem tcxTwice_run : ∃ ids, TCXRun tcxLoaded ids tcxTwice := by
  have h1 : (attachAny (env 1 []) true (.tcx tcxFirst) tcxLoaded).isOk = true := by decide +kernel
  have h2 : (attachAny (env 2 []) true (.tcx tcxSecond) tcxOnce).isOk = true := by decide +kernel
  obtain ⟨r1, hr1⟩ := Outcome.eq_ok_of_isOk h1
  obtain ⟨r2, hr2⟩ := Outcome.eq_ok_of_isOk h2
  have hc : ∀ n (spec : TCXAttachSpec) w, spec.priority < 2 ^ 31 → TCXAttach (env n []) spec w :=
    fun n spec w hp => ⟨hp, fun _ _ _ _ => rfl, fun _ => rfl⟩
  exact ⟨_, ((TCXRun.start.attach (hc 1 _ _ (by decide)) hr1).attach (hc 2 _ _ (by decide)) hr2)⟩

end Sample

open Sample

/-- The program attached second runs first, as its priority says. -/
theorem tcx_order_of_run_sample :
    tcxTwice.tcxChain tcxHook = [12, 11] ∧
      ∃ infos, tcxTwice.store.listTCXLinksByInterface tcxHook = .ok infos ∧
        infos.map (·.kernelProgramID) = [12, 11] := by
  have hchain : tcxTwice.tcxChain tcxHook = [12, 11] := by decide +kernel
  obtain ⟨ids, hrun⟩ := tcxTwice_run
  obtain ⟨infos, hlist, hmap, -⟩ := tcx_order_of_run tcxLoaded_fresh hrun tcxHook
  exact ⟨hchain, infos, hlist, hmap.symm.trans hchain⟩

/-- **A program runs at most once on a hook**, and from the pin that is named after the two. -/
theorem tcx_once_of_run {ids : List LinkID} (hw : TCXFresh w) (h : TCXRun w ids w')
    (hook : TCXHook) : (w'.tcxChain hook).Nodup ∧
      ∀ id ∈ w'.tcxChain hook, w'.runsAt hook (tcxLinkPath hook id) = some id := by
  have hi := (h.kept hw).inv
  refine ⟨hi.chain_nodup hook, fun id hid => ?_⟩
  obtain ⟨p, -, hp⟩ := mem_tcxChain.1 hid
  rwa [hi.runsAt hp] at hp

theorem tcx_once_of_run_sample : (tcxTwice.tcxChain tcxHook).Nodup := by
  obtain ⟨ids, hrun⟩ := tcxTwice_run
  exact (tcx_once_of_run tcxLoaded_fresh hrun tcxHook).1

end Bpfman
