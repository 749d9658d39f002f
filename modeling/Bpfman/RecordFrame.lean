import Bpfman.Teardown
import Bpfman.DetachFailure

/-!
# Link records across a detach

A detach, or an unload, rewrites the rows of the other members of each attach point it takes a link
from. Their records keep everything but the labels and the creation time (`Carried`), so they are as
they were exactly if there was nothing to lose: no labels, and created at the time of the operation
(`records_kept_iff`).
-/

namespace Bpfman

open Fallible Proc List Store

/-! ## Operations and records -/

/-- The operations that take links down. -/
inductive Removal where
  | detach (id : LinkID)
  | unload (p : ProgramID)
  deriving DecidableEq, Repr

/-- `Detach` and `Unload`. -/
def Removal.run (e : Env) : Removal → M Unit
  | .detach id => Bpfman.detach e id
  | .unload p => unloadProgram e p

/-- Whether the operation takes down the link `id` of program `p`. -/
def Removal.Takes (id : LinkID) (p : ProgramID) : Removal → Prop
  | .detach i => id = i
  | .unload q => p = q

variable {e : Env} {w w' : World} {s s₁ s' : Store} {k : Key} {b : Bool} {links : List LinkRecord}
  {y : MemberRow} {id : LinkID} {r : LinkRecord} {l : LinkRow} {op : Removal}

/-- The details common to the dispatcher-backed kinds. -/
def LinkDetails.common : LinkDetails → Option DispatcherDetails
  | .xdp d => some d
  | .tc _ d => some d
  | .probe _ | .tcx _ => none

/-- The details without what a rebuild may change: the position, and the dispatcher's revision and
program. The position of a TCX link is not recorded either. -/
def LinkDetails.stable : LinkDetails → LinkDetails
  | .xdp d => .xdp { d with position := 0, dispatcherID := 0, revision := 0 }
  | .tc dir d => .tc dir { d with position := 0, dispatcherID := 0, revision := 0 }
  | .probe d => .probe d
  | .tcx d => .tcx { d with position := 0 }

/-- The record without what a rebuild may change: the kernel link, the pin, and in the details the
position and the dispatcher's revision and program. -/
def LinkRecord.stable (r : LinkRecord) : LinkRecord :=
  { r with kernelLinkID := none, pinPath := none, details := r.details.map LinkDetails.stable }

/-- The namespace recorded for the dispatcher of the link is there. -/
def LinkRecord.InPresentNetns (e : Env) (r : LinkRecord) : Prop :=
  ∀ d ∈ r.details.bind LinkDetails.common, netnsGone e d.netns = false

/-- The record of a member row, given the revision of its dispatcher. -/
def MemberRow.record (y : MemberRow) (d : DispatcherRow) : LinkRecord :=
  Store.linkRecord y.link (some (Store.linkDetails y.detail d))

theorem common_linkDetails (d : DetailRow) (r : DispatcherRow) :
    ∃ c, (linkDetails d r).common = some c ∧ c.netns = d.netns := by
  unfold linkDetails
  cases d.key.type <;> exact ⟨_, rfl, rfl⟩

theorem inPresentNetns_record {d : DispatcherRow}
    (h : (y.record d).InPresentNetns e) : netnsGone e y.detail.netns = false := by
  obtain ⟨c, hc, hns⟩ := common_linkDetails y.detail d
  rw [← hns]
  exact h c hc

theorem dispatcherKey_record (hkind : y.link.kind = y.detail.key.type.linkKind)
    (d : DispatcherRow) : dispatcherKey (y.record d) = some y.detail.key := by
  unfold dispatcherKey
  rw [if_pos (by
    have := linkKind_dispatcher y.detail.key.type
    rwa [← hkind] at this)]
  exact extractDispatcherKey_linkDetails _ _

/-- **A readable link** is one without a dispatcher, or a dispatcher member. -/
theorem getLink_record (hs : s.Consistent) (h : s.getLink id = .ok r) :
    (∃ l ∈ s.links, l.id = id ∧ ¬ (l.kind = .xdp ∨ l.kind = .tc) ∧
        ∃ details, s.getStandaloneDetails l = .ok details ∧ r = linkRecord l (some details)) ∨
      ∃ y d, s.IsMemberRow y ∧ y.link.id = id ∧ priorityScans y.detail = true ∧
        r = y.record d := by
  rcases (Store.getLink_eq_ok hs).1 h with hp | ⟨l, d, r', hlr, rfl, rfl⟩
  · exact .inl hp
  · obtain ⟨y, hy, rfl, rfl⟩ := exists_memberRow_of_linkRow hs hlr
    exact .inr ⟨y, r', ((mem_memberRows hs).1 hy).1, rfl, hlr.scans, rfl⟩

theorem getLink_of_member (hs : s.Consistent) (hy : s.IsMemberRow y)
    (hp : priorityScans y.detail = true) : ∃ d, s.getLink y.link.id = .ok (y.record d) := by
  obtain ⟨d, hd, -, hid, -⟩ := hs.detailDispatcher _ hy.detail
  exact ⟨d, (Store.getLink_eq_ok hs).2 (.inr ⟨y.link, y.detail, d,
    ⟨hy.link, hy.detail, hd, hy.link_id.symm, hy.kind hs, hid, hp⟩, rfl, rfl⟩)⟩

/-- What two member rows have to agree on for their records to differ only in what a rebuild may
change. -/
theorem stable_record {y' : MemberRow} (h : Carried e y y') (hm : y.link.metadata = [])
    (hc : y.link.createdAt = e.now) (d d' : DispatcherRow) :
    (y'.record d').stable = (y.record d).stable := by
  unfold LinkRecord.stable MemberRow.record linkRecord linkDetails
  simp only [h.id, h.programID, h.kind, h.key, h.ifname, h.priority, h.proceedOn, h.netns,
    h.metadata, h.createdAt, hm, hc, Option.map_some]
  cases y.detail.key.type <;> rfl

theorem stable_record_self (y : MemberRow) (d d' : DispatcherRow) :
    (y.record d').stable = (y.record d).stable := by
  unfold LinkRecord.stable MemberRow.record linkRecord linkDetails
  cases y.detail.key.type <;> rfl

/-! ## The rows of the others -/

/-- A member that is not in the list is carried over if a link of the list is on its attach point,
and left alone if not. -/
theorem UnlinkedAll.member (h : UnlinkedAll e b links s s') (hs : s.Consistent)
    (hy : y ∈ s.memberRows k) (hid : ∀ link ∈ links, y.link.id ≠ link.id)
    (hns : netnsGone e y.detail.netns = false) :
    ∃ y' ∈ s'.memberRows k,
      (y' = y ∧ ∀ link ∈ links, extractDispatcherKey link.details ≠ some k) ∨
      (Carried e y y' ∧ ∃ link ∈ links, extractDispatcherKey link.details = some k) := by
  induction h generalizing y with
  | nil => exact ⟨y, hy, .inl ⟨rfl, by simp⟩⟩
  | @cons link links s s₁ s' h hrest ih =>
    have hs1 := h.consistent hs
    have hid' : ∀ l ∈ links, y.link.id ≠ l.id := fun l hl => hid l (mem_cons_of_mem _ hl)
    by_cases hk : extractDispatcherKey link.details = some k
    · obtain ⟨y1, hy1, hc⟩ := h.carried hs hk hy (hid link (mem_cons_self ..)) hns
      obtain ⟨y', hy', hrow⟩ := ih hs1 hy1 (fun l hl => hc.id ▸ hid' l hl) (hc.netns ▸ hns)
      refine ⟨y', hy', .inr ⟨?_, link, mem_cons_self .., hk⟩⟩
      rcases hrow with ⟨rfl, -⟩ | ⟨hc', -⟩
      · exact hc
      · exact hc.trans hc'
    · have hy1 : y ∈ s₁.memberRows k := (h.sameAt hs hk).memberRows_eq hs hs1 ▸ hy
      obtain ⟨y', hy', hrow⟩ := ih hs1 hy1 hid' hns
      refine ⟨y', hy', ?_⟩
      rcases hrow with ⟨rfl, hno⟩ | ⟨hc, l, hl, hlk⟩
      · refine .inl ⟨rfl, fun l hl => ?_⟩
        rcases mem_cons.1 hl with rfl | hl
        · exact hk
        · exact hno l hl
      · exact .inr ⟨hc, l, mem_cons_of_mem _ hl, hlk⟩

theorem UnlinkedAll.keeps_plain (h : UnlinkedAll e b links s s') (hs : s.Consistent)
    (hl : l ∈ s.links) (hkind : ¬ (l.kind = .xdp ∨ l.kind = .tc))
    (hid : ∀ link ∈ links, l.id ≠ link.id) : l ∈ s'.links := by
  induction h with
  | nil => exact hl
  | cons h _ ih =>
    exact ih (h.consistent hs) (h.keeps_plain hs hl hkind (hid _ (mem_cons_self ..)))
      fun link hm => hid link (mem_cons_of_mem _ hm)

/-! ## What an operation took down -/

theorem getLink_row (hs : s.Consistent) (h : s.getLink id = .ok r) :
    r.id = id ∧ ∃ l ∈ s.links, l.id = id ∧ l.programID = r.programID := by
  rcases getLink_record hs h with ⟨l, hl, rfl, -, details, -, rfl⟩ | ⟨y, d, hy, rfl, -, rfl⟩
  · exact ⟨rfl, l, hl, rfl, rfl⟩
  · exact ⟨rfl, y.link, hy.link, rfl, rfl⟩

theorem extractDispatcherKey_standalone {details : LinkDetails}
    (h : s.getStandaloneDetails l = .ok details) : extractDispatcherKey (some details) = none := by
  rcases getStandaloneDetails_eq_ok.1 h with ⟨d, -, -, rfl⟩ | ⟨r, -, -, -, rfl⟩ <;> rfl

theorem extractDispatcherKey_of_getLink (hs : s.Consistent)
    (h : s.getLink id = .ok r) : extractDispatcherKey r.details = dispatcherKey r := by
  rcases getLink_record hs h with ⟨l, hl, rfl, hk, details, hd, rfl⟩ | ⟨y, d, hy, rfl, -, rfl⟩
  · exact (extractDispatcherKey_standalone hd).trans (if_neg hk).symm
  · rw [dispatcherKey_record (hy.kind hs)]
    exact extractDispatcherKey_linkDetails _ _

theorem getLink_listRecord (hs : s.Consistent) (hscan : s.detailsScan = true)
    (hl : l ∈ s.links) : s.getLink l.id = .ok (s.listRecord l) := by
  obtain ⟨hdetails, htcx⟩ := Bool.and_eq_true_iff.1 hscan
  by_cases hk : l.kind = .xdp ∨ l.kind = .tc
  · obtain ⟨y, hy, rfl⟩ := exists_memberRow_of_link hs hl hk
    obtain ⟨d, hd, -, hid, -⟩ := hs.detailDispatcher _ hy.detail
    obtain ⟨hjoin, hlist⟩ := listDetails_member hs hy hd hid
    have hp : priorityScans y.detail = true := by
      have := all_eq_true.1 hdetails _ hy.detail
      simpa [hjoin] using this
    refine (Store.getLink_eq_ok hs).2 (.inr ⟨y.link, y.detail, d,
      ⟨hy.link, hy.detail, hd, hy.link_id.symm, hy.kind hs, hid, hp⟩, rfl, ?_⟩)
    rw [Store.listRecord, hlist]
  · obtain ⟨row, hrow, hserves⟩ := (hs.detailed l hl).some hk
    refine (Store.getLink_eq_ok hs).2 (.inl ⟨l, hl, rfl, hk, ?_⟩)
    unfold Store.listRecord
    rcases listDetails_standalone hs hl hk with ⟨d, hd, hlist⟩ | ⟨r, hr, hlist⟩
    · obtain rfl := Option.some.inj (hrow.symm.trans hd)
      exact ⟨_, getStandaloneDetails_eq_ok.2 (.inl ⟨d, hd, hserves, rfl⟩), by rw [hlist]⟩
    · obtain rfl := Option.some.inj (hrow.symm.trans hr)
      have hp : int32Scans r.priority = true :=
        all_eq_true.1 htcx (l.id, r) (mem_tcxRows.2 ⟨l, hl, rfl, hr⟩)
      exact ⟨_, getStandaloneDetails_eq_ok.2 (.inr ⟨r, hr, hserves, hp, rfl⟩), by rw [hlist]⟩

/-- The links an operation took down, and what it did to the store. -/
structure TookDown (e : Env) (op : Removal) (s s' : Store) (b : Bool) (links : List LinkRecord)
    (s₁ : Store) : Prop where
  taken : ∀ r ∈ links, s.getLink r.id = .ok r ∧ op.Takes r.id r.programID
  all : ∀ id r, s.getLink id = .ok r → op.Takes r.id r.programID → r ∈ links
  unlinked : UnlinkedAll e b links s s₁
  consistent : s'.Consistent
  member : ∀ y, s₁.IsMemberRow y → ¬ op.Takes y.link.id y.link.programID → s'.IsMemberRow y
  plain : ∀ l ∈ s₁.links, ¬ (l.kind = .xdp ∨ l.kind = .tc) → ¬ op.Takes l.id l.programID →
    l ∈ s'.links

theorem tookDown_detach (hs : w.store.Consistent) (h : Bpfman.detach e id w = .ok () w') :
    ∃ b links s₁, TookDown e (.detach id) w.store w'.store b links s₁ := by
  obtain ⟨r, w1, hget, -⟩ := detach_eq_ok h
  obtain ⟨hrid, -⟩ := getLink_row hs hget
  have hagr : Agrees w.store [r] := by
    refine ⟨fun link hl d hd hid => ?_, fun link hl l hlm hid hk => ?_⟩
    · rw [mem_singleton.1 hl] at hid ⊢
      rw [extractDispatcherKey_of_getLink hs hget]
      rcases getLink_cases hs hget with ⟨l, hlm, hlid, hk, -⟩ | ⟨m, hm, hmid, -, -, hk⟩
      · exact absurd (hid.trans (hrid.trans hlid.symm)) (detail_ne_of_plain hs hlm hk d hd)
      · have hmr := ((mem_memberRows hs).1 hm).1
        rw [hk, Table.eq_of_key hs.detailIDs hd hmr.detail
          (hid.trans (hrid.trans (hmid.symm.trans hmr.link_id)))]
    · rw [mem_singleton.1 hl] at hid ⊢
      rw [extractDispatcherKey_of_getLink hs hget]
      rcases getLink_cases hs hget with ⟨l', -, -, -, -, hkey⟩ | ⟨m, hm, hmid, -, -, -⟩
      · exact hkey
      · have hmr := ((mem_memberRows hs).1 hm).1
        refine absurd ?_ (detail_ne_of_plain hs hlm hk _ hmr.detail)
        rw [← hmr.link_id, hmid, hid, hrid]
  have hstep := unlinked_of_detach hs hagr (hrid.symm ▸ h)
  refine ⟨true, [r], w'.store, ?_, ?_, .cons hstep .nil, hstep.consistent hs, fun _ h _ => h,
    fun _ h _ _ => h⟩
  · intro r' hr'
    rw [mem_singleton.1 hr', hrid]
    exact ⟨hget, rfl⟩
  · intro i r' hget' htake
    obtain ⟨hi, -⟩ := getLink_row hs hget'
    have : i = id := hi.symm.trans htake
    rw [this, hget] at hget'
    cases hget'
    exact mem_singleton.2 rfl

theorem unloadProgram_eq_ok {p : ProgramID} (h : unloadProgram e p w = .ok () w') :
    ∃ record links, w.store.getProgram p = .ok record ∧ w.store.listLinksByProgram p = .ok links ∧
      unload e record links true w = .ok () w' := by
  obtain ⟨record, w1, h1, g1⟩ := bind_eq_ok.1 h
  obtain ⟨hp, rfl⟩ := getProgram_eq_ok (mapErr_eq_ok.1 h1)
  obtain ⟨links, w2, h2, g2⟩ := bind_eq_ok.1 g1
  obtain ⟨-, hl, rfl⟩ := query_eq_ok.1 (mapErr_eq_ok.1 h2)
  exact ⟨record, links, hp, hl, g2⟩

theorem tookDown_unload (hs : w.store.Consistent) {p : ProgramID}
    (h : unloadProgram e p w = .ok () w') :
    ∃ b links s₁, TookDown e (.unload p) w.store w'.store b links s₁ := by
  obtain ⟨record, links, hp, hlist, hun⟩ := unloadProgram_eq_ok h
  obtain ⟨-, -, -, hrid, -⟩ := Store.getProgram_eq_ok hp
  have hpend := pending_of_list hs hlist
  obtain ⟨keys, w1, h1, g1⟩ := bind_eq_ok.1 hun
  have hall := unlinkedAll_of_detachAllLinks (fun l hl key hk => (hpend.member l hl key hk).1)
    (mapErr_eq_ok.1 h1)
  have ht : Trims p w1.store w'.store := hrid ▸ (trims_unloadRest keys true).ok g1
  have hs1 := hall.consistent hs
  have hscan : ∀ l ∈ w.store.links, l.programID = p → w.store.detailsScan = true := by
    intro l hl hlp
    refine (populateLinkDetails_eq_ok.1 hlist).2.resolve_left fun hnil => ?_
    have hmem : l ∈ w.store.links.filter (·.programID = p) := mem_filter.2 ⟨hl, decide_eq_true hlp⟩
    rw [hnil] at hmem
    cases hmem
  refine ⟨false, links, w1.store, ?_, ?_, hall, ht.consistent hs1, ht.member hs1, ht.plain hs1⟩
  · intro r hr
    rw [listLinksByProgram_eq_ok hlist] at hr
    obtain ⟨l, hl, rfl⟩ := mem_map.1 hr
    obtain ⟨hl, hlp⟩ := mem_filter.1 hl
    have hlp : l.programID = p := of_decide_eq_true hlp
    exact ⟨getLink_listRecord hs (hscan l hl hlp) hl, hlp⟩
  · intro id r hget htake
    obtain ⟨-, l, hl, rfl, hlp⟩ := getLink_row hs hget
    have hlp' : l.programID = p := hlp.trans htake
    rw [getLink_listRecord hs (hscan l hl hlp') hl] at hget
    cases hget
    rw [listLinksByProgram_eq_ok hlist]
    exact mem_map_of_mem (mem_filter.2 ⟨hl, decide_eq_true hlp'⟩)

theorem tookDown_of_ok (hs : w.store.Consistent) (h : op.run e w = .ok () w') :
    ∃ b links s₁, TookDown e op w.store w'.store b links s₁ := by
  cases op with
  | detach id => exact tookDown_detach hs h
  | unload p => exact tookDown_unload hs h

theorem TookDown.ne_id (h : TookDown e op s s' b links s₁) (hs : s.Consistent) (hl : l ∈ s.links)
    (hnt : ¬ op.Takes l.id l.programID) : ∀ r ∈ links, l.id ≠ r.id := by
  intro r hr hid
  obtain ⟨hget, htake⟩ := h.taken r hr
  obtain ⟨-, l', hl', hlid, hlp⟩ := getLink_row hs hget
  obtain rfl := Table.eq_of_key hs.linkIDs hl hl' (hid.trans hlid.symm)
  rw [hlid, hlp] at hnt
  exact hnt htake

/-- The rows of a member that is not taken down, after the operation. -/
theorem TookDown.row (h : TookDown e op s s' b links s₁) (hs : s.Consistent) (hy : s.IsMemberRow y)
    (hnt : ¬ op.Takes y.link.id y.link.programID) (hns : netnsGone e y.detail.netns = false) :
    ∃ y', s'.IsMemberRow y' ∧
      ((y' = y ∧ ∀ r ∈ links, dispatcherKey r ≠ some y.detail.key) ∨
        (Carried e y y' ∧ ∃ r ∈ links, dispatcherKey r = some y.detail.key)) := by
  have hkey : ∀ r ∈ links, extractDispatcherKey r.details = dispatcherKey r := fun r hr =>
    extractDispatcherKey_of_getLink hs (h.taken r hr).1
  have hs1 := h.unlinked.consistent hs
  obtain ⟨y', hy', hrow⟩ := h.unlinked.member hs ((mem_memberRows hs).2 ⟨hy, rfl⟩)
    (h.ne_id hs hy.link hnt) hns
  have hy'₁ := ((mem_memberRows hs1).1 hy').1
  rcases hrow with ⟨rfl, hno⟩ | ⟨hc, r, hr, hk⟩
  · exact ⟨y', h.member y' hy'₁ hnt, .inl ⟨rfl, fun r hr => hkey r hr ▸ hno r hr⟩⟩
  · refine ⟨y', h.member y' hy'₁ ?_, .inr ⟨hc, r, hr, hkey r hr ▸ hk⟩⟩
    rwa [hc.id, hc.programID]

/-- The details of a link without a dispatcher are those of its row in every store, up to the
position of a TCX link. -/
theorem getStandaloneDetails_stable {details : LinkDetails} (s' : Store)
    (h : s.getStandaloneDetails l = .ok details) :
    ∃ details', s'.getStandaloneDetails l = .ok details' ∧ details'.stable = details.stable := by
  rcases getStandaloneDetails_eq_ok.1 h with ⟨d, hd, hk, rfl⟩ | ⟨r, hr, hk, hp, rfl⟩
  · exact ⟨_, getStandaloneDetails_eq_ok.2 (.inl ⟨d, hd, hk, rfl⟩), rfl⟩
  · exact ⟨_, getStandaloneDetails_eq_ok.2 (.inr ⟨r, hr, hk, hp, rfl⟩), rfl⟩

/-- Every link the operation does not take down, in a namespace that is there, has the record it
had, up to what a rebuild may change. -/
def RecordsKept (e : Env) (op : Removal) (s s' : Store) : Prop :=
  ∀ id r, s.getLink id = .ok r → ¬ op.Takes r.id r.programID → r.InPresentNetns e →
    ∃ r', s'.getLink id = .ok r' ∧ r'.stable = r.stable

/-- Every link that stays on an attach point the operation takes a link from has no labels and was
created at the time of the operation. -/
def NothingToLose (e : Env) (op : Removal) (s : Store) : Prop :=
  ∀ i m j r, s.getLink i = .ok m → s.getLink j = .ok r → op.Takes m.id m.programID →
    ¬ op.Takes r.id r.programID → (dispatcherKey r).isSome → dispatcherKey m = dispatcherKey r →
    r.InPresentNetns e → r.metadata = [] ∧ r.createdAt = e.now

/-- **The records of the links that stay** are kept by a successful detach or unload exactly if they
carry no labels and were created just now: the rebuild drops the labels of every other member of the
attach point and records its own time as their creation time. -/
theorem records_kept_iff {w₀ : World} (h₀ : Fresh w₀) (hrun : Run w₀ w) {op : Removal}
    (h : op.run e w = .ok () w') :
    RecordsKept e op w.store w'.store ↔ NothingToLose e op w.store := by
  have hs := (inv_run h₀.inv hrun).store
  obtain ⟨b, links, s₁, ht⟩ := tookDown_of_ok hs h
  have hs' := ht.consistent
  constructor
  · intro hkept i m j r hm hr htake hnt hsome hkey hns
    obtain ⟨r', hr', heq⟩ := hkept j r hr hnt hns
    rcases getLink_record hs hr with ⟨l, -, -, hk, details, -, rfl⟩ | ⟨y, d, hy, rfl, -, rfl⟩
    · rw [show dispatcherKey (linkRecord l (some details)) = none from if_neg hk] at hsome
      cases hsome
    · have hns' := inPresentNetns_record hns
      rw [dispatcherKey_record (hy.kind hs)] at hkey
      obtain ⟨y', hy', hrow⟩ := ht.row hs hy hnt hns'
      rcases hrow with ⟨-, hno⟩ | ⟨hc, -⟩
      · exact absurd hkey (hno m (ht.all i m hm htake))
      · -- the record after the operation is that of the carried row
        rcases getLink_record hs' hr' with ⟨l, hl, hlid, hk, -⟩ | ⟨z, d', hz, hzid, -, rfl⟩
        · refine absurd ?_ (detail_ne_of_plain hs' hl hk _ hy'.detail)
          rw [← hy'.link_id, hc.id, hlid]
        · obtain rfl := eq_of_link_id hs' hz hy' (hzid.trans hc.id.symm)
          have hmeta : z.link.metadata = y.link.metadata := congrArg LinkRecord.metadata heq
          have htime : z.link.createdAt = y.link.createdAt := congrArg LinkRecord.createdAt heq
          exact ⟨hmeta.symm.trans hc.metadata, htime.symm.trans hc.createdAt⟩
  · intro hcond id r hr hnt hns
    rcases getLink_record hs hr with
      ⟨l, hl, rfl, hk, details, hd, rfl⟩ | ⟨y, d, hy, rfl, hp, rfl⟩
    · have hl' := ht.plain l (ht.unlinked.keeps_plain hs hl hk (ht.ne_id hs hl hnt)) hk hnt
      obtain ⟨details', hd', heq⟩ := getStandaloneDetails_stable w'.store hd
      refine ⟨_, (Store.getLink_eq_ok hs').2 (.inl ⟨l, hl', rfl, hk, details', hd', rfl⟩), ?_⟩
      unfold LinkRecord.stable linkRecord
      simp only [Option.map_some, heq]
    · have hns' := inPresentNetns_record hns
      obtain ⟨y', hy', hrow⟩ := ht.row hs hy hnt hns'
      rcases hrow with ⟨rfl, -⟩ | ⟨hc, m, hm, hmk⟩
      · obtain ⟨d', hd'⟩ := getLink_of_member hs' hy' hp
        exact ⟨_, hd', stable_record_self _ _ _⟩
      · have hp' : priorityScans y'.detail = true := by
          unfold priorityScans at hp ⊢
          rwa [hc.priority]
        obtain ⟨d', hd'⟩ := getLink_of_member hs' hy' hp'
        obtain ⟨hget, htake⟩ := ht.taken m hm
        have hkey := dispatcherKey_record (hy.kind hs) d
        obtain ⟨hmeta, htime⟩ := hcond m.id m y.link.id (y.record d) hget hr htake hnt
          (by rw [hkey]; rfl) (hmk.trans hkey.symm) hns
        exact ⟨_, hc.id ▸ hd', stable_record hc hmeta htime d d'⟩

namespace Sample

/-- A labelled and a plain XDP link on one interface. -/
@[irreducible] def labelled : World := attached [xdp 1 [("owner", "a")], xdp 2 []]

theorem labelled_run : Run world labelled := by
  unfold labelled
  exact run_attachAll (by decide +kernel)

/-- The labels a link is read with. -/
def labels (s : Store) (id : LinkID) : Option Labels := (s.getLink id).toOption.map (·.metadata)

end Sample

open Sample

/-- Two links without labels, one of them detached in the second the other was recorded in. -/
theorem records_kept_iff_sample :
    let w := twoMembers
    let e := env 2 []
    ∃ w', Removal.run e (.detach 2) w = .ok () w' ∧ RecordsKept e (.detach 2) w.store w'.store := by
  have hok : (Bpfman.detach (env 2 []) 2 twoMembers).isOk = true := by decide +kernel
  obtain ⟨u, hrun⟩ := Outcome.eq_ok_of_isOk hok
  have hrows : ∀ l ∈ twoMembers.store.links, l.metadata = [] ∧ l.createdAt = 2 := by
    decide +kernel
  refine ⟨_, hrun, (@records_kept_iff _ _ _ _ fresh twoMembers_run (.detach 2) hrun).2 ?_⟩
  intro i m j r _ hr _ _ _ _ _
  rcases getLink_record twoMembers_inv.store hr with
    ⟨l, hl, -, -, details, -, rfl⟩ | ⟨y, d, hy, -, -, rfl⟩
  · exact hrows l hl
  · exact hrows y.link hy.link

/-- The other link of the interface loses its labels when a link is detached, or its program is
unloaded. -/
theorem detach_drops_labels :
    let w := labelled
    let e := env 3 []
    Run world w ∧ labels w.store 1 = some [("owner", "a")] ∧
      ∀ op ∈ [Removal.detach 2, Removal.unload 2], (op.run e w).isOk = true ∧
        labels (op.run e w).state.store 1 = some [] ∧
        ¬ RecordsKept e op w.store (op.run e w).state.store := by
  have hbefore : labels labelled.store 1 = some [("owner", "a")] := by decide +kernel
  have hafter : ∀ op ∈ [Removal.detach 2, Removal.unload 2],
      (op.run (env 3 []) labelled).isOk = true ∧
      labels (op.run (env 3 []) labelled).state.store 1 = some [] := by
    decide +kernel
  refine ⟨labelled_run, hbefore, fun op hop => ?_⟩
  obtain ⟨hok, hlabels⟩ := hafter op hop
  refine ⟨hok, hlabels, fun hkept => ?_⟩
  unfold labels at hbefore hlabels
  cases hr : labelled.store.getLink 1 with
  | error err => simp [hr, Except.toOption] at hbefore
  | ok r =>
    have hs := (inv_run fresh.inv labelled_run).store
    obtain ⟨hid, l, hl, hlid, hlp⟩ := getLink_row hs hr
    have hprog : ∀ l ∈ labelled.store.links, l.id = 1 → l.programID = 1 := by decide +kernel
    have hnt : ¬ op.Takes r.id r.programID := by
      rw [hid, ← hlp, hprog l hl hlid]
      simp only [mem_cons, not_mem_nil, or_false] at hop
      rcases hop with rfl | rfl <;> exact fun h => absurd (show (1 : Nat) = 2 from h) (by decide)
    have hns : r.InPresentNetns (env 3 []) := fun d _ => by simp [netnsGone, env]
    obtain ⟨r', hr', heq⟩ := hkept 1 r hr hnt hns
    have hmeta : r'.stable.metadata = r.stable.metadata := congrArg LinkRecord.metadata heq
    change r'.metadata = r.metadata at hmeta
    rw [hr] at hbefore
    rw [hr'] at hlabels
    simp only [Except.toOption, Option.map_some, Option.some.injEq] at hbefore hlabels
    rw [hbefore, hlabels] at hmeta
    cases hmeta

end Bpfman
