import Bpfman.Detached

/-!
# Taking the links of a program down

`Unload` and `DeletePrograms` list the links of a program once and then take them down one by one,
each step rewriting or deleting the rows of links still to come. `Unlinked` says what one step does
to the store and `UnlinkedAll` what the loop does; `Pending` is what the links still to come need.

* `Pending.unlinked` — a step keeps the rest of the list pending, unless the step removed the
  dispatcher of a link still to come;
* `UnlinkedAll.separate` — a loop that reached its end met no such link.
-/

namespace Bpfman

open Fallible Store List

variable {e : Env} {key k : Key} {s s₁ s' : Store} {link : LinkRecord}

variable {y : MemberRow} {l : LinkRow}
  {links : List LinkRecord} {b : Bool}

/-! ## The list of links -/

/-- A link row as the listings report it. -/
def Store.listRecord (s : Store) (l : LinkRow) : LinkRecord := linkRecord l (s.listDetails l)

/-- A listing reports every row, and fails if there is one and a detail row does not scan. -/
theorem populateLinkDetails_eq_ok {rows : List LinkRow} :
    s.populateLinkDetails rows = .ok links ↔
      links = rows.map s.listRecord ∧ (rows = [] ∨ s.detailsScan = true) := by
  unfold populateLinkDetails
  by_cases hnil : rows = []
  · subst hnil
    exact ⟨fun h => ⟨(Except.ok.inj h).symm, .inl rfl⟩, fun h => congrArg Except.ok h.1.symm⟩
  · rw [if_neg (by simpa using hnil)]
    by_cases hscan : s.detailsScan = true
    · simp only [hscan, if_true, Except.ok.injEq, or_true, and_true]
      exact ⟨fun h => h.symm, fun h => h.symm⟩
    · simp [hscan, hnil]

theorem listLinksByProgram_eq_ok {p : ProgramID} (h : s.listLinksByProgram p = .ok links) :
    links = (s.links.filter (·.programID = p)).map s.listRecord :=
  (populateLinkDetails_eq_ok.1 h).1

/-- A dispatcher-backed link is listed with its detail row and the dispatcher row that
references. -/
theorem listDetails_member (hs : s.Consistent) (hy : s.IsMemberRow y)
    {r : DispatcherRow} (hr : r ∈ s.dispatchers)
    (hid : r.programID = y.detail.dispatcherProgramID) :
    s.joinDispatcher y.detail = some (linkDetails y.detail r) ∧
      s.listDetails y.link = some (linkDetails y.detail r) := by
  have hnone := (hs.detailed _ hy.link).none (hy.kind hs ▸ linkKind_dispatcher _)
  have hd : s.details.find? (fun d => decide (d.id = y.link.id)) = some y.detail :=
    Table.find_of_mem hs.detailIDs hy.detail hy.link_id.symm
  have hr' : s.dispatchers.find? (fun d => decide (d.programID = y.detail.dispatcherProgramID)) =
      some r := Table.find_of_mem hs.dispatcherIDs hr hid
  have hjoin : s.joinDispatcher y.detail = some (linkDetails y.detail r) := by
    rw [joinDispatcher, hr']
    rfl
  refine ⟨hjoin, ?_⟩
  unfold listDetails
  rw [hnone, hd, Option.bind_some, hjoin]

theorem extractDispatcherKey_listRecord (hs : s.Consistent) (hy : s.IsMemberRow y) :
    extractDispatcherKey (s.listRecord y.link).details = some y.detail.key := by
  obtain ⟨r, hr, -, hid, -⟩ := hs.detailDispatcher _ hy.detail
  change extractDispatcherKey (s.listDetails y.link) = _
  rw [(listDetails_member hs hy hr hid).2]
  exact extractDispatcherKey_linkDetails _ _

theorem listDetails_standalone (hs : s.Consistent) (hl : l ∈ s.links)
    (hkind : ¬ (l.kind = .xdp ∨ l.kind = .tc)) :
    (∃ d, l.standalone = some (.probe d) ∧ s.listDetails l = some (.probe d)) ∨
      ∃ r, l.standalone = some (.tcx r) ∧ s.listDetails l = some (.tcx (s.tcxDetails l.id r)) := by
  have hd : s.details.find? (fun d => decide (d.id = l.id)) = none := by
    simpa using detail_ne_of_plain hs hl hkind
  obtain ⟨row, hrow, -⟩ := (hs.detailed l hl).some hkind
  unfold listDetails
  cases row with
  | probe d => exact .inl ⟨d, hrow, by rw [hrow, hd]; rfl⟩
  | tcx r => exact .inr ⟨r, hrow, by rw [hrow]⟩

theorem listRecord_plain (hs : s.Consistent) (hl : l ∈ s.links)
    (hkind : ¬ (l.kind = .xdp ∨ l.kind = .tc)) :
    extractDispatcherKey (s.listRecord l).details = none := by
  change extractDispatcherKey (s.listDetails l) = none
  rcases listDetails_standalone hs hl hkind with ⟨d, -, h⟩ | ⟨r, -, h⟩ <;> rw [h] <;> rfl

theorem exists_memberRow_of_link (hs : s.Consistent) (hl : l ∈ s.links)
    (hkind : l.kind = .xdp ∨ l.kind = .tc) : ∃ y, s.IsMemberRow y ∧ y.link = l := by
  obtain ⟨d, hd, hdl⟩ := hs.linkDetail l hl hkind
  obtain ⟨y, hy, rfl⟩ := exists_memberRow hs hd
  exact ⟨y, hy, Table.eq_of_key hs.linkIDs hy.link hl (hy.link_id.trans hdl)⟩

/-! ## One step -/

/-- What taking one link down did to the store. A link without a dispatcher is left to the cascade
of the program's delete (`b = false`) or deleted (`b = true`). -/
inductive Unlinked (e : Env) (b : Bool) (link : LinkRecord) (s s' : Store) : Prop
  | kept (hb : b = false) (hk : extractDispatcherKey link.details = none) (h : s' = s)
  | deleted (hb : b = true) (hk : extractDispatcherKey link.details = none) (l : LinkRow)
      (hl : l ∈ s.links) (hid : l.id = link.id) (hkind : ¬ (l.kind = .xdp ∨ l.kind = .tc))
      (h : s' = s.deleteLinks [link.id])
  | detached (key : Key) (hk : extractDispatcherKey link.details = some key)
      (h : Detached e key link.id s s')

namespace Unlinked


variable (h : Unlinked e b link s s')
include h
theorem consistent (hs : s.Consistent) : s'.Consistent := by
  cases h with
  | kept _ _ h => exact h ▸ hs
  | deleted _ _ l hl hid hkind h => exact h ▸ hs.deleteLinks _
  | detached key hk h => exact h.consistent hs

theorem tables : s'.programs = s.programs ∧ s'.mapSets = s.mapSets := by
  cases h with
  | kept _ _ h | deleted _ _ _ _ _ _ h =>
    rw [h]
    exact ⟨rfl, rfl⟩
  | detached key hk h => exact h.tables

/-- A link on a dispatcher was detached. -/
theorem of_key (hk : extractDispatcherKey link.details = some key) :
    Detached e key link.id s s' := by
  cases h with
  | kept _ hk' | deleted _ hk' => exact absurd (hk.symm.trans hk') (by simp)
  | detached key' hk' h => exact Option.some.inj (hk'.symm.trans hk) ▸ h

theorem dispatchers {r' : DispatcherRow} (hr' : r' ∈ s'.dispatchers) :
    ∃ r ∈ s.dispatchers, r.key = r'.key ∧ r.netns = r'.netns := by
  cases h with
  | kept _ _ h => exact ⟨r', h ▸ hr', rfl, rfl⟩
  | deleted _ _ l hl hid hkind h =>
    rw [h] at hr'
    exact ⟨r', hr', rfl, rfl⟩
  | detached key hk h => exact h.dispatchers hr'

/-- A link row after a step was there before it, with the same program. -/
theorem link_of (hs : s.Consistent) (hl : l ∈ s'.links) :
    ∃ l0 ∈ s.links, l0.id = l.id ∧ l0.programID = l.programID := by
  cases h with
  | kept _ _ h => exact ⟨l, h ▸ hl, rfl, rfl⟩
  | deleted _ _ l' hl' hid hkind h =>
    rw [h] at hl
    exact ⟨l, (mem_deleteLinks_links.1 hl).1, rfl, rfl⟩
  | detached key hk h =>
    rcases h.links hl with ⟨hl, -⟩ | ⟨y, hy, -, hid, hp, -⟩
    · exact ⟨l, hl, rfl, rfl⟩
    · exact ⟨y.link, ((mem_memberRows hs).1 hy).1.link, hid.symm, hp.symm⟩

theorem keeps_plain (hs : s.Consistent)
    (hl : l ∈ s.links) (hkind : ¬ (l.kind = .xdp ∨ l.kind = .tc)) (hne : l.id ≠ link.id) :
    l ∈ s'.links := by
  cases h with
  | kept _ _ h => exact h ▸ hl
  | deleted _ _ l' hl' hid hkind' h =>
    rw [h]
    exact mem_deleteLinks_links.2 ⟨hl, by simpa using hne⟩
  | detached key hk h =>
    refine h.keeps_link hl ?_
    rw [mem_attachPointLinks]
    rintro ⟨d, hd, -, hid⟩
    exact detail_ne_of_plain hs hl hkind d hd hid

theorem sameAt (hs : s.Consistent)
    (hk : extractDispatcherKey link.details ≠ some k) : SameAt k s s' := by
  cases h with
  | kept _ _ h => exact h ▸ ⟨rfl, rfl, fun _ _ _ _ hl _ => hl, fun _ _ => Iff.rfl⟩
  | deleted _ _ l hl hid hkind h =>
    rw [h, ← hid]
    exact sameAt_deletePlain hs hl hkind k
  | detached key hkey h =>
    refine h.sameAt hs ?_
    rintro rfl
    exact hk hkey

/-- A member of the attach point the link is on stays, unless the namespace is gone. -/
theorem carried (hs : s.Consistent)
    (hk : extractDispatcherKey link.details = some key) (hy : y ∈ s.memberRows key)
    (hne : y.link.id ≠ link.id) (hns : netnsGone e y.detail.netns = false) :
    ∃ y' ∈ s'.memberRows key, Carried e y y' :=
  (h.of_key hk).carried hs hy hne hns

end Unlinked

/-! ## The loop -/

/-- What taking a list of links down did to the store. -/
inductive UnlinkedAll (e : Env) (b : Bool) : List LinkRecord → Store → Store → Prop
  | nil {s : Store} : UnlinkedAll e b [] s s
  | cons {link : LinkRecord} {links : List LinkRecord} {s s₁ s' : Store}
      (h : Unlinked e b link s s₁) (hs : UnlinkedAll e b links s₁ s') :
      UnlinkedAll e b (link :: links) s s'

/-- What the loop needs of the links still to come: each is still in the store, a dispatcher-backed
one at the attach point it was listed with. -/
structure Pending (s : Store) (links : List LinkRecord) : Prop where
  ids : (links.map (·.id)).Nodup
  plain : ∀ link ∈ links, extractDispatcherKey link.details = none →
    ∃ l ∈ s.links, l.id = link.id ∧ ¬ (l.kind = .xdp ∨ l.kind = .tc)
  member : ∀ link ∈ links, ∀ key, extractDispatcherKey link.details = some key →
    link.pinPath.isSome ∧ ∃ y ∈ s.memberRows key, y.link.id = link.id

/-- The recorded namespace of the dispatcher at `key` is gone. -/
def Gone (e : Env) (s : Store) (key : Key) : Prop :=
  ∃ r ∈ s.dispatchers, r.key = key ∧ netnsGone e r.netns = true

/-- No two links of the list are on one dispatcher whose namespace is gone. -/
def Separate (e : Env) (s : Store) (links : List LinkRecord) : Prop :=
  links.Pairwise fun a b => ∀ key, extractDispatcherKey a.details = some key →
    extractDispatcherKey b.details = some key → ¬ Gone e s key

theorem pending_of_rows (hs : s.Consistent) {rows : List LinkRow} (hrows : rows.Sublist s.links) :
    Pending s (rows.map s.listRecord) := by
  have hrow : ∀ link ∈ rows.map s.listRecord, ∃ l ∈ s.links, s.listRecord l = link := by
    intro link hlink
    obtain ⟨l, hl, rfl⟩ := mem_map.1 hlink
    exact ⟨l, hrows.subset hl, rfl⟩
  refine ⟨?_, fun link hlink hk => ?_, fun link hlink key hk => ?_⟩
  · rw [map_map]
    exact (hrows.map _).nodup hs.linkIDs
  · obtain ⟨l, hl, rfl⟩ := hrow link hlink
    refine ⟨l, hl, rfl, fun hkind => ?_⟩
    obtain ⟨y, hy, rfl⟩ := exists_memberRow_of_link hs hl hkind
    rw [extractDispatcherKey_listRecord hs hy] at hk
    cases hk
  · obtain ⟨l, hl, rfl⟩ := hrow link hlink
    by_cases hkind : l.kind = .xdp ∨ l.kind = .tc
    · obtain ⟨y, hy, rfl⟩ := exists_memberRow_of_link hs hl hkind
      rw [extractDispatcherKey_listRecord hs hy] at hk
      obtain ⟨l', hl', hid, -, hpin⟩ := hs.detailLink _ hy.detail
      obtain rfl := Table.eq_of_key hs.linkIDs hl' hl (hid.trans hy.link_id.symm)
      exact ⟨hpin, y, (mem_memberRows hs).2 ⟨hy, Option.some.inj hk⟩, rfl⟩
    · rw [listRecord_plain hs hl hkind] at hk
      cases hk

theorem pending_of_list (hs : s.Consistent) {p : ProgramID}
    (h : s.listLinksByProgram p = .ok links) : Pending s links := by
  obtain rfl := listLinksByProgram_eq_ok h
  exact pending_of_rows hs filter_sublist

/-- A member's dispatcher is gone if the namespace recorded for the member is. -/
theorem gone_iff_member (hs : s.Consistent) (hy : y ∈ s.memberRows key) :
    Gone e s key ↔ netnsGone e y.detail.netns = true := by
  obtain ⟨hrow, hyk⟩ := (mem_memberRows hs).1 hy
  obtain ⟨r, hr, hrk, -, hns⟩ := hs.detailDispatcher _ hrow.detail
  constructor
  · rintro ⟨r', hr', hrk', hgone⟩
    obtain rfl := Table.eq_of_key hs.dispatcherKeys hr hr' (hrk.trans (hyk.trans hrk'.symm))
    rwa [← hns]
  · intro hgone
    exact ⟨r, hr, hrk.trans hyk, by rwa [hns]⟩

theorem Unlinked.gone (h : Unlinked e b link s s') (hg : Gone e s' key) : Gone e s key := by
  obtain ⟨r', hr', hk, hns⟩ := hg
  obtain ⟨r, hr, hrk, hrn⟩ := h.dispatchers hr'
  exact ⟨r, hr, hrk.trans hk, hrn ▸ hns⟩

theorem Separate.unlinked (h : Separate e s (link :: links)) (hstep : Unlinked e b link s s') :
    Separate e s' links :=
  (pairwise_cons.1 h).2.imp fun hab key ha hb hg => hab key ha hb (hstep.gone hg)

/-- **A step keeps the rest of the list pending**, unless it removes the dispatcher of a link still
to come. -/
theorem Pending.unlinked (hp : Pending s (link :: links)) (hs : s.Consistent)
    (hsep : ∀ link' ∈ links, ∀ key, extractDispatcherKey link.details = some key →
      extractDispatcherKey link'.details = some key → ¬ Gone e s key)
    (h : Unlinked e b link s s') : Pending s' links := by
  obtain ⟨hnot, hnd⟩ := nodup_cons.1 hp.ids
  have hne : ∀ link' ∈ links, link'.id ≠ link.id := fun link' hl' heq =>
    hnot (mem_map.2 ⟨link', hl', heq⟩)
  refine ⟨hnd, fun link' hl' hk => ?_, fun link' hl' key hk => ?_⟩
  · obtain ⟨l, hl, hid, hkind⟩ := hp.plain link' (mem_cons_of_mem _ hl') hk
    exact ⟨l, h.keeps_plain hs hl hkind (hid ▸ hne link' hl'), hid, hkind⟩
  · obtain ⟨hpin, y, hy, hid⟩ := hp.member link' (mem_cons_of_mem _ hl') key hk
    refine ⟨hpin, ?_⟩
    by_cases hkey : extractDispatcherKey link.details = some key
    · -- the same dispatcher: it is not gone, so the other member is carried over
      have hng := hsep link' hl' key hkey hk
      rw [gone_iff_member hs hy, Bool.not_eq_true] at hng
      obtain ⟨y', hy', hc⟩ := h.carried hs hkey hy (hid ▸ hne link' hl') hng
      exact ⟨y', hy', hc.id.trans hid⟩
    · exact ⟨y, (h.sameAt hs hkey).memberRows_eq hs (h.consistent hs) ▸ hy, hid⟩

namespace UnlinkedAll


variable (h : UnlinkedAll e b links s s')
include h
theorem consistent (hs : s.Consistent) : s'.Consistent := by
  induction h with
  | nil => exact hs
  | cons h _ ih => exact ih (h.consistent hs)

theorem tables : s'.programs = s.programs ∧ s'.mapSets = s.mapSets := by
  induction h with
  | nil => exact ⟨rfl, rfl⟩
  | cons h _ ih => exact ⟨ih.1.trans h.tables.1, ih.2.trans h.tables.2⟩

theorem programs : s'.programs = s.programs := h.tables.1

theorem link_of (hs : s.Consistent)
    (hl : l ∈ s'.links) : ∃ l0 ∈ s.links, l0.id = l.id ∧ l0.programID = l.programID := by
  induction h with
  | nil => exact ⟨l, hl, rfl, rfl⟩
  | cons h _ ih =>
    obtain ⟨l1, hl1, hid1, hp1⟩ := ih (h.consistent hs) hl
    obtain ⟨l0, hl0, hid0, hp0⟩ := h.link_of hs hl1
    exact ⟨l0, hl0, hid0.trans hid1, hp0.trans hp1⟩

/-- Every dispatcher a link of the list is on has its row when the loop starts: no step adds one. -/
theorem row {link : LinkRecord} (hl : link ∈ links)
    (hk : extractDispatcherKey link.details = some key) : ∃ r ∈ s.dispatchers, r.key = key := by
  induction h with
  | nil => cases hl
  | cons h _ ih =>
    rcases mem_cons.1 hl with rfl | hl
    · exact (h.of_key hk).row
    · obtain ⟨r', hr', hrk'⟩ := ih hl
      obtain ⟨r, hr, hrk, -⟩ := h.dispatchers hr'
      exact ⟨r, hr, hrk.trans hrk'⟩

/-- **A loop that reached its end** met no two links on one dispatcher whose namespace is gone: the
first of them removes the dispatcher, and the second needs its row. -/
theorem separate (hs : s.Consistent) (hp : Pending s links) : Separate e s links := by
  induction h with
  | nil => exact Pairwise.nil
  | @cons link links s s₁ s' h hrest ih =>
    have hfirst : ∀ link' ∈ links, ∀ key, extractDispatcherKey link.details = some key →
        extractDispatcherKey link'.details = some key → ¬ Gone e s key := by
      intro link' hl' key hk hk' hg
      obtain ⟨r, hr, hrk⟩ := hrest.row hl' hk'
      obtain ⟨-, y, hy, -⟩ := hp.member link (mem_cons_self ..) key hk
      exact (h.of_key hk).gone hs hy ((gone_iff_member hs hy).1 hg) r hr hrk
    have hs1 := h.consistent hs
    refine pairwise_cons.2 ⟨hfirst, (ih hs1 (hp.unlinked hs hfirst h)).imp_of_mem ?_⟩
    intro a b ha _ hab key hka hkb hg
    by_cases hk : extractDispatcherKey link.details = some key
    · exact hfirst a ha key hk hka hg
    · obtain ⟨r, hr, hrk, hns⟩ := hg
      exact hab key hka hkb ⟨r, ((h.sameAt hs hk).dispatchers r hrk).2 hr, hrk, hns⟩

end UnlinkedAll

end Bpfman
