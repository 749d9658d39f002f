import Bpfman.MapSetRun

/-!
# What a detach removes

The store as a user of the manager sees it: which programs it records, and which links. A detach
rewrites the rows of the other members of its dispatcher, so a link is compared by what a rewrite
carries over (`LinkData`).

* `Unlinked.linkSet` — a detach removes its link, and with it the members of its dispatcher if the
  recorded namespace is gone;
* `detach_removes` — with no failing primitive, a detach removes the link and nothing else, if the
  namespace of its dispatcher is there.
-/

namespace Bpfman

open Fallible Store

variable {e : Env} {w w' : World} {s s' : Store} {id : LinkID} {link : LinkRecord}

variable {l : LinkRow}

/-! ## Links -/

/-- Where and how a dispatcher-backed link is attached. -/
structure Attachment where
  key : Key
  ifname : String
  priority : Nat
  proceedOn : List Int
  netns : String
  deriving DecidableEq

def DetailRow.attachment (d : DetailRow) : Attachment :=
  ⟨d.key, d.ifname, d.priority, d.proceedOn, d.netns⟩

/-- What a rewrite of its rows carries over of a link: all but its position, its kernel link, its
labels and its creation time. -/
structure LinkData where
  id : LinkID
  programID : ProgramID
  kind : LinkKind
  standalone : Option StandaloneRow
  attachment : Option Attachment
  deriving DecidableEq

/-- The attach point of a dispatcher-backed link. -/
def LinkData.key (n : LinkData) : Option Key := n.attachment.map (·.key)

/-- The recorded namespace of the link is gone. -/
def LinkData.gone (e : Env) (n : LinkData) : Prop :=
  ∃ a, n.attachment = some a ∧ netnsGone e a.netns = true

namespace Store

def linkData (s : Store) (l : LinkRow) : LinkData :=
  ⟨l.id, l.programID, l.kind, l.standalone,
    (s.details.find? (·.id = l.id)).map DetailRow.attachment⟩

/-- The links of a store. -/
def linkSet (s : Store) : Set LinkData := {n | ∃ l ∈ s.links, s.linkData l = n}

theorem mem_linkSet (hl : l ∈ s.links) : s.linkData l ∈ s.linkSet := ⟨l, hl, rfl⟩

theorem linkData_member (hs : s.Consistent) {y : MemberRow} (hy : s.IsMemberRow y) :
    s.linkData y.link =
      ⟨y.link.id, y.link.programID, y.link.kind, none, some y.detail.attachment⟩ := by
  have hnone := (hs.detailed _ hy.link).none (hy.kind hs ▸ linkKind_dispatcher _)
  have hd : s.details.find? (fun d => decide (d.id = y.link.id)) = some y.detail :=
    Table.find_of_mem hs.detailIDs hy.detail hy.link_id.symm
  rw [linkData, hd, hnone]
  rfl

theorem linkData_plain (hs : s.Consistent) (hl : l ∈ s.links)
    (hkind : ¬ (l.kind = .xdp ∨ l.kind = .tc)) :
    s.linkData l = ⟨l.id, l.programID, l.kind, l.standalone, none⟩ := by
  have hd : s.details.find? (fun d => decide (d.id = l.id)) = none := by
    simpa using detail_ne_of_plain hs hl hkind
  rw [linkData, hd]
  rfl

/-- A link with an attachment has its member row. -/
theorem exists_member_of_attachment (hs : s.Consistent) (hl : l ∈ s.links)
    {a : Attachment} (ha : (s.linkData l).attachment = some a) :
    ∃ y, s.IsMemberRow y ∧ y.link = l ∧ y.detail.attachment = a := by
  have hkind : l.kind = .xdp ∨ l.kind = .tc := by
    by_contra hkind
    rw [linkData_plain hs hl hkind] at ha
    cases ha
  obtain ⟨y, hy, rfl⟩ := exists_memberRow_of_link hs hl hkind
  rw [linkData_member hs hy] at ha
  exact ⟨y, hy, rfl, Option.some.inj ha⟩

/-- The namespace recorded for a link is that of its dispatcher. -/
theorem gone_iff (hs : s.Consistent) {n : LinkData} (hn : n ∈ s.linkSet) {key : Key}
    (hk : n.key = some key) : n.gone e ↔ Gone e s key := by
  obtain ⟨l, hl, rfl⟩ := hn
  obtain ⟨a, ha, rfl⟩ := Option.map_eq_some_iff.1 hk
  obtain ⟨y, hy, rfl, rfl⟩ := exists_member_of_attachment hs hl ha
  have hmem : y ∈ s.memberRows y.detail.key := (mem_memberRows hs).2 ⟨hy, rfl⟩
  rw [show y.detail.attachment.key = y.detail.key from rfl, gone_iff_member hs hmem]
  constructor
  · rintro ⟨a, ha', hgone⟩
    rw [ha] at ha'
    cases ha'
    exact hgone
  · intro hgone
    exact ⟨_, ha, hgone⟩

theorem key_listRecord (hs : s.Consistent) (hl : l ∈ s.links) :
    extractDispatcherKey (s.listRecord l).details = (s.linkData l).key := by
  by_cases hkind : l.kind = .xdp ∨ l.kind = .tc
  · obtain ⟨y, hy, rfl⟩ := exists_memberRow_of_link hs hl hkind
    rw [extractDispatcherKey_listRecord hs hy, linkData_member hs hy]
    rfl
  · rw [listRecord_plain hs hl hkind, linkData_plain hs hl hkind]
    rfl

theorem linkData_inj (hs : s.Consistent) {n m : LinkData} (hn : n ∈ s.linkSet) (hm : m ∈ s.linkSet)
    (hid : n.id = m.id) : n = m := by
  obtain ⟨l, hl, rfl⟩ := hn
  obtain ⟨l', hl', rfl⟩ := hm
  rw [Table.eq_of_key hs.linkIDs hl hl' hid]

end Store

theorem Carried.linkData {y y' : MemberRow} (h : Carried e y y') (hs : s.Consistent)
    (hs' : s'.Consistent) (hy : s.IsMemberRow y) (hy' : s'.IsMemberRow y') :
    s'.linkData y'.link = s.linkData y.link := by
  rw [linkData_member hs hy, linkData_member hs' hy', h.id, h.programID, h.kind,
    DetailRow.attachment, DetailRow.attachment, h.key, h.ifname, h.priority, h.proceedOn, h.netns]

/-- Detaching `link` takes the dispatcher of `n` down with all its members. -/
def TakesDown (e : Env) (link : LinkRecord) (n : LinkData) : Prop :=
  n.gone e ∧ n.key = extractDispatcherKey link.details

/-- Another link stays as it is, unless it goes with its dispatcher. -/
theorem Unlinked.keeps_data {b : Bool} (h : Unlinked e b link s s') (hs : s.Consistent)
    (hl : l ∈ s.links) (hne : l.id ≠ link.id) (hup : ¬ TakesDown e link (s.linkData l)) :
    s.linkData l ∈ s'.linkSet := by
  have hs' := h.consistent hs
  by_cases hkind : l.kind = .xdp ∨ l.kind = .tc
  · obtain ⟨y, hy, rfl⟩ := exists_memberRow_of_link hs hl hkind
    have hmem : y ∈ s.memberRows y.detail.key := (mem_memberRows hs).2 ⟨hy, rfl⟩
    have hdata := linkData_member hs hy
    by_cases hk : extractDispatcherKey link.details = some y.detail.key
    · -- the dispatcher is rebuilt, and the row of the member written anew
      have hns : netnsGone e y.detail.netns = false := by
        refine Bool.eq_false_iff.2 fun hgone => hup ⟨⟨y.detail.attachment, ?_, hgone⟩, ?_⟩
        · rw [hdata]
        · rw [hdata, hk]
          rfl
      obtain ⟨y', hy', hc⟩ := h.carried hs hk hmem hne hns
      have hrow' := ((mem_memberRows hs').1 hy').1
      rw [← hc.linkData hs hs' hy hrow']
      exact mem_linkSet hrow'.link
    · rw [← (h.sameAt hs hk).memberRows_eq hs hs'] at hmem
      have hrow' := ((mem_memberRows hs').1 hmem).1
      rw [hdata, ← linkData_member hs' hrow']
      exact mem_linkSet hrow'.link
  · have hl' := h.keeps_plain hs hl hkind hne
    rw [linkData_plain hs hl hkind, ← linkData_plain hs' hl' hkind]
    exact mem_linkSet hl'

theorem Unlinked.taken_down {b : Bool} (h : Unlinked e b link s s') (hs : s.Consistent)
    {l' : LinkRow} (hl : l ∈ s.links) (hdown : TakesDown e link (s.linkData l))
    (hl' : l' ∈ s'.links) : l'.id ≠ l.id := by
  intro hid
  have hs' := h.consistent hs
  obtain ⟨⟨a, ha, hgone⟩, hk⟩ := hdown
  obtain ⟨y, hy, rfl, rfl⟩ := exists_member_of_attachment hs hl ha
  rw [linkData_member hs hy] at hk
  have hmem : y ∈ s.memberRows y.detail.key := (mem_memberRows hs).2 ⟨hy, rfl⟩
  replace h : Detached e y.detail.key link.id s s' := h.of_key hk.symm
  have hno := h.gone hs hmem hgone
  -- the link has its detail row or is a plain one
  rcases h.links hl' with ⟨hl0, hnot⟩ | ⟨z, hz, -, hzid, -, hkind'⟩
  · refine hnot (mem_attachPointLinks.2 ⟨y.detail, hy.detail, rfl, ?_⟩)
    exact hy.link_id.symm.trans hid.symm
  · obtain ⟨d, hd, hdl⟩ := hs'.linkDetail l' hl' hkind'
    obtain ⟨d0, hd0, hid0, hk0⟩ := h.detail_of hs hd
    obtain ⟨r, hr, hrk, -⟩ := hs'.detailDispatcher d hd
    have hd₀y : d0 = y.detail := Table.eq_of_key hs.detailIDs hd0 hy.detail
      (hid0.trans (hdl.trans (hid.trans hy.link_id)))
    exact hno r hr (by rw [hrk, ← hk0, hd₀y])

/-- **A detach removes its link**, and the members of its dispatcher if the namespace is gone. -/
theorem Unlinked.linkSet (h : Unlinked e true link s s') (hs : s.Consistent)
    {links : List LinkRecord} (ha : Agrees s (link :: links)) :
    s'.linkSet = {n ∈ s.linkSet | n.id ≠ link.id ∧ ¬ TakesDown e link n} := by
  have hs' := h.consistent hs
  ext n
  constructor
  · rintro ⟨l', hl', rfl⟩
    have hne : l'.id ≠ link.id := h.ne_id hs ha hl'
    obtain ⟨l, hl, hid, -⟩ := h.link_of hs hl'
    have hup : ¬ TakesDown e link (s.linkData l) := fun hdown =>
      h.taken_down hs hl hdown hl' hid.symm
    -- the link is in the new store as it was, and there ids are unique
    have hdata := linkData_inj hs' (h.keeps_data hs hl (hid ▸ hne) hup) (mem_linkSet hl') hid
    rw [← hdata]
    exact ⟨mem_linkSet hl, fun heq => hne (hid.symm.trans heq), hup⟩
  · rintro ⟨⟨l, hl, rfl⟩, hne, hup⟩
    exact h.keeps_data hs hl hne hup

/-! ## Detach -/

/-- What a detach of `id` did to the store. -/
structure Removes (id : LinkID) (s s' : Store) : Prop where
  consistent : s'.Consistent
  links : s'.linkSet = {n ∈ s.linkSet | n.id ≠ id}
  programs : s'.programs = s.programs
  mapSets : s'.mapSets = s.mapSets

/-- **With no failing primitive** the detach of a link succeeds and removes the link only, if the
namespace of its dispatcher is there. -/
theorem detach_removes (hs : w.store.Consistent) (hl : l ∈ w.store.links)
    (hlive : ¬ (w.store.linkData l).gone e) (hq : Quiet (detach e l.id) w) :
    ∃ w', detach e l.id w = .ok () w' ∧ Removes l.id w.store w'.store := by
  have hrow : [l].Sublist w.store.links := List.singleton_sublist.2 hl
  have hp : Pending w.store [w.store.listRecord l] := pending_of_rows hs hrow
  have ha : Agrees w.store [w.store.listRecord l] := agrees_of_rows hs hrow
  obtain ⟨w', h⟩ : ∃ w', detach e (w.store.listRecord l).id w = .ok () w' := detach_isOk hs hp hq
  have hstep : Unlinked e true (w.store.listRecord l) w.store w'.store := unlinked_of_detach hs ha h
  refine ⟨w', h, hstep.consistent hs, ?_, hstep.tables.1, hstep.tables.2⟩
  have hup : ∀ n ∈ w.store.linkSet, ¬ TakesDown e (w.store.listRecord l) n := by
    rintro n hn ⟨hgone, hk⟩
    rw [key_listRecord hs hl] at hk
    obtain ⟨a, ha, -⟩ := id hgone
    have hkey : n.key = some a.key := by rw [LinkData.key, ha]; rfl
    exact hlive ((gone_iff hs (mem_linkSet hl) (hk.symm.trans hkey)).2
      ((gone_iff hs hn hkey).1 hgone))
  rw [hstep.linkSet hs ha]
  ext n
  exact and_congr_right fun hn => and_iff_left (hup n hn)

end Bpfman
