import Bpfman.Shell.Eval

/-!
# Null and no value

The value null and the absence of a value have the same tree and differ by their kind. A list
keeps the trees of its elements only, so the difference is lost when a value goes into one. What
comes out is decided by the step that reaches it: an index gives no value, a field gives null.

A value is carried by moves (`Move`) through lists, records, loop variables, destructuring, the
lists of bind-collect, parameters and returns. `Carried.path` leads from the value in hand to the
carried one.

* `Move.stays`: when a move keeps null, or no value, what it is.
* `stays_iff`: this is exact for one move. `null_stays_iff`: and for sequences of moves.
-/

namespace Bpfman.Shell

open Value

variable {p : List PathStep}

/-! ## Moves -/

/-- A value in hand and the path from it to the value that is carried. -/
structure Carried where
  held : Value
  path : List PathStep

inductive Move where
  /-- an element of a list literal -/
  | listLiteral (before after : List Value)
  /-- an element of the list of a bind-collect -/
  | collectList (before after : List Value)
  /-- a field of a record literal -/
  | recordField (others : List (String × Value)) (name : String)
  /-- an access `$x.f` or `$x[n]` -/
  | access
  /-- the variable of a foreach -/
  | iterate
  | destructure
  /-- an argument of a def, bound to its parameter -/
  | param
  /-- the value of a return, bound by a guard -/
  | ret

/-- The move on the value in hand; nothing where the source reports an error. -/
def Move.apply : Move → Carried → Option Carried
  | .listLiteral before after, c =>
    some ⟨.listLiteral (before ++ c.held :: after), .index before.length :: c.path⟩
  | .collectList before after, c =>
    some ⟨.valueList (before ++ c.held :: after), .index before.length :: c.path⟩
  | .recordField others name, c =>
    some ⟨.ofRecord (setField others name c.held), .field name :: c.path⟩
  | .access, ⟨v, s :: p⟩ =>
    match v.stepValue s with
    | .ok v' => some ⟨v', p⟩
    | .error _ => none
  | .iterate, ⟨v, .index n :: p⟩ => some ⟨v.indexValue n, p⟩
  | .destructure, ⟨v, .index n :: p⟩ => some ⟨v.indexValue n, p⟩
  | .param, c =>
    match valueToArg "" c.held with
    | .ok a => some ⟨argToValue a, c.path⟩
    | .error _ => none
  | .ret, c => some c
  | _, _ => none

/-- A sequence of moves. -/
def Carried.run (c : Carried) : List Move → Option Carried
  | [] => some c
  | m :: ms => (m.apply c).bind fun c' => c'.run ms

/-- Null, or no value. -/
inductive Leaf
  | null
  | absent
  deriving DecidableEq

def Leaf.value : Leaf → Value
  | null => .null
  | absent => .absent

/-- The last step of a path is a field. -/
def endsInField (p : List PathStep) : Bool :=
  match p.getLast? with
  | some (.field _) => true
  | _ => false

/-- When a move keeps the carried value what it is, given the path to it. -/
def Move.stays (l : Leaf) (p : List PathStep) : Move → Prop
  | .listLiteral _ _ => endsInField p = true ↔ l = .null
  | .collectList _ _ => endsInField p = true ↔ l = .null
  | .param => l = .null → p ≠ []
  | _ => True

/-- The path after a move. -/
def Move.pathAfter (p : List PathStep) : Move → List PathStep
  | .listLiteral before _ => .index before.length :: p
  | .collectList before _ => .index before.length :: p
  | .recordField _ name => .field name :: p
  | .access | .iterate | .destructure => p.tail
  | .param | .ret => p

/-- Every move of a sequence keeps the carried value what it is. -/
def StaysAll (l : Leaf) : List PathStep → List Move → Prop
  | _, [] => True
  | p, m :: ms => m.stays l p ∧ StaysAll l (m.pathAfter p) ms

/-! ## Trees and origins along a path -/

/-- The tree at a path. -/
def Raw.walk (r : Raw) : List PathStep → Option Raw
  | [] => some r
  | .index n :: p =>
    match r with
    | .list l => (elemAt l n).bind (Raw.walk · p)
    | _ => none
  | .field name :: p =>
    match r with
    | .map m => (m.lookup name).bind (Raw.walk · p)
    | _ => none

/-- The origin at a path. -/
def originWalk (o : Option Origin) : List PathStep → Option Origin
  | [] => o
  | s :: p => originWalk (o.bind (walkOrigin · s)) p

@[simp] theorem originWalk_none (p : List PathStep) : originWalk none p = none := by
  induction p with
  | nil => rfl
  | cons s p ih => simpa [originWalk] using ih

/-- The path leads to a null of the tree that has no origin, also through the fields of records. -/
def Leads (v : Value) : List PathStep → Prop
  | [] => v.raw = .null ∧ v.origin = none ∧ v.recordFields = none
  | s :: p =>
    v.raw.walk (s :: p) = some .null ∧ originWalk v.origin (s :: p) = none ∧ v.kind ≠ .null ∧
      match s, v.recordFields with
      | .field name, some fields => ∃ f, fields.lookup name = some f ∧ Leads f p
      | _, _ => True

theorem kindFor_ne_null (o : Origin) : o.kindFor ≠ .null := by
  have htype : ∀ t : GoType, t.kind ≠ .null := by
    intro t
    cases t <;> simp [GoType.kind]
  cases o <;> simp [Origin.kindFor, htype]

theorem walk_null : Raw.null.walk p = some .null ↔ p = [] := by
  cases p with
  | nil => simp [Raw.walk]
  | cons s p => cases s <;> simp [Raw.walk]

theorem walk_index {r x : Raw} {n : Int} (h : r.walk (.index n :: p) = some x) :
    ∃ l y, r = .list l ∧ elemAt l n = some y ∧ y.walk p = some x := by
  cases r with
  | list l => exact ⟨l, (Option.bind_eq_some_iff.1 h).imp fun _ hy => ⟨rfl, hy⟩⟩
  | _ => cases h

theorem walk_field {r x : Raw} {name : String} (h : r.walk (.field name :: p) = some x) :
    ∃ m y, r = .map m ∧ m.lookup name = some y ∧ y.walk p = some x := by
  cases r with
  | map m => exact ⟨m, (Option.bind_eq_some_iff.1 h).imp fun _ hy => ⟨rfl, hy⟩⟩
  | _ => cases h

/-- The kind of a null that a step reaches. -/
def PathStep.nullKind : PathStep → OriginKind
  | .field _ => .null
  | .index _ => .unknown

section Step

variable {v : Value} {s : PathStep} {p : List PathStep}

theorem ofStep_raw (r : Raw) (k : OriginKind) (sub : Option (Origin × OriginKind)) :
    (ofStep r k sub).raw = r ∧ (ofStep r k sub).recordFields = none ∧
      (ofStep r k sub).origin = sub.map Prod.fst ∧
      (sub = none → (ofStep r k sub).kind = k) ∧
      ∀ x, sub = some x → (ofStep r k sub).kind = x.2 := by
  cases sub <;> simp [ofStep]

theorem walkSuborigin_origin (o : Option Origin) (s : PathStep) :
    (walkSuborigin o s).map Prod.fst = o.bind (walkOrigin · s) ∧
      ∀ x, walkSuborigin o s = some x → x.2 ≠ .null := by
  constructor
  · simp [walkSuborigin, Function.comp_def]
  · intro x hx
    simp only [walkSuborigin, Option.map_eq_some_iff] at hx
    obtain ⟨o', -, rfl⟩ := hx
    exact kindFor_ne_null o'

/-- A step along the tree: the tree and the origin go one step, the record fields are gone, and a
null that has no origin gets its kind from the step. -/
theorem ofStep_walk {r : Raw} {k : OriginKind} {o : Option Origin}
    (hnull : r = .null → k = s.nullKind) (hother : r ≠ .null → k = .unknown) :
    let v' := ofStep r k (walkSuborigin o s)
    v'.raw = r ∧ v'.recordFields = none ∧ v'.origin = o.bind (walkOrigin · s) ∧
      (v'.origin = none → r = .null → v'.kind = s.nullKind) ∧ (r ≠ .null → v'.kind ≠ .null) := by
  intro v'
  obtain ⟨hraw, hrec, horigin, hnone, hsome⟩ := ofStep_raw r k (walkSuborigin o s)
  obtain ⟨hfst, hkind⟩ := walkSuborigin_origin o s
  refine ⟨hraw, hrec, horigin.trans hfst, ?_, ?_⟩
  · intro ho hr
    have hsub : walkSuborigin o s = none := by
      rw [show v'.origin = _ from horigin] at ho
      simpa using ho
    rw [show v'.kind = _ from hnone hsub, hnull hr]
  · intro hr
    cases hsub : walkSuborigin o s with
    | none =>
      rw [show v'.kind = _ from hnone hsub, hother hr]
      decide
    | some x =>
      rw [show v'.kind = _ from hsome x hsub]
      exact hkind x hsub

theorem stepValue_flat (hrec : v.recordFields = none ∨ ∃ n, s = .index n)
    (hwalk : v.raw.walk (s :: p) = some .null) :
    ∃ v', v.stepValue s = .ok v' ∧ (∀ n, s = .index n → v.indexValue n = v') ∧
      v'.recordFields = none ∧ v'.origin = v.origin.bind (walkOrigin · s) ∧
      v'.raw.walk p = some .null ∧
      (v'.origin = none → v'.raw = .null → v'.kind = s.nullKind) ∧
      (v'.raw ≠ .null → v'.kind ≠ .null) := by
  cases s with
  | index n =>
    obtain ⟨l, r, hr, helem, hrest⟩ := walk_index hwalk
    obtain ⟨h1, h2, h3, h4, h5⟩ :=
      ofStep_walk (s := .index n) (r := r) (k := .unknown) (o := v.origin) (fun _ => rfl)
        (fun _ => rfl)
    have hindex : v.indexValue n = ofStep r .unknown (walkSuborigin v.origin (.index n)) := by
      simp [indexValue, list?, hr, helem]
    refine ⟨_, ?_, ?_, h2, h3, by rw [h1]; exact hrest, by rwa [h1], by rwa [h1]⟩
    · simp [stepValue, list?, hr, helem, hindex]
    · rintro m ⟨⟩
      exact hindex
  | field name =>
    have hrec' : v.recordFields = none := by simpa using hrec
    obtain ⟨m, r, hr, hlook, hrest⟩ := walk_field hwalk
    obtain ⟨h1, h2, h3, h4, h5⟩ :=
      ofStep_walk (s := .field name) (r := r) (k := r.fieldKind) (o := v.origin)
        (by rintro rfl; rfl) (by cases r <;> simp [Raw.fieldKind])
    refine ⟨_, ?_, by simp, h2, h3, by rw [h1]; exact hrest, by rwa [h1], by rwa [h1]⟩
    simp [stepValue, hrec', hr, hlook]

end Step

/-! ## Values without record fields -/

/-- What a path finds where the tree is null. -/
def foundAt (p : List PathStep) : Value := if endsInField p then .null else .absent

@[simp] theorem endsInField_cons_cons (s t : PathStep) (p : List PathStep) :
    endsInField (s :: t :: p) = endsInField (t :: p) := by
  simp [endsInField, List.getLast?_cons_cons]

theorem leads_flat {v : Value} (hrec : v.recordFields = none)
    (hwalk : v.raw.walk p = some .null) (horigin : originWalk v.origin p = none)
    (hkind : v.raw ≠ .null → v.kind ≠ .null) : Leads v p := by
  cases p with
  | nil => exact ⟨by simpa [Raw.walk] using hwalk, horigin, hrec⟩
  | cons s p =>
    have hraw : v.raw ≠ .null := by
      intro hnull
      rw [hnull, walk_null] at hwalk
      cases hwalk
    refine ⟨hwalk, horigin, hkind hraw, ?_⟩
    rw [hrec]
    cases s <;> trivial

theorem lookupValue_cons {v v' : Value} {s : PathStep} (p : List PathStep)
    (h : v.stepValue s = .ok v') : v.lookupValue (s :: p) = v'.lookupValue p := by
  simp [lookupValue, h, bind, Except.bind]

theorem lookupValue_flat :
    ∀ {v : Value}, p ≠ [] → v.recordFields = none → v.raw.walk p = some .null →
      originWalk v.origin p = none → v.lookupValue p = .ok (foundAt p) := by
  induction p with
  | nil => exact fun h => absurd rfl h
  | cons s p ih =>
    intro v _ hrec hwalk horigin
    obtain ⟨v', hstep, -, hrec', ho', hwalk', hnull, -⟩ := stepValue_flat (.inl hrec) hwalk
    have horigin' : originWalk v'.origin p = none := by rw [ho']; exact horigin
    rw [lookupValue_cons p hstep]
    cases p with
    | nil =>
      -- the last step gives the null its kind
      have hraw : v'.raw = .null := by simpa [Raw.walk] using hwalk'
      have hkind := hnull horigin' hraw
      obtain ⟨r, o, k, fs⟩ := v'
      cases hraw
      cases horigin'
      cases hrec'
      cases hkind
      cases s <;> rfl
    | cons t p =>
      rw [ih (by simp) hrec' hwalk' horigin', foundAt, foundAt, endsInField_cons_cons]

/-! ## One move -/

theorem Leads.step {v v' : Value} {s : PathStep} (h : Leads v (s :: p))
    (hstep : v.stepValue s = .ok v') : Leads v' p := by
  obtain ⟨hwalk, horigin, -, hfields⟩ := h
  have flat : (v.recordFields = none ∨ ∃ n, s = .index n) → Leads v' p := by
    intro hrec
    obtain ⟨w, hw, -, hrec', ho', hwalk', -, hkind⟩ := stepValue_flat hrec hwalk
    obtain rfl : w = v' := by simpa [hw] using hstep
    exact leads_flat hrec' hwalk' (by rw [ho']; exact horigin) hkind
  cases s with
  | index n => exact flat (.inr ⟨n, rfl⟩)
  | field name =>
    cases hrec : v.recordFields with
    | none => exact flat (.inl hrec)
    | some fields =>
      rw [hrec] at hfields
      obtain ⟨f, hlook, hf⟩ := hfields
      simp only [stepValue, hrec, hlook, Except.ok.injEq] at hstep
      exact hstep ▸ hf

theorem Leads.walk {v : Value} (h : Leads v p) :
    v.raw.walk p = some .null ∧ originWalk v.origin p = none := by
  cases p with
  | nil => exact ⟨congrArg some h.1, h.2.1⟩
  | cons s p => exact ⟨h.1, h.2.1⟩

theorem unwrap_unwrap (o : Origin) : o.unwrap.unwrap = o.unwrap := by
  fun_induction Origin.unwrap o with
  | case1 o ih => exact ih
  | case2 o h => cases o <;> simp_all [Origin.unwrap]

theorem originWalk_unwrap {o : Option Origin} (h : originWalk o p = none) :
    originWalk (o.map Origin.unwrap) p = none := by
  cases o with
  | none => simp
  | some o =>
    cases p with
    | nil => cases h
    | cons s p =>
      have hwalk : walkOrigin o.unwrap s = walkOrigin o s := by
        simp only [walkOrigin, unwrap_unwrap]
      simpa [originWalk, hwalk] using h

/-- An element of a list: the tree of the value that went in, without its record fields. -/
theorem stepValue_list {before after : List Value} {v l : Value}
    (hl : l = .listLiteral (before ++ v :: after) ∨ l = .valueList (before ++ v :: after))
    (h : Leads v p) :
    Leads l (.index before.length :: p) ∧
      l.lookupValue (.index before.length :: p) = .ok (foundAt (.index before.length :: p)) := by
  have helem : ∀ {α : Type} (f : Value → α),
      elemAt ((before ++ v :: after).map f) (before.length : Int) = some (f v) := by
    simp [elemAt]
  obtain ⟨hraw, hrec, hkind⟩ : l.raw = .list ((before ++ v :: after).map raw) ∧
      l.recordFields = none ∧ l.kind ≠ .null := by
    rcases hl with rfl | rfl
    · unfold listLiteral
      split <;> exact ⟨rfl, rfl, nofun⟩
    · exact ⟨rfl, rfl, nofun⟩
  obtain ⟨hwalk, horigin⟩ := h.walk
  have hsub : l.origin.bind (walkOrigin · (.index before.length)) = v.origin.map Origin.unwrap := by
    have hseq : walkOrigin (.seq ((before ++ v :: after).map origin)) (.index before.length) =
        v.origin.map Origin.unwrap := by
      simp only [walkOrigin, Origin.unwrap, helem, Option.join_some]
    rcases hl with rfl | rfl
    · unfold listLiteral
      split
      · exact hseq
      · rename_i hany
        have hnone : v.origin = none := by
          by_contra hne
          exact hany (by simp [Option.isSome_iff_ne_none.2 hne])
        rw [hnone]
        rfl
    · exact hseq
  have hwalk' : l.raw.walk (.index before.length :: p) = some .null := by
    rw [hraw, Raw.walk, helem, Option.bind_some, hwalk]
  have horigin' : originWalk l.origin (.index before.length :: p) = none := by
    rw [originWalk, hsub]
    exact originWalk_unwrap horigin
  exact ⟨leads_flat hrec hwalk' horigin' fun _ => hkind,
    lookupValue_flat (by simp) hrec hwalk' horigin'⟩

theorem lookup_setField (fields : List (String × Value)) (name : String) (v : Value) :
    (setField fields name v).lookup name = some v := by
  unfold setField
  split
  · rename_i hany
    induction fields with
    | nil => simp at hany
    | cons f fs ih =>
      obtain ⟨k, y⟩ := f
      by_cases hf : k = name
      · simp [hf]
      · have hf' : (name == k) = false := by simpa using Ne.symm hf
        have hany' : fs.any fun f => f.1 == name := by simpa [hf] using hany
        simpa [hf, List.lookup_cons, hf'] using ih hany'
  · rename_i hany
    have hnone : fields.lookup name = none := List.lookup_eq_none_iff.2 (by grind)
    rw [List.lookup_append, hnone]
    simp

theorem lookup_map {β : Type} (f : Value → β) (name : String) :
    ∀ fields : List (String × Value),
      (fields.map fun x => (x.1, f x.2)).lookup name = (fields.lookup name).map f
  | [] => rfl
  | (k, v) :: xs => by
    by_cases hk : name == k
    · simp [List.lookup_cons, hk]
    · simp [List.lookup_cons, hk, lookup_map f name xs]

/-- A field of a record literal is the value that went in. -/
theorem stepValue_record (others : List (String × Value)) (name : String) {v : Value}
    (h : Leads v p) :
    Leads (.ofRecord (setField others name v)) (.field name :: p) ∧
      (ofRecord (setField others name v)).stepValue (.field name) = .ok v := by
  have hlook := lookup_setField others name v
  refine ⟨⟨?_, ?_, ?_, v, hlook, h⟩, ?_⟩
  · simp [ofRecord, Raw.walk, lookup_map, hlook, h.walk]
  · simp [ofRecord, originWalk]
  · simp [ofRecord]
  · simp [ofRecord, stepValue, hlook]

theorem null_ne_absent : Value.null ≠ Value.absent :=
  fun h => absurd (congrArg Value.kind h) (by decide)

theorem stays_leaf_iff {l : Leaf} : foundAt p = l.value ↔ (endsInField p = true ↔ l = .null) := by
  cases l with
  | null =>
    by_cases hp : endsInField p = true
    · simp [foundAt, Leaf.value, hp]
    · simp [foundAt, Leaf.value, hp, null_ne_absent.symm]
  | absent =>
    by_cases hp : endsInField p = true
    · simp [foundAt, Leaf.value, hp, null_ne_absent]
    · simp [foundAt, Leaf.value, hp]

/-- The carried value is what it was. -/
def Carried.Is (c : Carried) (l : Leaf) : Prop := c.held.lookupValue c.path = .ok l.value

theorem endsInField_index (n : Int) (p : List PathStep) :
    endsInField (.index n :: p) = endsInField p := by
  cases p with
  | nil => rfl
  | cons s p => exact endsInField_cons_cons _ _ _

theorem valueToArg_container {v : Value} {s : PathStep}
    (h : Leads v (s :: p)) : valueToArg "" v = .ok (.structured "" v) := by
  obtain ⟨hwalk, -, hkind, -⟩ := h
  have hstructured : v.isStructured = true ∧ v.rawNull = false := by
    cases hr : v.raw <;> cases s <;> simp_all [Raw.walk, isStructured, rawNull]
  have hnull : v.isNull = false := by simpa [isNull] using hkind
  simp [valueToArg, isNil, hstructured, hnull]

/-- **One move keeps null, or no value, what it is precisely when it should.** -/
theorem stays_iff {l : Leaf} {m : Move} {c c' : Carried} (hleads : Leads c.held c.path)
    (his : c.Is l) (hm : m.apply c = some c') :
    Leads c'.held c'.path ∧ c'.path = m.pathAfter c.path ∧ (c'.Is l ↔ m.stays l c.path) := by
  obtain ⟨v, path⟩ := c
  -- what a list gives back depends on the last step only
  have hlist : ∀ (before after : List Value) {w : Value},
      w = .listLiteral (before ++ v :: after) ∨ w = .valueList (before ++ v :: after) →
      Leads w (.index before.length :: path) ∧
        (Carried.Is ⟨w, .index before.length :: path⟩ l ↔
          (endsInField path = true ↔ l = .null)) := by
    intro before after w hw
    obtain ⟨hleads', hlook⟩ := stepValue_list hw hleads
    refine ⟨hleads', ?_⟩
    rw [Carried.Is, hlook, Except.ok.injEq, stays_leaf_iff, endsInField_index]
  -- an element reached by index
  have hindex : ∀ {n : Int} {p : List PathStep}, path = .index n :: p →
      Leads (v.indexValue n) p ∧ Carried.Is ⟨v.indexValue n, p⟩ l := by
    rintro n p rfl
    obtain ⟨v', hstep, hv', -⟩ := stepValue_flat (.inr ⟨n, rfl⟩) hleads.1
    rw [hv' n rfl]
    refine ⟨hleads.step hstep, ?_⟩
    rwa [Carried.Is, lookupValue_cons p hstep] at his
  cases m with
  | listLiteral before after =>
    cases hm
    obtain ⟨h1, h2⟩ := hlist before after (.inl rfl)
    exact ⟨h1, rfl, h2⟩
  | collectList before after =>
    cases hm
    obtain ⟨h1, h2⟩ := hlist before after (.inr rfl)
    exact ⟨h1, rfl, h2⟩
  | recordField others name =>
    cases hm
    obtain ⟨h1, h2⟩ := stepValue_record others name hleads
    refine ⟨h1, rfl, iff_of_true ?_ trivial⟩
    rw [Carried.Is, lookupValue_cons path h2]
    exact his
  | access =>
    cases path with
    | nil => cases hm
    | cons s p =>
      simp only [Move.apply] at hm
      cases hstep : v.stepValue s with
      | error e => simp [hstep] at hm
      | ok v' =>
        simp only [hstep, Option.some.injEq] at hm
        subst hm
        refine ⟨hleads.step hstep, rfl, iff_of_true ?_ trivial⟩
        rwa [Carried.Is, lookupValue_cons p hstep] at his
  | iterate | destructure =>
    cases path with
    | nil => cases hm
    | cons s p =>
      cases s with
      | field name => cases hm
      | index n =>
        cases hm
        obtain ⟨h1, h2⟩ := hindex rfl
        exact ⟨h1, rfl, iff_of_true h2 trivial⟩
  | param =>
    cases path with
    | nil =>
      -- both go through the argument that has no value
      have hv : v = l.value := by simpa [Carried.Is, lookupValue] using his
      have harg : valueToArg "" v = .ok .nil := by
        rw [hv]
        cases l <;> rfl
      simp only [Move.apply, harg, Option.some.injEq] at hm
      subst hm
      refine ⟨⟨rfl, rfl, rfl⟩, rfl, ?_⟩
      cases l with
      | null =>
        simpa [Carried.Is, lookupValue, argToValue, Move.stays, Leaf.value] using
          null_ne_absent.symm
      | absent => simp [Carried.Is, lookupValue, argToValue, Move.stays, Leaf.value]
    | cons s p =>
      simp only [Move.apply, valueToArg_container hleads, Option.some.injEq] at hm
      subst hm
      exact ⟨hleads, rfl, iff_of_true his (by simp [Move.stays])⟩
  | ret =>
    cases hm
    exact ⟨hleads, rfl, iff_of_true his trivial⟩

/-! ## Sequences of moves -/

/-- The carried value is what it was in every state of a sequence of moves. -/
def Carried.IsThroughout (l : Leaf) (c : Carried) : List Move → Prop
  | [] => c.Is l
  | m :: ms => c.Is l ∧ ∀ c', m.apply c = some c' → c'.IsThroughout l ms

theorem isThroughout_iff {l : Leaf} {ms : List Move} :
    ∀ {c c' : Carried}, Leads c.held c.path → c.Is l → c.run ms = some c' →
      (c.IsThroughout l ms ↔ StaysAll l c.path ms) := by
  induction ms with
  | nil => exact fun _ his _ => iff_of_true his trivial
  | cons m ms ih =>
    intro c c' hleads his hrun
    obtain ⟨c1, hm, hrest⟩ := Option.bind_eq_some_iff.1 hrun
    obtain ⟨hleads1, hpath, hiff⟩ := stays_iff hleads his hm
    rw [Carried.IsThroughout, StaysAll, ← hpath, ← hiff]
    constructor
    · rintro ⟨-, h⟩
      have hall := h c1 hm
      have his1 : c1.Is l := by
        cases ms with
        | nil => exact hall
        | cons m' ms => exact hall.1
      exact ⟨his1, (ih hleads1 his1 hrest).1 hall⟩
    · rintro ⟨his1, h⟩
      refine ⟨his, fun c2 hm2 => ?_⟩
      obtain rfl : c1 = c2 := by simpa [hm] using hm2
      exact (ih hleads1 his1 hrest).2 h

/-! ## The result -/

/-- `evalNullPredicate` on an argument that is a value; a bare word is the name of a variable, whose
value is looked up first. -/
def nullPredicate : Arg → Option Bool
  | .nil => some true
  | .missing _ _ => some false
  | .scalar _ v => some (v.isNull || v.isNil)
  | .structured _ v => some (v.isNull || v.isNil)
  | .quoted _ => some false
  | .adapter _ _ _ v => some (v.isNull || v.isNil)
  | .word _ => none

theorem compare_null_iff (v : Value) :
    evalCompare .eq v .null = .ok (.bool true) ↔ v.isNull = true := by
  have hnull : compareKind .null = some .null := rfl
  cases hv : v.isNull with
  | true =>
    have hk : compareKind v = some .null := by simp [compareKind, hv]
    simp [evalCompare, hnull, hk]
  | false =>
    have hk : compareKind v ≠ some .null := by
      unfold compareKind
      rw [hv]
      cases v.raw <;> simp
    cases hkind : compareKind v with
    | none => simp [evalCompare, hkind]
    | some k =>
      have hne : k ≠ .null := by
        rintro rfl
        exact hk hkind
      simp [evalCompare, hnull, hkind, hne, Value.bool]

/-- **Null stays null, and no value stays no value, precisely along the moves that `StaysAll`
describes.** Null is what compares equal to null; as an argument it satisfies the null predicate. -/
theorem null_stays_iff (l : Leaf) (ms : List Move) (c : Carried)
    (hrun : Carried.run ⟨l.value, []⟩ ms = some c) :
    (Carried.IsThroughout l ⟨l.value, []⟩ ms ↔ StaysAll l [] ms) ∧
    (∀ v, evalCompare .eq v .null = .ok (.bool true) ↔ v.isNull = true) ∧
    (∃ a, valueToArg "" .null = .ok a ∧ nullPredicate a = some true) := by
  refine ⟨isThroughout_iff ?_ rfl hrun, compare_null_iff, .nil, rfl, rfl⟩
  cases l <;> exact ⟨rfl, rfl, rfl⟩

/-- A null in a record in a list, out again by index and field. -/
theorem null_stays_iff_sample :
    let ms : List Move := [.recordField [] "a", .listLiteral [] [], .access, .access]
    Carried.run ⟨.null, []⟩ ms = some ⟨.null, []⟩ ∧ Carried.IsThroughout .null ⟨.null, []⟩ ms := by
  intro ms
  have hrun : Carried.run ⟨Leaf.null.value, []⟩ ms = some ⟨.null, []⟩ := rfl
  exact ⟨hrun, (null_stays_iff .null ms _ hrun).1.2
    ⟨trivial, ⟨fun _ => rfl, fun _ => rfl⟩, trivial, trivial, trivial⟩⟩

/-- The element of `[null]` and the parameter that gets a null are no value, and do not compare
with null; no value in the field of a record comes out of a list as null. -/
theorem null_is_lost :
    Carried.run ⟨.null, []⟩ [.listLiteral [] [], .access] = some ⟨.absent, []⟩ ∧
    Carried.run ⟨.null, []⟩ [.param] = some ⟨.absent, []⟩ ∧
    evalCompare .eq .absent .null ≠ .ok (.bool true) ∧
    Carried.run ⟨.absent, []⟩ [.recordField [] "a", .listLiteral [] [], .access, .access] =
      some ⟨.null, []⟩ := by
  refine ⟨rfl, rfl, ?_, rfl⟩
  rw [Ne, compare_null_iff]
  decide

end Bpfman.Shell
