import Bpfman.World

/-!
# The world: reading primitives backwards

What a primitive that succeeded or failed did, how the pins and directories look after a change,
and that the log of failed primitives only grows.
-/

namespace Bpfman

open Fallible

variable {α β : Type} {e : Env} {c : Call} {w w' : World} {f : Store → Except Err α}

/-! ## Primitives -/

/-- A lookup behind a check. -/
theorem guarded_eq_some {γ : Type} {P : Prop} [Decidable P] {o : Option β} {f : β → Option γ}
    {x : γ} : (do guard P; let y ← o; f y) = some x ↔ P ∧ ∃ y, o = some y ∧ f y = some x := by
  by_cases h : P <;> simp [guard, h, Option.bind_eq_some_iff]

theorem prim_eq_ok {f : World → Option (α × World)} {a : α} :
    prim e c f w = .ok a w' ↔ e.fails c = false ∧ f w = some (a, w') := by
  unfold prim
  cases hc : e.fails c with
  | true => simp
  | false =>
    cases hf : f w with
    | none => simp
    | some r => obtain ⟨a', w''⟩ := r; simp

/-- A lookup that reads nothing of the world. -/
theorem lookup_eq_ok {x : Option α} {a : α}
    (h : prim e c (fun w => x.map fun a => (a, w)) w = .ok a w') : x = some a ∧ w' = w := by
  obtain ⟨m, hm, ⟨⟩⟩ := Option.map_eq_some_iff.1 (prim_eq_ok.1 h).2
  exact ⟨hm, rfl⟩

theorem prim_eq_err {f : World → Option (α × World)} {err : Err} :
    prim e c f w = .err err w' ↔
      (e.fails c = true ∨ f w = none) ∧ err = .call c ∧ w' = w.fail c := by
  unfold prim
  cases hc : e.fails c with
  | true => simp [eq_comm]
  | false =>
    cases hf : f w with
    | none => simp [eq_comm]
    | some r => obtain ⟨a', w''⟩ := r; simp

theorem primErr_eq_ok {f : World → Except Err (α × World)} {a : α} :
    primErr e c f w = .ok a w' ↔ e.fails c = false ∧ f w = .ok (a, w') := by
  unfold primErr
  cases hc : e.fails c with
  | true => simp
  | false =>
    cases hf : f w with
    | error err => simp
    | ok r => obtain ⟨a', w''⟩ := r; simp

theorem primErr_eq_err {f : World → Except Err (α × World)} {err : Err}
    (h : primErr e c f w = .err err w') : w' = w.fail c := by
  unfold primErr at h
  split at h
  · simpa [eq_comm] using (Outcome.err.inj h).2
  · split at h
    · cases h
    · simpa [eq_comm] using (Outcome.err.inj h).2

theorem query_eq_ok {a : α} :
    query e c f w = .ok a w' ↔ e.fails c = false ∧ f w.store = .ok a ∧ w' = w := by
  unfold query
  cases hc : e.fails c with
  | true => simp
  | false =>
    cases hf : f w.store with
    | error err => simp
    | ok r => simp [eq_comm]

theorem query_eq_err {err : Err} (h : query e c f w = .err err w') :
    (w' = w.fail c ∧ isNotFound err = false) ∨
      (w' = w ∧ f w.store = .error err ∧ isNotFound err = true) := by
  unfold query at h
  split at h
  · obtain ⟨rfl, rfl⟩ := Outcome.err.inj h
    exact .inl ⟨rfl, rfl⟩
  · split at h
    · cases h
    · rename_i err' hf
      obtain ⟨rfl, hw⟩ := Outcome.err.inj h
      by_cases hn : isNotFound err' = true
      · rw [if_pos hn] at hw
        exact .inr ⟨hw.symm, hf, hn⟩
      · rw [if_neg hn] at hw
        exact .inl ⟨hw.symm, by simpa using hn⟩

@[simp] theorem fail_failed (w : World) (c : Call) : (w.fail c).failed = c :: w.failed := rfl

/-! ## Relations every primitive keeps -/

section Keeps

variable {R : World → World → Prop}

/-- If the effect of a primitive happens, it keeps the relation. -/
def Yields (R : World → World → Prop) (w : World) (o : Option (α × World)) : Prop :=
  ∀ a w', o = some (a, w') → R w w'

namespace Yields

theorem some {a : α} (h : R w w') : Yields R w (some (a, w')) := by
  rintro _ _ ⟨⟩
  exact h

theorem none : Yields R w (none : Option (α × World)) := nofun

theorem ite {P : Prop} [Decidable P] {o o' : Option (α × World)} (h : Yields R w o)
    (h' : Yields R w o') : Yields R w (if P then o else o') := by
  split
  · exact h
  · exact h'

theorem bind {o : Option β} {k : β → Option (α × World)} (h : ∀ x, Yields R w (k x)) :
    Yields R w (o >>= k) := by
  intro a w' ho
  obtain ⟨x, -, hx⟩ := Option.bind_eq_some_iff.1 ho
  exact h x a w' hx

theorem map {o : Option β} {k : β → α × World} (h : ∀ x, R w (k x).2) : Yields R w (o.map k) := by
  intro a w' ho
  obtain ⟨x, -, hx⟩ := Option.map_eq_some_iff.1 ho
  have hw := h x
  rwa [hx] at hw

end Yields

/-- A primitive keeps a relation that its effect and a log entry keep. -/
theorem keeps_prim (hfail : ∀ w c, R w (w.fail c)) {f : World → Option (α × World)}
    (hf : ∀ w, Yields R w (f w)) : Proc.Keeps R (prim e c f) := by
  intro w
  cases h : prim e c f w with
  | ok a w' => exact hf w a w' (prim_eq_ok.1 h).2
  | err err w' =>
    obtain ⟨-, -, rfl⟩ := prim_eq_err.1 h
    exact hfail w c

/-- A write of the store. -/
theorem write_eq_ok {g : World → Except Err β} {f : World → β → α × World} {a : α} :
    primErr e c (fun w => (g w).map (f w)) w = .ok a w' ↔
      e.fails c = false ∧ ∃ b, g w = .ok b ∧ f w b = (a, w') := by
  rw [primErr_eq_ok]
  cases g w <;> simp [Except.map]

/-- A write that gives back a row. -/
theorem rowWrite_eq_ok (g : Store → Except Err (Store × α)) {a : α} :
    primErr e c (fun w => (g w.store).map fun (s, x) => (x, { w with store := s })) w = .ok a w' ↔
      e.fails c = false ∧ g w.store = .ok (w'.store, a) ∧ w' = { w with store := w'.store } := by
  rw [write_eq_ok]
  refine and_congr_right fun _ => ⟨?_, fun ⟨h, hw⟩ => ⟨_, h, by rw [hw]⟩⟩
  rintro ⟨⟨s, x⟩, h, ⟨⟩⟩
  exact ⟨h, rfl⟩

theorem keeps_primErr (hfail : ∀ w c, R w (w.fail c)) {f : World → Except Err (α × World)}
    (hf : ∀ w a w', primErr e c f w = .ok a w' → R w w') : Proc.Keeps R (primErr e c f) := by
  intro w
  cases h : primErr e c f w with
  | ok a w' => exact hf w a w' h
  | err err w' =>
    rw [primErr_eq_err h]
    exact hfail w c

theorem keeps_write (hfail : ∀ w c, R w (w.fail c)) {g : World → Except Err β}
    {f : World → β → α × World} (hf : ∀ w b, g w = .ok b → R w (f w b).2) :
    Proc.Keeps R (primErr e c fun w => (g w).map (f w)) := by
  refine keeps_primErr hfail fun w a w' h => ?_
  obtain ⟨-, b, hb, heq⟩ := write_eq_ok.1 h
  have hw := hf w b hb
  rwa [heq] at hw

theorem keeps_query [Std.Refl R] (hfail : ∀ w c, R w (w.fail c)) : Proc.Keeps R (query e c f) := by
  intro w
  cases h : query e c f w with
  | ok a w' =>
    rw [(query_eq_ok.1 h).2.2]
    exact refl_of R w
  | err err w' =>
    rcases query_eq_err h with ⟨rfl, -⟩ | ⟨rfl, -, -⟩
    · exact hfail w c
    · exact refl_of R _

end Keeps

/-! ## The log -/

/-- The log of `w'` extends that of `w`. -/
abbrev Logs (w w' : World) : Prop := Proc.Extends World.failed w w'

/-- The run of `m` from `w` has no failed primitive. -/
abbrev Quiet (m : M α) (w : World) : Prop := Proc.Quiet World.failed m w

theorem logs_fail (w : World) (c : Call) : Logs w (w.fail c) := List.suffix_cons _ _

theorem logs_of_eq (h : w'.failed = w.failed) : Logs w w' := by
  unfold Logs Proc.Extends
  rw [h]

/-- The procedure extends the log and fails only by a failed primitive. -/
abbrev Journaled (m : M α) : Prop := Proc.Journaled World.failed m

theorem ne_of_cons {l : List Call} : c :: l ≠ l := fun h => by
  have := congrArg List.length h
  simp at this

theorem journaled_prim {f : World → Option (α × World)}
    (hf : ∀ w, Yields (fun w w' => w'.failed = w.failed) w (f w)) : Journaled (prim e c f) := by
  refine ⟨keeps_prim logs_fail fun w a w' h => logs_of_eq (hf w a w' h), fun w err w' h => ?_⟩
  obtain ⟨-, -, rfl⟩ := prim_eq_err.1 h
  exact ne_of_cons

theorem journaled_write {g : World → Except Err β} {f : World → β → α × World}
    (hf : ∀ w b, (f w b).2.failed = w.failed) :
    Journaled (primErr e c fun w => (g w).map (f w)) := by
  refine ⟨keeps_write logs_fail fun w b _ => logs_of_eq (hf w b), fun w err w' h => ?_⟩
  rw [primErr_eq_err h]
  exact ne_of_cons

theorem logs_query : Proc.Keeps Logs (query e c f) :=
  keeps_query logs_fail

/-- A quiet query returned a row or found none. -/
theorem quiet_query (h : Quiet (query e c f) w) :
    (∃ a, f w.store = .ok a ∧ query e c f w = .ok a w) ∨
      ∃ err, f w.store = .error err ∧ isNotFound err = true ∧ query e c f w = .err err w := by
  cases hq : query e c f w with
  | ok a w' =>
    obtain ⟨-, hf, rfl⟩ := query_eq_ok.1 hq
    exact .inl ⟨a, hf, rfl⟩
  | err err w' =>
    rcases query_eq_err hq with ⟨rfl, -⟩ | ⟨rfl, hf, hn⟩
    · rw [Quiet, Proc.Quiet, hq] at h
      exact absurd h ne_of_cons
    · exact .inr ⟨err, hf, hn, rfl⟩

/-- If it cannot have missed, it returned a row. -/
theorem query_of_quiet (h : Quiet (query e c f) w)
    (hf : ∀ err, f w.store = .error err → isNotFound err = false) :
    ∃ a, f w.store = .ok a ∧ query e c f w = .ok a w := by
  rcases quiet_query h with hok | ⟨err, herr, hn, -⟩
  · exact hok
  · rw [hf err herr] at hn
    cases hn

/-- What begins with such a query goes on with the row. -/
theorem query_bind_of_quiet {g : Err → Err} {k : α → M β}
    (h : Quiet (Proc.mapErr g (query e c f) >>= k) w) (hk : ∀ a, Proc.Keeps Logs (k a))
    (hf : ∀ err, f w.store = .error err → isNotFound err = false) :
    ∃ a, f w.store = .ok a ∧ (Proc.mapErr g (query e c f) >>= k) w = k a w ∧ Quiet (k a) w := by
  obtain ⟨hq, hnext⟩ := h.split logs_query.mapErr hk
  obtain ⟨a, ha, hok⟩ := query_of_quiet hq.of_mapErr hf
  have hok' := (Proc.mapErr_eq_ok (g := g)).2 hok
  exact ⟨a, ha, Proc.bind_of_ok hok', hnext hok'⟩

/-- A query that always has an answer fails only by a failed call. -/
theorem journaled_query (hf : ∀ s, ∃ a, f s = .ok a) : Journaled (query e c f) := by
  refine ⟨logs_query, fun w err w' h heq => ?_⟩
  rcases query_eq_err h with ⟨rfl, -⟩ | ⟨-, herr, -⟩
  · exact ne_of_cons heq
  · obtain ⟨a, ha⟩ := hf w.store
    rw [ha] at herr
    cases herr

/-! ## Procedures beside the store

The adapters of the kernel and the file system neither read nor write the store, and of the log they
only extend it by their failed calls. -/

def SameStore (w w' : World) : Prop := w'.store = w.store

instance : Std.Refl SameStore := ⟨fun _ => rfl⟩

instance : IsTrans World SameStore := ⟨fun _ _ _ h h' => h'.trans h⟩

/-- The world with earlier entries `t` in the log. -/
def World.relog (w : World) (t : List Call) : World := { w with failed := w.failed ++ t }

/-- The world with another store and another log. -/
def World.beside (w : World) (s : Store) (l : List Call) : World :=
  { w with store := s, failed := l }

/-- An effect that neither looks at the store and the log nor changes them. -/
def Aside (f : World → Option (α × World)) : Prop :=
  ∀ w s l, f (w.beside s l) = (f w).map fun x => (x.1, x.2.beside s l)

namespace Aside

variable {f g : World → Option (α × World)}

theorem none : Aside fun _ => (none : Option (α × World)) := fun _ _ _ => rfl

theorem ite {P : World → Prop} [∀ w, Decidable (P w)]
    (hP : ∀ w s l, P (w.beside s l) ↔ P w) (hf : Aside f) (hg : Aside g) :
    Aside fun w => if P w then f w else g w := fun w s l => by
  show (if P (w.beside s l) then _ else _) = Option.map _ (if P w then _ else _)
  simp only [hP, hf w s l, hg w s l]
  split <;> rfl

theorem bind {o : World → Option β} {k : β → World → Option (α × World)}
    (ho : ∀ w s l, o (w.beside s l) = o w) (hk : ∀ x, Aside (k x)) :
    Aside fun w => o w >>= fun x => k x w := fun w s l => by
  show (o (w.beside s l) >>= _) = (o w >>= _).map _
  rw [ho]
  cases o w with
  | none => rfl
  | some x => exact hk x w s l

theorem same (hf : Aside f) {a : α} (h : f w = .some (a, w')) :
    w'.failed = w.failed ∧ w'.store = w.store := by
  have heq := hf w w.store w.failed
  rw [show w.beside w.store w.failed = w from rfl, h] at heq
  have hw := (Prod.mk.inj (Option.some.inj heq)).2
  exact ⟨(congrArg World.failed hw).trans rfl, (congrArg World.store hw).trans rfl⟩

end Aside

/-- A procedure that leaves the store alone and, but for its own failed calls, the log. -/
structure Adapts (m : M α) : Prop where
  journaled : Journaled m
  store : Proc.Keeps SameStore m
  unread : ∀ t, Proc.Commutes (World.relog · t) m

namespace Adapts

variable {f : World → Option (α × World)} {m n : M α} {k : α → M β}

theorem logs (h : Adapts m) : Proc.Keeps Logs m := h.journaled.extend

theorem prim (hf : Aside f) : Adapts (prim e c f) where
  journaled := journaled_prim fun _ _ _ h => (hf.same h).1
  store := keeps_prim (fun _ _ => rfl) fun _ _ _ h => (hf.same h).2
  unread t w := by
    have hrun : f (w.relog t) = (f w).map fun x => (x.1, x.2.relog t) := by
      refine (hf w w.store (w.failed ++ t)).trans (Option.map_congr fun x hx => ?_)
      obtain ⟨hlog, hst⟩ := hf.same hx
      rw [← hlog, ← hst]
      rfl
    unfold Bpfman.prim
    cases hc : e.fails c with
    | true => rfl
    | false =>
      rw [hrun]
      cases f w <;> rfl

theorem pure (a : α) : Adapts (Pure.pure a) := ⟨.pure a, .pure a, fun _ => .pure a⟩

theorem bind (h : Adapts m) (hk : ∀ a, Adapts (k a)) : Adapts (m >>= k) :=
  ⟨h.journaled.bind fun a => (hk a).journaled, h.store.bind fun a => (hk a).store,
    fun t => (h.unread t).bind fun a => (hk a).unread t⟩

theorem ite {P : Prop} [Decidable P] (h : Adapts m) (h' : Adapts n) :
    Adapts (if P then m else n) := by
  split <;> assumption

theorem ignore (h : Adapts m) : Adapts (Proc.ignore m) :=
  ⟨.ignore h.logs, h.store.ignore, fun t => (h.unread t).ignore⟩

theorem mapErr {g : Err → Err} (h : Adapts m) : Adapts (Proc.mapErr g m) :=
  ⟨h.journaled.mapErr, h.store.mapErr, fun t => (h.unread t).mapErr⟩

theorem onErr {n : M β} (h : Adapts m) (h' : Adapts n) : Adapts (Proc.onErr m n) :=
  ⟨h.journaled.onErr h'.logs, h.store.onErr h'.store, fun t => (h.unread t).onErr (h'.unread t)⟩

theorem forEach {f : β → M Unit} (h : ∀ b, Adapts (f b)) (bs : List β) :
    Adapts (Proc.forEach f bs) :=
  ⟨.forEach fun b _ => (h b).journaled, .forEach fun b _ => (h b).store,
    fun t => .forEach (fun b => (h b).unread t) bs⟩

end Adapts

/-! ## Pins and directories -/

namespace World

theorem prog?_addProg (p q : ProgPinPath) (x : Prog) :
    (w.addProg p x).prog? q = if q = p then some x else w.prog? q := Table.lookup_cons q p x

theorem link?_addLink (p q : LinkPath) (x : Link) :
    (w.addLink p x).link? q = if q = p then some x else w.link? q := Table.lookup_cons q p x

theorem prog?_eraseProg (p q : ProgPinPath) :
    (w.eraseProg p).prog? q = if q = p then none else w.prog? q :=
  Table.lookup_drop (· = p) q

theorem link?_eraseLink (p q : LinkPath) :
    (w.eraseLink p).link? q = if q = p then none else w.link? q :=
  Table.lookup_drop (· = p) q

theorem link?_setLink (p q : LinkPath) (x : Link) :
    (w.setLink p x).link? q =
      if q = p then (if (w.link? p).isSome then some x else none) else w.link? q :=
  Table.lookup_set p x q

theorem prog?_removeAll (d : Dir) (q : ProgPinPath) :
    (w.removeAll d).prog? q = if q.parent = d then none else w.prog? q :=
  Table.lookup_drop (ProgPinPath.parent · = d) q

theorem link?_removeAll (d : Dir) (q : LinkPath) :
    (w.removeAll d).link? q = if q.parent = d then none else w.link? q :=
  Table.lookup_drop (LinkPath.parent · = d) q

theorem map?_addMap (p q : MapPinPath) (x : MapID) :
    (w.addMap p x).map? q = if q = p then some x else w.map? q := Table.lookup_cons q p x

theorem map?_eraseMap (p q : MapPinPath) :
    (w.eraseMap p).map? q = if q = p then none else w.map? q :=
  Table.lookup_drop (· = p) q

theorem map?_removeAll (d : Dir) (q : MapPinPath) :
    (w.removeAll d).map? q = if q.parent = d then none else w.map? q :=
  Table.lookup_drop (MapPinPath.parent · = d) q

theorem mkdirAll_of_subset {d : Dir} (h : d.chain.toFinset ⊆ w.dirs) : w.mkdirAll d = w := by
  unfold mkdirAll
  rw [Finset.union_eq_left.2 h]

theorem chain_subset_mkdirAll (d : Dir) : d.chain.toFinset ⊆ (w.mkdirAll d).dirs :=
  Finset.subset_union_right

theorem dirEmpty_of_prog {d : Dir} {p : ProgPinPath} (hp : p.parent = d)
    (h : (w.prog? p).isSome) : w.dirEmpty d = false := by
  obtain ⟨x, hx⟩ := Option.isSome_iff_exists.1 h
  have hmem : ∃ y ∈ w.progPins, y.1 = p := by
    by_contra hno
    have : w.prog? p = none := Table.lookup_eq_none.2 fun y hy hyp => hno ⟨y, hy, hyp⟩
    rw [this] at hx
    cases hx
  obtain ⟨y, hy, rfl⟩ := hmem
  have hall : w.progPins.all (fun z => decide (z.1.parent ≠ d)) = false := by
    rw [List.all_eq_false]
    exact ⟨y, hy, by simp [hp]⟩
  simp only [dirEmpty, hall, Bool.false_and]

theorem rmdir_of_not_empty {d : Dir} (h : w.dirEmpty d = false) : w.rmdir d = w := by
  simp [rmdir, h]

/-- Removing a directory changes nothing but the directories. -/
theorem rmdir_eq (w : World) (d : Dir) : ∃ D, w.rmdir d = { w with dirs := D } := by
  unfold rmdir
  split
  · exact ⟨_, rfl⟩
  · exact ⟨w.dirs, rfl⟩

end World

section Rmdir

variable (w : World) (d : Dir)

theorem rmdir_store : (w.rmdir d).store = w.store := by
  obtain ⟨D, hD⟩ := w.rmdir_eq d
  rw [hD]

theorem rmdir_progPins : (w.rmdir d).progPins = w.progPins := by
  obtain ⟨D, hD⟩ := w.rmdir_eq d
  rw [hD]

theorem rmdir_mapPins : (w.rmdir d).mapPins = w.mapPins := by
  obtain ⟨D, hD⟩ := w.rmdir_eq d
  rw [hD]

theorem rmdir_bytecode : (w.rmdir d).bytecode = w.bytecode := by
  obtain ⟨D, hD⟩ := w.rmdir_eq d
  rw [hD]

end Rmdir

theorem mem_rmdir_of_ne {d d' : Dir} (h : d' ≠ d) : d' ∈ (w.rmdir d).dirs ↔ d' ∈ w.dirs := by
  unfold World.rmdir
  split
  · simp [h]
  · rfl

end Bpfman
