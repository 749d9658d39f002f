import Bpfman.Shell.Eval

/-!
# `matches` blocks

A block can have blocks at its paths, and everything said here of the report on a block
(`evalMatchesAgainst`) is said of those that it reaches in the value (`Reaches`).

* The list is empty precisely when every block reached is fulfilled, but a nested block is never
  asked for its preconditions (`nested_preconditions_iff`).
* The keys that an exhaustive block does not claim are listed in the order of a Go map: the report
  is the same every time precisely when no block reached leaves two of them (`report_fixed_iff`).
* `not-empty` in a row and in an expression answer alike precisely when a number is one that
  `ParseFloat` reads (`notEmpty_agrees_iff`).
-/

namespace Bpfman.Shell

open List

/-! ## What a block asks -/

section

variable (lib : GoLib)

/-- The blocks that are held against a value, each at its own value. -/
inductive Reaches : Value → MatchesBlock → Value → MatchesBlock → Prop
  | self (v : Value) (b : MatchesBlock) : Reaches v b v b
  | sub {v w u : Value} {pos pos' : SourcePos} {exhaustive : Bool} {entries : List MatchesRow}
      {path : String} {b c : MatchesBlock} (he : .sub pos' path b ∈ entries)
      (hw : v.resolve path = some w) (h : Reaches w b u c) :
      Reaches v (.mk pos exhaustive entries) u c

/-- The value has what the test asks. -/
def MatchesTest.Holds (actual : Value) : MatchesTest → Prop
  | .notEmpty => isMatchesEmpty actual = false
  | .null => actual.isNullish = true
  | .empty => actual.isNullish = false ∧ isMatchesEmpty actual = true
  | .equal v => matchesValueEqual lib actual v = true

/-- The path resolves, and the test holds there. -/
def MatchesRow.Holds (v : Value) : MatchesRow → Prop
  | .test _ path t => ∃ u, v.resolve path = some u ∧ t.Holds lib u
  | .sub _ path _ => ∃ u, v.resolve path = some u

/-- The rows of a block hold and, if it is exhaustive, claim every key of an object. -/
structure Fulfilled (v : Value) (b : MatchesBlock) : Prop where
  object : b.exhaustive = true → v.isObject = true
  rows : ∀ e ∈ b.entries, e.Holds lib v
  claimed : b.exhaustive = true → ∀ k ∈ v.keys, k ∈ b.entries.map MatchesRow.path

/-- The preconditions of a block. -/
def Applies (v : Value) (b : MatchesBlock) : Prop :=
  v.isStructured = true ∧ (b.entries = [] → b.exhaustive = true)

/-- A `range` goes through all keys, in whatever order. -/
def KeyOrder.Fair (order : KeyOrder) : Prop := ∀ pos keys, (order pos keys).Perm keys

end

variable {lib : GoLib} {order order' : KeyOrder} {v : Value} {name shown : String}
  {pos : SourcePos} {exhaustive : Bool} {entries : List MatchesRow} {b : MatchesBlock}

theorem forall_reaches_iff {P : Value → MatchesBlock → Prop} :
    (∀ u c, Reaches v (.mk pos exhaustive entries) u c → P u c) ↔
      P v (.mk pos exhaustive entries) ∧ ∀ pos' path b w, .sub pos' path b ∈ entries →
        v.resolve path = some w → ∀ u c, Reaches w b u c → P u c := by
  constructor
  · intro h
    exact ⟨h _ _ (.self _ _), fun pos' path b w he hw u c hr => h u c (.sub he hw hr)⟩
  · rintro ⟨hself, hsub⟩ u c hr
    cases hr with
    | self => exact hself
    | sub he hw h => exact hsub _ _ _ _ he hw u c h

/-! ## Walking through a block

A report is put together by appending. What is said of two reports and kept by appending (`Walks`)
follows for a block from what is said of the parts at the blocks reached. -/

/-- Two reports in relation `R` to what their parts say: `first` and `last` of the two parts of an
exhaustive block, `row` of a row that leads to no block. -/
structure Walks (lib : GoLib) (order order' : KeyOrder)
    (R : List MatchMismatch → List MatchMismatch → Prop → Prop)
    (first : Value → MatchesBlock → Prop) (row : Value → MatchesRow → Prop)
    (last : Value → MatchesBlock → Prop) : Prop where
  nil : R [] [] True
  append {l l' m m' : List MatchMismatch} {P Q : Prop} (h : R l l' P) (h' : R m m' Q) :
    R (l ++ m) (l' ++ m') (P ∧ Q)
  object (v : Value) (shown : String) (b : MatchesBlock) :
    R (objectMismatch v shown b) (objectMismatch v shown b) (first v b)
  keys (v : Value) (shown : String) (b : MatchesBlock) :
    R (keyMismatches order v shown b) (keyMismatches order' v shown b) (last v b)
  single (v : Value) (name shown : String) (e : MatchesRow)
    (h : ∀ pos path b w, e = .sub pos path b → v.resolve path ≠ some w) :
    R (evalMatchesEntry lib order v name shown e) (evalMatchesEntry lib order' v name shown e)
      (row v e)
  sub {v w : Value} {pos : SourcePos} {path : String} {b : MatchesBlock}
    (h : v.resolve path = some w) : row v (.sub pos path b)

namespace Walks

variable {R : List MatchMismatch → List MatchMismatch → Prop → Prop}
  {first last : Value → MatchesBlock → Prop} {row : Value → MatchesRow → Prop}

/-- What is said at a block. -/
def Says (first : Value → MatchesBlock → Prop) (row : Value → MatchesRow → Prop)
    (last : Value → MatchesBlock → Prop) (v : Value) (b : MatchesBlock) : Prop :=
  first v b ∧ (∀ e ∈ b.entries, row v e) ∧ last v b

theorem of_iff {l l' : List MatchMismatch} {P Q : Prop} (h : R l l' P) (hpq : P ↔ Q) : R l l' Q :=
  propext hpq ▸ h

mutual

theorem against (h : Walks lib order order' R first row last) :
    ∀ (b : MatchesBlock) (v : Value) (name shown : String),
      R (evalMatchesAgainst lib order v name shown b)
        (evalMatchesAgainst lib order' v name shown b)
        (∀ u c, Reaches v b u c → Says first row last u c)
  | .mk pos exhaustive entries, v, name, shown => by
    rw [evalMatchesAgainst, evalMatchesAgainst, forall_reaches_iff]
    have hparts := h.append (h.object v shown (.mk pos exhaustive entries))
      (h.append (h.rows entries v name shown) (h.keys v shown (.mk pos exhaustive entries)))
    refine of_iff hparts ?_
    exact ⟨fun ⟨h1, ⟨h2, h3⟩, h4⟩ => ⟨⟨h1, h2, h4⟩, h3⟩,
      fun ⟨⟨h1, h2, h4⟩, h3⟩ => ⟨h1, ⟨h2, h3⟩, h4⟩⟩

theorem rows (h : Walks lib order order' R first row last) :
    ∀ (es : List MatchesRow) (v : Value) (name shown : String),
      R (evalMatchesEntries lib order v name shown es)
        (evalMatchesEntries lib order' v name shown es)
        ((∀ e ∈ es, row v e) ∧ ∀ pos path b w, .sub pos path b ∈ es →
          v.resolve path = some w →
            ∀ u c, Reaches w b u c → Says first row last u c)
  | [], v, name, shown => by
    rw [evalMatchesEntries, evalMatchesEntries]
    exact of_iff h.nil (iff_of_true trivial ⟨nofun, nofun⟩)
  | e :: es, v, name, shown => by
    rw [evalMatchesEntries, evalMatchesEntries]
    refine of_iff (h.append (h.entry e v name shown) (h.rows es v name shown)) ⟨?_, ?_⟩
    · rintro ⟨⟨hrow, hsub⟩, hrows, hsubs⟩
      exact ⟨forall_mem_cons.2 ⟨hrow, hrows⟩, fun pos path b w he => (mem_cons.1 he).elim
        (fun heq => hsub pos path b w heq.symm) (hsubs pos path b w)⟩
    · rintro ⟨hrows, hsubs⟩
      obtain ⟨hrow, hrows⟩ := forall_mem_cons.1 hrows
      exact ⟨⟨hrow, fun pos path b w heq => hsubs pos path b w (heq ▸ mem_cons_self)⟩, hrows,
        fun pos path b w he => hsubs pos path b w (mem_cons_of_mem e he)⟩

theorem entry (h : Walks lib order order' R first row last) :
    ∀ (e : MatchesRow) (v : Value) (name shown : String),
      R (evalMatchesEntry lib order v name shown e) (evalMatchesEntry lib order' v name shown e)
        (row v e ∧ ∀ pos path b w, e = .sub pos path b →
          v.resolve path = some w →
            ∀ u c, Reaches w b u c → Says first row last u c)
  | .test pos path t, v, name, shown =>
    of_iff (h.single v name shown _ nofun) (and_iff_left nofun).symm
  | .sub pos path b, v, name, shown => by
    cases hl : v.lookupPath lib name path with
    | error err =>
      have hne : ∀ pos' path' b' w, MatchesRow.sub pos path b = .sub pos' path' b' →
          v.resolve path' ≠ some w := by
        rintro _ _ _ w ⟨⟩ hw
        cases hl.symm.trans (Value.lookupPath_eq_ok.2 hw)
      exact of_iff (h.single v name shown _ hne)
        (and_iff_left fun pos' path' b' w heq hw => absurd hw (hne pos' path' b' w heq)).symm
    | ok w =>
      rw [evalMatchesEntry, evalMatchesEntry, hl]
      replace hl := Value.lookupPath_eq_ok.1 hl
      refine of_iff (h.against b w _ _)
        ⟨fun hb => ⟨h.sub hl, ?_⟩, fun hh => hh.2 pos path b w rfl hl⟩
      rintro _ _ _ w' ⟨⟩ hw
      cases hl.symm.trans hw
      exact hb

end

end Walks

theorem evalMatchesTarget_of_applies (h : Applies v b) :
    evalMatchesTarget lib order v name b = .ok (evalMatchesAgainst lib order v name "" b) := by
  obtain ⟨hs, he⟩ := h
  unfold evalMatchesTarget
  rw [if_neg (by simp [hs]), if_neg]
  simpa using he

theorem evalMatchesTarget_of_not_applies (h : ¬ Applies v b) :
    ∃ msg, ∀ order, evalMatchesTarget lib order v name b = .error msg := by
  unfold evalMatchesTarget
  by_cases hs : v.isStructured = true
  · have he : (b.entries.isEmpty && !b.exhaustive) = true := by
      simpa [Applies, hs] using h
    exact ⟨_, fun order => by rw [if_neg (by simp [hs]), if_pos he]⟩
  · exact ⟨_, fun order => if_pos (by simpa using hs)⟩

/-! ## Nested blocks -/

theorem MatchesTest.mismatch_eq_none {t : MatchesTest} :
    t.mismatch lib v = none ↔ t.Holds lib v := by
  cases t with
  | empty => cases hn : v.isNullish <;> simp [mismatch, Holds, hn]
  | _ => simp [mismatch, Holds]

/-- A report is empty when all its parts are. -/
theorem walks_eq_nil (ho : order.Fair) : Walks lib order order (fun l _ P => l = [] ↔ P)
    (fun v b => b.exhaustive = true → v.isObject = true) (MatchesRow.Holds lib)
    (fun v b => b.exhaustive = true → ∀ k ∈ v.keys, k ∈ b.entries.map MatchesRow.path) where
  nil := by simp
  append h h' := by rw [append_eq_nil_iff, h, h']
  object v shown b := by simp [objectMismatch]
  keys v shown b := by
    simp [keyMismatches, unclaimed, (ho b.pos v.keys).mem_iff]
  single v name shown e h := by
    cases e with
    | test pos path t =>
      rw [evalMatchesEntry, MatchesRow.Holds]
      simp only [← @Value.lookupPath_eq_ok lib _ _ name]
      cases v.lookupPath lib name path <;>
        simp [Option.toList_eq_nil_iff, MatchesTest.mismatch_eq_none]
    | sub pos path b =>
      rw [evalMatchesEntry, MatchesRow.Holds]
      simp only [← @Value.lookupPath_eq_ok lib _ _ name]
      cases hl : v.lookupPath lib name path with
      | error err => simp
      | ok w => exact absurd (Value.lookupPath_eq_ok.1 hl) (h pos path b w rfl)
  sub h := ⟨_, h⟩

/-- Nothing is listed precisely when every block reached is fulfilled. -/
theorem evalMatchesAgainst_eq_nil (ho : order.Fair) (b : MatchesBlock) (v : Value)
    (name shown : String) : evalMatchesAgainst lib order v name shown b = [] ↔
      ∀ u c, Reaches v b u c → Fulfilled lib u c := by
  rw [(walks_eq_nil ho).against b v name shown]
  exact forall₃_congr fun u c _ =>
    ⟨fun ⟨h1, h2, h3⟩ => ⟨h1, h2, h3⟩, fun ⟨h1, h2, h3⟩ => ⟨h1, h2, h3⟩⟩

/-- The answer is the one the rows ask for, and a block that does not meet the preconditions is an
error, wherever it stands. -/
def AnswersRight (lib : GoLib) (v : Value) (name : String) (b : MatchesBlock) : Prop :=
  ∀ order : KeyOrder, order.Fair →
    (Applies v b → (evalMatchesTarget lib order v name b = .ok [] ↔
      ∀ u c, Reaches v b u c → Fulfilled lib u c)) ∧
    ∀ u c, Reaches v b u c → ¬ Applies u c →
      ∃ msg, evalMatchesTarget lib order v name b = .error msg

theorem fair_id : KeyOrder.Fair fun _ keys => keys := fun _ keys => Perm.refl keys

/-- **A block answers as it should precisely when all blocks nested in it that are reached meet the
preconditions.** -/
theorem nested_preconditions_iff (lib : GoLib) (v : Value) (name : String)
    (b : MatchesBlock) : AnswersRight lib v name b ↔
      (Applies v b → ∀ u c, Reaches v b u c → Applies u c) := by
  constructor
  · intro h ha u c hr
    by_contra hc
    obtain ⟨msg, hmsg⟩ := (h _ fair_id).2 u c hr hc
    rw [evalMatchesTarget_of_applies ha] at hmsg
    cases hmsg
  · intro h order ho
    refine ⟨fun ha => ?_, fun u c hr hc => ?_⟩
    · rw [evalMatchesTarget_of_applies ha, Except.ok.injEq]
      exact evalMatchesAgainst_eq_nil ho b v name ""
    · obtain ⟨msg, hmsg⟩ := evalMatchesTarget_of_not_applies fun ha => hc (h ha u c hr)
      exact ⟨msg, hmsg order⟩

namespace Sample

def goLib : GoLib where
  marshal _ := ""
  deepEqual _ _ := false
  quote s := s

end Sample

/-- `{"a": "x"}` matches `{ a: matches { } }`, though the nested block has no entry and its target
is no structure. -/
theorem empty_nested_block_matches : ¬ AnswersRight Sample.goLib
    (.ofRaw (.map [("a", .str "x")])) "v"
    (.mk (1, 1) false [.sub (2, 1) "a" (.mk (2, 4) false [])]) := by
  intro h
  obtain ⟨msg, hmsg⟩ := (h _ fair_id).2 _ _
    (.sub mem_cons_self rfl (.self (.ofRaw (.str "x")) _)) (fun ha => nomatch ha.1)
  cases hmsg

/-! ## The order of a report -/

theorem unclaimedMessage_injective (shown : String) :
    Function.Injective (unclaimedMessage shown) := by
  intro k k' h
  have hjoin := (String.append_left_inj _).1 h
  have hlen := congrArg String.length hjoin
  have hdot : ".".length = 1 := rfl
  unfold joinMatchesPath at hjoin hlen
  split_ifs at hjoin hlen with hs hk hk' hk'
  · exact hjoin
  · rw [hk, hk']
  · rw [String.length_append, String.length_append] at hlen
    omega
  · rw [String.length_append, String.length_append] at hlen
    omega
  · exact (String.append_right_inj _).1 hjoin

/-- A block lists its unclaimed keys in the same order under both. -/
def SameTail (order order' : KeyOrder) (v : Value) (b : MatchesBlock) : Prop :=
  b.exhaustive = true → unclaimed b.entries (order b.pos v.keys) =
    unclaimed b.entries (order' b.pos v.keys)

theorem perm_unclaimed (ho : order.Fair) (pos : SourcePos) (v : Value) :
    (unclaimed entries (order pos v.keys)).Perm (unclaimed entries v.keys) :=
  (ho pos v.keys).filter _

/-- Two reports have the same length, so they are equal when all their parts are. -/
theorem walks_eq (ho : order.Fair) (ho' : order'.Fair) : Walks lib order order'
    (fun l l' P => l.length = l'.length ∧ (l = l' ↔ P)) (fun _ _ => True) (fun _ _ => True)
    (SameTail order order') where
  nil := by simp
  append := by
    rintro l l' m m' P Q ⟨hlen, h⟩ ⟨hlen', h'⟩
    refine ⟨by rw [length_append, length_append, hlen, hlen'], ?_⟩
    rw [← h, ← h']
    exact ⟨fun heq => append_inj heq hlen, fun ⟨h1, h2⟩ => by rw [h1, h2]⟩
  object v shown b := by simp
  keys v shown b := by
    unfold keyMismatches SameTail
    have hinj : Function.Injective fun k => (⟨b.pos, unclaimedMessage shown k⟩ : MatchMismatch) :=
      fun k k' h => unclaimedMessage_injective shown (MatchMismatch.mk.inj h).2
    have hlen : (unclaimed b.entries (order b.pos v.keys)).length =
        (unclaimed b.entries (order' b.pos v.keys)).length :=
      ((perm_unclaimed ho b.pos v).trans (perm_unclaimed ho' b.pos v).symm).length_eq
    cases b.exhaustive with
    | false => simp
    | true => simp [hlen, (map_injective_iff.2 hinj).eq_iff]
  single v name shown e h := by
    have heq : evalMatchesEntry lib order v name shown e =
        evalMatchesEntry lib order' v name shown e := by
      cases e with
      | test pos path t => rw [evalMatchesEntry, evalMatchesEntry]
      | sub pos path b =>
        rw [evalMatchesEntry, evalMatchesEntry]
        cases hl : v.lookupPath lib name path with
        | error err => rfl
        | ok w => exact absurd (Value.lookupPath_eq_ok.1 hl) (h pos path b w rfl)
    simp [heq]
  sub _ := trivial

theorem length_le_one_of_reverse {α : Type} : ∀ {l : List α}, l.Nodup → l = l.reverse → l.length ≤ 1
  | [], _, _ => by simp
  | [_], _, _ => by simp
  | a :: b :: t, hn, h => by
    have hlast : (a :: b :: t).getLast? = some a := by rw [h, getLast?_reverse, head?_cons]
    rw [getLast?_cons_cons] at hlast
    exact absurd (mem_of_getLast? hlast) (nodup_cons.1 hn).1

theorem Value.nodup_keys (v : Value) : v.keys.Nodup := by
  unfold Value.keys
  split
  · exact nodup_dedup _
  · exact nodup_nil

/-- **The report of a block is the same whatever the order of the keys precisely when no exhaustive
block that is reached leaves two keys unclaimed.** -/
theorem report_fixed_iff (lib : GoLib) (v : Value) (name : String) (b : MatchesBlock) :
    (∀ order order' : KeyOrder, order.Fair → order'.Fair →
      evalMatchesTarget lib order v name b = evalMatchesTarget lib order' v name b) ↔
    (Applies v b → ∀ u c, Reaches v b u c → c.exhaustive = true →
      (unclaimed c.entries u.keys).length ≤ 1) := by
  constructor
  · intro h ha u c hr hc
    have hrev : KeyOrder.Fair fun _ keys => keys.reverse := fun _ keys => reverse_perm keys
    have heq := h _ _ fair_id hrev
    rw [evalMatchesTarget_of_applies ha, evalMatchesTarget_of_applies ha, Except.ok.injEq,
      ((walks_eq fair_id hrev).against b v name "").2] at heq
    have htail := (heq u c hr).2.2 hc
    simp only [unclaimed, filter_reverse] at htail
    exact length_le_one_of_reverse (u.nodup_keys.filter _) htail
  · intro h order order' ho ho'
    by_cases ha : Applies v b
    · rw [evalMatchesTarget_of_applies ha, evalMatchesTarget_of_applies ha,
        ((walks_eq ho ho').against b v name "").2.2]
      refine fun u c hr => ⟨trivial, fun _ _ => trivial, fun hc => ?_⟩
      have hone : ∀ l : List String, l.Perm (unclaimed c.entries u.keys) →
          l = unclaimed c.entries u.keys := by
        intro l hl
        match unclaimed c.entries u.keys, h ha u c hr hc, hl with
        | [], _, hl => exact hl.eq_nil
        | [k], _, hl => exact perm_singleton.1 hl
      rw [hone _ (perm_unclaimed ho c.pos u), hone _ (perm_unclaimed ho' c.pos u)]
    · obtain ⟨msg, hmsg⟩ := evalMatchesTarget_of_not_applies ha
      rw [hmsg, hmsg]

/-- Against `matches exhaustive { }` the two keys of `{"a": null, "b": null}` are listed in either
order. -/
theorem unclaimed_keys_unordered :
    ∃ order order' : KeyOrder, order.Fair ∧ order'.Fair ∧
      evalMatchesTarget Sample.goLib order (.ofRaw (.map [("a", .null), ("b", .null)])) "v"
          (.mk (1, 1) true []) ≠
        evalMatchesTarget Sample.goLib order' (.ofRaw (.map [("a", .null), ("b", .null)])) "v"
          (.mk (1, 1) true []) := by
  refine ⟨_, fun _ keys => keys.reverse, fair_id, fun _ keys => reverse_perm keys, ?_⟩
  intro h
  exact absurd (congrArg (·.map MatchMismatch.message) (Except.ok.inj h)) (by decide)

/-! ## `not-empty` -/

theorem notEmpty_of_unread {t : String} (h : parseFloat t = none) :
    (MatchesTest.notEmpty.mismatch lib (.number t)).isNone = true ∧
      (evalNotEmpty (.number t)).isOk = false := by
  simp [MatchesTest.mismatch, evalNotEmpty, isMatchesEmpty, h, Value.number, Value.isNullish,
    Value.isNil, Value.isNull, Value.rawNull, Except.isOk, Except.toBool]

end Bpfman.Shell
