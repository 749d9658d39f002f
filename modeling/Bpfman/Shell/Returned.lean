import Bpfman.Shell.Lower

/-!
# The value a def returns

A call of a def in bind position is read in three forms: a guard binds the value itself, a let binds
an outcome with a `value` field, a bind-collect lists the values. `returned_value_kept_iff` says
which values come through all three as they are. The outcome leaves out a payload that is itself an
outcome, and the list keeps the trees and origins of its elements only.
-/

namespace Bpfman.Shell

open Partiality Comp

variable {W : Type}

/-! ## Reading the bound names -/

theorem Env.get_set {env : Env W} (h : env.frames ≠ []) (name : String) (v : Value) :
    (env.set name v).get name = some v := by
  obtain ⟨f, fs, hf⟩ := List.exists_cons_of_ne_nil h
  simp [Env.set, Env.get, hf]

theorem valueFromOutcome_value (rc : Envelope) (v : Value) :
    (valueFromOutcome ⟨rc, v⟩).stepValue (.field "value") =
      if hasDistinctPrimary v then .ok v else .error (.fieldMissing "value") := by
  have hrc : rc.fields.lookup "value" = none := by
    cases hp : rc.pid <;> simp [Envelope.fields, hp, List.lookup_cons]
  cases hd : hasDistinctPrimary v <;>
    simp [valueFromOutcome, Value.ofRecord, Value.withOrigin, Value.stepValue, hd, hrc,
      List.lookup_append]

/-- A listed value as the list gives it back. -/
def Value.relisted (v : Value) : Value :=
  match v.origin with
  | some o => { raw := v.raw, origin := some o.unwrap, kind := o.unwrap.kindFor }
  | none => { raw := v.raw }

theorem indexValue_valueList (before after : List Value) (v : Value) :
    (Value.valueList (before ++ v :: after)).indexValue before.length = v.relisted := by
  cases ho : v.origin <;>
    simp [Value.valueList, Value.withOrigin, Value.ofRaw, Value.indexValue, Value.list?, elemAt,
      walkSuborigin, walkOrigin, Origin.unwrap, Value.ofStep, Value.relisted, ho]

/-- The list keeps a value: its kind is the one its origin has, and it has no fields beside. -/
def Value.Listable (v : Value) : Prop :=
  v.recordFields = none ∧
    match v.origin with
    | none => v.kind = .unknown
    | some o => o.unwrap = o ∧ o.kindFor = v.kind

theorem relisted_eq_iff (v : Value) : v.relisted = v ↔ v.Listable := by
  obtain ⟨raw, origin, kind, fields⟩ := v
  cases origin with
  | none =>
    simp only [Value.relisted, Value.Listable, Value.mk.injEq, true_and]
    constructor
    · rintro ⟨rfl, rfl⟩
      exact ⟨rfl, rfl⟩
    · rintro ⟨rfl, rfl⟩
      exact ⟨rfl, rfl⟩
  | some o =>
    simp only [Value.relisted, Value.Listable, Value.mk.injEq, true_and, Option.some.injEq]
    constructor
    · rintro ⟨ho, hk, hf⟩
      rw [ho] at hk
      exact ⟨hf.symm, ho, hk⟩
    · rintro ⟨hf, ho, hk⟩
      rw [ho]
      exact ⟨rfl, hk, hf.symm⟩

/-! ## The three forms -/

section Forms

variable (host : Host W) (call : Call W) (dst argv : Temp)

/-- The instructions of a bind of a command. -/
def bindForm (name : String) (guard : Bool) (onFail : Option BlockId) : Step W Flow := do
  let _ ← execInstr host call (.dispatchBind dst argv)
  execInstr host call (.applyBind dst argv name guard onFail)

/-- The instructions that end an iteration of a bind-collect. -/
def collectForm : Step W Flow := do
  let _ ← execInstr host call (.dispatchBind dst argv)
  execInstr host call (.collectProduce dst)

/-- A guard binds the value. -/
def GuardBinds (m : Machine W) (v : Value) : Prop :=
  ∀ name onFail, name ≠ "" → name ≠ "_" →
    ∃ m', bindForm host call dst argv name true onFail m = .ok .fall m' ∧ m'.env.get name = some v

/-- A let binds an outcome with the value in its `value` field. -/
def LetBinds (m : Machine W) (v : Value) : Prop :=
  ∀ name onFail, name ≠ "" → name ≠ "_" →
    ∃ m' o, bindForm host call dst argv name false onFail m = .ok .fall m' ∧
      m'.env.get name = some o ∧ o.stepValue (.field "value") = .ok v

/-- The values of a finished bind-collect. -/
def Collect.valuesOf (c : Collect) (env : Env W) : Option Value :=
  ((finaliseCollect c env).get c.primary).bind fun o =>
    if c.guard then some o else (o.stepValue (.field "values")).toOption

/-- An iteration of a bind-collect adds the value to those collected so far, and the list it binds
in the end has it in its place. -/
def CollectLists (m : Machine W) (v : Value) : Prop :=
  ∀ (l : LoopState) (ls : List LoopState) (c : Collect), l.collect = some c →
    ∃ (c' : Collect) (m' : Machine W), c'.values = c.values ++ [v] ∧
      collectForm host call dst argv (m.mapEx fun ex => { ex with loops := l :: ls }) =
        advanceLoop { l with collect := some c' } m' ∧
      ∀ (c'' : Collect) (after : List Value) (env : Env W), c''.values = c'.values ++ after →
        c''.primary ≠ "" → c''.primary ≠ "_" → env.frames ≠ [] →
        ∃ vs, c''.valuesOf env = some vs ∧ vs.indexValue c.values.length = v

variable {host call dst argv} {m : Machine W} {d : Def} {args : List Arg} {v : Value} {env' : Env W}

/-- The machine after a call in bind position returned `v`. -/
def Machine.afterCall (m : Machine W) (dst : Temp) (args : List Arg) (v : Value) (env : Env W) :
    Machine W :=
  ⟨env, { m.ex.setTemp dst (.result ⟨.okEnvelope, v⟩) with
    bindArgs := Function.update m.ex.bindArgs dst args }⟩

/-- A bind that calls `d`, and what the call returns. -/
structure Calls (host : Host W) (call : Call W) (argv : Temp) (m : Machine W) (d : Def)
    (args : List Arg) (v : Value) (env' : Env W) : Prop where
  bind : host.execBind.isSome
  argv : m.ex.temps argv = .argv (.word d.name :: args)
  getDef : m.env.getDef d.name = some d
  call : call d args m.env = .ok (some v, 0) env'

theorem exec_dispatchBind_call (h : Calls host call argv m d args v env') :
    execInstr host call (.dispatchBind dst argv) m =
      .ok .fall (m.afterCall dst (.word d.name :: args) v env') := by
  have hbind : dispatchBind host call (.word d.name :: args) m.env =
      .ok ⟨.okEnvelope, v⟩ env' := by
    unfold dispatchBind
    rw [bind_of_ok (read_apply _ _)]
    simp only [lookupDefHead, h.getDef, List.tail_cons]
    unfold callDefAsBind
    rw [bind_of_ok h.call]
    rfl
  exact exec_dispatchBind (by simp [← Option.not_isSome, h.bind]) h.argv hbind

theorem resultAt_afterCall : resultAt dst (m.afterCall dst args v env') =
    .ok ⟨.okEnvelope, v⟩ (m.afterCall dst args v env') := by
  simp [resultAt, Machine.afterCall, Executor.setTemp]

/-- The value a bind of a successful call gives to its name. -/
theorem bindForm_call (h : Calls host call argv m d args v env')
    (hframes : env'.frames ≠ []) {name : String} (hname : name ≠ "") (hname' : name ≠ "_")
    (guard : Bool) (onFail : Option BlockId) :
    ∃ m', bindForm host call dst argv name guard onFail m = .ok .fall m' ∧
      m'.env.get name = some (boundValue guard ⟨.okEnvelope, v⟩) := by
  have hok : Envelope.okEnvelope.ok = true := rfl
  unfold bindForm
  rw [bind_of_ok (exec_dispatchBind_call h), execInstr]
  unfold applyBind
  rw [bind_of_ok resultAt_afterCall]
  cases guard with
  | true =>
    refine ⟨_, by simp [hok, hname, hname', bind_apply]; rfl, ?_⟩
    exact Env.get_set hframes name _
  | false =>
    refine ⟨_, by simp [hname, hname', bind_apply]; rfl, ?_⟩
    exact Env.get_set hframes name _

/-- An iteration of a bind-collect adds the value of a successful call. -/
theorem collectForm_call (h : Calls host call argv m d args v env')
    {l : LoopState} {ls : List LoopState} {c : Collect} (hl : l.collect = some c) :
    ∃ m', collectForm host call dst argv (m.mapEx fun ex => { ex with loops := l :: ls }) =
      advanceLoop { l with collect := some (c.produce ⟨.okEnvelope, v⟩) } m' := by
  generalize hm1 : (m.mapEx fun ex => { ex with loops := l :: ls }) = m1
  have h1 : Calls host call argv m1 d args v env' := hm1 ▸ ⟨h.bind, h.argv, h.getDef, h.call⟩
  have hloops : (m1.afterCall dst (.word d.name :: args) v env').ex.loops = l :: ls := by
    rw [← hm1]; rfl
  have hok : Envelope.okEnvelope.ok = true := rfl
  unfold collectForm
  rw [bind_of_ok (exec_dispatchBind_call h1), execInstr]
  unfold collectProduce
  rw [bind_of_ok (read_apply _ _)]
  simp only [hloops, hl]
  rw [bind_of_ok resultAt_afterCall]
  cases c.guard <;> exact ⟨_, by simp [hok, bind_apply]; rfl⟩

/-- The list a bind-collect binds in the end, at the place of `v`. -/
theorem valuesOf_indexValue {c : Collect} {before after : List Value} {env : Env W}
    (hc : c.values = before ++ v :: after) (hname : c.primary ≠ "") (hname' : c.primary ≠ "_")
    (hframes : env.frames ≠ []) :
    ∃ vs, c.valuesOf env = some vs ∧ vs.indexValue before.length = v.relisted := by
  refine ⟨.valueList c.values, ?_, ?_⟩
  · unfold Collect.valuesOf finaliseCollect
    cases c.guard <;> simp [hname, hname', Env.get_set hframes]
    rfl
  · rw [hc]
    exact indexValue_valueList before after v

/-- A value that all forms of a bind keep. -/
def Value.Kept (v : Value) : Prop := hasDistinctPrimary v = true ∧ v.Listable

/-- **A guard binds what a def returns; a let and a bind-collect keep it precisely when it is not an
outcome itself, has the kind of its origin and is not a record literal.** -/
theorem returned_value_kept_iff (hb : host.execBind.isSome)
    (hargv : m.ex.temps argv = .argv (.word d.name :: args))
    (hdef : m.env.getDef d.name = some d) (hcall : call d args m.env = .ok (some v, 0) env')
    (hframes : env'.frames ≠ []) :
    GuardBinds host call dst argv m v ∧
    (LetBinds host call dst argv m v ∧ CollectLists host call dst argv m v ↔ v.Kept) := by
  have hvalue := valueFromOutcome_value .okEnvelope v
  have hd : Calls host call argv m d args v env' := ⟨hb, hargv, hdef, hcall⟩
  refine ⟨?_, ?_, ?_⟩
  · intro name onFail hname hname'
    exact bindForm_call hd hframes hname hname' true onFail
  · rintro ⟨hlet, hcollect⟩
    refine ⟨?_, ?_⟩
    · obtain ⟨m1, o, hrun, hget, ho⟩ := hlet "x" none (by decide) (by decide)
      obtain ⟨m2, hrun2, hget2⟩ :=
        bindForm_call hd hframes (by decide : "x" ≠ "") (by decide) false none
      rw [hrun] at hrun2
      cases hrun2
      rw [hget] at hget2
      cases hget2
      cases hp : hasDistinctPrimary v with
      | true => rfl
      | false =>
        rw [boundValue, if_neg (by decide), hvalue, hp] at ho
        cases ho
    · let l : LoopState :=
        { names := [], body := 0, exit := 0, entryFrameDepth := 0, origin := .absent, length := 0
          collect := some { primary := "x", guard := true } }
      obtain ⟨c', m', hv, -, hall⟩ := hcollect l [] { primary := "x", guard := true } rfl
      have hx : "x" ≠ "" := by decide
      have hx' : "x" ≠ "_" := by decide
      have hlist : ({ c' with primary := "x" } : Collect).values = [] ++ v :: [] := hv
      obtain ⟨vs, hvs, hi⟩ := hall { c' with primary := "x" } [] env' (by simp) hx hx' hframes
      obtain ⟨vs', hvs', hi'⟩ := valuesOf_indexValue hlist hx hx' hframes
      rw [hvs] at hvs'
      cases hvs'
      exact (relisted_eq_iff v).1 (hi'.symm.trans hi)
  · rintro ⟨hdistinct, hlist⟩
    refine ⟨?_, ?_⟩
    · intro name onFail hname hname'
      obtain ⟨m', hrun, hget⟩ := bindForm_call hd hframes hname hname' false onFail
      refine ⟨m', _, hrun, hget, ?_⟩
      rw [boundValue, if_neg (by decide), hvalue, hdistinct, if_pos rfl]
    · intro l ls c hl
      obtain ⟨m', hrun⟩ := collectForm_call hd hl
      refine ⟨_, m', rfl, hrun, ?_⟩
      intro c'' after env hc hname hname' hne
      have hc' : c''.values = c.values ++ v :: after := by
        rw [hc]
        simp [Collect.produce, Envelope.okEnvelope, Envelope.ok]
      obtain ⟨vs, hvs, hi⟩ := valuesOf_indexValue hc' hname hname' hne
      exact ⟨vs, hvs, hi.trans ((relisted_eq_iff v).2 hlist)⟩

end Forms

/-- A list literal comes through. -/
theorem returned_value_kept_iff_list :
    let v := Value.listLiteral [.number "1"]
    let d : Def := ⟨"f", [], fun _ => {}⟩
    let m : Machine Unit := ⟨{ frames := [[]], defs := [d], world := () },
      { temps := fun _ => .argv [.word "f"], entryFrameDepth := 1, inDef := false }⟩
    let call : Call Unit := fun _ _ => pure (some v, 0)
    v.Kept ∧ LetBinds Host.idle call 1 0 m v := by
  intro v d m call
  have hkept : v.Kept := ⟨rfl, rfl, rfl⟩
  have hframes : m.env.frames ≠ [] := by simp [m]
  exact ⟨hkept, ((returned_value_kept_iff (d := d) (m := m) rfl rfl rfl rfl hframes).2.2 hkept).1⟩

/-- How a run ended, as far as the example below looks at it. -/
def missingField (r : Res Halt (Env Unit) Err Unit) : Option (String × String) :=
  match r with
  | .err (.access name (.fieldMissing field)) _ => some (name, field)
  | _ => none

/-- The kind of the first element of a list variable. -/
def firstKind (name : String) (r : Res Halt (Env Unit) Err Unit) : Option OriginKind :=
  match r with
  | .ok _ env => (env.get name).map fun v => (v.indexValue 0).kind
  | _ => none

/-- `def f() { let o <- c; return $o }`, `let r <- f`, `let x = $r.value`: the outcome that `f`
returns is not in the outcome of the call. With `def g() { return "a" }` and
`guard xs <- foreach i in [1] { g }` the listed string is of unknown kind. -/
theorem returned_value_is_lost :
    missingField (run Host.idle 10
      [.defStmt "f" [] [.bind "o" false [.literal "c" false], .ret (.varRef "o" [])],
        .bind "r" false [.literal "f" false],
        .letVal "x" (.varRef "r" [.step (.field "value")])] (Env.start ())) = some ("r", "value") ∧
    firstKind "xs" (run Host.idle 10
      [.defStmt "g" [] [.ret (.literal "a" true)],
        .bindCollect "xs" true ["i"] (.list [.literal "1" false]) [.command [.literal "g" false]]]
      (Env.start ())) = some .unknown ∧
    (Value.string "a").kind = .scalar := by
  refine ⟨?_, ?_, rfl⟩ <;> decide +kernel

end Bpfman.Shell
