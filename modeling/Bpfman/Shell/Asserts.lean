import Bpfman.Shell.Effects
import Bpfman.Shell.Lower

/-!
# Asserts and requires

**Command clauses (`command_clause_iff`).** `assert ok c` and `assert fail c` expand the arguments
of `c` as a let bind does, and then dispatch them by a path of their own: the bind handler alone,
past the defs, with an error of the handler as one more way to fail. So the two agree at the points
of a script where the head names no def and the handler launches the command, and at no others.
-/

namespace Bpfman.Shell

open Partiality Comp

variable {W : Type} {host : Host W} {call : Call W}

variable {args : List Expr} {as : List Arg} {env : Env W} {isRequire : Bool}

/-! ## Let binds -/

/-- The outcome of `let x <- args`: the instructions `buildArgs` and `dispatchBind`. -/
def letBind (host : Host W) (call : Call W) (args : List Expr) : Eval W BindResult := do
  let as ← evalArgs host (dispatchThread host call) args
  if host.execBind.isNone then fail (.script "no bind handler installed")
  dispatchBind host call as

/-- The two instructions leave the outcome in their temp. -/
theorem exec_letBind {m : Machine W} {r : BindResult} {env' : Env W}
    (h : letBind host call args m.env = .ok r env') (argv dst : Temp) :
    ∃ m', (execInstr host call (.buildArgs argv args) >>= fun _ =>
        execInstr host call (.dispatchBind dst argv)) m = .ok .fall m' ∧
      m'.env = env' ∧ m'.ex.temps dst = .result r := by
  obtain ⟨as, env1, has, hrest⟩ := bind_eq_ok.1 h
  cases hb : host.execBind.isNone with
  | true => simp [hb, bind_apply] at hrest
  | false =>
    simp only [hb, Bool.false_eq_true, if_false] at hrest
    have hargs : onEnv (evalArgs host (dispatchThread host call) args) m =
        .ok as (m.setEnv env1) := by
      unfold onEnv zoom
      rw [has]
    have hbuild : execInstr host call (.buildArgs argv args) m =
        .ok .fall ((m.setEnv env1).mapEx fun ex => ex.setTemp argv (.argv as)) := by
      rw [execInstr, bind_of_ok hargs]
      rfl
    refine ⟨_, (bind_of_ok hbuild).trans (exec_dispatchBind hb ?_ hrest), rfl, ?_⟩
    all_goals simp [Machine.mapEx, Executor.setTemp]

/-! ## Command clauses -/

/-- The clause comes to its verdict and holds. -/
def Passes (host : Host W) (call : Call W) (isRequire : Bool) (form : String) (args : List Expr)
    (env : Env W) : Prop :=
  ∃ env', runAssertClause host call isRequire (.command form args false) env = .ok () env' ∧
    env'.log.getLast? = some (.clause isRequire true)

/-- `ok` and `fail` on evaluated arguments have the verdict of a call of the def, whatever it
does. -/
def CallsDef (host : Host W) (d : Def) (as : List Arg) (env : Env W) : Prop :=
  ∀ (call : Call W) (r : BindResult) (env' : Env W),
    callDefAsBind call d as.tail env = .ok r env' →
      evalAssertVerb host "ok" as env = .ok r.rc.ok env' ∧
      evalAssertVerb host "fail" as env = .ok (!r.rc.ok) env'

/-- The clauses on a command say what a let bind of it would. -/
structure ClauseAgrees (host : Host W) (call : Call W) (isRequire : Bool) (args : List Expr)
    (env : Env W) : Prop where
  ok : Passes host call isRequire "ok" args env ↔
    ∃ r env', letBind host call args env = .ok r env' ∧ r.rc.ok = true
  fail : Passes host call isRequire "fail" args env ↔
    ∃ r env', letBind host call args env = .ok r env' ∧ r.rc.ok = false
  calls : ∀ as env₁ d, evalArgs host (dispatchThread host call) args env = .ok as env₁ →
    lookupDefHead as env₁ = some d → CallsDef host d as env₁
  errors : ∀ e env', letBind host call args env = .err e env' →
    ¬ Passes host call isRequire "ok" args env ∧ ¬ Passes host call isRequire "fail" args env

/-- The bind handler answers, with an outcome and not with an error. -/
def Launches (host : Host W) (as : List Arg) (env : Env W) : Prop :=
  ∃ f r w, host.execBind = some f ∧ f as env.frames env.world = (.ok r, w)

theorem launches_iff : Launches host as env ↔ ∃ r env', execBind host as env = .ok r env' := by
  unfold Launches Shell.execBind callHost
  cases hb : host.execBind with
  | none => simp
  | some f =>
    rcases hf : f as env.frames env.world with ⟨_ | r, w⟩
    · simp [hf]
    · simp [hf]

/-- The handler answers or fails. -/
theorem execBind_cases (host : Host W) (as : List Arg) (env : Env W) :
    (∃ r env', execBind host as env = .ok r env') ∨
      ∃ e env', execBind host as env = .err e env' := by
  unfold Shell.execBind callHost
  cases host.execBind with
  | none => exact .inr ⟨_, _, rfl⟩
  | some f =>
    rcases hf : f as env.frames env.world with ⟨msg | r, w⟩
    · exact .inr ⟨.host msg, { env with world := w }, by simp [hf]⟩
    · exact .inl ⟨r, { env with world := w }, by simp [hf]⟩

theorem evalArgs_ne_nil {dispatch : List Arg → Eval W BindResult} {env1 : Env W}
    (h : evalArgs host dispatch args env = .ok as env1) (hargs : args ≠ []) : as ≠ [] := by
  cases args with
  | nil => exact absurd rfl hargs
  | cons e es =>
    obtain ⟨a, _, -, h⟩ := bind_eq_ok.1 h
    obtain ⟨as', _, -, h⟩ := bind_eq_ok.1 h
    cases h
    exact List.cons_ne_nil a as'

/-- The verdict of a clause on the outcome of the handler. -/
def verdict (form : String) : Except Err BindResult → Bool
  | .ok r => r.rc.ok == (form == "ok")
  | .error _ => form == "fail"

theorem evalAssertVerb_eq {form : String} (hform : form = "ok" ∨ form = "fail")
    (has : as ≠ []) (env : Env W) :
    evalAssertVerb host form as env =
      (attempt (execBind host as) >>= fun o => pure (verdict form o)) env := by
  have hne : as.isEmpty = false := by simpa using has
  rcases hform with rfl | rfl
  · simp only [evalAssertVerb, if_true, hne, Bool.false_eq_true, if_false, bind_apply]
    cases attempt (execBind host as) env with
    | ok o env' => cases o <;> simp [verdict]
    | err e env' => rfl
    | stop r env' => rfl
  · simp only [evalAssertVerb, hne, Bool.false_eq_true, if_false, bind_apply,
      show ¬ "fail" = "ok" by decide, if_true]
    cases attempt (execBind host as) env with
    | ok o env' => cases o <;> simp [verdict]
    | err e env' => rfl
    | stop r env' => rfl

/-- The clause may stand here: `assert` is refused inside a poll. -/
def Allowed (isRequire : Bool) (env : Env W) : Prop := isRequire = true ∨ env.inPoll = false

theorem runAssertClause_of_allowed (h : Allowed isRequire env) (clause : Clause) :
    runAssertClause host call isRequire clause env =
      checkClause host call isRequire clause env := by
  unfold runAssertClause
  rw [bind_of_ok (read_apply _ _)]
  rcases h with rfl | h
  · rfl
  · cases isRequire <;> simp [h]

theorem runAssertClause_of_refused (h : ¬ Allowed isRequire env) (clause : Clause) :
    ∃ e, runAssertClause host call isRequire clause env = .err e env := by
  obtain ⟨hr, hp⟩ := not_or.1 h
  rw [Bool.not_eq_true] at hr
  rw [Bool.not_eq_false] at hp
  subst hr
  unfold runAssertClause
  rw [bind_of_ok (read_apply _ _), hp]
  exact ⟨_, rfl⟩

/-- A clause passes on the verdict over its own dispatch. -/
theorem passes_iff {form : String} (hform : form = "ok" ∨ form = "fail") (hargs : args ≠ []) :
    Passes host call isRequire form args env ↔ Allowed isRequire env ∧
      ∃ as env1 o env2, evalArgs host (dispatchThread host call) args env = .ok as env1 ∧
        attempt (execBind host as) env1 = .ok o env2 ∧ verdict form o = true := by
  by_cases hallowed : Allowed isRequire env
  swap
  · obtain ⟨e, he⟩ :
        ∃ e, runAssertClause host call isRequire (.command form args false) env = .err e env :=
      runAssertClause_of_refused hallowed _
    simp [Passes, he, hallowed]
  unfold Passes
  rw [runAssertClause_of_allowed hallowed, checkClause]
  simp only [hallowed, true_and]
  constructor
  · rintro ⟨env', hrun, hlog⟩
    obtain ⟨as, env1, has, hrun⟩ := bind_eq_ok.1 hrun
    obtain ⟨pass, env2, hpass, hrun⟩ := bind_eq_ok.1 hrun
    rw [evalAssertVerb_eq hform (evalArgs_ne_nil has hargs)] at hpass
    obtain ⟨o, env3, ho, hv⟩ := bind_eq_ok.1 hpass
    cases hv
    refine ⟨as, env1, o, env2, has, ho, ?_⟩
    rw [bind_of_ok (modify_apply _ _)] at hrun
    cases hverdict : verdict form o with
    | true => rfl
    | false =>
      -- a clause that does not hold is written down as such
      cases isRequire <;> simp [hverdict, failAssert] at hrun
      subst hrun
      simp [Env.record, Env.recordAssertFailure] at hlog
  · rintro ⟨as, env1, o, env2, has, ho, hverdict⟩
    have hpass : evalAssertVerb host form as env1 = .ok true env2 := by
      rw [evalAssertVerb_eq hform (evalArgs_ne_nil has hargs), bind_of_ok ho, hverdict]
      rfl
    refine ⟨env2.record (.clause isRequire true), ?_, by simp [Env.record]⟩
    rw [bind_of_ok has, bind_of_ok hpass]
    rfl

theorem letBind_of_args {env1 : Env W}
    (h : evalArgs host (dispatchThread host call) args env = .ok as env1)
    (hdef : lookupDefHead as env1 = none) : letBind host call args env = execBind host as env1 := by
  unfold letBind
  rw [bind_of_ok h]
  have hdispatch : dispatchBind host call as env1 = execBind host as env1 := by
    unfold dispatchBind
    rw [bind_of_ok (read_apply _ _), hdef]
  cases hb : host.execBind with
  | none => simp [Shell.execBind, hb, bind_apply]
  | some f => simpa using hdispatch

/-- A verdict cannot be that of a def whatever the def does. -/
theorem not_callsDef (d : Def) (as : List Arg) (env : Env W) : ¬ CallsDef host d as env := by
  intro h
  obtain ⟨hok, -⟩ := h (fun _ _ => pure (none, 0)) _ env rfl
  obtain ⟨hfail, -⟩ := h (fun _ _ => pure (none, 1)) _ env rfl
  rw [hok] at hfail
  exact absurd (Res.ok.inj hfail).1 (by decide)

/-- **A clause on a command agrees with a let bind of it precisely where its head, after expansion,
names no def and the handler launches it.** An assert inside a poll is refused, and agrees with a
bind that fails. -/
theorem command_clause_iff {isRequire : Bool} {args : List Expr} (hargs : args ≠ []) (env : Env W) :
    ClauseAgrees host call isRequire args env ↔
      ∀ as env₁, evalArgs host (dispatchThread host call) args env = .ok as env₁ →
        lookupDefHead as env₁ = none ∧ (Launches host as env₁ ↔ Allowed isRequire env) := by
  constructor
  · intro hagrees as env₁ has
    have hdef : lookupDefHead as env₁ = none := by
      cases hd : lookupDefHead as env₁ with
      | none => rfl
      | some d => exact absurd (hagrees.calls as env₁ d has hd) (not_callsDef d as env₁)
    have hbind := letBind_of_args has hdef
    refine ⟨hdef, ?_⟩
    rw [launches_iff]
    constructor
    · rintro ⟨r, env2, hr⟩
      rw [hr] at hbind
      cases hok : r.rc.ok with
      | true => exact ((passes_iff (.inl rfl) hargs).1 (hagrees.ok.2 ⟨r, env2, hbind, hok⟩)).1
      | false => exact ((passes_iff (.inr rfl) hargs).1 (hagrees.fail.2 ⟨r, env2, hbind, hok⟩)).1
    · intro hallowed
      rcases execBind_cases host as env₁ with hr | ⟨e, env2, he⟩
      · exact hr
      · -- an error of the handler lets `fail` pass
        have hattempt : attempt (execBind host as) env₁ = .ok (.error e) env2 :=
          attempt_eq_ok.2 (.inr ⟨e, rfl, he⟩)
        have hpass := (passes_iff (.inr rfl) hargs).2
          ⟨hallowed, as, env₁, .error e, env2, has, hattempt, rfl⟩
        obtain ⟨r, env', hr, -⟩ := hagrees.fail.1 hpass
        exact ⟨r, env', hbind ▸ hr⟩
  · intro h
    have hiff : ∀ form, form = "ok" ∨ form = "fail" →
        (Passes host call isRequire form args env ↔
          ∃ r env', letBind host call args env = .ok r env' ∧ r.rc.ok = (form == "ok")) := by
      intro form hform
      rw [passes_iff hform hargs]
      constructor
      · rintro ⟨hallowed, as, env₁, o, env2, has, ho, hverdict⟩
        obtain ⟨hdef, hlaunch⟩ := h as env₁ has
        obtain ⟨r, env3, hr⟩ := launches_iff.1 (hlaunch.2 hallowed)
        rcases attempt_eq_ok.1 ho with ⟨r', rfl, hr'⟩ | ⟨e, rfl, he⟩
        · exact ⟨r', env2, (letBind_of_args has hdef).trans hr', by simpa [verdict] using hverdict⟩
        · rw [hr] at he
          cases he
      · rintro ⟨r, env', hr, hok⟩
        obtain ⟨as, env₁, has, -⟩ := bind_eq_ok.1 hr
        obtain ⟨hdef, hlaunch⟩ := h as env₁ has
        have hexec := (letBind_of_args has hdef).symm.trans hr
        exact ⟨hlaunch.1 (launches_iff.2 ⟨r, env', hexec⟩), as, env₁, .ok r, env', has,
          attempt_eq_ok.2 (.inl ⟨r, rfl, hexec⟩), by simpa [verdict] using hok⟩
    have hnever : ∀ form, form = "ok" ∨ form = "fail" → ∀ e env',
        letBind host call args env = .err e env' → ¬ Passes host call isRequire form args env := by
      intro form hform e env' he hpass
      obtain ⟨r, env₁, hr, -⟩ := (hiff form hform).1 hpass
      rw [he] at hr
      cases hr
    exact
      { ok := hiff "ok" (.inl rfl)
        fail := hiff "fail" (.inr rfl)
        calls := fun as env₁ d has hd => by
          rw [(h as env₁ has).1] at hd
          cases hd
        errors := fun e env' he =>
          ⟨hnever "ok" (.inl rfl) e env' he, hnever "fail" (.inr rfl) e env' he⟩ }

/-- A command that the handler launches. -/
theorem command_clause_iff_sample :
    let args : List Expr := [.literal "c" false]
    let call : Call Unit := fun _ _ => fail (.script "no defs")
    args ≠ [] ∧ ClauseAgrees Host.idle call false args (Env.start ()) := by
  intro args call
  have hargs : args ≠ [] := List.cons_ne_nil _ _
  have heval : evalArgs Host.idle (dispatchThread Host.idle call) args (Env.start ()) =
      .ok [.word "c"] (Env.start ()) := rfl
  refine ⟨hargs, (command_clause_iff hargs _).2 ?_⟩
  intro as env1 has
  rw [heval] at has
  cases has
  exact ⟨rfl, iff_of_true ⟨_, _, _, rfl, rfl⟩ (.inr rfl)⟩

/-- The verdicts of the clauses of a run, and whether it came to its end. -/
def clauseVerdicts (r : Res Halt (Env Unit) Err Unit) : List Event × Bool :=
  match r with
  | .ok _ env => (env.log.filter (· matches .clause _ _), true)
  | .err _ env | .stop _ env => (env.log.filter (· matches .clause _ _), false)

/-- With a handler that can launch nothing: after `def t() {}`, a `let x <- t` binds an outcome
whose `ok` is true, and `assert ok t` fails. `let x <- nosuch` stops the script, and
`assert fail nosuch` passes. -/
theorem command_clause_disagrees :
    let host : Host Unit := { Host.idle with execBind := some fun _ _ w => (.error "not found", w) }
    let t : Expr := .literal "t" false
    let nosuch : Expr := .literal "nosuch" false
    clauseVerdicts (run host 10 [.defStmt "t" [] [], .bind "x" false [t],
        .assert false (.expr (.varRef "x" [.step (.field "ok")])),
        .assert false (.command "ok" [t] false)] (Env.start ())) =
      ([.clause false true, .clause false false], false) ∧
    clauseVerdicts (run host 10 [.bind "x" false [nosuch]] (Env.start ())) = ([], false) ∧
    clauseVerdicts (run host 10 [.assert false (.command "fail" [nosuch] false)] (Env.start ())) =
      ([.clause false true], true) := by
  refine ⟨?_, ?_, ?_⟩ <;> decide +kernel

end Bpfman.Shell
