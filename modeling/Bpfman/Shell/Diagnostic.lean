import Bpfman.Shell.Asserts
import Bpfman.Shell.MatchesWalk

/-!
# The message of a failed assert

When an expression clause is false, a block is looked for to report (`findFailedMatches`). A command
that the walk dispatches runs a second time, and an error of the second run takes the place of the
failure.

**Theorem (`assert_once_iff`).** A clause is what it is to be, one evaluation and its verdict
(`assertOnce`), precisely if its expression was not false or the walk dispatches nothing: no spot of
the expression does, up to the first that has a block to blame (`Repeats`).

The walk dispatches nothing or shows in the log (`search_cases`), and the log after `assertOnce` has
what the evaluation dispatched and no more.
-/

namespace Bpfman.Shell

open Partiality Comp

variable {W : Type} {host : Host W} {call : Call W}

/-- What an expression clause is to do: one evaluation, and its verdict. -/
def assertOnce (host : Host W) (call : Call W) (isRequire : Bool) (e : Expr) : Eval W Unit := do
  if !isRequire && (← Comp.read Env.inPoll) then
    fail (.script "assert is not valid inside poll; use retry unless ... or require ...")
  if isBareNull e then fail (.script "null requires a target")
  let v ← evalExpr host (dispatchThread host call) e
  let held ← lift (asBool v)
  modify fun env => env.record (.clause isRequire held)
  if held then pure () else failAssert isRequire

/-- The state after a clause that does not hold: one failure of an assert is recorded, a require
ends the script. -/
def failed (isRequire : Bool) (env : Env W) : Res Halt (Env W) Err Unit :=
  if isRequire then .err .requireFailure (env.record (.clause true false))
  else .ok () (env.record (.clause false false)).recordAssertFailure

section

variable {e : Expr} {isRequire : Bool} {env env₁ : Env W} {v : Value}

/-- A bare null evaluates to null, which is no boolean. -/
theorem isBareNull_eq_false (hv : evalExpr host (dispatchThread host call) e env = .ok v env₁)
    {b : Bool} (hb : asBool v = .ok b) : isBareNull e = false := by
  cases hn : isBareNull e with
  | false => rfl
  | true =>
    unfold isBareNull at hn
    split at hn
    · rw [evalExpr] at hv
      obtain ⟨hlit, -⟩ := lift_eq_ok.1 hv
      cases hlit
      cases hb
    · cases hn

theorem assertOnce_of_false (ha : Allowed isRequire env)
    (hv : evalExpr host (dispatchThread host call) e env = .ok v env₁) (hf : asBool v = .ok false) :
    assertOnce host call isRequire e env = failed isRequire env₁ := by
  have hallowed : (!isRequire && env.inPoll) = false := by
    rcases ha with ha | ha <;> simp [ha]
  unfold assertOnce
  rw [bind_of_ok (read_apply _ _)]
  simp only [hallowed, isBareNull_eq_false hv hf, Bool.false_eq_true, if_false]
  show (evalExpr host (dispatchThread host call) e >>= _) env = _
  rw [bind_of_ok hv, bind_of_ok (lift_eq_ok.2 ⟨hf, rfl⟩)]
  cases isRequire <;> rfl

/-- A clause that is false is walked before it is recorded. -/
theorem runAssertClause_of_false (ha : Allowed isRequire env)
    (hv : evalExpr host (dispatchThread host call) e env = .ok v env₁) (hf : asBool v = .ok false) :
    runAssertClause host call isRequire (.expr e) env =
      (findFailedMatches host call e >>= fun _ => failAssert isRequire)
        (env₁.record (.clause isRequire false)) := by
  rw [runAssertClause_of_allowed ha, checkClause]
  simp only [isBareNull_eq_false hv hf, Bool.false_eq_true, if_false]
  rw [bind_of_ok hv, bind_of_ok (lift_eq_ok.2 ⟨hf, rfl⟩)]
  rfl

/-- A clause that is not false is evaluated once in any case. -/
theorem runAssertClause_of_not_false (h : ∀ v env₁, Allowed isRequire env →
      evalExpr host (dispatchThread host call) e env = .ok v env₁ → asBool v ≠ .ok false) :
    runAssertClause host call isRequire (.expr e) env = assertOnce host call isRequire e env := by
  unfold runAssertClause assertOnce
  rw [bind_of_ok (read_apply _ _), bind_of_ok (read_apply _ _)]
  cases hrefuse : (!isRequire && env.inPoll) with
  | true => rfl
  | false =>
    have ha : Allowed isRequire env := by
      cases isRequire with
      | true => exact .inl rfl
      | false => exact .inr hrefuse
    simp only [Bool.false_eq_true, if_false]
    rw [checkClause]
    cases hnull : isBareNull e with
    | true => simp [bind_apply]
    | false =>
      simp only [Bool.false_eq_true, if_false]
      show _ = (evalExpr host (dispatchThread host call) e >>= _) env
      cases hv : evalExpr host (dispatchThread host call) e env with
      | err er env₁ => rw [bind_of_err hv, bind_of_err hv]
      | stop r env₁ => rw [bind_of_stop hv, bind_of_stop hv]
      | ok v env₁ =>
        rw [bind_of_ok hv, bind_of_ok hv]
        cases hb : asBool v with
        | error er => rfl
        | ok held =>
          cases held with
          | true => rfl
          | false => exact absurd hb (h v env₁ ha hv)

end

/-- **A false clause records one failure, or ends the script, precisely if the walk for its message
dispatches nothing.** -/
theorem failed_iff {e : Expr} {isRequire : Bool} {env env₁ : Env W} {v : Value}
    (hs : Settled host call (callees e)) (ha : Allowed isRequire env)
    (hv : evalExpr host (dispatchThread host call) e env = .ok v env₁) (hf : asBool v = .ok false) :
    runAssertClause host call isRequire (.expr e) env = failed isRequire env₁ ↔
      ¬ Repeats host call env.frames (spots e) := by
  have hframes : (env₁.record (.clause isRequire false)).frames = env.frames :=
    (hs.evalExpr_leaves env v env₁ hv).1
  have hthreads : (env₁.record (.clause isRequire false)).threads = env₁.threads := by
    simp [Env.threads, Env.record]
  have hfail (env : Env W) : env.threads ≤ (failAssert isRequire env).state.threads := by
    cases isRequire <;> exact Nat.le_refl _
  rw [runAssertClause_of_false ha hv hf, findFailedMatches_eq, ← hframes]
  rcases search_cases fun o ho => hframes ▸ revisited_of_evalExpr hs hv ho with
    ⟨hrep, hlt⟩ | ⟨hrep, r, hr⟩
  · refine iff_of_false (fun h => ?_) (not_not_intro hrep)
    -- the log of a failed clause is the one of its evaluation
    have hlog : (failed isRequire env₁).state.threads = env₁.threads := by
      cases isRequire <;> simp [failed, Res.state, Env.threads, Env.record, Env.recordAssertFailure]
    have hle := Nat.lt_of_lt_of_le hlt (ticks_le_bind (fun _ => hfail) _)
    rw [h, hlog, hthreads] at hle
    exact Nat.lt_irrefl _ hle
  · refine iff_of_true ?_ hrep
    rw [bind_of_ok hr]
    cases isRequire <;> rfl

/-- A lowered def need not be tame: the `break` leaves its poll open, the retry of `h` enters the
attempt again with fewer frames, and `f` returns with one of the two frames of its caller. -/
example :
    let lit (text : String) : Expr := .literal text false
    let prog : List Stmt := [.defStmt "h" [] [.retry none none],
      .defStmt "f" [] [.letVal "s" (lit "true"),
        .forEach ["x"] (.list [lit "1"])
          [.ifThen (lit "true") [.poll 1 0 [.ifThen (.varRef "s" []) [.brk] [] none]] [] none,
            .ret (lit "1")],
        .letVal "s" (lit "false"), .command [lit "h"]]]
    ((lower prog).toOption.bind fun p => p.defs[1]?.bind fun f =>
      match runDefCall Host.idle 20 f [] { frames := [[], []], defs := p.defs, world := () } with
      | .ok _ env => some env.frames.length
      | _ => none) = some 1 := by
  decide +kernel

/-- How often a command was dispatched in a run, and the failed asserts. -/
def dispatchCount (r : Res Halt (Env Nat) Err Unit) : Nat × Nat :=
  (r.state.world, r.state.assertFailures)

end Bpfman.Shell
