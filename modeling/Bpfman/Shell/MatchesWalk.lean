import Bpfman.Shell.Effects

/-!
# The walk for a failed `matches` block

`FindFailedMatchesExpr` walks a false expression for a `matches` block to report, and evaluates
blocks and the operands of `and` and `or` again on the way. The walk is a search through the
outermost blocks, `and`s and `or`s of the expression (`spots`), in their order, up to the first that
has a block to blame (`findFailedMatches_eq`).

After an evaluation that returned, each spot either dispatches a command again, which shows in the
log, or is evaluated again to the value it had (`Settled.again`), since all it does is read the
variables. `Repeats` says which it is for the whole walk.

**Theorem (`failed_matches_reported`).** Of a false expression without `|>` the walk reports a block
precisely if there is one to blame (`Blames`): a block evaluated with the expression, to false,
under no `not` and under `and`s and `or`s that are false.
-/

namespace Bpfman.Shell

open Partiality Comp List

variable {W : Type} {host : Host W} {call : Call W}

/-! ## What is run -/

/-- The commands that `|>` has dispatched so far. -/
def Env.threads (env : Env W) : Nat := env.log.count .threaded

/-- The bind handler answers the builtin by its arguments and the variables alone. -/
def Answers (host : Host W) (name : String) : Prop :=
  ∀ args, Reads Env.frames (execBind host (.word name :: args))

/-- A call of a def that returns leaves the variables as they were, and no call takes a dispatch
back. -/
structure Tame (call : Call W) : Prop where
  vars : ∀ d args env a env', call d args env = .ok a env' → env'.frames = env.frames
  threads : ∀ d args (env : Env W), env.threads ≤ (call d args env).state.threads

/-- The builtins among the callees only read, and the calls are tame. -/
structure Settled (host : Host W) (call : Call W) (cs : List Callee) : Prop where
  builtin : ∀ name, .builtin name ∈ cs → Answers host name
  command : .command ∈ cs → Tame call

theorem Settled.mono {cs ds : List Callee} (h : Settled host call cs) (hsub : ds ⊆ cs) :
    Settled host call ds :=
  ⟨fun name hn => h.builtin name (hsub hn), fun hc => h.command (hsub hc)⟩

theorem Settled.left {cs ds : List Callee} (h : Settled host call (cs ++ ds)) :
    Settled host call cs := h.mono (subset_append_left _ _)

theorem Settled.right {cs ds : List Callee} (h : Settled host call (cs ++ ds)) :
    Settled host call ds := h.mono (subset_append_right _ _)

theorem reads_lookupVar (name : String) : Reads Env.frames (lookupVar name : Eval W Value) := by
  refine ⟨fun fs => ((fs.findSome? fun f => f.lookup name).map Except.ok).getD
    (.error (.script ("undefined variable " ++ name))), fun env => ?_⟩
  unfold lookupVar Env.get
  dsimp only
  cases env.frames.findSome? fun f => f.lookup name with
  | none => rfl
  | some v => rfl

theorem threads_execBind (args : List Arg) (env : Env W) :
    (execBind host args env).state.threads = env.threads := by
  unfold execBind
  cases host.execBind with
  | none => rfl
  | some f =>
    dsimp only [callHost]
    rcases f args env.frames env.world with ⟨_ | _, w⟩ <;> rfl

theorem frames_execBind {args : List Arg} {env env' : Env W} {r : BindResult}
    (h : execBind host args env = .ok r env') : env'.frames = env.frames := by
  unfold execBind at h
  cases hx : host.execBind with
  | none => simp [hx] at h
  | some f =>
    simp only [hx] at h
    unfold callHost at h
    rcases hf : f args env.frames env.world with ⟨_ | _, w⟩
    · simp [hf] at h
    · simp only [hf] at h
      cases h
      rfl

theorem Tame.threads_dispatchBind (h : Tame call) (host : Host W) (args : List Arg) (env : Env W) :
    env.threads ≤ (dispatchBind host call args env).state.threads := by
  unfold dispatchBind
  rw [bind_of_ok (read_apply _ _)]
  cases lookupDefHead args env with
  | none => exact (threads_execBind args env).ge
  | some d =>
    have hcall : (call d args.tail env).state.threads ≤
        (callDefAsBind call d args.tail env).state.threads :=
      ticks_le_bind (fun _ _ => Nat.le_refl _) env
    exact (h.threads d args.tail env).trans hcall

/-- Each dispatch of `|>` is in the log. -/
theorem Tame.threads_dispatchThread (h : Tame call) (host : Host W) (args : List Arg)
    (env : Env W) : env.threads < (dispatchThread host call args env).state.threads := by
  have hrecord : (env.record .threaded).threads = env.threads + 1 := by
    simp [Env.threads, Env.record]
  have hrest := h.threads_dispatchBind host args (env.record .threaded)
  rw [hrecord] at hrest
  exact hrest

theorem Tame.frames_dispatchThread (h : Tame call) {args : List Arg} {env env' : Env W}
    {r : BindResult} (hr : dispatchThread host call args env = .ok r env') :
    env'.frames = env.frames := by
  obtain ⟨_, _, hm, hr⟩ := bind_eq_ok.1 hr
  cases hm
  obtain ⟨_, _, hd, hr⟩ := bind_eq_ok.1 hr
  cases hd
  cases hhead : lookupDefHead args (env.record .threaded) with
  | none =>
    rw [hhead] at hr
    show env'.frames = (env.record .threaded).frames
    exact frames_execBind hr
  | some d =>
    rw [hhead] at hr
    obtain ⟨p, _, hc, hr⟩ := bind_eq_ok.1 hr
    cases hr
    exact h.vars d args.tail (env.record .threaded) p env' hc

/-! ## What evaluation does -/

/-- The variables are the same, and what had been dispatched still is. -/
def After (env env' : Env W) : Prop := env'.frames = env.frames ∧ env.threads ≤ env'.threads

theorem After.refl (env : Env W) : After env env := ⟨rfl, Nat.le_refl _⟩

theorem After.trans {a b c : Env W} (h : After a b) (h' : After b c) : After a c :=
  ⟨h'.1.trans h.1, h.2.trans h'.2⟩

theorem evaluates_after : Evaluates fun α (m : Eval W α) => Leaves After m where
  toCompositional := compositional_leaves After.refl After.trans
  lookupVar name env _ _ h := (reads_lookupVar name).state_eq h ▸ After.refl env

theorem evaluates_reads : Evaluates fun α (m : Eval W α) => Reads Env.frames m where
  toCompositional := Reads.compositional
  lookupVar := reads_lookupVar

theorem evaluates_readsUntil :
    Evaluates fun α (m : Eval W α) => ReadsUntil Env.frames Env.threads m where
  toCompositional := ReadsUntil.compositional
  lookupVar name := .of_reads (reads_lookupVar name)

section

variable {cs : List Callee} (h : Settled host call cs)

include h

theorem Settled.leaves : ∀ c ∈ cs,
    c.Runs (fun α (m : Eval W α) => Leaves After m) host (dispatchThread host call)
  | .builtin name, hc => fun args env _ _ hr =>
    (h.builtin name hc args).state_eq hr ▸ After.refl env
  | .command, hc => fun args env r env' hr => by
    have htame := h.command hc
    have hlt := htame.threads_dispatchThread host args env
    rw [hr] at hlt
    exact ⟨htame.frames_dispatchThread hr, hlt.le⟩

theorem Settled.readsUntil : ∀ c ∈ cs, c.Runs
    (fun α (m : Eval W α) => ReadsUntil Env.frames Env.threads m) host (dispatchThread host call)
  | .builtin name, hc => fun args => .of_reads (h.builtin name hc args)
  | .command, hc => fun args =>
    have hlt := (h.command hc).threads_dispatchThread host args
    ⟨fun env => (hlt env).le, fun env env' _ => .inr ⟨hlt env, hlt env'⟩⟩

end

/-- With these variables, evaluating the expression dispatches a command. -/
def Dispatches (host : Host W) (call : Call W) (fs : List Frame) (e : Expr) : Prop :=
  ∃ env : Env W, env.frames = fs ∧
    env.threads < (evalExpr host (dispatchThread host call) e env).state.threads

/-- With these variables, the expression has this value and evaluating it changes nothing. -/
def HasValue (host : Host W) (call : Call W) (fs : List Frame) (e : Expr) (v : Value) : Prop :=
  ∀ env : Env W, env.frames = fs → evalExpr host (dispatchThread host call) e env = .ok v env

/-- With these variables, the expression is evaluated to `b`. -/
def Yields (host : Host W) (call : Call W) (fs : List Frame) (e : Expr) (b : Bool) : Prop :=
  ∃ v, HasValue host call fs e v ∧ asBool v = .ok b

section

variable {e : Expr} {fs : List Frame} {env env' : Env W} {v : Value}

theorem HasValue.not_dispatches (h : HasValue host call fs e v) : ¬ Dispatches host call fs e := by
  rintro ⟨env, hfs, hlt⟩
  rw [h env hfs] at hlt
  exact Nat.lt_irrefl _ hlt

theorem Yields.unique {b b' : Bool} (h : Yields host call fs e b) (h' : Yields host call fs e b')
    (henv : env.frames = fs) : b = b' := by
  obtain ⟨v, hv, hb⟩ := h
  obtain ⟨v', hv', hb'⟩ := h'
  cases (hv env henv).symm.trans (hv' env henv)
  exact Except.ok.inj (hb.symm.trans hb')

variable (hs : Settled host call (callees e))

include hs

theorem Settled.evalExpr_readsUntil :
    ReadsUntil Env.frames Env.threads (evalExpr host (dispatchThread host call) e) :=
  judged_evalExpr evaluates_readsUntil e hs.readsUntil

theorem Settled.evalExpr_leaves : Leaves After (evalExpr host (dispatchThread host call) e) :=
  judged_evalExpr evaluates_after e hs.leaves

theorem Settled.dispatches_iff (henv : env.frames = fs) : Dispatches host call fs e ↔
    env.threads < (evalExpr host (dispatchThread host call) e env).state.threads := by
  refine ⟨fun ⟨env₀, h₀, hlt⟩ => ?_, fun hlt => ⟨env, henv, hlt⟩⟩
  rcases hs.evalExpr_readsUntil.alike env₀ env (henv.trans h₀.symm) with ⟨x, hx, -⟩ | ⟨-, h⟩
  · rw [hx, lift_state] at hlt
    exact absurd hlt (Nat.lt_irrefl _)
  · exact h

/-- A part that returned dispatches a command with these variables, or has a value. -/
theorem Settled.again (hv : evalExpr host (dispatchThread host call) e env = .ok v env')
    (henv : env.frames = fs) : Dispatches host call fs e ∨ HasValue host call fs e v := by
  by_cases hd : Dispatches host call fs e
  · exact .inl hd
  · exact .inr fun env₀ h₀ => hs.evalExpr_readsUntil.again hv (h₀.trans henv.symm)
      fun hlt => hd ⟨env₀, h₀, hlt⟩

/-- It has a value if nothing was dispatched. -/
theorem Settled.hasValue (hv : evalExpr host (dispatchThread host call) e env = .ok v env')
    (hle : env'.threads ≤ env.threads) : HasValue host call env.frames e v := by
  refine (hs.again hv rfl).resolve_left fun hd => ?_
  have hlt := (hs.dispatches_iff rfl).1 hd
  rw [hv] at hlt
  exact Nat.lt_irrefl _ (hlt.trans_le hle)

end

/-! ## The spots of an expression -/

mutual

/-- The outermost parts that the walk evaluates, in its order. -/
def spots : Expr → List Expr
  | .matchesBlock target entries exhaustive => [.matchesBlock target entries exhaustive]
  | .logical op left right => [.logical op left right]
  | .binary _ left right => spots left ++ spots right
  | .notEmpty operand | .negate operand => spots operand
  | .pureCall _ args => spotsAny args
  | .thread lhs args => spots lhs ++ spotsAny args
  | .list elems => spotsAny elems
  | .interp segments => spotsSegment segments
  | .literal _ _ | .varRef _ _ | .adapter _ _ _ | .record _ | .not _ => []

def spotsAny : List Expr → List Expr
  | [] => []
  | e :: es => spots e ++ spotsAny es

def spotsSegment : List Segment → List Expr
  | [] => []
  | .text _ :: segs => spotsSegment segs
  | .expr e :: segs => spots e ++ spotsSegment segs

end

def isSpot : Expr → Bool
  | .matchesBlock _ _ _ | .logical _ _ _ => true
  | _ => false

/-- What the form of an expression says of a spot of it. -/
structure SpotOf (o : Expr) (cs : List Callee) (size : Nat) : Prop where
  isSpot : isSpot o = true
  callees : callees o ⊆ cs
  size : sizeOf o ≤ size

theorem SpotOf.mono {o : Expr} {cs ds : List Callee} {n k : Nat} (h : SpotOf o cs n)
    (hsub : cs ⊆ ds) (hle : n ≤ k) : SpotOf o ds k :=
  ⟨h.isSpot, fun _ hc => hsub (h.callees hc), h.size.trans hle⟩

theorem SpotOf.append {os os' : List Expr} {cs ds : List Callee} {n n' k : Nat}
    (h : ∀ o ∈ os, SpotOf o cs n) (h' : ∀ o ∈ os', SpotOf o ds n') (hn : n ≤ k) (hn' : n' ≤ k) :
    ∀ o ∈ os ++ os', SpotOf o (cs ++ ds) k := by
  intro o ho
  rcases mem_append.1 ho with ho | ho
  · exact (h o ho).mono (subset_append_left _ _) hn
  · exact (h' o ho).mono (subset_append_right _ _) hn'

mutual

theorem spotOf : ∀ e : Expr, ∀ o ∈ spots e, SpotOf o (callees e) (sizeOf e)
  | .matchesBlock target entries exhaustive, o, ho => by
    cases mem_singleton.1 ho
    exact ⟨rfl, fun _ h => h, le_refl _⟩
  | .logical op left right, o, ho => by
    cases mem_singleton.1 ho
    exact ⟨rfl, fun _ h => h, le_refl _⟩
  | .binary op left right, o, ho =>
    SpotOf.append (spotOf left) (spotOf right) (by simp +arith) (by simp +arith) o ho
  | .notEmpty operand, o, ho => (spotOf operand o ho).mono (fun _ h => h) (by simp)
  | .negate operand, o, ho => (spotOf operand o ho).mono (fun _ h => h) (by simp)
  | .pureCall name args, o, ho => (spotOf_any args o ho).mono (subset_cons_self _ _)
      (by simp +arith)
  | .thread lhs args, o, ho =>
    (SpotOf.append (spotOf lhs) (spotOf_any args) (by simp +arith) (by simp +arith) o ho).mono
      (subset_cons_self _ _) (le_refl _)
  | .list elems, o, ho => (spotOf_any elems o ho).mono (fun _ h => h) (by simp)
  | .interp segments, o, ho => (spotOf_segment segments o ho).mono (fun _ h => h) (by simp)
  | .literal _ _, o, ho | .varRef _ _, o, ho | .adapter _ _ _, o, ho | .record _, o, ho
  | .not _, o, ho => nomatch ho

theorem spotOf_any : ∀ es : List Expr, ∀ o ∈ spotsAny es, SpotOf o (calleesAny es) (sizeOf es)
  | [], o, ho => nomatch ho
  | e :: es, o, ho => SpotOf.append (spotOf e) (spotOf_any es) (by simp +arith)
      (by simp +arith) o ho

theorem spotOf_segment :
    ∀ segs : List Segment, ∀ o ∈ spotsSegment segs, SpotOf o (calleesSegment segs) (sizeOf segs)
  | [], o, ho => nomatch ho
  | .text s :: segs, o, ho => (spotOf_segment segs o ho).mono (fun _ h => h) (by simp +arith)
  | .expr e :: segs, o, ho =>
    SpotOf.append (spotOf e) (spotOf_segment segs) (by simp +arith) (by simp +arith) o ho

end

/-! ## The walk is a search -/

section Search

variable (m n k : Eval W (Option Expr))

theorem orFind_none : orFind m (pure none) = m := by
  funext env
  unfold orFind
  rw [bind_apply]
  rcases m env with ⟨_ | _, _⟩ | _ | _ <;> rfl

theorem orFind_assoc : orFind (orFind m n) k = orFind m (orFind n k) := by
  funext env
  unfold orFind
  rw [bind_apply, bind_apply, bind_apply]
  rcases m env with ⟨_ | _, _⟩ | _ | _ <;> rfl

end Search

theorem anyFailedMatches_append (es es' : List Expr) : anyFailedMatches host call (es ++ es') =
    orFind (anyFailedMatches host call es) (anyFailedMatches host call es') := by
  induction es with
  | nil => rfl
  | cons e es ih => rw [List.cons_append, anyFailedMatches, anyFailedMatches, ih, orFind_assoc]

/-- **The walk is a search through the spots.** -/
theorem findFailedMatches_eq (e : Expr) :
    findFailedMatches host call e = anyFailedMatches host call (spots e) := by
  refine spots.induct
    (fun e => findFailedMatches host call e = anyFailedMatches host call (spots e))
    (fun segs => anyFailedSegment host call segs = anyFailedMatches host call (spotsSegment segs))
    (fun es => anyFailedMatches host call es = anyFailedMatches host call (spotsAny es))
    ?_ ?_ ?_ ?_ ?_ ?_ ?_ ?_ ?_ ?_ ?_ ?_ ?_ ?_ ?_ ?_ ?_ ?_ ?_ e <;>
    simp_all [spots, spotsAny, spotsSegment, findFailedMatches, anyFailedMatches, anyFailedSegment,
      anyFailedMatches_append, orFind_none]

/-! ## Spots are evaluated with the expression -/

/-- The part is evaluated between the two states, and returns. -/
def During (host : Host W) (call : Call W) (o : Expr) (env env₁ : Env W) : Prop :=
  ∃ env₂ w env₃, After env env₂ ∧ evalExpr host (dispatchThread host call) o env₂ = .ok w env₃ ∧
    After env₃ env₁

/-- The parts are evaluated when the computation returns, which leaves the variables. -/
structure Visits (host : Host W) (call : Call W) {α : Type} (os : List Expr) (m : Eval W α) :
    Prop where
  leaves : Leaves After m
  visits : ∀ env a env₁, m env = .ok a env₁ → ∀ o ∈ os, During host call o env env₁

namespace Visits

variable {α β : Type} {m : Eval W α} {f : α → Eval W β} {os os' : List Expr}

theorem of_leaves (h : Leaves After m) : Visits host call [] m :=
    ⟨h, fun _ _ _ _ _ ho => nomatch ho⟩

theorem part {e : Expr} (h : Leaves After (evalExpr host (dispatchThread host call) e)) :
    Visits host call [e] (evalExpr host (dispatchThread host call) e) := by
  refine ⟨h, fun env v env₁ hv o ho => ?_⟩
  cases mem_singleton.1 ho
  exact ⟨env, v, env₁, .refl _, hv, .refl _⟩

theorem mapErr (h : Visits host call os m) (g : Err → Err) : Visits host call os (mapErr g m) :=
  ⟨evaluates_after.mapErr h.leaves g, fun env a env₁ hm => h.visits env a env₁ (mapErr_eq_ok.1 hm)⟩

theorem bind (hm : Visits host call os m) (hf : ∀ a, Visits host call os' (f a)) :
    Visits host call (os ++ os') (m >>= f) := by
  refine ⟨evaluates_after.bind hm.leaves fun a => (hf a).leaves, fun env b env₁ h o ho => ?_⟩
  obtain ⟨a, env₂, ha, hb⟩ := bind_eq_ok.1 h
  rcases mem_append.1 ho with ho | ho
  · obtain ⟨env₃, w, env₄, h3, hw, h4⟩ := hm.visits env a env₂ ha o ho
    exact ⟨env₃, w, env₄, h3, hw, h4.trans ((hf a).leaves env₂ b env₁ hb)⟩
  · obtain ⟨env₃, w, env₄, h3, hw, h4⟩ := (hf a).visits env₂ b env₁ hb o ho
    exact ⟨env₃, w, env₄, (hm.leaves env a env₂ ha).trans h3, hw, h4⟩

theorem andThen (hm : Visits host call os m) (hf : ∀ a, Leaves After (f a)) :
    Visits host call os (m >>= f) :=
  append_nil os ▸ hm.bind fun a => of_leaves (hf a)

/-- Without a bind handler nothing is evaluated. -/
theorem guarded {c : Bool} {er : Err} (h : Visits host call os m) :
    Visits host call os (if c = true then fail er >>= fun _ : PUnit => m else m) := by
  cases c with
  | false => exact h
  | true => exact ⟨fun _ _ _ hm => (nomatch hm), fun _ _ _ hm => nomatch hm⟩

/-- Literals and references are arguments of their own; of everything else the value is taken. -/
theorem argOf {e : Expr} {ev : Eval W Value} (h : Visits host call (spots e) ev) :
    Visits host call (spots e) (argOf e ev) := by
  refine ⟨evaluates_after.argOf e h.leaves, fun env a env₁ ha o ho => ?_⟩
  have hvalue (er : Err) : Visits host call (spots e)
      (ev >>= fun v => if v.isNil then fail er else lift (valueToArg "" v)) :=
    h.andThen fun v => by
      split
      exacts [evaluates_after.fail _, evaluates_after.lift _]
  unfold Shell.argOf at ha
  split at ha
  · cases ho
  · cases ho
  · cases ho
  · exact (hvalue _).visits env a env₁ ha o ho
  · exact (hvalue _).visits env a env₁ ha o ho

end Visits

mutual

/-- **Every spot is evaluated when the expression is.** -/
theorem visits_evalExpr : ∀ e : Expr, Settled host call (callees e) →
    Visits host call (spots e) (evalExpr host (dispatchThread host call) e)
  | .matchesBlock target entries exhaustive, hs => .part hs.evalExpr_leaves
  | .logical op left right, hs => .part hs.evalExpr_leaves
  | .binary op left right, hs => by
    rw [evalExpr]
    exact (visits_evalExpr left hs.left).bind fun l =>
      (visits_evalExpr right hs.right).andThen fun r => evaluates_after.lift _
  | .notEmpty operand, hs => by
    rw [evalExpr]
    exact (visits_evalExpr operand hs).andThen fun v => evaluates_after.lift _
  | .negate operand, hs => by
    rw [evalExpr]
    exact (visits_evalExpr operand hs).andThen fun v => evaluates_after.lift _
  | .pureCall name args, hs => by
    have hargs := visits_evalArgs args (hs.mono (subset_cons_self _ _))
    rw [evalExpr]
    exact ((hargs.mapErr _).andThen fun as => evaluates_after.bind
      (hs.leaves (.builtin name) (mem_cons_self ..) as) (evaluates_after.primaryOf name)).guarded
  | .thread lhs args, hs => by
    have hparts : Settled host call (callees lhs ++ calleesAny args) :=
      hs.mono (subset_cons_self _ _)
    have hrest := (visits_evalArgs args hparts.right).bind fun as =>
      ((visits_evalExpr lhs hparts.left).argOf.mapErr (flatten "thread")).andThen fun a =>
        evaluates_after.bind (hs.leaves .command (mem_cons_self ..) (as ++ [a]))
          (evaluates_after.primaryOf "thread")
    rw [evalExpr]
    -- the arguments are evaluated before the piped value
    exact Visits.guarded ⟨hrest.leaves, fun env a env₁ h o ho =>
      hrest.visits env a env₁ h o (mem_append.2 (mem_append.1 ho).symm)⟩
  | .list elems, hs => by
    rw [evalExpr]
    exact (visits_evalList elems hs).andThen fun vs => evaluates_after.pure _
  | .interp segments, hs => by
    rw [evalExpr]
    exact (visits_evalSegments segments hs).andThen fun s => evaluates_after.pure _
  | .literal _ _, hs | .varRef _ _, hs | .adapter _ _ _, hs | .record _, hs | .not _, hs =>
    .of_leaves hs.evalExpr_leaves

theorem visits_evalList : ∀ es : List Expr, Settled host call (calleesAny es) →
    Visits host call (spotsAny es) (evalList host (dispatchThread host call) es)
  | [], _ => by
    rw [evalList]
    exact .of_leaves (evaluates_after.pure _)
  | e :: es, hs => by
    rw [evalList]
    exact (visits_evalExpr e hs.left).bind fun v =>
      (visits_evalList es hs.right).andThen fun vs => evaluates_after.pure _

theorem visits_evalSegments : ∀ segs : List Segment, Settled host call (calleesSegment segs) →
    Visits host call (spotsSegment segs) (evalSegments host (dispatchThread host call) segs)
  | [], _ => by
    rw [evalSegments]
    exact .of_leaves (evaluates_after.pure _)
  | .text t :: segs, hs => by
    rw [evalSegments]
    exact (visits_evalSegments segs hs).andThen fun s => evaluates_after.pure _
  | .expr e :: segs, hs => by
    rw [evalSegments]
    exact (visits_evalExpr e hs.left).bind fun v => (Visits.of_leaves (evaluates_after.lift _)).bind
      fun t => (visits_evalSegments segs hs.right).andThen fun rest => evaluates_after.pure _

theorem visits_evalArgs : ∀ es : List Expr, Settled host call (calleesAny es) →
    Visits host call (spotsAny es) (evalArgs host (dispatchThread host call) es)
  | [], _ => by
    rw [evalArgs]
    exact .of_leaves (evaluates_after.pure _)
  | e :: es, hs => by
    rw [evalArgs]
    exact (visits_evalExpr e hs.left).argOf.bind fun a =>
      (visits_evalArgs es hs.right).andThen fun as => evaluates_after.pure _

end

theorem HasValue.spot {e o : Expr} {v : Value} {env : Env W}
    (h : HasValue host call env.frames e v) (hs : Settled host call (callees e))
    (ho : o ∈ spots e) : ∃ w, HasValue host call env.frames o w := by
  obtain ⟨env₂, w, env₃, h2, hw, h3⟩ := (visits_evalExpr e hs).visits env v env (h env rfl) o ho
  have hso := hs.mono (spotOf e o ho).callees
  exact ⟨w, h2.1 ▸ hso.hasValue hw (h3.2.trans h2.2)⟩

/-! ## The operands of `and` and `or` -/

/-- The operands as evaluation and walk take them: the right one where the left one does not decide.
The second component is the value of the whole. -/
def operandsOf (host : Host W) (call : Call W) (op : LogicalOp) (left right : Expr) :
    Eval W (Bool × Bool) := do
  let l ← evalExpr host (dispatchThread host call) left
  let lb ← lift (asBool l)
  if lb = (op == .and) then do
    let r ← evalExpr host (dispatchThread host call) right
    let rb ← lift (asBool r)
    pure (lb, rb)
  else pure (lb, lb)

/-- What the walk does after it has evaluated the operands. -/
def walkOperands (host : Host W) (call : Call W) (op : LogicalOp) (left right : Expr)
    (p : Bool × Bool) : Eval W (Option Expr) :=
  if p.2 then pure none
  else
    match op with
    | .and => if p.1 then findFailedMatches host call right else findFailedMatches host call left
    | .or => orFind (findFailedMatches host call left) (findFailedMatches host call right)

section

variable {op : LogicalOp} {left right : Expr}

theorem evalExpr_logical : evalExpr host (dispatchThread host call) (.logical op left right) =
    operandsOf host call op left right >>= fun p => pure (.bool p.2) := by
  rw [evalExpr, operandsOf, bind_assoc]
  refine bind_congr fun l => ?_
  rw [bind_assoc]
  refine bind_congr fun lb => ?_
  cases op <;> cases lb <;> simp

theorem findFailedMatches_logical : findFailedMatches host call (.logical op left right) =
    operandsOf host call op left right >>= walkOperands host call op left right := by
  rw [findFailedMatches, operandsOf, bind_assoc]
  refine bind_congr fun l => ?_
  rw [bind_assoc]
  refine bind_congr fun lb => ?_
  cases op <;> cases lb <;> simp [walkOperands]

/-- An `and` or `or` that has a value: so do the operands that were taken. -/
theorem HasValue.operands {v : Value} {env : Env W}
    (h : HasValue host call env.frames (.logical op left right) v)
    (hs : Settled host call (callees left ++ callees right)) :
    ∃ p : Bool × Bool, operandsOf host call op left right env = .ok p env ∧ v = .bool p.2 ∧
      Yields host call env.frames left p.1 ∧
      if p.1 = (op == .and) then Yields host call env.frames right p.2 else p.2 = p.1 := by
  have hsl := hs.left
  have hsr := hs.right
  have hv := h env rfl
  rw [evalExpr_logical] at hv
  obtain ⟨p, env', hp, hv⟩ := bind_eq_ok.1 hv
  cases hv
  refine ⟨p, hp, rfl, ?_⟩
  unfold operandsOf at hp
  obtain ⟨l, env₂, hl, hp⟩ := bind_eq_ok.1 hp
  obtain ⟨lb, _, hlift, hp⟩ := bind_eq_ok.1 hp
  obtain ⟨hlb, rfl⟩ := lift_eq_ok.1 hlift
  split at hp
  next hop =>
    obtain ⟨r, env₃, hr, hp⟩ := bind_eq_ok.1 hp
    obtain ⟨rb, _, hlift, hp⟩ := bind_eq_ok.1 hp
    obtain ⟨hrb, rfl⟩ := lift_eq_ok.1 hlift
    cases hp
    have hleft := hsl.hasValue hl (hsr.evalExpr_leaves _ _ _ hr).2
    cases hl.symm.trans (hleft env rfl)
    rw [if_pos hop]
    exact ⟨⟨l, hleft, hlb⟩, r, hsr.hasValue hr (Nat.le_refl _), hrb⟩
  next hop =>
    cases hp
    rw [if_neg hop]
    exact ⟨⟨l, hsl.hasValue hl (Nat.le_refl _), hlb⟩, rfl⟩

end

/-! ## Blocks to blame -/

/-- A `matches` block that the walk may report from a spot: it is evaluated with the spot, to false,
and so are the `and`s and `or`s around it. -/
inductive Blames (host : Host W) (call : Call W) (fs : List Frame) : Expr → Expr → Prop
  | block {target : Expr} {entries : List MatchEntry} {exhaustive : Bool} :
      Yields host call fs (.matchesBlock target entries exhaustive) false →
      Blames host call fs (.matchesBlock target entries exhaustive)
        (.matchesBlock target entries exhaustive)
  | left {op : LogicalOp} {left right o m : Expr} : Yields host call fs left false →
      (op = .or → Yields host call fs right false) → o ∈ spots left → Blames host call fs o m →
      Blames host call fs (.logical op left right) m
  | right {op : LogicalOp} {left right o m : Expr} : Yields host call fs left (op == .and) →
      Yields host call fs right false → o ∈ spots right → Blames host call fs o m →
      Blames host call fs (.logical op left right) m

/-- The search ends and changes nothing, and reports something as said precisely if there is one. -/
def Finds (P : Expr → Prop) (m : Eval W (Option Expr)) (env : Env W) : Prop :=
  ∃ r, m env = .ok r env ∧ (∀ x ∈ r, P x) ∧ (r = none → ∀ x, ¬ P x)

section

variable {P Q : Expr → Prop} {m n : Eval W (Option Expr)} {env : Env W}

theorem Finds.congr (h : Finds P m env) (hpq : ∀ x, P x ↔ Q x) : Finds Q m env :=
  funext (fun x => propext (hpq x)) ▸ h

theorem Finds.nothing (h : ∀ x, ¬ P x) : Finds P (pure none) env := ⟨none, rfl, nofun, fun _ => h⟩

theorem orFind_of_none (hm : m env = .ok none env) : orFind m n env = n env := by
  unfold orFind
  rw [bind_of_ok hm]

theorem orFind_of_some {x : Expr} (hm : m env = .ok (some x) env) :
    orFind m n env = .ok (some x) env := by
  unfold orFind
  rw [bind_of_ok hm]
  rfl

theorem Finds.orElse (hm : Finds P m env) (hn : Finds Q n env) :
    Finds (fun x => P x ∨ Q x) (orFind m n) env := by
  obtain ⟨_ | x, hr, hx, hnone⟩ := hm
  · obtain ⟨r, hr', hx', hnone'⟩ := hn
    refine ⟨r, (orFind_of_none hr).trans hr', fun x h => .inr (hx' x h), fun h x hpq => ?_⟩
    exact hpq.elim (hnone rfl x) (hnone' h x)
  · exact ⟨some x, orFind_of_some hr, fun y hy => .inl (hx y hy), nofun⟩

theorem Finds.any {R : Expr → Expr → Prop} {os : List Expr}
    (h : ∀ o ∈ os, Finds (R o) (findFailedMatches host call o) env) :
    Finds (fun x => ∃ o ∈ os, R o x) (anyFailedMatches host call os) env := by
  induction os with
  | nil => exact .nothing (by simp)
  | cons o os ih =>
    rw [anyFailedMatches]
    refine ((h o mem_cons_self).orElse (ih fun o ho => h o (mem_cons_of_mem _ ho))).congr
      fun x => by simp

end

/-- What there is to blame for an `and` or `or`, by the values of the operands and of the whole. -/
theorem blames_logical {op : LogicalOp} {left right x : Expr} {env : Env W} {lb b : Bool}
    (hyl : Yields host call env.frames left lb)
    (hyr : if lb = (op == .and) then Yields host call env.frames right b else b = lb) :
    (b = false ∧ ((lb = false ∧ ∃ o ∈ spots left, Blames host call env.frames o x) ∨
      (lb = (op == .and) ∧ ∃ o ∈ spots right, Blames host call env.frames o x))) ↔
    Blames host call env.frames (.logical op left right) x := by
  constructor
  · rintro ⟨rfl, ⟨rfl, o, ho, hb⟩ | ⟨rfl, o, ho, hb⟩⟩
    · refine .left hyl (fun hor => ?_) ho hb
      subst hor
      exact hyr
    · rw [if_pos rfl] at hyr
      exact .right hyl hyr ho hb
  · intro h
    cases h with
    | left hl hr ho hb =>
      obtain rfl := hyl.unique hl rfl
      refine ⟨?_, .inl ⟨rfl, _, ho, hb⟩⟩
      cases op with
      | and => exact hyr
      | or => exact Yields.unique hyr (hr rfl) rfl
    | right hl hr ho hb =>
      obtain rfl := hyl.unique hl rfl
      rw [if_pos rfl] at hyr
      exact ⟨hyr.unique hr rfl, .inr ⟨rfl, _, ho, hb⟩⟩

/-- **From a spot that has a value the walk changes nothing, and it reports a block precisely if
there is one to blame.** -/
theorem finds_spot {env : Env W} : ∀ (o : Expr) {v : Value}, isSpot o = true →
    Settled host call (callees o) → HasValue host call env.frames o v →
    Finds (Blames host call env.frames o) (findFailedMatches host call o) env
  | .matchesBlock target entries exhaustive, v, _, hs, hv => by
    unfold Finds
    rw [findFailedMatches, bind_of_ok (hv env rfl)]
    refine ⟨_, rfl, fun x hx => ?_, fun hnone x hx => ?_⟩
    · split at hx
      next hb =>
        cases hx
        refine .block ⟨v, hv, ?_⟩
        unfold asBool
        rw [eq_of_beq hb]
      next => cases hx
    · cases hx with
      | block hy =>
        obtain ⟨w, hw, hb⟩ := hy
        cases (hv env rfl).symm.trans (hw env rfl)
        unfold asBool at hb
        split at hb
        next b hbool =>
          cases hb
          simp [hbool] at hnone
        next => cases hb
  | .logical op left right, v, _, hs, hv => by
    have hsl : Settled host call (callees left) := hs.left
    have hsr : Settled host call (callees right) := hs.right
    -- the walk into an operand is a search through its spots, which are smaller
    have hpart {e : Expr} {w : Value} (hsize : sizeOf e ≤ sizeOf left + sizeOf right)
        (he : Settled host call (callees e)) (hw : HasValue host call env.frames e w) :
        Finds (fun x => ∃ o ∈ spots e, Blames host call env.frames o x)
          (findFailedMatches host call e) env := by
      rw [findFailedMatches_eq]
      refine .any fun o ho => ?_
      obtain ⟨u, hu⟩ := hw.spot he ho
      have hle := (spotOf e o ho).size
      exact finds_spot o (spotOf e o ho).isSpot (he.mono (spotOf e o ho).callees) hu
    have hleft {l : Value} := hpart (w := l) (by omega) hsl
    have hright {r : Value} := hpart (w := r) (by omega) hsr
    obtain ⟨⟨lb, b⟩, hp, -, hyl, hyr⟩ := hv.operands hs
    unfold Finds
    rw [findFailedMatches_logical, bind_of_ok hp]
    refine Finds.congr ?_ fun x => blames_logical hyl hyr
    obtain ⟨l, hl, -⟩ := id hyl
    cases b with
    | true => exact .nothing (by simp)
    | false =>
      cases op <;> cases lb
      · exact (hleft hl).congr (by simp)
      · obtain ⟨r, hr, -⟩ := hyr
        exact (hright hr).congr (by simp)
      · obtain ⟨r, hr, -⟩ := hyr
        refine ((hleft hl).orElse (hright hr)).congr ?_
        simp [show (LogicalOp.or == LogicalOp.and) = false from rfl]
      · cases hyr
termination_by o => sizeOf o
decreasing_by simp_wf; omega

/-! ## Dispatches of the walk -/

theorem threads_le_orFind {m n : Eval W (Option Expr)}
    (hn : ∀ env, env.threads ≤ (n env).state.threads)
    (env : Env W) : (m env).state.threads ≤ (orFind m n env).state.threads := by
  refine ticks_le_bind (fun r env => ?_) env
  cases r with
  | none => exact hn env
  | some x => exact Nat.le_refl _

theorem threads_le_any {os : List Expr}
    (h : ∀ o ∈ os, ∀ env, env.threads ≤ (findFailedMatches host call o env).state.threads) :
    ∀ env, env.threads ≤ (anyFailedMatches host call os env).state.threads := by
  induction os with
  | nil => exact fun env => Nat.le_refl _
  | cons o os ih =>
    intro env
    rw [anyFailedMatches]
    exact (h o mem_cons_self env).trans
      (threads_le_orFind (ih fun o ho => h o (mem_cons_of_mem _ ho)) env)

theorem threads_le_operandsOf {op : LogicalOp} {left right : Expr}
    (hs : Settled host call (callees left ++ callees right)) (env : Env W) :
    env.threads ≤ (operandsOf host call op left right env).state.threads := by
  have h := evaluates_readsUntil (W := W)
  refine (h.bind hs.left.evalExpr_readsUntil fun l =>
    h.bind (h.lift _) fun lb => ?_).mono env
  split
  · exact h.bind hs.right.evalExpr_readsUntil fun r =>
      h.bind (h.lift _) fun rb => h.pure _
  · exact h.pure _

theorem threads_le_walkOperands {left right : Expr}
    (hl : ∀ env, env.threads ≤ (findFailedMatches host call left env).state.threads)
    (hr : ∀ env, env.threads ≤ (findFailedMatches host call right env).state.threads)
    (op : LogicalOp) (p : Bool × Bool) (env : Env W) :
    env.threads ≤ (walkOperands host call op left right p env).state.threads := by
  unfold walkOperands
  split
  · exact Nat.le_refl _
  · split
    · split
      · exact hr env
      · exact hl env
    · exact (hl env).trans (threads_le_orFind hr env)

/-- The walk takes no dispatch back. -/
theorem threads_le_spot : ∀ (o : Expr), isSpot o = true → Settled host call (callees o) →
    ∀ env : Env W, env.threads ≤ (findFailedMatches host call o env).state.threads
  | .matchesBlock target entries exhaustive, _, hs, env => by
    rw [findFailedMatches]
    exact (hs.evalExpr_readsUntil.mono env).trans (ticks_le_bind (fun _ _ => Nat.le_refl _) env)
  | .logical op left right, _, hs, env => by
    have hpart (e : Expr) (hsize : sizeOf e ≤ sizeOf left + sizeOf right)
        (he : Settled host call (callees e)) (env : Env W) :
        env.threads ≤ (findFailedMatches host call e env).state.threads := by
      rw [findFailedMatches_eq]
      refine threads_le_any (fun o ho => ?_) env
      have hle := (spotOf e o ho).size
      exact threads_le_spot o (spotOf e o ho).isSpot (he.mono (spotOf e o ho).callees)
    have hl := hpart left (by omega) hs.left
    have hr := hpart right (by omega) hs.right
    rw [findFailedMatches_logical]
    exact (threads_le_operandsOf hs env).trans
      (ticks_le_bind (threads_le_walkOperands hl hr op) env)
termination_by o => sizeOf o
decreasing_by simp_wf; omega

theorem Settled.threads_le_walk {e : Expr} (hs : Settled host call (callees e)) (env : Env W) :
    env.threads ≤ (findFailedMatches host call e env).state.threads := by
  rw [findFailedMatches_eq]
  exact threads_le_any (fun o ho =>
    threads_le_spot o (spotOf e o ho).isSpot (hs.mono (spotOf e o ho).callees)) env

/-- The search through these spots dispatches a command: one of them does, and none before it has a
block to blame. -/
def Repeats (host : Host W) (call : Call W) (fs : List Frame) : List Expr → Prop
  | [] => False
  | o :: os => Dispatches host call fs o ∨
      (∀ m, ¬ Blames host call fs o m) ∧ Repeats host call fs os

section

variable {o : Expr} {os : List Expr} {env : Env W}

/-- From a spot that dispatches a command the walk does. -/
theorem threads_lt_of_dispatches (ho : isSpot o = true) (hs : Settled host call (callees o))
    (hd : Dispatches host call env.frames o) :
    env.threads < (findFailedMatches host call o env).state.threads := by
  have hlt := (hs.dispatches_iff rfl).1 hd
  cases o with
  | matchesBlock target entries exhaustive =>
    rw [findFailedMatches]
    exact hlt.trans_le (ticks_le_bind (fun _ _ => Nat.le_refl _) env)
  | logical op left right =>
    have hl : Settled host call (callees left) := hs.left
    have hr : Settled host call (callees right) := hs.right
    rw [evalExpr_logical, bind_apply] at hlt
    rw [findFailedMatches_logical]
    refine Nat.lt_of_lt_of_le ?_ (ticks_le_bind
      (threads_le_walkOperands hl.threads_le_walk hr.threads_le_walk op) env)
    rcases hp : operandsOf host call op left right env with ⟨_, _⟩ | ⟨_, _⟩ | ⟨_, _⟩ <;>
      rwa [hp] at hlt
  | _ => simp [isSpot] at ho

/-- What is known of the spots after an evaluation that returned. -/
structure Revisited (host : Host W) (call : Call W) (fs : List Frame) (o : Expr) : Prop where
  isSpot : isSpot o = true
  settled : Settled host call (callees o)
  returned : Dispatches host call fs o ∨ ∃ v, HasValue host call fs o v

/-- **The search dispatches a command, or it ends and changes nothing.** -/
theorem search_cases (h : ∀ o ∈ os, Revisited host call env.frames o) :
    (Repeats host call env.frames os ∧
      env.threads < (anyFailedMatches host call os env).state.threads) ∨
    (¬ Repeats host call env.frames os ∧ ∃ r, anyFailedMatches host call os env = .ok r env) := by
  induction os with
  | nil => exact .inr ⟨id, none, rfl⟩
  | cons o os ih =>
    have hos := fun o ho => h o (mem_cons_of_mem _ ho)
    have hmono := threads_le_any fun o ho => (hos o ho).settled.threads_le_walk
    obtain ⟨hspot, hs, hd | ⟨v, hv⟩⟩ := h o mem_cons_self
    · refine .inl ⟨.inl hd, (threads_lt_of_dispatches hspot hs hd).trans_le ?_⟩
      rw [anyFailedMatches]
      exact threads_le_orFind hmono env
    · obtain ⟨_ | x, hr, hx, hnone⟩ := finds_spot o hspot hs hv
      · rw [anyFailedMatches, orFind_of_none hr]
        refine (ih hos).imp (fun ⟨hrep, hlt⟩ => ⟨.inr ⟨hnone rfl, hrep⟩, hlt⟩)
          fun ⟨hrep, hr⟩ => ⟨fun h => ?_, hr⟩
        exact h.elim hv.not_dispatches fun h => hrep h.2
      · rw [anyFailedMatches, orFind_of_some hr]
        refine .inr ⟨fun h => ?_, _, rfl⟩
        exact h.elim hv.not_dispatches fun h => h.1 x (hx x rfl)

end

/-- After an evaluation that returned, with the variables as they were. -/
theorem revisited_of_evalExpr {e o : Expr} {v : Value} {env env₁ : Env W}
    (hs : Settled host call (callees e))
    (hv : evalExpr host (dispatchThread host call) e env = .ok v env₁) (ho : o ∈ spots e) :
    Revisited host call env.frames o := by
  obtain ⟨env₂, w, env₃, h2, hw, -⟩ := (visits_evalExpr e hs).visits env v env₁ hv o ho
  have hso := hs.mono (spotOf e o ho).callees
  exact ⟨(spotOf e o ho).isSpot, hso, (hso.again hw h2.1).imp_right fun h => ⟨w, h⟩⟩

/-! ## What is reported -/

/-- A `matches` block, or blocks under `and` and `or` only. -/
def onlyMatches : Expr → Bool
  | .matchesBlock _ _ _ => true
  | .logical _ left right => onlyMatches left && onlyMatches right
  | _ => false

theorem spots_of_onlyMatches {e : Expr} (h : onlyMatches e = true) : spots e = [e] := by
  cases e <;> simp_all [onlyMatches, spots]

/-- There is a block to blame for every false combination of blocks. -/
theorem blames_of_onlyMatches {env : Env W} : ∀ e : Expr, Settled host call (callees e) →
    onlyMatches e = true → Yields host call env.frames e false →
    ∃ m, Blames host call env.frames e m
  | .matchesBlock target entries exhaustive, _, _, hy => ⟨_, .block hy⟩
  | .logical op left right, hs, ho, ⟨v, hv, hb⟩ => by
    obtain ⟨hol, hor⟩ : onlyMatches left = true ∧ onlyMatches right = true := by
      simpa [onlyMatches] using ho
    have hsl : Settled host call (callees left) := hs.left
    have hsr : Settled host call (callees right) := hs.right
    have hself {e : Expr} (h : onlyMatches e = true) : e ∈ spots e := by
      simp [spots_of_onlyMatches h]
    obtain ⟨⟨lb, b⟩, -, rfl, hyl, hyr⟩ := hv.operands hs
    obtain rfl : b = false := Except.ok.inj hb
    by_cases hop : lb = (op == .and)
    · rw [if_pos hop] at hyr
      obtain ⟨m, hm⟩ := blames_of_onlyMatches right hsr hor hyr
      exact ⟨m, .right (hop ▸ hyl) hyr (hself hor) hm⟩
    · rw [if_neg hop] at hyr
      obtain rfl : false = lb := hyr
      obtain ⟨m, hm⟩ := blames_of_onlyMatches left hsl hol hyl
      refine ⟨m, .left hyl (fun h => ?_) (hself hol) hm⟩
      subst h
      exact absurd rfl hop

/-- **Of a false expression without `|>`, at most one block is reported, precisely if there is one
to blame**: evaluated with the expression, to false and under no `not`. Of blocks under `and` and
`or` one is reported. -/
theorem failed_matches_reported {e : Expr} {env env₁ : Env W} {v : Value}
    (hb : ∀ name, .builtin name ∈ callees e → Answers host name) (hc : .command ∉ callees e)
    (hv : evalExpr host (dispatchThread host call) e env = .ok v env₁) (hf : asBool v = .ok false)
    (ev : Event) :
    ∃ r : Option Expr, findFailedMatches host call e (env₁.record ev) = .ok r (env₁.record ev) ∧
      (∀ m ∈ r, ∃ o ∈ spots e, Blames host call env.frames o m) ∧
      (r = none → ∀ m, ¬ ∃ o ∈ spots e, Blames host call env.frames o m) ∧
      (onlyMatches e = true → r.isSome = true) := by
  have hs : Settled host call (callees e) := ⟨hb, fun h => absurd h hc⟩
  have hread : Reads Env.frames (evalExpr host (dispatchThread host call) e) :=
    judged_evalExpr evaluates_reads e fun
      | .builtin name, h => hb name h
      | .command, h => absurd h hc
  cases hread.state_eq hv
  have hval : HasValue host call env.frames e v := fun env₂ h => hread.again hv h
  have hfinds : Finds (fun x => ∃ o ∈ spots e, Blames host call env.frames o x)
      (findFailedMatches host call e) (env.record ev) := by
    rw [findFailedMatches_eq]
    refine .any fun o ho => ?_
    obtain ⟨w, hw⟩ := hval.spot hs ho
    exact finds_spot o (spotOf e o ho).isSpot (hs.mono (spotOf e o ho).callees) hw
  obtain ⟨r, hr, hx, hnone⟩ := hfinds
  refine ⟨r, hr, hx, hnone, fun ho => ?_⟩
  obtain ⟨m, hm⟩ := blames_of_onlyMatches e hs ho ⟨v, hval, hf⟩
  cases r with
  | some x => rfl
  | none => exact absurd ⟨e, by simp [spots_of_onlyMatches ho], hm⟩ (hnone rfl m)

/-- `assert {a: 1} matches { a: 2 } and contains`, with a handler that only answers. -/
theorem failed_matches_reported_sample :
    let call : Call Unit := fun _ _ => fail (.script "no defs")
    let block : Expr := .matchesBlock (.record [.mk "a" (.literal "1" false)])
      [.pattern "a" (.literal "2" false)] false
    let e : Expr := .logical .and block (.pureCall "contains" [])
    let env : Env Unit := { frames := [[]], world := () }
    Answers Host.idle "contains" ∧ ∃ r : Option Expr,
      findFailedMatches Host.idle call e (env.record (.clause false false)) =
        .ok r (env.record (.clause false false)) ∧
      ∀ m ∈ r, ∃ o ∈ spots e, Blames Host.idle call [[]] o m := by
  intro call block e env
  have hanswers (name : String) : Answers Host.idle name := fun _ => ⟨fun _ => .ok _, fun _ => rfl⟩
  have hc : .command ∉ callees e := by
    simp [e, block, callees, calleesField, calleesEntry, calleesAny]
  have hv : evalExpr Host.idle (dispatchThread Host.idle call) e env = .ok (.bool false) env := by
    simp only [e, block, evalExpr, evalEntries, evalFields]
    rfl
  obtain ⟨r, hr, hm, -⟩ := failed_matches_reported (fun name _ => hanswers name) hc hv rfl
    (.clause false false)
  exact ⟨hanswers "contains", r, hr, hm⟩

end Bpfman.Shell
