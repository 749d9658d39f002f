import Bpfman.Shell.Eval

/-!
# The executor

One executor runs one unit: the program body or a def. Its side stacks are the open loops, the
saved defer scopes and the active polls; frames, the active defer scope and the number of active
polls live in the shared `Env`.

* `execInstr`: one instruction.
* `runUnit`: the walk over the blocks, with fuel.
* `unwindOnExit`, `drainToAttemptStart`: the two ways scopes are left without their instructions.
* `runDefCall`: a call, with an executor of its own.
* `Program.exec`, `run`: a whole program, and the verdict of the driver.
-/

namespace Bpfman.Shell

open Partiality Comp

variable {W : Type}

/-! ## The state of an executor -/

inductive Slot where
  | empty
  | value (v : Value)
  | argv (args : List Arg)
  | result (r : BindResult)

structure GuardFail where
  primary : String
  args : List Arg
  rc : Envelope

/-- The accumulators of a bind-collect. -/
structure Collect where
  primary : String
  guard : Bool
  results : List Value := []
  values : List Value := []
  ok : Bool := true

/-- An outcome is added; only a successful one adds a value. -/
def Collect.produce (c : Collect) (r : BindResult) : Collect :=
  let c := { c with results := c.results ++ [valueFromOutcome r] }
  if r.rc.ok then { c with values := c.values ++ [r.primary] } else { c with ok := false }

structure LoopState where
  names : List String
  body : BlockId
  exit : BlockId
  entryFrameDepth : Nat
  origin : Value
  length : Nat
  index : Nat := 0
  collect : Option Collect := none

structure PollState where
  timeout : Int
  every : Int
  deadline : Int
  attempt : BlockId
  onSuccess : BlockId
  onTimeout : BlockId
  attemptCount : Nat := 1
  lastRetry : String := ""
  attemptFrameDepth : Nat
  attemptScopeDepth : Nat
  attemptLoopDepth : Nat
  failed : Bool := false
  timedOut : Bool := false

/-- Stacks have their top first. -/
structure Executor where
  temps : Temp → Slot := fun _ => .empty
  bindArgs : Temp → List Arg := fun _ => []
  pendingGuardFail : Option GuardFail := none
  loops : List LoopState := []
  scopes : List (Option (List DeferEntry)) := []
  polls : List PollState := []
  returned : Option Value := none
  localDeferFailures : Nat := 0
  entryFrameDepth : Nat
  inDef : Bool

structure Machine (W : Type) where
  env : Env W
  ex : Executor

abbrev Step (W α : Type) := Comp Halt (Machine W) Err α

/-- How an instruction passes control on. -/
inductive Flow where
  | next (b : BlockId)
  | halt
  | fall
  deriving DecidableEq

namespace Machine

def setEnv (m : Machine W) (env : Env W) : Machine W := { m with env := env }

def mapEx (f : Executor → Executor) (m : Machine W) : Machine W := { m with ex := f m.ex }

def mapEnv (f : Env W → Env W) (m : Machine W) : Machine W := { m with env := f m.env }

end Machine

def onEnv {α : Type} (m : Eval W α) : Step W α := zoom Machine.env Machine.setEnv m

def Executor.setTemp (ex : Executor) (t : Temp) (s : Slot) : Executor :=
  { ex with temps := Function.update ex.temps t s }

def valueAt (t : Temp) : Step W Value := fun m =>
  match m.ex.temps t with
  | .value v => .ok v m
  | _ => .err (.script "exec: expected a value") m

def argvAt (t : Temp) : Step W (List Arg) := fun m =>
  match m.ex.temps t with
  | .argv args => .ok args m
  | _ => .err (.script "exec: expected argv") m

def resultAt (t : Temp) : Step W BindResult := fun m =>
  match m.ex.temps t with
  | .result r => .ok r m
  | _ => .err (.script "exec: expected BindResult") m

/-! ## Dispatch -/

/-- A call of a def: the returned value, and the failures of the def's own deferred commands. -/
abbrev Call (W : Type) := Def → List Arg → Eval W (Option Value × Nat)

def lookupDefHead (args : List Arg) (env : Env W) : Option Def :=
  match args with
  | .word name :: _ => env.getDef name
  | _ => none

/-- The outcome of a call in bind position. -/
def bindResultOf (returned : Option Value) (localDeferFailures : Nat) : BindResult :=
  let rc := if 0 < localDeferFailures then Envelope.failEnvelope else Envelope.okEnvelope
  ⟨rc, returned.getD rc.toValue⟩

def callDefAsBind (call : Call W) (d : Def) (args : List Arg) : Eval W BindResult := do
  let (returned, failures) ← call d args
  pure (bindResultOf returned failures)

section Dispatch

variable (host : Host W) (call : Call W)

/-- `dispatchBindByPolicy`: defs first, then the bind handler. -/
def dispatchBind (args : List Arg) : Eval W BindResult := do
  match ← Comp.read (lookupDefHead args) with
  | some d => callDefAsBind call d args.tail
  | none => execBind host args

/-- Dispatch for `|>`. -/
def dispatchThread (args : List Arg) : Eval W BindResult := do
  modify fun env => env.record .threaded
  dispatchBind host call args

/-- `dispatchCommandByPolicy`: defs first, then the command handler. -/
def dispatchCommand (args : List Arg) : Eval W Unit := do
  match ← Comp.read (lookupDefHead args) with
  | some d => do
    let _ ← call d args.tail
    pure ()
  | none =>
    match host.execCommand with
    | some f => do
      let _ ← callHost (f args)
      pure ()
    | none => fail (.script "command execution is not configured")

/-- A deferred command is dispatched, and a failure counted; the result says whether it failed. -/
def fireDefer (e : DeferEntry) : Eval W Nat := do
  let ok ← do
    match ← attempt (dispatchBind host call e.args) with
    | .ok r => pure r.rc.ok
    | .error _ => pure false
  if ok then pure 0
  else do
    modify Env.recordDeferFailure
    pure 1

def fireDefers : List DeferEntry → Eval W Nat
  | [] => pure 0
  | e :: es => do
    let n ← fireDefer host call e
    let k ← fireDefers es
    pure (n + k)

/-- `runDefers`: the number of failures. Without a bind handler nothing is dispatched. -/
def runDefers (stack : List DeferEntry) : Eval W Nat :=
  if host.execBind.isNone then pure 0 else fireDefers host call stack

/-! ## Asserts -/

/-- The first of two searches that reports something. -/
def orFind (first second : Eval W (Option Expr)) : Eval W (Option Expr) := do
  match ← first with
  | some m => pure (some m)
  | none => second

mutual

/-- `FindFailedMatchesExpr`, which evaluates parts of a failed clause again for its message: the
block it reports. -/
def findFailedMatches : Expr → Eval W (Option Expr)
  | .matchesBlock target entries exhaustive => do
    let v ← evalExpr host (dispatchThread host call) (.matchesBlock target entries exhaustive)
    pure (if v.asBool == some false then some (.matchesBlock target entries exhaustive) else none)
  | .logical op left right => do
    let l ← evalExpr host (dispatchThread host call) left
    let lb ← lift (asBool l)
    match op, lb with
    | .and, false => findFailedMatches left
    | .or, true => pure none
    | .and, true => do
      let r ← evalExpr host (dispatchThread host call) right
      let rb ← lift (asBool r)
      if rb then pure none else findFailedMatches right
    | .or, false => do
      let r ← evalExpr host (dispatchThread host call) right
      let rb ← lift (asBool r)
      if rb then pure none else orFind (findFailedMatches left) (findFailedMatches right)
  | .binary _ left right => orFind (findFailedMatches left) (findFailedMatches right)
  | .notEmpty operand => findFailedMatches operand
  | .negate operand => findFailedMatches operand
  | .pureCall _ args => anyFailedMatches args
  | .thread lhs args => orFind (findFailedMatches lhs) (anyFailedMatches args)
  | .list elems => anyFailedMatches elems
  | .interp segments => anyFailedSegment segments
  | _ => pure none

def anyFailedMatches : List Expr → Eval W (Option Expr)
  | [] => pure none
  | e :: es => orFind (findFailedMatches e) (anyFailedMatches es)

def anyFailedSegment : List Segment → Eval W (Option Expr)
  | [] => pure none
  | .text _ :: segs => anyFailedSegment segs
  | .expr e :: segs => orFind (findFailedMatches e) (anyFailedSegment segs)

end

/-- `evalAssertVerb`: whether the command-form clause holds. -/
def evalAssertVerb (head : String) (args : List Arg) : Eval W Bool :=
  if head = "ok" then
    if args.isEmpty then fail (.script "ok requires a command")
    else do
      match ← attempt (execBind host args) with
      | .ok r => pure r.rc.ok
      | .error _ => pure false
  else if head = "fail" then
    if args.isEmpty then fail (.script "fail requires a command")
    else do
      match ← attempt (execBind host args) with
      | .ok r => pure !r.rc.ok
      | .error _ => pure true
  else if head ∈ ["path-exists", "contains", "null", "present", "missing", "empty"] then
    callHost (host.predicate head args)
  else fail (.script ("unknown assertion verb " ++ head))

/-- `completeAssertResult` for a clause that does not hold. -/
def failAssert (isRequire : Bool) : Eval W Unit :=
  if isRequire then fail .requireFailure else modify Env.recordAssertFailure

def isBareNull : Expr → Bool
  | .literal "null" false => true
  | _ => false

/-- The two forms of a clause, `runAssertExprCallback` and `runAssertCommandClause`. -/
def checkClause (isRequire : Bool) : Clause → Eval W Unit
  | .expr e =>
    if isBareNull e then fail (.script "null requires a target")
    else do
      let v ← evalExpr host (dispatchThread host call) e
      let held ← lift (asBool v)
      modify fun env => env.record (.clause isRequire held)
      if held then pure ()
      else do
        let _ ← findFailedMatches host call e
        failAssert isRequire
  | .command head args negate => do
    let as ← evalArgs host (dispatchThread host call) args
    let pass ← evalAssertVerb host head as
    let held := pass != negate
    modify fun env => env.record (.clause isRequire held)
    if held then pure () else failAssert isRequire

def runAssertClause (isRequire : Bool) (clause : Clause) : Eval W Unit := do
  if !isRequire && (← Comp.read Env.inPoll) then
    fail (.script "assert is not valid inside poll; use retry unless ... or require ...")
  checkClause host call isRequire clause

end Dispatch

/-! ## Scopes -/

section Step

variable (host : Host W) (call : Call W)

/-- The commands of the active scope are dispatched. -/
def drainActive : Step W Nat := do
  match ← Comp.read fun m => m.env.defers with
  | some stack => onEnv (runDefers host call stack)
  | none => pure 0

/-- The saved scope becomes the active one again. -/
def Machine.popScope (m : Machine W) : Machine W :=
  match m.ex.scopes with
  | s :: ss => ⟨{ m.env with defers := s }, { m.ex with scopes := ss }⟩
  | [] => ⟨{ m.env with defers := none }, m.ex⟩

/-- The innermost `n` scopes are drained and left. -/
def drainScopes : Nat → Step W Unit
  | 0 => pure ()
  | n + 1 => do
    let _ ← drainActive host call
    modify Machine.popScope
    drainScopes n

def unwindOnExit : Step W Unit := do
  modify fun m => ⟨{ m.env with activePolls := m.env.activePolls - m.ex.polls.length },
    { m.ex with loops := [], polls := [] }⟩
  let n ← Comp.read fun m => m.ex.scopes.length
  drainScopes host call n
  let depth ← Comp.read fun m => m.ex.entryFrameDepth
  onEnv (popToDepth depth)

def drainToAttemptStart (p : PollState) : Step W Unit := do
  modify fun m => m.mapEx fun ex =>
    { ex with loops := ex.loops.drop (ex.loops.length - p.attemptLoopDepth) }
  let n ← Comp.read fun m => m.ex.scopes.length - p.attemptScopeDepth
  drainScopes host call n
  onEnv (popToDepth p.attemptFrameDepth)

def Executor.setTop (ex : Executor) (p : PollState) : Executor :=
  { ex with polls := p :: ex.polls.tail }

def clock : Step W Int := fun m =>
  .ok (host.now m.env.world).1 (m.mapEnv fun env => { env with world := (host.now env.world).2 })

def pause (d : Int) : Step W Unit :=
  modify fun m => m.mapEnv fun env => { env with world := host.sleep d env.world }

/-- `continueOrTimeout` for the innermost poll `p`. -/
def continueOrTimeout (p : PollState) : Step W Flow := do
  drainToAttemptStart host call p
  let now ← clock host
  if p.deadline ≤ now then do
    modify fun m => m.mapEx fun ex => ex.setTop { p with failed := true, timedOut := true }
    pure (.next p.onTimeout)
  else do
    modify fun m => m.mapEx fun ex => ex.setTop { p with attemptCount := p.attemptCount + 1 }
    if 0 < p.every then pause host p.every
    pure (.next p.attempt)

/-- What becomes of an error of a dispatched command: a retry of a helper is taken up by the
innermost poll of the executor. -/
def dispatchError (e : Err) : Step W Flow := do
  match e, ← Comp.read fun m => m.ex.polls with
  | .pollRetry msg, p :: _ => continueOrTimeout host call { p with lastRetry := msg }
  | e, _ => fail e

/-! ## Loops -/

def bindForEachNames (names : List String) (index : Nat) (elem : Value) : Eval W Unit :=
  match names with
  | [name] => modify fun env => if name = "_" then env else env.set name elem
  | names =>
    match elem.list? with
    | none => fail (.script ("foreach: element " ++ toString index ++ " is not a list"))
    | some sub =>
      if sub.length = names.length then
        modify fun env => names.zipIdx.foldl
          (fun env (name, j) => if name = "_" then env else env.set name (elem.indexValue j)) env
      else fail (.script ("foreach: element " ++ toString index ++ " has " ++
        toString sub.length ++ " sub-elements"))

def beginIteration (l : LoopState) : Step W Flow := do
  onEnv (modify Env.pushFrame)
  onEnv (bindForEachNames l.names l.index (l.origin.indexValue l.index))
  pure (.next l.body)

def finaliseCollect (c : Collect) (env : Env W) : Env W :=
  if c.primary = "" ∨ c.primary = "_" then env
  else if c.guard then env.set c.primary (.valueList c.values)
  else env.set c.primary (valueFromCollectOutcome c.ok c.results c.values)

/-- The loop is over: its results are bound, and control passes to its exit. -/
def leaveLoop (l : LoopState) : Step W Flow := do
  modify fun m => m.mapEx fun ex => { ex with loops := ex.loops.tail }
  onEnv (modify fun env => (l.collect.elim env fun c => finaliseCollect c env))
  pure (.next l.exit)

/-- `advanceLoop` for the innermost loop `l`. -/
def advanceLoop (l : LoopState) : Step W Flow := do
  onEnv (popToDepth l.entryFrameDepth)
  let l := { l with index := l.index + 1 }
  if l.length ≤ l.index then leaveLoop l
  else do
    modify fun m => m.mapEx fun ex => { ex with loops := l :: ex.loops.tail }
    beginIteration l

/-- `execExitLoop` for the innermost loop `l`. -/
def exitLoop (l : LoopState) : Step W Flow := do
  onEnv (popToDepth l.entryFrameDepth)
  leaveLoop l

/-- The value of a list temp, for `foreach` and bind-collect. -/
def listAt (what : String) (t : Temp) : Step W (Value × Nat) := do
  let v ← valueAt t
  if v.isNil then fail (.script (what ++ ": list expression is null"))
  else
    match v.list? with
    | none => fail (.script (what ++ ": expected a list"))
    | some raw => pure (v, raw.length)

/-- The opening of a loop, for `execForEach` and `execForEachCollect`. -/
def openLoop (what : String) (list : Temp) (names : List String) (body exit : BlockId)
    (collect : Option Collect) : Step W Flow := do
  let (v, n) ← listAt what list
  if n = 0 then do
    onEnv (modify fun env => (collect.elim env fun c => finaliseCollect c env))
    pure (.next exit)
  else do
    let m ← Comp.read id
    let l : LoopState :=
      { names, body, exit, entryFrameDepth := m.env.frameDepth, origin := v, length := n, collect }
    modify fun m => m.mapEx fun ex => { ex with loops := l :: ex.loops }
    beginIteration l

/-- `execCollectProduce` -/
def collectProduce (result : Temp) : Step W Flow := do
  match ← Comp.read fun m => m.ex.loops with
  | [] => fail (.script "collect-produce: outside any loop")
  | l :: _ =>
    match l.collect with
    | none => fail (.script "collect-produce: not in a bind-collect")
    | some c => do
      let r ← resultAt result
      let l := { l with collect := some (c.produce r) }
      modify fun m => m.mapEx fun ex => { ex with loops := l :: ex.loops.tail }
      if c.guard && !r.rc.ok then do
        let args ← Comp.read fun m => m.ex.bindArgs result
        fail (.guardFailure c.primary args r.rc)
      else advanceLoop l

def bindDestructure (names : List String) (v : Value) : Eval W Unit :=
  if v.isNil then fail (.script "let: destructure RHS produced no result")
  else
    match v.list? with
    | none => fail (.script "let: destructure RHS is not a list")
    | some raw =>
      if raw.length = names.length then
        modify fun env => names.zipIdx.foldl
          (fun env (name, j) =>
            if name = "" ∨ name = "_" then env else env.set name (v.indexValue j)) env
      else fail (.script ("let: destructure RHS has " ++ toString raw.length ++ " elements"))

/-! ## Polls, defers and binds -/

def renderPollRetryMessage (v : Value) : String :=
  if v.isNil then ""
  else if v.isNull then "null"
  else
    match renderCompact host.toGoLib v with
    | .ok s => s
    | .error _ => "<unrenderable retry message>"

def beginPoll (timeout every : Int) (attempt onSuccess onTimeout : BlockId) : Step W Flow := do
  let now ← clock host
  modify fun m => ⟨m.env.enterPoll,
    { m.ex with polls :=
      { timeout, every, deadline := now + timeout, attempt, onSuccess, onTimeout
        attemptFrameDepth := m.env.frameDepth
        attemptScopeDepth := m.ex.scopes.length
        attemptLoopDepth := m.ex.loops.length } :: m.ex.polls }⟩
  pure (.next attempt)

def retryMessage (message : Option Temp) : Step W String := do
  match message with
  | none => pure ""
  | some t => do
    let v ← valueAt t
    pure (renderPollRetryMessage host v)

/-- `RetryPoll`: outside the polls of its own executor a helper raises the signal. -/
def retryPoll (message : Option Temp) : Step W Flow := do
  let msg ← retryMessage host message
  match ← Comp.read fun m => m.ex.polls with
  | p :: _ => continueOrTimeout host call { p with lastRetry := msg }
  | [] => do
    if ← Comp.read fun m => m.ex.inDef && m.env.inPoll then fail (.pollRetry msg)
    else fail (.script "retry: outside any poll")

/-- `EnterDeferScope` -/
def Machine.enterScope (m : Machine W) : Machine W :=
  ⟨{ m.env with defers := some [] }, { m.ex with scopes := m.env.defers :: m.ex.scopes }⟩

/-- `execRegisterDefer` -/
def registerDefer (argv : Temp) : Step W Unit := do
  match ← Comp.read fun m => m.env.defers with
  | none => fail (.script "defer outside any defer scope")
  | some stack => do
    let args ← argvAt argv
    modify fun m => m.mapEnv fun env => { env with defers := some (⟨args⟩ :: stack) }

/-- `RunDefers`: a failed cleanup of an attempt is fatal to the poll. -/
def runDefersInstr (policy : RunDefersPolicy) : Step W Unit := do
  let failed ← drainActive host call
  if policy = .defLocal then
    modify fun m => m.mapEx fun ex =>
      { ex with localDeferFailures := ex.localDeferFailures + failed }
  modify Machine.popScope
  if policy = .attemptFatal ∧ 0 < failed then do
    match ← Comp.read fun m => m.ex.polls with
    | p :: _ => do
      modify fun m => m.mapEx fun ex => ex.setTop { p with failed := true }
      fail (.script "poll: attempt-local defer failed during unwind; halting the construct")
    | [] => do
      if ← Comp.read fun m => m.ex.inDef && m.env.inPoll then
        fail (.script "poll: helper defer failed during retry unwind; halting the construct")

/-- The value a bind gives to its name. -/
def boundValue (guard : Bool) (r : BindResult) : Value :=
  if guard then r.primary else valueFromOutcome r

def applyBind (src argv : Temp) (target : String) (guard : Bool) (onFail : Option BlockId) :
    Step W Flow := do
  let r ← resultAt src
  if guard && !r.rc.ok then
    match onFail with
    | none => fail (.script "exec: guard fail has no OnFail block")
    | some b => do
      modify fun m => m.mapEx fun ex =>
        { ex with
          pendingGuardFail := some
            { primary := target
              args := match ex.temps argv with
                | .argv args => args
                | _ => []
              rc := r.rc } }
      pure (.next b)
  else do
    modify fun m => m.mapEnv fun env =>
      if target = "" ∨ target = "_" then env else env.set target (boundValue guard r)
    pure .fall

def propagateError : Step W Flow := fun m =>
  match m.ex.pendingGuardFail, m.ex.polls with
  | some g, _ =>
    .err (.guardFailure g.primary g.args g.rc)
      (m.mapEx fun ex => { ex with pendingGuardFail := none })
  | none, p :: ps =>
    if p.failed && p.timedOut then
      .err (.pollTimeout p.timeout p.every p.attemptCount p.lastRetry)
        ⟨m.env.exitPoll, { m.ex with polls := ps }⟩
    else .err (.script "propagated error") m
  | none, [] => .err (.script "propagated error") m

/-- A dispatch whose result `k` uses. -/
def dispatching {α : Type} (m : Eval W α) (k : α → Step W Flow) : Step W Flow := do
  match ← attempt (onEnv m) with
  | .ok a => k a
  | .error e => dispatchError host call e

/-! ## Instructions -/

def execInstr : Instr → Step W Flow
  | .enterFrame => do
    onEnv (modify Env.pushFrame)
    pure .fall
  | .exitFrame => do
    onEnv popFrame
    pure .fall
  | .enterDeferScope => do
    modify Machine.enterScope
    pure .fall
  | .registerDefer argv => do
    registerDefer argv
    pure .fall
  | .runDefers policy => do
    runDefersInstr host call policy
    pure .fall
  | .eval dst e => do
    let v ← onEnv (evalExpr host (dispatchThread host call) e)
    modify fun m => m.mapEx fun ex => ex.setTemp dst (.value v)
    pure .fall
  | .buildArgs dst args => do
    let as ← onEnv (evalArgs host (dispatchThread host call) args)
    modify fun m => m.mapEx fun ex => ex.setTemp dst (.argv as)
    pure .fall
  | .dispatchCommand argv => do
    let args ← argvAt argv
    dispatching host call (dispatchCommand host call args) fun _ => pure .fall
  | .bindName name src => do
    let v ← valueAt src
    onEnv (modify fun env => env.set name v)
    pure .fall
  | .dispatchBind dst argv => do
    let args ← argvAt argv
    if host.execBind.isNone then fail (.script "no bind handler installed")
    dispatching host call (dispatchBind host call args) fun r => do
      modify fun m => m.mapEx fun ex =>
        { ex.setTemp dst (.result r) with bindArgs := Function.update ex.bindArgs dst args }
      pure .fall
  | .applyBind src argv target guard onFail => applyBind src argv target guard onFail
  | .bindDestructure names src => do
    let v ← valueAt src
    onEnv (bindDestructure names v)
    pure .fall
  | .emitBindResult => pure .fall
  | .emitResult src => do
    let v ← valueAt src
    match host.printResult with
    | none => pure .fall
    | some f => do
      onEnv (callHost fun _ => f v)
      pure .fall
  | .traceNote => pure .fall
  | .branch cond onTrue onFalse => do
    let v ← valueAt cond
    let b ← lift (asBool v)
    pure (.next (if b then onTrue else onFalse))
  | .jump b => pure (.next b)
  | .halt => pure .halt
  | .returnValue src epilogue => do
    let v ← valueAt src
    modify fun m => m.mapEx fun ex => { ex with returned := some v }
    pure (.next epilogue)
  | .propagateError => propagateError
  | .assert isRequire clause => do
    if host.execAssert then onEnv (runAssertClause host call isRequire clause)
    else fail (.script "assert: handler not installed")
    pure .fall
  | .forEach list names body exit => openLoop "foreach" list names body exit none
  | .forEachCollect list names target guard body exit =>
    openLoop "bind-collect" list names body exit (some { primary := target, guard })
  | .forEachContinue => do
    match ← Comp.read fun m => m.ex.loops with
    | [] => fail (.script "foreach-continue: outside any loop")
    | l :: _ => advanceLoop l
  | .exitLoop => do
    match ← Comp.read fun m => m.ex.loops with
    | [] => fail (.script "exit-loop: outside any loop")
    | l :: _ => exitLoop l
  | .beginPoll timeout every attempt onSuccess onTimeout =>
    beginPoll host timeout every attempt onSuccess onTimeout
  | .retryPoll message => retryPoll host call message
  | .collectProduce result => collectProduce result

/-- A bind that returns leaves its outcome in the temp. -/
theorem exec_dispatchBind {host : Host W} {call : Call W} {m : Machine W} {dst argv : Temp}
    {as : List Arg} {r : BindResult} {env' : Env W} (hb : host.execBind.isNone = false)
    (hargv : m.ex.temps argv = .argv as) (h : dispatchBind host call as m.env = .ok r env') :
    execInstr host call (.dispatchBind dst argv) m =
      .ok .fall ⟨env', { m.ex.setTemp dst (.result r) with
        bindArgs := Function.update m.ex.bindArgs dst as }⟩ := by
  have hargs : argvAt argv m = .ok as m := by
    unfold argvAt
    rw [hargv]
  have hrun : attempt (onEnv (dispatchBind host call as)) m = .ok (.ok r) (m.setEnv env') := by
    unfold attempt onEnv zoom
    rw [h]
  rw [execInstr, bind_of_ok hargs]
  simp only [hb, Bool.false_eq_true, if_false]
  unfold dispatching
  rw [bind_of_ok hrun]
  rfl

/-- `runBlock` -/
def runInstrs : List Instr → Step W Flow
  | [] => pure .fall
  | i :: is => do
    match ← execInstr host call i with
    | .fall => runInstrs is
    | flow => pure flow

/-- On entry of its success block the innermost poll is over. -/
def Machine.enterBlock (b : BlockId) (m : Machine W) : Machine W :=
  match m.ex.polls with
  | p :: ps =>
    if b = p.onSuccess ∧ p.failed = false then ⟨m.env.exitPoll, { m.ex with polls := ps }⟩ else m
  | [] => m

def runBlock (code : Code) (b : BlockId) : Step W Flow := do
  modify (Machine.enterBlock b)
  runInstrs host call (code b).instrs

/-- `runUnit`, for at most as many blocks as there is fuel. -/
def runUnit (code : Code) : Nat → BlockId → Step W Unit
  | 0, _ => stop .fuel
  | n + 1, b => do
    match ← runBlock host call code b with
    | .next b' => runUnit code n b'
    | _ => pure ()

/-- A unit and the unwinding that follows it. -/
def runAndUnwind (code : Code) (fuel : Nat) : Step W Unit := do
  let r ← attempt (runUnit host call code fuel 0)
  unwindOnExit host call
  lift r

end Step

/-! ## Calls -/

def newExecutor (inDef : Bool) (temps : Temp → Slot) (env : Env W) : Executor :=
  { temps, entryFrameDepth := env.frameDepth, inDef }

/-- A unit is run with an executor of its own; the executor is the result. -/
def withExecutor (inDef : Bool) (temps : Temp → Slot) (m : Step W Unit) : Eval W Executor :=
  fun env =>
    match m ⟨env, newExecutor inDef temps env⟩ with
    | .ok _ s => .ok s.ex s.env
    | .err e s => .err e s.env
    | .stop r s => .stop r s.env

/-- The values of the parameters. -/
def bindDefArgs (d : Def) : List Param → List Arg → Except Err (List Value)
  | p :: ps, a :: as => do
    let v ← bindDefArg d p a
    let vs ← bindDefArgs d ps as
    pure (v :: vs)
  | _, _ => pure []

def argTemps (vs : List Value) : Temp → Slot := fun t => (vs[t]?.map Slot.value).getD .empty

def maxDefCallDepth : Nat := 256

section Run

variable (host : Host W)

def runLoweredDefCall (call : Call W) (fuel : Nat) (d : Def) (args : List Arg) :
    Eval W (Option Value × Nat) := do
  let vs ← lift (bindDefArgs d d.params args)
  let ex ← withExecutor true (argTemps vs) (runAndUnwind host call d.code fuel)
  pure (ex.returned, ex.localDeferFailures)

/-- `runDefCall`; each nested call has less fuel. -/
def runDefCall : Nat → Call W
  | 0, _, _ => stop .fuel
  | n + 1, d, args => do
    if args.length ≠ d.params.length then
      fail (.script (d.name ++ ": wrong number of arguments"))
    if maxDefCallDepth ≤ (← Comp.read fun env => env.defCallDepth) then
      fail (.script (d.name ++ ": recursion limit exceeded"))
    modify fun env => { env with defCallDepth := env.defCallDepth + 1 }
    let r ← attempt (runLoweredDefCall host (runDefCall n) n d args)
    modify fun env => { env with defCallDepth := env.defCallDepth - 1 }
    lift r

def registerLoweredDefs (defs : List Def) (env : Env W) : Env W := defs.foldl Env.setDef env

/-- `execProgram` -/
def Program.execBody (fuel : Nat) (p : Program) : Eval W Unit := do
  modify (registerLoweredDefs p.defs)
  let _ ← withExecutor false (fun _ => .empty)
    (runAndUnwind host (runDefCall host fuel) p.body fuel)
  pure ()

/-- The jobs nobody waited for are counted. -/
def countLeaks (env : Env W) : Env W :=
  { env with
    jobLeaks := env.jobLeaks + (host.leaks env.world).1
    world := (host.leaks env.world).2 }

def Program.exec (fuel : Nat) (p : Program) : Eval W Unit := do
  let r ← attempt (p.execBody host fuel)
  modify (countLeaks host)
  lift r

end Run

end Bpfman.Shell
