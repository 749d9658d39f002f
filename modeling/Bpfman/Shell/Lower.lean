import Bpfman.Shell.Exec

/-!
# Lowering and the driver

`lower` walks the statements of a program and fills basic blocks: one lowerer for the body and one
for each def. A block that the source reserves for later gets its number at once, since the order of
blocks means nothing to the executor. `run` lowers, executes and reads the counters.
-/

namespace Bpfman.Shell

open Partiality Comp

/-! ## The lowerer -/

/-- `lowerCtx`, with the loop stack as far as it is asked. -/
structure LowerCtx where
  deferPolicy : RunDefersPolicy
  returnTo : Option BlockId := none
  attempt : Option BlockId := none
  nonTopLevel : Bool := false
  inLoop : Bool := false

structure Lowerer where
  blocks : Code := fun _ => {}
  nextBlock : BlockId := 0
  cur : BlockId := 0
  nextTemp : Temp := 0
  defs : List Def := []

namespace Lowerer

def newBlock (l : Lowerer) : BlockId × Lowerer :=
  (l.nextBlock, { l with nextBlock := l.nextBlock + 1 })

def emit (l : Lowerer) (i : Instr) : Lowerer :=
  { l with
    blocks := Function.update l.blocks l.cur
      { l.blocks l.cur with instrs := (l.blocks l.cur).instrs ++ [i] } }

def alloc (l : Lowerer) : Temp × Lowerer := (l.nextTemp, { l with nextTemp := l.nextTemp + 1 })

def goto (l : Lowerer) (b : BlockId) : Lowerer := { l with cur := b }

end Lowerer

/-- Lowering of a statement. -/
abbrev Lowering := Lowerer → Except String Lowerer

/-! ## Statements without a body -/

def lowerCommandStmt (args : List Expr) (l : Lowerer) : Lowerer :=
  let (argv, l) := l.alloc
  (l.emit (.buildArgs argv args)).emit (.dispatchCommand argv)

def lowerExprStmt (e : Expr) (l : Lowerer) : Lowerer :=
  let (v, l) := l.alloc
  (l.emit (.eval v e)).emit (.emitResult v)

def lowerLetStmt (name : String) (rhs : Expr) (l : Lowerer) : Lowerer :=
  let (v, l) := l.alloc
  (l.emit (.eval v rhs)).emit (.bindName name v)

def lowerLetDestructureStmt (names : List String) (rhs : Expr) (l : Lowerer) : Lowerer :=
  let (src, l) := l.alloc
  (l.emit (.eval src rhs)).emit (.bindDestructure names src)

def lowerDeferStmt (args : List Expr) (l : Lowerer) : Lowerer :=
  let (argv, l) := l.alloc
  (l.emit (.buildArgs argv args)).emit (.registerDefer argv)

variable (ctx : LowerCtx)

/-- The instructions of `buildGuardFailBlock`. -/
def guardFailInstrs : List Instr :=
  if ctx.attempt.isSome then [.runDefers .attemptFatal, .exitFrame, .propagateError]
  else if ctx.returnTo.isSome then [.runDefers ctx.deferPolicy, .exitFrame, .propagateError]
  else [.runDefers ctx.deferPolicy, .propagateError]

def buildGuardFailBlock (l : Lowerer) : BlockId × Lowerer :=
  let saved := l.cur
  let (fb, l) := l.newBlock
  (fb, ((guardFailInstrs ctx).foldl Lowerer.emit (l.goto fb)).goto saved)

def lowerBindCmd (target : String) (guard : Bool) (args : List Expr) (l : Lowerer) : Lowerer :=
  let (argv, l) := l.alloc
  let l := l.emit (.buildArgs argv args)
  let (result, l) := l.alloc
  let l := l.emit (.dispatchBind result argv)
  if guard then
    let (fb, l) := buildGuardFailBlock ctx l
    l.emit (.applyBind result argv target guard (some fb))
  else l.emit (.applyBind result argv target guard none)

def lowerBreakStmt : Lowering := fun l =>
  if ctx.inLoop then
    let l := (l.emit .traceNote).emit .exitLoop
    let (b, l) := l.newBlock
    .ok (l.goto b)
  else .error "lower: break outside any loop"

def lowerContinueStmt : Lowering := fun l =>
  if ctx.inLoop then
    let l := (l.emit .traceNote).emit .forEachContinue
    let (b, l) := l.newBlock
    .ok (l.goto b)
  else .error "lower: continue outside any loop"

/-- The message of a retry. -/
def lowerRetryMessage (message : Option Expr) (l : Lowerer) : Option Temp × Lowerer :=
  match message with
  | none => (none, l)
  | some e =>
    let (t, l) := l.alloc
    (some t, l.emit (.eval t e))

def emitRetryStmt (message : Option Expr) (l : Lowerer) : Lowerer :=
  let (msg, l) := lowerRetryMessage message l
  let l := ((l.emit (.runDefers .attemptFatal)).emit .exitFrame).emit (.retryPoll msg)
  let (b, l) := l.newBlock
  l.goto b

def lowerRetryStmt (message cond : Option Expr) : Lowering := fun l =>
  if ctx.attempt.isNone && ctx.returnTo.isNone then
    .error "retry outside any poll or helper def"
  else
    match cond with
    | none => .ok (emitRetryStmt message l)
    | some e =>
      let (c, l) := l.alloc
      let l := l.emit (.eval c e)
      let (continueBlock, l) := l.newBlock
      let (retryBlock, l) := l.newBlock
      let l := l.emit (.branch c continueBlock retryBlock)
      .ok ((emitRetryStmt message (l.goto retryBlock)).goto continueBlock)

def lowerReturnStmt (e : Expr) : Lowering := fun l =>
  match ctx.returnTo with
  | none => .error "lower: return outside any def"
  | some epilogue =>
    let (src, l) := l.alloc
    let l := (l.emit (.eval src e)).emit (.returnValue src epilogue)
    let (b, l) := l.newBlock
    .ok (l.goto b)

/-! ## Conditionals, loops, polls and defs -/

/-- The head of one conditional: its two blocks. -/
def lowerCond (cond : Expr) (l : Lowerer) : BlockId × BlockId × Lowerer :=
  let (c, l) := l.alloc
  let l := l.emit (.eval c cond)
  let (thenBlock, l) := l.newBlock
  let (elseBlock, l) := l.newBlock
  (thenBlock, elseBlock, l.emit (.branch c thenBlock elseBlock))

/-- `lowerIfBranchBody`, with the lowering of the body. -/
def lowerIfBranchBody (block merge : BlockId) (body : Lowering) : Lowering := fun l => do
  let l ← body (((l.goto block).emit .traceNote).emit .enterFrame)
  .ok ((l.emit .exitFrame).emit (.jump merge))

/-- A chain of conditionals without an `else`. -/
def lowerNoElse (merge block : BlockId) (l : Lowerer) : Lowerer :=
  ((l.goto block).emit .traceNote).emit (.jump merge)

/-- The command whose result a bind-collect collects. -/
def collectCommand (body : List Stmt) : Except String (List Expr) :=
  match body.getLast? with
  | none => .error "lower: bind-collect has empty body"
  | some (.command args) => .ok args
  | some _ => .error "lower: bind-collect body does not end in a command"

def lowerCollectCommand (args : List Expr) (l : Lowerer) : Lowerer :=
  let (argv, l) := l.alloc
  let l := l.emit (.buildArgs argv args)
  let (res, l) := l.alloc
  (l.emit (.dispatchBind res argv)).emit (.collectProduce res)

def LowerCtx.nested : LowerCtx := { ctx with nonTopLevel := true }

def LowerCtx.loop : LowerCtx := { ctx with inLoop := true }

def LowerCtx.poll (attempt : BlockId) : LowerCtx :=
  { ctx with
    attempt := some attempt
    deferPolicy := .attemptFatal
    nonTopLevel := true }

/-- `lowerForEachStmt`, with the lowering of the body. -/
def lowerForEach (names : List String) (list : Expr) (body : Lowering) : Lowering := fun l => do
  let (t, l) := l.alloc
  let l := l.emit (.eval t list)
  let (bodyBlock, l) := l.newBlock
  let (exit, l) := l.newBlock
  let l := l.emit (.forEach t names bodyBlock exit)
  let l ← body (l.goto bodyBlock)
  .ok ((l.emit .forEachContinue).goto exit)

/-- `lowerBindCollect`, with the lowering of the body before its last command. -/
def lowerBindCollect (target : String) (guard : Bool) (names : List String)
    (list : Expr) (cmd : Except String (List Expr)) (body : Lowering) : Lowering := fun l => do
  let args ← cmd
  let (t, l) := l.alloc
  let l := l.emit (.eval t list)
  let (bodyBlock, l) := l.newBlock
  let (exit, l) := l.newBlock
  let l := l.emit (.forEachCollect t names target guard bodyBlock exit)
  let l ← body (l.goto bodyBlock)
  .ok ((lowerCollectCommand args l).goto exit)

/-- `lowerPollStmt`, with the lowering of the body in the context of an attempt. -/
def lowerPoll (timeout every : Int) (body : LowerCtx → Lowering) : Lowering := fun l => do
  let (attempt, l) := l.newBlock
  let (onTimeout, l) := l.newBlock
  let (done, l) := l.newBlock
  let l := l.emit (.beginPoll timeout every attempt done onTimeout)
  let l := (((l.goto attempt).emit .traceNote).emit .enterFrame).emit .enterDeferScope
  let l ← body (ctx.poll attempt) l
  let l := ((l.emit (.runDefers .attemptFatal)).emit .exitFrame).emit (.jump done)
  let l := ((l.goto onTimeout).emit .traceNote).emit .propagateError
  .ok (l.goto done)

/-- The parameters are bound from the first temps. -/
def bindParams (params : List Param) (l : Lowerer) : Lowerer :=
  params.zipIdx.foldl (fun l (p, i) => l.emit (.bindName p.name i)) l

/-- The context of the body of a def. -/
def defCtx (epilogue : BlockId) : LowerCtx :=
  { deferPolicy := .defLocal, returnTo := some epilogue }

/-- The start of the lowerer of a def: the entry is block 0, the epilogue block 1. -/
def defStart (params : List Param) : Lowerer :=
  let l : Lowerer := { nextTemp := params.length }
  let (_, l) := l.newBlock
  let (_, l) := l.newBlock
  bindParams params ((l.emit .enterFrame).emit .enterDeferScope)

def emitEpilogue (l : Lowerer) : Lowerer :=
  let l := (l.emit (.jump 1)).goto 1
  ((l.emit (.runDefers .defLocal)).emit .exitFrame).emit .emitBindResult

/-- `lowerDefStmt`, with the lowering of the body. -/
def lowerDefStmt (name : String) (params : List Param)
    (body : LowerCtx → Lowering) : Lowering := fun l => do
  if ctx.returnTo.isSome || ctx.nonTopLevel then
    .error ("def " ++ name ++ " must be declared at top level")
  else do
    let d ← body (defCtx 1) { defStart params with defs := l.defs }
    .ok { l with defs := d.defs ++ [{ name, params, code := (emitEpilogue d).blocks }] }

mutual

def lowerStmt (ctx : LowerCtx) : Stmt → Lowering
  | .command args => fun l => .ok (lowerCommandStmt args l)
  | .expr e => fun l => .ok (lowerExprStmt e l)
  | .letVal name rhs => fun l => .ok (lowerLetStmt name rhs l)
  | .letDestructure names rhs => fun l => .ok (lowerLetDestructureStmt names rhs l)
  | .bind target guard args => fun l => .ok (lowerBindCmd ctx target guard args l)
  | .bindCollect target guard names list body =>
    lowerBindCollect target guard names list (collectCommand body) (lowerInit ctx.loop body)
  | .deferCmd args => fun l => .ok (lowerDeferStmt args l)
  | .assert isRequire clause => fun l => .ok (l.emit (.assert isRequire clause))
  | .ifThen cond body elifs none => fun l => do
    let (merge, l) := l.newBlock
    let (thenBlock, next, l) := lowerCond cond l
    let l ← lowerIfBranchBody thenBlock merge (lowerStmts ctx.nested body) l
    let l ← lowerElifs ctx merge (fun b l => .ok (lowerNoElse merge b l)) elifs next l
    .ok (l.goto merge)
  | .ifThen cond body elifs (some elseBody) => fun l => do
    let (merge, l) := l.newBlock
    let (thenBlock, next, l) := lowerCond cond l
    let l ← lowerIfBranchBody thenBlock merge (lowerStmts ctx.nested body) l
    let l ← lowerElifs ctx merge
      (fun b => lowerIfBranchBody b merge (lowerStmts ctx.nested elseBody)) elifs next l
    .ok (l.goto merge)
  | .forEach names list body =>
    lowerForEach names list (lowerStmts ctx.nested.loop body)
  | .brk => lowerBreakStmt ctx
  | .cont => lowerContinueStmt ctx
  | .poll timeout every body => lowerPoll ctx timeout every fun ctx => lowerStmts ctx body
  | .retry message cond => lowerRetryStmt ctx message cond
  | .defStmt name params body => lowerDefStmt ctx name params fun ctx => lowerStmts ctx body
  | .ret e => lowerReturnStmt ctx e

def lowerStmts (ctx : LowerCtx) : List Stmt → Lowering
  | [] => fun l => .ok l
  | s :: rest => fun l => do
    let l ← lowerStmt ctx s l
    lowerStmts ctx rest l

/-- All statements but the last. -/
def lowerInit (ctx : LowerCtx) : List Stmt → Lowering
  | [] => fun l => .ok l
  | [_] => fun l => .ok l
  | s :: t :: rest => fun l => do
    let l ← lowerStmt ctx s l
    lowerInit ctx (t :: rest) l

/-- The `elif` branches of a chain; `onElse` lowers what follows them. -/
def lowerElifs (ctx : LowerCtx) (merge : BlockId) (onElse : BlockId → Lowering) :
    List IfBranch → BlockId → Lowering
  | [], block => onElse block
  | .mk cond body :: rest, block => fun l => do
    let (thenBlock, next, l) := lowerCond cond (l.goto block)
    let l ← lowerIfBranchBody thenBlock merge (lowerStmts ctx.nested body) l
    lowerElifs ctx merge onElse rest next l

end

def programCtx : LowerCtx := { deferPolicy := .program }

/-- The start of the lowerer of a program body: the entry is block 0. -/
def programStart : Lowerer :=
  let (_, l) := Lowerer.newBlock {}
  l.emit .enterDeferScope

def lower (stmts : List Stmt) : Except String Program := do
  let l ← lowerStmts programCtx stmts programStart
  let l := (l.emit (.runDefers .program)).emit .halt
  .ok { defs := l.defs, body := l.blocks }

/-! ## The driver -/

variable {W : Type}

/-- A new session. -/
def Env.start (w : W) : Env W := { frames := [[]], world := w }

/-- `Run` on a parsed script: the program is executed, then the counters decide. -/
def run (host : Host W) (fuel : Nat) (stmts : List Stmt) : Eval W Unit :=
  match lower stmts with
  | .error msg => fail (.script msg)
  | .ok p => do
    p.exec host fuel
    let env ← Comp.read id
    if 0 < env.assertFailures then
      fail (.script (toString env.assertFailures ++ " assertion(s) failed"))
    else if 0 < env.deferFailures then
      fail (.script (toString env.deferFailures ++ " defer(s) failed"))
    else if 0 < env.jobLeaks then fail (.script (toString env.jobLeaks ++ " job(s) leaked"))
    else pure ()

end Bpfman.Shell
