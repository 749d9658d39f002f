import Bpfman.Lib.Comp
import Bpfman.Shell.IR
import Bpfman.Shell.MatchesEval

/-!
# The state of a run

`Env` is the session (frames of variables, defs, counters) and what the evaluator keeps beside it.
The command handlers, the clock and everything else outside the shell is a `Host` over a state `W`
of its own; a handler sees its arguments and the visible variables.

`Env.log` is bookkeeping of the model: the verdicts of the clauses and the dispatches of `|>` are
written there, and nothing that a run does depends on it.
-/

namespace Bpfman.Shell

open Partiality

/-! ## Arguments and errors -/

/-- An argument of a command after expansion. -/
inductive Arg where
  | word (text : String)
  | nil
  | missing (name : String) (path : List PathStep)
  | quoted (text : String)
  | scalar (text : String) (value : Value)
  | structured (name : String) (value : Value)
  | adapter (adapter name : String) (path : List PathStep) (value : Value)

/-- The errors of a run. -/
inductive Err where
  /-- an error of the evaluator with its message -/
  | script (msg : String)
  | access (name : String) (e : Value.AccessError)
  | scalar (e : Value.ScalarError)
  | number (e : NumError)
  /-- an error of a handler -/
  | host (msg : String)
  /-- `GuardFailure` -/
  | guardFailure (primary : String) (args : List Arg) (rc : Envelope)
  /-- `pollTimeoutError` -/
  | pollTimeout (timeout every : Int) (attempts : Nat) (lastRetry : String)
  /-- `pollRetrySignal` -/
  | pollRetry (lastRetry : String)
  /-- `RequireFailure` -/
  | requireFailure

/-- Why a run stops without returning. -/
inductive Halt
  | fuel
  /-- `PopFrame` on the root frame -/
  | panic
  deriving DecidableEq

/-! ## The session -/

/-- The variables of a frame; a later binding of a name stands before an earlier one. -/
abbrev Frame := List (String × Value)

/-- A captured invocation in a defer scope. -/
structure DeferEntry where
  args : List Arg

/-- What a run logs. -/
inductive Event where
  /-- an assert or require clause came to its verdict -/
  | clause (isRequire held : Bool)
  /-- `|>` dispatched a command -/
  | threaded
  deriving DecidableEq

structure Env (W : Type) where
  /-- innermost first, the root frame last -/
  frames : List Frame
  defs : List Def := []
  assertFailures : Nat := 0
  deferFailures : Nat := 0
  jobLeaks : Nat := 0
  /-- the active defer scope, the last registered command first -/
  defers : Option (List DeferEntry) := none
  defCallDepth : Nat := 0
  activePolls : Nat := 0
  world : W
  log : List Event := []

/-- What lies outside the shell. -/
structure Host (W : Type) extends GoLib where
  execCommand : Option (List Arg → List Frame → W → Except String Value × W)
  execBind : Option (List Arg → List Frame → W → Except String BindResult × W)
  printResult : Option (Value → W → Except String Unit × W)
  now : W → Int × W
  sleep : Int → W → W
  /-- the predicates of assert and require: `path-exists`, `contains`, `null`, `present`,
  `missing`, `empty` -/
  predicate : String → List Arg → List Frame → W → Except String Bool × W
  /-- the handler of asserts is installed -/
  execAssert : Bool
  /-- the unmanaged jobs reported at the end -/
  leaks : W → Nat × W

/-- A host whose commands succeed and do nothing, with a clock that stands still. -/
def Host.idle : Host Unit where
  execCommand := some fun _ _ w => (.ok .absent, w)
  execBind := some fun _ _ w => (.ok ⟨.okEnvelope, Envelope.okEnvelope.toValue⟩, w)
  printResult := none
  now w := (0, w)
  sleep _ w := w
  predicate _ _ _ w := (.ok true, w)
  execAssert := true
  leaks w := (0, w)
  marshal _ := ""
  deepEqual _ _ := false
  quote s := s

abbrev Eval (W α : Type) := Comp Halt (Env W) Err α

namespace Env

variable {W : Type}

variable (env : Env W)

def frameDepth : Nat := env.frames.length

def inPoll : Bool := 0 < env.activePolls

def get (name : String) : Option Value :=
  env.frames.findSome? fun f => f.lookup name

/-- `Session.Set`: the innermost frame. -/
def set (name : String) (v : Value) : Env W :=
  match env.frames with
  | f :: fs => { env with frames := ((name, v) :: f) :: fs }
  | [] => env

def pushFrame : Env W := { env with frames := [] :: env.frames }

/-- The innermost frame removed. -/
def dropFrame : Env W := { env with frames := env.frames.tail }

def enterPoll : Env W := { env with activePolls := env.activePolls + 1 }

def exitPoll : Env W := { env with activePolls := env.activePolls - 1 }

/-- `setDef`: a later def of a name replaces an earlier one. -/
def setDef (d : Def) : Env W := { env with defs := d :: env.defs }

def getDef (name : String) : Option Def := env.defs.find? fun d => d.name == name

def record (e : Event) : Env W := { env with log := env.log ++ [e] }

def recordAssertFailure : Env W :=
  { env with assertFailures := env.assertFailures + 1 }

def recordDeferFailure : Env W :=
  { env with deferFailures := env.deferFailures + 1 }

end Env

variable {W : Type}

/-- `PopFrame`: the root frame cannot be popped. -/
def popFrame : Eval W Unit := fun env =>
  if env.frames.length ≤ 1 then .stop .panic env else .ok () env.dropFrame

/-- Frames are popped until the depth is at most `target`. -/
def popToDepth (target : Nat) : Eval W Unit :=
  Comp.modify fun env => (Env.dropFrame)^[env.frameDepth - target] env

/-- A call of a handler, with the visible variables. -/
def callHost {α : Type} (f : List Frame → W → Except String α × W) : Eval W α := fun env =>
  match f env.frames env.world with
  | (.ok a, w) => .ok a { env with world := w }
  | (.error msg, w) => .err (.host msg) { env with world := w }

end Bpfman.Shell
