import Bpfman.Shell.Syntax

/-!
# The intermediate representation

A unit (the program body or a def) is a table of basic blocks, which name each other by their
numbers. The instructions are those that lowering emits.
-/

namespace Bpfman.Shell

abbrev BlockId := Nat

abbrev Temp := Nat

/-- How the failures of the deferred commands of a scope are used. -/
inductive RunDefersPolicy
  | program
  | defLocal
  | attemptFatal
  deriving DecidableEq

inductive Instr where
  | enterFrame
  | exitFrame
  | enterDeferScope
  | registerDefer (argv : Temp)
  | runDefers (policy : RunDefersPolicy)
  | eval (dst : Temp) (expr : Expr)
  | buildArgs (dst : Temp) (args : List Expr)
  | dispatchCommand (argv : Temp)
  | bindName (name : String) (src : Temp)
  | dispatchBind (dst argv : Temp)
  | applyBind (src argv : Temp) (target : String) (guard : Bool) (onFail : Option BlockId)
  | bindDestructure (names : List String) (src : Temp)
  | emitBindResult
  | emitResult (src : Temp)
  | traceNote
  | branch (cond : Temp) (onTrue onFalse : BlockId)
  | jump (target : BlockId)
  | halt
  | returnValue (src : Temp) (epilogue : BlockId)
  | propagateError
  | assert (isRequire : Bool) (clause : Clause)
  | forEach (list : Temp) (names : List String) (body exit : BlockId)
  | forEachContinue
  | exitLoop
  | beginPoll (timeout every : Int) (attempt onSuccess onTimeout : BlockId)
  | retryPoll (message : Option Temp)
  | forEachCollect (list : Temp) (names : List String) (target : String) (guard : Bool)
      (body exit : BlockId)
  | collectProduce (result : Temp)

/-- A basic block. -/
structure Block where
  instrs : List Instr := []

/-- The blocks of a unit; the entry is block 0. -/
abbrev Code := BlockId → Block

structure Def where
  name : String
  params : List Param
  code : Code

/-- A lowered program: its defs in source order and its body. -/
structure Program where
  defs : List Def
  body : Code

end Bpfman.Shell
