import Bpfman.Shell.Value

/-!
# The syntax tree of the shell

Expressions and statements as the parser makes them, without source positions. The intermediate
representation carries the same expressions.
-/

namespace Bpfman.Shell

/-! ## Expressions -/

/-- A segment of the path of a variable reference; `dyn` is an index held by a variable. -/
inductive PathSeg where
  | step (s : PathStep)
  | dyn (name : String)
  deriving DecidableEq

inductive BinaryOp
  | arith (op : ArithOp)
  | cmp (op : CmpOp)
  deriving DecidableEq

inductive LogicalOp
  | and
  | or
  deriving DecidableEq

mutual

inductive Expr where
  | literal (text : String) (quoted : Bool)
  | varRef (name : String) (path : List PathSeg)
  | adapter (adapter name : String) (path : List PathSeg)
  | list (elems : List Expr)
  | record (fields : List Field)
  | interp (segments : List Segment)
  /-- `lhs |> args` -/
  | thread (lhs : Expr) (args : List Expr)
  | binary (op : BinaryOp) (left right : Expr)
  /-- `not-empty operand`, the only unary predicate -/
  | notEmpty (operand : Expr)
  | logical (op : LogicalOp) (left right : Expr)
  | not (operand : Expr)
  | negate (operand : Expr)
  | pureCall (name : String) (args : List Expr)
  | matchesBlock (target : Expr) (entries : List MatchEntry) (exhaustive : Bool)

/-- `name: expr` in a record literal. -/
inductive Field where
  | mk (name : String) (expr : Expr)

/-- A piece of an interpolated string. -/
inductive Segment where
  | text (s : String)
  | expr (e : Expr)

/-- A row of a `matches` block. -/
inductive MatchEntry where
  | predicate (path pred : String)
  | sub (path : String) (entries : List MatchEntry) (exhaustive : Bool)
  | pattern (path : String) (expr : Expr)

end

/-! ## Statements -/

inductive Clause where
  | expr (e : Expr)
  | command (head : String) (args : List Expr) (negate : Bool)

/-- A parameter of a def; the type is `number`, `string`, `bool` or empty. -/
structure Param where
  name : String
  type : String := ""
  deriving DecidableEq

mutual

inductive Stmt where
  | command (args : List Expr)
  | expr (e : Expr)
  | letVal (name : String) (rhs : Expr)
  | letDestructure (names : List String) (rhs : Expr)
  | bind (target : String) (guard : Bool) (args : List Expr)
  /-- `target <- foreach names in list { body }`; the last statement of the body is a command -/
  | bindCollect (target : String) (guard : Bool) (names : List String) (list : Expr)
      (body : List Stmt)
  | deferCmd (args : List Expr)
  | assert (isRequire : Bool) (clause : Clause)
  | ifThen (cond : Expr) (body : List Stmt) (elifs : List IfBranch)
      (elseBody : Option (List Stmt))
  | forEach (names : List String) (list : Expr) (body : List Stmt)
  | brk
  | cont
  | poll (timeout every : Int) (body : List Stmt)
  /-- `retry message unless cond` -/
  | retry (message cond : Option Expr)
  | defStmt (name : String) (params : List Param) (body : List Stmt)
  | ret (e : Expr)

/-- An `elif`. -/
inductive IfBranch where
  | mk (cond : Expr) (body : List Stmt)

end

end Bpfman.Shell
