import Bpfman.Shell.Syntax

/-!
# The checks of calls

The checker goes through a parsed program before it runs and looks at the calls of defs: whether
they have as many arguments as the def has parameters, and whether the parameters can take the
literals among them. Calls in statements are looked at in the walk over the statements (`walkStmt`),
calls by `|>` after it, over the expressions of the whole tree. The other checks (variables and
fields, operands, jobs, loop exits, placement of statements, builtins, hints) report issues of their
own and are left out.
-/

namespace Bpfman.Shell

/-! ## Nodes of the tree -/

mutual

/-- The nodes of an expression, as `Inspect` visits them. -/
def subexprs : Expr → List Expr
  | .literal text quoted => [.literal text quoted]
  | .varRef name path => [.varRef name path]
  | .adapter adapter name path => [.adapter adapter name path]
  | .list elems => .list elems :: subexprsAll elems
  | .record fields => .record fields :: subexprsFields fields
  | .interp segments => .interp segments :: subexprsSegments segments
  | .thread lhs args => .thread lhs args :: (subexprs lhs ++ subexprsAll args)
  | .binary op left right => .binary op left right :: (subexprs left ++ subexprs right)
  | .notEmpty operand => .notEmpty operand :: subexprs operand
  | .logical op left right => .logical op left right :: (subexprs left ++ subexprs right)
  | .not operand => .not operand :: subexprs operand
  | .negate operand => .negate operand :: subexprs operand
  | .pureCall name args => .pureCall name args :: subexprsAll args
  | .matchesBlock target entries exhaustive =>
    .matchesBlock target entries exhaustive :: (subexprs target ++ subexprsEntries entries)

def subexprsAll : List Expr → List Expr
  | [] => []
  | e :: es => subexprs e ++ subexprsAll es

def subexprsFields : List Field → List Expr
  | [] => []
  | .mk _ e :: fs => subexprs e ++ subexprsFields fs

def subexprsSegments : List Segment → List Expr
  | [] => []
  | .text _ :: segs => subexprsSegments segs
  | .expr e :: segs => subexprs e ++ subexprsSegments segs

def subexprsEntries : List MatchEntry → List Expr
  | [] => []
  | .predicate _ _ :: es => subexprsEntries es
  | .sub _ entries _ :: es => subexprsEntries entries ++ subexprsEntries es
  | .pattern _ e :: es => subexprs e ++ subexprsEntries es

end

def clauseNodes : Clause → List Expr
  | .expr e => subexprs e
  | .command _ args _ => subexprsAll args

mutual

def nodes : Stmt → List Expr
  | .command args | .bind _ _ args | .deferCmd args => subexprsAll args
  | .expr e | .letVal _ e | .letDestructure _ e | .ret e => subexprs e
  | .bindCollect _ _ _ list body | .forEach _ list body => subexprs list ++ nodesAll body
  | .assert _ clause => clauseNodes clause
  | .ifThen cond body elifs none => subexprs cond ++ nodesAll body ++ nodesBranches elifs
  | .ifThen cond body elifs (some elseBody) =>
    subexprs cond ++ nodesAll body ++ nodesBranches elifs ++ nodesAll elseBody
  | .brk | .cont => []
  | .poll _ _ body | .defStmt _ _ body => nodesAll body
  | .retry message cond => subexprsAll (message.toList ++ cond.toList)

def nodesAll : List Stmt → List Expr
  | [] => []
  | s :: ss => nodes s ++ nodesAll ss

def nodesBranches : List IfBranch → List Expr
  | [] => []
  | .mk cond body :: rest => subexprs cond ++ nodesAll body ++ nodesBranches rest

end

/-! ## Calls of defs -/

/-- Where a def may be called; `|>` appends the piped value to the arguments. -/
inductive CallForm where
  | command
  | bind
  | deferred
  | collectTail
  | thread (piped : Expr)

/-- An issue at a call; the arguments include the head. -/
inductive CallIssue where
  /-- `NAME: expected N argument(s), got M` -/
  | arity (form : CallForm) (args : List Expr)
  /-- `def NAME: parameter P: expected T, got ...`, at an argument counted without the head -/
  | literal (form : CallForm) (args : List Expr) (i : Nat)

structure Decl where
  name : String
  params : List Param

/-- `prescanTopLevelDefs`: the first declaration of a name counts. -/
def declsOf (stmts : List Stmt) : List Decl :=
  stmts.filterMap fun
    | .defStmt name params _ => some ⟨name, params⟩
    | _ => none

/-- A first argument that is a bare word. -/
def headWord : List Expr → Option String
  | .literal text false :: _ => some text
  | _ => none

def findDecl (decls : List Decl) (name : String) : Option Decl :=
  decls.find? fun d => d.name == name

/-- The parameter can take the literal. -/
def takesLiteral (p : Param) (text : String) (quoted : Bool) : Bool :=
  if p.type = "" then true
  else if quoted then p.type == "string"
  else if p.type = "number" then isJSONNumber text
  else if p.type = "bool" then text == "true" || text == "false"
  else true

/-- `checkDefLiteralArgs`: the positions that are reported. -/
def checkDefLiteralArgs (params : List Param) (offset : Nat) : List Expr → Nat → List Nat
  | [], _ => []
  | arg :: args, i =>
    match params[offset + i]?, arg with
    | none, _ => []
    | some p, .literal text quoted =>
      (if takesLiteral p text quoted then [] else [i]) ++
        checkDefLiteralArgs params offset args (i + 1)
    | some _, _ => checkDefLiteralArgs params offset args (i + 1)

/-- `checkDefArity` and `checkThreadDefArity`: the piped value is taken for the first parameter. -/
def checkCall (decls : List Decl) (form : CallForm) (args : List Expr) : List CallIssue :=
  match (headWord args).bind (findDecl decls) with
  | none => []
  | some d =>
    let (got, offset) := match form with
      | .thread _ => (args.length, 1)
      | _ => (args.length - 1, 0)
    if got ≠ d.params.length then [.arity form args]
    else (checkDefLiteralArgs d.params offset args.tail 0).map (.literal form args)

/-! ## The passes -/

section

variable (decls : List Decl)

mutual

/-- The calls in a statement. The last command of a bind-collect is one more statement of its
body. -/
def walkStmt : Stmt → List CallIssue
  | .command args => checkCall decls .command args
  | .bind _ _ args => checkCall decls .bind args
  | .deferCmd args => checkCall decls .deferred args
  | .bindCollect _ _ _ _ body | .forEach _ _ body | .poll _ _ body | .defStmt _ _ body =>
    walkStmts body
  | .ifThen _ body elifs none => walkStmts body ++ walkBranches elifs
  | .ifThen _ body elifs (some elseBody) =>
    walkStmts body ++ walkBranches elifs ++ walkStmts elseBody
  | .expr _ | .letVal _ _ | .letDestructure _ _ | .assert _ _ | .brk | .cont | .retry _ _ |
      .ret _ => []

def walkStmts : List Stmt → List CallIssue
  | [] => []
  | s :: ss => walkStmt s ++ walkStmts ss

def walkBranches : List IfBranch → List CallIssue
  | [] => []
  | .mk _ body :: rest => walkStmts body ++ walkBranches rest

end

/-- `checkThreadDefArity`, at one node. -/
def checkThread : Expr → List CallIssue
  | .thread lhs args => checkCall decls (.thread lhs) args
  | _ => []

end

/-- The issues at calls that `Check` reports. -/
def check (prog : List Stmt) : List CallIssue :=
  walkStmts (declsOf prog) prog ++ (nodesAll prog).flatMap (checkThread (declsOf prog))

end Bpfman.Shell
