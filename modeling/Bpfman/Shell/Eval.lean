import Bpfman.Shell.Runtime

/-!
# Evaluation of expressions

`evalExpr` follows the evaluator of the runtime case by case. Dispatch of a command in bind position
is a parameter: `|>` is the only expression that can run a def.
-/

namespace Bpfman.Shell

open Partiality Comp

variable {W : Type}

/-! ## Variables -/

def lookupVar (name : String) : Eval W Value := fun env =>
  match env.get name with
  | some v => .ok v env
  | none => .err (.script ("undefined variable " ++ name)) env

def valueToIndex (v : Value) : Except Err Int :=
  match v.raw with
  | .num t | .str t =>
    match setString t with
    | some i =>
      if -2 ^ 63 ≤ i ∧ i < 2 ^ 63 then .ok i
      else .error (.script ("index must be an integer, got " ++ t))
    | none => .error (.script ("index must be an integer, got " ++ t))
  | .float x =>
    if x.num % x.den = 0 then .ok (x.num / x.den)
    else .error (.script "index must be an integer")
  | .bool _ => .error (.script "index must be an integer, got bool")
  | .null => .error (.script "index is null")
  | _ => .error (.script "index must be a scalar integer")

/-- `resolveDynamicPath`: the indices held by variables are filled in. -/
def resolveDynamicPath : List PathSeg → Eval W (List PathStep)
  | [] => pure []
  | .step s :: segs => do
    let steps ← resolveDynamicPath segs
    pure (s :: steps)
  | .dyn name :: segs => do
    let v ← lookupVar name
    let n ← lift (valueToIndex v)
    let steps ← resolveDynamicPath segs
    pure (.index n :: steps)

def accessError (name : String) {α : Type} : Except Value.AccessError α → Except Err α
  | .ok a => .ok a
  | .error e => .error (.access name e)

def scalarError {α : Type} : Except Value.ScalarError α → Except Err α
  | .ok a => .ok a
  | .error e => .error (.scalar e)

def numberError {α : Type} : Except NumError α → Except Err α
  | .ok a => .ok a
  | .error e => .error (.number e)

/-- `resolveVarRefValueParts` -/
def resolveVarRefValue (name : String) (path : List PathSeg) : Eval W Value := do
  let v ← lookupVar name
  let steps ← resolveDynamicPath path
  lift (accessError name (v.lookupValue steps))

/-- `valueToArg`, where `name` is the variable of a structured value. -/
def valueToArg (name : String) (v : Value) : Except Err Arg :=
  if v.isNil || v.isNull then .ok .nil
  else if v.isStructured then .ok (.structured name v)
  else
    match v.scalar with
    | .ok s => .ok (.scalar s v)
    | .error e => .error (.scalar e)

/-- `resolveVarRefArgParts`: a missing field is an argument of its own. -/
def resolveVarRefArg (name : String) (path : List PathSeg) : Eval W Arg := do
  let v ← lookupVar name
  let steps ← resolveDynamicPath path
  match ← lift (accessError name (v.lookupPresence steps)) with
  | .missing => pure (.missing name steps)
  | .null v => lift (valueToArg name v)
  | .value v => lift (valueToArg name v)

/-- `resolveAdapterArgParts` -/
def resolveAdapterArg (adapter name : String) (path : List PathSeg) : Eval W Arg := do
  let v ← lookupVar name
  let steps ← resolveDynamicPath path
  let v ← lift (accessError name (v.lookupValue steps))
  if v.isNil || v.isNull then
    fail (.script ("adapter " ++ adapter ++ ": variable " ++ name ++ " is null"))
  else pure (.adapter adapter name steps v)

/-! ## Literals, predicates and comparisons -/

def looksNumeric (t : String) : Bool :=
  match t.toList with
  | [] => false
  | c :: cs =>
    c.isDigit || ((c == '-' || c == '+') && (cs.head?.map Char.isDigit).getD false)

/-- `literalValueParts` -/
def literalValue (text : String) (quoted : Bool) : Except Err Value :=
  if quoted then .ok (.string text)
  else if text = "true" then .ok (.bool true)
  else if text = "false" then .ok (.bool false)
  else if text = "null" then .ok .null
  else if isJSONNumber text then .ok (.number text)
  else if looksNumeric text then
    if jsonNumber text.toList then
      .error (.script ("numeric literal " ++ text ++ " exceeds the representable range"))
    else .error (.script ("numeric literal " ++ text ++ " is not a valid JSON number"))
  else .ok (.string text)

def evalNotEmpty (v : Value) : Except Err Value :=
  if v.isNil || v.isNull then .ok (.bool false)
  else
    match v.raw with
    | .str s => .ok (.bool (s != ""))
    | .list l => .ok (.bool !l.isEmpty)
    | .map m => .ok (.bool !m.isEmpty)
    | .num t =>
      match parseFloat t with
      | some x => .ok (.bool !x.isZero)
      | none => .error (.script ("not-empty: " ++ t))
    | .float x => .ok (.bool !x.isZero)
    | .bool b => .ok (.bool b)
    | .null => .ok (.bool false)

inductive CompareKind
  | null
  | number
  | string
  | bool
  deriving DecidableEq

def compareKind (v : Value) : Option CompareKind :=
  if v.isNull then some .null
  else
    match v.raw with
    | .num _ | .float _ => some .number
    | .str _ => some .string
    | .bool _ => some .bool
    | _ => none

/-- `evalSymbolicTextComparison` -/
def textComparison (op : CmpOp) (l r : String) : Bool :=
  op.pass (if l < r then .lt else if r < l then .gt else .eq)

/-- `evalCompare`: null compares with everything, other kinds with themselves. -/
def evalCompare (op : CmpOp) (l r : Value) : Except Err Value :=
  match compareKind l, compareKind r with
  | none, _ => .error (.script "left side: only scalars can be compared")
  | some _, none => .error (.script "right side: only scalars can be compared")
  | some lk, some rk =>
    if lk = .null ∨ rk = .null then
      if op = .eq ∨ op = .ne then
        .ok (.bool ((op == .eq) == (lk == .null && rk == .null)))
      else .error (.script "null supports only == and != (no ordering)")
    else if lk ≠ rk then .error (.script "cannot compare values of different kinds")
    else do
      let left ← scalarError l.scalar
      let right ← scalarError r.scalar
      match lk with
      | .number =>
        let b ← numberError (evalNumericComparison op left right)
        .ok (.bool b)
      | .bool =>
        if op = .eq ∨ op = .ne then .ok (.bool (textComparison op left right))
        else .error (.script "booleans support only == and !=")
      | _ => .ok (.bool (textComparison op left right))

/-- A binary operator on evaluated operands. -/
def evalBinary (op : BinaryOp) (l r : Value) : Except Err Value :=
  match op with
  | .cmp op => evalCompare op l r
  | .arith op => do
    let left ← scalarError l.scalar
    let right ← scalarError r.scalar
    let t ← numberError (evalArithmetic op left right)
    .ok (.number t)

/-- Unary minus on an evaluated operand. -/
def evalNegate (v : Value) : Except Err Value := do
  let s ← scalarError v.scalar
  let t ← numberError (negateText s)
  .ok (.number t)

/-- `AsBool`, with the message for a value that is not a boolean. -/
def asBool (v : Value) : Except Err Bool :=
  match v.asBool with
  | some b => .ok b
  | none => .error (.script "condition is not a boolean")

/-- A new value for a field: an earlier one of the name is replaced. -/
def setField (fields : List (String × Value)) (name : String) (v : Value) : List (String × Value) :=
  if fields.any fun f => f.1 == name then
    fields.map fun f => if f.1 == name then (name, v) else f
  else fields ++ [(name, v)]

/-- The text of an error where it becomes part of another message. -/
def flatten (what : String) (_ : Err) : Err := .script what

/-- The result of a command in an expression: a failed one is an error. -/
def primaryOf (what : String) (r : BindResult) : Eval W Value :=
  if r.rc.ok then pure r.primary else fail (.script (what ++ ": command failed: " ++ r.rc.stderr))

/-! ## Parameters of defs -/

/-- `argToValue`: variables keep their values, words are strings. -/
def argToValue : Arg → Value
  | .word t => .string t
  | .quoted t => .string t
  | .scalar _ v => v
  | .structured _ v => v
  | .adapter _ _ _ v => v
  | .nil => .absent
  | .missing _ _ => .absent

/-- `scalarKind`, in the words of parameter types. -/
def scalarKind (v : Value) : String :=
  match v.raw with
  | .str _ => "string"
  | .num _ | .float _ => "number"
  | .bool _ => "bool"
  | _ => ""

def paramError (d : Def) (p : Param) (got : String) : Err :=
  .script ("def " ++ d.name ++ ": parameter " ++ p.name ++ ": expected " ++ p.type ++ ", got " ++
    got)

def parseWordAs (d : Def) (p : Param) (text : String) : Except Err Value :=
  if p.type = "number" then
    if isJSONNumber text then .ok (.ofRaw (.num text)) else .error (paramError d p text)
  else if p.type = "bool" then
    if text = "true" then .ok (.bool true)
    else if text = "false" then .ok (.bool false)
    else .error (paramError d p text)
  else .ok (.string text)

/-- `bindDefArg`: an annotated parameter parses words and checks the kind of everything else. -/
def bindDefArg (d : Def) (p : Param) (arg : Arg) : Except Err Value :=
  if p.type = "" then .ok (argToValue arg)
  else
    match arg with
    | .word text => parseWordAs d p text
    | .quoted text =>
      if p.type = "string" then .ok (.string text)
      else .error (paramError d p "a quoted string")
    | arg =>
      if scalarKind (argToValue arg) = p.type then .ok (argToValue arg)
      else if scalarKind (argToValue arg) = "" then .error (paramError d p "a non-scalar value")
      else .error (paramError d p (scalarKind (argToValue arg)))

/-! ## The evaluator -/

/-- `evalArg` on an expression whose value is computed by `ev`: literals and variables have a shape
of their own as arguments. -/
def argOf (e : Expr) (ev : Eval W Value) : Eval W Arg :=
  match e with
  | .literal text quoted => pure (if quoted then .quoted text else .word text)
  | .varRef name path => resolveVarRefArg name path
  | .adapter adapter name path => resolveAdapterArg adapter name path
  | .thread _ _ => do
    let v ← ev
    if v.isNil then fail (.script "thread produced no value") else lift (valueToArg "" v)
  | _ => do
    let v ← ev
    if v.isNil then fail (.script "parenthesised expression produced no value")
    else lift (valueToArg "" v)

section Evaluator

variable (host : Host W) (dispatch : List Arg → Eval W BindResult)

/-- `env.ExecBind`, past the defs. -/
def execBind (args : List Arg) : Eval W BindResult :=
  match host.execBind with
  | some f => callHost (f args)
  | none => fail (.script "no bind handler installed")

mutual

def evalExpr : Expr → Eval W Value
  | .literal text quoted => lift (literalValue text quoted)
  | .varRef name path => resolveVarRefValue name path
  | .adapter adapter name _ =>
    fail (.script ("adapter " ++ adapter ++ ":$" ++ name ++ " cannot be used as an operand"))
  | .list elems => do
    let vs ← evalList elems
    pure (.listLiteral vs)
  | .record fields => do
    let fs ← evalFields fields []
    pure (.ofRecord fs)
  | .interp segments => do
    let s ← evalSegments segments
    pure (.string s)
  | .thread lhs args => do
    if host.execBind.isNone then
      fail (.script "'|>' is only valid where commands can run")
    let as ← evalArgs args
    let a ← mapErr (flatten "thread") (argOf lhs (evalExpr lhs))
    let r ← dispatch (as ++ [a])
    primaryOf "thread" r
  | .binary op left right => do
    let l ← evalExpr left
    let r ← evalExpr right
    lift (evalBinary op l r)
  | .notEmpty operand => do
    let v ← evalExpr operand
    lift (evalNotEmpty v)
  | .logical op left right => do
    let l ← evalExpr left
    let lb ← lift (asBool l)
    match op, lb with
    | .and, false => pure (.bool false)
    | .or, true => pure (.bool true)
    | _, _ => do
      let r ← evalExpr right
      let rb ← lift (asBool r)
      pure (.bool rb)
  | .not operand => do
    let v ← evalExpr operand
    let b ← lift (asBool v)
    pure (.bool !b)
  | .negate operand => do
    let v ← evalExpr operand
    lift (evalNegate v)
  | .pureCall name args => do
    if host.execBind.isNone then
      fail (.script (name ++ ": pure-builtin calls require an active command dispatcher"))
    let as ← mapErr (flatten name) (evalArgs args)
    let r ← execBind host (.word name :: as)
    primaryOf name r
  | .matchesBlock target entries exhaustive => do
    let v ← evalExpr target
    let rows ← evalEntries entries
    -- the mismatches are counted here: their positions and the name of the target are for messages
    match evalMatchesTarget host.toGoLib (fun _ keys => keys) v "" (.mk (0, 0) exhaustive rows) with
    | .ok mismatches => pure (.bool mismatches.isEmpty)
    | .error msg => fail (.script msg)

def evalList : List Expr → Eval W (List Value)
  | [] => pure []
  | e :: es => do
    let v ← evalExpr e
    let vs ← evalList es
    pure (v :: vs)

def evalFields : List Field → List (String × Value) → Eval W (List (String × Value))
  | [], acc => pure acc
  | .mk name e :: fs, acc => do
    let v ← evalExpr e
    evalFields fs (setField acc name v)

def evalSegments : List Segment → Eval W String
  | [] => pure ""
  | .text s :: segs => do
    let rest ← evalSegments segs
    pure (s ++ rest)
  | .expr e :: segs => do
    let v ← evalExpr e
    let s ← lift (scalarError (renderCompact host.toGoLib v))
    let rest ← evalSegments segs
    pure (s ++ rest)

def evalArgs : List Expr → Eval W (List Arg)
  | [] => pure []
  | e :: es => do
    let a ← argOf e (evalExpr e)
    let as ← evalArgs es
    pure (a :: as)

/-- `evalMatchesBlock`: the rows of a block. -/
def evalEntries : List MatchEntry → Eval W (List MatchesRow)
  | [] => pure []
  | .predicate path pred :: es => do
    let rows ← evalEntries es
    pure (.test (0, 0) path (.ofPredicate pred) :: rows)
  | .sub path entries exhaustive :: es => do
    let inner ← evalEntries entries
    let rows ← evalEntries es
    pure (.sub (0, 0) path (.mk (0, 0) exhaustive inner) :: rows)
  | .pattern path e :: es => do
    let v ← mapErr (flatten "matches entry") (evalExpr e)
    let rows ← evalEntries es
    pure (.test (0, 0) path (.equal v) :: rows)

end

end Evaluator

end Bpfman.Shell
