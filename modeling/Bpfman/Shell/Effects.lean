import Bpfman.Shell.Exec

/-!
# What evaluation may do

The evaluator reads variables, and changes the session only through the bind handler and the
dispatch of `|>`. So a judgement on computations that composes holds of a whole evaluation
(`judged_evalExpr`), if it holds of reading a variable and of what the expression runs (`callees`).
-/

namespace Bpfman.Shell

open Partiality Comp List

variable {W : Type}

/-! ## What an expression runs -/

/-- What an evaluation may hand to a handler. -/
inductive Callee where
  /-- a command, by `|>` -/
  | command
  /-- a call of a pure builtin -/
  | builtin (name : String)

mutual

def callees : Expr → List Callee
  | .literal _ _ | .varRef _ _ | .adapter _ _ _ => []
  | .list elems => calleesAny elems
  | .record fields => calleesField fields
  | .interp segments => calleesSegment segments
  | .thread lhs args => .command :: (callees lhs ++ calleesAny args)
  | .pureCall name args => .builtin name :: calleesAny args
  | .binary _ left right | .logical _ left right => callees left ++ callees right
  | .notEmpty operand | .not operand | .negate operand => callees operand
  | .matchesBlock target entries _ => callees target ++ calleesEntry entries

def calleesAny : List Expr → List Callee
  | [] => []
  | e :: es => callees e ++ calleesAny es

def calleesField : List Field → List Callee
  | [] => []
  | .mk _ e :: fs => callees e ++ calleesField fs

def calleesSegment : List Segment → List Callee
  | [] => []
  | .text _ :: segs => calleesSegment segs
  | .expr e :: segs => callees e ++ calleesSegment segs

def calleesEntry : List MatchEntry → List Callee
  | [] => []
  | .predicate _ _ :: es => calleesEntry es
  | .sub _ entries _ :: es => calleesEntry entries ++ calleesEntry es
  | .pattern _ e :: es => callees e ++ calleesEntry es

end

/-! ## Variables and arguments -/

/-- Judgements that hold of reading a variable, and compose. -/
structure Evaluates (Q : ∀ α : Type, Eval W α → Prop) : Prop extends Compositional Q where
  lookupVar : ∀ name, Q _ (lookupVar name)

/-- The judgement holds of running the callee. -/
def Callee.Runs (Q : ∀ α : Type, Eval W α → Prop) (host : Host W)
    (dispatch : List Arg → Eval W BindResult) : Callee → Prop
  | .command => ∀ args, Q _ (dispatch args)
  | .builtin name => ∀ args, Q _ (execBind host (.word name :: args))

variable {Q : ∀ α : Type, Eval W α → Prop} {host : Host W} {dispatch : List Arg → Eval W BindResult}

namespace Evaluates

variable (h : Evaluates Q)
include h

theorem resolveDynamicPath : ∀ segs : List PathSeg, Q _ (Shell.resolveDynamicPath segs)
  | [] => h.pure _
  | .step _ :: segs => h.bind (resolveDynamicPath segs) fun _ => h.pure _
  | .dyn name :: segs =>
    h.bind (h.lookupVar name) fun _ => h.bind (h.lift _) fun _ =>
      h.bind (resolveDynamicPath segs) fun _ => h.pure _

theorem resolveVarRefValue (name : String) (path : List PathSeg) :
    Q _ (resolveVarRefValue name path) :=
  h.bind (h.lookupVar name) fun _ => h.bind (h.resolveDynamicPath path) fun _ => h.lift _

theorem resolveVarRefArg (name : String) (path : List PathSeg) :
    Q _ (resolveVarRefArg name path) := by
  refine h.bind (h.lookupVar name) fun _ => h.bind (h.resolveDynamicPath path) fun _ =>
    h.bind (h.lift _) fun p => ?_
  cases p with
  | missing => exact h.pure _
  | null v => exact h.lift _
  | value v => exact h.lift _

theorem resolveAdapterArg (adapter name : String) (path : List PathSeg) :
    Q _ (resolveAdapterArg adapter name path) := by
  refine h.bind (h.lookupVar name) fun _ => h.bind (h.resolveDynamicPath path) fun _ =>
    h.bind (h.lift _) fun v => ?_
  split
  · exact h.fail _
  · exact h.pure _

theorem argOf (e : Expr) {ev : Eval W Value} (hev : Q _ ev) : Q _ (argOf e ev) := by
  have hvalue : ∀ err, Q _ (ev >>= fun v =>
      if v.isNil then Comp.fail err else Comp.lift (valueToArg "" v)) := by
    intro err
    refine h.bind hev fun v => ?_
    split
    · exact h.fail _
    · exact h.lift _
  unfold Shell.argOf
  split
  · exact h.pure _
  · exact h.resolveVarRefArg _ _
  · exact h.resolveAdapterArg _ _ _
  · exact hvalue _
  · exact hvalue _

theorem primaryOf (what : String) (r : BindResult) : Q _ (primaryOf what r) := by
  unfold Shell.primaryOf
  split
  · exact h.pure _
  · exact h.fail _

end Evaluates

/-! ## The evaluator -/

variable (h : Evaluates Q)
include h

mutual

/-- **What holds of dispatch holds of evaluation.** -/
theorem judged_evalExpr : ∀ e : Expr, (∀ c ∈ callees e, c.Runs Q host dispatch) →
    Q _ (evalExpr host dispatch e)
  | .literal text quoted, _ => by
    rw [evalExpr]
    exact h.lift _
  | .varRef name path, _ => by
    rw [evalExpr]
    exact h.resolveVarRefValue name path
  | .adapter adapter name path, _ => by
    rw [evalExpr]
    exact h.fail _
  | .list elems, hd => by
    rw [evalExpr]
    exact h.bind (judged_evalList elems hd) fun _ => h.pure _
  | .record fields, hd => by
    rw [evalExpr]
    exact h.bind (judged_evalFields fields [] hd) fun _ => h.pure _
  | .interp segments, hd => by
    rw [evalExpr]
    exact h.bind (judged_evalSegments segments hd) fun _ => h.pure _
  | .thread lhs args, hd => by
    obtain ⟨hrun, hd⟩ := forall_mem_cons.1 hd
    obtain ⟨hlhs, hargs⟩ := forall_mem_append.1 hd
    have hrest := h.bind (judged_evalArgs args hargs) fun as =>
      h.bind (h.mapErr (h.argOf lhs (judged_evalExpr lhs hlhs)) (flatten "thread")) fun a =>
        h.bind (hrun (as ++ [a])) fun r => h.primaryOf "thread" r
    rw [evalExpr]
    split
    · exact h.bind (h.fail _) fun _ => hrest
    · exact hrest
  | .binary op left right, hd => by
    rw [evalExpr]
    obtain ⟨hl, hr⟩ := forall_mem_append.1 hd
    exact h.bind (judged_evalExpr left hl) fun l =>
      h.bind (judged_evalExpr right hr) fun r => h.lift _
  | .notEmpty operand, hd => by
    rw [evalExpr]
    exact h.bind (judged_evalExpr operand hd) fun v => h.lift _
  | .logical op left right, hd => by
    rw [evalExpr]
    obtain ⟨hl, hr⟩ := forall_mem_append.1 hd
    refine h.bind (judged_evalExpr left hl) fun l => h.bind (h.lift _) fun lb => ?_
    split
    · exact h.pure _
    · exact h.pure _
    · exact h.bind (judged_evalExpr right hr) fun r => h.bind (h.lift _) fun _ => h.pure _
  | .not operand, hd => by
    rw [evalExpr]
    exact h.bind (judged_evalExpr operand hd) fun v => h.bind (h.lift _) fun _ => h.pure _
  | .negate operand, hd => by
    rw [evalExpr]
    exact h.bind (judged_evalExpr operand hd) fun v => h.lift _
  | .pureCall name args, hd => by
    obtain ⟨hrun, hargs⟩ := forall_mem_cons.1 hd
    have hrest := h.bind (h.mapErr (judged_evalArgs args hargs) (flatten name)) fun as =>
      h.bind (hrun as) fun r => h.primaryOf name r
    rw [evalExpr]
    split
    · exact h.bind (h.fail _) fun _ => hrest
    · exact hrest
  | .matchesBlock target entries exhaustive, hd => by
    rw [evalExpr]
    obtain ⟨ht, he⟩ := forall_mem_append.1 hd
    refine h.bind (judged_evalExpr target ht) fun v =>
      h.bind (judged_evalEntries entries he) fun rows => ?_
    split
    · exact h.pure _
    · exact h.fail _

theorem judged_evalList : ∀ es : List Expr,
    (∀ c ∈ calleesAny es, c.Runs Q host dispatch) → Q _ (evalList host dispatch es)
  | [], _ => by
    rw [evalList]
    exact h.pure _
  | e :: es, hd => by
    rw [evalList]
    obtain ⟨he, hes⟩ := forall_mem_append.1 hd
    exact h.bind (judged_evalExpr e he) fun _ => h.bind (judged_evalList es hes) fun _ => h.pure _

theorem judged_evalFields : ∀ (fs : List Field) (acc : List (String × Value)),
    (∀ c ∈ calleesField fs, c.Runs Q host dispatch) → Q _ (evalFields host dispatch fs acc)
  | [], acc, _ => by
    rw [evalFields]
    exact h.pure _
  | .mk name e :: fs, acc, hd => by
    rw [evalFields]
    obtain ⟨he, hfs⟩ := forall_mem_append.1 hd
    exact h.bind (judged_evalExpr e he) fun _ => judged_evalFields fs _ hfs

theorem judged_evalSegments : ∀ segs : List Segment,
    (∀ c ∈ calleesSegment segs, c.Runs Q host dispatch) → Q _ (evalSegments host dispatch segs)
  | [], _ => by
    rw [evalSegments]
    exact h.pure _
  | .text s :: segs, hd => by
    rw [evalSegments]
    exact h.bind (judged_evalSegments segs hd) fun _ => h.pure _
  | .expr e :: segs, hd => by
    rw [evalSegments]
    obtain ⟨he, hsegs⟩ := forall_mem_append.1 hd
    exact h.bind (judged_evalExpr e he) fun v => h.bind (h.lift _) fun _ =>
      h.bind (judged_evalSegments segs hsegs) fun _ => h.pure _

theorem judged_evalArgs : ∀ es : List Expr,
    (∀ c ∈ calleesAny es, c.Runs Q host dispatch) → Q _ (evalArgs host dispatch es)
  | [], _ => by
    rw [evalArgs]
    exact h.pure _
  | e :: es, hd => by
    rw [evalArgs]
    obtain ⟨he, hes⟩ := forall_mem_append.1 hd
    exact h.bind (h.argOf e (judged_evalExpr e he)) fun _ =>
      h.bind (judged_evalArgs es hes) fun _ => h.pure _

theorem judged_evalEntries : ∀ es : List MatchEntry,
    (∀ c ∈ calleesEntry es, c.Runs Q host dispatch) → Q _ (evalEntries host dispatch es)
  | [], _ => by
    rw [evalEntries]
    exact h.pure _
  | .predicate path pred :: es, hd => by
    rw [evalEntries]
    exact h.bind (judged_evalEntries es hd) fun _ => h.pure _
  | .sub path entries exhaustive :: es, hd => by
    rw [evalEntries]
    obtain ⟨hsub, hes⟩ := forall_mem_append.1 hd
    exact h.bind (judged_evalEntries entries hsub) fun _ =>
      h.bind (judged_evalEntries es hes) fun _ => h.pure _
  | .pattern path e :: es, hd => by
    rw [evalEntries]
    obtain ⟨he, hes⟩ := forall_mem_append.1 hd
    exact h.bind (h.mapErr (judged_evalExpr e he) _) fun _ =>
      h.bind (judged_evalEntries es hes) fun _ => h.pure _

end

end Bpfman.Shell
