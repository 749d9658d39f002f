import Bpfman.Shell.Check
import Bpfman.Shell.Asserts

/-!
# Literal arguments of defs

The checker judges a literal argument by the type of a parameter, and so does the binding of
parameters at run time. The two agree on what a type can take (`bindDefArg_literal`). They count
positions separately: a call by `|>` appends the piped value to the arguments, and the checker takes
it for the first one. So in that form a literal is judged by the parameter after its own, and the
piped value by none (`literal_reports_iff`).
-/

namespace Bpfman.Shell

open Partiality Comp List

variable {W : Type} {host : Host W} {dispatch : List Arg → Eval W BindResult}

/-! ## One argument -/

/-- A literal as an argument. -/
def literalArg (text : String) (quoted : Bool) : Arg := if quoted then .quoted text else .word text

theorem bindDefArg_literal (d : Def) (p : Param) (text : String) (quoted : Bool) :
    (∃ e, bindDefArg d p (literalArg text quoted) = .error e) ↔
    takesLiteral p text quoted = false := by
  unfold bindDefArg takesLiteral literalArg
  by_cases htype : p.type = ""
  · simp [htype]
  · cases quoted with
    | true => by_cases hs : p.type = "string" <;> simp [htype, hs]
    | false =>
      simp only [htype, if_false, Bool.false_eq_true]
      unfold parseWordAs
      by_cases hn : p.type = "number"
      · cases isJSONNumber text <;> simp [hn]
      · by_cases hb : p.type = "bool"
        · by_cases ht : text = "true" <;> by_cases hf : text = "false" <;> simp [hb, ht, hf]
        · simp [hn, hb]

/-! ## The arguments of a call -/

/-- The arguments that are dispatched, the head first, as `buildArgs` and `|>` evaluate them. -/
def callArgs (host : Host W) (dispatch : List Arg → Eval W BindResult) (form : CallForm)
    (args : List Expr) : Eval W (List Arg) :=
  match form with
  | .thread piped => do
    let as ← evalArgs host dispatch args
    let a ← mapErr (flatten "thread") (argOf piped (evalExpr host dispatch piped))
    pure (as ++ [a])
  | _ => evalArgs host dispatch args

/-- The expressions that are arguments of the def. -/
def CallForm.given (form : CallForm) (rest : List Expr) : List Expr :=
  match form with
  | .thread piped => rest ++ [piped]
  | _ => rest

theorem evalExpr_thread (hb : host.execBind.isSome) (piped : Expr) (args : List Expr) :
    evalExpr host dispatch (.thread piped args) =
      callArgs host dispatch (.thread piped) args >>= fun as =>
        dispatch as >>= fun r => primaryOf "thread" r := by
  have hsome : host.execBind.isNone = false := by simp [← Option.not_isSome, hb]
  rw [evalExpr]
  simp only [hsome, Bool.false_eq_true, if_false, callArgs]
  funext env
  simp only [bind_apply]
  cases evalArgs host dispatch args env with
  | ok as env1 =>
    simp only
    cases mapErr (flatten "thread") (argOf piped (evalExpr host dispatch piped)) env1 <;> rfl
  | err e env1 => rfl
  | stop r env1 => rfl

theorem argOf_literal {text : String} {quoted : Bool} {ev : Eval W Value} {env env' : Env W}
    {a : Arg} (h : argOf (.literal text quoted) ev env = .ok a env') :
    a = literalArg text quoted := by
  cases h
  rfl

/-- An argument for each expression, and for a literal the literal. -/
def Delivers (es : List Expr) (as : List Arg) : Prop :=
  as.length = es.length ∧ ∀ (i : Nat) text quoted, es[i]? = some (Expr.literal text quoted) →
    as[i]? = some (literalArg text quoted)

theorem evalArgs_literal :
    ∀ {es : List Expr} {env env' : Env W} {as : List Arg},
      evalArgs host dispatch es env = .ok as env' → Delivers es as
  | [], _, _, _, h => by
    rw [evalArgs] at h
    cases h
    exact ⟨rfl, by simp⟩
  | e :: es, env, env', as, h => by
    rw [evalArgs] at h
    obtain ⟨a, env1, ha, h⟩ := bind_eq_ok.1 h
    obtain ⟨as', env2, has, h⟩ := bind_eq_ok.1 h
    cases h
    obtain ⟨hlen, hlit⟩ := evalArgs_literal has
    refine ⟨by simp [hlen], fun i text quoted hi => ?_⟩
    cases i with
    | zero =>
      cases hi
      simp [argOf_literal ha]
    | succ i => simpa using hlit i text quoted (by simpa using hi)

/-- What a def gets. -/
theorem callArgs_literal {form : CallForm} {head : Expr} {rest : List Expr} {env env' : Env W}
    {as : List Arg} (h : callArgs host dispatch form (head :: rest) env = .ok as env') :
    Delivers (form.given rest) as.tail := by
  have plain : ∀ {as : List Arg} {env1 : Env W},
      evalArgs host dispatch (head :: rest) env = .ok as env1 → Delivers rest as.tail := by
    intro as env1 has
    obtain ⟨hlen, hlit⟩ := evalArgs_literal has
    refine ⟨by simp [hlen], fun i text quoted hi => ?_⟩
    rw [getElem?_tail]
    exact hlit (i + 1) text quoted (by simpa using hi)
  cases form with
  | thread piped =>
    obtain ⟨as0, env1, has, h⟩ := bind_eq_ok.1 h
    obtain ⟨a, env2, ha, h⟩ := bind_eq_ok.1 h
    cases h
    obtain ⟨hlen, hlit⟩ := plain has
    have hne : as0 ≠ [] := evalArgs_ne_nil has (cons_ne_nil _ _)
    rw [tail_append_of_ne_nil hne]
    refine ⟨by simp [CallForm.given, hlen], fun i text quoted hi => ?_⟩
    rw [CallForm.given] at hi
    by_cases hlt : i < rest.length
    · rw [getElem?_append_left hlt] at hi
      rw [getElem?_append_left (hlen ▸ hlt)]
      exact hlit i text quoted hi
    · -- the piped value is the last one
      rw [getElem?_append_right (Nat.not_lt.1 hlt), getElem?_singleton] at hi
      rw [getElem?_append_right (hlen ▸ Nat.not_lt.1 hlt), hlen, getElem?_singleton]
      split_ifs at hi with hzero
      obtain rfl : piped = .literal text quoted := by simpa using hi
      rw [if_pos hzero, argOf_literal (mapErr_eq_ok.1 ha)]
  | command | bind | deferred | collectTail => exact plain h

/-! ## Static and dynamic rejection -/

/-- The binding of the parameters rejects the argument at a position; a call with a wrong number of
arguments does not come to it. -/
def Rejects (d : Def) (args : List Arg) (i : Nat) : Prop :=
  args.length = d.params.length ∧
    ∃ p a e, d.params[i]? = some p ∧ args[i]? = some a ∧ bindDefArg d p a = .error e

/-- The binding fails if and only if it rejects an argument. -/
theorem bindDefArgs_eq_error (d : Def) :
    ∀ (ps : List Param) (as : List Arg), (∃ e, bindDefArgs d ps as = .error e) ↔
      ∃ (i : Nat) (p : Param) (a : Arg) (e : Err),
        ps[i]? = some p ∧ as[i]? = some a ∧ bindDefArg d p a = .error e
  | [], as => by simp [bindDefArgs, pure, Except.pure]
  | p :: ps, [] => by simp [bindDefArgs, pure, Except.pure]
  | p :: ps, a :: as => by
    rw [bindDefArgs]
    cases ha : bindDefArg d p a with
    | error e => exact iff_of_true ⟨e, rfl⟩ ⟨0, p, a, e, rfl, rfl, ha⟩
    | ok v =>
      -- the first argument is taken, so an error is one of the rest
      rw [← Nat.or_exists_add_one]
      simp only [getElem?_cons_zero, getElem?_cons_succ, ← bindDefArgs_eq_error d ps as]
      cases bindDefArgs d ps as <;> simp [bind, Except.bind, pure, Except.pure, ha]

/-- The argument is a literal that the parameter at the position cannot take. -/
def Misfit (params : List Param) (at' : Nat) (arg : Option Expr) : Prop :=
  ∃ text quoted p, arg = some (.literal text quoted) ∧ params[at']? = some p ∧
    takesLiteral p text quoted = false

@[simp] theorem misfit_literal {params : List Param} {i : Nat} {text : String} {quoted : Bool} :
    Misfit params i (some (.literal text quoted)) ↔
      ∃ p, params[i]? = some p ∧ takesLiteral p text quoted = false :=
  ⟨fun ⟨_, _, p, harg, h⟩ => by cases harg; exact ⟨p, h⟩, fun ⟨p, h⟩ => ⟨text, quoted, p, rfl, h⟩⟩

@[simp] theorem not_misfit_none {params : List Param} {i : Nat} : ¬ Misfit params i none := by
  simp [Misfit]

/-- The positions that the checker reports. -/
theorem mem_checkDefLiteralArgs (params : List Param) (offset : Nat) :
    ∀ (args : List Expr) (k i : Nat), i ∈ checkDefLiteralArgs params offset args k ↔
      ∃ j : Nat, i = k + j ∧ Misfit params (offset + i) args[j]?
  | [], k, i => by simp [checkDefLiteralArgs, Misfit]
  | arg :: args, k, i => by
    have ih := mem_checkDefLiteralArgs params offset args (k + 1) i
    -- the first argument, or one of the rest
    rw [← Nat.or_exists_add_one]
    simp only [getElem?_cons_zero, getElem?_cons_succ, Nat.add_zero, Nat.add_left_comm k,
      Nat.add_comm _ (k + 1), ← ih]
    conv_lhs => unfold checkDefLiteralArgs
    split
    · next hnone =>
      -- past the last parameter nothing is reported
      have hpast : ∀ {a}, k ≤ i → ¬ Misfit params (offset + i) a := by
        rintro a hi ⟨_, _, p, -, hp, -⟩
        have := (List.getElem?_eq_some_iff.1 hp).1
        rw [getElem?_eq_none_iff] at hnone
        omega
      refine iff_of_false (by simp) ?_
      rintro (⟨hi, h⟩ | hmem)
      · exact hpast hi.ge h
      · rw [ih] at hmem
        obtain ⟨j, hi, h⟩ := hmem
        exact hpast (by omega) h
    · next p text quoted hp =>
      cases ht : takesLiteral p text quoted with
      | true =>
        refine ⟨.inr, ?_⟩
        rintro (⟨rfl, h⟩ | h)
        · simp [hp, ht] at h
        · exact h
      | false =>
        simp only [Bool.false_eq_true, if_false, singleton_append, mem_cons]
        refine or_congr ⟨?_, And.left⟩ Iff.rfl
        rintro rfl
        exact ⟨rfl, misfit_literal.2 ⟨p, hp, ht⟩⟩
    · next hlit =>
      refine ⟨.inr, ?_⟩
      rintro (⟨-, text, quoted, p, harg, -⟩ | h)
      · exact absurd (Option.some.inj harg) (hlit text quoted)
      · exact h

/-! ## The result -/

/-- Where the checker begins to count the parameters. -/
def CallForm.offset : CallForm → Nat
  | .thread _ => 1
  | _ => 0

theorem mem_checkCall {decls : List Decl} {name : String} {decl : Decl}
    (hdecl : findDecl decls name = some decl) (form : CallForm) (rest : List Expr) (i : Nat) :
    .literal form (.literal name false :: rest) i ∈
        checkCall decls form (.literal name false :: rest) ↔
      (form.given rest).length = decl.params.length ∧
        Misfit decl.params (form.offset + i) rest[i]? := by
  have hgot : ∀ n offset, n = (form.given rest).length → offset = form.offset →
      (CallIssue.literal form (.literal name false :: rest) i ∈
        (if n ≠ decl.params.length then [.arity form (.literal name false :: rest)]
          else (checkDefLiteralArgs decl.params offset rest 0).map
            (.literal form (.literal name false :: rest))) ↔
      (form.given rest).length = decl.params.length ∧
        Misfit decl.params (form.offset + i) rest[i]?) := by
    rintro n offset rfl rfl
    by_cases hlen : (form.given rest).length = decl.params.length
    · rw [if_neg (not_not.2 hlen)]
      simp only [mem_map, CallIssue.literal.injEq, true_and, exists_eq_right,
        mem_checkDefLiteralArgs, Nat.zero_add, hlen]
      exact exists_eq_left'
    · rw [if_pos hlen]
      simp [hlen]
  unfold checkCall
  simp only [headWord, Option.bind_some, hdecl, tail_cons]
  cases form with
  | _ => exact hgot _ _ (by simp [CallForm.given]) rfl

theorem rejects_literal {d : Def} {form : CallForm} {head : Expr} {rest : List Expr}
    {env env' : Env W} {as : List Arg}
    (heval : callArgs host dispatch form (head :: rest) env = .ok as env') {i : Nat}
    {text : String} {quoted : Bool} (hi : (form.given rest)[i]? = some (.literal text quoted)) :
    Rejects d as.tail i ↔ (form.given rest).length = d.params.length ∧
      Misfit d.params i (form.given rest)[i]? := by
  obtain ⟨hlen, hlit⟩ := callArgs_literal heval
  unfold Rejects
  rw [hlen, hlit i text quoted hi, hi, misfit_literal]
  refine and_congr_right fun _ => exists_congr fun p => ?_
  rw [← bindDefArg_literal d p text quoted]
  constructor
  · rintro ⟨a, e, hp, ha, he⟩
    cases ha
    exact ⟨hp, e, he⟩
  · rintro ⟨hp, e, he⟩
    exact ⟨_, e, hp, rfl, he⟩

/-- By `|>`: each literal is as good for its own parameter as for the next, and a piped literal is
good for the last one. -/
def CallForm.Aligned (form : CallForm) (params : List Param) (rest : List Expr) : Prop :=
  match form with
  | .thread piped => rest.length + 1 = params.length →
      (∀ (i : Nat) text quoted, rest[i]? = some (Expr.literal text quoted) →
        ∀ p q, params[i]? = some p → params[1 + i]? = some q →
          takesLiteral p text quoted = takesLiteral q text quoted) ∧
      ∀ text quoted, piped = .literal text quoted → ∀ p, params[rest.length]? = some p →
        takesLiteral p text quoted = true
  | _ => True

/-- **The checker reports precisely the literals that the binding of the parameters rejects, in
every form of call but `|>`; in that form, where `Aligned` holds.** -/
theorem literal_reports_iff {decls : List Decl} {name : String} {decl : Decl} {d : Def}
    (hdecl : findDecl decls name = some decl) (hd : d.params = decl.params) {form : CallForm}
    {rest : List Expr} {env env' : Env W} {as : List Arg}
    (heval : callArgs host dispatch form (.literal name false :: rest) env = .ok as env') :
    (∀ (i : Nat) text quoted, (form.given rest)[i]? = some (Expr.literal text quoted) →
      (.literal form (.literal name false :: rest) i ∈
        checkCall decls form (.literal name false :: rest) ↔ Rejects d as.tail i)) ↔
      form.Aligned decl.params rest := by
  have hboth : ∀ (i : Nat) text quoted, (form.given rest)[i]? = some (Expr.literal text quoted) →
      ((.literal form (.literal name false :: rest) i ∈
        checkCall decls form (.literal name false :: rest) ↔ Rejects d as.tail i) ↔
      ((form.given rest).length = decl.params.length →
        (Misfit decl.params (form.offset + i) rest[i]? ↔
          Misfit decl.params i (form.given rest)[i]?))) := fun i text quoted hi => by
    rw [mem_checkCall hdecl, rejects_literal heval hi, hd, and_congr_right_iff]
  rw [forall₄_congr hboth]
  cases form with
  | command | bind | deferred | collectTail =>
    -- the arguments are taken as they are given
    refine iff_of_true (fun i text quoted _ _ => ?_) trivial
    show Misfit decl.params (0 + i) rest[i]? ↔ Misfit decl.params i rest[i]?
    rw [Nat.zero_add]
  | thread piped =>
    have hgiven : CallForm.given (.thread piped) rest = rest ++ [piped] := rfl
    simp only [hgiven, length_append, length_singleton, CallForm.offset]
    constructor
    · intro h hlen
      refine ⟨fun i text quoted hi p q hp hq => ?_, fun text quoted hpiped p hp => ?_⟩
      · have hi' : (rest ++ [piped])[i]? = some (.literal text quoted) := by
          rw [getElem?_append_left (List.getElem?_eq_some_iff.1 hi).1, hi]
        have hiff := h i text quoted hi' hlen
        rw [hi, hi', misfit_literal, misfit_literal] at hiff
        cases htp : takesLiteral p text quoted <;> cases htq : takesLiteral q text quoted <;>
          simp_all
      · have hi' : (rest ++ [piped])[rest.length]? = some (.literal text quoted) := by
          simp [hpiped]
        -- the checker never reports the piped value
        have hiff := h rest.length text quoted hi' hlen
        simpa [hpiped, hp] using hiff
    · intro haligned i text quoted hi hlen
      obtain ⟨hrest, hlast⟩ := haligned hlen
      rw [hi, misfit_literal]
      by_cases hlt : i < rest.length
      · rw [getElem?_append_left hlt] at hi
        obtain ⟨p, hp⟩ : ∃ p, decl.params[i]? = some p := ⟨_, getElem?_eq_getElem (by omega)⟩
        obtain ⟨q, hq⟩ : ∃ q, decl.params[1 + i]? = some q := ⟨_, getElem?_eq_getElem (by omega)⟩
        simp [hi, hp, hq, hrest i text quoted hi p q hp hq]
      · rw [getElem?_append_right (Nat.not_lt.1 hlt), getElem?_singleton] at hi
        split_ifs at hi with hzero
        obtain rfl : i = rest.length := by omega
        have hpiped : piped = .literal text quoted := by simpa using hi
        refine iff_of_false (by simp) ?_
        rintro ⟨p, hp, ht⟩
        rw [hlast text quoted hpiped p hp] at ht
        cases ht

/-- `f x` with a parameter `a: number`, and `5 |> g x` with parameters `a: number` and `b: number`:
in both calls the word is reported and rejected. -/
theorem literal_reports_iff_sample :
    let number (name : String) : Param := ⟨name, "number"⟩
    let decls : List Decl := [⟨"f", [number "a"]⟩, ⟨"g", [number "a", number "b"]⟩]
    let f : Def := ⟨"f", [number "a"], fun _ => {}⟩
    let g : Def := ⟨"g", [number "a", number "b"], fun _ => {}⟩
    let args (name : String) : List Expr := [.literal name false, .literal "x" false]
    let pipe : CallForm := .thread (.literal "5" false)
    (.literal .command (args "f") 0 ∈ checkCall decls .command (args "f") ↔
      Rejects f [.word "x"] 0) ∧
    (.literal pipe (args "g") 0 ∈ checkCall decls pipe (args "g") ↔
      Rejects g [.word "x", .word "5"] 0) := by
  intro number decls f g args pipe
  have hevalf : callArgs Host.idle (fun _ => fail (.script "no dispatch")) .command (args "f")
      (Env.start ()) = .ok [.word "f", .word "x"] (Env.start ()) := rfl
  have hevalg : callArgs Host.idle (fun _ => fail (.script "no dispatch")) pipe (args "g")
      (Env.start ()) = .ok [.word "g", .word "x", .word "5"] (Env.start ()) := rfl
  have haligned : pipe.Aligned [number "a", number "b"] [.literal "x" false] := by
    refine fun _ => ⟨fun i text quoted hi p q hp hq => ?_, fun text quoted h p hp => ?_⟩
    · cases i with
      | zero =>
        cases hp
        cases hq
        rfl
      | succ i => simp at hi
    · cases h
      cases hp
      decide +kernel
  exact ⟨(literal_reports_iff (d := f) rfl rfl hevalf).2 trivial 0 "x" false rfl,
    (literal_reports_iff (d := g) rfl rfl hevalg).2 haligned 0 "x" false rfl⟩

/-- The arguments reported at `|>`. -/
def threadReports (prog : List Stmt) : List Nat :=
  (check prog).filterMap fun
    | .literal (.thread _) _ i => some i
    | _ => none

/-- The run came to its end. -/
def completes (r : Res Halt (Env Unit) Err Unit) : Bool :=
  match r with
  | .ok _ _ => true
  | _ => false

/-- `let r = (5 |> f abc)`: for `def f(a: string b: number) {}` the word is reported and the run is
fine, for `def f(a: number b: string) {}` nothing is reported and the word is rejected. -/
theorem piped_literals_misjudged :
    let prog (a b : String) : List Stmt :=
      [.defStmt "f" [⟨"a", a⟩, ⟨"b", b⟩] [],
        .letVal "r" (.thread (.literal "5" false) [.literal "f" false, .literal "abc" false])]
    threadReports (prog "string" "number") = [0] ∧
    completes (run Host.idle 10 (prog "string" "number") (Env.start ())) = true ∧
    threadReports (prog "number" "string") = [] ∧
    completes (run Host.idle 10 (prog "number" "string") (Env.start ())) = false := by
  refine ⟨?_, ?_, ?_, ?_⟩ <;> decide +kernel

end Bpfman.Shell
