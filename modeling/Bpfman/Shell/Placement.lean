import Bpfman.Shell.Lower
import Bpfman.Lib.Proc

/-!
# Where statements stand

Lowering refuses a misplaced `def`, `return`, `break`, `continue` or `retry` by flags of its
context, which every form with a body has to set for itself. Here the place of a statement is the
list of the forms around it, the innermost first, and `accepted_placed_iff` compares the flags with
it: a tree that lowering accepts is misplaced only by a def in a bind-collect, whose body keeps the
flags of the top level.
-/

namespace Bpfman.Shell

open Fallible.Proc List

/-! ## Places -/

/-- The forms that have a body. -/
inductive Form
  | branch
  | loop
  | collect
  | poll
  | helper
  deriving DecidableEq

/-- The bodies of a statement. -/
inductive Stmt.Body : Stmt → Form → List Stmt → Prop
  | branch {cond : Expr} {then_ body : List Stmt} {elifs : List IfBranch}
      {else_ : Option (List Stmt)}
      (h : body = then_ ∨ (∃ c, .mk c body ∈ elifs) ∨ else_ = some body) :
      Body (.ifThen cond then_ elifs else_) .branch body
  | loop (names list body) : Body (.forEach names list body) .loop body
  | collect (target guard names list body) :
      Body (.bindCollect target guard names list body) .collect body
  | poll (timeout every body) : Body (.poll timeout every body) .poll body
  | helper (name params body) : Body (.defStmt name params body) .helper body

/-- A statement of the tree, at any depth, with the forms around it. -/
inductive Stands (tree : List Stmt) : List Form → Stmt → Prop
  | top {s : Stmt} (h : s ∈ tree) : Stands tree [] s
  | body {s s' : Stmt} {place : List Form} {f : Form} {b : List Stmt} (hs : Stands tree place s)
      (hb : s.Body f b) (h : s' ∈ b) : Stands tree (f :: place) s'

/-- A `foreach` stands around, of the same def or of the main program. -/
def InLoop : List Form → Prop
  | [] | .helper :: _ => False
  | .loop :: _ | .collect :: _ => True
  | .branch :: place | .poll :: place => InLoop place

/-- The statement may stand at the place. -/
def Stmt.Fits (place : List Form) : Stmt → Prop
  | .defStmt _ _ _ => place = []
  | .ret _ => .helper ∈ place
  | .brk | .cont => InLoop place
  | .retry _ _ => .poll ∈ place ∨ .helper ∈ place
  | _ => True

def Placed (tree : List Stmt) : Prop := ∀ place s, Stands tree place s → s.Fits place

/-- No def has bind-collects around it and nothing else. -/
def NoCollectedDef (tree : List Stmt) : Prop :=
  ∀ place name params body, Stands tree place (.defStmt name params body) →
    (∀ f ∈ place, f = .collect) → place = []

/-! ## The flags of the lowerer -/

/-- What the flags say holds of the place. -/
structure LowerCtx.Covers (ctx : LowerCtx) (place : List Form) : Prop where
  helper : ctx.returnTo.isSome → .helper ∈ place
  poll : ctx.attempt.isSome → .poll ∈ place
  loop : ctx.inLoop → InLoop place
  top : ctx.returnTo.isSome = false → ctx.nonTopLevel = false → ∀ f ∈ place, f = .collect

/-- The statement was lowered, under flags that say no more than its place. -/
def Lowered (place : List Form) (s : Stmt) : Prop :=
  ∃ ctx l l', lowerStmt ctx s l = .ok l' ∧ ctx.Covers place

variable {ctx : LowerCtx} {place : List Form} {l l' : Lowerer} {s : Stmt}

theorem LowerCtx.Covers.nested (h : ctx.Covers place) : ctx.nested.Covers (.branch :: place) where
  helper hr := mem_cons_of_mem _ (h.helper hr)
  poll ha := mem_cons_of_mem _ (h.poll ha)
  loop hl := h.loop hl
  top _ hn := nomatch hn

theorem LowerCtx.Covers.forEach (h : ctx.Covers place) :
    ctx.nested.loop.Covers (.loop :: place) where
  helper hr := mem_cons_of_mem _ (h.helper hr)
  poll ha := mem_cons_of_mem _ (h.poll ha)
  loop _ := trivial
  top _ hn := nomatch hn

/-- The body of a bind-collect has the flags of the statement and the loop. -/
theorem LowerCtx.Covers.collect (h : ctx.Covers place) : ctx.loop.Covers (.collect :: place) where
  helper hr := mem_cons_of_mem _ (h.helper hr)
  poll ha := mem_cons_of_mem _ (h.poll ha)
  loop _ := trivial
  top hr hn := by simpa using h.top hr hn

theorem LowerCtx.Covers.attempt (h : ctx.Covers place) (b : BlockId) :
    (ctx.poll b).Covers (.poll :: place) where
  helper hr := mem_cons_of_mem _ (h.helper hr)
  poll _ := mem_cons_self
  loop hl := h.loop hl
  top _ hn := nomatch hn

theorem covers_programCtx : programCtx.Covers [] where
  helper hr := nomatch hr
  poll ha := nomatch ha
  loop hl := nomatch hl
  top _ _ := nofun

theorem covers_defCtx : (defCtx 1).Covers (.helper :: place) where
  helper _ := mem_cons_self
  poll ha := nomatch ha
  loop hl := nomatch hl
  top hr := nomatch hr

/-! ## Bodies -/

theorem lowered_of_lowerStmts (hc : ctx.Covers place) :
    ∀ {body : List Stmt} {l : Lowerer}, lowerStmts ctx body l = .ok l' →
      ∀ s ∈ body, Lowered place s
  | [], _, _ => nofun
  | t :: rest, l, h => by
    rw [lowerStmts] at h
    obtain ⟨l1, ht, hrest⟩ := except_bind_eq_ok.1 h
    intro s hs
    rcases mem_cons.1 hs with rfl | hs
    · exact ⟨ctx, l, l1, ht, hc⟩
    · exact lowered_of_lowerStmts hc hrest s hs

/-- The last statement of a bind-collect is a command. -/
theorem lowered_of_lowerInit (hc : ctx.Covers place) {args : List Expr} :
    ∀ {body : List Stmt} {l : Lowerer}, body.getLast? = some (.command args) →
      lowerInit ctx body l = .ok l' → ∀ s ∈ body, Lowered place s
  | [], _, _, _ => nofun
  | [t], l, hlast, _ => by
    intro s hs
    obtain rfl : t = .command args := by simpa using hlast
    obtain rfl := mem_singleton.1 hs
    exact ⟨ctx, l, lowerCommandStmt args l, by rw [lowerStmt], hc⟩
  | t :: u :: rest, l, hlast, h => by
    rw [lowerInit] at h
    obtain ⟨l1, ht, hrest⟩ := except_bind_eq_ok.1 h
    intro s hs
    rcases mem_cons.1 hs with rfl | hs
    · exact ⟨ctx, l, l1, ht, hc⟩
    · exact lowered_of_lowerInit hc (by simpa using hlast) hrest s hs

theorem lowered_of_lowerIfBranchBody (hc : ctx.Covers place) {block merge : BlockId}
    {body : List Stmt} (h : lowerIfBranchBody block merge (lowerStmts ctx.nested body) l = .ok l') :
    ∀ s ∈ body, Lowered (.branch :: place) s := by
  obtain ⟨l1, hbody, -⟩ := except_bind_eq_ok.1 h
  exact lowered_of_lowerStmts hc.nested hbody

/-- The branches of a chain, and that its end was lowered. -/
theorem lowered_of_lowerElifs (hc : ctx.Covers place) {merge : BlockId}
    {onElse : BlockId → Lowering} :
    ∀ {elifs : List IfBranch} {block : BlockId} {l : Lowerer},
      lowerElifs ctx merge onElse elifs block l = .ok l' →
        (∀ cond body, .mk cond body ∈ elifs → ∀ s ∈ body, Lowered (.branch :: place) s) ∧
          ∃ b l1 l2, onElse b l1 = .ok l2
  | [], block, l, h => ⟨nofun, block, l, l', h⟩
  | .mk cond body :: rest, block, l, h => by
    rw [lowerElifs] at h
    obtain ⟨l1, hbody, hrest⟩ := except_bind_eq_ok.1 h
    obtain ⟨helifs, helse⟩ := lowered_of_lowerElifs hc hrest
    refine ⟨?_, helse⟩
    intro cond' body' hbr
    rcases mem_cons.1 hbr with heq | hbr
    · cases heq
      exact lowered_of_lowerIfBranchBody hc hbody
    · exact helifs cond' body' hbr

/-- Every statement in a body of a lowered statement was lowered. -/
theorem Lowered.body {f : Form} {b : List Stmt} (h : Lowered place s) (hb : s.Body f b) :
    ∀ s' ∈ b, Lowered (f :: place) s' := by
  obtain ⟨ctx, l, l', h, hc⟩ := h
  cases hb with
  | @branch _ _ _ _ else_ hb =>
    cases else_ with
    | none =>
      rw [lowerStmt] at h
      obtain ⟨l1, hthen, h⟩ := except_bind_eq_ok.1 h
      obtain ⟨l2, helifs, -⟩ := except_bind_eq_ok.1 h
      rcases hb with rfl | ⟨c, hbr⟩ | hb
      · exact lowered_of_lowerIfBranchBody hc hthen
      · exact (lowered_of_lowerElifs hc helifs).1 c b hbr
      · cases hb
    | some rest =>
      rw [lowerStmt] at h
      obtain ⟨l1, hthen, h⟩ := except_bind_eq_ok.1 h
      obtain ⟨l2, h, -⟩ := except_bind_eq_ok.1 h
      obtain ⟨helifs, _, _, _, helse⟩ := lowered_of_lowerElifs hc h
      rcases hb with rfl | ⟨c, hbr⟩ | hb
      · exact lowered_of_lowerIfBranchBody hc hthen
      · exact helifs c b hbr
      · cases hb
        exact lowered_of_lowerIfBranchBody hc helse
  | loop names list =>
    rw [lowerStmt] at h
    obtain ⟨l1, hbody, -⟩ := except_bind_eq_ok.1 h
    exact lowered_of_lowerStmts hc.forEach hbody
  | collect target guard names list =>
    rw [lowerStmt] at h
    obtain ⟨args, hcmd, h⟩ := except_bind_eq_ok.1 h
    obtain ⟨l1, hbody, -⟩ := except_bind_eq_ok.1 h
    unfold collectCommand at hcmd
    split at hcmd
    · cases hcmd
    · rename_i hlast
      exact lowered_of_lowerInit hc.collect hlast hbody
    · cases hcmd
  | poll timeout every =>
    rw [lowerStmt] at h
    obtain ⟨l1, hbody, -⟩ := except_bind_eq_ok.1 h
    exact lowered_of_lowerStmts (hc.attempt _) hbody
  | helper name params =>
    rw [lowerStmt] at h
    unfold lowerDefStmt at h
    split at h
    · cases h
    · obtain ⟨l1, hbody, -⟩ := except_bind_eq_ok.1 h
      exact lowered_of_lowerStmts covers_defCtx hbody

/-- Lowering reaches every statement of a tree that it accepts. -/
theorem Stands.lowered {tree : List Stmt} (h : (lower tree).isOk) (hs : Stands tree place s) :
    Lowered place s := by
  induction hs with
  | top hs =>
    cases hl : lower tree with
    | error e => simp [hl, Except.isOk, Except.toBool] at h
    | ok p =>
      obtain ⟨l1, htree, -⟩ := except_bind_eq_ok.1 hl
      exact lowered_of_lowerStmts covers_programCtx htree _ hs
  | body _ hb hs ih => exact ih.body hb _ hs

/-- What a lowered statement needs of its place, a def in bind-collects apart. -/
theorem Lowered.fits (h : Lowered place s)
    (hdef : ∀ name params body, s = .defStmt name params body →
      (∀ f ∈ place, f = .collect) → place = []) : s.Fits place := by
  obtain ⟨ctx, l, l', h, hc⟩ := h
  cases s with
  | defStmt name params body =>
    rw [lowerStmt] at h
    unfold lowerDefStmt at h
    split at h
    · cases h
    · rename_i hflags
      simp only [Bool.or_eq_true, not_or, Bool.not_eq_true] at hflags
      exact hdef _ _ _ rfl (hc.top hflags.1 hflags.2)
  | ret e =>
    rw [lowerStmt] at h
    unfold lowerReturnStmt at h
    split at h
    · cases h
    · rename_i hr
      exact hc.helper (by simp [hr])
  | brk =>
    rw [lowerStmt] at h
    unfold lowerBreakStmt at h
    split at h
    · exact hc.loop ‹_›
    · cases h
  | cont =>
    rw [lowerStmt] at h
    unfold lowerContinueStmt at h
    split at h
    · exact hc.loop ‹_›
    · cases h
  | retry message cond =>
    rw [lowerStmt] at h
    unfold lowerRetryStmt at h
    split at h
    · cases h
    · rename_i hflags
      simp only [Bool.and_eq_true, not_and_or, Option.isNone_iff_eq_none,
        ← Option.isSome_iff_ne_none] at hflags
      exact hflags.imp hc.poll hc.helper
  | _ => trivial

/-! ## Accepted trees -/

/-- Every statement of an accepted tree stands where it may, if and only if no def stands in
bind-collects alone. -/
theorem accepted_placed_iff {tree : List Stmt} (h : (lower tree).isOk) :
    Placed tree ↔ NoCollectedDef tree := by
  constructor
  · intro hp place name params body hs _
    exact hp place _ hs
  · intro hn place s hs
    refine (hs.lowered h).fits ?_
    rintro name params body rfl
    exact hn place name params body hs

/-- `def f() { return 1 }` and `let r <- foreach x in [] { if true { break }  f }` -/
theorem accepted_placed_loop :
    let tree : List Stmt := [.defStmt "f" [] [.ret (.literal "1" false)],
      .bindCollect "r" false ["x"] (.list [])
        [.ifThen (.literal "true" false) [.brk] [] none, .command [.literal "f" false]]]
    Placed tree ↔ NoCollectedDef tree :=
  accepted_placed_iff (by decide +kernel)

/-- `let r <- foreach x in [] { def f() { }  c }` is accepted, with a def that is not at top
level. -/
theorem collected_def_accepted :
    let tree : List Stmt := [.bindCollect "r" false ["x"] (.list [])
      [.defStmt "f" [] [], .command [.literal "c" false]]]
    (lower tree).isOk ∧ ¬ Placed tree := by
  refine ⟨rfl, ?_⟩
  intro hp
  exact nomatch hp [.collect] (.defStmt "f" [] [])
    (.body (.top mem_cons_self) (.collect _ _ _ _ _) mem_cons_self)

end Bpfman.Shell
