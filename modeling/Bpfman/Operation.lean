import Bpfman.World

/-!
# Operation plans

`manager/operation/run.go`: a plan is a list of nodes run in order. The first `Do` or `Produce` node
that fails stops the plan; the undo actions of the nodes that ran are then executed, latest node
first, whatever each of them returns. A `Try` node that fails is only logged.
-/

namespace Bpfman

open Fallible Proc

/-- The flavour of a plan node. -/
inductive Flavour where
  | doNode | produceNode | tryNode
  deriving DecidableEq, Repr

/-- A plan node over bindings `β`. `undo` is evaluated on the bindings after the node ran. -/
structure Node (β : Type) where
  flavour : Flavour
  exec : β → M β
  undo : β → List (M Unit) := fun _ => []

def appendUndos {β : Type} (undos : List (List (M Unit))) (n : Node β) (b : β) :
    List (List (M Unit)) :=
  if (n.undo b).isEmpty then undos else undos ++ [n.undo b]

/-- `interpret`: the bindings, the undo groups in forward order, and the error that stopped it. -/
def interpret {β : Type} : List (Node β) → β → List (List (M Unit)) →
    M (β × List (List (M Unit)) × Option Err)
  | [], b, undos => pure (b, undos, none)
  | n :: ns, b, undos =>
    match n.flavour with
    | .tryNode => do
      ignore (n.exec b)
      interpret ns b undos
    | .doNode | .produceNode => do
      match ← attempt (n.exec b) with
      | .ok b' => interpret ns b' (appendUndos undos n b')
      | .error err => pure (b, undos, some err)

def executeRollback (undos : List (List (M Unit))) : M Unit :=
  forEach (fun group => forEach (fun a => ignore a) group) undos.reverse

/-- `Run`. -/
def runPlan {β : Type} (nodes : List (Node β)) (b : β) : M β := do
  let (b, undos, err) ← interpret nodes b []
  match err with
  | some err => do
    executeRollback undos
    fail err
  | none => pure b

/-! ## The states of a run -/

variable {β : Type}

/-- The states after each of the actions, run in order whatever each of them returns. -/
def undoStates : List (M Unit) → World → List World
  | [], _ => []
  | a :: as, w => (a w).state :: undoStates as (a w).state

/-- The states `Run` passes through from a node on: one after every node that ran and, once a node
has failed, one after every undo action. -/
def statesFrom : List (Node β) → β → List (List (M Unit)) → World → List World
  | [], _, _, _ => []
  | n :: ns, b, undos, w =>
    match n.flavour with
    | .tryNode => (n.exec b w).state :: statesFrom ns b undos (n.exec b w).state
    | .doNode | .produceNode =>
      match n.exec b w with
      | .ok b' w' => w' :: statesFrom ns b' (appendUndos undos n b') w'
      | .err _ w' => w' :: undoStates undos.reverse.flatten w'

/-- The states a plan passes through. -/
def planStates (nodes : List (Node β)) (b : β) (w : World) : List World := statesFrom nodes b [] w

/-! ## Running a plan node by node -/

/-- The state after the actions of one undo group, run in order whatever each of them returns. -/
def undoGroup (w : World) (group : List (M Unit)) : World :=
  group.foldl (fun w a => (a w).state) w

theorem forEach_undo (group : List (M Unit)) (w : World) :
    forEach (fun a => ignore a) group w = .ok () (undoGroup w group) :=
  forEach_of_ok (g := fun (a : M Unit) w => (a w).state) fun _ _ _ => rfl

theorem executeRollback_eq (undos : List (List (M Unit))) (w : World) :
    executeRollback undos w = .ok () (undos.reverse.foldl undoGroup w) :=
  forEach_of_ok fun group _ w => forEach_undo group w

/-- What `Run` does from a node on, when the undo groups of the nodes before it are `undos`. -/
def runFrom (nodes : List (Node β)) (b : β) (undos : List (List (M Unit))) : M β := do
  let (b, undos, err) ← interpret nodes b undos
  match err with
  | some err => do
    executeRollback undos
    fail err
  | none => pure b

theorem executeRollback_appendUndos (undos : List (List (M Unit))) (n : Node β) (b : β)
    (w : World) :
    (executeRollback (appendUndos undos n b) w).state =
      (executeRollback undos (undoGroup w (n.undo b))).state := by
  unfold appendUndos
  split
  · rename_i h
    rw [List.isEmpty_iff.1 h]
    rfl
  · rw [executeRollback_eq, executeRollback_eq, List.reverse_append]
    rfl

section Cons

variable {n : Node β} {ns : List (Node β)} {b : β} {undos : List (List (M Unit))} {w : World}

theorem runFrom_try (h : n.flavour = .tryNode) :
    runFrom (n :: ns) b undos w = runFrom ns b undos (n.exec b w).state := by
  unfold runFrom
  simp only [interpret, h]
  rfl

theorem runFrom_cons (h : n.flavour ≠ .tryNode) :
    runFrom (n :: ns) b undos w = match n.exec b w with
      | .ok b' w' => runFrom ns b' (appendUndos undos n b') w'
      | .err err w' => .err err (undos.reverse.foldl undoGroup w') := by
  unfold runFrom
  cases hf : n.flavour with
  | tryNode => exact absurd hf h
  | doNode | produceNode =>
    simp only [interpret, hf]
    rw [bind_apply]
    cases hn : n.exec b w with
    | ok b' w' =>
      rw [bind_of_ok (attempt_eq_ok.2 (.inl ⟨b', rfl, hn⟩))]
      rfl
    | err err w' =>
      rw [bind_of_ok (attempt_eq_ok.2 (.inr ⟨err, rfl, hn⟩))]
      exact bind_of_ok (executeRollback_eq undos w')

theorem statesFrom_cons (h : n.flavour ≠ .tryNode) :
    statesFrom (n :: ns) b undos w = match n.exec b w with
      | .ok b' w' => w' :: statesFrom ns b' (appendUndos undos n b') w'
      | .err _ w' => w' :: undoStates undos.reverse.flatten w' := by
  cases hf : n.flavour with
  | tryNode => exact absurd hf h
  | doNode | produceNode => simp only [statesFrom, hf]

end Cons

/-! ## The states of a run and its result -/

/-- The groups collected before a node are rolled back after all later ones. -/
theorem runFrom_eq (nodes : List (Node β)) (b : β) (undos : List (List (M Unit))) (w : World) :
    runFrom nodes b undos w = onErr (runPlan nodes b) (executeRollback undos) w := by
  induction nodes generalizing b undos w with
  | nil => rfl
  | cons n ns ih =>
    change _ = onErr (runFrom (n :: ns) b []) (executeRollback undos) w
    by_cases ht : n.flavour = .tryNode
    · simp only [onErr, runFrom_try ht]
      rw [ih, ih]
      simp only [onErr, executeRollback_eq]
      cases runPlan ns b (n.exec b w).state <;> rfl
    · cases hn : n.exec b w with
      | ok b' w' =>
        simp only [onErr, runFrom_cons ht, hn]
        rw [ih, ih]
        simp only [onErr]
        cases runPlan ns b' w' with
        | ok b'' w'' => rfl
        | err er w'' =>
          simp only [executeRollback_appendUndos]
          rfl
      | err er w' =>
        simp only [onErr, runFrom_cons ht, hn, executeRollback_eq]
        rfl

/-- A plan runs its first node and then the others; if one of those fails, the first node is undone
after them. -/
theorem runPlan_cons (n : Node β) (ns : List (Node β)) (h : n.flavour ≠ .tryNode) (b : β) :
    runPlan (n :: ns) b = (do
      let b' ← n.exec b
      onErr (runPlan ns b') (forEach (fun a => ignore a) (n.undo b'))) := by
  funext w
  change runFrom (n :: ns) b [] w = _
  cases hn : n.exec b w with
  | ok b' w' =>
    rw [runFrom_cons h, hn, bind_of_ok hn]
    simp only [runFrom_eq, onErr, executeRollback_appendUndos, forEach_undo]
    rfl
  | err er w' =>
    rw [runFrom_cons h, hn, bind_of_err hn]
    rfl

theorem runPlan_try (n : Node β) (ns : List (Node β)) (h : n.flavour = .tryNode) (b : β)
    (w : World) : runPlan (n :: ns) b w = runPlan ns b (n.exec b w).state :=
  runFrom_try h

/-! ## Plans without a rollback -/

theorem runPlan_single (n : Node β) (h : n.flavour ≠ .tryNode) (b : β) :
    runPlan [n] b = n.exec b := by
  rw [runPlan_cons n [] h]
  funext w
  cases hn : n.exec b w with
  | ok b' w' =>
    rw [bind_of_ok hn]
    rfl
  | err er w' => rw [bind_of_err hn]

/-- A first node without undo actions leaves nothing to roll back, so the plan is the sequence of
its two nodes. -/
theorem runPlan_pair (n1 n2 : Node β) (h1 : n1.flavour ≠ .tryNode) (h2 : n2.flavour ≠ .tryNode)
    (hu : ∀ b, n1.undo b = []) (b : β) : runPlan [n1, n2] b = (n1.exec b >>= n2.exec) := by
  rw [runPlan_cons n1 [n2] h1]
  congr 1
  funext b' w
  rw [runPlan_single n2 h2, hu]
  simp only [onErr]
  cases n2.exec b' w <;> rfl

end Bpfman
